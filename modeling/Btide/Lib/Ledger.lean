import Mathlib.Logic.Equiv.Basic

/-!
This module contains tables whose entries name a resource and parties that hold these entries.
-/

/--
What a party holds: a resource that is not in the table, or an entry of the table with its resource.
-/
inductive Holding (κ ρ : Type) where
  | nothing
  | resource (r : ρ)
  | entry (k : κ) (r : ρ)

namespace Holding

def resource? : Holding κ ρ → Option ρ
  | .nothing => none
  | .resource r => some r
  | .entry _ r => some r

@[simp]
theorem resource?_nothing : (nothing : Holding κ ρ).resource? = none := rfl

@[simp]
theorem resource?_resource (r : ρ) : (resource r : Holding κ ρ).resource? = some r := rfl

@[simp]
theorem resource?_entry (k : κ) (r : ρ) : (entry k r).resource? = some r := rfl

end Holding

structure Ledger (ι κ ρ σ : Type) where
  table : σ → Option (κ × ρ)
  isOpen : ρ → Prop
  holding : ι → Holding κ ρ

namespace Ledger

variable {ι κ ρ σ : Type} {l l' : Ledger ι κ ρ σ}

/--
Every entry is held by exactly one party, no key has two entries, and every resource that is held is
open and has one holder.
-/
structure Balanced (l : Ledger ι κ ρ σ) : Prop where
  held {i : σ} {k : κ} {r : ρ} (h : l.table i = some (k, r)) : ∃ p, l.holding p = .entry k r
  listed {p : ι} {k : κ} {r : ρ} (h : l.holding p = .entry k r) : ∃ i, l.table i = some (k, r)
  keys {i j : σ} {k : κ} {r r' : ρ} (h : l.table i = some (k, r)) (h' : l.table j = some (k, r'))
    : i = j
  opened {p : ι} {r : ρ} (h : (l.holding p).resource? = some r) : l.isOpen r
  owner {p q : ι} {r : ρ} (h : (l.holding p).resource? = some r)
    (h' : (l.holding q).resource? = some r) : p = q

/--
No key has two entries, and every entry that is held is in the table and has one holder. There can be
entries that nobody holds.
-/
structure Keyed (l : Ledger ι κ ρ σ) : Prop where
  keys {i j : σ} {k : κ} {r r' : ρ} (h : l.table i = some (k, r)) (h' : l.table j = some (k, r')) : i = j
  listed {p : ι} {k : κ} {r : ρ} (h : l.holding p = .entry k r) : ∃ i, l.table i = some (k, r)
  holder {p q : ι} {k : κ} {r r' : ρ} (h : l.holding p = .entry k r) (h' : l.holding q = .entry k r') : p = q

inductive Move [DecidableEq ι] [DecidableEq σ] (l : Ledger ι κ ρ σ) : Ledger ι κ ρ σ → Prop where
  | acquire {p : ι} {r : ρ} (hnothing : l.holding p = .nothing) (hfresh : ¬ l.isOpen r)
    : Move l
      { l with
        isOpen := fun x => x = r ∨ l.isOpen x
        holding := Function.update l.holding p (.resource r) }
  | release {p : ι} {r : ρ} (hholds : l.holding p = .resource r)
    : Move l
      { l with
        isOpen := fun x => l.isOpen x ∧ x ≠ r
        holding := Function.update l.holding p .nothing }
  | leak {p : ι} {r : ρ} (hholds : l.holding p = .resource r)
    : Move l { l with holding := Function.update l.holding p .nothing }
  | register {p : ι} {i : σ} {k : κ} {r : ρ} (hholds : l.holding p = .resource r)
      (hslot : l.table i = none) (hkey : ∀ j r', l.table j ≠ some (k, r'))
    : Move l
      { l with
        table := Function.update l.table i (some (k, r))
        holding := Function.update l.holding p (.entry k r) }
  | transfer {p q : ι} {k : κ} {r : ρ} (hholds : l.holding p = .entry k r)
      (hnothing : l.holding q = .nothing)
    : Move l
      { l with
        holding := Function.update (Function.update l.holding p .nothing) q (.entry k r) }
  | unregister {p : ι} {i : σ} {k : κ} {r : ρ} (hholds : l.holding p = .entry k r)
      (hslot : l.table i = some (k, r))
    : Move l
      { l with
        table := Function.update l.table i none
        holding := Function.update l.holding p (.resource r) }

theorem update_entry [DecidableEq ι] {p q : ι} {x : Holding κ ρ} {k : κ} {r : ρ} (hx : x ≠ .entry k r)
    : Function.update l.holding p x q = .entry k r ↔ q ≠ p ∧ l.holding q = .entry k r := by
  by_cases hqp : q = p
  . subst hqp
    rw [Function.update_self]
    simp [hx]
  . rw [Function.update_of_ne hqp]
    simp [hqp]

namespace Keyed

variable [DecidableEq ι]

theorem keep (h : l.Keyed) {p : ι} {x : Holding κ ρ} {isOpen : ρ → Prop}
    (hx : ∀ k r, x = .entry k r → l.holding p = .entry k r)
    : Keyed { l with isOpen, holding := Function.update l.holding p x } := by
  have hback : ∀ {q k r}, Function.update l.holding p x q = .entry k r → l.holding q = .entry k r := by
    intro q k r hq
    by_cases hqp : q = p
    . subst hqp
      rw [Function.update_self] at hq
      exact hx k r hq
    . rw [Function.update_of_ne hqp] at hq
      exact hq
  exact ⟨h.keys, fun hq => h.listed (hback hq), fun hq hq' => h.holder (hback hq) (hback hq')⟩

theorem transfer (h : l.Keyed) {p q : ι} {k : κ} {r : ρ} {isOpen : ρ → Prop}
    (hholds : l.holding p = .entry k r)
    : Keyed
      { l with
        isOpen
        holding := Function.update (Function.update l.holding p .nothing) q (.entry k r) } := by
  -- an entry behind the step was held before, by the giver if the receiver has it
  have hback : ∀ {a k' r'},
      Function.update (Function.update l.holding p .nothing) q (.entry k r) a = .entry k' r'
        → l.holding (if a = q then p else a) = .entry k' r' ∧ (a = q ∨ a ≠ p) := by
    intro a k' r' ha
    by_cases haq : a = q
    . subst haq
      rw [Function.update_self] at ha
      rw [if_pos rfl, hholds]
      exact ⟨ha, .inl rfl⟩
    . rw [Function.update_of_ne haq] at ha
      rw [if_neg haq]
      by_cases hap : a = p
      . subst hap
        rw [Function.update_self] at ha
        contradiction
      . rw [Function.update_of_ne hap] at ha
        exact ⟨ha, .inr hap⟩
  refine ⟨h.keys, fun ha => h.listed (hback ha).1, ?_⟩
  intro a b k' r' r'' ha hb
  obtain ⟨ha, hap⟩ := hback ha
  obtain ⟨hb, hbp⟩ := hback hb
  have hab := h.holder ha hb
  by_cases haq : a = q
  . by_cases hbq : b = q
    . rw [haq, hbq]
    . rw [if_pos haq, if_neg hbq] at hab
      exact absurd hab.symm (hbp.resolve_left hbq)
  . by_cases hbq : b = q
    . rw [if_neg haq, if_pos hbq] at hab
      exact absurd hab (hap.resolve_left haq)
    . rw [if_neg haq, if_neg hbq] at hab
      exact hab

variable [DecidableEq σ]

theorem register (h : l.Keyed) {p : ι} {i : σ} {k : κ} {r : ρ} {isOpen : ρ → Prop}
    (hslot : l.table i = none) (hkey : ∀ j r', l.table j ≠ some (k, r'))
    : Keyed
      { l with
        isOpen
        table := Function.update l.table i (some (k, r))
        holding := Function.update l.holding p (.entry k r) } where
  keys {a b k' r' r''} ha hb := by
    dsimp only at ha hb
    by_cases hai : a = i
    . by_cases hbi : b = i
      . rw [hai, hbi]
      . rw [hai, Function.update_self, Option.some.injEq, Prod.mk.injEq] at ha
        rw [Function.update_of_ne hbi, ← ha.1] at hb
        exact absurd hb (hkey b r'')
    . rw [Function.update_of_ne hai] at ha
      by_cases hbi : b = i
      . rw [hbi, Function.update_self, Option.some.injEq, Prod.mk.injEq] at hb
        rw [← hb.1] at ha
        exact absurd ha (hkey a r')
      . rw [Function.update_of_ne hbi] at hb
        exact h.keys ha hb
  listed {q k' r'} hq := by
    dsimp only at hq ⊢
    by_cases hqp : q = p
    . rw [hqp, Function.update_self, Holding.entry.injEq] at hq
      refine ⟨i, ?_⟩
      rw [Function.update_self, hq.1, hq.2]
    . rw [Function.update_of_ne hqp] at hq
      obtain ⟨j, hj⟩ := h.listed hq
      refine ⟨j, ?_⟩
      rw [Function.update_of_ne]
      . exact hj
      . rintro rfl
        rw [hslot] at hj
        contradiction
  holder {q q' k' r' r''} hq hq' := by
    dsimp only at hq hq'
    -- nobody held the new key
    have hother : ∀ {a x}, l.holding a ≠ .entry k x := by
      intro a x ha
      obtain ⟨j, hj⟩ := h.listed ha
      exact hkey j x hj
    by_cases hqp : q = p
    . by_cases hqp' : q' = p
      . rw [hqp, hqp']
      . rw [hqp, Function.update_self, Holding.entry.injEq] at hq
        rw [Function.update_of_ne hqp', ← hq.1] at hq'
        exact absurd hq' hother
    . rw [Function.update_of_ne hqp] at hq
      by_cases hqp' : q' = p
      . rw [hqp', Function.update_self, Holding.entry.injEq] at hq'
        rw [← hq'.1] at hq
        exact absurd hq hother
      . rw [Function.update_of_ne hqp'] at hq'
        exact h.holder hq hq'

theorem unregister (h : l.Keyed) {p : ι} {i : σ} {k : κ} {r : ρ} {x : Holding κ ρ} {isOpen : ρ → Prop}
    (hholds : l.holding p = .entry k r) (hslot : l.table i = some (k, r)) (hx : ∀ k r, x ≠ .entry k r)
    : Keyed
      { l with
        isOpen
        table := Function.update l.table i none
        holding := Function.update l.holding p x } where
  keys {a b k' r' r''} ha hb := by
    dsimp only at ha hb
    have hback : ∀ {a y}, Function.update l.table i none a = some y → l.table a = some y := by
      intro a y ha
      by_cases hai : a = i
      . rw [hai, Function.update_self] at ha
        contradiction
      . rw [Function.update_of_ne hai] at ha
        exact ha
    exact h.keys (hback ha) (hback hb)
  listed {q k' r'} hq := by
    dsimp only at hq ⊢
    rw [update_entry (hx _ _)] at hq
    obtain ⟨hqp, hq⟩ := hq
    obtain ⟨j, hj⟩ := h.listed hq
    refine ⟨j, ?_⟩
    rw [Function.update_of_ne]
    . exact hj
    . rintro rfl
      rw [hslot, Option.some.injEq, Prod.mk.injEq] at hj
      rw [← hj.1] at hq
      exact hqp (h.holder hq hholds)
  holder hq hq' := by
    dsimp only at hq hq'
    rw [update_entry (hx _ _)] at hq hq'
    exact h.holder hq.2 hq'.2

end Keyed

namespace Balanced

theorem holder (h : l.Balanced) {p q : ι} {k : κ} {r r' : ρ} (hp : l.holding p = .entry k r)
    (hq : l.holding q = .entry k r') : p = q := by
  obtain ⟨i, hi⟩ := h.listed hp
  obtain ⟨j, hj⟩ := h.listed hq
  have hij := h.keys hi hj
  subst hij
  have hr : r = r' := by
    rw [hi] at hj
    simp only [Option.some.injEq, Prod.mk.injEq, true_and] at hj
    exact hj
  subst hr
  apply h.owner (r := r)
  . rw [hp]
    rfl
  . rw [hq]
    rfl

theorem keyed (h : l.Balanced) : l.Keyed where
  keys := h.keys
  listed := h.listed
  holder := h.holder

theorem comp (h : l.Balanced) (e : ι ≃ ι) : Balanced { l with holding := l.holding ∘ e } where
  held hi := by
    obtain ⟨p, hp⟩ := h.held hi
    refine ⟨e.symm p, ?_⟩
    simp only [Function.comp_apply, Equiv.apply_symm_apply]
    exact hp
  listed hp := h.listed hp
  keys hi hj := h.keys hi hj
  opened hp := h.opened hp
  owner hp hq := e.injective (h.owner hp hq)

variable [DecidableEq ι]

theorem resource?_update {p q : ι} {x : Holding κ ρ} {r : ρ}
    (hx : ∀ r, x.resource? = some r → (l.holding p).resource? = some r)
    (hq : (Function.update l.holding p x q).resource? = some r)
    : (l.holding q).resource? = some r := by
  by_cases hqp : q = p
  . subst hqp
    rw [Function.update_self] at hq
    exact hx r hq
  . rw [Function.update_of_ne hqp] at hq
    exact hq

theorem of_resource (h : l.Balanced) {p : ι} {x : Holding κ ρ} {isOpen : ρ → Prop}
    (hentry : ∀ k r, l.holding p ≠ .entry k r) (hx : ∀ k r, x ≠ .entry k r)
    (hopened : ∀ q r, (Function.update l.holding p x q).resource? = some r → isOpen r)
    (howner : ∀ q q' r, (Function.update l.holding p x q).resource? = some r
      → (Function.update l.holding p x q').resource? = some r → q = q')
    : Balanced { l with isOpen, holding := Function.update l.holding p x } where
  held hi := by
    obtain ⟨q, hq⟩ := h.held hi
    refine ⟨q, ?_⟩
    rw [update_entry (hx _ _)]
    refine ⟨?_, hq⟩
    rintro rfl
    exact hentry _ _ hq
  listed hq := by
    rw [update_entry (hx _ _)] at hq
    apply h.listed hq.2
  keys hi hj := h.keys hi hj
  opened hq := hopened _ _ hq
  owner hq hq' := howner _ _ _ hq hq'

theorem acquire (h : l.Balanced) {p : ι} {r : ρ} (hnothing : l.holding p = .nothing)
    (hfresh : ¬ l.isOpen r)
    : Balanced
      { l with
        isOpen := fun x => x = r ∨ l.isOpen x
        holding := Function.update l.holding p (.resource r) } := by
  -- nobody else holds the new resource, which was not open
  have hnew : ∀ q x, (Function.update l.holding p (.resource r) q).resource? = some x
      → q = p ∧ x = r ∨ q ≠ p ∧ x ≠ r ∧ (l.holding q).resource? = some x := by
    intro q x hq
    by_cases hqp : q = p
    . subst hqp
      rw [Function.update_self] at hq
      simp only [Holding.resource?_resource, Option.some.injEq] at hq
      exact .inl ⟨rfl, hq.symm⟩
    . rw [Function.update_of_ne hqp] at hq
      refine .inr ⟨hqp, ?_, hq⟩
      rintro rfl
      apply hfresh
      apply h.opened hq
  apply h.of_resource
  . simp [hnothing]
  . simp
  . intro q x hq
    obtain ⟨-, hx⟩ | ⟨-, -, hx⟩ := hnew q x hq
    . exact .inl hx
    . exact .inr (h.opened hx)
  . intro q q' x hq hq'
    obtain ⟨hqp, hx⟩ | ⟨-, hx, hq⟩ := hnew q x hq
    . obtain ⟨hqp', -⟩ | ⟨-, hx', -⟩ := hnew q' x hq'
      . rw [hqp, hqp']
      . exact absurd hx hx'
    . obtain ⟨-, hx'⟩ | ⟨-, -, hq'⟩ := hnew q' x hq'
      . exact absurd hx' hx
      . apply h.owner hq hq'

theorem leak (h : l.Balanced) {p : ι} {r : ρ} (hholds : l.holding p = .resource r)
    : Balanced { l with holding := Function.update l.holding p .nothing } := by
  apply h.of_resource
  . simp [hholds]
  . simp
  . intro q x hq
    apply h.opened (resource?_update (by simp) hq)
  . intro q q' x hq hq'
    apply h.owner (resource?_update (by simp) hq) (resource?_update (by simp) hq')

theorem release (h : l.Balanced) {p : ι} {r : ρ} (hholds : l.holding p = .resource r)
    : Balanced
      { l with
        isOpen := fun x => l.isOpen x ∧ x ≠ r
        holding := Function.update l.holding p .nothing } := by
  apply h.of_resource
  . simp [hholds]
  . simp
  . intro q x hq
    have hold := resource?_update (by simp) hq
    refine ⟨h.opened hold, ?_⟩
    -- the party that closes the resource was its only holder
    rintro rfl
    have hqp : q = p := by
      apply h.owner hold
      rw [hholds]
      rfl
    subst hqp
    rw [Function.update_self] at hq
    simp at hq
  . intro q q' x hq hq'
    apply h.owner (resource?_update (by simp) hq) (resource?_update (by simp) hq')

theorem transfer (h : l.Balanced) {p q : ι} {k : κ} {r : ρ} (hholds : l.holding p = .entry k r)
    (hnothing : l.holding q = .nothing)
    : Balanced
      { l with holding := Function.update (Function.update l.holding p .nothing) q (.entry k r) } := by
  have hpq : p ≠ q := by
    rintro rfl
    rw [hholds] at hnothing
    simp at hnothing
  -- the receiver held nothing, so the two parties only change places
  have hswap : Function.update (Function.update l.holding p .nothing) q (.entry k r)
      = l.holding ∘ Equiv.swap p q := by
    funext a
    by_cases haq : a = q
    . subst haq
      rw [Function.update_self, Function.comp_apply, Equiv.swap_apply_right, hholds]
    . rw [Function.update_of_ne haq]
      by_cases hap : a = p
      . subst hap
        rw [Function.update_self, Function.comp_apply, Equiv.swap_apply_left, hnothing]
      . rw [Function.update_of_ne hap, Function.comp_apply, Equiv.swap_apply_of_ne_of_ne hap haq]
  rw [hswap]
  apply h.comp

variable [DecidableEq σ]

theorem register (h : l.Balanced) {p : ι} {i : σ} {k : κ} {r : ρ} (hholds : l.holding p = .resource r)
    (hslot : l.table i = none) (hkey : ∀ j r', l.table j ≠ some (k, r'))
    : Balanced
      { l with
        table := Function.update l.table i (some (k, r))
        holding := Function.update l.holding p (.entry k r) } where
  held {j k' r'} hj := by
    dsimp only at hj ⊢
    by_cases hji : j = i
    . subst hji
      simp only [Function.update_self, Option.some.injEq, Prod.mk.injEq] at hj
      refine ⟨p, ?_⟩
      rw [Function.update_self, hj.1, hj.2]
    . rw [Function.update_of_ne hji] at hj
      obtain ⟨q, hq⟩ := h.held hj
      refine ⟨q, ?_⟩
      rw [Function.update_of_ne]
      . exact hq
      . rintro rfl
        rw [hholds] at hq
        simp at hq
  listed hq := (h.keyed.register hslot hkey).listed hq
  keys hj hj' := (h.keyed.register hslot hkey).keys hj hj'
  opened hq := h.opened (resource?_update (by simp [hholds]) hq)
  owner hq hq' :=
    h.owner (resource?_update (by simp [hholds]) hq) (resource?_update (by simp [hholds]) hq')

theorem unregister (h : l.Balanced) {p : ι} {i : σ} {k : κ} {r : ρ}
    (hholds : l.holding p = .entry k r) (hslot : l.table i = some (k, r))
    : Balanced
      { l with
        table := Function.update l.table i none
        holding := Function.update l.holding p (.resource r) } where
  held {j k' r'} hj := by
    dsimp only at hj ⊢
    have hji : j ≠ i := by
      rintro rfl
      rw [Function.update_self] at hj
      simp at hj
    rw [Function.update_of_ne hji] at hj
    obtain ⟨q, hq⟩ := h.held hj
    refine ⟨q, ?_⟩
    rw [Function.update_of_ne]
    . exact hq
    . rintro rfl
      rw [hholds] at hq
      simp only [Holding.entry.injEq] at hq
      rw [← hq.1] at hj
      exact hji (h.keys hj hslot)
  listed hq := (h.keyed.unregister hholds hslot (by simp)).listed hq
  keys hj hj' := (h.keyed.unregister hholds hslot (by simp)).keys hj hj'
  opened hq := h.opened (resource?_update (by simp [hholds]) hq)
  owner hq hq' :=
    h.owner (resource?_update (by simp [hholds]) hq) (resource?_update (by simp [hholds]) hq')

end Balanced

theorem Move.balanced [DecidableEq ι] [DecidableEq σ] (hmove : Move l l') (h : l.Balanced)
    : l'.Balanced := by
  cases hmove with
  | acquire hnothing hfresh => apply h.acquire hnothing hfresh
  | release hholds => apply h.release hholds
  | leak hholds => apply h.leak hholds
  | register hholds hslot hkey => apply h.register hholds hslot hkey
  | transfer hholds hnothing => apply h.transfer hholds hnothing
  | unregister hholds hslot => apply h.unregister hholds hslot

end Ledger
