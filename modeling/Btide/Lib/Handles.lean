import Mathlib.Data.Finset.Union

/-!
This module contains traces of operations on handles and the rules by which balanced traces compose.
-/

inductive HandleOp (η : Type) where
  | acquire (h : η)
  | use (h : η)
  | release (h : η)
  deriving DecidableEq, Repr

namespace HandleOp

variable {η : Type}

def handle : HandleOp η → η
  | .acquire h => h
  | .use h => h
  | .release h => h

variable [DecidableEq η]

/--
The handles that are open behind one operation, if it is allowed: only a handle that is not open can be
acquired, and only an open one can be used and released.
-/
def step (s : Finset η) : HandleOp η → Option (Finset η)
  | .acquire h => if h ∈ s then none else some (insert h s)
  | .use h => if h ∈ s then some s else none
  | .release h => if h ∈ s then some (s.erase h) else none

def run (s : Finset η) : List (HandleOp η) → Option (Finset η)
  | [] => some s
  | op :: ops => (op.step s).bind (run · ops)

@[simp]
theorem run_nil (s : Finset η) : run s [] = some s := rfl

@[simp]
theorem run_cons (s : Finset η) (op : HandleOp η) (ops : List (HandleOp η))
    : run s (op :: ops) = (op.step s).bind (run · ops) := rfl

theorem run_append (s : Finset η) (ops ops' : List (HandleOp η))
    : run s (ops ++ ops') = (run s ops).bind (run · ops') := by
  induction ops generalizing s with
  | nil => rfl
  | cons op ops ih =>
    rw [List.cons_append, run_cons, run_cons]
    cases op.step s with
    | none => rfl
    | some t => exact ih t

theorem run_uses {s : Finset η} {hs : List η} (h : ∀ x ∈ hs, x ∈ s) : run s (hs.map .use) = some s := by
  induction hs with
  | nil => rfl
  | cons x hs ih =>
    rw [List.map_cons, run_cons, step, if_pos (h x List.mem_cons_self), Option.bind_some]
    exact ih fun y hy => h y (List.mem_cons_of_mem x hy)

def Balanced (ops : List (HandleOp η)) : Prop :=
  run ∅ ops = some ∅

theorem balanced_nil : Balanced ([] : List (HandleOp η)) := rfl

theorem Balanced.append {ops ops' : List (HandleOp η)} (h : Balanced ops) (h' : Balanced ops')
    : Balanced (ops ++ ops') := by
  unfold Balanced at h ⊢
  rw [run_append, h]
  exact h'

theorem Balanced.flatMap {traces : List α} {f : α → List (HandleOp η)} (h : ∀ a ∈ traces, Balanced (f a))
    : Balanced (traces.flatMap f) := by
  induction traces with
  | nil => exact balanced_nil
  | cons a traces ih =>
    rw [List.flatMap_cons]
    apply (h a (by simp)).append
    apply ih
    intro b hb
    exact h b (by simp [hb])

def Acquires (hs : List η) (ops : List (HandleOp η)) : Prop :=
  hs.Nodup → ∀ s, Disjoint s hs.toFinset → run s ops = some (s ∪ hs.toFinset)

/--
The trace releases the handles `hs`, and uses no others than these and those of `ctx`.
-/
def Releases (ctx hs : List η) (ops : List (HandleOp η)) : Prop :=
  hs.Nodup → ∀ s, ctx.toFinset ⊆ s → Disjoint s hs.toFinset → run (s ∪ hs.toFinset) ops = some s

/--
The trace leaves all handles as they are, if those of `ctx` are open and those of `own` are not.
-/
def Keeps (ctx own : List η) (ops : List (HandleOp η)) : Prop :=
  ∀ s, ctx.toFinset ⊆ s → Disjoint s own.toFinset → run s ops = some s

section Acquires

variable {hs hs' : List η} {ops ops' : List (HandleOp η)}

theorem acquires_nil : Acquires [] ([] : List (HandleOp η)) := by
  intro _ s _
  rw [run_nil, List.toFinset_nil, Finset.union_empty]

theorem Acquires.append (h : Acquires hs ops) (h' : Acquires hs' ops')
    : Acquires (hs ++ hs') (ops ++ ops') := by
  intro hnodup s hdisj
  obtain ⟨hleft, hright, hapart⟩ := List.nodup_append'.mp hnodup
  rw [List.toFinset_append, Finset.disjoint_union_right] at hdisj
  rw [run_append, h hleft s hdisj.1, Option.bind_some, h' hright, List.toFinset_append, Finset.union_assoc]
  rw [Finset.disjoint_union_left]
  exact ⟨hdisj.2, List.disjoint_toFinset_iff_disjoint.mpr hapart⟩

theorem acquires_acquire (h : η) : Acquires [h] [.acquire h] := by
  intro _ s hdisj
  rw [List.toFinset_cons, List.toFinset_nil, insert_empty_eq, Finset.disjoint_singleton_right] at hdisj
  simp only [run_cons, run_nil, step, if_neg hdisj, Option.bind_some, List.toFinset_cons, List.toFinset_nil,
    insert_empty_eq, Finset.union_singleton]

theorem Acquires.cons (h : η) (hops : Acquires hs ops) : Acquires (h :: hs) (.acquire h :: ops) :=
  (acquires_acquire h).append hops

theorem acquires_map (hs : List η) : Acquires hs (hs.map .acquire) := by
  induction hs with
  | nil => exact acquires_nil
  | cons h hs ih => exact ih.cons h

theorem Acquires.perm (h : Acquires hs ops) (hperm : hs.Perm hs') : Acquires hs' ops := by
  intro hnodup s hdisj
  rw [← List.toFinset_eq_of_perm _ _ hperm] at hdisj ⊢
  exact h (hperm.nodup_iff.mpr hnodup) s hdisj

end Acquires

section Releases

variable {ctx ctx' hs hs' : List η} {ops ops' : List (HandleOp η)}

theorem releases_nil (ctx : List η) : Releases ctx [] ([] : List (HandleOp η)) := by
  intro _ s _ _
  rw [run_nil, List.toFinset_nil, Finset.union_empty]

theorem Releases.append (h : Releases (hs' ++ ctx) hs ops) (h' : Releases ctx hs' ops')
    : Releases ctx (hs ++ hs') (ops ++ ops') := by
  intro hnodup s hctx hdisj
  obtain ⟨hleft, hright, hapart⟩ := List.nodup_append'.mp hnodup
  rw [List.toFinset_append, Finset.disjoint_union_right] at hdisj
  have hfirst : run (s ∪ hs'.toFinset ∪ hs.toFinset) ops = some (s ∪ hs'.toFinset) := by
    apply h hleft
    . rw [List.toFinset_append, Finset.union_comm]
      exact Finset.union_subset_union_left hctx
    . rw [Finset.disjoint_union_left]
      exact ⟨hdisj.1, (List.disjoint_toFinset_iff_disjoint.mpr hapart).symm⟩
  rw [run_append, List.toFinset_append, Finset.union_comm hs.toFinset, ← Finset.union_assoc, hfirst,
    Option.bind_some]
  exact h' hright s hctx hdisj.2

theorem Releases.use {h : η} (hops : Releases ctx hs ops) (hopen : h ∈ hs ++ ctx)
    : Releases ctx hs (.use h :: ops) := by
  intro hnodup s hctx hdisj
  have hmem : h ∈ s ∪ hs.toFinset := by
    rw [List.mem_append] at hopen
    rw [Finset.mem_union, List.mem_toFinset]
    apply hopen.symm.imp_left
    intro hin
    exact hctx (List.mem_toFinset.mpr hin)
  rw [run_cons, step, if_pos hmem, Option.bind_some]
  exact hops hnodup s hctx hdisj

theorem releases_release (ctx : List η) (h : η) : Releases ctx [h] [.release h] := by
  intro _ s _ hdisj
  rw [List.toFinset_cons, List.toFinset_nil, insert_empty_eq, Finset.disjoint_singleton_right] at hdisj
  simp only [List.toFinset_cons, List.toFinset_nil, insert_empty_eq, Finset.union_singleton, run_cons, step,
    Finset.mem_insert_self, ↓reduceIte, Finset.erase_insert hdisj, Option.bind_some, run_nil]

theorem Releases.mono (h : Releases ctx hs ops) (hsub : ctx ⊆ ctx') : Releases ctx' hs ops := by
  intro hnodup s hctx hdisj
  apply h hnodup s ?_ hdisj
  intro a ha
  apply hctx
  rw [List.mem_toFinset] at ha ⊢
  exact hsub ha

theorem Releases.perm (h : Releases ctx hs ops) (hperm : hs.Perm hs') : Releases ctx hs' ops := by
  intro hnodup s hctx hdisj
  rw [← List.toFinset_eq_of_perm _ _ hperm] at hdisj ⊢
  exact h (hperm.nodup_iff.mpr hnodup) s hctx hdisj

theorem Releases.seq (h : Releases ctx hs ops) (h' : Releases ctx hs' ops')
    : Releases ctx (hs ++ hs') (ops ++ ops') :=
  (h.mono (List.subset_append_right hs' ctx)).append h'

theorem Releases.flatMap {items : List α} {own : α → List η} {f : α → List (HandleOp η)}
    (h : ∀ a ∈ items, Releases ctx (own a) (f a)) : Releases ctx (items.flatMap own) (items.flatMap f) := by
  induction items with
  | nil => exact releases_nil ctx
  | cons a items ih =>
    rw [List.flatMap_cons, List.flatMap_cons]
    apply (h a List.mem_cons_self).seq
    apply ih
    intro b hb
    exact h b (List.mem_cons_of_mem a hb)

end Releases

theorem keeps_nil (ctx own : List η) : Keeps ctx own [] := by
  intro s _ _
  rfl

theorem Keeps.append {ctx own : List η} {ops ops' : List (HandleOp η)} (h : Keeps ctx own ops)
    (h' : Keeps ctx own ops') : Keeps ctx own (ops ++ ops') := by
  intro s hctx hdisj
  rw [run_append, h s hctx hdisj, Option.bind_some]
  exact h' s hctx hdisj

theorem mem_of_run {s t : Finset η} {ops : List (HandleOp η)} {h : η} (hrun : run s ops = some t)
    (hmem : h ∈ t) : h ∈ s ∨ .acquire h ∈ ops := by
  induction ops generalizing s with
  | nil =>
    rw [run_nil, Option.some.injEq] at hrun
    rw [hrun]
    exact .inl hmem
  | cons op ops ih =>
    rw [run_cons, Option.bind_eq_some_iff] at hrun
    obtain ⟨u, hstep, hrun⟩ := hrun
    have hrest := ih hrun
    cases op with
    | acquire a =>
      rw [step, Option.ite_none_left_eq_some, Option.some.injEq] at hstep
      rw [← hstep.2, Finset.mem_insert, or_assoc] at hrest
      rw [List.mem_cons, acquire.injEq, or_left_comm]
      exact hrest
    | use a =>
      rw [step, Option.ite_none_right_eq_some, Option.some.injEq] at hstep
      rw [← hstep.2] at hrest
      exact hrest.imp_right (List.mem_cons_of_mem _)
    | release a =>
      rw [step, Option.ite_none_right_eq_some, Option.some.injEq] at hstep
      rw [← hstep.2] at hrest
      exact hrest.imp Finset.mem_of_mem_erase (List.mem_cons_of_mem _)

theorem mem_of_release {s t : Finset η} {ops ops' : List (HandleOp η)} {h : η}
    (hrun : run s (ops ++ .release h :: ops') = some t) : h ∈ s ∨ .acquire h ∈ ops := by
  rw [run_append, Option.bind_eq_some_iff] at hrun
  obtain ⟨u, hrun, hrest⟩ := hrun
  rw [run_cons, step, Option.bind_eq_some_iff] at hrest
  obtain ⟨_, hstep, _⟩ := hrest
  rw [Option.ite_none_right_eq_some] at hstep
  exact mem_of_run hrun hstep.1

end HandleOp
