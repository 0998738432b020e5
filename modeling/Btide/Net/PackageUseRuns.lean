import Btide.Net.PackageUse

/-!
This module contains what holds of the packages that handlers work on, in every interleaving with the
commands that add and remove packages.
-/

open Bytes CLib

namespace Btide

namespace PackageStore

variable {store store' : PackageStore}

structure Extends (store store' : PackageStore) : Prop where
  packages_eq : store'.packages = store.packages
  objects_isSome : ∀ ptr, (store.objects ptr).isSome = true → (store'.objects ptr).isSome = true

theorem Extends.refl (store : PackageStore) : store.Extends store where
  packages_eq := rfl
  objects_isSome := by
    intro ptr hptr
    exact hptr

theorem update_isSome {objects : ObjPtr → Option BpkgObj} {ptr : ObjPtr} {bpkg : BpkgObj} {other : ObjPtr}
    (h : (objects other).isSome = true)
    : (Function.update objects ptr (some bpkg) other).isSome = true := by
  by_cases hptr : other = ptr
  . rw [hptr, Function.update_self]
    rfl
  . rw [Function.update_of_ne hptr]
    exact h

theorem extends_assign (store : PackageStore) (ptr : ObjPtr) (bpkg : BpkgObj)
    : store.Extends (store.assign ptr bpkg) where
  packages_eq := rfl
  objects_isSome := by
    intro other hother
    apply update_isSome hother

theorem choose_cases {objects : ObjPtr → Option BpkgObj} {ident chunkHash : Bytes}
    {managedArray : List (Option ObjPtr)} {ptr : ObjPtr}
    (h : choose objects ident chunkHash managedArray = .ok (some ptr))
    : some ptr ∈ managedArray
        ∧ ∃ bpkg slot,
            objects ptr = some bpkg ∧ chunkInMemory [some bpkg] ident chunkHash = .ok (.found slot) := by
  induction managedArray with
  | nil => simp [choose] at h
  | cons entry managedArray ih =>
    have hrest := fun h => (ih h).imp_left (List.mem_cons_of_mem entry)
    cases entry with
    | none => exact hrest h
    | some first =>
      rw [choose] at h
      obtain ⟨bpkg, hload, h⟩ := bind_eq_ok.mp h
      obtain ⟨lookup, hlookup, h⟩ := bind_eq_ok.mp h
      rw [load_eq_ok] at hload
      cases lookup with
      | found slot =>
        simp only [pure_eq_ok, Option.some.injEq] at h
        rw [← h]
        exact ⟨List.mem_cons_self, bpkg, slot, hload, hlookup⟩
      | noHash => simp [pure, Except.pure] at h
      | noPackage => exact hrest h

structure Advances (store : PackageStore) (stage : Stage) (next : PackageStore × Stage) : Prop where
  kept : store.Extends next.1
  chosen : next.2.chosenBpkg? = none ∨ next.2.chosenBpkg? = stage.chosenBpkg?

theorem advances_idle (store : PackageStore) (stage : Stage) : store.Advances stage (store, .idle) where
  kept := .refl store
  chosen := .inl rfl

theorem advances_next {stage stage' : Stage} (h : stage'.chosenBpkg? = stage.chosenBpkg?)
    : store.Advances stage (store, stage') where
  kept := .refl store
  chosen := .inr h

theorem advances_assign {stage stage' : Stage} {ptr : ObjPtr} {bpkg : BpkgObj}
    (h : stage'.chosenBpkg? = stage.chosenBpkg?)
    : store.Advances stage (store.assign ptr bpkg, stage') where
  kept := extends_assign store ptr bpkg
  chosen := .inr h

theorem advance_cases {bytes : Bytes} {stage : Stage} {next : PackageStore × Stage}
    (h : store.advance bytes stage = .ok next) : store.Advances stage next := by
  cases stage with
  | idle =>
    rw [advance, Except.ok.injEq] at h
    rw [← h]
    apply advances_idle
  | hash chosenBpkg resArgs =>
    rw [advance] at h
    obtain ⟨bpkg, _, h⟩ := bind_eq_ok.mp h
    split at h
    . simp only [bind_eq_ok] at h
      obtain ⟨filename, _, entry, _, chunk, _, h⟩ := h
      split at h
      . rw [pure_eq_ok] at h
        rw [← h]
        apply advances_assign
        rfl
      . rw [pure_eq_ok] at h
        rw [← h]
        apply advances_assign
        rfl
    . simp [throw_eq_ok] at h
  | block chosenBpkg resArgs bufferSize shaBuff i =>
    rw [advance] at h
    split at h
    . simp only [bind_eq_ok, pure_eq_ok] at h
      obtain ⟨hash, _, bpkg, _, entry, _, chunk, _, nodePtr, _, tree, _, h⟩ := h
      rw [← h]
      apply advances_assign
      rfl
    . rw [Except.ok.injEq] at h
      rw [← h]
      apply advances_next
      rfl
  | search chosenBpkg resArgs i =>
    rw [advance] at h
    obtain ⟨bpkg, _, h⟩ := bind_eq_ok.mp h
    split at h
    . rw [pure_eq_ok] at h
      rw [← h]
      apply advances_idle
    . simp only [bind_eq_ok] at h
      obtain ⟨entry, _, tree, _, has, _, h⟩ := h
      split at h
      . rw [pure_eq_ok] at h
        rw [← h]
        apply advances_next
        rfl
      . rw [pure_eq_ok] at h
        rw [← h]
        apply advances_next
        rfl
  | measure chosenBpkg resArgs =>
    rw [advance] at h
    simp only [bind_eq_ok] at h
    obtain ⟨bpkg, _, reqArgs, _, h⟩ := h
    split at h
    . rw [pure_eq_ok] at h
      rw [← h]
      apply advances_idle
    . rw [pure_eq_ok] at h
      rw [← h]
      apply advances_next
      rfl
  | fopen chosenBpkg =>
    rw [advance] at h
    obtain ⟨bpkg, _, h⟩ := bind_eq_ok.mp h
    split at h
    . rw [pure_eq_ok] at h
      rw [← h]
      apply advances_idle
    . simp [throw_eq_ok] at h
  | check chosenBpkg resArgs =>
    rw [advance] at h
    simp only [bind_eq_ok] at h
    obtain ⟨bpkg, _, reqArgs, _, h⟩ := h
    split at h
    . rw [pure_eq_ok] at h
      rw [← h]
      apply advances_idle
    . split at h
      . rw [pure_eq_ok] at h
        rw [← h]
        apply advances_next
        rfl
      . rw [pure_eq_ok] at h
        rw [← h]
        apply advances_idle
  | fwrite chosenBpkg resArgs reqArgs =>
    rw [advance] at h
    obtain ⟨bpkg, _, h⟩ := bind_eq_ok.mp h
    split at h
    . split at h
      . rw [pure_eq_ok] at h
        rw [← h]
        apply advances_idle
      . simp only [bind_eq_ok] at h
        obtain ⟨data, _, h⟩ := h
        split at h
        . simp [throw, throwThe, MonadExceptOf.throw] at h
        . rw [pure_eq_ok] at h
          rw [← h]
          exact ⟨⟨rfl, fun _ hptr => hptr⟩, .inl rfl⟩
    . simp [throw_eq_ok] at h

theorem packageStatus.report_isSome {files : FileSystem} {managedArray : List (Option ObjPtr)}
    {objects objects' : ObjPtr → Option BpkgObj} {lines : List StatusLine}
    (h : report files managedArray objects = .ok (lines, objects')) {ptr : ObjPtr}
    (hptr : (objects ptr).isSome = true) : (objects' ptr).isSome = true := by
  induction managedArray generalizing objects lines with
  | nil =>
    simp only [report, Except.ok.injEq, Prod.mk.injEq] at h
    rw [← h.2]
    exact hptr
  | cons entry managedArray ih =>
    cases entry with
    | none =>
      rw [report] at h
      exact ih h hptr
    | some first =>
      rw [report] at h
      simp only [bind_eq_ok, pure_eq_ok, Prod.mk.injEq] at h
      obtain ⟨_, _, ⟨_, bpkg⟩, _, _, _, ⟨lines', objects''⟩, hrest, _, hobjects⟩ := h
      dsimp only at hobjects
      rw [hobjects] at hrest
      exact ih hrest (update_isSome hptr)

theorem packageStatus_extends {lines : List StatusLine} (h : packageStatus store = .ok (lines, store'))
    : store.Extends store' := by
  unfold packageStatus at h
  split at h
  . simp only [Except.ok.injEq, Prod.mk.injEq] at h
    rw [← h.2]
    exact .refl store
  . obtain ⟨⟨_, objects⟩, hreport, h⟩ := bind_eq_ok.mp h
    simp only [pure_eq_ok, Prod.mk.injEq] at h
    rw [← h.2]
    constructor
    . rfl
    . intro ptr hptr
      exact packageStatus.report_isSome hreport hptr

structure Sound (store : PackageStore) : Prop where
  counted : store.packages.Counted
  nodup : store.packages.managedArray.reduceOption.Nodup
  allocated : ∀ ptr, some ptr ∈ store.packages.managedArray → (store.objects ptr).isSome = true

theorem init_sound (files : FileSystem) : (init files).Sound where
  counted := rfl
  nodup := List.nodup_nil
  allocated := by
    intro ptr hptr
    simp [init, PackageTable.init] at hptr

theorem Sound.of_extends (h : store.Sound) (hextends : store.Extends store') : store'.Sound where
  counted := by
    rw [hextends.packages_eq]
    exact h.counted
  nodup := by
    rw [hextends.packages_eq]
    exact h.nodup
  allocated := by
    intro ptr hptr
    rw [hextends.packages_eq] at hptr
    exact hextends.objects_isSome ptr (h.allocated ptr hptr)

variable {ret : Int}

theorem Sound.add {dir path : Bytes} {env : AddEnv} (h : store.Sound)
    (hfresh : (store.objects env.ptr).isSome = false)
    (hadd : addPackage dir path env store = .ok (store', ret))
    : store'.Sound
        ∧ ∀ ptr, some ptr ∈ store.packages.managedArray → some ptr ∈ store'.packages.managedArray := by
  obtain ⟨_, rfl⟩ | ⟨bpkg, packages, files, _, hinsert, rfl⟩ := addPackage_cases hadd
  . exact ⟨h, fun ptr hptr => hptr⟩
  . have hnew : env.ptr ∉ store.packages.managedArray.reduceOption := by
      rw [List.reduceOption_mem_iff]
      intro hmem
      rw [h.allocated env.ptr hmem] at hfresh
      simp at hfresh
    obtain ⟨_, rfl⟩ | ⟨_, hinserted⟩ := PackageTable.insert_cases h.counted hinsert
    . refine ⟨⟨h.counted, h.nodup, ?_⟩, fun ptr hptr => hptr⟩
      intro ptr hptr
      apply update_isSome (h.allocated ptr hptr)
    . have hperm := hinserted.perm
      have hmem (ptr : ObjPtr) : some ptr ∈ packages.managedArray
          ↔ ptr = env.ptr ∨ some ptr ∈ store.packages.managedArray := by
        rw [← List.reduceOption_mem_iff, hperm.mem_iff, List.mem_cons, List.reduceOption_mem_iff]
      refine ⟨⟨?_, ?_, ?_⟩, ?_⟩
      . exact hinserted.counted h.counted
      . dsimp only
        rw [hperm.nodup_iff, List.nodup_cons]
        exact ⟨hnew, h.nodup⟩
      . intro ptr hptr
        cases (hmem ptr).mp hptr with
        | inl heq =>
          rw [heq]
          dsimp only
          rw [Function.update_self]
          rfl
        | inr hold => apply update_isSome (h.allocated ptr hold)
      . intro ptr hptr
        exact (hmem ptr).mpr (.inr hptr)

theorem Sound.remove {ident : Bytes} (h : store.Sound)
    (hremove : removePackage ident store = .ok (store', ret))
    : store'.Sound
        ∧ ∀ ptr,
            some ptr ∈ store.packages.managedArray
              →
            (∀ i bpkg,
              removePackage.search store.objects ident 0 store.packages.managedArray
                ≠ .ok (some (i, ptr, bpkg)))
              →
            some ptr ∈ store'.packages.managedArray := by
  obtain ⟨_, rfl⟩ | ⟨_, i, ptr, bpkg, hsearch, hslot, rfl⟩ := removePackage_cases hremove
  . exact ⟨h, fun ptr hptr _ => hptr⟩
  . have hclear := Slots.clear hslot
    have hnodup := hclear.nodup_iff.mp h.nodup
    rw [List.nodup_cons, List.reduceOption_mem_iff] at hnodup
    have hmem (other : ObjPtr) : some other ∈ store.packages.managedArray
        ↔ other = ptr ∨ some other ∈ store.packages.managedArray.set i none := by
      rw [← List.reduceOption_mem_iff, hclear.mem_iff, List.mem_cons, List.reduceOption_mem_iff]
    refine ⟨⟨?_, hnodup.2, ?_⟩, ?_⟩
    . exact h.counted.clear hslot
    . intro other hother
      have hne : other ≠ ptr := by
        intro heq
        rw [heq] at hother
        exact hnodup.1 hother
      dsimp only
      rw [Function.update_of_ne hne]
      exact h.allocated other ((hmem other).mpr (.inr hother))
    . intro other hother hnot
      cases (hmem other).mp hother with
      | inl heq =>
        rw [heq] at hnot
        exact absurd hsearch (hnot i bpkg)
      | inr hkept => exact hkept

end PackageStore

namespace PackageUse

open PackageStore

structure Inv (s : PackageUse ι) : Prop where
  sound : s.store.Sound
  kept : s.Kept

variable [DecidableEq ι] {s t : PackageUse ι}

theorem Inv.begin (h : s.Inv) {i : ι} {resArgs : ResArgs} {next : ObjPtr → ResArgs → Stage}
    (hnext : ∀ ptr, (next ptr resArgs).chosenBpkg? = some ptr) (hbegin : s.begin i resArgs next = some t)
    : t.Inv := by
  unfold PackageUse.begin at hbegin
  split at hbegin
  . split at hbegin
    . next ptr hchoose =>
      rw [Option.some.injEq] at hbegin
      rw [← hbegin]
      refine ⟨h.sound, ?_⟩
      intro j p hp
      by_cases hj : j = i
      . rw [hj] at hp ⊢
        dsimp only at hp ⊢
        rw [Function.update_self] at hp ⊢
        rw [hnext, Option.some.injEq] at hp
        obtain ⟨hmem, bpkg, _, hobject, _⟩ := choose_cases hchoose
        rw [← hp, hobject]
        exact ⟨rfl, hmem, rfl⟩
      . dsimp only at hp ⊢
        rw [Function.update_of_ne hj] at hp ⊢
        exact h.kept j p hp
    . rw [Option.some.injEq] at hbegin
      rw [← hbegin]
      exact h
    . simp at hbegin
  . simp at hbegin

theorem Inv.advance (h : s.Inv) {i : ι} {bytes : Bytes} {store : PackageStore} {stage : Stage}
    (hadvance : s.store.advance bytes (s.stages i) = .ok (store, stage))
    : Inv { s with store, stages := Function.update s.stages i stage } := by
  obtain ⟨hextends, hchosen⟩ := advance_cases hadvance
  refine ⟨h.sound.of_extends hextends, ?_⟩
  intro j ptr hptr
  -- the handler that made the step has the package that it had before
  have hold : (s.stages j).chosenBpkg? = some ptr := by
    by_cases hj : j = i
    . rw [hj] at hptr ⊢
      dsimp only at hptr hchosen
      rw [Function.update_self] at hptr
      cases hchosen with
      | inl hnone =>
        rw [hnone] at hptr
        simp at hptr
      | inr hsame =>
        rw [← hsame]
        exact hptr
    . dsimp only at hptr
      rw [Function.update_of_ne hj] at hptr
      exact hptr
  obtain ⟨hstale, hmem, hobject⟩ := h.kept j ptr hold
  refine ⟨hstale, ?_, hextends.objects_isSome ptr hobject⟩
  dsimp only at hextends ⊢
  rw [hextends.packages_eq]
  exact hmem

theorem Inv.step (h : s.Inv) {event : Event ι} (hunused : s.Unused event) (hstep : s.step event = some t)
    : t.Inv := by
  cases event with
  | call call =>
    cases call with
    | add dir path env =>
      rw [PackageUse.step] at hstep
      split at hstep
      . simp at hstep
      . next hfresh =>
        split at hstep
        . next store ret hadd =>
          rw [Option.some.injEq] at hstep
          rw [← hstep]
          rw [Bool.not_eq_true] at hfresh
          obtain ⟨hsound, hmem⟩ := h.sound.add hfresh hadd
          refine ⟨hsound, ?_⟩
          intro i ptr hptr
          obtain ⟨hstale, hold, _⟩ := h.kept i ptr hptr
          exact ⟨hstale, hmem ptr hold, hsound.allocated ptr (hmem ptr hold)⟩
        . simp at hstep
    | remove ident =>
      rw [PackageUse.step] at hstep
      split at hstep
      . next store ret hremove =>
        rw [Option.some.injEq] at hstep
        rw [← hstep]
        obtain ⟨hsound, hmem⟩ := h.sound.remove hremove
        refine ⟨hsound, ?_⟩
        intro i ptr hptr
        obtain ⟨hstale, hold, _⟩ := h.kept i ptr hptr
        -- the removal found another package than this one
        have hnot : ∀ j bpkg,
            removePackage.search s.store.objects ident 0 s.store.packages.managedArray
              ≠ .ok (some (j, ptr, bpkg)) := by
          intro j bpkg hsearch
          apply hunused ptr _ i hptr
          unfold removed
          simp only [hsearch, Option.mem_def]
        have hkept := hmem ptr hold hnot
        have hobject := hsound.allocated ptr hkept
        refine ⟨?_, hkept, hobject⟩
        dsimp only at hptr ⊢
        rw [hstale, hptr, Bool.false_or, Option.any_some, Option.isNone_eq_false_iff]
        exact hobject
      . simp at hstep
    | change files =>
      rw [PackageUse.step, Option.some.injEq] at hstep
      rw [← hstep]
      exact ⟨⟨h.sound.counted, h.sound.nodup, h.sound.allocated⟩, h.kept⟩
  | status =>
    rw [PackageUse.step] at hstep
    split at hstep
    . next lines store hstatus =>
      rw [Option.some.injEq] at hstep
      rw [← hstep]
      have hextends := packageStatus_extends hstatus
      refine ⟨h.sound.of_extends hextends, ?_⟩
      intro i ptr hptr
      obtain ⟨hstale, hmem, hobject⟩ := h.kept i ptr hptr
      refine ⟨hstale, ?_, hextends.objects_isSome ptr hobject⟩
      dsimp only
      rw [hextends.packages_eq]
      exact hmem
    . simp at hstep
  | req i resArgs =>
    apply h.begin _ hstep
    intro ptr
    rfl
  | res i resArgs =>
    apply h.begin _ hstep
    intro ptr
    rfl
  | advance i bytes =>
    rw [PackageUse.step] at hstep
    split at hstep
    . next store stage hadvance =>
      rw [Option.some.injEq] at hstep
      rw [← hstep]
      apply h.advance hadvance
    . simp at hstep

end PackageUse

end Btide
