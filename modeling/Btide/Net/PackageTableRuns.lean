import Btide.Chk.LoadComplete
import Btide.Lib.Slots
import Btide.Lib.Transition
import Btide.Net.PackageTable

/-!
This module contains what holds of the table of managed packages after every sequence of calls that
add and remove packages.
-/

open Bytes CLib

namespace Btide

theorem intAdd_of_le {a b : Int} (hlow : - (INT_MAX : Int) - 1 ≤ a + b) (hhigh : a + b ≤ INT_MAX)
    : intAdd a b = .ok (a + b) := by
  unfold intAdd
  rw [if_pos ⟨hlow, hhigh⟩]

theorem intAdd_eq_ok {a b c : Int} (h : intAdd a b = .ok c) : c = a + b := by
  unfold intAdd at h
  split at h
  . simp only [Except.ok.injEq] at h
    exact h.symm
  . simp at h

namespace PackageTable

variable {packages packages' : PackageTable} {ptr : ObjPtr} {realloc : Bool} {ret : Int}

def grown (packages packages' : PackageTable) : List (Option ObjPtr) :=
  packages.managedArray ++ List.replicate (packages'.capacity - packages.capacity) none

def Counted (packages : PackageTable) : Prop :=
  packages.size = packages.managedArray.reduceOption.length

theorem Counted.le_capacity (h : packages.Counted) : packages.size ≤ packages.capacity := by
  unfold Counted at h
  rw [h, capacity]
  exact_mod_cast List.reduceOption_length_le packages.managedArray

theorem Counted.intAdd_pred (h : packages.Counted) (hmax : packages.capacity ≤ INT_MAX)
    : intAdd packages.size (-1) = .ok (packages.size - 1) := by
  have hle := h.le_capacity
  unfold Counted at h
  apply intAdd_of_le
  . unfold INT_MAX
    omega
  . omega

theorem Counted.clear (h : packages.Counted) {i : Nat} (hslot : packages.managedArray[i]? = some (some ptr))
    : Counted ⟨packages.managedArray.set i none, packages.size - 1⟩ := by
  unfold Counted at h ⊢
  dsimp only
  rw [h, (Slots.clear hslot).length_eq, List.length_cons]
  omega

structure Inserted (packages packages' : PackageTable) (ptr : ObjPtr) : Prop where
  slot : ∃ i,
    (packages.grown packages')[i]? = some none
      ∧ packages'.managedArray = (packages.grown packages').set i (some ptr)
  size : packages'.size = packages.size + 1
  grows : packages.capacity < packages'.capacity →
    packages.managedArray.findIdx? Option.isNone = none
      ∧ ∀ j < packages.capacity, packages'.managedArray[j]? = packages.managedArray[j]?

theorem inserted_of_free {i : Nat} (hfree : packages.managedArray[i]? = some none) (ptr : ObjPtr)
    : packages.Inserted ⟨packages.managedArray.set i (some ptr), packages.size + 1⟩ ptr := by
  have hgrown : packages.grown ⟨packages.managedArray.set i (some ptr), packages.size + 1⟩
      = packages.managedArray := by
    simp [grown, capacity]
  constructor
  . refine ⟨i, ?_, ?_⟩
    . rw [hgrown]
      exact hfree
    . rw [hgrown]
  . rfl
  . intro hgrows
    simp [capacity] at hgrows

theorem inserted_of_full (hcounted : packages.Counted)
    (hfull : packages.managedArray.findIdx? Option.isNone = none) {newCapacity : Nat}
    (hroom : packages.size < newCapacity) (ptr : ObjPtr)
    : packages.Inserted
        ⟨(packages.managedArray ++ List.replicate (newCapacity - packages.capacity) none).set
          packages.size.toNat (some ptr), packages.size + 1⟩ ptr := by
  have hindex : packages.size.toNat = packages.managedArray.length := by
    rw [hcounted, Slots.length_of_full hfull]
    rfl
  have hlen : packages.managedArray.length < newCapacity := by
    have hnonneg : 0 ≤ packages.size := by
      rw [hcounted]
      apply Int.natCast_nonneg
    omega
  rw [hindex]
  have hgrown : packages.grown
      ⟨(packages.managedArray ++ List.replicate (newCapacity - packages.capacity) none).set
        packages.managedArray.length (some ptr), packages.size + 1⟩
      = packages.managedArray ++ List.replicate (newCapacity - packages.capacity) none := by
    unfold grown capacity
    rw [List.length_set, List.length_append, List.length_replicate, Nat.add_sub_cancel_left]
  constructor
  . refine ⟨packages.managedArray.length, ?_, ?_⟩
    . rw [hgrown, List.getElem?_append_right (Nat.le_refl _), Nat.sub_self, List.getElem?_replicate,
        if_pos]
      unfold capacity
      omega
    . rw [hgrown]
  . rfl
  . intro _
    refine ⟨hfull, ?_⟩
    intro j hj
    unfold capacity at hj
    rw [List.getElem?_set_ne (by omega), List.getElem?_append_left hj]

theorem insert_cases (hcounted : packages.Counted)
    (h : packages.insert ptr realloc = .ok (packages', ret))
    : (ret = 0 ∧ packages' = packages) ∨ (ret = 1 ∧ packages.Inserted packages' ptr) := by
  unfold insert at h
  split at h
  . next i hfree =>
    obtain ⟨size, hsize, h⟩ := bind_eq_ok.mp h
    simp only [pure_eq_ok, Prod.mk.injEq] at h
    obtain ⟨rfl, rfl⟩ := h
    rw [intAdd_eq_ok hsize]
    exact .inr ⟨rfl, inserted_of_free (Slots.free_of_findIdx? hfree) ptr⟩
  . next hfull =>
    obtain ⟨newCapacity, hcap, h⟩ := bind_eq_ok.mp h
    split at h
    . simp only [pure_eq_ok, Prod.mk.injEq] at h
      exact .inl ⟨h.2.symm, h.1.symm⟩
    . split at h
      . simp [throw, throwThe, MonadExceptOf.throw, bind, Except.bind] at h
      . next hbounds =>
        obtain ⟨size, hsize, h⟩ := bind_eq_ok.mp h
        simp only [pure_eq_ok, Prod.mk.injEq] at h
        obtain ⟨rfl, rfl⟩ := h
        rw [intAdd_eq_ok hsize]
        exact .inr ⟨rfl, inserted_of_full hcounted hfull (by omega) ptr⟩

theorem insert_ok (hcounted : packages.Counted) (hpos : 0 < packages.capacity)
    (hsmall : packages.capacity < 2 ^ 30) (ptr : ObjPtr) (realloc : Bool)
    : ∃ res, packages.insert ptr realloc = .ok res := by
  have hle := hcounted.le_capacity
  have hnonneg : 0 ≤ packages.size := by
    rw [hcounted]
    apply Int.natCast_nonneg
  have hsize : intAdd packages.size 1 = .ok (packages.size + 1) := by
    apply intAdd_of_le
    . unfold INT_MAX
      omega
    . unfold INT_MAX
      omega
  unfold insert
  split
  . rw [hsize]
    exact ⟨_, rfl⟩
  . have hcap : intOfNat (packages.capacity * INCREASE_FACTOR)
        = .ok (packages.capacity * INCREASE_FACTOR) := by
      apply intOfNat_of_le
      unfold INCREASE_FACTOR INT_MAX
      omega
    have hbounds : ¬ (packages.size < 0
        ∨ ((packages.capacity * INCREASE_FACTOR : Nat) : Int) ≤ packages.size) := by
      unfold INCREASE_FACTOR
      omega
    simp only [hcap, hbounds, hsize, bind, Except.bind, pure, Except.pure, ↓reduceIte]
    split
    . exact ⟨_, rfl⟩
    . exact ⟨_, rfl⟩

theorem Inserted.perm (h : packages.Inserted packages' ptr)
    : packages'.managedArray.reduceOption.Perm (ptr :: packages.managedArray.reduceOption) := by
  obtain ⟨i, hslot, hset⟩ := h.slot
  rw [hset]
  apply (Slots.fill hslot).trans
  rw [grown, Slots.grow]

theorem Inserted.counted (h : packages.Inserted packages' ptr) (hcounted : packages.Counted)
    : packages'.Counted := by
  unfold Counted at hcounted ⊢
  rw [h.size, hcounted, h.perm.length_eq, List.length_cons]
  omega

theorem Inserted.capacity_le (h : packages.Inserted packages' ptr)
    : packages.capacity ≤ packages'.capacity := by
  obtain ⟨i, _, hset⟩ := h.slot
  unfold capacity at *
  rw [hset, List.length_set, grown, List.length_append]
  apply Nat.le_add_right

end PackageTable

def Removable (bpkg : BpkgObj) : Prop :=
  bpkg.ident.isSome ∧ bpkgObjDestroy bpkg = .ok ()

theorem bpkgFileCheck_removable {files files' : FileSystem} {create : Bool} {bpkg bpkg' : BpkgObj}
    (h : bpkgFileCheck files create bpkg = .ok (bpkg', files')) (hremovable : Removable bpkg)
    : Removable bpkg' := by
  unfold bpkgFileCheck at h
  cases hname : bpkg.filename with
  | none => simp [hname, throw_eq_ok] at h
  | some filename =>
    simp only [hname] at h
    obtain ⟨trimmed, _, h⟩ := bind_eq_ok.mp h
    obtain ⟨name, htrimmed, h⟩ := bind_eq_ok.mp h
    rw [deref_eq_ok] at htrimmed
    subst htrimmed
    -- the check assigns the name of the file only, and destroying the object only asks for one
    have hbpkg : bpkg' = { bpkg with filename := some name } := by
      split at h
      . simp only [pure_eq_ok, Prod.mk.injEq] at h
        exact h.1.symm
      . split at h
        . simp only [pure_eq_ok, Prod.mk.injEq] at h
          exact h.1.symm
        . simp only [pure_eq_ok, Prod.mk.injEq] at h
          exact h.1.symm
    subst hbpkg
    refine ⟨hremovable.1, ?_⟩
    have hdestroy := hremovable.2
    unfold bpkgObjDestroy at hdestroy ⊢
    simp only [hname, Option.isNone_some] at hdestroy ⊢
    exact hdestroy

namespace PackageStore

variable {store store' : PackageStore} {ret : Int}

theorem addPackage_cases {dir path : Bytes} {env : AddEnv}
    (h : addPackage dir path env store = .ok (store', ret))
    : (ret = 0 ∧ store' = store)
        ∨ ∃ bpkg packages files,
            Removable bpkg
              ∧ store.packages.insert env.ptr env.realloc = .ok (packages, ret)
              ∧ store'
                  =
                { packages, objects := Function.update store.objects env.ptr (some bpkg), files } := by
  unfold addPackage at h
  obtain ⟨loaded, hload, h⟩ := bind_eq_ok.mp h
  cases loaded with
  | none =>
    simp only [pure_eq_ok, Prod.mk.injEq] at h
    exact .inl ⟨h.2.symm, h.1.symm⟩
  | some loaded =>
    obtain ⟨⟨bpkg, files⟩, hcheck, h⟩ := bind_eq_ok.mp h
    obtain ⟨⟨packages, ret'⟩, hinsert, h⟩ := bind_eq_ok.mp h
    simp only [pure_eq_ok, Prod.mk.injEq] at h
    obtain ⟨rfl, rfl⟩ := h
    cases hfile : store.files path with
    | none =>
      rw [hfile] at hload
      simp [bpkgLoad] at hload
    | some file =>
      rw [hfile] at hload
      have hremovable : Removable loaded := bpkgLoad_destroyable hload
      exact .inr ⟨bpkg, packages, files, bpkgFileCheck_removable hcheck hremovable, hinsert, rfl⟩

theorem load_eq_ok {objects : ObjPtr → Option BpkgObj} {ptr : ObjPtr} {bpkg : BpkgObj}
    : load objects ptr = .ok bpkg ↔ objects ptr = some bpkg := by
  unfold load
  cases objects ptr with
  | none => simp
  | some other => simp

namespace removePackage

variable {objects : ObjPtr → Option BpkgObj} {ident : Bytes}

theorem search_cases {managedArray : List (Option ObjPtr)} {i j : Nat} {ptr : ObjPtr}
    {bpkg : BpkgObj} (h : search objects ident i managedArray = .ok (some (j, ptr, bpkg)))
    : ∃ k, j = i + k ∧ managedArray[k]? = some (some ptr) ∧ objects ptr = some bpkg := by
  induction managedArray generalizing i with
  | nil => simp [search] at h
  | cons entry managedArray ih =>
    cases entry with
    | none =>
      rw [search] at h
      obtain ⟨k, hj, hslot, hobject⟩ := ih h
      exact ⟨k + 1, by omega, hslot, hobject⟩
    | some first =>
      rw [search] at h
      obtain ⟨currentBpkg, hload, h⟩ := bind_eq_ok.mp h
      rw [load_eq_ok] at hload
      split at h
      . next current _ =>
        split at h
        . simp only [pure_eq_ok, Option.some.injEq, Prod.mk.injEq] at h
          obtain ⟨rfl, rfl, rfl⟩ := h
          exact ⟨0, rfl, rfl, hload⟩
        . obtain ⟨k, hj, hslot, hobject⟩ := ih h
          exact ⟨k + 1, by omega, hslot, hobject⟩
      . simp [throw_eq_ok] at h

theorem search_ok {managedArray : List (Option ObjPtr)}
    (h : ∀ ptr, some ptr ∈ managedArray → ∃ bpkg, objects ptr = some bpkg ∧ bpkg.ident.isSome)
    (i : Nat) : ∃ res, search objects ident i managedArray = .ok res := by
  induction managedArray generalizing i with
  | nil => exact ⟨none, rfl⟩
  | cons entry managedArray ih =>
    have hrest := ih fun ptr hptr => h ptr (List.mem_cons_of_mem _ hptr)
    cases entry with
    | none => apply hrest
    | some first =>
      obtain ⟨bpkg, hobject, hident⟩ := h first List.mem_cons_self
      rw [Option.isSome_iff_exists] at hident
      obtain ⟨current, hcurrent⟩ := hident
      rw [search, load_eq_ok.mpr hobject]
      simp only [hcurrent, bind, Except.bind]
      split
      . exact ⟨_, rfl⟩
      . apply hrest

end removePackage

theorem removePackage_cases {ident : Bytes} (h : removePackage ident store = .ok (store', ret))
    : (ret = 0 ∧ store' = store)
        ∨ ret = 1
          ∧ ∃ i ptr bpkg,
              removePackage.search store.objects ident 0 store.packages.managedArray
                  =
                .ok (some (i, ptr, bpkg))
                ∧ store.packages.managedArray[i]? = some (some ptr)
                ∧ store'
                    =
                  { store with
                    packages :=
                      { managedArray := store.packages.managedArray.set i none
                        size := store.packages.size - 1 }
                    objects := Function.update store.objects ptr none } := by
  unfold removePackage at h
  obtain ⟨found, hsearch, h⟩ := bind_eq_ok.mp h
  cases found with
  | none =>
    simp only [pure_eq_ok, Prod.mk.injEq] at h
    exact .inl ⟨h.2.symm, h.1.symm⟩
  | some found =>
    obtain ⟨i, ptr, bpkg⟩ := found
    obtain ⟨k, hi, hslot, _⟩ := removePackage.search_cases hsearch
    rw [Nat.zero_add] at hi
    rw [← hi] at hslot
    obtain ⟨_, _, h⟩ := bind_eq_ok.mp h
    obtain ⟨size, hsize, h⟩ := bind_eq_ok.mp h
    simp only [pure_eq_ok, Prod.mk.injEq] at h
    obtain ⟨rfl, rfl⟩ := h
    rw [intAdd_eq_ok hsize]
    exact .inr ⟨rfl, i, ptr, bpkg, hsearch, hslot, rfl⟩

/--
The store with the addresses of the objects whose `add_package` returned `1`, without those of the
objects that were destroyed since.
-/
structure Session where
  store : PackageStore
  managed : List ObjPtr

inductive Call where
  | add (dir path : Bytes) (env : AddEnv)
  | remove (ident : Bytes)
  | change (files : FileSystem)

namespace Session

def init (files : FileSystem) : Session where
  store := .init files
  managed := []

/--
`malloc` does not return the address of an object that is allocated.
-/
def step (s : Session) : Call → Option Session
  | .add dir path env =>
    if (s.store.objects env.ptr).isSome then
      none
    else
      match addPackage dir path env s.store with
      | .ok (store, ret) =>
        some { store, managed := if ret = 1 then env.ptr :: s.managed else s.managed }
      | .error _ => none
  | .remove ident =>
    match removePackage ident s.store with
    | .ok (store, _) =>
      some { store, managed := s.managed.filter fun ptr => (store.objects ptr).isSome }
    | .error _ => none
  | .change files => some { s with store := { s.store with files } }

structure Sound (s : Session) : Prop where
  counted : s.store.packages.Counted
  perm : s.store.packages.managedArray.reduceOption.Perm s.managed
  nodup : s.managed.Nodup
  removable : ∀ ptr ∈ s.managed, ∃ bpkg, s.store.objects ptr = some bpkg ∧ Removable bpkg
  capacity_pos : 0 < s.store.packages.capacity

variable {s t : Session} {dir path ident : Bytes} {env : AddEnv}

theorem init_sound (files : FileSystem) : (init files).Sound where
  counted := rfl
  perm := List.Perm.refl []
  nodup := List.nodup_nil
  removable := by
    intro ptr hptr
    simp [init] at hptr
  capacity_pos := by
    simp [init, PackageStore.init, PackageTable.init, PackageTable.capacity,
      INITIAL_PACKAGE_ARRAY_SIZE]

theorem Sound.mem_iff (h : s.Sound) {ptr : ObjPtr}
    : some ptr ∈ s.store.packages.managedArray ↔ ptr ∈ s.managed := by
  rw [← h.perm.mem_iff, List.reduceOption_mem_iff]

theorem Sound.add (h : s.Sound) (hfresh : s.store.objects env.ptr = none)
    (hadd : addPackage dir path env s.store = .ok (store, ret))
    : Sound { store, managed := if ret = 1 then env.ptr :: s.managed else s.managed } := by
  obtain ⟨rfl, rfl⟩ | ⟨bpkg, packages, files, hremovable, hinsert, rfl⟩ := addPackage_cases hadd
  . exact h
  . -- the address of the new object is none of those that are managed
    have hnew : env.ptr ∉ s.managed := by
      intro hmem
      obtain ⟨other, hother, _⟩ := h.removable env.ptr hmem
      rw [hfresh] at hother
      simp at hother
    have hkept : ∀ ptr ∈ s.managed, ∃ bpkg',
        Function.update s.store.objects env.ptr (some bpkg) ptr = some bpkg' ∧ Removable bpkg' := by
      intro ptr hptr
      rw [Function.update_of_ne (by rintro rfl; exact hnew hptr)]
      exact h.removable ptr hptr
    obtain ⟨rfl, rfl⟩ | ⟨rfl, hinserted⟩ := PackageTable.insert_cases h.counted hinsert
    . exact ⟨h.counted, h.perm, h.nodup, hkept, h.capacity_pos⟩
    . have hperm := hinserted.perm
      constructor
      . exact hinserted.counted h.counted
      . exact hperm.trans (h.perm.cons env.ptr)
      . exact List.nodup_cons.mpr ⟨hnew, h.nodup⟩
      . intro ptr hptr
        rw [if_pos rfl, List.mem_cons] at hptr
        obtain rfl | hptr := hptr
        . exact ⟨bpkg, Function.update_self .., hremovable⟩
        . exact hkept ptr hptr
      . exact Nat.lt_of_lt_of_le h.capacity_pos hinserted.capacity_le

theorem Sound.remove (h : s.Sound) (hremove : removePackage ident s.store = .ok (store, ret))
    : Sound { store, managed := s.managed.filter fun ptr => (store.objects ptr).isSome } := by
  obtain ⟨rfl, rfl⟩ | ⟨rfl, i, ptr, _, _, hslot, rfl⟩ := removePackage_cases hremove
  . have hall : (s.managed.filter fun ptr => (s.store.objects ptr).isSome) = s.managed := by
      rw [List.filter_eq_self]
      intro ptr hptr
      obtain ⟨bpkg, hobject, _⟩ := h.removable ptr hptr
      rw [hobject]
      rfl
    rw [hall]
    exact h
  . have hclear := Slots.clear hslot
    -- exactly the destroyed object is not managed any more
    have herase : (s.managed.filter fun p => (Function.update s.store.objects ptr none p).isSome)
        = s.managed.erase ptr := by
      rw [h.nodup.erase_eq_filter]
      apply List.filter_congr
      intro p hp
      by_cases hpp : p = ptr
      . subst hpp
        simp [Function.update_self]
      . obtain ⟨bpkg, hobject, _⟩ := h.removable p hp
        rw [Function.update_of_ne hpp, hobject]
        simp [hpp]
    dsimp only
    rw [herase]
    constructor
    . exact h.counted.clear hslot
    . have hperm := (hclear.symm.trans h.perm).erase ptr
      rw [List.erase_cons_head] at hperm
      exact hperm
    . exact h.nodup.erase ptr
    . intro p hp
      rw [h.nodup.mem_erase_iff] at hp
      dsimp only
      rw [Function.update_of_ne hp.1]
      exact h.removable p hp.2
    . have hpos := h.capacity_pos
      unfold PackageTable.capacity at hpos ⊢
      rw [List.length_set]
      exact hpos

theorem Sound.step {call : Call} (h : s.Sound) (hstep : s.step call = some t) : t.Sound := by
  cases call with
  | add dir path env =>
    rw [Session.step] at hstep
    split at hstep
    . simp at hstep
    . next hfresh =>
      split at hstep
      . next hadd =>
        simp only [Option.some.injEq] at hstep
        rw [← hstep]
        apply h.add (by simpa using hfresh) hadd
      . simp at hstep
  | remove ident =>
    rw [Session.step] at hstep
    split at hstep
    . next hremove =>
      simp only [Option.some.injEq] at hstep
      rw [← hstep]
      apply h.remove hremove
    . simp at hstep
  | change files =>
    rw [Session.step, Option.some.injEq] at hstep
    rw [← hstep]
    exact ⟨h.counted, h.perm, h.nodup, h.removable, h.capacity_pos⟩

structure CallsSound (s : Session) : Prop where
  insert_ok : ∀ ptr realloc, ∃ res, s.store.packages.insert ptr realloc = .ok res
  remove_ok : ∀ ident, ∃ res, removePackage ident s.store = .ok res
  add : ∀ dir path env store ret, addPackage dir path env s.store = .ok (store, ret) →
    (ret = 0 ∧ store.packages = s.store.packages)
      ∨ (ret = 1 ∧ s.store.packages.Inserted store.packages env.ptr)
  remove : ∀ ident store ret, removePackage ident s.store = .ok (store, ret) →
    (ret = 0 ∧ store = s.store)
      ∨ (ret = 1 ∧ ∃ i ptr,
          s.store.packages.managedArray[i]? = some (some ptr)
            ∧ store.packages.managedArray = s.store.packages.managedArray.set i none
            ∧ store.packages.size = s.store.packages.size - 1)

theorem Sound.callsSound (h : s.Sound) (hsmall : s.store.packages.capacity < 2 ^ 30)
    : s.CallsSound where
  insert_ok := PackageTable.insert_ok h.counted h.capacity_pos hsmall
  remove_ok := by
    intro ident
    have hobjects : ∀ ptr, some ptr ∈ s.store.packages.managedArray →
        ∃ bpkg, s.store.objects ptr = some bpkg ∧ Removable bpkg := by
      intro ptr hptr
      apply h.removable ptr (h.mem_iff.mp hptr)
    have hsearch : ∃ found,
        removePackage.search s.store.objects ident 0 s.store.packages.managedArray = .ok found := by
      apply removePackage.search_ok
      intro ptr hptr
      obtain ⟨bpkg, hobject, hremovable⟩ := hobjects ptr hptr
      exact ⟨bpkg, hobject, hremovable.1⟩
    obtain ⟨found, hsearch⟩ := hsearch
    unfold removePackage
    rw [hsearch]
    cases found with
    | none => exact ⟨_, rfl⟩
    | some found =>
      obtain ⟨i, ptr, bpkg⟩ := found
      obtain ⟨k, _, hslot, hobject⟩ := removePackage.search_cases hsearch
      obtain ⟨other, hother, hremovable⟩ := hobjects ptr (List.mem_of_getElem? hslot)
      rw [hobject, Option.some.injEq] at hother
      subst hother
      have hsize := h.counted.intAdd_pred (by unfold INT_MAX; omega)
      simp only [hremovable.2, hsize, bind, Except.bind]
      exact ⟨_, rfl⟩
  add := by
    intro dir path env store ret hadd
    obtain ⟨rfl, rfl⟩ | ⟨bpkg, packages, files, _, hinsert, rfl⟩ := addPackage_cases hadd
    . exact .inl ⟨rfl, rfl⟩
    . apply PackageTable.insert_cases h.counted hinsert
  remove := by
    intro ident store ret hremove
    obtain ⟨rfl, rfl⟩ | ⟨rfl, i, ptr, _, _, hslot, rfl⟩ := removePackage_cases hremove
    . exact .inl ⟨rfl, rfl⟩
    . exact .inr ⟨rfl, i, ptr, hslot, rfl, rfl⟩

theorem packages_kept {files : FileSystem} {s : Session}
    (hrun : Run (fun s call t => s.step call = some t)
      (fun s _ => s.store.packages.capacity < 2 ^ 30) (init files) s)
    : s.store.packages.size = s.store.packages.managedArray.countP (·.isSome)
        ∧ s.store.packages.size ≤ s.store.packages.capacity
        ∧ (∀ ptr, some ptr ∈ s.store.packages.managedArray ↔ ptr ∈ s.managed)
        ∧ (∀ ptr ∈ s.managed, s.store.packages.managedArray.count (some ptr) = 1)
        ∧ (s.store.packages.capacity < 2 ^ 30 → s.CallsSound) := by
  have hsound : s.Sound := by
    apply hrun.invariant (init_sound files)
    intro s call t hs _ hstep
    exact hs.step hstep
  refine ⟨?_, hsound.counted.le_capacity, fun ptr => hsound.mem_iff, ?_, hsound.callsSound⟩
  . rw [hsound.counted, List.reduceOption_length_eq, List.countP_eq_length_filter]
  . intro ptr hptr
    apply Slots.count_eq_one
    . rw [hsound.perm.nodup_iff]
      exact hsound.nodup
    . rw [hsound.mem_iff]
      exact hptr

def onePackage : FileSystem := fun name =>
  if name = ascii "p" then
    some (ascii "ident:a\nfilename:b\nsize:1\nnhashes:0\nhashes:\nnchunks:1\nchunks:\n\tq,0,1\n")
  else
    none

def addThree : List Call :=
  let garbage : BpkgObj := ⟨none, none, 7, 7, none, 7, none, none⟩
  [.add (ascii "d") (ascii "r") ⟨1, garbage, true, true⟩,
    .add (ascii "d") (ascii "p") ⟨1, garbage, true, true⟩,
    .add (ascii "d") (ascii "p") ⟨2, garbage, true, true⟩,
    .add (ascii "d") (ascii "p") ⟨3, garbage, false, true⟩,
    .add (ascii "d") (ascii "p") ⟨4, garbage, true, false⟩,
    .remove (ascii "a")]

theorem packages_kept_three
    : ∃ s,
        Run (fun s call t => s.step call = some t) (fun s _ => s.store.packages.capacity < 2 ^ 30)
            (init onePackage) s
          ∧ s.store.packages.managedArray = [none, some 2, some 4, none]
          ∧ s.store.packages.size = s.store.packages.managedArray.countP (·.isSome)
          ∧ ∀ ptr, some ptr ∈ s.store.packages.managedArray ↔ ptr ∈ s.managed := by
  have hexec : (Run.exec Session.step (fun s _ => s.store.packages.capacity < 2 ^ 30)
      (init onePackage) addThree).map (·.store.packages.managedArray)
      = some [none, some 2, some 4, none] := by
    decide +kernel
  obtain ⟨s, hs, harray⟩ := Option.map_eq_some_iff.mp hexec
  have hrun := Run.of_exec hs
  obtain ⟨hsize, _, hmem, _⟩ := packages_kept hrun
  exact ⟨_, hrun, harray, hsize, hmem⟩

end Session

end PackageStore

end Btide
