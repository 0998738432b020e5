import Btide.Net.PackageTableRuns
import Btide.Net.TreeArray

/-!
This module contains which package `remove_package` and `chunk_in_memory` select for an identifier.
-/

open Bytes CLib

namespace Btide

def BpkgObj.NamedBy (bpkg : BpkgObj) (ident : Bytes) : Prop :=
  ∃ current, bpkg.ident = some current ∧ ident.take 20 <+: current

structure FirstNamed (packages : ManagedPackages) (ident : Bytes) (slot : Nat) (bpkg : BpkgObj) : Prop where
  slot_eq : packages[slot]? = some (some bpkg)
  named : bpkg.NamedBy ident
  first : ∀ i < slot, ∀ other, packages[i]? = some (some other) → ¬ other.NamedBy ident

theorem strncmpEq_iff_isPrefix {current ident : Bytes} (hlen : 20 ≤ ident.length)
    : strncmpEq current ident 20 = true ↔ ident.take 20 <+: current := by
  unfold strncmpEq
  rw [beq_iff_eq, List.prefix_iff_eq_take, List.length_take, Nat.min_eq_left hlen]
  exact eq_comm

theorem Removable.congr {bpkg : BpkgObj} (h : Removable bpkg) {filename : Bytes} {tree : Option MerkleTree}
    : Removable { bpkg with filename := some filename, tree } := by
  refine ⟨h.1, ?_⟩
  have hdestroy := h.2
  unfold bpkgObjDestroy at hdestroy ⊢
  cases hfilename : bpkg.filename with
  | none =>
    simp only [hfilename, Option.isNone_none, ↓reduceIte] at hdestroy
    split at hdestroy
    . cases hdestroy
    . cases hdestroy
  | some other =>
    simp only [hfilename, Option.isNone_some] at hdestroy ⊢
    exact hdestroy

theorem BpkgObj.Managed.removable {bpkg : BpkgObj} (h : bpkg.Managed) : Removable bpkg := by
  induction h with
  | load hdir hload => exact bpkgLoad_destroyable hload
  | fileCheck h hname ih =>
    obtain ⟨name, hstrip⟩ := h.exists_name
    rw [hname, Except.ok.injEq] at hstrip
    rw [hstrip]
    exact ih.congr
  | computeHashes h hcompute ih =>
    obtain ⟨name, hstrip⟩ := h.exists_name
    obtain ⟨filename, tree, hname, heq⟩ := computeHashesForChunks_eq_with hcompute
    rw [hstrip, Except.ok.injEq] at hname
    rw [heq, ← hname]
    exact ih.congr
  | @assign bpkg tree h htree computed ih =>
    obtain ⟨filename, hfilename, _⟩ := h.exists_filename
    have heq : bpkg = { bpkg with filename := some filename } := by rw [← hfilename]
    rw [heq]
    exact ih.congr

namespace FirstNamed

variable {packages : ManagedPackages} {ident : Bytes} {slot : Nat} {bpkg : BpkgObj}

theorem exists_or (packages : ManagedPackages) (ident : Bytes)
    : (∃ slot bpkg, FirstNamed packages ident slot bpkg)
        ∨ ∀ bpkg, some bpkg ∈ packages → ¬ bpkg.NamedBy ident := by
  classical
  by_cases hex : ∃ (slot : Nat) (bpkg : BpkgObj), packages[slot]? = some (some bpkg) ∧ bpkg.NamedBy ident
  . obtain ⟨bpkg, hslot, hnamed⟩ := Nat.find_spec hex
    refine .inl ⟨Nat.find hex, bpkg, hslot, hnamed, ?_⟩
    intro i hi other hother hname
    exact Nat.find_min hex hi ⟨other, hother, hname⟩
  . refine .inr ?_
    intro bpkg hmem hnamed
    obtain ⟨slot, hslot⟩ := List.getElem?_of_mem hmem
    exact hex ⟨slot, bpkg, hslot, hnamed⟩

theorem unique (h : FirstNamed packages ident slot bpkg) {slot' : Nat} {bpkg' : BpkgObj}
    (h' : FirstNamed packages ident slot' bpkg') : slot = slot' ∧ bpkg = bpkg' := by
  have heq : slot = slot' := by
    apply Nat.le_antisymm
    . apply Nat.le_of_not_lt
      intro hlt
      exact h.first slot' hlt bpkg' h'.slot_eq h'.named
    . apply Nat.le_of_not_lt
      intro hlt
      exact h'.first slot hlt bpkg h.slot_eq h.named
  have hslot := h.slot_eq
  rw [heq, h'.slot_eq, Option.some.injEq, Option.some.injEq] at hslot
  exact ⟨heq, hslot.symm⟩

theorem zero {rest : ManagedPackages} (h : bpkg.NamedBy ident) : FirstNamed (some bpkg :: rest) ident 0 bpkg where
  slot_eq := rfl
  named := h
  first := by
    intro i hi
    omega

theorem succ (h : FirstNamed packages ident slot bpkg) {entry : Option BpkgObj}
    (hentry : ∀ other, entry = some other → ¬ other.NamedBy ident)
    : FirstNamed (entry :: packages) ident (slot + 1) bpkg where
  slot_eq := by
    rw [List.getElem?_cons_succ]
    exact h.slot_eq
  named := h.named
  first := Slots.forall_lt_cons hentry h.first

theorem manages (h : FirstNamed packages ident slot bpkg) (hlen : 20 ≤ ident.length)
    (hident : ∀ other, some other ∈ packages → other.ident.isSome) : Manages packages ident slot bpkg where
  slot_eq := h.slot_eq
  ident_eq := by
    obtain ⟨current, hcurrent, hprefix⟩ := h.named
    exact ⟨current, hcurrent, (strncmpEq_iff_isPrefix hlen).mpr hprefix⟩
  first := by
    intro i hi other hother
    have hsome := hident other (List.mem_of_getElem? hother)
    obtain ⟨current, hcurrent⟩ := Option.isSome_iff_exists.mp hsome
    refine ⟨current, hcurrent, ?_⟩
    rw [← Bool.not_eq_true, strncmpEq_iff_isPrefix hlen]
    intro hprefix
    exact h.first i hi other hother ⟨current, hcurrent, hprefix⟩

end FirstNamed

namespace PackageStore

def managedPackages (store : PackageStore) : ManagedPackages :=
  store.packages.managedArray.map (·.bind store.objects)

def without (store : PackageStore) (slot : Nat) (ptr : ObjPtr) : PackageStore :=
  { store with
    packages :=
      { managedArray := store.packages.managedArray.set slot none, size := store.packages.size - 1 }
    objects := Function.update store.objects ptr none }

def AllManaged (store : PackageStore) : Prop :=
  ∀ ptr, some ptr ∈ store.packages.managedArray → ∃ bpkg, store.objects ptr = some bpkg ∧ bpkg.Managed

structure SelectsFirst (store : PackageStore) (ident : Bytes) : Prop where
  remove_iff : ∀ store', removePackage ident store = .ok (store', 1)
    ↔ ∃ slot ptr bpkg,
        FirstNamed store.managedPackages ident slot bpkg
          ∧ store.packages.managedArray[slot]? = some (some ptr)
          ∧ store' = store.without slot ptr
  remove_none : (∀ bpkg, some bpkg ∈ store.managedPackages → ¬ bpkg.NamedBy ident)
    → removePackage ident store = .ok (store, 0)
  chosen : ∀ hash slot, chunkInMemory store.managedPackages ident hash = .ok (.found slot)
    → ∃ bpkg, FirstNamed store.managedPackages ident slot bpkg ∧ bpkg.Declares hash
  found : ∀ hash slot bpkg,
    FirstNamed store.managedPackages ident slot bpkg
      → bpkg.Declares hash
      → bpkg.Reaches hash
      → chunkInMemory store.managedPackages ident hash = .ok (.found slot)

namespace removePackage

variable {objects : ObjPtr → Option BpkgObj} {ident : Bytes}

theorem search_first {managedArray : List (Option ObjPtr)} (hlen : 20 ≤ ident.length) {i j : Nat}
    {ptr : ObjPtr} {bpkg : BpkgObj} (h : search objects ident i managedArray = .ok (some (j, ptr, bpkg)))
    : ∃ k,
        j = i + k
          ∧ managedArray[k]? = some (some ptr)
          ∧ FirstNamed (managedArray.map (·.bind objects)) ident k bpkg := by
  induction managedArray generalizing i with
  | nil => simp [search] at h
  | cons entry managedArray ih =>
    have hskip (hrest : search objects ident (i + 1) managedArray = .ok (some (j, ptr, bpkg)))
        (hentry : ∀ other, entry.bind objects = some other → ¬ other.NamedBy ident)
        : ∃ k,
            j = i + k
              ∧ (entry :: managedArray)[k]? = some (some ptr)
              ∧ FirstNamed ((entry :: managedArray).map (·.bind objects)) ident k bpkg := by
      obtain ⟨k, hj, hslot, hfirst⟩ := ih hrest
      rw [List.map_cons]
      exact ⟨k + 1, by omega, hslot, hfirst.succ hentry⟩
    cases entry with
    | none =>
      rw [search] at h
      apply hskip h
      intro other hother
      cases hother
    | some first =>
      rw [search] at h
      obtain ⟨currentBpkg, hload, h⟩ := bind_eq_ok.mp h
      rw [load_eq_ok] at hload
      split at h
      . next current hcurrent =>
        split at h
        . next hmatch =>
          simp only [pure_eq_ok, Option.some.injEq, Prod.mk.injEq] at h
          obtain ⟨rfl, rfl, rfl⟩ := h
          rw [strncmpEq_iff_isPrefix hlen] at hmatch
          refine ⟨0, rfl, rfl, ?_⟩
          rw [List.map_cons, Option.bind_some, hload]
          exact FirstNamed.zero ⟨current, hcurrent, hmatch⟩
        . next hmatch =>
          apply hskip h
          rintro other hother ⟨current', hcurrent', hprefix⟩
          rw [Option.bind_some, hload, Option.some.injEq] at hother
          rw [← hother, hcurrent, Option.some.injEq] at hcurrent'
          rw [strncmpEq_iff_isPrefix hlen, hcurrent'] at hmatch
          exact hmatch hprefix
      . simp [throw_eq_ok] at h

theorem search_none {managedArray : List (Option ObjPtr)} (hlen : 20 ≤ ident.length) {i : Nat}
    (h : search objects ident i managedArray = .ok none)
    : ∀ bpkg, some bpkg ∈ managedArray.map (·.bind objects) → ¬ bpkg.NamedBy ident := by
  induction managedArray generalizing i with
  | nil =>
    intro bpkg hmem
    simp at hmem
  | cons entry managedArray ih =>
    intro bpkg hmem
    rw [List.map_cons, List.mem_cons] at hmem
    cases entry with
    | none =>
      rw [search] at h
      rcases hmem with hmem | hmem
      . cases hmem
      . exact ih h bpkg hmem
    | some first =>
      rw [search] at h
      obtain ⟨currentBpkg, hload, h⟩ := bind_eq_ok.mp h
      rw [load_eq_ok] at hload
      split at h
      . next current hcurrent =>
        split at h
        . simp [pure_eq_ok] at h
        . next hmatch =>
          rcases hmem with hmem | hmem
          . rintro ⟨current', hcurrent', hprefix⟩
            rw [Option.bind_some, hload, Option.some.injEq] at hmem
            rw [hmem, hcurrent, Option.some.injEq] at hcurrent'
            rw [strncmpEq_iff_isPrefix hlen, hcurrent'] at hmatch
            exact hmatch hprefix
          . exact ih h bpkg hmem
      . simp [throw_eq_ok] at h

end removePackage

variable {store : PackageStore} {ident : Bytes}

theorem AllManaged.mem_managedPackages (h : store.AllManaged) {bpkg : BpkgObj}
    (hmem : some bpkg ∈ store.managedPackages) : bpkg.Managed := by
  unfold managedPackages at hmem
  rw [List.mem_map] at hmem
  obtain ⟨entry, hentry, hobject⟩ := hmem
  cases entry with
  | none => cases hobject
  | some ptr =>
    obtain ⟨other, hother, hmanaged⟩ := h ptr hentry
    rw [Option.bind_some, hother, Option.some.injEq] at hobject
    rw [← hobject]
    exact hmanaged

theorem AllManaged.search_ok (h : store.AllManaged) (ident : Bytes)
    : ∃ found, removePackage.search store.objects ident 0 store.packages.managedArray = .ok found := by
  apply removePackage.search_ok
  intro ptr hptr
  obtain ⟨bpkg, hobject, hmanaged⟩ := h ptr hptr
  exact ⟨bpkg, hobject, hmanaged.removable.1⟩

theorem removePackage_first (h : store.AllManaged) (hcounted : store.packages.Counted)
    (hmax : store.packages.capacity ≤ INT_MAX) (hlen : 20 ≤ ident.length) {slot : Nat} {bpkg : BpkgObj}
    (hfirst : FirstNamed store.managedPackages ident slot bpkg)
    : ∃ ptr,
        store.packages.managedArray[slot]? = some (some ptr)
          ∧ removePackage ident store = .ok (store.without slot ptr, 1) := by
  obtain ⟨found, hsearch⟩ := h.search_ok ident
  cases found with
  | none =>
    have hnone := removePackage.search_none hlen hsearch bpkg (List.mem_of_getElem? hfirst.slot_eq)
    exact absurd hfirst.named hnone
  | some found =>
    obtain ⟨i, ptr, found⟩ := found
    obtain ⟨k, hi, hslot, hfound⟩ := removePackage.search_first hlen hsearch
    obtain ⟨heq, hbpkg⟩ := hfirst.unique hfound
    rw [Nat.zero_add, ← heq] at hi
    rw [← heq] at hslot
    rw [hi, ← hbpkg] at hsearch
    have hremovable := (h.mem_managedPackages (List.mem_of_getElem? hfirst.slot_eq)).removable
    have hsize := hcounted.intAdd_pred hmax
    refine ⟨ptr, hslot, ?_⟩
    unfold removePackage
    rw [hsearch]
    simp only [hremovable.2, hsize, bind, Except.bind]
    rfl

theorem removePackage_none (h : store.AllManaged) (hlen : 20 ≤ ident.length)
    (hnone : ∀ bpkg, some bpkg ∈ store.managedPackages → ¬ bpkg.NamedBy ident)
    : removePackage ident store = .ok (store, 0) := by
  obtain ⟨found, hsearch⟩ := h.search_ok ident
  cases found with
  | none =>
    unfold removePackage
    rw [hsearch]
    rfl
  | some found =>
    obtain ⟨i, ptr, bpkg⟩ := found
    obtain ⟨k, _, _, hfirst⟩ := removePackage.search_first hlen hsearch
    exact absurd hfirst.named (hnone bpkg (List.mem_of_getElem? hfirst.slot_eq))

theorem AllManaged.isSome_ident (h : store.AllManaged) (other : BpkgObj)
    (hother : some other ∈ store.managedPackages) : other.ident.isSome :=
  (h.mem_managedPackages hother).removable.1

theorem selectsFirst (h : store.AllManaged) (hcounted : store.packages.Counted)
    (hmax : store.packages.capacity ≤ INT_MAX) (hlen : 20 ≤ ident.length) : store.SelectsFirst ident where
  remove_iff := by
    intro store'
    constructor
    . intro hremove
      rcases FirstNamed.exists_or store.managedPackages ident with ⟨slot, bpkg, hfirst⟩ | hnone
      . obtain ⟨ptr, hslot, heq⟩ := removePackage_first h hcounted hmax hlen hfirst
        rw [heq, Except.ok.injEq, Prod.mk.injEq] at hremove
        exact ⟨slot, ptr, bpkg, hfirst, hslot, hremove.1.symm⟩
      . rw [removePackage_none h hlen hnone, Except.ok.injEq, Prod.mk.injEq] at hremove
        exact absurd hremove.2 (by decide)
    . rintro ⟨slot, ptr, bpkg, hfirst, hslot, heq⟩
      obtain ⟨ptr', hslot', hremove⟩ := removePackage_first h hcounted hmax hlen hfirst
      rw [hslot, Option.some.injEq, Option.some.injEq] at hslot'
      rw [heq, hslot', hremove]
  remove_none := removePackage_none h hlen
  chosen := by
    intro hash slot hlookup
    rcases FirstNamed.exists_or store.managedPackages ident with ⟨slot', bpkg, hfirst⟩ | hnone
    . obtain ⟨hashes, chunks₀, chunks, rest, tree, hshape⟩ :=
        (h.mem_managedPackages (List.mem_of_getElem? hfirst.slot_eq)).shape
      obtain ⟨node, hnode, hmem⟩ := tree.root.exists_firstLikeRoot
      rw [hshape.chunkInMemory_eq (hfirst.manages hlen h.isSome_ident) hnode] at hlookup
      split at hlookup
      . next hin =>
        rw [Except.ok.injEq, Lookup.found.injEq] at hlookup
        rw [← hlookup]
        refine ⟨bpkg, hfirst, ?_⟩
        apply hshape.declares_of_mem
        rw [← hshape.mem_leaf_values]
        obtain ⟨info, hinfo, hvalue⟩ := List.mem_map.mp hin
        rw [List.mem_map]
        exact ⟨info, MerkleTreeNode.leaves_subset hmem hinfo, hvalue⟩
      . cases hlookup
    . rcases Manages.exists_or h.isSome_ident ident with ⟨slot', bpkg, hmanages⟩ | hsearch
      . obtain ⟨current, hcurrent, hmatch⟩ := hmanages.ident_eq
        rw [strncmpEq_iff_isPrefix hlen] at hmatch
        exact absurd ⟨current, hcurrent, hmatch⟩ (hnone bpkg (List.mem_of_getElem? hmanages.slot_eq))
      . unfold chunkInMemory at hlookup
        rw [hsearch] at hlookup
        cases hlookup
  found := by
    intro hash slot bpkg hfirst hdeclares hreaches
    obtain ⟨hashes, chunks₀, chunks, rest, tree, hshape⟩ :=
      (h.mem_managedPackages (List.mem_of_getElem? hfirst.slot_eq)).shape
    obtain ⟨node, hnode, _⟩ := tree.root.exists_firstLikeRoot
    rw [hshape.chunkInMemory_eq (hfirst.manages hlen h.isSome_ident) hnode, if_pos]
    rw [List.mem_map]
    exact hreaches tree node hdeclares hshape.tree_eq hnode

def namedPackage (ident hash : String) : Bytes :=
  ascii "ident:" ++ ascii ident ++ ascii "\nfilename:f\nsize:1\nnhashes:0\nhashes:\nnchunks:1\nchunks:\n\t"
    ++ ascii hash ++ ascii ",0,1\n"

def namedObj (ident hash : String) : BpkgObj where
  ident := some (ascii ident)
  filename := some (ascii "f")
  size := 1
  nhashes := 0
  hashes := .ofList []
  nchunks := 1
  chunks := .ofList [⟨ascii hash, 0, 1, some 0⟩]
  tree := some { root := .leaf ⟨0, 0, ascii hash, none, []⟩, nNodes := 1 }

def twoNamed : PackageStore where
  packages := { managedArray := [some 1, some 2], size := 2 }
  objects := fun ptr =>
    if ptr = 1 then some (namedObj "12345678901234567890x" "p")
    else if ptr = 2 then some (namedObj "12345678901234567890y" "q")
    else none
  files := fun _ => none

theorem load_namedPackages
    : bpkgLoad ⟨none, none, 7, 7, none, 7, none, none⟩ (some (namedPackage "12345678901234567890x" "p")) none
        =
      .ok (some (namedObj "12345678901234567890x" "p"))
        ∧ bpkgLoad ⟨none, none, 7, 7, none, 7, none, none⟩
            (some (namedPackage "12345678901234567890y" "q")) none
            =
          .ok (some (namedObj "12345678901234567890y" "q")) := by
  refine ⟨?_, ?_⟩
  . decide +kernel
  . decide +kernel

theorem selectsFirst_two : twoNamed.SelectsFirst (ascii "12345678901234567890y") := by
  have hdir : ∀ c ∈ (none : Option Bytes).getD [], c ≠ 0 := by simp
  obtain ⟨hfirst, hsecond⟩ := load_namedPackages
  apply selectsFirst
  . intro ptr hptr
    simp only [twoNamed, List.mem_cons, Option.some.injEq, List.not_mem_nil, or_false] at hptr
    obtain rfl | rfl := hptr
    . exact ⟨_, rfl, .load hdir hfirst⟩
    . exact ⟨_, rfl, .load hdir hsecond⟩
  . rfl
  . decide
  . decide

/--
The identifier of the second package removes and chooses the first one.
-/
theorem selectsFirst_fails
    : bpkgLoad ⟨none, none, 7, 7, none, 7, none, none⟩ (some (namedPackage "12345678901234567890x" "p")) none
        =
      .ok (some (namedObj "12345678901234567890x" "p"))
        ∧ bpkgLoad ⟨none, none, 7, 7, none, 7, none, none⟩
            (some (namedPackage "12345678901234567890y" "q")) none
            =
          .ok (some (namedObj "12345678901234567890y" "q"))
        ∧ twoNamed.managedPackages
            =
          [some (namedObj "12345678901234567890x" "p"), some (namedObj "12345678901234567890y" "q")]
        ∧ ¬ ascii "12345678901234567890y" <+: ascii "12345678901234567890x"
        ∧ (removePackage (ascii "12345678901234567890y") twoNamed).toOption.map
              (fun result => (result.1.packages.managedArray, result.2))
            =
          some ([none, some 2], 1)
        ∧ chunkInMemory twoNamed.managedPackages (ascii "12345678901234567890y") (ascii "p") = .ok (.found 0)
        ∧ (namedObj "12345678901234567890y" "q").Declares (ascii "q")
        ∧ chunkInMemory twoNamed.managedPackages (ascii "12345678901234567890y") (ascii "q") = .ok .noHash := by
  refine ⟨by decide +kernel, by decide +kernel, rfl, by decide +kernel, by decide +kernel, by decide +kernel,
    ?_, by decide +kernel⟩
  exact ⟨⟨ascii "q", 0, 1, some 0⟩, ⟨_, 0, rfl, by decide, rfl⟩, rfl⟩

end PackageStore

end Btide
