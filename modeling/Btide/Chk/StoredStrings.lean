import Btide.Chk.Canonical
import Btide.Chk.ManagedPackage

/-!
This module contains what holds of all strings that a loaded package stores, and that a package depends on
its text alone.
-/

open CLib

namespace Btide

open bpkgLoad MerkleTreeNode

structure IsStored (s : Bytes) : Prop where
  length_le : s.length ≤ 64
  ne_zero : ∀ c ∈ s, c ≠ 0

section InsertNode

variable {hashes : PtrArray Bytes} {n : Int} {P : Bytes → Prop}

end InsertNode

theorem bpkgLoad_dir {obj bpkg : BpkgObj} {text : Bytes} {dir : Option Bytes}
    (h : bpkgLoad obj (some text) dir = .ok (some bpkg))
    : ∃ filename,
        bpkg.filename = some (joinDir dir filename)
          ∧ ∀ obj' dir',
              bpkgLoad obj' (some text) dir'
                =
              .ok (some { bpkg with filename := some (joinDir dir' filename) }) := by
  obtain ⟨l, c, tree, chunks, hlines, hparses, hcreate, rfl⟩ := bpkgLoad_cases h
  refine ⟨c.filename, rfl, ?_⟩
  intro obj' dir'
  have hrun := readLines_of_parses hparses dir' (initState obj').obj
  unfold bpkgLoad
  simp only [hlines, bind, Except.bind]
  have hinit : initState obj' = ⟨(initState obj').obj, 0, 0, 0⟩ := rfl
  rw [hinit, hrun]
  dsimp only
  apply finish_of_createTree
  dsimp only [Layout.finalState]
  rw [toInt_of_le hparses.nhashes_le, toInt_of_le hparses.nchunks_le, prefixArray_zero]
  exact hcreate

end Btide
