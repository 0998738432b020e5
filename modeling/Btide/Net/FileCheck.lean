import Btide.Chk.ManagedPackage
import Btide.Net.StatusReport

/-!
This module contains the data file that `add_package` leaves for a package that was loaded.
-/

open Bytes CLib

namespace Btide
namespace PackageStore

/--
The content of a file, also of one that exists but cannot be opened for reading. `FileSystem` has the
others only.
-/
def existing (files unreadable : FileSystem) (name : Bytes) : Option Bytes :=
  (files name).or (unreadable name)

structure Prepared (files files' unreadable : FileSystem) (create : Bool) (name : Bytes) (size : UInt32)
    : Prop where
  kept {content : Bytes} (h : existing files unreadable name = some content)
    : existing files' unreadable name = some content
  created (h : existing files unreadable name = none) (hcreate : create = true)
    : existing files' unreadable name = some (List.replicate size.toNat 0)
  others {other : Bytes} (h : other ≠ name) : existing files' unreadable other = existing files unreadable other

/--
The length of the file that is written: one byte behind `size - 1`, which wraps around.
-/
def writtenLength (size : UInt32) : Nat :=
  (size - 1).toNat + 1

/--
What the check relies on when it writes the data file: the file does not exist and the size is not zero. A
file that cannot be opened for reading is overwritten as well, which does no harm to the same zeros.
-/
structure WritesSize (files unreadable : FileSystem) (name : Bytes) (size : UInt32) : Prop where
  nonzero (h : existing files unreadable name = none) : size ≠ 0
  zeros {content : Bytes} (h : unreadable name = some content)
    : content = List.replicate (writtenLength size) 0

theorem overwrite_nil (off : Nat) : overwrite [] off [0] = List.replicate (off + 1) 0 := by
  unfold overwrite splice
  rw [if_neg (by simp), List.nil_append, List.length_nil, Nat.sub_zero,
    List.take_of_length_le (by rw [List.length_replicate]), List.drop_of_length_le (by simp),
    List.append_nil, List.replicate_succ']

theorem writtenLength_eq_iff {size : UInt32} : writtenLength size = size.toNat ↔ size ≠ 0 := by
  unfold writtenLength
  have hsub := UInt32.toNat_sub size 1
  have hlt := size.toNat_lt
  rw [ne_eq, ← UInt32.toNat_inj]
  simp only [UInt32.reduceToNat] at hsub ⊢
  omega

theorem bpkgFileCheck_eq {files : FileSystem} {create : Bool} {bpkg : BpkgObj} {name : Bytes}
    (hname : stripWhitespace bpkg.filename = .ok (some name))
    : bpkgFileCheck files create bpkg
        =
      .ok ({ bpkg with filename := some name },
        if files name = none ∧ create = true then
          files.write name (List.replicate (writtenLength bpkg.size) 0)
        else
          files) := by
  cases hfilename : bpkg.filename with
  | none =>
    rw [hfilename] at hname
    cases hname
  | some filename =>
    rw [hfilename] at hname
    unfold bpkgFileCheck
    rw [hfilename]
    simp only [hname, deref_some, bind, Except.bind]
    cases hfile : files name with
    | some content => simp [pure, Except.pure]
    | none =>
      cases create with
      | false => simp [pure, Except.pure]
      | true =>
        rw [overwrite_nil]
        simp [pure, Except.pure, writtenLength]

theorem prepared_same {files unreadable : FileSystem} {create : Bool} {name : Bytes} {size : UInt32}
    (h : files name = none → create = false) : Prepared files files unreadable create name size where
  kept hcontent := hcontent
  created hnone hcreate := by
    unfold existing at hnone
    rw [Option.or_eq_none_iff] at hnone
    rw [h hnone.1] at hcreate
    contradiction
  others _ := rfl

theorem prepared_write_iff {files unreadable : FileSystem} {name : Bytes} (hfile : files name = none)
    (size : UInt32)
    : Prepared files (files.write name (List.replicate (writtenLength size) 0)) unreadable true name size
        ↔
      WritesSize files unreadable name size := by
  have hwritten : existing (files.write name (List.replicate (writtenLength size) 0)) unreadable name
      = some (List.replicate (writtenLength size) 0) := by
    unfold existing FileSystem.write
    rw [if_pos rfl, Option.some_or]
  have hbefore : existing files unreadable name = unreadable name := by
    unfold existing
    rw [hfile, Option.none_or]
  constructor
  . intro h
    constructor
    . intro hnone
      have hcreated := h.created hnone rfl
      rw [hwritten, Option.some.injEq, List.replicate_inj] at hcreated
      exact writtenLength_eq_iff.mp hcreated.1
    . intro content hcontent
      rw [← hbefore] at hcontent
      have hkept := h.kept hcontent
      rw [hwritten, Option.some.injEq] at hkept
      exact hkept.symm
  . intro h
    constructor
    . intro content hcontent
      rw [hbefore] at hcontent
      rw [hwritten, h.zeros hcontent]
    . intro hnone _
      rw [hwritten, writtenLength_eq_iff.mpr (h.nonzero hnone)]
    . intro other hother
      unfold existing FileSystem.write
      rw [if_neg hother]

theorem files_of_addPackage {dir path : Bytes} {env : AddEnv} {store store' : PackageStore} {ret : Int}
    {bpkg bpkg' : BpkgObj} {files' : FileSystem}
    (hload : bpkgLoad env.garbage (store.files path) (some dir) = .ok (some bpkg))
    (hcheck : bpkgFileCheck store.files env.create bpkg = .ok (bpkg', files'))
    (h : addPackage dir path env store = .ok (store', ret)) : store'.files = files' := by
  unfold addPackage at h
  rw [hload, bind_eq_ok] at h
  obtain ⟨loaded, hloaded, h⟩ := h
  rw [Except.ok.injEq] at hloaded
  rw [← hloaded] at h
  simp only [bind_eq_ok, pure_eq_ok, Prod.mk.injEq] at h
  obtain ⟨checked, hchecked, _, _, h, _⟩ := h
  rw [hcheck, Except.ok.injEq] at hchecked
  rw [← h, ← hchecked]

theorem addPackage_prepared_iff {dir path : Bytes} {env : AddEnv} {store : PackageStore} {bpkg : BpkgObj}
    (hdir : ∀ c ∈ dir, c ≠ 0)
    (hload : bpkgLoad env.garbage (store.files path) (some dir) = .ok (some bpkg)) (unreadable : FileSystem)
    : ∃ name bpkg' files',
        bpkgFileCheck store.files env.create bpkg = .ok (bpkg', files')
          ∧ bpkg'.filename = some name
          ∧ (∀ store' ret, addPackage dir path env store = .ok (store', ret) → store'.files = files')
          ∧ (Prepared store.files files' unreadable env.create name bpkg.size
              ↔
            (store.files name = none → env.create = true → WritesSize store.files unreadable name bpkg.size)) := by
  cases hfile : store.files path with
  | none =>
    rw [hfile] at hload
    simp [bpkgLoad] at hload
  | some text =>
    rw [hfile] at hload
    obtain ⟨name, hname⟩ := (@BpkgObj.Managed.load _ _ text (some dir) hdir hload).exists_name
    rw [← hfile] at hload
    have hcheck := @bpkgFileCheck_eq store.files env.create bpkg name hname
    refine ⟨name, _, _, hcheck, rfl, fun store' ret h => files_of_addPackage hload hcheck h, ?_⟩
    split
    . next hwrites =>
      rw [hwrites.2, prepared_write_iff hwrites.1]
      simp [hwrites.1]
    . next hskips =>
      constructor
      . intro _ hnone hcreate
        exact absurd ⟨hnone, hcreate⟩ hskips
      . intro _
        apply prepared_same
        intro hnone
        rw [← Bool.not_eq_true]
        intro hcreate
        exact hskips ⟨hnone, hcreate⟩

def oneByteStore : PackageStore where
  packages := .init
  objects := fun _ => none
  files := fun path => if path = ascii "p" then some oneByte else none

def oneByteEnv : AddEnv where
  ptr := 0
  garbage := ⟨none, none, 7, 7, none, 7, none, none⟩
  realloc := true
  create := true

theorem addPackage_prepared_one
    : ∃ name bpkg' files',
        bpkgFileCheck oneByteStore.files true { oneByteObj [] with filename := some (ascii "d/f") }
            = .ok (bpkg', files')
          ∧ bpkg'.filename = some name
          ∧ Prepared oneByteStore.files files' (fun _ => none) true name 1 := by
  have hload : bpkgLoad oneByteEnv.garbage (oneByteStore.files (ascii "p")) (some (ascii "d"))
      = .ok (some { oneByteObj [] with filename := some (ascii "d/f") }) := by
    decide +kernel
  obtain ⟨name, bpkg', files', hcheck, hname, -, hiff⟩ :=
    addPackage_prepared_iff (show ∀ c ∈ ascii "d", c ≠ 0 by decide +kernel) hload fun _ => none
  refine ⟨name, bpkg', files', hcheck, hname, hiff.mpr ?_⟩
  intro _ _
  constructor
  . intro _
    decide
  . intro content hcontent
    contradiction

def zeroSize : Bytes :=
  ascii "ident:a\nfilename:f\nsize:0\nnhashes:0\nhashes:\nnchunks:1\nchunks:\n\t" ++ digestC
    ++ ascii ",0,0\n"

def zeroSizeObj : BpkgObj where
  ident := some (ascii "a")
  filename := some (ascii "d/f")
  size := 0
  nhashes := 0
  hashes := .ofList []
  nchunks := 1
  chunks := .ofList [⟨digestC, 0, 0, some 0⟩]
  tree := some { root := .leaf ⟨0, 0, digestC, none, []⟩, nNodes := 1 }

/--
For a size of zero four gigabytes are written, and a data file that cannot be read is truncated.
-/
theorem addPackage_prepared_fails
    : bpkgLoad ⟨none, none, 7, 7, none, 7, none, none⟩ (some zeroSize) (some (ascii "d"))
          = .ok (some zeroSizeObj)
        ∧ bpkgFileCheck (fun _ => none) true zeroSizeObj
            = .ok (zeroSizeObj, FileSystem.write (fun _ => none) (ascii "d/f") (List.replicate 4294967296 0))
        ∧ ¬ Prepared (fun _ => none)
            (FileSystem.write (fun _ => none) (ascii "d/f") (List.replicate 4294967296 0)) (fun _ => none) true
            (ascii "d/f") 0
        ∧ bpkgFileCheck (fun _ => none) true { oneByteObj [] with filename := some (ascii "d/f") }
            = .ok ({ oneByteObj [] with filename := some (ascii "d/f") },
              FileSystem.write (fun _ => none) (ascii "d/f") [0])
        ∧ ¬ Prepared (fun _ => none) (FileSystem.write (fun _ => none) (ascii "d/f") [0])
            (fun _ => some (ascii "c")) true (ascii "d/f") 1 := by
  have hname : stripWhitespace (some (ascii "d/f")) = .ok (some (ascii "d/f")) := by decide
  refine ⟨by decide +kernel, bpkgFileCheck_eq hname, ?_, bpkgFileCheck_eq hname, ?_⟩
  . intro h
    have hwrites := (prepared_write_iff rfl 0).mp h
    exact hwrites.nonzero rfl rfl
  . intro h
    have hwrites := (prepared_write_iff rfl 1).mp h
    have hzeros := hwrites.zeros rfl
    revert hzeros
    decide

end PackageStore
end Btide
