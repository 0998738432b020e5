import Btide.Net.PackageTableRuns
import Mathlib.Data.Fintype.Basic

/-!
This module contains the steps in which the handlers look up and use managed packages, while packages
are added and removed.
-/

open Bytes CLib

namespace Btide

/--
Where a handler is in `get_data_from_file` or `add_data_to_file`. The calls that hold
`managed_packages_lock` are one step each. Behind the lookup, every stage has the address of the
package that was chosen.
-/
inductive Stage where
  | idle
  -- `compute_hashes_for_chunks` is called
  | hash (chosenBpkg : ObjPtr) (resArgs : ResArgs)
  -- the next block of the file is read and stored as the computed hash of chunk `i`
  | block (chosenBpkg : ObjPtr) (resArgs : ResArgs) (bufferSize : Nat) (shaBuff : Sha256ComputeData)
      (i : Nat)
  -- the computed hash of chunk `i` is compared
  | search (chosenBpkg : ObjPtr) (resArgs : ResArgs) (i : Nat)
  -- `calculate_data_len` is called for the block to read
  | measure (chosenBpkg : ObjPtr) (resArgs : ResArgs)
  -- the data file is opened for reading
  | fopen (chosenBpkg : ObjPtr)
  -- `calculate_data_len` is called for the block to write
  | check (chosenBpkg : ObjPtr) (resArgs : ResArgs)
  -- the data file is opened and written
  | fwrite (chosenBpkg : ObjPtr) (resArgs : ResArgs) (reqArgs : ReqArgs)
  deriving DecidableEq, Repr

namespace Stage

def chosenBpkg? : Stage → Option ObjPtr
  | idle => none
  | hash chosenBpkg _ => some chosenBpkg
  | block chosenBpkg _ _ _ _ => some chosenBpkg
  | search chosenBpkg _ _ => some chosenBpkg
  | measure chosenBpkg _ => some chosenBpkg
  | fopen chosenBpkg => some chosenBpkg
  | check chosenBpkg _ => some chosenBpkg
  | fwrite chosenBpkg _ _ => some chosenBpkg

end Stage

namespace PackageStore

def choose (objects : ObjPtr → Option BpkgObj) (ident chunkHash : Bytes)
    : List (Option ObjPtr) → Except Fault (Option ObjPtr)
  | [] => .ok none
  | none :: managedArray => choose objects ident chunkHash managedArray
  | some ptr :: managedArray => do
    let currentBpkg ← load objects ptr
    match ← chunkInMemory [some currentBpkg] ident chunkHash with
    | .found _ => return some ptr
    | .noHash => return none
    | .noPackage => choose objects ident chunkHash managedArray

def assign (store : PackageStore) (ptr : ObjPtr) (bpkg : BpkgObj) : PackageStore :=
  { store with objects := Function.update store.objects ptr (some bpkg) }

/--
The next step of a handler. `bytes` is what `fread` returns, if it is called.
-/
def advance (bytes : Bytes) (store : PackageStore) : Stage → Except Fault (PackageStore × Stage)
  | .idle => .ok (store, .idle)
  | .hash chosenBpkg resArgs => do
    let bpkg ← load store.objects chosenBpkg
    let some filename := bpkg.filename | throw .uninitialised
    let filename ← stripWhitespace (some filename)
    let bpkg := { bpkg with filename }
    let chunk ← bpkg.chunks.load 0
    let chunk ← deref chunk
    let store := store.assign chosenBpkg bpkg
    match filename.bind store.files with
    | none => return (store, .search chosenBpkg resArgs 0)
    | some _ => return (store, .block chosenBpkg resArgs chunk.size.toNat Sha256.zeroBuff 0)
  | .block chosenBpkg resArgs bufferSize shaBuff i =>
    if bytes.length = bufferSize then do
      let (finalHash, shaBuff) ← Sha256.hashWith shaBuff bytes
      let bpkg ← load store.objects chosenBpkg
      let chunk ← bpkg.chunks.load i
      let chunk ← deref chunk
      let nodePtr ← deref chunk.nodePtr
      let tree ← deref bpkg.tree
      let tree := { tree with root := tree.root.setComputedHash nodePtr finalHash }
      return (store.assign chosenBpkg { bpkg with tree := some tree },
        .block chosenBpkg resArgs bufferSize shaBuff (i + 1))
    else
      -- a short read ends the loop
      .ok (store, .search chosenBpkg resArgs 0)
  | .search chosenBpkg resArgs i => do
    let bpkg ← load store.objects chosenBpkg
    if bpkg.nchunks.toNat ≤ i then
      return (store, .idle)
    let chunk ← bpkg.chunks.load i
    let tree ← deref bpkg.tree
    if ← getDataFromFile.computed tree.root (cstr resArgs.chunkHash) [chunk] 1 then
      return (store, .measure chosenBpkg resArgs)
    else
      return (store, .search chosenBpkg resArgs (i + 1))
  | .measure chosenBpkg resArgs => do
    let bpkg ← load store.objects chosenBpkg
    match ← calculateDataLen bpkg (cstr resArgs.chunkHash) (some resArgs.fileOffset) with
    | none => return (store, .idle)
    | some _ => return (store, .fopen chosenBpkg)
  | .fopen chosenBpkg => do
    let bpkg ← load store.objects chosenBpkg
    let some _ := bpkg.filename | throw .uninitialised
    return (store, .idle)
  | .check chosenBpkg resArgs => do
    let bpkg ← load store.objects chosenBpkg
    match ← calculateDataLen bpkg (cstr resArgs.chunkHash) (some resArgs.fileOffset) with
    | none => return (store, .idle)
    | some reqArgs =>
      if reqArgs.fileOffset = resArgs.fileOffset
          ∧ resArgs.dataRecieved.toNat ≤ reqArgs.dataLen.toNat then
        return (store, .fwrite chosenBpkg resArgs reqArgs)
      else
        return (store, .idle)
  | .fwrite chosenBpkg resArgs reqArgs => do
    let bpkg ← load store.objects chosenBpkg
    let some filename := bpkg.filename | throw .uninitialised
    match store.files filename with
    | none => return (store, .idle)
    | some content =>
      let data ← deref resArgs.data
      if data.length < resArgs.dataRecieved.toNat then
        throw .outOfBounds
      let content := overwrite content reqArgs.fileOffset.toNat (data.take resArgs.dataRecieved.toNat)
      return ({ store with files := store.files.write filename content }, .idle)

end PackageStore

/--
The packages, the stages of the handlers and, for each handler, whether the package that it works on
was destroyed since it was chosen.
-/
structure PackageUse (ι : Type) where
  store : PackageStore
  stages : ι → Stage
  stale : ι → Bool

namespace PackageUse

open PackageStore

inductive Event (ι : Type) where
  | call (call : Call)
  | status
  | req (i : ι) (resArgs : ResArgs)
  | res (i : ι) (resArgs : ResArgs)
  | advance (i : ι) (bytes : Bytes)

def init (files : FileSystem) : PackageUse ι where
  store := .init files
  stages := fun _ => .idle
  stale := fun _ => false

variable [DecidableEq ι]

def begin (s : PackageUse ι) (i : ι) (resArgs : ResArgs) (next : ObjPtr → ResArgs → Stage)
    : Option (PackageUse ι) :=
  if s.stages i = .idle then
    match choose s.store.objects (cstr resArgs.ident) (cstr resArgs.chunkHash)
        s.store.packages.managedArray with
    | .ok (some ptr) =>
      some { s with
        stages := Function.update s.stages i (next ptr resArgs)
        stale := Function.update s.stale i false }
    | .ok none => some s
    | .error _ => none
  else
    none

def step (s : PackageUse ι) : Event ι → Option (PackageUse ι)
  | .call (.add dir path env) =>
    -- malloc does not return the address of an object that is allocated
    if (s.store.objects env.ptr).isSome then
      none
    else
      match addPackage dir path env s.store with
      | .ok (store, _) => some { s with store }
      | .error _ => none
  | .call (.remove ident) =>
    match removePackage ident s.store with
    | .ok (store, _) =>
      some { s with
        store
        stale := fun i =>
          s.stale i || (s.stages i).chosenBpkg?.any fun ptr => (store.objects ptr).isNone }
    | .error _ => none
  | .call (.change files) => some { s with store := { s.store with files } }
  | .status =>
    match packageStatus s.store with
    | .ok (_, store) => some { s with store }
    | .error _ => none
  | .req i resArgs => s.begin i resArgs .hash
  | .res i resArgs => s.begin i resArgs .check
  | .advance i bytes =>
    match s.store.advance bytes (s.stages i) with
    | .ok (store, stage) => some { s with store, stages := Function.update s.stages i stage }
    | .error _ => none

def Kept (s : PackageUse ι) : Prop :=
  ∀ i ptr, (s.stages i).chosenBpkg? = some ptr →
    s.stale i = false
      ∧ some ptr ∈ s.store.packages.managedArray
      ∧ (s.store.objects ptr).isSome = true

def removed (s : PackageUse ι) : Event ι → Option ObjPtr
  | .call (.remove ident) =>
    match removePackage.search s.store.objects ident 0 s.store.packages.managedArray with
    | .ok (some (_, ptr, _)) => some ptr
    | _ => none
  | _ => none

def Unused (s : PackageUse ι) (event : Event ι) : Prop :=
  ∀ ptr ∈ s.removed event, ∀ i, (s.stages i).chosenBpkg? ≠ some ptr

instance [Fintype ι] (s : PackageUse ι) (event : Event ι) : Decidable (s.Unused event) :=
  inferInstanceAs (Decidable (∀ ptr ∈ s.removed event, ∀ i, (s.stages i).chosenBpkg? ≠ some ptr))

end PackageUse

end Btide
