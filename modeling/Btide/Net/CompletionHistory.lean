import Btide.Net.PackageUse

/-!
This module contains the calls that hash the data file of a managed package, one after the other, with
changes of the file between them.
-/

open Bytes CLib

namespace Btide

namespace PackageStore

def getData (resArgs : ResArgs) (store : PackageStore)
    : Except Fault (Option (OpenFile × ResArgs) × PackageStore) := do
  match ← choose store.objects (cstr resArgs.ident) (cstr resArgs.chunkHash)
      store.packages.managedArray with
  | none => return (none, store)
  | some ptr =>
    let chosenBpkg ← load store.objects ptr
    let (file, packages) ← getDataFromFile.openFile [some chosenBpkg] store.files resArgs
    let chosenBpkg ← deref (packages.getD 0 none)
    return (file, store.assign ptr chosenBpkg)

inductive Query where
  | completedChunks (ptr : ObjPtr)
  | minCompletedHashes (ptr : ObjPtr)
  | status
  | getData (resArgs : ResArgs)

def query (store : PackageStore) : Query → Except Fault PackageStore
  | .completedChunks ptr => do
    let bpkg ← load store.objects ptr
    let (_, bpkg) ← bpkgGetCompletedChunks store.files bpkg
    return store.assign ptr bpkg
  | .minCompletedHashes ptr => do
    let bpkg ← load store.objects ptr
    let (_, bpkg) ← bpkgGetMinCompletedHashes store.files bpkg
    return store.assign ptr bpkg
  | .status => do
    let (_, store) ← packageStatus store
    return store
  | .getData resArgs => do
    let (_, store) ← getData resArgs store
    return store

def timesHashed (store : PackageStore) (ptr : ObjPtr) : Query → Nat
  | .completedChunks other => if other = ptr then 1 else 0
  | .minCompletedHashes other => if other = ptr then 1 else 0
  | .status => if store.packages.size = 0 then 0 else store.packages.managedArray.count (some ptr)
  | .getData resArgs =>
    match choose store.objects (cstr resArgs.ident) (cstr resArgs.chunkHash)
        store.packages.managedArray with
    | .ok (some other) => if other = ptr then 1 else 0
    | _ => 0

end PackageStore

namespace BpkgObj

def dataFile (files : FileSystem) (bpkg : BpkgObj) : Option Bytes :=
  match stripWhitespace bpkg.filename with
  | .ok (some name) => files name
  | _ => none

def leaves (bpkg : BpkgObj) : List NodeInfo :=
  match bpkg.tree with
  | some tree => tree.root.leaves
  | none => []

def completed (bpkg : BpkgObj) : List (Nat × Bytes) :=
  (bpkg.leaves.filter fun info => info.value == info.computedHash).map fun info =>
    (info.key, info.value)

def holding (bpkg : BpkgObj) (hash : Bytes) : List (Nat × Bytes) :=
  (bpkg.leaves.filter fun info => hash == info.computedHash).map fun info => (info.key, info.value)

end BpkgObj

/--
The packages, and what the data file of one of them was at the calls that hashed it, the last one
first.
-/
structure History where
  store : PackageStore
  past : List (Option Bytes)

namespace History

inductive Event where
  | change (files : FileSystem)
  | query (query : PackageStore.Query)

def step (ptr : ObjPtr) (loaded : BpkgObj) (s : History) : Event → Option History
  | .change files => some { s with store := { s.store with files } }
  | .query query =>
    match s.store.query query with
    | .ok store =>
      some {
        store
        past :=
          List.replicate (s.store.timesHashed ptr query) (loaded.dataFile s.store.files) ++ s.past }
    | .error _ => none

def covering (b j : Nat) (file : Option Bytes) : Option Bytes :=
  file.filter fun data => (j + 1) * b ≤ data.length

def lastCovering (b j : Nat) (past : List (Option Bytes)) : Option Bytes :=
  past.findSome? (covering b j)

def remembered (b : Nat) (past : List (Option Bytes)) (j : Nat) : Bytes :=
  match lastCovering b j past with
  | some data => Sha256.digest (slice data (j * b) b)
  | none => []

end History

end Btide
