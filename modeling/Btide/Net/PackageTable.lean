import Btide.Chk.BpkgLoad
import Btide.Net.Packages
import Mathlib.Logic.Function.Basic

/-!
This module contains the table of managed packages of `src/package.c` and the commands that change or
report it.
-/

open Bytes CLib

namespace Btide

def INITIAL_PACKAGE_ARRAY_SIZE : Nat := 2

def INCREASE_FACTOR : Nat := 2

abbrev ObjPtr := Nat

/--
`struct managed_packages`. The capacity is the length of the array.
-/
structure PackageTable where
  managedArray : List (Option ObjPtr)
  size : Int
  deriving DecidableEq, Repr

structure PackageStore where
  packages : PackageTable
  objects : ObjPtr → Option BpkgObj
  files : FileSystem

/--
What the C library answers to the calls of `add_package`: `ptr` is the address of the new object and
`garbage` what it happens to contain, `realloc` and `create` tell whether the array can grow and
whether the data file can be created.
-/
structure AddEnv where
  ptr : ObjPtr
  garbage : BpkgObj
  realloc : Bool
  create : Bool
  deriving DecidableEq, Repr

def bpkgFileCheck (files : FileSystem) (create : Bool) (bpkg : BpkgObj)
    : Except Fault (BpkgObj × FileSystem) := do
  let some filename := bpkg.filename | throw .uninitialised
  let filename ← stripWhitespace (some filename)
  let bpkg := { bpkg with filename }
  let filename ← deref filename
  match files filename with
  | some _ => return (bpkg, files)
  | none =>
    if create then
      -- one byte is written behind a gap of size - 1 bytes
      return (bpkg, files.write filename (overwrite [] (bpkg.size - 1).toNat [0]))
    else
      return (bpkg, files)

namespace PackageTable

def init : PackageTable where
  managedArray := List.replicate INITIAL_PACKAGE_ARRAY_SIZE none
  size := 0

def capacity (packages : PackageTable) : Nat :=
  packages.managedArray.length

def insert (ptr : ObjPtr) (realloc : Bool) (packages : PackageTable)
    : Except Fault (PackageTable × Int) :=
  match packages.managedArray.findIdx? Option.isNone with
  | some i => do
    let managedArray := packages.managedArray.set i (some ptr)
    let size ← intAdd packages.size 1
    return ({ managedArray, size }, 1)
  | none => do
    let newCapacity ← intOfNat (packages.capacity * INCREASE_FACTOR)
    if !realloc then
      return (packages, 0)
    -- set all the unused pointers to NULL
    let reallocedArray :=
      packages.managedArray ++ List.replicate (newCapacity - packages.capacity) none
    if packages.size < 0 ∨ newCapacity ≤ packages.size then
      throw .outOfBounds
    let managedArray := reallocedArray.set packages.size.toNat (some ptr)
    let size ← intAdd packages.size 1
    return ({ managedArray, size }, 1)

end PackageTable

namespace PackageStore

def init (files : FileSystem) : PackageStore where
  packages := .init
  objects := fun _ => none
  files

def load (objects : ObjPtr → Option BpkgObj) (ptr : ObjPtr) : Except Fault BpkgObj :=
  match objects ptr with
  | some bpkg => .ok bpkg
  | none => .error .useAfterFree

def addPackage (dir path : Bytes) (env : AddEnv) (store : PackageStore)
    : Except Fault (PackageStore × Int) := do
  match ← bpkgLoad env.garbage (store.files path) (some dir) with
  | none => return (store, 0)
  | some bpkg =>
    let (bpkg, files) ← bpkgFileCheck store.files env.create bpkg
    let objects := Function.update store.objects env.ptr (some bpkg)
    -- the object is not freed if the array cannot grow
    let (packages, ret) ← store.packages.insert env.ptr env.realloc
    return ({ packages, objects, files }, ret)

def removePackage.search (objects : ObjPtr → Option BpkgObj) (ident : Bytes)
    : Nat → List (Option ObjPtr) → Except Fault (Option (Nat × ObjPtr × BpkgObj))
  | _, [] => .ok none
  | i, none :: managedArray => search objects ident (i + 1) managedArray
  | i, some ptr :: managedArray => do
    let currentBpkg ← load objects ptr
    let some current := currentBpkg.ident | throw .uninitialised
    if strncmpEq current ident 20 then
      return some (i, ptr, currentBpkg)
    else
      search objects ident (i + 1) managedArray

def removePackage (ident : Bytes) (store : PackageStore) : Except Fault (PackageStore × Int) := do
  match ← removePackage.search store.objects ident 0 store.packages.managedArray with
  | some (i, ptr, currentBpkg) =>
    bpkgObjDestroy currentBpkg
    let objects := Function.update store.objects ptr none
    let managedArray := store.packages.managedArray.set i none
    let size ← intAdd store.packages.size (-1)
    return ({ store with packages := { managedArray, size }, objects }, 1)
  | none => return (store, 0)

structure StatusLine where
  ident : Option Bytes
  filename : Option Bytes
  completed : Bool
  deriving DecidableEq, Repr

def packageStatus.report (files : FileSystem)
    : List (Option ObjPtr) → (ObjPtr → Option BpkgObj)
      → Except Fault (List StatusLine × (ObjPtr → Option BpkgObj))
  | [], objects => .ok ([], objects)
  | none :: managedArray, objects => report files managedArray objects
  | some ptr :: managedArray, objects => do
    let currentBpkg ← load objects ptr
    let (qry, currentBpkg) ← bpkgGetMinCompletedHashes files currentBpkg
    let tree ← deref currentBpkg.tree
    let completed := qry.hashes.hashes.head? = some tree.root.info.value
    let line := { ident := currentBpkg.ident, filename := currentBpkg.filename, completed }
    let (lines, objects) ←
      report files managedArray (Function.update objects ptr (some currentBpkg))
    return (line :: lines, objects)

def packageStatus (store : PackageStore) : Except Fault (List StatusLine × PackageStore) :=
  if store.packages.size = 0 then
    .ok ([], store)
  else do
    let (lines, objects) ←
      packageStatus.report store.files store.packages.managedArray store.objects
    return (lines, { store with objects })

end PackageStore

end Btide
