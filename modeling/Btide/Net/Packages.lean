import Btide.Chk.PkgChk
import Btide.Net.Packet
import Btide.Tree.Shape

/-!
This module contains the part of `src/package.c` that looks up chunks of managed packages and
transfers their data.
-/

open Bytes CLib

namespace Btide

structure ReqArgs where
  dataLen : UInt32
  ident : Bytes
  chunkHash : Bytes
  fileOffset : UInt32
  deriving DecidableEq, Repr

/--
`struct res_args`. The strings are the memory from their pointers on. `data` is `none` if it is a
null pointer and otherwise holds what was assigned of the block.
-/
structure ResArgs where
  dataLen : UInt32
  dataRecieved : UInt16
  ident : Bytes
  chunkHash : Bytes
  fileOffset : UInt32
  data : Option Bytes
  bytesRead : Nat
  currentRead : UInt16
  deriving DecidableEq, Repr

abbrev ManagedPackages := List (Option BpkgObj)

/--
The results `1`, `-1` and `-2` of `chunk_in_memory`, the first one with the slot of the package.
-/
inductive Lookup where
  | found (slot : Nat)
  | noHash
  | noPackage
  deriving DecidableEq, Repr

structure OpenFile where
  content : Bytes
  pos : Nat
  deriving DecidableEq, Repr

namespace FileSystem

def write (files : FileSystem) (name content : Bytes) : FileSystem :=
  fun other => if other = name then some content else files other

end FileSystem

/--
The content of a file after a write of `ys` at the position `off`. A gap is filled with zeros.
-/
def overwrite (content : Bytes) (off : Nat) (ys : Bytes) : Bytes :=
  if ys = [] then
    content
  else
    splice (content ++ List.replicate (off - content.length) 0) off ys

def calculateDataLen.search (hash : Bytes) (offset : Option UInt32)
    : List (Option Chunk) → Nat → Except Fault (Option ReqArgs)
  | _, 0 => .ok none
  | [], _ + 1 => .error .outOfBounds
  | entry :: entries, n + 1 => do
    let chunk ← deref entry
    if chunk.hash = hash then
      match offset with
      | some offset =>
        let chunkEnd := chunk.offset + chunk.size
        -- the chunk must contain the offset
        if chunk.offset ≤ offset ∧ offset ≤ chunkEnd then
          return some { dataLen := chunkEnd - offset, ident := [], chunkHash := [], fileOffset := offset }
        else
          search hash (some offset) entries n
      | none =>
        return some { dataLen := chunk.size, ident := [], chunkHash := [], fileOffset := chunk.offset }
    else
      search hash offset entries n

/--
The two strings of the result are still to be assigned.
-/
def calculateDataLen (bpkg : BpkgObj) (hash : Bytes) (offset : Option UInt32)
    : Except Fault (Option ReqArgs) :=
  match bpkg.chunks with
  | some entries => calculateDataLen.search hash offset entries bpkg.nchunks.toNat
  | none => if bpkg.nchunks = 0 then .ok none else .error .nullPointer

def chunkInMemory.search (ident chunkHash : Bytes)
    : Nat → ManagedPackages → Except Fault Lookup
  | _, [] => .ok .noPackage
  | slot, none :: packages => search ident chunkHash (slot + 1) packages
  | slot, some bpkg :: packages => do
    let some current := bpkg.ident | throw .uninitialised
    if strncmpEq current ident 20 then
      let tree ← deref bpkg.tree
      let qry ← bpkgGetAllChunkHashesFromHash bpkg tree.root.info.value
      let qry ← deref qry
      if qry.hashes.hashes.contains chunkHash then
        return .found slot
      else
        return .noHash
    else
      search ident chunkHash (slot + 1) packages

def chunkInMemory (packages : ManagedPackages) (ident chunkHash : Bytes) : Except Fault Lookup :=
  chunkInMemory.search ident chunkHash 0 packages

def addDataToFile (packages : ManagedPackages) (files : FileSystem) (resArgs : ResArgs)
    : Except Fault FileSystem := do
  let hash := cstr resArgs.chunkHash
  match ← chunkInMemory packages (cstr resArgs.ident) hash with
  | .found slot =>
    let chosenBpkg ← deref (packages.getD slot none)
    match ← calculateDataLen chosenBpkg hash (some resArgs.fileOffset) with
    | none => return files
    | some reqArgs =>
      if reqArgs.fileOffset = resArgs.fileOffset
          ∧ resArgs.dataRecieved.toNat ≤ reqArgs.dataLen.toNat then
        let some filename := chosenBpkg.filename | throw .uninitialised
        match files filename with
        | none => return files
        | some content =>
          let data ← deref resArgs.data
          -- fwrite reads data_recieved bytes behind the pointer
          if data.length < resArgs.dataRecieved.toNat then
            throw .outOfBounds
          return files.write filename
            (overwrite content reqArgs.fileOffset.toNat (data.take resArgs.dataRecieved.toNat))
      else
        return files
  | _ => return files

namespace getDataFromFile

def computed (root : MerkleTreeNode) (hash : Bytes) : List (Option Chunk) → Nat → Except Fault Bool
  | _, 0 => .ok false
  | [], _ + 1 => .error .outOfBounds
  | entry :: entries, n + 1 => do
    let chunk ← deref entry
    let nodePtr ← deref chunk.nodePtr
    match root.subtrees.find? (·.info.ptr = nodePtr) with
    | none => throw .useAfterFree
    | some node => if node.info.computedHash = hash then return true else computed root hash entries n

/--
The call without an open file. It hashes the data file of the package that it finds.
-/
def openFile (packages : ManagedPackages) (files : FileSystem) (resArgs : ResArgs)
    : Except Fault (Option (OpenFile × ResArgs) × ManagedPackages) := do
  let hash := cstr resArgs.chunkHash
  match ← chunkInMemory packages (cstr resArgs.ident) hash with
  | .found slot =>
    let chosenBpkg ← deref (packages.getD slot none)
    let chosenBpkg ← computeHashesForChunks files chosenBpkg
    let packages := packages.set slot (some chosenBpkg)
    let entries ← deref chosenBpkg.chunks
    let tree ← deref chosenBpkg.tree
    if ← computed tree.root hash entries chosenBpkg.nchunks.toNat then
      match ← calculateDataLen chosenBpkg hash (some resArgs.fileOffset) with
      | none => return (none, packages)
      | some reqArgs =>
        match chosenBpkg.filename.bind files with
        | none => return (none, packages)
        | some content =>
          return (some ({ content, pos := reqArgs.fileOffset.toNat }, { resArgs with data := some [] }),
            packages)
    else
      return (none, packages)
  | _ => return (none, packages)

/--
The call with an open file. The file is closed if it has too few bytes.
-/
def readFile (resArgs : ResArgs) (file : Option OpenFile)
    : Except Fault (ResArgs × Option OpenFile) := do
  let some file := file | throw .useAfterFree
  let rest := resArgs.dataLen - UInt32.ofNat resArgs.bytesRead
  let readAmount := if rest.toNat < DATA_MAX_SIZE then rest.toNat else DATA_MAX_SIZE
  let bytes := slice file.content file.pos readAmount
  if bytes.length < readAmount then
    return ({ resArgs with data := none }, none)
  else
    let bytesRead ← intOfNat (resArgs.bytesRead + bytes.length)
    -- the rest of the block is zeroed if it was not read completely
    let data := bytes ++ List.replicate (DATA_MAX_SIZE - bytes.length) 0
    return ({ resArgs with bytesRead, currentRead := UInt16.ofNat bytes.length, data := some data },
      some { file with pos := file.pos + bytes.length })

def afterRead (resArgs : ResArgs) (content : Bytes) (pos n : Nat) : ResArgs :=
  { resArgs with
    bytesRead := resArgs.bytesRead + n
    currentRead := UInt16.ofNat n
    data := some (slice content pos n ++ List.replicate (DATA_MAX_SIZE - n) 0) }

def blockLen (resArgs : ResArgs) : Nat :=
  min (resArgs.dataLen.toNat - resArgs.bytesRead) DATA_MAX_SIZE

theorem blockLen_pos {resArgs : ResArgs} (h : resArgs.bytesRead < resArgs.dataLen.toNat)
    : 0 < blockLen resArgs := by
  unfold blockLen DATA_MAX_SIZE
  omega

theorem readFile_eq {resArgs : ResArgs} {file : OpenFile}
    (hlt : resArgs.bytesRead < resArgs.dataLen.toNat)
    : readFile resArgs (some file)
        =
      if file.content.length < file.pos + blockLen resArgs then
        .ok ({ resArgs with data := none }, none)
      else if resArgs.bytesRead + blockLen resArgs ≤ INT_MAX then
        .ok (afterRead resArgs file.content file.pos (blockLen resArgs),
          some { file with pos := file.pos + blockLen resArgs })
      else
        .error .intOverflow := by
  have hlen := resArgs.dataLen.toNat_lt
  have hrest : (resArgs.dataLen - UInt32.ofNat resArgs.bytesRead).toNat
      = resArgs.dataLen.toNat - resArgs.bytesRead := by
    have hread : (UInt32.ofNat resArgs.bytesRead).toNat = resArgs.bytesRead := by
      rw [UInt32.toNat_ofNat']
      omega
    rw [UInt32.toNat_sub_of_le, hread]
    rw [UInt32.le_iff_toNat_le, hread]
    omega
  have hblock : (if (resArgs.dataLen - UInt32.ofNat resArgs.bytesRead).toNat < DATA_MAX_SIZE then
      (resArgs.dataLen - UInt32.ofNat resArgs.bytesRead).toNat else DATA_MAX_SIZE)
      = blockLen resArgs := by
    rw [hrest, blockLen]
    split
    . omega
    . omega
  have hpos := blockLen_pos hlt
  unfold readFile
  simp only [hblock, bind, Except.bind]
  by_cases hshort : file.content.length < file.pos + blockLen resArgs
  . have hfew : (slice file.content file.pos (blockLen resArgs)).length < blockLen resArgs := by
      rw [length_slice]
      omega
    simp only [hshort, hfew, ↓reduceIte, pure, Except.pure]
  . have hall : (slice file.content file.pos (blockLen resArgs)).length = blockLen resArgs :=
      length_slice_of_le (by omega)
    simp only [hshort, hall, Nat.lt_irrefl, ↓reduceIte, intOfNat]
    by_cases hmax : resArgs.bytesRead + blockLen resArgs ≤ INT_MAX
    . simp only [hmax, ↓reduceIte, pure, Except.pure, afterRead]
    . simp only [hmax, ↓reduceIte]

end getDataFromFile

end Btide
