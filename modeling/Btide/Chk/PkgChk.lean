import Btide.Chk.Helpers
import Btide.Tree.MerkleTree

/-!
This module contains the package object of `src/chk/pkgchk.c`, the hashing of its data file and the
queries on it.
-/

open CLib

namespace Btide

/--
The contents of the files that exist, by name.
-/
abbrev FileSystem := Bytes → Option Bytes

/--
`struct bpkg_obj`. The two strings are `none` as long as they are unassigned.
-/
structure BpkgObj where
  ident : Option Bytes
  filename : Option Bytes
  size : UInt32
  nhashes : UInt32
  hashes : PtrArray Bytes
  nchunks : UInt32
  chunks : PtrArray Chunk
  tree : Option MerkleTree
  deriving DecidableEq, Repr

structure BpkgQuery where
  hashes : HashBuf
  len : Nat
  deriving DecidableEq, Repr

namespace BpkgObj

def intNchunks (bpkg : BpkgObj) : Int :=
  toInt bpkg.nchunks.toNat

end BpkgObj

namespace computeHashesForChunks

/--
The loop over the blocks of the data file. `data` is what is left of the file and `entries` are the
entries of the chunk array from index `i` on.
-/
def blocks (bufferSize : Nat) (shaBuff : Sha256ComputeData) (data : Bytes) (root : MerkleTreeNode)
    : List (Option Chunk) → Except Fault MerkleTreeNode
  | [] =>
    if bufferSize ≤ data.length then
      .error .outOfBounds
    else
      .ok root
  | entry :: entries =>
    if bufferSize ≤ data.length then do
      let (finalHash, shaBuff) ← Sha256.hashWith shaBuff (data.take bufferSize)
      let chunk ← deref entry
      let nodePtr ← deref chunk.nodePtr
      blocks bufferSize shaBuff (data.drop bufferSize) (root.setComputedHash nodePtr finalHash)
        entries
    else
      .ok root

end computeHashesForChunks

def computeHashesForChunks (files : FileSystem) (bpkg : BpkgObj) : Except Fault BpkgObj := do
  let some filename := bpkg.filename | throw .uninitialised
  let filename ← stripWhitespace (some filename)
  let bpkg := { bpkg with filename }
  let chunk ← bpkg.chunks.load 0
  let chunk ← deref chunk
  match filename.bind files with
  | none => return bpkg
  | some data =>
    let entries ← deref bpkg.chunks
    let tree ← deref bpkg.tree
    let root ←
      computeHashesForChunks.blocks chunk.size.toNat Sha256.zeroBuff data tree.root entries
    return { bpkg with tree := some { tree with root } }

def allHashFunc (node : MerkleTreeNode) (buf : HashBuf) : Except Fault HashBuf :=
  buf.push node.info.value

def bpkgGetAllHashes (bpkg : BpkgObj) : Except Fault BpkgQuery := do
  let n := toInt (bpkg.nhashes + bpkg.nchunks).toNat
  let tree ← deref bpkg.tree
  let hashes ← inorderSearch allHashFunc tree.root (.alloc n.toNat)
  return { hashes, len := n.toNat }

def getCompletedChunks (node : MerkleTreeNode) (buf : HashBuf) : Except Fault HashBuf :=
  if node.isLeaf && node.info.value == node.info.computedHash then
    buf.push node.info.value
  else
    .ok buf

def bpkgGetCompletedChunks (files : FileSystem) (bpkg : BpkgObj)
    : Except Fault (BpkgQuery × BpkgObj) := do
  let bpkg ← computeHashesForChunks files bpkg
  let tree ← deref bpkg.tree
  let hashes ← inorderSearch getCompletedChunks tree.root (.alloc bpkg.intNchunks.toNat)
  return ({ hashes, len := hashes.hashes.length }, bpkg)

def bpkgGetMinCompletedHashes (files : FileSystem) (bpkg : BpkgObj)
    : Except Fault (BpkgQuery × BpkgObj) := do
  let bpkg ← computeHashesForChunks files bpkg
  let tree ← deref bpkg.tree
  let (_, hashes) ← minHashFind tree.root (.alloc bpkg.intNchunks.toNat)
  return ({ hashes, len := hashes.hashes.length }, bpkg)

def getChunksFromHashFunc (node : MerkleTreeNode) (buf : HashBuf) : Except Fault HashBuf :=
  if node.isLeaf then
    buf.push node.info.value
  else
    .ok buf

def bpkgGetAllChunkHashesFromHash (bpkg : BpkgObj) (hash : Bytes)
    : Except Fault (Option BpkgQuery) := do
  let tree ← deref bpkg.tree
  match inorderFindNode hash tree.root with
  | none => return none
  | some foundNode =>
    let hashes ← inorderSearch getChunksFromHashFunc foundNode (.alloc bpkg.intNchunks.toNat)
    return some { hashes, len := hashes.hashes.length }

end Btide
