import Btide.Crypt.Sha256

/-!
This module contains the merkle tree of `src/tree/merkletree.c`: its construction and the traversals.
-/

open Bytes CLib

namespace Btide

abbrev NodePtr := Nat

/--
`struct merkle_tree_node` without the children and `is_leaf`, and with the address of the node.
-/
structure NodeInfo where
  ptr : NodePtr
  key : Nat
  value : Bytes
  parent : Option NodePtr
  computedHash : Bytes
  deriving DecidableEq, Repr

/--
A node together with what its child pointers lead to. Nodes with `is_leaf` set have no children and
the other ones have both.
-/
inductive MerkleTreeNode where
  | leaf (info : NodeInfo)
  | inner (info : NodeInfo) (left right : MerkleTreeNode)
  deriving DecidableEq, Repr

structure MerkleTree where
  root : MerkleTreeNode
  nNodes : Int
  deriving DecidableEq, Repr

structure Chunk where
  hash : Bytes
  offset : UInt32
  size : UInt32
  nodePtr : Option NodePtr
  deriving DecidableEq, Repr

/--
An array on the heap, which may be a null pointer and whose entries may be null or unassigned.
-/
abbrev PtrArray (α : Type) := Option (List (Option α))

namespace PtrArray

def load (arr : PtrArray α) (i : Int) : Except Fault (Option α) := do
  let entries ← deref arr
  if i < 0 then
    throw .outOfBounds
  match entries[i.toNat]? with
  | some entry => return entry
  | none => throw .outOfBounds

end PtrArray

namespace MerkleTreeNode

def info : MerkleTreeNode → NodeInfo
  | leaf info => info
  | inner info _ _ => info

def isLeaf : MerkleTreeNode → Bool
  | leaf _ => true
  | inner _ _ _ => false

end MerkleTreeNode

/--
What `insert_node` changes besides the node it returns: the next free address and the array of
chunks, whose `node_ptr` fields it sets.
-/
structure InsertState where
  next : NodePtr
  chunks : PtrArray Chunk
  deriving DecidableEq, Repr

def insertNode (hashes : PtrArray Bytes) (n : Int) (parent : Option NodePtr) (i : Nat)
    (st : InsertState) : Except Fault (MerkleTreeNode × InsertState) := do
  if _h : i < n then
    let ptr := st.next
    let entry ← hashes.load i
    match entry with
    | none => throw .uninitialised
    | some value =>
      let key ← intOfNat (2 * i + 1)
      let (left, st) ← insertNode hashes n (some ptr) (2 * i + 1) { st with next := ptr + 1 }
      let _ ← intOfNat (key + 1)
      let (right, st) ← insertNode hashes n (some ptr) (2 * i + 2) st
      return (.inner { ptr, key := i, value, parent, computedHash := [] } left right, st)
  else
    -- i is part of the second array
    let ptr := st.next
    let entry ← st.chunks.load (i - n)
    let chunk ← deref entry
    let chunks := st.chunks.map (·.set (i - n).toNat (some { chunk with nodePtr := some ptr }))
    return (.leaf { ptr, key := i, value := chunk.hash, parent, computedHash := [] },
      { next := ptr + 1, chunks })
termination_by (n - i).toNat

def createTree (hashes : PtrArray Bytes) (nhashes : Int) (chunks : PtrArray Chunk) (nchunks : Int)
    : Except Fault (MerkleTree × PtrArray Chunk) := do
  let (root, st) ← insertNode hashes nhashes none 0 { next := 0, chunks }
  let nNodes ← intAdd nhashes nchunks
  return ({ root, nNodes }, st.chunks)

/--
A result array of `cap` entries of which the ones below the index `*i` are written.
-/
structure HashBuf where
  cap : Nat
  hashes : List Bytes
  deriving DecidableEq, Repr

namespace HashBuf

/--
`hashes[*i] = value; (*i)++`
-/
def push (buf : HashBuf) (value : Bytes) : Except Fault HashBuf :=
  if buf.hashes.length < buf.cap then
    .ok { buf with hashes := buf.hashes ++ [value] }
  else
    .error .outOfBounds

def alloc (cap : Nat) : HashBuf :=
  { cap, hashes := [] }

end HashBuf

def inorderSearch (func : MerkleTreeNode → HashBuf → Except Fault HashBuf)
    : MerkleTreeNode → HashBuf → Except Fault HashBuf
  | .leaf info, buf => func (.leaf info) buf
  | .inner info left right, buf => do
    let buf ← inorderSearch func left buf
    let buf ← func (.inner info left right) buf
    inorderSearch func right buf

def inorderFindNode (hash : Bytes) : MerkleTreeNode → Option MerkleTreeNode
  | .leaf info => if info.value = hash then some (.leaf info) else none
  | .inner info left right =>
    match inorderFindNode hash left with
    | some node => some node
    | none =>
      if info.value = hash then
        some (.inner info left right)
      else
        inorderFindNode hash right

def minHashFind : MerkleTreeNode → HashBuf → Except Fault (Bool × HashBuf)
  | .leaf info, buf => return (info.computedHash = info.value, buf)
  | .inner info left right, buf => do
    let (leftComplete, buf) ← minHashFind left buf
    let (rightComplete, buf) ← minHashFind right buf
    if leftComplete && rightComplete then
      -- special case for the root
      if info.parent = none then
        let buf ← buf.push info.value
        return (true, buf)
      return (true, buf)
    else if leftComplete then
      let buf ← buf.push left.info.value
      return (false, buf)
    else if rightComplete then
      let buf ← buf.push right.info.value
      return (false, buf)
    else
      return (false, buf)

def MerkleTreeNode.setComputedHash (ptr : NodePtr) (hash : Bytes) : MerkleTreeNode → MerkleTreeNode
  | .leaf info => .leaf (if info.ptr = ptr then { info with computedHash := hash } else info)
  | .inner info left right =>
    .inner (if info.ptr = ptr then { info with computedHash := hash } else info)
      (left.setComputedHash ptr hash) (right.setComputedHash ptr hash)

end Btide
