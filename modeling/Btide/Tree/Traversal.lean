import Btide.Tree.InsertNode

/-!
This module contains the specifications of `inorder_search` and `inorder_find_node`.
-/

open CLib

namespace Btide

open MerkleTreeNode

namespace HashBuf

def append (buf : HashBuf) (values : List Bytes) : HashBuf :=
  { buf with hashes := buf.hashes ++ values }

@[simp]
theorem append_cap (buf : HashBuf) (values : List Bytes) : (buf.append values).cap = buf.cap := rfl

@[simp]
theorem append_hashes (buf : HashBuf) (values : List Bytes)
    : (buf.append values).hashes = buf.hashes ++ values := rfl

@[simp]
theorem append_nil (buf : HashBuf) : buf.append [] = buf := by
  simp [append]

@[simp]
theorem append_append (buf : HashBuf) (front back : List Bytes)
    : (buf.append front).append back = buf.append (front ++ back) := by
  simp [append]

@[simp]
theorem alloc_cap (cap : Nat) : (alloc cap).cap = cap := rfl

@[simp]
theorem alloc_hashes (cap : Nat) : (alloc cap).hashes = [] := rfl

theorem push_eq {buf : HashBuf} (h : buf.hashes.length < buf.cap) (value : Bytes)
    : buf.push value = .ok (buf.append [value]) := by
  simp [push, append, h]

end HashBuf

def visit (p : MerkleTreeNode → Bool) (node : MerkleTreeNode) (buf : HashBuf) : Except Fault HashBuf :=
  if p node then buf.push node.info.value else .ok buf

theorem inorderSearch_eq_foldlM (func : MerkleTreeNode → HashBuf → Except Fault HashBuf)
    (t : MerkleTreeNode) (buf : HashBuf)
    : inorderSearch func t buf = t.inorder.foldlM (fun buf node => func node buf) buf := by
  induction t generalizing buf with
  | leaf info =>
    unfold inorderSearch
    rw [inorder_leaf, List.foldlM_cons]
    cases func (leaf info) buf with
    | error e => rfl
    | ok buf => rfl
  | inner info left right ihl ihr =>
    unfold inorderSearch
    rw [inorder_inner, List.foldlM_append, ihl]
    simp only [List.foldlM_cons, ihr]

theorem foldlM_visit {p : MerkleTreeNode → Bool} {nodes : List MerkleTreeNode} {buf : HashBuf}
    (h : buf.hashes.length + (nodes.filter p).length ≤ buf.cap)
    : nodes.foldlM (fun buf node => visit p node buf) buf
        =
      .ok (buf.append ((nodes.filter p).map (·.info.value))) := by
  induction nodes generalizing buf with
  | nil => simp [pure, Except.pure]
  | cons node nodes ih =>
    rw [List.foldlM_cons]
    by_cases hp : p node
    . rw [List.filter_cons_of_pos hp, List.length_cons] at h
      have hvisit : visit p node buf = .ok (buf.append [node.info.value]) := by
        simp only [visit, hp, ↓reduceIte]
        exact HashBuf.push_eq (by omega) _
      simp only [hvisit, bind, Except.bind]
      rw [ih]
      . simp [hp]
      . simp only [HashBuf.append_hashes, HashBuf.append_cap, List.length_append,
          List.length_singleton]
        omega
    . simp only [hp, Bool.false_eq_true, not_false_eq_true, List.filter_cons_of_neg] at h
      have hvisit : visit p node buf = .ok buf := by simp [visit, hp]
      simp only [hvisit, bind, Except.bind]
      rw [ih h]
      simp [hp]

theorem inorderSearch_visit {p : MerkleTreeNode → Bool} {t : MerkleTreeNode} {buf : HashBuf}
    (h : buf.hashes.length + (t.inorder.filter p).length ≤ buf.cap)
    : inorderSearch (visit p) t buf
        =
      .ok (buf.append ((t.inorder.filter p).map (·.info.value))) := by
  rw [inorderSearch_eq_foldlM]
  exact foldlM_visit h

theorem inorderFindNode_eq (hash : Bytes) (t : MerkleTreeNode)
    : inorderFindNode hash t = t.inorder.find? (·.info.value = hash) := by
  induction t with
  | leaf info =>
    unfold inorderFindNode
    rw [inorder_leaf, List.find?_singleton]
    simp only [MerkleTreeNode.info]
    by_cases hvalue : info.value = hash
    . simp [hvalue]
    . simp [hvalue]
  | inner info left right ihl ihr =>
    unfold inorderFindNode
    rw [inorder_inner, List.find?_append, List.find?_cons, ← ihl, ← ihr]
    cases inorderFindNode hash left with
    | some node => rfl
    | none =>
      by_cases hvalue : info.value = hash
      . simp [MerkleTreeNode.info, hvalue]
      . simp [MerkleTreeNode.info, hvalue]

theorem inorderFindNode_eq_none {hash : Bytes} {t : MerkleTreeNode}
    : inorderFindNode hash t = none ↔ hash ∉ t.subtrees.map (·.info.value) := by
  rw [inorderFindNode_eq, List.find?_eq_none]
  simp [t.inorder_perm.mem_iff]

theorem find?_of_nodup_map [DecidableEq β] {l : List α} {f : α → β} {a : α} (hnodup : (l.map f).Nodup)
    (ha : a ∈ l) : l.find? (f · = f a) = some a := by
  cases hfind : l.find? (f · = f a) with
  | none =>
    rw [List.find?_eq_none] at hfind
    simpa using hfind a ha
  | some b =>
    have hb := List.mem_of_find?_eq_some hfind
    have heq := List.find?_some hfind
    rw [decide_eq_true_eq] at heq
    rw [List.inj_on_of_nodup_map hnodup hb ha heq]

theorem inorderFindNode_eq_some {t s : MerkleTreeNode}
    (hnodup : (t.subtrees.map (·.info.value)).Nodup) (hs : s ∈ t.subtrees)
    : inorderFindNode s.info.value t = some s := by
  rw [inorderFindNode_eq]
  apply find?_of_nodup_map
  . rw [(t.inorder_perm.map _).nodup_iff]
    exact hnodup
  . rw [t.inorder_perm.mem_iff]
    exact hs

end Btide
