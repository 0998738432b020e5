import Btide.Tree.MerkleTree
import Btide.Lib.HeapTree

/-!
This module contains the shape of the trees that `insert_node` builds: the lists of their nodes and
the predicate that relates a node to its key.
-/

open CLib HeapTree

namespace Btide
namespace MerkleTreeNode

def subtrees : MerkleTreeNode → List MerkleTreeNode
  | leaf info => [leaf info]
  | inner info left right => inner info left right :: (left.subtrees ++ right.subtrees)

def inorder : MerkleTreeNode → List MerkleTreeNode
  | leaf info => [leaf info]
  | inner info left right => left.inorder ++ inner info left right :: right.inorder

def leaves : MerkleTreeNode → List NodeInfo
  | leaf info => [info]
  | inner _ left right => left.leaves ++ right.leaves

def keys (t : MerkleTreeNode) : List Nat :=
  t.subtrees.map (·.info.key)

def ptrs (t : MerkleTreeNode) : List NodePtr :=
  t.subtrees.map (·.info.ptr)

@[simp]
theorem subtrees_leaf (info : NodeInfo) : (leaf info).subtrees = [leaf info] := rfl

@[simp]
theorem subtrees_inner (info : NodeInfo) (left right : MerkleTreeNode)
    : (inner info left right).subtrees
        =
      inner info left right :: (left.subtrees ++ right.subtrees) := rfl

@[simp]
theorem inorder_leaf (info : NodeInfo) : (leaf info).inorder = [leaf info] := rfl

@[simp]
theorem inorder_inner (info : NodeInfo) (left right : MerkleTreeNode)
    : (inner info left right).inorder
        =
      left.inorder ++ inner info left right :: right.inorder := rfl

@[simp]
theorem leaves_leaf (info : NodeInfo) : (leaf info).leaves = [info] := rfl

@[simp]
theorem leaves_inner (info : NodeInfo) (left right : MerkleTreeNode)
    : (inner info left right).leaves = left.leaves ++ right.leaves := rfl

@[simp]
theorem keys_leaf (info : NodeInfo) : (leaf info).keys = [info.key] := rfl

@[simp]
theorem keys_inner (info : NodeInfo) (left right : MerkleTreeNode)
    : (inner info left right).keys = info.key :: (left.keys ++ right.keys) := by
  simp [keys, MerkleTreeNode.info]

@[simp]
theorem ptrs_leaf (info : NodeInfo) : (leaf info).ptrs = [info.ptr] := rfl

@[simp]
theorem ptrs_inner (info : NodeInfo) (left right : MerkleTreeNode)
    : (inner info left right).ptrs = info.ptr :: (left.ptrs ++ right.ptrs) := by
  simp [ptrs, MerkleTreeNode.info]

theorem self_mem_subtrees (t : MerkleTreeNode) : t ∈ t.subtrees := by
  cases t with
  | leaf info => simp
  | inner info left right => simp

theorem subtrees_trans {r s t : MerkleTreeNode} (hr : r ∈ s.subtrees) (hs : s ∈ t.subtrees)
    : r ∈ t.subtrees := by
  induction t with
  | leaf info =>
    simp only [subtrees_leaf, List.mem_singleton] at hs
    rw [hs] at hr
    exact hr
  | inner info left right ihl ihr =>
    simp only [subtrees_inner, List.mem_cons, List.mem_append] at hs
    rcases hs with heq | hs | hs
    . rw [heq] at hr
      exact hr
    . simp [ihl hs]
    . simp [ihr hs]

theorem inorder_perm (t : MerkleTreeNode) : t.inorder.Perm t.subtrees := by
  induction t with
  | leaf info => exact List.Perm.refl _
  | inner info left right ihl ihr =>
    rw [inorder_inner, subtrees_inner]
    apply List.Perm.trans List.perm_middle
    exact List.Perm.cons _ (List.Perm.append ihl ihr)

theorem mem_leaves {t : MerkleTreeNode} {info : NodeInfo}
    : info ∈ t.leaves ↔ leaf info ∈ t.subtrees := by
  induction t with
  | leaf => simp
  | inner _ left right ihl ihr => simp [ihl, ihr]

theorem leaves_eq_inorder (t : MerkleTreeNode)
    : (t.inorder.filter (·.isLeaf)).map (·.info) = t.leaves := by
  induction t with
  | leaf => rfl
  | inner _ left right ihl ihr =>
    rw [inorder_inner, leaves_inner, List.filter_append, List.map_append, ihl, ← ihr]
    simp [isLeaf]

theorem leaves_sublist (t : MerkleTreeNode) : (t.leaves.map (·.key)).Sublist t.keys := by
  induction t with
  | leaf info => exact List.Sublist.refl _
  | inner _ left right ihl ihr =>
    rw [leaves_inner, keys_inner, List.map_append]
    apply List.Sublist.cons
    exact ihl.append ihr

theorem length_subtrees_leaves (t : MerkleTreeNode)
    : t.subtrees.length + 1 = 2 * t.leaves.length := by
  induction t with
  | leaf => rfl
  | inner _ left right ihl ihr =>
    simp only [subtrees_inner, leaves_inner, List.length_cons, List.length_append]
    omega

theorem length_leaves_le {s t : MerkleTreeNode} (hs : s ∈ t.subtrees)
    : s.leaves.length ≤ t.leaves.length := by
  induction t with
  | leaf info =>
    simp only [subtrees_leaf, List.mem_singleton] at hs
    rw [hs]
  | inner info left right ihl ihr =>
    simp only [subtrees_inner, List.mem_cons, List.mem_append] at hs
    rcases hs with heq | hs | hs
    . rw [heq]
    . have := ihl hs
      simp only [leaves_inner, List.length_append]
      omega
    . have := ihr hs
      simp only [leaves_inner, List.length_append]
      omega

theorem leaves_ne_nil (t : MerkleTreeNode) : t.leaves ≠ [] := by
  induction t with
  | leaf => simp
  | inner _ left right ihl ihr => simp [ihl]

end MerkleTreeNode

structure NodeInfo.Stores (info : NodeInfo) (value : Nat → Bytes) (parent : Option NodePtr) (i : Nat)
    : Prop where
  key : info.key = i
  parent : info.parent = parent
  value : info.value = value i

/--
`t` is the subtree of index `i` in the complete tree with `n` inner nodes.
-/
def MerkleTreeNode.Built (n : Nat) (value : Nat → Bytes) (parent : Option NodePtr) (i : Nat)
    : MerkleTreeNode → Prop
  | leaf info => n ≤ i ∧ info.Stores value parent i
  | inner info left right =>
    i < n
      ∧ info.Stores value parent i
      ∧ left.Built n value (some info.ptr) (2 * i + 1)
      ∧ right.Built n value (some info.ptr) (2 * i + 2)

namespace MerkleTreeNode.Built

variable {n i : Nat} {value : Nat → Bytes} {parent : Option NodePtr} {t s : MerkleTreeNode}

theorem stores (h : t.Built n value parent i) : t.info.Stores value parent i := by
  cases t with
  | leaf info => exact h.2
  | inner info left right => exact h.2.1

theorem isLeaf_iff (h : t.Built n value parent i) : t.isLeaf = true ↔ n ≤ i := by
  cases t with
  | leaf info => simp [isLeaf, h.1]
  | inner info left right =>
    have := h.1
    simp only [isLeaf, Bool.false_eq_true, false_iff]
    omega

theorem of_mem (h : t.Built n value parent i) (hs : s ∈ t.subtrees)
    : s.Built n value s.info.parent s.info.key := by
  induction t generalizing parent i with
  | leaf info =>
    simp only [subtrees_leaf, List.mem_singleton] at hs
    rw [hs, h.stores.key, h.stores.parent]
    exact h
  | inner info left right ihl ihr =>
    simp only [subtrees_inner, List.mem_cons, List.mem_append] at hs
    rcases hs with heq | hs | hs
    . have hp := h.stores.parent
      have hk := h.stores.key
      rw [heq, hp, hk]
      exact h
    . exact ihl h.2.2.1 hs
    . exact ihr h.2.2.2 hs

theorem mem_keys (h : t.Built n value parent i) (hi : i ≤ 2 * n) (k : Nat)
    : k ∈ t.keys ↔ Under i k ∧ k ≤ 2 * n := by
  induction t generalizing parent i with
  | leaf info =>
    have hkey : info.key = i := h.2.key
    have hn := h.1
    rw [keys_leaf, hkey, List.mem_singleton]
    constructor
    . intro heq
      rw [heq]
      exact ⟨.refl, hi⟩
    . rintro ⟨hunder, hk⟩
      exact hunder.eq_of_le (by omega)
  | inner info left right ihl ihr =>
    obtain ⟨hn, hstores, hl, hr⟩ := h
    have hkey : info.key = i := hstores.key
    rw [keys_inner, List.mem_cons, List.mem_append, ihl hl (by omega), ihr hr (by omega), hkey,
      @Under.iff_child i k]
    constructor
    . rintro (heq | ⟨hunder, hk⟩ | ⟨hunder, hk⟩)
      . exact ⟨.inl heq, by omega⟩
      . exact ⟨.inr (.inl hunder), hk⟩
      . exact ⟨.inr (.inr hunder), hk⟩
    . rintro ⟨heq | hunder | hunder, hk⟩
      . exact .inl heq
      . exact .inr (.inl ⟨hunder, hk⟩)
      . exact .inr (.inr ⟨hunder, hk⟩)

theorem nodup_keys (h : t.Built n value parent i) (hi : i ≤ 2 * n) : t.keys.Nodup := by
  induction t generalizing parent i with
  | leaf info => simp
  | inner info left right ihl ihr =>
    obtain ⟨hn, hstores, hl, hr⟩ := h
    have hkey : info.key = i := hstores.key
    rw [keys_inner, List.nodup_cons, List.nodup_append, hkey, List.mem_append,
      hl.mem_keys (by omega), hr.mem_keys (by omega)]
    refine ⟨?_, ihl hl (by omega), ihr hr (by omega), ?_⟩
    . rintro (⟨hunder, _⟩ | ⟨hunder, _⟩)
      . have := hunder.le
        omega
      . have := hunder.le
        omega
    . intro a ha b hb heq
      rw [hl.mem_keys (by omega)] at ha
      rw [hr.mem_keys (by omega), ← heq] at hb
      exact Under.disjoint ha.1 hb.1

theorem keys_perm (h : t.Built n value parent 0) : t.keys.Perm (List.range (2 * n + 1)) := by
  rw [List.perm_ext_iff_of_nodup (h.nodup_keys (by omega)) List.nodup_range]
  intro k
  rw [h.mem_keys (by omega), List.mem_range]
  constructor
  . intro hk
    omega
  . intro hk
    exact ⟨Under.zero k, by omega⟩

theorem length_subtrees (h : t.Built n value parent 0) : t.subtrees.length = 2 * n + 1 := by
  have := h.keys_perm.length_eq
  rw [keys, List.length_map, List.length_range] at this
  exact this

theorem values_eq (h : t.Built n value parent i)
    : t.subtrees.map (·.info.value) = t.keys.map value := by
  rw [keys, List.map_map]
  apply List.map_congr_left
  intro s hs
  have hstores := (h.of_mem hs).stores
  exact hstores.value

end MerkleTreeNode.Built
end Btide
