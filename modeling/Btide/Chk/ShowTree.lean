import Btide.Chk.HashesOf

/-!
This module contains `show_tree` of `src/tree/merkletree.c` and the nodes that it prints.
-/

open CLib HeapTree

namespace Btide

def nodeLine (key : Nat) (value : Bytes) (isLeaf : Bool) : Bytes :=
  decimal key ++ ascii ": " ++ value ++ ascii ". is chunk: " ++ decimal isLeaf.toNat ++ ascii "\n"

def printCurrentLevel : MerkleTreeNode → Nat → List Bytes
  | _, 0 => []
  | root, 1 => [nodeLine root.info.key root.info.value root.isLeaf]
  -- both children are null pointers
  | .leaf _, _ + 2 => []
  | .inner _ left right, lvl + 2 => printCurrentLevel left (lvl + 1) ++ printCurrentLevel right (lvl + 1)

/--
The height is a logarithm in `double`, from which the conversion to `int` takes the integer part.
-/
def showTree (tree : MerkleTree) : List Bytes :=
  (List.range (Nat.log2 (tree.nNodes.toNat + 1))).flatMap fun i => printCurrentLevel tree.root (i + 1)

open MerkleTreeNode

theorem printCurrentLevel_eq (t : MerkleTreeNode) (d : Nat)
    : printCurrentLevel t (d + 1)
        =
      (t.atDepth d).map fun node => nodeLine node.info.key node.info.value node.isLeaf := by
  induction t generalizing d with
  | leaf info =>
    cases d with
    | zero => rfl
    | succ d => rfl
  | inner info left right ihl ihr =>
    cases d with
    | zero => rfl
    | succ d => rw [printCurrentLevel, ihl, ihr, atDepth, List.map_append]

namespace MerkleTreeNode.Built

variable {n i : Nat} {value : Nat → Bytes} {parent : Option NodePtr} {t : MerkleTreeNode}

theorem keys_atDepth (h : t.Built n value parent i) (hi : i < 2 * n + 1) (d : Nat)
    : (t.atDepth d).map (·.info.key) = level (2 * n + 1) i d := by
  induction t generalizing parent i d with
  | leaf info =>
    cases d with
    | zero => rw [level_zero hi, atDepth, List.map_singleton, h.stores.key]
    | succ d =>
      have hge : 2 * n + 1 ≤ 2 * i + 1 := Nat.succ_le_succ (Nat.mul_le_mul_left 2 h.1)
      rw [level_of_le hge]
      rfl
  | inner info left right ihl ihr =>
    cases d with
    | zero => rw [level_zero hi, atDepth, List.map_singleton, h.stores.key]
    | succ d =>
      obtain ⟨hlt, _, hl, hr⟩ := h
      rw [level_succ, atDepth, List.map_append, ihl hl (by omega), ihr hr (by omega)]

theorem lines_atDepth (h : t.Built n value parent i) (hi : i < 2 * n + 1) (d : Nat)
    : printCurrentLevel t (d + 1)
        =
      (level (2 * n + 1) i d).map fun k => nodeLine k (value k) (decide (n ≤ k)) := by
  rw [printCurrentLevel_eq, ← h.keys_atDepth hi, List.map_map]
  apply List.map_congr_left
  intro node hnode
  have hbuilt := h.of_mem (atDepth_subset hnode)
  have hleaf : node.isLeaf = decide (n ≤ node.info.key) := by
    rw [Bool.eq_iff_iff, hbuilt.isLeaf_iff, decide_eq_true_eq]
  rw [Function.comp_apply, hbuilt.stores.value, hleaf]

end MerkleTreeNode.Built

theorem showTree_eq {n : Nat} {value : Nat → Bytes} {tree : MerkleTree}
    (h : tree.root.Built n value none 0) (hnodes : tree.nNodes = 2 * n + 1)
    : showTree tree
        =
      (List.range (2 ^ Nat.log2 (2 * n + 2) - 1)).map fun k => nodeLine k (value k) (decide (n ≤ k)) := by
  have hcount : tree.nNodes.toNat + 1 = 2 * n + 2 := by omega
  have hle : 2 ^ Nat.log2 (2 * n + 2) ≤ 2 * n + 2 := Nat.log2_self_le (by omega)
  have hmin : min (2 ^ Nat.log2 (2 * n + 2) - 1) (2 * n + 1) = 2 ^ Nat.log2 (2 * n + 2) - 1 := by omega
  unfold showTree
  rw [hcount, ← hmin, ← flatMap_level, List.map_flatMap]
  apply List.flatMap_congr
  intro d _
  exact h.lines_atDepth (by omega) d

theorem two_pow_log2_eq_iff {m : Nat} (hm : 0 < m) : 2 ^ Nat.log2 (2 * m) = 2 * m ↔ ∃ h, m = 2 ^ h := by
  constructor
  . intro heq
    cases hlog : Nat.log2 (2 * m) with
    | zero =>
      rw [hlog] at heq
      omega
    | succ h =>
      rw [hlog, Nat.pow_succ'] at heq
      exact ⟨h, by omega⟩
  . rintro ⟨h, rfl⟩
    rw [← Nat.pow_succ', Nat.log2_two_pow]

theorem showTree_complete_iff {hashes : List Bytes} {chunks : List Chunk} {tree : MerkleTree}
    {chunks' : PtrArray Chunk} (hlen : chunks.length = hashes.length + 1)
    (hload : createTree (.ofList hashes) hashes.length (.ofList chunks) chunks.length
      = .ok (tree, chunks'))
    : showTree tree
        =
      (List.range (2 ^ Nat.log2 (2 * chunks.length) - 1)).map
        (fun k => nodeLine k (valueOf hashes (chunks.map Chunk.hash) k) (decide (hashes.length ≤ k)))
        ∧ ((showTree tree).length = tree.root.subtrees.length ↔ ∃ h, chunks.length = 2 ^ h) := by
  have hbound := length_lt_of_createTree hlen hload
  obtain ⟨root, hspec, hbuilt, _⟩ := createTree_spec hbound hlen
  rw [hload, Except.ok.injEq, Prod.mk.injEq] at hspec
  rw [hspec.1]
  have hshow := @showTree_eq _ _ ⟨root, 2 * hashes.length + 1⟩ hbuilt rfl
  have hdouble : 2 * hashes.length + 2 = 2 * chunks.length := by omega
  rw [hdouble] at hshow
  refine ⟨hshow, ?_⟩
  have hpos : 0 < 2 ^ Nat.log2 (2 * chunks.length) := Nat.two_pow_pos _
  have hcount : 2 ^ Nat.log2 (2 * chunks.length) - 1 = 2 * hashes.length + 1
      ↔ 2 ^ Nat.log2 (2 * chunks.length) = 2 * chunks.length := by omega
  rw [hshow, List.length_map, List.length_range, hbuilt.length_subtrees, hcount,
    two_pow_log2_eq_iff (by omega)]

theorem showTree_complete_iff_three
    : ∃ tree chunks',
        createTree (.ofList [[1], [2]]) 2
            (.ofList [⟨[3], 0, 1, none⟩, ⟨[4], 1, 1, none⟩, ⟨[5], 2, 1, none⟩]) 3
            =
          .ok (tree, chunks')
          ∧ (showTree tree).length ≠ tree.root.subtrees.length := by
  have hlen : [(⟨[3], 0, 1, none⟩ : Chunk), ⟨[4], 1, 1, none⟩, ⟨[5], 2, 1, none⟩].length
      = [([1] : Bytes), [2]].length + 1 := rfl
  obtain ⟨root, hload, _⟩ := createTree_spec (by decide) hlen
  refine ⟨_, _, hload, ?_⟩
  rw [ne_eq, (showTree_complete_iff hlen hload).2]
  rintro ⟨h, hpow⟩
  -- three is between the powers with exponents one and two
  have hlt : 2 ^ 1 < 2 ^ h := by
    rw [← hpow]
    exact Nat.lt_succ_self 2
  have hgt : 2 ^ h < 2 ^ 2 := by
    rw [← hpow]
    exact Nat.lt_succ_self 3
  have hone := (Nat.pow_lt_pow_iff_right (by decide)).mp hlt
  have htwo := (Nat.pow_lt_pow_iff_right (by decide)).mp hgt
  omega

end Btide
