import Btide.Chk.QueryLemmas

/-!
This module contains the specification of `bpkg_get_all_chunk_hashes_from_hash` on perfect trees.
-/

open CLib HeapTree

namespace Btide

open MerkleTreeNode

namespace MerkleTreeNode

def atDepth : Nat → MerkleTreeNode → List MerkleTreeNode
  | 0, t => [t]
  | _ + 1, leaf _ => []
  | d + 1, inner _ left right => left.atDepth d ++ right.atDepth d

theorem atDepth_subset {d : Nat} {t s : MerkleTreeNode} (hs : s ∈ t.atDepth d)
    : s ∈ t.subtrees := by
  induction t generalizing d with
  | leaf info =>
    cases d with
    | zero => simpa [atDepth] using hs
    | succ d => simp [atDepth] at hs
  | inner info left right ihl ihr =>
    cases d with
    | zero =>
      simp only [atDepth, List.mem_singleton] at hs
      rw [hs]
      exact self_mem_subtrees _
    | succ d =>
      simp only [atDepth, List.mem_append] at hs
      simp only [subtrees_inner, List.mem_cons, List.mem_append]
      cases hs with
      | inl hs => exact .inr (.inl (ihl hs))
      | inr hs => exact .inr (.inr (ihr hs))

namespace Built

variable {n i : Nat} {value : Nat → Bytes} {parent : Option NodePtr} {t s : MerkleTreeNode}

theorem key_atDepth {d e : Nat} (h : t.Built n value parent i) (hlo : 2 ^ e ≤ i + 1)
    (hhi : i + 1 < 2 ^ (e + 1)) (hs : s ∈ t.atDepth d)
    : 2 ^ (e + d) ≤ s.info.key + 1 ∧ s.info.key + 1 < 2 ^ (e + d + 1) := by
  have hself {t : MerkleTreeNode} {i e : Nat} {parent : Option NodePtr}
      (h : t.Built n value parent i) (hlo : 2 ^ e ≤ i + 1) (hhi : i + 1 < 2 ^ (e + 1))
      (hs : s ∈ t.atDepth 0)
      : 2 ^ (e + 0) ≤ s.info.key + 1 ∧ s.info.key + 1 < 2 ^ (e + 0 + 1) := by
    simp only [atDepth, List.mem_singleton] at hs
    rw [hs, h.stores.key]
    exact ⟨hlo, hhi⟩
  induction t generalizing parent i d e with
  | leaf info =>
    cases d with
    | zero => exact hself h hlo hhi hs
    | succ d => simp [atDepth] at hs
  | inner info left right ihl ihr =>
    cases d with
    | zero => exact hself h hlo hhi hs
    | succ d =>
      obtain ⟨_, _, hl, hr⟩ := h
      have hassoc : e + (d + 1) = e + 1 + d := by omega
      have hdouble : 2 ^ (e + 1) = 2 * 2 ^ e := Nat.pow_succ'
      have hdouble' : 2 ^ (e + 1 + 1) = 2 * 2 ^ (e + 1) := Nat.pow_succ'
      rw [hassoc]
      simp only [atDepth, List.mem_append] at hs
      cases hs with
      | inl hs => exact ihl hl (by omega) (by omega) hs
      | inr hs => exact ihr hr (by omega) (by omega) hs

theorem leaf_keys {h d : Nat} (hd : d ≤ h) (hb : t.Built (2 ^ h - 1) value parent i)
    (hlo : 2 ^ d ≤ i + 1) (hhi : i + 1 < 2 ^ (d + 1))
    : t.leaves.map (·.key) = List.range' ((i + 1) * 2 ^ (h - d) - 1) (2 ^ (h - d)) := by
  have hpos := Nat.one_le_two_pow (n := h)
  induction t generalizing parent i d with
  | leaf info =>
    have hkey : info.key = i := hb.stores.key
    have hge := hb.1
    have heq : d = h := by
      apply Nat.le_antisymm hd
      have hlt : 2 ^ h < 2 ^ (d + 1) := by omega
      have := (Nat.pow_lt_pow_iff_right (by omega)).mp hlt
      omega
    simp [hkey, heq]
  | inner info left right ihl ihr =>
    obtain ⟨hlt, _, hl, hr⟩ := hb
    have hdlt : d < h := by
      have hlt : 2 ^ d < 2 ^ h := by omega
      exact (Nat.pow_lt_pow_iff_right (by omega)).mp hlt
    have hdouble : 2 ^ (d + 1) = 2 * 2 ^ d := Nat.pow_succ'
    have hdouble' : 2 ^ (d + 1 + 1) = 2 * 2 ^ (d + 1) := Nat.pow_succ'
    have hhalf : 2 ^ (h - d) = 2 * 2 ^ (h - (d + 1)) := by
      rw [← Nat.pow_succ']
      congr 1
      omega
    rw [leaves_inner, List.map_append, ihl hdlt hl (by omega) (by omega),
      ihr hdlt hr (by omega) (by omega), hhalf]
    have hm : 0 < 2 ^ (h - (d + 1)) := Nat.two_pow_pos _
    generalize 2 ^ (h - (d + 1)) = m at hm
    have hstart : (i + 1) * (2 * m) - 1 = (2 * i + 1 + 1) * m - 1 := by
      congr 1
      ring
    have hnext : (2 * i + 2 + 1) * m - 1 = (2 * i + 1 + 1) * m - 1 + m := by
      have hsucc : (2 * i + 2 + 1) * m = (2 * i + 1 + 1) * m + m := Nat.succ_mul _ _
      have hpos : 0 < (2 * i + 1 + 1) * m := Nat.mul_pos (by omega) hm
      omega
    rw [hstart, hnext, List.range'_append_1]
    congr 1
    omega

end Built
end MerkleTreeNode

theorem map_valueOf_range' {hashes chunkHashes : List Bytes} {a len : Nat}
    (h : a + len ≤ chunkHashes.length)
    : (List.range' (hashes.length + a) len).map (valueOf hashes chunkHashes)
        =
      (chunkHashes.drop a).take len := by
  apply List.ext_getElem?
  intro j
  rw [List.getElem?_map, List.getElem?_take]
  split
  . next hj =>
    have hget : chunkHashes[hashes.length + a + j - hashes.length]?
        = some (valueOf hashes chunkHashes (hashes.length + a + j)) :=
      valueOf_ge (by omega) (by omega)
    have hsub : hashes.length + a + j - hashes.length = a + j := by omega
    rw [hsub] at hget
    rw [List.getElem?_drop, hget, List.getElem?_range' hj]
    simp
  . next hj =>
    rw [List.getElem?_eq_none]
    . rfl
    . rw [List.length_range']
      omega

theorem bpkgGetAllChunkHashesFromHash_eq {bpkg : BpkgObj} {tree : MerkleTree} {hash : Bytes}
    (htree : bpkg.tree = some tree)
    (hroom : ∀ node ∈ inorderFindNode hash tree.root, node.leaves.length ≤ bpkg.intNchunks.toNat)
    : bpkgGetAllChunkHashesFromHash bpkg hash
        =
      .ok ((inorderFindNode hash tree.root).map fun node => {
        hashes := HashBuf.append (.alloc bpkg.intNchunks.toNat) (node.leaves.map (·.value))
        len := node.leaves.length
      }) := by
  unfold bpkgGetAllChunkHashesFromHash
  rw [htree]
  simp only [deref_some, bind, Except.bind]
  cases hfind : inorderFindNode hash tree.root with
  | none => rfl
  | some node =>
    dsimp only
    rw [inorderSearch_getChunksFromHashFunc (by simpa using hroom node hfind)]
    simp [pure, Except.pure]

theorem bpkgGetAllChunkHashesFromHash_node {bpkg : BpkgObj} {tree : MerkleTree}
    {node : MerkleTreeNode} (htree : bpkg.tree = some tree)
    (hnodup : (tree.root.subtrees.map (·.info.value)).Nodup) (hnode : node ∈ tree.root.subtrees)
    (hroom : node.leaves.length ≤ bpkg.intNchunks.toNat)
    : bpkgGetAllChunkHashesFromHash bpkg node.info.value
        =
      .ok (some {
        hashes := HashBuf.append (.alloc bpkg.intNchunks.toNat) (node.leaves.map (·.value))
        len := node.leaves.length
      }) := by
  have hfind := inorderFindNode_eq_some hnodup hnode
  rw [bpkgGetAllChunkHashesFromHash_eq htree, hfind]
  . rfl
  . intro found hfound
    rw [hfind, Option.mem_some_iff] at hfound
    rw [← hfound]
    exact hroom

theorem mem_of_inorderFindNode {hash : Bytes} {t node : MerkleTreeNode}
    (h : inorderFindNode hash t = some node) : node ∈ t.subtrees := by
  rw [inorderFindNode_eq] at h
  rw [← t.inorder_perm.mem_iff]
  exact List.mem_of_find?_eq_some h

theorem bpkgGetAllChunkHashesFromHash_eq_none {bpkg : BpkgObj} {tree : MerkleTree} {hash : Bytes}
    (htree : bpkg.tree = some tree)
    (hroom : ∀ node ∈ tree.root.subtrees, node.leaves.length ≤ bpkg.intNchunks.toNat)
    : bpkgGetAllChunkHashesFromHash bpkg hash = .ok none
        ↔
      hash ∉ tree.root.subtrees.map (·.info.value) := by
  rw [← inorderFindNode_eq_none, bpkgGetAllChunkHashesFromHash_eq htree]
  . simp
  . intro node hnode
    exact hroom node (mem_of_inorderFindNode hnode)

theorem intNchunks_eq {bpkg : BpkgObj} (h : bpkg.nchunks.toNat ≤ INT_MAX)
    : bpkg.intNchunks = bpkg.nchunks.toNat :=
  toInt_of_le h

section Perfect

variable {h : Nat} {hashes : List Bytes} {chunks : List Chunk} {root : MerkleTreeNode}

theorem depth_le_of_mem_atDepth {d : Nat} {node : MerkleTreeNode}
    (hn : hashes.length + 1 = 2 ^ h) {value : Nat → Bytes}
    (hbuilt : root.Built hashes.length value none 0) (hnode : node ∈ root.atDepth d)
    : d ≤ h := by
  have hkey : node.info.key ∈ root.keys := List.mem_map_of_mem (atDepth_subset hnode)
  rw [hbuilt.mem_keys (by omega)] at hkey
  have hlo := (hbuilt.key_atDepth (e := 0) (by omega) (by omega) hnode).1
  have hdouble : 2 ^ (h + 1) = 2 * 2 ^ h := Nat.pow_succ'
  rw [Nat.zero_add] at hlo
  have hlt : 2 ^ d < 2 ^ (h + 1) := by omega
  have := (Nat.pow_lt_pow_iff_right (by omega)).mp hlt
  omega

theorem leaf_keys_atDepth {d : Nat} {node : MerkleTreeNode} {value : Nat → Bytes}
    (hn : hashes.length + 1 = 2 ^ h) (hbuilt : root.Built hashes.length value none 0)
    (hnode : node ∈ root.atDepth d)
    : node.leaves.map (·.key)
        =
      List.range' ((node.info.key + 1) * 2 ^ (h - d) - 1) (2 ^ (h - d)) := by
  have hd := depth_le_of_mem_atDepth hn hbuilt hnode
  have hkey := hbuilt.key_atDepth (e := 0) (by omega) (by omega) hnode
  have hb := hbuilt.of_mem (atDepth_subset hnode)
  have hn' : hashes.length = 2 ^ h - 1 := by omega
  rw [Nat.zero_add] at hkey
  rw [hn'] at hb
  exact hb.leaf_keys hd hkey.1 hkey.2

theorem leaf_values_atDepth {d : Nat} {node : MerkleTreeNode} (hchunks : chunks.length = 2 ^ h)
    (hn : hashes.length + 1 = 2 ^ h)
    (hbuilt : root.Built hashes.length (valueOf hashes (chunks.map Chunk.hash)) none 0)
    (hnode : node ∈ root.atDepth d)
    : node.leaves.map (·.value)
        =
      ((chunks.map Chunk.hash).drop ((node.info.key + 1 - 2 ^ d) * 2 ^ (h - d))).take
        (2 ^ (h - d)) := by
  have hd := depth_le_of_mem_atDepth hn hbuilt hnode
  have hb := hbuilt.of_mem (atDepth_subset hnode)
  have hkey := hbuilt.key_atDepth (e := 0) (by omega) (by omega) hnode
  rw [Nat.zero_add] at hkey
  have hvalues : node.leaves.map (·.value)
      = (node.leaves.map (·.key)).map (valueOf hashes (chunks.map Chunk.hash)) := by
    rw [List.map_map]
    apply List.map_congr_left
    intro info hinfo
    exact (hb.of_mem (mem_leaves.mp hinfo)).stores.value
  have hpow : 2 ^ h = 2 ^ d * 2 ^ (h - d) := by
    rw [← Nat.pow_add]
    congr 1
    omega
  have hsplit : (node.info.key + 1) * 2 ^ (h - d)
      = (node.info.key + 1 - 2 ^ d) * 2 ^ (h - d) + 2 ^ h := by
    rw [hpow, ← Nat.add_mul]
    congr 1
    omega
  have hstart : (node.info.key + 1) * 2 ^ (h - d) - 1
      = hashes.length + (node.info.key + 1 - 2 ^ d) * 2 ^ (h - d) := by omega
  rw [hvalues, leaf_keys_atDepth hn hbuilt hnode, hstart, map_valueOf_range']
  rw [List.length_map, hchunks, hpow, ← Nat.succ_mul]
  apply Nat.mul_le_mul_right
  have hdouble : 2 ^ (d + 1) = 2 * 2 ^ d := Nat.pow_succ'
  omega

theorem nodup_values (hlen : chunks.length = hashes.length + 1)
    (hbuilt : root.Built hashes.length (valueOf hashes (chunks.map Chunk.hash)) none 0)
    (hnodup : (hashes ++ chunks.map Chunk.hash).Nodup)
    : (root.subtrees.map (·.info.value)).Nodup := by
  have hperm := inorder_values_perm hlen hbuilt
  rw [← hperm.nodup_iff] at hnodup
  exact (List.Perm.map _ root.inorder_perm).nodup_iff.mp hnodup

theorem exists_atDepth {node t : MerkleTreeNode} (hnode : node ∈ t.subtrees)
    : ∃ d, node ∈ t.atDepth d := by
  induction t with
  | leaf info => exact ⟨0, hnode⟩
  | inner info left right ihl ihr =>
    simp only [subtrees_inner, List.mem_cons, List.mem_append] at hnode
    rcases hnode with heq | hnode | hnode
    . exact ⟨0, by simp [atDepth, heq]⟩
    . obtain ⟨d, hd⟩ := ihl hnode
      exact ⟨d + 1, by simp [atDepth, hd]⟩
    . obtain ⟨d, hd⟩ := ihr hnode
      exact ⟨d + 1, by simp [atDepth, hd]⟩

theorem bpkgGetAllChunkHashesFromHash_perfect {tree : MerkleTree} {chunks' : PtrArray Chunk}
    {bpkg : BpkgObj} (hchunks : chunks.length = 2 ^ h)
    (hlen : chunks.length = hashes.length + 1)
    (hload : createTree (.ofList hashes) hashes.length (.ofList chunks) chunks.length
      = .ok (tree, chunks'))
    (htree : bpkg.tree = some tree) (hnchunks : bpkg.nchunks.toNat = chunks.length)
    (hnodup : (hashes ++ chunks.map Chunk.hash).Nodup)
    : (∀ s,
        bpkgGetAllChunkHashesFromHash bpkg s = .ok none
          ↔
        ∀ node ∈ tree.root.subtrees, node.info.value ≠ s)
        ∧ (∀ node ∈ tree.root.subtrees, ∃ d, node ∈ tree.root.atDepth d)
        ∧ (∀ d, ∀ node ∈ tree.root.atDepth d,
            ∃ qry,
              bpkgGetAllChunkHashesFromHash bpkg node.info.value = .ok (some qry)
                ∧ qry.len = 2 ^ (h - d)
                ∧ qry.hashes.hashes
                    =
                  ((chunks.map Chunk.hash).drop ((node.info.key + 1 - 2 ^ d) * 2 ^ (h - d))).take
                    (2 ^ (h - d)))
        ∧ (∃ qry,
            bpkgGetAllChunkHashesFromHash bpkg tree.root.info.value = .ok (some qry)
              ∧ qry.hashes.hashes = chunks.map Chunk.hash)
        ∧ ∀ info left right,
            tree.root = .inner info left right
              →
            (∃ qry,
              bpkgGetAllChunkHashesFromHash bpkg left.info.value = .ok (some qry)
                ∧ qry.hashes.hashes = (chunks.map Chunk.hash).take (2 ^ (h - 1)))
              ∧ ∃ qry,
                  bpkgGetAllChunkHashesFromHash bpkg right.info.value = .ok (some qry)
                    ∧ qry.hashes.hashes = (chunks.map Chunk.hash).drop (2 ^ (h - 1)) := by
  have hn := length_lt_of_createTree hlen hload
  obtain ⟨root, hspec, hbuilt, _, _⟩ := createTree_spec hn hlen
  rw [hload, Except.ok.injEq, Prod.mk.injEq] at hspec
  rw [hspec.1] at htree
  rw [hspec.1]
  dsimp only
  have hsize : hashes.length + 1 = 2 ^ h := by omega
  have hleaves : root.leaves.length = chunks.length := by
    have hcount := root.length_subtrees_leaves
    rw [hbuilt.length_subtrees] at hcount
    omega
  have hcap : bpkg.intNchunks.toNat = chunks.length := by
    rw [intNchunks_eq, Int.toNat_natCast, hnchunks]
    unfold INT_MAX
    omega
  have hroom : ∀ node ∈ root.subtrees, node.leaves.length ≤ bpkg.intNchunks.toNat := by
    intro node hnode
    rw [hcap, ← hleaves]
    exact length_leaves_le hnode
  have hnodup := nodup_values hlen hbuilt hnodup
  have hat {d : Nat} {node : MerkleTreeNode} (hnode : node ∈ root.atDepth d)
      : ∃ qry,
          bpkgGetAllChunkHashesFromHash bpkg node.info.value = .ok (some qry)
            ∧ qry.len = 2 ^ (h - d)
            ∧ qry.hashes.hashes
                =
              ((chunks.map Chunk.hash).drop ((node.info.key + 1 - 2 ^ d) * 2 ^ (h - d))).take
                (2 ^ (h - d)) := by
    have hmem := atDepth_subset hnode
    have hquery := bpkgGetAllChunkHashesFromHash_node htree hnodup hmem (hroom node hmem)
    refine ⟨_, hquery, ?_, ?_⟩
    . have hkeys := congrArg List.length (leaf_keys_atDepth hsize hbuilt hnode)
      simpa using hkeys
    . simpa using leaf_values_atDepth hchunks hsize hbuilt hnode
  have hlength : (chunks.map Chunk.hash).length = 2 ^ h := by rw [List.length_map, hchunks]
  refine ⟨?_, fun node hnode => exists_atDepth hnode, fun d node hnode => hat hnode, ?_, ?_⟩
  . intro s
    rw [bpkgGetAllChunkHashesFromHash_eq_none htree hroom]
    simp
  . obtain ⟨qry, hqry, _, hhashes⟩ := hat (d := 0) (List.mem_singleton_self root)
    have hzero : (root.info.key + 1 - 2 ^ 0) * 2 ^ (h - 0) = 0 := by simp [hbuilt.stores.key]
    rw [hzero, List.drop_zero, Nat.sub_zero, ← hlength, List.take_length] at hhashes
    exact ⟨qry, hqry, hhashes⟩
  . intro info left right hroot
    have hatLeft : left ∈ root.atDepth 1 := by simp [hroot, atDepth]
    have hatRight : right ∈ root.atDepth 1 := by simp [hroot, atDepth]
    rw [hroot] at hbuilt
    obtain ⟨hpos, _, hl, hr⟩ := hbuilt
    have hhalf : 2 ^ h = 2 ^ (h - 1) + 2 ^ (h - 1) := by
      cases h with
      | zero => omega
      | succ h =>
        rw [Nat.pow_succ', Nat.add_sub_cancel]
        omega
    constructor
    . obtain ⟨qry, hqry, _, hhashes⟩ := hat hatLeft
      refine ⟨qry, hqry, ?_⟩
      rw [hhashes, hl.stores.key]
      simp
    . obtain ⟨qry, hqry, _, hhashes⟩ := hat hatRight
      refine ⟨qry, hqry, ?_⟩
      have hstart : (right.info.key + 1 - 2 ^ 1) * 2 ^ (h - 1) = 2 ^ (h - 1) := by
        simp [hr.stores.key]
      rw [hhashes, hstart, List.take_of_length_le]
      rw [List.length_drop, hlength]
      omega

theorem bpkgGetAllChunkHashesFromHash_perfect_two
    : ∃ tree chunks' qry,
        createTree (.ofList [[1]]) 1 (.ofList [⟨[2], 0, 1, none⟩, ⟨[3], 1, 1, none⟩]) 2
            =
          .ok (tree, chunks')
          ∧ bpkgGetAllChunkHashesFromHash ⟨none, none, 2, 1, none, 2, none, some tree⟩
                tree.root.info.value
              =
            .ok (some qry)
          ∧ qry.hashes.hashes = [[2], [3]] := by
  have hlen : [(⟨[2], 0, 1, none⟩ : Chunk), ⟨[3], 1, 1, none⟩].length = [([1] : Bytes)].length + 1 :=
    rfl
  obtain ⟨root, hload, _⟩ := createTree_spec (by decide) hlen
  obtain ⟨_, _, _, ⟨qry, hqry, hhashes⟩, _⟩ :=
    bpkgGetAllChunkHashesFromHash_perfect (h := 1) rfl hlen hload
      (@rfl _ (BpkgObj.tree ⟨none, none, 2, 1, none, 2, none, some _⟩)) rfl (by decide)
  exact ⟨_, _, qry, hload, hqry, hhashes⟩

end Perfect

end Btide
