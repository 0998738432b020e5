import Btide.Chk.ManagedPackage
import Btide.Net.OffsetLookup
import Btide.Tree.MinHashFind

/-!
This module contains when the tree of a package and its array of chunks give the same answer about a
hash.
-/

open Bytes CLib

namespace Btide

open MerkleTreeNode

def MerkleTreeNode.firstLikeRoot (t : MerkleTreeNode) : Option MerkleTreeNode :=
  t.inorder.find? (·.info.value = t.info.value)

theorem MerkleTreeNode.exists_firstLikeRoot (t : MerkleTreeNode)
    : ∃ node, t.firstLikeRoot = some node ∧ node ∈ t.subtrees := by
  cases hfind : t.firstLikeRoot with
  | some node =>
    refine ⟨node, rfl, ?_⟩
    rw [← t.inorder_perm.mem_iff]
    exact List.mem_of_find?_eq_some hfind
  | none =>
    rw [firstLikeRoot, List.find?_eq_none] at hfind
    have hself : t ∈ t.inorder := t.inorder_perm.mem_iff.mpr t.self_mem_subtrees
    exact absurd (decide_eq_true rfl) (hfind t hself)

def BpkgObj.Declares (bpkg : BpkgObj) (hash : Bytes) : Prop :=
  ∃ chunk, bpkg.HasChunk chunk ∧ chunk.hash = hash

def BpkgObj.Reaches (bpkg : BpkgObj) (hash : Bytes) : Prop :=
  ∀ (tree : MerkleTree) (node : MerkleTreeNode),
    bpkg.Declares hash
      → bpkg.tree = some tree
      → tree.root.firstLikeRoot = some node
      → ∃ info ∈ node.leaves, info.value = hash

structure Agrees (packages : ManagedPackages) (ident : Bytes) (slot : Nat) (bpkg : BpkgObj) (hash : Bytes)
    : Prop where
  total : chunkInMemory packages ident hash = .ok (.found slot)
    ∨ chunkInMemory packages ident hash = .ok .noHash
  declares_iff : chunkInMemory packages ident hash = .ok (.found slot) ↔ bpkg.Declares hash
  dataLen_iff : chunkInMemory packages ident hash = .ok (.found slot)
    ↔ ∃ req, calculateDataLen bpkg hash none = .ok (some req)

section Shape

variable {hashes : List Bytes} {chunks₀ chunks : List Chunk} {rest : List (Option Chunk)}
  {tree : MerkleTree} {bpkg : BpkgObj}

namespace PackageShape

theorem declares_of_mem (h : PackageShape hashes chunks₀ chunks rest tree bpkg) {hash : Bytes}
    (hmem : hash ∈ chunks.map Chunk.hash) : bpkg.Declares hash := by
  have hnchunks := h.nchunks_eq
  obtain ⟨chunk, hchunk, hhash⟩ := List.mem_map.mp hmem
  obtain ⟨j, hj⟩ := List.getElem?_of_mem hchunk
  have hlt := (List.getElem?_eq_some_iff.mp hj).1
  refine ⟨chunk, ⟨chunks.map some ++ rest, j, h.chunks_eq, by omega, ?_⟩, hhash⟩
  rw [List.getElem?_append_left (by rw [List.length_map]; exact hlt)]
  exact getElem?_map_some hj

theorem declares_iff (h : PackageShape hashes chunks₀ chunks rest tree bpkg)
    (hcount : bpkg.nchunks.toNat = bpkg.nhashes.toNat + 1) (hash : Bytes)
    : bpkg.Declares hash ↔ hash ∈ chunks.map Chunk.hash := by
  obtain ⟨hchunks, hnchunks⟩ := h.chunks_eq_ofList hcount
  rw [List.mem_map]
  constructor
  . rintro ⟨chunk, ⟨entries, j, hentries, _, hget⟩, hhash⟩
    rw [hchunks, PtrArray.ofList, Option.some.injEq] at hentries
    rw [← hentries, List.getElem?_map, Option.map_eq_some_iff] at hget
    obtain ⟨other, hother, heq⟩ := hget
    rw [Option.some.injEq] at heq
    rw [heq] at hother
    exact ⟨chunk, List.mem_of_getElem? hother, hhash⟩
  . intro hmem
    apply h.declares_of_mem
    rw [List.mem_map]
    exact hmem

theorem dataLen_iff (h : PackageShape hashes chunks₀ chunks rest tree bpkg)
    (hcount : bpkg.nchunks.toNat = bpkg.nhashes.toNat + 1) (hash : Bytes)
    : (∃ req, calculateDataLen bpkg hash none = .ok (some req)) ↔ bpkg.Declares hash := by
  obtain ⟨hchunks, hnchunks⟩ := h.chunks_eq_ofList hcount
  rw [h.declares_iff hcount, calculateDataLen_of_list hchunks hnchunks, List.mem_map]
  simp only [Except.ok.injEq, Option.map_eq_some_iff, Chunk.spans, Bool.and_true]
  constructor
  . rintro ⟨_, chunk, hfind, _⟩
    have hsat := List.find?_some hfind
    rw [decide_eq_true_eq] at hsat
    exact ⟨chunk, List.mem_of_find?_eq_some hfind, hsat⟩
  . rintro ⟨chunk, hchunk, hhash⟩
    cases hfind : chunks.find? fun chunk => chunk.hash = hash with
    | some other => exact ⟨_, other, rfl, rfl⟩
    | none =>
      rw [List.find?_eq_none] at hfind
      exact absurd (decide_eq_true hhash) (hfind chunk hchunk)

theorem chunkInMemory_eq (h : PackageShape hashes chunks₀ chunks rest tree bpkg)
    {packages : ManagedPackages} {ident : Bytes} {slot : Nat} (hmanages : Manages packages ident slot bpkg)
    {node : MerkleTreeNode} (hnode : tree.root.firstLikeRoot = some node) (hash : Bytes)
    : chunkInMemory packages ident hash
        =
      .ok (if hash ∈ node.leaves.map (·.value) then .found slot else .noHash) := by
  have hfind : inorderFindNode tree.root.info.value tree.root = some node := by
    rw [inorderFindNode_eq]
    exact hnode
  have hqry := @bpkgGetAllChunkHashesFromHash_eq _ _ tree.root.info.value h.tree_eq fun found hfound =>
    h.leaves_le (mem_of_inorderFindNode hfound)
  rw [hfind] at hqry
  rw [hmanages.chunkInMemory_of_query h.tree_eq hqry]
  simp only [HashBuf.append, HashBuf.alloc, List.nil_append, List.contains_iff_mem]

end PackageShape

end Shape

theorem chunkInMemory_agrees_iff {packages : ManagedPackages} {ident : Bytes} {slot : Nat} {bpkg : BpkgObj}
    (hmanages : Manages packages ident slot bpkg) (hbpkg : bpkg.Managed)
    (hcount : bpkg.nchunks.toNat = bpkg.nhashes.toNat + 1) (hash : Bytes)
    : Agrees packages ident slot bpkg hash ↔ bpkg.Reaches hash := by
  obtain ⟨hashes, chunks₀, chunks, rest, tree, hshape⟩ := hbpkg.shape
  obtain ⟨node, hnode, hmem⟩ := tree.root.exists_firstLikeRoot
  have hlookup := hshape.chunkInMemory_eq hmanages hnode hash
  have hfound : chunkInMemory packages ident hash = .ok (.found slot)
      ↔ ∃ info ∈ node.leaves, info.value = hash := by
    rw [hlookup, ← List.mem_map]
    split
    . next hin => simp [hin]
    . next hin => simp [hin]
  -- a leaf of the subtree is a leaf of the tree
  have hdeclared (hin : ∃ info ∈ node.leaves, info.value = hash) : bpkg.Declares hash := by
    obtain ⟨info, hinfo, hvalue⟩ := hin
    rw [hshape.declares_iff hcount, ← hshape.mem_leaf_values, List.mem_map]
    exact ⟨info, leaves_subset hmem hinfo, hvalue⟩
  constructor
  . intro hagrees tree' node' hdeclares htree hnode'
    rw [hshape.tree_eq, Option.some.injEq] at htree
    rw [← htree, hnode, Option.some.injEq] at hnode'
    rw [← hnode', ← hfound]
    exact hagrees.declares_iff.mpr hdeclares
  . intro hreaches
    have hiff : chunkInMemory packages ident hash = .ok (.found slot) ↔ bpkg.Declares hash := by
      rw [hfound]
      constructor
      . exact hdeclared
      . intro hdeclares
        exact hreaches tree node hdeclares hshape.tree_eq hnode
    refine ⟨?_, hiff, ?_⟩
    . rw [hlookup]
      split
      . exact .inl rfl
      . exact .inr rfl
    . rw [hiff, hshape.dataLen_iff hcount]

theorem twoBytesObj_managed {root left right : String}
    (h : bpkgLoad ⟨none, none, 7, 7, none, 7, none, none⟩ (some (twoBytes root left right)) none
      = .ok (some (twoBytesObj root left right)))
    : (twoBytesObj root left right).Managed :=
  .load (show ∀ c ∈ (none : Option Bytes).getD [], c ≠ 0 by simp) h

theorem manages_twoBytes (root left right : String)
    : Manages [some (twoBytesObj root left right)] (ascii "a") 0 (twoBytesObj root left right) where
  slot_eq := rfl
  ident_eq := ⟨ascii "a", rfl, rfl⟩
  first := by
    intro i hi
    omega

theorem chunkInMemory_agrees_two
    : Agrees [some (twoBytesObj "r" "l" "c")] (ascii "a") 0 (twoBytesObj "r" "l" "c") (ascii "c") := by
  have hload : bpkgLoad ⟨none, none, 7, 7, none, 7, none, none⟩ (some (twoBytes "r" "l" "c")) none
      = .ok (some (twoBytesObj "r" "l" "c")) := by
    decide +kernel
  rw [chunkInMemory_agrees_iff (manages_twoBytes "r" "l" "c") (twoBytesObj_managed hload) rfl]
  intro tree node _ htree hnode
  simp only [twoBytesObj, Option.some.injEq] at htree
  rw [← htree] at hnode
  simp only [firstLikeRoot, inorder_inner, inorder_leaf] at hnode
  rw [← Option.some.inj hnode]
  decide

/--
The first chunk has the string of the root, so the second one is not found.
-/
theorem chunkInMemory_agrees_fails
    : bpkgLoad ⟨none, none, 7, 7, none, 7, none, none⟩ (some (twoBytes "l" "l" "c")) none
        =
      .ok (some (twoBytesObj "l" "l" "c"))
        ∧ Manages [some (twoBytesObj "l" "l" "c")] (ascii "a") 0 (twoBytesObj "l" "l" "c")
        ∧ (twoBytesObj "l" "l" "c").Declares (ascii "c")
        ∧ calculateDataLen (twoBytesObj "l" "l" "c") (ascii "c") none
            =
          .ok (some { dataLen := 1, ident := [], chunkHash := [], fileOffset := 1 })
        ∧ chunkInMemory [some (twoBytesObj "l" "l" "c")] (ascii "a") (ascii "c") = .ok .noHash := by
  refine ⟨by decide +kernel, manages_twoBytes "l" "l" "c", ?_, by decide +kernel, by decide +kernel⟩
  exact ⟨⟨ascii "c", 1, 1, some 2⟩, ⟨_, 1, rfl, by decide, rfl⟩, rfl⟩

end Btide
