import Btide.Chk.PkgChk
import Btide.Tree.Traversal

/-!
This module contains the specifications of the queries that read the tree of a package.
-/

open CLib HeapTree

namespace Btide

open MerkleTreeNode

theorem allHashFunc_eq_visit : allHashFunc = visit fun _ => true := rfl

theorem getCompletedChunks_eq_visit
    : getCompletedChunks = visit fun node => node.isLeaf && node.info.value == node.info.computedHash :=
  rfl

theorem getChunksFromHashFunc_eq_visit : getChunksFromHashFunc = visit fun node => node.isLeaf := rfl

theorem inorderSearch_allHashFunc {t : MerkleTreeNode} {buf : HashBuf}
    (h : buf.hashes.length + t.subtrees.length ≤ buf.cap)
    : inorderSearch allHashFunc t buf = .ok (buf.append (t.inorder.map (·.info.value))) := by
  rw [allHashFunc_eq_visit, inorderSearch_visit]
  . simp
  . simpa [t.inorder_perm.length_eq] using h

theorem inorderSearch_getChunksFromHashFunc {t : MerkleTreeNode} {buf : HashBuf}
    (h : buf.hashes.length + t.leaves.length ≤ buf.cap)
    : inorderSearch getChunksFromHashFunc t buf = .ok (buf.append (t.leaves.map (·.value))) := by
  have hlen := congrArg List.length t.leaves_eq_inorder
  rw [List.length_map] at hlen
  rw [getChunksFromHashFunc_eq_visit, inorderSearch_visit]
  . rw [← t.leaves_eq_inorder, List.map_map]
    rfl
  . omega

def NodeSound (hashes : List Bytes) (chunks : List Chunk) : MerkleTreeNode → Prop
  | .leaf info =>
    hashes.length ≤ info.key ∧ (chunks.map Chunk.hash)[info.key - hashes.length]? = some info.value
  | .inner info left right =>
    info.key < hashes.length
      ∧ hashes[info.key]? = some info.value
      ∧ left.info.key = 2 * info.key + 1
      ∧ right.info.key = 2 * info.key + 2
      ∧ left.info.parent = some info.ptr
      ∧ right.info.parent = some info.ptr

theorem nodeSound_of_built {hashes : List Bytes} {chunks : List Chunk} {parent : Option NodePtr}
    {i : Nat} {node : MerkleTreeNode} (hlen : chunks.length = hashes.length + 1)
    (hi : i ≤ 2 * hashes.length)
    (h : node.Built hashes.length (valueOf hashes (chunks.map Chunk.hash)) parent i)
    : NodeSound hashes chunks node := by
  have hkey := h.stores.key
  have hvalue := h.stores.value
  cases node with
  | leaf info =>
    simp only [MerkleTreeNode.info] at hkey hvalue
    have hlt : i < hashes.length + (chunks.map Chunk.hash).length := by
      rw [List.length_map]
      omega
    have hget := valueOf_ge h.1 hlt
    rw [← hkey] at hget h
    rw [← hkey] at hvalue
    exact ⟨h.1, by rw [hget, hvalue]⟩
  | inner info left right =>
    simp only [MerkleTreeNode.info] at hkey hvalue
    obtain ⟨hlt, _, hl, hr⟩ := h
    have hget := valueOf_lt hlt (chunks.map Chunk.hash)
    rw [← hvalue, ← hkey] at hget
    rw [← hkey] at hlt hl hr
    exact ⟨hlt, hget, hl.stores.key, hr.stores.key, hl.stores.parent, hr.stores.parent⟩

structure TreeSound (hashes : List Bytes) (chunks : List Chunk) (root : MerkleTreeNode)
    (chunks' : List Chunk) : Prop where
  root_key : root.info.key = 0
  root_parent : root.info.parent = none
  length_subtrees : root.subtrees.length = 2 * hashes.length + 1
  nodup_ptrs : root.ptrs.Nodup
  keys_perm : root.keys.Perm (List.range (2 * hashes.length + 1))
  nodes : ∀ node ∈ root.subtrees, NodeSound hashes chunks node
  length_chunks : chunks'.length = chunks.length
  linked : ∀ j ≤ hashes.length, ∃ info ∈ root.leaves, info.key = hashes.length + j ∧
    chunks'[j]? = chunks[j]?.map fun chunk => { chunk with nodePtr := some info.ptr }

theorem treeSound_of_built {hashes : List Bytes} {chunks : List Chunk} {root : MerkleTreeNode}
    (hlen : chunks.length = hashes.length + 1)
    (hbuilt : root.Built hashes.length (valueOf hashes (chunks.map Chunk.hash)) none 0)
    (hptrs : root.ptrs = List.range (2 * hashes.length + 1))
    : TreeSound hashes chunks root (linkChunks hashes.length root.leaves chunks) where
  root_key := hbuilt.stores.key
  root_parent := hbuilt.stores.parent
  length_subtrees := hbuilt.length_subtrees
  nodup_ptrs := by
    rw [hptrs]
    exact List.nodup_range
  keys_perm := hbuilt.keys_perm
  nodes := by
    intro node hnode
    have hkey : node.info.key ∈ root.keys := List.mem_map_of_mem hnode
    rw [hbuilt.mem_keys (by omega)] at hkey
    exact nodeSound_of_built hlen hkey.2 (hbuilt.of_mem hnode)
  length_chunks := linkChunks.length _ _ _
  linked := by
    intro j hj
    obtain ⟨info, hinfo, hkey, _⟩ := leaf_of_key hbuilt hj
    have hlink := linkChunks.getElem?_of_mem chunks (nodup_leaf_index hbuilt) hinfo
    have hsub : info.key - hashes.length = j := by omega
    rw [hsub] at hlink
    exact ⟨info, hinfo, hkey, hlink⟩

theorem bpkgGetAllHashes_eq {bpkg : BpkgObj} {tree : MerkleTree} (htree : bpkg.tree = some tree)
    (hsize : tree.root.subtrees.length ≤ bpkg.nhashes.toNat + bpkg.nchunks.toNat)
    (hmax : bpkg.nhashes.toNat + bpkg.nchunks.toNat ≤ INT_MAX)
    : bpkgGetAllHashes bpkg
        =
      .ok {
        hashes := HashBuf.append (.alloc (bpkg.nhashes.toNat + bpkg.nchunks.toNat))
          (tree.root.inorder.map (·.info.value))
        len := bpkg.nhashes.toNat + bpkg.nchunks.toNat
      } := by
  have hn : toInt (bpkg.nhashes + bpkg.nchunks).toNat
      = (bpkg.nhashes.toNat + bpkg.nchunks.toNat : Nat) := by
    have hsum : (bpkg.nhashes + bpkg.nchunks).toNat = bpkg.nhashes.toNat + bpkg.nchunks.toNat := by
      unfold INT_MAX at hmax
      rw [UInt32.toNat_add]
      omega
    rw [hsum, toInt_of_le hmax]
  unfold bpkgGetAllHashes
  rw [htree]
  simp only [deref_some, bind, Except.bind, hn, Int.toNat_natCast]
  rw [inorderSearch_allHashFunc]
  . rfl
  . simp [hsize]

theorem inorder_values_perm {hashes : List Bytes} {chunks : List Chunk} {root : MerkleTreeNode}
    (hlen : chunks.length = hashes.length + 1)
    (hbuilt : root.Built hashes.length (valueOf hashes (chunks.map Chunk.hash)) none 0)
    : (root.inorder.map (·.info.value)).Perm (hashes ++ chunks.map Chunk.hash) := by
  have hrange : hashes.length + (chunks.map Chunk.hash).length = 2 * hashes.length + 1 := by
    rw [List.length_map]
    omega
  rw [← map_valueOf, hrange]
  apply List.Perm.trans (List.Perm.map _ root.inorder_perm)
  rw [hbuilt.values_eq]
  exact List.Perm.map _ hbuilt.keys_perm

theorem createTree_sound {hashes : List Bytes} {chunks : List Chunk} (hn : hashes.length < 2 ^ 30)
    (hlen : chunks.length = hashes.length + 1)
    : ∃ tree chunks',
        createTree (.ofList hashes) hashes.length (.ofList chunks) chunks.length
            =
          .ok (tree, .ofList chunks')
          ∧ TreeSound hashes chunks tree.root chunks'
          ∧ (∃ visits : List MerkleTreeNode,
              visits.Perm tree.root.subtrees
                ∧ (visits.map (·.info.value)).Perm (hashes ++ chunks.map Chunk.hash)
                ∧ ∀ func buf,
                    inorderSearch func tree.root buf
                      =
                    visits.foldlM (fun buf node => func node buf) buf)
          ∧ ∀ bpkg : BpkgObj,
              bpkg.nhashes.toNat = hashes.length
                →
              bpkg.nchunks.toNat = chunks.length
                →
              bpkg.tree = some tree
                →
              ∃ qry,
                bpkgGetAllHashes bpkg = .ok qry
                  ∧ qry.len = hashes.length + chunks.length
                  ∧ qry.hashes.cap = hashes.length + chunks.length
                  ∧ qry.hashes.hashes.length = hashes.length + chunks.length
                  ∧ qry.hashes.hashes.Perm (hashes ++ chunks.map Chunk.hash) := by
  obtain ⟨root, htree, hbuilt, hptrs, _⟩ := createTree_spec hn hlen
  have hperm := inorder_values_perm hlen hbuilt
  have hlength : (root.inorder.map (·.info.value)).length = hashes.length + chunks.length := by
    rw [hperm.length_eq, List.length_append, List.length_map]
  refine ⟨_, _, htree, treeSound_of_built hlen hbuilt hptrs, ⟨root.inorder, ?_, hperm, ?_⟩, ?_⟩
  . exact root.inorder_perm
  . intro func buf
    exact inorderSearch_eq_foldlM func root buf
  . intro bpkg hnhashes hnchunks htree
    have hsub := hbuilt.length_subtrees
    have hquery := bpkgGetAllHashes_eq htree (by dsimp only; omega) (by unfold INT_MAX; omega)
    refine ⟨_, hquery, ?_, ?_, ?_, ?_⟩
    . simp only [hnhashes, hnchunks]
    . simp [hnhashes, hnchunks]
    . simpa using hlength
    . simpa using hperm

theorem createTree_sound_two
    : ∃ tree chunks',
        createTree (.ofList [[1]]) 1 (.ofList [⟨[2], 0, 1, none⟩, ⟨[3], 1, 1, none⟩]) 2
            =
          .ok (tree, .ofList chunks')
          ∧ TreeSound [[1]] [⟨[2], 0, 1, none⟩, ⟨[3], 1, 1, none⟩] tree.root chunks' := by
  obtain ⟨tree, chunks', htree, hsound, _⟩ :=
    createTree_sound (show [[1]].length < 2 ^ 30 by decide)
      (show [(⟨[2], 0, 1, none⟩ : Chunk), ⟨[3], 1, 1, none⟩].length = [[1]].length + 1 by decide)
  exact ⟨tree, chunks', htree, hsound⟩

end Btide
