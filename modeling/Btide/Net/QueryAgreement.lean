import Btide.Net.StatusReport

/-!
This module contains how the queries on one package fit together: what each of them reports is composed
of what the others report, and asking again changes nothing.
-/

open Bytes CLib

namespace Btide

namespace MerkleTreeNode

theorem cover_of_complete {t : MerkleTreeNode} (h : t.complete = true) : t.cover = [t] := by
  cases t with
  | leaf info => rw [cover, if_pos h]
  | inner info left right => rw [cover, if_pos h]

theorem filter_leaves_of_complete {t : MerkleTreeNode} (h : t.complete = true)
    : t.leaves.filter (·.complete) = t.leaves := by
  rw [complete, List.all_eq_true] at h
  exact List.filter_eq_self.mpr h

theorem flatMap_leaves_cover (t : MerkleTreeNode)
    : t.cover.flatMap leaves = t.leaves.filter (·.complete) := by
  induction t with
  | leaf info =>
    by_cases hc : (leaf info).complete = true
    . rw [cover_of_complete hc, List.flatMap_singleton, filter_leaves_of_complete hc]
    . rw [cover, if_neg hc, leaves_leaf, List.filter_cons_of_neg]
      . rfl
      . rw [complete_leaf] at hc
        exact hc
  | inner info left right ihl ihr =>
    by_cases hc : (inner info left right).complete = true
    . rw [cover_of_complete hc, List.flatMap_singleton, filter_leaves_of_complete hc]
    . rw [cover, if_neg hc, List.flatMap_append, ihl, ihr, leaves_inner, List.filter_append]

theorem inorder_mapInfo (f : NodeInfo → NodeInfo) (t : MerkleTreeNode)
    : (t.mapInfo f).inorder = t.inorder.map (·.mapInfo f) := by
  induction t with
  | leaf info => rfl
  | inner info left right ihl ihr =>
    rw [mapInfo, inorder_inner, inorder_inner, ihl, ihr, List.map_append, List.map_cons]
    rfl

end MerkleTreeNode

open MerkleTreeNode

theorem foldlM_visit_ok {p : MerkleTreeNode → Bool} {nodes : List MerkleTreeNode} {buf buf' : HashBuf}
    (hbuf : buf.hashes.length ≤ buf.cap)
    (h : nodes.foldlM (fun buf node => visit p node buf) buf = .ok buf')
    : buf.hashes.length + (nodes.filter p).length ≤ buf.cap := by
  induction nodes generalizing buf with
  | nil => exact hbuf
  | cons node nodes ih =>
    rw [List.foldlM_cons, bind_eq_ok] at h
    obtain ⟨mid, hvisit, hrest⟩ := h
    by_cases hp : p node = true
    . rw [List.filter_cons_of_pos hp, List.length_cons]
      rw [visit, if_pos hp, HashBuf.push] at hvisit
      split at hvisit
      . next hroom =>
        rw [Except.ok.injEq] at hvisit
        rw [← hvisit] at hrest
        have hlen : (buf.hashes ++ [node.info.value]).length = buf.hashes.length + 1 :=
          List.length_append
        have := ih (by dsimp only; omega) hrest
        dsimp only at this
        omega
      . cases hvisit
    . rw [List.filter_cons_of_neg hp]
      rw [visit, if_neg hp, Except.ok.injEq] at hvisit
      rw [← hvisit] at hrest
      exact ih hbuf hrest

theorem bpkgGetAllHashes_ok {bpkg : BpkgObj} {tree : MerkleTree} {qry : BpkgQuery}
    (htree : bpkg.tree = some tree) (h : bpkgGetAllHashes bpkg = .ok qry)
    : qry.hashes.hashes = tree.root.inorder.map (·.info.value)
        ∧ ∀ (f : NodeInfo → NodeInfo) (filename : Option Bytes),
            (∀ info, ∃ hash, f info = { info with computedHash := hash })
              →
            bpkgGetAllHashes
                { bpkg with filename, tree := some { tree with root := tree.root.mapInfo f } }
              =
            .ok qry := by
  unfold bpkgGetAllHashes at h
  simp only [htree, deref_some, bind_eq_ok, pure_eq_ok, Except.ok.injEq, exists_eq_left'] at h
  obtain ⟨buf, hsearch, hqry⟩ := h
  rw [allHashFunc_eq_visit, inorderSearch_eq_foldlM] at hsearch
  have hroom := foldlM_visit_ok (Nat.zero_le _) hsearch
  rw [foldlM_visit hroom, Except.ok.injEq] at hsearch
  rw [List.filter_true] at hroom hsearch
  constructor
  . rw [← hqry, ← hsearch, HashBuf.append_hashes, HashBuf.alloc_hashes, List.nil_append]
  . intro f filename hf
    have hvalues : (tree.root.mapInfo f).inorder.map (·.info.value)
        = tree.root.inorder.map (·.info.value) := by
      rw [inorder_mapInfo, List.map_map]
      apply List.map_congr_left
      intro node _
      obtain ⟨hash, heq⟩ := hf node.info
      rw [Function.comp_apply, info_mapInfo, heq]
    unfold bpkgGetAllHashes
    simp only [deref_some, bind, Except.bind]
    rw [allHashFunc_eq_visit, inorderSearch_eq_foldlM, foldlM_visit]
    . rw [List.filter_true, hvalues, hsearch]
      exact congrArg Except.ok hqry
    . rw [List.filter_true, inorder_mapInfo, List.length_map]
      exact hroom

namespace computeHashesForChunks

theorem rehash_rehash {b : Nat} {ptrs : List NodePtr} (hnodup : ptrs.Nodup) (data : Bytes) (info : NodeInfo)
    : rehash b data ptrs (rehash b data ptrs info) = rehash b data ptrs info := by
  by_cases hmem : info.ptr ∈ ptrs
  . obtain ⟨j, hj⟩ := List.getElem?_of_mem hmem
    have honce := rehash_eq hnodup hj data (b := b)
    obtain ⟨hash, hcases⟩ := rehash_cases data ptrs info (b := b)
    have hj' : ptrs[j]? = some (rehash b data ptrs info).ptr := by rw [hcases]; exact hj
    rw [rehash_eq hnodup hj' data, honce]
    split
    . rfl
    . rfl
  . rw [rehash_of_not_mem hmem, rehash_of_not_mem hmem]

end computeHashesForChunks

namespace PackageShape

open computeHashesForChunks

variable {hashes : List Bytes} {chunks₀ chunks : List Chunk} {rest : List (Option Chunk)}
  {tree : MerkleTree} {bpkg bpkg' : BpkgObj} {files : FileSystem}

theorem rehashed (h : PackageShape hashes chunks₀ chunks rest tree bpkg)
    (hcompute : computeHashesForChunks files bpkg = .ok bpkg')
    : ∃ (f : NodeInfo → NodeInfo) (filename : Option Bytes),
        (∀ info, ∃ hash, f info = { info with computedHash := hash })
          ∧ bpkg' = { bpkg with filename, tree := some { tree with root := tree.root.mapInfo f } }
          ∧ computeHashesForChunks files bpkg' = .ok bpkg' := by
  obtain ⟨name, hname⟩ := stripWhitespace_of_computeHashes hcompute
  obtain ⟨first, _, hentry⟩ := h.exists_first
  have hagain := stripWhitespace_idem hname
  cases hfile : files name with
  | none =>
    rw [computeHashesForChunks_of_missing h.chunks_eq hentry hname hfile, Except.ok.injEq] at hcompute
    refine ⟨fun info => info, some name, fun info => ⟨info.computedHash, rfl⟩, ?_, ?_⟩
    . rw [mapInfo_id, ← hcompute, ← h.tree_eq]
    . rw [← hcompute]
      exact computeHashesForChunks_of_missing h.chunks_eq hentry hagain hfile
  | some data =>
    obtain ⟨ptrs, hnodup, hpoint, _⟩ := h.sound.pointTo h.length_chunks
    have hblocks := blocks_append first.size.toNat_lt hpoint h.unlinked
      (show Sha256.zeroBuff.lastChunk.length = 64 from rfl) data
    have hfits : data.length < ((chunks.map some).length + 1) * first.size.toNat := by
      apply Classical.byContradiction
      intro hlong
      rw [computeHashesForChunks_of_entries h.tree_eq h.chunks_eq hentry hname hfile, hblocks,
        if_neg hlong] at hcompute
      cases hcompute
    rw [computeHashesForChunks_of_entries h.tree_eq h.chunks_eq hentry hname hfile, hblocks,
      if_pos hfits, Except.map, Except.ok.injEq] at hcompute
    have hcases := @rehash_cases first.size.toNat data ptrs
    refine ⟨rehash first.size.toNat data ptrs, some name, hcases, hcompute.symm, ?_⟩
    have hchunks : bpkg'.chunks = some (chunks.map some ++ rest) := by
      rw [← hcompute]
      exact h.chunks_eq
    have htree : bpkg'.tree
        = some { tree with root := tree.root.mapInfo (rehash first.size.toNat data ptrs) } := by
      rw [← hcompute]
    have hname' : stripWhitespace bpkg'.filename = .ok (some name) := by
      rw [← hcompute]
      exact hagain
    have htwice (info : NodeInfo)
        : rehash first.size.toNat data ptrs (rehash first.size.toNat data ptrs info)
            =
          rehash first.size.toNat data ptrs info :=
      rehash_rehash hnodup data info
    rw [computeHashesForChunks_of_entries htree hchunks hentry hname' hfile, hblocks, if_pos hfits]
    dsimp only [Except.map]
    rw [mapInfo_mapInfo, funext htwice, ← hcompute]

theorem reports_agree (h : PackageShape hashes chunks₀ chunks rest tree bpkg) (hpos : bpkg.nhashes ≠ 0)
    (hnodup : (tree.root.inorder.map (·.info.value)).Nodup)
    : ∃ nodes : List MerkleTreeNode,
        minHashFind tree.root (.alloc bpkg.intNchunks.toNat)
            =
          .ok (tree.root.complete, HashBuf.append (.alloc bpkg.intNchunks.toNat) (nodes.map (·.info.value)))
          ∧ (nodes.map (·.info.value)).Nodup
          ∧ (∀ node ∈ nodes, node ∈ tree.root.subtrees)
          ∧ nodes.length ≤ (nodes.flatMap leaves).length
          ∧ ((nodes.flatMap leaves).map (·.value)).Perm
              ((tree.root.leaves.filter fun info => info.value == info.computedHash).map (·.value)) := by
  have hvalues : (tree.root.subtrees.map (·.info.value)).Nodup :=
    (tree.root.inorder_perm.map _).nodup_iff.mp hnodup
  have hleaf : tree.root.isLeaf = false := by
    rw [← Bool.not_eq_true, h.isLeaf_iff]
    exact hpos
  have hperm := tree.root.emitted_pending_perm
  refine ⟨tree.root.emitted ++ tree.root.pending, ?_, ?_, ?_, ?_, ?_⟩
  . rw [h.minCompleted_eq, hleaf]
    rfl
  . rw [(hperm.map _).nodup_iff]
    exact (tree.root.cover_sublist.map _).nodup hvalues
  . intro node hnode
    rw [hperm.mem_iff] at hnode
    exact tree.root.cover_sublist.subset hnode
  . generalize tree.root.emitted ++ tree.root.pending = nodes
    induction nodes with
    | nil => exact Nat.zero_le _
    | cons node nodes ih =>
      have hsome := List.length_pos_of_ne_nil node.leaves_ne_nil
      rw [List.flatMap_cons, List.length_append, List.length_cons]
      omega
  . have hcover := hperm.flatMap_right leaves
    rw [flatMap_leaves_cover] at hcover
    have hcomplete : (fun info : NodeInfo => info.value == info.computedHash) = (·.complete) := by
      funext info
      rw [NodeInfo.complete, Bool.beq_comm]
    rw [hcomplete]
    exact hcover.map _

theorem completedChunks (h : PackageShape hashes chunks₀ chunks rest tree bpkg')
    (hcompute : computeHashesForChunks files bpkg = .ok bpkg')
    : bpkgGetCompletedChunks files bpkg
        =
      .ok ({
        hashes := HashBuf.append (.alloc bpkg'.intNchunks.toNat)
          ((tree.root.leaves.filter fun info => info.value == info.computedHash).map (·.value))
        len := ((tree.root.leaves.filter fun info => info.value == info.computedHash).map (·.value)).length
      }, bpkg') := by
  have hroom := h.leaves_le (self_mem_subtrees _)
  unfold bpkgGetCompletedChunks
  simp only [hcompute, h.tree_eq, deref_some, bind, Except.bind]
  rw [inorderSearch_getCompletedChunks (by simpa using hroom)]
  rfl

theorem minCompletedHashes (h : PackageShape hashes chunks₀ chunks rest tree bpkg')
    {nodes : List MerkleTreeNode}
    (hfind : minHashFind tree.root (.alloc bpkg'.intNchunks.toNat)
      = .ok (tree.root.complete, HashBuf.append (.alloc bpkg'.intNchunks.toNat) (nodes.map (·.info.value))))
    (hcompute : computeHashesForChunks files bpkg = .ok bpkg')
    : bpkgGetMinCompletedHashes files bpkg
        =
      .ok ({
        hashes := HashBuf.append (.alloc bpkg'.intNchunks.toNat) (nodes.map (·.info.value))
        len := (nodes.map (·.info.value)).length
      }, bpkg') := by
  unfold bpkgGetMinCompletedHashes
  simp only [hcompute, h.tree_eq, deref_some, bind, Except.bind]
  rw [hfind]
  rfl

-- the answer does not depend on what was computed
theorem part_eq (h : PackageShape hashes chunks₀ chunks rest tree bpkg)
    (hnodup : (tree.root.inorder.map (·.info.value)).Nodup) {f : NodeInfo → NodeInfo}
    (hf : ∀ info, ∃ hash, f info = { info with computedHash := hash }) {node : MerkleTreeNode}
    (hnode : node ∈ (tree.root.mapInfo f).subtrees)
    : bpkgGetAllChunkHashesFromHash bpkg node.info.value
        =
      .ok (some {
        hashes := HashBuf.append (.alloc bpkg.intNchunks.toNat) (node.leaves.map (·.value))
        len := node.leaves.length
      }) := by
  have hvalue (info : NodeInfo) : (f info).value = info.value := by
    obtain ⟨hash, heq⟩ := hf info
    rw [heq]
  rw [subtrees_mapInfo, List.mem_map] at hnode
  obtain ⟨node, hnode, rfl⟩ := hnode
  have hvalues : (tree.root.subtrees.map (·.info.value)).Nodup :=
    (tree.root.inorder_perm.map _).nodup_iff.mp hnodup
  have hfound := bpkgGetAllChunkHashesFromHash_node h.tree_eq hvalues hnode (h.leaves_le hnode)
  rw [info_mapInfo, hvalue, leaves_mapInfo, List.map_map, List.length_map, hfound]
  congr 6
  funext info
  exact (hvalue info).symm

theorem expanded (h : PackageShape hashes chunks₀ chunks rest tree bpkg)
    (hnodup : (tree.root.inorder.map (·.info.value)).Nodup) {nodes : List MerkleTreeNode}
    (hmem : ∀ node ∈ nodes, node ∈ tree.root.subtrees)
    : List.Forall₂ (fun hash part => bpkgGetAllChunkHashesFromHash bpkg hash = .ok (some part))
        (nodes.map (·.info.value))
        (nodes.map fun node => {
          hashes := HashBuf.append (.alloc bpkg.intNchunks.toNat) (node.leaves.map (·.value))
          len := node.leaves.length
        }) := by
  have hvalues : (tree.root.subtrees.map (·.info.value)).Nodup :=
    (tree.root.inorder_perm.map _).nodup_iff.mp hnodup
  induction nodes with
  | nil => exact List.Forall₂.nil
  | cons node nodes ih =>
    have hnode := hmem node List.mem_cons_self
    refine List.Forall₂.cons ?_ (ih fun other hother => hmem other (List.mem_cons_of_mem _ hother))
    exact bpkgGetAllChunkHashesFromHash_node h.tree_eq hvalues hnode (h.leaves_le hnode)

end PackageShape

/--
Of a package whose hashes differ, the hashes of the complete parts expand, hash by hash, to exactly the
completed chunks; on the same files the queries change nothing that any of them reports.
-/
theorem queries_agree {bpkg bpkg' : BpkgObj} {files : FileSystem} {min : BpkgQuery} (h : bpkg.Managed)
    (hpos : bpkg.nhashes ≠ 0) (hsum : bpkg.nhashes.toNat + bpkg.nchunks.toNat ≤ INT_MAX)
    (hmin : bpkgGetMinCompletedHashes files bpkg = .ok (min, bpkg'))
    : ∃ all,
        bpkgGetAllHashes bpkg = .ok all
          ∧ (all.hashes.hashes.Nodup
              →
            ∃ (done : BpkgQuery) (parts : List BpkgQuery),
              bpkgGetCompletedChunks files bpkg = .ok (done, bpkg')
                ∧ List.Forall₂ (fun hash part => bpkgGetAllChunkHashesFromHash bpkg' hash = .ok (some part))
                    min.hashes.hashes parts
                ∧ (parts.flatMap (·.hashes.hashes)).Perm done.hashes.hashes
                ∧ min.hashes.hashes.Nodup
                ∧ min.hashes.hashes ⊆ all.hashes.hashes
                ∧ min.len ≤ done.len
                ∧ bpkgGetAllHashes bpkg' = .ok all
                ∧ bpkgGetMinCompletedHashes files bpkg' = .ok (min, bpkg')
                ∧ bpkgGetCompletedChunks files bpkg' = .ok (done, bpkg')) := by
  obtain ⟨hashes, chunks₀, chunks, rest, tree₀, hshape₀⟩ := h.shape
  obtain ⟨all, hall⟩ := hshape₀.allHashes hsum
  refine ⟨all, hall, fun hnodup => ?_⟩
  have hcompute := computeHashes_of_minCompleted hmin
  obtain ⟨f, filename, hf, hbpkg', hagain⟩ := hshape₀.rehashed hcompute
  have hall' : bpkgGetAllHashes bpkg' = .ok all := by
    rw [hbpkg']
    exact (bpkgGetAllHashes_ok hshape₀.tree_eq hall).2 f filename hf
  have hpos' : bpkg'.nhashes ≠ 0 := by
    rw [hbpkg']
    exact hpos
  obtain ⟨tree, hshape⟩ := hshape₀.computeHashes hcompute
  have hvalues := (bpkgGetAllHashes_ok hshape.tree_eq hall').1
  rw [hvalues] at hnodup
  obtain ⟨nodes, hfind, hnodes, hmem, hle, hperm⟩ := hshape.reports_agree hpos' hnodup
  have hfirst := hshape.minCompletedHashes hfind hcompute
  rw [hmin, Except.ok.injEq, Prod.mk.injEq] at hfirst
  obtain ⟨rfl, _⟩ := hfirst
  refine ⟨_, _, hshape.completedChunks hcompute, hshape.expanded hnodup hmem, ?_, hnodes, ?_, ?_, hall',
    hshape.minCompletedHashes hfind hagain, hshape.completedChunks hagain⟩
  . rw [List.flatMap_map]
    rw [List.map_flatMap] at hperm
    exact hperm
  . intro hash hhash
    rw [hvalues]
    obtain ⟨node, hnode, rfl⟩ := List.mem_map.mp hhash
    exact List.mem_map_of_mem (tree.root.inorder_perm.mem_iff.mpr (hmem node hnode))
  . dsimp only
    rw [← hperm.length_eq, List.length_map, List.length_map]
    exact hle

theorem queries_agree_two
    : ∃ (min done : BpkgQuery) (bpkg' : BpkgObj) (parts : List BpkgQuery),
        bpkgGetMinCompletedHashes (fun _ => some (ascii "abxx")) (twoChunksObj 2) = .ok (min, bpkg')
          ∧ bpkgGetCompletedChunks (fun _ => some (ascii "abxx")) (twoChunksObj 2) = .ok (done, bpkg')
          ∧ (parts.flatMap (·.hashes.hashes)).Perm done.hashes.hashes
          ∧ min.len ≤ done.len := by
  have hmanaged : (twoChunksObj 2).Managed :=
    .load (show ∀ c ∈ (none : Option Bytes).getD [], c ≠ 0 by simp) load_twoChunks
  have hmin : ((bpkgGetMinCompletedHashes (fun _ => some (ascii "abxx")) (twoChunksObj 2)).toOption).isSome
      = true := by decide +kernel
  obtain ⟨⟨min, bpkg'⟩, hmin⟩ := Option.isSome_iff_exists.mp hmin
  rw [toOption_eq_some] at hmin
  obtain ⟨all, hall, hagree⟩ :=
    queries_agree hmanaged (show (1 : UInt32) ≠ 0 by decide) (show 1 + 2 ≤ INT_MAX by decide) hmin
  have hstrings : bpkgGetAllHashes (twoChunksObj 2) = .ok ⟨⟨3, [digestAb, ascii "r", digestC]⟩, 3⟩ := by
    decide +kernel
  rw [hstrings, Except.ok.injEq] at hall
  obtain ⟨done, parts, hdone, _, hperm, _, _, hle, _⟩ :=
    hagree (hall ▸ show [digestAb, ascii "r", digestC].Nodup by decide)
  exact ⟨min, done, bpkg', parts, hmin, hdone, hperm, hle⟩

end Btide
