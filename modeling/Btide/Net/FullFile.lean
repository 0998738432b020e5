import Btide.Net.Lookup
import Btide.Net.StatusReport

/-!
This module contains what the queries report of a package whose data file has its full length, whatever
they computed before.
-/

open Bytes CLib

namespace Btide

open MerkleTreeNode computeHashesForChunks

structure Package.Current (pkg : Package) (data : Bytes) (bpkg : BpkgObj) (tree : MerkleTree)
    (chunks : List Chunk) : Prop where
  tree_eq : bpkg.tree = some tree
  sound : TreeSound pkg.hashes pkg.chunks tree.root chunks
  intNchunks_eq : bpkg.intNchunks = pkg.chunks.length
  leaf : ∀ info ∈ tree.root.leaves, ∃ chunk,
    pkg.chunks[info.key - pkg.hashes.length]? = some chunk
      ∧ info.value = chunk.hash
      ∧ info.computedHash = Sha256.digest (slice data chunk.offset.toNat chunk.size.toNat)

namespace Package

variable {pkg : Package} {bpkg bpkg' : BpkgObj} {files : FileSystem} {name data : Bytes}

theorem IsLoaded.current (h : pkg.IsLoaded bpkg) (hname : stripWhitespace bpkg.filename = .ok (some name))
    (hfile : files name = some data) (hlen : data.length = pkg.length)
    (hcompute : computeHashesForChunks files bpkg = .ok bpkg')
    : ∃ tree chunks, pkg.Current data bpkg' tree chunks := by
  obtain ⟨tree, chunks, htree, hchunks, hsound⟩ := h.sound
  obtain ⟨ptrs, hnodup, hpoint, hleaves⟩ := hsound.pointTo pkg.length_chunks
  have hpos : 0 < chunks.length := by
    rw [hsound.length_chunks, pkg.length_chunks]
    omega
  have hfirst := List.getElem?_eq_getElem hpos
  have hsize : chunks[0].size.toNat = pkg.chunkSize := by
    obtain ⟨info, _, _, hget⟩ := hsound.linked 0 (Nat.zero_le _)
    rw [hfirst] at hget
    obtain ⟨chunk, hchunk, heq⟩ := Option.map_eq_some_iff.mp hget.symm
    rw [← heq]
    exact pkg.size_eq chunk (List.mem_of_getElem? hchunk)
  have hblocks := blocks_eq (UInt32.toNat_lt _) hpoint
    (show Sha256.zeroBuff.lastChunk.length = 64 from rfl) data tree.root (b := chunks[0].size.toNat)
  have hroom : data.length < ((chunks.map some).length + 1) * pkg.chunkSize := by
    have := pkg.chunkSize_pos
    rw [hlen, Package.length, List.length_map, hsound.length_chunks, Nat.succ_mul]
    omega
  rw [computeHashesForChunks_eq htree hchunks hfirst hname hfile, hblocks, hsize, if_pos hroom] at hcompute
  simp only [Except.map, Except.ok.injEq] at hcompute
  rw [← hcompute]
  have hcases := @rehash_cases pkg.chunkSize data ptrs
  refine ⟨_, chunks, rfl, hsound.mapInfo (rehash pkg.chunkSize data ptrs) hcases, ?_, ?_⟩
  . have hnchunks := h.nchunks
    have hmax := h.nchunks_le
    show toInt bpkg.nchunks.toNat = pkg.chunks.length
    rw [toInt_of_le (by omega), hnchunks]
  . intro info' hinfo'
    rw [leaves_mapInfo, List.mem_map] at hinfo'
    obtain ⟨info, hinfo, rfl⟩ := hinfo'
    obtain ⟨_, hlt, hvalue⟩ := hsound.leaf_index hinfo
    have hold := List.getElem?_eq_getElem hlt
    have hend := Package.end_le hold
    have hoffset := Package.offset_eq hold
    have hchunkSize := pkg.size_eq _ (List.mem_of_getElem? hold)
    rw [hoffset, ← Nat.succ_mul, ← hlen] at hend
    rw [rehash_eq hnodup (hleaves info hinfo), if_pos hend]
    refine ⟨_, hold, ?_, ?_⟩
    . rw [List.getElem?_map, hold, Option.map_some, Option.some.injEq] at hvalue
      exact hvalue.symm
    . rw [hoffset, hchunkSize]

namespace Current

variable {tree : MerkleTree} {chunks : List Chunk}

theorem leaf_complete (h : pkg.Current data bpkg tree chunks) (hlen : data.length = pkg.length)
    {info : NodeInfo} (hinfo : info ∈ tree.root.leaves)
    : ∃ chunk,
        pkg.chunks[info.key - pkg.hashes.length]? = some chunk
          ∧ info.value = chunk.hash
          ∧ (info.value == info.computedHash) = chunk.complete data := by
  obtain ⟨chunk, hget, hvalue, hcomputed⟩ := h.leaf info hinfo
  refine ⟨chunk, hget, hvalue, ?_⟩
  have hend := Package.end_le hget
  rw [← pkg.size_eq chunk (List.mem_of_getElem? hget), ← hlen] at hend
  rw [Bool.eq_iff_iff, beq_iff_eq, Chunk.complete_iff, hvalue, hcomputed]
  exact ⟨fun heq => ⟨hend, heq.symm⟩, fun hc => hc.2.symm⟩

theorem root_complete_iff (h : pkg.Current data bpkg tree chunks) (hlen : data.length = pkg.length)
    : tree.root.complete = true ↔ ∀ chunk ∈ pkg.chunks, chunk.complete data = true := by
  rw [complete, List.all_eq_true]
  constructor
  . intro hall chunk hchunk
    obtain ⟨j, hj⟩ := List.getElem?_of_mem hchunk
    have hlt := (List.getElem?_eq_some_iff.mp hj).1
    obtain ⟨info, hinfo, _, hkey, _⟩ := h.sound.node_ptr pkg.length_chunks hlt
    obtain ⟨other, hget, _, hcomplete⟩ := h.leaf_complete hlen hinfo
    have hindex : info.key - pkg.hashes.length = j := by omega
    rw [hindex, hj, Option.some.injEq] at hget
    rw [hget, ← hcomplete, Bool.beq_comm]
    exact hall info hinfo
  . intro hall info hinfo
    obtain ⟨chunk, hget, _, hcomplete⟩ := h.leaf_complete hlen hinfo
    rw [NodeInfo.complete, Bool.beq_comm, hcomplete]
    exact hall chunk (List.mem_of_getElem? hget)

theorem completed_perm (h : pkg.Current data bpkg tree chunks) (hlen : data.length = pkg.length)
    : ((tree.root.leaves.filter fun info => info.value == info.computedHash).map (·.value)).Perm
        (completed data pkg.chunks) := by
  have hvalue (info : NodeInfo) (hinfo : info ∈ tree.root.leaves)
      : (info.value == info.computedHash)
            = completeAt data pkg.chunks (info.key - pkg.hashes.length)
          ∧ info.value = hashAt pkg.chunks (info.key - pkg.hashes.length) := by
    obtain ⟨chunk, hget, hhash, hcomplete⟩ := h.leaf_complete hlen hinfo
    rw [completeAt_eq hget, hashAt_eq hget]
    exact ⟨hcomplete, hhash⟩
  have hperm := (h.sound.leaf_indices_perm pkg.length_chunks).filter (completeAt data pkg.chunks)
  have hmap := hperm.map (hashAt pkg.chunks)
  rw [← completed_eq, List.filter_map, List.map_map] at hmap
  refine List.Perm.trans (List.Perm.of_eq ?_) hmap
  have hfilter : tree.root.leaves.filter (fun info => info.value == info.computedHash)
      = tree.root.leaves.filter (completeAt data pkg.chunks ∘ fun info => info.key - pkg.hashes.length) := by
    apply List.filter_congr
    intro info hinfo
    exact (hvalue info hinfo).1
  rw [hfilter]
  apply List.map_congr_left
  intro info hinfo
  exact (hvalue info (List.mem_filter.mp hinfo).1).2

end Current

theorem IsLoaded.completedChunks (h : pkg.IsLoaded bpkg)
    (hname : stripWhitespace bpkg.filename = .ok (some name)) (hfile : files name = some data)
    (hlen : data.length = pkg.length)
    : ∃ qry bpkg',
        bpkgGetCompletedChunks files bpkg = .ok (qry, bpkg')
          ∧ qry.hashes.hashes.Perm (completed data pkg.chunks) := by
  obtain ⟨bpkg', hcompute, _⟩ := h.computeHashes hname hfile hlen
  obtain ⟨tree, chunks, hcurrent⟩ := h.current hname hfile hlen hcompute
  have hroom : (HashBuf.alloc bpkg'.intNchunks.toNat).hashes.length + tree.root.leaves.length
      ≤ (HashBuf.alloc bpkg'.intNchunks.toNat).cap := by
    rw [hcurrent.sound.length_leaves pkg.length_chunks, hcurrent.intNchunks_eq]
    simp
  have hsearch := inorderSearch_getCompletedChunks hroom
  unfold bpkgGetCompletedChunks
  simp only [hcompute, hcurrent.tree_eq, hsearch, deref_some, bind, Except.bind, pure, Except.pure]
  exact ⟨_, _, rfl, hcurrent.completed_perm hlen⟩

theorem IsLoaded.minCompleted (h : pkg.IsLoaded bpkg) (hpos : 0 < pkg.hashes.length)
    (hnodup : (pkg.hashes ++ pkg.chunks.map Chunk.hash).Nodup)
    (hname : stripWhitespace bpkg.filename = .ok (some name)) (hfile : files name = some data)
    (hlen : data.length = pkg.length)
    : ∃ qry bpkg' tree,
        bpkgGetMinCompletedHashes files bpkg = .ok (qry, bpkg')
          ∧ bpkg'.tree = some tree
          ∧ (qry.hashes.hashes.head? = some tree.root.info.value
              ↔
            ∀ chunk ∈ pkg.chunks, chunk.complete data = true) := by
  obtain ⟨bpkg', hcompute, _⟩ := h.computeHashes hname hfile hlen
  obtain ⟨tree, chunks, hcurrent⟩ := h.current hname hfile hlen hcompute
  have hroot := hcurrent.root_complete_iff hlen
  have hkey := hcurrent.sound.root_key
  have hnode := hcurrent.sound.nodes _ (self_mem_subtrees _)
  have hleaf : tree.root.isLeaf = false := by
    cases hroot : tree.root with
    | leaf info =>
      rw [hroot] at hkey hnode
      have hge := hnode.1
      simp only [MerkleTreeNode.info] at hkey
      omega
    | inner info left right => rfl
  have hroom : (HashBuf.alloc bpkg'.intNchunks.toNat).hashes.length + tree.root.leaves.length
      ≤ (HashBuf.alloc bpkg'.intNchunks.toNat).cap := by
    rw [hcurrent.sound.length_leaves pkg.length_chunks, hcurrent.intNchunks_eq]
    simp
  have hmin := minHashFind.root (parented_of_nodeSound hcurrent.sound.nodes) hcurrent.sound.root_parent hroom
  have hqry : ∃ qry,
      bpkgGetMinCompletedHashes files bpkg = .ok (qry, bpkg')
        ∧ qry.hashes.hashes
            =
          (tree.root.emitted ++ if tree.root.isLeaf then [] else tree.root.pending).map (·.info.value) := by
    unfold bpkgGetMinCompletedHashes
    simp only [hcompute, hcurrent.tree_eq, hmin, deref_some, bind, Except.bind, pure, Except.pure]
    refine ⟨_, rfl, ?_⟩
    rw [HashBuf.append_hashes, HashBuf.alloc_hashes, List.nil_append]
  obtain ⟨qry, hqry, hhashes⟩ := hqry
  refine ⟨qry, bpkg', tree, hqry, hcurrent.tree_eq, ?_⟩
  rw [← hroot, hhashes]
  constructor
  . intro hstarts
    apply Classical.byContradiction
    intro hnot
    rw [Bool.not_eq_true] at hnot
    obtain ⟨node, hhead, heq⟩ := (startsWithRoot_of_incomplete hnot).mp hstarts
    -- only the root has its string, and it is not emitted
    have hcover := tree.root.emitted_pending_perm.mem_iff.mp
      (List.mem_append_left _ (List.mem_of_mem_head? hhead))
    obtain ⟨hmem, hcomplete, _⟩ := mem_cover.mp hcover
    have hvalues : (tree.root.subtrees.map (·.info.value)).Nodup :=
      (hcurrent.sound.values_perm pkg.length_chunks).nodup_iff.mpr hnodup
    have hsame : node = tree.root := List.inj_on_of_nodup_map hvalues hmem (self_mem_subtrees _) heq
    rw [hsame, hnot] at hcomplete
    exact Bool.false_ne_true hcomplete
  . intro hcomplete
    exact startsWithRoot_of_complete hleaf hcomplete

end Package

end Btide
