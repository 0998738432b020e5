import Btide.Chk.QueryLemmas
import Btide.Crypt.Sha256Lemmas

/-!
This module contains the specification of `compute_hashes_for_chunks`: which hash ends up in which
leaf.
-/

open Bytes CLib

namespace Btide

namespace MerkleTreeNode

def mapInfo (f : NodeInfo → NodeInfo) : MerkleTreeNode → MerkleTreeNode
  | leaf info => leaf (f info)
  | inner info left right => inner (f info) (left.mapInfo f) (right.mapInfo f)

@[simp]
theorem leaves_mapInfo (f : NodeInfo → NodeInfo) (t : MerkleTreeNode)
    : (t.mapInfo f).leaves = t.leaves.map f := by
  induction t with
  | leaf info => rfl
  | inner info left right ihl ihr => simp [mapInfo, ihl, ihr]

theorem mapInfo_mapInfo (f g : NodeInfo → NodeInfo) (t : MerkleTreeNode)
    : (t.mapInfo f).mapInfo g = t.mapInfo fun info => g (f info) := by
  induction t with
  | leaf info => rfl
  | inner info left right ihl ihr => simp [mapInfo, ihl, ihr]

theorem mapInfo_id (t : MerkleTreeNode) : t.mapInfo (fun info => info) = t := by
  induction t with
  | leaf info => rfl
  | inner info left right ihl ihr => simp [mapInfo, ihl, ihr]

@[simp]
theorem info_mapInfo (f : NodeInfo → NodeInfo) (t : MerkleTreeNode) : (t.mapInfo f).info = f t.info := by
  cases t with
  | leaf info => rfl
  | inner info left right => rfl

theorem subtrees_mapInfo (f : NodeInfo → NodeInfo) (t : MerkleTreeNode)
    : (t.mapInfo f).subtrees = t.subtrees.map (·.mapInfo f) := by
  induction t with
  | leaf info => rfl
  | inner info left right ihl ihr =>
    rw [mapInfo, subtrees_inner, subtrees_inner, ihl, ihr, List.map_cons, List.map_append]
    rfl

theorem setComputedHash_eq_mapInfo (ptr : NodePtr) (hash : Bytes) (t : MerkleTreeNode)
    : t.setComputedHash ptr hash
        =
      t.mapInfo fun info => if info.ptr = ptr then { info with computedHash := hash } else info := by
  induction t with
  | leaf info => rfl
  | inner info left right ihl ihr => simp [setComputedHash, mapInfo, ihl, ihr]

end MerkleTreeNode

namespace computeHashesForChunks

/--
What the loop over the blocks does to a node: `ptrs` are the leaves of the blocks.
-/
def rehash (b : Nat) : Bytes → List NodePtr → NodeInfo → NodeInfo
  | _, [], info => info
  | data, ptr :: ptrs, info =>
    if b ≤ data.length then
      rehash b (data.drop b) ptrs
        (if info.ptr = ptr then { info with computedHash := Sha256.digest (data.take b) } else info)
    else
      info

def storedHash (b : Nat) (data : Bytes) (j : Nat) : Bytes :=
  if (j + 1) * b ≤ data.length then Sha256.digest (slice data (j * b) b) else []

def PointTo (entries : List (Option Chunk)) (ptrs : List NodePtr) : Prop :=
  List.Forall₂ (fun entry ptr => ∃ chunk, entry = some chunk ∧ chunk.nodePtr = some ptr) entries ptrs

theorem rehash_cons_of_le {b : Nat} {data : Bytes} (h : b ≤ data.length) (ptr : NodePtr)
    (ptrs : List NodePtr)
    : rehash b data (ptr :: ptrs)
        =
      fun info =>
        rehash b (data.drop b) ptrs
          (if info.ptr = ptr then { info with computedHash := Sha256.digest (data.take b) }
          else info) := by
  funext info
  conv => lhs; unfold rehash
  simp only [h, ↓reduceIte]

theorem rehash_cons_of_lt {b : Nat} {data : Bytes} (h : ¬ b ≤ data.length) (ptr : NodePtr)
    (ptrs : List NodePtr)
    : rehash b data (ptr :: ptrs) = fun info => info := by
  funext info
  unfold rehash
  simp only [h, ↓reduceIte]

theorem rehash_cases {b : Nat} (data : Bytes) (ptrs : List NodePtr)
    (info : NodeInfo) : ∃ hash, rehash b data ptrs info = { info with computedHash := hash } := by
  induction ptrs generalizing data info with
  | nil => exact ⟨info.computedHash, rfl⟩
  | cons ptr ptrs ih =>
    by_cases hlen : b ≤ data.length
    . rw [rehash_cons_of_le hlen]
      dsimp only
      split
      . obtain ⟨hash, heq⟩ := ih (data.drop b) { info with computedHash := Sha256.digest (data.take b) }
        exact ⟨hash, heq⟩
      . exact ih (data.drop b) info
    . rw [rehash_cons_of_lt hlen]
      exact ⟨info.computedHash, rfl⟩

theorem blocks_append {b : Nat} (hb : b < 2 ^ 32) {entries rest : List (Option Chunk)}
    {ptrs : List NodePtr} (hptrs : PointTo entries ptrs)
    (hrest : ∀ chunk, some chunk ∈ rest → chunk.nodePtr = none) {shaBuff : Sha256ComputeData}
    (hsha : shaBuff.lastChunk.length = 64) (data : Bytes) (root : MerkleTreeNode)
    : blocks b shaBuff data root (entries ++ rest)
        =
      if data.length < (entries.length + 1) * b then
        .ok (root.mapInfo (rehash b data ptrs))
      else
        .error (if rest = [] then .outOfBounds else .nullPointer) := by
  induction hptrs generalizing shaBuff data root with
  | nil =>
    rw [List.nil_append, List.length_nil, Nat.zero_add, Nat.one_mul]
    by_cases hlen : b ≤ data.length
    . have hlong : ¬ data.length < b := by omega
      rw [if_neg hlong]
      cases rest with
      | nil => simp [blocks, hlen]
      | cons entry rest =>
        have hblock : (data.take b).length = b := by
          rw [List.length_take]
          omega
        have hhash := Sha256.hashWith_digest hsha (show (data.take b).length < 2 ^ 32 by omega)
        unfold blocks
        simp only [hlen, ↓reduceIte, hhash, bind, Except.bind, reduceCtorEq]
        cases entry with
        | none => rfl
        | some chunk =>
          rw [deref_some]
          dsimp only
          rw [hrest chunk List.mem_cons_self]
          rfl
    . have hlt : data.length < b := by omega
      have hid : rehash b data [] = fun info => info := by
        funext info
        rw [rehash]
      rw [if_pos hlt, hid, MerkleTreeNode.mapInfo_id]
      unfold blocks
      cases rest with
      | nil => simp [hlen]
      | cons entry rest => simp [hlen]
  | @cons entry ptr entries ptrs hentry _ ih =>
    obtain ⟨chunk, rfl, hptr⟩ := hentry
    rw [List.cons_append]
    unfold blocks
    by_cases hlen : b ≤ data.length
    . have hblock : (data.take b).length = b := by
        rw [List.length_take]
        omega
      have hhash := Sha256.hashWith_digest hsha (show (data.take b).length < 2 ^ 32 by omega)
      have hfinal := (Sha256.length_finalState (data.take b)).1
      simp only [hlen, ↓reduceIte, hhash, deref_some, hptr, bind, Except.bind]
      rw [ih hfinal, MerkleTreeNode.setComputedHash_eq_mapInfo, MerkleTreeNode.mapInfo_mapInfo]
      have hcond : (data.drop b).length < (entries.length + 1) * b
          ↔ data.length < ((some chunk :: entries).length + 1) * b := by
        rw [List.length_drop, List.length_cons, Nat.succ_mul (entries.length + 1)]
        omega
      simp only [hcond, rehash_cons_of_le hlen]
    . have hlt : data.length < (entries.length + 1 + 1) * b := by
        rw [Nat.succ_mul]
        omega
      simp [hlen, hlt, rehash_cons_of_lt hlen, MerkleTreeNode.mapInfo_id]

theorem blocks_eq {b : Nat} (hb : b < 2 ^ 32) {entries : List (Option Chunk)} {ptrs : List NodePtr}
    (hptrs : PointTo entries ptrs) {shaBuff : Sha256ComputeData}
    (hsha : shaBuff.lastChunk.length = 64) (data : Bytes) (root : MerkleTreeNode)
    : blocks b shaBuff data root entries
        =
      if data.length < (entries.length + 1) * b then
        .ok (root.mapInfo (rehash b data ptrs))
      else
        .error .outOfBounds := by
  have h := @blocks_append b hb entries [] ptrs hptrs (by simp) shaBuff hsha data root
  rw [List.append_nil, if_pos rfl] at h
  exact h

theorem rehash_of_not_mem {b : Nat} {ptrs : List NodePtr} {info : NodeInfo} (h : info.ptr ∉ ptrs)
    (data : Bytes) : rehash b data ptrs info = info := by
  induction ptrs generalizing data with
  | nil => rfl
  | cons ptr ptrs ih =>
    rw [List.mem_cons, not_or] at h
    by_cases hlen : b ≤ data.length
    . rw [rehash_cons_of_le hlen]
      simp only [h.1, ↓reduceIte, ih h.2]
    . rw [rehash_cons_of_lt hlen]

-- a leaf gets the hash of the block of its chunk, and keeps its old one if the file ends before it
theorem rehash_eq {b j : Nat} {ptrs : List NodePtr} {info : NodeInfo} (hnodup : ptrs.Nodup)
    (hj : ptrs[j]? = some info.ptr) (data : Bytes)
    : rehash b data ptrs info
        =
      { info with
        computedHash :=
          if (j + 1) * b ≤ data.length then Sha256.digest (slice data (j * b) b)
          else info.computedHash } := by
  induction ptrs generalizing j data with
  | nil => simp at hj
  | cons ptr ptrs ih =>
    rw [List.nodup_cons] at hnodup
    cases j with
    | zero =>
      simp only [List.getElem?_cons_zero, Option.some.injEq] at hj
      rw [hj] at hnodup
      by_cases hlen : b ≤ data.length
      . rw [rehash_cons_of_le hlen]
        simp only [hj, ↓reduceIte]
        rw [rehash_of_not_mem]
        . simp [slice, hlen]
        . exact hnodup.1
      . rw [rehash_cons_of_lt hlen]
        simp [hlen]
    | succ j =>
      simp only [List.getElem?_cons_succ] at hj
      have hne : info.ptr ≠ ptr := by
        intro heq
        apply hnodup.1
        rw [← heq]
        exact List.mem_of_getElem? hj
      have hsucc : (j + 1 + 1) * b = (j + 1) * b + b := Nat.succ_mul _ _
      by_cases hlen : b ≤ data.length
      . rw [rehash_cons_of_le hlen]
        simp only [hne, ↓reduceIte]
        rw [ih hnodup.2 hj]
        have hcond : (j + 1) * b ≤ (data.drop b).length ↔ (j + 1 + 1) * b ≤ data.length := by
          rw [List.length_drop]
          omega
        have hslice : slice (data.drop b) (j * b) b = slice data ((j + 1) * b) b := by
          unfold slice
          rw [List.drop_drop, Nat.succ_mul, Nat.add_comm b]
        simp only [hcond, hslice]
      . have hlt : ¬ (j + 1 + 1) * b ≤ data.length := by omega
        rw [rehash_cons_of_lt hlen]
        simp [hlt]

end computeHashesForChunks

open MerkleTreeNode in
theorem inorderSearch_getCompletedChunks {t : MerkleTreeNode} {buf : HashBuf}
    (h : buf.hashes.length + t.leaves.length ≤ buf.cap)
    : inorderSearch getCompletedChunks t buf
        =
      .ok (buf.append
        ((t.leaves.filter (fun info => info.value == info.computedHash)).map (·.value))) := by
  have hlen := congrArg List.length t.leaves_eq_inorder
  have hle : (t.inorder.filter
      (fun node => node.isLeaf && node.info.value == node.info.computedHash)).length
      ≤ (t.inorder.filter (·.isLeaf)).length := by
    apply List.Sublist.length_le
    apply List.monotone_filter_right
    intro node hnode
    exact (Bool.and_eq_true _ _ ▸ hnode).1
  rw [List.length_map] at hlen
  rw [getCompletedChunks_eq_visit, inorderSearch_visit (by omega)]
  rw [← t.leaves_eq_inorder, List.filter_map, List.map_map, List.filter_filter]
  simp [Function.comp_def, Bool.and_comm]

section Sound

open MerkleTreeNode computeHashesForChunks

variable {hashes : List Bytes} {chunks chunks' : List Chunk} {root : MerkleTreeNode}

theorem TreeSound.mapInfo (h : TreeSound hashes chunks root chunks') (f : NodeInfo → NodeInfo)
    (hf : ∀ info, ∃ hash, f info = { info with computedHash := hash })
    : TreeSound hashes chunks (root.mapInfo f) chunks' where
  root_key := by
    obtain ⟨hash, heq⟩ := hf root.info
    rw [info_mapInfo, heq]
    exact h.root_key
  root_parent := by
    obtain ⟨hash, heq⟩ := hf root.info
    rw [info_mapInfo, heq]
    exact h.root_parent
  length_subtrees := by
    rw [subtrees_mapInfo, List.length_map]
    exact h.length_subtrees
  nodup_ptrs := by
    have hptrs : (root.mapInfo f).ptrs = root.ptrs := by
      rw [ptrs, subtrees_mapInfo, List.map_map]
      apply List.map_congr_left
      intro node _
      obtain ⟨hash, heq⟩ := hf node.info
      simp only [Function.comp_apply, info_mapInfo, heq]
    rw [hptrs]
    exact h.nodup_ptrs
  keys_perm := by
    have hkeys : (root.mapInfo f).keys = root.keys := by
      rw [keys, subtrees_mapInfo, List.map_map]
      apply List.map_congr_left
      intro node _
      obtain ⟨hash, heq⟩ := hf node.info
      simp only [Function.comp_apply, info_mapInfo, heq]
    rw [hkeys]
    exact h.keys_perm
  nodes := by
    intro node hnode
    rw [subtrees_mapInfo, List.mem_map] at hnode
    obtain ⟨node, hnode, rfl⟩ := hnode
    have hsound := h.nodes node hnode
    obtain ⟨hash, heq⟩ := hf node.info
    cases node with
    | leaf info =>
      simp only [MerkleTreeNode.info] at heq
      rw [MerkleTreeNode.mapInfo, heq]
      exact hsound
    | inner info left right =>
      obtain ⟨_, heql⟩ := hf left.info
      obtain ⟨_, heqr⟩ := hf right.info
      simp only [MerkleTreeNode.info] at heq
      simp only [MerkleTreeNode.mapInfo, heq, NodeSound, info_mapInfo, heql, heqr]
      exact hsound
  length_chunks := h.length_chunks
  linked := by
    intro j hj
    obtain ⟨info, hinfo, hkey, hget⟩ := h.linked j hj
    obtain ⟨hash, heq⟩ := hf info
    refine ⟨f info, ?_, ?_, ?_⟩
    . rw [leaves_mapInfo]
      exact List.mem_map_of_mem hinfo
    . rw [heq]
      exact hkey
    . rw [heq]
      exact hget

theorem TreeSound.leaf_index (h : TreeSound hashes chunks root chunks') {info : NodeInfo} (hinfo : info ∈ root.leaves)
    : hashes.length ≤ info.key
        ∧ info.key - hashes.length < chunks.length
        ∧ (chunks.map Chunk.hash)[info.key - hashes.length]? = some info.value := by
  obtain ⟨hge, hvalue⟩ := h.nodes _ (mem_leaves.mp hinfo)
  refine ⟨hge, ?_, hvalue⟩
  have := (List.getElem?_eq_some_iff.mp hvalue).1
  rwa [List.length_map] at this

theorem TreeSound.nodup_leaf_keys (h : TreeSound hashes chunks root chunks')
    : (root.leaves.map (·.key)).Nodup := by
  have hkeys : root.keys.Nodup := (h.keys_perm.nodup_iff).mpr List.nodup_range
  exact (leaves_sublist root).nodup hkeys

theorem TreeSound.leaf_indices_perm (h : TreeSound hashes chunks root chunks')
    (hlen : chunks.length = hashes.length + 1)
    : (root.leaves.map (·.key - hashes.length)).Perm (List.range chunks.length) := by
  have hnodup := h.nodup_leaf_keys
  rw [List.perm_ext_iff_of_nodup _ List.nodup_range]
  . intro j
    rw [List.mem_map, List.mem_range]
    constructor
    . rintro ⟨info, hinfo, rfl⟩
      exact (h.leaf_index hinfo).2.1
    . intro hj
      obtain ⟨info, hinfo, hkey, _⟩ := h.linked j (by omega)
      exact ⟨info, hinfo, by omega⟩
  . rw [List.nodup_map_iff_inj_on hnodup.of_map]
    intro a ha b hb heq
    apply List.inj_on_of_nodup_map hnodup ha hb
    have := (h.leaf_index ha).1
    have := (h.leaf_index hb).1
    omega

theorem TreeSound.node_ptr (h : TreeSound hashes chunks root chunks')
    (hlen : chunks.length = hashes.length + 1) {j : Nat} (hj : j < chunks.length)
    : ∃ info ∈ root.leaves, ∃ chunk,
        info.key = hashes.length + j
          ∧ chunks'[j]? = some chunk
          ∧ chunk.nodePtr = some info.ptr := by
  obtain ⟨info, hinfo, hkey, hlinked⟩ := h.linked j (by omega)
  rw [List.getElem?_eq_getElem hj] at hlinked
  exact ⟨info, hinfo, _, hkey, hlinked, rfl⟩

theorem TreeSound.pointTo (h : TreeSound hashes chunks root chunks')
    (hlen : chunks.length = hashes.length + 1)
    : ∃ ptrs : List NodePtr,
        ptrs.Nodup
          ∧ PointTo (chunks'.map some) ptrs
          ∧ ∀ info ∈ root.leaves, ptrs[info.key - hashes.length]? = some info.ptr := by
  have hget {j : Nat} {info : NodeInfo} (hinfo : info ∈ root.leaves)
      (hkey : info.key = hashes.length + j)
      : (chunks'.map (·.nodePtr.getD 0))[j]? = some info.ptr := by
    have hj := (h.leaf_index hinfo).2.1
    obtain ⟨info', hinfo', chunk, hkey', hchunk, hptr⟩ :=
      h.node_ptr hlen (j := j) (by omega)
    have heq := List.inj_on_of_nodup_map h.nodup_leaf_keys hinfo hinfo' (by omega)
    rw [List.getElem?_map, hchunk, Option.map_some, hptr, heq]
    rfl
  refine ⟨chunks'.map (·.nodePtr.getD 0), ?_, ?_, ?_⟩
  . rw [List.nodup_iff_getElem?_ne_getElem?]
    intro i j hij hj heq
    rw [List.length_map, h.length_chunks] at hj
    obtain ⟨infoI, hinfoI, _, hkeyI, _⟩ := h.node_ptr hlen (j := i) (by omega)
    obtain ⟨infoJ, hinfoJ, _, hkeyJ, _⟩ := h.node_ptr hlen hj
    rw [hget hinfoI hkeyI, hget hinfoJ hkeyJ, Option.some.injEq] at heq
    have hleaf : MerkleTreeNode.leaf infoI = .leaf infoJ :=
      List.inj_on_of_nodup_map h.nodup_ptrs (mem_leaves.mp hinfoI) (mem_leaves.mp hinfoJ) heq
    simp only [leaf.injEq] at hleaf
    rw [hleaf] at hkeyI
    omega
  . unfold PointTo
    rw [List.forall₂_map_left_iff, List.forall₂_map_right_iff, List.forall₂_same]
    intro chunk hchunk
    obtain ⟨j, hj, rfl⟩ := List.getElem_of_mem hchunk
    rw [h.length_chunks] at hj
    obtain ⟨_, _, chunk, _, hget, hptr⟩ := h.node_ptr hlen hj
    rw [List.getElem?_eq_some_iff] at hget
    obtain ⟨_, hget⟩ := hget
    refine ⟨_, rfl, ?_⟩
    rw [hget, hptr]
    rfl
  . intro info hinfo
    have hge := (h.leaf_index hinfo).1
    exact hget hinfo (by omega)

theorem TreeSound.completed_perm (h : TreeSound hashes chunks root chunks')
    (hlen : chunks.length = hashes.length + 1) {ptrs : List NodePtr} (hnodup : ptrs.Nodup)
    (hleaves : ∀ info ∈ root.leaves, ptrs[info.key - hashes.length]? = some info.ptr)
    (hfresh : ∀ info ∈ root.leaves, info.computedHash = []) (b : Nat) (data : Bytes)
    : (((root.mapInfo (rehash b data ptrs)).leaves.filter
            (fun info => info.value == info.computedHash)).map (·.value)).Perm
        (((List.range chunks.length).filter
            (fun j => (chunks.map Chunk.hash).getD j [] == storedHash b data j)).map
          ((chunks.map Chunk.hash).getD · [])) := by
  have hvalue : ∀ info ∈ root.leaves,
      rehash b data ptrs info
        = { info with computedHash := storedHash b data (info.key - hashes.length) } := by
    intro info hinfo
    rw [rehash_eq hnodup (hleaves info hinfo), hfresh info hinfo, storedHash]
  have hperm := (h.leaf_indices_perm hlen).filter
    (fun j => (chunks.map Chunk.hash).getD j [] == storedHash b data j)
  have hmap := hperm.map ((chunks.map Chunk.hash).getD · [])
  rw [List.filter_map, List.map_map] at hmap
  refine List.Perm.trans (List.Perm.of_eq ?_) hmap
  rw [leaves_mapInfo, List.filter_map, List.map_map]
  have hfilter : root.leaves.filter
        ((fun info : NodeInfo => info.value == info.computedHash) ∘ rehash b data ptrs)
      = root.leaves.filter
        ((fun j => (chunks.map Chunk.hash).getD j [] == storedHash b data j)
          ∘ fun info => info.key - hashes.length) := by
    apply List.filter_congr
    intro info hinfo
    have hget := (h.leaf_index hinfo).2.2
    simp only [Function.comp_apply, hvalue info hinfo, List.getD_eq_getElem?_getD, hget,
      Option.getD_some]
  rw [hfilter]
  apply List.map_congr_left
  intro info hinfo
  have hinfo := (List.mem_filter.mp hinfo).1
  have hget := (h.leaf_index hinfo).2.2
  simp only [Function.comp_apply, hvalue info hinfo, List.getD_eq_getElem?_getD, hget,
    Option.getD_some]

theorem computeHashesForChunks_of_entries {bpkg : BpkgObj} {tree : MerkleTree} {first : Chunk}
    {entries : List (Option Chunk)} {files : FileSystem} {name data : Bytes} (htree : bpkg.tree = some tree)
    (hchunks : bpkg.chunks = some entries) (hfirst : entries[0]? = some (some first))
    (hname : stripWhitespace bpkg.filename = .ok (some name)) (hfile : files name = some data)
    : computeHashesForChunks files bpkg
        =
      (blocks first.size.toNat Sha256.zeroBuff data tree.root entries).map
        (fun root =>
          { bpkg with filename := some name, tree := some { tree with root := root } }) := by
  have hload := PtrArray.load_some hfirst
  unfold computeHashesForChunks
  cases hfilename : bpkg.filename with
  | none => simp [hfilename] at hname
  | some filename =>
    rw [hfilename] at hname
    simp only [Int.cast_ofNat_Int] at hload
    simp only [hname, hchunks, hload, htree, deref_some, Option.bind_some, hfile, bind,
      Except.bind]
    cases blocks first.size.toNat Sha256.zeroBuff data tree.root entries with
    | error e => rfl
    | ok root => rfl

theorem computeHashesForChunks_of_missing {bpkg : BpkgObj} {first : Chunk}
    {entries : List (Option Chunk)} {files : FileSystem} {name : Bytes}
    (hchunks : bpkg.chunks = some entries) (hfirst : entries[0]? = some (some first))
    (hname : stripWhitespace bpkg.filename = .ok (some name)) (hfile : files name = none)
    : computeHashesForChunks files bpkg = .ok { bpkg with filename := some name } := by
  have hload := PtrArray.load_some hfirst
  unfold computeHashesForChunks
  cases hfilename : bpkg.filename with
  | none => simp [hfilename] at hname
  | some filename =>
    rw [hfilename] at hname
    simp only [Int.cast_ofNat_Int] at hload
    simp only [hname, hchunks, hload, deref_some, Option.bind_some, hfile, bind, Except.bind, pure,
      Except.pure]

theorem getElem?_map_some {l : List α} {i : Nat} {a : α} (h : l[i]? = some a)
    : (l.map some)[i]? = some (some a) := by
  rw [List.getElem?_map, h]
  rfl

theorem computeHashesForChunks_eq {bpkg : BpkgObj} {tree : MerkleTree} {first : Chunk}
    {files : FileSystem} {name data : Bytes} (htree : bpkg.tree = some tree)
    (hchunks : bpkg.chunks = .ofList chunks') (hfirst : chunks'[0]? = some first)
    (hname : stripWhitespace bpkg.filename = .ok (some name)) (hfile : files name = some data)
    : computeHashesForChunks files bpkg
        =
      (blocks first.size.toNat Sha256.zeroBuff data tree.root (chunks'.map some)).map
        (fun root =>
          { bpkg with filename := some name, tree := some { tree with root := root } }) :=
  computeHashesForChunks_of_entries htree hchunks (getElem?_map_some hfirst) hname hfile

theorem computeHashesForChunks_eq_with {files : FileSystem} {bpkg bpkg' : BpkgObj}
    (h : computeHashesForChunks files bpkg = .ok bpkg')
    : ∃ filename tree, stripWhitespace bpkg.filename = .ok filename ∧ bpkg' = { bpkg with filename, tree } := by
  unfold computeHashesForChunks at h
  cases hfilename : bpkg.filename with
  | none => simp [hfilename, throw_eq_ok] at h
  | some filename =>
    simp only [hfilename, bind_eq_ok] at h
    obtain ⟨name, hname, entry, _, chunk, _, h⟩ := h
    split at h
    . rw [pure_eq_ok] at h
      exact ⟨name, bpkg.tree, hname, h.symm⟩
    . simp only [bind_eq_ok, pure_eq_ok] at h
      obtain ⟨entries, _, tree, _, root, _, h⟩ := h
      exact ⟨name, some { tree with root }, hname, h.symm⟩

theorem computeHashesForChunks_frame {files : FileSystem} {bpkg bpkg' : BpkgObj}
    (h : computeHashesForChunks files bpkg = .ok bpkg')
    : bpkg'.ident = bpkg.ident ∧ stripWhitespace bpkg.filename = .ok bpkg'.filename := by
  obtain ⟨filename, tree, hname, heq⟩ := computeHashesForChunks_eq_with h
  rw [heq]
  exact ⟨rfl, hname⟩

theorem stripWhitespace_of_computeHashes {bpkg bpkg' : BpkgObj} {files : FileSystem}
    (h : computeHashesForChunks files bpkg = .ok bpkg')
    : ∃ name, stripWhitespace bpkg.filename = .ok (some name) := by
  unfold computeHashesForChunks at h
  cases hfilename : bpkg.filename with
  | none => simp [hfilename, throw_eq_ok] at h
  | some filename =>
    simp only [hfilename] at h
    cases hname : stripWhitespace (some filename) with
    | error e => simp [hname, bind, Except.bind] at h
    | ok name =>
      cases name with
      | some name => exact ⟨name, rfl⟩
      | none =>
        rw [stripWhitespace] at hname
        split at hname
        . simp at hname
        . split at hname
          . simp at hname
          . simp at hname

theorem bpkgGetCompletedChunks_eq {bpkg : BpkgObj} {tree : MerkleTree} {first : Chunk}
    {files : FileSystem} {name data : Bytes} (h : TreeSound hashes chunks tree.root chunks')
    (hlen : chunks.length = hashes.length + 1)
    (hfresh : ∀ info ∈ tree.root.leaves, info.computedHash = [])
    (htree : bpkg.tree = some tree) (hchunks : bpkg.chunks = .ofList chunks')
    (hnchunks : bpkg.intNchunks = chunks.length) (hfirst : chunks'[0]? = some first)
    (hname : stripWhitespace bpkg.filename = .ok (some name)) (hfile : files name = some data)
    : if data.length < (chunks.length + 1) * first.size.toNat then
        ∃ qry bpkg',
          bpkgGetCompletedChunks files bpkg = .ok (qry, bpkg')
            ∧ qry.len = qry.hashes.hashes.length
            ∧ qry.hashes.hashes.Perm
                (((List.range chunks.length).filter
                    (fun j =>
                      (chunks.map Chunk.hash).getD j [] == storedHash first.size.toNat data j)).map
                  ((chunks.map Chunk.hash).getD · []))
      else
        bpkgGetCompletedChunks files bpkg = .error .outOfBounds := by
  obtain ⟨ptrs, hnodup, hpoint, hleaves⟩ := h.pointTo hlen
  have hblocks := blocks_eq (first.size.toNat_lt) hpoint
    (show Sha256.zeroBuff.lastChunk.length = 64 from rfl) data tree.root
  rw [List.length_map, h.length_chunks] at hblocks
  have hcompute := computeHashesForChunks_eq htree hchunks hfirst hname hfile
  rw [hblocks] at hcompute
  unfold bpkgGetCompletedChunks
  by_cases hlt : data.length < (chunks.length + 1) * first.size.toNat
  . simp only [hlt, ↓reduceIte, Except.map] at hcompute ⊢
    have hcount := (h.leaf_indices_perm hlen).length_eq
    rw [List.length_map, List.length_range] at hcount
    have hcap : (HashBuf.alloc bpkg.intNchunks.toNat).hashes.length
          + (tree.root.mapInfo (rehash first.size.toNat data ptrs)).leaves.length
        ≤ (HashBuf.alloc bpkg.intNchunks.toNat).cap := by
      simp [hnchunks, hcount]
    have hsearch := inorderSearch_getCompletedChunks hcap
    have hperm := h.completed_perm hlen hnodup hleaves hfresh first.size.toNat data
    simp only [hcompute, BpkgObj.intNchunks, bind, Except.bind, deref_some]
    simp only [BpkgObj.intNchunks] at hsearch
    rw [hsearch]
    refine ⟨_, _, rfl, rfl, ?_⟩
    simpa using hperm
  . simp only [hlt, ↓reduceIte, Except.map] at hcompute ⊢
    simp only [hcompute, bind, Except.bind]

end Sound

namespace TreeSound

open MerkleTreeNode HeapTree computeHashesForChunks

variable {hashes : List Bytes} {chunks chunks' : List Chunk} {root : MerkleTreeNode}

theorem length_leaves (h : TreeSound hashes chunks root chunks')
    (hlen : chunks.length = hashes.length + 1) : root.leaves.length = chunks.length := by
  have hperm := (h.leaf_indices_perm hlen).length_eq
  rw [List.length_map, List.length_range] at hperm
  exact hperm

theorem values_perm (h : TreeSound hashes chunks root chunks')
    (hlen : chunks.length = hashes.length + 1)
    : (root.subtrees.map (·.info.value)).Perm (hashes ++ chunks.map Chunk.hash) := by
  have hrange : hashes.length + (chunks.map Chunk.hash).length = 2 * hashes.length + 1 := by
    rw [List.length_map]
    omega
  have hvalue : root.subtrees.map (·.info.value)
      = root.keys.map (valueOf hashes (chunks.map Chunk.hash)) := by
    rw [keys, List.map_map]
    apply List.map_congr_left
    intro node hnode
    have hsound := h.nodes node hnode
    cases node with
    | leaf info =>
      have hlt := (List.getElem?_eq_some_iff.mp hsound.2).1
      have hget := valueOf_ge (i := info.key) hsound.1
        (show info.key < hashes.length + (chunks.map Chunk.hash).length by omega)
      rw [hsound.2, Option.some.injEq] at hget
      exact hget
    | inner info left right =>
      have hget := valueOf_lt hsound.1 (chunks.map Chunk.hash)
      rw [hsound.2.1, Option.some.injEq] at hget
      exact hget
  rw [hvalue, ← map_valueOf, hrange]
  exact h.keys_perm.map _

theorem leaf_values_perm (h : TreeSound hashes chunks root chunks')
    (hlen : chunks.length = hashes.length + 1)
    : (root.leaves.map (·.value)).Perm (chunks.map Chunk.hash) := by
  have hvalue : root.leaves.map (·.value)
      = (root.leaves.map (·.key - hashes.length)).map (valueOf [] (chunks.map Chunk.hash)) := by
    rw [List.map_map]
    apply List.map_congr_left
    intro info hinfo
    have hget := (h.leaf_index hinfo).2.2
    simp only [Function.comp_apply, valueOf, List.nil_append, List.getD_eq_getElem?_getD, hget,
      Option.getD_some]
  have hrange := map_valueOf [] (chunks.map Chunk.hash)
  rw [List.length_nil, Nat.zero_add, List.length_map, List.nil_append] at hrange
  rw [hvalue]
  conv => rhs; rw [← hrange]
  exact (h.leaf_indices_perm hlen).map _

end TreeSound

end Btide
