import Btide.Chk.CompletedChunks
import Btide.Chk.HashesOf
import Btide.Lib.Slots
import Btide.Net.Packages

/-!
This module contains what the lookups of `src/package.c` find in a table that manages a package.
-/

open Bytes CLib

namespace Btide

def Chunk.spans (chunk : Chunk) : Option UInt32 → Bool
  | none => true
  | some off => chunk.offset ≤ off && off ≤ chunk.offset + chunk.size

theorem Chunk.end_of_spans {chunk : Chunk} {off : UInt32} (h : chunk.spans (some off) = true)
    : chunk.offset.toNat ≤ off.toNat
        ∧ off.toNat ≤ (chunk.offset + chunk.size).toNat
        ∧ (chunk.offset + chunk.size).toNat = chunk.offset.toNat + chunk.size.toNat := by
  simp only [Chunk.spans, Bool.and_eq_true, decide_eq_true_eq, UInt32.le_iff_toNat_le] at h
  obtain ⟨hlo, hhi⟩ := h
  have hoff := chunk.offset.toNat_lt
  have hsize := chunk.size.toNat_lt
  refine ⟨hlo, hhi, ?_⟩
  rw [UInt32.toNat_add] at hhi ⊢
  omega

/--
What all copies of a package agree on. Its chunks have one size and tile the data file.
-/
structure Package where
  hashes : List Bytes
  chunks : List Chunk
  chunkSize : Nat
  length_chunks : chunks.length = hashes.length + 1
  tiles : TilesFrom 0 chunks
  size_eq : ∀ chunk ∈ chunks, chunk.size.toNat = chunkSize
  length_hash_le : ∀ chunk ∈ chunks, chunk.hash.length ≤ CHUNK_HASH_SIZE

namespace Package

def length (pkg : Package) : Nat :=
  pkg.chunks.length * pkg.chunkSize

def pick (pkg : Package) (hash : Bytes) (offset : Option UInt32) : Option Chunk :=
  pkg.chunks.find? fun chunk => chunk.hash = hash && chunk.spans offset

variable {pkg : Package}

theorem pick_none (hash : Bytes)
    : pkg.pick hash none = pkg.chunks.find? fun chunk => chunk.hash = hash := by
  simp [pick, Chunk.spans]

theorem offset_eq {j : Nat} {chunk : Chunk} (hj : pkg.chunks[j]? = some chunk)
    : chunk.offset.toNat = j * pkg.chunkSize := by
  rw [pkg.tiles.offset_eq (b := pkg.chunkSize) _ hj, Nat.zero_add]
  intro i _ other hother
  exact pkg.size_eq other (List.mem_of_getElem? hother)

theorem chunkSize_pos : 0 < pkg.chunkSize := by
  have hpos : 0 < pkg.chunks.length := by
    rw [pkg.length_chunks]
    omega
  have hget := List.getElem?_eq_getElem hpos
  rw [← pkg.size_eq _ (List.mem_of_getElem? hget)]
  exact (pkg.tiles.bounds hget).2.1

theorem end_le {j : Nat} {chunk : Chunk} (hj : pkg.chunks[j]? = some chunk)
    : chunk.offset.toNat + pkg.chunkSize ≤ pkg.length := by
  have hlt := (List.getElem?_eq_some_iff.mp hj).1
  rw [offset_eq hj, length, ← Nat.succ_mul]
  exact Nat.mul_le_mul_right _ hlt

theorem chunk_end_le {chunk : Chunk} (hchunk : chunk ∈ pkg.chunks)
    : chunk.offset.toNat + chunk.size.toNat ≤ pkg.length := by
  obtain ⟨k, hk⟩ := List.getElem?_of_mem hchunk
  rw [pkg.size_eq chunk hchunk]
  exact end_le hk

structure IsLoaded (pkg : Package) (bpkg : BpkgObj) : Prop where
  nchunks : bpkg.nchunks.toNat = pkg.chunks.length
  nchunks_le : pkg.chunks.length ≤ INT_MAX
  sound : ∃ tree chunks,
    bpkg.tree = some tree ∧ bpkg.chunks = .ofList chunks
      ∧ TreeSound pkg.hashes pkg.chunks tree.root chunks

end Package

theorem TreeSound.map_nodePtr {hashes : List Bytes} {chunks chunks' : List Chunk}
    {root : MerkleTreeNode} (h : TreeSound hashes chunks root chunks')
    (hlen : chunks.length = hashes.length + 1) {f : Chunk → α}
    (hf : ∀ chunk ptr, f { chunk with nodePtr := ptr } = f chunk)
    : chunks'.map f = chunks.map f := by
  apply List.ext_getElem?
  intro j
  rw [List.getElem?_map, List.getElem?_map]
  by_cases hj : j ≤ hashes.length
  . obtain ⟨info, _, _, hget⟩ := h.linked j hj
    rw [hget, Option.map_map]
    congr 1
    funext chunk
    exact hf chunk _
  . rw [List.getElem?_eq_none, List.getElem?_eq_none]
    . omega
    . rw [h.length_chunks]
      omega

theorem TreeSound.find?_map {hashes : List Bytes} {chunks chunks' : List Chunk}
    {root : MerkleTreeNode} (h : TreeSound hashes chunks root chunks')
    (hlen : chunks.length = hashes.length + 1) {p : Chunk → Bool} {f : Chunk → α}
    (hp : ∀ chunk ptr, p { chunk with nodePtr := ptr } = p chunk)
    (hf : ∀ chunk ptr, f { chunk with nodePtr := ptr } = f chunk)
    : (chunks'.find? p).map f = (chunks.find? p).map f := by
  have herase : chunks'.map (fun chunk => { chunk with nodePtr := none })
      = chunks.map (fun chunk => { chunk with nodePtr := none }) :=
    h.map_nodePtr hlen fun _ _ => rfl
  have hfind := congrArg (fun l => (l.find? p).map f) herase
  simp only [List.find?_map, Option.map_map] at hfind
  have hp' : p ∘ (fun chunk : Chunk => { chunk with nodePtr := none }) = p := by
    funext chunk
    exact hp chunk none
  have hf' : f ∘ (fun chunk : Chunk => { chunk with nodePtr := none }) = f := by
    funext chunk
    exact hf chunk none
  rw [hp', hf'] at hfind
  exact hfind

namespace calculateDataLen

def result (offset : Option UInt32) (chunk : Chunk) : ReqArgs :=
  match offset with
  | some off =>
    { dataLen := chunk.offset + chunk.size - off, ident := [], chunkHash := [], fileOffset := off }
  | none => { dataLen := chunk.size, ident := [], chunkHash := [], fileOffset := chunk.offset }

theorem search_eq (hash : Bytes) (offset : Option UInt32) (chunks : List Chunk)
    : search hash offset (chunks.map some) chunks.length
        =
      .ok ((chunks.find? fun chunk => chunk.hash = hash && chunk.spans offset).map (result offset)) := by
  induction chunks with
  | nil => rfl
  | cons chunk chunks ih =>
    rw [List.map_cons, List.length_cons, search, List.find?_cons]
    simp only [deref_some, bind, Except.bind]
    by_cases hhash : chunk.hash = hash
    . cases offset with
      | none => simp [hhash, Chunk.spans, result, pure, Except.pure]
      | some off =>
        by_cases hin : chunk.offset ≤ off ∧ off ≤ chunk.offset + chunk.size
        . simp [hhash, hin, Chunk.spans, result, pure, Except.pure]
        . have hspans : chunk.spans (some off) = false := by
            rw [← Bool.not_eq_true, Chunk.spans, Bool.and_eq_true, decide_eq_true_eq,
              decide_eq_true_eq]
            exact hin
          simp only [hhash, hin, hspans, ↓reduceIte, ih, decide_true, Bool.true_and]
    . simp only [hhash, ↓reduceIte, ih]
      simp

theorem search_cases {hash : Bytes} {offset : Option UInt32} {entries : List (Option Chunk)} {n : Nat}
    {req : ReqArgs} (h : search hash offset entries n = .ok (some req))
    : ∃ j chunk,
        j < n
          ∧ entries[j]? = some (some chunk)
          ∧ chunk.hash = hash
          ∧ chunk.spans offset = true
          ∧ req = result offset chunk := by
  induction n generalizing entries with
  | zero => simp [search] at h
  | succ n ih =>
    cases entries with
    | nil => simp [search] at h
    | cons entry entries =>
      unfold search at h
      simp only [bind_eq_ok, deref_eq_ok] at h
      obtain ⟨chunk, hentry, h⟩ := h
      have hrest (h : search hash offset entries n = .ok (some req))
          : ∃ j chunk,
              j < n + 1
                ∧ (entry :: entries)[j]? = some (some chunk)
                ∧ chunk.hash = hash
                ∧ chunk.spans offset = true
                ∧ req = result offset chunk := by
        obtain ⟨j, chunk, hj, hget, hchunk⟩ := ih h
        refine ⟨j + 1, chunk, by omega, ?_, hchunk⟩
        rw [List.getElem?_cons_succ]
        exact hget
      split at h
      . next hhash =>
        cases offset with
        | none =>
          simp only [pure_eq_ok, Option.some.injEq] at h
          exact ⟨0, chunk, by omega, by rw [hentry]; rfl, hhash, rfl, h.symm⟩
        | some off =>
          dsimp only at h
          split at h
          . next hin =>
            simp only [pure_eq_ok, Option.some.injEq] at h
            refine ⟨0, chunk, by omega, by rw [hentry]; rfl, hhash, ?_, h.symm⟩
            simp [Chunk.spans, hin]
          . exact hrest h
      . exact hrest h

end calculateDataLen

def BpkgObj.HasChunk (bpkg : BpkgObj) (chunk : Chunk) : Prop :=
  ∃ entries j, bpkg.chunks = some entries ∧ j < bpkg.nchunks.toNat ∧ entries[j]? = some (some chunk)

theorem calculateDataLen_cases {bpkg : BpkgObj} {hash : Bytes} {offset : Option UInt32} {req : ReqArgs}
    (h : calculateDataLen bpkg hash offset = .ok (some req))
    : ∃ chunk,
        bpkg.HasChunk chunk
          ∧ chunk.hash = hash
          ∧ chunk.spans offset = true
          ∧ req = calculateDataLen.result offset chunk := by
  unfold calculateDataLen at h
  split at h
  . next entries hentries =>
    obtain ⟨j, chunk, hj, hget, hchunk⟩ := calculateDataLen.search_cases h
    exact ⟨chunk, ⟨entries, j, hentries, hj, hget⟩, hchunk⟩
  . split at h
    . simp at h
    . cases h

theorem calculateDataLen_of_list {bpkg : BpkgObj} {chunks : List Chunk} (hchunks : bpkg.chunks = .ofList chunks)
    (hnchunks : bpkg.nchunks.toNat = chunks.length) (hash : Bytes) (offset : Option UInt32)
    : calculateDataLen bpkg hash offset
        =
      .ok ((chunks.find? fun chunk => chunk.hash = hash && chunk.spans offset).map
        (calculateDataLen.result offset)) := by
  unfold calculateDataLen
  rw [hchunks, hnchunks]
  exact calculateDataLen.search_eq hash offset chunks

namespace Package.IsLoaded

variable {pkg : Package} {bpkg : BpkgObj}

theorem calculateDataLen_eq (h : pkg.IsLoaded bpkg) (hash : Bytes) (offset : Option UInt32)
    : calculateDataLen bpkg hash offset
        =
      .ok ((pkg.pick hash offset).map (calculateDataLen.result offset)) := by
  obtain ⟨tree, chunks, _, hchunks, hsound⟩ := h.sound
  have hlen : bpkg.nchunks.toNat = chunks.length := by rw [h.nchunks, hsound.length_chunks]
  rw [calculateDataLen_of_list hchunks hlen, Package.pick]
  congr 1
  apply hsound.find?_map pkg.length_chunks
  . intro chunk ptr
    rfl
  . intro chunk ptr
    cases offset with
    | none => rfl
    | some off => rfl

end Package.IsLoaded

namespace getDataFromFile

def Stored (root : MerkleTreeNode) (chunks : List Chunk) (stored : List Bytes) : Prop :=
  List.Forall₂ (fun chunk hash => ∃ ptr node, chunk.nodePtr = some ptr
    ∧ root.subtrees.find? (·.info.ptr = ptr) = some node ∧ node.info.computedHash = hash) chunks stored

theorem computed_eq {root : MerkleTreeNode} {chunks : List Chunk} {stored : List Bytes}
    (h : Stored root chunks stored) (hash : Bytes)
    : computed root hash (chunks.map some) chunks.length = .ok (stored.contains hash) := by
  induction h with
  | nil => rfl
  | @cons chunk first chunks stored hchunk _ ih =>
    obtain ⟨ptr, node, hptr, hnode, hfirst⟩ := hchunk
    rw [List.map_cons, List.length_cons, computed]
    simp only [deref_some, hptr, hnode, hfirst, ih, bind, Except.bind, pure, Except.pure]
    rw [List.contains_cons]
    by_cases heq : first = hash
    . simp [heq]
    . have hne : (hash == first) = false := by
        rw [beq_eq_false_iff_ne]
        exact fun h => heq h.symm
      simp [heq, hne]

end getDataFromFile

namespace Package

open MerkleTreeNode computeHashesForChunks getDataFromFile

def digests (pkg : Package) (data : Bytes) : List Bytes :=
  pkg.chunks.map fun chunk => Sha256.digest (slice data chunk.offset.toNat chunk.size.toNat)

def Hashed (pkg : Package) (bpkg : BpkgObj) (data : Bytes) : Prop :=
  ∀ hash tree entries, bpkg.tree = some tree → bpkg.chunks = some entries
    → computed tree.root hash entries bpkg.nchunks.toNat = .ok ((pkg.digests data).contains hash)

variable {pkg : Package} {bpkg : BpkgObj}

theorem IsLoaded.computeHashes (h : pkg.IsLoaded bpkg) {files : FileSystem} {name data : Bytes}
    (hname : stripWhitespace bpkg.filename = .ok (some name)) (hfile : files name = some data)
    (hlen : data.length = pkg.length)
    : ∃ bpkg',
        computeHashesForChunks files bpkg = .ok bpkg'
          ∧ pkg.IsLoaded bpkg'
          ∧ pkg.Hashed bpkg' data
          ∧ bpkg'.ident = bpkg.ident
          ∧ bpkg'.filename = some name := by
  obtain ⟨tree, chunks, htree, hchunks, hsound⟩ := h.sound
  obtain ⟨ptrs, hnodup, hpoint, hleaves⟩ := hsound.pointTo pkg.length_chunks
  have hsizes : ∀ chunk ∈ chunks, chunk.size.toNat = pkg.chunkSize := by
    have hmap := hsound.map_nodePtr pkg.length_chunks (f := fun chunk => chunk.size.toNat)
      fun _ _ => rfl
    intro chunk hchunk
    have hmem := List.mem_map_of_mem (f := fun chunk : Chunk => chunk.size.toNat) hchunk
    rw [hmap, List.mem_map] at hmem
    obtain ⟨other, hother, heq⟩ := hmem
    rw [← heq]
    exact pkg.size_eq other hother
  have hpos : 0 < chunks.length := by
    rw [hsound.length_chunks, pkg.length_chunks]
    omega
  have hfirst := List.getElem?_eq_getElem hpos
  have hsize := hsizes _ (List.mem_of_getElem? hfirst)
  have hblocks := blocks_eq (UInt32.toNat_lt _) hpoint
    (show Sha256.zeroBuff.lastChunk.length = 64 from rfl) data tree.root (b := chunks[0].size.toNat)
  have hcompute := computeHashesForChunks_eq htree hchunks hfirst hname hfile
  have hroom : data.length < ((chunks.map some).length + 1) * pkg.chunkSize := by
    have := pkg.chunkSize_pos
    rw [hlen, Package.length, List.length_map, hsound.length_chunks, Nat.succ_mul]
    omega
  rw [hsize] at hblocks hcompute
  rw [hblocks, if_pos hroom] at hcompute
  have hsound' := hsound.mapInfo (rehash pkg.chunkSize data ptrs) (rehash_cases data ptrs)
  refine ⟨_, hcompute, ⟨h.nchunks, h.nchunks_le, _, chunks, rfl, hchunks, hsound'⟩, ?_, rfl, rfl⟩
  intro hash tree' entries htree' hentries
  simp only [Option.some.injEq] at htree'
  simp only [hchunks, PtrArray.ofList, Option.some.injEq] at hentries
  rw [← htree', ← hentries]
  have hstored : Stored (tree.root.mapInfo (rehash pkg.chunkSize data ptrs)) chunks (pkg.digests data) := by
    unfold Stored digests
    rw [List.forall₂_iff_get]
    refine ⟨by rw [List.length_map, hsound.length_chunks], ?_⟩
    intro j hj hj'
    rw [hsound.length_chunks] at hj
    obtain ⟨info, hinfo, chunk, hkey, hget, hptr⟩ := hsound.node_ptr pkg.length_chunks hj
    have hchunk := (List.getElem?_eq_some_iff.mp hget).2
    have hold := List.getElem?_eq_getElem hj
    have hleaf := hleaves info hinfo
    have hoffset := Package.offset_eq hold
    have hend := Package.end_le hold
    rw [hkey, Nat.add_sub_cancel_left] at hleaf
    rw [hoffset, ← Nat.succ_mul, ← hlen] at hend
    have hrehash := rehash_eq hnodup hleaf data (b := pkg.chunkSize)
    rw [if_pos hend] at hrehash
    have hmem : .leaf (rehash pkg.chunkSize data ptrs info)
        ∈ (tree.root.mapInfo (rehash pkg.chunkSize data ptrs)).subtrees := by
      rw [← mem_leaves, leaves_mapInfo]
      exact List.mem_map_of_mem hinfo
    have hfind := find?_of_nodup_map hsound'.nodup_ptrs hmem
    simp only [MerkleTreeNode.info, hrehash] at hfind
    refine ⟨info.ptr, _, ?_, hfind, ?_⟩
    . rw [List.get_eq_getElem, hchunk]
      exact hptr
    . have hchunkSize := pkg.size_eq _ (List.mem_of_getElem? hold)
      simp only [MerkleTreeNode.info, List.get_eq_getElem, List.getElem_map, hoffset, hchunkSize]
  have hcomputed := computed_eq hstored hash
  rw [hsound.length_chunks, ← h.nchunks] at hcomputed
  exact hcomputed

end Package

open MerkleTreeNode

structure Manages (packages : ManagedPackages) (ident : Bytes) (slot : Nat) (bpkg : BpkgObj) : Prop where
  slot_eq : packages[slot]? = some (some bpkg)
  ident_eq : ∃ current, bpkg.ident = some current ∧ strncmpEq current ident 20 = true
  first : ∀ i < slot, ∀ other, packages[i]? = some (some other) →
    ∃ current, other.ident = some current ∧ strncmpEq current ident 20 = false

namespace Manages

variable {packages : ManagedPackages} {ident : Bytes} {slot : Nat} {bpkg : BpkgObj} {pkg : Package}

theorem tail {entry : Option BpkgObj} (h : Manages (entry :: packages) ident (slot + 1) bpkg)
    : Manages packages ident slot bpkg where
  slot_eq := by
    rw [← h.slot_eq, List.getElem?_cons_succ]
  ident_eq := h.ident_eq
  first := by
    intro i hi other hother
    apply h.first (i + 1) (by omega) other
    rw [List.getElem?_cons_succ]
    exact hother

theorem cons (h : Manages packages ident slot bpkg) {entry : Option BpkgObj}
    (hentry : ∀ other, entry = some other
      → ∃ current, other.ident = some current ∧ strncmpEq current ident 20 = false)
    : Manages (entry :: packages) ident (slot + 1) bpkg where
  slot_eq := by
    rw [List.getElem?_cons_succ]
    exact h.slot_eq
  ident_eq := h.ident_eq
  first := Slots.forall_lt_cons hentry h.first

theorem exists_or (hident : ∀ other, some other ∈ packages → other.ident.isSome) (ident : Bytes)
    : (∃ slot bpkg, Manages packages ident slot bpkg)
        ∨ ∀ hash start, chunkInMemory.search ident hash start packages = .ok .noPackage := by
  induction packages with
  | nil => exact .inr fun _ _ => rfl
  | cons entry packages ih =>
    have hrest := ih fun other hother => hident other (List.mem_cons_of_mem _ hother)
    cases entry with
    | none =>
      cases hrest with
      | inl hmanages =>
        obtain ⟨slot, bpkg, hmanages⟩ := hmanages
        exact .inl ⟨slot + 1, bpkg, hmanages.cons fun other hother => by cases hother⟩
      | inr hnone => exact .inr fun hash start => hnone hash (start + 1)
    | some first =>
      obtain ⟨current, hcurrent⟩ := Option.isSome_iff_exists.mp (hident first List.mem_cons_self)
      cases hmatch : strncmpEq current ident 20 with
      | true =>
        refine .inl ⟨0, first, rfl, ⟨current, hcurrent, hmatch⟩, ?_⟩
        intro i hi
        omega
      | false =>
        cases hrest with
        | inl hmanages =>
          obtain ⟨slot, bpkg, hmanages⟩ := hmanages
          refine .inl ⟨slot + 1, bpkg, hmanages.cons ?_⟩
          intro other hother
          rw [Option.some.injEq] at hother
          rw [← hother]
          exact ⟨current, hcurrent, hmatch⟩
        | inr hnone =>
          refine .inr ?_
          intro hash start
          rw [chunkInMemory.search]
          simp only [hcurrent, hmatch]
          exact hnone hash (start + 1)

theorem search_eq (h : Manages packages ident slot bpkg) {tree : MerkleTree}
    (htree : bpkg.tree = some tree) {qry : BpkgQuery}
    (hqry : bpkgGetAllChunkHashesFromHash bpkg tree.root.info.value = .ok (some qry))
    (hash : Bytes) (start : Nat)
    : chunkInMemory.search ident hash start packages
        =
      .ok (if qry.hashes.hashes.contains hash then .found (start + slot) else .noHash) := by
  induction packages generalizing slot start with
  | nil =>
    have := h.slot_eq
    simp at this
  | cons entry packages ih =>
    cases slot with
    | zero =>
      have hentry := h.slot_eq
      obtain ⟨current, hident, hmatch⟩ := h.ident_eq
      rw [List.getElem?_cons_zero, Option.some.injEq] at hentry
      rw [hentry, chunkInMemory.search]
      simp only [hident, hmatch, htree, hqry, deref_some, bind, Except.bind, pure, Except.pure,
        ↓reduceIte, Nat.add_zero]
      split
      . rfl
      . rfl
    | succ slot =>
      have hnext : start + (slot + 1) = start + 1 + slot := by omega
      rw [hnext, ← ih h.tail (start + 1)]
      cases entry with
      | none => rfl
      | some other =>
        obtain ⟨current, hident, hmatch⟩ := h.first 0 (by omega) other rfl
        rw [chunkInMemory.search]
        simp only [hident, hmatch, bind, Except.bind]
        rfl

theorem chunkInMemory_of_query (h : Manages packages ident slot bpkg) {tree : MerkleTree}
    (htree : bpkg.tree = some tree) {qry : BpkgQuery}
    (hqry : bpkgGetAllChunkHashesFromHash bpkg tree.root.info.value = .ok (some qry)) (hash : Bytes)
    : chunkInMemory packages ident hash
        =
      .ok (if qry.hashes.hashes.contains hash then .found slot else .noHash) := by
  unfold chunkInMemory
  rw [h.search_eq htree hqry, Nat.zero_add]

theorem chunkInMemory_cases (h : Manages packages ident slot bpkg) (hpkg : pkg.IsLoaded bpkg)
    (hash : Bytes)
    : chunkInMemory packages ident hash = .ok (.found slot)
        ∨ chunkInMemory packages ident hash = .ok .noHash := by
  obtain ⟨tree, chunks, htree, _, hsound⟩ := hpkg.sound
  have hroom : ∀ node ∈ tree.root.subtrees, node.leaves.length ≤ bpkg.intNchunks.toNat := by
    intro node hnode
    rw [BpkgObj.intNchunks, hpkg.nchunks, toInt_of_le hpkg.nchunks_le, Int.toNat_natCast,
      ← hsound.length_leaves pkg.length_chunks]
    exact length_leaves_le hnode
  have hqry := @bpkgGetAllChunkHashesFromHash_eq _ _ tree.root.info.value htree fun node hnode =>
    hroom node (mem_of_inorderFindNode hnode)
  cases hfind : inorderFindNode tree.root.info.value tree.root with
  | none =>
    rw [inorderFindNode_eq_none] at hfind
    exact absurd (List.mem_map_of_mem (self_mem_subtrees _)) hfind
  | some node =>
    rw [hfind] at hqry
    rw [h.chunkInMemory_of_query htree hqry]
    split
    . exact .inl rfl
    . exact .inr rfl

end Manages

theorem Manages.chunkInMemory_eq {packages : ManagedPackages} {ident : Bytes} {slot : Nat}
    {bpkg : BpkgObj} {pkg : Package} (h : Manages packages ident slot bpkg) (hpkg : pkg.IsLoaded bpkg)
    (hnodup : (pkg.hashes ++ pkg.chunks.map Chunk.hash).Nodup) (hash : Bytes)
    : chunkInMemory packages ident hash
        =
      .ok (if hash ∈ pkg.chunks.map Chunk.hash then .found slot else .noHash) := by
  obtain ⟨tree, chunks, htree, _, hsound⟩ := hpkg.sound
  have hleaves := hsound.length_leaves pkg.length_chunks
  have hvalues := hsound.values_perm pkg.length_chunks
  have hroom : tree.root.leaves.length ≤ bpkg.intNchunks.toNat := by
    rw [BpkgObj.intNchunks, hpkg.nchunks, toInt_of_le hpkg.nchunks_le, Int.toNat_natCast, hleaves]
  have hqry := bpkgGetAllChunkHashesFromHash_node htree (hvalues.nodup_iff.mpr hnodup)
    (self_mem_subtrees _) hroom
  have hmem := (hsound.leaf_values_perm pkg.length_chunks).mem_iff (a := hash)
  rw [h.chunkInMemory_of_query htree hqry]
  simp only [HashBuf.append, HashBuf.alloc, List.nil_append, List.contains_iff_mem, hmem]

theorem Manages.chunkInMemory_found {packages : ManagedPackages} {ident : Bytes} {slot : Nat}
    {bpkg : BpkgObj} {pkg : Package} (h : Manages packages ident slot bpkg) (hpkg : pkg.IsLoaded bpkg)
    (hnodup : (pkg.hashes ++ pkg.chunks.map Chunk.hash).Nodup) {chunk : Chunk}
    (hchunk : chunk ∈ pkg.chunks)
    : chunkInMemory packages ident chunk.hash = .ok (.found slot) := by
  rw [h.chunkInMemory_eq hpkg hnodup, if_pos (List.mem_map_of_mem hchunk)]

namespace Package

theorem exists_isLoaded (pkg : Package) (hn : pkg.hashes.length < 2 ^ 30)
    : ∃ tree chunks,
        createTree (.ofList pkg.hashes) pkg.hashes.length (.ofList pkg.chunks) pkg.chunks.length
            =
          .ok (tree, .ofList chunks)
          ∧ ∀ bpkg : BpkgObj,
              bpkg.tree = some tree
                →
              bpkg.chunks = .ofList chunks
                →
              bpkg.nchunks.toNat = pkg.chunks.length
                →
              pkg.IsLoaded bpkg := by
  obtain ⟨root, htree, hbuilt, hptrs, _⟩ := createTree_spec hn pkg.length_chunks
  refine ⟨_, _, htree, ?_⟩
  intro bpkg hbpkg hchunks hnchunks
  have hlength := pkg.length_chunks
  refine ⟨hnchunks, by unfold INT_MAX; omega, _, _, hbpkg, hchunks, ?_⟩
  exact treeSound_of_built pkg.length_chunks hbuilt hptrs

theorem exists_isLoaded_of_bpkgLoad {obj bpkg : BpkgObj} {text : Bytes} {dir : Option Bytes}
    {chunks : List Chunk} {b : Nat} (hload : bpkgLoad obj (some text) dir = .ok (some bpkg))
    (hcount : bpkg.nchunks.toNat = bpkg.nhashes.toNat + 1) (hchunks : bpkg.chunks = .ofList chunks)
    (htiles : TilesFrom 0 chunks) (hsize : ∀ chunk ∈ chunks, chunk.size.toNat = b)
    : ∃ pkg : Package,
        pkg.IsLoaded bpkg
          ∧ pkg.chunkSize = b
          ∧ pkg.chunks.map (fun chunk => (chunk.hash, chunk.offset, chunk.size))
              =
            chunks.map (fun chunk => (chunk.hash, chunk.offset, chunk.size)) := by
  obtain ⟨hashes, chunks₀, tree, htree, hsound, hlen, hhash, _, hn, hfits⟩ :=
    treeSound_of_bpkgLoad hload hcount hchunks
  have hranges : chunks.map (fun chunk => (chunk.offset, chunk.size))
      = chunks₀.map (fun chunk => (chunk.offset, chunk.size)) :=
    hsound.map_nodePtr hlen fun _ _ => rfl
  have hfields : chunks.map (fun chunk => (chunk.hash, chunk.offset, chunk.size))
      = chunks₀.map (fun chunk => (chunk.hash, chunk.offset, chunk.size)) :=
    hsound.map_nodePtr hlen fun _ _ => rfl
  have hsize₀ : ∀ chunk ∈ chunks₀, chunk.size.toNat = b := by
    intro chunk hchunk
    have hmem := List.mem_map_of_mem (f := fun chunk : Chunk => (chunk.offset, chunk.size)) hchunk
    rw [← hranges, List.mem_map] at hmem
    obtain ⟨other, hother, heq⟩ := hmem
    rw [Prod.mk.injEq] at heq
    rw [← heq.2]
    exact hsize other hother
  have hfits₀ : ∀ chunk ∈ chunks₀, chunk.hash.length ≤ CHUNK_HASH_SIZE := by
    intro chunk hchunk
    have hmem := List.mem_map_of_mem (f := Chunk.hash) hchunk
    rw [← hhash, List.mem_map] at hmem
    obtain ⟨other, hother, heq⟩ := hmem
    rw [← heq]
    exact (hfits other hother).2
  have hlt := bpkg.nchunks.toNat_lt
  -- the number of chunks survives the conversion to an int
  have hn' : bpkg.nchunks.toNat = chunks₀.length ∧ chunks₀.length ≤ INT_MAX := by
    unfold BpkgObj.intNchunks toInt Int.bmod at hn
    unfold INT_MAX
    dsimp only at hn
    split at hn
    . omega
    . omega
  refine ⟨⟨hashes, chunks₀, b, hlen, htiles.congr hranges, hsize₀, hfits₀⟩,
    ⟨hn'.1, hn'.2, tree, chunks, htree, hchunks, hsound⟩, rfl, hfields.symm⟩

end Package

end Btide
