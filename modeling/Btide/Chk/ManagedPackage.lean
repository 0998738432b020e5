import Btide.Chk.CompletedChunks

/-!
This module contains the objects that a package can become after it was loaded, and the shape that
all of them have, also if the text announces more chunks than its tree has leaves.
-/

open Bytes CLib

namespace Btide

open bpkgLoad

namespace insertNode

def InsertState.append (st : InsertState) (rest : List (Option Chunk)) : InsertState :=
  { st with chunks := st.chunks.map (· ++ rest) }

theorem load_append {entries : PtrArray α} {i : Int} {entry : Option α} (h : entries.load i = .ok entry)
    (rest : List (Option α))
    : PtrArray.load (entries.map (· ++ rest)) i = .ok entry := by
  rw [PtrArray.load_eq_ok] at h ⊢
  obtain ⟨hpos, list, hlist, hget⟩ := h
  refine ⟨hpos, list ++ rest, by rw [hlist]; rfl, ?_⟩
  rw [List.getElem?_append_left (List.getElem?_eq_some_iff.mp hget).1]
  exact hget

theorem set_append {entries : PtrArray α} {i : Int} {entry : Option α} (h : entries.load i = .ok entry)
    (rest : List (Option α)) (a : Option α)
    : (entries.map (· ++ rest)).map (·.set i.toNat a) = (entries.map (·.set i.toNat a)).map (· ++ rest) := by
  rw [PtrArray.load_eq_ok] at h
  obtain ⟨_, list, hlist, hget⟩ := h
  rw [hlist]
  simp only [Option.map_some]
  rw [List.set_append_left _ _ (List.getElem?_eq_some_iff.mp hget).1]

theorem append {hashes : PtrArray Bytes} {n : Int} {parent : Option NodePtr} {i : Nat}
    {st st' : InsertState} {t : MerkleTreeNode} (h : insertNode hashes n parent i st = .ok (t, st'))
    (rest : List (Option Chunk))
    : insertNode hashes n parent i (InsertState.append st rest)
        =
      .ok (t, InsertState.append st' rest) := by
  unfold insertNode at h ⊢
  by_cases hi : (i : Int) < n
  . simp only [hi, ↓reduceDIte, bind_eq_ok] at h ⊢
    obtain ⟨entry, hload, h⟩ := h
    refine ⟨entry, hload, ?_⟩
    cases entry with
    | none => simp [throw_eq_ok] at h
    | some value =>
      simp only [bind_eq_ok] at h ⊢
      obtain ⟨key, hkey, ⟨left, st₁⟩, hleft, last, hlast, ⟨right, st₂⟩, hright, h⟩ := h
      rw [pure_eq_ok, Prod.mk.injEq] at h
      have hleft' := append hleft rest
      have hright' := append hright rest
      refine ⟨key, hkey, (left, InsertState.append st₁ rest), hleft', last, hlast,
        (right, InsertState.append st₂ rest), hright', ?_⟩
      rw [← h.1, ← h.2]
      rfl
  . simp only [hi, ↓reduceDIte, bind_eq_ok] at h ⊢
    obtain ⟨entry, hload, chunk, hchunk, h⟩ := h
    refine ⟨entry, load_append hload rest, chunk, hchunk, ?_⟩
    rw [pure_eq_ok, Prod.mk.injEq] at h
    rw [← h.1, ← h.2]
    unfold InsertState.append
    dsimp only
    rw [set_append hload]
    rfl
termination_by (n - i).toNat

end insertNode

theorem createTree_append {hashes : PtrArray Bytes} {n m m' : Int} {entries : PtrArray Chunk}
    {rest : List (Option Chunk)} {res res' : MerkleTree × PtrArray Chunk}
    (h : createTree hashes n entries m = .ok res)
    (h' : createTree hashes n (entries.map (· ++ rest)) m' = .ok res')
    : res'.1.root = res.1.root ∧ res'.2 = res.2.map (· ++ rest) := by
  unfold createTree at h h'
  simp only [bind_eq_ok, pure_eq_ok] at h h'
  obtain ⟨⟨root, st⟩, hroot, nodes, _, hres⟩ := h
  obtain ⟨⟨root', st'⟩, hroot', nodes', _, hres'⟩ := h'
  have happend := insertNode.append hroot rest
  unfold insertNode.InsertState.append at happend
  dsimp only at happend
  rw [hroot', Except.ok.injEq, Prod.mk.injEq] at happend
  rw [← hres, ← hres']
  dsimp only
  rw [happend.1, happend.2]
  exact ⟨rfl, rfl⟩

theorem linkChunks.forall_hash {n : Nat} {leaves : List NodeInfo} {chunks : List Chunk} {P : Bytes → Prop}
    (h : ∀ chunk ∈ chunks, P chunk.hash) : ∀ chunk ∈ linkChunks n leaves chunks, P chunk.hash := by
  intro chunk hchunk
  have hmem := List.mem_map_of_mem (f := Chunk.hash) hchunk
  rw [linkChunks.map_hash, List.mem_map] at hmem
  obtain ⟨other, hother, heq⟩ := hmem
  rw [← heq]
  exact h other hother

/--
The array of chunks has a part whose entries have leaves, and a rest.
-/
structure PackageShape (hashes : List Bytes) (chunks₀ chunks : List Chunk)
    (rest : List (Option Chunk)) (tree : MerkleTree) (bpkg : BpkgObj) : Prop where
  tree_eq : bpkg.tree = some tree
  chunks_eq : bpkg.chunks = some (chunks.map some ++ rest)
  nhashes_eq : bpkg.nhashes.toNat = hashes.length
  nhashes_lt : hashes.length < 2 ^ 30
  nchunks_eq : bpkg.nchunks.toNat = chunks.length + rest.length
  nchunks_le : bpkg.nchunks.toNat ≤ INT_MAX
  length_chunks : chunks₀.length = hashes.length + 1
  sound : TreeSound hashes chunks₀ tree.root chunks
  unlinked : ∀ chunk, some chunk ∈ rest → chunk.nodePtr = none
  hash_eq : chunks.map Chunk.hash = chunks₀.map Chunk.hash
  hash_ok : ∀ chunk ∈ chunks, chunk.hash ≠ [] ∧ chunk.hash.length ≤ 64

theorem packageShape_of_bpkgLoad {obj bpkg : BpkgObj} {text : Bytes} {dir : Option Bytes}
    (hload : bpkgLoad obj (some text) dir = .ok (some bpkg))
    : ∃ hashes chunks₀ chunks rest tree, PackageShape hashes chunks₀ chunks rest tree bpkg := by
  obtain ⟨l, c, tree, chunksPtr, _, hparses, htree, hbpkg⟩ := bpkgLoad_cases hload
  have hassigned := createTree_assigned htree (Nat.le_refl _)
  rw [assigned_prefixArray, ← hparses.length_hashes] at hassigned
  have hle := hparses.length_chunks
  have hmax := hparses.nchunks_le
  have hfront : (c.chunks.take (c.hashes.length + 1)).length = c.hashes.length + 1 := by
    rw [List.length_take]
    omega
  have hsmall : c.hashes.length < 2 ^ 30 := by
    unfold createTree at htree
    simp only [bind_eq_ok] at htree
    obtain ⟨_, _, nodes, hnodes, _⟩ := htree
    unfold intAdd at hnodes
    split at hnodes
    . next hbounds =>
      have := hparses.length_hashes
      unfold INT_MAX at hbounds
      omega
    . cases hnodes
  obtain ⟨root, hspec, hbuilt, hptrs, _⟩ := createTree_spec hsmall hfront
  -- the array is the part with leaves and a rest
  have harray : some (prefixArray c.chunks (l.nchunks.toNat - c.chunks.length))
      = (PtrArray.ofList (c.chunks.take (c.hashes.length + 1))).map
        (· ++ ((c.chunks.drop (c.hashes.length + 1)).map some
          ++ List.replicate (l.nchunks.toNat - c.chunks.length) none)) := by
    simp only [PtrArray.ofList, Option.map_some, prefixArray]
    rw [← List.append_assoc, ← List.map_append, List.take_append_drop]
  rw [harray, ← hparses.length_hashes] at htree
  obtain ⟨hroot, hchunks⟩ := createTree_append hspec htree
  dsimp only at hroot hchunks
  have hlink := forall_of_forall₂ hparses.chunks fun _ _ => nodePtr_of_readChunk
  have hhash := forall_of_forall₂ hparses.chunks fun _ _ => hash_of_readChunk
  refine ⟨c.hashes, c.chunks.take (c.hashes.length + 1),
    linkChunks c.hashes.length root.leaves (c.chunks.take (c.hashes.length + 1)),
    (c.chunks.drop (c.hashes.length + 1)).map some
      ++ List.replicate (l.nchunks.toNat - c.chunks.length) none, tree, ?_⟩
  constructor
  . rw [hbpkg]
  . rw [hbpkg]
    exact hchunks
  . rw [hbpkg]
    exact hparses.length_hashes.symm
  . exact hsmall
  . rw [hbpkg]
    simp only [Layout.finalState, linkChunks.length, hfront, List.length_append, List.length_map,
      List.length_drop, List.length_replicate]
    omega
  . rw [hbpkg]
    exact hmax
  . exact hfront
  . rw [hroot]
    exact treeSound_of_built hfront hbuilt hptrs
  . intro chunk hchunk
    simp only [List.mem_append, List.mem_map, Option.some.injEq, exists_eq_right, List.mem_replicate,
      reduceCtorEq, and_false, or_false] at hchunk
    exact hlink chunk (List.mem_of_mem_drop hchunk)
  . exact linkChunks.map_hash _ _ _
  . apply @linkChunks.forall_hash _ _ _ fun hash => hash ≠ [] ∧ hash.length ≤ 64
    intro chunk hchunk
    exact hhash chunk (List.mem_of_mem_take hchunk)

namespace PackageShape

open computeHashesForChunks

variable {hashes : List Bytes} {chunks₀ chunks : List Chunk} {rest : List (Option Chunk)}
  {tree : MerkleTree} {bpkg bpkg' : BpkgObj} {files : FileSystem} {name data : Bytes}

theorem exists_first (h : PackageShape hashes chunks₀ chunks rest tree bpkg)
    : ∃ first, chunks[0]? = some first ∧ (chunks.map some ++ rest)[0]? = some (some first) := by
  have hpos : 0 < chunks.length := by
    rw [h.sound.length_chunks, h.length_chunks]
    omega
  refine ⟨chunks[0], List.getElem?_eq_getElem hpos, ?_⟩
  rw [List.getElem?_append_left (by rw [List.length_map]; exact hpos)]
  exact getElem?_map_some (List.getElem?_eq_getElem hpos)

theorem withFilename (h : PackageShape hashes chunks₀ chunks rest tree bpkg) (filename : Option Bytes)
    : PackageShape hashes chunks₀ chunks rest tree { bpkg with filename } :=
  ⟨h.tree_eq, h.chunks_eq, h.nhashes_eq, h.nhashes_lt, h.nchunks_eq, h.nchunks_le, h.length_chunks, h.sound,
    h.unlinked, h.hash_eq, h.hash_ok⟩

theorem mapInfo (h : PackageShape hashes chunks₀ chunks rest tree bpkg) {f : NodeInfo → NodeInfo}
    (hf : ∀ info, ∃ hash, f info = { info with computedHash := hash })
    : PackageShape hashes chunks₀ chunks rest { tree with root := tree.root.mapInfo f }
        { bpkg with tree := some { tree with root := tree.root.mapInfo f } } :=
  ⟨rfl, h.chunks_eq, h.nhashes_eq, h.nhashes_lt, h.nchunks_eq, h.nchunks_le, h.length_chunks,
    h.sound.mapInfo f hf, h.unlinked, h.hash_eq, h.hash_ok⟩

theorem allHashes (h : PackageShape hashes chunks₀ chunks rest tree bpkg)
    (hsum : bpkg.nhashes.toNat + bpkg.nchunks.toNat ≤ INT_MAX) : ∃ all, bpkgGetAllHashes bpkg = .ok all := by
  have hnodes := h.sound.length_subtrees
  have hnhashes := h.nhashes_eq
  have hnchunks := h.nchunks_eq
  rw [h.sound.length_chunks, h.length_chunks] at hnchunks
  exact ⟨_, bpkgGetAllHashes_eq h.tree_eq (by omega) hsum⟩

-- one chunk more than hashes, so each one has a leaf
theorem rest_eq_nil (h : PackageShape hashes chunks₀ chunks rest tree bpkg)
    (hcount : bpkg.nchunks.toNat = bpkg.nhashes.toNat + 1) : rest = [] := by
  have hnchunks := h.nchunks_eq
  rw [hcount, h.nhashes_eq, h.sound.length_chunks, h.length_chunks] at hnchunks
  exact List.eq_nil_of_length_eq_zero (by omega)

theorem chunks_eq_ofList (h : PackageShape hashes chunks₀ chunks rest tree bpkg)
    (hcount : bpkg.nchunks.toNat = bpkg.nhashes.toNat + 1)
    : bpkg.chunks = .ofList chunks ∧ bpkg.nchunks.toNat = chunks.length := by
  have hrest := h.rest_eq_nil hcount
  have hnchunks := h.nchunks_eq
  rw [hrest, List.length_nil, Nat.add_zero] at hnchunks
  rw [h.chunks_eq, hrest, List.append_nil]
  exact ⟨rfl, hnchunks⟩

theorem leaves_le (h : PackageShape hashes chunks₀ chunks rest tree bpkg) {node : MerkleTreeNode}
    (hnode : node ∈ tree.root.subtrees) : node.leaves.length ≤ bpkg.intNchunks.toNat := by
  have hle := MerkleTreeNode.length_leaves_le hnode
  rw [h.sound.length_leaves h.length_chunks, ← h.sound.length_chunks] at hle
  rw [BpkgObj.intNchunks, toInt_of_le h.nchunks_le, Int.toNat_natCast, h.nchunks_eq]
  omega

theorem mem_leaf_values (h : PackageShape hashes chunks₀ chunks rest tree bpkg) (hash : Bytes)
    : hash ∈ tree.root.leaves.map (·.value) ↔ hash ∈ chunks.map Chunk.hash := by
  rw [h.hash_eq]
  exact (h.sound.leaf_values_perm h.length_chunks).mem_iff

theorem computeHashes_eq (h : PackageShape hashes chunks₀ chunks rest tree bpkg) {first : Chunk}
    (hfirst : chunks[0]? = some first) (hname : stripWhitespace bpkg.filename = .ok (some name))
    (hfile : files name = some data)
    : ∃ ptrs : List NodePtr,
        computeHashesForChunks files bpkg
            =
          if data.length < (hashes.length + 2) * first.size.toNat then
            .ok { bpkg with
              filename := some name
              tree := some {
                tree with root := tree.root.mapInfo (rehash first.size.toNat data ptrs) } }
          else
            .error (if rest = [] then .outOfBounds else .nullPointer) := by
  obtain ⟨ptrs, _, hpoint, _⟩ := h.sound.pointTo h.length_chunks
  obtain ⟨other, hother, hentry⟩ := h.exists_first
  rw [hfirst, Option.some.injEq] at hother
  rw [← hother] at hentry
  have hblocks := blocks_append first.size.toNat_lt hpoint h.unlinked
    (show Sha256.zeroBuff.lastChunk.length = 64 from rfl) data tree.root
  rw [List.length_map, h.sound.length_chunks, h.length_chunks] at hblocks
  refine ⟨ptrs, ?_⟩
  rw [computeHashesForChunks_of_entries h.tree_eq h.chunks_eq hentry hname hfile, hblocks]
  split
  . rfl
  . rfl

theorem computeHashes (h : PackageShape hashes chunks₀ chunks rest tree bpkg)
    (hcompute : computeHashesForChunks files bpkg = .ok bpkg')
    : ∃ tree', PackageShape hashes chunks₀ chunks rest tree' bpkg' := by
  obtain ⟨name, hname⟩ := stripWhitespace_of_computeHashes hcompute
  obtain ⟨first, hfirst, hentry⟩ := h.exists_first
  cases hfile : files name with
  | none =>
    rw [computeHashesForChunks_of_missing h.chunks_eq hentry hname hfile, Except.ok.injEq] at hcompute
    rw [← hcompute]
    exact ⟨tree, h.withFilename _⟩
  | some data =>
    obtain ⟨ptrs, heq⟩ := h.computeHashes_eq hfirst hname hfile
    rw [hcompute] at heq
    split at heq
    . rw [Except.ok.injEq] at heq
      rw [heq]
      exact ⟨_, (h.withFilename (some name)).mapInfo (@rehash_cases first.size.toNat data ptrs)⟩
    . cases heq

end PackageShape

/--
A package that was loaded, as `bpkg_file_check` and the queries leave it, with any computed hashes in
its nodes.
-/
inductive BpkgObj.Managed : BpkgObj → Prop where
  | load {obj bpkg : BpkgObj} {text : Bytes} {dir : Option Bytes} (hdir : ∀ c ∈ dir.getD [], c ≠ 0)
      (h : bpkgLoad obj (some text) dir = .ok (some bpkg))
    : Managed bpkg
  | fileCheck {bpkg : BpkgObj} {filename : Option Bytes} (h : Managed bpkg)
      (hname : stripWhitespace bpkg.filename = .ok filename)
    : Managed { bpkg with filename }
  | computeHashes {bpkg bpkg' : BpkgObj} {files : FileSystem} (h : Managed bpkg)
      (hcompute : computeHashesForChunks files bpkg = .ok bpkg')
    : Managed bpkg'
  | assign {bpkg : BpkgObj} {tree : MerkleTree} (h : Managed bpkg) (htree : bpkg.tree = some tree)
      (computed : NodePtr → Bytes)
    : Managed { bpkg with
        tree := some { tree with
          root := tree.root.mapInfo fun info => { info with computedHash := computed info.ptr } } }

theorem BpkgObj.Managed.shape {bpkg : BpkgObj} (h : bpkg.Managed)
    : ∃ hashes chunks₀ chunks rest tree, PackageShape hashes chunks₀ chunks rest tree bpkg := by
  induction h with
  | load hdir hload => exact packageShape_of_bpkgLoad hload
  | fileCheck h hname ih =>
    obtain ⟨hashes, chunks₀, chunks, rest, tree, hshape⟩ := ih
    exact ⟨hashes, chunks₀, chunks, rest, tree, hshape.withFilename _⟩
  | computeHashes h hcompute ih =>
    obtain ⟨hashes, chunks₀, chunks, rest, tree, hshape⟩ := ih
    obtain ⟨tree', hshape'⟩ := hshape.computeHashes hcompute
    exact ⟨hashes, chunks₀, chunks, rest, tree', hshape'⟩
  | @assign bpkg tree h htree computed ih =>
    obtain ⟨hashes, chunks₀, chunks, rest, tree', hshape⟩ := ih
    have heq := hshape.tree_eq
    rw [htree, Option.some.injEq] at heq
    rw [heq]
    exact ⟨hashes, chunks₀, chunks, rest, _, hshape.mapInfo fun info => ⟨computed info.ptr, rfl⟩⟩

theorem lineValue_ne_zero {line value : Bytes} (h : lineValue line = some value) : ∀ c ∈ value, c ≠ 0 := by
  intro c hc
  rw [lineValue, Option.map_eq_some_iff] at h
  obtain ⟨token, htoken, heq⟩ := h
  rw [← heq] at hc
  have hmem := ((strtok_mem htoken).2 c (mem_of_mem_trim hc)).1
  exact zero_not_mem_cstr line c (strtok_saved_mem hmem)

theorem BpkgObj.Managed.exists_filename {bpkg : BpkgObj} (h : bpkg.Managed)
    : ∃ filename, bpkg.filename = some filename ∧ ∀ c ∈ filename, c ≠ 0 := by
  have hstrip {bpkg : BpkgObj} {filename : Option Bytes}
      (ih : ∃ filename, bpkg.filename = some filename ∧ ∀ c ∈ filename, c ≠ 0)
      (hname : stripWhitespace bpkg.filename = .ok filename)
      : ∃ name, filename = some name ∧ ∀ c ∈ name, c ≠ 0 := by
    obtain ⟨old, hold, hzero⟩ := ih
    rw [hold, stripWhitespace_eq_trim hzero, Except.ok.injEq] at hname
    refine ⟨trim old, hname.symm, ?_⟩
    intro c hc
    exact hzero c (mem_of_mem_trim hc)
  induction h with
  | @load obj bpkg text dir hdir hload =>
    obtain ⟨l, c, tree, chunks, _, hparses, _, hbpkg⟩ := bpkgLoad_cases hload
    refine ⟨joinDir dir c.filename, by rw [hbpkg]; rfl, ?_⟩
    have hvalue := lineValue_ne_zero hparses.filename
    intro d hd
    cases dir with
    | none => exact hvalue d hd
    | some dir =>
      simp only [joinDir, List.mem_append] at hd
      rcases hd with (hd | hd) | hd
      . exact hdir d hd
      . rw [show ascii "/" = [47] from rfl, List.mem_singleton] at hd
        rw [hd]
        decide
      . exact hvalue d hd
  | fileCheck h hname ih => exact hstrip ih hname
  | computeHashes h hcompute ih => exact hstrip ih (computeHashesForChunks_frame hcompute).2
  | assign h htree computed ih => exact ih

theorem BpkgObj.Managed.exists_name {bpkg : BpkgObj} (h : bpkg.Managed)
    : ∃ name, stripWhitespace bpkg.filename = .ok (some name) := by
  obtain ⟨filename, hfilename, hzero⟩ := h.exists_filename
  refine ⟨trim filename, ?_⟩
  rw [hfilename]
  exact stripWhitespace_eq_trim hzero

theorem computeHashesForChunks_ends_iff {bpkg : BpkgObj} (h : bpkg.Managed) (files : FileSystem)
    : (∃ bpkg', computeHashesForChunks files bpkg = .ok bpkg')
        ↔
      ∀ (name data : Bytes) (first : Chunk),
        stripWhitespace bpkg.filename = .ok (some name)
          → files name = some data
          → bpkg.chunks.load 0 = .ok (some first)
          → data.length < (bpkg.nhashes.toNat + 2) * first.size.toNat := by
  obtain ⟨hashes, chunks₀, chunks, rest, tree, hshape⟩ := h.shape
  obtain ⟨name, hname⟩ := h.exists_name
  obtain ⟨first, hfirst, hentry⟩ := hshape.exists_first
  have hload : bpkg.chunks.load 0 = .ok (some first) := by
    rw [hshape.chunks_eq]
    exact PtrArray.load_some hentry
  constructor
  . rintro ⟨bpkg', hcompute⟩ name' data first' hname' hfile hload'
    rw [hname, Except.ok.injEq, Option.some.injEq] at hname'
    rw [hload, Except.ok.injEq, Option.some.injEq] at hload'
    rw [← hname'] at hfile
    obtain ⟨ptrs, heq⟩ := hshape.computeHashes_eq hfirst hname hfile
    rw [hshape.nhashes_eq, ← hload']
    rw [hcompute] at heq
    split at heq
    . next hlt => exact hlt
    . cases heq
  . intro hshort
    cases hfile : files name with
    | none => exact ⟨_, computeHashesForChunks_of_missing hshape.chunks_eq hentry hname hfile⟩
    | some data =>
      obtain ⟨ptrs, heq⟩ := hshape.computeHashes_eq hfirst hname hfile
      have hlt := hshort name data first hname hfile hload
      rw [hshape.nhashes_eq] at hlt
      rw [if_pos hlt] at heq
      exact ⟨_, heq⟩

theorem computeHashesForChunks_ends_two
    : ∃ bpkg', computeHashesForChunks (fun _ => some (ascii "abcde")) (twoChunksObj 2) = .ok bpkg' := by
  have hmanaged : (twoChunksObj 2).Managed :=
    .load (show ∀ c ∈ (none : Option Bytes).getD [], c ≠ 0 by simp) load_twoChunks
  rw [computeHashesForChunks_ends_iff hmanaged]
  intro name data first _ hfile hload
  have hfirst : (twoChunksObj 2).chunks.load 0 = .ok (some ⟨digestAb, 0, 2, some 1⟩) := rfl
  rw [hload, Except.ok.injEq, Option.some.injEq] at hfirst
  rw [Option.some.injEq] at hfile
  rw [← hfile, hfirst]
  decide

theorem computeHashesForChunks_ends_fails
    : bpkgLoad ⟨none, none, 7, 7, none, 7, none, none⟩ (some (twoChunks (ascii "2"))) none
        =
      .ok (some (twoChunksObj 2))
        ∧ (twoChunksObj 2).nchunks = 2
        ∧ computeHashesForChunks (fun _ => some (ascii "abcdef")) (twoChunksObj 2)
            =
          .error .outOfBounds := by
  refine ⟨load_twoChunks, rfl, ?_⟩
  decide +kernel

end Btide
