import Btide.Net.CompletionHistory
import Btide.Net.Lookup
import Btide.Net.PackageUseRuns
import Btide.Net.SwarmSteps
import Btide.Tree.MinHashFind

/-!
This module contains what the calls that hash a data file treat as complete, after every sequence of
calls and changes of the file.
-/

open Bytes CLib

namespace Btide

namespace History

section Remembered

variable {b j : Nat} {file : Option Bytes} {past : List (Option Bytes)}

theorem remembered_nil (b j : Nat) : remembered b [] j = [] := rfl

theorem remembered_cons (b : Nat) (file : Option Bytes) (past : List (Option Bytes)) (j : Nat)
    : remembered b (file :: past) j
        =
      match covering b j file with
      | some data => Sha256.digest (slice data (j * b) b)
      | none => remembered b past j := by
  unfold remembered lastCovering
  rw [List.findSome?_cons]
  cases covering b j file with
  | none => rfl
  | some data => rfl

theorem remembered_replicate {n : Nat} (hn : 0 < n) (b : Nat) (file : Option Bytes)
    (past : List (Option Bytes))
    : remembered b (List.replicate n file ++ past) = remembered b (file :: past) := by
  induction n with
  | zero => omega
  | succ n ih =>
    funext j
    rw [List.replicate_succ, List.cons_append, remembered_cons]
    cases n with
    | zero =>
      rw [List.replicate_zero, List.nil_append, remembered_cons]
    | succ n =>
      rw [ih (Nat.succ_pos n), remembered_cons]
      cases covering b j file with
      | none => rfl
      | some data => rfl

end Remembered

end History

open MerkleTreeNode computeHashesForChunks History

structure Loaded (hashes : List Bytes) (chunks₀ chunks : List Chunk) (leaves : List NodeInfo)
    (loaded : BpkgObj) : Prop where
  sound : ∃ tree, loaded.tree = some tree ∧ TreeSound hashes chunks₀ tree.root chunks
    ∧ tree.root.leaves = leaves
  length_chunks : chunks₀.length = hashes.length + 1
  chunks_eq : loaded.chunks = .ofList chunks
  intNchunks_eq : loaded.intNchunks = chunks₀.length
  fresh : ∀ info ∈ leaves, info.computedHash = []
  value_ne : ∀ info ∈ leaves, info.value ≠ []

structure Remembers (hashes : List Bytes) (chunks₀ chunks : List Chunk) (leaves : List NodeInfo)
    (loaded : BpkgObj) (b : Nat) (past : List (Option Bytes)) (bpkg : BpkgObj) : Prop where
  sound : ∃ tree, bpkg.tree = some tree ∧ TreeSound hashes chunks₀ tree.root chunks
    ∧ tree.root.leaves
        = leaves.map fun info =>
            { info with computedHash := remembered b past (info.key - hashes.length) }
  chunks_eq : bpkg.chunks = .ofList chunks
  nchunks_eq : bpkg.nchunks = loaded.nchunks
  filename_eq : stripWhitespace bpkg.filename = stripWhitespace loaded.filename

section Remembers

variable {hashes : List Bytes} {chunks₀ chunks : List Chunk} {leaves : List NodeInfo}
  {loaded bpkg bpkg' : BpkgObj} {b : Nat} {past : List (Option Bytes)} {first : Chunk}
  {files : FileSystem}

theorem Loaded.remembers (h : Loaded hashes chunks₀ chunks leaves loaded) (b : Nat)
    : Remembers hashes chunks₀ chunks leaves loaded b [] loaded where
  sound := by
    obtain ⟨tree, htree, hsound, hleaves⟩ := h.sound
    refine ⟨tree, htree, hsound, ?_⟩
    rw [hleaves]
    symm
    have hsame : leaves.map (fun info =>
          { info with computedHash := remembered b [] (info.key - hashes.length) })
        = leaves.map id := by
      apply List.map_congr_left
      intro info hinfo
      rw [remembered_nil, ← h.fresh info hinfo]
      rfl
    rw [hsame, List.map_id]
  chunks_eq := h.chunks_eq
  nchunks_eq := rfl
  filename_eq := rfl

def Hashable (chunks : List Chunk) (b : Nat) (loaded : BpkgObj) (files : FileSystem) : Prop :=
  (∃ name, stripWhitespace loaded.filename = .ok (some name))
    ∧ ∀ data ∈ loaded.dataFile files, data.length < (chunks.length + 1) * b

theorem dataFile_eq {name : Bytes} (h : stripWhitespace loaded.filename = .ok (some name))
    : loaded.dataFile files = files name := by
  unfold BpkgObj.dataFile
  rw [h]

variable (hlen : chunks₀.length = hashes.length + 1) (hfirst : chunks[0]? = some first)

include hlen hfirst

theorem Remembers.computeHashes
    (h : Remembers hashes chunks₀ chunks leaves loaded first.size.toNat past bpkg)
    (hhashable : Hashable chunks first.size.toNat loaded files)
    : ∃ bpkg',
        computeHashesForChunks files bpkg = .ok bpkg'
          ∧ Remembers hashes chunks₀ chunks leaves loaded first.size.toNat
              (loaded.dataFile files :: past) bpkg' := by
  obtain ⟨⟨name, hname⟩, hfits⟩ := hhashable
  obtain ⟨tree, htree, hsound, hleaves⟩ := h.sound
  have hname' := h.filename_eq.trans hname
  have hidem := stripWhitespace_idem hname'
  rw [dataFile_eq hname] at hfits ⊢
  cases hfile : files name with
  | none =>
    have hcompute :=
      computeHashesForChunks_of_missing h.chunks_eq (getElem?_map_some hfirst) hname' hfile
    refine ⟨_, hcompute, ?_, h.chunks_eq, h.nchunks_eq, ?_⟩
    . refine ⟨tree, htree, hsound, ?_⟩
      rw [hleaves]
      apply List.map_congr_left
      intro info _
      rw [remembered_cons]
      rfl
    . exact hidem.trans hname.symm
  | some data =>
    have hroom := hfits data hfile
    obtain ⟨ptrs, hnodup, hpoint, hptrs⟩ := hsound.pointTo hlen
    have hblocks := blocks_eq first.size.toNat_lt hpoint
      (show Sha256.zeroBuff.lastChunk.length = 64 from rfl) data tree.root
    rw [List.length_map, if_pos hroom] at hblocks
    have hcompute := computeHashesForChunks_eq htree h.chunks_eq hfirst hname' hfile
    rw [hblocks] at hcompute
    refine ⟨_, hcompute, ?_, h.chunks_eq, h.nchunks_eq, hidem.trans hname.symm⟩
    refine ⟨_, rfl, hsound.mapInfo _ (rehash_cases data ptrs), ?_⟩
    dsimp only
    rw [leaves_mapInfo, hleaves, List.map_map]
    apply List.map_congr_left
    intro info hinfo
    -- the leaf with what it remembers so far
    have hmem : { info with
        computedHash := remembered first.size.toNat past (info.key - hashes.length)
        } ∈ tree.root.leaves := by
      rw [hleaves]
      exact List.mem_map_of_mem hinfo
    rw [Function.comp_apply, rehash_eq hnodup (hptrs _ hmem), remembered_cons]
    dsimp only
    congr 1
    unfold covering
    split
    . next hcovers => simp [Option.filter, hcovers]
    . next hcovers => simp [Option.filter, hcovers]

theorem Remembers.hashable
    (h : Remembers hashes chunks₀ chunks leaves loaded first.size.toNat past bpkg)
    (hcompute : computeHashesForChunks files bpkg = .ok bpkg')
    : Hashable chunks first.size.toNat loaded files := by
  obtain ⟨name, hname'⟩ := stripWhitespace_of_computeHashes hcompute
  obtain ⟨tree, htree, hsound, hleaves⟩ := h.sound
  have hname := h.filename_eq.symm.trans hname'
  refine ⟨⟨name, hname⟩, ?_⟩
  rw [dataFile_eq hname]
  intro data hfile
  obtain ⟨ptrs, hnodup, hpoint, hptrs⟩ := hsound.pointTo hlen
  have hblocks := blocks_eq first.size.toNat_lt hpoint
    (show Sha256.zeroBuff.lastChunk.length = 64 from rfl) data tree.root
  rw [List.length_map] at hblocks
  rw [computeHashesForChunks_eq htree h.chunks_eq hfirst hname' hfile, hblocks] at hcompute
  split at hcompute
  . next hroom => exact hroom
  . simp [Except.map] at hcompute

end Remembers

def Hashes (files : FileSystem) : Nat → Option BpkgObj → Option BpkgObj → Prop
  | 0, object, object' => object' = object
  | n + 1, object, object' =>
    ∃ bpkg bpkg',
      object = some bpkg
        ∧ computeHashesForChunks files bpkg = .ok bpkg'
        ∧ Hashes files n (some bpkg') object'

namespace PackageStore

variable {store store' : PackageStore} {ptr : ObjPtr}

theorem hashes_assign {bpkg bpkg' : BpkgObj} {other : ObjPtr} (hload : store.objects other = some bpkg)
    (hcompute : computeHashesForChunks store.files bpkg = .ok bpkg') (ptr : ObjPtr)
    : Hashes store.files (if other = ptr then 1 else 0) (store.objects ptr)
        ((store.assign other bpkg').objects ptr) := by
  unfold assign
  split
  . next heq =>
    rw [← heq]
    refine ⟨bpkg, bpkg', hload, hcompute, ?_⟩
    rw [Hashes]
    dsimp only
    rw [Function.update_self]
  . next hne =>
    rw [Hashes]
    dsimp only
    rw [Function.update_of_ne (Ne.symm hne)]

theorem packageStatus.report_hashes {files : FileSystem} {managedArray : List (Option ObjPtr)}
    {objects objects' : ObjPtr → Option BpkgObj} {lines : List StatusLine}
    (h : report files managedArray objects = .ok (lines, objects')) (ptr : ObjPtr)
    : Hashes files (managedArray.count (some ptr)) (objects ptr) (objects' ptr) := by
  induction managedArray generalizing objects lines with
  | nil =>
    simp only [report, Except.ok.injEq, Prod.mk.injEq] at h
    rw [← h.2]
    rfl
  | cons entry managedArray ih =>
    cases entry with
    | none =>
      rw [report] at h
      rw [List.count_cons_of_ne (by simp)]
      exact ih h
    | some first =>
      rw [report] at h
      simp only [bind_eq_ok, pure_eq_ok, Prod.mk.injEq] at h
      obtain ⟨bpkg, hload, ⟨qry, bpkg'⟩, hqry, _, _, ⟨lines', objects''⟩, hrest, _, hobjects⟩ := h
      dsimp only at hobjects hrest
      rw [hobjects] at hrest
      have hcompute : computeHashesForChunks files bpkg = .ok bpkg' := by
        unfold bpkgGetMinCompletedHashes at hqry
        simp only [bind_eq_ok, pure_eq_ok, Prod.mk.injEq] at hqry
        obtain ⟨_, hcompute, _, _, _, _, _, heq⟩ := hqry
        rw [← heq]
        exact hcompute
      have hnext := ih hrest
      by_cases hfirst : first = ptr
      . rw [hfirst] at hload hnext ⊢
        rw [Function.update_self] at hnext
        rw [List.count_cons_self]
        exact ⟨bpkg, bpkg', load_eq_ok.mp hload, hcompute, hnext⟩
      . rw [Function.update_of_ne (Ne.symm hfirst)] at hnext
        rw [List.count_cons_of_ne (by simpa using hfirst)]
        exact hnext

theorem packageStatus_files {lines : List StatusLine} (h : packageStatus store = .ok (lines, store'))
    : store'.files = store.files := by
  unfold packageStatus at h
  split at h
  . simp only [Except.ok.injEq, Prod.mk.injEq] at h
    rw [← h.2]
  . obtain ⟨_, _, h⟩ := bind_eq_ok.mp h
    simp only [pure_eq_ok, Prod.mk.injEq] at h
    rw [← h.2]

theorem query_hashes {q : Query} (h : store.query q = .ok store') (ptr : ObjPtr)
    : store'.files = store.files
        ∧ Hashes store.files (store.timesHashed ptr q) (store.objects ptr) (store'.objects ptr) := by
  cases q with
  | completedChunks other =>
    simp only [query, bpkgGetCompletedChunks, bind_eq_ok, pure_eq_ok] at h
    obtain ⟨bpkg, hload, _, ⟨bpkg', hcompute, _, _, _, _, rfl⟩, rfl⟩ := h
    exact ⟨rfl, hashes_assign (load_eq_ok.mp hload) hcompute ptr⟩
  | minCompletedHashes other =>
    simp only [query, bpkgGetMinCompletedHashes, bind_eq_ok, pure_eq_ok] at h
    obtain ⟨bpkg, hload, _, ⟨bpkg', hcompute, _, _, _, _, rfl⟩, rfl⟩ := h
    exact ⟨rfl, hashes_assign (load_eq_ok.mp hload) hcompute ptr⟩
  | status =>
    simp only [query, bind_eq_ok, pure_eq_ok] at h
    obtain ⟨⟨lines, _⟩, hstatus, rfl⟩ := h
    refine ⟨packageStatus_files hstatus, ?_⟩
    unfold packageStatus at hstatus
    unfold timesHashed
    split at hstatus
    . next hempty =>
      simp only [Except.ok.injEq, Prod.mk.injEq] at hstatus
      dsimp only
      rw [if_pos hempty, ← hstatus.2]
      rfl
    . next hsome =>
      simp only [bind_eq_ok, pure_eq_ok, Prod.mk.injEq] at hstatus
      obtain ⟨⟨lines', objects⟩, hreport, _, hstore⟩ := hstatus
      dsimp only
      rw [if_neg hsome, ← hstore]
      exact packageStatus.report_hashes hreport ptr
  | getData resArgs =>
    simp only [query, getData, bind_eq_ok, pure_eq_ok] at h
    obtain ⟨_, ⟨chosen, hchoose, h⟩, rfl⟩ := h
    unfold timesHashed
    dsimp only
    rw [hchoose]
    cases chosen with
    | none =>
      rw [pure_eq_ok] at h
      rw [← h]
      exact ⟨rfl, rfl⟩
    | some other =>
      simp only [bind_eq_ok, pure_eq_ok] at h
      obtain ⟨bpkg, hload, ⟨answer, packages⟩, hopen, chosen, hchosen, rfl⟩ := h
      obtain ⟨_, bpkg', slot, hobject, hfound⟩ := choose_cases hchoose
      rw [load_eq_ok, hobject, Option.some.injEq] at hload
      rw [hload] at hobject hfound
      obtain ⟨_, _, hslot, _⟩ := chunkInMemory_cases hfound
      have hzero : slot = 0 := by
        have hlt := (List.getElem?_eq_some_iff.mp hslot).1
        rw [List.length_singleton] at hlt
        omega
      rw [hzero] at hfound
      obtain ⟨_, bpkg'', hcompute, hset⟩ := openFile_hashes hfound rfl hopen
      dsimp only at hchosen
      rw [hset] at hchosen
      simp only [List.set_cons_zero, List.getD_cons_zero, deref_some, Except.ok.injEq] at hchosen
      rw [← hchosen]
      exact ⟨rfl, hashes_assign hobject hcompute ptr⟩

end PackageStore

section Completed

variable {hashes : List Bytes} {chunks₀ chunks : List Chunk} {leaves : List NodeInfo}
  {loaded bpkg : BpkgObj} {b : Nat} {file : Option Bytes} {past : List (Option Bytes)}
  {first : Chunk} {files : FileSystem}

theorem Remembers.of_hashes (hlen : chunks₀.length = hashes.length + 1) (hfirst : chunks[0]? = some first)
    {n : Nat} {object : Option BpkgObj}
    (h : Remembers hashes chunks₀ chunks leaves loaded first.size.toNat past bpkg)
    (hhashes : Hashes files n (some bpkg) object)
    : (0 < n → Hashable chunks first.size.toNat loaded files)
        ∧ ∃ bpkg',
            object = some bpkg'
              ∧ Remembers hashes chunks₀ chunks leaves loaded first.size.toNat
                  (List.replicate n (loaded.dataFile files) ++ past) bpkg' := by
  induction n generalizing bpkg past with
  | zero =>
    refine ⟨fun hpos => absurd hpos (Nat.lt_irrefl 0), bpkg, hhashes, ?_⟩
    exact h
  | succ n ih =>
    obtain ⟨bpkg₀, bpkg₁, hobject, hcompute, hrest⟩ := hhashes
    rw [Option.some.injEq] at hobject
    rw [← hobject] at hcompute
    have hhashable := h.hashable hlen hfirst hcompute
    obtain ⟨bpkg₂, hcompute', hremembers⟩ := h.computeHashes hlen hfirst hhashable
    rw [hcompute, Except.ok.injEq] at hcompute'
    rw [hcompute'] at hrest
    obtain ⟨_, bpkg', hobject', hremembers'⟩ := ih hremembers hrest
    refine ⟨fun _ => hhashable, bpkg', hobject', ?_⟩
    rw [List.replicate_succ', List.append_assoc]
    exact hremembers'

theorem Remembers.leaves_eq (h : Remembers hashes chunks₀ chunks leaves loaded b past bpkg)
    : bpkg.leaves
        =
      leaves.map fun info =>
        { info with computedHash := remembered b past (info.key - hashes.length) } := by
  obtain ⟨tree, htree, _, hleaves⟩ := h.sound
  unfold BpkgObj.leaves
  rw [htree]
  exact hleaves

theorem Remembers.completed_eq (h : Remembers hashes chunks₀ chunks leaves loaded b past bpkg)
    : bpkg.completed
        =
      (leaves.filter fun info => info.value == remembered b past (info.key - hashes.length)).map
        fun info => (info.key, info.value) := by
  unfold BpkgObj.completed
  rw [h.leaves_eq, List.filter_map, List.map_map]
  rfl

theorem Remembers.holding_eq (h : Remembers hashes chunks₀ chunks leaves loaded b past bpkg)
    (hash : Bytes)
    : bpkg.holding hash
        =
      (leaves.filter fun info => hash == remembered b past (info.key - hashes.length)).map
        fun info => (info.key, info.value) := by
  unfold BpkgObj.holding
  rw [h.leaves_eq, List.filter_map, List.map_map]
  rfl

theorem filter_map_eq_iff {l : List α} {f : α → β} (hnodup : (l.map f).Nodup) {p q : α → Bool}
    : (l.filter p).map f = (l.filter q).map f ↔ ∀ x ∈ l, p x = q x := by
  have hiff {p : α → Bool} {x : α} (hx : x ∈ l) : f x ∈ (l.filter p).map f ↔ p x = true := by
    rw [List.mem_map]
    constructor
    . rintro ⟨y, hy, heq⟩
      rw [List.mem_filter] at hy
      rw [← List.inj_on_of_nodup_map hnodup hy.1 hx heq]
      exact hy.2
    . intro hp
      exact ⟨x, List.mem_filter.mpr ⟨hx, hp⟩, rfl⟩
  constructor
  . intro heq x hx
    rw [Bool.eq_iff_iff, ← hiff hx, heq, hiff hx]
  . intro hall
    rw [List.filter_congr hall]

theorem agree_iff (hnodup : (leaves.map fun info => (info.key, info.value)).Nodup)
    (wanted : NodeInfo → Bytes) (hwanted : ∀ info ∈ leaves, wanted info ≠ [])
    : (leaves.filter fun info =>
          wanted info == remembered b (file :: past) (info.key - hashes.length)).map
        (fun info => (info.key, info.value))
      = (leaves.filter fun info => wanted info == remembered b [file] (info.key - hashes.length)).map
        (fun info => (info.key, info.value))
        ↔
      ∀ info ∈ leaves, ∀ data,
        covering b (info.key - hashes.length) file = none
          →
        lastCovering b (info.key - hashes.length) past = some data
          →
        Sha256.digest (slice data ((info.key - hashes.length) * b) b) ≠ wanted info := by
  rw [filter_map_eq_iff hnodup]
  apply forall_congr'
  intro info
  apply forall_congr'
  intro hinfo
  have hne := hwanted info hinfo
  rw [remembered_cons, remembered_cons, remembered_nil]
  cases covering b (info.key - hashes.length) file with
  | some data => simp
  | none =>
    dsimp only
    unfold remembered
    cases lastCovering b (info.key - hashes.length) past with
    | none => simp
    | some data =>
      have hfresh : (wanted info == []) = false := by
        rw [beq_eq_false_iff_ne]
        exact hne
      simp only [hfresh, beq_eq_false_iff_ne, Option.some.injEq, forall_eq', forall_const]
      exact ne_comm

theorem loaded_of_bpkgLoad {obj : BpkgObj} {text : Bytes} {dir : Option Bytes}
    (hload : bpkgLoad obj (some text) dir = .ok (some loaded))
    (hcount : loaded.nchunks.toNat = loaded.nhashes.toNat + 1) (hchunks : loaded.chunks = .ofList chunks)
    : ∃ hashes chunks₀ leaves,
        Loaded hashes chunks₀ chunks leaves loaded
          ∧ chunks.map Chunk.hash = chunks₀.map Chunk.hash := by
  obtain ⟨hashes, chunks₀, tree, htree, hsound, hlen, hhash, hfresh, hnchunks, hfits⟩ :=
    treeSound_of_bpkgLoad hload hcount hchunks
  refine ⟨hashes, chunks₀, tree.root.leaves,
    ⟨⟨tree, htree, hsound, rfl⟩, hlen, hchunks, hnchunks, hfresh, ?_⟩, hhash⟩
  intro info hinfo
  have hget := (hsound.leaf_index hinfo).2.2
  rw [← hhash] at hget
  obtain ⟨chunk, hchunk, hvalue⟩ := List.mem_map.mp (List.mem_of_getElem? hget)
  rw [← hvalue]
  exact (hfits chunk hchunk).1

theorem Remembers.mem_of_chunkInMemory (h : Remembers hashes chunks₀ chunks leaves loaded b past bpkg)
    (hloaded : Loaded hashes chunks₀ chunks leaves loaded) {ident hash : Bytes} {slot : Nat}
    (hfound : chunkInMemory [some bpkg] ident hash = .ok (.found slot))
    : ∃ info ∈ leaves, info.value = hash := by
  obtain ⟨tree, htree, hsound, hleaves⟩ := h.sound
  have hroom : ∀ node ∈ inorderFindNode tree.root.info.value tree.root,
      node.leaves.length ≤ bpkg.intNchunks.toNat := by
    intro node hnode
    have hcount : bpkg.intNchunks = chunks₀.length := by
      rw [← hloaded.intNchunks_eq, BpkgObj.intNchunks, BpkgObj.intNchunks, h.nchunks_eq]
    rw [hcount, Int.toNat_natCast, ← hsound.length_leaves hloaded.length_chunks]
    exact length_leaves_le (mem_of_inorderFindNode hnode)
  have hqry := bpkgGetAllChunkHashesFromHash_eq htree hroom
  unfold chunkInMemory at hfound
  rw [chunkInMemory.search] at hfound
  split at hfound
  . next current _ =>
    split at hfound
    . simp only [bind_eq_ok, htree, deref_some, Except.ok.injEq, exists_eq_left', hqry,
        deref_eq_ok] at hfound
      obtain ⟨qry, hsome, hfound⟩ := hfound
      obtain ⟨node, hnode, rfl⟩ := Option.map_eq_some_iff.mp hsome
      split at hfound
      . next hmem =>
        simp only [HashBuf.append, HashBuf.alloc, List.nil_append, List.contains_iff_mem,
          List.mem_map] at hmem
        obtain ⟨info, hinfo, hvalue⟩ := hmem
        have hroot := leaves_subset (mem_of_inorderFindNode hnode) hinfo
        rw [hleaves, List.mem_map] at hroot
        obtain ⟨old, hold, heq⟩ := hroot
        refine ⟨old, hold, ?_⟩
        rw [← hvalue, ← heq]
      . simp [pure, Except.pure] at hfound
    . simp [chunkInMemory.search] at hfound
  . simp [throw_eq_ok] at hfound

theorem Loaded.forall_leaves_iff (h : Loaded hashes chunks₀ chunks leaves loaded)
    (hhash : chunks.map Chunk.hash = chunks₀.map Chunk.hash) {P : Nat → Bytes → Prop}
    : (∀ info ∈ leaves, P (info.key - hashes.length) info.value)
        ↔
      ∀ (j : Nat) (chunk : Chunk), chunks[j]? = some chunk → P j chunk.hash := by
  obtain ⟨tree, _, hsound, rfl⟩ := h.sound
  have hvalue {info : NodeInfo} (hinfo : info ∈ tree.root.leaves) {chunk : Chunk}
      (hchunk : chunks[info.key - hashes.length]? = some chunk) : chunk.hash = info.value := by
    have hget := (hsound.leaf_index hinfo).2.2
    rw [← hhash, List.getElem?_map, hchunk, Option.map_some, Option.some.injEq] at hget
    exact hget
  constructor
  . intro hall j chunk hchunk
    have hj := (List.getElem?_eq_some_iff.mp hchunk).1
    rw [hsound.length_chunks, h.length_chunks] at hj
    obtain ⟨info, hinfo, hkey, _⟩ := hsound.linked j (Nat.le_of_lt_succ hj)
    have hindex : info.key - hashes.length = j := by omega
    have hP := hall info hinfo
    rw [← hindex] at hchunk
    rw [← hvalue hinfo hchunk, hindex] at hP
    exact hP
  . intro hall info hinfo
    have hj := (hsound.leaf_index hinfo).2.1
    rw [← hsound.length_chunks] at hj
    have hchunk := List.getElem?_eq_getElem hj
    rw [← hvalue hinfo hchunk]
    exact hall _ _ hchunk

theorem Loaded.nodup (h : Loaded hashes chunks₀ chunks leaves loaded)
    : (leaves.map fun info => (info.key, info.value)).Nodup := by
  obtain ⟨tree, _, hsound, rfl⟩ := h.sound
  have hkeys := hsound.nodup_leaf_keys
  apply List.Nodup.of_map Prod.fst
  rw [List.map_map]
  exact hkeys

theorem Loaded.completedChunks_eq (h : Loaded hashes chunks₀ chunks leaves loaded) {fresh : BpkgObj}
    (hfresh : Remembers hashes chunks₀ chunks leaves loaded b past fresh)
    (hcompute : computeHashesForChunks files loaded = .ok fresh)
    : ∃ qry,
        bpkgGetCompletedChunks files loaded = .ok (qry, fresh)
          ∧ qry.hashes.hashes = fresh.completed.map Prod.snd := by
  obtain ⟨tree, htree, hsound, _⟩ := hfresh.sound
  have hcount : fresh.intNchunks = chunks₀.length := by
    rw [← h.intNchunks_eq, BpkgObj.intNchunks, BpkgObj.intNchunks, hfresh.nchunks_eq]
  have hroom : (HashBuf.alloc fresh.intNchunks.toNat).hashes.length + tree.root.leaves.length
      ≤ (HashBuf.alloc fresh.intNchunks.toNat).cap := by
    rw [hsound.length_leaves h.length_chunks, hcount]
    simp
  have hsearch := inorderSearch_getCompletedChunks hroom
  unfold bpkgGetCompletedChunks
  simp only [hcompute, htree, hsearch, deref_some, bind, Except.bind, pure, Except.pure]
  refine ⟨_, rfl, ?_⟩
  unfold BpkgObj.completed BpkgObj.leaves
  rw [htree, List.map_map]
  rfl

end Completed

namespace History

variable {ptr : ObjPtr} {loaded : BpkgObj} {s t : History}

theorem remembers_run {hashes : List Bytes} {chunks₀ chunks : List Chunk} {leaves : List NodeInfo}
    {first : Chunk} (hlen : chunks₀.length = hashes.length + 1) (hfirst : chunks[0]? = some first)
    (hrun : Run (fun s e t => step ptr loaded s e = some t) (fun _ _ => True) s t)
    (hstart : ∃ bpkg, s.store.objects ptr = some bpkg
      ∧ Remembers hashes chunks₀ chunks leaves loaded first.size.toNat s.past bpkg)
    : ∃ bpkg, t.store.objects ptr = some bpkg
        ∧ Remembers hashes chunks₀ chunks leaves loaded first.size.toNat t.past bpkg := by
  apply hrun.invariant hstart
  intro s event t hinv _ hstep
  obtain ⟨bpkg, hobject, hremembers⟩ := hinv
  cases event with
  | change files =>
    rw [step, Option.some.injEq] at hstep
    rw [← hstep]
    exact ⟨bpkg, hobject, hremembers⟩
  | query query =>
    rw [step] at hstep
    split at hstep
    . next store hquery =>
      rw [Option.some.injEq] at hstep
      rw [← hstep]
      obtain ⟨_, hhashes⟩ := PackageStore.query_hashes hquery ptr
      rw [hobject] at hhashes
      exact (hremembers.of_hashes hlen hfirst hhashes).2
    . simp at hstep

/--
A call treats exactly the chunks as complete that a fresh copy of the package reports, in every run, if
and only if no chunk that the file does not have now was complete in the last file that had it and was
hashed. A request is moreover not misled if none of these chunks held the hash that it asks for.
-/
theorem completed_current_iff {obj : BpkgObj} {text : Bytes} {dir filename : Option Bytes}
    {chunks : List Chunk} {first : Chunk} {store store' : PackageStore} {q : PackageStore.Query}
    (hload : bpkgLoad obj (some text) dir = .ok (some loaded))
    (hcount : loaded.nchunks.toNat = loaded.nhashes.toNat + 1) (hchunks : loaded.chunks = .ofList chunks)
    (hfirst : chunks[0]? = some first)
    (hfilename : filename = loaded.filename ∨ stripWhitespace loaded.filename = .ok filename)
    (hobject : store.objects ptr = some { loaded with filename })
    (hrun : Run (fun s e t => step ptr loaded s e = some t) (fun _ _ => True) ⟨store, []⟩ s)
    (hquery : s.store.query q = .ok store') (hhashed : 0 < s.store.timesHashed ptr q)
    : ∃ qry fresh bpkg,
        bpkgGetCompletedChunks s.store.files loaded = .ok (qry, fresh)
          ∧ qry.hashes.hashes = fresh.completed.map Prod.snd
          ∧ store'.objects ptr = some bpkg
          ∧ ((bpkg.completed = fresh.completed
              ∧ ∀ resArgs, q = .getData resArgs →
                  bpkg.holding (cstr resArgs.chunkHash) = fresh.holding (cstr resArgs.chunkHash))
              ↔
            ∀ j chunk data,
              chunks[j]? = some chunk
                →
              covering first.size.toNat j (loaded.dataFile s.store.files) = none
                →
              lastCovering first.size.toNat j s.past = some data
                →
              Sha256.digest (slice data (j * first.size.toNat) first.size.toNat) ≠ chunk.hash
                ∧ ∀ resArgs, q = .getData resArgs →
                    Sha256.digest (slice data (j * first.size.toNat) first.size.toNat)
                      ≠ cstr resArgs.chunkHash) := by
  obtain ⟨hashes, chunks₀, leaves, hloaded, hhash⟩ := loaded_of_bpkgLoad hload hcount hchunks
  have hlen := hloaded.length_chunks
  obtain ⟨tree, htree, hsound, hleaves⟩ := hloaded.sound
  -- the state before and after the call
  have hstart : Remembers hashes chunks₀ chunks leaves loaded first.size.toNat []
      { loaded with filename } := by
    have hremembers := hloaded.remembers first.size.toNat
    refine ⟨hremembers.sound, hremembers.chunks_eq, rfl, ?_⟩
    cases hfilename with
    | inl heq => rw [heq]
    | inr hstrip =>
      rw [hstrip]
      exact stripWhitespace_idem hstrip
  obtain ⟨bpkg₀, hobject₀, hremembers₀⟩ := remembers_run hlen hfirst hrun ⟨_, hobject, hstart⟩
  obtain ⟨_, hhashes⟩ := PackageStore.query_hashes hquery ptr
  rw [hobject₀] at hhashes
  obtain ⟨hhashable, bpkg, hobject', hremembers⟩ := hremembers₀.of_hashes hlen hfirst hhashes
  -- the fresh copy
  obtain ⟨fresh, hcompute, hfresh⟩ := (hloaded.remembers first.size.toNat).computeHashes hlen hfirst
    (hhashable hhashed)
  obtain ⟨qry, hqry, hreport⟩ := hloaded.completedChunks_eq hfresh hcompute
  refine ⟨qry, fresh, bpkg, hqry, hreport, hobject', ?_⟩
  have hcompleted : bpkg.completed = fresh.completed
      ↔ ∀ (j : Nat) (chunk : Chunk), chunks[j]? = some chunk → ∀ data,
          covering first.size.toNat j (loaded.dataFile s.store.files) = none
            →
          lastCovering first.size.toNat j s.past = some data
            →
          Sha256.digest (slice data (j * first.size.toNat) first.size.toNat) ≠ chunk.hash := by
    rw [hremembers.completed_eq, hfresh.completed_eq, remembered_replicate hhashed,
      agree_iff hloaded.nodup (·.value) hloaded.value_ne, hloaded.forall_leaves_iff hhash (P := fun j value =>
        ∀ data, covering first.size.toNat j (loaded.dataFile s.store.files) = none
          → lastCovering first.size.toNat j s.past = some data
          → Sha256.digest (slice data (j * first.size.toNat) first.size.toNat) ≠ value)]
  have hholding (hash : Bytes) (hne : hash ≠ []) : bpkg.holding hash = fresh.holding hash
      ↔ ∀ (j : Nat) (chunk : Chunk), chunks[j]? = some chunk → ∀ data,
          covering first.size.toNat j (loaded.dataFile s.store.files) = none
            →
          lastCovering first.size.toNat j s.past = some data
            →
          Sha256.digest (slice data (j * first.size.toNat) first.size.toNat) ≠ hash := by
    rw [hremembers.holding_eq, hfresh.holding_eq, remembered_replicate hhashed,
      agree_iff hloaded.nodup (fun _ => hash) (fun _ _ => hne),
      hloaded.forall_leaves_iff hhash (P := fun j _ =>
        ∀ data, covering first.size.toNat j (loaded.dataFile s.store.files) = none
          → lastCovering first.size.toNat j s.past = some data
          → Sha256.digest (slice data (j * first.size.toNat) first.size.toNat) ≠ hash)]
  -- a request that hashes the file asks for the hash of some chunk
  have hrequested : ∀ resArgs, q = .getData resArgs → cstr resArgs.chunkHash ≠ [] := by
    intro resArgs hq
    rw [hq] at hhashed
    unfold PackageStore.timesHashed at hhashed
    dsimp only at hhashed
    split at hhashed
    . next other hchoose =>
      split at hhashed
      . next heq =>
        obtain ⟨_, chosen, slot, hchosen, hfound⟩ := PackageStore.choose_cases hchoose
        rw [heq, hobject₀, Option.some.injEq] at hchosen
        rw [← hchosen] at hfound
        obtain ⟨info, hinfo, hvalue⟩ := hremembers₀.mem_of_chunkInMemory hloaded hfound
        rw [← hvalue]
        exact hloaded.value_ne info hinfo
      . omega
    . omega
  rw [hcompleted]
  constructor
  . rintro ⟨hcomplete, hrequests⟩ j chunk data hchunk hnot hlast
    refine ⟨hcomplete j chunk hchunk data hnot hlast, ?_⟩
    intro resArgs hq
    exact (hholding _ (hrequested resArgs hq)).mp (hrequests resArgs hq) j chunk hchunk data hnot hlast
  . intro hall
    refine ⟨fun j chunk hchunk data hnot hlast => (hall j chunk data hchunk hnot hlast).1, ?_⟩
    intro resArgs hq
    rw [hholding _ (hrequested resArgs hq)]
    intro j chunk hchunk data hnot hlast
    exact (hall j chunk data hchunk hnot hlast).2 resArgs hq

def oneManaged (content : Bytes) : PackageStore where
  packages := { managedArray := [some 1], size := 1 }
  objects := fun ptr => if ptr = 1 then some (twoChunksObj 2) else none
  files := fun _ => some content

theorem completed_current_two
    : ∃ s store' bpkg fresh qry,
        Run (fun s e t => step 1 (twoChunksObj 2) s e = some t) (fun _ _ => True)
            ⟨oneManaged (ascii "xy"), []⟩ s
          ∧ s.past = [some (ascii "xy")]
          ∧ s.store.files (ascii "f") = some (ascii "ab")
          ∧ s.store.query (.completedChunks 1) = .ok store'
          ∧ store'.objects 1 = some bpkg
          ∧ bpkgGetCompletedChunks s.store.files (twoChunksObj 2) = .ok (qry, fresh)
          ∧ bpkg.completed = fresh.completed := by
  have hexec : (Run.exec (step 1 (twoChunksObj 2)) (fun _ _ => True) ⟨oneManaged (ascii "xy"), []⟩
      [.query (.completedChunks 1), .change fun _ => some (ascii "ab")]).bind (fun s =>
        (s.store.query (.completedChunks 1)).toOption.map fun _ =>
          (s.past, s.store.files (ascii "f")))
      = some ([some (ascii "xy")], some (ascii "ab")) := by
    decide +kernel
  obtain ⟨s, hs, heq⟩ := Option.bind_eq_some_iff.mp hexec
  obtain ⟨store', hquery, heq⟩ := Option.map_eq_some_iff.mp heq
  rw [toOption_eq_some] at hquery
  rw [Prod.mk.injEq] at heq
  obtain ⟨hpast, hfile⟩ := heq
  have hrun := Run.of_exec hs
  obtain ⟨qry, fresh, bpkg, hqry, _, hobject, hiff⟩ := completed_current_iff load_twoChunks rfl rfl
    (@rfl _ (some (Chunk.mk digestAb 0 2 (some 1)))) (.inl rfl) rfl hrun hquery Nat.one_pos
  refine ⟨s, store', bpkg, fresh, qry, hrun, hpast, hfile, hquery, hobject, hqry, ?_⟩
  apply (hiff.mpr _).1
  intro j chunk data _ hnot hlast
  have hname : stripWhitespace (some (ascii "f")) = .ok (some (ascii "f")) := by decide
  rw [dataFile_eq hname, hfile] at hnot
  rw [hpast] at hlast
  cases j with
  | zero => exact absurd hnot (show covering 2 0 (some (ascii "ab")) ≠ none by decide)
  | succ j =>
    -- no file had the second block
    have hshort : ¬ (j + 1 + 1) * 2 ≤ (ascii "xy").length := by
      rw [show (ascii "xy").length = 2 from rfl]
      omega
    have hnone : lastCovering 2 (j + 1) [some (ascii "xy")] = none := by
      simp [lastCovering, covering, Option.filter, hshort]
    exact absurd (hnone.symm.trans hlast) (by simp)

/--
The first chunk is complete, then the file is truncated. The call still treats the chunk as complete.
-/
theorem completed_current_fails
    : ∃ s store' bpkg fresh qry,
        bpkgLoad ⟨none, none, 7, 7, none, 7, none, none⟩ (some (twoChunks (ascii "2"))) none
            =
          .ok (some (twoChunksObj 2))
          ∧ Run (fun s e t => step 1 (twoChunksObj 2) s e = some t) (fun _ _ => True)
              ⟨oneManaged (ascii "ab"), []⟩ s
          ∧ s.store.files (ascii "f") = some []
          ∧ s.store.query (.completedChunks 1) = .ok store'
          ∧ store'.objects 1 = some bpkg
          ∧ bpkgGetCompletedChunks s.store.files (twoChunksObj 2) = .ok (qry, fresh)
          ∧ bpkg.completed = [(1, digestAb)]
          ∧ fresh.completed = [] := by
  have hexec : (Run.exec (step 1 (twoChunksObj 2)) (fun _ _ => True) ⟨oneManaged (ascii "ab"), []⟩
      [.query (.completedChunks 1), .change fun _ => some []]).bind (fun s =>
        (s.store.query (.completedChunks 1)).toOption.bind fun store' =>
          (bpkgGetCompletedChunks s.store.files (twoChunksObj 2)).toOption.bind fun answer =>
            (store'.objects 1).map fun bpkg =>
              (s.store.files (ascii "f"), bpkg.completed, answer.2.completed))
      = some (some [], [(1, digestAb)], []) := by
    decide +kernel
  obtain ⟨s, hs, heq⟩ := Option.bind_eq_some_iff.mp hexec
  obtain ⟨store', hquery, heq⟩ := Option.bind_eq_some_iff.mp heq
  obtain ⟨⟨qry, fresh⟩, hqry, heq⟩ := Option.bind_eq_some_iff.mp heq
  obtain ⟨bpkg, hobject, heq⟩ := Option.map_eq_some_iff.mp heq
  rw [toOption_eq_some] at hquery hqry
  simp only [Prod.mk.injEq] at heq
  exact ⟨s, store', bpkg, fresh, qry, load_twoChunks, Run.of_exec hs, heq.1, hquery, hobject, hqry,
    heq.2.1, heq.2.2⟩

end History

end Btide
