import Btide.Net.Transfer

/-!
This module contains the fetch of a chunk: the request, the blocks of the answer and their delivery
in any order.
-/

open Bytes CLib

namespace Btide

open handlePeers

namespace FileSystem

theorem write_self {files : FileSystem} {name content : Bytes} (h : files name = some content)
    : FileSystem.write files name content = files := by
  funext other
  unfold write
  split
  . next heq => rw [heq, h]
  . rfl

theorem write_write (files : FileSystem) (name content content' : Bytes)
    : FileSystem.write (FileSystem.write files name content) name content'
        =
      FileSystem.write files name content' := by
  funext other
  unfold write
  split
  . rfl
  . rfl

theorem write_same (files : FileSystem) (name content : Bytes)
    : FileSystem.write files name content name = some content := by
  simp [write]

end FileSystem

structure Holds (packages : ManagedPackages) (files : FileSystem) (pkg : Package) (ident : Bytes)
    (slot : Nat) (bpkg : BpkgObj) (name content : Bytes) : Prop where
  manages : Manages packages ident slot bpkg
  loaded : pkg.IsLoaded bpkg
  file : files name = some content
  length_content : content.length = pkg.length

structure Package.Distinct (pkg : Package) : Prop where
  length_hash : ∀ hash ∈ pkg.hashes ++ pkg.chunks.map Chunk.hash, hash.length = CHUNK_HASH_SIZE
  nodup : (pkg.hashes ++ pkg.chunks.map Chunk.hash).Nodup

section Fetch

variable {pkg : Package} {chunk : Chunk} {k : Nat}

theorem Package.Distinct.pick_eq (h : pkg.Distinct) (hk : pkg.chunks[k]? = some chunk) {off : UInt32}
    (hlo : chunk.offset ≤ off) (hhi : off ≤ chunk.offset + chunk.size)
    : pkg.pick chunk.hash (some off) = some chunk := by
  have hmem := List.mem_of_getElem? hk
  have hin : (decide (chunk.hash = chunk.hash) && chunk.spans (some off)) = true := by
    simp [Chunk.spans, hlo, hhi]
  unfold pick
  cases hfind : pkg.chunks.find? (fun other => decide (other.hash = chunk.hash)
      && other.spans (some off)) with
  | none =>
    rw [List.find?_eq_none] at hfind
    exact absurd hin (hfind chunk hmem)
  | some other =>
    have hother := List.mem_of_find?_eq_some hfind
    have hsat := List.find?_some hfind
    rw [Bool.and_eq_true, decide_eq_true_eq] at hsat
    have hnodup := (List.nodup_append.mp h.nodup).2.1
    rw [List.inj_on_of_nodup_map hnodup hother hmem hsat.1]

theorem chunk_end {off size : UInt32} (h : off.toNat + size.toNat < 2 ^ 32)
    : (off + size).toNat = off.toNat + size.toNat := by
  rw [UInt32.toNat_add]
  omega

def rangeOf (pkt : BtidePacket) : Nat × Nat :=
  ((resArgs pkt).fileOffset.toNat, (resArgs pkt).dataRecieved.toNat)

theorem handlePeers.IsBlock.rangeOf_eq {chunkHash ident content : Bytes} {pkt : BtidePacket}
    {r : Nat × Nat} (h : IsBlock chunkHash ident content pkt r) : rangeOf pkt = r := by
  unfold rangeOf
  rw [h.fileOffset_eq, h.dataRecieved_eq]

theorem map_rangeOf {chunkHash ident content : Bytes} {sent : List BtidePacket}
    {ranges : List (Nat × Nat)} (h : List.Forall₂ (IsBlock chunkHash ident content) sent ranges)
    : sent.map rangeOf = ranges ∧ ∀ pkt ∈ sent, IsBlock chunkHash ident content pkt (rangeOf pkt) := by
  induction h with
  | nil => simp
  | cons hpkt _ ih =>
    rw [List.map_cons, hpkt.rangeOf_eq, ih.1, List.forall_mem_cons, hpkt.rangeOf_eq]
    exact ⟨rfl, hpkt, ih.2⟩

section Deliver

variable {packages : ManagedPackages} {ident chunkHash ident' content' : Bytes} {slot : Nat}
  {bpkg : BpkgObj} {name : Bytes}

theorem handleRes_block {files : FileSystem} {content : Bytes} {pkt : BtidePacket} {r : Nat × Nat}
    (hdistinct : pkg.Distinct) (hk : pkg.chunks[k]? = some chunk)
    (hend : chunk.offset.toNat + chunk.size.toNat < 2 ^ 32)
    (hholds : Holds packages files pkg (cstr ident) slot bpkg name content)
    (hname : bpkg.filename = some name) (hident : (ident'.take IDENT_SIZE).take 20 = ident.take 20)
    (hhash : cstr (chunkHash.take CHUNK_HASH_SIZE ++ [0]) = chunk.hash)
    (hpkt : IsBlock chunkHash ident' content' pkt r) (hlo : chunk.offset.toNat ≤ r.1)
    (hhi : r.1 + r.2 ≤ chunk.offset.toNat + chunk.size.toNat)
    (hsize : r.1 + r.2 ≤ content'.length)
    : handleRes packages files pkt
        =
      .ok (FileSystem.write files name (patch content' content r.1 r.2)) := by
  obtain ⟨data, hdata, hlen, htake⟩ := hpkt.data_eq
  have hchunkEnd := chunk_end hend
  have hcontent := hholds.length_content
  have hlast := Package.chunk_end_le (List.mem_of_getElem? hk)
  rw [← hcontent] at hlast
  have hpick : pkg.pick (cstr (resArgs pkt).chunkHash) (some (resArgs pkt).fileOffset) = some chunk := by
    rw [hpkt.chunkHash_eq, hhash]
    apply hdistinct.pick_eq hk
    . rw [UInt32.le_iff_toNat_le, hpkt.fileOffset_eq]
      exact hlo
    . rw [UInt32.le_iff_toNat_le, hpkt.fileOffset_eq, hchunkEnd]
      omega
  have hmanages : Manages packages (cstr (resArgs pkt).ident) slot bpkg := by
    apply hholds.manages.congr
    rw [hpkt.ident_eq, hident]
  have hfound : chunkInMemory packages (cstr (resArgs pkt).ident) (cstr (resArgs pkt).chunkHash)
      = .ok (.found slot) := by
    rw [hpkt.chunkHash_eq, hhash]
    exact hmanages.chunkInMemory_found hholds.loaded hdistinct.nodup (List.mem_of_getElem? hk)
  have hroom : r.2 ≤ (chunk.offset + chunk.size - (resArgs pkt).fileOffset).toNat := by
    rw [UInt32.toNat_sub_of_le, hchunkEnd, hpkt.fileOffset_eq]
    . omega
    . rw [UInt32.le_iff_toNat_le, hpkt.fileOffset_eq, hchunkEnd]
      omega
  have hslice : (slice content' r.1 r.2).length = r.2 := length_slice_of_le hsize
  unfold handleRes
  rw [if_pos hpkt.error_eq, addDataToFile_found hholds.manages.slot_eq hfound hholds.loaded hname
    hholds.file hdata (by rw [hpkt.dataRecieved_eq]; exact hlen)]
  simp only [hpick, hpkt.dataRecieved_eq, hpkt.fileOffset_eq, hroom, ↓reduceIte, htake]
  rw [overwrite_eq_splice (by omega), patch]

theorem handleRes_run {files : FileSystem} {content : Bytes} {order : List BtidePacket}
    (hdistinct : pkg.Distinct) (hk : pkg.chunks[k]? = some chunk)
    (hend : chunk.offset.toNat + chunk.size.toNat < 2 ^ 32)
    (hholds : Holds packages files pkg (cstr ident) slot bpkg name content)
    (hname : bpkg.filename = some name) (hident : (ident'.take IDENT_SIZE).take 20 = ident.take 20)
    (hhash : cstr (chunkHash.take CHUNK_HASH_SIZE ++ [0]) = chunk.hash)
    (hlen : content'.length = pkg.length)
    (horder : ∀ pkt ∈ order, IsBlock chunkHash ident' content' pkt (rangeOf pkt)
      ∧ chunk.offset.toNat ≤ (rangeOf pkt).1
      ∧ (rangeOf pkt).1 + (rangeOf pkt).2 ≤ chunk.offset.toNat + chunk.size.toNat)
    : order.foldlM (handleRes packages) files
        =
      .ok (FileSystem.write files name (patchAll content' content (order.map rangeOf))) := by
  have hlast := Package.chunk_end_le (List.mem_of_getElem? hk)
  induction order generalizing files content with
  | nil =>
    rw [List.map_nil, patchAll_nil, FileSystem.write_self hholds.file]
    rfl
  | cons pkt order ih =>
    rw [List.forall_mem_cons] at horder
    obtain ⟨⟨hpkt, hlo, hhi⟩, hrest⟩ := horder
    have hstep := handleRes_block hdistinct hk hend hholds hname hident hhash hpkt hlo hhi (by omega)
    have hcontent := hholds.length_content
    have hnext : Holds packages
        (FileSystem.write files name (patch content' content (rangeOf pkt).1 (rangeOf pkt).2)) pkg
        (cstr ident) slot bpkg name (patch content' content (rangeOf pkt).1 (rangeOf pkt).2) := by
      refine ⟨hholds.manages, hholds.loaded, FileSystem.write_same _ _ _, ?_⟩
      rw [length_patch (by omega) (by omega), hcontent]
    rw [List.foldlM_cons, hstep, List.map_cons, patchAll_cons]
    simp only [bind, Except.bind]
    rw [ih hnext hrest, FileSystem.write_write]

end Deliver

theorem mem_digests_of_complete {data : Bytes} (hchunk : chunk ∈ pkg.chunks)
    (h : chunk.complete data = true) : (pkg.digests data).contains chunk.hash = true := by
  rw [Chunk.complete_iff] at h
  rw [List.contains_iff_mem, Package.digests, List.mem_map]
  exact ⟨chunk, hchunk, h.2⟩

theorem take_block {block : Bytes} {size : Nat} (hblock : size ≤ block.length) (rest : Bytes) {n : Nat}
    (hn : n ≤ size) : (block.take size ++ rest).take n = block.take n := by
  rw [List.take_append_of_le_length, List.take_take, Nat.min_eq_left hn]
  rw [List.length_take]
  omega

theorem le_length_block {block : Bytes} {size : Nat} (hblock : size ≤ block.length) (rest : Bytes)
    : size ≤ (block.take size ++ rest).length := by
  rw [List.length_append, List.length_take]
  omega

theorem handleReq_blocks {packages : ManagedPackages} {files : FileSystem} {slot : Nat} {bpkg : BpkgObj}
    {name data ident : Bytes} {pkt : BtidePacket} {res : ResArgs} (hdistinct : pkg.Distinct)
    (hk : pkg.chunks[k]? = some chunk) (hend : chunk.offset.toNat + chunk.size.toNat < 2 ^ 32)
    (hsize : pkg.chunkSize < 2 ^ 31)
    (hholds : Holds packages files pkg (cstr ident) slot bpkg name data)
    (hname : stripWhitespace bpkg.filename = .ok (some name))
    (hcontains : (pkg.digests data).contains chunk.hash = true) (hreq : reqArgs pkt = res)
    (hident : res.ident.take 20 = ident.take 20)
    (hidentLen : IDENT_SIZE ≤ res.ident.length) (hhash : cstr res.chunkHash = chunk.hash)
    (hhashLen : CHUNK_HASH_SIZE ≤ res.chunkHash.length) (hread : res.bytesRead = 0)
    (hlo : chunk.offset ≤ res.fileOffset)
    (hlen : res.fileOffset.toNat + res.dataLen.toNat = chunk.offset.toNat + chunk.size.toNat)
    : (handleReq packages files pkt).fault = none
        ∧ List.Forall₂ (IsBlock res.chunkHash res.ident data) (handleReq packages files pkt).sent
            (cut DATA_MAX_SIZE res.fileOffset.toNat res.dataLen.toNat) := by
  have hmem := List.mem_of_getElem? hk
  have hmanages := hholds.manages.congr hident.symm
  have hfound := hmanages.chunkInMemory_found hholds.loaded hdistinct.nodup hmem
  rw [← hhash] at hfound
  obtain ⟨bpkg', _, _, _, hopen⟩ := openFile_found hholds.manages.slot_eq hfound hholds.loaded hname
    hholds.file hholds.length_content
  have hpick : (pkg.pick (cstr res.chunkHash) (some res.fileOffset)).isSome = true := by
    rw [hhash, hdistinct.pick_eq hk hlo]
    . rfl
    . rw [UInt32.le_iff_toNat_le, chunk_end hend]
      omega
  rw [← hhash] at hcontains
  rw [if_pos ⟨hcontains, hpick⟩] at hopen
  have hlast := Package.chunk_end_le hmem
  rw [← hholds.length_content] at hlast
  have hchunkSize := pkg.size_eq chunk hmem
  rw [UInt32.le_iff_toNat_le] at hlo
  obtain ⟨ranges, _, hblocks, hall⟩ := @sendBlocks_spec { res with data := some [] } data _
    res.dataLen.toNat rfl (by rw [hread, Nat.zero_add]) (by dsimp only; omega) (by dsimp only; omega)
    hhashLen hidentLen
  obtain ⟨hfault, hranges⟩ := hall (by unfold INT_MAX; dsimp only; omega)
  rw [hranges] at hblocks
  unfold handleReq
  simp only [hreq, hopen]
  exact ⟨hfault, hblocks⟩

/--
A fetch copies the requested bytes of a complete chunk, in whatever order and how often the packets
are delivered. The block of the identifier has a NUL, which ends what is printed of it.
-/
theorem fetch_transfers {packages packages' : ManagedPackages} {files files' : FileSystem}
    {slot slot' : Nat} {bpkg bpkg' : BpkgObj} {name name' content data ident chunkHash : Bytes}
    {off : UInt32} (hdistinct : pkg.Distinct) (hsize : pkg.chunkSize < 2 ^ 31)
    (hk : pkg.chunks[k]? = some chunk) (hend : chunk.offset.toNat + chunk.size.toNat < 2 ^ 32)
    (hholds : Holds packages files pkg (cstr ident) slot bpkg name content)
    (hname : bpkg.filename = some name)
    (hholds' : Holds packages' files' pkg (cstr ident) slot' bpkg' name' data)
    (hname' : stripWhitespace bpkg'.filename = .ok (some name')) (hcomplete : chunk.complete data = true)
    (hident : IDENT_SIZE ≤ ident.length) (hnul : 0 ∈ ident.take IDENT_SIZE)
    (hhash : cstr chunkHash = chunk.hash) (hlo : chunk.offset ≤ off)
    (hhi : off.toNat < chunk.offset.toNat + chunk.size.toNat)
    : ∃ req pkt,
        calculateDataLen bpkg (cstr chunkHash) (some off) = .ok (some req)
          ∧ sendReq { req with ident, chunkHash } = .ok pkt
          ∧ pkt.msgCode = PKT_MSG_REQ
          ∧ InPayload (reqLoads pkt)
          ∧ (handleReq packages' files' pkt).fault = none
          ∧ (handleReq packages' files' pkt).sent.length
              =
            (chunk.offset.toNat + chunk.size.toNat - off.toNat + DATA_MAX_SIZE - 1) / DATA_MAX_SIZE
          ∧ (∀ res ∈ (handleReq packages' files' pkt).sent,
              res.msgCode = PKT_MSG_RES ∧ InPayload (resLoads res))
          ∧ ∀ order : List BtidePacket,
              order ⊆ (handleReq packages' files' pkt).sent
                →
              (handleReq packages' files' pkt).sent ⊆ order
                →
              order.foldlM (handleRes packages) files
                =
              .ok (FileSystem.write files name
                (patch data content off.toNat (chunk.offset.toNat + chunk.size.toNat - off.toNat))) := by
  have hmem := List.mem_of_getElem? hk
  have hchunkEnd := chunk_end hend
  have hlo' := UInt32.le_iff_toNat_le.mp hlo
  have hpick : pkg.pick (cstr chunkHash) (some off) = some chunk := by
    rw [hhash]
    apply hdistinct.pick_eq hk hlo
    rw [UInt32.le_iff_toNat_le, hchunkEnd]
    omega
  have hlen : (chunk.offset + chunk.size - off).toNat
      = chunk.offset.toNat + chunk.size.toNat - off.toNat := by
    rw [UInt32.toNat_sub_of_le, hchunkEnd]
    rw [UInt32.le_iff_toNat_le, hchunkEnd]
    omega
  have hdata := hholds.loaded.calculateDataLen_eq (cstr chunkHash) (some off)
  rw [hpick] at hdata
  have hhash64 := hdistinct.length_hash chunk.hash (by
    rw [List.mem_append]
    exact .inr (List.mem_map_of_mem hmem))
  have hhashLen : CHUNK_HASH_SIZE ≤ chunkHash.length := by
    rw [← hhash64, ← hhash]
    exact (List.takeWhile_prefix _).length_le
  have hsame : cstr (chunkHash.take CHUNK_HASH_SIZE ++ [0]) = chunk.hash := by
    rw [← List.replicate_one, cstr_append_replicate, cstr_take, hhash, ← hhash64, List.take_length]
  obtain ⟨pkt, hsend, hcode, hreq⟩ := @reqArgs_of_sendReq
    { calculateDataLen.result (some off) chunk with ident, chunkHash } hhashLen hident
  have hfront (rest : Bytes) : (ident.take IDENT_SIZE ++ rest).take 20 = ident.take 20 :=
    take_block hident rest (by decide)
  obtain ⟨hfault, hblocks⟩ := handleReq_blocks hdistinct hk hend hsize hholds' hname'
    (mem_digests_of_complete hmem hcomplete) hreq (hfront _) (le_length_block hident _) hsame
    (le_length_block hhashLen _) rfl hlo
    (by simp only [calculateDataLen.result]; omega)
  simp only [calculateDataLen.result, hlen] at hblocks
  obtain ⟨hranges, hall⟩ := map_rangeOf hblocks
  have hlast := Package.chunk_end_le hmem
  have hcontent := hholds.length_content
  have hdataLen := hholds'.length_content
  refine ⟨_, pkt, hdata, hsend, hcode, ?_, hfault, ?_, ?_, ?_⟩
  . rw [inPayload_reqLoads_iff, hreq]
    exact List.mem_append_left _ hnul
  . rw [hblocks.length_eq, length_cut (by decide)]
  . intro res hres
    refine ⟨(hall res hres).code_eq, ?_⟩
    rw [inPayload_resLoads_iff, (hall res hres).ident_eq, List.take_left' (by rw [List.length_take]; omega)]
    exact hnul
  . intro order hsub hcover
    have hin : ∀ r ∈ order.map rangeOf, off.toNat ≤ r.1
        ∧ r.1 + r.2 ≤ off.toNat + (chunk.offset.toNat + chunk.size.toNat - off.toNat) := by
      intro r hr
      have hr' : r ∈ (handleReq packages' files' pkt).sent.map rangeOf := List.map_subset _ hsub hr
      rw [hranges] at hr'
      have := bounds_of_mem_cut hr'
      omega
    rw [handleRes_run hdistinct hk hend hholds hname _ _ hdataLen]
    . congr 2
      apply patchAll_eq_patch (by omega) (by omega) hin
      intro i hfrom hto
      obtain ⟨r, hr, hi⟩ := mem_cut_of_between (show 0 < DATA_MAX_SIZE by decide) hfrom hto
      rw [← hranges] at hr
      exact ⟨r, List.map_subset _ hcover hr, hi⟩
    . intro pkt' hpkt'
      have hrange := hin _ (List.mem_map_of_mem hpkt')
      exact ⟨hall pkt' (hsub hpkt'), by omega, by omega⟩
    . rw [List.take_left' (by rw [List.length_take]; omega)]
      have := hfront []
      rw [List.append_nil] at this
      exact this
    . rw [List.take_left' (by rw [List.length_take]; omega)]
      exact hsame

def oneChunk (hash : Bytes) (h : hash.length = CHUNK_HASH_SIZE) : Package where
  hashes := []
  chunks := [⟨hash, 0, 1, none⟩]
  chunkSize := 1
  length_chunks := rfl
  tiles := ⟨rfl, Nat.one_pos, trivial⟩
  size_eq := by simp
  length_hash_le := by simp [h]

def longIdent : Bytes :=
  List.replicate 1023 97 ++ [0]

theorem length_longIdent : longIdent.length = IDENT_SIZE := by
  rw [longIdent, List.length_append, List.length_replicate]
  rfl

theorem take_longIdent : longIdent.take IDENT_SIZE = longIdent :=
  List.take_of_length_le (Nat.le_of_eq length_longIdent)

theorem zero_mem_take_longIdent : 0 ∈ longIdent.take IDENT_SIZE := by
  rw [take_longIdent]
  exact List.mem_append_right _ (List.mem_singleton_self 0)

theorem Package.exists_manages (pkg : Package) (hn : pkg.hashes.length < 2 ^ 30) (ident : Bytes)
    : ∃ bpkg, pkg.IsLoaded bpkg ∧ bpkg.filename = some (ascii "f") ∧ bpkg.ident = some ident := by
  obtain ⟨tree, chunks, _, hloaded⟩ := pkg.exists_isLoaded hn
  have hmax : pkg.chunks.length < 2 ^ 32 := by
    rw [pkg.length_chunks]
    omega
  exact ⟨⟨some ident, some (ascii "f"), 1, 0, none, UInt32.ofNat pkg.chunks.length,
    .ofList chunks, some tree⟩, hloaded _ rfl rfl (UInt32.toNat_ofNat_of_lt' hmax), rfl, rfl⟩

theorem manages_first {bpkg : BpkgObj} {ident : Bytes} (hident : bpkg.ident = some ident)
    (rest : ManagedPackages) : Manages (some bpkg :: rest) ident 0 bpkg where
  slot_eq := rfl
  ident_eq := ⟨ident, hident, by simp [strncmpEq]⟩
  first := by
    intro i hi
    omega

theorem oneChunk_distinct {hash : Bytes} (h : hash.length = CHUNK_HASH_SIZE)
    : (oneChunk hash h).Distinct where
  length_hash := by simpa [oneChunk] using h
  nodup := by simp [oneChunk]

def letters (c : UInt8) : Bytes :=
  List.replicate CHUNK_HASH_SIZE c

theorem letters_ne_digest {c : UInt8} (hc : c ∉ Sha256.lut) (msg : Bytes)
    : letters c ≠ Sha256.digest msg := by
  intro heq
  apply hc
  apply @Sha256.mem_lut_of_mem_digest msg
  rw [← heq]
  exact List.mem_replicate.mpr ⟨by decide, rfl⟩

def longParts (hash : Bytes) (h : hash.length = CHUNK_HASH_SIZE) : Package where
  hashes := [letters 117]
  chunks := [⟨letters 119, 0, 6000, none⟩, ⟨hash, 6000, 6000, none⟩]
  chunkSize := 6000
  length_chunks := rfl
  tiles :=
    have hpos : 0 < (6000 : UInt32).toNat := by decide
    ⟨rfl, hpos, rfl, hpos, trivial⟩
  size_eq := by simp
  length_hash_le := by simp [h, letters]

theorem longParts_distinct {msg : Bytes} (h : (Sha256.digest msg).length = CHUNK_HASH_SIZE)
    : (longParts (Sha256.digest msg) h).Distinct where
  length_hash := by simp [longParts, letters, h]
  nodup := by
    have hu := letters_ne_digest (show 117 ∉ Sha256.lut by decide) msg
    have hw := letters_ne_digest (show 119 ∉ Sha256.lut by decide) msg
    have hne : letters 117 ≠ letters 119 := by decide
    simp [longParts, hu, hw, hne]

/--
The second of two parts is fetched from its second byte on. The three packets arrive in reverse, and one
of them twice.
-/
theorem fetch_transfers_two
    : ∃ bpkg bpkg' req pkt,
        calculateDataLen bpkg (Sha256.digest (List.replicate 6000 99)) (some 6001) = .ok (some req)
          ∧ sendReq { req with ident := longIdent, chunkHash := Sha256.digest (List.replicate 6000 99) }
              =
            .ok pkt
          ∧ (handleReq [none, some bpkg'] (fun _ => some (List.replicate 12000 99)) pkt).sent.length = 3
          ∧ ((handleReq [none, some bpkg'] (fun _ => some (List.replicate 12000 99)) pkt).sent.reverse
                ++ (handleReq [none, some bpkg'] (fun _ => some (List.replicate 12000 99)) pkt).sent.take
                  1).foldlM (handleRes [some bpkg]) (fun _ => some (List.replicate 12000 120))
              =
            .ok (FileSystem.write (fun _ => some (List.replicate 12000 120)) (ascii "f")
              (List.replicate 6001 120 ++ List.replicate 5999 99)) := by
  have hpart : slice (List.replicate 12000 99) 6000 6000 = List.replicate 6000 (99 : UInt8) := by
    rw [slice, List.drop_replicate, List.take_replicate]
    rfl
  have hpatch : patch (List.replicate 12000 99) (List.replicate 12000 120) 6001 5999
      = List.replicate 6001 120 ++ List.replicate 5999 (99 : UInt8) := by
    rw [patch, splice, slice, List.drop_replicate, List.take_replicate, List.take_replicate,
      List.length_replicate, List.drop_replicate]
    exact List.append_nil _
  have hlen (c : UInt8) : (List.replicate 12000 c).length = 12000 := List.length_replicate
  have hcontent := hlen 120
  have hdata := hlen 99
  rw [← hpart, ← hpatch]
  generalize List.replicate 12000 (120 : UInt8) = content at hcontent ⊢
  generalize List.replicate 12000 (99 : UInt8) = data at hdata ⊢
  have hdigest : (Sha256.digest (slice data 6000 6000)).length = CHUNK_HASH_SIZE := by
    apply Sha256.length_digest
    rw [length_slice, hdata]
    decide
  have hdistinct := longParts_distinct hdigest
  have hzero : ∀ c ∈ Sha256.digest (slice data 6000 6000), c ≠ 0 := by
    rintro c hc rfl
    exact absurd (Sha256.mem_lut_of_mem_digest hc) (by decide)
  have hcomplete : (Chunk.mk (Sha256.digest (slice data 6000 6000)) 6000 6000 none).complete data
      = true := by
    rw [Chunk.complete_iff]
    exact ⟨Nat.le_of_eq hdata.symm, rfl⟩
  generalize Sha256.digest (slice data 6000 6000) = hash at *
  obtain ⟨bpkg, hloaded, hname, hident⟩ :=
    (longParts hash hdigest).exists_manages (show 1 < 2 ^ 30 by decide) (cstr longIdent)
  have hmanages := manages_first hident []
  have hmanages' : Manages [none, some bpkg] (cstr longIdent) 1 bpkg :=
    ⟨rfl, hmanages.ident_eq, fun i hi other hother => by
      rw [Nat.lt_one_iff.mp hi] at hother
      cases hother⟩
  have hstrip : stripWhitespace bpkg.filename = .ok (some (ascii "f")) := by
    rw [hname]
    decide
  have hlength : (longParts hash hdigest).length = 12000 := by
    show 2 * 6000 = 12000
    decide
  have hholds : Holds [some bpkg] (fun _ => some content) (longParts hash hdigest) (cstr longIdent) 0 bpkg
      (ascii "f") content :=
    ⟨hmanages, hloaded, rfl, hcontent.trans hlength.symm⟩
  have hholds' : Holds [none, some bpkg] (fun _ => some data) (longParts hash hdigest) (cstr longIdent) 1
      bpkg (ascii "f") data :=
    ⟨hmanages', hloaded, rfl, hdata.trans hlength.symm⟩
  have hoff : (6000 : UInt32).toNat = 6000 := rfl
  have hoff' : (6001 : UInt32).toNat = 6001 := rfl
  obtain ⟨req, pkt, hreq, hsend, _, _, _, hsent, _, horder⟩ :=
    @fetch_transfers _ ⟨hash, 6000, 6000, none⟩ 1 _ _ _ _ _ _ _ _ _ _ _ _ _ _ 6001 hdistinct
      (show 6000 < 2 ^ 31 by decide) rfl (by simp only [hoff]; decide) hholds hname hholds' hstrip
      hcomplete (Nat.le_of_eq length_longIdent.symm) zero_mem_take_longIdent
      (cstr_of_forall hzero)
      (show (6000 : UInt32) ≤ 6001 by decide) (by simp only [hoff, hoff']; decide)
  rw [cstr_of_forall hzero] at hreq
  simp only [hoff, hoff', Nat.reduceAdd, Nat.reduceSub] at hsent horder
  refine ⟨bpkg, bpkg, req, pkt, hreq, hsend, hsent, ?_⟩
  apply horder
  . intro res hres
    rw [List.mem_append, List.mem_reverse] at hres
    exact hres.elim id List.mem_of_mem_take
  . intro res hres
    exact List.mem_append_left _ (List.mem_reverse.mpr hres)

def threeChunks (hash : Bytes) (h : hash.length = CHUNK_HASH_SIZE) : Package where
  hashes := [letters 117, letters 118]
  chunks := [
    ⟨letters 119, 0, 2147483647, none⟩,
    ⟨letters 120, 2147483647, 2147483647, none⟩,
    ⟨hash, 4294967294, 2147483647, none⟩]
  chunkSize := 2147483647
  length_chunks := rfl
  tiles :=
    have hpos : 0 < (2147483647 : UInt32).toNat := by decide
    ⟨rfl, hpos, rfl, hpos, rfl, hpos, trivial⟩
  size_eq := by simp
  length_hash_le := by simp [h, letters]

theorem threeChunks_distinct {msg : Bytes} (h : (Sha256.digest msg).length = CHUNK_HASH_SIZE)
    : (threeChunks (Sha256.digest msg) h).Distinct where
  length_hash := by simp [threeChunks, letters, h]
  nodup := by
    have hletters (c d : UInt8) : letters c = letters d ↔ c = d := by
      simp [letters, CHUNK_HASH_SIZE]
    have hu := letters_ne_digest (show 117 ∉ Sha256.lut by decide) msg
    have hv := letters_ne_digest (show 118 ∉ Sha256.lut by decide) msg
    have hw := letters_ne_digest (show 119 ∉ Sha256.lut by decide) msg
    have hx := letters_ne_digest (show 120 ∉ Sha256.lut by decide) msg
    simp [threeChunks, hletters, hu, hv, hw, hx]

/--
No request is built for a chunk that ends behind the last offset, and a package whose identifier has
the same first characters hides the package.
-/
theorem fetch_transfers_fails
    : (∃ (pkg : Package) (chunk : Chunk) (bpkg : BpkgObj) (data : Bytes),
        pkg.Distinct
          ∧ pkg.chunkSize < 2 ^ 31
          ∧ pkg.chunks[2]? = some chunk
          ∧ Holds [some bpkg] (fun _ => some data) pkg (cstr longIdent) 0 bpkg (ascii "f") data
          ∧ bpkg.filename = some (ascii "f")
          ∧ chunk.complete data = true
          ∧ calculateDataLen bpkg chunk.hash (some chunk.offset) = .ok none)
        ∧ ∃ (pkg : Package) (chunk : Chunk) (bpkg other : BpkgObj) (req : ReqArgs) (pkt : BtidePacket),
            pkg.Distinct
              ∧ pkg.chunks[0]? = some chunk
              ∧ pkg.IsLoaded bpkg
              ∧ bpkg.filename = some (ascii "f")
              ∧ bpkg.ident = some (cstr longIdent)
              ∧ chunk.complete (ascii "c") = true
              ∧ calculateDataLen bpkg chunk.hash (some chunk.offset) = .ok (some req)
              ∧ sendReq { req with ident := longIdent, chunkHash := chunk.hash } = .ok pkt
              ∧ (handleReq [some other, some bpkg] (fun _ => some (ascii "c")) pkt).sent
                  =
                [⟨PKT_MSG_RES, 1, .zero⟩]
              ∧ ∀ files res,
                  cstr res.ident = cstr longIdent
                    →
                  cstr res.chunkHash = chunk.hash
                    →
                  addDataToFile [some other, some bpkg] files res = .ok files := by
  constructor
  . have hzeros : (List.replicate 6442450941 (0 : UInt8)).length = 6442450941 := List.length_replicate
    have hoffset : (4294967294 : UInt32).toNat = 4294967294 := rfl
    have hsize : (2147483647 : UInt32).toNat = 2147483647 := rfl
    have hslice : (slice (List.replicate 6442450941 0) 4294967294 2147483647).length < 2 ^ 32 := by
      rw [length_slice, hzeros]
      decide
    generalize List.replicate 6442450941 (0 : UInt8) = data at *
    have hlen : (Sha256.digest (slice data 4294967294 2147483647)).length = CHUNK_HASH_SIZE :=
      Sha256.length_digest hslice
    have hdistinct := threeChunks_distinct hlen
    generalize hhash : Sha256.digest (slice data 4294967294 2147483647) = hash at *
    obtain ⟨bpkg, hloaded, hname, hident⟩ :=
      (threeChunks hash hlen).exists_manages (show 2 < 2 ^ 30 by decide) (cstr longIdent)
    have hlength : (threeChunks hash hlen).length = 6442450941 := by
      show 3 * 2147483647 = 6442450941
      decide
    refine ⟨threeChunks hash hlen, ⟨hash, 4294967294, 2147483647, none⟩, bpkg, data, hdistinct,
      show 2147483647 < 2 ^ 31 by decide, rfl, ⟨manages_first hident [], hloaded, rfl, ?_⟩, hname, ?_, ?_⟩
    . rw [hzeros, hlength]
    . rw [Chunk.complete_iff]
      dsimp only
      rw [hoffset, hsize]
      exact ⟨Nat.le_of_eq hzeros.symm, hhash⟩
    . rw [hloaded.calculateDataLen_eq]
      have hpick : (threeChunks hash hlen).pick hash (some 4294967294) = none := by
        have hmem := hdistinct.nodup
        simp only [threeChunks, List.map_cons, List.map_nil, List.cons_append, List.nil_append,
          List.nodup_cons, List.mem_cons, not_or] at hmem
        unfold Package.pick threeChunks
        simp [hmem, Chunk.spans]
      rw [hpick]
      rfl
  . obtain ⟨bpkg, hloaded, hname, hident⟩ :=
      (oneChunk digestC rfl).exists_manages (Nat.two_pow_pos 30) (cstr longIdent)
    obtain ⟨other, hloaded', _, hident'⟩ :=
      (oneChunk (letters 117) rfl).exists_manages (Nat.two_pow_pos 30) (cstr longIdent)
    have hmanages := manages_first hident' [some bpkg]
    have hnoHash : chunkInMemory [some other, some bpkg] (cstr longIdent) digestC = .ok .noHash := by
      rw [hmanages.chunkInMemory_eq hloaded' (oneChunk_distinct rfl).nodup, if_neg]
      decide
    have hdata := hloaded.calculateDataLen_eq digestC (some 0)
    rw [(oneChunk_distinct rfl).pick_eq (k := 0) rfl (UInt32.le_refl 0) (by decide)] at hdata
    obtain ⟨pkt, hsend, _, hreq⟩ := @reqArgs_of_sendReq
      { calculateDataLen.result (some 0) ⟨digestC, 0, 1, none⟩ with
        ident := longIdent
        chunkHash := digestC } (by decide) (Nat.le_of_eq length_longIdent.symm)
    have hcomplete : (Chunk.mk digestC 0 1 none).complete (ascii "c") = true := by
      rw [Chunk.complete_iff]
      exact ⟨by decide, digest_c⟩
    refine ⟨oneChunk digestC rfl, ⟨digestC, 0, 1, none⟩, bpkg, other, _, pkt, oneChunk_distinct rfl, rfl,
      hloaded, hname, hident, hcomplete, hdata, hsend, ?_, ?_⟩
    . have hopen : getDataFromFile.openFile [some other, some bpkg] (fun _ => some (ascii "c"))
          (reqArgs pkt) = .ok (none, [some other, some bpkg]) := by
        apply openFile_noHash
        rw [hreq]
        dsimp only
        rw [cstr_append_replicate, take_longIdent]
        exact hnoHash
      unfold handleReq
      rw [hopen]
      rfl
    . intro files res hres hhash
      apply addDataToFile_noHash
      rw [hres, hhash]
      exact hnoHash

end Fetch

end Btide
