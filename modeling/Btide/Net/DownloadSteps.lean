import Btide.Net.Download

/-!
This module contains how the bytes that a fetch asks for get from the request over the blocks of the
answer to the data file.
-/

open Bytes CLib

namespace Btide

open handlePeers

theorem Package.Distinct.pick_of_spans {pkg : Package} (h : pkg.Distinct) {chunk : Chunk}
    (hchunk : chunk ∈ pkg.chunks) {offset : Option UInt32} (hspans : chunk.spans offset = true)
    : pkg.pick chunk.hash offset = some chunk := by
  have hin : (decide (chunk.hash = chunk.hash) && chunk.spans offset) = true := by
    rw [hspans, decide_eq_true rfl]
    rfl
  unfold pick
  cases hfind : pkg.chunks.find? (fun other => decide (other.hash = chunk.hash)
      && other.spans offset) with
  | none =>
    rw [List.find?_eq_none] at hfind
    exact absurd hin (hfind chunk hchunk)
  | some other =>
    have hsat := List.find?_some hfind
    rw [Bool.and_eq_true, decide_eq_true_eq] at hsat
    have hnodup := (List.nodup_append.mp h.nodup).2.1
    rw [List.inj_on_of_nodup_map hnodup (List.mem_of_find?_eq_some hfind) hchunk hsat.1]

def Chunk.startOf (chunk : Chunk) : Option UInt32 → Nat
  | none => chunk.offset.toNat
  | some off => off.toNat

structure Chunk.Asks (chunk : Chunk) (ident : Bytes) (off : Nat) (pkt : BtidePacket) : Prop where
  code_eq : pkt.msgCode = PKT_MSG_REQ
  ident_eq : Matches ident (reqArgs pkt).ident
  hash_eq : cstr (reqArgs pkt).chunkHash = chunk.hash
  offset_eq : (reqArgs pkt).fileOffset.toNat = off
  offset_le : chunk.offset.toNat ≤ off
  end_eq : off + (reqArgs pkt).dataLen.toNat = chunk.offset.toNat + chunk.size.toNat

structure Chunk.Brings (chunk : Chunk) (ident data : Bytes) (i : Nat) (pkt : BtidePacket) : Prop where
  block : ∃ chunkHash ident',
    IsBlock chunkHash ident' data pkt (rangeOf pkt)
      ∧ Matches ident ident'
      ∧ cstr (chunkHash.take CHUNK_HASH_SIZE ++ [0]) = chunk.hash
  offset_le : chunk.offset.toNat ≤ (rangeOf pkt).1
  end_le : (rangeOf pkt).1 + (rangeOf pkt).2 ≤ chunk.offset.toNat + chunk.size.toNat
  byte : (rangeOf pkt).1 ≤ i ∧ i < (rangeOf pkt).1 + (rangeOf pkt).2

namespace Peer.Shares

variable {peer : Peer} {pkg : Package} {ident name content data : Bytes} {slot : Nat} {bpkg : BpkgObj}
  {pkt : BtidePacket} {chunk : Chunk} {i off : Nat}

theorem holds (h : peer.Shares pkg ident name content slot bpkg) {mem : Bytes} (hmatch : Matches ident mem)
    : Holds peer.packages peer.files pkg (cstr mem) slot bpkg name content where
  manages := h.manages hmatch
  loaded := h.loaded
  file := h.file
  length_content := h.length_content

theorem name_eq (h : peer.Shares pkg ident name content slot bpkg)
    : stripWhitespace bpkg.filename = .ok (some name) := by
  rw [h.filename_eq]
  exact h.stripped

theorem exists_fetch (h : peer.Shares pkg ident name content slot bpkg) (hdistinct : pkg.Distinct)
    {mem chunkHash : Bytes} {offset : Option Bytes} {num : Option UInt32} (hchunk : chunk ∈ pkg.chunks)
    (hmatch : Matches ident mem) (hmem : IDENT_SIZE ≤ mem.length) (hhash : cstr chunkHash = chunk.hash)
    (hlen : CHUNK_HASH_SIZE ≤ chunkHash.length)
    (hnum : fetchParser.offsetNum offset = .ok (some num)) (hspans : chunk.spans num = true)
    : ∃ pkt, fetchParser peer.packages mem chunkHash offset = .ok (some pkt) := by
  have hfound := (h.manages hmatch).chunkInMemory_found h.loaded hdistinct.nodup hchunk
  have hdata := h.loaded.calculateDataLen_eq chunk.hash num
  rw [hdistinct.pick_of_spans hchunk hspans] at hdata
  obtain ⟨pkt, hsend, _⟩ := @reqArgs_of_sendReq
    { calculateDataLen.result num chunk with ident := mem, chunkHash } hlen hmem
  unfold fetchParser
  rw [hhash]
  simp only [hfound, hnum, List.getD_eq_getElem?_getD, h.slot_eq, Option.getD_some, deref_some, hdata,
    Option.map_some, hsend, bind, Except.bind, pure, Except.pure]
  exact ⟨pkt, rfl⟩

theorem fetch_asks (h : peer.Shares pkg ident name content slot bpkg) (hdistinct : pkg.Distinct)
    (hlt : pkg.length < 2 ^ 32) {mem chunkHash : Bytes} {offset : Option Bytes} {num : Option UInt32}
    {answer : Option BtidePacket} (hchunk : chunk ∈ pkg.chunks) (hmatch : Matches ident mem)
    (hhash : cstr chunkHash = chunk.hash) (hnum : fetchParser.offsetNum offset = .ok (some num))
    (hspans : chunk.spans num = true)
    (hfetch : fetchParser peer.packages mem chunkHash offset = .ok answer)
    : ∃ pkt, answer = some pkt ∧ chunk.Asks ident (chunk.startOf num) pkt := by
  obtain ⟨k, hk⟩ := List.getElem?_of_mem hchunk
  have hchunkEnd := chunk_end (Package.end_lt hlt hk)
  have hfound := (h.manages hmatch).chunkInMemory_found h.loaded hdistinct.nodup hchunk
  have hdata := h.loaded.calculateDataLen_eq chunk.hash num
  rw [hdistinct.pick_of_spans hchunk hspans] at hdata
  unfold fetchParser at hfetch
  simp only [hhash, hfound, hnum, List.getD_eq_getElem?_getD, h.slot_eq, Option.getD_some, deref_some,
    hdata, Option.map_some, bind_eq_ok, pure_eq_ok, Except.ok.injEq, exists_eq_left'] at hfetch
  obtain ⟨pkt, hsend, heq⟩ := hfetch
  obtain ⟨hhashLen, hidentLen⟩ := sendReq_ok hsend
  obtain ⟨pkt', hsend', hcode, hargs⟩ := reqArgs_of_sendReq hhashLen hidentLen
  rw [hsend, Except.ok.injEq] at hsend'
  rw [← hsend'] at hcode hargs
  have hfull : cstr (chunkHash.take CHUNK_HASH_SIZE ++ [0]) = chunk.hash := by
    have hle := pkg.length_hash_le chunk hchunk
    rw [← List.replicate_one, cstr_append_replicate, cstr_take, hhash, List.take_of_length_le hle]
  have hmatch' : Matches ident (mem.take IDENT_SIZE ++ List.replicate 2996 0) := by
    unfold Matches
    rw [cstr_append_replicate]
    exact (matches_take (by decide)).mpr hmatch
  refine ⟨pkt, heq.symm, hcode, ?_, ?_, ?_, ?_, ?_⟩
  . rw [hargs]
    exact hmatch'
  . rw [hargs]
    exact hfull
  . rw [hargs]
    cases num with
    | none => rfl
    | some off => rfl
  . cases num with
    | none => exact Nat.le_refl _
    | some off => exact (Chunk.end_of_spans hspans).1
  . rw [hargs]
    cases num with
    | none => rfl
    | some off =>
      obtain ⟨_, hhi, _⟩ := Chunk.end_of_spans hspans
      simp only [Chunk.startOf, calculateDataLen.result]
      rw [UInt32.toNat_sub_of_le, hchunkEnd]
      . omega
      . rw [UInt32.le_iff_toNat_le]
        exact hhi

theorem handleReq_brings (h : peer.Shares pkg ident name content slot bpkg) (hdistinct : pkg.Distinct)
    (hlt : pkg.length < 2 ^ 32) (hsize : pkg.chunkSize < 2 ^ 31) (hchunk : chunk ∈ pkg.chunks)
    (hcomplete : chunk.complete content = true)
    (hhas : slice content chunk.offset.toNat chunk.size.toNat
      = slice data chunk.offset.toNat chunk.size.toNat)
    (hasks : chunk.Asks ident off pkt) (hlo : off ≤ i) (hhi : i < chunk.offset.toNat + chunk.size.toNat)
    : ∃ pkt' ∈ (handleReq peer.packages peer.files pkt).sent, chunk.Brings ident data i pkt' := by
  obtain ⟨k, hk⟩ := List.getElem?_of_mem hchunk
  obtain ⟨_, hblocks⟩ := handleReq_blocks hdistinct hk (Package.end_lt hlt hk) hsize
    (h.holds hasks.ident_eq) h.name_eq (mem_digests_of_complete hchunk hcomplete) rfl rfl
    (length_reqArgs_ident pkt) hasks.hash_eq (length_reqArgs_chunkHash pkt) rfl
    (by rw [UInt32.le_iff_toNat_le, hasks.offset_eq]; exact hasks.offset_le)
    (by rw [hasks.offset_eq]; exact hasks.end_eq)
  obtain ⟨hranges, hall⟩ := map_rangeOf hblocks
  rw [hasks.offset_eq] at hranges
  have hend := hasks.end_eq
  -- the block that the byte is in
  have hbelow : i < off + (reqArgs pkt).dataLen.toNat := by omega
  obtain ⟨r, hr, hi⟩ := mem_cut_of_between (show 0 < DATA_MAX_SIZE by decide) hlo hbelow
  have hbounds := bounds_of_mem_cut hr
  rw [← hranges, List.mem_map] at hr
  obtain ⟨pkt', hpkt', hrange⟩ := hr
  have hoffset := hasks.offset_le
  rw [← hrange] at hbounds hi
  refine ⟨pkt', hpkt', ⟨(reqArgs pkt).chunkHash, (reqArgs pkt).ident, ?_, hasks.ident_eq, ?_⟩, by omega,
    by omega, hi⟩
  . have hblock := hall pkt' hpkt'
    obtain ⟨block, hdata, hle, htake⟩ := hblock.data_eq
    rw [slice_congr hhas (by omega) (by omega)] at htake
    exact { hblock with data_eq := ⟨block, hdata, hle, htake⟩ }
  . have hle := pkg.length_hash_le chunk hchunk
    rw [← List.replicate_one, cstr_append_replicate, cstr_take, hasks.hash_eq, List.take_of_length_le hle]

theorem handleRes_brings (h : peer.Shares pkg ident name content slot bpkg) (hdistinct : pkg.Distinct)
    (hlt : pkg.length < 2 ^ 32) (hdata : data.length = pkg.length) (hchunk : chunk ∈ pkg.chunks)
    (hbrings : chunk.Brings ident data i pkt) {files : FileSystem}
    (hres : handleRes peer.packages peer.files pkt = .ok files)
    : ∃ content', files name = some content' ∧ content'[i]? = data[i]? := by
  obtain ⟨k, hk⟩ := List.getElem?_of_mem hchunk
  obtain ⟨chunkHash, ident', hblock, hmatch, hhash⟩ := hbrings.block
  have hend := Package.chunk_end_le hchunk
  have hcontent := h.length_content
  have hhi := hbrings.end_le
  have hwritten := handleRes_block hdistinct hk (Package.end_lt hlt hk) (h.holds hmatch) h.filename_eq
    (by rw [List.take_take]; rfl) hhash hblock hbrings.offset_le hhi (by omega)
  rw [hres, Except.ok.injEq] at hwritten
  rw [hwritten]
  refine ⟨_, FileSystem.write_same _ _ _, ?_⟩
  rw [getElem?_patch (by omega) (by omega), if_pos hbrings.byte]

theorem handleRes_ok (h : peer.Shares pkg ident name content slot bpkg)
    (hlen : (resArgs pkt).dataRecieved.toNat ≤ DATA_MAX_SIZE)
    (hmatch : pkt.error = 0 → Matches ident (resArgs pkt).ident)
    : ∃ files, handleRes peer.packages peer.files pkt = .ok files := by
  unfold handleRes
  split
  . next herror =>
    have hmanages := h.manages (hmatch herror)
    have hpl : pkt.pl.val.length = 4092 := pkt.pl.property
    have hblock : (slice pkt.pl.val 4 DATA_MAX_SIZE).length = DATA_MAX_SIZE := by
      apply length_slice_of_le
      rw [hpl]
      decide
    rcases hmanages.chunkInMemory_cases h.loaded (cstr (resArgs pkt).chunkHash) with hfound | hnone
    . exact ⟨_, addDataToFile_found h.slot_eq hfound h.loaded h.filename_eq h.file rfl
        (Nat.le_trans hlen (Nat.le_of_eq hblock.symm))⟩
    . exact ⟨_, addDataToFile_noHash hnone⟩
  . exact ⟨_, rfl⟩

end Peer.Shares

end Btide
