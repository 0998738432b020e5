import Btide.Lib.Transition
import Btide.Net.Fetch
import Btide.Net.SwarmSteps

/-!
This module contains the invariant of a swarm that shares a package: which bytes the packets in
flight can overwrite.
-/

open Bytes CLib

namespace Btide

open handlePeers

structure Foreign (ident name : Bytes) (other : BpkgObj) : Prop where
  ident_ne : ∃ current, other.ident = some current ∧ current.take 20 ≠ ident.take 20
  filename_ne : ∃ filename, other.filename = some filename ∧ filename ≠ name
    ∧ stripWhitespace (some filename) = .ok (some filename)

structure Peer.Shares (peer : Peer) (pkg : Package) (ident name content : Bytes) (slot : Nat)
    (bpkg : BpkgObj) : Prop where
  slot_eq : peer.packages[slot]? = some (some bpkg)
  loaded : pkg.IsLoaded bpkg
  ident_eq : ∃ current, bpkg.ident = some current ∧ current.take 20 = ident.take 20
  filename_eq : bpkg.filename = some name
  stripped : stripWhitespace (some name) = .ok (some name)
  foreign : ∀ i ≠ slot, ∀ other, peer.packages[i]? = some (some other) → Foreign ident name other
  file : peer.files name = some content
  length_content : content.length = pkg.length

def Matches (ident mem : Bytes) : Prop :=
  (cstr mem).take 20 = ident.take 20

def SoundReq (pkg : Package) (ident : Bytes) (pkt : BtidePacket) : Prop :=
  pkt.msgCode = PKT_MSG_REQ
    →
  Matches ident (reqArgs pkt).ident
    →
  ∀ chunk,
    pkg.pick (cstr (reqArgs pkt).chunkHash) (some (reqArgs pkt).fileOffset) = some chunk
      →
    (reqArgs pkt).fileOffset.toNat + (reqArgs pkt).dataLen.toNat
      =
    chunk.offset.toNat + chunk.size.toNat

/--
A block that was read from a complete chunk. The predicate `occurs` holds of the contents that the
chunks of the peers go through.
-/
def SoundRes (pkg : Package) (ident : Bytes) (occurs : Bytes → Prop) (pkt : BtidePacket) : Prop :=
  pkt.msgCode = PKT_MSG_RES
    →
  pkt.error = 0
    →
  Matches ident (resArgs pkt).ident
    →
  ∃ chunk ∈ pkg.chunks, ∃ source data,
    chunk.complete source = true
      ∧ occurs (slice source chunk.offset.toNat chunk.size.toNat)
      ∧ chunk.offset.toNat ≤ (rangeOf pkt).1
      ∧ (rangeOf pkt).1 + (rangeOf pkt).2 ≤ chunk.offset.toNat + chunk.size.toNat
      ∧ (resArgs pkt).data = some data
      ∧ data.take (rangeOf pkt).2 = slice source (rangeOf pkt).1 (rangeOf pkt).2

namespace Peer.Shares

variable {peer : Peer} {pkg : Package} {ident name content : Bytes} {slot : Nat} {bpkg : BpkgObj}

theorem manages (h : peer.Shares pkg ident name content slot bpkg) {mem : Bytes}
    (hmatch : Matches ident mem) : Manages peer.packages (cstr mem) slot bpkg where
  slot_eq := h.slot_eq
  ident_eq := by
    obtain ⟨current, hident, heq⟩ := h.ident_eq
    refine ⟨current, hident, ?_⟩
    unfold strncmpEq
    rw [heq, hmatch, beq_self_eq_true]
  first := by
    intro i hi other hother
    obtain ⟨current, hident, hne⟩ := (h.foreign i (by omega) other hother).ident_ne
    refine ⟨current, hident, ?_⟩
    unfold strncmpEq
    rw [hmatch, beq_eq_false_iff_ne]
    exact hne

theorem slot_ne (h : peer.Shares pkg ident name content slot bpkg) {mem hash : Bytes} {i : Nat}
    (hmatch : ¬ Matches ident mem) (hfound : chunkInMemory peer.packages (cstr mem) hash = .ok (.found i))
    : i ≠ slot := by
  rintro rfl
  obtain ⟨other, current, hslot, hcurrent, hequal⟩ := chunkInMemory_cases hfound
  obtain ⟨current', hident, heq⟩ := h.ident_eq
  rw [h.slot_eq, Option.some.injEq, Option.some.injEq] at hslot
  rw [← hslot, hident, Option.some.injEq] at hcurrent
  unfold strncmpEq at hequal
  rw [← hcurrent, beq_iff_eq, heq] at hequal
  exact hmatch hequal.symm

theorem slot_eq_of_found (h : peer.Shares pkg ident name content slot bpkg) {mem hash : Bytes} {i : Nat}
    (hmatch : Matches ident mem) (hfound : chunkInMemory peer.packages (cstr mem) (cstr hash) = .ok (.found i))
    : i = slot := by
  rcases (h.manages hmatch).chunkInMemory_cases h.loaded (cstr hash) with hslot | hno
  . rw [hfound, Except.ok.injEq, Lookup.found.injEq] at hslot
    exact hslot
  . rw [hfound, Except.ok.injEq] at hno
    cases hno

theorem set (h : peer.Shares pkg ident name content slot bpkg) {i : Nat} {other other' : BpkgObj}
    (hslot : peer.packages[i]? = some (some other))
    (hcompute : computeHashesForChunks peer.files other = .ok other')
    : ∃ bpkg',
        { peer with packages := peer.packages.set i (some other') }.Shares pkg ident name content slot
          bpkg' := by
  obtain ⟨hident, hfilename⟩ := computeHashesForChunks_frame hcompute
  by_cases hi : i = slot
  . rw [hi, h.slot_eq, Option.some.injEq, Option.some.injEq] at hslot
    have hname : stripWhitespace bpkg.filename = .ok (some name) := by
      rw [h.filename_eq]
      exact h.stripped
    obtain ⟨bpkg', hcompute', hloaded, _, _, hfilename'⟩ :=
      h.loaded.computeHashes hname h.file h.length_content
    rw [hslot, hcompute, Except.ok.injEq] at hcompute'
    rw [← hcompute'] at hloaded hfilename'
    refine ⟨other', ⟨?_, hloaded, ?_, hfilename', h.stripped, ?_, h.file, h.length_content⟩⟩
    . have hlt := (List.getElem?_eq_some_iff.mp h.slot_eq).1
      rw [hi, List.getElem?_set_self hlt]
    . rw [hident, ← hslot]
      exact h.ident_eq
    . intro j hj
      rw [hi, List.getElem?_set_ne (Ne.symm hj)]
      exact h.foreign j hj
  . refine ⟨bpkg, ⟨?_, h.loaded, h.ident_eq, h.filename_eq, h.stripped, ?_, h.file, h.length_content⟩⟩
    . rw [List.getElem?_set_ne hi]
      exact h.slot_eq
    . intro j hj other'' hother
      by_cases hij : i = j
      . have hlt := (List.getElem?_eq_some_iff.mp hslot).1
        rw [← hij, List.getElem?_set_self hlt, Option.some.injEq, Option.some.injEq] at hother
        obtain ⟨hne, filename, hfilename', hne', hstrip⟩ := h.foreign i hi other hslot
        rw [hfilename', hstrip, Except.ok.injEq] at hfilename
        rw [← hother]
        refine ⟨?_, filename, hfilename.symm, hne', hstrip⟩
        rw [hident]
        exact hne
      . rw [List.getElem?_set_ne hij] at hother
        exact h.foreign j hj other'' hother

end Peer.Shares

theorem patch_of_slice_eq {src dst : Bytes} {a n off len : Nat} (h : slice src a n = slice dst a n)
    (hlo : a ≤ off) (hhi : off + len ≤ a + n) (hdst : a + n ≤ dst.length)
    : patch src dst off len = dst := by
  have hpart (xs : Bytes) : slice (slice xs a n) (off - a) len = slice xs off len := by
    rw [slice_slice (by omega)]
    congr 1
    omega
  have hsame := patch_self (show off + len ≤ dst.length by omega)
  unfold patch at hsame ⊢
  rw [← hpart src, h, hpart dst]
  exact hsame

section Step

variable {pkg : Package} {ident : Bytes} {occurs : Bytes → Prop}

theorem complete_patch (hinj : ∀ x y, occurs x → occurs y → Sha256.digest x = Sha256.digest y → x = y)
    {source content : Bytes} {chunk other : Chunk} {off len : Nat}
    (hcontent : content.length = pkg.length)
    (hoccurs : ∀ chunk ∈ pkg.chunks, occurs (slice content chunk.offset.toNat chunk.size.toNat))
    (hchunk : chunk ∈ pkg.chunks) (hsource : chunk.complete source = true)
    (hsource' : occurs (slice source chunk.offset.toNat chunk.size.toNat))
    (hlo : chunk.offset.toNat ≤ off) (hhi : off + len ≤ chunk.offset.toNat + chunk.size.toNat)
    (hother : other ∈ pkg.chunks) (hcomplete : other.complete content = true)
    : other.complete (patch source content off len) = true := by
  rw [Chunk.complete_iff] at hsource hcomplete
  have hlength : (patch source content off len).length = content.length := by
    have hend := Package.chunk_end_le hchunk
    exact length_patch (by omega) (by omega)
  have hend := Package.chunk_end_le hchunk
  rw [← hcontent] at hend
  have hslice : (slice source off len).length = len := length_slice_of_le (by omega)
  cases pkg.tiles.eq_or_apart hchunk hother with
  | inl heq =>
    rw [heq] at hcomplete ⊢
    have hsame := hinj _ _ hsource' (hoccurs chunk hchunk) (by rw [hsource.2, hcomplete.2])
    rw [patch_of_slice_eq hsame hlo hhi hcomplete.1, Chunk.complete_iff]
    exact hcomplete
  | inr hapart =>
    rw [Chunk.complete_iff, hlength, patch, slice_splice_disjoint]
    . exact hcomplete
    . omega
    . omega

theorem Package.pick_some {hash : Bytes} {off : UInt32} {chunk : Chunk}
    (h : pkg.pick hash (some off) = some chunk)
    : chunk ∈ pkg.chunks
        ∧ chunk.hash = hash
        ∧ chunk.offset ≤ off
        ∧ off ≤ chunk.offset + chunk.size
        ∧ (chunk.offset + chunk.size).toNat = chunk.offset.toNat + chunk.size.toNat := by
  have hmem := List.mem_of_find?_eq_some h
  have hsat := List.find?_some h
  simp only [Chunk.spans, Bool.and_eq_true, decide_eq_true_eq] at hsat
  obtain ⟨hhash, hlo, hhi⟩ := hsat
  refine ⟨hmem, hhash, hlo, hhi, ?_⟩
  -- a wrapped end would lie in front of the chunk
  have hle := Nat.le_trans (UInt32.le_iff_toNat_le.mp hlo) (UInt32.le_iff_toNat_le.mp hhi)
  have hsize := chunk.size.toNat_lt
  rw [UInt32.toNat_add] at hle ⊢
  omega

/--
What is written fits into the rest of the chunk that the lookup finds.
-/
theorem Package.range_of_pick {hash : Bytes} {off : UInt32} {len : Nat} {chunk : Chunk}
    (hpick : pkg.pick hash (some off) = some chunk)
    (hfits : len ≤ (calculateDataLen.result (some off) chunk).dataLen.toNat)
    : chunk.offset.toNat ≤ off.toNat ∧ off.toNat + len ≤ chunk.offset.toNat + chunk.size.toNat := by
  obtain ⟨_, _, hlo, hhi, hwrap⟩ := Package.pick_some hpick
  simp only [calculateDataLen.result] at hfits
  rw [UInt32.toNat_sub_of_le _ _ hhi, hwrap] at hfits
  rw [UInt32.le_iff_toNat_le] at hlo hhi
  rw [hwrap] at hhi
  omega

theorem handleRes_cases {peer : Peer} {name content : Bytes} {slot : Nat} {bpkg : BpkgObj}
    (hshares : peer.Shares pkg ident name content slot bpkg) {pkt : BtidePacket} {files : FileSystem}
    (hres : handleRes peer.packages peer.files pkt = .ok files)
    : files name = some content
        ∨ pkt.error = 0
            ∧ Matches ident (resArgs pkt).ident
            ∧ (∃ chunk ∈ pkg.chunks,
                chunk.hash = cstr (resArgs pkt).chunkHash
                  ∧ chunk.offset.toNat ≤ (rangeOf pkt).1
                  ∧ (rangeOf pkt).1 + (rangeOf pkt).2 ≤ chunk.offset.toNat + chunk.size.toNat)
            ∧ (rangeOf pkt).1 + (rangeOf pkt).2 ≤ content.length
            ∧ ∃ data,
                (resArgs pkt).data = some data
                  ∧ (rangeOf pkt).2 ≤ data.length
                  ∧ files name = some (splice content (rangeOf pkt).1 (data.take (rangeOf pkt).2)) := by
  unfold handleRes at hres
  split at hres
  . next herror =>
    rcases addDataToFile_cases hres with heq | ⟨i, other, name', old, data, req, hfound, hslot, hname, hold,
      hdata, hreq, hfits, hlen, heq⟩
    . left
      rw [heq]
      exact hshares.file
    . by_cases hmatch : Matches ident (resArgs pkt).ident
      . -- the block is for the shared package
        rw [hshares.slot_eq_of_found hmatch hfound, hshares.slot_eq, Option.some.injEq,
          Option.some.injEq] at hslot
        rw [← hslot, hshares.filename_eq, Option.some.injEq] at hname
        rw [← hname, hshares.file, Option.some.injEq] at hold
        rw [← hslot, hshares.loaded.calculateDataLen_eq, Except.ok.injEq, Option.map_eq_some_iff] at hreq
        obtain ⟨chunk, hpick, hresult⟩ := hreq
        obtain ⟨hchunk, hhash, _⟩ := Package.pick_some hpick
        rw [← hresult] at hfits
        have hrange := Package.range_of_pick hpick hfits
        have hend := Package.chunk_end_le hchunk
        rw [← hshares.length_content] at hend
        have hin := Nat.le_trans hrange.2 hend
        refine .inr ⟨herror, hmatch, ⟨chunk, hchunk, hhash, hrange⟩, hin, data, hdata, hlen, ?_⟩
        rw [heq, ← hname, ← hold, FileSystem.write_same, overwrite_eq_splice]
        . rfl
        . rw [List.length_take]
          omega
      . -- the block is for another package
        left
        obtain ⟨_, filename, hfilename, hne, _⟩ :=
          hshares.foreign i (hshares.slot_ne hmatch hfound) other hslot
        rw [hname, Option.some.injEq] at hfilename
        rw [heq, FileSystem.write, if_neg]
        . exact hshares.file
        . rw [hfilename]
          exact hne.symm
  . left
    rw [Except.ok.injEq] at hres
    rw [← hres]
    exact hshares.file

theorem handleRes_shares {peer : Peer} {name content : Bytes} {slot : Nat} {bpkg : BpkgObj}
    (hshares : peer.Shares pkg ident name content slot bpkg) {pkt : BtidePacket} {files : FileSystem}
    (hres : handleRes peer.packages peer.files pkt = .ok files)
    : ∃ content', { peer with files }.Shares pkg ident name content' slot bpkg := by
  rcases handleRes_cases hshares hres with hfile | ⟨_, _, _, hin, data, _, hlen, hfile⟩
  . exact ⟨content, { hshares with file := hfile }⟩
  . refine ⟨_, { hshares with file := hfile, length_content := ?_ }⟩
    rw [length_splice, hshares.length_content]
    rw [List.length_take]
    omega

theorem handleRes_step
    (hinj : ∀ x y, occurs x → occurs y → Sha256.digest x = Sha256.digest y → x = y) {peer : Peer}
    {name content : Bytes} {slot : Nat} {bpkg : BpkgObj}
    (hshares : peer.Shares pkg ident name content slot bpkg)
    (hoccurs : ∀ chunk ∈ pkg.chunks, occurs (slice content chunk.offset.toNat chunk.size.toNat))
    {pkt : BtidePacket} (hcode : pkt.msgCode = PKT_MSG_RES) (hsound : SoundRes pkg ident occurs pkt)
    {files : FileSystem} (hres : handleRes peer.packages peer.files pkt = .ok files)
    : ∃ content',
        files name = some content'
          ∧ ∀ chunk ∈ pkg.chunks, chunk.complete content = true → chunk.complete content' = true := by
  rcases handleRes_cases hshares hres with hfile | ⟨herror, hmatch, _, hin, data, hdata, _, hfile⟩
  . exact ⟨content, hfile, fun _ _ hcomplete => hcomplete⟩
  . obtain ⟨chunk, hchunk, source, data', hsource, hsource', hlo, hhi, hdata', htake⟩ :=
      hsound hcode herror hmatch
    rw [hdata, Option.some.injEq] at hdata'
    rw [hdata', htake] at hfile
    refine ⟨_, hfile, ?_⟩
    intro other hother hcomplete
    exact complete_patch hinj hshares.length_content hoccurs hchunk hsource hsource' hlo hhi hother hcomplete

theorem matches_take {mem : Bytes} {n : Nat} (hn : 20 ≤ n)
    : Matches ident (mem.take n) ↔ Matches ident mem := by
  unfold Matches
  rw [cstr_take, List.take_take, Nat.min_eq_left hn]

theorem handleReq_step {peer : Peer} {name content : Bytes} {slot : Nat} {bpkg : BpkgObj}
    (hshares : peer.Shares pkg ident name content slot bpkg)
    (hoccurs : ∀ chunk ∈ pkg.chunks, occurs (slice content chunk.offset.toNat chunk.size.toNat))
    {pkt : BtidePacket} (hcode : pkt.msgCode = PKT_MSG_REQ) (hsound : SoundReq pkg ident pkt)
    (hbacked : Matches ident (reqArgs pkt).ident → ∀ chunk,
      pkg.pick (cstr (reqArgs pkt).chunkHash) (some (reqArgs pkt).fileOffset) = some chunk →
      (pkg.digests content).contains (cstr (reqArgs pkt).chunkHash) = true →
      chunk.complete content = true)
    : ∀ pkt' ∈ (handleReq peer.packages peer.files pkt).sent,
        pkt'.msgCode = PKT_MSG_RES ∧ SoundRes pkg ident occurs pkt' := by
  intro pkt' hpkt'
  obtain ⟨hcode', hident⟩ := handleReq_isAnswer hpkt'
  refine ⟨hcode', ?_⟩
  intro _ herror hmatch
  rw [hident herror, matches_take (by decide)] at hmatch
  have hmanages := hshares.manages hmatch
  have hname : stripWhitespace bpkg.filename = .ok (some name) := by
    rw [hshares.filename_eq]
    exact hshares.stripped
  have herr (packages : ManagedPackages) : ∀ pkt'' ∈ (handleReq peer.packages peer.files pkt).sent,
      getDataFromFile.openFile peer.packages peer.files (reqArgs pkt) = .ok (none, packages)
        → pkt''.error ≠ 0 := by
    intro pkt'' hmem hopen
    unfold handleReq at hmem
    rw [hopen] at hmem
    simp only [sendRes, ↓reduceIte, pure, Except.pure, List.mem_singleton] at hmem
    rw [hmem]
    decide
  rcases hmanages.chunkInMemory_cases hshares.loaded (cstr (reqArgs pkt).chunkHash) with hfound | hno
  . obtain ⟨bpkg', _, _, _, hopen⟩ := openFile_found hshares.slot_eq hfound hshares.loaded hname
      hshares.file hshares.length_content
    split at hopen
    . next hanswers =>
      obtain ⟨chunk, hpick⟩ := Option.isSome_iff_exists.mp hanswers.2
      have hcomplete := hbacked hmatch chunk hpick hanswers.1
      have hend := hsound hcode hmatch chunk hpick
      obtain ⟨hchunk, hhash, hlo, hhi, hwrap⟩ := Package.pick_some hpick
      have hin := (Chunk.complete_iff.mp hcomplete).1
      have hlt := (chunk.offset + chunk.size).toNat_lt
      have hhashLen := length_reqArgs_chunkHash pkt
      have hidentLen := length_reqArgs_ident pkt
      obtain ⟨ranges, hinit, hblocks, _⟩ := @sendBlocks_spec
        { reqArgs pkt with data := some [] } content _ (reqArgs pkt).dataLen.toNat rfl
        (Nat.zero_add _).symm (by dsimp only; omega) (by dsimp only; omega) hhashLen hidentLen
      unfold handleReq at hpkt'
      rw [hopen] at hpkt'
      obtain ⟨hranges, hall⟩ := map_rangeOf hblocks
      have hblock := hall pkt' hpkt'
      have hmem := List.mem_map_of_mem (f := rangeOf) hpkt'
      rw [hranges] at hmem
      have hbounds := bounds_of_mem_cut (hinit.subset hmem)
      obtain ⟨data, hdata, _, htake⟩ := hblock.data_eq
      rw [UInt32.le_iff_toNat_le] at hlo
      dsimp only at hbounds
      refine ⟨chunk, hchunk, content, data, hcomplete, hoccurs chunk hchunk, ?_, ?_, hdata, htake⟩
      . omega
      . omega
    . exact absurd herror (herr _ pkt' hpkt' hopen)
  . exact absurd herror (herr _ pkt' hpkt' (openFile_noHash hno))

theorem Package.pick_offset {hash : Bytes} {chunk other : Chunk} (hfirst : pkg.pick hash none = some chunk)
    (hpick : pkg.pick hash (some chunk.offset) = some other) : other = chunk := by
  obtain ⟨hother, hhash, hlo, _⟩ := Package.pick_some hpick
  unfold pick at hfirst
  rw [List.find?_eq_some_iff_getElem] at hfirst
  obtain ⟨_, i, hi, hget, hbefore⟩ := hfirst
  obtain ⟨j, hj, hother⟩ := List.getElem_of_mem hother
  have hget' := List.getElem?_eq_some_iff.mpr ⟨hi, hget⟩
  have hother' := List.getElem?_eq_some_iff.mpr ⟨hj, hother⟩
  rcases Nat.lt_trichotomy i j with hlt | heq | hgt
  . have hend := pkg.tiles.end_le_offset hlt hget' hother'
    have hpos := (pkg.tiles.bounds hget').2.1
    rw [UInt32.le_iff_toNat_le] at hlo
    omega
  . rw [heq, hother', Option.some.injEq] at hget'
    exact hget'
  . have hne := hbefore j hgt
    rw [hother] at hne
    simp [hhash, Chunk.spans] at hne

theorem fetchParser_step {peer : Peer} {name content : Bytes} {slot : Nat} {bpkg : BpkgObj}
    (hshares : peer.Shares pkg ident name content slot bpkg) {mem chunkHash : Bytes}
    {offset : Option Bytes} {pkt : BtidePacket}
    (hfetch : fetchParser peer.packages mem chunkHash offset = .ok (some pkt))
    : pkt.msgCode = PKT_MSG_REQ ∧ SoundReq pkg ident pkt := by
  obtain ⟨i, other, num, req, hlookup, hother, _, hreq, hsend⟩ := fetchParser_cases hfetch
  obtain ⟨hhashLen, hidentLen⟩ := sendReq_ok hsend
  obtain ⟨pkt', hsend', hcode, hargs⟩ := reqArgs_of_sendReq hhashLen hidentLen
  rw [hsend, Except.ok.injEq] at hsend'
  rw [← hsend'] at hcode hargs
  refine ⟨hcode, ?_⟩
  intro _ hmatch chunk hpick
  rw [hargs] at hmatch hpick ⊢
  dsimp only at hmatch hpick ⊢
  have hmatch' : Matches ident mem := by
    rw [← @matches_take ident mem IDENT_SIZE (by decide)]
    unfold Matches at hmatch ⊢
    rw [cstr_append_replicate] at hmatch
    exact hmatch
  -- the lookup ended at the shared package
  have hi : i = slot := by
    rcases (hshares.manages hmatch').chunkInMemory_cases hshares.loaded (cstr chunkHash) with h | h
    . rw [hlookup, Except.ok.injEq, Lookup.found.injEq] at h
      exact h
    . rw [hlookup, Except.ok.injEq] at h
      cases h
  rw [hi, List.getD_eq_getElem?_getD, hshares.slot_eq, Option.getD_some, deref_some,
    Except.ok.injEq] at hother
  rw [← hother, hshares.loaded.calculateDataLen_eq, Except.ok.injEq, Option.map_eq_some_iff] at hreq
  obtain ⟨picked, hpicked, hresult⟩ := hreq
  have hmem := List.mem_of_find?_eq_some hpicked
  have hhash : picked.hash = cstr chunkHash := by
    have hsat := List.find?_some hpicked
    rw [Bool.and_eq_true, decide_eq_true_eq] at hsat
    exact hsat.1
  have hfull : cstr (chunkHash.take CHUNK_HASH_SIZE ++ [0]) = cstr chunkHash := by
    have hle := pkg.length_hash_le picked hmem
    rw [hhash] at hle
    rw [← List.replicate_one, cstr_append_replicate, cstr_take, List.take_of_length_le hle]
  rw [hfull] at hpick
  rw [← hresult] at hpick ⊢
  cases num with
  | none =>
    simp only [calculateDataLen.result] at hpick ⊢
    rw [Package.pick_offset hpicked hpick]
  | some off =>
    simp only [calculateDataLen.result] at hpick ⊢
    rw [hpicked, Option.some.injEq] at hpick
    rw [← hpick]
    obtain ⟨_, _, hlo, hhi, hwrap⟩ := Package.pick_some hpicked
    rw [UInt32.le_iff_toNat_le] at hlo
    rw [UInt32.toNat_sub_of_le _ _ hhi, hwrap]
    rw [UInt32.le_iff_toNat_le, hwrap] at hhi
    omega

end Step

end Btide
