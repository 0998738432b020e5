import Btide.Net.SwarmSteps

/-!
This module contains which chunk `calculate_data_len` finds for an offset in a package whose chunks
tile its data file.
-/

open Bytes CLib

namespace Btide

namespace Chunk

def Contains (chunk : Chunk) (off : UInt32) : Prop :=
  chunk.offset.toNat ≤ off.toNat ∧ off.toNat < chunk.offset.toNat + chunk.size.toNat

def rest (chunk : Chunk) (off : UInt32) : Nat :=
  chunk.offset.toNat + chunk.size.toNat - off.toNat

variable {chunk : Chunk} {off : UInt32}

theorem Contains.rest_pos (h : chunk.Contains off) : 0 < chunk.rest off := by
  unfold rest
  have := h.2
  omega

theorem Contains.rest_le (h : chunk.Contains off) : chunk.rest off ≤ chunk.size.toNat := by
  unfold rest
  have := h.1
  omega

theorem spans_iff
    : chunk.spans (some off) = true
        ↔
      chunk.offset.toNat ≤ off.toNat
        ∧ off.toNat ≤ chunk.offset.toNat + chunk.size.toNat
        ∧ chunk.offset.toNat + chunk.size.toNat < 2 ^ 32 := by
  have hlt := (chunk.offset + chunk.size).toNat_lt
  constructor
  . intro h
    obtain ⟨hlo, hhi, hend⟩ := end_of_spans h
    omega
  . rintro ⟨hlo, hhi, hend⟩
    have hsum : (chunk.offset + chunk.size).toNat = chunk.offset.toNat + chunk.size.toNat := by
      rw [UInt32.toNat_add]
      exact Nat.mod_eq_of_lt hend
    rw [spans, Bool.and_eq_true, decide_eq_true_eq, decide_eq_true_eq, UInt32.le_iff_toNat_le,
      UInt32.le_iff_toNat_le, hsum]
    exact ⟨hlo, hhi⟩

theorem dataLen_of_spans (h : chunk.spans (some off) = true)
    : (calculateDataLen.result (some off) chunk).dataLen.toNat = chunk.rest off := by
  obtain ⟨_, hhi, hend⟩ := end_of_spans h
  rw [calculateDataLen.result, UInt32.toNat_sub_of_le _ _ (UInt32.le_iff_toNat_le.mpr hhi), hend, rest]

end Chunk

theorem TilesFrom.contains_unique {off : Nat} {chunks : List Chunk} (h : TilesFrom off chunks)
    {chunk other : Chunk} (hchunk : chunk ∈ chunks) (hother : other ∈ chunks) {pos : UInt32}
    (hin : chunk.Contains pos) (hin' : other.Contains pos)
    : chunk = other := by
  have hlo := hin.1
  have hhi := hin.2
  have hlo' := hin'.1
  have hhi' := hin'.2
  rcases h.eq_or_apart hother hchunk with heq | hbefore | hbehind
  . exact heq
  . omega
  . omega

structure BpkgObj.Tiled (bpkg : BpkgObj) (chunks : List Chunk) : Prop where
  chunks_eq : bpkg.chunks = .ofList chunks
  nchunks : bpkg.nchunks.toNat = chunks.length
  tiles : TilesFrom 0 chunks

namespace BpkgObj.Tiled

variable {bpkg : BpkgObj} {chunks : List Chunk} {hash : Bytes} {off : UInt32} {chunk : Chunk}

theorem calculateDataLen_eq (h : bpkg.Tiled chunks) (hash : Bytes) (offset : Option UInt32)
    : calculateDataLen bpkg hash offset
        =
      .ok ((chunks.find? fun chunk => chunk.hash = hash && chunk.spans offset).map
        (calculateDataLen.result offset)) :=
  calculateDataLen_of_list h.chunks_eq h.nchunks hash offset

end BpkgObj.Tiled

structure Resolves (bpkg : BpkgObj) (chunks : List Chunk) (hash : Bytes) (off : UInt32) : Prop where
  found_iff : (∃ req, calculateDataLen bpkg hash (some off) = .ok (some req))
    ↔ ∃ chunk ∈ chunks, chunk.hash = hash ∧ chunk.Contains off
  total : ∃ answer, calculateDataLen bpkg hash (some off) = .ok answer
  result : ∀ req, calculateDataLen bpkg hash (some off) = .ok (some req) →
    ∃ chunk ∈ chunks,
      chunk.hash = hash
        ∧ chunk.Contains off
        ∧ req.fileOffset = off
        ∧ req.dataLen.toNat = chunk.rest off
        ∧ 1 ≤ req.dataLen.toNat
        ∧ req.dataLen.toNat ≤ chunk.size.toNat
  written : ∀ (packages : ManagedPackages) (files : FileSystem) (res : ResArgs) (slot : Nat) (chunk : Chunk)
      (name content data : Bytes),
    packages[slot]? = some (some bpkg)
      → chunkInMemory packages (cstr res.ident) (cstr res.chunkHash) = .ok (.found slot)
      → bpkg.filename = some name
      → files name = some content
      → res.data = some data
      → res.dataRecieved.toNat ≤ data.length
      → cstr res.chunkHash = hash
      → res.fileOffset = off
      → chunk ∈ chunks
      → chunk.hash = hash
      → chunk.Contains off
      → res.dataRecieved.toNat ≤ chunk.rest off
      → addDataToFile packages files res
        = .ok (files.write name (overwrite content off.toNat (data.take res.dataRecieved.toNat)))
  asked : ∀ (packages : ManagedPackages) (slot : Nat) (ident chunkHash : Bytes) (offset : Option Bytes)
      (num : Option UInt32) (pkt : BtidePacket),
    packages[slot]? = some (some bpkg)
      → chunkInMemory packages (cstr ident) (cstr chunkHash) = .ok (.found slot)
      → cstr chunkHash = hash
      → fetchParser.offsetNum offset = .ok (some num)
      → num = none ∨ num = some off
      → fetchParser packages ident chunkHash offset = .ok (some pkt)
      → 1 ≤ pkt.pl.load 4 4

structure Inside (chunks : List Chunk) (hash : Bytes) (off : UInt32) : Prop where
  ne_end : ∀ chunk ∈ chunks, chunk.hash = hash →
    chunk.offset.toNat + chunk.size.toNat ≠ off.toNat
  end_lt : ∀ chunk ∈ chunks, chunk.hash = hash → chunk.Contains off →
    chunk.offset.toNat + chunk.size.toNat < 2 ^ 32

theorem load_dataLen {req : ReqArgs} {pkt : BtidePacket} (h : sendReq req = .ok pkt)
    : pkt.pl.load 4 4 = req.dataLen.toNat := by
  obtain ⟨hhash, hident⟩ := sendReq_ok h
  obtain ⟨pl, hsend, hval⟩ := sendReq_payload hhash hident
  rw [h, Except.ok.injEq] at hsend
  have hslice : slice pl.val 4 4 = toLE 4 req.dataLen.toNat := by
    rw [hval, slice_append_of_ge (length_toLE 4 _) (Nat.le_refl 4)]
    exact slice_zero_append (length_toLE 4 _) _
  rw [hsend, BtidePayload.load, hslice]
  exact ofLE_toLE req.dataLen.toNat_lt

namespace BpkgObj.Tiled

variable {bpkg : BpkgObj} {chunks : List Chunk} {hash : Bytes} {off : UInt32} {chunk : Chunk}

theorem spans_iff_contains (hinside : Inside chunks hash off) (hchunk : chunk ∈ chunks)
    (hhash : chunk.hash = hash) : chunk.spans (some off) = true ↔ chunk.Contains off := by
  have hne := hinside.ne_end chunk hchunk hhash
  rw [Chunk.spans_iff]
  constructor
  . rintro ⟨hlo, hhi, _⟩
    exact ⟨hlo, by omega⟩
  . intro hin
    have hend := hinside.end_lt chunk hchunk hhash hin
    exact ⟨hin.1, by have := hin.2; omega, hend⟩

theorem found_inside (h : bpkg.Tiled chunks) (hinside : Inside chunks hash off) {req : ReqArgs}
    (hreq : calculateDataLen bpkg hash (some off) = .ok (some req))
    : ∃ chunk ∈ chunks,
        chunk.hash = hash ∧ chunk.Contains off ∧ req.fileOffset = off ∧ req.dataLen.toNat = chunk.rest off := by
  rw [h.calculateDataLen_eq, Except.ok.injEq, Option.map_eq_some_iff] at hreq
  obtain ⟨chunk, hfind, hresult⟩ := hreq
  have hchunk := List.mem_of_find?_eq_some hfind
  have hsat := List.find?_some hfind
  rw [Bool.and_eq_true, decide_eq_true_eq] at hsat
  have hin := (spans_iff_contains hinside hchunk hsat.1).mp hsat.2
  refine ⟨chunk, hchunk, hsat.1, hin, ?_, ?_⟩
  . rw [← hresult]
    rfl
  . rw [← hresult]
    exact Chunk.dataLen_of_spans hsat.2

theorem exists_of_contains (h : bpkg.Tiled chunks) (hinside : Inside chunks hash off)
    (hchunk : chunk ∈ chunks) (hhash : chunk.hash = hash) (hin : chunk.Contains off)
    : ∃ req, calculateDataLen bpkg hash (some off) = .ok (some req) := by
  rw [h.calculateDataLen_eq]
  cases hfind : chunks.find? fun chunk => chunk.hash = hash && chunk.spans (some off) with
  | some other => exact ⟨_, rfl⟩
  | none =>
    rw [List.find?_eq_none] at hfind
    have hspans := (spans_iff_contains hinside hchunk hhash).mpr hin
    exact absurd (by simp [hhash, hspans]) (hfind chunk hchunk)

theorem size_pos (h : bpkg.Tiled chunks) (hchunk : chunk ∈ chunks) : 0 < chunk.size.toNat := by
  obtain ⟨i, hi⟩ := List.getElem?_of_mem hchunk
  exact (h.tiles.bounds hi).2.1

theorem resolves (h : bpkg.Tiled chunks) (hinside : Inside chunks hash off)
    : Resolves bpkg chunks hash off where
  found_iff := by
    constructor
    . rintro ⟨req, hreq⟩
      obtain ⟨chunk, hchunk, hhash, hin, _⟩ := h.found_inside hinside hreq
      exact ⟨chunk, hchunk, hhash, hin⟩
    . rintro ⟨chunk, hchunk, hhash, hin⟩
      exact h.exists_of_contains hinside hchunk hhash hin
  total := ⟨_, h.calculateDataLen_eq hash (some off)⟩
  result := by
    intro req hreq
    obtain ⟨chunk, hchunk, hhash, hin, hoff, hlen⟩ := h.found_inside hinside hreq
    refine ⟨chunk, hchunk, hhash, hin, hoff, hlen, ?_, ?_⟩
    . rw [hlen]
      exact hin.rest_pos
    . rw [hlen]
      exact hin.rest_le
  written := by
    intro packages files res slot chunk name content data hslot hfound hname hcontent hdata hlen hhash hoff
      hchunk hchunkHash hin hle
    obtain ⟨req, hreq⟩ := h.exists_of_contains hinside hchunk hchunkHash hin
    obtain ⟨other, hother, _, hin', hreqOff, hreqLen⟩ := h.found_inside hinside hreq
    rw [h.tiles.contains_unique hother hchunk hin' hin] at hreqLen
    have hroom : req.fileOffset = off ∧ res.dataRecieved.toNat ≤ req.dataLen.toNat := by
      rw [hreqLen]
      exact ⟨hreqOff, hle⟩
    have hshort : ¬ data.length < res.dataRecieved.toNat := by omega
    rw [hhash] at hfound
    unfold addDataToFile
    simp only [hhash, hoff, hfound, List.getD_eq_getElem?_getD, hslot, Option.getD_some, deref_some, hreq,
      hroom, and_self, ↓reduceIte, hname, hcontent, hdata, hshort, bind, Except.bind, pure,
      Except.pure]
  asked := by
    intro packages slot ident chunkHash offset num pkt hslot hfound hhash hnum hcases hfetch
    obtain ⟨slot', bpkg', num', req, hfound', hslot', hnum', hreq, hsend⟩ := fetchParser_cases hfetch
    rw [hfound, Except.ok.injEq, Lookup.found.injEq] at hfound'
    rw [← hfound', List.getD_eq_getElem?_getD, hslot, Option.getD_some, deref_some, Except.ok.injEq]
      at hslot'
    rw [hnum, Except.ok.injEq, Option.some.injEq] at hnum'
    rw [← hslot', ← hnum', hhash] at hreq
    rw [load_dataLen hsend]
    cases hcases with
    | inl hnone =>
      rw [hnone, h.calculateDataLen_eq, Except.ok.injEq, Option.map_eq_some_iff] at hreq
      obtain ⟨chunk, hfind, hresult⟩ := hreq
      rw [← hresult]
      exact h.size_pos (List.mem_of_find?_eq_some hfind)
    | inr hsome =>
      rw [hsome] at hreq
      obtain ⟨chunk, _, _, hin, _, hlen⟩ := h.found_inside hinside hreq
      dsimp only
      rw [hlen]
      exact hin.rest_pos

-- the chunk in front of the offset is found before the one behind it
theorem ne_end_of_resolves (h : bpkg.Tiled chunks) (hresolves : Resolves bpkg chunks hash off)
    (hchunk : chunk ∈ chunks) (hhash : chunk.hash = hash)
    : chunk.offset.toNat + chunk.size.toNat ≠ off.toNat := by
  intro heq
  have hpos := h.size_pos hchunk
  have hlt := off.toNat_lt
  have hspans : chunk.spans (some off) = true := by
    rw [Chunk.spans_iff]
    omega
  cases hfind : chunks.find? fun chunk => chunk.hash = hash && chunk.spans (some off) with
  | none =>
    rw [List.find?_eq_none] at hfind
    exact absurd (by simp [hhash, hspans]) (hfind chunk hchunk)
  | some found =>
    have hreq := h.calculateDataLen_eq hash (some off)
    rw [hfind, Option.map_some] at hreq
    obtain ⟨other, hother, _, hin, _, hlen, hone, _⟩ := hresolves.result _ hreq
    rw [List.find?_eq_some_iff_getElem] at hfind
    obtain ⟨hsat, i, hi, hget, hbefore⟩ := hfind
    rw [Bool.and_eq_true, decide_eq_true_eq] at hsat
    rw [Chunk.dataLen_of_spans hsat.2, Chunk.rest] at hone
    -- nothing in front of the first chunk that spans the offset ends there
    obtain ⟨j, hj⟩ := List.getElem?_of_mem hchunk
    have hi' : chunks[i]? = some found := by
      rw [List.getElem?_eq_getElem hi, hget]
    rcases Nat.lt_trichotomy i j with hij | hij | hij
    . have := h.tiles.end_le_offset hij hi' hj
      omega
    . rw [hij, hj, Option.some.injEq] at hi'
      rw [← hi'] at hone
      omega
    . obtain ⟨hj', hgetj⟩ := List.getElem?_eq_some_iff.mp hj
      have hnot := hbefore j hij
      rw [hgetj] at hnot
      simp [hhash, hspans] at hnot

theorem inside_of_resolves (h : bpkg.Tiled chunks) (hresolves : Resolves bpkg chunks hash off)
    : Inside chunks hash off where
  ne_end := by
    intro chunk hchunk hhash
    exact h.ne_end_of_resolves hresolves hchunk hhash
  end_lt := by
    intro chunk hchunk hhash hin
    obtain ⟨req, hreq⟩ := hresolves.found_iff.mpr ⟨chunk, hchunk, hhash, hin⟩
    rw [h.calculateDataLen_eq, Except.ok.injEq, Option.map_eq_some_iff] at hreq
    obtain ⟨found, hfind, _⟩ := hreq
    have hfound := List.mem_of_find?_eq_some hfind
    have hsat := List.find?_some hfind
    rw [Bool.and_eq_true, decide_eq_true_eq, Chunk.spans_iff] at hsat
    have hne := h.ne_end_of_resolves hresolves hfound hsat.1
    have hin' : found.Contains off := ⟨hsat.2.1, by omega⟩
    rw [h.tiles.contains_unique hchunk hfound hin hin']
    exact hsat.2.2.2

end BpkgObj.Tiled

theorem calculateDataLen_resolves_iff {bpkg : BpkgObj} {chunks : List Chunk} (h : bpkg.Tiled chunks)
    (hash : Bytes) (off : UInt32)
    : Resolves bpkg chunks hash off ↔ Inside chunks hash off :=
  ⟨h.inside_of_resolves, h.resolves⟩

def twoBytes (root left right : String) : Bytes :=
  ascii "ident:a\nfilename:f\nsize:2\nnhashes:1\nhashes:\n\t" ++ ascii root
    ++ ascii "\nnchunks:2\nchunks:\n\t" ++ ascii left ++ ascii ",0,1\n\t" ++ ascii right
    ++ ascii ",1,1\n"

def twoBytesChunks (left right : String) : List Chunk :=
  [⟨ascii left, 0, 1, some 1⟩, ⟨ascii right, 1, 1, some 2⟩]

def twoBytesObj (root left right : String) : BpkgObj where
  ident := some (ascii "a")
  filename := some (ascii "f")
  size := 2
  nhashes := 1
  hashes := .ofList [ascii root]
  nchunks := 2
  chunks := .ofList (twoBytesChunks left right)
  tree := some {
    root :=
      .inner ⟨0, 0, ascii root, none, []⟩
        (.leaf ⟨1, 1, ascii left, some 0, []⟩) (.leaf ⟨2, 2, ascii right, some 0, []⟩)
    nNodes := 3 }

theorem twoBytesObj_tiled (root left right : String)
    : (twoBytesObj root left right).Tiled (twoBytesChunks left right) where
  chunks_eq := rfl
  nchunks := rfl
  tiles := ⟨rfl, Nat.one_pos, rfl, Nat.one_pos, trivial⟩

theorem calculateDataLen_resolves_first
    : Resolves (twoBytesObj "r" "c" "c") (twoBytesChunks "c" "c") (ascii "c") 0 := by
  rw [calculateDataLen_resolves_iff (twoBytesObj_tiled "r" "c" "c")]
  constructor
  . decide
  . unfold Chunk.Contains
    decide

/--
The offset of the second of two chunks with one hash is the end of the first one.
-/
theorem calculateDataLen_resolves_fails
    : bpkgLoad ⟨none, none, 7, 7, none, 7, none, none⟩ (some (twoBytes "r" "c" "c")) none
        =
      .ok (some (twoBytesObj "r" "c" "c"))
        ∧ (twoBytesObj "r" "c" "c").Tiled (twoBytesChunks "c" "c")
        ∧ (∃ chunk ∈ twoBytesChunks "c" "c", chunk.hash = ascii "c" ∧ chunk.Contains 1)
        ∧ calculateDataLen (twoBytesObj "r" "c" "c") (ascii "c") (some 1)
            =
          .ok (some { dataLen := 0, ident := [], chunkHash := [], fileOffset := 1 })
        ∧ ¬ Resolves (twoBytesObj "r" "c" "c") (twoBytesChunks "c" "c") (ascii "c") 1 := by
  have hreq : calculateDataLen (twoBytesObj "r" "c" "c") (ascii "c") (some 1)
      = .ok (some { dataLen := 0, ident := [], chunkHash := [], fileOffset := 1 }) := by decide
  refine ⟨by decide +kernel, twoBytesObj_tiled "r" "c" "c", by unfold Chunk.Contains; decide, hreq, ?_⟩
  intro hresolves
  obtain ⟨_, _, _, _, _, _, hone, _⟩ := hresolves.result _ hreq
  exact absurd hone (by decide)

end Btide
