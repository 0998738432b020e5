import Btide.Net.Serve

/-!
This module contains what the branch for a RES can change, for every packet and every file.
-/

open Bytes CLib

namespace Btide

section Overwrite

variable {content ys : Bytes} {off : Nat}

theorem getElem?_overwrite (hys : ys ≠ []) (p : Nat)
    : (overwrite content off ys)[p]?
        =
      if p < off then
        if p < content.length then content[p]? else some 0
      else if p < off + ys.length then
        ys[p - off]?
      else
        content[p]? := by
  have hgap : (content ++ List.replicate (off - content.length) (0 : UInt8)).length
      = max content.length off := by
    rw [List.length_append, List.length_replicate]
    omega
  unfold overwrite splice
  rw [if_neg hys, List.append_assoc]
  by_cases hlo : p < off
  . rw [if_pos hlo, List.getElem?_append_left (by rw [List.length_take, hgap]; omega),
      List.getElem?_take_of_lt hlo]
    split
    . next hp => rw [List.getElem?_append_left hp]
    . next hp =>
      rw [List.getElem?_append_right (Nat.le_of_not_lt hp), List.getElem?_replicate, if_pos (by omega)]
  . rw [if_neg hlo, List.getElem?_append_right (by rw [List.length_take]; omega), List.length_take, hgap,
      Nat.min_eq_left (Nat.le_max_right _ _)]
    split
    . next hhi => rw [List.getElem?_append_left (by omega)]
    . next hhi =>
      rw [List.getElem?_append_right (by omega), List.getElem?_drop]
      have hindex : off + ys.length + (p - off - ys.length) = p := by omega
      rw [hindex]
      by_cases hp : p < content.length
      . rw [List.getElem?_append_left hp]
      . rw [List.getElem?_append_right (Nat.le_of_not_lt hp), List.getElem?_replicate,
          if_neg (by omega), List.getElem?_eq_none (Nat.le_of_not_lt hp)]

end Overwrite

namespace handlePeers

/--
The branch with the bytes that lie behind the block on the stack: the length field can be larger than
the block.
-/
def handleResOn (stack : Bytes) (packages : ManagedPackages) (files : FileSystem) (pkt : BtidePacket)
    : Except Fault FileSystem :=
  if pkt.error = 0 then
    addDataToFile packages files
      { resArgs pkt with data := some (slice pkt.pl.val 4 DATA_MAX_SIZE ++ stack) }
  else
    .ok files

theorem handleResOn_nil : handleResOn [] = handleRes := by
  funext packages files pkt
  unfold handleResOn handleRes
  rw [List.append_nil]
  rfl

theorem handleResOn_confined {stack : Bytes} {packages : ManagedPackages} {files files' : FileSystem}
    {pkt : BtidePacket} (herror : pkt.error = 0) (h : handleResOn stack packages files pkt = .ok files')
    : files' = files
        ∨ ∃ (slot : Nat) (bpkg : BpkgObj) (chunk : Chunk) (current name content content' : Bytes),
            packages[slot]? = some (some bpkg)
              ∧ bpkg.ident = some current
              ∧ strncmpEq current (cstr (resArgs pkt).ident) 20 = true
              ∧ bpkg.HasChunk chunk
              ∧ chunk.hash = cstr (resArgs pkt).chunkHash
              ∧ bpkg.filename = some name
              ∧ files name = some content
              ∧ files' name = some content'
              ∧ (∀ other, other ≠ name → files' other = files other)
              ∧ ∃ off len : Nat,
                  chunk.offset.toNat ≤ off
                    ∧ off + len ≤ (chunk.offset + chunk.size).toNat
                    ∧ (chunk.offset + chunk.size).toNat = chunk.offset.toNat + chunk.size.toNat
                    ∧ (∀ p, off + len ≤ p → content'[p]? = content[p]?)
                    ∧ (∀ p < off, p < content.length → content'[p]? = content[p]?)
                    ∧ (∀ p < off, content.length ≤ p → p < content'.length → content'[p]? = some 0) := by
  unfold handleResOn at h
  rw [if_pos herror] at h
  cases addDataToFile_cases h with
  | inl hsame => exact .inl hsame
  | inr hwrites =>
    obtain ⟨slot, bpkg, name, content, data, req, hfound, hslot, hname, hcontent, _, hreq, hle, hlen,
      hfiles⟩ := hwrites
    obtain ⟨other, current, hslot', hident, hmatch⟩ := chunkInMemory_cases hfound
    obtain ⟨chunk, hchunk, hhash, hspans, hresult⟩ := calculateDataLen_cases hreq
    obtain ⟨hlo, hhi, hend⟩ := Chunk.end_of_spans hspans
    rw [hslot, Option.some.injEq, Option.some.injEq] at hslot'
    rw [← hslot'] at hident
    dsimp only at hfiles hle hlen hlo hhi
    generalize hoff : (resArgs pkt).fileOffset = off at *
    generalize hn : (resArgs pkt).dataRecieved.toNat = n at *
    -- the guard bounds what is written by the rest of the chunk
    have hrest : off.toNat + n ≤ (chunk.offset + chunk.size).toNat := by
      rw [hresult] at hle
      simp only [calculateDataLen.result] at hle
      rw [UInt32.toNat_sub_of_le _ _ (UInt32.le_iff_toNat_le.mpr hhi)] at hle
      omega
    have htake : (data.take n).length = n := by
      rw [List.length_take]
      exact Nat.min_eq_left hlen
    have hoverwrite (p : Nat) (hp : p < off.toNat ∨ off.toNat + n ≤ p)
        : (overwrite content off.toNat (data.take n))[p]? = content[p]?
          ∨ (p < off.toNat ∧ content.length ≤ p
            ∧ (overwrite content off.toNat (data.take n))[p]? = some 0) := by
      by_cases hys : data.take n = []
      . rw [overwrite, if_pos hys]
        exact .inl rfl
      . rw [getElem?_overwrite hys, htake]
        split
        . split
          . exact .inl rfl
          . exact .inr ⟨by omega, by omega, rfl⟩
        . rw [if_neg (by omega)]
          exact .inl rfl
    refine .inr ⟨slot, bpkg, chunk, current, name, content, overwrite content off.toNat (data.take n),
      hslot, hident, hmatch, hchunk, hhash, hname, hcontent, ?_, ?_, off.toNat, n, hlo, hrest, hend, ?_, ?_,
      ?_⟩
    . rw [hfiles]
      exact FileSystem.write_same files name _
    . intro other hne
      rw [hfiles, FileSystem.write, if_neg hne]
    . intro p hp
      cases hoverwrite p (.inr hp) with
      | inl h => exact h
      | inr h => omega
    . intro p hp hin
      cases hoverwrite p (.inl hp) with
      | inl h => exact h
      | inr h => omega
    . intro p hp hin hnew
      cases hoverwrite p (.inl hp) with
      | inl h =>
        rw [List.getElem?_eq_getElem hnew, List.getElem?_eq_none hin] at h
        exact absurd h (by simp)
      | inr h => exact h.2.2

def threeParts : Package where
  hashes := [letters 118, letters 119]
  chunks := [⟨letters 117, 0, 2, none⟩, ⟨digestC, 2, 2, none⟩, ⟨letters 120, 4, 2, none⟩]
  chunkSize := 2
  length_chunks := rfl
  tiles := ⟨rfl, Nat.two_pos, rfl, Nat.two_pos, rfl, Nat.two_pos, trivial⟩
  size_eq := by simp
  length_hash_le := by decide

theorem threeParts_distinct : threeParts.Distinct where
  length_hash := by decide
  nodup := by decide

/--
A block for the last byte of the second of three chunks.
-/
theorem handleResOn_confined_middle
    : ∃ bpkg pkt files',
        pkt.error = 0
          ∧ handleResOn [] [some bpkg] (fun _ => some (ascii "xxxxxx")) pkt = .ok files'
          ∧ files' (ascii "f") = some (ascii "xxxdxx")
          ∧ (∀ other, other ≠ ascii "f" → files' other = some (ascii "xxxxxx"))
          ∧ ∃ off len : Nat,
              2 ≤ off
                ∧ off + len ≤ 4
                ∧ (∀ p, off + len ≤ p → (ascii "xxxdxx")[p]? = (ascii "xxxxxx")[p]?)
                ∧ ∀ p < off, p < 6 → (ascii "xxxdxx")[p]? = (ascii "xxxxxx")[p]? := by
  obtain ⟨bpkg, hloaded, hname, hident⟩ := threeParts.exists_manages (show 2 < 2 ^ 30 by decide)
    (cstr longIdent)
  have hholds : Holds [some bpkg] (fun _ => some (ascii "xxxxxx")) threeParts (cstr longIdent) 0 bpkg
      (ascii "f") (ascii "xxxxxx") :=
    ⟨manages_first hident [], hloaded, rfl, rfl⟩
  obtain ⟨pkt, _, hpkt⟩ := @sendRes_isBlock
    { dataLen := 1
      dataRecieved := 0
      ident := longIdent
      chunkHash := digestC
      fileOffset := 3
      data := some (slice (ascii "abcdef") 3 1 ++ List.replicate (DATA_MAX_SIZE - 1) 0)
      bytesRead := 0
      currentRead := 1 } (ascii "abcdef") 3 1 rfl (by decide) (by decide) rfl rfl
    (show CHUNK_HASH_SIZE ≤ digestC.length by decide) (Nat.le_of_eq length_longIdent.symm)
  have hhash : cstr (digestC.take CHUNK_HASH_SIZE ++ [0]) = digestC := by decide
  have hwrite := handleRes_block threeParts_distinct (k := 1) rfl (by decide) hholds hname
    (by dsimp only; rw [take_longIdent]) hhash hpkt (show 2 ≤ 3 by decide) (show 3 + 1 ≤ 2 + 2 by decide)
    (show 3 + 1 ≤ 6 by decide)
  have hfile := FileSystem.write_same (fun _ => some (ascii "xxxxxx")) (ascii "f")
    (patch (ascii "abcdef") (ascii "xxxxxx") 3 1)
  have hothers : ∀ other, other ≠ ascii "f" → FileSystem.write (fun _ => some (ascii "xxxxxx")) (ascii "f")
      (patch (ascii "abcdef") (ascii "xxxxxx") 3 1) other = some (ascii "xxxxxx") := by
    intro other hne
    rw [FileSystem.write, if_neg hne]
  rw [← handleResOn_nil] at hwrite
  refine ⟨bpkg, pkt, _, hpkt.error_eq, hwrite, hfile, hothers, ?_⟩
  cases handleResOn_confined hpkt.error_eq hwrite with
  | inl hsame =>
    rw [hsame] at hfile
    exact absurd hfile (by decide)
  | inr hwritten =>
    obtain ⟨slot, other, chunk, _, name, content, content', hslot, _, _, hchunk, hhash', hname', hcontent,
      hcontent', _, off, len, hlo, hhi, hend, hbehind, hbefore, _⟩ := hwritten
    have hother : some other = some bpkg := List.mem_singleton.mp (List.mem_of_getElem? hslot)
    rw [Option.some.injEq] at hother
    rw [hother] at hname' hchunk
    rw [hname, Option.some.injEq] at hname'
    rw [← hname', hfile, Option.some.injEq] at hcontent'
    rw [Option.some.injEq] at hcontent
    rw [← hcontent', ← hcontent] at hbehind hbefore
    -- only the second chunk has the hash
    obtain ⟨middle, hmiddle, hmiddleHash, hoffset, hsize⟩ := hloaded.mem_of_hasChunk hchunk
    rw [hhash', hpkt.chunkHash_eq, hhash] at hmiddleHash
    have hsecond : middle.offset = 2 ∧ middle.size = 2 := by
      have hall : ∀ chunk ∈ threeParts.chunks, chunk.hash = digestC → chunk.offset = 2 ∧ chunk.size = 2 := by
        decide
      exact hall middle hmiddle hmiddleHash
    rw [hend, ← hoffset, ← hsize, hsecond.1, hsecond.2] at hhi
    rw [← hoffset, hsecond.1] at hlo
    exact ⟨off, len, hlo, hhi, hbehind, hbefore⟩

end handlePeers

end Btide
