import Btide.Lib.History
import Btide.Net.SwarmRuns

/-!
This module contains a package whose data is downloaded, and what a block of it does to the bytes of a
data file.
-/

open Bytes CLib

namespace Bytes

theorem slice_eq_of_getElem? {xs ys : Bytes} {off len : Nat}
    (h : ∀ i : Nat, off ≤ i → i < off + len → xs[i]? = ys[i]?) : slice xs off len = slice ys off len := by
  apply List.ext_getElem?
  intro i
  rw [getElem?_slice, getElem?_slice]
  split
  . exact h (off + i) (by omega) (by omega)
  . rfl

theorem getElem?_of_slice_eq {xs ys : Bytes} {off len i : Nat} (h : slice xs off len = slice ys off len)
    (hlo : off ≤ i) (hhi : i < off + len) : xs[i]? = ys[i]? := by
  have hi : i - off < len := by omega
  have hget := congrArg (·[i - off]?) h
  simp only [getElem?_slice, hi, ↓reduceIte, Nat.add_sub_cancel' hlo] at hget
  exact hget

theorem slice_congr {xs ys : Bytes} {a n off len : Nat} (h : slice xs a n = slice ys a n)
    (hlo : a ≤ off) (hhi : off + len ≤ a + n) : slice xs off len = slice ys off len := by
  apply slice_eq_of_getElem?
  intro i hfrom hto
  apply getElem?_of_slice_eq h
  . omega
  . omega

end Bytes

namespace Btide

open handlePeers

theorem Package.end_lt {pkg : Package} (hlt : pkg.length < 2 ^ 32) {k : Nat} {chunk : Chunk}
    (hk : pkg.chunks[k]? = some chunk) : chunk.offset.toNat + chunk.size.toNat < 2 ^ 32 :=
  Nat.lt_of_le_of_lt (Package.chunk_end_le (List.mem_of_getElem? hk)) hlt

def Swarm.Action.EndsIdent {ι : Type} : Action ι → Prop
  | .fetch _ _ mem _ _ => 0 ∈ mem.take IDENT_SIZE
  | .deliver .. => True

/--
A package that the peers share, its data and the files that they start with. No two of the contents that
the chunks go through have one hash.
-/
structure Sharing (ι : Type) where
  pkg : Package
  ident : Bytes
  data : Bytes
  names : ι → Bytes
  old : ι → Bytes
  occurs : Bytes → Prop
  distinct : pkg.Distinct
  chunkSize_lt : pkg.chunkSize < 2 ^ 31
  length_lt : pkg.length < 2 ^ 32
  length_data : data.length = pkg.length
  complete : ∀ chunk ∈ pkg.chunks, chunk.complete data = true
  occurs_data : ∀ chunk ∈ pkg.chunks, occurs (slice data chunk.offset.toNat chunk.size.toNat)
  injective : ∀ x y, occurs x → occurs y → Sha256.digest x = Sha256.digest y → x = y

namespace Sharing

variable {ι : Type} (sh : Sharing ι)

def TrueRes (pkt : BtidePacket) : Prop :=
  pkt.msgCode = PKT_MSG_RES
    →
  pkt.error = 0
    →
  Matches sh.ident (resArgs pkt).ident
    →
  ∀ block,
    (resArgs pkt).data = some block
      →
    block.take (rangeOf pkt).2 = slice sh.data (rangeOf pkt).1 (rangeOf pkt).2

variable {sh} {peer : Peer} {p : ι} {content : Bytes} {slot : Nat} {bpkg : BpkgObj} {pkt : BtidePacket}

theorem slice_eq_of_complete {chunk : Chunk} (hchunk : chunk ∈ sh.pkg.chunks)
    (hcomplete : chunk.complete content = true)
    (hoccurs : sh.occurs (slice content chunk.offset.toNat chunk.size.toNat))
    : slice content chunk.offset.toNat chunk.size.toNat
        =
      slice sh.data chunk.offset.toNat chunk.size.toNat := by
  apply sh.injective _ _ hoccurs (sh.occurs_data chunk hchunk)
  rw [(Chunk.complete_iff.mp hcomplete).2, (Chunk.complete_iff.mp (sh.complete chunk hchunk)).2]

theorem complete_of_slice_eq {chunk : Chunk} (hchunk : chunk ∈ sh.pkg.chunks)
    (hlen : content.length = sh.pkg.length)
    (h : slice content chunk.offset.toNat chunk.size.toNat
      = slice sh.data chunk.offset.toNat chunk.size.toNat)
    : chunk.complete content = true := by
  have hcomplete := sh.complete chunk hchunk
  rw [Chunk.complete_iff] at hcomplete ⊢
  rw [h, hlen]
  exact ⟨Package.chunk_end_le hchunk, hcomplete.2⟩

theorem trueRes (h : SoundRes sh.pkg sh.ident sh.occurs pkt) : sh.TrueRes pkt := by
  intro hcode herror hmatch block hblock
  obtain ⟨chunk, hchunk, source, data, hcomplete, hoccurs, hlo, hhi, hdata, htake⟩ := h hcode herror hmatch
  rw [hblock, Option.some.injEq] at hdata
  rw [hdata, htake]
  exact slice_congr (slice_eq_of_complete hchunk hcomplete hoccurs) hlo hhi

theorem TrueRes.mixes (htrue : sh.TrueRes pkt) (hcode : pkt.msgCode = PKT_MSG_RES)
    (h : peer.Shares sh.pkg sh.ident (sh.names p) content slot bpkg) {files : FileSystem}
    (hres : handleRes peer.packages peer.files pkt = .ok files)
    : ∃ content',
        files (sh.names p) = some content'
          ∧ ∀ i : Nat, content'[i]? = content[i]? ∨ content'[i]? = sh.data[i]? := by
  rcases handleRes_cases h hres with hfile | ⟨herror, hmatch, _, hin, block, hblock, hlen, hfile⟩
  . exact ⟨content, hfile, fun _ => .inl rfl⟩
  . refine ⟨_, hfile, ?_⟩
    intro i
    have hdata : sh.data.length = content.length := by
      rw [sh.length_data, h.length_content]
    rw [htrue hcode herror hmatch block hblock, ← patch, getElem?_patch (by omega) hin]
    split
    . exact .inr rfl
    . exact .inl rfl

end Sharing

theorem Package.exists_shares (pkg : Package) (hn : pkg.hashes.length < 2 ^ 30) {content : Bytes}
    (hlen : content.length = pkg.length)
    : ∃ bpkg,
        (Peer.mk [some bpkg] fun _ => some content).Shares pkg (cstr longIdent) (ascii "f") content 0 bpkg := by
  obtain ⟨bpkg, hloaded, hname, hident⟩ := pkg.exists_manages hn (cstr longIdent)
  have hstrip : stripWhitespace (some (ascii "f")) = .ok (some (ascii "f")) := by decide
  refine ⟨bpkg, rfl, hloaded, ⟨_, hident, rfl⟩, hname, hstrip, ?_, rfl, hlen⟩
  intro i hi other hother
  cases i with
  | zero => exact absurd rfl hi
  | succ i => simp at hother

end Btide
