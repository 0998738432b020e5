import Btide.Crypt.Sha256Stream
import Btide.Net.Fetch
import Btide.Net.FullFile

/-!
This module contains the program of `sha256chk.c`, which prints the hash of a file, and its agreement with
the completed chunks of a package.
-/

open Bytes CLib

namespace Btide

def SHA256_BFLEN : Nat := 1024

namespace sha256chk

/--
The reads up to the last one, which is short. `data` is what is left of the file.
-/
def updates (cdata : Sha256ComputeData) (data : Bytes) : Except Fault Sha256ComputeData :=
  if _h : SHA256_BFLEN ≤ data.length then do
    let cdata ← sha256Update cdata (data.take SHA256_BFLEN) (UInt32.ofNat SHA256_BFLEN)
    updates cdata (data.drop SHA256_BFLEN)
  else
    sha256Update cdata data (UInt32.ofNat data.length)
termination_by data.length
decreasing_by
  unfold SHA256_BFLEN at _h ⊢
  rw [List.length_drop]
  omega

def main (files : FileSystem) (argv : List Bytes) : Except Fault (Bytes × Int) := do
  match argv[1]? with
  | none => return (ascii "No file provided" ++ ascii "\n", 1)
  | some path =>
    match files path with
    -- a message is printed, and then the null pointer is closed
    | none => throw .nullPointer
    | some data =>
      let cdata := sha256ComputeDataInit Sha256.zeroBuff
      let cdata ← updates cdata data
      let cdata ← sha256Finalize cdata
      return (cstr (sha256OutputHex cdata) ++ ascii "\n", 0)

open Sha256 Fips180

theorem updates_represents {cdata : Sha256ComputeData} {msg : Bytes} (h : Represents cdata msg) (data : Bytes)
    : ∃ cdata', updates cdata data = .ok cdata' ∧ Represents cdata' (msg ++ data) := by
  fun_induction updates cdata data generalizing msg with
  | case1 cdata data hlen ih =>
    have hblock : (data.take SHA256_BFLEN).length = SHA256_BFLEN := List.length_take_of_le hlen
    obtain ⟨cdata₁, hupdate, hrep⟩ := h.update (show (data.take SHA256_BFLEN).length < 2 ^ 31 by
      rw [hblock]
      decide)
    rw [hblock] at hupdate
    obtain ⟨cdata₂, hrest, hrep⟩ := ih cdata₁ hrep
    rw [List.append_assoc, List.take_append_drop] at hrep
    refine ⟨cdata₂, ?_, hrep⟩
    rw [hupdate]
    exact hrest
  | case2 cdata data hlen =>
    have hshort : data.length < 2 ^ 31 := by
      unfold SHA256_BFLEN at hlen
      omega
    exact h.update hshort

theorem hex_ne_zero (bytes : Bytes) : ∀ c ∈ hex bytes, c ≠ 0 := by
  intro c hc
  rw [← binToHex_eq] at hc
  have hlut : ∀ c ∈ lut, c ≠ 0 := by decide +kernel
  exact hlut c (mem_lut_of_mem_binToHex hc)

theorem main_eq {files : FileSystem} {prog path data : Bytes} {args : List Bytes}
    (hfile : files path = some data) (hlen : data.length < 2 ^ 61)
    : main files (prog :: path :: args) = .ok (hex (Fips180.digest data) ++ ascii "\n", 0) := by
  obtain ⟨cdata₁, hupdates, hrep⟩ := updates_represents (@init_represents zeroBuff rfl) data
  rw [List.nil_append] at hrep
  obtain ⟨cdata₂, hfinalize, hhcomps⟩ := hrep.finalize hlen
  have houtput : sha256OutputHex cdata₂ = hex (Fips180.digest data) := by
    rw [sha256OutputHex, output_eq hhcomps, binToHex_eq, Fips180.digest]
  unfold main
  simp only [List.getElem?_cons_succ, List.getElem?_cons_zero, hfile, hupdates, hfinalize, houtput, bind,
    Except.bind, pure, Except.pure]
  rw [cstr_of_forall (hex_ne_zero _)]

/--
The strings that the query on a package reports are those that the program prints for the parts of the
data file.
-/
theorem main_agrees {pkg : Package} {bpkg : BpkgObj} {files : FileSystem} {name data : Bytes}
    (h : pkg.IsLoaded bpkg) (hname : stripWhitespace bpkg.filename = .ok (some name))
    (hfile : files name = some data) (hlen : data.length = pkg.length) (hsize : pkg.chunkSize < 2 ^ 31)
    : ∃ qry bpkg',
        bpkgGetCompletedChunks files bpkg = .ok (qry, bpkg')
          ∧ ∀ hash,
              hash ∈ qry.hashes.hashes
                ↔
              ∃ chunk ∈ pkg.chunks,
                chunk.hash = hash
                  ∧ ∀ (files' : FileSystem) (prog path : Bytes) (args : List Bytes),
                      files' path = some (slice data chunk.offset.toNat chunk.size.toNat)
                        →
                      main files' (prog :: path :: args) = .ok (hash ++ ascii "\n", 0) := by
  obtain ⟨qry, bpkg', hqry, hperm⟩ := h.completedChunks hname hfile hlen
  refine ⟨qry, bpkg', hqry, ?_⟩
  intro hash
  -- what the program prints for the part is its digest
  have hprints (chunk : Chunk) (hchunk : chunk ∈ pkg.chunks)
      : chunk.complete data = true
          ↔
        ∀ (files' : FileSystem) (prog path : Bytes) (args : List Bytes),
          files' path = some (slice data chunk.offset.toNat chunk.size.toNat)
            →
          main files' (prog :: path :: args) = .ok (chunk.hash ++ ascii "\n", 0) := by
    have hend := Package.chunk_end_le hchunk
    have hchunkSize := pkg.size_eq chunk hchunk
    rw [← hlen] at hend
    have hpart := length_slice_of_le hend
    have hshort : (slice data chunk.offset.toNat chunk.size.toNat).length < 2 ^ 31 := by
      rw [hpart, hchunkSize]
      exact hsize
    have hdigest := digest_eq hshort
    rw [Chunk.complete_iff, hdigest]
    constructor
    . intro hc files' prog path args hpath
      rw [main_eq hpath (Nat.lt_trans hshort (by decide)), hc.2]
    . intro hall
      obtain ⟨files', hpath⟩
          : ∃ files' : FileSystem, files' [] = some (slice data chunk.offset.toNat chunk.size.toNat) :=
        ⟨fun _ => some (slice data chunk.offset.toNat chunk.size.toNat), rfl⟩
      have hone := hall files' [] [] [] hpath
      rw [main_eq hpath (Nat.lt_trans hshort (by decide)), Except.ok.injEq, Prod.mk.injEq,
        List.append_cancel_right_eq] at hone
      exact ⟨hend, hone.1⟩
  rw [hperm.mem_iff, completed, List.mem_map]
  constructor
  . rintro ⟨chunk, hmem, rfl⟩
    rw [List.mem_filter] at hmem
    exact ⟨chunk, hmem.1, rfl, (hprints chunk hmem.1).mp hmem.2⟩
  . rintro ⟨chunk, hmem, rfl, hall⟩
    exact ⟨chunk, List.mem_filter.mpr ⟨hmem, (hprints chunk hmem).mpr hall⟩, rfl⟩

theorem main_agrees_one
    : ∃ (bpkg bpkg' : BpkgObj) (qry : BpkgQuery),
        bpkgGetCompletedChunks (fun _ => some (ascii "c")) bpkg = .ok (qry, bpkg')
          ∧ digestC ∈ qry.hashes.hashes
          ∧ main (fun _ => some (ascii "c")) [[], []] = .ok (digestC ++ ascii "\n", 0) := by
  obtain ⟨bpkg, hloaded, hfilename, _⟩ :=
    (oneChunk digestC rfl).exists_manages (Nat.two_pow_pos 30) (cstr longIdent)
  have hname : stripWhitespace bpkg.filename = .ok (some (ascii "f")) := by
    rw [hfilename]
    rfl
  obtain ⟨qry, bpkg', hqry, hagrees⟩ := @main_agrees _ _ (fun _ => some (ascii "c")) _ _ hloaded hname rfl
    (show (ascii "c").length = 1 * 1 from rfl) (show 1 < 2 ^ 31 by decide)
  have hmain {files : FileSystem} {prog path : Bytes} {args : List Bytes}
      (hpath : files path = some (ascii "c"))
      : main files (prog :: path :: args) = .ok (digestC ++ ascii "\n", 0) := by
    rw [main_eq hpath (show (ascii "c").length < 2 ^ 61 by decide),
      ← digest_eq (show (ascii "c").length < 2 ^ 31 by decide), digest_c]
  refine ⟨bpkg, bpkg', qry, hqry, ?_, hmain rfl⟩
  rw [hagrees]
  exact ⟨⟨digestC, 0, 1, none⟩, List.mem_singleton_self _, rfl, fun _ _ _ _ hpath => hmain hpath⟩

end sha256chk

end Btide
