import Btide.Net.Receipt

/-!
This module contains which bytes the branch for a RES writes to a data file.
-/

open Bytes CLib

namespace Btide

structure FwriteCall where
  name : Bytes
  content : Bytes
  pos : Nat
  count : Nat
  deriving DecidableEq, Repr

namespace addDataToFile

def fwriteCall (packages : ManagedPackages) (files : FileSystem) (resArgs : ResArgs)
    : Except Fault (Option FwriteCall) := do
  let hash := cstr resArgs.chunkHash
  match ← chunkInMemory packages (cstr resArgs.ident) hash with
  | .found slot =>
    let chosenBpkg ← deref (packages.getD slot none)
    match ← calculateDataLen chosenBpkg hash (some resArgs.fileOffset) with
    | none => return none
    | some reqArgs =>
      if reqArgs.fileOffset = resArgs.fileOffset
          ∧ resArgs.dataRecieved.toNat ≤ reqArgs.dataLen.toNat then
        let some name := chosenBpkg.filename | throw .uninitialised
        match files name with
        | none => return none
        | some content =>
          return some
            { name, content, pos := reqArgs.fileOffset.toNat, count := resArgs.dataRecieved.toNat }
      else
        return none
  | _ => return none

def fwrite (files : FileSystem) (data : Option Bytes) : Option FwriteCall → Except Fault FileSystem
  | none => .ok files
  | some call => do
    let data ← deref data
    if data.length < call.count then
      throw .outOfBounds
    return files.write call.name (overwrite call.content call.pos (data.take call.count))

def Accepts (packages : ManagedPackages) (files : FileSystem) (resArgs : ResArgs) : Prop :=
  ∃ slot bpkg req name content,
    chunkInMemory packages (cstr resArgs.ident) (cstr resArgs.chunkHash) = .ok (.found slot)
      ∧ packages[slot]? = some (some bpkg)
      ∧ calculateDataLen bpkg (cstr resArgs.chunkHash) (some resArgs.fileOffset) = .ok (some req)
      ∧ resArgs.dataRecieved.toNat ≤ req.dataLen.toNat
      ∧ bpkg.filename = some name
      ∧ files name = some content

variable {packages : ManagedPackages} {files : FileSystem} {resArgs : ResArgs}

theorem eq_fwrite
    : addDataToFile packages files resArgs
        =
      (fwriteCall packages files resArgs).bind (fwrite files resArgs.data) := by
  unfold addDataToFile fwriteCall
  dsimp only
  cases chunkInMemory packages (cstr resArgs.ident) (cstr resArgs.chunkHash) with
  | error e => rfl
  | ok lookup =>
    cases lookup with
    | noHash => rfl
    | noPackage => rfl
    | found slot =>
      simp only [bind, Except.bind]
      cases deref (packages.getD slot none) with
      | error e => rfl
      | ok bpkg =>
        dsimp only
        cases calculateDataLen bpkg (cstr resArgs.chunkHash) (some resArgs.fileOffset) with
        | error e => rfl
        | ok answer =>
          cases answer with
          | none => rfl
          | some req =>
            dsimp only
            split
            . cases bpkg.filename with
              | none => rfl
              | some name =>
                dsimp only
                cases files name with
                | none => rfl
                | some content => rfl
            . rfl

theorem accepts_of_fwriteCall {call : FwriteCall} (h : fwriteCall packages files resArgs = .ok (some call))
    : Accepts packages files resArgs ∧ call.count = resArgs.dataRecieved.toNat := by
  unfold fwriteCall at h
  simp only [bind_eq_ok] at h
  obtain ⟨lookup, hlookup, h⟩ := h
  cases lookup with
  | noHash => simp [pure_eq_ok] at h
  | noPackage => simp [pure_eq_ok] at h
  | found slot =>
    obtain ⟨bpkg, current, hslot, _⟩ := chunkInMemory_cases hlookup
    simp only [bind_eq_ok, List.getD_eq_getElem?_getD, hslot, Option.getD_some, deref_some,
      Except.ok.injEq, exists_eq_left'] at h
    obtain ⟨answer, hanswer, h⟩ := h
    split at h
    . simp [pure_eq_ok] at h
    . next req =>
      split at h
      . next hreq =>
        split at h
        . next name hname =>
          split at h
          . simp [pure_eq_ok] at h
          . next content hcontent =>
            rw [pure_eq_ok, Option.some.injEq] at h
            refine ⟨⟨slot, bpkg, req, name, content, hlookup, hslot, hanswer, hreq.2, hname, hcontent⟩, ?_⟩
            rw [← h]
        . simp [throw_eq_ok] at h
      . simp [pure_eq_ok] at h

theorem exists_fwriteCall (h : Accepts packages files resArgs)
    : ∃ call,
        fwriteCall packages files resArgs = .ok (some call)
          ∧ call.count = resArgs.dataRecieved.toNat := by
  obtain ⟨slot, bpkg, req, name, content, hlookup, hslot, hreq, hle, hname, hcontent⟩ := h
  obtain ⟨_, _, _, _, hresult⟩ := calculateDataLen_cases hreq
  have hoffset : req.fileOffset = resArgs.fileOffset := by
    rw [hresult]
    rfl
  refine ⟨⟨name, content, resArgs.fileOffset.toNat, resArgs.dataRecieved.toNat⟩, ?_, rfl⟩
  unfold fwriteCall
  simp only [hlookup, hslot, hreq, hoffset, hle, hname, hcontent, List.getD_eq_getElem?_getD,
    Option.getD_some, deref_some, bind, Except.bind, and_self, ↓reduceIte]
  rfl

end addDataToFile

namespace handlePeers

open addDataToFile

structure WritesPacketOnly (packages : ManagedPackages) (files : FileSystem) (pkt : BtidePacket)
    : Prop where
  count_le : ∀ call, pkt.error = 0 → fwriteCall packages files (resArgs pkt) = .ok (some call)
    → call.count ≤ DATA_MAX_SIZE
  same : ∀ stack stack', handleResOn stack packages files pkt = handleResOn stack' packages files pkt

variable {packages : ManagedPackages} {files : FileSystem} {pkt : BtidePacket}

theorem length_data (pkt : BtidePacket) : (slice pkt.pl.val 4 DATA_MAX_SIZE).length = DATA_MAX_SIZE :=
  BtidePayload.length_slice_val (by decide)

theorem handleResOn_eq (herror : pkt.error = 0) (stack : Bytes)
    : handleResOn stack packages files pkt
        =
      (fwriteCall packages files (resArgs pkt)).bind
        (fwrite files (some (slice pkt.pl.val 4 DATA_MAX_SIZE ++ stack))) := by
  unfold handleResOn
  rw [if_pos herror, eq_fwrite]
  rfl

theorem writesPacketOnly_of_count_le
    (h : ∀ call, pkt.error = 0 → fwriteCall packages files (resArgs pkt) = .ok (some call)
      → call.count ≤ DATA_MAX_SIZE)
    : WritesPacketOnly packages files pkt where
  count_le := h
  same := by
    intro stack stack'
    by_cases herror : pkt.error = 0
    . rw [handleResOn_eq herror, handleResOn_eq herror]
      cases hcall : fwriteCall packages files (resArgs pkt) with
      | error e => rfl
      | ok call =>
        cases call with
        | none => rfl
        | some call =>
          have hle := h call herror hcall
          -- both runs find the same bytes behind the address of the block
          have hwrite (stack : Bytes)
              : fwrite files (some (slice pkt.pl.val 4 DATA_MAX_SIZE ++ stack)) (some call)
                  =
                .ok (files.write call.name
                  (overwrite call.content call.pos ((slice pkt.pl.val 4 DATA_MAX_SIZE).take call.count))) := by
            have hlen : ¬ (slice pkt.pl.val 4 DATA_MAX_SIZE ++ stack).length < call.count := by
              rw [List.length_append, length_data]
              omega
            rw [fwrite, deref_some]
            simp only [bind, Except.bind, hlen, ↓reduceIte]
            rw [List.take_append_of_le_length (by rw [length_data]; exact hle)]
            rfl
          exact (hwrite stack).trans (hwrite stack').symm
    . unfold handleResOn
      rw [if_neg herror, if_neg herror]

theorem writesPacketOnly_of_size_le
    (hsize : ∀ bpkg, some bpkg ∈ packages → ∀ chunk, bpkg.HasChunk chunk
      → chunk.size.toNat ≤ DATA_MAX_SIZE)
    (pkt : BtidePacket) : WritesPacketOnly packages files pkt := by
  apply writesPacketOnly_of_count_le
  intro call _ hcall
  obtain ⟨⟨slot, bpkg, req, _, _, _, hslot, hreq, hle, _⟩, hcount⟩ := accepts_of_fwriteCall hcall
  obtain ⟨chunk, hchunk, _, hspans, hresult⟩ := calculateDataLen_cases hreq
  obtain ⟨hlo, hhi, hend⟩ := Chunk.end_of_spans hspans
  have hsmall := hsize bpkg (List.mem_of_getElem? hslot) chunk hchunk
  rw [hresult] at hle
  simp only [calculateDataLen.result] at hle
  rw [UInt32.toNat_sub_of_le _ _ (UInt32.le_iff_toNat_le.mpr hhi)] at hle
  omega

theorem writesPacketOnly_iff (packages : ManagedPackages) (files : FileSystem) (pkt : BtidePacket)
    : WritesPacketOnly packages files pkt
        ↔
      (pkt.error = 0 → Accepts packages files (resArgs pkt) → (resArgs pkt).dataRecieved.toNat ≤ DATA_MAX_SIZE) := by
  constructor
  . intro h herror haccepts
    obtain ⟨call, hcall, hcount⟩ := exists_fwriteCall haccepts
    rw [← hcount]
    exact h.count_le call herror hcall
  . intro h
    apply writesPacketOnly_of_count_le
    intro call herror hcall
    obtain ⟨haccepts, hcount⟩ := accepts_of_fwriteCall hcall
    rw [hcount]
    exact h herror haccepts

def longChunk : Bytes :=
  ascii "ident:a\nfilename:f\nsize:3000\nnhashes:0\nhashes:\nnchunks:1\nchunks:\n\tc,0,3000\n"

def longChunkObj : BpkgObj where
  ident := some (ascii "a")
  filename := some (ascii "f")
  size := 3000
  nhashes := 0
  hashes := .ofList []
  nchunks := 1
  chunks := .ofList [⟨ascii "c", 0, 3000, some 0⟩]
  tree := some { root := .leaf ⟨0, 0, ascii "c", none, []⟩, nNodes := 1 }

def longRes : BtidePacket where
  msgCode := PKT_MSG_RES
  error := 0
  pl :=
    ⟨List.replicate 4 0 ++ List.replicate 2998 100 ++ toLE 2 3000 ++ ascii "c" ++ List.replicate 63 0
      ++ ascii "a" ++ List.replicate 1023 0, by decide +kernel⟩

theorem writesPacketOnly_fails
    : bpkgLoad ⟨none, none, 7, 7, none, 7, none, none⟩ (some longChunk) none = .ok (some longChunkObj)
        ∧ fwriteCall [some longChunkObj] (fun _ => some []) (resArgs longRes)
            =
          .ok (some ⟨ascii "f", [], 0, 3000⟩)
        ∧ ((handleResOn [7, 8] [some longChunkObj] (fun _ => some []) longRes).toOption.bind fun files =>
            (files (ascii "f")).map (List.drop 2997))
            =
          some [100, 7, 8] := by
  refine ⟨?_, ?_, ?_⟩
  . decide +kernel
  . decide +kernel
  . decide +kernel

end handlePeers

end Btide
