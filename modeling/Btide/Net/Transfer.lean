import Btide.Net.Lookup
import Btide.Net.Payload

/-!
This module contains what a request makes the responder send and what a block makes the receiver
write.
-/

open Bytes CLib

namespace Btide

namespace handlePeers

open getDataFromFile

structure IsBlock (chunkHash ident content : Bytes) (pkt : BtidePacket) (r : Nat × Nat) : Prop where
  code_eq : pkt.msgCode = PKT_MSG_RES
  error_eq : pkt.error = 0
  chunkHash_eq : (resArgs pkt).chunkHash = chunkHash.take CHUNK_HASH_SIZE ++ [0]
  ident_eq : (resArgs pkt).ident = ident.take IDENT_SIZE
  fileOffset_eq : (resArgs pkt).fileOffset.toNat = r.1
  dataRecieved_eq : (resArgs pkt).dataRecieved.toNat = r.2
  data_eq : ∃ data,
    (resArgs pkt).data = some data ∧ r.2 ≤ data.length ∧ data.take r.2 = slice content r.1 r.2

theorem sendRes_of_read {res : ResArgs} {content : Bytes} {off n : Nat} (hn : n ≤ DATA_MAX_SIZE)
    (hin : off + n ≤ content.length) (hread : res.currentRead = UInt16.ofNat n)
    (hdata : res.data = some (slice content off n ++ List.replicate (DATA_MAX_SIZE - n) 0))
    (hhash : CHUNK_HASH_SIZE ≤ res.chunkHash.length) (hident : IDENT_SIZE ≤ res.ident.length)
    : ∃ pkt data,
        sendRes res false = .ok pkt
          ∧ pkt.msgCode = PKT_MSG_RES
          ∧ pkt.error = 0
          ∧ n ≤ data.length
          ∧ data.take n = slice content off n
          ∧ (UInt16.ofNat n).toNat = n
          ∧ resArgs pkt
              =
            { dataLen := 0
              dataRecieved := UInt16.ofNat n
              ident := res.ident.take IDENT_SIZE
              chunkHash := res.chunkHash.take CHUNK_HASH_SIZE ++ [0]
              fileOffset := res.fileOffset
              data := some data
              bytesRead := 0
              currentRead := 0 } := by
  have hslice : (slice content off n).length = n := length_slice_of_le hin
  have hlen : (slice content off n ++ List.replicate (DATA_MAX_SIZE - n) 0).length = DATA_MAX_SIZE := by
    rw [List.length_append, hslice, List.length_replicate]
    omega
  have hn' : (UInt16.ofNat n).toNat = n := by
    unfold DATA_MAX_SIZE at hn
    rw [UInt16.toNat_ofNat']
    omega
  obtain ⟨pkt, hsend, hcode, herror, hargs⟩ := resArgs_of_sendRes hdata hlen hhash hident
  rw [hread] at hargs
  refine ⟨pkt, _, hsend, hcode, herror, ?_, List.take_left' hslice, hn', hargs⟩
  rw [hlen]
  exact hn

theorem sendRes_isBlock {res : ResArgs} {content : Bytes} {off n : Nat}
    (hoff : res.fileOffset.toNat = off) (hn : n ≤ DATA_MAX_SIZE) (hin : off + n ≤ content.length)
    (hread : res.currentRead = UInt16.ofNat n)
    (hdata : res.data = some (slice content off n ++ List.replicate (DATA_MAX_SIZE - n) 0))
    (hhash : CHUNK_HASH_SIZE ≤ res.chunkHash.length) (hident : IDENT_SIZE ≤ res.ident.length)
    : ∃ pkt, sendRes res false = .ok pkt ∧ IsBlock res.chunkHash res.ident content pkt (off, n) := by
  obtain ⟨pkt, data, hsend, hcode, herror, hle, htake, hn', hargs⟩ :=
    sendRes_of_read hn hin hread hdata hhash hident
  refine ⟨pkt, hsend, hcode, herror, ?_, ?_, ?_, ?_, data, ?_, hle, htake⟩
  . rw [hargs]
  . rw [hargs]
  . rw [hargs]
    exact hoff
  . rw [hargs]
    exact hn'
  . rw [hargs]

theorem sendBlocks_of_read {res res' : ResArgs} {file file' : Option OpenFile} {pkt : BtidePacket}
    (hlt : res.bytesRead < res.dataLen.toNat)
    (hread : readFile res file = .ok (res', file'))
    (hsend : sendRes res' res'.data.isNone = .ok pkt)
    : sendBlocks res file
        =
      let rest := sendBlocks { res' with
        fileOffset :=
          if res'.data.isSome then res'.fileOffset + res'.currentRead.toUInt32
          else res'.fileOffset } file'
      (pkt :: rest.1, rest.2) := by
  rw [sendBlocks]
  simp only [hlt, ↓reduceDIte]
  split
  . next e h =>
    rw [hread] at h
    cases h
  . next resArgs' file'' h =>
    rw [hread, Except.ok.injEq, Prod.mk.injEq] at h
    rw [← h.1, ← h.2]
    simp only [hsend]

theorem sendBlocks_of_error {res : ResArgs} {file : Option OpenFile} {e : Fault}
    (hlt : res.bytesRead < res.dataLen.toNat) (hread : readFile res file = .error e)
    : sendBlocks res file = ([], some e) := by
  rw [sendBlocks]
  simp only [hlt, ↓reduceDIte]
  split
  . next e' h =>
    rw [hread, Except.error.injEq] at h
    rw [h]
  . next h =>
    rw [hread] at h
    cases h

theorem sendBlocks_of_unsent {res res' : ResArgs} {file file' : Option OpenFile} {e : Fault}
    (hlt : res.bytesRead < res.dataLen.toNat)
    (hread : readFile res file = .ok (res', file'))
    (hsend : sendRes res' res'.data.isNone = .error e)
    : sendBlocks res file = ([], some e) := by
  rw [sendBlocks]
  simp only [hlt, ↓reduceDIte]
  split
  . next e' h =>
    rw [hread] at h
    cases h
  . next resArgs' file'' h =>
    rw [hread, Except.ok.injEq, Prod.mk.injEq] at h
    rw [← h.1]
    simp only [hsend]

theorem sendBlocks_of_ge {res : ResArgs} {file : Option OpenFile}
    (hge : ¬ res.bytesRead < res.dataLen.toNat) : sendBlocks res file = ([], none) := by
  rw [sendBlocks]
  simp only [hge, ↓reduceDIte]

def errorPacket : BtidePacket where
  msgCode := PKT_MSG_RES
  error := 1
  pl := .zero

def afterBlock (res : ResArgs) (content : Bytes) (pos n : Nat) : ResArgs :=
  { afterRead res content pos n with
    fileOffset := res.fileOffset + (UInt16.ofNat n).toUInt32 }

/--
What one turn of the loop does if `m` bytes are left. The file is closed if it has too few of them, and
the loop goes on with it.
-/
inductive Turn (res : ResArgs) (content : Bytes) (pos m : Nat)
    : List BtidePacket × Option Fault → Prop where
  | done (hm : m = 0) : Turn res content pos m ([], none)
  | short (hpos : 0 < m) (hshort : content.length < pos + min m DATA_MAX_SIZE)
    : Turn res content pos m ([errorPacket], some .useAfterFree)
  | overflow (hpos : 0 < m) (hin : pos + min m DATA_MAX_SIZE ≤ content.length)
      (hmax : INT_MAX < res.bytesRead + min m DATA_MAX_SIZE)
    : Turn res content pos m ([], some .intOverflow)
  | block {pkt : BtidePacket} {rest : List BtidePacket × Option Fault} (hpos : 0 < m)
      (hin : pos + min m DATA_MAX_SIZE ≤ content.length)
      (hmax : res.bytesRead + min m DATA_MAX_SIZE ≤ INT_MAX)
      (hsend : sendRes (afterRead res content pos (min m DATA_MAX_SIZE)) false = .ok pkt)
      (hrest : sendBlocks (afterBlock res content pos (min m DATA_MAX_SIZE))
        (some ⟨content, pos + min m DATA_MAX_SIZE⟩) = rest)
    : Turn res content pos m (pkt :: rest.1, rest.2)

theorem sendBlocks_turn {res : ResArgs} {content : Bytes} {pos m : Nat}
    (hm : res.dataLen.toNat = res.bytesRead + m)
    (hhash : CHUNK_HASH_SIZE ≤ res.chunkHash.length) (hident : IDENT_SIZE ≤ res.ident.length)
    : Turn res content pos m (sendBlocks res (some ⟨content, pos⟩)) := by
  by_cases hpos : 0 < m
  . have hread : res.bytesRead < res.dataLen.toNat := by omega
    have hblock : blockLen res = min m DATA_MAX_SIZE := by
      unfold blockLen
      omega
    have heq := @readFile_eq res ⟨content, pos⟩ hread
    rw [hblock] at heq
    by_cases hshort : content.length < pos + min m DATA_MAX_SIZE
    . rw [if_pos hshort] at heq
      have hclosed (fileOffset : UInt32)
          : sendBlocks { res with data := none, fileOffset } none = ([], some .useAfterFree) :=
        sendBlocks_of_error hread rfl
      have hsend : sendRes { res with data := none } true = .ok errorPacket := rfl
      rw [sendBlocks_of_read hread heq hsend, hclosed]
      exact .short hpos hshort
    . rw [if_neg hshort] at heq
      have hin := Nat.le_of_not_lt hshort
      by_cases hmax : res.bytesRead + min m DATA_MAX_SIZE ≤ INT_MAX
      . rw [if_pos hmax] at heq
        obtain ⟨pkt, _, hsend, _⟩ :=
          @sendRes_of_read (afterRead res content pos (min m DATA_MAX_SIZE)) content pos _
            (Nat.min_le_right _ _) hin rfl rfl hhash hident
        rw [sendBlocks_of_read hread heq hsend]
        exact .block hpos hin hmax hsend rfl
      . rw [if_neg hmax] at heq
        rw [sendBlocks_of_error hread heq]
        exact .overflow hpos hin (Nat.lt_of_not_le hmax)
  . rw [sendBlocks_of_ge (by omega)]
    exact .done (by omega)

theorem sendBlocks_spec {res : ResArgs} {content : Bytes} {off m : Nat}
    (hoff : res.fileOffset.toNat = off) (hm : res.dataLen.toNat = res.bytesRead + m)
    (hin : off + m ≤ content.length) (hlt : off + m < 2 ^ 32)
    (hhash : CHUNK_HASH_SIZE ≤ res.chunkHash.length) (hident : IDENT_SIZE ≤ res.ident.length)
    : ∃ ranges,
        ranges <+: cut DATA_MAX_SIZE off m
          ∧ List.Forall₂ (IsBlock res.chunkHash res.ident content)
              (sendBlocks res (some ⟨content, off⟩)).1 ranges
          ∧ (res.dataLen.toNat ≤ INT_MAX →
              (sendBlocks res (some ⟨content, off⟩)).2 = none ∧ ranges = cut DATA_MAX_SIZE off m) := by
  induction m using Nat.strongRecOn generalizing res off with
  | ind m ih =>
    have hturn := @sendBlocks_turn res content off m hm hhash hident
    generalize hanswer : sendBlocks res (some ⟨content, off⟩) = answer at hturn
    cases hturn with
    | done hzero =>
      rw [hzero, cut_zero]
      exact ⟨[], List.nil_prefix, List.Forall₂.nil, fun _ => ⟨rfl, rfl⟩⟩
    | short hpos hshort => omega
    | overflow hpos hblock hmax =>
      refine ⟨[], List.nil_prefix, List.Forall₂.nil, ?_⟩
      intro hle
      omega
    | @block pkt rest hpos hblock hmax hsend hrest =>
      have hle : min m DATA_MAX_SIZE ≤ DATA_MAX_SIZE := Nat.min_le_right _ _
      have hless : m - min m DATA_MAX_SIZE < m := by
        unfold DATA_MAX_SIZE
        omega
      have hsame : (afterRead res content off (min m DATA_MAX_SIZE)).fileOffset.toNat = off := hoff
      obtain ⟨pkt', hsend', hpkt⟩ := sendRes_isBlock hsame hle hblock rfl rfl hhash hident
      rw [hsend, Except.ok.injEq] at hsend'
      rw [← hsend'] at hpkt
      -- the offset of the next block
      have hnext : (afterBlock res content off (min m DATA_MAX_SIZE)).fileOffset.toNat
          = off + min m DATA_MAX_SIZE := by
        unfold DATA_MAX_SIZE at *
        rw [afterBlock, UInt32.toNat_add, UInt16.toNat_toUInt32, UInt16.toNat_ofNat', hoff]
        omega
      obtain ⟨ranges, hinit, hblocks, hall⟩ := ih (m - min m DATA_MAX_SIZE) hless hnext
        (by simp only [afterBlock, afterRead]; omega) (by omega) (by omega) hhash hident
      rw [hrest] at hblocks hall
      rw [cut_of_pos (by decide) hpos]
      refine ⟨(off, min m DATA_MAX_SIZE) :: ranges, ?_, List.Forall₂.cons hpkt hblocks, ?_⟩
      . rw [List.cons_prefix_cons]
        exact ⟨rfl, hinit⟩
      . intro hlen
        obtain ⟨hfault, hranges⟩ := hall hlen
        rw [hranges]
        exact ⟨hfault, rfl⟩

end handlePeers

open handlePeers

theorem Manages.congr {packages : ManagedPackages} {mem mem' : Bytes} {slot : Nat} {bpkg : BpkgObj}
    (h : Manages packages (cstr mem) slot bpkg) (hmem : mem.take 20 = mem'.take 20)
    : Manages packages (cstr mem') slot bpkg where
  slot_eq := h.slot_eq
  ident_eq := by
    simp only [← strncmpEq_cstr_congr hmem]
    exact h.ident_eq
  first := by
    simp only [← strncmpEq_cstr_congr hmem]
    exact h.first

theorem overwrite_eq_splice {content ys : Bytes} {off : Nat} (hoff : off + ys.length ≤ content.length)
    : overwrite content off ys = splice content off ys := by
  unfold overwrite
  split
  . next hnil => simp [hnil, splice]
  . have hgap : off - content.length = 0 := by omega
    rw [hgap, List.replicate_zero, List.append_nil]

section Serve

variable {packages : ManagedPackages} {files : FileSystem} {slot : Nat} {bpkg : BpkgObj} {pkg : Package}

theorem openFile_found {res : ResArgs} {name data : Bytes}
    (hslot : packages[slot]? = some (some bpkg))
    (hfound : chunkInMemory packages (cstr res.ident) (cstr res.chunkHash) = .ok (.found slot))
    (hpkg : pkg.IsLoaded bpkg) (hname : stripWhitespace bpkg.filename = .ok (some name))
    (hfile : files name = some data) (hlen : data.length = pkg.length)
    : ∃ bpkg',
        pkg.IsLoaded bpkg'
          ∧ bpkg'.ident = bpkg.ident
          ∧ bpkg'.filename = some name
          ∧ getDataFromFile.openFile packages files res
              =
            .ok (
              if (pkg.digests data).contains (cstr res.chunkHash)
                  ∧ (pkg.pick (cstr res.chunkHash) (some res.fileOffset)).isSome then
                some ({ content := data, pos := res.fileOffset.toNat }, { res with data := some [] })
              else
                none,
              packages.set slot (some bpkg')) := by
  obtain ⟨bpkg', hcompute, hpkg', hhashed, hident, hfilename⟩ := hpkg.computeHashes hname hfile hlen
  obtain ⟨tree, chunks, htree, hchunks, _⟩ := hpkg'.sound
  have hcomputed := hhashed (cstr res.chunkHash) tree (chunks.map some) htree hchunks
  have hdata := hpkg'.calculateDataLen_eq (cstr res.chunkHash) (some res.fileOffset)
  refine ⟨bpkg', hpkg', hident, hfilename, ?_⟩
  unfold getDataFromFile.openFile
  simp only [hfound, List.getD_eq_getElem?_getD, hslot, Option.getD_some, deref_some, hcompute, hchunks,
    htree, PtrArray.ofList, hcomputed, bind, Except.bind]
  cases hcontains : (pkg.digests data).contains (cstr res.chunkHash) with
  | false => simp [pure, Except.pure]
  | true =>
    simp only [hdata, hfilename, ↓reduceIte]
    cases hpick : pkg.pick (cstr res.chunkHash) (some res.fileOffset) with
    | none => simp [pure, Except.pure]
    | some chunk => simp [hfile, pure, Except.pure, calculateDataLen.result]

theorem openFile_noHash {res : ResArgs}
    (h : chunkInMemory packages (cstr res.ident) (cstr res.chunkHash) = .ok .noHash)
    : getDataFromFile.openFile packages files res = .ok (none, packages) := by
  unfold getDataFromFile.openFile
  simp only [h, bind, Except.bind, pure, Except.pure]

theorem addDataToFile_found {res : ResArgs} {name content data : Bytes}
    (hslot : packages[slot]? = some (some bpkg))
    (hfound : chunkInMemory packages (cstr res.ident) (cstr res.chunkHash) = .ok (.found slot))
    (hpkg : pkg.IsLoaded bpkg) (hname : bpkg.filename = some name) (hfile : files name = some content)
    (hdata : res.data = some data) (hlen : res.dataRecieved.toNat ≤ data.length)
    : addDataToFile packages files res
        =
      .ok (
        match pkg.pick (cstr res.chunkHash) (some res.fileOffset) with
        | none => files
        | some chunk =>
          if res.dataRecieved.toNat ≤ (chunk.offset + chunk.size - res.fileOffset).toNat then
            files.write name
              (overwrite content res.fileOffset.toNat (data.take res.dataRecieved.toNat))
          else
            files) := by
  have hpick := hpkg.calculateDataLen_eq (cstr res.chunkHash) (some res.fileOffset)
  have hshort : ¬ data.length < res.dataRecieved.toNat := by omega
  unfold addDataToFile
  simp only [hfound, List.getD_eq_getElem?_getD, hslot, Option.getD_some, deref_some, hpick, bind,
    Except.bind]
  cases pkg.pick (cstr res.chunkHash) (some res.fileOffset) with
  | none => rfl
  | some chunk =>
    simp only [Option.map_some, calculateDataLen.result, true_and, hname, hfile, hdata, deref_some,
      hshort, ↓reduceIte]
    split
    . rfl
    . rfl

theorem addDataToFile_noHash {res : ResArgs}
    (h : chunkInMemory packages (cstr res.ident) (cstr res.chunkHash) = .ok .noHash)
    : addDataToFile packages files res = .ok files := by
  unfold addDataToFile
  simp only [h, bind, Except.bind, pure, Except.pure]

end Serve

end Btide
