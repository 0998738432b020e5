import Btide.Net.Packages

/-!
This module contains the packets that `src/peer.c` sends and what `handle_peers` does with a packet
that it received.
-/

open Bytes CLib

namespace Btide

def sendReq (reqArgs : ReqArgs) : Except Fault BtidePacket := do
  let pl ← BtidePayload.zero.store 0 (toLE 4 reqArgs.fileOffset.toNat)
  let pl ← pl.store 4 (toLE 4 reqArgs.dataLen.toNat)
  let chunkHash ← memcpy reqArgs.chunkHash CHUNK_HASH_SIZE
  let pl ← pl.store 8 chunkHash
  let ident ← memcpy reqArgs.ident IDENT_SIZE
  let pl ← pl.store 72 ident
  return { msgCode := PKT_MSG_REQ, error := 0, pl }

def sendRes (resArgs : ResArgs) (error : Bool) : Except Fault BtidePacket := do
  if error then
    return { msgCode := PKT_MSG_RES, error := 1, pl := .zero }
  else
    let pl ← BtidePayload.zero.store 0 (toLE 4 resArgs.fileOffset.toNat)
    let data ← deref resArgs.data
    let data ← memcpy data DATA_MAX_SIZE
    let pl ← pl.store 4 data
    -- four bytes are written, but the next field starts behind two of them
    let pl ← pl.store 3002 (toLE 4 resArgs.currentRead.toNat)
    let chunkHash ← memcpy resArgs.chunkHash CHUNK_HASH_SIZE
    let pl ← pl.store 3004 chunkHash
    let ident ← memcpy resArgs.ident IDENT_SIZE
    let pl ← pl.store 3068 ident
    return { msgCode := PKT_MSG_RES, error := 0, pl }

namespace handlePeers

theorem readFile_decreases {resArgs resArgs' : ResArgs} {file file' : Option OpenFile}
    (h : getDataFromFile.readFile resArgs file = .ok (resArgs', file'))
    (hlt : resArgs.bytesRead < resArgs.dataLen.toNat)
    : resArgs'.dataLen = resArgs.dataLen
        ∧ (resArgs.bytesRead < resArgs'.bytesRead
            ∨ (resArgs'.bytesRead = resArgs.bytesRead ∧ file.isSome = true ∧ file' = none)) := by
  cases file with
  | none => simp [getDataFromFile.readFile, throw_eq_ok] at h
  | some file =>
    rw [getDataFromFile.readFile_eq hlt] at h
    split at h
    . simp only [Except.ok.injEq, Prod.mk.injEq] at h
      rw [← h.1, ← h.2]
      exact ⟨rfl, .inr ⟨rfl, rfl, rfl⟩⟩
    . split at h
      . simp only [Except.ok.injEq, Prod.mk.injEq] at h
        rw [← h.1]
        refine ⟨rfl, .inl ?_⟩
        exact Nat.lt_add_of_pos_right (getDataFromFile.blockLen_pos hlt)
      . simp at h

def sendBlocks (resArgs : ResArgs) (file : Option OpenFile) : List BtidePacket × Option Fault :=
  if _hlt : resArgs.bytesRead < resArgs.dataLen.toNat then
    match _h : getDataFromFile.readFile resArgs file with
    | .error e => ([], some e)
    | .ok (resArgs', file') =>
      match sendRes resArgs' resArgs'.data.isNone with
      | .error e => ([], some e)
      | .ok pkt =>
        let fileOffset :=
          if resArgs'.data.isSome then
            resArgs'.fileOffset + resArgs'.currentRead.toUInt32
          else
            resArgs'.fileOffset
        let (sent, fault) := sendBlocks { resArgs' with fileOffset } file'
        (pkt :: sent, fault)
  else
    ([], none)
termination_by (resArgs.dataLen.toNat - resArgs.bytesRead, file.isSome.toNat)
decreasing_by
  obtain ⟨hlen, hread | ⟨hread, hopen, hclosed⟩⟩ := readFile_decreases _h _hlt
  . apply Prod.Lex.left
    rw [hlen]
    omega
  . rw [hlen, hread, hopen, hclosed]
    apply Prod.Lex.right
    decide

structure Answer where
  sent : List BtidePacket
  fault : Option Fault
  packages : ManagedPackages

/--
The arguments in the payload of a REQ. The byte behind the hash, which is never assigned, is taken to
be zero.
-/
def reqArgs (pkt : BtidePacket) : ResArgs where
  dataLen := UInt32.ofNat (pkt.pl.load 4 4)
  dataRecieved := 0
  ident := pkt.pl.val.drop 72
  chunkHash := slice pkt.pl.val 8 CHUNK_HASH_SIZE ++ [0]
  fileOffset := UInt32.ofNat (pkt.pl.load 0 4)
  data := none
  bytesRead := 0
  currentRead := 0

def handleReq (packages : ManagedPackages) (files : FileSystem) (pkt : BtidePacket) : Answer :=
  match getDataFromFile.openFile packages files (reqArgs pkt) with
  | .error e => { sent := [], fault := some e, packages }
  | .ok (some (file, resArgs), packages) =>
    let (sent, fault) := sendBlocks resArgs (some file)
    { sent, fault, packages }
  | .ok (none, packages) =>
    match sendRes (reqArgs pkt) true with
    | .error e => { sent := [], fault := some e, packages }
    | .ok pkt => { sent := [pkt], fault := none, packages }

/--
The arguments in the payload of a RES. `resLoads` has what the branch loads of the payload.
-/
def resArgs (pkt : BtidePacket) : ResArgs where
  dataLen := 0
  dataRecieved := UInt16.ofNat (pkt.pl.load 3002 2)
  ident := pkt.pl.val.drop 3068
  chunkHash := slice pkt.pl.val 3004 CHUNK_HASH_SIZE ++ [0]
  fileOffset := UInt32.ofNat (pkt.pl.load 0 4)
  data := some (slice pkt.pl.val 4 DATA_MAX_SIZE)
  bytesRead := 0
  currentRead := 0

/--
What `printf` loads of a string in memory, which is all that is loaded of it: the characters and the NUL
behind them.
-/
def stringLoad (mem : Bytes) (pos : Nat) : Nat × Nat :=
  (pos, (cstr (mem.drop pos)).length + 1)

/--
The loads of the branch for a REQ, each with its offset in the payload and its length. The identifier is
printed, and copied by `send_res`.
-/
def reqLoads (pkt : BtidePacket) : List (Nat × Nat) :=
  [(0, 4), (4, 4), (8, CHUNK_HASH_SIZE), stringLoad pkt.pl.val 72, (72, IDENT_SIZE)]

/--
The loads of the branch for a RES, whose last field is printed as a string.
-/
def resLoads (pkt : BtidePacket) : List (Nat × Nat) :=
  [(0, 4), (4, DATA_MAX_SIZE), (3002, 2), (3004, CHUNK_HASH_SIZE), stringLoad pkt.pl.val 3068]

def InPayload (loads : List (Nat × Nat)) : Prop :=
  ∀ load ∈ loads, load.1 + load.2 ≤ PAYLOAD_MAX

def handleRes (packages : ManagedPackages) (files : FileSystem) (pkt : BtidePacket)
    : Except Fault FileSystem :=
  if pkt.error = 0 then
    addDataToFile packages files (resArgs pkt)
  else
    .ok files

end handlePeers
end Btide
