import Btide.Lib.CString

/-!
This module contains the packets of `include/net/packet.h` and their layout in memory, which is what
`send` and `recv` transfer.
-/

open Bytes CLib

namespace Btide

def PAYLOAD_MAX : Nat := 4092
def MAX_PACKET_SIZE : Nat := 4096
def CHUNK_HASH_SIZE : Nat := 64
def IDENT_SIZE : Nat := 1024
def DATA_MAX_SIZE : Nat := 2998

def PKT_MSG_ACK : UInt16 := 0x0c
def PKT_MSG_ACP : UInt16 := 0x02
def PKT_MSG_DSN : UInt16 := 0x03
def PKT_MSG_REQ : UInt16 := 0x06
def PKT_MSG_RES : UInt16 := 0x07
def PKT_MSG_PNG : UInt16 := 0xFF
def PKT_MSG_POG : UInt16 := 0x00

def BtidePayload := { data : Bytes // data.length = PAYLOAD_MAX }
  deriving DecidableEq, Repr

namespace BtidePayload

def zero : BtidePayload :=
  ⟨List.replicate PAYLOAD_MAX 0, List.length_replicate⟩

def store (pl : BtidePayload) (off : Nat) (ys : Bytes) : Except Fault BtidePayload :=
  if h : off + ys.length ≤ PAYLOAD_MAX then
    .ok ⟨splice pl.val off ys, by rw [length_splice (by rw [pl.property]; exact h), pl.property]⟩
  else
    .error .outOfBounds

def load (pl : BtidePayload) (off k : Nat) : Nat :=
  ofLE (slice pl.val off k)

theorem length_slice_val {pl : BtidePayload} {off len : Nat} (h : off + len ≤ PAYLOAD_MAX)
    : (slice pl.val off len).length = len := by
  apply length_slice_of_le
  rw [pl.property]
  exact h

theorem store_ok {pl : BtidePayload} {off : Nat} {ys : Bytes} (h : off + ys.length ≤ PAYLOAD_MAX)
    : ∃ pl' : BtidePayload, pl.store off ys = .ok pl' ∧ pl'.val = splice pl.val off ys := by
  unfold store
  simp only [h, ↓reduceDIte]
  exact ⟨_, rfl, rfl⟩

end BtidePayload

structure BtidePacket where
  msgCode : UInt16
  error : UInt16
  pl : BtidePayload
  deriving DecidableEq, Repr

namespace BtidePacket

/--
The bytes of a packet in memory, on a machine with the least significant byte first.
-/
def bytes (pkt : BtidePacket) : Bytes :=
  toLE 2 pkt.msgCode.toNat ++ toLE 2 pkt.error.toNat ++ pkt.pl.val

def ofBuffer (buffer : { buffer : Bytes // buffer.length = MAX_PACKET_SIZE }) : BtidePacket where
  msgCode := UInt16.ofNat (ofLE (slice buffer.val 0 2))
  error := UInt16.ofNat (ofLE (slice buffer.val 2 2))
  pl := ⟨buffer.val.drop 4, by rw [List.length_drop, buffer.property]; rfl⟩

theorem length_bytes (pkt : BtidePacket) : pkt.bytes.length = MAX_PACKET_SIZE := by
  simp [bytes, pkt.pl.property, PAYLOAD_MAX, MAX_PACKET_SIZE]

theorem ofLE_toLE_uint16 (n : UInt16) : UInt16.ofNat (ofLE (toLE 2 n.toNat)) = n := by
  rw [ofLE_toLE n.toNat_lt, UInt16.ofNat_toNat]

theorem ofBuffer_bytes (pkt : BtidePacket) : ofBuffer ⟨pkt.bytes, pkt.length_bytes⟩ = pkt := by
  have hcode : slice pkt.bytes 0 2 = toLE 2 pkt.msgCode.toNat := by
    have := length_toLE 2 pkt.msgCode.toNat
    simp [slice, bytes, this]
  have herror : slice pkt.bytes 2 2 = toLE 2 pkt.error.toNat := by
    have hmsg := length_toLE 2 pkt.msgCode.toNat
    have := length_toLE 2 pkt.error.toNat
    simp [slice, bytes, hmsg, this]
  have hpl : pkt.bytes.drop 4 = pkt.pl.val := by
    apply List.drop_left'
    simp
  unfold ofBuffer
  simp only [hcode, herror, hpl, ofLE_toLE_uint16]
  rfl

theorem toLE_ofLE_uint16 {xs : Bytes} (h : xs.length = 2)
    : toLE 2 (UInt16.ofNat (ofLE xs)).toNat = xs := by
  have hlt := ofLE_lt xs
  have hmod : (UInt16.ofNat (ofLE xs)).toNat = ofLE xs := by
    rw [h] at hlt
    rw [UInt16.toNat_ofNat']
    omega
  rw [hmod, ← h, toLE_ofLE]

theorem bytes_ofBuffer (buffer : { buffer : Bytes // buffer.length = MAX_PACKET_SIZE })
    : (ofBuffer buffer).bytes = buffer.val := by
  have hlength := buffer.property
  unfold MAX_PACKET_SIZE at hlength
  have hcode : (slice buffer.val 0 2).length = 2 := length_slice_of_le (by omega)
  have herror : (slice buffer.val 2 2).length = 2 := length_slice_of_le (by omega)
  have hrest : slice buffer.val 2 2 ++ buffer.val.drop 4 = buffer.val.drop 2 := by
    rw [slice, ← List.drop_drop (i := 2) (j := 2), List.take_append_drop]
  unfold bytes ofBuffer
  simp only [toLE_ofLE_uint16 hcode, toLE_ofLE_uint16 herror]
  rw [List.append_assoc, hrest, slice, List.drop_zero, List.take_append_drop]

theorem ofBuffer_eq_iff {buffer : { buffer : Bytes // buffer.length = MAX_PACKET_SIZE }}
    {pkt : BtidePacket} : ofBuffer buffer = pkt ↔ buffer.val = pkt.bytes := by
  constructor
  . intro h
    rw [← h, bytes_ofBuffer]
  . intro h
    rw [← ofBuffer_bytes pkt]
    congr 1
    exact Subtype.ext h

end BtidePacket

end Btide
