import Btide.Net.HandlePeers

/-!
This module contains the layout of the payloads of REQ and RES packets: the receiver decodes what the
sender encoded.
-/

open Bytes CLib

namespace Btide

theorem memcpy_of_le {mem : Bytes} {n : Nat} (h : n ≤ mem.length) : memcpy mem n = .ok (mem.take n) := by
  simp only [memcpy, h, ↓reduceIte]

theorem ofLE_toLE_uint32 (n : UInt32) : UInt32.ofNat (ofLE (toLE 4 n.toNat)) = n := by
  rw [ofLE_toLE n.toNat_lt, UInt32.ofNat_toNat]

namespace BtidePayload

theorem store_append {pl : BtidePayload} {front rest ys : Bytes} {off : Nat}
    (hval : pl.val = front ++ rest) (hoff : front.length = off) (hfit : ys.length ≤ rest.length)
    : ∃ pl' : BtidePayload,
        pl.store off ys = .ok pl' ∧ pl'.val = front ++ ys ++ rest.drop ys.length := by
  have hlength := pl.property
  rw [hval, List.length_append] at hlength
  obtain ⟨pl', hstore, hval'⟩ := @store_ok pl off ys (by omega)
  refine ⟨pl', hstore, ?_⟩
  rw [hval', hval, ← hoff, splice_append]

theorem store_zeros {pl : BtidePayload} {front ys : Bytes} {off n m : Nat}
    (hval : pl.val = front ++ List.replicate m 0) (hoff : front.length = off) (hys : ys.length = n)
    (hfit : n ≤ m)
    : ∃ pl' : BtidePayload,
        pl.store off ys = .ok pl' ∧ pl'.val = front ++ ys ++ List.replicate (m - n) 0 := by
  have hle : ys.length ≤ (List.replicate m (0 : UInt8)).length := by
    rw [List.length_replicate, hys]
    exact hfit
  obtain ⟨pl', hstore, hval'⟩ := store_append hval hoff hle
  rw [List.drop_replicate, hys] at hval'
  exact ⟨pl', hstore, hval'⟩

end BtidePayload

theorem sendReq_payload {req : ReqArgs} (hhash : CHUNK_HASH_SIZE ≤ req.chunkHash.length)
    (hident : IDENT_SIZE ≤ req.ident.length)
    : ∃ pl : BtidePayload,
        sendReq req = .ok { msgCode := PKT_MSG_REQ, error := 0, pl }
          ∧ pl.val
              =
            toLE 4 req.fileOffset.toNat
              ++ (toLE 4 req.dataLen.toNat
                ++ (req.chunkHash.take CHUNK_HASH_SIZE
                  ++ (req.ident.take IDENT_SIZE ++ List.replicate 2996 0))) := by
  have hhash' : (req.chunkHash.take CHUNK_HASH_SIZE).length = 64 := by
    rw [List.length_take]
    unfold CHUNK_HASH_SIZE at *
    omega
  have hident' : (req.ident.take IDENT_SIZE).length = 1024 := by
    rw [List.length_take]
    unfold IDENT_SIZE at *
    omega
  have hzero : BtidePayload.zero.val = [] ++ List.replicate 4092 0 := rfl
  obtain ⟨pl₀, hstore₀, hval⟩ :=
    BtidePayload.store_zeros hzero (@rfl _ 0) (length_toLE 4 req.fileOffset.toNat) (by decide)
  obtain ⟨pl₁, hstore₁, hval⟩ :=
    BtidePayload.store_zeros hval (show _ = 4 by simp) (length_toLE 4 req.dataLen.toNat) (by decide)
  obtain ⟨pl₂, hstore₂, hval⟩ :=
    BtidePayload.store_zeros hval (show _ = 8 by simp) hhash' (by decide)
  obtain ⟨pl₃, hstore₃, hval⟩ :=
    BtidePayload.store_zeros hval (show _ = 72 by simp [hhash']) hident' (by decide)
  refine ⟨pl₃, ?_, ?_⟩
  . unfold sendReq
    simp only [hstore₀, hstore₁, memcpy_of_le hhash, hstore₂, memcpy_of_le hident, hstore₃, bind,
      Except.bind, pure, Except.pure]
  . simp only [hval, List.nil_append, List.append_assoc, Nat.reduceSub]

theorem sendRes_payload {res : ResArgs} {data : Bytes} (hdata : res.data = some data)
    (hlen : data.length = DATA_MAX_SIZE) (hhash : CHUNK_HASH_SIZE ≤ res.chunkHash.length)
    (hident : IDENT_SIZE ≤ res.ident.length)
    : ∃ pl : BtidePayload,
        sendRes res false = .ok { msgCode := PKT_MSG_RES, error := 0, pl }
          ∧ pl.val
              =
            toLE 4 res.fileOffset.toNat
              ++ (data
                ++ (toLE 2 res.currentRead.toNat
                  ++ (res.chunkHash.take CHUNK_HASH_SIZE ++ res.ident.take IDENT_SIZE))) := by
  have hhash' : (res.chunkHash.take CHUNK_HASH_SIZE).length = 64 := by
    rw [List.length_take]
    unfold CHUNK_HASH_SIZE at *
    omega
  have hident' : (res.ident.take IDENT_SIZE).length = 1024 := by
    rw [List.length_take]
    unfold IDENT_SIZE at *
    omega
  have hdata' : (data.take DATA_MAX_SIZE).length = 2998 := by
    rw [List.length_take, hlen]
    rfl
  have hall : data.take DATA_MAX_SIZE = data := List.take_of_length_le (Nat.le_of_eq hlen)
  have hzero : BtidePayload.zero.val = [] ++ List.replicate 4092 0 := rfl
  obtain ⟨pl₀, hstore₀, hval⟩ :=
    BtidePayload.store_zeros hzero (@rfl _ 0) (length_toLE 4 res.fileOffset.toNat) (by decide)
  obtain ⟨pl₁, hstore₁, hval⟩ :=
    BtidePayload.store_zeros hval (show _ = 4 by simp) hdata' (by decide)
  obtain ⟨pl₂, hstore₂, hval⟩ :=
    BtidePayload.store_zeros hval (show _ = 3002 by simp [hdata'])
      (length_toLE 4 res.currentRead.toNat) (by decide)
  -- the hash starts on the upper half of the four bytes in front of it
  have hhalf : toLE 4 res.currentRead.toNat
      = toLE 2 res.currentRead.toNat ++ toLE 2 (res.currentRead.toNat / 256 / 256) := rfl
  rw [hhalf, ← List.append_assoc _ (toLE 2 _), List.append_assoc _ (toLE 2 _)] at hval
  obtain ⟨pl₃, hstore₃, hval⟩ :=
    BtidePayload.store_append hval (show _ = 3004 by simp [hdata'])
      (show (res.chunkHash.take CHUNK_HASH_SIZE).length ≤ _ by
        rw [hhash', List.length_append, length_toLE, List.length_replicate]
        decide)
  rw [hhash', List.drop_append, length_toLE, List.drop_replicate,
    List.drop_of_length_le (by rw [length_toLE]; decide), List.nil_append] at hval
  obtain ⟨pl₄, hstore₄, hval⟩ :=
    BtidePayload.store_zeros hval (show _ = 3068 by simp [hdata', hhash']) hident' (by decide)
  refine ⟨pl₄, ?_, ?_⟩
  . unfold sendRes
    simp only [hstore₀, hdata, deref_some, memcpy_of_le (Nat.le_of_eq hlen.symm), hstore₁, hstore₂,
      memcpy_of_le hhash, hstore₃, memcpy_of_le hident, hstore₄, bind, Except.bind, pure,
      Except.pure, Bool.false_eq_true, ↓reduceIte]
  . simp only [hval, hall, List.append_assoc, Nat.reduceSub, List.replicate_zero, List.append_nil]

namespace handlePeers

theorem length_reqArgs_chunkHash (pkt : BtidePacket) : CHUNK_HASH_SIZE ≤ (reqArgs pkt).chunkHash.length := by
  have hpl : pkt.pl.val.length = 4092 := pkt.pl.property
  simp only [reqArgs, List.length_append, length_slice, hpl]
  decide

theorem length_reqArgs_ident (pkt : BtidePacket) : IDENT_SIZE ≤ (reqArgs pkt).ident.length := by
  have hpl : pkt.pl.val.length = 4092 := pkt.pl.property
  simp only [reqArgs, List.length_drop, hpl]
  decide

theorem reqArgs_of_sendReq {req : ReqArgs} (hhash : CHUNK_HASH_SIZE ≤ req.chunkHash.length)
    (hident : IDENT_SIZE ≤ req.ident.length)
    : ∃ pkt,
        sendReq req = .ok pkt
          ∧ pkt.msgCode = PKT_MSG_REQ
          ∧ reqArgs pkt
              =
            { dataLen := req.dataLen
              dataRecieved := 0
              ident := req.ident.take IDENT_SIZE ++ List.replicate 2996 0
              chunkHash := req.chunkHash.take CHUNK_HASH_SIZE ++ [0]
              fileOffset := req.fileOffset
              data := none
              bytesRead := 0
              currentRead := 0 } := by
  obtain ⟨pl, hsend, hval⟩ := sendReq_payload hhash hident
  have hhash' : (req.chunkHash.take CHUNK_HASH_SIZE).length = CHUNK_HASH_SIZE := by
    rw [List.length_take]
    omega
  have hoff : (toLE 4 req.fileOffset.toNat).length = 4 := length_toLE _ _
  have hlen : (toLE 4 req.dataLen.toNat).length = 4 := length_toLE _ _
  have hfront : (toLE 4 req.fileOffset.toNat ++ toLE 4 req.dataLen.toNat
      ++ req.chunkHash.take CHUNK_HASH_SIZE).length = 72 := by
    rw [List.length_append, List.length_append, hoff, hlen, hhash']
    rfl
  have hdrop : pl.val.drop 72 = req.ident.take IDENT_SIZE ++ List.replicate 2996 0 := by
    rw [hval, ← List.append_assoc, ← List.append_assoc, List.drop_left' hfront]
  have hhash'' : slice pl.val 8 CHUNK_HASH_SIZE = req.chunkHash.take CHUNK_HASH_SIZE := by
    rw [hval, slice_append_of_ge hoff (by decide), slice_append_of_ge hlen (by decide), Nat.sub_self,
      slice_zero_append hhash']
  have hoff' : slice pl.val 0 4 = toLE 4 req.fileOffset.toNat := by
    rw [hval, slice_zero_append hoff]
  have hlen' : slice pl.val 4 4 = toLE 4 req.dataLen.toNat := by
    rw [hval, slice_append_of_ge hoff (by decide), Nat.sub_self, slice_zero_append hlen]
  refine ⟨_, hsend, rfl, ?_⟩
  unfold reqArgs BtidePayload.load
  simp only [hdrop, hhash'', hoff', hlen', ofLE_toLE_uint32]

theorem resArgs_of_sendRes {res : ResArgs} {data : Bytes} (hdata : res.data = some data)
    (hlen : data.length = DATA_MAX_SIZE) (hhash : CHUNK_HASH_SIZE ≤ res.chunkHash.length)
    (hident : IDENT_SIZE ≤ res.ident.length)
    : ∃ pkt,
        sendRes res false = .ok pkt
          ∧ pkt.msgCode = PKT_MSG_RES
          ∧ pkt.error = 0
          ∧ resArgs pkt
              =
            { dataLen := 0
              dataRecieved := res.currentRead
              ident := res.ident.take IDENT_SIZE
              chunkHash := res.chunkHash.take CHUNK_HASH_SIZE ++ [0]
              fileOffset := res.fileOffset
              data := some data
              bytesRead := 0
              currentRead := 0 } := by
  obtain ⟨pl, hsend, hval⟩ := sendRes_payload hdata hlen hhash hident
  have hhash' : (res.chunkHash.take CHUNK_HASH_SIZE).length = CHUNK_HASH_SIZE := by
    rw [List.length_take]
    omega
  have hoff : (toLE 4 res.fileOffset.toNat).length = 4 := length_toLE _ _
  have hread : (toLE 2 res.currentRead.toNat).length = 2 := length_toLE _ _
  have hfront : (toLE 4 res.fileOffset.toNat ++ data ++ toLE 2 res.currentRead.toNat
      ++ res.chunkHash.take CHUNK_HASH_SIZE).length = 3068 := by
    rw [List.length_append, List.length_append, List.length_append, hoff, hlen, hread, hhash']
    rfl
  have hdrop : pl.val.drop 3068 = res.ident.take IDENT_SIZE := by
    rw [hval, ← List.append_assoc, ← List.append_assoc, ← List.append_assoc, List.drop_left' hfront]
  have hhash'' : slice pl.val 3004 CHUNK_HASH_SIZE = res.chunkHash.take CHUNK_HASH_SIZE := by
    have hskip : 3004 - 4 - DATA_MAX_SIZE - 2 = 0 := rfl
    rw [hval, slice_append_of_ge hoff (by decide), slice_append_of_ge hlen (by decide),
      slice_append_of_ge hread (by decide), hskip, slice_zero_append hhash']
  have hread' : slice pl.val 3002 2 = toLE 2 res.currentRead.toNat := by
    have hskip : 3002 - 4 - DATA_MAX_SIZE = 0 := rfl
    rw [hval, slice_append_of_ge hoff (by decide), slice_append_of_ge hlen (by decide), hskip,
      slice_zero_append hread]
  have hdata' : slice pl.val 4 DATA_MAX_SIZE = data := by
    rw [hval, slice_append_of_ge hoff (by decide), Nat.sub_self, slice_zero_append hlen]
  have hoff' : slice pl.val 0 4 = toLE 4 res.fileOffset.toNat := by
    rw [hval, slice_zero_append hoff]
  refine ⟨_, hsend, rfl, rfl, ?_⟩
  unfold resArgs BtidePayload.load
  simp only [hdrop, hhash'', hread', hdata', hoff', ofLE_toLE_uint32, BtidePacket.ofLE_toLE_uint16]

theorem stringLoad_le_iff {pl : BtidePayload} {pos : Nat} (hpos : pos ≤ PAYLOAD_MAX)
    : (stringLoad pl.val pos).1 + (stringLoad pl.val pos).2 ≤ PAYLOAD_MAX ↔ 0 ∈ pl.val.drop pos := by
  rw [← length_cstr_lt_iff, List.length_drop, pl.property]
  unfold stringLoad
  omega

theorem inPayload_reqLoads_iff {pkt : BtidePacket}
    : InPayload (reqLoads pkt) ↔ 0 ∈ (reqArgs pkt).ident := by
  have hstring := @stringLoad_le_iff pkt.pl 72 (by decide)
  unfold InPayload reqLoads reqArgs
  simp only [List.mem_cons, List.not_mem_nil, or_false, forall_eq_or_imp, forall_eq, hstring]
  have hfixed
      : 0 + 4 ≤ PAYLOAD_MAX ∧ 4 + 4 ≤ PAYLOAD_MAX ∧ 8 + CHUNK_HASH_SIZE ≤ PAYLOAD_MAX
          ∧ 72 + IDENT_SIZE ≤ PAYLOAD_MAX := by
    decide
  tauto

theorem inPayload_resLoads_iff {pkt : BtidePacket}
    : InPayload (resLoads pkt) ↔ 0 ∈ (resArgs pkt).ident := by
  have hstring := @stringLoad_le_iff pkt.pl 3068 (by decide)
  unfold InPayload resLoads resArgs
  simp only [List.mem_cons, List.not_mem_nil, or_false, forall_eq_or_imp, forall_eq, hstring]
  have hfixed
      : 0 + 4 ≤ PAYLOAD_MAX ∧ 4 + DATA_MAX_SIZE ≤ PAYLOAD_MAX ∧ 3002 + 2 ≤ PAYLOAD_MAX
          ∧ 3004 + CHUNK_HASH_SIZE ≤ PAYLOAD_MAX := by
    decide
  tauto

end handlePeers

open handlePeers

/--
Both handlers decode what the other side encoded, from the bytes of the packet on the wire. The block of
the identifier is the last field of a RES and is printed as a string.
-/
theorem payloads_decode_iff {req : ReqArgs} {res : ResArgs} {data : Bytes}
    (hreqHash : CHUNK_HASH_SIZE ≤ req.chunkHash.length) (hreqIdent : IDENT_SIZE ≤ req.ident.length)
    (hdata : res.data = some data) (hlen : data.length = DATA_MAX_SIZE)
    (hresHash : CHUNK_HASH_SIZE ≤ res.chunkHash.length) (hresIdent : IDENT_SIZE ≤ res.ident.length)
    : (∃ pkt,
        sendReq req = .ok pkt
          ∧ let got := BtidePacket.ofBuffer ⟨pkt.bytes, pkt.length_bytes⟩
            got.msgCode = PKT_MSG_REQ
              ∧ (reqArgs got).fileOffset = req.fileOffset
              ∧ (reqArgs got).dataLen = req.dataLen
              ∧ (reqArgs got).chunkHash.take CHUNK_HASH_SIZE = req.chunkHash.take CHUNK_HASH_SIZE
              ∧ (reqArgs got).ident.take IDENT_SIZE = req.ident.take IDENT_SIZE
              ∧ InPayload (reqLoads got))
        ∧ ∃ pkt,
            sendRes res false = .ok pkt
              ∧ let got := BtidePacket.ofBuffer ⟨pkt.bytes, pkt.length_bytes⟩
                got.msgCode = PKT_MSG_RES
                  ∧ got.error = 0
                  ∧ (resArgs got).fileOffset = res.fileOffset
                  ∧ (resArgs got).data = some data
                  ∧ (resArgs got).dataRecieved = res.currentRead
                  ∧ (resArgs got).chunkHash.take CHUNK_HASH_SIZE
                      =
                    res.chunkHash.take CHUNK_HASH_SIZE
                  ∧ (resArgs got).ident.take IDENT_SIZE = res.ident.take IDENT_SIZE
                  ∧ (InPayload (resLoads got) ↔ 0 ∈ res.ident.take IDENT_SIZE) := by
  constructor
  . obtain ⟨pkt, hsend, hcode, hargs⟩ := reqArgs_of_sendReq hreqHash hreqIdent
    have hident : (req.ident.take IDENT_SIZE).length = IDENT_SIZE := by
      rw [List.length_take]
      omega
    have hhash : (req.chunkHash.take CHUNK_HASH_SIZE).length = CHUNK_HASH_SIZE := by
      rw [List.length_take]
      omega
    refine ⟨pkt, hsend, ?_⟩
    dsimp only
    rw [BtidePacket.ofBuffer_bytes, inPayload_reqLoads_iff, hargs]
    refine ⟨hcode, rfl, rfl, List.take_left' hhash, List.take_left' hident, ?_⟩
    -- the rest of the payload is zero
    apply List.mem_append_right
    rw [List.mem_replicate]
    exact ⟨by decide, rfl⟩
  . obtain ⟨pkt, hsend, hcode, herror, hargs⟩ := resArgs_of_sendRes hdata hlen hresHash hresIdent
    have hhash : (res.chunkHash.take CHUNK_HASH_SIZE).length = CHUNK_HASH_SIZE := by
      rw [List.length_take]
      omega
    refine ⟨pkt, hsend, ?_⟩
    dsimp only
    rw [BtidePacket.ofBuffer_bytes, inPayload_resLoads_iff, hargs]
    refine ⟨hcode, herror, rfl, rfl, rfl, List.take_left' hhash, ?_, Iff.rfl⟩
    rw [List.take_take, Nat.min_self]

theorem payloads_decode_iff_ones
    : ∃ pkt,
        sendRes ⟨0, 0, List.replicate 1023 1 ++ [0], List.replicate 64 2, 3,
            some (List.replicate 2998 4), 0, 65535⟩ false
          =
        .ok pkt
          ∧ (resArgs pkt).dataRecieved = 65535
          ∧ (resArgs pkt).chunkHash.take CHUNK_HASH_SIZE = List.replicate 64 2
          ∧ InPayload (resLoads pkt) := by
  have hident : (List.replicate 1023 (1 : UInt8) ++ [0]).length = IDENT_SIZE := by
    rw [List.length_append, List.length_replicate]
    rfl
  obtain ⟨-, pkt, hsend, hgot⟩ := @payloads_decode_iff
    ⟨0, List.replicate 1024 1, List.replicate 64 2, 3⟩
    ⟨0, 0, List.replicate 1023 1 ++ [0], List.replicate 64 2, 3, some (List.replicate 2998 4), 0, 65535⟩
    (List.replicate 2998 4) (Nat.le_of_eq List.length_replicate.symm)
    (Nat.le_of_eq List.length_replicate.symm) rfl List.length_replicate
    (Nat.le_of_eq List.length_replicate.symm) (Nat.le_of_eq hident.symm)
  dsimp only at hgot
  rw [BtidePacket.ofBuffer_bytes] at hgot
  obtain ⟨-, -, -, -, hread, hhash, -, hloads⟩ := hgot
  refine ⟨pkt, hsend, hread, ?_, ?_⟩
  . rw [hhash, CHUNK_HASH_SIZE, List.take_replicate, Nat.min_self]
  . rw [hloads, List.take_of_length_le (Nat.le_of_eq hident)]
    exact List.mem_append_right _ (List.mem_singleton_self 0)

theorem payloads_decode_fails
    : ¬ ∀ (res : ResArgs) (data : Bytes),
          res.data = some data → data.length = DATA_MAX_SIZE → res.chunkHash.length = CHUNK_HASH_SIZE
            → res.ident.length = IDENT_SIZE
            → ∃ pkt, sendRes res false = .ok pkt ∧ InPayload (resLoads pkt) := by
  intro h
  have hresult := h
    ⟨0, 0, List.replicate 1024 1, List.replicate 64 2, 3, some (List.replicate 2998 4), 0, 65535⟩
    (List.replicate 2998 4) rfl List.length_replicate List.length_replicate List.length_replicate
  obtain ⟨pkt, hsend, hloads⟩ := hresult
  obtain ⟨pkt', hsend', -, -, hargs⟩ := @resArgs_of_sendRes
    ⟨0, 0, List.replicate 1024 1, List.replicate 64 2, 3, some (List.replicate 2998 4), 0, 65535⟩
    (List.replicate 2998 4) rfl List.length_replicate (Nat.le_of_eq List.length_replicate.symm)
    (Nat.le_of_eq List.length_replicate.symm)
  rw [hsend, Except.ok.injEq] at hsend'
  rw [inPayload_resLoads_iff, hsend', hargs] at hloads
  have hzero := List.eq_of_mem_replicate (List.mem_of_mem_take hloads)
  exact absurd hzero (by decide)

end Btide
