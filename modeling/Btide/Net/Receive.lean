import Btide.Net.Packet

/-!
This module contains the receive loop of `handle_peers` and the conditions under which it takes the
packets out of the byte stream of a connection as they were sent.
-/

open Bytes CLib

namespace Btide
namespace handlePeers

/--
`struct btide_packet buffer = {0}` after a `recv` that returned the bytes `seg`.
-/
def recvBuffer (seg : Bytes) : { buffer : Bytes // buffer.length = MAX_PACKET_SIZE } :=
  ⟨(seg ++ List.replicate MAX_PACKET_SIZE 0).take MAX_PACKET_SIZE, by simp⟩

def dispatched : List Bytes → List BtidePacket
  | [] => []
  | seg :: segs =>
    let buffer := BtidePacket.ofBuffer (recvBuffer seg)
    if buffer.msgCode = PKT_MSG_DSN then
      -- the thread exits
      [buffer]
    else
      buffer :: dispatched segs

structure Cuts (segs : List Bytes) (stream : Bytes) : Prop where
  flatten : segs.flatten = stream
  ne_nil : ∀ seg ∈ segs, seg ≠ []
  length_le : ∀ seg ∈ segs, seg.length ≤ MAX_PACKET_SIZE

/--
Every packet arrives with one `recv` of its own, and no packet follows a DSN. Of a DSN only the part
up to its last byte that is not zero has to arrive.
-/
def WholeReads : List BtidePacket → List Bytes → Prop
  | [], _ => True
  | _ :: _, [] => False
  | [pkt], seg :: _ =>
    seg.length = MAX_PACKET_SIZE
      ∨ (pkt.msgCode = PKT_MSG_DSN ∧ ∀ b ∈ pkt.bytes.drop seg.length, b = 0)
  | pkt :: pkts, seg :: segs =>
    pkt.msgCode ≠ PKT_MSG_DSN ∧ seg.length = MAX_PACKET_SIZE ∧ WholeReads pkts segs

theorem recvBuffer_val {seg : Bytes} (h : seg.length ≤ MAX_PACKET_SIZE)
    : (recvBuffer seg).val = seg ++ List.replicate (MAX_PACKET_SIZE - seg.length) 0 := by
  simp [recvBuffer, List.take_append, List.take_of_length_le h]

theorem recvBuffer_eq_iff {seg : Bytes} {pkt : BtidePacket} (h : seg.length ≤ MAX_PACKET_SIZE)
    (htake : seg = pkt.bytes.take seg.length)
    : (recvBuffer seg).val = pkt.bytes ↔ ∀ b ∈ pkt.bytes.drop seg.length, b = 0 := by
  have hsplit := List.take_append_drop seg.length pkt.bytes
  rw [← htake] at hsplit
  have hlength : (pkt.bytes.drop seg.length).length = MAX_PACKET_SIZE - seg.length := by
    rw [List.length_drop, pkt.length_bytes]
  rw [recvBuffer_val h]
  conv => lhs; rw [← hsplit]
  rw [List.append_cancel_left_eq, eq_comm, List.eq_replicate_iff]
  simp [hlength]

theorem Cuts.cons {seg : Bytes} {segs : List Bytes} {pkt : BtidePacket} {pkts : List BtidePacket}
    (h : Cuts (seg :: segs) ((pkt :: pkts).flatMap BtidePacket.bytes))
    : seg = pkt.bytes.take seg.length
        ∧ Cuts segs (pkt.bytes.drop seg.length ++ pkts.flatMap BtidePacket.bytes) := by
  have hle : seg.length ≤ pkt.bytes.length := by
    rw [pkt.length_bytes]
    exact h.length_le seg (by simp)
  have hflatten := h.flatten
  rw [List.flatten_cons, List.flatMap_cons] at hflatten
  constructor
  . have htake := congrArg (List.take seg.length) hflatten
    rw [List.take_left, List.take_append_of_le_length hle] at htake
    exact htake
  . constructor
    . have hdrop := congrArg (List.drop seg.length) hflatten
      rw [List.drop_left, List.drop_append_of_le_length hle] at hdrop
      exact hdrop
    . intro other hother
      exact h.ne_nil other (by simp [hother])
    . intro other hother
      exact h.length_le other (by simp [hother])

theorem Cuts.eq_nil {segs : List Bytes} (h : Cuts segs []) : segs = [] := by
  cases segs with
  | nil => rfl
  | cons seg segs =>
    have hseg := (List.append_eq_nil_iff.mp h.flatten).1
    exact absurd hseg (h.ne_nil seg (by simp))

theorem dispatched_dsn {seg : Bytes} {pkt : BtidePacket} (h : (recvBuffer seg).val = pkt.bytes)
    (hdsn : pkt.msgCode = PKT_MSG_DSN) (segs : List Bytes)
    : dispatched (seg :: segs) = [pkt] := by
  unfold dispatched
  rw [BtidePacket.ofBuffer_eq_iff.mpr h]
  simp [hdsn]

theorem dispatched_cons {seg : Bytes} {pkt : BtidePacket} (h : (recvBuffer seg).val = pkt.bytes)
    (hdsn : pkt.msgCode ≠ PKT_MSG_DSN) (segs : List Bytes)
    : dispatched (seg :: segs) = pkt :: dispatched segs := by
  conv => lhs; unfold dispatched
  rw [BtidePacket.ofBuffer_eq_iff.mpr h]
  simp [hdsn]

theorem dispatched_eq_cons {seg : Bytes} {segs : List Bytes} {pkt : BtidePacket}
    {pkts : List BtidePacket} (h : dispatched (seg :: segs) = pkt :: pkts)
    : (recvBuffer seg).val = pkt.bytes
        ∧ (pkt.msgCode = PKT_MSG_DSN → pkts = [])
        ∧ (pkt.msgCode ≠ PKT_MSG_DSN → dispatched segs = pkts) := by
  unfold dispatched at h
  dsimp only at h
  split at h
  . next hdsn =>
    rw [List.cons.injEq] at h
    rw [h.1] at hdsn
    refine ⟨BtidePacket.ofBuffer_eq_iff.mp h.1, fun _ => h.2.symm, fun hne => absurd hdsn hne⟩
  . next hdsn =>
    rw [List.cons.injEq] at h
    rw [h.1] at hdsn
    exact ⟨BtidePacket.ofBuffer_eq_iff.mp h.1, fun heq => absurd heq hdsn, fun _ => h.2⟩

theorem bytes_eq_zero_of_shift {seg rest : Bytes} {pkt : BtidePacket} {z : Nat} (hz : 0 < z)
    (hle : seg.length ≤ MAX_PACKET_SIZE)
    (hseg : seg = (List.replicate z 0 ++ (pkt.bytes ++ rest)).take seg.length)
    (hbuffer : (recvBuffer seg).val = pkt.bytes)
    : ∀ b ∈ pkt.bytes, b = 0 := by
  rw [recvBuffer_val hle] at hbuffer
  have hzero : ∀ i < MAX_PACKET_SIZE, pkt.bytes[i]? = some 0 := by
    intro i
    -- every byte is copied from `z` positions before it or is a zero anyway
    induction i using Nat.strongRecOn with
    | ind i ih =>
      intro hi
      rw [← hbuffer, List.getElem?_append]
      split
      . next hlt =>
        rw [hseg, List.getElem?_take_of_lt hlt, List.getElem?_append, List.length_replicate]
        split
        . next hfront => simp [hfront]
        . rw [List.getElem?_append_left]
          . exact ih (i - z) (by omega) (by omega)
          . rw [pkt.length_bytes]
            omega
      . rw [List.getElem?_replicate_of_lt]
        omega
  intro b hb
  obtain ⟨i, hi, rfl⟩ := List.getElem_of_mem hb
  rw [pkt.length_bytes] at hi
  have hget := hzero i hi
  rw [List.getElem?_eq_some_iff] at hget
  exact hget.2

theorem msgCode_of_zero {pkt : BtidePacket} (h : ∀ b ∈ pkt.bytes, b = 0)
    : pkt.msgCode ≠ PKT_MSG_DSN := by
  have hbytes : pkt.bytes = List.replicate MAX_PACKET_SIZE 0 := by
    rw [List.eq_replicate_iff]
    exact ⟨pkt.length_bytes, h⟩
  have hpkt : BtidePacket.ofBuffer (recvBuffer []) = pkt := by
    rw [BtidePacket.ofBuffer_eq_iff, hbytes]
    simp [recvBuffer]
  have hzero : (BtidePacket.ofBuffer (recvBuffer [])).msgCode = 0 := by
    decide +kernel
  rw [← hpkt, hzero]
  decide

theorem dispatched_ne_of_shift {segs : List Bytes} {pkts : List BtidePacket} {z : Nat} (hz : 0 < z)
    (h : Cuts segs (List.replicate z 0 ++ pkts.flatMap BtidePacket.bytes))
    : dispatched segs ≠ pkts := by
  induction pkts generalizing segs z with
  | nil =>
    intro hnil
    cases segs with
    | nil =>
      have hflatten := congrArg List.length h.flatten
      simp at hflatten
      omega
    | cons seg segs =>
      unfold dispatched at hnil
      dsimp only at hnil
      split at hnil
      . simp at hnil
      . simp at hnil
  | cons pkt pkts ih =>
    intro heq
    cases segs with
    | nil => simp [dispatched] at heq
    | cons seg segs =>
      have hle := h.length_le seg (by simp)
      have hflatten := h.flatten
      rw [List.flatten_cons, List.flatMap_cons] at hflatten
      have hseg := congrArg (List.take seg.length) hflatten
      rw [List.take_left] at hseg
      obtain ⟨hbuffer, _, hnext⟩ := dispatched_eq_cons heq
      have hzero := bytes_eq_zero_of_shift hz hle hseg hbuffer
      have hbytes : pkt.bytes = List.replicate MAX_PACKET_SIZE 0 := by
        rw [List.eq_replicate_iff]
        exact ⟨pkt.length_bytes, hzero⟩
      -- what is left starts with the zeros of this packet
      have hrest := congrArg (List.drop seg.length) hflatten
      rw [List.drop_left, hbytes, ← List.append_assoc, List.replicate_append_replicate,
        List.drop_append_of_le_length (by rw [List.length_replicate]; omega),
        List.drop_replicate] at hrest
      refine ih (z := z + MAX_PACKET_SIZE - seg.length) (by omega) ⟨hrest, ?_, ?_⟩
        (hnext (msgCode_of_zero hzero))
      . intro other hother
        exact h.ne_nil other (by simp [hother])
      . intro other hother
        exact h.length_le other (by simp [hother])

theorem wholeReads_cons {seg : Bytes} {segs : List Bytes} {pkt : BtidePacket}
    {pkts : List BtidePacket}
    : WholeReads (pkt :: pkts) (seg :: segs)
        ↔
      (pkts = []
        ∧ (seg.length = MAX_PACKET_SIZE
            ∨ (pkt.msgCode = PKT_MSG_DSN ∧ ∀ b ∈ pkt.bytes.drop seg.length, b = 0)))
      ∨ (pkts ≠ []
          ∧ pkt.msgCode ≠ PKT_MSG_DSN
          ∧ seg.length = MAX_PACKET_SIZE
          ∧ WholeReads pkts segs) := by
  cases pkts with
  | nil => simp [WholeReads]
  | cons next pkts => simp [WholeReads]

section Step

variable {seg : Bytes} {segs : List Bytes} {pkt : BtidePacket} {pkts : List BtidePacket}

theorem dispatched_eq_iff_full (hfull : seg.length = MAX_PACKET_SIZE)
    (htake : seg = pkt.bytes.take seg.length)
    (ih : dispatched segs = pkts ↔ WholeReads pkts segs)
    : dispatched (seg :: segs) = pkt :: pkts ↔ WholeReads (pkt :: pkts) (seg :: segs) := by
  have hnil : pkt.bytes.drop seg.length = [] := by
    rw [List.drop_eq_nil_iff, pkt.length_bytes, hfull]
  have hbuffer : (recvBuffer seg).val = pkt.bytes := by
    rw [recvBuffer_eq_iff (Nat.le_of_eq hfull) htake, hnil]
    simp
  rw [wholeReads_cons]
  by_cases hdsn : pkt.msgCode = PKT_MSG_DSN
  . rw [dispatched_dsn hbuffer hdsn]
    simp [hfull, hdsn, eq_comm]
  . rw [dispatched_cons hbuffer hdsn, List.cons.injEq, ih]
    cases pkts with
    | nil => simp [WholeReads, hfull]
    | cons next pkts => simp [hfull, hdsn]

theorem dispatched_eq_iff_short (hlt : seg.length < MAX_PACKET_SIZE)
    (htake : seg = pkt.bytes.take seg.length)
    (hrest : Cuts segs (pkt.bytes.drop seg.length ++ pkts.flatMap BtidePacket.bytes))
    : dispatched (seg :: segs) = pkt :: pkts ↔ WholeReads (pkt :: pkts) (seg :: segs) := by
  have hbuffer := recvBuffer_eq_iff (Nat.le_of_lt hlt) htake
  have hne : seg.length ≠ MAX_PACKET_SIZE := by omega
  rw [wholeReads_cons]
  simp only [hne, false_or, false_and, and_false, or_false]
  constructor
  . intro heq
    obtain ⟨hval, hlast, hnext⟩ := dispatched_eq_cons heq
    have hzero := hbuffer.mp hval
    by_cases hdsn : pkt.msgCode = PKT_MSG_DSN
    . exact ⟨hlast hdsn, hdsn, hzero⟩
    . -- the unread zeros of this packet shift everything behind it
      have hreplicate : pkt.bytes.drop seg.length
          = List.replicate (MAX_PACKET_SIZE - seg.length) 0 := by
        rw [List.eq_replicate_iff, List.length_drop, pkt.length_bytes]
        exact ⟨rfl, hzero⟩
      rw [hreplicate] at hrest
      exact absurd (hnext hdsn) (dispatched_ne_of_shift (by omega) hrest)
  . rintro ⟨rfl, hdsn, hzero⟩
    exact dispatched_dsn (hbuffer.mpr hzero) hdsn segs

end Step

theorem dispatched_eq_iff {segs : List Bytes} {sent : List BtidePacket}
    (h : Cuts segs (sent.flatMap BtidePacket.bytes))
    : dispatched segs = sent ↔ WholeReads sent segs := by
  induction sent generalizing segs with
  | nil =>
    rw [h.eq_nil]
    simp [dispatched, WholeReads]
  | cons pkt pkts ih =>
    cases segs with
    | nil =>
      have hflatten := congrArg List.length h.flatten
      rw [List.flatMap_cons, List.length_append, pkt.length_bytes] at hflatten
      simp [MAX_PACKET_SIZE] at hflatten
      omega
    | cons seg segs =>
      obtain ⟨htake, hrest⟩ := h.cons
      have hle := h.length_le seg (by simp)
      rcases Nat.lt_or_eq_of_le hle with hlt | hfull
      . exact dispatched_eq_iff_short hlt htake hrest
      . have hnil : pkt.bytes.drop seg.length = [] := by
          rw [List.drop_eq_nil_iff, pkt.length_bytes, hfull]
        rw [hnil, List.nil_append] at hrest
        exact dispatched_eq_iff_full hfull htake (ih hrest)

def png : BtidePacket where
  msgCode := PKT_MSG_PNG
  error := 0
  pl := .zero

theorem dispatched_eq_iff_three
    : dispatched
          [png.bytes, { png with msgCode := PKT_MSG_POG }.bytes, { png with msgCode := PKT_MSG_DSN }.bytes.take 2,
            { png with msgCode := PKT_MSG_DSN }.bytes.drop 2]
        =
      [png, { png with msgCode := PKT_MSG_POG }, { png with msgCode := PKT_MSG_DSN }] := by
  have hpng := png.length_bytes
  have hpog := ({ png with msgCode := PKT_MSG_POG } : BtidePacket).length_bytes
  have hdsn := ({ png with msgCode := PKT_MSG_DSN } : BtidePacket).length_bytes
  have hlengths : ∀ n ∈ [png.bytes, { png with msgCode := PKT_MSG_POG }.bytes,
      { png with msgCode := PKT_MSG_DSN }.bytes.take 2,
      { png with msgCode := PKT_MSG_DSN }.bytes.drop 2].map List.length, 0 < n ∧ n ≤ MAX_PACKET_SIZE := by
    simp only [List.map_cons, List.map_nil, List.length_take, List.length_drop, hpng, hpog, hdsn]
    decide
  rw [dispatched_eq_iff]
  . rw [wholeReads_cons]
    refine .inr ⟨List.cons_ne_nil _ _, by decide, hpng, ?_⟩
    rw [wholeReads_cons]
    refine .inr ⟨List.cons_ne_nil _ _, by decide, hpog, ?_⟩
    rw [wholeReads_cons]
    refine .inl ⟨rfl, .inr ⟨rfl, ?_⟩⟩
    exact forall_mem_of_all (by decide +kernel)
  . constructor
    . simp only [List.flatten_cons, List.flatten_nil, List.append_nil, List.take_append_drop,
        List.flatMap_cons, List.flatMap_nil]
    . intro seg hseg heq
      have hpos := (hlengths _ (List.mem_map_of_mem hseg)).1
      rw [heq] at hpos
      exact Nat.lt_irrefl 0 hpos
    . intro seg hseg
      exact (hlengths _ (List.mem_map_of_mem hseg)).2

/--
One ping, of which the first call of `recv` returns a single byte, is taken for two packets.
-/
theorem dispatched_png_split
    : Cuts [png.bytes.take 1, png.bytes.drop 1] ([png].flatMap BtidePacket.bytes)
        ∧ dispatched [png.bytes.take 1, png.bytes.drop 1] ≠ [png] := by
  have hlength := png.length_bytes
  unfold MAX_PACKET_SIZE at hlength
  constructor
  . constructor
    . simp only [List.flatten_cons, List.flatten_nil, List.append_nil, List.take_append_drop,
        List.flatMap_cons, List.flatMap_nil]
    . intro seg hseg heq
      rw [heq] at hseg
      have hzero : (0 : Nat) ∈ [png.bytes.take 1, png.bytes.drop 1].map List.length :=
        List.mem_map_of_mem hseg
      simp [hlength] at hzero
    . intro seg hseg
      have hmem : seg.length ∈ [png.bytes.take 1, png.bytes.drop 1].map List.length :=
        List.mem_map_of_mem hseg
      simp only [List.map_cons, List.length_take, List.length_drop, hlength, List.map_nil,
        List.mem_cons, List.not_mem_nil, or_false] at hmem
      unfold MAX_PACKET_SIZE
      omega
  . intro heq
    have hsecond := (dispatched_eq_cons heq).2.2 (by decide)
    unfold dispatched at hsecond
    dsimp only at hsecond
    split at hsecond
    . simp at hsecond
    . simp at hsecond

end handlePeers
end Btide
