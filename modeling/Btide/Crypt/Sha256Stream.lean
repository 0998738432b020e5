import Btide.Crypt.Sha256Lemmas
import Btide.Lib.Fips180

/-!
This module contains the proof that the hash of `src/crypt/sha256.c` is SHA-256, however the message is
cut into updates.
-/

open Bytes CLib

namespace Btide

namespace Sha256

open Fips180

def Fraction (n p : Nat) (w : Word) : Prop :=
  ∃ i < p, (i * 2 ^ 32 + w.toNat) ^ n ≤ p * 2 ^ (32 * n)
    ∧ p * 2 ^ (32 * n) < (i * 2 ^ 32 + w.toNat + 1) ^ n

theorem map_rootFraction {n : Nat} {ps : List Nat} {ws : List Word}
    (h : List.Forall₂ (Fraction n) ps ws) : ps.map (rootFraction n) = ws := by
  induction h with
  | nil => rfl
  | cons hfirst _ ih =>
    obtain ⟨i, hi, hle, hlt⟩ := hfirst
    rw [List.map_cons, ih, rootFraction_eq hle hlt hi]

instance (n p : Nat) (w : Word) : Decidable (Fraction n p w) :=
  inferInstanceAs (Decidable (∃ i < p, _))

theorem constants_eq : constants = k := by
  apply map_rootFraction
  decide +kernel

theorem initial_eq (data : Sha256ComputeData)
    : (sha256ComputeDataInit data).hcomps = Registers.initial.toList := by
  have hwords : (primes.take 8).map (rootFraction 2) = (sha256ComputeDataInit zeroBuff).hcomps := by
    apply map_rootFraction
    decide +kernel
  rw [Registers.initial, hwords]
  rfl

theorem word_bytes (a b c d : UInt8)
    : a.toUInt32 <<< 24 ||| b.toUInt32 <<< 16 ||| c.toUInt32 <<< 8 ||| d.toUInt32
        =
      UInt32.ofNat (ofLE [d, c, b, a]) := by
  have ha := a.toNat_lt
  have hb := b.toNat_lt
  have hc := c.toNat_lt
  have hd := d.toNat_lt
  have hlow : c.toNat <<< 8 ||| d.toNat = c.toNat <<< 8 + d.toNat := by
    apply (Nat.shiftLeft_add_eq_or_of_lt _ _).symm
    omega
  have hmid : b.toNat <<< 16 ||| (c.toNat <<< 8 + d.toNat)
      = b.toNat <<< 16 + (c.toNat <<< 8 + d.toNat) := by
    apply (Nat.shiftLeft_add_eq_or_of_lt _ _).symm
    rw [Nat.shiftLeft_eq]
    omega
  have hhigh : a.toNat <<< 24 ||| (b.toNat <<< 16 + (c.toNat <<< 8 + d.toNat))
      = a.toNat <<< 24 + (b.toNat <<< 16 + (c.toNat <<< 8 + d.toNat)) := by
    apply (Nat.shiftLeft_add_eq_or_of_lt _ _).symm
    rw [Nat.shiftLeft_eq, Nat.shiftLeft_eq]
    omega
  apply UInt32.toNat_inj.mp
  have hshift (x : UInt8) (n : Nat) (hn : n ≤ 24) : x.toNat <<< n % 2 ^ 32 = x.toNat <<< n := by
    apply Nat.mod_eq_of_lt
    have hx := x.toNat_lt
    have hpow : 2 ^ n ≤ 2 ^ 24 := Nat.pow_le_pow_right (by omega) hn
    rw [Nat.shiftLeft_eq]
    calc
      x.toNat * 2 ^ n ≤ x.toNat * 2 ^ 24 := Nat.mul_le_mul_left _ hpow
      _ < 2 ^ 32 := by omega
  simp only [UInt32.toNat_or, UInt32.toNat_shiftLeft, UInt8.toNat_toUInt32, UInt32.reduceToNat,
    Nat.reduceMod, hshift a 24 (by omega), hshift b 16 (by omega), hshift c 8 (by omega),
    UInt32.toNat_ofNat']
  rw [Nat.or_assoc, Nat.or_assoc, hlow, hmid, hhigh]
  simp only [ofLE, List.foldr_cons, List.foldr_nil, Nat.shiftLeft_eq]
  omega

theorem words_getD {bytes : Bytes} {t : Nat} (h : 4 * t + 4 ≤ bytes.length)
    : (words bytes).getD t 0 = word bytes t := by
  induction t generalizing bytes with
  | zero =>
    match bytes, h with
    | a :: b :: c :: d :: bytes, _ =>
      rw [words, List.getD_cons_zero, word_bytes]
      rfl
  | succ t ih =>
    match bytes, h with
    | a :: b :: c :: d :: bytes, h =>
      simp only [List.length_cons] at h
      rw [words, List.getD_cons_succ, ih (by omega)]
      rfl

theorem length_words (bytes : Bytes) : (words bytes).length = bytes.length / 4 := by
  fun_induction words bytes with
  | case1 a b c d bytes ih =>
    simp only [List.length_cons, ih]
    omega
  | case2 bytes hshort =>
    match bytes, hshort with
    | [], _ => simp
    | [_], _ => simp
    | [_, _], _ => simp
    | [_, _, _], _ => simp
    | a :: b :: c :: d :: bytes, h => exact absurd rfl (h a b c d bytes)

theorem add_reverse (x y z v : UInt32) : x + y + z + v = v + z + y + x := by
  ac_rfl

theorem extend_eq {m : Nat → Word} {w : List UInt32} (hlen : w.length = 16)
    (hw : ∀ t < 16, w.getD t 0 = m t) (n : Nat)
    : ((List.range' 16 n).foldl extend w).length = 16 + n
        ∧ ∀ t < 16 + n, ((List.range' 16 n).foldl extend w).getD t 0 = schedule m t := by
  induction n with
  | zero =>
    refine ⟨hlen, ?_⟩
    intro t ht
    rw [List.range'_zero, List.foldl_nil, hw t ht, schedule_of_lt ht]
  | succ n ih =>
    obtain ⟨ihlen, ih⟩ := ih
    rw [List.range'_concat, List.foldl_append, Nat.one_mul, List.foldl_cons, List.foldl_nil]
    refine ⟨by rw [length_extend, ihlen, Nat.add_assoc], ?_⟩
    intro t ht
    rw [extend, List.getD_eq_getElem?_getD]
    by_cases hlt : t < 16 + n
    . rw [List.getElem?_append_left (by omega), ← List.getD_eq_getElem?_getD, ih t hlt]
    . have heq : t = 16 + n := by omega
      subst heq
      rw [List.getElem?_append_right (by omega), ihlen, Nat.sub_self, List.getElem?_cons_zero,
        Option.getD_some, ih (16 + n - 16) (by omega), ih (16 + n - 15) (by omega),
        ih (16 + n - 7) (by omega), ih (16 + n - 2) (by omega),
        schedule_of_ge (t := 16 + n) (Nat.le_add_right 16 n)]
      apply add_reverse

theorem round_eq {w : List UInt32} {W : Nat → Word} {t : Nat} (hw : w.getD t 0 = W t)
    (r : Registers) : round w r.toList t = (step W r t).toList := by
  unfold round Registers.toList step
  simp only [hw, constants_eq]
  rfl

theorem rounds_eq {w : List UInt32} {W : Nat → Word} {n : Nat} (hw : ∀ t < n, w.getD t 0 = W t)
    (r : Registers)
    : (List.range n).foldl (round w) r.toList = ((List.range n).foldl (step W) r).toList := by
  induction n with
  | zero => rfl
  | succ n ih =>
    rw [List.range_succ, List.foldl_append, List.foldl_append, ih (fun t ht => hw t (by omega))]
    apply round_eq
    apply hw
    omega

theorem calculateChunk_eq {data : Sha256ComputeData} {r : Registers} {chunk : Bytes}
    (hr : data.hcomps = r.toList) (hlen : 64 ≤ chunk.length)
    : (sha256CalculateChunk data chunk).hcomps = (compress r (word chunk)).toList := by
  have htake : (chunk.take 64).length = 64 := by
    rw [List.length_take]
    omega
  have hwords : ∀ t < 16, (words (chunk.take 64)).getD t 0 = word chunk t := by
    intro t ht
    rw [words_getD (by omega), word, word, slice_take (by omega)]
  have hsixteen : (words (chunk.take 64)).length = 16 := by
    rw [length_words, htake]
  obtain ⟨-, hschedule⟩ := extend_eq hsixteen hwords 48
  unfold sha256CalculateChunk
  dsimp only
  rw [hr, rounds_eq (W := schedule (word chunk)) (fun t ht => hschedule t (by omega)), compress]
  simp only [Registers.toList, Registers.add, List.zipWith_cons_cons, List.zipWith_nil_left]
  simp only [UInt32.add_comm]

theorem blocks_eq {data : Sha256ComputeData} {r : Registers} {ptr : Bytes} {size : Nat}
    (hr : data.hcomps = r.toList) (hsize : size ≤ ptr.length)
    : (blocks data ptr size).1.hcomps = (absorb r (ptr.take size)).toList := by
  induction data, ptr, size using blocks.induct generalizing r with
  | case1 data ptr size hle ih =>
    have htake : (ptr.take size).length = size := by
      rw [List.length_take]
      omega
    have hword : ∀ t < 16, word (ptr.take size) t = word ptr t := by
      intro t ht
      rw [word, word, slice_take (by omega)]
    have hrest : size - 64 ≤ (ptr.drop 64).length := by
      rw [List.length_drop]
      omega
    have habsorb : absorb r (ptr.take size)
        = absorb (compress r (word ptr)) ((ptr.drop 64).take (size - 64)) := by
      rw [absorb_of_le (by omega), compress_congr hword, List.drop_take]
    rw [blocks.eq_of_le data ptr hle, ih (calculateChunk_eq hr (by omega)) hrest, habsorb]
  | case2 data ptr size hlt =>
    rw [blocks.eq_of_lt data ptr (by omega), absorb_of_lt]
    . exact hr
    . rw [List.length_take]
      omega

def pending (msg : Bytes) : Bytes :=
  msg.drop (msg.length - msg.length % 64)

theorem length_pending (msg : Bytes) : (pending msg).length = msg.length % 64 := by
  rw [pending, List.length_drop]
  omega

theorem absorb_msg_append (hash : Registers) (msg bytes : Bytes)
    : absorb hash (msg ++ bytes) = absorb (absorb hash msg) (pending msg ++ bytes) := by
  have hdvd : 64 ∣ (msg.take (msg.length - msg.length % 64)).length := by
    rw [List.length_take]
    omega
  have hmsg : msg = msg.take (msg.length - msg.length % 64) ++ pending msg := by
    rw [pending, List.take_append_drop]
  have hshort : (pending msg).length < 64 := by
    rw [length_pending]
    omega
  have hfront : absorb hash msg = absorb hash (msg.take (msg.length - msg.length % 64)) := by
    conv => lhs; rw [hmsg]
    rw [absorb_append hdvd, absorb_of_lt hshort]
  conv => lhs; rw [hmsg, List.append_assoc]
  rw [absorb_append hdvd, hfront]

structure Represents (data : Sha256ComputeData) (msg : Bytes) : Prop where
  hcomps : data.hcomps = (absorb .initial msg).toList
  lastChunk : data.lastChunk.take data.chunkSize.toNat = pending msg
  length_lastChunk : data.lastChunk.length = 64
  chunkSize : data.chunkSize.toNat = msg.length % 64
  dataSize : data.dataSize = UInt64.ofNat msg.length

theorem init_represents {data : Sha256ComputeData} (hlen : data.lastChunk.length = 64)
    : Represents (sha256ComputeDataInit data) [] where
  hcomps := by
    rw [initial_eq, absorb_of_lt (by decide)]
  lastChunk := rfl
  length_lastChunk := hlen
  chunkSize := rfl
  dataSize := rfl

theorem dataSize_add {n m : Nat} (h : m < 2 ^ 32)
    : UInt64.ofNat n + (UInt32.ofNat m).toUInt64 = UInt64.ofNat (n + m) := by
  have hm : (UInt32.ofNat m).toUInt64 = UInt64.ofNat m := by
    apply UInt64.toNat_inj.mp
    rw [UInt32.toNat_toUInt64, UInt32.toNat_ofNat_of_lt' h, UInt64.toNat_ofNat']
    omega
  rw [hm, UInt64.ofNat_add]

theorem Represents.update_short {data : Sha256ComputeData} {msg bytes : Bytes}
    (h : Represents data msg) (hlen : bytes.length < 2 ^ 31)
    (hshort : msg.length % 64 + bytes.length < 64)
    : ∃ data',
        sha256Update data bytes (UInt32.ofNat bytes.length) = .ok data'
          ∧ Represents data' (msg ++ bytes) := by
  have hsize := h.chunkSize
  have hnat : (UInt32.ofNat bytes.length).toNat = bytes.length :=
    UInt32.toNat_ofNat_of_lt' (Nat.lt_trans hlen (by decide))
  have hfill : ¬ 64 ≤ UInt32.ofNat bytes.length + data.chunkSize.toUInt32 := by
    rw [UInt32.le_iff_toNat_le, UInt32.toNat_add, hnat, UInt8.toNat_toUInt32, hsize]
    simp only [UInt32.reduceToNat]
    omega
  have hroom : data.chunkSize.toNat + bytes.length ≤ 64 := by omega
  refine ⟨{ data with
    dataSize := data.dataSize + (UInt32.ofNat bytes.length).toUInt64
    lastChunk := splice data.lastChunk data.chunkSize.toNat bytes
    chunkSize := data.chunkSize + UInt8.ofNat bytes.length }, ?_, ?_⟩
  . unfold sha256Update fillPending
    simp only [hfill, ↓reduceIte, bind, Except.bind]
    rw [blocks.eq_of_lt _ _ (by omega)]
    simp only [hnat, hroom, ↓reduceIte, List.take_length]
    rfl
  . have hsum : (data.chunkSize + UInt8.ofNat bytes.length).toNat
        = msg.length % 64 + bytes.length := by
      rw [UInt8.toNat_add, UInt8.toNat_ofNat', hsize]
      omega
    have hpending : pending (msg ++ bytes) = pending msg ++ bytes := by
      have hback : (msg ++ bytes).length - (msg ++ bytes).length % 64
          = msg.length - msg.length % 64 := by
        rw [List.length_append]
        omega
      rw [pending, hback, List.drop_append_of_le_length (by omega), pending]
    constructor
    . have hnone : absorb (absorb .initial msg) (pending msg ++ bytes) = absorb .initial msg := by
        apply absorb_of_lt
        rw [List.length_append, length_pending]
        exact hshort
      dsimp only
      rw [h.hcomps, absorb_msg_append, hnone]
    . dsimp only
      rw [hsum, hpending, splice, h.lastChunk, List.take_append_of_le_length, List.take_of_length_le]
      . rw [List.length_append, length_pending]
      . rw [List.length_append, length_pending]
    . dsimp only
      rw [length_splice, h.length_lastChunk]
      rw [h.length_lastChunk]
      exact hroom
    . dsimp only
      rw [hsum, List.length_append]
      omega
    . dsimp only
      rw [h.dataSize, dataSize_add (by omega), List.length_append]

theorem pending_append {xs : Bytes} (h : 64 ∣ xs.length) (ys : Bytes)
    : pending (xs ++ ys) = pending ys := by
  have hmod : (xs.length + ys.length) % 64 = ys.length % 64 := by omega
  have hle : ys.length % 64 ≤ ys.length := Nat.mod_le _ _
  rw [pending, pending, List.length_append, hmod, Nat.add_sub_assoc hle, List.drop_length_add_append]

theorem fillPending_full {data : Sha256ComputeData} {tail bytes : Bytes}
    (htail : data.lastChunk.take data.chunkSize.toNat = tail)
    (hsize : data.chunkSize.toNat = tail.length) (hlt : tail.length < 64)
    (hlen : bytes.length < 2 ^ 31) (hfull : 64 ≤ tail.length + bytes.length)
    : fillPending data bytes (UInt32.ofNat bytes.length)
        =
      .ok (sha256CalculateChunk { data with chunkSize := 0 }
          (tail ++ bytes.take (64 - tail.length)),
        bytes.drop (64 - tail.length), UInt32.ofNat (bytes.length - (64 - tail.length))) := by
  have hnat : (UInt32.ofNat bytes.length).toNat = bytes.length :=
    UInt32.toNat_ofNat_of_lt' (Nat.lt_trans hlen (by decide))
  have hfill : 64 ≤ UInt32.ofNat bytes.length + data.chunkSize.toUInt32 := by
    rw [UInt32.le_iff_toNat_le, UInt32.toNat_add, hnat, UInt8.toNat_toUInt32, hsize]
    simp only [UInt32.reduceToNat]
    omega
  have hbuffer : data.chunkSize ≤ 64 := by
    rw [UInt8.le_iff_toNat_le, hsize]
    simp only [UInt8.reduceToNat]
    omega
  unfold fillPending
  simp only [hfill, hbuffer, ↓reduceIte]
  have hsub : UInt32.ofNat bytes.length - UInt32.ofNat (64 - tail.length)
      = UInt32.ofNat (bytes.length - (64 - tail.length)) := by
    apply (UInt32.ofNat_sub _).symm
    omega
  rw [htail, hsize, hsub]

theorem Represents.update_full {data : Sha256ComputeData} {msg bytes : Bytes}
    (h : Represents data msg) (hlen : bytes.length < 2 ^ 31)
    (hfull : 64 ≤ msg.length % 64 + bytes.length)
    : ∃ data',
        sha256Update data bytes (UInt32.ofNat bytes.length) = .ok data'
          ∧ Represents data' (msg ++ bytes) := by
  have htail := length_pending msg
  have hsize : data.chunkSize.toNat = (pending msg).length := by rw [h.chunkSize, htail]
  generalize hroom : 64 - (pending msg).length = room
  generalize hstart : ({ data with
    dataSize := data.dataSize + (UInt32.ofNat bytes.length).toUInt64 } : Sha256ComputeData) = start
  have hfill := @fillPending_full start (pending msg) bytes (by rw [← hstart]; exact h.lastChunk)
    (by rw [← hstart]; exact hsize) (by omega) hlen (by omega)
  generalize hfilled : sha256CalculateChunk { start with chunkSize := 0 }
    (pending msg ++ bytes.take (64 - (pending msg).length)) = filled at hfill
  rw [hroom] at hfill hfilled
  -- the block that is completed ends at a multiple of 64 bytes of the message
  have hblockLen : (pending msg ++ bytes.take room).length = 64 := by
    rw [List.length_append, List.length_take]
    omega
  have hsplit : msg ++ bytes = (msg ++ bytes.take room) ++ bytes.drop room := by
    rw [List.append_assoc, List.take_append_drop]
  have hdvd : 64 ∣ (msg ++ bytes.take room).length := by
    rw [List.length_append, List.length_take]
    omega
  have hrest : (bytes.drop room).length = bytes.length - room := List.length_drop
  have hnat : (UInt32.ofNat (bytes.length - room)).toNat = (bytes.drop room).length := by
    rw [hrest]
    apply UInt32.toNat_ofNat_of_lt'
    exact Nat.lt_of_le_of_lt (Nat.sub_le _ _) (Nat.lt_trans hlen (by decide))
  have hblocks : blocks filled (bytes.drop room) (UInt32.ofNat (bytes.length - room)).toNat
      = blocks filled (bytes.drop room) (bytes.drop room).length := by
    rw [hnat]
  have hzero : filled.chunkSize = 0 := by
    rw [← hfilled]
    rfl
  have hlast : filled.lastChunk = data.lastChunk := by
    rw [← hfilled, ← hstart]
    rfl
  have hhcomps : filled.hcomps
      = (compress (absorb .initial msg) (word (pending msg ++ bytes.take room))).toList := by
    rw [← hfilled]
    apply calculateChunk_eq
    . rw [← hstart]
      exact h.hcomps
    . omega
  rw [← hstart] at hfill
  refine ⟨_, update_of_filled hfill hblocks hzero, ?_⟩
  constructor
  . dsimp only
    rw [blocks_eq hhcomps (Nat.le_refl _), List.take_length, absorb_msg_append,
      ← List.take_append_drop room bytes, ← List.append_assoc, absorb_append (by rw [hblockLen]),
      absorb_block hblockLen, List.take_append_drop]
  . have hleft : (UInt8.ofNat ((bytes.drop room).length % 64)).toNat
        = (pending (bytes.drop room)).length := by
      rw [UInt8.toNat_ofNat', length_pending]
      omega
    dsimp only
    rw [hleft, hsplit, pending_append hdvd, splice, List.take_zero, List.nil_append]
    apply List.take_left
  . dsimp only
    rw [hlast, length_splice, h.length_lastChunk]
    rw [← pending, length_pending, h.length_lastChunk]
    omega
  . dsimp only
    rw [UInt8.toNat_ofNat', hrest, List.length_append]
    omega
  . dsimp only
    rw [← hfilled, sha256CalculateChunk_dataSize, ← hstart]
    dsimp only
    rw [h.dataSize, dataSize_add (Nat.lt_trans hlen (by decide)), List.length_append]

theorem Represents.update {data : Sha256ComputeData} {msg bytes : Bytes} (h : Represents data msg)
    (hlen : bytes.length < 2 ^ 31)
    : ∃ data',
        sha256Update data bytes (UInt32.ofNat bytes.length) = .ok data'
          ∧ Represents data' (msg ++ bytes) := by
  by_cases hshort : msg.length % 64 + bytes.length < 64
  . apply h.update_short hlen hshort
  . apply h.update_full hlen
    omega

theorem Represents.updates {data : Sha256ComputeData} {msg : Bytes} {buffers : List Bytes}
    (h : Represents data msg) (hlen : ∀ bytes ∈ buffers, bytes.length < 2 ^ 31)
    : ∃ data',
        buffers.foldlM (fun data bytes => sha256Update data bytes (UInt32.ofNat bytes.length)) data
          =
        .ok data'
          ∧ Represents data' (msg ++ buffers.flatten) := by
  induction buffers generalizing data msg with
  | nil =>
    refine ⟨data, rfl, ?_⟩
    rw [List.flatten_nil, List.append_nil]
    exact h
  | cons bytes buffers ih =>
    obtain ⟨data₁, hfirst, hrep⟩ := h.update (hlen bytes List.mem_cons_self)
    obtain ⟨data₂, hrest, hrep⟩ := ih hrep fun b hb => hlen b (List.mem_cons_of_mem _ hb)
    refine ⟨data₂, ?_, ?_⟩
    . rw [List.foldlM_cons, hfirst]
      exact hrest
    . rw [List.flatten_cons, ← List.append_assoc]
      exact hrep

theorem lengthBytes_eq {n : Nat} (h : n < 2 ^ 61)
    : lengthBytes (UInt64.ofNat n * 8) = (toLE 8 (8 * n)).reverse := by
  have hbits : (UInt64.ofNat n * 8).toNat = 8 * n := by
    rw [UInt64.toNat_mul, UInt64.toNat_ofNat']
    simp only [UInt64.reduceToNat]
    omega
  rw [lengthBytes, hbits]

theorem finish_eq {data : Sha256ComputeData} {r : Registers} {tail : Bytes} {n : Nat}
    (hr : data.hcomps = r.toList) (hn : n < 2 ^ 61) (htail : tail.length = n % 64)
    (hlast : data.lastChunk = tail ++ 0x80 :: List.replicate (64 - (tail.length + 1)) 0)
    (hsize : data.chunkSize.toNat = tail.length + 1) (hdata : data.dataSize = UInt64.ofNat n)
    : (finish data).hcomps
        =
      (absorb r (tail ++ (0x80 :: List.replicate ((119 - n % 64) % 64) 0
        ++ (toLE 8 (8 * n)).reverse))).toList := by
  have hlength : ((toLE 8 (8 * n)).reverse).length = 8 := by
    rw [List.length_reverse, length_toLE]
  have hlastLen : data.lastChunk.length = 64 := by
    rw [hlast, List.length_append, List.length_cons, List.length_replicate]
    omega
  unfold finish
  dsimp only
  by_cases htwo : 56 < data.chunkSize
  . have hlong : 55 < tail.length := by
      rw [UInt8.lt_iff_toNat_lt, hsize] at htwo
      simp only [UInt8.reduceToNat] at htwo
      omega
    simp only [htwo, ↓reduceIte]
    rw [sha256CalculateChunk_dataSize, hdata, lengthBytes_eq hn]
    -- the zeros are cut where the first block ends
    have hzeros : (119 - n % 64) % 64 = (64 - (tail.length + 1)) + 56 := by omega
    have hblocks : tail ++ (0x80 :: List.replicate ((119 - n % 64) % 64) 0
          ++ (toLE 8 (8 * n)).reverse)
        = data.lastChunk ++ splice (List.replicate 64 0) 56 (toLE 8 (8 * n)).reverse := by
      rw [hlast, hzeros, List.replicate_add]
      have hsplice : splice (List.replicate 64 0) 56 (toLE 8 (8 * n)).reverse
          = List.replicate 56 0 ++ (toLE 8 (8 * n)).reverse := by
        rw [splice, hlength, List.take_replicate, List.drop_replicate]
        simp
      rw [hsplice]
      simp
    have hsecond : (splice (List.replicate 64 0) 56 (toLE 8 (8 * n)).reverse).length = 64 := by
      rw [length_splice, List.length_replicate]
      rw [hlength, List.length_replicate]
    rw [hblocks, absorb_append (by rw [hlastLen]), absorb_block hlastLen, absorb_block hsecond]
    apply calculateChunk_eq
    . apply calculateChunk_eq hr
      omega
    . omega
  . have hshort : tail.length ≤ 55 := by
      rw [UInt8.lt_iff_toNat_lt, hsize] at htwo
      simp only [UInt8.reduceToNat] at htwo
      omega
    simp only [htwo, ↓reduceIte]
    rw [hdata, lengthBytes_eq hn]
    have hblock : tail ++ (0x80 :: List.replicate ((119 - n % 64) % 64) 0
          ++ (toLE 8 (8 * n)).reverse)
        = splice data.lastChunk 56 (toLE 8 (8 * n)).reverse := by
      have hzeros : 64 - (tail.length + 1) = (119 - n % 64) % 64 + 8 := by omega
      have hfront : (tail ++ 0x80 :: List.replicate ((119 - n % 64) % 64) (0 : UInt8)).length = 56 := by
        rw [List.length_append, List.length_cons, List.length_replicate]
        omega
      have hsplice := splice_append (tail ++ 0x80 :: List.replicate ((119 - n % 64) % 64) 0)
        (List.replicate 8 0) (toLE 8 (8 * n)).reverse
      rw [hfront, hlength, List.drop_replicate, Nat.sub_self, List.replicate_zero,
        List.append_nil] at hsplice
      rw [hlast, hzeros, List.replicate_add]
      simp only [List.append_assoc, List.cons_append] at hsplice ⊢
      exact hsplice.symm
    have hlen : (splice data.lastChunk 56 (toLE 8 (8 * n)).reverse).length = 64 := by
      rw [length_splice, hlastLen]
      rw [hlength, hlastLen]
    rw [hblock, absorb_block hlen]
    apply calculateChunk_eq hr
    omega

theorem Represents.finalize {data : Sha256ComputeData} {msg : Bytes} (h : Represents data msg)
    (hlen : msg.length < 2 ^ 61)
    : ∃ data',
        sha256Finalize data = .ok data'
          ∧ data'.hcomps = (absorb .initial (msg ++ padding msg)).toList := by
  have htail := length_pending msg
  have hsize : data.chunkSize.toNat = (pending msg).length := by rw [h.chunkSize, htail]
  have hlt : (pending msg).length < 64 := by omega
  -- the buffer starts with the pending bytes
  have hlast : data.lastChunk = splice data.lastChunk 0 (pending msg) := by
    rw [splice, List.take_zero, List.nil_append, Nat.zero_add, ← hsize, ← h.lastChunk,
      List.take_append_drop]
  have hdata : data = ⟨data.dataSize, data.hcomps, splice data.lastChunk 0 (pending msg),
      data.chunkSize⟩ := by
    rw [← hlast]
  rw [hdata, finalize_splice hlt h.length_lastChunk hsize]
  refine ⟨_, rfl, ?_⟩
  rw [absorb_msg_append, padding]
  apply finish_eq _ hlen htail
  . rfl
  . dsimp only
    rw [UInt8.toNat_add, hsize]
    simp only [UInt8.reduceToNat]
    omega
  . exact h.dataSize
  . exact h.hcomps

theorem output_eq {data : Sha256ComputeData} {r : Registers} (hr : data.hcomps = r.toList)
    : sha256Output data = r.toList.flatMap fun word => (toLE 4 word.toNat).reverse := by
  have hword (w : UInt32)
      : [(w >>> 24).toUInt8, (w >>> 16).toUInt8, (w >>> 8).toUInt8, w.toUInt8]
        = (toLE 4 w.toNat).reverse := by
    have hbyte (n : Nat) (hn : n < 32)
        : (w >>> UInt32.ofNat n).toUInt8 = UInt8.ofNat (w.toNat / 2 ^ n) := by
      apply UInt8.toNat_inj.mp
      rw [UInt32.toNat_toUInt8, UInt32.toNat_shiftRight, UInt32.toNat_ofNat_of_lt' (Nat.lt_trans hn (by decide)),
        Nat.mod_eq_of_lt hn, UInt8.toNat_ofNat', Nat.shiftRight_eq_div_pow]
    have hlow : w.toUInt8 = UInt8.ofNat w.toNat := by
      apply UInt8.toNat_inj.mp
      rw [UInt32.toNat_toUInt8, UInt8.toNat_ofNat']
    simp only [toLE, List.reverse_cons, List.reverse_nil, List.nil_append, List.cons_append,
      Nat.div_div_eq_div_mul, Nat.reduceMul]
    rw [hlow]
    congr 1
    . exact hbyte 24 (by omega)
    . congr 1
      . exact hbyte 16 (by omega)
      . congr 1
        exact hbyte 8 (by omega)
  rw [sha256Output, hr]
  congr 1
  funext w
  exact hword w

theorem binToHex_eq (bytes : Bytes) : binToHex bytes = hex bytes := by
  have hdigit : ∀ i < 16, lut.getD i 0 = (Nat.digitChar i).toUInt8 := by decide
  unfold binToHex hex
  congr 1
  funext byte
  have hlt := byte.toNat_lt
  have hhigh : (byte >>> 4).toNat = byte.toNat / 16 := by
    rw [UInt8.toNat_shiftRight]
    simp only [UInt8.reduceToNat, Nat.reduceMod, Nat.shiftRight_eq_div_pow, Nat.reducePow]
  have hlow : (byte &&& 15).toNat = byte.toNat % 16 := by
    rw [UInt8.toNat_and]
    exact Nat.and_two_pow_sub_one_eq_mod byte.toNat 4
  rw [hhigh, hlow, hdigit _ (by omega), hdigit _ (by omega)]

theorem stream_eq {data : Sha256ComputeData} {buffers : List Bytes}
    (hlast : data.lastChunk.length = 64) (hsize : ∀ bytes ∈ buffers, bytes.length < 2 ^ 31)
    (htotal : buffers.flatten.length < 2 ^ 61)
    : (do
        let data ← buffers.foldlM
          (fun data bytes => sha256Update data bytes (UInt32.ofNat bytes.length))
          (sha256ComputeDataInit data)
        let data ← sha256Finalize data
        return sha256OutputHex data)
        =
      .ok (hex (Fips180.digest buffers.flatten)) := by
  obtain ⟨data₁, hupdates, hrep⟩ := (init_represents hlast).updates hsize
  rw [List.nil_append] at hrep
  obtain ⟨data₂, hfinalize, hhcomps⟩ := hrep.finalize htotal
  rw [hupdates]
  dsimp only [bind, Except.bind]
  rw [hfinalize]
  dsimp only [pure, Except.pure]
  rw [sha256OutputHex, output_eq hhcomps, binToHex_eq, Fips180.digest]

theorem stream_eq_abc
    : (do
        let data ← [ascii "a", [], ascii "bc"].foldlM
          (fun data bytes => sha256Update data bytes (UInt32.ofNat bytes.length))
          (sha256ComputeDataInit { zeroBuff with lastChunk := List.replicate 64 7 })
        let data ← sha256Finalize data
        return sha256OutputHex data)
        =
      .ok (hex (Fips180.digest (ascii "abc"))) := by
  apply stream_eq
  . rfl
  . decide
  . decide

theorem digest_eq {msg : Bytes} (hlen : msg.length < 2 ^ 31)
    : Sha256.digest msg = hex (Fips180.digest msg) := by
  obtain ⟨data₁, hupdate, hrep⟩ := (@init_represents zeroBuff rfl).update hlen
  obtain ⟨data₂, hfinalize, hhcomps⟩ := hrep.finalize (Nat.lt_trans hlen (by decide))
  have hrun : hashWith zeroBuff msg = .ok (sha256OutputHex data₂, data₂) := by
    unfold hashWith
    dsimp only
    rw [hupdate]
    dsimp only [bind, Except.bind]
    rw [hfinalize]
    rfl
  rw [Sha256.digest, hrun]
  dsimp only
  rw [sha256OutputHex, output_eq hhcomps, binToHex_eq, Fips180.digest, List.nil_append]

end Sha256

end Btide
