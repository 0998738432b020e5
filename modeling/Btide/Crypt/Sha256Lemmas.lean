import Btide.Crypt.Sha256

/-!
This module contains the lemmas about the hash: on a freshly initialised state every message hashes
without a fault, independently of what the buffer held before, to 64 hex digits.
-/

open Bytes CLib

namespace Btide

section
variable (data : Sha256ComputeData) (chunk : Bytes)

@[simp]
theorem sha256CalculateChunk_lastChunk
    : (sha256CalculateChunk data chunk).lastChunk = data.lastChunk := rfl

@[simp]
theorem sha256CalculateChunk_chunkSize
    : (sha256CalculateChunk data chunk).chunkSize = data.chunkSize := rfl

@[simp]
theorem sha256CalculateChunk_dataSize
    : (sha256CalculateChunk data chunk).dataSize = data.dataSize := rfl

theorem sha256CalculateChunk_take
    : sha256CalculateChunk data (chunk.take 64) = sha256CalculateChunk data chunk := by
  simp [sha256CalculateChunk, List.take_take]

end

namespace Sha256

@[simp]
theorem length_extend (w : List UInt32) (i : Nat) : (extend w i).length = w.length + 1 := by
  simp [extend]

theorem length_round {w tv : List UInt32} (h : tv.length = 8) (i : Nat)
    : (round w tv i).length = 8 := by
  unfold round
  split
  . simp
  . exact h

theorem length_rounds {w tv : List UInt32} (h : tv.length = 8) (is : List Nat)
    : (is.foldl (round w) tv).length = 8 := by
  induction is generalizing tv with
  | nil => exact h
  | cons i is ih => exact ih (length_round h i)

theorem length_hcomps {data : Sha256ComputeData} (h : data.hcomps.length = 8) (chunk : Bytes)
    : (sha256CalculateChunk data chunk).hcomps.length = 8 := by
  unfold sha256CalculateChunk
  dsimp
  rw [List.length_zipWith, length_rounds h]
  omega

namespace blocks

theorem eq_of_le (data : Sha256ComputeData) (ptr : Bytes) {size : Nat} (h : 64 ≤ size)
    : blocks data ptr size
        =
      blocks (sha256CalculateChunk data ptr) (ptr.drop 64) (size - 64) := by
  rw [blocks]
  simp [h]

theorem eq_of_lt (data : Sha256ComputeData) (ptr : Bytes) {size : Nat} (h : size < 64)
    : blocks data ptr size = (data, ptr, size) := by
  rw [blocks]
  have : ¬ 64 ≤ size := by omega
  simp [this]

theorem frame (data : Sha256ComputeData) (ptr : Bytes) (size : Nat)
    : blocks data ptr size
        =
      ({ data with hcomps := (blocks data ptr size).1.hcomps },
        ptr.drop (size - size % 64), size % 64) := by
  induction data, ptr, size using blocks.induct with
  | case1 data ptr size h ih =>
    have hmod : (size - 64) % 64 = size % 64 := by omega
    have hdrop : 64 + (size - 64 - size % 64) = size - size % 64 := by omega
    rw [eq_of_le data ptr h, ih, List.drop_drop, hmod, hdrop]
    rfl
  | case2 data ptr size h =>
    rw [eq_of_lt data ptr (by omega)]
    have : size % 64 = size := Nat.mod_eq_of_lt (by omega)
    simp [this]

theorem hcomps_congr {data : Sha256ComputeData} (data' : Sha256ComputeData)
    (hh : data.hcomps = data'.hcomps) (ptr : Bytes) (size : Nat)
    : (blocks data ptr size).1.hcomps = (blocks data' ptr size).1.hcomps := by
  induction data, ptr, size using blocks.induct generalizing data' with
  | case1 data ptr size h ih =>
    rw [eq_of_le data ptr h, eq_of_le data' ptr h]
    apply ih
    simp only [sha256CalculateChunk, hh]
  | case2 data ptr size h =>
    rw [eq_of_lt data ptr (by omega), eq_of_lt data' ptr (by omega)]
    exact hh

theorem length_hcomps {data : Sha256ComputeData} (hlen : data.hcomps.length = 8) (ptr : Bytes)
    (size : Nat)
    : (blocks data ptr size).1.hcomps.length = 8 := by
  induction data, ptr, size using blocks.induct with
  | case1 data ptr size h ih =>
    rw [eq_of_le data ptr h]
    exact ih (Sha256.length_hcomps hlen ptr)
  | case2 data ptr size h =>
    rw [eq_of_lt data ptr (by omega)]
    exact hlen

end blocks

theorem fillPending_init (data : Sha256ComputeData) (ptr : Bytes) (size : UInt32)
    (h : data.chunkSize = 0)
    : ∃ data' ptr' size',
        fillPending data ptr size = .ok (data', ptr', size')
          ∧ blocks data' ptr' size'.toNat = blocks data ptr size.toNat := by
  have hsize : size + data.chunkSize.toUInt32 = size := by
    rw [h]
    apply UInt32.add_zero
  unfold fillPending
  rw [hsize]
  simp only [h, UInt8.zero_le, ↓reduceIte]
  split
  . next hle =>
    refine ⟨_, _, _, rfl, ?_⟩
    have hle' : 64 ≤ size.toNat := by simpa [UInt32.le_iff_toNat_le] using hle
    have hsub : (size - 64).toNat = size.toNat - 64 := by
      rw [UInt32.toNat_sub_of_le _ _ hle]
      rfl
    have hdata : { data with chunkSize := 0 } = data := by
      rw [← h]
    rw [blocks.eq_of_le data ptr hle']
    simp [hdata, hsub, sha256CalculateChunk_take]
  . exact ⟨_, _, _, rfl, rfl⟩

theorem splice_pad {l tail : Bytes} (hl : l.length = 64) (ht : tail.length < 64)
    : splice (splice (splice l 0 tail) tail.length [0x80]) (tail.length + 1)
          (List.replicate (64 - (tail.length + 1)) 0)
        =
      tail ++ 0x80 :: List.replicate (64 - (tail.length + 1)) 0 := by
  have hfirst : splice l 0 tail = tail ++ l.drop tail.length := splice_append [] l tail
  have hsecond : splice (splice l 0 tail) tail.length [0x80]
      = (tail ++ [0x80]) ++ l.drop (tail.length + 1) := by
    rw [hfirst, splice_append]
    simp
  have hthird := splice_append (tail ++ [0x80]) (l.drop (tail.length + 1))
    (List.replicate (64 - (tail.length + 1)) 0)
  rw [List.length_append, List.length_singleton] at hthird
  have hempty : (l.drop (tail.length + 1)).drop (64 - (tail.length + 1)) = [] := by
    rw [List.drop_drop, List.drop_eq_nil_iff]
    omega
  rw [hsecond, hthird, List.length_replicate, hempty]
  simp

theorem length_finish {d : Sha256ComputeData} (hl : d.lastChunk.length = 64)
    (hh : d.hcomps.length = 8)
    : (finish d).lastChunk.length = 64 ∧ (finish d).hcomps.length = 8 := by
  have hlb (n : UInt64) : (lengthBytes n).length = 8 := by simp [lengthBytes]
  unfold finish
  dsimp
  split
  . constructor
    . rw [length_splice] <;> simp [hlb]
    . exact length_hcomps (length_hcomps hh _) _
  . constructor
    . rw [length_splice, hl]
      simp [hlb, hl]
    . exact length_hcomps hh _

theorem finalize_splice {tail l : Bytes} {chunkSize : UInt8} (ht : tail.length < 64)
    (hl : l.length = 64) (hsize : chunkSize.toNat = tail.length) (dataSize : UInt64)
    (hcomps : List UInt32)
    : sha256Finalize ⟨dataSize, hcomps, splice l 0 tail, chunkSize⟩
        =
      .ok (finish ⟨dataSize, hcomps, tail ++ 0x80 :: List.replicate (64 - (tail.length + 1)) 0,
        chunkSize + 1⟩) := by
  have hlt : ¬ (64 ≤ chunkSize) := by
    rw [UInt8.le_iff_toNat_le]
    simp only [UInt8.reduceToNat]
    omega
  have hsucc : (chunkSize + 1).toNat = tail.length + 1 := by
    rw [UInt8.toNat_add, hsize]
    simp only [UInt8.reduceToNat]
    omega
  unfold sha256Finalize
  simp only [hlt, ↓reduceIte, hsucc, hsize, splice_pad hl ht]
  rfl

-- what an update does once no block is pending
theorem update_of_filled {data start filled : Sha256ComputeData} {bytes ptr msg : Bytes}
    {n size : UInt32}
    (hfill : fillPending { data with dataSize := data.dataSize + n.toUInt64 } bytes n
      = .ok (filled, ptr, size))
    (hblocks : blocks filled ptr size.toNat = blocks start msg msg.length)
    (hzero : start.chunkSize = 0)
    : sha256Update data bytes n
        =
      .ok { start with
        hcomps := (blocks start msg msg.length).1.hcomps
        lastChunk := splice start.lastChunk 0 (msg.drop (msg.length - msg.length % 64))
        chunkSize := UInt8.ofNat (msg.length % 64) } := by
  have hroom : (0 : UInt8).toNat + msg.length % 64 ≤ 64 := by
    simp only [UInt8.reduceToNat]
    omega
  have htake : (msg.drop (msg.length - msg.length % 64)).take (msg.length % 64)
      = msg.drop (msg.length - msg.length % 64) := by
    apply List.take_of_length_le
    rw [List.length_drop]
    omega
  unfold sha256Update
  dsimp only
  rw [hfill]
  dsimp only [bind, Except.bind]
  rw [hblocks, blocks.frame start msg msg.length]
  dsimp only
  simp only [hzero, hroom, ↓reduceIte, htake, UInt8.zero_add]
  rfl

theorem update_init {d : Sha256ComputeData} {msg : Bytes} (h : d.chunkSize = 0)
    (hlen : msg.length < 2 ^ 32)
    : sha256Update d msg (UInt32.ofNat msg.length)
        =
      let d' := { d with dataSize := d.dataSize + (UInt32.ofNat msg.length).toUInt64 }
      .ok { d' with
        hcomps := (blocks d' msg msg.length).1.hcomps
        lastChunk := splice d.lastChunk 0 (msg.drop (msg.length - msg.length % 64))
        chunkSize := UInt8.ofNat (msg.length % 64) } := by
  obtain ⟨filled, ptr, size, hfill, hblocks⟩ := fillPending_init
    { d with dataSize := d.dataSize + (UInt32.ofNat msg.length).toUInt64 } msg
    (UInt32.ofNat msg.length) h
  rw [UInt32.toNat_ofNat_of_lt' hlen] at hblocks
  exact update_of_filled hfill hblocks h

def finalState (msg : Bytes) : Sha256ComputeData :=
  let init := sha256ComputeDataInit zeroBuff
  let tail := msg.drop (msg.length - msg.length % 64)
  finish {
    dataSize := init.dataSize + (UInt32.ofNat msg.length).toUInt64
    hcomps := (blocks init msg msg.length).1.hcomps
    lastChunk := tail ++ 0x80 :: List.replicate (64 - (tail.length + 1)) 0
    chunkSize := UInt8.ofNat (msg.length % 64) + 1 }

theorem hashWith_eq {data : Sha256ComputeData} {msg : Bytes}
    (hl : data.lastChunk.length = 64) (hlen : msg.length < 2 ^ 32)
    : hashWith data msg = .ok (sha256OutputHex (finalState msg), finalState msg) := by
  have hmod : msg.length % 64 < 64 := Nat.mod_lt _ (by omega)
  have htail : (msg.drop (msg.length - msg.length % 64)).length = msg.length % 64 := by
    rw [List.length_drop]
    omega
  have hsize : (UInt8.ofNat (msg.length % 64)).toNat = msg.length % 64 := by
    rw [UInt8.toNat_ofNat']
    omega
  have hinit : sha256ComputeDataInit data
      = { sha256ComputeDataInit zeroBuff with lastChunk := data.lastChunk } := rfl
  unfold hashWith
  dsimp only
  rw [update_init rfl hlen, hinit]
  dsimp only [bind, Except.bind]
  rw [finalize_splice (by omega) hl (by omega)]
  rw [blocks.hcomps_congr (sha256ComputeDataInit zeroBuff) (by rfl)]
  rfl

theorem hashWith_digest {data : Sha256ComputeData} {msg : Bytes}
    (hl : data.lastChunk.length = 64) (hlen : msg.length < 2 ^ 32)
    : hashWith data msg = .ok (digest msg, finalState msg) := by
  rw [digest, hashWith_eq hl hlen, hashWith_eq (by rfl) hlen]

theorem length_finalState (msg : Bytes)
    : (finalState msg).lastChunk.length = 64 ∧ (finalState msg).hcomps.length = 8 := by
  have hmod : msg.length % 64 < 64 := Nat.mod_lt _ (by omega)
  apply length_finish
  . simp only [List.length_append, List.length_cons, List.length_replicate, List.length_drop]
    omega
  . apply blocks.length_hcomps
    rfl

theorem length_sha256OutputHex {data : Sha256ComputeData} (h : data.hcomps.length = 8)
    : (sha256OutputHex data).length = 64 := by
  simp [sha256OutputHex, binToHex, sha256Output, List.length_flatMap, h]

theorem mem_lut_of_mem_binToHex {data : Bytes} {c : UInt8} (h : c ∈ binToHex data) : c ∈ lut := by
  simp only [binToHex, List.mem_flatMap, List.mem_cons, List.not_mem_nil, or_false] at h
  have hget : ∀ i < 16, lut.getD i 0 ∈ lut := by decide
  obtain ⟨b, _, hc | hc⟩ := h
  . rw [hc]
    apply hget
    have := b.toNat_lt
    rw [UInt8.toNat_shiftRight]
    simp only [UInt8.reduceToNat, Nat.reduceMod, Nat.shiftRight_eq_div_pow, Nat.reducePow]
    omega
  . rw [hc]
    apply hget
    rw [UInt8.toNat_and]
    exact Nat.lt_of_le_of_lt Nat.and_le_right (by decide)

theorem length_digest {msg : Bytes} (hlen : msg.length < 2 ^ 32) : (digest msg).length = 64 := by
  rw [digest, hashWith_eq (by rfl) hlen]
  exact length_sha256OutputHex (length_finalState msg).2

theorem mem_lut_of_mem_digest {msg : Bytes} {c : UInt8} (h : c ∈ digest msg) : c ∈ lut := by
  unfold digest at h
  split at h
  . next hex data hrun =>
    unfold hashWith at hrun
    simp only [bind, Except.bind, pure, Except.pure] at hrun
    split at hrun
    . contradiction
    . split at hrun
      . contradiction
      . simp only [Except.ok.injEq, Prod.mk.injEq] at hrun
        rw [← hrun.1] at h
        exact mem_lut_of_mem_binToHex h
  . simp at h

end Sha256
end Btide
