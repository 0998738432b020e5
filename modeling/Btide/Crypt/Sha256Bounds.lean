import Btide.Crypt.Sha256Lemmas
import Btide.Lib.Transition

/-!
This module contains the bounds of the block buffer of the streaming SHA-256, for updates with any sizes.
-/

open Bytes CLib

namespace Btide
namespace Sha256

structure UpdateCall where
  bytes : Bytes
  size : UInt32

def UpdateStep (data : Sha256ComputeData) (call : UpdateCall) (data' : Sha256ComputeData) : Prop :=
  sha256Update data call.bytes call.size = .ok data'

def SumFits (data : Sha256ComputeData) (call : UpdateCall) : Prop :=
  call.size.toNat + data.chunkSize.toNat < 2 ^ 32

structure InBlock (data : Sha256ComputeData) : Prop where
  le : data.chunkSize.toNat ≤ 63
  eq : data.chunkSize.toNat = data.dataSize.toNat % 64

theorem update_of_fillPending {data filled : Sha256ComputeData} {bytes ptr : Bytes} {n size : UInt32}
    (hfill : fillPending { data with dataSize := data.dataSize + n.toUInt64 } bytes n
      = .ok (filled, ptr, size))
    : sha256Update data bytes n
        =
      if filled.chunkSize.toNat + size.toNat % 64 ≤ 64 then
        .ok { filled with
          hcomps := (blocks filled ptr size.toNat).1.hcomps
          lastChunk := splice filled.lastChunk filled.chunkSize.toNat
            ((ptr.drop (size.toNat - size.toNat % 64)).take (size.toNat % 64))
          chunkSize := filled.chunkSize + UInt8.ofNat (size.toNat % 64) }
      else
        .error .outOfBounds := by
  unfold sha256Update
  dsimp only
  rw [hfill]
  dsimp only [bind, Except.bind]
  rw [blocks.frame filled ptr size.toNat]
  rfl

theorem toNat_chunkSize_add {c : UInt8} {n : Nat} (h : c.toNat + n ≤ 64)
    : (c + UInt8.ofNat n).toNat = c.toNat + n := by
  rw [UInt8.toNat_add, UInt8.toNat_ofNat']
  omega

theorem update_fits {data : Sha256ComputeData} {call : UpdateCall} (hle : data.chunkSize.toNat ≤ 63)
    (hfits : SumFits data call)
    : ∃ data',
        UpdateStep data call data'
          ∧ data'.dataSize = data.dataSize + call.size.toUInt64
          ∧ data'.chunkSize.toNat = (call.size.toNat + data.chunkSize.toNat) % 64 := by
  obtain ⟨bytes, size⟩ := call
  unfold SumFits at hfits
  unfold UpdateStep
  dsimp only at hfits ⊢
  have hsum : (size + data.chunkSize.toUInt32).toNat = size.toNat + data.chunkSize.toNat := by
    rw [UInt32.toNat_add, UInt8.toNat_toUInt32, Nat.mod_eq_of_lt hfits]
  by_cases hfull : 64 ≤ size.toNat + data.chunkSize.toNat
  . have hnat : (UInt32.ofNat (64 - data.chunkSize.toNat)).toNat = 64 - data.chunkSize.toNat := by
      rw [UInt32.toNat_ofNat']
      omega
    have hroom : (size - UInt32.ofNat (64 - data.chunkSize.toNat)).toNat
        = size.toNat + data.chunkSize.toNat - 64 := by
      rw [UInt32.toNat_sub_of_le, hnat]
      . omega
      . rw [UInt32.le_iff_toNat_le, hnat]
        omega
    have hfill : fillPending { data with dataSize := data.dataSize + size.toUInt64 } bytes size
        = .ok (sha256CalculateChunk
            { data with dataSize := data.dataSize + size.toUInt64, chunkSize := 0 }
            (data.lastChunk.take data.chunkSize.toNat ++ bytes.take (64 - data.chunkSize.toNat)),
          bytes.drop (64 - data.chunkSize.toNat), size - UInt32.ofNat (64 - data.chunkSize.toNat)) := by
      unfold fillPending
      rw [if_pos, if_pos]
      . rw [UInt8.le_iff_toNat_le]
        simp only [UInt8.reduceToNat]
        omega
      . rw [UInt32.le_iff_toNat_le, hsum]
        exact hfull
    rw [update_of_fillPending hfill, hroom, if_pos]
    . refine ⟨_, rfl, rfl, ?_⟩
      dsimp only [sha256CalculateChunk_chunkSize]
      rw [UInt8.zero_add, UInt8.toNat_ofNat']
      omega
    . rw [sha256CalculateChunk_chunkSize]
      simp only [UInt8.reduceToNat]
      omega
  . have hfill : fillPending { data with dataSize := data.dataSize + size.toUInt64 } bytes size
        = .ok ({ data with dataSize := data.dataSize + size.toUInt64 }, bytes, size) := by
      unfold fillPending
      rw [if_neg]
      rw [UInt32.le_iff_toNat_le, hsum]
      exact hfull
    rw [update_of_fillPending hfill, if_pos]
    . refine ⟨_, rfl, rfl, ?_⟩
      dsimp only
      rw [toNat_chunkSize_add (by omega)]
      omega
    . dsimp only
      omega

theorem update_wraps {data data' : Sha256ComputeData} {call : UpdateCall} (hle : data.chunkSize.toNat ≤ 63)
    (hwraps : ¬ SumFits data call) (hstep : UpdateStep data call data') : data'.chunkSize.toNat = 64 := by
  obtain ⟨bytes, size⟩ := call
  unfold SumFits at hwraps
  unfold UpdateStep at hstep
  dsimp only at hwraps hstep
  have hlt := size.toNat_lt
  have hfill : fillPending { data with dataSize := data.dataSize + size.toUInt64 } bytes size
      = .ok ({ data with dataSize := data.dataSize + size.toUInt64 }, bytes, size) := by
    unfold fillPending
    rw [if_neg]
    rw [UInt32.le_iff_toNat_le, UInt32.toNat_add, UInt8.toNat_toUInt32]
    simp only [UInt32.reduceToNat]
    omega
  rw [update_of_fillPending hfill] at hstep
  split at hstep
  . next hin =>
    rw [Except.ok.injEq] at hstep
    rw [← hstep]
    dsimp only at hin ⊢
    rw [toNat_chunkSize_add hin]
    omega
  . contradiction

theorem InBlock.init (data : Sha256ComputeData) : InBlock (sha256ComputeDataInit data) where
  le := Nat.zero_le 63
  eq := rfl

theorem InBlock.update {data : Sha256ComputeData} {call : UpdateCall} (h : InBlock data)
    (hfits : SumFits data call) : ∃ data', UpdateStep data call data' ∧ InBlock data' := by
  obtain ⟨data', hstep, hdata, hchunk⟩ := update_fits h.le hfits
  refine ⟨data', hstep, ?_, ?_⟩
  . rw [hchunk]
    omega
  . have heq := h.eq
    rw [hchunk, hdata, UInt64.toNat_add, UInt32.toNat_toUInt64]
    omega

theorem InBlock.finalize {data : Sha256ComputeData} (h : InBlock data)
    : ∃ data', sha256Finalize data = .ok data' := by
  have hle := h.le
  have hlt : ¬ 64 ≤ data.chunkSize := by
    rw [UInt8.le_iff_toNat_le]
    simp only [UInt8.reduceToNat]
    omega
  unfold sha256Finalize
  rw [if_neg hlt]
  exact ⟨_, rfl⟩

theorem stream_inBlock_iff {start data : Sha256ComputeData}
    (hrun : Run UpdateStep SumFits (sha256ComputeDataInit start) data)
    : InBlock data
        ∧ (∃ data', sha256Finalize data = .ok data')
        ∧ ∀ call, (∃ data', UpdateStep data call data' ∧ InBlock data') ↔ SumFits data call := by
  have hin : InBlock data := by
    apply hrun.invariant (InBlock.init start)
    intro s call s' hin hfits hstep
    obtain ⟨s'', hstep', hin'⟩ := hin.update hfits
    unfold UpdateStep at hstep hstep'
    rw [hstep, Except.ok.injEq] at hstep'
    rw [hstep']
    exact hin'
  refine ⟨hin, hin.finalize, ?_⟩
  intro call
  constructor
  . rintro ⟨data', hstep, hin'⟩
    by_contra hwraps
    have hfull := update_wraps hin.le hwraps hstep
    have hle := hin'.le
    omega
  . exact hin.update

theorem stream_inBlock_iff_two
    : ∃ data,
        UpdateStep (sha256ComputeDataInit zeroBuff) ⟨ascii "abc", 3⟩ data
          ∧ InBlock data
          ∧ ∃ data', UpdateStep data ⟨ascii "de", 2⟩ data' ∧ InBlock data' := by
  have hfits : SumFits (sha256ComputeDataInit zeroBuff) ⟨ascii "abc", 3⟩ := by
    unfold SumFits
    decide
  obtain ⟨data, hstep, -, hchunk⟩ := update_fits (InBlock.init zeroBuff).le hfits
  obtain ⟨hin, -, hiff⟩ := stream_inBlock_iff ((Run.refl _).tail hfits hstep)
  refine ⟨data, hstep, hin, (hiff _).mpr ?_⟩
  unfold SumFits
  rw [hchunk]
  decide

/--
Behind 40 pending bytes an update with `2 ^ 32 - 8` bytes completes no block and copies its last 56 bytes
across the end of the buffer.
-/
theorem stream_inBlock_fails
    : ¬ ∀ start data, Run UpdateStep (fun _ _ => True) (sha256ComputeDataInit start) data
          → InBlock data ∧ ∀ call, ∃ data', UpdateStep data call data' ∧ InBlock data' := by
  intro h
  have hfits : SumFits (sha256ComputeDataInit zeroBuff) ⟨List.replicate 40 0, 40⟩ := by
    unfold SumFits
    decide
  obtain ⟨data, hstep, -, hchunk⟩ := update_fits (InBlock.init zeroBuff).le hfits
  obtain ⟨hin, hnext⟩ := h zeroBuff data ((Run.refl _).tail trivial hstep)
  obtain ⟨data', hstep', hin'⟩ := hnext ⟨List.replicate 4294967288 0, 4294967288⟩
  have hwraps : ¬ SumFits data ⟨List.replicate 4294967288 0, 4294967288⟩ := by
    unfold SumFits
    rw [hchunk]
    decide
  have hfull := update_wraps hin.le hwraps hstep'
  have hle := hin'.le
  omega

end Sha256
end Btide
