import Btide.Chk.ComputeHashes

/-!
This module contains packages whose chunks tile their data file.
-/

open Bytes CLib

namespace Btide

def TilesFrom (off : Nat) : List Chunk → Prop
  | [] => True
  | chunk :: chunks =>
    chunk.offset.toNat = off ∧ 0 < chunk.size.toNat ∧ TilesFrom (off + chunk.size.toNat) chunks

def totalSize (chunks : List Chunk) : Nat :=
  (chunks.map (·.size.toNat)).sum

def Chunk.complete (data : Bytes) (chunk : Chunk) : Bool :=
  chunk.offset.toNat + chunk.size.toNat ≤ data.length
    && Sha256.digest (slice data chunk.offset.toNat chunk.size.toNat) == chunk.hash

theorem Chunk.complete_iff {data : Bytes} {chunk : Chunk}
    : chunk.complete data = true
        ↔
      chunk.offset.toNat + chunk.size.toNat ≤ data.length
        ∧ Sha256.digest (slice data chunk.offset.toNat chunk.size.toNat) = chunk.hash := by
  simp [complete]

namespace TilesFrom

variable {off : Nat} {chunks : List Chunk}

theorem bounds (h : TilesFrom off chunks) {j : Nat} {chunk : Chunk} (hj : chunks[j]? = some chunk)
    : off ≤ chunk.offset.toNat
        ∧ 0 < chunk.size.toNat
        ∧ chunk.offset.toNat + chunk.size.toNat ≤ off + totalSize chunks := by
  induction chunks generalizing off j with
  | nil => simp at hj
  | cons first chunks ih =>
    obtain ⟨hoff, hpos, hrest⟩ := h
    unfold totalSize
    rw [List.map_cons, List.sum_cons]
    cases j with
    | zero =>
      rw [List.getElem?_cons_zero, Option.some.injEq] at hj
      rw [← hj]
      omega
    | succ j =>
      rw [List.getElem?_cons_succ] at hj
      have hbounds := ih hrest hj
      unfold totalSize at hbounds
      omega

theorem offset_eq (h : TilesFrom off chunks) {b j : Nat} {chunk : Chunk}
    (hsize : ∀ i < j, ∀ other, chunks[i]? = some other → other.size.toNat = b)
    (hj : chunks[j]? = some chunk)
    : chunk.offset.toNat = off + j * b := by
  induction chunks generalizing off j with
  | nil => simp at hj
  | cons first chunks ih =>
    obtain ⟨hoff, _, hrest⟩ := h
    cases j with
    | zero =>
      rw [List.getElem?_cons_zero, Option.some.injEq] at hj
      rw [← hj, hoff, Nat.zero_mul, Nat.add_zero]
    | succ j =>
      rw [List.getElem?_cons_succ] at hj
      have hfirst := hsize 0 (by omega) first rfl
      rw [ih hrest _ hj, hfirst, Nat.succ_mul]
      . omega
      . intro i hi other hother
        exact hsize (i + 1) (by omega) other hother

theorem end_le_offset (h : TilesFrom off chunks) {i j : Nat} {chunk other : Chunk} (hij : i < j)
    (hi : chunks[i]? = some chunk) (hj : chunks[j]? = some other)
    : chunk.offset.toNat + chunk.size.toNat ≤ other.offset.toNat := by
  induction chunks generalizing off i j with
  | nil => simp at hi
  | cons first chunks ih =>
    obtain ⟨hoff, _, hrest⟩ := h
    cases j with
    | zero => omega
    | succ j =>
      rw [List.getElem?_cons_succ] at hj
      cases i with
      | zero =>
        rw [List.getElem?_cons_zero, Option.some.injEq] at hi
        have hbounds := hrest.bounds hj
        rw [← hi]
        omega
      | succ i =>
        rw [List.getElem?_cons_succ] at hi
        exact ih hrest (by omega) hi hj

theorem eq_or_apart (h : TilesFrom off chunks) {chunk other : Chunk} (hchunk : chunk ∈ chunks)
    (hother : other ∈ chunks)
    : other = chunk
        ∨ other.offset.toNat + other.size.toNat ≤ chunk.offset.toNat
        ∨ chunk.offset.toNat + chunk.size.toNat ≤ other.offset.toNat := by
  obtain ⟨i, hi⟩ := List.getElem?_of_mem hchunk
  obtain ⟨j, hj⟩ := List.getElem?_of_mem hother
  rcases Nat.lt_trichotomy j i with hlt | heq | hgt
  . exact .inr (.inl (h.end_le_offset hlt hj hi))
  . rw [heq, hi, Option.some.injEq] at hj
    exact .inl hj.symm
  . exact .inr (.inr (h.end_le_offset hgt hi hj))

theorem congr {chunks' : List Chunk} (h : TilesFrom off chunks)
    (hranges : chunks.map (fun chunk => (chunk.offset, chunk.size))
      = chunks'.map (fun chunk => (chunk.offset, chunk.size)))
    : TilesFrom off chunks' := by
  induction chunks generalizing off chunks' with
  | nil =>
    cases chunks' with
    | nil => exact h
    | cons chunk' chunks' => simp at hranges
  | cons chunk chunks ih =>
    cases chunks' with
    | nil => simp at hranges
    | cons chunk' chunks' =>
      rw [List.map_cons, List.map_cons, List.cons.injEq, Prod.mk.injEq] at hranges
      obtain ⟨⟨hoff, hsize⟩, hrest⟩ := hranges
      unfold TilesFrom at h ⊢
      rw [← hoff, ← hsize]
      exact ⟨h.1, h.2.1, ih h.2.2 hrest⟩

end TilesFrom

theorem totalSize_eq {chunks : List Chunk} {b : Nat} (h : ∀ chunk ∈ chunks, chunk.size.toNat = b)
    : totalSize chunks = chunks.length * b := by
  unfold totalSize
  rw [List.map_congr_left h]
  simp

end Btide
