import Mathlib.Algebra.Group.Nat.Defs
import Mathlib.Tactic.Common

/-!
This module contains the index arithmetic of complete binary trees in heap order: the children of
index `i` are `2 * i + 1` and `2 * i + 2`.
-/

namespace HeapTree

inductive Under (i : Nat) : Nat → Prop where
  | refl : Under i i
  | left (h : Under i j) : Under i (2 * j + 1)
  | right (h : Under i j) : Under i (2 * j + 2)

namespace Under

theorem le (h : Under i j) : i ≤ j := by
  induction h with
  | refl => exact Nat.le_refl i
  | left _ ih => omega
  | right _ ih => omega

theorem trans (hij : Under i j) (hjk : Under j k) : Under i k := by
  induction hjk with
  | refl => exact hij
  | left _ ih => exact ih.left
  | right _ ih => exact ih.right

theorem eq_or_parent (h : Under i j) : i = j ∨ (0 < j ∧ Under i ((j - 1) / 2)) := by
  cases h with
  | refl => exact .inl rfl
  | @left k h =>
    have : (2 * k + 1 - 1) / 2 = k := by omega
    rw [this]
    exact .inr ⟨by omega, h⟩
  | @right k h =>
    have : (2 * k + 2 - 1) / 2 = k := by omega
    rw [this]
    exact .inr ⟨by omega, h⟩

theorem of_parent (hj : 0 < j) (h : Under i ((j - 1) / 2)) : Under i j := by
  rcases Nat.mod_two_eq_zero_or_one j with heven | hodd
  . have : j = 2 * ((j - 1) / 2) + 2 := by omega
    rw [this]
    exact h.right
  . have : j = 2 * ((j - 1) / 2) + 1 := by omega
    rw [this]
    exact h.left

theorem zero (j : Nat) : Under 0 j := by
  induction j using Nat.strongRecOn with
  | ind j ih =>
    cases Nat.eq_zero_or_pos j with
    | inl h =>
      rw [h]
      exact .refl
    | inr h =>
      apply of_parent h
      apply ih
      omega

theorem left_child : Under i (2 * i + 1) := Under.refl.left

theorem right_child : Under i (2 * i + 2) := Under.refl.right

theorem comparable (ha : Under a j) (hb : Under b j) : Under a b ∨ Under b a := by
  induction ha with
  | refl => exact .inr hb
  | @left k _ ih =>
    rcases hb.eq_or_parent with heq | ⟨_, hb⟩
    . rw [heq]
      exact .inl (Under.left ‹_›)
    . have : (2 * k + 1 - 1) / 2 = k := by omega
      rw [this] at hb
      exact ih hb
  | @right k _ ih =>
    rcases hb.eq_or_parent with heq | ⟨_, hb⟩
    . rw [heq]
      exact .inl (Under.right ‹_›)
    . have : (2 * k + 2 - 1) / 2 = k := by omega
      rw [this] at hb
      exact ih hb

theorem disjoint (hl : Under (2 * i + 1) j) (hr : Under (2 * i + 2) j) : False := by
  rcases hl.comparable hr with h | h
  . rcases h.eq_or_parent with heq | ⟨_, h⟩
    . omega
    . have := h.le
      omega
  . have := h.le
    omega

theorem iff_child : Under i j ↔ j = i ∨ Under (2 * i + 1) j ∨ Under (2 * i + 2) j := by
  constructor
  . intro h
    induction h with
    | refl => exact .inl rfl
    | left _ ih =>
      rcases ih with heq | h | h
      . rw [heq]
        exact .inr (.inl .refl)
      . exact .inr (.inl h.left)
      . exact .inr (.inr h.left)
    | right _ ih =>
      rcases ih with heq | h | h
      . rw [heq]
        exact .inr (.inr .refl)
      . exact .inr (.inl h.right)
      . exact .inr (.inr h.right)
  . intro h
    rcases h with heq | h | h
    . rw [heq]
      exact .refl
    . exact left_child.trans h
    . exact right_child.trans h

theorem eq_of_le (h : Under i j) (hj : j ≤ 2 * i) : j = i := by
  rcases iff_child.mp h with heq | h | h
  . exact heq
  . have := h.le
    omega
  . have := h.le
    omega

end Under

def level (m i d : Nat) : List Nat :=
  List.range' ((i + 1) * 2 ^ d - 1) (min (2 ^ d) (m + 1 - (i + 1) * 2 ^ d))

theorem level_zero (h : i < m) : level m i 0 = [i] := by
  have hmin : min (2 ^ 0) (m + 1 - (i + 1) * 2 ^ 0) = 1 := by omega
  rw [level, hmin, Nat.pow_zero, Nat.mul_one]
  rfl

theorem level_of_le (h : m ≤ 2 * i + 1) (d : Nat) : level m i (d + 1) = [] := by
  have hpos : 0 < 2 ^ d := Nat.two_pow_pos d
  have hmul : (i + 1) * 2 ^ (d + 1) = 2 * ((i + 1) * 2 ^ d) := by
    rw [Nat.pow_succ', Nat.mul_left_comm]
  have hle : i + 1 ≤ (i + 1) * 2 ^ d := Nat.le_mul_of_pos_right _ hpos
  have hzero : min (2 ^ (d + 1)) (m + 1 - (i + 1) * 2 ^ (d + 1)) = 0 := by omega
  rw [level, hzero]
  rfl

-- the right part is empty unless the left one is full
theorem level_succ (m i d : Nat) : level m i (d + 1) = level m (2 * i + 1) d ++ level m (2 * i + 2) d := by
  have hpos : 0 < 2 ^ d := Nat.two_pow_pos d
  have hpow : 2 ^ (d + 1) = 2 ^ d + 2 ^ d := by omega
  have hleft : (2 * i + 1 + 1) * 2 ^ d = (i + 1) * 2 ^ (d + 1) := by
    have hdouble : 2 * i + 1 + 1 = (i + 1) * 2 := by omega
    rw [Nat.pow_succ', hdouble, Nat.mul_assoc]
  have hright : (2 * i + 2 + 1) * 2 ^ d = (i + 1) * 2 ^ (d + 1) + 2 ^ d := by
    rw [← hleft, ← Nat.succ_mul]
  have hle : 0 < (i + 1) * 2 ^ (d + 1) := Nat.mul_pos (Nat.succ_pos i) (Nat.two_pow_pos _)
  unfold level
  rw [hleft, hright]
  generalize (i + 1) * 2 ^ (d + 1) = start at hle
  rw [hpow]
  generalize 2 ^ d = width at hpos
  by_cases hfull : start + width ≤ m + 1
  . have hwhole : min width (m + 1 - start) = width := by omega
    have hstart : start + width - 1 = start - 1 + width := by omega
    have hlen : min (width + width) (m + 1 - start) = width + min width (m + 1 - (start + width)) := by omega
    rw [hwhole, hstart, hlen, List.range'_append_1]
  . have hnone : min width (m + 1 - (start + width)) = 0 := by omega
    have hlen : min (width + width) (m + 1 - start) = min width (m + 1 - start) := by omega
    rw [hnone, hlen, List.range'_zero, List.append_nil]

theorem flatMap_level (m h : Nat) : (List.range h).flatMap (level m 0) = List.range (min (2 ^ h - 1) m) := by
  induction h with
  | zero =>
    rw [Nat.pow_zero, Nat.sub_self, Nat.zero_min]
    rfl
  | succ h ih =>
    have hpos : 0 < 2 ^ h := Nat.two_pow_pos h
    have hpow : 2 ^ (h + 1) = 2 ^ h + 2 ^ h := by omega
    rw [List.range_succ, List.flatMap_append, List.flatMap_singleton, ih, level, Nat.zero_add, Nat.one_mul,
      hpow, List.range_eq_range', List.range_eq_range']
    generalize 2 ^ h = width at hpos
    by_cases hfull : width - 1 ≤ m
    . have hstart : min (width - 1) m = width - 1 := by omega
      have hlen : min (width + width - 1) m = width - 1 + min width (m + 1 - width) := by omega
      have happend := @List.range'_append_1 0 (width - 1) (min width (m + 1 - width))
      rw [Nat.zero_add] at happend
      rw [hstart, hlen, happend]
    . have hnone : min width (m + 1 - width) = 0 := by omega
      have hall : min (width - 1) m = m := by omega
      have hall' : min (width + width - 1) m = m := by omega
      rw [hnone, hall, hall', List.range'_zero, List.append_nil]

end HeapTree
