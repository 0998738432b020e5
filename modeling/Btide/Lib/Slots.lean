import Mathlib.Data.List.Perm.Basic
import Mathlib.Data.List.ReduceOption

/-!
This module contains arrays with slots that are empty or hold something.
-/

namespace Slots

variable {slots : List (Option α)} {i : Nat} {a : α}

theorem reduceOption_split (hi : i < slots.length)
    : slots.reduceOption
        =
      (slots.take i).reduceOption ++ (slots[i].toList ++ (slots.drop (i + 1)).reduceOption) := by
  conv => lhs; rw [← List.take_append_drop i slots, List.drop_eq_getElem_cons hi]
  rw [List.reduceOption_append]
  cases slots[i] with
  | none => rw [List.reduceOption_cons_of_none, Option.toList_none, List.nil_append]
  | some a => rw [List.reduceOption_cons_of_some, Option.toList_some, List.singleton_append]

theorem reduceOption_set (hi : i < slots.length) (entry : Option α)
    : (slots.set i entry).reduceOption
        =
      (slots.take i).reduceOption ++ (entry.toList ++ (slots.drop (i + 1)).reduceOption) := by
  have hset : i < (slots.set i entry).length := by
    rw [List.length_set]
    exact hi
  rw [reduceOption_split hset, List.getElem_set_self, List.take_set_of_le (Nat.le_refl i),
    List.drop_set_of_lt (Nat.lt_succ_self i)]

theorem fill (h : slots[i]? = some none)
    : (slots.set i (some a)).reduceOption.Perm (a :: slots.reduceOption) := by
  rw [List.getElem?_eq_some_iff] at h
  obtain ⟨hi, hslot⟩ := h
  rw [reduceOption_set hi, reduceOption_split hi, hslot]
  apply List.perm_middle

theorem clear (h : slots[i]? = some (some a))
    : slots.reduceOption.Perm (a :: (slots.set i none).reduceOption) := by
  rw [List.getElem?_eq_some_iff] at h
  obtain ⟨hi, hslot⟩ := h
  rw [reduceOption_set hi, reduceOption_split hi, hslot]
  apply List.perm_middle

theorem index_unique {j : Nat} (hnodup : slots.reduceOption.Nodup) (hi : slots[i]? = some (some a))
    (hj : slots[j]? = some (some a)) : i = j := by
  by_contra hne
  rw [(clear hi).nodup_iff, List.nodup_cons, List.reduceOption_mem_iff] at hnodup
  apply hnodup.1
  apply List.mem_of_getElem? (i := j)
  rw [List.getElem?_set_ne hne, hj]

theorem length_of_full (h : slots.findIdx? Option.isNone = none)
    : slots.reduceOption.length = slots.length := by
  rw [List.reduceOption_length_eq_iff]
  intro entry hentry
  rw [List.findIdx?_eq_none_iff] at h
  have hsome := h entry hentry
  cases entry with
  | none => simp at hsome
  | some a => rfl

theorem free_of_findIdx? (h : slots.findIdx? Option.isNone = some i) : slots[i]? = some none := by
  rw [List.findIdx?_eq_some_iff_getElem] at h
  obtain ⟨hi, hnone, -⟩ := h
  rw [List.getElem?_eq_getElem hi]
  simpa using hnone

theorem grow (n : Nat) : (slots ++ List.replicate n none).reduceOption = slots.reduceOption := by
  rw [List.reduceOption_append, List.reduceOption_replicate_none, List.append_nil]

theorem count_eq_one [DecidableEq α] (h : slots.reduceOption.Nodup) (ha : some a ∈ slots)
    : slots.count (some a) = 1 := by
  induction slots with
  | nil => simp at ha
  | cons entry slots ih =>
    cases entry with
    | none =>
      rw [List.reduceOption_cons_of_none] at h
      simp only [List.mem_cons, reduceCtorEq, false_or] at ha
      rw [List.count_cons_of_ne (by simp)]
      apply ih h ha
    | some b =>
      rw [List.reduceOption_cons_of_some, List.nodup_cons] at h
      by_cases hb : b = a
      . subst hb
        rw [List.count_cons_self, List.count_eq_zero.mpr]
        rw [← List.reduceOption_mem_iff]
        exact h.1
      . simp only [List.mem_cons, Option.some.injEq] at ha
        rw [List.count_cons_of_ne (by simpa using hb)]
        apply ih h.2
        obtain rfl | ha := ha
        . exact absurd rfl hb
        . exact ha

theorem forall_lt_cons {p : α → Prop} {entry : Option α} {n : Nat}
    (hentry : ∀ other, entry = some other → p other)
    (h : ∀ i < n, ∀ other, slots[i]? = some (some other) → p other)
    : ∀ i < n + 1, ∀ other, (entry :: slots)[i]? = some (some other) → p other := by
  intro i hi other hother
  cases i with
  | zero =>
    rw [List.getElem?_cons_zero, Option.some.injEq] at hother
    exact hentry other hother
  | succ i =>
    rw [List.getElem?_cons_succ] at hother
    exact h i (by omega) other hother

end Slots
