import Mathlib.Data.List.TakeWhile

/-!
This module contains trimming over lists in general: the longest part of a list that neither begins
nor ends with an element that is to be trimmed.
-/

namespace Trim

variable {α : Type} {p : α → Bool} {s : List α}

/--
The `n` elements of `s` from position `i` on neither begin nor end with an element of `p`.
-/
structure Solid (p : α → Bool) (s : List α) (i n : Nat) : Prop where
  pos : 0 < n
  inside : i + n ≤ s.length
  first : ∀ a, s[i]? = some a → p a = false
  last : ∀ a, s[i + n - 1]? = some a → p a = false

structure Longest (p : α → Bool) (s : List α) (i n : Nat) : Prop extends Solid p s i n where
  contains : ∀ j m, Solid p s j m → i ≤ j ∧ j + m ≤ i + n

structure Parts (p : α → Bool) (s front word back : List α) : Prop where
  eq : s = front ++ (word ++ back)
  front : ∀ a ∈ front, p a = true
  back : ∀ a ∈ back, p a = true
  ne : word ≠ []
  head : ∀ a, word.head? = some a → p a = false
  last : ∀ a, word.getLast? = some a → p a = false

inductive Split (p : α → Bool) (s : List α) : Prop where
  | blank (hblank : ∀ a ∈ s, p a = true)
  | word (front word back : List α) (hs : Parts p s front word back)

theorem split (p : α → Bool) (s : List α) : Split p s := by
  have hs := List.takeWhile_append_dropWhile (p := p) (l := s)
  have hfront : ∀ a ∈ s.takeWhile p, p a = true := fun a ha => List.mem_takeWhile_imp ha
  have hhead := List.head?_dropWhile_not p s
  generalize s.takeWhile p = front at hs hfront
  generalize s.dropWhile p = rest at hs hhead
  have hrest := List.takeWhile_append_dropWhile (p := p) (l := rest.reverse)
  have hback : ∀ a ∈ rest.reverse.takeWhile p, p a = true := fun a ha => List.mem_takeWhile_imp ha
  have hlast := List.head?_dropWhile_not p rest.reverse
  generalize rest.reverse.takeWhile p = back at hrest hback
  generalize rest.reverse.dropWhile p = word at hrest hlast
  have hrest : rest = word.reverse ++ back.reverse := by
    rw [← List.reverse_append, hrest, List.reverse_reverse]
  cases word with
  | nil =>
    apply Split.blank
    intro a ha
    rw [← hs, hrest, List.mem_append] at ha
    cases ha with
    | inl h => exact hfront a h
    | inr h => exact hback a (by simpa using h)
  | cons d word =>
    refine Split.word front (d :: word).reverse back.reverse ⟨?_, hfront, ?_, by simp, ?_, ?_⟩
    . rw [← hs, hrest]
    . intro a ha
      exact hback a (by simpa using ha)
    . intro a ha
      rw [hrest, List.head?_append, ha] at hhead
      simpa using hhead
    . intro a ha
      rw [List.getLast?_reverse, List.head?_cons, Option.some.injEq] at ha
      rw [← ha]
      simpa using hlast

namespace Parts

variable {front word back : List α}

theorem length_pos (h : Parts p s front word back) : 0 < word.length :=
  List.length_pos_iff.mpr h.ne

theorem length_eq (h : Parts p s front word back)
    : s.length = front.length + word.length + back.length := by
  rw [h.eq, List.length_append, List.length_append]
  omega

theorem self (h : Parts p s front word back) : Parts p word [] word [] :=
  ⟨by simp, by simp, by simp, h.ne, h.head, h.last⟩

theorem dropWhile_eq (h : Parts p s front word back) : s.dropWhile p = word ++ back := by
  rw [h.eq, List.dropWhile_append_of_pos h.front]
  cases word with
  | nil => exact absurd rfl h.ne
  | cons a word => simp [h.head a rfl]

theorem takeWhile_eq (h : Parts p s front word back) : s.takeWhile p = front := by
  rw [h.eq, List.takeWhile_append_of_pos h.front]
  cases word with
  | nil => exact absurd rfl h.ne
  | cons a word => simp [h.head a rfl]

theorem longest (h : Parts p s front word back) : Longest p s front.length word.length := by
  have hpos := h.length_pos
  have hlen := h.length_eq
  refine ⟨⟨hpos, by omega, ?_, ?_⟩, ?_⟩
  . intro a ha
    apply h.head
    rw [h.eq, List.getElem?_append_right (Nat.le_refl _), Nat.sub_self, List.getElem?_append_left hpos] at ha
    rw [List.head?_eq_getElem?]
    exact ha
  . intro a ha
    apply h.last
    rw [h.eq, List.getElem?_append_right (by omega), List.getElem?_append_left (by omega)] at ha
    rw [List.getLast?_eq_getElem?, ← ha]
    congr 1
    omega
  . intro j m hsolid
    have hm := hsolid.pos
    have hinside := hsolid.inside
    constructor
    -- a part that begins in front of the word begins with an element of `p`
    . apply Nat.le_of_not_lt
      intro hlt
      have hfirst := hsolid.first front[j]
      rw [h.eq, List.getElem?_append_left hlt, List.getElem?_eq_getElem hlt] at hfirst
      exact absurd (hfirst rfl) (by simp [h.front])
    . apply Nat.le_of_not_lt
      intro hlt
      have hend : j + m - 1 - front.length - word.length < back.length := by omega
      have hstop := hsolid.last back[j + m - 1 - front.length - word.length]
      rw [h.eq, List.getElem?_append_right (by omega), List.getElem?_append_right (by omega),
        List.getElem?_eq_getElem hend] at hstop
      exact absurd (hstop rfl) (by simp [h.back])

end Parts

end Trim
