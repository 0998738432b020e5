import Btide.Lib.CString

/-!
This module contains the string helpers of `src/chk/helpers.c`.
-/

open CLib

namespace Btide

def isAnySpace (word : UInt8) : Bool :=
  isspace word || word == newline || word == 0

namespace stripWhitespace

/--
The backward loop: the index at which `end_ptr` stops when it starts at index `i`. Index
`word.length` is the terminator. Below index `0` the loop would leave the string.
-/
def stripEnd (word : Bytes) : Nat → Except Fault Nat
  | 0 => if isAnySpace (word.getD 0 0) then .error .outOfBounds else .ok 0
  | i + 1 => if isAnySpace (word.getD (i + 1) 0) then stripEnd word i else .ok (i + 1)

end stripWhitespace

open stripWhitespace in
def stripWhitespace (word : Option Bytes) : Except Fault (Option Bytes) :=
  match word with
  | none => .ok none
  | some word =>
    let word := word.dropWhile isspace
    if word = [] then
      .ok (some [])
    else
      match stripEnd word word.length with
      | .ok i => .ok (some (word.take (i + 1)))
      | .error e => .error e

def isAnInt (str : Option Bytes) : Except Fault Bool :=
  match str with
  | none => .error .nullPointer
  | some [] => .ok false
  | some str => .ok (str.all isdigit)

def trim (s : Bytes) : Bytes :=
  ((s.dropWhile isspace).reverse.dropWhile isAnySpace).reverse

theorem isAnySpace_of_isspace {c : UInt8} (h : isspace c = true) : isAnySpace c = true := by
  simp [isAnySpace, h]

theorem isAnySpace_eq_isspace {c : UInt8} (h : c ≠ 0) : isAnySpace c = isspace c := by
  have hzero : (c == 0) = false := by simpa using h
  unfold isAnySpace
  rw [hzero, Bool.or_false]
  by_cases hn : c = newline
  . rw [hn]
    rfl
  . have : (c == newline) = false := by simpa using hn
    rw [this, Bool.or_false]

theorem isAnInt_some (s : Bytes) : ∃ b, isAnInt (some s) = .ok b := by
  cases s with
  | nil => exact ⟨false, rfl⟩
  | cons c s => exact ⟨(c :: s).all isdigit, rfl⟩

theorem isdigit_of_isAnInt {s : Bytes} (h : isAnInt (some s) = .ok true) : ∀ c ∈ s, isdigit c = true := by
  cases s with
  | nil => simp
  | cons c s =>
    simp only [isAnInt, Except.ok.injEq] at h
    exact List.all_eq_true.mp h

theorem unless_isAnInt_eq_ok {value : Option Bytes} {a b : α} {f : Except Fault α}
    : (do
        if !(← isAnInt value) then
          return a
        f) = .ok b
        ↔
      (isAnInt value = .ok false ∧ a = b) ∨ (isAnInt value = .ok true ∧ f = .ok b) := by
  rw [bind_eq_ok]
  constructor
  . rintro ⟨valid, hint, h⟩
    cases valid with
    | false => exact .inl ⟨hint, pure_eq_ok.mp h⟩
    | true => exact .inr ⟨hint, h⟩
  . intro h
    cases h with
    | inl h => exact ⟨false, h.1, pure_eq_ok.mpr h.2⟩
    | inr h => exact ⟨true, h.1, h.2⟩

namespace stripWhitespace

theorem stripEnd_spec {c : UInt8} (hc : isAnySpace c = false) (word : Bytes) (i : Nat)
    : ∃ j,
        stripEnd (c :: word) i = .ok j
          ∧ j ≤ i
          ∧ (c :: word).take (j + 1)
              =
            (((c :: word).take (i + 1)).reverse.dropWhile isAnySpace).reverse := by
  induction i with
  | zero =>
    refine ⟨0, ?_, Nat.le_refl 0, ?_⟩
    . simp [stripEnd, hc]
    . simp [hc]
  | succ i ih =>
    simp only [stripEnd]
    split
    . next hspace =>
      obtain ⟨j, hj, hle, htake⟩ := ih
      refine ⟨j, hj, by omega, ?_⟩
      rw [htake, List.take_add_one (i := i + 1)]
      congr 1
      cases hget : (c :: word)[i + 1]? with
      | none => simp
      | some d =>
        rw [List.getD_eq_getElem?_getD, hget] at hspace
        have hd : isAnySpace d = true := hspace
        simp [hd]
    . next hspace =>
      refine ⟨i + 1, rfl, Nat.le_refl _, ?_⟩
      rw [List.take_add_one (i := i + 1)]
      cases hget : (c :: word)[i + 1]? with
      | none =>
        rw [List.getD_eq_getElem?_getD, hget] at hspace
        have : isAnySpace 0 = true := rfl
        contradiction
      | some d =>
        rw [List.getD_eq_getElem?_getD, hget] at hspace
        have hd : isAnySpace d = false := by simpa using hspace
        simp [hd]

end stripWhitespace

theorem mem_of_mem_trim {s : Bytes} {c : UInt8} (h : c ∈ trim s) : c ∈ s := by
  unfold trim at h
  rw [List.mem_reverse] at h
  have h := (List.dropWhile_suffix isAnySpace).subset h
  rw [List.mem_reverse] at h
  exact (List.dropWhile_suffix isspace).subset h

theorem stripWhitespace_eq_trim {s : Bytes} (hs : ∀ c ∈ s, c ≠ 0)
    : stripWhitespace (some s) = .ok (some (trim s)) := by
  unfold stripWhitespace
  dsimp only
  split
  . next hempty => simp [trim, hempty]
  . next hne =>
    cases hdrop : s.dropWhile isspace with
    | nil => contradiction
    | cons c word =>
      have hmem : c ∈ s := by
        apply (List.dropWhile_suffix isspace).subset
        simp [hdrop]
      have hc : isAnySpace c = false := by
        rw [isAnySpace_eq_isspace (hs c hmem)]
        have := List.head?_dropWhile_not isspace s
        simpa [hdrop] using this
      obtain ⟨j, hj, _, htake⟩ := stripWhitespace.stripEnd_spec hc word (c :: word).length
      rw [hj]
      dsimp only
      rw [htake, trim, hdrop, List.take_of_length_le (by omega)]

theorem stripWhitespace.stripEnd_cases {word : Bytes} {i j : Nat} (h : stripEnd word i = .ok j)
    : isAnySpace (word.getD j 0) = false := by
  induction i with
  | zero =>
    rw [stripEnd] at h
    split at h
    . simp at h
    . next hspace =>
      rw [Except.ok.injEq] at h
      rw [← h]
      exact Bool.eq_false_iff.mpr hspace
  | succ i ih =>
    rw [stripEnd] at h
    split at h
    . exact ih h
    . next hspace =>
      rw [Except.ok.injEq] at h
      rw [← h]
      exact Bool.eq_false_iff.mpr hspace

open stripWhitespace in
theorem stripWhitespace_idem {s t : Option Bytes} (h : stripWhitespace s = .ok t)
    : stripWhitespace t = .ok t := by
  cases s with
  | none =>
    rw [stripWhitespace, Except.ok.injEq] at h
    rw [← h]
    rfl
  | some s =>
    rw [stripWhitespace] at h
    split at h
    . rw [Except.ok.injEq] at h
      rw [← h]
      rfl
    . next hne =>
      split at h
      . next i hend =>
        rw [Except.ok.injEq] at h
        rw [← h]
        -- the character at which the backward loop stops is in the string
        have hstop := stripWhitespace.stripEnd_cases hend
        cases hword : s.dropWhile isspace with
        | nil => exact absurd hword hne
        | cons c word =>
          rw [hword] at hstop
          have hi : i < (c :: word).length := by
            apply Nat.lt_of_not_le
            intro hle
            rw [List.getD_eq_getElem?_getD, List.getElem?_eq_none hle] at hstop
            exact absurd hstop (by decide)
          have hlen : ((c :: word).take (i + 1)).length = i + 1 := by
            rw [List.length_take]
            omega
          have hc : isspace c = false := by
            have := List.head?_dropWhile_not isspace s
            simpa [hword] using this
          have hdrop : ((c :: word).take (i + 1)).dropWhile isspace = (c :: word).take (i + 1) := by
            simp [hc]
          have hlast : ((c :: word).take (i + 1)).getD i 0 = (c :: word).getD i 0 := by
            rw [List.getD_eq_getElem?_getD, List.getD_eq_getElem?_getD, List.getElem?_take_of_lt]
            omega
          have hterminator : ((c :: word).take (i + 1)).getD (i + 1) 0 = 0 := by
            rw [List.getD_eq_getElem?_getD, List.getElem?_eq_none (Nat.le_of_eq hlen)]
            rfl
          have hagain : stripEnd ((c :: word).take (i + 1)) (i + 1) = .ok i := by
            have hzero : isAnySpace 0 = true := rfl
            rw [stripEnd, hterminator, if_pos hzero]
            cases i with
            | zero =>
              rw [stripEnd, hlast, hstop]
              rfl
            | succ i =>
              rw [stripEnd, hlast, hstop]
              rfl
          rw [stripWhitespace, hdrop, if_neg (by simp), hlen, hagain]
          dsimp only
          rw [List.take_take, Nat.min_self]
      . simp at h

@[simp]
theorem stripWhitespace_none : stripWhitespace none = .ok none := rfl

theorem trim_pad {front s back : Bytes} (hfront : ∀ c ∈ front, isspace c = true)
    (hback : ∀ c ∈ back, isspace c = true) (hhead : ∀ c, s.head? = some c → isspace c = false)
    (hlast : ∀ c, s.getLast? = some c → isAnySpace c = false) (hs : s ≠ [])
    : trim (front ++ s ++ back) = s := by
  have hdrop : (front ++ s ++ back).dropWhile isspace = s ++ back := by
    rw [List.append_assoc, List.dropWhile_append_of_pos hfront]
    cases s with
    | nil => exact absurd rfl hs
    | cons c s => simp [hhead c rfl]
  have hrev : s.reverse.dropWhile isAnySpace = s.reverse := by
    cases hr : s.reverse with
    | nil => rfl
    | cons c r =>
      have : s.getLast? = some c := by simp [List.getLast?_eq_head?_reverse, hr]
      simp [hlast c this]
  unfold trim
  rw [hdrop, List.reverse_append, List.dropWhile_append_of_pos, hrev, List.reverse_reverse]
  intro c hc
  rw [List.mem_reverse] at hc
  exact isAnySpace_of_isspace (hback c hc)

theorem trim_prefix_dropWhile (s : Bytes) : trim s <+: s.dropWhile isspace := by
  unfold trim
  have h := List.dropWhile_suffix isAnySpace (l := (s.dropWhile isspace).reverse)
  rw [← List.reverse_prefix, List.reverse_reverse] at h
  exact h

theorem trim_eq_nil_iff {s : Bytes} (hs : ∀ c ∈ s, c ≠ 0) : trim s = [] ↔ s.dropWhile isspace = [] := by
  constructor
  . intro h
    cases hword : s.dropWhile isspace with
    | nil => rfl
    | cons c word =>
      have hmem : c ∈ s := by
        apply (List.dropWhile_suffix isspace).subset
        simp [hword]
      have hc := List.head?_dropWhile_not isspace s
      rw [hword, List.head?_cons] at hc
      unfold trim at h
      rw [hword, List.reverse_eq_nil_iff, List.dropWhile_eq_nil_iff] at h
      have hspace := h c (by simp)
      rw [isAnySpace_eq_isspace (hs c hmem)] at hspace
      simp [hspace] at hc
  . intro h
    simp [trim, h]

theorem trim_head {s : Bytes} {c : UInt8} (h : (trim s).head? = some c) : isspace c = false := by
  obtain ⟨back, hback⟩ := trim_prefix_dropWhile s
  have hc := List.head?_dropWhile_not isspace s
  rw [← hback, List.head?_append, h] at hc
  simpa using hc

theorem dropWhile_dropWhile {p : UInt8 → Bool} (s : Bytes) : (s.dropWhile p).dropWhile p = s.dropWhile p := by
  have hhead := List.head?_dropWhile_not p s
  cases h : s.dropWhile p with
  | nil => rfl
  | cons c word =>
    rw [h, List.head?_cons] at hhead
    apply List.dropWhile_cons_of_neg
    simpa using hhead

theorem trim_trim (s : Bytes) : trim (trim s) = trim s := by
  have hfront : (trim s).dropWhile isspace = trim s := by
    cases h : trim s with
    | nil => rfl
    | cons c word =>
      have hhead : (trim s).head? = some c := by
        rw [h, List.head?_cons]
      apply List.dropWhile_cons_of_neg
      simp [trim_head hhead]
  have hback : (trim s).reverse = (s.dropWhile isspace).reverse.dropWhile isAnySpace := by
    rw [trim, List.reverse_reverse]
  conv => lhs; rw [trim]
  rw [hfront, hback, dropWhile_dropWhile, ← hback, List.reverse_reverse]

theorem length_takeWhile_trim_le (s : Bytes) : (s.takeWhile isspace).length + (trim s).length ≤ s.length := by
  have hle := (trim_prefix_dropWhile s).length_le
  have hlen := congrArg List.length (List.takeWhile_append_dropWhile (p := isspace) (l := s))
  rw [List.length_append] at hlen
  omega

theorem length_trim_eq_iff {s : Bytes} (hs : ∀ c ∈ s, c ≠ 0) (hne : trim s ≠ [])
    : (s.takeWhile isspace).length + (trim s).length = s.length
        ↔ ∃ c, s.getLast? = some c ∧ isspace c = false := by
  have hword : s.dropWhile isspace ≠ [] := fun h => hne ((trim_eq_nil_iff hs).mpr h)
  have hsplit := List.takeWhile_append_dropWhile (p := isspace) (l := s)
  have hlen := congrArg List.length hsplit
  have hlast := congrArg List.getLast? hsplit
  have htrim : trim s = ((s.dropWhile isspace).reverse.dropWhile isAnySpace).reverse := rfl
  rw [List.length_append] at hlen
  rw [List.getLast?_append] at hlast
  generalize hback : s.dropWhile isspace = word at *
  have hsub : ∀ c ∈ word, c ≠ 0 := by
    intro c hc
    apply hs c
    apply (List.dropWhile_suffix isspace).subset
    rw [hback]
    exact hc
  rw [htrim, List.length_reverse, ← hlast, List.getLast?_eq_head?_reverse]
  cases hrev : word.reverse with
  | nil => exact absurd (List.reverse_eq_nil_iff.mp hrev) hword
  | cons c back =>
    have hlenRev := congrArg List.length hrev
    have hc : isAnySpace c = isspace c := by
      apply isAnySpace_eq_isspace
      apply hsub
      rw [← List.mem_reverse, hrev]
      simp
    rw [List.length_reverse, List.length_cons] at hlenRev
    rw [List.dropWhile_cons, hc]
    split
    . next hspace =>
      have hle := (List.dropWhile_suffix isAnySpace (l := back)).length_le
      constructor
      . intro h
        omega
      . rintro ⟨d, hd, hfalse⟩
        simp only [List.head?_cons, Option.some_or, Option.some.injEq] at hd
        rw [← hd, hspace] at hfalse
        exact absurd hfalse (by decide)
    . next hspace =>
      constructor
      . intro _
        refine ⟨c, rfl, ?_⟩
        simpa using hspace
      . intro _
        rw [List.length_cons]
        omega

theorem stripWhitespace.stripEnd_trim {s : Bytes} (hs : ∀ c ∈ s, c ≠ 0) (hne : s.dropWhile isspace ≠ [])
    : ∃ i,
        stripEnd (s.dropWhile isspace) (s.dropWhile isspace).length = .ok i
          ∧ i + 1 = (trim s).length := by
  have h := stripWhitespace_eq_trim hs
  unfold stripWhitespace at h
  dsimp only at h
  rw [if_neg hne] at h
  cases hend : stripEnd (s.dropWhile isspace) (s.dropWhile isspace).length with
  | error e => simp [hend] at h
  | ok i =>
    rw [hend] at h
    simp only [Except.ok.injEq, Option.some.injEq] at h
    refine ⟨i, rfl, ?_⟩
    have hstop := stripEnd_cases hend
    have hlt : i < (s.dropWhile isspace).length := by
      apply Nat.lt_of_not_le
      intro hle
      rw [List.getD_eq_getElem?_getD, List.getElem?_eq_none hle] at hstop
      exact absurd hstop (by decide)
    rw [← h, List.length_take]
    omega

end Btide
