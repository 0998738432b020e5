import Btide.Lib.Trim
import Btide.Net.Commands

/-!
This module contains `strip_whitespace` of `src/chk/helpers.c` as it runs over the memory that the
string lies in, and that it leaves the pointer at the longest part of the string without white space
at its ends.
-/

open Bytes CLib

namespace Btide

namespace stripWhitespaceAt

def load (mem : Bytes) (i : Nat) : Except Fault UInt8 :=
  match mem[i]? with
  | none => .error .outOfBounds
  | some c => .ok c

def store (mem : Bytes) (i : Nat) (c : UInt8) : Except Fault Bytes :=
  if i < mem.length then .ok (mem.set i c) else .error .outOfBounds

/--
`while (isspace(**word))` from position `p` on, with `mem` what lies there.
-/
def skipSpaces (mem : Bytes) (p : Nat) : Except Fault Nat :=
  match mem with
  | [] => .error .outOfBounds
  | c :: mem => if isspace c then skipSpaces mem (p + 1) else .ok p

def strlen (mem : Bytes) : Except Fault Nat :=
  match mem with
  | [] => .error .outOfBounds
  | c :: mem => if c = 0 then .ok 0 else (· + 1) <$> strlen mem

/--
`while (is_any_space(*end_ptr))`. Nothing but the start of the block stops it at `0`.
-/
def skipBack (mem : Bytes) (endPtr : Nat) : Except Fault Nat :=
  match load mem endPtr with
  | .error e => .error e
  | .ok c =>
    if isAnySpace c then
      match endPtr with
      | 0 => .error .outOfBounds
      | endPtr + 1 => skipBack mem endPtr
    else
      .ok endPtr

def endPtr (mem : Bytes) (word : Nat) : Except Fault Nat := do
  skipBack mem (word + (← strlen (mem.drop word)))

end stripWhitespaceAt

open stripWhitespaceAt in
def stripWhitespaceAt (mem : Bytes) (word : Option CharPtr) : Except Fault (Option CharPtr × Bytes) :=
  match word with
  | none => .ok (none, mem)
  | some .literal => .ok (some .literal, mem)
  | some (.inBuffer p) => do
    let word ← skipSpaces (mem.drop p) p
    if (← load mem word) = 0 then
      return (some .literal, mem)
    else
      let mem ← store mem ((← endPtr mem word) + 1) 0
      return (some (.inBuffer word), mem)

namespace stripWhitespaceAt

theorem load_of_getElem? {mem : Bytes} {i : Nat} {c : UInt8} (h : mem[i]? = some c)
    : load mem i = .ok c := by
  unfold load
  rw [h]

theorem store_of_lt {mem : Bytes} {i : Nat} (h : i < mem.length) (c : UInt8)
    : store mem i c = .ok (mem.set i c) := by
  unfold store
  rw [if_pos h]

theorem skipSpaces_append {front : Bytes} (hfront : ∀ c ∈ front, isspace c = true) {c : UInt8}
    (hc : isspace c = false) (rest : Bytes) (p : Nat)
    : skipSpaces (front ++ c :: rest) p = .ok (p + front.length) := by
  induction front generalizing p with
  | nil =>
    rw [List.nil_append, skipSpaces, hc]
    rfl
  | cons a front ih =>
    rw [List.cons_append, skipSpaces, if_pos (hfront a (by simp)), ih]
    . rw [List.length_cons]
      congr 1
      omega
    . intro b hb
      exact hfront b (by simp [hb])

theorem strlen_append {s : Bytes} (hs : ∀ c ∈ s, c ≠ 0) (rest : Bytes)
    : strlen (s ++ 0 :: rest) = .ok s.length := by
  induction s with
  | nil => rfl
  | cons c s ih =>
    rw [List.cons_append, strlen, if_neg (hs c (by simp)), ih]
    . rfl
    . intro d hd
      exact hs d (by simp [hd])

theorem skipBack_eq {mem : Bytes} {stop : Nat} {c : UInt8} (hstop : mem[stop]? = some c)
    (hc : isAnySpace c = false) (n : Nat)
    (hspace : ∀ k, stop < k → k ≤ stop + n → ∃ d, mem[k]? = some d ∧ isAnySpace d = true)
    : skipBack mem (stop + n) = .ok stop := by
  induction n with
  | zero =>
    unfold skipBack
    rw [Nat.add_zero, load_of_getElem? hstop]
    dsimp only
    rw [hc]
    rfl
  | succ n ih =>
    obtain ⟨d, hd, hdspace⟩ := hspace (stop + (n + 1)) (by omega) (Nat.le_refl _)
    rw [← Nat.add_assoc] at hd ⊢
    unfold skipBack
    rw [load_of_getElem? hd]
    dsimp only
    rw [if_pos hdspace]
    apply ih
    intro k hlt hle
    exact hspace k hlt (by omega)

structure Holds (mem : Bytes) (p : Nat) (s rest : Bytes) : Prop where
  drop_eq : mem.drop p = s ++ 0 :: rest
  ne_zero : ∀ c ∈ s, c ≠ 0

namespace Holds

variable {mem s rest : Bytes} {p : Nat}

theorem getElem? (h : Holds mem p s rest) (k : Nat) : mem[p + k]? = (s ++ 0 :: rest)[k]? := by
  rw [← h.drop_eq, List.getElem?_drop]

theorem length_lt (h : Holds mem p s rest) : p + s.length < mem.length := by
  have hlen := congrArg List.length h.drop_eq
  rw [List.length_drop, List.length_append, List.length_cons] at hlen
  omega

theorem set (h : Holds mem p s rest) {i n : Nat} (hle : i + n ≤ s.length)
    : ∃ rest', Holds (mem.set (p + i + n) 0) (p + i) ((s.drop i).take n) rest' := by
  have hdrop : mem.drop (p + i) = s.drop i ++ 0 :: rest := by
    rw [← List.drop_drop, h.drop_eq, List.drop_append_of_le_length (by omega)]
  have hlen : n ≤ (s.drop i).length := by
    rw [List.length_drop]
    omega
  refine ⟨(s.drop i ++ 0 :: rest).drop (n + 1), ?_, ?_⟩
  . rw [List.drop_set, if_neg (by omega), hdrop, Nat.add_sub_cancel_left,
      List.set_eq_take_append_cons_drop, if_pos, List.take_append_of_le_length hlen]
    rw [List.length_append, List.length_cons]
    omega
  . intro c hc
    exact h.ne_zero c (List.mem_of_mem_drop (List.mem_of_mem_take hc))

end Holds

theorem exists_holds {mem : Bytes} {p : Nat} (h : 0 ∈ mem.drop p)
    : ∃ rest, Holds mem p (strAt mem p) rest := by
  have hs := List.takeWhile_append_dropWhile (p := fun c : UInt8 => decide (c ≠ 0)) (l := mem.drop p)
  have hhead := List.head?_dropWhile_not (fun c : UInt8 => decide (c ≠ 0)) (mem.drop p)
  cases hrest : (mem.drop p).dropWhile (fun c : UInt8 => decide (c ≠ 0)) with
  | nil =>
    rw [List.dropWhile_eq_nil_iff] at hrest
    exact absurd (hrest 0 h) (by decide)
  | cons c rest =>
    rw [hrest] at hs hhead
    have hc : c = 0 := by simpa using hhead
    rw [hc] at hs
    exact ⟨rest, hs.symm, zero_not_mem_cstr _⟩

theorem blank_run {mem s rest : Bytes} {p : Nat} (h : Holds mem p s rest)
    (hblank : ∀ c ∈ s, isspace c = true)
    : stripWhitespaceAt mem (some (.inBuffer p)) = .ok (some .literal, mem) := by
  have hskip : skipSpaces (mem.drop p) p = .ok (p + s.length) := by
    rw [h.drop_eq]
    exact skipSpaces_append hblank rfl rest p
  have hload : load mem (p + s.length) = .ok 0 := by
    apply load_of_getElem?
    rw [h.getElem?, List.getElem?_append_right (Nat.le_refl _), Nat.sub_self, List.getElem?_cons_zero]
  unfold stripWhitespaceAt
  dsimp only
  rw [bind_eq_ok]
  refine ⟨_, hskip, ?_⟩
  rw [bind_eq_ok]
  exact ⟨_, hload, rfl⟩

section

variable {mem s front word back rest : Bytes} {p : Nat}

theorem endPtr_eq (h : Holds mem p s rest) (hs : Trim.Parts isspace s front word back)
    : endPtr mem (p + front.length) = .ok (p + front.length + word.length - 1) := by
  have hpos := hs.length_pos
  have hdrop : mem.drop (p + front.length) = (word ++ back) ++ 0 :: rest := by
    rw [← List.drop_drop, h.drop_eq, hs.eq, List.append_assoc, List.drop_left]
  have hlen : strlen (mem.drop (p + front.length)) = .ok (word.length + back.length) := by
    rw [hdrop, strlen_append, List.length_append]
    intro c hc
    apply h.ne_zero c
    rw [hs.eq]
    exact List.mem_append_right front hc
  have hget : ∀ k, mem[p + front.length + k]? = (word ++ (back ++ 0 :: rest))[k]? := by
    intro k
    rw [← List.getElem?_drop, hdrop, List.append_assoc]
  obtain ⟨c, hc⟩ := Option.isSome_iff_exists.mp (List.getLast?_isSome.mpr hs.ne)
  have hstop : mem[p + front.length + (word.length - 1)]? = some c := by
    rw [hget, List.getElem?_append_left (by omega), ← List.getLast?_eq_getElem?, hc]
  have hmem : c ∈ s := by
    have := List.mem_of_getLast? hc
    simp [hs.eq, this]
  have hsolid : isAnySpace c = false := by
    rw [isAnySpace_eq_isspace (h.ne_zero c hmem)]
    exact hs.last c hc
  have hspace : ∀ k, p + front.length + (word.length - 1) < k
      → k ≤ p + front.length + (word.length - 1) + (back.length + 1)
      → ∃ d, mem[k]? = some d ∧ isAnySpace d = true := by
    intro k hlt hle
    -- what stands behind the word is white space up to the terminator, which the loop skips as well
    have hk := hget (k - (p + front.length))
    rw [show p + front.length + (k - (p + front.length)) = k by omega,
      List.getElem?_append_right (by omega)] at hk
    generalize hj : k - (p + front.length) - word.length = j at hk
    by_cases hlt' : j < back.length
    . rw [List.getElem?_append_left hlt', List.getElem?_eq_getElem hlt'] at hk
      exact ⟨_, hk, isAnySpace_of_isspace (hs.back _ (List.getElem_mem hlt'))⟩
    . rw [show j = back.length by omega, List.getElem?_append_right (Nat.le_refl _), Nat.sub_self] at hk
      exact ⟨0, hk, rfl⟩
  unfold endPtr
  rw [bind_eq_ok]
  refine ⟨_, hlen, ?_⟩
  have hstart : p + front.length + (word.length + back.length)
      = p + front.length + (word.length - 1) + (back.length + 1) := by
    omega
  rw [hstart, skipBack_eq hstop hsolid _ hspace]
  congr 1
  omega

theorem word_run (h : Holds mem p s rest) (hs : Trim.Parts isspace s front word back)
    : stripWhitespaceAt mem (some (.inBuffer p))
        = .ok (some (.inBuffer (p + front.length)), mem.set (p + front.length + word.length) 0) := by
  have hlt := h.length_lt
  have hlen := hs.length_eq
  have hpos := hs.length_pos
  have hend := endPtr_eq h hs
  cases word with
  | nil => exact absurd rfl hs.ne
  | cons c word =>
    have hmem : mem.drop p = front ++ c :: (word ++ back ++ 0 :: rest) := by
      rw [h.drop_eq, hs.eq]
      simp
    have hc : c ≠ 0 := h.ne_zero c (by simp [hs.eq])
    have hskip : skipSpaces (mem.drop p) p = .ok (p + front.length) := by
      rw [hmem]
      exact skipSpaces_append hs.front (hs.head c rfl) _ p
    have hload : load mem (p + front.length) = .ok c := by
      apply load_of_getElem?
      rw [← List.getElem?_drop, hmem]
      simp
    have hstore : store mem (p + front.length + (c :: word).length - 1 + 1) 0
        = .ok (mem.set (p + front.length + (c :: word).length) 0) := by
      rw [Nat.sub_add_cancel (by omega)]
      exact store_of_lt (by omega) 0
    unfold stripWhitespaceAt
    dsimp only
    rw [bind_eq_ok]
    refine ⟨_, hskip, ?_⟩
    rw [bind_eq_ok]
    refine ⟨_, hload, ?_⟩
    rw [if_neg hc, bind_eq_ok]
    refine ⟨_, hend, ?_⟩
    rw [bind_eq_ok]
    exact ⟨_, hstore, rfl⟩

theorem word_again (h : Holds mem p s rest) (hs : Trim.Parts isspace s front word back)
    : stripWhitespaceAt (mem.set (p + front.length + word.length) 0) (some (.inBuffer (p + front.length)))
        =
      .ok (some (.inBuffer (p + front.length)), mem.set (p + front.length + word.length) 0) := by
  have hlen := hs.length_eq
  have hle : front.length + word.length ≤ s.length := by omega
  obtain ⟨rest', hset⟩ := h.set hle
  rw [hs.eq, List.drop_left, List.take_left] at hset
  have hrun := word_run hset hs.self
  rw [List.length_nil, Nat.add_zero, List.set_set] at hrun
  exact hrun

theorem trim_word (h : Holds mem p s rest) (hs : Trim.Parts isspace s front word back) : trim s = word := by
  have hlast : ∀ c, word.getLast? = some c → isAnySpace c = false := by
    intro c hc
    have hmem := List.mem_of_getLast? hc
    rw [isAnySpace_eq_isspace (h.ne_zero c (by simp [hs.eq, hmem]))]
    exact hs.last c hc
  rw [hs.eq, ← List.append_assoc]
  exact trim_pad hs.front hs.back hs.head hlast hs.ne

end

end stripWhitespaceAt

open stripWhitespaceAt

inductive Trimmed (mem : Bytes) (p : Nat) : CharPtr → Bytes → Prop where
  | blank (hblank : ∀ c ∈ strAt mem p, isspace c = true) : Trimmed mem p .literal mem
  | word (i n : Nat) (hlongest : Trim.Longest isspace (strAt mem p) i n)
    (hend : endPtr mem (p + i) = .ok (p + i + n - 1))
    : Trimmed mem p (.inBuffer (p + i)) (mem.set (p + i + n) 0)

namespace Trimmed

variable {mem mem' : Bytes} {p : Nat} {ptr : CharPtr}

theorem length_eq (h : Trimmed mem p ptr mem') : mem'.length = mem.length := by
  cases h with
  | blank hblank => rfl
  | word i n hlongest hend => exact List.length_set

theorem frame (h : Trimmed mem p ptr mem') {j : Nat} (hne : mem'[j]? ≠ mem[j]?)
    : p ≤ j ∧ j ≤ p + (strAt mem p).length := by
  cases h with
  | blank hblank => exact absurd rfl hne
  | word i n hlongest hend =>
    have hinside := hlongest.inside
    by_cases hj : p + i + n = j
    . omega
    . rw [List.getElem?_set_ne hj] at hne
      exact absurd rfl hne

theorem str_eq (h : Trimmed mem p ptr mem')
    : (ptr.str mem' = [] ∧ ∀ c ∈ strAt mem p, isspace c = true)
      ∨ ∃ i n, Trim.Longest isspace (strAt mem p) i n ∧ ptr.str mem' = ((strAt mem p).drop i).take n := by
  cases h with
  | blank hblank => exact .inl ⟨rfl, hblank⟩
  | word i n hlongest hend =>
    have hinside := hlongest.inside
    refine .inr ⟨i, n, hlongest, ?_⟩
    rw [CharPtr.str, strAt_set_add, strAt_add (by omega)]

end Trimmed

theorem stripWhitespaceAt_eq_stripAt {mem : Bytes} {p : Nat} (h : 0 ∈ mem.drop p)
    : stripWhitespaceAt mem (some (.inBuffer p)) = stripAt mem (some p) := by
  obtain ⟨rest, hholds⟩ := exists_holds h
  unfold stripAt
  dsimp only
  cases Trim.split isspace (strAt mem p) with
  | blank hblank =>
    rw [blank_run hholds hblank, if_pos]
    rw [List.dropWhile_eq_nil_iff]
    exact hblank
  | word front word back hs =>
    have hdrop : (strAt mem p).dropWhile isspace ≠ [] := by
      rw [hs.dropWhile_eq]
      simp [hs.ne]
    obtain ⟨i, hend, hi⟩ := stripWhitespace.stripEnd_trim hholds.ne_zero hdrop
    rw [trim_word hholds hs] at hi
    rw [if_neg hdrop, hend, hs.takeWhile_eq, word_run hholds hs, ← hi]
    rfl

theorem stripWhitespaceAt_exact {mem : Bytes} {p : Nat} (h : 0 ∈ mem.drop p)
    : ∃ ptr mem',
        stripWhitespaceAt mem (some (.inBuffer p)) = .ok (some ptr, mem')
          ∧ Trimmed mem p ptr mem'
          ∧ (mem'.length = mem.length
              ∧ ∀ j, mem'[j]? ≠ mem[j]? → p ≤ j ∧ j ≤ p + (strAt mem p).length)
          ∧ ((ptr.str mem' = [] ∧ ∀ c ∈ strAt mem p, isspace c = true)
              ∨ ∃ i n, Trim.Longest isspace (strAt mem p) i n ∧ ptr.str mem' = ((strAt mem p).drop i).take n)
          ∧ stripWhitespace (some (strAt mem p)) = .ok (some (ptr.str mem'))
          ∧ stripWhitespaceAt mem' (some ptr) = .ok (some ptr, mem') := by
  obtain ⟨rest, hholds⟩ := exists_holds h
  have hstring := stripWhitespace_eq_trim hholds.ne_zero
  cases Trim.split isspace (strAt mem p) with
  | blank hblank =>
    have htrimmed := Trimmed.blank hblank
    have htrim : trim (strAt mem p) = [] := by
      rw [trim_eq_nil_iff hholds.ne_zero, List.dropWhile_eq_nil_iff]
      exact hblank
    rw [htrim] at hstring
    have hframe : ∀ j, mem[j]? ≠ mem[j]? → p ≤ j ∧ j ≤ p + (strAt mem p).length := fun _ => htrimmed.frame
    exact ⟨_, _, blank_run hholds hblank, htrimmed, ⟨rfl, hframe⟩, htrimmed.str_eq, hstring, rfl⟩
  | word front word back hs =>
    have htrimmed := Trimmed.word _ _ hs.longest (endPtr_eq hholds hs)
    have hstr : strAt (mem.set (p + front.length + word.length) 0) (p + front.length) = word := by
      have hle : front.length ≤ (strAt mem p).length := by
        have := hs.length_eq
        omega
      rw [strAt_set_add, strAt_add hle, hs.eq, List.drop_left, List.take_left]
    rw [trim_word hholds hs, ← hstr] at hstring
    exact ⟨_, _, word_run hholds hs, htrimmed, ⟨htrimmed.length_eq, fun _ => htrimmed.frame⟩, htrimmed.str_eq,
      hstring, word_again hholds hs⟩

theorem stripWhitespaceAt_exact_word :
    stripWhitespaceAt (ascii "x  a b\n" ++ [0, 7]) (some (.inBuffer 1))
        = .ok (some (.inBuffer 3), ascii "x  a b" ++ [0, 0, 7])
      ∧ Trimmed (ascii "x  a b\n" ++ [0, 7]) 1 (.inBuffer 3) (ascii "x  a b" ++ [0, 0, 7])
      ∧ CharPtr.str (ascii "x  a b" ++ [0, 0, 7]) (.inBuffer 3) = ascii "a b" := by
  have hzero : (0 : UInt8) ∈ (ascii "x  a b\n" ++ [0, 7]).drop 1 := by decide
  have hrun : stripWhitespaceAt (ascii "x  a b\n" ++ [0, 7]) (some (.inBuffer 1))
      = .ok (some (.inBuffer 3), ascii "x  a b" ++ [0, 0, 7]) := by
    decide +kernel
  obtain ⟨ptr, mem', hrun', htrimmed, _, _, _, _⟩ := stripWhitespaceAt_exact hzero
  rw [hrun] at hrun'
  simp only [Except.ok.injEq, Prod.mk.injEq, Option.some.injEq] at hrun'
  rw [← hrun'.1, ← hrun'.2] at htrimmed
  exact ⟨hrun, htrimmed, rfl⟩

end Btide
