import Btide.Lib.CString

/-!
This module contains strings in a block of memory: a string is the position of its first character,
and `strtok` puts terminators into the block and remembers where it stopped.
-/

namespace CLib

def strAt (mem : Bytes) (p : Nat) : Bytes :=
  cstr (mem.drop p)

structure Tokenised where
  token : Option Nat
  saved : Option Nat
  mem : Bytes
  deriving DecidableEq

/--
One call of `strtok` that starts at `start`. Once the string is used up there is no saved position,
and every further call finds no token.
-/
def strtokAt (delims mem : Bytes) (start : Option Nat) : Tokenised :=
  match start with
  | none => { token := none, saved := none, mem }
  | some p =>
    let s := strAt mem p
    let token := p + (s.takeWhile (delims.contains ·)).length
    let stop := token + ((s.dropWhile (delims.contains ·)).takeWhile (!delims.contains ·)).length
    if token = p + s.length then
      { token := none, saved := none, mem }
    else if stop = p + s.length then
      { token := some token, saved := none, mem }
    else
      { token := some token, saved := some (stop + 1), mem := mem.set stop 0 }

def savedStr (mem : Bytes) (saved : Option Nat) : Bytes :=
  match saved with
  | none => []
  | some p => strAt mem p

def Terminated (mem : Bytes) : Prop :=
  mem.getLast? = some 0

@[simp]
theorem savedStr_none (mem : Bytes) : savedStr mem none = [] := rfl

@[simp]
theorem savedStr_some (mem : Bytes) (p : Nat) : savedStr mem (some p) = strAt mem p := rfl

@[simp]
theorem strtokAt_none (delims mem : Bytes)
    : strtokAt delims mem none = { token := none, saved := none, mem } := rfl

theorem cstr_set (mem : Bytes) (i : Nat) : cstr (mem.set i 0) = (cstr mem).take i := by
  unfold cstr
  induction mem generalizing i with
  | nil => simp
  | cons c mem ih =>
    cases i with
    | zero => simp
    | succ i =>
      rw [List.set_cons_succ, List.takeWhile_cons, List.takeWhile_cons, ih]
      split
      . simp
      . simp

theorem strAt_set (mem : Bytes) (i p : Nat)
    : strAt (mem.set i 0) p = if i < p then strAt mem p else (strAt mem p).take (i - p) := by
  unfold strAt
  rw [List.drop_set]
  split
  . rfl
  . apply cstr_set

theorem strAt_set_of_lt {i p : Nat} (h : i < p) (mem : Bytes) : strAt (mem.set i 0) p = strAt mem p := by
  rw [strAt_set, if_pos h]

theorem strAt_set_add (mem : Bytes) (p k : Nat)
    : strAt (mem.set (p + k) 0) p = (strAt mem p).take k := by
  rw [strAt_set, if_neg (by omega), Nat.add_sub_cancel_left]

theorem cstr_drop {mem : Bytes} {k : Nat} (h : k ≤ (cstr mem).length)
    : cstr (mem.drop k) = (cstr mem).drop k := by
  induction k generalizing mem with
  | zero => rfl
  | succ k ih =>
    cases mem with
    | nil => simp [cstr] at h
    | cons c mem =>
      by_cases hc : c = 0
      . simp [cstr, hc] at h
      . have hcons : cstr (c :: mem) = c :: cstr mem := by simp [cstr, hc]
        rw [hcons, List.length_cons] at h
        rw [hcons, List.drop_succ_cons, List.drop_succ_cons]
        apply ih
        omega

theorem strAt_add {mem : Bytes} {p k : Nat} (h : k ≤ (strAt mem p).length)
    : strAt mem (p + k) = (strAt mem p).drop k := by
  unfold strAt at *
  rw [← List.drop_drop]
  exact cstr_drop h

theorem length_strAt_le (mem : Bytes) (p : Nat) : (strAt mem p).length ≤ mem.length - p := by
  have := (List.takeWhile_prefix (fun c : UInt8 => decide (c ≠ 0)) (l := mem.drop p)).length_le
  rw [List.length_drop] at this
  exact this

inductive Split (delims s : Bytes) : Prop where
  | blank (hblank : ∀ c ∈ s, c ∈ delims)
  | last (skip word : Bytes) (hs : s = skip ++ word) (hskip : ∀ c ∈ skip, c ∈ delims)
    (hword : ∀ c ∈ word, c ∉ delims) (hne : word ≠ [])
  | more (skip word rest : Bytes) (d : UInt8) (hs : s = skip ++ (word ++ d :: rest))
    (hskip : ∀ c ∈ skip, c ∈ delims) (hword : ∀ c ∈ word, c ∉ delims) (hne : word ≠ [])
    (hd : d ∈ delims)

theorem split (delims s : Bytes) : Split delims s := by
  have hs := List.takeWhile_append_dropWhile (p := (delims.contains ·)) (l := s)
  have hskip : ∀ c ∈ s.takeWhile (delims.contains ·), c ∈ delims := by
    intro c hc
    simpa using List.mem_takeWhile_imp hc
  generalize s.takeWhile (delims.contains ·) = skip at hs hskip
  have hhead := List.head?_dropWhile_not (delims.contains ·) s
  generalize s.dropWhile (delims.contains ·) = s' at hs hhead
  have hs' := List.takeWhile_append_dropWhile (p := (!delims.contains ·)) (l := s')
  have hword : ∀ c ∈ s'.takeWhile (!delims.contains ·), c ∉ delims := by
    intro c hc
    simpa using List.mem_takeWhile_imp hc
  have hnext := List.head?_dropWhile_not (!delims.contains ·) s'
  cases s' with
  | nil =>
    apply Split.blank
    rw [← hs, List.append_nil]
    exact hskip
  | cons c s' =>
    have hc : c ∉ delims := by simpa using hhead
    have hne : (c :: s').takeWhile (!delims.contains ·) ≠ [] := by simp [hc]
    generalize (c :: s').takeWhile (!delims.contains ·) = word at hs' hword hne
    generalize (c :: s').dropWhile (!delims.contains ·) = after at hs' hnext
    cases after with
    | nil =>
      apply Split.last skip word _ hskip hword hne
      rw [← hs, ← hs', List.append_nil]
    | cons d rest =>
      apply Split.more skip word rest d _ hskip hword hne
      . simpa using hnext
      . rw [← hs, ← hs']

section

variable {delims skip word rest : Bytes} {d : UInt8}

theorem takeWhile_skip (hskip : ∀ c ∈ skip, c ∈ delims) (hword : ∀ c ∈ word, c ∉ delims)
    (hne : word ≠ []) (rest : Bytes)
    : (skip ++ (word ++ rest)).takeWhile (delims.contains ·) = skip
        ∧ (skip ++ (word ++ rest)).dropWhile (delims.contains ·) = word ++ rest := by
  have hpos : ∀ c ∈ skip, delims.contains c = true := by
    intro c hc
    simpa using hskip c hc
  rw [List.takeWhile_append_of_pos hpos, List.dropWhile_append_of_pos hpos,
    dropWhile_delims hne hword]
  cases word with
  | nil => exact absurd rfl hne
  | cons c word => simp [hword c (by simp)]

theorem strtok_blank {s : Bytes} (h : ∀ c ∈ s, c ∈ delims) : strtok delims s = (none, []) := by
  have hdrop : s.dropWhile (delims.contains ·) = [] := by
    rw [List.dropWhile_eq_nil_iff]
    intro c hc
    simpa using h c hc
  unfold strtok
  dsimp only
  rw [hdrop, if_pos rfl]

theorem strtok_skip_last (hskip : ∀ c ∈ skip, c ∈ delims) (hword : ∀ c ∈ word, c ∉ delims)
    (hne : word ≠ [])
    : strtok delims (skip ++ word) = (some word, []) := by
  have h := (takeWhile_skip hskip hword hne []).2
  rw [List.append_nil] at h
  have hlast := strtok_last hne hword
  unfold strtok at *
  dsimp only at *
  have hdrop := dropWhile_delims hne hword []
  rw [List.append_nil] at hdrop
  rw [h]
  rw [hdrop] at hlast
  exact hlast

theorem strtok_skip_append (hskip : ∀ c ∈ skip, c ∈ delims) (hword : ∀ c ∈ word, c ∉ delims)
    (hne : word ≠ []) (hd : d ∈ delims)
    : strtok delims (skip ++ (word ++ d :: rest)) = (some word, rest) := by
  have h := (takeWhile_skip hskip hword hne (d :: rest)).2
  have happend := strtok_append (b := rest) hne hword hd
  unfold strtok at *
  dsimp only at *
  rw [h]
  rw [dropWhile_delims hne hword] at happend
  exact happend

theorem strtokAt_blank {mem : Bytes} {p : Nat} (h : ∀ c ∈ strAt mem p, c ∈ delims)
    : strtokAt delims mem (some p) = { token := none, saved := none, mem } := by
  have htake : (strAt mem p).takeWhile (delims.contains ·) = strAt mem p := by
    rw [List.takeWhile_eq_self_iff]
    intro c hc
    simpa using h c hc
  unfold strtokAt
  dsimp only
  rw [htake, if_pos rfl]

theorem strtokAt_last {mem : Bytes} {p : Nat} (hs : strAt mem p = skip ++ word)
    (hskip : ∀ c ∈ skip, c ∈ delims) (hword : ∀ c ∈ word, c ∉ delims) (hne : word ≠ [])
    : strtokAt delims mem (some p) = { token := some (p + skip.length), saved := none, mem } := by
  obtain ⟨htake, hdrop⟩ := takeWhile_skip hskip hword hne []
  rw [List.append_nil] at htake hdrop
  have hpos := List.length_pos_iff.mpr hne
  have hall : word.takeWhile (!delims.contains ·) = word := by
    rw [List.takeWhile_eq_self_iff]
    simpa using hword
  unfold strtokAt
  dsimp only
  rw [hs, htake, hdrop, hall, List.length_append, if_neg (by omega), if_pos (by omega)]

theorem strtokAt_more {mem : Bytes} {p : Nat} (hs : strAt mem p = skip ++ (word ++ d :: rest))
    (hskip : ∀ c ∈ skip, c ∈ delims) (hword : ∀ c ∈ word, c ∉ delims) (hne : word ≠ [])
    (hd : d ∈ delims)
    : strtokAt delims mem (some p)
        =
      {
        token := some (p + skip.length)
        saved := some (p + skip.length + word.length + 1)
        mem := mem.set (p + skip.length + word.length) 0
      } := by
  obtain ⟨htake, hdrop⟩ := takeWhile_skip hskip hword hne (d :: rest)
  have hpos := List.length_pos_iff.mpr hne
  have hall : (word ++ d :: rest).takeWhile (!delims.contains ·) = word := by
    rw [List.takeWhile_append_of_pos (by simpa using hword)]
    simp [hd]
  unfold strtokAt
  dsimp only
  rw [hs, htake, hdrop, hall]
  simp only [List.length_append, List.length_cons]
  rw [if_neg (by omega), if_neg (by omega)]

theorem strtokAt_spec (delims mem : Bytes) (start : Option Nat)
    : (strtokAt delims mem start).token.map (strAt (strtokAt delims mem start).mem)
        = (strtok delims (savedStr mem start)).1
      ∧ savedStr (strtokAt delims mem start).mem (strtokAt delims mem start).saved
        = (strtok delims (savedStr mem start)).2 := by
  cases start with
  | none => simp [strtok]
  | some p =>
    rw [savedStr_some]
    cases split delims (strAt mem p) with
    | blank hblank =>
      rw [strtokAt_blank hblank, strtok_blank hblank]
      simp
    | last skip word hs hskip hword hne =>
      rw [strtokAt_last hs hskip hword hne, hs, strtok_skip_last hskip hword hne]
      have hlen : skip.length ≤ (strAt mem p).length := by simp [hs]
      simp [strAt_add hlen, hs]
    | more skip word rest d hs hskip hword hne hd =>
      rw [strtokAt_more hs hskip hword hne hd, hs, strtok_skip_append hskip hword hne hd]
      have hlen : skip.length ≤ (strAt mem p).length := by simp [hs]
      have hnext : skip.length + word.length + 1 ≤ (strAt mem p).length := by
        rw [hs, List.length_append, List.length_append, List.length_cons]
        omega
      constructor
      . dsimp only [Option.map_some]
        rw [strAt_set_add, strAt_add hlen, hs]
        simp
      . dsimp only [savedStr_some]
        rw [strAt_set_of_lt (by omega), Nat.add_assoc, Nat.add_assoc, strAt_add (by omega), hs,
          ← List.drop_drop, List.drop_left, ← List.drop_drop, List.drop_left]
        rfl

end

theorem strtokAt_token_eq {delims mem : Bytes} {p q : Nat} (h : (strtokAt delims mem (some p)).token = some q)
    : q = p + ((strAt mem p).takeWhile (delims.contains ·)).length := by
  unfold strtokAt at h
  dsimp only at h
  split at h
  . cases h
  . split at h
    . cases h
      rfl
    . cases h
      rfl

theorem strtokAt_saved_eq {delims mem : Bytes} {p q : Nat} (h : (strtokAt delims mem (some p)).saved = some q)
    : q + (strtok delims (strAt mem p)).2.length = p + (strAt mem p).length := by
  cases split delims (strAt mem p) with
  | blank hblank =>
    rw [strtokAt_blank hblank] at h
    cases h
  | last skip word hs hskip hword hne =>
    rw [strtokAt_last hs hskip hword hne] at h
    cases h
  | more skip word rest d hs hskip hword hne hd =>
    rw [strtokAt_more hs hskip hword hne hd] at h
    cases h
    rw [hs, strtok_skip_append hskip hword hne hd]
    simp only [List.length_append, List.length_cons]
    omega

theorem strtokAt_token_lt {delims mem : Bytes} {p q saved : Nat}
    (h : (strtokAt delims mem (some p)).token = some q) (hsaved : (strtokAt delims mem (some p)).saved = some saved)
    : q + (strAt (strtokAt delims mem (some p)).mem q).length < saved := by
  cases split delims (strAt mem p) with
  | blank hblank =>
    rw [strtokAt_blank hblank] at h
    cases h
  | last skip word hs hskip hword hne =>
    rw [strtokAt_last hs hskip hword hne] at hsaved
    cases hsaved
  | more skip word rest d hs hskip hword hne hd =>
    have heq := strtokAt_more hs hskip hword hne hd
    rw [heq] at h hsaved ⊢
    cases h
    cases hsaved
    dsimp only
    rw [strAt_set_add, List.length_take]
    omega

theorem strtokAt_before {delims mem : Bytes} {start : Option Nat} {q : Nat}
    (h : ∀ p, start = some p → q + (strAt mem q).length < p)
    : strAt (strtokAt delims mem start).mem q = strAt mem q := by
  cases start with
  | none => rfl
  | some p =>
    have hlt := h p rfl
    unfold strtokAt
    dsimp only
    split
    . rfl
    . split
      . rfl
      . rw [strAt_set, if_neg (by omega)]
        apply List.take_of_length_le
        omega

namespace Terminated

variable {mem : Bytes}

theorem getElem? (h : Terminated mem) : mem[mem.length - 1]? = some 0 := by
  rw [← List.getLast?_eq_getElem?]
  exact h

theorem length_pos (h : Terminated mem) : 0 < mem.length := by
  cases mem with
  | nil => simp [Terminated] at h
  | cons c mem => simp

theorem append_zero (front : Bytes) : Terminated (front ++ [0]) := by
  simp [Terminated]

theorem set (h : Terminated mem) (i : Nat) : Terminated (mem.set i 0) := by
  unfold Terminated
  rw [List.getLast?_eq_getElem?, List.length_set, List.getElem?_set]
  split
  . split
    . rfl
    . have := h.length_pos
      omega
  . exact h.getElem?

theorem zero_mem_drop (h : Terminated mem) {p : Nat} (hp : p < mem.length) : 0 ∈ mem.drop p := by
  apply List.mem_of_getElem? (i := mem.length - 1 - p)
  rw [List.getElem?_drop, show p + (mem.length - 1 - p) = mem.length - 1 by omega]
  exact h.getElem?

theorem strAt_append (h : Terminated mem) {p : Nat} (hp : p < mem.length) (rest : Bytes)
    : strAt (mem ++ rest) p = strAt mem p := by
  unfold strAt
  rw [List.drop_append_of_le_length (by omega)]
  exact cstr_append_of_mem (h.zero_mem_drop hp) rest

theorem length_strAt_lt (h : Terminated mem) {p : Nat} (hp : p < mem.length)
    : p + (strAt mem p).length < mem.length := by
  have hle := length_strAt_le mem p
  apply Nat.lt_of_not_le
  intro hge
  -- otherwise the string is everything from `p` on, and the terminator is a character of it
  have hall : strAt mem p = mem.drop p := by
    apply (List.takeWhile_prefix _).eq_of_length
    rw [List.length_drop]
    have heq : (strAt mem p).length = mem.length - p := by omega
    exact heq
  have hzero := h.zero_mem_drop hp
  rw [← hall] at hzero
  exact zero_not_mem_cstr _ 0 hzero rfl

theorem drop_eq (h : Terminated mem) {mem' : Bytes} (h' : Terminated mem') {k : Nat}
    (hlen : mem.length = mem'.length) (hk : mem.length ≤ k + 1)
    : mem.drop k = mem'.drop k := by
  apply List.ext_getElem?
  intro i
  rw [List.getElem?_drop, List.getElem?_drop]
  by_cases hi : k + i = mem.length - 1
  . have hzero := h'.getElem?
    rw [← hlen] at hzero
    rw [hi, h.getElem?, hzero]
  . have hpos := h.length_pos
    rw [List.getElem?_eq_none (by omega), List.getElem?_eq_none (by omega)]

end Terminated

theorem strtokAt_terminated {delims mem : Bytes} {start : Option Nat} (h : Terminated mem)
    (hstart : ∀ p, start = some p → p < mem.length)
    : Terminated (strtokAt delims mem start).mem
        ∧ (strtokAt delims mem start).mem.length = mem.length
        ∧ (∀ p, (strtokAt delims mem start).token = some p → p < mem.length)
        ∧ (∀ p, (strtokAt delims mem start).saved = some p → p < mem.length) := by
  cases start with
  | none => exact ⟨h, rfl, by simp, by simp⟩
  | some p =>
    have hlen := h.length_strAt_lt (hstart p rfl)
    cases split delims (strAt mem p) with
    | blank hblank =>
      rw [strtokAt_blank hblank]
      exact ⟨h, rfl, by simp, by simp⟩
    | last skip word hs hskip hword hne =>
      rw [strtokAt_last hs hskip hword hne]
      rw [hs, List.length_append] at hlen
      refine ⟨h, rfl, ?_, by simp⟩
      rintro q ⟨⟩
      omega
    | more skip word rest d hs hskip hword hne hd =>
      rw [strtokAt_more hs hskip hword hne hd]
      rw [hs, List.length_append, List.length_append, List.length_cons] at hlen
      refine ⟨h.set _, List.length_set, ?_, ?_⟩
      . rintro q ⟨⟩
        omega
      . rintro q ⟨⟩
        omega

theorem strtokAt_append {delims mem : Bytes} {start : Option Nat} (h : Terminated mem)
    (hstart : ∀ p, start = some p → p < mem.length) (rest : Bytes)
    : strtokAt delims (mem ++ rest) start
        =
      {
        token := (strtokAt delims mem start).token
        saved := (strtokAt delims mem start).saved
        mem := (strtokAt delims mem start).mem ++ rest
      } := by
  cases start with
  | none => rfl
  | some p =>
    have happend := h.strAt_append (hstart p rfl) rest
    have hlen := h.length_strAt_lt (hstart p rfl)
    cases split delims (strAt mem p) with
    | blank hblank =>
      rw [strtokAt_blank hblank, strtokAt_blank]
      rw [happend]
      exact hblank
    | last skip word hs hskip hword hne =>
      rw [strtokAt_last hs hskip hword hne, strtokAt_last (happend.trans hs) hskip hword hne]
    | more skip word rest' d hs hskip hword hne hd =>
      rw [strtokAt_more hs hskip hword hne hd, strtokAt_more (happend.trans hs) hskip hword hne hd]
      rw [hs, List.length_append, List.length_append, List.length_cons] at hlen
      dsimp only
      rw [List.set_append_left _ _ (by omega)]

theorem drop_length_takeWhile (p : UInt8 → Bool) (s : Bytes) : s.drop (s.takeWhile p).length = s.dropWhile p := by
  have h := List.takeWhile_append_dropWhile (p := p) (l := s)
  generalize s.takeWhile p = front at h
  generalize s.dropWhile p = back at h
  rw [← h, List.drop_left]

theorem strtok_suffix (delims s : Bytes) : (strtok delims s).2 <:+ s := by
  cases split delims s with
  | blank hblank =>
    rw [strtok_blank hblank]
    apply List.nil_suffix
  | last skip word hs hskip hword hne =>
    rw [hs, strtok_skip_last hskip hword hne]
    apply List.nil_suffix
  | more skip word rest d hs hskip hword hne hd =>
    rw [hs, strtok_skip_append hskip hword hne hd]
    refine ⟨skip ++ (word ++ [d]), ?_⟩
    simp

theorem length_cstr_eq_iff (line : Bytes) : (cstr line).length = line.length ↔ 0 ∉ line := by
  constructor
  . intro h hzero
    have heq : cstr line = line := (List.takeWhile_prefix _).eq_of_length h
    rw [← heq] at hzero
    exact zero_not_mem_cstr line 0 hzero rfl
  . intro h
    rw [cstr_of_forall]
    rintro c hc rfl
    exact h hc

theorem strtokAt_nil_eq (mem : Bytes) (p : Nat)
    : strtokAt [] mem (some p)
        =
      { token := if strAt mem p = [] then none else some p, saved := none, mem } := by
  split
  . next hnil =>
    apply strtokAt_blank
    simp [hnil]
  . next hne =>
    have hword : strAt mem p = [] ++ strAt mem p := rfl
    rw [strtokAt_last hword (by simp) (by simp) hne, List.length_nil, Nat.add_zero]

structure Kept (mem mem' : Bytes) : Prop where
  length_eq : mem'.length = mem.length
  terminated : Terminated mem → Terminated mem'

namespace Kept

variable {mem mem' mem'' : Bytes}

theorem refl (mem : Bytes) : Kept mem mem :=
  ⟨rfl, id⟩

theorem trans (h : Kept mem mem') (h' : Kept mem' mem'') : Kept mem mem'' := by
  constructor
  . rw [h'.length_eq, h.length_eq]
  . intro hterm
    exact h'.terminated (h.terminated hterm)

theorem set (mem : Bytes) (i : Nat) : Kept mem (mem.set i 0) :=
  ⟨List.length_set, fun h => h.set i⟩

theorem strtokAt (delims mem : Bytes) (start : Option Nat) : Kept mem (strtokAt delims mem start).mem := by
  cases start with
  | none => exact refl mem
  | some p =>
    unfold CLib.strtokAt
    dsimp only
    split
    . exact refl mem
    . split
      . exact refl mem
      . apply set

end Kept

end CLib
