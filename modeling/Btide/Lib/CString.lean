import Btide.Lib.Bytes
import Mathlib.Data.List.TakeWhile
import Mathlib.Data.Nat.Digits.Defs

/-!
This module contains the parts of the C library that the parsers use: strings, character classes,
`strtok`, `fgets` and `atoi`.
-/

namespace CLib

inductive Fault where
  | nullPointer
  | outOfBounds
  | uninitialised
  | intOverflow
  | useAfterFree
  deriving DecidableEq, Repr

def deref (p : Option α) : Except Fault α :=
  match p with
  | some a => .ok a
  | none => .error .nullPointer

@[simp]
theorem deref_some (a : α) : deref (some a) = .ok a := rfl

@[simp]
theorem deref_none : deref (none : Option α) = .error .nullPointer := rfl

theorem deref_eq_ok {p : Option α} {a : α} : deref p = .ok a ↔ p = some a := by
  cases p with
  | none => simp
  | some b => simp

theorem bind_eq_ok {x : Except Fault α} {f : α → Except Fault β} {b : β}
    : x >>= f = .ok b ↔ ∃ a, x = .ok a ∧ f a = .ok b := by
  cases x with
  | error e => simp [bind, Except.bind]
  | ok a => simp [bind, Except.bind]

theorem pure_eq_ok {a b : α} : (pure a : Except Fault α) = .ok b ↔ a = b := by
  simp only [pure, Except.pure, Except.ok.injEq]

theorem throw_eq_ok {e : Fault} {a : α} : (throw e : Except Fault α) = .ok a ↔ False := by
  simp [throw, throwThe, MonadExceptOf.throw]

theorem toOption_eq_some {x : Except Fault α} {a : α} : x.toOption = some a ↔ x = .ok a := by
  cases x with
  | error e => simp [Except.toOption]
  | ok b => simp [Except.toOption]

def INT_MAX : Nat := 2147483647

def intOfNat (i : Nat) : Except Fault Nat :=
  if i ≤ INT_MAX then .ok i else .error .intOverflow

def intAdd (a b : Int) : Except Fault Int :=
  if - (INT_MAX : Int) - 1 ≤ a + b ∧ a + b ≤ INT_MAX then .ok (a + b) else .error .intOverflow

def ascii (s : String) : Bytes :=
  s.toList.map Char.toUInt8

def cstr (mem : Bytes) : Bytes :=
  mem.takeWhile (· ≠ 0)

/--
`strncmp(a, b, n) == 0`. Strings never contain their terminator, so the comparison looks at the
first `n` characters only.
-/
def strncmpEq (a b : Bytes) (n : Nat) : Bool :=
  a.take n == b.take n

def strcpy (size : Nat) (src : Option Bytes) : Except Fault Bytes :=
  match src with
  | none => .error .nullPointer
  | some s => if s.length + 1 ≤ size then .ok s else .error .outOfBounds

def memcpy (mem : Bytes) (n : Nat) : Except Fault Bytes :=
  if n ≤ mem.length then .ok (mem.take n) else .error .outOfBounds

def newline : UInt8 := 10

def isspace (c : UInt8) : Bool :=
  c == 32 || (9 ≤ c && c ≤ 13)

def isdigit (c : UInt8) : Bool :=
  48 ≤ c && c ≤ 57

/--
One call of `strtok` on the saved position `s`: the token and the new saved position.
-/
def strtok (delims : Bytes) (s : Bytes) : Option Bytes × Bytes :=
  let s := s.dropWhile (delims.contains ·)
  if s = [] then
    (none, [])
  else
    (some (s.takeWhile (!delims.contains ·)), (s.dropWhile (!delims.contains ·)).drop 1)

/--
One call of `fgets` with a buffer of `size` bytes: the bytes read and the rest of the file.
-/
def fgets (size : Nat) (file : Bytes) : Option (Bytes × Bytes) :=
  if file = [] then none else some (go (size - 1) file)
where
  go : Nat → Bytes → Bytes × Bytes
    | 0, file => ([], file)
    | _, [] => ([], [])
    | n + 1, c :: file =>
      if c = newline then
        ([c], file)
      else
        (c :: (go n file).1, (go n file).2)

def fgetsLines (size : Nat) (file : Bytes) : List Bytes :=
  match fgets size file with
  | none => []
  | some (line, rest) =>
    if rest.length < file.length then
      line :: fgetsLines size rest
    else
      [line]
termination_by file.length

/--
`strtol` with base 10: optional whitespace, an optional sign, digits up to the first other
character, clamped to the range of a `long`.
-/
def strtol (s : Bytes) : Int :=
  let s := s.dropWhile isspace
  let digits (ds : Bytes) : Int :=
    (ds.takeWhile isdigit).foldl (fun acc d => 10 * acc + (d.toNat - 48 : Nat)) 0
  let v :=
    match s with
    | 43 :: ds => digits ds
    | 45 :: ds => - digits ds
    | ds => digits ds
  max (- 2 ^ 63) (min v (2 ^ 63 - 1))

def toInt (v : Int) : Int :=
  Int.bmod v (2 ^ 32)

def atoi (s : Bytes) : Int :=
  toInt (strtol s)

def decimalValue (ds : Bytes) : Nat :=
  ds.foldl (fun acc d => 10 * acc + (d.toNat - 48)) 0

def decimal (n : Nat) : Bytes :=
  ascii (String.ofList (Nat.toDigits 10 n))

theorem forall_mem_of_all {p : UInt8 → Prop} [DecidablePred p] {s : Bytes}
    (h : s.all (fun c => decide (p c)) = true) : ∀ c ∈ s, p c := by
  intro c hc
  exact of_decide_eq_true (List.all_eq_true.mp h c hc)

theorem strcpy_of_le {size : Nat} {s : Bytes} (h : s.length + 1 ≤ size)
    : strcpy size (some s) = .ok s := by
  simp only [strcpy, h, ↓reduceIte]

theorem intOfNat_of_le {i : Nat} (h : i ≤ INT_MAX) : intOfNat i = .ok i := by
  simp [intOfNat, h]

theorem toInt_of_le {n : Nat} (h : n ≤ INT_MAX) : toInt n = n := by
  unfold INT_MAX at h
  rw [toInt, Int.bmod_eq_of_le]
  all_goals omega

theorem cstr_of_forall {s : Bytes} (h : ∀ c ∈ s, c ≠ 0) : cstr s = s := by
  unfold cstr
  rw [List.takeWhile_eq_self_iff]
  simpa using h

theorem zero_not_mem_cstr (mem : Bytes) : ∀ c ∈ cstr mem, c ≠ 0 := by
  intro c hc
  have := List.mem_takeWhile_imp hc
  simpa using this

theorem cstr_take (mem : Bytes) (n : Nat) : cstr (mem.take n) = (cstr mem).take n := by
  unfold cstr
  rw [List.take_takeWhile]

theorem length_cstr_lt_iff (mem : Bytes) : (cstr mem).length < mem.length ↔ 0 ∈ mem := by
  constructor
  . intro hlt
    apply Classical.byContradiction
    intro hzero
    rw [cstr_of_forall (fun c hc heq => hzero (heq ▸ hc))] at hlt
    exact Nat.lt_irrefl _ hlt
  . intro hzero
    apply Nat.lt_of_le_of_ne (List.takeWhile_prefix _).length_le
    intro heq
    have hall : cstr mem = mem := (List.takeWhile_prefix _).eq_of_length heq
    rw [← hall] at hzero
    exact zero_not_mem_cstr mem 0 hzero rfl

theorem cstr_append_of_mem {mem : Bytes} (h : 0 ∈ mem) (rest : Bytes) : cstr (mem ++ rest) = cstr mem := by
  unfold cstr
  induction mem with
  | nil => simp at h
  | cons c mem ih =>
    rw [List.cons_append, List.takeWhile_cons, List.takeWhile_cons]
    by_cases hc : c = 0
    . simp [hc]
    . have hmem : 0 ∈ mem := by
        rw [List.mem_cons] at h
        exact h.resolve_left fun hzero => hc hzero.symm
      rw [ih hmem]

theorem cstr_append_of_forall {mem : Bytes} (h : ∀ c ∈ mem, c ≠ 0) (rest : Bytes)
    : cstr (mem ++ rest) = mem ++ cstr rest := by
  unfold cstr
  apply List.takeWhile_append_of_pos
  intro c hc
  simpa using h c hc

theorem cstr_append_replicate (mem : Bytes) (n : Nat) : cstr (mem ++ List.replicate n 0) = cstr mem := by
  unfold cstr
  induction mem with
  | nil =>
    cases n with
    | zero => rfl
    | succ n => rfl
  | cons c mem ih =>
    rw [List.cons_append, List.takeWhile_cons, List.takeWhile_cons, ih]

theorem strncmpEq_cstr_congr {mem mem' : Bytes} {n : Nat} (h : mem.take n = mem'.take n) (a : Bytes)
    : strncmpEq a (cstr mem) n = strncmpEq a (cstr mem') n := by
  unfold strncmpEq
  rw [← cstr_take, ← cstr_take, h]

theorem strtok_mem {delims s tok : Bytes} (h : (strtok delims s).1 = some tok)
    : tok ≠ [] ∧ ∀ c ∈ tok, c ∈ s ∧ c ∉ delims := by
  unfold strtok at h
  dsimp at h
  split at h
  . simp at h
  . next hne =>
    simp only [Option.some.injEq] at h
    rw [← h]
    constructor
    . cases hs : s.dropWhile (delims.contains ·) with
      | nil => contradiction
      | cons c rest =>
        have := List.head?_dropWhile_not (delims.contains ·) s
        simp only [hs, List.head?_cons] at this
        simpa using this
    . intro c hc
      constructor
      . apply (List.dropWhile_suffix (delims.contains ·)).subset
        apply (List.takeWhile_prefix _).subset
        exact hc
      . have := List.mem_takeWhile_imp hc
        simpa using this

theorem strtok_saved_mem {delims s : Bytes} {c : UInt8} (h : c ∈ (strtok delims s).2) : c ∈ s := by
  unfold strtok at h
  dsimp at h
  split at h
  . simp at h
  . have hdrop := List.mem_of_mem_drop h
    have hinner := (List.dropWhile_suffix _).subset hdrop
    exact (List.dropWhile_suffix _).subset hinner

theorem dropWhile_delims {delims a : Bytes} (ha : a ≠ []) (hmem : ∀ c ∈ a, c ∉ delims) (b : Bytes)
    : (a ++ b).dropWhile (delims.contains ·) = a ++ b := by
  cases a with
  | nil => contradiction
  | cons c a => simp [hmem c (by simp)]

theorem strtok_append {delims a b : Bytes} {d : UInt8} (ha : a ≠ [])
    (hmem : ∀ c ∈ a, c ∉ delims) (hd : d ∈ delims)
    : strtok delims (a ++ d :: b) = (some a, b) := by
  unfold strtok
  rw [dropWhile_delims ha hmem]
  dsimp only
  rw [List.takeWhile_append_of_pos, List.dropWhile_append_of_pos]
  . simp [hd]
  . simpa using hmem
  . simpa using hmem

theorem strtok_last {delims a : Bytes} (ha : a ≠ []) (hmem : ∀ c ∈ a, c ∉ delims)
    : strtok delims a = (some a, []) := by
  have hskip := dropWhile_delims ha hmem []
  have htake : a.takeWhile (!delims.contains ·) = a := by
    rw [List.takeWhile_eq_self_iff]
    simpa using hmem
  have hdrop : a.dropWhile (!delims.contains ·) = [] := by
    rw [List.dropWhile_eq_nil_iff]
    simpa using hmem
  unfold strtok
  rw [List.append_nil] at hskip
  rw [hskip]
  dsimp only
  rw [htake, hdrop]
  simp [ha]

namespace fgets

theorem go_line {n : Nat} {body : Bytes} (hlen : body.length < n)
    (hbody : ∀ c ∈ body, c ≠ newline) (rest : Bytes)
    : go n (body ++ newline :: rest) = (body ++ [newline], rest) := by
  induction body generalizing n with
  | nil =>
    cases n with
    | zero => simp at hlen
    | succ n => simp [go]
  | cons c body ih =>
    cases n with
    | zero => simp at hlen
    | succ n =>
      have hc : c ≠ newline := hbody c (by simp)
      have hrec := ih (by simpa using hlen) (by
        intro x hx
        exact hbody x (by simp [hx]))
      simp only [List.cons_append, go, hc, ↓reduceIte, hrec]

end fgets

theorem fgetsLines_nil (size : Nat) : fgetsLines size [] = [] := by
  unfold fgetsLines
  simp [fgets]

theorem fgetsLines_line {size : Nat} {body rest : Bytes} (hlen : body.length + 1 < size)
    (hbody : ∀ c ∈ body, c ≠ newline)
    : fgetsLines size (body ++ newline :: rest)
        =
      (body ++ [newline]) :: fgetsLines size rest := by
  conv => lhs; unfold fgetsLines
  have hgo := fgets.go_line (show body.length < size - 1 by omega) hbody rest
  have hlt : rest.length < (body ++ newline :: rest).length := by
    simp only [List.length_append, List.length_cons]
    omega
  simp only [fgets, List.append_eq_nil_iff, reduceCtorEq, and_false, ↓reduceIte, hgo, hlt]

theorem isdigit_not_isspace {c : UInt8} (h : isdigit c = true) : isspace c = false := by
  simp only [isdigit, isspace, Bool.and_eq_true, decide_eq_true_eq, UInt8.le_iff_toNat_le,
    UInt8.reduceToNat, Bool.or_eq_false_iff, beq_eq_false_iff_ne, ne_eq, Bool.and_eq_false_imp,
    decide_eq_false_iff_not] at *
  constructor
  . intro heq
    simp [heq] at h
  . omega

theorem decimalValue_foldl (ds : Bytes) (acc : Nat)
    : (ds.foldl (fun (acc : Int) d => 10 * acc + (d.toNat - 48 : Nat)) (acc : Int))
        =
      ((ds.foldl (fun acc d => 10 * acc + (d.toNat - 48)) acc : Nat) : Int) := by
  induction ds generalizing acc with
  | nil => rfl
  | cons d ds ih =>
    simp only [List.foldl_cons]
    rw [← ih]
    congr 1

theorem strtol_digits {ds : Bytes} (h : ∀ c ∈ ds, isdigit c = true)
    : strtol ds = min (decimalValue ds : Int) (2 ^ 63 - 1) := by
  have htake : ds.takeWhile isdigit = ds := by
    rw [List.takeWhile_eq_self_iff]
    exact h
  have hval := decimalValue_foldl ds 0
  have hdrop : ds.dropWhile isspace = ds := by
    cases ds with
    | nil => rfl
    | cons c ds => simp [isdigit_not_isspace (h c (by simp))]
  unfold strtol
  simp only [hdrop]
  split
  . have := h 43 (by simp)
    contradiction
  . have := h 45 (by simp)
    contradiction
  . simp only [htake, decimalValue]
    simp only [Nat.cast_zero] at hval
    rw [hval]
    omega

theorem atoi_digits {ds : Bytes} (h : ∀ c ∈ ds, isdigit c = true)
    (hlt : decimalValue ds < 2 ^ 31)
    : atoi ds = decimalValue ds := by
  rw [atoi, strtol_digits h, toInt]
  rw [Int.bmod_eq_of_le]
  all_goals omega

theorem atoi_eq_iff {ds : Bytes} (h : ∀ c ∈ ds, isdigit c = true)
    : atoi ds = decimalValue ds ↔ decimalValue ds < 2 ^ 31 := by
  constructor
  . intro heq
    have hlt := @Int.bmod_lt (strtol ds) (2 ^ 32) (by decide)
    rw [atoi, toInt] at heq
    omega
  . exact atoi_digits h

theorem atoi_emod_two_pow {w : Nat} (hw : w ≤ 32) (s : Bytes) : atoi s % 2 ^ w = strtol s % 2 ^ w := by
  have hdvd : (2 : Int) ^ w ∣ ((2 ^ 32 : Nat) : Int) := by
    rw [Nat.cast_pow]
    exact pow_dvd_pow 2 hw
  rw [atoi, toInt, ← Int.emod_emod_of_dvd _ hdvd, Int.bmod_emod, Int.emod_emod_of_dvd _ hdvd]

theorem atoi_emod_eq_iff {ds : Bytes} (h : ∀ c ∈ ds, isdigit c = true) {w : Nat} (hw : w ≤ 32)
    : atoi ds % 2 ^ w = decimalValue ds ↔ decimalValue ds < 2 ^ w := by
  have hpow : (2 : Nat) ^ w ≤ 2 ^ 32 := Nat.pow_le_pow_right (by decide) hw
  have hpos : (0 : Nat) < 2 ^ w := Nat.two_pow_pos w
  have hcast : ((2 : Int) ^ w) = ((2 ^ w : Nat) : Int) := by
    rw [Nat.cast_pow]
    rfl
  rw [atoi_emod_two_pow hw, strtol_digits h, hcast]
  constructor
  . intro heq
    have hlt := Int.emod_lt_of_pos (min (decimalValue ds : Int) (2 ^ 63 - 1)) (b := (2 ^ w : Nat)) (by omega)
    omega
  . intro hlt
    rw [Int.min_eq_left (by omega), ← Int.natCast_emod, Nat.mod_eq_of_lt hlt]

theorem uint32_atoi_eq_iff {ds : Bytes} (h : ∀ c ∈ ds, isdigit c = true)
    : ((UInt32.ofInt (atoi ds)).toNat : Int) = decimalValue ds ↔ decimalValue ds < 2 ^ 32 := by
  rw [← atoi_emod_eq_iff h (Nat.le_refl 32), UInt32.ofInt, UInt32.toNat_ofNat']
  omega

theorem uint16_atoi_eq_iff {ds : Bytes} (h : ∀ c ∈ ds, isdigit c = true)
    : ((UInt16.ofInt (atoi ds)).toNat : Int) = decimalValue ds ↔ decimalValue ds < 2 ^ 16 := by
  rw [← atoi_emod_eq_iff h (show 16 ≤ 32 by decide), UInt16.ofInt, UInt16.toNat_ofNat']
  omega

theorem fgetsLines_flatMap {size : Nat} {bodies : List Bytes}
    (h : ∀ body ∈ bodies, body.length + 1 < size ∧ ∀ c ∈ body, c ≠ newline)
    : fgetsLines size (bodies.flatMap (· ++ [newline])) = bodies.map (· ++ [newline]) := by
  induction bodies with
  | nil => exact fgetsLines_nil size
  | cons body bodies ih =>
    obtain ⟨hlen, hbody⟩ := h body (by simp)
    have hrest := ih fun other hother => h other (by simp [hother])
    rw [List.flatMap_cons, List.append_assoc, List.singleton_append, fgetsLines_line hlen hbody,
      hrest, List.map_cons]

theorem toUInt8_of_isDigit {c : Char} (h : c.isDigit = true)
    : isdigit c.toUInt8 = true ∧ c.toUInt8.toNat = c.toNat := by
  have hlo : 48 ≤ c.toNat ∧ c.toNat ≤ 57 := by
    simp only [Char.isDigit, Bool.and_eq_true, decide_eq_true_eq, ge_iff_le, UInt32.le_iff_toNat_le]
      at h
    exact h
  have hnat : c.toUInt8.toNat = c.toNat := by
    have hmod : c.toUInt8.toNat = c.toNat % 256 := rfl
    omega
  refine ⟨?_, hnat⟩
  simp only [isdigit, Bool.and_eq_true, decide_eq_true_eq, UInt8.le_iff_toNat_le, hnat,
    UInt8.reduceToNat]
  omega

theorem decimal_eq (n : Nat) : decimal n = (Nat.toDigits 10 n).map Char.toUInt8 := by
  simp [decimal, ascii]

theorem isdigit_decimal (n : Nat) : ∀ c ∈ decimal n, isdigit c = true := by
  intro c hc
  rw [decimal_eq, List.mem_map] at hc
  obtain ⟨d, hd, rfl⟩ := hc
  exact (toUInt8_of_isDigit (Nat.isDigit_of_mem_toDigits (by omega) (by omega) hd)).1

theorem decimal_ne_nil (n : Nat) : decimal n ≠ [] := by
  rw [decimal_eq]
  simp [Nat.toDigits_ne_nil]

theorem length_decimal_le {n k : Nat} (hk : 0 < k) (h : n < 10 ^ k) : (decimal n).length ≤ k := by
  rw [decimal_eq, List.length_map]
  exact Nat.toDigits_length 10 n k hk h

theorem decimalValue_decimal (n : Nat) : decimalValue (decimal n) = n := by
  have hdigits : ∀ c ∈ Nat.toDigits 10 n, c.toUInt8.toNat = c.toNat := by
    intro c hc
    exact (toUInt8_of_isDigit (Nat.isDigit_of_mem_toDigits (by omega) (by omega) hc)).2
  have hfold (l : List Char) (hl : ∀ c ∈ l, c.toUInt8.toNat = c.toNat) (acc : Nat)
      : (l.map Char.toUInt8).foldl (fun acc d => 10 * acc + (d.toNat - 48)) acc
        = Nat.ofDigitChars 10 l acc := by
    induction l generalizing acc with
    | nil => simp
    | cons c l ih =>
      rw [List.map_cons, List.foldl_cons, Nat.ofDigitChars_cons, hl c (by simp), ih]
      . rfl
      . intro d hd
        exact hl d (by simp [hd])
  rw [decimalValue, decimal_eq, hfold _ hdigits, Nat.ofDigitChars_ten_toDigits]

theorem atoi_decimal {n : Nat} (h : n < 2 ^ 31) : atoi (decimal n) = n := by
  have hvalue := decimalValue_decimal n
  rw [atoi_digits (isdigit_decimal n) (by omega), hvalue]

theorem uint32_atoi_decimal {n : Nat} (h : n < 2 ^ 32) : UInt32.ofInt (atoi (decimal n)) = UInt32.ofNat n := by
  have hvalue := decimalValue_decimal n
  have heq := (uint32_atoi_eq_iff (isdigit_decimal n)).mpr (by omega)
  apply UInt32.toNat_inj.mp
  rw [UInt32.toNat_ofNat_of_lt' h]
  omega

end CLib
