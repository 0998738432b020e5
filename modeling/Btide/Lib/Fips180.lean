import Btide.Lib.Bytes
import Mathlib.Data.Nat.Find
import Mathlib.Data.Nat.Prime.Basic

/-!
This module contains the SHA-256 hash of FIPS 180-4 for messages of whole bytes.
-/

open Bytes

namespace Fips180

abbrev Word := UInt32

def rootFraction (n p : Nat) : Word :=
  UInt32.ofNat (Nat.findGreatest (fun r => r ^ n ≤ p * 2 ^ (32 * n)) (p * 2 ^ 32))

def primes : List Nat :=
  (List.range 312).filter Nat.Prime

def constants : List Word :=
  primes.map (rootFraction 3)

@[ext]
structure Registers where
  a : Word
  b : Word
  c : Word
  d : Word
  e : Word
  f : Word
  g : Word
  h : Word
  deriving DecidableEq, Repr

namespace Registers

def ofList (words : List Word) : Registers where
  a := words.getD 0 0
  b := words.getD 1 0
  c := words.getD 2 0
  d := words.getD 3 0
  e := words.getD 4 0
  f := words.getD 5 0
  g := words.getD 6 0
  h := words.getD 7 0

def toList (r : Registers) : List Word :=
  [r.a, r.b, r.c, r.d, r.e, r.f, r.g, r.h]

def add (r s : Registers) : Registers where
  a := r.a + s.a
  b := r.b + s.b
  c := r.c + s.c
  d := r.d + s.d
  e := r.e + s.e
  f := r.f + s.f
  g := r.g + s.g
  h := r.h + s.h

def initial : Registers :=
  ofList ((primes.take 8).map (rootFraction 2))

end Registers

def rotr (n : Word) (x : Word) : Word :=
  x >>> n ||| x <<< (32 - n)

def ch (x y z : Word) : Word :=
  (x &&& y) ^^^ (~~~x &&& z)

def maj (x y z : Word) : Word :=
  (x &&& y) ^^^ (x &&& z) ^^^ (y &&& z)

def bigSigma0 (x : Word) : Word :=
  rotr 2 x ^^^ rotr 13 x ^^^ rotr 22 x

def bigSigma1 (x : Word) : Word :=
  rotr 6 x ^^^ rotr 11 x ^^^ rotr 25 x

def smallSigma0 (x : Word) : Word :=
  rotr 7 x ^^^ rotr 18 x ^^^ x >>> 3

def smallSigma1 (x : Word) : Word :=
  rotr 17 x ^^^ rotr 19 x ^^^ x >>> 10

def schedule (m : Nat → Word) (t : Nat) : Word :=
  if t < 16 then
    m t
  else
    smallSigma1 (schedule m (t - 2)) + schedule m (t - 7) + smallSigma0 (schedule m (t - 15))
      + schedule m (t - 16)
termination_by t

def step (w : Nat → Word) (r : Registers) (t : Nat) : Registers :=
  let t1 := r.h + bigSigma1 r.e + ch r.e r.f r.g + constants.getD t 0 + w t
  let t2 := bigSigma0 r.a + maj r.a r.b r.c
  { a := t1 + t2, b := r.a, c := r.b, d := r.c, e := r.d + t1, f := r.e, g := r.f, h := r.g }

def compress (hash : Registers) (m : Nat → Word) : Registers :=
  ((List.range 64).foldl (step (schedule m)) hash).add hash

def word (block : Bytes) (t : Nat) : Word :=
  UInt32.ofNat (ofLE (slice block (4 * t) 4).reverse)

def absorb (hash : Registers) (bytes : Bytes) : Registers :=
  if 64 ≤ bytes.length then absorb (compress hash (word bytes)) (bytes.drop 64) else hash
termination_by bytes.length

def padding (msg : Bytes) : Bytes :=
  0x80 :: List.replicate ((119 - msg.length % 64) % 64) 0 ++ (toLE 8 (8 * msg.length)).reverse

def digest (msg : Bytes) : Bytes :=
  (absorb .initial (msg ++ padding msg)).toList.flatMap fun word => (toLE 4 word.toNat).reverse

def hex (bytes : Bytes) : Bytes :=
  bytes.flatMap fun byte =>
    [(Nat.digitChar (byte.toNat / 16)).toUInt8, (Nat.digitChar (byte.toNat % 16)).toUInt8]

theorem rootFraction_eq {n p i : Nat} {w : Word}
    (hle : (i * 2 ^ 32 + w.toNat) ^ n ≤ p * 2 ^ (32 * n))
    (hlt : p * 2 ^ (32 * n) < (i * 2 ^ 32 + w.toNat + 1) ^ n) (hi : i < p)
    : rootFraction n p = w := by
  have hw := w.toNat_lt
  have hroot : Nat.findGreatest (fun r => r ^ n ≤ p * 2 ^ (32 * n)) (p * 2 ^ 32)
      = i * 2 ^ 32 + w.toNat := by
    rw [Nat.findGreatest_eq_iff]
    refine ⟨by omega, fun _ => hle, ?_⟩
    intro r hr _ hpow
    have hmono : (i * 2 ^ 32 + w.toNat + 1) ^ n ≤ r ^ n := Nat.pow_le_pow_left hr n
    omega
  rw [rootFraction, hroot]
  apply UInt32.toNat_inj.mp
  rw [UInt32.toNat_ofNat']
  omega

section
variable {m m' : Nat → Word} {t : Nat}

theorem schedule_of_lt (h : t < 16) : schedule m t = m t := by
  rw [schedule, if_pos h]

theorem schedule_of_ge (h : 16 ≤ t)
    : schedule m t
        =
      smallSigma1 (schedule m (t - 2)) + schedule m (t - 7) + smallSigma0 (schedule m (t - 15))
        + schedule m (t - 16) := by
  rw [schedule, if_neg (by omega)]

theorem schedule_congr (h : ∀ t < 16, m t = m' t) (t : Nat) : schedule m t = schedule m' t := by
  induction t using Nat.strongRecOn with
  | ind t ih =>
    by_cases hlt : t < 16
    . rw [schedule_of_lt hlt, schedule_of_lt hlt, h t hlt]
    . have hge : 16 ≤ t := by omega
      rw [schedule_of_ge hge, schedule_of_ge (m := m') hge, ih (t - 2) (by omega),
        ih (t - 7) (by omega), ih (t - 15) (by omega), ih (t - 16) (by omega)]

theorem compress_congr (h : ∀ t < 16, m t = m' t) (hash : Registers)
    : compress hash m = compress hash m' := by
  have hschedule : schedule m = schedule m' := by
    funext t
    exact schedule_congr h t
  rw [compress, compress, hschedule]

end

section
variable {hash : Registers} {xs ys : Bytes}

theorem word_append (h : 64 ≤ xs.length) (ys : Bytes) {t : Nat} (ht : t < 16)
    : word (xs ++ ys) t = word xs t := by
  rw [word, word, slice_append_left (by omega)]

theorem absorb_of_le (h : 64 ≤ xs.length)
    : absorb hash xs = absorb (compress hash (word xs)) (xs.drop 64) := by
  rw [absorb, if_pos h]

theorem absorb_of_lt (h : xs.length < 64) : absorb hash xs = hash := by
  rw [absorb, if_neg (by omega)]

theorem absorb_append (h : 64 ∣ xs.length) (ys : Bytes)
    : absorb hash (xs ++ ys) = absorb (absorb hash xs) ys := by
  induction hash, xs using absorb.induct with
  | case1 hash xs hle ih =>
    have hword : ∀ t < 16, word (xs ++ ys) t = word xs t := fun t ht => word_append hle ys ht
    have hrest : 64 ∣ (xs.drop 64).length := by
      rw [List.length_drop]
      omega
    rw [absorb_of_le hle, absorb_of_le (by rw [List.length_append]; omega), compress_congr hword,
      List.drop_append_of_le_length hle, ih hrest]
  | case2 hash xs hlt =>
    have hnil : xs = [] := by
      apply List.eq_nil_of_length_eq_zero
      omega
    rw [hnil, List.nil_append, absorb_of_lt (show ([] : Bytes).length < 64 by decide)]

theorem absorb_block (h : xs.length = 64) : absorb hash xs = compress hash (word xs) := by
  rw [absorb_of_le (by omega), absorb_of_lt]
  rw [List.length_drop]
  omega

end

end Fips180
