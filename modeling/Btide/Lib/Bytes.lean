import Mathlib.Algebra.Group.Nat.Defs
import Mathlib.Data.List.Basic
import Mathlib.Data.List.Nodup
import Mathlib.Tactic.Common

/-!
This module contains byte buffers: slices of a buffer, writes into a buffer and little endian words.
-/

abbrev Bytes := List UInt8

namespace Bytes

def slice (xs : Bytes) (off len : Nat) : Bytes :=
  (xs.drop off).take len

def splice (xs : Bytes) (off : Nat) (ys : Bytes) : Bytes :=
  xs.take off ++ ys ++ xs.drop (off + ys.length)

def patch (src dst : Bytes) (off len : Nat) : Bytes :=
  splice dst off (slice src off len)

@[simp]
theorem length_slice (xs : Bytes) (off len : Nat)
    : (slice xs off len).length = min len (xs.length - off) := by
  simp [slice]

theorem length_slice_of_le {xs : Bytes} {off len : Nat} (h : off + len ≤ xs.length)
    : (slice xs off len).length = len := by
  simp only [length_slice]
  omega

theorem getElem?_slice (xs : Bytes) (off len i : Nat)
    : (slice xs off len)[i]? = if i < len then xs[off + i]? else none := by
  simp only [slice, List.getElem?_take, List.getElem?_drop]

theorem slice_slice {xs : Bytes} {a n b m : Nat} (h : b + m ≤ n)
    : slice (slice xs a n) b m = slice xs (a + b) m := by
  apply List.ext_getElem?
  intro i
  simp only [getElem?_slice]
  split
  . have : b + i < n := by omega
    simp only [this, ↓reduceIte, Nat.add_assoc]
  . rfl

theorem slice_take {xs : Bytes} {n off len : Nat} (h : off + len ≤ n)
    : slice (xs.take n) off len = slice xs off len := by
  apply List.ext_getElem?
  intro i
  simp only [getElem?_slice, List.getElem?_take]
  split
  . have : off + i < n := by omega
    simp only [this, ↓reduceIte]
  . rfl

theorem slice_append_left {xs : Bytes} {off len : Nat} (h : off + len ≤ xs.length) (ys : Bytes)
    : slice (xs ++ ys) off len = slice xs off len := by
  apply List.ext_getElem?
  intro i
  simp only [getElem?_slice, List.getElem?_append]
  split
  . have : off + i < xs.length := by omega
    simp only [this, ↓reduceIte]
  . rfl

theorem slice_append_right (xs ys : Bytes) : slice (xs ++ ys) xs.length ys.length = ys := by
  simp [slice]

theorem slice_append_of_ge {xs ys : Bytes} {n off len : Nat} (hxs : xs.length = n) (h : n ≤ off)
    : slice (xs ++ ys) off len = slice ys (off - n) len := by
  rw [slice, slice, List.drop_append, List.drop_of_length_le (by omega), List.nil_append, hxs]

theorem slice_zero_append {xs : Bytes} {n : Nat} (hxs : xs.length = n) (ys : Bytes)
    : slice (xs ++ ys) 0 n = xs := by
  rw [slice, List.drop_zero, ← hxs, List.take_left]

theorem length_splice {xs ys : Bytes} {off : Nat} (h : off + ys.length ≤ xs.length)
    : (splice xs off ys).length = xs.length := by
  simp only [splice, List.length_append, List.length_take, List.length_drop]
  omega

theorem getElem?_splice {xs ys : Bytes} {off : Nat} (h : off + ys.length ≤ xs.length) (i : Nat)
    : (splice xs off ys)[i]? =
        if off ≤ i ∧ i < off + ys.length then ys[i - off]? else xs[i]? := by
  have hoff : min off xs.length = off := by omega
  simp only [splice, List.append_assoc, List.getElem?_append, List.length_take, hoff]
  split
  . have : ¬ (off ≤ i ∧ i < off + ys.length) := by omega
    simp only [this, ↓reduceIte, List.getElem?_take]
    simp [*]
  . split
    . have : off ≤ i ∧ i < off + ys.length := by omega
      simp only [this, and_self, ↓reduceIte]
    . have : ¬ (off ≤ i ∧ i < off + ys.length) := by omega
      simp only [this, ↓reduceIte, List.getElem?_drop]
      congr 1
      omega

theorem splice_append (a b ys : Bytes)
    : splice (a ++ b) a.length ys = a ++ ys ++ b.drop ys.length := by
  simp [splice, List.drop_append]

theorem slice_splice_disjoint {xs ys : Bytes} {off a n : Nat} (h : off + ys.length ≤ xs.length)
    (hd : a + n ≤ off ∨ off + ys.length ≤ a)
    : slice (splice xs off ys) a n = slice xs a n := by
  apply List.ext_getElem?
  intro i
  simp only [getElem?_slice, getElem?_splice h]
  split
  . have : ¬ (off ≤ a + i ∧ a + i < off + ys.length) := by omega
    simp only [this, ↓reduceIte]
  . rfl

theorem patch_self {xs : Bytes} {off len : Nat} (h : off + len ≤ xs.length)
    : patch xs xs off len = xs := by
  have hlen := length_slice_of_le h
  apply List.ext_getElem?
  intro i
  rw [patch, getElem?_splice (by omega)]
  split
  . rw [getElem?_slice]
    have : i - off < len := by omega
    simp only [this, ↓reduceIte]
    congr 1
    omega
  . rfl

theorem length_patch {src dst : Bytes} {off len : Nat} (hs : off + len ≤ src.length)
    (hd : off + len ≤ dst.length)
    : (patch src dst off len).length = dst.length := by
  apply length_splice
  rw [length_slice_of_le hs]
  exact hd

theorem getElem?_patch {src dst : Bytes} {off len : Nat} (hs : off + len ≤ src.length)
    (hd : off + len ≤ dst.length) (i : Nat)
    : (patch src dst off len)[i]? = if off ≤ i ∧ i < off + len then src[i]? else dst[i]? := by
  have hlen := length_slice_of_le hs
  rw [patch, getElem?_splice (by omega), hlen]
  split
  . rw [getElem?_slice]
    have : i - off < len := by omega
    simp only [this, ↓reduceIte]
    congr 1
    omega
  . rfl

def patchAll (src dst : Bytes) (ranges : List (Nat × Nat)) : Bytes :=
  ranges.foldl (fun dst r => patch src dst r.1 r.2) dst

@[simp]
theorem patchAll_nil (src dst : Bytes) : patchAll src dst [] = dst := rfl

@[simp]
theorem patchAll_cons (src dst : Bytes) (r : Nat × Nat) (ranges : List (Nat × Nat))
    : patchAll src dst (r :: ranges) = patchAll src (patch src dst r.1 r.2) ranges := rfl

theorem getElem?_patchAll {src dst : Bytes} {ranges : List (Nat × Nat)}
    (hs : ∀ r ∈ ranges, r.1 + r.2 ≤ src.length) (hd : ∀ r ∈ ranges, r.1 + r.2 ≤ dst.length)
    (i : Nat)
    : (patchAll src dst ranges)[i]? =
        if ∃ r ∈ ranges, r.1 ≤ i ∧ i < r.1 + r.2 then src[i]? else dst[i]? := by
  induction ranges generalizing dst with
  | nil => simp
  | cons r ranges ih =>
    have hr := hs r (by simp)
    have hr' := hd r (by simp)
    rw [patchAll_cons, ih]
    . rw [getElem?_patch hr hr']
      simp only [List.mem_cons, or_and_right, exists_or, exists_eq_left]
      by_cases hin : r.1 ≤ i ∧ i < r.1 + r.2
      . simp [hin]
      . simp only [hin, false_or, ↓reduceIte]
    . intro q hq
      exact hs q (by simp [hq])
    . intro q hq
      rw [length_patch hr hr']
      exact hd q (by simp [hq])

theorem patchAll_eq_patch {src dst : Bytes} {ranges : List (Nat × Nat)} {off len : Nat}
    (hs : off + len ≤ src.length) (hd : off + len ≤ dst.length)
    (hin : ∀ r ∈ ranges, off ≤ r.1 ∧ r.1 + r.2 ≤ off + len)
    (hcover : ∀ i, off ≤ i → i < off + len → ∃ r ∈ ranges, r.1 ≤ i ∧ i < r.1 + r.2)
    : patchAll src dst ranges = patch src dst off len := by
  apply List.ext_getElem?
  intro i
  rw [getElem?_patch hs hd, getElem?_patchAll]
  . congr 1
    apply propext
    constructor
    . rintro ⟨r, hr, hi⟩
      have := hin r hr
      omega
    . intro hi
      exact hcover i hi.1 hi.2
  . intro r hr
    have := hin r hr
    omega
  . intro r hr
    have := hin r hr
    omega

/--
The blocks that the range `[off, off + len)` is cut into. Only the last one may have less than `size`
bytes.
-/
def cut (size off len : Nat) : List (Nat × Nat) :=
  if _h : 0 < size ∧ 0 < len then
    (off, min len size) :: cut size (off + min len size) (len - min len size)
  else
    []
termination_by len

theorem cut_zero (size off : Nat) : cut size off 0 = [] := by
  unfold cut
  simp

theorem cut_of_pos {size off len : Nat} (hsize : 0 < size) (hlen : 0 < len)
    : cut size off len
        =
      (off, min len size) :: cut size (off + min len size) (len - min len size) := by
  conv => lhs; unfold cut
  simp only [hsize, hlen, and_self, ↓reduceDIte]

theorem length_cut {size : Nat} (hsize : 0 < size) (off len : Nat)
    : (cut size off len).length = (len + size - 1) / size := by
  induction len using Nat.strongRecOn generalizing off with
  | ind len ih =>
    by_cases hlen : 0 < len
    . rw [cut_of_pos hsize hlen, List.length_cons, ih _ (by omega)]
      by_cases hle : len ≤ size
      . have hdone : len - min len size + size - 1 = size - 1 := by omega
        have hone : len + size - 1 = (len - 1) + size := by omega
        rw [hdone, hone, Nat.add_div_right _ hsize, Nat.div_eq_of_lt (by omega),
          Nat.div_eq_of_lt (by omega)]
      . have hrest : len + size - 1 = (len - min len size + size - 1) + size := by omega
        rw [hrest, Nat.add_div_right _ hsize]
    . have hzero : len = 0 := by omega
      rw [hzero, cut_zero, Nat.zero_add, Nat.div_eq_of_lt (by omega)]
      rfl

theorem bounds_of_mem_cut {size off len : Nat} {r : Nat × Nat} (h : r ∈ cut size off len)
    : off ≤ r.1 ∧ r.1 + r.2 ≤ off + len ∧ 0 < r.2 ∧ r.2 ≤ size := by
  induction len using Nat.strongRecOn generalizing off with
  | ind len ih =>
    unfold cut at h
    split at h
    . next hpos =>
      rw [List.mem_cons] at h
      cases h with
      | inl h =>
        rw [h]
        dsimp only
        omega
      | inr h =>
        have := ih _ (by omega) h
        omega
    . simp at h

theorem mem_cut_of_between {size off len : Nat} (hsize : 0 < size) {i : Nat} (hlo : off ≤ i)
    (hhi : i < off + len) : ∃ r ∈ cut size off len, r.1 ≤ i ∧ i < r.1 + r.2 := by
  induction len using Nat.strongRecOn generalizing off with
  | ind len ih =>
    rw [cut_of_pos hsize (by omega)]
    by_cases hfirst : i < off + min len size
    . exact ⟨_, List.mem_cons_self, hlo, hfirst⟩
    . obtain ⟨r, hr, hi⟩ := @ih (len - min len size) (by omega) (off + min len size) (by omega)
        (by omega)
      exact ⟨r, List.mem_cons_of_mem _ hr, hi⟩

theorem getElem?_cut {size off len k : Nat} {r : Nat × Nat} (h : (cut size off len)[k]? = some r)
    : r = (off + size * k, min (len - size * k) size) ∧ size * k < len := by
  induction k generalizing off len with
  | zero =>
    unfold cut at h
    split at h
    . next hpos =>
      rw [List.getElem?_cons_zero, Option.some.injEq] at h
      exact ⟨h.symm, hpos.2⟩
    . simp at h
  | succ k ih =>
    unfold cut at h
    split at h
    . next hpos =>
      rw [List.getElem?_cons_succ] at h
      obtain ⟨hr, hlt⟩ := ih h
      -- a block behind this one means that this one is whole
      have hwhole : min len size = size := by omega
      have hnext : size * (k + 1) = size + size * k := by
        rw [Nat.mul_add, Nat.mul_one, Nat.add_comm]
      rw [hwhole] at hr hlt
      rw [hr, hnext, Nat.add_assoc, Nat.sub_sub]
      exact ⟨rfl, by omega⟩
    . simp at h

theorem end_le_of_getElem?_cut {size off len i k : Nat} {r r' : Nat × Nat}
    (h : (cut size off len)[i]? = some r) (h' : (cut size off len)[k]? = some r') (hik : i ≤ k)
    : r.1 + r.2 ≤ r'.1 + r'.2 := by
  obtain ⟨hr, hlt⟩ := getElem?_cut h
  obtain ⟨hr', hlt'⟩ := getElem?_cut h'
  have hmul := Nat.mul_le_mul_left size hik
  rw [hr, hr']
  dsimp only
  omega

def toLE : Nat → Nat → Bytes
  | 0, _ => []
  | k + 1, n => UInt8.ofNat n :: toLE k (n / 256)

def ofLE (xs : Bytes) : Nat :=
  xs.foldr (fun b n => b.toNat + 256 * n) 0

@[simp]
theorem length_toLE (k n : Nat) : (toLE k n).length = k := by
  induction k generalizing n with
  | zero => rfl
  | succ k ih => simp [toLE, ih]

theorem ofLE_toLE {k n : Nat} (h : n < 256 ^ k) : ofLE (toLE k n) = n := by
  induction k generalizing n with
  | zero =>
    have : n = 0 := by simpa using h
    simp [toLE, ofLE, this]
  | succ k ih =>
    have hdiv : n / 256 < 256 ^ k := by
      apply Nat.div_lt_of_lt_mul
      rw [Nat.mul_comm, ← Nat.pow_succ]
      exact h
    have hrec := ih hdiv
    simp only [ofLE] at hrec
    simp only [toLE, ofLE, List.foldr_cons, hrec, UInt8.toNat_ofNat']
    omega

theorem ofLE_lt (xs : Bytes) : ofLE xs < 256 ^ xs.length := by
  induction xs with
  | nil => simp [ofLE]
  | cons x xs ih =>
    have hx := x.toNat_lt
    rw [List.length_cons, Nat.pow_succ]
    simp only [ofLE, List.foldr_cons] at *
    omega

theorem toLE_ofLE (xs : Bytes) : toLE xs.length (ofLE xs) = xs := by
  induction xs with
  | nil => rfl
  | cons x xs ih =>
    have hx := x.toNat_lt
    have hdiv : (x.toNat + 256 * ofLE xs) / 256 = ofLE xs := by omega
    have hmod : UInt8.ofNat (x.toNat + 256 * ofLE xs) = x := by
      apply UInt8.toNat_inj.mp
      rw [UInt8.toNat_ofNat']
      omega
    have hcons : ofLE (x :: xs) = x.toNat + 256 * ofLE xs := rfl
    rw [List.length_cons, toLE, hcons, hdiv, hmod, ih]

end Bytes
