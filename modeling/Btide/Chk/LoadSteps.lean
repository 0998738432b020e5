import Btide.Chk.BpkgLoad
import Mathlib.Data.List.Forall2

/-!
This module contains the steps of `bpkg_load`: what a line does to the state if it raises no error.
-/

open CLib

namespace Btide
namespace bpkgLoad

def lineKey (line : Bytes) : Option Bytes :=
  (strtok (ascii ":") (cstr line)).1.map trim

def lineValue (line : Bytes) : Option Bytes :=
  (strtok (ascii ":") (strtok (ascii ":") (cstr line)).2).1.map trim

def lineCount (line : Bytes) : UInt32 :=
  UInt32.ofInt (atoi ((lineValue line).getD []))

def readHash (line : Bytes) : Except Fault Bytes := do
  let value ← stripWhitespace (strtok (ascii " ") (cstr line)).1
  strcpy 65 value

theorem stripWhitespace_map_trim {s : Option Bytes} (hs : ∀ t, s = some t → ∀ c ∈ t, c ≠ 0)
    : stripWhitespace s = .ok (s.map trim) := by
  cases s with
  | none => rfl
  | some t => exact stripWhitespace_eq_trim (hs t rfl)

theorem stripWhitespace_token {delims s : Bytes} (hs : ∀ c ∈ s, c ≠ 0)
    : stripWhitespace (strtok delims s).1 = .ok ((strtok delims s).1.map trim) := by
  apply stripWhitespace_map_trim
  intro t ht c hc
  exact hs c ((strtok_mem ht).2 c hc).1

theorem readLine_eq (dir : Option Bytes) (line : Bytes) (lines : List Bytes) (st : State)
    : readLine dir line lines st
        =
      match lineKey line with
      | none => .error .nullPointer
      | some key =>
        match sectionOf dir key with
        | some readSection => readSection (lineValue line) lines st
        | none => .ok (true, st) := by
  have hline := zero_not_mem_cstr line
  have hsaved : ∀ c ∈ (strtok (ascii ":") (cstr line)).2, c ≠ 0 := by
    intro c hc
    exact hline c (strtok_saved_mem hc)
  unfold readLine
  dsimp only
  rw [stripWhitespace_token hline, stripWhitespace_token hsaved]
  unfold lineKey lineValue
  cases (strtok (ascii ":") (cstr line)).1 with
  | none => rfl
  | some key => rfl

def prefixArray (entries : List α) (room : Nat) : List (Option α) :=
  entries.map some ++ List.replicate room none

theorem prefixArray_set (entries : List α) (room : Nat) (a : α)
    : (prefixArray entries (room + 1)).set entries.length (some a)
        =
      prefixArray (entries ++ [a]) room := by
  simp [prefixArray, List.replicate_succ]

/--
The common form of the two loops that fill an array: `read` gives the entry of a line or reports a
malformed line.
-/
def fillArray (read : Bytes → Except Fault (Option α)) (n : Nat)
    : List Bytes → List (Option α) → Nat → Except Fault (Bool × List (Option α) × Nat)
  | [], arr, counter => .ok (false, arr, counter)
  | line :: lines, arr, counter =>
    if counter < n then do
      match ← read line with
      | none => return (true, arr, counter)
      | some entry =>
        let counter' ← intOfNat (counter + 1)
        fillArray read n lines (arr.set counter (some entry)) counter'
    else
      .ok (false, arr, counter)

theorem readHashes_cons {nhashes : UInt32} {counter : Nat} (h : counter < nhashes.toNat)
    (line : Bytes) (lines : List Bytes) (arr : List (Option Bytes))
    : readHashes nhashes (line :: lines) arr counter = (do
        let hash ← readHash line
        let counter' ← intOfNat (counter + 1)
        readHashes nhashes lines (arr.set counter (some hash)) counter') := by
  unfold readHash
  conv => lhs; unfold readHashes
  simp only [h, ↓reduceIte, bind_assoc]

theorem readHashes_eq_fillArray (nhashes : UInt32) (lines : List Bytes) (arr : List (Option Bytes))
    (counter : Nat)
    : (readHashes nhashes lines arr counter).map (fun res => (false, res))
        =
      fillArray (fun line => (readHash line).map some) nhashes.toNat lines arr counter := by
  induction lines generalizing arr counter with
  | nil => rfl
  | cons line lines ih =>
    unfold fillArray
    by_cases h : counter < nhashes.toNat
    . rw [readHashes_cons h]
      simp only [h, ↓reduceIte]
      cases readHash line with
      | error e => rfl
      | ok hash =>
        dsimp only [bind, Except.bind, Except.map]
        cases intOfNat (counter + 1) with
        | error e => rfl
        | ok counter' => exact ih _ _
    . unfold readHashes
      simp only [h, ↓reduceIte]
      rfl

theorem readChunks_eq_fillArray (nchunks : UInt32) (lines : List Bytes) (arr : List (Option Chunk))
    (counter : Nat)
    : readChunks nchunks lines arr counter
        =
      fillArray readChunk nchunks.toNat lines arr counter := by
  induction lines generalizing arr counter with
  | nil => rfl
  | cons line lines ih =>
    unfold readChunks fillArray
    by_cases h : counter < nchunks.toNat
    . simp only [h, ↓reduceIte, ih]
      cases readChunk line with
      | error e => rfl
      | ok res =>
        cases res with
        | none => rfl
        | some chunk => rfl
    . simp only [h, ↓reduceIte]
      rfl

theorem fillArray_iff {read : Bytes → Except Fault (Option α)} {n : Nat} {lines : List Bytes}
    {entries : List α} {room : Nat} (hn : n = entries.length + room) {arr : List (Option α)}
    {counter : Nat}
    : fillArray read n lines (prefixArray entries room) entries.length = .ok (false, arr, counter)
        ↔
      ∃ new,
        List.Forall₂ (fun line entry => read line = .ok (some entry)) (lines.take room) new
          ∧ (new ≠ [] → entries.length + new.length ≤ INT_MAX)
          ∧ arr = prefixArray (entries ++ new) (room - new.length)
          ∧ counter = entries.length + new.length := by
  induction lines generalizing entries room with
  | nil =>
    unfold fillArray
    simp [eq_comm]
  | cons line lines ih =>
    cases room with
    | zero =>
      have hfull : ¬ entries.length < n := by omega
      unfold fillArray
      simp [hfull, eq_comm]
    | succ room =>
      have hroom : entries.length < n := by omega
      unfold fillArray
      simp only [hroom, ↓reduceIte, List.take_succ_cons]
      cases hread : read line with
      | error e =>
        simp only [bind, Except.bind, reduceCtorEq, false_iff]
        rintro ⟨new, hall, _⟩
        cases hall with
        | cons hhead _ =>
          rw [hread] at hhead
          contradiction
      | ok res =>
        cases res with
        | none =>
          simp only [bind, Except.bind, pure, Except.pure, Except.ok.injEq, Prod.mk.injEq,
            Bool.true_eq_false, false_and, false_iff]
          rintro ⟨new, hall, _⟩
          cases hall with
          | cons hhead _ =>
            rw [hread] at hhead
            cases hhead
        | some entry =>
          have hlength : (entries ++ [entry]).length = entries.length + 1 := by simp
          by_cases hmax : entries.length + 1 ≤ INT_MAX
          . have ih := @ih (entries ++ [entry]) room (by omega)
            simp only [bind, Except.bind, intOfNat_of_le hmax, prefixArray_set]
            rw [← hlength, ih]
            constructor
            . rintro ⟨new, hall, hle, harr, hcounter⟩
              refine ⟨entry :: new, .cons hread hall, ?_, ?_, ?_⟩
              . intro _
                cases new with
                | nil => simpa using hmax
                | cons h t =>
                  have := hle (by simp)
                  rw [hlength] at this
                  simp only [List.length_cons] at *
                  omega
              . rw [harr]
                simp
              . rw [hcounter, hlength, List.length_cons]
                omega
            . rintro ⟨new, hall, hle, harr, hcounter⟩
              cases hall with
              | @cons _ entry' _ new hhead hall =>
                rw [hread, Except.ok.injEq, Option.some.injEq] at hhead
                rw [← hhead] at hle harr hcounter
                refine ⟨new, hall, ?_, ?_, ?_⟩
                . intro _
                  have := hle (by simp)
                  rw [hlength]
                  simp only [List.length_cons] at this
                  omega
                . rw [harr]
                  simp
                . rw [hcounter, hlength, List.length_cons]
                  omega
          . simp only [bind, Except.bind, intOfNat, hmax, ↓reduceIte, reduceCtorEq, false_iff]
            rintro ⟨new, hall, hle, _, _⟩
            cases hall with
            | cons _ _ =>
              have := hle (by simp)
              simp only [List.length_cons] at this
              omega

theorem readHashes_iff {nhashes : UInt32} {lines : List Bytes} {arr : List (Option Bytes)}
    {counter : Nat}
    : readHashes nhashes lines (prefixArray [] nhashes.toNat) 0 = .ok (arr, counter)
        ↔
      ∃ hashes,
        List.Forall₂ (fun line hash => readHash line = .ok hash) (lines.take nhashes.toNat) hashes
          ∧ (hashes ≠ [] → hashes.length ≤ INT_MAX)
          ∧ arr = prefixArray hashes (nhashes.toNat - hashes.length)
          ∧ counter = hashes.length := by
  have hfill := readHashes_eq_fillArray nhashes lines (prefixArray [] nhashes.toNat) 0
  have hmap : readHashes nhashes lines (prefixArray [] nhashes.toNat) 0 = .ok (arr, counter)
      ↔ (readHashes nhashes lines (prefixArray [] nhashes.toNat) 0).map (fun res => (false, res))
        = .ok (false, arr, counter) := by
    cases readHashes nhashes lines (prefixArray [] nhashes.toNat) 0 with
    | error e => simp [Except.map]
    | ok res => simp [Except.map]
  have hread (line : Bytes) (hash : Bytes)
      : (readHash line).map some = .ok (some hash) ↔ readHash line = .ok hash := by
    cases readHash line with
    | error e => simp [Except.map]
    | ok h => simp [Except.map]
  rw [hmap, hfill]
  have hiff := @fillArray_iff _ (fun line => (readHash line).map some) nhashes.toNat lines [] _
    (Nat.zero_add _).symm arr counter
  simpa [hread] using hiff

theorem readChunks_iff {nchunks : UInt32} {lines : List Bytes} {arr : List (Option Chunk)}
    {counter : Nat}
    : readChunks nchunks lines (prefixArray [] nchunks.toNat) 0 = .ok (false, arr, counter)
        ↔
      ∃ chunks,
        List.Forall₂ (fun line chunk => readChunk line = .ok (some chunk))
            (lines.take nchunks.toNat) chunks
          ∧ (chunks ≠ [] → chunks.length ≤ INT_MAX)
          ∧ arr = prefixArray chunks (nchunks.toNat - chunks.length)
          ∧ counter = chunks.length := by
  have hiff := @fillArray_iff _ readChunk nchunks.toNat lines [] _ (Nat.zero_add _).symm arr counter
  rw [readChunks_eq_fillArray]
  simpa using hiff

/--
What a section does to the state if it raises no error. This is everything a line can do.
-/
inductive SectionStep (dir value : Option Bytes) (lines : List Bytes)
    : State → Bytes → State → Prop where
  | ident {obj : BpkgObj} {m n : Nat} {v : Bytes} (hvalue : value = some v)
      (hlen : v.length ≤ 1024)
      : SectionStep dir value lines ⟨obj, 0, m, n⟩ (ascii "ident")
          ⟨{ obj with ident := some v }, 1, m, n⟩
  | filename {obj : BpkgObj} {m n : Nat} {v : Bytes} (hvalue : value = some v)
      : SectionStep dir value lines ⟨obj, 1, m, n⟩ (ascii "filename")
          ⟨{ obj with filename := some (joinDir dir v) }, 2, m, n⟩
  | size {obj : BpkgObj} {m n : Nat} (hint : isAnInt value = .ok true)
      : SectionStep dir value lines ⟨obj, 2, m, n⟩ (ascii "size")
          ⟨{ obj with size := UInt32.ofInt (atoi (value.getD [])) }, 3, m, n⟩
  | nhashes {obj : BpkgObj} {m n : Nat} (hint : isAnInt value = .ok true)
      : SectionStep dir value lines ⟨obj, 3, m, n⟩ (ascii "nhashes")
          ⟨{ obj with nhashes := UInt32.ofInt (atoi (value.getD [])) }, 4, m, n⟩
  | hashes {obj : BpkgObj} {m n : Nat} {arr : List (Option Bytes)} {counter : Nat}
      (hread : readHashes obj.nhashes lines (prefixArray [] obj.nhashes.toNat) m = .ok (arr, counter))
      : SectionStep dir value lines ⟨obj, 4, m, n⟩ (ascii "hashes")
          ⟨{ obj with hashes := some arr }, 5, counter, n⟩
  | nchunks {obj : BpkgObj} {m n : Nat} (hint : isAnInt value = .ok true)
      : SectionStep dir value lines ⟨obj, 5, m, n⟩ (ascii "nchunks")
          ⟨{ obj with nchunks := UInt32.ofInt (atoi (value.getD [])) }, 6, m, n⟩
  | chunks {obj : BpkgObj} {m n : Nat} {arr : List (Option Chunk)} {counter : Nat}
      (hmax : obj.nchunks.toNat ≤ INT_MAX)
      (hread : readChunks obj.nchunks lines (prefixArray [] obj.nchunks.toNat) n
        = .ok (false, arr, counter))
      : SectionStep dir value lines ⟨obj, 6, m, n⟩ (ascii "chunks")
          ⟨{ obj with chunks := some arr }, 7, m, counter⟩

section Sections

variable {dir value : Option Bytes} {lines : List Bytes} {st st' : State}

@[simp]
theorem checkOrder_self (order m n : Nat) (obj : BpkgObj)
    : checkOrder order ⟨obj, order, m, n⟩ = (false, ⟨obj, order + 1, m, n⟩) := by
  simp [checkOrder]

theorem checkOrder_of_ne {order order' : Nat} (h : order' ≠ order) (m n : Nat) (obj : BpkgObj)
    : checkOrder order ⟨obj, order', m, n⟩ = (true, ⟨obj, order', m, n⟩) := by
  simp [checkOrder, h]

theorem readIdent_step (h : readIdent value lines st = .ok (false, st'))
    : SectionStep dir value lines st (ascii "ident") st' := by
  obtain ⟨obj, order, m, n⟩ := st
  unfold readIdent at h
  by_cases horder : order = 0
  . subst horder
    cases value with
    | none => simp [strcpy, bind, Except.bind] at h
    | some v =>
      by_cases hlen : v.length ≤ 1024
      . simp [strcpy_of_le (Nat.succ_le_succ hlen), bind, Except.bind, pure, Except.pure] at h
        rw [← h]
        exact .ident rfl hlen
      . have hover : strcpy 1025 (some v) = .error .outOfBounds := by
          simp only [strcpy, Nat.succ_le_succ_iff, hlen, ↓reduceIte]
        simp [hover, bind, Except.bind] at h
  . simp [checkOrder_of_ne horder, pure, Except.pure] at h

theorem readFilename_step (h : readFilename dir value lines st = .ok (false, st'))
    : SectionStep dir value lines st (ascii "filename") st' := by
  obtain ⟨obj, order, m, n⟩ := st
  unfold readFilename at h
  by_cases horder : order = 1
  . subst horder
    cases value with
    | none => simp [bind, Except.bind] at h
    | some v =>
      simp [bind, Except.bind, pure, Except.pure] at h
      rw [← h]
      exact .filename rfl
  . simp [checkOrder_of_ne horder, pure, Except.pure] at h

theorem isAnInt_of_ok {f : Except Fault (Bool × State)}
    (h : (do
      if !(← isAnInt value) then
        return (true, st)
      f) = .ok (false, st'))
    : isAnInt value = .ok true ∧ f = .ok (false, st') := by
  rw [unless_isAnInt_eq_ok] at h
  simpa using h

theorem readSize_step (h : readSize value lines st = .ok (false, st'))
    : SectionStep dir value lines st (ascii "size") st' := by
  obtain ⟨obj, order, m, n⟩ := st
  unfold readSize at h
  by_cases horder : order = 2
  . subst horder
    simp only [checkOrder_self, Bool.false_eq_true, ↓reduceIte] at h
    obtain ⟨hint, h⟩ := isAnInt_of_ok h
    simp only [pure_eq_ok, Prod.mk.injEq, true_and] at h
    rw [← h]
    exact .size hint
  . simp [checkOrder_of_ne horder, pure, Except.pure] at h

theorem readNhashes_step (h : readNhashes value lines st = .ok (false, st'))
    : SectionStep dir value lines st (ascii "nhashes") st' := by
  obtain ⟨obj, order, m, n⟩ := st
  unfold readNhashes at h
  obtain ⟨hint, h⟩ := isAnInt_of_ok h
  by_cases horder : order = 3
  . subst horder
    simp [pure, Except.pure] at h
    rw [← h]
    exact .nhashes hint
  . simp [checkOrder_of_ne horder, pure, Except.pure] at h

theorem readHashesSection_step (h : readHashesSection value lines st = .ok (false, st'))
    : SectionStep dir value lines st (ascii "hashes") st' := by
  obtain ⟨obj, order, m, n⟩ := st
  unfold readHashesSection at h
  dsimp only at h
  cases hread : readHashes obj.nhashes lines (List.replicate obj.nhashes.toNat none) m with
  | error e => simp [hread, bind, Except.bind] at h
  | ok res =>
    by_cases horder : order = 4
    . subst horder
      simp [hread, bind, Except.bind, pure, Except.pure] at h
      rw [← h]
      exact .hashes hread
    . simp [hread, checkOrder_of_ne horder, bind, Except.bind, pure, Except.pure] at h

theorem readNchunks_step (h : readNchunks value lines st = .ok (false, st'))
    : SectionStep dir value lines st (ascii "nchunks") st' := by
  obtain ⟨obj, order, m, n⟩ := st
  unfold readNchunks at h
  obtain ⟨hint, h⟩ := isAnInt_of_ok h
  by_cases horder : order = 5
  . subst horder
    simp [pure, Except.pure] at h
    rw [← h]
    exact .nchunks hint
  . simp [checkOrder_of_ne horder, pure, Except.pure] at h

theorem readChunksSection_step (h : readChunksSection value lines st = .ok (false, st'))
    : SectionStep dir value lines st (ascii "chunks") st' := by
  obtain ⟨obj, order, m, n⟩ := st
  unfold readChunksSection at h
  dsimp only at h
  by_cases hmax : obj.nchunks.toNat ≤ INT_MAX
  . cases hread : readChunks obj.nchunks lines (List.replicate obj.nchunks.toNat none) n with
    | error e => simp [hread, intOfNat_of_le hmax, bind, Except.bind] at h
    | ok res =>
      obtain ⟨errorFlag, arr, counter⟩ := res
      simp only [hread, intOfNat_of_le hmax, bind, Except.bind] at h
      by_cases horder : order = 6
      . subst horder
        cases errorFlag with
        | true => simp [pure, Except.pure] at h
        | false =>
          simp [pure, Except.pure] at h
          rw [← h]
          exact .chunks hmax hread
      . simp [horder, pure, Except.pure] at h
  . simp [intOfNat, hmax, bind, Except.bind] at h

theorem readLine_step {line : Bytes} (h : readLine dir line lines st = .ok (false, st'))
    : ∃ key,
        lineKey line = some key ∧ SectionStep dir (lineValue line) lines st key st' := by
  rw [readLine_eq] at h
  cases hkey : lineKey line with
  | none => simp [hkey] at h
  | some key =>
    refine ⟨key, rfl, ?_⟩
    simp only [hkey] at h
    unfold sectionOf at h
    split_ifs at h with h0 h1 h2 h3 h4 h5 h6
    . rw [h0]
      exact readIdent_step h
    . rw [h1]
      exact readFilename_step h
    . rw [h2]
      exact readSize_step h
    . rw [h3]
      exact readNhashes_step h
    . rw [h4]
      exact readHashesSection_step h
    . rw [h5]
      exact readNchunks_step h
    . rw [h6]
      exact readChunksSection_step h
    . simp at h

section SectionOf
variable (dir : Option Bytes)

theorem sectionOf_ident : sectionOf dir (ascii "ident") = some readIdent := rfl

theorem sectionOf_filename : sectionOf dir (ascii "filename") = some (readFilename dir) := rfl

theorem sectionOf_size : sectionOf dir (ascii "size") = some readSize := rfl

theorem sectionOf_nhashes : sectionOf dir (ascii "nhashes") = some readNhashes := rfl

theorem sectionOf_hashes : sectionOf dir (ascii "hashes") = some readHashesSection := rfl

theorem sectionOf_nchunks : sectionOf dir (ascii "nchunks") = some readNchunks := rfl

theorem sectionOf_chunks : sectionOf dir (ascii "chunks") = some readChunksSection := rfl

end SectionOf

theorem readLine_of_step {line key : Bytes} (hkey : lineKey line = some key)
    (h : SectionStep dir (lineValue line) lines st key st')
    : readLine dir line lines st = .ok (false, st') := by
  rw [readLine_eq, hkey]
  dsimp only
  cases h with
  | ident hvalue hlen =>
    rw [sectionOf_ident, hvalue]
    simp [readIdent, strcpy_of_le (Nat.succ_le_succ hlen), bind, Except.bind, pure, Except.pure]
  | filename hvalue =>
    rw [sectionOf_filename, hvalue]
    simp [readFilename, bind, Except.bind, pure, Except.pure]
  | size hint =>
    rw [sectionOf_size]
    simp [readSize, hint, bind, Except.bind, pure, Except.pure]
  | nhashes hint =>
    rw [sectionOf_nhashes]
    simp [readNhashes, hint, bind, Except.bind, pure, Except.pure]
  | hashes hread =>
    rw [sectionOf_hashes]
    simp only [prefixArray, List.map_nil, List.nil_append] at hread
    simp [readHashesSection, hread, bind, Except.bind, pure, Except.pure]
  | nchunks hint =>
    rw [sectionOf_nchunks]
    simp [readNchunks, hint, bind, Except.bind, pure, Except.pure]
  | chunks hmax hread =>
    rw [sectionOf_chunks]
    simp only [prefixArray, List.map_nil, List.nil_append] at hread
    simp [readChunksSection, hread, intOfNat_of_le hmax, bind, Except.bind, pure, Except.pure]

end Sections

end bpkgLoad
end Btide
