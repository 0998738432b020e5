import Btide.Chk.LoadError

/-!
This module contains the tokens of `bpkg_load`: the texts on which no string function is called on a
missing token and every copied token fits the block it is copied to.
-/

open CLib

namespace Btide
namespace bpkgLoad

/--
No string function was called on a null pointer and no copy left its block.
-/
def TokenSafe (x : Except Fault α) : Prop :=
  x ≠ .error .nullPointer ∧ x ≠ .error .outOfBounds

namespace TokenSafe

@[simp]
theorem ok (a : α) : TokenSafe (.ok a) := by
  simp [TokenSafe]

@[simp]
theorem pure_iff (a : α) : TokenSafe (pure a) ↔ True := by
  simp [TokenSafe, pure, Except.pure]

theorem bind_iff {x : Except Fault α} {f : α → Except Fault β}
    : TokenSafe (x >>= f) ↔ TokenSafe x ∧ ∀ a, x = .ok a → TokenSafe (f a) := by
  cases x with
  | error e => simp [TokenSafe, bind, Except.bind]
  | ok a => simp [TokenSafe, bind, Except.bind]

theorem map_iff {x : Except Fault α} {f : α → β} : TokenSafe (x.map f) ↔ TokenSafe x := by
  cases x with
  | error e => simp [TokenSafe, Except.map]
  | ok a => simp [TokenSafe, Except.map]

theorem deref_iff {p : Option α} : TokenSafe (deref p) ↔ p ≠ none := by
  cases p with
  | none => simp [TokenSafe]
  | some a => simp [TokenSafe]

theorem strcpy_iff {size : Nat} {src : Option Bytes}
    : TokenSafe (strcpy size src) ↔ ∃ s, src = some s ∧ s.length + 1 ≤ size := by
  cases src with
  | none => simp [TokenSafe, strcpy]
  | some s =>
    by_cases hlen : s.length + 1 ≤ size
    . refine iff_of_true ?_ ⟨s, rfl, hlen⟩
      rw [strcpy_of_le hlen]
      simp [TokenSafe]
    . refine iff_of_false ?_ ?_
      . simp only [strcpy, if_neg hlen]
        simp [TokenSafe]
      . rintro ⟨src, hsrc, hsize⟩
        cases hsrc
        exact hlen hsize

theorem isAnInt_iff {value : Option Bytes} : TokenSafe (isAnInt value) ↔ value ≠ none := by
  cases value with
  | none => simp [TokenSafe, isAnInt]
  | some s =>
    cases s with
    | nil => simp [TokenSafe, isAnInt]
    | cons c s => simp [TokenSafe, isAnInt]

@[simp]
theorem intOfNat (i : Nat) : TokenSafe (CLib.intOfNat i) := by
  unfold CLib.intOfNat
  by_cases hi : i ≤ INT_MAX
  . simp [TokenSafe, hi]
  . simp [TokenSafe, hi]

theorem unless_isAnInt_iff {value : Option Bytes} {a : α} {f : Except Fault α}
    : TokenSafe (do
        if !(← isAnInt value) then
          return a
        f)
        ↔
      value ≠ none ∧ (validInt value = true → TokenSafe f) := by
  rw [bind_iff, isAnInt_iff]
  apply and_congr_right
  intro hne
  cases hint : isAnInt value with
  | error e =>
    cases value with
    | none => contradiction
    | some s =>
      cases s with
      | nil => simp [isAnInt] at hint
      | cons c s => simp [isAnInt] at hint
  | ok b =>
    cases b with
    | false => simp [validInt, hint]
    | true => simp [validInt, hint]

end TokenSafe

def lineColumn (line : Bytes) : Option Bytes :=
  (strtok (ascii " ") (cstr line)).1.map trim

def chunkHashColumn (line : Bytes) : Option Bytes :=
  (strtok (ascii ",") ((lineColumn line).getD [])).1

def chunkOffsetColumn (line : Bytes) : Option Bytes :=
  (strtok (ascii ",") (strtok (ascii ",") ((lineColumn line).getD [])).2).1

def chunkSizeColumn (line : Bytes) : Option Bytes :=
  (strtok (ascii ",")
    (strtok (ascii ",") (strtok (ascii ",") ((lineColumn line).getD [])).2).2).1

def Fits (size : Nat) (token : Option Bytes) : Prop :=
  ∃ s, token = some s ∧ s.length + 1 ≤ size

/--
What a line of the list `chunks` needs. The columns are tested from the second one on, and a malformed
number ends the list.
-/
structure ChunkColumns (line : Bytes) : Prop where
  offset : chunkOffsetColumn line ≠ none
  size : validInt (chunkOffsetColumn line) = true → chunkSizeColumn line ≠ none
  hash : validInt (chunkOffsetColumn line) = true → validInt (chunkSizeColumn line) = true →
    Fits 65 (chunkHashColumn line)

theorem readHash_safe_iff (line : Bytes) : TokenSafe (readHash line) ↔ Fits 65 (lineColumn line) := by
  unfold readHash
  rw [stripWhitespace_token (zero_not_mem_cstr line)]
  exact TokenSafe.strcpy_iff

theorem readChunk_eq (line : Bytes)
    : readChunk line = (do
        if !(← isAnInt (chunkOffsetColumn line)) then
          return none
        if !(← isAnInt (chunkSizeColumn line)) then
          return none
        let hash ← strcpy 65 (chunkHashColumn line)
        return some
          { hash
            offset := UInt32.ofInt (atoi ((chunkOffsetColumn line).getD []))
            size := UInt32.ofInt (atoi ((chunkSizeColumn line).getD []))
            nodePtr := none }) := by
  unfold readChunk
  rw [stripWhitespace_token (zero_not_mem_cstr line)]
  rfl

theorem readChunk_safe_iff (line : Bytes) : TokenSafe (readChunk line) ↔ ChunkColumns line := by
  rw [readChunk_eq, TokenSafe.unless_isAnInt_iff, TokenSafe.unless_isAnInt_iff, TokenSafe.bind_iff,
    TokenSafe.strcpy_iff]
  constructor
  . rintro ⟨hoffset, hrest⟩
    exact ⟨hoffset, fun hvalid => (hrest hvalid).1, fun hvalid hvalid' => ((hrest hvalid).2 hvalid').1⟩
  . intro h
    refine ⟨h.offset, fun hvalid => ⟨h.size hvalid, fun hvalid' => ⟨h.hash hvalid hvalid', ?_⟩⟩⟩
    intro hash _
    exact TokenSafe.ok _

theorem fillArray_safe_iff {read : Bytes → Except Fault (Option α)} {n : Nat} {lines : List Bytes}
    {arr : List (Option α)} {counter : Nat} (hcounter : counter ≤ INT_MAX)
    : TokenSafe (fillArray read n lines arr counter)
        ↔
      ∀ i line, lines[i]? = some line → counter + i < n → counter + i ≤ INT_MAX
        → (∀ j line', j < i → lines[j]? = some line' → ∃ entry, read line' = .ok (some entry))
        → TokenSafe (read line) := by
  induction lines generalizing arr counter with
  | nil => simp [fillArray]
  | cons line lines ih =>
    unfold fillArray
    split
    . next hlt =>
      rw [TokenSafe.bind_iff]
      constructor
      . rintro ⟨hsafe, hrest⟩ i line' hline' hn hmax hbefore
        cases i with
        | zero =>
          rw [List.getElem?_cons_zero, Option.some.injEq] at hline'
          rw [← hline']
          exact hsafe
        | succ i =>
          obtain ⟨entry, hread⟩ := hbefore 0 line (Nat.succ_pos i) rfl
          have hrest := hrest _ hread
          have hle : counter + 1 ≤ INT_MAX := by omega
          dsimp only at hrest
          rw [intOfNat_of_le hle] at hrest
          apply (ih hle).mp hrest i line' hline' (by omega) (by omega)
          intro j line'' hj hline''
          exact hbefore (j + 1) line'' (Nat.succ_lt_succ hj) hline''
      . intro h
        have hsafe : TokenSafe (read line) := by
          apply h 0 line rfl hlt hcounter
          intro j _ hj
          contradiction
        refine ⟨hsafe, ?_⟩
        intro res hread
        cases res with
        | none => exact TokenSafe.ok _
        | some entry =>
          dsimp only
          rw [TokenSafe.bind_iff]
          refine ⟨TokenSafe.intOfNat _, ?_⟩
          intro counter' hcounter'
          by_cases hle : counter + 1 ≤ INT_MAX
          . rw [intOfNat_of_le hle, Except.ok.injEq] at hcounter'
            rw [← hcounter', ih hle]
            intro i line' hline' hn hmax hbefore
            apply h (i + 1) line' hline' (by omega) (by omega)
            intro j line'' hj hline''
            cases j with
            | zero =>
              rw [List.getElem?_cons_zero, Option.some.injEq] at hline''
              rw [← hline'']
              exact ⟨entry, hread⟩
            | succ j => exact hbefore j line'' (Nat.lt_of_succ_lt_succ hj) hline''
          . simp [CLib.intOfNat, hle] at hcounter'
    . next hge =>
      constructor
      . intro _ i _ _ hn
        omega
      . intro _
        exact TokenSafe.ok _

/--
What the tokens of one line, and of the list behind it, have to be. `nhashes` and `nchunks` read their
value and the lists read their lines before the order of the sections is checked, the others after it.
-/
structure TokensFit (line : Bytes) (lines : List Bytes) (st : State) : Prop where
  key : lineKey line ≠ none
  ident : lineKey line = some (ascii "ident") → st.orderIterator = 0 → Fits 1025 (lineValue line)
  filename : lineKey line = some (ascii "filename") → st.orderIterator = 1 → lineValue line ≠ none
  size : lineKey line = some (ascii "size") → st.orderIterator = 2 → lineValue line ≠ none
  nhashes : lineKey line = some (ascii "nhashes") → lineValue line ≠ none
  hashes : lineKey line = some (ascii "hashes") → ∀ i line', lines[i]? = some line' →
    st.nhashesCounter + i < st.obj.nhashes.toNat → st.nhashesCounter + i ≤ INT_MAX →
    Fits 65 (lineColumn line')
  nchunks : lineKey line = some (ascii "nchunks") → lineValue line ≠ none
  chunks : lineKey line = some (ascii "chunks") → st.obj.nchunks.toNat ≤ INT_MAX →
    ∀ i line', lines[i]? = some line' → st.nchunksCounter + i < st.obj.nchunks.toNat →
    (∀ j line'', j < i → lines[j]? = some line'' → ∃ chunk, readChunk line'' = .ok (some chunk)) →
    ChunkColumns line'

section Sections

variable {dir value : Option Bytes} {lines : List Bytes} {st : State}

theorem readIdent_safe_iff
    : TokenSafe (readIdent value lines st) ↔ (st.orderIterator = 0 → Fits 1025 value) := by
  obtain ⟨obj, order, m, n⟩ := st
  unfold readIdent
  by_cases horder : order = 0
  . rw [horder, checkOrder_self]
    dsimp only
    rw [if_neg (by decide), TokenSafe.bind_iff, TokenSafe.strcpy_iff]
    simp [Fits]
  . simp [checkOrder_of_ne horder, horder]

theorem readFilename_safe_iff
    : TokenSafe (readFilename dir value lines st) ↔ (st.orderIterator = 1 → value ≠ none) := by
  obtain ⟨obj, order, m, n⟩ := st
  unfold readFilename
  by_cases horder : order = 1
  . rw [horder, checkOrder_self]
    dsimp only
    rw [if_neg (by decide), TokenSafe.bind_iff, TokenSafe.deref_iff]
    simp
  . simp [checkOrder_of_ne horder, horder]

theorem readSize_safe_iff
    : TokenSafe (readSize value lines st) ↔ (st.orderIterator = 2 → value ≠ none) := by
  obtain ⟨obj, order, m, n⟩ := st
  unfold readSize
  by_cases horder : order = 2
  . rw [horder, checkOrder_self]
    dsimp only
    rw [if_neg (by decide), TokenSafe.unless_isAnInt_iff]
    simp
  . simp [checkOrder_of_ne horder, horder]

theorem readNhashes_safe_iff : TokenSafe (readNhashes value lines st) ↔ value ≠ none := by
  unfold readNhashes
  rw [TokenSafe.unless_isAnInt_iff]
  simp

theorem readNchunks_safe_iff : TokenSafe (readNchunks value lines st) ↔ value ≠ none := by
  unfold readNchunks
  rw [TokenSafe.unless_isAnInt_iff]
  simp

theorem readHashesSection_safe_iff (hcounter : st.nhashesCounter ≤ INT_MAX)
    : TokenSafe (readHashesSection value lines st)
        ↔
      ∀ i line, lines[i]? = some line → st.nhashesCounter + i < st.obj.nhashes.toNat
        → st.nhashesCounter + i ≤ INT_MAX → Fits 65 (lineColumn line) := by
  unfold readHashesSection
  dsimp only
  rw [TokenSafe.bind_iff, ← TokenSafe.map_iff (f := fun res => (false, res)), readHashes_eq_fillArray,
    fillArray_safe_iff hcounter]
  simp only [TokenSafe.map_iff, readHash_safe_iff, TokenSafe.pure_iff, implies_true, and_true]
  constructor
  . intro h i line hline hn hmax
    -- the lines of the list are read in order, so the earlier ones are safe
    induction i using Nat.strongRecOn generalizing line with
    | ind i ih =>
      apply h i line hline hn hmax
      intro j line' hj hline'
      obtain ⟨s, hs, hlen⟩ := ih j hj line' hline' (by omega) (by omega)
      refine ⟨s, ?_⟩
      have hread : readHash line' = .ok s := by
        unfold readHash
        rw [stripWhitespace_token (zero_not_mem_cstr line')]
        exact (congrArg (strcpy 65) hs).trans (strcpy_of_le hlen)
      rw [hread]
      rfl
  . intro h i line hline hn hmax _
    exact h i line hline hn hmax

theorem readChunksSection_safe_iff (hcounter : st.nchunksCounter ≤ INT_MAX)
    : TokenSafe (readChunksSection value lines st)
        ↔
      (st.obj.nchunks.toNat ≤ INT_MAX
        → ∀ i line, lines[i]? = some line → st.nchunksCounter + i < st.obj.nchunks.toNat
          → (∀ j line', j < i → lines[j]? = some line' → ∃ chunk, readChunk line' = .ok (some chunk))
          → ChunkColumns line) := by
  unfold readChunksSection
  rw [TokenSafe.bind_iff]
  by_cases hmax : st.obj.nchunks.toNat ≤ INT_MAX
  . have hrest (res : Bool × List (Option Chunk) × Nat) : TokenSafe (do
        let st' := { st with obj.chunks := some res.2.1, nchunksCounter := res.2.2 }
        if st'.orderIterator ≠ 6 then
          return (true, st')
        if res.1 then
          return (true, st')
        return (false, { st' with orderIterator := st'.orderIterator + 1 })) := by
      dsimp only
      split
      . exact TokenSafe.ok _
      . split
        . exact TokenSafe.ok _
        . exact TokenSafe.ok _
    simp only [intOfNat_of_le hmax, TokenSafe.ok, true_and, Except.ok.injEq, forall_const, hmax]
    rw [forall_eq', TokenSafe.bind_iff, readChunks_eq_fillArray, fillArray_safe_iff hcounter]
    simp only [readChunk_safe_iff]
    constructor
    . rintro ⟨h, _⟩ i line hline hn hbefore
      exact h i line hline hn (by omega) hbefore
    . intro h
      refine ⟨fun i line hline hn _ hbefore => h i line hline hn hbefore, ?_⟩
      intro res _
      exact hrest res
  . simp [CLib.intOfNat, hmax, TokenSafe]

end Sections

theorem TokensFit.of_key {line key : Bytes} {lines : List Bytes} {st : State}
    (hkey : lineKey line = some key)
    (ident : key = ascii "ident" → st.orderIterator = 0 → Fits 1025 (lineValue line))
    (filename : key = ascii "filename" → st.orderIterator = 1 → lineValue line ≠ none)
    (size : key = ascii "size" → st.orderIterator = 2 → lineValue line ≠ none)
    (nhashes : key = ascii "nhashes" → lineValue line ≠ none)
    (hashes : key = ascii "hashes" → ∀ i line', lines[i]? = some line' →
      st.nhashesCounter + i < st.obj.nhashes.toNat → st.nhashesCounter + i ≤ INT_MAX →
      Fits 65 (lineColumn line'))
    (nchunks : key = ascii "nchunks" → lineValue line ≠ none)
    (chunks : key = ascii "chunks" → st.obj.nchunks.toNat ≤ INT_MAX →
      ∀ i line', lines[i]? = some line' → st.nchunksCounter + i < st.obj.nchunks.toNat →
      (∀ j line'', j < i → lines[j]? = some line'' → ∃ chunk, readChunk line'' = .ok (some chunk)) →
      ChunkColumns line')
    : TokensFit line lines st := by
  have hname {name : Bytes} (h : lineKey line = some name) : key = name := by
    rw [hkey, Option.some.injEq] at h
    exact h
  constructor
  . rw [hkey]
    exact Option.some_ne_none key
  . exact fun h => ident (hname h)
  . exact fun h => filename (hname h)
  . exact fun h => size (hname h)
  . exact fun h => nhashes (hname h)
  . exact fun h => hashes (hname h)
  . exact fun h => nchunks (hname h)
  . exact fun h => chunks (hname h)

theorem readLine_safe_iff (dir : Option Bytes) {line : Bytes} {lines : List Bytes} {st : State}
    (hhashes : st.nhashesCounter ≤ INT_MAX) (hchunks : st.nchunksCounter ≤ INT_MAX)
    : TokenSafe (readLine dir line lines st) ↔ TokensFit line lines st := by
  rw [readLine_eq]
  cases hkey : lineKey line with
  | none =>
    constructor
    . intro h
      exact absurd rfl h.1
    . intro h
      exact absurd hkey h.key
  | some key =>
    dsimp only
    constructor
    . intro h
      apply TokensFit.of_key hkey
      all_goals
        intro hname
        rw [hname] at h
      case ident => exact readIdent_safe_iff.mp h
      case filename => exact readFilename_safe_iff.mp h
      case size => exact readSize_safe_iff.mp h
      case nhashes => exact readNhashes_safe_iff.mp h
      case hashes => exact (readHashesSection_safe_iff hhashes).mp h
      case nchunks => exact readNchunks_safe_iff.mp h
      case chunks => exact (readChunksSection_safe_iff hchunks).mp h
    . intro h
      unfold sectionOf
      split_ifs with h0 h1 h2 h3 h4 h5 h6
      . exact readIdent_safe_iff.mpr (h.ident (h0 ▸ hkey))
      . exact readFilename_safe_iff.mpr (h.filename (h1 ▸ hkey))
      . exact readSize_safe_iff.mpr (h.size (h2 ▸ hkey))
      . exact readNhashes_safe_iff.mpr (h.nhashes (h3 ▸ hkey))
      . exact (readHashesSection_safe_iff hhashes).mpr (h.hashes (h4 ▸ hkey))
      . exact readNchunks_safe_iff.mpr (h.nchunks (h5 ▸ hkey))
      . exact (readChunksSection_safe_iff hchunks).mpr (h.chunks (h6 ▸ hkey))
      . exact TokenSafe.ok _

theorem counter_of_fillArray {read : Bytes → Except Fault (Option α)} {n : Nat} {lines : List Bytes}
    {arr arr' : List (Option α)} {counter counter' : Nat} {errorFlag : Bool} (hcounter : counter ≤ INT_MAX)
    (h : fillArray read n lines arr counter = .ok (errorFlag, arr', counter')) : counter' ≤ INT_MAX := by
  induction lines generalizing arr counter with
  | nil =>
    simp only [fillArray, Except.ok.injEq, Prod.mk.injEq] at h
    rw [← h.2.2]
    exact hcounter
  | cons line lines ih =>
    unfold fillArray at h
    split at h
    . rw [bind_eq_ok] at h
      obtain ⟨res, _, h⟩ := h
      cases res with
      | none =>
        simp only [pure_eq_ok, Prod.mk.injEq] at h
        rw [← h.2.2]
        exact hcounter
      | some entry =>
        dsimp only at h
        rw [bind_eq_ok] at h
        obtain ⟨counter₁, hnext, h⟩ := h
        apply ih ?_ h
        unfold intOfNat at hnext
        split at hnext
        . next hle =>
          rw [Except.ok.injEq] at hnext
          rw [← hnext]
          exact hle
        . contradiction
    . simp only [Except.ok.injEq, Prod.mk.injEq] at h
      rw [← h.2.2]
      exact hcounter

inductive Reaches (dir : Option Bytes) : List Bytes → State → List Bytes → State → Prop where
  | refl (lines : List Bytes) (st : State) : Reaches dir lines st lines st
  | next {line : Bytes} {lines lines' : List Bytes} {st st' st'' : State}
      (hline : readLine dir line lines st = .ok (false, st'))
      (h : Reaches dir (lines.drop (taken st st')) st' lines' st'')
      : Reaches dir (line :: lines) st lines' st''

theorem SectionStep.counters {dir value : Option Bytes} {lines : List Bytes} {st st' : State} {key : Bytes}
    (h : SectionStep dir value lines st key st') (hhashes : st.nhashesCounter ≤ INT_MAX)
    (hchunks : st.nchunksCounter ≤ INT_MAX)
    : st'.nhashesCounter ≤ INT_MAX ∧ st'.nchunksCounter ≤ INT_MAX := by
  cases h with
  | hashes hread =>
    refine ⟨?_, hchunks⟩
    have hfill := congrArg (Except.map fun res => (false, res)) hread
    rw [readHashes_eq_fillArray] at hfill
    exact counter_of_fillArray hhashes hfill
  | chunks hmax hread =>
    refine ⟨hhashes, ?_⟩
    rw [readChunks_eq_fillArray] at hread
    exact counter_of_fillArray hchunks hread
  | _ => exact ⟨hhashes, hchunks⟩

theorem readLines_safe_iff {dir : Option Bytes} {lines : List Bytes} {st : State}
    (hhashes : st.nhashesCounter ≤ INT_MAX) (hchunks : st.nchunksCounter ≤ INT_MAX)
    : TokenSafe (readLines dir lines st)
        ↔
      ∀ line rest st', Reaches dir lines st (line :: rest) st' → TokensFit line rest st' := by
  fun_induction readLines dir lines st with
  | case1 st =>
    constructor
    . intro _ line rest st' hreach
      cases hreach
    . intro _
      exact TokenSafe.ok _
  | case2 line lines st e hline =>
    have hsafe := @readLine_safe_iff dir line lines st hhashes hchunks
    rw [hline] at hsafe
    constructor
    . intro h line' rest st' hreach
      cases hreach with
      | refl => exact hsafe.mp h
      | next hline' => simp [hline] at hline'
    . intro h
      exact hsafe.mpr (h line lines st (.refl _ _))
  | case3 line lines st st' hline =>
    have hsafe := @readLine_safe_iff dir line lines st hhashes hchunks
    rw [hline] at hsafe
    constructor
    . intro _ line' rest st'' hreach
      cases hreach with
      | refl => exact hsafe.mp (TokenSafe.ok _)
      | next hline' => simp [hline] at hline'
    . intro _
      exact TokenSafe.ok _
  | case4 line lines st st' hline ih =>
    have hsafe := @readLine_safe_iff dir line lines st hhashes hchunks
    rw [hline] at hsafe
    obtain ⟨key, _, hstep⟩ := readLine_step hline
    obtain ⟨hhashes', hchunks'⟩ := hstep.counters hhashes hchunks
    rw [ih hhashes' hchunks']
    constructor
    . intro h line' rest st'' hreach
      cases hreach with
      | refl => exact hsafe.mp (TokenSafe.ok _)
      | next hline' hreach =>
        rw [hline, Except.ok.injEq, Prod.mk.injEq] at hline'
        rw [← hline'.2] at hreach
        exact h line' rest st'' hreach
    . intro h line' rest st'' hreach
      exact h line' rest st'' (.next hline hreach)

theorem load_tokens_iff (obj : BpkgObj) (file : Bytes) (dir : Option Bytes)
    : TokenSafe (readLines dir (fgetsLines MAX_INPUT_SIZE file) (initState obj))
        ↔
      ∀ line lines st, Reaches dir (fgetsLines MAX_INPUT_SIZE file) (initState obj) (line :: lines) st
        → TokensFit line lines st := by
  exact readLines_safe_iff (Nat.zero_le _) (Nat.zero_le _)

/--
A section without a value, a separator alone, a chunk without columns, and an identifier one character too
long.
-/
theorem load_tokens_fails
    : ¬ TokenSafe (readLines none (fgetsLines MAX_INPUT_SIZE (ascii "ident\n")) (initState garbage))
        ∧ ¬ TokenSafe (readLines none (fgetsLines MAX_INPUT_SIZE (ascii ":")) (initState garbage))
        ∧ ¬ TokenSafe (readLines none
            (fgetsLines MAX_INPUT_SIZE
              (ascii "ident:a\nfilename:b\nsize:1\nnhashes:0\nhashes:\nnchunks:1\nchunks:\n\tq\n"))
            (initState garbage))
        ∧ ¬ TokenSafe (readLines none
            (fgetsLines MAX_INPUT_SIZE (ascii "ident:" ++ List.replicate 1025 65)) (initState garbage)) := by
  refine ⟨fun h => h.1 ?_, fun h => h.1 ?_, fun h => h.1 ?_, fun h => h.2 ?_⟩
  all_goals decide +kernel

end bpkgLoad
end Btide
