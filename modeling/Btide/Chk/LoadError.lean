import Btide.Chk.LoadComplete

/-!
This module contains the exit of `bpkg_load` for a malformed text: which blocks are allocated when it is
taken, and which of them `bpkg_obj_destroy` releases.
-/

open CLib

namespace Btide
namespace bpkgLoad

/--
The blocks that `bpkg_load` allocates for fields of the object. Arrays are numbered by the sections that
allocate them, entries by their index.
-/
inductive Block where
  | ident
  | filename
  | hashArray (k : Nat)
  | hash (k i : Nat)
  | chunkArray (k : Nat)
  | chunk (k i : Nat)
  | chunkHash (k i : Nat)
  deriving DecidableEq, Repr

/--
The blocks that were allocated and not freed again, the numbers of arrays, and whether the two counts
were assigned. The object points to the last array of each kind.
-/
structure Allocs where
  nhashes : Bool
  nchunks : Bool
  hashArrays : Nat
  chunkArrays : Nat
  blocks : List Block
  deriving DecidableEq, Repr

def assignedIndices (n : Nat) (entries : List (Option α)) : List Nat :=
  (List.range n).filter fun i => (entries.getD i none).isSome

def hashBlocks (k n : Nat) (entries : List (Option Bytes)) : List Block :=
  (assignedIndices n entries).map (.hash k) ++ [.hashArray k]

def chunkBlocks (k n : Nat) (entries : List (Option Chunk)) : List Block :=
  (assignedIndices n entries).flatMap (fun i => [.chunkHash k i, .chunk k i]) ++ [.chunkArray k]

def validInt (value : Option Bytes) : Bool :=
  match isAnInt value with
  | .ok b => b
  | .error _ => false

namespace Allocs

def init : Allocs where
  nhashes := false
  nchunks := false
  hashArrays := 0
  chunkArrays := 0
  blocks := []

/--
What one line allocates and assigns. The hash of a malformed line of `chunks` is freed at once.
-/
def track (line : Bytes) (st st' : State) (allocs : Allocs) : Allocs :=
  let key := (lineKey line).getD []
  if key = ascii "ident" then
    if st.orderIterator = 0 then { allocs with blocks := allocs.blocks ++ [.ident] } else allocs
  else if key = ascii "filename" then
    if st.orderIterator = 1 then { allocs with blocks := allocs.blocks ++ [.filename] } else allocs
  else if key = ascii "nhashes" then
    if validInt (lineValue line) then { allocs with nhashes := true } else allocs
  else if key = ascii "hashes" then
    let entries := st'.obj.hashes.getD []
    { allocs with
      hashArrays := allocs.hashArrays + 1
      blocks := allocs.blocks ++ hashBlocks allocs.hashArrays entries.length entries }
  else if key = ascii "nchunks" then
    if validInt (lineValue line) then { allocs with nchunks := true } else allocs
  else if key = ascii "chunks" then
    let entries := st'.obj.chunks.getD []
    { allocs with
      chunkArrays := allocs.chunkArrays + 1
      blocks := allocs.blocks ++ chunkBlocks allocs.chunkArrays entries.length entries }
  else
    allocs

end Allocs

structure Failure where
  line : Bytes
  before : State
  after : State
  allocs : Allocs
  deriving DecidableEq, Repr

def failure (dir : Option Bytes) : List Bytes → State → Allocs → Except Fault (Option Failure)
  | [], _, _ => .ok none
  | line :: lines, st, allocs =>
    match readLine dir line lines st with
    | .error e => .error e
    | .ok (true, st') =>
      .ok (some { line, before := st, after := st', allocs := allocs.track line st st' })
    | .ok (false, st') => failure dir (lines.drop (taken st st')) st' (allocs.track line st st')
termination_by lines => lines.length

theorem exists_failure {dir : Option Bytes} {lines : List Bytes} {st st' : State} (allocs : Allocs)
    (h : readLines dir lines st = .ok (true, st'))
    : ∃ f, failure dir lines st allocs = .ok (some f) ∧ f.after = st' := by
  fun_induction failure dir lines st allocs with
  | case1 st allocs =>
    rw [readLines] at h
    simp at h
  | case2 line lines st allocs e hline =>
    rw [readLines, hline] at h
    simp at h
  | case3 line lines st allocs st'' hline =>
    rw [readLines, hline] at h
    simp only [Except.ok.injEq, Prod.mk.injEq, true_and] at h
    exact ⟨_, rfl, h⟩
  | case4 line lines st allocs st'' hline ih =>
    rw [readLines_cons hline] at h
    exact ih h

def released (obj : BpkgObj) (allocs : Allocs) : List Block :=
  (obj.ident.map fun _ => .ident).toList
    ++ (obj.filename.map fun _ => .filename).toList
    ++ (obj.hashes.map (hashBlocks (allocs.hashArrays - 1) obj.nhashes.toNat)).getD []
    ++ (obj.chunks.map (chunkBlocks (allocs.chunkArrays - 1) obj.nchunks.toNat)).getD []

structure ReleasesExactly (obj : BpkgObj) (allocs : Allocs) : Prop where
  ident : obj.ident.isSome
  filename : obj.filename.isSome
  hashes : ∀ entries, obj.hashes = some entries →
    allocs.nhashes = true ∧ entries.length = obj.nhashes.toNat ∧ ∀ entry ∈ entries, entry.isSome
  chunks : ∀ entries, obj.chunks = some entries →
    allocs.nchunks = true ∧ entries.length = obj.nchunks.toNat
  released : (bpkgLoad.released obj allocs).Perm allocs.blocks

/--
Two sections were read in order, the line is none of `hashes` and no further `chunks`, and it does not
change the count of an array that exists.
-/
structure Clean (f : Failure) : Prop where
  order : 2 ≤ f.before.orderIterator
  hashes : lineKey f.line ≠ some (ascii "hashes")
  chunks : lineKey f.line = some (ascii "chunks") → f.before.orderIterator = 6
  nhashes : lineKey f.line = some (ascii "nhashes") → validInt (lineValue f.line) = true →
    5 ≤ f.before.orderIterator → lineCount f.line = f.before.obj.nhashes
  nchunks : lineKey f.line = some (ascii "nchunks") → validInt (lineValue f.line) = true →
    7 ≤ f.before.orderIterator → lineCount f.line = f.before.obj.nchunks

structure Built (lines : List Bytes) (st : State) (allocs : Allocs) : Prop where
  order_le : st.orderIterator ≤ 7
  ident : st.obj.ident.isSome ↔ 1 ≤ st.orderIterator
  filename : st.obj.filename.isSome ↔ 2 ≤ st.orderIterator
  nhashes : allocs.nhashes = true ↔ 4 ≤ st.orderIterator
  nchunks : allocs.nchunks = true ↔ 6 ≤ st.orderIterator
  noHashes : st.orderIterator ≤ 4 →
    st.obj.hashes = none ∧ st.nhashesCounter = 0 ∧ allocs.hashArrays = 0
  hashes : 5 ≤ st.orderIterator → allocs.hashArrays = 1 ∧ ∃ entries,
    st.obj.hashes = some entries
      ∧ entries.length = st.obj.nhashes.toNat
      ∧ (lines ≠ [] → ∀ entry ∈ entries, entry.isSome)
  noChunks : st.orderIterator ≤ 6 →
    st.obj.chunks = none ∧ st.nchunksCounter = 0 ∧ allocs.chunkArrays = 0
  chunks : 7 ≤ st.orderIterator → allocs.chunkArrays = 1 ∧ ∃ entries,
    st.obj.chunks = some entries ∧ entries.length = st.obj.nchunks.toNat
  blocks : allocs.blocks = released st.obj allocs

theorem built_init (lines : List Bytes) (obj : BpkgObj) : Built lines (initState obj) .init := by
  constructor
  all_goals simp [initState, Allocs.init, released]

section Track

variable {line : Bytes} {st st' : State} {allocs : Allocs}

theorem track_ident (hkey : lineKey line = some (ascii "ident"))
    : allocs.track line st st'
        =
      if st.orderIterator = 0 then { allocs with blocks := allocs.blocks ++ [.ident] } else allocs := by
  unfold Allocs.track
  rw [hkey]
  rfl

theorem track_filename (hkey : lineKey line = some (ascii "filename"))
    : allocs.track line st st'
        =
      if st.orderIterator = 1 then { allocs with blocks := allocs.blocks ++ [.filename] } else allocs := by
  unfold Allocs.track
  rw [hkey]
  rfl

theorem track_nhashes (hkey : lineKey line = some (ascii "nhashes"))
    : allocs.track line st st'
        =
      if validInt (lineValue line) then { allocs with nhashes := true } else allocs := by
  unfold Allocs.track
  rw [hkey]
  rfl

theorem track_hashes (hkey : lineKey line = some (ascii "hashes"))
    : allocs.track line st st'
        =
      { allocs with
        hashArrays := allocs.hashArrays + 1
        blocks :=
          allocs.blocks
            ++ hashBlocks allocs.hashArrays (st'.obj.hashes.getD []).length (st'.obj.hashes.getD []) } := by
  unfold Allocs.track
  rw [hkey]
  rfl

theorem track_nchunks (hkey : lineKey line = some (ascii "nchunks"))
    : allocs.track line st st'
        =
      if validInt (lineValue line) then { allocs with nchunks := true } else allocs := by
  unfold Allocs.track
  rw [hkey]
  rfl

theorem track_chunks (hkey : lineKey line = some (ascii "chunks"))
    : allocs.track line st st'
        =
      { allocs with
        chunkArrays := allocs.chunkArrays + 1
        blocks :=
          allocs.blocks
            ++ chunkBlocks allocs.chunkArrays (st'.obj.chunks.getD []).length (st'.obj.chunks.getD []) } := by
  unfold Allocs.track
  rw [hkey]
  rfl

theorem track_size (hkey : lineKey line = some (ascii "size")) : allocs.track line st st' = allocs := by
  unfold Allocs.track
  rw [hkey]
  rfl

theorem track_other {dir : Option Bytes} {key : Bytes} (hkey : lineKey line = some key)
    (hother : sectionOf dir key = none) : allocs.track line st st' = allocs := by
  unfold sectionOf at hother
  split_ifs at hother with h0 h1 h2 h3 h4 h5 h6
  unfold Allocs.track
  rw [hkey]
  simp only [Option.getD_some, h0, h1, h3, h4, h5, h6, ↓reduceIte]

end Track

theorem validInt_of_ok {value : Option Bytes} (h : isAnInt value = .ok true) : validInt value = true := by
  unfold validInt
  rw [h]

theorem length_prefixArray (entries : List α) (room : Nat)
    : (prefixArray entries room).length = entries.length + room := by
  rw [prefixArray, List.length_append, List.length_map, List.length_replicate]

theorem full_of_readHashes {nhashes : UInt32} {lines : List Bytes} {arr : List (Option Bytes)} {counter : Nat}
    (h : readHashes nhashes lines (prefixArray [] nhashes.toNat) 0 = .ok (arr, counter))
    : arr.length = nhashes.toNat ∧ (¬ lines.length ≤ counter → ∀ entry ∈ arr, entry.isSome) := by
  obtain ⟨new, hall, _, harr, hcounter⟩ := readHashes_iff.mp h
  have hfew := hall.length_eq
  rw [List.length_take] at hfew
  rw [harr]
  constructor
  . rw [length_prefixArray]
    omega
  . intro hmore entry hentry
    have hroom : nhashes.toNat - new.length = 0 := by omega
    rw [hroom, prefixArray, List.replicate_zero, List.append_nil, List.mem_map] at hentry
    obtain ⟨hash, _, heq⟩ := hentry
    rw [← heq]
    rfl

theorem length_of_fillArray {read : Bytes → Except Fault (Option α)} {n : Nat} {lines : List Bytes}
    {arr arr' : List (Option α)} {counter counter' : Nat} {errorFlag : Bool}
    (h : fillArray read n lines arr counter = .ok (errorFlag, arr', counter')) : arr'.length = arr.length := by
  induction lines generalizing arr counter with
  | nil =>
    rw [fillArray, Except.ok.injEq, Prod.mk.injEq, Prod.mk.injEq] at h
    rw [h.2.1]
  | cons line lines ih =>
    rw [fillArray] at h
    split at h
    . simp only [bind_eq_ok] at h
      obtain ⟨entry, _, h⟩ := h
      cases entry with
      | none =>
        rw [pure_eq_ok, Prod.mk.injEq, Prod.mk.injEq] at h
        rw [h.2.1]
      | some entry =>
        simp only [bind_eq_ok] at h
        obtain ⟨_, _, h⟩ := h
        rw [ih h, List.length_set]
    . rw [Except.ok.injEq, Prod.mk.injEq, Prod.mk.injEq] at h
      rw [h.2.1]

theorem length_of_readChunks {nchunks : UInt32} {lines : List Bytes} {arr arr' : List (Option Chunk)}
    {counter counter' : Nat} {errorFlag : Bool}
    (h : readChunks nchunks lines arr counter = .ok (errorFlag, arr', counter')) : arr'.length = arr.length := by
  rw [readChunks_eq_fillArray] at h
  exact length_of_fillArray h

theorem Built.step {dir : Option Bytes} {line key : Bytes} {lines : List Bytes} {st st' : State}
    {allocs : Allocs} (h : Built (line :: lines) st allocs) (hkey : lineKey line = some key)
    (hstep : SectionStep dir (lineValue line) lines st key st')
    : Built (lines.drop (taken st st')) st' (allocs.track line st st') := by
  obtain ⟨hle, hident, hfilename, hnhashes, hnchunks, hnoHashes, hhashes, hnoChunks, hchunks, hblocks⟩ := h
  cases hstep with
  | ident hvalue hlen =>
    rw [track_ident hkey, if_pos rfl]
    constructor
    all_goals simp_all [released]
  | filename hvalue =>
    rw [track_filename hkey, if_pos rfl]
    constructor
    all_goals simp_all [released]
  | size hint =>
    rw [track_size hkey]
    constructor
    all_goals simp_all [released]
  | nhashes hint =>
    rw [track_nhashes hkey, if_pos (validInt_of_ok hint)]
    constructor
    all_goals simp_all [released]
  | @hashes obj m n arr counter hread =>
    rw [track_hashes hkey]
    obtain ⟨hnone, hm, harrays⟩ := hnoHashes (Nat.le_refl 4)
    dsimp only at hm hread
    rw [hm] at hread ⊢
    obtain ⟨hlen, hfull⟩ := full_of_readHashes hread
    constructor
    case hashes =>
      intro _
      rw [harrays]
      refine ⟨rfl, arr, rfl, hlen, ?_⟩
      intro hmore
      apply hfull
      intro hend
      rw [taken, Nat.sub_self, Nat.sub_zero, Nat.add_zero, List.drop_eq_nil_of_le hend] at hmore
      exact hmore rfl
    all_goals simp_all [released]
  | @nchunks obj m n hint =>
    rw [track_nchunks hkey, if_pos (validInt_of_ok hint)]
    constructor
    case hashes =>
      intro _
      obtain ⟨harrays, entries, hentries, hlen, hall⟩ := hhashes (Nat.le_refl 5)
      exact ⟨harrays, entries, hentries, hlen, fun _ => hall (List.cons_ne_nil line lines)⟩
    all_goals simp_all [released]
  | @chunks obj m n arr counter hmax hread =>
    rw [track_chunks hkey]
    obtain ⟨hnone, hn, harrays⟩ := hnoChunks (Nat.le_refl 6)
    have hlen := length_of_readChunks hread
    rw [length_prefixArray, List.length_nil, Nat.zero_add] at hlen
    constructor
    case hashes =>
      intro _
      obtain ⟨harrays, entries, hentries, hlen, hall⟩ := hhashes (show 5 ≤ 6 by decide)
      exact ⟨harrays, entries, hentries, hlen, fun _ => hall (List.cons_ne_nil line lines)⟩
    all_goals simp_all [released]

inductive FailedSection (dir value : Option Bytes) (lines : List Bytes) (st : State) : Bytes → State → Prop where
  | ident (horder : st.orderIterator ≠ 0) : FailedSection dir value lines st (ascii "ident") st
  | filename (horder : st.orderIterator ≠ 1) : FailedSection dir value lines st (ascii "filename") st
  | size (order : Nat)
    : FailedSection dir value lines st (ascii "size") { st with orderIterator := order }
  | nhashes (hinvalid : validInt value = false) : FailedSection dir value lines st (ascii "nhashes") st
  | nhashesOrder (hvalid : validInt value = true) (horder : st.orderIterator ≠ 3)
    : FailedSection dir value lines st (ascii "nhashes")
        { st with obj.nhashes := UInt32.ofInt (atoi (value.getD [])) }
  | hashes {arr : List (Option Bytes)} {counter : Nat} (horder : st.orderIterator ≠ 4)
    : FailedSection dir value lines st (ascii "hashes")
        { st with obj.hashes := some arr, nhashesCounter := counter }
  | nchunks (hinvalid : validInt value = false) : FailedSection dir value lines st (ascii "nchunks") st
  | nchunksOrder (hvalid : validInt value = true) (horder : st.orderIterator ≠ 5)
    : FailedSection dir value lines st (ascii "nchunks")
        { st with obj.nchunks := UInt32.ofInt (atoi (value.getD [])) }
  | chunks {arr : List (Option Chunk)} {counter : Nat} (hlen : arr.length = st.obj.nchunks.toNat)
    : FailedSection dir value lines st (ascii "chunks")
        { st with obj.chunks := some arr, nchunksCounter := counter }
  | other {key : Bytes} (hother : sectionOf dir key = none) : FailedSection dir value lines st key st

section Failed

variable {dir value : Option Bytes} {lines : List Bytes} {st st' : State}

theorem checkOrder_eq_true {order : Nat} (h : checkOrder order st = (true, st'))
    : st.orderIterator ≠ order ∧ st' = st := by
  unfold checkOrder at h
  split at h
  . next hne =>
    rw [Prod.mk.injEq] at h
    exact ⟨hne, h.2.symm⟩
  . simp at h

theorem checkOrder_obj {order : Nat} {errorFlag : Bool} (h : checkOrder order st = (errorFlag, st'))
    : st' = { st with orderIterator := st'.orderIterator } := by
  unfold checkOrder at h
  split at h
  . rw [Prod.mk.injEq] at h
    rw [← h.2]
  . rw [Prod.mk.injEq] at h
    rw [← h.2]

theorem isAnInt_of_failed {f : Except Fault (Bool × State)}
    (h : (do
      if !(← isAnInt value) then
        return (true, st)
      f) = .ok (true, st'))
    : (validInt value = false ∧ st' = st) ∨ (validInt value = true ∧ f = .ok (true, st')) := by
  rw [unless_isAnInt_eq_ok, Prod.mk.injEq] at h
  unfold validInt
  cases h with
  | inl h =>
    rw [h.1]
    exact .inl ⟨rfl, h.2.2.symm⟩
  | inr h =>
    rw [h.1]
    exact .inr ⟨rfl, h.2⟩

theorem readIdent_failed (h : readIdent value lines st = .ok (true, st'))
    : FailedSection dir value lines st (ascii "ident") st' := by
  unfold readIdent at h
  cases hcheck : checkOrder 0 st with
  | mk errorFlag st'' =>
    rw [hcheck] at h
    cases errorFlag with
    | true =>
      simp only [↓reduceIte, pure_eq_ok, Prod.mk.injEq, true_and] at h
      rw [h] at hcheck
      obtain ⟨horder, heq⟩ := checkOrder_eq_true hcheck
      rw [heq]
      exact .ident horder
    | false =>
      simp only [Bool.false_eq_true, ↓reduceIte, bind_eq_ok, pure_eq_ok] at h
      obtain ⟨_, _, h⟩ := h
      simp at h

theorem readFilename_failed (h : readFilename dir value lines st = .ok (true, st'))
    : FailedSection dir value lines st (ascii "filename") st' := by
  unfold readFilename at h
  cases hcheck : checkOrder 1 st with
  | mk errorFlag st'' =>
    rw [hcheck] at h
    cases errorFlag with
    | true =>
      simp only [↓reduceIte, pure_eq_ok, Prod.mk.injEq, true_and] at h
      rw [h] at hcheck
      obtain ⟨horder, heq⟩ := checkOrder_eq_true hcheck
      rw [heq]
      exact .filename horder
    | false =>
      simp only [Bool.false_eq_true, ↓reduceIte, bind_eq_ok, pure_eq_ok] at h
      obtain ⟨_, _, h⟩ := h
      simp at h

theorem readSize_failed (h : readSize value lines st = .ok (true, st'))
    : FailedSection dir value lines st (ascii "size") st' := by
  unfold readSize at h
  cases hcheck : checkOrder 2 st with
  | mk errorFlag st'' =>
    have horder := checkOrder_obj hcheck
    rw [hcheck] at h
    cases errorFlag with
    | true =>
      simp only [↓reduceIte, pure_eq_ok, Prod.mk.injEq, true_and] at h
      rw [← h, horder]
      exact .size st''.orderIterator
    | false =>
      dsimp only at h
      rcases isAnInt_of_failed h with ⟨_, heq⟩ | ⟨_, h⟩
      . rw [heq, horder]
        exact .size st''.orderIterator
      . simp [pure_eq_ok] at h

theorem readNhashes_failed (h : readNhashes value lines st = .ok (true, st'))
    : FailedSection dir value lines st (ascii "nhashes") st' := by
  unfold readNhashes at h
  rcases isAnInt_of_failed h with ⟨hinvalid, heq⟩ | ⟨hvalid, h⟩
  . rw [heq]
    exact .nhashes hinvalid
  . rw [pure_eq_ok] at h
    obtain ⟨horder, heq⟩ := checkOrder_eq_true h
    rw [heq]
    exact .nhashesOrder hvalid horder

theorem readHashesSection_failed (h : readHashesSection value lines st = .ok (true, st'))
    : FailedSection dir value lines st (ascii "hashes") st' := by
  unfold readHashesSection at h
  simp only [bind_eq_ok, pure_eq_ok] at h
  obtain ⟨⟨arr, counter⟩, _, h⟩ := h
  obtain ⟨horder, heq⟩ := checkOrder_eq_true h
  rw [heq]
  exact .hashes horder

theorem readNchunks_failed (h : readNchunks value lines st = .ok (true, st'))
    : FailedSection dir value lines st (ascii "nchunks") st' := by
  unfold readNchunks at h
  rcases isAnInt_of_failed h with ⟨hinvalid, heq⟩ | ⟨hvalid, h⟩
  . rw [heq]
    exact .nchunks hinvalid
  . rw [pure_eq_ok] at h
    obtain ⟨horder, heq⟩ := checkOrder_eq_true h
    rw [heq]
    exact .nchunksOrder hvalid horder

theorem readChunksSection_failed (h : readChunksSection value lines st = .ok (true, st'))
    : FailedSection dir value lines st (ascii "chunks") st' := by
  unfold readChunksSection at h
  simp only [bind_eq_ok] at h
  obtain ⟨_, _, ⟨errorFlag, arr, counter⟩, hread, h⟩ := h
  have hlen := length_of_readChunks hread
  rw [List.length_replicate] at hlen
  split at h
  . rw [pure_eq_ok, Prod.mk.injEq] at h
    rw [← h.2]
    exact .chunks hlen
  . split at h
    . rw [pure_eq_ok, Prod.mk.injEq] at h
      rw [← h.2]
      exact .chunks hlen
    . simp [pure_eq_ok] at h

theorem readLine_failed {line : Bytes} (h : readLine dir line lines st = .ok (true, st'))
    : ∃ key, lineKey line = some key ∧ FailedSection dir (lineValue line) lines st key st' := by
  rw [readLine_eq] at h
  cases hkey : lineKey line with
  | none => simp [hkey] at h
  | some key =>
    refine ⟨key, rfl, ?_⟩
    simp only [hkey] at h
    cases hsection : sectionOf dir key with
    | none =>
      simp only [hsection, Except.ok.injEq, Prod.mk.injEq, true_and] at h
      rw [← h]
      exact .other hsection
    | some readSection =>
      simp only [hsection] at h
      unfold sectionOf at hsection
      split_ifs at hsection with h0 h1 h2 h3 h4 h5 h6
      all_goals
        rw [Option.some.injEq] at hsection
        rw [← hsection] at h
      . rw [h0]
        exact readIdent_failed h
      . rw [h1]
        exact readFilename_failed h
      . rw [h2]
        exact readSize_failed h
      . rw [h3]
        exact readNhashes_failed h
      . rw [h4]
        exact readHashesSection_failed h
      . rw [h5]
        exact readNchunks_failed h
      . rw [h6]
        exact readChunksSection_failed h

end Failed

section Exact

variable {dir : Option Bytes} {line : Bytes} {lines : List Bytes} {st st' : State} {allocs : Allocs}

theorem Built.released_perm (h : Built (line :: lines) st allocs) (horder : 2 ≤ st.orderIterator)
    : ReleasesExactly st.obj allocs where
  ident := h.ident.mpr (by omega)
  filename := h.filename.mpr horder
  hashes := by
    intro entries hentries
    have hread : 5 ≤ st.orderIterator := by
      apply Nat.lt_of_not_le
      intro hle
      rw [(h.noHashes hle).1] at hentries
      cases hentries
    obtain ⟨_, entries', hentries', hlen, hall⟩ := h.hashes hread
    rw [hentries, Option.some.injEq] at hentries'
    rw [hentries']
    exact ⟨h.nhashes.mpr (by omega), hlen, hall (List.cons_ne_nil line lines)⟩
  chunks := by
    intro entries hentries
    have hread : 7 ≤ st.orderIterator := by
      apply Nat.lt_of_not_le
      intro hle
      rw [(h.noChunks hle).1] at hentries
      cases hentries
    obtain ⟨_, entries', hentries', hlen⟩ := h.chunks hread
    rw [hentries, Option.some.injEq] at hentries'
    rw [hentries']
    exact ⟨h.nchunks.mpr (by omega), hlen⟩
  released := by
    rw [h.blocks]

theorem FailedSection.strings {value : Option Bytes} {key : Bytes}
    (h : FailedSection dir value lines st key st')
    : st'.obj.ident = st.obj.ident ∧ st'.obj.filename = st.obj.filename := by
  cases h
  all_goals exact ⟨rfl, rfl⟩

theorem hashArray_of_mem_released {obj : BpkgObj} {k : Nat} (h : .hashArray k ∈ released obj allocs)
    : k = allocs.hashArrays - 1 := by
  unfold released at h
  cases hhashes : obj.hashes with
  | none =>
    cases hchunks : obj.chunks with
    | none => simp [hhashes, hchunks] at h
    | some chunks => simp [hhashes, hchunks, chunkBlocks] at h
  | some hashes =>
    cases hchunks : obj.chunks with
    | none =>
      simp [hhashes, hchunks, hashBlocks] at h
      exact h
    | some chunks =>
      simp [hhashes, hchunks, hashBlocks, chunkBlocks] at h
      exact h

theorem chunkArray_of_mem_released {obj : BpkgObj} {k : Nat} (h : .chunkArray k ∈ released obj allocs)
    : k = allocs.chunkArrays - 1 := by
  unfold released at h
  cases hhashes : obj.hashes with
  | none =>
    cases hchunks : obj.chunks with
    | none => simp [hhashes, hchunks] at h
    | some chunks =>
      simp [hhashes, hchunks, chunkBlocks] at h
      exact h
  | some hashes =>
    cases hchunks : obj.chunks with
    | none => simp [hhashes, hchunks, hashBlocks] at h
    | some chunks =>
      simp [hhashes, hchunks, hashBlocks, chunkBlocks] at h
      exact h

theorem mem_released_hashArray {obj : BpkgObj} {entries : List (Option Bytes)} (h : obj.hashes = some entries)
    : .hashArray (allocs.hashArrays - 1) ∈ released obj allocs := by
  simp [released, h, hashBlocks]

theorem mem_released_chunkArray {obj : BpkgObj} {entries : List (Option Chunk)} (h : obj.chunks = some entries)
    : .chunkArray (allocs.chunkArrays - 1) ∈ released obj allocs := by
  simp [released, h, chunkBlocks]

theorem Built.not_exact_hashes (h : Built (line :: lines) st allocs)
    (hkey : lineKey line = some (ascii "hashes")) (horder : st.orderIterator ≠ 4)
    {arr : List (Option Bytes)} (harr : st'.obj.hashes = some arr)
    : ¬ ReleasesExactly st'.obj (allocs.track line st st') := by
  intro hexact
  have hread := (hexact.hashes arr harr).1
  have hreleased := hexact.released
  rw [track_hashes hkey] at hread hreleased
  have hfour := h.nhashes.mp hread
  obtain ⟨hone, entries, hentries, _⟩ := h.hashes (by omega)
  -- the first array is still allocated
  have hold := @mem_released_hashArray allocs _ _ hentries
  rw [← h.blocks] at hold
  have hmem := hashArray_of_mem_released (hreleased.mem_iff.mpr (List.mem_append_left _ hold))
  dsimp only at hmem
  omega

theorem Built.order_of_exact_chunks (h : Built (line :: lines) st allocs)
    (hkey : lineKey line = some (ascii "chunks")) {arr : List (Option Chunk)} (harr : st'.obj.chunks = some arr)
    (hexact : ReleasesExactly st'.obj (allocs.track line st st')) : st.orderIterator = 6 := by
  have hread := (hexact.chunks arr harr).1
  have hreleased := hexact.released
  rw [track_chunks hkey] at hread hreleased
  have hsix := h.nchunks.mp hread
  have hle := h.order_le
  apply Nat.le_antisymm ?_ hsix
  apply Nat.le_of_not_lt
  intro hseven
  obtain ⟨hone, entries, hentries, _⟩ := h.chunks hseven
  have hold := @mem_released_chunkArray allocs _ _ hentries
  rw [← h.blocks] at hold
  have hmem := chunkArray_of_mem_released (hreleased.mem_iff.mpr (List.mem_append_left _ hold))
  dsimp only at hmem
  omega

theorem Clean.of_key {f : Failure} {key : Bytes} (hkey : lineKey f.line = some key)
    (horder : 2 ≤ f.before.orderIterator) (hhashes : key ≠ ascii "hashes")
    (hchunks : key = ascii "chunks" → f.before.orderIterator = 6)
    (hnhashes : key = ascii "nhashes" → validInt (lineValue f.line) = true → 5 ≤ f.before.orderIterator
      → lineCount f.line = f.before.obj.nhashes)
    (hnchunks : key = ascii "nchunks" → validInt (lineValue f.line) = true → 7 ≤ f.before.orderIterator
      → lineCount f.line = f.before.obj.nchunks)
    : Clean f := by
  have hsame {key' : Bytes} (hkey' : lineKey f.line = some key') : key = key' := by
    rw [hkey, Option.some.injEq] at hkey'
    exact hkey'
  constructor
  . exact horder
  . intro hkey'
    exact hhashes (hsame hkey')
  . intro hkey'
    exact hchunks (hsame hkey')
  . intro hkey'
    exact hnhashes (hsame hkey')
  . intro hkey'
    exact hnchunks (hsame hkey')

theorem Built.clean_of_exact (h : Built (line :: lines) st allocs)
    (hfail : readLine dir line lines st = .ok (true, st'))
    (hexact : ReleasesExactly st'.obj (allocs.track line st st'))
    : Clean { line, before := st, after := st', allocs := allocs.track line st st' } := by
  obtain ⟨key, hkey, hfailed⟩ := readLine_failed hfail
  have horder : 2 ≤ st.orderIterator := by
    rw [← h.filename, ← hfailed.strings.2]
    exact hexact.filename
  cases hfailed with
  | hashes hne => exact absurd hexact (h.not_exact_hashes hkey hne rfl)
  | chunks hlen =>
    have hsix := h.order_of_exact_chunks hkey rfl hexact
    apply Clean.of_key hkey horder (by decide) (fun _ => hsix)
    all_goals
      intro hname
      exact absurd hname (by decide)
  | nhashesOrder hvalid hne =>
    apply Clean.of_key hkey horder (by decide)
    case hnhashes =>
      intro _ _ hread
      obtain ⟨_, entries, hentries, hlen, _⟩ := h.hashes hread
      have hlen' := (hexact.hashes entries hentries).2.1
      rw [hlen] at hlen'
      exact (UInt32.toNat_inj.mp hlen').symm
    all_goals
      intro hname
      exact absurd hname (by decide)
  | nchunksOrder hvalid hne =>
    apply Clean.of_key hkey horder (by decide)
    case hnchunks =>
      intro _ _ hread
      obtain ⟨_, entries, hentries, hlen⟩ := h.chunks hread
      have hlen' := (hexact.chunks entries hentries).2
      rw [hlen] at hlen'
      exact (UInt32.toNat_inj.mp hlen').symm
    all_goals
      intro hname
      exact absurd hname (by decide)
  | nhashes hinvalid =>
    apply Clean.of_key hkey horder (by decide)
    case hnhashes =>
      intro _ hvalid
      rw [hinvalid] at hvalid
      cases hvalid
    all_goals
      intro hname
      exact absurd hname (by decide)
  | nchunks hinvalid =>
    apply Clean.of_key hkey horder (by decide)
    case hnchunks =>
      intro _ hvalid
      rw [hinvalid] at hvalid
      cases hvalid
    all_goals
      intro hname
      exact absurd hname (by decide)
  | other hsection =>
    apply Clean.of_key hkey horder
    all_goals
      intro hname
      rw [hname] at hsection
      cases hsection
  | _ =>
    apply Clean.of_key hkey horder (by decide)
    all_goals
      intro hname
      exact absurd hname (by decide)

theorem ReleasesExactly.nhashes_of_none {obj : BpkgObj} (h : ReleasesExactly obj allocs)
    (hnone : obj.hashes = none) (nhashes : UInt32) (assigned : Bool)
    : ReleasesExactly { obj with nhashes } { allocs with nhashes := assigned } where
  ident := h.ident
  filename := h.filename
  hashes := by
    intro entries hentries
    rw [hnone] at hentries
    cases hentries
  chunks := h.chunks
  released := by
    have hreleased := h.released
    unfold bpkgLoad.released at hreleased ⊢
    rw [hnone] at hreleased ⊢
    exact hreleased

theorem ReleasesExactly.nchunks_of_none {obj : BpkgObj} (h : ReleasesExactly obj allocs)
    (hnone : obj.chunks = none) (nchunks : UInt32) (assigned : Bool)
    : ReleasesExactly { obj with nchunks } { allocs with nchunks := assigned } where
  ident := h.ident
  filename := h.filename
  hashes := h.hashes
  chunks := by
    intro entries hentries
    rw [hnone] at hentries
    cases hentries
  released := by
    have hreleased := h.released
    unfold bpkgLoad.released at hreleased ⊢
    rw [hnone] at hreleased ⊢
    exact hreleased

theorem Built.exact_of_clean (h : Built (line :: lines) st allocs)
    (hfail : readLine dir line lines st = .ok (true, st'))
    (hclean : Clean { line, before := st, after := st', allocs := allocs.track line st st' })
    : ReleasesExactly st'.obj (allocs.track line st st') := by
  obtain ⟨key, hkey, hfailed⟩ := readLine_failed hfail
  have hbefore := h.released_perm hclean.order
  cases hfailed with
  | ident horder =>
    rw [track_ident hkey, if_neg horder]
    exact hbefore
  | filename horder =>
    rw [track_filename hkey, if_neg horder]
    exact hbefore
  | size order =>
    rw [track_size hkey]
    exact hbefore
  | nhashes hinvalid =>
    rw [track_nhashes hkey, hinvalid]
    exact hbefore
  | nhashesOrder hvalid horder =>
    rw [track_nhashes hkey, hvalid]
    by_cases hread : 5 ≤ st.orderIterator
    . have hcount := hclean.nhashes hkey hvalid hread
      have hassigned : { allocs with nhashes := true } = allocs := by
        rw [← h.nhashes.mpr (by omega)]
      rw [if_pos rfl, hassigned]
      dsimp only [lineCount] at hcount
      rw [hcount]
      exact hbefore
    . exact hbefore.nhashes_of_none (h.noHashes (by omega)).1 _ true
  | hashes horder => exact absurd hkey hclean.hashes
  | nchunks hinvalid =>
    rw [track_nchunks hkey, hinvalid]
    exact hbefore
  | nchunksOrder hvalid horder =>
    rw [track_nchunks hkey, hvalid]
    by_cases hread : 7 ≤ st.orderIterator
    . have hcount := hclean.nchunks hkey hvalid hread
      have hassigned : { allocs with nchunks := true } = allocs := by
        rw [← h.nchunks.mpr (by omega)]
      rw [if_pos rfl, hassigned]
      dsimp only [lineCount] at hcount
      rw [hcount]
      exact hbefore
    . exact hbefore.nchunks_of_none (h.noChunks (by omega)).1 _ true
  | @chunks arr counter hlen =>
    have hsix := hclean.chunks hkey
    obtain ⟨hnone, _, harrays⟩ := h.noChunks (Nat.le_of_eq hsix)
    rw [track_chunks hkey]
    refine ⟨hbefore.ident, hbefore.filename, hbefore.hashes, ?_, ?_⟩
    . intro entries hentries
      rw [Option.some.injEq] at hentries
      rw [← hentries]
      exact ⟨h.nchunks.mpr (Nat.le_of_eq hsix.symm), hlen⟩
    . -- the new blocks are those of the entries that were read
      have hreleased := hbefore.released
      unfold bpkgLoad.released at hreleased ⊢
      rw [hnone, Option.map_none, Option.getD_none, List.append_nil] at hreleased
      simp only [Option.map_some, Option.getD_some, Nat.add_sub_cancel, hlen]
      exact hreleased.append_right _
  | other hother =>
    rw [track_other hkey hother]
    exact hbefore

theorem Built.of_failure {f : Failure} (h : Built lines st allocs)
    (hfailure : failure dir lines st allocs = .ok (some f))
    : ∃ rest allocs',
        Built (f.line :: rest) f.before allocs'
          ∧ readLine dir f.line rest f.before = .ok (true, f.after)
          ∧ f.allocs = allocs'.track f.line f.before f.after := by
  fun_induction failure dir lines st allocs with
  | case1 => simp at hfailure
  | case2 => simp at hfailure
  | case3 line lines st allocs st'' hline =>
    rw [Except.ok.injEq, Option.some.injEq] at hfailure
    rw [← hfailure]
    exact ⟨lines, allocs, h, hline, rfl⟩
  | case4 line lines st allocs st'' hline ih =>
    obtain ⟨key, hkey, hstep⟩ := readLine_step hline
    exact ih (h.step hkey hstep) hfailure

end Exact

theorem ReleasesExactly.destroy {obj : BpkgObj} {allocs : Allocs} (h : ReleasesExactly obj allocs)
    : bpkgObjDestroy obj = .ok () := by
  obtain ⟨ident, hident⟩ := Option.isSome_iff_exists.mp h.ident
  obtain ⟨filename, hfilename⟩ := Option.isSome_iff_exists.mp h.filename
  unfold bpkgObjDestroy
  simp only [hident, hfilename, Option.isNone_some, Bool.false_eq_true, ↓reduceIte]
  have hfreeHashes : ∀ entries, obj.hashes = some entries
      → bpkgObjDestroy.freeHashes obj.nhashes.toNat entries = .ok () := by
    intro entries hentries
    obtain ⟨_, hlen, hall⟩ := h.hashes entries hentries
    unfold bpkgObjDestroy.freeHashes
    rw [if_neg (by omega), if_pos]
    rw [List.all_eq_true]
    intro entry hentry
    exact hall entry (List.mem_of_mem_take hentry)
  have hfreeChunks : ∀ entries, obj.chunks = some entries
      → bpkgObjDestroy.freeChunks obj.nchunks.toNat entries = .ok () := by
    intro entries hentries
    obtain ⟨_, hlen⟩ := h.chunks entries hentries
    unfold bpkgObjDestroy.freeChunks
    rw [if_neg (by omega)]
  cases hhashes : obj.hashes with
  | none =>
    cases hchunks : obj.chunks with
    | none => rfl
    | some chunks => exact hfreeChunks chunks hchunks
  | some hashes =>
    simp only [hfreeHashes hashes hhashes]
    cases hchunks : obj.chunks with
    | none => rfl
    | some chunks => exact hfreeChunks chunks hchunks

theorem destroy_exact_iff {obj : BpkgObj} {file : Bytes} {dir : Option Bytes} {st : State}
    (h : readLines dir (fgetsLines MAX_INPUT_SIZE file) (initState obj) = .ok (true, st))
    : ∃ f,
        failure dir (fgetsLines MAX_INPUT_SIZE file) (initState obj) .init = .ok (some f)
          ∧ f.after = st
          ∧ (ReleasesExactly st.obj f.allocs ↔ Clean f) := by
  obtain ⟨f, hfailure, hafter⟩ := exists_failure .init h
  obtain ⟨rest, allocs, hbuilt, hline, hallocs⟩ := (built_init _ obj).of_failure hfailure
  refine ⟨f, hfailure, hafter, ?_⟩
  have hf : f = ⟨f.line, f.before, f.after, allocs.track f.line f.before f.after⟩ := by
    rw [← hallocs]
  rw [← hafter, hf]
  constructor
  . exact hbuilt.clean_of_exact hline
  . exact hbuilt.exact_of_clean hline

def garbage : BpkgObj := ⟨none, none, 7, 7, none, 7, none, none⟩

theorem destroy_exact_third
    : ∃ f,
        failure none (fgetsLines MAX_INPUT_SIZE (ascii "ident:a\nfilename:b\nx:y\n")) (initState garbage)
            .init
          =
        .ok (some f)
          ∧ ReleasesExactly f.after.obj f.allocs := by
  have hrun : readLines none (fgetsLines MAX_INPUT_SIZE (ascii "ident:a\nfilename:b\nx:y\n"))
      (initState garbage)
      = .ok (true, ⟨⟨some (ascii "a"), some (ascii "b"), 7, 7, none, 7, none, none⟩, 2, 0, 0⟩) := by
    decide +kernel
  obtain ⟨f, hfailure, hafter, hiff⟩ := destroy_exact_iff hrun
  have hline : (failure none (fgetsLines MAX_INPUT_SIZE (ascii "ident:a\nfilename:b\nx:y\n"))
      (initState garbage) .init).toOption.map (·.map fun f => (f.before.orderIterator, lineKey f.line))
      = some (some (2, some (ascii "x"))) := by
    decide +kernel
  simp only [hfailure, Except.toOption, Option.map_some, Option.some.injEq, Prod.mk.injEq] at hline
  refine ⟨f, hfailure, ?_⟩
  rw [hafter, hiff]
  constructor
  . rw [hline.1]
  all_goals
    rw [hline.2]
    simp [ascii]

theorem destroy_exact_fails
    : failure none (fgetsLines MAX_INPUT_SIZE (ascii "x:y\n")) (initState garbage) .init
        =
      .ok (some ⟨ascii "x:y\n", initState garbage, initState garbage, .init⟩)
        ∧ ¬ ReleasesExactly (initState garbage).obj .init
        ∧ bpkgLoad garbage
            (some (ascii "ident:a\nfilename:b\nsize:1\nnhashes:1\nhashes:\n\tq\nnhashes:2\n")) none
            =
          .error .outOfBounds
        ∧ (failure none
              (fgetsLines MAX_INPUT_SIZE
                (ascii "ident:a\nfilename:b\nsize:1\nnhashes:0\nhashes:\nnchunks:1\nchunks:\n\tq,0,1\nchunks:\n"))
              (initState garbage) .init).toOption.map
            (·.map fun f => (f.allocs.blocks, released f.after.obj f.allocs))
            =
          some (some
            ([.ident, .filename, .hashArray 0, .chunkHash 0 0, .chunk 0 0, .chunkArray 0, .chunkArray 1],
              [.ident, .filename, .hashArray 0, .chunkArray 1])) := by
  refine ⟨by decide +kernel, ?_, by decide +kernel, by decide +kernel⟩
  intro hexact
  exact absurd hexact.ident (by decide)

end bpkgLoad
end Btide
