import Btide.Chk.LoadSteps

/-!
This module contains the runs of the line loop of `bpkg_load` that reach the end of the file: the
texts they accept and the object they leave.
-/

open CLib

namespace Btide
namespace bpkgLoad

structure Layout where
  identLine : Bytes
  filenameLine : Bytes
  sizeLine : Bytes
  nhashesLine : Bytes
  hashesLine : Bytes
  hashLines : List Bytes
  nchunksLine : Bytes
  chunksLine : Bytes
  chunkLines : List Bytes

structure Contents where
  ident : Bytes
  filename : Bytes
  hashes : List Bytes
  chunks : List Chunk

namespace Layout

def lines (l : Layout) : List Bytes :=
  l.identLine :: l.filenameLine :: l.sizeLine :: l.nhashesLine :: l.hashesLine ::
    (l.hashLines ++ l.nchunksLine :: l.chunksLine :: l.chunkLines)

structure Ordered (l : Layout) : Prop where
  ident : lineKey l.identLine = some (ascii "ident")
  filename : lineKey l.filenameLine = some (ascii "filename")
  size : lineKey l.sizeLine = some (ascii "size")
  nhashes : lineKey l.nhashesLine = some (ascii "nhashes")
  hashes : lineKey l.hashesLine = some (ascii "hashes")
  nchunks : lineKey l.nchunksLine = some (ascii "nchunks")
  chunks : lineKey l.chunksLine = some (ascii "chunks")

def nhashes (l : Layout) : UInt32 := lineCount l.nhashesLine

def nchunks (l : Layout) : UInt32 := lineCount l.nchunksLine

structure Parses (l : Layout) (c : Contents) : Prop where
  ordered : l.Ordered
  ident : lineValue l.identLine = some c.ident
  length_ident : c.ident.length ≤ 1024
  filename : lineValue l.filenameLine = some c.filename
  size : isAnInt (lineValue l.sizeLine) = .ok true
  nhashes : isAnInt (lineValue l.nhashesLine) = .ok true
  hashes : List.Forall₂ (fun line hash => readHash line = .ok hash) l.hashLines c.hashes
  length_hashes : c.hashes.length = l.nhashes.toNat
  nhashes_le : l.nhashes.toNat ≤ INT_MAX
  nchunks : isAnInt (lineValue l.nchunksLine) = .ok true
  chunks : List.Forall₂ (fun line chunk => readChunk line = .ok (some chunk)) l.chunkLines c.chunks
  length_chunks : c.chunks.length ≤ l.nchunks.toNat
  nchunks_le : l.nchunks.toNat ≤ INT_MAX

def finalState (l : Layout) (c : Contents) (dir : Option Bytes) (obj : BpkgObj) : State where
  obj :=
    { obj with
      ident := some c.ident
      filename := some (joinDir dir c.filename)
      size := lineCount l.sizeLine
      nhashes := l.nhashes
      hashes := some (prefixArray c.hashes 0)
      nchunks := l.nchunks
      chunks := some (prefixArray c.chunks (l.nchunks.toNat - c.chunks.length)) }
  orderIterator := 7
  nhashesCounter := c.hashes.length
  nchunksCounter := c.chunks.length

end Layout

theorem readLines_nil (dir : Option Bytes) (st : State) : readLines dir [] st = .ok (false, st) := by
  unfold readLines
  rfl

theorem readLines_cons {dir : Option Bytes} {line : Bytes} {lines : List Bytes} {st st' : State}
    (h : readLine dir line lines st = .ok (false, st'))
    : readLines dir (line :: lines) st = readLines dir (lines.drop (taken st st')) st' := by
  conv => lhs; unfold readLines
  rw [h]

theorem readLines_cases {dir : Option Bytes} {lines : List Bytes} {st st'' : State}
    (h : readLines dir lines st = .ok (false, st''))
    : (lines = [] ∧ st = st'')
        ∨ ∃ line rest key st',
            lines = line :: rest
              ∧ lineKey line = some key
              ∧ SectionStep dir (lineValue line) rest st key st'
              ∧ readLines dir (rest.drop (taken st st')) st' = .ok (false, st'') := by
  cases lines with
  | nil =>
    rw [readLines_nil] at h
    simp at h
    exact .inl ⟨rfl, h⟩
  | cons line rest =>
    cases hline : readLine dir line rest st with
    | error e =>
      unfold readLines at h
      simp [hline] at h
    | ok res =>
      obtain ⟨errorFlag, st'⟩ := res
      cases errorFlag with
      | true =>
        unfold readLines at h
        simp [hline] at h
      | false =>
        obtain ⟨key, hkey, hstep⟩ := readLine_step hline
        rw [readLines_cons hline] at h
        exact .inr ⟨line, rest, key, st', rfl, hkey, hstep, h⟩

namespace Layout.Parses

variable {l : Layout} {c : Contents}

theorem readHashes (h : l.Parses c) (lines : List Bytes)
    : bpkgLoad.readHashes l.nhashes (l.hashLines ++ lines) (prefixArray [] l.nhashes.toNat) 0
        =
      .ok (prefixArray c.hashes 0, c.hashes.length) := by
  rw [readHashes_iff]
  refine ⟨c.hashes, ?_, fun _ => h.length_hashes ▸ h.nhashes_le, ?_, rfl⟩
  . rw [← h.length_hashes, ← h.hashes.length_eq, List.take_left]
    exact h.hashes
  . rw [h.length_hashes, Nat.sub_self]

theorem readChunks (h : l.Parses c)
    : bpkgLoad.readChunks l.nchunks l.chunkLines (prefixArray [] l.nchunks.toNat) 0
        =
      .ok (false, prefixArray c.chunks (l.nchunks.toNat - c.chunks.length), c.chunks.length) := by
  rw [readChunks_iff]
  refine ⟨c.chunks, ?_, fun _ => Nat.le_trans h.length_chunks h.nchunks_le, rfl, rfl⟩
  rw [List.take_of_length_le]
  . exact h.chunks
  . rw [h.chunks.length_eq]
    exact h.length_chunks

end Layout.Parses

theorem readLines_of_parses {l : Layout} {c : Contents} (h : l.Parses c) (dir : Option Bytes)
    (obj : BpkgObj)
    : readLines dir l.lines ⟨obj, 0, 0, 0⟩ = .ok (false, l.finalState c dir obj) := by
  unfold Layout.lines
  rw [readLines_cons (readLine_of_step h.ordered.ident (.ident h.ident h.length_ident))]
  simp only [taken, Nat.sub_self, Nat.add_zero, List.drop_zero]
  rw [readLines_cons (readLine_of_step h.ordered.filename (.filename h.filename))]
  simp only [taken, Nat.sub_self, Nat.add_zero, List.drop_zero]
  rw [readLines_cons (readLine_of_step h.ordered.size (.size h.size))]
  simp only [taken, Nat.sub_self, Nat.add_zero, List.drop_zero]
  rw [readLines_cons (readLine_of_step h.ordered.nhashes (.nhashes h.nhashes))]
  simp only [taken, Nat.sub_self, Nat.add_zero, List.drop_zero]
  rw [readLines_cons (readLine_of_step h.ordered.hashes (.hashes (h.readHashes _)))]
  simp only [taken, Nat.sub_self, Nat.sub_zero, Nat.add_zero]
  rw [← h.hashes.length_eq, List.drop_left]
  rw [readLines_cons (readLine_of_step h.ordered.nchunks (.nchunks h.nchunks))]
  simp only [taken, Nat.sub_self, Nat.add_zero, List.drop_zero]
  rw [readLines_cons (readLine_of_step h.ordered.chunks (.chunks h.nchunks_le h.readChunks))]
  simp only [taken, Nat.sub_self, Nat.sub_zero, Nat.zero_add]
  rw [← h.chunks.length_eq, List.drop_length, readLines_nil, h.hashes.length_eq, h.chunks.length_eq]
  rfl

theorem forall₂_take {R : Bytes → α → Prop} {lines : List Bytes} {n : Nat} {new : List α}
    (h : List.Forall₂ R (lines.take n) new) (hlt : new.length < lines.length)
    : new.length = n := by
  have hlength := h.length_eq
  rw [List.length_take] at hlength
  omega

section Prefix

variable {dir : Option Bytes} {lines : List Bytes} {obj : BpkgObj} {st : State}

theorem step_of_readLines {st₀ : State} (h : readLines dir lines st₀ = .ok (false, st))
    (hst₀ : st₀.obj.chunks = none) (hst : st.obj.chunks ≠ none)
    : ∃ line rest key st',
        lines = line :: rest
          ∧ lineKey line = some key
          ∧ SectionStep dir (lineValue line) rest st₀ key st'
          ∧ readLines dir (rest.drop (taken st₀ st')) st' = .ok (false, st) := by
  rcases readLines_cases h with ⟨_, heq⟩ | h
  . rw [← heq] at hst
    contradiction
  . exact h

theorem parses_of_readLines (h : readLines dir lines ⟨obj, 0, 0, 0⟩ = .ok (false, st))
    (hobj : obj.chunks = none) (hst : st.obj.chunks ≠ none)
    : ∃ (l : Layout) (c : Contents),
        lines = l.lines ∧ l.Parses c ∧ st = l.finalState c dir obj := by
  obtain ⟨l0, rest, _, _, hlines, hkey0, hstep, h⟩ := step_of_readLines h hobj hst
  cases hstep with
  | @ident _ _ _ ident hident hlen =>
  simp only [taken, Nat.sub_self, Nat.add_zero, List.drop_zero] at h
  obtain ⟨l1, rest, _, _, rfl, hkey1, hstep, h⟩ := step_of_readLines h hobj hst
  cases hstep with
  | @filename _ _ _ filename hfilename =>
  simp only [taken, Nat.sub_self, Nat.add_zero, List.drop_zero] at h
  obtain ⟨l2, rest, _, _, rfl, hkey2, hstep, h⟩ := step_of_readLines h hobj hst
  cases hstep with
  | size hsize =>
  simp only [taken, Nat.sub_self, Nat.add_zero, List.drop_zero] at h
  obtain ⟨l3, rest, _, _, rfl, hkey3, hstep, h⟩ := step_of_readLines h hobj hst
  cases hstep with
  | nhashes hnhashes =>
  simp only [taken, Nat.sub_self, Nat.add_zero, List.drop_zero] at h
  obtain ⟨l4, rest4, _, _, rfl, hkey4, hstep, h⟩ := step_of_readLines h hobj hst
  cases hstep with
  | hashes hread =>
  obtain ⟨hashes, hhashes, hmax, rfl, rfl⟩ := readHashes_iff.mp hread
  simp only [taken, Nat.sub_self, Nat.sub_zero, Nat.add_zero] at h
  obtain ⟨l5, rest, _, _, hrest4, hkey5, hstep, h⟩ := step_of_readLines h hobj hst
  cases hstep with
  | nchunks hnchunks =>
  simp only [taken, Nat.sub_self, Nat.add_zero, List.drop_zero] at h
  obtain ⟨l6, rest6, _, _, rfl, hkey6, hstep, h⟩ := step_of_readLines h hobj hst
  cases hstep with
  | chunks hnchunks_le hread =>
  obtain ⟨chunks, hchunks, _, rfl, rfl⟩ := readChunks_iff.mp hread
  simp only [taken, Nat.sub_self, Nat.sub_zero, Nat.zero_add] at h
  rcases readLines_cases h with ⟨hend, hst⟩ | ⟨_, _, _, _, _, _, hstep, _⟩
  . have hlt : hashes.length < rest4.length := by
      have := congrArg List.length hrest4
      simp only [List.length_drop, List.length_cons] at this
      omega
    have hlength := forall₂_take hhashes hlt
    dsimp only at hhashes hlength hchunks hnchunks_le
    have hle : hashes.length ≤ INT_MAX := by
      cases hashes with
      | nil => exact Nat.zero_le _
      | cons hash hashes => exact hmax (List.cons_ne_nil _ _)
    rw [List.drop_eq_nil_iff] at hend
    have hlength' := hchunks.length_eq
    rw [List.length_take] at hlength'
    rw [List.take_of_length_le (by omega)] at hchunks
    rw [← hlength] at hhashes
    refine ⟨⟨l0, l1, l2, l3, l4, rest4.take hashes.length, l5, l6, rest6⟩,
      ⟨ident, filename, hashes, chunks⟩, ?_, ?_, ?_⟩
    . rw [hlines, Layout.lines, ← hrest4, List.take_append_drop]
    . exact {
        ordered := ⟨hkey0, hkey1, hkey2, hkey3, hkey4, hkey5, hkey6⟩
        ident := hident
        length_ident := hlen
        filename := hfilename
        size := hsize
        nhashes := hnhashes
        hashes := hhashes
        length_hashes := hlength
        nhashes_le := hlength ▸ hle
        nchunks := hnchunks
        chunks := hchunks
        length_chunks := by
          dsimp only [Layout.nchunks, lineCount]
          omega
        nchunks_le := hnchunks_le }
    . rw [← hst, ← hlength, Nat.sub_self]
      rfl
  . cases hstep

end Prefix

end bpkgLoad
end Btide
