import Btide.Chk.LoadRuns

/-!
This module contains what `bpkg_load` of `src/chk/pkgchk.c` prints.
-/

open Bytes CLib

namespace Btide

def puts (message : String) : Bytes :=
  ascii message ++ [newline]

theorem puts_ne_nil (message : String) : puts message ≠ [] := by
  simp [puts]

namespace bpkgLoad

def intMessage (value : Option Bytes) (message : String) : Except Fault Bytes := do
  if !(← isAnInt value) then
    return puts message
  return []

def chunkMessage (line : Bytes) : Except Fault Bytes := do
  let value ← stripWhitespace (strtok (ascii " ") (cstr line)).1
  let (_, saved) := strtok (ascii ",") (value.getD [])
  let (offsetVal, saved) := strtok (ascii ",") saved
  let (sizeVal, _) := strtok (ascii ",") saved
  if !(← isAnInt offsetVal) then
    return puts "Offset is not an integer."
  intMessage sizeVal "Hash size is not an integer."

def chunksMessage (nchunks : UInt32) : List Bytes → Nat → Except Fault Bytes
  | [], _ => .ok []
  | line :: lines, counter => do
    if counter < nchunks.toNat then
      match ← readChunk line with
      | none => chunkMessage line
      | some _ => chunksMessage nchunks lines (← intOfNat (counter + 1))
    else
      return []

def sectionMessage (key : Bytes) (value : Option Bytes) (lines : List Bytes) (st : State)
    : Except Fault Bytes :=
  if key = ascii "size" then
    -- the only section of a number that looks at the order first
    if st.orderIterator ≠ 2 then .ok [] else intMessage value "Size is not an integer."
  else if key = ascii "nhashes" then
    intMessage value "nhashes is not an integer."
  else if key = ascii "nchunks" then
    intMessage value "nchunks is not an integer."
  else if key = ascii "chunks" then
    chunksMessage st.obj.nchunks lines st.nchunksCounter
  else
    .ok []

def lineMessage (line : Bytes) (lines : List Bytes) (st : State) : Except Fault Bytes :=
  match lineKey line with
  | none => .error .nullPointer
  | some key => sectionMessage key (lineValue line) lines st

def linesMessage (dir : Option Bytes) : List Bytes → State → Except Fault Bytes
  | [], _ => .ok []
  | line :: lines, st =>
    match readLine dir line lines st with
    | .error e => .error e
    | .ok (true, _) => lineMessage line lines st
    | .ok (false, st') => linesMessage dir (lines.drop (taken st st')) st'
termination_by lines => lines.length

theorem intMessage_ok {value : Option Bytes} {valid : Bool} (h : isAnInt value = .ok valid)
    (message : String) : ∃ printed, intMessage value message = .ok printed := by
  unfold intMessage
  rw [h]
  cases valid with
  | false => exact ⟨puts message, rfl⟩
  | true => exact ⟨[], rfl⟩

theorem intMessage_of_test {value : Option Bytes} {a b : α} {f : Except Fault α}
    (h : (do
        if !(← isAnInt value) then
          return a
        f) = .ok b) (message : String)
    : ∃ printed, intMessage value message = .ok printed := by
  rw [unless_isAnInt_eq_ok] at h
  cases h with
  | inl h => exact intMessage_ok h.1 message
  | inr h => exact intMessage_ok h.1 message

theorem chunkMessage_ok {line : Bytes} {chunk : Option Chunk} (h : readChunk line = .ok chunk)
    : ∃ printed, chunkMessage line = .ok printed := by
  unfold readChunk at h
  rw [bind_eq_ok] at h
  obtain ⟨value, hvalue, h⟩ := h
  unfold chunkMessage
  rw [hvalue]
  dsimp only [bind, Except.bind]
  rw [unless_isAnInt_eq_ok] at h
  cases h with
  | inl h =>
    rw [h.1]
    exact ⟨puts "Offset is not an integer.", rfl⟩
  | inr h =>
    rw [h.1]
    exact intMessage_of_test h.2 _

theorem chunksMessage_ok {nchunks : UInt32} (lines : List Bytes)
    (arr : List (Option Chunk)) (counter : Nat) {res : Bool × List (Option Chunk) × Nat}
    (h : readChunks nchunks lines arr counter = .ok res)
    : ∃ printed, chunksMessage nchunks lines counter = .ok printed := by
  induction lines generalizing arr counter with
  | nil => exact ⟨[], rfl⟩
  | cons line lines ih =>
    unfold readChunks at h
    unfold chunksMessage
    split_ifs at h ⊢ with hcounter
    . rw [bind_eq_ok] at h
      obtain ⟨chunk, hchunk, h⟩ := h
      rw [hchunk]
      cases chunk with
      | none => exact chunkMessage_ok hchunk
      | some chunk =>
        dsimp only at h
        rw [bind_eq_ok] at h
        obtain ⟨next, hnext, h⟩ := h
        obtain ⟨printed, hprinted⟩ := ih _ _ h
        refine ⟨printed, ?_⟩
        dsimp only [bind, Except.bind]
        rw [hnext]
        exact hprinted
    . exact ⟨[], rfl⟩

theorem lineMessage_ok {dir : Option Bytes} {line : Bytes} {lines : List Bytes} {st st' : State} {flag : Bool}
    (h : readLine dir line lines st = .ok (flag, st'))
    : ∃ printed, lineMessage line lines st = .ok printed := by
  rw [readLine_eq] at h
  unfold lineMessage
  cases hkey : lineKey line with
  | none => simp [hkey] at h
  | some key =>
    simp only [hkey] at h ⊢
    unfold sectionMessage
    split_ifs with hsize horder hnhashes hnchunks hchunks
    . exact ⟨[], rfl⟩
    . rw [hsize, sectionOf_size] at h
      simp only [readSize, checkOrder, horder, ↓reduceIte] at h
      exact intMessage_of_test h _
    . rw [hnhashes, sectionOf_nhashes] at h
      exact intMessage_of_test h _
    . rw [hnchunks, sectionOf_nchunks] at h
      exact intMessage_of_test h _
    . rw [hchunks, sectionOf_chunks] at h
      dsimp only at h
      rw [readChunksSection, bind_eq_ok] at h
      obtain ⟨_, _, h⟩ := h
      rw [bind_eq_ok] at h
      obtain ⟨res, hres, _⟩ := h
      exact chunksMessage_ok lines _ _ hres
    . exact ⟨[], rfl⟩

theorem linesMessage_ok {dir : Option Bytes} {lines : List Bytes} {st st' : State} {flag : Bool}
    (h : readLines dir lines st = .ok (flag, st'))
    : ∃ printed, linesMessage dir lines st = .ok printed := by
  induction lines, st using linesMessage.induct dir with
  | case1 st =>
    unfold linesMessage
    exact ⟨[], rfl⟩
  | case2 line lines st e hline =>
    unfold readLines at h
    simp [hline] at h
  | case3 line lines st st'' hline =>
    unfold linesMessage
    rw [hline]
    exact lineMessage_ok hline
  | case4 line lines st st'' hline ih =>
    rw [readLines_cons hline] at h
    unfold linesMessage
    rw [hline]
    exact ih h

end bpkgLoad

open bpkgLoad in
def bpkgLoadMessage (obj : BpkgObj) (file : Option Bytes) (dir : Option Bytes) : Except Fault Bytes :=
  match file with
  | none => .ok (puts "Cannot open file")
  | some file => do
    let lines := fgetsLines MAX_INPUT_SIZE file
    let (errorFlag, _) ← readLines dir lines (initState obj)
    if errorFlag then
      let message ← linesMessage dir lines (initState obj)
      return message ++ puts "Unable to parse bpkg file"
    else
      return []

theorem bpkgLoadMessage_eq_nil_iff {obj : BpkgObj} {file dir : Option Bytes} {loaded : Option BpkgObj}
    (h : bpkgLoad obj file dir = .ok loaded)
    : ∃ message, bpkgLoadMessage obj file dir = .ok message ∧ (message = [] ↔ loaded.isSome = true) := by
  cases file with
  | none =>
    cases h
    exact ⟨puts "Cannot open file", rfl, by simp [puts_ne_nil]⟩
  | some text =>
    unfold bpkgLoad at h
    dsimp only at h
    rw [bind_eq_ok] at h
    obtain ⟨⟨errorFlag, st⟩, hlines, h⟩ := h
    obtain ⟨message, hmessage⟩ := bpkgLoad.linesMessage_ok hlines
    unfold bpkgLoadMessage
    dsimp only [bind, Except.bind]
    rw [hlines]
    unfold bpkgLoad.finish at h
    cases errorFlag with
    | false =>
      simp only [Bool.false_eq_true, ↓reduceIte] at h
      rw [bind_eq_ok] at h
      obtain ⟨_, _, h⟩ := h
      rw [← pure_eq_ok.mp h]
      exact ⟨[], rfl, by simp⟩
    | true =>
      simp only [↓reduceIte] at h
      rw [bind_eq_ok] at h
      obtain ⟨_, _, h⟩ := h
      rw [← pure_eq_ok.mp h]
      refine ⟨message ++ puts "Unable to parse bpkg file", ?_, ?_⟩
      . simp only [↓reduceIte, hmessage, pure, Except.pure]
      . simp [puts_ne_nil]

end Btide
