import Btide.Net.Commands

/-!
This module contains the words that the command loop finds in a line, and where `fetch_parser` goes on
behind the address of a `FETCH`.
-/

open Bytes CLib

namespace Btide

/--
The outcome of `stripAt` on the word at `p`: the trimmed word, with nothing changed before the word
and behind what is left of it, whatever follows the block.
-/
structure Stripped (mem : Bytes) (p : Nat) (ptr : CharPtr) (mem' : Bytes) : Prop where
  run (rest : Bytes) : stripAt (mem ++ rest) (some p) = .ok (some ptr, mem' ++ rest)
  terminated : Terminated mem'
  length_eq : mem'.length = mem.length
  ptr_eq : ptr
      = if trim (strAt mem p) = [] then .literal
        else .inBuffer (p + ((strAt mem p).takeWhile isspace).length)
  str_eq : ptr.str mem' = trim (strAt mem p)
  before (q : Nat) : q + (strAt mem q).length < p → strAt mem' q = strAt mem q
  behind (q : Nat) : p + ((strAt mem p).takeWhile isspace).length + (trim (strAt mem p)).length < q
    → strAt mem' q = strAt mem q

theorem exists_stripped {mem : Bytes} {p : Nat} (h : Terminated mem) (hp : p < mem.length)
    : ∃ ptr mem', Stripped mem p ptr mem' := by
  have hs : ∀ c ∈ strAt mem p, c ≠ 0 := zero_not_mem_cstr _
  have hlt := h.length_strAt_lt hp
  have hle := length_takeWhile_trim_le (strAt mem p)
  have happend := h.strAt_append hp
  by_cases hne : (strAt mem p).dropWhile isspace = []
  . have hnil := (trim_eq_nil_iff hs).mpr hne
    refine ⟨.literal, mem, ?_, h, rfl, ?_, ?_, fun _ _ => rfl, fun _ _ => rfl⟩
    . intro rest
      unfold stripAt
      dsimp only
      rw [happend, if_pos hne]
    . rw [if_pos hnil]
    . rw [hnil]
      rfl
  . have hnil : trim (strAt mem p) ≠ [] := by
      rw [ne_eq, trim_eq_nil_iff hs]
      exact hne
    obtain ⟨i, hend, hi⟩ := stripWhitespace.stripEnd_trim hs hne
    have hdrop : strAt mem (p + ((strAt mem p).takeWhile isspace).length) = (strAt mem p).dropWhile isspace := by
      rw [strAt_add (by omega), drop_length_takeWhile]
    refine ⟨.inBuffer (p + ((strAt mem p).takeWhile isspace).length),
      mem.set (p + ((strAt mem p).takeWhile isspace).length + i + 1) 0, ?_, h.set _, List.length_set, ?_, ?_,
      ?_, ?_⟩
    . intro rest
      unfold stripAt
      dsimp only
      rw [happend, if_neg hne, hend]
      dsimp only
      rw [List.set_append_left _ _ (by omega)]
    . rw [if_neg hnil]
    . rw [CharPtr.str, Nat.add_assoc _ i 1, strAt_set_add, hdrop, hi]
      exact (List.prefix_iff_eq_take.mp (trim_prefix_dropWhile _)).symm
    . intro q hq
      rw [strAt_set, if_neg (by omega)]
      apply List.take_of_length_le
      omega
    . intro q hq
      apply strAt_set_of_lt
      omega

namespace Stripped

variable {mem mem' : Bytes} {p : Nat} {ptr : CharPtr}

theorem pos_eq (h : Stripped mem p ptr mem') {q : Nat} (hq : ptr = .inBuffer q)
    : q = p + ((strAt mem p).takeWhile isspace).length := by
  have hptr := h.ptr_eq
  rw [hq] at hptr
  split at hptr
  . cases hptr
  . cases hptr
    rfl

theorem pos_lt (h : Stripped mem p ptr mem') (hmem : Terminated mem) (hp : p < mem.length) {q : Nat}
    (hq : ptr = .inBuffer q)
    : q < mem'.length := by
  have hlt := hmem.length_strAt_lt hp
  have hle := length_takeWhile_trim_le (strAt mem p)
  rw [h.length_eq, h.pos_eq hq]
  omega

theorem str_eq_of_behind (h : Stripped mem p ptr mem') {mem'' : Bytes} {p' : Nat} {ptr' : CharPtr}
    (h' : Stripped mem' p' ptr' mem'') (hp : p + (strAt mem p).length < p')
    : ptr.str mem'' = trim (strAt mem p) := by
  have hstr := h.str_eq
  cases ptr with
  | literal => exact hstr
  | inBuffer q =>
    have hq := h.pos_eq rfl
    have hle := length_takeWhile_trim_le (strAt mem p)
    unfold CharPtr.str at *
    dsimp only at *
    rw [h'.before, hstr]
    rw [hstr]
    omega

end Stripped

def commandKey (line : Bytes) : Option Bytes :=
  (strtok (ascii " ") (cstr line)).1.map trim

def commandRest (line : Bytes) : Bytes :=
  (strtok (ascii " ") (cstr line)).2

def commandValue (line : Bytes) : Bytes :=
  trim (commandRest line)

def restAt (line : Bytes) : Nat :=
  (cstr line).length - (commandRest line).length

def valueAt (line : Bytes) : Nat :=
  restAt line + ((commandRest line).takeWhile isspace).length

namespace commandLoop

structure WordsOf (line : Bytes) (words : Words) : Prop where
  run (rest : Bytes) : readWords (line ++ [0] ++ rest) = .ok { words with mem := words.mem ++ rest }
  terminated : Terminated words.mem
  length_eq : words.mem.length = line.length + 1
  saved_eq : words.saved = none
  key_eq : words.key.map (CharPtr.str words.mem) = commandKey line
  key_lt (p : Nat) : words.key = some (.inBuffer p) → p < words.mem.length
  blank : commandValue line = [] → words.value = none ∨ words.value = some .literal
  value_eq : commandValue line ≠ []
    → words.value = some (.inBuffer (valueAt line)) ∧ strAt words.mem (valueAt line) = commandValue line
  behind (q : Nat) : commandValue line ≠ [] → valueAt line + (commandValue line).length < q
    → strAt words.mem q = strAt (line ++ [0]) q

structure KeyToken (line : Bytes) (pos : Nat) (saved : Option Nat) (mem : Bytes) : Prop where
  run (rest : Bytes) : strtokAt (ascii " ") (line ++ [0] ++ rest) (some 0)
      = { token := some pos, saved, mem := mem ++ rest }
  terminated : Terminated mem
  length_eq : mem.length = line.length + 1
  pos_lt : pos < mem.length
  key_eq : (strtok (ascii " ") (cstr line)).1 = some (strAt mem pos)
  saved_none : saved = none → commandRest line = []
  saved_some (q : Nat) : saved = some q
    → q = restAt line
      ∧ q < mem.length
      ∧ pos + (strAt mem pos).length < q
      ∧ strAt mem q = commandRest line
  behind (q : Nat) : restAt line ≤ q → strAt mem q = strAt (line ++ [0]) q

theorem keyToken_cases (line : Bytes)
    : ((strtok (ascii " ") (cstr line)) = (none, [])
        ∧ ∀ rest, strtokAt (ascii " ") (line ++ [0] ++ rest) (some 0)
          = { token := none, saved := none, mem := line ++ [0] ++ rest })
      ∨ ∃ pos saved mem, KeyToken line pos saved mem := by
  have hterm := Terminated.append_zero line
  have hpos : ∀ p, some 0 = some p → p < (line ++ [0]).length := by
    rintro p ⟨⟩
    exact hterm.length_pos
  have hs : strAt (line ++ [0]) 0 = cstr line := cstr_append_replicate line 1
  obtain ⟨hmem, hlen, htokenLt, hsavedLt⟩ := @strtokAt_terminated (ascii " ") _ _ hterm hpos
  have hrun := @strtokAt_append (ascii " ") _ _ hterm hpos
  have hspec := strtokAt_spec (ascii " ") (line ++ [0]) (some 0)
  rw [savedStr_some, hs] at hspec
  cases split (ascii " ") (cstr line) with
  | blank hblank =>
    left
    rw [strtokAt_blank (by rw [hs]; exact hblank)] at hrun
    exact ⟨strtok_blank hblank, hrun⟩
  | last skip word hline hskip hword hne =>
    right
    have hstr := strtok_skip_last hskip hword hne
    have htok := strtokAt_last (hs.trans hline) hskip hword hne
    rw [Nat.zero_add] at htok
    rw [← hline] at hstr
    rw [htok, hstr] at hspec
    rw [htok] at hrun hmem hlen htokenLt
    refine ⟨skip.length, none, line ++ [0], hrun, hmem, by simp, htokenLt _ rfl, ?_, ?_, by simp, fun _ _ => rfl⟩
    . rw [hstr]
      exact hspec.1.symm
    . intro _
      rw [commandRest, hstr]
  | more skip word rest d hline hskip hword hne hd =>
    right
    have hstr := @strtok_skip_append (ascii " ") skip word rest d hskip hword hne hd
    have htok := strtokAt_more (hs.trans hline) hskip hword hne hd
    rw [Nat.zero_add] at htok
    rw [← hline] at hstr
    rw [htok, hstr] at hspec
    rw [htok] at hrun hmem hlen htokenLt hsavedLt
    have hrestAt : restAt line = skip.length + word.length + 1 := by
      rw [restAt, commandRest, hstr, hline]
      simp only [List.length_append, List.length_cons]
      omega
    have hkey := Option.some.inj hspec.1
    refine ⟨skip.length, some (skip.length + word.length + 1), _, hrun, hmem, by simp, ?_, ?_, by simp, ?_, ?_⟩
    . rw [hlen]
      exact htokenLt _ rfl
    . rw [hstr]
      exact hspec.1.symm
    . rintro q ⟨⟩
      rw [hkey]
      refine ⟨hrestAt.symm, ?_, by omega, ?_⟩
      . rw [hlen]
        exact hsavedLt _ rfl
      . rw [commandRest, hstr]
        exact hspec.2
    . intro q hq
      apply strAt_set_of_lt
      omega

namespace KeyToken

variable {line mem : Bytes} {pos : Nat} {saved : Option Nat}

theorem value_token (h : KeyToken line pos saved mem) (rest : Bytes)
    : strtokAt [] (mem ++ rest) saved
        =
      {
        token := if commandRest line = [] then none else some (restAt line)
        saved := none
        mem := mem ++ rest
      } := by
  cases saved with
  | none => rw [strtokAt_none, h.saved_none rfl, if_pos rfl]
  | some q =>
    obtain ⟨rfl, hlt, -, hstr⟩ := h.saved_some q rfl
    rw [strtokAt_nil_eq, h.terminated.strAt_append hlt, hstr]

theorem wordsOf_nil (h : KeyToken line pos saved mem) (hnil : commandRest line = [])
    : ∃ words, WordsOf line words := by
  obtain ⟨ptr, mem', hstrip⟩ := exists_stripped h.terminated h.pos_lt
  have hvalue : commandValue line = [] := by
    rw [commandValue, hnil]
    rfl
  refine ⟨{ key := some ptr, value := none, saved := none, mem := mem' }, ?_, hstrip.terminated,
    hstrip.length_eq.trans h.length_eq, rfl, ?_, ?_, by simp, fun hne => absurd hvalue hne,
    fun _ hne => absurd hvalue hne⟩
  . intro rest
    unfold readWords
    rw [h.run]
    dsimp only
    rw [h.value_token, if_pos hnil]
    dsimp only
    rw [hstrip.run]
    rfl
  . dsimp only [Option.map_some]
    rw [hstrip.str_eq, commandKey, h.key_eq, Option.map_some]
  . intro p hp
    exact hstrip.pos_lt h.terminated h.pos_lt (Option.some.inj hp)

theorem wordsOf_rest (h : KeyToken line pos saved mem) (hne : commandRest line ≠ [])
    : ∃ words, WordsOf line words := by
  cases hsaved : saved with
  | none => exact absurd (h.saved_none hsaved) hne
  | some q =>
    obtain ⟨rfl, hrestLt, hkeyLt, hrest⟩ := h.saved_some q hsaved
    obtain ⟨ptr, mem', hstrip⟩ := exists_stripped h.terminated h.pos_lt
    have hle := length_takeWhile_trim_le (strAt mem pos)
    have hrest' : strAt mem' (restAt line) = commandRest line := by
      rw [hstrip.behind, hrest]
      omega
    rw [← hstrip.length_eq] at hrestLt
    obtain ⟨valuePtr, mem'', hstrip'⟩ := exists_stripped hstrip.terminated hrestLt
    have hptr := hstrip'.ptr_eq
    have hstr := hstrip'.str_eq
    rw [hrest', ← commandValue] at hptr hstr
    refine ⟨{ key := some ptr, value := some valuePtr, saved := none, mem := mem'' }, ?_,
      hstrip'.terminated, by simp [hstrip'.length_eq, hstrip.length_eq, h.length_eq], rfl, ?_, ?_, ?_, ?_, ?_⟩
    . intro rest
      unfold readWords
      rw [h.run]
      dsimp only
      rw [h.value_token, if_neg hne]
      dsimp only
      rw [hstrip.run]
      dsimp only [bind, Except.bind]
      rw [hstrip'.run]
      rfl
    . dsimp only [Option.map_some]
      rw [hstrip.str_eq_of_behind hstrip' hkeyLt, commandKey, h.key_eq, Option.map_some]
    . intro p hp
      dsimp only
      rw [hstrip'.length_eq]
      exact hstrip.pos_lt h.terminated h.pos_lt (Option.some.inj hp)
    . intro hvalue
      rw [if_pos hvalue] at hptr
      exact .inr (congrArg some hptr)
    . intro hvalue
      rw [if_neg hvalue, ← valueAt] at hptr
      rw [hptr] at hstr
      exact ⟨congrArg some hptr, hstr⟩
    . intro p _ hp
      have hbehind := hstrip'.behind p
      rw [hrest'] at hbehind
      rw [valueAt, commandValue] at hp
      dsimp only
      rw [hbehind hp, hstrip.behind, h.behind]
      . omega
      . omega

end KeyToken

theorem exists_wordsOf (line : Bytes) : ∃ words, WordsOf line words := by
  cases keyToken_cases line with
  | inl hblank =>
    obtain ⟨hstr, hrun⟩ := hblank
    refine ⟨{ key := none, value := none, saved := none, mem := line ++ [0] }, ?_,
      Terminated.append_zero line, by simp, rfl, ?_, by simp, by simp, ?_, fun _ _ _ => rfl⟩
    . intro rest
      unfold readWords
      rw [hrun]
      rfl
    . rw [commandKey, hstr]
      rfl
    . intro hne
      exact absurd (by rw [commandValue, commandRest, hstr]; rfl) hne
  | inr hword =>
    obtain ⟨pos, saved, mem, hkey⟩ := hword
    by_cases hnil : commandRest line = []
    . exact hkey.wordsOf_nil hnil
    . exact hkey.wordsOf_rest hnil

end commandLoop

namespace fetchParser

def cut (mem : Bytes) (resume : Nat) : Bytes :=
  let ident := strtokAt (ascii " ") mem (some resume)
  let chunkHash := strtokAt (ascii " ") ident.mem ident.saved
  (strtokAt (ascii " ") chunkHash.mem chunkHash.saved).mem

def argumentsOf (ip port : Option Bytes) (resume : Nat) (s : Bytes) : Command :=
  let ident := strtok (ascii " ") s
  let chunkHash := strtok (ascii " ") ident.2
  match ip, port, ident.1, chunkHash.1 with
  | some ip, some port, some _, some _ =>
    if isAnInt (some port) = .ok true then
      .fetch {
        ip
        port
        ident := resume + (s.takeWhile ((ascii " ").contains ·)).length
        chunkHash := resume + (s.length - ident.2.length)
          + (ident.2.takeWhile ((ascii " ").contains ·)).length
        offset := (strtok (ascii " ") chunkHash.2).1
      }
    else
      .badFetchPort
  | _, _, _, _ => .missingArguments

theorem arguments_eq (mem : Bytes) (resume : Nat) (ip port : Option Bytes)
    : arguments mem resume ip port = .ok (cut mem resume, argumentsOf ip port resume (strAt mem resume))
        ∧ ∀ args, argumentsOf ip port resume (strAt mem resume) = .fetch args
          → some (strAt (cut mem resume) args.ident) = (strtok (ascii " ") (strAt mem resume)).1
            ∧ some (strAt (cut mem resume) args.chunkHash)
              = (strtok (ascii " ") (strtok (ascii " ") (strAt mem resume)).2).1 := by
  obtain ⟨hident, hrest⟩ := strtokAt_spec (ascii " ") mem (some resume)
  rw [savedStr_some] at hident hrest
  have hidentAt := @strtokAt_token_eq (ascii " ") mem resume
  have hidentSaved := @strtokAt_saved_eq (ascii " ") mem resume
  have hidentLt := @strtokAt_token_lt (ascii " ") mem resume
  have hle := (strtok_suffix (ascii " ") (strAt mem resume)).length_le
  unfold arguments argumentsOf cut
  dsimp only
  generalize strtokAt (ascii " ") mem (some resume) = ident at *
  generalize strtok (ascii " ") (strAt mem resume) = first at *
  obtain ⟨hhash, hrest'⟩ := strtokAt_spec (ascii " ") ident.mem ident.saved
  obtain ⟨hoffset, -⟩ := strtokAt_spec (ascii " ") (strtokAt (ascii " ") ident.mem ident.saved).mem
    (strtokAt (ascii " ") ident.mem ident.saved).saved
  rw [hrest', hrest] at hoffset
  rw [hrest] at hhash
  cases ip with
  | none => exact ⟨rfl, by simp⟩
  | some ip =>
    cases port with
    | none => exact ⟨rfl, by simp⟩
    | some port =>
      cases htoken : ident.token with
      | none =>
        rw [htoken] at hident
        rw [← hident]
        exact ⟨rfl, by simp⟩
      | some identPtr =>
        rw [htoken] at hident
        rw [← hident]
        cases hhashToken : (strtokAt (ascii " ") ident.mem ident.saved).token with
        | none =>
          rw [hhashToken] at hhash
          rw [← hhash]
          exact ⟨rfl, by simp⟩
        | some hashPtr =>
          rw [hhashToken] at hhash
          rw [← hhash]
          -- a second token was found, so the first call left a position
          cases hsaved : ident.saved with
          | none =>
            rw [hsaved] at hhashToken
            cases hhashToken
          | some saved =>
            rw [hsaved] at hrest hhashToken hoffset
            rw [savedStr_some] at hrest
            have hhashAt := strtokAt_token_eq hhashToken
            have hhashLt := fun p => @strtokAt_token_lt (ascii " ") ident.mem saved hashPtr p hhashToken
            have hhashSaved := fun p => @strtokAt_saved_eq (ascii " ") ident.mem saved p
            have hidentEnd := hidentLt htoken hsaved
            have hbefore := @strtokAt_before (ascii " ") ident.mem (some saved) identPtr (by
              rintro p ⟨⟩
              exact hidentEnd)
            have hrestLen := hidentSaved hsaved
            generalize strtokAt (ascii " ") ident.mem (some saved) = chunkHash at *
            have hbeforeIdent := @strtokAt_before (ascii " ") chunkHash.mem chunkHash.saved identPtr (by
              rw [hbefore]
              intro p hp
              have := hhashLt p hp
              omega)
            have hbeforeHash := @strtokAt_before (ascii " ") chunkHash.mem chunkHash.saved hashPtr hhashLt
            generalize strtokAt (ascii " ") chunkHash.mem chunkHash.saved = offset at *
            obtain ⟨b, hb⟩ := isAnInt_some port
            dsimp only [Option.map_some]
            rw [hb]
            cases b with
            | false => exact ⟨rfl, by simp⟩
            | true =>
              have hstart : saved = resume + ((strAt mem resume).length - first.2.length) := by omega
              constructor
              . dsimp only [bind, Except.bind]
                rw [if_neg (by simp), if_pos rfl, hoffset, hhashAt, hidentAt htoken, hrest, hstart]
                rfl
              . rintro args hargs
                rw [if_pos rfl] at hargs
                cases hargs
                dsimp only
                rw [← hstart, ← hrest, ← hhashAt, ← hidentAt htoken, hbeforeIdent, hbeforeHash, hbefore]
                exact ⟨rfl, rfl⟩

end fetchParser

def peerWord (line : Bytes) : Bytes :=
  (strtok (ascii " ") (commandValue line)).1.getD []

def fetchIp (line : Bytes) : Option Bytes :=
  (strtok (ascii ":") (peerWord line)).1

def fetchPort (line : Bytes) : Option Bytes :=
  (strtok [] (strtok (ascii ":") (peerWord line)).2).1

def resumeAt (line : Bytes) : Nat :=
  valueAt line + (peerWord line).length + 1

def resumeStr (line : Bytes) : Bytes :=
  if 32 ∈ commandValue line then
    (strtok (ascii " ") (commandValue line)).2
  else
    strAt (line ++ [0]) (resumeAt line)

theorem mem_ascii_space {c : UInt8} : c ∈ ascii " " ↔ c = 32 := by
  rw [show ascii " " = [32] by decide, List.mem_singleton]

theorem peerWord_cases {line : Bytes} (hne : commandValue line ≠ [])
    : (32 ∉ commandValue line ∧ peerWord line = commandValue line)
        ∨ ∃ rest,
            commandValue line = peerWord line ++ 32 :: rest
              ∧ 32 ∉ peerWord line
              ∧ peerWord line ≠ []
              ∧ (strtok (ascii " ") (commandValue line)).2 = rest := by
  have hhead : ∀ c, (commandValue line).head? = some c → isspace c = false := fun c => trim_head
  have hskip (skip rest : Bytes) (hs : commandValue line = skip ++ rest) (h : ∀ c ∈ skip, c ∈ ascii " ")
      : skip = [] := by
    cases skip with
    | nil => rfl
    | cons c skip =>
      have hc := mem_ascii_space.mp (h c (by simp))
      have hspace := hhead c (by rw [hs]; rfl)
      rw [hc] at hspace
      exact absurd hspace (by decide)
  unfold peerWord
  cases split (ascii " ") (commandValue line) with
  | blank hblank =>
    have := hskip (commandValue line) [] (by simp) hblank
    exact absurd this hne
  | last skip word hs hblank hword hwordNe =>
    have hnil := hskip skip word hs hblank
    rw [hnil, List.nil_append] at hs
    left
    rw [hs]
    refine ⟨fun h => hword 32 h (mem_ascii_space.mpr rfl), ?_⟩
    rw [strtok_last hwordNe hword]
    rfl
  | more skip word rest d hs hblank hword hwordNe hd =>
    have hnil := hskip skip (word ++ d :: rest) hs hblank
    rw [mem_ascii_space.mp hd, hnil, List.nil_append] at hs
    right
    refine ⟨rest, ?_⟩
    rw [hs, strtok_append hwordNe hword (mem_ascii_space.mpr rfl)]
    exact ⟨rfl, fun h => hword 32 h (mem_ascii_space.mpr rfl), hwordNe, rfl⟩

namespace commandLoop

structure FetchOf (line : Bytes) (mem : Bytes) : Prop where
  run (buffer : Bytes) : runLine buffer line
      = if line.length + 1 + (buffer.length - (line.length + 1)) ≤ resumeAt line then
          .error .outOfBounds
        else
          .ok (fetchParser.cut (mem ++ buffer.drop (line.length + 1)) (resumeAt line),
            fetchParser.argumentsOf (fetchIp line) (fetchPort line) (resumeAt line)
              (strAt (mem ++ buffer.drop (line.length + 1)) (resumeAt line)))
  terminated : Terminated mem
  length_eq : mem.length = line.length + 1
  resume_le : resumeAt line ≤ line.length + 1
  resume_str : resumeAt line ≤ line.length → strAt mem (resumeAt line) = resumeStr line

theorem fgetsInto_eq (buffer line : Bytes)
    : fgetsInto buffer line = line ++ [0] ++ buffer.drop (line.length + 1) := by
  simp [fgetsInto]

theorem runLine_none {line : Bytes} (h : commandKey line = none) (buffer : Bytes)
    : runLine buffer line = .error .nullPointer := by
  obtain ⟨words, hwords⟩ := exists_wordsOf line
  have hkey := hwords.key_eq
  rw [h, Option.map_eq_none_iff] at hkey
  unfold runLine
  rw [fgetsInto_eq, hwords.run]
  dsimp only [bind, Except.bind]
  rw [hkey]
  rfl

theorem runLine_some {line key : Bytes} {words : Words} (hwords : WordsOf line words)
    (h : commandKey line = some key) (buffer : Bytes)
    : runLine buffer line
        =
      dispatch { words with mem := words.mem ++ buffer.drop (line.length + 1) } key := by
  have hkey := hwords.key_eq
  rw [h, Option.map_eq_some_iff] at hkey
  obtain ⟨ptr, hptr, hstr⟩ := hkey
  have happend : ptr.str (words.mem ++ buffer.drop (line.length + 1)) = key := by
    cases ptr with
    | literal => exact hstr
    | inBuffer p =>
      unfold CharPtr.str at *
      dsimp only at *
      rw [hwords.terminated.strAt_append (hwords.key_lt p hptr), hstr]
  unfold runLine
  rw [fgetsInto_eq, hwords.run]
  dsimp only [bind, Except.bind]
  rw [hptr]
  dsimp only [deref_some]
  rw [happend]

theorem dispatch_fetch (words : Words)
    : dispatch words (ascii "FETCH") = fetchParser.parse words.mem words.saved words.value := by
  rfl

theorem connectOrDisconnectToClient_ok (mem : Bytes) (saved : Option Nat) (arguments : Option CharPtr)
    (disconnectFlag : Bool)
    : ∃ result, connectOrDisconnectToClient mem saved arguments disconnectFlag = .ok result := by
  unfold connectOrDisconnectToClient
  dsimp only
  split
  . next ip port _ _ =>
    obtain ⟨b, hb⟩ := isAnInt_some (strAt (strtokAt (ascii ":") (strtokPtr (ascii ":") mem saved arguments).mem
      (strtokPtr (ascii ":") mem saved arguments).saved).mem port)
    rw [hb]
    dsimp only [bind, Except.bind]
    split
    . exact ⟨_, rfl⟩
    . split
      . exact ⟨_, rfl⟩
      . exact ⟨_, rfl⟩
  . exact ⟨_, rfl⟩

theorem dispatch_cases (words : Words) (key : Bytes)
    : (∃ flag, dispatch words key = connectOrDisconnectToClient words.mem words.saved words.value flag)
        ∨ (key = ascii "FETCH" ∧ dispatch words key = fetchParser.parse words.mem words.saved words.value)
        ∨ ∃ command, dispatch words key = .ok (words.mem, command) := by
  unfold dispatch
  dsimp only
  split
  . exact .inl ⟨false, rfl⟩
  . split
    . exact .inl ⟨true, rfl⟩
    . split
      . split
        . exact .inr (.inr ⟨_, rfl⟩)
        . exact .inr (.inr ⟨_, rfl⟩)
      . split
        . split
          . exact .inr (.inr ⟨_, rfl⟩)
          . exact .inr (.inr ⟨_, rfl⟩)
        . split
          . exact .inr (.inr ⟨_, rfl⟩)
          . split
            . exact .inr (.inr ⟨_, rfl⟩)
            . split
              . next hfetch => exact .inr (.inl ⟨hfetch, rfl⟩)
              . split
                . exact .inr (.inr ⟨_, rfl⟩)
                . exact .inr (.inr ⟨_, rfl⟩)

theorem dispatch_ok {key : Bytes} (hkey : key ≠ ascii "FETCH") (words : Words)
    : ∃ result, dispatch words key = .ok result := by
  obtain ⟨flag, h⟩ | ⟨hfetch, -⟩ | ⟨command, h⟩ := dispatch_cases words key
  . rw [h]
    apply connectOrDisconnectToClient_ok
  . exact absurd hfetch hkey
  . exact ⟨_, h⟩

/--
Without an argument `strlen(peer)` gets a `NULL`.
-/
theorem runLine_fetch_blank {line : Bytes} (hkey : commandKey line = some (ascii "FETCH"))
    (hvalue : commandValue line = []) (buffer : Bytes)
    : runLine buffer line = .error .nullPointer := by
  obtain ⟨words, hwords⟩ := exists_wordsOf line
  rw [runLine_some hwords hkey, dispatch_fetch]
  unfold fetchParser.parse
  dsimp only
  rw [hwords.saved_eq]
  cases hwords.blank hvalue with
  | inl hnull =>
    rw [hnull]
    rfl
  | inr hliteral =>
    rw [hliteral]
    rfl

theorem parse_eq {mem mem' : Bytes} {p : Nat} {saved' : Option Nat} (saved : Option Nat)
    (h : strtokAt (ascii " ") mem (some p) = { token := some p, saved := saved', mem := mem' })
    : fetchParser.parse mem saved (some (.inBuffer p))
        =
      if mem'.length ≤ p + (strAt mem' p).length + 1 then
        .error .outOfBounds
      else
        fetchParser.arguments mem' (p + (strAt mem' p).length + 1) (strtok (ascii ":") (strAt mem' p)).1
          (strtok [] (strtok (ascii ":") (strAt mem' p)).2).1 := by
  unfold fetchParser.parse fetchParser.resumePtr strtokPtr
  dsimp only
  rw [h]
  dsimp only [deref_some, bind, Except.bind]
  by_cases hle : mem'.length ≤ p + (strAt mem' p).length + 1
  . rw [if_pos hle, if_pos hle]
    rfl
  . rw [if_neg hle, if_neg hle]
    rfl

theorem WordsOf.valueAt_lt {line : Bytes} {words : Words} (hwords : WordsOf line words)
    (hvalue : commandValue line ≠ [])
    : valueAt line < words.mem.length := by
  apply Nat.lt_of_not_le
  intro hle
  have hstr := (hwords.value_eq hvalue).2
  have hlen := length_strAt_le words.mem (valueAt line)
  have := List.length_pos_iff.mpr hvalue
  rw [hstr] at hlen
  omega

theorem WordsOf.fetchOf {line mem : Bytes} {words : Words} {saved : Option Nat} (hwords : WordsOf line words)
    (hkey : commandKey line = some (ascii "FETCH")) (hvalue : commandValue line ≠ [])
    (hpeer : strtokAt (ascii " ") words.mem (some (valueAt line)) = { token := some (valueAt line), saved, mem })
    (hstr : strAt mem (valueAt line) = peerWord line)
    (hle : (peerWord line).length ≤ (commandValue line).length)
    (hresume : resumeAt line ≤ line.length → strAt mem (resumeAt line) = resumeStr line)
    : FetchOf line mem := by
  obtain ⟨hptr, hvalueStr⟩ := hwords.value_eq hvalue
  have hlen := hwords.length_eq
  have hlt := hwords.valueAt_lt hvalue
  have hend := hwords.terminated.length_strAt_lt hlt
  have hstart : ∀ p, some (valueAt line) = some p → p < words.mem.length := by
    rintro p ⟨⟩
    exact hlt
  obtain ⟨hterm, hmemLen, -, -⟩ := @strtokAt_terminated (ascii " ") _ _ hwords.terminated hstart
  have happend := @strtokAt_append (ascii " ") _ _ hwords.terminated hstart
  rw [hpeer] at hterm hmemLen happend
  rw [hvalueStr] at hend
  dsimp only at hterm hmemLen happend
  refine ⟨?_, hterm, by omega, ?_, hresume⟩
  . intro buffer
    have hmemLt : valueAt line < mem.length := by omega
    have hbehind := hterm.strAt_append hmemLt (buffer.drop (line.length + 1))
    rw [runLine_some hwords hkey, dispatch_fetch, hwords.saved_eq, hptr, parse_eq none (happend _), hbehind, hstr,
      List.length_append, List.length_drop, hmemLen, hlen, ← resumeAt, (fetchParser.arguments_eq _ _ _ _).1,
      fetchIp, fetchPort]
  . rw [resumeAt]
    omega

theorem exists_fetchOf {line : Bytes} (hkey : commandKey line = some (ascii "FETCH"))
    (hvalue : commandValue line ≠ [])
    : ∃ mem, FetchOf line mem := by
  obtain ⟨words, hwords⟩ := exists_wordsOf line
  obtain ⟨-, hstr⟩ := hwords.value_eq hvalue
  have hbehind := hwords.behind (resumeAt line) hvalue
  have hplain (word : Bytes) (hspace : 32 ∉ word) : ∀ c ∈ word, c ∉ ascii " " := by
    intro c hc hdelim
    rw [mem_ascii_space.mp hdelim] at hc
    exact hspace hc
  cases peerWord_cases hvalue with
  | inl hsingle =>
    obtain ⟨hspace, hword⟩ := hsingle
    have hsplit : strAt words.mem (valueAt line) = [] ++ commandValue line := hstr
    have hpeer := strtokAt_last hsplit (by simp) (hplain _ hspace) hvalue
    refine ⟨words.mem, hwords.fetchOf hkey hvalue hpeer (by rw [hstr, hword]) (by rw [hword]) ?_⟩
    intro _
    rw [resumeStr, if_neg hspace]
    apply hbehind
    rw [resumeAt, hword]
    omega
  | inr hmore =>
    obtain ⟨rest, heq, hspace, hwordNe, hrest⟩ := hmore
    have hspaceMem : 32 ∈ commandValue line := by simp [heq]
    have hlen := congrArg List.length heq
    rw [List.length_append, List.length_cons] at hlen
    have hsplit : strAt words.mem (valueAt line) = [] ++ (peerWord line ++ 32 :: rest) := hstr.trans heq
    have hpeer := strtokAt_more hsplit (by simp) (hplain _ hspace) hwordNe (mem_ascii_space.mpr rfl)
    rw [List.length_nil, Nat.add_zero] at hpeer
    refine ⟨_, hwords.fetchOf hkey hvalue hpeer ?_ (by omega) ?_⟩
    . rw [strAt_set_add, hstr, heq, List.take_left]
    . intro _
      rw [resumeStr, if_pos hspaceMem, hrest, resumeAt, strAt_set_of_lt (by omega), Nat.add_assoc,
        strAt_add (by rw [hstr]; omega), hstr, heq, ← List.drop_drop, List.drop_left]
      rfl

end commandLoop

def Bare (line : Bytes) : Prop :=
  0 ∉ line ∧ 32 ∉ commandValue line ∧ ∃ c, line.getLast? = some c ∧ isspace c = false

theorem resumeAt_eq_iff {line : Bytes} (hvalue : commandValue line ≠ [])
    : resumeAt line = line.length + 1 ↔ Bare line := by
  have hsuffix : commandRest line <:+ cstr line := strtok_suffix _ _
  have hzero : ∀ c ∈ commandRest line, c ≠ 0 := by
    intro c hc
    exact zero_not_mem_cstr line c (hsuffix.subset hc)
  have hrest := hsuffix.length_le
  have hcstr : (cstr line).length ≤ line.length := (List.takeWhile_prefix _).length_le
  have htrim := length_takeWhile_trim_le (commandRest line)
  have htrimIff := length_trim_eq_iff hzero hvalue
  have hcstrIff := length_cstr_eq_iff line
  have hpeer : (peerWord line).length ≤ (commandValue line).length
      ∧ ((peerWord line).length = (commandValue line).length ↔ 32 ∉ commandValue line) := by
    cases peerWord_cases hvalue with
    | inl hsingle =>
      obtain ⟨hspace, hword⟩ := hsingle
      rw [hword]
      exact ⟨Nat.le_refl _, fun _ => hspace, fun _ => rfl⟩
    | inr hmore =>
      obtain ⟨rest, heq, -, -, -⟩ := hmore
      have hlen := congrArg List.length heq
      rw [List.length_append, List.length_cons] at hlen
      refine ⟨by omega, fun h => by omega, fun h => ?_⟩
      exact absurd (by rw [heq]; simp) h
  have hlast (hbare : 0 ∉ line) : (commandRest line).getLast? = line.getLast? := by
    obtain ⟨front, hfront⟩ := hsuffix
    have heq : cstr line = line := by
      rw [cstr_of_forall]
      rintro c hc rfl
      exact hbare hc
    have hne : commandRest line ≠ [] := by
      intro hnil
      exact hvalue (by rw [commandValue, hnil]; rfl)
    have hlast := congrArg List.getLast? (hfront.trans heq)
    rw [List.getLast?_append] at hlast
    rw [List.getLast?_eq_some_getLast hne] at hlast ⊢
    exact hlast
  unfold Bare
  rw [resumeAt, valueAt, restAt]
  rw [← commandValue] at htrim htrimIff
  constructor
  . intro h
    have hbare : 0 ∉ line := hcstrIff.mp (by omega)
    rw [hlast hbare] at htrimIff
    exact ⟨hbare, hpeer.2.mp (by omega), htrimIff.mp (by omega)⟩
  . rintro ⟨hbare, hspace, hend⟩
    rw [hlast hbare] at htrimIff
    have hcstrEq := hcstrIff.mpr hbare
    have hpeerEq := hpeer.2.mpr hspace
    have htrimEq := htrimIff.mpr hend
    omega

end Btide
