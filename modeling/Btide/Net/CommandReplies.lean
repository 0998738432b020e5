import Btide.Net.CommandLines
import Btide.Net.SwarmRuns

/-!
This module contains what earlier lines can change about the answer to a `FETCH`: the arguments that
`fetch_parser` takes out of the buffer and the bytes that `send_req` copies.
-/

open Bytes CLib

namespace Btide

def identWord (line : Bytes) : Option Bytes :=
  (strtok (ascii " ") (resumeStr line)).1

def chunkHashStr (line : Bytes) : Bytes :=
  (strtok (ascii " ") (resumeStr line)).2

def chunkHashWord (line : Bytes) : Option Bytes :=
  (strtok (ascii " ") (chunkHashStr line)).1

def offsetWord (line : Bytes) : Option Bytes :=
  (strtok (ascii " ") (strtok (ascii " ") (chunkHashStr line)).2).1

def identAt (line : Bytes) : Nat :=
  resumeAt line + ((resumeStr line).takeWhile ((ascii " ").contains ·)).length

def chunkHashAt (line : Bytes) : Nat :=
  resumeAt line + ((resumeStr line).length - (chunkHashStr line).length)
    + ((chunkHashStr line).takeWhile ((ascii " ").contains ·)).length

def fetchCommand (line : Bytes) : Command :=
  fetchParser.argumentsOf (fetchIp line) (fetchPort line) (resumeAt line) (resumeStr line)

def Sends (tables : Tables) (line : Bytes) : Prop :=
  ∃ ip port ident chunkHash req,
    fetchIp line = some ip
      ∧ fetchPort line = some port
      ∧ identWord line = some ident
      ∧ chunkHashWord line = some chunkHash
      ∧ isAnInt (some port) = .ok true
      ∧ fetchParser.request tables ip port ident chunkHash (offsetWord line) = .ok (.inr req)

/--
`fetch_parser` goes on behind the terminator of the line, and two more words fit in there.
-/
def TakesStale (line : Bytes) : Prop :=
  Bare line ∧ (fetchIp line).isSome ∧ (fetchPort line).isSome ∧ line.length + 4 < MAX_COMMAND_SIZE

/--
`send_req` copies more bytes than the line has behind the identifier or behind the hash.
-/
def SendsStale (tables : Tables) (line : Bytes) : Prop :=
  Sends tables line
    ∧ line.length + 2 < MAX_COMMAND_SIZE
    ∧ (line.length + 1 < identAt line + IDENT_SIZE ∨ line.length + 1 < chunkHashAt line + CHUNK_HASH_SIZE)

namespace commandLoop

def SameAnswer (tables : Tables) (behind : Bytes) (earlier : List Bytes) (line : Bytes) : Prop :=
  ∀ more more' buffer buffer',
    Leaves (earlier ++ more) buffer
      → Leaves (earlier ++ more') buffer'
      → answer tables behind buffer line = answer tables behind buffer' line

end commandLoop

theorem sendReq_eq_iff {req : ReqArgs} {ident ident' chunkHash chunkHash' : Bytes}
    (hident : IDENT_SIZE ≤ ident.length) (hident' : IDENT_SIZE ≤ ident'.length)
    (hhash : CHUNK_HASH_SIZE ≤ chunkHash.length) (hhash' : CHUNK_HASH_SIZE ≤ chunkHash'.length)
    : ∃ pkt pkt',
        sendReq { req with ident, chunkHash } = .ok pkt
          ∧ sendReq { req with ident := ident', chunkHash := chunkHash' } = .ok pkt'
          ∧ (pkt = pkt'
            ↔ ident.take IDENT_SIZE = ident'.take IDENT_SIZE
              ∧ chunkHash.take CHUNK_HASH_SIZE = chunkHash'.take CHUNK_HASH_SIZE) := by
  obtain ⟨pl, hsend, hval⟩ := @sendReq_payload { req with ident, chunkHash } hhash hident
  obtain ⟨pl', hsend', hval'⟩ :=
    @sendReq_payload { req with ident := ident', chunkHash := chunkHash' } hhash' hident'
  refine ⟨_, _, hsend, hsend', ?_⟩
  rw [BtidePacket.mk.injEq]
  constructor
  . rintro ⟨-, -, hpl⟩
    rw [hpl, hval'] at hval
    have h := List.append_cancel_left (List.append_cancel_left hval)
    have hlen : (chunkHash.take CHUNK_HASH_SIZE).length = (chunkHash'.take CHUNK_HASH_SIZE).length := by
      rw [List.length_take, List.length_take]
      omega
    obtain ⟨hhashEq, hrest⟩ := List.append_inj h hlen.symm
    exact ⟨(List.append_cancel_right hrest).symm, hhashEq.symm⟩
  . rintro ⟨hidentEq, hhashEq⟩
    refine ⟨rfl, rfl, Subtype.ext ?_⟩
    rw [hval, hval', hidentEq, hhashEq]

namespace fetchParser

theorem argumentsOf_missing_iff {ip port : Option Bytes} {resume : Nat} {s : Bytes}
    : argumentsOf ip port resume s = .missingArguments
        ↔ ip = none
          ∨ port = none
          ∨ (strtok (ascii " ") s).1 = none
          ∨ (strtok (ascii " ") (strtok (ascii " ") s).2).1 = none := by
  unfold argumentsOf
  dsimp only
  cases ip with
  | none => simp
  | some ip =>
    cases port with
    | none => simp
    | some port =>
      cases (strtok (ascii " ") s).1 with
      | none => simp
      | some ident =>
        cases (strtok (ascii " ") (strtok (ascii " ") s).2).1 with
        | none => simp
        | some chunkHash =>
          dsimp only
          split
          . simp
          . simp

theorem argumentsOf_fetch {ip port : Option Bytes} {resume : Nat} {s : Bytes} {args : FetchArgs}
    (h : argumentsOf ip port resume s = .fetch args)
    : ip = some args.ip
        ∧ port = some args.port
        ∧ isAnInt (some args.port) = .ok true
        ∧ args.ident = resume + (s.takeWhile ((ascii " ").contains ·)).length
        ∧ args.chunkHash
            = resume + (s.length - (strtok (ascii " ") s).2.length)
              + ((strtok (ascii " ") s).2.takeWhile ((ascii " ").contains ·)).length
        ∧ args.offset = (strtok (ascii " ") (strtok (ascii " ") (strtok (ascii " ") s).2).2).1 := by
  unfold argumentsOf at h
  dsimp only at h
  split at h
  . split at h
    . next hport =>
      cases h
      exact ⟨rfl, rfl, hport, rfl, rfl, rfl⟩
    . cases h
  . cases h

theorem argumentsOf_of_words {ip port ident chunkHash s : Bytes} {resume : Nat}
    (hident : (strtok (ascii " ") s).1 = some ident)
    (hhash : (strtok (ascii " ") (strtok (ascii " ") s).2).1 = some chunkHash)
    (hport : isAnInt (some port) = .ok true)
    : ∃ args, argumentsOf (some ip) (some port) resume s = .fetch args := by
  unfold argumentsOf
  dsimp only
  rw [hident, hhash]
  dsimp only
  rw [if_pos hport]
  exact ⟨_, rfl⟩

theorem cut_append {mem : Bytes} {resume : Nat} (h : Terminated mem) (hresume : resume < mem.length)
    (rest : Bytes)
    : cut (mem ++ rest) resume = cut mem resume ++ rest := by
  have hstart : ∀ p, some resume = some p → p < mem.length := by
    rintro p ⟨⟩
    exact hresume
  obtain ⟨hident, hidentLen, -, hidentSaved⟩ := @strtokAt_terminated (ascii " ") mem (some resume) h hstart
  have hidentAppend := @strtokAt_append (ascii " ") mem (some resume) h hstart rest
  unfold cut
  dsimp only
  rw [hidentAppend]
  generalize strtokAt (ascii " ") mem (some resume) = ident at *
  rw [← hidentLen] at hidentSaved
  obtain ⟨hhash, hhashLen, -, hhashSaved⟩ :=
    @strtokAt_terminated (ascii " ") ident.mem ident.saved hident hidentSaved
  have hhashAppend := @strtokAt_append (ascii " ") ident.mem ident.saved hident hidentSaved rest
  dsimp only
  rw [hhashAppend]
  generalize strtokAt (ascii " ") ident.mem ident.saved = chunkHash at *
  rw [← hhashLen] at hhashSaved
  rw [@strtokAt_append (ascii " ") chunkHash.mem chunkHash.saved hhash hhashSaved rest]

end fetchParser

namespace commandLoop

structure Within (line : Bytes) (mem : Bytes) : Prop where
  run (buffer : Bytes) : runLine buffer line
      = .ok (mem ++ buffer.drop (line.length + 1), fetchCommand line)
  terminated : Terminated mem
  length_eq : mem.length = line.length + 1
  words (args : FetchArgs) : fetchCommand line = .fetch args
    → some (strAt mem args.ident) = identWord line ∧ some (strAt mem args.chunkHash) = chunkHashWord line

theorem exists_within {line : Bytes} (hkey : commandKey line = some (ascii "FETCH"))
    (hvalue : commandValue line ≠ []) (hbare : ¬ Bare line)
    : ∃ mem, Within line mem := by
  obtain ⟨mem, hmem⟩ := exists_fetchOf hkey hvalue
  have hresume := hmem.resume_le
  have hlen := hmem.length_eq
  have hle : resumeAt line ≤ line.length := by
    rw [← resumeAt_eq_iff hvalue] at hbare
    omega
  have hlt : resumeAt line < mem.length := by omega
  have hkept := kept_cut mem (resumeAt line)
  have harguments := fetchParser.arguments_eq mem (resumeAt line) (fetchIp line) (fetchPort line)
  rw [hmem.resume_str hle] at harguments
  refine ⟨fetchParser.cut mem (resumeAt line), ?_, hkept.terminated hmem.terminated,
    hkept.length_eq.trans hlen, harguments.2⟩
  intro buffer
  rw [hmem.run, if_neg (by omega), fetchParser.cut_append hmem.terminated hlt,
    hmem.terminated.strAt_append hlt, hmem.resume_str hle, fetchCommand]

theorem answer_error {buffer line : Bytes} {e : Fault} (h : runLine buffer line = .error e) (tables : Tables)
    (behind : Bytes)
    : answer tables behind buffer line = .error e := by
  unfold answer
  rw [h]
  rfl

theorem answer_command {buffer line mem : Bytes} {command : Command}
    (h : runLine buffer line = .ok (mem, command)) (hfetch : ∀ args, command ≠ .fetch args) (tables : Tables)
    (behind : Bytes)
    : answer tables behind buffer line = .ok (.command command) := by
  unfold answer
  rw [h]
  cases command with
  | fetch args => exact absurd rfl (hfetch args)
  | _ => rfl

theorem answer_fetch {buffer line mem : Bytes} {args : FetchArgs}
    (h : runLine buffer line = .ok (mem, .fetch args)) (tables : Tables) (behind : Bytes)
    : answer tables behind buffer line = Answer.reply <$> fetchParser.reply tables (mem ++ behind) args := by
  unfold answer
  rw [h]
  dsimp only [bind, Except.bind]
  cases fetchParser.reply tables (mem ++ behind) args with
  | error e => rfl
  | ok reply => rfl

namespace Within

variable {line mem : Bytes} {args : FetchArgs}

theorem lt_of_strAt {mem s : Bytes} {p : Nat} (h : some (strAt mem p) = (strtok (ascii " ") s).1)
    : p < mem.length := by
  apply Nat.lt_of_not_le
  intro hle
  have hne := (strtok_mem h.symm).1
  rw [strAt, List.drop_of_length_le hle] at hne
  exact hne rfl

theorem ident_lt (h : Within line mem)
    (hargs : fetchCommand line = .fetch args)
    : args.ident < mem.length :=
  lt_of_strAt (h.words args hargs).1

theorem chunkHash_lt (h : Within line mem)
    (hargs : fetchCommand line = .fetch args)
    : args.chunkHash < mem.length :=
  lt_of_strAt (h.words args hargs).2

theorem sends_iff (h : Within line mem)
    (hargs : fetchCommand line = .fetch args)
    (tables : Tables)
    : Sends tables line
        ↔ ∃ req,
            fetchParser.request tables args.ip args.port (strAt mem args.ident) (strAt mem args.chunkHash)
              args.offset = .ok (.inr req) := by
  obtain ⟨hip, hport, hint, -, -, hoffset⟩ := fetchParser.argumentsOf_fetch hargs
  obtain ⟨hident, hhash⟩ := h.words args hargs
  rw [hoffset]
  constructor
  . rintro ⟨ip, port, ident, chunkHash, req, hip', hport', hident', hhash', -, hreq⟩
    rw [hip] at hip'
    rw [hport] at hport'
    rw [← hident] at hident'
    rw [← hhash] at hhash'
    cases hip'
    cases hport'
    cases hident'
    cases hhash'
    exact ⟨req, hreq⟩
  . rintro ⟨req, hreq⟩
    exact ⟨_, _, _, _, req, hip, hport, hident.symm, hhash.symm, hint, hreq⟩

theorem reply_eq_iff (h : Within line mem)
    (hargs : fetchCommand line = .fetch args)
    {rest rest' : Bytes} (hrest : IDENT_SIZE ≤ rest.length) (hrest' : IDENT_SIZE ≤ rest'.length)
    (tables : Tables)
    : fetchParser.reply tables (mem ++ rest) args = fetchParser.reply tables (mem ++ rest') args
        ↔ (Sends tables line →
            ((mem ++ rest).drop args.ident).take IDENT_SIZE = ((mem ++ rest').drop args.ident).take IDENT_SIZE
              ∧ ((mem ++ rest).drop args.chunkHash).take CHUNK_HASH_SIZE
                = ((mem ++ rest').drop args.chunkHash).take CHUNK_HASH_SIZE) := by
  have hident := h.ident_lt hargs
  have hhash := h.chunkHash_lt hargs
  rw [h.sends_iff hargs]
  unfold fetchParser.reply
  rw [h.terminated.strAt_append hident, h.terminated.strAt_append hhash, h.terminated.strAt_append hident,
    h.terminated.strAt_append hhash]
  cases fetchParser.request tables args.ip args.port (strAt mem args.ident) (strAt mem args.chunkHash)
    args.offset with
  | error e => simp [bind, Except.bind]
  | ok result =>
    cases result with
    | inl error => simp [bind, Except.bind]
    | inr req =>
      have hlong (k : Nat) (p : Nat) (hp : p < mem.length) (rest : Bytes) (hrest : k ≤ rest.length)
          : k ≤ ((mem ++ rest).drop p).length := by
        rw [List.length_drop, List.length_append]
        omega
      have hsize : CHUNK_HASH_SIZE ≤ IDENT_SIZE := by decide
      obtain ⟨pkt, pkt', hsend, hsend', hiff⟩ := @sendReq_eq_iff req _ _ _ _
        (hlong IDENT_SIZE args.ident hident rest hrest) (hlong IDENT_SIZE args.ident hident rest' hrest')
        (hlong CHUNK_HASH_SIZE args.chunkHash hhash rest (by omega))
        (hlong CHUNK_HASH_SIZE args.chunkHash hhash rest' (by omega))
      dsimp only [bind, Except.bind]
      rw [hsend, hsend', ← hiff]
      simp [pure, Except.pure]

end Within

theorem dispatch_invalid {key : Bytes} {c : UInt8} (h : key.head? = some c) (hc : 90 < c) (words : Words)
    : dispatch words key = .ok (words.mem, .invalid) := by
  have hne (name : Bytes) (d : UInt8) (hname : name.head? = some d) (hd : d ≤ 90) : key ≠ name := by
    rintro rfl
    rw [h] at hname
    cases hname
    rw [UInt8.le_iff_toNat_le] at hd
    rw [UInt8.lt_iff_toNat_lt] at hc
    omega
  unfold dispatch
  dsimp only
  rw [if_neg (hne (ascii "CONNECT") 67 rfl (by decide)), if_neg (hne (ascii "DISCONNECT") 68 rfl (by decide)),
    if_neg (hne (ascii "ADDPACKAGE") 65 rfl (by decide)), if_neg (hne (ascii "REMPACKAGE") 82 rfl (by decide)),
    if_neg (hne (ascii "PACKAGES") 80 rfl (by decide)), if_neg (hne (ascii "PEERS") 80 rfl (by decide)),
    if_neg (hne (ascii "FETCH") 70 rfl (by decide)), if_neg (hne (ascii "QUIT") 81 rfl (by decide))]

theorem leaves_invalid {earlier : List Bytes} {buffer line key : Bytes} {words : Words} {c : UInt8}
    (hleaves : Leaves earlier buffer) (hwords : WordsOf line words) (hlen : line.length + 1 = MAX_COMMAND_SIZE)
    (hline : ∀ c ∈ line, c ≠ newline) (hkey : commandKey line = some key) (hhead : key.head? = some c)
    (hc : 90 < c)
    : Leaves (earlier ++ [line]) words.mem := by
  have hrun := runLine_some hwords hkey buffer
  rw [dispatch_invalid hhead hc, hlen, List.drop_of_length_le (by rw [hleaves.terminated.2]),
    List.append_nil] at hrun
  refine .line hleaves ⟨by omega, ?_, .inr hlen⟩ hrun (by simp)
  intro d hd
  exact hline d (List.dropLast_subset line hd)

theorem trim_solid {s : Bytes} {c d : UInt8} (hhead : s.head? = some c) (hlast : s.getLast? = some d)
    (hc : isspace c = false) (hd : isAnySpace d = false)
    : trim s = s := by
  have hpad := @trim_pad [] s [] (by simp) (by simp) (by
    intro x hx
    rw [hhead] at hx
    cases hx
    exact hc) (by
    intro x hx
    rw [hlast] at hx
    cases hx
    exact hd) (by
    rintro rfl
    cases hhead)
  simpa using hpad

theorem leaves_letter {earlier : List Bytes} {buffer : Bytes} (hleaves : Leaves earlier buffer) {c : UInt8}
    (hc : c = 120 ∨ c = 121)
    : ∃ line buffer',
        Leaves (earlier ++ [line]) buffer' ∧ buffer' = List.replicate (MAX_COMMAND_SIZE - 1) c ++ [0] := by
  have hsolid : isspace c = false ∧ isAnySpace c = false ∧ c ≠ 0 ∧ c ≠ newline ∧ c ∉ ascii " " ∧ 90 < c := by
    cases hc with
    | inl h => rw [h]; decide
    | inr h => rw [h]; decide
  obtain ⟨hspace, hany, hzero, hnl, hdelim, hlt⟩ := hsolid
  have hsize : MAX_COMMAND_SIZE - 1 = 5518 + 1 := rfl
  generalize hline : List.replicate (MAX_COMMAND_SIZE - 1) c = line
  have hmem : ∀ d ∈ line, d = c := by
    intro d hd
    rw [← hline] at hd
    exact List.eq_of_mem_replicate hd
  have hlen : line.length + 1 = MAX_COMMAND_SIZE := by
    rw [← hline, List.length_replicate]
    rfl
  have hhead : line.head? = some c := by
    rw [← hline, hsize]
    rfl
  have hne : line ≠ [] := by
    rintro rfl
    cases hhead
  have hlast : line.getLast? = some c := by
    rw [List.getLast?_eq_some_getLast hne, hmem _ (List.getLast_mem hne)]
  have hkey : commandKey line = some line := by
    rw [commandKey, cstr_of_forall (fun d hd => by rw [hmem d hd]; exact hzero),
      strtok_last hne (fun d hd => by rw [hmem d hd]; exact hdelim), Option.map_some,
      trim_solid hhead hlast hspace hany]
  obtain ⟨words, hwords⟩ := exists_wordsOf line
  have hleaves' := leaves_invalid hleaves hwords hlen (fun d hd => by rw [hmem d hd]; exact hnl) hkey hhead hlt
  refine ⟨line, words.mem, hleaves', ?_⟩
  -- the key is the whole line, so it starts at the start of the buffer
  have hkeyEq := hwords.key_eq
  rw [hkey, Option.map_eq_some_iff] at hkeyEq
  obtain ⟨ptr, hptr, hstr⟩ := hkeyEq
  have hwordsLen := hwords.length_eq
  cases ptr with
  | literal => exact absurd hstr.symm hne
  | inBuffer p =>
    have hstr : strAt words.mem p = line := hstr
    have hp := hwords.terminated.length_strAt_lt (hwords.key_lt p hptr)
    rw [hstr] at hp
    have hp0 : p = 0 := by omega
    rw [hp0] at hstr
    have hprefix : line <+: words.mem := by
      rw [← hstr]
      exact List.takeWhile_prefix _
    obtain ⟨tail, htail⟩ := hprefix
    have htailLen := congrArg List.length htail
    rw [List.length_append] at htailLen
    obtain ⟨last, hlast⟩ := List.length_eq_one_iff.mp (show tail.length = 1 by omega)
    have hterm := hwords.terminated
    rw [← htail, hlast] at hterm
    have hzeroLast : last = 0 := by simpa [Terminated] using hterm
    rw [← htail, hlast, hzeroLast]

theorem strtok_letter (rest : Bytes) : strtok (ascii " ") (120 :: 32 :: rest) = (some [120], rest) := by
  have hletter : ∀ c ∈ ([120] : Bytes), c ∉ ascii " " := by
    intro c hc
    rw [List.mem_singleton.mp hc]
    decide
  exact @strtok_append (ascii " ") [120] rest 32 (by simp) hletter (mem_ascii_space.mpr rfl)

theorem leaves_words {earlier : List Bytes} {buffer : Bytes} (hleaves : Leaves earlier buffer) {n : Nat}
    (hn : 0 < n) (hfit : n + 4 < MAX_COMMAND_SIZE)
    : ∃ line buffer',
        Leaves (earlier ++ [line]) buffer'
          ∧ strAt buffer' (n + 1) = 120 :: 32 :: List.replicate (MAX_COMMAND_SIZE - 4 - n) 120 := by
  generalize hvalue : (List.replicate n 120 ++ 32 :: List.replicate (MAX_COMMAND_SIZE - 4 - n) 120 : Bytes)
    = value
  have hmem : ∀ d ∈ value, d = 120 ∨ d = 32 := by
    intro d hd
    rw [← hvalue, List.mem_append, List.mem_cons] at hd
    obtain hd | hd | hd := hd
    . exact .inl (List.eq_of_mem_replicate hd)
    . exact .inr hd
    . exact .inl (List.eq_of_mem_replicate hd)
  have hvalueLen : value.length + 3 = MAX_COMMAND_SIZE := by
    rw [← hvalue, List.length_append, List.length_cons, List.length_replicate, List.length_replicate]
    omega
  have hhead : value.head? = some 120 := by
    rw [← hvalue]
    cases n with
    | zero => omega
    | succ n => rfl
  have hlast : value.getLast? = some 120 := by
    obtain ⟨k, hk⟩ : ∃ k, MAX_COMMAND_SIZE - 4 - n = k + 1 := ⟨MAX_COMMAND_SIZE - 5 - n, by omega⟩
    rw [← hvalue, hk, List.replicate_succ', ← List.cons_append, ← List.append_assoc, List.getLast?_concat]
  have htrim : trim value = value := trim_solid hhead hlast (by decide) (by decide)
  generalize hline : ([120, 32] ++ value : Bytes) = line
  have hlen : line.length + 1 = MAX_COMMAND_SIZE := by
    rw [← hline, List.length_append, show ([120, 32] : Bytes).length = 2 from rfl]
    omega
  have hlineMem : ∀ d ∈ line, d = 120 ∨ d = 32 := by
    intro d hd
    rw [← hline, List.mem_append] at hd
    cases hd with
    | inl hd => simpa using hd
    | inr hd => exact hmem d hd
  have hplain : ∀ d ∈ line, d ≠ 0 ∧ d ≠ newline := by
    intro d hd
    cases hlineMem d hd with
    | inl h => rw [h]; decide
    | inr h => rw [h]; decide
  have hcstr : cstr line = line := cstr_of_forall fun d hd => (hplain d hd).1
  have htok : strtok (ascii " ") line = (some [120], value) := by
    rw [← hline]
    exact strtok_letter value
  have hkey : commandKey line = some [120] := by
    rw [commandKey, hcstr, htok]
    rfl
  have hrest : commandRest line = value := by rw [commandRest, hcstr, htok]
  have hvalueEq : commandValue line = value := by rw [commandValue, hrest, htrim]
  have hvalueAt : valueAt line = 2 := by
    have hfront : value.takeWhile isspace = [] := by
      cases value with
      | nil => rfl
      | cons d value =>
        cases hhead
        rfl
    rw [valueAt, restAt, hrest, hcstr, hfront, ← hline, List.length_append, Nat.add_sub_cancel]
    rfl
  obtain ⟨words, hwords⟩ := exists_wordsOf line
  have hleaves' := leaves_invalid hleaves hwords hlen (fun d hd => (hplain d hd).2) hkey rfl (by decide)
  refine ⟨line, words.mem, hleaves', ?_⟩
  obtain ⟨-, hstr⟩ := hwords.value_eq (by
    rw [hvalueEq]
    rintro rfl
    cases hhead)
  rw [hvalueAt, hvalueEq] at hstr
  obtain ⟨k, rfl⟩ : ∃ k, n = k + 1 := ⟨n - 1, by omega⟩
  rw [show k + 1 + 1 = 2 + k by omega, strAt_add (by rw [hstr]; omega), hstr, ← hvalue, List.replicate_succ',
    List.append_assoc, List.drop_left' List.length_replicate]
  rfl

theorem runLine_bare {buffer line : Bytes} (hkey : commandKey line = some (ascii "FETCH"))
    (hvalue : commandValue line ≠ []) (hbare : Bare line) (hbuffer : buffer.length = MAX_COMMAND_SIZE)
    (hline : line.length + 1 < MAX_COMMAND_SIZE)
    : ∃ mem,
        runLine buffer line
          = .ok (mem, fetchParser.argumentsOf (fetchIp line) (fetchPort line) (line.length + 1)
              (strAt buffer (line.length + 1))) := by
  obtain ⟨mem, hmem⟩ := exists_fetchOf hkey hvalue
  have hrun := hmem.run buffer
  have hresume := (resumeAt_eq_iff hvalue).mpr hbare
  have hlen := hmem.length_eq
  have hstr : strAt (mem ++ buffer.drop (line.length + 1)) (line.length + 1)
      = strAt buffer (line.length + 1) := by
    rw [← hlen, strAt, List.drop_left]
    rfl
  rw [hresume, if_neg (by omega), hstr] at hrun
  exact ⟨_, hrun⟩

theorem strtok_two {delims s word word' : Bytes} (h : (strtok delims s).1 = some word)
    (h' : (strtok delims (strtok delims s).2).1 = some word')
    : 3 ≤ s.length := by
  cases split delims s with
  | blank hblank =>
    rw [strtok_blank hblank] at h
    cases h
  | last skip word hs hskip hword hne =>
    rw [hs, strtok_skip_last hskip hword hne] at h'
    cases h'
  | more skip word rest d hs hskip hword hne hd =>
    rw [hs, strtok_skip_append hskip hword hne hd] at h'
    have hpos := List.length_pos_iff.mpr hne
    have hrest : 0 < rest.length := by
      apply List.length_pos_iff.mpr
      rintro rfl
      cases h'
    rw [hs, List.length_append, List.length_append, List.length_cons]
    omega

theorem answer_bare {buffer line : Bytes} (hkey : commandKey line = some (ascii "FETCH"))
    (hvalue : commandValue line ≠ []) (hbare : Bare line) (hstale : ¬ TakesStale line)
    (hbuffer : buffer.length = MAX_COMMAND_SIZE) (hterm : Terminated buffer)
    (hline : line.length < MAX_COMMAND_SIZE) (tables : Tables) (behind : Bytes)
    : answer tables behind buffer line
        = if line.length + 1 = MAX_COMMAND_SIZE then .error .outOfBounds
          else .ok (.command .missingArguments) := by
  split
  . next hfull =>
    obtain ⟨mem, hmem⟩ := exists_fetchOf hkey hvalue
    have hrun := hmem.run buffer
    have hresume := (resumeAt_eq_iff hvalue).mpr hbare
    rw [if_pos (by omega)] at hrun
    exact answer_error hrun tables behind
  . next hroom =>
    obtain ⟨mem, hrun⟩ := runLine_bare hkey hvalue hbare hbuffer (by omega)
    have hmissing : fetchParser.argumentsOf (fetchIp line) (fetchPort line) (line.length + 1)
        (strAt buffer (line.length + 1)) = .missingArguments := by
      rw [fetchParser.argumentsOf_missing_iff]
      by_contra hne
      simp only [not_or] at hne
      obtain ⟨hip, hport, hident, hhash⟩ := hne
      obtain ⟨ident, hident⟩ := Option.ne_none_iff_exists'.mp hident
      obtain ⟨chunkHash, hhash⟩ := Option.ne_none_iff_exists'.mp hhash
      have htwo := strtok_two hident hhash
      have hlt := hterm.length_strAt_lt (show line.length + 1 < buffer.length by omega)
      apply hstale
      exact ⟨hbare, Option.isSome_iff_ne_none.mpr hip, Option.isSome_iff_ne_none.mpr hport, by omega⟩
    rw [hmissing] at hrun
    exact answer_command hrun (by simp) tables behind

theorem answer_missing_iff {buffer line mem : Bytes} {command : Command}
    (h : runLine buffer line = .ok (mem, command)) (tables : Tables) (behind : Bytes)
    : answer tables behind buffer line = .ok (.command .missingArguments) ↔ command = .missingArguments := by
  by_cases hfetch : ∃ args, command = .fetch args
  . obtain ⟨args, rfl⟩ := hfetch
    rw [answer_fetch h]
    cases fetchParser.reply tables (mem ++ behind) args with
    | error e => simp
    | ok reply => simp
  . rw [answer_command h (fun args hargs => hfetch ⟨args, hargs⟩)]
    simp

theorem value_ne_nil {line : Bytes} (h : (fetchIp line).isSome) : commandValue line ≠ [] := by
  intro hnil
  have hpeer : peerWord line = [] := by
    rw [peerWord, hnil]
    rfl
  rw [fetchIp, hpeer] at h
  cases h

theorem strtok_letters {k : Nat} (hk : 0 < k)
    : strtok (ascii " ") (List.replicate k 120) = (some (List.replicate k 120), []) := by
  apply strtok_last
  . intro hnil
    rw [List.replicate_eq_nil_iff] at hnil
    omega
  . intro d hd
    rw [List.eq_of_mem_replicate hd]
    decide

theorem differs_of_takesStale {earlier : List Bytes} {buffer line : Bytes} (hleaves : Leaves earlier buffer)
    (hkey : commandKey line = some (ascii "FETCH")) (h : TakesStale line) (tables : Tables) (behind : Bytes)
    : ¬ SameAnswer tables behind earlier line := by
  obtain ⟨hbare, hip, hport, hfit⟩ := h
  have hvalue := value_ne_nil hip
  have hpos : 0 < line.length := by
    apply List.length_pos_iff.mpr
    rintro rfl
    cases hkey
  obtain ⟨junk, one, hone, honeEq⟩ := leaves_letter hleaves (.inl rfl)
  obtain ⟨junk', two, htwo, htwoStr⟩ := leaves_words hleaves hpos hfit
  intro hsame
  have hanswer := hsame _ _ _ _ hone htwo
  obtain ⟨mem, hrun⟩ := runLine_bare hkey hvalue hbare hone.terminated.2 (by omega)
  obtain ⟨mem', hrun'⟩ := runLine_bare hkey hvalue hbare htwo.terminated.2 (by omega)
  have honeStr : strAt one (line.length + 1) = List.replicate (MAX_COMMAND_SIZE - 2 - line.length) 120 := by
    rw [honeEq, strAt, List.drop_append_of_le_length (by rw [List.length_replicate]; omega), List.drop_replicate,
      cstr_append_of_forall]
    . simp [cstr, show MAX_COMMAND_SIZE - 1 - (line.length + 1) = MAX_COMMAND_SIZE - 2 - line.length by omega]
    . intro d hd
      rw [List.eq_of_mem_replicate hd]
      decide
  -- one word is behind the line in the first buffer, two are in the second
  have hone := strtok_letters (show 0 < MAX_COMMAND_SIZE - 2 - line.length by omega)
  have htwo := strtok_letter (List.replicate (MAX_COMMAND_SIZE - 4 - line.length) 120)
  have hlast := strtok_letters (show 0 < MAX_COMMAND_SIZE - 4 - line.length by omega)
  have hmissing := (answer_missing_iff hrun tables behind).mpr (by
    rw [fetchParser.argumentsOf_missing_iff, honeStr, hone]
    exact .inr (.inr (.inr rfl)))
  rw [hanswer, answer_missing_iff hrun', fetchParser.argumentsOf_missing_iff, htwoStr, htwo, hlast] at hmissing
  simp only [reduceCtorEq, or_false] at hmissing
  cases hmissing with
  | inl hnone =>
    rw [hnone] at hip
    cases hip
  | inr hnone =>
    rw [hnone] at hport
    cases hport

theorem take_drop_append {mem : Bytes} {p k : Nat} (h : p + k ≤ mem.length) (rest : Bytes)
    : ((mem ++ rest).drop p).take k = (mem.drop p).take k := by
  rw [List.drop_append_of_le_length (by omega), List.take_append_of_le_length]
  rw [List.length_drop]
  omega

theorem take_drop_ne {mem rest rest' : Bytes} {p k : Nat} {c c' : UInt8} (hp : p ≤ mem.length)
    (hk : mem.length < p + k) (hrest : rest.head? = some c) (hrest' : rest'.head? = some c') (hc : c ≠ c')
    : ((mem ++ rest).drop p).take k ≠ ((mem ++ rest').drop p).take k := by
  have hget (rest : Bytes) : (((mem ++ rest).drop p).take k)[mem.length - p]? = rest.head? := by
    rw [List.getElem?_take, if_pos (by omega), List.getElem?_drop, List.getElem?_append_right (by omega),
      List.head?_eq_getElem?]
    congr 1
    omega
  intro heq
  have hget' := hget rest
  rw [heq, hget, hrest, hrest'] at hget'
  cases hget'
  exact hc rfl

namespace Within

theorem answer_eq {line mem : Bytes} (h : Within line mem) {buffer buffer' : Bytes}
    (hbuffer : buffer.length = MAX_COMMAND_SIZE) (hterm : Terminated buffer)
    (hbuffer' : buffer'.length = MAX_COMMAND_SIZE) (hterm' : Terminated buffer')
    (hline : line.length < MAX_COMMAND_SIZE) {tables : Tables} (hstale : ¬ SendsStale tables line)
    {behind : Bytes} (hbehind : IDENT_SIZE ≤ behind.length)
    : answer tables behind buffer line = answer tables behind buffer' line := by
  have hrun := h.run buffer
  have hrun' := h.run buffer'
  cases hcommand : fetchCommand line with
  | fetch args =>
    rw [hcommand] at hrun hrun'
    rw [answer_fetch hrun, answer_fetch hrun', List.append_assoc, List.append_assoc]
    congr 1
    rw [h.reply_eq_iff hcommand (by rw [List.length_append]; omega) (by rw [List.length_append]; omega)]
    intro hsends
    by_cases hroom : line.length + 2 < MAX_COMMAND_SIZE
    . obtain ⟨-, -, -, hident, hhash, -⟩ := fetchParser.argumentsOf_fetch hcommand
      rw [← identAt] at hident
      rw [← chunkHashStr, ← chunkHashAt] at hhash
      have hlen := h.length_eq
      have hwithin : ¬ (line.length + 1 < identAt line + IDENT_SIZE
          ∨ line.length + 1 < chunkHashAt line + CHUNK_HASH_SIZE) :=
        fun hpast => hstale ⟨hsends, hroom, hpast⟩
      rw [not_or] at hwithin
      constructor
      . rw [take_drop_append (by omega), take_drop_append (by omega)]
      . rw [take_drop_append (by omega), take_drop_append (by omega)]
    . have hdrop : buffer.drop (line.length + 1) = buffer'.drop (line.length + 1) :=
        hterm.drop_eq hterm' (by omega) (by omega)
      rw [hdrop]
      exact ⟨rfl, rfl⟩
  | _ =>
    rw [hcommand] at hrun hrun'
    rw [answer_command hrun (by simp), answer_command hrun' (by simp)]

end Within

theorem reply_injective {x y : Except Fault Reply} (h : Answer.reply <$> x = Answer.reply <$> y) : x = y := by
  cases x with
  | error e =>
    cases y with
    | error e' =>
      cases h
      rfl
    | ok reply => cases h
  | ok reply =>
    cases y with
    | error e => cases h
    | ok reply' =>
      cases h
      rfl

theorem differs_of_sendsStale {earlier : List Bytes} {buffer line : Bytes} (hleaves : Leaves earlier buffer)
    (hkey : commandKey line = some (ascii "FETCH")) {tables : Tables} (h : SendsStale tables line)
    {behind : Bytes} (hbehind : IDENT_SIZE ≤ behind.length)
    : ¬ SameAnswer tables behind earlier line := by
  obtain ⟨hsends, hroom, hpast⟩ := h
  obtain ⟨ip, port, ident, chunkHash, req, hip, hport, hident, hhash, hint, hreq⟩ := id hsends
  have hvalue := value_ne_nil (by rw [hip]; rfl)
  have hbare : ¬ Bare line := by
    intro hbare
    -- behind a bare address the line itself has no identifier
    have hresume := (resumeAt_eq_iff hvalue).mpr hbare
    rw [identWord, resumeStr, if_neg hbare.2.1, hresume, strAt, List.drop_of_length_le (by simp)] at hident
    cases hident
  obtain ⟨mem, hmem⟩ := exists_within hkey hvalue hbare
  have hlen := hmem.length_eq
  have hargs := @fetchParser.argumentsOf_of_words ip port _ _ _ (resumeAt line) hident hhash hint
  rw [← hip, ← hport, ← fetchCommand] at hargs
  obtain ⟨args, hargs⟩ := hargs
  obtain ⟨-, -, -, hidentAt, hhashAt, -⟩ := fetchParser.argumentsOf_fetch hargs
  rw [← identAt] at hidentAt
  rw [← chunkHashStr, ← chunkHashAt] at hhashAt
  have hidentLt := hmem.ident_lt hargs
  have hhashLt := hmem.chunkHash_lt hargs
  obtain ⟨junk, one, hone, honeEq⟩ := leaves_letter hleaves (.inl rfl)
  obtain ⟨junk', two, htwo, htwoEq⟩ := leaves_letter hleaves (.inr rfl)
  have hhead (c : UInt8)
      : ((List.replicate (MAX_COMMAND_SIZE - 1) c ++ [0]).drop (line.length + 1) ++ behind).head? = some c := by
    rw [List.drop_append_of_le_length (by rw [List.length_replicate]; omega), List.drop_replicate]
    obtain ⟨k, hk⟩ : ∃ k, MAX_COMMAND_SIZE - 1 - (line.length + 1) = k + 1 :=
      ⟨MAX_COMMAND_SIZE - 1 - (line.length + 1) - 1, by omega⟩
    rw [hk]
    rfl
  intro hsame
  have hanswer := hsame _ _ _ _ hone htwo
  have hrun := hmem.run one
  have hrun' := hmem.run two
  rw [hargs] at hrun hrun'
  rw [answer_fetch hrun, answer_fetch hrun', List.append_assoc, List.append_assoc] at hanswer
  have hreply := (hmem.reply_eq_iff hargs (by rw [List.length_append]; omega)
    (by rw [List.length_append]; omega) tables).mp (reply_injective hanswer) hsends
  rw [honeEq, htwoEq] at hreply
  cases hpast with
  | inl hpast =>
    have hk : mem.length < args.ident + IDENT_SIZE := by omega
    exact take_drop_ne (Nat.le_of_lt hidentLt) hk (hhead 120) (hhead 121) (by decide) hreply.1
  | inr hpast =>
    have hk : mem.length < args.chunkHash + CHUNK_HASH_SIZE := by omega
    exact take_drop_ne (Nat.le_of_lt hhashLt) hk (hhead 120) (hhead 121) (by decide) hreply.2

theorem sameAnswer_iff {earlier : List Bytes} {buffer line : Bytes} (hearlier : Leaves earlier buffer)
    (hline : line.length < MAX_COMMAND_SIZE) (hkey : commandKey line = some (ascii "FETCH")) (tables : Tables)
    {behind : Bytes} (hbehind : IDENT_SIZE ≤ behind.length)
    : SameAnswer tables behind earlier line ↔ ¬ TakesStale line ∧ ¬ SendsStale tables line := by
  constructor
  . intro hsame
    constructor
    . intro h
      exact differs_of_takesStale hearlier hkey h tables behind hsame
    . intro h
      exact differs_of_sendsStale hearlier hkey h hbehind hsame
  . rintro ⟨htakes, hsends⟩ more more' one two hone htwo
    obtain ⟨honeTerm, honeLen⟩ := hone.terminated
    obtain ⟨htwoTerm, htwoLen⟩ := htwo.terminated
    by_cases hvalue : commandValue line = []
    . rw [answer_error (runLine_fetch_blank hkey hvalue one), answer_error (runLine_fetch_blank hkey hvalue two)]
    . by_cases hbare : Bare line
      . rw [answer_bare hkey hvalue hbare htakes honeLen honeTerm hline,
          answer_bare hkey hvalue hbare htakes htwoLen htwoTerm hline]
      . obtain ⟨mem, hmem⟩ := exists_within hkey hvalue hbare
        exact hmem.answer_eq honeLen honeTerm htwoLen htwoTerm hline hsends hbehind

theorem sameAnswer_iff_first
    : SameAnswer ⟨fun _ _ => true, []⟩ (List.replicate IDENT_SIZE 0) [] (ascii "FETCH 10.0.0.2:80\n")
        ∧ ¬ SameAnswer ⟨fun _ _ => true, []⟩ (List.replicate IDENT_SIZE 0) [] (ascii "FETCH 10.0.0.2:80") := by
  constructor
  . rw [sameAnswer_iff .start (by decide) (by decide) _ (by rw [List.length_replicate])]
    constructor
    . rintro ⟨⟨_, _, c, hlast, hspace⟩, _⟩
      cases hlast
      cases hspace
    . rintro ⟨⟨_, _, ident, _, _, _, _, hident, _⟩, _⟩
      rw [show identWord (ascii "FETCH 10.0.0.2:80\n") = none from by decide +kernel] at hident
      cases hident
  . rw [sameAnswer_iff .start (by decide) (by decide) _ (by rw [List.length_replicate])]
    rintro ⟨htakes, -⟩
    apply htakes
    exact ⟨⟨by decide, by decide, 48, rfl, rfl⟩, rfl, rfl, by decide⟩

def shortLine : Bytes :=
  ascii "FETCH 10.0.0.2:80 aaaaaaaaaaaaaaaaaaaa " ++ digestC ++ [newline]

theorem exists_sends
    : ∃ bpkg, Sends ⟨fun _ _ => true, [some bpkg]⟩ shortLine := by
  obtain ⟨bpkg, hloaded, _, hident⟩ :=
    Swarm.twoBytes.exists_manages (show 1 < 2 ^ 30 by decide) (ascii "aaaaaaaaaaaaaaaaaaaa")
  have hk : Swarm.twoBytes.chunks[1]? = some ⟨digestC, 1, 1, none⟩ := rfl
  have hfound := (manages_first hident []).chunkInMemory_found hloaded Swarm.twoBytes_distinct.nodup
    (List.mem_of_getElem? hk)
  have hdata := Swarm.twoBytes_calculateDataLen hloaded
  have hoffset : offsetWord shortLine = none := by decide +kernel
  refine ⟨bpkg, ascii "10.0.0.2", ascii "80", ascii "aaaaaaaaaaaaaaaaaaaa", digestC,
    calculateDataLen.result none ⟨digestC, 1, 1, none⟩, by decide +kernel, by decide +kernel, by decide +kernel,
    by decide +kernel, by decide, ?_⟩
  unfold fetchParser.request
  dsimp only
  rw [if_neg (by simp), hfound, hoffset]
  simp only [fetchParser.offsetNum, List.getD_cons_zero, deref_some, hdata, bind, Except.bind, pure,
    Except.pure]

/--
An address at the end of the input is completed by what earlier lines left, and behind a short
identifier a REQ has the bytes of earlier lines.
-/
theorem sameAnswer_fails
    : (∀ tables behind, ¬ SameAnswer tables behind [] (ascii "FETCH 10.0.0.2:80"))
      ∧ ∃ bpkg,
          ∀ earlier buffer, Leaves earlier buffer
            → ¬ SameAnswer ⟨fun _ _ => true, [some bpkg]⟩ (List.replicate IDENT_SIZE 0) earlier shortLine := by
  constructor
  . intro tables behind
    apply differs_of_takesStale .start (by decide)
    exact ⟨⟨by decide, by decide, 48, rfl, rfl⟩, rfl, rfl, by decide⟩
  . obtain ⟨bpkg, hsends⟩ := exists_sends
    refine ⟨bpkg, fun earlier buffer hleaves => ?_⟩
    apply differs_of_sendsStale hleaves (by decide +kernel) _ (by rw [List.length_replicate])
    exact ⟨hsends, by decide +kernel, .inl (by decide +kernel)⟩

end commandLoop

end Btide
