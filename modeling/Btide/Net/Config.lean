import Btide.Chk.LoadError

/-!
This module contains `config_load` of `src/config.c`: the configurations that it returns and the texts for
which they are the ones that the text gives.
-/

open CLib

namespace Btide

open bpkgLoad (validInt lineValue)

def MAX_PATH_LEN : Nat := 4095

def MAX_PEER_RANGE : Int := 2048

def MIN_PORT_RANGE : Int := 1024

def MAX_PORT_RANGE : Int := 65535

/--
The fields of `struct config`. A field that was not assigned holds whatever the allocated memory contains.
-/
structure Config where
  directory : Option Bytes
  maxPeers : Option Int
  port : Option UInt16
  deriving DecidableEq, Repr

structure Directories (W : Type) where
  isDir : W → Bytes → Bool
  mkdir : W → Bytes → Int × W

structure Exit where
  code : Int
  printed : Bytes
  deriving DecidableEq, Repr

namespace configLoad

structure State (W : Type) where
  world : W
  config : Config
  deriving DecidableEq

def freeDirectory (config : Config) : Except Fault Unit :=
  match config.directory with
  | some _ => .ok ()
  | none => .error .uninitialised

/--
The common form of the numbers: both exits free the directory and the object.
-/
def readNumber (outOfRange : Int → Bool) (notAnInt : Bytes) (exit : Exit) (value : Option Bytes)
    (config : Config) : Except Fault (Except Exit Int) := do
  if !(← isAnInt value) then
    freeDirectory config
    return .error { code := -1, printed := notAnInt }
  let val := atoi (value.getD [])
  if outOfRange val then
    freeDirectory config
    return .error exit
  return .ok val

def maxPeersOutOfRange (val : Int) : Bool :=
  val < 1 || val > MAX_PEER_RANGE

def portOutOfRange (val : Int) : Bool :=
  val ≤ MIN_PORT_RANGE || val > MAX_PORT_RANGE

def readMaxPeers : Option Bytes → Config → Except Fault (Except Exit Int) :=
  readNumber maxPeersOutOfRange (ascii "Max peers is not an integer.\n")
    { code := 4, printed := ascii "Incorrect max peers range [1,1024]\n" }

def readPort : Option Bytes → Config → Except Fault (Except Exit Int) :=
  readNumber portOutOfRange (ascii "Port is not an integer.\n")
    { code := 5, printed := ascii "Incorrect port range (1024, 65535]\n" }

section

variable {W : Type} (env : Directories W)

def readDirectory (value : Option Bytes) (st : State W) : Except Fault (Except Exit (State W)) := do
  let str ← deref value
  if env.isDir st.world str then
    return .ok { st with config.directory := some str }
  let (rv, world) := env.mkdir st.world str
  if rv ≠ 0 then
    return .error { code := 3, printed := [] }
  return .ok { world, config := { st.config with directory := some str } }

def readLine (line : Bytes) (st : State W) : Except Fault (Except Exit (State W)) := do
  let (key, saved) := strtok (ascii ":") (cstr line)
  let (value, _) := strtok (ascii ":") saved
  let value ← stripWhitespace value
  let key ← deref key
  if key = ascii "directory" then
    readDirectory env value st
  else if key = ascii "max_peers" then
    match ← readMaxPeers value st.config with
    | .ok val => return .ok { st with config.maxPeers := some val }
    | .error exit => return .error exit
  else if key = ascii "port" then
    match ← readPort value st.config with
    | .ok val => return .ok { st with config.port := some (UInt16.ofInt val) }
    | .error exit => return .error exit
  else
    return .ok st

def readLines : List Bytes → State W → Except Fault (Except Exit (State W))
  | [], st => .ok (.ok st)
  | line :: lines, st =>
    match readLine env line st with
    | .error e => .error e
    | .ok (.error exit) => .ok (.error exit)
    | .ok (.ok st) => readLines lines st

def initState (world : W) : State W where
  world := world
  config := { directory := none, maxPeers := none, port := none }

end

end configLoad

open configLoad in
/--
`file` is `none` if the path cannot be opened.
-/
def configLoad {W : Type} (env : Directories W) (world : W) (file : Option Bytes)
    : Except Fault (Except Exit (State W)) :=
  match file with
  | none => .ok (.ok (initState world))
  | some file => readLines env (fgetsLines MAX_PATH_LEN file) (initState world)

namespace configLoad

def lineKey (line : Bytes) : Option Bytes :=
  (strtok (ascii ":") (cstr line)).1

def lastValue (key : Bytes) (lines : List Bytes) : Option Bytes :=
  ((lines.filter (lineKey · = some key)).getLast?).bind lineValue

def accepts (outOfRange : Int → Bool) (value : Bytes) : Bool :=
  validInt (some value) && !outOfRange (atoi value)

theorem lastValue_concat (key : Bytes) (lines : List Bytes) (line : Bytes)
    : lastValue key (lines ++ [line])
        =
      if lineKey line = some key then lineValue line else lastValue key lines := by
  unfold lastValue
  by_cases hkey : lineKey line = some key
  . simp [List.filter_append, hkey]
  . simp [List.filter_append, hkey]

section

variable {W : Type} {env : Directories W}

theorem readLine_eq (line : Bytes) (st : State W)
    : readLine env line st
        =
      match lineKey line with
      | none => .error .nullPointer
      | some key =>
        if key = ascii "directory" then
          readDirectory env (lineValue line) st
        else if key = ascii "max_peers" then do
          match ← readMaxPeers (lineValue line) st.config with
          | .ok val => return .ok { st with config.maxPeers := some val }
          | .error exit => return .error exit
        else if key = ascii "port" then do
          match ← readPort (lineValue line) st.config with
          | .ok val => return .ok { st with config.port := some (UInt16.ofInt val) }
          | .error exit => return .error exit
        else
          .ok (.ok st) := by
  have hsaved : ∀ c ∈ (strtok (ascii ":") (cstr line)).2, c ≠ 0 := by
    intro c hc
    exact zero_not_mem_cstr line c (strtok_saved_mem hc)
  unfold readLine
  dsimp only
  rw [bpkgLoad.stripWhitespace_token hsaved]
  unfold lineKey lineValue
  cases (strtok (ascii ":") (cstr line)).1 with
  | none => rfl
  | some key => rfl

theorem isAnInt_eq_validInt (v : Bytes) : isAnInt (some v) = .ok (validInt (some v)) := by
  unfold validInt
  cases v with
  | nil => rfl
  | cons c v => rfl

theorem readNumber_of_some (outOfRange : Int → Bool) (notAnInt : Bytes) (exit : Exit) (v : Bytes)
    (config : Config)
    : (accepts outOfRange v = true ∧ readNumber outOfRange notAnInt exit (some v) config = .ok (.ok (atoi v)))
        ∨ (accepts outOfRange v = false
          ∧ ∃ exit',
              readNumber outOfRange notAnInt exit (some v) config
                =
              (freeDirectory config).map fun _ => .error exit') := by
  unfold readNumber accepts
  rw [isAnInt_eq_validInt]
  cases validInt (some v) with
  | false =>
    refine .inr ⟨rfl, { code := -1, printed := notAnInt }, ?_⟩
    cases freeDirectory config with
    | error e => rfl
    | ok _ => rfl
  | true =>
    cases hrange : outOfRange (atoi v) with
    | false =>
      refine .inl ⟨rfl, ?_⟩
      simp [hrange, bind, Except.bind, pure, Except.pure]
    | true =>
      refine .inr ⟨rfl, exit, ?_⟩
      cases freeDirectory config with
      | error e => simp [hrange, bind, Except.bind, Except.map]
      | ok _ => simp [hrange, bind, Except.bind, pure, Except.pure, Except.map]

theorem freeDirectory_error_iff {config : Config}
    : (∃ e, freeDirectory config = .error e) ↔ config.directory = none := by
  unfold freeDirectory
  cases config.directory with
  | none => simp
  | some directory => simp

theorem readNumber_error_iff {outOfRange : Int → Bool} {notAnInt : Bytes} {exit : Exit}
    {value : Option Bytes} {config : Config}
    : (∃ e, readNumber outOfRange notAnInt exit value config = .error e)
        ↔
      ¬ ∃ v, value = some v ∧ (accepts outOfRange v = true ∨ config.directory ≠ none) := by
  cases value with
  | none => simp [readNumber, isAnInt, bind, Except.bind]
  | some v =>
    have hfree := @freeDirectory_error_iff config
    rcases readNumber_of_some outOfRange notAnInt exit v config with ⟨haccepts, hread⟩ | ⟨haccepts, _, hread⟩
    . simp [hread, haccepts]
    . rw [hread]
      cases hres : freeDirectory config with
      | error e =>
        rw [hres] at hfree
        have hnone := hfree.mp ⟨e, rfl⟩
        simp [haccepts, hnone, Except.map]
      | ok _ =>
        rw [hres] at hfree
        simp only [reduceCtorEq, exists_false, false_iff] at hfree
        simp [hfree, Except.map]

theorem readNumber_ok {outOfRange : Int → Bool} {notAnInt : Bytes} {exit : Exit}
    {value : Option Bytes} {config : Config} {val : Int}
    (h : readNumber outOfRange notAnInt exit value config = .ok (.ok val))
    : ∃ v, value = some v ∧ accepts outOfRange v = true ∧ val = atoi v := by
  cases value with
  | none => simp [readNumber, isAnInt, bind, Except.bind] at h
  | some v =>
    rcases readNumber_of_some outOfRange notAnInt exit v config with ⟨haccepts, hread⟩ | ⟨_, _, hread⟩
    . rw [hread] at h
      simp only [Except.ok.injEq] at h
      exact ⟨v, rfl, haccepts, h.symm⟩
    . rw [hread] at h
      cases hfree : freeDirectory config with
      | error e => simp [hfree, Except.map] at h
      | ok _ => simp [hfree, Except.map] at h

inductive LineStep (line : Bytes) : State W → State W → Prop where
  | directory {w w' : W} {config : Config} {v : Bytes} (hkey : lineKey line = some (ascii "directory"))
      (hvalue : lineValue line = some v)
      : LineStep line ⟨w, config⟩ ⟨w', { config with directory := some v }⟩
  | maxPeers {w : W} {config : Config} {v : Bytes} (hkey : lineKey line = some (ascii "max_peers"))
      (hvalue : lineValue line = some v) (haccepts : accepts maxPeersOutOfRange v = true)
      : LineStep line ⟨w, config⟩ ⟨w, { config with maxPeers := some (atoi v) }⟩
  | port {w : W} {config : Config} {v : Bytes} (hkey : lineKey line = some (ascii "port"))
      (hvalue : lineValue line = some v) (haccepts : accepts portOutOfRange v = true)
      : LineStep line ⟨w, config⟩ ⟨w, { config with port := some (UInt16.ofInt (atoi v)) }⟩
  | other {st : State W} (hdirectory : lineKey line ≠ some (ascii "directory"))
      (hmaxPeers : lineKey line ≠ some (ascii "max_peers")) (hport : lineKey line ≠ some (ascii "port"))
      : LineStep line st st

theorem readDirectory_ok {value : Option Bytes} {st st' : State W}
    (h : readDirectory env value st = .ok (.ok st'))
    : ∃ v w, value = some v ∧ st' = ⟨w, { st.config with directory := some v }⟩ := by
  cases value with
  | none => simp [readDirectory, bind, Except.bind] at h
  | some v =>
    simp only [readDirectory, deref_some, bind, Except.bind] at h
    split at h
    . simp only [pure_eq_ok, Except.ok.injEq] at h
      exact ⟨v, st.world, rfl, h.symm⟩
    . split at h
      . simp [pure, Except.pure] at h
      . simp only [pure_eq_ok, Except.ok.injEq] at h
        exact ⟨v, _, rfl, h.symm⟩

theorem readLine_step {line : Bytes} {st st' : State W} (h : readLine env line st = .ok (.ok st'))
    : LineStep line st st' := by
  rw [readLine_eq] at h
  cases hkey : lineKey line with
  | none => simp [hkey] at h
  | some key =>
    rw [hkey] at h
    dsimp only at h
    split_ifs at h with h0 h1 h2
    . rw [h0] at hkey
      obtain ⟨v, w, hvalue, hst'⟩ := readDirectory_ok h
      rw [hst']
      exact .directory hkey hvalue
    . rw [h1] at hkey
      rw [bind_eq_ok] at h
      obtain ⟨res, hread, h⟩ := h
      cases res with
      | error exit => simp [pure, Except.pure] at h
      | ok val =>
        obtain ⟨v, hvalue, haccepts, hval⟩ := readNumber_ok hread
        simp only [pure_eq_ok, Except.ok.injEq] at h
        rw [← h, hval]
        exact .maxPeers hkey hvalue haccepts
    . rw [h2] at hkey
      rw [bind_eq_ok] at h
      obtain ⟨res, hread, h⟩ := h
      cases res with
      | error exit => simp [pure, Except.pure] at h
      | ok val =>
        obtain ⟨v, hvalue, haccepts, hval⟩ := readNumber_ok hread
        simp only [pure_eq_ok, Except.ok.injEq] at h
        rw [← h, hval]
        exact .port hkey hvalue haccepts
    . simp only [Except.ok.injEq] at h
      rw [← h]
      apply LineStep.other
      all_goals rw [hkey, ne_eq, Option.some.injEq]
      case hdirectory => exact h0
      case hmaxPeers => exact h1
      case hport => exact h2

def DirectoryIn (lines : List Bytes) : Prop :=
  ∃ line ∈ lines, lineKey line = some (ascii "directory")

/--
A number can be rejected only behind a line `directory`: the exits free that field.
-/
def NumberOk (outOfRange : Int → Bool) (before : List Bytes) (value : Option Bytes) : Prop :=
  ∃ v, value = some v ∧ (accepts outOfRange v = true ∨ DirectoryIn before)

structure LineOk (before : List Bytes) (line : Bytes) : Prop where
  key : lineKey line ≠ none
  directory : lineKey line = some (ascii "directory") → lineValue line ≠ none
  maxPeers : lineKey line = some (ascii "max_peers") →
    NumberOk maxPeersOutOfRange before (lineValue line)
  port : lineKey line = some (ascii "port") → NumberOk portOutOfRange before (lineValue line)

structure Given (lines : List Bytes) (config : Config) : Prop where
  directory : config.directory = lastValue (ascii "directory") lines
  assigned : config.directory ≠ none ↔ DirectoryIn lines
  maxPeers : config.maxPeers = (lastValue (ascii "max_peers") lines).map atoi
  maxPeersAccepted : ∀ v, lastValue (ascii "max_peers") lines = some v →
    accepts maxPeersOutOfRange v = true
  port : config.port = (lastValue (ascii "port") lines).map fun v => UInt16.ofInt (atoi v)
  portAccepted : ∀ v, lastValue (ascii "port") lines = some v → accepts portOutOfRange v = true

theorem given_init (world : W) : Given [] (initState world).config := by
  constructor
  all_goals simp [initState, lastValue, DirectoryIn]

theorem directoryIn_concat {lines : List Bytes} {line : Bytes}
    : DirectoryIn (lines ++ [line]) ↔ DirectoryIn lines ∨ lineKey line = some (ascii "directory") := by
  unfold DirectoryIn
  simp only [List.mem_append, List.mem_singleton, or_and_right, exists_or, exists_eq_left]

theorem Given.step {lines : List Bytes} {line : Bytes} {st st' : State W} (h : Given lines st.config)
    (hstep : LineStep line st st') : Given (lines ++ [line]) st'.config := by
  have hmaxDirectory : ascii "directory" ≠ ascii "max_peers" := by decide
  have hportDirectory : ascii "directory" ≠ ascii "port" := by decide
  have hportMax : ascii "max_peers" ≠ ascii "port" := by decide
  cases hstep with
  | directory hkey hvalue =>
    constructor
    all_goals
      simp only [lastValue_concat, directoryIn_concat, hkey, hvalue, Option.some.injEq, hmaxDirectory,
        hportDirectory, ↓reduceIte, or_true, iff_true]
    case assigned => simp
    case maxPeers => exact h.maxPeers
    case maxPeersAccepted => exact h.maxPeersAccepted
    case port => exact h.port
    case portAccepted => exact h.portAccepted
  | @maxPeers _ _ v hkey hvalue haccepts =>
    constructor
    all_goals
      simp only [lastValue_concat, directoryIn_concat, hkey, hvalue, Option.some.injEq, hmaxDirectory.symm,
        hportMax, ↓reduceIte, or_false, Option.map_some]
    case directory => exact h.directory
    case assigned => exact h.assigned
    case maxPeersAccepted =>
      intro v' hv'
      rw [← hv']
      exact haccepts
    case port => exact h.port
    case portAccepted => exact h.portAccepted
  | @port _ _ v hkey hvalue haccepts =>
    constructor
    all_goals
      simp only [lastValue_concat, directoryIn_concat, hkey, hvalue, Option.some.injEq, hportDirectory.symm,
        hportMax.symm, ↓reduceIte, or_false, Option.map_some]
    case directory => exact h.directory
    case assigned => exact h.assigned
    case maxPeers => exact h.maxPeers
    case maxPeersAccepted => exact h.maxPeersAccepted
    case portAccepted =>
      intro v' hv'
      rw [← hv']
      exact haccepts
  | other hdirectory hmaxPeers hport =>
    constructor
    all_goals
      simp only [lastValue_concat, directoryIn_concat, hdirectory, hmaxPeers, hport, ↓reduceIte, or_false]
    case directory => exact h.directory
    case assigned => exact h.assigned
    case maxPeers => exact h.maxPeers
    case maxPeersAccepted => exact h.maxPeersAccepted
    case port => exact h.port
    case portAccepted => exact h.portAccepted

theorem readDirectory_error_iff {value : Option Bytes} {st : State W}
    : (∃ e, readDirectory env value st = .error e) ↔ value = none := by
  cases value with
  | none => simp [readDirectory, bind, Except.bind]
  | some v =>
    simp only [readDirectory, deref_some, bind, Except.bind, reduceCtorEq, iff_false, not_exists]
    intro e
    split
    . simp [pure, Except.pure]
    . split
      . simp [pure, Except.pure]
      . simp [pure, Except.pure]

theorem numberOk_iff {outOfRange : Int → Bool} {before : List Bytes} {value : Option Bytes} {config : Config}
    (h : Given before config)
    : NumberOk outOfRange before value
        ↔
      ∃ v, value = some v ∧ (accepts outOfRange v = true ∨ config.directory ≠ none) := by
  unfold NumberOk
  rw [h.assigned]

theorem bind_error_iff {x : Except Fault α} {f : α → Except Fault β}
    (hf : ∀ a e, f a ≠ .error e) : (∃ e, x >>= f = .error e) ↔ ∃ e, x = .error e := by
  cases x with
  | error e => simp [bind, Except.bind]
  | ok a => simp [bind, Except.bind, hf]

theorem lineOk_iff {before : List Bytes} {line key : Bytes} (hkey : lineKey line = some key)
    : LineOk before line
        ↔
      (key = ascii "directory" → lineValue line ≠ none)
        ∧ (key = ascii "max_peers" → NumberOk maxPeersOutOfRange before (lineValue line))
        ∧ (key = ascii "port" → NumberOk portOutOfRange before (lineValue line)) := by
  constructor
  . intro h
    refine ⟨?_, ?_, ?_⟩
    all_goals
      intro hname
      rw [hname] at hkey
    . exact h.directory hkey
    . exact h.maxPeers hkey
    . exact h.port hkey
  . rintro ⟨hdirectory, hmaxPeers, hport⟩
    constructor
    all_goals rw [hkey]
    case key => exact Option.some_ne_none key
    case directory =>
      intro hname
      exact hdirectory (Option.some.inj hname)
    case maxPeers =>
      intro hname
      exact hmaxPeers (Option.some.inj hname)
    case port =>
      intro hname
      exact hport (Option.some.inj hname)

theorem readLine_error_iff {before : List Bytes} {line : Bytes} {st : State W} (h : Given before st.config)
    : (∃ e, readLine env line st = .error e) ↔ ¬ LineOk before line := by
  rw [readLine_eq]
  cases hkey : lineKey line with
  | none =>
    simp only [Except.error.injEq, exists_eq', true_iff]
    intro hok
    exact hok.key hkey
  | some key =>
    have hmaxDirectory : ascii "max_peers" ≠ ascii "directory" := by decide
    have hportDirectory : ascii "port" ≠ ascii "directory" := by decide
    have hportMax : ascii "port" ≠ ascii "max_peers" := by decide
    dsimp only
    rw [lineOk_iff hkey]
    split_ifs with h0 h1 h2
    . rw [readDirectory_error_iff]
      simp only [h0, hmaxDirectory.symm, hportDirectory.symm, forall_const, false_implies, and_true, ne_eq,
        Decidable.not_not]
    . rw [bind_error_iff, readMaxPeers, readNumber_error_iff]
      . simp only [h1, hmaxDirectory, hportMax.symm, forall_const, false_implies, and_true, true_and]
        rw [numberOk_iff h]
      . intro res e
        cases res with
        | error exit => simp [pure, Except.pure]
        | ok val => simp [pure, Except.pure]
    . rw [bind_error_iff, readPort, readNumber_error_iff]
      . simp only [h2, hportDirectory, hportMax, forall_const, false_implies, true_and]
        rw [numberOk_iff h]
      . intro res e
        cases res with
        | error exit => simp [pure, Except.pure]
        | ok val => simp [pure, Except.pure]
    . simp [h0, h1, h2]

inductive Reaches (env : Directories W) (lines : List Bytes) (st₀ : State W)
    : List Bytes → List Bytes → State W → Prop where
  | start : Reaches env lines st₀ [] lines st₀
  | next {before rest : List Bytes} {line : Bytes} {st st' : State W}
      (h : Reaches env lines st₀ before (line :: rest) st) (hline : readLine env line st = .ok (.ok st'))
      : Reaches env lines st₀ (before ++ [line]) rest st'

namespace Reaches

variable {lines before rest : List Bytes} {st₀ st st' : State W}

theorem append_eq (h : Reaches env lines st₀ before rest st) : before ++ rest = lines := by
  induction h with
  | start => rfl
  | next _ _ ih =>
    rw [← ih]
    simp

theorem given {world : W} (h : Reaches env lines (initState world) before rest st) : Given before st.config := by
  induction h with
  | start => exact given_init world
  | next _ hline ih => exact ih.step (readLine_step hline)

theorem readLines_eq (h : Reaches env lines st₀ before rest st)
    : readLines env lines st₀ = readLines env rest st := by
  induction h with
  | start => rfl
  | next _ hline ih =>
    rw [ih]
    conv => lhs; unfold readLines
    rw [hline]

theorem of_readLines (h : Reaches env lines st₀ before rest st) (hread : readLines env rest st = .ok (.ok st'))
    : Reaches env lines st₀ lines [] st' := by
  induction rest generalizing before st with
  | nil =>
    simp only [readLines, Except.ok.injEq] at hread
    have happend := h.append_eq
    rw [List.append_nil] at happend
    rw [← hread, ← happend]
    rw [← happend] at h
    exact h
  | cons line rest ih =>
    unfold readLines at hread
    cases hline : readLine env line st with
    | error e => simp [hline] at hread
    | ok res =>
      cases res with
      | error exit => simp [hline] at hread
      | ok st'' =>
        rw [hline] at hread
        exact ih (h.next hline) hread

end Reaches

structure Usable (lines : List Bytes) (config : Config) : Prop where
  directory : ∃ v, lastValue (ascii "directory") lines = some v ∧ config.directory = some v
  maxPeers : ∃ v, lastValue (ascii "max_peers") lines = some v
    ∧ validInt (some v) = true
    ∧ 1 ≤ decimalValue v
    ∧ decimalValue v ≤ 2048
    ∧ config.maxPeers = some (decimalValue v : Int)
  port : ∃ v, lastValue (ascii "port") lines = some v
    ∧ validInt (some v) = true
    ∧ 1025 ≤ decimalValue v
    ∧ decimalValue v ≤ 65535
    ∧ config.port = some (UInt16.ofNat (decimalValue v))

structure ReturnsUsable (lines : List Bytes) (res : Except Fault (Except Exit (State W))) : Prop where
  returned : ∀ st, res = .ok (.ok st) → Usable lines st.config
  defined : ∀ e, res ≠ .error e

structure Complete (lines : List Bytes) : Prop where
  directory : DirectoryIn lines
  maxPeers : ∃ v, lastValue (ascii "max_peers") lines = some v ∧ decimalValue v < 2 ^ 31
  port : ∃ v, lastValue (ascii "port") lines = some v ∧ decimalValue v < 2 ^ 31

theorem isdigit_of_validInt {v : Bytes} (h : validInt (some v) = true) : ∀ c ∈ v, isdigit c = true := by
  apply isdigit_of_isAnInt
  rw [isAnInt_eq_validInt, h]

theorem Given.usable_iff {lines : List Bytes} {config : Config} (h : Given lines config)
    : Usable lines config ↔ Complete lines := by
  have hnumber {outOfRange : Int → Bool} {v : Bytes} (haccepts : accepts outOfRange v = true)
      (hlt : decimalValue v < 2 ^ 31)
      : validInt (some v) = true ∧ atoi v = decimalValue v ∧ outOfRange (decimalValue v) = false := by
    unfold accepts at haccepts
    rw [Bool.and_eq_true, Bool.not_eq_true'] at haccepts
    have hatoi := atoi_digits (isdigit_of_validInt haccepts.1) hlt
    rw [hatoi] at haccepts
    exact ⟨haccepts.1, hatoi, haccepts.2⟩
  constructor
  . intro husable
    constructor
    . obtain ⟨v, _, hdirectory⟩ := husable.directory
      apply h.assigned.mp
      rw [hdirectory]
      exact Option.some_ne_none v
    . obtain ⟨v, hlast, _, _, hle, _⟩ := husable.maxPeers
      exact ⟨v, hlast, by omega⟩
    . obtain ⟨v, hlast, _, _, hle, _⟩ := husable.port
      exact ⟨v, hlast, by omega⟩
  . intro hcomplete
    constructor
    . obtain ⟨v, hv⟩ := Option.ne_none_iff_exists'.mp (h.assigned.mpr hcomplete.directory)
      exact ⟨v, h.directory ▸ hv, hv⟩
    . obtain ⟨v, hlast, hlt⟩ := hcomplete.maxPeers
      obtain ⟨hvalid, hatoi, hrange⟩ := hnumber (h.maxPeersAccepted v hlast) hlt
      simp only [maxPeersOutOfRange, Bool.or_eq_false_iff, decide_eq_false_iff_not] at hrange
      unfold MAX_PEER_RANGE at hrange
      refine ⟨v, hlast, hvalid, by omega, by omega, ?_⟩
      rw [h.maxPeers, hlast, Option.map_some, hatoi]
    . obtain ⟨v, hlast, hlt⟩ := hcomplete.port
      obtain ⟨hvalid, hatoi, hrange⟩ := hnumber (h.portAccepted v hlast) hlt
      simp only [portOutOfRange, Bool.or_eq_false_iff, decide_eq_false_iff_not] at hrange
      unfold MIN_PORT_RANGE MAX_PORT_RANGE at hrange
      refine ⟨v, hlast, hvalid, by omega, by omega, ?_⟩
      have hmod : ((decimalValue v : Int) % 2 ^ 16).toNat = decimalValue v := by omega
      rw [h.port, hlast, Option.map_some, hatoi, UInt16.ofInt, hmod]

def configLines (file : Option Bytes) : List Bytes :=
  (file.map (fgetsLines MAX_PATH_LEN)).getD []

theorem configLoad_eq_readLines (env : Directories W) (world : W) (file : Option Bytes)
    : configLoad env world file = readLines env (configLines file) (initState world) := by
  cases file with
  | none => rfl
  | some file => rfl

theorem configLoad_usable_iff (env : Directories W) (world : W) (file : Option Bytes)
    : ReturnsUsable (configLines file) (configLoad env world file)
        ↔
      (∀ before line rest st,
          Reaches env (configLines file) (initState world) before (line :: rest) st → LineOk before line)
        ∧ ∀ st, Reaches env (configLines file) (initState world) (configLines file) [] st
            → Complete (configLines file) := by
  rw [configLoad_eq_readLines]
  generalize configLines file = lines
  constructor
  . intro h
    constructor
    . intro before line rest st hreach
      apply Classical.byContradiction
      intro hbad
      obtain ⟨e, hline⟩ := (readLine_error_iff hreach.given).mpr hbad
      apply h.defined e
      rw [hreach.readLines_eq, readLines, hline]
    . intro st hreach
      rw [← hreach.given.usable_iff]
      apply h.returned
      rw [hreach.readLines_eq]
      rfl
  . rintro ⟨hlines, hcomplete⟩
    have hdefined : ∀ before rest st, Reaches env lines (initState world) before rest st
        → ∀ e, readLines env rest st ≠ .error e := by
      intro before rest st hreach e
      induction rest generalizing before st with
      | nil => simp [readLines]
      | cons line rest ih =>
        unfold readLines
        cases hline : readLine env line st with
        | error e' => exact absurd (hlines _ _ _ _ hreach) ((readLine_error_iff hreach.given).mp ⟨e', hline⟩)
        | ok res =>
          cases res with
          | error exit => simp
          | ok st' => exact ih _ _ (hreach.next hline)
    constructor
    . intro st hread
      have hreach := Reaches.start.of_readLines hread
      exact hreach.given.usable_iff.mpr (hcomplete st hreach)
    . exact hdefined _ _ _ .start

end

def noDirectories : Directories Unit where
  isDir _ _ := true
  mkdir world _ := (-1, world)

theorem configLoad_usable_fails
    : ¬ ReturnsUsable (configLines none) (configLoad noDirectories () none)
        ∧ ¬ ReturnsUsable (configLines (some (ascii "directory:a\nmax_peers:4294967297\nport:2000\n")))
            (configLoad noDirectories () (some (ascii "directory:a\nmax_peers:4294967297\nport:2000\n")))
        ∧ ¬ ReturnsUsable (configLines (some (ascii "max_peers:x\n")))
            (configLoad noDirectories () (some (ascii "max_peers:x\n")))
        ∧ ¬ ReturnsUsable (configLines (some (ascii "port")))
            (configLoad noDirectories () (some (ascii "port"))) := by
  refine ⟨?_, ?_, ?_, ?_⟩
  . intro h
    obtain ⟨v, hlast, _⟩ := (h.returned _ rfl).directory
    have hnone : lastValue (ascii "directory") (configLines none) = none := by decide
    rw [hnone] at hlast
    contradiction
  . intro h
    obtain ⟨v, hlast, _, _, hle, _⟩ := (h.returned ⟨(), ⟨some (ascii "a"), some 1, some 2000⟩⟩ (by
      decide +kernel)).maxPeers
    have hvalue : v = ascii "4294967297" := by
      apply Option.some.inj
      rw [← hlast]
      decide +kernel
    rw [hvalue] at hle
    exact absurd hle (by decide +kernel)
  . intro h
    exact h.defined .uninitialised (by decide +kernel)
  . intro h
    exact h.defined .nullPointer (by decide +kernel)

end configLoad

end Btide
