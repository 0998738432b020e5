import Btide.Lib.StringMemory
import Btide.Net.Swarm

/-!
This module contains the command loop of `src/btide.c`: one buffer for all lines, the tokens that
the loop, `connect_or_disconnect_to_client` and `fetch_parser` take out of it, and the reply to a
`FETCH`.
-/

open Bytes CLib

namespace Btide

def MAX_COMMAND_SIZE : Nat := 5520

/--
A pointer that is not `NULL`: `strip_whitespace` lets the pointer to a blank word point to a literal.
-/
inductive CharPtr where
  | literal
  | inBuffer (pos : Nat)
  deriving DecidableEq

namespace CharPtr

def str (mem : Bytes) : CharPtr → Bytes
  | .literal => []
  | .inBuffer p => strAt mem p

end CharPtr

/--
`fgets` overwrites the buffer up to the terminator that it puts behind the line.
-/
def fgetsInto (buffer line : Bytes) : Bytes :=
  line ++ 0 :: buffer.drop (line.length + 1)

def stripAt (mem : Bytes) (word : Option Nat) : Except Fault (Option CharPtr × Bytes) :=
  match word with
  | none => .ok (none, mem)
  | some p =>
    let start := p + ((strAt mem p).takeWhile isspace).length
    let word := (strAt mem p).dropWhile isspace
    if word = [] then
      .ok (some .literal, mem)
    else
      match stripWhitespace.stripEnd word word.length with
      | .ok i => .ok (some (.inBuffer start), mem.set (start + i + 1) 0)
      | .error e => .error e

def strtokPtr (delims mem : Bytes) (saved : Option Nat) (str : Option CharPtr) : Tokenised :=
  match str with
  | none => strtokAt delims mem saved
  | some .literal => { token := none, saved := none, mem }
  | some (.inBuffer p) => strtokAt delims mem (some p)

structure FetchArgs where
  ip : Bytes
  port : Bytes
  ident : Nat
  chunkHash : Nat
  offset : Option Bytes
  deriving DecidableEq

inductive Command where
  | connect (ip : Bytes) (port : Int)
  | disconnect (ip : Bytes) (port : Int)
  | missingAddress
  | badPort
  | addPackage (file : Bytes)
  | missingFile
  | remPackage (ident : Bytes)
  | missingIdent
  | shortIdent
  | packages
  | peers
  | fetch (args : FetchArgs)
  | missingArguments
  | badFetchPort
  | quit
  | invalid
  deriving DecidableEq

def connectOrDisconnectToClient (mem : Bytes) (saved : Option Nat) (arguments : Option CharPtr)
    (disconnectFlag : Bool) : Except Fault (Bytes × Command) :=
  let ipCheck := strtokPtr (ascii ":") mem saved arguments
  let port := strtokAt (ascii ":") ipCheck.mem ipCheck.saved
  match ipCheck.token, port.token with
  | some ip, some portPtr => do
    if ¬ (← isAnInt (some (strAt port.mem portPtr))) then
      return (port.mem, .badPort)
    else if disconnectFlag then
      return (port.mem, .disconnect (strAt port.mem ip) (atoi (strAt port.mem portPtr)))
    else
      return (port.mem, .connect (strAt port.mem ip) (atoi (strAt port.mem portPtr)))
  | _, _ => .ok (port.mem, .missingAddress)

namespace fetchParser

/--
`arguments + strlen(arguments) + 1`, which the next `strtok` reads.
-/
def resumePtr (mem : Bytes) (arguments : Option CharPtr) : Except Fault Nat := do
  match ← deref arguments with
  | .literal => throw .outOfBounds
  | .inBuffer p =>
    let resume := p + (strAt mem p).length + 1
    if mem.length ≤ resume then
      throw .outOfBounds
    return resume

def arguments (mem : Bytes) (resume : Nat) (ip port : Option Bytes) : Except Fault (Bytes × Command) :=
  let ident := strtokAt (ascii " ") mem (some resume)
  let chunkHash := strtokAt (ascii " ") ident.mem ident.saved
  let offset := strtokAt (ascii " ") chunkHash.mem chunkHash.saved
  match ip, port, ident.token, chunkHash.token with
  | some ip, some port, some identPtr, some hashPtr => do
    if ¬ (← isAnInt (some port)) then
      return (offset.mem, .badFetchPort)
    else
      let offsetStr := offset.token.map (strAt offset.mem)
      return (offset.mem, .fetch { ip, port, ident := identPtr, chunkHash := hashPtr, offset := offsetStr })
  | _, _, _, _ => .ok (offset.mem, .missingArguments)

/--
`fetch_parser` up to the check for the port. The address is copied before it is split.
-/
def parse (mem : Bytes) (saved : Option Nat) (args : Option CharPtr) : Except Fault (Bytes × Command) := do
  let peer := strtokPtr (ascii " ") mem saved args
  let peerPtr ← deref peer.token
  let peerBuffer := strAt peer.mem peerPtr
  let (ip, rest) := strtok (ascii ":") peerBuffer
  let (port, _) := strtok [] rest
  let resume ← resumePtr peer.mem args
  arguments peer.mem resume ip port

end fetchParser

namespace commandLoop

structure Words where
  key : Option CharPtr
  value : Option CharPtr
  saved : Option Nat
  mem : Bytes

def readWords (mem : Bytes) : Except Fault Words := do
  let key := strtokAt (ascii " ") mem (some 0)
  let value := strtokAt [] key.mem key.saved
  let (keyPtr, mem) ← stripAt value.mem key.token
  let (valuePtr, mem) ← stripAt mem value.token
  return { key := keyPtr, value := valuePtr, saved := value.saved, mem }

def dispatch (words : Words) (key : Bytes) : Except Fault (Bytes × Command) :=
  let mem := words.mem
  let value := words.value.map (CharPtr.str mem)
  if key = ascii "CONNECT" then
    connectOrDisconnectToClient mem words.saved words.value false
  else if key = ascii "DISCONNECT" then
    connectOrDisconnectToClient mem words.saved words.value true
  else if key = ascii "ADDPACKAGE" then
    match value with
    | none => .ok (mem, .missingFile)
    | some file => .ok (mem, .addPackage file)
  else if key = ascii "REMPACKAGE" then
    match value with
    | none => .ok (mem, .missingIdent)
    | some ident => .ok (mem, if 20 ≤ ident.length then .remPackage ident else .shortIdent)
  else if key = ascii "PACKAGES" then
    .ok (mem, .packages)
  else if key = ascii "PEERS" then
    .ok (mem, .peers)
  else if key = ascii "FETCH" then
    fetchParser.parse mem words.saved words.value
  else if key = ascii "QUIT" then
    .ok (mem, .quit)
  else
    .ok (mem, .invalid)

/--
One iteration of the command loop, up to the tables that the command works on.
-/
def runLine (buffer line : Bytes) : Except Fault (Bytes × Command) := do
  let words ← readWords (fgetsInto buffer line)
  let key ← deref words.key
  dispatch words (key.str words.mem)

end commandLoop

structure Tables where
  peers : Bytes → Int → Bool
  packages : ManagedPackages

inductive Reply where
  | notInList
  | noPackage
  | noHash
  | badOffset
  | failed
  | sent (ip : Bytes) (port : Int) (pkt : BtidePacket)

def Reply.packet : Reply → Option BtidePacket
  | .sent _ _ pkt => some pkt
  | _ => none

namespace fetchParser

def request (tables : Tables) (ip port ident chunkHash : Bytes) (offset : Option Bytes)
    : Except Fault (Reply ⊕ ReqArgs) := do
  if ¬ tables.peers ip (atoi port) then
    return .inl .notInList
  match ← chunkInMemory tables.packages ident chunkHash with
  | .noPackage => return .inl .noPackage
  | .noHash => return .inl .noHash
  | .found slot =>
    match ← offsetNum offset with
    | none => return .inl .badOffset
    | some offsetNum =>
      let chosenBpkg ← deref (tables.packages.getD slot none)
      match ← calculateDataLen chosenBpkg chunkHash offsetNum with
      | none => return .inl .failed
      | some reqArgs => return .inr reqArgs

def reply (tables : Tables) (mem : Bytes) (args : FetchArgs) : Except Fault Reply := do
  match ← request tables args.ip args.port (strAt mem args.ident) (strAt mem args.chunkHash) args.offset with
  | .inl error => return error
  | .inr reqArgs =>
    let pkt ← sendReq { reqArgs with ident := mem.drop args.ident, chunkHash := mem.drop args.chunkHash }
    return .sent args.ip (atoi args.port) pkt

theorem reply_packet {tables : Tables} {args : FetchArgs} (h : tables.peers args.ip (atoi args.port) = true)
    (mem : Bytes)
    : Reply.packet <$> reply tables mem args
        =
      fetchParser tables.packages (mem.drop args.ident) (mem.drop args.chunkHash) args.offset := by
  unfold reply request fetchParser
  rw [if_neg (by simp [h])]
  unfold strAt
  cases chunkInMemory tables.packages (cstr (mem.drop args.ident)) (cstr (mem.drop args.chunkHash)) with
  | error e => rfl
  | ok found =>
    cases found with
    | noPackage => rfl
    | noHash => rfl
    | found slot =>
      cases offsetNum args.offset with
      | error e => rfl
      | ok num =>
        cases num with
        | none => rfl
        | some num =>
          dsimp only [bind, Except.bind]
          cases deref (tables.packages.getD slot none) with
          | error e => rfl
          | ok bpkg =>
            dsimp only
            cases calculateDataLen bpkg (cstr (mem.drop args.chunkHash)) num with
            | error e => rfl
            | ok req =>
              cases req with
              | none => rfl
              | some req =>
                dsimp only [pure, Except.pure]
                cases sendReq { req with ident := mem.drop args.ident, chunkHash := mem.drop args.chunkHash } with
                | error e => rfl
                | ok pkt => rfl

end fetchParser

inductive Answer where
  | command (command : Command)
  | reply (reply : Reply)

namespace commandLoop

/--
One line with the tables. `behind` is the memory behind the buffer, which `send_req` may reach.
-/
def answer (tables : Tables) (behind buffer line : Bytes) : Except Fault Answer := do
  match ← runLine buffer line with
  | (mem, .fetch args) => return .reply (← fetchParser.reply tables (mem ++ behind) args)
  | (_, command) => return .command command

end commandLoop

end Btide
