import Btide.Chk.PkgChk

/-!
This module contains `bpkg_load` and `bpkg_obj_destroy` of `src/chk/pkgchk.c`.
-/

open CLib

namespace Btide

def MAX_INPUT_SIZE : Nat := 1035

namespace bpkgObjDestroy

def freeHashes (nhashes : Nat) (entries : List (Option Bytes)) : Except Fault Unit :=
  if entries.length < nhashes then
    .error .outOfBounds
  else if (entries.take nhashes).all (·.isSome) then
    .ok ()
  else
    .error .uninitialised

def freeChunks (nchunks : Nat) (entries : List (Option Chunk)) : Except Fault Unit :=
  if entries.length < nchunks then .error .outOfBounds else .ok ()

end bpkgObjDestroy

open bpkgObjDestroy in
def bpkgObjDestroy (obj : BpkgObj) : Except Fault Unit := do
  if obj.ident.isNone then
    throw .uninitialised
  if obj.filename.isNone then
    throw .uninitialised
  match obj.hashes with
  | some entries => freeHashes obj.nhashes.toNat entries
  | none => pure ()
  match obj.chunks with
  | some entries => freeChunks obj.nchunks.toNat entries
  | none => pure ()

namespace bpkgLoad

/--
The local variables of `bpkg_load` that survive an iteration, and the object.
-/
structure State where
  obj : BpkgObj
  orderIterator : Nat
  nhashesCounter : Nat
  nchunksCounter : Nat
  deriving DecidableEq, Repr

def readHashes (nhashes : UInt32)
    : List Bytes → List (Option Bytes) → Nat → Except Fault (List (Option Bytes) × Nat)
  | [], hashPointerArray, counter => .ok (hashPointerArray, counter)
  | line :: lines, hashPointerArray, counter => do
    if counter < nhashes.toNat then
      let value ← stripWhitespace (strtok (ascii " ") (cstr line)).1
      let hash ← strcpy 65 value
      let hashPointerArray := hashPointerArray.set counter (some hash)
      let counter ← intOfNat (counter + 1)
      readHashes nhashes lines hashPointerArray counter
    else
      return (hashPointerArray, counter)

/--
The chunk that one line of the section `chunks` describes, or `none` if a number is malformed.
-/
def readChunk (line : Bytes) : Except Fault (Option Chunk) := do
  let value ← stripWhitespace (strtok (ascii " ") (cstr line)).1
  let (hashVal, saved) := strtok (ascii ",") (value.getD [])
  let (offsetVal, saved) := strtok (ascii ",") saved
  let (sizeVal, _) := strtok (ascii ",") saved
  if !(← isAnInt offsetVal) then
    return none
  if !(← isAnInt sizeVal) then
    return none
  let offset := atoi (offsetVal.getD [])
  let size := atoi (sizeVal.getD [])
  let hash ← strcpy 65 hashVal
  return some { hash, offset := UInt32.ofInt offset, size := UInt32.ofInt size, nodePtr := none }

def readChunks (nchunks : UInt32)
    : List Bytes → List (Option Chunk) → Nat → Except Fault (Bool × List (Option Chunk) × Nat)
  | [], chunkPointerArray, counter => .ok (false, chunkPointerArray, counter)
  | line :: lines, chunkPointerArray, counter => do
    if counter < nchunks.toNat then
      match ← readChunk line with
      | none => return (true, chunkPointerArray, counter)
      | some chunk =>
        let chunkPointerArray := chunkPointerArray.set counter (some chunk)
        let counter ← intOfNat (counter + 1)
        readChunks nchunks lines chunkPointerArray counter
    else
      return (false, chunkPointerArray, counter)

abbrev Section := Option Bytes → List Bytes → State → Except Fault (Bool × State)

def checkOrder (order : Nat) (st : State) : Bool × State :=
  if st.orderIterator ≠ order then
    (true, st)
  else
    (false, { st with orderIterator := st.orderIterator + 1 })

def readIdent : Section := fun value _ st => do
  let (errorFlag, st) := checkOrder 0 st
  if errorFlag then
    return (true, st)
  let locPtr ← strcpy 1025 value
  return (false, { st with obj.ident := some locPtr })

def joinDir (dir : Option Bytes) (value : Bytes) : Bytes :=
  match dir with
  | some dir => dir ++ ascii "/" ++ value
  | none => value

def readFilename (dir : Option Bytes) : Section := fun value _ st => do
  let (errorFlag, st) := checkOrder 1 st
  if errorFlag then
    return (true, st)
  let value ← deref value
  return (false, { st with obj.filename := some (joinDir dir value) })

def readSize : Section := fun value _ st => do
  let (errorFlag, st) := checkOrder 2 st
  if errorFlag then
    return (true, st)
  if !(← isAnInt value) then
    return (true, st)
  return (false, { st with obj.size := UInt32.ofInt (atoi (value.getD [])) })

def readNhashes : Section := fun value _ st => do
  if !(← isAnInt value) then
    return (true, st)
  let st := { st with obj.nhashes := UInt32.ofInt (atoi (value.getD [])) }
  return checkOrder 3 st

def readHashesSection : Section := fun _ lines st => do
  let hashPointerArray := List.replicate st.obj.nhashes.toNat none
  let (hashPointerArray, nhashesCounter) ←
    readHashes st.obj.nhashes lines hashPointerArray st.nhashesCounter
  let st := { st with obj.hashes := some hashPointerArray, nhashesCounter }
  return checkOrder 4 st

def readNchunks : Section := fun value _ st => do
  if !(← isAnInt value) then
    return (true, st)
  let st := { st with obj.nchunks := UInt32.ofInt (atoi (value.getD [])) }
  return checkOrder 5 st

def readChunksSection : Section := fun _ lines st => do
  -- the loop that sets the entries to NULL counts with an int
  let _ ← intOfNat st.obj.nchunks.toNat
  let chunkPointerArray := List.replicate st.obj.nchunks.toNat none
  let (errorFlag, chunkPointerArray, nchunksCounter) ←
    readChunks st.obj.nchunks lines chunkPointerArray st.nchunksCounter
  let st := { st with obj.chunks := some chunkPointerArray, nchunksCounter }
  if st.orderIterator ≠ 6 then
    return (true, st)
  if errorFlag then
    return (true, st)
  return (false, { st with orderIterator := st.orderIterator + 1 })

def sectionOf (dir : Option Bytes) (key : Bytes) : Option Section :=
  if key = ascii "ident" then
    some readIdent
  else if key = ascii "filename" then
    some (readFilename dir)
  else if key = ascii "size" then
    some readSize
  else if key = ascii "nhashes" then
    some readNhashes
  else if key = ascii "hashes" then
    some readHashesSection
  else if key = ascii "nchunks" then
    some readNchunks
  else if key = ascii "chunks" then
    some readChunksSection
  else
    none

def readLine (dir : Option Bytes) (line : Bytes) (lines : List Bytes) (st : State)
    : Except Fault (Bool × State) := do
  let (key, saved) := strtok (ascii ":") (cstr line)
  let (value, _) := strtok (ascii ":") saved
  let key ← stripWhitespace key
  let value ← stripWhitespace value
  let key ← deref key
  match sectionOf dir key with
  | some readSection => readSection value lines st
  | none => return (true, st)

def taken (st st' : State) : Nat :=
  (st'.nhashesCounter - st.nhashesCounter) + (st'.nchunksCounter - st.nchunksCounter)

def readLines (dir : Option Bytes) : List Bytes → State → Except Fault (Bool × State)
  | [], st => .ok (false, st)
  | line :: lines, st =>
    match readLine dir line lines st with
    | .error e => .error e
    | .ok (true, st') => .ok (true, st')
    | .ok (false, st') => readLines dir (lines.drop (taken st st')) st'
termination_by lines => lines.length

def initState (obj : BpkgObj) : State where
  obj :=
    { obj with ident := none, filename := none, tree := none, chunks := none, hashes := none }
  orderIterator := 0
  nhashesCounter := 0
  nchunksCounter := 0

def finish (errorFlag : Bool) (obj : BpkgObj) : Except Fault (Option BpkgObj) := do
  if errorFlag then
    bpkgObjDestroy obj
    return none
  else
    let (tree, chunks) ←
      createTree obj.hashes (toInt obj.nhashes.toNat) obj.chunks (toInt obj.nchunks.toNat)
    return some { obj with tree := some tree, chunks }

end bpkgLoad

/--
The result is `none` if the function returns a null pointer. `obj` is what the allocated object
happens to contain.
-/
def bpkgLoad (obj : BpkgObj) (file : Option Bytes) (dir : Option Bytes)
    : Except Fault (Option BpkgObj) :=
  match file with
  | none => .ok none
  | some file => do
    let (errorFlag, st) ←
      bpkgLoad.readLines dir (fgetsLines MAX_INPUT_SIZE file) (bpkgLoad.initState obj)
    bpkgLoad.finish errorFlag st.obj

end Btide
