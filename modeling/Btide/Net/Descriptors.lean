import Btide.Lib.Handles
import Btide.Net.Connections
import Btide.Net.Serve

/-!
This module contains the sockets of `peer_connect` and the open files of a request: what is opened, used
and closed, for every outcome of the calls.
-/

open CLib HandleOp

namespace Btide

open Connections (Addr PeerArray inArray addToArray)

namespace Descriptors

/--
What the process holds a descriptor for. A request opens the data file once to hash it and once to send it.
-/
inductive Descriptor where
  | socket (fd : Int)
  | hashedFile
  | dataFile
  deriving DecidableEq, Repr

abbrev Trace := List (HandleOp Descriptor)

/--
How the calls of `peer_connect` end: the table at its start, what `socket`, `inet_pton`, `connect`, `recv`
and `send` return, and the table, the memory and the thread slots behind the handshake.
-/
structure Dial where
  addr : Addr
  peerArray : PeerArray
  sock : Int
  converted : Int
  connected : Int
  received : Option BtidePacket
  sent : Int
  peerArray' : PeerArray
  memory : Bool
  freeSlot : Bool

def shakeHands (d : Dial) : Trace × Int :=
  match d.received with
  | none => ([.use (.socket d.sock), .release (.socket d.sock)], -1)
  | some response =>
    if response.msgCode = PKT_MSG_ACP then
      if d.sent ≤ 0 then
        ([.use (.socket d.sock), .use (.socket d.sock), .release (.socket d.sock)], -1)
      else
        let (_, ret) := addToArray d.addr d.sock d.memory d.peerArray'
        if ret = 0 then
          ([.use (.socket d.sock), .use (.socket d.sock), .release (.socket d.sock)], -1)
        else if ret = -1 then
          ([.use (.socket d.sock), .use (.socket d.sock), .release (.socket d.sock)], -1)
        else
          -- assign_thread closes the socket if all threads are in use
          ([.use (.socket d.sock), .use (.socket d.sock)]
            ++ (if d.freeSlot then [] else [.release (.socket d.sock)]), 1)
    else
      ([.use (.socket d.sock), .release (.socket d.sock)], -1)

def peerConnect (d : Dial) : Trace × Int :=
  if inArray d.addr d.peerArray then
    ([], -1)
  else if d.sock < 0 then
    ([], -1)
  else if d.converted ≤ 0 then
    ([.acquire (.socket d.sock)], -1)
  else if d.connected < 0 then
    ([.acquire (.socket d.sock), .use (.socket d.sock)], -1)
  else
    let (ops, ret) := shakeHands d
    (.acquire (.socket d.sock) :: .use (.socket d.sock) :: ops, ret)

/--
The file that `compute_hashes_for_chunks` opens. The reads of its loop count as one use.
-/
def hashFile (files : FileSystem) (bpkg : BpkgObj) : Trace :=
  match bpkg.filename with
  | none => []
  | some filename =>
    match stripWhitespace (some filename) with
    | .error _ => []
    | .ok filename =>
      if (filename.bind files).isNone then
        []
      else
        match computeHashesForChunks files bpkg with
        | .error _ => [.acquire .hashedFile, .use .hashedFile]
        | .ok _ => [.acquire .hashedFile, .use .hashedFile, .release .hashedFile]

def openHashed (packages : ManagedPackages) (files : FileSystem) (resArgs : ResArgs) (bpkg : BpkgObj)
    : Except Fault (Option (OpenFile × ResArgs) × ManagedPackages) := do
  let hash := cstr resArgs.chunkHash
  let entries ← deref bpkg.chunks
  let tree ← deref bpkg.tree
  if ← getDataFromFile.computed tree.root hash entries bpkg.nchunks.toNat then
    match ← calculateDataLen bpkg hash (some resArgs.fileOffset) with
    | none => return (none, packages)
    | some reqArgs =>
      match bpkg.filename.bind files with
      | none => return (none, packages)
      | some content =>
        return (some ({ content, pos := reqArgs.fileOffset.toNat }, { resArgs with data := some [] }),
          packages)
  else
    return (none, packages)

def opensData (hashing : Trace)
    : Except Fault (Option (OpenFile × ResArgs) × ManagedPackages)
      → Trace × Except Fault (Option (OpenFile × ResArgs) × ManagedPackages)
  | .ok (some opened, packages) =>
    (hashing ++ [.acquire .dataFile, .use .dataFile], .ok (some opened, packages))
  | res => (hashing, res)

/--
`get_data_from_file` without an open file, with the file system as the two calls of `fopen` find it.
-/
def openFile (packages : ManagedPackages) (files files' : FileSystem) (resArgs : ResArgs)
    : Trace × Except Fault (Option (OpenFile × ResArgs) × ManagedPackages) :=
  match chunkInMemory packages (cstr resArgs.ident) (cstr resArgs.chunkHash) with
  | .error e => ([], .error e)
  | .ok (.found slot) =>
    match packages.getD slot none with
    | none => ([], .error .nullPointer)
    | some chosenBpkg =>
      let hashing := hashFile files chosenBpkg
      match computeHashesForChunks files chosenBpkg with
      | .error e => (hashing, .error e)
      | .ok bpkg =>
        opensData hashing (openHashed (packages.set slot (some bpkg)) files' resArgs bpkg)
  | .ok _ => ([], .ok (none, packages))

open handlePeers (readFile_decreases) in
open getDataFromFile (readFile) in
def sendBlocks (resArgs : ResArgs) (file : Option OpenFile) : Trace :=
  if _hlt : resArgs.bytesRead < resArgs.dataLen.toNat then
    match _h : readFile resArgs file with
    | .error _ => [.use .dataFile]
    | .ok (resArgs', file') =>
      let read : Trace :=
        if file'.isSome then [.use .dataFile] else [.use .dataFile, .release .dataFile]
      match sendRes resArgs' resArgs'.data.isNone with
      | .error _ => read
      | .ok _ =>
        let fileOffset :=
          if resArgs'.data.isSome then
            resArgs'.fileOffset + resArgs'.currentRead.toUInt32
          else
            resArgs'.fileOffset
        read ++ sendBlocks { resArgs' with fileOffset } file'
  else
    []
termination_by (resArgs.dataLen.toNat - resArgs.bytesRead, file.isSome.toNat)
decreasing_by
  obtain ⟨hlen, hread | ⟨hread, hopen, hclosed⟩⟩ := readFile_decreases _h _hlt
  . apply Prod.Lex.left
    rw [hlen]
    omega
  . rw [hlen, hread, hopen, hclosed]
    apply Prod.Lex.right
    decide

/--
The branch for a REQ behind the first call of `get_data_from_file`. It does not close the file.
-/
def answerReq
    : Trace × Except Fault (Option (OpenFile × ResArgs) × ManagedPackages) → Trace × Option Fault
  | (ops, .error e) => (ops, some e)
  | (ops, .ok (some (file, resArgs), _)) =>
    (ops ++ sendBlocks resArgs (some file), (handlePeers.sendBlocks resArgs (some file)).2)
  | (ops, .ok (none, _)) => (ops, none)

def handleReq (packages : ManagedPackages) (files files' : FileSystem) (pkt : BtidePacket)
    : Trace × Option Fault :=
  answerReq (openFile packages files files' (handlePeers.reqArgs pkt))

theorem opensData_snd (hashing : Trace)
    (res : Except Fault (Option (OpenFile × ResArgs) × ManagedPackages)) : (opensData hashing res).2 = res := by
  unfold opensData
  split
  . rfl
  . rfl

theorem openFile_eq (packages : ManagedPackages) (files : FileSystem) (resArgs : ResArgs)
    : (openFile packages files files resArgs).2 = getDataFromFile.openFile packages files resArgs := by
  unfold openFile getDataFromFile.openFile
  dsimp only
  cases chunkInMemory packages (cstr resArgs.ident) (cstr resArgs.chunkHash) with
  | error e => rfl
  | ok lookup =>
    cases lookup with
    | noHash => rfl
    | noPackage => rfl
    | found slot =>
      simp only [bind, Except.bind]
      cases packages.getD slot none with
      | none => rfl
      | some chosen =>
        simp only [deref_some]
        cases computeHashesForChunks files chosen with
        | error e => rfl
        | ok bpkg =>
          dsimp only
          rw [opensData_snd]
          rfl

theorem hashFile_balanced {files : FileSystem} {bpkg bpkg' : BpkgObj}
    (h : computeHashesForChunks files bpkg = .ok bpkg') : Balanced (hashFile files bpkg) := by
  unfold hashFile
  cases bpkg.filename with
  | none => exact balanced_nil
  | some filename =>
    dsimp only
    cases stripWhitespace (some filename) with
    | error e => exact balanced_nil
    | ok filename =>
      dsimp only
      split
      . exact balanced_nil
      . rw [h]
        rfl

theorem hashFile_proper (files : FileSystem) (bpkg : BpkgObj) : ∃ s, run ∅ (hashFile files bpkg) = some s := by
  unfold hashFile
  cases bpkg.filename with
  | none => exact ⟨∅, rfl⟩
  | some filename =>
    dsimp only
    cases stripWhitespace (some filename) with
    | error e => exact ⟨∅, rfl⟩
    | ok filename =>
      dsimp only
      split
      . exact ⟨∅, rfl⟩
      . cases computeHashesForChunks files bpkg with
        | error e => exact ⟨{.hashedFile}, rfl⟩
        | ok bpkg' => exact ⟨∅, rfl⟩

structure Opens (packages : ManagedPackages) (files files' : FileSystem) (res : ResArgs) (bpkg : BpkgObj)
    (content : Bytes) : Prop where
  selects : ∃ slot chosen,
    chunkInMemory packages (cstr res.ident) (cstr res.chunkHash) = .ok (.found slot)
      ∧ packages.getD slot none = some chosen
      ∧ computeHashesForChunks files chosen = .ok bpkg
  computed : ∃ entries tree,
    bpkg.chunks = some entries
      ∧ bpkg.tree = some tree
      ∧ getDataFromFile.computed tree.root (cstr res.chunkHash) entries bpkg.nchunks.toNat = .ok true
  sized : ∃ reqArgs, calculateDataLen bpkg (cstr res.chunkHash) (some res.fileOffset) = .ok (some reqArgs)
  file : bpkg.filename.bind files' = some content

section OpenFile

variable {packages : ManagedPackages} {files files' : FileSystem} {res : ResArgs} {bpkg : BpkgObj}

theorem openHashed_some {packages' : ManagedPackages} {opened : OpenFile × ResArgs}
    (h : openHashed packages files res bpkg = .ok (some opened, packages'))
    : ∃ entries tree content,
        bpkg.chunks = some entries
          ∧ bpkg.tree = some tree
          ∧ getDataFromFile.computed tree.root (cstr res.chunkHash) entries bpkg.nchunks.toNat = .ok true
          ∧ (∃ reqArgs, calculateDataLen bpkg (cstr res.chunkHash) (some res.fileOffset) = .ok (some reqArgs))
          ∧ bpkg.filename.bind files = some content
          ∧ opened = (⟨content, res.fileOffset.toNat⟩, { res with data := some [] }) := by
  unfold openHashed at h
  simp only [bind_eq_ok, deref_eq_ok] at h
  obtain ⟨entries, hentries, tree, htree, has, hcomputed, h⟩ := h
  cases has with
  | false => simp [pure, Except.pure] at h
  | true =>
    simp only [↓reduceIte, bind_eq_ok] at h
    obtain ⟨req, hreq, h⟩ := h
    cases req with
    | none => simp [pure, Except.pure] at h
    | some req =>
      cases hfile : bpkg.filename.bind files with
      | none => simp [hfile, pure, Except.pure] at h
      | some content =>
        obtain ⟨chunk, _, _, _, heq⟩ := calculateDataLen_cases hreq
        simp only [hfile, pure_eq_ok, Prod.mk.injEq, Option.some.injEq] at h
        refine ⟨entries, tree, content, hentries, htree, hcomputed, ⟨req, hreq⟩, rfl, ?_⟩
        rw [← h.1, heq]
        rfl

theorem Opens.unique {bpkg' : BpkgObj} {content content' : Bytes}
    (h : Opens packages files files' res bpkg content) (h' : Opens packages files files' res bpkg' content')
    : content = content' := by
  obtain ⟨slot, chosen, hfound, hslot, hcompute⟩ := h.selects
  obtain ⟨slot', chosen', hfound', hslot', hcompute'⟩ := h'.selects
  rw [hfound, Except.ok.injEq, Lookup.found.injEq] at hfound'
  rw [← hfound', hslot, Option.some.injEq] at hslot'
  rw [← hslot', hcompute, Except.ok.injEq] at hcompute'
  have hfile := h'.file
  rw [← hcompute', h.file, Option.some.injEq] at hfile
  exact hfile

theorem openHashed_of_opens {packages' : ManagedPackages} {content : Bytes}
    (h : Opens packages files files' res bpkg content)
    : openHashed packages' files' res bpkg
        =
      .ok (some (⟨content, res.fileOffset.toNat⟩, { res with data := some [] }), packages') := by
  obtain ⟨entries, tree, hentries, htree, hcomputed⟩ := h.computed
  obtain ⟨req, hreq⟩ := h.sized
  obtain ⟨chunk, _, _, _, heq⟩ := calculateDataLen_cases hreq
  unfold openHashed
  simp only [hentries, htree, deref_some, hcomputed, hreq, h.file, bind, Except.bind, ↓reduceIte, pure,
    Except.pure]
  rw [heq]
  rfl

inductive Opening (packages : ManagedPackages) (files files' : FileSystem) (res : ResArgs)
    : Trace × Except Fault (Option (OpenFile × ResArgs) × ManagedPackages) → Prop where
  | failed {ops : Trace} {e : Fault} (hproper : ∃ s, run ∅ ops = some s)
      (hnone : ∀ bpkg content, ¬ Opens packages files files' res bpkg content)
      : Opening packages files files' res (ops, .error e)
  | refused {ops : Trace} {packages' : ManagedPackages} (hbalanced : Balanced ops)
      (hnone : ∀ bpkg content, ¬ Opens packages files files' res bpkg content)
      : Opening packages files files' res (ops, .ok (none, packages'))
  | opened {hashing : Trace} {bpkg : BpkgObj} {content : Bytes} {packages' : ManagedPackages}
      (hbalanced : Balanced hashing) (hopens : Opens packages files files' res bpkg content)
      : Opening packages files files' res
          (hashing ++ [.acquire .dataFile, .use .dataFile],
            .ok (some (⟨content, res.fileOffset.toNat⟩, { res with data := some [] }), packages'))

theorem Opens.selected {content : Bytes} {slot : Nat} (h : Opens packages files files' res bpkg content)
    (hlookup : chunkInMemory packages (cstr res.ident) (cstr res.chunkHash) = .ok (.found slot))
    : ∃ chosen, packages.getD slot none = some chosen ∧ computeHashesForChunks files chosen = .ok bpkg := by
  obtain ⟨slot', chosen, hfound, hslot, hcompute⟩ := h.selects
  rw [hlookup, Except.ok.injEq, Lookup.found.injEq] at hfound
  rw [← hfound] at hslot
  exact ⟨chosen, hslot, hcompute⟩

theorem openHashed_opening {slot : Nat} {chosen : BpkgObj}
    (hlookup : chunkInMemory packages (cstr res.ident) (cstr res.chunkHash) = .ok (.found slot))
    (hslot : packages.getD slot none = some chosen) (hcompute : computeHashesForChunks files chosen = .ok bpkg)
    : Opening packages files files' res
        (opensData (hashFile files chosen) (openHashed (packages.set slot (some bpkg)) files' res bpkg)) := by
  have hbalanced := hashFile_balanced hcompute
  have hchosen {bpkg' : BpkgObj} {content : Bytes} (h : Opens packages files files' res bpkg' content)
      : bpkg' = bpkg := by
    obtain ⟨chosen', hchosen, hcompute'⟩ := h.selected hlookup
    rw [hslot, Option.some.injEq] at hchosen
    rw [← hchosen, hcompute, Except.ok.injEq] at hcompute'
    exact hcompute'.symm
  cases hopened : openHashed (packages.set slot (some bpkg)) files' res bpkg with
  | error e =>
    refine .failed ⟨∅, hbalanced⟩ ?_
    intro bpkg' content hopens
    rw [hchosen hopens] at hopens
    rw [openHashed_of_opens hopens] at hopened
    contradiction
  | ok answer =>
    obtain ⟨opened, packages'⟩ := answer
    cases opened with
    | none =>
      refine .refused hbalanced ?_
      intro bpkg' content hopens
      rw [hchosen hopens] at hopens
      rw [openHashed_of_opens hopens] at hopened
      cases hopened
    | some opened =>
      obtain ⟨entries, tree, content, hentries, htree, hcomputed, hsized, hfile, rfl⟩ := openHashed_some hopened
      exact .opened hbalanced
        ⟨⟨slot, chosen, hlookup, hslot, hcompute⟩, ⟨entries, tree, hentries, htree, hcomputed⟩, hsized, hfile⟩

theorem openFile_opening (packages : ManagedPackages) (files files' : FileSystem) (res : ResArgs)
    : Opening packages files files' res (openFile packages files files' res) := by
  unfold openFile
  cases hlookup : chunkInMemory packages (cstr res.ident) (cstr res.chunkHash) with
  | error e =>
    refine .failed ⟨∅, rfl⟩ ?_
    rintro bpkg content ⟨⟨slot, chosen, hfound, _⟩, _, _, _⟩
    rw [hlookup] at hfound
    contradiction
  | ok lookup =>
    cases lookup with
    | noHash =>
      refine .refused balanced_nil ?_
      rintro bpkg content ⟨⟨slot, chosen, hfound, _⟩, _, _, _⟩
      rw [hlookup] at hfound
      cases hfound
    | noPackage =>
      refine .refused balanced_nil ?_
      rintro bpkg content ⟨⟨slot, chosen, hfound, _⟩, _, _, _⟩
      rw [hlookup] at hfound
      cases hfound
    | found slot =>
      dsimp only
      cases hslot : packages.getD slot none with
      | none =>
        refine .failed ⟨∅, rfl⟩ ?_
        intro bpkg content hopens
        obtain ⟨chosen, hchosen, _⟩ := hopens.selected hlookup
        rw [hslot] at hchosen
        contradiction
      | some chosen =>
        dsimp only
        cases hcompute : computeHashesForChunks files chosen with
        | error e =>
          refine .failed (hashFile_proper files chosen) ?_
          intro bpkg content hopens
          obtain ⟨chosen', hchosen, hcompute'⟩ := hopens.selected hlookup
          rw [hslot, Option.some.injEq] at hchosen
          rw [← hchosen, hcompute] at hcompute'
          contradiction
        | ok bpkg => exact openHashed_opening hlookup hslot hcompute

end OpenFile

section SendBlocks

open handlePeers (afterBlock errorPacket)
open getDataFromFile (readFile readFile_eq blockLen afterRead)

variable {res : ResArgs} {content : Bytes} {pos m : Nat}

theorem sendBlocks_of_read {res' : ResArgs} {file file' : Option OpenFile} {pkt : BtidePacket}
    (hlt : res.bytesRead < res.dataLen.toNat) (hread : readFile res file = .ok (res', file'))
    (hsend : sendRes res' res'.data.isNone = .ok pkt)
    : sendBlocks res file
        =
      (if file'.isSome then [.use .dataFile] else [.use .dataFile, .release .dataFile])
        ++ sendBlocks { res' with
          fileOffset :=
            if res'.data.isSome then res'.fileOffset + res'.currentRead.toUInt32
            else res'.fileOffset } file' := by
  rw [sendBlocks]
  simp only [hlt, ↓reduceDIte]
  split
  . next e h =>
    rw [hread] at h
    cases h
  . next resArgs' file'' h =>
    rw [hread, Except.ok.injEq, Prod.mk.injEq] at h
    rw [← h.1, ← h.2]
    simp only [hsend]

theorem sendBlocks_of_error {file : Option OpenFile} {e : Fault}
    (hlt : res.bytesRead < res.dataLen.toNat) (hread : readFile res file = .error e)
    : sendBlocks res file = [.use .dataFile] := by
  rw [sendBlocks]
  simp only [hlt, ↓reduceDIte]
  split
  . rfl
  . next h =>
    rw [hread] at h
    cases h

theorem sendBlocks_of_ge {file : Option OpenFile} (hge : ¬ res.bytesRead < res.dataLen.toNat)
    : sendBlocks res file = [] := by
  rw [sendBlocks]
  simp only [hge, ↓reduceDIte]

def Overflows (bytesRead : Nat) (content : Bytes) (pos m : Nat) : Prop :=
  ∃ r ∈ Bytes.cut DATA_MAX_SIZE pos m,
    r.1 + r.2 ≤ content.length ∧ INT_MAX < bytesRead + (r.1 + r.2 - pos)

inductive LoopEnd (bytesRead : Nat) (content : Bytes) (pos m : Nat)
    : Option (Finset Descriptor) → Option Fault → Prop where
  | done (hno : ¬ Overflows bytesRead content pos m) : LoopEnd bytesRead content pos m (some {.dataFile}) none
  | closed (hno : ¬ Overflows bytesRead content pos m) : LoopEnd bytesRead content pos m none (some .useAfterFree)
  | overflow (hover : Overflows bytesRead content pos m)
    : LoopEnd bytesRead content pos m (some {.dataFile}) (some .intOverflow)

theorem overflows_iff_rest {bytesRead : Nat} (hpos : 0 < m)
    (hmax : bytesRead + min m DATA_MAX_SIZE ≤ INT_MAX)
    : Overflows bytesRead content pos m
        ↔
      Overflows (bytesRead + min m DATA_MAX_SIZE) content (pos + min m DATA_MAX_SIZE)
        (m - min m DATA_MAX_SIZE) := by
  unfold Overflows
  rw [Bytes.cut_of_pos (by decide) hpos]
  constructor
  . rintro ⟨r, hr, hin, hover⟩
    rw [List.mem_cons] at hr
    cases hr with
    | inl hfirst =>
      rw [hfirst] at hover
      dsimp only at hover
      omega
    | inr hrest =>
      have hbounds := Bytes.bounds_of_mem_cut hrest
      refine ⟨r, hrest, hin, ?_⟩
      omega
  . rintro ⟨r, hr, hin, hover⟩
    have hbounds := Bytes.bounds_of_mem_cut hr
    refine ⟨r, List.mem_cons_of_mem _ hr, hin, ?_⟩
    omega

theorem not_overflows_of_short {bytesRead : Nat} (hpos : 0 < m)
    (hshort : content.length < pos + min m DATA_MAX_SIZE) : ¬ Overflows bytesRead content pos m := by
  unfold Overflows
  rw [Bytes.cut_of_pos (by decide) hpos]
  rintro ⟨r, hr, hin, _⟩
  rw [List.mem_cons] at hr
  cases hr with
  | inl hfirst =>
    rw [hfirst] at hin
    dsimp only at hin
    omega
  | inr hrest =>
    have hbounds := Bytes.bounds_of_mem_cut hrest
    omega

theorem LoopEnd.block {bytesRead : Nat} {final : Option (Finset Descriptor)} {fault : Option Fault}
    (h : LoopEnd (bytesRead + min m DATA_MAX_SIZE) content (pos + min m DATA_MAX_SIZE)
      (m - min m DATA_MAX_SIZE) final fault)
    (hpos : 0 < m) (hmax : bytesRead + min m DATA_MAX_SIZE ≤ INT_MAX)
    : LoopEnd bytesRead content pos m final fault := by
  have hrest := @overflows_iff_rest content pos m bytesRead hpos hmax
  cases h with
  | done hno => exact .done (fun hover => hno (hrest.mp hover))
  | closed hno => exact .closed (fun hover => hno (hrest.mp hover))
  | overflow hover => exact .overflow (hrest.mpr hover)

theorem sendBlocks_end (hm : res.dataLen.toNat = res.bytesRead + m)
    (hhash : CHUNK_HASH_SIZE ≤ res.chunkHash.length) (hident : IDENT_SIZE ≤ res.ident.length)
    : LoopEnd res.bytesRead content pos m (run {.dataFile} (sendBlocks res (some ⟨content, pos⟩)))
        (handlePeers.sendBlocks res (some ⟨content, pos⟩)).2 := by
  induction m using Nat.strongRecOn generalizing res pos with
  | ind m ih =>
    by_cases hpos : 0 < m
    . have hlt : res.bytesRead < res.dataLen.toNat := by omega
      have hblock : blockLen res = min m DATA_MAX_SIZE := by
        unfold blockLen
        omega
      have heq := @readFile_eq res ⟨content, pos⟩ hlt
      rw [hblock] at heq
      by_cases hshort : content.length < pos + min m DATA_MAX_SIZE
      . rw [if_pos hshort] at heq
        have hsend : sendRes { res with data := none } true = .ok errorPacket := rfl
        -- the next turn reads the closed file
        have hclosed (fileOffset : UInt32)
            : sendBlocks { res with data := none, fileOffset } none = [.use .dataFile]
              ∧ handlePeers.sendBlocks { res with data := none, fileOffset } none
                = ([], some .useAfterFree) :=
          ⟨sendBlocks_of_error hlt rfl, handlePeers.sendBlocks_of_error hlt rfl⟩
        rw [sendBlocks_of_read hlt heq hsend, handlePeers.sendBlocks_of_read hlt heq hsend, (hclosed _).1,
          (hclosed _).2]
        exact .closed (not_overflows_of_short hpos hshort)
      . rw [if_neg hshort] at heq
        have hin := Nat.le_of_not_lt hshort
        by_cases hmax : res.bytesRead + min m DATA_MAX_SIZE ≤ INT_MAX
        . rw [if_pos hmax] at heq
          have hle : min m DATA_MAX_SIZE ≤ DATA_MAX_SIZE := Nat.min_le_right _ _
          have hless : m - min m DATA_MAX_SIZE < m := by
            unfold DATA_MAX_SIZE
            omega
          obtain ⟨pkt, hsend, _⟩ :=
            @handlePeers.sendRes_carries res content pos _ hle hin hhash hident
          have hloop := @ih (m - min m DATA_MAX_SIZE) hless
            (afterBlock res content pos (min m DATA_MAX_SIZE)) (pos + min m DATA_MAX_SIZE)
            (by simp only [afterBlock, afterRead]; omega) hhash hident
          rw [sendBlocks_of_read hlt heq hsend, handlePeers.sendBlocks_of_read hlt heq hsend]
          exact hloop.block hpos hmax
        . rw [if_neg hmax] at heq
          rw [sendBlocks_of_error hlt heq, handlePeers.sendBlocks_of_error hlt heq]
          refine .overflow ⟨(pos, min m DATA_MAX_SIZE), ?_, hin, ?_⟩
          . rw [Bytes.cut_of_pos (by decide) hpos]
            exact List.mem_cons_self
          . dsimp only
            omega
    . have hge : ¬ res.bytesRead < res.dataLen.toNat := by omega
      have hzero : m = 0 := by omega
      rw [sendBlocks_of_ge hge, handlePeers.sendBlocks_of_ge hge, hzero]
      apply LoopEnd.done
      rintro ⟨r, hr, _⟩
      rw [Bytes.cut_zero] at hr
      contradiction

end SendBlocks

inductive Event where
  | connect (d : Dial)
  | req (packages : ManagedPackages) (files files' : FileSystem) (pkt : BtidePacket)

namespace Event

def trace : Event → Trace
  | .connect d => (peerConnect d).1
  | .req packages files files' pkt => (handleReq packages files files' pkt).1

def Ends : Event → Prop
  | .connect d => (peerConnect d).2 = -1
  | .req packages files files' pkt => (handleReq packages files files' pkt).2 = none

structure Balanced (e : Event) : Prop where
  proper : ∃ s, run ∅ e.trace = some s
  closed : e.Ends → HandleOp.Balanced e.trace

/--
A connection is not given up between `socket` and `recv`, and a request opens no file to send, unless the
counter of the bytes overflows.
-/
def Clean : Event → Prop
  | .connect d =>
    inArray d.addr d.peerArray = true ∨ d.sock < 0 ∨ (0 < d.converted ∧ 0 ≤ d.connected)
  | .req packages files files' pkt =>
    ∀ bpkg content, Opens packages files files' (handlePeers.reqArgs pkt) bpkg content →
      Overflows 0 content (handlePeers.reqArgs pkt).fileOffset.toNat (handlePeers.reqArgs pkt).dataLen.toNat

end Event

theorem shakeHands_balanced (d : Dial)
    : (∃ s, run ∅ (.acquire (.socket d.sock) :: .use (.socket d.sock) :: (shakeHands d).1) = some s)
        ∧ ((shakeHands d).2 = -1
          → Balanced (.acquire (.socket d.sock) :: .use (.socket d.sock) :: (shakeHands d).1)) := by
  unfold shakeHands
  cases d.received with
  | none => simp [HandleOp.Balanced, step]
  | some response =>
    dsimp only
    split_ifs with hacp hsent hfull hmemory hslot
    . simp [HandleOp.Balanced, step]
    . simp [HandleOp.Balanced, step]
    . simp [HandleOp.Balanced, step]
    . simp [step]
    . simp [step]
    . simp [HandleOp.Balanced, step]

theorem connect_balanced_iff (d : Dial) : (Event.connect d).Balanced ↔ (Event.connect d).Clean := by
  have hshake := shakeHands_balanced d
  have hbalanced (h : (∃ s, run ∅ (peerConnect d).1 = some s)
      ∧ ((peerConnect d).2 = -1 → HandleOp.Balanced (peerConnect d).1)) : (Event.connect d).Balanced :=
    ⟨h.1, h.2⟩
  constructor
  . intro h
    have hclosed := h.closed
    unfold Event.Ends Event.trace peerConnect at hclosed
    unfold Event.Clean
    dsimp only at hclosed
    split_ifs at hclosed with hin hsock hconverted hconnected
    . exact .inl hin
    . exact .inr (.inl hsock)
    . simp [HandleOp.Balanced, step] at hclosed
    . simp [HandleOp.Balanced, step] at hclosed
    . exact .inr (.inr ⟨Int.not_le.mp hconverted, Int.not_lt.mp hconnected⟩)
  . intro hclean
    unfold Event.Clean at hclean
    apply hbalanced
    unfold peerConnect
    split_ifs with hin hsock hconverted hconnected
    . exact ⟨⟨∅, rfl⟩, fun _ => HandleOp.balanced_nil⟩
    . exact ⟨⟨∅, rfl⟩, fun _ => HandleOp.balanced_nil⟩
    . simp only [hin, hsock, Bool.false_eq_true, false_or] at hclean
      omega
    . simp only [hin, hsock, Bool.false_eq_true, false_or] at hclean
      omega
    . exact hshake

theorem req_balanced_iff (packages : ManagedPackages) (files files' : FileSystem) (pkt : BtidePacket)
    : (Event.req packages files files' pkt).Balanced ↔ (Event.req packages files files' pkt).Clean := by
  have hhash := handlePeers.length_reqArgs_chunkHash pkt
  have hident := handlePeers.length_reqArgs_ident pkt
  have hunfold : (Event.req packages files files' pkt).Balanced
      ↔ (∃ s, run ∅ (handleReq packages files files' pkt).1 = some s)
        ∧ ((handleReq packages files files' pkt).2 = none
          → HandleOp.Balanced (handleReq packages files files' pkt).1) :=
    ⟨fun h => ⟨h.proper, h.closed⟩, fun h => ⟨h.1, h.2⟩⟩
  rw [hunfold]
  unfold Event.Clean handleReq
  have hopening := openFile_opening packages files files' (handlePeers.reqArgs pkt)
  generalize openFile packages files files' (handlePeers.reqArgs pkt) = answer at hopening
  cases hopening with
  | failed hproper hnone =>
    constructor
    . intro _ bpkg content hopens
      exact absurd hopens (hnone bpkg content)
    . intro _
      exact ⟨hproper, by simp [answerReq]⟩
  | refused hbalanced hnone =>
    constructor
    . intro _ bpkg content hopens
      exact absurd hopens (hnone bpkg content)
    . intro _
      exact ⟨⟨∅, hbalanced⟩, fun _ => hbalanced⟩
  | @opened hashing bpkg content packages' hbalanced hopens =>
    have hend : LoopEnd 0 content (handlePeers.reqArgs pkt).fileOffset.toNat
        (handlePeers.reqArgs pkt).dataLen.toNat _ _ :=
      @sendBlocks_end { handlePeers.reqArgs pkt with data := some [] } content
        (handlePeers.reqArgs pkt).fileOffset.toNat (handlePeers.reqArgs pkt).dataLen.toNat
        (Nat.zero_add _).symm hhash hident
    have hrun (loop : Trace)
        : run ∅ (hashing ++ [.acquire .dataFile, .use .dataFile] ++ loop) = run {.dataFile} loop := by
      rw [run_append, run_append, hbalanced]
      rfl
    -- whichever package the request selects, its data file is the one that was opened
    have hclean : (∀ bpkg' content',
        Opens packages files files' (handlePeers.reqArgs pkt) bpkg' content' →
          Overflows 0 content' (handlePeers.reqArgs pkt).fileOffset.toNat
            (handlePeers.reqArgs pkt).dataLen.toNat)
        ↔ Overflows 0 content (handlePeers.reqArgs pkt).fileOffset.toNat
            (handlePeers.reqArgs pkt).dataLen.toNat := by
      constructor
      . intro h
        exact h bpkg content hopens
      . intro h bpkg' content' hopens'
        rw [← hopens.unique hopens']
        exact h
    unfold answerReq HandleOp.Balanced
    dsimp only
    rw [hclean, hrun]
    generalize run {Descriptor.dataFile} _ = final at hend
    generalize (handlePeers.sendBlocks _ _).2 = fault at hend
    cases hend with
    | done hno => simp [hno]
    | closed hno => simp [hno]
    | overflow hover => simp [hover]

theorem descriptors_balanced_iff (events : List Event)
    : ((∀ e ∈ events, e.Balanced) ↔ ∀ e ∈ events, e.Clean)
        ∧ ((∀ e ∈ events, e.Clean ∧ e.Ends) → HandleOp.Balanced (events.flatMap Event.trace)) := by
  have hiff : ∀ e : Event, e.Balanced ↔ e.Clean := by
    intro e
    cases e with
    | connect d => exact connect_balanced_iff d
    | req packages files files' pkt => exact req_balanced_iff packages files files' pkt
  constructor
  . simp only [hiff]
  . intro h
    apply HandleOp.Balanced.flatMap
    intro e he
    obtain ⟨hclean, hends⟩ := h e he
    exact ((hiff e).mpr hclean).closed hends

theorem opens_of_serves {packages : ManagedPackages} {files : FileSystem} {res : ResArgs} {bpkg : BpkgObj}
    {content : Bytes} (h : handlePeers.Serves packages files res bpkg content)
    : Opens packages files files res bpkg content := by
  obtain ⟨slot, chosen, hfound, hslot, hcompute⟩ := h.selects
  refine ⟨⟨slot, chosen, hfound, ?_, hcompute⟩, h.computed, h.sized, h.file⟩
  rw [List.getD_eq_getElem?_getD, hslot]
  rfl

/--
A CONNECT to an address that is none, a REQ that is answered with data, and one that fails at its first
block.
-/
theorem descriptors_balanced_fails
    : peerConnect ⟨⟨ascii "x", 7⟩, [none], 3, 0, 0, none, 0, [none], true, true⟩
          =
        ([.acquire (.socket 3)], -1)
        ∧ ¬ (Event.connect ⟨⟨ascii "x", 7⟩, [none], 3, 0, 0, none, 0, [none], true, true⟩).Balanced
        ∧ ∀ dataLen ∈ ([1, 3] : List UInt32), ∃ bpkg pkt,
            handlePeers.firstByte.IsLoaded bpkg
              ∧ (handlePeers.reqArgs pkt).dataLen = dataLen
              ∧ (handlePeers.reqArgs pkt).fileOffset = 0
              ∧ ¬ (Event.req [some bpkg] (fun _ => some (ascii "cd")) (fun _ => some (ascii "cd")) pkt).Balanced := by
  refine ⟨by decide, ?_, ?_⟩
  . rw [connect_balanced_iff]
    unfold Event.Clean
    decide
  . intro dataLen hmem
    obtain ⟨bpkg, bpkg', pkt, hloaded, _, hlen, hoffset, _, hserves⟩ := handlePeers.firstByte_serves dataLen
    refine ⟨bpkg, pkt, hloaded, hlen, hoffset, ?_⟩
    rw [req_balanced_iff]
    intro hclean
    obtain ⟨r, _, hin, hover⟩ := hclean bpkg' (ascii "cd") (opens_of_serves hserves)
    have hlength : (ascii "cd").length = 2 := rfl
    unfold INT_MAX at hover
    omega

end Descriptors
end Btide
