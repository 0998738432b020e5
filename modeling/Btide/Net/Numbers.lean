import Btide.Chk.LoadTokens
import Btide.Net.CommandReplies
import Btide.Net.Descriptors
import Btide.Net.StatusReport

/-!
This module contains the numbers that `bpkg_load` and the commands read, and what they are used for.
-/

open Bytes CLib

namespace Btide

open bpkgLoad

/--
The places where a number that was read is used: a 32-bit field of a package or a chunk, the comparison
with the ports in the table of peers, the port in a socket address, and the offset in a REQ.
-/
inductive NumberSite where
  | field
  | comparedPort
  | addressPort
  | requestOffset

def NumberSite.limit : NumberSite → Nat
  | .field => 2 ^ 32
  | .comparedPort => 2 ^ 31
  | .addressPort => 2 ^ 16
  | .requestOffset => 2 ^ 32

/--
The port in the address that `peer_connect` connects to, if it gets that far. `htons` takes a `uint16_t`.
-/
def servPort (d : Descriptors.Dial) : Option UInt16 :=
  if Connections.inArray d.addr d.peerArray then
    none
  else if d.sock < 0 then
    none
  else if d.converted ≤ 0 then
    none
  else
    some (UInt16.ofInt d.addr.port)

def portWord (mem : Bytes) (saved : Option Nat) (arguments : Option CharPtr) : Option Bytes :=
  let ipCheck := strtokPtr (ascii ":") mem saved arguments
  let port := strtokAt (ascii ":") ipCheck.mem ipCheck.saved
  port.token.map (strAt port.mem)

structure Accepted (l : Layout) (bpkg : BpkgObj) : Prop where
  load : ∃ obj file dir,
    bpkgLoad obj (some file) dir = .ok (some bpkg) ∧ fgetsLines MAX_INPUT_SIZE file = l.lines
  parses : ∃ c, l.Parses c

/--
A string that is read as a number, and the number that is used for it. An input that is rejected uses
none.
-/
inductive Used : NumberSite → Bytes → Int → Prop where
  | size {l : Layout} {bpkg : BpkgObj} {s : Bytes} (haccepted : Accepted l bpkg)
      (hs : lineValue l.sizeLine = some s) : Used .field s bpkg.size.toNat
  | nhashes {l : Layout} {bpkg : BpkgObj} {s : Bytes} (haccepted : Accepted l bpkg)
      (hs : lineValue l.nhashesLine = some s) : Used .field s bpkg.nhashes.toNat
  | nchunks {l : Layout} {bpkg : BpkgObj} {s : Bytes} (haccepted : Accepted l bpkg)
      (hs : lineValue l.nchunksLine = some s) : Used .field s bpkg.nchunks.toNat
  | chunkOffset {l : Layout} {bpkg : BpkgObj} {line s : Bytes} {entries : List (Option Chunk)} {j : Nat}
      {chunk : Chunk} (haccepted : Accepted l bpkg) (hline : l.chunkLines[j]? = some line)
      (hs : chunkOffsetColumn line = some s) (hentries : bpkg.chunks = some entries)
      (hchunk : entries[j]? = some (some chunk)) : Used .field s chunk.offset.toNat
  | chunkSize {l : Layout} {bpkg : BpkgObj} {line s : Bytes} {entries : List (Option Chunk)} {j : Nat}
      {chunk : Chunk} (haccepted : Accepted l bpkg) (hline : l.chunkLines[j]? = some line)
      (hs : chunkSizeColumn line = some s) (hentries : bpkg.chunks = some entries)
      (hchunk : entries[j]? = some (some chunk)) : Used .field s chunk.size.toNat
  | connect {mem mem' s ip : Bytes} {saved : Option Nat} {arguments : Option CharPtr} {port : Int}
      (hs : portWord mem saved arguments = some s)
      (hconnect : connectOrDisconnectToClient mem saved arguments false = .ok (mem', .connect ip port))
      : Used .comparedPort s port
  | disconnect {mem mem' s ip : Bytes} {saved : Option Nat} {arguments : Option CharPtr} {port : Int}
      (hs : portWord mem saved arguments = some s)
      (hdisconnect : connectOrDisconnectToClient mem saved arguments true = .ok (mem', .disconnect ip port))
      : Used .comparedPort s port
  | dial {mem mem' s ip : Bytes} {saved : Option Nat} {arguments : Option CharPtr} {port : Int}
      {d : Descriptors.Dial} {sinPort : UInt16} (hs : portWord mem saved arguments = some s)
      (hconnect : connectOrDisconnectToClient mem saved arguments false = .ok (mem', .connect ip port))
      (haddr : d.addr = ⟨ip, port⟩) (hserv : servPort d = some sinPort) : Used .addressPort s sinPort.toNat
  | fetch {tables : Tables} {mem mem' behind ip : Bytes} {saved : Option Nat} {arguments : Option CharPtr}
      {args : FetchArgs} {port : Int} {pkt : BtidePacket}
      (hparse : fetchParser.parse mem saved arguments = .ok (mem', .fetch args))
      (hreply : fetchParser.reply tables (mem' ++ behind) args = .ok (.sent ip port pkt))
      : Used .comparedPort args.port port
  | request {tables : Tables} {mem mem' behind s ip : Bytes} {saved : Option Nat} {arguments : Option CharPtr}
      {args : FetchArgs} {port : Int} {pkt : BtidePacket}
      (hparse : fetchParser.parse mem saved arguments = .ok (mem', .fetch args))
      (hs : args.offset = some s)
      (hreply : fetchParser.reply tables (mem' ++ behind) args = .ok (.sent ip port pkt))
      : Used .requestOffset s (pkt.pl.load 0 4)

theorem Accepted.cases {l : Layout} {bpkg : BpkgObj} (h : Accepted l bpkg)
    : ∃ c,
        l.Parses c
          ∧ bpkg.size = lineCount l.sizeLine
          ∧ bpkg.nhashes = l.nhashes
          ∧ bpkg.nchunks = l.nchunks
          ∧ bpkg.chunks.map (List.map (Option.map fun chunk => (chunk.offset, chunk.size)))
              = some ((prefixArray c.chunks (l.nchunks.toNat - c.chunks.length)).map
                  (Option.map fun chunk => (chunk.offset, chunk.size))) := by
  obtain ⟨c, hparses⟩ := h.parses
  obtain ⟨obj, file, dir, hload, hlines⟩ := h.load
  unfold bpkgLoad at hload
  dsimp only at hload
  rw [hlines, initState, readLines_of_parses hparses, bind_eq_ok] at hload
  obtain ⟨res, hres, hload⟩ := hload
  rw [Except.ok.injEq] at hres
  rw [← hres] at hload
  obtain ⟨-, tree, chunks, htree, rfl⟩ := finish_cases hload
  refine ⟨c, hparses, rfl, rfl, rfl, ?_⟩
  unfold createTree at htree
  simp only [bind_eq_ok] at htree
  obtain ⟨root, hroot, nodes, _, htree⟩ := htree
  rw [pure_eq_ok, Prod.mk.injEq] at htree
  dsimp only
  rw [← htree.2]
  exact insertNode.map_entries (fun _ _ => rfl) hroot

theorem Accepted.chunk {l : Layout} {bpkg : BpkgObj} (h : Accepted l bpkg) {j : Nat} {line : Bytes}
    (hline : l.chunkLines[j]? = some line) {entries : List (Option Chunk)} (hentries : bpkg.chunks = some entries)
    {chunk : Chunk} (hchunk : entries[j]? = some (some chunk))
    : ∃ read, readChunk line = .ok (some read) ∧ chunk.offset = read.offset ∧ chunk.size = read.size := by
  obtain ⟨c, hparses, -, -, -, hmap⟩ := h.cases
  obtain ⟨hlength, hread⟩ := List.forall₂_iff_get.mp hparses.chunks
  obtain ⟨hj, hline⟩ := List.getElem?_eq_some_iff.mp hline
  have hread := hread j hj (by omega)
  rw [List.get_eq_getElem, List.get_eq_getElem, hline] at hread
  refine ⟨_, hread, ?_⟩
  -- the entry is the one that was read, up to its leaf
  rw [hentries, Option.map_some, Option.some.injEq] at hmap
  have hentry := congrArg (·[j]?) hmap
  simp only [List.getElem?_map, hchunk, Option.map_some] at hentry
  rw [prefixArray, List.getElem?_append_left (by rw [List.length_map]; omega), List.getElem?_map,
    List.getElem?_eq_getElem (by omega)] at hentry
  simpa using hentry

theorem isAnInt_of_some {value : Option Bytes} {a : α} {f : Except Fault (Option α)}
    (h : (do
      if !(← isAnInt value) then
        return none
      f) = .ok (some a))
    : ∃ s, value = some s ∧ isAnInt (some s) = .ok true ∧ f = .ok (some a) := by
  simp only [unless_isAnInt_eq_ok, reduceCtorEq, and_false, false_or] at h
  cases value with
  | none => simp [isAnInt] at h
  | some s => exact ⟨s, rfl, h⟩

theorem readChunk_numbers {line : Bytes} {chunk : Chunk} (h : readChunk line = .ok (some chunk))
    : ∃ offset size,
        chunkOffsetColumn line = some offset
          ∧ chunkSizeColumn line = some size
          ∧ isAnInt (some offset) = .ok true
          ∧ isAnInt (some size) = .ok true
          ∧ chunk.offset = UInt32.ofInt (atoi offset)
          ∧ chunk.size = UInt32.ofInt (atoi size) := by
  rw [readChunk_eq] at h
  obtain ⟨offset, hoffset, hint, h⟩ := isAnInt_of_some h
  obtain ⟨size, hsize, hint', h⟩ := isAnInt_of_some h
  simp only [bind_eq_ok, pure_eq_ok, Option.some.injEq] at h
  obtain ⟨hash, _, rfl⟩ := h
  refine ⟨offset, size, hoffset, hsize, hint, hint', ?_, ?_⟩
  . rw [hoffset, Option.getD_some]
  . rw [hsize, Option.getD_some]

theorem connectOrDisconnectToClient_cases {mem mem' s : Bytes} {saved : Option Nat}
    {arguments : Option CharPtr} {flag : Bool} {command : Command} (hs : portWord mem saved arguments = some s)
    (h : connectOrDisconnectToClient mem saved arguments flag = .ok (mem', command))
    : command = .missingAddress
        ∨ command = .badPort
        ∨ isAnInt (some s) = .ok true
          ∧ ∃ ip, command = if flag then .disconnect ip (atoi s) else .connect ip (atoi s) := by
  unfold portWord at hs
  unfold connectOrDisconnectToClient at h
  dsimp only at hs h
  split at h
  . next ip port _ hport =>
    rw [hport, Option.map_some, Option.some.injEq] at hs
    obtain ⟨b, hint⟩ := isAnInt_some s
    rw [hs, hint] at h
    cases b with
    | false =>
      simp only [bind, Except.bind, Bool.false_eq_true, not_false_eq_true, ↓reduceIte, pure_eq_ok,
        Prod.mk.injEq] at h
      exact .inr (.inl h.2.symm)
    | true =>
      simp only [bind, Except.bind, not_true_eq_false, ↓reduceIte] at h
      refine .inr (.inr ⟨hint, strAt (strtokAt (ascii ":") (strtokPtr (ascii ":") mem saved arguments).mem
        (strtokPtr (ascii ":") mem saved arguments).saved).mem ip, ?_⟩)
      . split at h
        . next hflag =>
          rw [pure_eq_ok, Prod.mk.injEq] at h
          rw [if_pos hflag, ← h.2]
        . next hflag =>
          rw [pure_eq_ok, Prod.mk.injEq] at h
          rw [if_neg hflag, ← h.2]
  . rw [Except.ok.injEq, Prod.mk.injEq] at h
    exact .inl h.2.symm

theorem isAnInt_of_parse {mem mem' : Bytes} {saved : Option Nat} {arguments : Option CharPtr}
    {args : FetchArgs} (h : fetchParser.parse mem saved arguments = .ok (mem', .fetch args))
    : isAnInt (some args.port) = .ok true := by
  unfold fetchParser.parse at h
  simp only [bind_eq_ok] at h
  obtain ⟨peerPtr, _, resume, _, h⟩ := h
  rw [(fetchParser.arguments_eq _ _ _ _).1, Except.ok.injEq, Prod.mk.injEq] at h
  obtain ⟨-, -, hport, -⟩ := fetchParser.argumentsOf_fetch h.2
  exact hport

theorem load_fileOffset {req : ReqArgs} {pkt : BtidePacket} (h : sendReq req = .ok pkt)
    : pkt.pl.load 0 4 = req.fileOffset.toNat := by
  obtain ⟨hhash, hident⟩ := sendReq_ok h
  obtain ⟨pl, hsend, hval⟩ := sendReq_payload hhash hident
  rw [h, Except.ok.injEq] at hsend
  have hslice : slice pl.val 0 4 = toLE 4 req.fileOffset.toNat := by
    rw [hval]
    exact slice_zero_append (length_toLE 4 _) _
  rw [hsend, BtidePayload.load, hslice]
  exact ofLE_toLE req.fileOffset.toNat_lt

theorem request_cases {tables : Tables} {ip port ident chunkHash : Bytes} {offset : Option Bytes}
    {answer : Reply ⊕ ReqArgs}
    (h : fetchParser.request tables ip port ident chunkHash offset = .ok answer)
    : (∃ error, answer = .inl error ∧ error.packet = none)
        ∨ ∃ bpkg num req,
            answer = .inr req
              ∧ fetchParser.offsetNum offset = .ok (some num)
              ∧ calculateDataLen bpkg chunkHash num = .ok (some req) := by
  unfold fetchParser.request at h
  split at h
  . rw [pure_eq_ok] at h
    exact .inl ⟨_, h.symm, rfl⟩
  . rw [bind_eq_ok] at h
    obtain ⟨lookup, _, h⟩ := h
    cases lookup with
    | noPackage =>
      rw [pure_eq_ok] at h
      exact .inl ⟨_, h.symm, rfl⟩
    | noHash =>
      rw [pure_eq_ok] at h
      exact .inl ⟨_, h.symm, rfl⟩
    | found slot =>
      dsimp only at h
      rw [bind_eq_ok] at h
      obtain ⟨num, hnum, h⟩ := h
      cases num with
      | none =>
        rw [pure_eq_ok] at h
        exact .inl ⟨_, h.symm, rfl⟩
      | some num =>
        simp only [bind_eq_ok] at h
        obtain ⟨bpkg, _, req, hreq, h⟩ := h
        cases req with
        | none =>
          rw [pure_eq_ok] at h
          exact .inl ⟨_, h.symm, rfl⟩
        | some req =>
          rw [pure_eq_ok] at h
          exact .inr ⟨bpkg, num, req, h.symm, hnum, hreq⟩

theorem reply_sent {tables : Tables} {mem ip : Bytes} {args : FetchArgs} {port : Int} {pkt : BtidePacket}
    (h : fetchParser.reply tables mem args = .ok (.sent ip port pkt))
    : port = atoi args.port
        ∧ ∀ s, args.offset = some s
          → isAnInt (some s) = .ok true ∧ pkt.pl.load 0 4 = (UInt32.ofInt (atoi s)).toNat := by
  unfold fetchParser.reply at h
  rw [bind_eq_ok] at h
  obtain ⟨answer, hrequest, h⟩ := h
  obtain ⟨error, rfl, herror⟩ | ⟨bpkg, num, req, rfl, hnum, hreq⟩ := request_cases hrequest
  . rw [pure_eq_ok] at h
    rw [h] at herror
    contradiction
  . simp only [bind_eq_ok, pure_eq_ok, Reply.sent.injEq] at h
    obtain ⟨pkt', hsend, -, rfl, rfl⟩ := h
    refine ⟨rfl, ?_⟩
    intro s hs
    rw [hs] at hnum
    unfold fetchParser.offsetNum at hnum
    dsimp only at hnum
    rw [bind_eq_ok] at hnum
    obtain ⟨b, hint, hnum⟩ := hnum
    cases b with
    | false => simp [pure, Except.pure] at hnum
    | true =>
      rw [if_pos rfl, pure_eq_ok, Option.some.injEq] at hnum
      refine ⟨hint, ?_⟩
      -- the chunk that was found keeps the offset of the command
      obtain ⟨chunk, _, _, _, hresult⟩ := calculateDataLen_cases hreq
      rw [load_fileOffset hsend, hresult, ← hnum]
      rfl

theorem servPort_eq {d : Descriptors.Dial} {port : UInt16} (h : servPort d = some port)
    : port = UInt16.ofInt d.addr.port := by
  unfold servPort at h
  split_ifs at h
  rw [Option.some.injEq] at h
  exact h.symm

theorem lineCount_eq {line s : Bytes} (hs : lineValue line = some s) : lineCount line = UInt32.ofInt (atoi s) := by
  rw [lineCount, hs, Option.getD_some]

theorem used_iff {site : NumberSite} {s : Bytes} {n : Int} (h : Used site s n)
    : n = decimalValue s ↔ decimalValue s < site.limit := by
  cases h with
  | size haccepted hs =>
    obtain ⟨c, hparses, hsize, -⟩ := haccepted.cases
    have hint := hparses.size
    rw [hs] at hint
    rw [hsize, lineCount_eq hs]
    exact uint32_atoi_eq_iff (isdigit_of_isAnInt hint)
  | nhashes haccepted hs =>
    obtain ⟨c, hparses, -, hnhashes, -⟩ := haccepted.cases
    have hint := hparses.nhashes
    rw [hs] at hint
    rw [hnhashes, Layout.nhashes, lineCount_eq hs]
    exact uint32_atoi_eq_iff (isdigit_of_isAnInt hint)
  | nchunks haccepted hs =>
    obtain ⟨c, hparses, -, -, hnchunks, -⟩ := haccepted.cases
    have hint := hparses.nchunks
    rw [hs] at hint
    rw [hnchunks, Layout.nchunks, lineCount_eq hs]
    exact uint32_atoi_eq_iff (isdigit_of_isAnInt hint)
  | chunkOffset haccepted hline hs hentries hchunk =>
    obtain ⟨read, hread, hoffset, -⟩ := haccepted.chunk hline hentries hchunk
    obtain ⟨offset, size, hs', -, hint, -, hvalue, -⟩ := readChunk_numbers hread
    rw [hs, Option.some.injEq] at hs'
    rw [hoffset, hvalue, hs']
    exact uint32_atoi_eq_iff (isdigit_of_isAnInt hint)
  | chunkSize haccepted hline hs hentries hchunk =>
    obtain ⟨read, hread, -, hsize⟩ := haccepted.chunk hline hentries hchunk
    obtain ⟨offset, size, -, hs', -, hint, -, hvalue⟩ := readChunk_numbers hread
    rw [hs, Option.some.injEq] at hs'
    rw [hsize, hvalue, hs']
    exact uint32_atoi_eq_iff (isdigit_of_isAnInt hint)
  | connect hs hconnect =>
    obtain hmissing | hbad | ⟨hint, ip, hport⟩ := connectOrDisconnectToClient_cases hs hconnect
    . contradiction
    . contradiction
    . rw [if_neg (by decide), Command.connect.injEq] at hport
      rw [hport.2]
      exact atoi_eq_iff (isdigit_of_isAnInt hint)
  | disconnect hs hdisconnect =>
    obtain hmissing | hbad | ⟨hint, ip, hport⟩ := connectOrDisconnectToClient_cases hs hdisconnect
    . contradiction
    . contradiction
    . rw [if_pos rfl, Command.disconnect.injEq] at hport
      rw [hport.2]
      exact atoi_eq_iff (isdigit_of_isAnInt hint)
  | dial hs hconnect haddr hserv =>
    obtain hmissing | hbad | ⟨hint, ip, hport⟩ := connectOrDisconnectToClient_cases hs hconnect
    . contradiction
    . contradiction
    . rw [if_neg (by decide), Command.connect.injEq] at hport
      rw [servPort_eq hserv, haddr, hport.2]
      exact uint16_atoi_eq_iff (isdigit_of_isAnInt hint)
  | fetch hparse hreply =>
    obtain ⟨hport, -⟩ := reply_sent hreply
    rw [hport]
    exact atoi_eq_iff (isdigit_of_isAnInt (isAnInt_of_parse hparse))
  | request hparse hs hreply =>
    obtain ⟨-, hoffset⟩ := reply_sent hreply
    obtain ⟨hint, hoffset⟩ := hoffset _ hs
    rw [hoffset]
    exact uint32_atoi_eq_iff (isdigit_of_isAnInt hint)

def wideSize : Layout where
  identLine := ascii "ident:a\n"
  filenameLine := ascii "filename:f\n"
  sizeLine := ascii "size:4294967297\n"
  nhashesLine := ascii "nhashes:0\n"
  hashesLine := ascii "hashes:\n"
  hashLines := []
  nchunksLine := ascii "nchunks:1\n"
  chunksLine := ascii "chunks:\n"
  chunkLines := [ascii "\t" ++ digestC ++ ascii ",0,1\n"]

theorem wideSize_accepted : Accepted wideSize (PackageStore.oneByteObj []) where
  load := ⟨⟨none, none, 7, 7, none, 7, none, none⟩, wideSize.lines.flatten, none, by decide +kernel,
    by decide +kernel⟩
  parses := by
    refine ⟨⟨ascii "a", ascii "f", [], [⟨digestC, 0, 1, none⟩]⟩, ?_⟩
    constructor
    case hashes => exact .nil
    case chunks =>
      refine .cons ?_ .nil
      decide +kernel
    case ordered =>
      constructor
      all_goals decide +kernel
    all_goals decide +kernel

theorem used_iff_wide
    : (Used .comparedPort (ascii "80") 80 ∧ (80 : Int) = decimalValue (ascii "80"))
        ∧ (Used .field (ascii "1") (PackageStore.oneByteObj []).nchunks.toNat
            ∧ ((PackageStore.oneByteObj []).nchunks.toNat : Int) = decimalValue (ascii "1"))
        ∧ Used .field (ascii "4294967297") (PackageStore.oneByteObj []).size.toNat
        ∧ ((PackageStore.oneByteObj []).size.toNat : Int) ≠ decimalValue (ascii "4294967297") := by
  have hs : portWord (ascii "10.0.0.2:80" ++ [0]) none (some (.inBuffer 0)) = some (ascii "80") := by
    decide +kernel
  have hconnect : connectOrDisconnectToClient (ascii "10.0.0.2:80" ++ [0]) none (some (.inBuffer 0)) false
      = .ok (ascii "10.0.0.2" ++ 0 :: ascii "80" ++ [0], .connect (ascii "10.0.0.2") 80) := by
    decide +kernel
  have hport : Used .comparedPort (ascii "80") 80 := .connect hs hconnect
  have hnchunks : lineValue wideSize.nchunksLine = some (ascii "1") := by decide +kernel
  have hcount : Used .field (ascii "1") (PackageStore.oneByteObj []).nchunks.toNat :=
    .nchunks wideSize_accepted hnchunks
  have hsizeLine : lineValue wideSize.sizeLine = some (ascii "4294967297") := by decide +kernel
  have hsize : Used .field (ascii "4294967297") (PackageStore.oneByteObj []).size.toNat :=
    .size wideSize_accepted hsizeLine
  refine ⟨⟨hport, ?_⟩, ⟨hcount, ?_⟩, hsize, ?_⟩
  . rw [used_iff hport]
    decide +kernel
  . rw [used_iff hcount]
    decide +kernel
  . rw [ne_eq, used_iff hsize]
    decide +kernel

/--
A size is stored modulo `2 ^ 32`, the table of peers is searched for another port, and a connection goes to
another port.
-/
theorem used_fails
    : Used .field (ascii "4294967297") 1
        ∧ Used .comparedPort (ascii "4294967376") 80
        ∧ Used .addressPort (ascii "65616") 80
        ∧ ¬ ∀ site s n, Used site s n → n = decimalValue s := by
  have hfield : Used .field (ascii "4294967297") 1 := by
    have hs : lineValue wideSize.sizeLine = some (ascii "4294967297") := by decide +kernel
    exact .size wideSize_accepted hs
  refine ⟨hfield, ?_, ?_, ?_⟩
  . have hs : portWord (ascii "10.0.0.2:4294967376" ++ [0]) none (some (.inBuffer 0))
        = some (ascii "4294967376") := by
      decide +kernel
    have hdisconnect : connectOrDisconnectToClient (ascii "10.0.0.2:4294967376" ++ [0]) none
        (some (.inBuffer 0)) true
        = .ok (ascii "10.0.0.2" ++ 0 :: ascii "4294967376" ++ [0], .disconnect (ascii "10.0.0.2") 80) := by
      decide +kernel
    exact .disconnect hs hdisconnect
  . have hs : portWord (ascii "10.0.0.2:65616" ++ [0]) none (some (.inBuffer 0)) = some (ascii "65616") := by
      decide +kernel
    have hconnect : connectOrDisconnectToClient (ascii "10.0.0.2:65616" ++ [0]) none (some (.inBuffer 0)) false
        = .ok (ascii "10.0.0.2" ++ 0 :: ascii "65616" ++ [0], .connect (ascii "10.0.0.2") 65616) := by
      decide +kernel
    have hserv : servPort ⟨⟨ascii "10.0.0.2", 65616⟩, [none], 3, 1, 0, none, 0, [none], true, true⟩ = some 80 := by
      decide +kernel
    exact .dial hs hconnect rfl hserv
  . intro h
    have heq := h _ _ _ hfield
    revert heq
    decide +kernel

end Btide
