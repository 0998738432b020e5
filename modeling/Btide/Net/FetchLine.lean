import Btide.Chk.Canonical
import Btide.Net.CommandReplies
import Btide.Net.DownloadEnds

/-!
This module contains the `FETCH` lines that a user of the program types, and the requests that they are
in a swarm.
-/

open Bytes CLib

namespace Btide

structure IsWord (s : Bytes) : Prop where
  ne_nil : s ≠ []
  visible : ∀ c ∈ s, 33 ≤ c.toNat ∧ c.toNat ≤ 126

namespace IsWord

variable {s : Bytes} {c : UInt8}

theorem decimal (n : Nat) : IsWord (decimal n) where
  ne_nil := decimal_ne_nil n
  visible := by
    intro c hc
    have hdigit := isdigit_decimal n c hc
    simp only [isdigit, Bool.and_eq_true, decide_eq_true_eq, UInt8.le_iff_toNat_le, UInt8.reduceToNat]
      at hdigit
    omega

theorem ne_zero (h : IsWord s) (hc : c ∈ s) : c ≠ 0 := by
  rintro rfl
  have hvisible := (h.visible 0 hc).1
  simp at hvisible

theorem isspace_eq (h : IsWord s) (hc : c ∈ s) : isspace c = false := by
  apply isspace_of_toNat
  exact (h.visible c hc).1

theorem not_space (h : IsWord s) : ∀ c ∈ s, c ∉ ascii " " := by
  intro c hc hspace
  rw [mem_ascii_space] at hspace
  have hvisible := (h.visible c hc).1
  rw [hspace] at hvisible
  simp at hvisible

end IsWord

/--
What a `FETCH` line says. The hash has its full length.
-/
structure FetchLine where
  ip : Bytes
  port : Nat
  ident : Bytes
  chunkHash : Bytes
  offset : Option Nat
  ip_ok : IsWord ip
  ip_colon : ∀ c ∈ ip, c ∉ ascii ":"
  port_lt : port < 2 ^ 31
  ident_ok : IsWord ident
  length_ident : ident.length ≤ IDENT_SIZE
  chunkHash_ok : IsWord chunkHash
  length_chunkHash : chunkHash.length = CHUNK_HASH_SIZE
  offset_lt : ∀ off ∈ offset, off < 2 ^ 32

namespace FetchLine

variable (w : FetchLine)

def peer : Bytes :=
  w.ip ++ 58 :: decimal w.port

def offsetArgument : Bytes :=
  match w.offset with
  | some off => 32 :: decimal off
  | none => []

def arguments : Bytes :=
  w.peer ++ 32 :: (w.ident ++ 32 :: (w.chunkHash ++ w.offsetArgument))

def text (ending : Bytes) : Bytes :=
  ascii "FETCH" ++ 32 :: (w.arguments ++ ending)

theorem peer_ok : IsWord w.peer where
  ne_nil := by simp [peer]
  visible := by
    intro c hc
    unfold peer at hc
    rw [List.mem_append, List.mem_cons] at hc
    rcases hc with hc | rfl | hc
    . exact w.ip_ok.visible c hc
    . decide
    . exact (IsWord.decimal w.port).visible c hc

theorem arguments_ne_zero : ∀ c ∈ w.arguments, c ≠ 0 := by
  intro c hc
  unfold arguments offsetArgument at hc
  simp only [List.mem_append, List.mem_cons] at hc
  rcases hc with hc | rfl | hc | rfl | hc | hc
  . exact w.peer_ok.ne_zero hc
  . decide
  . exact w.ident_ok.ne_zero hc
  . decide
  . exact w.chunkHash_ok.ne_zero hc
  . split at hc
    . rw [List.mem_cons] at hc
      rcases hc with rfl | hc
      . decide
      . exact (IsWord.decimal _).ne_zero hc
    . simp at hc

theorem exists_last : ∃ front word, w.arguments = front ++ word ∧ IsWord word := by
  unfold arguments offsetArgument
  split
  . next off hoffset =>
    refine ⟨w.peer ++ 32 :: (w.ident ++ 32 :: (w.chunkHash ++ [32])), decimal off, ?_, .decimal off⟩
    simp
  . refine ⟨w.peer ++ 32 :: (w.ident ++ [32]), w.chunkHash, ?_, w.chunkHash_ok⟩
    simp

theorem strtok_peer : strtok (ascii " ") w.arguments
    = (some w.peer, w.ident ++ 32 :: (w.chunkHash ++ w.offsetArgument)) :=
  strtok_append w.peer_ok.ne_nil w.peer_ok.not_space (mem_ascii_space.mpr rfl)

theorem trim_arguments {ending : Bytes} (hending : ∀ c ∈ ending, isspace c = true)
    : trim (w.arguments ++ ending) = w.arguments := by
  have hhead (c : UInt8) (hc : w.arguments.head? = some c) : isspace c = false := by
    have hpeer := w.peer_ok
    unfold arguments at hc
    rw [List.head?_append_of_ne_nil _ hpeer.ne_nil] at hc
    exact hpeer.isspace_eq (List.mem_of_mem_head? hc)
  have hlast (c : UInt8) (hc : w.arguments.getLast? = some c) : isAnySpace c = false := by
    obtain ⟨front, word, heq, hword⟩ := w.exists_last
    rw [heq, List.getLast?_append_of_ne_nil _ hword.ne_nil] at hc
    have hmem := List.mem_of_getLast? hc
    rw [isAnySpace_eq_isspace (hword.ne_zero hmem), hword.isspace_eq hmem]
  have hne : w.arguments ≠ [] := by
    simp [arguments]
  exact @trim_pad [] w.arguments ending (by simp) hending hhead hlast hne

section Text

variable {ending : Bytes} (hending : ∀ c ∈ ending, isspace c = true)

include hending

theorem strtok_text
    : strtok (ascii " ") (cstr (w.text ending)) = (some (ascii "FETCH"), w.arguments ++ ending) := by
  have hzero : ∀ c ∈ w.text ending, c ≠ 0 := by
    intro c hc
    unfold text at hc
    simp only [List.mem_append, List.mem_cons] at hc
    rcases hc with hc | rfl | hc | hc
    . exact forall_mem_of_all (p := (· ≠ 0)) (by decide) c hc
    . decide
    . exact w.arguments_ne_zero c hc
    . rintro rfl
      exact absurd (hending 0 hc) (by decide)
  rw [cstr_of_forall hzero, text]
  apply strtok_append
  . decide
  . exact forall_mem_of_all (by decide)
  . exact mem_ascii_space.mpr rfl

theorem commandKey_eq : commandKey (w.text ending) = some (ascii "FETCH") := by
  have htrim : trim (ascii "FETCH") = ascii "FETCH" := by decide
  rw [commandKey, w.strtok_text hending, Option.map_some, htrim]

theorem commandValue_eq : commandValue (w.text ending) = w.arguments := by
  rw [commandValue, commandRest, w.strtok_text hending, w.trim_arguments hending]

theorem peerWord_eq : peerWord (w.text ending) = w.peer := by
  rw [peerWord, w.commandValue_eq hending, w.strtok_peer]
  rfl

theorem resumeStr_eq
    : resumeStr (w.text ending) = w.ident ++ 32 :: (w.chunkHash ++ w.offsetArgument) := by
  have hspace : 32 ∈ w.arguments := by
    simp [arguments]
  rw [resumeStr, w.commandValue_eq hending, if_pos hspace, w.strtok_peer]

theorem fetchIp_eq : fetchIp (w.text ending) = some w.ip := by
  rw [fetchIp, w.peerWord_eq hending, peer, strtok_append w.ip_ok.ne_nil w.ip_colon (by decide)]

theorem fetchPort_eq : fetchPort (w.text ending) = some (decimal w.port) := by
  rw [fetchPort, w.peerWord_eq hending, peer, strtok_append w.ip_ok.ne_nil w.ip_colon (by decide),
    strtok_last (decimal_ne_nil _) (by simp)]

theorem strtok_ident : strtok (ascii " ") (resumeStr (w.text ending))
    = (some w.ident, w.chunkHash ++ w.offsetArgument) := by
  rw [w.resumeStr_eq hending]
  exact strtok_append w.ident_ok.ne_nil w.ident_ok.not_space (mem_ascii_space.mpr rfl)

theorem strtok_chunkHash : (strtok (ascii " ") (chunkHashStr (w.text ending))).1 = some w.chunkHash
    ∧ offsetWord (w.text ending) = w.offset.map decimal := by
  have hhash := w.chunkHash_ok
  unfold offsetWord
  rw [chunkHashStr, w.strtok_ident hending]
  dsimp only
  unfold offsetArgument
  cases w.offset with
  | none =>
    dsimp only
    rw [List.append_nil, strtok_last hhash.ne_nil hhash.not_space]
    exact ⟨rfl, rfl⟩
  | some off =>
    dsimp only
    rw [strtok_append hhash.ne_nil hhash.not_space (mem_ascii_space.mpr rfl),
      strtok_last (decimal_ne_nil _) (IsWord.decimal off).not_space]
    exact ⟨rfl, rfl⟩

theorem not_bare : ¬ Bare (w.text ending) := by
  rintro ⟨_, hspace, _⟩
  apply hspace
  rw [w.commandValue_eq hending]
  simp [arguments]

end Text

structure Read (ending buffer behind mem : Bytes) (args : FetchArgs) : Prop where
  run : commandLoop.runLine buffer (w.text ending) = .ok (mem, .fetch args)
  ip_eq : args.ip = w.ip
  port_eq : args.port = decimal w.port
  offset_eq : args.offset = w.offset.map decimal
  ident_le : args.ident ≤ (w.text ending).length
  length_le : buffer.length ≤ mem.length
  ident_eq : strAt (mem ++ behind) args.ident = w.ident
  chunkHash_eq : strAt (mem ++ behind) args.chunkHash = w.chunkHash

theorem exists_read {ending : Bytes} (hending : ∀ c ∈ ending, isspace c = true) (buffer behind : Bytes)
    : ∃ mem args, w.Read ending buffer behind mem args := by
  have hvalue : commandValue (w.text ending) ≠ [] := by
    rw [w.commandValue_eq hending]
    simp [arguments]
  obtain ⟨mem, hmem⟩ := commandLoop.exists_within (w.commandKey_eq hending) hvalue (w.not_bare hending)
  obtain ⟨hhash, hoffset⟩ := w.strtok_chunkHash hending
  have hident := congrArg Prod.fst (w.strtok_ident hending)
  obtain ⟨args, hargs⟩ := @fetchParser.argumentsOf_of_words w.ip (decimal w.port) _ _ _
    (resumeAt (w.text ending)) hident hhash (isAnInt_decimal w.port)
  have hcommand : fetchCommand (w.text ending) = .fetch args := by
    rw [fetchCommand, w.fetchIp_eq hending, w.fetchPort_eq hending, hargs]
  obtain ⟨hip, hport, _, _, _, hrest⟩ := fetchParser.argumentsOf_fetch hargs
  obtain ⟨hidentWord, hhashWord⟩ := hmem.words args hcommand
  have hrun := hmem.run buffer
  rw [hcommand] at hrun
  have hidentLt := hmem.ident_lt hcommand
  have hhashLt := hmem.chunkHash_lt hcommand
  have hmemLen := hmem.length_eq
  refine ⟨_, args, hrun, ?_, ?_, ?_, ?_, ?_, ?_, ?_⟩
  . exact (Option.some.inj hip).symm
  . exact (Option.some.inj hport).symm
  . rw [hrest]
    exact hoffset
  . omega
  . rw [List.length_append, List.length_drop]
    omega
  . rw [List.append_assoc, hmem.terminated.strAt_append hidentLt]
    apply Option.some.inj
    rw [hidentWord, identWord]
    exact hident
  . rw [List.append_assoc, hmem.terminated.strAt_append hhashLt]
    apply Option.some.inj
    rw [hhashWord, chunkHashWord]
    exact hhash

theorem offsetNum_eq
    : fetchParser.offsetNum (w.offset.map decimal) = .ok (some (w.offset.map UInt32.ofNat)) := by
  unfold fetchParser.offsetNum
  cases hoffset : w.offset with
  | none => rfl
  | some off =>
    simp only [Option.map_some, isAnInt_decimal, bind, Except.bind, ↓reduceIte,
      uint32_atoi_decimal (w.offset_lt off hoffset), pure, Except.pure]

theorem take_of_strAt {mem word : Bytes} {pos n : Nat} (h : strAt mem pos = word) (hlen : word.length = n)
    : n ≤ (mem.drop pos).length ∧ (mem.drop pos).take n = word := by
  have hfront : word <+: mem.drop pos := by
    rw [← h]
    exact List.takeWhile_prefix _
  rw [← hlen]
  exact ⟨hfront.length_le, List.prefix_iff_eq_take.mp hfront |>.symm⟩

end FetchLine

open commandLoop handlePeers

section Requests

variable {peer : Peer} {pkg : Package} {ident name content : Bytes} {slot : Nat} {bpkg : BpkgObj}
  {chunk : Chunk}

/--
A `FETCH` line of a client that manages the package is the command of a swarm that fetches the rest of the
chunk, whatever was typed before: the packet has what the line says. There is room in the buffer for the
block of the identifier.
-/
theorem fetch_line_requests (w : FetchLine) {ending : Bytes} (hending : ∀ c ∈ ending, isspace c = true)
    {buffer : Bytes} (hbuffer : buffer.length = MAX_COMMAND_SIZE)
    (hroom : (w.text ending).length + IDENT_SIZE ≤ MAX_COMMAND_SIZE) {connected : Bytes → Int → Bool}
    (hconnected : connected w.ip w.port = true)
    (hshares : peer.Shares pkg ident name content slot bpkg) (hdistinct : pkg.Distinct)
    (hlt : pkg.length < 2 ^ 32) (hident : w.ident.take 20 = ident.take 20) (hchunk : chunk ∈ pkg.chunks)
    (hhash : w.chunkHash = chunk.hash) (hspans : chunk.spans (w.offset.map UInt32.ofNat) = true)
    (behind : Bytes)
    : ∃ mem chunkHash pkt,
        answer ⟨connected, peer.packages⟩ behind buffer (w.text ending)
            = .ok (.reply (.sent w.ip w.port pkt))
          ∧ fetchParser peer.packages mem chunkHash (w.offset.map decimal) = .ok (some pkt)
          ∧ cstr (reqArgs pkt).ident = w.ident
          ∧ (reqArgs pkt).chunkHash = w.chunkHash ++ [0]
          ∧ (reqArgs pkt).fileOffset.toNat = chunk.startOf (w.offset.map UInt32.ofNat)
          ∧ (reqArgs pkt).fileOffset.toNat + (reqArgs pkt).dataLen.toNat
              =
            chunk.offset.toNat + chunk.size.toNat
          ∧ ∀ (ι : Type) (_ : DecidableEq ι) (s : Swarm ι) (p q : ι),
              s.peers p = peer
                →
              Swarm.Step s (.fetch p q mem chunkHash (w.offset.map decimal)) (s.send p q [pkt])
                ∧ ∀ sh : Sharing ι,
                    sh.pkg = pkg
                      →
                    sh.ident = ident
                      →
                    sh.HasChunk s q chunk
                      →
                    ∀ i, chunk.startOf (w.offset.map UInt32.ofNat) ≤ i
                      → i < chunk.offset.toNat + chunk.size.toNat
                      → sh.Fetches s p i (.fetch p q mem chunkHash (w.offset.map decimal)) := by
  obtain ⟨mem, args, hread⟩ := w.exists_read hending buffer behind
  obtain ⟨hhashLen, hhashTake⟩ := FetchLine.take_of_strAt hread.chunkHash_eq w.length_chunkHash
  have hidentLen : IDENT_SIZE ≤ ((mem ++ behind).drop args.ident).length := by
    have hle := hread.ident_le
    have hmem := hread.length_le
    rw [List.length_drop, List.length_append]
    omega
  have hmatch : Matches ident ((mem ++ behind).drop args.ident) := by
    unfold Matches
    rw [← strAt, hread.ident_eq, hident]
  have hcstr : cstr ((mem ++ behind).drop args.chunkHash) = chunk.hash := by
    rw [← strAt, hread.chunkHash_eq, hhash]
  have hfound := (hshares.manages hmatch).chunkInMemory_found hshares.loaded hdistinct.nodup hchunk
  have hdata := hshares.loaded.calculateDataLen_eq chunk.hash (w.offset.map UInt32.ofNat)
  rw [hdistinct.pick_of_spans hchunk hspans] at hdata
  obtain ⟨pkt, hsend, hcode, hargs⟩ := @reqArgs_of_sendReq
    { calculateDataLen.result (w.offset.map UInt32.ofNat) chunk with
      ident := (mem ++ behind).drop args.ident
      chunkHash := (mem ++ behind).drop args.chunkHash } hhashLen hidentLen
  have hreply : fetchParser.reply ⟨connected, peer.packages⟩ (mem ++ behind) args
      = .ok (.sent w.ip w.port pkt) := by
    have hport : atoi args.port = w.port := by
      rw [hread.port_eq, atoi_decimal w.port_lt]
    unfold fetchParser.reply fetchParser.request
    rw [if_neg (by simp [hread.ip_eq, hport, hconnected]), hread.offset_eq, strAt, strAt, hcstr]
    simp only [hfound, w.offsetNum_eq, List.getD_eq_getElem?_getD, hshares.slot_eq, Option.getD_some,
      deref_some, hdata, Option.map_some, hsend, bind, Except.bind, pure, Except.pure]
    rw [hread.ip_eq, hport]
  have hpeers : (Tables.mk connected peer.packages).peers args.ip (atoi args.port) = true := by
    rw [hread.ip_eq, hread.port_eq, atoi_decimal w.port_lt]
    exact hconnected
  have hpacket := fetchParser.reply_packet hpeers (mem ++ behind)
  rw [hreply, hread.offset_eq] at hpacket
  have hfetch : fetchParser peer.packages ((mem ++ behind).drop args.ident)
      ((mem ++ behind).drop args.chunkHash) (w.offset.map decimal) = .ok (some pkt) :=
    hpacket.symm
  obtain ⟨pkt', hsame, hasks⟩ :=
    hshares.fetch_asks hdistinct hlt hchunk hmatch hcstr w.offsetNum_eq hspans hfetch
  rw [Option.some.injEq] at hsame
  rw [← hsame] at hasks
  refine ⟨_, _, pkt, ?_, hfetch, ?_, ?_, hasks.offset_eq, ?_, ?_⟩
  . rw [answer_fetch hread.run, hreply]
    rfl
  . rw [hargs]
    dsimp only
    rw [cstr_append_replicate, cstr_take, ← strAt, hread.ident_eq, List.take_of_length_le w.length_ident]
  . rw [hargs]
    dsimp only
    rw [hhashTake]
  . rw [hasks.offset_eq]
    exact hasks.end_eq
  . intro ι _ s p q hp
    constructor
    . rw [← hp] at hfetch
      exact .fetch hfetch
    . rintro sh rfl rfl hhas i hlo hhi
      exact .fetch hchunk hmatch hcstr w.offsetNum_eq hspans hlo hhi hhas

theorem isWord_replicate {n : Nat} (hn : 0 < n) : IsWord (List.replicate n 97) where
  ne_nil := by
    apply List.ne_nil_of_length_pos
    rw [List.length_replicate]
    exact hn
  visible := by
    intro c hc
    rw [List.eq_of_mem_replicate hc]
    decide

theorem isWord_address : IsWord (ascii "10.0.0.2") :=
  ⟨by decide, forall_mem_of_all (by decide)⟩

theorem address_no_colon : ∀ c ∈ ascii "10.0.0.2", c ∉ ascii ":" :=
  forall_mem_of_all (by decide)

theorem isWord_digestX : IsWord Sharing.digestX :=
  ⟨by decide, forall_mem_of_all (by decide)⟩

theorem length_digestX : Sharing.digestX.length = CHUNK_HASH_SIZE := rfl

theorem length_word : (List.replicate 30 (97 : UInt8)).length ≤ IDENT_SIZE := by
  rw [List.length_replicate]
  decide

theorem isWord_word : IsWord (List.replicate 30 97) :=
  isWord_replicate (by decide)

theorem offset_word : ∀ off ∈ some 1, off < 2 ^ 32 := by
  intro off hoff
  rw [← Option.mem_some.mp hoff]
  decide

def secondPartLine : FetchLine where
  ip := ascii "10.0.0.2"
  port := 8080
  ident := List.replicate 30 97
  chunkHash := Sharing.digestX
  offset := some 1
  ip_ok := isWord_address
  ip_colon := address_no_colon
  port_lt := by decide
  ident_ok := isWord_word
  length_ident := length_word
  chunkHash_ok := isWord_digestX
  length_chunkHash := length_digestX
  offset_lt := offset_word

def everyPeer (_ : Bytes) (_ : Int) : Bool := true

theorem fetch_line_requests_second
    : ∃ peer : Peer,
        peer.files (ascii "f") = some [0, 0]
          ∧ ∀ buffer : Bytes,
              buffer.length = MAX_COMMAND_SIZE
                →
              ∃ pkt,
                answer ⟨everyPeer, peer.packages⟩ [] buffer (secondPartLine.text [newline])
                    = .ok (.reply (.sent (ascii "10.0.0.2") 8080 pkt))
                  ∧ cstr (reqArgs pkt).ident = List.replicate 30 97
                  ∧ (reqArgs pkt).chunkHash = Sharing.digestX ++ [0]
                  ∧ (reqArgs pkt).fileOffset.toNat = 1 := by
  obtain ⟨s, hstart⟩ := Sharing.twoParts_starts
  obtain ⟨_, _, hshares⟩ := hstart.shares false
  refine ⟨s.peers false, hshares.file, ?_⟩
  intro buffer hbuffer
  have hchunk : (⟨Sharing.digestX, 1, 1, none⟩ : Chunk) ∈ Sharing.twoParts.chunks :=
    List.mem_cons_of_mem _ List.mem_cons_self
  have hending : ∀ c ∈ [newline], isspace c = true := forall_mem_of_all (by decide)
  have hident : secondPartLine.ident.take 20 = (cstr longIdent).take 20 := by decide +kernel
  have hroom : (secondPartLine.text [newline]).length + IDENT_SIZE ≤ MAX_COMMAND_SIZE := by decide +kernel
  obtain ⟨_, _, pkt, hanswer, _, hargs, hhash, hoffset, _⟩ :=
    fetch_line_requests secondPartLine hending hbuffer hroom
      (show everyPeer secondPartLine.ip secondPartLine.port = true from rfl) hshares
      Sharing.twoParts_distinct (show 2 < 2 ^ 32 by decide) hident hchunk rfl rfl []
  exact ⟨pkt, hanswer, hargs, hhash, hoffset⟩

end Requests

end Btide
