import Btide.Net.Download
import Btide.Net.FullFile
import Btide.Net.Receive
import Btide.Net.SwarmRuns

/-!
This module contains the loop of `handle_peers` over the packets of a connection and what is left of a
package when any packets have come in.
-/

open Bytes CLib

namespace Btide

namespace handlePeers

/--
What a handler did with the packets that came in. A fault ends the program, and the thread exits after a
DSN.
-/
structure Handled where
  peer : Peer
  sent : List BtidePacket
  fault : Option Fault
  exits : Bool

def pong : BtidePacket where
  msgCode := PKT_MSG_POG
  error := 0
  pl := .zero

def handlePacket (peer : Peer) (buffer : BtidePacket) : Handled :=
  if buffer.msgCode = PKT_MSG_DSN then
    { peer, sent := [], fault := none, exits := true }
  else if buffer.msgCode = PKT_MSG_PNG then
    { peer, sent := [pong], fault := none, exits := false }
  else if buffer.msgCode = PKT_MSG_POG then
    { peer, sent := [], fault := none, exits := false }
  else if buffer.msgCode = PKT_MSG_REQ then
    let answer := handleReq peer.packages peer.files buffer
    { peer := { peer with packages := answer.packages }
      sent := answer.sent
      fault := answer.fault
      exits := false }
  else if buffer.msgCode = PKT_MSG_RES then
    match handleRes peer.packages peer.files buffer with
    | .ok files => { peer := { peer with files }, sent := [], fault := none, exits := false }
    | .error e => { peer, sent := [], fault := some e, exits := false }
  else
    -- a strange message
    { peer, sent := [], fault := none, exits := false }

def loop (peer : Peer) : List BtidePacket → Handled
  | [] => { peer, sent := [], fault := none, exits := false }
  | buffer :: rest =>
    let turn := handlePacket peer buffer
    if turn.exits || turn.fault.isSome then
      turn
    else
      let later := loop turn.peer rest
      { later with sent := turn.sent ++ later.sent }

theorem loop_nil (peer : Peer) : loop peer [] = { peer, sent := [], fault := none, exits := false } := rfl

theorem loop_cons (peer : Peer) (buffer : BtidePacket) (rest : List BtidePacket)
    : loop peer (buffer :: rest)
        =
      if (handlePacket peer buffer).exits || (handlePacket peer buffer).fault.isSome then
        handlePacket peer buffer
      else
        { loop (handlePacket peer buffer).peer rest with
          sent := (handlePacket peer buffer).sent ++ (loop (handlePacket peer buffer).peer rest).sent } := rfl

theorem loop_dispatched (peer : Peer) (segs : List Bytes)
    : loop peer (dispatched segs)
        =
      loop peer (segs.map fun seg => BtidePacket.ofBuffer (recvBuffer seg)) := by
  induction segs generalizing peer with
  | nil => rfl
  | cons seg segs ih =>
    rw [List.map_cons, loop_cons, dispatched]
    dsimp only
    split
    . next hdsn =>
      rw [loop_cons]
      simp only [handlePacket, hdsn, ↓reduceIte, Bool.true_or]
    . rw [loop_cons, ih]

def IsStrange (code : UInt16) : Prop :=
  code ≠ PKT_MSG_DSN ∧ code ≠ PKT_MSG_PNG ∧ code ≠ PKT_MSG_POG ∧ code ≠ PKT_MSG_REQ ∧ code ≠ PKT_MSG_RES

inductive Does (peer : Peer) (buffer : BtidePacket) : Handled → Prop where
  | dsn (hcode : buffer.msgCode = PKT_MSG_DSN) : Does peer buffer ⟨peer, [], none, true⟩
  | png (hcode : buffer.msgCode = PKT_MSG_PNG) : Does peer buffer ⟨peer, [pong], none, false⟩
  | pog (hcode : buffer.msgCode = PKT_MSG_POG) : Does peer buffer ⟨peer, [], none, false⟩
  | req (hcode : buffer.msgCode = PKT_MSG_REQ)
    : Does peer buffer ⟨{ peer with packages := (handleReq peer.packages peer.files buffer).packages },
        (handleReq peer.packages peer.files buffer).sent,
        (handleReq peer.packages peer.files buffer).fault, false⟩
  | res {files : FileSystem} (hcode : buffer.msgCode = PKT_MSG_RES)
      (hfiles : handleRes peer.packages peer.files buffer = .ok files)
    : Does peer buffer ⟨{ peer with files }, [], none, false⟩
  | crash {e : Fault} (hcode : buffer.msgCode = PKT_MSG_RES)
      (hfault : handleRes peer.packages peer.files buffer = .error e)
    : Does peer buffer ⟨peer, [], some e, false⟩
  | strange (hcode : IsStrange buffer.msgCode) : Does peer buffer ⟨peer, [], none, false⟩

theorem handlePacket_does (peer : Peer) (buffer : BtidePacket)
    : Does peer buffer (handlePacket peer buffer) := by
  unfold handlePacket
  split
  . next hdsn => exact .dsn hdsn
  . next hdsn =>
    split
    . next hpng => exact .png hpng
    . next hpng =>
      split
      . next hpog => exact .pog hpog
      . next hpog =>
        split
        . next hreq => exact .req hreq
        . next hreq =>
          split
          . next hres =>
            cases hfiles : handleRes peer.packages peer.files buffer with
            | ok files => exact .res hres hfiles
            | error e => exact .crash hres hfiles
          . next hres => exact .strange ⟨hdsn, hpng, hpog, hreq, hres⟩

end handlePeers

open handlePeers

namespace Peer.Shares

variable {peer : Peer} {pkg : Package} {ident name content : Bytes} {slot : Nat} {bpkg : BpkgObj}

theorem handleRes (h : peer.Shares pkg ident name content slot bpkg) {pkt : BtidePacket}
    {files : FileSystem} (hres : handlePeers.handleRes peer.packages peer.files pkt = .ok files)
    : ∃ content',
        { peer with files }.Shares pkg ident name content' slot bpkg
          ∧ ∀ chunk ∈ pkg.chunks,
              chunk.hash ≠ cstr (resArgs pkt).chunkHash
                →
              slice content' chunk.offset.toNat chunk.size.toNat
                =
              slice content chunk.offset.toNat chunk.size.toNat := by
  rcases handleRes_cases h hres with hfile | ⟨_, _, ⟨chunk, hchunk, hhash, hlo, hhi⟩, hin, data, _, hlen, hfile⟩
  . exact ⟨content, { h with file := hfile }, fun _ _ _ => rfl⟩
  . have htake : (data.take (rangeOf pkt).2).length = (rangeOf pkt).2 := by
      rw [List.length_take]
      exact Nat.min_eq_left hlen
    have hlength : (splice content (rangeOf pkt).1 (data.take (rangeOf pkt).2)).length = pkg.length := by
      rw [length_splice (by omega), h.length_content]
    refine ⟨_, { h with file := hfile, length_content := hlength }, ?_⟩
    intro other hother hne
    cases pkg.tiles.eq_or_apart hchunk hother with
    | inl heq =>
      rw [heq] at hne
      exact absurd hhash hne
    | inr hapart =>
      apply slice_splice_disjoint (by omega)
      omega

theorem handlePacket (h : peer.Shares pkg ident name content slot bpkg) (buffer : BtidePacket)
    : ∃ content' bpkg',
        (handlePeers.handlePacket peer buffer).peer.Shares pkg ident name content' slot bpkg'
          ∧ ∀ chunk ∈ pkg.chunks,
              (buffer.msgCode = PKT_MSG_RES → chunk.hash ≠ cstr (resArgs buffer).chunkHash)
                →
              slice content' chunk.offset.toNat chunk.size.toNat
                =
              slice content chunk.offset.toNat chunk.size.toNat := by
  have hdoes := handlePacket_does peer buffer
  generalize handlePeers.handlePacket peer buffer = turn at hdoes ⊢
  cases hdoes with
  | req hcode =>
    rcases handleReq_packages peer.packages peer.files buffer with
      heq | ⟨i, other, other', hslot, hcompute, heq⟩
    . rw [heq]
      exact ⟨content, bpkg, h, fun _ _ _ => rfl⟩
    . rw [heq]
      obtain ⟨bpkg', hshares⟩ := h.set hslot hcompute
      exact ⟨content, bpkg', hshares, fun _ _ _ => rfl⟩
  | res hcode hfiles =>
    obtain ⟨content', hshares, hframe⟩ := h.handleRes hfiles
    exact ⟨content', bpkg, hshares, fun chunk hchunk hne => hframe chunk hchunk (hne hcode)⟩
  | dsn => exact ⟨content, bpkg, h, fun _ _ _ => rfl⟩
  | png => exact ⟨content, bpkg, h, fun _ _ _ => rfl⟩
  | pog => exact ⟨content, bpkg, h, fun _ _ _ => rfl⟩
  | crash => exact ⟨content, bpkg, h, fun _ _ _ => rfl⟩
  | strange => exact ⟨content, bpkg, h, fun _ _ _ => rfl⟩

theorem loop (h : peer.Shares pkg ident name content slot bpkg) (pkts : List BtidePacket)
    : ∃ content' bpkg',
        (handlePeers.loop peer pkts).peer.Shares pkg ident name content' slot bpkg'
          ∧ ∀ chunk ∈ pkg.chunks,
              (∀ pkt ∈ pkts, pkt.msgCode = PKT_MSG_RES → chunk.hash ≠ cstr (resArgs pkt).chunkHash)
                →
              slice content' chunk.offset.toNat chunk.size.toNat
                =
              slice content chunk.offset.toNat chunk.size.toNat := by
  induction pkts generalizing peer content bpkg with
  | nil => exact ⟨content, bpkg, h, fun _ _ _ => rfl⟩
  | cons buffer rest ih =>
    obtain ⟨content', bpkg', hturn, hframe⟩ := h.handlePacket buffer
    obtain ⟨content'', bpkg'', hlater, hframe'⟩ := ih hturn
    rw [loop_cons]
    split
    . refine ⟨content', bpkg', hturn, ?_⟩
      intro chunk hchunk hne
      exact hframe chunk hchunk (hne buffer List.mem_cons_self)
    . refine ⟨content'', bpkg'', hlater, ?_⟩
      intro chunk hchunk hne
      rw [List.forall_mem_cons] at hne
      rw [hframe' chunk hchunk hne.2, hframe chunk hchunk hne.1]

end Peer.Shares

/--
Whatever packets come in, the queries behind them tell what the data file is like then, and a chunk that
none of them names keeps its bytes.
-/
theorem handlePeers.loop_reports {peer : Peer} {pkg : Package} {ident name content : Bytes} {slot : Nat}
    {bpkg : BpkgObj} (h : peer.Shares pkg ident name content slot bpkg) (pkts : List BtidePacket)
    : ∃ content' bpkg',
        (loop peer pkts).peer.packages[slot]? = some (some bpkg')
          ∧ (loop peer pkts).peer.files name = some content'
          ∧ content'.length = pkg.length
          ∧ (∃ qry bpkg'',
              bpkgGetCompletedChunks (loop peer pkts).peer.files bpkg' = .ok (qry, bpkg'')
                ∧ qry.hashes.hashes.Perm (completed content' pkg.chunks))
          ∧ (0 < pkg.hashes.length
              →
            (pkg.hashes ++ pkg.chunks.map Chunk.hash).Nodup
              →
            ∃ qry bpkg'' tree,
              bpkgGetMinCompletedHashes (loop peer pkts).peer.files bpkg' = .ok (qry, bpkg'')
                ∧ bpkg''.tree = some tree
                ∧ (qry.hashes.hashes.head? = some tree.root.info.value
                    ↔
                  ∀ chunk ∈ pkg.chunks, chunk.complete content' = true))
          ∧ ∀ chunk ∈ pkg.chunks,
              (∀ pkt ∈ pkts, pkt.msgCode = PKT_MSG_RES → chunk.hash ≠ cstr (resArgs pkt).chunkHash)
                →
              (chunk.complete content' = true ↔ chunk.complete content = true) := by
  obtain ⟨content', bpkg', hshares, hframe⟩ := h.loop pkts
  have hname : stripWhitespace bpkg'.filename = .ok (some name) := by
    rw [hshares.filename_eq]
    exact hshares.stripped
  refine ⟨content', bpkg', hshares.slot_eq, hshares.file, hshares.length_content,
    hshares.loaded.completedChunks hname hshares.file hshares.length_content, ?_, ?_⟩
  . intro hpos hnodup
    exact hshares.loaded.minCompleted hpos hnodup hname hshares.file hshares.length_content
  . intro chunk hchunk hne
    rw [Chunk.complete_iff, Chunk.complete_iff, hframe chunk hchunk hne, hshares.length_content,
      h.length_content]

theorem handlePeers.loop_reports_two
    : ∃ (peer : Peer) (content : Bytes) (bpkg : BpkgObj),
        peer.files (ascii "f") = some (ascii "cc")
          ∧ (loop peer [pong, ⟨PKT_MSG_RES, 0, .zero⟩, ⟨PKT_MSG_DSN, 0, .zero⟩]).peer.packages[0]?
              =
            some (some bpkg)
          ∧ ∃ qry bpkg',
              bpkgGetCompletedChunks
                  (loop peer [pong, ⟨PKT_MSG_RES, 0, .zero⟩, ⟨PKT_MSG_DSN, 0, .zero⟩]).peer.files bpkg
                =
              .ok (qry, bpkg')
                ∧ qry.hashes.hashes.Perm (completed content Swarm.twoBytes.chunks) := by
  obtain ⟨bpkg, hshares⟩ := @Package.exists_shares Swarm.twoBytes (by decide) (ascii "cc") rfl
  obtain ⟨content, bpkg', hslot, _, _, hquery, _⟩ :=
    loop_reports hshares [pong, ⟨PKT_MSG_RES, 0, .zero⟩, ⟨PKT_MSG_DSN, 0, .zero⟩]
  exact ⟨_, content, bpkg', rfl, hslot, hquery⟩

end Btide
