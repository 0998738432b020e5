import Btide.Lib.Handles
import Btide.Net.Connections
import Btide.Net.Packet

/-!
This module contains the loop of `listener` in `src/peer.c`: what one attempt of a peer to connect does to
the sockets.
-/

open HandleOp

namespace Btide

open Connections (Addr PeerArray addToArray)

namespace listener

/--
How the calls of one iteration end: what `accept`, `send` and `recv` return, the packet that is received,
the table in front of `add_to_array`, whether `malloc` succeeds and whether a thread slot is free.
-/
structure Attempt where
  addr : Addr
  accepted : Int
  sent : Int
  received : Option BtidePacket
  peerArray : PeerArray
  memory : Bool
  freeSlot : Bool

structure Iteration where
  ops : List (HandleOp Int)
  registered : Bool

def assignThread (newSocket : Int) (freeSlot : Bool) : List (HandleOp Int) :=
  if freeSlot then [] else [.release newSocket]

def register (a : Attempt) (newSocket : Int) : Iteration :=
  let (_, ret) := addToArray a.addr newSocket a.memory a.peerArray
  if ret = 0 then
    { ops := [.release newSocket], registered := false }
  else if ret = -1 then
    { ops := [.release newSocket], registered := false }
  else
    { ops := assignThread newSocket a.freeSlot, registered := true }

/--
A `send` or `recv` of the handshake with the value of `new_socket` behind it. A failure closes the socket
and goes on with the descriptor 0.
-/
def exchange (newSocket : Int) (failed : Bool) : List (HandleOp Int) × Int :=
  if failed then ([.use newSocket, .release newSocket], 0) else ([.use newSocket], newSocket)

def serve (a : Attempt) : Iteration :=
  -- a failed accept is only reported
  let opened : List (HandleOp Int) := if a.accepted < 0 then [] else [.acquire a.accepted]
  let (greeting, newSocket) := exchange a.accepted (a.sent ≤ 0)
  let (answer, newSocket) := exchange newSocket a.received.isNone
  -- the packet was set to zero before recv
  let msgCode := (a.received.map BtidePacket.msgCode).getD 0
  let it :=
    if msgCode = PKT_MSG_ACK then
      register a newSocket
    else
      { ops := [], registered := false }
  { it with ops := opened ++ greeting ++ answer ++ it.ops }

end listener

def listener (attempts : List listener.Attempt) : List listener.Iteration :=
  attempts.map listener.serve

namespace listener

structure OwnSocket (accepted : Int) (it : Iteration) : Prop where
  own : ∀ op ∈ it.ops, op.handle = accepted
  once : it.ops.count (.release accepted) ≤ 1
  settled : ∃ s, run ∅ it.ops = some s ∧ (it.registered = true ∨ accepted ∉ s)

def OwnSockets (attempts : List Attempt) : Prop :=
  List.Forall₂ (fun a it => OwnSocket a.accepted it) attempts (listener attempts)

structure Orderly (a : Attempt) : Prop where
  accepted : 0 ≤ a.accepted
  sent : 0 < a.sent
  received : ∀ pkt, a.received = some pkt → pkt.msgCode = PKT_MSG_ACK

theorem register_cases (a : Attempt) (newSocket : Int)
    : register a newSocket = { ops := [.release newSocket], registered := false }
        ∨ register a newSocket = { ops := [.release newSocket], registered := true }
        ∨ register a newSocket = { ops := [], registered := true } := by
  unfold register assignThread
  generalize addToArray a.addr newSocket a.memory a.peerArray = res
  dsimp only
  split
  . exact .inl rfl
  . split
    . exact .inl rfl
    . split
      . exact .inr (.inr rfl)
      . exact .inr (.inl rfl)

theorem serve_of_orderly {a : Attempt} (h : Orderly a)
    : serve a =
          { ops := [.acquire a.accepted, .use a.accepted, .use a.accepted, .release a.accepted]
            registered := false }
        ∨ serve a =
          { register a a.accepted with
            ops := [.acquire a.accepted, .use a.accepted, .use a.accepted] ++ (register a a.accepted).ops } := by
  have hopen : ¬ a.accepted < 0 := Int.not_lt.mpr h.accepted
  have hsent : ¬ a.sent ≤ 0 := Int.not_le.mpr h.sent
  unfold serve exchange
  cases hreceived : a.received with
  | none =>
    have hzero : (0 : UInt16) ≠ PKT_MSG_ACK := by decide
    refine .inl ?_
    simp [hopen, hsent, hzero]
  | some pkt =>
    have hack := h.received pkt hreceived
    refine .inr ?_
    simp [hopen, hsent, hack]

theorem ownSocket_of_orderly {a : Attempt} (h : Orderly a) : OwnSocket a.accepted (serve a) := by
  rcases serve_of_orderly h with hserve | hserve
  . rw [hserve]
    refine ⟨by simp [handle], by simp, ∅, ?_, .inr (by simp)⟩
    simp [step]
  . rw [hserve]
    rcases register_cases a a.accepted with hregister | hregister | hregister
    all_goals rw [hregister]
    . refine ⟨by simp [handle], by simp, ∅, ?_, .inr (by simp)⟩
      simp [step]
    . refine ⟨by simp [handle], by simp, ∅, ?_, .inl rfl⟩
      simp [step]
    . refine ⟨by simp [handle], by simp, {a.accepted}, ?_, .inl rfl⟩
      simp [step]

theorem orderly_of_ownSocket {a : Attempt} (h : OwnSocket a.accepted (serve a)) : Orderly a := by
  obtain ⟨s, hrun, hsettled⟩ := h.settled
  unfold serve exchange at hrun hsettled
  -- without a descriptor the first operation is on one that is not open
  have haccepted : ¬ a.accepted < 0 := by
    intro hneg
    by_cases hsent : a.sent ≤ 0
    . simp [hneg, hsent, step] at hrun
    . cases hreceived : a.received with
      | none => simp [hneg, hsent, hreceived, step] at hrun
      | some pkt => simp [hneg, hsent, hreceived, step] at hrun
  -- behind a failed send the next one is on the descriptor 0
  have hsent : ¬ a.sent ≤ 0 := by
    intro hfailed
    cases hreceived : a.received with
    | none => simp [haccepted, hfailed, hreceived, step] at hrun
    | some pkt => simp [haccepted, hfailed, hreceived, step] at hrun
  refine ⟨Int.not_lt.mp haccepted, Int.not_le.mp hsent, ?_⟩
  intro pkt hreceived
  apply Classical.byContradiction
  intro hack
  simp [haccepted, hsent, hreceived, hack, step] at hrun hsettled
  rw [← hrun] at hsettled
  simp at hsettled

theorem listener_own_iff (attempts : List Attempt)
    : OwnSockets attempts ↔ ∀ a ∈ attempts, Orderly a := by
  unfold OwnSockets listener
  rw [List.forall₂_map_right_iff, List.forall₂_same]
  constructor
  . intro h a ha
    exact orderly_of_ownSocket (h a ha)
  . intro h a ha
    exact ownSocket_of_orderly (h a ha)

def localhost : Addr where
  ip := CLib.ascii "127.0.0.1"
  port := 7

theorem listener_own_fails
    : (listener [⟨localhost, 4, -1, none, [none], true, true⟩]).map (·.ops)
          =
        [[.acquire 4, .use 4, .release 4, .use 0, .release 0]]
        ∧ ¬ OwnSockets [⟨localhost, 4, -1, none, [none], true, true⟩]
        ∧ ¬ OwnSockets [⟨localhost, -1, -1, none, [none], true, true⟩]
        ∧ ¬ OwnSockets [⟨localhost, 4, 4096, some ⟨PKT_MSG_PNG, 0, .zero⟩, [none], true, true⟩] := by
  refine ⟨by decide, ?_, ?_, ?_⟩
  . rintro (_ | ⟨⟨hown, _, _⟩, _⟩)
    exact absurd (hown (.use 0) (by decide)) (by decide)
  . rintro (_ | ⟨⟨_, _, _, hrun, _⟩, _⟩)
    have hnone : run ∅ (serve ⟨localhost, -1, -1, none, [none], true, true⟩).ops = none := by decide
    rw [hnone] at hrun
    contradiction
  . rintro (_ | ⟨⟨_, _, s, hrun, hsettled⟩, _⟩)
    have hopen : run ∅ (serve ⟨localhost, 4, 4096, some ⟨PKT_MSG_PNG, 0, .zero⟩, [none], true, true⟩).ops
        = some {4} := by
      decide
    rw [hopen, Option.some.injEq] at hrun
    rw [← hrun] at hsettled
    exact absurd hsettled (by decide)

end listener
end Btide
