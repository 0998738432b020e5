import Btide.Net.Connections
import Btide.Lib.Ledger

/-!
This module contains what the functions of `src/chk/helpers.c` do with the table of peers, and who
holds its entries.
-/

open Bytes

namespace Btide.Connections

def peerAt (peerArray : PeerArray) (i : Nat) : Option Peer :=
  peerArray[i]?.join

theorem peerAt_eq_some {peerArray : PeerArray} {i : Nat} {peer : Peer}
    : peerAt peerArray i = some peer ↔ peerArray[i]? = some (some peer) := by
  unfold peerAt
  rw [Option.join_eq_some_iff]

theorem peerAt_set {peerArray : PeerArray} {i : Nat} (h : i < peerArray.length) (entry : Option Peer)
    : peerAt (peerArray.set i entry) = Function.update (peerAt peerArray) i entry := by
  funext j
  unfold peerAt
  rw [List.getElem?_set]
  by_cases hij : i = j
  . subst hij
    rw [Function.update_self]
    simp [h]
  . rw [Function.update_of_ne (Ne.symm hij)]
    simp [hij]

theorem lt_length_of_peerAt {peerArray : PeerArray} {i : Nat} {peer : Peer}
    (h : peerAt peerArray i = some peer) : i < peerArray.length := by
  rw [peerAt_eq_some] at h
  rw [List.getElem?_eq_some_iff] at h
  exact h.1

theorem isPeer_iff {addr : Addr} {entry : Option Peer}
    : isPeer addr entry = true ↔ ∃ peer, entry = some peer ∧ peer.addr = addr := by
  unfold isPeer
  cases entry with
  | none => simp
  | some peer => simp

theorem firstPeer_eq_some {addr : Addr} {peerArray : PeerArray} {peer : Peer}
    (h : firstPeer addr peerArray = some peer)
    : peer.addr = addr ∧ ∃ i, peerAt peerArray i = some peer := by
  unfold firstPeer at h
  rw [Option.join_eq_some_iff] at h
  have hmem := List.mem_of_find?_eq_some h
  have hpeer := List.find?_some h
  rw [isPeer_iff] at hpeer
  obtain ⟨peer', heq, haddr⟩ := hpeer
  simp only [Option.some.injEq] at heq
  subst heq
  obtain ⟨i, hi⟩ := List.mem_iff_getElem?.mp hmem
  exact ⟨haddr, i, peerAt_eq_some.mpr hi⟩

theorem firstPeer_eq_none {addr : Addr} {peerArray : PeerArray} (h : firstPeer addr peerArray = none)
    {i : Nat} {peer : Peer} (hi : peerAt peerArray i = some peer) : peer.addr ≠ addr := by
  intro haddr
  rw [peerAt_eq_some] at hi
  have hmem := List.mem_iff_getElem?.mpr ⟨i, hi⟩
  cases hfind : peerArray.find? (isPeer addr) with
  | none =>
    rw [List.find?_eq_none] at hfind
    apply hfind _ hmem
    rw [isPeer_iff]
    exact ⟨peer, rfl, haddr⟩
  | some entry =>
    have hentry := List.find?_some hfind
    rw [isPeer_iff] at hentry
    obtain ⟨peer', heq, -⟩ := hentry
    unfold firstPeer at h
    rw [hfind, heq] at h
    simp at h

theorem inArray_eq_false {addr : Addr} {peerArray : PeerArray} (h : inArray addr peerArray = false)
    {i : Nat} {peer : Peer} (hi : peerAt peerArray i = some peer) : peer.addr ≠ addr := by
  unfold inArray at h
  simp only [Option.isSome_eq_false_iff, Option.isNone_iff_eq_none] at h
  apply firstPeer_eq_none h hi

theorem findIdx?_isPeer {peerArray : PeerArray} {i : Nat} {peer : Peer}
    (hunique : ∀ j peer', peerAt peerArray j = some peer' → peer'.addr = peer.addr → j = i)
    (hi : peerAt peerArray i = some peer)
    : peerArray.findIdx? (isPeer peer.addr) = some i := by
  rw [List.findIdx?_eq_some_iff_getElem]
  have hi' := hi
  rw [peerAt_eq_some, List.getElem?_eq_some_iff] at hi'
  obtain ⟨hlt, hget⟩ := hi'
  refine ⟨hlt, ?_, ?_⟩
  . rw [hget, isPeer_iff]
    exact ⟨peer, rfl, rfl⟩
  . intro j hji hpeer
    rw [isPeer_iff] at hpeer
    obtain ⟨peer', hget', haddr⟩ := hpeer
    have hj : j = i := by
      apply hunique j peer' _ haddr
      rw [peerAt_eq_some, List.getElem?_eq_getElem (by omega), hget']
    omega

theorem peerAt_removeFromArray {peerArray : PeerArray} {i : Nat} {peer : Peer}
    (hunique : ∀ j peer', peerAt peerArray j = some peer' → peer'.addr = peer.addr → j = i)
    (hi : peerAt peerArray i = some peer)
    : peerAt (removeFromArray peer.addr peerArray) = Function.update (peerAt peerArray) i none := by
  unfold removeFromArray
  rw [findIdx?_isPeer hunique hi]
  apply peerAt_set (lt_length_of_peerAt hi)

theorem peerAt_of_removeFromArray {addr : Addr} {peerArray : PeerArray} {i : Nat} {peer : Peer}
    (h : peerAt (removeFromArray addr peerArray) i = some peer)
    : peerAt peerArray i = some peer := by
  unfold removeFromArray at h
  split at h
  . next j hfind =>
    rw [List.findIdx?_eq_some_iff_getElem] at hfind
    rw [peerAt_set hfind.1] at h
    by_cases hij : i = j
    . subst hij
      rw [Function.update_self] at h
      simp at h
    . rw [Function.update_of_ne hij] at h
      exact h
  . exact h

theorem peerAt_setThreadId {peerArray : PeerArray} {i : Nat} {peer : Peer} (threadId : Nat)
    (hunique : ∀ j peer', peerAt peerArray j = some peer' → peer'.addr = peer.addr → j = i)
    (hi : peerAt peerArray i = some peer)
    : peerAt (setThreadId peer.addr threadId peerArray)
        =
      Function.update (peerAt peerArray) i (some { peer with threadId := some threadId }) := by
  unfold setThreadId
  rw [findIdx?_isPeer hunique hi]
  have hi' := hi
  rw [peerAt_eq_some] at hi'
  funext j
  unfold peerAt
  rw [List.getElem?_modify]
  by_cases hij : i = j
  . subst hij
    rw [Function.update_self, hi']
    simp
  . rw [Function.update_of_ne (Ne.symm hij)]
    simp [hij]

theorem peerAt_of_setThreadId {addr : Addr} {threadId i : Nat} {peerArray : PeerArray} {peer : Peer}
    (h : peerAt (setThreadId addr threadId peerArray) i = some peer)
    : peerAt peerArray i = some peer ∨ peer.addr = addr ∧ peer.threadId = some threadId := by
  unfold setThreadId at h
  split at h
  . next j hfind =>
    rw [List.findIdx?_eq_some_iff_getElem] at hfind
    obtain ⟨hlt, hpeer, -⟩ := hfind
    obtain ⟨old, hold, haddr⟩ := isPeer_iff.mp hpeer
    unfold peerAt at h ⊢
    rw [List.getElem?_modify] at h
    by_cases hji : j = i
    . subst hji
      rw [List.getElem?_eq_getElem hlt, hold] at h
      simp only [↓reduceIte, Option.map_eq_map, Option.map_some, Option.join_some,
        Option.some.injEq] at h
      rw [← h]
      exact .inr ⟨haddr, rfl⟩
    . simp only [hji, ↓reduceIte, Option.map_eq_map, Option.map_id_fun', id_eq] at h
      exact .inl h
  . exact .inl h

theorem map_peerAt_setThreadId {α : Type} {f : Peer → α}
    (hf : ∀ peer threadId, f { peer with threadId := threadId } = f peer) (addr : Addr)
    (threadId : Nat) (peerArray : PeerArray) (i : Nat)
    : (peerAt (setThreadId addr threadId peerArray) i).map f = (peerAt peerArray i).map f := by
  unfold setThreadId
  split
  . next j _ =>
    unfold peerAt
    rw [List.getElem?_modify]
    by_cases hji : j = i
    . simp only [hji, ↓reduceIte]
      cases peerArray[i]? with
      | none => rfl
      | some entry =>
        cases entry with
        | none => rfl
        | some peer => simp [hf]
    . simp [hji]
  . rfl

theorem addToArray_cases {addr : Addr} {fd : Int} {memory : Bool} {peerArray peerArray' : PeerArray}
    {ret : Int} (h : addToArray addr fd memory peerArray = (peerArray', ret))
    : (ret = 1 ∧ memory = true ∧ none ∈ peerArray
        ∧ ∃ i, peerAt peerArray i = none
          ∧ peerAt peerArray'
              = Function.update (peerAt peerArray) i (some { addr, socketFd := fd, threadId := none }))
        ∨ (ret ≠ 1 ∧ peerArray' = peerArray) := by
  unfold addToArray at h
  split at h
  . next i hfind =>
    split at h
    . next hmemory =>
      simp only [Prod.mk.injEq] at h
      rw [List.findIdx?_eq_some_iff_getElem] at hfind
      obtain ⟨hlt, hnone, -⟩ := hfind
      rw [Option.isNone_iff_eq_none] at hnone
      refine .inl ⟨h.2.symm, hmemory, ?_, i, ?_, ?_⟩
      . rw [← hnone]
        apply List.getElem_mem
      . unfold peerAt
        rw [List.getElem?_eq_getElem hlt, hnone]
        rfl
      . rw [← h.1]
        apply peerAt_set hlt
    . simp only [Prod.mk.injEq] at h
      refine .inr ⟨?_, h.1.symm⟩
      omega
  . simp only [Prod.mk.injEq] at h
    refine .inr ⟨?_, h.1.symm⟩
    omega

theorem peerAt_of_addToArray {addr : Addr} {fd ret : Int} {memory : Bool}
    {peerArray peerArray' : PeerArray} (h : addToArray addr fd memory peerArray = (peerArray', ret))
    {i : Nat} {peer : Peer} (hpeer : peerAt peerArray' i = some peer)
    : peerAt peerArray i = some peer ∨ peer.threadId = none := by
  obtain ⟨-, -, -, j, -, hpeers⟩ | ⟨-, hpeers⟩ := addToArray_cases h
  . rw [hpeers] at hpeer
    by_cases hij : i = j
    . subst hij
      rw [Function.update_self] at hpeer
      simp only [Option.some.injEq] at hpeer
      rw [← hpeer]
      exact .inr rfl
    . rw [Function.update_of_ne hij] at hpeer
      exact .inl hpeer
  . rw [← hpeers]
    exact .inl hpeer

inductive Holder where
  | main
  | listener
  | handler (thread : Nat)
  deriving DecidableEq

def MainPc.holding : MainPc → Holding Addr Int
  | .shakingHands _ sock => .resource sock
  | .adding _ sock => .resource sock
  | .assigning addr sock => .entry addr sock
  | .dropping _ sock _ => .resource sock
  | _ => .nothing

def ListenerPc.holding : ListenerPc → Holding Addr Int
  | .accepting => .nothing
  | .greeting _ newSocket => .resource newSocket
  | .awaitingAck _ newSocket true => .resource newSocket
  | .awaitingAck _ _ false => .nothing
  | .adding _ newSocket => .resource newSocket
  | .assigning addr newSocket => .entry addr newSocket
  | .dropping newSocket => .resource newSocket

def HandlerPc.holding (addr : Addr) (fd : Int) : HandlerPc → Holding Addr Int
  | .running => .entry addr fd
  | .removing _ => .entry addr fd
  | .closing _ => .resource fd
  | .resetting _ => .nothing
  | .exited => .nothing

def Handler.holding (h : Handler) : Holding Addr Int :=
  h.pc.holding h.addr h.clientSocketFd

namespace State

def holding (s : State) : Holder → Holding Addr Int
  | .main => s.main.holding
  | .listener => s.listener.holding
  | .handler thread =>
    match s.handlers[thread]? with
    | some h => h.holding
    | none => .nothing

def ledger (s : State) : Ledger Holder Addr Int Nat where
  table i := (peerAt s.peerArray i).map fun peer => (peer.addr, peer.socketFd)
  isOpen fd := fd ∈ s.sockets
  holding := s.holding

theorem table_eq_some {s : State} {i : Nat} {addr : Addr} {fd : Int}
    : s.ledger.table i = some (addr, fd)
        ↔
      ∃ peer, peerAt s.peerArray i = some peer ∧ peer.addr = addr ∧ peer.socketFd = fd := by
  simp [ledger]

theorem holding_of_main {s s' : State} (hlistener : s'.listener = s.listener)
    (hhandlers : s'.handlers = s.handlers)
    : s'.holding = Function.update s.holding .main s'.main.holding := by
  funext p
  cases p with
  | main => rw [Function.update_self, holding]
  | listener => rw [Function.update_of_ne (by simp), holding, holding, hlistener]
  | handler thread => rw [Function.update_of_ne (by simp), holding, holding, hhandlers]

theorem holding_of_listener {s s' : State} (hmain : s'.main = s.main)
    (hhandlers : s'.handlers = s.handlers)
    : s'.holding = Function.update s.holding .listener s'.listener.holding := by
  funext p
  cases p with
  | main => rw [Function.update_of_ne (by simp), holding, holding, hmain]
  | listener => rw [Function.update_self, holding]
  | handler thread => rw [Function.update_of_ne (by simp), holding, holding, hhandlers]

theorem holding_of_handler {s s' : State} {thread : Nat} {h : Handler}
    (hget : s.handlers[thread]? = some h) (pc : HandlerPc) (hmain : s'.main = s.main)
    (hlistener : s'.listener = s.listener)
    (hhandlers : s'.handlers = s.handlers.set thread { h with pc })
    : s'.holding
        =
      Function.update s.holding (.handler thread) (pc.holding h.addr h.clientSocketFd) := by
  funext p
  cases p with
  | main => rw [Function.update_of_ne (by simp), holding, holding, hmain]
  | listener => rw [Function.update_of_ne (by simp), holding, holding, hlistener]
  | handler other =>
    rw [List.getElem?_eq_some_iff] at hget
    by_cases hother : other = thread
    . subst hother
      rw [Function.update_self, holding, hhandlers, List.getElem?_set_self hget.1]
      rfl
    . rw [Function.update_of_ne (by simp [hother]), holding, holding, hhandlers,
        List.getElem?_set_ne (Ne.symm hother)]

theorem holding_of_started {s s' : State} {p : Holder} {addr : Addr} {fd : Int} {threadId : Nat}
    (hhandlers : s'.handlers
        = s.handlers ++ [{ addr, clientSocketFd := fd, threadId, pc := .running }])
    (hstarter : ∀ thread, p ≠ .handler thread)
    (hmain : s'.main.holding = Function.update s.holding p .nothing .main)
    (hlistener : s'.listener.holding = Function.update s.holding p .nothing .listener)
    : s'.holding
        =
      Function.update (Function.update s.holding p .nothing) (.handler s.handlers.length)
        (.entry addr fd) := by
  funext q
  cases q with
  | main => rw [Function.update_of_ne (by simp), holding, hmain]
  | listener => rw [Function.update_of_ne (by simp), holding, hlistener]
  | handler thread =>
    by_cases hnew : thread = s.handlers.length
    . subst hnew
      rw [Function.update_self, holding, hhandlers]
      simp [Handler.holding, HandlerPc.holding]
    . rw [Function.update_of_ne (by simp [hnew]), Function.update_of_ne (Ne.symm (hstarter thread)),
        holding, holding, hhandlers]
      by_cases hlt : thread < s.handlers.length
      . rw [List.getElem?_append_left hlt]
      . rw [List.getElem?_eq_none (by simp; omega), List.getElem?_eq_none (by omega)]

end State

end Btide.Connections
