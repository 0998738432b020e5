import Btide.Net.ConnectionThreads

/-!
This module contains what holds between two commands in every run of the threads that connect to
peers.
-/

open Bytes

namespace Btide.Connections

def MainPc.ready : MainPc → Bool
  | .idle _ => true
  | .fetching _ => true
  | .sendingReq _ _ => true
  | _ => false

def MainPc.connecting : MainPc → Option Addr
  | .dialing addr => some addr
  | .shakingHands addr _ => some addr
  | .adding addr _ => some addr
  | .assigning addr _ => some addr
  | .dropping addr _ _ => some addr
  | _ => none

namespace State

def Quiescent (s : State) : Prop :=
  s.main.ready = true ∧ s.listener = .accepting
    ∧ ∀ h ∈ s.handlers, h.pc = .running ∨ h.pc = .exited

structure HasHandler (s : State) (peer : Peer) : Prop where
  socket : peer.socketFd ∈ s.sockets
  handler : ∃ (thread : Nat) (h : Handler),
    s.handlers[thread]? = some h ∧ h.pc = .running ∧ h.addr = peer.addr
      ∧ h.clientSocketFd = peer.socketFd ∧ peer.threadId = some h.threadId
      ∧ s.threadArray[h.threadId]? = some (some thread) ∧ s.threadStatusArray[h.threadId]? = some 1

structure AllServed (s : State) : Prop where
  hasHandler {i : Nat} {peer : Peer} (hpeer : peerAt s.peerArray i = some peer) : s.HasHandler peer
  threadId {i j : Nat} {peer peer' : Peer} (hpeer : peerAt s.peerArray i = some peer)
    (hpeer' : peerAt s.peerArray j = some peer') (h : peer.threadId = peer'.threadId) : i = j

def ConnectsServed (s : State) (action : Action) : Prop :=
  ∀ s' addr, Step s action s' → s.main.connecting = some addr → s'.main = .idle 1
    → ∃ i peer, peerAt s'.peerArray i = some peer ∧ peer.addr = addr ∧ s'.HasHandler peer

theorem Served.hasHandler {s : State} (hserved : s.Served) {thread i : Nat} {h : Handler}
    {peer : Peer} (hget : s.handlers[thread]? = some h) (hpc : h.pc = .running)
    (hpeer : peerAt s.peerArray i = some peer) (haddr : peer.addr = h.addr)
    (hfd : peer.socketFd = h.clientSocketFd) : s.HasHandler peer := by
  have hserves : h.pc.serves = true := by
    rw [hpc]
    rfl
  have hlive : h.pc ≠ .exited := by
    rw [hpc]
    simp
  obtain ⟨harray, hstatus⟩ := hserved.threads.live hget hlive
  constructor
  . apply hserved.balanced.opened (p := .handler thread)
    rw [Threads.holding_of_serves hget hserves, hfd]
    rfl
  . refine ⟨thread, h, hget, hpc, haddr.symm, hfd.symm, ?_, harray, hstatus⟩
    apply hserved.threads.served hget hserves hpeer haddr

theorem Served.allServed {s : State} (hserved : s.Served) (hquiescent : s.Quiescent)
    : s.AllServed := by
  obtain ⟨hmain, hlistener, hhandlers⟩ := hquiescent
  have hall : ∀ {i peer}, peerAt s.peerArray i = some peer → s.HasHandler peer := by
    intro i peer hpeer
    have hi : s.ledger.table i = some (peer.addr, peer.socketFd) := by
      rw [table_eq_some]
      exact ⟨peer, hpeer, rfl, rfl⟩
    obtain ⟨p, hp⟩ := hserved.balanced.held hi
    cases p with
    | main =>
      simp only [ledger, holding] at hp
      cases hpc : s.main with
      | _ =>
        rw [hpc] at hmain hp
        simp [MainPc.ready, MainPc.holding] at hmain hp
    | listener =>
      simp [ledger, holding, hlistener, ListenerPc.holding] at hp
    | handler thread =>
      simp only [ledger, holding] at hp
      split at hp
      . next h hget =>
        cases hhandlers h (List.mem_of_getElem? hget) with
        | inl hpc =>
          simp only [Handler.holding, HandlerPc.holding, hpc, Holding.entry.injEq] at hp
          apply hserved.hasHandler hget hpc hpeer hp.1.symm hp.2.symm
        | inr hpc => simp [Handler.holding, HandlerPc.holding, hpc] at hp
      . simp at hp
  refine ⟨hall, ?_⟩
  intro i j peer peer' hpeer hpeer' hid
  obtain ⟨-, t, h, hget, hpc, haddr, hfd, hslot, harray, -⟩ := hall hpeer
  obtain ⟨-, t', h', hget', hpc', haddr', hfd', hslot', harray', -⟩ := hall hpeer'
  -- one slot has one thread, and this thread serves one peer
  have hthread : t = t' := by
    apply hserved.threads.thread_eq hget hget'
    . simp [hpc]
    . simp [hpc']
    . rw [hslot, hslot'] at hid
      simpa using hid
  subst hthread
  rw [hget] at hget'
  simp only [Option.some.injEq] at hget'
  subst hget'
  apply hserved.balanced.keys (k := h.addr)
  . rw [table_eq_some]
    exact ⟨peer, hpeer, haddr.symm, rfl⟩
  . rw [table_eq_some]
    exact ⟨peer', hpeer', haddr'.symm, rfl⟩

end State

open State

/--
In every run in which each thread that registers a peer finds a free thread slot, no address is
registered twice and the listener does not fall back to a connection, every connected peer has its own
handler.
-/
theorem all_served {maxPeers : Nat} {s : State} (hrun : Run Step Orderly (init maxPeers) s)
    : (s.Quiescent → s.AllServed) ∧ ∀ action, s.Orderly action → s.ConnectsServed action := by
  have hserved := run_served hrun
  refine ⟨hserved.allServed, ?_⟩
  intro action horderly s' addr hstep hconnecting hret
  have hserved' := step_served hserved horderly hstep
  unfold Step step at hstep
  cases action with
  | main action =>
    cases mainStep_cases hstep with
    | @assignThread addr' sock created threadId hpc hlock hfind =>
      rw [hpc] at hconnecting
      simp only [MainPc.connecting, Option.some.injEq] at hconnecting
      subst hconnecting
      rw [horderly.2] at hserved' ⊢
      -- the new handler is the last one
      have hget : { s.startThread addr' sock threadId true with main := .idle 1 }.handlers[s.handlers.length]?
          = some { addr := addr', clientSocketFd := sock, threadId, pc := .running } := by
        apply List.getElem?_concat_length
      obtain ⟨i, hi⟩ := hserved'.balanced.listed (Threads.holding_of_serves hget rfl)
      obtain ⟨peer, hpeer, haddr, hfd⟩ := table_eq_some.mp hi
      exact ⟨i, peer, hpeer, haddr, hserved'.hasHandler hget rfl hpeer haddr hfd⟩
    | close hpc =>
      simp only [MainPc.idle.injEq] at hret
      have hfailed := hserved.dropping hpc
      omega
    | addToArray hpc hadd =>
      dsimp only at hret
      split at hret
      . simp at hret
      . simp at hret
    | connected hpc | connect hpc | noSocket hpc | socket hpc | unreachable hpc | refused hpc
    | accepted hpc | noThread hpc | disconnect hpc | unknown hpc | getFd hpc | fetchFd hpc
    | getThreadId hpc | sendDsn hpc | lockThreadStatus hpc | join hpc | fetch hpc | fetchUnknown hpc
    | giveUp hpc | sendReq hpc =>
      simp [hpc, MainPc.connecting] at hconnecting hret
  | listener action =>
    rw [(listenerStep_cases hstep).main_eq] at hret
    simp [hret, MainPc.connecting] at hconnecting
  | handler thread action =>
    dsimp only at hstep
    split at hstep
    . rw [(handlerStep_cases hstep).main_eq] at hret
      simp [hret, MainPc.connecting] at hconnecting
    . simp at hstep

/--
One peer is accepted while the client connects to another one.
-/
theorem all_served_two
    : ∃ s : State,
        s.peerArray
            =
          [some { addr := ⟨[49], 50000⟩, socketFd := 4, threadId := some 0 },
            some { addr := ⟨[50], 9000⟩, socketFd := 5, threadId := some 1 }]
          ∧ s.AllServed := by
  have hexec : Run.exec step Orderly (init 2)
      [.listener (.accept ⟨[49], 50000⟩ (some 4)), .listener (.sendAcp true),
        .listener (.recvAck .ack), .main (.connect ⟨[50], 9000⟩), .listener (.addToArray true),
        .main (.socket (some 5)), .listener (.assignThread true), .main (.shakeHands .accepted),
        .main (.addToArray true), .main (.assignThread true)]
      = some
        { peerArray :=
            [some { addr := ⟨[49], 50000⟩, socketFd := 4, threadId := some 0 },
              some { addr := ⟨[50], 9000⟩, socketFd := 5, threadId := some 1 }]
          peerArrayLock := false
          threadStatusArray := [1, 1]
          threadStatusLock := false
          threadArray := [some 0, some 1]
          handlers :=
            [{ addr := ⟨[49], 50000⟩, clientSocketFd := 4, threadId := 0, pc := .running },
              { addr := ⟨[50], 9000⟩, clientSocketFd := 5, threadId := 1, pc := .running }]
          sockets := [5, 4]
          main := .idle 1
          listener := .accepting } := by
    decide
  exact ⟨_, rfl, (all_served (Run.of_exec hexec)).1 ⟨rfl, rfl, by decide⟩⟩

/--
A handler that has ended still occupies the only thread slot, so the next peer gets no handler although
`peer_connect` returns `1`.
-/
theorem all_served_fails
    : ¬ ∀ maxPeers, 0 < maxPeers → ∀ s, Run Step (fun _ _ => True) (init maxPeers) s →
        (s.Quiescent → s.AllServed) ∧ ∀ action, s.ConnectsServed action := by
  intro h
  have hexec : Run.exec step (fun _ _ => True) (init 1)
      [.listener (.accept ⟨[49], 50000⟩ (some 4)), .listener (.sendAcp true),
        .listener (.recvAck .ack), .listener (.addToArray true), .listener (.assignThread true),
        .handler 0 (.recv .closed), .handler 0 .removeFromArray, .handler 0 .close,
        .main (.connect ⟨[50], 9000⟩), .main (.socket (some 4)), .main (.shakeHands .accepted),
        .main (.addToArray true), .main (.assignThread true), .main .close, .handler 0 .resetStatus]
      = some
        { peerArray := [some { addr := ⟨[50], 9000⟩, socketFd := 4, threadId := none }]
          peerArrayLock := false
          threadStatusArray := [0]
          threadStatusLock := false
          threadArray := [some 0]
          handlers := [{ addr := ⟨[49], 50000⟩, clientSocketFd := 4, threadId := 0, pc := .exited }]
          sockets := []
          main := .idle 1
          listener := .accepting } := by
    decide
  obtain ⟨hall, -⟩ := h 1 (by decide) _ (Run.of_exec hexec)
  have hserved := hall ⟨rfl, rfl, by decide⟩
  have hsocket := (hserved.hasHandler (i := 0) rfl).socket
  simp at hsocket

end Btide.Connections
