import Btide.Net.ConnectionSteps
import Btide.Lib.Transition

/-!
This module contains the proof that every connected peer has its own handler, as long as every thread
that registers a peer finds a free thread slot and no address is registered twice.
-/

open Bytes

namespace Btide.Connections

def HandlerPc.serves : HandlerPc → Bool
  | .running => true
  | .removing _ => true
  | _ => false

namespace State

structure Threads (s : State) : Prop where
  length : s.threadArray.length = s.threadStatusArray.length
  live {thread : Nat} {h : Handler} (hget : s.handlers[thread]? = some h) (hlive : h.pc ≠ .exited)
    : s.threadArray[h.threadId]? = some (some thread) ∧ s.threadStatusArray[h.threadId]? = some 1
  served {thread i : Nat} {h : Handler} {peer : Peer} (hget : s.handlers[thread]? = some h)
      (hserves : h.pc.serves = true) (hpeer : peerAt s.peerArray i = some peer)
      (haddr : peer.addr = h.addr)
    : peer.threadId = some h.threadId

namespace Threads

theorem holding_of_serves {s : State} {thread : Nat} {h : Handler}
    (hget : s.handlers[thread]? = some h) (hserves : h.pc.serves = true)
    : s.ledger.holding (.handler thread) = .entry h.addr h.clientSocketFd := by
  have hholds : s.ledger.holding (.handler thread) = h.holding := by
    simp only [ledger, holding, hget]
  rw [hholds]
  unfold HandlerPc.serves at hserves
  split at hserves
  . next hpc => simp only [Handler.holding, HandlerPc.holding, hpc]
  . next hpc => simp only [Handler.holding, HandlerPc.holding, hpc]
  . simp at hserves

theorem thread_eq {s : State} (hthreads : s.Threads) {t t' : Nat} {h h' : Handler}
    (hget : s.handlers[t]? = some h) (hget' : s.handlers[t']? = some h') (hlive : h.pc ≠ .exited)
    (hlive' : h'.pc ≠ .exited) (hslot : h.threadId = h'.threadId)
    : t = t' := by
  have hthread := (hthreads.live hget hlive).1
  have hthread' := (hthreads.live hget' hlive').1
  rw [hslot, hthread'] at hthread
  simp only [Option.some.injEq] at hthread
  exact hthread.symm

theorem of_peers {s s' : State} (hthreads : s.Threads) (hhandlers : s'.handlers = s.handlers)
    (harray : s'.threadArray = s.threadArray)
    (hstatus : s'.threadStatusArray = s.threadStatusArray)
    (hpeers : ∀ i peer, peerAt s'.peerArray i = some peer
      → peerAt s.peerArray i = some peer
        ∨ ∀ (thread : Nat) (h : Handler), s.handlers[thread]? = some h → h.pc.serves = true → peer.addr ≠ h.addr)
    : s'.Threads where
  length := by
    rw [harray, hstatus]
    exact hthreads.length
  live hget hlive := by
    rw [hhandlers] at hget
    rw [harray, hstatus]
    apply hthreads.live hget hlive
  served hget hserves hpeer haddr := by
    rw [hhandlers] at hget
    cases hpeers _ _ hpeer with
    | inl hold => apply hthreads.served hget hserves hold haddr
    | inr hnew => exact absurd haddr (hnew _ _ hget hserves)

theorem same {s s' : State} (hthreads : s.Threads) (hhandlers : s'.handlers = s.handlers)
    (harray : s'.threadArray = s.threadArray)
    (hstatus : s'.threadStatusArray = s.threadStatusArray) (hpeers : s'.peerArray = s.peerArray)
    : s'.Threads := by
  apply hthreads.of_peers hhandlers harray hstatus
  intro i peer hpeer
  rw [hpeers] at hpeer
  exact .inl hpeer

theorem add {s s' : State} {addr : Addr} {fd ret : Int} {memory : Bool} (hthreads : s.Threads)
    (hbalanced : s.ledger.Balanced)
    (hadd : Connections.addToArray addr fd memory s.peerArray = (s'.peerArray, ret))
    (hnew : s.AddsNew addr memory) (hhandlers : s'.handlers = s.handlers)
    (harray : s'.threadArray = s.threadArray)
    (hstatus : s'.threadStatusArray = s.threadStatusArray)
    : s'.Threads := by
  obtain ⟨-, hmemory, hroom, i, -, hpeers⟩ | ⟨-, hpeers⟩ := Connections.addToArray_cases hadd
  . apply hthreads.of_peers hhandlers harray hstatus
    intro j peer hpeer
    rw [hpeers] at hpeer
    by_cases hji : j = i
    . subst hji
      rw [Function.update_self] at hpeer
      simp only [Option.some.injEq] at hpeer
      subst hpeer
      refine .inr ?_
      intro thread h hget hserves haddr
      obtain ⟨k, hk⟩ := hbalanced.listed (holding_of_serves hget hserves)
      obtain ⟨peer, hpeer, haddr', -⟩ := table_eq_some.mp hk
      apply inArray_eq_false (hnew hmemory hroom) hpeer
      rw [haddr', ← haddr]
    . rw [Function.update_of_ne hji] at hpeer
      exact .inl hpeer
  . apply hthreads.same hhandlers harray hstatus hpeers

theorem reset {s s' : State} {threadId : Nat} (hthreads : s.Threads)
    (hended : ∀ (thread : Nat) (h : Handler), s.handlers[thread]? = some h → h.pc ≠ .exited
      → h.threadId ≠ threadId)
    (hhandlers : s'.handlers = s.handlers) (harray : s'.threadArray = s.threadArray)
    (hstatus : s'.threadStatusArray = s.threadStatusArray.set threadId 0)
    (hpeers : s'.peerArray = s.peerArray)
    : s'.Threads where
  length := by
    rw [harray, hstatus, List.length_set]
    exact hthreads.length
  live hget hlive := by
    rw [hhandlers] at hget
    rw [harray, hstatus, List.getElem?_set_ne (Ne.symm (hended _ _ hget hlive))]
    apply hthreads.live hget hlive
  served hget hserves hpeer haddr := by
    rw [hhandlers] at hget
    rw [hpeers] at hpeer
    apply hthreads.served hget hserves hpeer haddr

theorem move {s s' : State} {thread : Nat} {h : Handler} {pc : HandlerPc} (hthreads : s.Threads)
    (hget : s.handlers[thread]? = some h)
    (hhandlers : s'.handlers = s.handlers.set thread { h with pc })
    (harray : s'.threadArray = s.threadArray)
    (hlength : s'.threadStatusArray.length = s.threadStatusArray.length)
    (hstatus : ∀ i, i ≠ h.threadId ∨ pc ≠ .exited
      → s'.threadStatusArray[i]? = s.threadStatusArray[i]?)
    (hpeers : ∀ i peer, peerAt s'.peerArray i = some peer → peerAt s.peerArray i = some peer)
    (hlive : pc ≠ .exited → h.pc ≠ .exited) (hserves : pc.serves = true → h.pc.serves = true)
    (hended : h.pc ≠ .exited)
    : s'.Threads where
  length := by
    rw [harray, hlength]
    exact hthreads.length
  live {t h'} hget' hlive' := by
    rw [hhandlers] at hget'
    rw [harray]
    by_cases ht : t = thread
    . subst ht
      rw [List.getElem?_set_self (List.getElem?_eq_some_iff.mp hget).1] at hget'
      simp only [Option.some.injEq] at hget'
      subst hget'
      rw [hstatus _ (.inr hlive')]
      apply hthreads.live hget (hlive hlive')
    . rw [List.getElem?_set_ne (Ne.symm ht)] at hget'
      rw [hstatus]
      . apply hthreads.live hget' hlive'
      . refine .inl ?_
        intro hslot
        exact ht (hthreads.thread_eq hget' hget hlive' hended hslot)
  served {t i h' peer} hget' hserves' hpeer haddr := by
    rw [hhandlers] at hget'
    by_cases ht : t = thread
    . subst ht
      rw [List.getElem?_set_self (List.getElem?_eq_some_iff.mp hget).1] at hget'
      simp only [Option.some.injEq] at hget'
      subst hget'
      apply hthreads.served hget (hserves hserves') (hpeers _ _ hpeer) haddr
    . rw [List.getElem?_set_ne (Ne.symm ht)] at hget'
      apply hthreads.served hget' hserves' (hpeers _ _ hpeer) haddr

theorem start {s s' : State} {p : Holder} {addr : Addr} {fd : Int} {threadId : Nat}
    (hthreads : s.Threads) (hbalanced : s.ledger.Balanced)
    (hholds : s.ledger.holding p = .entry addr fd) (hstarter : ∀ thread, p ≠ .handler thread)
    (hfree : s.threadStatusArray[threadId]? = some 0)
    (hhandlers : s'.handlers
        = s.handlers ++ [{ addr, clientSocketFd := fd, threadId, pc := .running }])
    (harray : s'.threadArray = s.threadArray.set threadId (some s.handlers.length))
    (hstatus : s'.threadStatusArray = s.threadStatusArray.set threadId 1)
    (hpeers : s'.peerArray = setThreadId addr threadId s.peerArray)
    : s'.Threads := by
  obtain ⟨i, hi⟩ := hbalanced.listed hholds
  obtain ⟨peer, hpeer, haddr, hfd⟩ := table_eq_some.mp hi
  have hunique : ∀ j peer', peerAt s.peerArray j = some peer' → peer'.addr = peer.addr → j = i := by
    intro j peer' hj haddr'
    apply hbalanced.keys (r := peer'.socketFd) _ hi
    rw [table_eq_some]
    exact ⟨peer', hj, by rw [haddr', haddr], rfl⟩
  rw [← haddr] at hpeers
  have hset := peerAt_setThreadId threadId hunique hpeer
  -- an old handler is found in the old table, the new one is the last
  have hcases : ∀ thread h, s'.handlers[thread]? = some h → s.handlers[thread]? = some h
      ∨ thread = s.handlers.length ∧ h = { addr, clientSocketFd := fd, threadId, pc := .running } := by
    intro thread h hget
    rw [hhandlers] at hget
    by_cases hlt : thread < s.handlers.length
    . rw [List.getElem?_append_left hlt] at hget
      exact .inl hget
    . rw [List.getElem?_append_right (by omega), List.getElem?_singleton] at hget
      split at hget
      . simp only [Option.some.injEq] at hget
        exact .inr ⟨by omega, hget.symm⟩
      . simp at hget
  have hlt : threadId < s.threadStatusArray.length := (List.getElem?_eq_some_iff.mp hfree).1
  constructor
  . rw [harray, hstatus, List.length_set, List.length_set]
    exact hthreads.length
  . intro thread h hget hlive
    rw [harray, hstatus]
    obtain hget | ⟨hthread, hh⟩ := hcases thread h hget
    . obtain ⟨harray, hstatus⟩ := hthreads.live hget hlive
      have hne : h.threadId ≠ threadId := by
        intro hslot
        rw [hslot, hfree] at hstatus
        simp at hstatus
      rw [List.getElem?_set_ne (Ne.symm hne), List.getElem?_set_ne (Ne.symm hne)]
      exact ⟨harray, hstatus⟩
    . rw [hthread, hh]
      dsimp only
      rw [List.getElem?_set_self hlt, List.getElem?_set_self (by rw [hthreads.length]; exact hlt)]
      exact ⟨rfl, rfl⟩
  . intro thread j h peer' hget hserves hpeer' haddr'
    rw [hpeers, hset] at hpeer'
    by_cases hji : j = i
    . subst hji
      rw [Function.update_self] at hpeer'
      simp only [Option.some.injEq] at hpeer'
      subst hpeer'
      obtain hget | ⟨-, hh⟩ := hcases thread h hget
      . -- the peer is still held by the thread that registered it
        exfalso
        apply hstarter thread
        apply hbalanced.holder (k := addr) hholds
        rw [holding_of_serves hget hserves, ← haddr', ← haddr]
      . rw [hh]
    . rw [Function.update_of_ne hji] at hpeer'
      obtain hget | ⟨-, hh⟩ := hcases thread h hget
      . apply hthreads.served hget hserves hpeer' haddr'
      . rw [hh] at haddr'
        exact absurd (hunique j peer' hpeer' (haddr'.trans haddr.symm)) hji

end Threads

theorem mainStep_threads {s s' : State} {action : MainAction} (hthreads : s.Threads)
    (hbalanced : s.ledger.Balanced) (horderly : s.Orderly (.main action))
    (hstep : MainStep s action s') : s'.Threads := by
  cases hstep with
  | addToArray hpc hadd => exact hthreads.add hbalanced hadd (horderly _ _ hpc) rfl rfl rfl
  | @assignThread addr sock created threadId hpc hlock hfind =>
    have hholds : s.ledger.holding .main = .entry addr sock := by
      simp only [ledger, holding, hpc, MainPc.holding]
    rw [horderly.2]
    exact hthreads.start hbalanced hholds (by simp) (status_of_findIdx? hfind) rfl rfl rfl rfl
  | noThread hpc hlock hfull => exact absurd horderly.1 hfull
  | @join addr threadId hpc hjoin =>
    refine hthreads.reset ?_ rfl rfl rfl rfl
    -- the thread of the slot has ended, and a live handler would be the thread of its slot
    rintro thread h hget hlive rfl
    have hthread := (hthreads.live hget hlive).1
    unfold joinable at hjoin
    rw [List.getD_eq_getElem?_getD, hthread] at hjoin
    simp only [Option.getD_some, hget, Option.all_some, decide_eq_true_eq] at hjoin
    exact hlive hjoin
  | socket hpc | unreachable hpc | close hpc | connected hpc | connect hpc | noSocket hpc
  | refused hpc | accepted hpc | disconnect hpc | unknown hpc | getFd hpc | fetchFd hpc
  | getThreadId hpc | sendDsn hpc | lockThreadStatus hpc | fetch hpc | fetchUnknown hpc
  | giveUp hpc | sendReq hpc =>
    exact hthreads.same rfl rfl rfl rfl

theorem listenerStep_threads {s s' : State} {action : ListenerAction} (hthreads : s.Threads)
    (hbalanced : s.ledger.Balanced) (horderly : s.Orderly (.listener action))
    (hstep : ListenerStep s action s') : s'.Threads := by
  cases hstep with
  | addToArray hpc hadd => exact hthreads.add hbalanced hadd (horderly _ _ hpc) rfl rfl rfl
  | @assignThread addr newSocket created threadId hpc hlock hfind =>
    have hholds : s.ledger.holding .listener = .entry addr newSocket := by
      simp only [ledger, holding, hpc, ListenerPc.holding]
    rw [horderly.2]
    exact hthreads.start hbalanced hholds (by simp) (status_of_findIdx? hfind) rfl rfl rfl rfl
  | noThread hpc hlock hfull => exact absurd horderly.1 hfull
  | accept hpc | notAccepted hpc | greeted hpc | notGreeted hpc | failed hpc | ignored hpc
  | acked hpc | close hpc =>
    exact hthreads.same rfl rfl rfl rfl

theorem handlerStep_threads {s s' : State} {thread : Nat} {h : Handler} {action : HandlerAction}
    (hthreads : s.Threads) (hget : s.handlers[thread]? = some h) (hstep : HandlerStep s thread h action s')
    : s'.Threads := by
  cases hstep with
  | failed hpc | closed hpc | dsn hpc =>
    refine hthreads.move hget rfl rfl rfl ?_ ?_ ?_ ?_ ?_
    . intro i hi
      rfl
    . intro i peer hpeer
      exact hpeer
    . simp [hpc]
    . simp [hpc, HandlerPc.serves]
    . simp [hpc]
  | other hpc => exact hthreads
  | removeFromArray hpc =>
    refine hthreads.move hget rfl rfl rfl ?_ ?_ ?_ ?_ ?_
    . intro i hi
      rfl
    . intro i peer hpeer
      apply peerAt_of_removeFromArray hpeer
    . simp [hpc]
    . simp [HandlerPc.serves]
    . simp [hpc]
  | close hpc =>
    refine hthreads.move hget rfl rfl rfl ?_ ?_ ?_ ?_ ?_
    . intro i hi
      rfl
    . intro i peer hpeer
      exact hpeer
    . simp [hpc]
    . simp [HandlerPc.serves]
    . simp [hpc]
  | resetStatus hpc hlock =>
    refine hthreads.move hget rfl rfl List.length_set ?_ ?_ ?_ ?_ ?_
    . intro i hi
      apply List.getElem?_set_ne
      rintro rfl
      simp at hi
    . intro i peer hpeer
      exact hpeer
    . simp
    . simp [HandlerPc.serves]
    . simp [hpc]

/--
Every connection stands behind one entry, every entry has a thread in its own slot, and `peer_connect`
closes only the sockets of peers that it reports as not connected.
-/
structure Served (s : State) : Prop where
  balanced : s.ledger.Balanced
  threads : s.Threads
  dropping {addr : Addr} {sock ret : Int} (hpc : s.main = .dropping addr sock ret) : ret = -1

theorem mainStep_dropping {s s' : State} {action : MainAction} (horderly : s.Orderly (.main action))
    (hstep : MainStep s action s') {addr : Addr} {sock ret : Int}
    (hpc' : s'.main = .dropping addr sock ret) : ret = -1 := by
  cases hstep with
  | refused hpc =>
    simp only [MainPc.dropping.injEq] at hpc'
    exact hpc'.2.2.symm
  | addToArray hpc hadd =>
    dsimp only at hpc'
    split at hpc'
    . simp at hpc'
    . simp only [MainPc.dropping.injEq] at hpc'
      exact hpc'.2.2.symm
  | noThread hpc hlock hfull => exact absurd horderly.1 hfull
  | _ => simp at hpc'

theorem step_served {s s' : State} {action : Action} (hserved : s.Served) (horderly : s.Orderly action)
    (hstep : Step s action s') : s'.Served := by
  have hbalanced := step_balanced hserved.balanced horderly hstep
  unfold Step step at hstep
  cases action with
  | main action =>
    have hstep := mainStep_cases hstep
    refine ⟨hbalanced, mainStep_threads hserved.threads hserved.balanced horderly hstep, ?_⟩
    intro addr sock ret hpc
    apply mainStep_dropping horderly hstep hpc
  | listener action =>
    have hstep := listenerStep_cases hstep
    refine ⟨hbalanced, listenerStep_threads hserved.threads hserved.balanced horderly hstep, ?_⟩
    intro addr sock ret hpc
    rw [hstep.main_eq] at hpc
    apply hserved.dropping hpc
  | handler thread action =>
    dsimp only at hstep
    split at hstep
    . next h hget =>
      have hstep := handlerStep_cases hstep
      refine ⟨hbalanced, handlerStep_threads hserved.threads hget hstep, ?_⟩
      intro addr sock ret hpc
      rw [hstep.main_eq] at hpc
      apply hserved.dropping hpc
    . simp at hstep

theorem init_served (maxPeers : Nat) : (init maxPeers).Served := by
  have hholds : ∀ p, (init maxPeers).ledger.holding p = .nothing := by
    intro p
    cases p with
    | main => rfl
    | listener => rfl
    | handler thread => simp [ledger, holding, init]
  have htable : ∀ i, peerAt (init maxPeers).peerArray i = none := by
    intro i
    unfold peerAt init
    rw [Option.join_eq_none_iff, List.getElem?_replicate]
    split
    . exact .inr rfl
    . exact .inl rfl
  refine ⟨⟨?_, ?_, ?_, ?_, ?_⟩, ⟨?_, ?_, ?_⟩, ?_⟩
  . intro i addr fd hi
    simp [ledger, htable] at hi
  . intro p addr fd hp
    simp [hholds] at hp
  . intro i j addr fd fd' hi
    simp [ledger, htable] at hi
  . intro p fd hp
    simp [hholds] at hp
  . intro p q fd hp
    simp [hholds] at hp
  . simp [init]
  . intro thread h hget
    simp [init] at hget
  . intro thread i h peer hget
    simp [init] at hget
  . intro addr sock ret hpc
    simp [init] at hpc

theorem run_served {maxPeers : Nat} {s : State} (hrun : Run Step Orderly (init maxPeers) s)
    : s.Served := by
  apply hrun.invariant (init_served maxPeers)
  intro s action s' hserved horderly hstep
  apply step_served hserved horderly hstep

end State

end Btide.Connections
