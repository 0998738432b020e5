import Btide.Lib.Transition
import Btide.Net.ConnectionThreads

/-!
This module contains the addresses in the table of peers: that no address occurs twice, and what follows
for the functions that find an entry by its address.
-/

open Bytes

namespace Btide.Connections

namespace State

def RegistersNew (s : State) : Action → Prop
  | .main (.addToArray memory) => ∀ addr sock, s.main = .adding addr sock → s.AddsNew addr memory
  | .listener (.addToArray memory) =>
    ∀ addr fd, s.listener = .adding addr fd → s.AddsNew addr memory
  | _ => True

def registersNew (s : State) : Action → Bool
  | .main (.addToArray memory) =>
    (decideAdding (P := fun addr _ => s.AddsNew addr memory) (fun _ _ => inferInstance) s.main).decide
  | .listener (.addToArray memory) =>
    (decideListenerAdding (P := fun addr _ => s.AddsNew addr memory) (fun _ _ => inferInstance)
      s.listener).decide
  | _ => true

theorem registersNew_iff (s : State) (action : Action)
    : s.registersNew action = true ↔ s.RegistersNew action := by
  unfold registersNew RegistersNew
  split
  . exact @decide_eq_true_iff _ (decideAdding (fun _ _ => inferInstance) s.main)
  . exact @decide_eq_true_iff _ (decideListenerAdding (fun _ _ => inferInstance) s.listener)
  . exact iff_of_true rfl trivial

instance (s : State) (action : Action) : Decidable (s.RegistersNew action) :=
  decidable_of_iff _ (s.registersNew_iff action)

section Ledger

variable {s s' : State} {p : Holder}

theorem keyed_keep {x : Holding Addr Int} (hkeyed : s.ledger.Keyed)
    (hx : ∀ addr fd, x = .entry addr fd → s.holding p = .entry addr fd)
    (htable : ∀ i, s'.ledger.table i = s.ledger.table i)
    (hholding : s'.holding = Function.update s.holding p x) : s'.ledger.Keyed := by
  rw [ledger_eq s.ledger.table (fun fd => fd ∈ s'.sockets) htable (fun _ => Iff.rfl) hholding]
  exact hkeyed.keep hx

theorem keyed_add {addr : Addr} {fd ret : Int} {memory : Bool} (hkeyed : s.ledger.Keyed)
    (hadd : Connections.addToArray addr fd memory s.peerArray = (s'.peerArray, ret))
    (hnew : s.AddsNew addr memory)
    (hholding : s'.holding
        = Function.update s.holding p (if ret = 1 then .entry addr fd else .resource fd))
    : s'.ledger.Keyed := by
  obtain ⟨hret, hmemory, hroom, i, hfree, hpeers⟩ | ⟨hret, hpeers⟩ := Connections.addToArray_cases hadd
  . rw [if_pos hret] at hholding
    rw [ledger_eq (Function.update s.ledger.table i (some (addr, fd))) (fun fd => fd ∈ s'.sockets)
      (table_update hpeers) (fun _ => Iff.rfl) hholding]
    apply hkeyed.register
    . simp only [ledger, hfree, Option.map_none]
    . exact hnew.not_listed hmemory hroom
  . rw [if_neg hret] at hholding
    exact keyed_keep hkeyed (by simp) (table_congr hpeers) hholding

theorem keyed_assign {addr : Addr} {fd : Int} {threadId : Nat} {created : Bool} (hkeyed : s.ledger.Keyed)
    (hholds : s.holding p = .entry addr fd) (hpeers : s'.peerArray = setThreadId addr threadId s.peerArray)
    (hholding : s'.holding
        = if created then
            Function.update (Function.update s.holding p .nothing) (.handler s.handlers.length)
              (.entry addr fd)
          else
            Function.update s.holding p .nothing)
    : s'.ledger.Keyed := by
  have htable := table_setThreadId hpeers
  cases created with
  | false => exact keyed_keep hkeyed (by simp) htable hholding
  | true =>
    rw [if_pos rfl] at hholding
    rw [ledger_eq s.ledger.table (fun fd => fd ∈ s'.sockets) htable (fun _ => Iff.rfl) hholding]
    exact hkeyed.transfer hholds

def UniqueAddrs (peerArray : PeerArray) : Prop :=
  ∀ i j peer peer', peerAt peerArray i = some peer → peerAt peerArray j = some peer'
    → peer.addr = peer'.addr → i = j

structure Resolves (peerArray : PeerArray) (i : Nat) (peer : Peer) : Prop where
  getFd : getFd peer.addr peerArray = peer.socketFd
  getThreadId (garbage : Nat)
    : getThreadId peer.addr garbage peerArray = peer.threadId.getD garbage
  setThreadId (threadId : Nat)
    : peerAt (setThreadId peer.addr threadId peerArray)
        = Function.update (peerAt peerArray) i (some { peer with threadId := some threadId })
  removeFromArray : peerAt (removeFromArray peer.addr peerArray) = Function.update (peerAt peerArray) i none

theorem resolves (hkeyed : s.ledger.Keyed) {i : Nat} {peer : Peer} (hi : peerAt s.peerArray i = some peer)
    : Resolves s.peerArray i peer := by
  have hunique : ∀ j peer', peerAt s.peerArray j = some peer' → peer'.addr = peer.addr → j = i :=
    fun j peer' hj haddr => keyed_unique hkeyed hj hi haddr
  have hfirst : firstPeer peer.addr s.peerArray = some peer := by
    cases hfind : firstPeer peer.addr s.peerArray with
    | none => exact absurd rfl (firstPeer_eq_none hfind hi)
    | some peer' =>
      obtain ⟨haddr, j, hj⟩ := firstPeer_eq_some hfind
      rw [hunique j peer' hj haddr, hi] at hj
      exact hj.symm
  constructor
  . unfold Connections.getFd
    rw [hfirst]
  . intro garbage
    unfold Connections.getThreadId
    rw [hfirst]
  . intro threadId
    exact peerAt_setThreadId threadId hunique hi
  . exact peerAt_removeFromArray hunique hi

theorem keyed_remove {addr : Addr} {fd : Int} {x : Holding Addr Int} (hkeyed : s.ledger.Keyed)
    (hholds : s.holding p = .entry addr fd) (hx : ∀ addr fd, x ≠ .entry addr fd)
    (hpeers : s'.peerArray = removeFromArray addr s.peerArray)
    (hholding : s'.holding = Function.update s.holding p x) : s'.ledger.Keyed := by
  obtain ⟨i, hi⟩ := hkeyed.listed hholds
  rw [ledger_eq (Function.update s.ledger.table i none) (fun fd => fd ∈ s'.sockets)
    (table_remove hkeyed hi hpeers) (fun _ => Iff.rfl) hholding]
  exact hkeyed.unregister hholds hi hx

end Ledger

theorem holding_of_created {s s' : State} {p : Holder} {addr : Addr} {fd : Int} {threadId : Nat}
    {created : Bool}
    (hhandlers : s'.handlers
        = if created then s.handlers ++ [{ addr, clientSocketFd := fd, threadId, pc := .running }]
          else s.handlers)
    (hstarter : ∀ thread, p ≠ .handler thread)
    (hmain : s'.main.holding = Function.update s.holding p .nothing .main)
    (hlistener : s'.listener.holding = Function.update s.holding p .nothing .listener)
    : s'.holding
        =
      if created then
        Function.update (Function.update s.holding p .nothing) (.handler s.handlers.length) (.entry addr fd)
      else
        Function.update s.holding p .nothing := by
  cases created with
  | true =>
    rw [if_pos rfl]
    exact holding_of_started hhandlers hstarter hmain hlistener
  | false =>
    rw [if_neg (by decide)]
    rw [if_neg (by decide)] at hhandlers
    funext q
    cases q with
    | main => exact hmain
    | listener => exact hlistener
    | handler thread =>
      rw [Function.update_of_ne (Ne.symm (hstarter thread)), holding, holding, hhandlers]

theorem mainStep_keyed {s s' : State} {action : MainAction} (hkeyed : s.ledger.Keyed)
    (hnew : s.RegistersNew (.main action)) (hstep : MainStep s action s') : s'.ledger.Keyed := by
  have hholds : s.holding .main = s.main.holding := rfl
  cases hstep with
  | addToArray hpc hadd =>
    apply keyed_add hkeyed hadd (hnew _ _ hpc)
    rw [holding_of_main (s := s) (by rfl) (by rfl)]
    split
    . rfl
    . rfl
  | @assignThread addr sock created threadId hpc hlock hfind =>
    rw [hpc] at hholds
    have hpeers := startThread_peerArray s addr sock threadId created
    have hhandlers := startThread_handlers s addr sock threadId created
    have hlistener := startThread_listener s addr sock threadId created
    refine @keyed_assign _ _ _ _ _ threadId created hkeyed hholds hpeers ?_
    refine @holding_of_created _ _ .main _ _ threadId _ hhandlers (by simp) rfl ?_
    exact congrArg ListenerPc.holding hlistener
  | connected | connect | noSocket | socket | unreachable | refused | accepted | noThread | close
  | disconnect | unknown | getFd | fetchFd | getThreadId | sendDsn | lockThreadStatus | join | fetch
  | fetchUnknown | giveUp | sendReq =>
    -- the main thread ends up without an entry
    refine keyed_keep hkeyed ?_ (table_congr rfl) (holding_of_main rfl rfl)
    simp [MainPc.holding]

theorem listenerStep_keyed {s s' : State} {action : ListenerAction} (hkeyed : s.ledger.Keyed)
    (hnew : s.RegistersNew (.listener action)) (hstep : ListenerStep s action s') : s'.ledger.Keyed := by
  have hholds : s.holding .listener = s.listener.holding := rfl
  cases hstep with
  | addToArray hpc hadd =>
    apply keyed_add hkeyed hadd (hnew _ _ hpc)
    rw [holding_of_listener (s := s) (by rfl) (by rfl)]
    split
    . rfl
    . rfl
  | @assignThread addr newSocket created threadId hpc hlock hfind =>
    rw [hpc] at hholds
    have hpeers := startThread_peerArray s addr newSocket threadId created
    have hhandlers := startThread_handlers s addr newSocket threadId created
    have hmain := startThread_main s addr newSocket threadId created
    refine @keyed_assign _ _ _ _ _ threadId created hkeyed hholds hpeers ?_
    refine @holding_of_created _ _ .listener _ _ threadId _ hhandlers (by simp) ?_ rfl
    exact congrArg MainPc.holding hmain
  | accept | notAccepted | greeted | notGreeted | failed | ignored | acked | noThread | close =>
    refine keyed_keep hkeyed ?_ (table_congr rfl) (holding_of_listener rfl rfl)
    simp [ListenerPc.holding]

theorem handlerStep_keyed {s s' : State} {thread : Nat} {h : Handler} {action : HandlerAction}
    (hkeyed : s.ledger.Keyed) (hget : s.handlers[thread]? = some h)
    (hstep : HandlerStep s thread h action s') : s'.ledger.Keyed := by
  have hholds : s.holding (.handler thread) = h.holding := by
    rw [holding, hget]
  rw [Handler.holding] at hholds
  cases hstep with
  | failed hpc | dsn hpc =>
    rw [hpc] at hholds
    refine keyed_keep hkeyed ?_ (table_congr rfl) (holding_of_handler hget (.removing true) rfl rfl rfl)
    intro addr fd hentry
    rw [hholds, ← hentry]
    rfl
  | closed hpc =>
    rw [hpc] at hholds
    refine keyed_keep hkeyed ?_ (table_congr rfl) (holding_of_handler hget (.removing false) rfl rfl rfl)
    intro addr fd hentry
    rw [hholds, ← hentry]
    rfl
  | other hpc => exact hkeyed
  | @removeFromArray lock hpc =>
    rw [hpc] at hholds
    refine keyed_remove hkeyed hholds ?_ rfl (holding_of_handler hget (.closing lock) rfl rfl rfl)
    simp [HandlerPc.holding]
  | @close lock hpc =>
    refine keyed_keep hkeyed ?_ (table_congr rfl) (holding_of_handler hget (.resetting lock) rfl rfl rfl)
    simp [HandlerPc.holding]
  | resetStatus hpc hlock =>
    refine keyed_keep hkeyed ?_ (table_congr rfl) (holding_of_handler hget .exited rfl rfl rfl)
    simp [HandlerPc.holding]

theorem step_keyed {s s' : State} {action : Action} (hkeyed : s.ledger.Keyed)
    (hnew : s.RegistersNew action) (hstep : Step s action s') : s'.ledger.Keyed := by
  unfold Step step at hstep
  cases action with
  | main action => exact mainStep_keyed hkeyed hnew (mainStep_cases hstep)
  | listener action => exact listenerStep_keyed hkeyed hnew (listenerStep_cases hstep)
  | handler thread action =>
    dsimp only at hstep
    split at hstep
    . next h hget => exact handlerStep_keyed hkeyed hget (handlerStep_cases hstep)
    . simp at hstep

structure AddrsIdentify (s : State) : Prop where
  unique : UniqueAddrs s.peerArray
  resolves {i : Nat} {peer : Peer} (hpeer : peerAt s.peerArray i = some peer) : Resolves s.peerArray i peer
  listed {p : Holder} {addr : Addr} {fd : Int} (hholds : s.holding p = .entry addr fd)
    : ∃ i peer, peerAt s.peerArray i = some peer ∧ peer.addr = addr ∧ peer.socketFd = fd
  holder {p q : Holder} {addr : Addr} {fd fd' : Int} (hp : s.holding p = .entry addr fd)
    (hq : s.holding q = .entry addr fd') : p = q
  removes {s' : State} {thread : Nat} {h : Handler} (hget : s.handlers[thread]? = some h)
    (hstep : Step s (.handler thread .removeFromArray) s')
    : ∃ i peer, peerAt s.peerArray i = some peer ∧ peer.addr = h.addr ∧ peer.socketFd = h.clientSocketFd
        ∧ peerAt s'.peerArray = Function.update (peerAt s.peerArray) i none

theorem removes {s s' : State} {thread : Nat} {h : Handler} (hkeyed : s.ledger.Keyed)
    (hget : s.handlers[thread]? = some h) (hstep : HandlerStep s thread h .removeFromArray s')
    : ∃ i peer, peerAt s.peerArray i = some peer ∧ peer.addr = h.addr ∧ peer.socketFd = h.clientSocketFd
        ∧ peerAt s'.peerArray = Function.update (peerAt s.peerArray) i none := by
  cases hstep with
  | removeFromArray hpc =>
    have hholds : s.holding (.handler thread) = .entry h.addr h.clientSocketFd := by
      rw [holding, hget]
      simp only [Handler.holding, HandlerPc.holding, hpc]
    obtain ⟨i, hi⟩ := hkeyed.listed (p := .handler thread) hholds
    obtain ⟨peer, hpeer, haddr, hfd⟩ := table_eq_some.mp hi
    refine ⟨i, peer, hpeer, haddr, hfd, ?_⟩
    rw [← haddr]
    exact (resolves hkeyed hpeer).removeFromArray

theorem addrsIdentify {s : State} (hkeyed : s.ledger.Keyed) : s.AddrsIdentify where
  unique _ _ _ _ hi hj haddr := keyed_unique hkeyed hi hj haddr
  resolves hpeer := State.resolves hkeyed hpeer
  listed hholds := by
    obtain ⟨i, hi⟩ := hkeyed.listed hholds
    exact ⟨i, table_eq_some.mp hi⟩
  holder hp hq := hkeyed.holder hp hq
  removes {s' thread h} hget hstep := by
    unfold Step step at hstep
    dsimp only at hstep
    rw [hget] at hstep
    exact State.removes hkeyed hget (handlerStep_cases hstep)

theorem addsNew_of_unique {s : State} {addr : Addr} {fd ret : Int} {memory : Bool} {peerArray : PeerArray}
    (hadd : Connections.addToArray addr fd memory s.peerArray = (peerArray, ret))
    (hunique : UniqueAddrs peerArray) : s.AddsNew addr memory := by
  intro hmemory hroom
  obtain ⟨-, -, -, i, hfree, hpeers⟩ | ⟨hret, -⟩ := Connections.addToArray_cases hadd
  . cases hfind : firstPeer addr s.peerArray with
    | none => rw [inArray, hfind, Option.isSome_none]
    | some peer =>
      obtain ⟨haddr, j, hj⟩ := firstPeer_eq_some hfind
      have hji : j ≠ i := by
        rintro rfl
        rw [hj] at hfree
        contradiction
      exfalso
      apply hji
      apply hunique j i peer { addr, socketFd := fd, threadId := none } _ _ haddr
      . rw [hpeers, Function.update_of_ne hji, hj]
      . rw [hpeers, Function.update_self]
  . -- the table has room, so nothing fails
    exfalso
    apply hret
    unfold Connections.addToArray at hadd
    split at hadd
    . rw [if_pos hmemory, Prod.mk.injEq] at hadd
      exact hadd.2.symm
    . next hfull =>
      rw [List.findIdx?_eq_none_iff] at hfull
      have := hfull none hroom
      simp at this

theorem registersNew_of_unique {s s' : State} {action : Action} (hstep : Step s action s')
    (hunique : UniqueAddrs s'.peerArray) : s.RegistersNew action := by
  unfold Step step at hstep
  cases action with
  | main action =>
    cases mainStep_cases hstep with
    | addToArray hpc hadd =>
      intro addr sock hpc'
      rw [hpc, MainPc.adding.injEq] at hpc'
      rw [← hpc'.1]
      exact addsNew_of_unique hadd hunique
    | _ => trivial
  | listener action =>
    cases listenerStep_cases hstep with
    | addToArray hpc hadd =>
      intro addr fd hpc'
      rw [hpc, ListenerPc.adding.injEq] at hpc'
      rw [← hpc'.1]
      exact addsNew_of_unique hadd hunique
    | _ => trivial
  | handler thread action => trivial

end State

open State

theorem addresses_unique {maxPeers : Nat} {s : State} (hrun : Run Step RegistersNew (init maxPeers) s)
    : s.AddrsIdentify
        ∧ ∀ action s', Step s action s' → (UniqueAddrs s'.peerArray ↔ s.RegistersNew action) := by
  have hkeyed : s.ledger.Keyed := by
    apply hrun.invariant ((init_served maxPeers).balanced.keyed)
    intro s action s' hkeyed hnew hstep
    exact step_keyed hkeyed hnew hstep
  refine ⟨addrsIdentify hkeyed, ?_⟩
  intro action s' hstep
  constructor
  . intro hunique
    exact registersNew_of_unique hstep hunique
  . intro hnew
    exact (addrsIdentify (step_keyed hkeyed hnew hstep)).unique

/--
One peer is accepted while the client connects to another one. The first one closes its connection and is
about to be registered again, before its handler has removed it.
-/
theorem addresses_unique_two
    : ∃ s s' : State,
        s.peerArray
            =
          [some { addr := ⟨[49], 50000⟩, socketFd := 4, threadId := some 0 },
            some { addr := ⟨[50], 9000⟩, socketFd := 5, threadId := some 1 }, none]
          ∧ s.AddrsIdentify
          ∧ Step s (.listener (.addToArray true)) s'
          ∧ ¬ UniqueAddrs s'.peerArray := by
  have hexec : Run.exec step RegistersNew (init 3)
      [.listener (.accept ⟨[49], 50000⟩ (some 4)), .listener (.sendAcp true),
        .listener (.recvAck .ack), .main (.connect ⟨[50], 9000⟩), .listener (.addToArray true),
        .main (.socket (some 5)), .listener (.assignThread true), .main (.shakeHands .accepted),
        .main (.addToArray true), .main (.assignThread true), .handler 0 (.recv .closed),
        .listener (.accept ⟨[49], 50000⟩ (some 6)), .listener (.sendAcp true),
        .listener (.recvAck .ack)]
      = some
        { peerArray :=
            [some { addr := ⟨[49], 50000⟩, socketFd := 4, threadId := some 0 },
              some { addr := ⟨[50], 9000⟩, socketFd := 5, threadId := some 1 }, none]
          peerArrayLock := false
          threadStatusArray := [1, 1, 0]
          threadStatusLock := false
          threadArray := [some 0, some 1, none]
          handlers :=
            [{ addr := ⟨[49], 50000⟩, clientSocketFd := 4, threadId := 0, pc := .removing false },
              { addr := ⟨[50], 9000⟩, clientSocketFd := 5, threadId := 1, pc := .running }]
          sockets := [6, 5, 4]
          main := .idle 1
          listener := .adding ⟨[49], 50000⟩ 6 } := by
    decide
  obtain ⟨hidentify, hsteps⟩ := addresses_unique (Run.of_exec hexec)
  refine ⟨_, _, rfl, hidentify, show step _ _ = some _ from rfl, ?_⟩
  rw [hsteps (.listener (.addToArray true)) _ rfl]
  decide

/--
A peer closes its connection and connects again from the same port before the handler has removed it.
The thread id of the second connection is written to the entry of the first.
-/
theorem addresses_unique_fails
    : ¬ ∀ maxPeers s, Run Step (fun _ _ => True) (init maxPeers) s → s.AddrsIdentify := by
  intro h
  have hexec : Run.exec step (fun _ _ => True) (init 2)
      [.listener (.accept ⟨[49], 50000⟩ (some 4)), .listener (.sendAcp true),
        .listener (.recvAck .ack), .listener (.addToArray true), .listener (.assignThread true),
        .handler 0 (.recv .closed), .listener (.accept ⟨[49], 50000⟩ (some 5)),
        .listener (.sendAcp true), .listener (.recvAck .ack), .listener (.addToArray true),
        .listener (.assignThread true)]
      = some
        { peerArray :=
            [some { addr := ⟨[49], 50000⟩, socketFd := 4, threadId := some 1 },
              some { addr := ⟨[49], 50000⟩, socketFd := 5, threadId := none }]
          peerArrayLock := false
          threadStatusArray := [1, 1]
          threadStatusLock := false
          threadArray := [some 0, some 1]
          handlers :=
            [{ addr := ⟨[49], 50000⟩, clientSocketFd := 4, threadId := 0, pc := .removing false },
              { addr := ⟨[49], 50000⟩, clientSocketFd := 5, threadId := 1, pc := .running }]
          sockets := [5, 4]
          main := .idle 0
          listener := .accepting } := by
    decide
  have hsame := (h 2 _ (Run.of_exec hexec)).unique 0 1 _ _ rfl rfl rfl
  contradiction

end Btide.Connections
