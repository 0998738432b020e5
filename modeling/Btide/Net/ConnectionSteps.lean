import Btide.Net.ConnectionCases
import Mathlib.Logic.Relation

/-!
This module contains what each step of the threads does with the table of peers and the sockets, if
every thread that registers a peer is served.
-/

open Bytes Relation

namespace Btide.Connections

namespace State

def AddsNew (s : State) (addr : Addr) (memory : Bool) : Prop :=
  memory = true → none ∈ s.peerArray → inArray addr s.peerArray = false

def HasThread (s : State) (created : Bool) : Prop :=
  0 ∈ s.threadStatusArray ∧ created = true

/--
What has to hold before a step such that no connected peer loses its handler. The listener must not
fall back to a descriptor zero that is a connection.
-/
def Orderly (s : State) : Action → Prop
  | .main (.addToArray memory) => ∀ addr sock, s.main = .adding addr sock → s.AddsNew addr memory
  | .main (.assignThread created) => s.HasThread created
  | .listener (.recvAck _) => ∀ addr fd, s.listener = .awaitingAck addr fd false → fd ∉ s.sockets
  | .listener (.addToArray memory) =>
    ∀ addr fd, s.listener = .adding addr fd → s.AddsNew addr memory
  | .listener (.assignThread created) => s.HasThread created
  | _ => True

section Decisions

variable {P : Addr → Int → Prop} (decide : ∀ addr fd, Decidable (P addr fd))

def decideAdding (pc : MainPc) : Decidable (∀ addr sock, pc = .adding addr sock → P addr sock) :=
  match pc with
  | .adding addr sock =>
    @decidable_of_iff _ (P addr sock) ⟨by rintro h _ _ ⟨⟩; exact h, fun h => h addr sock rfl⟩
      (decide addr sock)
  | .idle _ | .dialing _ | .shakingHands _ _ | .assigning _ _ | .dropping _ _ _ | .disconnecting _
  | .disconnectingFd _ _ | .sendingDsn _ _ _ | .locking _ _ | .joining _ _ | .fetching _
  | .sendingReq _ _ => isTrue nofun

def decideListenerAdding (pc : ListenerPc) : Decidable (∀ addr fd, pc = .adding addr fd → P addr fd) :=
  match pc with
  | .adding addr fd =>
    @decidable_of_iff _ (P addr fd) ⟨by rintro h _ _ ⟨⟩; exact h, fun h => h addr fd rfl⟩ (decide addr fd)
  | .accepting | .greeting _ _ | .awaitingAck _ _ _ | .assigning _ _ | .dropping _ => isTrue nofun

def decideAwaitingAck (pc : ListenerPc)
    : Decidable (∀ addr fd, pc = .awaitingAck addr fd false → P addr fd) :=
  match pc with
  | .awaitingAck addr fd false =>
    @decidable_of_iff _ (P addr fd) ⟨by rintro h _ _ ⟨⟩; exact h, fun h => h addr fd rfl⟩ (decide addr fd)
  | .awaitingAck _ _ true | .accepting | .greeting _ _ | .adding _ _ | .assigning _ _ | .dropping _ =>
    isTrue nofun

end Decisions

instance (s : State) (addr : Addr) (memory : Bool) : Decidable (s.AddsNew addr memory) :=
  inferInstanceAs (Decidable (memory = true → none ∈ s.peerArray → inArray addr s.peerArray = false))

instance (s : State) (created : Bool) : Decidable (s.HasThread created) :=
  inferInstanceAs (Decidable (0 ∈ s.threadStatusArray ∧ created = true))

instance (s : State) (action : Action) : Decidable (s.Orderly action) := by
  cases action with
  | main action =>
    cases action with
    | addToArray memory => exact decideAdding (fun _ _ => inferInstance) s.main
    | assignThread created => exact inferInstanceAs (Decidable (s.HasThread created))
    | _ => exact isTrue trivial
  | listener action =>
    cases action with
    | recvAck code => exact decideAwaitingAck (fun _ _ => inferInstance) s.listener
    | addToArray memory => exact decideListenerAdding (fun _ _ => inferInstance) s.listener
    | assignThread created => exact inferInstanceAs (Decidable (s.HasThread created))
    | _ => exact isTrue trivial
  | _ => exact isTrue trivial

theorem ledger_eq {s : State} (table : Nat → Option (Addr × Int)) (isOpen : Int → Prop)
    {holding : Holder → Holding Addr Int} (htable : ∀ i, s.ledger.table i = table i)
    (hopen : ∀ fd, fd ∈ s.sockets ↔ isOpen fd) (hholding : s.holding = holding)
    : s.ledger = { table, isOpen, holding } := by
  have htable : s.ledger.table = table := funext htable
  have hopen : s.ledger.isOpen = isOpen := by
    funext fd
    apply propext (hopen fd)
  rw [← htable, ← hopen, ← hholding]
  rfl

theorem table_congr {s s' : State} (hpeers : s'.peerArray = s.peerArray) (i : Nat)
    : s'.ledger.table i = s.ledger.table i := by
  simp only [ledger, hpeers]

theorem table_update {s s' : State} {i : Nat} {peer : Option Peer}
    (hpeers : peerAt s'.peerArray = Function.update (peerAt s.peerArray) i peer) (j : Nat)
    : s'.ledger.table j
        =
      Function.update s.ledger.table i (peer.map fun peer => (peer.addr, peer.socketFd)) j := by
  simp only [ledger, hpeers]
  by_cases hji : j = i
  . rw [hji, Function.update_self, Function.update_self]
  . rw [Function.update_of_ne hji, Function.update_of_ne hji]

theorem table_setThreadId {s s' : State} {addr : Addr} {threadId : Nat}
    (hpeers : s'.peerArray = setThreadId addr threadId s.peerArray) (i : Nat)
    : s'.ledger.table i = s.ledger.table i := by
  simp only [ledger, hpeers]
  apply map_peerAt_setThreadId
  intro peer threadId
  rfl

theorem AddsNew.not_listed {s : State} {addr : Addr} {memory : Bool} (hnew : s.AddsNew addr memory)
    (hmemory : memory = true) (hroom : none ∈ s.peerArray) (j : Nat) (fd : Int)
    : s.ledger.table j ≠ some (addr, fd) := by
  intro hj
  rw [table_eq_some] at hj
  obtain ⟨peer, hpeer, haddr, -⟩ := hj
  apply inArray_eq_false (hnew hmemory hroom) hpeer haddr

theorem keyed_unique {s : State} (hkeyed : s.ledger.Keyed) {i j : Nat} {peer peer' : Peer}
    (hi : peerAt s.peerArray i = some peer) (hj : peerAt s.peerArray j = some peer')
    (haddr : peer.addr = peer'.addr) : i = j := by
  apply hkeyed.keys
  . rw [table_eq_some]
    exact ⟨peer, hi, haddr, rfl⟩
  . rw [table_eq_some]
    exact ⟨peer', hj, rfl, rfl⟩

theorem table_remove {s s' : State} (hkeyed : s.ledger.Keyed) {i : Nat} {addr : Addr} {fd : Int}
    (hi : s.ledger.table i = some (addr, fd)) (hpeers : s'.peerArray = removeFromArray addr s.peerArray)
    (j : Nat)
    : s'.ledger.table j = Function.update s.ledger.table i none j := by
  obtain ⟨peer, hpeer, haddr, -⟩ := table_eq_some.mp hi
  rw [← haddr] at hpeers
  apply @table_update _ _ _ none
  rw [hpeers]
  apply peerAt_removeFromArray _ hpeer
  intro k peer' hk haddr'
  exact keyed_unique hkeyed hk hpeer haddr'

theorem ledger_same {s s' : State} (hpeers : s'.peerArray = s.peerArray)
    (hsockets : s'.sockets = s.sockets) (hholding : s'.holding = s.holding)
    : ReflGen Ledger.Move s.ledger s'.ledger := by
  have hledger : s'.ledger = s.ledger := by
    apply ledger_eq _ _ (table_congr hpeers) _ hholding
    intro fd
    rw [hsockets]
  rw [hledger]

theorem ledger_stay {s s' : State} {p : Holder} {x : Holding Addr Int} (hholds : s.holding p = x)
    (hpeers : s'.peerArray = s.peerArray) (hsockets : s'.sockets = s.sockets)
    (hholding : s'.holding = Function.update s.holding p x)
    : ReflGen Ledger.Move s.ledger s'.ledger := by
  apply ledger_same hpeers hsockets
  rw [hholding, ← hholds]
  apply Function.update_eq_self

theorem ledger_open {s s' : State} {p : Holder} {fd : Int} (hnothing : s.holding p = .nothing)
    (hfresh : fd ∉ s.sockets) (hpeers : s'.peerArray = s.peerArray)
    (hsockets : s'.sockets = fd :: s.sockets)
    (hholding : s'.holding = Function.update s.holding p (.resource fd))
    : ReflGen Ledger.Move s.ledger s'.ledger := by
  apply ReflGen.single
  rw [ledger_eq _ (fun x => x = fd ∨ x ∈ s.sockets) (table_congr hpeers) _ hholding]
  . apply Ledger.Move.acquire hnothing hfresh
  . intro x
    rw [hsockets, List.mem_cons]

theorem ledger_leak {s s' : State} {p : Holder} {fd : Int} (hholds : s.holding p = .resource fd)
    (hpeers : s'.peerArray = s.peerArray) (hsockets : s'.sockets = s.sockets)
    (hholding : s'.holding = Function.update s.holding p .nothing)
    : ReflGen Ledger.Move s.ledger s'.ledger := by
  apply ReflGen.single
  rw [ledger_eq _ (fun x => x ∈ s.sockets) (table_congr hpeers) _ hholding]
  . apply Ledger.Move.leak hholds
  . intro x
    rw [hsockets]

theorem ledger_close {s s' : State} {p : Holder} {fd : Int} (hholds : s.holding p = .resource fd)
    (hpeers : s'.peerArray = s.peerArray) (hsockets : s'.sockets = s.sockets.filter (· ≠ fd))
    (hholding : s'.holding = Function.update s.holding p .nothing)
    : ReflGen Ledger.Move s.ledger s'.ledger := by
  apply ReflGen.single
  rw [ledger_eq _ (fun x => x ∈ s.sockets ∧ x ≠ fd) (table_congr hpeers) _ hholding]
  . apply Ledger.Move.release hholds
  . intro x
    rw [hsockets, List.mem_filter, decide_eq_true_eq]

theorem ledger_add {s s' : State} {p : Holder} {addr : Addr} {fd ret : Int} {memory : Bool}
    (hadd : Connections.addToArray addr fd memory s.peerArray = (s'.peerArray, ret))
    (hnew : s.AddsNew addr memory) (hholds : s.holding p = .resource fd)
    (hsockets : s'.sockets = s.sockets)
    (hholding : s'.holding
        = Function.update s.holding p (if ret = 1 then .entry addr fd else .resource fd))
    : ReflGen Ledger.Move s.ledger s'.ledger := by
  obtain ⟨hret, hmemory, hroom, i, hfree, hpeers⟩ | ⟨hret, hpeers⟩ := Connections.addToArray_cases hadd
  . rw [if_pos hret] at hholding
    apply ReflGen.single
    rw [ledger_eq (Function.update s.ledger.table i (some (addr, fd))) (fun x => x ∈ s.sockets)
      (table_update hpeers) _ hholding]
    . apply Ledger.Move.register hholds
      . simp only [ledger, hfree, Option.map_none]
      . exact hnew.not_listed hmemory hroom
    . intro x
      rw [hsockets]
  . rw [if_neg hret] at hholding
    apply ledger_stay hholds hpeers hsockets hholding

theorem ledger_assign {s s' : State} {p : Holder} {addr : Addr} {fd : Int} {threadId : Nat}
    (hholds : s.holding p = .entry addr fd) (hpeers : s'.peerArray = setThreadId addr threadId s.peerArray)
    (hsockets : s'.sockets = s.sockets)
    (hholding : s'.holding
        = Function.update (Function.update s.holding p .nothing) (.handler s.handlers.length)
            (.entry addr fd))
    : ReflGen Ledger.Move s.ledger s'.ledger := by
  apply ReflGen.single
  rw [ledger_eq s.ledger.table (fun x => x ∈ s.sockets) (table_setThreadId hpeers) _ hholding]
  . apply Ledger.Move.transfer hholds
    simp [ledger, holding]
  . intro x
    rw [hsockets]

theorem ledger_remove {s s' : State} {p : Holder} {addr : Addr} {fd : Int}
    (hbalanced : s.ledger.Balanced) (hholds : s.holding p = .entry addr fd)
    (hpeers : s'.peerArray = removeFromArray addr s.peerArray) (hsockets : s'.sockets = s.sockets)
    (hholding : s'.holding = Function.update s.holding p (.resource fd))
    : ReflGen Ledger.Move s.ledger s'.ledger := by
  obtain ⟨i, hi⟩ := hbalanced.listed hholds
  apply ReflGen.single
  rw [ledger_eq (Function.update s.ledger.table i none) (fun x => x ∈ s.sockets)
    (table_remove hbalanced.keyed hi hpeers) _ hholding]
  . apply Ledger.Move.unregister hholds hi
  . intro x
    rw [hsockets]

theorem mainStep_ledger {s s' : State} {action : MainAction} (horderly : s.Orderly (.main action))
    (hstep : MainStep s action s')
    : ReflGen Ledger.Move s.ledger s'.ledger := by
  have hholds : s.holding .main = s.main.holding := rfl
  cases hstep with
  | socket hpc hfresh =>
    rw [hpc] at hholds
    exact ledger_open hholds hfresh rfl rfl (holding_of_main rfl rfl)
  | unreachable hpc =>
    rw [hpc] at hholds
    exact ledger_leak hholds rfl rfl (holding_of_main rfl rfl)
  | close hpc =>
    rw [hpc] at hholds
    exact ledger_close hholds rfl rfl (holding_of_main rfl rfl)
  | addToArray hpc hadd =>
    rw [hpc] at hholds
    refine ledger_add hadd (horderly _ _ hpc) hholds rfl ?_
    rw [holding_of_main (s := s) (by rfl) (by rfl)]
    split
    . rfl
    . rfl
  | assignThread hpc hlock hfind =>
    rw [hpc] at hholds
    rw [horderly.2]
    exact ledger_assign hholds rfl rfl (holding_of_started (p := .main) rfl (by simp) rfl rfl)
  | noThread hpc hlock hfull => exact absurd horderly.1 hfull
  | connected hpc | connect hpc | noSocket hpc | refused hpc | accepted hpc | disconnect hpc
  | unknown hpc | getFd hpc | fetchFd hpc | getThreadId hpc | sendDsn hpc | lockThreadStatus hpc
  | join hpc | fetch hpc | fetchUnknown hpc | giveUp hpc | sendReq hpc =>
    rw [hpc] at hholds
    exact ledger_stay hholds rfl rfl (holding_of_main rfl rfl)

theorem listenerStep_ledger {s s' : State} {action : ListenerAction}
    (horderly : s.Orderly (.listener action)) (hstep : ListenerStep s action s')
    : ReflGen Ledger.Move s.ledger s'.ledger := by
  have hholds : s.holding .listener = s.listener.holding := rfl
  cases hstep with
  | accept hpc hfresh =>
    rw [hpc] at hholds
    exact ledger_open hholds hfresh rfl rfl (holding_of_listener rfl rfl)
  | notGreeted hpc =>
    rw [hpc] at hholds
    exact ledger_close hholds rfl rfl (holding_of_listener rfl rfl)
  | @failed addr newSocket greeted hpc =>
    rw [hpc] at hholds
    cases greeted with
    | true => exact ledger_close hholds rfl rfl (holding_of_listener rfl rfl)
    | false =>
      -- the descriptor zero is closed, which is no connection
      refine ledger_stay hholds rfl ?_ (holding_of_listener rfl rfl)
      apply List.filter_eq_self.mpr
      intro fd hfd
      rw [decide_eq_true_eq]
      rintro rfl
      exact horderly _ _ hpc hfd
  | @ignored addr newSocket greeted hpc hopen =>
    rw [hpc] at hholds
    cases greeted with
    | true => exact ledger_leak hholds rfl rfl (holding_of_listener rfl rfl)
    | false => exact absurd hopen (horderly _ _ hpc)
  | @acked addr newSocket greeted hpc hopen =>
    rw [hpc] at hholds
    cases greeted with
    | true => exact ledger_stay hholds rfl rfl (holding_of_listener rfl rfl)
    | false => exact absurd hopen (horderly _ _ hpc)
  | addToArray hpc hadd =>
    rw [hpc] at hholds
    refine ledger_add hadd (horderly _ _ hpc) hholds rfl ?_
    rw [holding_of_listener (s := s) (by rfl) (by rfl)]
    split
    . rfl
    . rfl
  | assignThread hpc hlock hfind =>
    rw [hpc] at hholds
    rw [horderly.2]
    exact ledger_assign hholds rfl rfl (holding_of_started (p := .listener) rfl (by simp) rfl rfl)
  | noThread hpc hlock hfull => exact absurd horderly.1 hfull
  | close hpc =>
    rw [hpc] at hholds
    exact ledger_close hholds rfl rfl (holding_of_listener rfl rfl)
  | notAccepted hpc | greeted hpc =>
    rw [hpc] at hholds
    exact ledger_stay hholds rfl rfl (holding_of_listener rfl rfl)

theorem handlerStep_ledger {s s' : State} {thread : Nat} {h : Handler} {action : HandlerAction}
    (hbalanced : s.ledger.Balanced) (hget : s.handlers[thread]? = some h)
    (hstep : HandlerStep s thread h action s')
    : ReflGen Ledger.Move s.ledger s'.ledger := by
  have hholds : s.holding (.handler thread) = h.holding := by
    rw [holding, hget]
  rw [Handler.holding] at hholds
  cases hstep with
  | failed hpc | dsn hpc =>
    rw [hpc] at hholds
    exact ledger_stay hholds rfl rfl (holding_of_handler hget (.removing true) rfl rfl rfl)
  | closed hpc =>
    rw [hpc] at hholds
    exact ledger_stay hholds rfl rfl (holding_of_handler hget (.removing false) rfl rfl rfl)
  | other hpc => exact ReflGen.refl
  | @removeFromArray lock hpc =>
    rw [hpc] at hholds
    exact ledger_remove hbalanced hholds rfl rfl (holding_of_handler hget (.closing lock) rfl rfl rfl)
  | @close lock hpc =>
    rw [hpc] at hholds
    exact ledger_close hholds rfl rfl (holding_of_handler hget (.resetting lock) rfl rfl rfl)
  | resetStatus hpc hlock =>
    rw [hpc] at hholds
    exact ledger_stay hholds rfl rfl (holding_of_handler hget .exited rfl rfl rfl)

theorem step_ledger {s s' : State} {action : Action} (hbalanced : s.ledger.Balanced)
    (horderly : s.Orderly action) (hstep : Step s action s')
    : ReflGen Ledger.Move s.ledger s'.ledger := by
  unfold Step step at hstep
  cases action with
  | main action => apply mainStep_ledger horderly (mainStep_cases hstep)
  | listener action => apply listenerStep_ledger horderly (listenerStep_cases hstep)
  | handler thread action =>
    dsimp only at hstep
    split at hstep
    . next h hget => apply handlerStep_ledger hbalanced hget (handlerStep_cases hstep)
    . simp at hstep

theorem step_balanced {s s' : State} {action : Action} (hbalanced : s.ledger.Balanced)
    (horderly : s.Orderly action) (hstep : Step s action s') : s'.ledger.Balanced := by
  have hmove := step_ledger hbalanced horderly hstep
  rw [reflGen_iff] at hmove
  cases hmove with
  | inl hsame =>
    rw [hsame]
    exact hbalanced
  | inr hmove => apply hmove.balanced hbalanced

end State

end Btide.Connections
