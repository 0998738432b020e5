import Btide.Net.ConnectionCases
import Btide.Lib.Transition

/-!
This module contains the runs in which `peer_disconnect` waits for a handler that waits for the mutex
that `peer_disconnect` holds.
-/

open Bytes

namespace Btide.Connections

def HandlerPc.locks : HandlerPc → Bool
  | .removing lock => lock
  | .closing lock => lock
  | .resetting lock => lock
  | _ => false

namespace State

/--
The main thread holds `thread_status_lock` while it waits in `pthread_join` for a handler that waits for
`thread_status_lock`.
-/
def Deadlocked (s : State) : Prop :=
  ∃ addr threadId thread h,
    s.main = .joining addr threadId ∧ s.threadStatusLock = true
      ∧ s.threadArray.getD threadId none = some thread ∧ s.handlers[thread]? = some h
      ∧ h.pc = .resetting true

def joins (s : State) (thread : Nat) : Bool :=
  match s.main with
  | .joining _ threadId => s.threadArray.getD threadId none = some thread
  | _ => false

def joined (s : State) : Option Handler :=
  match s.main with
  | .locking _ threadId => (s.threadArray.getD threadId none).bind (s.handlers[·]?)
  | _ => none

/--
What has to hold before a step such that `peer_disconnect` does not block: no handler that it waits
for gets an error or a DSN, and it does not begin to wait for a handler that already got one.
-/
def Uncrossed (s : State) : Action → Prop
  | .handler thread (.recv .failed) => s.joins thread = false
  | .handler thread (.recv .dsn) => s.joins thread = false
  | .main .lockThreadStatus => s.joined.all (!·.pc.locks) = true
  | _ => True

instance (s : State) (action : Action) : Decidable (s.Uncrossed action) := by
  unfold Uncrossed
  split <;> infer_instance

def Unblocked (s : State) : Prop :=
  ∀ addr threadId, s.main = .joining addr threadId → s.threadStatusLock = true
    ∧ ∀ thread h, s.threadArray.getD threadId none = some thread → s.handlers[thread]? = some h
      → h.pc.locks = false

theorem mainStep_unblocked {s s' : State} {action : MainAction}
    (huncrossed : s.Uncrossed (.main action)) (hstep : MainStep s action s') : s'.Unblocked := by
  intro addr threadId hpc'
  cases hstep with
  | @lockThreadStatus addr' threadId' hpc hlock =>
    simp only [MainPc.joining.injEq] at hpc'
    obtain ⟨-, rfl⟩ := hpc'
    refine ⟨rfl, ?_⟩
    intro thread h hthread hget
    unfold Uncrossed joined at huncrossed
    dsimp only at hthread hget
    rw [hpc] at huncrossed
    dsimp only at huncrossed
    rw [hthread, Option.bind_some, hget, Option.all_some] at huncrossed
    simpa using huncrossed
  | addToArray hpc hadd =>
    dsimp only at hpc'
    split at hpc'
    . simp at hpc'
    . simp at hpc'
  | _ => simp at hpc'

theorem listenerStep_unblocked {s s' : State} {action : ListenerAction} (hunblocked : s.Unblocked)
    (hstep : ListenerStep s action s') : s'.Unblocked := by
  intro addr threadId hpc'
  rw [hstep.main_eq] at hpc'
  have hheld := hunblocked addr threadId hpc'
  cases hstep with
  | assignThread hpc hlock hfind =>
    -- the listener cannot enter the critical section
    rw [hlock] at hheld
    simp at hheld
  | _ => exact hheld

theorem setHandler_unblocked {s s' : State} {thread : Nat} {h : Handler} {pc : HandlerPc}
    (hunblocked : s.Unblocked) (hget : s.handlers[thread]? = some h) (hmain : s'.main = s.main)
    (hlock : s'.threadStatusLock = s.threadStatusLock) (harray : s'.threadArray = s.threadArray)
    (hhandlers : s'.handlers = s.handlers.set thread { h with pc })
    (hpc : s.joins thread = true → h.pc.locks = false → pc.locks = false) : s'.Unblocked := by
  intro addr threadId hpc'
  rw [hmain] at hpc'
  obtain ⟨hheld, hjoined⟩ := hunblocked addr threadId hpc'
  refine ⟨by rw [hlock, hheld], ?_⟩
  intro t h' ht hget'
  rw [harray] at ht
  rw [hhandlers] at hget'
  by_cases hsame : t = thread
  . subst hsame
    rw [List.getElem?_set_self (List.getElem?_eq_some_iff.mp hget).1] at hget'
    simp only [Option.some.injEq] at hget'
    subst hget'
    apply hpc
    . unfold joins
      rw [hpc']
      simp only [ht, decide_true]
    . apply hjoined t h ht hget
  . rw [List.getElem?_set_ne (Ne.symm hsame)] at hget'
    apply hjoined t h' ht hget'

theorem handlerStep_unblocked {s s' : State} {thread : Nat} {h : Handler} {action : HandlerAction}
    (hunblocked : s.Unblocked) (huncrossed : s.Uncrossed (.handler thread action))
    (hget : s.handlers[thread]? = some h) (hstep : HandlerStep s thread h action s')
    : s'.Unblocked := by
  cases hstep with
  | failed hpc | dsn hpc =>
    refine setHandler_unblocked hunblocked hget rfl rfl rfl rfl ?_
    intro hjoins
    rw [Uncrossed, hjoins] at huncrossed
    simp at huncrossed
  | other hpc => exact hunblocked
  | closed hpc | resetStatus hpc =>
    refine setHandler_unblocked hunblocked hget rfl rfl rfl rfl ?_
    intro hjoins hlocks
    rfl
  | removeFromArray hpc | close hpc =>
    refine setHandler_unblocked hunblocked hget rfl rfl rfl rfl ?_
    intro hjoins hlocks
    rw [hpc] at hlocks
    exact hlocks

theorem step_unblocked {s s' : State} {action : Action} (hunblocked : s.Unblocked)
    (huncrossed : s.Uncrossed action) (hstep : Step s action s') : s'.Unblocked := by
  unfold Step step at hstep
  cases action with
  | main action => apply mainStep_unblocked huncrossed (mainStep_cases hstep)
  | listener action => apply listenerStep_unblocked hunblocked (listenerStep_cases hstep)
  | handler thread action =>
    dsimp only at hstep
    split at hstep
    . next h hget => apply handlerStep_unblocked hunblocked huncrossed hget (handlerStep_cases hstep)
    . simp at hstep

end State

open State

theorem never_deadlocks {maxPeers : Nat} {s : State} (hrun : Run Step Uncrossed (init maxPeers) s)
    : ¬ s.Deadlocked := by
  have hunblocked : s.Unblocked := by
    apply hrun.invariant
    . intro addr threadId hpc
      simp [init] at hpc
    . intro s action s' hunblocked huncrossed hstep
      apply step_unblocked hunblocked huncrossed hstep
  rintro ⟨addr, threadId, thread, h, hpc, hlock, hthread, hget, hresetting⟩
  have hlocks := (hunblocked addr threadId hpc).2 thread h hthread hget
  rw [hresetting] at hlocks
  simp [HandlerPc.locks] at hlocks

theorem never_deadlocks_closed
    : ∃ s : State, s.main = .joining ⟨[49], 50000⟩ 0
        ∧ s.handlers
            = [{ addr := ⟨[49], 50000⟩, clientSocketFd := 4, threadId := 0, pc := .resetting false }]
        ∧ ¬ s.Deadlocked := by
  have hexec : Run.exec step Uncrossed (init 1)
      [.listener (.accept ⟨[49], 50000⟩ (some 4)), .listener (.sendAcp true),
        .listener (.recvAck .ack), .listener (.addToArray true), .listener (.assignThread true),
        .main (.disconnect ⟨[49], 50000⟩), .main .getFd, .main (.getThreadId 0), .main .sendDsn,
        .main .lockThreadStatus, .handler 0 (.recv .closed), .handler 0 .removeFromArray,
        .handler 0 .close]
      = some
        { peerArray := [none]
          peerArrayLock := false
          threadStatusArray := [1]
          threadStatusLock := true
          threadArray := [some 0]
          handlers :=
            [{ addr := ⟨[49], 50000⟩, clientSocketFd := 4, threadId := 0, pc := .resetting false }]
          sockets := []
          main := .joining ⟨[49], 50000⟩ 0
          listener := .accepting } := by
    decide
  exact ⟨_, rfl, rfl, never_deadlocks (Run.of_exec hexec)⟩

/--
Both sides disconnect at the same time: the handler gets the DSN of the remote side while the main
thread waits for it.
-/
theorem never_deadlocks_fails
    : ¬ ∀ maxPeers s, Run Step (fun _ _ => True) (init maxPeers) s → ¬ s.Deadlocked := by
  intro h
  have hexec : Run.exec step (fun _ _ => True) (init 1)
      [.listener (.accept ⟨[49], 50000⟩ (some 4)), .listener (.sendAcp true),
        .listener (.recvAck .ack), .listener (.addToArray true), .listener (.assignThread true),
        .main (.disconnect ⟨[49], 50000⟩), .main .getFd, .main (.getThreadId 0), .main .sendDsn,
        .main .lockThreadStatus, .handler 0 (.recv .dsn), .handler 0 .removeFromArray,
        .handler 0 .close]
      = some
        { peerArray := [none]
          peerArrayLock := false
          threadStatusArray := [1]
          threadStatusLock := true
          threadArray := [some 0]
          handlers :=
            [{ addr := ⟨[49], 50000⟩, clientSocketFd := 4, threadId := 0, pc := .resetting true }]
          sockets := []
          main := .joining ⟨[49], 50000⟩ 0
          listener := .accepting } := by
    decide
  apply h 1 _ (Run.of_exec hexec)
  exact ⟨_, _, _, _, rfl, rfl, rfl, rfl, rfl⟩

end Btide.Connections
