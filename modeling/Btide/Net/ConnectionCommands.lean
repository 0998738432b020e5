import Btide.Net.ConnectionCases
import Btide.Lib.Transition

/-!
This module contains the connections on which DISCONNECT and FETCH act.
-/

open Bytes

namespace Btide.Connections

def MainPc.fd : MainPc → Option (Addr × Int)
  | .disconnectingFd addr fd => some (addr, fd)
  | .sendingDsn addr fd _ => some (addr, fd)
  | .sendingReq addr fd => some (addr, fd)
  | _ => none

def MainPc.slot : MainPc → Option (Addr × Nat)
  | .sendingDsn addr _ threadId => some (addr, threadId)
  | .locking addr threadId => some (addr, threadId)
  | .joining addr threadId => some (addr, threadId)
  | _ => none

def MainPc.found : MainPc → Option Addr
  | .disconnecting addr => some addr
  | .disconnectingFd addr _ => some addr
  | .fetching addr => some addr
  | _ => none

namespace State

def Registered (addr : Addr) (fd : Int) (s : State) : Prop :=
  ∃ i peer, peerAt s.peerArray i = some peer ∧ peer.addr = addr ∧ peer.socketFd = fd

def Serves (s : State) (addr : Addr) (threadId : Nat) : Prop :=
  ∃ thread h,
    s.threadArray.getD threadId none = some thread ∧ s.handlers[thread]? = some h ∧ h.addr = addr
      ∧ h.threadId = threadId

/--
`assign_thread` starts its thread in a slot that neither the table nor `peer_disconnect` has for
another peer.
-/
def takesOwn (s : State) (addr : Addr) (created : Bool) : Bool :=
  match s.threadStatusArray.findIdx? (· = 0) with
  | some threadId =>
    created
      && s.peerArray.all (·.all fun peer => peer.threadId ≠ some threadId || peer.addr = addr)
      && s.main.slot.all fun slot => slot.2 ≠ threadId || slot.1 = addr
  | none => true

/--
What has to hold before a step such that the commands act on the peer that they name: the entry that
`in_array` found is still there with its thread id, and no slot is taken from a peer.
-/
def Unvanished (s : State) : Action → Prop
  | .main .getFd => s.main.found.all (inArray · s.peerArray) = true
  | .main (.getThreadId _) =>
    s.main.found.all (fun addr => (firstPeer addr s.peerArray).any (·.threadId.isSome)) = true
  | .main (.assignThread created) =>
    match s.main with
    | .assigning addr _ => s.takesOwn addr created = true
    | _ => True
  | .listener (.assignThread created) =>
    match s.listener with
    | .assigning addr _ => s.takesOwn addr created = true
    | _ => True
  | _ => True

instance (s : State) (action : Action) : Decidable (s.Unvanished action) := by
  unfold Unvanished
  split <;> try infer_instance
  . split <;> infer_instance
  . split <;> infer_instance

structure Named (s : State) : Prop where
  length : s.threadArray.length = s.threadStatusArray.length
  peers {i threadId : Nat} {peer : Peer} (hpeer : peerAt s.peerArray i = some peer)
    (hid : peer.threadId = some threadId) : s.Serves peer.addr threadId
  slot {addr : Addr} {threadId : Nat} (h : s.main.slot = some (addr, threadId))
    : s.Serves addr threadId
  lock {addr : Addr} {threadId : Nat} (h : s.main = .joining addr threadId)
    : s.threadStatusLock = true

theorem Serves.congr {s s' : State} {addr : Addr} {threadId : Nat} (h : s.Serves addr threadId)
    (harray : s'.threadArray = s.threadArray)
    (hhandlers : ∀ (thread : Nat) (h : Handler), s.handlers[thread]? = some h
      → ∃ h' : Handler, s'.handlers[thread]? = some h' ∧ h'.addr = h.addr
        ∧ h'.threadId = h.threadId)
    : s'.Serves addr threadId := by
  obtain ⟨thread, h, hthread, hget, haddr, hid⟩ := h
  obtain ⟨h', hget', haddr', hid'⟩ := hhandlers thread h hget
  refine ⟨thread, h', ?_, hget', ?_, ?_⟩
  . rw [harray, hthread]
  . rw [haddr', haddr]
  . rw [hid', hid]

namespace Named

theorem next {s s' : State} (hnamed : s.Named) (harray : s'.threadArray = s.threadArray)
    (hlength : s'.threadStatusArray.length = s.threadStatusArray.length)
    (hhandlers : ∀ (thread : Nat) (h : Handler), s.handlers[thread]? = some h
      → ∃ h' : Handler, s'.handlers[thread]? = some h' ∧ h'.addr = h.addr
        ∧ h'.threadId = h.threadId)
    (hpeers : ∀ i peer, peerAt s'.peerArray i = some peer
      → peerAt s.peerArray i = some peer ∨ peer.threadId = none)
    (hslot : ∀ addr threadId, s'.main.slot = some (addr, threadId)
      → s.main.slot = some (addr, threadId) ∨ s.Serves addr threadId)
    (hlock : ∀ addr threadId, s'.main = .joining addr threadId → s'.threadStatusLock = true)
    : s'.Named where
  length := by
    rw [harray, hlength]
    exact hnamed.length
  peers hpeer hid := by
    cases hpeers _ _ hpeer with
    | inl hold => apply (hnamed.peers hold hid).congr harray hhandlers
    | inr hnone =>
      rw [hnone] at hid
      simp at hid
  slot h := by
    cases hslot _ _ h with
    | inl hold => apply (hnamed.slot hold).congr harray hhandlers
    | inr hnew => apply hnew.congr harray hhandlers
  lock h := hlock _ _ h

theorem start {s s' : State} {addr : Addr} {fd : Int} {threadId : Nat} {created : Bool}
    (hnamed : s.Named) (hfind : s.threadStatusArray.findIdx? (· = 0) = some threadId)
    (hlock : s.threadStatusLock = false) (hown : s.takesOwn addr created = true)
    (hpeerArray : s'.peerArray = (s.startThread addr fd threadId created).peerArray)
    (hstatus : s'.threadStatusArray = (s.startThread addr fd threadId created).threadStatusArray)
    (harray : s'.threadArray = (s.startThread addr fd threadId created).threadArray)
    (hhandlers : s'.handlers = (s.startThread addr fd threadId created).handlers)
    (hslot : ∀ a t, s'.main.slot = some (a, t) → s.main.slot = some (a, t))
    (hmain : ∀ a t, s'.main = .joining a t → s.main = .joining a t)
    : s'.Named := by
  unfold takesOwn at hown
  rw [hfind] at hown
  simp only [Bool.and_eq_true, List.all_eq_true, Option.all_eq_true, Bool.or_eq_true,
    decide_eq_true_eq] at hown
  obtain ⟨⟨hcreated, hpeers⟩, hnames⟩ := hown
  have hlt : threadId < s.threadStatusArray.length :=
    (List.getElem?_eq_some_iff.mp (status_of_findIdx? hfind)).1
  subst hcreated
  simp only [startThread, ↓reduceIte] at hpeerArray hstatus harray hhandlers
  -- the slots of the others are not touched
  have hserves : ∀ a t, t ≠ threadId ∨ a = addr → (t ≠ threadId → s.Serves a t) → s'.Serves a t := by
    intro a t hsame hold
    by_cases ht : t = threadId
    . subst ht
      have ha : a = addr := by
        cases hsame with
        | inl hne => exact absurd rfl hne
        | inr ha => exact ha
      refine ⟨s.handlers.length, { addr, clientSocketFd := fd, threadId := t, pc := .running }, ?_, ?_,
        ha.symm, rfl⟩
      . rw [harray, List.getD_eq_getElem?_getD,
          List.getElem?_set_self (by rw [hnamed.length]; exact hlt)]
        rfl
      . rw [hhandlers, List.getElem?_concat_length]
    . obtain ⟨thread, h, hthread, hget, haddr, hid⟩ := hold ht
      refine ⟨thread, h, ?_, ?_, haddr, hid⟩
      . rw [harray, List.getD_eq_getElem?_getD, List.getElem?_set_ne (Ne.symm ht),
          ← List.getD_eq_getElem?_getD, hthread]
      . rw [hhandlers, List.getElem?_append_left (List.getElem?_eq_some_iff.mp hget).1, hget]
  constructor
  . rw [harray, hstatus, List.length_set, List.length_set]
    exact hnamed.length
  . intro i t peer hpeer hid
    rw [hpeerArray] at hpeer
    obtain hold | ⟨haddr, hid'⟩ := peerAt_of_setThreadId hpeer
    . apply hserves
      . rw [peerAt_eq_some] at hold
        have hpeer := hpeers _ (List.mem_of_getElem? hold) peer rfl
        by_cases ht : t = threadId
        . subst ht
          cases hpeer with
          | inl hne => exact absurd hid hne
          | inr haddr => exact .inr haddr
        . exact .inl ht
      . intro _
        apply hnamed.peers hold hid
    . rw [hid'] at hid
      simp only [Option.some.injEq] at hid
      apply hserves _ _ (.inr haddr)
      intro hne
      exact absurd hid.symm hne
  . intro a t hpc
    have hold := hslot a t hpc
    apply hserves
    . exact hnames (a, t) hold
    . intro _
      apply hnamed.slot hold
  . intro a t hpc
    -- nobody waits in pthread_join without the lock
    have hheld := hnamed.lock (hmain a t hpc)
    rw [hlock] at hheld
    simp at hheld

end Named

theorem mainStep_named {s s' : State} {action : MainAction} (hnamed : s.Named)
    (hunvanished : s.Unvanished (.main action)) (hstep : MainStep s action s') : s'.Named := by
  have hsame : ∀ (thread : Nat) (h : Handler), s.handlers[thread]? = some h
      → ∃ h' : Handler, s.handlers[thread]? = some h' ∧ h'.addr = h.addr ∧ h'.threadId = h.threadId := by
    intro thread h hget
    exact ⟨h, hget, rfl, rfl⟩
  cases hstep with
  | addToArray hpc hadd =>
    refine hnamed.next rfl rfl hsame (fun i peer hpeer => peerAt_of_addToArray hadd hpeer) ?_ ?_
    . intro addr threadId hslot
      dsimp only at hslot
      split at hslot
      . simp [MainPc.slot] at hslot
      . simp [MainPc.slot] at hslot
    . intro addr threadId hjoining
      dsimp only at hjoining
      split at hjoining
      . simp at hjoining
      . simp at hjoining
  | @assignThread addr sock created threadId hpc hlock hfind =>
    simp only [Unvanished, hpc] at hunvanished
    refine hnamed.start hfind hlock hunvanished rfl rfl rfl rfl ?_ ?_
    . simp [MainPc.slot]
    . simp
  | @getThreadId addr fd garbage hpc =>
    refine hnamed.next rfl rfl hsame (fun i peer hpeer => .inl hpeer) ?_ (by simp)
    intro a t hslot
    simp only [MainPc.slot, Option.some.injEq, Prod.mk.injEq] at hslot
    obtain ⟨rfl, rfl⟩ := hslot
    simp only [Unvanished, hpc, MainPc.found, Option.all_some] at hunvanished
    rw [Option.any_eq_true] at hunvanished
    obtain ⟨peer, hfirst, hid⟩ := hunvanished
    obtain ⟨threadId, hid⟩ := Option.isSome_iff_exists.mp hid
    obtain ⟨haddr, i, hpeer⟩ := firstPeer_eq_some hfirst
    unfold getThreadId
    rw [hfirst]
    dsimp only
    rw [hid, Option.getD_some, ← haddr]
    exact .inr (hnamed.peers hpeer hid)
  | sendDsn hpc | lockThreadStatus hpc =>
    refine hnamed.next rfl rfl hsame (fun i peer hpeer => .inl hpeer) ?_ (by simp)
    intro a t hslot
    rw [hpc]
    exact .inl hslot
  | join hpc =>
    refine hnamed.next rfl List.length_set hsame (fun i peer hpeer => .inl hpeer) ?_ (by simp)
    intro a t hslot
    simp [MainPc.slot] at hslot
  | _ =>
    refine hnamed.next rfl rfl hsame (fun i peer hpeer => .inl hpeer) ?_ (by simp)
    intro a t hslot
    simp [MainPc.slot] at hslot

theorem listenerStep_named {s s' : State} {action : ListenerAction} (hnamed : s.Named)
    (hunvanished : s.Unvanished (.listener action)) (hstep : ListenerStep s action s') : s'.Named := by
  have hmain := hstep.main_eq
  have hsame : ∀ (thread : Nat) (h : Handler), s.handlers[thread]? = some h
      → ∃ h' : Handler, s.handlers[thread]? = some h' ∧ h'.addr = h.addr ∧ h'.threadId = h.threadId := by
    intro thread h hget
    exact ⟨h, hget, rfl, rfl⟩
  cases hstep with
  | addToArray hpc hadd =>
    exact hnamed.next rfl rfl hsame (fun i peer hpeer => peerAt_of_addToArray hadd hpeer)
      (fun a t hslot => .inl hslot) (fun a t hjoining => hnamed.lock hjoining)
  | @assignThread addr newSocket created threadId hpc hlock hfind =>
    simp only [Unvanished, hpc] at hunvanished
    refine hnamed.start hfind hlock hunvanished rfl rfl rfl rfl ?_ ?_
    . intro a t hslot
      rw [hmain] at hslot
      exact hslot
    . intro a t hjoining
      rw [hmain] at hjoining
      exact hjoining
  | _ =>
    exact hnamed.next rfl rfl hsame (fun i peer hpeer => .inl hpeer) (fun a t hslot => .inl hslot)
      (fun a t hjoining => hnamed.lock hjoining)

theorem handlerStep_named {s s' : State} {thread : Nat} {h : Handler} {action : HandlerAction}
    (hnamed : s.Named) (hget : s.handlers[thread]? = some h)
    (hstep : HandlerStep s thread h action s') : s'.Named := by
  -- a handler keeps its arguments
  have hset : ∀ (pc : HandlerPc) (t : Nat) (h' : Handler), s.handlers[t]? = some h'
      → ∃ h'' : Handler, (s.handlers.set thread { h with pc })[t]? = some h'' ∧ h''.addr = h'.addr
        ∧ h''.threadId = h'.threadId := by
    intro pc t h' hget'
    by_cases ht : t = thread
    . subst ht
      rw [hget] at hget'
      simp only [Option.some.injEq] at hget'
      subst hget'
      rw [List.getElem?_set_self (List.getElem?_eq_some_iff.mp hget).1]
      exact ⟨_, rfl, rfl, rfl⟩
    . rw [List.getElem?_set_ne (Ne.symm ht)]
      exact ⟨h', hget', rfl, rfl⟩
  cases hstep with
  | other hpc => exact hnamed
  | removeFromArray hpc =>
    exact hnamed.next rfl rfl (hset _) (fun i peer hpeer => .inl (peerAt_of_removeFromArray hpeer))
      (fun a t hslot => .inl hslot) (fun a t hjoining => hnamed.lock hjoining)
  | resetStatus hpc =>
    exact hnamed.next rfl List.length_set (hset _) (fun i peer hpeer => .inl hpeer)
      (fun a t hslot => .inl hslot) (fun a t hjoining => hnamed.lock hjoining)
  | failed hpc | closed hpc | dsn hpc | close hpc =>
    exact hnamed.next rfl rfl (hset _) (fun i peer hpeer => .inl hpeer)
      (fun a t hslot => .inl hslot) (fun a t hjoining => hnamed.lock hjoining)

theorem step_named {s s' : State} {action : Action} (hnamed : s.Named)
    (hunvanished : s.Unvanished action) (hstep : Step s action s') : s'.Named := by
  unfold Step step at hstep
  cases action with
  | main action => apply mainStep_named hnamed hunvanished (mainStep_cases hstep)
  | listener action => apply listenerStep_named hnamed hunvanished (listenerStep_cases hstep)
  | handler thread action =>
    dsimp only at hstep
    split at hstep
    . next h hget => apply handlerStep_named hnamed hget (handlerStep_cases hstep)
    . simp at hstep

theorem init_named (maxPeers : Nat) : (init maxPeers).Named where
  length := by
    simp [init]
  peers {i threadId peer} hpeer _ := by
    simp [init, peerAt, List.getElem?_replicate] at hpeer
    split at hpeer
    . simp at hpeer
    . simp at hpeer
  slot h := by
    simp [init, MainPc.slot] at h
  lock h := by
    simp [init] at h

theorem mainStep_fd {s s' : State} {action : MainAction} (hunvanished : s.Unvanished (.main action))
    (hstep : MainStep s action s') {addr : Addr} {fd : Int} (hfd : s'.main.fd = some (addr, fd))
    : s.main.fd = some (addr, fd) ∨ Registered addr fd s := by
  cases hstep with
  | @getFd addr' hpc | @fetchFd addr' hpc =>
    simp only [MainPc.fd, Option.some.injEq, Prod.mk.injEq] at hfd
    obtain ⟨rfl, rfl⟩ := hfd
    simp only [Unvanished, hpc, MainPc.found, Option.all_some] at hunvanished
    unfold inArray at hunvanished
    obtain ⟨peer, hfirst⟩ := Option.isSome_iff_exists.mp hunvanished
    obtain ⟨haddr, i, hpeer⟩ := firstPeer_eq_some hfirst
    refine .inr ⟨i, peer, hpeer, haddr, ?_⟩
    unfold getFd
    rw [hfirst]
  | getThreadId hpc =>
    rw [hpc]
    exact .inl hfd
  | addToArray hpc hadd =>
    dsimp only at hfd
    split at hfd
    . simp [MainPc.fd] at hfd
    . simp [MainPc.fd] at hfd
  | _ => simp [MainPc.fd] at hfd

theorem step_fd {s s' : State} {action : Action} (hunvanished : s.Unvanished action)
    (hstep : Step s action s') {addr : Addr} {fd : Int} (hfd : s'.main.fd = some (addr, fd))
    : s.main.fd = some (addr, fd) ∨ Registered addr fd s := by
  unfold Step step at hstep
  cases action with
  | main action => apply mainStep_fd hunvanished (mainStep_cases hstep) hfd
  | listener action =>
    rw [(listenerStep_cases hstep).main_eq] at hfd
    exact .inl hfd
  | handler thread action =>
    dsimp only at hstep
    split at hstep
    . rw [(handlerStep_cases hstep).main_eq] at hfd
      exact .inl hfd
    . simp at hstep

theorem run_fd {start s : State} (hstart : start.main.fd = none) (hrun : Run Step Unvanished start s)
    {addr : Addr} {fd : Int} (hfd : s.main.fd = some (addr, fd))
    : Run.Visits Step Unvanished (Registered addr fd) start s := by
  induction hrun with
  | refl =>
    rw [hstart] at hfd
    simp at hfd
  | tail hrun hmeets hstep ih =>
    have hbefore := step_fd hmeets hstep hfd
    apply Run.Visits.tail _ hmeets hstep
    cases hbefore with
    | inl hfd => apply ih hfd
    | inr hregistered => apply Run.Visits.last hrun hregistered

end State

open State

theorem acts_on_named {maxPeers : Nat} {s : State} (hrun : Run Step Unvanished (init maxPeers) s)
    : (∀ addr fd, s.main.fd = some (addr, fd)
          → Run.Visits Step Unvanished (Registered addr fd) (init maxPeers) s)
        ∧ ∀ addr threadId, s.main.slot = some (addr, threadId) → s.Serves addr threadId := by
  have hnamed : s.Named := by
    apply hrun.invariant (init_named maxPeers)
    intro s action s' hnamed hunvanished hstep
    apply step_named hnamed hunvanished hstep
  refine ⟨?_, fun addr threadId hslot => hnamed.slot hslot⟩
  intro addr fd hfd
  apply run_fd _ hrun hfd
  rfl

theorem acts_on_named_two
    : ∃ s : State, s.main = .joining ⟨[49], 50000⟩ 1 ∧ s.Serves ⟨[49], 50000⟩ 1 := by
  have hexec : Run.exec step Unvanished (init 2)
      [.listener (.accept ⟨[50], 50000⟩ (some 4)), .listener (.sendAcp true),
        .listener (.recvAck .ack), .listener (.addToArray true), .listener (.assignThread true),
        .listener (.accept ⟨[49], 50000⟩ (some 5)), .listener (.sendAcp true),
        .listener (.recvAck .ack), .listener (.addToArray true), .listener (.assignThread true),
        .main (.disconnect ⟨[49], 50000⟩), .main .getFd, .main (.getThreadId 0), .main .sendDsn,
        .main .lockThreadStatus]
      = some
        { peerArray :=
            [some { addr := ⟨[50], 50000⟩, socketFd := 4, threadId := some 0 },
              some { addr := ⟨[49], 50000⟩, socketFd := 5, threadId := some 1 }]
          peerArrayLock := false
          threadStatusArray := [1, 1]
          threadStatusLock := true
          threadArray := [some 0, some 1]
          handlers :=
            [{ addr := ⟨[50], 50000⟩, clientSocketFd := 4, threadId := 0, pc := .running },
              { addr := ⟨[49], 50000⟩, clientSocketFd := 5, threadId := 1, pc := .running }]
          sockets := [5, 4]
          main := .joining ⟨[49], 50000⟩ 1
          listener := .accepting } := by
    decide
  exact ⟨_, rfl, (acts_on_named (Run.of_exec hexec)).2 _ _ rfl⟩

/--
The peer closes the connection while it is disconnected: the DSN goes to the descriptor zero, and
`peer_disconnect` waits for the handler of the other peer.
-/
theorem acts_on_named_fails
    : ¬ ∀ maxPeers s, Run Step (fun _ _ => True) (init maxPeers) s
        → (∀ addr fd, s.main.fd = some (addr, fd)
            → Run.Visits Step (fun _ _ => True) (Registered addr fd) (init maxPeers) s)
          ∧ ∀ addr threadId, s.main.slot = some (addr, threadId) → s.Serves addr threadId := by
  intro h
  have hexec : Run.exec step (fun _ _ => True) (init 2)
      [.listener (.accept ⟨[50], 50000⟩ (some 4)), .listener (.sendAcp true),
        .listener (.recvAck .ack), .listener (.addToArray true), .listener (.assignThread true),
        .listener (.accept ⟨[49], 50000⟩ (some 5)), .listener (.sendAcp true),
        .listener (.recvAck .ack), .listener (.addToArray true), .listener (.assignThread true),
        .main (.disconnect ⟨[49], 50000⟩), .handler 1 (.recv .dsn), .handler 1 .removeFromArray,
        .main .getFd, .main (.getThreadId 0), .main .sendDsn, .main .lockThreadStatus]
      = some
        { peerArray := [some { addr := ⟨[50], 50000⟩, socketFd := 4, threadId := some 0 }, none]
          peerArrayLock := false
          threadStatusArray := [1, 1]
          threadStatusLock := true
          threadArray := [some 0, some 1]
          handlers :=
            [{ addr := ⟨[50], 50000⟩, clientSocketFd := 4, threadId := 0, pc := .running },
              { addr := ⟨[49], 50000⟩, clientSocketFd := 5, threadId := 1, pc := .closing true }]
          sockets := [5, 4]
          main := .joining ⟨[49], 50000⟩ 0
          listener := .accepting } := by
    decide
  obtain ⟨-, hslot⟩ := h 2 _ (Run.of_exec hexec)
  obtain ⟨thread, h, hthread, hget, haddr, -⟩ := hslot _ _ rfl
  simp only [List.getD_cons_zero, Option.some.injEq] at hthread
  subst hthread
  simp only [List.getElem?_cons_zero, Option.some.injEq] at hget
  subst hget
  simp at haddr

end Btide.Connections
