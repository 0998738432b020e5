import Btide.Net.ConnectionTables

/-!
This module contains the steps of the threads, one by one, with the conditions under which they are
taken.
-/

open Bytes

namespace Btide.Connections

namespace State

theorem openSocket_cases {s s' : State} {fd : Int} (h : s.openSocket fd = some s')
    : fd ∉ s.sockets ∧ s' = { s with sockets := fd :: s.sockets } := by
  unfold openSocket at h
  split at h
  . next hfresh =>
    simp only [Option.some.injEq] at h
    exact ⟨hfresh.2, h.symm⟩
  . simp at h

theorem addToArray_cases {s s' : State} {addr : Addr} {fd ret : Int} {memory : Bool}
    (h : s.addToArray addr fd memory = some (s', ret))
    : ∃ peerArray,
        Connections.addToArray addr fd memory s.peerArray = (peerArray, ret)
          ∧ s' = { s with peerArray, peerArrayLock := ret = -1 } := by
  unfold addToArray at h
  split at h
  . simp at h
  . simp only [Option.some.injEq, Prod.mk.injEq] at h
    rw [← h.2, ← h.1]
    exact ⟨_, rfl, rfl⟩

theorem assignThread_cases {s s' : State} {addr : Addr} {fd ret : Int} {created : Bool}
    (h : s.assignThread addr fd created = some (s', ret))
    : s.threadStatusLock = false
        ∧ ((ret = 0 ∧ ∃ threadId, s.threadStatusArray.findIdx? (· = 0) = some threadId
              ∧ s' = s.startThread addr fd threadId created)
            ∨ (ret = -1 ∧ 0 ∉ s.threadStatusArray ∧ s' = s)) := by
  unfold assignThread at h
  split at h
  . simp at h
  . next hlock =>
    refine ⟨by simpa using fun hheld => hlock (.inl hheld), ?_⟩
    split at h
    . next threadId hfind =>
      simp only [Option.some.injEq, Prod.mk.injEq] at h
      exact .inl ⟨h.2.symm, threadId, hfind, h.1.symm⟩
    . next hfind =>
      simp only [Option.some.injEq, Prod.mk.injEq] at h
      rw [List.findIdx?_eq_none_iff] at hfind
      refine .inr ⟨h.2.symm, ?_, h.1.symm⟩
      intro hmem
      have := hfind 0 hmem
      simp at this

theorem status_of_findIdx? {s : State} {threadId : Nat}
    (hfind : s.threadStatusArray.findIdx? (· = 0) = some threadId)
    : s.threadStatusArray[threadId]? = some 0 := by
  rw [List.findIdx?_eq_some_iff_getElem] at hfind
  obtain ⟨hlt, hzero, -⟩ := hfind
  rw [decide_eq_true_eq] at hzero
  rw [List.getElem?_eq_getElem hlt, hzero]

inductive MainStep (s : State) : MainAction → State → Prop where
  | connected {addr : Addr} {ret : Int} (hpc : s.main = .idle ret)
      (h : inArray addr s.peerArray = true)
    : MainStep s (.connect addr) { s with main := .idle (-1) }
  | connect {addr : Addr} {ret : Int} (hpc : s.main = .idle ret)
      (h : inArray addr s.peerArray = false)
    : MainStep s (.connect addr) { s with main := .dialing addr }
  | noSocket {addr : Addr} (hpc : s.main = .dialing addr)
    : MainStep s (.socket none) { s with main := .idle (-1) }
  | socket {addr : Addr} {sock : Int} (hpc : s.main = .dialing addr) (hfresh : sock ∉ s.sockets)
    : MainStep s (.socket (some sock))
        { s with main := .shakingHands addr sock, sockets := sock :: s.sockets }
  | unreachable {addr : Addr} {sock : Int} (hpc : s.main = .shakingHands addr sock)
    : MainStep s (.shakeHands .unreachable) { s with main := .idle (-1) }
  | refused {addr : Addr} {sock : Int} (hpc : s.main = .shakingHands addr sock)
    : MainStep s (.shakeHands .refused) { s with main := .dropping addr sock (-1) }
  | accepted {addr : Addr} {sock : Int} (hpc : s.main = .shakingHands addr sock)
    : MainStep s (.shakeHands .accepted) { s with main := .adding addr sock }
  | addToArray {addr : Addr} {sock ret : Int} {memory : Bool} {peerArray : PeerArray}
      (hpc : s.main = .adding addr sock)
      (h : Connections.addToArray addr sock memory s.peerArray = (peerArray, ret))
    : MainStep s (.addToArray memory)
        { s with
          peerArray
          peerArrayLock := ret = -1
          main := if ret = 1 then .assigning addr sock else .dropping addr sock (-1) }
  | assignThread {addr : Addr} {sock : Int} {created : Bool} {threadId : Nat}
      (hpc : s.main = .assigning addr sock) (hlock : s.threadStatusLock = false)
      (hfind : s.threadStatusArray.findIdx? (· = 0) = some threadId)
    : MainStep s (.assignThread created) { s.startThread addr sock threadId created with main := .idle 1 }
  | noThread {addr : Addr} {sock : Int} {created : Bool} (hpc : s.main = .assigning addr sock)
      (hlock : s.threadStatusLock = false) (hfull : 0 ∉ s.threadStatusArray)
    : MainStep s (.assignThread created) { s with main := .dropping addr sock 1 }
  | close {addr : Addr} {sock ret : Int} (hpc : s.main = .dropping addr sock ret)
    : MainStep s .close { s.closeSocket sock with main := .idle ret }
  | disconnect {addr : Addr} {ret : Int} (hpc : s.main = .idle ret)
      (h : inArray addr s.peerArray = true)
    : MainStep s (.disconnect addr) { s with main := .disconnecting addr }
  | unknown {addr : Addr} {ret : Int} (hpc : s.main = .idle ret)
      (h : inArray addr s.peerArray = false)
    : MainStep s (.disconnect addr) { s with main := .idle (-1) }
  | getFd {addr : Addr} (hpc : s.main = .disconnecting addr)
    : MainStep s .getFd { s with main := .disconnectingFd addr (getFd addr s.peerArray) }
  | fetchFd {addr : Addr} (hpc : s.main = .fetching addr)
    : MainStep s .getFd { s with main := .sendingReq addr (getFd addr s.peerArray) }
  | getThreadId {addr : Addr} {fd : Int} {garbage : Nat} (hpc : s.main = .disconnectingFd addr fd)
    : MainStep s (.getThreadId garbage)
        { s with main := .sendingDsn addr fd (getThreadId addr garbage s.peerArray) }
  | sendDsn {addr : Addr} {fd : Int} {threadId : Nat} (hpc : s.main = .sendingDsn addr fd threadId)
    : MainStep s .sendDsn { s with main := .locking addr threadId }
  | lockThreadStatus {addr : Addr} {threadId : Nat} (hpc : s.main = .locking addr threadId)
      (hlock : s.threadStatusLock = false)
    : MainStep s .lockThreadStatus
        { s with main := .joining addr threadId, threadStatusLock := true }
  | join {addr : Addr} {threadId : Nat} (hpc : s.main = .joining addr threadId)
      (hjoin : s.joinable threadId = true)
    : MainStep s .join
        { s with
          main := .idle 1
          threadStatusArray := s.threadStatusArray.set threadId 0
          threadStatusLock := false }
  | fetch {addr : Addr} {ret : Int} (hpc : s.main = .idle ret) (h : inArray addr s.peerArray = true)
    : MainStep s (.fetch addr) { s with main := .fetching addr }
  | fetchUnknown {addr : Addr} {ret : Int} (hpc : s.main = .idle ret)
      (h : inArray addr s.peerArray = false)
    : MainStep s (.fetch addr) { s with main := .idle 0 }
  | giveUp {addr : Addr} (hpc : s.main = .fetching addr)
    : MainStep s .giveUp { s with main := .idle 0 }
  | sendReq {addr : Addr} {fd : Int} (hpc : s.main = .sendingReq addr fd)
    : MainStep s .sendReq { s with main := .idle 1 }

theorem mainStep_cases {s s' : State} {action : MainAction} (h : s.mainStep action = some s')
    : MainStep s action s' := by
  cases action with
  | connect addr =>
    simp only [mainStep] at h
    split at h
    . next hpc =>
      split at h
      . simp at h
      . split at h
        . next hin =>
          cases h
          apply MainStep.connected hpc hin
        . next hin =>
          cases h
          apply MainStep.connect hpc (by simpa using hin)
    . simp at h
  | socket sock =>
    simp only [mainStep] at h
    split at h
    . next hpc =>
      cases h
      apply MainStep.noSocket hpc
    . next hpc =>
      rw [Option.map_eq_some_iff] at h
      obtain ⟨s₁, hopen, rfl⟩ := h
      obtain ⟨hfresh, rfl⟩ := openSocket_cases hopen
      apply MainStep.socket hpc hfresh
    . simp at h
  | shakeHands answer =>
    simp only [mainStep] at h
    split at h
    . next hpc =>
      cases h
      apply MainStep.unreachable hpc
    . next hpc =>
      cases h
      apply MainStep.refused hpc
    . next hpc =>
      cases h
      apply MainStep.accepted hpc
    . simp at h
  | addToArray memory =>
    simp only [mainStep] at h
    split at h
    . next addr sock hpc =>
      rw [Option.map_eq_some_iff] at h
      obtain ⟨⟨s₁, ret⟩, hadd, rfl⟩ := h
      obtain ⟨peerArray, htable, rfl⟩ := addToArray_cases hadd
      have hstep := MainStep.addToArray hpc htable
      split
      . next hret =>
        rw [if_pos hret] at hstep
        exact hstep
      . next hret =>
        rw [if_neg hret] at hstep
        exact hstep
    . simp at h
  | assignThread created =>
    simp only [mainStep] at h
    split at h
    . next hpc =>
      rw [Option.map_eq_some_iff] at h
      obtain ⟨⟨s₁, ret⟩, hassign, rfl⟩ := h
      obtain ⟨hlock, ⟨rfl, threadId, hfind, rfl⟩ | ⟨rfl, hfull, rfl⟩⟩ := assignThread_cases hassign
      . apply MainStep.assignThread hpc hlock hfind
      . apply MainStep.noThread hpc hlock hfull
    . simp at h
  | close =>
    simp only [mainStep] at h
    split at h
    . next hpc =>
      cases h
      apply MainStep.close hpc
    . simp at h
  | disconnect addr =>
    simp only [mainStep] at h
    split at h
    . next hpc =>
      split at h
      . simp at h
      . split at h
        . next hin =>
          cases h
          apply MainStep.disconnect hpc hin
        . next hin =>
          cases h
          apply MainStep.unknown hpc (by simpa using hin)
    . simp at h
  | getFd =>
    simp only [mainStep] at h
    split at h
    . simp at h
    . split at h
      . next hpc =>
        cases h
        apply MainStep.getFd hpc
      . next hpc =>
        cases h
        apply MainStep.fetchFd hpc
      . simp at h
  | getThreadId garbage =>
    simp only [mainStep] at h
    split at h
    . simp at h
    . split at h
      . next hpc =>
        cases h
        apply MainStep.getThreadId hpc
      . simp at h
  | sendDsn =>
    simp only [mainStep] at h
    split at h
    . next hpc =>
      cases h
      apply MainStep.sendDsn hpc
    . simp at h
  | lockThreadStatus =>
    simp only [mainStep] at h
    split at h
    . next hpc =>
      split at h
      . simp at h
      . next hlock =>
        cases h
        apply MainStep.lockThreadStatus hpc (by simpa using hlock)
    . simp at h
  | join =>
    simp only [mainStep] at h
    split at h
    . next hpc =>
      split at h
      . next hjoin =>
        cases h
        apply MainStep.join hpc hjoin
      . simp at h
    . simp at h
  | fetch addr =>
    simp only [mainStep] at h
    split at h
    . next hpc =>
      split at h
      . simp at h
      . split at h
        . next hin =>
          cases h
          apply MainStep.fetch hpc hin
        . next hin =>
          cases h
          apply MainStep.fetchUnknown hpc (by simpa using hin)
    . simp at h
  | giveUp =>
    simp only [mainStep] at h
    split at h
    . next hpc =>
      cases h
      apply MainStep.giveUp hpc
    . simp at h
  | sendReq =>
    simp only [mainStep] at h
    split at h
    . next hpc =>
      cases h
      apply MainStep.sendReq hpc
    . simp at h

inductive ListenerStep (s : State) : ListenerAction → State → Prop where
  | accept {addr : Addr} {newSocket : Int} (hpc : s.listener = .accepting)
      (hfresh : newSocket ∉ s.sockets)
    : ListenerStep s (.accept addr (some newSocket))
        { s with listener := .greeting addr newSocket, sockets := newSocket :: s.sockets }
  | notAccepted {addr : Addr} (hpc : s.listener = .accepting)
    : ListenerStep s (.accept addr none) { s with listener := .awaitingAck addr 0 false }
  | greeted {addr : Addr} {newSocket : Int} (hpc : s.listener = .greeting addr newSocket)
    : ListenerStep s (.sendAcp true) { s with listener := .awaitingAck addr newSocket true }
  | notGreeted {addr : Addr} {newSocket : Int} (hpc : s.listener = .greeting addr newSocket)
    : ListenerStep s (.sendAcp false)
        { s.closeSocket newSocket with listener := .awaitingAck addr 0 false }
  | failed {addr : Addr} {newSocket : Int} {greeted : Bool}
      (hpc : s.listener = .awaitingAck addr newSocket greeted)
    : ListenerStep s (.recvAck .failed) { s.closeSocket newSocket with listener := .accepting }
  | ignored {addr : Addr} {newSocket : Int} {greeted : Bool}
      (hpc : s.listener = .awaitingAck addr newSocket greeted) (hopen : newSocket ∈ s.sockets)
    : ListenerStep s (.recvAck .other) { s with listener := .accepting }
  | acked {addr : Addr} {newSocket : Int} {greeted : Bool}
      (hpc : s.listener = .awaitingAck addr newSocket greeted) (hopen : newSocket ∈ s.sockets)
    : ListenerStep s (.recvAck .ack) { s with listener := .adding addr newSocket }
  | addToArray {addr : Addr} {newSocket ret : Int} {memory : Bool} {peerArray : PeerArray}
      (hpc : s.listener = .adding addr newSocket)
      (h : Connections.addToArray addr newSocket memory s.peerArray = (peerArray, ret))
    : ListenerStep s (.addToArray memory)
        { s with
          peerArray
          peerArrayLock := ret = -1
          listener := if ret = 1 then .assigning addr newSocket else .dropping newSocket }
  | assignThread {addr : Addr} {newSocket : Int} {created : Bool} {threadId : Nat}
      (hpc : s.listener = .assigning addr newSocket) (hlock : s.threadStatusLock = false)
      (hfind : s.threadStatusArray.findIdx? (· = 0) = some threadId)
    : ListenerStep s (.assignThread created)
        { s.startThread addr newSocket threadId created with listener := .accepting }
  | noThread {addr : Addr} {newSocket : Int} {created : Bool}
      (hpc : s.listener = .assigning addr newSocket) (hlock : s.threadStatusLock = false)
      (hfull : 0 ∉ s.threadStatusArray)
    : ListenerStep s (.assignThread created) { s with listener := .dropping newSocket }
  | close {newSocket : Int} (hpc : s.listener = .dropping newSocket)
    : ListenerStep s .close { s.closeSocket newSocket with listener := .accepting }

theorem listenerStep_cases {s s' : State} {action : ListenerAction}
    (h : s.listenerStep action = some s') : ListenerStep s action s' := by
  cases action with
  | accept addr newSocket =>
    simp only [listenerStep] at h
    split at h
    . next hpc =>
      rw [Option.map_eq_some_iff] at h
      obtain ⟨s₁, hopen, rfl⟩ := h
      obtain ⟨hfresh, rfl⟩ := openSocket_cases hopen
      apply ListenerStep.accept hpc hfresh
    . next hpc =>
      cases h
      apply ListenerStep.notAccepted hpc
    . simp at h
  | sendAcp sent =>
    simp only [listenerStep] at h
    split at h
    . next hpc =>
      split at h
      . next hsent =>
        cases h
        rw [hsent]
        apply ListenerStep.greeted hpc
      . next hsent =>
        cases h
        rw [Bool.not_eq_true] at hsent
        rw [hsent]
        apply ListenerStep.notGreeted hpc
    . simp at h
  | recvAck reply =>
    simp only [listenerStep] at h
    split at h
    . next hpc =>
      cases reply with
      | failed =>
        cases h
        apply ListenerStep.failed hpc
      | other =>
        dsimp only at h
        split at h
        . next hopen =>
          cases h
          apply ListenerStep.ignored hpc hopen
        . simp at h
      | ack =>
        dsimp only at h
        split at h
        . next hopen =>
          cases h
          apply ListenerStep.acked hpc hopen
        . simp at h
    . simp at h
  | addToArray memory =>
    simp only [listenerStep] at h
    split at h
    . next addr newSocket hpc =>
      rw [Option.map_eq_some_iff] at h
      obtain ⟨⟨s₁, ret⟩, hadd, rfl⟩ := h
      obtain ⟨peerArray, htable, rfl⟩ := addToArray_cases hadd
      have hstep := ListenerStep.addToArray hpc htable
      split
      . next hret =>
        rw [if_pos hret] at hstep
        exact hstep
      . next hret =>
        rw [if_neg hret] at hstep
        exact hstep
    . simp at h
  | assignThread created =>
    simp only [listenerStep] at h
    split at h
    . next hpc =>
      rw [Option.map_eq_some_iff] at h
      obtain ⟨⟨s₁, ret⟩, hassign, rfl⟩ := h
      obtain ⟨hlock, ⟨rfl, threadId, hfind, rfl⟩ | ⟨rfl, hfull, rfl⟩⟩ := assignThread_cases hassign
      . apply ListenerStep.assignThread hpc hlock hfind
      . apply ListenerStep.noThread hpc hlock hfull
    . simp at h
  | close =>
    simp only [listenerStep] at h
    split at h
    . next hpc =>
      cases h
      apply ListenerStep.close hpc
    . simp at h

section

variable (s : State) (addr : Addr) (fd : Int) (threadId : Nat) (created : Bool)

theorem startThread_main : (s.startThread addr fd threadId created).main = s.main := by
  unfold startThread
  split
  . rfl
  . rfl

theorem startThread_listener : (s.startThread addr fd threadId created).listener = s.listener := by
  unfold startThread
  split
  . rfl
  . rfl

theorem startThread_peerArray
    : (s.startThread addr fd threadId created).peerArray = setThreadId addr threadId s.peerArray := by
  unfold startThread
  split
  . rfl
  . rfl

theorem startThread_handlers
    : (s.startThread addr fd threadId created).handlers
        =
      if created then
        s.handlers ++ [{ addr, clientSocketFd := fd, threadId, pc := .running }]
      else
        s.handlers := by
  unfold startThread
  split
  . rfl
  . rfl

end

theorem ListenerStep.main_eq {s s' : State} {action : ListenerAction}
    (hstep : ListenerStep s action s') : s'.main = s.main := by
  cases hstep with
  | assignThread => apply startThread_main
  | _ => rfl

inductive HandlerStep (s : State) (thread : Nat) (h : Handler) : HandlerAction → State → Prop where
  | failed (hpc : h.pc = .running)
    : HandlerStep s thread h (.recv .failed) (s.setHandler thread h (.removing true))
  | closed (hpc : h.pc = .running)
    : HandlerStep s thread h (.recv .closed) (s.setHandler thread h (.removing false))
  | dsn (hpc : h.pc = .running)
    : HandlerStep s thread h (.recv .dsn) (s.setHandler thread h (.removing true))
  | other (hpc : h.pc = .running) : HandlerStep s thread h (.recv .other) s
  | removeFromArray {lock : Bool} (hpc : h.pc = .removing lock)
    : HandlerStep s thread h .removeFromArray
        { s.setHandler thread h (.closing lock) with
          peerArray := removeFromArray h.addr s.peerArray }
  | close {lock : Bool} (hpc : h.pc = .closing lock)
    : HandlerStep s thread h .close
        ((s.closeSocket h.clientSocketFd).setHandler thread h (.resetting lock))
  | resetStatus {lock : Bool} (hpc : h.pc = .resetting lock)
      (hlock : lock = true → s.threadStatusLock = false)
    : HandlerStep s thread h .resetStatus
        { s.setHandler thread h .exited with
          threadStatusArray := s.threadStatusArray.set h.threadId 0 }

theorem handlerStep_cases {s s' : State} {thread : Nat} {h : Handler} {action : HandlerAction}
    (hstep : s.handlerStep thread h action = some s') : HandlerStep s thread h action s' := by
  cases action with
  | recv packet =>
    simp only [handlerStep] at hstep
    split at hstep
    . next hpc =>
      cases hstep
      apply HandlerStep.failed hpc
    . next hpc =>
      cases hstep
      apply HandlerStep.closed hpc
    . next hpc =>
      cases hstep
      apply HandlerStep.dsn hpc
    . next hpc =>
      cases hstep
      apply HandlerStep.other hpc
    . simp at hstep
  | removeFromArray =>
    simp only [handlerStep] at hstep
    split at hstep
    . next hpc =>
      split at hstep
      . simp at hstep
      . cases hstep
        apply HandlerStep.removeFromArray hpc
    . simp at hstep
  | close =>
    simp only [handlerStep] at hstep
    split at hstep
    . next hpc =>
      cases hstep
      apply HandlerStep.close hpc
    . simp at hstep
  | resetStatus =>
    simp only [handlerStep] at hstep
    split at hstep
    . next hpc =>
      split at hstep
      . simp at hstep
      . next hlock =>
        cases hstep
        apply HandlerStep.resetStatus hpc
        intro hheld
        simpa [hheld] using hlock
    . simp at hstep

theorem HandlerStep.main_eq {s s' : State} {thread : Nat} {h : Handler} {action : HandlerAction}
    (hstep : HandlerStep s thread h action s') : s'.main = s.main := by
  cases hstep with
  | _ => rfl

end State

end Btide.Connections
