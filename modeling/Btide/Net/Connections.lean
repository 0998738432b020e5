import Btide.Lib.Bytes

/-!
This module contains the threads of `src/btide.c` and `src/peer.c` that connect to peers, with the
tables of `src/chk/helpers.c` that they share.
-/

open Bytes

namespace Btide.Connections

structure Addr where
  ip : Bytes
  port : Int
  deriving DecidableEq, Repr

/--
`struct peer`. `add_to_array` does not assign the thread id, which is `none` until `set_thread_id`
does.
-/
structure Peer where
  addr : Addr
  socketFd : Int
  threadId : Option Nat
  deriving DecidableEq, Repr

abbrev PeerArray := List (Option Peer)

def isPeer (addr : Addr) (entry : Option Peer) : Bool :=
  entry.any (·.addr = addr)

def firstPeer (addr : Addr) (peerArray : PeerArray) : Option Peer :=
  (peerArray.find? (isPeer addr)).join

def inArray (addr : Addr) (peerArray : PeerArray) : Bool :=
  (firstPeer addr peerArray).isSome

def getFd (addr : Addr) (peerArray : PeerArray) : Int :=
  match firstPeer addr peerArray with
  | some peer => peer.socketFd
  | none => 0

/--
`garbage` is what an unassigned thread id reads as.
-/
def getThreadId (addr : Addr) (garbage : Nat) (peerArray : PeerArray) : Nat :=
  match firstPeer addr peerArray with
  | some peer => peer.threadId.getD garbage
  | none => 0

/--
`memory` tells whether `malloc` succeeds.
-/
def addToArray (addr : Addr) (socketFd : Int) (memory : Bool) (peerArray : PeerArray)
    : PeerArray × Int :=
  match peerArray.findIdx? Option.isNone with
  | some i =>
    if memory then
      (peerArray.set i (some { addr, socketFd, threadId := none }), 1)
    else
      (peerArray, -1)
  | none => (peerArray, 0)

def removeFromArray (addr : Addr) (peerArray : PeerArray) : PeerArray :=
  match peerArray.findIdx? (isPeer addr) with
  | some i => peerArray.set i none
  | none => peerArray

def setThreadId (addr : Addr) (threadId : Nat) (peerArray : PeerArray) : PeerArray :=
  match peerArray.findIdx? (isPeer addr) with
  | some i => peerArray.modify i (Option.map ({ · with threadId := some threadId }))
  | none => peerArray

/--
Where a handler is. Of its three exit paths two take `thread_status_lock` to free the thread slot.
-/
inductive HandlerPc where
  | running
  | removing (lock : Bool)
  | closing (lock : Bool)
  | resetting (lock : Bool)
  | exited
  deriving DecidableEq, Repr

structure Handler where
  addr : Addr
  clientSocketFd : Int
  threadId : Nat
  pc : HandlerPc
  deriving DecidableEq, Repr

/--
Where the main thread is. `idle` has the result of the last command.
-/
inductive MainPc where
  | idle (ret : Int)
  -- peer_connect
  | dialing (addr : Addr)
  | shakingHands (addr : Addr) (sock : Int)
  | adding (addr : Addr) (sock : Int)
  | assigning (addr : Addr) (sock : Int)
  | dropping (addr : Addr) (sock : Int) (ret : Int)
  -- peer_disconnect
  | disconnecting (addr : Addr)
  | disconnectingFd (addr : Addr) (fd : Int)
  | sendingDsn (addr : Addr) (fd : Int) (threadId : Nat)
  | locking (addr : Addr) (threadId : Nat)
  | joining (addr : Addr) (threadId : Nat)
  -- fetch_parser
  | fetching (addr : Addr)
  | sendingReq (addr : Addr) (fd : Int)
  deriving DecidableEq, Repr

/--
Where the listener is. `greeted` tells whether the ACP was sent: if it was not, `new_socket` is zero.
-/
inductive ListenerPc where
  | accepting
  | greeting (addr : Addr) (newSocket : Int)
  | awaitingAck (addr : Addr) (newSocket : Int) (greeted : Bool)
  | adding (addr : Addr) (newSocket : Int)
  | assigning (addr : Addr) (newSocket : Int)
  | dropping (newSocket : Int)
  deriving DecidableEq, Repr

/--
The mutexes tell whether they are locked between two steps. `sockets` are the descriptors of open
connections, `threadArray` has the index in `handlers` of the thread that was started last.
-/
structure State where
  peerArray : PeerArray
  peerArrayLock : Bool
  threadStatusArray : List Nat
  threadStatusLock : Bool
  threadArray : List (Option Nat)
  handlers : List Handler
  sockets : List Int
  main : MainPc
  listener : ListenerPc
  deriving DecidableEq, Repr

def init (maxPeers : Nat) : State where
  peerArray := List.replicate maxPeers none
  peerArrayLock := false
  threadStatusArray := List.replicate maxPeers 0
  threadStatusLock := false
  threadArray := List.replicate maxPeers none
  handlers := []
  sockets := []
  main := .idle 0
  listener := .accepting

/--
How `inet_pton`, `connect` and the handshake of `peer_connect` end. The socket stays open if the peer
is unreachable.
-/
inductive Handshake where
  | unreachable
  | refused
  | accepted
  deriving DecidableEq, Repr

inductive Reply where
  | failed
  | other
  | ack
  deriving DecidableEq, Repr

inductive Recv where
  | failed
  | closed
  | dsn
  | other
  deriving DecidableEq, Repr

inductive MainAction where
  | connect (addr : Addr)
  | socket (sock : Option Int)
  | shakeHands (answer : Handshake)
  | addToArray (memory : Bool)
  | assignThread (created : Bool)
  | close
  | disconnect (addr : Addr)
  | getFd
  | getThreadId (garbage : Nat)
  | sendDsn
  | lockThreadStatus
  | join
  | fetch (addr : Addr)
  | giveUp
  | sendReq
  deriving DecidableEq, Repr

inductive ListenerAction where
  | accept (addr : Addr) (newSocket : Option Int)
  | sendAcp (sent : Bool)
  | recvAck (reply : Reply)
  | addToArray (memory : Bool)
  | assignThread (created : Bool)
  | close
  deriving DecidableEq, Repr

inductive HandlerAction where
  | recv (packet : Recv)
  | removeFromArray
  | close
  | resetStatus
  deriving DecidableEq, Repr

inductive Action where
  | main (action : MainAction)
  | listener (action : ListenerAction)
  | handler (thread : Nat) (action : HandlerAction)
  deriving DecidableEq, Repr

namespace State

def openSocket (s : State) (fd : Int) : Option State :=
  if 0 ≤ fd ∧ fd ∉ s.sockets then
    some { s with sockets := fd :: s.sockets }
  else
    none

def closeSocket (s : State) (fd : Int) : State :=
  { s with sockets := s.sockets.filter (· ≠ fd) }

/--
The critical section of `add_to_array`, which keeps the lock if `malloc` fails.
-/
def addToArray (s : State) (addr : Addr) (fd : Int) (memory : Bool) : Option (State × Int) :=
  if s.peerArrayLock then
    none
  else
    let (peerArray, ret) := Connections.addToArray addr fd memory s.peerArray
    some ({ s with peerArray, peerArrayLock := ret = -1 }, ret)

/--
What `assign_thread` does with a free slot. The result of `pthread_create` is ignored, `created` tells
what it is.
-/
def startThread (s : State) (addr : Addr) (fd : Int) (threadId : Nat) (created : Bool) : State :=
  let s :=
    { s with
      threadStatusArray := s.threadStatusArray.set threadId 1
      peerArray := setThreadId addr threadId s.peerArray }
  if created then
    { s with
      threadArray := s.threadArray.set threadId (some s.handlers.length)
      handlers := s.handlers ++ [{ addr, clientSocketFd := fd, threadId, pc := .running }] }
  else
    s

/--
The critical section of `assign_thread`. If no slot is free, `close` is still to be called.
-/
def assignThread (s : State) (addr : Addr) (fd : Int) (created : Bool) : Option (State × Int) :=
  if s.threadStatusLock ∨ s.peerArrayLock then
    none
  else
    match s.threadStatusArray.findIdx? (· = 0) with
    | some threadId => some (s.startThread addr fd threadId created, 0)
    | none => some (s, -1)

/--
Whether `pthread_join` for the slot returns. Nothing is known about a slot without a thread.
-/
def joinable (s : State) (threadId : Nat) : Bool :=
  match s.threadArray.getD threadId none with
  | none => true
  | some thread => s.handlers[thread]?.all (·.pc = .exited)

def mainStep (s : State) : MainAction → Option State
  | .connect addr =>
    match s.main with
    | .idle _ =>
      if s.peerArrayLock then
        none
      else if inArray addr s.peerArray then
        some { s with main := .idle (-1) }
      else
        some { s with main := .dialing addr }
    | _ => none
  | .socket sock =>
    match s.main, sock with
    | .dialing _, none => some { s with main := .idle (-1) }
    | .dialing addr, some sock =>
      (s.openSocket sock).map ({ · with main := .shakingHands addr sock })
    | _, _ => none
  | .shakeHands answer =>
    match s.main, answer with
    | .shakingHands _ _, .unreachable => some { s with main := .idle (-1) }
    | .shakingHands addr sock, .refused => some { s with main := .dropping addr sock (-1) }
    | .shakingHands addr sock, .accepted => some { s with main := .adding addr sock }
    | _, _ => none
  | .addToArray memory =>
    match s.main with
    | .adding addr sock =>
      (s.addToArray addr sock memory).map fun (s, ret) =>
        if ret = 1 then
          { s with main := .assigning addr sock }
        else
          { s with main := .dropping addr sock (-1) }
    | _ => none
  | .assignThread created =>
    match s.main with
    | .assigning addr sock =>
      (s.assignThread addr sock created).map fun (s, ret) =>
        -- peer_connect returns 1 without looking at the result
        if ret = 0 then
          { s with main := .idle 1 }
        else
          { s with main := .dropping addr sock 1 }
    | _ => none
  | .close =>
    match s.main with
    | .dropping _ sock ret => some { s.closeSocket sock with main := .idle ret }
    | _ => none
  | .disconnect addr =>
    match s.main with
    | .idle _ =>
      if s.peerArrayLock then
        none
      else if inArray addr s.peerArray then
        some { s with main := .disconnecting addr }
      else
        some { s with main := .idle (-1) }
    | _ => none
  | .getFd =>
    if s.peerArrayLock then
      none
    else
      match s.main with
      | .disconnecting addr => some { s with main := .disconnectingFd addr (getFd addr s.peerArray) }
      | .fetching addr => some { s with main := .sendingReq addr (getFd addr s.peerArray) }
      | _ => none
  | .getThreadId garbage =>
    if s.peerArrayLock then
      none
    else
      match s.main with
      | .disconnectingFd addr fd =>
        some { s with main := .sendingDsn addr fd (getThreadId addr garbage s.peerArray) }
      | _ => none
  | .sendDsn =>
    match s.main with
    | .sendingDsn addr _ threadId => some { s with main := .locking addr threadId }
    | _ => none
  | .lockThreadStatus =>
    match s.main with
    | .locking addr threadId =>
      if s.threadStatusLock then
        none
      else
        some { s with main := .joining addr threadId, threadStatusLock := true }
    | _ => none
  | .join =>
    match s.main with
    | .joining _ threadId =>
      if s.joinable threadId then
        some
          { s with
            main := .idle 1
            threadStatusArray := s.threadStatusArray.set threadId 0
            threadStatusLock := false }
      else
        none
    | _ => none
  | .fetch addr =>
    match s.main with
    | .idle _ =>
      if s.peerArrayLock then
        none
      else if inArray addr s.peerArray then
        some { s with main := .fetching addr }
      else
        some { s with main := .idle 0 }
    | _ => none
  -- fetch_parser has nothing to ask for
  | .giveUp =>
    match s.main with
    | .fetching _ => some { s with main := .idle 0 }
    | _ => none
  | .sendReq =>
    match s.main with
    | .sendingReq _ _ => some { s with main := .idle 1 }
    | _ => none

def listenerStep (s : State) : ListenerAction → Option State
  | .accept addr newSocket =>
    match s.listener, newSocket with
    | .accepting, some newSocket =>
      (s.openSocket newSocket).map ({ · with listener := .greeting addr newSocket })
    -- send on the descriptor -1 fails as well
    | .accepting, none => some { s with listener := .awaitingAck addr 0 false }
    | _, _ => none
  | .sendAcp sent =>
    match s.listener with
    | .greeting addr newSocket =>
      if sent then
        some { s with listener := .awaitingAck addr newSocket true }
      else
        some { s.closeSocket newSocket with listener := .awaitingAck addr 0 false }
    | _ => none
  | .recvAck reply =>
    match s.listener with
    | .awaitingAck addr newSocket _ =>
      match reply with
      | .failed => some { s.closeSocket newSocket with listener := .accepting }
      -- only a socket can have sent a packet
      | .other => if newSocket ∈ s.sockets then some { s with listener := .accepting } else none
      | .ack =>
        if newSocket ∈ s.sockets then some { s with listener := .adding addr newSocket } else none
    | _ => none
  | .addToArray memory =>
    match s.listener with
    | .adding addr newSocket =>
      (s.addToArray addr newSocket memory).map fun (s, ret) =>
        if ret = 1 then
          { s with listener := .assigning addr newSocket }
        else
          { s with listener := .dropping newSocket }
    | _ => none
  | .assignThread created =>
    match s.listener with
    | .assigning addr newSocket =>
      (s.assignThread addr newSocket created).map fun (s, ret) =>
        if ret = 0 then
          { s with listener := .accepting }
        else
          { s with listener := .dropping newSocket }
    | _ => none
  | .close =>
    match s.listener with
    | .dropping newSocket => some { s.closeSocket newSocket with listener := .accepting }
    | _ => none

def setHandler (s : State) (thread : Nat) (h : Handler) (pc : HandlerPc) : State :=
  { s with handlers := s.handlers.set thread { h with pc } }

def handlerStep (s : State) (thread : Nat) (h : Handler) : HandlerAction → Option State
  | .recv packet =>
    match h.pc, packet with
    | .running, .failed => some (s.setHandler thread h (.removing true))
    | .running, .closed => some (s.setHandler thread h (.removing false))
    | .running, .dsn => some (s.setHandler thread h (.removing true))
    -- the tables are not needed to answer the other packets
    | .running, .other => some s
    | _, _ => none
  | .removeFromArray =>
    match h.pc with
    | .removing lock =>
      if s.peerArrayLock then
        none
      else
        some { s.setHandler thread h (.closing lock) with
          peerArray := removeFromArray h.addr s.peerArray }
    | _ => none
  | .close =>
    match h.pc with
    | .closing lock => some ((s.closeSocket h.clientSocketFd).setHandler thread h (.resetting lock))
    | _ => none
  | .resetStatus =>
    match h.pc with
    | .resetting lock =>
      if lock ∧ s.threadStatusLock then
        none
      else
        some { s.setHandler thread h .exited with
          threadStatusArray := s.threadStatusArray.set h.threadId 0 }
    | _ => none

def step (s : State) : Action → Option State
  | .main action => s.mainStep action
  | .listener action => s.listenerStep action
  | .handler thread action =>
    match s.handlers[thread]? with
    | some h => s.handlerStep thread h action
    | none => none

end State

def Step (s : State) (action : Action) (s' : State) : Prop :=
  s.step action = some s'

end Btide.Connections
