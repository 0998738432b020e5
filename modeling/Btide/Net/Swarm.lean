import Btide.Net.Transfer

/-!
This module contains `fetch_parser` of `src/btide.c` and peers that send each other packets.
-/

open Bytes CLib

namespace Btide

namespace fetchParser

def offsetNum (offset : Option Bytes) : Except Fault (Option (Option UInt32)) :=
  match offset with
  | none => .ok (some none)
  | some offset => do
    if ← isAnInt (some offset) then
      return some (some (UInt32.ofInt (atoi offset)))
    else
      return none

end fetchParser

/--
`fetch_parser` after it found the peer. The two tokens are the memory from their pointers on.
-/
def fetchParser (packages : ManagedPackages) (ident chunkHash : Bytes) (offset : Option Bytes)
    : Except Fault (Option BtidePacket) := do
  match ← chunkInMemory packages (cstr ident) (cstr chunkHash) with
  | .noPackage => return none
  | .noHash => return none
  | .found slot =>
    match ← fetchParser.offsetNum offset with
    | none => return none
    | some offsetNum =>
      let chosenBpkg ← deref (packages.getD slot none)
      match ← calculateDataLen chosenBpkg (cstr chunkHash) offsetNum with
      | none => return none
      | some reqArgs =>
        let pkt ← sendReq { reqArgs with ident, chunkHash }
        return some pkt

structure Peer where
  packages : ManagedPackages
  files : FileSystem

structure Message (ι : Type) where
  src : ι
  dst : ι
  pkt : BtidePacket

structure Swarm (ι : Type) where
  peers : ι → Peer
  inFlight : List (Message ι)

namespace Swarm

/--
A FETCH command of the peer `src`, or the delivery of a packet. Packets may overtake each other.
-/
inductive Action (ι : Type) where
  | fetch (src dst : ι) (ident chunkHash : Bytes) (offset : Option Bytes)
  | deliver (front : List (Message ι)) (msg : Message ι) (back : List (Message ι))

variable {ι : Type} [DecidableEq ι]

def setPeer (s : Swarm ι) (p : ι) (peer : Peer) : Swarm ι :=
  { s with peers := fun q => if q = p then peer else s.peers q }

def send (s : Swarm ι) (src dst : ι) (pkts : List BtidePacket) : Swarm ι :=
  { s with inFlight := s.inFlight ++ pkts.map fun pkt => { src, dst, pkt } }

def handle (s : Swarm ι) (msg : Message ι) : Except Fault (Swarm ι) :=
  let peer := s.peers msg.dst
  if msg.pkt.msgCode = PKT_MSG_REQ then
    -- a fault ends the handler after the packets that it sent
    let answer := handlePeers.handleReq peer.packages peer.files msg.pkt
    .ok ((s.setPeer msg.dst { peer with packages := answer.packages }).send msg.dst msg.src answer.sent)
  else if msg.pkt.msgCode = PKT_MSG_RES then do
    let files ← handlePeers.handleRes peer.packages peer.files msg.pkt
    return s.setPeer msg.dst { peer with files }
  else
    .ok s

inductive Step : Swarm ι → Action ι → Swarm ι → Prop where
  | fetch {s : Swarm ι} {src dst : ι} {ident chunkHash : Bytes} {offset : Option Bytes}
      {pkt : Option BtidePacket}
      (h : fetchParser (s.peers src).packages ident chunkHash offset = .ok pkt)
    : Step s (.fetch src dst ident chunkHash offset) (s.send src dst pkt.toList)
  | deliver {s s' : Swarm ι} {front back : List (Message ι)} {msg : Message ι}
      (hflight : s.inFlight = front ++ msg :: back)
      (h : handle { s with inFlight := front ++ back } msg = .ok s')
    : Step s (.deliver front msg back) s'

end Swarm

end Btide
