import Btide.Net.Dispatch
import Btide.Net.Serve
import Btide.Lib.History

/-!
This module contains clients that answer each other: how many packets are delivered until none is in
flight any more, whatever the packets are, and what the command PEERS brings about.
-/

open Bytes CLib

namespace Btide

open handlePeers

/--
The packets whose delivery a packet can bring about, and the packet itself.
-/
def BtidePacket.weight (pkt : BtidePacket) : Nat :=
  if pkt.msgCode = PKT_MSG_PNG then
    2
  else if pkt.msgCode = PKT_MSG_REQ then
    2 + ((reqArgs pkt).dataLen.toNat + DATA_MAX_SIZE - 1) / DATA_MAX_SIZE
  else
    1

theorem BtidePacket.weight_pos (pkt : BtidePacket) : 0 < pkt.weight := by
  unfold weight
  split
  . exact Nat.two_pos
  . split
    . exact Nat.lt_of_lt_of_le Nat.two_pos (Nat.le_add_right _ _)
    . exact Nat.one_pos

theorem BtidePacket.weight_of_req {pkt : BtidePacket} (h : pkt.msgCode = PKT_MSG_REQ)
    : pkt.weight = 2 + ((reqArgs pkt).dataLen.toNat + DATA_MAX_SIZE - 1) / DATA_MAX_SIZE := by
  unfold weight
  rw [h, if_neg (by decide), if_pos rfl]

theorem BtidePacket.weight_of_res {pkt : BtidePacket} (h : pkt.msgCode = PKT_MSG_RES) : pkt.weight = 1 := by
  unfold weight
  rw [h, if_neg (by decide), if_neg (by decide)]

theorem handlePeers.length_handleReq_le (packages : ManagedPackages) (files : FileSystem)
    (pkt : BtidePacket)
    : (handleReq packages files pkt).sent.length
        ≤
      1 + ((reqArgs pkt).dataLen.toNat + DATA_MAX_SIZE - 1) / DATA_MAX_SIZE := by
  rw [← length_cut (show 0 < DATA_MAX_SIZE by decide) (reqArgs pkt).fileOffset.toNat]
  by_cases hserves : ∃ bpkg content, Serves packages files (reqArgs pkt) bpkg content
  . obtain ⟨bpkg, content, hserves⟩ := hserves
    obtain ⟨n, hsends⟩ := handleReq_sends hserves
    obtain ⟨blocks, rest, hsent, hblocks, hstops⟩ := hsends.packets
    have hlen := hblocks.length_eq
    have hrest : rest.length ≤ 1 := by
      generalize ((handleReq packages files pkt).sent, (handleReq packages files pkt).fault).2 = fault
        at hstops
      cases hstops with
      | done => exact Nat.zero_le 1
      | short => exact Nat.le_refl 1
      | overflow => exact Nat.zero_le 1
    dsimp only at hsent
    rw [List.length_take] at hlen
    rw [hsent, List.length_append]
    omega
  . unfold handleReq
    split
    . exact Nat.zero_le _
    . next hopen => exact absurd (serves_of_openFile hopen) hserves
    . split
      . exact Nat.zero_le _
      . exact Nat.le_add_right 1 _

theorem handlePeers.weight_handleReq_lt (packages : ManagedPackages) (files : FileSystem)
    {pkt : BtidePacket} (hcode : pkt.msgCode = PKT_MSG_REQ)
    : ((handleReq packages files pkt).sent.map BtidePacket.weight).sum < pkt.weight := by
  have hlen := length_handleReq_le packages files pkt
  have hanswers : ∀ w ∈ (handleReq packages files pkt).sent.map BtidePacket.weight, w = 1 := by
    intro w hw
    obtain ⟨res, hres, rfl⟩ := List.mem_map.mp hw
    exact BtidePacket.weight_of_res (handleReq_isAnswer hres).1
  have hsum := congrArg List.sum (List.eq_replicate_of_mem hanswers)
  rw [List.length_map, List.sum_replicate_nat, Nat.mul_one] at hsum
  rw [hsum, BtidePacket.weight_of_req hcode]
  omega

theorem handlePeers.weight_handlePacket_lt (peer : Peer) (buffer : BtidePacket)
    : ((handlePacket peer buffer).sent.map BtidePacket.weight).sum < buffer.weight := by
  have hpos := buffer.weight_pos
  have hdoes := handlePacket_does peer buffer
  generalize handlePacket peer buffer = turn at hdoes ⊢
  cases hdoes with
  | png hcode =>
    have hping : buffer.weight = 2 := by
      unfold BtidePacket.weight
      rw [if_pos hcode]
    rw [hping]
    exact show ([pong].map BtidePacket.weight).sum < 2 by decide
  | req hcode => exact weight_handleReq_lt peer.packages peer.files hcode
  | dsn => exact hpos
  | pog => exact hpos
  | res => exact hpos
  | crash => exact hpos
  | strange => exact hpos

def Message.weights {ι : Type} (inFlight : List (Message ι)) : Nat :=
  (inFlight.map fun msg => msg.pkt.weight).sum

theorem Message.weights_append {ι : Type} (front back : List (Message ι))
    : weights (front ++ back) = weights front + weights back := by
  rw [weights, List.map_append, List.sum_append]
  rfl

theorem Message.weights_cons {ι : Type} (msg : Message ι) (inFlight : List (Message ι))
    : weights (msg :: inFlight) = msg.pkt.weight + weights inFlight := rfl

theorem Message.weights_answers {ι : Type} (src dst : ι) (pkts : List BtidePacket)
    : weights (pkts.map fun pkt => { src, dst, pkt }) = (pkts.map BtidePacket.weight).sum := by
  rw [weights, List.map_map]
  rfl

/--
Clients that run this program. The entries of a table stand for the sockets of the connections. Packets to
a client that has crashed, or whose handler for the sender has exited, are lost.
-/
structure Network (ι : Type) where
  peers : ι → Peer
  tables : ι → List (Option ι)
  gone : ι → ι → Bool
  crashed : ι → Bool
  inFlight : List (Message ι)

namespace Network

variable {ι : Type}

def ping : BtidePacket where
  msgCode := PKT_MSG_PNG
  error := 0
  pl := .zero

def peersCommand (s : Network ι) (p : ι) : Network ι :=
  { s with inFlight := s.inFlight ++ (s.tables p).reduceOption.map fun q => { src := p, dst := q, pkt := ping } }

def answered (hist : List (Network ι × Message ι)) : List ι :=
  (hist.filter fun entry => entry.2.pkt.msgCode = PKT_MSG_POG).map fun entry => entry.2.src

/--
The peer that was asked by a ping or has answered with a pong.
-/
def far (msg : Message ι) : ι :=
  if msg.pkt.msgCode = PKT_MSG_PNG then msg.dst else msg.src

structure Pinging (s : Network ι) (p : ι) (hist : List (Network ι × Message ι)) (t : Network ι) : Prop where
  peers_eq : t.peers = s.peers
  gone_eq : t.gone = s.gone
  crashed_eq : t.crashed = s.crashed
  kinds : ∀ msg ∈ t.inFlight, ∃ q,
    some q ∈ s.tables p
      ∧ (msg = { src := p, dst := q, pkt := ping } ∨ msg = { src := q, dst := p, pkt := pong })
  owed : (t.inFlight.map far ++ answered hist).Perm (s.tables p).reduceOption
  length_eq : hist.length + Message.weights t.inFlight = 2 * (s.tables p).reduceOption.length

def Connected (s : Network ι) (p : ι) : Prop :=
  ∀ q, some q ∈ s.tables p → s.crashed q = false ∧ s.gone q p = false

theorem Pinging.start {s : Network ι} {p : ι} (hquiet : s.inFlight = []) : Pinging s p [] (s.peersCommand p) where
  peers_eq := rfl
  gone_eq := rfl
  crashed_eq := rfl
  kinds := by
    intro msg hmsg
    unfold peersCommand at hmsg
    rw [hquiet, List.nil_append, List.mem_map] at hmsg
    obtain ⟨q, hq, rfl⟩ := hmsg
    exact ⟨q, List.reduceOption_mem_iff.mp hq, .inl rfl⟩
  owed := by
    unfold peersCommand
    rw [hquiet, List.nil_append, List.map_map]
    simp [Function.comp_def, far, ping, answered]
  length_eq := by
    unfold peersCommand
    rw [hquiet, List.nil_append, List.length_nil, Nat.zero_add, Message.weights, List.map_map]
    have hconst : (fun msg : Message ι => msg.pkt.weight) ∘ (fun q => { src := p, dst := q, pkt := ping })
        = fun _ => 2 := rfl
    rw [hconst, List.map_const', List.sum_replicate_nat, Nat.mul_comm]

variable [DecidableEq ι]

def receive (s : Network ι) (msg : Message ι) : Network ι :=
  if s.crashed msg.dst || s.gone msg.dst msg.src then
    s
  else
    let turn := handlePacket (s.peers msg.dst) msg.pkt
    { s with
      peers := Function.update s.peers msg.dst turn.peer
      gone := fun p q => s.gone p q || (turn.exits && p = msg.dst && q = msg.src)
      crashed := fun p => s.crashed p || (turn.fault.isSome && p = msg.dst)
      inFlight := s.inFlight ++ turn.sent.map fun pkt => { src := msg.dst, dst := msg.src, pkt } }

/--
The delivery of a packet. Packets may overtake each other.
-/
inductive Step : Network ι → Message ι → Network ι → Prop where
  | deliver {s : Network ι} {front back : List (Message ι)} {msg : Message ι}
      (hflight : s.inFlight = front ++ msg :: back)
    : Step s msg (receive { s with inFlight := front ++ back } msg)

theorem weights_step {s t : Network ι} {msg : Message ι} (hstep : Step s msg t)
    : Message.weights t.inFlight < Message.weights s.inFlight := by
  cases hstep with
  | @deliver front back _ hflight =>
    have hpos := msg.pkt.weight_pos
    have hless := weight_handlePacket_lt (s.peers msg.dst) msg.pkt
    rw [hflight, Message.weights_append, Message.weights_cons]
    unfold receive
    split
    . rw [Message.weights_append]
      omega
    . dsimp only
      rw [Message.weights_append, Message.weights_append, Message.weights_answers]
      omega

/--
Whatever packets are in flight between any clients, at most as many deliveries follow as the packets and
the blocks that they ask for add up to, unless a command is typed, and none of them gets stuck.
-/
theorem exchange_ends {s t : Network ι} {hist : List (Network ι × Message ι)} (hrun : Trace Step s hist t)
    : hist.length + Message.weights t.inFlight ≤ Message.weights s.inFlight
        ∧ (t.inFlight ≠ [] → ∃ msg u, Step t msg u) := by
  constructor
  . exact @Trace.length_add_le _ _ _ _ _ _ (fun _ => True) (fun s => Message.weights s.inFlight) hrun
      trivial fun s msg t _ hstep => ⟨trivial, weights_step hstep⟩
  . intro hflight
    obtain ⟨msg, back, heq⟩ := List.exists_cons_of_ne_nil hflight
    exact ⟨msg, _, @Step.deliver _ _ t [] back msg heq⟩

section Pings

variable {s t : Network ι} {p q : ι} {hist : List (Network ι × Message ι)}

theorem receive_ping (hup : s.crashed q = false) (hthere : s.gone q p = false)
    : s.receive { src := p, dst := q, pkt := ping }
        =
      { s with inFlight := s.inFlight ++ [{ src := q, dst := p, pkt := pong }] } := by
  have hturn : handlePacket (s.peers q) ping = ⟨s.peers q, [pong], none, false⟩ := rfl
  unfold receive
  simp only [hup, hthere, hturn, Bool.or_self, Bool.false_eq_true, ↓reduceIte, Function.update_eq_self,
    Bool.false_and, Bool.or_false, Option.isSome_none, List.map_cons, List.map_nil]

theorem receive_pong : s.receive { src := q, dst := p, pkt := pong } = s := by
  have hturn : handlePacket (s.peers p) pong = ⟨s.peers p, [], none, false⟩ := rfl
  unfold receive
  split
  . rfl
  . simp only [hturn, Function.update_eq_self, Bool.false_and, Bool.or_false, Option.isSome_none,
      List.map_nil, List.append_nil]

theorem Pinging.step {msg : Message ι} {u : Network ι} (h : Pinging s p hist t)
    (hconnected : s.Connected p) (hstep : Step t msg u) : Pinging s p ((t, msg) :: hist) u := by
  cases hstep with
  | @deliver front back _ hflight =>
    have hkinds (other : Message ι) (hother : other ∈ front ++ back) : ∃ q,
        some q ∈ s.tables p
          ∧ (other = { src := p, dst := q, pkt := ping } ∨ other = { src := q, dst := p, pkt := pong }) := by
      apply h.kinds
      rw [hflight]
      exact (List.sublist_cons_self msg back).append_left front |>.subset hother
    have howed := h.owed
    have hlength := h.length_eq
    rw [hflight, List.perm_iff_count] at howed
    rw [hflight, Message.weights_append, Message.weights_cons] at hlength
    obtain ⟨q, hq, hmsg⟩ := h.kinds msg (by rw [hflight]; simp)
    cases hmsg with
    | inl hping =>
      -- the ping is answered
      obtain ⟨hup, hthere⟩ := hconnected q hq
      rw [← h.crashed_eq] at hup
      rw [← h.gone_eq] at hthere
      rw [hping] at howed hlength ⊢
      have hreceive := @receive_ping _ _ { t with inFlight := front ++ back } p q hup hthere
      rw [hreceive]
      refine ⟨h.peers_eq, h.gone_eq, h.crashed_eq, ?_, ?_, ?_⟩
      . intro other hother
        rw [List.mem_append, List.mem_singleton] at hother
        rcases hother with hother | rfl
        . exact hkinds other hother
        . exact ⟨q, hq, .inr rfl⟩
      . have hsame : answered ((t, { src := p, dst := q, pkt := ping }) :: hist) = answered hist := rfl
        have hfar : far (⟨p, q, ping⟩ : Message ι) = q := rfl
        have hfar' : far (⟨q, p, pong⟩ : Message ι) = q := rfl
        rw [hsame, List.perm_iff_count]
        intro r
        rw [← howed r]
        simp only [List.map_append, List.map_cons, List.map_nil, List.count_append, List.count_cons,
          List.count_nil, hfar, hfar']
        omega
      . have hweight : (ping.weight, pong.weight) = (2, 1) := rfl
        rw [Prod.mk.injEq] at hweight
        rw [Message.weights_append, Message.weights_append, List.length_cons]
        simp only [Message.weights, List.map_cons, List.map_nil, List.sum_cons, List.sum_nil] at hlength ⊢
        omega
    | inr hpong =>
      rw [hpong] at howed hlength ⊢
      have hreceive := @receive_pong _ _ { t with inFlight := front ++ back } p q
      rw [hreceive]
      refine ⟨h.peers_eq, h.gone_eq, h.crashed_eq, hkinds, ?_, ?_⟩
      . have hnext : answered ((t, { src := q, dst := p, pkt := pong }) :: hist) = q :: answered hist := rfl
        have hfar : far (⟨q, p, pong⟩ : Message ι) = q := rfl
        rw [hnext, List.perm_iff_count]
        intro r
        rw [← howed r]
        simp only [List.map_append, List.map_cons, List.count_append, List.count_cons, hfar]
        omega
      . have hweight : pong.weight = 1 := rfl
        rw [Message.weights_append, List.length_cons]
        dsimp only at hlength
        omega

/--
After PEERS every entry's ping is answered by one pong, then nothing is in flight, and no table or file
has changed.
-/
theorem pings_answered (hquiet : s.inFlight = []) (hconnected : s.Connected p)
    (hrun : Trace Step (s.peersCommand p) hist t)
    : t.peers = s.peers
        ∧ t.gone = s.gone
        ∧ t.crashed = s.crashed
        ∧ (t.inFlight = [] ↔ hist.length = 2 * (s.tables p).reduceOption.length)
        ∧ (t.inFlight = [] → (answered hist).Perm (s.tables p).reduceOption) := by
  have hpinging : Pinging s p hist t := by
    induction hrun with
    | nil => exact .start hquiet
    | cons _ hstep ih => exact ih.step hconnected hstep
  have hlength := hpinging.length_eq
  refine ⟨hpinging.peers_eq, hpinging.gone_eq, hpinging.crashed_eq, ⟨?_, ?_⟩, ?_⟩
  . intro hnil
    rw [hnil, Message.weights, List.map_nil, List.sum_nil] at hlength
    exact hlength
  . intro heq
    cases hflight : t.inFlight with
    | nil => rfl
    | cons msg inFlight =>
      have hpos := msg.pkt.weight_pos
      rw [hflight, Message.weights_cons] at hlength
      omega
  . intro hnil
    have howed := hpinging.owed
    rw [hnil, List.map_nil, List.nil_append] at howed
    exact howed

end Pings

def pair (inFlight : List (Message Bool)) : Network Bool where
  peers := fun _ => { packages := [], files := fun _ => none }
  tables := fun p => [none, some !p]
  gone := fun _ _ => false
  crashed := fun _ => false
  inFlight

theorem pair_run : ∃ hist t,
    Trace Step (pair [⟨false, true, ping⟩]) hist t ∧ hist.length = 2 ∧ t.inFlight = [] := by
  refine ⟨_, _, (Trace.nil.cons (@Step.deliver _ _ _ [] [] _ rfl)).cons
    (@Step.deliver _ _ _ [] [] ⟨true, false, pong⟩ rfl), rfl, rfl⟩

theorem exchange_ends_pair : ∃ (hist : List (Network Bool × Message Bool)) (t : Network Bool),
    Trace Step (pair [⟨false, true, ping⟩]) hist t
      ∧ hist.length = 2
      ∧ hist.length + Message.weights t.inFlight ≤ 2 := by
  obtain ⟨hist, t, hrun, hlength, _⟩ := pair_run
  exact ⟨hist, t, hrun, hlength, (exchange_ends hrun).1⟩

theorem pings_answered_pair : ∃ (hist : List (Network Bool × Message Bool)) (t : Network Bool),
    Trace Step ((pair []).peersCommand false) hist t
      ∧ t.inFlight = []
      ∧ hist.length = 2
      ∧ (answered hist).Perm [true] := by
  obtain ⟨hist, t, hrun, hlength, hquiet⟩ := pair_run
  have hconnected : (pair []).Connected false := fun _ _ => ⟨rfl, rfl⟩
  exact ⟨hist, t, hrun, hquiet, hlength, (pings_answered rfl hconnected hrun).2.2.2.2 hquiet⟩

end Network

end Btide
