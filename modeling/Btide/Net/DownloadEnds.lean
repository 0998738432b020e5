import Btide.Net.DownloadRuns
import Btide.Net.Exchange

/-!
This module contains the end of a download: how many packets are delivered until none is in flight any
more, and that none of them gets stuck.
-/

open Bytes CLib

namespace Btide

open handlePeers

namespace Swarm

variable {ι : Type}

def weight (s : Swarm ι) : Nat :=
  Message.weights s.inFlight

inductive Action.IsDelivery : Action ι → Prop where
  | deliver {front back : List (Message ι)} {msg : Message ι} : IsDelivery (.deliver front msg back)

theorem weight_send (s : Swarm ι) (src dst : ι) (pkts : List BtidePacket)
    : (s.send src dst pkts).weight = s.weight + (pkts.map BtidePacket.weight).sum := by
  unfold weight send
  rw [Message.weights_append, Message.weights_answers]

variable {s t : Swarm ι} {a : Action ι} {pkg : Package} {ident : Bytes} {names : ι → Bytes}

def Action.Concerns (ident : Bytes) : Action ι → Prop
  | .fetch _ _ mem _ _ => Matches ident mem ∧ 0 ∈ mem.take IDENT_SIZE
  | .deliver .. => True

structure Addressed (ident : Bytes) (pkt : BtidePacket) : Prop where
  req : pkt.msgCode = PKT_MSG_REQ
    → Matches ident (reqArgs pkt).ident ∧ 0 ∈ (reqArgs pkt).ident.take IDENT_SIZE
  res : pkt.msgCode = PKT_MSG_RES → pkt.error = 0
    → Matches ident (resArgs pkt).ident ∧ (resArgs pkt).dataRecieved.toNat ≤ DATA_MAX_SIZE
      ∧ InPayload (resLoads pkt)

structure Orderly (pkg : Package) (ident : Bytes) (names : ι → Bytes) (s : Swarm ι) : Prop where
  shared : s.Shared pkg ident names
  addressed : ∀ msg ∈ s.inFlight, Addressed ident msg.pkt

theorem fetchParser_ident {packages : ManagedPackages} {mem chunkHash : Bytes} {offset : Option Bytes}
    {pkt : BtidePacket} (h : fetchParser packages mem chunkHash offset = .ok (some pkt))
    : pkt.msgCode = PKT_MSG_REQ
        ∧ (reqArgs pkt).ident = mem.take IDENT_SIZE ++ List.replicate 2996 0
        ∧ (mem.take IDENT_SIZE).length = IDENT_SIZE := by
  obtain ⟨_, _, _, _, _, _, _, _, hsend⟩ := fetchParser_cases h
  obtain ⟨hhash, hident⟩ := sendReq_ok hsend
  obtain ⟨pkt', hsend', hcode, hargs⟩ := reqArgs_of_sendReq hhash hident
  rw [hsend, Except.ok.injEq] at hsend'
  rw [← hsend'] at hcode hargs
  refine ⟨hcode, by rw [hargs], ?_⟩
  rw [List.length_take]
  exact Nat.min_eq_left hident

theorem handleReq_dataRecieved {packages : ManagedPackages} {files : FileSystem} {pkt pkt' : BtidePacket}
    (hpkt : pkt' ∈ (handleReq packages files pkt).sent) (herror : pkt'.error = 0)
    : (resArgs pkt').dataRecieved.toNat ≤ DATA_MAX_SIZE := by
  by_cases hserves : ∃ bpkg content, Serves packages files (reqArgs pkt) bpkg content
  . obtain ⟨bpkg, content, hserves⟩ := hserves
    obtain ⟨n, hsends⟩ := handleReq_sends hserves
    obtain ⟨k, hk⟩ := List.getElem?_of_mem hpkt
    obtain ⟨r, hr, _, hcarries⟩ := hsends.block_of_error_eq hk herror
    rw [hcarries.dataRecieved_eq]
    exact (bounds_of_mem_cut (List.mem_of_getElem? hr)).2.2.2
  . rw [handleReq_error hserves hpkt] at herror
    exact absurd herror (by decide)

theorem Emits.addressed {pkt : BtidePacket} (h : s.Emits a pkt)
    (haddressed : ∀ msg ∈ s.inFlight, Addressed ident msg.pkt) (hconcerns : a.Concerns ident)
    : Addressed ident pkt := by
  cases h with
  | @request src dst mem chunkHash offset pkt hfetch =>
    obtain ⟨hcode, hident, hlen⟩ := fetchParser_ident hfetch
    constructor
    . intro _
      rw [hident, List.take_left' hlen]
      refine ⟨?_, hconcerns.2⟩
      unfold Matches
      rw [cstr_append_replicate]
      exact (matches_take (by decide)).mpr hconcerns.1
    . intro hres
      rw [hcode] at hres
      exact absurd hres (by decide)
  | @answer front back msg pkt hflight hcode hpkt =>
    obtain ⟨hres, hident⟩ := handleReq_isAnswer hpkt
    constructor
    . intro hreq
      rw [hres] at hreq
      exact absurd hreq (by decide)
    . intro _ herror
      obtain ⟨hmatch, hnul⟩ := (haddressed msg (by rw [hflight]; simp)).req hcode
      rw [inPayload_resLoads_iff, hident herror]
      exact ⟨(matches_take (by decide)).mpr hmatch, handleReq_dataRecieved hpkt herror, hnul⟩

theorem Shared.orderly (h : s.Shared pkg ident names) (hquiet : s.inFlight = [])
    : s.Orderly pkg ident names where
  shared := h
  addressed := by simp [hquiet]

variable [DecidableEq ι]

theorem weight_deliver (hdelivery : a.IsDelivery) (hstep : Step s a t) : t.weight < s.weight := by
  cases hdelivery with
  | @deliver front back msg =>
    cases hstep with
    | deliver hflight hhandle =>
      have hpos := msg.pkt.weight_pos
      have hbefore : s.weight = ({ s with inFlight := front ++ back } : Swarm ι).weight + msg.pkt.weight := by
        unfold weight
        rw [hflight, Message.weights_append, Message.weights_append, Message.weights_cons]
        omega
      rw [hbefore]
      unfold handle at hhandle
      dsimp only at hhandle
      split at hhandle
      . next hcode =>
        rw [Except.ok.injEq] at hhandle
        have hless := weight_handleReq_lt (s.peers msg.dst).packages (s.peers msg.dst).files hcode
        have hsame (peer : Peer) : (({ s with inFlight := front ++ back } : Swarm ι).setPeer msg.dst
            peer).weight = ({ s with inFlight := front ++ back } : Swarm ι).weight := rfl
        rw [← hhandle, weight_send, hsame]
        omega
      . split at hhandle
        . simp only [bind_eq_ok, pure_eq_ok] at hhandle
          obtain ⟨files, _, hhandle⟩ := hhandle
          rw [← hhandle]
          exact Nat.lt_add_of_pos_right hpos
        . rw [Except.ok.injEq] at hhandle
          rw [← hhandle]
          exact Nat.lt_add_of_pos_right hpos

theorem Orderly.step (h : s.Orderly pkg ident names) (hconcerns : a.Concerns ident) (hstep : Step s a t)
    : t.Orderly pkg ident names where
  shared := h.shared.step hstep
  addressed := by
    intro msg hmsg
    rcases hstep.mem_inFlight hmsg with hmem | hemits
    . exact h.addressed msg hmem
    . exact hemits.addressed h.addressed hconcerns

theorem Orderly.exists_deliver (h : s.Orderly pkg ident names) {msg : Message ι} (hmem : msg ∈ s.inFlight)
    : ∃ front back t, Step s (.deliver front msg back) t := by
  obtain ⟨front, back, hflight⟩ := List.append_of_mem hmem
  have hhandle : ∃ t, handle { s with inFlight := front ++ back } msg = .ok t := by
    unfold handle
    dsimp only
    split
    . exact ⟨_, rfl⟩
    . split
      . next hcode =>
        obtain ⟨content, slot, bpkg, hshares⟩ := h.shared msg.dst
        have hres := (h.addressed msg hmem).res hcode
        by_cases herror : msg.pkt.error = 0
        . obtain ⟨files, hfiles⟩ := hshares.handleRes_ok (hres herror).2.1 fun herror => (hres herror).1
          rw [hfiles]
          exact ⟨_, rfl⟩
        . unfold handleRes
          rw [if_neg herror]
          exact ⟨_, rfl⟩
      . exact ⟨_, rfl⟩
  obtain ⟨t, hhandle⟩ := hhandle
  exact ⟨front, back, t, .deliver hflight hhandle⟩

theorem Orderly.exists_quiet (h : s.Orderly pkg ident names)
    : ∃ hist t, Trace (fun s a t => a.IsDelivery ∧ Step s a t) s hist t ∧ t.inFlight = [] := by
  have hprogress (s : Swarm ι) (hinv : s.Orderly pkg ident names) (hfinal : ¬ s.inFlight = [])
      : ∃ a t, (a.IsDelivery ∧ Step s a t) ∧ t.Orderly pkg ident names ∧ t.weight < s.weight := by
    obtain ⟨msg, hmem⟩ := List.exists_mem_of_ne_nil _ hfinal
    obtain ⟨front, back, t, hstep⟩ := hinv.exists_deliver hmem
    have hconcerns : (Action.deliver front msg back).Concerns ident := trivial
    exact ⟨_, t, ⟨.deliver, hstep⟩, hinv.step hconcerns hstep, weight_deliver .deliver hstep⟩
  obtain ⟨hist, t, hrun, _, hquiet⟩ := Trace.exists_final hprogress h
  exact ⟨hist, t, hrun, hquiet⟩

/--
If only the shared package is fetched then every packet in flight can be delivered next, and the
deliveries end, after no more steps than there are packets and blocks to come. What the files hold does
not matter.
-/
theorem download_ends {hist : List (Swarm ι × Action ι)} (hshared : s.Shared pkg ident names)
    (hquiet : s.inFlight = []) (hrun : Trace (fun s a t => a.Concerns ident ∧ Step s a t) s hist t)
    : (∀ msg ∈ t.inFlight,
          (∃ front back u, Step t (.deliver front msg back) u)
            ∧ (msg.pkt.msgCode = PKT_MSG_RES → msg.pkt.error = 0 → InPayload (resLoads msg.pkt)))
        ∧ (∀ hist' u,
            Trace (fun s a t => a.IsDelivery ∧ Step s a t) t hist' u → hist'.length ≤ t.weight)
        ∧ ∃ hist' u, Trace (fun s a t => a.IsDelivery ∧ Step s a t) t hist' u ∧ u.inFlight = [] := by
  have hinv := hrun.invariant (hshared.orderly hquiet) fun s a t h hstep => h.step hstep.1 hstep.2
  refine ⟨?_, ?_, hinv.exists_quiet⟩
  . intro msg hmem
    exact ⟨hinv.exists_deliver hmem, fun hcode herror => ((hinv.addressed msg hmem).res hcode herror).2.2⟩
  intro hist' u hdeliveries
  have hle := @Trace.length_add_le _ _ _ _ _ _ (fun _ => True) Swarm.weight hdeliveries trivial
    fun s a t _ hstep => ⟨trivial, weight_deliver hstep.1 hstep.2⟩
  exact Nat.le_trans (Nat.le_add_right _ _) hle

end Swarm

namespace Sharing

open Swarm

def digestX : Bytes :=
  ascii "2d711642b726b04401627ca9fbac32f5c8530fb1903cc4db02258717921a4881"

theorem digest_x : Sha256.digest (ascii "x") = digestX := by decide +kernel

theorem digest_zero : Sha256.digest [0] ≠ digestC ∧ Sha256.digest [0] ≠ digestX := by decide +kernel

def twoParts : Package where
  hashes := [letters 118]
  chunks := [⟨digestC, 0, 1, none⟩, ⟨digestX, 1, 1, none⟩]
  chunkSize := 1
  length_chunks := rfl
  tiles := ⟨rfl, Nat.one_pos, rfl, Nat.one_pos, trivial⟩
  size_eq := by simp
  length_hash_le := by decide

theorem twoParts_distinct : twoParts.Distinct :=
  ⟨by decide, by decide⟩

theorem twoParts_complete : ∀ chunk ∈ twoParts.chunks, chunk.complete (ascii "cx") = true := by
  intro chunk hchunk
  rw [Chunk.complete_iff]
  simp only [twoParts, List.mem_cons, List.not_mem_nil, or_false] at hchunk
  rcases hchunk with rfl | rfl
  . exact ⟨by decide, digest_c⟩
  . exact ⟨by decide, digest_x⟩

theorem twoParts_injective
    : ∀ x y, x ∈ [[0], ascii "c", ascii "x"] → y ∈ [[0], ascii "c", ascii "x"]
      → Sha256.digest x = Sha256.digest y → x = y := by
  have hnodup : ([[0], ascii "c", ascii "x"].map Sha256.digest).Nodup := by decide +kernel
  intro x y hx hy h
  exact List.inj_on_of_nodup_map hnodup hx hy h

theorem twoParts_occurs : ∀ chunk ∈ twoParts.chunks,
    slice (ascii "cx") chunk.offset.toNat chunk.size.toNat ∈ [[0], ascii "c", ascii "x"] := by
  decide

/--
One peer has both parts, the other one has an empty file.
-/
def twoPartsSharing (ident name : Bytes) : Sharing Bool where
  pkg := twoParts
  ident := ident
  data := ascii "cx"
  names := fun _ => name
  old := fun p => if p then ascii "cx" else [0, 0]
  occurs := (· ∈ [[0], ascii "c", ascii "x"])
  distinct := twoParts_distinct
  chunkSize_lt := by decide
  length_lt := by decide
  length_data := rfl
  complete := twoParts_complete
  occurs_data := twoParts_occurs
  injective := twoParts_injective

section TwoParts

variable {ident name : Bytes} {s : Swarm Bool}

-- the contents of the parts are a zero or the right byte
theorem twoParts_content {content : Bytes} {p : Bool} (hlen : content.length = 2)
    (hmixed : ∀ i : Nat, content[i]? = (if p then ascii "cx" else [0, 0])[i]? ∨ content[i]? = (ascii "cx")[i]?)
    : ∃ b d, content = [b, d] ∧ (b = 0 ∨ [b] = ascii "c") ∧ (d = 0 ∨ [d] = ascii "x") := by
  obtain ⟨b, d, rfl⟩ := List.length_eq_two.mp hlen
  refine ⟨b, d, rfl, ?_, ?_⟩
  . have hget := hmixed 0
    cases p with
    | true =>
      right
      simpa [ascii] using hget
    | false => simpa [ascii] using hget
  . have hget := hmixed 1
    cases p with
    | true =>
      right
      simpa [ascii] using hget
    | false => simpa [ascii] using hget

theorem twoParts_own {b d : UInt8} (hb : b = 0 ∨ [b] = ascii "c") (hd : d = 0 ∨ [d] = ascii "x")
    : ∀ chunk ∈ twoParts.chunks, ∀ other ∈ twoParts.chunks,
        Sha256.digest (slice [b, d] chunk.offset.toNat chunk.size.toNat) = other.hash → chunk = other := by
  intro chunk hchunk other hother hdigest
  have hne : digestC ≠ digestX := by decide
  have hfirst : slice [b, d] (0 : UInt32).toNat (1 : UInt32).toNat = [b] := rfl
  have hlast : slice [b, d] (1 : UInt32).toNat (1 : UInt32).toNat = [d] := rfl
  simp only [twoParts, List.mem_cons, List.not_mem_nil, or_false] at hchunk hother
  rcases hchunk with rfl | rfl
  . rw [hfirst] at hdigest
    rcases hother with rfl | rfl
    . rfl
    . rcases hb with rfl | hb
      . exact absurd hdigest digest_zero.2
      . rw [hb, digest_c] at hdigest
        exact absurd hdigest hne
  . rw [hlast] at hdigest
    rcases hother with rfl | rfl
    . rcases hd with rfl | hd
      . exact absurd hdigest digest_zero.1
      . rw [hd, digest_x] at hdigest
        exact absurd hdigest hne.symm
    . rfl

theorem twoParts_meets (hdown : (twoPartsSharing ident name).Downloading s)
    (hmixed : (twoPartsSharing ident name).Mixed s) {a : Action Bool} (hends : a.EndsIdent)
    : (twoPartsSharing ident name).Meets s a := by
  have hcontent (p : Bool) (content : Bytes) (hfile : (s.peers p).files name = some content)
      : ∃ b d, content = [b, d] ∧ (b = 0 ∨ [b] = ascii "c") ∧ (d = 0 ∨ [d] = ascii "x") := by
    obtain ⟨other, _, _, hshares⟩ := hdown.shared p
    have hsame : (s.peers p).files name = some other := hshares.file
    rw [hfile, Option.some.injEq] at hsame
    rw [hsame]
    exact twoParts_content hshares.length_content (hmixed p other hshares.file)
  refine ⟨?_, ?_, hends⟩
  . intro p content hfile chunk hchunk
    obtain ⟨b, d, rfl, hb, hd⟩ := hcontent p content hfile
    have hfirst : slice [b, d] (0 : UInt32).toNat (1 : UInt32).toNat = [b] := rfl
    have hlast : slice [b, d] (1 : UInt32).toNat (1 : UInt32).toNat = [d] := rfl
    simp only [twoPartsSharing, twoParts, List.mem_cons, List.not_mem_nil, or_false] at hchunk ⊢
    rcases hchunk with rfl | rfl
    . rw [hfirst]
      rcases hb with rfl | hb
      . exact .inl rfl
      . exact .inr (.inl hb)
    . rw [hlast]
      rcases hd with rfl | hd
      . exact .inl rfl
      . exact .inr (.inr hd)
  . cases a with
    | fetch => trivial
    | deliver front msg back =>
      intro _ _ chunk content hpick hfile hcontains
      obtain ⟨b, d, rfl, hb, hd⟩ := hcontent msg.dst content hfile
      obtain ⟨hchunk, hhash, _⟩ := Package.pick_some hpick
      rw [List.contains_iff_mem, Package.digests, List.mem_map] at hcontains
      obtain ⟨other, hother, hdigest⟩ := hcontains
      rw [← hhash] at hdigest
      rw [twoParts_own hb hd other hother chunk hchunk hdigest] at hdigest
      rw [Chunk.complete_iff]
      exact ⟨Package.chunk_end_le hchunk, hdigest⟩

theorem twoParts_hash : ∀ chunk ∈ twoParts.chunks, cstr chunk.hash = chunk.hash
    ∧ CHUNK_HASH_SIZE ≤ chunk.hash.length := by
  decide +kernel

theorem twoParts_fetch (hshared : s.Shared twoParts ident fun _ => name) {mem : Bytes}
    (hmatch : Matches ident mem) (hmem : IDENT_SIZE ≤ mem.length) {chunk : Chunk}
    (hchunk : chunk ∈ twoParts.chunks)
    : ∃ s', Step s (.fetch false true mem chunk.hash none) s' ∧ s'.peers = s.peers := by
  obtain ⟨_, _, _, hshares⟩ := hshared false
  obtain ⟨hzero, hlen⟩ := twoParts_hash chunk hchunk
  have hnum : fetchParser.offsetNum none = .ok (some none) := rfl
  obtain ⟨pkt, hpkt⟩ :=
    hshares.exists_fetch twoParts_distinct hchunk hmatch hmem hzero hlen hnum rfl
  exact ⟨_, .fetch hpkt, rfl⟩

theorem twoParts_run (hstart : (twoPartsSharing ident name).Starts s) {mem : Bytes}
    (hmatch : Matches ident mem) (hmem : IDENT_SIZE ≤ mem.length) (hnul : 0 ∈ mem.take IDENT_SIZE)
    : ∃ hist t,
        Trace (fun s a t => (twoPartsSharing ident name).Meets s a ∧ Step s a t) s hist t
          ∧ t.inFlight = []
          ∧ ∀ i < 2, ∃ u a, (u, a) ∈ hist ∧ (twoPartsSharing ident name).Fetches u false i a := by
  have hpart : (⟨digestC, 0, 1, none⟩ : Chunk) ∈ twoParts.chunks := List.mem_cons_self
  have hpart' : (⟨digestX, 1, 1, none⟩ : Chunk) ∈ twoParts.chunks :=
    List.mem_cons_of_mem _ List.mem_cons_self
  have hshared : s.Shared twoParts ident fun _ => name := hstart.downloading.shared
  obtain ⟨s', hstep, hpeers⟩ := twoParts_fetch hshared hmatch hmem hpart
  obtain ⟨s'', hstep', hpeers'⟩ := twoParts_fetch (hshared.step hstep) hmatch hmem hpart'
  have hconcerns (hash : Bytes) : (Action.fetch false true mem hash none).Concerns ident :=
    ⟨hmatch, hnul⟩
  have horderly := ((hshared.orderly hstart.quiet).step (hconcerns _) hstep).step (hconcerns _) hstep'
  obtain ⟨hist, t, hdeliveries, hquiet⟩ := horderly.exists_quiet
  have hends : ∀ (s : Swarm Bool) a t, a.IsDelivery ∧ Step s a t → a.EndsIdent ∧ Step s a t := by
    rintro s a t ⟨⟨⟩, hstep⟩
    exact ⟨trivial, hstep⟩
  have hfetches : Trace (fun s a t => a.EndsIdent ∧ Step s a t) s
      [(s', .fetch false true mem digestX none), (s, .fetch false true mem digestC none)] s'' :=
    .cons (.cons .nil ⟨hnul, hstep⟩) ⟨hnul, hstep'⟩
  have hwhole := hfetches.trans (hdeliveries.mono hends)
  have hmeets := @Trace.strengthen _ _ _ _ _ _
    (fun s => (twoPartsSharing ident name).Downloading s ∧ (twoPartsSharing ident name).Mixed s) hwhole
    ⟨hstart.downloading, hstart.mixed⟩
    fun s a t h hstep => ⟨h.1.step (twoParts_meets h.1 h.2 hstep.1) hstep.2, h.2.step h.1 hstep.2⟩
  refine ⟨_, t, hmeets.mono fun _ _ _ h => ⟨twoParts_meets h.1.1 h.1.2 h.2.1, h.2.2⟩, hquiet, ?_⟩
  -- the other peer has the parts
  obtain ⟨_, _, hshares⟩ := hstart.shares true
  have hhas (s' : Swarm Bool) (hpeers : s'.peers = s.peers) (chunk : Chunk)
      : (twoPartsSharing ident name).HasChunk s' true chunk := by
    intro i _ _
    refine ⟨ascii "cx", ?_, rfl⟩
    rw [hpeers]
    exact hshares.file
  intro i hi
  match i, hi with
  | 0, _ =>
    refine ⟨s, _, List.mem_append_right _ (List.mem_cons_of_mem _ List.mem_cons_self), ?_⟩
    exact .fetch hpart hmatch (twoParts_hash _ hpart).1 rfl rfl (Nat.le_refl 0) Nat.one_pos (hhas s rfl _)
  | 1, _ =>
    refine ⟨s', _, List.mem_append_right _ List.mem_cons_self, ?_⟩
    exact .fetch hpart' hmatch (twoParts_hash _ hpart').1 rfl rfl (Nat.le_refl 1) (Nat.lt_succ_self 1)
      (hhas s' hpeers _)

theorem twoParts_starts
    : ∃ s, (twoPartsSharing (cstr longIdent) (ascii "f")).Starts s := by
  have hex (p : Bool) := twoParts.exists_shares (show 1 < 2 ^ 30 by decide)
    (show (if p then ascii "cx" else [0, 0]).length = twoParts.length by cases p <;> rfl)
  choose bpkg hbpkg using hex
  exact ⟨⟨fun p => ⟨[some (bpkg p)], fun _ => some (if p then ascii "cx" else [0, 0])⟩, []⟩,
    fun p => ⟨0, bpkg p, hbpkg p⟩, rfl⟩

theorem download_completes_two
    : ∃ (hist : List (Swarm Bool × Action Bool)) (s t : Swarm Bool),
        (twoPartsSharing (cstr longIdent) (ascii "f")).Starts s
          ∧ (s.peers false).files (ascii "f") = some [0, 0]
          ∧ Trace (fun s a t =>
              (twoPartsSharing (cstr longIdent) (ascii "f")).Meets s a ∧ Step s a t) s hist t
          ∧ t.inFlight = []
          ∧ (t.peers false).files (ascii "f") = some (ascii "cx") := by
  obtain ⟨s, hstart⟩ := twoParts_starts
  obtain ⟨_, _, hshares⟩ := hstart.shares false
  obtain ⟨hist, t, hrun, hquiet, hfetches⟩ :=
    twoParts_run hstart (show Matches (cstr longIdent) longIdent from rfl)
      (Nat.le_of_eq length_longIdent.symm) zero_mem_take_longIdent
  refine ⟨hist, s, t, hstart, hshares.file, hrun, hquiet, ?_⟩
  apply download_completes hstart hrun hquiet false
  intro i hi
  exact .inr (hfetches i hi)

theorem download_ends_two
    : ∃ s t : Swarm Bool,
        s.Shared twoParts (cstr longIdent) (fun _ => ascii "f")
          ∧ Step s (.fetch false true longIdent digestX none) t
          ∧ ∃ hist u, Trace (fun s a t => a.IsDelivery ∧ Step s a t) t hist u ∧ u.inFlight = [] := by
  obtain ⟨s, hstart⟩ := twoParts_starts
  have hshared : s.Shared twoParts (cstr longIdent) fun _ => ascii "f" := hstart.downloading.shared
  have hmatch : Matches (cstr longIdent) longIdent := rfl
  obtain ⟨t, hstep, _⟩ := twoParts_fetch hshared hmatch (Nat.le_of_eq length_longIdent.symm)
    (List.mem_of_getElem? (show twoParts.chunks[1]? = some ⟨digestX, 1, 1, none⟩ from rfl))
  have hconcerns : (Action.fetch false true longIdent digestX none).Concerns (cstr longIdent) :=
    ⟨hmatch, zero_mem_take_longIdent⟩
  exact ⟨s, t, hshared, hstep,
    (Swarm.download_ends hshared hstart.quiet (Trace.nil.cons ⟨hconcerns, hstep⟩)).2.2⟩

end TwoParts

end Sharing

end Btide
