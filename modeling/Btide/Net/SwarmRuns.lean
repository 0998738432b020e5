import Btide.Net.SwarmSafety

/-!
This module contains the runs of a swarm: in which of them no peer loses a complete chunk.
-/

open Bytes CLib

namespace Btide

open handlePeers

namespace Swarm

variable {ι : Type}

section Invariant

variable (pkg : Package) (ident : Bytes) (names : ι → Bytes) (occurs : Bytes → Prop)

def Shared (s : Swarm ι) : Prop :=
  ∀ p, ∃ content slot bpkg, (s.peers p).Shares pkg ident (names p) content slot bpkg

def Complete (s : Swarm ι) (p : ι) (chunk : Chunk) : Prop :=
  ∃ content, (s.peers p).files (names p) = some content ∧ chunk.complete content = true

def Within (s : Swarm ι) : Prop :=
  ∀ p content, (s.peers p).files (names p) = some content →
    ∀ chunk ∈ pkg.chunks, occurs (slice content chunk.offset.toNat chunk.size.toNat)

/--
If a request that is delivered finds its hash among the hashes of the responder's data file then the
chunk that is read for it is complete.
-/
def Backed (s : Swarm ι) : Action ι → Prop
  | .fetch .. => True
  | .deliver _ msg _ =>
    msg.pkt.msgCode = PKT_MSG_REQ → Matches ident (reqArgs msg.pkt).ident →
      ∀ chunk content,
        pkg.pick (cstr (reqArgs msg.pkt).chunkHash) (some (reqArgs msg.pkt).fileOffset) = some chunk →
        (s.peers msg.dst).files (names msg.dst) = some content →
        (pkg.digests content).contains (cstr (reqArgs msg.pkt).chunkHash) = true →
        chunk.complete content = true

structure Inv (s : Swarm ι) : Prop where
  shared : s.Shared pkg ident names
  reqs : ∀ msg ∈ s.inFlight, SoundReq pkg ident msg.pkt
  ress : ∀ msg ∈ s.inFlight, SoundRes pkg ident occurs msg.pkt

end Invariant

variable {pkg : Package} {ident : Bytes} {names : ι → Bytes} {occurs : Bytes → Prop}

variable {s s' : Swarm ι} {a : Action ι}

theorem Shared.inv (h : s.Shared pkg ident names) (hquiet : s.inFlight = [])
    : s.Inv pkg ident names occurs where
  shared := h
  reqs := by simp [hquiet]
  ress := by simp [hquiet]

theorem Emits.sound {pkt : BtidePacket} (h : s.Emits a pkt) (hinv : s.Inv pkg ident names occurs)
    (hwithin : s.Within pkg names occurs) (hbacked : s.Backed pkg ident names a)
    : SoundReq pkg ident pkt ∧ SoundRes pkg ident occurs pkt := by
  cases h with
  | @request src dst mem chunkHash offset pkt hfetch =>
    obtain ⟨content, slot, bpkg, hshares⟩ := hinv.shared src
    obtain ⟨hcode, hsound⟩ := fetchParser_step hshares hfetch
    refine ⟨hsound, ?_⟩
    intro hres
    rw [hcode] at hres
    exact absurd hres (by decide)
  | @answer front back msg pkt hflight hcode hpkt =>
    obtain ⟨content, slot, bpkg, hshares⟩ := hinv.shared msg.dst
    obtain ⟨hres, hsound⟩ := handleReq_step hshares (hwithin msg.dst content hshares.file) hcode
      (hinv.reqs msg (by rw [hflight]; simp))
      (fun hmatch chunk hpick => hbacked hcode hmatch chunk content hpick hshares.file) pkt hpkt
    refine ⟨?_, hsound⟩
    intro hreq
    rw [hres] at hreq
    exact absurd hreq (by decide)

variable [DecidableEq ι]

theorem Shared.step (h : s.Shared pkg ident names) (hstep : Step s a s') : s'.Shared pkg ident names := by
  intro p
  obtain ⟨content, slot, bpkg, hshares⟩ := h p
  rcases hstep.peer_cases p with heq | ⟨i, other, other', hslot, hcompute, heq⟩ |
    ⟨msg, _, files, _, _, hres, heq⟩
  . rw [heq]
    exact ⟨content, slot, bpkg, hshares⟩
  . rw [heq]
    obtain ⟨bpkg', hshares'⟩ := hshares.set hslot hcompute
    exact ⟨content, slot, bpkg', hshares'⟩
  . rw [heq]
    obtain ⟨content', hshares'⟩ := handleRes_shares hshares hres
    exact ⟨content', slot, bpkg, hshares'⟩

theorem complete_step
    (hinj : ∀ x y, occurs x → occurs y → Sha256.digest x = Sha256.digest y → x = y)
    (hinv : s.Inv pkg ident names occurs) (hwithin : s.Within pkg names occurs) (hstep : Step s a s')
    {p : ι} {chunk : Chunk} (hchunk : chunk ∈ pkg.chunks) (hcomplete : s.Complete names p chunk)
    : s'.Complete names p chunk := by
  obtain ⟨content, hfile, hcomplete⟩ := hcomplete
  rcases hstep.peer_cases p with heq | ⟨_, _, _, _, _, heq⟩ | ⟨msg, hmem, files, hdst, hcode, hres, heq⟩
  . exact ⟨content, by rw [heq]; exact hfile, hcomplete⟩
  . exact ⟨content, by rw [heq]; exact hfile, hcomplete⟩
  . obtain ⟨content', slot, bpkg, hshares⟩ := hinv.shared p
    rw [hshares.file, Option.some.injEq] at hfile
    rw [← hfile] at hcomplete
    obtain ⟨content'', hfile', hkeeps⟩ := handleRes_step hinj hshares
      (hwithin p content' hshares.file) hcode (hinv.ress msg hmem) hres
    exact ⟨content'', by rw [heq]; exact hfile', hkeeps chunk hchunk hcomplete⟩

theorem inv_step (hinv : s.Inv pkg ident names occurs) (hwithin : s.Within pkg names occurs)
    (hbacked : s.Backed pkg ident names a) (hstep : Step s a s') : s'.Inv pkg ident names occurs where
  shared := hinv.shared.step hstep
  reqs := by
    intro msg hmsg
    rcases hstep.mem_inFlight hmsg with hmem | hsent
    . exact hinv.reqs msg hmem
    . exact (hsent.sound hinv hwithin hbacked).1
  ress := by
    intro msg hmsg
    rcases hstep.mem_inFlight hmsg with hmem | hsent
    . exact hinv.ress msg hmem
    . exact (hsent.sound hinv hwithin hbacked).2

/--
No step of a run whose requests are backed makes a peer lose a complete chunk, as long as no two of
the contents that occur have one hash.
-/
theorem never_loses_chunk {s₀ s s' : Swarm ι} {a : Action ι}
    (hinj : ∀ x y, occurs x → occurs y → Sha256.digest x = Sha256.digest y → x = y)
    (hshared : s₀.Shared pkg ident names) (hinit : s₀.inFlight = [])
    (hrun : Run Step (fun s a => s.Within pkg names occurs ∧ s.Backed pkg ident names a) s₀ s)
    (hwithin : s.Within pkg names occurs) (hstep : Step s a s')
    : ∀ p, ∀ chunk ∈ pkg.chunks, s.Complete names p chunk → s'.Complete names p chunk := by
  have hinv := hrun.invariant (hshared.inv hinit) fun s a t hinv hmeets hstep =>
    inv_step hinv hmeets.1 hmeets.2 hstep
  intro p chunk hchunk hcomplete
  exact complete_step hinj hinv hwithin hstep hchunk hcomplete

def twoBytes : Package where
  hashes := [letters 118]
  chunks := [⟨letters 117, 0, 1, none⟩, ⟨digestC, 1, 1, none⟩]
  chunkSize := 1
  length_chunks := rfl
  tiles := ⟨rfl, Nat.one_pos, rfl, Nat.one_pos, trivial⟩
  size_eq := by simp
  length_hash_le := by decide

theorem twoBytes_distinct : twoBytes.Distinct where
  length_hash := by decide
  nodup := by decide

theorem twoBytes_calculateDataLen {bpkg : BpkgObj} (h : twoBytes.IsLoaded bpkg)
    : calculateDataLen bpkg digestC none
        =
      .ok (some (calculateDataLen.result none ⟨digestC, 1, 1, none⟩)) := by
  have hpick : twoBytes.pick digestC none = some ⟨digestC, 1, 1, none⟩ := by
    rw [Package.pick_none]
    decide
  rw [h.calculateDataLen_eq, hpick]
  rfl

def twoBytesArgs : ResArgs where
  dataLen := 1
  dataRecieved := 0
  ident := longIdent.take IDENT_SIZE ++ List.replicate 2996 0
  chunkHash := digestC.take CHUNK_HASH_SIZE ++ [0]
  fileOffset := 1
  data := none
  bytesRead := 0
  currentRead := 0

theorem twoBytes_hash : cstr twoBytesArgs.chunkHash = digestC := by
  decide

theorem twoBytes_request {bpkg : BpkgObj} (hloaded : twoBytes.IsLoaded bpkg)
    (hmanages : Manages [some bpkg] (cstr longIdent) 0 bpkg)
    : ∃ req,
        fetchParser [some bpkg] longIdent digestC none = .ok (some req)
          ∧ req.msgCode = PKT_MSG_REQ
          ∧ reqArgs req = twoBytesArgs := by
  have hhash : cstr digestC = digestC := by decide
  have hfound := hmanages.chunkInMemory_found hloaded twoBytes_distinct.nodup
    (List.mem_of_getElem? (show twoBytes.chunks[1]? = some ⟨digestC, 1, 1, none⟩ from rfl))
  obtain ⟨req, hsend, hcode, hargs⟩ := @reqArgs_of_sendReq
    { calculateDataLen.result none ⟨digestC, 1, 1, none⟩ with ident := longIdent, chunkHash := digestC }
    (by decide) (Nat.le_of_eq length_longIdent.symm)
  refine ⟨req, ?_, hcode, hargs⟩
  unfold fetchParser
  rw [hhash, hfound]
  simp only [fetchParser.offsetNum, List.getD_cons_zero, deref_some, twoBytes_calculateDataLen hloaded,
    hsend, bind, Except.bind, pure, Except.pure]

theorem twoBytes_answer {bpkg : BpkgObj} {b : Bytes} {req : BtidePacket}
    (hholds : Holds [some bpkg] (fun _ => some b) twoBytes (cstr longIdent) 0 bpkg (ascii "f") b)
    (hname : bpkg.filename = some (ascii "f")) (hcontains : (twoBytes.digests b).contains digestC = true)
    (hargs : reqArgs req = twoBytesArgs)
    : ∃ res,
        (handleReq [some bpkg] (fun _ => some b) req).sent = [res]
          ∧ IsBlock twoBytesArgs.chunkHash twoBytesArgs.ident b res (1, 1) := by
  have hstrip : stripWhitespace bpkg.filename = .ok (some (ascii "f")) := by
    rw [hname]
    decide
  have hlen : IDENT_SIZE ≤ longIdent.length := Nat.le_of_eq length_longIdent.symm
  obtain ⟨_, hblocks⟩ := handleReq_blocks twoBytes_distinct
    (show twoBytes.chunks[1]? = some ⟨digestC, 1, 1, none⟩ from rfl) (by decide)
    (show 1 < 2 ^ 31 by decide) hholds hstrip hcontains hargs
    (take_block hlen _ (by decide)) (le_length_block hlen _) twoBytes_hash (by decide) rfl
    (show (1 : UInt32) ≤ 1 by decide) rfl
  have hcut : cut DATA_MAX_SIZE twoBytesArgs.fileOffset.toNat twoBytesArgs.dataLen.toNat = [(1, 1)] := by
    show cut DATA_MAX_SIZE 1 1 = [(1, 1)]
    rw [cut_of_pos (by decide) (by decide)]
    exact congrArg _ (cut_zero _ _)
  rw [hcut, List.forall₂_cons_right_iff] at hblocks
  obtain ⟨res, rest, hres, hrest, hsent⟩ := hblocks
  rw [List.forall₂_nil_right_iff] at hrest
  rw [hrest] at hsent
  exact ⟨res, hsent, hres⟩

def twoPeers (bpkg : BpkgObj) (a b : Bytes) : Swarm Bool where
  peers := fun p => { packages := [some bpkg], files := fun _ => some (if p then b else a) }
  inFlight := []

theorem twoPeers_shared {bpkg : BpkgObj} {a b : Bytes} (ha : a.length = 2) (hb : b.length = 2)
    (hloaded : twoBytes.IsLoaded bpkg) (hname : bpkg.filename = some (ascii "f"))
    (hident : bpkg.ident = some (cstr longIdent))
    : (twoPeers bpkg a b).Shared twoBytes (cstr longIdent) (fun _ => ascii "f") := by
  have hstrip : stripWhitespace (some (ascii "f")) = .ok (some (ascii "f")) := by decide
  intro p
  refine ⟨if p then b else a, 0, bpkg, rfl, hloaded, ⟨_, hident, rfl⟩, hname, hstrip, ?_, rfl, ?_⟩
  . intro i hi other hother
    cases i with
    | zero => exact absurd rfl hi
    | succ i => simp [twoPeers] at hother
  . cases p with
    | false => exact ha
    | true => exact hb

theorem twoPeers_fetch {a b : Bytes} (ha : a.length = 2) (hb : b.length = 2)
    (hcontains : (twoBytes.digests b).contains digestC = true)
    : ∃ bpkg s₁ s₂ s₃ req res,
        (twoPeers bpkg a b).Shared twoBytes (cstr longIdent) (fun _ => ascii "f")
          ∧ Step (twoPeers bpkg a b) (.fetch false true longIdent digestC none) s₁
          ∧ Step s₁ (.deliver [] ⟨false, true, req⟩ []) s₂
          ∧ Step s₂ (.deliver [] ⟨true, false, res⟩ []) s₃
          ∧ cstr (reqArgs req).chunkHash = digestC
          ∧ (∀ p, (s₁.peers p).files = fun _ => some (if p then b else a))
          ∧ (∀ p, (s₂.peers p).files = fun _ => some (if p then b else a))
          ∧ (s₃.peers false).files (ascii "f") = some (patch b a 1 1) := by
  obtain ⟨bpkg, hloaded, hname, hident⟩ :=
    twoBytes.exists_manages (show 1 < 2 ^ 30 by decide) (cstr longIdent)
  have hmanages := manages_first hident []
  have hholds (content : Bytes) (hlen : content.length = 2)
      : Holds [some bpkg] (fun _ => some content) twoBytes (cstr longIdent) 0 bpkg (ascii "f") content :=
    ⟨hmanages, hloaded, rfl, hlen⟩
  obtain ⟨req, hfetch, hcode, hargs⟩ := twoBytes_request hloaded hmanages
  obtain ⟨res, hsent, hres⟩ := twoBytes_answer (hholds b hb) hname hcontains hargs
  have hdeliver := handleRes_block twoBytes_distinct
    (show twoBytes.chunks[1]? = some ⟨digestC, 1, 1, none⟩ from rfl) (by decide) (hholds a ha) hname
    (by rw [twoBytesArgs, List.take_left' (by rw [take_longIdent, length_longIdent])]; rw [take_longIdent])
    (show _ = digestC by decide) hres (Nat.le_refl 1) (Nat.le_refl 2) (Nat.le_of_eq hb.symm)
  obtain ⟨s₁, hs₁⟩ : ∃ s, s = (twoPeers bpkg a b).send false true [req] := ⟨_, rfl⟩
  obtain ⟨s₂, hs₂⟩ : ∃ s, s = (({ s₁ with inFlight := [] } : Swarm Bool).setPeer true
      ⟨(handleReq [some bpkg] (fun _ => some b) req).packages, fun _ => some b⟩).send true false [res] :=
    ⟨_, rfl⟩
  have hpeers₁ (p : Bool) : s₁.peers p = ⟨[some bpkg], fun _ => some (if p then b else a)⟩ := by
    rw [hs₁]
    rfl
  have hpeers₂ : s₂.peers false = ⟨[some bpkg], fun _ => some a⟩ := by
    rw [hs₂]
    exact hpeers₁ false
  have hreq : handle { s₁ with inFlight := [] } ⟨false, true, req⟩ = .ok s₂ := by
    unfold handle
    dsimp only
    rw [if_pos hcode, hpeers₁, hs₂]
    simp only [↓reduceIte, hsent]
  have hres' : handle { s₂ with inFlight := [] } ⟨true, false, res⟩
      = .ok (({ s₂ with inFlight := [] } : Swarm Bool).setPeer false
        ⟨[some bpkg], FileSystem.write (fun _ => some a) (ascii "f") (patch b a 1 1)⟩) := by
    unfold handle
    dsimp only
    rw [hpeers₂, hres.code_eq, if_neg (by decide), if_pos rfl, hdeliver]
    rfl
  refine ⟨bpkg, s₁, s₂, _, req, res, twoPeers_shared ha hb hloaded hname hident, ?_, .deliver ?_ hreq,
    .deliver ?_ hres', ?_, ?_, ?_, ?_⟩
  . rw [hs₁]
    exact @Step.fetch _ _ (twoPeers bpkg a b) false true longIdent digestC none (some req) hfetch
  . rw [hs₁]
    rfl
  . rw [hs₂]
    rfl
  . rw [hargs, twoBytes_hash]
  . intro p
    rw [hpeers₁]
  . intro p
    cases p with
    | false => rw [hpeers₂]; rfl
    | true => rw [hs₂]; rfl
  . exact FileSystem.write_same (fun _ => some a) (ascii "f") (patch b a 1 1)

theorem contains_digest_c {b : Bytes} {j : Nat} {chunk : Chunk} (hj : twoBytes.chunks[j]? = some chunk)
    (hslice : slice b chunk.offset.toNat chunk.size.toNat = ascii "c")
    : (twoBytes.digests b).contains digestC = true := by
  rw [List.contains_iff_mem, Package.digests, List.mem_map]
  exact ⟨chunk, List.mem_of_getElem? hj, by rw [hslice, digest_c]⟩

/--
Both peers have the second chunk, and the first one still has it after it fetched it again.
-/
theorem never_loses_chunk_two
    : ∃ bpkg s₁ s₂ s₃ req res,
        Step (twoPeers bpkg (ascii "cc") (ascii "cc"))
            (.fetch false true longIdent digestC none) s₁
          ∧ Step s₁ (.deliver [] ⟨false, true, req⟩ []) s₂
          ∧ Step s₂ (.deliver [] ⟨true, false, res⟩ []) s₃
          ∧ ∀ p, ∀ chunk ∈ twoBytes.chunks,
              s₂.Complete (fun _ => ascii "f") p chunk → s₃.Complete (fun _ => ascii "f") p chunk := by
  obtain ⟨bpkg, s₁, s₂, s₃, req, res, hshared, hfetch, hreq, hres, hhash, hfiles₁, hfiles₂, _⟩ :=
    @twoPeers_fetch (ascii "cc") (ascii "cc") rfl rfl (contains_digest_c (j := 1) rfl rfl)
  have hslice : ∀ chunk ∈ twoBytes.chunks,
      slice (ascii "cc") chunk.offset.toNat chunk.size.toNat = ascii "c" := by
    decide
  have hwithin (s : Swarm Bool)
      (hfiles : ∀ p, (s.peers p).files = fun _ => some (if p then ascii "cc" else ascii "cc"))
      : s.Within twoBytes (fun _ => ascii "f") (· = ascii "c") := by
    intro p content hfile chunk hchunk
    rw [hfiles, ite_self, Option.some.injEq] at hfile
    rw [← hfile]
    exact hslice chunk hchunk
  have hbacked : s₁.Backed twoBytes (cstr longIdent) (fun _ => ascii "f")
      (.deliver [] ⟨false, true, req⟩ []) := by
    intro _ _ chunk content hpick hfile _
    obtain ⟨hchunk, hequal, _⟩ := Package.pick_some hpick
    rw [hfiles₁, ite_self, Option.some.injEq] at hfile
    rw [← hfile, Chunk.complete_iff, hslice chunk hchunk, digest_c, hequal, hhash]
    exact ⟨Package.chunk_end_le hchunk, rfl⟩
  have hfirst : (twoPeers bpkg (ascii "cc") (ascii "cc")).Backed twoBytes (cstr longIdent)
      (fun _ => ascii "f") (.fetch false true longIdent digestC none) := trivial
  have hrun : Run Step (fun s a => s.Within twoBytes (fun _ => ascii "f") (· = ascii "c")
      ∧ s.Backed twoBytes (cstr longIdent) (fun _ => ascii "f") a)
      (twoPeers bpkg (ascii "cc") (ascii "cc")) s₂ :=
    .tail (.tail (.refl _) ⟨hwithin _ fun _ => rfl, hfirst⟩ hfetch) ⟨hwithin _ hfiles₁, hbacked⟩ hreq
  refine ⟨bpkg, s₁, s₂, s₃, req, res, hfetch, hreq, hres, ?_⟩
  apply never_loses_chunk _ hshared rfl hrun (hwithin _ hfiles₂) hres
  intro x y hx hy _
  rw [hx, hy]

/--
The responder has the content of the second chunk in its first one. It answers with its second chunk,
and the requester, which had the chunk, loses it.
-/
theorem never_loses_chunk_fails
    : ∃ bpkg s₁ s₂ s₃ req res,
        (twoPeers bpkg (ascii "ac") (ascii "cx")).Shared twoBytes (cstr longIdent) (fun _ => ascii "f")
          ∧ (twoPeers bpkg (ascii "ac") (ascii "cx")).inFlight = []
          ∧ Step (twoPeers bpkg (ascii "ac") (ascii "cx"))
              (.fetch false true longIdent digestC none) s₁
          ∧ Step s₁ (.deliver [] ⟨false, true, req⟩ []) s₂
          ∧ Step s₂ (.deliver [] ⟨true, false, res⟩ []) s₃
          ∧ ∃ chunk ∈ twoBytes.chunks,
              s₂.Complete (fun _ => ascii "f") false chunk
                ∧ ¬ s₃.Complete (fun _ => ascii "f") false chunk := by
  obtain ⟨bpkg, s₁, s₂, s₃, req, res, hshared, hfetch, hreq, hres, _, _, hfiles₂, hfile₃⟩ :=
    @twoPeers_fetch (ascii "ac") (ascii "cx") rfl rfl (contains_digest_c (j := 0) rfl rfl)
  refine ⟨bpkg, s₁, s₂, s₃, req, res, hshared, rfl, hfetch, hreq, hres, ⟨digestC, 1, 1, none⟩,
    List.mem_of_getElem? (i := 1) rfl, ?_, ?_⟩
  . refine ⟨ascii "ac", by rw [hfiles₂]; rfl, ?_⟩
    rw [Chunk.complete_iff]
    exact ⟨by decide, digest_c⟩
  . rintro ⟨content, hfile, hcomplete⟩
    rw [hfile₃, Option.some.injEq] at hfile
    rw [← hfile, Chunk.complete_iff] at hcomplete
    have hne : Sha256.digest (ascii "x") ≠ digestC := by decide +kernel
    exact hne hcomplete.2

end Swarm

end Btide
