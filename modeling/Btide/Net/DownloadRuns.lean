import Btide.Net.DownloadSteps

/-!
This module contains the downloads of a swarm: what the peers have when no packet is in flight any more.
-/

open Bytes CLib

namespace Btide

open handlePeers

namespace Sharing

open Swarm

variable {ι : Type} (sh : Sharing ι)

structure Starts (s : Swarm ι) : Prop where
  shares : ∀ p, ∃ slot bpkg, (s.peers p).Shares sh.pkg sh.ident (sh.names p) (sh.old p) slot bpkg
  quiet : s.inFlight = []

/--
What a step of the run starts from: the contents that the chunks have occur, and a request that is
delivered is for a chunk that the responder has if it has its hash at all.
-/
structure Meets (s : Swarm ι) (a : Action ι) : Prop where
  within : s.Within sh.pkg sh.names sh.occurs
  backed : s.Backed sh.pkg sh.ident sh.names a
  ends : a.EndsIdent

def Downloading (s : Swarm ι) : Prop :=
  s.Inv sh.pkg sh.ident sh.names sh.occurs

def Mixed (s : Swarm ι) : Prop :=
  ∀ p content, (s.peers p).files (sh.names p) = some content →
    ∀ i : Nat, content[i]? = (sh.old p)[i]? ∨ content[i]? = sh.data[i]?

def HasByte (s : Swarm ι) (p : ι) (i : Nat) : Prop :=
  ∃ content, (s.peers p).files (sh.names p) = some content ∧ content[i]? = sh.data[i]?

def HasChunk (s : Swarm ι) (p : ι) (chunk : Chunk) : Prop :=
  ∀ i, chunk.offset.toNat ≤ i → i < chunk.offset.toNat + chunk.size.toNat → sh.HasByte s p i

inductive Coming (s : Swarm ι) (p : ι) (chunk : Chunk) (i : Nat) : Prop where
  | here (hbyte : sh.HasByte s p i)
  | block {msg : Message ι} (hflight : msg ∈ s.inFlight) (hdst : msg.dst = p)
      (hbrings : chunk.Brings sh.ident sh.data i msg.pkt)
  | request {msg : Message ι} {off : Nat} (hflight : msg ∈ s.inFlight) (hsrc : msg.src = p)
      (hasks : chunk.Asks sh.ident off msg.pkt) (hlo : off ≤ i) (hhas : sh.HasChunk s msg.dst chunk)

inductive Fetches (s : Swarm ι) (p : ι) (i : Nat) : Action ι → Prop where
  | fetch {q : ι} {mem chunkHash : Bytes} {offset : Option Bytes} {num : Option UInt32} {chunk : Chunk}
      (hchunk : chunk ∈ sh.pkg.chunks) (hident : Matches sh.ident mem) (hhash : cstr chunkHash = chunk.hash)
      (hnum : fetchParser.offsetNum offset = .ok (some num)) (hspans : chunk.spans num = true)
      (hlo : chunk.startOf num ≤ i) (hhi : i < chunk.offset.toNat + chunk.size.toNat)
      (hhas : sh.HasChunk s q chunk)
    : Fetches s p i (.fetch p q mem chunkHash offset)

variable {sh} {s s' : Swarm ι} {p : ι} {chunk : Chunk} {i : Nat} {content : Bytes} {slot : Nat}
  {bpkg : BpkgObj}

theorem HasChunk.slice_eq (h : sh.HasChunk s p chunk)
    (hfile : (s.peers p).files (sh.names p) = some content)
    : slice content chunk.offset.toNat chunk.size.toNat
        =
      slice sh.data chunk.offset.toNat chunk.size.toNat := by
  apply slice_eq_of_getElem?
  intro i hlo hhi
  obtain ⟨content', hfile', hbyte⟩ := h i hlo hhi
  rw [hfile, Option.some.injEq] at hfile'
  rw [hfile']
  exact hbyte

theorem Coming.hasByte (h : sh.Coming s p chunk i) (hquiet : s.inFlight = []) : sh.HasByte s p i := by
  cases h with
  | here hbyte => exact hbyte
  | block hflight => simp [hquiet] at hflight
  | request hflight => simp [hquiet] at hflight

theorem content_eq (hlen : content.length = sh.pkg.length)
    (hbytes : ∀ i < sh.pkg.length, content[i]? = sh.data[i]?) : content = sh.data := by
  have hdata := sh.length_data
  apply List.ext_getElem?
  intro i
  by_cases hi : i < sh.pkg.length
  . exact hbytes i hi
  . rw [List.getElem?_eq_none (by omega), List.getElem?_eq_none (by omega)]

theorem content_eq_of_hasByte
    (hshares : (s.peers p).Shares sh.pkg sh.ident (sh.names p) content slot bpkg)
    (hbytes : ∀ i < sh.pkg.length, sh.HasByte s p i) : content = sh.data := by
  apply content_eq hshares.length_content
  intro i hi
  obtain ⟨content', hfile, hget⟩ := hbytes i hi
  rw [hshares.file, Option.some.injEq] at hfile
  rw [hfile]
  exact hget

theorem Starts.downloading (h : sh.Starts s) : sh.Downloading s := by
  apply Shared.inv _ h.quiet
  intro p
  obtain ⟨slot, bpkg, hshares⟩ := h.shares p
  exact ⟨sh.old p, slot, bpkg, hshares⟩

theorem Coming.mono {s s' : Swarm ι} (h : sh.Coming s p chunk i)
    (hflight : ∀ msg ∈ s.inFlight, msg ∈ s'.inFlight) (hbytes : ∀ p i, sh.HasByte s p i → sh.HasByte s' p i)
    : sh.Coming s' p chunk i := by
  cases h with
  | here hbyte => exact .here (hbytes p i hbyte)
  | block hmem hdst hbrings => exact .block (hflight _ hmem) hdst hbrings
  | @request msg off hmem hsrc hasks hlo hhas =>
    exact .request (hflight _ hmem) hsrc hasks hlo fun j hfrom hto => hbytes _ j (hhas j hfrom hto)

theorem Starts.mixed (h : sh.Starts s) : sh.Mixed s := by
  intro p content hfile i
  obtain ⟨_, _, hshares⟩ := h.shares p
  rw [hshares.file, Option.some.injEq] at hfile
  rw [hfile]
  exact .inl rfl

variable [DecidableEq ι] {a : Action ι}

theorem Downloading.step (h : sh.Downloading s) (hmeets : sh.Meets s a) (hstep : Step s a s')
    : sh.Downloading s' :=
  inv_step h hmeets.within hmeets.backed hstep

theorem Downloading.mixes (h : sh.Downloading s) (hstep : Step s a s')
    (hfile : (s.peers p).files (sh.names p) = some content)
    : ∃ content',
        (s'.peers p).files (sh.names p) = some content'
          ∧ ∀ i : Nat, content'[i]? = content[i]? ∨ content'[i]? = sh.data[i]? := by
  have hsame : ∀ i : Nat, content[i]? = content[i]? ∨ content[i]? = sh.data[i]? := fun _ => .inl rfl
  rcases hstep.peer_cases p with heq | ⟨_, _, _, _, _, heq⟩ | ⟨msg, hmem, files, _, hcode, hres, heq⟩
  . rw [heq]
    exact ⟨content, hfile, hsame⟩
  . rw [heq]
    exact ⟨content, hfile, hsame⟩
  . rw [heq]
    obtain ⟨content', slot, bpkg, hshares⟩ := h.shared p
    rw [hshares.file, Option.some.injEq] at hfile
    rw [← hfile]
    exact (trueRes (h.ress msg hmem)).mixes hcode hshares hres

theorem HasByte.step (h : sh.HasByte s p i) (hdown : sh.Downloading s) (hstep : Step s a s')
    : sh.HasByte s' p i := by
  obtain ⟨content, hfile, hbyte⟩ := h
  obtain ⟨content', hfile', hmixes⟩ := hdown.mixes hstep hfile
  refine ⟨content', hfile', ?_⟩
  cases hmixes i with
  | inl hold => rw [hold, hbyte]
  | inr hnew => exact hnew

theorem Mixed.step (h : sh.Mixed s) (hdown : sh.Downloading s) (hstep : Step s a s') : sh.Mixed s' := by
  intro p content' hfile' i
  obtain ⟨content, _, _, hshares⟩ := hdown.shared p
  obtain ⟨content'', hfile, hmixes⟩ := hdown.mixes hstep hshares.file
  rw [hfile', Option.some.injEq] at hfile
  rw [← hfile] at hmixes
  cases hmixes i with
  | inl hold =>
    rw [hold]
    exact h p content hshares.file i
  | inr hnew => exact .inr hnew

theorem Coming.step (h : sh.Coming s p chunk i) (hdown : sh.Downloading s) (hchunk : chunk ∈ sh.pkg.chunks)
    (hhi : i < chunk.offset.toNat + chunk.size.toNat) (hstep : Step s a s') : sh.Coming s' p chunk i := by
  have hbytes (q : ι) (j : Nat) (hbyte : sh.HasByte s q j) : sh.HasByte s' q j := hbyte.step hdown hstep
  cases a with
  | fetch src dst mem chunkHash offset =>
    apply h.mono _ hbytes
    intro msg hmsg
    cases hstep with
    | fetch hfetch => exact List.mem_append_left _ hmsg
  | deliver front msg back =>
    cases h with
    | here hbyte => exact .here (hbytes p i hbyte)
    | @block other hother hdst hbrings =>
      cases hstep.kept hother with
      | inr hother => exact .block hother hdst hbrings
      | inl heq =>
        -- the block arrives
        rw [heq] at hdst hbrings
        obtain ⟨content, slot, bpkg, hshares⟩ := hdown.shared msg.dst
        obtain ⟨_, _, hblock, _⟩ := hbrings.block
        obtain ⟨files, hres, hfiles⟩ := hstep.receives hblock.code_eq
        obtain ⟨content', hfile, hbyte⟩ :=
          hshares.handleRes_brings sh.distinct sh.length_lt sh.length_data hchunk hbrings hres
        rw [← hdst]
        exact .here ⟨content', by rw [hfiles]; exact hfile, hbyte⟩
    | @request other off hother hsrc hasks hlo hq =>
      cases hstep.kept hother with
      | inr hother =>
        exact .request hother hsrc hasks hlo fun j hfrom hto => hbytes _ j (hq j hfrom hto)
      | inl heq =>
        -- the request is answered
        rw [heq] at hsrc hasks hq
        obtain ⟨content, slot, bpkg, hshares⟩ := hdown.shared msg.dst
        have hslice := hq.slice_eq hshares.file
        obtain ⟨pkt, hpkt, hbrings⟩ := hshares.handleReq_brings sh.distinct sh.length_lt sh.chunkSize_lt
          hchunk (complete_of_slice_eq hchunk hshares.length_content hslice) hslice hasks hlo hhi
        exact .block (hstep.answers hasks.code_eq hpkt) hsrc hbrings

theorem Fetches.coming (h : sh.Fetches s p i a) (hdown : sh.Downloading s) (hstep : Step s a s')
    : ∃ chunk ∈ sh.pkg.chunks, i < chunk.offset.toNat + chunk.size.toNat ∧ sh.Coming s' p chunk i := by
  cases h with
  | @fetch q mem chunkHash offset num chunk hchunk hident hhash hnum hspans hlo hhi hhas =>
    cases hstep with
    | @fetch _ _ _ _ _ answer hfetch =>
      obtain ⟨content, slot, bpkg, hshares⟩ := hdown.shared p
      obtain ⟨pkt, heq, hasks⟩ :=
        hshares.fetch_asks sh.distinct sh.length_lt hchunk hident hhash hnum hspans hfetch
      refine ⟨chunk, hchunk, hhi, ?_⟩
      rw [heq]
      have hflight : ⟨p, q, pkt⟩ ∈ (s.send p q (some pkt).toList).inFlight := by
        simp [Swarm.send]
      have hsame : sh.HasChunk (s.send p q (some pkt).toList) q chunk := hhas
      exact .request hflight rfl hasks hlo hsame

/--
When nothing is in flight any more a peer has the data of the package if it had, or has fetched from a
peer that had its chunk, every byte of it, whatever else was fetched and in whatever order the packets
were delivered.
-/
theorem download_completes {t : Swarm ι} {hist : List (Swarm ι × Action ι)} (hstart : sh.Starts s)
    (hrun : Trace (fun s a t => sh.Meets s a ∧ Step s a t) s hist t) (hquiet : t.inFlight = []) (p : ι)
    (hfetched : ∀ i < sh.pkg.length,
      (sh.old p)[i]? = sh.data[i]? ∨ ∃ u a, (u, a) ∈ hist ∧ sh.Fetches u p i a)
    : (t.peers p).files (sh.names p) = some sh.data := by
  have hinit := hstart.downloading
  have hpreserved (s : Swarm ι) (a : Action ι) (t : Swarm ι) (h : sh.Downloading s)
      (hstep : sh.Meets s a ∧ Step s a t) : sh.Downloading t :=
    h.step hstep.1 hstep.2
  obtain ⟨content, slot, bpkg, hshares⟩ := (hrun.invariant hinit hpreserved).shared p
  have hbyte (i : Nat) (hi : i < sh.pkg.length) : sh.HasByte t p i := by
    rcases hfetched i hi with hold | ⟨u, a, hmem, hfetch⟩
    . obtain ⟨slot, bpkg, hshares⟩ := hstart.shares p
      have hkept := @Trace.invariant _ _ _ _ _ _ (fun s => sh.Downloading s ∧ sh.HasByte s p i) hrun
        ⟨hinit, sh.old p, hshares.file, hold⟩
        fun s a t h hstep => ⟨h.1.step hstep.1 hstep.2, h.2.step h.1 hstep.2⟩
      exact hkept.2
    . have hcoming : ∃ chunk ∈ sh.pkg.chunks, i < chunk.offset.toNat + chunk.size.toNat
          ∧ sh.Coming t p chunk i := by
        refine hrun.holds_of_mem hmem hinit hpreserved
          (fun _ hdown hstep => hfetch.coming hdown hstep.2) ?_
        rintro s a t hdown ⟨chunk, hchunk, hhi, hcoming⟩ hstep
        exact ⟨chunk, hchunk, hhi, hcoming.step hdown hchunk hhi hstep.2⟩
      obtain ⟨chunk, _, _, hcoming⟩ := hcoming
      exact hcoming.hasByte hquiet
  rw [hshares.file, content_eq_of_hasByte hshares hbyte]

end Sharing

end Btide
