import Btide.Chk.StoredStrings
import Btide.Net.DownloadEnds
import Btide.Net.FileCheck
import Btide.Net.FullFile

/-!
This module contains the commands of a download from the first one to the last one: every client adds
the package, fetches parts of it and looks at the status of its packages.
-/

open Bytes CLib

namespace Btide

namespace PackageStore

def peer (store : PackageStore) : Peer where
  packages := store.packages.managedArray.map (·.bind store.objects)
  files := store.files

structure Single (store : PackageStore) (ptr : ObjPtr) (bpkg : BpkgObj) : Prop where
  packages_eq : store.packages = { managedArray := [some ptr, none], size := 1 }
  object_eq : store.objects ptr = some bpkg

section Single

variable {store store' : PackageStore} {ptr : ObjPtr} {bpkg bpkg' : BpkgObj} {name : Bytes}

theorem Single.peer_eq (h : store.Single ptr bpkg)
    : store.peer = { packages := [some bpkg, none], files := store.files } := by
  unfold peer
  simp only [h.packages_eq, List.map_cons, List.map_nil, Option.bind_some, Option.bind_none, h.object_eq]

theorem single_of_slot {slot : Nat}
    (hpackages : store.packages = { managedArray := [some ptr, none], size := 1 })
    (hslot : store.peer.packages[slot]? = some (some bpkg)) : slot = 0 ∧ store.Single ptr bpkg := by
  unfold peer at hslot
  simp only [hpackages, List.map_cons, List.map_nil, Option.bind_some, Option.bind_none] at hslot
  match slot, hslot with
  | 0, hslot => exact ⟨rfl, hpackages, Option.some.inj hslot⟩
  | 1, hslot => simp at hslot
  | slot + 2, hslot => simp at hslot

theorem addPackage_init {dir path : Bytes} {env : AddEnv} {files : FileSystem}
    (hload : bpkgLoad env.garbage (files path) (some dir) = .ok (some bpkg))
    (hname : stripWhitespace bpkg.filename = .ok (some name))
    : ∃ store,
        addPackage dir path env (.init files) = .ok (store, 1)
          ∧ store.Single env.ptr { bpkg with filename := some name }
          ∧ store.files
              =
            if files name = none ∧ env.create = true then
              files.write name (List.replicate (writtenLength bpkg.size) 0)
            else
              files := by
  have hinsert : PackageTable.init.insert env.ptr env.realloc
      = .ok ({ managedArray := [some env.ptr, none], size := 1 }, 1) := rfl
  have hcheck := @bpkgFileCheck_eq files env.create bpkg name hname
  unfold addPackage
  simp only [init, hload, hcheck, hinsert, bind, Except.bind, pure, Except.pure]
  refine ⟨_, rfl, ⟨rfl, ?_⟩, rfl⟩
  dsimp only
  rw [Function.update_self]

theorem packageStatus_single {qry : BpkgQuery} {tree : MerkleTree} (h : store.Single ptr bpkg)
    (hqry : bpkgGetMinCompletedHashes store.files bpkg = .ok (qry, bpkg')) (htree : bpkg'.tree = some tree)
    : packageStatus store
        =
      .ok
        ([{ ident := bpkg'.ident
            filename := bpkg'.filename
            completed := qry.hashes.hashes.head? = some tree.root.info.value }],
          { store with objects := Function.update store.objects ptr (some bpkg') }) := by
  have hload : load store.objects ptr = .ok bpkg := load_eq_ok.mpr h.object_eq
  unfold packageStatus
  simp only [h.packages_eq, one_ne_zero, ↓reduceIte, packageStatus.report, hload, hqry, htree, deref_some,
    bind, Except.bind, pure, Except.pure]

theorem packageStatus_single_cases {lines : List StatusLine} (h : store.Single ptr bpkg)
    (hstatus : packageStatus store = .ok (lines, store'))
    : ∃ bpkg',
        computeHashesForChunks store.files bpkg = .ok bpkg'
          ∧ store'.Single ptr bpkg'
          ∧ store'.files = store.files := by
  have hload : load store.objects ptr = .ok bpkg := load_eq_ok.mpr h.object_eq
  unfold packageStatus at hstatus
  simp only [h.packages_eq, one_ne_zero, ↓reduceIte, packageStatus.report, hload, bind_eq_ok, pure_eq_ok,
    Prod.mk.injEq, deref_eq_ok] at hstatus
  obtain ⟨result, ⟨other, hother, ⟨qry, bpkg'⟩, hqry, _, _, rest, hrest, hresult⟩, _, hstore⟩ := hstatus
  rw [Except.ok.injEq] at hother hrest
  rw [← hother] at hqry
  refine ⟨bpkg', computeHashes_of_minCompleted hqry, ?_, by rw [← hstore]⟩
  rw [← hstore, ← hresult, ← hrest]
  refine ⟨rfl, ?_⟩
  dsimp only
  rw [Function.update_self]

end Single

end PackageStore

theorem Package.length_pos (pkg : Package) : 0 < pkg.length := by
  apply Nat.mul_pos
  . rw [pkg.length_chunks]
    apply Nat.succ_pos
  . exact Package.chunkSize_pos

theorem Package.exists_chunk {pkg : Package} {i : Nat} (hi : i < pkg.length)
    : ∃ chunk ∈ pkg.chunks,
        chunk.offset.toNat ≤ i ∧ i < chunk.offset.toNat + chunk.size.toNat := by
  have hpos := @Package.chunkSize_pos pkg
  have hindex : i / pkg.chunkSize < pkg.chunks.length := Nat.div_lt_of_lt_mul (by
    rw [Nat.mul_comm]
    exact hi)
  have hget := List.getElem?_eq_getElem hindex
  have hmem := List.mem_of_getElem? hget
  refine ⟨_, hmem, ?_⟩
  rw [Package.offset_eq hget, pkg.size_eq _ hmem, Nat.mul_comm]
  exact ⟨Nat.mul_div_le i _, Nat.lt_mul_div_succ i hpos |>.trans_eq (by rw [Nat.mul_succ])⟩

structure Clients (ι : Type) where
  stores : ι → PackageStore
  inFlight : List (Message ι)

namespace Clients

variable {ι : Type}

def swarm (c : Clients ι) : Swarm ι where
  peers := fun p => (c.stores p).peer
  inFlight := c.inFlight

inductive Command (ι : Type) where
  | exchange (action : Swarm.Action ι)
  | packages (p : ι)

variable [DecidableEq ι]

/--
A FETCH command or a delivery changes no table, the command PACKAGES sends nothing.
-/
inductive Step : Clients ι → Command ι → Clients ι → Prop where
  | exchange {c c' : Clients ι} {action : Swarm.Action ι} (hstep : Swarm.Step c.swarm action c'.swarm)
      (hpackages : ∀ p, (c'.stores p).packages = (c.stores p).packages)
    : Step c (.exchange action) c'
  | packages {c : Clients ι} {p : ι} {lines : List PackageStore.StatusLine} {store : PackageStore}
      (h : PackageStore.packageStatus (c.stores p) = .ok (lines, store))
    : Step c (.packages p) { c with stores := Function.update c.stores p store }

end Clients

namespace Sharing

variable {ι : Type} (sh : Sharing ι)

structure Describes (text filename : Bytes) : Prop where
  loads : ∃ obj bpkg current,
    bpkgLoad obj (some text) none = .ok (some bpkg)
      ∧ bpkg.filename = some filename
      ∧ bpkg.ident = some current
      ∧ current.take 20 = sh.ident.take 20
      ∧ bpkg.size.toNat = sh.pkg.length
      ∧ sh.pkg.IsLoaded bpkg

inductive Prepares (p : ι) (files : FileSystem) (create : Bool) : Prop where
  | kept (hfile : files (sh.names p) = some (sh.old p)) (hlen : (sh.old p).length = sh.pkg.length)
  | created (hfile : files (sh.names p) = none) (hcreate : create = true)
      (hzeros : sh.old p = List.replicate sh.pkg.length 0)

inductive Joins (text filename : Bytes) (p : ι) : PackageStore → Prop where
  | add {dir path : Bytes} {env : AddEnv} {files : FileSystem} {store : PackageStore} {ret : Int}
      (hdir : ∀ c ∈ dir, c ≠ 0) (htext : files path = some text)
      (hname : trim (bpkgLoad.joinDir (some dir) filename) = sh.names p)
      (hfile : sh.Prepares p files env.create)
      (hadd : PackageStore.addPackage dir path env (.init files) = .ok (store, ret))
    : Joins text filename p store

structure Ready (c : Clients ι) : Prop where
  shared : c.swarm.Shared sh.pkg sh.ident sh.names
  single : ∀ p, ∃ ptr bpkg, (c.stores p).Single ptr bpkg

variable {sh} {text filename : Bytes} {p : ι} {store : PackageStore}

theorem Joins.shares (h : sh.Joins text filename p store) (htext : sh.Describes text filename)
    : ∃ ptr bpkg,
        store.Single ptr bpkg
          ∧ store.peer.Shares sh.pkg sh.ident (sh.names p) (sh.old p) 0 bpkg := by
  obtain ⟨obj, bpkg, current, hload, hfilename, hident, hprefix, hsize, hloaded⟩ := htext.loads
  cases h with
  | @add dir path env files _ ret hdir hpath hname hfile hadd =>
    obtain ⟨filename', heq, hother⟩ := bpkgLoad_dir hload
    rw [hfilename, Option.some.injEq] at heq
    have hload := hother env.garbage (some dir)
    rw [show filename' = filename from heq.symm] at hload
    have hmanaged := @BpkgObj.Managed.load _ _ text (some dir) hdir hload
    obtain ⟨_, hpathname, hzero⟩ := hmanaged.exists_filename
    dsimp only at hpathname
    rw [Option.some.injEq] at hpathname
    rw [← hpathname] at hzero
    have hstrip := stripWhitespace_eq_trim hzero
    have htrim : ∀ c ∈ sh.names p, c ≠ 0 := by
      intro c hc
      rw [← hname] at hc
      exact hzero c (mem_of_mem_trim hc)
    have hstripped := stripWhitespace_eq_trim htrim
    rw [hname] at hstrip
    rw [← hname, trim_trim, hname] at hstripped
    rw [← hpath] at hload
    obtain ⟨store', hadded, hsingle, hfiles⟩ := PackageStore.addPackage_init hload hstrip
    rw [hadd, Except.ok.injEq, Prod.mk.injEq] at hadded
    rw [← hadded.1] at hsingle hfiles
    refine ⟨env.ptr, _, hsingle, ?_⟩
    have hprepared : store.files (sh.names p) = some (sh.old p)
        ∧ (sh.old p).length = sh.pkg.length := by
      cases hfile with
      | kept hfile hlen =>
        rw [hfiles, hfile, if_neg (by simp)]
        exact ⟨hfile, hlen⟩
      | created hfile hcreate hzeros =>
        have hlength : PackageStore.writtenLength bpkg.size = sh.pkg.length := by
          rw [← hsize, PackageStore.writtenLength_eq_iff]
          rintro hzero
          have hpos := sh.pkg.length_pos
          rw [← hsize, hzero] at hpos
          exact absurd hpos (by decide)
        rw [hfiles, if_pos ⟨hfile, hcreate⟩, FileSystem.write_same, hlength, hzeros]
        exact ⟨rfl, List.length_replicate⟩
    rw [hsingle.peer_eq]
    exact {
      slot_eq := rfl
      loaded := ⟨hloaded.nchunks, hloaded.nchunks_le, hloaded.sound⟩
      ident_eq := ⟨current, hident, hprefix⟩
      filename_eq := rfl
      stripped := hstripped
      foreign := by
        intro i hi other hother
        cases i with
        | zero => exact absurd rfl hi
        | succ i => cases i <;> simp at hother
      file := hprepared.1
      length_content := hprepared.2 }

theorem Joins.starts {c : Clients ι} (htext : sh.Describes text filename)
    (hjoins : ∀ p, sh.Joins text filename p (c.stores p)) (hquiet : c.inFlight = []) : sh.Starts c.swarm where
  shares := by
    intro p
    obtain ⟨_, bpkg, _, hshares⟩ := (hjoins p).shares htext
    exact ⟨0, bpkg, hshares⟩
  quiet := hquiet

theorem Joins.ready {c : Clients ι} (htext : sh.Describes text filename)
    (hjoins : ∀ p, sh.Joins text filename p (c.stores p)) (hquiet : c.inFlight = []) : sh.Ready c where
  shared := (Joins.starts htext hjoins hquiet).downloading.shared
  single := by
    intro p
    obtain ⟨ptr, bpkg, hsingle, _⟩ := (hjoins p).shares htext
    exact ⟨ptr, bpkg, hsingle⟩

theorem shares_status {ptr : ObjPtr} {bpkg : BpkgObj} {content : Bytes} {slot : Nat} {store : PackageStore}
    (h : store.peer.Shares sh.pkg sh.ident (sh.names p) content slot bpkg) (hpos : 0 < sh.pkg.hashes.length)
    (hsingle : store.Single ptr bpkg)
    : ∃ line store',
        PackageStore.packageStatus store = .ok ([line], store')
          ∧ line.filename = some (sh.names p)
          ∧ (line.completed = true ↔ ∀ chunk ∈ sh.pkg.chunks, chunk.complete content = true) := by
  have hname := h.name_eq
  obtain ⟨qry, bpkg', tree, hqry, htree, hroot⟩ := h.loaded.minCompleted hpos sh.distinct.nodup hname
    h.file h.length_content
  have hframe := (computeHashesForChunks_frame (computeHashes_of_minCompleted hqry)).2
  rw [hname, Except.ok.injEq] at hframe
  refine ⟨_, _, PackageStore.packageStatus_single hsingle hqry htree, hframe.symm, ?_⟩
  dsimp only
  rw [decide_eq_true_iff, hroot]

theorem content_eq_iff {content : Bytes} (hlen : content.length = sh.pkg.length)
    (hoccurs : ∀ chunk ∈ sh.pkg.chunks, sh.occurs (slice content chunk.offset.toNat chunk.size.toNat))
    : (∀ chunk ∈ sh.pkg.chunks, chunk.complete content = true) ↔ content = sh.data := by
  constructor
  . intro hcomplete
    apply content_eq hlen
    intro i hi
    obtain ⟨chunk, hchunk, hlo, hhi⟩ := Package.exists_chunk hi
    have hslice := slice_eq_of_complete hchunk (hcomplete chunk hchunk) (hoccurs chunk hchunk)
    exact getElem?_of_slice_eq hslice hlo hhi
  . rintro rfl
    exact sh.complete

variable [DecidableEq ι] {c c' : Clients ι} {command : Clients.Command ι}

theorem swarm_packages {ptr : ObjPtr} {bpkg bpkg' : BpkgObj} {store : PackageStore}
    (hbefore : (c.stores p).Single ptr bpkg) (hafter : store.Single ptr bpkg')
    (hfiles : store.files = (c.stores p).files)
    : Clients.swarm { c with stores := Function.update c.stores p store }
        =
      c.swarm.setPeer p
        { (c.swarm.peers p) with packages := (c.swarm.peers p).packages.set 0 (some bpkg') } := by
  unfold Clients.swarm Swarm.setPeer
  congr 1
  funext q
  dsimp only
  split
  . next heq =>
    rw [heq, Function.update_self, hafter.peer_eq, hbefore.peer_eq, hfiles]
    rfl
  . next hne => rw [Function.update_of_ne hne]

theorem Ready.step (h : sh.Ready c) (hstep : Clients.Step c command c') : sh.Ready c' := by
  cases hstep with
  | @exchange _ action hstep hpackages =>
    have hshared := h.shared.step hstep
    refine ⟨hshared, ?_⟩
    intro p
    obtain ⟨ptr, _, hsingle⟩ := h.single p
    obtain ⟨_, slot, bpkg, hshares⟩ := hshared p
    have htable := (hpackages p).trans hsingle.packages_eq
    exact ⟨ptr, bpkg, (PackageStore.single_of_slot htable hshares.slot_eq).2⟩
  | @packages p lines store hstatus =>
    obtain ⟨ptr, bpkg, hsingle⟩ := h.single p
    obtain ⟨bpkg', hcompute, hafter, hfiles⟩ := PackageStore.packageStatus_single_cases hsingle hstatus
    have hswarm := swarm_packages hsingle hafter hfiles
    have hslot : (c.swarm.peers p).packages[0]? = some (some bpkg) := by
      unfold Clients.swarm
      dsimp only
      rw [hsingle.peer_eq]
      rfl
    constructor
    . rw [hswarm]
      intro q
      unfold Swarm.setPeer
      by_cases hq : q = p
      . simp only [hq, ↓reduceIte]
        obtain ⟨content, slot, other, hshares⟩ := h.shared p
        obtain ⟨_, hshares'⟩ := hshares.set hslot hcompute
        exact ⟨content, slot, _, hshares'⟩
      . simp only [hq, ↓reduceIte]
        exact h.shared q
    . intro q
      dsimp only
      by_cases hq : q = p
      . rw [hq, Function.update_self]
        exact ⟨ptr, bpkg', hafter⟩
      . rw [Function.update_of_ne hq]
        exact h.single q

theorem hasByte_packages {lines : List PackageStore.StatusLine} {store : PackageStore} (h : sh.Ready c)
    (hstatus : PackageStore.packageStatus (c.stores p) = .ok (lines, store)) {q : ι} {i : Nat}
    (hbyte : sh.HasByte c.swarm q i)
    : sh.HasByte (Clients.swarm { c with stores := Function.update c.stores p store }) q i := by
  obtain ⟨ptr, bpkg, hsingle⟩ := h.single p
  obtain ⟨bpkg', _, hafter, hfiles⟩ := PackageStore.packageStatus_single_cases hsingle hstatus
  rw [swarm_packages hsingle hafter hfiles]
  unfold HasByte Swarm.setPeer at *
  by_cases hq : q = p
  . simp only [hq, ↓reduceIte] at hbyte ⊢
    exact hbyte
  . simp only [hq, ↓reduceIte]
    exact hbyte

/--
The exchange goes on as if PACKAGES had not been typed.
-/
structure Active (sh : Sharing ι) (c : Clients ι) : Prop where
  ready : sh.Ready c
  downloading : sh.Downloading c.swarm

theorem Active.step (h : sh.Active c) (hmeets : ∀ a, command = .exchange a → sh.Meets c.swarm a)
    (hstep : Clients.Step c command c') : sh.Active c' := by
  have hready := h.ready.step hstep
  cases hstep with
  | exchange hstep => exact ⟨hready, h.downloading.step (hmeets _ rfl) hstep⟩
  | packages hstatus => exact ⟨hready, hready.shared, h.downloading.reqs, h.downloading.ress⟩

theorem HasByte.kept {i : Nat} (h : sh.HasByte c.swarm p i) (hactive : sh.Active c)
    (hstep : Clients.Step c command c') : sh.HasByte c'.swarm p i := by
  cases hstep with
  | exchange hstep => exact HasByte.step h hactive.downloading hstep
  | packages hstatus => exact hasByte_packages hactive.ready hstatus h

def Expects (sh : Sharing ι) (p : ι) (i : Nat) (c : Clients ι) : Prop :=
  ∃ chunk ∈ sh.pkg.chunks, i < chunk.offset.toNat + chunk.size.toNat ∧ sh.Coming c.swarm p chunk i

theorem Expects.step {i : Nat} (h : Expects sh p i c) (hactive : sh.Active c)
    (hstep : Clients.Step c command c') : Expects sh p i c' := by
  obtain ⟨chunk, hchunk, hhi, hcoming⟩ := h
  refine ⟨chunk, hchunk, hhi, ?_⟩
  cases hstep with
  | exchange hstep => exact Coming.step hcoming hactive.downloading hchunk hhi hstep
  | packages hstatus =>
    exact hcoming.mono (fun _ hmsg => hmsg) fun _ _ hbyte => hasByte_packages hactive.ready hstatus hbyte

theorem Ready.exists_exchange {s : Swarm ι} {action : Swarm.Action ι} (h : sh.Ready c)
    (hstep : Swarm.Step c.swarm action s)
    : ∃ c', Clients.Step c (.exchange action) c' ∧ c'.swarm = s := by
  have hobject (p : ι) : ∃ bpkg, (s.peers p).packages = [some bpkg, none] := by
    obtain ⟨ptr, bpkg, hsingle⟩ := h.single p
    have hbefore : (c.swarm.peers p).packages = [some bpkg, none] := by
      unfold Clients.swarm
      dsimp only
      rw [hsingle.peer_eq]
    rcases hstep.peer_cases p with heq | ⟨slot, other, bpkg', hslot, _, heq⟩ | ⟨_, _, _, _, _, _, heq⟩
    . exact ⟨bpkg, by rw [heq, hbefore]⟩
    . rw [heq]
      rw [hbefore] at hslot ⊢
      match slot, hslot with
      | 0, _ => exact ⟨bpkg', rfl⟩
      | 1, hslot => simp at hslot
      | slot + 2, hslot => simp at hslot
    . exact ⟨bpkg, by rw [heq, hbefore]⟩
  choose bpkg hbpkg using hobject
  have hswarm : Clients.swarm
      { stores := fun p =>
          { packages := (c.stores p).packages, objects := fun _ => some (bpkg p), files := (s.peers p).files }
        inFlight := s.inFlight } = s := by
    unfold Clients.swarm
    congr 1
    funext p
    obtain ⟨ptr, _, hsingle⟩ := h.single p
    unfold PackageStore.peer
    simp only [hsingle.packages_eq, List.map_cons, List.map_nil, Option.bind_some, Option.bind_none,
      ← hbpkg p]
  refine ⟨_, .exchange ?_ ?_, hswarm⟩
  . rw [hswarm]
    exact hstep
  . exact fun _ => rfl

theorem Ready.exists_run {s : Swarm ι} {hist : List (Swarm ι × Swarm.Action ι)} (h : sh.Ready c)
    (hrun : Trace Swarm.Step c.swarm hist s)
    : ∃ hist' c',
        Trace Clients.Step c hist' c'
          ∧ c'.swarm = s
          ∧ (∀ t a, (t, a) ∈ hist → ∃ u, (u, .exchange a) ∈ hist' ∧ u.swarm = t)
          ∧ ∀ u a, (u, .exchange a) ∈ hist' → (u.swarm, a) ∈ hist := by
  induction hrun with
  | nil => exact ⟨[], c, .nil, rfl, by simp, by simp⟩
  | @cons t u action hist _ hstep ih =>
    obtain ⟨hist', c', hrun', hswarm, hmem, hback⟩ := ih
    have hready := hrun'.invariant h fun _ _ _ hready hstep => hready.step hstep
    rw [← hswarm] at hstep
    obtain ⟨c'', hstep', hswarm'⟩ := hready.exists_exchange hstep
    refine ⟨_, c'', hrun'.cons hstep', hswarm', ?_, ?_⟩
    . intro v a hv
      rw [List.mem_cons, Prod.mk.injEq] at hv
      rcases hv with ⟨rfl, rfl⟩ | hv
      . exact ⟨c', List.mem_cons_self, hswarm⟩
      . obtain ⟨w, hw, heq⟩ := hmem v a hv
        exact ⟨w, List.mem_cons_of_mem _ hw, heq⟩
    . intro v a hv
      rw [List.mem_cons, Prod.mk.injEq, Clients.Command.exchange.injEq] at hv
      rcases hv with ⟨rfl, rfl⟩ | hv
      . rw [hswarm]
        exact List.mem_cons_self
      . exact List.mem_cons_of_mem _ (hback v a hv)

/--
Clients that add a package, fetch parts of it from each other and look at its status at any time: the
status is COMPLETED exactly if every chunk of the data file is. It is COMPLETED, and the file is the data,
once no packet is in flight if every byte was there or was fetched from a peer that had it.
-/
theorem status_follows_download {c₀ : Clients ι} {hist : List (Clients ι × Clients.Command ι)}
    (hpos : 0 < sh.pkg.hashes.length) (htext : sh.Describes text filename)
    (hjoins : ∀ p, sh.Joins text filename p (c₀.stores p)) (hstart : c₀.inFlight = [])
    (hrun : Trace Clients.Step c₀ hist c) (p : ι)
    : ∃ content line store,
        (c.stores p).files (sh.names p) = some content
          ∧ PackageStore.packageStatus (c.stores p) = .ok ([line], store)
          ∧ line.filename = some (sh.names p)
          ∧ (line.completed = true ↔ ∀ chunk ∈ sh.pkg.chunks, chunk.complete content = true)
          ∧ ((∀ chunk ∈ sh.pkg.chunks, sh.occurs (slice content chunk.offset.toNat chunk.size.toNat))
              →
            (line.completed = true ↔ content = sh.data))
          ∧ (c.inFlight = []
              →
            (∀ u a, (u, .exchange a) ∈ hist → sh.Meets u.swarm a)
              →
            (∀ i < sh.pkg.length,
              (sh.old p)[i]? = sh.data[i]?
                ∨ ∃ u a, (u, .exchange a) ∈ hist ∧ sh.Fetches u.swarm p i a)
              →
            content = sh.data ∧ line.completed = true) := by
  have hinit := Joins.ready htext hjoins hstart
  have hready := hrun.invariant hinit fun _ _ _ h hstep => h.step hstep
  obtain ⟨ptr, bpkg, hsingle⟩ := hready.single p
  obtain ⟨content, slot, other, hshares⟩ := hready.shared p
  have hother := (PackageStore.single_of_slot hsingle.packages_eq hshares.slot_eq).2
  obtain ⟨line, store, hstatus, hname, hcompleted⟩ := shares_status hshares hpos hother
  refine ⟨content, line, store, hshares.file, hstatus, hname, hcompleted, ?_, ?_⟩
  . intro hoccurs
    rw [hcompleted]
    exact content_eq_iff hshares.length_content hoccurs
  . intro hquiet hmeets hfetched
    have hactive : sh.Active c₀ := ⟨hinit, (Joins.starts htext hjoins hstart).downloading⟩
    have hpreserved (c : Clients ι) (command : Clients.Command ι) (c' : Clients ι) (h : sh.Active c)
        (hstep : (c, command) ∈ hist ∧ Clients.Step c command c') : sh.Active c' := by
      apply h.step _ hstep.2
      rintro a rfl
      exact hmeets c a hstep.1
    have hcontent : content = sh.data := by
      apply content_eq_of_hasByte hshares
      intro i hi
      rcases hfetched i hi with hold | ⟨u, a, hmem, hfetch⟩
      . obtain ⟨_, _, _, hshares⟩ := (hjoins p).shares htext
        have hkept := @Trace.invariant _ _ _ _ _ _ (fun c => sh.Active c ∧ sh.HasByte c.swarm p i)
          hrun.with_mem ⟨hactive, sh.old p, hshares.file, hold⟩
          fun c command c' h hstep => ⟨hpreserved _ _ _ h.1 hstep, h.2.kept h.1 hstep.2⟩
        exact hkept.2
      . have hcoming : Expects sh p i c := by
          apply hrun.with_mem.holds_of_mem hmem hactive hpreserved
          . intro c' hactive hstep
            cases hstep.2 with
            | exchange hstep => exact hfetch.coming hactive.downloading hstep
          . exact fun c command c' hactive hcoming hstep => hcoming.step hactive hstep.2
        obtain ⟨chunk, _, _, hcoming⟩ := hcoming
        exact hcoming.hasByte hquiet
    refine ⟨hcontent, ?_⟩
    rw [hcompleted, hcontent]
    exact sh.complete

def twoPartsText : Bytes :=
  ascii "ident:a\nfilename:f\nsize:2\nnhashes:1\nhashes:\n\t" ++ letters 118
    ++ ascii "\nnchunks:2\nchunks:\n\t" ++ digestC ++ ascii ",0,1\n\t" ++ digestX ++ ascii ",1,1\n"

def twoPartsTree : MerkleTreeNode :=
  .inner ⟨0, 0, letters 118, none, []⟩ (.leaf ⟨1, 1, digestC, some 0, []⟩) (.leaf ⟨2, 2, digestX, some 0, []⟩)

def twoPartsObj : BpkgObj where
  ident := some (ascii "a")
  filename := some (ascii "f")
  size := 2
  nhashes := 1
  hashes := .ofList [letters 118]
  nchunks := 2
  chunks := .ofList [⟨digestC, 0, 1, some 1⟩, ⟨digestX, 1, 1, some 2⟩]
  tree := some { root := twoPartsTree, nNodes := 3 }

theorem twoPartsObj_isLoaded : twoParts.IsLoaded twoPartsObj := by
  obtain ⟨root, hcreate, hbuilt, hptrs, _⟩ :=
    @createTree_spec twoParts.hashes twoParts.chunks (by decide) rfl
  have heval : createTree (.ofList twoParts.hashes) twoParts.hashes.length (.ofList twoParts.chunks)
      twoParts.chunks.length
        = .ok (⟨twoPartsTree, 3⟩, twoPartsObj.chunks) := by
    decide +kernel
  rw [hcreate, Except.ok.injEq, Prod.mk.injEq, MerkleTree.mk.injEq] at heval
  have hsound := treeSound_of_built rfl hbuilt hptrs
  obtain ⟨⟨hroot, _⟩, hchunks⟩ := heval
  rw [hroot] at hchunks hsound
  exact ⟨rfl, by decide, ⟨twoPartsTree, 3⟩, _, rfl, hchunks.symm, hsound⟩

def twoPartsFiles (p : Bool) : FileSystem := fun path =>
  if path = ascii "p" then some twoPartsText else if p ∧ path = ascii "d/f" then some (ascii "cx") else none

theorem twoParts_load
    : bpkgLoad ⟨none, none, 7, 7, none, 7, none, none⟩ (some twoPartsText) none = .ok (some twoPartsObj) := by
  decide +kernel

theorem twoParts_describes
    : (twoPartsSharing (ascii "a") (ascii "d/f")).Describes twoPartsText (ascii "f") where
  loads := ⟨_, twoPartsObj, ascii "a", twoParts_load, rfl, rfl, rfl, rfl, twoPartsObj_isLoaded⟩

theorem twoParts_joins (p : Bool)
    : ∃ store, (twoPartsSharing (ascii "a") (ascii "d/f")).Joins twoPartsText (ascii "f") p store := by
  have hpath : twoPartsFiles p (ascii "p") = some twoPartsText := rfl
  obtain ⟨filename, hfilename, hload⟩ := bpkgLoad_dir twoParts_load
  have hload := hload PackageStore.oneByteEnv.garbage (some (ascii "d"))
  rw [show filename = ascii "f" from (Option.some.inj hfilename).symm, ← hpath] at hload
  obtain ⟨store, hadd, _⟩ := @PackageStore.addPackage_init _ (ascii "d/f") (ascii "d") (ascii "p")
    PackageStore.oneByteEnv _ hload (by decide)
  have hname : trim (bpkgLoad.joinDir (some (ascii "d")) (ascii "f")) = ascii "d/f" := by decide
  refine ⟨store, .add (by decide +kernel) hpath hname ?_ hadd⟩
  cases p with
  | true => exact .kept rfl rfl
  | false => exact .created rfl rfl rfl

/--
One client has the data file, the other one creates it and fetches both parts.
-/
theorem status_follows_download_two
    : ∃ (c₀ c : Clients Bool) (hist : List (Clients Bool × Clients.Command Bool)),
        (∀ p, (twoPartsSharing (ascii "a") (ascii "d/f")).Joins twoPartsText (ascii "f") p (c₀.stores p))
          ∧ Trace Clients.Step c₀ hist c
          ∧ (∃ line store,
              PackageStore.packageStatus (c₀.stores false) = .ok ([line], store) ∧ line.completed = false)
          ∧ ∃ line store,
              PackageStore.packageStatus (c.stores false) = .ok ([line], store)
                ∧ line.filename = some (ascii "d/f")
                ∧ line.completed = true
                ∧ (c.stores false).files (ascii "d/f") = some (ascii "cx") := by
  obtain ⟨mem, hmem⟩ : ∃ mem, mem = ascii "a" ++ List.replicate 1023 0 := ⟨_, rfl⟩
  have hmatch : Matches (ascii "a") mem := by
    rw [hmem, Matches]
    decide +kernel
  have hlen : IDENT_SIZE ≤ mem.length := by
    rw [hmem, List.length_append, List.length_replicate]
    decide
  have hnul : 0 ∈ mem.take IDENT_SIZE := by
    rw [hmem]
    decide +kernel
  choose stores hjoins using twoParts_joins
  have hstart := Joins.starts (c := ⟨stores, []⟩) twoParts_describes hjoins rfl
  have hready := Joins.ready (c := ⟨stores, []⟩) twoParts_describes hjoins rfl
  have hpos : 0 < (twoPartsSharing (ascii "a") (ascii "d/f")).pkg.hashes.length := Nat.one_pos
  obtain ⟨hist, t, hrun, hquiet, hfetches⟩ := twoParts_run hstart hmatch hlen hnul
  obtain ⟨hist', c, hrun', hswarm, hmem, hback⟩ := hready.exists_run (hrun.mono fun _ _ _ h => h.2)
  have hmeets (u : Clients Bool) (a : Swarm.Action Bool) (hu : (u, .exchange a) ∈ hist')
      : (twoPartsSharing (ascii "a") (ascii "d/f")).Meets u.swarm a := by
    obtain ⟨_, hstep⟩ := hrun.exists_step (hback u a hu)
    exact hstep.1
  refine ⟨⟨stores, []⟩, c, hist', hjoins, hrun', ?_, ?_⟩
  . obtain ⟨content, line, store, hfile, hstatus, _, hcompleted, _⟩ :=
      @status_follows_download _ _ _ _ _ _ ⟨stores, []⟩ [] hpos twoParts_describes hjoins rfl .nil false
    refine ⟨line, store, hstatus, ?_⟩
    obtain ⟨_, _, _, hshares⟩ := (hjoins false).shares twoParts_describes
    have hzero : (stores false).files (ascii "d/f") = some [0, 0] := hshares.file
    have hsame : (stores false).files (ascii "d/f") = some content := hfile
    rw [hzero, Option.some.injEq] at hsame
    rw [← hsame] at hcompleted
    rw [Bool.eq_false_iff, ne_eq, hcompleted]
    intro hall
    exact digest_zero.1 (Chunk.complete_iff.mp (hall _ List.mem_cons_self)).2
  . obtain ⟨content, line, store, hfile, hstatus, hname, _, _, hdone⟩ :=
      status_follows_download hpos twoParts_describes hjoins rfl hrun' false
    have hflight : c.inFlight = [] := (congrArg Swarm.inFlight hswarm).trans hquiet
    have hbytes : ∀ i < 2, (if false then ascii "cx" else [0, 0])[i]? = (ascii "cx")[i]?
        ∨ ∃ u a, (u, .exchange a) ∈ hist'
            ∧ (twoPartsSharing (ascii "a") (ascii "d/f")).Fetches u.swarm false i a := by
      intro i hi
      obtain ⟨u, a, hu, hfetch⟩ := hfetches i hi
      obtain ⟨v, hv, heq⟩ := hmem u a hu
      rw [← heq] at hfetch
      exact .inr ⟨v, a, hv, hfetch⟩
    obtain ⟨hcontent, hcompleted⟩ := hdone hflight hmeets hbytes
    rw [hcontent] at hfile
    exact ⟨line, store, hstatus, hname, hcompleted, hfile⟩

end Sharing

end Btide
