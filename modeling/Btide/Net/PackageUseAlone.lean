import Btide.Net.CompletionHistory
import Btide.Net.PackageUseRuns
import Btide.Net.SwarmSteps
import Mathlib.Logic.Relation

/-!
This module contains what the steps of one handler amount to if nothing happens between them: the
functions that look up a chunk and transfer its data.
-/

open Bytes CLib

namespace Btide

namespace Lookup

def slot? : Lookup → Option Nat
  | found slot => some slot
  | noHash => none
  | noPackage => none

def shift (n : Nat) : Lookup → Lookup
  | found slot => found (slot + n)
  | noHash => noHash
  | noPackage => noPackage

end Lookup

namespace chunkInMemory

theorem search_cons (ident chunkHash : Bytes) (slot : Nat) (bpkg : BpkgObj) (packages : ManagedPackages)
    : search ident chunkHash slot (some bpkg :: packages)
        =
      (chunkInMemory [some bpkg] ident chunkHash).bind fun lookup =>
        if lookup = .noPackage then
          search ident chunkHash (slot + 1) packages
        else
          .ok (lookup.shift slot) := by
  unfold chunkInMemory
  simp only [search]
  cases bpkg.ident with
  | none => rfl
  | some current =>
    dsimp only
    by_cases hmatch : strncmpEq current ident 20 = true
    . rw [if_pos hmatch, if_pos hmatch]
      cases deref bpkg.tree with
      | error e => rfl
      | ok tree =>
        simp only [bind, Except.bind]
        cases bpkgGetAllChunkHashesFromHash bpkg tree.root.info.value with
        | error e => rfl
        | ok qry =>
          dsimp only
          cases deref qry with
          | error e => rfl
          | ok qry =>
            dsimp only
            split
            . simp [pure, Except.pure, Lookup.shift]
            . rfl
    . rw [if_neg hmatch, if_neg hmatch]
      rfl

theorem search_add (ident chunkHash : Bytes) (start n : Nat) (packages : ManagedPackages)
    : search ident chunkHash (start + n) packages
        =
      (search ident chunkHash start packages).map (Lookup.shift n) := by
  induction packages generalizing start with
  | nil => rfl
  | cons entry packages ih =>
    have hnext := ih (start + 1)
    rw [Nat.add_right_comm] at hnext
    cases entry with
    | none => exact hnext
    | some bpkg =>
      rw [search_cons, search_cons, hnext]
      cases chunkInMemory [some bpkg] ident chunkHash with
      | error e => rfl
      | ok lookup =>
        cases lookup with
        | found slot => simp [Except.bind, Except.map, Lookup.shift, Nat.add_assoc]
        | noHash => rfl
        | noPackage => rfl

theorem slot_of_singleton {ident chunkHash : Bytes} {bpkg : BpkgObj} {slot : Nat}
    (h : chunkInMemory [some bpkg] ident chunkHash = .ok (.found slot)) : slot = 0 := by
  obtain ⟨_, _, hslot, _⟩ := chunkInMemory_cases h
  have hlt := (List.getElem?_eq_some_iff.mp hslot).1
  rw [List.length_singleton] at hlt
  omega

end chunkInMemory

theorem getDataFromFile.computed_cons (root : MerkleTreeNode) (hash : Bytes) (entry : Option Chunk)
    (entries : List (Option Chunk)) (n : Nat)
    : computed root hash (entry :: entries) (n + 1)
        =
      (computed root hash [entry] 1).bind fun has =>
        if has then .ok true else computed root hash entries n := by
  simp only [computed, bind, Except.bind]
  cases deref entry with
  | error e => rfl
  | ok chunk =>
    dsimp only
    cases deref chunk.nodePtr with
    | error e => rfl
    | ok nodePtr =>
      dsimp only
      cases root.subtrees.find? (·.info.ptr = nodePtr) with
      | none => rfl
      | some node =>
        dsimp only
        split
        . rfl
        . rfl

namespace PackageStore

variable {objects : ObjPtr → Option BpkgObj} {store : PackageStore}

def managed (store : PackageStore) : ManagedPackages :=
  store.packages.managedArray.map (·.bind store.objects)

theorem managed_getD {slot : Nat} {bpkg : BpkgObj}
    : store.managed.getD slot none = some bpkg
        ↔
      ∃ ptr, store.packages.managedArray[slot]? = some (some ptr) ∧ store.objects ptr = some bpkg := by
  unfold managed
  rw [List.getD_eq_getElem?_getD, List.getElem?_map]
  cases store.packages.managedArray[slot]? with
  | none => simp
  | some entry => simp [Option.bind_eq_some_iff]

theorem choose_eq {managedArray : List (Option ObjPtr)}
    (halloc : ∀ ptr, some ptr ∈ managedArray → (objects ptr).isSome = true) (ident chunkHash : Bytes)
    : choose objects ident chunkHash managedArray
        =
      (chunkInMemory (managedArray.map (·.bind objects)) ident chunkHash).map fun lookup =>
        lookup.slot?.bind fun slot => managedArray.getD slot none := by
  unfold chunkInMemory
  induction managedArray with
  | nil => rfl
  | cons entry managedArray ih =>
    have hrest := ih fun ptr hptr => halloc ptr (List.mem_cons_of_mem entry hptr)
    have hshift := chunkInMemory.search_add ident chunkHash 0 1 (managedArray.map (·.bind objects))
    rw [Nat.zero_add] at hshift
    have hnext : choose objects ident chunkHash managedArray
        = (chunkInMemory.search ident chunkHash 1 (managedArray.map (·.bind objects))).map fun lookup =>
            lookup.slot?.bind fun slot => (entry :: managedArray).getD slot none := by
      rw [hrest, hshift]
      cases chunkInMemory.search ident chunkHash 0 (managedArray.map (·.bind objects)) with
      | error e => rfl
      | ok lookup =>
        cases lookup with
        | found slot => rfl
        | noHash => rfl
        | noPackage => rfl
    cases entry with
    | none => exact hnext
    | some ptr =>
      obtain ⟨bpkg, hobject⟩ := Option.isSome_iff_exists.mp (halloc ptr List.mem_cons_self)
      rw [choose, List.map_cons, Option.bind_some, hobject, chunkInMemory.search_cons, load, hobject]
      simp only [bind, Except.bind]
      cases hlookup : chunkInMemory [some bpkg] ident chunkHash with
      | error e => rfl
      | ok lookup =>
        cases lookup with
        | found slot =>
          have hslot := chunkInMemory.slot_of_singleton hlookup
          rw [hslot]
          rfl
        | noHash => rfl
        | noPackage => exact hnext

theorem Sound.choose_eq (h : store.Sound) (ident chunkHash : Bytes)
    : choose store.objects ident chunkHash store.packages.managedArray
        =
      (chunkInMemory store.managed ident chunkHash).map fun lookup =>
        lookup.slot?.bind fun slot => store.packages.managedArray.getD slot none :=
  PackageStore.choose_eq h.allocated ident chunkHash

def nextBytes (store : PackageStore) : Stage → Bytes
  | .block chosenBpkg _ bufferSize _ i =>
    let content := ((store.objects chosenBpkg).bind BpkgObj.filename).bind store.files
    slice (content.getD []) (i * bufferSize) bufferSize
  | _ => []

def Alone : PackageStore × Stage → PackageStore × Stage → Prop :=
  Relation.ReflTransGen fun s t => s.1.advance (s.1.nextBytes s.2) s.2 = .ok t

theorem Alone.last {stage : Stage} {next : PackageStore × Stage}
    (h : store.advance (store.nextBytes stage) stage = .ok next) : Alone (store, stage) next :=
  .single h

theorem Alone.next {stage : Stage} {next last : PackageStore × Stage}
    (h : store.advance (store.nextBytes stage) stage = .ok next) (hlast : Alone next last)
    : Alone (store, stage) last :=
  .head h hlast

-- a RES packet
theorem addDataToFile_alone {resArgs : ResArgs} {files : FileSystem} (hsound : store.Sound)
    (h : addDataToFile store.managed store.files resArgs = .ok files)
    : choose store.objects (cstr resArgs.ident) (cstr resArgs.chunkHash) store.packages.managedArray
          = .ok none
        ∧ files = store.files
      ∨ ∃ ptr,
          choose store.objects (cstr resArgs.ident) (cstr resArgs.chunkHash)
              store.packages.managedArray
            = .ok (some ptr)
            ∧ Alone (store, .check ptr resArgs) ({ store with files }, .idle) := by
  have hchoose := hsound.choose_eq (cstr resArgs.ident) (cstr resArgs.chunkHash)
  unfold addDataToFile at h
  obtain ⟨lookup, hlookup, h⟩ := bind_eq_ok.mp h
  rw [hlookup] at hchoose
  cases lookup with
  | noHash =>
    rw [pure_eq_ok] at h
    exact .inl ⟨hchoose, h.symm⟩
  | noPackage =>
    rw [pure_eq_ok] at h
    exact .inl ⟨hchoose, h.symm⟩
  | found slot =>
    obtain ⟨bpkg, hbpkg, h⟩ := bind_eq_ok.mp h
    obtain ⟨ptr, hptr, hobject⟩ := managed_getD.mp (deref_eq_ok.mp hbpkg)
    have hload := load_eq_ok.mpr hobject
    obtain ⟨req, hreq, h⟩ := bind_eq_ok.mp h
    refine .inr ⟨ptr, ?_, ?_⟩
    . rw [hchoose]
      simp only [Except.map, Lookup.slot?, Option.bind_some, List.getD_eq_getElem?_getD, hptr]
      rfl
    . cases req with
      | none =>
        rw [pure_eq_ok] at h
        rw [← h]
        apply Alone.last
        simp only [advance, hload, hreq, bind, Except.bind]
        rfl
      | some reqArgs =>
        dsimp only at h
        split at h
        . next hfits =>
          have hcheck : store.advance (store.nextBytes (.check ptr resArgs)) (.check ptr resArgs)
              = .ok (store, .fwrite ptr resArgs reqArgs) := by
            simp only [advance, hload, hreq, bind, Except.bind, hfits]
            simp only [true_and, ↓reduceIte]
            rfl
          apply Alone.next hcheck
          apply Alone.last
          cases hfilename : bpkg.filename with
          | none => simp [hfilename, throw_eq_ok] at h
          | some filename =>
            simp only [hfilename] at h
            cases hfile : store.files filename with
            | none =>
              simp only [hfile, pure_eq_ok] at h
              rw [← h]
              simp only [advance, hload, hfilename, hfile, bind, Except.bind, pure, Except.pure]
            | some content =>
              simp only [hfile] at h
              obtain ⟨bytes, hbytes, h⟩ := bind_eq_ok.mp h
              split at h
              . simp [throw, throwThe, MonadExceptOf.throw] at h
              . next hlen =>
                rw [pure_eq_ok] at h
                simp only [advance, hload, hfilename, hfile, hbytes, hlen, bind, Except.bind, ↓reduceIte,
                  pure, Except.pure, h]
        . next hfits =>
          rw [pure_eq_ok] at h
          rw [← h]
          apply Alone.last
          simp only [advance, hload, hreq, bind, Except.bind, hfits]
          rfl

theorem assign_assign (ptr : ObjPtr) (bpkg bpkg' : BpkgObj)
    : (store.assign ptr bpkg).assign ptr bpkg' = store.assign ptr bpkg' := by
  unfold assign
  rw [Function.update_idem]

@[simp]
theorem assign_files (ptr : ObjPtr) (bpkg : BpkgObj) : (store.assign ptr bpkg).files = store.files := rfl

@[simp]
theorem load_assign (ptr : ObjPtr) (bpkg : BpkgObj)
    : load (store.assign ptr bpkg).objects ptr = .ok bpkg := by
  rw [load_eq_ok]
  exact Function.update_self ptr (some bpkg) store.objects

theorem blocks_alone {ptr : ObjPtr} {resArgs : ResArgs} {bpkg : BpkgObj} {tree : MerkleTree}
    {entries rest : List (Option Chunk)} {name data : Bytes} {b i : Nat} {shaBuff : Sha256ComputeData}
    {root root' : MerkleTreeNode} (hchunks : bpkg.chunks = some entries)
    (hname : bpkg.filename = some name) (hfile : store.files name = some data)
    (hrest : entries.drop i = rest)
    (h : computeHashesForChunks.blocks b shaBuff (data.drop (i * b)) root rest = .ok root')
    : Alone
        (store.assign ptr { bpkg with tree := some { tree with root } }, .block ptr resArgs b shaBuff i)
        (store.assign ptr { bpkg with tree := some { tree with root := root' } },
          .search ptr resArgs 0) := by
  have hbytes (i : Nat) (root : MerkleTreeNode) (shaBuff : Sha256ComputeData)
      : (store.assign ptr { bpkg with tree := some { tree with root } }).nextBytes
          (.block ptr resArgs b shaBuff i)
        = slice data (i * b) b := by
    simp [nextBytes, assign, hname, hfile]
  have hshort {i : Nat} {root : MerkleTreeNode} {shaBuff : Sha256ComputeData}
      (hlen : ¬ b ≤ (data.drop (i * b)).length)
      : Alone
          (store.assign ptr { bpkg with tree := some { tree with root } },
            .block ptr resArgs b shaBuff i)
          (store.assign ptr { bpkg with tree := some { tree with root } }, .search ptr resArgs 0) := by
    apply Alone.last
    have hne : ¬ (slice data (i * b) b).length = b := by
      rw [List.length_drop] at hlen
      rw [length_slice]
      omega
    rw [hbytes, advance, if_neg hne]
  induction rest generalizing i root shaBuff with
  | nil =>
    unfold computeHashesForChunks.blocks at h
    split at h
    . simp at h
    . next hlen =>
      rw [Except.ok.injEq] at h
      rw [← h]
      exact hshort hlen
  | cons entry rest ih =>
    unfold computeHashesForChunks.blocks at h
    split at h
    . next hlen =>
      simp only [bind_eq_ok] at h
      obtain ⟨⟨finalHash, shaBuff'⟩, hhash, chunk, hchunk, nodePtr, hnodePtr, h⟩ := h
      have hentry : entries[i]? = some entry := by
        rw [← Nat.add_zero i, ← List.getElem?_drop, hrest]
        rfl
      have hnext : entries.drop (i + 1) = rest := by
        rw [← List.drop_drop, hrest]
        rfl
      have hload : bpkg.chunks.load i = .ok entry := by
        rw [hchunks]
        exact PtrArray.load_some hentry
      rw [List.drop_drop, ← Nat.succ_mul] at h
      have hall : (slice data (i * b) b).length = b := by
        rw [List.length_drop] at hlen
        rw [length_slice]
        omega
      apply Alone.next _ (ih hnext h)
      rw [hbytes, advance, if_pos hall, slice, hhash]
      simp only [bind, Except.bind, load_assign, hload, hchunk, hnodePtr, deref_some, assign_assign]
      rfl
    . next hlen =>
      rw [Except.ok.injEq] at h
      rw [← h]
      exact hshort hlen

theorem search_alone {ptr : ObjPtr} {resArgs : ResArgs} {bpkg : BpkgObj} {tree : MerkleTree}
    {entries rest : List (Option Chunk)} {n i : Nat} {has : Bool}
    (hobject : store.objects ptr = some bpkg) (htree : bpkg.tree = some tree)
    (hchunks : bpkg.chunks = some entries) (hrest : entries.drop i = rest)
    (hn : n = bpkg.nchunks.toNat - i)
    (h : getDataFromFile.computed tree.root (cstr resArgs.chunkHash) rest n = .ok has)
    : Alone (store, .search ptr resArgs i)
        (store, if has then .measure ptr resArgs else .idle) := by
  have hload := load_eq_ok.mpr hobject
  induction n generalizing i rest with
  | zero =>
    rw [getDataFromFile.computed, Except.ok.injEq] at h
    rw [← h]
    apply Alone.last
    have hle : bpkg.nchunks.toNat ≤ i := by omega
    simp only [advance, hload, bind, Except.bind, hle, ↓reduceIte]
    rfl
  | succ n ih =>
    have hlt : ¬ bpkg.nchunks.toNat ≤ i := by omega
    cases rest with
    | nil => simp [getDataFromFile.computed] at h
    | cons entry rest =>
      have hentry : entries[i]? = some entry := by
        rw [← Nat.add_zero i, ← List.getElem?_drop, hrest]
        rfl
      have hnext : entries.drop (i + 1) = rest := by
        rw [← List.drop_drop, hrest]
        rfl
      have hchunk : bpkg.chunks.load i = .ok entry := by
        rw [hchunks]
        exact PtrArray.load_some hentry
      rw [getDataFromFile.computed_cons] at h
      cases hone : getDataFromFile.computed tree.root (cstr resArgs.chunkHash) [entry] 1 with
      | error e => simp [hone, Except.bind] at h
      | ok here =>
        rw [hone, Except.bind] at h
        cases here with
        | true =>
          simp only [↓reduceIte, Except.ok.injEq] at h
          rw [← h]
          apply Alone.last
          simp only [advance, hload, hlt, hchunk, htree, hone, deref_some, bind, Except.bind, ↓reduceIte]
          rfl
        | false =>
          apply Alone.next _ (ih hnext (by omega) h)
          simp only [advance, hload, hlt, hchunk, htree, hone, deref_some, bind, Except.bind, ↓reduceIte]
          rfl

theorem computeHashesForChunks_alone {ptr : ObjPtr} {resArgs : ResArgs} {bpkg bpkg' : BpkgObj}
    (hobject : store.objects ptr = some bpkg)
    (h : computeHashesForChunks store.files bpkg = .ok bpkg')
    : Alone (store, .hash ptr resArgs) (store.assign ptr bpkg', .search ptr resArgs 0) := by
  have hload := load_eq_ok.mpr hobject
  unfold computeHashesForChunks at h
  cases hfilename : bpkg.filename with
  | none => simp [hfilename, throw_eq_ok] at h
  | some filename =>
    simp only [hfilename, bind_eq_ok] at h
    obtain ⟨name, hname, entry, hentry, chunk, hchunk, h⟩ := h
    cases hfile : name.bind store.files with
    | none =>
      simp only [hfile, pure_eq_ok] at h
      rw [← h]
      apply Alone.last
      simp only [advance, hload, hfilename, hname, hentry, hchunk, assign_files, hfile, bind,
        Except.bind]
      rfl
    | some data =>
      simp only [hfile, bind_eq_ok, pure_eq_ok] at h
      obtain ⟨entries, hentries, tree, htree, root, hroot, h⟩ := h
      rw [deref_eq_ok] at hentries htree
      obtain ⟨name, rfl, hdata⟩ := Option.bind_eq_some_iff.mp hfile
      have hstart : computeHashesForChunks.blocks chunk.size.toNat Sha256.zeroBuff
          (data.drop (0 * chunk.size.toNat)) tree.root entries = .ok root := by
        rw [Nat.zero_mul]
        exact hroot
      have hblocks := @blocks_alone store ptr resArgs { bpkg with filename := some name } tree entries
        entries name data chunk.size.toNat 0 Sha256.zeroBuff tree.root root hentries rfl hdata rfl hstart
      rw [← h]
      apply Alone.next _ hblocks
      have htree' : { bpkg with filename := some name, tree := some { tree with root := tree.root } }
          = { bpkg with filename := some name } := by
        rw [← htree]
      rw [htree']
      simp only [advance, hload, hfilename, hname, hentry, hchunk, assign_files, hfile, bind,
        Except.bind]
      rfl

theorem measure_alone {ptr : ObjPtr} {resArgs : ResArgs} {bpkg : BpkgObj} {name : Bytes}
    {req : Option ReqArgs} (hobject : store.objects ptr = some bpkg) (hname : bpkg.filename = some name)
    (hreq : calculateDataLen bpkg (cstr resArgs.chunkHash) (some resArgs.fileOffset) = .ok req)
    : Alone (store, .measure ptr resArgs) (store, .idle) := by
  have hload := load_eq_ok.mpr hobject
  cases req with
  | none =>
    apply Alone.last
    simp only [advance, hload, hreq, bind, Except.bind]
    rfl
  | some reqArgs =>
    have hmeasure : store.advance (store.nextBytes (.measure ptr resArgs)) (.measure ptr resArgs)
        = .ok (store, .fopen ptr) := by
      simp only [advance, hload, hreq, bind, Except.bind]
      rfl
    apply Alone.next hmeasure
    apply Alone.last
    simp only [advance, hload, hname, bind, Except.bind]
    rfl

theorem managed_assign {ptr : ObjPtr} {slot : Nat}
    (hnodup : store.packages.managedArray.reduceOption.Nodup)
    (hslot : store.packages.managedArray[slot]? = some (some ptr)) (bpkg : BpkgObj)
    : (store.assign ptr bpkg).managed = store.managed.set slot (some bpkg) := by
  have hlt := (List.getElem?_eq_some_iff.mp hslot).1
  apply List.ext_getElem?
  intro i
  unfold managed assign
  rw [List.getElem?_map, List.getElem?_set, List.getElem?_map, List.length_map]
  by_cases hi : slot = i
  . rw [if_pos hi, if_pos hlt, ← hi, hslot]
    simp
  . rw [if_neg hi]
    cases hentry : store.packages.managedArray[i]? with
    | none => rfl
    | some entry =>
      cases entry with
      | none => rfl
      | some other =>
        have hne : other ≠ ptr := by
          intro heq
          rw [heq] at hentry
          exact hi (Slots.index_unique hnodup hslot hentry)
        simp [Function.update_of_ne hne]

-- a REQ packet
theorem openFile_alone {resArgs : ResArgs} {answer : Option (OpenFile × ResArgs)}
    {packages : ManagedPackages} (hsound : store.Sound)
    (h : getDataFromFile.openFile store.managed store.files resArgs = .ok (answer, packages))
    : choose store.objects (cstr resArgs.ident) (cstr resArgs.chunkHash) store.packages.managedArray
          = .ok none
        ∧ packages = store.managed
      ∨ ∃ ptr bpkg,
          choose store.objects (cstr resArgs.ident) (cstr resArgs.chunkHash)
              store.packages.managedArray
            = .ok (some ptr)
            ∧ Alone (store, .hash ptr resArgs) (store.assign ptr bpkg, .idle)
            ∧ (store.assign ptr bpkg).managed = packages := by
  have hchoose := hsound.choose_eq (cstr resArgs.ident) (cstr resArgs.chunkHash)
  have hcall := h
  unfold getDataFromFile.openFile at h
  obtain ⟨lookup, hlookup, h⟩ := bind_eq_ok.mp h
  rw [hlookup] at hchoose
  cases lookup with
  | noHash =>
    simp only [pure_eq_ok, Prod.mk.injEq] at h
    exact .inl ⟨hchoose, h.2.symm⟩
  | noPackage =>
    simp only [pure_eq_ok, Prod.mk.injEq] at h
    exact .inl ⟨hchoose, h.2.symm⟩
  | found slot =>
    simp only [bind_eq_ok, deref_eq_ok] at h
    obtain ⟨bpkg, hbpkg, bpkg', hcompute, entries, hentries, tree, htree, has, hhas, h⟩ := h
    obtain ⟨ptr, hptr, hobject⟩ := managed_getD.mp hbpkg
    have hhash := @computeHashesForChunks_alone store ptr resArgs bpkg bpkg' hobject hcompute
    have hassign := managed_assign hsound.nodup hptr bpkg'
    have hnew : (store.assign ptr bpkg').objects ptr = some bpkg' :=
      load_eq_ok.mp (load_assign ptr bpkg')
    have hsearch := search_alone hnew htree hentries (i := 0) rfl rfl hhas
    refine .inr ⟨ptr, bpkg', ?_, ?_, ?_⟩
    . rw [hchoose]
      simp only [Except.map, Lookup.slot?, Option.bind_some, List.getD_eq_getElem?_getD, hptr]
      rfl
    . apply hhash.trans
      apply hsearch.trans
      cases has with
      | false => exact .refl
      | true =>
        simp only [↓reduceIte, bind_eq_ok] at h
        obtain ⟨req, hreq, _⟩ := h
        obtain ⟨name, hname⟩ := stripWhitespace_of_computeHashes hcompute
        have hfilename := (computeHashesForChunks_frame hcompute).2
        rw [hname, Except.ok.injEq] at hfilename
        exact measure_alone hnew hfilename.symm hreq
    . have hslot : store.managed[slot]? = some (some bpkg) := by
        rw [managed, List.getElem?_map, hptr, Option.map_some, Option.bind_some, hobject]
      obtain ⟨_, other, hother, hset⟩ := openFile_hashes hlookup hslot hcall
      rw [hcompute, Except.ok.injEq] at hother
      rw [hassign, hset, hother]

-- the call only needs the object of the slot that the lookup finds
theorem openFile_singleton {packages : ManagedPackages} {files : FileSystem} {resArgs : ResArgs}
    {slot : Nat} {bpkg : BpkgObj}
    (hfound : chunkInMemory packages (cstr resArgs.ident) (cstr resArgs.chunkHash) = .ok (.found slot))
    (hone : chunkInMemory [some bpkg] (cstr resArgs.ident) (cstr resArgs.chunkHash) = .ok (.found 0))
    (hslot : packages[slot]? = some (some bpkg))
    : getDataFromFile.openFile packages files resArgs
        =
      (getDataFromFile.openFile [some bpkg] files resArgs).map fun result =>
        (result.1, packages.set slot (result.2.getD 0 none)) := by
  unfold getDataFromFile.openFile
  simp only [hfound, hone, List.getD_eq_getElem?_getD, hslot, List.getElem?_cons_zero, Option.getD_some,
    deref_some, bind, Except.bind]
  cases computeHashesForChunks files bpkg with
  | error e => rfl
  | ok bpkg' =>
    dsimp only
    cases deref bpkg'.chunks with
    | error e => rfl
    | ok entries =>
      dsimp only
      cases deref bpkg'.tree with
      | error e => rfl
      | ok tree =>
        dsimp only
        cases getDataFromFile.computed tree.root (cstr resArgs.chunkHash) entries bpkg'.nchunks.toNat with
        | error e => rfl
        | ok has =>
          dsimp only
          cases has with
          | false => rfl
          | true =>
            simp only [↓reduceIte]
            cases calculateDataLen bpkg' (cstr resArgs.chunkHash) (some resArgs.fileOffset) with
            | error e => rfl
            | ok req =>
              cases req with
              | none => rfl
              | some reqArgs =>
                dsimp only
                cases bpkg'.filename.bind files with
                | none => rfl
                | some content => rfl

theorem getData_eq (hsound : store.Sound) (resArgs : ResArgs)
    : (getData resArgs store).map (fun result => (result.1, result.2.managed))
        =
      getDataFromFile.openFile store.managed store.files resArgs := by
  have hchoose := hsound.choose_eq (cstr resArgs.ident) (cstr resArgs.chunkHash)
  cases hlookup : chunkInMemory store.managed (cstr resArgs.ident) (cstr resArgs.chunkHash) with
  | error e =>
    rw [hlookup] at hchoose
    simp [getData, getDataFromFile.openFile, hchoose, hlookup, Except.map, bind, Except.bind]
  | ok lookup =>
    rw [hlookup] at hchoose
    cases lookup with
    | noHash =>
      simp only [Except.map, Lookup.slot?, Option.bind_none] at hchoose
      simp [getData, getDataFromFile.openFile, hchoose, hlookup, Except.map, bind, Except.bind, pure,
        Except.pure]
    | noPackage =>
      simp only [Except.map, Lookup.slot?, Option.bind_none] at hchoose
      simp [getData, getDataFromFile.openFile, hchoose, hlookup, Except.map, bind, Except.bind, pure,
        Except.pure]
    | found slot =>
      obtain ⟨bpkg, _, hslot, _⟩ := chunkInMemory_cases hlookup
      have hbpkg : store.managed.getD slot none = some bpkg := by
        rw [List.getD_eq_getElem?_getD, hslot]
        rfl
      obtain ⟨ptr, hptr, hobject⟩ := managed_getD.mp hbpkg
      simp only [Except.map, Lookup.slot?, Option.bind_some, List.getD_eq_getElem?_getD, hptr,
        Option.getD_some] at hchoose
      obtain ⟨_, other, i, hother, hfound⟩ := choose_cases hchoose
      rw [hobject, Option.some.injEq] at hother
      rw [← hother] at hfound
      rw [chunkInMemory.slot_of_singleton hfound] at hfound
      rw [openFile_singleton hlookup hfound hslot]
      simp only [getData, hchoose, load_eq_ok.mpr hobject, bind, Except.bind]
      cases hopen : getDataFromFile.openFile [some bpkg] store.files resArgs with
      | error e => rfl
      | ok result =>
        obtain ⟨_, bpkg', _, hset⟩ := openFile_hashes hfound rfl hopen
        simp only [Except.map, pure, Except.pure, hset, List.set_cons_zero, List.getD_cons_zero,
          deref_some, managed_assign hsound.nodup hptr]

end PackageStore

end Btide
