import Btide.Net.Config
import Btide.Net.PackageLifetime
import Btide.Net.PackageTableRuns

/-!
This module contains the heap blocks of all packages of a client, from `config_load` to `destroy_all`.
-/

open Bytes CLib HandleOp

namespace Btide

open PackageMemory (Trace Use Steady InMemory owned block node)

/--
The table of packages with the memory of each object, the objects that `add_package` left without a slot, and
what was allocated, used and freed so far.
-/
structure ClientMemory where
  session : PackageStore.Session
  dropped : List ObjPtr
  memory : ObjPtr → PackageMemory
  trace : Trace

namespace ClientMemory

inductive Call where
  | add (path : Bytes) (env : AddEnv)
  | remove (ident : Bytes)
  | change (files : FileSystem)
  | use (ptr : ObjPtr) (call : Use)

def init (files : FileSystem) : ClientMemory where
  session := .init files
  dropped := []
  memory := fun _ => { allocs := .init, filenameMem := [], filename := .literal }
  trace := []

/--
`add_package`. Texts that `bpkg_load` rejects are not followed.
-/
def add (dir path : Bytes) (env : AddEnv) (s : ClientMemory) : Option ClientMemory := do
  let session ← s.session.step (.add dir path env)
  match s.session.store.files path with
  | none =>
    return { s with session, trace := s.trace ++ [.acquire (env.ptr, .object), .release (env.ptr, .object)] }
  | some text =>
    let (obj, memory) ← (← (PackageMemory.load env.garbage text (some dir)).toOption)
    let check := Use.fileCheck s.session.store.files env.create
    let (_, memory') ← (PackageMemory.apply check obj memory).toOption
    return {
      session
      dropped := if env.ptr ∈ session.managed then s.dropped else env.ptr :: s.dropped
      memory := Function.update s.memory env.ptr memory'
      trace := s.trace ++ (PackageMemory.bpkgLoad env.ptr obj memory ++ check.trace env.ptr obj memory) }

/--
The comparisons of `remove_package` with the packages in these slots.
-/
def compared (slots : List (Option ObjPtr)) : List (ObjPtr × Pointer) :=
  slots.reduceOption.flatMap fun ptr => [(ptr, .object), block ptr .ident]

def remove (ident : Bytes) (s : ClientMemory) : Option ClientMemory := do
  let session ← s.session.step (.remove ident)
  let slots := s.session.store.packages.managedArray
  match ← (PackageStore.removePackage.search s.session.store.objects ident 0 slots).toOption with
  | none => return { s with session, trace := s.trace ++ (compared slots).map .use }
  | some (i, ptr, obj) =>
    return {
      s with
      session
      trace := s.trace ++ ((compared (slots.take (i + 1))).map .use
        ++ PackageMemory.bpkgObjDestroy ptr obj (s.memory ptr)) }

def use (ptr : ObjPtr) (call : Use) (s : ClientMemory) : Option ClientMemory :=
  if some ptr ∈ s.session.store.packages.managedArray then do
    let obj ← s.session.store.objects ptr
    let (obj', memory') ← (PackageMemory.apply call obj (s.memory ptr)).toOption
    return {
      session.store := s.session.store.assign ptr obj'
      session.managed := s.session.managed
      dropped := s.dropped
      memory := Function.update s.memory ptr memory'
      trace := s.trace ++ call.trace ptr obj (s.memory ptr) }
  else
    none

def step (dir : Bytes) (s : ClientMemory) : Call → Option ClientMemory
  | .add path env => s.add dir path env
  | .remove ident => s.remove ident
  | .change files => do
    let session ← s.session.step (.change files)
    return { s with session }
  | .use ptr call => s.use ptr call

def destroySlot (s : ClientMemory) : Option ObjPtr → Trace
  | none => []
  | some ptr =>
    match s.session.store.objects ptr with
    | some obj => PackageMemory.bpkgObjDestroy ptr obj (s.memory ptr)
    | none => []

def destroyAll (s : ClientMemory) : Trace :=
  s.session.store.packages.managedArray.flatMap s.destroySlot

def Live (s : ClientMemory) (h : ObjPtr × Pointer) : Prop :=
  ∃ obj, s.session.store.objects h.1 = some obj ∧ h ∈ owned h.1 obj (s.memory h.1)

structure Fixed (obj : BpkgObj) (memory : PackageMemory) : Prop where
  inMemory : ∃ name, InMemory obj memory name ∧ Steady name
  start : memory.filename = .inBuffer 0

structure Sound (s : ClientMemory) : Prop where
  session : s.session.Sound
  heap : ∃ heap, run ∅ s.trace = some heap ∧ ∀ h, h ∈ heap ↔ s.Live h
  fixed : ∀ ptr obj, s.session.store.objects ptr = some obj → Fixed obj (s.memory ptr)

section Objects

variable {obj obj' : BpkgObj} {memory memory' : PackageMemory} {ptr : ObjPtr}

theorem fst_of_mem_owned {h : ObjPtr × Pointer} (hmem : h ∈ owned ptr obj memory) : h.1 = ptr := by
  rcases PackageMemory.mem_owned hmem with heq | ⟨b, heq⟩ | heq | ⟨p, heq⟩
  . rw [heq]
  . rw [heq, block]
  . rw [heq]
  . rw [heq, node]

theorem run_of_apply {call : Use} (h : PackageMemory.apply call obj memory = .ok (obj', memory'))
    : call.run obj = .ok obj' := by
  unfold PackageMemory.apply at h
  rw [bind_eq_ok] at h
  obtain ⟨other, hrun, h⟩ := h
  split at h
  . simp only [bind_eq_ok, pure_eq_ok, Prod.mk.injEq] at h
    obtain ⟨_, _, heq, _⟩ := h
    rw [← heq]
    exact hrun
  . simp only [bind_eq_ok, pure_eq_ok, Prod.mk.injEq] at h
    obtain ⟨_, _, heq, _⟩ := h
    rw [← heq]
    exact hrun

theorem Fixed.apply (h : Fixed obj memory) {call : Use}
    (happly : PackageMemory.apply call obj memory = .ok (obj', memory'))
    : Fixed obj' memory' ∧ ∀ ptr, owned ptr obj' memory' = owned ptr obj memory := by
  obtain ⟨name, hin, hsteady⟩ := h.inMemory
  obtain ⟨memory₁, name', happly₁, hin', howned, hstart, hkeep, _⟩ := hin.apply (run_of_apply happly)
  rw [happly, Except.ok.injEq, Prod.mk.injEq] at happly₁
  rw [happly₁.2]
  exact ⟨⟨⟨name', hin', hkeep hsteady⟩, hstart.mpr ⟨h.start, .inr hsteady⟩⟩, howned⟩

theorem Fixed.run_destroy (h : Fixed obj memory) {heap : Finset (ObjPtr × Pointer)}
    (hheap : ∀ h, h.1 = ptr → (h ∈ heap ↔ h ∈ owned ptr obj memory))
    : run heap (PackageMemory.bpkgObjDestroy ptr obj memory) = some (heap.filter fun h => h.1 ≠ ptr) := by
  obtain ⟨name, hin, _⟩ := h.inMemory
  have hsplit : heap = (heap.filter fun h => h.1 ≠ ptr) ∪ (owned ptr obj memory).toFinset := by
    ext h
    rw [Finset.mem_union, Finset.mem_filter, List.mem_toFinset]
    by_cases hptr : h.1 = ptr
    . simp [hptr, hheap h hptr]
    . simp only [hptr, ne_eq, not_false_eq_true, and_true]
      constructor
      . exact .inl
      . intro hmem
        apply hmem.resolve_right
        intro howned
        exact hptr (fst_of_mem_owned howned)
  have hdisj : Disjoint (heap.filter fun h => h.1 ≠ ptr) (owned ptr obj memory).toFinset := by
    rw [Finset.disjoint_left]
    intro h hmem howned
    rw [List.mem_toFinset] at howned
    exact (Finset.mem_filter.mp hmem).2 (fst_of_mem_owned howned)
  have hrun := hin.toWhole.releases h.start ptr (hin.nodup ptr) _ (by simp) hdisj
  rw [← hsplit] at hrun
  exact hrun

theorem removable_run {call : Use} (h : Removable obj) (hrun : call.run obj = .ok obj')
    (hfilename : obj'.filename.isSome) : Removable obj' := by
  obtain ⟨⟨filename, tree, heq⟩, _⟩ := (Use.run_kept hrun).1
  have hdestroy := h.2
  obtain ⟨name, hname⟩ := Option.isSome_iff_exists.mp hfilename
  constructor
  . rw [heq]
    exact h.1
  . obtain ⟨ident, hident⟩ := Option.isSome_iff_exists.mp h.1
    unfold bpkgObjDestroy at hdestroy ⊢
    rw [hname]
    rw [heq]
    cases hold : obj.filename with
    | none =>
      rw [hident, hold] at hdestroy
      cases hdestroy
    | some old =>
      rw [hident, hold] at hdestroy
      rw [hident]
      exact hdestroy

end Objects

theorem live_update {s t : ClientMemory} {ptr : ObjPtr} {entry : Option BpkgObj} {memory : PackageMemory}
    (hobjects : t.session.store.objects = Function.update s.session.store.objects ptr entry)
    (hmemory : t.memory = Function.update s.memory ptr memory) (h : ObjPtr × Pointer)
    : t.Live h
        ↔
      (h.1 = ptr ∧ ∃ obj, entry = some obj ∧ h ∈ owned ptr obj memory) ∨ (h.1 ≠ ptr ∧ s.Live h) := by
  unfold Live
  rw [hobjects, hmemory]
  by_cases hptr : h.1 = ptr
  . rw [hptr, Function.update_self, Function.update_self]
    simp
  . rw [Function.update_of_ne hptr, Function.update_of_ne hptr]
    simp [hptr]

theorem Sound.init (files : FileSystem) : (ClientMemory.init files).Sound where
  session := PackageStore.Session.init_sound files
  heap := by
    refine ⟨∅, rfl, ?_⟩
    intro h
    simp [Live, ClientMemory.init, PackageStore.Session.init, PackageStore.init]
  fixed := by
    intro ptr obj hobj
    simp [ClientMemory.init, PackageStore.Session.init, PackageStore.init] at hobj

section Steps

variable {s t : ClientMemory} {ptr : ObjPtr}

theorem run_trace {heap : Finset (ObjPtr × Pointer)} (call : Use) (obj : BpkgObj) (memory : PackageMemory)
    (hheap : ∀ h ∈ heap, ∃ obj memory, h ∈ owned h.1 obj memory)
    (howned : ∀ h ∈ owned ptr obj memory, h ∈ heap) : run heap (call.trace ptr obj memory) = some heap := by
  apply PackageMemory.keeps_trace ptr obj memory call
  . intro h hmem
    exact howned h (List.mem_toFinset.mp hmem)
  . rw [Finset.disjoint_left]
    intro h hmem hquery
    obtain ⟨obj, memory, howned⟩ := hheap h hmem
    have hkind := PackageMemory.mem_owned howned
    simp only [List.mem_toFinset, List.mem_pair] at hquery
    rcases hquery with hquery | hquery
    . simp [hquery, block, node] at hkind
    . simp [hquery, block, node] at hkind

theorem Fixed.ident_mem_owned {obj : BpkgObj} {memory : PackageMemory} (h : Fixed obj memory) (ptr : ObjPtr)
    : block ptr .ident ∈ owned ptr obj memory := by
  obtain ⟨name, hin, _⟩ := h.inMemory
  unfold owned
  rw [hin.blocks, PackageMemory.released_eq hin.ident hin.filename]
  exact List.mem_cons_of_mem _ (List.mem_append_left _ List.mem_cons_self)

theorem assign_sound {session : PackageStore.Session} (h : session.Sound) {obj' : BpkgObj}
    (hobj' : ∀ obj, session.store.objects ptr = some obj → Removable obj → Removable obj')
    : PackageStore.Session.Sound { session with store := session.store.assign ptr obj' } where
  counted := h.counted
  perm := h.perm
  nodup := h.nodup
  removable := by
    intro p hp
    obtain ⟨obj, hobj, hremovable⟩ := h.removable p hp
    dsimp only [PackageStore.assign]
    by_cases hptr : p = ptr
    . rw [hptr, Function.update_self]
      rw [hptr] at hobj
      exact ⟨obj', rfl, hobj' obj hobj hremovable⟩
    . rw [Function.update_of_ne hptr]
      exact ⟨obj, hobj, hremovable⟩
  capacity_pos := h.capacity_pos

theorem use_cases {call : Use} (h : s.use ptr call = some t)
    : ∃ obj obj' memory',
        s.session.store.objects ptr = some obj
          ∧ PackageMemory.apply call obj (s.memory ptr) = .ok (obj', memory')
          ∧ t = {
              session := { s.session with store := s.session.store.assign ptr obj' }
              dropped := s.dropped
              memory := Function.update s.memory ptr memory'
              trace := s.trace ++ call.trace ptr obj (s.memory ptr) } := by
  unfold ClientMemory.use at h
  rw [Option.ite_none_right_eq_some] at h
  obtain ⟨_, h⟩ := h
  simp only [Option.bind_eq_bind, Option.bind_eq_some_iff, toOption_eq_some, Option.pure_def,
    Option.some.injEq] at h
  obtain ⟨obj, hobj, ⟨obj', memory'⟩, happly, h⟩ := h
  exact ⟨obj, obj', memory', hobj, happly, h.symm⟩

open PackageStore in
theorem remove_cases {ident : Bytes} (h : s.remove ident = some t)
    : s.session.step (.remove ident) = some t.session
        ∧ t.session.managed = s.session.managed.filter (fun p => (t.session.store.objects p).isSome)
        ∧ ∃ slots ⊆ s.session.store.packages.managedArray,
            (t.session.store = s.session.store
                ∧ t = { s with session := t.session, trace := s.trace ++ (compared slots).map .use })
              ∨ ∃ ptr obj,
                  some ptr ∈ s.session.store.packages.managedArray
                    ∧ s.session.store.objects ptr = some obj
                    ∧ t.session.store.objects = Function.update s.session.store.objects ptr none
                    ∧ t = {
                        s with
                        session := t.session
                        trace := s.trace ++ ((compared slots).map .use
                          ++ PackageMemory.bpkgObjDestroy ptr obj (s.memory ptr)) } := by
  unfold ClientMemory.remove at h
  simp only [Option.bind_eq_bind, Option.bind_eq_some_iff, toOption_eq_some, Option.pure_def] at h
  obtain ⟨session, hsession, found, hsearch, h⟩ := h
  have ht : t.session = session := by
    cases found with
    | none =>
      rw [Option.some.injEq] at h
      rw [← h]
    | some found =>
      rw [Option.some.injEq] at h
      rw [← h]
  have hstep := hsession
  rw [Session.step] at hsession
  split at hsession
  . next store ret hremove =>
    rw [Option.some.injEq] at hsession
    rw [ht]
    refine ⟨hstep, by rw [← hsession], ?_⟩
    rcases removePackage_cases hremove with ⟨hret, hsame⟩ | ⟨_, i, ptr, obj, hfound, hslot, hstore⟩
    . have hnone : found = none := by
        unfold removePackage at hremove
        obtain ⟨other, hother, hremove⟩ := bind_eq_ok.mp hremove
        rw [hsearch, Except.ok.injEq] at hother
        cases found with
        | none => rfl
        | some found =>
          rw [← hother] at hremove
          simp only [bind_eq_ok, pure_eq_ok, Prod.mk.injEq] at hremove
          obtain ⟨_, _, _, _, _, hone⟩ := hremove
          rw [hret] at hone
          cases hone
      rw [hnone, Option.some.injEq] at h
      rw [← hsession] at h ⊢
      exact ⟨_, List.Subset.refl _, .inl ⟨hsame, h.symm⟩⟩
    . rw [hfound, Except.ok.injEq] at hsearch
      rw [← hsearch, Option.some.injEq] at h
      obtain ⟨_, _, _, hobj⟩ := removePackage.search_cases hfound
      refine ⟨_, List.take_subset _ _, .inr ⟨ptr, obj, List.mem_of_getElem? hslot, hobj, ?_, h.symm⟩⟩
      rw [← hsession, hstore]
  . cases hsession

theorem Sound.replace {obj : BpkgObj} {memory : PackageMemory} (h : s.Sound) (hsession : t.session.Sound)
    (hobjects : t.session.store.objects = Function.update s.session.store.objects ptr (some obj))
    (hmemory : t.memory = Function.update s.memory ptr memory) (hfixed : Fixed obj memory)
    (hheap : ∃ heap,
      run ∅ t.trace = some heap ∧ ∀ h, h ∈ heap ↔ h ∈ owned ptr obj memory ∨ (h.1 ≠ ptr ∧ s.Live h))
    : t.Sound := by
  obtain ⟨heap, hrun, hheap⟩ := hheap
  constructor
  . exact hsession
  . refine ⟨heap, hrun, ?_⟩
    intro h
    rw [live_update hobjects hmemory, hheap]
    simp only [Option.some.injEq, exists_eq_left']
    apply or_congr_left
    constructor
    . intro hmem
      exact ⟨fst_of_mem_owned hmem, hmem⟩
    . exact And.right
  . intro p other hother
    rw [hobjects] at hother
    rw [hmemory]
    by_cases hptr : p = ptr
    . rw [hptr, Function.update_self, Option.some.injEq] at hother
      rw [hptr, Function.update_self, ← hother]
      exact hfixed
    . rw [Function.update_of_ne hptr] at hother ⊢
      exact h.fixed p other hother

theorem Sound.use {call : Use} (h : s.Sound) (hstep : s.use ptr call = some t) : t.Sound := by
  obtain ⟨obj, obj', memory', hobj, happly, ht⟩ := use_cases hstep
  obtain ⟨hfixed, howned⟩ := (h.fixed ptr obj hobj).apply happly
  obtain ⟨heap, hrun, hheap⟩ := h.heap
  rw [ht]
  apply @Sound.replace s _ ptr obj' memory' h
  . apply assign_sound h.session
    intro other hother hremovable
    rw [hobj, Option.some.injEq] at hother
    rw [← hother] at hremovable
    obtain ⟨name, hin, _⟩ := hfixed.inMemory
    exact removable_run hremovable (run_of_apply happly) hin.filename
  . rfl
  . rfl
  . exact hfixed
  . refine ⟨heap, ?_, ?_⟩
    . rw [run_append, hrun, Option.bind_some]
      apply run_trace
      . intro h hmem
        obtain ⟨obj, _, hmem⟩ := (hheap h).mp hmem
        exact ⟨obj, _, hmem⟩
      . intro h hmem
        rw [hheap, Live, fst_of_mem_owned hmem]
        exact ⟨obj, hobj, hmem⟩
    . intro h
      rw [hheap, howned]
      by_cases hptr : h.1 = ptr
      . simp only [hptr, Live, hobj, Option.some.injEq, exists_eq_left', ne_eq, not_true_eq_false, false_and,
          or_false]
      . simp only [hptr, ne_eq, not_false_eq_true, true_and]
        constructor
        . exact .inr
        . intro hmem
          apply hmem.resolve_left
          intro howned
          exact hptr (fst_of_mem_owned howned)

theorem Sound.same (h : s.Sound) (hsession : t.session.Sound)
    (hobjects : t.session.store.objects = s.session.store.objects) (hmemory : t.memory = s.memory)
    (htrace : ∀ heap, run ∅ s.trace = some heap → (∀ h ∈ heap, s.Live h) → run ∅ t.trace = some heap)
    : t.Sound := by
  obtain ⟨heap, hrun, hheap⟩ := h.heap
  constructor
  . exact hsession
  . refine ⟨heap, htrace heap hrun fun h => (hheap h).mp, ?_⟩
    intro h
    rw [hheap, Live, Live, hobjects, hmemory]
  . rw [hobjects, hmemory]
    exact h.fixed

theorem Sound.compared_live (h : s.Sound) {slots : List (Option ObjPtr)}
    (hslots : slots ⊆ s.session.store.packages.managedArray) {x : ObjPtr × Pointer} (hx : x ∈ compared slots)
    : s.Live x := by
  obtain ⟨ptr, hptr, hx⟩ := List.mem_flatMap.mp hx
  have hmanaged : ptr ∈ s.session.managed := by
    rw [← h.session.perm.mem_iff, List.reduceOption_mem_iff]
    exact hslots (List.reduceOption_mem_iff.mp hptr)
  obtain ⟨obj, hobj, _⟩ := h.session.removable ptr hmanaged
  rw [List.mem_pair] at hx
  cases hx with
  | inl hx =>
    rw [hx]
    exact ⟨obj, hobj, List.mem_cons_self⟩
  | inr hx =>
    rw [hx]
    exact ⟨obj, hobj, (h.fixed ptr obj hobj).ident_mem_owned ptr⟩

theorem Sound.remove {ident : Bytes} (h : s.Sound) (hstep : s.remove ident = some t) : t.Sound := by
  obtain ⟨hsession, _, slots, hslots, hcases⟩ := remove_cases hstep
  have hsound := h.session.step hsession
  obtain ⟨heap, hrun, hheap⟩ := h.heap
  have hcompared : run heap ((compared slots).map .use) = some heap := by
    apply run_uses
    intro x hx
    exact (hheap x).mpr (h.compared_live hslots hx)
  rcases hcases with ⟨hsame, ht⟩ | ⟨ptr, obj, _, hobj, hobjects, ht⟩
  . have hobjects : t.session.store.objects = s.session.store.objects := by
      rw [hsame]
    have hmemory : t.memory = s.memory := by
      rw [ht]
    constructor
    . exact hsound
    . refine ⟨heap, ?_, ?_⟩
      . rw [ht, run_append, hrun, Option.bind_some, hcompared]
      . intro x
        rw [hheap, Live, Live, hobjects, hmemory]
    . rw [hobjects, hmemory]
      exact h.fixed
  . have hmemory : t.memory = Function.update s.memory ptr (s.memory ptr) := by
      rw [ht, Function.update_eq_self]
    constructor
    . exact hsound
    . refine ⟨heap.filter fun h => h.1 ≠ ptr, ?_, ?_⟩
      . rw [ht, run_append, hrun, Option.bind_some, run_append, hcompared, Option.bind_some]
        apply (h.fixed ptr obj hobj).run_destroy
        intro h hptr
        rw [hheap, Live, hptr, hobj]
        simp
      . intro h
        rw [live_update hobjects hmemory, Finset.mem_filter, hheap]
        simp [and_comm]
    . intro p other hother
      rw [hobjects] at hother
      rw [ht]
      by_cases hptr : p = ptr
      . rw [hptr, Function.update_self] at hother
        cases hother
      . rw [Function.update_of_ne hptr] at hother
        exact h.fixed p other hother

structure IsDirectory (dir : Bytes) : Prop where
  ne_zero : ∀ c ∈ dir, c ≠ 0
  head : ∀ c, dir.head? = some c → isspace c = false

theorem steady_joinDir {dir : Bytes} (hdir : IsDirectory dir) (value : Bytes)
    : Steady (bpkgLoad.joinDir (some dir) value) := by
  cases dir with
  | nil => exact ⟨47, value, rfl, by decide⟩
  | cons c dir => exact ⟨c, dir ++ ascii "/" ++ value, rfl, hdir.head c rfl⟩

theorem bpkgLoad_of_load {garbage obj : BpkgObj} {text : Bytes} {dir : Option Bytes} {memory : PackageMemory}
    (h : PackageMemory.load garbage text dir = .ok (some (obj, memory)))
    : bpkgLoad garbage (some text) dir = .ok (some obj) := by
  unfold PackageMemory.load at h
  rw [bind_eq_ok] at h
  obtain ⟨loaded, hload, h⟩ := h
  cases loaded with
  | none => simp [pure_eq_ok] at h
  | some other =>
    simp only [bind_eq_ok, pure_eq_ok, Option.some.injEq, Prod.mk.injEq] at h
    obtain ⟨_, _, _, _, heq, _⟩ := h
    rw [← heq]
    exact hload

theorem fixed_of_load {garbage obj : BpkgObj} {text dir : Bytes} {memory : PackageMemory}
    (hdir : IsDirectory dir) (h : PackageMemory.load garbage text (some dir) = .ok (some (obj, memory)))
    : Fixed obj memory := by
  have hload := bpkgLoad_of_load h
  obtain ⟨memory', name, hmemory, hwhole, hstart, hname, hnames⟩ :=
    PackageMemory.exists_load hload hdir.ne_zero
  rw [h, Except.ok.injEq, Option.some.injEq, Prod.mk.injEq] at hmemory
  rw [← hmemory.2] at hwhole hstart hnames
  refine ⟨⟨name, ⟨hwhole, hname, hnames⟩, ?_⟩, hstart⟩
  obtain ⟨l, c, tree, chunks, _, _, _, hobj⟩ := bpkgLoad_cases hload
  have hjoin : obj.filename = some (bpkgLoad.joinDir (some dir) c.filename) := by
    rw [hobj]
    rfl
  rw [hname, Option.some.injEq] at hjoin
  rw [hjoin]
  exact steady_joinDir hdir c.filename

open PackageStore in
theorem addPackage_loaded {dir path text : Bytes} {env : AddEnv} {store store' : PackageStore} {ret : Int}
    {obj : BpkgObj} (hfile : store.files path = some text)
    (hload : bpkgLoad env.garbage (some text) (some dir) = .ok (some obj))
    (h : addPackage dir path env store = .ok (store', ret))
    : ∃ obj' files,
        bpkgFileCheck store.files env.create obj = .ok (obj', files)
          ∧ store'.objects = Function.update store.objects env.ptr (some obj') := by
  unfold addPackage at h
  obtain ⟨loaded, hloaded, h⟩ := bind_eq_ok.mp h
  rw [hfile, hload, Except.ok.injEq] at hloaded
  rw [← hloaded] at h
  simp only [bind_eq_ok, pure_eq_ok, Prod.mk.injEq] at h
  obtain ⟨⟨obj', files⟩, hcheck, ⟨packages, _⟩, _, hstore, _⟩ := h
  rw [← hstore]
  exact ⟨obj', files, hcheck, rfl⟩

open PackageStore in
theorem add_cases {dir path : Bytes} {env : AddEnv} (h : s.add dir path env = some t)
    : s.session.step (.add dir path env) = some t.session
        ∧ s.session.store.objects env.ptr = none
        ∧ ((t.session.store = s.session.store
              ∧ t.session.managed = s.session.managed
              ∧ t = {
                  s with
                  session := t.session
                  trace := s.trace ++ [.acquire (env.ptr, .object), .release (env.ptr, .object)] })
            ∨ ∃ text obj memory obj' memory',
                PackageMemory.load env.garbage text (some dir) = .ok (some (obj, memory))
                  ∧ PackageMemory.apply (.fileCheck s.session.store.files env.create) obj memory
                    = .ok (obj', memory')
                  ∧ t.session.store.objects = Function.update s.session.store.objects env.ptr (some obj')
                  ∧ (t.session.managed = s.session.managed
                      ∨ t.session.managed = env.ptr :: s.session.managed)
                  ∧ t = {
                      session := t.session
                      dropped := if env.ptr ∈ t.session.managed then s.dropped else env.ptr :: s.dropped
                      memory := Function.update s.memory env.ptr memory'
                      trace := s.trace ++ (PackageMemory.bpkgLoad env.ptr obj memory
                        ++ (Use.fileCheck s.session.store.files env.create).trace env.ptr obj memory) }) := by
  unfold ClientMemory.add at h
  rw [Option.bind_eq_bind, Option.bind_eq_some_iff] at h
  obtain ⟨session, hsession, h⟩ := h
  have hstep := hsession
  rw [Session.step] at hsession
  split at hsession
  . cases hsession
  . next hfresh =>
    rw [Bool.not_eq_true, Option.isSome_eq_false_iff, Option.isNone_iff_eq_none] at hfresh
    split at hsession
    . next store ret hadd =>
      rw [Option.some.injEq] at hsession
      cases hfile : s.session.store.files path with
      | none =>
        rw [hfile, Option.pure_def, Option.some.injEq] at h
        have hsame : store = s.session.store ∧ ret = 0 := by
          unfold addPackage at hadd
          rw [hfile] at hadd
          simp only [bpkgLoad, bind, Except.bind, pure, Except.pure, Except.ok.injEq, Prod.mk.injEq] at hadd
          exact ⟨hadd.1.symm, hadd.2.symm⟩
        rw [← h]
        refine ⟨hstep, hfresh, .inl ⟨?_, ?_, rfl⟩⟩
        . rw [← hsession, hsame.1]
        . rw [← hsession, hsame.2]
          rfl
      | some text =>
        rw [hfile] at h
        simp only [Option.bind_eq_bind, Option.bind_eq_some_iff, toOption_eq_some, Option.pure_def,
          Option.some.injEq] at h
        obtain ⟨_, hload, ⟨obj, memory⟩, hsome, ⟨obj', memory'⟩, happly, h⟩ := h
        dsimp only at happly h
        rw [hsome] at hload
        obtain ⟨other, files, hcheck, hstore⟩ := addPackage_loaded hfile (bpkgLoad_of_load hload) hadd
        have hother : other = obj' := by
          have hrun := run_of_apply happly
          simp only [Use.run, hcheck, bind, Except.bind, pure, Except.pure, Except.ok.injEq] at hrun
          exact hrun
        rw [hother] at hstore
        rw [← h]
        refine ⟨hstep, hfresh, .inr ⟨text, obj, memory, obj', memory', hload, happly, ?_, ?_, rfl⟩⟩
        . rw [← hsession]
          exact hstore
        . rw [← hsession]
          dsimp only
          split
          . exact .inr rfl
          . exact .inl rfl
    . cases hsession

theorem Sound.add {dir path : Bytes} {env : AddEnv} (h : s.Sound) (hdir : IsDirectory dir)
    (hstep : s.add dir path env = some t) : t.Sound := by
  obtain ⟨hsession, hfresh, hcases⟩ := add_cases hstep
  have hsound := h.session.step hsession
  have hnone : ∀ h, s.Live h → h.1 ≠ env.ptr := by
    rintro h ⟨obj, hobj, _⟩ hptr
    rw [hptr, hfresh] at hobj
    cases hobj
  rcases hcases with ⟨hsame, _, ht⟩ | ⟨text, obj, memory, obj', memory', hload, happly, hobjects, _, ht⟩
  . apply h.same hsound
    . rw [hsame]
    . rw [ht]
    . intro heap hrun hlive
      have hnew : (env.ptr, Pointer.object) ∉ heap := fun hmem => hnone _ (hlive _ hmem) rfl
      rw [ht, run_append, hrun, Option.bind_some]
      simp [HandleOp.step, hnew]
  . have hfixed := fixed_of_load hdir hload
    obtain ⟨hfixed', howned⟩ := hfixed.apply happly
    obtain ⟨heap, hrun, hheap⟩ := h.heap
    obtain ⟨_, hin, _⟩ := hfixed.inMemory
    have hdisj : Disjoint heap (owned env.ptr obj memory).toFinset := by
      rw [Finset.disjoint_left]
      intro h hmem howned
      rw [List.mem_toFinset] at howned
      exact hnone h ((hheap h).mp hmem) (fst_of_mem_owned howned)
    apply @Sound.replace s t env.ptr obj' memory' h hsound hobjects
    . rw [ht]
    . exact hfixed'
    . refine ⟨heap ∪ (owned env.ptr obj memory).toFinset, ?_, ?_⟩
      . rw [ht, run_append, hrun, Option.bind_some, run_append,
          PackageMemory.acquires_bpkgLoad env.ptr obj memory (hin.nodup _) heap hdisj, Option.bind_some]
        apply run_trace
        . intro h hmem
          rw [Finset.mem_union, List.mem_toFinset] at hmem
          rcases hmem with hmem | hmem
          . obtain ⟨other, _, hmem⟩ := (hheap h).mp hmem
            exact ⟨other, _, hmem⟩
          . rw [fst_of_mem_owned hmem]
            exact ⟨obj, memory, hmem⟩
        . intro h hmem
          rw [Finset.mem_union, List.mem_toFinset]
          exact .inr hmem
      . intro h
        rw [Finset.mem_union, hheap, List.mem_toFinset, howned, or_comm]
        apply or_congr_right
        constructor
        . intro hlive
          exact ⟨hnone h hlive, hlive⟩
        . exact And.right

theorem Sound.step {dir : Bytes} {call : Call} (h : s.Sound) (hdir : IsDirectory dir)
    (hstep : s.step dir call = some t) : t.Sound := by
  cases call with
  | add path env => exact h.add hdir hstep
  | remove ident => exact h.remove hstep
  | change files =>
    rw [ClientMemory.step, Option.bind_eq_bind, Option.bind_eq_some_iff] at hstep
    obtain ⟨session, hsession, hstep⟩ := hstep
    rw [Option.pure_def, Option.some.injEq] at hstep
    have hsound := h.session.step hsession
    rw [PackageStore.Session.step, Option.some.injEq] at hsession
    apply h.same
    . rw [← hstep]
      exact hsound
    . rw [← hstep, ← hsession]
    . rw [← hstep]
    . intro heap hrun _
      rw [← hstep]
      exact hrun
  | use ptr call => exact h.use hstep

end Steps

section Quit

variable {s t : ClientMemory}

theorem Sound.run_slots (h : s.Sound) {slots : List (Option ObjPtr)} {heap : Finset (ObjPtr × Pointer)}
    (hnodup : slots.reduceOption.Nodup)
    (hheap : ∀ h, h.1 ∈ slots.reduceOption → (h ∈ heap ↔ s.Live h))
    (hobj : ∀ ptr ∈ slots.reduceOption, ∃ obj, s.session.store.objects ptr = some obj)
    : run heap (slots.flatMap s.destroySlot) = some (heap.filter fun h => h.1 ∉ slots.reduceOption) := by
  induction slots generalizing heap with
  | nil => simp
  | cons slot slots ih =>
    rw [List.flatMap_cons]
    cases slot with
    | none => exact ih hnodup hheap hobj
    | some ptr =>
      rw [List.reduceOption_cons_of_some] at hnodup hheap hobj ⊢
      obtain ⟨hnew, hnodup⟩ := List.nodup_cons.mp hnodup
      obtain ⟨obj, hptr⟩ := hobj ptr List.mem_cons_self
      have hfirst : run heap (s.destroySlot (some ptr)) = some (heap.filter fun h => h.1 ≠ ptr) := by
        unfold destroySlot
        dsimp only
        rw [hptr]
        apply (h.fixed ptr obj hptr).run_destroy
        intro h hh
        rw [hheap h (by rw [hh]; exact List.mem_cons_self), Live, hh, hptr]
        simp
      rw [run_append, hfirst, Option.bind_some, ih hnodup]
      . rw [Finset.filter_filter]
        simp only [List.mem_cons, not_or, ne_eq]
      . intro h hmem
        rw [Finset.mem_filter, hheap h (List.mem_cons_of_mem ptr hmem), and_iff_left]
        intro heq
        rw [heq] at hmem
        exact hnew hmem
      . intro p hp
        exact hobj p (List.mem_cons_of_mem ptr hp)

theorem Sound.run_destroyAll (h : s.Sound)
    : ∃ heap, run ∅ (s.trace ++ s.destroyAll) = some heap
        ∧ ∀ h, h ∈ heap ↔ s.Live h ∧ some h.1 ∉ s.session.store.packages.managedArray := by
  obtain ⟨heap, hrun, hheap⟩ := h.heap
  have hperm := h.session.perm
  refine ⟨heap.filter fun h => h.1 ∉ s.session.store.packages.managedArray.reduceOption, ?_, ?_⟩
  . rw [run_append, hrun, Option.bind_some]
    apply h.run_slots
    . exact hperm.nodup_iff.mpr h.session.nodup
    . intro h _
      exact hheap h
    . intro ptr hptr
      obtain ⟨obj, hobj, _⟩ := h.session.removable ptr (hperm.mem_iff.mp hptr)
      exact ⟨obj, hobj⟩
  . intro h
    rw [Finset.mem_filter, hheap, List.reduceOption_mem_iff]

structure Placed (s : ClientMemory) : Prop where
  live : ∀ ptr, (s.session.store.objects ptr).isSome ↔ ptr ∈ s.session.managed ∨ ptr ∈ s.dropped
  apart : ∀ ptr ∈ s.dropped, ptr ∉ s.session.managed

theorem Placed.init (files : FileSystem) : (ClientMemory.init files).Placed := by
  constructor
  . intro ptr
    simp [ClientMemory.init, PackageStore.Session.init, PackageStore.init]
  . intro ptr hptr
    simp [ClientMemory.init] at hptr

theorem Placed.use {ptr : ObjPtr} {call : Use} (h : s.Placed) (hstep : s.use ptr call = some t)
    : t.Placed := by
  obtain ⟨obj, obj', _, hobj, _, ht⟩ := use_cases hstep
  rw [ht]
  refine ⟨?_, h.apart⟩
  intro p
  rw [← h.live]
  dsimp only [PackageStore.assign]
  by_cases hptr : p = ptr
  . rw [hptr, Function.update_self, hobj]
    rfl
  . rw [Function.update_of_ne hptr]

theorem Placed.remove {ident : Bytes} (h : s.Placed) (hsound : s.Sound) (hstep : s.remove ident = some t)
    : t.Placed := by
  obtain ⟨_, hmanaged, slots, hslots, hcases⟩ := remove_cases hstep
  have hdropped : t.dropped = s.dropped := by
    rcases hcases with ⟨_, ht⟩ | ⟨_, _, _, _, _, ht⟩
    . rw [ht]
    . rw [ht]
  -- an object that is left was there, and one that was dropped is left
  have hlive : ∀ p, ((t.session.store.objects p).isSome → (s.session.store.objects p).isSome)
      ∧ (p ∈ s.dropped → (t.session.store.objects p).isSome) := by
    intro p
    rcases hcases with ⟨hsame, _⟩ | ⟨ptr, obj, hslot, _, hobjects, _⟩
    . rw [hsame]
      exact ⟨id, fun hp => (h.live p).mpr (.inr hp)⟩
    . rw [hobjects]
      by_cases hptr : p = ptr
      . rw [hptr, Function.update_self]
        refine ⟨by simp, ?_⟩
        intro hp
        exact absurd (hsound.session.mem_iff.mp hslot) (h.apart ptr hp)
      . rw [Function.update_of_ne hptr]
        exact ⟨id, fun hp => (h.live p).mpr (.inr hp)⟩
  constructor
  . intro p
    rw [hmanaged, hdropped, List.mem_filter]
    constructor
    . intro hp
      apply ((h.live p).mp ((hlive p).1 hp)).imp_left
      intro hmem
      exact ⟨hmem, hp⟩
    . rintro (⟨_, hp⟩ | hp)
      . exact hp
      . exact (hlive p).2 hp
  . intro p hp hmem
    rw [hdropped] at hp
    rw [hmanaged] at hmem
    exact h.apart p hp (List.mem_of_mem_filter hmem)

theorem Placed.add {dir path : Bytes} {env : AddEnv} (h : s.Placed) (hstep : s.add dir path env = some t)
    : t.Placed := by
  obtain ⟨_, hfresh, hcases⟩ := add_cases hstep
  have hnew : env.ptr ∉ s.session.managed ∧ env.ptr ∉ s.dropped := by
    rw [← not_or, ← h.live, hfresh]
    simp
  rcases hcases with ⟨hsame, hmanaged, ht⟩ | ⟨_, _, _, obj', _, _, _, hobjects, hmanaged, ht⟩
  . have hdropped : t.dropped = s.dropped := by rw [ht]
    constructor
    . rw [hsame, hmanaged, hdropped]
      exact h.live
    . rw [hmanaged, hdropped]
      exact h.apart
  . have hdropped : t.dropped = if env.ptr ∈ t.session.managed then s.dropped else env.ptr :: s.dropped := by
      rw [ht]
    have hlive : ∀ p, (t.session.store.objects p).isSome
        ↔ p = env.ptr ∨ (s.session.store.objects p).isSome := by
      intro p
      rw [hobjects]
      by_cases hptr : p = env.ptr
      . rw [hptr, Function.update_self]
        simp
      . rw [Function.update_of_ne hptr]
        simp [hptr]
    rcases hmanaged with hmanaged | hmanaged
    . rw [hmanaged, if_neg hnew.1] at hdropped
      constructor
      . intro p
        rw [hlive, hmanaged, hdropped, h.live, List.mem_cons]
        grind
      . intro p hp
        rw [hdropped, List.mem_cons] at hp
        rw [hmanaged]
        rcases hp with hp | hp
        . rw [hp]
          exact hnew.1
        . exact h.apart p hp
    . rw [hmanaged, if_pos List.mem_cons_self] at hdropped
      constructor
      . intro p
        rw [hlive, hmanaged, hdropped, h.live, List.mem_cons, or_assoc]
      . intro p hp
        rw [hdropped] at hp
        rw [hmanaged, List.mem_cons, not_or]
        refine ⟨?_, h.apart p hp⟩
        intro hptr
        rw [hptr] at hp
        exact hnew.2 hp

theorem Placed.step {dir : Bytes} {call : Call} (h : s.Placed) (hsound : s.Sound)
    (hstep : s.step dir call = some t) : t.Placed := by
  cases call with
  | add path env => exact h.add hstep
  | remove ident => exact h.remove hsound hstep
  | change files =>
    rw [ClientMemory.step, Option.bind_eq_bind, Option.bind_eq_some_iff] at hstep
    obtain ⟨session, hsession, hstep⟩ := hstep
    rw [PackageStore.Session.step, Option.some.injEq] at hsession
    rw [Option.pure_def, Option.some.injEq, ← hsession] at hstep
    rw [← hstep]
    exact ⟨h.live, h.apart⟩
  | use ptr call => exact h.use hstep

end Quit

theorem isDirectory_of_configLoad {W : Type} {env : Directories W} {world : W} {file : Option Bytes}
    {st : configLoad.State W} {dir : Bytes} (h : configLoad env world file = .ok (.ok st))
    (hdir : st.config.directory = some dir) : IsDirectory dir := by
  rw [configLoad.configLoad_eq_readLines] at h
  have hgiven := (configLoad.Reaches.start.of_readLines h).given
  have hvalue := hgiven.directory
  rw [hdir, configLoad.lastValue] at hvalue
  obtain ⟨line, _, hline⟩ := Option.bind_eq_some_iff.mp hvalue.symm
  refine ⟨lineValue_ne_zero hline, ?_⟩
  intro c hc
  rw [bpkgLoad.lineValue, Option.map_eq_some_iff] at hline
  obtain ⟨token, _, htrim⟩ := hline
  rw [← htrim] at hc
  exact trim_head hc

/--
A client from its configuration to its end, with packages whose texts are accepted: all blocks of packages
and of queries are freed, each once and not used afterwards, if and only if each package that was loaded
got a slot.
-/
theorem packages_freed_iff {W : Type} {env : Directories W} {world : W} {config : Option Bytes}
    {st : configLoad.State W} {dir : Bytes} {files : FileSystem} {s : ClientMemory}
    (hconfig : configLoad env world config = .ok (.ok st)) (hdir : st.config.directory = some dir)
    (hrun : Run (fun s call t => s.step dir call = some t) (fun _ _ => True) (init files) s)
    : HandleOp.Balanced (s.trace ++ s.destroyAll) ↔ s.dropped = [] := by
  have hboth : s.Sound ∧ s.Placed := by
    apply hrun.invariant ⟨Sound.init files, Placed.init files⟩
    intro s call t hs _ hstep
    exact ⟨hs.1.step (isDirectory_of_configLoad hconfig hdir) hstep, hs.2.step hs.1 hstep⟩
  obtain ⟨hsound, hplaced⟩ := hboth
  obtain ⟨heap, hend, hheap⟩ := hsound.run_destroyAll
  unfold HandleOp.Balanced
  rw [hend, Option.some.injEq, Finset.eq_empty_iff_forall_notMem, List.eq_nil_iff_forall_not_mem]
  constructor
  . intro hempty ptr hptr
    obtain ⟨obj, hobj⟩ := Option.isSome_iff_exists.mp ((hplaced.live ptr).mpr (.inr hptr))
    have hobject := hempty (ptr, .object)
    rw [hheap, not_and, not_not, hsound.session.mem_iff] at hobject
    exact hplaced.apart ptr hptr (hobject ⟨obj, hobj, List.mem_cons_self⟩)
  . intro hdropped h hmem
    obtain ⟨⟨obj, hobj, _⟩, hout⟩ := (hheap h).mp hmem
    rw [hsound.session.mem_iff] at hout
    have hplace := (hplaced.live h.1).mp (by rw [hobj]; rfl)
    exact hplace.elim hout (hdropped h.1)

/--
The address of the package that is removed is used again.
-/
def addTwo : List Call :=
  let garbage := bpkgLoad.garbage
  [.add (ascii "r") ⟨1, garbage, true, true⟩,
    .add (ascii "p") ⟨1, garbage, true, true⟩,
    .add (ascii "p") ⟨2, garbage, true, true⟩,
    .use 2 (.minCompletedHashes fun _ => none),
    .remove (ascii "a"),
    .add (ascii "p") ⟨1, garbage, true, true⟩]

theorem packages_freed_two
    : ∃ s t : ClientMemory,
        s.session.store.packages.managedArray = [some 1, some 2]
          ∧ HandleOp.Balanced (s.trace ++ s.destroyAll)
          ∧ t.session.store.packages.managedArray = [some 1, some 2]
          ∧ ¬ HandleOp.Balanced (t.trace ++ t.destroyAll) := by
  have hconfig : configLoad ⟨fun _ _ => true, fun _ _ => (0, ())⟩ () (some (ascii "directory: d\n"))
      = .ok (.ok ⟨(), ⟨some (ascii "d"), none, none⟩⟩) := by
    decide +kernel
  have hstored : (Run.exec (step (ascii "d")) (fun _ _ => True) (init PackageStore.Session.onePackage)
      addTwo).map
      (fun s => (s.session.store.packages.managedArray, s.dropped)) = some ([some 1, some 2], []) := by
    decide +kernel
  have hdropped : (Run.exec (step (ascii "d")) (fun _ _ => True) (init PackageStore.Session.onePackage)
      (addTwo ++ [.add (ascii "p") ⟨3, bpkgLoad.garbage, false, true⟩])).map
      (fun s => (s.session.store.packages.managedArray, s.dropped)) = some ([some 1, some 2], [3]) := by
    decide +kernel
  obtain ⟨s, hs, hs'⟩ := Option.map_eq_some_iff.mp hstored
  obtain ⟨t, ht, ht'⟩ := Option.map_eq_some_iff.mp hdropped
  rw [Prod.mk.injEq] at hs' ht'
  refine ⟨s, t, hs'.1, (packages_freed_iff hconfig rfl (Run.of_exec hs)).mpr hs'.2, ht'.1, ?_⟩
  rw [packages_freed_iff hconfig rfl (Run.of_exec ht), ht'.2]
  simp

end ClientMemory

end Btide
