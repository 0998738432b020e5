import Btide.Chk.LoadError
import Btide.Chk.ManagedPackage
import Btide.Lib.Handles
import Btide.Net.PackageTable
import Btide.Net.StripWhitespace

/-!
This module contains the heap blocks of a package: what `bpkg_load` allocates, what the queries allocate for
a while, and what `bpkg_obj_destroy` frees.
-/

open Bytes CLib HandleOp

namespace Btide

namespace bpkgLoad

def allocations (dir : Option Bytes) : List Bytes → State → Allocs → Except Fault Allocs
  | [], _, allocs => .ok allocs
  | line :: lines, st, allocs =>
    match readLine dir line lines st with
    | .error e => .error e
    | .ok (true, st') => .ok (allocs.track line st st')
    | .ok (false, st') => allocations dir (lines.drop (taken st st')) st' (allocs.track line st st')
termination_by lines => lines.length

end bpkgLoad

open bpkgLoad (Allocs Block)

/--
What the pointers of a package lead to: the object, the blocks behind its fields, the tree with its nodes,
and a query. A pointer that was moved inside of a filename leads to no block.
-/
inductive Pointer where
  | object
  | block (b : Block)
  | moved (ptr : CharPtr)
  | tree
  | node (ptr : NodePtr)
  | query
  | queryHashes
  deriving DecidableEq

/--
The blocks that were allocated for the fields of an object, and its filename: the block that was allocated
for it and the pointer, which `strip_whitespace` changes.
-/
structure PackageMemory where
  allocs : Allocs
  filenameMem : Bytes
  filename : CharPtr
  deriving DecidableEq

namespace PackageMemory

abbrev Trace := List (HandleOp (ObjPtr × Pointer))

def load (garbage : BpkgObj) (text : Bytes) (dir : Option Bytes)
    : Except Fault (Option (BpkgObj × PackageMemory)) := do
  match ← bpkgLoad garbage (some text) dir with
  | none => return none
  | some obj =>
    let allocs ←
      bpkgLoad.allocations dir (fgetsLines MAX_INPUT_SIZE text) (bpkgLoad.initState garbage) .init
    let filename ← deref obj.filename
    return some (obj, { allocs, filenameMem := filename ++ [0], filename := .inBuffer 0 })

section Traces

variable (ptr : ObjPtr)

def block (b : Block) : ObjPtr × Pointer :=
  (ptr, .block b)

def node (p : NodePtr) : ObjPtr × Pointer :=
  (ptr, .node p)

def filenamePointer : CharPtr → ObjPtr × Pointer
  | .inBuffer 0 => block ptr .filename
  | filename => (ptr, .moved filename)

def insertNode : MerkleTreeNode → Trace
  | .leaf info => [.acquire (node ptr info.ptr)]
  | .inner info left right => .acquire (node ptr info.ptr) :: (insertNode left ++ insertNode right)

def createTree : Option MerkleTree → Trace
  | none => []
  | some tree => .acquire (ptr, .tree) :: insertNode ptr tree.root

def bpkgLoad (obj : BpkgObj) (memory : PackageMemory) : Trace :=
  .acquire (ptr, .object) :: (memory.allocs.blocks.map (fun b => .acquire (block ptr b))
    ++ createTree ptr obj.tree)

def freeArray (arrayBlock : Block) (n : Nat) (body : Nat → Trace) : Trace :=
  (List.range n).flatMap (fun i => .use (ptr, .object) :: .use (block ptr arrayBlock) :: body i)
    ++ [.use (ptr, .object), .release (block ptr arrayBlock)]

def freeHash (k : Nat) (entries : List (Option Bytes)) (i : Nat) : Trace :=
  if (entries.getD i none).isSome then [.release (block ptr (.hash k i))] else []

def freeChunk (k : Nat) (entries : List (Option Chunk)) (i : Nat) : Trace :=
  if (entries.getD i none).isSome then
    [.use (block ptr (.chunk k i)), .release (block ptr (.chunkHash k i)), .release (block ptr (.chunk k i))]
  else
    []

def removeTree : MerkleTreeNode → Trace
  | .leaf info => [.use (node ptr info.ptr), .use (node ptr info.ptr), .release (node ptr info.ptr)]
  | .inner info left right =>
    .use (node ptr info.ptr) :: (removeTree left
      ++ .use (node ptr info.ptr) :: (removeTree right ++ [.release (node ptr info.ptr)]))

def freeTree : Option MerkleTree → Trace
  | none => []
  | some tree =>
    .use (ptr, .tree) :: (removeTree ptr tree.root ++ [.use (ptr, .object), .release (ptr, .tree)])

def bpkgObjDestroy (obj : BpkgObj) (memory : PackageMemory) : Trace :=
  [.use (ptr, .object), .release (block ptr .ident), .use (ptr, .object),
      .release (filenamePointer ptr memory.filename), .use (ptr, .object)]
    ++ (obj.hashes.map fun entries =>
        freeArray ptr (.hashArray (memory.allocs.hashArrays - 1)) obj.nhashes.toNat
          (freeHash ptr (memory.allocs.hashArrays - 1) entries)).getD []
    ++ .use (ptr, .object) :: (obj.chunks.map fun entries =>
        freeArray ptr (.chunkArray (memory.allocs.chunkArrays - 1)) obj.nchunks.toNat
          (freeChunk ptr (memory.allocs.chunkArrays - 1) entries)).getD []
    ++ .use (ptr, .object) :: freeTree ptr obj.tree
    ++ [.release (ptr, .object)]

/--
A query that is destroyed after use, or whose blocks are freed at once because the hash is not found. The
strings of the answer are those of the package, which is read again when they are used.
-/
def query (reads : Trace) (found : Bool) : Trace :=
  [.acquire (ptr, .query), .use (ptr, .object), .acquire (ptr, .queryHashes)] ++ reads
    ++ if found then
        .use (ptr, .query) :: reads ++ [.release (ptr, .queryHashes), .release (ptr, .query)]
      else
        [.release (ptr, .query), .release (ptr, .queryHashes)]

def owned (obj : BpkgObj) (memory : PackageMemory) : List (ObjPtr × Pointer) :=
  (ptr, .object) :: (memory.allocs.blocks.map (block ptr)
    ++ (obj.tree.map fun tree => (ptr, .tree) :: tree.root.ptrs.map (node ptr)).getD [])

/--
What a function may read of a package: the strings, the arrays and the nodes.
-/
def reads (obj : BpkgObj) (memory : PackageMemory) : Trace :=
  (owned ptr obj memory).map .use

end Traces

inductive Use where
  | allHashes
  | completedChunks (files : FileSystem)
  | minCompletedHashes (files : FileSystem)
  | chunkHashesFromHash (hash : Bytes)
  | computeHashes (files : FileSystem)
  | fileCheck (files : FileSystem) (create : Bool)

namespace Use

def run : Use → BpkgObj → Except Fault BpkgObj
  | allHashes, obj => do
    let _ ← bpkgGetAllHashes obj
    return obj
  | completedChunks files, obj => do
    let (_, obj) ← bpkgGetCompletedChunks files obj
    return obj
  | minCompletedHashes files, obj => do
    let (_, obj) ← bpkgGetMinCompletedHashes files obj
    return obj
  | chunkHashesFromHash hash, obj => do
    let _ ← bpkgGetAllChunkHashesFromHash obj hash
    return obj
  | computeHashes files, obj => computeHashesForChunks files obj
  | fileCheck files create, obj => do
    let (obj, _) ← bpkgFileCheck files create obj
    return obj

def strips : Use → Bool
  | allHashes => false
  | chunkHashesFromHash _ => false
  | _ => true

def trace (ptr : ObjPtr) (obj : BpkgObj) (memory : PackageMemory) : Use → Trace
  | computeHashes _ => reads ptr obj memory
  | chunkHashesFromHash hash =>
    match bpkgGetAllChunkHashesFromHash obj hash with
    | .ok none => query ptr (reads ptr obj memory) false
    | _ => query ptr (reads ptr obj memory) true
  | _ => query ptr (reads ptr obj memory) true

end Use

def strip (memory : PackageMemory) : Except Fault PackageMemory := do
  match ← stripWhitespaceAt memory.filenameMem (some memory.filename) with
  | (some filename, filenameMem) => return { memory with filename, filenameMem }
  | (none, _) => throw .nullPointer

def apply (call : Use) (obj : BpkgObj) (memory : PackageMemory) : Except Fault (BpkgObj × PackageMemory) := do
  let obj ← call.run obj
  let memory ← if call.strips then memory.strip else pure memory
  return (obj, memory)

def applyAll (ptr : ObjPtr)
    : List Use → BpkgObj → PackageMemory → Except Fault (Trace × BpkgObj × PackageMemory)
  | [], obj, memory => .ok ([], obj, memory)
  | call :: calls, obj, memory => do
    let (obj', memory') ← apply call obj memory
    let (trace, obj'', memory'') ← applyAll ptr calls obj' memory'
    return (call.trace ptr obj memory ++ trace, obj'', memory'')

def Names (memory : PackageMemory) (name : Bytes) : Prop :=
  match memory.filename with
  | .literal => name = []
  | .inBuffer p => ∃ rest, stripWhitespaceAt.Holds memory.filenameMem p name rest

section Blocks

variable (ptr : ObjPtr)

theorem acquires_insertNode (root : MerkleTreeNode)
    : Acquires (root.ptrs.map (node ptr)) (insertNode ptr root) := by
  induction root with
  | leaf info => exact acquires_acquire (node ptr info.ptr)
  | inner info left right ihl ihr =>
    rw [MerkleTreeNode.ptrs_inner, List.map_cons, List.map_append]
    exact (ihl.append ihr).cons _

theorem acquires_bpkgLoad (obj : BpkgObj) (memory : PackageMemory)
    : Acquires (owned ptr obj memory) (bpkgLoad ptr obj memory) := by
  have hblocks := acquires_map (memory.allocs.blocks.map (block ptr))
  rw [List.map_map] at hblocks
  apply Acquires.cons
  apply hblocks.append
  cases obj.tree with
  | none => exact acquires_nil
  | some tree => exact (acquires_insertNode ptr tree.root).cons _

theorem releases_removeTree (ctx : List (ObjPtr × Pointer)) (root : MerkleTreeNode)
    : Releases ctx (root.ptrs.map (node ptr)) (removeTree ptr root) := by
  induction root generalizing ctx with
  | leaf info =>
    have hself : node ptr info.ptr ∈ [node ptr info.ptr] ++ ctx := List.mem_append_left _ List.mem_cons_self
    exact ((releases_release ctx _).use hself).use hself
  | inner info left right ihl ihr =>
    have hright := (ihr ([node ptr info.ptr] ++ ctx)).append (releases_release ctx (node ptr info.ptr))
    have hboth := (ihl _).append (hright.use (by simp : node ptr info.ptr ∈ _))
    apply Releases.perm (hboth.use (by simp))
    rw [MerkleTreeNode.ptrs_inner, List.map_cons, List.map_append, ← List.append_assoc]
    apply List.perm_append_singleton

theorem flatMap_assignedIndices (n : Nat) (entries : List (Option α)) (f : Nat → List β)
    : (List.range n).flatMap (fun i => if (entries.getD i none).isSome then f i else [])
        =
      (bpkgLoad.assignedIndices n entries).flatMap f := by
  unfold bpkgLoad.assignedIndices
  induction List.range n with
  | nil => rfl
  | cons i indices ih =>
    rw [List.flatMap_cons, ih, List.filter_cons]
    split
    . rw [List.flatMap_cons]
    . rw [List.nil_append]

theorem releases_freeArray {ctx : List (ObjPtr × Pointer)} (arrayBlock : Block) (n : Nat)
    (entries : List (Option α)) {body : Nat → Trace} {own : Nat → List Block}
    (hobject : (ptr, .object) ∈ ctx)
    (hbody : ∀ i, Releases (block ptr arrayBlock :: ctx)
      (if (entries.getD i none).isSome then (own i).map (block ptr) else []) (body i))
    : Releases ctx
        (((bpkgLoad.assignedIndices n entries).flatMap own ++ [arrayBlock]).map (block ptr))
        (freeArray ptr arrayBlock n body) := by
  have hloop : Releases ([block ptr arrayBlock] ++ ctx)
      ((List.range n).flatMap fun i => if (entries.getD i none).isSome then (own i).map (block ptr) else [])
      ((List.range n).flatMap fun i => .use (ptr, .object) :: .use (block ptr arrayBlock) :: body i) := by
    apply Releases.flatMap
    intro i _
    apply ((hbody i).use ?_).use
    . exact List.mem_append_right _ (List.mem_cons_of_mem _ hobject)
    . exact List.mem_append_right _ List.mem_cons_self
  rw [flatMap_assignedIndices, ← List.map_flatMap] at hloop
  rw [List.map_append]
  apply hloop.append
  exact (releases_release ctx _).use (List.mem_append_right _ hobject)

theorem releases_freeHashes {ctx : List (ObjPtr × Pointer)} (k n : Nat) (entries : List (Option Bytes))
    (hobject : (ptr, .object) ∈ ctx)
    : Releases ctx ((bpkgLoad.hashBlocks k n entries).map (block ptr))
        (freeArray ptr (.hashArray k) n (freeHash ptr k entries)) := by
  unfold bpkgLoad.hashBlocks
  rw [@List.map_eq_flatMap _ _ (Block.hash k)]
  apply releases_freeArray ptr (.hashArray k) n entries hobject
  intro i
  unfold freeHash
  split
  . exact releases_release _ _
  . exact releases_nil _

theorem releases_freeChunks {ctx : List (ObjPtr × Pointer)} (k n : Nat) (entries : List (Option Chunk))
    (hobject : (ptr, .object) ∈ ctx)
    : Releases ctx ((bpkgLoad.chunkBlocks k n entries).map (block ptr))
        (freeArray ptr (.chunkArray k) n (freeChunk ptr k entries)) := by
  unfold bpkgLoad.chunkBlocks
  apply releases_freeArray ptr (.chunkArray k) n entries hobject
  intro i
  unfold freeChunk
  split
  . apply Releases.use
    . exact (releases_release _ _).append (releases_release _ _)
    . simp
  . exact releases_nil _

theorem releases_freeTree {ctx : List (ObjPtr × Pointer)} (tree : Option MerkleTree)
    (hobject : (ptr, .object) ∈ ctx)
    : Releases ctx ((tree.map fun tree => (ptr, .tree) :: tree.root.ptrs.map (node ptr)).getD [])
        (freeTree ptr tree) := by
  cases tree with
  | none => exact releases_nil ctx
  | some tree =>
    have hlast := (releases_release ctx (ptr, Pointer.tree)).use (List.mem_append_right _ hobject)
    have hnodes := ((releases_removeTree ptr _ tree.root).append hlast).use
      (List.mem_append_left _ (List.mem_append_right _ List.mem_cons_self))
    exact hnodes.perm (List.perm_append_singleton _ _)

theorem releases_field {ctx : List (ObjPtr × Pointer)} (arr : Option α) {own : α → List Block}
    {body : α → Trace} (h : ∀ entries, Releases ctx ((own entries).map (block ptr)) (body entries))
    : Releases ctx (((arr.map own).getD []).map (block ptr)) ((arr.map body).getD []) := by
  cases arr with
  | none => exact releases_nil ctx
  | some entries => exact h entries

theorem releases_strings {ctx : List (ObjPtr × Pointer)} (hobject : (ptr, .object) ∈ ctx)
    : Releases ctx [block ptr .ident, block ptr .filename]
        [.use (ptr, .object), .release (block ptr .ident), .use (ptr, .object),
          .release (block ptr .filename), .use (ptr, .object)] := by
  have hlast : Releases ctx [] [.use (ptr, Pointer.object)] := (releases_nil ctx).use hobject
  have hfilename := ((releases_release _ (block ptr .filename)).append hlast).use
    (List.mem_append_right _ hobject)
  exact ((releases_release _ (block ptr .ident)).append hfilename).use (List.mem_append_right _ hobject)

end Blocks

theorem released_eq {obj : BpkgObj} (hident : obj.ident.isSome) (hfilename : obj.filename.isSome)
    (allocs : Allocs)
    : bpkgLoad.released obj allocs
        =
      .ident :: .filename
        :: ((obj.hashes.map (bpkgLoad.hashBlocks (allocs.hashArrays - 1) obj.nhashes.toNat)).getD []
          ++ (obj.chunks.map (bpkgLoad.chunkBlocks (allocs.chunkArrays - 1) obj.nchunks.toNat)).getD []) := by
  obtain ⟨ident, hident⟩ := Option.isSome_iff_exists.mp hident
  obtain ⟨filename, hfilename⟩ := Option.isSome_iff_exists.mp hfilename
  unfold bpkgLoad.released
  rw [hident, hfilename]
  rfl

structure Whole (obj : BpkgObj) (memory : PackageMemory) : Prop where
  ident : obj.ident.isSome
  filename : obj.filename.isSome
  blocks : memory.allocs.blocks = bpkgLoad.released obj memory.allocs
  nodup : ∀ ptr, (owned ptr obj memory).Nodup

section Destroy

variable {obj : BpkgObj} {memory : PackageMemory}

theorem Whole.releases (h : Whole obj memory) (hstart : memory.filename = .inBuffer 0) (ptr : ObjPtr)
    : Releases [] (owned ptr obj memory) (bpkgObjDestroy ptr obj memory) := by
  -- the object is released last, and each part before that reads it
  have hobject : (ptr, .object) ∈ [(ptr, Pointer.object)] := List.mem_cons_self
  have hhashes := releases_field ptr obj.hashes fun entries =>
    releases_freeHashes ptr (memory.allocs.hashArrays - 1) obj.nhashes.toNat entries hobject
  have hchunks := releases_field ptr obj.chunks fun entries =>
    releases_freeChunks ptr (memory.allocs.chunkArrays - 1) obj.nchunks.toNat entries hobject
  have hfields := ((releases_strings ptr hobject).seq hhashes).seq
    (hchunks.use (List.mem_append_right _ hobject))
  have htree := (releases_freeTree ptr obj.tree hobject).use (List.mem_append_right _ hobject)
  have hall := (hfields.seq htree).append (releases_release [] (ptr, Pointer.object))
  unfold bpkgObjDestroy owned
  rw [h.blocks, hstart]
  apply hall.perm
  apply (List.perm_append_singleton _ _).trans
  apply List.Perm.cons
  apply List.Perm.append_right
  rw [released_eq h.ident h.filename, List.map_cons, List.map_cons, List.map_append]
  exact List.Perm.refl _

end Destroy

section Load

open bpkgLoad (State readLine_step readLines readLines_cons Built built_init initState)

variable {dir : Option Bytes} {garbage obj : BpkgObj} {text : Bytes}

theorem built_of_readLines {lines : List Bytes} {st st' : State} {allocs : Allocs}
    (h : Built lines st allocs) (hrun : readLines dir lines st = .ok (false, st'))
    : ∃ allocs', bpkgLoad.allocations dir lines st allocs = .ok allocs' ∧ Built [] st' allocs' := by
  fun_induction bpkgLoad.allocations dir lines st allocs with
  | case1 st allocs =>
    rw [readLines, Except.ok.injEq, Prod.mk.injEq] at hrun
    rw [← hrun.2]
    exact ⟨allocs, rfl, h⟩
  | case2 line lines st allocs e hline =>
    rw [readLines, hline] at hrun
    cases hrun
  | case3 line lines st allocs st'' hline =>
    rw [readLines, hline] at hrun
    cases hrun
  | case4 line lines st allocs st'' hline ih =>
    rw [readLines_cons hline] at hrun
    obtain ⟨key, hkey, hstep⟩ := readLine_step hline
    exact ih (h.step hkey hstep) hrun

theorem assignedIndices_map (n : Nat) (entries : List (Option α)) (f : α → β)
    : bpkgLoad.assignedIndices n (entries.map (Option.map f)) = bpkgLoad.assignedIndices n entries := by
  unfold bpkgLoad.assignedIndices
  apply List.filter_congr
  intro i _
  rw [List.getD_eq_getElem?_getD, List.getD_eq_getElem?_getD, List.getElem?_map]
  cases entries[i]? with
  | none => rfl
  | some entry => exact Option.isSome_map

theorem released_createTree {obj : BpkgObj} {n nchunks : Int} {tree : MerkleTree} {chunks : PtrArray Chunk}
    (h : Btide.createTree obj.hashes n obj.chunks nchunks = .ok (tree, chunks)) (allocs : Allocs)
    : bpkgLoad.released { obj with tree := some tree, chunks } allocs = bpkgLoad.released obj allocs := by
  have hentries : chunks.map (List.map (Option.map fun _ => ()))
      = obj.chunks.map (List.map (Option.map fun _ => ())) := by
    unfold Btide.createTree at h
    simp only [bind_eq_ok, pure_eq_ok, Prod.mk.injEq] at h
    obtain ⟨⟨root, st⟩, hroot, nNodes, _, _, hchunks⟩ := h
    rw [← hchunks]
    exact insertNode.map_entries (fun _ _ => rfl) hroot
  have hblocks : chunks.map (bpkgLoad.chunkBlocks (allocs.chunkArrays - 1) obj.nchunks.toNat)
      = obj.chunks.map (bpkgLoad.chunkBlocks (allocs.chunkArrays - 1) obj.nchunks.toNat) := by
    cases hnew : chunks with
    | none =>
      cases hold : obj.chunks with
      | none => rfl
      | some old => simp [hnew, hold] at hentries
    | some new =>
      cases hold : obj.chunks with
      | none => simp [hnew, hold] at hentries
      | some old =>
        rw [hnew, hold, Option.map_some, Option.map_some, Option.some.injEq] at hentries
        rw [Option.map_some, Option.map_some, bpkgLoad.chunkBlocks, bpkgLoad.chunkBlocks,
          ← assignedIndices_map _ new (fun _ => ()), hentries, assignedIndices_map]
  unfold bpkgLoad.released
  rw [hblocks]

theorem hashBlocks_spec (k n : Nat) (arr : PtrArray Bytes)
    : ((arr.map (bpkgLoad.hashBlocks k n)).getD []).Nodup
        ∧ ∀ b ∈ (arr.map (bpkgLoad.hashBlocks k n)).getD [], b = .hashArray k ∨ ∃ i, b = .hash k i := by
  cases arr with
  | none => simp
  | some entries =>
    have hindices : (bpkgLoad.assignedIndices n entries).Nodup := List.nodup_range.filter _
    rw [Option.map_some, Option.getD_some, bpkgLoad.hashBlocks]
    constructor
    . apply List.Nodup.append
      . apply hindices.map
        intro i j heq
        exact (Block.hash.inj heq).2
      . exact List.nodup_singleton _
      . simp [List.Disjoint]
    . intro b hb
      rw [List.mem_append, List.mem_map, List.mem_singleton] at hb
      apply hb.symm.imp_right
      rintro ⟨i, _, heq⟩
      exact ⟨i, heq.symm⟩

theorem chunkBlocks_spec (k n : Nat) (arr : PtrArray Chunk)
    : ((arr.map (bpkgLoad.chunkBlocks k n)).getD []).Nodup
        ∧ ∀ b ∈ (arr.map (bpkgLoad.chunkBlocks k n)).getD [],
            b = .chunkArray k ∨ ∃ i, b = .chunkHash k i ∨ b = .chunk k i := by
  cases arr with
  | none => simp
  | some entries =>
    have hindices : (bpkgLoad.assignedIndices n entries).Nodup := List.nodup_range.filter _
    rw [Option.map_some, Option.getD_some, bpkgLoad.chunkBlocks]
    constructor
    . apply List.Nodup.append
      . rw [List.nodup_flatMap]
        refine ⟨by simp, hindices.imp ?_⟩
        intro i j hne
        simp [Function.onFun, List.Disjoint, hne]
      . exact List.nodup_singleton _
      . rw [List.disjoint_singleton]
        simp
    . intro b hb
      rw [List.mem_append, List.mem_flatMap, List.mem_singleton] at hb
      apply hb.symm.imp_right
      rintro ⟨i, _, hmem⟩
      rw [List.mem_pair] at hmem
      exact ⟨i, hmem⟩

theorem nodup_released {obj : BpkgObj} (hident : obj.ident.isSome) (hfilename : obj.filename.isSome)
    (allocs : Allocs) : (bpkgLoad.released obj allocs).Nodup := by
  obtain ⟨hhashes, hhash⟩ := hashBlocks_spec (allocs.hashArrays - 1) obj.nhashes.toNat obj.hashes
  obtain ⟨hchunks, hchunk⟩ := chunkBlocks_spec (allocs.chunkArrays - 1) obj.nchunks.toNat obj.chunks
  rw [released_eq hident hfilename, List.nodup_cons, List.nodup_cons]
  refine ⟨?_, ?_, hhashes.append hchunks ?_⟩
  all_goals grind [List.Disjoint]

theorem nodup_owned {obj : BpkgObj} {memory : PackageMemory} (hblocks : memory.allocs.blocks.Nodup)
    (hnodes : ∀ tree, obj.tree = some tree → tree.root.ptrs.Nodup) (ptr : ObjPtr)
    : (owned ptr obj memory).Nodup := by
  have hblock : (memory.allocs.blocks.map (block ptr)).Nodup := by
    apply hblocks.map
    intro b b' heq
    simpa [block] using heq
  have htree : ((obj.tree.map fun tree => (ptr, .tree) :: tree.root.ptrs.map (node ptr)).getD []).Nodup := by
    cases h : obj.tree with
    | none => exact List.nodup_nil
    | some tree =>
      apply List.nodup_cons.mpr
      constructor
      . simp [node]
      . apply (hnodes tree h).map
        intro p p' heq
        simpa [node] using heq
  unfold owned
  rw [List.nodup_cons]
  constructor
  . cases obj.tree with
    | none => simp [block]
    | some tree => simp [block, node]
  . apply hblock.append htree
    cases obj.tree with
    | none => simp [List.Disjoint]
    | some tree => simp [List.Disjoint, block, node]

theorem exists_load (h : Btide.bpkgLoad garbage (some text) dir = .ok (some obj))
    (hdir : ∀ c ∈ dir.getD [], c ≠ 0)
    : ∃ memory name,
        load garbage text dir = .ok (some (obj, memory))
          ∧ Whole obj memory
          ∧ memory.filename = .inBuffer 0
          ∧ obj.filename = some name
          ∧ memory.Names name := by
  obtain ⟨name, hname, hzero⟩ := (BpkgObj.Managed.load hdir h).exists_filename
  obtain ⟨_, _, _, _, tree, hshape⟩ := packageShape_of_bpkgLoad h
  have hrun := h
  unfold Btide.bpkgLoad at hrun
  simp only [bind_eq_ok] at hrun
  obtain ⟨⟨errorFlag, st⟩, hlines, hfinish⟩ := hrun
  dsimp only at hfinish
  obtain ⟨hflag, tree', chunks, htree, hobj⟩ := bpkgLoad.finish_cases hfinish
  rw [hflag] at hlines
  obtain ⟨allocs, hallocs, hbuilt⟩ := built_of_readLines (built_init _ garbage) hlines
  -- the tree needs chunks, so all sections were read
  have horder : 7 ≤ st.orderIterator := by
    apply Nat.lt_of_not_le
    intro hle
    exact createTree_chunks_ne_none htree (hbuilt.noChunks hle).1
  have hident : obj.ident.isSome := by
    rw [hobj]
    exact hbuilt.ident.mpr (by omega)
  have hfilename : obj.filename.isSome := by
    rw [hname]
    rfl
  have hblocks : allocs.blocks = bpkgLoad.released obj allocs := by
    rw [hobj, released_createTree htree]
    exact hbuilt.blocks
  refine ⟨⟨allocs, name ++ [0], .inBuffer 0⟩, name, ?_, ⟨hident, hfilename, hblocks, ?_⟩, rfl, hname, ?_⟩
  . unfold load
    rw [h]
    simp only [hallocs, hname, deref_some, bind, Except.bind, pure, Except.pure]
  . apply nodup_owned
    . dsimp only
      rw [hblocks]
      exact nodup_released hident hfilename allocs
    . intro t ht
      rw [hshape.tree_eq, Option.some.injEq] at ht
      rw [← ht]
      exact hshape.sound.nodup_ptrs
  . exact ⟨[], rfl, hzero⟩

end Load

end PackageMemory

end Btide
