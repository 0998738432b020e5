import Btide.Net.PackageMemory
import Btide.Net.StatusReport

/-!
This module contains what holds of the heap blocks of a package from `bpkg_load` to `bpkg_obj_destroy`, with
any queries in between.
-/

open Bytes CLib HandleOp

namespace Btide

open bpkgLoad (Allocs)

namespace PackageMemory

structure Kept (obj obj' : BpkgObj) : Prop where
  frame : ∃ filename tree, obj' = { obj with filename, tree }
  ptrs : obj'.tree.map (·.root.ptrs) = obj.tree.map (·.root.ptrs)

section Uses

variable {files files' : FileSystem} {obj obj' : BpkgObj}

theorem ptrs_setComputedHash (ptr : NodePtr) (hash : Bytes) (root : MerkleTreeNode)
    : (root.setComputedHash ptr hash).ptrs = root.ptrs := by
  induction root with
  | leaf info =>
    rw [MerkleTreeNode.setComputedHash, MerkleTreeNode.ptrs_leaf, MerkleTreeNode.ptrs_leaf]
    split
    . rfl
    . rfl
  | inner info left right ihl ihr =>
    rw [MerkleTreeNode.setComputedHash, MerkleTreeNode.ptrs_inner, MerkleTreeNode.ptrs_inner, ihl, ihr]
    split
    . rfl
    . rfl

theorem ptrs_blocks {bufferSize : Nat} {shaBuff : Sha256ComputeData} {data : Bytes}
    {root root' : MerkleTreeNode} {entries : List (Option Chunk)}
    (h : computeHashesForChunks.blocks bufferSize shaBuff data root entries = .ok root')
    : root'.ptrs = root.ptrs := by
  induction entries generalizing shaBuff data root with
  | nil =>
    rw [computeHashesForChunks.blocks] at h
    split at h
    . cases h
    . rw [Except.ok.injEq] at h
      rw [h]
  | cons entry entries ih =>
    rw [computeHashesForChunks.blocks] at h
    split at h
    . simp only [bind_eq_ok] at h
      obtain ⟨_, _, _, _, _, _, h⟩ := h
      rw [ih h, ptrs_setComputedHash]
    . rw [Except.ok.injEq] at h
      rw [h]

theorem kept_computeHashes (h : computeHashesForChunks files obj = .ok obj') : Kept obj obj' := by
  constructor
  . obtain ⟨filename, tree, _, heq⟩ := computeHashesForChunks_eq_with h
    exact ⟨filename, tree, heq⟩
  . unfold computeHashesForChunks at h
    cases hfilename : obj.filename with
    | none => simp [hfilename, throw_eq_ok] at h
    | some filename =>
      simp only [hfilename, bind_eq_ok] at h
      obtain ⟨name, _, entry, _, chunk, _, h⟩ := h
      split at h
      . rw [pure_eq_ok] at h
        rw [← h]
      . simp only [bind_eq_ok, pure_eq_ok, deref_eq_ok] at h
        obtain ⟨entries, _, tree, htree, root, hroot, h⟩ := h
        rw [← h, htree, Option.map_some, Option.map_some, ptrs_blocks hroot]

theorem computeHashes_of_completed {qry : BpkgQuery} (h : bpkgGetCompletedChunks files obj = .ok (qry, obj'))
    : computeHashesForChunks files obj = .ok obj' := by
  unfold bpkgGetCompletedChunks at h
  simp only [bind_eq_ok, pure_eq_ok, Prod.mk.injEq] at h
  obtain ⟨other, hcompute, _, _, _, _, _, heq⟩ := h
  rw [← heq]
  exact hcompute

theorem fileCheck_eq {create : Bool} (h : bpkgFileCheck files create obj = .ok (obj', files'))
    : stripWhitespace obj.filename = .ok obj'.filename ∧ obj' = { obj with filename := obj'.filename } := by
  unfold bpkgFileCheck at h
  cases hfilename : obj.filename with
  | none => simp [hfilename, throw_eq_ok] at h
  | some filename =>
    simp only [hfilename, bind_eq_ok, deref_eq_ok] at h
    obtain ⟨trimmed, htrim, name, hname, h⟩ := h
    have hobj : obj' = { obj with filename := trimmed } := by
      split at h
      . rw [pure_eq_ok, Prod.mk.injEq] at h
        exact h.1.symm
      . split at h
        . rw [pure_eq_ok, Prod.mk.injEq] at h
          exact h.1.symm
        . rw [pure_eq_ok, Prod.mk.injEq] at h
          exact h.1.symm
    rw [hobj]
    exact ⟨htrim, rfl⟩

theorem Use.run_kept {call : Use} (h : call.run obj = .ok obj')
    : Kept obj obj'
        ∧ (call.strips = true → stripWhitespace obj.filename = .ok obj'.filename)
        ∧ (call.strips = false → obj' = obj) := by
  have hsame : Kept obj obj := ⟨⟨obj.filename, obj.tree, rfl⟩, rfl⟩
  cases call with
  | allHashes =>
    simp only [run, bind_eq_ok, pure_eq_ok] at h
    obtain ⟨_, _, heq⟩ := h
    rw [← heq]
    exact ⟨hsame, by simp [strips], fun _ => rfl⟩
  | chunkHashesFromHash hash =>
    simp only [run, bind_eq_ok, pure_eq_ok] at h
    obtain ⟨_, _, heq⟩ := h
    rw [← heq]
    exact ⟨hsame, by simp [strips], fun _ => rfl⟩
  | completedChunks files =>
    simp only [run, bind_eq_ok, pure_eq_ok] at h
    obtain ⟨_, hquery, heq⟩ := h
    have hcompute := computeHashes_of_completed hquery
    rw [heq] at hcompute
    exact ⟨kept_computeHashes hcompute, fun _ => (computeHashesForChunks_frame hcompute).2, by simp [strips]⟩
  | minCompletedHashes files =>
    simp only [run, bind_eq_ok, pure_eq_ok] at h
    obtain ⟨_, hquery, heq⟩ := h
    have hcompute := computeHashes_of_minCompleted hquery
    rw [heq] at hcompute
    exact ⟨kept_computeHashes hcompute, fun _ => (computeHashesForChunks_frame hcompute).2, by simp [strips]⟩
  | computeHashes files =>
    exact ⟨kept_computeHashes h, fun _ => (computeHashesForChunks_frame h).2, by simp [strips]⟩
  | fileCheck files create =>
    simp only [run, bind_eq_ok, pure_eq_ok] at h
    obtain ⟨_, hcheck, heq⟩ := h
    obtain ⟨hname, hobj⟩ := fileCheck_eq hcheck
    rw [heq] at hname hobj
    refine ⟨⟨⟨obj'.filename, obj.tree, hobj⟩, ?_⟩, fun _ => hname, by simp [strips]⟩
    rw [hobj]

end Uses

section Names

variable {memory : PackageMemory} {name : Bytes}

/--
The filename begins with a character that `strip_whitespace` does not skip.
-/
def Steady (name : Bytes) : Prop :=
  ∃ c rest, name = c :: rest ∧ isspace c = false

theorem names_ne_zero (h : memory.Names name) : ∀ c ∈ name, c ≠ 0 := by
  unfold Names at h
  split at h
  . rw [h]
    simp
  . exact h.choose_spec.ne_zero

theorem steady_trim (h : Steady name) (hzero : ∀ c ∈ name, c ≠ 0) : Steady (trim name) := by
  obtain ⟨c, rest, heq, hc⟩ := h
  have hne : trim name ≠ [] := by
    rw [ne_eq, trim_eq_nil_iff hzero, heq, List.dropWhile_cons, if_neg (by simp [hc])]
    simp
  cases htrim : trim name with
  | nil => exact absurd htrim hne
  | cons d word => exact ⟨d, word, rfl, trim_head (by rw [htrim]; rfl)⟩

theorem strip_names (h : memory.Names name)
    : ∃ memory',
        memory.strip = .ok memory'
          ∧ memory'.Names (trim name)
          ∧ memory'.allocs = memory.allocs
          ∧ (memory'.filename = .inBuffer 0 ↔ memory.filename = .inBuffer 0 ∧ Steady name) := by
  have hzero := names_ne_zero h
  unfold Names at h
  split at h
  . next hliteral =>
    refine ⟨{ memory with filename := .literal }, ?_, ?_, rfl, ?_⟩
    . unfold strip
      rw [hliteral]
      rfl
    . rw [h]
      rfl
    . simp [hliteral]
  . next p hbuffer =>
    obtain ⟨rest, hholds⟩ := h
    cases Trim.split isspace name with
    | blank hblank =>
      refine ⟨{ memory with filename := .literal }, ?_, ?_, rfl, ?_⟩
      . unfold strip
        rw [hbuffer, stripWhitespaceAt.blank_run hholds hblank]
        rfl
      . dsimp only [Names]
        rw [trim_eq_nil_iff hzero, List.dropWhile_eq_nil_iff]
        exact hblank
      . simp only [reduceCtorEq, false_iff, not_and]
        rintro _ ⟨c, rest, heq, hc⟩
        rw [hblank c (by rw [heq]; exact List.mem_cons_self)] at hc
        cases hc
    | word front word back hs =>
      have hlen := hs.length_eq
      refine ⟨{ memory with
          filename := .inBuffer (p + front.length)
          filenameMem := memory.filenameMem.set (p + front.length + word.length) 0 }, ?_, ?_, rfl, ?_⟩
      . unfold strip
        rw [hbuffer, stripWhitespaceAt.word_run hholds hs]
        rfl
      . obtain ⟨rest', hset⟩ := hholds.set (show front.length + word.length ≤ name.length by omega)
        have hword : (name.drop front.length).take word.length = trim name := by
          rw [stripWhitespaceAt.trim_word hholds hs, hs.eq, List.drop_left, List.take_left]
        rw [hword] at hset
        exact ⟨rest', hset⟩
      . rw [hbuffer, CharPtr.inBuffer.injEq, CharPtr.inBuffer.injEq, Nat.add_eq_zero_iff]
        apply and_congr_right
        intro _
        rw [List.length_eq_zero_iff]
        constructor
        . intro hfront
          cases hword : word with
          | nil => exact absurd hword hs.ne
          | cons c word' =>
            refine ⟨c, word' ++ back, ?_, hs.head c (by rw [hword]; rfl)⟩
            rw [hs.eq, hfront, hword]
            rfl
        . rintro ⟨c, rest, heq, hc⟩
          rw [← hs.takeWhile_eq, heq, List.takeWhile_cons, if_neg (by simp [hc])]

end Names

structure InMemory (obj : BpkgObj) (memory : PackageMemory) (name : Bytes) : Prop
    extends Whole obj memory where
  filename_eq : obj.filename = some name
  names : memory.Names name

section Runs

variable {obj obj' : BpkgObj} {memory memory' : PackageMemory} {name : Bytes}

theorem owned_kept (h : Kept obj obj') (hallocs : memory'.allocs = memory.allocs) (ptr : ObjPtr)
    : owned ptr obj' memory' = owned ptr obj memory := by
  have hmap (tree : Option MerkleTree)
      : (tree.map fun tree => (ptr, .tree) :: tree.root.ptrs.map (node ptr))
          = (tree.map (·.root.ptrs)).map fun ptrs => (ptr, .tree) :: ptrs.map (node ptr) := by
    rw [Option.map_map]
    rfl
  unfold owned
  rw [hallocs, hmap, hmap, h.ptrs]

theorem Whole.kept (h : Whole obj memory) (hkept : Kept obj obj') (hfilename : obj'.filename.isSome)
    (hallocs : memory'.allocs = memory.allocs) : Whole obj' memory' := by
  obtain ⟨filename, tree, heq⟩ := hkept.frame
  have hident : obj'.ident.isSome := by
    rw [heq]
    exact h.ident
  refine ⟨hident, hfilename, ?_, ?_⟩
  . rw [hallocs, h.blocks, released_eq h.ident h.filename, released_eq hident hfilename, heq]
  . intro ptr
    rw [owned_kept hkept hallocs]
    exact h.nodup ptr

theorem InMemory.apply {call : Use} (h : InMemory obj memory name) (hrun : call.run obj = .ok obj')
    : ∃ memory' name',
        PackageMemory.apply call obj memory = .ok (obj', memory')
          ∧ InMemory obj' memory' name'
          ∧ (∀ ptr, owned ptr obj' memory' = owned ptr obj memory)
          ∧ (memory'.filename = .inBuffer 0
              ↔ memory.filename = .inBuffer 0 ∧ (call.strips = false ∨ Steady name))
          ∧ (Steady name → Steady name')
          ∧ (call.strips = false → name' = name) := by
  obtain ⟨hkept, hstrips, hsame⟩ := Use.run_kept hrun
  cases hcall : call.strips with
  | false =>
    rw [hsame hcall]
    refine ⟨memory, name, ?_, h, fun _ => rfl, by simp, id, fun _ => rfl⟩
    unfold PackageMemory.apply
    rw [hrun, hsame hcall]
    simp only [hcall, bind, Except.bind, pure, Except.pure, Bool.false_eq_true, ↓reduceIte]
  | true =>
    have hzero := names_ne_zero h.names
    obtain ⟨memory', hstrip, hnames, hallocs, hstart⟩ := strip_names h.names
    have hfilename := hstrips hcall
    rw [h.filename_eq, stripWhitespace_eq_trim hzero, Except.ok.injEq] at hfilename
    refine ⟨memory', trim name, ?_, ⟨?_, hfilename.symm, hnames⟩, owned_kept hkept hallocs, ?_, ?_, by simp⟩
    . unfold PackageMemory.apply
      rw [hrun]
      simp only [hcall, hstrip, bind, Except.bind, pure, Except.pure, ↓reduceIte]
    . apply h.toWhole.kept hkept ?_ hallocs
      rw [← hfilename]
      rfl
    . simpa using hstart
    . intro hsteady
      exact steady_trim hsteady hzero

theorem keeps_query (ptr : ObjPtr) (obj : BpkgObj) (memory : PackageMemory) (found : Bool)
    : Keeps (owned ptr obj memory) [(ptr, .query), (ptr, .queryHashes)]
        (query ptr (reads ptr obj memory) found) := by
  intro s hctx hdisj
  have hobject : (ptr, Pointer.object) ∈ s := hctx (by simp [owned])
  have hquery : (ptr, Pointer.query) ∉ s := Finset.disjoint_right.mp hdisj (by simp)
  have hhashes : (ptr, Pointer.queryHashes) ∉ s := Finset.disjoint_right.mp hdisj (by simp)
  have hstart : run s [.acquire (ptr, .query), .use (ptr, .object), .acquire (ptr, .queryHashes)]
      = some (insert (ptr, .queryHashes) (insert (ptr, .query) s)) := by
    simp [step, hobject, hquery, hhashes]
  have hreads : run (insert (ptr, .queryHashes) (insert (ptr, .query) s)) (reads ptr obj memory)
      = some (insert (ptr, .queryHashes) (insert (ptr, .query) s)) := by
    apply run_uses
    intro h hmem
    exact Finset.mem_insert_of_mem (Finset.mem_insert_of_mem (hctx (List.mem_toFinset.mpr hmem)))
  unfold query
  rw [run_append, run_append, hstart, Option.bind_some, hreads, Option.bind_some]
  cases found with
  | true =>
    simp only [↓reduceIte, List.cons_append, run_cons, run_append, run_nil]
    rw [step, if_pos (by simp), Option.bind_some, hreads]
    simp [step, hquery, hhashes]
  | false => simp [step, hquery, hhashes, Finset.insert_comm (ptr, Pointer.queryHashes)]

theorem keeps_trace (ptr : ObjPtr) (obj : BpkgObj) (memory : PackageMemory) (call : Use)
    : Keeps (owned ptr obj memory) [(ptr, .query), (ptr, .queryHashes)] (call.trace ptr obj memory) := by
  cases call with
  | computeHashes files =>
    intro s hctx _
    exact run_uses fun h hmem => hctx (List.mem_toFinset.mpr hmem)
  | chunkHashesFromHash hash =>
    unfold Use.trace
    dsimp only
    split
    . exact keeps_query ptr obj memory false
    . exact keeps_query ptr obj memory true
  | _ => exact keeps_query ptr obj memory true

theorem InMemory.applyAll {calls : List Use} (h : InMemory obj memory name)
    (hrun : calls.foldlM (fun obj call => call.run obj) obj = .ok obj') (ptr : ObjPtr)
    : ∃ trace memory' name',
        PackageMemory.applyAll ptr calls obj memory = .ok (trace, obj', memory')
          ∧ InMemory obj' memory' name'
          ∧ owned ptr obj' memory' = owned ptr obj memory
          ∧ Keeps (owned ptr obj memory) [(ptr, .query), (ptr, .queryHashes)] trace
          ∧ (memory'.filename = .inBuffer 0
              ↔ memory.filename = .inBuffer 0 ∧ ((∀ call ∈ calls, call.strips = false) ∨ Steady name)) := by
  induction calls generalizing obj memory name with
  | nil =>
    rw [List.foldlM_nil, pure_eq_ok] at hrun
    rw [← hrun]
    exact ⟨[], memory, name, rfl, h, rfl, keeps_nil _ _, by simp⟩
  | cons call calls ih =>
    rw [List.foldlM_cons, bind_eq_ok] at hrun
    obtain ⟨obj₁, hcall, hrun⟩ := hrun
    obtain ⟨memory₁, name₁, happly, h₁, howned₁, hstart₁, hsteady, hname⟩ := h.apply hcall
    obtain ⟨trace, memory', name', happlyAll, h', howned, hkeeps, hstart⟩ := ih h₁ hrun
    rw [howned₁] at howned hkeeps
    refine ⟨call.trace ptr obj memory ++ trace, memory', name', ?_, h', howned, ?_, ?_⟩
    . unfold PackageMemory.applyAll
      simp only [happly, happlyAll, bind, Except.bind, pure, Except.pure]
    . exact (keeps_trace ptr obj memory call).append hkeeps
    . rw [hstart, hstart₁, List.forall_mem_cons]
      -- a call that does not strip leaves the name, and after one that does the pointer has moved or not
      cases hcall : call.strips with
      | false =>
        rw [hname hcall]
        simp
      | true =>
        simp only [reduceCtorEq, false_or, false_and, and_assoc, and_congr_right_iff]
        intro _
        constructor
        . exact And.left
        . intro hs
          exact ⟨hs, .inr (hsteady hs)⟩

theorem mem_owned {ptr : ObjPtr} {h : ObjPtr × Pointer} (hmem : h ∈ owned ptr obj memory)
    : h = (ptr, .object) ∨ (∃ b, h = block ptr b) ∨ h = (ptr, .tree) ∨ ∃ p, h = node ptr p := by
  unfold owned at hmem
  rw [List.mem_cons, List.mem_append, List.mem_map] at hmem
  rcases hmem with hobject | ⟨b, _, hblock⟩ | htree
  . exact .inl hobject
  . exact .inr (.inl ⟨b, hblock.symm⟩)
  . cases hroot : obj.tree with
    | none => simp [hroot] at htree
    | some tree =>
      rw [hroot, Option.map_some, Option.getD_some, List.mem_cons, List.mem_map] at htree
      rcases htree with htree | ⟨p, _, hnode⟩
      . exact .inr (.inr (.inl htree))
      . exact .inr (.inr (.inr ⟨p, hnode.symm⟩))

theorem InMemory.destroy_iff (h : InMemory obj memory name) (ptr : ObjPtr) (s t : Finset (ObjPtr × Pointer))
    (hdisj : Disjoint s (owned ptr obj memory).toFinset)
    (hmoved : ∀ filename, (ptr, .moved filename) ∉ s)
    : run (s ∪ (owned ptr obj memory).toFinset) (bpkgObjDestroy ptr obj memory) = some t
        ↔ memory.filename = .inBuffer 0 ∧ t = s := by
  by_cases hstart : memory.filename = .inBuffer 0
  . rw [h.toWhole.releases hstart ptr (h.nodup ptr) s (by simp) hdisj, Option.some.injEq]
    simp only [hstart, true_and]
    exact eq_comm
  . simp only [hstart, false_and, iff_false]
    intro hrun
    have hpointer : filenamePointer ptr memory.filename = (ptr, .moved memory.filename) := by
      unfold filenamePointer
      split
      . next heq => exact absurd heq hstart
      . rfl
    unfold bpkgObjDestroy at hrun
    rw [hpointer] at hrun
    simp only [List.cons_append, List.nil_append] at hrun
    have hmem := mem_of_release (show run _
      ([.use (ptr, .object), .release (block ptr .ident), .use (ptr, .object)] ++ _ :: _) = _ from hrun)
    rw [Finset.mem_union, List.mem_toFinset] at hmem
    rcases hmem with (hs | howned) | hops
    . exact hmoved _ hs
    . simpa [block, node] using mem_owned howned
    . simp at hops

/--
A package that was loaded, queried in any way and destroyed: all blocks that were allocated are freed, each
once and not used afterwards, if and only if no query had to move the pointer to the filename.
-/
theorem freed_once_iff {garbage : BpkgObj} {text : Bytes} {dir : Option Bytes} {calls : List Use}
    (hdir : ∀ c ∈ dir.getD [], c ≠ 0)
    (hload : Btide.bpkgLoad garbage (some text) dir = .ok (some obj))
    (hcalls : calls.foldlM (fun obj call => call.run obj) obj = .ok obj') (ptr : ObjPtr)
    : ∃ memory trace memory',
        load garbage text dir = .ok (some (obj, memory))
          ∧ PackageMemory.applyAll ptr calls obj memory = .ok (trace, obj', memory')
          ∧ (HandleOp.Balanced (bpkgLoad ptr obj memory ++ trace ++ bpkgObjDestroy ptr obj' memory')
              ↔
            (∀ call ∈ calls, call.strips = false)
              ∨ ∃ c rest, obj.filename = some (c :: rest) ∧ isspace c = false) := by
  obtain ⟨memory, name, hmemory, hwhole, hstart, hfilename, hnames⟩ := exists_load hload hdir
  have hin : InMemory obj memory name := ⟨hwhole, hfilename, hnames⟩
  obtain ⟨trace, memory', name', happly, hin', howned, hkeeps, hiff⟩ := hin.applyAll hcalls ptr
  refine ⟨memory, trace, memory', hmemory, happly, ?_⟩
  have hacquired : run ∅ (bpkgLoad ptr obj memory) = some (∅ ∪ (owned ptr obj memory).toFinset) :=
    acquires_bpkgLoad ptr obj memory (hwhole.nodup ptr) ∅ (Finset.disjoint_empty_left _)
  have hkept : run (∅ ∪ (owned ptr obj memory).toFinset) trace
      = some (∅ ∪ (owned ptr obj memory).toFinset) := by
    apply hkeeps
    . rw [Finset.empty_union]
    . rw [Finset.empty_union, List.disjoint_toFinset_iff_disjoint]
      intro h hmem hquery
      have hkind := mem_owned hmem
      simp only [List.mem_pair] at hquery
      rcases hquery with hquery | hquery
      . simp [hquery, block, node] at hkind
      . simp [hquery, block, node] at hkind
  unfold HandleOp.Balanced
  rw [run_append, run_append, hacquired, Option.bind_some, hkept, Option.bind_some, ← howned,
    hin'.destroy_iff ptr ∅ ∅ (Finset.disjoint_empty_left _) (by simp), hiff, hfilename]
  simp [hstart, Steady]

def blankName : Bytes :=
  ascii "ident:a\nfilename: \nsize:1\nnhashes:0\nhashes:\nnchunks:1\nchunks:\n\tq,0,1\n"

def blankNameObj : BpkgObj where
  ident := some (ascii "a")
  filename := some []
  size := 1
  nhashes := 0
  hashes := .ofList []
  nchunks := 1
  chunks := .ofList [⟨ascii "q", 0, 1, some 0⟩]
  tree := some ⟨.leaf ⟨0, 0, ascii "q", none, []⟩, 1⟩

theorem freed_once_two
    : (∃ memory trace memory',
        load ⟨none, none, 7, 7, none, 7, none, none⟩ (twoChunks (ascii "2")) none
            = .ok (some (twoChunksObj 2, memory))
          ∧ PackageMemory.applyAll 0 [.minCompletedHashes fun _ => none, .chunkHashesFromHash digestAb]
              (twoChunksObj 2) memory
            = .ok (trace, twoChunksObj 2, memory')
          ∧ HandleOp.Balanced (bpkgLoad 0 (twoChunksObj 2) memory ++ trace
              ++ bpkgObjDestroy 0 (twoChunksObj 2) memory'))
      ∧ ∃ obj memory trace memory',
          load ⟨none, none, 7, 7, none, 7, none, none⟩ blankName none = .ok (some (obj, memory))
            ∧ PackageMemory.applyAll 0 [.minCompletedHashes fun _ => none] obj memory
              = .ok (trace, obj, memory')
            ∧ ¬ HandleOp.Balanced (bpkgLoad 0 obj memory ++ trace ++ bpkgObjDestroy 0 obj memory') := by
  have hdir : ∀ c ∈ (none : Option Bytes).getD [], c ≠ 0 := by simp
  constructor
  . have hcalls : [Use.minCompletedHashes fun _ => none, .chunkHashesFromHash digestAb].foldlM
        (fun obj call => call.run obj) (twoChunksObj 2) = .ok (twoChunksObj 2) := by
      decide +kernel
    obtain ⟨memory, trace, memory', hmemory, happly, hiff⟩ := freed_once_iff hdir load_twoChunks hcalls 0
    exact ⟨memory, trace, memory', hmemory, happly, hiff.mpr (.inr ⟨102, [], rfl, by decide⟩)⟩
  . have hload : Btide.bpkgLoad ⟨none, none, 7, 7, none, 7, none, none⟩ (some blankName) none
        = .ok (some blankNameObj) := by
      decide +kernel
    have hcalls : [Use.minCompletedHashes fun _ => none].foldlM (fun obj call => call.run obj) blankNameObj
        = .ok blankNameObj := by
      decide +kernel
    obtain ⟨memory, trace, memory', hmemory, happly, hiff⟩ := freed_once_iff hdir hload hcalls 0
    refine ⟨blankNameObj, memory, trace, memory', hmemory, happly, ?_⟩
    rw [hiff]
    simp [Use.strips, blankNameObj]

end Runs

end PackageMemory

end Btide
