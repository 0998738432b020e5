import Btide.Net.CompletionRuns
import Btide.Net.TreeArray

/-!
This module contains which packages the command PACKAGES reports as completed.
-/

open Bytes CLib

namespace Btide

open MerkleTreeNode

namespace BpkgObj

def computedHash (bpkg : BpkgObj) (chunk : Chunk) : Option Bytes := do
  let tree ← bpkg.tree
  let nodePtr ← chunk.nodePtr
  let node ← tree.root.subtrees.find? (·.info.ptr = nodePtr)
  return node.info.computedHash

def AllComplete (bpkg : BpkgObj) : Prop :=
  ∀ chunk, bpkg.HasChunk chunk → bpkg.computedHash chunk = some chunk.hash

structure Reportable (bpkg : BpkgObj) : Prop where
  single : bpkg.nhashes = 0 → ¬ bpkg.AllComplete
  partly : ¬ bpkg.AllComplete → ∀ tree node,
    bpkg.tree = some tree
      → tree.root.emitted.head? = some node
      → node.info.value ≠ tree.root.info.value

end BpkgObj

theorem parented_of_nodeSound {hashes : List Bytes} {chunks : List Chunk} {t : MerkleTreeNode}
    (h : ∀ node ∈ t.subtrees, NodeSound hashes chunks node) : t.Parented := by
  induction t with
  | leaf info => exact trivial
  | inner info left right ihl ihr =>
    have hself := h _ (self_mem_subtrees _)
    refine ⟨hself.2.2.2.2.1, hself.2.2.2.2.2, ihl ?_, ihr ?_⟩
    . intro node hnode
      exact h node (by simp [hnode])
    . intro node hnode
      exact h node (by simp [hnode])

def MerkleTreeNode.startsWithRoot (t : MerkleTreeNode) : Prop :=
  ((t.emitted ++ if t.isLeaf then [] else t.pending).map (·.info.value)).head? = some t.info.value

theorem MerkleTreeNode.startsWithRoot_leaf (info : NodeInfo) : ¬ (leaf info).startsWithRoot := by
  simp [startsWithRoot, emitted, isLeaf]

theorem MerkleTreeNode.startsWithRoot_of_complete {t : MerkleTreeNode} (hleaf : t.isLeaf = false)
    (hc : t.complete = true) : t.startsWithRoot := by
  simp [startsWithRoot, emitted_of_complete hc, hleaf, pending, hc]

theorem MerkleTreeNode.startsWithRoot_of_incomplete {t : MerkleTreeNode} (hc : t.complete = false)
    : t.startsWithRoot ↔ ∃ node, t.emitted.head? = some node ∧ node.info.value = t.info.value := by
  have hpending : (if t.isLeaf then [] else t.pending) = [] := by
    simp [pending, hc]
  rw [startsWithRoot, hpending, List.append_nil, List.head?_map, Option.map_eq_some_iff]

namespace PackageShape

variable {hashes : List Bytes} {chunks₀ chunks : List Chunk} {rest : List (Option Chunk)}
  {tree : MerkleTree} {bpkg bpkg' : BpkgObj}

theorem isLeaf_iff (h : PackageShape hashes chunks₀ chunks rest tree bpkg)
    : tree.root.isLeaf = true ↔ bpkg.nhashes = 0 := by
  have hroot := h.sound.nodes _ (self_mem_subtrees _)
  have hkey := h.sound.root_key
  have hzero : bpkg.nhashes = 0 ↔ hashes.length = 0 := by
    rw [← UInt32.toNat_inj, h.nhashes_eq]
    rfl
  rw [hzero]
  cases hnode : tree.root with
  | leaf info =>
    rw [hnode] at hroot hkey
    have hle := hroot.1
    simp only [MerkleTreeNode.info] at hkey
    simp only [isLeaf, true_iff]
    omega
  | inner info left right =>
    rw [hnode] at hroot
    have hlt := hroot.1
    simp only [isLeaf, Bool.false_eq_true, false_iff]
    omega

theorem allComplete_iff (h : PackageShape hashes chunks₀ chunks rest tree bpkg)
    (hcount : bpkg.nchunks.toNat = bpkg.nhashes.toNat + 1)
    : bpkg.AllComplete ↔ tree.root.complete = true := by
  obtain ⟨hchunks, hnchunks⟩ := h.chunks_eq_ofList hcount
  -- a leaf and its chunk
  have hlink {info : NodeInfo} (hinfo : info ∈ tree.root.leaves)
      : ∃ chunk, chunks[info.key - hashes.length]? = some chunk
          ∧ chunk.hash = info.value
          ∧ bpkg.computedHash chunk = some info.computedHash := by
    obtain ⟨_, hlt, hvalue⟩ := h.sound.leaf_index hinfo
    obtain ⟨other, hother, chunk, hkey, hget, hptr⟩ := h.sound.node_ptr h.length_chunks hlt
    have hge := (h.sound.leaf_index hinfo).1
    have heq := List.inj_on_of_nodup_map h.sound.nodup_leaf_keys hother hinfo (by omega)
    rw [heq] at hptr
    refine ⟨chunk, hget, ?_, ?_⟩
    . rw [← h.hash_eq, List.getElem?_map, hget, Option.map_some, Option.some.injEq] at hvalue
      exact hvalue
    . have hfind : tree.root.subtrees.find? (·.info.ptr = info.ptr) = some (leaf info) :=
        find?_of_nodup_map h.sound.nodup_ptrs (mem_leaves.mp hinfo)
      simp only [BpkgObj.computedHash, h.tree_eq, hptr, bind, Option.bind, hfind]
      rfl
  rw [complete, List.all_eq_true]
  constructor
  . intro hall info hinfo
    obtain ⟨chunk, hget, hhash, hcomputed⟩ := hlink hinfo
    have hlt := (List.getElem?_eq_some_iff.mp hget).1
    have hchunk := hall chunk ⟨_, _, hchunks, by omega, getElem?_map_some hget⟩
    rw [hcomputed, hhash, Option.some.injEq] at hchunk
    rw [NodeInfo.complete, hchunk]
    exact beq_self_eq_true _
  . intro hall chunk hhas
    obtain ⟨entries, j, hentries, hj, hget⟩ := hhas
    rw [hchunks, PtrArray.ofList, Option.some.injEq] at hentries
    rw [← hentries, List.getElem?_map, Option.map_eq_some_iff] at hget
    obtain ⟨other, hother, heq⟩ := hget
    rw [Option.some.injEq] at heq
    rw [hnchunks, h.sound.length_chunks] at hj
    obtain ⟨info, hinfo, _, hkey, _⟩ := h.sound.node_ptr h.length_chunks hj
    obtain ⟨chunk', hget', hhash, hcomputed⟩ := hlink hinfo
    have hindex : info.key - hashes.length = j := by omega
    rw [hindex, hother, heq, Option.some.injEq] at hget'
    have hcomplete := hall info hinfo
    rw [NodeInfo.complete, beq_iff_eq] at hcomplete
    rw [hget', hcomputed, hcomplete, hhash]

theorem minCompleted_eq (h : PackageShape hashes chunks₀ chunks rest tree bpkg)
    : minHashFind tree.root (.alloc bpkg.intNchunks.toNat)
        =
      .ok (tree.root.complete,
        HashBuf.append (.alloc bpkg.intNchunks.toNat)
          ((tree.root.emitted ++ if tree.root.isLeaf then [] else tree.root.pending).map
            (·.info.value))) := by
  apply minHashFind.root (parented_of_nodeSound h.sound.nodes) h.sound.root_parent
  rw [HashBuf.alloc_hashes, List.length_nil, Nat.zero_add, HashBuf.alloc_cap]
  exact h.leaves_le (self_mem_subtrees _)

theorem reportable_iff (h : PackageShape hashes chunks₀ chunks rest tree bpkg)
    (hcount : bpkg.nchunks.toNat = bpkg.nhashes.toNat + 1)
    : (tree.root.startsWithRoot ↔ bpkg.AllComplete) ↔ bpkg.Reportable := by
  have hall := h.allComplete_iff hcount
  have hleaf := h.isLeaf_iff
  constructor
  . intro hiff
    constructor
    . intro hzero hcomplete
      rw [← hleaf] at hzero
      have hstarts := hiff.mpr hcomplete
      cases hroot : tree.root with
      | leaf info =>
        rw [hroot] at hstarts
        exact startsWithRoot_leaf info hstarts
      | inner info left right =>
        rw [hroot] at hzero
        cases hzero
    . intro hnot tree' node htree hnode heq
      rw [h.tree_eq, Option.some.injEq] at htree
      rw [← htree] at hnode heq
      apply hnot
      rw [← hiff, startsWithRoot_of_incomplete]
      . exact ⟨node, hnode, heq⟩
      . rw [hall, Bool.not_eq_true] at hnot
        exact hnot
  . intro hreportable
    constructor
    . intro hstarts
      apply Classical.byContradiction
      intro hnot
      have hc : tree.root.complete = false := by
        rw [hall, Bool.not_eq_true] at hnot
        exact hnot
      rw [startsWithRoot_of_incomplete hc] at hstarts
      obtain ⟨node, hnode, heq⟩ := hstarts
      exact hreportable.partly hnot tree node h.tree_eq hnode heq
    . intro hcomplete
      apply startsWithRoot_of_complete
      . cases hisLeaf : tree.root.isLeaf with
        | false => rfl
        | true => exact absurd hcomplete (hreportable.single (hleaf.mp hisLeaf))
      . exact hall.mp hcomplete

end PackageShape

theorem computeHashes_of_minCompleted {files : FileSystem} {bpkg bpkg' : BpkgObj} {qry : BpkgQuery}
    (h : bpkgGetMinCompletedHashes files bpkg = .ok (qry, bpkg'))
    : computeHashesForChunks files bpkg = .ok bpkg' := by
  unfold bpkgGetMinCompletedHashes at h
  simp only [bind_eq_ok, pure_eq_ok, Prod.mk.injEq] at h
  obtain ⟨other, hcompute, _, _, _, _, _, heq⟩ := h
  rw [← heq]
  exact hcompute

namespace PackageStore

structure packageStatus.Reports (files : FileSystem) (objects objects' : ObjPtr → Option BpkgObj)
    (ptr : ObjPtr) (line : StatusLine) : Prop where
  queried : ∃ bpkg bpkg' tree qry,
    objects ptr = some bpkg
      ∧ computeHashesForChunks files bpkg = .ok bpkg'
      ∧ objects' ptr = some bpkg'
      ∧ bpkg'.tree = some tree
      ∧ minHashFind tree.root (.alloc bpkg'.intNchunks.toNat) = .ok qry
      ∧ line
          =
        { ident := bpkg'.ident
          filename := bpkg'.filename
          completed := qry.2.hashes.head? = some tree.root.info.value }

theorem packageStatus.report_frame {files : FileSystem} {managedArray : List (Option ObjPtr)}
    {objects objects' : ObjPtr → Option BpkgObj} {lines : List StatusLine}
    (h : report files managedArray objects = .ok (lines, objects')) {ptr : ObjPtr}
    (hptr : ptr ∉ managedArray.filterMap id) : objects' ptr = objects ptr := by
  have hcount : managedArray.count (some ptr) = 0 := by
    rw [List.count_eq_zero]
    intro hmem
    exact hptr (List.mem_filterMap.mpr ⟨some ptr, hmem, rfl⟩)
  have hhashes := packageStatus.report_hashes h ptr
  rw [hcount] at hhashes
  exact hhashes

theorem packageStatus.report_lines {files : FileSystem} {managedArray : List (Option ObjPtr)}
    {objects objects' : ObjPtr → Option BpkgObj} {lines : List StatusLine}
    (h : report files managedArray objects = .ok (lines, objects'))
    (hnodup : (managedArray.filterMap id).Nodup)
    : List.Forall₂ (Reports files objects objects') (managedArray.filterMap id) lines := by
  induction managedArray generalizing objects lines with
  | nil =>
    simp only [report, Except.ok.injEq, Prod.mk.injEq] at h
    rw [← h.1]
    exact .nil
  | cons entry managedArray ih =>
    cases entry with
    | none =>
      rw [report] at h
      exact ih h hnodup
    | some first =>
      rw [report] at h
      simp only [bind_eq_ok, pure_eq_ok, Prod.mk.injEq, deref_eq_ok] at h
      obtain ⟨bpkg, hload, ⟨qry, bpkg'⟩, hqry, tree, htree, ⟨lines', objects''⟩, hrest, hlines, hobjects⟩ := h
      dsimp only at hobjects hrest hlines htree
      rw [hobjects] at hrest
      have hcons : (some first :: managedArray).filterMap id = first :: managedArray.filterMap id := rfl
      rw [hcons, List.nodup_cons] at hnodup
      have hsame := report_frame hrest hnodup.1
      rw [Function.update_self] at hsame
      unfold bpkgGetMinCompletedHashes at hqry
      simp only [bind_eq_ok, pure_eq_ok, Prod.mk.injEq, deref_eq_ok] at hqry
      obtain ⟨hashed, hcompute, tree', htree', found, hfound, hqry, heq⟩ := hqry
      rw [heq] at hcompute htree' hfound
      rw [htree, Option.some.injEq] at htree'
      rw [← htree'] at hfound
      rw [hcons, ← hlines]
      refine .cons ⟨bpkg, bpkg', tree, found, load_eq_ok.mp hload, hcompute, hsame, htree, hfound, ?_⟩ ?_
      . rw [← hqry]
      . have hothers : ∀ ptr ∈ managedArray.filterMap id, ptr ≠ first := by
          intro ptr hptr heq
          rw [heq] at hptr
          exact hnodup.1 hptr
        apply ((List.forall₂_and_left _ _).mpr ⟨hothers, ih hrest hnodup.2⟩).imp
        rintro ptr line ⟨hne, hreports⟩
        obtain ⟨other, other', tree', qry', hother, hreports⟩ := hreports.queried
        rw [Function.update_of_ne hne] at hother
        exact ⟨other, other', tree', qry', hother, hreports⟩

theorem packageStatus.Reports.completed_iff {files : FileSystem} {objects objects' : ObjPtr → Option BpkgObj}
    {ptr : ObjPtr} {line : StatusLine} (h : Reports files objects objects' ptr line)
    (hmanaged : ∀ bpkg, objects ptr = some bpkg → bpkg.Managed)
    : ∃ bpkg,
        objects' ptr = some bpkg
          ∧ line.ident = bpkg.ident
          ∧ line.filename = bpkg.filename
          ∧ (bpkg.nchunks.toNat = bpkg.nhashes.toNat + 1
              → ((line.completed = true ↔ bpkg.AllComplete) ↔ bpkg.Reportable)) := by
  obtain ⟨bpkg, bpkg', tree, qry, hobject, hcompute, hobject', htree, hqry, hline⟩ := h.queried
  obtain ⟨hashes, chunks₀, chunks, rest, tree', hshape⟩ := ((hmanaged bpkg hobject).computeHashes hcompute).shape
  rw [hshape.tree_eq, Option.some.injEq] at htree
  rw [← htree, hshape.minCompleted_eq, Except.ok.injEq] at hqry
  refine ⟨bpkg', hobject', by rw [hline], by rw [hline], ?_⟩
  intro hcount
  have hcompleted : line.completed = true ↔ tree'.root.startsWithRoot := by
    rw [hline, ← hqry, ← htree, startsWithRoot]
    simp [HashBuf.append]
  rw [hcompleted]
  exact hshape.reportable_iff hcount

theorem packageStatus_completed_iff {store store' : PackageStore} {lines : List StatusLine}
    (hnodup : (store.packages.managedArray.filterMap id).Nodup)
    (hmanaged : ∀ ptr bpkg, store.objects ptr = some bpkg → bpkg.Managed)
    (hsize : store.packages.size ≠ 0) (h : packageStatus store = .ok (lines, store'))
    : lines.length = (store.packages.managedArray.filterMap id).length
        ∧ ∀ (k : Nat) (ptr : ObjPtr) (line : StatusLine),
            (store.packages.managedArray.filterMap id)[k]? = some ptr
              → lines[k]? = some line
              → ∃ bpkg,
                  store'.objects ptr = some bpkg
                    ∧ line.ident = bpkg.ident
                    ∧ line.filename = bpkg.filename
                    ∧ (bpkg.nchunks.toNat = bpkg.nhashes.toNat + 1
                        → ((line.completed = true ↔ bpkg.AllComplete) ↔ bpkg.Reportable)) := by
  unfold packageStatus at h
  rw [if_neg hsize] at h
  simp only [bind_eq_ok, pure_eq_ok, Prod.mk.injEq] at h
  obtain ⟨⟨lines', objects'⟩, hreport, hlines, hstore⟩ := h
  dsimp only at hlines hstore
  rw [hlines] at hreport
  have hreports := packageStatus.report_lines hreport hnodup
  refine ⟨hreports.length_eq.symm, ?_⟩
  intro k ptr line hptr hline
  obtain ⟨hk, hptr⟩ := List.getElem?_eq_some_iff.mp hptr
  obtain ⟨hk', hline⟩ := List.getElem?_eq_some_iff.mp hline
  have hreport := hreports.get hk hk'
  rw [List.get_eq_getElem, List.get_eq_getElem, hptr, hline] at hreport
  rw [← hstore]
  exact hreport.completed_iff (hmanaged ptr)

def managing (bpkg : BpkgObj) (file : Option Bytes) : PackageStore where
  packages := { managedArray := [some 1, none], size := 1 }
  objects := fun ptr => if ptr = 1 then some bpkg else none
  files := fun _ => file

def hexC : String := "2e7d2c03a9507ae265ecf5b5356885a53393a2029d241394997265a1a25aefc6"

def hexX : String := "2d711642b726b04401627ca9fbac32f5c8530fb1903cc4db02258717921a4881"

def managingBoth (first second : BpkgObj) : PackageStore where
  packages := { managedArray := [some 1, none, some 2], size := 2 }
  objects := fun ptr => if ptr = 1 then some first else if ptr = 2 then some second else none
  files := fun _ => some (ascii "cx")

def hashedObj (left : String) : BpkgObj :=
  { twoBytesObj "r" left hexX with
    tree := some {
      root :=
        .inner ⟨0, 0, ascii "r", none, []⟩
          (.leaf ⟨1, 1, ascii left, some 0, ascii hexC⟩) (.leaf ⟨2, 2, ascii hexX, some 0, ascii hexX⟩)
      nNodes := 3 } }

theorem reportable_of_emitted {bpkg : BpkgObj} {tree : MerkleTree} (hpos : bpkg.nhashes ≠ 0)
    (htree : bpkg.tree = some tree)
    (h : tree.root.emitted.head?.all (fun node => node.info.value != tree.root.info.value) = true)
    : bpkg.Reportable where
  single hzero := absurd hzero hpos
  partly := by
    intro _ tree' node htree' hnode
    rw [htree, Option.some.injEq] at htree'
    rw [← htree'] at hnode ⊢
    rw [hnode, Option.all_some] at h
    exact bne_iff_ne.mp h

theorem packageStatus_completed_two
    : ∃ lines store' first second,
        packageStatus (managingBoth (twoBytesObj "r" hexC hexX) (twoBytesObj "r" "l" hexX)) = .ok (lines, store')
          ∧ lines.map (·.completed) = [true, false]
          ∧ store'.objects 1 = some first
          ∧ store'.objects 2 = some second
          ∧ first.AllComplete
          ∧ ¬ second.AllComplete := by
  have hload (left : String) (h : bpkgLoad ⟨none, none, 7, 7, none, 7, none, none⟩
      (some (twoBytes "r" left hexX)) none = .ok (some (twoBytesObj "r" left hexX)))
      : (twoBytesObj "r" left hexX).Managed := twoBytesObj_managed h
  have hmanaged : ∀ ptr bpkg, (managingBoth (twoBytesObj "r" hexC hexX) (twoBytesObj "r" "l" hexX)).objects ptr
      = some bpkg → bpkg.Managed := by
    intro ptr bpkg hobject
    unfold managingBoth at hobject
    dsimp only at hobject
    split_ifs at hobject
    . rw [Option.some.injEq] at hobject
      rw [← hobject]
      exact hload hexC (by decide +kernel)
    . rw [Option.some.injEq] at hobject
      rw [← hobject]
      exact hload "l" (by decide +kernel)
  have hexec : ((packageStatus (managingBoth (twoBytesObj "r" hexC hexX)
      (twoBytesObj "r" "l" hexX))).toOption.map fun result =>
        (result.1.map (·.completed), result.2.objects 1, result.2.objects 2))
        = some ([true, false], some (hashedObj hexC), some (hashedObj "l")) := by
    decide +kernel
  obtain ⟨⟨lines, store'⟩, hstatus, heq⟩ := Option.map_eq_some_iff.mp hexec
  rw [toOption_eq_some] at hstatus
  simp only [Prod.mk.injEq] at heq
  obtain ⟨hcompleted, hfirst, hsecond⟩ := heq
  obtain ⟨_, hlines⟩ := packageStatus_completed_iff (by decide) hmanaged (by decide) hstatus
  obtain ⟨line, _, rfl, hline, htail⟩ := List.map_eq_cons_iff.mp hcompleted
  obtain ⟨line', _, rfl, hline', -⟩ := List.map_eq_cons_iff.mp htail
  refine ⟨_, store', _, _, hstatus, hcompleted, hfirst, hsecond, ?_, ?_⟩
  . obtain ⟨_, hobject, _, _, hiff⟩ := hlines 0 1 line rfl rfl
    rw [hfirst, Option.some.injEq] at hobject
    rw [← hobject] at hiff
    exact ((hiff rfl).mpr (reportable_of_emitted (by decide) rfl (by decide +kernel))).mp hline
  . obtain ⟨_, hobject, _, _, hiff⟩ := hlines 1 2 line' rfl rfl
    rw [hsecond, Option.some.injEq] at hobject
    rw [← hobject] at hiff
    intro hall
    have hcomplete := ((hiff rfl).mpr (reportable_of_emitted (by decide) rfl (by decide +kernel))).mpr hall
    rw [hline'] at hcomplete
    cases hcomplete

def oneByte : Bytes :=
  ascii "ident:a\nfilename:f\nsize:1\nnhashes:0\nhashes:\nnchunks:1\nchunks:\n\t" ++ digestC
    ++ ascii ",0,1\n"

def oneByteObj (computedHash : Bytes) : BpkgObj where
  ident := some (ascii "a")
  filename := some (ascii "f")
  size := 1
  nhashes := 0
  hashes := .ofList []
  nchunks := 1
  chunks := .ofList [⟨digestC, 0, 1, some 0⟩]
  tree := some { root := .leaf ⟨0, 0, digestC, none, computedHash⟩, nNodes := 1 }

/--
The only chunk is complete, but the root is a leaf and nothing is reported for it.
-/
theorem packageStatus_completed_fails
    : bpkgLoad ⟨none, none, 7, 7, none, 7, none, none⟩ (some oneByte) none = .ok (some (oneByteObj []))
        ∧ ((packageStatus (managing (oneByteObj []) (some (ascii "c")))).toOption.bind fun result =>
            (result.2.objects 1).map fun bpkg => (result.1, bpkg))
            =
          some ([⟨some (ascii "a"), some (ascii "f"), false⟩], oneByteObj digestC)
        ∧ (oneByteObj digestC).AllComplete := by
  refine ⟨by decide +kernel, by decide +kernel, ?_⟩
  rintro chunk ⟨entries, j, hentries, hj, hget⟩
  have hzero : j = 0 := by
    have hone : (oneByteObj digestC).nchunks.toNat = 1 := rfl
    omega
  simp only [oneByteObj, PtrArray.ofList, Option.some.injEq] at hentries
  rw [← hentries, hzero] at hget
  simp only [List.map_cons, List.getElem?_cons_zero, Option.some.injEq] at hget
  rw [← hget]
  rfl

end PackageStore

end Btide
