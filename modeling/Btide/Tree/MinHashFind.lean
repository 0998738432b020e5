import Btide.Lib.Cover
import Btide.Tree.Traversal

/-!
This module contains the specification of `min_hash_find`: the strings it emits are those of the
maximal complete subtrees, which form the smallest cover of the complete leaves.
-/

open CLib

namespace Btide

open MerkleTreeNode

namespace NodeInfo

def complete (info : NodeInfo) : Bool :=
  info.computedHash == info.value

end NodeInfo

namespace MerkleTreeNode

def complete (t : MerkleTreeNode) : Bool :=
  t.leaves.all (·.complete)

/--
The maximal complete subtrees from left to right.
-/
def cover : MerkleTreeNode → List MerkleTreeNode
  | leaf info => if (leaf info).complete then [leaf info] else []
  | inner info left right =>
    if (inner info left right).complete then
      [inner info left right]
    else
      left.cover ++ right.cover

def pending (t : MerkleTreeNode) : List MerkleTreeNode :=
  if t.complete then [t] else []

def emitted : MerkleTreeNode → List MerkleTreeNode
  | leaf _ => []
  | inner info left right =>
    if (inner info left right).complete then
      []
    else
      left.emitted ++ right.emitted ++ (left.pending ++ right.pending)

theorem complete_leaf (info : NodeInfo) : (leaf info).complete = info.complete := by
  simp [complete]

theorem complete_inner (info : NodeInfo) (left right : MerkleTreeNode)
    : (inner info left right).complete = (left.complete && right.complete) := by
  simp [complete]

theorem emitted_of_complete {t : MerkleTreeNode} (h : t.complete = true) : t.emitted = [] := by
  cases t with
  | leaf info => rfl
  | inner info left right => simp [emitted, h]

theorem emitted_pending_perm (t : MerkleTreeNode) : (t.emitted ++ t.pending).Perm t.cover := by
  induction t with
  | leaf info => exact List.Perm.refl _
  | inner info left right ihl ihr =>
    unfold emitted pending cover
    split
    . exact List.Perm.refl _
    . rw [List.append_nil]
      have hswap : (left.emitted ++ right.emitted ++ (left.pending ++ right.pending)).Perm
          ((left.emitted ++ left.pending) ++ (right.emitted ++ right.pending)) := by
        rw [List.append_assoc, List.append_assoc]
        apply List.Perm.append_left
        rw [← List.append_assoc, ← List.append_assoc]
        exact List.Perm.append_right _ List.perm_append_comm
      exact hswap.trans (ihl.append ihr)

def IsParentOf : MerkleTreeNode → MerkleTreeNode → Prop
  | leaf _, _ => False
  | inner _ left right, t => t = left ∨ t = right

theorem IsParentOf.mem_subtrees {s t : MerkleTreeNode} (h : s.IsParentOf t) : t ∈ s.subtrees := by
  cases s with
  | leaf info => exact h.elim
  | inner info left right =>
    cases h with
    | inl h => simp [h, self_mem_subtrees]
    | inr h => simp [h, self_mem_subtrees]

theorem leaves_subset {s t : MerkleTreeNode} (hs : s ∈ t.subtrees) {info : NodeInfo}
    (h : info ∈ s.leaves) : info ∈ t.leaves := by
  rw [mem_leaves] at *
  exact subtrees_trans h hs

theorem complete_of_mem {s t : MerkleTreeNode} (h : t.complete = true) (hs : s ∈ t.subtrees)
    : s.complete = true := by
  unfold complete at *
  rw [List.all_eq_true] at *
  intro info hinfo
  exact h info (leaves_subset hs hinfo)

theorem mem_cover {t m : MerkleTreeNode}
    : m ∈ t.cover
        ↔
      m ∈ t.subtrees
        ∧ m.complete = true
        ∧ (m = t ∨ ∃ q ∈ t.subtrees, q.IsParentOf m ∧ q.complete = false) := by
  constructor
  . intro h
    induction t with
    | leaf info =>
      unfold cover at h
      split at h
      . next hc =>
        rw [List.mem_singleton] at h
        rw [h]
        exact ⟨self_mem_subtrees _, hc, .inl rfl⟩
      . simp at h
    | inner info left right ihl ihr =>
      unfold cover at h
      split at h
      . next hc =>
        rw [List.mem_singleton] at h
        rw [h]
        exact ⟨self_mem_subtrees _, hc, .inl rfl⟩
      . next hc =>
        have hself := self_mem_subtrees (inner info left right)
        have hfalse : (inner info left right).complete = false := by simpa using hc
        rw [List.mem_append] at h
        cases h with
        | inl h =>
          obtain ⟨hm, hmc, hq⟩ := ihl h
          refine ⟨by simp [hm], hmc, .inr ?_⟩
          rcases hq with heq | ⟨q, hq, hparent, hqc⟩
          . exact ⟨_, hself, .inl heq, hfalse⟩
          . exact ⟨q, by simp [hq], hparent, hqc⟩
        | inr h =>
          obtain ⟨hm, hmc, hq⟩ := ihr h
          refine ⟨by simp [hm], hmc, .inr ?_⟩
          rcases hq with heq | ⟨q, hq, hparent, hqc⟩
          . exact ⟨_, hself, .inr heq, hfalse⟩
          . exact ⟨q, by simp [hq], hparent, hqc⟩
  . rintro ⟨hm, hmc, hq⟩
    induction t with
    | leaf info =>
      rw [subtrees_leaf, List.mem_singleton] at hm
      rw [hm] at hmc
      simp [cover, hmc, hm]
    | inner info left right ihl ihr =>
      unfold cover
      split
      . next hc =>
        rw [List.mem_singleton]
        rcases hq with heq | ⟨q, hq, _, hqc⟩
        . exact heq
        . have := complete_of_mem hc hq
          rw [hqc] at this
          contradiction
      . next hc =>
        rw [List.mem_append]
        rcases hq with heq | ⟨q, hq, hparent, hqc⟩
        . rw [heq] at hmc
          contradiction
        . simp only [subtrees_inner, List.mem_cons, List.mem_append] at hq
          rcases hq with heq | hq | hq
          . rw [heq] at hparent
            cases hparent with
            | inl h => exact .inl (ihl (h ▸ self_mem_subtrees _) (.inl h))
            | inr h => exact .inr (ihr (h ▸ self_mem_subtrees _) (.inl h))
          . exact .inl (ihl (subtrees_trans hparent.mem_subtrees hq) (.inr ⟨q, hq, hparent, hqc⟩))
          . exact .inr (ihr (subtrees_trans hparent.mem_subtrees hq) (.inr ⟨q, hq, hparent, hqc⟩))

theorem exists_cover {t s : MerkleTreeNode} (hs : s ∈ t.subtrees) (hc : s.complete = true)
    : ∃ m ∈ t.cover, s ∈ m.subtrees := by
  induction t with
  | leaf info =>
    rw [subtrees_leaf, List.mem_singleton] at hs
    rw [hs] at hc
    rw [hs]
    exact ⟨leaf info, by simp [cover, hc], self_mem_subtrees _⟩
  | inner info left right ihl ihr =>
    unfold cover
    split
    . exact ⟨_, List.mem_singleton_self _, hs⟩
    . next hroot =>
      simp only [subtrees_inner, List.mem_cons, List.mem_append] at hs
      rcases hs with heq | hs | hs
      . rw [heq] at hc
        contradiction
      . obtain ⟨m, hm, hsm⟩ := ihl hs
        exact ⟨m, List.mem_append_left _ hm, hsm⟩
      . obtain ⟨m, hm, hsm⟩ := ihr hs
        exact ⟨m, List.mem_append_right _ hm, hsm⟩

theorem cover_sublist (t : MerkleTreeNode) : t.cover.Sublist t.subtrees := by
  induction t with
  | leaf info =>
    unfold cover
    split
    . exact List.Sublist.refl _
    . exact List.nil_sublist _
  | inner info left right ihl ihr =>
    unfold cover
    split
    . rw [List.singleton_sublist]
      exact self_mem_subtrees _
    . rw [subtrees_inner]
      exact List.Sublist.cons _ (ihl.append ihr)

theorem length_cover_le (t : MerkleTreeNode) : t.cover.length ≤ t.leaves.length := by
  induction t with
  | leaf info =>
    unfold cover
    split
    . simp
    . simp
  | inner info left right ihl ihr =>
    unfold cover
    split
    . exact List.length_pos_of_ne_nil (leaves_ne_nil _)
    . rw [List.length_append, leaves_inner, List.length_append]
      omega

def leafSet (t : MerkleTreeNode) : Set NodeInfo :=
  {info | info ∈ t.leaves}

def completeLeaves (t : MerkleTreeNode) : Set NodeInfo :=
  {info | info ∈ t.leaves ∧ info.complete = true}

theorem leafSet_subset_completeLeaves {s t : MerkleTreeNode} (hs : s ∈ t.subtrees)
    : s.leafSet ⊆ t.completeLeaves ↔ s.complete = true := by
  unfold complete
  rw [List.all_eq_true]
  constructor
  . intro h info hinfo
    exact (h hinfo).2
  . intro h info hinfo
    exact ⟨leaves_subset hs hinfo, h info hinfo⟩

theorem cover_unique {t m m' : MerkleTreeNode} (hnodup : t.leaves.Nodup) (hm : m ∈ t.cover)
    (hm' : m' ∈ t.cover) {info : NodeInfo} (h : info ∈ m.leaves) (h' : info ∈ m'.leaves)
    : m = m' := by
  induction t with
  | leaf leafInfo =>
    unfold cover at hm hm'
    split at hm
    . rw [List.mem_singleton] at hm
      simp_all
    . simp at hm
  | inner _ left right ihl ihr =>
    rw [leaves_inner, List.nodup_append] at hnodup
    obtain ⟨hnl, hnr, hdisjoint⟩ := hnodup
    unfold cover at hm hm'
    split at hm
    . simp_all
    . next hc =>
      simp only [hc, Bool.false_eq_true, ↓reduceIte, List.mem_append] at hm hm'
      have hin {s : MerkleTreeNode} (hs : s ∈ left.cover ∨ s ∈ right.cover) (hinfo : info ∈ s.leaves)
          : (s ∈ left.cover ∧ info ∈ left.leaves) ∨ (s ∈ right.cover ∧ info ∈ right.leaves) := by
        cases hs with
        | inl hs => exact .inl ⟨hs, leaves_subset (mem_cover.mp hs).1 hinfo⟩
        | inr hs => exact .inr ⟨hs, leaves_subset (mem_cover.mp hs).1 hinfo⟩
      rcases hin hm h with ⟨hm, hl⟩ | ⟨hm, hr⟩
      . rcases hin hm' h' with ⟨hm', _⟩ | ⟨_, hr⟩
        . exact ihl hnl hm hm'
        . exact absurd rfl (hdisjoint info hl info hr)
      . rcases hin hm' h' with ⟨_, hl⟩ | ⟨hm', _⟩
        . exact absurd rfl (hdisjoint info hl info hr)
        . exact ihr hnr hm hm'

theorem exactCover_cover {t : MerkleTreeNode} (hnodup : t.leaves.Nodup)
    : ExactCover leafSet t.completeLeaves t.cover.toFinset := by
  constructor
  . rintro info ⟨hinfo, hc⟩
    have hleaf : (leaf info).complete = true := by rw [complete_leaf, hc]
    obtain ⟨m, hm, hmem⟩ := exists_cover (mem_leaves.mp hinfo) hleaf
    refine ⟨m, ⟨List.mem_toFinset.mpr hm, mem_leaves.mpr hmem⟩, ?_⟩
    rintro m' ⟨hm', hinfo'⟩
    rw [List.mem_toFinset] at hm'
    exact cover_unique hnodup hm' hm hinfo' (mem_leaves.mpr hmem)
  . intro m hm
    rw [List.mem_toFinset, mem_cover] at hm
    exact (leafSet_subset_completeLeaves hm.1).mpr hm.2.1

theorem length_cover_min {t : MerkleTreeNode} (hleaves : t.leaves.Nodup)
    (hsubtrees : t.subtrees.Nodup) {S : Finset MerkleTreeNode} (hS : ∀ s ∈ S, s ∈ t.subtrees)
    (hcover : ExactCover leafSet t.completeLeaves S)
    : t.cover.length ≤ S.card := by
  have hnodup := t.cover_sublist.nodup hsubtrees
  rw [← List.toFinset_card_of_nodup hnodup]
  apply (exactCover_cover hleaves).card_le hcover
  . intro m _
    exact List.exists_mem_of_ne_nil _ m.leaves_ne_nil
  . intro s hs
    have hc := (leafSet_subset_completeLeaves (hS s hs)).mp (hcover.sound s hs)
    obtain ⟨m, hm, hsm⟩ := exists_cover (hS s hs) hc
    exact ⟨m, List.mem_toFinset.mpr hm, fun info hinfo => leaves_subset hsm hinfo⟩

def assignComputed (computed : NodePtr → Bytes) : MerkleTreeNode → MerkleTreeNode
  | leaf info => leaf { info with computedHash := computed info.ptr }
  | inner info left right =>
    inner info (left.assignComputed computed) (right.assignComputed computed)

section
variable (computed : NodePtr → Bytes)

@[simp]
theorem assignComputed_ptrs (t : MerkleTreeNode) : (t.assignComputed computed).ptrs = t.ptrs := by
  induction t with
  | leaf info => rfl
  | inner info left right ihl ihr => simp [assignComputed, ihl, ihr]

@[simp]
theorem assignComputed_length_leaves (t : MerkleTreeNode)
    : (t.assignComputed computed).leaves.length = t.leaves.length := by
  induction t with
  | leaf info => rfl
  | inner info left right ihl ihr => simp [assignComputed, ihl, ihr]

theorem assignComputed_built {n i : Nat} {value : Nat → Bytes} {parent : Option NodePtr}
    {t : MerkleTreeNode} (h : t.Built n value parent i)
    : (t.assignComputed computed).Built n value parent i := by
  induction t generalizing parent i with
  | leaf info => exact ⟨h.1, h.2.key, h.2.parent, h.2.value⟩
  | inner info left right ihl ihr => exact ⟨h.1, h.2.1, ihl h.2.2.1, ihr h.2.2.2⟩

end

def Parented : MerkleTreeNode → Prop
  | leaf _ => True
  | inner info left right =>
    left.info.parent = some info.ptr ∧ right.info.parent = some info.ptr ∧ left.Parented ∧ right.Parented

theorem Built.parented {n i : Nat} {value : Nat → Bytes} {parent : Option NodePtr} {t : MerkleTreeNode}
    (h : t.Built n value parent i) : t.Parented := by
  induction t generalizing parent i with
  | leaf info => exact trivial
  | inner info left right ihl ihr =>
    obtain ⟨_, _, hl, hr⟩ := h
    exact ⟨hl.stores.parent, hr.stores.parent, ihl hl, ihr hr⟩

theorem nodup_leaves {t : MerkleTreeNode} (h : t.ptrs.Nodup) : t.leaves.Nodup := by
  have hsubtrees : t.subtrees.Nodup := h.of_map
  have hinorder := t.inorder_perm.nodup_iff.mpr hsubtrees
  rw [← leaves_eq_inorder]
  apply List.Nodup.map_on _ (hinorder.filter _)
  intro a ha b hb heq
  rw [List.mem_filter, t.inorder_perm.mem_iff] at ha hb
  exact List.inj_on_of_nodup_map h ha.1 hb.1 (by rw [heq])

end MerkleTreeNode

namespace minHashFind

theorem inner_eq {info : NodeInfo} {left right : MerkleTreeNode} {buf buf₁ buf₂ : HashBuf}
    (hl : minHashFind left buf = .ok (left.complete, buf₁))
    (hr : minHashFind right buf₁ = .ok (right.complete, buf₂))
    (hroom : buf₂.hashes.length < buf₂.cap)
    : minHashFind (.inner info left right) buf
        =
      .ok ((inner info left right).complete,
        buf₂.append
          (((if (inner info left right).complete then
              if info.parent = none then [inner info left right] else []
            else
              left.pending ++ right.pending).map (·.info.value)))) := by
  unfold minHashFind
  rw [hl]
  dsimp only [bind, Except.bind]
  rw [hr]
  dsimp only
  rw [complete_inner]
  cases hlc : left.complete with
  | true =>
    cases hrc : right.complete with
    | true =>
      by_cases hparent : info.parent = none
      . simp [hparent, HashBuf.push_eq hroom, pure, Except.pure, MerkleTreeNode.info]
      . simp [hparent, pure, Except.pure]
    | false => simp [pending, hlc, hrc, HashBuf.push_eq hroom, pure, Except.pure]
  | false =>
    cases hrc : right.complete with
    | true => simp [pending, hlc, hrc, HashBuf.push_eq hroom, pure, Except.pure]
    | false => simp [pending, hlc, hrc, pure, Except.pure]

theorem length_emitted_lt (t : MerkleTreeNode) : t.emitted.length < t.leaves.length := by
  induction t with
  | leaf info => simp [emitted]
  | inner info left right ihl ihr =>
    have hpos := List.length_pos_of_ne_nil (leaves_ne_nil (.inner info left right))
    unfold emitted
    split
    . exact hpos
    . next hc =>
      rw [complete_inner] at hc
      have hpending : left.pending.length + right.pending.length ≤ 1 := by
        unfold pending
        cases hlc : left.complete with
        | true => simp_all
        | false =>
          cases hrc : right.complete with
          | true => simp
          | false => simp
      simp only [List.length_append, leaves_inner]
      omega

theorem inner_spec {info : NodeInfo} {left right : MerkleTreeNode} {buf : HashBuf}
    (hroom : buf.hashes.length + (MerkleTreeNode.inner info left right).leaves.length ≤ buf.cap)
    (hl : ∀ {buf : HashBuf}, buf.hashes.length + left.leaves.length ≤ buf.cap →
      minHashFind left buf = .ok (left.complete, buf.append (left.emitted.map (·.info.value))))
    (hr : ∀ {buf : HashBuf}, buf.hashes.length + right.leaves.length ≤ buf.cap →
      minHashFind right buf = .ok (right.complete, buf.append (right.emitted.map (·.info.value))))
    : minHashFind (.inner info left right) buf
        =
      .ok ((inner info left right).complete,
        buf.append
          (((inner info left right).emitted ++
            if info.parent = none then (inner info left right).pending else []).map
              (·.info.value))) := by
  have hll := length_emitted_lt left
  have hrl := length_emitted_lt right
  rw [leaves_inner, List.length_append] at hroom
  rw [inner_eq (hl (by omega)) (hr _)]
  . have hemitted : (inner info left right).emitted
        = if (inner info left right).complete then
            []
          else
            left.emitted ++ right.emitted ++ (left.pending ++ right.pending) := rfl
    have hpending : (inner info left right).pending
        = if (inner info left right).complete then [inner info left right] else [] := rfl
    rw [hemitted, hpending]
    simp only [HashBuf.append_append]
    cases hc : (inner info left right).complete with
    | true =>
      rw [complete_inner, Bool.and_eq_true] at hc
      simp [emitted_of_complete hc.1, emitted_of_complete hc.2]
    | false => simp
  . simp only [HashBuf.append_append, HashBuf.append_hashes, HashBuf.append_cap,
      List.length_append, List.length_map]
    omega
  . simp only [HashBuf.append_hashes, HashBuf.append_cap, List.length_append, List.length_map]
    omega

theorem below_root {t : MerkleTreeNode} {buf : HashBuf} (h : t.Parented) (hparent : t.info.parent ≠ none)
    (hroom : buf.hashes.length + t.leaves.length ≤ buf.cap)
    : minHashFind t buf = .ok (t.complete, buf.append (t.emitted.map (·.info.value))) := by
  induction t generalizing buf with
  | leaf info =>
    rw [complete_leaf]
    simp [minHashFind, NodeInfo.complete, emitted, pure, Except.pure, beq_eq_decide]
  | inner info left right ihl ihr =>
    obtain ⟨hl, hr, hleft, hright⟩ := h
    have hinfo : info.parent ≠ none := hparent
    rw [inner_spec hroom (ihl hleft (by simp [hl])) (ihr hright (by simp [hr]))]
    simp [hinfo]

-- the root itself is only emitted if it has children
theorem root {t : MerkleTreeNode} {buf : HashBuf} (h : t.Parented) (hparent : t.info.parent = none)
    (hroom : buf.hashes.length + t.leaves.length ≤ buf.cap)
    : minHashFind t buf
        =
      .ok (t.complete,
        buf.append ((t.emitted ++ if t.isLeaf then [] else t.pending).map (·.info.value))) := by
  cases t with
  | leaf info =>
    rw [complete_leaf]
    simp [minHashFind, NodeInfo.complete, emitted, isLeaf, pure, Except.pure, beq_eq_decide]
  | inner info left right =>
    obtain ⟨hl, hr, hleft, hright⟩ := h
    have hinfo : info.parent = none := hparent
    rw [inner_spec hroom (below_root hleft (by simp [hl])) (below_root hright (by simp [hr]))]
    simp [hinfo, isLeaf]

end minHashFind

theorem minHashFind_minimal_cover {hashes : List Bytes} {chunks : List Chunk} {tree : MerkleTree}
    {chunks' : PtrArray Chunk} (hn : 1 ≤ hashes.length) (hlen : chunks.length = hashes.length + 1)
    (hload : createTree (.ofList hashes) hashes.length (.ofList chunks) chunks.length
      = .ok (tree, chunks'))
    (computed : NodePtr → Bytes) (root : MerkleTreeNode)
    (hroot : root = tree.root.assignComputed computed)
    : ∃ nodes : List MerkleTreeNode,
        minHashFind root (.alloc chunks.length)
            =
          .ok (root.complete, HashBuf.append (.alloc chunks.length) (nodes.map (·.info.value)))
          ∧ nodes.Nodup
          ∧ (∀ m,
              m ∈ nodes
                ↔
              m ∈ root.subtrees
                ∧ m.complete = true
                ∧ (m = root ∨ ∃ q ∈ root.subtrees, q.IsParentOf m ∧ q.complete = false))
          ∧ ExactCover leafSet root.completeLeaves nodes.toFinset
          ∧ (∀ S : Finset MerkleTreeNode,
              (∀ s ∈ S, s ∈ root.subtrees)
                →
              ExactCover leafSet root.completeLeaves S
                →
              nodes.length ≤ S.card)
          ∧ nodes.length ≤ chunks.length := by
  have hbound := length_lt_of_createTree hlen hload
  obtain ⟨base, hspec, hbuilt, hptrs, _⟩ := createTree_spec hbound hlen
  rw [hload, Except.ok.injEq, Prod.mk.injEq] at hspec
  rw [hspec.1] at hroot
  dsimp only at hroot
  have hleaves : root.leaves.length = chunks.length := by
    have hcount := base.length_subtrees_leaves
    rw [hbuilt.length_subtrees] at hcount
    rw [hroot, assignComputed_length_leaves]
    omega
  have hrootPtrs : root.ptrs.Nodup := by
    rw [hroot, assignComputed_ptrs, hptrs]
    exact List.nodup_range
  have hsubtrees : root.subtrees.Nodup := hrootPtrs.of_map
  have hrootBuilt := assignComputed_built computed hbuilt
  rw [← hroot] at hrootBuilt
  have hperm := root.emitted_pending_perm
  have hnodup : (root.emitted ++ root.pending).Nodup :=
    hperm.nodup_iff.mpr (root.cover_sublist.nodup hsubtrees)
  have hfinset : (root.emitted ++ root.pending).toFinset = root.cover.toFinset :=
    List.toFinset_eq_of_perm _ _ hperm
  refine ⟨root.emitted ++ root.pending, ?_, hnodup, ?_, ?_, ?_, ?_⟩
  . have hinner : root.isLeaf = false := by
      rw [← Bool.not_eq_true, hrootBuilt.isLeaf_iff]
      omega
    rw [minHashFind.root hrootBuilt.parented hrootBuilt.stores.parent (by simp [hleaves]), hinner]
    rfl
  . intro m
    rw [hperm.mem_iff, mem_cover]
  . rw [hfinset]
    exact exactCover_cover (nodup_leaves hrootPtrs)
  . intro S hS hcover
    rw [hperm.length_eq]
    exact length_cover_min (nodup_leaves hrootPtrs) hsubtrees hS hcover
  . rw [hperm.length_eq, ← hleaves]
    exact root.length_cover_le

theorem minHashFind_minimal_cover_three
    : ∃ root : MerkleTreeNode, ∃ nodes : List MerkleTreeNode,
        minHashFind root (.alloc 3)
            =
          .ok (root.complete, HashBuf.append (.alloc 3) (nodes.map (·.info.value)))
          ∧ nodes.length ≤ 3 := by
  have hlen : [(⟨[3], 0, 1, none⟩ : Chunk), ⟨[4], 1, 1, none⟩, ⟨[5], 2, 1, none⟩].length
      = [([1] : Bytes), [2]].length + 1 := rfl
  obtain ⟨base, hload, _⟩ := createTree_spec (by decide) hlen
  obtain ⟨nodes, hnodes, _, _, _, _, hle⟩ :=
    minHashFind_minimal_cover (by decide) hlen hload (fun ptr => if ptr = 2 then [4] else [5]) _ rfl
  exact ⟨_, nodes, hnodes, hle⟩

end Btide
