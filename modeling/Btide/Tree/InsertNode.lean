import Btide.Tree.Shape

/-!
This module contains the specification of `insert_node` and `create_tree`.
-/

open CLib HeapTree

namespace Btide

open MerkleTreeNode

namespace PtrArray

def ofList (entries : List α) : PtrArray α :=
  some (entries.map some)

theorem load_some {entries : List (Option α)} {i : Nat} {entry : Option α}
    (h : entries[i]? = some entry) : load (some entries) i = .ok entry := by
  have hi : ¬ ((i : Int) < 0) := by omega
  simp only [load, deref_some, bind, Except.bind, hi, ↓reduceIte, Int.toNat_natCast, h]
  rfl

theorem load_eq_ok {arr : PtrArray α} {i : Int} {entry : Option α}
    : arr.load i = .ok entry ↔ 0 ≤ i ∧ ∃ entries, arr = some entries ∧ entries[i.toNat]? = some entry := by
  unfold load
  simp only [bind_eq_ok, deref_eq_ok]
  by_cases hneg : i < 0
  . simp [hneg, throw, throwThe, MonadExceptOf.throw, bind, Except.bind]
  . have hpos : 0 ≤ i := by omega
    simp only [hneg, hpos, ↓reduceIte, true_and]
    apply exists_congr
    intro entries
    apply and_congr_right
    intro _
    cases entries[i.toNat]? with
    | none => simp [throw, throwThe, MonadExceptOf.throw]
    | some found => simp [pure, Except.pure]

theorem load_ofList {entries : List α} {i : Nat} {a : α} (h : entries[i]? = some a)
    : (ofList entries).load i = .ok (some a) := by
  apply load_some
  rw [List.getElem?_map, h]
  rfl

end PtrArray

/--
The assignments `chunks[key - n]->node_ptr = leaf` for a list of leaves.
-/
def linkChunks (n : Nat) (leaves : List NodeInfo) (chunks : List Chunk) : List Chunk :=
  leaves.foldl
    (fun chunks info =>
      chunks.modify (info.key - n) fun chunk => { chunk with nodePtr := some info.ptr })
    chunks

namespace linkChunks

@[simp]
theorem nil (n : Nat) (chunks : List Chunk) : linkChunks n [] chunks = chunks := rfl

@[simp]
theorem cons (n : Nat) (info : NodeInfo) (leaves : List NodeInfo) (chunks : List Chunk)
    : linkChunks n (info :: leaves) chunks
        =
      linkChunks n leaves
        (chunks.modify (info.key - n) fun chunk => { chunk with nodePtr := some info.ptr }) := rfl

@[simp]
theorem append (n : Nat) (front back : List NodeInfo) (chunks : List Chunk)
    : linkChunks n (front ++ back) chunks = linkChunks n back (linkChunks n front chunks) := by
  simp [linkChunks]

@[simp]
theorem length (n : Nat) (leaves : List NodeInfo) (chunks : List Chunk)
    : (linkChunks n leaves chunks).length = chunks.length := by
  induction leaves generalizing chunks with
  | nil => rfl
  | cons info leaves ih => rw [cons, ih, List.length_modify]

theorem map_eq {f : Chunk → β} (hf : ∀ chunk ptr, f { chunk with nodePtr := ptr } = f chunk)
    (n : Nat) (leaves : List NodeInfo) (chunks : List Chunk)
    : (linkChunks n leaves chunks).map f = chunks.map f := by
  induction leaves generalizing chunks with
  | nil => rfl
  | cons info leaves ih =>
    rw [cons, ih]
    apply List.ext_getElem?
    intro j
    simp only [List.getElem?_map, List.getElem?_modify]
    cases chunks[j]? with
    | none => rfl
    | some chunk =>
      simp only [Option.map_eq_map, Option.map_some]
      split
      . rw [hf]
      . rfl

theorem map_hash (n : Nat) (leaves : List NodeInfo) (chunks : List Chunk)
    : (linkChunks n leaves chunks).map Chunk.hash = chunks.map Chunk.hash :=
  map_eq (fun _ _ => rfl) n leaves chunks

theorem getElem?_of_not_mem {n j : Nat} {leaves : List NodeInfo} (chunks : List Chunk)
    (h : ∀ info ∈ leaves, info.key - n ≠ j)
    : (linkChunks n leaves chunks)[j]? = chunks[j]? := by
  induction leaves generalizing chunks with
  | nil => rfl
  | cons info leaves ih =>
    rw [cons, ih]
    . rw [List.getElem?_modify]
      have := h info (by simp)
      simp [this]
    . intro other hmem
      exact h other (by simp [hmem])

theorem getElem?_of_mem {n : Nat} {leaves : List NodeInfo} {info : NodeInfo} (chunks : List Chunk)
    (hnodup : (leaves.map (·.key - n)).Nodup) (hmem : info ∈ leaves)
    : (linkChunks n leaves chunks)[info.key - n]?
        =
      chunks[info.key - n]?.map fun chunk => { chunk with nodePtr := some info.ptr } := by
  induction leaves generalizing chunks with
  | nil => simp at hmem
  | cons other leaves ih =>
    rw [List.map_cons, List.nodup_cons] at hnodup
    rw [List.mem_cons] at hmem
    rw [cons]
    cases hmem with
    | inl heq =>
      rw [getElem?_of_not_mem, heq, List.getElem?_modify]
      . simp
      . intro info' hmem' hkey
        apply hnodup.1
        rw [List.mem_map]
        exact ⟨info', hmem', by rw [hkey, heq]⟩
    | inr hmem =>
      rw [ih _ hnodup.2 hmem, List.getElem?_modify]
      have : other.key - n ≠ info.key - n := by
        intro hkey
        apply hnodup.1
        rw [List.mem_map]
        exact ⟨info, hmem, hkey.symm⟩
      simp [this]

end linkChunks

def valueOf (hashes chunkHashes : List Bytes) (i : Nat) : Bytes :=
  (hashes ++ chunkHashes).getD i []

theorem valueOf_lt {hashes : List Bytes} {i : Nat} (h : i < hashes.length)
    (chunkHashes : List Bytes)
    : hashes[i]? = some (valueOf hashes chunkHashes i) := by
  simp [valueOf, List.getElem?_append, h]

theorem valueOf_ge {hashes chunkHashes : List Bytes} {i : Nat} (h : hashes.length ≤ i)
    (hi : i < hashes.length + chunkHashes.length)
    : chunkHashes[i - hashes.length]? = some (valueOf hashes chunkHashes i) := by
  have hlt : i - hashes.length < chunkHashes.length := by omega
  simp [valueOf, List.getElem?_append_right h, hlt]

theorem map_valueOf (hashes chunkHashes : List Bytes)
    : (List.range (hashes.length + chunkHashes.length)).map (valueOf hashes chunkHashes)
        =
      hashes ++ chunkHashes := by
  apply List.ext_getElem?
  intro i
  rw [List.getElem?_map]
  by_cases h : i < hashes.length + chunkHashes.length
  . simp [valueOf, h]
  . have : (hashes ++ chunkHashes).length ≤ i := by
      rw [List.length_append]
      omega
    rw [List.getElem?_eq_none this, List.getElem?_eq_none (by simpa using h)]
    rfl

namespace insertNode

theorem eq_inner {hashes : List Bytes} {value : Bytes} {parent : Option NodePtr} {i next : Nat}
    {chunks : PtrArray Chunk} (hi : i < hashes.length) (hn : hashes.length < 2 ^ 30)
    (hvalue : hashes[i]? = some value)
    : insertNode (.ofList hashes) hashes.length parent i ⟨next, chunks⟩ = (do
        let (left, st) ←
          insertNode (.ofList hashes) hashes.length (some next) (2 * i + 1) ⟨next + 1, chunks⟩
        let (right, st) ←
          insertNode (.ofList hashes) hashes.length (some next) (2 * i + 2) st
        return (.inner ⟨next, i, value, parent, []⟩ left right, st)) := by
  have hi' : (i : Int) < hashes.length := by omega
  conv => lhs; unfold insertNode
  simp only [hi', ↓reduceDIte, PtrArray.load_ofList hvalue]
  rw [intOfNat_of_le (by unfold INT_MAX; omega)]
  dsimp only [bind, Except.bind]
  rw [intOfNat_of_le (by unfold INT_MAX; omega)]

theorem eq_leaf {hashes : PtrArray Bytes} {n : Nat} {parent : Option NodePtr} {i next : Nat}
    {chunks : List Chunk} {chunk : Chunk} (hi : n ≤ i) (hchunk : chunks[i - n]? = some chunk)
    : insertNode hashes n parent i ⟨next, .ofList chunks⟩
        =
      .ok (.leaf ⟨next, i, chunk.hash, parent, []⟩,
        ⟨next + 1, .ofList (linkChunks n [⟨next, i, chunk.hash, parent, []⟩] chunks)⟩) := by
  have hi' : ¬ (i : Int) < n := by omega
  have hsub : (i : Int) - n = (i - n : Nat) := by omega
  have hset : (chunks.map some).set (i - n) (some { chunk with nodePtr := some next })
      = (linkChunks n [⟨next, i, chunk.hash, parent, []⟩] chunks).map some := by
    apply List.ext_getElem?
    intro j
    rw [linkChunks.cons, linkChunks.nil, List.getElem?_map, List.getElem?_modify,
      List.getElem?_set]
    by_cases hj : i - n = j
    . have := (List.getElem?_eq_some_iff.mp hchunk).1
      rw [← hj, hchunk]
      simp [this]
    . simp [hj]
  unfold insertNode
  simp only [hi', ↓reduceDIte, hsub, PtrArray.load_ofList hchunk]
  simp only [PtrArray.ofList, ← hset]
  rfl

end insertNode

theorem insertNode_spec {hashes chunkHashes : List Bytes} (hn : hashes.length < 2 ^ 30)
    (hlen : chunkHashes.length = hashes.length + 1) {i : Nat} (hi : i ≤ 2 * hashes.length)
    {chunks : List Chunk} (hchunks : chunks.map Chunk.hash = chunkHashes)
    (parent : Option NodePtr) (next : Nat)
    : ∃ t,
        insertNode (.ofList hashes) hashes.length parent i ⟨next, .ofList chunks⟩
            =
          .ok (t, ⟨next + t.ptrs.length, .ofList (linkChunks hashes.length t.leaves chunks)⟩)
          ∧ t.Built hashes.length (valueOf hashes chunkHashes) parent i
          ∧ t.ptrs = List.range' next t.ptrs.length
          ∧ ∀ s ∈ t.subtrees, s.info.computedHash = [] := by
  by_cases hlt : i < hashes.length
  . have hvalue := valueOf_lt hlt chunkHashes
    obtain ⟨left, hleft, hbl, hpl, hcl⟩ :=
      insertNode_spec hn hlen (i := 2 * i + 1) (by omega) hchunks (some next) (next + 1)
    have hchunks' := linkChunks.map_hash hashes.length left.leaves chunks
    rw [hchunks] at hchunks'
    obtain ⟨right, hright, hbr, hpr, hcr⟩ :=
      insertNode_spec hn hlen (i := 2 * i + 2) (by omega) hchunks' (some next)
        (next + 1 + left.ptrs.length)
    refine ⟨.inner ⟨next, i, valueOf hashes chunkHashes i, parent, []⟩ left right, ?_, ?_, ?_, ?_⟩
    . have hnext : next + 1 + left.ptrs.length + right.ptrs.length
          = next + (left.ptrs.length + right.ptrs.length + 1) := by omega
      rw [insertNode.eq_inner hlt hn hvalue, hleft]
      dsimp only [bind, Except.bind]
      rw [hright]
      simp only [pure, Except.pure, ptrs_inner, leaves_inner, linkChunks.append, List.length_cons,
        List.length_append, hnext]
    . exact ⟨hlt, ⟨rfl, rfl, rfl⟩, hbl, hbr⟩
    . simp only [ptrs_inner, List.length_cons, List.length_append, List.range'_succ]
      congr 1
      conv => lhs; rw [hpl, hpr]
      rw [← List.range'_append_1]
    . intro s hs
      simp only [subtrees_inner, List.mem_cons, List.mem_append] at hs
      rcases hs with heq | hs | hs
      . rw [heq]
        rfl
      . exact hcl s hs
      . exact hcr s hs
  . have hge : hashes.length ≤ i := by omega
    have hvalue : chunkHashes[i - hashes.length]? = some (valueOf hashes chunkHashes i) :=
      valueOf_ge hge (by omega)
    rw [← hchunks, List.getElem?_map, Option.map_eq_some_iff] at hvalue
    obtain ⟨chunk, hchunk, hhash⟩ := hvalue
    refine ⟨_, insertNode.eq_leaf hge hchunk, ?_, rfl, ?_⟩
    . rw [hchunks] at hhash
      exact ⟨hge, ⟨rfl, rfl, hhash⟩⟩
    . intro s hs
      rw [subtrees_leaf, List.mem_singleton] at hs
      rw [hs]
      rfl
termination_by hashes.length - i

theorem createTree_spec {hashes : List Bytes} {chunks : List Chunk} (hn : hashes.length < 2 ^ 30)
    (hlen : chunks.length = hashes.length + 1)
    : ∃ root,
        createTree (.ofList hashes) hashes.length (.ofList chunks) chunks.length
            =
          .ok (⟨root, 2 * hashes.length + 1⟩, .ofList (linkChunks hashes.length root.leaves chunks))
          ∧ root.Built hashes.length (valueOf hashes (chunks.map Chunk.hash)) none 0
          ∧ root.ptrs = List.range (2 * hashes.length + 1)
          ∧ ∀ s ∈ root.subtrees, s.info.computedHash = [] := by
  obtain ⟨root, hroot, hbuilt, hptrs, hfresh⟩ :=
    insertNode_spec hn (by simpa using hlen) (Nat.zero_le _) (@rfl _ (chunks.map Chunk.hash)) none 0
  refine ⟨root, ?_, hbuilt, ?_, hfresh⟩
  . have hnodes : intAdd hashes.length chunks.length = .ok (2 * hashes.length + 1 : Int) := by
      have hsum : (hashes.length : Int) + chunks.length = 2 * hashes.length + 1 := by omega
      have hmax : 2 * (hashes.length : Int) + 1 ≤ INT_MAX := by
        unfold INT_MAX
        omega
      have hmin : - (INT_MAX : Int) - 1 ≤ 2 * hashes.length + 1 := by omega
      simp only [intAdd, hsum, hmin, hmax, and_self, ↓reduceIte]
    unfold createTree
    rw [hroot]
    simp only [bind, Except.bind, pure, Except.pure, hnodes]
  . have hlength : root.ptrs.length = 2 * hashes.length + 1 := by
      rw [ptrs, List.length_map, hbuilt.length_subtrees]
    rw [hlength] at hptrs
    rw [hptrs, List.range_eq_range']

theorem length_lt_of_createTree {hashes : List Bytes} {chunks : List Chunk}
    {res : MerkleTree × PtrArray Chunk} (hlen : chunks.length = hashes.length + 1)
    (h : createTree (.ofList hashes) hashes.length (.ofList chunks) chunks.length = .ok res)
    : hashes.length < 2 ^ 30 := by
  unfold createTree at h
  cases hroot : insertNode (.ofList hashes) hashes.length none 0 ⟨0, .ofList chunks⟩ with
  | error e => simp [hroot, bind, Except.bind] at h
  | ok r =>
    simp only [hroot, bind, Except.bind] at h
    by_cases hmax : (hashes.length : Int) + chunks.length ≤ INT_MAX
    . unfold INT_MAX at hmax
      omega
    . simp [intAdd, hmax] at h

theorem leaf_of_key {n j : Nat} {value : Nat → Bytes} {root : MerkleTreeNode}
    (hbuilt : root.Built n value none 0) (hj : j ≤ n)
    : ∃ info ∈ root.leaves, info.key = n + j ∧ info.value = value (n + j) := by
  have hkey : n + j ∈ root.keys := by
    rw [hbuilt.mem_keys (by omega)]
    exact ⟨Under.zero _, by omega⟩
  rw [keys, List.mem_map] at hkey
  obtain ⟨s, hs, hkey⟩ := hkey
  have hb := hbuilt.of_mem hs
  have hleaf : s.isLeaf = true := by
    rw [hb.isLeaf_iff]
    omega
  cases s with
  | leaf info =>
    refine ⟨info, mem_leaves.mpr hs, hkey, ?_⟩
    rw [← hkey]
    exact hb.stores.value
  | inner => simp [isLeaf] at hleaf

theorem nodup_leaf_index {n : Nat} {value : Nat → Bytes} {root : MerkleTreeNode}
    (hbuilt : root.Built n value none 0)
    : (root.leaves.map (·.key - n)).Nodup := by
  have hnodup := (leaves_sublist root).nodup (hbuilt.nodup_keys (by omega))
  rw [List.nodup_map_iff_inj_on hnodup.of_map]
  intro a ha b hb heq
  have hka := (hbuilt.of_mem (mem_leaves.mp ha)).1
  have hkb := (hbuilt.of_mem (mem_leaves.mp hb)).1
  apply List.inj_on_of_nodup_map hnodup ha hb
  dsimp only [MerkleTreeNode.info] at hka hkb
  omega

end Btide
