import Btide.Chk.LoadRuns
import Btide.Tree.InsertNode

/-!
This module contains what `bpkg_load` guarantees about the texts it accepts, and the case in which it
accepts an incomplete one.
-/

open CLib HeapTree

namespace Btide

namespace PtrArray

def Assigned (arr : PtrArray α) (i : Nat) : Prop :=
  ∃ a, arr.load i = .ok (some a)

theorem assigned_iff {arr : PtrArray α} {i : Nat}
    : arr.Assigned i ↔ ∃ entries a, arr = some entries ∧ entries[i]? = some (some a) := by
  unfold Assigned
  simp only [load_eq_ok, Int.natCast_nonneg, Int.toNat_natCast, true_and]
  exact exists_comm

theorem assigned_set {arr : PtrArray α} {i : Nat} (h : arr.Assigned i) (a : α) (j : Nat)
    : PtrArray.Assigned (arr.map (·.set i (some a))) j ↔ arr.Assigned j := by
  rw [assigned_iff] at h
  obtain ⟨entries, b, rfl, hb⟩ := h
  have hlt := (List.getElem?_eq_some_iff.mp hb).1
  simp only [assigned_iff, Option.map_some, Option.some.injEq, exists_and_left, exists_eq_left',
    List.getElem?_set]
  by_cases hij : i = j
  . rw [← hij, hb]
    simp [hlt]
  . simp [hij]

end PtrArray

namespace insertNode

variable {hashes : PtrArray Bytes} {n : Int} {parent : Option NodePtr} {i : Nat}
  {st st' : InsertState} {t : MerkleTreeNode}

theorem cases_inner (h : insertNode hashes n parent i st = .ok (t, st')) (hi : i < n)
    : ∃ left right st₁,
        insertNode hashes n (some st.next) (2 * i + 1) ⟨st.next + 1, st.chunks⟩ = .ok (left, st₁)
          ∧ insertNode hashes n (some st.next) (2 * i + 2) st₁ = .ok (right, st') := by
  unfold insertNode at h
  simp only [hi, ↓reduceDIte] at h
  cases hload : hashes.load i with
  | error e => simp [hload, bind, Except.bind] at h
  | ok entry =>
    cases entry with
    | none => simp [hload, bind, Except.bind, throw, throwThe, MonadExceptOf.throw] at h
    | some value =>
      simp only [hload, bind, Except.bind] at h
      cases hkey : intOfNat (2 * i + 1) with
      | error e => simp [hkey] at h
      | ok key =>
        simp only [hkey] at h
        cases hleft : insertNode hashes n (some st.next) (2 * i + 1) ⟨st.next + 1, st.chunks⟩ with
        | error e => simp [hleft] at h
        | ok resLeft =>
          simp only [hleft] at h
          cases hkey' : intOfNat (key + 1) with
          | error e => simp [hkey'] at h
          | ok key' =>
            simp only [hkey'] at h
            cases hright : insertNode hashes n (some st.next) (2 * i + 2) resLeft.2 with
            | error e => simp [hright] at h
            | ok resRight =>
              simp only [hright, pure_eq_ok, Prod.mk.injEq] at h
              refine ⟨resLeft.1, resRight.1, resLeft.2, rfl, ?_⟩
              rw [← h.2, hright]

theorem cases_leaf (h : insertNode hashes n parent i st = .ok (t, st')) (hi : ¬ i < n)
    : ∃ chunk,
        st.chunks.load (i - n) = .ok (some chunk)
          ∧ st'.chunks
              =
            st.chunks.map
              (·.set (i - n).toNat (some { chunk with nodePtr := some st.next })) := by
  unfold insertNode at h
  simp only [hi, ↓reduceDIte] at h
  cases hload : st.chunks.load (i - n) with
  | error e => simp [hload, bind, Except.bind] at h
  | ok entry =>
    cases entry with
    | none => simp [hload, bind, Except.bind] at h
    | some chunk =>
      simp only [hload, deref_some, bind, Except.bind, pure, Except.pure, Except.ok.injEq,
        Prod.mk.injEq] at h
      refine ⟨chunk, rfl, ?_⟩
      rw [← h.2]

theorem chunks_ne_none {parent : Option NodePtr} {i : Nat} {st st' : InsertState}
    {t : MerkleTreeNode} (h : insertNode hashes n parent i st = .ok (t, st'))
    : st.chunks ≠ none := by
  intro hnone
  by_cases hi : i < n
  . obtain ⟨left, right, st₁, hleft, _⟩ := cases_inner h hi
    exact chunks_ne_none hleft hnone
  . obtain ⟨chunk, hload, _⟩ := cases_leaf h hi
    rw [hnone] at hload
    simp [PtrArray.load, bind, Except.bind] at hload
termination_by (n - i).toNat

theorem assigned {n : Nat} {parent : Option NodePtr} {i : Nat} {st st' : InsertState}
    {t : MerkleTreeNode} (h : insertNode hashes n parent i st = .ok (t, st'))
    : (∀ k, Under i k → n ≤ k → k ≤ 2 * n → st.chunks.Assigned (k - n))
        ∧ ∀ j, st'.chunks.Assigned j ↔ st.chunks.Assigned j := by
  by_cases hi : (i : Int) < n
  . obtain ⟨left, right, st₁, hleft, hright⟩ := cases_inner h hi
    obtain ⟨hreadLeft, hkeepLeft⟩ := assigned hleft
    obtain ⟨hreadRight, hkeepRight⟩ := assigned hright
    constructor
    . intro k hunder hge hle
      rcases Under.iff_child.mp hunder with heq | hunder | hunder
      . omega
      . exact hreadLeft k hunder hge hle
      . rw [← hkeepLeft]
        exact hreadRight k hunder hge hle
    . intro j
      rw [hkeepRight, hkeepLeft]
  . obtain ⟨chunk, hload, hset⟩ := cases_leaf h hi
    have hsub : (i : Int) - n = (i - n : Nat) := by omega
    rw [hsub] at hload hset
    have hassigned : st.chunks.Assigned (i - n) := ⟨chunk, hload⟩
    constructor
    . intro k hunder hge hle
      rw [hunder.eq_of_le (by omega)]
      exact hassigned
    . intro j
      rw [hset]
      exact PtrArray.assigned_set hassigned _ j
termination_by n - i

theorem length_chunks {parent : Option NodePtr} {i : Nat} {st st' : InsertState}
    {t : MerkleTreeNode} (h : insertNode hashes n parent i st = .ok (t, st'))
    : st'.chunks.map List.length = st.chunks.map List.length := by
  by_cases hi : i < n
  . obtain ⟨left, right, st₁, hleft, hright⟩ := cases_inner h hi
    rw [length_chunks hright, length_chunks hleft]
  . obtain ⟨chunk, _, hset⟩ := cases_leaf h hi
    rw [hset, Option.map_map]
    congr 1
    funext entries
    exact List.length_set
termination_by (n - i).toNat

theorem map_entries {f : Chunk → β} (hf : ∀ chunk ptr, f { chunk with nodePtr := ptr } = f chunk)
    {parent : Option NodePtr} {i : Nat} {st st' : InsertState} {t : MerkleTreeNode}
    (h : insertNode hashes n parent i st = .ok (t, st'))
    : st'.chunks.map (List.map (Option.map f)) = st.chunks.map (List.map (Option.map f)) := by
  by_cases hi : i < n
  . obtain ⟨left, right, st₁, hleft, hright⟩ := cases_inner h hi
    rw [map_entries hf hright, map_entries hf hleft]
  . obtain ⟨chunk, hload, hset⟩ := cases_leaf h hi
    obtain ⟨_, entries, hentries, hget⟩ := PtrArray.load_eq_ok.mp hload
    rw [hset, hentries, Option.map_some, Option.map_some, Option.map_some, List.map_set]
    congr 1
    apply List.ext_getElem?
    intro j
    rw [List.getElem?_set]
    split
    . next hj =>
      obtain ⟨hlt, _⟩ := List.getElem?_eq_some_iff.mp hget
      rw [if_pos (by rw [List.length_map]; exact hlt), List.getElem?_map, ← hj, hget, Option.map_some,
        Option.map_some, Option.map_some, hf]
    . rfl
termination_by (n - i).toNat

end insertNode

theorem createTree_assigned {hashes : PtrArray Bytes} {n : Nat} {nchunks : Int}
    {chunks : PtrArray Chunk} {res : MerkleTree × PtrArray Chunk}
    (h : createTree hashes n chunks nchunks = .ok res) {j : Nat} (hj : j ≤ n)
    : chunks.Assigned j := by
  unfold createTree at h
  cases hroot : insertNode hashes n none 0 ⟨0, chunks⟩ with
  | error e => simp [hroot, bind, Except.bind] at h
  | ok r =>
    have hread := (insertNode.assigned hroot).1 (n + j) (Under.zero _) (by omega) (by omega)
    rw [Nat.add_sub_cancel_left] at hread
    exact hread

theorem createTree_chunks_ne_none {hashes : PtrArray Bytes} {n nchunks : Int}
    {chunks : PtrArray Chunk} {res : MerkleTree × PtrArray Chunk}
    (h : createTree hashes n chunks nchunks = .ok res) : chunks ≠ none := by
  unfold createTree at h
  cases hroot : insertNode hashes n none 0 ⟨0, chunks⟩ with
  | error e => simp [hroot, bind, Except.bind] at h
  | ok r => exact insertNode.chunks_ne_none hroot

namespace bpkgLoad

/--
The package that `bpkg_load` is meant to accept: the seven sections once each and in order, two
strings, as many assigned hashes and chunks as announced and one chunk more than hashes.
-/
structure Complete (lines : List Bytes) (bpkg : BpkgObj) : Prop where
  sections : ∃ l : Layout,
    lines = l.lines
      ∧ l.Ordered
      ∧ l.hashLines.length = bpkg.nhashes.toNat
      ∧ l.chunkLines.length = bpkg.nchunks.toNat
  ident : bpkg.ident.isSome
  filename : bpkg.filename.isSome
  hashes : ∃ hashes, bpkg.hashes = .ofList hashes ∧ hashes.length = bpkg.nhashes.toNat
  chunks : ∃ chunks, bpkg.chunks = .ofList chunks ∧ chunks.length = bpkg.nchunks.toNat
  nchunks : bpkg.nchunks.toNat = bpkg.nhashes.toNat + 1

def declaredNhashes (lines : List Bytes) : Nat :=
  (lineCount (lines.getD 3 [])).toNat

/--
The number on the line behind the hashes, which is the line `nchunks` of a text in order.
-/
def declaredNchunks (lines : List Bytes) : Nat :=
  (lineCount (lines.getD (5 + declaredNhashes lines) [])).toNat

theorem prefixArray_zero (entries : List α) : some (prefixArray entries 0) = PtrArray.ofList entries := by
  simp [prefixArray, PtrArray.ofList]

theorem assigned_prefixArray {entries : List α} {room i : Nat}
    : PtrArray.Assigned (some (prefixArray entries room)) i ↔ i < entries.length := by
  simp only [PtrArray.assigned_iff, Option.some.injEq, exists_and_left, exists_eq_left',
    prefixArray, List.getElem?_append, List.length_map, List.getElem?_map, List.getElem?_replicate]
  split
  . next h => simp [h]
  . next h =>
    simp only [h, iff_false, not_exists]
    intro a
    split
    . simp
    . simp

theorem declared_eq {l : Layout} {c : Contents} (h : l.Parses c)
    : declaredNhashes l.lines = l.nhashes.toNat ∧ declaredNchunks l.lines = l.nchunks.toNat := by
  have hnhashes : declaredNhashes l.lines = l.nhashes.toNat := rfl
  have hline : l.lines.getD (5 + l.nhashes.toNat) [] = l.nchunksLine := by
    rw [← h.length_hashes, ← h.hashes.length_eq, Nat.add_comm]
    simp [Layout.lines]
  refine ⟨hnhashes, ?_⟩
  rw [declaredNchunks, hnhashes, hline]
  rfl

end bpkgLoad

open bpkgLoad

theorem bpkgLoad.finish_cases {errorFlag : Bool} {obj bpkg : BpkgObj}
    (h : finish errorFlag obj = .ok (some bpkg))
    : errorFlag = false
        ∧ ∃ tree chunks,
            createTree obj.hashes (toInt obj.nhashes.toNat) obj.chunks (toInt obj.nchunks.toNat)
                =
              .ok (tree, chunks)
              ∧ bpkg = { obj with tree := some tree, chunks } := by
  unfold finish at h
  cases errorFlag with
  | true =>
    cases hdestroy : bpkgObjDestroy obj with
    | error e => simp [hdestroy, bind, Except.bind] at h
    | ok u => simp [hdestroy, bind, Except.bind, pure, Except.pure] at h
  | false =>
    generalize htree : createTree obj.hashes (toInt obj.nhashes.toNat) obj.chunks
      (toInt obj.nchunks.toNat) = res at h
    cases res with
    | error e => simp [bind, Except.bind] at h
    | ok res =>
      simp only [bind, Except.bind, pure, Except.pure, Bool.false_eq_true, ↓reduceIte,
        Except.ok.injEq, Option.some.injEq] at h
      exact ⟨rfl, res.1, res.2, rfl, h.symm⟩

theorem bpkgLoad_cases {obj bpkg : BpkgObj} {file : Bytes} {dir : Option Bytes}
    (h : bpkgLoad obj (some file) dir = .ok (some bpkg))
    : ∃ (l : Layout) (c : Contents) (tree : MerkleTree) (chunks : PtrArray Chunk),
        fgetsLines MAX_INPUT_SIZE file = l.lines
          ∧ l.Parses c
          ∧ createTree (.ofList c.hashes) l.nhashes.toNat
                (some (prefixArray c.chunks (l.nchunks.toNat - c.chunks.length))) l.nchunks.toNat
              =
            .ok (tree, chunks)
          ∧ bpkg
              =
            { (l.finalState c dir (initState obj).obj).obj with tree := some tree, chunks } := by
  unfold bpkgLoad at h
  cases hrun : readLines dir (fgetsLines MAX_INPUT_SIZE file) (initState obj) with
  | error e => simp [hrun, bind, Except.bind] at h
  | ok res =>
    obtain ⟨errorFlag, st⟩ := res
    simp only [hrun, bind, Except.bind] at h
    obtain ⟨rfl, tree, chunks, htree, hbpkg⟩ := finish_cases h
    obtain ⟨l, c, hlines, hparses, rfl⟩ :=
      parses_of_readLines hrun rfl (createTree_chunks_ne_none htree)
    refine ⟨l, c, tree, chunks, hlines, hparses, ?_, hbpkg⟩
    dsimp only [Layout.finalState] at htree
    rw [prefixArray_zero, toInt_of_le hparses.nhashes_le, toInt_of_le hparses.nchunks_le] at htree
    exact htree

theorem bpkgLoad_destroyable {obj bpkg : BpkgObj} {file : Bytes} {dir : Option Bytes}
    (h : bpkgLoad obj (some file) dir = .ok (some bpkg))
    : bpkg.ident.isSome ∧ bpkgObjDestroy bpkg = .ok () := by
  obtain ⟨l, c, tree, chunks, _, hparses, htree, rfl⟩ := bpkgLoad_cases h
  refine ⟨rfl, ?_⟩
  have hlen : chunks.map List.length = some l.nchunks.toNat := by
    unfold createTree at htree
    cases hroot : insertNode (.ofList c.hashes) l.nhashes.toNat none 0
        ⟨0, some (prefixArray c.chunks (l.nchunks.toNat - c.chunks.length))⟩ with
    | error e => simp [hroot, bind, Except.bind] at htree
    | ok r =>
      rw [hroot] at htree
      cases hnodes : intAdd l.nhashes.toNat l.nchunks.toNat with
      | error e => simp [hnodes, bind, Except.bind] at htree
      | ok nNodes =>
        simp only [hnodes, bind, Except.bind, pure, Except.pure, Except.ok.injEq,
          Prod.mk.injEq] at htree
        rw [← htree.2, insertNode.length_chunks hroot]
        have := hparses.length_chunks
        simp only [Option.map_some, prefixArray, List.length_append, List.length_map,
          List.length_replicate, Option.some.injEq]
        omega
  obtain ⟨entries, rfl, hentries⟩ := Option.map_eq_some_iff.mp hlen
  have hhashes : bpkgObjDestroy.freeHashes l.nhashes.toNat (prefixArray c.hashes 0) = .ok () := by
    have hall : ((prefixArray c.hashes 0).take l.nhashes.toNat).all (·.isSome) = true := by
      rw [List.all_eq_true]
      intro entry hentry
      have hmem := List.mem_of_mem_take hentry
      simp only [prefixArray, List.replicate_zero, List.append_nil, List.mem_map] at hmem
      obtain ⟨hash, _, rfl⟩ := hmem
      rfl
    have hlength : (prefixArray c.hashes 0).length = l.nhashes.toNat := by
      rw [← hparses.length_hashes]
      simp [prefixArray]
    unfold bpkgObjDestroy.freeHashes
    rw [if_neg (by omega), if_pos hall]
  have hchunks : bpkgObjDestroy.freeChunks l.nchunks.toNat entries = .ok () := by
    unfold bpkgObjDestroy.freeChunks
    rw [if_neg (by omega)]
  simp only [bpkgObjDestroy, Layout.finalState, Option.isNone_some, Bool.false_eq_true, ↓reduceIte,
    hhashes, hchunks, bind, Except.bind]

theorem chunks_of_createTree {l : Layout} {c : Contents} {tree : MerkleTree}
    {chunks : PtrArray Chunk} (hparses : l.Parses c)
    (hcount : l.nchunks.toNat = l.nhashes.toNat + 1)
    (htree : createTree (.ofList c.hashes) l.nhashes.toNat
        (some (prefixArray c.chunks (l.nchunks.toNat - c.chunks.length))) l.nchunks.toNat
      = .ok (tree, chunks))
    : c.chunks.length = l.nchunks.toNat
        ∧ ∃ chunks', chunks = .ofList chunks' ∧ chunks'.length = l.nchunks.toNat := by
  have hassigned := createTree_assigned htree (Nat.le_refl _)
  rw [assigned_prefixArray] at hassigned
  have hle := hparses.length_chunks
  have hroom : l.nchunks.toNat - c.chunks.length = 0 := by omega
  have hlength : l.nchunks.toNat = c.chunks.length := by omega
  have hlen : c.chunks.length = c.hashes.length + 1 := by
    rw [hparses.length_hashes]
    omega
  rw [hroom, prefixArray_zero, ← hparses.length_hashes, hlength] at htree
  obtain ⟨root, hspec, _⟩ := createTree_spec (length_lt_of_createTree hlen htree) hlen
  rw [htree, Except.ok.injEq, Prod.mk.injEq] at hspec
  refine ⟨hlength.symm, _, hspec.2, ?_⟩
  rw [linkChunks.length, hlength]

theorem bpkgLoad_complete_iff {obj bpkg : BpkgObj} {file : Bytes} {dir : Option Bytes}
    (h : bpkgLoad obj (some file) dir = .ok (some bpkg))
    : Complete (fgetsLines MAX_INPUT_SIZE file) bpkg
        ↔
      declaredNchunks (fgetsLines MAX_INPUT_SIZE file)
        =
      declaredNhashes (fgetsLines MAX_INPUT_SIZE file) + 1 := by
  obtain ⟨l, c, tree, chunks, hlines, hparses, htree, hbpkg⟩ := bpkgLoad_cases h
  have hdeclared := declared_eq hparses
  have hnhashes : bpkg.nhashes = l.nhashes := by rw [hbpkg]; rfl
  have hnchunks : bpkg.nchunks = l.nchunks := by rw [hbpkg]; rfl
  rw [hlines, hdeclared.1, hdeclared.2, ← hnhashes, ← hnchunks]
  constructor
  . intro hcomplete
    exact hcomplete.nchunks
  . intro hcount
    obtain ⟨hall, chunks', hchunks, hlength⟩ :=
      chunks_of_createTree hparses (hnhashes ▸ hnchunks ▸ hcount) htree
    have hchunkLines := hparses.chunks.length_eq
    have hhashLines := hparses.hashes.length_eq
    rw [hall, ← hnchunks] at hchunkLines
    rw [hparses.length_hashes, ← hnhashes] at hhashLines
    exact {
      sections := ⟨l, rfl, hparses.ordered, hhashLines, hchunkLines⟩
      ident := by rw [hbpkg]; rfl
      filename := by rw [hbpkg]; rfl
      hashes := ⟨c.hashes, by rw [hbpkg]; exact prefixArray_zero _,
        by rw [hparses.length_hashes, hnhashes]⟩
      chunks := ⟨chunks', by rw [hbpkg]; exact hchunks, by rw [hlength, hnchunks]⟩
      nchunks := hcount }

theorem bpkgLoad_complete_two
    : ∃ bpkg,
        bpkgLoad ⟨none, none, 7, 7, none, 7, none, none⟩
            (some (ascii
              "ident:a\nfilename:b\nsize:2\nnhashes:1\nhashes:\n\tr\nnchunks:2\nchunks:\n\tp,0,1\n\tq,1,1\n"))
            none
          =
        .ok (some bpkg)
          ∧ Complete
              (fgetsLines MAX_INPUT_SIZE
                (ascii
                  "ident:a\nfilename:b\nsize:2\nnhashes:1\nhashes:\n\tr\nnchunks:2\nchunks:\n\tp,0,1\n\tq,1,1\n"))
              bpkg := by
  have hload
      : bpkgLoad ⟨none, none, 7, 7, none, 7, none, none⟩
            (some (ascii
              "ident:a\nfilename:b\nsize:2\nnhashes:1\nhashes:\n\tr\nnchunks:2\nchunks:\n\tp,0,1\n\tq,1,1\n"))
            none
          =
        .ok (some {
          ident := some (ascii "a")
          filename := some (ascii "b")
          size := 2
          nhashes := 1
          hashes := .ofList [ascii "r"]
          nchunks := 2
          chunks := .ofList [⟨ascii "p", 0, 1, some 1⟩, ⟨ascii "q", 1, 1, some 2⟩]
          tree := some {
            root :=
              .inner ⟨0, 0, ascii "r", none, []⟩
                (.leaf ⟨1, 1, ascii "p", some 0, []⟩) (.leaf ⟨2, 2, ascii "q", some 0, []⟩)
            nNodes := 3 } }) := by
    decide +kernel
  exact ⟨_, hload, (bpkgLoad_complete_iff hload).mpr (by decide +kernel)⟩

/--
The count of the chunks is two, but the file ends after the first one.
-/
theorem bpkgLoad_incomplete
    : ∃ bpkg,
        bpkgLoad ⟨none, none, 7, 7, none, 7, none, none⟩
            (some (ascii
              "ident:a\nfilename:b\nsize:1\nnhashes:0\nhashes:\nnchunks:2\nchunks:\n\tp,0,1\n"))
            none
          =
        .ok (some bpkg)
          ∧ ¬ Complete
                (fgetsLines MAX_INPUT_SIZE
                  (ascii
                    "ident:a\nfilename:b\nsize:1\nnhashes:0\nhashes:\nnchunks:2\nchunks:\n\tp,0,1\n"))
                bpkg := by
  refine ⟨{
    ident := some (ascii "a")
    filename := some (ascii "b")
    size := 1
    nhashes := 0
    hashes := .ofList []
    nchunks := 2
    chunks := some [some ⟨ascii "p", 0, 1, some 0⟩, none]
    tree := some { root := .leaf ⟨0, 0, ascii "p", none, []⟩, nNodes := 2 } }, ?_, ?_⟩
  . decide +kernel
  . intro hcomplete
    have hcount := hcomplete.nchunks
    simp at hcount

end Btide
