import Btide.Chk.LoadComplete
import Btide.Chk.Tiling

/-!
This module contains the relation between the chunks that `bpkg_get_completed_chunks` reports and the
chunks that are complete.
-/

open Bytes CLib

namespace Btide

open computeHashesForChunks

def hashAt (chunks : List Chunk) (j : Nat) : Bytes :=
  (chunks.map Chunk.hash).getD j []

def reported (b : Nat) (data : Bytes) (chunks : List Chunk) : List Bytes :=
  ((List.range chunks.length).filter (fun j => hashAt chunks j == storedHash b data j)).map
    (hashAt chunks)

def completed (data : Bytes) (chunks : List Chunk) : List Bytes :=
  (chunks.filter (·.complete data)).map Chunk.hash

def completeAt (data : Bytes) (chunks : List Chunk) (j : Nat) : Bool :=
  (chunks[j]?.map (·.complete data)).getD false

theorem hashAt_eq {chunks : List Chunk} {j : Nat} {chunk : Chunk} (hj : chunks[j]? = some chunk)
    : hashAt chunks j = chunk.hash := by
  simp [hashAt, hj]

theorem completeAt_eq {data : Bytes} {chunks : List Chunk} {j : Nat} {chunk : Chunk}
    (hj : chunks[j]? = some chunk)
    : completeAt data chunks j = chunk.complete data := by
  simp [completeAt, hj]

theorem completed_eq (data : Bytes) (chunks : List Chunk)
    : completed data chunks
        =
      ((List.range chunks.length).filter (completeAt data chunks)).map (hashAt chunks) := by
  induction chunks with
  | nil => rfl
  | cons chunk chunks ih =>
    have hcomplete : completeAt data (chunk :: chunks) ∘ Nat.succ = completeAt data chunks := rfl
    have hhash : hashAt (chunk :: chunks) ∘ Nat.succ = hashAt chunks := rfl
    have hhead : completeAt data (chunk :: chunks) 0 = chunk.complete data := rfl
    have hfirst : hashAt (chunk :: chunks) 0 = chunk.hash := rfl
    unfold completed at ih ⊢
    rw [List.length_cons, List.range_succ_eq_map, List.filter_cons, List.filter_cons, List.filter_map,
      hcomplete, hhead]
    split
    . rw [List.map_cons, List.map_cons, List.map_map, hhash, hfirst, ih]
    . rw [List.map_map, hhash, ih]

theorem not_perm_of_ne {p q : Nat → Bool} {hash : Nat → Bytes} {n m : Nat} (hm : m < n)
    (hother : ∀ j < n, j ≠ m → hash j = hash m → p j = q j) (hne : p m ≠ q m)
    : ¬ (((List.range n).filter p).map hash).Perm (((List.range n).filter q).map hash) := by
  intro hperm
  obtain ⟨front, back, hsplit⟩ := List.append_of_mem (List.mem_range.mpr hm)
  have hnodup := @List.nodup_range n
  have hmem : ∀ j, j ∈ front ∨ j ∈ back → j < n ∧ j ≠ m := by
    intro j hj
    have hjn : j ∈ List.range n := by
      rw [hsplit]
      rcases hj with hj | hj
      . simp [hj]
      . simp [hj]
    refine ⟨List.mem_range.mp hjn, ?_⟩
    rintro rfl
    rw [hsplit, List.nodup_append] at hnodup
    rcases hj with hj | hj
    . exact hnodup.2.2 j hj j (by simp) rfl
    . exact (List.nodup_cons.mp hnodup.2.1).1 hj
  have hagree (l : List Nat) (hl : ∀ j ∈ l, j < n ∧ j ≠ m)
      : l.countP (fun j => hash j == hash m && p j) = l.countP (fun j => hash j == hash m && q j) := by
    apply List.countP_congr
    intro j hj
    simp only [Bool.and_eq_true, beq_iff_eq, and_congr_right_iff]
    intro heq
    rw [hother j (hl j hj).1 (hl j hj).2 heq]
  have hcount := hperm.count_eq (hash m)
  simp only [List.count_eq_countP, List.countP_map, List.countP_filter, hsplit, List.countP_append,
    List.countP_cons, Function.comp_apply] at hcount
  rw [hagree front fun j hj => hmem j (.inl hj), hagree back fun j hj => hmem j (.inr hj)] at hcount
  cases hp : p m with
  | true =>
    cases hq : q m with
    | true => rw [hp, hq] at hne; contradiction
    | false => simp [hp, hq] at hcount
  | false =>
    cases hq : q m with
    | true => simp [hp, hq] at hcount
    | false => rw [hp, hq] at hne; contradiction

section Tiled

variable {chunks : List Chunk} {b : Nat}

theorem storedHash_of_le {data : Bytes} {j : Nat} (h : (j + 1) * b ≤ data.length)
    : storedHash b data j = Sha256.digest (slice data (j * b) b) := by
  simp [storedHash, h]

theorem storedHash_of_lt {data : Bytes} {j : Nat} (h : data.length < (j + 1) * b)
    : storedHash b data j = [] := by
  have : ¬ (j + 1) * b ≤ data.length := by omega
  simp [storedHash, this]

theorem reportedAt_eq {data : Bytes} {j : Nat} {chunk : Chunk} (hj : chunks[j]? = some chunk)
    (hhash : chunk.hash ≠ []) (hoffset : chunk.offset.toNat = j * b) (hsize : chunk.size.toNat = b)
    : (hashAt chunks j == storedHash b data j) = completeAt data chunks j := by
  rw [hashAt_eq hj, completeAt_eq hj, Chunk.complete, hoffset, hsize]
  have hsucc : (j + 1) * b = j * b + b := Nat.succ_mul j b
  by_cases hlen : (j + 1) * b ≤ data.length
  . have hle : j * b + b ≤ data.length := by omega
    rw [storedHash_of_le hlen, Bool.beq_comm]
    simp [hle]
  . have hlt : ¬ j * b + b ≤ data.length := by omega
    rw [storedHash_of_lt (by omega)]
    simp [hlt, hhash]

theorem reported_eq_completed (htiles : TilesFrom 0 chunks)
    (hhash : ∀ chunk ∈ chunks, chunk.hash ≠ []) (hsize : ∀ chunk ∈ chunks, chunk.size.toNat = b)
    (data : Bytes) : reported b data chunks = completed data chunks := by
  rw [completed_eq, reported]
  congr 1
  apply List.filter_congr
  intro j hj
  have hget := List.getElem?_eq_getElem (List.mem_range.mp hj)
  have hmem := List.mem_of_getElem? hget
  have hoffset := htiles.offset_eq (b := b) (fun i _ other hother =>
    hsize other (List.mem_of_getElem? hother)) hget
  exact reportedAt_eq hget (hhash _ hmem) (by omega) (hsize _ hmem)

section Deviation

variable {m : Nat} {chunk : Chunk}

theorem not_perm_of_deviation (htiles : TilesFrom 0 chunks)
    (hhash : ∀ chunk ∈ chunks, chunk.hash ≠ []) (hm : chunks[m]? = some chunk)
    (hbefore : ∀ i < m, ∀ other, chunks[i]? = some other → other.size.toNat = b) (data : Bytes)
    (hlen : data.length ≤ m * b + chunk.size.toNat)
    (hlater : ∀ j, m < j → storedHash b data j ≠ chunk.hash)
    (hne : (chunk.hash == storedHash b data m) ≠ chunk.complete data)
    : ¬ (reported b data chunks).Perm (completed data chunks) := by
  have hlt := (List.getElem?_eq_some_iff.mp hm).1
  have hoffset := htiles.offset_eq hbefore hm
  rw [completed_eq, reported]
  apply not_perm_of_ne hlt
  . intro j hj hjm heq
    have hget := List.getElem?_eq_getElem hj
    rcases Nat.lt_or_gt_of_ne hjm with hlt | hgt
    . have hbefore' : ∀ i < j, ∀ other, chunks[i]? = some other → other.size.toNat = b := by
        intro i hi
        exact hbefore i (by omega)
      have hoffset' := htiles.offset_eq hbefore' hget
      exact reportedAt_eq hget (hhash _ (List.mem_of_getElem? hget)) (by omega)
        (hbefore j hlt _ hget)
    . have hstart := htiles.end_le_offset hgt hm hget
      have hpos := (htiles.bounds hget).2.1
      have hstored := (hlater j hgt).symm
      rw [hashAt_eq hm] at heq
      rw [heq, beq_eq_false_iff_ne.mpr hstored, completeAt_eq hget, Chunk.complete]
      have hout : ¬ chunks[j].offset.toNat + chunks[j].size.toNat ≤ data.length := by omega
      simp [hout]
  . rw [hashAt_eq hm, completeAt_eq hm]
    exact hne

theorem exists_not_perm (htiles : TilesFrom 0 chunks) (hhash : ∀ chunk ∈ chunks, chunk.hash ≠ [])
    (hb : 0 < b) (hm : chunks[m]? = some chunk)
    (hbefore : ∀ i < m, ∀ other, chunks[i]? = some other → other.size.toNat = b)
    (hsize : chunk.size.toNat ≠ b) {full : Bytes} (hfull : full.length = totalSize chunks)
    (hcomplete : chunk.complete full = true)
    : ∃ data : Bytes,
        data.length ≤ totalSize chunks ∧ ¬ (reported b data chunks).Perm (completed data chunks) := by
  have hoffset := htiles.offset_eq hbefore hm
  have hend := (htiles.bounds hm).2.2
  have hne := hhash chunk (List.mem_of_getElem? hm)
  rw [Nat.zero_add] at hoffset
  rw [Chunk.complete_iff, hoffset] at hcomplete
  rw [hoffset] at hend
  have hsucc : ∀ j, (j + 1) * b = j * b + b := fun j => Nat.succ_mul j b
  by_cases hblock : ∃ i, m ≤ i ∧ (i + 1) * b ≤ m * b + chunk.size.toNat
      ∧ Sha256.digest (slice full (i * b) b) = chunk.hash
  . -- the block moves to the front of the chunk, which is too large to be complete then
    obtain ⟨i, hmi, hi, hdigest⟩ := hblock
    have hmul : m * b ≤ i * b := Nat.mul_le_mul_right b hmi
    have := hsucc i
    have hfront : (full.take (m * b)).length = m * b := by
      rw [List.length_take]
      omega
    have hback : (slice full (i * b) b).length = b := length_slice_of_le (by omega)
    have hlength : (full.take (m * b) ++ slice full (i * b) b).length = m * b + b := by
      rw [List.length_append, hfront, hback]
    have hslice : slice (full.take (m * b) ++ slice full (i * b) b) (m * b) b
        = slice full (i * b) b := by
      have := slice_append_right (full.take (m * b)) (slice full (i * b) b)
      rw [hfront, hback] at this
      exact this
    refine ⟨_, ?_, not_perm_of_deviation htiles hhash hm hbefore
      (full.take (m * b) ++ slice full (i * b) b) ?_ ?_ ?_⟩
    . omega
    . omega
    . intro j hj
      have hmul : (m + 1) * b ≤ j * b := Nat.mul_le_mul_right b hj
      have := hsucc m
      have := hsucc j
      rw [storedHash_of_lt (by omega)]
      exact hne.symm
    . have := hsucc m
      rw [storedHash_of_le (by omega), hslice, hdigest, beq_self_eq_true, Chunk.complete, hoffset]
      have hout : ¬ m * b + chunk.size.toNat ≤ m * b + b := by omega
      simp only [hlength, hout, decide_false, Bool.false_and]
      decide
  . -- the file ends with the chunk, which is complete and whose hash no block has
    have hblock : ∀ i, m ≤ i → (i + 1) * b ≤ m * b + chunk.size.toNat
        → Sha256.digest (slice full (i * b) b) ≠ chunk.hash := by
      intro i hmi hi hdigest
      exact hblock ⟨i, hmi, hi, hdigest⟩
    have hlength : (full.take (m * b + chunk.size.toNat)).length = m * b + chunk.size.toNat := by
      rw [List.length_take]
      omega
    have hstored : ∀ j, m ≤ j
        → storedHash b (full.take (m * b + chunk.size.toNat)) j ≠ chunk.hash := by
      intro j hj
      have := hsucc j
      by_cases hle : (j + 1) * b ≤ m * b + chunk.size.toNat
      . rw [storedHash_of_le (by omega), slice_take (by omega)]
        exact hblock j hj hle
      . rw [storedHash_of_lt (by omega)]
        exact hne.symm
    refine ⟨_, ?_, not_perm_of_deviation htiles hhash hm hbefore
      (full.take (m * b + chunk.size.toNat)) ?_ ?_ ?_⟩
    . omega
    . omega
    . intro j hj
      exact hstored j (by omega)
    . have hin : chunk.complete (full.take (m * b + chunk.size.toNat)) = true := by
        rw [Chunk.complete_iff, hoffset, slice_take (by omega)]
        exact ⟨by omega, hcomplete.2⟩
      rw [hin, beq_eq_false_iff_ne.mpr (hstored m (Nat.le_refl m)).symm]
      decide

end Deviation

end Tiled

open bpkgLoad

theorem hash_of_readChunk {line : Bytes} {chunk : Chunk} (h : readChunk line = .ok (some chunk))
    : chunk.hash ≠ [] ∧ chunk.hash.length ≤ 64 := by
  unfold readChunk at h
  cases hvalue : stripWhitespace (strtok (ascii " ") (cstr line)).1 with
  | error e => simp [hvalue, bind, Except.bind] at h
  | ok value =>
    simp only [hvalue, bind, Except.bind] at h
    split at h
    . simp at h
    . split at h
      . simp [pure, Except.pure] at h
      . split at h
        . simp at h
        . split at h
          . simp [pure, Except.pure] at h
          . cases htoken : (strtok (ascii ",") (value.getD [])).1 with
            | none => simp [htoken, strcpy] at h
            | some token =>
              have hne := (strtok_mem htoken).1
              simp only [htoken, strcpy] at h
              split at h
              . simp at h
              . next hcopy =>
                simp only [pure_eq_ok, Option.some.injEq] at h
                rw [← h]
                split at hcopy
                . next hfits =>
                  simp only [Except.ok.injEq] at hcopy
                  rw [← hcopy]
                  exact ⟨hne, Nat.le_of_succ_le_succ hfits⟩
                . simp at hcopy

theorem nodePtr_of_readChunk {line : Bytes} {chunk : Chunk} (h : readChunk line = .ok (some chunk))
    : chunk.nodePtr = none := by
  unfold readChunk at h
  simp only [bind_eq_ok] at h
  obtain ⟨_, _, _, _, h⟩ := h
  split at h
  . simp [pure, Except.pure] at h
  . simp only [bind_eq_ok] at h
    obtain ⟨_, _, h⟩ := h
    split at h
    . simp [pure, Except.pure] at h
    . simp only [bind_eq_ok, pure_eq_ok, Option.some.injEq] at h
      obtain ⟨_, _, h⟩ := h
      rw [← h]

theorem forall_of_forall₂ {lines : List Bytes} {chunks : List Chunk} {P : Chunk → Prop}
    (h : List.Forall₂ (fun line chunk => readChunk line = .ok (some chunk)) lines chunks)
    (hread : ∀ line chunk, readChunk line = .ok (some chunk) → P chunk)
    : ∀ chunk ∈ chunks, P chunk := by
  induction h with
  | nil => simp
  | cons hline _ ih =>
    rw [List.forall_mem_cons]
    exact ⟨hread _ _ hline, ih⟩

theorem treeSound_of_bpkgLoad {obj bpkg : BpkgObj} {text : Bytes} {dir : Option Bytes}
    {chunks : List Chunk} (hload : bpkgLoad obj (some text) dir = .ok (some bpkg))
    (hcount : bpkg.nchunks.toNat = bpkg.nhashes.toNat + 1) (hchunks : bpkg.chunks = .ofList chunks)
    : ∃ hashes chunks₀ tree,
        bpkg.tree = some tree
          ∧ TreeSound hashes chunks₀ tree.root chunks
          ∧ chunks₀.length = hashes.length + 1
          ∧ chunks.map Chunk.hash = chunks₀.map Chunk.hash
          ∧ (∀ info ∈ tree.root.leaves, info.computedHash = [])
          ∧ bpkg.intNchunks = chunks₀.length
          ∧ ∀ chunk ∈ chunks, chunk.hash ≠ [] ∧ chunk.hash.length ≤ 64 := by
  obtain ⟨l, c, tree, chunksPtr, _, hparses, htree, hbpkg⟩ := bpkgLoad_cases hload
  have hnhashes : bpkg.nhashes = l.nhashes := by rw [hbpkg]; rfl
  have hnchunks : bpkg.nchunks = l.nchunks := by rw [hbpkg]; rfl
  have hptr : chunksPtr = .ofList chunks := by rw [← hchunks, hbpkg]
  have htree' : bpkg.tree = some tree := by rw [hbpkg]
  rw [hnhashes, hnchunks] at hcount
  obtain ⟨hall, _⟩ := chunks_of_createTree hparses hcount htree
  have hlen : c.chunks.length = c.hashes.length + 1 := by
    rw [hparses.length_hashes, hall, hcount]
  rw [← hall, Nat.sub_self, prefixArray_zero, ← hparses.length_hashes] at htree
  obtain ⟨root, hspec, hbuilt, hptrs, hfresh⟩ :=
    createTree_spec (length_lt_of_createTree hlen htree) hlen
  rw [htree, Except.ok.injEq, Prod.mk.injEq] at hspec
  have hlinked : chunks = linkChunks c.hashes.length root.leaves c.chunks := by
    rw [hptr] at hspec
    exact List.map_injective_iff.mpr (Option.some_injective _) (Option.some.inj hspec.2)
  have hhash : chunks.map Chunk.hash = c.chunks.map Chunk.hash := by
    rw [hlinked, linkChunks.map_hash]
  refine ⟨c.hashes, c.chunks, tree, htree', ?_, hlen, hhash, ?_, ?_, ?_⟩
  . rw [hspec.1, hlinked]
    exact treeSound_of_built hlen hbuilt hptrs
  . rw [hspec.1]
    intro info hinfo
    exact hfresh _ (MerkleTreeNode.mem_leaves.mp hinfo)
  . rw [BpkgObj.intNchunks, hnchunks, toInt_of_le hparses.nchunks_le, hall]
  . intro chunk hchunk
    have hmem : chunk.hash ∈ c.chunks.map Chunk.hash := by
      rw [← hhash]
      exact List.mem_map_of_mem hchunk
    rw [List.mem_map] at hmem
    obtain ⟨chunk₀, hmem, heq⟩ := hmem
    rw [← heq]
    exact forall_of_forall₂ hparses.chunks (fun _ _ => hash_of_readChunk) chunk₀ hmem

def SameSize (chunks : List Chunk) : Prop :=
  ∀ chunk ∈ chunks, ∀ other ∈ chunks, chunk.size = other.size

def ReportsCompleted (files : FileSystem) (bpkg : BpkgObj) (chunks : List Chunk) (data : Bytes)
    : Prop :=
  ∃ qry bpkg',
    bpkgGetCompletedChunks files bpkg = .ok (qry, bpkg')
      ∧ qry.len = qry.hashes.hashes.length
      ∧ qry.hashes.hashes.Perm ((chunks.filter (·.complete data)).map Chunk.hash)

section Query

variable {obj bpkg : BpkgObj} {text name : Bytes} {dir : Option Bytes} {chunks : List Chunk}

theorem bpkgGetCompletedChunks_reported {first : Chunk} (files : FileSystem) {data : Bytes}
    (hload : bpkgLoad obj (some text) dir = .ok (some bpkg))
    (hcount : bpkg.nchunks.toNat = bpkg.nhashes.toNat + 1) (hchunks : bpkg.chunks = .ofList chunks)
    (hfirst : chunks[0]? = some first) (hname : stripWhitespace bpkg.filename = .ok (some name))
    (hfile : files name = some data)
    : if data.length < (chunks.length + 1) * first.size.toNat then
        ∃ qry bpkg',
          bpkgGetCompletedChunks files bpkg = .ok (qry, bpkg')
            ∧ qry.len = qry.hashes.hashes.length
            ∧ qry.hashes.hashes.Perm (reported first.size.toNat data chunks)
      else
        bpkgGetCompletedChunks files bpkg = .error .outOfBounds := by
  obtain ⟨hashes, chunks₀, tree, htree, hsound, hlen, hhash, hfresh, hnchunks, _⟩ :=
    treeSound_of_bpkgLoad hload hcount hchunks
  have hquery := bpkgGetCompletedChunks_eq hsound hlen hfresh htree hchunks hnchunks hfirst hname hfile
  unfold reported hashAt
  rw [hhash, hsound.length_chunks]
  exact hquery

/--
On a loaded package whose chunks tile the data file the query is right for every data file if all
chunks have one size. If the package is that of some file then it is right for every data file only
in this case.
-/
theorem bpkgGetCompletedChunks_iff (hload : bpkgLoad obj (some text) dir = .ok (some bpkg))
    (hcount : bpkg.nchunks.toNat = bpkg.nhashes.toNat + 1) (hchunks : bpkg.chunks = .ofList chunks)
    (htiles : TilesFrom 0 chunks) (hname : stripWhitespace bpkg.filename = .ok (some name))
    : (SameSize chunks
        →
      ∀ files data,
        files name = some data
          →
        data.length ≤ totalSize chunks
          →
        ReportsCompleted files bpkg chunks data)
        ∧ ((∃ full : Bytes,
              full.length = totalSize chunks ∧ ∀ chunk ∈ chunks, chunk.complete full = true)
            →
          (∀ files data,
            files name = some data
              →
            data.length ≤ totalSize chunks
              →
            ReportsCompleted files bpkg chunks data)
            →
          SameSize chunks) := by
  obtain ⟨hashes, chunks₀, tree, htree, hsound, hlen, hhash, hfresh, hnchunks, hfits⟩ :=
    treeSound_of_bpkgLoad hload hcount hchunks
  have hne := fun chunk hchunk => (hfits chunk hchunk).1
  have hpos : 0 < chunks.length := by
    rw [hsound.length_chunks]
    omega
  have hfirst := List.getElem?_eq_getElem hpos
  have hsize := (htiles.bounds hfirst).2.1
  have hquery (files : FileSystem) (data : Bytes) (hfile : files name = some data) :=
    bpkgGetCompletedChunks_reported files hload hcount hchunks hfirst hname hfile
  constructor
  . intro hsame files data hfile hle
    have hall : ∀ chunk ∈ chunks, chunk.size.toNat = chunks[0].size.toNat := by
      intro chunk hchunk
      rw [hsame chunk hchunk _ (List.mem_of_getElem? hfirst)]
    rw [totalSize_eq hall] at hle
    have hquery := hquery files data hfile
    rw [reported_eq_completed htiles hne hall, if_pos] at hquery
    . exact hquery
    . rw [Nat.succ_mul]
      omega
  . rintro ⟨full, hfull, hcomplete⟩ hright
    have hall : ∀ j : Nat, ∀ chunk : Chunk, chunks[j]? = some chunk
        → chunk.size.toNat = chunks[0].size.toNat := by
      intro j
      induction j using Nat.strongRecOn with
      | ind j ih =>
        intro chunk hget
        by_contra hsizes
        obtain ⟨data, hle, hnot⟩ := exists_not_perm htiles hne hsize hget ih hsizes hfull
          (hcomplete chunk (List.mem_of_getElem? hget))
        obtain ⟨qry, bpkg', hok, _, hperm⟩ := hright (fun _ => some data) data rfl hle
        have hquery := hquery (fun _ => some data) data rfl
        split at hquery
        . obtain ⟨qry', bpkg'', hok', _, hperm'⟩ := hquery
          rw [hok, Except.ok.injEq, Prod.mk.injEq] at hok'
          rw [← hok'.1] at hperm'
          exact hnot (hperm'.symm.trans hperm)
        . rw [hok] at hquery
          cases hquery
    intro chunk hchunk other hother
    obtain ⟨i, hi⟩ := List.getElem?_of_mem hchunk
    obtain ⟨j, hj⟩ := List.getElem?_of_mem hother
    rw [← UInt32.toNat_inj, hall i chunk hi, hall j other hj]

end Query

def digestAb : Bytes :=
  ascii "fb8e20fc2e4c3f248c60c39bd652f3c1347298bb977b8b4d5903b85055620603"

def digestC : Bytes :=
  ascii "2e7d2c03a9507ae265ecf5b5356885a53393a2029d241394997265a1a25aefc6"

theorem digest_c : Sha256.digest (ascii "c") = digestC := by
  decide +kernel

def twoChunks (size : Bytes) : Bytes :=
  ascii "ident:a\nfilename:f\nsize:4\nnhashes:1\nhashes:\n\tr\nnchunks:2\nchunks:\n\t"
    ++ digestAb ++ ascii ",0,2\n\t" ++ digestC ++ ascii ",2," ++ size ++ ascii "\n"

def twoChunksObj (size : UInt32) : BpkgObj where
  ident := some (ascii "a")
  filename := some (ascii "f")
  size := 4
  nhashes := 1
  hashes := .ofList [ascii "r"]
  nchunks := 2
  chunks := .ofList [⟨digestAb, 0, 2, some 1⟩, ⟨digestC, 2, size, some 2⟩]
  tree := some {
    root :=
      .inner ⟨0, 0, ascii "r", none, []⟩
        (.leaf ⟨1, 1, digestAb, some 0, []⟩) (.leaf ⟨2, 2, digestC, some 0, []⟩)
    nNodes := 3 }

theorem load_twoChunks
    : bpkgLoad ⟨none, none, 7, 7, none, 7, none, none⟩ (some (twoChunks (ascii "2"))) none
        =
      .ok (some (twoChunksObj 2)) := by
  decide +kernel

theorem bpkgGetCompletedChunks_iff_two
    : bpkgLoad ⟨none, none, 7, 7, none, 7, none, none⟩ (some (twoChunks (ascii "2"))) none
        =
      .ok (some (twoChunksObj 2))
        ∧ ∀ files data,
            files (ascii "f") = some data
              →
            data.length ≤ 4
              →
            ReportsCompleted files (twoChunksObj 2) [⟨digestAb, 0, 2, some 1⟩, ⟨digestC, 2, 2, some 2⟩]
              data := by
  have htiles : TilesFrom 0 [⟨digestAb, 0, 2, some 1⟩, ⟨digestC, 2, 2, some 2⟩] :=
    ⟨rfl, by decide, rfl, by decide, trivial⟩
  have hname : stripWhitespace (twoChunksObj 2).filename = .ok (some (ascii "f")) := by
    decide
  refine ⟨load_twoChunks, fun files data hfile hle =>
    (bpkgGetCompletedChunks_iff load_twoChunks rfl rfl htiles hname).1 ?_ files data hfile hle⟩
  intro chunk hchunk other hother
  simp only [List.mem_cons, List.not_mem_nil, or_false] at hchunk hother
  rcases hchunk with rfl | rfl
  . rcases hother with rfl | rfl
    . rfl
    . rfl
  . rcases hother with rfl | rfl
    . rfl
    . rfl

/--
The last chunk is shorter than the first one. Its block ends early and is never hashed.
-/
theorem bpkgGetCompletedChunks_misses_last
    : ∃ bpkg chunks,
        bpkgLoad ⟨none, none, 7, 7, none, 7, none, none⟩ (some (twoChunks (ascii "1"))) none
            =
          .ok (some bpkg)
          ∧ bpkg.nchunks.toNat = bpkg.nhashes.toNat + 1
          ∧ bpkg.chunks = .ofList chunks
          ∧ TilesFrom 0 chunks
          ∧ (ascii "abc").length ≤ totalSize chunks
          ∧ ¬ ReportsCompleted (fun _ => some (ascii "abc")) bpkg chunks (ascii "abc") := by
  have hload
      : bpkgLoad ⟨none, none, 7, 7, none, 7, none, none⟩ (some (twoChunks (ascii "1"))) none
          =
        .ok (some (twoChunksObj 1)) := by
    decide +kernel
  have htiles : TilesFrom 0 [⟨digestAb, 0, 2, some 1⟩, ⟨digestC, 2, 1, some 2⟩] :=
    ⟨rfl, by decide, rfl, by decide, trivial⟩
  have hname : stripWhitespace (twoChunksObj 1).filename = .ok (some (ascii "f")) := by
    decide
  obtain ⟨_, _, _, _, _, _, _, _, _, hfits⟩ := treeSound_of_bpkgLoad hload rfl rfl
  have hhash := fun chunk hchunk => (hfits chunk hchunk).1
  have hlast := hhash ⟨digestC, 2, 1, some 2⟩ (List.mem_of_getElem? (i := 1) rfl)
  have hstored : ∀ j, 1 ≤ j → storedHash 2 (ascii "abc") j = [] := by
    intro j hj
    apply storedHash_of_lt
    have hlen : (ascii "abc").length = 3 := rfl
    omega
  have hnot
      : ¬ (reported 2 (ascii "abc") [⟨digestAb, 0, 2, some 1⟩, ⟨digestC, 2, 1, some 2⟩]).Perm
          (completed (ascii "abc") [⟨digestAb, 0, 2, some 1⟩, ⟨digestC, 2, 1, some 2⟩]) := by
    apply not_perm_of_deviation (m := 1) htiles hhash rfl
    . intro i hi other hother
      have hzero : i = 0 := by omega
      rw [hzero, List.getElem?_cons_zero, Option.some.injEq] at hother
      rw [← hother]
      rfl
    . decide
    . intro j hj
      rw [hstored j (by omega)]
      exact hlast.symm
    . have hcomplete : (Chunk.mk digestC 2 1 (some 2)).complete (ascii "abc") = true := by
        rw [Chunk.complete_iff]
        exact ⟨by decide, digest_c⟩
      rw [hstored 1 (Nat.le_refl 1), hcomplete, beq_eq_false_iff_ne.mpr hlast]
      decide
  refine ⟨_, _, hload, rfl, rfl, htiles, by decide, ?_⟩
  rintro ⟨qry, bpkg', hok, _, hperm⟩
  have hquery := bpkgGetCompletedChunks_reported (fun _ => some (ascii "abc")) hload rfl rfl
    (@rfl _ (some (Chunk.mk digestAb 0 2 (some 1)))) hname rfl
  rw [if_pos (by decide)] at hquery
  obtain ⟨qry', bpkg'', hok', _, hperm'⟩ := hquery
  rw [hok, Except.ok.injEq, Prod.mk.injEq] at hok'
  rw [← hok'.1] at hperm'
  exact hnot (hperm'.symm.trans hperm)

end Btide
