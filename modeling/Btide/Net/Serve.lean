import Btide.Net.SwarmSteps
import Btide.Net.Fetch

/-!
This module contains what the loop that answers a request sends, for every request and every file.
-/

open Bytes CLib

namespace Btide

namespace handlePeers

open getDataFromFile

structure Carries (content : Bytes) (pkt : BtidePacket) (r : Nat × Nat) : Prop where
  error_eq : pkt.error = 0
  dataRecieved_eq : (resArgs pkt).dataRecieved.toNat = r.2
  data_eq : ∃ data, (resArgs pkt).data = some data ∧ data.take r.2 = slice content r.1 r.2

def Readable (bytesRead : Nat) (content : Bytes) (pos : Nat) (r : Nat × Nat) : Prop :=
  r.1 + r.2 ≤ content.length ∧ bytesRead + (r.1 + r.2 - pos) ≤ INT_MAX

/--
How the loop ends behind the first `n` blocks: with nothing left to send, with an error packet for a
block that the file does not have and a read of the closed file, or with an overflow.
-/
inductive Stops (bytesRead : Nat) (content : Bytes) (pos : Nat) (ranges : List (Nat × Nat)) (n : Nat)
    : List BtidePacket → Option Fault → Prop where
  | done (hall : ranges.length ≤ n) : Stops bytesRead content pos ranges n [] none
  | short {r : Nat × Nat} (hget : ranges[n]? = some r) (hshort : content.length < r.1 + r.2)
    : Stops bytesRead content pos ranges n [errorPacket] (some .useAfterFree)
  | overflow {r : Nat × Nat} (hget : ranges[n]? = some r)
      (hmax : INT_MAX < bytesRead + (r.1 + r.2 - pos))
    : Stops bytesRead content pos ranges n [] (some .intOverflow)

structure Sends (bytesRead : Nat) (content : Bytes) (pos m : Nat) (answer : List BtidePacket × Option Fault)
    (n : Nat) : Prop where
  readable : ∀ r ∈ (cut DATA_MAX_SIZE pos m).take n, Readable bytesRead content pos r
  packets : ∃ blocks rest,
    answer.1 = blocks ++ rest
      ∧ List.Forall₂ (Carries content) blocks ((cut DATA_MAX_SIZE pos m).take n)
      ∧ Stops bytesRead content pos (cut DATA_MAX_SIZE pos m) n rest answer.2

section Sends

variable {bytesRead pos m n : Nat} {content : Bytes} {pkt : BtidePacket}

theorem Stops.cons {ranges : List (Nat × Nat)} {k : Nat} {rest : List BtidePacket} {fault : Option Fault}
    {r : Nat × Nat} (hbounds : ∀ r ∈ ranges, pos + k ≤ r.1)
    (h : Stops (bytesRead + k) content (pos + k) ranges n rest fault)
    : Stops bytesRead content pos (r :: ranges) (n + 1) rest fault := by
  cases h with
  | done hall => exact .done (Nat.succ_le_succ hall)
  | short hget hshort => exact .short hget hshort
  | overflow hget hmax =>
    have hbounds := hbounds _ (List.mem_of_getElem? hget)
    refine .overflow hget ?_
    omega

theorem Sends.cons {answer : List BtidePacket × Option Fault} (hm : 0 < m)
    (hpkt : Carries content pkt (pos, min m DATA_MAX_SIZE))
    (hread : Readable bytesRead content pos (pos, min m DATA_MAX_SIZE))
    (h : Sends (bytesRead + min m DATA_MAX_SIZE) content (pos + min m DATA_MAX_SIZE)
        (m - min m DATA_MAX_SIZE) answer n)
    : Sends bytesRead content pos m (pkt :: answer.1, answer.2) (n + 1) := by
  obtain ⟨blocks, rest, hsent, hblocks, hstops⟩ := h.packets
  have hcut := @cut_of_pos DATA_MAX_SIZE pos m (by decide) hm
  have hbounds := fun r => @bounds_of_mem_cut DATA_MAX_SIZE (pos + min m DATA_MAX_SIZE)
    (m - min m DATA_MAX_SIZE) r
  constructor
  . intro r hr
    rw [hcut, List.take_succ_cons, List.mem_cons] at hr
    cases hr with
    | inl hfirst =>
      rw [hfirst]
      exact hread
    | inr hrest =>
      obtain ⟨hin, hmax⟩ := h.readable r hrest
      have hr := hbounds r (List.mem_of_mem_take hrest)
      refine ⟨hin, ?_⟩
      omega
  . refine ⟨pkt :: blocks, rest, ?_, ?_, ?_⟩
    . rw [List.cons_append, ← hsent]
    . rw [hcut, List.take_succ_cons]
      exact List.Forall₂.cons hpkt hblocks
    . rw [hcut]
      apply Stops.cons (fun r hr => (hbounds r hr).1) hstops

end Sends

theorem sendRes_carries {res : ResArgs} {content : Bytes} {pos n : Nat} (hn : n ≤ DATA_MAX_SIZE)
    (hin : pos + n ≤ content.length) (hhash : CHUNK_HASH_SIZE ≤ res.chunkHash.length)
    (hident : IDENT_SIZE ≤ res.ident.length)
    : ∃ pkt, sendRes (afterRead res content pos n) false = .ok pkt ∧ Carries content pkt (pos, n) := by
  obtain ⟨pkt, data, hsend, _, herror, _, htake, hn', hargs⟩ :=
    @sendRes_of_read (afterRead res content pos n) content pos n hn hin rfl rfl hhash hident
  refine ⟨pkt, hsend, herror, ?_, data, ?_, htake⟩
  . rw [hargs]
    exact hn'
  . rw [hargs]

theorem sendBlocks_sends {res : ResArgs} {content : Bytes} {pos m : Nat}
    (hm : res.dataLen.toNat = res.bytesRead + m)
    (hhash : CHUNK_HASH_SIZE ≤ res.chunkHash.length) (hident : IDENT_SIZE ≤ res.ident.length)
    : ∃ n, Sends res.bytesRead content pos m (sendBlocks res (some ⟨content, pos⟩)) n := by
  induction m using Nat.strongRecOn generalizing res pos with
  | ind m ih =>
    have hfirst (hpos : 0 < m) : (cut DATA_MAX_SIZE pos m)[0]? = some (pos, min m DATA_MAX_SIZE) := by
      rw [cut_of_pos (by decide) hpos]
      rfl
    have hturn := @sendBlocks_turn res content pos m hm hhash hident
    generalize sendBlocks res (some ⟨content, pos⟩) = answer at hturn
    cases hturn with
    | done hzero =>
      rw [hzero]
      refine ⟨0, by simp, [], [], rfl, .nil, .done ?_⟩
      rw [cut_zero]
      exact Nat.le_refl 0
    | short hpos hshort =>
      exact ⟨0, by simp, [], [errorPacket], rfl, .nil, .short (hfirst hpos) hshort⟩
    | overflow hpos hin hmax =>
      refine ⟨0, by simp, [], [], rfl, .nil, .overflow (hfirst hpos) ?_⟩
      dsimp only
      omega
    | @block pkt rest hpos hin hmax hsend hrest =>
      have hle : min m DATA_MAX_SIZE ≤ DATA_MAX_SIZE := Nat.min_le_right _ _
      have hless : m - min m DATA_MAX_SIZE < m := by
        unfold DATA_MAX_SIZE
        omega
      obtain ⟨pkt', hsend', hpkt⟩ := sendRes_carries hle hin hhash hident
      rw [hsend, Except.ok.injEq] at hsend'
      rw [← hsend'] at hpkt
      -- the rest of the request starts behind the block
      obtain ⟨n, hsends⟩ := @ih (m - min m DATA_MAX_SIZE) hless
        (afterBlock res content pos (min m DATA_MAX_SIZE)) (pos + min m DATA_MAX_SIZE)
        (by simp only [afterBlock, afterRead]; omega) hhash hident
      rw [hrest] at hsends
      refine ⟨n + 1, Sends.cons hpos hpkt ⟨hin, ?_⟩ hsends⟩
      dsimp only
      omega

structure Serves (packages : ManagedPackages) (files : FileSystem) (res : ResArgs) (bpkg : BpkgObj)
    (content : Bytes) : Prop where
  selects : ∃ slot chosen,
    chunkInMemory packages (cstr res.ident) (cstr res.chunkHash) = .ok (.found slot)
      ∧ packages[slot]? = some (some chosen)
      ∧ computeHashesForChunks files chosen = .ok bpkg
  computed : ∃ entries tree,
    bpkg.chunks = some entries
      ∧ bpkg.tree = some tree
      ∧ getDataFromFile.computed tree.root (cstr res.chunkHash) entries bpkg.nchunks.toNat = .ok true
  sized : ∃ reqArgs, calculateDataLen bpkg (cstr res.chunkHash) (some res.fileOffset) = .ok (some reqArgs)
  file : bpkg.filename.bind files = some content

section Serves

variable {packages : ManagedPackages} {files : FileSystem} {res : ResArgs} {bpkg : BpkgObj}
  {content : Bytes}

theorem Serves.openFile_eq (h : Serves packages files res bpkg content)
    : ∃ packages',
        openFile packages files res
          =
        .ok (some (⟨content, res.fileOffset.toNat⟩, { res with data := some [] }), packages') := by
  obtain ⟨slot, chosen, hfound, hslot, hcompute⟩ := h.selects
  obtain ⟨entries, tree, hentries, htree, hcomputed⟩ := h.computed
  obtain ⟨req, hreq⟩ := h.sized
  obtain ⟨chunk, _, _, _, heq⟩ := calculateDataLen_cases hreq
  refine ⟨packages.set slot (some bpkg), ?_⟩
  unfold openFile
  simp only [hfound, List.getD_eq_getElem?_getD, hslot, Option.getD_some, deref_some, hcompute, hentries,
    htree, hcomputed, hreq, h.file, bind, Except.bind, ↓reduceIte, pure, Except.pure]
  rw [heq]
  rfl

theorem serves_of_openFile {file : OpenFile} {res' : ResArgs} {packages' : ManagedPackages}
    (h : openFile packages files res = .ok (some (file, res'), packages'))
    : ∃ bpkg content, Serves packages files res bpkg content := by
  unfold openFile at h
  simp only [bind_eq_ok] at h
  obtain ⟨lookup, hlookup, h⟩ := h
  cases lookup with
  | noHash => simp [pure, Except.pure] at h
  | noPackage => simp [pure, Except.pure] at h
  | found slot =>
    obtain ⟨chosen, current, hslot, _⟩ := chunkInMemory_cases hlookup
    simp only [bind_eq_ok, List.getD_eq_getElem?_getD, hslot, Option.getD_some, deref_some,
      Except.ok.injEq, exists_eq_left', deref_eq_ok] at h
    obtain ⟨bpkg, hcompute, entries, hentries, tree, htree, has, hcomputed, h⟩ := h
    cases has with
    | false => simp [pure, Except.pure] at h
    | true =>
      simp only [↓reduceIte, bind_eq_ok] at h
      obtain ⟨req, hreq, h⟩ := h
      cases req with
      | none => simp [pure, Except.pure] at h
      | some req =>
        cases hfile : bpkg.filename.bind files with
        | none => simp [hfile, pure, Except.pure] at h
        | some content =>
          exact ⟨bpkg, content, ⟨slot, chosen, hlookup, hslot, hcompute⟩,
            ⟨entries, tree, hentries, htree, hcomputed⟩, ⟨req, hreq⟩, hfile⟩

end Serves

theorem handleReq_sends {packages : ManagedPackages} {files : FileSystem} {pkt : BtidePacket}
    {bpkg : BpkgObj} {content : Bytes} (h : Serves packages files (reqArgs pkt) bpkg content)
    : ∃ n, Sends 0 content (reqArgs pkt).fileOffset.toNat (reqArgs pkt).dataLen.toNat
        ((handleReq packages files pkt).sent, (handleReq packages files pkt).fault) n := by
  have hhash := length_reqArgs_chunkHash pkt
  have hident := length_reqArgs_ident pkt
  obtain ⟨packages', hopen⟩ := h.openFile_eq
  obtain ⟨n, hsends⟩ := @sendBlocks_sends { reqArgs pkt with data := some [] } content
    (reqArgs pkt).fileOffset.toNat (reqArgs pkt).dataLen.toNat (Nat.zero_add _).symm hhash hident
  refine ⟨n, ?_⟩
  unfold handleReq
  rw [hopen]
  exact hsends

theorem handleReq_error {packages : ManagedPackages} {files : FileSystem} {pkt pkt' : BtidePacket}
    (h : ¬ ∃ bpkg content, Serves packages files (reqArgs pkt) bpkg content)
    (hsent : pkt' ∈ (handleReq packages files pkt).sent) : pkt' = errorPacket := by
  unfold handleReq at hsent
  split at hsent
  . simp at hsent
  . next hopen => exact absurd (serves_of_openFile hopen) h
  . simp only [sendRes, ↓reduceIte, pure, Except.pure, List.mem_singleton] at hsent
    exact hsent

section Blocks

variable {bytesRead pos m n k : Nat} {content : Bytes} {answer : List BtidePacket × Option Fault}
  {pkt : BtidePacket} {r : Nat × Nat}

theorem Sends.block_of_error_eq (h : Sends bytesRead content pos m answer n)
    (hget : answer.1[k]? = some pkt) (herror : pkt.error = 0)
    : ∃ r,
        (cut DATA_MAX_SIZE pos m)[k]? = some r
          ∧ Readable bytesRead content pos r
          ∧ Carries content pkt r := by
  obtain ⟨blocks, rest, hsent, hblocks, hstops⟩ := h.packets
  have hrest : ∀ other ∈ rest, other = errorPacket := by
    generalize answer.2 = fault at hstops
    cases hstops with
    | done => simp
    | short => simp
    | overflow => simp
  rw [hsent] at hget
  by_cases hk : k < blocks.length
  . have hk' : k < ((cut DATA_MAX_SIZE pos m).take n).length := by
      rw [← hblocks.length_eq]
      exact hk
    have hr := List.getElem?_eq_getElem hk'
    have hcarries := hblocks.get hk hk'
    rw [List.getElem?_append_left hk, List.getElem?_eq_getElem hk, Option.some.injEq] at hget
    refine ⟨_, ?_, h.readable _ (List.mem_of_getElem? hr), ?_⟩
    . rw [← hr, List.getElem?_take_of_lt]
      rw [List.length_take] at hk'
      omega
    . rw [← hget]
      exact hcarries
  . rw [List.getElem?_append_right (Nat.le_of_not_lt hk)] at hget
    rw [hrest pkt (List.mem_of_getElem? hget)] at herror
    exact absurd herror (by decide)

theorem Sends.block_of_readable (h : Sends bytesRead content pos m answer n)
    (hr : (cut DATA_MAX_SIZE pos m)[k]? = some r) (hread : Readable bytesRead content pos r)
    : ∃ pkt, answer.1[k]? = some pkt ∧ Carries content pkt r := by
  obtain ⟨blocks, rest, hsent, hblocks, hstops⟩ := h.packets
  obtain ⟨hin, hmax⟩ := hread
  have hlt := (List.getElem?_eq_some_iff.mp hr).1
  have hk : k < n := by
    apply Nat.lt_of_not_le
    intro hnk
    generalize answer.2 = fault at hstops
    cases hstops with
    | done hall => omega
    | short hget hshort =>
      have hend := end_le_of_getElem?_cut hget hr hnk
      omega
    | overflow hget hover =>
      have hend := end_le_of_getElem?_cut hget hr hnk
      omega
  have hk' : k < ((cut DATA_MAX_SIZE pos m).take n).length := by
    rw [List.length_take]
    omega
  have hk'' : k < blocks.length := by
    rw [hblocks.length_eq]
    exact hk'
  have hcarries := hblocks.get hk'' hk'
  have hget := List.getElem?_take_of_lt (l := cut DATA_MAX_SIZE pos m) hk
  rw [hr, List.getElem?_eq_getElem hk', Option.some.injEq] at hget
  refine ⟨blocks[k], ?_, ?_⟩
  . rw [hsent, List.getElem?_append_left hk'', List.getElem?_eq_getElem hk'']
  . rw [← hget]
    exact hcarries

end Blocks

theorem Serves.unique {packages : ManagedPackages} {files : FileSystem} {res : ResArgs}
    {bpkg bpkg' : BpkgObj} {content content' : Bytes} (h : Serves packages files res bpkg content)
    (h' : Serves packages files res bpkg' content') : bpkg = bpkg' ∧ content = content' := by
  obtain ⟨slot, chosen, hfound, hslot, hcompute⟩ := h.selects
  obtain ⟨slot', chosen', hfound', hslot', hcompute'⟩ := h'.selects
  rw [hfound, Except.ok.injEq, Lookup.found.injEq] at hfound'
  rw [← hfound', hslot, Option.some.injEq, Option.some.injEq] at hslot'
  rw [← hslot', hcompute, Except.ok.injEq] at hcompute'
  have hfile := h.file
  have hfile' := h'.file
  rw [← hcompute', hfile, Option.some.injEq] at hfile'
  exact ⟨hcompute', hfile'⟩

def BeforeEnd (bpkg : BpkgObj) (hash : Bytes) (pos : Nat) : Prop :=
  ∃ chunk,
    bpkg.HasChunk chunk ∧ chunk.hash = hash ∧ pos < chunk.offset.toNat + chunk.size.toNat

def Confined (packages : ManagedPackages) (files : FileSystem) (pkt : BtidePacket) : Prop :=
  ∀ (k : Nat) (res : BtidePacket),
    (handlePeers.handleReq packages files pkt).sent[k]? = some res
      →
    res.error = 0
      →
    ∃ bpkg content data,
      Serves packages files (reqArgs pkt) bpkg content
        ∧ (resArgs res).data = some data
        ∧ ∀ i < (resArgs res).dataRecieved.toNat,
            let pos := (reqArgs pkt).fileOffset.toNat + DATA_MAX_SIZE * k + i
            pos < content.length
              ∧ data[i]? = content[pos]?
              ∧ BeforeEnd bpkg (cstr (reqArgs pkt).chunkHash) pos

section Confined

variable {packages : ManagedPackages} {files : FileSystem} {pkt : BtidePacket}

theorem Confined.beforeEnd (h : Confined packages files pkt) {bpkg : BpkgObj} {content : Bytes}
    (hserves : Serves packages files (reqArgs pkt) bpkg content) {r : Nat × Nat}
    (hr : r ∈ cut DATA_MAX_SIZE (reqArgs pkt).fileOffset.toNat (reqArgs pkt).dataLen.toNat)
    (hread : Readable 0 content (reqArgs pkt).fileOffset.toNat r)
    : BeforeEnd bpkg (cstr (reqArgs pkt).chunkHash) (r.1 + r.2 - 1) := by
  obtain ⟨n, hsends⟩ := handleReq_sends hserves
  obtain ⟨k, hk⟩ := List.getElem?_of_mem hr
  have hbounds := bounds_of_mem_cut hr
  obtain ⟨heq, _⟩ := getElem?_cut hk
  obtain ⟨res, hget, hcarries⟩ := hsends.block_of_readable hk hread
  obtain ⟨bpkg', content', data, hserves', _, hall⟩ := h k res hget hcarries.error_eq
  -- the last byte of the block
  obtain ⟨_, _, hbefore⟩ := hall (r.2 - 1) (by rw [hcarries.dataRecieved_eq]; omega)
  have hlast : (reqArgs pkt).fileOffset.toNat + DATA_MAX_SIZE * k + (r.2 - 1) = r.1 + r.2 - 1 := by
    have hfst := congrArg Prod.fst heq
    dsimp only at hfst
    omega
  rw [hlast, ← (hserves.unique hserves').1] at hbefore
  exact hbefore

theorem confined_of_beforeEnd
    (h : ∀ bpkg content,
      Serves packages files (reqArgs pkt) bpkg content
        →
      ∀ r ∈ cut DATA_MAX_SIZE (reqArgs pkt).fileOffset.toNat (reqArgs pkt).dataLen.toNat,
        Readable 0 content (reqArgs pkt).fileOffset.toNat r
          →
        BeforeEnd bpkg (cstr (reqArgs pkt).chunkHash) (r.1 + r.2 - 1))
    : Confined packages files pkt := by
  intro k res hget herror
  by_cases hserves : ∃ bpkg content, Serves packages files (reqArgs pkt) bpkg content
  . obtain ⟨bpkg, content, hserves⟩ := hserves
    obtain ⟨n, hsends⟩ := handleReq_sends hserves
    obtain ⟨r, hk, hread, hcarries⟩ := hsends.block_of_error_eq hget herror
    obtain ⟨heq, _⟩ := getElem?_cut hk
    have hfst := congrArg Prod.fst heq
    dsimp only at hfst
    obtain ⟨data, hdata, htake⟩ := hcarries.data_eq
    obtain ⟨chunk, hchunk, hhash, hend⟩ := h bpkg content hserves r (List.mem_of_getElem? hk) hread
    refine ⟨bpkg, content, data, hserves, hdata, ?_⟩
    intro i hi
    rw [hcarries.dataRecieved_eq] at hi
    rw [← hfst]
    have hin := hread.1
    refine ⟨by omega, ?_, chunk, hchunk, hhash, by omega⟩
    have hbyte := congrArg (·[i]?) htake
    simp only [List.getElem?_take_of_lt hi, getElem?_slice, if_pos hi] at hbyte
    exact hbyte
  . rw [handleReq_error hserves (List.mem_of_getElem? hget)] at herror
    exact absurd herror (by decide)

theorem confined_of_le
    (h : ∀ bpkg content req,
      Serves packages files (reqArgs pkt) bpkg content
        →
      calculateDataLen bpkg (cstr (reqArgs pkt).chunkHash) (some (reqArgs pkt).fileOffset) = .ok (some req)
        →
      (reqArgs pkt).dataLen.toNat ≤ req.dataLen.toNat)
    : Confined packages files pkt := by
  apply confined_of_beforeEnd
  intro bpkg content hserves r hr _
  obtain ⟨req, hreq⟩ := hserves.sized
  obtain ⟨chunk, hchunk, hhash, hspans, hresult⟩ := calculateDataLen_cases hreq
  obtain ⟨_, hhi, hend⟩ := Chunk.end_of_spans hspans
  have hle := h bpkg content req hserves hreq
  have hbounds := bounds_of_mem_cut hr
  rw [hresult] at hle
  simp only [calculateDataLen.result] at hle
  rw [UInt32.toNat_sub_of_le _ _ (UInt32.le_iff_toNat_le.mpr hhi)] at hle
  exact ⟨chunk, hchunk, hhash, by omega⟩

/--
The answer stays inside the chunk exactly if the blocks of the range that the file has do. The range
is the one that the peer asks for: the length of the chunk is computed but does not bound it.
-/
theorem handleReq_confined_iff (packages : ManagedPackages) (files : FileSystem) (pkt : BtidePacket)
    : Confined packages files pkt
        ↔
      ∀ bpkg content,
        Serves packages files (reqArgs pkt) bpkg content
          →
        ∀ r ∈ cut DATA_MAX_SIZE (reqArgs pkt).fileOffset.toNat (reqArgs pkt).dataLen.toNat,
          Readable 0 content (reqArgs pkt).fileOffset.toNat r
            →
          BeforeEnd bpkg (cstr (reqArgs pkt).chunkHash) (r.1 + r.2 - 1) := by
  constructor
  . intro h bpkg content hserves r hr hread
    exact h.beforeEnd hserves hr hread
  . exact confined_of_beforeEnd

end Confined

/--
The loop ends in time exactly if the file has the whole range, whose length must be an `int`. A block
that the file does not have ends in a read of the closed file.
-/
theorem handleReq_ends_iff (packages : ManagedPackages) (files : FileSystem) (pkt : BtidePacket)
    : (∀ bpkg content,
        Serves packages files (reqArgs pkt) bpkg content
          →
        (handleReq packages files pkt).fault = none
          ∧ (handleReq packages files pkt).sent.length
              ≤
            ((reqArgs pkt).dataLen.toNat + DATA_MAX_SIZE - 1) / DATA_MAX_SIZE)
        ↔
      ∀ bpkg content,
        Serves packages files (reqArgs pkt) bpkg content
          →
        (reqArgs pkt).dataLen.toNat = 0
          ∨ ((reqArgs pkt).fileOffset.toNat + (reqArgs pkt).dataLen.toNat ≤ content.length
              ∧ (reqArgs pkt).dataLen.toNat ≤ INT_MAX) := by
  constructor
  . intro h bpkg content hserves
    obtain ⟨hfault, _⟩ := h bpkg content hserves
    obtain ⟨n, hsends⟩ := handleReq_sends hserves
    obtain ⟨blocks, rest, _, _, hstops⟩ := hsends.packets
    dsimp only at hstops
    rw [hfault] at hstops
    cases hstops with
    | done hall =>
      by_cases hzero : (reqArgs pkt).dataLen.toNat = 0
      . exact .inl hzero
      . -- the block with the last byte
        obtain ⟨r, hr, _, hlast⟩ := @mem_cut_of_between DATA_MAX_SIZE (reqArgs pkt).fileOffset.toNat
          (reqArgs pkt).dataLen.toNat (by decide)
          ((reqArgs pkt).fileOffset.toNat + (reqArgs pkt).dataLen.toNat - 1) (by omega) (by omega)
        have hbounds := bounds_of_mem_cut hr
        rw [← List.take_of_length_le hall] at hr
        obtain ⟨hin, hmax⟩ := hsends.readable r hr
        refine .inr ⟨?_, ?_⟩
        . omega
        . omega
  . intro h bpkg content hserves
    obtain ⟨n, hsends⟩ := handleReq_sends hserves
    obtain ⟨blocks, rest, hsent, hblocks, hstops⟩ := hsends.packets
    have hfits {r : Nat × Nat} (hget : (cut DATA_MAX_SIZE (reqArgs pkt).fileOffset.toNat
        (reqArgs pkt).dataLen.toNat)[n]? = some r)
        : r.1 + r.2 ≤ content.length ∧ r.1 + r.2 - (reqArgs pkt).fileOffset.toNat ≤ INT_MAX := by
      have hbounds := bounds_of_mem_cut (List.mem_of_getElem? hget)
      cases h bpkg content hserves with
      | inl hzero => omega
      | inr hwhole => omega
    dsimp only at hsent hstops
    generalize (handleReq packages files pkt).fault = fault at hstops
    cases hstops with
    | done hall =>
      refine ⟨rfl, ?_⟩
      rw [hsent, List.append_nil, hblocks.length_eq, List.length_take, ← length_cut (by decide)
        (reqArgs pkt).fileOffset.toNat]
      exact Nat.min_le_right _ _
    | short hget hshort =>
      have := hfits hget
      omega
    | overflow hget hover =>
      have := hfits hget
      omega

theorem Package.IsLoaded.serves {packages : ManagedPackages} {files : FileSystem} {res : ResArgs}
    {pkg : Package} {bpkg : BpkgObj} {slot : Nat} {name content : Bytes} (hpkg : pkg.IsLoaded bpkg)
    (hslot : packages[slot]? = some (some bpkg))
    (hfound : chunkInMemory packages (cstr res.ident) (cstr res.chunkHash) = .ok (.found slot))
    (hname : stripWhitespace bpkg.filename = .ok (some name)) (hfile : files name = some content)
    (hlen : content.length = pkg.length)
    (hcontains : (pkg.digests content).contains (cstr res.chunkHash) = true) {chunk : Chunk}
    (hpick : pkg.pick (cstr res.chunkHash) (some res.fileOffset) = some chunk)
    : ∃ bpkg', pkg.IsLoaded bpkg' ∧ Serves packages files res bpkg' content := by
  obtain ⟨bpkg', hcompute, hpkg', hhashed, _, hfilename⟩ := hpkg.computeHashes hname hfile hlen
  obtain ⟨tree, chunks, htree, hchunks, _⟩ := hpkg'.sound
  have hcomputed := hhashed (cstr res.chunkHash) tree (chunks.map some) htree hchunks
  have hdata := hpkg'.calculateDataLen_eq (cstr res.chunkHash) (some res.fileOffset)
  rw [hcontains] at hcomputed
  rw [hpick] at hdata
  refine ⟨bpkg', hpkg', ⟨slot, bpkg, hfound, hslot, hcompute⟩, ⟨_, tree, hchunks, htree, hcomputed⟩,
    ⟨_, hdata⟩, ?_⟩
  rw [hfilename]
  exact hfile

end handlePeers

theorem Package.IsLoaded.mem_of_hasChunk {pkg : Package} {bpkg : BpkgObj} {chunk : Chunk}
    (h : pkg.IsLoaded bpkg) (hchunk : bpkg.HasChunk chunk)
    : ∃ chunk' ∈ pkg.chunks,
        chunk'.hash = chunk.hash ∧ chunk'.offset = chunk.offset ∧ chunk'.size = chunk.size := by
  obtain ⟨tree, chunks, _, hchunks, hsound⟩ := h.sound
  obtain ⟨entries, j, hentries, _, hget⟩ := hchunk
  rw [hchunks, PtrArray.ofList, Option.some.injEq] at hentries
  rw [← hentries, List.getElem?_map, Option.map_eq_some_iff] at hget
  obtain ⟨other, hother, heq⟩ := hget
  rw [Option.some.injEq] at heq
  have hmap : chunks.map (fun chunk => (chunk.hash, chunk.offset, chunk.size))
      = pkg.chunks.map (fun chunk => (chunk.hash, chunk.offset, chunk.size)) :=
    hsound.map_nodePtr pkg.length_chunks fun _ _ => rfl
  have hmem := List.mem_map_of_mem (f := fun chunk : Chunk => (chunk.hash, chunk.offset, chunk.size))
    (List.mem_of_getElem? hother)
  rw [hmap, heq, List.mem_map] at hmem
  obtain ⟨chunk', hmem', heq'⟩ := hmem
  simp only [Prod.mk.injEq] at heq'
  exact ⟨chunk', hmem', heq'⟩

namespace handlePeers

def firstByte : Package where
  hashes := [letters 118]
  chunks := [⟨digestC, 0, 1, none⟩, ⟨letters 117, 1, 1, none⟩]
  chunkSize := 1
  length_chunks := rfl
  tiles := ⟨rfl, Nat.one_pos, rfl, Nat.one_pos, trivial⟩
  size_eq := by simp
  length_hash_le := by decide

theorem firstByte_serves (len : UInt32)
    : ∃ bpkg bpkg' pkt,
        firstByte.IsLoaded bpkg
          ∧ firstByte.IsLoaded bpkg'
          ∧ (reqArgs pkt).dataLen = len
          ∧ (reqArgs pkt).fileOffset = 0
          ∧ cstr (reqArgs pkt).chunkHash = digestC
          ∧ Serves [some bpkg] (fun _ => some (ascii "cd")) (reqArgs pkt) bpkg' (ascii "cd") := by
  obtain ⟨bpkg, hloaded, hname, hident'⟩ :=
    firstByte.exists_manages (show 1 < 2 ^ 30 by decide) (cstr longIdent)
  obtain ⟨pkt, _, _, hargs⟩ := @reqArgs_of_sendReq
    { dataLen := len, ident := longIdent, chunkHash := digestC, fileOffset := 0 }
    (show CHUNK_HASH_SIZE ≤ digestC.length by decide) (Nat.le_of_eq length_longIdent.symm)
  have hident : cstr (reqArgs pkt).ident = cstr longIdent := by
    rw [hargs]
    dsimp only
    rw [cstr_append_replicate, List.take_of_length_le (Nat.le_of_eq length_longIdent)]
  have hhash : cstr (reqArgs pkt).chunkHash = digestC := by
    rw [hargs]
    show cstr (digestC.take CHUNK_HASH_SIZE ++ [0]) = digestC
    decide
  have hoffset : (reqArgs pkt).fileOffset = 0 := by rw [hargs]
  have hfound := (manages_first hident' []).chunkInMemory_found hloaded (show List.Nodup _ by decide)
    (List.mem_of_getElem? (i := 0) rfl)
  have hcontains : (firstByte.digests (ascii "cd")).contains digestC = true := by
    rw [List.contains_iff_mem, Package.digests, List.mem_map]
    exact ⟨⟨digestC, 0, 1, none⟩, List.mem_of_getElem? (i := 0) rfl, digest_c⟩
  obtain ⟨bpkg', hloaded', hserves⟩ := @Package.IsLoaded.serves _ (fun _ => some (ascii "cd"))
    (reqArgs pkt) _ _ 0 (ascii "f") (ascii "cd") hloaded rfl (by rw [hident, hhash]; exact hfound)
    (by rw [hname]; decide) rfl rfl (by rw [hhash]; exact hcontains)
    ⟨digestC, 0, 1, none⟩ (by rw [hhash, hoffset]; decide)
  exact ⟨bpkg, bpkg', pkt, hloaded, hloaded', by rw [hargs], hoffset, hhash, hserves⟩

theorem handleReq_confined_fails
    : ∃ bpkg pkt,
        firstByte.IsLoaded bpkg
          ∧ (reqArgs pkt).dataLen = 2
          ∧ (reqArgs pkt).fileOffset = 0
          ∧ cstr (reqArgs pkt).chunkHash = digestC
          ∧ (∃ res data,
              (handleReq [some bpkg] (fun _ => some (ascii "cd")) pkt).sent[0]? = some res
                ∧ res.error = 0
                ∧ (resArgs res).dataRecieved = 2
                ∧ (resArgs res).data = some data
                ∧ data.take 2 = ascii "cd")
          ∧ ¬ Confined [some bpkg] (fun _ => some (ascii "cd")) pkt := by
  obtain ⟨bpkg, bpkg', pkt, hloaded, hloaded', hlen, hoffset, hhash, hserves⟩ := firstByte_serves 2
  obtain ⟨n, hsends⟩ := handleReq_sends hserves
  rw [hlen, hoffset] at hsends
  have hcut : (cut DATA_MAX_SIZE (0 : UInt32).toNat (2 : UInt32).toNat)[0]? = some (0, 2) := by
    rw [cut_of_pos (by decide) (by decide)]
    rfl
  obtain ⟨res, hget, hcarries⟩ := hsends.block_of_readable hcut ⟨by decide, by decide⟩
  obtain ⟨data, hdata, htake⟩ := hcarries.data_eq
  refine ⟨bpkg, pkt, hloaded, hlen, hoffset, hhash,
    ⟨res, data, hget, hcarries.error_eq, ?_, hdata, htake⟩, ?_⟩
  . exact UInt16.toNat_inj.mp hcarries.dataRecieved_eq
  . intro h
    obtain ⟨other, content, data, hserves', _, hall⟩ := h 0 res hget hcarries.error_eq
    obtain ⟨_, _, chunk, hchunk, heq, hend⟩ := hall 1 (by rw [hcarries.dataRecieved_eq]; decide)
    rw [← (hserves.unique hserves').1] at hchunk
    obtain ⟨chunk', hmem, hhash', hoffset', hsize'⟩ := hloaded'.mem_of_hasChunk hchunk
    rw [hhash, ← hhash'] at heq
    rw [hoffset, ← hoffset', ← hsize'] at hend
    have hends : ∀ chunk ∈ firstByte.chunks, chunk.hash = digestC →
        chunk.offset.toNat + chunk.size.toNat = 1 := by
      decide
    rw [hends chunk' hmem heq] at hend
    exact absurd hend (by decide)

theorem handleReq_reads_closed
    : ∃ bpkg pkt,
        firstByte.IsLoaded bpkg
          ∧ (reqArgs pkt).dataLen = 3
          ∧ (reqArgs pkt).fileOffset = 0
          ∧ cstr (reqArgs pkt).chunkHash = digestC
          ∧ (handleReq [some bpkg] (fun _ => some (ascii "cd")) pkt).sent = [errorPacket]
          ∧ (handleReq [some bpkg] (fun _ => some (ascii "cd")) pkt).fault = some .useAfterFree := by
  obtain ⟨bpkg, bpkg', pkt, hloaded, _, hlen, hoffset, hhash, hserves⟩ := firstByte_serves 3
  obtain ⟨n, hsends⟩ := handleReq_sends hserves
  rw [hlen, hoffset] at hsends
  have hcut : cut DATA_MAX_SIZE (0 : UInt32).toNat (3 : UInt32).toNat = [(0, 3)] := by
    rw [cut_of_pos (by decide) (by decide)]
    exact congrArg _ (cut_zero _ _)
  obtain ⟨blocks, rest, hsent, hblocks, hstops⟩ := hsends.packets
  have hreadable := hsends.readable
  rw [hcut] at hblocks hstops hreadable
  have hn : n = 0 := by
    cases n with
    | zero => rfl
    | succ n => exact absurd (hreadable (0, 3) List.mem_cons_self).1 (by decide)
  rw [hn] at hblocks hstops
  rw [List.take_zero, List.forall₂_nil_right_iff] at hblocks
  rw [hblocks, List.nil_append] at hsent
  refine ⟨bpkg, pkt, hloaded, hlen, hoffset, hhash, ?_⟩
  dsimp only at hsent hstops
  generalize (handleReq [some bpkg] (fun _ => some (ascii "cd")) pkt).fault = fault at hstops ⊢
  rw [hsent]
  cases hstops with
  | done hall => exact absurd hall (by decide)
  | short => exact ⟨rfl, rfl⟩
  | overflow hget hover =>
    rw [List.getElem?_cons_zero, Option.some.injEq] at hget
    rw [← hget] at hover
    exact absurd hover (by decide)

end handlePeers

end Btide
