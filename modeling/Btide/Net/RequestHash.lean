import Btide.Net.IdentMatch
import Btide.Net.Serve
import Btide.Net.StatusReport

/-!
This module contains what the answer to a request depends on: its hash is copied to an array whose last
byte is never assigned.
-/

open Bytes CLib

namespace Btide

open MerkleTreeNode

theorem chunkInMemory_managed {packages : ManagedPackages}
    (hmanaged : ∀ bpkg, some bpkg ∈ packages → bpkg.Managed) (ident hash : Bytes)
    : chunkInMemory packages ident hash = .ok .noHash
        ∨ chunkInMemory packages ident hash = .ok .noPackage
        ∨ ∃ slot, chunkInMemory packages ident hash = .ok (.found slot) ∧ hash.length ≤ CHUNK_HASH_SIZE := by
  have hident : ∀ bpkg, some bpkg ∈ packages → bpkg.ident.isSome := by
    intro bpkg hbpkg
    exact (hmanaged bpkg hbpkg).removable.1
  rcases Manages.exists_or hident ident with ⟨slot, bpkg, hmanages⟩ | hnone
  . obtain ⟨hashes, chunks₀, chunks, rest, tree, hshape⟩ :=
      (hmanaged bpkg (List.mem_of_getElem? hmanages.slot_eq)).shape
    obtain ⟨node, hnode, hmem⟩ := tree.root.exists_firstLikeRoot
    rw [hshape.chunkInMemory_eq hmanages hnode]
    split
    . next hin =>
      obtain ⟨info, hinfo, hvalue⟩ := List.mem_map.mp hin
      have hleaf := (hshape.mem_leaf_values hash).mp
        (List.mem_map.mpr ⟨info, leaves_subset hmem hinfo, hvalue⟩)
      obtain ⟨chunk, hchunk, heq⟩ := List.mem_map.mp hleaf
      have hle := (hshape.hash_ok chunk hchunk).2
      rw [heq] at hle
      exact .inr (.inr ⟨slot, rfl, hle⟩)
    . exact .inl rfl
  . exact .inr (.inl (hnone hash 0))

namespace handlePeers

open getDataFromFile

def reqArgsOn (stack : Bytes) (pkt : BtidePacket) : ResArgs :=
  { reqArgs pkt with chunkHash := slice pkt.pl.val 8 CHUNK_HASH_SIZE ++ stack }

def handleReqOn (stack : Bytes) (packages : ManagedPackages) (files : FileSystem) (pkt : BtidePacket)
    : Answer :=
  match openFile packages files (reqArgsOn stack pkt) with
  | .error e => { sent := [], fault := some e, packages }
  | .ok (some (file, resArgs), packages) =>
    let (sent, fault) := sendBlocks resArgs (some file)
    { sent, fault, packages }
  | .ok (none, packages) =>
    match sendRes (reqArgsOn stack pkt) true with
    | .error e => { sent := [], fault := some e, packages }
    | .ok pkt => { sent := [pkt], fault := none, packages }

theorem handleReqOn_zero : handleReqOn [0] = handleReq :=
  rfl

inductive Refuses (files : FileSystem) (res : ResArgs) (chosen : BpkgObj) : Prop where
  | notComputed {bpkg : BpkgObj} {entries : List (Option Chunk)} {tree : MerkleTree}
      (hcompute : computeHashesForChunks files chosen = .ok bpkg) (hentries : bpkg.chunks = some entries)
      (htree : bpkg.tree = some tree)
      (hcomputed : computed tree.root (cstr res.chunkHash) entries bpkg.nchunks.toNat = .ok false)
  | noRange {bpkg : BpkgObj} {entries : List (Option Chunk)} {tree : MerkleTree}
      (hcompute : computeHashesForChunks files chosen = .ok bpkg) (hentries : bpkg.chunks = some entries)
      (htree : bpkg.tree = some tree)
      (hcomputed : computed tree.root (cstr res.chunkHash) entries bpkg.nchunks.toNat = .ok true)
      (hrange : calculateDataLen bpkg (cstr res.chunkHash) (some res.fileOffset) = .ok none)
  | noFile {bpkg : BpkgObj} {entries : List (Option Chunk)} {tree : MerkleTree} {req : ReqArgs}
      (hcompute : computeHashesForChunks files chosen = .ok bpkg) (hentries : bpkg.chunks = some entries)
      (htree : bpkg.tree = some tree)
      (hcomputed : computed tree.root (cstr res.chunkHash) entries bpkg.nchunks.toNat = .ok true)
      (hrange : calculateDataLen bpkg (cstr res.chunkHash) (some res.fileOffset) = .ok (some req))
      (hfile : bpkg.filename.bind files = none)

/--
The packets of the answer, and whether it ends with a fault, are the same for all bytes that the stack
may have behind the hash up to the next terminator.
-/
def SameAnswer (packages : ManagedPackages) (files : FileSystem) (pkt : BtidePacket) : Prop :=
  ∀ stack stack',
    0 ∈ stack
      → 0 ∈ stack'
      → (handleReqOn stack packages files pkt).sent = (handleReqOn stack' packages files pkt).sent
          ∧ (handleReqOn stack packages files pkt).fault = (handleReqOn stack' packages files pkt).fault

variable {packages : ManagedPackages} {files : FileSystem} {res : ResArgs} {pkt : BtidePacket}

section Congr

theorem readFile_chunkHash (res : ResArgs) (file : Option OpenFile) (chunkHash : Bytes)
    : readFile { res with chunkHash } file
        =
      (readFile res file).map fun answer => ({ answer.1 with chunkHash }, answer.2) := by
  unfold readFile
  cases file with
  | none => rfl
  | some file =>
    dsimp only
    generalize (if (res.dataLen - UInt32.ofNat res.bytesRead).toNat < DATA_MAX_SIZE then
      (res.dataLen - UInt32.ofNat res.bytesRead).toNat else DATA_MAX_SIZE) = readAmount
    split
    . rfl
    . simp only [bind, Except.bind]
      cases intOfNat (res.bytesRead + (slice file.content file.pos readAmount).length) with
      | error e => rfl
      | ok bytesRead => rfl

theorem chunkHash_of_readFile {res res' : ResArgs} {file file' : Option OpenFile}
    (h : readFile res file = .ok (res', file')) : res'.chunkHash = res.chunkHash := by
  have hsame := readFile_chunkHash res file res.chunkHash
  rw [show { res with chunkHash := res.chunkHash } = res from rfl, h] at hsame
  simp only [Except.map, Except.ok.injEq, Prod.mk.injEq] at hsame
  rw [hsame.1]

theorem sendRes_chunkHash {chunkHash : Bytes} (h : memcpy chunkHash CHUNK_HASH_SIZE
      = memcpy res.chunkHash CHUNK_HASH_SIZE) (error : Bool)
    : sendRes { res with chunkHash } error = sendRes res error := by
  unfold sendRes
  simp only [h]

theorem sendBlocks_chunkHash {chunkHash : Bytes} {file : Option OpenFile}
    (h : memcpy chunkHash CHUNK_HASH_SIZE = memcpy res.chunkHash CHUNK_HASH_SIZE)
    : sendBlocks { res with chunkHash } file = sendBlocks res file := by
  fun_induction sendBlocks res file with
  | case1 res file hlt e hread =>
    apply @sendBlocks_of_error { res with chunkHash } file e hlt
    rw [readFile_chunkHash, hread]
    rfl
  | case2 res file hlt res' file' hread e hsend =>
    have hread' : readFile { res with chunkHash } file = .ok ({ res' with chunkHash }, file') := by
      rw [readFile_chunkHash, hread]
      rfl
    rw [← chunkHash_of_readFile hread] at h
    apply @sendBlocks_of_unsent { res with chunkHash } _ file _ e hlt hread'
    rw [sendRes_chunkHash h]
    exact hsend
  | case3 res file hlt res' file' hread pkt hsend fileOffset sent fault hrest ih =>
    have hread' : readFile { res with chunkHash } file = .ok ({ res' with chunkHash }, file') := by
      rw [readFile_chunkHash, hread]
      rfl
    rw [← chunkHash_of_readFile hread] at h
    have hturn := @sendBlocks_of_read { res with chunkHash } _ file _ pkt hlt hread'
      (by rw [sendRes_chunkHash h]; exact hsend)
    have hnext := (ih h).trans hrest
    dsimp only at hturn
    simp only [fileOffset, dite_eq_ite] at hnext
    rw [hturn, hnext]
  | case4 res file hge => exact @sendBlocks_of_ge { res with chunkHash } file hge

end Congr

theorem openFile_chunkHash {chunkHash : Bytes} (h : cstr chunkHash = cstr res.chunkHash)
    : openFile packages files { res with chunkHash }
        =
      (openFile packages files res).map fun answer =>
        (answer.1.map fun opened => (opened.1, { opened.2 with chunkHash }), answer.2) := by
  unfold openFile
  simp only [h]
  cases chunkInMemory packages (cstr res.ident) (cstr res.chunkHash) with
  | error e => rfl
  | ok lookup =>
    cases lookup with
    | noHash => rfl
    | noPackage => rfl
    | found slot =>
      simp only [bind, Except.bind]
      cases deref (packages.getD slot none) with
      | error e => rfl
      | ok chosen =>
        dsimp only
        cases computeHashesForChunks files chosen with
        | error e => rfl
        | ok bpkg =>
          dsimp only
          cases deref bpkg.chunks with
          | error e => rfl
          | ok entries =>
            dsimp only
            cases deref bpkg.tree with
            | error e => rfl
            | ok tree =>
              dsimp only
              cases computed tree.root (cstr res.chunkHash) entries bpkg.nchunks.toNat with
              | error e => rfl
              | ok has =>
                cases has with
                | false => rfl
                | true =>
                  dsimp only
                  cases calculateDataLen bpkg (cstr res.chunkHash) (some res.fileOffset) with
                  | error e => rfl
                  | ok answer =>
                    cases answer with
                    | none => rfl
                    | some req =>
                      dsimp only
                      cases bpkg.filename.bind files with
                      | none => rfl
                      | some content => rfl

theorem chunkHash_of_openFile {file : OpenFile} {res' : ResArgs} {packages' : ManagedPackages}
    (h : openFile packages files res = .ok (some (file, res'), packages'))
    : res'.chunkHash = res.chunkHash := by
  have hsame := @openFile_chunkHash packages files res res.chunkHash rfl
  rw [show { res with chunkHash := res.chunkHash } = res from rfl, h] at hsame
  simp only [Except.map, Option.map_some, Except.ok.injEq, Prod.mk.injEq, Option.some.injEq] at hsame
  rw [hsame.1.2]

def hashBytes (pkt : BtidePacket) : Bytes :=
  slice pkt.pl.val 8 CHUNK_HASH_SIZE

theorem length_hashBytes (pkt : BtidePacket) : (hashBytes pkt).length = CHUNK_HASH_SIZE :=
  BtidePayload.length_slice_val (by decide)

theorem memcpy_hashBytes (pkt : BtidePacket) (stack : Bytes)
    : memcpy (hashBytes pkt ++ stack) CHUNK_HASH_SIZE = .ok (hashBytes pkt) := by
  have hlen : CHUNK_HASH_SIZE ≤ (hashBytes pkt ++ stack).length := by
    rw [List.length_append, length_hashBytes]
    omega
  unfold memcpy
  rw [if_pos hlen, List.take_left' (length_hashBytes pkt)]

theorem handleReqOn_congr {stack stack' : Bytes}
    (h : cstr (hashBytes pkt ++ stack) = cstr (hashBytes pkt ++ stack'))
    : (handleReqOn stack packages files pkt).sent = (handleReqOn stack' packages files pkt).sent
        ∧ (handleReqOn stack packages files pkt).fault = (handleReqOn stack' packages files pkt).fault := by
  have hopen := @openFile_chunkHash packages files (reqArgsOn stack' pkt) (hashBytes pkt ++ stack) h
  rw [show { reqArgsOn stack' pkt with chunkHash := hashBytes pkt ++ stack } = reqArgsOn stack pkt from rfl]
    at hopen
  have hmem := (memcpy_hashBytes pkt stack).trans (memcpy_hashBytes pkt stack').symm
  unfold handleReqOn
  rw [hopen]
  cases hres : openFile packages files (reqArgsOn stack' pkt) with
  | error e => exact ⟨rfl, rfl⟩
  | ok answer =>
    obtain ⟨opened, packages'⟩ := answer
    cases opened with
    | none => exact ⟨rfl, rfl⟩
    | some opened =>
      obtain ⟨file, res'⟩ := opened
      have hkept := chunkHash_of_openFile hres
      rw [show (reqArgsOn stack' pkt).chunkHash = hashBytes pkt ++ stack' from rfl] at hkept
      rw [← hkept] at hmem
      have hblocks := @sendBlocks_chunkHash res' (hashBytes pkt ++ stack) (some file) hmem
      simp only [Except.map, Option.map_some, hblocks, and_self]

section Refused

theorem handleReqOn_none {stack : Bytes} {packages' : ManagedPackages}
    (h : openFile packages files (reqArgsOn stack pkt) = .ok (none, packages'))
    : (handleReqOn stack packages files pkt).sent = [errorPacket]
        ∧ (handleReqOn stack packages files pkt).fault = none := by
  unfold handleReqOn
  rw [h]
  exact ⟨rfl, rfl⟩

theorem openFile_of_lookup
    (h : chunkInMemory packages (cstr res.ident) (cstr res.chunkHash) = .ok .noHash
      ∨ chunkInMemory packages (cstr res.ident) (cstr res.chunkHash) = .ok .noPackage)
    : openFile packages files res = .ok (none, packages) := by
  unfold openFile
  cases h with
  | inl h =>
    simp only [h]
    rfl
  | inr h =>
    simp only [h]
    rfl

theorem openFile_of_refuses {slot : Nat} {chosen : BpkgObj}
    (hfound : chunkInMemory packages (cstr res.ident) (cstr res.chunkHash) = .ok (.found slot))
    (hslot : packages[slot]? = some (some chosen)) (h : Refuses files res chosen)
    : ∃ packages', openFile packages files res = .ok (none, packages') := by
  unfold openFile
  simp only [hfound, List.getD_eq_getElem?_getD, hslot, Option.getD_some, deref_some, bind, Except.bind]
  cases h with
  | notComputed hcompute hentries htree hcomputed =>
    simp only [hcompute, hentries, htree, deref_some, hcomputed]
    exact ⟨_, rfl⟩
  | noRange hcompute hentries htree hcomputed hrange =>
    simp only [hcompute, hentries, htree, deref_some, hcomputed, hrange]
    exact ⟨_, rfl⟩
  | noFile hcompute hentries htree hcomputed hrange hfile =>
    simp only [hcompute, hentries, htree, deref_some, hcomputed, hrange, hfile]
    exact ⟨_, rfl⟩

theorem refuses_of_openFile {packages' : ManagedPackages} {slot : Nat} {chosen : BpkgObj}
    (h : openFile packages files res = .ok (none, packages'))
    (hfound : chunkInMemory packages (cstr res.ident) (cstr res.chunkHash) = .ok (.found slot))
    (hslot : packages[slot]? = some (some chosen)) : Refuses files res chosen := by
  unfold openFile at h
  simp only [hfound, bind_eq_ok, List.getD_eq_getElem?_getD, hslot, Option.getD_some, deref_some,
    Except.ok.injEq, exists_eq_left', deref_eq_ok] at h
  obtain ⟨bpkg, hcompute, entries, hentries, tree, htree, has, hcomputed, h⟩ := h
  cases has with
  | false => exact .notComputed hcompute hentries htree hcomputed
  | true =>
    simp only [↓reduceIte, bind_eq_ok] at h
    obtain ⟨req, hreq, h⟩ := h
    cases req with
    | none => exact .noRange hcompute hentries htree hcomputed hreq
    | some req =>
      cases hfile : bpkg.filename.bind files with
      | none => exact .noFile hcompute hentries htree hcomputed hreq hfile
      | some content => simp [hfile, pure, Except.pure] at h

theorem openFile_of_handleReq (hsent : (handleReq packages files pkt).sent = [errorPacket])
    (hfault : (handleReq packages files pkt).fault = none)
    : ∃ packages', openFile packages files (reqArgs pkt) = .ok (none, packages') := by
  cases hopen : openFile packages files (reqArgs pkt) with
  | error e =>
    unfold handleReq at hfault
    simp [hopen] at hfault
  | ok answer =>
    obtain ⟨opened, packages'⟩ := answer
    cases opened with
    | none => exact ⟨packages', rfl⟩
    | some opened =>
      obtain ⟨file, res'⟩ := opened
      obtain ⟨bpkg, content, hserves⟩ := serves_of_openFile hopen
      obtain ⟨n, hsends⟩ := handleReq_sends hserves
      rw [hsent, hfault] at hsends
      -- without a fault all packets are blocks of the file
      obtain ⟨blocks, rest, hpackets, hblocks, hstops⟩ := hsends.packets
      dsimp only at hpackets hstops
      cases hstops with
      | done =>
        rw [List.append_nil] at hpackets
        rw [← hpackets] at hblocks
        obtain ⟨r, _, hcarries, _⟩ := List.forall₂_cons_left_iff.mp hblocks
        exact absurd hcarries.error_eq (by decide)

end Refused

section Long

variable {stack : Bytes}

theorem cstr_chunkHash (hbytes : ∀ c ∈ hashBytes pkt, c ≠ 0) : cstr (reqArgs pkt).chunkHash = hashBytes pkt := by
  have happend := cstr_append_of_forall hbytes [0]
  rw [show cstr [0] = [] from rfl, List.append_nil] at happend
  exact happend

theorem handleReqOn_of_long {packages : ManagedPackages}
    (hmanaged : ∀ bpkg, some bpkg ∈ packages → bpkg.Managed) (hbytes : ∀ c ∈ hashBytes pkt, c ≠ 0)
    (hstack : cstr stack ≠ [])
    : (handleReqOn stack packages files pkt).sent = [errorPacket]
        ∧ (handleReqOn stack packages files pkt).fault = none := by
  have hhash : (reqArgsOn stack pkt).chunkHash = hashBytes pkt ++ stack := rfl
  have hlong : CHUNK_HASH_SIZE < (cstr (reqArgsOn stack pkt).chunkHash).length := by
    have hpos := List.length_pos_iff.mpr hstack
    rw [hhash, cstr_append_of_forall hbytes, List.length_append, length_hashBytes]
    omega
  apply handleReqOn_none
  apply openFile_of_lookup
  rcases chunkInMemory_managed hmanaged (cstr (reqArgsOn stack pkt).ident)
    (cstr (reqArgsOn stack pkt).chunkHash) with hlookup | hlookup | ⟨slot, _, hle⟩
  . exact .inl hlookup
  . exact .inr hlookup
  . omega

theorem handleReqOn_of_refuses {packages : ManagedPackages}
    (hmanaged : ∀ bpkg, some bpkg ∈ packages → bpkg.Managed) (hbytes : ∀ c ∈ hashBytes pkt, c ≠ 0)
    (hrefuses : ∀ slot chosen,
      chunkInMemory packages (cstr (reqArgs pkt).ident) (hashBytes pkt) = .ok (.found slot)
        → packages[slot]? = some (some chosen)
        → Refuses files (reqArgs pkt) chosen)
    (stack : Bytes)
    : (handleReqOn stack packages files pkt).sent = [errorPacket]
        ∧ (handleReqOn stack packages files pkt).fault = none := by
  by_cases hstack : cstr stack = []
  . -- the string ends behind the 64 bytes
    have hsame : cstr (hashBytes pkt ++ stack) = cstr (hashBytes pkt ++ [0]) := by
      rw [cstr_append_of_forall hbytes, cstr_append_of_forall hbytes, hstack]
      rfl
    obtain ⟨hsent, hfault⟩ := @handleReqOn_congr packages files pkt _ _ hsame
    rw [hsent, hfault]
    have hopen : ∃ packages', openFile packages files (reqArgs pkt) = .ok (none, packages') := by
      rw [← cstr_chunkHash hbytes] at hrefuses
      rcases chunkInMemory_managed hmanaged (cstr (reqArgs pkt).ident) (cstr (reqArgs pkt).chunkHash)
        with hlookup | hlookup | ⟨slot, hlookup, _⟩
      . exact ⟨packages, openFile_of_lookup (.inl hlookup)⟩
      . exact ⟨packages, openFile_of_lookup (.inr hlookup)⟩
      . obtain ⟨chosen, _, hslot, _⟩ := chunkInMemory_cases hlookup
        exact openFile_of_refuses hlookup hslot (hrefuses slot chosen hlookup hslot)
    obtain ⟨packages', hopen⟩ := hopen
    exact handleReqOn_none hopen
  . exact handleReqOn_of_long hmanaged hbytes hstack

end Long

theorem handleReqOn_same_iff {packages : ManagedPackages}
    (hmanaged : ∀ bpkg, some bpkg ∈ packages → bpkg.Managed) (files : FileSystem) (pkt : BtidePacket)
    : SameAnswer packages files pkt
        ↔
      0 ∈ hashBytes pkt
        ∨ ∀ slot chosen,
            chunkInMemory packages (cstr (reqArgs pkt).ident) (hashBytes pkt) = .ok (.found slot)
              → packages[slot]? = some (some chosen)
              → Refuses files (reqArgs pkt) chosen := by
  have hbytes (hzero : 0 ∉ hashBytes pkt) : ∀ c ∈ hashBytes pkt, c ≠ 0 := fun c hc heq => hzero (heq ▸ hc)
  constructor
  . intro hsame
    by_cases hzero : 0 ∈ hashBytes pkt
    . exact .inl hzero
    . refine .inr ?_
      intro slot chosen hfound hslot
      -- with one more byte the string is too long for every package
      obtain ⟨hsent, hfault⟩ := hsame [0] [1, 0] (by decide) (by decide)
      obtain ⟨hsent', hfault'⟩ := @handleReqOn_of_long files pkt [1, 0] packages hmanaged (hbytes hzero)
        (by decide)
      rw [handleReqOn_zero, hsent'] at hsent
      rw [handleReqOn_zero, hfault'] at hfault
      obtain ⟨packages', hopen⟩ := openFile_of_handleReq hsent hfault
      apply refuses_of_openFile hopen ?_ hslot
      rw [cstr_chunkHash (hbytes hzero)]
      exact hfound
  . intro hcondition stack stack' _ _
    by_cases hzero : 0 ∈ hashBytes pkt
    . apply handleReqOn_congr
      rw [cstr_append_of_mem hzero, cstr_append_of_mem hzero]
    . have hrefuses := hcondition.resolve_left hzero
      obtain ⟨hsent, hfault⟩ := handleReqOn_of_refuses hmanaged (hbytes hzero) hrefuses stack
      obtain ⟨hsent', hfault'⟩ := handleReqOn_of_refuses hmanaged (hbytes hzero) hrefuses stack'
      rw [hsent, hfault, hsent', hfault']
      exact ⟨rfl, rfl⟩

open PackageStore (oneByte oneByteObj)

def hashReq (hash : Bytes) : BtidePacket where
  msgCode := PKT_MSG_REQ
  error := 0
  pl :=
    ⟨(List.replicate 4 0 ++ [1, 0, 0, 0] ++ hash ++ ascii "a" ++ List.replicate 4092 0).take 4092, by
      simp only [List.length_take, List.length_append, List.length_replicate]
      unfold PAYLOAD_MAX
      omega⟩

theorem load_oneByte
    : bpkgLoad ⟨none, none, 7, 7, none, 7, none, none⟩ (some oneByte) none = .ok (some (oneByteObj [])) := by
  decide +kernel

theorem oneByte_managed (bpkg : BpkgObj) (h : some bpkg ∈ [some (oneByteObj [])]) : bpkg.Managed := by
  rw [List.mem_singleton, Option.some.injEq] at h
  rw [h]
  exact .load (show ∀ c ∈ (none : Option Bytes).getD [], c ≠ 0 by simp) load_oneByte

theorem handleReqOn_same_short
    : SameAnswer [some (oneByteObj [])] (fun _ => some (ascii "c"))
          (hashReq (List.replicate 20 97 ++ List.replicate 44 0))
        ∧ SameAnswer [some (oneByteObj [])] (fun _ => some (ascii "c")) (hashReq (List.replicate 64 97)) := by
  rw [handleReqOn_same_iff oneByte_managed, handleReqOn_same_iff oneByte_managed]
  refine ⟨.inl (by decide +kernel), .inr ?_⟩
  intro slot chosen hfound _
  have hnone : chunkInMemory [some (oneByteObj [])] (cstr (reqArgs (hashReq (List.replicate 64 97))).ident)
      (hashBytes (hashReq (List.replicate 64 97))) = .ok .noHash := by
    decide +kernel
  rw [hnone] at hfound
  cases hfound

/--
The byte behind the hash decides whether the chunk is sent.
-/
theorem handleReqOn_same_fails
    : bpkgLoad ⟨none, none, 7, 7, none, 7, none, none⟩ (some oneByte) none = .ok (some (oneByteObj []))
        ∧ ¬ SameAnswer [some (oneByteObj [])] (fun _ => some (ascii "c")) (hashReq digestC)
        ∧ (handleReqOn [1, 0] [some (oneByteObj [])] (fun _ => some (ascii "c")) (hashReq digestC)).sent
            =
          [errorPacket] := by
  have hbytes : ∀ c ∈ hashBytes (hashReq digestC), c ≠ 0 := by
    have hall : (hashBytes (hashReq digestC)).all (fun c => decide (c ≠ 0)) = true := by
      decide +kernel
    exact forall_mem_of_all hall
  have hopen : (openFile [some (oneByteObj [])] (fun _ => some (ascii "c"))
      (reqArgs (hashReq digestC))).toOption.map (fun answer => answer.1.isSome) = some true := by
    decide +kernel
  obtain ⟨hsent, hfault⟩ := @handleReqOn_of_long (fun _ => some (ascii "c")) (hashReq digestC) [1, 0]
    [some (oneByteObj [])] oneByte_managed hbytes (by decide)
  refine ⟨load_oneByte, ?_, hsent⟩
  intro hsame
  obtain ⟨hsent', hfault'⟩ := hsame [0] [1, 0] (by decide) (by decide)
  rw [handleReqOn_zero, hsent] at hsent'
  rw [handleReqOn_zero, hfault] at hfault'
  obtain ⟨packages', hnone⟩ := openFile_of_handleReq hsent' hfault'
  rw [hnone] at hopen
  simp [Except.toOption] at hopen

end handlePeers

end Btide
