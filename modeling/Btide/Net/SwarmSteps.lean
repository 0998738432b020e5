import Btide.Net.Swarm

/-!
This module contains what one step of a swarm can do to the tables and the files of the peers.
-/

open Bytes CLib

namespace Btide

theorem chunkInMemory.search_found {ident hash : Bytes} {packages : ManagedPackages} {start slot : Nat}
    (h : search ident hash start packages = .ok (.found slot))
    : ∃ i bpkg current,
        slot = start + i
          ∧ packages[i]? = some (some bpkg)
          ∧ bpkg.ident = some current
          ∧ strncmpEq current ident 20 = true := by
  induction packages generalizing start with
  | nil => simp [search] at h
  | cons entry packages ih =>
    have hrest (h : search ident hash (start + 1) packages = .ok (.found slot))
        : ∃ i bpkg current,
            slot = start + i
              ∧ (entry :: packages)[i]? = some (some bpkg)
              ∧ bpkg.ident = some current
              ∧ strncmpEq current ident 20 = true := by
      obtain ⟨i, bpkg, current, hi, hrest⟩ := ih h
      exact ⟨i + 1, bpkg, current, by omega, hrest⟩
    cases entry with
    | none => exact hrest h
    | some bpkg =>
      rw [search] at h
      cases hident : bpkg.ident with
      | none => simp [hident, throw_eq_ok] at h
      | some current =>
        simp only [hident] at h
        split at h
        . next hmatch =>
          simp only [bind_eq_ok] at h
          obtain ⟨tree, _, qry, _, qry', _, h⟩ := h
          split at h
          . simp only [pure_eq_ok, Lookup.found.injEq] at h
            exact ⟨0, bpkg, current, by omega, rfl, hident, hmatch⟩
          . simp [pure, Except.pure] at h
        . exact hrest h

theorem chunkInMemory_cases {packages : ManagedPackages} {ident hash : Bytes} {slot : Nat}
    (h : chunkInMemory packages ident hash = .ok (.found slot))
    : ∃ bpkg current,
        packages[slot]? = some (some bpkg)
          ∧ bpkg.ident = some current
          ∧ strncmpEq current ident 20 = true := by
  obtain ⟨i, bpkg, current, hi, hrest⟩ := chunkInMemory.search_found h
  rw [Nat.zero_add] at hi
  rw [hi]
  exact ⟨bpkg, current, hrest⟩

theorem openFile_hashes {packages packages' : ManagedPackages} {files : FileSystem} {res : ResArgs}
    {answer : Option (OpenFile × ResArgs)} {slot : Nat} {bpkg : BpkgObj}
    (hfound : chunkInMemory packages (cstr res.ident) (cstr res.chunkHash) = .ok (.found slot))
    (hslot : packages[slot]? = some (some bpkg))
    (h : getDataFromFile.openFile packages files res = .ok (answer, packages'))
    : (∀ file res', answer = some (file, res') → res'.ident = res.ident)
        ∧ ∃ bpkg',
            computeHashesForChunks files bpkg = .ok bpkg'
              ∧ packages' = packages.set slot (some bpkg') := by
  unfold getDataFromFile.openFile at h
  simp only [hfound, bind_eq_ok, Except.ok.injEq, exists_eq_left', List.getD_eq_getElem?_getD, hslot,
    Option.getD_some, deref_some] at h
  obtain ⟨bpkg', hcompute, entries, _, tree, _, has, _, h⟩ := h
  suffices hset : (∀ file res', answer = some (file, res') → res'.ident = res.ident)
      ∧ packages' = packages.set slot (some bpkg') by
    exact ⟨hset.1, bpkg', hcompute, hset.2⟩
  split at h
  . simp only [bind_eq_ok] at h
    obtain ⟨req, _, h⟩ := h
    split at h
    . simp only [pure_eq_ok, Prod.mk.injEq] at h
      rw [← h.1]
      exact ⟨by simp, h.2.symm⟩
    . split at h
      . simp only [pure_eq_ok, Prod.mk.injEq] at h
        rw [← h.1]
        exact ⟨by simp, h.2.symm⟩
      . simp only [pure_eq_ok, Prod.mk.injEq] at h
        refine ⟨?_, h.2.symm⟩
        intro file res' heq
        rw [← h.1, Option.some.injEq, Prod.mk.injEq] at heq
        rw [← heq.2]
  . simp only [pure_eq_ok, Prod.mk.injEq] at h
    rw [← h.1]
    exact ⟨by simp, h.2.symm⟩

theorem openFile_cases {packages packages' : ManagedPackages} {files : FileSystem} {res : ResArgs}
    {answer : Option (OpenFile × ResArgs)}
    (h : getDataFromFile.openFile packages files res = .ok (answer, packages'))
    : (∀ file res', answer = some (file, res') → res'.ident = res.ident)
        ∧ (packages' = packages
          ∨ ∃ slot bpkg bpkg',
              packages[slot]? = some (some bpkg)
                ∧ computeHashesForChunks files bpkg = .ok bpkg'
                ∧ packages' = packages.set slot (some bpkg')) := by
  cases hlookup : chunkInMemory packages (cstr res.ident) (cstr res.chunkHash) with
  | error e =>
    unfold getDataFromFile.openFile at h
    simp [hlookup, bind, Except.bind] at h
  | ok lookup =>
    have hnone (hlookup : lookup = .noHash ∨ lookup = .noPackage)
        : (∀ file res', answer = some (file, res') → res'.ident = res.ident)
            ∧ packages' = packages := by
      unfold getDataFromFile.openFile at h
      rcases hlookup with rfl | rfl
      all_goals
        simp only [hlookup, bind, Except.bind, pure, Except.pure, Except.ok.injEq, Prod.mk.injEq] at h
        rw [← h.1]
        exact ⟨by simp, h.2.symm⟩
    cases lookup with
    | noHash => exact (hnone (.inl rfl)).imp_right Or.inl
    | noPackage => exact (hnone (.inr rfl)).imp_right Or.inl
    | found slot =>
      obtain ⟨bpkg, current, hslot, _⟩ := chunkInMemory_cases hlookup
      obtain ⟨hident, bpkg', hcompute, hset⟩ := openFile_hashes hlookup hslot h
      exact ⟨hident, .inr ⟨slot, bpkg, bpkg', hslot, hcompute, hset⟩⟩

theorem addDataToFile_cases {packages : ManagedPackages} {files files' : FileSystem} {res : ResArgs}
    (h : addDataToFile packages files res = .ok files')
    : files' = files
        ∨ ∃ slot bpkg name content data req,
            chunkInMemory packages (cstr res.ident) (cstr res.chunkHash) = .ok (.found slot)
              ∧ packages[slot]? = some (some bpkg)
              ∧ bpkg.filename = some name
              ∧ files name = some content
              ∧ res.data = some data
              ∧ calculateDataLen bpkg (cstr res.chunkHash) (some res.fileOffset) = .ok (some req)
              ∧ res.dataRecieved.toNat ≤ req.dataLen.toNat
              ∧ res.dataRecieved.toNat ≤ data.length
              ∧ files'
                  =
                files.write name
                  (overwrite content res.fileOffset.toNat (data.take res.dataRecieved.toNat)) := by
  unfold addDataToFile at h
  simp only [bind_eq_ok] at h
  obtain ⟨lookup, hlookup, h⟩ := h
  cases lookup with
  | noHash =>
    rw [pure_eq_ok] at h
    exact .inl h.symm
  | noPackage =>
    rw [pure_eq_ok] at h
    exact .inl h.symm
  | found slot =>
    obtain ⟨bpkg, current, hslot, _⟩ := chunkInMemory_cases hlookup
    simp only [bind_eq_ok, List.getD_eq_getElem?_getD, hslot, Option.getD_some, deref_some,
      Except.ok.injEq, exists_eq_left'] at h
    obtain ⟨answer, hanswer, h⟩ := h
    split at h
    . rw [pure_eq_ok] at h
      exact .inl h.symm
    . next req =>
      split at h
      . next hreq =>
        split at h
        . next name hname =>
          split at h
          . rw [pure_eq_ok] at h
            exact .inl h.symm
          . next content hcontent =>
            simp only [bind_eq_ok, deref_eq_ok] at h
            obtain ⟨data, hdata, h⟩ := h
            split at h
            . simp [throw, throwThe, MonadExceptOf.throw] at h
            . next hlen =>
              rw [pure_eq_ok] at h
              rw [hreq.1] at h
              exact .inr ⟨slot, bpkg, name, content, data, req, hlookup, hslot, hname, hcontent, hdata,
                hanswer, hreq.2, Nat.le_of_not_lt hlen, h.symm⟩
        . simp [throw_eq_ok] at h
      . rw [pure_eq_ok] at h
        exact .inl h.symm

theorem sendReq_ok {req : ReqArgs} {pkt : BtidePacket} (h : sendReq req = .ok pkt)
    : CHUNK_HASH_SIZE ≤ req.chunkHash.length ∧ IDENT_SIZE ≤ req.ident.length := by
  unfold sendReq memcpy at h
  simp only [bind_eq_ok] at h
  obtain ⟨_, _, _, _, hash, hhash, _, _, mem, hmem, _⟩ := h
  split at hhash
  . next hle =>
    split at hmem
    . next hle' => exact ⟨hle, hle'⟩
    . cases hmem
  . cases hhash

theorem fetchParser_cases {packages : ManagedPackages} {ident chunkHash : Bytes} {offset : Option Bytes}
    {pkt : BtidePacket} (h : fetchParser packages ident chunkHash offset = .ok (some pkt))
    : ∃ slot bpkg num req,
        chunkInMemory packages (cstr ident) (cstr chunkHash) = .ok (.found slot)
          ∧ deref (packages.getD slot none) = .ok bpkg
          ∧ fetchParser.offsetNum offset = .ok (some num)
          ∧ calculateDataLen bpkg (cstr chunkHash) num = .ok (some req)
          ∧ sendReq { req with ident, chunkHash } = .ok pkt := by
  unfold fetchParser at h
  simp only [bind_eq_ok] at h
  obtain ⟨lookup, hlookup, h⟩ := h
  cases lookup with
  | noHash => simp [pure, Except.pure] at h
  | noPackage => simp [pure, Except.pure] at h
  | found slot =>
    simp only [bind_eq_ok] at h
    obtain ⟨num, hnum, h⟩ := h
    cases num with
    | none => simp [pure, Except.pure] at h
    | some num =>
      simp only [bind_eq_ok] at h
      obtain ⟨bpkg, hslot, req, hreq, h⟩ := h
      cases req with
      | none => simp [pure, Except.pure] at h
      | some req =>
        simp only [bind_eq_ok, pure_eq_ok, Option.some.injEq] at h
        obtain ⟨pkt', hsend, heq⟩ := h
        rw [heq] at hsend
        exact ⟨slot, bpkg, num, req, hlookup, hslot, hnum, hreq, hsend⟩

namespace handlePeers

def IsAnswer (ident : Bytes) (pkt : BtidePacket) : Prop :=
  pkt.msgCode = PKT_MSG_RES ∧ (pkt.error = 0 → (resArgs pkt).ident = ident.take IDENT_SIZE)

theorem sendRes_isAnswer {res : ResArgs} {error : Bool} {pkt : BtidePacket}
    (h : sendRes res error = .ok pkt) : IsAnswer res.ident pkt := by
  unfold sendRes at h
  split at h
  . rw [pure_eq_ok] at h
    rw [← h]
    exact ⟨rfl, fun herror => absurd herror (by decide)⟩
  . simp only [bind_eq_ok, pure_eq_ok] at h
    obtain ⟨_, _, _, _, _, _, _, _, _, _, _, _, pl, _, ident, hident, pl', hstore, h⟩ := h
    rw [← h]
    refine ⟨rfl, fun _ => ?_⟩
    -- the identifier is the last thing written and ends with the payload
    unfold memcpy at hident
    split at hident
    . next hle =>
      rw [Except.ok.injEq] at hident
      have hlen : ident.length = 1024 := by
        rw [← hident, List.length_take, Nat.min_eq_left hle]
        rfl
      obtain ⟨pl'', hstore', hval⟩ := @BtidePayload.store_ok pl 3068 ident (by rw [hlen]; decide)
      rw [hstore, Except.ok.injEq] at hstore'
      have hpl : pl.val.length = 4092 := pl.property
      have hend : pl.val.drop (3068 + 1024) = [] := List.drop_of_length_le (by omega)
      unfold resArgs
      dsimp only
      rw [hstore', hval, splice, hlen, hend, List.append_nil,
        List.drop_left' (by rw [List.length_take]; omega), hident]
    . cases hident

theorem readFile_ident {res res' : ResArgs} {file file' : Option OpenFile}
    (h : getDataFromFile.readFile res file = .ok (res', file')) : res'.ident = res.ident := by
  unfold getDataFromFile.readFile at h
  cases file with
  | none => simp [throw_eq_ok] at h
  | some file =>
    dsimp only at h
    generalize (if (res.dataLen - UInt32.ofNat res.bytesRead).toNat < DATA_MAX_SIZE then
      (res.dataLen - UInt32.ofNat res.bytesRead).toNat else DATA_MAX_SIZE) = readAmount at h
    split at h
    . simp only [pure_eq_ok, Prod.mk.injEq] at h
      rw [← h.1]
    . simp only [bind_eq_ok, pure_eq_ok, Prod.mk.injEq] at h
      obtain ⟨bytesRead, _, h, _⟩ := h
      rw [← h]

theorem sendBlocks_isAnswer {res : ResArgs} {file : Option OpenFile} {pkt : BtidePacket}
    (h : pkt ∈ (sendBlocks res file).1) : IsAnswer res.ident pkt := by
  fun_induction sendBlocks res file with
  | case1 => simp at h
  | case2 => simp at h
  | case3 res file _ res' file' hread pkt' hsend fileOffset sent fault hrest ih =>
    have hident := readFile_ident hread
    rw [List.mem_cons] at h
    cases h with
    | inl h =>
      rw [h, ← hident]
      exact sendRes_isAnswer hsend
    | inr h =>
      rw [hrest] at ih
      rw [← hident]
      exact ih h
  | case4 => simp at h

theorem handleReq_isAnswer {packages : ManagedPackages} {files : FileSystem} {pkt pkt' : BtidePacket}
    (h : pkt' ∈ (handleReq packages files pkt).sent) : IsAnswer (reqArgs pkt).ident pkt' := by
  unfold handleReq at h
  split at h
  . simp at h
  . next file res packages' hopen =>
    have hident := (openFile_cases hopen).1 file res rfl
    rw [← hident]
    exact sendBlocks_isAnswer h
  . split at h
    . simp at h
    . next pkt'' hsend =>
      rw [List.mem_singleton] at h
      rw [h]
      exact sendRes_isAnswer hsend

theorem handleReq_packages (packages : ManagedPackages) (files : FileSystem) (pkt : BtidePacket)
    : (handleReq packages files pkt).packages = packages
        ∨ ∃ slot bpkg bpkg',
            packages[slot]? = some (some bpkg)
              ∧ computeHashesForChunks files bpkg = .ok bpkg'
              ∧ (handleReq packages files pkt).packages = packages.set slot (some bpkg') := by
  unfold handleReq
  split
  . exact .inl rfl
  . next hopen => exact (openFile_cases hopen).2
  . next hopen =>
    split
    . exact (openFile_cases hopen).2
    . exact (openFile_cases hopen).2

end handlePeers

namespace Swarm

open handlePeers

variable {ι : Type} [DecidableEq ι] {s s' : Swarm ι} {a : Action ι} {front back : List (Message ι)}
  {msg : Message ι}

theorem handle_cases (h : handle s msg = .ok s')
    : msg.pkt.msgCode = PKT_MSG_REQ
          ∧ (let peer := s.peers msg.dst
            let answer := handleReq peer.packages peer.files msg.pkt
            s'
              =
            (s.setPeer msg.dst { peer with packages := answer.packages }).send msg.dst msg.src answer.sent)
        ∨ msg.pkt.msgCode = PKT_MSG_RES
            ∧ (∃ files,
                handleRes (s.peers msg.dst).packages (s.peers msg.dst).files msg.pkt = .ok files
                  ∧ s' = s.setPeer msg.dst { (s.peers msg.dst) with files })
        ∨ msg.pkt.msgCode ≠ PKT_MSG_REQ ∧ msg.pkt.msgCode ≠ PKT_MSG_RES ∧ s' = s := by
  unfold handle at h
  dsimp only at h
  split at h
  . next hcode =>
    rw [Except.ok.injEq] at h
    exact .inl ⟨hcode, h.symm⟩
  . next hcode =>
    split at h
    . next hres =>
      simp only [bind_eq_ok, pure_eq_ok] at h
      obtain ⟨files, hfiles, h⟩ := h
      exact .inr (.inl ⟨hres, files, hfiles, h.symm⟩)
    . next hres =>
      rw [Except.ok.injEq] at h
      exact .inr (.inr ⟨hcode, hres, h.symm⟩)

theorem Step.peer_cases (hstep : Step s a s') (p : ι)
    : s'.peers p = s.peers p
        ∨ (∃ slot bpkg bpkg',
            (s.peers p).packages[slot]? = some (some bpkg)
              ∧ computeHashesForChunks (s.peers p).files bpkg = .ok bpkg'
              ∧ s'.peers p
                  =
                { (s.peers p) with packages := (s.peers p).packages.set slot (some bpkg') })
        ∨ ∃ msg ∈ s.inFlight, ∃ files,
            msg.dst = p
              ∧ msg.pkt.msgCode = PKT_MSG_RES
              ∧ handleRes (s.peers p).packages (s.peers p).files msg.pkt = .ok files
              ∧ s'.peers p = { (s.peers p) with files } := by
  cases hstep with
  | fetch h => exact .inl rfl
  | @deliver _ front back msg hflight h =>
    have hmem : msg ∈ s.inFlight := by
      rw [hflight]
      simp
    have hother (peer : Peer) (hp : p ≠ msg.dst)
        : (({ s with inFlight := front ++ back } : Swarm ι).setPeer msg.dst peer).peers p = s.peers p :=
      if_neg hp
    rcases handle_cases h with ⟨_, heq⟩ | ⟨hcode, files, hres, heq⟩ | ⟨_, _, heq⟩
    . rw [heq]
      by_cases hp : p = msg.dst
      . rw [hp]
        simp only [Swarm.send, Swarm.setPeer, ↓reduceIte]
        rcases handleReq_packages (s.peers msg.dst).packages (s.peers msg.dst).files msg.pkt with
          heq | ⟨slot, bpkg, bpkg', hslot, hcompute, heq⟩
        . left
          rw [heq]
        . right
          left
          rw [heq]
          exact ⟨slot, bpkg, bpkg', hslot, hcompute, rfl⟩
      . exact .inl (hother _ hp)
    . rw [heq]
      by_cases hp : p = msg.dst
      . right
        right
        rw [hp]
        exact ⟨msg, hmem, files, rfl, hcode, hres, if_pos rfl⟩
      . exact .inl (hother _ hp)
    . rw [heq]
      exact .inl rfl

inductive Emits (s : Swarm ι) : Action ι → BtidePacket → Prop where
  | request {src dst : ι} {mem chunkHash : Bytes} {offset : Option Bytes} {pkt : BtidePacket}
      (h : fetchParser (s.peers src).packages mem chunkHash offset = .ok (some pkt))
    : Emits s (.fetch src dst mem chunkHash offset) pkt
  | answer {front back : List (Message ι)} {msg : Message ι} {pkt : BtidePacket}
      (hflight : s.inFlight = front ++ msg :: back) (hcode : msg.pkt.msgCode = PKT_MSG_REQ)
      (hpkt : pkt ∈ (handleReq (s.peers msg.dst).packages (s.peers msg.dst).files msg.pkt).sent)
    : Emits s (.deliver front msg back) pkt

theorem Step.mem_inFlight (hstep : Step s a s') {msg : Message ι} (hmsg : msg ∈ s'.inFlight)
    : msg ∈ s.inFlight ∨ Emits s a msg.pkt := by
  cases hstep with
  | @fetch src dst mem chunkHash offset pkt h =>
    unfold Swarm.send at hmsg
    rw [List.mem_append, List.mem_map] at hmsg
    rcases hmsg with hmsg | ⟨pkt', hpkt', rfl⟩
    . exact .inl hmsg
    . rw [Option.mem_toList] at hpkt'
      rw [hpkt'] at h
      exact .inr (.request h)
  | @deliver _ front back delivered hflight h =>
    have hrest (hmsg : msg ∈ front ++ back) : msg ∈ s.inFlight := by
      rw [hflight]
      exact (List.sublist_cons_self delivered back).append_left front |>.subset hmsg
    rcases handle_cases h with ⟨hcode, heq⟩ | ⟨_, _, _, heq⟩ | ⟨_, _, heq⟩
    . rw [heq] at hmsg
      unfold Swarm.send at hmsg
      rw [List.mem_append, List.mem_map] at hmsg
      rcases hmsg with hmsg | ⟨pkt, hpkt, rfl⟩
      . exact .inl (hrest hmsg)
      . exact .inr (.answer hflight hcode hpkt)
    . rw [heq] at hmsg
      exact .inl (hrest hmsg)
    . rw [heq] at hmsg
      exact .inl (hrest hmsg)

theorem Step.kept (hstep : Step s (.deliver front msg back) s') {other : Message ι}
    (hother : other ∈ s.inFlight) : other = msg ∨ other ∈ s'.inFlight := by
  cases hstep with
  | deliver hflight h =>
    have hrest : other = msg ∨ other ∈ front ++ back := by
      rw [hflight, List.mem_append, List.mem_cons] at hother
      rw [List.mem_append]
      rcases hother with hfront | heq | hback
      . exact .inr (.inl hfront)
      . exact .inl heq
      . exact .inr (.inr hback)
    refine hrest.imp_right ?_
    intro hmem
    rcases handle_cases h with ⟨_, heq⟩ | ⟨_, _, _, heq⟩ | ⟨_, _, heq⟩
    . rw [heq]
      exact List.mem_append_left _ hmem
    . rw [heq]
      exact hmem
    . rw [heq]
      exact hmem

theorem Step.answers (hstep : Step s (.deliver front msg back) s') (hcode : msg.pkt.msgCode = PKT_MSG_REQ)
    {pkt : BtidePacket}
    (hpkt : pkt ∈ (handleReq (s.peers msg.dst).packages (s.peers msg.dst).files msg.pkt).sent)
    : ⟨msg.dst, msg.src, pkt⟩ ∈ s'.inFlight := by
  cases hstep with
  | deliver hflight h =>
    rcases handle_cases h with ⟨_, heq⟩ | ⟨hres, _⟩ | ⟨hne, _⟩
    . rw [heq]
      exact List.mem_append_right _ (List.mem_map_of_mem hpkt)
    . rw [hcode] at hres
      exact absurd hres (by decide)
    . exact absurd hcode hne

theorem Step.receives (hstep : Step s (.deliver front msg back) s') (hcode : msg.pkt.msgCode = PKT_MSG_RES)
    : ∃ files,
        handleRes (s.peers msg.dst).packages (s.peers msg.dst).files msg.pkt = .ok files
          ∧ (s'.peers msg.dst).files = files := by
  cases hstep with
  | deliver hflight h =>
    rcases handle_cases h with ⟨hreq, _⟩ | ⟨_, files, hres, heq⟩ | ⟨_, hne, _⟩
    . rw [hcode] at hreq
      exact absurd hreq (by decide)
    . refine ⟨files, hres, ?_⟩
      rw [heq, Swarm.setPeer]
      simp only [↓reduceIte]
    . exact absurd hcode hne

end Swarm

end Btide
