import Btide.Chk.LoadMessage
import Btide.Chk.StoredStrings
import Btide.Net.IdentMatch
import Btide.Net.QueryAgreement

/-!
This module contains the program of `src/pkgmain.c`: what it prints for a package text and a flag, and how
the outputs of its runs fit together.
-/

open Bytes CLib

namespace Btide

def SHA256_HEX_LEN : Nat := 65

namespace pkgmain

structure Exit where
  output : Bytes
  code : Int
  files : FileSystem

/--
There is a null pointer behind the arguments.
-/
def argvAt (argv : List Bytes) (i : Nat) : Except Fault (Option Bytes) :=
  match (argv.map some ++ [none])[i]? with
  | some arg => .ok arg
  | none => .error .outOfBounds

/--
The message with which the program exits, or the number of the flag and the memory of the hash.
-/
def argSelect (argv : List Bytes) (harg : Bytes) : Except Fault (Bytes ⊕ (Nat × Bytes)) := do
  let cursor ← argvAt argv 2
  if argv.length < 3 then
    return .inl (puts "bpkg or flag not provided")
  let cursor ← deref cursor
  if cursor = ascii "-all_hashes" then
    return .inr (1, harg)
  else if cursor = ascii "-chunk_check" then
    return .inr (2, harg)
  else if cursor = ascii "-min_hashes" then
    return .inr (3, harg)
  else if cursor = ascii "-hashes_of" then
    if argv.length < 4 then
      return .inl (puts "filename not provided")
    let src ← deref (← argvAt argv 3)
    -- strncpy fills what is left of the memory with zeros
    return .inr (4, (src ++ List.replicate SHA256_HEX_LEN 0).take SHA256_HEX_LEN)
  else if cursor = ascii "-file_check" then
    return .inr (5, harg)
  else
    return .inr (0, harg)

def bpkgPrintHashes (qry : Option BpkgQuery) : Except Fault Bytes :=
  match qry with
  | none => .ok []
  | some qry =>
    if qry.hashes.hashes.length < qry.len then
      .error .uninitialised
    else
      .ok ((qry.hashes.hashes.take qry.len).flatMap fun hash => hash.take 64 ++ [newline])

/--
The result of `bpkg_file_check`. `files` are those from before the check.
-/
def fileCheckQuery (files : FileSystem) (bpkg : BpkgObj) : BpkgQuery where
  hashes :=
    { cap := 1
      hashes := [if (bpkg.filename.bind files).isSome then ascii "File Exists" else ascii "File Created"] }
  len := 1

/--
What `compute_hashes_for_chunks` prints, which has left the package `bpkg`.
-/
def hashingMessage (files : FileSystem) (bpkg : BpkgObj) : Bytes :=
  if (bpkg.filename.bind files).isSome then [] else puts "Unable to open file."

/--
What the flag makes of the package: what it prints on the way, the query to print, and the package and the
files afterwards.
-/
def answer (files : FileSystem) (create : Bool) (argselect : Nat) (hash : Bytes) (obj : BpkgObj)
    : Except Fault (Bytes × Option BpkgQuery × BpkgObj × FileSystem) := do
  if argselect = 1 then
    let qry ← bpkgGetAllHashes obj
    return ([], some qry, obj, files)
  else if argselect = 2 then
    let (qry, obj) ← bpkgGetCompletedChunks files obj
    return (hashingMessage files obj, some qry, obj, files)
  else if argselect = 3 then
    let (qry, obj) ← bpkgGetMinCompletedHashes files obj
    return (hashingMessage files obj, some qry, obj, files)
  else if argselect = 4 then
    let qry ← bpkgGetAllChunkHashesFromHash obj (cstr hash)
    return ([], qry, obj, files)
  else
    let (obj, files') ← bpkgFileCheck files create obj
    return ([], some (fileCheckQuery files obj), obj, files')

/--
`create` tells whether a data file can be created. `garbage` is what the allocated object happens to
contain and `harg` the local memory of the hash.
-/
def main (files : FileSystem) (create : Bool) (garbage : BpkgObj) (harg : Bytes) (argv : List Bytes)
    : Except Fault Exit := do
  match ← argSelect argv harg with
  | .inl output => return { output, code := 1, files }
  | .inr (argselect, hash) =>
    if argselect = 0 then
      return { output := [], code := 0, files }
    let path ← deref (← argvAt argv 1)
    let obj ← bpkgLoad garbage (files path) none
    let message ← bpkgLoadMessage garbage (files path) none
    match obj with
    | none => return { output := message ++ puts "Unable to load pkg and tree", code := 1, files }
    | some obj =>
      let (hashing, qry, obj, files) ← answer files create argselect hash obj
      let output ← bpkgPrintHashes qry
      bpkgObjDestroy obj
      return { output := message ++ hashing ++ output, code := 0, files }

def printed (hashes : List Bytes) : Bytes :=
  hashes.flatMap (· ++ [newline])

structure Printable (qry : BpkgQuery) : Prop where
  len_eq : qry.len = qry.hashes.hashes.length
  stored : ∀ hash ∈ qry.hashes.hashes, IsStored hash

section Runs

variable {files files' : FileSystem} {create : Bool} {garbage : BpkgObj}
  {harg prog path text message output hash : Bytes} {args : List Bytes} {k : Nat} {bpkg bpkg' : BpkgObj}
  {qry : Option BpkgQuery}

theorem main_eq (hselect : argSelect (prog :: path :: args) harg = .ok (.inr (k + 1, hash)))
    (hfile : files path = some text) (hload : bpkgLoad garbage (some text) none = .ok (some bpkg))
    : main files create garbage harg (prog :: path :: args)
        =
      (do
        let (hashing, qry, obj, files) ← answer files create (k + 1) hash bpkg
        let output ← bpkgPrintHashes qry
        bpkgObjDestroy obj
        return { output := hashing ++ output, code := 0, files }) := by
  -- a load that succeeds is silent
  obtain ⟨message, hmessage, hsilent⟩ := bpkgLoadMessage_eq_nil_iff hload
  rw [hsilent.mpr rfl] at hmessage
  unfold main
  rw [hselect]
  simp only [bind, Except.bind, Nat.add_one_ne_zero, ↓reduceIte, argvAt, List.map_cons, List.cons_append,
    List.getElem?_cons_succ, List.getElem?_cons_zero, deref_some, hfile, hload, hmessage, List.nil_append]

def partOf (bpkg : BpkgObj) (hash : Bytes) : BpkgQuery :=
  ((bpkgGetAllChunkHashesFromHash bpkg hash).toOption.join).getD ⟨⟨0, []⟩, 0⟩

theorem queried {all min : BpkgQuery} (hload : bpkgLoad garbage (some text) none = .ok (some bpkg))
    (hpos : bpkg.nhashes ≠ 0) (hall : bpkgGetAllHashes bpkg = .ok all) (hnodup : all.hashes.hashes.Nodup)
    (hstored : ∀ hash ∈ all.hashes.hashes, IsStored hash)
    (hquery : bpkgGetMinCompletedHashes files bpkg = .ok (min, bpkg'))
    : ∃ (done : BpkgQuery) (part : Bytes → BpkgQuery),
        bpkgGetCompletedChunks files bpkg = .ok (done, bpkg')
          ∧ (min.hashes.hashes.flatMap fun hash => (part hash).hashes.hashes).Perm done.hashes.hashes
          ∧ min.hashes.hashes ⊆ all.hashes.hashes
          ∧ Printable min
          ∧ Printable done
          ∧ ∀ hash ∈ min.hashes.hashes,
              bpkgGetAllChunkHashesFromHash bpkg hash = .ok (some (part hash)) ∧ Printable (part hash) := by
  obtain ⟨hashes, chunks₀, chunks, rest, tree₀, hshape₀⟩ := packageShape_of_bpkgLoad hload
  have hcompute := computeHashes_of_minCompleted hquery
  obtain ⟨f, filename, hf, rfl, _⟩ := hshape₀.rehashed hcompute
  have hshape := (hshape₀.withFilename filename).mapInfo hf
  have hvalues₀ := (bpkgGetAllHashes_ok hshape₀.tree_eq hall).1
  have hvalues := (bpkgGetAllHashes_ok hshape.tree_eq
    ((bpkgGetAllHashes_ok hshape₀.tree_eq hall).2 f filename hf)).1
  dsimp only at hvalues
  obtain ⟨nodes, hfind, _, hmem, _, hperm⟩ := hshape.reports_agree hpos (hvalues ▸ hnodup)
  rw [hshape.minCompletedHashes hfind hcompute, Except.ok.injEq, Prod.mk.injEq] at hquery
  obtain ⟨rfl, _⟩ := hquery
  have hnode : ∀ node ∈ (tree₀.root.mapInfo f).subtrees, node.info.value ∈ all.hashes.hashes := by
    intro node hnode
    rw [hvalues]
    exact List.mem_map_of_mem ((tree₀.root.mapInfo f).inorder_perm.mem_iff.mpr hnode)
  have hleaf : ∀ info ∈ (tree₀.root.mapInfo f).leaves, IsStored info.value := by
    intro info hinfo
    exact hstored _ (hnode _ (MerkleTreeNode.mem_leaves.mp hinfo))
  have hpart (node : MerkleTreeNode) (hin : node ∈ nodes) :=
    hshape₀.part_eq (hvalues₀ ▸ hnodup) hf (hmem node hin)
  have hpartEq (node : MerkleTreeNode) (hin : node ∈ nodes)
      : partOf bpkg node.info.value
          =
        ⟨HashBuf.append (.alloc bpkg.intNchunks.toNat) (node.leaves.map (·.value)),
          node.leaves.length⟩ := by
    rw [partOf, hpart node hin]
    rfl
  refine ⟨_, partOf bpkg, hshape.completedChunks hcompute, ?_, ?_, ⟨rfl, ?_⟩, ⟨rfl, ?_⟩, ?_⟩
  . have hexpand : nodes.flatMap (fun node => (partOf bpkg node.info.value).hashes.hashes)
        = nodes.flatMap fun node => node.leaves.map (·.value) := by
      apply List.flatMap_congr
      intro node hin
      rw [hpartEq node hin, HashBuf.append_hashes, HashBuf.alloc_hashes, List.nil_append]
    rw [List.map_flatMap] at hperm
    simp only [HashBuf.append_hashes, HashBuf.alloc_hashes, List.nil_append, List.flatMap_map, hexpand]
    exact hperm
  . intro hash hhash
    obtain ⟨node, hin, rfl⟩ := List.mem_map.mp hhash
    exact hnode node (hmem node hin)
  . intro hash hhash
    obtain ⟨node, hin, rfl⟩ := List.mem_map.mp hhash
    exact hstored _ (hnode node (hmem node hin))
  . intro hash hhash
    obtain ⟨info, hinfo, rfl⟩ := List.mem_map.mp hhash
    exact hleaf info (List.mem_of_mem_filter hinfo)
  . intro hash hhash
    obtain ⟨node, hin, rfl⟩ := List.mem_map.mp hhash
    rw [hpartEq node hin]
    refine ⟨hpart node hin, ?_, ?_⟩
    . rw [HashBuf.append_hashes, HashBuf.alloc_hashes, List.nil_append, List.length_map]
    . intro hash hhash
      obtain ⟨info, hinfo, rfl⟩ := List.mem_map.mp hhash
      exact hleaf info (MerkleTreeNode.leaves_subset (hmem node hin) hinfo)

end Runs

end pkgmain

end Btide
