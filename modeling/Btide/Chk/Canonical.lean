import Btide.Chk.LoadComplete
import Btide.Chk.QueryLemmas

/-!
This module contains the canonical texts of packages and the proof that `bpkg_load` decodes them.
-/

open CLib HeapTree

namespace Btide

open bpkgLoad

def isprint (c : UInt8) : Bool :=
  32 ≤ c && c ≤ 126

def isxdigit (c : UInt8) : Bool :=
  isdigit c || (97 ≤ c && c ≤ 102) || (65 ≤ c && c ≤ 70)

structure IsField (s : Bytes) : Prop where
  ne_nil : s ≠ []
  printable : ∀ c ∈ s, isprint c = true ∧ c ∉ ascii ":"
  head : ∀ c, s.head? = some c → isspace c = false
  last : ∀ c, s.getLast? = some c → isspace c = false

structure IsHexHash (s : Bytes) : Prop where
  length : s.length = 64
  digits : ∀ c ∈ s, isxdigit c = true

structure ChunkRecord where
  hash : Bytes
  offset : Nat
  size : Nat
  hash_ok : IsHexHash hash
  offset_lt : offset < 2 ^ 31
  size_lt : size < 2 ^ 31

structure Record where
  ident : Bytes
  filename : Bytes
  size : Nat
  hashes : List Bytes
  chunks : List ChunkRecord
  ident_ok : IsField ident
  ident_le : ident.length ≤ 1024
  filename_ok : IsField filename
  filename_le : filename.length ≤ 256
  size_lt : size < 2 ^ 31
  hashes_ok : ∀ hash ∈ hashes, IsHexHash hash
  hashes_lt : hashes.length < 2 ^ 30
  length_chunks : chunks.length = hashes.length + 1

def ChunkRecord.toChunk (c : ChunkRecord) : Chunk where
  hash := c.hash
  offset := UInt32.ofNat c.offset
  size := UInt32.ofNat c.size
  nodePtr := none

namespace Record

def keyLine (key value : Bytes) : Bytes :=
  key ++ ascii ":" ++ value

def hashLine (hash : Bytes) : Bytes :=
  ascii "\t" ++ hash

def chunkLine (c : ChunkRecord) : Bytes :=
  ascii "\t" ++ (c.hash ++ ascii "," ++ decimal c.offset ++ ascii "," ++ decimal c.size)

def lines (r : Record) : List Bytes :=
  [keyLine (ascii "ident") r.ident,
    keyLine (ascii "filename") r.filename,
    keyLine (ascii "size") (decimal r.size),
    keyLine (ascii "nhashes") (decimal r.hashes.length),
    keyLine (ascii "hashes") []]
  ++ r.hashes.map hashLine
  ++ [keyLine (ascii "nchunks") (decimal r.chunks.length), keyLine (ascii "chunks") []]
  ++ r.chunks.map chunkLine

def text (r : Record) : Bytes :=
  r.lines.flatMap (· ++ [newline])

end Record

theorem toNat_of_isxdigit {c : UInt8} (h : isxdigit c = true) : 48 ≤ c.toNat ∧ c.toNat ≤ 102 ∧ c.toNat ≠ 58 := by
  simp only [isxdigit, isdigit, Bool.or_eq_true, Bool.and_eq_true, decide_eq_true_eq,
    UInt8.le_iff_toNat_le, UInt8.reduceToNat] at h
  omega

theorem isxdigit_of_isdigit {c : UInt8} (h : isdigit c = true) : isxdigit c = true := by
  simp [isxdigit, h]

theorem ne_of_toNat_ne {c d : UInt8} (h : c.toNat ≠ d.toNat) : c ≠ d := by
  intro heq
  rw [heq] at h
  contradiction

theorem isspace_of_toNat {c : UInt8} (h : 33 ≤ c.toNat) : isspace c = false := by
  simp only [isspace, Bool.or_eq_false_iff, beq_eq_false_iff_ne, Bool.and_eq_false_imp,
    decide_eq_true_eq, decide_eq_false_iff_not, UInt8.le_iff_toNat_le, UInt8.reduceToNat]
  refine ⟨ne_of_toNat_ne ?_, fun _ => ?_⟩
  . simp only [UInt8.reduceToNat]
    omega
  . omega

theorem not_mem_space {c : UInt8} (h : 33 ≤ c.toNat) : c ∉ ascii " " := by
  have hspace : c.toNat ≠ 32 := by omega
  simpa [ascii] using ne_of_toNat_ne hspace

theorem not_mem_comma {c : UInt8} (h : isxdigit c = true) : c ∉ ascii "," := by
  have hdigit := toNat_of_isxdigit h
  have hcomma : c.toNat ≠ 44 := by omega
  simpa [ascii] using ne_of_toNat_ne hcomma

section Lines

variable {key value : Bytes}

structure IsKey (key : Bytes) : Prop where
  ne_nil : key ≠ []
  plain : ∀ c ∈ key, c ≠ 0 ∧ c ∉ ascii ":"
  trim : trim key = key

theorem isKey_of_all
    (h : key ≠ [] ∧ key.all (fun c => decide (c ≠ 0 ∧ c ∉ ascii ":")) = true ∧ Btide.trim key = key)
    : IsKey key where
  ne_nil := h.1
  plain := forall_mem_of_all h.2.1
  trim := h.2.2

theorem cstr_keyLine (hkey : IsKey key) (hvalue : ∀ c ∈ value, c ≠ 0)
    : cstr (Record.keyLine key value ++ [newline]) = key ++ 58 :: (value ++ [newline]) := by
  rw [cstr_of_forall]
  . simp [Record.keyLine, ascii]
    rfl
  . intro c hc
    simp only [Record.keyLine, List.mem_append, List.mem_singleton] at hc
    rcases hc with ((hc | hc) | hc) | hc
    . exact (hkey.plain c hc).1
    . intro heq
      rw [heq] at hc
      revert hc
      decide
    . exact hvalue c hc
    . rw [hc]
      decide

theorem strtok_keyLine (hkey : IsKey key) (hvalue : ∀ c ∈ value, c ≠ 0)
    : strtok (ascii ":") (cstr (Record.keyLine key value ++ [newline]))
        =
      (some key, value ++ [newline]) := by
  rw [cstr_keyLine hkey hvalue, strtok_append hkey.ne_nil]
  . intro c hc
    exact (hkey.plain c hc).2
  . decide

theorem lineKey_keyLine (hkey : IsKey key) (hvalue : ∀ c ∈ value, c ≠ 0)
    : lineKey (Record.keyLine key value ++ [newline]) = some key := by
  rw [lineKey, strtok_keyLine hkey hvalue]
  simp [hkey.trim]

structure IsValue (value : Bytes) : Prop where
  ne_nil : value ≠ []
  plain : ∀ c ∈ value, c ≠ 0 ∧ c ≠ newline ∧ c ∉ ascii ":"
  head : ∀ c, value.head? = some c → isspace c = false
  last : ∀ c, value.getLast? = some c → isspace c = false

theorem IsValue.trim_eq (h : IsValue value) {front back : Bytes}
    (hfront : ∀ c ∈ front, isspace c = true) (hback : ∀ c ∈ back, isspace c = true)
    : trim (front ++ value ++ back) = value := by
  apply trim_pad hfront hback h.head
  . intro c hc
    rw [isAnySpace_eq_isspace]
    . exact h.last c hc
    . exact (h.plain c (List.mem_of_getLast? hc)).1
  . exact h.ne_nil

theorem lineValue_keyLine (hkey : IsKey key) (hvalue : IsValue value)
    : lineValue (Record.keyLine key value ++ [newline]) = some value := by
  have htrim := hvalue.trim_eq (List.forall_mem_nil _) (forall_mem_of_all (s := [newline]) (by decide))
  rw [List.nil_append] at htrim
  rw [lineValue, strtok_keyLine hkey fun c hc => (hvalue.plain c hc).1, strtok_last (by simp)]
  . simp [htrim]
  . intro c hc
    rw [List.mem_append, List.mem_singleton] at hc
    cases hc with
    | inl hc => exact (hvalue.plain c hc).2.2
    | inr hc =>
      rw [hc]
      decide

theorem IsField.isValue {s : Bytes} (h : IsField s) : IsValue s where
  ne_nil := h.ne_nil
  head := h.head
  last := h.last
  plain := by
    intro c hc
    obtain ⟨hprint, hcolon⟩ := h.printable c hc
    simp only [isprint, Bool.and_eq_true, decide_eq_true_eq, UInt8.le_iff_toNat_le,
      UInt8.reduceToNat] at hprint
    refine ⟨ne_of_toNat_ne ?_, ne_of_toNat_ne ?_, hcolon⟩
    . simp only [UInt8.reduceToNat]
      omega
    . simp only [newline, UInt8.reduceToNat]
      omega

theorem isValue_of_toNat {s : Bytes} (hne : s ≠ []) (h : ∀ c ∈ s, 33 ≤ c.toNat ∧ c.toNat ≠ 58)
    : IsValue s where
  ne_nil := hne
  head := by
    intro c hc
    exact isspace_of_toNat (h c (List.mem_of_head? hc)).1
  last := by
    intro c hc
    exact isspace_of_toNat (h c (List.mem_of_getLast? hc)).1
  plain := by
    intro c hc
    obtain ⟨hlo, hcolon⟩ := h c hc
    refine ⟨ne_of_toNat_ne ?_, ne_of_toNat_ne ?_, ?_⟩
    . simp only [UInt8.reduceToNat]
      omega
    . simp only [newline, UInt8.reduceToNat]
      omega
    . simpa [ascii] using ne_of_toNat_ne hcolon

theorem isValue_of_isxdigit {s : Bytes} (hne : s ≠ []) (h : ∀ c ∈ s, isxdigit c = true)
    : IsValue s := by
  apply isValue_of_toNat hne
  intro c hc
  have := toNat_of_isxdigit (h c hc)
  omega

theorem isValue_decimal (n : Nat) : IsValue (decimal n) :=
  isValue_of_isxdigit (decimal_ne_nil n) fun c hc => isxdigit_of_isdigit (isdigit_decimal n c hc)

theorem IsHexHash.isValue {s : Bytes} (h : IsHexHash s) : IsValue s := by
  apply isValue_of_isxdigit _ h.digits
  intro hnil
  have := h.length
  rw [hnil] at this
  contradiction

theorem isAnInt_decimal (n : Nat) : isAnInt (some (decimal n)) = .ok true := by
  have hall : (decimal n).all isdigit = true := by
    rw [List.all_eq_true]
    exact isdigit_decimal n
  cases hd : decimal n with
  | nil => exact absurd hd (decimal_ne_nil n)
  | cons c ds =>
    rw [hd] at hall
    simp only [isAnInt, hall]

theorem ascii_comma : ascii "," = [44] := rfl

theorem stripWhitespace_tabLine (h : IsValue value) (hspace : ∀ c ∈ value, c ∉ ascii " ")
    : stripWhitespace (strtok (ascii " ") (cstr (ascii "\t" ++ value ++ [newline]))).1
        =
      .ok (some value) := by
  have hends : ∀ c ∈ ascii "\t" ++ [newline], c ≠ 0 ∧ c ∉ ascii " " :=
    forall_mem_of_all (by decide)
  have hline : ∀ c ∈ ascii "\t" ++ value ++ [newline], c ≠ 0 ∧ c ∉ ascii " " := by
    intro c hc
    simp only [List.mem_append] at hc
    rcases hc with (hc | hc) | hc
    . exact hends c (List.mem_append_left _ hc)
    . exact ⟨(h.plain c hc).1, hspace c hc⟩
    . exact hends c (List.mem_append_right _ hc)
  rw [cstr_of_forall fun c hc => (hline c hc).1, strtok_last (by simp) fun c hc => (hline c hc).2]
  rw [stripWhitespace_eq_trim fun c hc => (hline c hc).1, h.trim_eq]
  . exact forall_mem_of_all (by decide)
  . exact forall_mem_of_all (by decide)

theorem readHash_hashLine {hash : Bytes} (h : IsHexHash hash)
    : readHash (Record.hashLine hash ++ [newline]) = .ok hash := by
  unfold readHash Record.hashLine
  rw [stripWhitespace_tabLine h.isValue]
  . simp [strcpy, h.length, bind, Except.bind]
  . intro c hc
    have := toNat_of_isxdigit (h.digits c hc)
    exact not_mem_space (by omega)

namespace ChunkRecord

def fields (c : ChunkRecord) : Bytes :=
  c.hash ++ 44 :: (decimal c.offset ++ 44 :: decimal c.size)

theorem chunkLine_eq (c : ChunkRecord) : Record.chunkLine c = ascii "\t" ++ c.fields := by
  simp [Record.chunkLine, fields, ascii_comma]

theorem toNat_of_mem_fields (c : ChunkRecord) {b : UInt8} (hb : b ∈ c.fields)
    : 33 ≤ b.toNat ∧ b.toNat ≠ 58 := by
  simp only [fields, List.mem_append, List.mem_cons] at hb
  rcases hb with hb | rfl | hb | rfl | hb
  . have := toNat_of_isxdigit (c.hash_ok.digits b hb)
    omega
  . simp only [UInt8.reduceToNat]
    omega
  . have := toNat_of_isxdigit (isxdigit_of_isdigit (isdigit_decimal c.offset b hb))
    omega
  . simp only [UInt8.reduceToNat]
    omega
  . have := toNat_of_isxdigit (isxdigit_of_isdigit (isdigit_decimal c.size b hb))
    omega

theorem strtok_fields (c : ChunkRecord)
    : strtok (ascii ",") c.fields = (some c.hash, decimal c.offset ++ 44 :: decimal c.size)
        ∧ strtok (ascii ",") (decimal c.offset ++ 44 :: decimal c.size)
            =
          (some (decimal c.offset), decimal c.size)
        ∧ strtok (ascii ",") (decimal c.size) = (some (decimal c.size), []) := by
  have hdecimal (n : Nat) : ∀ b ∈ decimal n, b ∉ ascii "," := by
    intro b hb
    exact not_mem_comma (isxdigit_of_isdigit (isdigit_decimal n b hb))
  refine ⟨strtok_append c.hash_ok.isValue.ne_nil ?_ (by decide), ?_, ?_⟩
  . intro b hb
    exact not_mem_comma (c.hash_ok.digits b hb)
  . exact strtok_append (decimal_ne_nil _) (hdecimal _) (by decide)
  . exact strtok_last (decimal_ne_nil _) (hdecimal _)

theorem isValue_fields (c : ChunkRecord) : IsValue c.fields := by
  refine isValue_of_toNat ?_ fun b hb => c.toNat_of_mem_fields hb
  simp [fields]

theorem readChunk_chunkLine (c : ChunkRecord)
    : readChunk (Record.chunkLine c ++ [newline]) = .ok (some c.toChunk) := by
  have hspace : ∀ b ∈ c.fields, b ∉ ascii " " := by
    intro b hb
    exact not_mem_space (c.toNat_of_mem_fields hb).1
  obtain ⟨hhash, hoffset, hsize⟩ := c.strtok_fields
  unfold readChunk
  rw [chunkLine_eq, stripWhitespace_tabLine c.isValue_fields hspace]
  simp only [bind, Except.bind, Option.getD_some, hhash, hoffset, hsize, isAnInt_decimal,
    Bool.not_true, Bool.false_eq_true, ↓reduceIte, strcpy, c.hash_ok.length, Nat.reduceAdd,
    Nat.le_refl, uint32_atoi_decimal (Nat.lt_trans c.offset_lt (by decide)),
    uint32_atoi_decimal (Nat.lt_trans c.size_lt (by decide))]
  rfl

end ChunkRecord

end Lines

section Fits

def Fits (body : Bytes) : Prop :=
  body.length + 1 < MAX_INPUT_SIZE ∧ ∀ c ∈ body, c ≠ newline

theorem length_decimal {n : Nat} (h : n < 2 ^ 31) : (decimal n).length ≤ 10 :=
  length_decimal_le (by omega) (by omega)

theorem fits_keyLine {key value : Bytes} (hline : ∀ c ∈ key, c ≠ newline)
    (hlen : key.length + value.length ≤ 1029) (hvalue : ∀ c ∈ value, c ≠ newline)
    : Fits (Record.keyLine key value) := by
  unfold Record.keyLine
  constructor
  . simp [ascii, MAX_INPUT_SIZE]
    omega
  . have hcolon : ∀ c ∈ ascii ":", c ≠ newline := forall_mem_of_all (by decide)
    intro c hc
    simp only [List.mem_append] at hc
    rcases hc with (hc | hc) | hc
    . exact hline c hc
    . exact hcolon c hc
    . exact hvalue c hc

theorem fits_tabLine {value : Bytes} (hlen : value.length ≤ 86) (hvalue : IsValue value)
    : Fits (ascii "\t" ++ value) := by
  constructor
  . simp [ascii, MAX_INPUT_SIZE]
    omega
  . have htab : ∀ c ∈ ascii "\t", c ≠ newline := forall_mem_of_all (by decide)
    intro c hc
    rw [List.mem_append] at hc
    cases hc with
    | inl hc => exact htab c hc
    | inr hc => exact (hvalue.plain c hc).2.1

theorem fits_decimal {key : Bytes} {n : Nat} (hkey : key.length ≤ 8)
    (hline : ∀ c ∈ key, c ≠ newline) (h : n < 2 ^ 31)
    : Fits (Record.keyLine key (decimal n)) := by
  have hlen := length_decimal h
  apply fits_keyLine hline (by omega)
  intro c hc
  exact ((isValue_decimal n).plain c hc).2.1

theorem fits_field {key value : Bytes} (hline : ∀ c ∈ key, c ≠ newline)
    (hlen : key.length + value.length ≤ 1029) (hvalue : IsField value)
    : Fits (Record.keyLine key value) := by
  apply fits_keyLine hline hlen
  intro c hc
  exact (hvalue.isValue.plain c hc).2.1

theorem ChunkRecord.fits_chunkLine (c : ChunkRecord) : Fits (Record.chunkLine c) := by
  have hoffset := length_decimal c.offset_lt
  have hsize := length_decimal c.size_lt
  have hhash := c.hash_ok.length
  rw [chunkLine_eq]
  apply fits_tabLine _ c.isValue_fields
  simp only [fields, List.length_append, List.length_cons]
  omega

end Fits

namespace Record

variable (r : Record)

theorem fits_lines : ∀ body ∈ r.lines, Fits body := by
  have hident := r.ident_le
  have hfilename := r.filename_le
  have hhashes := r.hashes_lt
  have hchunks := r.length_chunks
  intro body hbody
  simp only [lines, List.mem_append, List.mem_cons, List.not_mem_nil, or_false, List.mem_map]
    at hbody
  rcases hbody with ((((rfl | rfl | rfl | rfl | rfl) | ⟨hash, hhash, rfl⟩) | rfl | rfl)
    | ⟨c, _, rfl⟩)
  . exact fits_field (forall_mem_of_all (by decide)) (by simp [ascii]; omega) r.ident_ok
  . exact fits_field (forall_mem_of_all (by decide)) (by simp [ascii]; omega) r.filename_ok
  . exact fits_decimal (by decide) (forall_mem_of_all (by decide)) r.size_lt
  . exact fits_decimal (by decide) (forall_mem_of_all (by decide)) (by omega)
  . exact fits_keyLine (forall_mem_of_all (by decide)) (by decide) (by simp)
  . have hok := r.hashes_ok hash hhash
    exact fits_tabLine (by rw [hok.length]; omega) hok.isValue
  . exact fits_decimal (by decide) (forall_mem_of_all (by decide)) (by omega)
  . exact fits_keyLine (forall_mem_of_all (by decide)) (by decide) (by simp)
  . exact c.fits_chunkLine

def layout : Layout where
  identLine := keyLine (ascii "ident") r.ident ++ [newline]
  filenameLine := keyLine (ascii "filename") r.filename ++ [newline]
  sizeLine := keyLine (ascii "size") (decimal r.size) ++ [newline]
  nhashesLine := keyLine (ascii "nhashes") (decimal r.hashes.length) ++ [newline]
  hashesLine := keyLine (ascii "hashes") [] ++ [newline]
  hashLines := r.hashes.map fun hash => hashLine hash ++ [newline]
  nchunksLine := keyLine (ascii "nchunks") (decimal r.chunks.length) ++ [newline]
  chunksLine := keyLine (ascii "chunks") [] ++ [newline]
  chunkLines := r.chunks.map fun c => chunkLine c ++ [newline]

def contents : Contents where
  ident := r.ident
  filename := r.filename
  hashes := r.hashes
  chunks := r.chunks.map ChunkRecord.toChunk

theorem fgetsLines_text : fgetsLines MAX_INPUT_SIZE r.text = r.layout.lines := by
  rw [text, fgetsLines_flatMap r.fits_lines]
  simp [lines, layout, Layout.lines, Function.comp_def]

theorem ordered_layout : r.layout.Ordered where
  ident := lineKey_keyLine (isKey_of_all (by decide)) fun c hc => (r.ident_ok.isValue.plain c hc).1
  filename :=
    lineKey_keyLine (isKey_of_all (by decide)) fun c hc => (r.filename_ok.isValue.plain c hc).1
  size := lineKey_keyLine (isKey_of_all (by decide)) fun c hc => ((isValue_decimal _).plain c hc).1
  nhashes :=
    lineKey_keyLine (isKey_of_all (by decide)) fun c hc => ((isValue_decimal _).plain c hc).1
  hashes := lineKey_keyLine (isKey_of_all (by decide)) (by simp)
  nchunks :=
    lineKey_keyLine (isKey_of_all (by decide)) fun c hc => ((isValue_decimal _).plain c hc).1
  chunks := lineKey_keyLine (isKey_of_all (by decide)) (by simp)

theorem lineCount_decimal {key : Bytes} {n : Nat} (hkey : IsKey key) (h : n < 2 ^ 31)
    : isAnInt (lineValue (keyLine key (decimal n) ++ [newline])) = .ok true
        ∧ lineCount (keyLine key (decimal n) ++ [newline]) = UInt32.ofNat n := by
  rw [lineCount, lineValue_keyLine hkey (isValue_decimal n), Option.getD_some,
    uint32_atoi_decimal (Nat.lt_trans h (by decide))]
  exact ⟨isAnInt_decimal n, rfl⟩

theorem counts_layout
    : r.layout.nhashes = UInt32.ofNat r.hashes.length
        ∧ r.layout.nchunks = UInt32.ofNat r.chunks.length := by
  have hhashes := r.hashes_lt
  have hchunks := r.length_chunks
  constructor
  . exact (lineCount_decimal (isKey_of_all (by decide)) (by omega)).2
  . exact (lineCount_decimal (isKey_of_all (by decide)) (by omega)).2

theorem toNat_ofNat {n : Nat} (h : n < 2 ^ 31) : (UInt32.ofNat n).toNat = n := by
  rw [UInt32.toNat_ofNat']
  omega

theorem parses_layout : r.layout.Parses r.contents := by
  have hhashes := r.hashes_lt
  have hchunks := r.length_chunks
  have hnhashes : r.layout.nhashes.toNat = r.hashes.length := by
    rw [r.counts_layout.1, toNat_ofNat (by omega)]
  have hnchunks : r.layout.nchunks.toNat = r.chunks.length := by
    rw [r.counts_layout.2, toNat_ofNat (by omega)]
  exact {
    ordered := r.ordered_layout
    ident := lineValue_keyLine (isKey_of_all (by decide)) r.ident_ok.isValue
    length_ident := r.ident_le
    filename := lineValue_keyLine (isKey_of_all (by decide)) r.filename_ok.isValue
    size := (lineCount_decimal (isKey_of_all (by decide)) r.size_lt).1
    nhashes := (lineCount_decimal (isKey_of_all (by decide)) (by omega)).1
    hashes := by
      rw [layout, contents, List.forall₂_map_left_iff, List.forall₂_same]
      intro hash hhash
      exact readHash_hashLine (r.hashes_ok hash hhash)
    length_hashes := hnhashes.symm
    nhashes_le := by
      unfold INT_MAX
      omega
    nchunks := (lineCount_decimal (isKey_of_all (by decide)) (by omega)).1
    chunks := by
      rw [layout, contents, List.forall₂_map_left_iff, List.forall₂_map_right_iff,
        List.forall₂_same]
      intro c _
      exact c.readChunk_chunkLine
    length_chunks := by
      rw [hnchunks, contents, List.length_map]
    nchunks_le := by
      unfold INT_MAX
      omega }

structure Decoded (dir : Option Bytes) (bpkg : BpkgObj) : Prop where
  ident : bpkg.ident = some r.ident
  filename : bpkg.filename
    = some (match dir with | none => r.filename | some dir => dir ++ ascii "/" ++ r.filename)
  size : bpkg.size.toNat = r.size
  nhashes : bpkg.nhashes.toNat = r.hashes.length
  hashes : bpkg.hashes = .ofList r.hashes
  nchunks : bpkg.nchunks.toNat = r.chunks.length
  chunks : ∃ tree chunks,
    bpkg.tree = some tree
      ∧ bpkg.chunks = .ofList chunks
      ∧ chunks.map (fun c => (c.hash, c.offset.toNat, c.size.toNat))
          =
        r.chunks.map (fun c => (c.hash, c.offset, c.size))
      ∧ TreeSound r.hashes (r.chunks.map ChunkRecord.toChunk) tree.root chunks

end Record

theorem Record.readLines_text (r : Record) (dir : Option Bytes) (obj : BpkgObj)
    : readLines dir (fgetsLines MAX_INPUT_SIZE r.text) (initState obj)
        =
      .ok (false, r.layout.finalState r.contents dir (initState obj).obj) := by
  rw [r.fgetsLines_text]
  exact readLines_of_parses r.parses_layout dir _

theorem Record.finalState_layout (r : Record) (dir : Option Bytes) (obj : BpkgObj)
    : (r.layout.finalState r.contents dir obj).obj
        =
      { obj with
        ident := some r.ident
        filename := some (joinDir dir r.filename)
        size := UInt32.ofNat r.size
        nhashes := UInt32.ofNat r.hashes.length
        hashes := .ofList r.hashes
        nchunks := UInt32.ofNat r.chunks.length
        chunks := .ofList (r.chunks.map ChunkRecord.toChunk) } := by
  have hsize : lineCount r.layout.sizeLine = UInt32.ofNat r.size :=
    (lineCount_decimal (isKey_of_all (by decide)) r.size_lt).2
  have hnchunks : r.layout.nchunks.toNat = r.chunks.length := by
    have hhashes := r.hashes_lt
    have hchunks := r.length_chunks
    rw [r.counts_layout.2, toNat_ofNat (by omega)]
  unfold Layout.finalState
  rw [hsize, hnchunks, r.counts_layout.1, r.counts_layout.2]
  simp [contents, prefixArray_zero]

theorem finish_of_createTree {obj : BpkgObj} {tree : MerkleTree} {chunks : PtrArray Chunk}
    (h : createTree obj.hashes (toInt obj.nhashes.toNat) obj.chunks (toInt obj.nchunks.toNat)
      = .ok (tree, chunks))
    : finish false obj = .ok (some { obj with tree := some tree, chunks }) := by
  unfold finish
  generalize createTree obj.hashes (toInt obj.nhashes.toNat) obj.chunks (toInt obj.nchunks.toNat)
    = res at h
  rw [h]
  rfl

theorem bpkgLoad_canonical (r : Record) (dir : Option Bytes) (obj : BpkgObj)
    : ∃ bpkg, bpkgLoad obj (some r.text) dir = .ok (some bpkg) ∧ r.Decoded dir bpkg := by
  have hhashes := r.hashes_lt
  have hlength : (r.chunks.map ChunkRecord.toChunk).length = r.hashes.length + 1 := by
    rw [List.length_map, r.length_chunks]
  have hnhashes : (UInt32.ofNat r.hashes.length).toNat = r.hashes.length :=
    Record.toNat_ofNat (by omega)
  have hnchunks : (UInt32.ofNat r.chunks.length).toNat = r.chunks.length :=
    Record.toNat_ofNat (by rw [r.length_chunks]; omega)
  obtain ⟨root, htree, hbuilt, hptrs, _⟩ := createTree_spec hhashes hlength
  have hsound := treeSound_of_built hlength hbuilt hptrs
  have hint : toInt r.hashes.length = r.hashes.length := toInt_of_le (by unfold INT_MAX; omega)
  have hint' : toInt r.chunks.length = (r.chunks.map ChunkRecord.toChunk).length := by
    rw [hlength, r.length_chunks]
    exact toInt_of_le (by unfold INT_MAX; omega)
  have hload
      : bpkgLoad obj (some r.text) dir
          =
        .ok (some {
          ident := some r.ident
          filename := some (joinDir dir r.filename)
          size := UInt32.ofNat r.size
          nhashes := UInt32.ofNat r.hashes.length
          hashes := .ofList r.hashes
          nchunks := UInt32.ofNat r.chunks.length
          chunks := .ofList (linkChunks r.hashes.length root.leaves
            (r.chunks.map ChunkRecord.toChunk))
          tree := some ⟨root, 2 * r.hashes.length + 1⟩ }) := by
    unfold bpkgLoad
    simp only [r.readLines_text, bind, Except.bind, r.finalState_layout]
    apply finish_of_createTree
    dsimp only
    rw [hnhashes, hnchunks, hint, hint']
    exact htree
  refine ⟨_, hload, {
    ident := rfl
    filename := ?_
    size := Record.toNat_ofNat r.size_lt
    nhashes := hnhashes
    hashes := rfl
    nchunks := hnchunks
    chunks := ⟨_, _, rfl, rfl, ?_, hsound⟩ }⟩
  . cases dir with
    | none => rfl
    | some dir => rfl
  . rw [linkChunks.map_eq (fun _ _ => rfl), List.map_map]
    apply List.map_congr_left
    intro c _
    simp [ChunkRecord.toChunk, Record.toNat_ofNat c.offset_lt, Record.toNat_ofNat c.size_lt]

theorem isHexHash_replicate {c : UInt8} (h : isxdigit c = true) : IsHexHash (List.replicate 64 c) where
  length := List.length_replicate
  digits := by
    intro c' hc'
    rw [List.eq_of_mem_replicate hc']
    exact h

theorem isField_singleton {c : UInt8} (hprint : isprint c = true ∧ c ∉ ascii ":") (hspace : isspace c = false)
    : IsField [c] where
  ne_nil := List.cons_ne_nil c []
  printable := by
    intro c' hc'
    rw [List.mem_singleton.mp hc']
    exact hprint
  head := by
    rintro c' ⟨⟩
    exact hspace
  last := by
    rintro c' ⟨⟩
    exact hspace

theorem bpkgLoad_canonical_three
    : ∃ r : Record,
        r.text
            =
          ascii "ident:a\nfilename:b\nsize:6\nnhashes:2\nhashes:\n\t" ++ List.replicate 64 48 ++ ascii "\n\t"
            ++ List.replicate 64 49 ++ ascii "\nnchunks:3\nchunks:\n\t" ++ List.replicate 64 97
            ++ ascii ",0,3\n\t" ++ List.replicate 64 98 ++ ascii ",3,2\n\t" ++ List.replicate 64 99
            ++ ascii ",5,1\n"
          ∧ ∀ dir obj, ∃ bpkg, bpkgLoad obj (some r.text) dir = .ok (some bpkg) ∧ r.Decoded dir bpkg := by
  refine ⟨{
    ident := ascii "a"
    filename := ascii "b"
    size := 6
    hashes := [List.replicate 64 48, List.replicate 64 49]
    chunks :=
      [⟨List.replicate 64 97, 0, 3, isHexHash_replicate rfl, by decide, by decide⟩,
        ⟨List.replicate 64 98, 3, 2, isHexHash_replicate rfl, by decide, by decide⟩,
        ⟨List.replicate 64 99, 5, 1, isHexHash_replicate rfl, by decide, by decide⟩]
    ident_ok := isField_singleton (by decide) rfl
    ident_le := by decide
    filename_ok := isField_singleton (by decide) rfl
    filename_le := by decide
    size_lt := by decide
    hashes_ok :=
      List.forall_mem_cons.mpr
        ⟨isHexHash_replicate rfl, List.forall_mem_singleton.mpr (isHexHash_replicate rfl)⟩
    hashes_lt := by decide
    length_chunks := rfl }, ?_, fun dir obj => bpkgLoad_canonical _ dir obj⟩
  decide +kernel

end Btide
