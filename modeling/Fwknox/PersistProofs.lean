import Mathlib.Data.Finmap
import Fwknox.TypesProofs
import Fwknox.TextProofs
import Fwknox.LruProofs

/-! # The cache file — what is written can be read back

    `persist.rs`: one `<32 hex digits> <seconds>` line per entry after a comment
    line.  The hash maps on both sides are association lists with distinct keys;
    the order in which a map is iterated is the caller's, so nothing here depends
    on it.

    Route: what is read depends on the content of the text alone, the trimmed lines that
    are neither blank nor comments (`read_lines_statements`).  The content of a written
    text is its entries (`content_cache_text`), so it reads back (`read_cache_text`), and
    so does every text made from it by inserting blanks and comments:
    `cache_file_round_trips`. -/

namespace FwknoxPersist

open FwknoxTypes PlainText LruMap

/-- One remembered nonce and the second it was stored. -/
abbrev Entry := Σ _ : Nonce, UInt64

/-- What can go wrong with the cache file. -/
inductive ReplayError where
  | read (path source : String)
  | write (path source : String)
  | invalidFormat (path reason : String)
  deriving DecidableEq

/-- The `Display` text, with the file's path. -/
def ReplayError.to_string : ReplayError → String
  | .read path source => s!"failed to read replay cache {path}: {source}"
  | .write path source => s!"failed to write replay cache {path}: {source}"
  | .invalidFormat path reason => s!"invalid cache format in {path}: {reason}"

/-! ## Nonces in hexadecimal -/

/-- Digits above fifteen are unreachable. -/
def nibble_to_hex (n : UInt8) : Char :=
  if n ≤ 9 then Char.ofNat (48 + n.toNat) else Char.ofNat (97 + (n.toNat - 10))

/-- Two digits, the high one first. -/
def encode_byte (b : UInt8) : List Char := [nibble_to_hex (b >>> 4), nibble_to_hex (b &&& 0xF)]

/-- Thirty-two lower-case digits. -/
def encode_nonce_hex (nonce : Nonce) : List Char := nonce.toList.flatMap encode_byte

/-- `char::is_ascii_hexdigit`, of either case. -/
def is_ascii_hexdigit (c : Char) : Bool :=
  ('0' ≤ c && c ≤ '9') || ('a' ≤ c && c ≤ 'f') || ('A' ≤ c && c ≤ 'F')

/-- Both cases are read. -/
def hex_to_nibble (c : Char) : Option UInt8 :=
  if '0' ≤ c ∧ c ≤ '9' then some (.ofNat (c.toNat - 48))
  else if 'a' ≤ c ∧ c ≤ 'f' then some (.ofNat (c.toNat - 97 + 10))
  else if 'A' ≤ c ∧ c ≤ 'F' then some (.ofNat (c.toNat - 65 + 10))
  else none

/-- The loop of `parse_nonce_hex`, two digits a round. -/
def parse_bytes : List Char → Option (List UInt8)
  | [] => some []
  | [_] => none
  | hi :: lo :: rest => do
      let h ← hex_to_nibble hi
      let l ← hex_to_nibble lo
      let bytes ← parse_bytes rest
      some ((h <<< 4 ||| l) :: bytes)

/-- Thirty-two digits, nothing else. -/
def parse_nonce_hex (s : List Char) : Option Nonce :=
  if s.length = 32 ∧ s.all is_ascii_hexdigit = true then
    match parse_bytes s with
    | some bytes => if h : bytes.length = 16 then some ⟨bytes.toArray, by simpa using h⟩ else none
    | none => none
  else none

/-! ## Reading and writing -/

/-- A nonce and a time; what follows on the line is ignored. -/
def parse_entry (path : String) (num : Nat) (line : List Char) : Except ReplayError Entry :=
  match split_whitespace line with
  | [] => .error (.invalidFormat path s!"line {num}: missing nonce field")
  | [_] => .error (.invalidFormat path s!"line {num}: missing timestamp field")
  | nonce_hex :: ts_str :: _ =>
      match parse_nonce_hex nonce_hex with
      | none => .error (.invalidFormat path s!"line {num}: nonce is not 32 hex chars")
      | some nonce =>
          match parse_u64 ts_str with
          | none => .error (.invalidFormat path s!"line {num}: timestamp is not a u64")
          | some ts => .ok ⟨nonce, ts⟩

/-- The loop over the numbered lines; a repeated nonce keeps its last line. -/
def read_lines (path : String) :
    Nat → List (List Char) → Assoc Nonce UInt64 → Except ReplayError (Assoc Nonce UInt64)
  | _, [], out => .ok out
  | num, raw :: rest, out =>
      let line := trim raw
      if line.isEmpty || line.head? == some '#' then read_lines path (num + 1) rest out
      else
        match parse_entry path num line with
        | .error e => .error e
        | .ok entry => read_lines path (num + 1) rest (out.insert entry.1 entry.2)

/-- `read_cache_file`, given what `fs::read_to_string` says: an I/O error, no such
    file, or the text. -/
def read_cache_file (path : String) (file : Except String (Option (List Char))) :
    Except ReplayError (Assoc Nonce UInt64) :=
  match file with
  | .error e => .error (.read path e)
  | .ok none => .ok ∅
  | .ok (some text) => read_lines path 1 (lines text) ∅

/-- One entry as it is written. -/
def entry_line (e : Entry) : List Char := encode_nonce_hex e.1 ++ ' ' :: decimal e.2.toNat

/-- The comment every file starts with. -/
def header_line : List Char := "# fwknox replay cache".toList

/-- The text `write_cache_file` puts into the temporary file before the rename. -/
def cache_text (entries : List Entry) : List Char :=
  header_line ++ '\n' :: entries.flatMap (fun e => entry_line e ++ ['\n'])

/-! ## The round trip -/

/-- A digit is read back, and is neither blank nor `#`. -/
theorem nibble_to_hex_spec {n : UInt8} (hn : n < 16) :
    hex_to_nibble (nibble_to_hex n) = some n
      ∧ is_ascii_hexdigit (nibble_to_hex n) = true ∧ is_whitespace (nibble_to_hex n) = false
      ∧ nibble_to_hex n ≠ '#' ∧ nibble_to_hex n ≠ '\n' := by
  have hall : ∀ i : Fin 16, let n := UInt8.ofNat i
      hex_to_nibble (nibble_to_hex n) = some n
        ∧ is_ascii_hexdigit (nibble_to_hex n) = true ∧ is_whitespace (nibble_to_hex n) = false
        ∧ nibble_to_hex n ≠ '#' ∧ nibble_to_hex n ≠ '\n' := by
    decide +kernel
  have h := hall ⟨n.toNat, hn⟩
  simpa only [UInt8.ofNat_toNat] using h

/-- A byte is its two halves. -/
theorem nibbles (b : UInt8) :
    b >>> 4 < 16 ∧ b &&& 0xF < 16 ∧ (b >>> 4) <<< 4 ||| (b &&& 0xF) = b := by
  have hall : ∀ i : Fin 256, let b := UInt8.ofNat i
      b >>> 4 < 16 ∧ b &&& 0xF < 16 ∧ (b >>> 4) <<< 4 ||| (b &&& 0xF) = b := by
    decide +kernel
  have h := hall ⟨b.toNat, b.toNat_lt⟩
  simpa only [UInt8.ofNat_toNat] using h

/-- Nothing in a nonce's text ends a word, a line or an entry. -/
theorem encode_nonce_hex_chars {nonce : Nonce} {c : Char} (h : c ∈ encode_nonce_hex nonce) :
    is_ascii_hexdigit c = true ∧ is_whitespace c = false ∧ c ≠ '#' ∧ c ≠ '\n' := by
  obtain ⟨b, _, hc⟩ := List.mem_flatMap.mp h
  obtain ⟨hhi, hlo, _⟩ := nibbles b
  rcases List.mem_cons.mp hc with rfl | hc
  · exact (nibble_to_hex_spec hhi).2
  · rw [List.mem_singleton.mp hc]
    exact (nibble_to_hex_spec hlo).2

/-- Digits read back give the bytes, by induction on them. -/
theorem parse_bytes_encode (bytes : List UInt8) :
    parse_bytes (bytes.flatMap encode_byte) = some bytes := by
  induction bytes with
  | nil => rfl
  | cons b bytes ih =>
      obtain ⟨hhi, hlo, hb⟩ := nibbles b
      show parse_bytes (nibble_to_hex (b >>> 4) :: nibble_to_hex (b &&& 0xF)
        :: bytes.flatMap encode_byte) = _
      simp only [parse_bytes, (nibble_to_hex_spec hhi).1, (nibble_to_hex_spec hlo).1, ih,
        Option.bind_eq_bind, Option.bind_some, hb]

/-- Sixteen bytes, two digits each. -/
theorem encode_nonce_hex_length (nonce : Nonce) : (encode_nonce_hex nonce).length = 32 := by
  unfold encode_nonce_hex
  rw [List.length_flatMap]
  have hsum : ∀ l : List UInt8, (l.map (fun b => (encode_byte b).length)).sum = 2 * l.length := by
    intro l
    induction l with
    | nil => rfl
    | cons b l ih =>
        rw [List.map_cons, List.sum_cons, ih, List.length_cons]
        show 2 + 2 * l.length = 2 * (l.length + 1)
        omega
  rw [hsum, Vector.length_toList]

/-- A nonce is read back from its text. -/
theorem parse_nonce_hex_encode (nonce : Nonce) :
    parse_nonce_hex (encode_nonce_hex nonce) = some nonce := by
  have hall : (encode_nonce_hex nonce).all is_ascii_hexdigit = true :=
    List.all_eq_true.mpr (fun _ hc => (encode_nonce_hex_chars hc).1)
  unfold parse_nonce_hex
  rw [if_pos ⟨encode_nonce_hex_length nonce, hall⟩]
  have hp : parse_bytes (encode_nonce_hex nonce) = some nonce.toList := parse_bytes_encode _
  simp only [hp]
  rw [dif_pos Vector.length_toList]
  exact congrArg some (Vector.toArray_inj.mp Array.toArray_toList)

/-- A line of the file has no line break, and neither end of it is blank. -/
theorem entry_line_spec (e : Entry) :
    '\n' ∉ entry_line e ∧ trim (entry_line e) = entry_line e
      ∧ skipped '#' (entry_line e) = false := by
  have hlen := encode_nonce_hex_length e.1
  obtain ⟨c, cs, hcs⟩ : ∃ c cs, encode_nonce_hex e.1 = c :: cs := by
    cases h : encode_nonce_hex e.1 with
    | nil => rw [h] at hlen; exact absurd hlen (by decide)
    | cons c cs => exact ⟨c, cs, rfl⟩
  have hmem : c ∈ encode_nonce_hex e.1 := hcs ▸ List.mem_cons_self
  have hc := encode_nonce_hex_chars hmem
  have hhead : (entry_line e).head? = some c := by rw [entry_line, hcs]; rfl
  obtain ⟨d, hd⟩ : ∃ d, (decimal e.2.toNat).getLast? = some d :=
    ⟨_, List.getLast?_eq_some_getLast (decimal_ne_nil _)⟩
  have hdig : d.isDigit = true := isDigit_of_mem_decimal (List.mem_of_getLast? hd)
  have hlast : (entry_line e).getLast? = some d := by
    rw [entry_line, List.getLast?_append, List.getLast?_cons_of_ne_nil (decimal_ne_nil _), hd]
    rfl
  refine ⟨?_, ?_, ?_⟩
  · intro h
    rcases List.mem_append.mp h with h | h
    · exact (encode_nonce_hex_chars h).2.2.2 rfl
    · rcases List.mem_cons.mp h with h | h
      · exact absurd h (by decide)
      · exact absurd (isDigit_of_mem_decimal h) (by decide)
  · refine trim_eq_self ?_ ?_
    · rw [hhead]
      rintro x ⟨⟩
      exact hc.2.1
    · rw [hlast]
      rintro x ⟨⟩
      exact not_whitespace_of_isDigit hdig
  · have hne : entry_line e ≠ [] := by
      intro h
      rw [h] at hhead
      exact nomatch hhead
    simp [skipped, hne, hhead, hc.2.2.1]

/-- An entry is read back from its line. -/
theorem parse_entry_line (path : String) (num : Nat) (e : Entry) :
    parse_entry path num (entry_line e) = .ok e := by
  have hne : encode_nonce_hex e.1 ≠ [] := by
    intro h
    have := encode_nonce_hex_length e.1
    rw [h] at this
    exact absurd this (by decide)
  have hsplit : split_whitespace (entry_line e)
      = [encode_nonce_hex e.1, decimal e.2.toNat] :=
    split_whitespace_two hne (decimal_ne_nil _) (fun _ h => (encode_nonce_hex_chars h).2.1)
      (by decide) (fun _ h => not_whitespace_of_isDigit (isDigit_of_mem_decimal h))
  unfold parse_entry
  simp only [hsplit, parse_nonce_hex_encode, parse_u64_decimal]

/-- A line passed over only advances the line number. -/
theorem read_lines_of_skipped (path : String) (num : Nat) {raw : List Char}
    (h : skipped '#' (trim raw) = true) (raws : List (List Char)) (out : Assoc Nonce UInt64) :
    read_lines path num (raw :: raws) out = read_lines path (num + 1) raws out :=
  if_pos h

/-- A line with an entry puts it into the map. -/
theorem read_lines_of_entry {path : String} {num : Nat} {raw : List Char} {e : Entry}
    (h : skipped '#' (trim raw) = false) (he : parse_entry path num (trim raw) = .ok e)
    (raws : List (List Char)) (out : Assoc Nonce UInt64) :
    read_lines path num (raw :: raws) out
      = read_lines path (num + 1) raws (out.insert e.1 e.2) := by
  simp only [skipped] at h
  simp only [read_lines, h, he, Bool.false_eq_true, if_false]

/-- A text is read by its content: lines that are passed over cost a line number and
    nothing else. -/
theorem read_lines_statements (path : String) {raws : List (List Char)} {entries : List Entry}
    (h : statements '#' raws = entries.map entry_line) (num : Nat) (out : Assoc Nonce UInt64) :
    read_lines path num raws out = .ok (entries.foldl (fun m e => m.insert e.1 e.2) out) := by
  induction raws generalizing entries num out with
  | nil =>
      obtain rfl : entries = [] := List.map_eq_nil_iff.mp h.symm
      rfl
  | cons raw raws ih =>
      cases hskip : skipped '#' (trim raw) with
      | true =>
          rw [statements_cons_of_skipped hskip] at h
          rw [read_lines_of_skipped path num hskip]
          exact ih h (num + 1) out
      | false =>
          rw [statements_cons_of_not_skipped hskip] at h
          obtain ⟨e, entries', rfl, hraw, hraws⟩ := List.map_eq_cons_iff.mp h.symm
          have he : parse_entry path num (trim raw) = .ok e := hraw ▸ parse_entry_line path num e
          rw [read_lines_of_entry hskip he]
          exact ih hraws.symm (num + 1) (out.insert e.1 e.2)

/-- A file's content is its entries, line by line. -/
theorem content_entries (entries : List Entry) :
    content '#' (entries.flatMap (fun e => entry_line e ++ ['\n'])) = entries.map entry_line := by
  induction entries with
  | nil => rfl
  | cons e entries ih =>
      obtain ⟨hnl, htrim, hskip⟩ := entry_line_spec e
      have hline : content '#' (entry_line e) = [entry_line e] := by
        rw [content_line hnl, statements_cons_of_not_skipped (htrim.symm ▸ hskip), htrim]
        rfl
      rw [List.flatMap_cons, List.append_assoc]
      show content '#' (entry_line e ++ '\n' :: entries.flatMap _) = _
      rw [content_break, hline, ih]
      rfl

/-- The content of a written file is its entries: the header is a comment. -/
theorem content_cache_text (entries : List Entry) :
    content '#' (cache_text entries) = entries.map entry_line := by
  have hheader : content '#' header_line = [] := by decide +kernel
  rw [cache_text, content_break, hheader, content_entries, List.nil_append]

/-- **FILE ROUND TRIP**: a text whose content is the lines of distinct nonces reads back
    as exactly those entries. -/
theorem read_content (path : String) {text : List Char} {entries : List Entry}
    (hnd : entries.NodupKeys) (htext : content '#' text = entries.map entry_line) :
    ∃ m, read_cache_file path (.ok (some text)) = .ok m ∧ m.entries = entries.reverse := by
  refine ⟨_, read_lines_statements path htext 1 ∅, ?_⟩
  rw [foldl_insert_entries hnd (fun _ _ => AList.notMem_empty _)]
  exact List.append_nil _

/-- The text written for distinct nonces reads back as exactly those entries. -/
theorem read_cache_text (path : String) {entries : List Entry} (hnd : entries.NodupKeys) :
    ∃ m, read_cache_file path (.ok (some (cache_text entries))) = .ok m
      ∧ m.entries = entries.reverse :=
  read_content path hnd (content_cache_text entries)

/-! ## The file as a map -/

/-- What `read_cache_file` returns for a text, as a finite map. -/
def read_map (path : String) (text : List Char) :
    Except ReplayError (Finmap (fun _ : Nonce => UInt64)) :=
  (read_cache_file path (.ok (some text))).map AList.toFinmap

/-- Any text with the lines of a map's entries reads as that map. -/
theorem read_map_of_content (path : String) {m : Finmap (fun _ : Nonce => UInt64)}
    {entries : List Entry} (horder : m.entries = entries) {text : List Char}
    (htext : content '#' text = entries.map entry_line) : read_map path text = .ok m := by
  have hnd : entries.NodupKeys := by
    have h := m.nodupKeys
    rw [horder] at h
    exact Multiset.coe_nodupKeys.mp h
  obtain ⟨a, hread, ha⟩ := read_content path hnd htext
  have hmap : a.toFinmap = m := by
    refine Finmap.ext ?_
    rw [horder, ← Multiset.coe_reverse, ← ha]
    rfl
  rw [read_map, hread, ← hmap]
  rfl

/-- **THE CACHE FILE ROUND-TRIPS**: every finite map, written in any order, reads back as
    that map, and so does the written text after any number of insertions of blank lines,
    comment lines and blanks around lines. -/
theorem cache_file_round_trips (path : String) (m : Finmap (fun _ : Nonce => UInt64))
    (entries : List Entry) (horder : m.entries = entries) :
    read_map path (cache_text entries) = .ok m
      ∧ ∀ text, Relation.ReflTransGen (Inserted '#') (cache_text entries) text →
          read_map path text = .ok m := by
  have hwritten := content_cache_text entries
  constructor
  · exact read_map_of_content path horder hwritten
  · intro text hins
    have hcontent := content_of_insertions (by decide) hins
    exact read_map_of_content path horder (hcontent.trans hwritten)

/-- A nonce of the year 2023. -/
def sampleEntry : Entry := ⟨Vector.replicate 16 0xAA, 1700000000⟩

/-- The greatest stamp there is. -/
def latestEntry : Entry := ⟨Vector.replicate 16 0xBB, 18446744073709551615⟩

/-- A map with that one entry. -/
def sampleMap : Finmap (fun _ : Nonce => UInt64) :=
  AList.toFinmap ⟨[sampleEntry, latestEntry],
    List.nodupKeys_cons.mpr ⟨by decide, List.nodupKeys_singleton _⟩⟩

/-- Two entries written in the other order, then an indent, a comment line and a Windows
    line ending put into the file. -/
theorem annotated_file_read :
    read_map "/c" (header_line ++ '\n' :: '\t' :: (entry_line latestEntry
      ++ '\n' :: '#' :: '!' :: '\n' :: (entry_line sampleEntry ++ ['\r', '\n'])))
      = .ok sampleMap := by
  have horder : sampleMap.entries = [latestEntry, sampleEntry] :=
    Multiset.coe_eq_coe.mpr (List.Perm.swap ..)
  refine (cache_file_round_trips "/c" sampleMap [latestEntry, sampleEntry] horder).2 _ ?_
  have hindent : Inserted '#' (cache_text [latestEntry, sampleEntry])
      (header_line ++ '\n' :: '\t' :: (entry_line latestEntry
        ++ '\n' :: (entry_line sampleEntry ++ ['\n']))) := by
    simpa [cache_text] using Inserted.leading (x := header_line ++ ['\n']) (w := ['\t'])
      (entry_line latestEntry ++ '\n' :: (entry_line sampleEntry ++ ['\n']))
      (.inr List.getLast?_concat) (by decide)
  have hcomment : Inserted '#'
      (header_line ++ '\n' :: '\t' :: (entry_line latestEntry
        ++ '\n' :: (entry_line sampleEntry ++ ['\n'])))
      (header_line ++ '\n' :: '\t' :: (entry_line latestEntry
        ++ '\n' :: '#' :: '!' :: '\n' :: (entry_line sampleEntry ++ ['\n']))) := by
    simpa using Inserted.comment_line (c := ['!'])
      (x := (header_line ++ '\n' :: '\t' :: entry_line latestEntry) ++ ['\n'])
      (entry_line sampleEntry ++ ['\n']) (.inr List.getLast?_concat) (by decide)
  have hreturn : Inserted '#'
      (header_line ++ '\n' :: '\t' :: (entry_line latestEntry
        ++ '\n' :: '#' :: '!' :: '\n' :: (entry_line sampleEntry ++ ['\n'])))
      (header_line ++ '\n' :: '\t' :: (entry_line latestEntry
        ++ '\n' :: '#' :: '!' :: '\n' :: (entry_line sampleEntry ++ ['\r', '\n']))) := by
    simpa using Inserted.trailing (y := ['\n']) (w := ['\r'])
      (header_line ++ '\n' :: '\t' :: (entry_line latestEntry
        ++ '\n' :: '#' :: '!' :: '\n' :: entry_line sampleEntry)) (.inr rfl) (by decide)
  exact ((Relation.ReflTransGen.single hindent).tail hcomment).tail hreturn

end FwknoxPersist
