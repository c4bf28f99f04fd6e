import Mathlib.Data.List.DropRight
import Mathlib.Data.Nat.Digits.Defs
import Mathlib.Logic.Relation

/-! # Line-oriented text — splitting, trimming, decimals

    The string operations a reader of a line-oriented file is written with, over
    lists of characters and with the conventions of Rust's standard library:
    `lines`, `trim`, `split_whitespace` and the decimal parsers of unsigned types.  The lemmas
    are the ones a round trip needs: one line, one word, one number at a time. -/

namespace PlainText

/-- `char::is_whitespace`: the Unicode `White_Space` property. -/
def is_whitespace (c : Char) : Bool :=
  let n := c.toNat
  (0x09 ≤ n && n ≤ 0x0d) || n == 0x20 || n == 0x85 || n == 0xa0 || n == 0x1680
    || (0x2000 ≤ n && n ≤ 0x200a) || n == 0x2028 || n == 0x2029 || n == 0x202f
    || n == 0x205f || n == 0x3000

/-- A line without the carriage return of its ending. -/
def strip_cr (l : List Char) : List Char := if l.getLast? = some '\r' then l.dropLast else l

/-- `str::lines`: a last line without an ending counts unless it is empty. -/
def lines (text : List Char) : List (List Char) :=
  let pieces := text.splitOn '\n'
  pieces.dropLast.map strip_cr ++ pieces.getLast?.toList.filter (fun l => !l.isEmpty)

/-- `str::trim`. -/
def trim (l : List Char) : List Char := (l.dropWhile is_whitespace).rdropWhile is_whitespace

/-- `str::split_whitespace`. -/
def split_whitespace (l : List Char) : List (List Char) :=
  (l.splitOnP is_whitespace).filter (fun w => !w.isEmpty)

/-- One leading plus sign is allowed. -/
def strip_plus (l : List Char) : List Char := if l.head? = some '+' then l.tail else l

/-- `str::parse` of an unsigned type with `width` bits: an optional plus sign, then
    digits that fit. -/
def parse_unsigned (width : Nat) (l : List Char) : Option Nat :=
  let digits := strip_plus l
  if digits.isEmpty || !digits.all Char.isDigit then none
  else if Nat.ofDigitChars 10 digits 0 < 2 ^ width then some (Nat.ofDigitChars 10 digits 0)
  else none

/-- `str::parse::<u64>`. -/
def parse_u64 (l : List Char) : Option UInt64 := (parse_unsigned 64 l).map .ofNat

/-- `str::parse::<u32>`. -/
def parse_u32 (l : List Char) : Option UInt32 := (parse_unsigned 32 l).map .ofNat

/-- `str::parse::<u16>`. -/
def parse_u16 (l : List Char) : Option UInt16 := (parse_unsigned 16 l).map .ofNat

/-- The decimal form of a number. -/
def decimal (n : Nat) : List Char := Nat.toDigits 10 n

/-! ## Words -/

/-- Nothing to trim between two characters that are not blank. -/
theorem trim_eq_self {l : List Char} (hhd : ∀ c ∈ l.head?, is_whitespace c = false)
    (hlast : ∀ c ∈ l.getLast?, is_whitespace c = false) : trim l = l := by
  have hdrop : l.dropWhile is_whitespace = l := by
    cases l with
    | nil => rfl
    | cons c cs => rw [List.dropWhile_cons, if_neg (by simp [hhd c rfl])]
  unfold trim
  rw [hdrop, List.rdropWhile_eq_self_iff]
  intro hl
  rw [hlast _ (List.getLast?_eq_getLast_of_ne_nil hl)]
  exact Bool.false_ne_true

/-- Every character is blank. -/
def Blank (w : List Char) : Prop := ∀ c ∈ w, is_whitespace c = true

instance (w : List Char) : Decidable (Blank w) :=
  decidable_of_iff (w.all is_whitespace = true) List.all_eq_true

/-- Blanks in front are trimmed. -/
theorem trim_blank_append {w : List Char} (hw : Blank w) (l : List Char) :
    trim (w ++ l) = trim l := by
  simp only [trim]
  rw [List.dropWhile_append_of_pos hw]

/-- Of blanks nothing is left. -/
theorem trim_blank {w : List Char} (hw : Blank w) : trim w = [] := by
  have h := trim_blank_append hw []
  rw [List.append_nil] at h
  exact h

/-- Only of blanks is nothing left. -/
theorem trim_eq_nil_iff {l : List Char} : trim l = [] ↔ Blank l := by
  refine ⟨?_, trim_blank⟩
  intro h
  rw [trim, List.rdropWhile_eq_nil_iff] at h
  refine List.dropWhile_eq_nil_iff.mp ?_
  by_contra hne
  -- The first character that is not dropped is not blank.
  have hhead := List.head_dropWhile_not is_whitespace hne
  rw [h _ (List.head_mem hne)] at hhead
  cases hhead

/-- Blanks at the end are dropped from the right. -/
theorem rdropWhile_append_blank {w : List Char} (hw : Blank w) (l : List Char) :
    (l ++ w).rdropWhile is_whitespace = l.rdropWhile is_whitespace := by
  have hrev : ∀ c ∈ w.reverse, is_whitespace c = true := by
    intro c hc
    exact hw c (List.mem_reverse.mp hc)
  simp only [List.rdropWhile, List.reverse_append]
  rw [List.dropWhile_append_of_pos hrev]

/-- Blanks behind are trimmed. -/
theorem trim_append_blank {w : List Char} (hw : Blank w) (l : List Char) :
    trim (l ++ w) = trim l := by
  simp only [trim]
  rw [List.dropWhile_append]
  by_cases hl : (l.dropWhile is_whitespace).isEmpty = true
  · have hnil : w.dropWhile is_whitespace = [] := List.dropWhile_eq_nil_iff.mpr hw
    rw [if_pos hl, hnil, List.isEmpty_iff.mp hl]
  · rw [if_neg hl, rdropWhile_append_blank hw]

/-- The carriage return of a line ending is trimmed anyway. -/
theorem trim_strip_cr (l : List Char) : trim (strip_cr l) = trim l := by
  by_cases h : l.getLast? = some '\r'
  · obtain ⟨l', rfl⟩ := List.getLast?_eq_some_iff.mp h
    have hcr : strip_cr (l' ++ ['\r']) = l' := by
      rw [strip_cr, if_pos h, List.dropLast_concat]
    rw [hcr, trim_append_blank (by decide)]
  · rw [strip_cr, if_neg h]

/-- Trimming a line stops at a first character that is not blank. -/
theorem head_trim_cons {c : Char} (hc : is_whitespace c = false) (l : List Char) :
    (trim (c :: l)).head? = some c := by
  have hdrop : (c :: l).dropWhile is_whitespace = c :: l := by
    rw [List.dropWhile_cons, if_neg (by simp [hc])]
  have hlast : [c].dropWhile is_whitespace = [c] := by
    rw [List.dropWhile_cons, if_neg (by simp [hc])]
  simp only [trim, hdrop, List.rdropWhile, List.reverse_cons, List.dropWhile_append, hlast]
  split
  · rfl
  · rw [List.reverse_append]
    rfl

/-- Two words and the blank between them. -/
theorem split_whitespace_two {a b : List Char} {c : Char} (ha : a ≠ []) (hb : b ≠ [])
    (hwa : ∀ x ∈ a, is_whitespace x = false) (hc : is_whitespace c = true)
    (hwb : ∀ x ∈ b, is_whitespace x = false) : split_whitespace (a ++ c :: b) = [a, b] := by
  unfold split_whitespace
  rw [List.splitOnP_append_cons_of_forall_mem hwa c hc, List.splitOnP_eq_singleton hwb]
  simp [ha, hb]

/-! ## Lines that count

    A file of statements, one a line, in which blank lines and lines that start with a
    comment mark are passed over.  Its content splits at every line break
    (`content_break`), and no insertion of blanks or comments changes it
    (`content_of_insertions`). -/

section Content

variable {mark : Char}

/-- A trimmed line a reader passes over. -/
def skipped (mark : Char) (line : List Char) : Bool := line.isEmpty || line.head? == some mark

/-- The trimmed lines that are not passed over. -/
def statements (mark : Char) (raws : List (List Char)) : List (List Char) :=
  (raws.map trim).filter (fun line => !skipped mark line)

/-- What a reader of the whole text gets to see. -/
def content (mark : Char) (text : List Char) : List (List Char) := statements mark (lines text)

/-- Lines are judged one by one. -/
theorem statements_append (as bs : List (List Char)) :
    statements mark (as ++ bs) = statements mark as ++ statements mark bs := by
  simp only [statements, List.map_append, List.filter_append]

/-- A line passed over leaves no statement. -/
theorem statements_cons_of_skipped {raw : List Char} (h : skipped mark (trim raw) = true)
    (raws : List (List Char)) : statements mark (raw :: raws) = statements mark raws := by
  simp only [statements, List.map_cons]
  exact List.filter_cons_of_neg (by simp [h])

/-- Any other line is a statement, trimmed. -/
theorem statements_cons_of_not_skipped {raw : List Char} (h : skipped mark (trim raw) = false)
    (raws : List (List Char)) :
    statements mark (raw :: raws) = trim raw :: statements mark raws := by
  simp only [statements, List.map_cons]
  exact List.filter_cons_of_pos (by simp [h])

/-- A carriage return before the line break is a blank like any other. -/
theorem statements_strip_cr (raws : List (List Char)) :
    statements mark (raws.map strip_cr) = statements mark raws := by
  have htrim : trim ∘ strip_cr = trim := funext trim_strip_cr
  simp only [statements, List.map_map, htrim]

/-- Line endings and a missing last line make no difference to the content. -/
theorem content_eq_splitOn (text : List Char) :
    content mark text = statements mark (text.splitOn '\n') := by
  have hne : text.splitOn '\n' ≠ [] := List.splitOnP_ne_nil _ _
  simp only [content, lines]
  generalize text.splitOn '\n' = pieces at hne
  rw [statements_append, statements_strip_cr, List.getLast?_eq_some_getLast hne]
  have hlast : statements mark ((some (pieces.getLast hne)).toList.filter (fun l => !l.isEmpty))
      = statements mark [pieces.getLast hne] := by
    cases h : pieces.getLast hne with
    | nil => rfl
    | cons c l => rfl
  rw [hlast, ← statements_append, List.dropLast_concat_getLast]

/-- The empty text says nothing. -/
theorem content_nil : content mark [] = [] := rfl

/-- **CONTENT SPLITS AT A LINE BREAK**. -/
theorem content_break (x y : List Char) :
    content mark (x ++ '\n' :: y) = content mark x ++ content mark y := by
  have hsplit : (x ++ '\n' :: y).splitOn '\n' = x.splitOn '\n' ++ y.splitOn '\n' :=
    List.splitOnP_append_cons x y (beq_self_eq_true _)
  rw [content_eq_splitOn, content_eq_splitOn, content_eq_splitOn, hsplit, statements_append]

/-- The content of a single line. -/
theorem content_line {l : List Char} (hl : '\n' ∉ l) : content mark l = statements mark [l] := by
  have hsplit : l.splitOn '\n' = [l] :=
    List.splitOnP_eq_singleton (fun c hc => beq_false_of_ne (ne_of_mem_of_not_mem hc hl))
  rw [content_eq_splitOn, hsplit]

/-! ### Line boundaries -/

/-- The text ends where a line begins. -/
def AtLineStart (x : List Char) : Prop := x = [] ∨ x.getLast? = some '\n'

/-- The text begins where a line ends. -/
def AtLineEnd (y : List Char) : Prop := y = [] ∨ y.head? = some '\n'

instance (x : List Char) : Decidable (AtLineStart x) := inferInstanceAs (Decidable (_ ∨ _))

instance (y : List Char) : Decidable (AtLineEnd y) := inferInstanceAs (Decidable (_ ∨ _))

/-- At the start of a line the content splits. -/
theorem content_append_of_lineStart {x : List Char} (hx : AtLineStart x) (y : List Char) :
    content mark (x ++ y) = content mark x ++ content mark y := by
  rcases hx with rfl | hx
  · rfl
  · obtain ⟨z, rfl⟩ := List.getLast?_eq_some_iff.mp hx
    have hz : content mark (z ++ ['\n']) = content mark z := by
      rw [content_break, content_nil, List.append_nil]
    rw [hz, List.append_assoc]
    exact content_break z y

/-- At the end of a line it splits as well. -/
theorem content_append_of_lineEnd {y : List Char} (hy : AtLineEnd y) (x : List Char) :
    content mark (x ++ y) = content mark x ++ content mark y := by
  rcases hy with rfl | hy
  · rw [List.append_nil, content_nil, List.append_nil]
  · obtain ⟨z, rfl⟩ := List.head?_eq_some_iff.mp hy
    have hz : content mark ('\n' :: z) = content mark z := content_break [] z
    rw [hz]
    exact content_break x z

/-- Every text is whole lines and one line without an ending. -/
theorem exists_last_line (x : List Char) :
    ∃ z l, x = z ++ l ∧ AtLineStart z ∧ '\n' ∉ l := by
  induction x using List.reverseRecOn with
  | nil => exact ⟨[], [], rfl, .inl rfl, List.not_mem_nil⟩
  | append_singleton x c ih =>
      obtain ⟨z, l, rfl, hz, hl⟩ := ih
      by_cases hc : c = '\n'
      · refine ⟨z ++ l ++ [c], [], (List.append_nil _).symm, .inr ?_, List.not_mem_nil⟩
        rw [List.getLast?_concat, hc]
      · refine ⟨z, l ++ [c], List.append_assoc .., hz, ?_⟩
        intro h
        rcases List.mem_append.mp h with h | h
        · exact hl h
        · exact hc (List.mem_singleton.mp h).symm

/-! ### Insertions -/

/-- A blank in front of a text adds nothing, be it a line break. -/
theorem content_cons_blank {c : Char} (hc : is_whitespace c = true) (t : List Char) :
    content mark (c :: t) = content mark t := by
  by_cases hn : c = '\n'
  · subst hn
    exact content_break [] t
  · -- the first line gets one more blank in front
    obtain ⟨l, ls, hls⟩ := List.exists_cons_of_ne_nil (List.splitOnP_ne_nil (· == '\n') t)
    have hsplit : (c :: t).splitOn '\n' = (c :: l) :: ls := by
      rw [List.splitOn_eq_splitOnP, List.splitOnP_cons_eq_if_modifyHead, if_neg (by simp [hn]), hls]
      rfl
    have htrim : trim (c :: l) = trim l := trim_blank_append (w := [c]) (by simpa [Blank]) l
    rw [content_eq_splitOn, content_eq_splitOn, hsplit, List.splitOn_eq_splitOnP, hls]
    simp only [statements, List.map_cons, htrim]

/-- Nor do several, by induction on them. -/
theorem content_blank_append {w : List Char} (hw : Blank w) (t : List Char) :
    content mark (w ++ t) = content mark t := by
  induction w with
  | nil => rfl
  | cons c w ih =>
      rw [List.cons_append, content_cons_blank (hw c List.mem_cons_self)]
      exact ih (fun d hd => hw d (List.mem_cons_of_mem c hd))

/-- A blank behind a text adds nothing. -/
theorem content_concat_blank {c : Char} (hc : is_whitespace c = true) (x : List Char) :
    content mark (x ++ [c]) = content mark x := by
  by_cases hn : c = '\n'
  · subst hn
    rw [content_break, content_nil, List.append_nil]
  · obtain ⟨z, l, rfl, hz, hl⟩ := exists_last_line x
    have hl' : '\n' ∉ l ++ [c] := by
      intro h
      rcases List.mem_append.mp h with h | h
      · exact hl h
      · exact hn (List.mem_singleton.mp h).symm
    have htrim : trim (l ++ [c]) = trim l := trim_append_blank (by simpa [Blank]) l
    rw [List.append_assoc, content_append_of_lineStart hz, content_append_of_lineStart hz,
      content_line hl', content_line hl]
    simp only [statements, List.map_cons, htrim]

/-- Nor do several, by induction from the right. -/
theorem content_append_blank {w : List Char} (hw : Blank w) (x : List Char) :
    content mark (x ++ w) = content mark x := by
  induction w generalizing x with
  | nil => rw [List.append_nil]
  | cons c w ih =>
      have hcons : x ++ c :: w = (x ++ [c]) ++ w := by rw [List.append_assoc]; rfl
      rw [hcons, ih (fun d hd => hw d (List.mem_cons_of_mem c hd)),
        content_concat_blank (hw c List.mem_cons_self)]

/-- A comment says nothing. -/
theorem content_comment (hmark : is_whitespace mark = false) {c : List Char} (hc : '\n' ∉ c) :
    content mark (mark :: c) = [] := by
  have hne : '\n' ≠ mark := by
    rintro rfl
    exact absurd hmark (by decide)
  have hskip : skipped mark (trim (mark :: c)) = true := by
    simp [skipped, head_trim_cons hmark c]
  rw [content_line (List.not_mem_cons_of_ne_of_not_mem hne hc),
    statements_cons_of_skipped hskip]
  rfl

/-- One insertion into a text: a blank line or a comment line where a line begins, the
    last one perhaps without an ending, or blanks before or after a line.  Blanks may
    hold line breaks. -/
inductive Inserted (mark : Char) : List Char → List Char → Prop where
  | blank_line {x w : List Char} (y : List Char) (hx : AtLineStart x) (hw : Blank w) :
      Inserted mark (x ++ y) (x ++ (w ++ '\n' :: y))
  | comment_line {x c : List Char} (y : List Char) (hx : AtLineStart x) (hc : '\n' ∉ c) :
      Inserted mark (x ++ y) (x ++ (mark :: c ++ '\n' :: y))
  | last_comment {x c : List Char} (hx : AtLineStart x) (hc : '\n' ∉ c) :
      Inserted mark x (x ++ mark :: c)
  | leading {x w : List Char} (y : List Char) (hx : AtLineStart x) (hw : Blank w) :
      Inserted mark (x ++ y) (x ++ (w ++ y))
  | trailing {y w : List Char} (x : List Char) (hy : AtLineEnd y) (hw : Blank w) :
      Inserted mark (x ++ y) (x ++ (w ++ y))

/-- One insertion leaves the content, case by case. -/
theorem Inserted.content_eq (hmark : is_whitespace mark = false) {s t : List Char}
    (h : Inserted mark s t) : content mark t = content mark s := by
  cases h with
  | blank_line y hx hw =>
      rw [content_append_of_lineStart hx, content_append_of_lineStart hx, content_blank_append hw,
        content_cons_blank (by decide)]
  | comment_line y hx hc =>
      rw [content_append_of_lineStart hx, content_append_of_lineStart hx, content_break,
        content_comment hmark hc, List.nil_append]
  | last_comment hx hc =>
      rw [content_append_of_lineStart hx, content_comment hmark hc, List.append_nil]
  | leading y hx hw =>
      rw [content_append_of_lineStart hx, content_append_of_lineStart hx, content_blank_append hw]
  | trailing x hy hw =>
      rw [← List.append_assoc, content_append_of_lineEnd hy, content_append_of_lineEnd hy,
        content_append_blank hw]

/-- **INSERTIONS LEAVE THE CONTENT ALONE**, however many there are. -/
theorem content_of_insertions (hmark : is_whitespace mark = false) {s t : List Char}
    (h : Relation.ReflTransGen (Inserted mark) s t) : content mark t = content mark s := by
  induction h with
  | refl => rfl
  | tail _ hstep ih => exact (hstep.content_eq hmark).trans ih

end Content

/-! ## Numbers -/

/-- The decimal form consists of digits. -/
theorem isDigit_of_mem_decimal {n : Nat} {c : Char} (h : c ∈ decimal n) : c.isDigit = true :=
  Nat.isDigit_of_mem_toDigits (by decide) (by decide) h

/-- It has at least one. -/
theorem decimal_ne_nil (n : Nat) : decimal n ≠ [] := Nat.toDigits_ne_nil

/-- A digit is no blank, so trimming leaves numbers alone. -/
theorem not_whitespace_of_isDigit {c : Char} (h : c.isDigit = true) : is_whitespace c = false := by
  have hn : 48 ≤ c.toNat ∧ c.toNat ≤ 57 := by
    unfold Char.isDigit at h
    rw [Bool.and_eq_true, decide_eq_true_iff, decide_eq_true_iff] at h
    exact ⟨UInt32.le_iff_toNat_le.mp h.1, UInt32.le_iff_toNat_le.mp h.2⟩
  simp only [is_whitespace, Bool.or_eq_false_iff, Bool.and_eq_false_iff, decide_eq_false_iff_not,
    beq_eq_false_iff_ne]
  omega

/-- The decimal form has no sign to strip. -/
theorem strip_plus_decimal (n : Nat) : strip_plus (decimal n) = decimal n := by
  refine if_neg (fun h => ?_)
  exact absurd (isDigit_of_mem_decimal (List.mem_of_mem_head? h)) (by decide)

/-- **DECIMAL ROUND TRIP**: printing a number and parsing it gives it back, at every width it
    fits into. -/
theorem parse_unsigned_decimal {width n : Nat} (h : n < 2 ^ width) :
    parse_unsigned width (decimal n) = some n := by
  have hall : (decimal n).all Char.isDigit = true :=
    List.all_eq_true.mpr (fun _ h => isDigit_of_mem_decimal h)
  have hval : Nat.ofDigitChars 10 (decimal n) 0 = n :=
    Nat.ofDigitChars_toDigits (by decide) (by decide)
  unfold parse_unsigned
  simp only [strip_plus_decimal, hall, hval]
  rw [if_neg (by simp [decimal_ne_nil]), if_pos h]

/-- A `u64` is read back from its decimal form. -/
theorem parse_u64_decimal (u : UInt64) : parse_u64 (decimal u.toNat) = some u := by
  rw [parse_u64, parse_unsigned_decimal u.toNat_lt, Option.map_some, UInt64.ofNat_toNat]

/-- So is a `u16`. -/
theorem parse_u16_decimal (u : UInt16) : parse_u16 (decimal u.toNat) = some u := by
  rw [parse_u16, parse_unsigned_decimal u.toNat_lt, Option.map_some, UInt16.ofNat_toNat]

/-! ## Numbers with a reason -/

/-- `IntErrorKind`, as far as an unsigned type can get there. -/
inductive IntErrorKind where
  | empty
  | invalidDigit
  | posOverflow
  deriving DecidableEq

/-- The `Display` texts of the standard library. -/
def IntErrorKind.to_string : IntErrorKind → String
  | .empty => "cannot parse integer from empty string"
  | .invalidDigit => "invalid digit found in string"
  | .posOverflow => "number too large to fit in target type"

/-- The digits from the left; the first one that does not fit or is none decides the error. -/
def read_digits (width : Nat) : Nat → List Char → Except IntErrorKind Nat
  | n, [] => .ok n
  | n, c :: cs =>
      if c.isDigit then
        let n := 10 * n + (c.toNat - '0'.toNat)
        if n < 2 ^ width then read_digits width n cs else .error .posOverflow
      else .error .invalidDigit

/-- `str::parse` of an unsigned type with the error it returns; a lone sign is a bad digit. -/
def parse_int (width : Nat) (l : List Char) : Except IntErrorKind Nat :=
  if l = [] then .error .empty
  else if strip_plus l = [] then .error .invalidDigit
  else read_digits width 0 (strip_plus l)

/-- Reading on never makes a number smaller, so an overflow cannot be undone. -/
theorem le_ofDigitChars (l : List Char) (n : Nat) : n ≤ Nat.ofDigitChars 10 l n := by
  induction l generalizing n with
  | nil => exact Nat.le_refl n
  | cons c l ih =>
      rw [Nat.ofDigitChars_cons]
      exact Nat.le_trans (by omega) (ih _)

/-- The loop succeeds exactly on digits whose number fits. -/
theorem read_digits_eq_ok {width : Nat} {l : List Char} {n m : Nat} (hn : n < 2 ^ width) :
    read_digits width n l = .ok m
      ↔ (∀ c ∈ l, c.isDigit = true) ∧ Nat.ofDigitChars 10 l n = m ∧ m < 2 ^ width := by
  induction l generalizing n with
  | nil =>
      simp only [read_digits, Except.ok.injEq, Nat.ofDigitChars_nil, List.not_mem_nil,
        false_imp_iff, implies_true, true_and]
      exact ⟨fun h => ⟨h, h ▸ hn⟩, And.left⟩
  | cons c l ih =>
      rw [read_digits, Nat.ofDigitChars_cons, List.forall_mem_cons]
      by_cases hd : c.isDigit = true
      · rw [if_pos hd]
        by_cases hlt : 10 * n + (c.toNat - '0'.toNat) < 2 ^ width
        · rw [if_pos hlt, ih hlt]
          exact and_congr_left' (and_iff_right hd).symm
        · -- What has been read only grows.
          have hle := le_ofDigitChars l (10 * n + (c.toNat - '0'.toNat))
          rw [if_neg hlt]
          exact iff_of_false (fun h => by cases h) (fun h => by omega)
      · rw [if_neg hd]
        exact iff_of_false (fun h => by cases h) (fun h => hd h.1.1)

/-- The reader with a reason accepts what the reader without one accepts. -/
theorem parse_int_eq_ok {width : Nat} {l : List Char} {n : Nat} :
    parse_int width l = .ok n ↔ parse_unsigned width l = some n := by
  by_cases hnil : strip_plus l = []
  · have hint : parse_int width l = .error .empty ∨ parse_int width l = .error .invalidDigit := by
      rw [parse_int]
      by_cases hl : l = []
      · exact .inl (if_pos hl)
      · rw [if_neg hl, if_pos hnil]
        exact .inr rfl
    have hnone : parse_unsigned width l = none := by simp [parse_unsigned, hnil]
    rw [hnone]
    rcases hint with h | h
    · rw [h]
      exact iff_of_false (fun h => by cases h) (fun h => by cases h)
    · rw [h]
      exact iff_of_false (fun h => by cases h) (fun h => by cases h)
  · have hl : l ≠ [] := fun h => hnil (by rw [h]; rfl)
    rw [parse_int, if_neg hl, if_neg hnil, read_digits_eq_ok (Nat.two_pow_pos width)]
    simp only [parse_unsigned, List.isEmpty_eq_false_iff.mpr hnil, Bool.false_or,
      Bool.not_eq_true']
    by_cases hall : (strip_plus l).all Char.isDigit = true
    · have hdig := List.all_eq_true.mp hall
      rw [if_neg (by rw [hall]; exact Bool.noConfusion)]
      by_cases hlt : Nat.ofDigitChars 10 (strip_plus l) 0 < 2 ^ width
      · rw [if_pos hlt, Option.some.injEq]
        exact ⟨fun h => h.2.1, fun h => ⟨hdig, h, h ▸ hlt⟩⟩
      · rw [if_neg hlt]
        exact iff_of_false (fun h => hlt (h.2.1 ▸ h.2.2)) (fun h => by cases h)
    · rw [if_pos (Bool.not_eq_true _ ▸ hall)]
      exact iff_of_false (fun h => hall (List.all_eq_true.mpr h.1)) (fun h => by cases h)

/-! ## Splitting once -/

/-- `str::split_once`, at the first separator. -/
def split_once (sep : Char) : List Char → Option (List Char × List Char)
  | [] => none
  | c :: cs => if c = sep then some ([], cs) else (split_once sep cs).map fun q => (c :: q.1, q.2)

/-- `split_once` cuts at the first separator. -/
theorem split_once_eq_some {sep : Char} {l a b : List Char} :
    split_once sep l = some (a, b) ↔ l = a ++ sep :: b ∧ sep ∉ a := by
  induction l generalizing a with
  | nil => simp [split_once]
  | cons c l ih =>
      rw [split_once]
      by_cases hc : c = sep
      · rw [if_pos hc, hc, Option.some.injEq, Prod.mk.injEq]
        constructor
        · rintro ⟨rfl, rfl⟩
          exact ⟨rfl, List.not_mem_nil⟩
        · rintro ⟨hl, hnot⟩
          rcases List.cons_eq_append_iff.mp hl with ⟨rfl, htail⟩ | ⟨a', rfl, _⟩
          · exact ⟨rfl, (List.cons.inj htail).2.symm⟩
          · exact absurd List.mem_cons_self hnot
      · rw [if_neg hc, Option.map_eq_some_iff]
        constructor
        · rintro ⟨⟨x, y⟩, hxy, heq⟩
          cases heq
          obtain ⟨rfl, hnot⟩ := ih.mp hxy
          exact ⟨rfl, fun h => (List.mem_cons.mp h).elim (fun h => hc h.symm) hnot⟩
        · rintro ⟨hl, hnot⟩
          rcases List.cons_eq_append_iff.mp hl with ⟨rfl, htail⟩ | ⟨a', rfl, hl'⟩
          · exact absurd (List.cons.inj htail).1.symm hc
          · exact ⟨(a', b), ih.mpr ⟨hl', fun h => hnot (List.mem_cons_of_mem _ h)⟩, rfl⟩

end PlainText
