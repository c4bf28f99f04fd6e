import Mathlib.Data.List.Basic
import Mathlib.Data.Nat.Digits.Defs

/-! # Readers — numbers at the head of a text

    Readers take a value off the front of a list of characters and return the rest, or
    fail and take nothing.  The primitives are those of the address parser in Rust's
    standard library: a given character, a number in a radix with limits on its digits
    and its value, and an item after a separator.

    `number_toDigits` is the round trip of a printed number.  Its side condition is on
    what follows: a digit there would be read as part of the number. -/

namespace TextReader

/-- A value off the front of a text, and the rest. -/
abbrev Reader (α : Type) := List Char → Option (α × List Char)

/-- Take exactly this character. -/
def given_char (c : Char) : Reader Unit
  | [] => none
  | d :: rest => if d = c then some ((), rest) else none

/-- The value of a digit or letter. -/
def digit_value (c : Char) : Option Nat :=
  if '0' ≤ c ∧ c ≤ '9' then some (c.toNat - '0'.toNat)
  else if 'a' ≤ c ∧ c ≤ 'z' then some (c.toNat - 'a'.toNat + 10)
  else if 'A' ≤ c ∧ c ≤ 'Z' then some (c.toNat - 'A'.toNat + 10)
  else none

/-- `char::to_digit`. -/
def to_digit (radix : Nat) (c : Char) : Option Nat := (digit_value c).filter (fun d => d < radix)

/-- The digits at the front: their value, their number and the rest. -/
def digits (radix : Nat) : List Char → Nat → Nat → Nat × Nat × List Char
  | [], result, digit_count => (result, digit_count, [])
  | c :: rest, result, digit_count =>
      match to_digit radix c with
      | some d => digits radix rest (result * radix + d) (digit_count + 1)
      | none => (result, digit_count, c :: rest)

/-- A number below `limit`.  The value only grows from digit to digit, so one check at
    the end finds every overflow. -/
def number (radix : Nat) (max_digits : Option Nat) (leading_zeros : Bool) (limit : Nat) :
    Reader Nat := fun s =>
  let (result, digit_count, rest) := digits radix s 0 0
  if digit_count = 0 then none
  else if max_digits.any (fun m => m < digit_count) = true then none
  else if leading_zeros = false ∧ s.head? = some '0' ∧ 1 < digit_count then none
  else if result < limit then some (result, rest)
  else none

/-- The item with this index in a separated list. -/
def separator {α : Type} (sep : Char) (index : Nat) (inner : Reader α) : Reader α := fun s =>
  if 0 < index then (given_char sep s).bind fun r => inner r.2 else inner s

/-- Nothing may be left over. -/
def whole {α : Type} (inner : Reader α) (s : List Char) : Option α :=
  match inner s with
  | some (a, []) => some a
  | some (_, _ :: _) | none => none

/-! ## Printed digits -/

section Digits

variable {radix : Nat}

theorem to_digit_digitChar (hradix : radix ≤ 16) {d : Nat} (hd : d < radix) :
    to_digit radix d.digitChar = some d := by
  have hval : ∀ d : Fin 16, digit_value (Nat.digitChar d) = some d.val := by decide
  rw [to_digit, hval ⟨d, Nat.lt_of_lt_of_le hd hradix⟩]
  simp [hd]

/-- A printed number has nothing but digits. -/
theorem to_digit_of_mem_toDigits (hone : 1 < radix) (hradix : radix ≤ 16) {n : Nat} {c : Char}
    (h : c ∈ Nat.toDigits radix n) : to_digit radix c ≠ none := by
  induction n using Nat.strongRecOn with
  | _ n ih =>
      by_cases hn : n < radix
      · rw [Nat.toDigits_of_lt_base hn, List.mem_singleton] at h
        rw [h, to_digit_digitChar hradix hn]
        exact Option.some_ne_none _
      · rw [Nat.toDigits_of_base_le hone (Nat.not_lt.mp hn), List.mem_append,
          List.mem_singleton] at h
        rcases h with h | h
        · exact ih _ (Nat.div_lt_self (by omega) hone) h
        · rw [h, to_digit_digitChar hradix (Nat.mod_lt n (by omega : 0 < radix))]
          exact Option.some_ne_none _

/-- A printed number is read to its end. -/
theorem digits_toDigits (hone : 1 < radix) (hradix : radix ≤ 16) (n : Nat) (rest : List Char) :
    digits radix (Nat.toDigits radix n ++ rest) 0 0
      = digits radix rest n (Nat.toDigits radix n).length := by
  induction n using Nat.strongRecOn generalizing rest with
  | _ n ih =>
      by_cases hn : n < radix
      · rw [Nat.toDigits_of_lt_base hn]
        simp only [List.singleton_append, digits, to_digit_digitChar hradix hn, Nat.zero_mul,
          Nat.zero_add, List.length_singleton]
      · have hle : radix ≤ n := Nat.not_lt.mp hn
        have hdiv : n / radix < n := Nat.div_lt_self (by omega) hone
        rw [Nat.toDigits_of_base_le hone hle, List.append_assoc, ih _ hdiv]
        simp only [List.singleton_append, digits,
          to_digit_digitChar hradix (Nat.mod_lt n (by omega : 0 < radix)), List.length_append,
          List.length_singleton]
        rw [Nat.mul_comm, Nat.div_add_mod]

/-- No digit follows. -/
def Stops (radix : Nat) (rest : List Char) : Prop := ∀ c ∈ rest.head?, to_digit radix c = none

theorem digits_of_stops {rest : List Char} (h : Stops radix rest) (result digit_count : Nat) :
    digits radix rest result digit_count = (result, digit_count, rest) := by
  cases rest with
  | nil => rfl
  | cons c rest => simp only [digits, h c rfl]

/-- Only zero is printed with a leading zero. -/
theorem head_toDigits_ne_zero (hone : 1 < radix) (hradix : radix ≤ 16) {n : Nat} (hn : 0 < n) :
    (Nat.toDigits radix n).head? ≠ some '0' := by
  induction n using Nat.strongRecOn with
  | _ n ih =>
      by_cases hlt : n < radix
      · have hval : ∀ d : Fin 16, Nat.digitChar d = '0' → d.val = 0 := by decide
        rw [Nat.toDigits_of_lt_base hlt]
        intro h
        have hzero := hval ⟨n, Nat.lt_of_lt_of_le hlt hradix⟩ (Option.some.inj h)
        exact Nat.ne_of_gt hn hzero
      · have hle : radix ≤ n := Nat.not_lt.mp hlt
        rw [Nat.toDigits_of_base_le hone hle, List.head?_append_of_ne_nil _ Nat.toDigits_ne_nil]
        exact ih _ (Nat.div_lt_self hn hone) (Nat.div_pos hle (by omega))

/-- **NUMBER ROUND TRIP**: a printed number within the limits is read back, whatever
    follows, as long as it is not another digit. -/
theorem number_toDigits (hone : 1 < radix) (hradix : radix ≤ 16) {max_digits : Option Nat}
    (leading_zeros : Bool) {limit n : Nat} (hlimit : n < limit)
    (hmax : ∀ m ∈ max_digits, 0 < m ∧ n < radix ^ m) {rest : List Char} (hstop : Stops radix rest) :
    number radix max_digits leading_zeros limit (Nat.toDigits radix n ++ rest)
      = some (n, rest) := by
  have hne : (Nat.toDigits radix n).length ≠ 0 := by
    rw [Ne, List.length_eq_zero_iff]
    exact Nat.toDigits_ne_nil
  have hdigits : max_digits.any (fun m => m < (Nat.toDigits radix n).length) ≠ true := by
    cases max_digits with
    | none => exact Bool.false_ne_true
    | some m =>
        obtain ⟨hpos, hlt⟩ := hmax m rfl
        have hlen := (Nat.length_toDigits_le_iff hone hpos).mpr hlt
        simp [hlen]
  have hzero : ¬(leading_zeros = false
      ∧ (Nat.toDigits radix n ++ rest).head? = some '0'
      ∧ 1 < (Nat.toDigits radix n).length) := by
    rintro ⟨_, hhead, hlen⟩
    rw [List.head?_append_of_ne_nil _ Nat.toDigits_ne_nil] at hhead
    rcases Nat.eq_zero_or_pos n with rfl | hpos
    · rw [Nat.toDigits_zero] at hlen
      exact absurd hlen (by decide)
    · exact head_toDigits_ne_zero hone hradix hpos hhead
  simp only [number, digits_toDigits hone hradix, digits_of_stops hstop]
  rw [if_neg hne, if_neg hdigits, if_neg hzero, if_pos hlimit]

/-- Without a digit there is no number. -/
theorem number_of_stops {max_digits : Option Nat} {leading_zeros : Bool} {limit : Nat}
    {s : List Char} (h : Stops radix s) :
    number radix max_digits leading_zeros limit s = none := by
  simp only [number, digits_of_stops h, if_true]

end Digits

/-! ## What is left over -/

theorem digits_suffix (radix : Nat) (s : List Char) (result digit_count : Nat) :
    (digits radix s result digit_count).2.2 <:+ s := by
  induction s generalizing result digit_count with
  | nil => exact List.suffix_refl _
  | cons c rest ih =>
      simp only [digits]
      cases to_digit radix c with
      | some d => exact (ih _ _).trans (List.suffix_cons _ _)
      | none => exact List.suffix_refl _

theorem number_suffix {radix : Nat} {max_digits : Option Nat} {leading_zeros : Bool}
    {limit n : Nat} {s rest : List Char}
    (h : number radix max_digits leading_zeros limit s = some (n, rest)) : rest <:+ s := by
  have hsuffix := digits_suffix radix s 0 0
  simp only [number] at h
  split at h
  · exact nomatch h
  · split at h
    · exact nomatch h
    · split at h
      · exact nomatch h
      · split at h
        · cases h
          exact hsuffix
        · exact nomatch h

theorem given_char_eq_some {c : Char} {s rest : List Char} {u : Unit} :
    given_char c s = some (u, rest) ↔ s = c :: rest := by
  cases s with
  | nil => exact ⟨(fun h => nomatch h), fun h => nomatch h⟩
  | cons d s =>
      simp only [given_char]
      by_cases hd : d = c
      · simp [hd]
      · simp [hd]

@[simp] theorem given_char_cons (c : Char) (rest : List Char) :
    given_char c (c :: rest) = some ((), rest) := given_char_eq_some.mpr rfl

theorem separator_zero {α : Type} (sep : Char) (inner : Reader α) (s : List Char) :
    separator sep 0 inner s = inner s := rfl

theorem separator_succ {α : Type} (sep : Char) (i : Nat) (inner : Reader α) (s : List Char) :
    separator sep (i + 1) inner (sep :: s) = inner s := by
  simp only [separator, Nat.zero_lt_succ, if_true, given_char_cons, Option.bind_some]

/-- An item after a separator fails on a text that does not start with it. -/
theorem separator_succ_of_ne {α : Type} {sep : Char} {i : Nat} {inner : Reader α}
    {s : List Char} (h : s.head? ≠ some sep) : separator sep (i + 1) inner s = none := by
  cases s with
  | nil => rfl
  | cons c s =>
      have hc : c ≠ sep := fun hc => h (congrArg some hc)
      simp only [separator, Nat.zero_lt_succ, if_true, given_char, if_neg hc, Option.bind_none]

end TextReader
