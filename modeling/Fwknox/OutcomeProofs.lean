import Mathlib.Data.List.Basic

/-! # Outcomes with panics, and checked slices

    A computation that indexes into buffers has three ends: a value, an error it
    returns, or a panic because an index was out of range.  Modelling the third
    one makes "no index is ever out of range" a statement that can be proved or
    refuted, where a total `take` or `drop` would hide it.

    The slice operations panic exactly when the corresponding range does. -/

namespace CheckedSlice

/-- A value, a returned error, or a panic. -/
inductive Outcome (ε α : Type) where
  | ok (a : α)
  | err (e : ε)
  | panic
  deriving DecidableEq

variable {ε α β : Type}

namespace Outcome

/-- Go on with the value; errors and panics end the computation. -/
def bind : Outcome ε α → (α → Outcome ε β) → Outcome ε β
  | ok a, f => f a
  | err e, _ => err e
  | panic, _ => panic

/-- `?` passes an error on, and a panic unwinds. -/
instance : Monad (Outcome ε) where
  pure := ok
  bind := bind

/-- The result of a computation that cannot panic. -/
def result : (x : Outcome ε α) → x ≠ panic → Except ε α
  | ok a, _ => .ok a
  | err e, _ => .error e
  | panic, h => absurd rfl h

/-- What a computation that cannot panic returned. -/
def returned : Except ε α → Outcome ε α
  | .ok a => ok a
  | .error e => err e

@[simp] theorem pure_eq (a : α) : (pure a : Outcome ε α) = ok a := rfl

@[simp] theorem ok_bind (a : α) (f : α → Outcome ε β) : (ok a >>= f) = f a := rfl

@[simp] theorem err_bind (e : ε) (f : α → Outcome ε β) : (err e >>= f) = err e := rfl

@[simp] theorem panic_bind (f : α → Outcome ε β) : ((panic : Outcome ε α) >>= f) = panic := rfl

/-- A sequence succeeds exactly when both parts do. -/
theorem bind_eq_ok {x : Outcome ε α} {f : α → Outcome ε β} {b : β} :
    (x >>= f) = ok b ↔ ∃ a, x = ok a ∧ f a = ok b := by
  cases x with
  | ok a =>
      constructor
      · intro h
        exact ⟨a, rfl, h⟩
      · rintro ⟨a', ha, hb⟩
        cases ha
        exact hb
  | err e =>
      constructor
      · intro h
        exact nomatch h
      · rintro ⟨a, ha, -⟩
        exact nomatch ha
  | panic =>
      constructor
      · intro h
        exact nomatch h
      · rintro ⟨a, ha, -⟩
        exact nomatch ha

/-- A sequence does not panic when neither part does. -/
theorem bind_ne_panic {x : Outcome ε α} {f : α → Outcome ε β} (hx : x ≠ panic)
    (hf : ∀ a, x = ok a → f a ≠ panic) : (x >>= f) ≠ panic := by
  cases x with
  | ok a => exact hf a rfl
  | err e => exact fun h => nomatch h
  | panic => exact absurd rfl hx

/-- A value is no error. -/
theorem ok_ne_err {a : α} {e : ε} : (ok a : Outcome ε α) ≠ err e := fun h => nomatch h

/-- A sequence does not end in an error neither part can return. -/
theorem bind_ne_err {x : Outcome ε α} {f : α → Outcome ε β} {e : ε} (hx : x ≠ err e)
    (hf : ∀ a, x = ok a → f a ≠ err e) : (x >>= f) ≠ err e := by
  cases x with
  | ok a => exact hf a rfl
  | err e' => exact fun h => hx (congrArg err (Outcome.err.inj h))
  | panic => exact fun h => nomatch h

/-- The result is the value the computation ended with. -/
@[simp] theorem result_eq_ok {x : Outcome ε α} {h : x ≠ panic} {a : α} :
    x.result h = .ok a ↔ x = ok a := by
  cases x with
  | ok b => simp [result]
  | err e => simp [result]
  | panic => exact absurd rfl h

/-- Or the error it ended with. -/
@[simp] theorem result_eq_error {x : Outcome ε α} {h : x ≠ panic} {e : ε} :
    x.result h = .error e ↔ x = err e := by
  cases x with
  | ok b => simp [result]
  | err e => simp [result]
  | panic => exact absurd rfl h

/-- Nothing that returned has panicked. -/
theorem returned_ne_panic (r : Except ε α) : returned r ≠ panic := by
  cases r with
  | ok a => exact fun h => nomatch h
  | error e => exact fun h => nomatch h

/-- Return the error unless the check passes. -/
def ensure (c : Prop) [Decidable c] (e : ε) : Outcome ε Unit := if c then ok () else err e

/-- A check passes exactly when its condition holds. -/
@[simp] theorem ensure_eq_ok {c : Prop} [Decidable c] {e : ε} {u : Unit} :
    ensure c e = ok u ↔ c := by
  unfold ensure
  by_cases hc : c <;> simp [hc]

/-- A check that passes. -/
theorem ensure_of_pos {c : Prop} [Decidable c] (e : ε) (h : c) : ensure c e = ok () :=
  if_pos h

/-- A check that fails. -/
theorem ensure_of_neg {c : Prop} [Decidable c] (e : ε) (h : ¬c) : ensure c e = err e :=
  if_neg h

/-- A check does not panic. -/
@[simp] theorem ensure_ne_panic {c : Prop} [Decidable c] {e : ε} :
    ensure c e ≠ (panic : Outcome ε Unit) := by
  unfold ensure
  by_cases hc : c <;> simp [hc]

/-- A check fails with its own error only. -/
theorem ensure_ne_err {c : Prop} [Decidable c] {e e' : ε} (h : e ≠ e') :
    ensure c e ≠ (err e' : Outcome ε Unit) := by
  unfold ensure
  by_cases hc : c <;> simp [hc, h]

end Outcome

open Outcome

/-- The range `i..j` of a buffer. -/
def slice (b : List α) (i j : Nat) : Outcome ε (List α) :=
  if i ≤ j ∧ j ≤ b.length then ok ((b.drop i).take (j - i)) else panic

/-- The two halves of a buffer cut at `i`. -/
def split_at (b : List α) (i : Nat) : Outcome ε (List α × List α) :=
  if i ≤ b.length then ok (b.take i, b.drop i) else panic

/-- The element at `i`. -/
def index (b : List α) (i : Nat) : Outcome ε α :=
  match b[i]? with
  | some a => ok a
  | none => panic

/-- Copy a slice into an array of `n` elements; the lengths must agree. -/
def copy_from_slice (n : Nat) (b : List α) : Outcome ε (Vector α n) :=
  if h : b.length = n then ok ⟨b.toArray, by simpa using h⟩ else panic

/-- A range within the slice. -/
theorem slice_of_le {b : List α} {i j : Nat} (hi : i ≤ j) (hj : j ≤ b.length) :
    (slice b i j : Outcome ε (List α)) = ok ((b.drop i).take (j - i)) :=
  if_pos ⟨hi, hj⟩

/-- A split within the slice. -/
theorem split_at_of_le {b : List α} {i : Nat} (hi : i ≤ b.length) :
    (split_at b i : Outcome ε (List α × List α)) = ok (b.take i, b.drop i) :=
  if_pos hi

/-- A copy between equal lengths. -/
theorem copy_from_slice_of_length {n : Nat} {b : List α} (h : b.length = n) :
    (copy_from_slice n b : Outcome ε (Vector α n)) = ok ⟨b.toArray, by simpa using h⟩ :=
  dif_pos h

end CheckedSlice
