import Fwknox.BucketProofs
import Mathlib.Order.Bounds.Image
import Mathlib.Order.Interval.Finset.Nat
import Mathlib.Data.Finset.Card
import Mathlib.Tactic.GCongr
import Mathlib.Tactic.Linarith
import Mathlib.Tactic.Ring

/-! # Conformance — a bucket admits exactly what fits every window

    A bucket is created at the instant `t 0` and asked at `t 1`, `t 2`, and so on.  It
    keeps one number, cut off at the capacity on every call; the law speaks of all past
    windows at once.  The two meet in `level_isLeast`: what the refill leaves at a call
    is the least room any window that ends there has left.

    Route: a refill either adds the inflow to the room of every older window or is cut
    off, and then the window that starts at the call itself is the least one; a packet
    that passes takes one from every window (`isLeast_tokens`, by induction on the
    calls).  A packet passes iff the level is at least one, that is iff it fits all of
    them. -/

namespace FwknoxConformance

open FwknoxBucket

variable (rate capacity : UInt64) (t : Nat → Instant)

/-! ## The calls of one bucket -/

/-- The bucket after the call at `t n`; nothing is asked at `t 0`. -/
def bucket_after : Nat → TokenBucket
  | 0 => TokenBucket.new rate capacity (t 0)
  | n + 1 => ((bucket_after n).consume (t (n + 1))).2

/-- The answer to the call at `t n`. -/
def answer : Nat → BucketDecision
  | 0 => .drop
  | n + 1 => ((bucket_after rate capacity t n).consume (t (n + 1))).1

/-- The number of passed packets among the calls `j .. i - 1`. -/
def passes (j i : Nat) : Nat :=
  ((Finset.Ico j i).filter (fun k => answer rate capacity t k = .pass)).card

/-- What the calls before `i` leave of the window from `t j` up to the instant `now`. -/
def room (i : Nat) (now : Instant) (j : Nat) : ℚ :=
  capacity.toNat + rate.toNat * secs_since now (t j) - passes rate capacity t j i

theorem passes_self (i : Nat) : passes rate capacity t i i = 0 := by
  rw [passes, Finset.Ico_self]
  rfl

/-- One more call in the window. -/
theorem passes_succ {j i : Nat} (h : j ≤ i) :
    (passes rate capacity t j (i + 1) : ℚ)
      = passes rate capacity t j i + passed (answer rate capacity t i) := by
  have hnot : i ∉ (Finset.Ico j i).filter (fun k => answer rate capacity t k = .pass) := by
    intro hi
    exact absurd (Finset.mem_Ico.mp (Finset.mem_filter.mp hi).1).2 (Nat.lt_irrefl i)
  rw [passes, Nat.Ico_succ_right_eq_insert_Ico h, Finset.filter_insert]
  cases ha : answer rate capacity t i with
  | pass =>
      rw [if_pos rfl, Finset.card_insert_of_notMem hnot, Nat.cast_succ]
      rfl
  | drop =>
      rw [if_neg (by decide)]
      exact (add_zero _).symm

/-- Capacity and rate stay, and the last refill was at the last call. -/
theorem bucket_after_fixed {n : Nat} (hmono : ∀ k < n, t k ≤ t (k + 1)) :
    (bucket_after rate capacity t n).capacity = capacity.toNat
      ∧ (bucket_after rate capacity t n).rate_per_sec = rate.toNat
      ∧ (bucket_after rate capacity t n).last_refill = t n := by
  induction n with
  | zero => exact ⟨rfl, rfl, rfl⟩
  | succ n ih =>
      obtain ⟨hcap, hrate, hlast⟩ := ih (fun k hk => hmono k (Nat.lt_succ_of_lt hk))
      have hle : (bucket_after rate capacity t n).last_refill ≤ t (n + 1) :=
        hlast ▸ hmono n (Nat.lt_succ_self n)
      exact ⟨(consume_capacity _ _).trans hcap, (consume_rate _ _).trans hrate,
        consume_last _ hle⟩

/-! ## The least window -/

/-- A least value moves with the whole family. -/
theorem isLeast_shift {f g : Nat → ℚ} {n : Nat} {a d : ℚ} (h : IsLeast (f '' Set.Iic n) a)
    (hg : ∀ j ≤ n, g j = f j + d) : IsLeast (g '' Set.Iic n) (a + d) := by
  obtain ⟨⟨j, hj, hfj⟩, hle⟩ := h
  refine ⟨⟨j, hj, ?_⟩, ?_⟩
  · rw [hg j hj, hfj]
  · rintro x ⟨k, hk, rfl⟩
    rw [hg k hk]
    exact add_le_add_left (hle ⟨k, hk, rfl⟩) d

/-- One more window. -/
theorem isLeast_extend {f : Nat → ℚ} {n : Nat} {a : ℚ} (h : IsLeast (f '' Set.Iic n) a) :
    IsLeast (f '' Set.Iic (n + 1)) (min a (f (n + 1))) := by
  have hset : Set.Iic (n + 1) = insert (n + 1) (Set.Iic n) := by
    ext j
    simp only [Set.mem_Iic, Set.mem_insert_iff]
    omega
  rw [hset, Set.image_insert_eq, min_comm]
  exact h.insert _

theorem times_le {n : Nat} (hmono : ∀ k < n, t k ≤ t (k + 1)) {j i : Nat} (hji : j ≤ i)
    (hi : i ≤ n) : t j ≤ t i := by
  induction i with
  | zero =>
      rw [Nat.le_zero.mp hji]
  | succ i ih =>
      rcases Nat.lt_or_eq_of_le hji with hlt | rfl
      · exact le_trans (ih (Nat.le_of_lt_succ hlt) (Nat.le_of_succ_le hi)) (hmono i hi)
      · exact le_refl _

/-- Waiting widens every window alike. -/
theorem room_later {n i j : Nat} (hmono : ∀ k < n, t k ≤ t (k + 1)) (hj : j ≤ i) (hi : i < n)
    (m : Nat) :
    room rate capacity t m (t (i + 1)) j
      = room rate capacity t m (t i) j + rate.toNat * secs_since (t (i + 1)) (t i) := by
  rw [room, room, secs_since_add (times_le t hmono hj (Nat.le_of_lt hi)) (hmono i hi)]
  ring

/-- A call takes what it passes from every window. -/
theorem room_taken {i j : Nat} (hj : j ≤ i) (now : Instant) :
    room rate capacity t (i + 1) now j
      = room rate capacity t i now j + -passed (answer rate capacity t i) := by
  rw [room, room, passes_succ rate capacity t hj]
  ring

/-- The window that starts now is as wide as the bucket. -/
theorem room_now (i : Nat) : room rate capacity t i (t i) i = capacity.toNat := by
  rw [room, passes_self, secs_since_self]
  simp

/-- **THE LEVEL AT A CALL** is the least room of the windows that end there, if it was at
    the call before. -/
theorem level_isLeast {n i : Nat} (hmono : ∀ k < n, t k ≤ t (k + 1)) (hi : i < n)
    (h : IsLeast (room rate capacity t (i + 1) (t i) '' Set.Iic i)
      (bucket_after rate capacity t i).tokens) :
    IsLeast (room rate capacity t (i + 1) (t (i + 1)) '' Set.Iic (i + 1))
      ((bucket_after rate capacity t i).refill (t (i + 1))).tokens := by
  obtain ⟨hcap, hrate, hlast⟩ :=
    bucket_after_fixed rate capacity t (fun k hk => hmono k (Nat.lt_trans hk hi))
  rw [refill_tokens _ (hlast ▸ hmono i hi), hcap, hrate, hlast, mul_comm]
  have hshift := isLeast_shift h
    (fun j hj => room_later rate capacity t hmono hj hi (i + 1))
  have hextend := isLeast_extend hshift
  rw [room_now] at hextend
  exact hextend

/-- The tokens after every call are what the tightest window has left. -/
theorem isLeast_tokens {n i : Nat} (hmono : ∀ k < n, t k ≤ t (k + 1)) (hi : i ≤ n) :
    IsLeast (room rate capacity t (i + 1) (t i) '' Set.Iic i)
      (bucket_after rate capacity t i).tokens := by
  induction i with
  | zero =>
      have hroom : room rate capacity t 1 (t 0) 0 = capacity.toNat := by
        rw [room_taken rate capacity t (le_refl 0), room_now]
        exact add_zero _
      refine ⟨⟨0, Set.mem_Iic.mpr (le_refl 0), hroom⟩, ?_⟩
      rintro x ⟨j, hj, rfl⟩
      rw [Nat.le_zero.mp hj, hroom]
      exact le_refl _
  | succ i ih =>
      have hlevel := level_isLeast rate capacity t hmono hi (ih (Nat.le_of_succ_le hi))
      have htokens : (bucket_after rate capacity t (i + 1)).tokens
          = ((bucket_after rate capacity t i).refill (t (i + 1))).tokens
            + -passed (answer rate capacity t (i + 1)) := by
        rw [← passed_add_tokens]
        show _ = passed (answer rate capacity t (i + 1))
          + (bucket_after rate capacity t (i + 1)).tokens + _
        ring
      rw [htokens]
      exact isLeast_shift hlevel (fun j hj => room_taken rate capacity t hj _)

/-! ## The law -/

/-- The packet of call `i` fits the window from `t j`. -/
def Fits (j i : Nat) : Prop :=
  (passes rate capacity t j i : ℚ) + 1
    ≤ capacity.toNat + rate.toNat * secs_since (t i) (t j)

theorem fits_iff {j i : Nat} :
    Fits rate capacity t j i ↔ 1 ≤ room rate capacity t i (t i) j := by
  rw [Fits, room]
  constructor
  · intro h
    linarith
  · intro h
    linarith

/-- A call passes iff its packet fits every window. -/
theorem answer_pass_iff {n i : Nat} (hmono : ∀ k < n, t k ≤ t (k + 1)) (hpos : 1 ≤ i)
    (hi : i ≤ n) :
    answer rate capacity t i = .pass ↔ ∀ j ≤ i, Fits rate capacity t j i := by
  obtain ⟨m, rfl⟩ : ∃ m, i = m + 1 := ⟨i - 1, by omega⟩
  have hlevel := level_isLeast rate capacity t hmono hi
    (isLeast_tokens rate capacity t hmono (Nat.le_of_succ_le hi))
  show ((bucket_after rate capacity t m).consume (t (m + 1))).1 = .pass ↔ _
  rw [consume_pass_iff, le_isGLB_iff hlevel.isGLB]
  constructor
  · intro h j hj
    exact (fits_iff rate capacity t).mpr (h ⟨j, hj, rfl⟩)
  · rintro h x ⟨j, hj, rfl⟩
    exact (fits_iff rate capacity t).mp (h j hj)

/-- The calls `j .. i` pass no more than their window allows. -/
theorem passes_le {n j i : Nat} (hmono : ∀ k < n, t k ≤ t (k + 1)) (hj : j ≤ i) (hi : i ≤ n) :
    (passes rate capacity t j (i + 1) : ℚ)
      ≤ capacity.toNat + rate.toNat * secs_since (t i) (t j) := by
  have hle := (isLeast_tokens rate capacity t hmono hi).2 ⟨j, hj, rfl⟩
  have hnonneg := (bucket_after rate capacity t i).tokens_nonneg
  rw [room] at hle
  linarith

/-- **EXACTLY THE CONFORMING PACKETS**: for every rate, capacity, creation instant `t 0`
    and nondecreasing instants `t 1 .. t n`, the `i`-th call passes iff for every
    `j ≤ i` the passed packets of the calls `j .. i - 1` and this one fit the window
    from `t j`; and the calls inside any window of length `d` pass at most
    `capacity + rate * d` packets. -/
theorem admits_exactly_conforming (rate capacity : UInt64) (t : Nat → Instant) (n : Nat)
    (hmono : ∀ k < n, t k ≤ t (k + 1)) :
    (∀ i, 1 ≤ i → i ≤ n →
        (answer rate capacity t i = .pass
          ↔ ∀ j ≤ i, (passes rate capacity t j i : ℚ) + 1
              ≤ capacity.toNat + rate.toNat * secs_since (t i) (t j)))
      ∧ ∀ j i, j ≤ i → i ≤ n → ∀ d : ℚ, secs_since (t i) (t j) ≤ d →
          (passes rate capacity t j (i + 1) : ℚ) ≤ capacity.toNat + rate.toNat * d := by
  constructor
  · intro i hpos hi
    exact answer_pass_iff rate capacity t hmono hpos hi
  · intro j i hj hi d hd
    refine le_trans (passes_le rate capacity t hmono hj hi) ?_
    have hrate : (0 : ℚ) ≤ rate.toNat := Nat.cast_nonneg _
    gcongr

/-- Two tokens a second into a bucket of three: of four packets at once the last is
    dropped, and half a second later one more passes. -/
theorem burst_of_three :
    (List.range 6).map (answer 2 3 (fun k => if k ≤ 4 then 0 else 500000000))
        = [.drop, .pass, .pass, .pass, .drop, .pass]
      ∧ passes 2 3 (fun k => if k ≤ 4 then 0 else 500000000) 0 6
          ≤ (3 : ℚ) + 2 * (1 / 2) := by
  have hmono : ∀ k < 5, (fun k => if k ≤ 4 then 0 else 500000000 : Nat → Instant) k
      ≤ (fun k => if k ≤ 4 then 0 else 500000000 : Nat → Instant) (k + 1) := by decide
  have hlaw := admits_exactly_conforming 2 3 _ 5 hmono
  exact ⟨by decide +kernel, hlaw.2 0 5 (by decide) (by decide) (1 / 2) (by decide +kernel)⟩

end FwknoxConformance
