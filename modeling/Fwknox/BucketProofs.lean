import Mathlib.Algebra.Order.Field.Rat
import Mathlib.Tactic.Positivity

/-! # Token buckets

    `bucket.rs` with tokens read as exact rationals and instants as nanoseconds of a
    monotonic clock.  A bucket carries the proof that its tokens lie between zero and
    its capacity, so refilling and consuming have to keep it.

    `consume_balance` is the one fact accounting needs: what a call lets through and
    what stays in the bucket is paid for by what was there and what flowed in. -/

namespace FwknoxBucket

/-- Nanoseconds of a monotonic clock. -/
abbrev Instant := Nat

/-- `now.duration_since(earlier)` in seconds; zero when `earlier` is later. -/
def secs_since (now earlier : Instant) : ℚ := ((now - earlier : Nat) : ℚ) / 1000000000

/-- One packet's answer. -/
inductive BucketDecision where
  | pass
  | drop
  deriving DecidableEq

/-- `TokenBucket` over exact rationals.  Its level stays between empty and full. -/
structure TokenBucket where
  capacity : ℚ
  rate_per_sec : ℚ
  tokens : ℚ
  last_refill : Instant
  last_warn_log : Option Instant
  rate_nonneg : 0 ≤ rate_per_sec
  tokens_nonneg : 0 ≤ tokens
  tokens_le : tokens ≤ capacity

/-- Time that went backwards counts as none. -/
theorem secs_since_nonneg (now earlier : Instant) : 0 ≤ secs_since now earlier := by
  unfold secs_since
  positivity

/-- No time has passed since now. -/
theorem secs_since_self (t : Instant) : secs_since t t = 0 := by
  unfold secs_since
  rw [Nat.sub_self, Nat.cast_zero, zero_div]

/-- Time adds up. -/
theorem secs_since_add {a b c : Nat} (hab : a ≤ b) (hbc : b ≤ c) :
    secs_since c a = secs_since c b + secs_since b a := by
  unfold secs_since
  rw [← add_div, ← Nat.cast_add]
  congr 2
  omega

namespace TokenBucket

/-- A new bucket is full. -/
def new (rate_per_sec capacity : UInt64) (now : Instant) : TokenBucket where
  capacity := capacity.toNat
  rate_per_sec := rate_per_sec.toNat
  tokens := capacity.toNat
  last_refill := now
  last_warn_log := none
  rate_nonneg := Nat.cast_nonneg _
  tokens_nonneg := Nat.cast_nonneg _
  tokens_le := le_refl _

/-- A reading before the last one changes nothing. -/
def refill (b : TokenBucket) (now : Instant) : TokenBucket :=
  if b.last_refill ≤ now then
    { b with
      tokens := min (b.tokens + secs_since now b.last_refill * b.rate_per_sec) b.capacity
      last_refill := now
      tokens_nonneg := le_min
        (add_nonneg b.tokens_nonneg (mul_nonneg (secs_since_nonneg _ _) b.rate_nonneg))
        (le_trans b.tokens_nonneg b.tokens_le)
      tokens_le := min_le_right _ _ }
  else b

/-- Take one token. -/
def take (b : TokenBucket) (h : 1 ≤ b.tokens) : TokenBucket :=
  { b with
    tokens := b.tokens - 1
    tokens_nonneg := sub_nonneg.mpr h
    tokens_le := le_trans (sub_le_self _ zero_le_one) b.tokens_le }

/-- Refill, then take a token if there is one. -/
def consume (b : TokenBucket) (now : Instant) : BucketDecision × TokenBucket :=
  if h : 1 ≤ (b.refill now).tokens then (.pass, (b.refill now).take h)
  else (.drop, b.refill now)

/-- The answers to calls at the given instants. -/
def consume_all (b : TokenBucket) : List Instant → List BucketDecision
  | [] => []
  | now :: rest => (b.consume now).1 :: (b.consume now).2.consume_all rest

/-- The same bucket with another note of its last warning. -/
def relogged (b : TokenBucket) (last_warn_log : Option Instant) : TokenBucket :=
  { b with last_warn_log }

end TokenBucket

/-- One for a packet that passed. -/
def passed : BucketDecision → ℚ
  | .pass => 1
  | .drop => 0

variable (b : TokenBucket)

/-- A refill leaves the rate. -/
theorem refill_rate (now : Instant) : (b.refill now).rate_per_sec = b.rate_per_sec := by
  unfold TokenBucket.refill
  by_cases h : b.last_refill ≤ now
  · rw [if_pos h]
  · rw [if_neg h]

/-- And the capacity. -/
theorem refill_capacity (now : Instant) : (b.refill now).capacity = b.capacity := by
  simp only [TokenBucket.refill]
  by_cases h : b.last_refill ≤ now
  · rw [if_pos h]
  · rw [if_neg h]

/-- A refill is dated with the instant it was made. -/
theorem refill_last {now : Instant} (h : b.last_refill ≤ now) :
    (b.refill now).last_refill = now := by
  unfold TokenBucket.refill
  rw [if_pos h]

/-- The level after a refill: what has run in, up to the brim. -/
theorem refill_tokens {now : Instant} (h : b.last_refill ≤ now) :
    (b.refill now).tokens
      = min (b.tokens + secs_since now b.last_refill * b.rate_per_sec) b.capacity := by
  simp only [TokenBucket.refill]
  rw [if_pos h]

/-- A refill adds at most what the rate gives for the time. -/
theorem refill_tokens_le {now : Instant} (h : b.last_refill ≤ now) :
    (b.refill now).tokens ≤ b.tokens + secs_since now b.last_refill * b.rate_per_sec := by
  rw [refill_tokens b h]
  exact min_le_left _ _

/-- The two outcomes of `consume`. -/
theorem consume_cases (now : Instant) :
    (∃ h : 1 ≤ (b.refill now).tokens, b.consume now = (.pass, (b.refill now).take h))
      ∨ ((b.refill now).tokens < 1 ∧ b.consume now = (.drop, b.refill now)) := by
  unfold TokenBucket.consume
  by_cases h : 1 ≤ (b.refill now).tokens
  · exact .inl ⟨h, dif_pos h⟩
  · exact .inr ⟨lt_of_not_ge h, dif_neg h⟩

/-- A call leaves the rate. -/
theorem consume_rate (now : Instant) : (b.consume now).2.rate_per_sec = b.rate_per_sec := by
  rcases consume_cases b now with ⟨h, hc⟩ | ⟨_, hc⟩
  · rw [hc]
    exact refill_rate b now
  · rw [hc]
    exact refill_rate b now

/-- And the capacity. -/
theorem consume_capacity (now : Instant) : (b.consume now).2.capacity = b.capacity := by
  rcases consume_cases b now with ⟨h, hc⟩ | ⟨_, hc⟩
  · rw [hc]
    exact refill_capacity b now
  · rw [hc]
    exact refill_capacity b now

/-- A call is dated whether the packet passes or not. -/
theorem consume_last {now : Instant} (h : b.last_refill ≤ now) :
    (b.consume now).2.last_refill = now := by
  rcases consume_cases b now with ⟨h', hc⟩ | ⟨_, hc⟩
  · rw [hc]
    exact refill_last b h
  · rw [hc]
    exact refill_last b h

/-- The note of the last warning plays no part in a decision. -/
theorem consume_relogged (log : Option Instant) (now : Instant) :
    (b.relogged log).consume now = ((b.consume now).1, (b.consume now).2.relogged log) := by
  have hrefill : (b.relogged log).refill now = (b.refill now).relogged log := by
    obtain ⟨capacity, rate_per_sec, tokens, last_refill, last_warn_log, _, _, _⟩ := b
    simp only [TokenBucket.refill, TokenBucket.relogged]
    by_cases h : last_refill ≤ now
    · simp only [if_pos h]
      exact if_pos h
    · simp only [if_neg h]
      exact if_neg h
  simp only [TokenBucket.consume]
  by_cases h : 1 ≤ (b.refill now).tokens
  · rw [dif_pos h, dif_pos (show 1 ≤ ((b.relogged log).refill now).tokens by rwa [hrefill])]
    simp only [hrefill]
    rfl
  · rw [dif_neg h, dif_neg (show ¬1 ≤ ((b.relogged log).refill now).tokens by rwa [hrefill]),
      hrefill]

/-- A packet passes iff the refill leaves it a token. -/
theorem consume_pass_iff (now : Instant) :
    (b.consume now).1 = .pass ↔ 1 ≤ (b.refill now).tokens := by
  rcases consume_cases b now with ⟨h, hc⟩ | ⟨h, hc⟩
  · rw [hc]
    exact iff_of_true rfl h
  · rw [hc]
    exact iff_of_false BucketDecision.noConfusion (not_le_of_gt h)

/-- What passes is taken from what the refill left. -/
theorem passed_add_tokens (now : Instant) :
    passed (b.consume now).1 + (b.consume now).2.tokens = (b.refill now).tokens := by
  rcases consume_cases b now with ⟨h, hc⟩ | ⟨_, hc⟩
  · rw [hc]
    exact add_sub_cancel 1 _
  · rw [hc]
    exact zero_add _

/-- **THE BALANCE OF A CALL**: a passed packet and the tokens left over come from the
    tokens before and the inflow since. -/
theorem consume_balance {now : Instant} (h : b.last_refill ≤ now) :
    passed (b.consume now).1 + (b.consume now).2.tokens
      ≤ b.tokens + secs_since now b.last_refill * b.rate_per_sec := by
  rw [passed_add_tokens]
  exact refill_tokens_le b h

end FwknoxBucket
