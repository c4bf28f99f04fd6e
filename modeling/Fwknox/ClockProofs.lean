import Fwknox.OutcomeProofs
import Fwknox.TypesProofs
import Mathlib.Algebra.Group.Int.Defs
import Mathlib.Algebra.Group.Nat.Defs
import Mathlib.Order.Basic

/-! # Clocks — the freshness window in whole seconds

    `validate.rs` of the protocol crate, and the readings of the wall clock it is
    called with.  The comparison runs on wrapping 64-bit integers and on durations
    cut down to whole seconds; `fresh_iff` says what it decides in terms of
    unbounded integers, wrap-around included, and later files use only that.

    `exact_iff` says for which timestamps the machine arithmetic is the exact one: the
    timestamp comes out of a packet and can be any `i64`.

    `stale_after_retention` is the arithmetic the replay cache rests on: a payload
    accepted at `t` and remembered from `s ≥ t` for at least the freshness window
    plus the allowed skew is rejected at every time past the retention. -/

namespace FwknoxClock

open FwknoxTypes CheckedSlice CheckedSlice.Outcome

/-! ## Durations and clock readings -/

/-- `std::time::Duration`. -/
structure Duration where
  secs : UInt64
  nanos : Nat
  nanos_lt : nanos < 1000000000
  deriving DecidableEq

namespace Duration

/-- The whole seconds. -/
def as_secs (d : Duration) : UInt64 := d.secs

/-- Whole seconds only. -/
def from_secs (secs : UInt64) : Duration := ⟨secs, 0, by decide⟩

/-- Neither seconds nor nanoseconds. -/
def is_zero (d : Duration) : Bool := d.secs == 0 && d.nanos == 0

/-- The derived order: seconds first, then nanoseconds. -/
def lt (a b : Duration) : Prop := a.secs < b.secs ∨ a.secs = b.secs ∧ a.nanos < b.nanos

instance : LT Duration := ⟨lt⟩

instance (a b : Duration) : Decidable (a < b) :=
  inferInstanceAs (Decidable (a.secs < b.secs ∨ a.secs = b.secs ∧ a.nanos < b.nanos))

instance : LE Duration := ⟨fun a b => ¬b < a⟩

instance (a b : Duration) : Decidable (a ≤ b) := inferInstanceAs (Decidable (¬b < a))

/-- The duration as one number. -/
def as_nanos (d : Duration) : Nat := d.secs.toNat * 1000000000 + d.nanos

/-- The order is the order of the numbers. -/
theorem lt_iff_as_nanos_lt {a b : Duration} : a < b ↔ a.as_nanos < b.as_nanos := by
  have ha := a.nanos_lt
  have hb := b.nanos_lt
  show a.secs < b.secs ∨ a.secs = b.secs ∧ a.nanos < b.nanos ↔ _
  rw [UInt64.lt_iff_toNat_lt, ← UInt64.toNat_inj, as_nanos, as_nanos]
  omega

/-- Not greater is at most. -/
theorem le_iff_as_nanos_le {a b : Duration} : a ≤ b ↔ a.as_nanos ≤ b.as_nanos := by
  show ¬b < a ↔ _
  rw [lt_iff_as_nanos_lt, Nat.not_lt]

end Duration

/-- A wall-clock reading: seconds since the epoch, negative before it.  The
    sub-second part is never read. -/
structure SystemTime where
  secs : Int64
  deriving DecidableEq

namespace SystemTime

/-- Not later than. -/
def le (a b : SystemTime) : Prop := a.secs.toInt ≤ b.secs.toInt

instance : LE SystemTime := ⟨le⟩

instance (a b : SystemTime) : Decidable (a ≤ b) :=
  inferInstanceAs (Decidable (a.secs.toInt ≤ b.secs.toInt))

/-- `duration_since(UNIX_EPOCH).map_or(0, |d| d.as_secs())`. -/
def unix_secs (t : SystemTime) : UInt64 := if t.secs < 0 then 0 else t.secs.toUInt64

end SystemTime

/-- `now_unix`: the same reading as an `i64`. -/
def now_unix (t : SystemTime) : Int64 := t.unix_secs.toInt64

/-- `i64::try_from(d.as_secs()).unwrap_or(i64::MAX)`. -/
def max_age_secs (d : Duration) : Int64 :=
  if d.as_secs.toNat < 2 ^ 63 then d.as_secs.toInt64 else Int64.maxValue

/-! ## The freshness check -/

/-- Half a minute into the future is forgiven. -/
def DEFAULT_MAX_SKEW_SECS : Int64 := 30

/-- `validate_against_clock`, with the wrapping arithmetic of a release build. -/
def validate_against_clock (payload : SpaPayload) (now max_age max_skew : Int64) :
    Except ProtoError Unit :=
  let delta := now - payload.timestamp
  if delta < -max_skew then .error (.packetInFuture (-delta))
  else if delta > max_age then .error (.packetTooOld delta max_age)
  else .ok ()

/-- The check as the daemon calls it, at a clock reading. -/
def Fresh (max_age : Duration) (payload : SpaPayload) (t : SystemTime) : Prop :=
  validate_against_clock payload (now_unix t) (max_age_secs max_age) DEFAULT_MAX_SKEW_SECS = .ok ()

instance (max_age : Duration) (payload : SpaPayload) (t : SystemTime) :
    Decidable (Fresh max_age payload t) := inferInstanceAs (Decidable (_ = _))

/-! ## What the check decides -/

/-- Negative readings count as the epoch. -/
theorem unix_secs_toNat (t : SystemTime) : t.unix_secs.toNat = t.secs.toInt.toNat := by
  unfold SystemTime.unix_secs
  by_cases h : t.secs < 0
  · have hneg : t.secs.toInt < 0 := Int64.lt_iff_toInt_lt.mp h
    rw [if_pos h, Int.toNat_of_nonpos (Int.le_of_lt hneg)]
    rfl
  · rw [if_neg h]
    exact Int64.toNat_toUInt64_of_le (Int64.not_lt.mp h)

/-- A clock reading's seconds fit a signed word. -/
theorem unix_secs_lt (t : SystemTime) : t.unix_secs.toNat < 2 ^ 63 := by
  have hhi : t.secs.toInt < 2 ^ 63 := t.secs.toInt_lt
  rw [unix_secs_toNat]
  omega

/-- Later readings have no smaller seconds. -/
theorem unix_secs_mono {s t : SystemTime} (h : s ≤ t) :
    s.unix_secs.toNat ≤ t.unix_secs.toNat := by
  have hle : s.secs.toInt ≤ t.secs.toInt := h
  rw [unix_secs_toNat, unix_secs_toNat]
  omega

/-- Below `2 ^ 63` the cast to `i64` keeps the value. -/
theorem toInt_toInt64 {u : UInt64} (h : u.toNat < 2 ^ 63) : u.toInt64.toInt = u.toNat := by
  show u.toBitVec.toInt = _
  rw [BitVec.toInt_eq_toNat_of_lt]
  · rfl
  · show 2 * u.toNat < 2 ^ 64
    omega

/-- So the conversion to a signed word changes nothing. -/
theorem now_unix_toInt (t : SystemTime) : (now_unix t).toInt = t.unix_secs.toNat :=
  toInt_toInt64 (unix_secs_lt t)

/-- A longer age than the signed word holds is cut to the largest one. -/
theorem max_age_secs_toInt (d : Duration) :
    (max_age_secs d).toInt = min (d.as_secs.toNat : Int) (2 ^ 63 - 1) := by
  unfold max_age_secs
  by_cases h : d.as_secs.toNat < 2 ^ 63
  · rw [if_pos h, toInt_toInt64 h]
    omega
  · rw [if_neg h]
    have hmax : Int64.maxValue.toInt = 2 ^ 63 - 1 := by decide
    omega

/-- Fresh means an age between the two bounds, in wrapping arithmetic. -/
theorem validate_against_clock_eq_ok {p : SpaPayload} {now max_age max_skew : Int64} :
    validate_against_clock p now max_age max_skew = .ok ()
      ↔ (-max_skew).toInt ≤ (now - p.timestamp).toInt
          ∧ (now - p.timestamp).toInt ≤ max_age.toInt := by
  unfold validate_against_clock
  rw [← Int64.le_iff_toInt_le, ← Int64.le_iff_toInt_le, ← Int64.not_lt, ← Int64.not_lt]
  by_cases h1 : now - p.timestamp < -max_skew
  · simp [h1]
  · by_cases h2 : max_age < now - p.timestamp
    · simp [h1, h2]
    · simp [h1, h2]

/-- **FRESHNESS IN UNBOUNDED INTEGERS**: the window `[-30, max_age]`, and the thirty
    differences at the far end of the type that wrap into it. -/
theorem fresh_iff {d : Duration} {p : SpaPayload} {t : SystemTime} :
    Fresh d p t ↔
      (-30 ≤ (t.unix_secs.toNat : Int) - p.timestamp.toInt
          ∧ (t.unix_secs.toNat : Int) - p.timestamp.toInt
              ≤ min (d.as_secs.toNat : Int) (2 ^ 63 - 1))
        ∨ 2 ^ 64 - 30 ≤ (t.unix_secs.toNat : Int) - p.timestamp.toInt := by
  have hlo : -2 ^ 63 ≤ p.timestamp.toInt := p.timestamp.le_toInt
  have hhi : p.timestamp.toInt < 2 ^ 63 := p.timestamp.toInt_lt
  have hnow := unix_secs_lt t
  have hskew : (-DEFAULT_MAX_SKEW_SECS).toInt = -30 := by decide
  unfold Fresh
  rw [validate_against_clock_eq_ok, hskew, max_age_secs_toInt, Int64.toInt_sub, now_unix_toInt,
    Int.bmod_def]
  omega

/-! ## Exactness -/

/-- The value fits an `i64`. -/
def InRange (x : Int) : Prop := -2 ^ 63 ≤ x ∧ x < 2 ^ 63

instance (x : Int) : Decidable (InRange x) := inferInstanceAs (Decidable (_ ∧ _))

/-- `a - b` where an overflow panics. -/
def checked_sub (a b : Int64) : Outcome ProtoError Int64 :=
  if InRange (a.toInt - b.toInt) then .ok (a - b) else .panic

/-- `-a` where an overflow panics. -/
def checked_neg (a : Int64) : Outcome ProtoError Int64 :=
  if InRange (-a.toInt) then .ok (-a) else .panic

/-- `validate_against_clock` in a build with overflow checks. -/
def validate_against_clock_checked (payload : SpaPayload) (now max_age max_skew : Int64) :
    Outcome ProtoError Unit := do
  let delta ← checked_sub now payload.timestamp
  let earliest ← checked_neg max_skew
  if delta < earliest then do
    let skew ← checked_neg delta
    .err (.packetInFuture skew)
  else if delta > max_age then .err (.packetTooOld delta max_age)
  else .ok ()

/-- In range nothing wraps. -/
theorem bmod_of_inRange {x : Int} (h : InRange x) : x.bmod (2 ^ 64) = x := by
  obtain ⟨hlo, hhi⟩ := h
  rw [Int.bmod_def]
  omega

/-- A difference in range is the true one. -/
theorem toInt_sub_of_inRange {a b : Int64} (h : InRange (a.toInt - b.toInt)) :
    (a - b).toInt = a.toInt - b.toInt := by
  rw [Int64.toInt_sub, bmod_of_inRange h]

/-- A negation in range is the true one. -/
theorem toInt_neg_of_inRange {a : Int64} (h : InRange (-a.toInt)) : (-a).toInt = -a.toInt := by
  rw [Int64.toInt_neg, bmod_of_inRange h]

/-- What the check is to do, over the integers: nothing overflows, and age and skew are
    compared and reported exactly. -/
structure Exact (p : SpaPayload) (now max_age max_skew : Int64) : Prop where
  no_overflow : validate_against_clock_checked p now max_age max_skew ≠ .panic
  ok_iff : validate_against_clock p now max_age max_skew = .ok ()
    ↔ -max_skew.toInt ≤ now.toInt - p.timestamp.toInt
      ∧ now.toInt - p.timestamp.toInt ≤ max_age.toInt
  too_old_iff : (∃ age : Int64, age.toInt = now.toInt - p.timestamp.toInt
      ∧ validate_against_clock p now max_age max_skew = .error (.packetTooOld age max_age))
    ↔ max_age.toInt < now.toInt - p.timestamp.toInt
  in_future_iff : (∃ skew : Int64, skew.toInt = p.timestamp.toInt - now.toInt
      ∧ validate_against_clock p now max_age max_skew = .error (.packetInFuture skew))
    ↔ max_skew.toInt < p.timestamp.toInt - now.toInt

section Exactness

variable {p : SpaPayload} {now max_age max_skew : Int64}

/-- The three branches over the integers, when the difference fits. -/
theorem validate_cases (max_age : Int64) (hdelta : InRange (now.toInt - p.timestamp.toInt))
    (hskew : InRange (-max_skew.toInt)) :
    (now.toInt - p.timestamp.toInt < -max_skew.toInt
        ∧ validate_against_clock p now max_age max_skew
          = .error (.packetInFuture (-(now - p.timestamp))))
      ∨ (-max_skew.toInt ≤ now.toInt - p.timestamp.toInt
          ∧ max_age.toInt < now.toInt - p.timestamp.toInt
          ∧ validate_against_clock p now max_age max_skew
            = .error (.packetTooOld (now - p.timestamp) max_age))
      ∨ (-max_skew.toInt ≤ now.toInt - p.timestamp.toInt
          ∧ now.toInt - p.timestamp.toInt ≤ max_age.toInt
          ∧ validate_against_clock p now max_age max_skew = .ok ()) := by
  have hlow : now - p.timestamp < -max_skew ↔ now.toInt - p.timestamp.toInt < -max_skew.toInt := by
    rw [Int64.lt_iff_toInt_lt, toInt_sub_of_inRange hdelta, toInt_neg_of_inRange hskew]
  have hhigh : max_age < now - p.timestamp ↔ max_age.toInt < now.toInt - p.timestamp.toInt := by
    rw [Int64.lt_iff_toInt_lt, toInt_sub_of_inRange hdelta]
  simp only [validate_against_clock]
  by_cases h1 : now - p.timestamp < -max_skew
  · exact .inl ⟨hlow.mp h1, if_pos h1⟩
  · rw [if_neg h1]
    have hge := Int.not_lt.mp (hlow.not.mp h1)
    by_cases h2 : max_age < now - p.timestamp
    · exact .inr (.inl ⟨hge, hhigh.mp h2, if_pos h2⟩)
    · exact .inr (.inr ⟨hge, Int.not_lt.mp (hhigh.not.mp h2), if_neg h2⟩)

/-- When the difference and its negation fit, the two builds return the same. -/
theorem checked_eq (hdelta : InRange (now.toInt - p.timestamp.toInt))
    (hneg : InRange (-(now.toInt - p.timestamp.toInt))) (hskew : InRange (-max_skew.toInt)) :
    validate_against_clock_checked p now max_age max_skew
      = returned (validate_against_clock p now max_age max_skew) := by
  have hsub : checked_sub now p.timestamp = .ok (now - p.timestamp) := if_pos hdelta
  have hlow : checked_neg max_skew = .ok (-max_skew) := if_pos hskew
  have hskewed : checked_neg (now - p.timestamp) = .ok (-(now - p.timestamp)) := by
    refine if_pos ?_
    rw [toInt_sub_of_inRange hdelta]
    exact hneg
  simp only [validate_against_clock_checked, validate_against_clock, hsub, hlow, hskewed, ok_bind]
  by_cases h1 : now - p.timestamp < -max_skew
  · rw [if_pos h1, if_pos h1]
    rfl
  · rw [if_neg h1, if_neg h1]
    by_cases h2 : now - p.timestamp > max_age
    · rw [if_pos h2, if_pos h2]
      rfl
    · rw [if_neg h2, if_neg h2]
      rfl

/-- **WHEN VALIDATION IS EXACT**: for every timestamp, every reading that is not negative
    and every window, exactly when the age fits an `i64`. -/
theorem exact_iff (hnow : 0 ≤ now.toInt) (hage : 0 ≤ max_age.toInt)
    (hskew : 0 ≤ max_skew.toInt) :
    Exact p now max_age max_skew ↔ now.toInt - p.timestamp.toInt < 2 ^ 63 := by
  have htslo : -2 ^ 63 ≤ p.timestamp.toInt := p.timestamp.le_toInt
  have htshi : p.timestamp.toInt < 2 ^ 63 := p.timestamp.toInt_lt
  have hnowhi : now.toInt < 2 ^ 63 := now.toInt_lt
  have hskewhi : max_skew.toInt < 2 ^ 63 := max_skew.toInt_lt
  have hskewR : InRange (-max_skew.toInt) := ⟨by omega, by omega⟩
  constructor
  · intro h
    by_contra hbig
    refine h.no_overflow ?_
    have hsub : checked_sub now p.timestamp = .panic := if_neg fun hin => hbig hin.2
    simp only [validate_against_clock_checked, hsub, panic_bind]
  · intro hfit
    have hdelta : InRange (now.toInt - p.timestamp.toInt) := ⟨by omega, hfit⟩
    have hneg : InRange (-(now.toInt - p.timestamp.toInt)) := ⟨by omega, by omega⟩
    have hsubInt := toInt_sub_of_inRange hdelta
    have hnegInt : (-(now - p.timestamp)).toInt = p.timestamp.toInt - now.toInt := by
      rw [toInt_neg_of_inRange (hsubInt ▸ hneg), hsubInt]
      omega
    refine ⟨checked_eq hdelta hneg hskewR ▸ returned_ne_panic _, ?_, ?_, ?_⟩
    -- One branch makes each statement true, the other two make both of its sides false.
    · rcases validate_cases max_age hdelta hskewR with ⟨hlt, hv⟩ | ⟨hge, hgt, hv⟩ | ⟨hge, hle, hv⟩
      · rw [hv]
        exact ⟨fun h => (by cases h), fun h => absurd h.1 (by omega)⟩
      · rw [hv]
        exact ⟨fun h => (by cases h), fun h => absurd h.2 (by omega)⟩
      · exact ⟨fun _ => ⟨hge, hle⟩, fun _ => hv⟩
    · rcases validate_cases max_age hdelta hskewR with ⟨hlt, hv⟩ | ⟨hge, hgt, hv⟩ | ⟨hge, hle, hv⟩
      · rw [hv]
        exact ⟨fun ⟨_, _, h⟩ => (by cases h), fun h => absurd h (by omega)⟩
      · exact ⟨fun _ => hgt, fun _ => ⟨_, hsubInt, hv⟩⟩
      · rw [hv]
        exact ⟨fun ⟨_, _, h⟩ => (by cases h), fun h => absurd h (by omega)⟩
    · rcases validate_cases max_age hdelta hskewR with ⟨hlt, hv⟩ | ⟨hge, hgt, hv⟩ | ⟨hge, hle, hv⟩
      · exact ⟨fun _ => (by omega), fun _ => ⟨_, hnegInt, hv⟩⟩
      · rw [hv]
        exact ⟨fun ⟨_, _, h⟩ => (by cases h), fun h => absurd h (by omega)⟩
      · rw [hv]
        exact ⟨fun ⟨_, _, h⟩ => (by cases h), fun h => absurd h (by omega)⟩

end Exactness

/-- A payload that carries the timestamp. -/
def dated (timestamp : Int64) : SpaPayload where
  nonce := Vector.replicate 16 0
  timestamp := timestamp
  username := "alice"
  message := .access (.v4 sampleIp) [⟨.tcp, 22⟩]
  client_timeout := none

/-- Ten seconds old, with the default window. -/
theorem exact_ten_seconds_old : Exact (dated 1699999990) 1700000000 120 30 :=
  (exact_iff (by decide) (by decide) (by decide)).mpr (by decide)

/-- The oldest timestamp an `i64` can hold overflows the subtraction: a checked build
    panics, a release build reports a packet from the future. -/
theorem oldest_timestamp_wraps :
    validate_against_clock_checked (dated Int64.minValue) 1700000000 120 30 = .panic
      ∧ validate_against_clock (dated Int64.minValue) 1700000000 120 30
        = .error (.packetInFuture 9223372035154775808)
      ∧ ¬Exact (dated Int64.minValue) 1700000000 120 30 :=
  have hpanic : validate_against_clock_checked (dated Int64.minValue) 1700000000 120 30
      = .panic := by decide
  ⟨hpanic, by decide, fun h => h.no_overflow hpanic⟩

/-- **RETENTION COVERS THE WINDOW**: fresh at `t`, remembered since a second `s` not
    before `t`, and more than `retention` seconds later: no longer fresh, now or
    afterwards. -/
theorem stale_after_retention {d : Duration} {p : SpaPayload} {t t' : SystemTime}
    {s retention : Nat} (hret : d.as_secs.toNat + 30 ≤ retention) (hfresh : Fresh d p t)
    (hs : t.unix_secs.toNat ≤ s) (hpast : s + retention < t'.unix_secs.toNat) :
    ¬Fresh d p t' := by
  have hlo : -2 ^ 63 ≤ p.timestamp.toInt := p.timestamp.le_toInt
  have hnow := unix_secs_lt t'
  rw [fresh_iff] at hfresh ⊢
  omega

end FwknoxClock
