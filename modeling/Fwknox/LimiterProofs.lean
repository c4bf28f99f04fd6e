import Fwknox.LruProofs
import Fwknox.BucketProofs
import Fwknox.SourceKeyProofs
import Fwknox.ConfigProofs

/-! # The rate limiter

    `limiter.rs` over exact tokens.  `RateLimiter.check` computes the source key and
    runs `check_locked`, which is the source's body under the lock; its three tiers
    are the tracked bucket, the global bucket and the candidate map.

      * `check_cases`  : the six ways through `check_locked`, each with the state it
                         leaves; every later proof about the limiter starts there,
      * `Invariant`    : sizes, disjointness, candidate counts and the two counter
                         equations, kept by every packet (`check_invariant`),
      * `Counted`      : the history behind a candidate's count.

    A poisoned lock is outside this model. -/

namespace FwknoxLimiter

open LruMap FwknoxBucket FwknoxSourceKey FwknoxConfig FwknoxTypes

/-- Which bucket was empty. -/
inductive DropReason where
  | per_source_exhausted
  | global_exhausted
  deriving DecidableEq

/-- The limiter's answer. -/
inductive Decision where
  | pass
  | drop (reason : DropReason)
  deriving DecidableEq

/-- The counters the daemon logs. -/
structure Stats where
  allowed : Nat := 0
  dropped_per_source : Nat := 0
  dropped_global : Nat := 0
  promotions : Nat := 0
  evictions : Nat := 0
  deriving DecidableEq

namespace Stats

def incr_allowed (s : Stats) : Stats := { s with allowed := s.allowed + 1 }

def incr_dropped_per_source (s : Stats) : Stats :=
  { s with dropped_per_source := s.dropped_per_source + 1 }

def incr_dropped_global (s : Stats) : Stats := { s with dropped_global := s.dropped_global + 1 }

def incr_promotions (s : Stats) : Stats := { s with promotions := s.promotions + 1 }

def incr_evictions (s : Stats) : Stats := { s with evictions := s.evictions + 1 }

end Stats

/-- `CANDIDATE_TTL`, 60 s in nanoseconds. -/
def CANDIDATE_TTL : Nat := 60000000000

/-- Candidates carry a `u32` count and the instant they were last seen. -/
structure Inner where
  tracked : LruCache SourceKey TokenBucket
  candidates : Assoc SourceKey (Nat × Instant)
  max_candidates : Nat
  global : TokenBucket
  last_global_drop_warn : Option Instant

namespace Inner

/-- Candidates not seen for a minute are forgotten. -/
def sweep_expired_candidates (inner : Inner) (now : Instant) : Inner :=
  { inner with
    candidates := filterMap (fun _ v => decide (now - v.2 < CANDIDATE_TTL)) inner.candidates }

/-- The sweep that precedes an insertion into a full candidate map. -/
def make_room (inner : Inner) (now : Instant) : Inner :=
  if inner.max_candidates ≤ inner.candidates.entries.length then
    inner.sweep_expired_candidates now
  else inner

end Inner

/-- At most one warning a second, and the instant of the last one. -/
def should_warn_log (last : Option Instant) (now : Instant) : Bool × Option Instant :=
  match last with
  | some prev => if now - prev < 1000000000 then (false, last) else (true, some now)
  | none => (true, some now)

/-- A bucket after its drop was logged. -/
def warned (b : TokenBucket) (now : Instant) : TokenBucket :=
  { b with last_warn_log := (should_warn_log b.last_warn_log now).2 }

/-- `u32::saturating_add(1)`. -/
def saturating_incr (count : Nat) : Nat := min (count + 1) 4294967295

/-- What the lock protects, and the counters. -/
structure Live where
  inner : Inner
  stats : Stats

/-- The candidate count of a packet that passed the global bucket; `none` when the
    map stays full. -/
def bump (inner : Inner) (key : SourceKey) (now : Instant) : Option Nat × Inner :=
  match inner.candidates.lookup key with
  | some (count, _) =>
      (some (saturating_incr count),
        { inner with candidates := inner.candidates.insert key (saturating_incr count, now) })
  | none =>
      if (inner.make_room now).max_candidates ≤ (inner.make_room now).candidates.entries.length then
        (none, inner.make_room now)
      else
        (some 1,
          { inner.make_room now with
            candidates := (inner.make_room now).candidates.insert key (1, now) })

/-- Only a displaced entry of another key is an eviction. -/
def count_eviction (stats : Stats) (key : SourceKey) :
    Option (SourceKey × TokenBucket) → Stats
  | some (evicted_key, _) => if evicted_key ≠ key then stats.incr_evictions else stats
  | none => stats

/-- The candidate gets a bucket of its own, full, perhaps in place of another's. -/
def promote (config : RateLimitSection) (s : Live) (key : SourceKey) (now : Instant) : Live :=
  let bucket := TokenBucket.new config.per_source_rate_per_sec config.per_source_burst now
  let pushed := s.inner.tracked.push key bucket
  { inner :=
      { s.inner with candidates := s.inner.candidates.erase key, tracked := pushed.2 }
    stats := (count_eviction s.stats key pushed.1).incr_promotions }

/-- The part of `check` after the global bucket let a packet through. -/
def candidate_tier (config : RateLimitSection) (s : Live) (key : SourceKey) (now : Instant) :
    Live :=
  match bump s.inner key now with
  | (none, inner) => { inner, stats := s.stats.incr_allowed }
  | (some new_count, inner) =>
      let s' : Live :=
        if config.promotion_threshold.toNat ≤ new_count then
          promote config { inner, stats := s.stats } key now
        else { inner, stats := s.stats }
      { s' with stats := s'.stats.incr_allowed }

/-- `check` under the lock. -/
def check_locked (config : RateLimitSection) (s : Live) (key : SourceKey) (now : Instant) :
    Decision × Live :=
  match s.inner.tracked.map.lookup key with
  | some bucket =>
      match bucket.consume now with
      | (.pass, bucket') =>
          (.pass,
            { inner := { s.inner with tracked := s.inner.tracked.update key (fun _ => bucket') }
              stats := s.stats.incr_allowed })
      | (.drop, bucket') =>
          (.drop .per_source_exhausted,
            { inner :=
                { s.inner with
                  tracked := s.inner.tracked.update key (fun _ => warned bucket' now) }
              stats := s.stats.incr_dropped_per_source })
  | none =>
      match s.inner.global.consume now with
      | (.drop, bucket) =>
          (.drop .global_exhausted,
            { inner :=
                { s.inner with
                  global := bucket
                  last_global_drop_warn :=
                    (should_warn_log s.inner.last_global_drop_warn now).2 }
              stats := s.stats.incr_dropped_global })
      | (.pass, bucket) =>
          (.pass,
            candidate_tier config { s with inner := { s.inner with global := bucket } } key now)

/-- A disabled limiter has nothing inside. -/
structure RateLimiter where
  config : RateLimitSection
  inner : Option Inner
  stats : Stats

/-- The state of a new enabled limiter. -/
def Live.new (config : RateLimitSection) (h : 0 < config.tracked_sources_capacity)
    (now : Instant) : Live where
  inner :=
    { tracked := LruCache.new config.tracked_sources_capacity h
      candidates := ∅
      max_candidates := config.tracked_sources_capacity
      global := TokenBucket.new config.global_rate_per_sec config.global_burst now
      last_global_drop_warn := none }
  stats := {}

namespace RateLimiter

/-- `none` where the source's `expect` on the capacity panics.  The tables are taken to be
    allocated; whether they can be is asked where the daemon starts. -/
def with_clock (config : RateLimitSection) (now : Instant) : Option RateLimiter :=
  if config.enabled = false then some { config, inner := none, stats := {} }
  else if h : 0 < config.tracked_sources_capacity then
    some { config, inner := some (Live.new config h now).inner, stats := {} }
  else none

/-- `check`: a disabled limiter counts and lets pass. -/
def check (l : RateLimiter) (src_ip : IpAddr) (now : Instant) : Decision × RateLimiter :=
  match l.inner with
  | none => (.pass, { l with stats := l.stats.incr_allowed })
  | some inner =>
      let r := check_locked l.config { inner, stats := l.stats }
        (SourceKey.from_ip src_ip l.config.ipv6_prefix_len) now
      (r.1, { l with inner := some r.2.inner, stats := r.2.stats })

/-- A packet: where it came from and when it was checked. -/
abbrev Arrival := IpAddr × Instant

/-- The answers to a run of packets, and the limiter after it. -/
def run_checks (l : RateLimiter) : List Arrival → List Decision × RateLimiter
  | [] => ([], l)
  | c :: cs =>
      let r := l.check c.1 c.2
      let rest := r.2.run_checks cs
      (r.1 :: rest.1, rest.2)

end RateLimiter

open RateLimiter (Arrival)

variable (config : RateLimitSection)

/-- The key a packet is filed under. -/
def source_key (c : Arrival) : SourceKey := SourceKey.from_ip c.1 config.ipv6_prefix_len

/-- One packet, on the locked state. -/
def step (s : Live) (c : Arrival) : Live := (check_locked config s (source_key config c) c.2).2

/-- The locked state after a list of packets. -/
def after (s : Live) (cs : List Arrival) : Live := cs.foldl (step config) s

theorem after_snoc (s : Live) (cs : List Arrival) (c : Arrival) :
    after config s (cs ++ [c]) = step config (after config s cs) c := by
  unfold after
  rw [List.foldl_append]
  rfl

/-- The decisions along a list of packets. -/
def decisions : Live → List Arrival → List Decision
  | _, [] => []
  | s, c :: cs =>
      (check_locked config s (source_key config c) c.2).1 :: decisions (step config s c) cs

/-- An enabled limiter runs on its locked state. -/
theorem run_checks_enabled (s : Live) (cs : List Arrival) :
    ({ config, inner := some s.inner, stats := s.stats } : RateLimiter).run_checks cs
      = (decisions config s cs,
          { config, inner := some (after config s cs).inner,
            stats := (after config s cs).stats }) := by
  induction cs generalizing s with
  | nil => rfl
  | cons c cs ih =>
      show (_, _) = _
      rw [show RateLimiter.check { config, inner := some s.inner, stats := s.stats } c.1 c.2
        = ((check_locked config s (source_key config c) c.2).1,
            { config, inner := some (step config s c).inner, stats := (step config s c).stats })
        from rfl]
      rw [ih (step config s c)]
      rfl

/-- Construction succeeds with a positive capacity. -/
theorem with_clock_enabled (hon : config.enabled = true)
    (h : 0 < config.tracked_sources_capacity) (now : Instant) :
    RateLimiter.with_clock config now
      = some
          { config, inner := some (Live.new config h now).inner,
            stats := (Live.new config h now).stats } := by
  unfold RateLimiter.with_clock
  rw [if_neg (by rw [hon]; exact nofun), dif_pos h]
  rfl

/-! ## The ways through `check_locked` -/

theorem make_room_cases (inner : Inner) (now : Instant) :
    inner.make_room now = inner ∨ inner.make_room now = inner.sweep_expired_candidates now := by
  unfold Inner.make_room
  by_cases h : inner.max_candidates ≤ inner.candidates.entries.length
  · exact .inr (if_pos h)
  · exact .inl (if_neg h)

/-- Making room only forgets expired candidates. -/
theorem make_room_sublist (inner : Inner) (now : Instant) :
    (inner.make_room now).candidates.entries.Sublist inner.candidates.entries := by
  rcases make_room_cases inner now with h | h
  · rw [h]
  · rw [h]
    exact List.filter_sublist

theorem lookup_make_room {inner : Inner} {now : Instant} {k : SourceKey} {v : Nat × Instant}
    (h : (inner.make_room now).candidates.lookup k = some v) :
    inner.candidates.lookup k = some v := by
  rw [lookup_eq_some_iff] at h ⊢
  exact (make_room_sublist inner now).subset h

/-- A candidate that making room forgot had expired. -/
theorem lookup_make_room_of {inner : Inner} (now : Instant) {k : SourceKey} {v : Nat × Instant}
    (h : inner.candidates.lookup k = some v) :
    (inner.make_room now).candidates.lookup k = some v ∨ CANDIDATE_TTL ≤ now - v.2 := by
  rcases make_room_cases inner now with hr | hr
  · rw [hr]
    exact .inl h
  · by_cases hlive : now - v.2 < CANDIDATE_TTL
    · rw [hr]
      exact .inl (lookup_filterMap.mpr ⟨h, decide_eq_true hlive⟩)
    · exact .inr (Nat.le_of_not_lt hlive)

/-- Making room touches the candidates alone. -/
theorem make_room_eq (inner : Inner) (now : Instant) :
    inner.make_room now = { inner with candidates := (inner.make_room now).candidates } := by
  rcases make_room_cases inner now with h | h
  · rw [h]
  · rw [h]
    rfl

/-- What a packet that passed the global bucket does to its candidate count. -/
inductive Bumped (inner : Inner) (key : SourceKey) (now : Instant) :
    Option Nat → Assoc SourceKey (Nat × Instant) → Prop
  | again (count : Nat) (seen : Instant) (h : inner.candidates.lookup key = some (count, seen)) :
      Bumped inner key now (some (saturating_incr count))
        (inner.candidates.insert key (saturating_incr count, now))
  | first (h : key ∉ inner.candidates)
      (room : (inner.make_room now).candidates.entries.length < inner.max_candidates) :
      Bumped inner key now (some 1) ((inner.make_room now).candidates.insert key (1, now))
  | rejected (h : key ∉ inner.candidates)
      (full : inner.max_candidates ≤ (inner.make_room now).candidates.entries.length) :
      Bumped inner key now none (inner.make_room now).candidates

theorem bump_cases (inner : Inner) (key : SourceKey) (now : Instant) :
    Bumped inner key now (bump inner key now).1 (bump inner key now).2.candidates
      ∧ (bump inner key now).2
          = { inner with candidates := (bump inner key now).2.candidates } := by
  have hmax : (inner.make_room now).max_candidates = inner.max_candidates := by
    rw [make_room_eq inner now]
  unfold bump
  cases hl : inner.candidates.lookup key with
  | some v => exact ⟨.again v.1 v.2 hl, rfl⟩
  | none =>
      have hkey : key ∉ inner.candidates := AList.lookup_eq_none.mp hl
      dsimp only
      by_cases hfull : (inner.make_room now).max_candidates
          ≤ (inner.make_room now).candidates.entries.length
      · rw [if_pos hfull]
        exact ⟨.rejected hkey (hmax ▸ hfull), make_room_eq inner now⟩
      · rw [if_neg hfull]
        refine ⟨.first hkey (hmax ▸ Nat.lt_of_not_le hfull), ?_⟩
        conv_lhs => rw [make_room_eq inner now]

/-- What `check_locked` does with a packet, exit by exit. -/
inductive Checked (s : Live) (key : SourceKey) (now : Instant) : Decision → Live → Prop
  | tracked_pass (b b' : TokenBucket) (h : s.inner.tracked.map.lookup key = some b)
      (hc : b.consume now = (.pass, b')) :
      Checked s key now .pass
        { inner := { s.inner with tracked := s.inner.tracked.update key (fun _ => b') }
          stats := s.stats.incr_allowed }
  | tracked_drop (b b' : TokenBucket) (h : s.inner.tracked.map.lookup key = some b)
      (hc : b.consume now = (.drop, b')) :
      Checked s key now (.drop .per_source_exhausted)
        { inner :=
            { s.inner with tracked := s.inner.tracked.update key (fun _ => warned b' now) }
          stats := s.stats.incr_dropped_per_source }
  | global_drop (g : TokenBucket) (h : key ∉ s.inner.tracked.map)
      (hc : s.inner.global.consume now = (.drop, g)) :
      Checked s key now (.drop .global_exhausted)
        { inner :=
            { s.inner with
              global := g
              last_global_drop_warn := (should_warn_log s.inner.last_global_drop_warn now).2 }
          stats := s.stats.incr_dropped_global }
  | rejected (g : TokenBucket) (cand : Assoc SourceKey (Nat × Instant))
      (h : key ∉ s.inner.tracked.map) (hc : s.inner.global.consume now = (.pass, g))
      (hb : Bumped s.inner key now none cand) :
      Checked s key now .pass
        { inner := { s.inner with global := g, candidates := cand }
          stats := s.stats.incr_allowed }
  | counted (g : TokenBucket) (cand : Assoc SourceKey (Nat × Instant)) (count : Nat)
      (h : key ∉ s.inner.tracked.map) (hc : s.inner.global.consume now = (.pass, g))
      (hb : Bumped s.inner key now (some count) cand)
      (hlt : count < config.promotion_threshold.toNat) :
      Checked s key now .pass
        { inner := { s.inner with global := g, candidates := cand }
          stats := s.stats.incr_allowed }
  | promoted (g : TokenBucket) (cand : Assoc SourceKey (Nat × Instant)) (count : Nat)
      (h : key ∉ s.inner.tracked.map) (hc : s.inner.global.consume now = (.pass, g))
      (hb : Bumped s.inner key now (some count) cand)
      (hle : config.promotion_threshold.toNat ≤ count) :
      Checked s key now .pass
        { inner :=
            { s.inner with
              global := g
              candidates := cand.erase key
              tracked :=
                s.inner.tracked.put key
                  (TokenBucket.new config.per_source_rate_per_sec config.per_source_burst now) }
          stats :=
            ((count_eviction s.stats key
                (s.inner.tracked.push key
                  (TokenBucket.new config.per_source_rate_per_sec config.per_source_burst
                    now)).1).incr_promotions).incr_allowed }

/-- The global bucket plays no part in the candidate map. -/
theorem Bumped.of_global {inner : Inner} {g : TokenBucket} {key : SourceKey} {now : Instant}
    {count : Option Nat} {cand : Assoc SourceKey (Nat × Instant)}
    (h : Bumped { inner with global := g } key now count cand) :
    Bumped inner key now count cand := by
  have hroom : (Inner.make_room { inner with global := g } now).candidates
      = (inner.make_room now).candidates := by
    unfold Inner.make_room Inner.sweep_expired_candidates
    split <;> rfl
  cases h with
  | again count seen h => exact .again count seen h
  | first h room =>
      rw [hroom] at room ⊢
      exact .first h room
  | rejected h full =>
      rw [hroom] at full ⊢
      exact .rejected h full

/-- **EVERY EXIT** of `check_locked`. -/
theorem check_cases (s : Live) (key : SourceKey) (now : Instant) :
    Checked config s key now (check_locked config s key now).1
      (check_locked config s key now).2 := by
  unfold check_locked
  cases hl : s.inner.tracked.map.lookup key with
  | some b =>
      dsimp only
      rcases hc : b.consume now with ⟨_ | _, b'⟩
      · exact .tracked_pass b b' hl hc
      · exact .tracked_drop b b' hl hc
  | none =>
      have hkey : key ∉ s.inner.tracked.map := AList.lookup_eq_none.mp hl
      dsimp only
      rcases hc : s.inner.global.consume now with ⟨_ | _, g⟩
      · dsimp only
        unfold candidate_tier
        obtain ⟨hb, he⟩ := bump_cases { s.inner with global := g } key now
        rcases hbump : bump { s.inner with global := g } key now with ⟨_ | count, inner⟩
        · rw [hbump] at hb he
          dsimp only at hb he ⊢
          rw [he]
          exact .rejected g _ hkey hc hb.of_global
        · rw [hbump] at hb he
          dsimp only at hb he ⊢
          rw [he]
          by_cases hp : config.promotion_threshold.toNat ≤ count
          · rw [if_pos hp]
            exact .promoted g _ count hkey hc hb.of_global hp
          · rw [if_neg hp]
            exact .counted g _ count hkey hc hb.of_global (Nat.lt_of_not_le hp)
      · exact .global_drop g hkey hc

/-! ## The invariant -/

section Bumping

variable {inner : Inner} {key : SourceKey} {now : Instant} {count : Option Nat}
  {cand : Assoc SourceKey (Nat × Instant)}

/-- The candidate map never outgrows its bound. -/
theorem Bumped.size_le (h : Bumped inner key now count cand)
    (hsize : inner.candidates.entries.length ≤ inner.max_candidates) :
    cand.entries.length ≤ inner.max_candidates := by
  cases h with
  | again count seen h =>
      rw [length_insert_of_mem (mem_iff_lookup.mpr ⟨_, h⟩)]
      exact hsize
  | first h room => exact Nat.le_trans (length_insert_le _ _ _) room
  | rejected h full => exact Nat.le_trans (make_room_sublist inner now).length_le hsize

/-- A binding afterwards is this packet's or an old one. -/
theorem Bumped.lookup (h : Bumped inner key now count cand) {k : SourceKey} {v : Nat × Instant}
    (hk : cand.lookup k = some v) :
    (k = key ∧ count = some v.1 ∧ v.2 = now) ∨ (k ≠ key ∧ inner.candidates.lookup k = some v) := by
  cases h with
  | again count seen h =>
      rcases lookup_insert_iff.mp hk with ⟨rfl, rfl⟩ | ⟨hne, hold⟩
      · exact .inl ⟨rfl, rfl, rfl⟩
      · exact .inr ⟨hne, hold⟩
  | first h room =>
      rcases lookup_insert_iff.mp hk with ⟨rfl, rfl⟩ | ⟨hne, hold⟩
      · exact .inl ⟨rfl, rfl, rfl⟩
      · exact .inr ⟨hne, lookup_make_room hold⟩
  | rejected h full =>
      have hold := lookup_make_room hk
      refine .inr ⟨?_, hold⟩
      rintro rfl
      exact h (mem_iff_lookup.mpr ⟨v, hold⟩)

theorem Bumped.lookup_self {count : Nat} (h : Bumped inner key now (some count) cand) :
    cand.lookup key = some (count, now) := by
  cases h with
  | again count seen h => exact AList.lookup_insert _
  | first h room => exact AList.lookup_insert _

end Bumping

theorem threshold_le : config.promotion_threshold.toNat ≤ 4294967295 :=
  Nat.le_of_lt_succ config.promotion_threshold.toNat_lt

/-- Below the threshold nothing saturates. -/
theorem saturating_incr_of_lt {count : Nat} (h : count < config.promotion_threshold.toNat) :
    saturating_incr count = count + 1 := by
  have hP := threshold_le config
  unfold saturating_incr
  omega

/-- What holds between packets; `n` have been checked. -/
structure Invariant (n : Nat) (s : Live) : Prop where
  max_candidates : s.inner.max_candidates = config.tracked_sources_capacity
  cap : s.inner.tracked.cap = config.tracked_sources_capacity
  candidates_le : s.inner.candidates.entries.length ≤ config.tracked_sources_capacity
  disjoint : ∀ k ∈ s.inner.tracked.map, k ∉ s.inner.candidates
  counts : ∀ k v, s.inner.candidates.lookup k = some v →
    1 ≤ v.1 ∧ v.1 < config.promotion_threshold.toNat
  promotions : s.stats.promotions = s.stats.evictions + s.inner.tracked.len
  total : s.stats.allowed + s.stats.dropped_per_source + s.stats.dropped_global = n

theorem invariant_new (h : 0 < config.tracked_sources_capacity) (now : Instant) :
    Invariant config 0 (Live.new config h now) where
  max_candidates := rfl
  cap := rfl
  candidates_le := Nat.zero_le _
  disjoint := fun _ _ => AList.notMem_empty _
  counts := fun _ _ hk => nomatch hk
  promotions := rfl
  total := rfl

variable {config}

/-- A new tracked key: one more entry, or one eviction. -/
theorem count_eviction_push {c : LruCache SourceKey TokenBucket} {key : SourceKey}
    (b : TokenBucket) (stats : Stats) (h : key ∉ c.map) :
    (count_eviction stats key (c.push key b).1).evictions + (c.put key b).len
      = stats.evictions + c.len + 1 := by
  rcases LruCache.push_cases c key b with ⟨old, hl, -, -⟩ | ⟨-, -, hn, hm⟩ | ⟨-, hfull, hs, hm⟩
  · exact absurd (mem_iff_lookup.mpr ⟨old, hl⟩) h
  · have hlen : (c.put key b).len = c.len + 1 := by
      show (c.push key b).2.map.entries.length = _
      rw [hm, length_insert_of_notMem h]
      rfl
    rw [hn, hlen]
    rfl
  · have hpos := c.cap_pos
    obtain ⟨e, he⟩ : ∃ e, c.map.entries.getLast? = some e := by
      cases hg : c.map.entries.getLast? with
      | some e => exact ⟨e, rfl⟩
      | none =>
          have : c.len = 0 := List.length_eq_zero_iff.mpr (List.getLast?_eq_none_iff.mp hg)
          omega
    have hne : e.1 ≠ key := by
      rintro rfl
      exact h (List.mem_map_of_mem (List.mem_of_getLast? he))
    have hlen : (c.put key b).len = c.len := by
      show (c.push key b).2.map.entries.length = _
      rw [hm, length_insert_of_notMem (fun hk => h (mem_of_mem_dropLru hk))]
      show c.map.entries.dropLast.length + 1 = c.map.entries.length
      rw [List.length_dropLast]
      have : c.map.entries.length = c.cap := hfull
      omega
    rw [hs, hlen, he]
    show (if e.1 ≠ key then stats.incr_evictions else stats).evictions + c.len = _
    rw [if_pos hne]
    show stats.evictions + 1 + c.len = _
    omega

/-- Counting an eviction moves no other counter. -/
theorem count_eviction_eq (stats : Stats) (key : SourceKey)
    (d : Option (SourceKey × TokenBucket)) :
    count_eviction stats key d
      = { stats with evictions := (count_eviction stats key d).evictions } := by
  rcases d with _ | ⟨k, b⟩
  · rfl
  · unfold count_eviction
    dsimp only
    split <;> rfl

/-- Rewriting a tracked entry keeps the keys and their number. -/
theorem update_keys {c : LruCache SourceKey TokenBucket} {key : SourceKey} {b : TokenBucket}
    (b' : TokenBucket) (h : c.map.lookup key = some b) :
    (c.update key (fun _ => b')).len = c.len
      ∧ ∀ k, k ∈ (c.update key (fun _ => b')).map ↔ k ∈ c.map := by
  have hmem : key ∈ c.map := mem_iff_lookup.mpr ⟨b, h⟩
  have hmap := LruCache.update_map (fun _ => b') h
  constructor
  · show (c.update key (fun _ => b')).map.entries.length = _
    rw [hmap, length_insert_of_mem hmem]
    rfl
  · intro k
    rw [hmap, AList.mem_insert]
    constructor
    · rintro (rfl | hk)
      · exact hmem
      · exact hk
    · exact .inr

section Step

variable {n : Nat} {s : Live} {key : SourceKey} {now : Instant}

/-- The clauses about candidates, after a packet that was counted or turned away. -/
theorem Invariant.bumped (hinv : Invariant config n s) {count : Option Nat}
    {cand : Assoc SourceKey (Nat × Instant)} (h : key ∉ s.inner.tracked.map)
    (hb : Bumped s.inner key now count cand) :
    cand.entries.length ≤ config.tracked_sources_capacity
      ∧ (∀ k ∈ s.inner.tracked.map, k ∉ cand)
      ∧ (∀ k v, cand.lookup k = some v →
          (k = key ∧ count = some v.1 ∧ 1 ≤ v.1)
            ∨ (k ≠ key ∧ 1 ≤ v.1 ∧ v.1 < config.promotion_threshold.toNat)) := by
  refine ⟨?_, ?_, ?_⟩
  · have hsize := hinv.candidates_le
    rw [← hinv.max_candidates] at hsize ⊢
    exact hb.size_le hsize
  · intro k hk hmem
    obtain ⟨v, hv⟩ := mem_iff_lookup.mp hmem
    rcases hb.lookup hv with ⟨rfl, -, -⟩ | ⟨-, hold⟩
    · exact h hk
    · exact hinv.disjoint k hk (mem_iff_lookup.mpr ⟨v, hold⟩)
  · intro k v hv
    rcases hb.lookup hv with ⟨rfl, hcount, -⟩ | ⟨hne, hold⟩
    · refine .inl ⟨rfl, hcount, ?_⟩
      cases hb with
      | again count seen hold =>
          have hpos := hinv.counts k _ hold
          rw [← Option.some.inj hcount, saturating_incr_of_lt config hpos.2]
          exact Nat.succ_pos _
      | first hnot room => rw [← Option.some.inj hcount]
      | rejected hnot full => exact nomatch hcount
    · exact .inr ⟨hne, hinv.counts k v hold⟩

/-- Rewriting the bucket of a tracked source touches nothing the invariant speaks of but
    the total. -/
theorem Invariant.rewritten (hinv : Invariant config n s) {key : SourceKey} {b : TokenBucket}
    (b' : TokenBucket) (h : s.inner.tracked.map.lookup key = some b) {stats : Stats}
    (hprom : stats.promotions = stats.evictions + s.inner.tracked.len)
    (htotal : stats.allowed + stats.dropped_per_source + stats.dropped_global = n + 1) :
    Invariant config (n + 1)
      { inner := { s.inner with tracked := s.inner.tracked.update key (fun _ => b') }
        stats := stats } := by
  obtain ⟨hlen, hmem⟩ := update_keys b' h
  refine ⟨hinv.max_candidates, ?_, hinv.candidates_le, ?_, hinv.counts, ?_, htotal⟩
  · exact (LruCache.update_cap _ _ _).trans hinv.cap
  · intro k hk
    exact hinv.disjoint k ((hmem k).mp hk)
  · show stats.promotions = stats.evictions + (s.inner.tracked.update key (fun _ => b')).len
    rw [hlen]
    exact hprom

/-- So does a candidate that is counted and stays one, or for which there is no room. -/
theorem Invariant.recounted (hinv : Invariant config n s) {count : Option Nat}
    {cand : Assoc SourceKey (Nat × Instant)} (h : key ∉ s.inner.tracked.map)
    (hb : Bumped s.inner key now count cand)
    (hbelow : ∀ c, count = some c → c < config.promotion_threshold.toNat) (g : TokenBucket) :
    Invariant config (n + 1)
      { inner := { s.inner with global := g, candidates := cand }
        stats := s.stats.incr_allowed } := by
  have htotal := hinv.total
  obtain ⟨hsize, hdis, hcounts⟩ := hinv.bumped h hb
  refine ⟨hinv.max_candidates, hinv.cap, hsize, hdis, ?_, hinv.promotions, ?_⟩
  · intro k v hv
    rcases hcounts k v hv with ⟨-, hcount, hpos⟩ | ⟨-, hrange⟩
    · exact ⟨hpos, hbelow v.1 hcount⟩
    · exact hrange
  · show s.stats.allowed + 1 + s.stats.dropped_per_source + s.stats.dropped_global = n + 1
    omega

/-- A promoted key moves from the candidates to the tracked map, where it may displace
    another. -/
theorem Invariant.promoted (hinv : Invariant config n s) {count : Option Nat}
    {cand : Assoc SourceKey (Nat × Instant)} (h : key ∉ s.inner.tracked.map)
    (hb : Bumped s.inner key now count cand) (g b : TokenBucket) :
    Invariant config (n + 1)
      { inner :=
          { s.inner with
            global := g
            candidates := cand.erase key
            tracked := s.inner.tracked.put key b }
        stats :=
          ((count_eviction s.stats key (s.inner.tracked.push key b).1).incr_promotions).incr_allowed
      } := by
  have htotal := hinv.total
  obtain ⟨hsize, hdis, hcounts⟩ := hinv.bumped h hb
  refine ⟨hinv.max_candidates, ?_, ?_, ?_, ?_, ?_, ?_⟩
  · exact (LruCache.put_cap _ _ _).trans hinv.cap
  · exact Nat.le_trans (length_erase_le key cand) hsize
  · -- nobody is tracked and a candidate at once
    intro k hk hmem
    obtain ⟨hne, hin⟩ := AList.mem_erase.mp hmem
    obtain ⟨v, hv⟩ := mem_iff_lookup.mp hk
    rcases LruCache.lookup_put_cases hv with ⟨heq, -⟩ | ⟨-, hold⟩
    · exact hne heq
    · exact hdis k (mem_iff_lookup.mpr ⟨v, hold⟩) hin
  · intro k v hv
    have hne : k ≠ key := by
      rintro rfl
      exact nomatch (AList.lookup_erase k cand).symm.trans hv
    rw [AList.lookup_erase_ne hne] at hv
    rcases hcounts k v hv with ⟨heq, -, -⟩ | ⟨-, hrange⟩
    · exact absurd heq hne
    · exact hrange
  · -- promotions are the buckets there are and those that were evicted
    have hpush := count_eviction_push b s.stats h
    rw [count_eviction_eq]
    show s.stats.promotions + 1 = _ + _
    rw [hinv.promotions]
    exact hpush.symm
  · rw [count_eviction_eq]
    show s.stats.allowed + 1 + s.stats.dropped_per_source + s.stats.dropped_global = n + 1
    omega

/-- **ONE PACKET** keeps the invariant. -/
theorem check_invariant (hinv : Invariant config n s) (key : SourceKey) (now : Instant) :
    Invariant config (n + 1) (check_locked config s key now).2 := by
  have hchecked := check_cases config s key now
  generalize (check_locked config s key now).2 = s' at hchecked ⊢
  generalize (check_locked config s key now).1 = d at hchecked
  have htotal := hinv.total
  have hprom := hinv.promotions
  cases hchecked with
  | tracked_pass b b' h hc =>
      refine hinv.rewritten b' h hprom ?_
      show s.stats.allowed + 1 + s.stats.dropped_per_source + s.stats.dropped_global = n + 1
      omega
  | tracked_drop b b' h hc =>
      refine hinv.rewritten (warned b' now) h hprom ?_
      show s.stats.allowed + (s.stats.dropped_per_source + 1) + s.stats.dropped_global = n + 1
      omega
  | global_drop g h hc =>
      refine ⟨hinv.max_candidates, hinv.cap, hinv.candidates_le, hinv.disjoint, hinv.counts,
        hprom, ?_⟩
      show s.stats.allowed + s.stats.dropped_per_source + (s.stats.dropped_global + 1) = n + 1
      omega
  | rejected g cand h hc hb =>
      refine hinv.recounted h hb ?_ g
      intro c hcount
      cases hcount
  | counted g cand count h hc hb hlt =>
      refine hinv.recounted h hb ?_ g
      intro c hcount
      exact Option.some.inj hcount ▸ hlt
  | promoted g cand count h hc hb hle => exact hinv.promoted h hb g _

end Step

/-- **EVERY RUN** keeps it. -/
theorem after_invariant {n : Nat} {s : Live} (hinv : Invariant config n s) (cs : List Arrival) :
    Invariant config (n + cs.length) (after config s cs) := by
  induction cs using List.reverseRecOn with
  | nil => exact hinv
  | append_singleton cs c ih =>
      rw [after_snoc, List.length_append]
      exact check_invariant ih (source_key config c) c.2

/-! ## The history behind a count -/

section History

variable (config)

/-- The packet reaches the global bucket and passes it. -/
def passes_global (s : Live) (c : Arrival) : Prop :=
  source_key config c ∉ s.inner.tracked.map ∧ (s.inner.global.consume c.2).1 = .pass

instance (s : Live) (c : Arrival) : Decidable (passes_global config s c) :=
  inferInstanceAs (Decidable (_ ∧ _))

/-- One for a packet of `k` that passes the global bucket. -/
def hit (k : SourceKey) (s : Live) (c : Arrival) : Nat :=
  if source_key config c = k ∧ passes_global config s c then 1 else 0

/-- How many packets of `k` pass the global bucket along a run. -/
def passes (k : SourceKey) : Live → List Arrival → Nat
  | _, [] => 0
  | s, c :: cs => hit config k s c + passes k (step config s c) cs

theorem passes_snoc (k : SourceKey) (s : Live) (cs : List Arrival) (c : Arrival) :
    passes config k s (cs ++ [c]) = passes config k s cs + hit config k (after config s cs) c := by
  induction cs generalizing s with
  | nil => exact Nat.add_comm _ _
  | cons d cs ih =>
      show hit config k s d + passes config k (step config s d) (cs ++ [c]) = _
      rw [ih (step config s d), ← Nat.add_assoc]
      rfl

/-- `k` became a candidate with one packet of the run, stayed one, and `count` of its
    packets passed the global bucket from that one on. -/
def Counted (s : Live) (cs : List Arrival) (k : SourceKey) (count : Nat) : Prop :=
  ∃ ys c zs, cs = ys ++ c :: zs
    ∧ k ∉ (after config s ys).inner.candidates
    ∧ (∀ ws us, zs = ws ++ us → k ∈ (after config s (ys ++ c :: ws)).inner.candidates)
    ∧ count = passes config k (after config s ys) (c :: zs)

variable {config}

theorem hit_of_passes {k : SourceKey} {s : Live} {c : Arrival} (hk : source_key config c = k)
    (hp : passes_global config s c) : hit config k s c = 1 := if_pos ⟨hk, hp⟩

theorem hit_of_ne {k : SourceKey} {s : Live} {c : Arrival} (hk : k ≠ source_key config c) :
    hit config k s c = 0 := if_neg (fun h => hk h.1.symm)

theorem hit_of_not_passes {k : SourceKey} {s : Live} {c : Arrival}
    (hp : ¬passes_global config s c) : hit config k s c = 0 := if_neg (fun h => hp h.2)

/-- A packet that was counted moves its own count by one and no other. -/
theorem Bumped.hit_eq {n : Nat} {s : Live} {c : Arrival} {count : Option Nat}
    {cand : Assoc SourceKey (Nat × Instant)} (hinv : Invariant config n s)
    (hp : passes_global config s c)
    (hb : Bumped s.inner (source_key config c) c.2 count cand) {k : SourceKey}
    {v : Nat × Instant} (hv : cand.lookup k = some v) :
    (∃ v₀, s.inner.candidates.lookup k = some v₀ ∧ v.1 = v₀.1 + hit config k s c)
      ∨ (k ∉ s.inner.candidates ∧ hit config k s c = 1 ∧ v.1 = 1) := by
  rcases hb.lookup hv with ⟨rfl, hcount, -⟩ | ⟨hne, hold⟩
  · have hhit := hit_of_passes rfl hp
    cases hb with
    | again count seen hold =>
        refine .inl ⟨_, hold, ?_⟩
        rw [← Option.some.inj hcount, saturating_incr_of_lt config (hinv.counts _ _ hold).2, hhit]
    | first hnot room => exact .inr ⟨hnot, hhit, (Option.some.inj hcount).symm⟩
    | rejected hnot full => exact nomatch hcount
  · refine .inl ⟨v, hold, ?_⟩
    rw [hit_of_ne hne]
    rfl

/-- Every count after a packet: an old one moved by the packet, or a new one. -/
theorem step_candidate {n : Nat} {s : Live} (hinv : Invariant config n s) {c : Arrival}
    {k : SourceKey} {v : Nat × Instant}
    (hv : (step config s c).inner.candidates.lookup k = some v) :
    (∃ v₀, s.inner.candidates.lookup k = some v₀ ∧ v.1 = v₀.1 + hit config k s c)
      ∨ (k ∉ s.inner.candidates ∧ hit config k s c = 1 ∧ v.1 = 1) := by
  have hchecked := check_cases config s (source_key config c) c.2
  unfold step at hv
  generalize (check_locked config s (source_key config c) c.2).2 = s' at hchecked hv
  generalize (check_locked config s (source_key config c) c.2).1 = d at hchecked
  have htracked : ∀ b, s.inner.tracked.map.lookup (source_key config c) = some b →
      hit config k s c = 0 := fun b hb =>
    hit_of_not_passes (fun hp => hp.1 (mem_iff_lookup.mpr ⟨b, hb⟩))
  cases hchecked with
  | tracked_pass b b' h hc => exact .inl ⟨v, hv, by rw [htracked b h]; rfl⟩
  | tracked_drop b b' h hc => exact .inl ⟨v, hv, by rw [htracked b h]; rfl⟩
  | global_drop g h hc =>
      have hnot : ¬passes_global config s c := by
        rintro ⟨-, hp⟩
        rw [hc] at hp
        exact nomatch hp
      exact .inl ⟨v, hv, by rw [hit_of_not_passes hnot]; rfl⟩
  | rejected g cand h hc hb => exact hb.hit_eq hinv ⟨h, by rw [hc]⟩ hv
  | counted g cand count h hc hb hlt => exact hb.hit_eq hinv ⟨h, by rw [hc]⟩ hv
  | promoted g cand count h hc hb hle =>
      have hne : k ≠ source_key config c := by
        rintro rfl
        exact nomatch (AList.lookup_erase _ cand).symm.trans hv
      exact hb.hit_eq hinv ⟨h, by rw [hc]⟩ ((AList.lookup_erase_ne hne).symm.trans hv)

/-- A count and its history move together. -/
theorem Counted.snoc {s : Live} {cs : List Arrival} {k : SourceKey} {count : Nat} (c : Arrival)
    (h : Counted config s cs k count)
    (hk : k ∈ (after config s (cs ++ [c])).inner.candidates) :
    Counted config s (cs ++ [c]) k (count + hit config k (after config s cs) c) := by
  obtain ⟨ys, d, zs, rfl, hnot, hkept, hcount⟩ := h
  refine ⟨ys, d, zs ++ [c], by simp, hnot, ?_, ?_⟩
  · intro ws us hsplit
    rcases List.eq_nil_or_concat us with rfl | ⟨us', x, rfl⟩
    · rw [List.append_nil] at hsplit
      rw [← hsplit, ← List.cons_append, ← List.append_assoc]
      exact hk
    · rw [List.concat_eq_append, ← List.append_assoc] at hsplit
      exact hkept ws us' (List.append_inj_left' hsplit rfl)
  · rw [hcount, ← List.cons_append, passes_snoc]
    unfold after
    rw [List.foldl_append]

/-- **COUNTS ARE EARNED**: along every run from a limiter without candidates. -/
theorem after_counted {s : Live} (hinv : Invariant config 0 s)
    (hempty : s.inner.candidates = ∅) (cs : List Arrival) {k : SourceKey} {v : Nat × Instant}
    (hv : (after config s cs).inner.candidates.lookup k = some v) :
    Counted config s cs k v.1 := by
  induction cs using List.reverseRecOn generalizing v with
  | nil =>
      have hv' : s.inner.candidates.lookup k = some v := hv
      rw [hempty] at hv'
      exact nomatch hv'
  | append_singleton cs c ih =>
      have hk : k ∈ (after config s (cs ++ [c])).inner.candidates := mem_iff_lookup.mpr ⟨v, hv⟩
      rw [after_snoc] at hv
      rcases step_candidate (after_invariant hinv cs) hv with
        ⟨v₀, hold, hcount⟩ | ⟨hnot, hhit, hone⟩
      · rw [hcount]
        exact (ih hold).snoc c hk
      · refine ⟨cs, c, [], rfl, hnot, ?_, ?_⟩
        · intro ws us hsplit
          obtain ⟨rfl, rfl⟩ := List.append_eq_nil_iff.mp hsplit.symm
          exact hk
        · show v.1 = hit config k (after config s cs) c + 0
          rw [hone, hhit]

end History

/-- The limiter's state `s` after the packets `cs`, from `s₀`. -/
structure Consistent (config : RateLimitSection) (s₀ : Live) (cs : List Arrival) (s : Live) :
    Prop where
  tracked_le : s.inner.tracked.len ≤ config.tracked_sources_capacity
  candidates_le : s.inner.candidates.entries.length ≤ config.tracked_sources_capacity
  disjoint : ∀ k ∈ s.inner.tracked.map, k ∉ s.inner.candidates
  counts : ∀ k v, s.inner.candidates.lookup k = some v →
    1 ≤ v.1 ∧ v.1 ≤ config.promotion_threshold.toNat - 1 ∧ Counted config s₀ cs k v.1
  promotions : s.stats.promotions = s.stats.evictions + s.inner.tracked.len
  total : s.stats.allowed + s.stats.dropped_per_source + s.stats.dropped_global = cs.length
  global_tokens : 0 ≤ s.inner.global.tokens ∧ s.inner.global.tokens ≤ s.inner.global.capacity
  tracked_tokens : ∀ k b, s.inner.tracked.map.lookup k = some b →
    0 ≤ b.tokens ∧ b.tokens ≤ b.capacity

/-- **THE LIMITER'S STATE** after any packets at any instants. -/
theorem limiter_consistent {c : DaemonConfig} (hvalid : c.validate = .ok ())
    (hon : c.rate_limit.enabled = true) (t₀ : Instant) (cs : List Arrival) :
    ∃ s₀ s : Live,
      RateLimiter.with_clock c.rate_limit t₀
          = some { config := c.rate_limit, inner := some s₀.inner, stats := s₀.stats }
        ∧ (RateLimiter.run_checks
              { config := c.rate_limit, inner := some s₀.inner, stats := s₀.stats } cs).2
            = { config := c.rate_limit, inner := some s.inner, stats := s.stats }
        ∧ Consistent c.rate_limit s₀ cs s := by
  have hcap := ((validate_eq_ok_iff.mp hvalid).rate_limit hon).capacity
  have hnew := invariant_new c.rate_limit hcap t₀
  have hinv := after_invariant hnew cs
  refine ⟨Live.new c.rate_limit hcap t₀, after c.rate_limit (Live.new c.rate_limit hcap t₀) cs,
    with_clock_enabled c.rate_limit hon hcap t₀, ?_, ?_⟩
  · rw [run_checks_enabled]
  · refine ⟨?_, hinv.candidates_le, hinv.disjoint, ?_, hinv.promotions, ?_, ?_, ?_⟩
    · rw [← hinv.cap]
      exact (after c.rate_limit (Live.new c.rate_limit hcap t₀) cs).inner.tracked.size_le
    · intro k v hv
      obtain ⟨hpos, hlt⟩ := hinv.counts k v hv
      exact ⟨hpos, Nat.le_sub_one_of_lt hlt, after_counted hnew rfl cs hv⟩
    · exact hinv.total.trans (Nat.zero_add _)
    · exact ⟨TokenBucket.tokens_nonneg _, TokenBucket.tokens_le _⟩
    · exact fun _ b _ => ⟨b.tokens_nonneg, b.tokens_le⟩

theorem sampleConfig_consistent :
    sampleConfig.validate = .ok () ∧ sampleConfig.rate_limit.enabled = true
      ∧ ∃ s₀ s : Live,
          RateLimiter.with_clock sampleConfig.rate_limit 7
              = some
                { config := sampleConfig.rate_limit, inner := some s₀.inner, stats := s₀.stats }
            ∧ (RateLimiter.run_checks
                  { config := sampleConfig.rate_limit, inner := some s₀.inner, stats := s₀.stats }
                  [(.v4 #v[192, 0, 2, 1], 8), (.v4 #v[192, 0, 2, 1], 9)]).2
                = { config := sampleConfig.rate_limit, inner := some s.inner, stats := s.stats }
            ∧ Consistent sampleConfig.rate_limit s₀
                [(.v4 #v[192, 0, 2, 1], 8), (.v4 #v[192, 0, 2, 1], 9)] s :=
  ⟨sampleConfig_validate, rfl, limiter_consistent sampleConfig_validate rfl 7 _⟩

end FwknoxLimiter
