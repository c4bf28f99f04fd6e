import Fwknox.LimiterProofs
import Mathlib.Tactic.Linarith
import Mathlib.Tactic.Ring
import Mathlib.Tactic.GCongr

/-! # How much the limiter lets through

    A ledger over whole runs.  `G` packets were paid for by the global bucket and `S`
    by per-source buckets:

      * `G` and the global tokens come from the first fill and the global inflow,
      * `S` and what every tracked bucket is worth come from one fill a promotion and
        an inflow into at most `C` buckets at a time,
      * every promotion cost `promotion_threshold` of the `G` packets, however
        candidates were swept or turned away in between.

    The bound is their sum. -/

namespace FwknoxThroughput

open LruMap FwknoxBucket FwknoxSourceKey FwknoxConfig FwknoxLimiter
open FwknoxLimiter.RateLimiter (Arrival)

/-! ## Counting decisions -/

/-- `allowed` counts the packets that passed. -/
theorem check_allowed (config : RateLimitSection) (s : Live) (key : SourceKey) (now : Instant) :
    (check_locked config s key now).2.stats.allowed
      = s.stats.allowed + [(check_locked config s key now).1].count .pass := by
  have hchecked := check_cases config s key now
  generalize (check_locked config s key now).2 = s' at hchecked ⊢
  generalize (check_locked config s key now).1 = d at hchecked ⊢
  cases hchecked with
  | tracked_pass b b' h hc => rfl
  | tracked_drop b b' h hc => rfl
  | global_drop g h hc => rfl
  | rejected g cand h hc hb => rfl
  | counted g cand count h hc hb hlt => rfl
  | promoted g cand count h hc hb hle =>
      rw [count_eviction_eq]
      rfl

theorem after_allowed (config : RateLimitSection) (s : Live) (cs : List Arrival) :
    (after config s cs).stats.allowed
      = s.stats.allowed + (decisions config s cs).count .pass := by
  induction cs generalizing s with
  | nil => rfl
  | cons c cs ih =>
      show (after config (step config s c) cs).stats.allowed = _
      rw [ih (step config s c), decisions, ← List.singleton_append, List.count_append,
        ← Nat.add_assoc]
      congr 1
      exact check_allowed config s (source_key config c) c.2

/-! ## The ledger -/

variable (config : RateLimitSection)

/-- What a tracked bucket can still let through by `cur`. -/
def worth (cur : Instant) (b : TokenBucket) : ℚ :=
  b.tokens + config.per_source_rate_per_sec.toNat * secs_since cur b.last_refill

theorem worth_nonneg (cur : Instant) (b : TokenBucket) : 0 ≤ worth config cur b :=
  add_nonneg b.tokens_nonneg (mul_nonneg (Nat.cast_nonneg _) (secs_since_nonneg _ _))

/-- A bucket refilled just now is worth its tokens. -/
theorem worth_of_last {now : Instant} {b : TokenBucket} (h : b.last_refill = now) :
    worth config now b = b.tokens := by
  unfold worth
  rw [h, secs_since_self, mul_zero, add_zero]

/-- The books at `cur` for a limiter built at `t₀`. -/
structure Ledger (t₀ cur : Instant) (s : Live) (S G : Nat) : Prop where
  allowed : s.stats.allowed = S + G
  cap : s.inner.tracked.cap = config.tracked_sources_capacity
  elapsed : t₀ ≤ cur
  global_start : t₀ ≤ s.inner.global.last_refill
  global_last : s.inner.global.last_refill ≤ cur
  global_rate : s.inner.global.rate_per_sec = config.global_rate_per_sec.toNat
  global_paid : (G : ℚ) + s.inner.global.tokens
    ≤ config.global_burst.toNat
      + config.global_rate_per_sec.toNat * secs_since s.inner.global.last_refill t₀
  tracked_rate : ∀ k b, s.inner.tracked.map.lookup k = some b →
    b.rate_per_sec = config.per_source_rate_per_sec.toNat
  tracked_last : ∀ k b, s.inner.tracked.map.lookup k = some b → b.last_refill ≤ cur
  tracked_paid : (S : ℚ) + weight (worth config cur) s.inner.tracked.map
    ≤ config.per_source_burst.toNat * s.stats.promotions
      + config.per_source_rate_per_sec.toNat * config.tracked_sources_capacity * secs_since cur t₀
  promotions_paid :
    config.promotion_threshold.toNat * s.stats.promotions + weight Prod.fst s.inner.candidates ≤ G

theorem ledger_new (h : 0 < config.tracked_sources_capacity) (t₀ : Instant) :
    Ledger config t₀ t₀ (Live.new config h t₀) 0 0 where
  allowed := rfl
  cap := rfl
  elapsed := le_refl t₀
  global_start := le_refl t₀
  global_last := le_refl t₀
  global_rate := rfl
  global_paid := by
    show ((0 : Nat) : ℚ) + config.global_burst.toNat
      ≤ config.global_burst.toNat + config.global_rate_per_sec.toNat * secs_since t₀ t₀
    rw [secs_since_self, Nat.cast_zero]
    linarith
  tracked_rate := fun _ _ hk => nomatch hk
  tracked_last := fun _ _ hk => nomatch hk
  tracked_paid := by
    show ((0 : Nat) : ℚ) + 0 ≤ config.per_source_burst.toNat * ((0 : Nat) : ℚ)
      + config.per_source_rate_per_sec.toNat * config.tracked_sources_capacity * secs_since t₀ t₀
    rw [secs_since_self, Nat.cast_zero]
    linarith
  promotions_paid := le_refl 0

variable {config} {t₀ cur now : Instant} {s : Live} {S G : Nat} {key : SourceKey}

/-- Time passes: at most `C` buckets gain. -/
theorem Ledger.advance (h : Ledger config t₀ cur s S G) (hnow : cur ≤ now) :
    Ledger config t₀ now s S G := by
  refine ⟨h.allowed, h.cap, le_trans h.elapsed hnow, h.global_start, le_trans h.global_last hnow,
    h.global_rate, h.global_paid, h.tracked_rate, ?_, ?_, h.promotions_paid⟩
  · exact fun k b hb => le_trans (h.tracked_last k b hb) hnow
  · have hgain : ∀ e ∈ s.inner.tracked.map.entries, worth config now e.2
        ≤ worth config cur e.2 + config.per_source_rate_per_sec.toNat * secs_since now cur := by
      intro e he
      have hlast := h.tracked_last e.1 e.2 (lookup_eq_some_iff.mpr he)
      unfold worth
      rw [secs_since_add hlast hnow]
      linarith
    have hweight : weight (worth config now) s.inner.tracked.map
        ≤ weight (fun b => worth config cur b
            + config.per_source_rate_per_sec.toNat * secs_since now cur) s.inner.tracked.map :=
      weight_le_weight hgain
    rw [weight_add_const, nsmul_eq_mul] at hweight
    have hlen : ((s.inner.tracked.map.entries.length : Nat) : ℚ)
        ≤ config.tracked_sources_capacity := by
      rw [← h.cap]
      exact_mod_cast s.inner.tracked.size_le
    have hinflow : 0 ≤ (config.per_source_rate_per_sec.toNat : ℚ) * secs_since now cur :=
      mul_nonneg (Nat.cast_nonneg _) (secs_since_nonneg _ _)
    have hmul := mul_le_mul_of_nonneg_right hlen hinflow
    have hpaid := h.tracked_paid
    rw [secs_since_add h.elapsed hnow]
    linarith

/-- A rewritten bucket: what it gave out and what it keeps came from what it was
    worth. -/
theorem Ledger.tracked_update (h : Ledger config t₀ now s S G) {b : TokenBucket}
    (hb : s.inner.tracked.map.lookup key = some b) (b' : TokenBucket)
    (hrate : b'.rate_per_sec = b.rate_per_sec) (hlast : b'.last_refill = now) (given : Nat)
    (hbal : (given : ℚ) + b'.tokens ≤ worth config now b) (stats : Stats)
    (hallowed : stats.allowed = S + given + G) (hprom : stats.promotions = s.stats.promotions) :
    Ledger config t₀ now
      { inner := { s.inner with tracked := s.inner.tracked.update key (fun _ => b') }, stats }
      (S + given) G := by
  have hmap := LruCache.update_map (fun _ => b') hb
  refine ⟨hallowed, (LruCache.update_cap _ _ _).trans h.cap, h.elapsed, h.global_start,
    h.global_last, h.global_rate, h.global_paid, ?_, ?_, ?_, ?_⟩
  · intro k c hc
    rcases lookup_insert_iff.mp (hmap ▸ hc) with ⟨-, rfl⟩ | ⟨-, hold⟩
    · exact hrate.trans (h.tracked_rate key b hb)
    · exact h.tracked_rate k c hold
  · intro k c hc
    rcases lookup_insert_iff.mp (hmap ▸ hc) with ⟨-, rfl⟩ | ⟨-, hold⟩
    · exact le_of_eq hlast
    · exact h.tracked_last k c hold
  · have hswap := weight_insert_of_lookup (worth config now) b' hb
    have hpaid := h.tracked_paid
    rw [worth_of_last config hlast] at hswap
    show ((S + given : Nat) : ℚ)
      + weight (worth config now) (s.inner.tracked.update key (fun _ => b')).map ≤ _
    rw [hmap, hprom, Nat.cast_add]
    linarith
  · rw [hprom]
    exact h.promotions_paid

/-- The balance of a tracked bucket in terms of its worth. -/
theorem Ledger.consume_worth (h : Ledger config t₀ now s S G) {b : TokenBucket}
    (hb : s.inner.tracked.map.lookup key = some b) :
    passed (b.consume now).1 + (b.consume now).2.tokens ≤ worth config now b := by
  have hbal := consume_balance b (h.tracked_last key b hb)
  rw [h.tracked_rate key b hb, mul_comm] at hbal
  exact hbal

/-- The global bucket after a packet it decided. -/
theorem Ledger.global_consume (h : Ledger config t₀ now s S G) (given : Nat)
    (hgiven : (given : ℚ) = passed (s.inner.global.consume now).1) :
    ((G + given : Nat) : ℚ) + (s.inner.global.consume now).2.tokens
      ≤ config.global_burst.toNat
        + config.global_rate_per_sec.toNat
          * secs_since (s.inner.global.consume now).2.last_refill t₀ := by
  have hbal := consume_balance s.inner.global h.global_last
  have hpaid := h.global_paid
  have hsum := secs_since_add h.global_start h.global_last
  rw [h.global_rate] at hbal
  rw [consume_last s.inner.global h.global_last, Nat.cast_add, hgiven, hsum]
  linarith

/-- A packet moves the sum of the counts by at most one. -/
theorem bumped_weight_le {count : Option Nat} {cand : Assoc SourceKey (Nat × Instant)}
    (h : Bumped s.inner key now count cand) :
    weight Prod.fst cand ≤ weight Prod.fst s.inner.candidates + 1 := by
  have hroom : weight Prod.fst (s.inner.make_room now).candidates
      ≤ weight Prod.fst s.inner.candidates :=
    weight_le_of_sublist (fun _ => Nat.zero_le _) (make_room_sublist s.inner now)
  cases h with
  | again count seen h =>
      have hswap := weight_insert_of_lookup Prod.fst (saturating_incr count, now) h
      have hincr : saturating_incr count ≤ count + 1 := Nat.min_le_left _ _
      dsimp only at hswap
      omega
  | first h room =>
      have hnot : key ∉ (s.inner.make_room now).candidates := by
        intro hmem
        obtain ⟨v, hv⟩ := mem_iff_lookup.mp hmem
        exact h (mem_iff_lookup.mpr ⟨v, lookup_make_room hv⟩)
      have hins := weight_insert_of_notMem Prod.fst (1, now) hnot
      dsimp only at hins
      omega
  | rejected h full => omega

/-- A packet the global bucket paid for. -/
theorem Ledger.global_pass (h : Ledger config t₀ now s S G) {g : TokenBucket}
    (hc : s.inner.global.consume now = (.pass, g)) {count : Option Nat}
    {cand : Assoc SourceKey (Nat × Instant)} (hb : Bumped s.inner key now count cand) :
    Ledger config t₀ now
      { inner := { s.inner with global := g, candidates := cand }, stats := s.stats.incr_allowed }
      S (G + 1) := by
  have hglobal := h.global_consume 1 (by rw [hc, Nat.cast_one]; rfl)
  have hlast := consume_last s.inner.global h.global_last
  have hrate := consume_rate s.inner.global now
  have hallowed := h.allowed
  have hpaid := h.promotions_paid
  have hweight := bumped_weight_le hb
  rw [hc] at hglobal hlast hrate
  refine ⟨?_, h.cap, h.elapsed, le_trans h.elapsed (le_of_eq hlast.symm), le_of_eq hlast,
    hrate.trans h.global_rate, hglobal, h.tracked_rate, h.tracked_last, h.tracked_paid, ?_⟩
  · show s.stats.allowed + 1 = S + (G + 1)
    omega
  · show config.promotion_threshold.toNat * s.stats.promotions + weight Prod.fst cand ≤ G + 1
    omega

/-- A promotion is paid for with its candidate's count. -/
theorem Ledger.promoted (h : Ledger config t₀ now s S G) {count : Nat} {seen : Instant}
    (hk : key ∉ s.inner.tracked.map) (hcand : s.inner.candidates.lookup key = some (count, seen))
    (hle : config.promotion_threshold.toNat ≤ count) (stats : Stats)
    (hallowed : stats.allowed = s.stats.allowed)
    (hprom : stats.promotions = s.stats.promotions + 1) :
    Ledger config t₀ now
      { inner :=
          { s.inner with
            candidates := s.inner.candidates.erase key
            tracked :=
              s.inner.tracked.put key
                (TokenBucket.new config.per_source_rate_per_sec config.per_source_burst now) }
        stats } S G := by
  have hpaid := h.promotions_paid
  refine ⟨hallowed.trans h.allowed, (LruCache.put_cap _ _ _).trans h.cap, h.elapsed,
    h.global_start, h.global_last, h.global_rate, h.global_paid, ?_, ?_, ?_, ?_⟩
  · intro k b hb
    rcases LruCache.lookup_put_cases hb with ⟨-, rfl⟩ | ⟨-, hold⟩
    · rfl
    · exact h.tracked_rate k b hold
  · intro k b hb
    rcases LruCache.lookup_put_cases hb with ⟨-, rfl⟩ | ⟨-, hold⟩
    · exact le_refl now
    · exact h.tracked_last k b hold
  · -- the new bucket is full: one burst more to account for, and one promotion more to pay
    have hput := weight_put_le (worth_nonneg config now)
      (TokenBucket.new config.per_source_rate_per_sec config.per_source_burst now) hk
    have hfull : worth config now
        (TokenBucket.new config.per_source_rate_per_sec config.per_source_burst now)
        = config.per_source_burst.toNat := worth_of_last config rfl
    have htracked := h.tracked_paid
    rw [hprom, Nat.cast_add, Nat.cast_one]
    linarith
  · -- the promotion is paid with the count of the candidate that goes
    have herase := weight_erase Prod.fst hcand
    rw [hprom, Nat.mul_succ]
    show config.promotion_threshold.toNat * s.stats.promotions + config.promotion_threshold.toNat
      + weight Prod.fst (s.inner.candidates.erase key) ≤ G
    dsimp only at herase
    omega

/-- **ONE PACKET** keeps the books. -/
theorem Ledger.check (h : Ledger config t₀ now s S G) (key : SourceKey) :
    ∃ S' G', Ledger config t₀ now (check_locked config s key now).2 S' G' := by
  have hchecked := check_cases config s key now
  generalize (check_locked config s key now).2 = s' at hchecked ⊢
  generalize (check_locked config s key now).1 = d at hchecked
  have hallowed := h.allowed
  -- one entry in the ledger for each way through `check`
  cases hchecked with
  | tracked_pass b b' hb hc =>
      have hlast := consume_last b (h.tracked_last key b hb)
      have hrate := consume_rate b now
      have hbal := h.consume_worth hb
      rw [hc] at hlast hrate hbal
      refine ⟨S + 1, G, h.tracked_update hb b' hrate hlast 1 ?_ _ ?_ rfl⟩
      · rw [Nat.cast_one]
        exact hbal
      · show s.stats.allowed + 1 = S + 1 + G
        omega
  | tracked_drop b b' hb hc =>
      have hlast := consume_last b (h.tracked_last key b hb)
      have hrate := consume_rate b now
      have hbal := h.consume_worth hb
      rw [hc] at hlast hrate hbal
      have hwarned : ((0 : Nat) : ℚ) + (warned b' now).tokens ≤ worth config now b := by
        rw [Nat.cast_zero]
        exact hbal
      exact ⟨S + 0, G, h.tracked_update hb (warned b' now) hrate hlast 0 hwarned _ hallowed rfl⟩
  | global_drop g hk hc =>
      have hglobal := h.global_consume 0 (by rw [hc, Nat.cast_zero]; rfl)
      have hlast := consume_last s.inner.global h.global_last
      have hrate := consume_rate s.inner.global now
      rw [hc] at hglobal hlast hrate
      exact ⟨S, G, hallowed, h.cap, h.elapsed, le_trans h.elapsed (le_of_eq hlast.symm),
        le_of_eq hlast, hrate.trans h.global_rate, hglobal, h.tracked_rate, h.tracked_last,
        h.tracked_paid, h.promotions_paid⟩
  | rejected g cand hk hc hb => exact ⟨S, G + 1, h.global_pass hc hb⟩
  | counted g cand count hk hc hb hlt => exact ⟨S, G + 1, h.global_pass hc hb⟩
  | promoted g cand count hk hc hb hle =>
      refine ⟨S, G + 1, (h.global_pass hc hb).promoted hk hb.lookup_self hle _ ?_ ?_⟩
      · rw [count_eviction_eq]
        rfl
      · rw [count_eviction_eq]
        rfl

/-- **EVERY RUN** keeps them, up to its last instant. -/
theorem Ledger.after (h : Ledger config t₀ cur s S G) {cs : List Arrival}
    (hmono : (cur :: cs.map Prod.snd).Pairwise (· ≤ ·)) :
    ∃ last S' G', last ∈ cur :: cs.map Prod.snd
      ∧ Ledger config t₀ last (after config s cs) S' G' := by
  induction cs generalizing cur s S G with
  | nil => exact ⟨cur, S, G, List.mem_cons_self, h⟩
  | cons c cs ih =>
      obtain ⟨hle, hrest⟩ := List.pairwise_cons.mp hmono
      obtain ⟨S₁, G₁, h₁⟩ := (h.advance (hle c.2 List.mem_cons_self)).check (source_key config c)
      obtain ⟨last, S', G', hmem, h'⟩ := ih h₁ hrest
      exact ⟨last, S', G', List.mem_cons_of_mem _ hmem, h'⟩

/-- What the books add up to. -/
theorem Ledger.bound (h : Ledger config t₀ cur s S G) {D : ℚ} (hD : secs_since cur t₀ ≤ D) :
    (config.promotion_threshold.toNat : ℚ) * s.stats.allowed
      ≤ (config.promotion_threshold.toNat + config.per_source_burst.toNat)
          * (config.global_burst.toNat + config.global_rate_per_sec.toNat * D)
        + config.promotion_threshold.toNat * config.per_source_rate_per_sec.toNat
          * config.tracked_sources_capacity * D := by
  -- what the global bucket gave out ran into it
  have hG : (G : ℚ) ≤ config.global_burst.toNat + config.global_rate_per_sec.toNat * D := by
    have hpaid := h.global_paid
    have htokens := s.inner.global.tokens_nonneg
    have hsum := secs_since_add h.global_start h.global_last
    have hrest := secs_since_nonneg cur s.inner.global.last_refill
    have hinflow : (config.global_rate_per_sec.toNat : ℚ)
        * secs_since s.inner.global.last_refill t₀ ≤ config.global_rate_per_sec.toNat * D := by
      gcongr
      linarith
    linarith
  -- what the sources' buckets gave out was filled in by promotions or ran in
  have hS : (S : ℚ) ≤ config.per_source_burst.toNat * s.stats.promotions
      + config.per_source_rate_per_sec.toNat * config.tracked_sources_capacity * D := by
    have hpaid := h.tracked_paid
    have hworth := weight_nonneg (worth_nonneg config cur) s.inner.tracked.map
    have hinflow : (config.per_source_rate_per_sec.toNat : ℚ) * config.tracked_sources_capacity
        * secs_since cur t₀
        ≤ config.per_source_rate_per_sec.toNat * config.tracked_sources_capacity * D := by
      gcongr
    linarith
  -- and every promotion took that many packets through the global bucket
  have hprom : (config.promotion_threshold.toNat : ℚ) * s.stats.promotions ≤ G := by
    exact_mod_cast Nat.le_trans (Nat.le_add_right _ _) h.promotions_paid
  rw [h.allowed, Nat.cast_add]
  calc (config.promotion_threshold.toNat : ℚ) * (S + G)
      ≤ config.promotion_threshold.toNat * (config.per_source_burst.toNat * s.stats.promotions
          + config.per_source_rate_per_sec.toNat * config.tracked_sources_capacity * D + G) := by
        gcongr
    _ = config.per_source_burst.toNat * (config.promotion_threshold.toNat * s.stats.promotions)
          + config.promotion_threshold.toNat * G
          + config.promotion_threshold.toNat * config.per_source_rate_per_sec.toNat
            * config.tracked_sources_capacity * D := by
        ring
    _ ≤ config.per_source_burst.toNat * G + config.promotion_threshold.toNat * G
          + config.promotion_threshold.toNat * config.per_source_rate_per_sec.toNat
            * config.tracked_sources_capacity * D := by
        gcongr
    _ = (config.promotion_threshold.toNat + config.per_source_burst.toNat) * G
          + config.promotion_threshold.toNat * config.per_source_rate_per_sec.toNat
            * config.tracked_sources_capacity * D := by
        ring
    _ ≤ _ := by
        gcongr

/-! ## The bound -/

/-- What may pass within `D` seconds of a start, times the promotion threshold. -/
def allowance (config : RateLimitSection) (D : ℚ) : ℚ :=
  (config.promotion_threshold.toNat + config.per_source_burst.toNat)
      * (config.global_burst.toNat + config.global_rate_per_sec.toNat * D)
    + config.promotion_threshold.toNat * config.per_source_rate_per_sec.toNat
      * config.tracked_sources_capacity * D

/-- The default limiter tracks sources. -/
theorem default_capacity_pos : 0 < ({} : RateLimitSection).tracked_sources_capacity := by decide

/-- An enabled limiter that was built has a new locked state. -/
theorem enabled_of_with_clock {config : RateLimitSection} (hon : config.enabled = true)
    {t₀ : Instant} {l : RateLimiter} (h : RateLimiter.with_clock config t₀ = some l) :
    ∃ hcap : 0 < config.tracked_sources_capacity,
      l = { config, inner := some (Live.new config hcap t₀).inner,
            stats := (Live.new config hcap t₀).stats } := by
  by_cases hcap : 0 < config.tracked_sources_capacity
  · rw [with_clock_enabled config hon hcap] at h
    exact ⟨hcap, (Option.some.inj h).symm⟩
  · rw [RateLimiter.with_clock, if_neg (by rw [hon]; exact nofun), dif_neg hcap] at h
    cases h

/-- From a new state on, what passes within `D` seconds stays within the allowance. -/
theorem passes_within (config : RateLimitSection) (hcap : 0 < config.tracked_sources_capacity)
    {t₀ : Instant} {cs : List Arrival} (hmono : (t₀ :: cs.map Prod.snd).Pairwise (· ≤ ·)) {D : ℚ}
    (hD : 0 ≤ D) (hwithin : ∀ c ∈ cs, secs_since c.2 t₀ ≤ D) :
    (config.promotion_threshold.toNat : ℚ)
        * ((decisions config (Live.new config hcap t₀) cs).count .pass : Nat)
      ≤ allowance config D := by
  obtain ⟨last, S, G, hlast, hbooks⟩ := (ledger_new config hcap t₀).after hmono
  have hallowed := after_allowed config (Live.new config hcap t₀) cs
  rw [show (Live.new config hcap t₀).stats.allowed = 0 from rfl, Nat.zero_add] at hallowed
  rw [← hallowed]
  refine hbooks.bound ?_
  rcases List.mem_cons.mp hlast with rfl | hmem
  · rw [secs_since_self]
    exact hD
  · obtain ⟨c, hc, rfl⟩ := List.mem_map.mp hmem
    exact hwithin c hc

/-- **TOTAL THROUGHPUT**: however sources are chosen, promoted, evicted and promoted
    again, what passes within `D` seconds is bounded by the configured rates. -/
theorem throughput_bound (config : RateLimitSection) (hon : config.enabled = true)
    (hcap : 1 ≤ config.tracked_sources_capacity) (t₀ : Instant) (cs : List Arrival)
    (hmono : (t₀ :: cs.map Prod.snd).Pairwise (· ≤ ·)) (D : ℚ) (hD : 0 ≤ D)
    (hwithin : ∀ c ∈ cs, secs_since c.2 t₀ ≤ D) :
    ∃ l, RateLimiter.with_clock config t₀ = some l
      ∧ (config.promotion_threshold.toNat : ℚ) * ((l.run_checks cs).1.count .pass : Nat)
        ≤ (config.promotion_threshold.toNat + config.per_source_burst.toNat)
            * (config.global_burst.toNat + config.global_rate_per_sec.toNat * D)
          + config.promotion_threshold.toNat * config.per_source_rate_per_sec.toNat
            * config.tracked_sources_capacity * D := by
  refine ⟨_, with_clock_enabled config hon hcap t₀, ?_⟩
  rw [run_checks_enabled]
  exact passes_within config hcap hmono hD hwithin

/-- One tracked source, which two packets promote. -/
def crowdedSection : RateLimitSection where
  per_source_rate_per_sec := 1
  per_source_burst := 1
  tracked_sources_capacity := 1
  global_rate_per_sec := 1
  global_burst := 6
  promotion_threshold := 2

/-- A host, by its last octet. -/
def host (octet : UInt8) : FwknoxTypes.IpAddr := .v4 (Vector.replicate 4 octet)

/-- Two hosts in turn, within a second: each promotion evicts the other. -/
def rivals : List Arrival :=
  [(host 1, 0), (host 1, 0), (host 1, 0), (host 2, 0), (host 2, 0), (host 1, 1000000000),
    (host 1, 1000000000)]

/-- They are promoted three times, evicted twice, and stay within the bound. -/
theorem rivals_within_bound :
    ∃ l, RateLimiter.with_clock crowdedSection 0 = some l
      ∧ (l.run_checks rivals).2.stats.promotions = 3 ∧ (l.run_checks rivals).2.stats.evictions = 2
      ∧ (2 : ℚ) * ((l.run_checks rivals).1.count .pass : Nat)
        ≤ (2 + 1) * (6 + 1 * 1) + 2 * 1 * 1 * 1 := by
  have hwithin : ∀ c ∈ rivals, secs_since c.2 0 ≤ 1 := by
    intro c hc
    simp only [rivals, List.mem_cons, List.not_mem_nil, or_false] at hc
    rcases hc with rfl | rfl | rfl | rfl | rfl | rfl | rfl <;> norm_num [secs_since]
  obtain ⟨l, hl, hbound⟩ := throughput_bound crowdedSection rfl (by decide) 0 rivals (by decide) 1
    zero_le_one hwithin
  refine ⟨l, hl, ?_, ?_, hbound⟩
  · rw [with_clock_enabled crowdedSection rfl (by decide) 0] at hl
    cases hl
    decide +kernel
  · rw [with_clock_enabled crowdedSection rfl (by decide) 0] at hl
    cases hl
    decide +kernel

end FwknoxThroughput
