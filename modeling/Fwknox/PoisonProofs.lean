import Fwknox.ThroughputProofs

/-! # A poisoned lock — the limiter after a panic

    `lock_recovering` and `reset` of `limiter.rs`.  A holder of the lock that panics leaves the
    state as far as it got; the next packet finds the lock poisoned and starts over.  A torn
    state is any state with the capacities of the configuration, which nothing writes to.

    * `recovered_as_new` : from there on the limiter decides as a new one would.
    * `recoveries_bounded` : so each panic is worth one more allowance, and no more. -/

namespace FwknoxPoison

open LruMap FwknoxBucket FwknoxSourceKey FwknoxConfig FwknoxTypes FwknoxLimiter FwknoxThroughput
open RateLimiter (Arrival)

/-! ## The lock -/

/-- What the lock guards, and whether its last holder panicked. -/
structure Lock where
  inner : Inner
  poisoned : Bool

/-- The limiter with its lock; `none` when it is disabled. -/
structure Guarded where
  config : RateLimitSection
  lock : Option Lock
  stats : Stats

/-- A limiter as it was built. -/
def Guarded.new (l : RateLimiter) : Guarded :=
  ⟨l.config, l.inner.map fun inner => ⟨inner, false⟩, l.stats⟩

/-- The state of a new limiter, with the capacities of this one. -/
def reset (inner : Inner) (config : RateLimitSection) (now : Instant) : Inner :=
  { inner with
    tracked := LruCache.new inner.tracked.cap inner.tracked.cap_pos
    candidates := ∅
    global := TokenBucket.new config.global_rate_per_sec config.global_burst now
    last_global_drop_warn := none }

/-- The state behind the lock; a poisoned one is reset. -/
def lock_recovering (config : RateLimitSection) (lock : Lock) (now : Instant) : Inner :=
  if lock.poisoned then reset lock.inner config now else lock.inner

/-- `check`; the clock is read once more when the lock is recovered. -/
def Guarded.check (g : Guarded) (src_ip : IpAddr) (reset_at now : Instant) : Decision × Guarded :=
  match g.lock with
  | none => (.pass, { g with stats := g.stats.incr_allowed })
  | some lock =>
      let r := check_locked g.config ⟨lock_recovering g.config lock reset_at, g.stats⟩
        (SourceKey.from_ip src_ip g.config.ipv6_prefix_len) now
      (r.1, { g with lock := some ⟨r.2.inner, false⟩, stats := r.2.stats })

/-- The state a panic leaves: anything but other capacities. -/
structure Torn (config : RateLimitSection) where
  inner : Inner
  tracked_cap : inner.tracked.cap = config.tracked_sources_capacity
  max_candidates : inner.max_candidates = config.tracked_sources_capacity

/-- A packet, with the two readings of the clock, or a check that panics. -/
inductive Event (config : RateLimitSection) where
  | packet (src_ip : IpAddr) (reset_at now : Instant)
  | panics (torn : Torn config) (stats : Stats)

section Run

variable {config : RateLimitSection}

/-- A panic poisons the lock, if there is one. -/
def Guarded.panic (g : Guarded) (torn : Torn config) (stats : Stats) : Guarded :=
  { g with lock := g.lock.map fun _ => ⟨torn.inner, true⟩, stats }

/-- The decisions of a run; a check that panics makes none. -/
def run : List (Event config) → Guarded → List Decision
  | [], _ => []
  | .packet src_ip reset_at now :: es, g =>
      (g.check src_ip reset_at now).1 :: run es (g.check src_ip reset_at now).2
  | .panics torn stats :: es, g => run es (g.panic torn stats)

/-- How many packets of a run pass. -/
def passes (es : List (Event config)) (g : Guarded) : Nat := (run es g).count .pass

/-- How many of the events are panics. -/
def panics : List (Event config) → Nat
  | [] => 0
  | .packet _ _ _ :: es => panics es
  | .panics _ _ :: es => panics es + 1

/-- The readings of the clock. -/
def times : List (Event config) → List Instant
  | [] => []
  | .packet _ reset_at now :: es => reset_at :: now :: times es
  | .panics _ _ :: es => times es

/-! ## A recovered limiter -/

/-- A torn state resets to a new one. -/
theorem reset_torn (torn : Torn config) (hcap : 0 < config.tracked_sources_capacity)
    (now : Instant) : reset torn.inner config now = (Live.new config hcap now).inner := by
  obtain ⟨inner, hcap', hmax⟩ := torn
  rw [reset, Live.new, hmax]
  congr 1
  exact LruCache.ext' rfl hcap'

/-- The counters decide nothing. -/
theorem check_locked_stats (inner : Inner) (stats stats' : Stats) (key : SourceKey)
    (now : Instant) :
    (check_locked config ⟨inner, stats⟩ key now).1 = (check_locked config ⟨inner, stats'⟩ key now).1
      ∧ (check_locked config ⟨inner, stats⟩ key now).2.inner
        = (check_locked config ⟨inner, stats'⟩ key now).2.inner := by
  simp only [check_locked]
  cases inner.tracked.map.lookup key with
  | some bucket =>
      dsimp only
      rcases bucket.consume now with ⟨_ | _, bucket'⟩
      · exact ⟨rfl, rfl⟩
      · exact ⟨rfl, rfl⟩
  | none =>
      dsimp only
      rcases inner.global.consume now with ⟨_ | _, bucket⟩
      · refine ⟨rfl, ?_⟩
        simp only [candidate_tier]
        rcases bump { inner with global := bucket } key now with ⟨_ | count, inner'⟩
        · rfl
        · dsimp only
          by_cases h : config.promotion_threshold.toNat ≤ count
          · rw [if_pos h, if_pos h]
            rfl
          · rw [if_neg h, if_neg h]
      · exact ⟨rfl, rfl⟩

/-- The limiter that was new at `t` and has since checked `cs`. -/
def since (hcap : 0 < config.tracked_sources_capacity) (t : Instant) (cs : List Arrival)
    (stats : Stats) : Guarded :=
  ⟨config, some ⟨(after config (Live.new config hcap t) cs).inner, false⟩, stats⟩

/-- A limiter as a panic left it. -/
def torn_state (torn : Torn config) (stats : Stats) : Guarded :=
  ⟨config, some ⟨torn.inner, true⟩, stats⟩

variable (hcap : 0 < config.tracked_sources_capacity)

/-- A packet on a healthy lock is decided as without a lock. -/
theorem check_since (t : Instant) (cs : List Arrival) (stats : Stats) (src_ip : IpAddr)
    (reset_at now : Instant) :
    ∃ stats', (since hcap t cs stats).check src_ip reset_at now
      = ((check_locked config (after config (Live.new config hcap t) cs)
            (source_key config (src_ip, now)) now).1,
          since hcap t (cs ++ [(src_ip, now)]) stats') := by
  obtain ⟨hdec, hinner⟩ := @check_locked_stats config
    (after config (Live.new config hcap t) cs).inner stats
    (after config (Live.new config hcap t) cs).stats (source_key config (src_ip, now)) now
  refine ⟨((since hcap t cs stats).check src_ip reset_at now).2.stats, Prod.ext hdec ?_⟩
  dsimp only
  rw [since.eq_def hcap t (cs ++ [(src_ip, now)]), after_snoc, step, ← hinner]
  rfl

/-- The first packet after a panic finds a new limiter. -/
theorem check_torn (torn : Torn config) (stats : Stats) (src_ip : IpAddr)
    (reset_at now : Instant) :
    (torn_state torn stats).check src_ip reset_at now
      = (since hcap reset_at [] stats).check src_ip reset_at now := by
  have hreset := reset_torn torn hcap reset_at
  simp only [Guarded.check, torn_state, since, lock_recovering, if_true, hreset]
  rfl

/-- The last decision of a longer run. -/
theorem decisions_snoc (s : Live) (cs : List Arrival) (c : Arrival) :
    decisions config s (cs ++ [c])
      = decisions config s cs ++ [(check_locked config (after config s cs) (source_key config c)
          c.2).1] := by
  induction cs generalizing s with
  | nil => rfl
  | cons c' cs ih =>
      rw [List.cons_append, decisions, decisions, ih, List.cons_append]
      rfl

/-! ### Between two panics -/

/-- The packets of a stretch without panics. -/
def packets (config : RateLimitSection) : List (IpAddr × Instant × Instant) → List (Event config)
  | [] => []
  | (src_ip, reset_at, now) :: ps => .packet src_ip reset_at now :: packets config ps

/-- The same packets as a limiter without a lock meets them. -/
def arrivals (ps : List (IpAddr × Instant × Instant)) : List Arrival :=
  ps.map fun p => (p.1, p.2.2)

/-- A packet on a healthy lock joins those checked before it. -/
theorem run_packet (t : Instant) (cs : List Arrival) (stats : Stats) (src_ip : IpAddr)
    (reset_at now : Instant) (es : List (Event config)) :
    ∃ stats', decisions config (Live.new config hcap t) cs
        ++ run (.packet src_ip reset_at now :: es) (since hcap t cs stats)
      = decisions config (Live.new config hcap t) (cs ++ [(src_ip, now)])
        ++ run es (since hcap t (cs ++ [(src_ip, now)]) stats') := by
  obtain ⟨stats', hcheck⟩ := check_since hcap t cs stats src_ip reset_at now
  refine ⟨stats', ?_⟩
  rw [decisions_snoc, List.append_assoc, run, hcheck]
  rfl

/-- So is a stretch of packets. -/
theorem run_since (t : Instant) (cs : List Arrival) (stats : Stats)
    (ps : List (IpAddr × Instant × Instant)) :
    decisions config (Live.new config hcap t) cs ++ run (packets config ps) (since hcap t cs stats)
      = decisions config (Live.new config hcap t) (cs ++ arrivals ps) := by
  induction ps generalizing cs stats with
  | nil =>
      rw [arrivals, List.map_nil, List.append_nil]
      exact List.append_nil _
  | cons p ps ih =>
      obtain ⟨src_ip, reset_at, now⟩ := p
      obtain ⟨stats', hpacket⟩ :=
        run_packet hcap t cs stats src_ip reset_at now (packets config ps)
      rw [packets, hpacket, ih, List.append_assoc]
      rfl

omit hcap in
/-- **A RECOVERED LIMITER IS A NEW ONE**: whatever the panic left, the first packet after it clears
    the poison, and it and the packets after it are decided as by a limiter built at the instant
    the lock was recovered. -/
theorem recovered_as_new (hon : config.enabled = true) (torn : Torn config) (stats : Stats)
    (src_ip : IpAddr) (reset_at now : Instant) (ps : List (IpAddr × Instant × Instant)) :
    ((torn_state torn stats).check src_ip reset_at now).2.lock.map Lock.poisoned = some false
      ∧ ∃ l, RateLimiter.with_clock config reset_at = some l
        ∧ run (packets config ((src_ip, reset_at, now) :: ps)) (torn_state torn stats)
          = (l.run_checks ((src_ip, now) :: arrivals ps)).1 := by
  have hcap : 0 < config.tracked_sources_capacity :=
    torn.tracked_cap ▸ torn.inner.tracked.cap_pos
  refine ⟨rfl, _, with_clock_enabled config hon hcap reset_at, ?_⟩
  rw [run_checks_enabled, packets, run, check_torn hcap]
  exact run_since hcap reset_at [] stats ((src_ip, reset_at, now) :: ps)

/-- A panic between the two halves of a warning. -/
def sampleTorn : Torn {} where
  inner := { (Live.new {} default_capacity_pos 0).inner with last_global_drop_warn := some 7 }
  tracked_cap := rfl
  max_candidates := rfl

/-- Three packets of two hosts after it. -/
theorem sample_recovered :
    ((torn_state sampleTorn {}).check (host 10) 5 6).2.lock.map Lock.poisoned = some false
      ∧ ∃ l, RateLimiter.with_clock {} 5 = some l
        ∧ run (packets {} [(host 10, 5, 6), (host 11, 7, 7), (host 10, 8, 9)])
            (torn_state sampleTorn {})
          = (l.run_checks [(host 10, 6), (host 11, 7), (host 10, 9)]).1 :=
  recovered_as_new rfl sampleTorn {} (host 10) 5 6 [(host 11, 7, 7), (host 10, 8, 9)]

/-! ## Any number of panics -/

/-- An allowance is not negative. -/
theorem allowance_nonneg {D : ℚ} (hD : 0 ≤ D) : 0 ≤ allowance config D := by
  rw [allowance]
  positivity

/-- A later start is nearer. -/
theorem secs_since_anti {x a b : Instant} (h : a ≤ b) : secs_since x b ≤ secs_since x a := by
  simp only [secs_since]
  gcongr

/-- The instants come in order and within `D` seconds of the start. -/
structure Within (t₀ : Instant) (D : ℚ) (xs : List Instant) : Prop where
  mono : (t₀ :: xs).Pairwise (· ≤ ·)
  secs : ∀ x ∈ xs, secs_since x t₀ ≤ D

/-- Fewer instants come in order too. -/
theorem Within.sublist {t₀ : Instant} {D : ℚ} {xs ys : List Instant} (h : Within t₀ D xs)
    (hsub : ys.Sublist xs) : Within t₀ D ys :=
  ⟨h.mono.sublist (hsub.cons_cons t₀), fun x hx => h.secs x (hsub.subset hx)⟩

/-- What passed since the last recovery. -/
theorem passed_since {t₀ t : Instant} {cs : List Arrival} {D : ℚ} (hD : 0 ≤ D)
    (h : Within t₀ D (t :: cs.map Prod.snd)) :
    (config.promotion_threshold.toNat : ℚ)
        * ((decisions config (Live.new config hcap t) cs).count .pass : Nat)
      ≤ allowance config D := by
  obtain ⟨hfirst, hrest⟩ := List.pairwise_cons.mp h.mono
  refine passes_within config hcap hrest hD ?_
  intro c hc
  exact le_trans (secs_since_anti (hfirst t List.mem_cons_self))
    (h.secs _ (List.mem_cons_of_mem _ (List.mem_map_of_mem hc)))

/-- The same, counted. -/
theorem passes_packet (t : Instant) (cs : List Arrival) (stats : Stats) (src_ip : IpAddr)
    (reset_at now : Instant) (es : List (Event config)) :
    ∃ stats', (decisions config (Live.new config hcap t) cs).count .pass
        + passes (.packet src_ip reset_at now :: es) (since hcap t cs stats)
      = (decisions config (Live.new config hcap t) (cs ++ [(src_ip, now)])).count .pass
        + passes es (since hcap t (cs ++ [(src_ip, now)]) stats') := by
  obtain ⟨stats', hpacket⟩ := run_packet hcap t cs stats src_ip reset_at now es
  exact ⟨stats', by rw [passes, passes, ← List.count_append, ← List.count_append, hpacket]⟩

/-- The packets since the last recovery and those to come: by induction on the events, from a
    healthy lock and from a poisoned one. -/
theorem passes_since {t₀ : Instant} {D : ℚ} (hD : 0 ≤ D) (es : List (Event config)) :
    (∀ t cs stats, Within t₀ D (t :: (cs.map Prod.snd ++ times es)) →
        (config.promotion_threshold.toNat : ℚ)
            * (((decisions config (Live.new config hcap t) cs).count .pass
                + passes es (since hcap t cs stats) : Nat) : ℚ)
          ≤ (panics es + 1 : Nat) * allowance config D)
      ∧ ∀ (torn : Torn config) stats, Within t₀ D (times es) →
        (config.promotion_threshold.toNat : ℚ) * passes es (torn_state torn stats)
          ≤ (panics es + 1 : Nat) * allowance config D := by
  have hA : 0 ≤ allowance config D := allowance_nonneg hD
  induction es with
  | nil =>
      constructor
      · intro t cs stats h
        rw [times, List.append_nil] at h
        rw [panics, Nat.zero_add, Nat.cast_one, one_mul]
        exact passed_since hcap hD h
      · intro torn stats _
        show _ * ((0 : Nat) : ℚ) ≤ _
        rw [Nat.cast_zero, mul_zero]
        exact mul_nonneg (Nat.cast_nonneg _) hA
  | cons e es ih =>
      obtain ⟨hclean, htorn⟩ := ih
      cases e with
      | packet src_ip reset_at now =>
          constructor
          · intro t cs stats h
            obtain ⟨stats', hpasses⟩ := passes_packet hcap t cs stats src_ip reset_at now es
            rw [hpasses]
            refine hclean t _ stats' (h.sublist ?_)
            rw [List.map_append, List.append_assoc]
            exact (List.Sublist.append_left (List.sublist_cons_self _ _) _).cons_cons t
          · intro torn stats h
            -- the recovered limiter, from its first packet on
            obtain ⟨stats', hpasses⟩ := passes_packet hcap reset_at [] stats src_ip reset_at now es
            rw [decisions, List.count_nil, Nat.zero_add] at hpasses
            rw [passes, run, check_torn hcap]
            rw [passes, run] at hpasses
            rw [hpasses]
            exact hclean reset_at [(src_ip, now)] stats' h
      | panics torn' stats' =>
          constructor
          · intro t cs stats h
            have hpast := passed_since hcap hD
              (h.sublist ((List.sublist_append_left (cs.map Prod.snd) (times es)).cons_cons t))
            have hrest := htorn torn' stats'
              (h.sublist ((List.sublist_append_right (cs.map Prod.snd) (times es)).cons t))
            rw [panics, Nat.cast_add, Nat.cast_add, mul_add, add_mul, Nat.cast_one, one_mul,
              add_comm]
            exact add_le_add hrest hpast
          · intro torn stats h
            refine le_trans (htorn torn' stats' h) ?_
            rw [panics]
            gcongr
            omega

omit hcap in
/-- **EACH PANIC IS WORTH ONE ALLOWANCE**: however often a check panics, and whatever state it
    leaves, what passes within `D` seconds stays within the allowance of a new limiter, taken once
    and once more for every panic. -/
theorem recoveries_bounded (hon : config.enabled = true) {t₀ : Instant} {l : RateLimiter}
    (hl : RateLimiter.with_clock config t₀ = some l) {es : List (Event config)}
    (hmono : (t₀ :: times es).Pairwise (· ≤ ·)) {D : ℚ} (hD : 0 ≤ D)
    (hwithin : ∀ x ∈ times es, secs_since x t₀ ≤ D) :
    (config.promotion_threshold.toNat : ℚ) * passes es (Guarded.new l)
      ≤ (panics es + 1 : Nat) * allowance config D := by
  obtain ⟨hcap, rfl⟩ := enabled_of_with_clock hon hl
  have hall : Within t₀ D (t₀ :: times es) := by
    constructor
    · refine List.pairwise_cons.mpr ⟨?_, hmono⟩
      intro x hx
      rcases List.mem_cons.mp hx with rfl | hx
      · exact Nat.le_refl _
      · exact (List.pairwise_cons.mp hmono).1 x hx
    · intro x hx
      rcases List.mem_cons.mp hx with rfl | hx
      · rw [secs_since_self]
        exact hD
      · exact hwithin x hx
  have hbound := (passes_since hcap hD es).1 t₀ [] (Live.new config hcap t₀).stats hall
  rw [decisions, List.count_nil, Nat.zero_add] at hbound
  exact hbound

/-- A packet before and a packet after a panic. -/
def sampleEvents : List (Event {}) :=
  [.packet (.v4 (Vector.replicate 4 10)) 0 0, .panics sampleTorn {},
    .packet (.v4 (Vector.replicate 4 10)) 5 6]

/-- One panic, two allowances. -/
theorem sample_recoveries_bounded :
    panics sampleEvents = 1
      ∧ (5 : ℚ) * passes sampleEvents
            (Guarded.new ⟨{}, some (Live.new {} default_capacity_pos 0).inner, {}⟩)
        ≤ (2 : Nat) * allowance {} 1 := by
  refine ⟨rfl, @recoveries_bounded {} rfl 0 _ rfl sampleEvents (by decide) 1 zero_le_one ?_⟩
  have hlast : ∀ x ∈ times sampleEvents, x ≤ 1000000000 := by decide
  intro x hx
  rw [secs_since, Nat.sub_zero]
  have hx := hlast x hx
  rw [div_le_one (by norm_num)]
  exact_mod_cast hx

end Run

end FwknoxPoison
