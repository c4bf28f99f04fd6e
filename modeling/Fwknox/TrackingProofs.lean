import Fwknox.LimiterProofs

/-! # Tracked sources — judged alone, forgotten last

    Two things a tracked source can rely on, whatever the others send.  Its packets are
    decided by its own bucket, as if no other source existed; and it stays tracked until
    as many other sources as the map holds have been checked there or promoted since its
    own last packet.

    Route: `step_tier` reduces a packet to what it does to the tracked map, one of hit,
    miss and promotion.  From it `Isolated` follows one key's bucket through everybody
    else's packets, and `LastTouched` the order of the map, which is the order of the
    last checks and promotions. -/

namespace FwknoxTracking

open LruMap FwknoxBucket FwknoxSourceKey FwknoxConfig FwknoxLimiter
open FwknoxLimiter.RateLimiter (Arrival)

variable (config : RateLimitSection)

/-! ## What a packet does to the tracked map -/

/-- The packet brings its key into the tracked map. -/
def Promotes (s : Live) (c : Arrival) : Prop :=
  source_key config c ∉ s.inner.tracked.map
    ∧ source_key config c ∈ (step config s c).inner.tracked.map

/-- The packet is checked on the tracked tier, or promotes its key. -/
def Touches (s : Live) (c : Arrival) : Prop :=
  source_key config c ∈ s.inner.tracked.map ∨ Promotes config s c

instance (s : Live) (c : Arrival) : Decidable (Promotes config s c) :=
  inferInstanceAs (Decidable (_ ∧ _))

instance (s : Live) (c : Arrival) : Decidable (Touches config s c) :=
  inferInstanceAs (Decidable (_ ∨ _))

/-- A bucket's answer as the limiter reports it. -/
def per_source : BucketDecision → Decision
  | .pass => .pass
  | .drop => .drop .per_source_exhausted

/-- The bucket a key is promoted with. -/
def new_bucket (now : Instant) : TokenBucket :=
  TokenBucket.new config.per_source_rate_per_sec config.per_source_burst now

/-- Hit, miss or promotion. -/
inductive Tier (s : Live) (c : Arrival) : Decision → Live → Prop
  | hit (b : TokenBucket) (log : Option Instant) (s' : Live)
      (h : s.inner.tracked.map.lookup (source_key config c) = some b)
      (ht : s'.inner.tracked = s.inner.tracked.update (source_key config c)
        (fun _ => (b.consume c.2).2.relogged log))
      (hg : s'.inner.global = s.inner.global) :
      Tier s c (per_source (b.consume c.2).1) s'
  | miss (d : Decision) (s' : Live) (h : source_key config c ∉ s.inner.tracked.map)
      (ht : s'.inner.tracked = s.inner.tracked) : Tier s c d s'
  | promoted (d : Decision) (s' : Live) (h : source_key config c ∉ s.inner.tracked.map)
      (ht : s'.inner.tracked
        = s.inner.tracked.put (source_key config c) (new_bucket config c.2)) : Tier s c d s'

theorem step_tier (s : Live) (c : Arrival) :
    Tier config s c (check_locked config s (source_key config c) c.2).1 (step config s c) := by
  have hchecked := check_cases config s (source_key config c) c.2
  simp only [step]
  generalize (check_locked config s (source_key config c) c.2).2 = s',
    (check_locked config s (source_key config c) c.2).1 = d at hchecked ⊢
  cases hchecked with
  | tracked_pass b b' h hc =>
      have hd : Decision.pass = per_source (b.consume c.2).1 := by rw [hc]; rfl
      rw [hd]
      exact .hit b b'.last_warn_log _ h (by rw [hc]; rfl) rfl
  | tracked_drop b b' h hc =>
      have hd : Decision.drop .per_source_exhausted = per_source (b.consume c.2).1 := by
        rw [hc]; rfl
      rw [hd]
      exact .hit b (should_warn_log b'.last_warn_log c.2).2 _ h (by rw [hc]; rfl) rfl
  | global_drop g h hc => exact .miss _ _ h rfl
  | rejected g cand h hc hb => exact .miss _ _ h rfl
  | counted g cand count h hc hb hlt => exact .miss _ _ h rfl
  | promoted g cand count h hc hb hle => exact .promoted _ _ h rfl

/-! ## Judged alone -/

/-- The decisions on the packets of `k` along a run. -/
def own_decisions (k : SourceKey) (s : Live) (cs : List Arrival) : List Decision :=
  ((cs.zip (decisions config s cs)).filter (fun p => decide (source_key config p.1 = k))).map
    Prod.snd

/-- The instants of the packets of `k`. -/
def own_instants (k : SourceKey) (cs : List Arrival) : List Instant :=
  (cs.filter (fun c => decide (source_key config c = k))).map Prod.snd

/-- `k` is tracked when each packet of the run arrives. -/
def TrackedThrough (k : SourceKey) : Live → List Arrival → Prop
  | _, [] => True
  | s, c :: cs => k ∈ s.inner.tracked.map ∧ TrackedThrough k (step config s c) cs

instance decidableTrackedThrough (k : SourceKey) :
    (s : Live) → (cs : List Arrival) → Decidable (TrackedThrough config k s cs)
  | _, [] => .isTrue trivial
  | s, c :: cs =>
      have := decidableTrackedThrough k (step config s c) cs
      inferInstanceAs (Decidable (_ ∧ _))

/-- The tracked bucket of `k` is `b`, up to the note of its last warning. -/
def Isolated (k : SourceKey) (b : TokenBucket) (s : Live) : Prop :=
  ∃ log, s.inner.tracked.map.lookup k = some (b.relogged log)

variable {config} {k : SourceKey} {b : TokenBucket} {s : Live} {c : Arrival}

/-- The key's own packet: its bucket decides and moves on, and the global bucket does
    not. -/
theorem Isolated.own (h : Isolated k b s) (hk : source_key config c = k) :
    (check_locked config s (source_key config c) c.2).1 = per_source (b.consume c.2).1
      ∧ Isolated k (b.consume c.2).2 (step config s c)
      ∧ (step config s c).inner.global = s.inner.global := by
  obtain ⟨log, hlook⟩ := h
  have hmem : source_key config c ∈ s.inner.tracked.map := hk ▸ mem_iff_lookup.mpr ⟨_, hlook⟩
  have htier := step_tier config s c
  generalize (check_locked config s (source_key config c) c.2).1 = d, step config s c = s'
    at htier ⊢
  cases htier with
  | hit b₁ log₁ _ hold ht hg =>
      rw [hk] at hold ht
      obtain rfl : b₁ = b.relogged log := Option.some.inj (hold.symm.trans hlook)
      rw [consume_relogged] at ht ⊢
      refine ⟨rfl, ⟨log₁, ?_⟩, hg⟩
      rw [ht, LruCache.update_map _ hold, AList.lookup_insert]
      rfl
  | miss _ _ hnot ht => exact absurd hmem hnot
  | promoted _ _ hnot ht => exact absurd hmem hnot

/-- Another key's packet: the bucket stays as it is as long as the key stays. -/
theorem Isolated.other (h : Isolated k b s) (hk : source_key config c ≠ k)
    (hstay : k ∈ (step config s c).inner.tracked.map) : Isolated k b (step config s c) := by
  obtain ⟨log, hlook⟩ := h
  have htier := step_tier config s c
  generalize (check_locked config s (source_key config c) c.2).1 = d, step config s c = s'
    at htier hstay ⊢
  refine ⟨log, ?_⟩
  cases htier with
  | hit b₁ log₁ _ hold ht hg =>
      rw [ht, LruCache.update_map _ hold, AList.lookup_insert_ne (Ne.symm hk)]
      exact hlook
  | miss _ _ hnot ht =>
      rw [ht]
      exact hlook
  | promoted _ _ hnot ht =>
      rw [ht] at hstay ⊢
      obtain ⟨v, hv⟩ := mem_iff_lookup.mp hstay
      rcases LruCache.lookup_put_cases hv with ⟨heq, -⟩ | ⟨-, hold⟩
      · exact absurd heq.symm hk
      · rw [hv, ← hold]
        exact hlook

theorem own_cons_of_eq (s : Live) (hk : source_key config c = k) (cs : List Arrival) :
    own_decisions config k s (c :: cs)
        = (check_locked config s (source_key config c) c.2).1
          :: own_decisions config k (step config s c) cs
      ∧ own_instants config k (c :: cs) = c.2 :: own_instants config k cs := by
  constructor
  · simp only [own_decisions, decisions, List.zip_cons_cons]
    rw [List.filter_cons_of_pos (by simpa using hk)]
    rfl
  · rw [own_instants, List.filter_cons_of_pos (by simpa using hk)]
    rfl

theorem own_cons_of_ne (s : Live) (hk : source_key config c ≠ k) (cs : List Arrival) :
    own_decisions config k s (c :: cs) = own_decisions config k (step config s c) cs
      ∧ own_instants config k (c :: cs) = own_instants config k cs := by
  constructor
  · simp only [own_decisions, decisions, List.zip_cons_cons]
    rw [List.filter_cons_of_neg (by simpa using hk)]
  · rw [own_instants, List.filter_cons_of_neg (by simpa using hk)]
    rfl

/-- Along a run, as long as the key is tracked. -/
theorem isolated_run (cs : List Arrival) (h : k ∈ s.inner.tracked.map → Isolated k b s)
    (htracked : TrackedThrough config k s cs) :
    own_decisions config k s cs = (b.consume_all (own_instants config k cs)).map per_source := by
  induction cs generalizing b s with
  | nil => rfl
  | cons c cs ih =>
      obtain ⟨hin, hrest⟩ := htracked
      have hiso := h hin
      by_cases hk : source_key config c = k
      · obtain ⟨hd, hnext, -⟩ := hiso.own hk
        obtain ⟨hcons, hinst⟩ := own_cons_of_eq s hk cs
        rw [hcons, hinst, hd, ih (fun _ => hnext) hrest]
        rfl
      · obtain ⟨hcons, hinst⟩ := own_cons_of_ne s hk cs
        rw [hcons, hinst]
        exact ih (fun hstay => hiso.other hk hstay) hrest

/-- A prefix of such a run leads to a state where the key is tracked. -/
theorem TrackedThrough.mem {ys zs : List Arrival} {d : Arrival}
    (h : TrackedThrough config k s (ys ++ d :: zs)) :
    k ∈ (after config s ys).inner.tracked.map := by
  induction ys generalizing s with
  | nil => exact h.1
  | cons c ys ih => exact ih h.2

/-- A promotion starts a new bucket. -/
theorem Promotes.isolated (h : Promotes config s c) :
    Isolated (source_key config c) (new_bucket config c.2) (step config s c) := by
  obtain ⟨hnot, hin⟩ := h
  have htier := step_tier config s c
  generalize (check_locked config s (source_key config c) c.2).1 = d, step config s c = s'
    at htier hin ⊢
  cases htier with
  | hit b₁ log₁ _ hold ht hg => exact absurd (mem_iff_lookup.mpr ⟨b₁, hold⟩) hnot
  | miss _ _ _ ht => exact absurd (ht ▸ hin) hnot
  | promoted _ _ _ ht =>
      refine ⟨none, ?_⟩
      rw [ht]
      exact LruCache.lookup_put_self _ _ _

/-- **JUDGED ALONE**: from the packet that promotes a key on, through any packets of any
    other keys, for as long as the key is tracked, its packets are decided as by a lone
    bucket created at the promotion and asked at their instants; and none of them touches
    the global bucket. -/
theorem tracked_source_judged_alone (config : RateLimitSection) (s : Live) (c : Arrival)
    (hpromotes : Promotes config s c) (cs : List Arrival)
    (htracked : TrackedThrough config (source_key config c) (step config s c) cs) :
    own_decisions config (source_key config c) (step config s c) cs
        = ((TokenBucket.new config.per_source_rate_per_sec config.per_source_burst c.2).consume_all
            (own_instants config (source_key config c) cs)).map per_source
      ∧ ∀ ys d zs, cs = ys ++ d :: zs → source_key config d = source_key config c →
          (after config (step config s c) (ys ++ [d])).inner.global
            = (after config (step config s c) ys).inner.global := by
  refine ⟨isolated_run cs (fun _ => hpromotes.isolated) htracked, ?_⟩
  rintro ys d zs rfl hd
  obtain ⟨v, hv⟩ := mem_iff_lookup.mp htracked.mem
  have hiso : Isolated (source_key config c) v (after config (step config s c) ys) :=
    ⟨v.last_warn_log, hv⟩
  rw [after_snoc]
  exact (hiso.own hd).2.2

/-- Two sources with a burst of one and a promotion at the first packet. -/
def tinyConfig (capacity : Nat) : RateLimitSection :=
  { per_source_rate_per_sec := 1, per_source_burst := 1, promotion_threshold := 1,
    tracked_sources_capacity := capacity }

/-- A packet of the host 192.0.2.`host`. -/
def from_host (host : UInt8) (now : Instant) : Arrival := (.v4 #v[192, 0, 2, host], now)

/-- Promoted at 0, a source passes once, is dropped half a second later, and passes again
    after a second; another one is promoted in between. -/
theorem lone_bucket_decides :
    Promotes (tinyConfig 2) (Live.new (tinyConfig 2) (by decide) 0) (from_host 1 0)
      ∧ own_decisions (tinyConfig 2) (source_key (tinyConfig 2) (from_host 1 0))
          (step (tinyConfig 2) (Live.new (tinyConfig 2) (by decide) 0) (from_host 1 0))
          [from_host 1 0, from_host 2 0, from_host 1 500000000, from_host 1 1000000000]
        = [.pass, .drop .per_source_exhausted, .pass] := by
  have hpromotes : Promotes (tinyConfig 2) (Live.new (tinyConfig 2) (by decide) 0)
      (from_host 1 0) := by decide +kernel
  refine ⟨hpromotes, ?_⟩
  rw [(tracked_source_judged_alone (tinyConfig 2) _ _ hpromotes _ (by decide +kernel)).1]
  decide +kernel

/-! ## Forgotten last -/

variable (config) in
/-- The keys checked on the tracked tier or promoted along a run. -/
def touched : Live → List Arrival → List SourceKey
  | _, [] => []
  | s, c :: cs =>
      (if Touches config s c then [source_key config c] else []) ++ touched (step config s c) cs

theorem touched_snoc (config : RateLimitSection) (s : Live) (cs : List Arrival) (c : Arrival) :
    touched config s (cs ++ [c])
      = touched config s cs
        ++ (if Touches config (after config s cs) c then [source_key config c] else []) := by
  induction cs generalizing s with
  | nil => exact List.append_nil _
  | cons d cs ih =>
      show _ ++ touched config (step config s d) (cs ++ [c]) = _
      rw [ih (step config s d), ← List.append_assoc]
      rfl

/-- **THE ORDER OF THE MAP**: a packet that touches its key brings it to the front; any
    other leaves the map as it is. -/
theorem step_keys (config : RateLimitSection) (s : Live) (c : Arrival) :
    (Touches config s c
        ∧ (step config s c).inner.tracked.map.keys
          = refresh s.inner.tracked.cap s.inner.tracked.map.keys (source_key config c))
      ∨ (¬Touches config s c
          ∧ (step config s c).inner.tracked.map.keys = s.inner.tracked.map.keys) := by
  have htier := step_tier config s c
  simp only [Touches, Promotes]
  generalize (check_locked config s (source_key config c) c.2).1 = d, step config s c = s'
    at htier ⊢
  cases htier with
  | hit b log _ hold ht hg =>
      have hmem : source_key config c ∈ s.inner.tracked.map := mem_iff_lookup.mpr ⟨b, hold⟩
      refine .inl ⟨.inl hmem, ?_⟩
      rw [ht, LruCache.update_map _ hold]
      exact keys_insert_of_mem _ hmem
  | miss _ _ hnot ht =>
      rw [ht]
      refine .inr ⟨?_, rfl⟩
      rintro (hin | ⟨-, hin⟩)
      · exact hnot hin
      · exact hnot hin
  | promoted _ _ hnot ht =>
      rw [ht]
      exact .inl ⟨.inr ⟨hnot, LruCache.mem_put_self _ _ _⟩, keys_put_refresh _ hnot⟩

/-- No packet of `k` came since the state `s`, and whatever is in front of it in the map
    was touched since. -/
structure Since (config : RateLimitSection) (k : SourceKey) (s : Live) (zs : List Arrival) :
    Prop where
  others : ∀ e ∈ zs, source_key config e ≠ k
  behind : Behind k (touched config s zs) (after config s zs).inner.tracked.map.keys

/-- The key's own check or promotion puts it in front. -/
theorem since_nil (h : Touches config s c) :
    Since config (source_key config c) (step config s c) [] := by
  refine ⟨fun e he => absurd he List.not_mem_nil, ?_⟩
  rcases step_keys config s c with ⟨-, hkeys⟩ | ⟨hnot, -⟩
  · show Behind _ [] (step config s c).inner.tracked.map.keys
    rw [hkeys]
    exact behind_front (LruCache.cap_pos _) _
  · exact absurd h hnot

/-- Another key's packet: `k` keeps its place, or that packet promotes its key and as many
    others as fit have been touched since. -/
theorem Since.snoc {zs : List Arrival} (h : Since config k s zs) (hk : source_key config c ≠ k) :
    Since config k s (zs ++ [c])
      ∨ (k ∉ (after config s (zs ++ [c])).inner.tracked.map
          ∧ Promotes config (after config s zs) c
          ∧ (after config s zs).inner.tracked.cap
            ≤ ((touched config s (zs ++ [c])).toFinset.erase k).card) := by
  have hothers : ∀ e ∈ zs ++ [c], source_key config e ≠ k := by
    intro e he
    rcases List.mem_append.mp he with hold | hnew
    · exact h.others e hold
    · rw [List.mem_singleton.mp hnew]
      exact hk
  have htouched := touched_snoc config s zs c
  have hafter := after_snoc config s zs c
  -- the packet touches a bucket, or the order stays
  rcases step_keys config (after config s zs) c with ⟨htouch, hkeys⟩ | ⟨hidle, hkeys⟩
  · rw [if_pos htouch] at htouched
    have hperm : (source_key config c :: touched config s zs).Perm
        (touched config s zs ++ [source_key config c]) :=
      (List.perm_append_singleton _ _).symm
    rcases h.behind.push (after config s zs).inner.tracked.map.keys_nodup (length_keys_le _) hk
      with hin | ⟨hout, hnew, hcard⟩
    · refine .inl ⟨hothers, ?_⟩
      rw [hafter, hkeys, htouched]
      exact hin.mono fun x hx => hperm.mem_iff.mp hx
    · right
      refine ⟨?_, ?_, ?_⟩
      · rw [hafter]
        intro hmem
        exact hout (hkeys ▸ AList.mem_keys.mp hmem)
      · exact htouch.resolve_left fun hin => hnew (AList.mem_keys.mp hin)
      · rw [htouched, ← List.toFinset_eq_of_perm _ _ hperm]
        exact hcard
  · rw [if_neg hidle, List.append_nil] at htouched
    refine .inl ⟨hothers, ?_⟩
    rw [hafter, hkeys, htouched]
    exact h.behind

/-- `k` was last checked or promoted with the packet `d`, after `ys` and before `zs`. -/
structure LastTouched (config : RateLimitSection) (s : Live) (k : SourceKey)
    (ys : List Arrival) (d : Arrival) (zs : List Arrival) : Prop where
  own : source_key config d = k
  touches : Touches config (after config s ys) d
  since : Since config k (after config s (ys ++ [d])) zs

theorem after_append (s : Live) (ys zs : List Arrival) :
    after config s (ys ++ zs) = after config (after config s ys) zs := List.foldl_append

theorem touches_of_mem_step (h : source_key config c ∈ (step config s c).inner.tracked.map) :
    Touches config s c := by
  by_cases hin : source_key config c ∈ s.inner.tracked.map
  · exact .inl hin
  · exact .inr ⟨hin, h⟩

/-- A key that is tracked after another key's packet was tracked before. -/
theorem mem_of_mem_step (hk : source_key config c ≠ k)
    (h : k ∈ (step config s c).inner.tracked.map) : k ∈ s.inner.tracked.map := by
  rw [AList.mem_keys] at h ⊢
  rcases step_keys config s c with ⟨-, hkeys⟩ | ⟨-, hkeys⟩
  · rw [hkeys] at h
    rcases List.mem_cons.mp (List.mem_of_mem_take h) with heq | hold
    · exact absurd heq.symm hk
    · exact List.mem_of_mem_erase hold
  · exact hkeys ▸ h

/-- **EVERY TRACKED KEY** of a run has a last check or promotion. -/
theorem exists_last_touched (hempty : s.inner.tracked.map = ∅) (cs : List Arrival)
    (h : k ∈ (after config s cs).inner.tracked.map) :
    ∃ ys d zs, cs = ys ++ d :: zs ∧ LastTouched config s k ys d zs := by
  induction cs using List.reverseRecOn with
  | nil =>
      have hnil : k ∈ s.inner.tracked.map := h
      rw [hempty] at hnil
      exact absurd hnil (AList.notMem_empty k)
  | append_singleton cs c ih =>
      rw [after_snoc] at h
      by_cases hk : source_key config c = k
      · subst hk
        have htouch := touches_of_mem_step h
        refine ⟨cs, c, [], rfl, rfl, htouch, ?_⟩
        rw [after_snoc]
        exact since_nil htouch
      · obtain ⟨ys, d, zs, rfl, hlast⟩ := ih (mem_of_mem_step hk h)
        rcases hlast.since.snoc hk with hsince | ⟨hout, -⟩
        · exact ⟨ys, d, zs ++ [c], by simp, hlast.own, hlast.touches, hsince⟩
        · refine absurd ?_ hout
          rw [after_snoc, ← after_append, List.append_assoc]
          exact h

/-- The capacity never changes. -/
theorem after_cap (s : Live) (cs : List Arrival) :
    (after config s cs).inner.tracked.cap = s.inner.tracked.cap := by
  induction cs using List.reverseRecOn with
  | nil => rfl
  | append_singleton cs c ih =>
      rw [after_snoc, ← ih]
      have htier := step_tier config (after config s cs) c
      generalize (check_locked config (after config s cs) (source_key config c) c.2).1 = d,
        step config (after config s cs) c = s' at htier ⊢
      cases htier with
      | hit b log _ hold ht hg => rw [ht, LruCache.update_cap]
      | miss _ _ hnot ht => rw [ht]
      | promoted _ _ hnot ht => rw [ht, LruCache.put_cap]

/-- **FORGOTTEN LAST**: in every run of a new limiter, when a tracked key is gone after a
    packet, that packet promoted another key, and since the key's own last check or
    promotion at least as many other keys as the map holds have been checked on the
    tracked tier or promoted. -/
theorem hot_sources_stay_tracked (config : RateLimitSection)
    (hcap : 0 < config.tracked_sources_capacity) (t₀ : Instant) (cs : List Arrival) (c : Arrival)
    (k : SourceKey) (hin : k ∈ (after config (Live.new config hcap t₀) cs).inner.tracked.map)
    (hout : k ∉ (after config (Live.new config hcap t₀) (cs ++ [c])).inner.tracked.map) :
    source_key config c ≠ k
      ∧ Promotes config (after config (Live.new config hcap t₀) cs) c
      ∧ ∃ ys d zs, cs = ys ++ d :: zs ∧ source_key config d = k
          ∧ Touches config (after config (Live.new config hcap t₀) ys) d
          ∧ (∀ e ∈ zs, source_key config e ≠ k)
          ∧ config.tracked_sources_capacity
              ≤ ((touched config (after config (Live.new config hcap t₀) (ys ++ [d]))
                  (zs ++ [c])).toFinset.erase k).card := by
  have hk : source_key config c ≠ k := by
    rintro rfl
    rw [after_snoc] at hout
    rcases step_keys config (after config (Live.new config hcap t₀) cs) c with
      ⟨-, hkeys⟩ | ⟨hidle, -⟩
    · refine hout (AList.mem_keys.mpr ?_)
      rw [hkeys]
      exact (behind_front (LruCache.cap_pos _) _).mem
    · exact hidle (.inl hin)
  obtain ⟨ys, d, zs, rfl, hlast⟩ := exists_last_touched rfl cs hin
  have hsplit : after config (Live.new config hcap t₀) (ys ++ d :: zs)
      = after config (after config (Live.new config hcap t₀) (ys ++ [d])) zs := by
    rw [← after_append, List.append_assoc, List.singleton_append]
  rcases hlast.since.snoc hk with hsince | ⟨-, hpromotes, hcard⟩
  · refine absurd (AList.mem_keys.mpr hsince.behind.mem) ?_
    rw [after_snoc, ← hsplit, ← after_snoc]
    exact hout
  · rw [after_cap, after_cap] at hcard
    rw [hsplit]
    exact ⟨hk, hpromotes, ys, d, zs, rfl, hlast.own, hlast.touches, hlast.since.others, hcard⟩

/-- With room for one source the next promotion displaces it. -/
theorem displaced_by_one_other :
    ∃ ys d zs, [from_host 1 0] = ys ++ d :: zs
      ∧ 1 ≤ ((touched (tinyConfig 1)
          (after (tinyConfig 1) (Live.new (tinyConfig 1) (by decide) 0) (ys ++ [d]))
          (zs ++ [from_host 2 1])).toFinset.erase
            (source_key (tinyConfig 1) (from_host 1 0))).card := by
  obtain ⟨-, -, ys, d, zs, hsplit, -, -, -, hcard⟩ :=
    hot_sources_stay_tracked (tinyConfig 1) (by decide) 0 [from_host 1 0] (from_host 2 1)
      (source_key (tinyConfig 1) (from_host 1 0)) (by decide +kernel) (by decide +kernel)
  exact ⟨ys, d, zs, hsplit, hcard⟩

end FwknoxTracking
