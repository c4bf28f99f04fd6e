import Fwknox.LimiterProofs

/-! # An honest source keeps its progress

    Follow one key from the packet that made it a candidate.  Packets of other keys may
    fill the candidate map, sweep it, be promoted and evict, all of them at once:

      * `Progress.other` : whatever a packet that is not the key's own does, the key stays
                          untracked and keeps its count, unless a minute went by since
                          its last packet,
      * `Progress.own`   : its own next packet finds the count one higher, and the
                          threshold promotes it.

    `promotion_progress` puts them together over every interleaving. -/

namespace FwknoxPromotion

open LruMap FwknoxBucket FwknoxSourceKey FwknoxConfig FwknoxLimiter
open FwknoxLimiter.RateLimiter (Arrival)

variable (config : RateLimitSection)

/-- The candidate count `check` reads for a packet that passed the global bucket. -/
def new_count (s : Live) (c : Arrival) : Option Nat :=
  (bump { s.inner with global := (s.inner.global.consume c.2).2 } (source_key config c) c.2).1

/-- The packet makes its key a candidate: it passes the global bucket, its key is
    neither tracked nor a candidate, and there is room once the expired are swept. -/
structure Creates (s : Live) (c : Arrival) : Prop where
  passes : passes_global config s c
  absent : source_key config c ∉ s.inner.candidates
  room : (s.inner.make_room c.2).candidates.entries.length < s.inner.max_candidates

/-- Every packet of `k` that passes the global bucket comes less than `CANDIDATE_TTL`
    after the one before it; the last one came at `last`. -/
def Timely (k : SourceKey) : Live → Instant → List Arrival → Prop
  | _, _, [] => True
  | s, last, c :: cs =>
      if source_key config c = k ∧ passes_global config s c then
        c.2 - last < CANDIDATE_TTL ∧ Timely k (step config s c) c.2 cs
      else Timely k (step config s c) last cs

instance decidableTimely (k : SourceKey) :
    (s : Live) → (last : Instant) → (cs : List Arrival) → Decidable (Timely config k s last cs)
  | _, _, [] => .isTrue trivial
  | s, last, c :: cs =>
      have := decidableTimely k (step config s c) c.2 cs
      have := decidableTimely k (step config s c) last cs
      inferInstanceAs (Decidable
        (if source_key config c = k ∧ passes_global config s c then
          c.2 - last < CANDIDATE_TTL ∧ Timely config k (step config s c) c.2 cs
        else Timely config k (step config s c) last cs))

/-- `k` is untracked with `m` packets behind it, the last one at `last`; its entry can
    only be missing once it has expired. -/
structure Progress (k : SourceKey) (m : Nat) (last cur : Instant) (s : Live) : Prop where
  untracked : k ∉ s.inner.tracked.map
  counted : s.inner.candidates.lookup k = some (m, last) ∨ CANDIDATE_TTL ≤ cur - last

variable {config}

/-! ## The key's own packets -/

/-- A packet that passes the global bucket goes on to the candidates. -/
theorem step_of_passes {s : Live} {c : Arrival} (hp : passes_global config s c) :
    step config s c
      = candidate_tier config
          { s with inner := { s.inner with global := (s.inner.global.consume c.2).2 } }
          (source_key config c) c.2 := by
  have hl := AList.lookup_eq_none.mpr hp.1
  have hc : s.inner.global.consume c.2 = (.pass, (s.inner.global.consume c.2).2) :=
    Prod.ext hp.2 rfl
  unfold step check_locked
  rw [hl]
  dsimp only
  rw [hc]

/-- A counted packet stores its count, or promotes its key at the threshold. -/
theorem step_of_new_count {s : Live} {c : Arrival} (hp : passes_global config s c) {n : Nat}
    (hn : new_count config s c = some n) :
    (n < config.promotion_threshold.toNat →
        Progress (source_key config c) n c.2 c.2 (step config s c))
      ∧ (config.promotion_threshold.toNat ≤ n →
          source_key config c ∈ (step config s c).inner.tracked.map) := by
  rw [step_of_passes hp]
  obtain ⟨hb, he⟩ := bump_cases { s.inner with global := (s.inner.global.consume c.2).2 }
    (source_key config c) c.2
  unfold new_count at hn
  unfold candidate_tier
  generalize bump { s.inner with global := (s.inner.global.consume c.2).2 }
    (source_key config c) c.2 = r at hn hb he ⊢
  obtain ⟨count, inner⟩ := r
  dsimp only at hn
  subst hn
  dsimp only at hb he ⊢
  constructor
  · intro hlt
    rw [if_neg (Nat.not_le_of_lt hlt)]
    refine ⟨?_, .inl hb.lookup_self⟩
    rw [he]
    exact hp.1
  · intro hle
    rw [if_pos hle]
    exact LruCache.mem_put_self _ _ _

theorem Creates.new_count_eq {s : Live} {c : Arrival} (h : Creates config s c) :
    new_count config s c = some 1 := by
  obtain ⟨hb, -⟩ := bump_cases { s.inner with global := (s.inner.global.consume c.2).2 }
    (source_key config c) c.2
  have hb' := hb.of_global
  show (bump _ _ _).1 = some 1
  generalize (bump { s.inner with global := (s.inner.global.consume c.2).2 }
    (source_key config c) c.2).1 = count at hb' ⊢
  generalize (bump { s.inner with global := (s.inner.global.consume c.2).2 }
    (source_key config c) c.2).2.candidates = cand at hb'
  cases hb' with
  | again count seen hold => exact absurd (mem_iff_lookup.mpr ⟨_, hold⟩) h.absent
  | first hnot room => rfl
  | rejected hnot full => exact absurd h.room (Nat.not_lt_of_le full)

section Steps

variable {k : SourceKey} {m : Nat} {last cur : Instant} {s : Live} {c : Arrival}

/-- **THE NEXT PACKET** of the key finds its count one higher. -/
theorem Progress.new_count_eq (h : Progress k m last cur s)
    (hm : m < config.promotion_threshold.toNat) (hk : source_key config c = k)
    (hcur : cur ≤ c.2) (htime : c.2 - last < CANDIDATE_TTL) :
    new_count config s c = some (m + 1) := by
  rcases h.counted with hold | hexpired
  · subst hk
    simp only [new_count, bump, hold]
    exact congrArg some (saturating_incr_of_lt config hm)
  · have hgap := Nat.le_trans hexpired (Nat.sub_le_sub_right hcur last)
    exact absurd htime (Nat.not_lt_of_le hgap)

theorem Progress.own (h : Progress k m last cur s)
    (hm : m < config.promotion_threshold.toNat) (hk : source_key config c = k)
    (hp : passes_global config s c) (hcur : cur ≤ c.2) (htime : c.2 - last < CANDIDATE_TTL) :
    new_count config s c = some (m + 1)
      ∧ (m + 1 < config.promotion_threshold.toNat →
          Progress k (m + 1) c.2 c.2 (step config s c))
      ∧ (k ∈ (step config s c).inner.tracked.map
          ↔ m + 1 = config.promotion_threshold.toNat) := by
  have hcount := h.new_count_eq hm hk hcur htime
  obtain ⟨hbelow, hat⟩ := step_of_new_count hp hcount
  rw [hk] at hbelow hat
  refine ⟨hcount, hbelow, ?_, ?_⟩
  · intro htracked
    by_contra hne
    exact (hbelow (by omega)).untracked htracked
  · intro heq
    exact hat (Nat.le_of_eq heq.symm)

/-! ## Everybody else's packets -/

/-- Another key's packet keeps an entry, or sweeps it because it expired. -/
theorem bumped_keeps {inner : Inner} {key : SourceKey} {now : Instant} {count : Option Nat}
    {cand : Assoc SourceKey (Nat × Instant)} (hb : Bumped inner key now count cand)
    (hne : k ≠ key) {v : Nat × Instant} (hold : inner.candidates.lookup k = some v) :
    cand.lookup k = some v ∨ CANDIDATE_TTL ≤ now - v.2 := by
  cases hb with
  | again count seen h =>
      rw [AList.lookup_insert_ne hne]
      exact .inl hold
  | first h room =>
      rw [AList.lookup_insert_ne hne]
      exact lookup_make_room_of now hold
  | rejected h full => exact lookup_make_room_of now hold

/-- **A FLOOD CHANGES NOTHING**: a packet that is not counted for the key. -/
theorem Progress.other (h : Progress k m last cur s)
    (hmiss : ¬(source_key config c = k ∧ passes_global config s c)) (hcur : cur ≤ c.2) :
    Progress k m last c.2 (step config s c) := by
  have hlater : s.inner.candidates.lookup k = some (m, last) ∨ CANDIDATE_TTL ≤ c.2 - last :=
    h.counted.imp id fun he => Nat.le_trans he (Nat.sub_le_sub_right hcur last)
  have hchecked := check_cases config s (source_key config c) c.2
  unfold step
  generalize (check_locked config s (source_key config c) c.2).2 = s' at hchecked ⊢
  generalize (check_locked config s (source_key config c) c.2).1 = d at hchecked
  -- a packet that passed was another source's, and a sweep takes only what has expired
  have hkeep : ∀ {g count cand}, source_key config c ∉ s.inner.tracked.map →
      s.inner.global.consume c.2 = (.pass, g) →
      Bumped s.inner (source_key config c) c.2 count cand →
      k ≠ source_key config c
        ∧ (cand.lookup k = some (m, last) ∨ CANDIDATE_TTL ≤ c.2 - last) := by
    intro g count cand hkey hc hb
    have hne : k ≠ source_key config c := fun he => hmiss ⟨he.symm, hkey, by rw [hc]⟩
    exact ⟨hne, hlater.elim (bumped_keeps hb hne) .inr⟩
  cases hchecked with
  | tracked_pass b b' hb hc =>
      exact ⟨fun hin => h.untracked (((update_keys b' hb).2 k).mp hin), hlater⟩
  | tracked_drop b b' hb hc =>
      exact ⟨fun hin => h.untracked (((update_keys (warned b' c.2) hb).2 k).mp hin), hlater⟩
  | global_drop g hkey hc => exact ⟨h.untracked, hlater⟩
  | rejected g cand hkey hc hb => exact ⟨h.untracked, (hkeep hkey hc hb).2⟩
  | counted g cand count hkey hc hb hlt => exact ⟨h.untracked, (hkeep hkey hc hb).2⟩
  | promoted g cand count hkey hc hb hle =>
      obtain ⟨hne, hcand⟩ := hkeep hkey hc hb
      refine ⟨?_, ?_⟩
      · intro hin
        obtain ⟨v, hv⟩ := mem_iff_lookup.mp hin
        rcases LruCache.lookup_put_cases hv with ⟨heq, -⟩ | ⟨-, hold⟩
        · exact hne heq
        · exact h.untracked (mem_iff_lookup.mpr ⟨v, hold⟩)
      · show (cand.erase (source_key config c)).lookup k = _ ∨ _
        rw [AList.lookup_erase_ne hne]
        exact hcand

/-! ## Every interleaving -/

/-- From a state with `m` packets behind the key, at every point of the run. -/
theorem Progress.run {cs : List Arrival} (h : Progress k m last cur s)
    (hmono : (cur :: cs.map Prod.snd).Pairwise (· ≤ ·)) (htimely : Timely config k s last cs)
    {ys zs : List Arrival} (hsplit : cs = ys ++ zs)
    (hm : m + passes config k s ys < config.promotion_threshold.toNat) :
    k ∉ (after config s ys).inner.tracked.map
      ∧ ∀ d ∈ zs.head?, source_key config d = k → passes_global config (after config s ys) d →
          new_count config (after config s ys) d = some (m + passes config k s ys + 1)
            ∧ (k ∈ (step config (after config s ys) d).inner.tracked.map
                ↔ m + passes config k s ys + 1 = config.promotion_threshold.toNat) := by
  -- on the packets already seen; the count and the instant of the last pass go along
  induction ys generalizing m last cur s cs with
  | nil =>
      refine ⟨h.untracked, ?_⟩
      intro d hd hk hp
      obtain ⟨rest, rfl⟩ : ∃ rest, zs = d :: rest := by
        cases zs with
        | nil => exact nomatch hd
        | cons e rest => exact ⟨rest, by rw [Option.some.inj hd]⟩
      subst hsplit
      have hcur : cur ≤ d.2 := (List.pairwise_cons.mp hmono).1 d.2 List.mem_cons_self
      have htime : d.2 - last < CANDIDATE_TTL := by
        rw [List.nil_append, Timely, if_pos ⟨hk, hp⟩] at htimely
        exact htimely.1
      obtain ⟨hcount, -, htracked⟩ := h.own hm hk hp hcur htime
      exact ⟨hcount, htracked⟩
  | cons d ys ih =>
      subst hsplit
      obtain ⟨hle, hrest⟩ := List.pairwise_cons.mp hmono
      have hcur : cur ≤ d.2 := hle d.2 List.mem_cons_self
      rw [List.cons_append, Timely] at htimely
      have hpasses : passes config k s (d :: ys)
          = hit config k s d + passes config k (step config s d) ys := rfl
      by_cases hhit : source_key config d = k ∧ passes_global config s d
      · -- a pass of this source moves the count on
        rw [if_pos hhit] at htimely
        rw [hpasses, hit_of_passes hhit.1 hhit.2, ← Nat.add_assoc] at hm ⊢
        obtain ⟨-, hnext, -⟩ := h.own (by omega) hhit.1 hhit.2 hcur htimely.1
        exact ih (hnext (by omega)) hrest htimely.2 rfl hm
      · rw [if_neg hhit] at htimely
        rw [hpasses, show hit config k s d = 0 from if_neg hhit, Nat.zero_add] at hm ⊢
        exact ih (h.other hhit hcur) hrest htimely rfl hm

end Steps

/-- **PROGRESS TOWARDS PROMOTION**: start with the packet `c` that makes its key a
    candidate.  At every point of every timely run with fewer than the threshold of
    that key's packets behind it, the key is untracked; the next of them finds the
    count at its own number and brings the key into the tracked map exactly when that
    number is the threshold. -/
theorem promotion_progress (config : RateLimitSection) (s : Live) (c : Arrival)
    (hcreates : Creates config s c) (cs : List Arrival)
    (hmono : (c.2 :: cs.map Prod.snd).Pairwise (· ≤ ·))
    (htimely : Timely config (source_key config c) (step config s c) c.2 cs)
    (ys zs : List Arrival) (hsplit : c :: cs = ys ++ zs)
    (hm : passes config (source_key config c) s ys < config.promotion_threshold.toNat) :
    source_key config c ∉ (after config s ys).inner.tracked.map
      ∧ ∀ d ∈ zs.head?, source_key config d = source_key config c →
          passes_global config (after config s ys) d →
          new_count config (after config s ys) d
              = some (passes config (source_key config c) s ys + 1)
            ∧ (source_key config c ∈ (step config (after config s ys) d).inner.tracked.map
                ↔ passes config (source_key config c) s ys + 1
                  = config.promotion_threshold.toNat) := by
  have hone := hcreates.new_count_eq
  obtain ⟨hbelow, hat⟩ := step_of_new_count hcreates.passes hone
  cases ys with
  | nil =>
      -- the packet that made the candidate is itself the first pass
      refine ⟨hcreates.passes.1, ?_⟩
      intro d hd _ _
      rw [List.nil_append] at hsplit
      rw [← hsplit] at hd
      obtain rfl : c = d := Option.some.inj hd
      refine ⟨hone, ?_, ?_⟩
      · intro htracked
        by_contra hne
        have : passes config (source_key config c) s [] = 0 := rfl
        exact (hbelow (by omega)).untracked htracked
      · intro heq
        exact hat (Nat.le_of_eq heq.symm)
  | cons d ys =>
      obtain ⟨rfl, hcs⟩ := List.cons.inj hsplit
      have hpasses : passes config (source_key config c) s (c :: ys)
          = 1 + passes config (source_key config c) (step config s c) ys := by
        rw [passes, hit_of_passes rfl hcreates.passes]
      rw [hpasses] at hm ⊢
      exact (hbelow (by omega)).run hmono htimely hcs hm

/-- A source in 192.0.2.0/24 keeps its count through another's packet. -/
theorem sample_source_progress :
    new_count {} (after {} (Live.new {} (by decide) 0)
        [(.v4 #v[192, 0, 2, 1], 1), (.v4 #v[198, 51, 100, 9], 2)]) (.v4 #v[192, 0, 2, 1], 3)
      = some 2 := by
  have hcreates : Creates {} (Live.new {} (by decide) 0) (.v4 #v[192, 0, 2, 1], 1) :=
    ⟨by decide +kernel, by decide +kernel, by decide +kernel⟩
  have h := promotion_progress {} (Live.new {} (by decide) 0) (.v4 #v[192, 0, 2, 1], 1) hcreates
    [(.v4 #v[198, 51, 100, 9], 2), (.v4 #v[192, 0, 2, 1], 3)] (by decide) (by decide +kernel)
    [(.v4 #v[192, 0, 2, 1], 1), (.v4 #v[198, 51, 100, 9], 2)] [(.v4 #v[192, 0, 2, 1], 3)] rfl
    (by decide +kernel)
  have hcount := (h.2 _ rfl rfl (by decide +kernel)).1
  exact hcount.trans (by decide +kernel)

end FwknoxPromotion
