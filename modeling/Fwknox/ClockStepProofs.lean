import Fwknox.AuthorizationProofs

/-! # Clock steps and used nonces

    Three readings of the wall clock meet in the replay check: the one a packet is
    judged fresh at, the one its nonce is stamped with, and the one a prune takes its
    cutoff from.  `cache.rs` argues about a step forward and a step back one at a time.
    Together they undo the check: a prune under a clock that ran ahead forgets the
    nonce, and once the clock is set back the same packet is fresh and new again
    (`accepted_again_after_steps`).

    `accepted_once_of_steady` says which steps are harmless: a stamp is not before the
    reading its packet was judged at, and no packet is judged at a reading before that
    of an earlier prune.  Between prunes the clock may go back as it likes. -/

namespace FwknoxClockStep

open FwknoxTypes FwknoxClock FwknoxConfig FwknoxPacket FwknoxMatcher FwknoxWorld
open FwknoxReplay FwknoxPipeline FwknoxAuthorization LruMap EffectProg EffectProg.Prog

/-! ## Accepted packets -/

/-- `check_and_insert` answered `Ok(true)`. -/
def is_new : Except ReplayError Bool → Bool
  | .ok fresh => fresh
  | .error _ => false

section Acceptance

variable (X : Ext) (config : DaemonConfig) (persist_path : Option String) (env : Env)

/-- The packet's payload passes the clock check and its nonce is then new to the cache. -/
def accepts (p : CapturedPacket) (w : World) : Bool :=
  match match_packet X.crypto p.data config.access with
  | .matched name payload =>
      match find_stanza config name, validate_against_clock payload (now_unix (env.clock w.tick))
          (max_age_secs config.daemon.max_spa_packet_age) DEFAULT_MAX_SKEW_SECS with
      | .ok _, .ok _ =>
          is_new ((check_and_insert persist_path payload.nonce).exec (handler env) w.next).1
      | _, _ => false
  | _ => false

/-- The wire packets accepted along a run. -/
def accepted_wires : Nat → List DaemonOp → World → List Bytes
  | _, [], _ => []
  | n, .packet p :: ops, w =>
      (if accepts X config persist_path env p { w with current := ⟨n, p, w.tick⟩ } then [p.data]
        else [])
        ++ accepted_wires (n + 1) ops (DaemonOp.run X config persist_path env n (.packet p) w)
  | n, .prune :: ops, w =>
      accepted_wires n ops (DaemonOp.run X config persist_path env n .prune w)

/-- Seconds of the reading at a moment. -/
def reading (n : Nat) : Nat := (env.clock n).unix_secs.toNat

/-- Every packet that is judged is judged no earlier than any prune before it, the latest
    of them at `pruned`, and its nonce is stamped no earlier than that. -/
def Steady : Nat → Nat → List DaemonOp → World → Prop
  | _, _, [], _ => True
  | pruned, n, .packet p :: ops, w =>
      (∀ name payload, match_packet X.crypto p.data config.access = .matched name payload →
          pruned ≤ reading env w.tick ∧ reading env w.tick ≤ reading env (w.tick + 1))
        ∧ Steady pruned (n + 1) ops (DaemonOp.run X config persist_path env n (.packet p) w)
  | pruned, n, .prune :: ops, w =>
      Steady (max pruned (reading env w.tick)) n ops
        (DaemonOp.run X config persist_path env n .prune w)

end Acceptance

variable {X : Ext} {config : DaemonConfig} {persist_path : Option String} {env : Env}

theorem accepts_of_current {p : CapturedPacket} {w : World} {name : String}
    {stanza : AccessStanza} {payload : SpaPayload}
    (h : Current X config p (env.clock w.tick) name stanza payload) :
    accepts X config persist_path env p w
      = is_new ((check_and_insert persist_path payload.nonce).exec (handler env) w.next).1 := by
  obtain ⟨hm, hf, hfresh⟩ := h
  simp only [Fresh] at hfresh
  simp only [accepts, hm, hf, hfresh]

/-- **ONE PACKET**: it is accepted under a nonce the cache did not have and gets a stamp,
    or it leaves no trace; either way nothing else is forgotten. -/
theorem packet_step {n : Nat} {p : CapturedPacket} {w : World}
    (hev : (DaemonOp.run X config persist_path env n (.packet p) w).evicted = w.evicted) :
    (∀ nonce v, w.cache.map.lookup nonce = some v →
        (DaemonOp.run X config persist_path env n (.packet p) w).cache.map.lookup nonce = some v)
      ∧ (accepts X config persist_path env p { w with current := ⟨n, p, w.tick⟩ } = true →
          ∃ name stanza payload, Current X config p (env.clock w.tick) name stanza payload
            ∧ payload.nonce ∉ w.cache.map
            ∧ (DaemonOp.run X config persist_path env n (.packet p) w).cache.map.lookup
                payload.nonce = some (env.clock (w.tick + 1)).unix_secs) := by
  generalize hr : (process_packet X config persist_path p).exec (handler env)
    { w with current := ⟨n, p, w.tick⟩ } = res
  obtain ⟨r, w'⟩ := res
  have hrun : DaemonOp.run X config persist_path env n (.packet p) w = w' := congrArg Prod.snd hr
  rw [hrun] at hev ⊢
  cases process_packet_cases hr with
  | noMatch h =>
      refine ⟨fun _ _ hv => hv, fun ha => ?_⟩
      simp only [accepts, h] at ha
      exact nomatch ha
  | unreadable name reason h =>
      refine ⟨fun _ _ hv => hv, fun ha => ?_⟩
      simp only [accepts, h] at ha
      exact nomatch ha
  | missing name payload e h hf =>
      refine ⟨fun _ _ hv => hv, fun ha => ?_⟩
      simp only [accepts, h, hf] at ha
      exact nomatch ha
  | stale name stanza payload e h hf ht =>
      refine ⟨fun _ _ hv => hv, fun ha => ?_⟩
      simp only [accepts, h, hf, ht] at ha
      exact nomatch ha
  | replay name stanza payload _ h hc =>
      obtain ⟨hkept, _⟩ := check_and_insert_kept hc hev
      refine ⟨hkept, fun ha => ?_⟩
      rw [accepts_of_current h, hc] at ha
      exact nomatch ha
  | unsaved name stanza payload e _ h hc =>
      obtain ⟨hkept, _⟩ := check_and_insert_kept hc hev
      refine ⟨hkept, fun ha => ?_⟩
      rw [accepts_of_current h, hc] at ha
      exact nomatch ha
  | refused name stanza payload reason _ h hc href =>
      -- from here on the packet went past the replay check
      obtain ⟨hkept, hnew⟩ := check_and_insert_kept hc hev
      exact ⟨hkept, fun _ => ⟨name, stanza, payload, h, hnew rfl⟩⟩
  | granted name stanza payload source_ip ports w₁ h hc =>
      obtain ⟨hkept, hnew⟩ := check_and_insert_kept hc hev
      exact ⟨hkept, fun _ => ⟨name, stanza, payload, h.current, hnew rfl⟩⟩

/-- A prune forgets only stamps older than the retention. -/
theorem prune_step {n : Nat} {w : World} {nonce : Nonce} {v : UInt64}
    (hv : w.cache.map.lookup nonce = some v) :
    (DaemonOp.run X config persist_path env n .prune w).cache.map.lookup nonce = some v
      ∨ v.toNat + config.replay.max_age.as_secs.toNat < reading env w.tick := by
  generalize hr : (prune_older_than persist_path config.replay.max_age).exec (handler env) w = res
  obtain ⟨r, w'⟩ := res
  have hrun : DaemonOp.run X config persist_path env n .prune w = w' := congrArg Prod.snd hr
  obtain ⟨_, hc, _⟩ := prune_older_than_cases hr
  rw [hrun, hc]
  by_cases hst : nonce ∈ stale w.cache
      (saturating_sub (env.clock w.tick).unix_secs config.replay.max_age.as_secs)
  · exact .inr (stamp_of_stale hst hv)
  · exact .inl ((LruCache.lookup_popAll _ _ _ _).mpr ⟨hst, hv⟩)

/-! ## Harmless steps -/

/-- The wire cannot be accepted again: its payload is never fresh at a reading from
    `pruned` on, or its nonce is remembered with a stamp not before a reading the payload
    was fresh at. -/
def Kept (X : Ext) (config : DaemonConfig) (pruned : Nat) (w : World) (data : Bytes) : Prop :=
  ∃ name payload, match_packet X.crypto data config.access = .matched name payload
    ∧ ((∀ t : SystemTime, pruned ≤ t.unix_secs.toNat →
          ¬Fresh config.daemon.max_spa_packet_age payload t)
      ∨ ∃ v t, w.cache.map.lookup payload.nonce = some v
          ∧ Fresh config.daemon.max_spa_packet_age payload t ∧ t.unix_secs.toNat ≤ v.toNat)

theorem Kept.of_lookup {pruned : Nat} {w w' : World} {data : Bytes}
    (h : Kept X config pruned w data)
    (hkept : ∀ nonce v, w.cache.map.lookup nonce = some v →
      w'.cache.map.lookup nonce = some v) : Kept X config pruned w' data := by
  obtain ⟨name, payload, hm, hspent | ⟨v, t, hv, hfresh, hle⟩⟩ := h
  · exact ⟨name, payload, hm, .inl hspent⟩
  · exact ⟨name, payload, hm, .inr ⟨v, t, hkept _ v hv, hfresh, hle⟩⟩

/-- What a prune forgets is spent from its reading on. -/
theorem Kept.prune
    (hret : config.daemon.max_spa_packet_age.as_secs.toNat + 30
      ≤ config.replay.max_age.as_secs.toNat)
    {pruned n : Nat} {w : World} {data : Bytes} (h : Kept X config pruned w data) :
    Kept X config (max pruned (reading env w.tick))
      (DaemonOp.run X config persist_path env n .prune w) data := by
  obtain ⟨name, payload, hm, hspent | ⟨v, t, hv, hfresh, hle⟩⟩ := h
  · refine ⟨name, payload, hm, .inl ?_⟩
    intro t ht
    exact hspent t (Nat.le_trans (Nat.le_max_left _ _) ht)
  · refine ⟨name, payload, hm, ?_⟩
    rcases prune_step hv with hstill | hold
    · exact .inr ⟨v, t, hstill, hfresh, hle⟩
    · left
      intro t' ht'
      have hpast := Nat.lt_of_lt_of_le hold (Nat.le_trans (Nat.le_max_right _ _) ht')
      exact stale_after_retention hret hfresh hle hpast

theorem evicted_le_run (X : Ext) (config : DaemonConfig) (persist_path : Option String)
    (env : Env) (n : Nat) (o : DaemonOp) (w : World) :
    w.evicted ≤ (DaemonOp.run X config persist_path env n o w).evicted := by
  cases o with
  | packet p => exact exec_evicted_le env { w with current := ⟨n, p, w.tick⟩ } _
  | prune => exact exec_evicted_le env w _

theorem evicted_le_run_daemon (X : Ext) (config : DaemonConfig) (persist_path : Option String)
    (env : Env) (n : Nat) (ops : List DaemonOp) (w : World) :
    w.evicted ≤ (run_daemon X config persist_path env n ops w).evicted := by
  induction ops generalizing n w with
  | nil => exact Nat.le_refl _
  | cons o ops ih =>
      cases o with
      | packet p =>
          have hstep := evicted_le_run X config persist_path env n (.packet p) w
          exact Nat.le_trans hstep (ih _ _)
      | prune => exact Nat.le_trans (evicted_le_run X config persist_path env n .prune w) (ih _ _)

/-- A kept wire is not accepted, and an accepted wire is kept from then on. -/
theorem kept_packet {pruned n : Nat} {p : CapturedPacket} {w : World}
    (hev : (DaemonOp.run X config persist_path env n (.packet p) w).evicted = w.evicted)
    (hsteady : ∀ name payload, match_packet X.crypto p.data config.access = .matched name payload →
      pruned ≤ reading env w.tick ∧ reading env w.tick ≤ reading env (w.tick + 1))
    (ha : accepts X config persist_path env p { w with current := ⟨n, p, w.tick⟩ } = true) :
    ¬Kept X config pruned w p.data
      ∧ Kept X config pruned (DaemonOp.run X config persist_path env n (.packet p) w) p.data := by
  obtain ⟨name, stanza, payload, hcur, hnot, hstamp⟩ := (packet_step hev).2 ha
  obtain ⟨hlater, hstamped⟩ := hsteady name payload hcur.matched
  constructor
  · rintro ⟨name', payload', hm, hkept⟩
    rw [hcur.matched] at hm
    cases hm
    rcases hkept with hspent | ⟨v, _, hv, _⟩
    · exact hspent _ hlater hcur.fresh
    · exact hnot (mem_iff_lookup.mpr ⟨v, hv⟩)
  · exact ⟨name, payload, hcur.matched, .inr ⟨_, _, hstamp, hcur.fresh, hstamped⟩⟩

/-- Along a steady run nothing kept is accepted and nothing is accepted twice. -/
theorem accepted_wires_nodup
    (hret : config.daemon.max_spa_packet_age.as_secs.toNat + 30
      ≤ config.replay.max_age.as_secs.toNat)
    {ops : List DaemonOp} {pruned n : Nat} {w : World} {seen : List Bytes}
    (hseen : ∀ data ∈ seen, Kept X config pruned w data) (hnd : seen.Nodup)
    (hsteady : Steady X config persist_path env pruned n ops w)
    (hev : (run_daemon X config persist_path env n ops w).evicted = w.evicted) :
    (seen ++ accepted_wires X config persist_path env n ops w).Nodup := by
  -- on the operations left; what is carried is that each wire seen is kept out from here on
  induction ops generalizing pruned n w seen with
  | nil =>
      rw [accepted_wires, List.append_nil]
      exact hnd
  | cons o ops ih =>
      have hstep := evicted_le_run X config persist_path env n o w
      cases o with
      | packet p =>
          have hrest := evicted_le_run_daemon X config persist_path env (n + 1) ops
            (DaemonOp.run X config persist_path env n (.packet p) w)
          rw [run_daemon] at hev
          -- evictions only grow, so none over the run is none in this step
          have hsame : (DaemonOp.run X config persist_path env n (.packet p) w).evicted
              = w.evicted := by omega
          have hold : ∀ data ∈ seen, Kept X config pruned
              (DaemonOp.run X config persist_path env n (.packet p) w) data :=
            fun data hd => (hseen data hd).of_lookup (packet_step hsame).1
          rw [accepted_wires]
          by_cases ha :
              accepts X config persist_path env p { w with current := ⟨n, p, w.tick⟩ } = true
          · obtain ⟨hnew, hkept⟩ := kept_packet hsame hsteady.1 ha
            rw [if_pos ha, ← List.append_assoc]
            refine ih ?_ ?_ hsteady.2 (hev.trans hsame.symm)
            · intro data hd
              rcases List.mem_append.mp hd with hd | hd
              · exact hold data hd
              · rw [List.mem_singleton.mp hd]
                exact hkept
            · refine List.Nodup.append hnd (List.nodup_singleton _) ?_
              intro data hd hnow
              rw [List.mem_singleton.mp hnow] at hd
              exact hnew (hseen _ hd)
          · rw [if_neg ha, List.nil_append]
            exact ih hold hnd hsteady.2 (hev.trans hsame.symm)
      | prune =>
          have hrest := evicted_le_run_daemon X config persist_path env n ops
            (DaemonOp.run X config persist_path env n .prune w)
          rw [run_daemon] at hev
          have hsame : (DaemonOp.run X config persist_path env n .prune w).evicted
              = w.evicted := by omega
          exact ih (fun data hd => (hseen data hd).prune hret) hnd hsteady
            (hev.trans hsame.symm)

/-- **NO WIRE PACKET IS ACCEPTED TWICE** under every clock whose steps are steady, when the
    retention covers the freshness window and nothing is evicted. -/
theorem accepted_once_of_steady (X : Ext) (config : DaemonConfig)
    (hret : (config.daemon.max_spa_packet_age.as_secs.toNat : Int) + DEFAULT_MAX_SKEW_SECS.toInt
      ≤ config.replay.max_age.as_secs.toNat)
    (persist_path : Option String) (env : Env) (ops : List DaemonOp) (w : World)
    (hsteady : Steady X config persist_path env 0 0 ops w)
    (hev : (run_daemon X config persist_path env 0 ops w).evicted = w.evicted) :
    (accepted_wires X config persist_path env 0 ops w).Nodup := by
  have hskew : DEFAULT_MAX_SKEW_SECS.toInt = 30 := by decide
  exact accepted_wires_nodup (by omega) (fun _ h => absurd h List.not_mem_nil) List.nodup_nil
    hsteady hev

/-- A clock that is set back before each of two prunes, and ahead again after it. -/
def jitterEnv : Env :=
  { sampleEnv with clock := fun n =>
      if n < 4 then ⟨1700000010⟩ else if n < 6 then ⟨1700000005⟩ else if n < 9 then ⟨1700000007⟩
      else if n < 11 then ⟨1700000003⟩ else ⟨1700000006⟩ }

/-- The sample packet three times, with a prune after each of the first two. -/
def jitterOps : List DaemonOp :=
  [.packet samplePacket, .prune, .packet samplePacket, .prune, .packet samplePacket]

/-- The readings step back, from packet to packet and from prune to prune, and the packet is
    accepted once. -/
theorem jitter_accepted_once :
    reading jitterEnv 4 < reading jitterEnv 0 ∧ reading jitterEnv 6 < reading jitterEnv 0
      ∧ reading jitterEnv 9 < reading jitterEnv 4
      ∧ accepted_wires sampleExt sampleConfig none jitterEnv 0 jitterOps emptyWorld
        = [samplePacket.data]
      ∧ (accepted_wires sampleExt sampleConfig none jitterEnv 0 jitterOps emptyWorld).Nodup := by
  have hsteady : Steady sampleExt sampleConfig none jitterEnv 0 0 jitterOps emptyWorld := by
    simp only [jitterOps, Steady]
    exact ⟨fun _ _ _ => by decide +kernel, fun _ _ _ => by decide +kernel,
      fun _ _ _ => by decide +kernel, trivial⟩
  exact ⟨by decide, by decide, by decide, by decide +kernel,
    accepted_once_of_steady sampleExt sampleConfig (by decide) none jitterEnv jitterOps
      emptyWorld hsteady (by decide +kernel)⟩

/-- The sample packet's time, but two days ahead at one moment. -/
def stepEnv (ahead : Nat) : Env :=
  { sampleEnv with clock := fun n => if n = ahead then ⟨1700172800⟩ else ⟨1700000000⟩ }

/-- Between the two presentations a prune reads the clock two days ahead; the clock is
    then set back, and the packet is accepted a second time. -/
theorem accepted_again_after_steps :
    (sampleConfig.daemon.max_spa_packet_age.as_secs.toNat : Int) + DEFAULT_MAX_SKEW_SECS.toInt
        ≤ sampleConfig.replay.max_age.as_secs.toNat
      ∧ (∀ k, (stepEnv 4).persist k = none)
      ∧ (run_daemon sampleExt sampleConfig none (stepEnv 4) 0 sampleOps emptyWorld).evicted
          = emptyWorld.evicted
      ∧ accepted_wires sampleExt sampleConfig none (stepEnv 4) 0 sampleOps emptyWorld
          = [samplePacket.data, samplePacket.data] :=
  ⟨by decide, fun _ => rfl, by decide +kernel, by decide +kernel⟩

end FwknoxClockStep
