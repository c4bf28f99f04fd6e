import Fwknox.ReplayProofs

/-! # Retention — the replay cache forgets in the order of acceptance

    Anybody may present nonces, old and new ones, and wait for prunes.  A nonce that was
    accepted is forgotten in two ways only: a prune finds its stamp too old, or as many
    other nonces as the cache holds have been accepted since.

    Route: one call puts an accepted nonce in front, takes stale ones out from anywhere,
    or leaves the cache as it is (`call_cases`); so the nonces in front of an accepted one
    have all been accepted after it (`Behind`, kept by every call: `call_behind`), and
    `Behind.push` counts them at the call that pushes it out. -/

namespace FwknoxRetention

open FwknoxTypes FwknoxClock FwknoxPersist FwknoxWorld FwknoxReplay LruMap EffectProg
open EffectProg.Prog

/-! ## Calls -/

/-- A call on one cache; every prune has a retention of its own. -/
inductive CacheCall where
  | insert (nonce : Nonce)
  | prune (max_age : Duration)

variable (env : Env) (persist_path : Option String)

/-- A call and the world after it. -/
def CacheCall.run : CacheCall → World → World
  | .insert nonce, w => ((check_and_insert persist_path nonce).exec (handler env) w).2
  | .prune max_age, w => ((prune_older_than persist_path max_age).exec (handler env) w).2

/-- Calls one after another. -/
def run_calls : List CacheCall → World → World
  | [], w => w
  | o :: ops, w => run_calls ops (o.run env persist_path w)

/-- The nonce a call answers `Ok(true)` to. -/
def CacheCall.accepts : CacheCall → World → List Nonce
  | .insert nonce, w =>
      match ((check_and_insert persist_path nonce).exec (handler env) w).1 with
      | .ok true => [nonce]
      | _ => []
  | .prune _, _ => []

/-- The nonces accepted along a run. -/
def accepted : List CacheCall → World → List Nonce
  | [], _ => []
  | o :: ops, w => o.accepts env persist_path w ++ accepted ops (o.run env persist_path w)

/-- The stamp below which a prune drops an entry. -/
def cutoff (max_age : Duration) (w : World) : UInt64 :=
  saturating_sub (env.clock w.tick).unix_secs max_age.as_secs

/-- The call is a prune that finds the nonce with a stamp older than its cutoff. -/
def CacheCall.Prunes (nonce : Nonce) : CacheCall → World → Prop
  | .insert _, _ => False
  | .prune max_age, w =>
      ∃ stamp, w.cache.map.lookup nonce = some stamp ∧ stamp < cutoff env max_age w

/-- So does some call of the run. -/
def Pruned (nonce : Nonce) (ops : List CacheCall) (w : World) : Prop :=
  ∃ before o after, ops = before ++ o :: after
    ∧ o.Prunes env nonce (run_calls env persist_path before w)

/-- What a call can do to a cache. -/
inductive Change where
  | put (nonce : Nonce) (stamp : UInt64)
  | prune (cutoff : UInt64)

/-- The change on the cache. -/
def Change.apply (c : LruCache Nonce UInt64) : Change → LruCache Nonce UInt64
  | .put nonce stamp => c.put nonce stamp
  | .prune cutoff => c.popAll (stale c cutoff)

/-- What a call does: nothing, when it answers `Ok(false)`. -/
def CacheCall.changes : CacheCall → World → List Change
  | .insert nonce, w =>
      match ((check_and_insert persist_path nonce).exec (handler env) w).1 with
      | .ok true => [.put nonce (env.clock w.tick).unix_secs]
      | _ => []
  | .prune max_age, w => [.prune (cutoff env max_age w)]

/-- What a run of calls does to the cache, change by change. -/
def changes : List CacheCall → World → List Change
  | [], _ => []
  | o :: ops, w => o.changes env persist_path w ++ changes ops (o.run env persist_path w)

/-! ## One call -/

variable {env} (persist_path : Option String)

/-- A call with what it accepts, what it changes and the cache it leaves. -/
inductive Called (env : Env) (w : World) :
    CacheCall → List Nonce → List Change → LruCache Nonce UInt64 → Prop
  | accepted (nonce : Nonce) (h : nonce ∉ w.cache.map) :
      Called env w (.insert nonce) [nonce] [.put nonce (env.clock w.tick).unix_secs]
        (w.cache.put nonce (env.clock w.tick).unix_secs)
  | replayed (nonce : Nonce) (h : nonce ∈ w.cache.map) :
      Called env w (.insert nonce) [] [] w.cache
  | pruned (max_age : Duration) :
      Called env w (.prune max_age) [] [.prune (cutoff env max_age w)]
        (w.cache.popAll (stale w.cache (cutoff env max_age w)))

/-- **EVERY CALL**, when no write fails. -/
theorem call_cases (hdisk : ∀ k, env.persist k = none) (o : CacheCall) (w : World) :
    Called env w o (o.accepts env persist_path w) (o.changes env persist_path w)
      (o.run env persist_path w).cache := by
  cases o with
  | insert nonce =>
      simp only [CacheCall.accepts, CacheCall.changes, CacheCall.run]
      generalize hr : (check_and_insert persist_path nonce).exec (handler env) w = res
      obtain ⟨r, w'⟩ := res
      obtain ⟨-, hcases⟩ := check_and_insert_cases hr
      rcases hcases with ⟨rfl, hin, hc, -⟩ | ⟨hnot, -, ⟨rfl, hc, -⟩ | ⟨-, -, -, -, k, -, -, hk⟩⟩
      · rw [hc]
        exact .replayed nonce hin
      · rw [hc]
        exact .accepted nonce hnot
      · exact absurd (hdisk k) hk
  | prune max_age =>
      simp only [CacheCall.accepts, CacheCall.changes, CacheCall.run]
      generalize hr : (prune_older_than persist_path max_age).exec (handler env) w = res
      obtain ⟨r, w'⟩ := res
      obtain ⟨-, hc, -⟩ := prune_older_than_cases hr
      rw [hc]
      exact .pruned max_age

theorem call_cap (hdisk : ∀ k, env.persist k = none) (o : CacheCall) (w : World) :
    (o.run env persist_path w).cache.cap = w.cache.cap := by
  have hcall := call_cases persist_path hdisk o w
  generalize o.accepts env persist_path w = acc, o.changes env persist_path w = chg,
    (o.run env persist_path w).cache = c at hcall ⊢
  cases hcall with
  | accepted nonce h => exact LruCache.put_cap _ _ _
  | replayed nonce h => rfl
  | pruned max_age => exact LruCache.popAll_cap _ _

/-- What a call changes is all it does. -/
theorem call_changes (hdisk : ∀ k, env.persist k = none) (o : CacheCall) (w : World) :
    (o.run env persist_path w).cache
      = (o.changes env persist_path w).foldl Change.apply w.cache := by
  have hcall := call_cases persist_path hdisk o w
  generalize o.accepts env persist_path w = acc, o.changes env persist_path w = chg,
    (o.run env persist_path w).cache = c at hcall ⊢
  cases hcall with
  | accepted nonce h => rfl
  | replayed nonce h => rfl
  | pruned max_age => rfl

/-! ## Whole runs -/

theorem run_cap (hdisk : ∀ k, env.persist k = none) (ops : List CacheCall) (w : World) :
    (run_calls env persist_path ops w).cache.cap = w.cache.cap := by
  induction ops generalizing w with
  | nil => rfl
  | cons o ops ih => exact (ih _).trans (call_cap persist_path hdisk o w)

/-- A replay leaves no trace: the cache after a run is made by the accepted nonces and
    the prunes alone. -/
theorem run_changes (hdisk : ∀ k, env.persist k = none) (ops : List CacheCall) (w : World) :
    (run_calls env persist_path ops w).cache
      = (changes env persist_path ops w).foldl Change.apply w.cache := by
  induction ops generalizing w with
  | nil => rfl
  | cons o ops ih =>
      show (run_calls env persist_path ops (o.run env persist_path w)).cache = _
      rw [ih, changes, List.foldl_append, call_changes persist_path hdisk]

/-- One call for a nonce that is held behind `recent`: it stays, behind what the call
    accepts too, or the call prunes it, or it is pushed out by enough others. -/
theorem call_behind (hdisk : ∀ k, env.persist k = none) {nonce : Nonce} {recent : List Nonce}
    {w : World} (o : CacheCall) (h : Behind nonce recent w.cache.map.keys) :
    Behind nonce (recent ++ o.accepts env persist_path w)
        (o.run env persist_path w).cache.map.keys
      ∨ w.cache.cap ≤ ((recent ++ o.accepts env persist_path w).toFinset.erase nonce).card
      ∨ o.Prunes env nonce w := by
  have hcall := call_cases persist_path hdisk o w
  generalize o.accepts env persist_path w = acc, o.changes env persist_path w = chg,
    (o.run env persist_path w).cache = c at hcall ⊢
  cases hcall with
  | accepted q hnew =>
      have hne : q ≠ nonce := fun he => hnew (he ▸ AList.mem_keys.mpr h.mem)
      have hperm : (q :: recent).Perm (recent ++ [q]) := (List.perm_append_singleton q recent).symm
      rw [keys_put_refresh _ hnew, ← List.toFinset_eq_of_perm _ _ hperm]
      rcases h.push w.cache.map.keys_nodup (length_keys_le w.cache) hne with hin | ⟨-, -, hcard⟩
      · exact .inl (hin.mono fun x hx => hperm.mem_iff.mp hx)
      · exact .inr (.inl hcard)
  | replayed q hold =>
      rw [List.append_nil]
      exact .inl h
  | pruned max_age =>
      rw [List.append_nil]
      by_cases hst : nonce ∈ stale w.cache (cutoff env max_age w)
      · exact .inr (.inr (mem_stale_iff.mp hst))
      · left
        obtain ⟨v, hv⟩ := mem_iff_lookup.mp (AList.mem_keys.mpr h.mem)
        have hkept := mem_iff_lookup.mpr
          ⟨v, (LruCache.lookup_popAll w.cache _ nonce v).mpr ⟨hst, hv⟩⟩
        exact h.sublist w.cache.map.keys_nodup (keys_popAll_sublist _ _) (AList.mem_keys.mp hkept)

theorem Pruned.cons {nonce : Nonce} {o : CacheCall} {ops : List CacheCall} {w : World}
    (h : Pruned env persist_path nonce ops (o.run env persist_path w)) :
    Pruned env persist_path nonce (o :: ops) w := by
  obtain ⟨before, p, after, rfl, hp⟩ := h
  exact ⟨o :: before, p, after, rfl, hp⟩

/-- Every call of a run. -/
theorem run_behind (hdisk : ∀ k, env.persist k = none) {nonce : Nonce} (ops : List CacheCall)
    {recent : List Nonce} {w : World} (h : Behind nonce recent w.cache.map.keys) :
    nonce ∈ (run_calls env persist_path ops w).cache.map
      ∨ w.cache.cap ≤ ((recent ++ accepted env persist_path ops w).toFinset.erase nonce).card
      ∨ Pruned env persist_path nonce ops w := by
  induction ops generalizing recent w with
  | nil => exact .inl (AList.mem_keys.mpr h.mem)
  | cons o ops ih =>
      rw [accepted, ← List.append_assoc]
      rcases call_behind persist_path hdisk o h with hin | hcard | hp
      · rcases ih hin with hmem | hcard | hp
        · exact .inl hmem
        · rw [call_cap persist_path hdisk] at hcard
          exact .inr (.inl hcard)
        · exact .inr (.inr (hp.cons persist_path))
      · refine .inr (.inl (Nat.le_trans hcard (Finset.card_le_card ?_)))
        refine Finset.erase_subset_erase _ ?_
        intro x hx
        exact List.mem_toFinset.mpr (List.mem_append_left _ (List.mem_toFinset.mp hx))
      · exact .inr (.inr ⟨[], o, ops, rfl, hp⟩)

/-! ## The law -/

/-- What a cache of capacity `C` in the state `w` promises about every sequence of calls. -/
structure Retains (env : Env) (persist_path : Option String) (C : Nat) (w : World) : Prop where
  /-- An accepted nonce is a replay from then on, unless `C` others were accepted since or
      a prune found it too old. -/
  replayed : ∀ pre mid nonce w₁ r w₂,
    (check_and_insert persist_path nonce).exec (handler env) (run_calls env persist_path pre w)
        = (.ok true, w₁) →
    (check_and_insert persist_path nonce).exec (handler env) (run_calls env persist_path mid w₁)
        = (r, w₂) →
    r = .ok false
      ∨ C ≤ ((accepted env persist_path mid w₁).toFinset.erase nonce).card
      ∨ Pruned env persist_path nonce mid w₁
  /-- A replay changes no entry, no stamp and no order, so the cache after a run is made
      by the accepted nonces and the prunes alone. -/
  unmoved : ∀ ops nonce w',
    (check_and_insert persist_path nonce).exec (handler env) (run_calls env persist_path ops w)
        = (.ok false, w') →
    w'.cache = (run_calls env persist_path ops w).cache
  forgotten : ∀ ops, (run_calls env persist_path ops w).cache
    = (changes env persist_path ops w).foldl Change.apply w.cache
  bounded : ∀ ops, (run_calls env persist_path ops w).cache.len ≤ C

/-- **BOUNDED RETENTION**: of every cache, whatever it holds, along every sequence of calls
    in which no write fails. -/
theorem cache_retains {env : Env} (hdisk : ∀ k, env.persist k = none)
    (persist_path : Option String) (w : World) : Retains env persist_path w.cache.cap w where
  replayed := by
    intro pre mid nonce w₁ r w₂ hfirst hagain
    have hcap := run_cap persist_path hdisk pre w
    obtain ⟨hnew, hc⟩ := check_and_insert_stored hfirst
    -- right after its acceptance nothing is in front of the nonce
    have hfront : Behind nonce [] w₁.cache.map.keys := by
      rw [hc, keys_put_refresh _ hnew]
      exact behind_front (LruCache.cap_pos _) _
    have hcap₁ : w₁.cache.cap = w.cache.cap := by rw [hc, LruCache.put_cap, hcap]
    have hrun := run_behind persist_path hdisk mid hfront
    rw [List.nil_append, hcap₁] at hrun
    refine hrun.imp ?_ id
    intro hmem
    obtain ⟨-, hcases⟩ := check_and_insert_cases hagain
    rcases hcases with ⟨hr, -⟩ | ⟨hnot, -⟩
    · exact hr
    · exact absurd hmem hnot
  unmoved := by
    intro ops nonce w' h
    exact (check_and_insert_known h).2
  forgotten := fun ops => run_changes persist_path hdisk ops w
  bounded := by
    intro ops
    rw [← run_cap persist_path hdisk ops w]
    exact (run_calls env persist_path ops w).cache.size_le

/-- A cache with one place, and a disk that never fails. -/
theorem emptyWorld_retains :
    (∀ k, (leapEnv 1).persist k = none) ∧ Retains (leapEnv 1) (some "/c") 1 emptyWorld :=
  ⟨fun _ => rfl, cache_retains (fun _ => rfl) (some "/c") emptyWorld⟩

end FwknoxRetention
