import Mathlib.Data.Finset.Card
import Fwknox.ReplayProofs

/-! # Restarts — what the saved file does not carry

    A daemon that stops gracefully saves its cache; the next one loads it through the
    startup code.  The bindings survive.  The capacity does not, because every loaded
    cache has the default one whatever `max_entries` says, and the recency does not,
    because the file is written and read in the order of a hash map.

    The answers of `check_and_insert` are those of the recency list of the keys
    (`answers_eq`), so the question becomes when two recency lists answer alike.
    `restart_invisible_iff` is the exact condition: the cache already had the default
    capacity and holds at most one nonce.  Anything else is told apart by a few thousand
    fresh nonces and one old one. -/

namespace FwknoxRestart

open FwknoxTypes FwknoxClock FwknoxConfig FwknoxPersist FwknoxWorld FwknoxReplay LruMap EffectProg
open EffectProg.Prog

/-! ## Stopping and starting -/

/-- The world after a graceful stop, whose last act is to save the cache, and a start. -/
def restart (config : DaemonConfig) (env : Env) (w : World) : Except ReplayError World :=
  let stopped := ((save_to_file config.replay.cache_path).exec (handler env) w).2
  match startup config stopped.file none (env.order stopped.tick) with
  | .error e => .error e
  | .ok cache => .ok { stopped.next with cache := cache }

/-- What `check_and_insert` answers to one nonce after the other. -/
def answers (config : DaemonConfig) (env : Env) :
    List Nonce → World → List (Except ReplayError Bool)
  | [], _ => []
  | n :: ns, w =>
      let r := (check_and_insert (some config.replay.cache_path) n).exec (handler env) w
      r.1 :: answers config env ns r.2

/-- No write fails. -/
def Persists (env : Env) : Prop := ∀ n, env.persist n = none

/-- A restart in this state goes unnoticed: whatever order the map is iterated in,
    every later sequence of nonces gets the same answers. -/
def RestartInvisible (config : DaemonConfig) (w : World) : Prop :=
  ∀ env, Persists env → ∃ w', restart config env w = .ok w'
    ∧ ∀ ns, answers config env ns w' = answers config env ns w

/-- The nonces, the capacity and the eviction order survive a restart. -/
def RestartPreserves (config : DaemonConfig) (w : World) : Prop :=
  ∀ env, Persists env → ∃ w', restart config env w = .ok w'
    ∧ w'.cache.cap = w.cache.cap ∧ w'.cache.map.entries = w.cache.map.entries

variable (config : DaemonConfig) {env : Env}

/-- With every write succeeding an insertion answers whether the nonce was new, and
    moves the keys as the recency list does. -/
theorem check_and_insert_of_persists (hp : Persists env) (n : Nonce) (w : World) :
    ∃ w', (check_and_insert (some config.replay.cache_path) n).exec (handler env) w
        = (.ok (isNew w.cache.map.keys n), w')
      ∧ w'.cache.cap = w.cache.cap
      ∧ w'.cache.map.keys = remember w.cache.cap w.cache.map.keys n := by
  generalize hr : (check_and_insert (some config.replay.cache_path) n).exec (handler env) w = res
  obtain ⟨r, w'⟩ := res
  obtain ⟨_, hcases⟩ := check_and_insert_cases hr
  refine ⟨w', ?_⟩
  rcases hcases with ⟨rfl, hin, hc, _⟩ | ⟨hnot, _, ⟨rfl, hc, _⟩ | ⟨_, _, _, _, k, _, _, hfail⟩⟩
  · have hmem : n ∈ w.cache.map.keys := hin
    rw [hc, remember, if_pos hmem, isNew_of_mem hmem]
    exact ⟨rfl, rfl, rfl⟩
  · have hnm : n ∉ w.cache.map.keys := hnot
    rw [hc, keys_put_of_notMem _ hnot, isNew_of_notMem hnm]
    exact ⟨rfl, LruCache.put_cap _ _ _, rfl⟩
  · exact absurd (hp k) hfail

theorem answers_eq (hp : Persists env) (ns : List Nonce) (w : World) :
    answers config env ns w = (newAnswers w.cache.cap w.cache.map.keys ns).map .ok := by
  induction ns generalizing w with
  | nil => rfl
  | cons n ns ih =>
      obtain ⟨w', hrun, hcap, hkeys⟩ := check_and_insert_of_persists config hp n w
      simp only [answers, hrun, newAnswers, List.map_cons]
      rw [ih w', hcap, hkeys]

/-- **WHAT A RESTART LEAVES**: the default capacity, and the entries in some order of
    the two iterations, the most recent ones that fit. -/
theorem restart_eq_ok (hp : Persists env) (w : World) :
    ∃ w', restart config env w = .ok w' ∧ w'.cache.cap = DEFAULT_MAX_ENTRIES
      ∧ w'.cache.map.entries = (env.order (w.tick + 2)
          (env.order (w.tick + 1) w.cache.map.entries).reverse).reverse.take
            DEFAULT_MAX_ENTRIES := by
  have hnd : (env.order (w.tick + 1) w.cache.map.entries).NodupKeys :=
    (List.perm_nodupKeys (env.order_perm _ _)).mpr w.cache.map.nodupKeys
  obtain ⟨m, hread, hm⟩ := read_cache_text config.replay.cache_path hnd
  obtain ⟨c, hload, hcap, hentries⟩ := load_from_file_eq_ok (env.order_perm (w.tick + 2)) hread
  have hsave : ((save_to_file config.replay.cache_path).exec (handler env) w).2
      = { w.next.next with
          file := some (cache_text (env.order (w.tick + 1) w.cache.map.entries)) } := by
    show (handler env _ (.writeCacheFile _ w.cache.map.entries) w.next).2 = _
    rw [handler_writeCacheFile_of_none env w.next (hp _)]
    rfl
  have hstart : startup config (some (cache_text (env.order (w.tick + 1) w.cache.map.entries))) none
      (env.order (w.tick + 2)) = .ok c := hload
  refine ⟨{ w.next.next.next with
    cache := c
    file := some (cache_text (env.order (w.tick + 1) w.cache.map.entries)) }, ?_, hcap, ?_⟩
  · simp only [restart, hsave, World.next_tick, hstart]
    rfl
  · rw [← hm]
    exact hentries

/-! ## Telling two caches apart -/

/-- Nonces that differ in their first two bytes. -/
def numbered (i : Nat) : Nonce :=
  (Vector.replicate 16 0).set 0 (UInt8.ofNat (i / 256)) |>.set 1 (UInt8.ofNat i)

theorem numbered_inj {i j : Nat} (hi : i < 65536) (hj : j < 65536)
    (h : numbered i = numbered j) : i = j := by
  have h0 : UInt8.ofNat (i / 256) = UInt8.ofNat (j / 256) := congrArg (fun v : Nonce => v[0]) h
  have h1 : UInt8.ofNat i = UInt8.ofNat j := congrArg (fun v : Nonce => v[1]) h
  have h0' := congrArg UInt8.toNat h0
  have h1' := congrArg UInt8.toNat h1
  simp only [UInt8.toNat_ofNat'] at h0' h1'
  omega

/-- There are always enough nonces a cache does not hold. -/
theorem exists_fresh (ks : List Nonce) {m : Nat} (h : ks.length + m ≤ 65536) :
    ∃ fs : List Nonce, fs.length = m ∧ fs.Nodup ∧ ∀ f ∈ fs, f ∉ ks := by
  have hall : ((Finset.range 65536).image numbered).card = 65536 := by
    rw [Finset.card_image_of_injOn, Finset.card_range]
    intro i hi j hj hij
    exact numbered_inj (Finset.mem_range.mp hi) (Finset.mem_range.mp hj) hij
  have hks : ks.toFinset.card ≤ ks.length := List.toFinset_card_le ks
  have hroom := Finset.le_card_sdiff ks.toFinset ((Finset.range 65536).image numbered)
  have hm : m ≤ ((Finset.range 65536).image numbered \ ks.toFinset).card := by omega
  obtain ⟨t, ht, hcard⟩ := Finset.exists_subset_card_eq hm
  refine ⟨t.toList, (Finset.length_toList t).trans hcard, t.nodup_toList, ?_⟩
  intro f hf hin
  exact (Finset.mem_sdiff.mp (ht (Finset.mem_toList.mp hf))).2 (List.mem_toFinset.mpr hin)

/-- An environment without failures, with the given order of iteration. -/
def orderedEnv (order : Nat → List Entry → List Entry) (h : ∀ n l, (order n l).Perm l) : Env where
  clock _ := ⟨0⟩
  persist _ := none
  firewall _ _ := .ok ⟨""⟩
  order := order
  order_perm := h

variable {config}

/-- What invisibility says about the recency lists, for one order of iteration. -/
theorem newAnswers_of_invisible {w : World} (h : RestartInvisible config w)
    (order : Nat → List Entry → List Entry) (hperm : ∀ n l, (order n l).Perm l) (ns : List Nonce) :
    newAnswers w.cache.cap w.cache.map.keys ns
      = newAnswers DEFAULT_MAX_ENTRIES (((order (w.tick + 2)
          (order (w.tick + 1) w.cache.map.entries).reverse).reverse.take
            DEFAULT_MAX_ENTRIES).map Sigma.fst) ns := by
  have hp : Persists (orderedEnv order hperm) := fun _ => rfl
  obtain ⟨w', hr, hans⟩ := h (orderedEnv order hperm) hp
  obtain ⟨w'', hr', hcap, hentries⟩ := restart_eq_ok config hp w
  cases hr.symm.trans hr'
  have hns := hans ns
  rw [answers_eq config hp, answers_eq config hp, hcap] at hns
  have hinj : Function.Injective (Except.ok : Bool → Except ReplayError Bool) :=
    fun _ _ heq => Except.ok.inj heq
  rw [← List.map_injective_iff.mpr hinj hns]
  exact congrArg (fun l => newAnswers DEFAULT_MAX_ENTRIES (List.map Sigma.fst l) ns) hentries

/-- The same for the orders that give the entries back as they were. -/
theorem newAnswers_of_invisible_id {w : World} (h : RestartInvisible config w) (ns : List Nonce) :
    newAnswers w.cache.cap w.cache.map.keys ns
      = newAnswers DEFAULT_MAX_ENTRIES (w.cache.map.keys.take DEFAULT_MAX_ENTRIES) ns := by
  have hans := newAnswers_of_invisible h (fun _ l => l) (fun _ l => .refl l) ns
  simp only [List.reverse_reverse, List.map_take] at hans
  exact hans

theorem keys_length (c : LruCache Nonce UInt64) : c.map.keys.length = c.len := List.length_map _

theorem keys_length_le (c : LruCache Nonce UInt64) : c.map.keys.length ≤ c.cap :=
  (keys_length c).trans_le c.size_le

/-- More nonces than the default capacity: some are lost. -/
theorem not_invisible_of_many {w : World} (hlen : DEFAULT_MAX_ENTRIES < w.cache.len) :
    ¬RestartInvisible config w := by
  intro h
  have hlost : ∃ q ∈ w.cache.map.keys, q ∉ w.cache.map.keys.take DEFAULT_MAX_ENTRIES := by
    by_contra hall
    push Not at hall
    have hle := (w.cache.map.keys_nodup.subperm hall).length_le
    rw [keys_length, List.length_take] at hle
    omega
  obtain ⟨q, hq, hq'⟩ := hlost
  refine newAnswers_fresh_ne (q := q) (keys_length_le w.cache) (List.length_take_le _ _)
    List.nodup_nil (fun f hf => nomatch hf) (fun f hf => nomatch hf) ?_ ?_
    (newAnswers_of_invisible_id h [q])
  · show q ∈ w.cache.map.keys.take w.cache.cap
    rw [List.take_of_length_le (keys_length_le w.cache)]
    exact hq
  · show q ∉ (w.cache.map.keys.take DEFAULT_MAX_ENTRIES).take DEFAULT_MAX_ENTRIES
    rw [List.take_take, Nat.min_self]
    exact hq'

/-- Another capacity: enough fresh nonces push the first one out of one cache only. -/
theorem not_invisible_of_cap {w : World} (hlen : w.cache.len ≤ DEFAULT_MAX_ENTRIES)
    (hcap : w.cache.cap ≠ DEFAULT_MAX_ENTRIES) : ¬RestartInvisible config w := by
  intro h
  have hdef : DEFAULT_MAX_ENTRIES = 10000 := rfl
  have hks : w.cache.map.keys.length ≤ DEFAULT_MAX_ENTRIES := (keys_length _).trans_le hlen
  obtain ⟨fs, hfl, hnd, hfresh⟩ := exists_fresh w.cache.map.keys
    (m := min w.cache.cap DEFAULT_MAX_ENTRIES + 1) (by omega)
  cases fs with
  | nil => exact nomatch hfl
  | cons f gs =>
      have hf := (List.nodup_cons.mp hnd).1
      have hgs : gs.length = min w.cache.cap DEFAULT_MAX_ENTRIES := Nat.succ.inj hfl
      have hsame := newAnswers_of_invisible_id h ((f :: gs) ++ [f])
      rw [List.take_of_length_le hks] at hsame
      rcases Nat.lt_or_gt_of_ne hcap with hlt | hgt
      · exact newAnswers_fresh_ne hks (keys_length_le w.cache) hnd hfresh hfresh
          ((first_fresh_mem_iff hf).mpr (by omega))
          (fun hin => absurd ((first_fresh_mem_iff hf).mp hin) (by omega)) hsame.symm
      · exact newAnswers_fresh_ne (keys_length_le w.cache) hks hnd hfresh hfresh
          ((first_fresh_mem_iff hf).mpr (by omega))
          (fun hin => absurd ((first_fresh_mem_iff hf).mp hin) (by omega)) hsame

/-- Two nonces: an order of iteration that reverses them makes another one the oldest. -/
theorem not_invisible_of_two {w : World} (hcap : w.cache.cap = DEFAULT_MAX_ENTRIES)
    (hlen : 2 ≤ w.cache.len) : ¬RestartInvisible config w := by
  intro h
  have hdef : DEFAULT_MAX_ENTRIES = 10000 := rfl
  have hks : w.cache.map.keys.length ≤ DEFAULT_MAX_ENTRIES := hcap ▸ keys_length_le w.cache
  have hn : 2 ≤ w.cache.map.keys.length := (keys_length w.cache).symm ▸ hlen
  -- a hash map that comes back in the opposite order at the load
  have hsame := newAnswers_of_invisible h
    (fun n l => if n = w.tick + 2 then l.reverse else l) (by
      intro n l
      by_cases hn : n = w.tick + 2
      · simp only [if_pos hn]
        exact List.reverse_perm l
      · simp only [if_neg hn]
        exact .refl l)
  have hfirst : w.tick + 1 ≠ w.tick + 2 := by omega
  have hrev : w.cache.map.keys.reverse.length ≤ DEFAULT_MAX_ENTRIES := by
    rw [List.length_reverse]
    exact hks
  simp only [if_true, if_neg hfirst, List.reverse_reverse, List.map_take, List.map_reverse] at hsame
  have hkeys : w.cache.map.entries.map Sigma.fst = w.cache.map.keys := rfl
  rw [hkeys, List.take_of_length_le hrev] at hsame
  rcases List.eq_nil_or_concat w.cache.map.keys with hnil | ⟨rest, z, hz⟩
  · rw [hnil] at hn
    exact absurd hn (by decide)
  · rw [List.concat_eq_append] at hz
    have hlast : z ∈ w.cache.map.keys := by
      rw [hz]
      exact List.mem_append_right _ List.mem_cons_self
    have hlen : w.cache.map.keys.length = rest.length + 1 := by
      rw [hz, List.length_append]
      rfl
    have hzrest : z ∉ rest := by
      have hnd := w.cache.map.keys_nodup
      rw [hz] at hnd
      exact fun hin => (List.disjoint_of_nodup_append hnd) hin List.mem_cons_self
    obtain ⟨fs, hfl, hnd, hfresh⟩ := exists_fresh w.cache.map.keys
      (m := DEFAULT_MAX_ENTRIES - rest.length) (by omega)
    have hfresh' : ∀ f ∈ fs, f ∉ w.cache.map.keys.reverse :=
      fun f hf hin => hfresh f hf (List.mem_reverse.mp hin)
    refine newAnswers_fresh_ne hrev (keys_length_le w.cache) hnd hfresh' hfresh (q := z) ?_ ?_
      (hsame _).symm
    · rw [hz]
      exact oldest_mem_reversed rest (by omega)
    · rw [hz, hcap]
      exact oldest_not_mem (by omega) (fun hf => hfresh z hf hlast) hzrest

/-- At most one nonce in a cache of the default capacity comes back as it was. -/
theorem preserves_of_default {w : World} (hcap : w.cache.cap = DEFAULT_MAX_ENTRIES)
    (hlen : w.cache.len ≤ 1) : RestartPreserves config w := by
  intro env hp
  obtain ⟨w', hr, hcap', hentries⟩ := restart_eq_ok config hp w
  refine ⟨w', hr, hcap'.trans hcap.symm, ?_⟩
  have hperm : (env.order (w.tick + 2)
      (env.order (w.tick + 1) w.cache.map.entries).reverse).reverse.Perm w.cache.map.entries :=
    (List.reverse_perm _).trans ((env.order_perm _ _).trans
      ((List.reverse_perm _).trans (env.order_perm _ _)))
  have hfit : (env.order (w.tick + 2)
      (env.order (w.tick + 1) w.cache.map.entries).reverse).reverse.length
        ≤ DEFAULT_MAX_ENTRIES := by
    rw [hperm.length_eq]
    exact hcap ▸ w.cache.size_le
  rw [hentries, List.take_of_length_le hfit]
  have hone : w.cache.map.entries.length ≤ 1 := hlen
  match he : w.cache.map.entries, hone with
  | [], _ => exact List.perm_nil.mp (he ▸ hperm)
  | [e], _ => exact List.perm_singleton.mp (he ▸ hperm)

/-- **A RESTART IS INVISIBLE** exactly when the cache has the default capacity and holds
    at most one nonce; then everything survives it. -/
theorem restart_invisible_iff (config : DaemonConfig) (w : World) :
    (RestartInvisible config w ↔ w.cache.cap = DEFAULT_MAX_ENTRIES ∧ w.cache.len ≤ 1)
      ∧ (RestartInvisible config w → RestartPreserves config w) := by
  have hforward : RestartInvisible config w →
      w.cache.cap = DEFAULT_MAX_ENTRIES ∧ w.cache.len ≤ 1 := by
    intro h
    have hcap : w.cache.cap = DEFAULT_MAX_ENTRIES := by
      by_contra hne
      by_cases hlen : w.cache.len ≤ DEFAULT_MAX_ENTRIES
      · exact not_invisible_of_cap hlen hne h
      · exact not_invisible_of_many (Nat.lt_of_not_le hlen) h
    refine ⟨hcap, ?_⟩
    by_contra htwo
    exact not_invisible_of_two hcap (Nat.lt_of_not_le htwo) h
  refine ⟨⟨hforward, ?_⟩, fun h => preserves_of_default (hforward h).1 (hforward h).2⟩
  rintro ⟨hcap, hlen⟩ env hp
  have hpres : RestartPreserves config w := preserves_of_default hcap hlen
  obtain ⟨w', hr, hcap', hentries⟩ := hpres env hp
  refine ⟨w', hr, ?_⟩
  intro ns
  have hkeys : w'.cache.map.keys = w.cache.map.keys := congrArg (List.map Sigma.fst) hentries
  rw [answers_eq config hp, answers_eq config hp, hcap', hkeys]

/-- Room for a single nonce; `validate` puts no bound on `max_entries`. -/
def tinyConfig : DaemonConfig := { sampleConfig with replay := { max_entries := 1 } }

/-- A host whose hash map keeps its order. -/
def tinyEnv : Env := orderedEnv (fun _ l => l) (fun _ l => .refl l)

/-- The world of a first start: no file, so an empty cache of the configured capacity. -/
def tinyStart : World := { emptyWorld with cache := LruCache.new 1 Nat.one_pos }

/-- The world once nonce 1 was accepted. -/
def tinyReached : World :=
  run_ops tinyEnv (some tinyConfig.replay.cache_path) tinyConfig.replay.max_age
    [.insert (numbered 1)] tinyStart

/-- One nonce accepted, then a restart, then another nonce and the first one again: the
    running daemon has forgotten it, the restarted one has not. -/
theorem tinyConfig_restart_noticed :
    tinyConfig.validate = .ok ()
      ∧ startup tinyConfig none none (fun l => l) = .ok tinyStart.cache ∧ Persists tinyEnv
      ∧ ∃ w', restart tinyConfig tinyEnv tinyReached = .ok w'
        ∧ answers tinyConfig tinyEnv [numbered 2, numbered 1] tinyReached = [.ok true, .ok true]
        ∧ answers tinyConfig tinyEnv [numbered 2, numbered 1] w' = [.ok true, .ok false] := by
  have hv : tinyConfig.validate = .ok () := by
    have hdef := validate_eq_ok_iff.mp sampleConfig_validate
    exact validate_eq_ok_iff.mpr { hdef with }
  have hp : Persists tinyEnv := fun _ => rfl
  obtain ⟨w', hr, hcap, hentries⟩ := restart_eq_ok tinyConfig hp tinyReached
  have hkeys : w'.cache.map.keys = [numbered 1] := by
    show w'.cache.map.entries.map Sigma.fst = _
    rw [hentries]
    decide +kernel
  refine ⟨hv, rfl, hp, w', hr, ?_, ?_⟩
  · rw [answers_eq tinyConfig hp]
    decide +kernel
  · rw [answers_eq tinyConfig hp, hcap, hkeys]
    decide +kernel

end FwknoxRestart
