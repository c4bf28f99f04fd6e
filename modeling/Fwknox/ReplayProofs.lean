import Fwknox.ConfigProofs
import Fwknox.WorldProofs

/-! # The replay cache — when pruning is safe

    `cache.rs` as programs over the daemon's effects.  `check_and_insert_cases` and
    `prune_older_than_cases` list everything a call can do, so later files never run
    the programs again.

    The configuration check bounds the two durations that meet here, the freshness
    window of the protocol and the retention of the cache, but does not compare them.
    `prune_safe_iff` is the exact comparison it would need: pruning forgets only
    nonces that can no longer be replayed iff the retention covers the window plus the
    allowed skew, in whole seconds. -/

namespace FwknoxReplay

open FwknoxTypes FwknoxClock FwknoxConfig FwknoxPersist FwknoxWorld LruMap EffectProg
open EffectProg.Prog

/-- The capacity a cache has when none is configured. -/
def DEFAULT_MAX_ENTRIES : Nat := 10000

/-! ## The operations -/

/-- Copy under the lock, write without it. -/
def save_to_file (path : String) : Prog Eff (Except ReplayError Unit) := do
  let map ← perform .snapshot
  perform (.writeCacheFile path map)

/-- Save when a persistence path is attached. -/
def auto_save (persist_path : Option String) : Prog Eff (Except ReplayError Unit) :=
  match persist_path with
  | none => pure (.ok ())
  | some path => save_to_file path

/-- A nonce that cannot be saved is taken out again, and the caller told so. -/
def check_and_insert (persist_path : Option String) (nonce : Nonce) :
    Prog Eff (Except ReplayError Bool) := do
  let now ← perform .systemTime
  if ← perform (.insertFresh nonce now.unix_secs) then
    match ← auto_save persist_path with
    | .ok _ => pure (.ok true)
    | .error e => do
        perform (.pop nonce)
        pure (.error e)
  else pure (.ok false)

/-- `u64::saturating_sub`. -/
def saturating_sub (a b : UInt64) : UInt64 := if b ≤ a then a - b else 0

/-- Drop what is older than `max_age`, and save if anything went. -/
def prune_older_than (persist_path : Option String) (max_age : Duration) :
    Prog Eff (Except ReplayError Nat) := do
  let now ← perform .systemTime
  let pruned ← perform (.pruneStale (saturating_sub now.unix_secs max_age.as_secs))
  if pruned > 0 then
    match ← auto_save persist_path with
    | .ok _ => pure (.ok pruned)
    | .error e => pure (.error e)
  else pure (.ok pruned)

/-- The capacity of every loaded cache is the default one. -/
def load_from_file (path : String) (file : Except String (Option (List Char)))
    (order : List Entry → List Entry) : Except ReplayError (LruCache Nonce UInt64) :=
  match read_cache_file path file with
  | .error e => .error e
  | .ok entries =>
      .ok ((LruCache.new DEFAULT_MAX_ENTRIES (by decide)).putAll (order entries.entries))

/-- The cache `real_main` starts with: the saved one, or an empty one when there is no
    file.  `read_error` is what reading the file fails with, if it does.  The cache is taken to
    be allocated; whether it can be is asked where the daemon starts. -/
def startup (config : DaemonConfig) (file : Option (List Char)) (read_error : Option String)
    (order : List Entry → List Entry) : Except ReplayError (LruCache Nonce UInt64) :=
  match file, read_error with
  | none, _ => .ok (LruCache.new (max config.replay.max_entries 1) (by omega))
  | some text, none => load_from_file config.replay.cache_path (.ok (some text)) order
  | some _, some e => load_from_file config.replay.cache_path (.error e) order

/-! ## Files and caches -/

section Files

variable {path : String} {order : List Entry → List Entry}

/-- Reading a saved cache gives its bindings back, whatever order they were written in. -/
theorem read_saved (path : String) (horder : ∀ l, (order l).Perm l) (c : LruCache Nonce UInt64) :
    ∃ m, read_cache_file path (.ok (some (cache_text (order c.map.entries)))) = .ok m
      ∧ m.entries.Perm c.map.entries := by
  have hnd : (order c.map.entries).NodupKeys :=
    (List.perm_nodupKeys (horder _)).mpr c.map.nodupKeys
  obtain ⟨m, hread, hm⟩ := read_cache_text path hnd
  exact ⟨m, hread, hm ▸ (List.reverse_perm _).trans (horder _)⟩

/-- Loading keeps what fits, most recent first in the order of the iteration. -/
theorem load_from_file_eq_ok {file : Except String (Option (List Char))}
    {m : Assoc Nonce UInt64} (horder : ∀ l, (order l).Perm l)
    (hm : read_cache_file path file = .ok m) :
    ∃ c, load_from_file path file order = .ok c ∧ c.cap = DEFAULT_MAX_ENTRIES
      ∧ c.map.entries = (order m.entries).reverse.take DEFAULT_MAX_ENTRIES := by
  have hnd : (order m.entries).NodupKeys := (List.perm_nodupKeys (horder _)).mpr m.nodupKeys
  refine ⟨(LruCache.new DEFAULT_MAX_ENTRIES (by decide)).putAll (order m.entries), ?_,
    LruCache.putAll_cap _ _, ?_⟩
  · simp only [load_from_file, hm]
  · rw [LruCache.putAll_entries hnd (fun _ _ => AList.notMem_empty _)]
    exact congrArg _ (List.append_nil _)

end Files

/-! ## What a call can do -/

variable {env : Env}

theorem saturating_sub_toNat (a b : UInt64) :
    (saturating_sub a b).toNat = a.toNat - b.toNat := by
  unfold saturating_sub
  by_cases h : b ≤ a
  · rw [if_pos h, UInt64.toNat_sub_of_le a b h]
  · have hlt : a.toNat < b.toNat := UInt64.lt_iff_toNat_lt.mp (UInt64.not_le.mp h)
    rw [if_neg h]
    show 0 = a.toNat - b.toNat
    omega

/-- A save leaves memory alone, and the file too when it fails. -/
theorem auto_save_cases {persist_path : Option String} {w w' : World}
    {r : Except ReplayError Unit}
    (h : (auto_save persist_path).exec (handler env) w = (r, w')) :
    (w'.cache = w.cache ∧ w'.evicted = w.evicted ∧ w'.calls = w.calls ∧ w'.current = w.current
        ∧ w.tick ≤ w'.tick)
      ∧ ((r = .ok () ∧ (persist_path = none ∧ w'.file = w.file
            ∨ ∃ k, w'.file = some (cache_text (env.order k w.cache.map.entries))))
        ∨ ((∃ e, r = .error e) ∧ persist_path ≠ none ∧ w'.file = w.file
            ∧ ∃ k, w.tick ≤ k ∧ k < w'.tick ∧ env.persist k ≠ none)) := by
  cases persist_path with
  | none =>
      cases h
      exact ⟨⟨rfl, rfl, rfl, rfl, Nat.le_refl _⟩, .inl ⟨rfl, .inl ⟨rfl, rfl⟩⟩⟩
  | some path =>
      have hle : w.tick ≤ w.tick + 1 + 1 := Nat.le_add_right w.tick 2
      simp only [auto_save, save_to_file, bind_eq, perform_bind, exec_op, exec_perform,
        handler_snapshot] at h
      cases hp : env.persist (w.tick + 1) with
      | none =>
          rw [handler_writeCacheFile_of_none env w.next hp] at h
          cases h
          exact ⟨⟨rfl, rfl, rfl, rfl, hle⟩, .inl ⟨rfl, .inr ⟨_, rfl⟩⟩⟩
      | some e =>
          rw [handler_writeCacheFile_of_some env w.next hp] at h
          cases h
          exact ⟨⟨rfl, rfl, rfl, rfl, hle⟩, .inr ⟨⟨_, rfl⟩, (fun h => nomatch h), rfl, w.tick + 1,
            Nat.le_succ _, Nat.lt_succ_self _, fun hnone => nomatch hp.symm.trans hnone⟩⟩

/-- **EVERY CALL OF `check_and_insert`**: a replay changes nothing; a fresh nonce is
    stamped with the clock and, when there is a path, on disk before the answer; a
    failed save takes the nonce out again. -/
theorem check_and_insert_cases {persist_path : Option String} {nonce : Nonce} {w w' : World}
    {r : Except ReplayError Bool}
    (h : (check_and_insert persist_path nonce).exec (handler env) w = (r, w')) :
    (w'.calls = w.calls ∧ w'.current = w.current ∧ w.tick < w'.tick)
      ∧ ((r = .ok false ∧ nonce ∈ w.cache.map ∧ w'.cache = w.cache ∧ w'.file = w.file
            ∧ w'.evicted = w.evicted)
        ∨ (nonce ∉ w.cache.map
            ∧ w'.evicted = (if w.cache.len < w.cache.cap then w.evicted else w.evicted + 1)
            ∧ ((r = .ok true ∧ w'.cache = w.cache.put nonce (env.clock w.tick).unix_secs
                ∧ (persist_path = none ∧ w'.file = w.file
                  ∨ ∃ k, w'.file = some (cache_text (env.order k w'.cache.map.entries))))
              ∨ ((∃ e, r = .error e) ∧ persist_path ≠ none ∧ w'.file = w.file
                  ∧ w'.cache = (w.cache.put nonce (env.clock w.tick).unix_secs).pop nonce
                  ∧ ∃ k, w.tick ≤ k ∧ k < w'.tick ∧ env.persist k ≠ none)))) := by
  have htwo : w.tick < w.tick + 1 + 1 := by omega
  unfold check_and_insert at h
  simp only [bind_eq, perform_bind, exec_op, handler_systemTime] at h
  by_cases hm : nonce ∈ w.cache.map
  · rw [handler_insertFresh_of_mem env w.next _ hm] at h
    cases h
    exact ⟨⟨rfl, rfl, htwo⟩, .inl ⟨rfl, hm, rfl, rfl, rfl⟩⟩
  · rw [handler_insertFresh_of_notMem env w.next _ hm] at h
    simp only [if_true, exec_bind] at h
    generalize hs : (auto_save persist_path).exec (handler env) _ = rs at h
    obtain ⟨r', w₁⟩ := rs
    obtain ⟨⟨hc, he, hcalls, hcur, ht⟩, hres⟩ := auto_save_cases hs
    have htick : w.tick < w₁.tick := Nat.lt_of_lt_of_le htwo ht
    -- saved, or rolled back
    rcases hres with ⟨rfl, hf⟩ | ⟨⟨e, rfl⟩, hp, hf, k, hk, hk', hfail⟩
    · cases h
      refine ⟨⟨hcalls, hcur, htick⟩, .inr ⟨hm, he, .inl ⟨rfl, hc, ?_⟩⟩⟩
      rw [hc]
      exact hf
    · cases h
      exact ⟨⟨hcalls, hcur, Nat.lt_succ_of_lt htick⟩,
        .inr ⟨hm, he, .inr ⟨⟨_, rfl⟩, hp, hf, congrArg (LruCache.pop · nonce) hc, k,
          Nat.le_trans (Nat.le_add_right w.tick 2) hk, Nat.lt_succ_of_lt hk', hfail⟩⟩⟩

section Returned

variable {persist_path : Option String} {nonce : Nonce} {w w' : World}

/-- After `Ok(true)` the nonce was new and is stored. -/
theorem check_and_insert_stored
    (h : (check_and_insert persist_path nonce).exec (handler env) w = (.ok true, w')) :
    nonce ∉ w.cache.map ∧ w'.cache = w.cache.put nonce (env.clock w.tick).unix_secs := by
  obtain ⟨_, hcases⟩ := check_and_insert_cases h
  rcases hcases with ⟨hr, _⟩ | ⟨hnew, _, ⟨_, hc, _⟩ | ⟨⟨e, hr⟩, _⟩⟩
  · cases hr
  · exact ⟨hnew, hc⟩
  · cases hr

/-- After `Ok(false)` the nonce was known, and the cache is untouched. -/
theorem check_and_insert_known
    (h : (check_and_insert persist_path nonce).exec (handler env) w = (.ok false, w')) :
    nonce ∈ w.cache.map ∧ w'.cache = w.cache := by
  obtain ⟨_, hcases⟩ := check_and_insert_cases h
  rcases hcases with ⟨_, hin, hc, _⟩ | ⟨_, _, ⟨hr, _⟩ | ⟨⟨e, hr⟩, _⟩⟩
  · exact ⟨hin, hc⟩
  · cases hr
  · cases hr

/-- After an error the nonce was new, its entry is taken out again, and a write failed. -/
theorem check_and_insert_failed {e : ReplayError}
    (h : (check_and_insert persist_path nonce).exec (handler env) w = (.error e, w')) :
    nonce ∉ w.cache.map
      ∧ w'.cache = (w.cache.put nonce (env.clock w.tick).unix_secs).pop nonce
      ∧ ∃ k, w.tick ≤ k ∧ k < w'.tick ∧ env.persist k ≠ none := by
  obtain ⟨_, hcases⟩ := check_and_insert_cases h
  rcases hcases with ⟨hr, _⟩ | ⟨hnew, _, ⟨hr, _⟩ | ⟨_, _, _, hc, hk⟩⟩
  · cases hr
  · cases hr
  · exact ⟨hnew, hc, hk⟩

/-- A new nonce goes in as long as no write fails. -/
theorem check_and_insert_of_new (persist_path : Option String) (hnew : nonce ∉ w.cache.map)
    (hpersist : ∀ k, env.persist k = none) :
    ∃ w₁, (check_and_insert persist_path nonce).exec (handler env) w = (.ok true, w₁)
      ∧ w₁.calls = w.calls ∧ w₁.current = w.current := by
  generalize hr : (check_and_insert persist_path nonce).exec (handler env) w = res
  obtain ⟨r, w₁⟩ := res
  obtain ⟨⟨hcalls, hcur, _⟩, hcases⟩ := check_and_insert_cases hr
  rcases hcases with ⟨_, hin, _⟩ | ⟨_, _, ⟨rfl, _⟩ | ⟨_, _, _, _, k, _, _, hfail⟩⟩
  · exact absurd hin hnew
  · exact ⟨w₁, rfl, hcalls, hcur⟩
  · exact absurd (hpersist k) hfail

end Returned

/-- **EVERY CALL OF `prune_older_than`**: entries stamped before the cutoff leave
    memory; the file is either as before or the pruned cache. -/
theorem prune_older_than_cases {persist_path : Option String} {max_age : Duration} {w w' : World}
    {r : Except ReplayError Nat}
    (h : (prune_older_than persist_path max_age).exec (handler env) w = (r, w')) :
    (w'.calls = w.calls ∧ w'.current = w.current ∧ w.tick < w'.tick ∧ w'.evicted = w.evicted)
      ∧ w'.cache = w.cache.popAll (stale w.cache
          (saturating_sub (env.clock w.tick).unix_secs max_age.as_secs))
      ∧ (w'.file = w.file
        ∨ ∃ k, w'.file = some (cache_text (env.order k w'.cache.map.entries))) := by
  have htwo : w.tick < w.tick + 1 + 1 := by omega
  unfold prune_older_than at h
  simp only [bind_eq, perform_bind, exec_op, handler_systemTime] at h
  generalize hprune : handler env _ (.pruneStale _) _ = rp at h
  obtain ⟨pruned, w₀⟩ := rp
  obtain ⟨_, rfl⟩ := Prod.mk.inj hprune
  by_cases hp : pruned > 0
  · simp only [if_pos hp, exec_bind] at h
    generalize hs : (auto_save persist_path).exec (handler env) _ = rs at h
    obtain ⟨r', w₁⟩ := rs
    obtain ⟨⟨hc, he, hcalls, hcur, ht⟩, hres⟩ := auto_save_cases hs
    have htick : w.tick < w₁.tick := Nat.lt_of_lt_of_le htwo ht
    rcases hres with ⟨rfl, hf⟩ | ⟨⟨e, rfl⟩, _, hf, _⟩
    · cases h
      refine ⟨⟨hcalls, hcur, htick, he⟩, hc, ?_⟩
      rw [hc]
      exact hf.imp And.right id
    · cases h
      exact ⟨⟨hcalls, hcur, htick, he⟩, hc, .inl hf⟩
  · simp only [if_neg hp] at h
    cases h
    exact ⟨⟨rfl, rfl, htwo, rfl⟩, rfl, .inl rfl⟩

/-- Without an eviction a call forgets nothing, and `Ok(true)` means that the nonce was
    new and is now stamped. -/
theorem check_and_insert_kept {persist_path : Option String} {nonce : Nonce} {w w' : World}
    {r : Except ReplayError Bool}
    (h : (check_and_insert persist_path nonce).exec (handler env) w = (r, w'))
    (hev : w'.evicted = w.evicted) :
    (∀ n v, w.cache.map.lookup n = some v → w'.cache.map.lookup n = some v)
      ∧ (r = .ok true → nonce ∉ w.cache.map
          ∧ w'.cache.map.lookup nonce = some (env.clock w.tick).unix_secs) := by
  obtain ⟨_, hcases⟩ := check_and_insert_cases h
  rcases hcases with ⟨rfl, _, hc, _⟩ | ⟨hnot, he, hcases⟩
  · rw [hc]
    exact ⟨fun _ _ hv => hv, fun hr => nomatch hr⟩
  · have hroom : w.cache.len < w.cache.cap := by
      by_contra hfull
      rw [if_neg hfull] at he
      omega
    rcases hcases with ⟨rfl, hc, _⟩ | ⟨⟨e, rfl⟩, _, _, hc, _⟩
    · rw [hc]
      refine ⟨fun n v hv => LruCache.lookup_put_of_room _ hnot hroom hv, fun _ => ⟨hnot, ?_⟩⟩
      exact LruCache.lookup_put_self _ _ _
    · rw [hc, LruCache.pop_put_of_room _ hnot hroom]
      exact ⟨fun _ _ hv => hv, fun hr => nomatch hr⟩

/-! ## Failed inserts -/

/-- **ROLLBACK**: a failed insert leaves the cache as it was, entries, stamps and order,
    exactly when the cache was not full; a full one has evicted an entry by then. -/
theorem failed_insert_restores_iff {path : String} {nonce : Nonce} {w w' : World}
    {e : ReplayError}
    (h : (check_and_insert (some path) nonce).exec (handler env) w = (.error e, w')) :
    w'.cache = w.cache ↔ w.cache.len < w.cache.cap := by
  obtain ⟨hnot, hc, _⟩ := check_and_insert_failed h
  rw [hc]
  constructor
  · intro heq
    by_contra hfull
    have hlost := LruCache.len_pop_put_of_full (env.clock w.tick).unix_secs hnot
      (Nat.le_antisymm w.cache.size_le (Nat.le_of_not_lt hfull))
    rw [heq] at hlost
    omega
  · intro hroom
    exact LruCache.pop_put_of_room _ hnot hroom

/-- The epoch for good; writes fail from some moment on. -/
def fullDiskEnv (since : Nat) : Env where
  clock _ := ⟨0⟩
  persist n := if n < since then none else some "No space left on device"
  firewall _ _ := .ok ⟨""⟩
  order _ l := l
  order_perm _ l := .refl l

/-- A cache with one place. -/
def emptyWorld : World where
  tick := 0
  cache := LruCache.new 1 (by decide)
  file := none
  evicted := 0
  current := ⟨0, ⟨.v4 #v[0, 0, 0, 0], []⟩, 0⟩
  calls := []

/-- A cache with two places. -/
def twoPlaces : World := { emptyWorld with cache := LruCache.new 2 Nat.two_pos }

/-- The first insert leaves one place; the second fails, and the cache is as after the first. -/
theorem failed_insert_with_room_restores :
    let w := ((check_and_insert (some "/c") (Vector.replicate 16 0)).exec
      (handler (fullDiskEnv 4)) twoPlaces).2
    let failed := (check_and_insert (some "/c") (Vector.replicate 16 1)).exec
      (handler (fullDiskEnv 4)) w
    failed.1 = .error (.write "/c" "No space left on device")
      ∧ w.cache.map.keys = [Vector.replicate 16 0] ∧ failed.2.cache = w.cache := by
  have hfail : ((check_and_insert (some "/c") (Vector.replicate 16 1)).exec
      (handler (fullDiskEnv 4)) ((check_and_insert (some "/c") (Vector.replicate 16 0)).exec
        (handler (fullDiskEnv 4)) twoPlaces).2).1
      = .error (.write "/c" "No space left on device") := by decide +kernel
  exact ⟨hfail, by decide +kernel,
    (failed_insert_restores_iff (Prod.ext hfail rfl)).mpr (by decide +kernel)⟩

/-- The first insert fills the cache; the second fails, and the first nonce is gone. -/
theorem failed_insert_loses_a_nonce :
    let w := ((check_and_insert (some "/c") (Vector.replicate 16 0)).exec
      (handler (fullDiskEnv 4)) emptyWorld).2
    let failed := (check_and_insert (some "/c") (Vector.replicate 16 1)).exec
      (handler (fullDiskEnv 4)) w
    failed.1 = .error (.write "/c" "No space left on device")
      ∧ w.cache.map.keys = [Vector.replicate 16 0] ∧ failed.2.cache.map.keys = []
      ∧ failed.2.cache ≠ w.cache := by
  have hkeys : ((check_and_insert (some "/c") (Vector.replicate 16 1)).exec
      (handler (fullDiskEnv 4)) ((check_and_insert (some "/c") (Vector.replicate 16 0)).exec
        (handler (fullDiskEnv 4)) emptyWorld).2).2.cache.map.keys = [] := by decide +kernel
  have hbefore : ((check_and_insert (some "/c") (Vector.replicate 16 0)).exec
      (handler (fullDiskEnv 4)) emptyWorld).2.cache.map.keys = [Vector.replicate 16 0] := by
    decide +kernel
  refine ⟨by decide +kernel, hbefore, hkeys, ?_⟩
  intro heq
  rw [heq, hbefore] at hkeys
  exact nomatch hkeys

/-! ## Stamps along a run -/

/-- The calls the daemon makes on its cache. -/
inductive CacheOp where
  | insert (nonce : Nonce)
  | prune

/-- One call of the cache. -/
def CacheOp.run (env : Env) (persist_path : Option String) (max_age : Duration) :
    CacheOp → World → World
  | .insert nonce, w => ((check_and_insert persist_path nonce).exec (handler env) w).2
  | .prune, w => ((prune_older_than persist_path max_age).exec (handler env) w).2

/-- Calls one after another. -/
def run_ops (env : Env) (persist_path : Option String) (max_age : Duration) :
    List CacheOp → World → World
  | [], w => w
  | o :: ops, w => run_ops env persist_path max_age ops (o.run env persist_path max_age w)

/-- A clock that never goes back. -/
def Nondecreasing (env : Env) : Prop := ∀ i j, i ≤ j → env.clock i ≤ env.clock j

/-- Whatever stamp the nonce has in memory, it is not before second `s`. -/
def StampedSince (nonce : Nonce) (s : Nat) (w : World) : Prop :=
  ∀ v, w.cache.map.lookup nonce = some v → s ≤ v.toNat

theorem stampedSince_put {nonce n : Nonce} {s : Nat} {c : LruCache Nonce UInt64} {now : UInt64}
    (hc : ∀ v, c.map.lookup nonce = some v → s ≤ v.toNat) (hnow : s ≤ now.toNat) :
    ∀ v, (c.put n now).map.lookup nonce = some v → s ≤ v.toNat := by
  intro v hv
  rcases LruCache.lookup_put_cases hv with ⟨_, rfl⟩ | ⟨_, hold⟩
  · exact hnow
  · exact hc v hold

variable (persist_path : Option String) (max_age : Duration)

/-- One call keeps every stamp of a nonce at or after `s`, once the clock is there. -/
theorem stampedSince_step {nonce : Nonce} {s : Nat} {w : World} (o : CacheOp)
    (hw : StampedSince nonce s w) (hs : s ≤ (env.clock w.tick).unix_secs.toNat) :
    StampedSince nonce s (o.run env persist_path max_age w)
      ∧ w.tick ≤ (o.run env persist_path max_age w).tick := by
  cases o with
  | insert n =>
      generalize hr : (check_and_insert persist_path n).exec (handler env) w = res
      obtain ⟨r, w'⟩ := res
      obtain ⟨⟨_, _, ht⟩, hcases⟩ := check_and_insert_cases hr
      show StampedSince nonce s ((check_and_insert persist_path n).exec (handler env) w).2 ∧ _
        ≤ ((check_and_insert persist_path n).exec (handler env) w).2.tick
      rw [hr]
      refine ⟨?_, Nat.le_of_lt ht⟩
      intro v hv
      rcases hcases with ⟨_, _, hc, _⟩ | ⟨_, _, ⟨_, hc, _⟩ | ⟨_, _, _, hc, _⟩⟩
      · exact hw v (hc ▸ hv)
      · exact stampedSince_put hw hs v (hc ▸ hv)
      · rw [hc, LruCache.pop_map] at hv
        by_cases hn : nonce = n
        · rw [hn, AList.lookup_erase] at hv
          exact nomatch hv
        · rw [AList.lookup_erase_ne hn] at hv
          exact stampedSince_put hw hs v hv
  | prune =>
      generalize hr : (prune_older_than persist_path max_age).exec (handler env) w = res
      obtain ⟨r, w'⟩ := res
      obtain ⟨⟨_, _, ht, _⟩, hc, _⟩ := prune_older_than_cases hr
      show StampedSince nonce s ((prune_older_than persist_path max_age).exec (handler env) w).2 ∧ _
        ≤ ((prune_older_than persist_path max_age).exec (handler env) w).2.tick
      rw [hr]
      refine ⟨?_, Nat.le_of_lt ht⟩
      intro v hv
      rw [hc] at hv
      exact hw v ((LruCache.lookup_popAll _ _ _ _).mp hv).2

/-- Every call of a run does. -/
theorem stampedSince_run (hmono : Nondecreasing env) {nonce : Nonce} {i : Nat}
    (ops : List CacheOp) {w : World} (hi : i ≤ w.tick)
    (hw : StampedSince nonce (env.clock i).unix_secs.toNat w) :
    StampedSince nonce (env.clock i).unix_secs.toNat (run_ops env persist_path max_age ops w)
      ∧ w.tick ≤ (run_ops env persist_path max_age ops w).tick := by
  induction ops generalizing w with
  | nil => exact ⟨hw, Nat.le_refl _⟩
  | cons o ops ih =>
      obtain ⟨hw', ht⟩ := stampedSince_step persist_path max_age o hw
        (unix_secs_mono (hmono i w.tick hi))
      obtain ⟨hw'', ht'⟩ := ih (Nat.le_trans hi ht) hw'
      exact ⟨hw'', Nat.le_trans ht ht'⟩

/-! ## When pruning is safe -/

/-- Pruning never forgets a nonce that could still be replayed: a payload that was
    fresh at some moment, whose nonce was then accepted, is stale from the moment a
    later prune drops the nonce. -/
def PruneSafe (c : DaemonConfig) : Prop :=
  ∀ (env : Env) (persist_path : Option String) (w w' : World) (payload : SpaPayload) (i : Nat)
    (ops : List CacheOp),
    Nondecreasing env → i ≤ w.tick →
    Fresh c.daemon.max_spa_packet_age payload (env.clock i) →
    (check_and_insert persist_path payload.nonce).exec (handler env) w = (.ok true, w') →
    payload.nonce ∈ (run_ops env persist_path c.replay.max_age ops w').cache.map →
    payload.nonce ∉ (CacheOp.prune.run env persist_path c.replay.max_age
      (run_ops env persist_path c.replay.max_age ops w')).cache.map →
    ∀ t, env.clock (run_ops env persist_path c.replay.max_age ops w').tick ≤ t →
      ¬Fresh c.daemon.max_spa_packet_age payload t

/-- The nonces below the cutoff of a prune have a stamp older than the retention. -/
theorem stamp_of_stale {nonce : Nonce} {c : LruCache Nonce UInt64} {now : UInt64} {v : UInt64}
    {max_age : Duration} (hst : nonce ∈ stale c (saturating_sub now max_age.as_secs))
    (hv : c.map.lookup nonce = some v) : v.toNat + max_age.as_secs.toNat < now.toNat := by
  obtain ⟨u, hu, hlt⟩ := mem_stale_iff.mp hst
  cases hu.symm.trans hv
  have hcut := UInt64.lt_iff_toNat_lt.mp hlt
  rw [saturating_sub_toNat] at hcut
  omega

theorem prune_run_cache (w : World) :
    (CacheOp.prune.run env persist_path max_age w).cache
      = w.cache.popAll (stale w.cache
          (saturating_sub (env.clock w.tick).unix_secs max_age.as_secs)) :=
  (prune_older_than_cases (Prod.mk.eta).symm).2.1

/-- So has a nonce that a prune drops. -/
theorem stamp_of_pruned {nonce : Nonce} {w : World} (hin : nonce ∈ w.cache.map)
    (hout : nonce ∉ (CacheOp.prune.run env persist_path max_age w).cache.map) :
    ∃ v, w.cache.map.lookup nonce = some v
      ∧ v.toNat + max_age.as_secs.toNat < (env.clock w.tick).unix_secs.toNat := by
  obtain ⟨v, hv⟩ := mem_iff_lookup.mp hin
  rw [prune_run_cache] at hout
  refine ⟨v, hv, stamp_of_stale ?_ hv⟩
  by_contra hns
  exact hout (mem_iff_lookup.mpr ⟨v, (LruCache.lookup_popAll _ _ _ _).mpr ⟨hns, hv⟩⟩)

/-- And a nonce with such a stamp is dropped. -/
theorem pruned_of_stamp {nonce : Nonce} {w : World} {v : UInt64}
    (hv : w.cache.map.lookup nonce = some v)
    (hold : v.toNat + max_age.as_secs.toNat < (env.clock w.tick).unix_secs.toNat) :
    nonce ∉ (CacheOp.prune.run env persist_path max_age w).cache.map := by
  intro hstill
  obtain ⟨u, hu⟩ := mem_iff_lookup.mp hstill
  rw [prune_run_cache] at hu
  obtain ⟨hkept, _⟩ := (LruCache.lookup_popAll _ _ _ _).mp hu
  refine hkept (mem_stale_iff.mpr ⟨v, hv, ?_⟩)
  rw [UInt64.lt_iff_toNat_lt, saturating_sub_toNat]
  omega

/-- The condition is enough. -/
theorem pruneSafe_of_retention {c : DaemonConfig}
    (h : c.daemon.max_spa_packet_age.as_secs.toNat + 30 ≤ c.replay.max_age.as_secs.toNat) :
    PruneSafe c := by
  intro env persist_path w w' payload i ops hmono hi hfresh hins hin hout t ht
  obtain ⟨⟨_, _, htick⟩, _⟩ := check_and_insert_cases hins
  obtain ⟨_, hc⟩ := check_and_insert_stored hins
  have hclock := unix_secs_mono (hmono i w.tick hi)
  -- right after the insertion the only stamp of the nonce is the insertion's own
  have hstamp : StampedSince payload.nonce (env.clock i).unix_secs.toNat w' := by
    intro v hv
    rw [hc, LruCache.lookup_put_self] at hv
    rw [← Option.some.inj hv]
    exact hclock
  obtain ⟨hrun, hle⟩ := stampedSince_run persist_path c.replay.max_age hmono ops
    (Nat.le_trans hi (Nat.le_of_lt htick)) hstamp
  obtain ⟨v, hv, hpast⟩ := stamp_of_pruned persist_path c.replay.max_age hin hout
  exact stale_after_retention h hfresh (hrun v hv)
    (Nat.lt_of_lt_of_le hpast (unix_secs_mono ht))

/-- A request stamped thirty seconds after the epoch. -/
def latePayload : SpaPayload where
  nonce := Vector.replicate 16 0
  timestamp := 30
  username := "alice"
  message := .access (.v4 sampleIp) [⟨.tcp, 22⟩]
  client_timeout := none

/-- The epoch, then one later second for good; nothing fails. -/
def leapEnv (later : Nat) : Env where
  clock n := if n = 0 then ⟨0⟩ else ⟨.ofNat later⟩
  persist _ := none
  firewall _ _ := .ok ⟨""⟩
  order _ l := l
  order_perm _ l := .refl l

theorem leapEnv_unix_secs {later n : Nat} (hl : later < 2 ^ 63) (hn : n ≠ 0) :
    ((leapEnv later).clock n).unix_secs.toNat = later := by
  have hclock : (leapEnv later).clock n = ⟨.ofNat later⟩ := if_neg hn
  rw [hclock, unix_secs_toNat, Int64.toInt_ofNat_of_lt hl]
  omega

theorem leapEnv_nondecreasing {later : Nat} (hl : later < 2 ^ 63) :
    Nondecreasing (leapEnv later) := by
  intro i j hij
  show ((leapEnv later).clock i).secs.toInt ≤ ((leapEnv later).clock j).secs.toInt
  have hlater : (Int64.ofNat later).toInt = later := Int64.toInt_ofNat_of_lt hl
  by_cases hi : i = 0
  · by_cases hj : j = 0
    · rw [hi, hj]
    · rw [hi, show (leapEnv later).clock j = ⟨.ofNat later⟩ from if_neg hj]
      show (0 : Int) ≤ (Int64.ofNat later).toInt
      omega
  · have hj : j ≠ 0 := by omega
    rw [show (leapEnv later).clock i = ⟨.ofNat later⟩ from if_neg hi,
      show (leapEnv later).clock j = ⟨.ofNat later⟩ from if_neg hj]

/-- Accepted at second zero, thirty seconds ahead of its time. -/
theorem late_inserted (later : Nat) :
    ∃ w', (check_and_insert none latePayload.nonce).exec (handler (leapEnv later)) emptyWorld
        = (.ok true, w') ∧ 0 < w'.tick ∧ w'.cache.map.lookup latePayload.nonce = some 0 := by
  generalize hr : (check_and_insert none latePayload.nonce).exec (handler (leapEnv later))
    emptyWorld = res
  obtain ⟨r, w'⟩ := res
  obtain ⟨⟨_, _, htick⟩, hcases⟩ := check_and_insert_cases hr
  rcases hcases with ⟨_, hin, _⟩ | ⟨_, _, ⟨rfl, hc, _⟩ | ⟨_, hpath, _⟩⟩
  · exact absurd hin (AList.notMem_empty _)
  · refine ⟨w', rfl, htick, ?_⟩
    rw [hc, LruCache.lookup_put_self]
    rfl
  · exact absurd rfl hpath

/-- It stays fresh for the window and the thirty seconds. -/
theorem late_fresh {d : Duration} {t : SystemTime}
    (h : t.unix_secs.toNat ≤ min d.as_secs.toNat (2 ^ 63 - 1) + 30) : Fresh d latePayload t := by
  have hts : latePayload.timestamp.toInt = 30 := by decide
  rw [fresh_iff]
  omega

/-- **THE GAP**: with a shorter retention the payload above, accepted at the epoch, is
    pruned one second after the retention and still fresh then. -/
theorem not_pruneSafe_of_short_retention {c : DaemonConfig}
    (hbound : c.replay.max_age.as_secs.toNat ≤ 604800)
    (h : c.replay.max_age.as_secs.toNat < c.daemon.max_spa_packet_age.as_secs.toNat + 30) :
    ¬PruneSafe c := by
  intro hsafe
  have hl : c.replay.max_age.as_secs.toNat + 1 < 2 ^ 63 := by omega
  generalize hR : c.replay.max_age.as_secs.toNat = R at h hbound hl
  -- accepted at second zero, thirty seconds ahead of its time; the clock then leaps to R + 1
  obtain ⟨w', hr, htick, hlook⟩ := late_inserted (R + 1)
  have hnow : ((leapEnv (R + 1)).clock w'.tick).unix_secs.toNat = R + 1 :=
    leapEnv_unix_secs hl (Nat.ne_of_gt htick)
  have hfirst : ((leapEnv (R + 1)).clock 0).unix_secs.toNat = 0 := by
    show (SystemTime.mk 0).unix_secs.toNat = 0
    decide
  have hlate : Fresh c.daemon.max_spa_packet_age latePayload
      ((leapEnv (R + 1)).clock w'.tick) := late_fresh (by omega)
  -- the stamp is zero, more than the retention ago
  have hold : (0 : UInt64).toNat + c.replay.max_age.as_secs.toNat
      < ((leapEnv (R + 1)).clock w'.tick).unix_secs.toNat := by
    rw [hnow, hR]
    show 0 + R < R + 1
    omega
  exact hsafe (leapEnv (R + 1)) none emptyWorld w' latePayload 0 [] (leapEnv_nondecreasing hl)
    (Nat.le_refl 0) (late_fresh (by omega)) hr (mem_iff_lookup.mpr ⟨0, hlook⟩)
    (pruned_of_stamp none c.replay.max_age hlook hold) _ (Int.le_refl _) hlate

/-- Seven days bound the retention of a valid configuration. -/
theorem max_age_le_of_valid {c : DaemonConfig} (hv : c.validate = .ok ()) :
    c.replay.max_age.as_secs.toNat ≤ 604800 := by
  have hle := (validate_eq_ok_iff.mp hv).max_age.2
  by_contra hgt
  refine hle (.inl (UInt64.lt_iff_toNat_lt.mpr ?_))
  show 604800 < c.replay.max_age.secs.toNat
  have : c.replay.max_age.as_secs.toNat = c.replay.max_age.secs.toNat := rfl
  omega

/-- **PRUNING IS SAFE EXACTLY WHEN THE RETENTION COVERS THE WINDOW**: for every accepted
    configuration, no prune forgets a nonce that could still be replayed iff
    `replay.max_age` is at least `max_spa_packet_age` plus the skew, in whole seconds. -/
theorem prune_safe_iff {c : DaemonConfig} (hv : c.validate = .ok ()) :
    PruneSafe c
      ↔ c.daemon.max_spa_packet_age.as_secs.toNat + DEFAULT_MAX_SKEW_SECS.toInt.toNat
          ≤ c.replay.max_age.as_secs.toNat := by
  constructor
  · intro hsafe
    by_contra hlt
    exact not_pruneSafe_of_short_retention (max_age_le_of_valid hv) (Nat.not_le.mp hlt) hsafe
  · intro h
    exact pruneSafe_of_retention h

/-- The shipped defaults keep a day of nonces for a two-minute window. -/
theorem sampleConfig_prune_safe :
    sampleConfig.validate = .ok () ∧ PruneSafe sampleConfig :=
  ⟨sampleConfig_validate, (prune_safe_iff sampleConfig_validate).mpr (by decide)⟩

/-- One minute of retention under the default two-minute window. -/
def shortConfig : DaemonConfig :=
  { replay := { max_age := .from_secs 60 }, access := [sampleStanza] }

theorem shortConfig_accepted_but_not_prune_safe :
    shortConfig.validate = .ok () ∧ ¬PruneSafe shortConfig := by
  have hv : shortConfig.validate = .ok () := by
    have hdef := validate_eq_ok_iff.mp sampleConfig_validate
    exact validate_eq_ok_iff.mpr { hdef with max_age := by decide }
  exact ⟨hv, not_pruneSafe_of_short_retention (by decide) (by decide)⟩

end FwknoxReplay
