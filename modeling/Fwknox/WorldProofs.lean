import Fwknox.ClockProofs
import Fwknox.PersistProofs
import Fwknox.ProgProofs

/-! # The daemon's world — effects, failures, crashes

    Everything the daemon does outside its own stack is one of the effects below:
    reading the clock, a section under the replay cache's lock, replacing the cache
    file, calling the firewall.  An `Env` fixes every choice the outside makes, one
    answer for each moment; quantifying over it covers every clock, every pattern of
    persist and firewall failures and every iteration order of a hash map.

    `World` also records, for the theorems only, which packet is being handled, every
    rule handed to the firewall and how many entries the cache had to evict. -/

namespace FwknoxWorld

open FwknoxTypes FwknoxClock FwknoxPersist LruMap EffectProg

/-! ## Rules and packets -/

/-- What the daemon asks of the firewall: who, which ports, for how long. -/
structure AccessRule where
  source_ip : IpAddr
  ports : List PortProto
  timeout : Duration
  comment : String
  deriving DecidableEq

/-- What the backend answers an opened rule with. -/
structure RuleHandle where
  id : String
  deriving DecidableEq

/-- The four ways a backend fails. -/
inductive FirewallError where
  | backend (msg : String)
  | ruleNotFound (handle : String)
  | inconsistentState (msg : String)
  | unsupported (msg : String)
  deriving DecidableEq

/-- The `Display` text of a backend's failure. -/
def FirewallError.to_string : FirewallError → String
  | .backend msg => "nftables backend failure: " ++ msg
  | .ruleNotFound handle => "rule not found: " ++ handle
  | .inconsistentState msg => "backend in inconsistent state: " ++ msg
  | .unsupported msg => "operation not supported: " ++ msg

/-- A datagram as the capture thread hands it on. -/
structure CapturedPacket where
  source_ip : IpAddr
  data : Bytes
  deriving DecidableEq

/-! ## Effects -/

/-- One constructor for each call that leaves the code: the clock, the replay cache under its
    lock, the disk and the firewall. -/
inductive Eff : Type → Type where
  /-- `SystemTime::now`. -/
  | systemTime : Eff SystemTime
  /-- The lock section of `check_and_insert`: `contains`, else `put`. -/
  | insertFresh (nonce : Nonce) (now : UInt64) : Eff Bool
  /-- The rollback section: `pop`. -/
  | pop (nonce : Nonce) : Eff Unit
  /-- The lock section of `prune_older_than`; answers how many entries went. -/
  | pruneStale (cutoff : UInt64) : Eff Nat
  /-- The locked copy of the map that `save_to_file` takes. -/
  | snapshot : Eff (List Entry)
  /-- `write_cache_file`, up to and including the rename. -/
  | writeCacheFile (path : String) (entries : List Entry) : Eff (Except ReplayError Unit)
  /-- `FirewallBackend::open_access`. -/
  | openAccess (rule : AccessRule) : Eff (Except FirewallError RuleHandle)

/-- The rule an effect hands to the firewall. -/
def Eff.opens {β : Type} : Eff β → Option AccessRule
  | .openAccess rule => some rule
  | .systemTime | .insertFresh _ _ | .pop _ | .pruneStale _ | .snapshot
  | .writeCacheFile _ _ => none

/-- What the outside decides, moment by moment. -/
structure Env where
  clock : Nat → SystemTime
  /-- The I/O error that stops a write, if any. -/
  persist : Nat → Option String
  firewall : Nat → AccessRule → Except FirewallError RuleHandle
  /-- The iteration order of the hash map. -/
  order : Nat → List Entry → List Entry
  order_perm : ∀ n l, (order n l).Perm l

/-- The captured packet a call goes back to: its position, itself, and the moment
    its handling began. -/
structure Cause where
  index : Nat
  packet : CapturedPacket
  start : Nat
  deriving DecidableEq

/-- The state the effects act on: the replay cache and its file, the clock's moment, and the calls
    the firewall has seen. -/
structure World where
  tick : Nat
  cache : LruCache Nonce UInt64
  /-- The cache file: its text, or no such file. -/
  file : Option (List Char)
  evicted : Nat
  current : Cause
  calls : List (Cause × AccessRule)

namespace World

/-- One moment later. -/
def next (w : World) : World := { w with tick := w.tick + 1 }

/-- Time alone leaves the cache. -/
@[simp] theorem next_cache (w : World) : w.next.cache = w.cache := rfl

/-- Time alone leaves the cache file. -/
@[simp] theorem next_file (w : World) : w.next.file = w.file := rfl

/-- Time alone evicts nothing. -/
@[simp] theorem next_evicted (w : World) : w.next.evicted = w.evicted := rfl

/-- Time alone changes no cause. -/
@[simp] theorem next_current (w : World) : w.next.current = w.current := rfl

/-- Time alone calls nobody. -/
@[simp] theorem next_calls (w : World) : w.next.calls = w.calls := rfl

/-- Every effect takes one moment. -/
@[simp] theorem next_tick (w : World) : w.next.tick = w.tick + 1 := rfl

end World

/-- The nonces whose stamp lies before the cutoff. -/
def stale (c : LruCache Nonce UInt64) (cutoff : UInt64) : List Nonce :=
  (c.map.entries.filter (fun e => decide (e.2 < cutoff))).map Sigma.fst

/-- The nonces a prune takes are the ones stamped before the cutoff. -/
theorem mem_stale_iff {c : LruCache Nonce UInt64} {cutoff : UInt64} {nonce : Nonce} :
    nonce ∈ stale c cutoff ↔ ∃ stamp, c.map.lookup nonce = some stamp ∧ stamp < cutoff := by
  constructor
  · intro h
    obtain ⟨⟨n, stamp⟩, he, rfl⟩ := List.mem_map.mp h
    obtain ⟨hmem, hlt⟩ := List.mem_filter.mp he
    exact ⟨stamp, lookup_eq_some_iff.mpr hmem, of_decide_eq_true hlt⟩
  · rintro ⟨stamp, hstamp, hlt⟩
    exact List.mem_map.mpr ⟨⟨nonce, stamp⟩, List.mem_filter.mpr
      ⟨lookup_eq_some_iff.mp hstamp, decide_eq_true hlt⟩, rfl⟩

/-- What each effect answers and does. -/
def handler (env : Env) : Handler Eff World
  | _, .systemTime, w => (env.clock w.tick, w.next)
  | _, .insertFresh nonce now, w =>
      if nonce ∈ w.cache.map then (false, w.next)
      else
        (true, { w.next with
          cache := w.cache.put nonce now
          evicted := if w.cache.len < w.cache.cap then w.evicted else w.evicted + 1 })
  | _, .pop nonce, w => ((), { w.next with cache := w.cache.pop nonce })
  | _, .pruneStale cutoff, w =>
      let pruned := w.cache.popAll (stale w.cache cutoff)
      (w.cache.len - pruned.len, { w.next with cache := pruned })
  | _, .snapshot, w => (w.cache.map.entries, w.next)
  | _, .writeCacheFile path entries, w =>
      match env.persist w.tick with
      | some e => (.error (.write path e), w.next)
      | none => (.ok (), { w.next with file := some (cache_text (env.order w.tick entries)) })
  | _, .openAccess rule, w =>
      (env.firewall w.tick rule, { w.next with calls := w.calls ++ [(w.current, rule)] })

section Handler

variable (env : Env) (w : World)

/-- The clock is read at the world's moment. -/
@[simp] theorem handler_systemTime :
    handler env _ .systemTime w = (env.clock w.tick, w.next) := rfl

/-- A known nonce is refused and the cache left alone. -/
@[simp] theorem handler_insertFresh_of_mem {nonce : Nonce} (now : UInt64)
    (h : nonce ∈ w.cache.map) : handler env _ (.insertFresh nonce now) w = (false, w.next) :=
  if_pos h

/-- A fresh nonce goes in, and into a full cache at the price of one eviction. -/
@[simp] theorem handler_insertFresh_of_notMem {nonce : Nonce} (now : UInt64)
    (h : nonce ∉ w.cache.map) :
    handler env _ (.insertFresh nonce now) w
      = (true, { w.next with
          cache := w.cache.put nonce now
          evicted := if w.cache.len < w.cache.cap then w.evicted else w.evicted + 1 }) :=
  if_neg h

/-- The rollback removes the nonce and nothing else. -/
@[simp] theorem handler_pop (nonce : Nonce) :
    handler env _ (.pop nonce) w = ((), { w.next with cache := w.cache.pop nonce }) := rfl

/-- A prune takes the stale entries and answers how many there were. -/
@[simp] theorem handler_pruneStale (cutoff : UInt64) :
    handler env _ (.pruneStale cutoff) w
      = (w.cache.len - (w.cache.popAll (stale w.cache cutoff)).len,
          { w.next with cache := w.cache.popAll (stale w.cache cutoff) }) := rfl

/-- A snapshot reads the cache and leaves it. -/
@[simp] theorem handler_snapshot :
    handler env _ .snapshot w = (w.cache.map.entries, w.next) := rfl

/-- A write that works replaces the whole file. -/
@[simp] theorem handler_writeCacheFile_of_none {path : String} {entries : List Entry}
    (h : env.persist w.tick = none) :
    handler env _ (.writeCacheFile path entries) w
      = (.ok (), { w.next with file := some (cache_text (env.order w.tick entries)) }) := by
  simp only [handler, h]

/-- A write that fails leaves the old file, whole. -/
@[simp] theorem handler_writeCacheFile_of_some {path e : String} {entries : List Entry}
    (h : env.persist w.tick = some e) :
    handler env _ (.writeCacheFile path entries) w = (.error (.write path e), w.next) := by
  simp only [handler, h]

/-- Every call to the firewall is recorded under its cause, whatever the answer. -/
@[simp] theorem handler_openAccess (rule : AccessRule) :
    handler env _ (.openAccess rule) w
      = (env.firewall w.tick rule, { w.next with calls := w.calls ++ [(w.current, rule)] }) := rfl

/-- No effect gives an eviction back. -/
theorem handler_evicted_le {β : Type} (e : Eff β) : w.evicted ≤ (handler env β e w).2.evicted := by
  cases e with
  | insertFresh nonce now =>
      by_cases h : nonce ∈ w.cache.map
      · rw [handler_insertFresh_of_mem env w now h]
        exact Nat.le_refl _
      · rw [handler_insertFresh_of_notMem env w now h]
        show w.evicted ≤ if w.cache.len < w.cache.cap then w.evicted else w.evicted + 1
        split
        · exact Nat.le_refl _
        · exact Nat.le_succ _
  | writeCacheFile path entries =>
      cases h : env.persist w.tick with
      | none =>
          rw [handler_writeCacheFile_of_none env w h]
          exact Nat.le_refl _
      | some e =>
          rw [handler_writeCacheFile_of_some env w h]
          exact Nat.le_refl _
  | systemTime => exact Nat.le_refl _
  | pop nonce => exact Nat.le_refl _
  | pruneStale cutoff => exact Nat.le_refl _
  | snapshot => exact Nat.le_refl _
  | openAccess rule => exact Nat.le_refl _

/-- The count of evictions never falls. -/
theorem exec_evicted_le {α : Type} (prog : Prog Eff α) :
    w.evicted ≤ (prog.exec (handler env) w).2.evicted := by
  induction prog generalizing w with
  | ret a => exact Nat.le_refl _
  | op e k ih => exact Nat.le_trans (handler_evicted_le env w e) (ih _ _)

/-- Only an opening effect adds a call, and it adds its own. -/
theorem handler_calls {β : Type} (e : Eff β) :
    (handler env β e w).2.calls
      = w.calls ++ e.opens.toList.map (fun rule => (w.current, rule)) := by
  cases e with
  | openAccess rule => rfl
  | systemTime => exact (List.append_nil _).symm
  | insertFresh nonce now =>
      refine Eq.trans ?_ (List.append_nil _).symm
      by_cases h : nonce ∈ w.cache.map
      · rw [handler_insertFresh_of_mem env w now h]
        rfl
      · rw [handler_insertFresh_of_notMem env w now h]
        rfl
  | pop nonce => exact (List.append_nil _).symm
  | pruneStale cutoff => exact (List.append_nil _).symm
  | snapshot => exact (List.append_nil _).symm
  | writeCacheFile path entries =>
      refine Eq.trans ?_ (List.append_nil _).symm
      cases h : env.persist w.tick with
      | none => rw [handler_writeCacheFile_of_none env w h]; rfl
      | some err => rw [handler_writeCacheFile_of_some env w h]; rfl

/-- No effect changes the packet being handled. -/
theorem handler_current {β : Type} (e : Eff β) : (handler env β e w).2.current = w.current := by
  cases e with
  | insertFresh nonce now =>
      by_cases h : nonce ∈ w.cache.map
      · rw [handler_insertFresh_of_mem env w now h]
        rfl
      · rw [handler_insertFresh_of_notMem env w now h]
        rfl
  | writeCacheFile path entries =>
      cases h : env.persist w.tick with
      | none => rw [handler_writeCacheFile_of_none env w h]; rfl
      | some err => rw [handler_writeCacheFile_of_some env w h]; rfl
  | _ => rfl

end Handler

end FwknoxWorld
