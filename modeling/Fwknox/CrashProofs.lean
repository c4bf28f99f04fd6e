import Fwknox.AuthorizationProofs

/-! # Crashes — a packet is granted at most once in the life of the file

    The single process as it really lives: packets and prunes, interrupted at any effect
    by a crash or a stop, and started again from the cache file.  Memory does not
    survive; the file and the rules already handed out do.

    A granted packet is kept out by two stores, memory and file.  Each of them either
    remembers its nonce, with a stamp not before the moment it was accepted, or the
    packet has become too old to pass ever again (`Protects`).  Every operation turns
    the stores of one world into stores that protect as much (`Keeps`): saving copies
    memory to disk, loading copies disk to memory, and pruning forgets only stamps older
    than the retention, which outlasts the freshness window. -/

namespace FwknoxCrash

open FwknoxTypes FwknoxClock FwknoxConfig FwknoxPacket FwknoxMatcher FwknoxPersist FwknoxWorld
open FwknoxReplay FwknoxPipeline FwknoxAuthorization LruMap EffectProg EffectProg.Prog

/-! ## The life of a daemon -/

/-- The world, how many packets were presented, and whether a process is alive. -/
structure Life where
  world : World
  presented : Nat
  running : Bool

inductive LifeOp where
  | packet (p : CapturedPacket)
  | prune
  /-- The process dies after at most `effects` effects of the packet or prune. -/
  | crash (o : DaemonOp) (effects : Nat)
  /-- It shuts down, dying after at most `effects` effects of the final save. -/
  | stop (effects : Nat)
  /-- A new process loads the file; the read may fail. -/
  | load (read_error : Option String)
  /-- A new process runs the startup code of `fwknoxd`. -/
  | boot (read_error : Option String)

/-- What `fs::read_to_string` says. -/
def read_result (read_error : Option String) (file : Option (List Char)) :
    Except String (Option (List Char)) :=
  match read_error with
  | some e => .error e
  | none => .ok file

/-- How many entries a load has to evict. -/
def overflow (path : String) (file : Except String (Option (List Char))) : Nat :=
  match read_cache_file path file with
  | .ok m => m.entries.length - DEFAULT_MAX_ENTRIES
  | .error _ => 0

/-- A new process begins with this cache, unless loading it failed. -/
def Life.restart (s : Life) (cache : Except ReplayError (LruCache Nonce UInt64)) (lost : Nat) :
    Life :=
  match cache with
  | .error _ => s
  | .ok c =>
      { s with
        world := { s.world.next with cache := c, evicted := s.world.evicted + lost }
        running := true }

/-- The world a process leaves that dies inside the operation. -/
def crash_inside (X : Ext) (config : DaemonConfig) (env : Env) (n effects : Nat) :
    DaemonOp → World → World
  | .packet p, w =>
      (process_packet X config (some config.replay.cache_path) p).crashAt (handler env) effects
        { w with current := ⟨n, p, w.tick⟩ }
  | .prune, w =>
      (prune_older_than (some config.replay.cache_path) config.replay.max_age).crashAt
        (handler env) effects w

/-- One step; packets and prunes need a process, a start needs none. -/
def LifeOp.run (X : Ext) (config : DaemonConfig) (env : Env) (o : LifeOp) (s : Life) : Life :=
  let path := config.replay.cache_path
  match o, s.running with
  | .packet p, true =>
      { s with
        world := DaemonOp.run X config (some path) env s.presented (.packet p) s.world
        presented := s.presented + 1 }
  | .prune, true =>
      { s with world := DaemonOp.run X config (some path) env s.presented .prune s.world }
  | .crash o effects, true =>
      ⟨crash_inside X config env s.presented effects o s.world, s.presented + 1, false⟩
  | .stop effects, true =>
      { s with
        world := (save_to_file path).crashAt (handler env) effects s.world
        running := false }
  | .load read_error, false =>
      let file := read_result read_error s.world.file
      s.restart (load_from_file path file (env.order s.world.tick)) (overflow path file)
  | .boot read_error, false =>
      s.restart (startup config s.world.file read_error (env.order s.world.tick))
        (overflow path (read_result read_error s.world.file))
  | _, _ => s

def run_life (X : Ext) (config : DaemonConfig) (env : Env) : List LifeOp → Life → Life
  | [], s => s
  | o :: ops, s => run_life X config env ops (o.run X config env s)

/-! ## Stores that protect -/

section Stores

variable {config : DaemonConfig} {env : Env}

/-- From moment `n` on the payload is never fresh again. -/
def Spent (config : DaemonConfig) (env : Env) (payload : SpaPayload) (n : Nat) : Prop :=
  ∀ t, env.clock n ≤ t → ¬Fresh config.daemon.max_spa_packet_age payload t

/-- At moment `n` the store keeps out the payload accepted at moment `i`. -/
def Protects (config : DaemonConfig) (env : Env) (m : Assoc Nonce UInt64) (payload : SpaPayload)
    (i n : Nat) : Prop :=
  Spent config env payload n
    ∨ ∃ v, m.lookup payload.nonce = some v ∧ (env.clock i).unix_secs.toNat ≤ v.toNat

/-- The store `m'` at moment `n'` keeps out whatever `m` did at moment `n`. -/
def Keeps (config : DaemonConfig) (env : Env) (n : Nat) (m : Assoc Nonce UInt64) (n' : Nat)
    (m' : Assoc Nonce UInt64) : Prop :=
  ∀ payload i, Fresh config.daemon.max_spa_packet_age payload (env.clock i) →
    Protects config env m payload i n → Protects config env m' payload i n'

theorem Spent.mono (hmono : Nondecreasing env) {payload : SpaPayload} {n n' : Nat}
    (h : Spent config env payload n) (hn : n ≤ n') : Spent config env payload n' :=
  fun t ht => h t (Int.le_trans (hmono n n' hn) ht)

/-- A store that still has every binding protects as much. -/
theorem keeps_of_lookup (hmono : Nondecreasing env) {n n' : Nat} {m m' : Assoc Nonce UInt64}
    (hn : n ≤ n') (hm : ∀ nonce v, m.lookup nonce = some v → m'.lookup nonce = some v) :
    Keeps config env n m n' m' := by
  intro payload i _ hp
  rcases hp with hspent | ⟨v, hv, hs⟩
  · exact .inl (hspent.mono hmono hn)
  · exact .inr ⟨v, hm _ v hv, hs⟩

/-- **PRUNING KEEPS PROTECTING** when the retention covers the freshness window: what
    it forgets is spent. -/
theorem keeps_prune (hmono : Nondecreasing env)
    (hret : config.daemon.max_spa_packet_age.as_secs.toNat + 30
      ≤ config.replay.max_age.as_secs.toNat)
    {n n' : Nat} (hn : n ≤ n') (c : LruCache Nonce UInt64) :
    Keeps config env n c.map n' (c.popAll (stale c
      (saturating_sub (env.clock n).unix_secs config.replay.max_age.as_secs))).map := by
  intro payload i hfresh hp
  rcases hp with hspent | ⟨v, hv, hs⟩
  · exact .inl (hspent.mono hmono hn)
  · by_cases hst : payload.nonce ∈ stale c
        (saturating_sub (env.clock n).unix_secs config.replay.max_age.as_secs)
    · left
      intro t ht
      have hold := stamp_of_stale hst hv
      exact stale_after_retention hret hfresh hs (Nat.lt_of_lt_of_le hold
        (unix_secs_mono (Int.le_trans (hmono n n' hn) ht)))
    · exact .inr ⟨v, (LruCache.lookup_popAll _ _ _ _).mpr ⟨hst, hv⟩, hs⟩

end Stores

/-! ## The invariant -/

/-- A call with this wire cannot be repeated: it parses to a payload that was fresh at
    some moment, and both stores keep that payload out. -/
def Guarded (X : Ext) (config : DaemonConfig) (env : Env) (w : World) (data : Bytes) : Prop :=
  ∃ name payload i, match_packet X.crypto data config.access = .matched name payload
    ∧ Fresh config.daemon.max_spa_packet_age payload (env.clock i)
    ∧ Protects config env w.cache.map payload i w.tick
    ∧ ∀ m, read_cache_file config.replay.cache_path (.ok w.file) = .ok m →
        Protects config env m payload i w.tick

/-- Every call is guarded, and no wire has two. -/
structure OnceInv (X : Ext) (config : DaemonConfig) (env : Env) (w : World) : Prop where
  guarded : ∀ c ∈ w.calls, Guarded X config env w c.1.packet.data
  once : (w.calls.map (fun c => c.1.packet.data)).Nodup

/-- The invariant, as long as nothing was evicted. -/
def LifeInv (X : Ext) (config : DaemonConfig) (env : Env) (w : World) : Prop :=
  w.evicted = 0 → OnceInv X config env w

variable {X : Ext} {config : DaemonConfig} {env : Env}

/-- The store `m` at moment `n` protects as much as memory or file of `w` did. -/
def Descends (config : DaemonConfig) (env : Env) (w : World) (n : Nat) (m : Assoc Nonce UInt64) :
    Prop :=
  Keeps config env w.tick w.cache.map n m
    ∨ ∃ m₀, read_cache_file config.replay.cache_path (.ok w.file) = .ok m₀
        ∧ Keeps config env w.tick m₀ n m

theorem Guarded.of_descends {w w' : World} {data : Bytes} (h : Guarded X config env w data)
    (hmem : Descends config env w w'.tick w'.cache.map)
    (hdisk : ∀ m, read_cache_file config.replay.cache_path (.ok w'.file) = .ok m →
      Descends config env w w'.tick m) : Guarded X config env w' data := by
  obtain ⟨name, payload, i, hmatch, hfresh, hm, hd⟩ := h
  have hdesc : ∀ {m}, Descends config env w w'.tick m →
      Protects config env m payload i w'.tick := by
    intro m hdesc
    rcases hdesc with hk | ⟨m₀, hread, hk⟩
    · exact hk payload i hfresh hm
    · exact hk payload i hfresh (hd m₀ hread)
  exact ⟨name, payload, i, hmatch, hfresh, hdesc hmem, fun m hread => hdesc (hdisk m hread)⟩

/-- **STEP RULE**: no new call, nothing un-evicted, and both stores descend. -/
theorem LifeInv.step {w w' : World} (h : LifeInv X config env w) (hcalls : w'.calls = w.calls)
    (hev : w.evicted ≤ w'.evicted)
    (hmem : w'.evicted = 0 → Descends config env w w'.tick w'.cache.map)
    (hdisk : ∀ m, read_cache_file config.replay.cache_path (.ok w'.file) = .ok m →
      w'.evicted = 0 → Descends config env w w'.tick m) : LifeInv X config env w' := by
  intro he
  obtain ⟨hg, ho⟩ := h (Nat.le_zero.mp (he ▸ hev))
  refine ⟨?_, hcalls ▸ ho⟩
  intro c hc
  exact (hg c (hcalls ▸ hc)).of_descends (hmem he) (fun m hread => hdisk m hread he)

/-- The file holds exactly the bindings of memory. -/
def Saved (config : DaemonConfig) (w : World) : Prop :=
  ∀ m, read_cache_file config.replay.cache_path (.ok w.file) = .ok m →
    ∀ nonce v, m.lookup nonce = some v ↔ w.cache.map.lookup nonce = some v

/-- What a successful write leaves. -/
theorem saved_of_file {w : World} {k : Nat}
    (hfile : w.file = some (cache_text (env.order k w.cache.map.entries))) : Saved config w := by
  intro m hread nonce v
  obtain ⟨m', hread', hperm⟩ := read_saved config.replay.cache_path (env.order_perm k) w.cache
  rw [hfile, hread'] at hread
  cases hread
  rw [lookup_eq_some_iff, lookup_eq_some_iff]
  exact hperm.mem_iff

/-- From `w` to `w'` no rule was opened and memory went on protecting. -/
structure Follows (config : DaemonConfig) (env : Env) (w w' : World) : Prop where
  calls : w'.calls = w.calls
  current : w'.current = w.current
  tick : w.tick ≤ w'.tick
  evicted : w.evicted ≤ w'.evicted
  memory : w'.evicted = 0 → Keeps config env w.tick w.cache.map w'.tick w'.cache.map

theorem Follows.refl (w : World) : Follows config env w w :=
  ⟨rfl, rfl, Nat.le_refl _, Nat.le_refl _, fun _ _ _ _ hp => hp⟩

/-- Time passes. -/
theorem Follows.later (hmono : Nondecreasing env) {w w₁ w₂ : World}
    (h : Follows config env w w₁) (hcalls : w₂.calls = w₁.calls)
    (hcurrent : w₂.current = w₁.current) (htick : w₁.tick ≤ w₂.tick)
    (hevicted : w₂.evicted = w₁.evicted) (hcache : w₂.cache = w₁.cache) :
    Follows config env w w₂ := by
  refine ⟨hcalls.trans h.calls, hcurrent.trans h.current, Nat.le_trans h.tick htick,
    hevicted ▸ h.evicted, ?_⟩
  intro he payload i hfresh hp
  rw [hcache]
  exact keeps_of_lookup hmono htick (fun _ _ hv => hv) payload i hfresh
    (h.memory (hevicted ▸ he) payload i hfresh hp)

/-- The invariant passes on while the file stays as it was. -/
theorem LifeInv.follows (hmono : Nondecreasing env) {w w' : World} (h : LifeInv X config env w)
    (hf : Follows config env w w') (hfile : w'.file = w.file) : LifeInv X config env w' := by
  refine h.step hf.calls hf.evicted (fun he => .inl (hf.memory he)) ?_
  intro m hread _
  exact .inr ⟨m, hfile ▸ hread, keeps_of_lookup hmono hf.tick fun _ _ hv => hv⟩

/-- It passes on when memory is written to the file. -/
theorem LifeInv.follows_saved {w w' : World} (h : LifeInv X config env w)
    (hf : Follows config env w w') (hsaved : Saved config w') : LifeInv X config env w' := by
  refine h.step hf.calls hf.evicted (fun he => .inl (hf.memory he)) ?_
  intro m hread he
  left
  intro payload i hfresh hp
  rcases hf.memory he payload i hfresh hp with hspent | ⟨v, hv, hs⟩
  · exact .inl hspent
  · exact .inr ⟨v, (hsaved m hread _ _).mpr hv, hs⟩

/-! ## Every world a process passes through -/

/-- Saving, as the last part of an operation that began in `w₀`. -/
theorem always_save (hmono : Nondecreasing env) {w₀ w : World} (h : LifeInv X config env w₀)
    (hf : Follows config env w₀ w) (hfile : w.file = w₀.file) :
    (save_to_file config.replay.cache_path).Always (handler env) (LifeInv X config env)
      (fun r w' => Follows config env w₀ w' ∧ w'.cache = w.cache ∧ w'.evicted = w.evicted
        ∧ ((r = .ok () ∧ Saved config w') ∨ ((∃ e, r = .error e) ∧ w'.file = w₀.file))) w := by
  have hf₁ : Follows config env w₀ w.next :=
    hf.later hmono rfl rfl (Nat.le_succ _) rfl rfl
  refine ⟨h.follows hmono hf hfile, h.follows hmono hf₁ hfile, ?_⟩
  show Always (handler env) _ _ (ret (handler env _ (.writeCacheFile _ w.cache.map.entries)
    w.next).1) (handler env _ (.writeCacheFile _ w.cache.map.entries) w.next).2
  cases hp : env.persist w.next.tick with
  | none =>
      rw [handler_writeCacheFile_of_none env w.next hp]
      have hf₂ : Follows config env w₀ { w.next.next with
          file := some (cache_text (env.order w.next.tick w.cache.map.entries)) } :=
        hf₁.later hmono rfl rfl (Nat.le_succ _) rfl rfl
      have hsaved : Saved config { w.next.next with
          file := some (cache_text (env.order w.next.tick w.cache.map.entries)) } :=
        saved_of_file (k := w.next.tick) rfl
      exact ⟨h.follows_saved hf₂ hsaved, hf₂, rfl, rfl, .inl ⟨rfl, hsaved⟩⟩
  | some e =>
      rw [handler_writeCacheFile_of_some env w.next hp]
      have hf₂ : Follows config env w₀ w.next.next :=
        hf₁.later hmono rfl rfl (Nat.le_succ _) rfl rfl
      exact ⟨h.follows hmono hf₂ hfile, hf₂, rfl, rfl, .inr ⟨⟨_, rfl⟩, hfile⟩⟩

/-- What `check_and_insert` promises besides the invariant. -/
def Inserted (config : DaemonConfig) (env : Env) (w : World) (nonce : Nonce)
    (r : Except ReplayError Bool) (w' : World) : Prop :=
  Follows config env w w'
    ∧ (r = .ok true → nonce ∉ w.cache.map
        ∧ w'.cache.map.lookup nonce = some (env.clock w.tick).unix_secs ∧ Saved config w')

/-- The lock section that inserts a new nonce, seen from the world before it. -/
theorem follows_insertFresh (hmono : Nondecreasing env) {w : World} {nonce : Nonce} (now : UInt64)
    (hm : nonce ∉ w.cache.map) :
    ∃ w', handler env _ (.insertFresh nonce now) w.next = (true, w') ∧ w'.file = w.file
      ∧ w'.cache = w.cache.put nonce now ∧ (w'.evicted = 0 → w.cache.len < w.cache.cap)
      ∧ Follows config env w w' := by
  have hle : w.tick ≤ w.tick + 1 + 1 := by omega
  refine ⟨_, handler_insertFresh_of_notMem env w.next now hm, rfl, rfl, ?_⟩
  by_cases hroom : w.cache.len < w.cache.cap
  · have hev : (if w.next.cache.len < w.next.cache.cap then w.next.evicted
        else w.next.evicted + 1) = w.evicted := if_pos hroom
    rw [hev]
    exact ⟨fun _ => hroom, rfl, rfl, hle, Nat.le_refl _, fun _ =>
      keeps_of_lookup hmono hle fun _ _ hv => LruCache.lookup_put_of_room now hm hroom hv⟩
  · have hev : (if w.next.cache.len < w.next.cache.cap then w.next.evicted
        else w.next.evicted + 1) = w.evicted + 1 := if_neg hroom
    rw [hev]
    exact ⟨(fun he => nomatch he), rfl, rfl, hle, Nat.le_succ _, fun he => nomatch he⟩

/-- **CHECK AND INSERT IS CRASH SAFE**, and an accepted nonce is on disk. -/
theorem always_check_and_insert (hmono : Nondecreasing env) {w : World}
    (h : LifeInv X config env w) (nonce : Nonce) :
    (check_and_insert (some config.replay.cache_path) nonce).Always (handler env)
      (LifeInv X config env) (Inserted config env w nonce) w := by
  have hf₁ : Follows config env w w.next :=
    (Follows.refl w).later hmono rfl rfl (Nat.le_succ _) rfl rfl
  refine ⟨h, h.follows hmono hf₁ rfl, ?_⟩
  by_cases hm : nonce ∈ w.cache.map
  · rw [handler_systemTime, handler_insertFresh_of_mem env w.next _ hm]
    have hf₂ : Follows config env w w.next.next :=
      hf₁.later hmono rfl rfl (Nat.le_succ _) rfl rfl
    exact ⟨h.follows hmono hf₂ rfl, hf₂, fun hr => nomatch hr⟩
  · obtain ⟨w₂, hins, hfile₂, hcache, hroom, hf₂⟩ :=
      follows_insertFresh hmono (env.clock w.tick).unix_secs hm
    rw [handler_systemTime, hins]
    show Always (handler env) _ _ ((save_to_file config.replay.cache_path).bind _) w₂
    refine always_bind (always_save hmono h hf₂ hfile₂) ?_
    intro r w₃ hinv ⟨hf₃, hc₃, he₃, hres⟩
    rcases hres with ⟨rfl, hsaved⟩ | ⟨⟨e, rfl⟩, hfile⟩
    · refine ⟨hinv, hf₃, fun _ => ⟨hm, ?_, hsaved⟩⟩
      rw [hc₃, hcache, LruCache.lookup_put_self]
    · -- the rollback: the nonce it takes out was not in memory before
      have hle₄ : w.tick ≤ w₃.tick + 1 := Nat.le_succ_of_le hf₃.tick
      have hf₄ : Follows config env w (handler env _ (.pop nonce) w₃).2 := by
        refine ⟨hf₃.calls, hf₃.current, hle₄, hf₃.evicted, ?_⟩
        intro he
        show Keeps config env w.tick w.cache.map (w₃.tick + 1) (w₃.cache.pop nonce).map
        rw [hc₃, hcache, LruCache.pop_put_of_room _ hm (hroom (he₃.symm.trans he))]
        exact keeps_of_lookup hmono hle₄ fun _ _ hv => hv
      exact ⟨hinv, h.follows hmono hf₄ hfile, hf₄, fun hr => nomatch hr⟩

/-- **PRUNING IS CRASH SAFE** when the retention covers the freshness window. -/
theorem always_prune (hmono : Nondecreasing env)
    (hret : config.daemon.max_spa_packet_age.as_secs.toNat + 30
      ≤ config.replay.max_age.as_secs.toNat)
    {w : World} (h : LifeInv X config env w) :
    (prune_older_than (some config.replay.cache_path) config.replay.max_age).Always (handler env)
      (LifeInv X config env) (fun _ _ => True) w := by
  have hf₁ : Follows config env w w.next :=
    (Follows.refl w).later hmono rfl rfl (Nat.le_succ _) rfl rfl
  have hle : w.tick ≤ w.tick + 1 + 1 := by omega
  refine ⟨h, h.follows hmono hf₁ rfl, ?_⟩
  rw [handler_systemTime]
  generalize hprune : handler env _ (.pruneStale _) _ = rp
  obtain ⟨pruned, w₂⟩ := rp
  obtain ⟨_, rfl⟩ := Prod.mk.inj hprune
  have hf₂ : Follows config env w { w.next.next with cache := w.cache.popAll (stale w.cache
      (saturating_sub (env.clock w.tick).unix_secs config.replay.max_age.as_secs)) } :=
    ⟨rfl, rfl, hle, Nat.le_refl _, fun _ => keeps_prune hmono hret hle w.cache⟩
  show Always (handler env) _ _ (if pruned > 0 then _ else _) _
  by_cases hp : pruned > 0
  · rw [if_pos hp]
    refine always_bind (always_save hmono h hf₂ rfl) ?_
    intro r w₃ hinv _
    cases r <;> exact ⟨hinv, trivial⟩
  · rw [if_neg hp]
    exact ⟨h.follows hmono hf₂ rfl, trivial⟩

/-- **ONE MORE CALL**: between its freshness check in `w` and its call in `w'` the packet
    was inserted as new and saved, so it was not granted before and is guarded now. -/
theorem LifeInv.grant (hmono : Nondecreasing env) {w w' : World} {name : String}
    {payload : SpaPayload} {v : UInt64} (rule : AccessRule) (h : LifeInv X config env w)
    (h' : LifeInv X config env w') (hcalls : w'.calls = w.calls) (hev : w.evicted ≤ w'.evicted)
    (hmatch : match_packet X.crypto w'.current.packet.data config.access = .matched name payload)
    (hfresh : Fresh config.daemon.max_spa_packet_age payload (env.clock w.tick))
    (hnew : payload.nonce ∉ w.cache.map)
    (hin : w'.cache.map.lookup payload.nonce = some v)
    (hv : (env.clock w.tick).unix_secs.toNat ≤ v.toNat) (hsaved : Saved config w') :
    LifeInv X config env { w'.next with calls := w'.calls ++ [(w'.current, rule)] } := by
  have hlater : LifeInv X config env w'.next :=
    h'.follows hmono ((Follows.refl w').later hmono rfl rfl (Nat.le_succ _) rfl rfl) rfl
  intro he
  have he' : w'.evicted = 0 := he
  obtain ⟨hg, ho⟩ := hlater he'
  constructor
  · intro c hc
    rcases List.mem_append.mp hc with hold | hnew
    · exact hg c hold
    · rw [List.mem_singleton.mp hnew]
      exact ⟨name, payload, w.tick, hmatch, hfresh, .inr ⟨v, hin, hv⟩,
        fun m hread => .inr ⟨v, (hsaved m hread _ _).mpr hin, hv⟩⟩
  · show ((w'.calls ++ [(w'.current, rule)]).map fun c => c.1.packet.data).Nodup
    rw [List.map_append, List.map_singleton]
    refine List.Nodup.append ho (List.nodup_singleton _) ?_
    -- an earlier call with this wire would have kept the payload out
    intro data hold hsame
    obtain ⟨c, hc, rfl⟩ := List.mem_map.mp hold
    obtain ⟨name', payload', i, hmatch', _, hmem, _⟩ :=
      (h (Nat.le_zero.mp (he' ▸ hev))).guarded c (hcalls ▸ hc)
    rw [List.mem_singleton.mp hsame, hmatch] at hmatch'
    cases hmatch'
    rcases hmem with hspent | ⟨u, hu, _⟩
    · exact hspent _ (Int.le_refl _) hfresh
    · exact hnew (mem_iff_lookup.mpr ⟨u, hu⟩)

/-- **A PACKET IS CRASH SAFE.** -/
theorem always_process_packet (hmono : Nondecreasing env) {w : World}
    (h : LifeInv X config env w) :
    (process_packet X config (some config.replay.cache_path) w.current.packet).Always
      (handler env) (LifeInv X config env) (fun _ _ => True) w := by
  unfold process_packet
  cases hm : match_packet X.crypto w.current.packet.data config.access with
  | noMatch => exact ⟨h, trivial⟩
  | rejected n r => exact ⟨h, trivial⟩
  | matched n payload =>
      dsimp only
      cases hf : find_stanza config n with
      | error e => exact ⟨h, trivial⟩
      | ok stanza =>
          have h₁ : LifeInv X config env w.next :=
            h.follows hmono ((Follows.refl w).later hmono rfl rfl (Nat.le_succ _) rfl rfl) rfl
          refine ⟨h, ?_⟩
          simp only [bind_eq, handler_systemTime, bind_ret]
          cases hfr : validate_against_clock payload (now_unix (env.clock w.tick))
              (max_age_secs config.daemon.max_spa_packet_age) DEFAULT_MAX_SKEW_SECS with
          | error e => exact ⟨h₁, trivial⟩
          | ok u =>
              refine always_bind (always_check_and_insert hmono h₁ payload.nonce) ?_
              intro r w' hinv ⟨hfol, hins⟩
              cases r with
              | error e => exact ⟨hinv, trivial⟩
              | ok fresh =>
                  cases fresh with
                  | false => exact ⟨hinv, trivial⟩
                  | true =>
                      -- the nonce is in memory and in the file before the rule can be opened
                      obtain ⟨hnew, hin, hsaved⟩ := hins rfl
                      dsimp only
                      unfold install
                      cases payload.message with
                      | access sip pts =>
                          dsimp only
                          cases check_policy X stanza w.current.packet.source_ip sip pts with
                          | error reason => exact ⟨hinv, trivial⟩
                          | ok u =>
                              have hstamp := unix_secs_mono
                                (hmono w.tick w.next.tick (Nat.le_succ _))
                              have hmatch : match_packet X.crypto w'.current.packet.data
                                  config.access = .matched n payload := by
                                rw [hfol.current]
                                exact hm
                              refine ⟨hinv, ?_⟩
                              rw [handler_openAccess]
                              have hcall := fun rule => LifeInv.grant hmono rule h hinv
                                hfol.calls hfol.evicted hmatch hfr hnew hin hstamp hsaved
                              cases env.firewall w'.tick _ <;> exact ⟨hcall _, trivial⟩
                      | nat => exact ⟨hinv, trivial⟩
                      | localNat => exact ⟨hinv, trivial⟩
                      | command => exact ⟨hinv, trivial⟩

/-! ## Every step of a life -/

/-- A store read from the file goes on protecting when a new process holds it. -/
theorem LifeInv.restart (hmono : Nondecreasing env) {s : Life} {m : Assoc Nonce UInt64}
    {c : LruCache Nonce UInt64} {lost : Nat} (h : LifeInv X config env s.world)
    (hread : read_cache_file config.replay.cache_path (.ok s.world.file) = .ok m)
    (hc : lost = 0 → ∀ nonce v, m.lookup nonce = some v → c.map.lookup nonce = some v) :
    LifeInv X config env (s.restart (.ok c) lost).world := by
  have hle : s.world.tick ≤ s.world.tick + 1 := Nat.le_succ _
  refine h.step rfl (Nat.le_add_right _ _) ?_ ?_
  · intro he
    have hlost : lost = 0 := (Nat.add_eq_zero_iff.mp he).2
    exact .inr ⟨m, hread, keeps_of_lookup hmono hle (hc hlost)⟩
  · intro m' hread' _
    exact .inr ⟨m', hread', keeps_of_lookup hmono hle fun _ _ hv => hv⟩

/-- Loading keeps every binding unless it overflows. -/
theorem load_from_file_lookup {path : String} {file : Except String (Option (List Char))}
    {order : List Entry → List Entry} {m : Assoc Nonce UInt64} {c : LruCache Nonce UInt64}
    (horder : ∀ l, (order l).Perm l) (hm : read_cache_file path file = .ok m)
    (h : load_from_file path file order = .ok c) (hfit : overflow path file = 0) {nonce : Nonce}
    {v : UInt64} (hv : m.lookup nonce = some v) : c.map.lookup nonce = some v := by
  obtain ⟨c', hload, _, hentries⟩ := load_from_file_eq_ok horder hm
  cases hload.symm.trans h
  have hlen : (order m.entries).reverse.length ≤ DEFAULT_MAX_ENTRIES := by
    simp only [overflow, hm] at hfit
    rw [List.length_reverse, (horder _).length_eq]
    omega
  rw [lookup_eq_some_iff, hentries, List.take_of_length_le hlen, List.mem_reverse,
    (horder _).mem_iff]
  exact lookup_eq_some_iff.mp hv

theorem lifeInv_load (hmono : Nondecreasing env) {s : Life} (h : LifeInv X config env s.world)
    (read_error : Option String) :
    LifeInv X config env (s.restart (load_from_file config.replay.cache_path
      (read_result read_error s.world.file) (env.order s.world.tick))
      (overflow config.replay.cache_path (read_result read_error s.world.file))).world := by
  cases read_error with
  | some e => exact h
  | none =>
      show LifeInv X config env (s.restart (load_from_file config.replay.cache_path
        (.ok s.world.file) _) (overflow config.replay.cache_path (.ok s.world.file))).world
      cases hread : read_cache_file config.replay.cache_path (.ok s.world.file) with
      | error e =>
          simp only [load_from_file, hread]
          exact h
      | ok m =>
          obtain ⟨c, hload, _⟩ := load_from_file_eq_ok (env.order_perm s.world.tick) hread
          rw [hload]
          exact h.restart hmono hread fun hfit nonce v hv =>
            load_from_file_lookup (env.order_perm s.world.tick) hread hload hfit hv

theorem lifeInv_boot (hmono : Nondecreasing env) {s : Life} (h : LifeInv X config env s.world)
    (read_error : Option String) :
    LifeInv X config env (s.restart (startup config s.world.file read_error
      (env.order s.world.tick))
      (overflow config.replay.cache_path (read_result read_error s.world.file))).world := by
  cases hfile : s.world.file with
  | none =>
      have hread : read_cache_file config.replay.cache_path (.ok s.world.file) = .ok ∅ := by
        rw [hfile]
        rfl
      exact h.restart hmono hread fun _ _ _ hv => nomatch hv
  | some text =>
      have hload := lifeInv_load hmono h read_error
      rw [hfile] at hload
      cases read_error with
      | none => exact hload
      | some e => exact hload

/-- **EVERY STEP OF A LIFE** keeps the invariant. -/
theorem lifeInv_step (hmono : Nondecreasing env)
    (hret : config.daemon.max_spa_packet_age.as_secs.toNat + 30
      ≤ config.replay.max_age.as_secs.toNat)
    (o : LifeOp) {s : Life} (h : LifeInv X config env s.world) :
    LifeInv X config env (o.run X config env s).world := by
  obtain ⟨w, presented, running⟩ := s
  have hpacket : ∀ p, (process_packet X config (some config.replay.cache_path) p).Always
      (handler env) (LifeInv X config env) (fun _ _ => True)
      { w with current := ⟨presented, p, w.tick⟩ } := by
    intro p
    have hcur : LifeInv X config env { w with current := ⟨presented, p, w.tick⟩ } :=
      fun he => ⟨(h he).guarded, (h he).once⟩
    exact always_process_packet hmono hcur
  cases running with
  | true =>
      cases o with
      | packet p => exact (always_exec (hpacket p)).1
      | prune => exact (always_exec (always_prune hmono hret h)).1
      | crash o effects =>
          cases o with
          | packet p => exact always_crashAt (hpacket p) effects
          | prune => exact always_crashAt (always_prune hmono hret h) effects
      | stop effects =>
          exact always_crashAt (always_save hmono h (Follows.refl w) rfl) effects
      | load read_error => exact h
      | boot read_error => exact h
  | false =>
      cases o with
      | load read_error => exact lifeInv_load (s := ⟨w, presented, false⟩) hmono h read_error
      | boot read_error => exact lifeInv_boot (s := ⟨w, presented, false⟩) hmono h read_error
      | packet p => exact h
      | prune => exact h
      | crash o effects => exact h
      | stop effects => exact h

theorem lifeInv_run (hmono : Nondecreasing env)
    (hret : config.daemon.max_spa_packet_age.as_secs.toNat + 30
      ≤ config.replay.max_age.as_secs.toNat)
    (ops : List LifeOp) {s : Life} (h : LifeInv X config env s.world) :
    LifeInv X config env (run_life X config env ops s).world := by
  induction ops generalizing s with
  | nil => exact h
  | cons o ops ih => exact ih (lifeInv_step hmono hret o h)

/-- **AT MOST ONE GRANT PER WIRE PACKET**: under a clock that never goes back and a
    retention of at least the freshness window plus the skew, no byte string causes two
    openings, whatever is presented, fails, crashes and restarts, as long as no entry
    was evicted. -/
theorem granted_at_most_once (X : Ext) {config : DaemonConfig} {env : Env}
    (hmono : Nondecreasing env)
    (hret : (config.daemon.max_spa_packet_age.as_secs.toNat : Int) + DEFAULT_MAX_SKEW_SECS.toInt
      ≤ config.replay.max_age.as_secs.toNat)
    (ops : List LifeOp) {s : Life} (hs : s.world.calls = [])
    (hev : (run_life X config env ops s).world.evicted = 0) :
    ((run_life X config env ops s).world.calls.map (fun c => c.1.packet.data)).Nodup := by
  have hskew : DEFAULT_MAX_SKEW_SECS.toInt = 30 := by decide
  have hstart : LifeInv X config env s.world := by
    intro _
    constructor
    · intro c hc
      rw [hs] at hc
      exact nomatch hc
    · rw [hs]
      exact .nil
  exact (lifeInv_run hmono (by omega) ops hstart hev).once

/-- The sample packet again and again: lost in a crash, granted, refused through another
    crash, a failed start and a shutdown. -/
def sampleLife : List LifeOp :=
  [.boot none, .crash (.packet samplePacket) 2, .load none, .packet samplePacket,
    .crash (.packet samplePacket) 3, .load (some "busy"), .load none, .packet samplePacket, .prune,
    .stop 2, .boot none, .packet samplePacket]

theorem sampleLife_granted_once :
    (run_life sampleExt sampleConfig sampleEnv sampleLife ⟨emptyWorld, 0, false⟩).world.calls.length
        = 1
      ∧ ((run_life sampleExt sampleConfig sampleEnv sampleLife
          ⟨emptyWorld, 0, false⟩).world.calls.map (fun c => c.1.packet.data)).Nodup := by
  have hmono : Nondecreasing sampleEnv := fun _ _ _ => Int.le_refl _
  have hstart : (⟨emptyWorld, 0, false⟩ : Life).world.calls = [] := rfl
  have hev : (run_life sampleExt sampleConfig sampleEnv sampleLife
      ⟨emptyWorld, 0, false⟩).world.evicted = 0 := by decide +kernel
  refine ⟨by decide +kernel, ?_⟩
  exact granted_at_most_once sampleExt hmono (by decide) sampleLife hstart hev

end FwknoxCrash
