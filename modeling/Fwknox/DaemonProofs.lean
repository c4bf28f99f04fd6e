import Fwknox.BackendProofs
import Fwknox.ThroughputProofs

/-! # The main loop — packets, limiter, pruning, start and exit

    `run` of `run.rs`, over any capture, any firewall backend and any rate limiter.  A
    turn receives at most one packet, lets the limiter decide, handles it, and prunes the
    replay cache on every 600th tick of a wrapping counter.

    * `loop_follows` : the turns are the steps of `run_daemon`, namely the packets the
      limiter admitted and the prunes that were due, and the backend follows the calls.
      What is known of those runs therefore holds of the loop.
    * `prune_within` : whatever the counter reads, one of any 600 turns prunes.  So no
      entry outlives its retention by more than 600 turns (`expired_entry_forgotten`).
    * `allowed_was_earned` : what nftables allows while the daemon runs goes back to the
      packets of this run, and at its end nothing is allowed (`run_ends_clean`). -/

namespace FwknoxDaemon

open FwknoxTypes FwknoxClock FwknoxConfig FwknoxPacket FwknoxMatcher FwknoxPersist FwknoxWorld
open FwknoxReplay FwknoxPipeline FwknoxAuthorization FwknoxNft FwknoxRemoval FwknoxBackend
open FwknoxLimiter FwknoxBucket FwknoxThroughput FwknoxLimiter.RateLimiter
open Netfilter LruMap EffectProg EffectProg.Prog

/-! ## The loop -/

/-- The configuration with the two switches of its `[daemon]` section that only the run
    loops read. -/
structure RunConfig extends DaemonConfig where
  flush_rules_at_init : Bool := true
  flush_rules_at_exit : Bool := true

/-- What a run is given: the backend, the external crates, the configuration, the path of
    the replay cache and the outside. -/
structure Host (σ : Type) where
  backend : FirewallBackend σ
  ext : Ext
  config : RunConfig
  persist_path : Option String
  env : Env

/-- Once in 600 turns. -/
def PRUNE_EVERY_TICKS : UInt64 := 600

/-- What `recv_timeout` returned; a packet comes with the instant the limiter reads. -/
inductive Received where
  | nothing
  | packet (p : CapturedPacket) (now : Instant)
  | failed (reason : String)

/-- The daemon between two turns.  `handled` numbers the packets for the causes of their
    calls. -/
structure Daemon (σ : Type) where
  world : World
  firewall : σ
  limiter : RateLimiter
  tick : UInt64
  handled : Nat

section Run

variable {σ : Type} (H : Host σ)

namespace Daemon

/-- One packet through the pipeline; its answer is only logged. -/
def handle_packet (d : Daemon σ) (p : CapturedPacket) : Daemon σ :=
  let r := ((process_packet H.ext H.config.toDaemonConfig H.persist_path p).exec
    (backend_handler H.backend H.env)
    ({ d.world with current := ⟨d.handled, p, d.world.tick⟩ }, d.firewall)).2
  { d with world := r.1, firewall := r.2, handled := d.handled + 1 }

/-- What the turn received: nothing, a failure, or a packet that the limiter judges first. -/
def receive (d : Daemon σ) : Received → Daemon σ
  | .nothing => d
  | .packet p now =>
      match d.limiter.check p.source_ip now with
      | (.pass, limiter) => handle_packet H { d with limiter } p
      | (.drop _, limiter) => { d with limiter }
  | .failed _ => d

/-- The replay cache forgets what is too old. -/
def prune (d : Daemon σ) : Daemon σ :=
  let r := ((prune_older_than H.persist_path H.config.replay.max_age).exec
    (backend_handler H.backend H.env) (d.world, d.firewall)).2
  { d with world := r.1, firewall := r.2 }

/-- One turn; the counter wraps. -/
def turn (d : Daemon σ) (r : Received) : Daemon σ :=
  let d := d.receive H r
  let d := { d with tick := d.tick + 1 }
  if d.tick % PRUNE_EVERY_TICKS = 0 then d.prune H else d

/-- The turns before the shutdown flag is seen. -/
def loop : List Received → Daemon σ → Daemon σ
  | [], d => d
  | r :: rs, d => loop rs (d.turn H r)

/-- After the loop: flush when configured, then save. -/
def stop (d : Daemon σ) : Daemon σ :=
  { d with
    firewall :=
      if H.config.flush_rules_at_exit then (H.backend.flush d.firewall).2 else d.firewall
    world := ((save_to_file H.config.replay.cache_path).exec (handler H.env) d.world).2 }

end Daemon

/-- Before the loop: flush when configured, then initialise.  A failed flush only warns. -/
def start (s : σ) : Except FirewallError Unit × σ :=
  H.backend.init (if H.config.flush_rules_at_init then (H.backend.flush s).2 else s)

/-- `run`, on the turns until the shutdown. -/
def run (w : World) (s : σ) (limiter : RateLimiter) (turns : List Received) :
    Except DaemonError Unit × Daemon σ :=
  match start H s with
  | (.error e, s) => (.error (.firewall e), ⟨w, s, limiter, 0, 0⟩)
  | (.ok _, s) => (.ok (), (Daemon.loop H turns ⟨w, s, limiter, 0, 0⟩).stop H)

/-! ## The turns as steps of the daemon -/

/-- The limiter's part of a turn: the packet it lets through, and itself afterwards. -/
def sift (l : RateLimiter) : Received → Option CapturedPacket × RateLimiter
  | .packet p now =>
      match l.check p.source_ip now with
      | (.pass, l') => (some p, l')
      | (.drop _, l') => (none, l')
  | .nothing | .failed _ => (none, l)

/-- The packets the limiter lets through. -/
def admitted : RateLimiter → List Received → List CapturedPacket
  | _, [] => []
  | l, r :: rs => (sift l r).1.toList ++ admitted (sift l r).2 rs

/-- The steps one turn takes, on the tick after it. -/
def turn_ops (tick : UInt64) (p : Option CapturedPacket) : List DaemonOp :=
  p.toList.map .packet ++ if tick % PRUNE_EVERY_TICKS = 0 then [.prune] else []

/-- The steps of all turns. -/
def operations : RateLimiter → UInt64 → List Received → List DaemonOp
  | _, _, [] => []
  | l, tick, r :: rs =>
      turn_ops (tick + 1) (sift l r).1 ++ operations (sift l r).2 (tick + 1) rs

/-- The daemon's steps on the world alone. -/
def steps (n : Nat) (ops : List DaemonOp) (w : World) : World :=
  run_daemon H.ext H.config.toDaemonConfig H.persist_path H.env n ops w

theorem packets_append (ops ops' : List DaemonOp) :
    packets (ops ++ ops') = packets ops ++ packets ops' := by
  induction ops with
  | nil => rfl
  | cons o ops ih =>
      cases o with
      | packet p => exact congrArg (p :: ·) ih
      | prune => exact ih

theorem steps_append (n : Nat) (ops ops' : List DaemonOp) (w : World) :
    steps H n (ops ++ ops') w
      = steps H (n + (packets ops).length) ops' (steps H n ops w) := by
  induction ops generalizing n w with
  | nil => rfl
  | cons o ops ih =>
      cases o with
      | packet p =>
          refine (ih (n + 1) _).trans ?_
          rw [show n + (packets (.packet p :: ops)).length = n + 1 + (packets ops).length from
            by simp only [packets, List.length_cons]; omega]
          rfl
      | prune => exact ih n _

/-- The packets of the steps are the admitted ones. -/
theorem packets_operations (l : RateLimiter) (tick : UInt64) (turns : List Received) :
    packets (operations l tick turns) = admitted l turns := by
  induction turns generalizing l tick with
  | nil => rfl
  | cons r rs ih =>
      rw [operations, admitted, packets_append, ih, turn_ops]
      congr 1
      cases (sift l r).1 with
      | none =>
          split
          · rfl
          · rfl
      | some p =>
          split
          · rfl
          · rfl

/-- The daemon `d'` is `d` after the steps `ops`: the world is that of `run_daemon`, and
    the backend was called for each new call. -/
structure Follows (d : Daemon σ) (ops : List DaemonOp) (d' : Daemon σ) : Prop where
  world : d'.world = steps H d.handled ops d.world
  handled : d'.handled = d.handled + (packets ops).length
  firewall : ∃ new, d'.world.calls = d.world.calls ++ new
    ∧ d'.firewall = open_all H.backend (new.map Prod.snd) d.firewall

variable {H}

theorem Follows.refl {d d' : Daemon σ} (hw : d'.world = d.world) (hf : d'.firewall = d.firewall)
    (hn : d'.handled = d.handled) : Follows H d [] d' :=
  ⟨hw, hn, [], by rw [hw, List.append_nil], hf⟩

theorem Follows.trans {d d₁ d₂ : Daemon σ} {ops ops' : List DaemonOp} (h : Follows H d ops d₁)
    (h' : Follows H d₁ ops' d₂) : Follows H d (ops ++ ops') d₂ := by
  obtain ⟨new, hnew, hfw⟩ := h.firewall
  obtain ⟨new', hnew', hfw'⟩ := h'.firewall
  refine ⟨?_, ?_, new ++ new', ?_, ?_⟩
  · rw [h'.world, h.handled, h.world, steps_append]
  · rw [h'.handled, h.handled, packets_append, List.length_append, Nat.add_assoc]
  · rw [hnew', hnew, List.append_assoc]
  · rw [hfw', hfw, List.map_append, open_all_append]

/-- A packet handled is an operation of the run. -/
theorem handle_packet_follows (d : Daemon σ) (p : CapturedPacket) :
    Follows H d [.packet p] (d.handle_packet H p) := by
  obtain ⟨new, hnew, hexec⟩ := exec_backend H.backend H.env
    (endsWith_process_packet H.ext H.config.toDaemonConfig H.persist_path p)
    { d.world with current := ⟨d.handled, p, d.world.tick⟩ } d.firewall
  simp only [Daemon.handle_packet, hexec]
  exact ⟨rfl, rfl, new, hnew, rfl⟩

/-- A prune is one too. -/
theorem prune_follows (d : Daemon σ) : Follows H d [.prune] (d.prune H) := by
  have hexec := exec_backend_avoids H.backend H.env
    (avoids_prune H.persist_path H.config.replay.max_age) d.world d.firewall
  have hcalls : (steps H d.handled [.prune] d.world).calls = d.world.calls :=
    prune_calls (X := H.ext) d.handled d.world
  simp only [Daemon.prune, hexec]
  exact ⟨rfl, rfl, [], hcalls.trans (List.append_nil _).symm, rfl⟩

/-- The limiter's part of a turn is `sift`; an admitted packet is handled. -/
theorem receive_follows (d : Daemon σ) (r : Received) :
    Follows H d ((sift d.limiter r).1.toList.map .packet) (d.receive H r)
      ∧ (d.receive H r).limiter = (sift d.limiter r).2
      ∧ (d.receive H r).tick = d.tick := by
  cases r with
  | nothing => exact ⟨.refl rfl rfl rfl, rfl, rfl⟩
  | failed reason => exact ⟨.refl rfl rfl rfl, rfl, rfl⟩
  | packet p now =>
      simp only [Daemon.receive, sift]
      generalize d.limiter.check p.source_ip now = answer
      obtain ⟨decision, limiter⟩ := answer
      cases decision with
      | pass =>
          have hpass : Follows H d [] ({ d with limiter } : Daemon σ) := .refl rfl rfl rfl
          exact ⟨hpass.trans (handle_packet_follows _ p), rfl, rfl⟩
      | drop reason => exact ⟨.refl rfl rfl rfl, rfl, rfl⟩

/-- **ONE TURN**: the admitted packet, then the prune if it is due. -/
theorem turn_follows (d : Daemon σ) (r : Received) :
    Follows H d (turn_ops (d.tick + 1) (sift d.limiter r).1) (d.turn H r)
      ∧ (d.turn H r).limiter = (sift d.limiter r).2
      ∧ (d.turn H r).tick = d.tick + 1 := by
  obtain ⟨hrecv, hlim, htick⟩ := receive_follows (H := H) d r
  have hcount : Follows H d ((sift d.limiter r).1.toList.map .packet)
      { d.receive H r with tick := (d.receive H r).tick + 1 } := by
    have hrest : Follows H (d.receive H r) []
        { d.receive H r with tick := (d.receive H r).tick + 1 } := .refl rfl rfl rfl
    have hboth := hrecv.trans hrest
    rw [List.append_nil] at hboth
    exact hboth
  simp only [Daemon.turn, turn_ops]
  rw [htick] at hcount ⊢
  by_cases hdue : (d.tick + 1) % PRUNE_EVERY_TICKS = 0
  · rw [if_pos hdue, if_pos hdue]
    exact ⟨hcount.trans (prune_follows _), hlim, rfl⟩
  · rw [if_neg hdue, if_neg hdue, List.append_nil]
    exact ⟨hcount, hlim, rfl⟩

/-- **THE LOOP REFINES THE DAEMON'S STEPS**: its turns are the admitted packets and the
    due prunes, in order, whatever the backend. -/
theorem loop_follows (turns : List Received) (d : Daemon σ) :
    Follows H d (operations d.limiter d.tick turns) (Daemon.loop H turns d) := by
  induction turns generalizing d with
  | nil => exact .refl rfl rfl rfl
  | cons r rs ih =>
      obtain ⟨hturn, hlim, htick⟩ := turn_follows (H := H) d r
      have hrest := ih (d.turn H r)
      rw [hlim, htick] at hrest
      exact hturn.trans hrest

/-! ## What a run grants -/

/-- The last save leaves the cache, the calls and the packet at hand; the file has the
    entries unless the write failed. -/
theorem save_world (path : String) (env : Env) (w : World) :
    ∃ w', ((save_to_file path).exec (handler env) w).2 = w'
      ∧ w'.cache = w.cache ∧ w'.calls = w.calls ∧ w'.current = w.current
      ∧ ((∃ k, w'.file = some (cache_text (env.order k w.cache.map.entries)))
        ∨ ∃ k, env.persist k ≠ none) := by
  generalize hr : (auto_save (some path)).exec (handler env) w = res
  obtain ⟨r, w'⟩ := res
  refine ⟨w', congrArg Prod.snd hr, ?_⟩
  obtain ⟨⟨hcache, _, hcalls, hcur, _⟩, ⟨_, hfile⟩ | ⟨_, _, _, k, _, _, hfail⟩⟩ :=
    auto_save_cases hr
  · exact ⟨hcache, hcalls, hcur, .inl (hfile.resolve_left fun h => nomatch h.1)⟩
  · exact ⟨hcache, hcalls, hcur, .inr ⟨k, hfail⟩⟩

/-- Stopping calls nobody. -/
theorem stop_calls (d : Daemon σ) : (d.stop H).world.calls = d.world.calls := by
  obtain ⟨w', hw', _, hcalls, _⟩ := save_world H.config.replay.cache_path H.env d.world
  exact (congrArg World.calls hw').trans hcalls

/-- A run that got past the start: its loop, then the exit. -/
theorem run_eq_ok {w : World} {s : σ} {limiter : RateLimiter} {turns : List Received}
    {d : Daemon σ} (h : run H w s limiter turns = (.ok (), d)) :
    (start H s).1 = .ok ()
      ∧ d = (Daemon.loop H turns ⟨w, (start H s).2, limiter, 0, 0⟩).stop H := by
  simp only [run] at h
  generalize start H s = started at h ⊢
  obtain ⟨answer, s'⟩ := started
  cases answer with
  | error e => cases h
  | ok u =>
      cases h
      exact ⟨rfl, rfl⟩

/-- What the exit does to the backend. -/
def closed (H : Host σ) (s : σ) : σ :=
  if H.config.flush_rules_at_exit then (H.backend.flush s).2 else s

/-- In the loop every rule goes back to a packet the limiter let through. -/
theorem loop_accounted (hv : H.config.toDaemonConfig.validate = .ok ()) {w : World}
    (hw : w.calls = []) (s : σ) (limiter : RateLimiter) (turns : List Received) :
    Accounted H.ext H.config.toDaemonConfig H.env (admitted limiter turns)
      (Daemon.loop H turns ⟨w, s, limiter, 0, 0⟩).world.calls := by
  have hstart : Accounted H.ext H.config.toDaemonConfig H.env [] w.calls := by
    rw [hw]
    exact ⟨(fun c hc => nomatch hc), .nil⟩
  have hrun : Accounted H.ext H.config.toDaemonConfig H.env
      (packets (operations limiter 0 turns))
      (steps H 0 (operations limiter 0 turns) w).calls := accounted_run hv _ hstart
  rw [packets_operations] at hrun
  rw [(loop_follows (H := H) turns ⟨w, s, limiter, 0, 0⟩).world]
  exact hrun

/-- **EVERY RULE OF A RUN WAS EARNED**: for an accepted configuration, over every backend,
    every call has its own cause among the packets the limiter admitted, and the backend
    ends as the start, those calls and the exit leave it. -/
theorem run_accounted (H : Host σ) (hv : H.config.toDaemonConfig.validate = .ok ()) {w : World}
    (hw : w.calls = []) (s : σ) (limiter : RateLimiter) (turns : List Received) {d : Daemon σ}
    (h : run H w s limiter turns = (.ok (), d)) :
    Accounted H.ext H.config.toDaemonConfig H.env (admitted limiter turns) d.world.calls
      ∧ d.firewall
          = closed H (open_all H.backend (d.world.calls.map Prod.snd) (start H s).2) := by
  obtain ⟨_, rfl⟩ := run_eq_ok h
  rw [stop_calls]
  refine ⟨loop_accounted hv hw _ limiter turns, ?_⟩
  obtain ⟨new, hnew, hfw⟩ :=
    (loop_follows (H := H) turns ⟨w, (start H s).2, limiter, 0, 0⟩).firewall
  rw [hnew, hw, List.nil_append, ← hfw]
  rfl

/-- The sample configuration over nft, with a cache file. -/
def sampleHost : Host NftDriver :=
  ⟨nft textReader, sampleExt, { toDaemonConfig := sampleConfig },
    some sampleConfig.replay.cache_path, sampleEnv⟩

def otherIp : Ipv4Addr := Vector.replicate 4 10

/-- The kernel as another run left it: the table is there, with a rule in it. -/
def leftBackend : NftablesBackend :=
  { (open_access textReader quietApplier
      ⟨.v4 otherIp, [⟨.tcp, 80⟩], .from_secs 30, "fwknox:bob:1"⟩
      startedBackend).2 with initialized := false }

def leftDriver : NftDriver := ⟨leftBackend, fun _ => quietApplier, fun _ => [], 0⟩

def sampleLimiter : RateLimiter :=
  { config := {}, inner := some (Live.new {} default_capacity_pos 0).inner,
    stats := (Live.new {} default_capacity_pos 0).stats }

/-- The sample packet, a quiet turn, and the same packet again. -/
def sampleTurns : List Received :=
  [.packet samplePacket 0, .nothing, .packet samplePacket 1000000000]

/-- The sample packet opens its rule once. -/
theorem sample_turns_accounted :
    (run sampleHost emptyWorld leftDriver sampleLimiter sampleTurns).2.world.calls.length = 1
      ∧ Accounted sampleExt sampleConfig sampleEnv (admitted sampleLimiter sampleTurns)
          (run sampleHost emptyWorld leftDriver sampleLimiter sampleTurns).2.world.calls :=
  ⟨by decide +kernel,
    (run_accounted sampleHost sampleConfig_validate rfl leftDriver sampleLimiter sampleTurns
      (Prod.ext (by decide +kernel) rfl)).1⟩

/-! ## Floods -/

/-- The packets of the turns, as the limiter meets them. -/
def arrivals : List Received → List Arrival
  | [] => []
  | .packet p now :: rs => (p.source_ip, now) :: arrivals rs
  | .nothing :: rs | .failed _ :: rs => arrivals rs

/-- The limiter admits as many packets as it answers `Pass`. -/
theorem admitted_length (l : RateLimiter) (turns : List Received) :
    (admitted l turns).length = (l.run_checks (arrivals turns)).1.count .pass := by
  induction turns generalizing l with
  | nil => rfl
  | cons r rs ih =>
      cases r with
      | nothing => exact ih l
      | failed reason => exact ih l
      | packet p now =>
          rw [admitted, List.length_append, ih]
          simp only [arrivals, run_checks, sift]
          generalize l.check p.source_ip now = answer
          obtain ⟨decision, l'⟩ := answer
          cases decision with
          | pass =>
              rw [List.count_cons_self, Nat.add_comm]
              rfl
          | drop reason =>
              rw [List.count_cons_of_ne (fun h => by cases h)]
              exact Nat.zero_add _

/-- The loop hands to the packet path what the limiter admits. -/
theorem loop_handled (w : World) (s : σ) (l : RateLimiter) (turns : List Received) :
    (Daemon.loop H turns ⟨w, s, l, 0, 0⟩).handled = (admitted l turns).length := by
  rw [(loop_follows (H := H) turns ⟨w, s, l, 0, 0⟩).handled, packets_operations]
  exact Nat.zero_add _

/-- No more calls than packets: each has a packet of its own. -/
theorem accounted_length_le {X : Ext} {config : DaemonConfig} {env : Env}
    {captured : List CapturedPacket} {calls : List (Cause × AccessRule)}
    (h : Accounted X config env captured calls) : calls.length ≤ captured.length := by
  have hnd : (calls.map fun c => c.1.index).Nodup := h.ordered.imp Nat.ne_of_lt
  have hsub : (calls.map fun c => c.1.index) ⊆ List.range captured.length := by
    intro i hi
    obtain ⟨c, hc, rfl⟩ := List.mem_map.mp hi
    exact List.mem_range.mpr (h.caused c hc).index_lt
  have hle := (hnd.subperm hsub).length_le
  rwa [List.length_map, List.length_range] at hle

/-- **A FLOOD DOES NOT REACH THE FIREWALL**: however many packets arrive within `D`
    seconds, from whatever sources, the packets handled in a run, and with them the rules
    it opens, stay within the limiter's allowance. -/
theorem flood_bounded (H : Host σ) (hv : H.config.toDaemonConfig.validate = .ok ())
    (hon : H.config.rate_limit.enabled = true) {t₀ : Instant} {l : RateLimiter}
    (hl : RateLimiter.with_clock H.config.rate_limit t₀ = some l) {w : World} (hw : w.calls = [])
    (s : σ) {turns : List Received}
    (hmono : (t₀ :: (arrivals turns).map Prod.snd).Pairwise (· ≤ ·)) {D : ℚ} (hD : 0 ≤ D)
    (hwithin : ∀ c ∈ arrivals turns, secs_since c.2 t₀ ≤ D) {d : Daemon σ}
    (h : run H w s l turns = (.ok (), d)) :
    d.world.calls.length ≤ d.handled
      ∧ (H.config.rate_limit.promotion_threshold.toNat : ℚ) * d.handled
          ≤ allowance H.config.rate_limit D := by
  have hcap : 0 < H.config.rate_limit.tracked_sources_capacity :=
    ((validate_eq_ok_iff.mp hv).rate_limit hon).capacity
  obtain ⟨_, rfl⟩ := run_eq_ok h
  have hhandled : ((Daemon.loop H turns ⟨w, (start H s).2, l, 0, 0⟩).stop H).handled
      = (admitted l turns).length := loop_handled w _ l turns
  rw [hhandled, stop_calls]
  refine ⟨accounted_length_le (loop_accounted hv hw _ l turns), ?_⟩
  rw [with_clock_enabled _ hon hcap] at hl
  cases hl
  rw [admitted_length, run_checks_enabled]
  exact passes_within _ hcap hmono hD hwithin

/-- Two packets of the sample are handled, and the allowance covers them. -/
theorem sample_turns_within_allowance :
    (run sampleHost emptyWorld leftDriver sampleLimiter sampleTurns).2.handled = 2
      ∧ (5 : ℚ) * (run sampleHost emptyWorld leftDriver sampleLimiter sampleTurns).2.handled
        ≤ allowance {} 1 := by
  refine ⟨by decide +kernel, (flood_bounded sampleHost sampleConfig_validate rfl rfl rfl leftDriver
    (by decide) zero_le_one ?_ (Prod.ext (by decide +kernel) rfl)).2⟩
  intro c hc
  rcases List.mem_cons.mp hc with rfl | hc
  · unfold secs_since
    norm_num
  · rw [List.mem_singleton.mp hc]
    unfold secs_since
    norm_num

/-! ## The prune schedule -/

/-- **ONE OF ANY 600 TURNS PRUNES**, also across the wrap of the counter. -/
theorem prune_within (tick : UInt64) :
    ∃ k < 600, (tick + UInt64.ofNat k + 1) % PRUNE_EVERY_TICKS = 0 := by
  have hlt : tick.toNat < 2 ^ 64 := tick.toNat_lt
  have hdue : ∀ k < 600, (tick.toNat + k + 1) % 2 ^ 64 % 600 = 0 →
      (tick + UInt64.ofNat k + 1) % PRUNE_EVERY_TICKS = 0 := by
    intro k hk h
    refine UInt64.toNat_inj.mp ?_
    rw [UInt64.toNat_mod, UInt64.toNat_add, UInt64.toNat_add, UInt64.toNat_ofNat',
      Nat.mod_eq_of_lt (Nat.lt_trans hk (by decide)), Nat.mod_add_mod]
    exact h
  -- the next multiple of 600, or the wrap if that comes first
  by_cases hwrap : tick.toNat + 600 < 2 ^ 64
  · obtain ⟨q, m, hm, hq⟩ : ∃ q m, m < 600 ∧ tick.toNat = 600 * q + m :=
      ⟨_, _, Nat.mod_lt _ (by decide), (Nat.div_add_mod _ _).symm⟩
    refine ⟨599 - m, by omega, hdue _ (by omega) ?_⟩
    rw [show tick.toNat + (599 - m) + 1 = 600 * (q + 1) from by omega,
      Nat.mod_eq_of_lt (show 600 * (q + 1) < 2 ^ 64 by omega), Nat.mul_mod_right]
  · refine ⟨2 ^ 64 - 1 - tick.toNat, by omega, hdue _ (by omega) ?_⟩
    rw [show tick.toNat + (2 ^ 64 - 1 - tick.toNat) + 1 = 2 ^ 64 from by omega]
    rfl

/-- The daemon's step keeps every stamp of a nonce at or after second `c`, once the clock
    is there. -/
theorem stampedSince_op {nonce : Nonce} {c : Nat} (n : Nat) (o : DaemonOp) {w : World}
    (hw : StampedSince nonce c w)
    (hc : ∀ i, w.tick ≤ i → c ≤ (H.env.clock i).unix_secs.toNat) :
    StampedSince nonce c (o.run H.ext H.config.toDaemonConfig H.persist_path H.env n w)
      ∧ w.tick ≤ (o.run H.ext H.config.toDaemonConfig H.persist_path H.env n w).tick := by
  cases o with
  | prune =>
      exact stampedSince_step H.persist_path H.config.replay.max_age .prune hw
        (hc _ (Nat.le_refl _))
  | packet p =>
      simp only [DaemonOp.run]
      generalize hr : (process_packet H.ext H.config.toDaemonConfig H.persist_path p).exec
        (handler H.env) { w with current := ⟨n, p, w.tick⟩ } = res
      obtain ⟨r, w'⟩ := res
      -- every exit leaves the cache alone or comes out of one insertion
      have hins : ∀ {m : Nonce} {answer : Except ReplayError Bool} {w₁ : World},
          (check_and_insert H.persist_path m).exec (handler H.env)
            ({ w with current := ⟨n, p, w.tick⟩ } : World).next = (answer, w₁) →
          StampedSince nonce c w₁ ∧ w.tick ≤ w₁.tick := by
        intro m answer w₁ hm
        have hw₁ : CacheOp.run H.env H.persist_path H.config.replay.max_age (.insert m)
            ({ w with current := ⟨n, p, w.tick⟩ } : World).next = w₁ := congrArg Prod.snd hm
        obtain ⟨hs, ht⟩ := stampedSince_step H.persist_path H.config.replay.max_age (.insert m)
          (w := ({ w with current := ⟨n, p, w.tick⟩ } : World).next) hw (hc _ (Nat.le_succ _))
        rw [hw₁] at hs ht
        exact ⟨hs, Nat.le_of_succ_le ht⟩
      cases process_packet_cases hr with
      | noMatch h => exact ⟨hw, Nat.le_refl _⟩
      | unreadable name reason h => exact ⟨hw, Nat.le_refl _⟩
      | missing name pl e h hf => exact ⟨hw, Nat.le_refl _⟩
      | stale name st pl e h hf ht => exact ⟨hw, Nat.le_succ _⟩
      | replay name st pl _ h hm => exact hins hm
      | unsaved name st pl e _ h hm => exact hins hm
      | refused name st pl reason _ h hm href => exact hins hm
      | granted name st pl sip pts w₁ h hm =>
          obtain ⟨hs, ht⟩ := hins hm
          exact ⟨hs, Nat.le_succ_of_le ht⟩

/-- Along the operations a stamp is never older than the clock was. -/
theorem stampedSince_steps (nonce : Nonce) {c : Nat} (ops : List DaemonOp) {n : Nat} {w : World}
    (hw : StampedSince nonce c w)
    (hc : ∀ i, w.tick ≤ i → c ≤ (H.env.clock i).unix_secs.toNat) :
    StampedSince nonce c (steps H n ops w) ∧ w.tick ≤ (steps H n ops w).tick := by
  induction ops generalizing n w with
  | nil => exact ⟨hw, Nat.le_refl _⟩
  | cons o ops ih =>
      obtain ⟨hw', ht⟩ := stampedSince_op (H := H) n o hw hc
      have hc' : ∀ i, (o.run H.ext H.config.toDaemonConfig H.persist_path H.env n w).tick ≤ i →
          c ≤ (H.env.clock i).unix_secs.toNat := fun i hi => hc i (Nat.le_trans ht hi)
      cases o with
      | packet p =>
          obtain ⟨hs, ht'⟩ := ih (n := n + 1) hw' hc'
          exact ⟨hs, Nat.le_trans ht ht'⟩
      | prune =>
          obtain ⟨hs, ht'⟩ := ih (n := n) hw' hc'
          exact ⟨hs, Nat.le_trans ht ht'⟩

/-- Time only moves forward. -/
theorem steps_tick_le (ops : List DaemonOp) (n : Nat) (w : World) :
    w.tick ≤ (steps H n ops w).tick :=
  (stampedSince_steps (H := H) (.replicate 16 0) ops (fun _ _ => Nat.zero_le _)
    (fun _ _ => Nat.zero_le _)).2

/-- The loop takes time, it does not give it back. -/
theorem loop_time_le (turns : List Received) (d : Daemon σ) :
    d.world.tick ≤ (Daemon.loop H turns d).world.tick := by
  rw [(loop_follows turns d).world]
  exact steps_tick_le _ _ _

/-- A prune leaves no stamp older than the retention. -/
theorem stampedSince_prune {nonce : Nonce} {c : Nat} (n : Nat) {w : World}
    (hc : c + H.config.replay.max_age.as_secs.toNat ≤ (H.env.clock w.tick).unix_secs.toNat) :
    StampedSince nonce c (steps H n [.prune] w) := by
  have hcache : (steps H n [.prune] w).cache = w.cache.popAll (stale w.cache
      (saturating_sub (H.env.clock w.tick).unix_secs H.config.replay.max_age.as_secs)) :=
    prune_run_cache H.persist_path H.config.replay.max_age w
  intro v hv
  rw [hcache] at hv
  obtain ⟨hkept, hold⟩ := (LruCache.lookup_popAll _ _ _ _).mp hv
  by_contra hlt
  refine hkept (mem_stale_iff.mpr ⟨v, hold, ?_⟩)
  rw [UInt64.lt_iff_toNat_lt, saturating_sub_toNat]
  omega

/-- Turns can be run in two goes. -/
theorem loop_append (turns turns' : List Received) (d : Daemon σ) :
    Daemon.loop H (turns ++ turns') d = Daemon.loop H turns' (Daemon.loop H turns d) := by
  induction turns generalizing d with
  | nil => rfl
  | cons r rs ih => exact ih (d.turn H r)

/-- Every turn counts, modulo 2^64. -/
theorem loop_tick (turns : List Received) (d : Daemon σ) :
    (Daemon.loop H turns d).tick = d.tick + UInt64.ofNat turns.length := by
  induction turns generalizing d with
  | nil => exact (UInt64.add_zero _).symm
  | cons r rs ih =>
      rw [Daemon.loop, ih, (turn_follows d r).2.2, List.length_cons, UInt64.ofNat_add,
        UInt64.add_comm (UInt64.ofNat rs.length), ← UInt64.add_assoc]
      rfl

/-- **RETENTION IS BOUNDED**: an entry whose retention has passed is gone 600 turns later,
    whatever arrives in between, wherever the counter stands, and it stays gone. -/
theorem expired_entry_forgotten (H : Host σ) (hmono : Nondecreasing H.env) (d : Daemon σ)
    {turns : List Received} (hlen : 600 ≤ turns.length) (nonce : Nonce) {stamp : UInt64}
    (hold : stamp.toNat + H.config.replay.max_age.as_secs.toNat
      < (H.env.clock d.world.tick).unix_secs.toNat) :
    (Daemon.loop H turns d).world.cache.map.lookup nonce ≠ some stamp := by
  have hclock : ∀ i, d.world.tick ≤ i →
      stamp.toNat + 1 + H.config.replay.max_age.as_secs.toNat
        ≤ (H.env.clock i).unix_secs.toNat := by
    intro i hi
    have hle := unix_secs_mono (hmono d.world.tick i hi)
    omega
  -- the first turns, up to the one that prunes
  obtain ⟨k, hk, hdue⟩ := prune_within d.tick
  obtain ⟨first, r, rest, rfl, rfl⟩ : ∃ first r rest, turns = first ++ r :: rest
      ∧ first.length = k := by
    cases hdrop : turns.drop k with
    | nil =>
        have hle : turns.length ≤ k := List.drop_eq_nil_iff.mp hdrop
        omega
    | cons r rest =>
        refine ⟨turns.take k, r, rest, ?_, ?_⟩
        · rw [← hdrop, List.take_append_drop]
        · rw [List.length_take]
          omega
  have hpruned : StampedSince nonce (stamp.toNat + 1)
      ((Daemon.loop H first d).turn H r).world := by
    obtain ⟨hturn, _, _⟩ := turn_follows (H := H) (Daemon.loop H first d) r
    rw [hturn.world, turn_ops, loop_tick, if_pos hdue, steps_append]
    refine stampedSince_prune _ (hclock _ ?_)
    exact Nat.le_trans (loop_time_le first d) (steps_tick_le _ _ _)
  -- the turns after it stamp with the clock, which is past the retention
  have hlater : d.world.tick ≤ ((Daemon.loop H first d).turn H r).world.tick := by
    have hle := loop_time_le (H := H) (first ++ [r]) d
    rw [loop_append] at hle
    exact hle
  have hkept : StampedSince nonce (stamp.toNat + 1)
      (Daemon.loop H rest ((Daemon.loop H first d).turn H r)).world := by
    rw [(loop_follows rest _).world]
    refine (stampedSince_steps nonce _ hpruned ?_).1
    intro i hi
    exact Nat.le_of_add_right_le (hclock i (Nat.le_trans hlater hi))
  intro hfound
  rw [loop_append] at hfound
  exact Nat.not_succ_le_self _ (hkept stamp hfound)

/-- A daemon that has kept one entry since the start of the epoch, about to wrap its
    counter. -/
def staleDaemon : Daemon NftDriver :=
  ⟨{ emptyWorld with cache := emptyWorld.cache.put (Vector.replicate 16 7) 5 },
    leftDriver, sampleLimiter, 18446744073709551600, 0⟩

/-- After 600 turns the stale nonce is gone. -/
theorem stale_entry_forgotten :
    staleDaemon.world.cache.map.lookup (Vector.replicate 16 7) = some 5
      ∧ (Daemon.loop sampleHost (List.replicate 600 .nothing) staleDaemon).world.cache.map.lookup
          (Vector.replicate 16 7) ≠ some 5 :=
  ⟨by decide, expired_entry_forgotten sampleHost (fun _ _ _ => Int.le_refl _) staleDaemon
    (by rw [List.length_replicate]) _ (by decide)⟩

end Run

/-! ## The kernel's table over one run -/

section Nft

variable {R : Reader Ipv4Addr Protocol}

/-- A start that flushes leaves an empty allow set, whatever an earlier run left. -/
theorem start_confined {H : Host NftDriver} (hB : H.backend = nft R)
    (hflush : H.config.flush_rules_at_init = true) {s : NftDriver} (hs : s.applier.fails = none) :
    Confined [] (start H s).2.backend := by
  simp only [start, hB, hflush, if_true]
  have hempty : Confined [] ((nft R).flush s).2.backend := by
    refine ⟨declared_of_lookup (flush_lookup hs _) (flush_initialized _ _), ?_⟩
    intro p hp
    exact absurd (allows_flush hs s.now p) (Bool.not_eq_false _ ▸ hp)
  have hnow := hempty.now
  refine ⟨declared_step (R := R) (.init _) hnow.declared, ?_⟩
  intro p hp
  exact hnow.named p ((allows_init _ _ p).symm.trans hp)

/-- **WHAT THE FIREWALL ALLOWS WAS EARNED IN THIS RUN**: with a flush at the start, at every
    point of the loop, an allowed packet goes back to a captured packet of this run that
    the limiter admitted and that authorizes the rule; nothing an earlier run left counts. -/
theorem allowed_was_earned (L : ReaderLaws R) (H : Host NftDriver) (hB : H.backend = nft R)
    (hv : H.config.toDaemonConfig.validate = .ok ())
    (hflush : H.config.flush_rules_at_init = true) {s : NftDriver} (hs : s.applier.fails = none)
    {w : World} (hw : w.calls = []) (limiter : RateLimiter) (turns : List Received)
    {p : Packet Ipv4Addr Protocol}
    (hp : (Daemon.loop H turns ⟨w, (start H s).2, limiter, 0, 0⟩).firewall.backend.allows p
      = true) :
    ∃ c rule, Caused H.ext H.config.toDaemonConfig H.env (admitted limiter turns) c rule
      ∧ rule.source_ip = .v4 p.saddr ∧ (⟨p.l4proto, p.dport⟩ : PortProto) ∈ rule.ports := by
  have hacc := loop_accounted hv hw (start H s).2 limiter turns
  obtain ⟨new, hnew, hfw⟩ :=
    (loop_follows (H := H) turns ⟨w, (start H s).2, limiter, 0, 0⟩).firewall
  rw [hnew, hw, List.nil_append] at hacc
  rw [hfw, hB] at hp
  obtain ⟨rule, hrule, hip, hport⟩ :=
    (confined_open_all L (new.map Prod.snd) (start_confined hB hflush hs)).named p hp
  obtain ⟨c, hc, rfl⟩ := List.mem_map.mp hrule
  exact ⟨c.1, c.2, hacc.caused c hc, hip, hport⟩

/-- The rule of the sample run goes back to its packet. -/
theorem sample_rule_earned :
    (Daemon.loop sampleHost sampleTurns
        ⟨emptyWorld, (start sampleHost leftDriver).2, sampleLimiter, 0, 0⟩).firewall.backend.allows
          ⟨sampleIp, .tcp, 22⟩ = true
      ∧ ∃ c rule,
        Caused sampleExt sampleConfig sampleEnv (admitted sampleLimiter sampleTurns) c rule
        ∧ rule.source_ip = .v4 sampleIp ∧ (⟨.tcp, 22⟩ : PortProto) ∈ rule.ports := by
  have hallowed : (Daemon.loop sampleHost sampleTurns ⟨emptyWorld, (start sampleHost leftDriver).2,
      sampleLimiter, 0, 0⟩).firewall.backend.allows ⟨sampleIp, .tcp, 22⟩ = true := by
    decide +kernel
  exact ⟨hallowed, allowed_was_earned textReader_laws sampleHost rfl sampleConfig_validate rfl rfl
    rfl sampleLimiter sampleTurns hallowed⟩

/-- **A RUN ENDS CLEAN**: nothing is allowed any more when the exit flushes and nft runs, and
    the saved file reads back as the cache when the write goes through. -/
theorem run_ends_clean (H : Host NftDriver) (hB : H.backend = nft R) {w : World} {s : NftDriver}
    {limiter : RateLimiter} {turns : List Received} {d : Daemon NftDriver}
    (h : run H w s limiter turns = (.ok (), d)) :
    (H.config.flush_rules_at_exit = true →
        (Daemon.loop H turns ⟨w, (start H s).2, limiter, 0, 0⟩).firewall.applier.fails = none →
        ∀ p, d.firewall.backend.allows p = false)
      ∧ ((∀ k, H.env.persist k = none) →
        ∃ m, read_cache_file H.config.replay.cache_path (.ok d.world.file) = .ok m
          ∧ m.entries.Perm d.world.cache.map.entries) := by
  obtain ⟨_, rfl⟩ := run_eq_ok h
  refine ⟨?_, ?_⟩
  · intro hexit hruns p
    simp only [Daemon.stop, hexit, if_true, hB]
    exact allows_flush hruns _ p
  · intro hp
    obtain ⟨w', hw', hcache, _, _, hfile⟩ := save_world H.config.replay.cache_path H.env
      (Daemon.loop H turns ⟨w, (start H s).2, limiter, 0, 0⟩).world
    obtain ⟨k, hk⟩ := hfile.resolve_right
      (fun hex => hex.elim fun k hfail => hfail (hp k))
    simp only [Daemon.stop, hw']
    rw [hcache, hk]
    exact read_saved _ (H.env.order_perm k) _

/-- The sample run ends with no rule, and its nonces in the file. -/
theorem sample_run_ends_clean :
    (∀ p, (run sampleHost emptyWorld leftDriver sampleLimiter
        sampleTurns).2.firewall.backend.allows p = false)
      ∧ ∃ m, read_cache_file sampleConfig.replay.cache_path
            (.ok (run sampleHost emptyWorld leftDriver sampleLimiter sampleTurns).2.world.file)
          = .ok m
        ∧ m.entries.Perm
            (run sampleHost emptyWorld leftDriver sampleLimiter
              sampleTurns).2.world.cache.map.entries := by
  have hclean := run_ends_clean sampleHost rfl (w := emptyWorld) (s := leftDriver)
    (Prod.ext (by decide +kernel) rfl :
      run sampleHost emptyWorld leftDriver sampleLimiter sampleTurns = (.ok (), _))
  exact ⟨hclean.1 rfl (by decide +kernel), hclean.2 fun _ => rfl⟩

end Nft

end FwknoxDaemon
