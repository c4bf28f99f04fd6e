import Fwknox.DaemonProofs
import Fwknox.SandboxProofs
import Fwknox.SharedProofs

/-! # Starting up — from the command line to the run loops

    `real_main` of the daemon up to the call of a run loop, with `apply_sandbox` and the Landlock
    step it may take.  The capabilities are those of the process that was started.

    * `serves_iff` : exactly when a run loop is reached, with what, and as which process.
    * `sandboxed_boot` : with the sandbox on, root never gets there, because changing the user
      comes after the capabilities for it were dropped.  Any other user does, and then nft may
      change the firewall if and only if `CAP_NET_ADMIN` was ambient from the start. -/

namespace FwknoxBoot

open FwknoxTypes FwknoxClock FwknoxConfig FwknoxPersist FwknoxWorld FwknoxReplay FwknoxShared
open FwknoxLimiter FwknoxBucket FwknoxDaemon FwknoxSandbox LruMap LinuxCaps

/-! ## Landlock -/

/-- What the kernel says of a ruleset. -/
inductive RulesetStatus where
  | fullyEnforced
  | partiallyEnforced
  | notEnforced
  deriving DecidableEq

/-- What the daemon makes of it. -/
inductive RulesetOutcome where
  | enforced
  | insufficient
  deriving DecidableEq

/-- An empty policy has to be enforced in full. -/
def classify_status : RulesetStatus → Bool → RulesetOutcome
  | .fullyEnforced, _ => .enforced
  | .partiallyEnforced, true => .insufficient
  | .partiallyEnforced, false => .enforced
  | .notEnforced, _ => .insufficient

/-- What the kernel answers to the steps of installing a ruleset. -/
structure LandlockKernel where
  handle_access : Except String Unit
  create : Except String Unit
  open_path : String → Except String Unit
  add_rule : String → Except String Unit
  restrict_self : Except String RulesetStatus

/-- One of the two loops over paths; `kind` is `ro` or `rw`. -/
def add_rules (K : LandlockKernel) (kind : String) : List String → Except String Unit
  | [] => .ok ()
  | path :: paths =>
      match K.open_path path with
      | .error e => .error ("open " ++ path ++ ": " ++ e)
      | .ok _ =>
          match K.add_rule path with
          | .error e => .error ("add_rule " ++ kind ++ ": " ++ e)
          | .ok _ => add_rules K kind paths

/-- The end of `landlock::apply`. -/
def judge (status : RulesetStatus) (policy_is_empty : Bool) : Except String Unit :=
  match classify_status status policy_is_empty with
  | .enforced => .ok ()
  | .insufficient =>
      match status with
      | .notEnforced => .error "kernel does not support Landlock (needs Linux 5.13+)"
      | _ => .error ("landlock: kernel only partially enforced an empty policy; "
          ++ "refusing to run worker without full filesystem denial")

/-- `landlock::apply`, with the text of its error. -/
def landlock (K : LandlockKernel) (policy : LandlockConfig) : Except String Unit := do
  K.handle_access.mapError ("handle_access failed: " ++ ·)
  K.create.mapError ("ruleset create failed: " ++ ·)
  add_rules K "ro" policy.read_only
  add_rules K "rw" policy.read_write
  let status ← K.restrict_self.mapError ("restrict_self failed: " ++ ·)
  judge status (policy.read_only.isEmpty && policy.read_write.isEmpty)

/-! ## `real_main` -/

/-- The firewalls the configuration can name. -/
inductive Backend where
  | nftables
  | iptables
  deriving DecidableEq

/-- The configuration with the rest of its `[daemon]` section. -/
structure BootConfig extends RunConfig where
  listen_addr : IpAddr
  listen_port : UInt16 := 62201
  firewall_backend : Backend := .nftables
  run_user : String := "fwknox"
  run_group : String := "fwknox"
  enable_sandbox : Bool := true
  enable_privsep : Bool := true
  landlock_enabled : Bool := false

/-- What `real_main` ends with besides success. -/
inductive MainError where
  | config (e : LoadError)
  | firewall (e : FirewallError)
  | io (reason : String)
  | replay (e : ReplayError)
  | sandbox (e : SandboxError)
  | panicked
  deriving DecidableEq

/-- The hash tables that are allocated in full before they are used. -/
inductive Table where
  | replay
  | tracked
  | candidates
  deriving DecidableEq

/-- What the daemon finds when it starts. -/
structure Machine where
  read : String → Except String String
  toml : String → Except String BootConfig
  bind : IpAddr → UInt16 → Except String Unit
  /-- The replay cache's file, what reading it fails with, and the order of its hash map. -/
  file : Option (List Char)
  read_error : Option String
  order : List Entry → List Entry
  /-- Whether a table for so many entries can be allocated; if not, its constructor panics. -/
  reserve : Table → Nat → Bool
  caps_all : List Capability
  caps_all_mem : ∀ cap, cap ∈ caps_all
  user : String → Except String (Option UInt32)
  group : String → Except String (Option UInt32)
  /-- `Path::parent`. -/
  parent : String → Option String
  landlock_kernel : LandlockKernel
  now : Instant
  install_handlers : Except String Unit

/-- What the sandbox is given. -/
def Machine.host (M : Machine) : FwknoxSandbox.Host where
  caps_all := M.caps_all
  caps_all_mem := M.caps_all_mem
  user := M.user
  group := M.group
  landlock := landlock M.landlock_kernel

/-- The two run loops. -/
inductive Mode where
  | privsep
  | single
  deriving DecidableEq

/-- What a run loop is called with. -/
structure Served where
  config : BootConfig
  cache : LruCache Nonce UInt64
  limiter : RateLimiter
  mode : Mode

section Main

variable (M : Machine) (path : String)

/-- The file, as far as its validation. -/
def load_daemon_config : Except LoadError BootConfig :=
  load_config M.read M.toml (fun c => c.toDaemonConfig.validate) path

/-- The directory of the replay cache. -/
def parent_or_current (cache_path : String) : String := (M.parent cache_path).getD "."

/-- `apply_sandbox` with the daemon's policy; only root is to become another user. -/
def apply_sandbox (config : BootConfig) : Step Unit := fun p =>
  apply M.host
    { keep_caps := [.cap_net_admin]
      drop_to := if p.uid = 0 then some ⟨config.run_user, config.run_group⟩ else none
      landlock :=
        if config.landlock_enabled then
          some ⟨[], [parent_or_current M config.replay.cache_path]⟩
        else none } p

/-- Only nftables is there. -/
def select_backend : Backend → Except MainError Unit
  | .nftables => .ok ()
  | .iptables =>
      .error (.firewall (.unsupported "iptables backend (Phase 3 ships only nftables)"))

/-- A table is there, or the constructor has panicked. -/
def allocate (table : Table) (capacity : Nat) : Except MainError Unit :=
  if M.reserve table capacity then .ok () else .error .panicked

/-- The steps before the sandbox: configuration, backend, socket, replay cache.  The cache is
    allocated for its whole capacity, once its file has been read. -/
def prepare : Except MainError (BootConfig × LruCache Nonce UInt64) := do
  let config ← (load_daemon_config M path).mapError .config
  select_backend config.firewall_backend
  (M.bind config.listen_addr config.listen_port).mapError .io
  let cache ← (startup config.toDaemonConfig M.file M.read_error M.order).mapError .replay
  allocate M .replay cache.cap
  pure (config, cache)

/-- The two tables of a limiter that is enabled. -/
def limiter_tables (config : BootConfig) : Except MainError Unit :=
  if config.rate_limit.enabled then do
    allocate M .tracked config.rate_limit.tracked_sources_capacity
    allocate M .candidates config.rate_limit.tracked_sources_capacity
  else .ok ()

/-- The limiter; its `expect` may panic too. -/
def rate_limiter (config : BootConfig) : Except MainError RateLimiter :=
  match RateLimiter.with_clock config.rate_limit M.now with
  | none => .error .panicked
  | some limiter => do
      limiter_tables M config
      pure limiter

/-- The handlers that the single process needs. -/
def choose_mode (config : BootConfig) : Except MainError Mode :=
  if config.enable_privsep then .ok .privsep
  else
    match M.install_handlers with
    | .error e => .error (.io e)
    | .ok _ => .ok .single

/-- The steps after the sandbox: the limiter and the mode. -/
def dispatch (config : BootConfig) (cache : LruCache Nonce UInt64) : Except MainError Served := do
  let limiter ← rate_limiter M config
  let mode ← choose_mode M config
  pure ⟨config, cache, limiter, mode⟩

/-- `real_main` up to the call of a run loop. -/
def real_main (p : Process) : EStateM.Result MainError Process Served :=
  match prepare M path with
  | .error e => .error e p
  | .ok (config, cache) =>
      match (if config.enable_sandbox then apply_sandbox M config p else .ok () p) with
      | .error e p => .error (.sandbox e) p
      | .ok _ p =>
          match dispatch M config cache with
          | .error e => .error e p
          | .ok served => .ok served p

end Main

/-! ## What each step comes to -/

/-- Another error makes no success. -/
theorem mapError_eq_ok {ε ε' α : Type} {x : Except ε α} {f : ε → ε'} {a : α} :
    x.mapError f = .ok a ↔ x = .ok a := by
  cases x with
  | error e => exact iff_of_false (fun h => by cases h) (fun h => by cases h)
  | ok b => simp only [Except.mapError, Except.ok.injEq]

/-- Every path is opened and allowed. -/
theorem add_rules_eq_ok {K : LandlockKernel} {kind : String} {paths : List String} :
    add_rules K kind paths = .ok ()
      ↔ ∀ path ∈ paths, K.open_path path = .ok () ∧ K.add_rule path = .ok () := by
  induction paths with
  | nil => exact iff_of_true rfl fun _ h => absurd h List.not_mem_nil
  | cons path paths ih =>
      rw [List.forall_mem_cons, ← ih, add_rules]
      cases hopen : K.open_path path with
      | error e => exact iff_of_false (fun h => by cases h) (fun h => by cases h.1.1)
      | ok _ =>
          cases hadd : K.add_rule path with
          | error e => exact iff_of_false (fun h => by cases h) (fun h => by cases h.1.2)
          | ok _ => exact (and_iff_right ⟨rfl, rfl⟩).symm

/-- Which answers of the kernel are good enough. -/
theorem judge_eq_ok {status : RulesetStatus} {empty : Bool} :
    judge status empty = .ok ()
      ↔ status = .fullyEnforced ∨ status = .partiallyEnforced ∧ empty = false := by
  cases status with
  | fullyEnforced => exact iff_of_true rfl (.inl rfl)
  | notEnforced =>
      refine iff_of_false (fun h => by cases h) ?_
      rintro (h | ⟨h, _⟩)
      · cases h
      · cases h
  | partiallyEnforced =>
      cases empty with
      | false => exact iff_of_true rfl (.inr ⟨rfl, rfl⟩)
      | true =>
          refine iff_of_false (fun h => by cases h) ?_
          rintro (h | ⟨_, h⟩)
          · cases h
          · cases h

/-- The ruleset is in place, as far as the policy needs. -/
structure Landlocked (K : LandlockKernel) (policy : LandlockConfig) : Prop where
  handle_access : K.handle_access = .ok ()
  create : K.create = .ok ()
  read_only : ∀ path ∈ policy.read_only, K.open_path path = .ok () ∧ K.add_rule path = .ok ()
  read_write : ∀ path ∈ policy.read_write, K.open_path path = .ok () ∧ K.add_rule path = .ok ()
  status : ∃ status, K.restrict_self = .ok status
    ∧ (status = .fullyEnforced ∨ status = .partiallyEnforced
        ∧ (policy.read_only.isEmpty && policy.read_write.isEmpty) = false)

/-- When the Landlock step goes through. -/
theorem landlock_eq_ok {K : LandlockKernel} {policy : LandlockConfig} :
    landlock K policy = .ok () ↔ Landlocked K policy := by
  simp only [landlock, except_bind_eq_ok, mapError_eq_ok, judge_eq_ok]
  constructor
  · rintro ⟨_, hhandle, _, hcreate, _, hro, _, hrw, hstatus⟩
    exact ⟨hhandle, hcreate, add_rules_eq_ok.mp hro, add_rules_eq_ok.mp hrw, hstatus⟩
  · intro h
    exact ⟨_, h.handle_access, _, h.create, _, add_rules_eq_ok.mpr h.read_only, _,
      add_rules_eq_ok.mpr h.read_write, h.status⟩

/-! ### The capabilities -/

/-- One turn of the first step on the sets that need no capability to change. -/
theorem drop_cap_others (p : Process) (cap : Capability) :
    (drop_cap p cap).inheritable = p.inheritable.erase cap
      ∧ (drop_cap p cap).ambient = p.ambient.erase cap
      ∧ (drop_cap p cap).uid = p.uid ∧ (drop_cap p cap).gid = p.gid
      ∧ (drop_cap p cap).groups = p.groups := by
  by_cases hset : .cap_setpcap ∈ p.effective.erase cap
  · simp [drop_cap, try_drop, Process.drop, hset]
  · simp [drop_cap, try_drop, Process.drop, hset]

/-- The process is who it was and has kept what it had of `keep`. -/
structure Confined (keep : List Capability) (p q : Process) : Prop where
  uid : q.uid = p.uid
  gid : q.gid = p.gid
  groups : q.groups = p.groups
  effective : ∀ cap, cap ∈ q.effective ↔ cap ∈ p.effective ∧ cap ∈ keep
  permitted : ∀ cap, cap ∈ q.permitted ↔ cap ∈ p.permitted ∧ cap ∈ keep
  inheritable : ∀ cap, cap ∈ q.inheritable ↔ cap ∈ p.inheritable ∧ cap ∈ keep
  ambient : ∀ cap, cap ∈ q.ambient ↔ cap ∈ p.ambient ∧ cap ∈ keep

/-- The first step leaves every field alone that no turn changes. -/
theorem drop_all_except_same {α : Type} {field : Process → α}
    (hfield : ∀ p cap, field (drop_cap p cap) = field p) (keep l : List Capability) (p : Process) :
    field (drop_all_except keep l p) = field p := by
  induction l generalizing p with
  | nil => rfl
  | cons cap l ih =>
      rw [drop_all_except, ih]
      by_cases h : cap ∈ keep
      · rw [if_pos h]
      · rw [if_neg h, hfield]

/-- From any process, and in whatever order the capabilities come. -/
theorem drop_all_except_confined (H : FwknoxSandbox.Host) (keep : List Capability) (p : Process) :
    Confined keep p (drop_all_except keep H.caps_all p) := by
  have hmem : ∀ {set : Process → Finset Capability},
      (∀ p cap, set (drop_cap p cap) = (set p).erase cap) →
      ∀ cap, cap ∈ set (drop_all_except keep H.caps_all p) ↔ cap ∈ set p ∧ cap ∈ keep := by
    intro set hset cap
    rw [mem_drop_all_except (I := fun _ => True) (fun _ _ _ _ => trivial) (fun p c _ _ => hset p c)
      H.caps_all trivial]
    exact and_congr_right' (or_iff_left (not_not_intro (H.caps_all_mem cap)))
  exact {
    uid := drop_all_except_same (fun p cap => (drop_cap_others p cap).2.2.1) keep _ p
    gid := drop_all_except_same (fun p cap => (drop_cap_others p cap).2.2.2.1) keep _ p
    groups := drop_all_except_same (fun p cap => (drop_cap_others p cap).2.2.2.2) keep _ p
    effective := hmem fun p cap => (drop_cap_spec p cap).1
    permitted := hmem fun p cap => (drop_cap_spec p cap).2.1
    inheritable := hmem fun p cap => (drop_cap_others p cap).1
    ambient := hmem fun p cap => (drop_cap_others p cap).2.1 }

/-! ### The sandbox -/

/-- Without `CAP_SETGID` the user is not changed, whether the names are found or not. -/
theorem drop_to_fails (H : FwknoxSandbox.Host) (user group : String) {p : Process}
    (h : .cap_setgid ∉ p.effective) :
    ∃ msg, drop_to H user group p = .error (.privDrop msg) p := by
  cases hu : H.user user with
  | error e =>
      simp only [drop_to, looked_up, resolve_user, resolve, hu, bind, EStateM.bind]
      exact ⟨_, rfl⟩
  | ok uid =>
      cases uid with
      | none =>
          simp only [drop_to, looked_up, resolve_user, resolve, hu, bind, EStateM.bind]
          exact ⟨_, rfl⟩
      | some uid =>
          cases hg : H.group group with
          | error e =>
              simp only [drop_to, looked_up, resolve_user, resolve_group, resolve, hu, hg, bind,
                EStateM.bind]
              exact ⟨_, rfl⟩
          | ok gid =>
              cases gid with
              | none =>
                  simp only [drop_to, looked_up, resolve_user, resolve_group, resolve, hu, hg,
                    bind, EStateM.bind]
                  exact ⟨_, rfl⟩
              | some gid => exact ⟨_, drop_to_without_setgid hu hg h⟩

/-- So a sandbox that is to change the user, and does not keep `CAP_SETGID`, fails. -/
theorem apply_fails (H : FwknoxSandbox.Host) (keep : List Capability) (hkeep : .cap_setgid ∉ keep)
    (target : PrivDropTarget) (ll : Option LandlockConfig) (p : Process) :
    ∃ msg, apply H ⟨keep, some target, ll⟩ p
      = .error (.privDrop msg) (drop_all_except keep H.caps_all p) := by
  have hno : .cap_setgid ∉ (drop_all_except keep H.caps_all p).effective := fun h =>
    hkeep (((drop_all_except_confined H keep p).effective _).mp h).2
  obtain ⟨msg, hmsg⟩ := drop_to_fails H target.user target.group hno
  refine ⟨msg, ?_⟩
  simp only [apply, bind, EStateM.bind, modify_run, hmsg]

/-- A sandbox that leaves the user alone drops capabilities and asks Landlock. -/
theorem apply_in_place {H : FwknoxSandbox.Host} {keep : List Capability}
    {ll : Option LandlockConfig} {p q : Process} :
    apply H ⟨keep, none, ll⟩ p = .ok () q
      ↔ (∀ policy, ll = some policy → H.landlock policy = .ok ())
        ∧ q = drop_all_except keep H.caps_all p := by
  simp only [apply, bind, EStateM.bind, modify_run, pure]
  cases ll with
  | none =>
      show EStateM.Result.ok () (drop_all_except keep H.caps_all p) = .ok () q ↔ _
      rw [EStateM.Result.ok.injEq, and_iff_right rfl]
      constructor
      · intro h
        exact ⟨fun _ h => (by cases h), h.symm⟩
      · intro h
        exact h.2.symm
  | some policy =>
      simp only [landlock_apply, Option.some.injEq, forall_eq']
      cases hll : H.landlock policy with
      | error e => exact iff_of_false (fun h => by cases h) (fun h => by cases h.1)
      | ok _ =>
          simp only [EStateM.Result.ok.injEq, true_and]
          exact eq_comm

section Boot

variable {M : Machine} {path : String}

/-- The policy of the daemon itself. -/
def daemon_policy (M : Machine) (config : BootConfig) : LandlockConfig :=
  ⟨[], [parent_or_current M config.replay.cache_path]⟩

/-- Root does not get through the daemon's sandbox. -/
theorem apply_sandbox_root (config : BootConfig) {p : Process} (hp : p.uid = 0) :
    ∃ msg q, apply_sandbox M config p = .error (.privDrop msg) q := by
  rw [apply_sandbox, if_pos hp]
  obtain ⟨msg, h⟩ := apply_fails M.host [.cap_net_admin] (by decide)
    ⟨config.run_user, config.run_group⟩ _ p
  exact ⟨msg, _, h⟩

/-- Anyone else does, if Landlock goes through. -/
theorem apply_sandbox_user {config : BootConfig} {p q : Process} (hp : p.uid ≠ 0) :
    apply_sandbox M config p = .ok () q
      ↔ (config.landlock_enabled = true → Landlocked M.landlock_kernel (daemon_policy M config))
        ∧ q = drop_all_except [.cap_net_admin] M.caps_all p := by
  rw [apply_sandbox, if_neg hp, apply_in_place, ← landlock_eq_ok]
  refine and_congr_left' ?_
  by_cases hll : config.landlock_enabled = true
  · rw [if_pos hll]
    constructor
    · intro h _
      exact h _ rfl
    · intro h policy hpolicy
      cases hpolicy
      exact h hll
  · rw [if_neg hll]
    exact iff_of_true (fun _ h => by cases h) (fun h => absurd h hll)

/-! ### Before and after the sandbox -/

/-- What has to go right besides the sandbox. -/
structure Ready (M : Machine) (path : String) (s : Served) : Prop where
  loaded : ∃ text, M.read path = .ok text ∧ M.toml text = .ok s.config
  valid : s.config.toDaemonConfig.validate = .ok ()
  backend : s.config.firewall_backend = .nftables
  bound : M.bind s.config.listen_addr s.config.listen_port = .ok ()
  cache : startup s.config.toDaemonConfig M.file M.read_error M.order = .ok s.cache
  cache_room : M.reserve .replay s.cache.cap = true
  limiter : RateLimiter.with_clock s.config.rate_limit M.now = some s.limiter
  limiter_room : s.config.rate_limit.enabled = true →
    M.reserve .tracked s.config.rate_limit.tracked_sources_capacity = true
      ∧ M.reserve .candidates s.config.rate_limit.tracked_sources_capacity = true
  mode : s.config.enable_privsep = true ∧ s.mode = .privsep
    ∨ s.config.enable_privsep = false ∧ s.mode = .single ∧ M.install_handlers = .ok ()

/-- Some table that the configuration asks for cannot be allocated. -/
def TooLarge (M : Machine) (config : BootConfig) : Prop :=
  (∃ cache, startup config.toDaemonConfig M.file M.read_error M.order = .ok cache
      ∧ M.reserve .replay cache.cap = false)
    ∨ config.rate_limit.enabled = true
      ∧ (M.reserve .tracked config.rate_limit.tracked_sources_capacity = false
        ∨ M.reserve .candidates config.rate_limit.tracked_sources_capacity = false)

/-- When a table is there. -/
theorem allocate_eq_ok {table : Table} {capacity : Nat} {u : Unit} :
    allocate M table capacity = .ok u ↔ M.reserve table capacity = true := by
  rw [allocate]
  split
  · next h => exact iff_of_true rfl h
  · next h => exact iff_of_false (fun hok => by cases hok) h

/-- An allocation fails in one way. -/
theorem allocate_eq_error {table : Table} {capacity : Nat} {e : MainError} :
    allocate M table capacity = .error e
      ↔ e = .panicked ∧ M.reserve table capacity = false := by
  rw [allocate]
  split
  · next h => exact iff_of_false (fun he => by cases he) (fun he => by simp [h] at he)
  · next h =>
    rw [Except.error.injEq, and_iff_left (Bool.eq_false_of_not_eq_true h)]
    exact eq_comm

/-- A sequence fails where its first part does, or its second. -/
theorem except_bind_eq_error {ε α β : Type} {x : Except ε α} {f : α → Except ε β} {e : ε} :
    (x >>= f) = .error e ↔ x = .error e ∨ ∃ a, x = .ok a ∧ f a = .error e := by
  cases x with
  | error e' =>
      constructor
      · intro h
        cases h
        exact .inl rfl
      · rintro (h | ⟨a, ha, _⟩)
        · cases h
          rfl
        · cases ha
  | ok a =>
      constructor
      · intro h
        exact .inr ⟨a, rfl, h⟩
      · rintro (h | ⟨a', ha, hf⟩)
        · cases h
        · cases ha
          exact hf

/-- When the part before the sandbox goes through. -/
theorem prepare_eq_ok {config : BootConfig} {cache : LruCache Nonce UInt64} :
    prepare M path = .ok (config, cache)
      ↔ (∃ text, M.read path = .ok text ∧ M.toml text = .ok config)
        ∧ config.toDaemonConfig.validate = .ok () ∧ config.firewall_backend = .nftables
        ∧ M.bind config.listen_addr config.listen_port = .ok ()
        ∧ startup config.toDaemonConfig M.file M.read_error M.order = .ok cache
        ∧ M.reserve .replay cache.cap = true := by
  simp only [prepare, except_bind_eq_ok, mapError_eq_ok, load_daemon_config, load_config_eq_ok,
    allocate_eq_ok]
  constructor
  · rintro ⟨c, ⟨htext, hval⟩, _, hb, _, hbind, k, hcache, _, hroom, h⟩
    cases h
    refine ⟨htext, hval, ?_, hbind, hcache, hroom⟩
    cases hfw : config.firewall_backend with
    | nftables => rfl
    | iptables =>
        rw [hfw] at hb
        cases hb
  · rintro ⟨htext, hval, hfw, hbind, hcache, hroom⟩
    refine ⟨config, ⟨htext, hval⟩, (), ?_, (), hbind, cache, hcache, (), hroom, rfl⟩
    rw [hfw, select_backend]

/-- Another error is not a panic, whatever it is made from. -/
theorem mapError_ne_panicked {ε α : Type} {f : ε → MainError} (hf : ∀ e, f e ≠ .panicked)
    (x : Except ε α) : x.mapError f ≠ .error .panicked := by
  cases x with
  | error e =>
      intro h
      exact hf e (Except.error.inj h)
  | ok a => exact fun h => by cases h

/-- Before the sandbox only the replay cache can panic. -/
theorem tooLarge_of_prepare (h : prepare M path = .error .panicked) :
    ∃ config, load_daemon_config M path = .ok config ∧ TooLarge M config := by
  rw [prepare] at h
  rcases except_bind_eq_error.mp h with h | ⟨config, hload, h⟩
  · exact absurd h (mapError_ne_panicked (fun _ => MainError.noConfusion) _)
  rcases except_bind_eq_error.mp h with h | ⟨_, _, h⟩
  · cases hfw : config.firewall_backend with
    | nftables =>
        rw [hfw] at h
        cases h
    | iptables =>
        rw [hfw] at h
        cases h
  rcases except_bind_eq_error.mp h with h | ⟨_, _, h⟩
  · exact absurd h (mapError_ne_panicked (fun _ => MainError.noConfusion) _)
  rcases except_bind_eq_error.mp h with h | ⟨cache, hcache, h⟩
  · exact absurd h (mapError_ne_panicked (fun _ => MainError.noConfusion) _)
  rcases except_bind_eq_error.mp h with h | ⟨_, _, h⟩
  · exact ⟨config, mapError_eq_ok.mp hload, .inl ⟨cache, mapError_eq_ok.mp hcache,
      (allocate_eq_error.mp h).2⟩⟩
  · cases h

/-- When the limiter's tables are there. -/
theorem limiter_tables_eq_ok {config : BootConfig} {u : Unit} :
    limiter_tables M config = .ok u
      ↔ (config.rate_limit.enabled = true →
        M.reserve .tracked config.rate_limit.tracked_sources_capacity = true
          ∧ M.reserve .candidates config.rate_limit.tracked_sources_capacity = true) := by
  rw [limiter_tables]
  by_cases hon : config.rate_limit.enabled = true
  · rw [if_pos hon, except_bind_eq_ok]
    simp only [allocate_eq_ok]
    constructor
    · rintro ⟨_, ht, hc⟩ _
      exact ⟨ht, hc⟩
    · intro h
      exact ⟨(), (h hon).1, (h hon).2⟩
  · rw [if_neg hon]
    exact iff_of_true rfl fun h => absurd h hon

/-- When the limiter is there. -/
theorem rate_limiter_eq_ok {config : BootConfig} {limiter : RateLimiter} :
    rate_limiter M config = .ok limiter
      ↔ RateLimiter.with_clock config.rate_limit M.now = some limiter
        ∧ (config.rate_limit.enabled = true →
          M.reserve .tracked config.rate_limit.tracked_sources_capacity = true
            ∧ M.reserve .candidates config.rate_limit.tracked_sources_capacity = true) := by
  rw [rate_limiter]
  cases RateLimiter.with_clock config.rate_limit M.now with
  | none => exact iff_of_false (fun h => by cases h) (fun h => by cases h.1)
  | some l =>
      simp only [except_bind_eq_ok, Option.some.injEq]
      constructor
      · rintro ⟨_, htables, h⟩
        cases h
        exact ⟨rfl, limiter_tables_eq_ok.mp htables⟩
      · rintro ⟨rfl, hroom⟩
        exact ⟨(), limiter_tables_eq_ok.mpr hroom, rfl⟩

/-- When the mode is chosen. -/
theorem choose_mode_eq_ok {config : BootConfig} {mode : Mode} :
    choose_mode M config = .ok mode
      ↔ config.enable_privsep = true ∧ mode = .privsep
        ∨ config.enable_privsep = false ∧ mode = .single ∧ M.install_handlers = .ok () := by
  rw [choose_mode]
  cases config.enable_privsep with
  | true =>
      rw [if_pos rfl, Except.ok.injEq]
      constructor
      · rintro rfl
        exact .inl ⟨rfl, rfl⟩
      · rintro (⟨_, rfl⟩ | ⟨h, _⟩)
        · rfl
        · cases h
  | false =>
      rw [if_neg Bool.false_ne_true]
      cases M.install_handlers with
      | error e =>
          refine iff_of_false (fun h => by cases h) ?_
          rintro (⟨h, _⟩ | ⟨_, _, h⟩)
          · cases h
          · cases h
      | ok _ =>
          constructor
          · intro h
            cases h
            exact .inr ⟨rfl, rfl, rfl⟩
          · rintro (⟨h, _⟩ | ⟨_, rfl, _⟩)
            · cases h
            · rfl

/-- When the part after the sandbox goes through. -/
theorem dispatch_eq_ok {config : BootConfig} {cache : LruCache Nonce UInt64} {s : Served} :
    dispatch M config cache = .ok s
      ↔ s.config = config ∧ s.cache = cache ∧ rate_limiter M config = .ok s.limiter
        ∧ choose_mode M config = .ok s.mode := by
  simp only [dispatch, except_bind_eq_ok]
  constructor
  · rintro ⟨limiter, hl, mode, hm, h⟩
    cases h
    exact ⟨rfl, rfl, hl, hm⟩
  · rintro ⟨rfl, rfl, hl, hm⟩
    exact ⟨_, hl, _, hm, rfl⟩

/-- The `expect` in the limiter's constructor does not panic. -/
theorem with_clock_ne_none {config : BootConfig} (hv : config.toDaemonConfig.validate = .ok ()) :
    RateLimiter.with_clock config.rate_limit M.now ≠ none := by
  rw [RateLimiter.with_clock]
  by_cases hoff : config.rate_limit.enabled = false
  · rw [if_pos hoff]
    exact Option.some_ne_none _
  · have hcap := ((validate_eq_ok_iff.mp hv).rate_limit (Bool.not_eq_false _ ▸ hoff)).capacity
    rw [if_neg hoff, dif_pos hcap]
    exact Option.some_ne_none _

/-- After the sandbox only the limiter's tables can panic. -/
theorem tooLarge_of_dispatch {config : BootConfig} {cache : LruCache Nonce UInt64}
    (hv : config.toDaemonConfig.validate = .ok ())
    (h : dispatch M config cache = .error .panicked) : TooLarge M config := by
  rw [dispatch] at h
  rcases except_bind_eq_error.mp h with h | ⟨_, _, h⟩
  · obtain ⟨l, hl⟩ := Option.ne_none_iff_exists'.mp (with_clock_ne_none (M := M) hv)
    simp only [rate_limiter, hl] at h
    rcases except_bind_eq_error.mp h with h | ⟨_, _, h⟩
    · rw [limiter_tables] at h
      split at h
      · next hon =>
        rcases except_bind_eq_error.mp h with h | ⟨_, _, h⟩
        · exact .inr ⟨hon, .inl (allocate_eq_error.mp h).2⟩
        · exact .inr ⟨hon, .inr (allocate_eq_error.mp h).2⟩
      · cases h
    · cases h
  rcases except_bind_eq_error.mp h with h | ⟨_, _, h⟩
  · rw [choose_mode] at h
    split at h
    · cases h
    · split at h
      · cases h
      · cases h
  · cases h

/-! ## Who serves -/

/-- What the sandbox asks of the process and makes of it. -/
def Sheltered (M : Machine) (config : BootConfig) (p q : Process) : Prop :=
  if config.enable_sandbox then
    p.uid ≠ 0
      ∧ (config.landlock_enabled = true → Landlocked M.landlock_kernel (daemon_policy M config))
      ∧ q = drop_all_except [.cap_net_admin] M.caps_all p
  else q = p

/-- When the sandbox step goes through. -/
theorem shelter_eq_ok {config : BootConfig} {p q : Process} :
    (if config.enable_sandbox then apply_sandbox M config p else .ok () p) = .ok () q
      ↔ Sheltered M config p q := by
  rw [Sheltered]
  by_cases hbox : config.enable_sandbox = true
  · rw [if_pos hbox, if_pos hbox]
    by_cases hroot : p.uid = 0
    · obtain ⟨msg, q', h⟩ := apply_sandbox_root (M := M) config hroot
      rw [h]
      exact iff_of_false (fun h => by cases h) (fun h => h.1 hroot)
    · rw [apply_sandbox_user hroot]
      exact (and_iff_right hroot).symm
  · rw [if_neg hbox, if_neg hbox, EStateM.Result.ok.injEq, and_iff_right rfl]
    exact eq_comm

/-- The three parts, each with its own outcome. -/
theorem real_main_eq_ok {p q : Process} {s : Served} :
    real_main M path p = .ok s q
      ↔ prepare M path = .ok (s.config, s.cache) ∧ Sheltered M s.config p q
        ∧ dispatch M s.config s.cache = .ok s := by
  rw [real_main]
  cases hprep : prepare M path with
  | error e => exact iff_of_false (fun h => by cases h) (fun h => by cases h.1)
  | ok r =>
      obtain ⟨config, cache⟩ := r
      dsimp only
      cases hbox : (if config.enable_sandbox then apply_sandbox M config p else .ok () p) with
      | error e p' =>
          refine iff_of_false (fun h => by cases h) ?_
          rintro ⟨h, hsh, _⟩
          cases h
          cases hbox.symm.trans (shelter_eq_ok.mpr hsh)
      | ok _ p' =>
          dsimp only
          cases hdis : dispatch M config cache with
          | error e =>
              refine iff_of_false (fun h => by cases h) ?_
              rintro ⟨h, _, hd⟩
              cases h
              cases hdis.symm.trans hd
          | ok s' =>
              -- what is dispatched carries the configuration and the cache it was prepared with
              have hs' := dispatch_eq_ok.mp hdis
              constructor
              · intro h
                cases h
                rw [hs'.1, hs'.2.1]
                exact ⟨rfl, shelter_eq_ok.mp hbox, hdis⟩
              · rintro ⟨h, hsh, hd⟩
                cases h
                cases hdis.symm.trans hd
                cases hbox.symm.trans (shelter_eq_ok.mpr hsh)
                rfl

/-- A run loop is reached by a machine that is ready and a process that gets through the
    sandbox. -/
theorem serves_iff_ready (M : Machine) (path : String) (p : Process) (s : Served) (q : Process) :
    real_main M path p = .ok s q ↔ Ready M path s ∧ Sheltered M s.config p q := by
  rw [real_main_eq_ok, prepare_eq_ok, dispatch_eq_ok, rate_limiter_eq_ok, choose_mode_eq_ok]
  constructor
  · rintro ⟨⟨htext, hval, hfw, hbind, hcache, hroom⟩, hsh, _, _, ⟨hl, hlroom⟩, hmode⟩
    exact ⟨⟨htext, hval, hfw, hbind, hcache, hroom, hl, hlroom, hmode⟩, hsh⟩
  · rintro ⟨h, hsh⟩
    exact ⟨⟨h.loaded, h.valid, h.backend, h.bound, h.cache, h.cache_room⟩, hsh, rfl, rfl,
      ⟨h.limiter, h.limiter_room⟩, h.mode⟩

/-- **WHEN THE DAEMON SERVES**: a run loop is reached if and only if the file is read, parsed and
    accepted, the backend is nftables, the socket and the replay cache come up, the tables of
    cache and limiter can be allocated, the handlers are installed where they are needed, and
    the sandbox is off or the user is not root and Landlock does what is asked of it.  A panic
    on the way is a table that cannot be allocated: an accepted configuration never trips the
    limiter's `expect`. -/
theorem serves_iff (M : Machine) (path : String) (p : Process) :
    (∀ s q, real_main M path p = .ok s q ↔ Ready M path s ∧ Sheltered M s.config p q)
      ∧ ∀ q, real_main M path p = .error .panicked q →
        ∃ config, load_daemon_config M path = .ok config ∧ TooLarge M config := by
  refine ⟨serves_iff_ready M path p, ?_⟩
  · intro q h
    rw [real_main] at h
    cases hprep : prepare M path with
    | error e =>
        rw [hprep] at h
        cases h
        exact tooLarge_of_prepare hprep
    | ok r =>
        obtain ⟨config, cache⟩ := r
        rw [hprep] at h
        dsimp only at h
        obtain ⟨htext, hval, _⟩ := prepare_eq_ok.mp hprep
        refine ⟨config, load_config_eq_ok.mpr ⟨htext, hval⟩, ?_⟩
        cases hbox : (if config.enable_sandbox then apply_sandbox M config p else .ok () p) with
        | error e p' =>
            rw [hbox] at h
            cases h
        | ok _ p' =>
            rw [hbox] at h
            dsimp only at h
            cases hdis : dispatch M config cache with
            | ok s =>
                rw [hdis] at h
                cases h
            | error e =>
                rw [hdis] at h
                cases h
                exact tooLarge_of_dispatch hval hdis

/-- **A SANDBOXED DAEMON**: started by root it never serves, whatever capabilities it was given
    and whatever user it is to become: once the socket and the cache are up, the change of user
    fails.  Started by anyone else it serves as that user, with no capability but
    `CAP_NET_ADMIN` in any set it can use; and the `nft` it runs may change the firewall if and
    only if that one was ambient from the start. -/
theorem sandboxed_boot (M : Machine) (path : String) (p : Process) :
    (p.uid = 0 →
        (∀ s q, real_main M path p = .ok s q → s.config.enable_sandbox = false)
          ∧ ∀ config cache, prepare M path = .ok (config, cache) → config.enable_sandbox = true →
            ∃ msg q, real_main M path p = .error (.sandbox (.privDrop msg)) q)
      ∧ (p.uid ≠ 0 → ∀ s, Ready M path s → s.config.enable_sandbox = true →
        (s.config.landlock_enabled = true →
          Landlocked M.landlock_kernel (daemon_policy M s.config)) →
        ∃ q, real_main M path p = .ok s q ∧ Confined [.cap_net_admin] p q
          ∧ (.cap_net_admin ∈ q.execve.effective ↔ .cap_net_admin ∈ p.ambient)) := by
  constructor
  · intro hroot
    constructor
    · intro s q hserves
      obtain ⟨_, hsh, _⟩ := real_main_eq_ok.mp hserves
      rw [Sheltered] at hsh
      split at hsh
      · exact absurd hroot hsh.1
      · next hoff => exact Bool.eq_false_of_not_eq_true hoff
    · intro config cache hprep hbox
      obtain ⟨msg, q, h⟩ := apply_sandbox_root (M := M) config hroot
      refine ⟨msg, q, ?_⟩
      rw [real_main, hprep]
      dsimp only
      rw [if_pos hbox, h]
  · intro huser s hready hbox hland
    have hconf := drop_all_except_confined M.host [.cap_net_admin] p
    refine ⟨drop_all_except [.cap_net_admin] M.caps_all p, ?_, hconf, ?_⟩
    · refine ((serves_iff_ready M path p s _).mpr ⟨hready, ?_⟩)
      rw [Sheltered, if_pos hbox]
      exact ⟨huser, hland, rfl⟩
    · -- not root, so `execve` leaves the ambient set and nothing else
      have hexec : (drop_all_except [.cap_net_admin] M.caps_all p).execve.effective
          = (drop_all_except [.cap_net_admin] M.caps_all p).ambient :=
        if_neg (hconf.uid ▸ huser)
      rw [hexec]
      exact (hconf.ambient _).trans (and_iff_left List.mem_cons_self)

/-- The default configuration on a machine where everything goes right. -/
def sampleBoot : BootConfig :=
  { toDaemonConfig := sampleConfig, listen_addr := .v4 (Vector.replicate 4 0) }

/-- The machine it is started on. -/
def sampleMachine : Machine where
  read _ := .ok ""
  toml _ := .ok sampleBoot
  bind _ _ := .ok ()
  file := none
  read_error := none
  order := id
  reserve _ capacity := capacity ≤ 1000000
  caps_all := caps_in_order
  caps_all_mem := caps_in_order_mem
  user _ := .ok (some 998)
  group _ := .ok (some 998)
  parent _ := some "/var/lib/fwknox"
  landlock_kernel := ⟨.ok (), .ok (), fun _ => .ok (), fun _ => .ok (), .ok .fullyEnforced⟩
  now := 0
  install_handlers := .ok ()

/-- What its run loop is called with. -/
def sampleServed : Served where
  config := sampleBoot
  cache := LruCache.new 10000 (by decide)
  limiter := sampleLimiter
  mode := .privsep

/-- An unprivileged process that was given `CAP_NET_ADMIN` for itself and its children. -/
def grantedProcess : Process where
  uid := 998
  gid := 998
  groups := []
  keepcaps := false
  effective := {.cap_net_admin}
  permitted := {.cap_net_admin}
  inheritable := {.cap_net_admin}
  ambient := {.cap_net_admin}
  bounding := {.cap_net_admin}
  effective_subset := Finset.Subset.refl _
  ambient_subset := Finset.subset_inter (Finset.Subset.refl _) (Finset.Subset.refl _)

/-- Nothing is missing there. -/
theorem sampleServed_ready : Ready sampleMachine "/etc/fwknox/fwknoxd.toml" sampleServed where
  loaded := ⟨"", rfl, rfl⟩
  valid := sampleConfig_validate
  backend := rfl
  bound := rfl
  cache := rfl
  cache_room := rfl
  limiter := rfl
  limiter_room := fun _ => ⟨rfl, rfl⟩
  mode := .inl ⟨rfl, rfl⟩

/-- Root fails there, and the unprivileged process serves and can run `nft`. -/
theorem sample_boots :
    (∃ msg q, real_main sampleMachine "/etc/fwknox/fwknoxd.toml" rootProcess
        = .error (.sandbox (.privDrop msg)) q)
      ∧ ∃ q, real_main sampleMachine "/etc/fwknox/fwknoxd.toml" grantedProcess = .ok sampleServed q
        ∧ .cap_net_admin ∈ q.execve.effective := by
  refine ⟨((sandboxed_boot sampleMachine _ rootProcess).1 rfl).2 sampleBoot sampleServed.cache
    rfl rfl, ?_⟩
  obtain ⟨q, hrun, _, hnft⟩ := (sandboxed_boot sampleMachine _ grantedProcess).2 (by decide)
    sampleServed sampleServed_ready rfl (fun h => by cases h)
  exact ⟨q, hrun, hnft.mpr (Finset.mem_singleton_self _)⟩

end Boot

end FwknoxBoot
