import Mathlib.Data.List.Nodup
import Fwknox.ClockProofs

/-! # The daemon configuration — what `validate` accepts

    `daemon.rs` and the parts of `shared.rs` it uses, after deserialization.  The
    checks keep their order and their messages.  Callers never unfold `validate`:
    `validate_eq_ok_iff` states all of it at once as the structure `Valid`. -/

namespace FwknoxConfig

open FwknoxTypes FwknoxClock

/-! ## Sources -/

/-- `ipnet::IpNet`: an address and a prefix length. -/
structure IpNet where
  addr : IpAddr
  prefix_len : UInt8
  deriving DecidableEq

/-- Whom a stanza is for. -/
inductive SourceSpec where
  | any
  | cidr (net : IpNet)
  | single (addr : IpAddr)
  deriving DecidableEq

/-- `matches`; `net_contains` is the membership test of the `ipnet` crate. -/
def SourceSpec.matches (net_contains : IpNet → IpAddr → Bool) : SourceSpec → IpAddr → Bool
  | .any, _ => true
  | .cidr net, ip => net_contains net ip
  | .single addr, ip => addr == ip

/-! ## Sections and stanzas -/

/-- A stanza's key, decoded. -/
abbrev Base64Key := Vector UInt8 32

/-- The key somebody forgot to fill in. -/
def Base64Key.is_all_zero (k : Base64Key) : Bool := k.toList.all (fun b => b == 0)

/-- One `[[access]]` table.  NAT, commands and expiry are there to be refused by `validate`. -/
structure AccessStanza where
  name : String
  source : List SourceSpec
  open_ports : List PortProto
  master_key : Base64Key
  fw_timeout : Option Duration := none
  max_fw_timeout : Option Duration := none
  require_source_match : Bool := true
  require_username : Option String := none
  enable_nat : Bool := false
  nat_destination : Option String := none
  enable_cmd_exec : Bool := false
  expiration_date : Option String := none
  deriving DecidableEq

/-- The timeouts of the `[daemon]` table. -/
structure DaemonSection where
  max_spa_packet_age : Duration := .from_secs 120
  default_fw_timeout : Duration := .from_secs 30
  max_fw_timeout : Duration := .from_secs 300
  deriving DecidableEq

/-- The `[replay]` table. -/
structure ReplaySection where
  cache_path : String := "/var/lib/fwknox/replay.cache"
  max_age : Duration := .from_secs 86400
  max_entries : Nat := 10000
  deriving DecidableEq

/-- The `[rate_limit]` table, with the defaults of the source. -/
structure RateLimitSection where
  enabled : Bool := true
  per_source_rate_per_sec : UInt64 := 10
  per_source_burst : UInt64 := 20
  tracked_sources_capacity : Nat := 1024
  global_rate_per_sec : UInt64 := 500
  global_burst : UInt64 := 1000
  promotion_threshold : UInt32 := 5
  ipv6_prefix_len : UInt8 := 64
  deriving DecidableEq

/-- The tables validation reads. -/
structure DaemonConfig where
  daemon : DaemonSection := {}
  replay : ReplaySection := {}
  rate_limit : RateLimitSection := {}
  access : List AccessStanza := []
  deriving DecidableEq

/-! ## `validate` -/

/-- What `validate` answers a bad configuration with. -/
inductive ConfigError where
  | invalid (msg : String)
  deriving DecidableEq

/-- One check and its message. -/
def check (c : Prop) [Decidable c] (msg : String) : Except ConfigError Unit :=
  if c then .ok () else .error (.invalid msg)

/-- One character of a string's `Debug` form: exact on ASCII, and every other
    character counts as printable.  The standard library escapes some of those too. -/
def escape_debug (c : Char) : String :=
  if c = '\x00' then "\\0"
  else if c = '\t' then "\\t"
  else if c = '\r' then "\\r"
  else if c = '\n' then "\\n"
  else if c = '"' then "\\\""
  else if c = '\\' then "\\\\"
  else if c.toNat < 0x20 ∨ c.toNat = 0x7f then "\\u\x7b" ++ hex c.toNat ++ "\x7d"
  else String.singleton c

/-- The `Debug` form of a string. -/
def debug_str (s : String) : String :=
  "\"" ++ String.join (s.toList.map escape_debug) ++ "\""

/-- A field that parses but that nothing implements yet. -/
def not_yet_implemented (name field : String) : String :=
  "access stanza " ++ debug_str name ++ " sets " ++ field ++
    ", which is not yet implemented — remove the field or wait for a future release"

/-- The body of the stanza loop; `seen` are the names before this one. -/
def validate_stanza (seen : List String) (s : AccessStanza) : Except ConfigError Unit := do
  check (s.name ∉ seen) ("duplicate access stanza name: " ++ s.name)
  check (s.open_ports ≠ []) ("access stanza " ++ s.name ++ " has empty open_ports")
  check (¬(s.enable_nat = true ∧ s.nat_destination = none))
    ("access stanza " ++ s.name ++ " has enable_nat=true but no nat_destination")
  check (s.master_key.is_all_zero = false)
    ("access stanza " ++ debug_str s.name ++ " uses the all-zero example placeholder key; "
      ++ "generate a real one with `head -c 32 /dev/urandom | base64`")
  check (s.expiration_date = none) (not_yet_implemented s.name "expiration_date")
  check (s.enable_nat = false) (not_yet_implemented s.name "enable_nat")
  check (s.enable_cmd_exec = false) (not_yet_implemented s.name "enable_cmd_exec")

/-- The stanzas in order, each against the names before it. -/
def validate_stanzas : List String → List AccessStanza → Except ConfigError Unit
  | _, [] => pure ()
  | seen, s :: rest => do
      validate_stanza seen s
      validate_stanzas (s.name :: seen) rest

/-- Seven days. -/
def MAX_DURATION : Duration := .from_secs (86400 * 7)

/-- Not zero and not over a week; the message names the field. -/
def validate_duration (name : String) (d : Duration) : Except ConfigError Unit := do
  check (d.is_zero = false) (name ++ " must be > 0")
  check (¬MAX_DURATION < d) (name ++ " must be <= 7 days")

/-- The daemon-wide durations, in the source's order.  Those of the stanzas are not looked at. -/
def DaemonConfig.validate_durations (c : DaemonConfig) : Except ConfigError Unit := do
  validate_duration "daemon.default_fw_timeout" c.daemon.default_fw_timeout
  validate_duration "daemon.max_fw_timeout" c.daemon.max_fw_timeout
  validate_duration "daemon.max_spa_packet_age" c.daemon.max_spa_packet_age
  validate_duration "replay.max_age" c.replay.max_age

/-- `Path::is_absolute` on Unix. -/
def is_absolute (path : String) : Bool := path.toList.head? == some '/'

/-- Whether one of `Path::components` is `..`. -/
def has_parent_dir (path : String) : Bool :=
  (path.toList.splitOn '/').any (fun comp => comp == ['.', '.'])

/-- Absolute, and without a way up. -/
def DaemonConfig.validate_replay_cache_path (c : DaemonConfig) : Except ConfigError Unit := do
  check (is_absolute c.replay.cache_path = true) "replay.cache_path must be absolute"
  check (has_parent_dir c.replay.cache_path = false) "replay.cache_path must not contain '..'"

/-- The checks of an enabled rate limiter. -/
def RateLimitSection.validate (r : RateLimitSection) : Except ConfigError Unit := do
  check (¬r.per_source_rate_per_sec < 1)
    "per_source_rate_per_sec must be >= 1 when rate limiting is enabled"
  check (¬r.global_rate_per_sec < 1)
    "global_rate_per_sec must be >= 1 when rate limiting is enabled"
  check (¬r.per_source_burst < r.per_source_rate_per_sec)
    "per_source_burst must be >= per_source_rate_per_sec"
  check (¬r.global_burst < r.global_rate_per_sec) "global_burst must be >= global_rate_per_sec"
  check (r.tracked_sources_capacity ≠ 0) "tracked_sources_capacity must be >= 1"
  check (r.promotion_threshold ≠ 0) "promotion_threshold must be >= 1"
  check (1 ≤ r.ipv6_prefix_len ∧ r.ipv6_prefix_len ≤ 128) "ipv6_prefix_len must be in 1..=128"

/-- All checks in the source's order: the first to fail is the error. -/
def DaemonConfig.validate (c : DaemonConfig) : Except ConfigError Unit := do
  check (c.access ≠ []) "at least one [[access]] stanza is required"
  validate_stanzas [] c.access
  c.validate_durations
  check (¬c.daemon.max_fw_timeout < c.daemon.default_fw_timeout)
    "default_fw_timeout must be <= max_fw_timeout"
  c.validate_replay_cache_path
  if c.rate_limit.enabled then c.rate_limit.validate else pure ()

/-! ## What it accepts -/

/-- A stanza that passes every check of its own. -/
structure ValidStanza (s : AccessStanza) : Prop where
  open_ports : s.open_ports ≠ []
  key : s.master_key.is_all_zero = false
  no_expiration : s.expiration_date = none
  no_nat : s.enable_nat = false
  no_cmd : s.enable_cmd_exec = false

/-- A duration between one nanosecond and seven days. -/
def ValidDuration (d : Duration) : Prop := d.is_zero = false ∧ d ≤ MAX_DURATION

/-- The two bounds can be evaluated. -/
instance (d : Duration) : Decidable (ValidDuration d) := inferInstanceAs (Decidable (_ ∧ _))

/-- What an enabled rate limiter must satisfy. -/
structure ValidRateLimit (r : RateLimitSection) : Prop where
  per_source_rate : 1 ≤ r.per_source_rate_per_sec
  global_rate : 1 ≤ r.global_rate_per_sec
  per_source_burst : r.per_source_rate_per_sec ≤ r.per_source_burst
  global_burst : r.global_rate_per_sec ≤ r.global_burst
  capacity : 0 < r.tracked_sources_capacity
  threshold : r.promotion_threshold ≠ 0
  prefix_len : 1 ≤ r.ipv6_prefix_len ∧ r.ipv6_prefix_len ≤ 128

/-- Everything `validate` guarantees. -/
structure Valid (c : DaemonConfig) : Prop where
  nonempty : c.access ≠ []
  names : (c.access.map (·.name)).Nodup
  stanzas : ∀ s ∈ c.access, ValidStanza s
  default_fw_timeout : ValidDuration c.daemon.default_fw_timeout
  max_fw_timeout : ValidDuration c.daemon.max_fw_timeout
  max_spa_packet_age : ValidDuration c.daemon.max_spa_packet_age
  max_age : ValidDuration c.replay.max_age
  default_le_max : c.daemon.default_fw_timeout ≤ c.daemon.max_fw_timeout
  absolute : is_absolute c.replay.cache_path = true
  no_parent : has_parent_dir c.replay.cache_path = false
  rate_limit : c.rate_limit.enabled = true → ValidRateLimit c.rate_limit

/-- A check passes exactly when its condition holds. -/
theorem check_eq_ok {c : Prop} [Decidable c] {msg : String} : check c msg = .ok () ↔ c := by
  unfold check
  by_cases h : c <;> simp [h]

/-- Two validations in sequence pass when both pass. -/
theorem seq_eq_ok {x y : Except ConfigError Unit} :
    (do x; y) = .ok () ↔ x = .ok () ∧ y = .ok () := by
  cases x with
  | ok u =>
      constructor
      · intro h
        exact ⟨rfl, h⟩
      · rintro ⟨_, h⟩
        exact h
  | error e =>
      constructor
      · intro h
        exact nomatch h
      · rintro ⟨h, _⟩
        exact nomatch h

/-! ### Entries with names -/

section Named

variable {α : Type} {name : α → String}

/-- A loop that checks each entry against the names before it passes exactly when the names
    are new and distinct and every entry is valid by itself. -/
theorem named_loop_eq_ok (loop : List String → List α → Except ConfigError Unit)
    (entry : List String → α → Except ConfigError Unit) (ValidEntry : α → Prop)
    (hnil : ∀ seen, loop seen [] = .ok ())
    (hcons : ∀ seen a rest, loop seen (a :: rest) = (do entry seen a; loop (name a :: seen) rest))
    (hentry : ∀ seen a, entry seen a = .ok () ↔ name a ∉ seen ∧ ValidEntry a)
    {seen : List String} {l : List α} :
    loop seen l = .ok ()
      ↔ (l.map name).Nodup ∧ (∀ a ∈ l, name a ∉ seen) ∧ ∀ a ∈ l, ValidEntry a := by
  induction l generalizing seen with
  | nil => simp [hnil]
  | cons a rest ih =>
      rw [hcons, seq_eq_ok, hentry, ih, List.map_cons, List.nodup_cons]
      simp only [List.mem_map, List.mem_cons, not_exists, not_and, forall_eq_or_imp, not_or]
      constructor
      · rintro ⟨⟨hn, hv⟩, hnd, hseen, hall⟩
        exact ⟨⟨fun t ht => (hseen t ht).1, hnd⟩, ⟨hn, fun t ht => (hseen t ht).2⟩, hv, hall⟩
      · rintro ⟨⟨hne, hnd⟩, ⟨hn, hseen⟩, hv, hall⟩
        exact ⟨⟨hn, hv⟩, hnd, fun t ht => ⟨hne t ht, hseen t ht⟩, hall⟩

/-- Among distinct names, a name finds its entry and no other. -/
theorem find_by_name_iff {l : List α} (hnd : (l.map name).Nodup) {n : String} {a : α} :
    l.find? (fun b => name b == n) = some a ↔ a ∈ l ∧ name a = n := by
  constructor
  · intro h
    have hname := List.find?_some h
    exact ⟨List.mem_of_find?_eq_some h, beq_iff_eq.mp hname⟩
  · rintro ⟨ha, rfl⟩
    cases hf : l.find? (fun b => name b == name a) with
    | none => exact absurd (beq_self_eq_true (name a)) (List.find?_eq_none.mp hf a ha)
    | some b =>
        -- two entries of one name are the same entry
        have hname := List.find?_some hf
        rw [List.inj_on_of_nodup_map hnd (List.mem_of_find?_eq_some hf) ha (beq_iff_eq.mp hname)]

end Named

/-! ### The checks -/

/-- A stanza passes exactly when its name is new and its fields are valid. -/
theorem validate_stanza_eq_ok {seen : List String} {s : AccessStanza} :
    validate_stanza seen s = .ok () ↔ s.name ∉ seen ∧ ValidStanza s := by
  unfold validate_stanza
  simp only [seq_eq_ok, check_eq_ok]
  constructor
  · rintro ⟨hn, hp, _, hk, he, hnat, hc⟩
    exact ⟨hn, hp, hk, he, hnat, hc⟩
  · rintro ⟨hn, hp, hk, he, hnat, hc⟩
    exact ⟨hn, hp, fun h => absurd h.1 (by simp [hnat]), hk, he, hnat, hc⟩

/-- The loop rejects repeated names; `seen` is what it carries along. -/
theorem validate_stanzas_eq_ok {seen : List String} {l : List AccessStanza} :
    validate_stanzas seen l = .ok ()
      ↔ (l.map (·.name)).Nodup ∧ (∀ s ∈ l, s.name ∉ seen) ∧ ∀ s ∈ l, ValidStanza s :=
  named_loop_eq_ok validate_stanzas validate_stanza ValidStanza (fun _ => rfl)
    (fun _ _ _ => rfl) (fun _ _ => validate_stanza_eq_ok)

/-- A duration passes exactly within the bounds, under any name. -/
theorem validate_duration_eq_ok {name : String} {d : Duration} :
    validate_duration name d = .ok () ↔ ValidDuration d := by
  unfold validate_duration
  rw [seq_eq_ok, check_eq_ok, check_eq_ok]
  exact Iff.rfl

/-- The limiter's checks, read as one statement. -/
theorem rate_limit_validate_eq_ok {r : RateLimitSection} :
    r.validate = .ok () ↔ ValidRateLimit r := by
  unfold RateLimitSection.validate
  simp only [seq_eq_ok, check_eq_ok, UInt64.not_lt]
  constructor
  · rintro ⟨h1, h2, h3, h4, h5, h6, h7⟩
    exact ⟨h1, h2, h3, h4, Nat.pos_of_ne_zero h5, h6, h7⟩
  · rintro ⟨h1, h2, h3, h4, h5, h6, h7⟩
    exact ⟨h1, h2, h3, h4, Nat.ne_of_gt h5, h6, h7⟩

/-- **ACCEPTED CONFIGURATIONS**: `validate` accepts exactly the valid ones. -/
theorem validate_eq_ok_iff {c : DaemonConfig} : c.validate = .ok () ↔ Valid c := by
  unfold DaemonConfig.validate DaemonConfig.validate_durations
    DaemonConfig.validate_replay_cache_path
  simp only [seq_eq_ok, check_eq_ok, validate_stanzas_eq_ok, validate_duration_eq_ok]
  have hrate : (if c.rate_limit.enabled = true then c.rate_limit.validate else pure ()) = .ok ()
      ↔ (c.rate_limit.enabled = true → ValidRateLimit c.rate_limit) := by
    by_cases h : c.rate_limit.enabled = true
    · simp [h, rate_limit_validate_eq_ok]
    · simp [h, pure, Except.pure]
  constructor
  · rintro ⟨hne, ⟨hnd, _, hst⟩, ⟨hd, hm, ha, hr⟩, hle, ⟨habs, hpar⟩, hrl⟩
    exact ⟨hne, hnd, hst, hd, hm, ha, hr, hle, habs, hpar, hrate.mp hrl⟩
  · rintro ⟨hne, hnd, hst, hd, hm, ha, hr, hle, habs, hpar, hrl⟩
    exact ⟨hne, ⟨hnd, (fun _ _ => List.not_mem_nil), hst⟩, ⟨hd, hm, ha, hr⟩, hle, ⟨habs, hpar⟩,
      hrate.mpr hrl⟩

/-- Every default passes its check: valid stanzas are all a config has to add. -/
theorem default_valid {access : List AccessStanza} (hne : access ≠ [])
    (hnames : (access.map (·.name)).Nodup) (hst : ∀ s ∈ access, ValidStanza s) :
    DaemonConfig.validate { access } = .ok () := by
  have hthirty : ValidDuration (.from_secs 30) := by decide
  have hfive : ValidDuration (.from_secs 300) := by decide
  have htwo : ValidDuration (.from_secs 120) := by decide
  have hday : ValidDuration (.from_secs 86400) := by decide
  have hle : Duration.from_secs 30 ≤ .from_secs 300 := by decide
  have hpath : is_absolute ({} : ReplaySection).cache_path = true
      ∧ has_parent_dir ({} : ReplaySection).cache_path = false := by decide +kernel
  have hrate : ValidRateLimit {} :=
    ⟨by decide, by decide, by decide, by decide, by decide, by decide, by decide⟩
  exact validate_eq_ok_iff.mpr
    ⟨hne, hnames, hst, hthirty, hfive, htwo, hday, hle, hpath.1, hpath.2, fun _ => hrate⟩

/-- The stanza of the test configurations: `tcp/22` for anyone with the key. -/
def sampleStanza : AccessStanza where
  name := "ssh"
  source := [.any]
  open_ports := [⟨.tcp, 22⟩]
  master_key := Vector.replicate 32 0x42

/-- Defaults, and the sample stanza. -/
def sampleConfig : DaemonConfig := { access := [sampleStanza] }

/-- The sample stanza is valid. -/
theorem sampleStanza_valid : ValidStanza sampleStanza :=
  ⟨by decide, by decide, rfl, rfl, rfl⟩

/-- So is the configuration made of it. -/
theorem sampleConfig_validate : sampleConfig.validate = .ok () := by
  refine default_valid (List.cons_ne_nil _ _) (by decide) ?_
  intro s hs
  rw [List.mem_singleton.mp hs]
  exact sampleStanza_valid

end FwknoxConfig
