import Fwknox.BuildProofs
import Fwknox.ConsumptionProofs
import Fwknox.SharedProofs

/-! # The client — from the command line to an open port

    `packet.rs`, `keygen.rs`, `send.rs` and `main` of the client, and `client.rs` of the
    configuration crate.  What the operating system and the TOML parser answer is `System`;
    the packet itself is built by `build_packet`.

    * `access_text` : which lists of ports the command line reads.
    * `key_text` : a key's text is read as that key, in the files and on the command line.
    * `request_granted_iff` : exactly when the daemon opens what the client asked for.
    * `auto_opens_loopback` : what the default source address comes to. -/

namespace FwknoxClient

open FwknoxTypes FwknoxClock FwknoxConfig FwknoxPacket FwknoxMatcher FwknoxWorld FwknoxPipeline
open FwknoxAuthorization FwknoxCompleteness FwknoxConsumption FwknoxBuild FwknoxAddr FwknoxShared
open FwknoxReplay PlainText CheckedSlice CheckedSlice.Outcome EffectProg EffectProg.Prog

/-! ## The configuration file -/

/-- One `[[servers]]` table. -/
structure ServerEntry where
  name : String
  destination : String
  port : UInt16 := 62201
  access : List PortProto
  master_key_base64 : Base64Key
  fw_timeout : Option Duration := none
  source_ip : String := "auto"
  deriving DecidableEq

/-- The `[defaults]` section is read by nothing. -/
structure ClientConfig where
  servers : List ServerEntry := []
  deriving DecidableEq

/-- The body of the loop over the servers; `seen` are the names before this one. -/
def validate_server (seen : List String) (s : ServerEntry) : Except ConfigError Unit := do
  check (s.name ∉ seen) ("duplicate server name: " ++ s.name)
  check (s.access ≠ []) ("server " ++ s.name ++ " has empty access list")
  check (trim s.destination.toList ≠ []) ("server " ++ s.name ++ ": destination is empty")
  check (s.port ≠ 0) ("server " ++ s.name ++ ": port is 0")

/-- The servers in order, each against the names before it. -/
def validate_servers : List String → List ServerEntry → Except ConfigError Unit
  | _, [] => pure ()
  | seen, s :: rest => do
      validate_server seen s
      validate_servers (s.name :: seen) rest

/-- `ClientConfig::validate`. -/
def ClientConfig.validate (c : ClientConfig) : Except ConfigError Unit :=
  validate_servers [] c.servers

/-- The first entry of that name. -/
def ClientConfig.find_server (c : ClientConfig) (name : String) : Option ServerEntry :=
  c.servers.find? (fun s => s.name == name)

/-! ## The command line -/

/-- The options as the parser of the command line hands them over. -/
structure Cli where
  name : Option String := none
  destination : Option String := none
  port : Option UInt16 := none
  access : Option String := none
  source_ip : Option String := none
  username : Option String := none
  timeout : Option UInt64 := none
  master_key_base64 : Option String := none
  config : Option String := none
  test : Bool := false
  generate_key : Bool := false

/-- `ClientError`, with the underlying errors inside. -/
inductive ClientError where
  | config (e : LoadError)
  | proto (e : ProtoError)
  | io (reason : String)
  | missingArgument (what : String)
  | invalidArgument (field reason : String)
  | unknownServer (name : String)
  deriving DecidableEq

/-- What the client asks of its surroundings. -/
structure System where
  /-- `$USER` and `$HOME`. -/
  user : Option String
  home : Option String
  clock : SystemTime
  /-- What the random source gave for the payload's nonce, the cipher's and a new key. -/
  nonce : Option Nonce
  gcm_nonce : Option GcmNonce
  key : Option Base64Key
  read : String → Except String String
  toml : String → Except String ClientConfig
  base64 : Base64
  bind : Except String Unit
  resolve : String → UInt16 → Except String (List SocketAddr)
  send : SocketAddr → Bytes → Except String Unit

variable (sys : System) (cli : Cli) (server : Option ServerEntry)

/-! ### Resolution of a request -/

/-- The text behind `-k`. -/
def decode_master_key (b64 : String) : Outcome ClientError Base64Key :=
  match sys.base64.decode b64 with
  | .error e => .err (.invalidArgument "master-key-base64" e)
  | .ok bytes =>
      match key_of_bytes bytes with
      | none =>
          .err (.invalidArgument "master-key-base64"
            ("expected 32 bytes, got " ++ toString bytes.length))
      | some key => .ok key

/-- The command line's key, else the entry's. -/
def resolve_master_key : Outcome ClientError Base64Key :=
  match cli.master_key_base64, server with
  | some b64, _ => decode_master_key sys b64
  | none, some s => .ok s.master_key_base64
  | none, none => .err (.missingArgument "master_key (-k or via -n / --name)")

/-- The items between the commas that are not blank. -/
def tokens (s : String) : List (List Char) :=
  ((s.toList.splitOn ',').map trim).filter (fun token => !token.isEmpty)

/-- One item; a bad one is reported as an argument. -/
def parse_token (token : List Char) : Except ClientError PortProto :=
  (parse_port_proto (String.ofList token)).mapError fun e =>
    .invalidArgument "access" (ConfigError.to_string e)

/-- `tcp/22,udp/53`: blank items are skipped, but not all of them may be. -/
def parse_access_string (s : String) : Except ClientError (List PortProto) := do
  let out ← (tokens s).mapM parse_token
  if out = [] then .error (.invalidArgument "access" "empty list") else .ok out

/-- The command line's ports, else the entry's. -/
def resolve_ports : Outcome ClientError (List PortProto) :=
  match cli.access, server with
  | some s, _ => returned (parse_access_string s)
  | none, some server => .ok server.access
  | none, none => .err (.missingArgument "access (-A or via -n / --name)")

/-- `str::parse` of an address, with the error the client makes of a failure. -/
def parse_source (field text : String) : Outcome ClientError IpAddr :=
  match parse_ip text with
  | some ip => .ok ip
  | none => .err (.invalidArgument field "invalid IP address syntax")

/-- The fallback; its `unwrap` would panic on a text that is no address. -/
def loopback : Outcome ClientError IpAddr :=
  match parse_ip "127.0.0.1" with
  | some ip => .ok ip
  | none => .panic

/-- The command line's address, else the entry's, else the loopback. -/
def resolve_source_ip : Outcome ClientError IpAddr :=
  match cli.source_ip, server with
  | some s, _ => parse_source "source-ip" s
  | none, some s =>
      if s.source_ip ≠ "auto" then parse_source "server.source_ip" s.source_ip else loopback
  | none, none => loopback

/-- The command line's name, else the system's, else `fwknox`. -/
def resolve_username : String := cli.username.getD (sys.user.getD "fwknox")

/-- A fresh nonce, if the system has one to give. -/
def random_nonce : Outcome ClientError Nonce :=
  match sys.nonce with
  | some nonce => .ok nonce
  | none => .err (.invalidArgument "csprng" "system random number generator failed")

/-- `u32::try_from`. -/
def try_u32 (n : UInt64) : Option UInt32 :=
  if n.toNat < 2 ^ 32 then some (UInt32.ofNat n.toNat) else none

/-- A timeout that does not fit counts as not given. -/
def resolve_timeout : Option UInt32 :=
  (cli.timeout.bind try_u32).or
    (server.bind fun s => s.fw_timeout.bind fun d => try_u32 d.as_secs)

/-- What the client asks for, and the key it asks with. -/
structure Request where
  master_key : Base64Key
  source_ip : IpAddr
  ports : List PortProto
  username : String
  timestamp : Int64
  nonce : Nonce
  client_timeout : Option UInt32
  deriving DecidableEq

/-- The client only ever asks for access. -/
def Request.payload (q : Request) : SpaPayload where
  nonce := q.nonce
  timestamp := q.timestamp
  username := q.username
  message := .access q.source_ip q.ports
  client_timeout := q.client_timeout

/-- The part of `build_spa_packet` before `build_packet`. -/
def resolve_request : Outcome ClientError Request := do
  let master_key ← resolve_master_key sys cli server
  let ports ← resolve_ports cli server
  let source_ip ← resolve_source_ip cli server
  let nonce ← random_nonce sys
  pure
    { master_key, source_ip, ports, nonce
      username := resolve_username sys cli
      timestamp := now_unix sys.clock
      client_timeout := resolve_timeout cli server }

/-- A protocol error becomes the client's. -/
def as_client {α : Type} : Outcome ProtoError α → Outcome ClientError α
  | .ok a => .ok a
  | .err e => .err (.proto e)
  | .panic => .panic

/-- `build_spa_packet`. -/
def build_spa_packet (C : Crypto) (M : RmpSerde) : Outcome ClientError Bytes := do
  let q ← resolve_request sys cli server
  as_client (build_packet C M sys.gcm_nonce q.payload q.master_key.toList)

/-! ### The command -/

/-- A new key, in the form the configuration takes. -/
def generate_master_key_base64 : Outcome ClientError String :=
  match sys.key with
  | some key => .ok (Base64Key.serialize sys.base64 key)
  | none => .err (.invalidArgument "csprng" "system random number generator failed")

/-- Read, parse, validate. -/
def load_client_config (path : String) : Except LoadError ClientConfig :=
  load_config sys.read sys.toml ClientConfig.validate path

/-- Below the home directory, or the current one without it. -/
def default_client_config_path : String :=
  match sys.home with
  | some home =>
      if home.toList.getLast? = some '/' ∨ home = "" then home ++ ".config/fwknox/fwknox.toml"
      else home ++ "/.config/fwknox/fwknox.toml"
  | none => "fwknox.toml"

/-- The entry `-n` names; without `-n` the file is not read at all. -/
def load_server_entry : Outcome ClientError (Option ServerEntry) :=
  match cli.name with
  | none => .ok none
  | some name =>
      match load_client_config sys (cli.config.getD (default_client_config_path sys)) with
      | .error e => .err (.config e)
      | .ok cfg =>
          match cfg.find_server name with
          | some s => .ok (some s)
          | none => .err (.unknownServer name)

/-- The command line's host, else the entry's. -/
def resolve_destination : Outcome ClientError String :=
  match cli.destination, server with
  | some d, _ => .ok d
  | none, some s => .ok s.destination
  | none, none => .err (.missingArgument "destination (-D or via -n / --name)")

/-- The command line's port, else the entry's, else the default. -/
def resolve_port : UInt16 :=
  match cli.port, server with
  | some p, _ => p
  | none, some s => s.port
  | none, none => 62201

/-- What the command did. -/
inductive Done where
  | printed (line : String)
  | sent (target : SocketAddr) (datagram : Bytes)
  deriving DecidableEq

/-- The first address of the host. -/
def resolve (host : String) (port : UInt16) : Outcome ClientError SocketAddr :=
  match sys.resolve host port with
  | .error e => .err (.io e)
  | .ok [] => .err (.invalidArgument "destination" "host did not resolve to any address")
  | .ok (addr :: _) => .ok addr

/-- A system call of the client. -/
def syscall {α : Type} : Except String α → Outcome ClientError α
  | .ok a => .ok a
  | .error e => .err (.io e)

/-- Bind, resolve, send: one datagram. -/
def send_udp_packet (packet : Bytes) (destination : String) (port : UInt16) :
    Outcome ClientError Done := do
  syscall sys.bind
  let target ← resolve sys destination port
  syscall (sys.send target packet)
  pure (.sent target packet)

/-- `real_main`: print a key, print a packet or send it. -/
def real_main (C : Crypto) (M : RmpSerde) : Outcome ClientError Done :=
  if cli.generate_key then do
    let key ← generate_master_key_base64 sys
    pure (.printed key)
  else do
    let server ← load_server_entry sys cli
    let destination ← resolve_destination cli server
    let wire ← build_spa_packet sys cli server C M
    if cli.test then pure (.printed (sys.base64.encode wire))
    else send_udp_packet sys wire destination (resolve_port cli server)

/-! ## Entries and their names -/

variable {sys cli server}

/-- What an entry must satisfy. -/
structure ValidServer (s : ServerEntry) : Prop where
  access : s.access ≠ []
  destination : ¬Blank s.destination.toList
  port : s.port ≠ 0

/-- An entry passes exactly when its name is new and it is valid. -/
theorem validate_server_eq_ok {seen : List String} {s : ServerEntry} :
    validate_server seen s = .ok () ↔ s.name ∉ seen ∧ ValidServer s := by
  simp only [validate_server, seq_eq_ok, check_eq_ok]
  constructor
  · rintro ⟨hn, ha, hd, hp⟩
    exact ⟨hn, ha, fun h => hd (trim_blank h), hp⟩
  · rintro ⟨hn, ha, hd, hp⟩
    exact ⟨hn, ha, fun h => hd (trim_eq_nil_iff.mp h), hp⟩

/-- A list passes exactly when its names are distinct, new, and its entries valid. -/
theorem validate_servers_eq_ok {seen : List String} {l : List ServerEntry} :
    validate_servers seen l = .ok ()
      ↔ (l.map (·.name)).Nodup ∧ (∀ s ∈ l, s.name ∉ seen) ∧ ∀ s ∈ l, ValidServer s :=
  named_loop_eq_ok validate_servers validate_server ValidServer (fun _ => rfl)
    (fun _ _ _ => rfl) (fun _ _ => validate_server_eq_ok)

/-- With distinct names, a name finds its entry. -/
theorem find_server_eq_some {c : ClientConfig} (hnd : (c.servers.map (·.name)).Nodup)
    {name : String} {s : ServerEntry} :
    c.find_server name = some s ↔ s ∈ c.servers ∧ s.name = name :=
  find_by_name_iff hnd

/-- **ENTRIES BY NAME**: a file is accepted if and only if the names of its entries differ and
    each entry has ports, a destination and a port; and then `-n` finds an entry exactly under
    its own name. -/
theorem entries_by_name (path : String) (c : ClientConfig) :
    (load_client_config sys path = .ok c
        ↔ (∃ text, sys.read path = .ok text ∧ sys.toml text = .ok c)
          ∧ (c.servers.map (·.name)).Nodup ∧ ∀ s ∈ c.servers, ValidServer s)
      ∧ (load_client_config sys path = .ok c → ∀ cli : Cli,
          cli.config.getD (default_client_config_path sys) = path →
          ∀ name s, cli.name = some name →
            (load_server_entry sys cli = .ok (some s) ↔ s ∈ c.servers ∧ s.name = name)) := by
  have hvalid : c.validate = .ok ()
      ↔ (c.servers.map (·.name)).Nodup ∧ ∀ s ∈ c.servers, ValidServer s := by
    rw [ClientConfig.validate, validate_servers_eq_ok]
    exact and_congr_right' (and_iff_right fun s _ => List.not_mem_nil)
  refine ⟨load_config_eq_ok.trans (and_congr_right' hvalid), ?_⟩
  rintro hload cli rfl name s hname
  have hnd := (hvalid.mp (load_config_eq_ok.mp hload).2).1
  simp only [load_server_entry, hname, hload]
  rw [← find_server_eq_some hnd]
  cases c.find_server name with
  | none => exact iff_of_false (fun h => by cases h) (fun h => by cases h)
  | some e => simp only [Outcome.ok.injEq]

/-! ## Keys and ports on the command line -/

/-- What may stand between two commas: blanks, or the text of a port between blanks. -/
inductive Item : List Char → Option PortProto → Prop
  | blank {w : List Char} (hw : Blank w) : Item w none
  | port {w w' : List Char} {pp : PortProto} (hw : Blank w) (hw' : Blank w')
      (hpp : pp.port ≠ 0) : Item (w ++ pp.to_string.toList ++ w') (some pp)

/-- A comma is no blank. -/
theorem comma_notMem_blank {w : List Char} (hw : Blank w) : ',' ∉ w := by
  intro h
  exact absurd (hw _ h) (by decide)

/-- No item has a comma in it. -/
theorem Item.comma_notMem {item : List Char} {asked : Option PortProto} (h : Item item asked) :
    ',' ∉ item := by
  cases h with
  | blank hw => exact comma_notMem_blank hw
  | port hw hw' _ =>
      simp only [List.mem_append, not_or]
      exact ⟨⟨comma_notMem_blank hw, comma_notMem_port_text _⟩, comma_notMem_blank hw'⟩

/-- The tokens of a list of items are the texts of the ports it asks for. -/
theorem tokens_items {items : List (List Char)} {asked : List (Option PortProto)}
    (h : List.Forall₂ Item items asked) :
    (items.map trim).filter (fun token => !token.isEmpty)
      = asked.reduceOption.map fun pp => pp.to_string.toList := by
  induction h with
  | nil => rfl
  | cons hitem _ ih =>
      cases hitem with
      | blank hw =>
          rw [List.map_cons, List.filter_cons, trim_blank hw]
          exact ih
      | port hw hw' hpp =>
          rw [List.map_cons, List.filter_cons, trim_port_text hw hw', if_pos ?_, ih]
          · rfl
          · rw [port_text]
            simp

/-- Nothing asked for is port zero. -/
theorem items_ports {items : List (List Char)} {asked : List (Option PortProto)}
    (h : List.Forall₂ Item items asked) : ∀ pp ∈ asked.reduceOption, pp.port ≠ 0 := by
  induction h with
  | nil => exact fun pp hpp => absurd hpp List.not_mem_nil
  | cons hitem _ ih =>
      cases hitem with
      | blank hw => exact ih
      | port hw hw' hpp => exact List.forall_mem_cons.mpr ⟨hpp, ih⟩

/-- So the items are what the commas separate. -/
theorem items_no_comma {items : List (List Char)} {asked : List (Option PortProto)}
    (h : List.Forall₂ Item items asked) : ∀ item ∈ items, ',' ∉ item := by
  induction h with
  | nil => exact fun item hitem => absurd hitem List.not_mem_nil
  | cons hitem _ ih => exact List.forall_mem_cons.mpr ⟨hitem.comma_notMem, ih⟩

/-- Ports written out are read back, item by item. -/
theorem mapM_parse_token {ports : List PortProto} (h : ∀ pp ∈ ports, pp.port ≠ 0) :
    (ports.map fun pp => pp.to_string.toList).mapM parse_token = .ok ports := by
  induction ports with
  | nil => rfl
  | cons pp ports ih =>
      have hpp : parse_token pp.to_string.toList = .ok pp := by
        rw [parse_token, String.ofList_toList, parse_port_text (h pp List.mem_cons_self)]
        rfl
      rw [List.map_cons, List.mapM_cons, hpp, ih fun p hp => h p (List.mem_cons_of_mem _ hp)]
      rfl

/-- A port that was read is not zero. -/
theorem parse_token_port {token : List Char} {pp : PortProto} (h : parse_token token = .ok pp) :
    pp.port ≠ 0 := by
  simp only [parse_token] at h
  cases hp : parse_port_proto (String.ofList token) with
  | error e =>
      rw [hp] at h
      cases h
  | ok p =>
      rw [hp] at h
      cases h
      obtain ⟨_, _, _, _, _, _, hne⟩ := parse_port_proto_eq_ok.mp hp
      exact hne

/-- Nor is any of a list. -/
theorem mapM_ports {l : List (List Char)} {ports : List PortProto}
    (h : l.mapM parse_token = .ok ports) : ∀ pp ∈ ports, pp.port ≠ 0 := by
  induction l generalizing ports with
  | nil =>
      cases h
      exact fun pp hpp => absurd hpp List.not_mem_nil
  | cons token l ih =>
      rw [List.mapM_cons] at h
      obtain ⟨pp, hpp, h⟩ := except_bind_eq_ok.mp h
      obtain ⟨rest, hrest, h⟩ := except_bind_eq_ok.mp h
      cases h
      exact List.forall_mem_cons.mpr ⟨parse_token_port hpp, ih hrest⟩

/-- **A LIST OF PORTS**: items between commas, each blank or a port between blanks, are read as
    the ports in their order; no port at all is an error; and nothing that is read asks for
    port 0. -/
theorem access_text :
    (∀ items asked, List.Forall₂ Item items asked →
      parse_access_string (String.ofList ([','].intercalate items))
        = if asked.reduceOption = [] then .error (.invalidArgument "access" "empty list")
          else .ok asked.reduceOption)
      ∧ ∀ s ports, parse_access_string s = .ok ports →
          ports ≠ [] ∧ ∀ pp ∈ ports, pp.port ≠ 0 := by
  refine ⟨?_, ?_⟩
  · intro items asked h
    have htokens : tokens (String.ofList ([','].intercalate items))
        = asked.reduceOption.map fun pp => pp.to_string.toList := by
      rw [tokens, String.toList_ofList]
      by_cases hne : items = []
      · subst hne
        cases h
        decide
      · rw [List.splitOn_intercalate ',' (items_no_comma h) hne, tokens_items h]
    rw [parse_access_string, htokens, mapM_parse_token (items_ports h)]
    rfl
  · intro s ports h
    obtain ⟨out, hout, h⟩ := except_bind_eq_ok.mp h
    split at h
    · cases h
    · next hne =>
        cases h
        exact ⟨hne, mapM_ports hout⟩

/-! ## From the command line to the daemon -/

/-- Only errors are changed. -/
theorem as_client_eq_ok {α : Type} {x : Outcome ProtoError α} {a : α} :
    as_client x = .ok a ↔ x = .ok a := by
  cases x with
  | ok b => simp only [as_client, Outcome.ok.injEq]
  | err e => exact iff_of_false (fun h => by cases h) (fun h => by cases h)
  | panic => exact iff_of_false (fun h => by cases h) (fun h => by cases h)

/-- A packet is built from a request that resolved. -/
theorem build_spa_packet_eq_ok {C : Crypto} {M : RmpSerde} {wire : Bytes} :
    build_spa_packet sys cli server C M = .ok wire
      ↔ ∃ q, resolve_request sys cli server = .ok q
        ∧ build_packet C M sys.gcm_nonce q.payload q.master_key.toList = .ok wire := by
  simp only [build_spa_packet, bind_eq_ok, as_client_eq_ok]

/-- What is sent was built for the request of this command line. -/
theorem real_main_sent {C : Crypto} {M : RmpSerde} {target : SocketAddr} {wire : Bytes}
    (h : real_main sys cli C M = .ok (.sent target wire)) :
    ∃ server q, load_server_entry sys cli = .ok server
      ∧ resolve_request sys cli server = .ok q
      ∧ build_packet C M sys.gcm_nonce q.payload q.master_key.toList = .ok wire := by
  simp only [real_main] at h
  split at h
  · obtain ⟨key, _, h⟩ := bind_eq_ok.mp h
    cases h
  · obtain ⟨server, hserver, h⟩ := bind_eq_ok.mp h
    obtain ⟨destination, _, h⟩ := bind_eq_ok.mp h
    obtain ⟨w, hw, h⟩ := bind_eq_ok.mp h
    obtain ⟨q, hq, hb⟩ := build_spa_packet_eq_ok.mp hw
    split at h
    · cases h
    · simp only [send_udp_packet] at h
      obtain ⟨_, _, h⟩ := bind_eq_ok.mp h
      obtain ⟨t, _, h⟩ := bind_eq_ok.mp h
      obtain ⟨_, _, h⟩ := bind_eq_ok.mp h
      cases h
      exact ⟨server, q, hserver, hq, hb⟩

/-- The request carries the second of the client's clock. -/
theorem resolve_request_timestamp {q : Request} (h : resolve_request sys cli server = .ok q) :
    q.timestamp = now_unix sys.clock := by
  simp only [resolve_request, bind_eq_ok] at h
  obtain ⟨key, _, ports, _, ip, _, nonce, _, h⟩ := h
  cases h
  rfl

/-- A built packet verifies under its own key. -/
theorem verifies_built {C : Crypto} {M : RmpSerde} (L : ChannelLaws C M)
    {rng : Option GcmNonce} {p : SpaPayload} {key w : Bytes}
    (h : build_packet C M rng p key = .ok w) : HmacVerifies C key w := by
  obtain ⟨_, b, n, _, _, _, rfl, _⟩ := (build_packet_eq_ok C M).mp h
  rw [← grammar_parts_wire]
  exact (hmacVerifies_wire (grammar_parts_fits key p n b)).mpr (L.verify_sign _ _)

/-- What the daemon wants of a request that reaches stanza `s` from `src`: a readable name, clocks
    that agree, a new nonce, and the stanza's policy. -/
structure Admissible (X : Ext) (config : DaemonConfig) (s : AccessStanza) (src : IpAddr)
    (sent received : SystemTime) (w : World) (q : Request) : Prop where
  short_name : q.username.utf8ByteSize ≤ 64
  plain_name : ∀ c ∈ q.username.toList, is_ascii_graphic c = true ∨ c = ' '
  not_ahead : sent.unix_secs.toNat ≤ received.unix_secs.toNat + 30
  not_late : received.unix_secs.toNat
    ≤ sent.unix_secs.toNat + config.daemon.max_spa_packet_age.as_secs.toNat
  unused : q.nonce ∉ w.cache.map
  source_listed : ∃ spec ∈ s.source, spec.matches X.net_contains src = true
  source_match : q.source_ip = src ∨ s.require_source_match = false
  ports_open : ∀ pp ∈ q.ports, pp ∈ s.open_ports

section Granted

variable {X : Ext} {M : RmpSerde} {config : DaemonConfig} {persist_path : Option String} {env : Env}
  {q : Request} {wire : Bytes} {src : IpAddr} {s : AccessStanza} {before after : List AccessStanza}

/-- In an accepted configuration the window is the plain one. -/
theorem fresh_sent_iff (hv : config.validate = .ok ()) {p : SpaPayload} {sent received : SystemTime}
    (hp : p.timestamp = now_unix sent) :
    Fresh config.daemon.max_spa_packet_age p received
      ↔ sent.unix_secs.toNat ≤ received.unix_secs.toNat + 30
        ∧ received.unix_secs.toNat
          ≤ sent.unix_secs.toNat + config.daemon.max_spa_packet_age.as_secs.toNat := by
  have hweek : ¬MAX_DURATION < config.daemon.max_spa_packet_age :=
    (validate_eq_ok_iff.mp hv).max_spa_packet_age.2
  rw [Duration.lt_iff_as_nanos_lt] at hweek
  have hage : config.daemon.max_spa_packet_age.as_secs.toNat ≤ 604800 := by
    have hmax : MAX_DURATION.as_nanos = 604800000000000 := by decide
    simp only [Duration.as_nanos] at hweek hmax
    simp only [Duration.as_secs]
    omega
  have hsent := unix_secs_lt sent
  have hrecv := unix_secs_lt received
  rw [fresh_iff, hp, now_unix_toInt]
  omega

/-- The daemon reads the request as it was resolved, if the name is readable. -/
theorem parse_request (L : ChannelLaws X.crypto M)
    (hb : build_packet X.crypto M sys.gcm_nonce q.payload q.master_key.toList = .ok wire)
    {p : SpaPayload} :
    parse_packet X.crypto wire q.master_key.toList = .ok p
      ↔ p = q.payload ∧ q.username.utf8ByteSize ≤ 64
        ∧ ∀ c ∈ q.username.toList, is_ascii_graphic c = true ∨ c = ' ' := by
  rw [parse_built L hb, bind_eq_ok]
  constructor
  · rintro ⟨u, hu, h⟩
    cases h
    exact ⟨rfl, validate_structure_eq_ok.mp hu⟩
  · rintro ⟨rfl, hu⟩
    exact ⟨(), validate_structure_eq_ok.mpr hu, rfl⟩

/-- For a packet the client built, the daemon's conditions are conditions on the request. -/
theorem permitted_iff (L : ChannelLaws X.crypto M) (hv : config.validate = .ok ())
    (hb : build_packet X.crypto M sys.gcm_nonce q.payload q.master_key.toList = .ok wire)
    (hq : q.timestamp = now_unix sys.clock) (hkey : s.master_key = q.master_key)
    {t : SystemTime} {w : World} :
    Permits X config ⟨src, wire⟩ t w.cache s
      ↔ Admissible X config s src sys.clock t w q := by
  constructor
  · rintro ⟨p, ip, ports, h⟩
    have hparse := h.parses
    rw [hkey] at hparse
    obtain ⟨rfl, hshort, hplain⟩ := (parse_request L hb).mp hparse
    obtain ⟨rfl, rfl⟩ : q.source_ip = ip ∧ q.ports = ports := by
      cases h.message
      exact ⟨rfl, rfl⟩
    obtain ⟨hahead, hlate⟩ := (fresh_sent_iff hv hq).mp h.fresh
    exact ⟨hshort, hplain, hahead, hlate, h.unused, h.source_listed, h.source_match, h.ports_open⟩
  · intro h
    refine ⟨q.payload, q.source_ip, q.ports, ?_, rfl, ?_, h.unused, h.source_listed,
      h.source_match, h.ports_open⟩
    · rw [hkey]
      exact (parse_request L hb).mpr ⟨rfl, h.short_name, h.plain_name⟩
    · exact (fresh_sent_iff hv hq).mpr ⟨h.not_ahead, h.not_late⟩

/-- The first stanza whose key verifies the packet is the one it was meant for. -/
theorem first_verifying_of_before {C : Crypto} (hver : HmacVerifies C s.master_key.toList wire)
    (haccess : config.access = before ++ s :: after)
    (hbefore : ∀ s' ∈ before, ¬HmacVerifies C s'.master_key.toList wire) :
    first_verifying C wire config.access = some s := by
  rw [first_verifying, List.find?_eq_some_iff_append]
  refine ⟨decide_eq_true hver, before, after, haccess, ?_⟩
  intro s' hs'
  rw [decide_eq_false (hbefore s' hs')]
  rfl

/-- An installed packet was granted, and its rule is the last one opened. -/
theorem calls_of_installed {p : CapturedPacket} {w w' : World}
    {r : Except DaemonError ProcessResult}
    (hr : (process_packet X config persist_path p).exec (handler env) w = (r, w'))
    (hi : Installed r) :
    ∃ name stanza payload source_ip ports,
      Grant X config p (env.clock w.tick) name stanza payload source_ip ports
        ∧ payload.nonce ∉ w.cache.map
        ∧ w'.calls
          = w.calls ++ [(w.current, granted_rule config stanza payload source_ip ports)] := by
  obtain ⟨name, handle, rfl⟩ := hi
  generalize hres : Except.ok (ProcessResult.installed name handle) = res at hr
  cases process_packet_cases hr with
  | noMatch h => cases hres
  | unreadable n reason h => cases hres
  | missing n pl e h hf => cases hres
  | stale n s' pl e h hf ht => cases hres
  | replay n s' pl _ h hc => cases hres
  | unsaved n s' pl e _ h hc => cases hres
  | refused n s' pl reason _ h hc href => cases hres
  | granted n s' pl sip pts w₁ h hc =>
      obtain ⟨⟨hcalls, hcur, _⟩, _⟩ := check_and_insert_cases hc
      refine ⟨n, s', pl, sip, pts, h, (check_and_insert_stored hc).1, ?_⟩
      show w₁.calls ++ [(w₁.current, _)] = _
      rw [hcalls, hcur]
      rfl

/-- What the daemon grants is the request as it was resolved, under the stanza of its key. -/
theorem grant_is_request (L : ChannelLaws X.crypto M) (hv : config.validate = .ok ())
    (hb : build_packet X.crypto M sys.gcm_nonce q.payload q.master_key.toList = .ok wire)
    (hkey : s.master_key = q.master_key)
    (hfirst : first_verifying X.crypto wire config.access = some s) {t : SystemTime}
    {name : String} {s' : AccessStanza} {p : SpaPayload} {ip : IpAddr} {ports : List PortProto}
    (hg : Grant X config ⟨src, wire⟩ t name s' p ip ports) :
    s' = s ∧ p = q.payload ∧ ip = q.source_ip ∧ ports = q.ports := by
  obtain ⟨s₁, rfl, hver⟩ := match_packet_matched hg.matched
  obtain rfl := find_stanza_of_nodup (validate_eq_ok_iff.mp hv).names hver.mem hg.found
  obtain ⟨hfirst', hparse⟩ := firstVerified_iff.mp hver
  cases hfirst.symm.trans hfirst'
  rw [hkey] at hparse
  obtain ⟨rfl, _⟩ := (parse_request L hb).mp hparse
  cases hg.message
  exact ⟨rfl, rfl, rfl, rfl⟩

/-- **WHEN THE CLIENT GETS IN**: the daemon opens what `fwknox` sent if and only if its name is
    readable, the two clocks agree, the nonce is new, the stanza with its key, behind stanzas
    that do not verify it, wants nothing else, the nonce is saved and the firewall opens the
    rule; and that rule is for the address and the ports of the request, for the time of the
    stanza. -/
theorem request_granted_iff (L : ChannelLaws X.crypto M) (hv : config.validate = .ok ())
    {target : SocketAddr} (hsent : real_main sys cli X.crypto M = .ok (.sent target wire)) :
    ∃ server q, load_server_entry sys cli = .ok server ∧ resolve_request sys cli server = .ok q
      ∧ ∀ (src : IpAddr) (before after : List AccessStanza) (s : AccessStanza),
          config.access = before ++ s :: after → s.master_key = q.master_key →
          (∀ s' ∈ before, ¬HmacVerifies X.crypto s'.master_key.toList wire) →
          ∀ (w w' : World) (r : Except DaemonError ProcessResult),
            (process_packet X config persist_path ⟨src, wire⟩).exec (handler env) w = (r, w') →
            (Installed r
                ↔ Admissible X config s src sys.clock (env.clock w.tick) w q
                  ∧ save_error env persist_path w.next = none
                  ∧ ∃ handle, env.firewall (asked_at persist_path w.next)
                      (granted_rule config s q.payload q.source_ip q.ports) = .ok handle)
              ∧ (Installed r → w'.calls = w.calls
                ++ [(w.current, granted_rule config s q.payload q.source_ip q.ports)]) := by
  obtain ⟨server, q, hserver, hq, hb⟩ := real_main_sent hsent
  refine ⟨server, q, hserver, hq, ?_⟩
  intro src before after s haccess hkey hbefore w w' r hr
  have hfirst : first_verifying X.crypto wire config.access = some s :=
    first_verifying_of_before (hkey ▸ verifies_built L hb) haccess hbefore
  have hiff : Permits X config ⟨src, wire⟩ (env.clock w.tick) w.cache s ↔ _ :=
    permitted_iff L hv hb (resolve_request_timestamp hq) hkey
  refine ⟨⟨?_, ?_⟩, ?_⟩
  · -- an installed request was permitted by this stanza, and then it is this request
    intro hi
    obtain ⟨name, s', p, ip, ports, hg, hunused, _⟩ := calls_of_installed hr hi
    obtain ⟨rfl, rfl, rfl, rfl⟩ := grant_is_request L hv hb hkey hfirst hg
    have hpermits : Permits X config ⟨src, wire⟩ (env.clock w.tick) w.cache s' :=
      ⟨_, _, _, (permitted_of_grant hv hg hunused).2⟩
    exact ⟨hiff.mp hpermits, ((installed_iff_of_grant persist_path hg hr).mp hi).2⟩
  · -- an admissible request is granted, and then only the disk and the firewall decide
    rintro ⟨hadmissible, hsave, handle, hopen⟩
    obtain ⟨p, ip, ports, hperm⟩ := hiff.mpr hadmissible
    have hg := hperm.grant hv hfirst
    obtain ⟨_, rfl, rfl, rfl⟩ := grant_is_request L hv hb hkey hfirst hg
    exact (installed_iff_of_grant persist_path hg hr).mpr
      ⟨hadmissible.unused, hsave, handle, hopen⟩
  · intro hi
    obtain ⟨name, s', p, ip, ports, hg, _, hcalls⟩ := calls_of_installed hr hi
    obtain ⟨rfl, rfl, rfl, rfl⟩ := grant_is_request L hv hb hkey hfirst hg
    exact hcalls

/-- An engine for the samples: each byte is the character of its number. -/
def latin1 : Base64 where
  encode bytes := String.ofList (bytes.map fun b => Char.ofNat b.toNat)
  decode text := .ok (text.toList.map fun c => UInt8.ofNat c.toNat)
  round_trip := by
    intro bytes
    have hbyte : ∀ b : UInt8, UInt8.ofNat (Char.ofNat b.toNat).toNat = b := by
      intro b
      have hlt := b.toNat_lt
      have hvalid : b.toNat.isValidChar := .inl (by omega)
      have hchar : (Char.ofNat b.toNat).toNat = b.toNat := by
        rw [Char.ofNat, dif_pos hvalid]
        rfl
      rw [hchar, UInt8.ofNat_toNat]
    rw [String.toList_ofList, List.map_map, Except.ok.injEq]
    exact (List.map_congr_left fun b _ => hbyte b).trans (List.map_id bytes)

/-- Alice's machine, at the time of the sample packet. -/
def sampleSystem : System where
  user := some "alice"
  home := none
  clock := ⟨1700000000⟩
  nonce := some sampleRow.payload.nonce
  gcm_nonce := some sampleRow.nonce
  key := some sampleStanza.master_key
  read _ := .error "No such file or directory"
  toml _ := .error "expected a table"
  base64 := latin1
  bind := .ok ()
  resolve _ port := .ok [.v4 sampleIp port]
  send _ _ := .ok ()

/-- `fwknox -D 192.0.2.7 -A tcp/22 -k … -a 192.0.2.7`. -/
def sampleCli : Cli where
  destination := some "192.0.2.7"
  access := some "tcp/22"
  source_ip := some "192.0.2.7"
  master_key_base64 := some "BBBBBBBBBBBBBBBBBBBBBBBBBBBBBBBB"

/-- The request of the sample command line. -/
def sampleRequest : Request where
  master_key := sampleStanza.master_key
  source_ip := .v4 sampleIp
  ports := [⟨.tcp, 22⟩]
  username := "alice"
  timestamp := 1700000000
  nonce := sampleRow.payload.nonce
  client_timeout := none

/-- The sample command sends the recorded packet, and the daemon opens its port. -/
theorem sample_request_sent_and_granted :
    real_main sampleSystem sampleCli sampleExt.crypto (codec sampleRow)
        = .ok (.sent (.v4 sampleIp 62201) sampleRow.wire)
      ∧ Installed ((process_packet sampleExt sampleConfig none samplePacket).exec
          (handler sampleEnv) emptyWorld).1 := by
  have hsent : real_main sampleSystem sampleCli sampleExt.crypto (codec sampleRow)
      = .ok (.sent (.v4 sampleIp 62201) sampleRow.wire) := by decide +kernel
  have hreq : resolve_request sampleSystem sampleCli none = .ok sampleRequest := by
    decide +kernel
  obtain ⟨server, q, hserver, hq, h⟩ := @request_granted_iff sampleSystem sampleCli sampleExt
    (codec sampleRow) sampleConfig none sampleEnv sampleRow.wire (row_laws rfl)
    sampleConfig_validate _ hsent
  cases (rfl : load_server_entry sampleSystem sampleCli = .ok none).symm.trans hserver
  cases hreq.symm.trans hq
  refine ⟨hsent, (h (.v4 sampleIp) [] [] sampleStanza rfl rfl (fun s hs => by cases hs) emptyWorld
    _ _ (Prod.mk.eta).symm).1.mpr ⟨?_, rfl, _, rfl⟩⟩
  have hname : validate_structure sampleRow.payload = .ok () := by decide
  obtain ⟨hshort, hplain⟩ := validate_structure_eq_ok.mp hname
  exact ⟨hshort, hplain, by decide +kernel, by decide +kernel, AList.notMem_empty _,
    ⟨.any, List.mem_singleton_self _, rfl⟩, .inl rfl, fun pp hpp => hpp⟩

end Granted

end FwknoxClient
