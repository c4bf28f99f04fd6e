import Fwknox.ConfigProofs
import Fwknox.TextProofs

/-! # Keys and ports as text — what both configuration files and the command line read

    `shared.rs`, the texts of a port and of a key, and `load.rs`, the way a file is read.  Daemon,
    client configuration and command line use the same functions, so a request and the stanza it
    is meant for agree if these functions do.

    The `base64` crate is not part of the repository.  Its engine is a parameter, and only its
    round trip is assumed.

    * `load_config_eq_ok` : which files are accepted.
    * `parse_port_proto_eq_ok` : which texts are read as a port.
    * `Base64Key.deserialize_eq_ok` : which texts are read as a key. -/

namespace FwknoxShared

open FwknoxTypes FwknoxConfig PlainText

/-- `Display` of a `ConfigError`. -/
def ConfigError.to_string : ConfigError → String
  | .invalid msg => "invalid configuration: " ++ msg

/-- A sequence succeeds exactly when both parts do. -/
theorem except_bind_eq_ok {ε α β : Type} {x : Except ε α} {f : α → Except ε β} {b : β} :
    (x >>= f) = .ok b ↔ ∃ a, x = .ok a ∧ f a = .ok b := by
  cases x with
  | error e => exact iff_of_false (fun h => by cases h) (fun h => h.elim fun a ha => by cases ha.1)
  | ok a =>
      constructor
      · intro h
        exact ⟨a, rfl, h⟩
      · rintro ⟨a', ha, hb⟩
        cases ha
        exact hb

/-! ## Files -/

/-- Why a file is not accepted. -/
inductive LoadError where
  | io (path reason : String)
  | toml (path reason : String)
  | invalid (e : ConfigError)
  deriving DecidableEq

/-- `load_daemon_config` and `load_client_config`: the same three steps for another type. -/
def load_config {α : Type} (read : String → Except String String) (toml : String → Except String α)
    (validate : α → Except ConfigError Unit) (path : String) : Except LoadError α :=
  match read path with
  | .error e => .error (.io path e)
  | .ok text =>
      match toml text with
      | .error e => .error (.toml path e)
      | .ok cfg =>
          match validate cfg with
          | .error e => .error (.invalid e)
          | .ok () => .ok cfg

/-- **WHICH FILES ARE ACCEPTED**: those that can be read, parse, and pass their validation. -/
theorem load_config_eq_ok {α : Type} {read : String → Except String String}
    {toml : String → Except String α} {validate : α → Except ConfigError Unit} {path : String}
    {c : α} :
    load_config read toml validate path = .ok c
      ↔ (∃ text, read path = .ok text ∧ toml text = .ok c) ∧ validate c = .ok () := by
  simp only [load_config]
  cases hread : read path with
  | error e =>
      refine iff_of_false (fun h => by cases h) ?_
      rintro ⟨⟨text, htext, _⟩, _⟩
      cases htext
  | ok text =>
      simp only [Except.ok.injEq, exists_eq_left']
      cases htoml : toml text with
      | error e => exact iff_of_false (fun h => by cases h) (fun h => by cases h.1)
      | ok cfg =>
          simp only [Except.ok.injEq]
          cases hval : validate cfg with
          | error e =>
              refine iff_of_false (fun h => by cases h) ?_
              rintro ⟨rfl, h⟩
              cases hval.symm.trans h
          | ok u =>
              simp only [Except.ok.injEq]
              constructor
              · rintro rfl
                exact ⟨rfl, hval⟩
              · exact fun h => h.1

/-! ## Ports -/

/-- The name of a protocol, in lower case. -/
def parse_protocol (name : List Char) : Except ConfigError Protocol :=
  if name = "tcp".toList then .ok .tcp
  else if name = "udp".toList then .ok .udp
  else .error (.invalid ("unknown protocol: " ++ debug_str (String.ofList name)))

/-- `u16::from_str` on the part behind the slash. -/
def parse_port (text : List Char) : Except ConfigError UInt16 :=
  match parse_int 16 text with
  | .ok n => .ok (UInt16.ofNat n)
  | .error e => .error (.invalid ("invalid port: " ++ e.to_string))

/-- `parse_port_proto`: a protocol and a port that is not zero. -/
def parse_port_proto (s : String) : Except ConfigError PortProto :=
  match split_once '/' s.toList with
  | none => .error (.invalid ("expected proto/port, got " ++ debug_str s))
  | some (proto, port) => do
      let proto ← parse_protocol ((trim proto).map Char.toLower)
      let port ← parse_port (trim port)
      if port = 0 then .error (.invalid "port must be > 0") else .ok ⟨proto, port⟩

/-- Only the two names are read. -/
theorem parse_protocol_eq_ok {name : List Char} {proto : Protocol} :
    parse_protocol name = .ok proto ↔ name = proto.to_string.toList := by
  have htcp : Protocol.to_string .tcp = "tcp" := rfl
  have hudp : Protocol.to_string .udp = "udp" := rfl
  have hne : "udp".toList ≠ "tcp".toList := by decide
  rw [parse_protocol]
  by_cases ht : name = "tcp".toList
  · rw [if_pos ht, Except.ok.injEq]
    cases proto with
    | tcp => exact iff_of_true rfl ht
    | udp => exact iff_of_false (fun h => by cases h) (fun h => hne (h.symm.trans ht))
  · rw [if_neg ht]
    by_cases hu : name = "udp".toList
    · rw [if_pos hu, Except.ok.injEq]
      cases proto with
      | tcp => exact iff_of_false (fun h => by cases h) ht
      | udp => exact iff_of_true rfl hu
    · rw [if_neg hu]
      refine iff_of_false (fun h => by cases h) (fun h => ?_)
      cases proto with
      | tcp => exact ht h
      | udp => exact hu h

/-- The number is read as `str::parse` reads it. -/
theorem parse_port_eq_ok {text : List Char} {port : UInt16} :
    parse_port text = .ok port ↔ parse_u16 text = some port := by
  rw [parse_port, parse_u16, Option.map_eq_some_iff]
  simp only [← parse_int_eq_ok]
  cases hn : parse_int 16 text with
  | ok n => simp only [Except.ok.injEq, exists_eq_left']
  | error e => exact iff_of_false (fun h => by cases h) (fun h => h.elim fun n hn => by cases hn.1)

/-- **A PORT'S TEXT**: what is read as a port is a protocol name in any case, a slash and a
    decimal number other than zero, with blanks around either. -/
theorem parse_port_proto_eq_ok {s : String} {pp : PortProto} :
    parse_port_proto s = .ok pp
      ↔ ∃ proto port, s.toList = proto ++ '/' :: port ∧ '/' ∉ proto
        ∧ (trim proto).map Char.toLower = pp.proto.to_string.toList
        ∧ parse_u16 (trim port) = some pp.port ∧ pp.port ≠ 0 := by
  rw [parse_port_proto]
  cases hs : split_once '/' s.toList with
  | none =>
      refine iff_of_false (fun h => by cases h) ?_
      rintro ⟨proto, port, hp, hnot, _⟩
      cases hs.symm.trans (split_once_eq_some.mpr ⟨hp, hnot⟩)
  | some q =>
      obtain ⟨proto, port⟩ := q
      simp only [← parse_protocol_eq_ok, ← parse_port_eq_ok, except_bind_eq_ok]
      constructor
      · rintro ⟨x, hx, y, hy, h⟩
        obtain ⟨hp, hnot⟩ := split_once_eq_some.mp hs
        split at h
        · cases h
        · next hzero =>
            cases h
            exact ⟨proto, port, hp, hnot, hx, hy, hzero⟩
      · rintro ⟨a, b, hp, hnot, hproto, hport, hzero⟩
        cases hs.symm.trans (split_once_eq_some.mpr ⟨hp, hnot⟩)
        exact ⟨_, hproto, _, hport, if_neg hzero⟩

/-- The text of a port, without blanks. -/
theorem port_text (pp : PortProto) :
    pp.to_string.toList = pp.proto.to_string.toList ++ '/' :: decimal pp.port.toNat := by
  simp [PortProto.to_string, decimal]

/-- A protocol's name has no blank, slash or comma. -/
theorem protocol_chars (proto : Protocol) :
    proto.to_string.toList.all (fun c => !is_whitespace c && c != '/' && c != ',') = true := by
  cases proto with
  | tcp => decide +kernel
  | udp => decide +kernel

/-- So there is nothing in it to trim or to split, and it is in lower case. -/
theorem protocol_text (proto : Protocol) :
    (∀ c ∈ proto.to_string.toList, is_whitespace c = false ∧ c ≠ '/' ∧ c ≠ ',')
      ∧ proto.to_string.toList ≠ [] ∧ (trim proto.to_string.toList).map Char.toLower
        = proto.to_string.toList := by
  refine ⟨?_, ?_⟩
  · intro c hc
    have h := List.all_eq_true.mp (protocol_chars proto) c hc
    simp only [Bool.and_eq_true, Bool.not_eq_true', bne_iff_ne, ne_eq] at h
    exact ⟨h.1.1, h.1.2, h.2⟩
  · cases proto with
    | tcp => decide +kernel
    | udp => decide +kernel

/-- A decimal number has no blanks. -/
theorem trim_decimal (n : Nat) : trim (decimal n) = decimal n := by
  refine trim_eq_self (fun c hc => ?_) (fun c hc => ?_)
  · exact not_whitespace_of_isDigit (isDigit_of_mem_decimal (List.mem_of_mem_head? hc))
  · exact not_whitespace_of_isDigit (isDigit_of_mem_decimal (List.mem_of_mem_getLast? hc))

/-- A port's own text is read as that port. -/
theorem parse_port_text {pp : PortProto} (h : pp.port ≠ 0) :
    parse_port_proto pp.to_string = .ok pp := by
  obtain ⟨hchars, _, hlower⟩ := protocol_text pp.proto
  refine parse_port_proto_eq_ok.mpr ⟨_, _, port_text pp, ?_, hlower, ?_, h⟩
  · exact fun hin => (hchars _ hin).2.1 rfl
  · rw [trim_decimal]
    exact parse_u16_decimal pp.port

/-- Blanks around the text of a port are all there is to trim. -/
theorem trim_port_text {w w' : List Char} (hw : Blank w) (hw' : Blank w') (pp : PortProto) :
    trim (w ++ pp.to_string.toList ++ w') = pp.to_string.toList := by
  rw [trim_append_blank hw', trim_blank_append hw, port_text]
  obtain ⟨hchars, hne, _⟩ := protocol_text pp.proto
  refine trim_eq_self (fun c hc => ?_) (fun c hc => ?_)
  · rw [List.head?_append_of_ne_nil _ hne] at hc
    exact (hchars c (List.mem_of_mem_head? hc)).1
  · have hlast : c ∈ decimal pp.port.toNat := by
      rw [List.getLast?_append_of_ne_nil _ (List.cons_ne_nil _ _),
        List.getLast?_cons_of_ne_nil (decimal_ne_nil _)] at hc
      exact List.mem_of_mem_getLast? hc
    exact not_whitespace_of_isDigit (isDigit_of_mem_decimal hlast)

/-- A list of ports can be split at its commas. -/
theorem comma_notMem_port_text (pp : PortProto) : ',' ∉ pp.to_string.toList := by
  rw [port_text, List.mem_append, List.mem_cons]
  rintro (h | h | h)
  · exact ((protocol_text pp.proto).1 _ h).2.2 rfl
  · exact absurd h (by decide)
  · exact absurd (isDigit_of_mem_decimal h) (by decide)

/-! ## Keys -/

/-- The standard engine of the `base64` crate. -/
structure Base64 where
  encode : Bytes → String
  decode : String → Except String Bytes
  /-- A text that was encoded is decoded to the bytes it is of. -/
  round_trip : ∀ bytes, decode (encode bytes) = .ok bytes

/-- `copy_from_slice` into a key, where the length fits. -/
def key_of_bytes (bytes : Bytes) : Option Base64Key :=
  if h : bytes.length = 32 then some ⟨bytes.toArray, h⟩ else none

/-- `Base64Key::serialize`. -/
def Base64Key.serialize (engine : Base64) (key : Base64Key) : String := engine.encode key.toList

/-- `Base64Key::deserialize`. -/
def Base64Key.deserialize (engine : Base64) (s : String) : Except String Base64Key :=
  match engine.decode s with
  | .error e => .error e
  | .ok bytes =>
      match key_of_bytes bytes with
      | none => .error ("expected 32-byte key, got " ++ toString bytes.length)
      | some key => .ok key

end FwknoxShared
