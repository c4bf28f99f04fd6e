import Fwknox.AddrProofs
import Fwknox.PacketProofs

/-! # Building packets — what the parser makes of what the builder wrote

    `build_packet` of `packet.rs` with `SpaPayload::encode` of `payload.rs` and the serde
    helpers of `types.rs`.  The MessagePack codec is `RmpSerde`: it carries a payload whose
    addresses are texts, and `ChannelLaws` says that it, the cipher and the tag give back
    what they were given.

    Route: a built packet is the wire the grammar gives its payload (`build_packet_eq_ok`);
    so the parser gets as far as the payload's own checks, and what it then checks is the
    payload that survived the address texts (`parse_built`).  The encoder makes neither of
    the two username checks, and the texts have no flow label: `round_trip_iff`. -/

namespace FwknoxBuild

open FwknoxTypes FwknoxHeader FwknoxPacket FwknoxAddr CheckedSlice CheckedSlice.Outcome

/-! ## Addresses as serde carries them -/

/-- An address goes over the wire as its text. -/
def serde_ip.serialize (ip : IpAddr) : String := ip.to_string

/-- And is read back from it. -/
def serde_ip.deserialize (raw : String) : Except String IpAddr :=
  match parse_ip raw with
  | some ip => .ok ip
  | none => .error "invalid IP address syntax"

/-- A socket address goes over the wire as its text, which has no flow label. -/
def serde_sock.serialize (addr : SocketAddr) : String := addr.to_string

/-- And is read back without one. -/
def serde_sock.deserialize (raw : String) : Except String SocketAddr :=
  match parse_sock raw with
  | some addr => .ok addr
  | none => .error "invalid socket address syntax"

/-- A message with its addresses as texts. -/
inductive MessageData where
  | access (source_ip : String) (ports : List PortProto)
  | nat (source_ip : String) (ports : List PortProto) (nat_dest : String)
  | localNat (source_ip : String) (ports : List PortProto) (nat_dest : String)
  | command (source_ip command : String)
  deriving DecidableEq

/-- The payload the codec writes and reads. -/
structure PayloadData where
  nonce : Nonce
  timestamp : Int64
  username : String
  message : MessageData
  client_timeout : Option UInt32
  deriving DecidableEq

/-- Only the addresses change their form. -/
def MessageData.serialize : SpaMessage → MessageData
  | .access source_ip ports => .access (serde_ip.serialize source_ip) ports
  | .nat source_ip ports nat_dest =>
      .nat (serde_ip.serialize source_ip) ports (serde_sock.serialize nat_dest)
  | .localNat source_ip ports nat_dest =>
      .localNat (serde_ip.serialize source_ip) ports (serde_sock.serialize nat_dest)
  | .command source_ip cmd => .command (serde_ip.serialize source_ip) cmd

/-- The first address that does not read is the error. -/
def MessageData.deserialize : MessageData → Except String SpaMessage
  | .access source_ip ports => do
      return .access (← serde_ip.deserialize source_ip) ports
  | .nat source_ip ports nat_dest => do
      return .nat (← serde_ip.deserialize source_ip) ports (← serde_sock.deserialize nat_dest)
  | .localNat source_ip ports nat_dest => do
      return .localNat (← serde_ip.deserialize source_ip) ports
        (← serde_sock.deserialize nat_dest)
  | .command source_ip cmd => do
      return .command (← serde_ip.deserialize source_ip) cmd

/-- The payload as the codec sees it. -/
def PayloadData.serialize (p : SpaPayload) : PayloadData where
  nonce := p.nonce
  timestamp := p.timestamp
  username := p.username
  message := MessageData.serialize p.message
  client_timeout := p.client_timeout

/-- The payload as the daemon gets it. -/
def PayloadData.deserialize (d : PayloadData) : Except String SpaPayload := do
  let message ← d.message.deserialize
  return {
    nonce := d.nonce
    timestamp := d.timestamp
    username := d.username
    message := message
    client_timeout := d.client_timeout }

/-- The MessagePack codec, below the serde helpers. -/
structure RmpSerde where
  to_vec : PayloadData → Except String Bytes
  from_slice : Bytes → Except String PayloadData

/-- What the channel gives back. -/
structure ChannelLaws (C : Crypto) (M : RmpSerde) : Prop where
  verify_sign : ∀ key msg, C.hmac_verify key msg (C.hmac_sign key msg).toList = true
  open_seal : ∀ key n aad b, C.gcm_open key n aad (C.gcm_seal key n aad b) = some b
  seal_length : ∀ key n aad b, (C.gcm_seal key n aad b).length = b.length + TAG_LEN
  from_slice_to_vec : ∀ d b, M.to_vec d = .ok b → M.from_slice b = .ok d
  /-- Reading a payload is reading its data, then the helpers' parsing. -/
  reads : ∀ b d p, M.from_slice b = .ok d → d.deserialize = .ok p → C.rmp_from_slice b = .ok p

/-! ## The builder -/

variable (C : Crypto) (M : RmpSerde)

/-- The largest plaintext the encoder lets through. -/
def MAX_ENCODED_LEN : Nat := 1024

/-- `SpaPayload::encode`.  Unlike `decode` it does not call `validate_structure`. -/
def encode (payload : SpaPayload) : Outcome ProtoError Bytes :=
  match M.to_vec (PayloadData.serialize payload) with
  | .error e => .err (.payloadEncode e)
  | .ok bytes => do
      ensure (¬bytes.length > MAX_ENCODED_LEN) (.invalidField "payload too large")
      pure bytes

/-- `aead::generate_nonce`, from what the system's random source returned. -/
def generate_nonce (rng : Option GcmNonce) : Outcome ProtoError GcmNonce :=
  match rng with
  | some nonce => .ok nonce
  | none => .err .aeadFailed

/-- `aead::seal`. -/
def aead_seal (key : Bytes) (nonce : GcmNonce) (aad plaintext : Bytes) :
    Outcome ProtoError Bytes := do
  ensure (key.length = KEY_LEN) .aeadFailed
  pure (C.gcm_seal key nonce aad plaintext)

/-- `u16::try_from`, with the error the builder maps its failure to. -/
def payload_len_after_aead (len : Nat) : Outcome ProtoError UInt16 := do
  ensure (len ≤ 65535) (.packetTooLong len 65535)
  pure (UInt16.ofNat len)

/-- `build_packet`: seal under the header, sign header, nonce and ciphertext. -/
def build_packet (rng : Option GcmNonce) (payload : SpaPayload) (master_key : Bytes) :
    Outcome ProtoError Bytes := do
  ensure (master_key.length = MASTER_KEY_LEN) (.invalidField "master_key must be 32 bytes")
  let plaintext ← encode M payload
  let nonce ← generate_nonce rng
  let flags := derive_flags payload.message payload.client_timeout.isSome
  let payload_len ← payload_len_after_aead (plaintext.length + TAG_LEN)
  let header_bytes := (Header.new flags payload_len).encode
  let keys := DerivedKeys.derive C master_key
  let ciphertext ← aead_seal C keys.enc.toList nonce header_bytes plaintext
  let packet := header_bytes ++ nonce.toList ++ ciphertext
  let tag := C.hmac_sign keys.hmac.toList packet
  let packet := packet ++ tag.toList
  ensure (¬packet.length > MAX_PACKET_LEN) (.packetTooLong packet.length MAX_PACKET_LEN)
  pure packet

/-! ## Spec lemmas of the pieces -/

/-- The encoder succeeds exactly when the codec does and the plaintext is small enough. -/
theorem encode_eq_ok {p : SpaPayload} {b : Bytes} :
    encode M p = .ok b
      ↔ M.to_vec (PayloadData.serialize p) = .ok b ∧ b.length ≤ MAX_ENCODED_LEN := by
  simp only [encode]
  cases M.to_vec (PayloadData.serialize p) with
  | error e =>
      constructor
      · intro h
        cases h
      · rintro ⟨h, _⟩
        cases h
  | ok bytes =>
      simp only [bind_eq_ok, ensure_eq_ok, Nat.not_lt, pure_eq, Outcome.ok.injEq,
        Except.ok.injEq]
      constructor
      · rintro ⟨_, hle, rfl⟩
        exact ⟨rfl, hle⟩
      · rintro ⟨rfl, hle⟩
        exact ⟨(), hle, rfl⟩

/-- The nonce is the random source's. -/
theorem generate_nonce_eq_ok {rng : Option GcmNonce} {n : GcmNonce} :
    generate_nonce rng = .ok n ↔ rng = some n := by
  cases rng with
  | none => exact iff_of_false (fun h => nomatch h) (fun h => nomatch h)
  | some m => simp only [generate_nonce, Outcome.ok.injEq, Option.some.injEq]

/-- A derived key has the length the cipher asks for. -/
theorem aead_seal_subkey (key : SubKey) (n : GcmNonce) (aad b : Bytes) :
    aead_seal C key.toList n aad b = .ok (C.gcm_seal key.toList n aad b) := by
  have hk : key.toList.length = KEY_LEN := Vector.length_toList
  rw [aead_seal, ensure_of_pos _ hk, ok_bind, pure_eq]

/-- An encoded payload is far below what the length field holds. -/
theorem encoded_fits {b : Bytes} (hb : b.length ≤ MAX_ENCODED_LEN) :
    b.length + TAG_LEN < 65536 := by
  have h1024 : b.length ≤ 1024 := hb
  have h16 : TAG_LEN = 16 := rfl
  omega

/-- A plaintext the encoder let through has a length that fits the header. -/
theorem payload_len_of_encoded {b : Bytes} (hb : b.length ≤ MAX_ENCODED_LEN) :
    payload_len_after_aead (b.length + TAG_LEN) = .ok (UInt16.ofNat (b.length + TAG_LEN)) := by
  have hle : b.length + TAG_LEN ≤ 65535 := Nat.le_of_lt_succ (encoded_fits hb)
  rw [payload_len_after_aead, ensure_of_pos _ hle, ok_bind, pure_eq]

/-- **THE BUILDER WRITES THE GRAMMAR**: a built packet is the wire of its payload, for
    the bytes the codec gave and the nonce that was drawn. -/
theorem build_packet_eq_ok {rng : Option GcmNonce} {p : SpaPayload} {key w : Bytes} :
    build_packet C M rng p key = .ok w
      ↔ key.length = MASTER_KEY_LEN
        ∧ ∃ b n, M.to_vec (PayloadData.serialize p) = .ok b ∧ b.length ≤ MAX_ENCODED_LEN
          ∧ rng = some n ∧ w = grammar_wire C key p n b ∧ w.length ≤ MAX_PACKET_LEN := by
  simp only [build_packet, bind_eq_ok, ensure_eq_ok, encode_eq_ok, generate_nonce_eq_ok,
    aead_seal_subkey, pure_eq, Outcome.ok.injEq, Nat.not_lt]
  constructor
  · rintro ⟨_, hkey, b, ⟨hb, hlen⟩, n, hn, len, hl, c, rfl, _, hmax, rfl⟩
    rw [payload_len_of_encoded hlen] at hl
    obtain rfl := Outcome.ok.inj hl
    exact ⟨hkey, b, n, hb, hlen, hn, rfl, hmax⟩
  · rintro ⟨hkey, b, n, hb, hlen, hn, rfl, hmax⟩
    exact ⟨(), hkey, b, ⟨hb, hlen⟩, n, hn, _, payload_len_of_encoded hlen, _, rfl, (), hmax, rfl⟩

/-! ## What survives the address texts -/

/-- The message after its addresses went through their texts. -/
def carriedMessage : SpaMessage → SpaMessage
  | .nat source_ip ports nat_dest => .nat source_ip ports (without_flowinfo nat_dest)
  | .localNat source_ip ports nat_dest => .localNat source_ip ports (without_flowinfo nat_dest)
  | m => m

/-- What arrives of a payload. -/
def carried (p : SpaPayload) : SpaPayload := { p with message := carriedMessage p.message }

/-- An address survives its text. -/
theorem serde_ip_round_trip (ip : IpAddr) :
    serde_ip.deserialize (serde_ip.serialize ip) = .ok ip := by
  rw [serde_ip.deserialize, serde_ip.serialize, ip_round_trip]

/-- A socket address survives it but for the flow label. -/
theorem serde_sock_round_trip (addr : SocketAddr) :
    serde_sock.deserialize (serde_sock.serialize addr) = .ok (without_flowinfo addr) := by
  rw [serde_sock.deserialize, serde_sock.serialize, sock_round_trip]

/-- So does a message with either of them. -/
theorem message_round_trip (m : SpaMessage) :
    (MessageData.serialize m).deserialize = .ok (carriedMessage m) := by
  cases m with
  | access source_ip ports =>
      simp only [MessageData.serialize, MessageData.deserialize, serde_ip_round_trip]
      rfl
  | nat source_ip ports nat_dest =>
      simp only [MessageData.serialize, MessageData.deserialize, serde_ip_round_trip,
        serde_sock_round_trip]
      rfl
  | localNat source_ip ports nat_dest =>
      simp only [MessageData.serialize, MessageData.deserialize, serde_ip_round_trip,
        serde_sock_round_trip]
      rfl
  | command source_ip command =>
      simp only [MessageData.serialize, MessageData.deserialize, serde_ip_round_trip]
      rfl

/-- And the payload around it. -/
theorem data_round_trip (p : SpaPayload) :
    (PayloadData.serialize p).deserialize = .ok (carried p) := by
  simp only [PayloadData.deserialize, PayloadData.serialize, message_round_trip]
  rfl

/-- The flags do not see what is lost. -/
theorem expected_flags_carried (p : SpaPayload) :
    expected_flags (carried p) = expected_flags p := by
  simp only [expected_flags, carried]
  cases p.message <;> rfl

/-- The one field that can lose something. -/
def nat_dest : SpaMessage → Option SocketAddr
  | .nat _ _ nat_dest | .localNat _ _ nat_dest => some nat_dest
  | .access .. | .command .. => none

/-- Nothing is lost exactly where there was no flow label. -/
theorem without_flowinfo_eq_self_iff (addr : SocketAddr) :
    without_flowinfo addr = addr
      ↔ ∀ ip port flowinfo scope_id, addr = .v6 ip port flowinfo scope_id → flowinfo = 0 := by
  cases addr with
  | v4 ip port => exact iff_of_true rfl (fun _ _ _ _ h => nomatch h)
  | v6 ip port flowinfo scope_id =>
      constructor
      · intro h ip' port' flowinfo' scope_id' heq
        cases heq
        injection h with _ _ hflow _
        exact hflow.symm
      · intro h
        rw [h ip port flowinfo scope_id rfl]
        rfl

/-- Only a flow label is lost. -/
theorem carried_eq_self_iff (p : SpaPayload) :
    carried p = p
      ↔ ∀ ip port flowinfo scope_id,
          nat_dest p.message = some (.v6 ip port flowinfo scope_id) → flowinfo = 0 := by
  have hmsg : carried p = p ↔ carriedMessage p.message = p.message := by
    constructor
    · intro h
      exact congrArg SpaPayload.message h
    · intro h
      rw [carried, h]
  rw [hmsg]
  cases p.message with
  | access source_ip ports => exact iff_of_true rfl (fun _ _ _ _ h => nomatch h)
  | command source_ip command => exact iff_of_true rfl (fun _ _ _ _ h => nomatch h)
  | nat source_ip ports dest =>
      simp only [carriedMessage, nat_dest, SpaMessage.nat.injEq, true_and, Option.some.injEq]
      exact without_flowinfo_eq_self_iff dest
  | localNat source_ip ports dest =>
      simp only [carriedMessage, nat_dest, SpaMessage.localNat.injEq, true_and,
        Option.some.injEq]
      exact without_flowinfo_eq_self_iff dest

/-! ## The round trip -/

variable {C M}

/-- Decoding an encoded payload is the check the encoder left out. -/
theorem decode_encoded (L : ChannelLaws C M) {p : SpaPayload} {b : Bytes}
    (hb : M.to_vec (PayloadData.serialize p) = .ok b) :
    decode C b = validate_structure p >>= fun _ => .ok (carried p) := by
  have hr : C.rmp_from_slice b = .ok (carried p) :=
    L.reads b _ _ (L.from_slice_to_vec _ _ hb) (data_round_trip p)
  simp only [decode, from_slice, hr, ok_bind, pure_eq]
  -- the checks read the username, which no text changed
  rfl

/-- The parser on the parts of a grammatical wire: only the payload's own decoding is
    left to fail. -/
theorem parse_grammar_parts (L : ChannelLaws C M) (key : Bytes) (p : SpaPayload) (n : GcmNonce)
    {b : Bytes} (hb : b.length ≤ MAX_ENCODED_LEN) :
    parse_parts C key (grammar_parts C key p n b)
      = decode C b >>= fun p' =>
          check_flags_match_payload (expected_flags p) p' >>= fun _ => pure p' := by
  have hseal : (grammar_parts C key p n b).sealed.length = b.length + TAG_LEN :=
    L.seal_length _ _ _ _
  obtain ⟨hdec, hlen, -⟩ := (decode_grammar_header_iff (p := p) (Header.encode_length _)
    (encoded_fits hb)).mpr ⟨rfl, rfl⟩
  have hver : hmac_verify C (DerivedKeys.derive C key).hmac.toList
      (grammar_parts C key p n b).signed (grammar_parts C key p n b).tag = .ok () :=
    (hmac_verify_eq_ok C).mpr ⟨Vector.length_toList, L.verify_sign _ _⟩
  have hopen : aead_open C (DerivedKeys.derive C key).enc.toList n
      (grammar_parts C key p n b).header (grammar_parts C key p n b).sealed = .ok b :=
    (aead_open_eq_ok C).mpr ⟨Vector.length_toList, by omega, L.open_seal _ _ _ _⟩
  simp only [parse_parts]
  -- tag, header, length field and seal are the builder's own, check by check
  rw [hver, ok_bind]
  show (Header.decode (grammar_header p b).encode >>= _) = _
  rw [hdec, ok_bind, ensure_of_pos _ (hseal.trans hlen), ok_bind]
  show (aead_open C _ n _ _ >>= _) = _
  rw [hopen, ok_bind]
  rfl

/-- **WHAT ARRIVES**: a built packet is parsed to the payload that survived the address
    texts, if that passes the checks the builder did not make. -/
theorem parse_built (L : ChannelLaws C M) {rng : Option GcmNonce} {p : SpaPayload}
    {key w : Bytes} (h : build_packet C M rng p key = .ok w) :
    parse_packet C w key = validate_structure p >>= fun _ => .ok (carried p) := by
  obtain ⟨hkey, b, n, hb, hlen, -, rfl, hmax⟩ := (build_packet_eq_ok C M).mp h
  have hseal : TAG_LEN ≤ (grammar_parts C key p n b).sealed.length := by
    show TAG_LEN ≤ (C.gcm_seal _ _ _ _).length
    rw [L.seal_length]
    omega
  have hflags : check_flags_match_payload (expected_flags p) (carried p) = .ok () :=
    ensure_of_pos _ (by rw [expected_flags_carried])
  rw [← grammar_parts_wire] at hmax ⊢
  rw [parse_packet_eq C (grammar_parts_fits key p n b) hseal hmax hkey,
    parse_grammar_parts L key p n hlen, decode_encoded L hb]
  cases validate_structure p with
  | ok u => rw [ok_bind, ok_bind, hflags, ok_bind, pure_eq]
  | err e => rfl
  | panic => rfl

/-- What a user name must be, in bytes and characters. -/
theorem validate_structure_eq_ok {p : SpaPayload} {u : Unit} :
    validate_structure p = .ok u
      ↔ p.username.utf8ByteSize ≤ MAX_USERNAME_LEN
        ∧ ∀ c ∈ p.username.toList, is_ascii_graphic c = true ∨ c = ' ' := by
  simp only [validate_structure, bind_eq_ok, ensure_eq_ok, Nat.not_lt, List.all_eq_true,
    Bool.or_eq_true, beq_iff_eq, exists_const]

/-- **WHAT THE DAEMON CAN READ**: of everything the client can build, the parser gives
    back exactly the payloads whose username is at most 64 bytes of printable ASCII and
    whose NAT destination has no flow label. -/
theorem round_trip_iff (L : ChannelLaws C M) (rng : Option GcmNonce) (p : SpaPayload)
    (key w : Bytes) (h : build_packet C M rng p key = .ok w) :
    parse_packet C w key = .ok p
      ↔ p.username.utf8ByteSize ≤ 64
        ∧ (∀ c ∈ p.username.toList, is_ascii_graphic c = true ∨ c = ' ')
        ∧ ∀ ip port flowinfo scope_id,
            nat_dest p.message = some (.v6 ip port flowinfo scope_id) → flowinfo = 0 := by
  rw [parse_built L h, bind_eq_ok, ← carried_eq_self_iff, ← and_assoc]
  constructor
  · rintro ⟨u, hu, hp⟩
    exact ⟨validate_structure_eq_ok.mp hu, Outcome.ok.inj hp⟩
  · rintro ⟨hu, hp⟩
    exact ⟨(), validate_structure_eq_ok.mpr hu, congrArg Outcome.ok hp⟩

/-! ## An instance of the laws -/

/-- The codec on a row: one payload's data against one plaintext. -/
def codec (r : Row) : RmpSerde where
  to_vec d :=
    if d = PayloadData.serialize r.payload then .ok r.plaintext
    else .error "invalid value write error"
  from_slice b :=
    if b = r.plaintext then .ok (PayloadData.serialize r.payload)
    else .error "invalid type: integer, expected struct SpaPayload"

/-- A row whose recorded payload is what its own texts give back obeys the laws. -/
theorem row_laws {r : Row} (hr : carried r.payload = r.payload) :
    ChannelLaws r.crypto (codec r) where
  verify_sign key msg := (r.crypto_laws.verify_iff key msg _).mpr rfl
  open_seal key n aad b := (r.crypto_laws.open_iff key n aad _ b).mpr rfl
  seal_length := r.crypto_laws.seal_length
  from_slice_to_vec d b h := by
    simp only [codec] at h ⊢
    by_cases hd : d = PayloadData.serialize r.payload
    · rw [if_pos hd] at h
      obtain rfl := Except.ok.inj h
      rw [if_pos rfl, hd]
    · rw [if_neg hd] at h
      exact nomatch h
  reads b d p hb hd := by
    simp only [codec] at hb
    by_cases hbp : b = r.plaintext
    · rw [if_pos hbp] at hb
      obtain rfl := Except.ok.inj hb
      rw [data_round_trip, hr] at hd
      obtain rfl := Except.ok.inj hd
      exact if_pos hbp
    · rw [if_neg hbp] at hb
      exact nomatch hb

/-- The recorded packet is built and parsed back. -/
theorem alice_round_trip :
    ChannelLaws sampleRow.crypto (codec sampleRow)
      ∧ build_packet sampleRow.crypto (codec sampleRow) (some sampleRow.nonce)
          sampleRow.payload sampleRow.master = .ok sampleRow.wire
      ∧ parse_packet sampleRow.crypto sampleRow.wire sampleRow.master
          = .ok sampleRow.payload :=
  have hb : build_packet sampleRow.crypto (codec sampleRow) (some sampleRow.nonce)
      sampleRow.payload sampleRow.master = .ok sampleRow.wire := by decide +kernel
  have hu : validate_structure sampleRow.payload = .ok () := by decide
  have ⟨hlen, hchars⟩ := validate_structure_eq_ok.mp hu
  ⟨row_laws rfl, hb,
    (round_trip_iff (row_laws rfl) _ _ _ _ hb).mpr
      ⟨hlen, hchars, fun _ _ _ _ h => nomatch h⟩⟩

/-- alice's request with a control byte in the username. -/
def bellRow : Row :=
  { sampleRow with
    header := [0x01, 0x00, 0x00, 0x4a]
    plaintext :=
      [0x95, 0xdc, 0x00, 0x10, 0x01, 0x02, 0x03, 0x04, 0x05, 0x06, 0x07, 0x08, 0x09, 0x0a, 0x0b,
       0x0c, 0x0d, 0x0e, 0x0f, 0x10, 0xce, 0x65, 0x53, 0xf1, 0x00, 0xa6, 0x61, 0x6c, 0x69, 0x63,
       0x65, 0x07, 0x93, 0xa6, 0x61, 0x63, 0x63, 0x65, 0x73, 0x73, 0xa9, 0x31, 0x39, 0x32, 0x2e,
       0x30, 0x2e, 0x32, 0x2e, 0x37, 0x91, 0x92, 0xa3, 0x74, 0x63, 0x70, 0x16, 0xc0]
    sealed :=
      [0xcd, 0xc7, 0x86, 0x49, 0x0b, 0x84, 0x34, 0x1f, 0x46, 0xfd, 0xc9, 0x8e, 0x28, 0x3a, 0x29,
       0x4b, 0x47, 0x00, 0x8c, 0xa1, 0x26, 0xe2, 0xec, 0x1f, 0xa5, 0x19, 0xde, 0xcb, 0x00, 0xaa,
       0xfc, 0x69, 0x94, 0x94, 0xdb, 0xa8, 0x56, 0xc6, 0xe2, 0x9b, 0x47, 0x96, 0x2d, 0xa2, 0x2d,
       0x61, 0x67, 0xe1, 0x0a, 0xd0, 0xca, 0x15, 0xfd, 0xc8, 0xe1, 0xd8, 0xd1, 0x24, 0x91, 0x99,
       0x82, 0x65, 0x70, 0x96, 0x55, 0x46, 0xd1, 0xd5, 0x6f, 0x6b, 0x8d, 0x67, 0x83, 0x4b]
    tag :=
      #v[0x7c, 0x0b, 0x8b, 0x0c, 0x58, 0xe2, 0xc9, 0xbc, 0x54, 0x08, 0xe1, 0x84, 0x28, 0x27, 0x9e,
       0x0b, 0x62, 0xa2, 0x2b, 0x88, 0xbd, 0x15, 0xb3, 0x09, 0x47, 0x76, 0xd1, 0xfc, 0x3f, 0xc8,
       0x7c, 0xf1]
    payload := { sampleRow.payload with username := "alice\x07" }
    sealed_length := rfl }

/-- A NAT request whose destination has the given flow label. -/
def forwarded (flowinfo : UInt32) : SpaMessage :=
  .nat (.v4 sampleIp) [⟨.tcp, 22⟩]
    (.v6 #v[0x20, 0x01, 0x0d, 0xb8, 0, 0, 0, 0, 0, 0, 0, 0, 0, 0, 0, 1] 22 flowinfo 0)

/-- alice asks for `tcp/22` to be forwarded to `[2001:db8::1]:22`. -/
def natRow : Row :=
  { sampleRow with
    header := [0x01, 0x01, 0x00, 0x57]
    plaintext :=
      [0x95, 0xdc, 0x00, 0x10, 0x01, 0x02, 0x03, 0x04, 0x05, 0x06, 0x07, 0x08, 0x09, 0x0a, 0x0b,
       0x0c, 0x0d, 0x0e, 0x0f, 0x10, 0xce, 0x65, 0x53, 0xf1, 0x00, 0xa5, 0x61, 0x6c, 0x69, 0x63,
       0x65, 0x94, 0xa3, 0x6e, 0x61, 0x74, 0xa9, 0x31, 0x39, 0x32, 0x2e, 0x30, 0x2e, 0x32, 0x2e,
       0x37, 0x91, 0x92, 0xa3, 0x74, 0x63, 0x70, 0x16, 0xb0, 0x5b, 0x32, 0x30, 0x30, 0x31, 0x3a,
       0x64, 0x62, 0x38, 0x3a, 0x3a, 0x31, 0x5d, 0x3a, 0x32, 0x32, 0xc0]
    sealed :=
      [0xcd, 0xc7, 0x86, 0x49, 0x0b, 0x84, 0x34, 0x1f, 0x46, 0xfd, 0xc9, 0x8e, 0x28, 0x3a, 0x29,
       0x4b, 0x47, 0x00, 0x8c, 0xa1, 0x26, 0xe2, 0xec, 0x1f, 0xa5, 0x1a, 0xde, 0xcb, 0x00, 0xaa,
       0xfc, 0xfa, 0xa4, 0x5c, 0xdb, 0xbf, 0x9c, 0x92, 0xa8, 0xda, 0xc0, 0x97, 0x3a, 0xa2, 0x2d,
       0x66, 0xd8, 0x41, 0x87, 0x93, 0x38, 0xf7, 0x48, 0x0c, 0xd9, 0x9a, 0xf7, 0xd4, 0x9a, 0xc7,
       0x04, 0x95, 0x35, 0xe1, 0x36, 0xb0, 0x96, 0xbf, 0x7f, 0x7b, 0xcc, 0x65, 0xdc, 0x72, 0x0a,
       0x0c, 0xae, 0x13, 0xc7, 0x7a, 0xc5, 0xad, 0xb1, 0x5b, 0x52, 0xfd, 0x59]
    tag :=
      #v[0xfe, 0xa2, 0x74, 0x62, 0x47, 0x29, 0xb2, 0xce, 0x2f, 0x03, 0xdf, 0xbc, 0x14, 0x18, 0x9d,
       0xff, 0xfe, 0xa6, 0x73, 0x99, 0x8e, 0xd4, 0xe3, 0x29, 0x17, 0x83, 0xfc, 0x15, 0x07, 0xd4,
       0x80, 0x1f]
    payload := { sampleRow.payload with message := forwarded 0 }
    sealed_length := rfl }

/-- The client builds both requests: the parser refuses the first, and gives the second
    back without its flow label. -/
theorem built_but_not_read_back :
    (ChannelLaws bellRow.crypto (codec bellRow)
      ∧ build_packet bellRow.crypto (codec bellRow) (some bellRow.nonce) bellRow.payload
          bellRow.master = .ok bellRow.wire
      ∧ parse_packet bellRow.crypto bellRow.wire bellRow.master
          = .err (.invalidField "username contains control bytes"))
    ∧ ChannelLaws natRow.crypto (codec natRow)
      ∧ build_packet natRow.crypto (codec natRow) (some natRow.nonce)
          { natRow.payload with message := forwarded 7 } natRow.master = .ok natRow.wire
      ∧ parse_packet natRow.crypto natRow.wire natRow.master = .ok natRow.payload
      ∧ natRow.payload ≠ { natRow.payload with message := forwarded 7 } := by
  refine ⟨⟨row_laws rfl, ?_, ?_⟩, row_laws rfl, ?_, ?_, ?_⟩ <;> decide +kernel

end FwknoxBuild
