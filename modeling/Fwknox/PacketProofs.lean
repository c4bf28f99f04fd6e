import Fwknox.HeaderProofs
import Mathlib.Logic.Equiv.Basic

/-! # Packets — the parser accepts exactly its wire grammar

    `packet.rs` with what it calls in `aead.rs`, `hmac.rs`, `kdf.rs` and
    `payload.rs`.  The primitives of `ring` and the MessagePack codec are not part
    of the repository: they are the fields of `Crypto`, and what the protocol
    relies on is `CryptoLaws`.

    The parser is written over checked slices, so that a wrong offset would be a
    panic of the model.  `parse_packet_eq` first pins every offset down for wires
    of an admissible length; the grammar theorem is then a statement about plain
    concatenation. -/

namespace FwknoxPacket

open FwknoxTypes FwknoxHeader CheckedSlice CheckedSlice.Outcome

/-- The GCM nonce. -/
def NONCE_LEN : Nat := 12

/-- The GCM tag. -/
def TAG_LEN : Nat := 16

/-- The HMAC-SHA256 tag. -/
def HMAC_LEN : Nat := 32

/-- What HKDF is asked for. -/
def SUBKEY_LEN : Nat := 32

/-- An AES-256 key. -/
def KEY_LEN : Nat := 32

/-- The key of a stanza. -/
def MASTER_KEY_LEN : Nat := 32

/-- The largest datagram the parser takes. -/
def MAX_PACKET_LEN : Nat := 1500

/-- A packet around an empty plaintext. -/
def MIN_PACKET_LEN : Nat := HEADER_LEN + NONCE_LEN + TAG_LEN + HMAC_LEN

/-- In bytes of UTF-8. -/
def MAX_USERNAME_LEN : Nat := 64

/-- The salt of the encryption key. -/
def ENC_SALT : Bytes := "fwknox-enc-v1".toUTF8.toList

/-- The salt of the authentication key. -/
def HMAC_SALT : Bytes := "fwknox-hmac-v1".toUTF8.toList

/-- The info string of the encryption key. -/
def ENC_INFO : Bytes := "encryption".toUTF8.toList

/-- The info string of the authentication key. -/
def HMAC_INFO : Bytes := "authentication".toUTF8.toList

/-- A key HKDF derives. -/
abbrev SubKey := Vector UInt8 SUBKEY_LEN

/-- The nonce of one sealed payload. -/
abbrev GcmNonce := Vector UInt8 NONCE_LEN

/-- The primitives the protocol crate calls outside the repository. -/
structure Crypto where
  /-- HKDF-SHA256 of a salt, a master key and an info string, 32 bytes out.
      (`expand` fails only past 255 blocks, so it is total here.) -/
  hkdf : Bytes → Bytes → Bytes → SubKey
  /-- HMAC-SHA256 under a key. -/
  hmac_sign : Bytes → Bytes → Vector UInt8 HMAC_LEN
  /-- The constant-time tag check. -/
  hmac_verify : Bytes → Bytes → Bytes → Bool
  /-- AES-256-GCM with the tag appended. -/
  gcm_seal : Bytes → GcmNonce → Bytes → Bytes → Bytes
  gcm_open : Bytes → GcmNonce → Bytes → Bytes → Option Bytes
  /-- The MessagePack codec at the payload type. -/
  rmp_from_slice : Bytes → Except String SpaPayload

/-- What the protocol relies on. -/
structure CryptoLaws (C : Crypto) : Prop where
  verify_iff : ∀ key msg tag,
    C.hmac_verify key msg tag = true ↔ tag = (C.hmac_sign key msg).toList
  open_iff : ∀ key n aad c b,
    C.gcm_open key n aad c = some b ↔ c = C.gcm_seal key n aad b
  seal_length : ∀ key n aad b, (C.gcm_seal key n aad b).length = b.length + TAG_LEN

/-- One key to encrypt, one to authenticate. -/
structure DerivedKeys where
  enc : SubKey
  hmac : SubKey

variable (C : Crypto)

/-! ## The pieces -/

/-- Both keys come from the master key, under different salts. -/
def DerivedKeys.derive (master_key : Bytes) : DerivedKeys where
  enc := C.hkdf ENC_SALT master_key ENC_INFO
  hmac := C.hkdf HMAC_SALT master_key HMAC_INFO

/-- `hmac::verify`. -/
def hmac_verify (key message tag : Bytes) : Outcome ProtoError Unit := do
  ensure (tag.length = HMAC_LEN) .hmacFailed
  ensure (C.hmac_verify key message tag = true) .hmacFailed

/-- `aead::open`. -/
def aead_open (key : Bytes) (nonce : GcmNonce) (aad ciphertext_and_tag : Bytes) :
    Outcome ProtoError Bytes := do
  ensure (key.length = KEY_LEN) .aeadFailed
  ensure (¬ciphertext_and_tag.length < TAG_LEN) .aeadFailed
  match C.gcm_open key nonce aad ciphertext_and_tag with
  | some plaintext => pure plaintext
  | none => .err .aeadFailed

/-- `'!'..='~'`. -/
def is_ascii_graphic (c : Char) : Bool := 0x21 ≤ c.toNat && c.toNat ≤ 0x7e

/-- A user name is short and printable. -/
def validate_structure (p : SpaPayload) : Outcome ProtoError Unit := do
  ensure (¬p.username.utf8ByteSize > MAX_USERNAME_LEN) (.invalidField "username too long")
  ensure (p.username.toList.all (fun c => is_ascii_graphic c || c == ' ') = true)
    (.invalidField "username contains control bytes")

/-- `rmp_serde::from_slice`, its error folded into the crate's. -/
def from_slice (bytes : Bytes) : Outcome ProtoError SpaPayload :=
  match C.rmp_from_slice bytes with
  | .ok payload => .ok payload
  | .error e => .err (.payloadDecode e)

/-- `SpaPayload::decode`. -/
def decode (bytes : Bytes) : Outcome ProtoError SpaPayload := do
  let payload ← from_slice C bytes
  validate_structure payload
  pure payload

/-- One flag for the kind of message, one for a timeout. -/
def derive_flags (message : SpaMessage) (has_client_timeout : Bool) : Flags :=
  let flags := match message with
    | .access .. => Flags.new
    | .nat .. | .localNat .. => Flags.new.set Flags.NAT
    | .command .. => Flags.new.set Flags.COMMAND
  if has_client_timeout then flags.set Flags.CLIENT_TIMEOUT else flags

/-- The flags a payload's header must carry. -/
def expected_flags (p : SpaPayload) : Flags := derive_flags p.message p.client_timeout.isSome

/-- The header says what the payload is, exactly. -/
def check_flags_match_payload (flags : Flags) (payload : SpaPayload) :
    Outcome ProtoError Unit :=
  ensure (flags.raw = (expected_flags payload).raw) (.invalidField "flag/payload mismatch")

/-- `usize` subtraction, which must not underflow. -/
def usize_sub (a b : Nat) : Outcome ProtoError Nat := if b ≤ a then .ok (a - b) else .panic

/-- `parse_packet`: HMAC first, then header, length, AEAD, payload, flags. -/
def parse_packet (wire master_key : Bytes) : Outcome ProtoError SpaPayload := do
  ensure (master_key.length = MASTER_KEY_LEN) (.invalidField "master_key must be 32 bytes")
  ensure (¬wire.length < MIN_PACKET_LEN) (.packetTooShort wire.length MIN_PACKET_LEN)
  ensure (¬wire.length > MAX_PACKET_LEN) (.packetTooLong wire.length MAX_PACKET_LEN)
  let (signed, tag) ← split_at wire (← usize_sub wire.length HMAC_LEN)
  let keys := DerivedKeys.derive C master_key
  hmac_verify C keys.hmac.toList signed tag
  let header ← Header.decode (← slice signed 0 HEADER_LEN)
  let header_bytes ← slice signed 0 HEADER_LEN
  let nonce_bytes ← slice signed HEADER_LEN (HEADER_LEN + NONCE_LEN)
  let ciphertext ← slice signed (HEADER_LEN + NONCE_LEN) signed.length
  ensure (ciphertext.length = header.payload_len.toNat) (.invalidField "payload_len mismatch")
  let nonce ← copy_from_slice NONCE_LEN nonce_bytes
  let plaintext ← aead_open C keys.enc.toList nonce header_bytes ciphertext
  let payload ← decode C plaintext
  check_flags_match_payload header.flags payload
  pure payload

/-! ## Spec lemmas of the pieces -/

/-- A tag is accepted when it has its length and the primitive accepts it. -/
theorem hmac_verify_eq_ok {key msg tag : Bytes} {u : Unit} :
    hmac_verify C key msg tag = .ok u
      ↔ tag.length = HMAC_LEN ∧ C.hmac_verify key msg tag = true := by
  simp [hmac_verify, bind_eq_ok]

/-- A bad tag is an error. -/
theorem hmac_verify_ne_panic (key msg tag : Bytes) : hmac_verify C key msg tag ≠ .panic :=
  bind_ne_panic ensure_ne_panic (fun _ _ => ensure_ne_panic)

/-- A payload opens when key and ciphertext have their lengths and the primitive opens it. -/
theorem aead_open_eq_ok {key : Bytes} {n : GcmNonce} {aad c b : Bytes} :
    aead_open C key n aad c = .ok b
      ↔ key.length = KEY_LEN ∧ TAG_LEN ≤ c.length ∧ C.gcm_open key n aad c = some b := by
  unfold aead_open
  cases C.gcm_open key n aad c <;> simp [bind_eq_ok]

/-- A ciphertext that does not open is an error. -/
theorem aead_open_ne_panic (key : Bytes) (n : GcmNonce) (aad c : Bytes) :
    aead_open C key n aad c ≠ .panic := by
  refine bind_ne_panic ensure_ne_panic (fun _ _ => bind_ne_panic ensure_ne_panic ?_)
  intro _ _
  cases C.gcm_open key n aad c with
  | some b => exact fun h => nomatch h
  | none => exact fun h => nomatch h

/-- A bad user name is an error. -/
theorem validate_structure_ne_panic (p : SpaPayload) : validate_structure p ≠ .panic :=
  bind_ne_panic ensure_ne_panic (fun _ _ => ensure_ne_panic)

/-- Plaintext that is no payload is an error. -/
theorem payload_decode_ne_panic (b : Bytes) : decode C b ≠ .panic := by
  refine bind_ne_panic ?_ (fun p _ => bind_ne_panic (validate_structure_ne_panic p) ?_)
  · unfold from_slice
    cases C.rmp_from_slice b with
    | ok p => exact fun h => nomatch h
    | error e => exact fun h => nomatch h
  · intro _ _ h
    exact nomatch h

/-- Only four of the eight flag bits are defined, and `ASYMMETRIC` is never
    expected. -/
theorem expected_flags_bits (p : SpaPayload) :
    (expected_flags p).bits &&& ~~~Flags.ALL_DEFINED = 0
      ∧ (expected_flags p).bits &&& Flags.ASYMMETRIC = 0 := by
  unfold expected_flags derive_flags
  cases p.message <;> cases p.client_timeout.isSome <;> dsimp only <;> decide

/-! ## The offsets -/

/-- The bytes a packet carries: header, GCM nonce, sealed payload, tag. -/
structure Parts where
  header : Bytes
  nonce : GcmNonce
  sealed : Bytes
  tag : Bytes

/-- Header, nonce and sealed payload: what the tag signs. -/
def Parts.signed (q : Parts) : Bytes := q.header ++ q.nonce.toList ++ q.sealed

/-- The datagram: what is signed, and the tag. -/
def Parts.wire (q : Parts) : Bytes := q.signed ++ q.tag

/-- The lengths every admissible wire splits into. -/
def Parts.Fits (q : Parts) : Prop :=
  q.header.length = HEADER_LEN ∧ q.tag.length = HMAC_LEN

/-- What remains of `parse_packet` once the wire is split. -/
def parse_parts (master_key : Bytes) (q : Parts) : Outcome ProtoError SpaPayload := do
  let keys := DerivedKeys.derive C master_key
  hmac_verify C keys.hmac.toList q.signed q.tag
  let header ← Header.decode q.header
  ensure (q.sealed.length = header.payload_len.toNat) (.invalidField "payload_len mismatch")
  let plaintext ← aead_open C keys.enc.toList q.nonce q.header q.sealed
  let payload ← decode C plaintext
  check_flags_match_payload header.flags payload
  pure payload

/-- Every wire long enough to carry a tag and a nonce splits, in one way. -/
theorem exists_parts {wire : Bytes} (h : MIN_PACKET_LEN ≤ wire.length) :
    ∃ q : Parts, q.Fits ∧ TAG_LEN ≤ q.sealed.length ∧ wire = q.wire := by
  have hmin : 64 ≤ wire.length := h
  have hn : ((wire.drop 4).take 12).length = NONCE_LEN := by
    rw [List.length_take, List.length_drop]
    show min 12 (wire.length - 4) = 12
    omega
  refine ⟨⟨wire.take 4, ⟨((wire.drop 4).take 12).toArray, List.size_toArray.trans hn⟩,
    (wire.take (wire.length - 32)).drop 16, wire.drop (wire.length - 32)⟩, ⟨?_, ?_⟩, ?_, ?_⟩
  · show (wire.take 4).length = 4
    rw [List.length_take]
    omega
  · show (wire.drop (wire.length - 32)).length = 32
    rw [List.length_drop]
    omega
  · show 16 ≤ ((wire.take (wire.length - 32)).drop 16).length
    rw [List.length_drop, List.length_take]
    omega
  · show wire = (wire.take 4 ++ (wire.drop 4).take 12
        ++ (wire.take (wire.length - 32)).drop 16) ++ wire.drop (wire.length - 32)
    have h16 : wire.take 4 ++ (wire.drop 4).take 12 = (wire.take (wire.length - 32)).take 16 := by
      rw [List.take_take, Nat.min_eq_left (by omega), ← List.take_add]
    rw [h16, List.take_append_drop, List.take_append_drop]

section Offsets

variable {q : Parts}

/-- How much the tag signs. -/
theorem Parts.signed_length (hfit : q.Fits) :
    q.signed.length = HEADER_LEN + NONCE_LEN + q.sealed.length := by
  simp only [Parts.signed, List.length_append, Vector.length_toList, hfit.1]

/-- How long the datagram is. -/
theorem Parts.wire_length (hfit : q.Fits) :
    q.wire.length = HEADER_LEN + NONCE_LEN + q.sealed.length + HMAC_LEN := by
  rw [Parts.wire, List.length_append, Parts.signed_length hfit, hfit.2]

/-- The subtraction that finds the tag does not underflow. -/
theorem usize_sub_wire (hfit : q.Fits) :
    usize_sub q.wire.length HMAC_LEN = .ok q.signed.length := by
  rw [Parts.wire_length hfit, Parts.signed_length hfit]
  exact (if_pos (Nat.le_add_left _ _)).trans (by rw [Nat.add_sub_cancel])

/-- The tag is split off where it begins. -/
theorem split_at_wire :
    (split_at q.wire q.signed.length : Outcome ProtoError _) = .ok (q.signed, q.tag) := by
  rw [split_at_of_le (by rw [Parts.wire, List.length_append]; omega), Parts.wire,
    List.take_left, List.drop_left]

/-- The first slice is the header. -/
theorem slice_header (hfit : q.Fits) :
    (slice q.signed 0 HEADER_LEN : Outcome ProtoError _) = .ok q.header := by
  rw [slice_of_le (Nat.zero_le _) (by rw [Parts.signed_length hfit]; omega)]
  rw [Parts.signed, List.drop_zero, Nat.sub_zero, List.append_assoc, List.take_left' hfit.1]

/-- The second is the nonce. -/
theorem slice_nonce (hfit : q.Fits) :
    (slice q.signed HEADER_LEN (HEADER_LEN + NONCE_LEN) : Outcome ProtoError _)
      = .ok q.nonce.toList := by
  rw [slice_of_le (Nat.le_add_right _ _) (by rw [Parts.signed_length hfit]; omega)]
  rw [Parts.signed, List.append_assoc, List.drop_left' hfit.1, Nat.add_sub_cancel_left,
    List.take_left' Vector.length_toList]

/-- The rest is the sealed payload. -/
theorem slice_sealed (hfit : q.Fits) :
    (slice q.signed (HEADER_LEN + NONCE_LEN) q.signed.length : Outcome ProtoError _)
      = .ok q.sealed := by
  have hd : q.signed.drop (HEADER_LEN + NONCE_LEN) = q.sealed := by
    refine List.drop_left' ?_
    rw [List.length_append, Vector.length_toList, hfit.1]
  rw [slice_of_le (by rw [Parts.signed_length hfit]; omega) (Nat.le_refl _), hd,
    List.take_of_length_le (by rw [Parts.signed_length hfit]; omega)]

/-- The nonce's slice has the length of the array it is copied to. -/
theorem copy_nonce (n : GcmNonce) :
    (copy_from_slice NONCE_LEN n.toList : Outcome ProtoError _) = .ok n := by
  rw [copy_from_slice_of_length Vector.length_toList]
  exact congrArg Outcome.ok (Vector.toArray_inj.mp Array.toArray_toList)

/-- **OFFSETS**: on an admissible wire no slice is out of range, and the parser
    reads exactly the four parts. -/
theorem parse_packet_eq {key : Bytes} (hfit : q.Fits) (hseal : TAG_LEN ≤ q.sealed.length)
    (hmax : q.wire.length ≤ MAX_PACKET_LEN) (hkey : key.length = MASTER_KEY_LEN) :
    parse_packet C q.wire key = parse_parts C key q := by
  have hmin : ¬q.wire.length < MIN_PACKET_LEN := by
    rw [Parts.wire_length hfit, MIN_PACKET_LEN]
    omega
  unfold parse_packet parse_parts
  rw [ensure_of_pos _ hkey, ok_bind, ensure_of_pos _ hmin, ok_bind,
    ensure_of_pos _ (Nat.not_lt.mpr hmax), ok_bind, usize_sub_wire hfit, ok_bind,
    split_at_wire, ok_bind]
  simp only [slice_header hfit, slice_nonce hfit, slice_sealed hfit, copy_nonce, ok_bind]

end Offsets

/-- Off an admissible length the parser stops before it slices. -/
theorem parse_packet_bad_key {wire key : Bytes} (hkey : key.length ≠ MASTER_KEY_LEN) :
    parse_packet C wire key = .err (.invalidField "master_key must be 32 bytes") := by
  unfold parse_packet
  rw [ensure_of_neg _ hkey, err_bind]

/-- A short packet is refused before any cryptography. -/
theorem parse_packet_short {wire key : Bytes} (hkey : key.length = MASTER_KEY_LEN)
    (h : wire.length < MIN_PACKET_LEN) :
    parse_packet C wire key = .err (.packetTooShort wire.length MIN_PACKET_LEN) := by
  unfold parse_packet
  rw [ensure_of_pos _ hkey, ok_bind, ensure_of_neg _ (not_not.mpr h), err_bind]

/-- So is a long one. -/
theorem parse_packet_long {wire key : Bytes} (hkey : key.length = MASTER_KEY_LEN)
    (h : MAX_PACKET_LEN < wire.length) :
    parse_packet C wire key = .err (.packetTooLong wire.length MAX_PACKET_LEN) := by
  have hmin : ¬wire.length < MIN_PACKET_LEN := by
    have : (1500 : Nat) < wire.length := h
    simp only [MIN_PACKET_LEN, HEADER_LEN, NONCE_LEN, TAG_LEN, HMAC_LEN]
    omega
  unfold parse_packet
  rw [ensure_of_pos _ hkey, ok_bind, ensure_of_pos _ hmin, ok_bind,
    ensure_of_neg _ (not_not.mpr h), err_bind]

/-- The parser either stops on a length or works on the parts of its wire. -/
theorem parse_packet_cases (wire key : Bytes) :
    (key.length ≠ MASTER_KEY_LEN ∨ wire.length < MIN_PACKET_LEN ∨ MAX_PACKET_LEN < wire.length)
        ∧ (∃ e, parse_packet C wire key = .err e)
      ∨ (key.length = MASTER_KEY_LEN ∧ wire.length ≤ MAX_PACKET_LEN)
        ∧ ∃ q : Parts, q.Fits ∧ TAG_LEN ≤ q.sealed.length ∧ wire = q.wire
          ∧ parse_packet C wire key = parse_parts C key q := by
  by_cases hkey : key.length = MASTER_KEY_LEN
  · by_cases hmin : wire.length < MIN_PACKET_LEN
    · exact .inl ⟨.inr (.inl hmin), _, parse_packet_short C hkey hmin⟩
    · by_cases hmax : MAX_PACKET_LEN < wire.length
      · exact .inl ⟨.inr (.inr hmax), _, parse_packet_long C hkey hmax⟩
      · obtain ⟨q, hfit, hseal, rfl⟩ := exists_parts (Nat.not_lt.mp hmin)
        have hle : q.wire.length ≤ MAX_PACKET_LEN := Nat.not_lt.mp hmax
        exact .inr ⟨⟨hkey, hle⟩, q, hfit, hseal, rfl, parse_packet_eq C hfit hseal hle hkey⟩
  · exact .inl ⟨.inl hkey, _, parse_packet_bad_key C hkey⟩

/-- Once the wire is split nothing can panic. -/
theorem parse_parts_ne_panic {key : Bytes} {q : Parts} (hfit : q.Fits) :
    parse_parts C key q ≠ .panic := by
  refine bind_ne_panic (hmac_verify_ne_panic C _ _ _) (fun _ _ => ?_)
  refine bind_ne_panic (decode_ne_panic hfit.1) (fun _ _ => ?_)
  refine bind_ne_panic ensure_ne_panic (fun _ _ => ?_)
  refine bind_ne_panic (aead_open_ne_panic C _ _ _ _) (fun b _ => ?_)
  refine bind_ne_panic (payload_decode_ne_panic C b) (fun _ _ => ?_)
  refine bind_ne_panic ensure_ne_panic (fun _ _ h => ?_)
  exact nomatch h

/-- **NO PANIC**: no index of the parser is out of range on any input. -/
theorem parse_packet_ne_panic (wire key : Bytes) : parse_packet C wire key ≠ .panic := by
  rcases parse_packet_cases C wire key with ⟨_, e, he⟩ | ⟨_, q, hfit, _, _, hq⟩
  · rw [he]
    exact fun h => nomatch h
  · rw [hq]
    exact parse_parts_ne_panic C hfit

/-- Every check of the parser, on the parts. -/
theorem parse_parts_eq_ok {key : Bytes} {q : Parts} {p : SpaPayload} (hfit : q.Fits)
    (hseal : TAG_LEN ≤ q.sealed.length) :
    parse_parts C key q = .ok p
      ↔ C.hmac_verify (DerivedKeys.derive C key).hmac.toList q.signed q.tag = true
        ∧ ∃ h : Header, Header.decode q.header = .ok h
        ∧ q.sealed.length = h.payload_len.toNat
        ∧ ∃ b, C.gcm_open (DerivedKeys.derive C key).enc.toList q.nonce q.header q.sealed
            = some b
        ∧ decode C b = .ok p ∧ h.flags = expected_flags p := by
  have hk : (DerivedKeys.derive C key).enc.toList.length = KEY_LEN := Vector.length_toList
  unfold parse_parts
  simp only [bind_eq_ok, hmac_verify_eq_ok, aead_open_eq_ok, check_flags_match_payload,
    ensure_eq_ok, pure_eq, Outcome.ok.injEq, hfit.2, hk, hseal, true_and]
  constructor
  · rintro ⟨_, hv, h, hh, _, hl, b, hb, p', hp, _, hf, rfl⟩
    exact ⟨hv, h, hh, hl, b, hb, hp, congrArg Flags.mk hf⟩
  · rintro ⟨hv, h, hh, hl, b, hb, hp, hf⟩
    exact ⟨(), hv, h, hh, (), hl, b, hb, p, hp, (), congrArg Flags.raw hf, rfl⟩

/-! ## The wire grammar -/

/-- The header of a payload `p` whose plaintext is `b`. -/
def grammar_header (p : SpaPayload) (b : Bytes) : Header :=
  Header.new (derive_flags p.message p.client_timeout.isSome)
    (UInt16.ofNat (b.length + TAG_LEN))

/-- Header, nonce and sealed payload of `(n, b)` under a master key. -/
def grammar_signed (key : Bytes) (p : SpaPayload) (n : GcmNonce) (b : Bytes) : Bytes :=
  let h := (grammar_header p b).encode
  h ++ n.toList ++ C.gcm_seal (DerivedKeys.derive C key).enc.toList n h b

/-- The one wire of `(n, b)`: what is signed, then its tag. -/
def grammar_wire (key : Bytes) (p : SpaPayload) (n : GcmNonce) (b : Bytes) : Bytes :=
  grammar_signed C key p n b
    ++ (C.hmac_sign (DerivedKeys.derive C key).hmac.toList (grammar_signed C key p n b)).toList

variable {C}

/-- The header of a wire whose length field is right decodes to the grammar's. -/
theorem decode_grammar_header_iff {p : SpaPayload} {b bytes : Bytes} {h : Header}
    (hlen : bytes.length = HEADER_LEN) (hb : b.length + TAG_LEN < 65536) :
    (Header.decode bytes = .ok h ∧ b.length + TAG_LEN = h.payload_len.toNat
        ∧ h.flags = expected_flags p)
      ↔ bytes = (grammar_header p b).encode ∧ h = grammar_header p b := by
  have hof : (UInt16.ofNat (b.length + TAG_LEN)).toNat = b.length + TAG_LEN := by
    rw [UInt16.toNat_ofNat']
    exact Nat.mod_eq_of_lt hb
  rw [decode_eq_ok_iff hlen]
  constructor
  · rintro ⟨⟨rfl, hv, _⟩, hl, hf⟩
    have hh : h = grammar_header p b := by
      obtain ⟨version, flags, payload_len⟩ := h
      have hpl : payload_len = UInt16.ofNat (b.length + TAG_LEN) := by
        rw [hl, UInt16.ofNat_toNat]
      simp only at hv hf
      rw [hv, hf, hpl]
      rfl
    exact ⟨by rw [hh], hh⟩
  · rintro ⟨rfl, rfl⟩
    exact ⟨⟨rfl, rfl, (expected_flags_bits p).1⟩, hof.symm, rfl⟩

/-- On the parts, acceptance is membership in the grammar. -/
theorem parse_parts_grammar (L : CryptoLaws C) {key : Bytes} {q : Parts} {p : SpaPayload}
    (hfit : q.Fits) (hseal : TAG_LEN ≤ q.sealed.length) (hmax : q.wire.length ≤ MAX_PACKET_LEN) :
    parse_parts C key q = .ok p
      ↔ ∃ b, decode C b = .ok p ∧ q.sealed.length = b.length + TAG_LEN
          ∧ q.header = (grammar_header p b).encode
          ∧ q.signed = grammar_signed C key p q.nonce b
          ∧ q.wire = grammar_wire C key p q.nonce b := by
  -- the length fits the header's sixteen bits because the packet is short
  have hsmall : q.sealed.length < 65536 := by
    have hw : HEADER_LEN + NONCE_LEN + q.sealed.length + HMAC_LEN ≤ 1500 := by
      rw [← Parts.wire_length hfit]
      exact hmax
    omega
  rw [parse_parts_eq_ok C hfit hseal]
  constructor
  · rintro ⟨hv, h, hh, hl, b, hb, hp, hf⟩
    have hc := (L.open_iff _ _ _ _ _).mp hb
    have hcl : q.sealed.length = b.length + TAG_LEN := by rw [hc, L.seal_length]
    obtain ⟨hhdr, rfl⟩ := (decode_grammar_header_iff hfit.1 (hcl ▸ hsmall)).mp
      ⟨hh, hcl ▸ hl, hf⟩
    have hsig : q.signed = grammar_signed C key p q.nonce b := by
      rw [Parts.signed, hc, hhdr]
      rfl
    refine ⟨b, hp, hcl, hhdr, hsig, ?_⟩
    rw [Parts.wire, (L.verify_iff _ _ _).mp hv, hsig]
    rfl
  · rintro ⟨b, hp, hcl, hhdr, hsig, hwire⟩
    obtain ⟨hh, hl, hf⟩ := (decode_grammar_header_iff hfit.1 (hcl ▸ hsmall)).mpr ⟨hhdr, rfl⟩
    -- the signed bytes fix the ciphertext, and the wire then fixes the tag
    have hc : q.sealed = C.gcm_seal (DerivedKeys.derive C key).enc.toList q.nonce q.header b := by
      rw [Parts.signed, grammar_signed, ← hhdr] at hsig
      exact List.append_cancel_left hsig
    have ht : q.tag
        = (C.hmac_sign (DerivedKeys.derive C key).hmac.toList q.signed).toList := by
      rw [Parts.wire, grammar_wire, ← hsig] at hwire
      exact List.append_cancel_left hwire
    exact ⟨(L.verify_iff _ _ _).mpr ht, grammar_header p b, hh, hcl.trans hl, b,
      (L.open_iff _ _ _ _ _).mpr hc, hp, hf⟩

/-- The parts of a grammatical wire. -/
def grammar_parts (C : Crypto) (key : Bytes) (p : SpaPayload) (n : GcmNonce) (b : Bytes) :
    Parts where
  header := (grammar_header p b).encode
  nonce := n
  sealed := C.gcm_seal (DerivedKeys.derive C key).enc.toList n (grammar_header p b).encode b
  tag := (C.hmac_sign (DerivedKeys.derive C key).hmac.toList (grammar_signed C key p n b)).toList

/-- The grammar's parts have the lengths the parser splits at. -/
theorem grammar_parts_fits (key : Bytes) (p : SpaPayload) (n : GcmNonce) (b : Bytes) :
    (grammar_parts C key p n b).Fits :=
  ⟨Header.encode_length _, Vector.length_toList⟩

/-- The grammar's parts in a row are its packet. -/
theorem grammar_parts_wire (key : Bytes) (p : SpaPayload) (n : GcmNonce) (b : Bytes) :
    (grammar_parts C key p n b).wire = grammar_wire C key p n b := rfl

/-- **ACCEPTANCE IS THE GRAMMAR**: the parser accepts `wire` as `p` iff the lengths
    are admissible and `wire` is the packet of some nonce and some plaintext of `p`. -/
theorem parse_packet_eq_ok_iff (L : CryptoLaws C) {wire key : Bytes} {p : SpaPayload} :
    parse_packet C wire key = .ok p
      ↔ key.length = MASTER_KEY_LEN ∧ MIN_PACKET_LEN ≤ wire.length
          ∧ wire.length ≤ MAX_PACKET_LEN
          ∧ ∃ n b, decode C b = .ok p ∧ wire = grammar_wire C key p n b := by
  constructor
  · intro h
    rcases parse_packet_cases C wire key with ⟨_, e, he⟩ | ⟨⟨hkey, hmax⟩, q, hfit, hseal, rfl, hq⟩
    · rw [he] at h
      exact nomatch h
    · obtain ⟨b, hp, _, _, _, hw⟩ := (parse_parts_grammar L hfit hseal hmax).mp (hq ▸ h)
      refine ⟨hkey, ?_, hmax, q.nonce, b, hp, hw⟩
      rw [Parts.wire_length hfit, MIN_PACKET_LEN]
      omega
  · rintro ⟨hkey, hmin, hmax, n, b, hp, rfl⟩
    have hfit := grammar_parts_fits (C := C) key p n b
    have hcl : (grammar_parts C key p n b).sealed.length = b.length + TAG_LEN :=
      L.seal_length _ _ _ _
    have hseal : TAG_LEN ≤ (grammar_parts C key p n b).sealed.length := by omega
    rw [← grammar_parts_wire] at hmax ⊢
    rw [parse_packet_eq C hfit hseal hmax hkey]
    exact (parse_parts_grammar L hfit hseal hmax).mpr ⟨b, hp, hcl, rfl, rfl, rfl⟩

/-- The header stands first on the wire. -/
theorem Parts.wire_eq (q : Parts) :
    q.wire = q.header ++ (q.nonce.toList ++ q.sealed ++ q.tag) := by
  simp only [Parts.wire, Parts.signed, List.append_assoc]

/-- The four header bytes of an accepted wire, and the length they announce. -/
theorem parse_packet_header (L : CryptoLaws C) {wire key : Bytes} {p : SpaPayload}
    (h : parse_packet C wire key = .ok p) :
    ∃ hi lo rest, wire = [PROTO_VERSION, (expected_flags p).bits, hi, lo] ++ rest
      ∧ wire.length = HEADER_LEN + NONCE_LEN + HMAC_LEN + (hi.toNat * 256 + lo.toNat) := by
  obtain ⟨_, _, hmax, n, b, _, rfl⟩ := (parse_packet_eq_ok_iff L).mp h
  have hlen := Parts.wire_length (grammar_parts_fits (C := C) key p n b)
  have hcl : (grammar_parts C key p n b).sealed.length = b.length + TAG_LEN :=
    L.seal_length _ _ _ _
  rw [grammar_parts_wire, hcl] at hlen
  have hle : (grammar_wire C key p n b).length ≤ 1500 := hmax
  have hof : (UInt16.ofNat (b.length + TAG_LEN)).toNat = b.length + TAG_LEN := by
    rw [UInt16.toNat_ofNat']
    exact Nat.mod_eq_of_lt (by omega)
  have hhdr : (grammar_parts C key p n b).header = [PROTO_VERSION, (expected_flags p).bits,
      UInt8.ofNat ((b.length + TAG_LEN) / 256), UInt8.ofNat ((b.length + TAG_LEN) % 256)] := by
    rw [← hof]
    rfl
  have hw := Parts.wire_eq (grammar_parts C key p n b)
  rw [hhdr, grammar_parts_wire] at hw
  refine ⟨_, _, _, hw, ?_⟩
  rw [UInt8.toNat_ofNat', UInt8.toNat_ofNat', Nat.mod_eq_of_lt (by omega),
    Nat.mod_eq_of_lt (by omega), hlen]
  omega

/-- An accepted wire cannot be extended to another accepted one. -/
theorem parse_packet_no_trailing (L : CryptoLaws C) {wire key t : Bytes} {p p' : SpaPayload}
    (h : parse_packet C wire key = .ok p) (h' : parse_packet C (wire ++ t) key = .ok p') :
    t = [] := by
  obtain ⟨hi, lo, rest, rfl, hlen⟩ := parse_packet_header L h
  obtain ⟨hi', lo', rest', heq, hlen'⟩ := parse_packet_header L h'
  simp only [List.cons_append, List.nil_append, List.cons.injEq] at heq
  obtain ⟨-, -, rfl, rfl, -⟩ := heq
  rw [List.length_append, hlen] at hlen'
  exact List.eq_nil_of_length_eq_zero (by omega)

/-! ## An instance of the laws

    A `Row` records what the real primitives compute for one packet.  `Row.crypto`
    agrees with them there and is completed everywhere else to functions that obey
    the laws: off the row, sealing appends sixteen zero bytes, and on the row's key,
    nonce and header it is that sealing with two ciphertexts swapped. -/

/-- One packet's master key, derived keys, pieces and payload. -/
structure Row where
  master : Bytes
  enc : SubKey
  hmac : SubKey
  header : Bytes
  nonce : GcmNonce
  plaintext : Bytes
  sealed : Bytes
  tag : Vector UInt8 HMAC_LEN
  payload : SpaPayload
  sealed_length : sealed.length = plaintext.length + TAG_LEN

namespace Row

variable (r : Row)

/-- The recorded pieces. -/
def parts : Parts := ⟨r.header, r.nonce, r.sealed, r.tag.toList⟩

/-- The recorded packet. -/
def wire : Bytes := r.parts.wire

/-- Sealing off the row. -/
def pad (b : Bytes) : Bytes := b ++ List.replicate TAG_LEN 0

/-- Opening off the row: the sixteen zeros are taken off. -/
def unpad (c : Bytes) : Option Bytes :=
  let b := c.take (c.length - TAG_LEN)
  if c = pad b then some b else none

/-- Opening undoes sealing, and opens nothing else. -/
theorem unpad_eq_some_iff {b c : Bytes} : unpad c = some b ↔ c = pad b := by
  constructor
  · intro h
    unfold unpad at h
    by_cases hc : c = pad (c.take (c.length - TAG_LEN))
    · rw [if_pos hc] at h
      rw [← Option.some.inj h]
      exact hc
    · rw [if_neg hc] at h
      exact nomatch h
  · rintro rfl
    have ht : (pad b).take ((pad b).length - TAG_LEN) = b := by
      have hl : (pad b).length - TAG_LEN = b.length := by
        rw [pad, List.length_append, List.length_replicate, Nat.add_sub_cancel]
      rw [hl, pad, List.take_left]
    unfold unpad
    rw [ht]
    exact if_pos rfl

/-- The permutation of ciphertexts that puts the recorded one in place. -/
def twist (key : Bytes) (n : GcmNonce) (aad : Bytes) : Equiv.Perm Bytes :=
  if key = r.enc.toList ∧ n = r.nonce ∧ aad = r.header then
    Equiv.swap (pad r.plaintext) r.sealed
  else Equiv.refl Bytes

/-- The swapped ciphertexts have one length, so sealing still adds sixteen bytes. -/
theorem twist_length (key : Bytes) (n : GcmNonce) (aad c : Bytes) :
    (r.twist key n aad c).length = c.length := by
  have hpad : (pad r.plaintext).length = r.sealed.length := by
    rw [r.sealed_length, pad, List.length_append, List.length_replicate]
  unfold twist
  by_cases hrow : key = r.enc.toList ∧ n = r.nonce ∧ aad = r.header
  · rw [if_pos hrow, Equiv.swap_apply_def]
    by_cases h1 : c = pad r.plaintext
    · rw [if_pos h1, h1, hpad]
    · rw [if_neg h1]
      by_cases h2 : c = r.sealed
      · rw [if_pos h2, h2, hpad]
      · rw [if_neg h2]
  · rw [if_neg hrow]
    rfl

/-- The recorded tag on the row, zeros elsewhere. -/
def hmac_sign (key msg : Bytes) : Vector UInt8 HMAC_LEN :=
  if key = r.hmac.toList ∧ msg = r.parts.signed then r.tag else Vector.replicate HMAC_LEN 0

/-- The primitives, complete. -/
def crypto : Crypto where
  hkdf salt ikm info :=
    if ikm = r.master ∧ salt = ENC_SALT ∧ info = ENC_INFO then r.enc
    else if ikm = r.master ∧ salt = HMAC_SALT ∧ info = HMAC_INFO then r.hmac
    else Vector.replicate SUBKEY_LEN 0
  hmac_sign := r.hmac_sign
  hmac_verify key msg tag := decide (tag = (r.hmac_sign key msg).toList)
  gcm_seal key n aad b := r.twist key n aad (pad b)
  gcm_open key n aad c := unpad ((r.twist key n aad).symm c)
  rmp_from_slice b :=
    if b = r.plaintext then .ok r.payload
    else .error "invalid type: integer, expected struct SpaPayload"

/-- They obey the laws, and this is why the laws are consistent. -/
theorem crypto_laws : CryptoLaws r.crypto where
  verify_iff _ _ _ := decide_eq_true_iff
  open_iff _ _ _ _ _ := unpad_eq_some_iff.trans (Equiv.symm_apply_eq _)
  seal_length key n aad b := by
    refine (r.twist_length key n aad (pad b)).trans ?_
    rw [pad, List.length_append, List.length_replicate]

end Row

/-- A packet under the test key `[0x42; 32]`: alice asks for `tcp/22` from 192.0.2.7. -/
def sampleRow : Row where
  master := List.replicate 32 0x42
  enc :=
    #v[0xff, 0xf0, 0x24, 0x7d, 0x4f, 0xb0, 0x03, 0x15, 0x71, 0x56, 0x20, 0xe2, 0x86, 0xab, 0x00,
     0x3d, 0x3f, 0x4a, 0xec, 0x53, 0xc0, 0x16, 0x42, 0xe0, 0xbc, 0xed, 0x5c, 0x32, 0x3f, 0x19,
     0xac, 0xed]
  hmac :=
    #v[0xf0, 0xf3, 0x83, 0x00, 0xc9, 0xdf, 0xe8, 0x14, 0x91, 0xb4, 0xbe, 0x43, 0x99, 0x0a, 0x22,
     0x3a, 0x6e, 0x91, 0x17, 0x9a, 0x73, 0x60, 0xa0, 0x0c, 0xaa, 0x87, 0xe2, 0xd0, 0xe6, 0x9f,
     0xd5, 0x31]
  header := [0x01, 0x00, 0x00, 0x49]
  nonce := #v[0, 1, 2, 3, 4, 5, 6, 7, 8, 9, 10, 11]
  plaintext :=
    [0x95, 0xdc, 0x00, 0x10, 0x01, 0x02, 0x03, 0x04, 0x05, 0x06, 0x07, 0x08, 0x09, 0x0a, 0x0b,
     0x0c, 0x0d, 0x0e, 0x0f, 0x10, 0xce, 0x65, 0x53, 0xf1, 0x00, 0xa5, 0x61, 0x6c, 0x69, 0x63,
     0x65, 0x93, 0xa6, 0x61, 0x63, 0x63, 0x65, 0x73, 0x73, 0xa9, 0x31, 0x39, 0x32, 0x2e, 0x30,
     0x2e, 0x32, 0x2e, 0x37, 0x91, 0x92, 0xa3, 0x74, 0x63, 0x70, 0x16, 0xc0]
  sealed :=
    [0xcd, 0xc7, 0x86, 0x49, 0x0b, 0x84, 0x34, 0x1f, 0x46, 0xfd, 0xc9, 0x8e, 0x28, 0x3a, 0x29,
     0x4b, 0x47, 0x00, 0x8c, 0xa1, 0x26, 0xe2, 0xec, 0x1f, 0xa5, 0x1a, 0xde, 0xcb, 0x00, 0xaa,
     0xfc, 0xfd, 0xa1, 0x53, 0xd9, 0xa8, 0x50, 0xd0, 0xe2, 0x41, 0xdf, 0x9e, 0x26, 0xbe, 0x33,
     0x7f, 0x7b, 0xfd, 0x13, 0x76, 0xc9, 0x24, 0x2a, 0xdf, 0xf2, 0xbe, 0x07, 0x40, 0x7a, 0xc2,
     0xfa, 0x72, 0x62, 0xf5, 0x5b, 0x77, 0x71, 0xbc, 0x28, 0x80, 0x50, 0x8c, 0x1a]
  tag :=
    #v[0x12, 0x47, 0x9f, 0x88, 0xde, 0xf4, 0xc1, 0xbd, 0xbe, 0x22, 0x97, 0x35, 0x3b, 0xef, 0x2f,
     0x02, 0xdf, 0x3a, 0x18, 0x78, 0x0e, 0xd0, 0xaf, 0x6d, 0x8a, 0x2c, 0x33, 0x63, 0x33, 0x70,
     0x20, 0x14]
  payload :=
    { nonce := #v[1, 2, 3, 4, 5, 6, 7, 8, 9, 10, 11, 12, 13, 14, 15, 16]
      timestamp := 1700000000
      username := "alice"
      message := .access (.v4 sampleIp) [⟨.tcp, 22⟩]
      client_timeout := none }
  sealed_length := rfl

/-- **THE WIRE GRAMMAR**: for every wire and every key the parser does not panic; it
    accepts exactly the packets of the grammar; an accepted packet has the current
    version, no reserved and no `ASYMMETRIC` flag, the right length field and no
    trailing bytes; and nonce and plaintext determine the wire. -/
theorem parse_packet_accepts_exactly_grammar (L : CryptoLaws C) (wire key : Bytes) :
    parse_packet C wire key ≠ .panic
      ∧ (∀ p, parse_packet C wire key = .ok p
          ↔ key.length = 32 ∧ 64 ≤ wire.length ∧ wire.length ≤ 1500
            ∧ ∃ n b, decode C b = .ok p ∧ wire = grammar_wire C key p n b)
      ∧ (∀ p, parse_packet C wire key = .ok p →
          wire[0]? = some PROTO_VERSION
            ∧ (∃ f, wire[1]? = some f ∧ f &&& ~~~Flags.ALL_DEFINED = 0
                ∧ f &&& Flags.ASYMMETRIC = 0)
            ∧ (∃ hi lo, wire[2]? = some hi ∧ wire[3]? = some lo
                ∧ hi.toNat * 256 + lo.toNat + 48 = wire.length)
            ∧ ∀ t p', parse_packet C (wire ++ t) key = .ok p' → t = [])
      ∧ (∀ wire' p p' n b, decode C b = .ok p → wire = grammar_wire C key p n b →
          decode C b = .ok p' → wire' = grammar_wire C key p' n b → wire' = wire) := by
  refine ⟨parse_packet_ne_panic C wire key, fun p => parse_packet_eq_ok_iff L, ?_, ?_⟩
  · intro p h
    refine ⟨?_, ?_, ?_, fun t p' h' => parse_packet_no_trailing L h h'⟩
    all_goals obtain ⟨hi, lo, rest, rfl, hlen⟩ := parse_packet_header L h
    · rfl
    · exact ⟨_, rfl, expected_flags_bits p⟩
    · refine ⟨hi, lo, rfl, rfl, ?_⟩
      have hhdr : HEADER_LEN + NONCE_LEN + HMAC_LEN = 48 := rfl
      omega
  · rintro wire' p p' n b hp rfl hp' rfl
    rw [hp] at hp'
    cases hp'
    rfl

/-- The recorded packet parses under primitives that obey the laws. -/
theorem sampleRow_wire_parses :
    CryptoLaws sampleRow.crypto
      ∧ parse_packet sampleRow.crypto sampleRow.wire sampleRow.master = .ok sampleRow.payload :=
  ⟨sampleRow.crypto_laws,
    ((parse_packet_accepts_exactly_grammar sampleRow.crypto_laws sampleRow.wire
      sampleRow.master).2.1 sampleRow.payload).mpr
      ⟨by decide, by decide, by decide, sampleRow.nonce, sampleRow.plaintext, by decide,
        by decide +kernel⟩⟩

end FwknoxPacket
