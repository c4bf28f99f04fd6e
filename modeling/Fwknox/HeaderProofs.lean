import Fwknox.TypesProofs
import Fwknox.OutcomeProofs

/-! # The four-byte header

    `header.rs`: version, flags, big-endian length of the sealed payload.  The one
    fact later files need is `decode_eq_ok_iff`: a four-byte string decodes exactly
    when it is the encoding of the header it decodes to, the version is the current
    one and no reserved flag bit is set. -/

namespace FwknoxHeader

open FwknoxTypes CheckedSlice CheckedSlice.Outcome

/-- The version byte every packet starts with. -/
def PROTO_VERSION : UInt8 := 0x01

/-- Version, flags and two bytes of length. -/
def HEADER_LEN : Nat := 4

/-- The flag byte. -/
structure Flags where
  bits : UInt8
  deriving DecidableEq

namespace Flags

/-- The NAT request bit. -/
def NAT : UInt8 := 0b0000_0001

/-- The bit of a request that brings its own timeout. -/
def CLIENT_TIMEOUT : UInt8 := 0b0000_0010

/-- The command bit. -/
def COMMAND : UInt8 := 0b0000_0100

/-- The bit of an asymmetric payload. -/
def ASYMMETRIC : UInt8 := 0b0000_1000

/-- The bits this version gives a meaning; the other four are reserved. -/
def ALL_DEFINED : UInt8 := NAT ||| CLIENT_TIMEOUT ||| COMMAND ||| ASYMMETRIC

/-- No flag set. -/
def new : Flags := ⟨0⟩

/-- The byte on the wire. -/
def raw (f : Flags) : UInt8 := f.bits

/-- Reject any reserved bit. -/
def from_raw (byte : UInt8) : Outcome ProtoError Flags :=
  let reserved := byte &&& ~~~ALL_DEFINED
  if reserved ≠ 0 then .err (.reservedFlag reserved) else .ok ⟨byte⟩

/-- `mask` is added, nothing is cleared. -/
def set (f : Flags) (mask : UInt8) : Flags := ⟨f.bits ||| mask⟩

end Flags

/-- The header as the sender fills it in. -/
structure Header where
  version : UInt8
  flags : Flags
  payload_len : UInt16
  deriving DecidableEq

/-- `u16::to_be_bytes`. -/
def to_be_bytes (n : UInt16) : Bytes := [UInt8.ofNat (n.toNat / 256), UInt8.ofNat (n.toNat % 256)]

/-- `u16::from_be_bytes`. -/
def from_be_bytes (hi lo : UInt8) : UInt16 := UInt16.ofNat (hi.toNat * 256 + lo.toNat)

namespace Header

/-- A header always carries the current version. -/
def new (flags : Flags) (payload_len : UInt16) : Header := ⟨PROTO_VERSION, flags, payload_len⟩

/-- Version, flags, length: four bytes. -/
def encode (h : Header) : Bytes := [h.version, h.flags.raw] ++ to_be_bytes h.payload_len

/-- Length first, then version, then flags: the first check to fail names the error. -/
def decode (bytes : Bytes) : Outcome ProtoError Header := do
  ensure (¬bytes.length < HEADER_LEN) (.packetTooShort bytes.length HEADER_LEN)
  let version ← index bytes 0
  ensure (version = PROTO_VERSION) (.unsupportedVersion version)
  let flags ← Flags.from_raw (← index bytes 1)
  let payload_len := from_be_bytes (← index bytes 2) (← index bytes 3)
  pure ⟨version, flags, payload_len⟩

/-- An encoding is exactly as long as `decode` asks for. -/
@[simp] theorem encode_length (h : Header) : h.encode.length = HEADER_LEN := rfl

end Header

/-! ## Big-endian words -/

/-- Two bytes read as a word and written back are the same two bytes. -/
theorem to_be_from_be (hi lo : UInt8) : to_be_bytes (from_be_bytes hi lo) = [hi, lo] := by
  have hhi : hi.toNat < 256 := hi.toNat_lt
  have hlo : lo.toNat < 256 := lo.toNat_lt
  have hw : (from_be_bytes hi lo).toNat = hi.toNat * 256 + lo.toNat := by
    unfold from_be_bytes
    rw [UInt16.toNat_ofNat']
    exact Nat.mod_eq_of_lt (by omega)
  have hdiv : (hi.toNat * 256 + lo.toNat) / 256 = hi.toNat := by omega
  have hmod : (hi.toNat * 256 + lo.toNat) % 256 = lo.toNat := by omega
  unfold to_be_bytes
  rw [hw, hdiv, hmod, UInt8.ofNat_toNat, UInt8.ofNat_toNat]

/-- A word written and read back is the same word: no length is lost on the wire. -/
theorem from_be_to_be (n : UInt16) :
    from_be_bytes (UInt8.ofNat (n.toNat / 256)) (UInt8.ofNat (n.toNat % 256)) = n := by
  have hn : n.toNat < 65536 := n.toNat_lt
  have hhi : (UInt8.ofNat (n.toNat / 256)).toNat = n.toNat / 256 := by
    rw [UInt8.toNat_ofNat']
    exact Nat.mod_eq_of_lt (by omega)
  have hlo : (UInt8.ofNat (n.toNat % 256)).toNat = n.toNat % 256 := by
    rw [UInt8.toNat_ofNat']
    exact Nat.mod_eq_of_lt (by omega)
  have hsum : n.toNat / 256 * 256 + n.toNat % 256 = n.toNat := by omega
  unfold from_be_bytes
  rw [hhi, hlo, hsum, UInt16.ofNat_toNat]

/-! ## Decoding -/

/-- Exactly the bytes without a reserved bit are flags. -/
theorem from_raw_eq_ok_iff {byte : UInt8} {f : Flags} :
    Flags.from_raw byte = .ok f ↔ byte &&& ~~~Flags.ALL_DEFINED = 0 ∧ f = ⟨byte⟩ := by
  unfold Flags.from_raw
  by_cases h : byte &&& ~~~Flags.ALL_DEFINED = 0
  · simp [h, eq_comm]
  · simp [h]

/-- A bad flag byte is an error, never a panic. -/
theorem from_raw_ne_panic (byte : UInt8) : Flags.from_raw byte ≠ .panic := by
  unfold Flags.from_raw
  by_cases h : byte &&& ~~~Flags.ALL_DEFINED = 0 <;> simp [h]

/-- A four-byte string, byte by byte. -/
theorem decode_four (b0 b1 b2 b3 : UInt8) :
    Header.decode [b0, b1, b2, b3]
      = (ensure (b0 = PROTO_VERSION) (.unsupportedVersion b0) >>= fun _ =>
          Flags.from_raw b1 >>= fun flags =>
            .ok ⟨b0, flags, from_be_bytes b2 b3⟩) := rfl

/-- On four bytes every index of `decode` is in range. -/
theorem decode_ne_panic {bytes : Bytes} (hlen : bytes.length = HEADER_LEN) :
    Header.decode bytes ≠ .panic := by
  obtain ⟨b0, b1, b2, b3, rfl⟩ := List.length_eq_four.mp hlen
  rw [decode_four]
  refine bind_ne_panic ensure_ne_panic ?_
  intro _ _
  refine bind_ne_panic (from_raw_ne_panic b1) ?_
  intro _ _ h
  exact nomatch h

/-- **EXACT DECODING**: four bytes decode to `h` iff they are the encoding of `h`,
    `h` has the current version and none of its flag bits is reserved. -/
theorem decode_eq_ok_iff {bytes : Bytes} {h : Header} (hlen : bytes.length = HEADER_LEN) :
    Header.decode bytes = .ok h
      ↔ bytes = h.encode ∧ h.version = PROTO_VERSION
          ∧ h.flags.bits &&& ~~~Flags.ALL_DEFINED = 0 := by
  obtain ⟨b0, b1, b2, b3, rfl⟩ := List.length_eq_four.mp hlen
  rw [decode_four, bind_eq_ok]
  constructor
  · rintro ⟨_, hv, hrest⟩
    obtain ⟨flags, hf, hh⟩ := bind_eq_ok.mp hrest
    obtain ⟨hres, rfl⟩ := from_raw_eq_ok_iff.mp hf
    cases hh
    refine ⟨?_, ensure_eq_ok.mp hv, hres⟩
    show [b0, b1, b2, b3] = [b0, b1] ++ to_be_bytes (from_be_bytes b2 b3)
    rw [to_be_from_be]
    rfl
  · rintro ⟨hb, hv, hres⟩
    obtain ⟨version, ⟨bits⟩, payload_len⟩ := h
    have hb' : [b0, b1, b2, b3] = [version, bits, UInt8.ofNat (payload_len.toNat / 256),
        UInt8.ofNat (payload_len.toNat % 256)] := hb
    simp only [List.cons.injEq, and_true] at hb'
    obtain ⟨rfl, rfl, rfl, rfl⟩ := hb'
    refine ⟨(), ensure_eq_ok.mpr hv, bind_eq_ok.mpr ⟨⟨b1⟩, ?_, ?_⟩⟩
    · exact from_raw_eq_ok_iff.mpr ⟨hres, rfl⟩
    · rw [from_be_to_be]

end FwknoxHeader
