import Mathlib.Data.List.Basic

/-! # Protocol values and their texts

    The value types of the protocol crate (`types.rs`, `payload.rs`, `error.rs`)
    and the `Display` texts that reach log lines, reject reasons, rule comments
    and firewall handles.

    Addresses are byte vectors, as `octets()` returns them.  The IPv6 text is the
    standard library's: an IPv4-mapped address is written with its dotted tail,
    otherwise the first longest run of at least two zero segments becomes `::`. -/

namespace FwknoxTypes

/-- A byte string. -/
abbrev Bytes := List UInt8

/-- Four octets. -/
abbrev Ipv4Addr := Vector UInt8 4

/-- Sixteen octets. -/
abbrev Ipv6Addr := Vector UInt8 16

/-- `std::net::IpAddr`. -/
inductive IpAddr where
  | v4 (a : Ipv4Addr)
  | v6 (a : Ipv6Addr)
  deriving DecidableEq, Repr

/-- `flowinfo` and `scope_id` are part of an IPv6 socket address. -/
inductive SocketAddr where
  | v4 (ip : Ipv4Addr) (port : UInt16)
  | v6 (ip : Ipv6Addr) (port : UInt16) (flowinfo scope_id : UInt32)
  deriving DecidableEq, Repr

/-! ## Address texts -/

/-- Lower-case hexadecimal without leading zeros: `{:x}`. -/
def hex (n : Nat) : String := String.ofList (Nat.toDigits 16 n)

/-- Dotted decimal. -/
def Ipv4Addr.to_string (a : Ipv4Addr) : String :=
  ".".intercalate (a.toList.map (fun b => toString b.toNat))

/-- The eight 16-bit segments, big-endian. -/
def Ipv6Addr.segments (a : Ipv6Addr) : List Nat :=
  (List.range 8).map (fun i => (a.toList.getD (2 * i) 0).toNat * 256
    + (a.toList.getD (2 * i + 1) 0).toNat)

/-- The first longest run of zero segments, as `(start, len)`: one pass that
    carries the best span and the span in progress. -/
def zeroSpan : List Nat → Nat → Nat × Nat → Nat × Nat → Nat × Nat
  | [], _, longest, _ => longest
  | s :: rest, i, longest, current =>
      if s = 0 then
        let current := if current.2 = 0 then (i, 1) else (current.1, current.2 + 1)
        zeroSpan rest (i + 1) (if current.2 > longest.2 then current else longest) current
      else zeroSpan rest (i + 1) longest (0, 0)

/-- Segments joined by colons. -/
def fmt_subslice (segments : List Nat) : String := ":".intercalate (segments.map hex)

/-- The IPv4 address of `::ffff:a.b.c.d`. -/
def Ipv6Addr.to_ipv4_mapped (a : Ipv6Addr) : Option Ipv4Addr :=
  if a.segments.take 6 = [0, 0, 0, 0, 0, 0xffff] then
    some #v[a[12], a[13], a[14], a[15]]
  else none

/-- The first longest run of at least two zero segments becomes `::`. -/
def Ipv6Addr.to_string (a : Ipv6Addr) : String :=
  match a.to_ipv4_mapped with
  | some v4 => "::ffff:" ++ v4.to_string
  | none =>
      let zeroes := zeroSpan a.segments 0 (0, 0) (0, 0)
      if zeroes.2 > 1 then
        fmt_subslice (a.segments.take zeroes.1) ++ "::"
          ++ fmt_subslice (a.segments.drop (zeroes.1 + zeroes.2))
      else fmt_subslice a.segments

/-- The text of either family. -/
def IpAddr.to_string : IpAddr → String
  | .v4 a => a.to_string
  | .v6 a => a.to_string

/-- The scope is written when it is not zero, `flowinfo` never. -/
def SocketAddr.to_string : SocketAddr → String
  | .v4 ip port => ip.to_string ++ ":" ++ toString port.toNat
  | .v6 ip port _ scope_id =>
      if scope_id = 0 then "[" ++ ip.to_string ++ "]:" ++ toString port.toNat
      else "[" ++ ip.to_string ++ "%" ++ toString scope_id.toNat ++ "]:" ++ toString port.toNat

/-! ## Requests -/

/-- Layer-4 protocol of an access request. -/
inductive Protocol where
  | tcp
  | udp
  deriving DecidableEq, Repr

/-- The word on the wire and on the command line. -/
def Protocol.to_string : Protocol → String
  | .tcp => "tcp"
  | .udp => "udp"

/-- A `proto/port` pair. -/
structure PortProto where
  proto : Protocol
  port : UInt16
  deriving DecidableEq, Repr

/-- `tcp/22`. -/
def PortProto.to_string (pp : PortProto) : String :=
  pp.proto.to_string ++ "/" ++ toString pp.port.toNat

/-- The message inside an authenticated packet. -/
inductive SpaMessage where
  | access (source_ip : IpAddr) (ports : List PortProto)
  | nat (source_ip : IpAddr) (ports : List PortProto) (nat_dest : SocketAddr)
  | localNat (source_ip : IpAddr) (ports : List PortProto) (nat_dest : SocketAddr)
  | command (source_ip : IpAddr) (command : String)
  deriving DecidableEq, Repr

/-- A 16-byte replay nonce. -/
abbrev Nonce := Vector UInt8 16

/-- The plaintext payload of a packet. -/
structure SpaPayload where
  nonce : Nonce
  timestamp : Int64
  username : String
  message : SpaMessage
  client_timeout : Option UInt32
  deriving DecidableEq

/-! ## Protocol errors -/

/-- `ProtoError`. -/
inductive ProtoError where
  | packetTooShort (got need : Nat)
  | packetTooLong (got max : Nat)
  | unsupportedVersion (version : UInt8)
  | reservedFlag (bits : UInt8)
  | hmacFailed
  | aeadFailed
  | payloadDecode (reason : String)
  | payloadEncode (reason : String)
  | hkdfFailed
  | invalidField (field : String)
  | packetTooOld (age_secs max_secs : Int64)
  | packetInFuture (skew_secs : Int64)
  deriving DecidableEq

/-- The `Display` texts. -/
def ProtoError.to_string : ProtoError → String
  | .packetTooShort got need =>
      s!"packet too short: got {got} bytes, need at least {need}"
  | .packetTooLong got max => s!"packet too long: got {got} bytes, max {max}"
  | .unsupportedVersion v => "unsupported protocol version: 0x" ++ hex v.toNat
  | .reservedFlag b => "reserved flag bit set: 0x" ++ hex b.toNat
  | .hmacFailed => "HMAC verification failed"
  | .aeadFailed => "AEAD decryption failed"
  | .payloadDecode r => s!"payload decode error: {r}"
  | .payloadEncode r => s!"payload encode error: {r}"
  | .hkdfFailed => "HKDF expand failed"
  | .invalidField f => s!"invalid field: {f}"
  | .packetTooOld age max => s!"packet age {age.toInt}s exceeds maximum {max.toInt}s"
  | .packetInFuture skew => s!"packet timestamp is {skew.toInt}s in the future"

example : IpAddr.to_string (.v6 #v[0x20, 0x01, 0x0d, 0xb8, 0, 0, 0, 0, 0, 0, 0, 0, 0, 0, 0, 1])
    = "2001:db8::1" := by decide

example : IpAddr.to_string (.v4 #v[192, 168, 1, 5]) = "192.168.1.5" := by decide

/-- The source of the sample requests: 192.0.2.7. -/
abbrev sampleIp : Ipv4Addr := #v[192, 0, 2, 7]

end FwknoxTypes
