import Fwknox.BitPrefixProofs
import Fwknox.OutcomeProofs
import Fwknox.TypesProofs

/-! # Source keys — addresses up to their prefix

    `key.rs`: IPv4 addresses are keyed as they are, IPv6 addresses by their leading
    bits.  The mask works on whole bytes and on one partial byte; what it does is said
    once, bit by bit (`masked_cut`), and `keys_are_prefix_classes` follows for every
    prefix length, those outside `1..=128` included.

    `from_ip_checked` is the same code with every index, shift and subtraction checked:
    it never panics. -/

namespace FwknoxSourceKey

open FwknoxTypes BitPrefix CheckedSlice

/-- The address family of a key. -/
inductive Discriminator where
  | v4
  | v6
  deriving DecidableEq

/-- What the limiter counts by. -/
structure SourceKey where
  discriminator : Discriminator
  bytes : Vector UInt8 16
  deriving DecidableEq

/-- An IPv4 source counts for itself. -/
def from_ipv4 (v4 : Ipv4Addr) : SourceKey where
  discriminator := .v4
  bytes := #v[v4[0], v4[1], v4[2], v4[3], 0, 0, 0, 0, 0, 0, 0, 0, 0, 0, 0, 0]

/-- `for b in bytes.iter_mut().skip(k) { *b = 0 }`. -/
def clear_from (bytes : Vector UInt8 16) (k : Nat) : Vector UInt8 16 :=
  bytes.mapIdx (fun i b => if k ≤ i then 0 else b)

/-- `u8::clamp(1, 128)`. -/
def clamp_len (len : UInt8) : UInt8 := if len < 1 then 1 else if 128 < len then 128 else len

/-- An IPv6 source counts for its network: the bits after the length are cleared. -/
def from_ipv6_masked (v6 : Ipv6Addr) (prefix_len : UInt8) : SourceKey :=
  let len := clamp_len prefix_len
  let full_bytes := (len / 8).toNat
  let remaining_bits := len % 8
  if h : full_bytes < 16 then
    if 0 < remaining_bits then
      let mask : UInt8 := 0xFF <<< (8 - remaining_bits)
      ⟨.v6, clear_from (v6.set full_bytes (v6[full_bytes] &&& mask)) (full_bytes + 1)⟩
    else ⟨.v6, clear_from v6 full_bytes⟩
  else ⟨.v6, v6⟩

/-- The key of a source. -/
def SourceKey.from_ip (ip : IpAddr) (ipv6_prefix_len : UInt8) : SourceKey :=
  match ip with
  | .v4 v4 => from_ipv4 v4
  | .v6 v6 => from_ipv6_masked v6 ipv6_prefix_len

/-! ## Checked operations -/

/-- `a - b` where an underflow panics. -/
def sub_checked (a b : UInt8) : Outcome Empty UInt8 := if b ≤ a then .ok (a - b) else .panic

/-- `a << b` where a distance of the whole width or more panics. -/
def shl_checked (a b : UInt8) : Outcome Empty UInt8 := if b < 8 then .ok (a <<< b) else .panic

/-- `bytes[i] &= mask` where an index past the end panics. -/
def and_at_checked (bytes : Vector UInt8 16) (i : Nat) (mask : UInt8) :
    Outcome Empty (Vector UInt8 16) :=
  if h : i < 16 then .ok (bytes.set i (bytes[i] &&& mask)) else .panic

/-- `from_ipv6_masked` with every operation that could panic checked. -/
def from_ipv6_masked_checked (v6 : Ipv6Addr) (prefix_len : UInt8) : Outcome Empty SourceKey :=
  let len := clamp_len prefix_len
  let full_bytes := (len / 8).toNat
  let remaining_bits := len % 8
  if full_bytes < 16 then
    if 0 < remaining_bits then do
      let distance ← sub_checked 8 remaining_bits
      let mask ← shl_checked 0xFF distance
      let bytes ← and_at_checked v6 full_bytes mask
      .ok ⟨.v6, clear_from bytes (full_bytes + 1)⟩
    else .ok ⟨.v6, clear_from v6 full_bytes⟩
  else .ok ⟨.v6, v6⟩

/-- `from_ip` in a build with overflow checks. -/
def SourceKey.from_ip_checked (ip : IpAddr) (ipv6_prefix_len : UInt8) :
    Outcome Empty SourceKey :=
  match ip with
  | .v4 v4 => .ok (from_ipv4 v4)
  | .v6 v6 => from_ipv6_masked_checked v6 ipv6_prefix_len

/-! ## The mask, bit by bit -/

/-- The length in force. -/
theorem clamp_len_toNat (len : UInt8) : (clamp_len len).toNat = max 1 (min len.toNat 128) := by
  simp only [clamp_len]
  by_cases hlow : len < 1
  · have h : len.toNat < 1 := hlow
    rw [if_pos hlow]
    show 1 = _
    omega
  · have h : ¬len.toNat < 1 := hlow
    rw [if_neg hlow]
    by_cases hhigh : 128 < len
    · have h' : 128 < len.toNat := hhigh
      rw [if_pos hhigh]
      show 128 = _
      omega
    · have h' : ¬128 < len.toNat := hhigh
      rw [if_neg hhigh]
      omega

/-- Whole bytes cleared. -/
theorem clear_from_cut (v : Vector UInt8 16) (k : Nat) : Cut (8 * k) v (clear_from v k) := by
  intro i
  simp only [bit, clear_from]
  by_cases hi : i / 8 < 16
  · rw [dif_pos hi, dif_pos hi, Vector.getElem_mapIdx]
    by_cases hk : k ≤ i / 8
    · rw [if_pos hk, decide_eq_false (by omega), Bool.false_and]
      exact BitVec.getMsbD_zero
    · rw [if_neg hk, decide_eq_true (by omega), Bool.true_and]
  · rw [dif_neg hi, dif_neg hi, Bool.and_false]

/-- One byte masked and those behind it cleared. -/
theorem clear_from_mask_cut (v : Vector UInt8 16) {k : Nat} (hk : k < 16) {r : UInt8}
    (hpos : 0 < r) (hr : r < 8) :
    Cut (8 * k + r.toNat) v (clear_from (v.set k (v[k] &&& 0xFF <<< (8 - r))) (k + 1)) := by
  intro i
  have hr' : r.toNat < 8 := hr
  rw [clear_from_cut _ _ i, bit_set v hk]
  by_cases hi : i / 8 = k
  · -- the partial byte: the mask decides
    have hbit : v[k].toBitVec.getMsbD (i % 8) = bit v i := by
      rw [← bit_of_lt v hk (Nat.mod_lt i (by decide)), ← hi, Nat.div_add_mod]
    rw [if_pos hi, getMsbD_top_mask v[k] hpos hr, hbit, ← Bool.and_assoc, ← Bool.decide_and]
    congr 1
    exact decide_eq_decide.mpr (by omega)
  · rw [if_neg hi]
    congr 1
    exact decide_eq_decide.mpr (by omega)

/-- **THE MASK KEEPS THE PREFIX**: an IPv6 key is the address with all but its leading
    bits zero. -/
theorem masked_cut (v6 : Ipv6Addr) (prefix_len : UInt8) :
    Cut (clamp_len prefix_len).toNat v6 (from_ipv6_masked v6 prefix_len).bytes := by
  simp only [from_ipv6_masked]
  generalize clamp_len prefix_len = len
  have hdiv : (len / 8).toNat = len.toNat / 8 := UInt8.toNat_div _ _
  have hmod : (len % 8).toNat = len.toNat % 8 := UInt8.toNat_mod _ _
  by_cases hfull : (len / 8).toNat < 16
  · rw [dif_pos hfull]
    by_cases hpos : 0 < len % 8
    · have hlen : 8 * (len / 8).toNat + (len % 8).toNat = len.toNat := by omega
      rw [if_pos hpos, ← hlen]
      exact clear_from_mask_cut v6 hfull hpos (UInt8.mod_lt len (by decide))
    · have hzero : (len % 8).toNat = 0 := Nat.eq_zero_of_not_pos hpos
      have hlen : 8 * (len / 8).toNat = len.toNat := by omega
      rw [if_neg hpos, ← hlen]
      exact clear_from_cut v6 _
  · -- sixteen whole bytes: nothing is masked
    rw [dif_neg hfull]
    exact cut_self (by omega) v6

/-- A masked key stays an IPv6 key. -/
theorem from_ipv6_masked_discriminator (v6 : Ipv6Addr) (prefix_len : UInt8) :
    (from_ipv6_masked v6 prefix_len).discriminator = .v6 := by
  simp only [from_ipv6_masked]
  split
  · split <;> rfl
  · rfl

/-- **NO PANIC**: with every operation checked the mask comes out the same. -/
theorem from_ipv6_masked_checked_eq (v6 : Ipv6Addr) (prefix_len : UInt8) :
    from_ipv6_masked_checked v6 prefix_len = .ok (from_ipv6_masked v6 prefix_len) := by
  simp only [from_ipv6_masked_checked, from_ipv6_masked]
  generalize clamp_len prefix_len = len
  by_cases hfull : (len / 8).toNat < 16
  · rw [if_pos hfull, dif_pos hfull]
    by_cases hpos : 0 < len % 8
    · have hle : len % 8 ≤ 8 := UInt8.le_of_lt (UInt8.mod_lt len (by decide))
      have hdist : 8 - len % 8 < 8 := by
        have hp : 0 < (len % 8).toNat := hpos
        refine UInt8.lt_iff_toNat_lt.mpr ?_
        rw [UInt8.toNat_sub_of_le _ _ hle]
        show 8 - (len % 8).toNat < 8
        omega
      have hsub : sub_checked 8 (len % 8) = .ok (8 - len % 8) := if_pos hle
      have hshl : shl_checked 0xFF (8 - len % 8) = .ok (0xFF <<< (8 - len % 8)) := if_pos hdist
      rw [if_pos hpos, if_pos hpos, hsub, Outcome.ok_bind, hshl, Outcome.ok_bind, and_at_checked,
        dif_pos hfull]
      rfl
    · rw [if_neg hpos, if_neg hpos]
  · rw [if_neg hfull, dif_neg hfull]

/-! ## Keys and prefix classes -/

/-- What a key is to tell apart: IPv4 addresses, and the leading `len` bits of IPv6
    addresses. -/
def SamePrefix (len : Nat) : IpAddr → IpAddr → Prop
  | .v4 a, .v4 b => a = b
  | .v6 a, .v6 b => ∀ i < len, bit a i = bit b i
  | .v4 _, .v6 _ => False
  | .v6 _, .v4 _ => False

/-- The first four bytes of an IPv4 key. -/
theorem from_ipv4_octet (a : Ipv4Addr) {i : Nat} (hi : i < 4) : (from_ipv4 a).bytes[i] = a[i] :=
  match i, hi with
  | 0, _ => rfl
  | 1, _ => rfl
  | 2, _ => rfl
  | 3, _ => rfl

/-- Different IPv4 sources have different keys. -/
theorem from_ipv4_inj {a b : Ipv4Addr} : from_ipv4 a = from_ipv4 b ↔ a = b := by
  constructor
  · intro h
    refine Vector.ext ?_
    intro i hi
    rw [← from_ipv4_octet a hi, ← from_ipv4_octet b hi, h]
  · intro h
    rw [h]

/-- Two IPv6 sources share a key exactly when they share the network. -/
theorem from_ipv6_masked_eq_iff {a b : Ipv6Addr} {n : UInt8} :
    from_ipv6_masked a n = from_ipv6_masked b n
      ↔ ∀ i < max 1 (min n.toNat 128), bit a i = bit b i := by
  rw [← clamp_len_toNat, ← (masked_cut a n).eq_iff (masked_cut b n)]
  constructor
  · intro h
    rw [h]
  · intro h
    have hdisc := (from_ipv6_masked_discriminator a n).trans
      (from_ipv6_masked_discriminator b n).symm
    generalize from_ipv6_masked a n = ka at h hdisc
    generalize from_ipv6_masked b n = kb at h hdisc
    obtain ⟨da, ba⟩ := ka
    obtain ⟨db, bb⟩ := kb
    cases h
    cases hdisc
    rfl

/-- The families never share one. -/
theorem from_ipv4_ne_masked (a : Ipv4Addr) (b : Ipv6Addr) (n : UInt8) :
    from_ipv4 a ≠ from_ipv6_masked b n := by
  intro h
  have hdisc := congrArg SourceKey.discriminator h
  rw [from_ipv6_masked_discriminator] at hdisc
  cases hdisc

/-- **SOURCE KEYS ARE PREFIX CLASSES**: for all addresses and every prefix length, two
    keys are equal exactly when the addresses are of one family and agree on what is kept
    of it, and computing a key indexes and shifts within bounds. -/
theorem keys_are_prefix_classes (a b : IpAddr) (n : UInt8) :
    (SourceKey.from_ip a n = SourceKey.from_ip b n
        ↔ SamePrefix (max 1 (min n.toNat 128)) a b)
      ∧ SourceKey.from_ip_checked a n = .ok (SourceKey.from_ip a n) := by
  constructor
  · cases a with
    | v4 a =>
        cases b with
        | v4 b => exact from_ipv4_inj
        | v6 b => exact iff_of_false (from_ipv4_ne_masked a b n) id
    | v6 a =>
        cases b with
        | v4 b => exact iff_of_false (Ne.symm (from_ipv4_ne_masked b a n)) id
        | v6 b => exact from_ipv6_masked_eq_iff
  · cases a with
    | v4 a => rfl
    | v6 a => exact from_ipv6_masked_checked_eq a n

/-- An address under `2001:db8::` whose ninth byte is given. -/
def documentation (b : UInt8) : IpAddr :=
  .v6 #v[0x20, 0x01, 0x0d, 0xb8, 0, 0, 0, 0, b, 0, 0, 0, 0, 0, 0, 0]

-- under /65 the first bit of the ninth byte counts and the second does not
example : SourceKey.from_ip (documentation 0x80) 65 = SourceKey.from_ip (documentation 0xC0) 65
    ∧ SourceKey.from_ip (documentation 0x80) 65 ≠ SourceKey.from_ip (documentation 0x00) 65 := by
  decide +kernel

end FwknoxSourceKey
