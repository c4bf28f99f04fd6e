import Fwknox.ReaderProofs
import Fwknox.TypesProofs

/-! # Addresses as text — what survives printing and parsing

    The serde helpers of `types.rs` carry an address as its `Display` text and read it
    back with `FromStr`.  The parser below is the standard library's, reader by reader.

    Route: a list of groups joined by colons is read back up to whatever ends it
    (`read_groups_colons`); the zeros that `::` stands for are a run of zero segments
    (`zeroSpan_zeros`); so every IPv6 text gives its address back, and with it
    `ip_round_trip`.  A socket address loses one thing on the way, its flow label, which
    the text does not have: `sock_round_trip`. -/

namespace FwknoxAddr

open FwknoxTypes TextReader

/-! ## Parsing -/

/-- At most three decimal digits, no leading zero, below 256. -/
def read_octet : Reader Nat := number 10 (some 3) false 256

/-- Four octets with dots between them. -/
def read_ipv4_addr : Reader Ipv4Addr := fun s => do
  let (a, s) ← separator '.' 0 read_octet s
  let (b, s) ← separator '.' 1 read_octet s
  let (c, s) ← separator '.' 2 read_octet s
  let (d, s) ← separator '.' 3 read_octet s
  some (#v[.ofNat a, .ofNat b, .ofNat c, .ofNat d], s)

/-- At most four hexadecimal digits, leading zeros allowed. -/
def read_group : Reader Nat := number 16 (some 4) true 65536

/-- The two groups an embedded IPv4 address stands for. -/
def ipv4_groups (a : Ipv4Addr) : List Nat :=
  let octet := fun i => (a.toList.getD i 0).toNat
  [octet 0 * 256 + octet 1, octet 2 * 256 + octet 3]

/-- Groups from index `i` on into `left` slots: what was read, whether it ended in an
    embedded IPv4 address, and the rest.  Such an address needs two slots. -/
def read_groups : Nat → Nat → List Char → List Nat × Bool × List Char
  | _, 0, s => ([], false, s)
  | i, left + 1, s =>
      match if 0 < left then separator ':' i read_ipv4_addr s else none with
      | some (ipv4, rest) => (ipv4_groups ipv4, true, rest)
      | none =>
          match separator ':' i read_group s with
          | none => ([], false, s)
          | some (group, rest) =>
              let (groups, has_ipv4, rest) := read_groups (i + 1) left rest
              (group :: groups, has_ipv4, rest)

/-- The address with these eight segments. -/
def from_segments (segments : List Nat) : Ipv6Addr :=
  Vector.ofFn fun i : Fin 16 =>
    if i.val % 2 = 0 then UInt8.ofNat (segments.getD (i.val / 2) 0 / 256)
    else UInt8.ofNat (segments.getD (i.val / 2) 0 % 256)

/-- Eight groups, or a head and a tail around `::`; either part may end in an IPv4 address. -/
def read_ipv6_addr : Reader Ipv6Addr := fun s =>
  let (head, head_ipv4, s) := read_groups 0 8 s
  if head.length = 8 then some (from_segments head, s)
  else if head_ipv4 = true then none
  else do
    let (_, s) ← given_char ':' s
    let (_, s) ← given_char ':' s
    let (tail, _, s) := read_groups 0 (8 - (head.length + 1)) s
    some (from_segments
      (head ++ List.replicate (8 - head.length - tail.length) 0 ++ tail), s)

/-- IPv4 first, IPv6 if that fails. -/
def read_ip_addr : Reader IpAddr := fun s =>
  match read_ipv4_addr s with
  | some (a, s) => some (.v4 a, s)
  | none => (read_ipv6_addr s).map fun (a, s) => (.v6 a, s)

/-- A colon and a port. -/
def read_port : Reader UInt16 := fun s => do
  let (_, s) ← given_char ':' s
  let (port, s) ← number 10 none true 65536 s
  some (.ofNat port, s)

/-- A percent sign and a scope. -/
def read_scope_id : Reader UInt32 := fun s => do
  let (_, s) ← given_char '%' s
  let (scope_id, s) ← number 10 none true 4294967296 s
  some (.ofNat scope_id, s)

/-- An address and its port. -/
def read_socket_addr_v4 : Reader SocketAddr := fun s => do
  let (ip, s) ← read_ipv4_addr s
  let (port, s) ← read_port s
  some (.v4 ip port, s)

/-- A bracketed address, with a scope or without, and its port. -/
def read_socket_addr_v6 : Reader SocketAddr := fun s => do
  let (_, s) ← given_char '[' s
  let (ip, s) ← read_ipv6_addr s
  let (scope_id, s) := (read_scope_id s).getD (0, s)
  let (_, s) ← given_char ']' s
  let (port, s) ← read_port s
  some (.v6 ip port 0 scope_id, s)

/-- IPv4 first here too. -/
def read_socket_addr : Reader SocketAddr := fun s =>
  match read_socket_addr_v4 s with
  | some r => some r
  | none => read_socket_addr_v6 s

/-- `IpAddr::from_str`. -/
def parse_ip (text : String) : Option IpAddr := whole read_ip_addr text.toList

/-- `SocketAddr::from_str`. -/
def parse_sock (text : String) : Option SocketAddr := whole read_socket_addr text.toList

/-! ## IPv4 -/

/-- The decimal text of a byte is read back as the byte. -/
theorem read_octet_decimal (b : UInt8) {rest : List Char} (h : Stops 10 rest) :
    read_octet (Nat.toDigits 10 b.toNat ++ rest) = some (b.toNat, rest) := by
  have hb : b.toNat < 256 := b.toNat_lt
  refine number_toDigits (by decide) (by decide) false hb ?_ h
  rintro m ⟨⟩
  exact ⟨by decide, Nat.lt_of_lt_of_le hb (by decide)⟩

/-- A dot ends a decimal number. -/
theorem stops_dot (rest : List Char) : Stops 10 ('.' :: rest) := by
  rintro c ⟨⟩
  rfl

/-- The dotted text, octet by octet. -/
theorem ipv4_text (b0 b1 b2 b3 : UInt8) :
    (Ipv4Addr.to_string #v[b0, b1, b2, b3]).toList
      = Nat.toDigits 10 b0.toNat ++ '.' :: (Nat.toDigits 10 b1.toNat ++ '.' ::
          (Nat.toDigits 10 b2.toNat ++ '.' :: Nat.toDigits 10 b3.toNat)) := by
  simp [Ipv4Addr.to_string]

/-- An IPv4 address is its four octets. -/
theorem exists_octets (a : Ipv4Addr) : ∃ b0 b1 b2 b3, a = #v[b0, b1, b2, b3] := by
  obtain ⟨⟨l⟩, hl⟩ := a
  obtain ⟨b0, b1, b2, b3, rfl⟩ := List.length_eq_four.mp hl
  exact ⟨b0, b1, b2, b3, rfl⟩

/-- The text of an IPv4 address is read back, whatever follows that is no digit. -/
theorem read_ipv4_text (a : Ipv4Addr) {rest : List Char} (h : Stops 10 rest) :
    read_ipv4_addr (a.to_string.toList ++ rest) = some (a, rest) := by
  obtain ⟨b0, b1, b2, b3, rfl⟩ := exists_octets a
  simp only [ipv4_text, List.append_assoc, List.cons_append, read_ipv4_addr, separator_zero,
    separator_succ, read_octet_decimal _ (stops_dot _), read_octet_decimal _ h, bind,
    Option.bind_some, UInt8.ofNat_toNat]

/-- No digit, no IPv4 address. -/
theorem read_ipv4_of_stops {s : List Char} (h : Stops 10 s) : read_ipv4_addr s = none := by
  simp only [read_ipv4_addr, separator_zero, read_octet, number_of_stops h, bind, Option.bind_none]

/-- An IPv4 address has dots. -/
theorem read_ipv4_of_no_dot {s : List Char} (h : '.' ∉ s) : read_ipv4_addr s = none := by
  simp only [read_ipv4_addr, separator_zero, bind]
  cases hr : read_octet s with
  | none => rfl
  | some r =>
      obtain ⟨n, s'⟩ := r
      have hhead : s'.head? ≠ some '.' := by
        intro hdot
        exact h ((number_suffix hr).subset (List.mem_of_mem_head? hdot))
      simp only [Option.bind_some, separator_succ_of_ne hhead, Option.bind_none]

/-- Without a dot the IPv4 reader fails, so the groups are read as such. -/
theorem separator_ipv4_of_no_dot {s : List Char} (h : '.' ∉ s) (i : Nat) :
    separator ':' i read_ipv4_addr s = none := by
  cases i with
  | zero => exact read_ipv4_of_no_dot h
  | succ i =>
      by_cases hhead : s.head? = some ':'
      · obtain ⟨s', rfl⟩ := List.head?_eq_some_iff.mp hhead
        rw [separator_succ]
        exact read_ipv4_of_no_dot fun hmem => h (List.mem_cons_of_mem _ hmem)
      · exact separator_succ_of_ne hhead

/-! ## Groups -/

/-- Groups, each after a colon. -/
def after_colons (gs : List Nat) : List Char := gs.flatMap fun g => ':' :: Nat.toDigits 16 g

/-- Groups joined by colons. -/
def colons : List Nat → List Char
  | [] => []
  | g :: gs => Nat.toDigits 16 g ++ after_colons gs

/-- Where a list of groups ends: no hexadecimal digit and no further group follows, and
    no dot that could belong to an embedded IPv4 address. -/
structure EndsGroups (rest : List Char) : Prop where
  stops : Stops 16 rest
  no_group : ∀ i, separator ':' i read_group rest = none
  no_dot : '.' ∉ rest

/-- Anything but a digit or a colon ends the groups. -/
theorem endsGroups_of_head {rest : List Char} (hdot : '.' ∉ rest)
    (h : ∀ c ∈ rest.head?, to_digit 16 c = none ∧ c ≠ ':') : EndsGroups rest := by
  have hstops : Stops 16 rest := fun c hc => (h c hc).1
  refine ⟨hstops, ?_, hdot⟩
  intro i
  cases i with
  | zero => exact number_of_stops hstops
  | succ i => exact separator_succ_of_ne fun hc => (h ':' hc).2 rfl

/-- A colon ends a hexadecimal number. -/
theorem stops_colon (rest : List Char) : Stops 16 (':' :: rest) := by
  rintro c ⟨⟩
  rfl

/-- A second colon ends the groups before it. -/
theorem endsGroups_double_colon {rest : List Char} (hdot : '.' ∉ rest) :
    EndsGroups (':' :: ':' :: rest) := by
  have hnone : ∀ s, read_group (':' :: s) = none := fun s => number_of_stops (stops_colon s)
  refine ⟨stops_colon _, ?_, by simp [hdot]⟩
  intro i
  cases i with
  | zero => exact hnone (':' :: rest)
  | succ i =>
      rw [separator_succ]
      exact hnone rest

/-- A hexadecimal number has no dot. -/
theorem dot_notMem_toDigits (n : Nat) : '.' ∉ Nat.toDigits 16 n := fun h =>
  to_digit_of_mem_toDigits (by decide) (by decide) h rfl

/-- Nor have groups, each after its colon. -/
theorem dot_notMem_after_colons (gs : List Nat) : '.' ∉ after_colons gs := by
  simp [after_colons, dot_notMem_toDigits]

/-- Nor have groups with colons between them. -/
theorem dot_notMem_colons (gs : List Nat) : '.' ∉ colons gs := by
  cases gs with
  | nil => exact List.not_mem_nil
  | cons g gs => simp [colons, dot_notMem_toDigits, dot_notMem_after_colons]

/-- After a group comes a colon or what follows the groups: both end the number. -/
theorem stops_after_colons (gs : List Nat) {rest : List Char} (h : Stops 16 rest) :
    Stops 16 (after_colons gs ++ rest) := by
  cases gs with
  | nil => exact h
  | cons g gs => exact stops_colon _

/-- The hexadecimal text of a group is read back as the group. -/
theorem read_group_hex {g : Nat} (hg : g < 65536) {rest : List Char} (h : Stops 16 rest) :
    read_group (Nat.toDigits 16 g ++ rest) = some (g, rest) := by
  refine number_toDigits (by decide) (by decide) true hg ?_ h
  rintro m ⟨⟩
  exact ⟨by decide, hg⟩

/-- One group, where no IPv4 address stands. -/
theorem read_groups_step {i left g : Nat} {s s' : List Char}
    (hv4 : separator ':' i read_ipv4_addr s = none)
    (h : separator ':' i read_group s = some (g, s')) :
    read_groups i (left + 1) s
      = (g :: (read_groups (i + 1) left s').1, (read_groups (i + 1) left s').2) := by
  simp only [read_groups, hv4, ite_self, h]

/-- Where the groups end none is read. -/
theorem read_groups_end {rest : List Char} (hend : EndsGroups rest) (i left : Nat) :
    read_groups i left rest = ([], false, rest) := by
  cases left with
  | zero => rfl
  | succ left =>
      simp only [read_groups, separator_ipv4_of_no_dot hend.no_dot, ite_self, hend.no_group i]

/-- Groups after the first are read back in order.  By induction on the groups. -/
theorem read_groups_after_colons {gs : List Nat} (hgs : ∀ g ∈ gs, g < 65536) (i : Nat)
    {left : Nat} (hlen : gs.length ≤ left) {rest : List Char} (hend : EndsGroups rest) :
    read_groups (i + 1) left (after_colons gs ++ rest) = (gs, false, rest) := by
  induction gs generalizing i left with
  | nil => exact read_groups_end hend _ _
  | cons g gs ih =>
      obtain ⟨left, rfl⟩ : ∃ n, left = n + 1 := Nat.exists_eq_succ_of_ne_zero
        (Nat.ne_of_gt (Nat.lt_of_lt_of_le (Nat.zero_lt_succ _) hlen))
      have htext : after_colons (g :: gs) ++ rest
          = ':' :: (Nat.toDigits 16 g ++ (after_colons gs ++ rest)) := by
        simp [after_colons]
      have hdot : '.' ∉ after_colons (g :: gs) ++ rest := by
        simp [dot_notMem_after_colons, hend.no_dot]
      have hread : separator ':' (i + 1) read_group (after_colons (g :: gs) ++ rest)
          = some (g, after_colons gs ++ rest) := by
        rw [htext, separator_succ]
        exact read_group_hex (hgs g List.mem_cons_self) (stops_after_colons gs hend.stops)
      rw [read_groups_step (separator_ipv4_of_no_dot hdot _) hread,
        ih (fun g' h => hgs g' (List.mem_cons_of_mem _ h)) (i + 1) (Nat.le_of_succ_le_succ hlen)]

/-- **GROUPS ROUND TRIP**: colon-separated groups are read up to the end of the list. -/
theorem read_groups_colons {gs : List Nat} (hgs : ∀ g ∈ gs, g < 65536) {left : Nat}
    (hlen : gs.length ≤ left) {rest : List Char} (hend : EndsGroups rest) :
    read_groups 0 left (colons gs ++ rest) = (gs, false, rest) := by
  cases gs with
  | nil => exact read_groups_end hend _ _
  | cons g gs =>
      obtain ⟨left, rfl⟩ : ∃ n, left = n + 1 := Nat.exists_eq_succ_of_ne_zero
        (Nat.ne_of_gt (Nat.lt_of_lt_of_le (Nat.zero_lt_succ _) hlen))
      have hdot : '.' ∉ colons (g :: gs) ++ rest := by
        simp [dot_notMem_colons, hend.no_dot]
      have hread : separator ':' 0 read_group (colons (g :: gs) ++ rest)
          = some (g, after_colons gs ++ rest) := by
        rw [separator_zero, colons, List.append_assoc]
        exact read_group_hex (hgs g List.mem_cons_self) (stops_after_colons gs hend.stops)
      rw [read_groups_step (separator_ipv4_of_no_dot hdot _) hread, read_groups_after_colons
        (fun g' h => hgs g' (List.mem_cons_of_mem _ h)) 0 (Nat.le_of_succ_le_succ hlen) hend]

/-- `fmt_subslice` writes the groups with colons between them. -/
theorem fmt_subslice_text (gs : List Nat) : (fmt_subslice gs).toList = colons gs := by
  have hhex : ∀ n, (hex n).toList = Nat.toDigits 16 n := fun n => String.toList_ofList
  rw [fmt_subslice, String.toList_intercalate]
  induction gs with
  | nil => rfl
  | cons g gs ih =>
      cases gs with
      | nil => simp [colons, after_colons, List.intercalate, hhex]
      | cons g' gs =>
          simp only [List.map_cons, List.intercalate, List.intersperse, List.flatten_cons, hhex,
            colons, after_colons, List.flatMap_cons] at ih ⊢
          simpa using ih

/-! ## The run of zeros -/

/-- A run of zeros inside the list, as start and length. -/
structure ZeroRun (l : List Nat) (span : Nat × Nat) : Prop where
  bound : span.1 + span.2 ≤ l.length
  zero : ∀ k, span.1 ≤ k → k < span.1 + span.2 → l[k]? = some 0

/-- The empty run is one of zeros. -/
theorem ZeroRun.empty (l : List Nat) : ZeroRun l (0, 0) :=
  ⟨Nat.zero_le _, fun k _ h => absurd h (Nat.not_lt_zero k)⟩

/-- A zero right after a run makes it longer; after none it starts one. -/
theorem ZeroRun.extend {l : List Nat} {current next : Nat × Nat} {i : Nat}
    (hcur : ZeroRun l current) (hend : 0 < current.2 → current.1 + current.2 = i)
    (hi : i < l.length) (hzero : l[i]? = some 0)
    (hnext : next = if current.2 = 0 then (i, 1) else (current.1, current.2 + 1)) :
    ZeroRun l next ∧ next.1 + next.2 = i + 1 := by
  by_cases hnew : current.2 = 0
  · rw [if_pos hnew] at hnext
    subst hnext
    refine ⟨⟨hi, ?_⟩, rfl⟩
    intro k h1 h2
    obtain rfl : k = i := Nat.le_antisymm (Nat.le_of_lt_succ h2) h1
    exact hzero
  · rw [if_neg hnew] at hnext
    subst hnext
    have hat := hend (Nat.pos_of_ne_zero hnew)
    refine ⟨⟨?_, ?_⟩, ?_⟩
    · show current.1 + (current.2 + 1) ≤ l.length
      omega
    · intro k h1 h2
      have hlt : k < current.1 + (current.2 + 1) := h2
      by_cases hk : k = i
      · rw [hk]
        exact hzero
      · exact hcur.zero k h1 (by omega)
    · show current.1 + (current.2 + 1) = i + 1
      omega

/-- The pass keeps two runs of zeros, the longest so far and the one that ends here. -/
theorem zeroSpan_zeros {l : List Nat} (before : List Nat) {rest : List Nat}
    {longest current : Nat × Nat} (hl : l = before ++ rest) (hlong : ZeroRun l longest)
    (hcur : ZeroRun l current) (hend : 0 < current.2 → current.1 + current.2 = before.length) :
    ZeroRun l (zeroSpan rest before.length longest current) := by
  -- the run in progress ends right before the segment at hand, or is empty
  induction rest generalizing before longest current with
  | nil => exact hlong
  | cons s rest ih =>
      have hl' : l = (before ++ [s]) ++ rest := by
        rw [hl, List.append_assoc, List.singleton_append]
      have hlen : before.length + 1 = (before ++ [s]).length := by simp
      have hlt : before.length < l.length := by
        rw [hl, List.length_append, List.length_cons]
        omega
      simp only [zeroSpan]
      by_cases hs : s = 0
      · have hhere : l[before.length]? = some 0 := by
          rw [hl, List.getElem?_append_right (Nat.le_refl _), Nat.sub_self, hs]
          rfl
        obtain ⟨hrun, hsum⟩ := hcur.extend hend hlt hhere rfl
        rw [if_pos hs, hlen]
        generalize (if current.2 = 0 then (before.length, 1) else (current.1, current.2 + 1))
          = next at hrun hsum ⊢
        refine ih _ hl' ?_ hrun fun _ => hsum.trans hlen
        split
        · exact hrun
        · exact hlong
      · rw [if_neg hs, hlen]
        exact ih _ hl' hlong (.empty l) fun h => absurd h (Nat.lt_irrefl 0)

/-- An address is what stands before the run, the zeros of the run, and what stands after it. -/
theorem ZeroRun.split {l : List Nat} {span : Nat × Nat} (h : ZeroRun l span) :
    l = l.take span.1 ++ List.replicate span.2 0 ++ l.drop (span.1 + span.2) := by
  have hrun : (l.drop span.1).take span.2 = List.replicate span.2 0 := by
    rw [List.eq_replicate_iff]
    have hbound := h.bound
    refine ⟨by rw [List.length_take, List.length_drop]; omega, ?_⟩
    intro x hx
    obtain ⟨k, hk⟩ := List.mem_iff_getElem?.mp hx
    rw [List.getElem?_take] at hk
    split at hk
    · rename_i hlt
      rw [List.getElem?_drop, h.zero _ (Nat.le_add_right _ _) (by omega)] at hk
      exact (Option.some.inj hk).symm
    · exact nomatch hk
  rw [← hrun, List.append_assoc, ← List.drop_drop, List.take_append_drop, List.take_append_drop]

/-! ## IPv6 -/

/-- Sixteen octets make eight groups. -/
theorem segments_length (a : Ipv6Addr) : a.segments.length = 8 := by
  simp [Ipv6Addr.segments]

/-- A group has sixteen bits. -/
theorem segments_lt (a : Ipv6Addr) : ∀ g ∈ a.segments, g < 65536 := by
  intro g hg
  obtain ⟨i, _, rfl⟩ := List.mem_map.mp hg
  have hhi := (a.toList.getD (2 * i) 0).toNat_lt
  have hlo := (a.toList.getD (2 * i + 1) 0).toNat_lt
  omega

/-- The two bytes of a segment. -/
theorem segment_bytes (hi lo : UInt8) :
    UInt8.ofNat ((hi.toNat * 256 + lo.toNat) / 256) = hi
      ∧ UInt8.ofNat ((hi.toNat * 256 + lo.toNat) % 256) = lo := by
  have hlo := lo.toNat_lt
  have hdiv : (hi.toNat * 256 + lo.toNat) / 256 = hi.toNat := by omega
  have hmod : (hi.toNat * 256 + lo.toNat) % 256 = lo.toNat := by omega
  rw [hdiv, hmod]
  exact ⟨UInt8.ofNat_toNat, UInt8.ofNat_toNat⟩

/-- The group `k` is its two octets, the high one first. -/
theorem segments_getD (a : Ipv6Addr) {k : Nat} (hk : k < 8) :
    a.segments.getD k 0
      = (a.toList.getD (2 * k) 0).toNat * 256 + (a.toList.getD (2 * k + 1) 0).toNat := by
  simp [Ipv6Addr.segments, List.getD_eq_getElem?_getD, hk]

/-- Splitting an address into groups loses nothing. -/
theorem from_segments_segments (a : Ipv6Addr) : from_segments a.segments = a := by
  refine Vector.ext fun i hi => ?_
  have hget : a.toList.getD i 0 = a[i] := by simp [List.getD_eq_getElem?_getD, hi]
  obtain ⟨hhi, hlo⟩ := segment_bytes (a.toList.getD (2 * (i / 2)) 0)
    (a.toList.getD (2 * (i / 2) + 1) 0)
  simp only [from_segments, Vector.getElem_ofFn]
  rw [segments_getD a (by omega), hhi, hlo]
  by_cases heven : i % 2 = 0
  · rw [if_pos heven, show 2 * (i / 2) = i by omega, hget]
  · rw [if_neg heven, show 2 * (i / 2) + 1 = i by omega, hget]

/-- Groups around `::`, which stands for the zeros that are missing. -/
theorem read_ipv6_groups (head tail : List Nat) {n : Nat} (hn : 1 < n)
    (hlen : head.length + n + tail.length = 8) (hhead : ∀ g ∈ head, g < 65536)
    (htail : ∀ g ∈ tail, g < 65536) {rest : List Char} (hend : EndsGroups rest) :
    read_ipv6_addr (colons head ++ ':' :: ':' :: (colons tail ++ rest))
      = some (from_segments (head ++ List.replicate n 0 ++ tail), rest) := by
  have hdot : '.' ∉ colons tail ++ rest := by simp [dot_notMem_colons, hend.no_dot]
  have hcount : 8 - head.length - tail.length = n := by omega
  simp only [read_ipv6_addr,
    read_groups_colons hhead (by omega : head.length ≤ 8) (endsGroups_double_colon hdot)]
  rw [if_neg (by omega), if_neg Bool.false_ne_true]
  simp only [given_char_cons, bind, Option.bind_some,
    read_groups_colons htail (by omega : tail.length ≤ 8 - (head.length + 1)) hend, hcount]

/-- Eight groups written out are read back. -/
theorem read_ipv6_full {gs : List Nat} (hlen : gs.length = 8) (hgs : ∀ g ∈ gs, g < 65536)
    {rest : List Char} (hend : EndsGroups rest) :
    read_ipv6_addr (colons gs ++ rest) = some (from_segments gs, rest) := by
  simp only [read_ipv6_addr, read_groups_colons hgs (Nat.le_of_eq hlen) hend, if_pos hlen]

/-- The last two segments of a mapped address are its IPv4 address. -/
theorem segments_of_mapped {a : Ipv6Addr} {ipv4 : Ipv4Addr} (h : a.to_ipv4_mapped = some ipv4) :
    a.segments = List.replicate 5 0 ++ 0xffff :: ipv4_groups ipv4 := by
  simp only [Ipv6Addr.to_ipv4_mapped] at h
  obtain ⟨hhead, hv4⟩ := Option.ite_none_right_eq_some.mp h
  obtain rfl := Option.some.inj hv4
  have hdrop : a.segments.drop 6 = ipv4_groups #v[a[12], a[13], a[14], a[15]] := by
    simp [Ipv6Addr.segments, ipv4_groups, List.range_succ, List.getD_eq_getElem?_getD]
  rw [← List.take_append_drop 6 a.segments, hhead, hdrop]
  rfl

/-- A mapped address is written with its dotted tail. -/
theorem read_ipv6_mapped (ipv4 : Ipv4Addr) {rest : List Char} (hstop : Stops 10 rest) :
    read_ipv6_addr ("::ffff:".toList ++ (ipv4.to_string.toList ++ rest))
      = some (from_segments (List.replicate 5 0 ++ 0xffff :: ipv4_groups ipv4), rest) := by
  generalize htext : ipv4.to_string.toList ++ rest = text
  have hcolon : ∀ s, Stops 10 (':' :: s) := by
    rintro s c ⟨⟩
    rfl
  have hletter : Stops 10 ('f' :: 'f' :: 'f' :: 'f' :: ':' :: text) := by
    rintro c ⟨⟩
    rfl
  -- nothing stands before the double colon
  have hhead : read_groups 0 8 (':' :: ':' :: 'f' :: 'f' :: 'f' :: 'f' :: ':' :: text)
      = ([], false, ':' :: ':' :: 'f' :: 'f' :: 'f' :: 'f' :: ':' :: text) := by
    simp only [read_groups, separator_zero, read_ipv4_of_stops (hcolon _), ite_self, read_group,
      number_of_stops (stops_colon _)]
  have hffff : separator ':' 0 read_group ('f' :: 'f' :: 'f' :: 'f' :: ':' :: text)
      = some (0xffff, ':' :: text) :=
    read_group_hex (by decide : 0xffff < 65536) (stops_colon text)
  have hipv4 : read_groups 1 6 (':' :: text) = (ipv4_groups ipv4, true, rest) := by
    simp only [read_groups, separator_succ, ← htext, read_ipv4_text ipv4 hstop, Nat.zero_lt_succ,
      if_true]
  have htail : read_groups 0 7 ('f' :: 'f' :: 'f' :: 'f' :: ':' :: text)
      = (0xffff :: ipv4_groups ipv4, true, rest) := by
    have hv4 : separator ':' 0 read_ipv4_addr ('f' :: 'f' :: 'f' :: 'f' :: ':' :: text) = none :=
      read_ipv4_of_stops hletter
    rw [read_groups_step hv4 hffff, hipv4]
  show read_ipv6_addr (':' :: ':' :: 'f' :: 'f' :: 'f' :: 'f' :: ':' :: text) = _
  simp only [read_ipv6_addr, hhead, List.length_nil]
  rw [if_neg (by decide), if_neg Bool.false_ne_true]
  simp only [given_char_cons, bind, Option.bind_some, htail]
  rfl

/-- **IPV6 ROUND TRIP**, whatever ends the address. -/
theorem read_ipv6_text (a : Ipv6Addr) {rest : List Char} (hend : EndsGroups rest)
    (hstop : Stops 10 rest) :
    read_ipv6_addr (a.to_string.toList ++ rest) = some (a, rest) := by
  have hlen := segments_length a
  have hseg := segments_lt a
  cases hmap : a.to_ipv4_mapped with
  | some ipv4 =>
      simp only [Ipv6Addr.to_string, hmap, String.toList_append, List.append_assoc]
      rw [read_ipv6_mapped ipv4 hstop, ← segments_of_mapped hmap, from_segments_segments]
  | none =>
      simp only [Ipv6Addr.to_string, hmap]
      -- of the run that `::` stands for only two facts matter: it is a run of zeros, and
      -- it has at least two of them
      have hrun : ZeroRun a.segments (zeroSpan a.segments 0 (0, 0) (0, 0)) :=
        zeroSpan_zeros [] rfl (.empty _) (.empty _) fun h => absurd h (Nat.lt_irrefl 0)
      generalize zeroSpan a.segments 0 (0, 0) (0, 0) = span at hrun
      by_cases hspan : span.2 > 1
      · rw [if_pos hspan]
        have hsplit := hrun.split
        have hbound := hrun.bound
        simp only [String.toList_append, fmt_subslice_text, List.append_assoc]
        have hread := read_ipv6_groups (a.segments.take span.1)
          (a.segments.drop (span.1 + span.2)) hspan
          (by rw [List.length_take, List.length_drop]; omega)
          (fun g hg => hseg g (List.mem_of_mem_take hg))
          (fun g hg => hseg g (List.mem_of_mem_drop hg)) hend
        rw [← hsplit, from_segments_segments] at hread
        exact hread
      · rw [if_neg hspan, fmt_subslice_text, read_ipv6_full hlen hseg hend, from_segments_segments]

/-- No IPv4 address is read off an IPv6 text. -/
theorem read_ipv4_of_ipv6_text (a : Ipv6Addr) : read_ipv4_addr a.to_string.toList = none := by
  cases hmap : a.to_ipv4_mapped with
  | some ipv4 =>
      simp only [Ipv6Addr.to_string, hmap, String.toList_append]
      refine read_ipv4_of_stops ?_
      rintro c ⟨⟩
      rfl
  | none =>
      simp only [Ipv6Addr.to_string, hmap]
      refine read_ipv4_of_no_dot ?_
      split
      · simp [fmt_subslice_text, dot_notMem_colons]
      · rw [fmt_subslice_text]
        exact dot_notMem_colons _

/-- The text's end ends the groups. -/
theorem endsGroups_nil : EndsGroups [] :=
  endsGroups_of_head List.not_mem_nil fun _ h => nomatch h

/-- **IP ADDRESSES SURVIVE** printing and parsing. -/
theorem ip_round_trip (a : IpAddr) : parse_ip a.to_string = some a := by
  have hnil : ∀ radix, Stops radix [] := fun _ _ h => nomatch h
  cases a with
  | v4 a =>
      have hread := read_ipv4_text a (hnil 10)
      rw [List.append_nil] at hread
      simp only [parse_ip, whole, read_ip_addr, IpAddr.to_string, hread]
  | v6 a =>
      have hread := read_ipv6_text a endsGroups_nil (hnil 10)
      rw [List.append_nil] at hread
      simp only [parse_ip, whole, read_ip_addr, IpAddr.to_string, read_ipv4_of_ipv6_text, hread,
        Option.map_some]

/-! ## Socket addresses -/

/-- What the text of a socket address keeps. -/
def without_flowinfo : SocketAddr → SocketAddr
  | .v4 ip port => .v4 ip port
  | .v6 ip port _ scope_id => .v6 ip port 0 scope_id

/-- A decimal number has no dot. -/
theorem dot_notMem_decimal (n : Nat) : '.' ∉ Nat.toDigits 10 n := fun h =>
  to_digit_of_mem_toDigits (by decide) (by decide) h rfl

/-- A port's text is read back. -/
theorem read_port_text (port : UInt16) :
    read_port (':' :: Nat.toDigits 10 port.toNat) = some (port, []) := by
  have hnumber : number 10 none true 65536 (Nat.toDigits 10 port.toNat ++ [])
      = some (port.toNat, []) :=
    number_toDigits (by decide) (by decide) true port.toNat_lt (by rintro m ⟨⟩)
      fun _ h => nomatch h
  rw [List.append_nil] at hnumber
  simp only [read_port, given_char_cons, bind, Option.bind_some, hnumber, UInt16.ofNat_toNat]

/-- So is a scope's, up to the bracket. -/
theorem read_scope_id_text (scope_id : UInt32) (rest : List Char) :
    read_scope_id ('%' :: (Nat.toDigits 10 scope_id.toNat ++ ']' :: rest))
      = some (scope_id, ']' :: rest) := by
  have hnumber : number 10 none true 4294967296
      (Nat.toDigits 10 scope_id.toNat ++ ']' :: rest) = some (scope_id.toNat, ']' :: rest) := by
    refine number_toDigits (by decide) (by decide) true scope_id.toNat_lt (by rintro m ⟨⟩) ?_
    rintro c ⟨⟩
    rfl
  simp only [read_scope_id, given_char_cons, bind, Option.bind_some, hnumber, UInt32.ofNat_toNat]

/-- An IPv6 address ends before `]` and before `%`. -/
theorem read_ipv6_before {c : Char} (hc : to_digit 16 c = none ∧ to_digit 10 c = none ∧ c ≠ ':')
    (hdot : c ≠ '.') (a : Ipv6Addr) {rest : List Char} (hrest : '.' ∉ rest) :
    read_ipv6_addr (a.to_string.toList ++ c :: rest) = some (a, c :: rest) := by
  refine read_ipv6_text a (endsGroups_of_head ?_ ?_) ?_
  · simp [hdot.symm, hrest]
  · rintro d ⟨⟩
    exact ⟨hc.1, hc.2.2⟩
  · rintro d ⟨⟩
    exact hc.2.1

/-- After the bracket: the rest of an IPv6 socket address. -/
theorem read_socket_addr_v6_text (ip : Ipv6Addr) (port : UInt16) (scope_id : UInt32)
    {scope : List Char} (hscope : scope_id = 0 ∧ scope = []
      ∨ scope = '%' :: Nat.toDigits 10 scope_id.toNat) :
    read_socket_addr_v6 ('[' :: (ip.to_string.toList ++ (scope ++ ']' :: ':' ::
        Nat.toDigits 10 port.toNat)))
      = some (.v6 ip port 0 scope_id, []) := by
  have hport : '.' ∉ ':' :: Nat.toDigits 10 port.toNat := by simp [dot_notMem_decimal]
  rcases hscope with ⟨rfl, rfl⟩ | rfl
  · have hip := read_ipv6_before (c := ']') ⟨rfl, rfl, by decide⟩ (by decide) ip hport
    have hnone : read_scope_id (']' :: ':' :: Nat.toDigits 10 port.toNat) = none := rfl
    simp only [List.nil_append, read_socket_addr_v6, given_char_cons, bind, Option.bind_some, hip,
      hnone, Option.getD_none, read_port_text]
  · have hrest : '.' ∉ Nat.toDigits 10 scope_id.toNat ++ ']' :: ':' ::
        Nat.toDigits 10 port.toNat := by
      simp [dot_notMem_decimal]
    have hip := read_ipv6_before (c := '%') ⟨rfl, rfl, by decide⟩ (by decide) ip hrest
    simp only [List.cons_append, read_socket_addr_v6, given_char_cons, bind, Option.bind_some, hip,
      read_scope_id_text, Option.getD_some, read_port_text]

/-- **SOCKET ADDRESSES LOSE THEIR FLOW LABEL** and nothing else. -/
theorem sock_round_trip (a : SocketAddr) : parse_sock a.to_string = some (without_flowinfo a) := by
  cases a with
  | v4 ip port =>
      have htext : (SocketAddr.to_string (.v4 ip port)).toList
          = ip.to_string.toList ++ ':' :: Nat.toDigits 10 port.toNat := by
        simp [SocketAddr.to_string]
      have hread : read_ipv4_addr (ip.to_string.toList ++ ':' :: Nat.toDigits 10 port.toNat)
          = some (ip, ':' :: Nat.toDigits 10 port.toNat) := by
        refine read_ipv4_text ip ?_
        rintro c ⟨⟩
        rfl
      simp only [parse_sock, htext, whole, read_socket_addr, read_socket_addr_v4, hread, bind,
        Option.bind_some, read_port_text, without_flowinfo]
  | v6 ip port flowinfo scope_id =>
      obtain ⟨scope, hscope, htext⟩ : ∃ scope, (scope_id = 0 ∧ scope = []
            ∨ scope = '%' :: Nat.toDigits 10 scope_id.toNat)
          ∧ (SocketAddr.to_string (.v6 ip port flowinfo scope_id)).toList
            = '[' :: (ip.to_string.toList ++ (scope ++ ']' :: ':' ::
                Nat.toDigits 10 port.toNat)) := by
        by_cases hzero : scope_id = 0
        · exact ⟨[], .inl ⟨hzero, rfl⟩, by simp [SocketAddr.to_string, hzero]⟩
        · exact ⟨_, .inr rfl, by simp [SocketAddr.to_string, hzero]⟩
      have hv4 : ∀ s, read_socket_addr_v4 ('[' :: s) = none := by
        intro s
        have hstop : Stops 10 ('[' :: s) := by
          rintro c ⟨⟩
          rfl
        simp only [read_socket_addr_v4, read_ipv4_of_stops hstop, bind, Option.bind_none]
      simp only [parse_sock, htext, whole, read_socket_addr, hv4,
        read_socket_addr_v6_text ip port scope_id hscope, without_flowinfo]

end FwknoxAddr
