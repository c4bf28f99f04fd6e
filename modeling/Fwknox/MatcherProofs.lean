import Fwknox.PacketProofs
import Fwknox.ConfigProofs

/-! # Stanza matching — attribution is by HMAC

    `matcher.rs`.  The parser reports a wrong key as `HmacFailed` and nothing else
    that way, so the loop stops at the first stanza whose key verifies the packet's
    tag: `match_packet_eq`, for the lengths a packet can have.  A wire of any other
    length is charged to the first stanza of the list, whatever its key
    (`match_packet_out_of_range`), and `attributed_iff` puts the two together.

    `match_packet_matched` is what the rest of the daemon relies on. -/

namespace FwknoxMatcher

open FwknoxTypes FwknoxHeader FwknoxPacket FwknoxConfig CheckedSlice CheckedSlice.Outcome

/-! ## Where `HmacFailed` comes from -/

/-- The trailing tag of a wire verifies under the key derived from `master_key`. -/
def HmacVerifies (C : Crypto) (master_key wire : Bytes) : Prop :=
  HMAC_LEN ≤ wire.length
    ∧ C.hmac_verify (DerivedKeys.derive C master_key).hmac.toList
        (wire.take (wire.length - HMAC_LEN)) (wire.drop (wire.length - HMAC_LEN)) = true

instance (C : Crypto) (key wire : Bytes) : Decidable (HmacVerifies C key wire) :=
  inferInstanceAs (Decidable (_ ∧ _))

variable {C : Crypto}

/-- On a wire that splits, verification is of its parts. -/
theorem hmacVerifies_wire {key : Bytes} {q : Parts} (hfit : q.Fits) :
    HmacVerifies C key q.wire
      ↔ C.hmac_verify (DerivedKeys.derive C key).hmac.toList q.signed q.tag = true := by
  have hlen : q.wire.length - HMAC_LEN = q.signed.length := by
    rw [Parts.wire_length hfit, Parts.signed_length hfit, Nat.add_sub_cancel]
  have hle : HMAC_LEN ≤ q.wire.length := by
    rw [Parts.wire_length hfit]
    exact Nat.le_add_left _ _
  unfold HmacVerifies
  rw [hlen, Parts.wire, List.take_left, List.drop_left, ← Parts.wire]
  exact and_iff_right hle

/-- The part of `parse_packet` that follows the tag's verification. -/
def past_tag (C : Crypto) (master_key : Bytes) (q : Parts) : Outcome ProtoError SpaPayload := do
  let keys := DerivedKeys.derive C master_key
  let header ← Header.decode q.header
  ensure (q.sealed.length = header.payload_len.toNat) (.invalidField "payload_len mismatch")
  let plaintext ← aead_open C keys.enc.toList q.nonce q.header q.sealed
  let payload ← decode C plaintext
  check_flags_match_payload header.flags payload
  pure payload

/-- An error some check past the tag returns. -/
def PastTag : ProtoError → Prop
  | .unsupportedVersion _ | .reservedFlag _ | .invalidField _ | .aeadFailed | .payloadDecode _ =>
      True
  | _ => False

section Errors

variable {e : ProtoError} (he : ¬PastTag e)
include he

/-- A refused field is an error past the tag. -/
theorem ensure_field_ne_err {c : Prop} [Decidable c] (field : String) :
    ensure c (ProtoError.invalidField field) ≠ .err e :=
  ensure_ne_err fun h => he (h ▸ trivial)

/-- So is every error of the header. -/
theorem header_decode_ne_err {bytes : Bytes} (hlen : bytes.length = HEADER_LEN) :
    Header.decode bytes ≠ .err e := by
  obtain ⟨b0, b1, b2, b3, rfl⟩ := List.length_eq_four.mp hlen
  rw [decode_four]
  refine bind_ne_err (ensure_ne_err fun h => he (h ▸ trivial)) (fun _ _ => bind_ne_err ?_ ?_)
  · simp only [Flags.from_raw]
    split
    · intro h
      exact he (Outcome.err.inj h ▸ trivial)
    · exact ok_ne_err
  · exact fun _ _ => ok_ne_err

/-- So is a payload that does not open. -/
theorem aead_open_ne_err (key : Bytes) (n : GcmNonce) (aad c : Bytes) :
    aead_open C key n aad c ≠ .err e := by
  have haead : (.aeadFailed : ProtoError) ≠ e := fun h => he (h ▸ trivial)
  refine bind_ne_err (ensure_ne_err haead) (fun _ _ => ?_)
  refine bind_ne_err (ensure_ne_err haead) (fun _ _ => ?_)
  cases C.gcm_open key n aad c with
  | some b => exact ok_ne_err
  | none => exact fun h => haead (Outcome.err.inj h)

/-- So is one that does not decode. -/
theorem payload_decode_ne_err (b : Bytes) : decode C b ≠ .err e := by
  refine bind_ne_err ?_ (fun p _ => bind_ne_err ?_ (fun _ _ => ok_ne_err))
  · simp only [from_slice]
    cases C.rmp_from_slice b with
    | ok p => exact ok_ne_err
    | error r => exact fun h => he (Outcome.err.inj h ▸ trivial)
  · exact bind_ne_err (ensure_field_ne_err he _) (fun _ _ => ensure_field_ne_err he _)

/-- The lengths and the tag are settled before: no later check reports them. -/
theorem past_tag_ne_err {key : Bytes} {q : Parts} (hfit : q.Fits) : past_tag C key q ≠ .err e := by
  refine bind_ne_err (header_decode_ne_err he hfit.1) (fun hd _ => ?_)
  refine bind_ne_err (ensure_field_ne_err he _) (fun _ _ => ?_)
  refine bind_ne_err (aead_open_ne_err he _ _ _ _) (fun b _ => ?_)
  refine bind_ne_err (payload_decode_ne_err he b) (fun p _ => ?_)
  exact bind_ne_err (ensure_field_ne_err he _) (fun _ _ => ok_ne_err)

end Errors

/-- Once the tag verifies, the rest decides. -/
theorem parse_parts_of_verifies {key : Bytes} {q : Parts} (hfit : q.Fits)
    (hv : HmacVerifies C key q.wire) : parse_parts C key q = past_tag C key q := by
  have hok : FwknoxPacket.hmac_verify C (DerivedKeys.derive C key).hmac.toList q.signed q.tag
      = .ok () := (hmac_verify_eq_ok C).mpr ⟨hfit.2, (hmacVerifies_wire hfit).mp hv⟩
  simp only [parse_parts, hok, ok_bind]
  rfl

/-- On the parts, `HmacFailed` means exactly that the tag does not verify. -/
theorem parse_parts_hmacFailed_iff {key : Bytes} {q : Parts} (hfit : q.Fits) :
    parse_parts C key q = .err .hmacFailed ↔ ¬HmacVerifies C key q.wire := by
  constructor
  · intro h hv
    rw [parse_parts_of_verifies hfit hv] at h
    exact past_tag_ne_err id hfit h
  · intro hv
    have herr : FwknoxPacket.hmac_verify C (DerivedKeys.derive C key).hmac.toList q.signed q.tag
        = .err .hmacFailed := by
      unfold FwknoxPacket.hmac_verify
      rw [ensure_of_pos _ hfit.2, ok_bind, ensure_of_neg _ ((hmacVerifies_wire hfit).not.mp hv)]
    unfold parse_parts
    simp only [herr, err_bind]

/-- A wire of an admissible length fails under a key with `HmacFailed` exactly when the tag does
    not verify there. -/
theorem parse_packet_hmacFailed_iff {wire key : Bytes} (hkey : key.length = MASTER_KEY_LEN)
    (hmin : MIN_PACKET_LEN ≤ wire.length) (hmax : wire.length ≤ MAX_PACKET_LEN) :
    parse_packet C wire key = .err .hmacFailed ↔ ¬HmacVerifies C key wire := by
  rcases parse_packet_cases C wire key with ⟨hbad, _⟩ | ⟨_, q, hfit, _, rfl, hq⟩
  · rcases hbad with h | h | h
    · exact absurd hkey h
    · exact absurd hmin (Nat.not_le.mpr h)
    · exact absurd hmax (Nat.not_le.mpr h)
  · rw [hq]
    exact parse_parts_hmacFailed_iff hfit

/-! ## The loop over the stanzas -/

/-- `parse_packet` as the daemon sees it: it cannot panic. -/
def parse (C : Crypto) (wire master_key : Bytes) : Except ProtoError SpaPayload :=
  (parse_packet C wire master_key).result (parse_packet_ne_panic C wire master_key)

/-- `MatchResult`. -/
inductive MatchResult where
  | matched (stanza_name : String) (payload : SpaPayload)
  | noMatch
  | rejected (stanza_name : String) (reason : ProtoError)
  deriving DecidableEq

/-- The stanzas in order.  Only a tag that fails goes on to the next. -/
def match_packet (C : Crypto) (wire : Bytes) : List AccessStanza → MatchResult
  | [] => .noMatch
  | stanza :: rest =>
      match parse C wire stanza.master_key.toList with
      | .ok payload => .matched stanza.name payload
      | .error .hmacFailed => match_packet C wire rest
      | .error other => .rejected stanza.name other

/-- The parser accepted `wire` under the first stanza whose key verifies it. -/
structure FirstVerified (C : Crypto) (wire : Bytes) (access : List AccessStanza)
    (s : AccessStanza) (payload : SpaPayload) : Prop where
  parses : parse_packet C wire s.master_key.toList = .ok payload
  verifies : HmacVerifies C s.master_key.toList wire
  first : ∃ before after, access = before ++ s :: after
    ∧ ∀ s' ∈ before, ¬HmacVerifies C s'.master_key.toList wire

/-- An accepted wire verifies. -/
theorem hmacVerifies_of_parse {wire key : Bytes} {p : SpaPayload}
    (h : parse_packet C wire key = .ok p) : HmacVerifies C key wire
      ∧ MIN_PACKET_LEN ≤ wire.length ∧ wire.length ≤ MAX_PACKET_LEN := by
  rcases parse_packet_cases C wire key with ⟨_, e, he⟩ | ⟨⟨_, hmax⟩, q, hfit, hseal, rfl, hq⟩
  · rw [he] at h
    exact nomatch h
  · rw [hq] at h
    refine ⟨(hmacVerifies_wire hfit).mpr ((parse_parts_eq_ok C hfit hseal).mp h).1, ?_, hmax⟩
    rw [Parts.wire_length hfit, MIN_PACKET_LEN]
    omega

/-- The first stanza whose key verifies `wire`. -/
def first_verifying (C : Crypto) (wire : Bytes) (access : List AccessStanza) :
    Option AccessStanza :=
  access.find? (fun s => decide (HmacVerifies C s.master_key.toList wire))

/-- Being first is being found first. -/
theorem firstVerified_iff {wire : Bytes} {access : List AccessStanza} {s : AccessStanza}
    {payload : SpaPayload} :
    FirstVerified C wire access s payload
      ↔ first_verifying C wire access = some s
        ∧ parse_packet C wire s.master_key.toList = .ok payload := by
  rw [first_verifying, List.find?_eq_some_iff_append]
  simp only [decide_eq_true_eq, Bool.not_eq_true', decide_eq_false_iff_not]
  constructor
  · rintro ⟨hpar, hver, hfirst⟩
    exact ⟨⟨hver, hfirst⟩, hpar⟩
  · rintro ⟨⟨hver, hfirst⟩, hpar⟩
    exact ⟨hpar, hver, hfirst⟩

/-- If some key verifies there is a first one. -/
theorem exists_first_verifying {wire : Bytes} {access : List AccessStanza} {s : AccessStanza}
    (hs : s ∈ access) (hv : HmacVerifies C s.master_key.toList wire) :
    ∃ s₀, first_verifying C wire access = some s₀ := by
  refine Option.isSome_iff_exists.mp (List.find?_isSome.mpr ⟨s, hs, ?_⟩)
  exact decide_eq_true hv

/-- What the loop returns once it has stopped at a stanza. -/
def judge (C : Crypto) (wire : Bytes) (s : AccessStanza) : MatchResult :=
  match parse C wire s.master_key.toList with
  | .ok payload => .matched s.name payload
  | .error reason => .rejected s.name reason

/-- One stanza of the loop. -/
theorem match_packet_cons (wire : Bytes) (s : AccessStanza) (rest : List AccessStanza) :
    match_packet C wire (s :: rest)
      = if parse_packet C wire s.master_key.toList = .err .hmacFailed
        then match_packet C wire rest else judge C wire s := by
  simp only [match_packet, judge]
  cases hp : parse C wire s.master_key.toList with
  | ok payload =>
      rw [if_neg]
      rw [result_eq_ok.mp hp]
      exact ok_ne_err
  | error reason =>
      rw [result_eq_error.mp hp]
      by_cases hr : reason = .hmacFailed
      · subst hr
        rw [if_pos rfl]
      · rw [if_neg fun h => hr (Outcome.err.inj h)]
        split
        · rename_i h
          cases h
        · rename_i h
          exact absurd (Except.error.inj h) hr
        · rename_i h
          rw [Except.error.inj h]

/-- **THE LOOP ON A PACKET OF ANY ADMISSIBLE LENGTH**: the first stanza whose key
    verifies judges it, and no other is tried. -/
theorem match_packet_eq {wire : Bytes} (hmin : MIN_PACKET_LEN ≤ wire.length)
    (hmax : wire.length ≤ MAX_PACKET_LEN) (access : List AccessStanza) :
    match_packet C wire access = (first_verifying C wire access).elim .noMatch (judge C wire) := by
  induction access with
  | nil => rfl
  | cons s rest ih =>
      have hskip : parse_packet C wire s.master_key.toList = .err .hmacFailed
          ↔ ¬HmacVerifies C s.master_key.toList wire :=
        parse_packet_hmacFailed_iff Vector.length_toList hmin hmax
      rw [match_packet_cons, first_verifying, List.find?_cons]
      by_cases hv : HmacVerifies C s.master_key.toList wire
      · rw [if_neg fun h => hskip.mp h hv, decide_eq_true hv]
        rfl
      · rw [if_pos (hskip.mpr hv), decide_eq_false hv, ih]
        rfl

/-- The two errors of the length checks. -/
def length_error (wire : Bytes) : ProtoError :=
  if wire.length < MIN_PACKET_LEN then .packetTooShort wire.length MIN_PACKET_LEN
  else .packetTooLong wire.length MAX_PACKET_LEN

/-- The length checks come before the tag. -/
theorem length_error_not_pastTag (wire : Bytes) : ¬PastTag (length_error wire) := by
  simp only [length_error]
  split
  · exact id
  · exact id

/-- And they are no failure of the tag. -/
theorem length_error_ne_hmacFailed (wire : Bytes) : length_error wire ≠ .hmacFailed := by
  simp only [length_error]
  split
  · exact fun h => nomatch h
  · exact fun h => nomatch h

/-- Out of range the key makes no difference: every stanza gives the same error. -/
theorem parse_packet_out_of_range {wire key : Bytes} (hkey : key.length = MASTER_KEY_LEN)
    (h : ¬(MIN_PACKET_LEN ≤ wire.length ∧ wire.length ≤ MAX_PACKET_LEN)) :
    parse_packet C wire key = .err (length_error wire) := by
  by_cases hmin : wire.length < MIN_PACKET_LEN
  · rw [parse_packet_short C hkey hmin, length_error, if_pos hmin]
  · have hmax : MAX_PACKET_LEN < wire.length :=
      Nat.not_le.mp fun hle => h ⟨Nat.not_lt.mp hmin, hle⟩
    rw [parse_packet_long C hkey hmax, length_error, if_neg hmin]

/-- A wire of any other length is charged to the first stanza of the list. -/
theorem match_packet_out_of_range {wire : Bytes}
    (h : ¬(MIN_PACKET_LEN ≤ wire.length ∧ wire.length ≤ MAX_PACKET_LEN)) (s : AccessStanza)
    (rest : List AccessStanza) :
    match_packet C wire (s :: rest) = .rejected s.name (length_error wire) := by
  have hp : parse_packet C wire s.master_key.toList = .err (length_error wire) :=
    parse_packet_out_of_range Vector.length_toList h
  rw [match_packet_cons, hp, if_neg fun h => length_error_ne_hmacFailed wire (Outcome.err.inj h)]
  simp only [judge, parse, result_eq_error.mpr hp]

/-- Where the parser accepts, the stanza matches. -/
theorem judge_of_ok {wire : Bytes} {s : AccessStanza} {payload : SpaPayload}
    (h : parse_packet C wire s.master_key.toList = .ok payload) :
    judge C wire s = .matched s.name payload := by
  simp only [judge, parse, result_eq_ok.mpr h]

/-- What a judgement says about the parser's answer. -/
theorem judge_cases (wire : Bytes) (s : AccessStanza) :
    (∃ payload, parse_packet C wire s.master_key.toList = .ok payload
        ∧ judge C wire s = .matched s.name payload)
      ∨ ∃ reason, parse_packet C wire s.master_key.toList = .err reason
        ∧ judge C wire s = .rejected s.name reason := by
  simp only [judge]
  cases hp : parse C wire s.master_key.toList with
  | ok payload => exact .inl ⟨payload, result_eq_ok.mp hp, rfl⟩
  | error reason => exact .inr ⟨reason, result_eq_error.mp hp, rfl⟩

/-- **ATTRIBUTION**: a match names the first stanza whose key verifies the packet, and
    carries the payload the parser returns under it. -/
theorem match_packet_matched {wire : Bytes} {access : List AccessStanza} {name : String}
    {payload : SpaPayload} (h : match_packet C wire access = .matched name payload) :
    ∃ s, s.name = name ∧ FirstVerified C wire access s payload := by
  by_cases hlen : MIN_PACKET_LEN ≤ wire.length ∧ wire.length ≤ MAX_PACKET_LEN
  · rw [match_packet_eq hlen.1 hlen.2] at h
    cases hs : first_verifying C wire access with
    | none =>
        rw [hs] at h
        cases h
    | some s =>
        rw [hs, Option.elim_some] at h
        rcases judge_cases (C := C) wire s with ⟨p, hp, hj⟩ | ⟨e, _, hj⟩
        · rw [hj] at h
          cases h
          exact ⟨s, rfl, firstVerified_iff.mpr ⟨hs, hp⟩⟩
        · rw [hj] at h
          cases h
  · cases access with
    | nil => cases h
    | cons s rest =>
        rw [match_packet_out_of_range hlen] at h
        cases h

/-- The converse of `match_packet_matched`. -/
theorem match_packet_of_firstVerified {wire : Bytes} {access : List AccessStanza}
    {s : AccessStanza} {payload : SpaPayload} (h : FirstVerified C wire access s payload) :
    match_packet C wire access = .matched s.name payload := by
  obtain ⟨_, hmin, hmax⟩ := hmacVerifies_of_parse h.parses
  rw [match_packet_eq hmin hmax, (firstVerified_iff.mp h).1, Option.elim_some,
    judge_of_ok h.parses]

/-- The first that verifies is one of the stanzas. -/
theorem FirstVerified.mem {wire : Bytes} {access : List AccessStanza} {s : AccessStanza}
    {payload : SpaPayload} (h : FirstVerified C wire access s payload) : s ∈ access := by
  obtain ⟨before, after, rfl, _⟩ := h.first
  exact List.mem_append_right _ List.mem_cons_self

/-! ## Attribution of every answer -/

/-- Each of the three answers means what it says about the tag. -/
structure Attributed (C : Crypto) (wire : Bytes) (access : List AccessStanza) : Prop where
  noMatch_iff : match_packet C wire access = .noMatch
    ↔ ∀ s ∈ access, ¬HmacVerifies C s.master_key.toList wire
  matched : ∀ name payload, match_packet C wire access = .matched name payload →
    ∃ s, first_verifying C wire access = some s ∧ s.name = name
      ∧ parse_packet C wire s.master_key.toList = .ok payload
  rejected : ∀ name reason, match_packet C wire access = .rejected name reason →
    ∃ s, first_verifying C wire access = some s ∧ s.name = name
      ∧ ∃ q : Parts, q.Fits ∧ wire = q.wire ∧ past_tag C s.master_key.toList q = .err reason

/-- Under a key that verifies, a packet of admissible length fails past the tag. -/
theorem parse_packet_err_past_tag {wire key : Bytes} {e : ProtoError}
    (hkey : key.length = MASTER_KEY_LEN) (hmin : MIN_PACKET_LEN ≤ wire.length)
    (hmax : wire.length ≤ MAX_PACKET_LEN) (hv : HmacVerifies C key wire)
    (h : parse_packet C wire key = .err e) :
    ∃ q : Parts, q.Fits ∧ wire = q.wire ∧ past_tag C key q = .err e := by
  rcases parse_packet_cases C wire key with ⟨hbad, _⟩ | ⟨_, q, hfit, _, rfl, hq⟩
  · rcases hbad with hk | hshort | hlong
    · exact absurd hkey hk
    · exact absurd hmin (Nat.not_le.mpr hshort)
    · exact absurd hmax (Nat.not_le.mpr hlong)
  · exact ⟨q, hfit, rfl, by rw [← parse_parts_of_verifies hfit hv, ← hq, h]⟩

/-- None is found when none verifies. -/
theorem first_verifying_eq_none {wire : Bytes} {access : List AccessStanza} :
    first_verifying C wire access = none
      ↔ ∀ s ∈ access, ¬HmacVerifies C s.master_key.toList wire := by
  simp only [first_verifying, List.find?_eq_none, decide_eq_true_eq]

/-- The one that is found verifies. -/
theorem first_verifying_some {wire : Bytes} {access : List AccessStanza} {s : AccessStanza}
    (h : first_verifying C wire access = some s) :
    s ∈ access ∧ HmacVerifies C s.master_key.toList wire := by
  obtain ⟨hv, before, after, rfl, _⟩ := List.find?_eq_some_iff_append.mp h
  exact ⟨List.mem_append_right _ List.mem_cons_self, of_decide_eq_true hv⟩

section Answers

variable {wire : Bytes} {access : List AccessStanza} {s : AccessStanza}

/-- No key verifies, and nobody is named. -/
theorem attributed_of_noMatch (h : match_packet C wire access = .noMatch)
    (hnone : ∀ s ∈ access, ¬HmacVerifies C s.master_key.toList wire) :
    Attributed C wire access := by
  refine ⟨iff_of_true h hnone, ?_, ?_⟩
  · intro name payload h'
    cases h.symm.trans h'
  · intro name reason h'
    cases h.symm.trans h'

/-- The stanza that verifies first is named with its payload. -/
theorem attributed_of_matched {payload : SpaPayload}
    (h : match_packet C wire access = .matched s.name payload)
    (hs : first_verifying C wire access = some s)
    (hp : parse_packet C wire s.master_key.toList = .ok payload) : Attributed C wire access := by
  obtain ⟨hmem, hv⟩ := first_verifying_some hs
  refine ⟨iff_of_false ?_ fun hnone => hnone s hmem hv, ?_, ?_⟩
  · intro h'
    cases h.symm.trans h'
  · intro name payload h'
    cases h.symm.trans h'
    exact ⟨s, hs, rfl, hp⟩
  · intro name reason h'
    cases h.symm.trans h'

/-- It is named too when the packet fails past the tag. -/
theorem attributed_of_rejected {reason : ProtoError}
    (h : match_packet C wire access = .rejected s.name reason)
    (hs : first_verifying C wire access = some s)
    (hp : ∃ q : Parts, q.Fits ∧ wire = q.wire ∧ past_tag C s.master_key.toList q = .err reason) :
    Attributed C wire access := by
  obtain ⟨hmem, hv⟩ := first_verifying_some hs
  refine ⟨iff_of_false ?_ fun hnone => hnone s hmem hv, ?_, ?_⟩
  · intro h'
    cases h.symm.trans h'
  · intro name payload h'
    cases h.symm.trans h'
  · intro name reason h'
    cases h.symm.trans h'
    exact ⟨s, hs, rfl, hp⟩

end Answers

/-- In range the answer goes to the first stanza that verifies, if any does. -/
theorem attributed_in_range {wire : Bytes} (hmin : MIN_PACKET_LEN ≤ wire.length)
    (hmax : wire.length ≤ MAX_PACKET_LEN) (access : List AccessStanza) :
    Attributed C wire access := by
  have hloop := match_packet_eq (C := C) hmin hmax access
  cases hs : first_verifying C wire access with
  | none =>
      rw [hs, Option.elim_none] at hloop
      exact attributed_of_noMatch hloop (first_verifying_eq_none.mp hs)
  | some s =>
      rw [hs, Option.elim_some] at hloop
      obtain ⟨_, hv⟩ := first_verifying_some hs
      rcases judge_cases (C := C) wire s with ⟨p, hp, hj⟩ | ⟨e, hp, hj⟩
      · exact attributed_of_matched (hloop.trans hj) hs hp
      · exact attributed_of_rejected (hloop.trans hj) hs
          (parse_packet_err_past_tag Vector.length_toList hmin hmax hv hp)

/-- The error of a length check is not one of a check past the tag. -/
theorem not_attributed_out_of_range {wire : Bytes}
    (h : ¬(MIN_PACKET_LEN ≤ wire.length ∧ wire.length ≤ MAX_PACKET_LEN)) (s : AccessStanza)
    (rest : List AccessStanza) : ¬Attributed C wire (s :: rest) := by
  intro ha
  obtain ⟨_, _, _, q, hfit, _, hq⟩ := ha.rejected _ _ (match_packet_out_of_range h s rest)
  exact past_tag_ne_err (length_error_not_pastTag wire) hfit hq

/-- **WHEN ATTRIBUTION IS BY HMAC**: for every wire and every list of stanzas, exactly
    when the length is one a packet can have, or there is no stanza at all. -/
theorem attributed_iff (C : Crypto) (wire : Bytes) (access : List AccessStanza) :
    Attributed C wire access
      ↔ access = [] ∨ (MIN_PACKET_LEN ≤ wire.length ∧ wire.length ≤ MAX_PACKET_LEN) := by
  by_cases hlen : MIN_PACKET_LEN ≤ wire.length ∧ wire.length ≤ MAX_PACKET_LEN
  · exact iff_of_true (attributed_in_range hlen.1 hlen.2 access) (.inr hlen)
  · cases access with
    | nil =>
        exact iff_of_true (attributed_of_noMatch rfl fun _ h => nomatch h) (.inl rfl)
    | cons s rest =>
        refine iff_of_false (not_attributed_out_of_range hlen s rest) ?_
        rintro (h | h)
        · cases h
        · exact hlen h

/-- An empty datagram is reported as a rejected packet of the first stanza, though no key
    verifies it. -/
theorem empty_datagram_attributed_to_ssh :
    match_packet sampleRow.crypto [] [sampleStanza] = .rejected "ssh" (.packetTooShort 0 64)
      ∧ first_verifying sampleRow.crypto [] [sampleStanza] = none
      ∧ ¬Attributed sampleRow.crypto [] [sampleStanza] :=
  ⟨match_packet_out_of_range (by decide) sampleStanza [], by decide,
    not_attributed_out_of_range (by decide) sampleStanza []⟩

end FwknoxMatcher
