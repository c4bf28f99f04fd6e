import Fwknox.CompletenessProofs
import Fwknox.NftProofs

/-! # Enforcement — what a stanza says and what its rules carry

    Three promises about the rules a run hands to the firewall.  A stanza may name the
    only user it serves and a timeout of its own that no rule may exceed; every element
    that reaches the kernel should expire; and the lifetime a client asks for should be
    the one its rule gets, up to the maximum.

    Route:
    * `inEveryRun_granted` — in both modes every rule of a run is the `granted_rule` of
      the packet behind it, so the whole rule, and not only a bound on its timeout,
      is known;
    * `enforced_iff` — neither mode reads `require_username` or the stanza's
      `max_fw_timeout`: a configuration keeps the promise iff no packet its stanzas would
      authorize breaks it;
    * `expiring_iff` — a rule expires iff the timeout picked for it is at least one
      second: the configuration check looks neither at a stanza's own `fw_timeout` nor
      below a second;
    * `honoured_iff` — the client's timeout travels in the packet and its header flag is
      checked, but no mode reads it: the rule gets the requested lifetime iff the client
      asked for none, for what it would have got anyway, or for no less than the maximum
      where the maximum applies anyway. -/

namespace FwknoxEnforcement

open FwknoxTypes FwknoxClock FwknoxConfig FwknoxPacket FwknoxMatcher FwknoxPersist FwknoxWorld
open FwknoxReplay FwknoxPipeline FwknoxAuthorization FwknoxCompleteness FwknoxNft Netfilter LruMap
open EffectProg EffectProg.Prog

/-! ## Every rule is a granted rule -/

/-- The rule of a call is the one its packet was granted. -/
def GrantedBy (X : Ext) (config : DaemonConfig) (env : Env) (c : Cause) (rule : AccessRule) :
    Prop :=
  ∃ name stanza payload source_ip ports,
    Grant X config c.packet (env.clock c.start) name stanza payload source_ip ports
      ∧ rule = granted_rule config stanza payload source_ip ports

/-- `P` holds of every call in every run of either mode from `w`. -/
def InEveryRun (X : Ext) (config : DaemonConfig) (persist_path : Option String) (env : Env)
    (w : World) (P : Cause → AccessRule → Prop) : Prop :=
  (∀ ops, ∀ c ∈ (run_daemon X config persist_path env 0 ops w).calls, P c.1 c.2)
    ∧ ∀ ls, ∀ c ∈ (run_privsep X config persist_path env ls (Privsep.start w)).world.calls,
        P c.1 c.2

variable {X : Ext} {config : DaemonConfig} {persist_path : Option String} {env : Env}

/-- What follows from a property of every run holds in every run. -/
theorem InEveryRun.imp {w : World} {P Q : Cause → AccessRule → Prop}
    (h : InEveryRun X config persist_path env w P) (hPQ : ∀ c rule, P c rule → Q c rule) :
    InEveryRun X config persist_path env w Q :=
  ⟨fun ops c hc => hPQ _ _ (h.1 ops c hc), fun ls c hc => hPQ _ _ (h.2 ls c hc)⟩

/-- One process: every call was granted. -/
theorem granted_run (ops : List DaemonOp) (n : Nat) {w : World}
    (h : ∀ c ∈ w.calls, GrantedBy X config env c.1 c.2) :
    ∀ c ∈ (run_daemon X config persist_path env n ops w).calls, GrantedBy X config env c.1 c.2 := by
  induction ops generalizing n w with
  | nil => exact h
  | cons o ops ih =>
      cases o with
      | prune =>
          refine ih n ?_
          rw [prune_calls]
          exact h
      | packet p =>
          refine ih (n + 1) ?_
          rcases packet_calls n p w with hc | ⟨name, s, pl, sip, pts, hc, hg⟩
          · rw [hc]
            exact h
          · rw [hc]
            intro c hmem
            rcases List.mem_append.mp hmem with hold | hnew
            · exact h c hold
            · rw [List.mem_singleton.mp hnew]
              exact ⟨name, s, pl, sip, pts, hg, rfl⟩

/-- The separated mode: what was called was granted, and so is what the parent can
    still call for the packet it handles. -/
structure GrantInv (X : Ext) (config : DaemonConfig) (env : Env) (s : Privsep) : Prop where
  calls : ∀ c ∈ s.world.calls, GrantedBy X config env c.1 c.2
  held : OpensAtMost (GrantedBy X config env s.world.current) 1 s.parent

/-- The crypto worker calls nobody. -/
theorem grantInv_crypto {s : Privsep} (h : GrantInv X config env s) :
    GrantInv X config env (PrivsepStep.run X config persist_path env .crypto s) := by
  obtain ⟨captured, chan, cq, parent, w⟩ := s
  cases chan with
  | nil => exact h
  | cons q rest =>
      obtain ⟨_, hcalls, hcur⟩ := validate_capture_msg_exec X config env q.2 w
      refine ⟨?_, ?_⟩
      · intro c hmem
        exact h.calls c (hcalls ▸ hmem)
      · simp only [PrivsepStep.run, hcur]
        exact h.held

/-- The parent takes a message that was validated, and may open its one rule. -/
theorem grantInv_recv {s : Privsep} (hinv : PrivsepInv X config env s)
    (h : GrantInv X config env s) :
    GrantInv X config env (PrivsepStep.run X config persist_path env .recv s) := by
  obtain ⟨captured, chan, cq, parent, w⟩ := s
  cases parent with
  | op e k => exact h
  | ret u =>
      cases cq with
      | nil => exact h
      | cons q rest =>
          obtain ⟨c, msg⟩ := q
          obtain ⟨_, hgrant⟩ := hinv.validated (c, msg) List.mem_cons_self
          refine ⟨h.calls, ?_⟩
          show OpensAtMost (GrantedBy X config env c) 1 (handle_crypto_msg config persist_path msg)
          cases msg with
          | validRequest n src pl =>
              obtain ⟨stanza, sip, pts, hg⟩ := hgrant n src pl rfl
              exact opensAtMost_handle hg ⟨n, stanza, pl, sip, pts, hg, rfl⟩
          | rejected => trivial
          | noMatch => trivial

/-- A prune opens none. -/
theorem grantInv_prune {s : Privsep} (h : GrantInv X config env s) :
    GrantInv X config env (PrivsepStep.run X config persist_path env .prune s) := by
  obtain ⟨captured, chan, cq, parent, w⟩ := s
  cases parent with
  | op e k => exact h
  | ret u => exact ⟨h.calls, (opensAtMost_prune _ _).mono (Nat.zero_le 1)⟩

/-- The parent's effect is its one rule, or none. -/
theorem grantInv_parent {s : Privsep} (h : GrantInv X config env s) :
    GrantInv X config env (PrivsepStep.run X config persist_path env .parent s) := by
  obtain ⟨captured, chan, cq, parent, w⟩ := s
  cases parent with
  | ret u => exact h
  | op e k =>
      obtain ⟨hgranted, hheld⟩ := h
      have hcur := handler_current env w e
      have hcalls := handler_calls env w e
      cases he : e.opens with
      | none =>
          rw [he] at hcalls
          refine ⟨?_, ?_⟩
          · intro c hmem
            exact hgranted c (List.append_nil w.calls ▸ hcalls ▸ hmem)
          · simp only [PrivsepStep.run, hcur]
            exact (opensAtMost_op_none he).mp hheld _
      | some rule =>
          obtain ⟨m, hm, hr, hk⟩ := (opensAtMost_op_some he).mp hheld
          rw [he] at hcalls
          refine ⟨?_, ?_⟩
          · intro c hmem
            have hmem' : c ∈ w.calls ++ [(w.current, rule)] := hcalls ▸ hmem
            rcases List.mem_append.mp hmem' with hold | hnew
            · exact hgranted c hold
            · rw [List.mem_singleton.mp hnew]
              exact hr
          · simp only [PrivsepStep.run, hcur]
            exact (hk _).mono (by omega)

/-- Every step of the separated mode keeps it. -/
theorem grantInv_step (l : PrivsepStep) {s : Privsep} (hinv : PrivsepInv X config env s)
    (h : GrantInv X config env s) : GrantInv X config env (l.run X config persist_path env s) := by
  cases l with
  | capture p => exact ⟨h.calls, h.held⟩
  | crypto => exact grantInv_crypto h
  | recv => exact grantInv_recv hinv h
  | prune => exact grantInv_prune h
  | parent => exact grantInv_parent h

/-- So does every schedule. -/
theorem grantInv_run (hv : config.validate = .ok ()) (ls : List PrivsepStep) {s : Privsep}
    (hinv : PrivsepInv X config env s) (h : GrantInv X config env s) :
    GrantInv X config env (run_privsep X config persist_path env ls s) := by
  induction ls generalizing s with
  | nil => exact h
  | cons l ls ih => exact ih (privsepInv_step hv l hinv) (grantInv_step l hinv h)

/-- **EVERY RULE IS GRANTED**, whole, in every run of either mode. -/
theorem inEveryRun_granted (hv : config.validate = .ok ()) {w : World} (hw : w.calls = []) :
    InEveryRun X config persist_path env w (GrantedBy X config env) := by
  have hstart : ∀ c ∈ w.calls, GrantedBy X config env c.1 c.2 := by
    rw [hw]
    exact fun c hc => nomatch hc
  constructor
  · intro ops
    exact granted_run ops 0 hstart
  · intro ls
    exact (grantInv_run hv ls (privsepInv_start w hw) ⟨hstart, trivial⟩).calls

/-- Only one stanza can authorize a packet, so the rule is known from any account of it. -/
theorem GrantedBy.rule_eq (hv : config.validate = .ok ()) {c : Cause} {rule : AccessRule}
    (hg : GrantedBy X config env c rule) {s : AccessStanza} {payload : SpaPayload}
    {source_ip : IpAddr} {ports : List PortProto}
    (ha : Authorizes X config c.packet (env.clock c.start) s payload source_ip ports rule) :
    rule = granted_rule config s payload source_ip ports := by
  obtain ⟨name, stanza, pl, sip, pts, hg, rfl⟩ := hg
  obtain ⟨hfirst, hpar⟩ := firstVerified_iff.mp ha.stanza
  obtain ⟨hfirst', hpar'⟩ := firstVerified_iff.mp (authorizes_of_grant hv hg).stanza
  cases hfirst.symm.trans hfirst'
  cases hpar.symm.trans hpar'
  cases ha.message.symm.trans hg.message
  rfl

/-! ## The restrictions of a stanza -/

/-- What the documentation of a stanza promises about the rules it authorizes. -/
structure Enforced (s : AccessStanza) (payload : SpaPayload) (rule : AccessRule) : Prop where
  username : ∀ u, s.require_username = some u → payload.username = u
  timeout : ∀ d, s.max_fw_timeout = some d → rule.timeout ≤ d

/-- Some packet with this payload is authorized by `s` at some time. -/
def Admits (X : Ext) (config : DaemonConfig) (s : AccessStanza) (payload : SpaPayload) : Prop :=
  ∃ p t source_ip ports rule, Authorizes X config p t s payload source_ip ports rule

/-- A stanza for one user admits nobody else's packets, and where a stanza has a maximum of its
    own the timeout that is picked without it, or the daemon's maximum, does not exceed it. -/
structure Complies (X : Ext) (config : DaemonConfig) : Prop where
  username : ∀ s u, s.require_username = some u →
    ¬∃ payload, Admits X config s payload ∧ payload.username ≠ u
  timeout : ∀ s d, s.max_fw_timeout = some d → (∃ payload, Admits X config s payload) →
    s.fw_timeout.getD config.daemon.default_fw_timeout ≤ d ∨ config.daemon.max_fw_timeout ≤ d

/-- The clamped timeout keeps a bound that either timeout keeps. -/
theorem clamp_timeout_le_iff {a b d : Duration} : clamp_timeout a b ≤ d ↔ a ≤ d ∨ b ≤ d := by
  simp only [Duration.le_iff_as_nanos_le, clamp_timeout_as_nanos]
  omega

/-- What authorizes a rule is a grant. -/
theorem grant_of_authorizes (hv : config.validate = .ok ()) {p : CapturedPacket} {t : SystemTime}
    {s : AccessStanza} {payload : SpaPayload} {source_ip : IpAddr} {ports : List PortProto}
    {rule : AccessRule} (ha : Authorizes X config p t s payload source_ip ports rule) :
    Grant X config p t s.name s payload source_ip ports :=
  ⟨match_packet_of_firstVerified ha.stanza,
    find_stanza_of_mem (validate_eq_ok_iff.mp hv).names ha.stanza.mem, ha.fresh, ha.message,
    check_policy_eq_ok_iff.mpr ⟨ha.source_match, ha.source_listed, ha.ports_open⟩⟩

/-- The clock stands at `t` and nothing fails. -/
def stillEnv (t : SystemTime) : Env := { sampleEnv with clock := fun _ => t }

/-- A granted packet gets its rule when it comes first and nothing fails. -/
theorem first_packet_opens {p : CapturedPacket} {t : SystemTime} {name : String}
    {s : AccessStanza} {payload : SpaPayload} {source_ip : IpAddr} {ports : List PortProto}
    (hg : Grant X config p t name s payload source_ip ports) :
    (⟨0, p, 0⟩, granted_rule config s payload source_ip ports)
      ∈ (run_daemon X config none (stillEnv t) 0 [.packet p] emptyWorld).calls := by
  have hopens : Opens (stillEnv t) (grant_tail none payload.nonce
      (granted_rule config s payload source_ip ports))
      { emptyWorld.next with current := ⟨0, p, 0⟩ }
      (granted_rule config s payload source_ip ports) :=
    grant_tail_opens (AList.notMem_empty _) (fun _ => rfl) _
  have hrun : ((process_packet X config none p).exec (handler (stillEnv t))
      { emptyWorld with current := ⟨0, p, 0⟩ }).2 = _ := process_packet_of_grant hg
  show _ ∈ ((process_packet X config none p).exec (handler (stillEnv t))
    { emptyWorld with current := ⟨0, p, 0⟩ }).2.calls
  rw [hrun]
  exact hopens.symm ▸ List.mem_singleton_self _

/-- The timeout of one call: the stanza's maximum is kept iff the picked timeout or the daemon's
    maximum keeps it. -/
theorem timeout_le_iff (hv : config.validate = .ok ()) {c : Cause} {rule : AccessRule}
    (hg : GrantedBy X config env c rule) {s : AccessStanza} {payload : SpaPayload}
    {source_ip : IpAddr} {ports : List PortProto}
    (ha : Authorizes X config c.packet (env.clock c.start) s payload source_ip ports rule)
    (d : Duration) :
    rule.timeout ≤ d
      ↔ s.fw_timeout.getD config.daemon.default_fw_timeout ≤ d
        ∨ config.daemon.max_fw_timeout ≤ d := by
  rw [hg.rule_eq hv ha]
  exact clamp_timeout_le_iff

/-- **RESTRICTIONS, EXACTLY**: for an accepted configuration, every call of every run of either
    mode keeps the restrictions of the stanza that authorized its packet iff no stanza for one
    user admits another's packet and no stanza that admits any has a maximum below the timeouts
    it is not compared with. -/
theorem enforced_iff (X : Ext) {config : DaemonConfig} (hv : config.validate = .ok ()) :
    (∀ (persist_path : Option String) (env : Env) (w : World), w.calls = [] →
        InEveryRun X config persist_path env w fun c rule =>
          ∀ s payload source_ip ports,
            Authorizes X config c.packet (env.clock c.start) s payload source_ip ports rule →
              Enforced s payload rule)
      ↔ Complies X config := by
  constructor
  · intro hall
    -- what a stanza admits comes first in a run of its own
    have hone : ∀ s payload, Admits X config s payload →
        ∃ source_ip ports, Enforced s payload (granted_rule config s payload source_ip ports) := by
      rintro s payload ⟨p, t, source_ip, ports, rule, ha⟩
      have hg := grant_of_authorizes hv ha
      exact ⟨source_ip, ports, (hall none (stillEnv t) emptyWorld rfl).1 [.packet p] _
        (first_packet_opens hg) s payload source_ip ports (authorizes_of_grant hv hg)⟩
    constructor
    · rintro s u hu ⟨payload, hadmits, hother⟩
      obtain ⟨_, _, henforced⟩ := hone s payload hadmits
      exact hother (henforced.username u hu)
    · rintro s d hd ⟨payload, hadmits⟩
      obtain ⟨_, _, henforced⟩ := hone s payload hadmits
      exact clamp_timeout_le_iff.mp (henforced.timeout d hd)
  · intro hcomplies persist_path env w hw
    refine (inEveryRun_granted hv hw).imp ?_
    intro c rule hg s payload source_ip ports ha
    have hadmits : Admits X config s payload := ⟨_, _, _, _, _, ha⟩
    constructor
    · intro u hu
      by_contra hother
      exact hcomplies.username s u hu ⟨payload, hadmits, hother⟩
    · intro d hd
      exact (timeout_le_iff hv hg ha d).mpr (hcomplies.timeout s d hd ⟨payload, hadmits⟩)

/-- The sample stanza, for one user only and with a maximum of its own. -/
def limitedStanza (user : String) (limit : Duration) : AccessStanza :=
  { sampleStanza with require_username := some user, max_fw_timeout := some limit }

def limitedConfig (user : String) (limit : Duration) : DaemonConfig :=
  { access := [limitedStanza user limit] }

theorem single_validate {s : AccessStanza} (hs : ValidStanza s) :
    DaemonConfig.validate { access := [s] } = .ok () := by
  refine default_valid (List.cons_ne_nil _ _) (List.nodup_singleton _) ?_
  intro t ht
  rw [List.mem_singleton.mp ht]
  exact hs

/-- Alone in its configuration, a stanza with the sample key grants the sample packet. -/
theorem sample_grant {s : AccessStanza} (hs : ValidStanza s)
    (hkey : s.master_key = sampleStanza.master_key) (hsource : s.source = [.any])
    (hport : ⟨.tcp, 22⟩ ∈ s.open_ports) :
    Grant sampleExt { access := [s] } samplePacket (sampleEnv.clock 0) s.name s sampleRow.payload
      (.v4 #v[192, 0, 2, 7]) [⟨.tcp, 22⟩] := by
  have hperm : Permitted sampleExt { access := [s] } samplePacket (sampleEnv.clock 0)
      emptyWorld.cache s sampleRow.payload (.v4 #v[192, 0, 2, 7]) [⟨.tcp, 22⟩] :=
    sample_permitted rfl hkey hsource hport
  have hver : HmacVerifies sampleExt.crypto s.master_key.toList samplePacket.data :=
    (hmacVerifies_of_parse hperm.parses).1
  exact hperm.grant (single_validate hs) (List.find?_cons_of_pos (decide_eq_true hver))

theorem limitedStanza_valid (user : String) (limit : Duration) :
    ValidStanza (limitedStanza user limit) :=
  ⟨sampleStanza_valid.open_ports, sampleStanza_valid.key, rfl, rfl, rfl⟩

theorem limited_authorizes (user : String) (limit : Duration) :
    Authorizes sampleExt (limitedConfig user limit) samplePacket (sampleEnv.clock 0)
      (limitedStanza user limit) sampleRow.payload (.v4 #v[192, 0, 2, 7]) [⟨.tcp, 22⟩]
      (granted_rule (limitedConfig user limit) (limitedStanza user limit) sampleRow.payload
        (.v4 #v[192, 0, 2, 7]) [⟨.tcp, 22⟩]) :=
  authorizes_of_grant (single_validate (limitedStanza_valid user limit))
    (sample_grant (limitedStanza_valid user limit) rfl rfl (List.mem_singleton_self _))

/-- Both modes open the rule, whoever the stanza is for and whatever its maximum. -/
def LimitedOpens (user : String) (limit : Duration) : Prop :=
  (⟨0, samplePacket, 0⟩, granted_rule (limitedConfig user limit) (limitedStanza user limit)
      sampleRow.payload (.v4 sampleIp) [⟨.tcp, 22⟩])
    ∈ (run_daemon sampleExt (limitedConfig user limit) none sampleEnv 0 sampleOps
        emptyWorld).calls
  ∧ (⟨0, samplePacket, 0⟩, granted_rule (limitedConfig user limit) (limitedStanza user limit)
      sampleRow.payload (.v4 sampleIp) [⟨.tcp, 22⟩])
    ∈ (run_privsep sampleExt (limitedConfig user limit) none sampleEnv sampleSchedule
        (Privsep.start emptyWorld)).world.calls

instance (user : String) (limit : Duration) : Decidable (LimitedOpens user limit) :=
  inferInstanceAs (Decidable (_ ∧ _))

/-- The sample primitives decode one payload. -/
theorem sample_payload {p : CapturedPacket} {t : SystemTime} {s : AccessStanza}
    {payload : SpaPayload} {source_ip : IpAddr} {ports : List PortProto} {rule : AccessRule}
    (h : Authorizes sampleExt config p t s payload source_ip ports rule) :
    payload = sampleRow.payload := by
  obtain ⟨_, _, _, _, b, hdecode, _⟩ :=
    (parse_packet_eq_ok_iff sampleRow.crypto_laws).mp (firstVerified_iff.mp h.stanza).2
  simp only [decode, CheckedSlice.Outcome.bind_eq_ok, CheckedSlice.Outcome.pure_eq,
    CheckedSlice.Outcome.ok.injEq] at hdecode
  obtain ⟨read, hread, _, _, rfl⟩ := hdecode
  simp only [from_slice, Row.crypto] at hread
  by_cases hb : b = sampleRow.plaintext
  · rw [if_pos hb] at hread
    cases hread
    rfl
  · rw [if_neg hb] at hread
    cases hread

/-- A stanza for the packet's own user whose maximum is above the default: the one packet there is
    gets its rule, and no run breaks the restrictions. -/
theorem alice_enforced :
    LimitedOpens "alice" (.from_secs 60)
      ∧ ∀ (persist_path : Option String) (env : Env) (w : World), w.calls = [] →
        InEveryRun sampleExt (limitedConfig "alice" (.from_secs 60)) persist_path env w
          fun c rule => ∀ s payload source_ip ports,
            Authorizes sampleExt (limitedConfig "alice" (.from_secs 60)) c.packet
              (env.clock c.start) s payload source_ip ports rule → Enforced s payload rule := by
  refine ⟨by decide +kernel,
    (enforced_iff sampleExt (single_validate (limitedStanza_valid _ _))).mpr ⟨?_, ?_⟩⟩
  · rintro s u hu ⟨payload, ⟨_, _, _, _, _, ha⟩, hother⟩
    obtain rfl := List.mem_singleton.mp ha.stanza.mem
    cases hu
    rw [sample_payload ha] at hother
    exact hother rfl
  · rintro s d hd ⟨payload, _, _, _, _, _, ha⟩
    obtain rfl := List.mem_singleton.mp ha.stanza.mem
    cases hd
    exact .inl (by decide)

/-- A stanza for bob, with a maximum of five seconds, opens for alice, for thirty. -/
theorem restrictions_ignored :
    (limitedConfig "bob" (.from_secs 5)).validate = .ok ()
      ∧ LimitedOpens "bob" (.from_secs 5)
      ∧ Authorizes sampleExt (limitedConfig "bob" (.from_secs 5)) samplePacket (sampleEnv.clock 0)
          (limitedStanza "bob" (.from_secs 5)) sampleRow.payload (.v4 #v[192, 0, 2, 7])
          [⟨.tcp, 22⟩]
          (granted_rule (limitedConfig "bob" (.from_secs 5)) (limitedStanza "bob" (.from_secs 5))
            sampleRow.payload (.v4 #v[192, 0, 2, 7]) [⟨.tcp, 22⟩])
      ∧ (limitedStanza "bob" (.from_secs 5)).require_username = some "bob"
      ∧ sampleRow.payload.username = "alice"
      ∧ (limitedStanza "bob" (.from_secs 5)).max_fw_timeout = some (.from_secs 5)
      ∧ (granted_rule (limitedConfig "bob" (.from_secs 5)) (limitedStanza "bob" (.from_secs 5))
            sampleRow.payload (.v4 #v[192, 0, 2, 7]) [⟨.tcp, 22⟩]).timeout = .from_secs 30 :=
  ⟨single_validate (limitedStanza_valid _ _), by decide +kernel, limited_authorizes _ _, rfl, rfl,
    rfl, by decide⟩

/-! ## Expiry -/

/-- The timeouts of the elements a command adds. -/
def element_timeouts : Command → List (Option UInt32)
  | .add (.element _ _ elems) => elems.map fun
      | .elem _ timeout => timeout
      | _ => none
  | _ => []

/-- Every element submitted for the rule expires, after at least one second and within
    the daemon's maximum. -/
def Expiring (config : DaemonConfig) (rule : AccessRule) : Prop :=
  ∀ batch, open_access_batch rule = some batch → ∀ cmd ∈ batch, ∀ t ∈ element_timeouts cmd,
    ∃ secs : UInt32, t = some secs ∧ 1 ≤ secs
      ∧ Duration.from_secs secs.toUInt64 ≤ config.daemon.max_fw_timeout

theorem expiring_v4_iff {rule : AccessRule} {ipv4 : Ipv4Addr} (hip : rule.source_ip = .v4 ipv4)
    (hports : rule.ports ≠ []) :
    Expiring config rule
      ↔ 1 ≤ timeout_secs rule.timeout
        ∧ Duration.from_secs (timeout_secs rule.timeout).toUInt64
            ≤ config.daemon.max_fw_timeout := by
  have hbatch : open_access_batch rule
      = some (rule.ports.map (element_add ipv4 (timeout_secs rule.timeout))) := by
    simp only [open_access_batch, hip]
  constructor
  · intro h
    obtain ⟨pp, hpp⟩ := List.exists_mem_of_ne_nil _ hports
    obtain ⟨secs, hsecs, hone, hle⟩ := h _ hbatch _ (List.mem_map_of_mem hpp)
      (some (timeout_secs rule.timeout)) (List.mem_singleton_self _)
    cases hsecs
    exact ⟨hone, hle⟩
  · intro h batch hb cmd hcmd t ht
    cases hbatch.symm.trans hb
    obtain ⟨pp, _, rfl⟩ := List.mem_map.mp hcmd
    exact ⟨_, List.mem_singleton.mp ht, h⟩

/-- Nothing is cut off below seven days. -/
theorem timeout_secs_toNat {d : Duration} (h : d ≤ MAX_DURATION) :
    (timeout_secs d).toNat = d.as_secs.toNat := by
  have hlt : d.as_secs.toNat < 2 ^ 32 := by
    have hmax : MAX_DURATION.as_nanos = 604800 * 1000000000 := by decide
    rw [Duration.le_iff_as_nanos_le, hmax] at h
    simp only [Duration.as_nanos, Duration.as_secs] at h ⊢
    omega
  rw [timeout_secs, if_pos hlt]
  show d.as_secs.toNat % 2 ^ 32 = _
  exact Nat.mod_eq_of_lt hlt

/-- Cut to whole seconds, a timeout of at most seven days stays positive iff it is at
    least a second, and does not grow. -/
theorem timeout_secs_spec {d : Duration} (h : d ≤ MAX_DURATION) :
    (1 ≤ timeout_secs d ↔ Duration.from_secs 1 ≤ d)
      ∧ Duration.from_secs (timeout_secs d).toUInt64 ≤ d := by
  have hsecs := timeout_secs_toNat h
  have hone : (Duration.from_secs 1).as_nanos = 1000000000 := by decide
  have hn := d.nanos_lt
  constructor
  · rw [UInt32.le_iff_toNat_le, hsecs, Duration.le_iff_as_nanos_le, hone]
    simp only [Duration.as_nanos, Duration.as_secs]
    show 1 ≤ _ ↔ _
    omega
  · rw [Duration.le_iff_as_nanos_le]
    simp only [Duration.as_nanos, Duration.from_secs, UInt32.toNat_toUInt64, hsecs,
      Duration.as_secs]
    omega

/-- The timeout of the stanza, or the default, and the maximum leave at least a second. -/
def WholeSecond (config : DaemonConfig) (s : AccessStanza) : Prop :=
  Duration.from_secs 1 ≤ s.fw_timeout.getD config.daemon.default_fw_timeout
    ∧ Duration.from_secs 1 ≤ config.daemon.max_fw_timeout

theorem le_clamp_timeout_iff {a b d : Duration} : d ≤ clamp_timeout a b ↔ d ≤ a ∧ d ≤ b := by
  simp only [Duration.le_iff_as_nanos_le, clamp_timeout_as_nanos]
  omega

theorem expiring_granted_iff (hv : config.validate = .ok ()) {s : AccessStanza}
    {payload : SpaPayload} {ipv4 : Ipv4Addr} {ports : List PortProto} (hports : ports ≠ []) :
    Expiring config (granted_rule config s payload (.v4 ipv4) ports) ↔ WholeSecond config s := by
  have hmax := (validate_eq_ok_iff.mp hv).max_fw_timeout.2
  have hclamp := clamp_timeout_le (s.fw_timeout.getD config.daemon.default_fw_timeout)
    config.daemon.max_fw_timeout
  have hweek : clamp_timeout (s.fw_timeout.getD config.daemon.default_fw_timeout)
      config.daemon.max_fw_timeout ≤ MAX_DURATION := by
    rw [Duration.le_iff_as_nanos_le] at hclamp hmax ⊢
    exact Nat.le_trans hclamp hmax
  obtain ⟨hone, hle⟩ := timeout_secs_spec hweek
  have hle' : Duration.from_secs (timeout_secs
      (clamp_timeout (s.fw_timeout.getD config.daemon.default_fw_timeout)
        config.daemon.max_fw_timeout)).toUInt64 ≤ config.daemon.max_fw_timeout := by
    rw [Duration.le_iff_as_nanos_le] at hclamp hle ⊢
    exact Nat.le_trans hle hclamp
  rw [expiring_v4_iff rfl hports, WholeSecond, ← le_clamp_timeout_iff, ← hone]
  exact and_iff_left hle'

/-- **EXPIRY, EXACTLY**: for an accepted configuration and in every run of either mode,
    the elements submitted for a call expire iff there are none (no port, or an IPv6
    source) or the timeout left by the stanza, the default and the maximum is at least
    a second. -/
theorem expiring_iff (X : Ext) {config : DaemonConfig} (hv : config.validate = .ok ())
    (persist_path : Option String) (env : Env) (w : World) (hw : w.calls = []) :
    InEveryRun X config persist_path env w fun c rule =>
      ∀ s payload source_ip ports,
        Authorizes X config c.packet (env.clock c.start) s payload source_ip ports rule →
          (Expiring config rule
            ↔ (∃ ipv6, source_ip = .v6 ipv6) ∨ ports = [] ∨ WholeSecond config s) := by
  refine (inEveryRun_granted hv hw).imp ?_
  intro c rule hg s payload sip pts ha
  rw [hg.rule_eq hv ha]
  cases sip with
  | v6 ipv6 =>
      refine ⟨fun _ => .inl ⟨ipv6, rfl⟩, ?_⟩
      intro _ batch hb
      exact nomatch hb
  | v4 ipv4 =>
      have hv4 : ¬∃ ipv6, IpAddr.v4 ipv4 = .v6 ipv6 := fun ⟨_, h⟩ => nomatch h
      by_cases hports : pts = []
      · refine ⟨fun _ => .inr (.inl hports), ?_⟩
        intro _ batch hb cmd hcmd
        subst hports
        cases hb
        exact nomatch hcmd
      · rw [expiring_granted_iff hv hports, or_iff_right hv4, or_iff_right hports]

/-- The sample rule lasts thirty seconds. -/
theorem sample_rule_expires :
    (⟨0, samplePacket, 0⟩, granted_rule sampleConfig sampleStanza sampleRow.payload
        (.v4 #v[192, 0, 2, 7]) [⟨.tcp, 22⟩])
      ∈ (run_daemon sampleExt sampleConfig none sampleEnv 0 sampleOps emptyWorld).calls
    ∧ Expiring sampleConfig (granted_rule sampleConfig sampleStanza sampleRow.payload
        (.v4 #v[192, 0, 2, 7]) [⟨.tcp, 22⟩]) := by
  have hopens : (⟨0, samplePacket, 0⟩, granted_rule sampleConfig sampleStanza sampleRow.payload
      (.v4 #v[192, 0, 2, 7]) [⟨.tcp, 22⟩])
      ∈ (run_daemon sampleExt sampleConfig none sampleEnv 0 sampleOps emptyWorld).calls := by
    decide +kernel
  have hauth := authorizes_of_grant sampleConfig_validate
    (sample_grant sampleStanza_valid rfl rfl (List.mem_singleton_self _))
  have hiff := (expiring_iff sampleExt sampleConfig_validate none sampleEnv emptyWorld rfl).1
    sampleOps _ hopens _ _ _ _ hauth
  exact ⟨hopens, hiff.mpr (.inr (.inr ⟨by decide, by decide⟩))⟩

/-- The sample stanza with a timeout of zero. -/
def timelessStanza : AccessStanza := { sampleStanza with fw_timeout := some (.from_secs 0) }

def timelessConfig : DaemonConfig := { access := [timelessStanza] }

/-- The rule it leads to. -/
def timelessRule : AccessRule :=
  ⟨.v4 sampleIp, [⟨.tcp, 22⟩], .from_secs 0, "fwknox:alice:1700000000"⟩

/-- The configuration is accepted, and both modes submit an element that never expires. -/
theorem element_never_expires :
    timelessConfig.validate = .ok ()
      ∧ (⟨0, samplePacket, 0⟩, timelessRule)
          ∈ (run_daemon sampleExt timelessConfig none sampleEnv 0 sampleOps emptyWorld).calls
      ∧ (⟨0, samplePacket, 0⟩, timelessRule)
          ∈ (run_privsep sampleExt timelessConfig none sampleEnv sampleSchedule
              (Privsep.start emptyWorld)).world.calls
      ∧ (open_access_batch timelessRule).map (fun batch => batch.map element_timeouts)
          = some [[some 0]] :=
  ⟨single_validate ⟨sampleStanza_valid.open_ports, sampleStanza_valid.key, rfl, rfl, rfl⟩,
    by decide +kernel, by decide +kernel, rfl⟩

/-! ## The requested lifetime -/

/-- What the packet asks for: the client's timeout, else the stanza's, else the default. -/
def requested_timeout (config : DaemonConfig) (s : AccessStanza) (payload : SpaPayload) :
    Duration :=
  match payload.client_timeout with
  | some secs => .from_secs secs.toUInt64
  | none => s.fw_timeout.getD config.daemon.default_fw_timeout

/-- The rule lives as long as requested, up to the maximum. -/
def Honoured (config : DaemonConfig) (s : AccessStanza) (payload : SpaPayload)
    (rule : AccessRule) : Prop :=
  rule.timeout.as_nanos = min (requested_timeout config s payload).as_nanos
    config.daemon.max_fw_timeout.as_nanos

/-- The client's timeout, if there is one, is the one picked without it, or both are cut
    to the maximum. -/
def AsPicked (config : DaemonConfig) (s : AccessStanza) (payload : SpaPayload) : Prop :=
  ∀ secs, payload.client_timeout = some secs →
    (Duration.from_secs secs.toUInt64).as_nanos
        = (s.fw_timeout.getD config.daemon.default_fw_timeout).as_nanos
      ∨ config.daemon.max_fw_timeout ≤ .from_secs secs.toUInt64
        ∧ config.daemon.max_fw_timeout ≤ s.fw_timeout.getD config.daemon.default_fw_timeout

/-- **REQUESTED LIFETIMES, EXACTLY**: for an accepted configuration and in every run of
    either mode, a call for a packet authorized by `s` has the requested lifetime, up to
    the maximum, iff that is the one picked without looking at the request. -/
theorem honoured_iff (X : Ext) {config : DaemonConfig} (hv : config.validate = .ok ())
    (persist_path : Option String) (env : Env) (w : World) (hw : w.calls = []) :
    InEveryRun X config persist_path env w fun c rule =>
      ∀ s payload source_ip ports,
        Authorizes X config c.packet (env.clock c.start) s payload source_ip ports rule →
          (Honoured config s payload rule ↔ AsPicked config s payload) := by
  refine (inEveryRun_granted hv hw).imp ?_
  intro c rule hg s payload sip pts ha
  rw [hg.rule_eq hv ha]
  simp only [Honoured, AsPicked, requested_timeout, granted_rule, clamp_timeout_as_nanos,
    Duration.le_iff_as_nanos_le]
  cases hclient : payload.client_timeout with
  | none =>
      refine iff_of_true rfl ?_
      intro secs hsecs
      cases hsecs
  | some secs =>
      constructor
      · intro h secs' hsecs
        cases hsecs
        dsimp only at h
        omega
      · intro h
        have hpicked := h secs rfl
        dsimp only
        omega

/-- alice asks for `tcp/22` for a minute. -/
def minuteRow : Row :=
  { sampleRow with
    header := [0x01, 0x02, 0x00, 0x49]
    plaintext :=
      [0x95, 0xdc, 0x00, 0x10, 0x01, 0x02, 0x03, 0x04, 0x05, 0x06, 0x07, 0x08, 0x09, 0x0a, 0x0b,
       0x0c, 0x0d, 0x0e, 0x0f, 0x10, 0xce, 0x65, 0x53, 0xf1, 0x00, 0xa5, 0x61, 0x6c, 0x69, 0x63,
       0x65, 0x93, 0xa6, 0x61, 0x63, 0x63, 0x65, 0x73, 0x73, 0xa9, 0x31, 0x39, 0x32, 0x2e, 0x30,
       0x2e, 0x32, 0x2e, 0x37, 0x91, 0x92, 0xa3, 0x74, 0x63, 0x70, 0x16, 0x3c]
    sealed :=
      [0xcd, 0xc7, 0x86, 0x49, 0x0b, 0x84, 0x34, 0x1f, 0x46, 0xfd, 0xc9, 0x8e, 0x28, 0x3a, 0x29,
       0x4b, 0x47, 0x00, 0x8c, 0xa1, 0x26, 0xe2, 0xec, 0x1f, 0xa5, 0x1a, 0xde, 0xcb, 0x00, 0xaa,
       0xfc, 0xfd, 0xa1, 0x53, 0xd9, 0xa8, 0x50, 0xd0, 0xe2, 0x41, 0xdf, 0x9e, 0x26, 0xbe, 0x33,
       0x7f, 0x7b, 0xfd, 0x13, 0x76, 0xc9, 0x24, 0x2a, 0xdf, 0xf2, 0xbe, 0xfb, 0x7e, 0xe8, 0x14,
       0xf6, 0x2f, 0x0d, 0xcc, 0xb9, 0x80, 0x21, 0xfb, 0x3f, 0x72, 0x52, 0x0d, 0xb4]
    tag :=
      #v[0x58, 0x6d, 0xa6, 0x81, 0x0c, 0xce, 0xad, 0x64, 0x37, 0x0c, 0xa0, 0x79, 0x75, 0x63, 0x21,
       0x51, 0x7f, 0x11, 0xa7, 0x7e, 0x14, 0x0b, 0xa3, 0x24, 0x91, 0xda, 0x28, 0x54, 0x36, 0x4b,
       0x72, 0x62]
    payload := { sampleRow.payload with client_timeout := some 60 }
    sealed_length := rfl }

/-- The primitives on that packet. -/
def minuteExt : Ext := ⟨minuteRow.crypto, fun _ _ => false⟩

/-- The packet as it arrives. -/
def minutePacket : CapturedPacket := ⟨.v4 sampleIp, minuteRow.wire⟩

/-- The sample stanza with a timeout of a minute. -/
def patientStanza : AccessStanza := { sampleStanza with fw_timeout := some (.from_secs 60) }

/-- The configuration with that stanza. -/
def patientConfig : DaemonConfig := { access := [patientStanza] }

/-- It is accepted. -/
theorem patientConfig_validate : patientConfig.validate = .ok () :=
  single_validate ⟨sampleStanza_valid.open_ports, sampleStanza_valid.key, rfl, rfl, rfl⟩

/-- A minute is asked for, and the stanza gives a minute anyway. -/
theorem requested_minute_given :
    (⟨0, minutePacket, 0⟩, granted_rule patientConfig patientStanza minuteRow.payload
        (.v4 sampleIp) [⟨.tcp, 22⟩])
      ∈ (run_daemon minuteExt patientConfig none sampleEnv 0 [.packet minutePacket]
          emptyWorld).calls
    ∧ minuteRow.payload.client_timeout = some 60
    ∧ Honoured patientConfig patientStanza minuteRow.payload
        (granted_rule patientConfig patientStanza minuteRow.payload (.v4 sampleIp)
          [⟨.tcp, 22⟩]) := by
  have hopens : (⟨0, minutePacket, 0⟩, granted_rule patientConfig patientStanza minuteRow.payload
      (.v4 sampleIp) [⟨.tcp, 22⟩])
      ∈ (run_daemon minuteExt patientConfig none sampleEnv 0 [.packet minutePacket]
          emptyWorld).calls := by
    decide +kernel
  have hgrant : Grant minuteExt patientConfig minutePacket (sampleEnv.clock 0) "ssh" patientStanza
      minuteRow.payload (.v4 sampleIp) [⟨.tcp, 22⟩] :=
    ⟨by decide +kernel, by decide, by decide, rfl, by decide⟩
  have hiff := (honoured_iff minuteExt patientConfig_validate none sampleEnv emptyWorld rfl).1
    [.packet minutePacket] _ hopens _ _ _ _ (authorizes_of_grant patientConfig_validate hgrant)
  refine ⟨hopens, rfl, hiff.mpr ?_⟩
  rintro secs ⟨⟩
  exact .inl (by decide)

/-- The rule both modes open for it. -/
def minuteRule : AccessRule :=
  granted_rule sampleConfig sampleStanza minuteRow.payload (.v4 sampleIp) [⟨.tcp, 22⟩]

/-- Everything but the replay check speaks for it. -/
theorem minute_grant :
    Grant minuteExt sampleConfig minutePacket (sampleEnv.clock 0) "ssh" sampleStanza
      minuteRow.payload (.v4 sampleIp) [⟨.tcp, 22⟩] :=
  ⟨by decide +kernel, by decide, by decide, rfl, by decide⟩

/-- A minute is asked for, thirty seconds are given, in both modes. -/
theorem requested_minute_ignored :
    sampleConfig.validate = .ok ()
      ∧ (⟨0, minutePacket, 0⟩, minuteRule)
          ∈ (run_daemon minuteExt sampleConfig none sampleEnv 0 [.packet minutePacket]
              emptyWorld).calls
      ∧ (⟨0, minutePacket, 0⟩, minuteRule)
          ∈ (run_privsep minuteExt sampleConfig none sampleEnv
              ([.capture minutePacket, .crypto, .recv] ++ List.replicate 5 .parent)
              (Privsep.start emptyWorld)).world.calls
      ∧ Authorizes minuteExt sampleConfig minutePacket (sampleEnv.clock 0) sampleStanza
          minuteRow.payload (.v4 sampleIp) [⟨.tcp, 22⟩] minuteRule
      ∧ minuteRow.payload.client_timeout = some 60
      ∧ minuteRule.timeout = .from_secs 30
      ∧ ¬Honoured sampleConfig sampleStanza minuteRow.payload minuteRule :=
  ⟨sampleConfig_validate, by decide +kernel, by decide +kernel,
    authorizes_of_grant sampleConfig_validate minute_grant, rfl, by decide,
    by simp only [Honoured]; decide⟩

end FwknoxEnforcement
