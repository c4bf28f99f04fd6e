import Fwknox.MatcherProofs
import Fwknox.ReplayProofs

/-! # The two packet paths — one decision, one rule

    `pipeline.rs` handles a packet in one process; `validate.rs` and the parent of
    `privsep_run.rs` split the same work over two.  They check the replay cache at
    different points and compute the timeout with different helpers, and
    `same_rules` shows that they hand the firewall the same rules from the same state,
    whatever the clock, the disk and the firewall do, for every configuration.

    The reason is `process_packet_of_grant`: once every check but the replay check has
    passed, the rest of `process_packet` and `handle_crypto_msg` walk through the same
    worlds.  `process_packet_cases` lists every way through `process_packet`. -/

namespace FwknoxPipeline

open FwknoxTypes FwknoxClock FwknoxConfig FwknoxPacket FwknoxMatcher FwknoxPersist FwknoxWorld
open FwknoxReplay LruMap EffectProg EffectProg.Prog

/-- What the daemon calls outside the repository. -/
structure Ext where
  crypto : Crypto
  net_contains : IpNet → IpAddr → Bool

/-- What ends the handling of a packet without a verdict on it. -/
inductive DaemonError where
  | firewall (e : FirewallError)
  | invariantViolation (msg : String)
  deriving DecidableEq

/-- The `Display` texts. -/
def DaemonError.to_string : DaemonError → String
  | .firewall e => "firewall error: " ++ e.to_string
  | .invariantViolation msg => "internal invariant violated: " ++ msg

/-- The verdict on a packet. -/
inductive ProcessResult where
  | installed (stanza_name : String) (handle : RuleHandle)
  | replay (stanza_name : String)
  | noMatch
  | rejected (stanza_name reason : String)
  deriving DecidableEq

/-! ## The checks both paths share -/

/-- The stanza the matcher named. -/
def find_stanza (config : DaemonConfig) (stanza_name : String) : Except DaemonError AccessStanza :=
  match config.access.find? (fun s => s.name == stanza_name) with
  | some s => .ok s
  | none => .error (.invariantViolation ("stanza " ++ stanza_name ++ " not in config"))

/-- Source match, source allowlist and port subset; the reason of the first failure. -/
def check_policy (X : Ext) (stanza : AccessStanza) (captured_ip source_ip : IpAddr)
    (ports : List PortProto) : Except String Unit :=
  if stanza.require_source_match = true ∧ source_ip ≠ captured_ip then
    .error ("source mismatch: payload says " ++ source_ip.to_string ++ ", packet from "
      ++ captured_ip.to_string)
  else if stanza.source.any (fun s => s.matches X.net_contains captured_ip) = false then
    .error ("source " ++ captured_ip.to_string ++ " not in stanza allowlist")
  else
    match ports.find? (fun pp => !stanza.open_ports.any (fun a => a == pp)) with
    | some pp => .error ("requested port " ++ pp.to_string ++ " not in stanza open_ports")
    | none => .ok ()

/-- The comment that names a rule's author. -/
def rule_comment (payload : SpaPayload) : String :=
  "fwknox:" ++ payload.username ++ ":" ++ toString payload.timestamp.toInt

/-! ## One process -/

/-- The smaller of the two. -/
def clamp_timeout (requested max : Duration) : Duration :=
  if max < requested then max else requested

/-- Steps 4 to 6 of `process_packet`, after the replay check. -/
def install (X : Ext) (config : DaemonConfig) (captured : CapturedPacket) (stanza_name : String)
    (stanza : AccessStanza) (payload : SpaPayload) :
    Prog Eff (Except DaemonError ProcessResult) :=
  match payload.message with
  | .access source_ip ports =>
      match check_policy X stanza captured.source_ip source_ip ports with
      | .error reason => pure (.ok (.rejected stanza_name reason))
      | .ok _ => do
          let timeout := stanza.fw_timeout.getD config.daemon.default_fw_timeout
          let rule := {
            source_ip, ports
            timeout := clamp_timeout timeout config.daemon.max_fw_timeout
            comment := rule_comment payload }
          match ← perform (.openAccess rule) with
          | .ok handle => pure (.ok (.installed stanza_name handle))
          | .error e => pure (.error (.firewall e))
  | _ => pure (.ok (.rejected stanza_name "unsupported message variant in Phase 3"))

/-- Match, clock, replay cache, policy, firewall: the first that says no ends it. -/
def process_packet (X : Ext) (config : DaemonConfig) (persist_path : Option String)
    (captured : CapturedPacket) : Prog Eff (Except DaemonError ProcessResult) :=
  match match_packet X.crypto captured.data config.access with
  | .noMatch => pure (.ok .noMatch)
  | .rejected stanza_name reason => pure (.ok (.rejected stanza_name reason.to_string))
  | .matched stanza_name payload =>
      match find_stanza config stanza_name with
      | .error e => pure (.error e)
      | .ok stanza => do
          let now ← perform .systemTime
          match validate_against_clock payload (now_unix now)
              (max_age_secs config.daemon.max_spa_packet_age) DEFAULT_MAX_SKEW_SECS with
          | .error e => pure (.ok (.rejected stanza_name e.to_string))
          | .ok _ =>
              match ← check_and_insert persist_path payload.nonce with
              | .ok true => install X config captured stanza_name stanza payload
              | .ok false => pure (.ok (.replay stanza_name))
              | .error e =>
                  pure (.ok (.rejected stanza_name
                    ("replay cache persist failed: " ++ e.to_string)))

/-! ## Separated processes -/

/-- What the crypto worker tells the parent. -/
inductive CryptoMsg where
  | validRequest (stanza_name : String) (source_ip : IpAddr) (payload : SpaPayload)
  | rejected (source_ip : IpAddr) (reason : String)
  | noMatch (source_ip : IpAddr)
  deriving DecidableEq

/-- The crypto worker's part. -/
def validate_capture_msg (X : Ext) (config : DaemonConfig) (msg : CapturedPacket) :
    Prog Eff CryptoMsg :=
  match match_packet X.crypto msg.data config.access with
  | .noMatch => pure (.noMatch msg.source_ip)
  | .rejected _ reason => pure (.rejected msg.source_ip reason.to_string)
  | .matched stanza_name payload =>
      match find_stanza config stanza_name with
      | .error e => pure (.rejected msg.source_ip e.to_string)
      | .ok stanza => do
          let now ← perform .systemTime
          match validate_against_clock payload (now_unix now)
              (max_age_secs config.daemon.max_spa_packet_age) DEFAULT_MAX_SKEW_SECS with
          | .error e => pure (.rejected msg.source_ip e.to_string)
          | .ok _ =>
              match payload.message with
              | .access source_ip ports =>
                  match check_policy X stanza msg.source_ip source_ip ports with
                  | .error reason => pure (.rejected msg.source_ip reason)
                  | .ok _ => pure (.validRequest stanza_name msg.source_ip payload)
              | _ => pure (.rejected msg.source_ip "unsupported message variant")

/-- `Ord::min` on durations. -/
def duration_min (a b : Duration) : Duration := if b < a then b else a

/-- The parent's part after its replay check. -/
def parent_install (config : DaemonConfig) (stanza_name : String) (payload : SpaPayload) :
    Prog Eff Unit :=
  match payload.message with
  | .access source_ip ports =>
      match config.access.find? (fun s => s.name == stanza_name) with
      | none => pure ()
      | some stanza => do
          let timeout := stanza.fw_timeout.getD config.daemon.default_fw_timeout
          let rule := {
            source_ip, ports
            timeout := duration_min timeout config.daemon.max_fw_timeout
            comment := rule_comment payload }
          let _ ← perform (.openAccess rule)
          pure ()
  | _ => pure ()

/-- The parent's part. -/
def handle_crypto_msg (config : DaemonConfig) (persist_path : Option String) :
    CryptoMsg → Prog Eff Unit
  | .noMatch _ => pure ()
  | .rejected _ _ => pure ()
  | .validRequest stanza_name _ payload => do
      match ← check_and_insert persist_path payload.nonce with
      | .ok true => parent_install config stanza_name payload
      | .ok false => pure ()
      | .error _ => pure ()

/-! ## The decision -/

/-- Everything but the replay check speaks for the packet at the reading `t`. -/
structure Grant (X : Ext) (config : DaemonConfig) (p : CapturedPacket) (t : SystemTime)
    (name : String) (stanza : AccessStanza) (payload : SpaPayload) (source_ip : IpAddr)
    (ports : List PortProto) : Prop where
  matched : match_packet X.crypto p.data config.access = .matched name payload
  found : find_stanza config name = .ok stanza
  fresh : Fresh config.daemon.max_spa_packet_age payload t
  message : payload.message = .access source_ip ports
  policy : check_policy X stanza p.source_ip source_ip ports = .ok ()

/-- The rule such a packet asks for. -/
def granted_rule (config : DaemonConfig) (stanza : AccessStanza) (payload : SpaPayload)
    (source_ip : IpAddr) (ports : List PortProto) : AccessRule where
  source_ip := source_ip
  ports := ports
  timeout := clamp_timeout (stanza.fw_timeout.getD config.daemon.default_fw_timeout)
    config.daemon.max_fw_timeout
  comment := rule_comment payload

/-- What is left to do for it. -/
def grant_tail (persist_path : Option String) (nonce : Nonce) (rule : AccessRule) :
    Prog Eff Unit := do
  match ← check_and_insert persist_path nonce with
  | .ok true => do
      let _ ← perform (.openAccess rule)
      pure ()
  | .ok false => pure ()
  | .error _ => pure ()

variable {X : Ext} {config : DaemonConfig} {persist_path : Option String} {env : Env}
  {p : CapturedPacket} {name : String} {stanza : AccessStanza} {payload : SpaPayload}
  {source_ip : IpAddr} {ports : List PortProto}

/-- The two timeout helpers agree. -/
theorem duration_min_eq_clamp (a b : Duration) : duration_min a b = clamp_timeout a b := rfl

theorem find_stanza_eq_ok {s : AccessStanza} :
    find_stanza config name = .ok s
      ↔ config.access.find? (fun s => s.name == name) = some s := by
  unfold find_stanza
  cases config.access.find? (fun s => s.name == name) <;> simp

/-! ## Every way through `process_packet` -/

/-- What `install` makes of a request: the rule it opens, or why it refuses. -/
def asked_rule (X : Ext) (config : DaemonConfig) (stanza : AccessStanza) (captured_ip : IpAddr)
    (payload : SpaPayload) : Except String AccessRule :=
  match payload.message with
  | .access source_ip ports =>
      match check_policy X stanza captured_ip source_ip ports with
      | .error reason => .error reason
      | .ok _ => .ok (granted_rule config stanza payload source_ip ports)
  | _ => .error "unsupported message variant in Phase 3"

/-- The packet was matched to a stanza and is fresh at the reading `t`. -/
structure Current (X : Ext) (config : DaemonConfig) (p : CapturedPacket) (t : SystemTime)
    (name : String) (stanza : AccessStanza) (payload : SpaPayload) : Prop where
  matched : match_packet X.crypto p.data config.access = .matched name payload
  found : find_stanza config name = .ok stanza
  fresh : Fresh config.daemon.max_spa_packet_age payload t

theorem Grant.current {X : Ext} {config : DaemonConfig} {p : CapturedPacket} {t : SystemTime}
    {name : String} {stanza : AccessStanza} {payload : SpaPayload} {source_ip : IpAddr}
    {ports : List PortProto} (h : Grant X config p t name stanza payload source_ip ports) :
    Current X config p t name stanza payload :=
  ⟨h.matched, h.found, h.fresh⟩

/-- A packet is read in one way only. -/
theorem Current.unique {X : Ext} {config : DaemonConfig} {p : CapturedPacket} {t : SystemTime}
    {name name' : String} {stanza stanza' : AccessStanza} {payload payload' : SpaPayload}
    (h : Current X config p t name stanza payload)
    (h' : Current X config p t name' stanza' payload') :
    name = name' ∧ stanza = stanza' ∧ payload = payload' := by
  cases h.matched.symm.trans h'.matched
  cases h.found.symm.trans h'.found
  exact ⟨rfl, rfl, rfl⟩

/-- The result of a call that reached the firewall. -/
def opened (name : String) : Except FirewallError RuleHandle → Except DaemonError ProcessResult
  | .ok handle => .ok (.installed name handle)
  | .error e => .error (.firewall e)

/-- What `process_packet` does with a packet, exit by exit. -/
inductive Processed (X : Ext) (config : DaemonConfig) (persist_path : Option String) (env : Env)
    (p : CapturedPacket) (w : World) : Except DaemonError ProcessResult → World → Prop
  | noMatch (h : match_packet X.crypto p.data config.access = .noMatch) :
      Processed X config persist_path env p w (.ok .noMatch) w
  | unreadable (name : String) (reason : ProtoError)
      (h : match_packet X.crypto p.data config.access = .rejected name reason) :
      Processed X config persist_path env p w (.ok (.rejected name reason.to_string)) w
  | missing (name : String) (payload : SpaPayload) (e : DaemonError)
      (h : match_packet X.crypto p.data config.access = .matched name payload)
      (hf : find_stanza config name = .error e) :
      Processed X config persist_path env p w (.error e) w
  | stale (name : String) (stanza : AccessStanza) (payload : SpaPayload) (e : ProtoError)
      (h : match_packet X.crypto p.data config.access = .matched name payload)
      (hf : find_stanza config name = .ok stanza)
      (ht : validate_against_clock payload (now_unix (env.clock w.tick))
        (max_age_secs config.daemon.max_spa_packet_age) DEFAULT_MAX_SKEW_SECS = .error e) :
      Processed X config persist_path env p w (.ok (.rejected name e.to_string)) w.next
  | replay (name : String) (stanza : AccessStanza) (payload : SpaPayload) (w' : World)
      (h : Current X config p (env.clock w.tick) name stanza payload)
      (hc : (check_and_insert persist_path payload.nonce).exec (handler env) w.next
        = (.ok false, w')) :
      Processed X config persist_path env p w (.ok (.replay name)) w'
  | unsaved (name : String) (stanza : AccessStanza) (payload : SpaPayload) (e : ReplayError)
      (w' : World) (h : Current X config p (env.clock w.tick) name stanza payload)
      (hc : (check_and_insert persist_path payload.nonce).exec (handler env) w.next
        = (.error e, w')) :
      Processed X config persist_path env p w
        (.ok (.rejected name ("replay cache persist failed: " ++ e.to_string))) w'
  | refused (name : String) (stanza : AccessStanza) (payload : SpaPayload) (reason : String)
      (w' : World) (h : Current X config p (env.clock w.tick) name stanza payload)
      (hc : (check_and_insert persist_path payload.nonce).exec (handler env) w.next
        = (.ok true, w'))
      (hr : asked_rule X config stanza p.source_ip payload = .error reason) :
      Processed X config persist_path env p w (.ok (.rejected name reason)) w'
  | granted (name : String) (stanza : AccessStanza) (payload : SpaPayload) (source_ip : IpAddr)
      (ports : List PortProto) (w' : World)
      (h : Grant X config p (env.clock w.tick) name stanza payload source_ip ports)
      (hc : (check_and_insert persist_path payload.nonce).exec (handler env) w.next
        = (.ok true, w')) :
      Processed X config persist_path env p w
        (opened name
          (env.firewall w'.tick (granted_rule config stanza payload source_ip ports)))
        { w'.next with
          calls := w'.calls
            ++ [(w'.current, granted_rule config stanza payload source_ip ports)] }

/-- A rule is asked for by an access request that passes the policy. -/
theorem asked_rule_eq_ok {captured_ip : IpAddr} {rule : AccessRule} :
    asked_rule X config stanza captured_ip payload = .ok rule
      ↔ ∃ source_ip ports, payload.message = .access source_ip ports
        ∧ check_policy X stanza captured_ip source_ip ports = .ok ()
        ∧ rule = granted_rule config stanza payload source_ip ports := by
  simp only [asked_rule]
  constructor
  · intro h
    cases hmsg : payload.message with
    | access source_ip ports =>
        rw [hmsg] at h
        dsimp only at h
        cases hpol : check_policy X stanza captured_ip source_ip ports with
        | error reason =>
            rw [hpol] at h
            cases h
        | ok u =>
            rw [hpol] at h
            cases h
            exact ⟨source_ip, ports, rfl, hpol, rfl⟩
    | nat | localNat | command =>
        rw [hmsg] at h
        cases h
  · rintro ⟨source_ip, ports, hmsg, hpol, rfl⟩
    rw [hmsg]
    dsimp only
    rw [hpol]

/-- A granted packet asks for its rule. -/
theorem Grant.asked_rule {t : SystemTime}
    (h : Grant X config p t name stanza payload source_ip ports) :
    asked_rule X config stanza p.source_ip payload
      = .ok (granted_rule config stanza payload source_ip ports) :=
  asked_rule_eq_ok.mpr ⟨source_ip, ports, h.message, h.policy, rfl⟩

/-- Refused, a request touches nothing. -/
theorem install_of_refused {reason : String}
    (h : asked_rule X config stanza p.source_ip payload = .error reason) (name : String) :
    install X config p name stanza payload = pure (.ok (.rejected name reason)) := by
  simp only [asked_rule] at h
  simp only [install]
  cases hmsg : payload.message with
  | access source_ip ports =>
      rw [hmsg] at h
      dsimp only at h ⊢
      cases hpol : check_policy X stanza p.source_ip source_ip ports with
      | error r =>
          rw [hpol] at h
          cases h
          rfl
      | ok u =>
          rw [hpol] at h
          cases h
  | nat | localNat | command =>
      rw [hmsg] at h
      cases h
      rfl

/-- Granted, it is one call to the firewall. -/
theorem install_of_access {source_ip : IpAddr} {ports : List PortProto}
    (hmsg : payload.message = .access source_ip ports)
    (hpol : check_policy X s p.source_ip source_ip ports = .ok ()) (name : String) (w : World) :
    (install X config p name s payload).exec (handler env) w
      = (opened name (env.firewall w.tick (granted_rule config s payload source_ip ports)),
          { w.next with
            calls := w.calls
              ++ [(w.current, granted_rule config s payload source_ip ports)] }) := by
  simp only [install, hmsg, hpol, bind_eq, perform_bind, exec_op, handler_openAccess,
    granted_rule]
  generalize env.firewall w.tick _ = answer
  cases answer with
  | ok handle => rfl
  | error e => rfl

/-- **EVERY CALL OF `process_packet`.** -/
theorem process_packet_cases {w w' : World} {r : Except DaemonError ProcessResult}
    (h : (process_packet X config persist_path p).exec (handler env) w = (r, w')) :
    Processed X config persist_path env p w r w' := by
  obtain ⟨rfl, rfl⟩ : r = ((process_packet X config persist_path p).exec (handler env) w).1
      ∧ w' = ((process_packet X config persist_path p).exec (handler env) w).2 := by
    rw [h]
    exact ⟨rfl, rfl⟩
  clear h
  -- the checks in the order of the source; each way out is one constructor of `Processed`
  cases hm : match_packet X.crypto p.data config.access with
  | noMatch =>
      simp only [process_packet, hm]
      exact .noMatch hm
  | rejected n r =>
      simp only [process_packet, hm]
      exact .unreadable n r hm
  | matched n pl =>
      cases hf : find_stanza config n with
      | error e =>
          simp only [process_packet, hm, hf]
          exact .missing n pl e hm hf
      | ok s =>
          simp only [process_packet, hm, hf, bind_eq, perform_bind, exec_op, handler_systemTime]
          cases hfr : validate_against_clock pl (now_unix (env.clock w.tick))
              (max_age_secs config.daemon.max_spa_packet_age) DEFAULT_MAX_SKEW_SECS with
          | error e => exact .stale n s pl e hm hf hfr
          | ok u =>
              have hcurrent : Current X config p (env.clock w.tick) n s pl := ⟨hm, hf, hfr⟩
              simp only [exec_bind]
              generalize hr : (check_and_insert persist_path pl.nonce).exec (handler env) w.next
                = res
              obtain ⟨r, w'⟩ := res
              cases r with
              | error e => exact .unsaved n s pl e w' hcurrent hr
              | ok fresh =>
                  cases fresh with
                  | false => exact .replay n s pl w' hcurrent hr
                  | true =>
                      cases hask : asked_rule X config s p.source_ip pl with
                      | error reason =>
                          simp only [install_of_refused hask]
                          exact .refused n s pl reason w' hcurrent hr hask
                      | ok rule =>
                          obtain ⟨sip, pts, hmsg, hpol, -⟩ := asked_rule_eq_ok.mp hask
                          simp only [install_of_access hmsg hpol]
                          exact .granted n s pl sip pts w' ⟨hm, hf, hfr, hmsg, hpol⟩ hr

/-! ## Granted or not -/

/-- Once the packet is granted, the single process only has the tail left. -/
theorem process_packet_of_grant {w : World}
    (hg : Grant X config p (env.clock w.tick) name stanza payload source_ip ports) :
    ((process_packet X config persist_path p).exec (handler env) w).2
      = ((grant_tail persist_path payload.nonce
          (granted_rule config stanza payload source_ip ports)).exec (handler env) w.next).2 := by
  obtain ⟨hm, hf, hfresh, hmsg, hpol⟩ := hg
  unfold Fresh at hfresh
  unfold process_packet grant_tail
  simp only [hm, hf, bind_eq, perform_bind, exec_op, handler_systemTime, hfresh, exec_bind]
  generalize (check_and_insert persist_path payload.nonce).exec (handler env) w.next = res
  obtain ⟨r, w'⟩ := res
  cases r with
  | error e => rfl
  | ok fresh =>
      cases fresh with
      | false => rfl
      | true =>
          unfold install
          simp only [hmsg, hpol, bind_eq, perform_bind, exec_op, handler_openAccess]
          cases env.firewall w'.tick _ <;> rfl

/-- So does the parent on the message of a granted packet, step by step. -/
theorem handle_crypto_msg_eq_tail (persist_path : Option String) {t : SystemTime} {src : IpAddr}
    (hg : Grant X config p t name stanza payload source_ip ports) :
    handle_crypto_msg config persist_path (.validRequest name src payload)
      = grant_tail persist_path payload.nonce
          (granted_rule config stanza payload source_ip ports) := by
  have hinstall : parent_install config name payload
      = (do
          let _ ← perform (.openAccess (granted_rule config stanza payload source_ip ports))
          pure ()) := by
    simp only [parent_install, hg.message, find_stanza_eq_ok.mp hg.found, duration_min_eq_clamp,
      granted_rule]
  simp only [handle_crypto_msg, grant_tail, hinstall]

theorem handle_crypto_msg_of_grant {w : World} {t : SystemTime} {src : IpAddr}
    (hg : Grant X config p t name stanza payload source_ip ports) :
    ((handle_crypto_msg config persist_path (.validRequest name src payload)).exec
        (handler env) w).2
      = ((grant_tail persist_path payload.nonce
          (granted_rule config stanza payload source_ip ports)).exec (handler env) w).2 := by
  rw [handle_crypto_msg_eq_tail persist_path hg]

/-- A packet that is not granted never reaches the firewall. -/
theorem process_packet_of_not_grant {w : World}
    (hg : ¬∃ name stanza payload source_ip ports,
      Grant X config p (env.clock w.tick) name stanza payload source_ip ports) :
    ((process_packet X config persist_path p).exec (handler env) w).2.calls = w.calls := by
  generalize hr : (process_packet X config persist_path p).exec (handler env) w = res
  obtain ⟨r, w'⟩ := res
  cases process_packet_cases hr with
  | noMatch h => rfl
  | unreadable n r h => rfl
  | missing n pl e h hf => rfl
  | stale n s pl e h hf ht => rfl
  | replay n s pl _ h hc => exact (check_and_insert_cases hc).1.1
  | unsaved n s pl e _ h hc => exact (check_and_insert_cases hc).1.1
  | refused n s pl reason _ h hc href => exact (check_and_insert_cases hc).1.1
  | granted n s pl sip pts w₁ h hc => exact absurd ⟨n, s, pl, sip, pts, h⟩ hg

/-- The crypto worker forwards a granted packet. -/
theorem validate_capture_msg_of_grant {w : World}
    (hg : Grant X config p (env.clock w.tick) name stanza payload source_ip ports) :
    (validate_capture_msg X config p).exec (handler env) w
      = (.validRequest name p.source_ip payload, w.next) := by
  obtain ⟨hm, hf, hfresh, hmsg, hpol⟩ := hg
  unfold Fresh at hfresh
  unfold validate_capture_msg
  simp only [hm, hf, bind_eq, perform_bind, exec_op, handler_systemTime, hfresh, hmsg, hpol]
  rfl

/-- It forwards no other, and touches nothing but the clock. -/
theorem validate_capture_msg_of_not_grant {w : World}
    (hg : ¬∃ name stanza payload source_ip ports,
      Grant X config p (env.clock w.tick) name stanza payload source_ip ports) :
    ∃ msg w', (validate_capture_msg X config p).exec (handler env) w = (msg, w')
      ∧ (∀ n src pl, msg ≠ .validRequest n src pl) ∧ (w' = w ∨ w' = w.next) := by
  unfold validate_capture_msg
  cases hm : match_packet X.crypto p.data config.access with
  | noMatch => exact ⟨_, _, rfl, (fun _ _ _ h => nomatch h), .inl rfl⟩
  | rejected n r => exact ⟨_, _, rfl, (fun _ _ _ h => nomatch h), .inl rfl⟩
  | matched n pl =>
      dsimp only
      cases hf : find_stanza config n with
      | error e => exact ⟨_, _, rfl, (fun _ _ _ h => nomatch h), .inl rfl⟩
      | ok s =>
          simp only [bind_eq, perform_bind, exec_op, handler_systemTime]
          cases hfr : validate_against_clock pl (now_unix (env.clock w.tick))
              (max_age_secs config.daemon.max_spa_packet_age) DEFAULT_MAX_SKEW_SECS with
          | error e => exact ⟨_, _, rfl, (fun _ _ _ h => nomatch h), .inr rfl⟩
          | ok u =>
              cases hmsg : pl.message with
              | access sip pts =>
                  dsimp only
                  cases hpol : check_policy X s p.source_ip sip pts with
                  | error reason => exact ⟨_, _, rfl, (fun _ _ _ h => nomatch h), .inr rfl⟩
                  | ok u => exact absurd ⟨n, s, pl, sip, pts, hm, hf, hfr, hmsg, hpol⟩ hg
              | nat => exact ⟨_, _, rfl, (fun _ _ _ h => nomatch h), .inr rfl⟩
              | localNat => exact ⟨_, _, rfl, (fun _ _ _ h => nomatch h), .inr rfl⟩
              | command => exact ⟨_, _, rfl, (fun _ _ _ h => nomatch h), .inr rfl⟩

/-- The parent ignores every other message. -/
theorem handle_crypto_msg_of_not_valid {msg : CryptoMsg}
    (h : ∀ n src pl, msg ≠ .validRequest n src pl) :
    handle_crypto_msg config persist_path msg = pure () := by
  cases msg with
  | validRequest n src pl => exact absurd rfl (h n src pl)
  | rejected => rfl
  | noMatch => rfl

/-! ## The two modes agree -/

/-- Running `prog` from `w` calls the firewall once, with the rule `r`. -/
def Opens {α : Type} (env : Env) (prog : Prog Eff α) (w : World) (r : AccessRule) : Prop :=
  (prog.exec (handler env) w).2.calls = w.calls ++ [(w.current, r)]

/-- The tail calls the firewall at most once, and only with its rule. -/
theorem grant_tail_calls (nonce : Nonce) (rule : AccessRule) (w : World) :
    ((grant_tail persist_path nonce rule).exec (handler env) w).2.calls = w.calls
      ∨ Opens env (grant_tail persist_path nonce rule) w rule := by
  unfold Opens grant_tail
  simp only [bind_eq, exec_bind]
  generalize hr : (check_and_insert persist_path nonce).exec (handler env) w = res
  obtain ⟨r, w'⟩ := res
  obtain ⟨⟨hcalls, hcur, _⟩, _⟩ := check_and_insert_cases hr
  cases r with
  | error e => exact .inl hcalls
  | ok fresh =>
      cases fresh with
      | false => exact .inl hcalls
      | true =>
          right
          show w'.calls ++ [(w'.current, rule)] = _
          rw [hcalls, hcur]

/-- With a new nonce, and writes that go through, it does call it. -/
theorem grant_tail_opens {nonce : Nonce} {w : World} (hnew : nonce ∉ w.cache.map)
    (hpersist : ∀ k, env.persist k = none) (rule : AccessRule) :
    Opens env (grant_tail persist_path nonce rule) w rule := by
  obtain ⟨w₁, hr, hcalls, hcur⟩ := check_and_insert_of_new persist_path hnew hpersist
  simp only [Opens, grant_tail, bind_eq, exec_bind, hr]
  show w₁.calls ++ [(w₁.current, rule)] = _
  rw [hcalls, hcur]

/-- So does the single process for a granted packet. -/
theorem process_packet_calls (persist_path : Option String) {w : World}
    (hg : Grant X config p (env.clock w.tick) name stanza payload source_ip ports) :
    ((process_packet X config persist_path p).exec (handler env) w).2.calls = w.calls
      ∨ Opens env (process_packet X config persist_path p) w
          (granted_rule config stanza payload source_ip ports) := by
  unfold Opens
  rw [process_packet_of_grant hg]
  exact grant_tail_calls _ _ w.next

/-- **THE TWO RUN MODES GRANT THE SAME RULES**: from every state, under every clock and
    every persist and firewall outcome, `process_packet` calls `open_access` with `r` iff
    the crypto worker forwards a request on which the parent calls it with `r`; otherwise
    neither calls it. -/
theorem same_rules (X : Ext) (config : DaemonConfig) (persist_path : Option String)
    (p : CapturedPacket) (env : Env) (w : World) :
    (∀ r, Opens env (process_packet X config persist_path p) w r
        ↔ ∃ name src payload w',
            (validate_capture_msg X config p).exec (handler env) w
                = (.validRequest name src payload, w')
              ∧ Opens env (handle_crypto_msg config persist_path
                  (.validRequest name src payload)) w' r)
      ∧ ((¬∃ r, Opens env (process_packet X config persist_path p) w r) →
          ((process_packet X config persist_path p).exec (handler env) w).2.calls = w.calls
            ∧ ∀ msg w', (validate_capture_msg X config p).exec (handler env) w = (msg, w') →
              ((handle_crypto_msg config persist_path msg).exec (handler env) w').2.calls
                = w.calls) := by
  by_cases hg : ∃ name stanza payload source_ip ports,
      Grant X config p (env.clock w.tick) name stanza payload source_ip ports
  · -- both sides run the same tail from the same world
    obtain ⟨n, s, pl, sip, pts, hg⟩ := hg
    have hval := validate_capture_msg_of_grant hg
    have hsame : ((process_packet X config persist_path p).exec (handler env) w).2.calls
        = ((handle_crypto_msg config persist_path (.validRequest n p.source_ip pl)).exec
            (handler env) w.next).2.calls := by
      rw [process_packet_of_grant hg, handle_crypto_msg_of_grant hg]
    constructor
    · intro r
      constructor
      · intro ho
        exact ⟨n, p.source_ip, pl, w.next, hval, hsame.symm.trans ho⟩
      · rintro ⟨_, _, _, _, hval', ho⟩
        cases hval.symm.trans hval'
        exact hsame.trans ho
    · intro hnone
      have hcalls : ((process_packet X config persist_path p).exec (handler env) w).2.calls
          = w.calls := by
        rcases process_packet_calls persist_path hg with hc | ho
        · exact hc
        · exact absurd ⟨_, ho⟩ hnone
      refine ⟨hcalls, ?_⟩
      intro msg w' hmsg
      cases hval.symm.trans hmsg
      exact hsame.symm.trans hcalls
  · -- without a grant neither side calls the firewall
    obtain ⟨msg, w', hval, hmsg, hw⟩ := validate_capture_msg_of_not_grant hg
    have hcalls : ((process_packet X config persist_path p).exec (handler env) w).2.calls
        = w.calls := process_packet_of_not_grant hg
    have hnone : ∀ r, ¬Opens env (process_packet X config persist_path p) w r := by
      intro r ho
      have habs := hcalls.symm.trans ho
      exact absurd (congrArg List.length habs) (by simp)
    refine ⟨?_, ?_⟩
    · intro r
      constructor
      · intro ho
        exact absurd ho (hnone r)
      · rintro ⟨n, src, pl, _, hval', _⟩
        cases hval.symm.trans hval'
        exact absurd rfl (hmsg n src pl)
    · intro _
      refine ⟨hcalls, ?_⟩
      intro msg' w'' hmsg'
      cases hval.symm.trans hmsg'
      rw [handle_crypto_msg_of_not_valid hmsg]
      rcases hw with rfl | rfl <;> rfl

end FwknoxPipeline
