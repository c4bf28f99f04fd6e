import Fwknox.PipelineProofs

/-! # Authorization — every rule goes back to a packet that earned it

    Both run modes as systems that take step after step.  In one process a step is a
    whole packet or a prune.  Separated, the capture worker, the crypto worker and the
    parent interleave freely: the parent works through its program one effect at a
    time while the other two keep filling the channels.

    The invariant of the separated mode is the order of the packets in the pipe: the
    positions behind the calls made, the message in the parent's hands, and the two
    channels form one increasing list.  No packet is counted twice because every step
    moves a position along that list or drops it. -/

namespace FwknoxAuthorization

open FwknoxTypes FwknoxClock FwknoxConfig FwknoxPacket FwknoxMatcher FwknoxPersist FwknoxWorld
open FwknoxReplay FwknoxPipeline LruMap EffectProg EffectProg.Prog

/-! ## What a call has to show -/

/-- The packet `p`, checked at the reading `t`, authorizes `rule` through stanza `s`. -/
structure Authorizes (X : Ext) (config : DaemonConfig) (p : CapturedPacket) (t : SystemTime)
    (s : AccessStanza) (payload : SpaPayload) (source_ip : IpAddr) (ports : List PortProto)
    (rule : AccessRule) : Prop where
  stanza : FirstVerified X.crypto p.data config.access s payload
  message : payload.message = .access source_ip ports
  fresh : Fresh config.daemon.max_spa_packet_age payload t
  ports_open : ∀ pp ∈ ports, pp ∈ s.open_ports
  source_listed : ∃ spec ∈ s.source, spec.matches X.net_contains p.source_ip = true
  source_match : s.require_source_match = true → source_ip = p.source_ip
  rule_source : rule.source_ip = source_ip
  rule_ports : rule.ports = ports
  rule_timeout : rule.timeout ≤ config.daemon.max_fw_timeout
  rule_comment : rule.comment = rule_comment payload

/-- The cause of a call is one of the captured packets, and authorizes its rule. -/
def Caused (X : Ext) (config : DaemonConfig) (env : Env) (captured : List CapturedPacket)
    (c : Cause) (rule : AccessRule) : Prop :=
  captured[c.index]? = some c.packet
    ∧ ∃ s payload source_ip ports,
        Authorizes X config c.packet (env.clock c.start) s payload source_ip ports rule

variable {X : Ext} {config : DaemonConfig} {env : Env}

/-- The policy in one line: the source it says, the source it may have, the ports it may ask for.
    -/
theorem check_policy_eq_ok_iff {s : AccessStanza} {captured_ip source_ip : IpAddr}
    {ports : List PortProto} :
    check_policy X s captured_ip source_ip ports = .ok ()
      ↔ (s.require_source_match = true → source_ip = captured_ip)
        ∧ (∃ spec ∈ s.source, spec.matches X.net_contains captured_ip = true)
        ∧ ∀ pp ∈ ports, pp ∈ s.open_ports := by
  have hports : ports.find? (fun pp => !s.open_ports.any (fun a => a == pp)) = none
      ↔ ∀ pp ∈ ports, pp ∈ s.open_ports := by
    simp
  rw [← hports, ← List.any_eq_true]
  simp only [check_policy]
  by_cases h1 : s.require_source_match = true ∧ source_ip ≠ captured_ip
  · rw [if_pos h1]
    exact ⟨(fun h => nomatch h), fun h => absurd (h.1 h1.1) h1.2⟩
  · have hsrc : s.require_source_match = true → source_ip = captured_ip := by
      intro hreq
      by_contra hne
      exact h1 ⟨hreq, hne⟩
    rw [if_neg h1]
    by_cases h2 : s.source.any (fun spec => spec.matches X.net_contains captured_ip) = false
    · rw [if_pos h2]
      exact ⟨(fun h => nomatch h), fun h => absurd h.2.1 (by rw [h2]; exact Bool.false_ne_true)⟩
    · rw [if_neg h2]
      cases ports.find? (fun pp => !s.open_ports.any (fun a => a == pp)) with
      | some pp => exact ⟨(fun h => nomatch h), fun h => nomatch h.2.2⟩
      | none => exact ⟨fun _ => ⟨hsrc, Bool.not_eq_false _ ▸ h2, rfl⟩, fun _ => rfl⟩

/-- The clamp is the minimum. -/
theorem clamp_timeout_as_nanos (a b : Duration) :
    (clamp_timeout a b).as_nanos = min a.as_nanos b.as_nanos := by
  simp only [clamp_timeout, Duration.lt_iff_as_nanos_lt]
  split <;> omega

/-- A clamped timeout is within the maximum. -/
theorem clamp_timeout_le (a b : Duration) : clamp_timeout a b ≤ b := by
  rw [Duration.le_iff_as_nanos_le, clamp_timeout_as_nanos]
  exact Nat.min_le_right _ _

/-- Names are unique, so looking the stanza up again finds the one that matched. -/
theorem find_stanza_of_nodup {s stanza : AccessStanza}
    (hnd : (config.access.map (·.name)).Nodup) (hs : s ∈ config.access)
    (h : find_stanza config s.name = .ok stanza) : stanza = s := by
  have hfind := (find_by_name_iff hnd).mpr ⟨hs, rfl⟩
  exact Option.some.inj ((find_stanza_eq_ok.mp h).symm.trans hfind)

/-- **A GRANT AUTHORIZES**: for an accepted configuration. -/
theorem authorizes_of_grant (hv : config.validate = .ok ()) {p : CapturedPacket}
    {t : SystemTime} {name : String} {stanza : AccessStanza} {payload : SpaPayload}
    {source_ip : IpAddr} {ports : List PortProto}
    (hg : Grant X config p t name stanza payload source_ip ports) :
    Authorizes X config p t stanza payload source_ip ports
      (granted_rule config stanza payload source_ip ports) := by
  obtain ⟨s, rfl, hfirst⟩ := match_packet_matched hg.matched
  have heq := find_stanza_of_nodup (validate_eq_ok_iff.mp hv).names hfirst.mem hg.found
  obtain ⟨hmatch, hlist, hports⟩ := check_policy_eq_ok_iff.mp hg.policy
  exact ⟨heq ▸ hfirst, hg.message, hg.fresh, hports, hlist, hmatch, rfl, rfl,
    clamp_timeout_le _ _, rfl⟩

/-! ## One process -/

/-- What the daemon's loop does in one turn. -/
inductive DaemonOp where
  | packet (p : CapturedPacket)
  | prune

/-- The packets of a list of steps, in order. -/
def packets : List DaemonOp → List CapturedPacket
  | [] => []
  | .packet p :: ops => p :: packets ops
  | .prune :: ops => packets ops

/-- Handle packet number `n`, or prune. -/
def DaemonOp.run (X : Ext) (config : DaemonConfig) (persist_path : Option String) (env : Env)
    (n : Nat) : DaemonOp → World → World
  | .packet p, w =>
      ((process_packet X config persist_path p).exec (handler env)
        { w with current := ⟨n, p, w.tick⟩ }).2
  | .prune, w => ((prune_older_than persist_path config.replay.max_age).exec (handler env) w).2

/-- Turns one after another; `n` packets came before. -/
def run_daemon (X : Ext) (config : DaemonConfig) (persist_path : Option String) (env : Env) :
    Nat → List DaemonOp → World → World
  | _, [], w => w
  | n, .packet p :: ops, w =>
      run_daemon X config persist_path env (n + 1) ops
        (DaemonOp.run X config persist_path env n (.packet p) w)
  | n, .prune :: ops, w =>
      run_daemon X config persist_path env n ops
        (DaemonOp.run X config persist_path env n .prune w)

variable {persist_path : Option String}

/-- A packet adds at most one call, its own and granted. -/
theorem packet_calls (n : Nat) (p : CapturedPacket) (w : World) :
    (DaemonOp.run X config persist_path env n (.packet p) w).calls = w.calls
      ∨ ∃ name stanza payload source_ip ports,
          (DaemonOp.run X config persist_path env n (.packet p) w).calls
              = w.calls ++ [(⟨n, p, w.tick⟩, granted_rule config stanza payload source_ip ports)]
            ∧ Grant X config p (env.clock w.tick) name stanza payload source_ip ports := by
  by_cases hg : ∃ name stanza payload source_ip ports,
      Grant X config p (env.clock w.tick) name stanza payload source_ip ports
  · obtain ⟨name, stanza, payload, source_ip, ports, hg⟩ := hg
    have hg' : Grant X config p (env.clock ({ w with current := ⟨n, p, w.tick⟩ } : World).tick)
        name stanza payload source_ip ports := hg
    rcases process_packet_calls persist_path hg' with hc | ho
    · exact .inl hc
    · exact .inr ⟨_, _, _, _, _, ho, hg⟩
  · exact .inl (process_packet_of_not_grant hg)

/-- Every call so far has a cause among the packets, in order, each used once. -/
structure Accounted (X : Ext) (config : DaemonConfig) (env : Env)
    (captured : List CapturedPacket) (calls : List (Cause × AccessRule)) : Prop where
  caused : ∀ c ∈ calls, Caused X config env captured c.1 c.2
  ordered : (calls.map (fun c => c.1.index)).Pairwise (· < ·)

/-- Later packets take no cause away. -/
theorem Caused.append {captured : List CapturedPacket} {c : Cause} {rule : AccessRule}
    (h : Caused X config env captured c rule) (more : List CapturedPacket) :
    Caused X config env (captured ++ more) c rule := by
  refine ⟨?_, h.2⟩
  rw [List.getElem?_append_left (List.getElem?_eq_some_iff.mp h.1).1]
  exact h.1

/-- A cause is a packet that was captured. -/
theorem Caused.index_lt {captured : List CapturedPacket} {c : Cause} {rule : AccessRule}
    (h : Caused X config env captured c rule) : c.index < captured.length :=
  (List.getElem?_eq_some_iff.mp h.1).1

/-- Later packets leave the account balanced. -/
theorem Accounted.append {captured : List CapturedPacket} {calls : List (Cause × AccessRule)}
    (h : Accounted X config env captured calls) (more : List CapturedPacket) :
    Accounted X config env (captured ++ more) calls :=
  ⟨fun c hc => (h.caused c hc).append more, h.ordered⟩

/-- One packet keeps the account, under its own position. -/
theorem accounted_packet (hv : config.validate = .ok ()) {before : List CapturedPacket}
    {w : World} (p : CapturedPacket) (h : Accounted X config env before w.calls) :
    Accounted X config env (before ++ [p])
      (DaemonOp.run X config persist_path env before.length (.packet p) w).calls := by
  rcases packet_calls before.length p w with hc | ⟨_, s, payload, sip, pts, hc, hg⟩
  · rw [hc]
    exact h.append [p]
  · rw [hc]
    constructor
    · intro c hmem
      rcases List.mem_append.mp hmem with hold | hnew
      · exact (h.caused c hold).append [p]
      · rw [List.mem_singleton.mp hnew]
        exact ⟨List.getElem?_concat_length, s, payload, sip, pts, authorizes_of_grant hv hg⟩
    · rw [List.map_append, List.pairwise_append]
      refine ⟨h.ordered, List.pairwise_singleton _ _, ?_⟩
      intro i hi j hj
      obtain ⟨c, hc, rfl⟩ := List.mem_map.mp hi
      rw [List.mem_singleton.mp hj]
      exact (h.caused c hc).index_lt

/-- A prune opens no rule. -/
theorem prune_calls (n : Nat) (w : World) :
    (DaemonOp.run X config persist_path env n .prune w).calls = w.calls := by
  generalize hr : (prune_older_than persist_path config.replay.max_age).exec (handler env) w = res
  obtain ⟨r, w'⟩ := res
  have hrun : DaemonOp.run X config persist_path env n .prune w = w' := congrArg Prod.snd hr
  rw [hrun]
  exact (prune_older_than_cases hr).1.1

/-- Every step of a run does. -/
theorem accounted_run (hv : config.validate = .ok ()) (ops : List DaemonOp)
    {before : List CapturedPacket} {w : World} (h : Accounted X config env before w.calls) :
    Accounted X config env (before ++ packets ops)
      (run_daemon X config persist_path env before.length ops w).calls := by
  induction ops generalizing before w with
  | nil =>
      rw [show before ++ packets [] = before from List.append_nil _]
      exact h
  | cons o ops ih =>
      cases o with
      | packet p =>
          have hp : Accounted X config env (before ++ [p])
              (DaemonOp.run X config persist_path env before.length (.packet p) w).calls :=
            accounted_packet hv p h
          have hstep := ih hp
          rw [List.length_append, List.append_assoc] at hstep
          exact hstep
      | prune =>
          refine ih ?_
          rw [prune_calls]
          exact h

/-! ## Programs that open a bounded number of rules -/

/-- Whatever the answers, at most `n` rules are opened, all of them satisfying `R`. -/
def OpensAtMost (R : AccessRule → Prop) {α : Type} : Nat → Prog Eff α → Prop
  | _, .ret _ => True
  | n, .op e k =>
      match e.opens with
      | none => ∀ b, OpensAtMost R n (k b)
      | some rule => ∃ m, n = m + 1 ∧ R rule ∧ ∀ b, OpensAtMost R m (k b)

section OpensAtMost

variable {R R' : AccessRule → Prop} {α γ : Type}

theorem opensAtMost_op_none {n : Nat} {e : Eff γ} {k : γ → Prog Eff α} (he : e.opens = none) :
    OpensAtMost R n (.op e k) ↔ ∀ b, OpensAtMost R n (k b) := by
  simp only [OpensAtMost, he]

theorem opensAtMost_op_some {n : Nat} {e : Eff γ} {k : γ → Prog Eff α} {rule : AccessRule}
    (he : e.opens = some rule) :
    OpensAtMost R n (.op e k) ↔ ∃ m, n = m + 1 ∧ R rule ∧ ∀ b, OpensAtMost R m (k b) := by
  simp only [OpensAtMost, he]

/-- With nothing left to open the condition on rules does not matter. -/
theorem OpensAtMost.weaken {n : Nat} {prog : Prog Eff α} (h : OpensAtMost R n prog)
    (hR : n = 0 ∨ ∀ rule, R rule → R' rule) : OpensAtMost R' n prog := by
  induction prog generalizing n with
  | ret a => trivial
  | op e k ih =>
      cases he : e.opens with
      | none =>
          refine (opensAtMost_op_none he).mpr ?_
          intro b
          exact ih b ((opensAtMost_op_none he).mp h b) hR
      | some rule =>
          obtain ⟨m, rfl, hr, hk⟩ := (opensAtMost_op_some he).mp h
          have hR' : ∀ rule, R rule → R' rule := hR.resolve_left (Nat.succ_ne_zero m)
          exact (opensAtMost_op_some he).mpr ⟨m, rfl, hR' rule hr, fun b => ih b (hk b) (.inr hR')⟩

/-- Any larger bound is one too. -/
theorem OpensAtMost.mono {m n : Nat} {prog : Prog Eff α} (h : OpensAtMost R m prog)
    (hmn : m ≤ n) : OpensAtMost R n prog := by
  induction prog generalizing m n with
  | ret a => trivial
  | op e k ih =>
      cases he : e.opens with
      | none =>
          rw [opensAtMost_op_none he] at h ⊢
          exact fun b => ih b (h b) hmn
      | some rule =>
          obtain ⟨m', rfl, hr, hk⟩ := (opensAtMost_op_some he).mp h
          refine (opensAtMost_op_some he).mpr ⟨n - 1, by omega, hr, ?_⟩
          exact fun b => ih b (hk b) (by omega)

/-- A program that opens nothing, then one that opens at most `n`. -/
theorem OpensAtMost.bind {n : Nat} {prog : Prog Eff α} {f : α → Prog Eff γ}
    (h : OpensAtMost R 0 prog) (hf : ∀ a, OpensAtMost R n (f a)) :
    OpensAtMost R n (prog.bind f) := by
  induction prog with
  | ret a => exact hf a
  | op e k ih =>
      cases he : e.opens with
      | none => exact (opensAtMost_op_none he).mpr fun b => ih b ((opensAtMost_op_none he).mp h b)
      | some rule =>
          obtain ⟨m, hm, _⟩ := (opensAtMost_op_some he).mp h
          exact nomatch hm

/-- Saving opens no rule. -/
theorem opensAtMost_auto_save (persist_path : Option String) :
    OpensAtMost R 0 (auto_save persist_path) := by
  cases persist_path with
  | none => trivial
  | some path => exact fun _ _ => trivial

/-- Nor does the replay check. -/
theorem opensAtMost_check_and_insert (persist_path : Option String) (nonce : Nonce) :
    OpensAtMost R 0 (check_and_insert persist_path nonce) := by
  intro now fresh
  cases fresh with
  | false => trivial
  | true =>
      show OpensAtMost R 0 ((auto_save persist_path).bind _)
      refine OpensAtMost.bind (opensAtMost_auto_save persist_path) (fun r => ?_)
      cases r with
      | ok u => trivial
      | error e => exact fun _ => trivial

/-- Nor does a prune. -/
theorem opensAtMost_prune (persist_path : Option String) (max_age : Duration) :
    OpensAtMost R 0 ((prune_older_than persist_path max_age).bind fun _ => .ret ()) := by
  refine OpensAtMost.bind ?_ (fun _ => trivial)
  intro now pruned
  show OpensAtMost R 0 (if pruned > 0 then _ else _)
  by_cases hp : pruned > 0
  · rw [if_pos hp]
    refine OpensAtMost.bind (opensAtMost_auto_save persist_path) (fun r => ?_)
    cases r <;> trivial
  · rw [if_neg hp]
    trivial

/-- The parent opens at most one rule for a message, the granted one. -/
theorem opensAtMost_handle {p : CapturedPacket} {t : SystemTime} {name : String}
    {stanza : AccessStanza} {payload : SpaPayload} {source_ip : IpAddr} {ports : List PortProto}
    {src : IpAddr} (hg : Grant X config p t name stanza payload source_ip ports)
    (hR : R (granted_rule config stanza payload source_ip ports)) :
    OpensAtMost R 1 (handle_crypto_msg config persist_path (.validRequest name src payload)) := by
  have hfind := find_stanza_eq_ok.mp hg.found
  refine OpensAtMost.bind (opensAtMost_check_and_insert persist_path payload.nonce) (fun r => ?_)
  cases r with
  | error e => trivial
  | ok fresh =>
      cases fresh with
      | false => trivial
      | true =>
          show OpensAtMost R 1 (parent_install config name payload)
          unfold parent_install
          simp only [hg.message, hfind]
          exact ⟨0, rfl, hR, fun _ => trivial⟩

end OpensAtMost

/-! ## Separated processes -/

/-- The three processes: what has been captured, the two channels, the rest of the
    parent's current program, and the parent's world.  Positions and causes in the
    channels are bookkeeping; the messages are the source's. -/
structure Privsep where
  captured : List CapturedPacket
  capture_chan : List (Nat × CapturedPacket)
  crypto_chan : List (Cause × CryptoMsg)
  parent : Prog Eff Unit
  world : World

/-- What one of the three processes does next. -/
inductive PrivsepStep where
  /-- The capture worker forwards a packet. -/
  | capture (p : CapturedPacket)
  /-- The crypto worker validates the oldest message. -/
  | crypto
  /-- The idle parent takes the oldest reply. -/
  | recv
  /-- The idle parent prunes. -/
  | prune
  /-- The busy parent performs its next effect. -/
  | parent

/-- One step; a step that is not enabled changes nothing. -/
def PrivsepStep.run (X : Ext) (config : DaemonConfig) (persist_path : Option String) (env : Env) :
    PrivsepStep → Privsep → Privsep
  | .capture p, s =>
      { s with
        captured := s.captured ++ [p]
        capture_chan := s.capture_chan ++ [(s.captured.length, p)] }
  | .crypto, s =>
      match s.capture_chan with
      | [] => s
      | (i, p) :: rest =>
          let r := (validate_capture_msg X config p).exec (handler env) s.world
          { s with
            capture_chan := rest
            crypto_chan := s.crypto_chan ++ [(⟨i, p, s.world.tick⟩, r.1)]
            world := r.2 }
  | .recv, s =>
      match s.parent, s.crypto_chan with
      | .ret _, (c, msg) :: rest =>
          { s with
            crypto_chan := rest
            parent := handle_crypto_msg config persist_path msg
            world := { s.world with current := c } }
      | _, _ => s
  | .prune, s =>
      match s.parent with
      | .ret _ =>
          { s with
            parent := (prune_older_than persist_path config.replay.max_age).bind fun _ => .ret () }
      | .op _ _ => s
  | .parent, s =>
      match s.parent with
      | .ret _ => s
      | .op e k =>
          { s with
            parent := k (handler env _ e s.world).1
            world := (handler env _ e s.world).2 }

/-- A schedule of the three processes. -/
def run_privsep (X : Ext) (config : DaemonConfig) (persist_path : Option String) (env : Env) :
    List PrivsepStep → Privsep → Privsep
  | [], s => s
  | l :: ls, s => run_privsep X config persist_path env ls (l.run X config persist_path env s)

/-- Nothing captured yet, both channels empty, the parent idle. -/
def Privsep.start (w : World) : Privsep := ⟨[], [], [], .ret (), w⟩

/-- The positions in the pipe, oldest first; `live` is the message in the parent's
    hands while it may still open its rule. -/
def positions (s : Privsep) (live : List Nat) : List Nat :=
  s.world.calls.map (fun c => c.1.index) ++ live ++ s.crypto_chan.map (fun q => q.1.index)
    ++ s.capture_chan.map Prod.fst

/-- What the parent may still do for the message it holds. -/
def Held (X : Ext) (config : DaemonConfig) (env : Env) (s : Privsep) (live : List Nat) : Prop :=
  (live = [] ∧ OpensAtMost (fun _ => False) 0 s.parent)
    ∨ (live = [s.world.current.index]
      ∧ OpensAtMost (Caused X config env s.captured s.world.current) 1 s.parent)

/-- The invariant of the separated mode. -/
structure PrivsepInv (X : Ext) (config : DaemonConfig) (env : Env) (s : Privsep) : Prop where
  queued : ∀ q ∈ s.capture_chan, s.captured[q.1]? = some q.2
  validated : ∀ q ∈ s.crypto_chan, s.captured[q.1.index]? = some q.1.packet
    ∧ ∀ n src pl, q.2 = .validRequest n src pl → ∃ stanza sip pts,
        Grant X config q.1.packet (env.clock q.1.start) n stanza pl sip pts
  caused : ∀ c ∈ s.world.calls, Caused X config env s.captured c.1 c.2
  ordered : ∃ live, Held X config env s live ∧ (positions s live).Pairwise (· < ·)
    ∧ ∀ i ∈ positions s live, i < s.captured.length

/-- At the start the channels are empty and nobody has called. -/
theorem privsepInv_start (w : World) (hw : w.calls = []) :
    PrivsepInv X config env (Privsep.start w) where
  queued _ h := nomatch h
  validated _ h := nomatch h
  caused c h := by
    rw [show (Privsep.start w).world.calls = [] from hw] at h
    exact nomatch h
  ordered := by
    have hpos : positions (Privsep.start w) [] = [] := by
      unfold positions Privsep.start
      rw [hw]
      rfl
    refine ⟨[], .inl ⟨rfl, trivial⟩, ?_⟩
    rw [hpos]
    exact ⟨.nil, fun i hi => nomatch hi⟩

/-- What the parent holds is one more position. -/
theorem positions_sublist (s : Privsep) (live : List Nat) :
    (positions s []).Sublist (positions s live) := by
  unfold positions
  rw [List.append_nil]
  exact ((List.sublist_append_left _ _).append_right _).append_right _

/-- A capture adds the last position there is. -/
theorem privsepInv_capture (p : CapturedPacket) {s : Privsep} (h : PrivsepInv X config env s) :
    PrivsepInv X config env (PrivsepStep.run X config persist_path env (.capture p) s) := by
  obtain ⟨hq, hval, hcau, live, hheld, hord, hlt⟩ := h
  have hgrow : ∀ {i : Nat} {q : CapturedPacket},
      s.captured[i]? = some q → (s.captured ++ [p])[i]? = some q := by
    intro i q hi
    rw [List.getElem?_append_left (List.getElem?_eq_some_iff.mp hi).1]
    exact hi
  have hpos : positions (PrivsepStep.run X config persist_path env (.capture p) s) live
      = positions s live ++ [s.captured.length] := by
    simp only [positions, PrivsepStep.run, List.map_append, List.append_assoc]
    rfl
  refine ⟨?_, ?_, ?_, live, ?_, ?_, ?_⟩
  · intro q hmem
    rcases List.mem_append.mp hmem with hold | hnew
    · exact hgrow (hq q hold)
    · rw [List.mem_singleton.mp hnew]
      exact List.getElem?_concat_length
  · exact fun q hmem => ⟨hgrow (hval q hmem).1, (hval q hmem).2⟩
  · exact fun c hmem => (hcau c hmem).append [p]
  · exact hheld.imp id fun ⟨hl, ho⟩ => ⟨hl, ho.weaken (.inr fun r hr => hr.append [p])⟩
  · rw [hpos, List.pairwise_append]
    refine ⟨hord, List.pairwise_singleton _ _, fun i hi j hj => ?_⟩
    rw [List.mem_singleton.mp hj]
    exact hlt i hi
  · rw [hpos]
    intro i hi
    show i < (s.captured ++ [p]).length
    rw [List.length_append, List.length_singleton]
    rcases List.mem_append.mp hi with hold | hnew
    · exact Nat.lt_succ_of_lt (hlt i hold)
    · rw [List.mem_singleton.mp hnew]
      exact Nat.lt_succ_self _

/-- The crypto worker's message carries its grant; only the clock moves on. -/
theorem validate_capture_msg_exec (X : Ext) (config : DaemonConfig) (env : Env)
    (p : CapturedPacket) (w : World) :
    (∀ n src pl, ((validate_capture_msg X config p).exec (handler env) w).1
        = .validRequest n src pl → ∃ stanza sip pts,
          Grant X config p (env.clock w.tick) n stanza pl sip pts)
      ∧ ((validate_capture_msg X config p).exec (handler env) w).2.calls = w.calls
      ∧ ((validate_capture_msg X config p).exec (handler env) w).2.current = w.current := by
  by_cases hg : ∃ name stanza payload source_ip ports,
      Grant X config p (env.clock w.tick) name stanza payload source_ip ports
  · obtain ⟨n, s, pl, sip, pts, hg⟩ := hg
    rw [validate_capture_msg_of_grant hg]
    refine ⟨?_, rfl, rfl⟩
    intro n' src pl' hmsg
    cases hmsg
    exact ⟨s, sip, pts, hg⟩
  · obtain ⟨msg, w', hval, hmsg, hw⟩ := validate_capture_msg_of_not_grant hg
    rw [hval]
    refine ⟨fun n src pl h => absurd h (hmsg n src pl), ?_⟩
    rcases hw with rfl | rfl
    · exact ⟨rfl, rfl⟩
    · exact ⟨rfl, rfl⟩

/-- The crypto worker passes a position on. -/
theorem privsepInv_crypto {s : Privsep} (h : PrivsepInv X config env s) :
    PrivsepInv X config env (PrivsepStep.run X config persist_path env .crypto s) := by
  obtain ⟨captured, chan, cq, parent, w⟩ := s
  cases chan with
  | nil => exact h
  | cons q rest =>
      obtain ⟨i, p⟩ := q
      obtain ⟨hq, hval, hcau, live, hheld, hord, hlt⟩ := h
      obtain ⟨hgrant, hcalls, hcur⟩ :=
        validate_capture_msg_exec X config env p w
      have hpos : positions (PrivsepStep.run X config persist_path env .crypto
          ⟨captured, (i, p) :: rest, cq, parent, w⟩) live
          = positions ⟨captured, (i, p) :: rest, cq, parent, w⟩ live := by
        simp only [positions, PrivsepStep.run, hcalls, List.map_append, List.append_assoc]
        rfl
      refine ⟨fun q hmem => hq q (List.mem_cons_of_mem _ hmem), ?_, ?_, live, ?_, ?_, ?_⟩
      · intro q hmem
        rcases List.mem_append.mp hmem with hold | hnew
        · exact hval q hold
        · rw [List.mem_singleton.mp hnew]
          exact ⟨hq (i, p) List.mem_cons_self, hgrant⟩
      · intro c hmem
        exact hcau c (hcalls ▸ hmem)
      · unfold Held at hheld ⊢
        simp only [PrivsepStep.run, hcur]
        exact hheld
      · rw [hpos]
        exact hord
      · rw [hpos]
        exact hlt

/-- The parent takes the first message and with it its position. -/
theorem privsepInv_recv (hv : config.validate = .ok ()) {s : Privsep}
    (h : PrivsepInv X config env s) :
    PrivsepInv X config env (PrivsepStep.run X config persist_path env .recv s) := by
  obtain ⟨captured, chan, cq, parent, w⟩ := s
  cases parent with
  | op e k => exact h
  | ret u =>
      cases cq with
      | nil => exact h
      | cons q rest =>
          obtain ⟨c, msg⟩ := q
          obtain ⟨hq, hval, hcau, live, _, hord, hlt⟩ := h
          obtain ⟨hcap, hgrant⟩ := hval (c, msg) List.mem_cons_self
          -- drop whatever the idle parent still held; the new message takes the place
          have hsub := positions_sublist ⟨captured, chan, (c, msg) :: rest, .ret u, w⟩ live
          have hpos : positions (PrivsepStep.run X config persist_path env .recv
              ⟨captured, chan, (c, msg) :: rest, .ret u, w⟩) [c.index]
              = positions ⟨captured, chan, (c, msg) :: rest, .ret u, w⟩ [] := by
            simp only [positions, PrivsepStep.run, List.append_nil, List.append_assoc]
            rfl
          refine ⟨hq, fun q hmem => hval q (List.mem_cons_of_mem _ hmem), hcau, [c.index],
            .inr ⟨rfl, ?_⟩, ?_, ?_⟩
          · show OpensAtMost (Caused X config env captured c) 1
              (handle_crypto_msg config persist_path msg)
            cases msg with
            | validRequest n src pl =>
                obtain ⟨stanza, sip, pts, hg⟩ := hgrant n src pl rfl
                exact opensAtMost_handle hg
                  ⟨hcap, stanza, pl, sip, pts, authorizes_of_grant hv hg⟩
            | rejected => trivial
            | noMatch => trivial
          · rw [hpos]
            exact hord.sublist hsub
          · rw [hpos]
            exact fun i hi => hlt i (hsub.subset hi)

/-- A prune holds no position. -/
theorem privsepInv_prune {s : Privsep} (h : PrivsepInv X config env s) :
    PrivsepInv X config env (PrivsepStep.run X config persist_path env .prune s) := by
  obtain ⟨captured, chan, cq, parent, w⟩ := s
  cases parent with
  | op e k => exact h
  | ret u =>
      obtain ⟨hq, hval, hcau, live, _, hord, hlt⟩ := h
      have hsub := positions_sublist ⟨captured, chan, cq, .ret u, w⟩ live
      exact ⟨hq, hval, hcau, [], .inl ⟨rfl, opensAtMost_prune _ _⟩, hord.sublist hsub,
        fun i hi => hlt i (hsub.subset hi)⟩

/-- The parent's next effect: an opening moves the held position to the calls. -/
theorem privsepInv_parent {s : Privsep} (h : PrivsepInv X config env s) :
    PrivsepInv X config env (PrivsepStep.run X config persist_path env .parent s) := by
  obtain ⟨captured, chan, cq, parent, w⟩ := s
  cases parent with
  | ret u => exact h
  | op e k =>
      obtain ⟨hq, hval, hcau, live, hheld, hord, hlt⟩ := h
      have hcur := handler_current env w e
      have hcalls := handler_calls env w e
      cases he : e.opens with
      | none =>
          -- no call: the packet in hand keeps its place
          rw [he] at hcalls
          have hcalls' : (handler env _ e w).2.calls = w.calls := hcalls.trans (List.append_nil _)
          have hpos : positions (PrivsepStep.run X config persist_path env .parent
              ⟨captured, chan, cq, .op e k, w⟩) live
              = positions ⟨captured, chan, cq, .op e k, w⟩ live := by
            simp only [positions, PrivsepStep.run, hcalls']
          refine ⟨hq, hval, fun c hmem => hcau c (hcalls' ▸ hmem), live, ?_, ?_, ?_⟩
          · rcases hheld with ⟨hl, ho⟩ | ⟨hl, ho⟩
            · exact .inl ⟨hl, (opensAtMost_op_none he).mp ho _⟩
            · refine .inr ⟨hl.trans ?_, ?_⟩
              · show [w.current.index] = [(handler env _ e w).2.current.index]
                rw [hcur]
              · show OpensAtMost (Caused X config env captured (handler env _ e w).2.current) 1 _
                rw [hcur]
                exact (opensAtMost_op_none he).mp ho _
          · rw [hpos]
            exact hord
          · rw [hpos]
            exact hlt
      | some rule =>
          -- its one call: the place moves from the packet in hand to the calls
          rw [he] at hcalls
          have hcalls' : (handler env _ e w).2.calls = w.calls ++ [(w.current, rule)] := hcalls
          rcases hheld with ⟨_, ho⟩ | ⟨hl, ho⟩
          · obtain ⟨m, hm, _⟩ := (opensAtMost_op_some he).mp ho
            exact nomatch hm
          · obtain ⟨m, hm, hr, hk⟩ := (opensAtMost_op_some he).mp ho
            have hm0 : m = 0 := (Nat.succ.inj hm).symm
            subst hm0
            have hpos : positions (PrivsepStep.run X config persist_path env .parent
                ⟨captured, chan, cq, .op e k, w⟩) []
                = positions ⟨captured, chan, cq, .op e k, w⟩ live := by
              simp only [positions, PrivsepStep.run, hcalls', hl, List.map_append,
                List.append_assoc, List.nil_append]
              rfl
            refine ⟨hq, hval, ?_, [], .inl ⟨rfl, (hk _).weaken (.inl rfl)⟩, ?_, ?_⟩
            · intro c hmem
              have hmem' : c ∈ w.calls ++ [(w.current, rule)] := hcalls' ▸ hmem
              rcases List.mem_append.mp hmem' with hold | hnew
              · exact hcau c hold
              · rw [List.mem_singleton.mp hnew]
                exact hr
            · rw [hpos]
              exact hord
            · rw [hpos]
              exact hlt

/-- Every step keeps the invariant. -/
theorem privsepInv_step (hv : config.validate = .ok ()) (l : PrivsepStep) {s : Privsep}
    (h : PrivsepInv X config env s) :
    PrivsepInv X config env (l.run X config persist_path env s) := by
  cases l with
  | capture p => exact privsepInv_capture p h
  | crypto => exact privsepInv_crypto h
  | recv => exact privsepInv_recv hv h
  | prune => exact privsepInv_prune h
  | parent => exact privsepInv_parent h

/-- The invariant holds along every schedule. -/
theorem privsepInv_run (hv : config.validate = .ok ()) (ls : List PrivsepStep) {s : Privsep}
    (h : PrivsepInv X config env s) :
    PrivsepInv X config env (run_privsep X config persist_path env ls s) := by
  induction ls generalizing s with
  | nil => exact h
  | cons l ls ih => exact ih (privsepInv_step hv l h)

/-- The account of the separated mode. -/
theorem PrivsepInv.accounted {s : Privsep} (h : PrivsepInv X config env s) :
    Accounted X config env s.captured s.world.calls := by
  obtain ⟨_, _, hcau, live, _, hord, _⟩ := h
  refine ⟨hcau, hord.sublist ?_⟩
  unfold positions
  exact ((List.sublist_append_left _ _).trans (List.sublist_append_left _ _)).trans
    (List.sublist_append_left _ _)

/-- **AUTHORIZATION SOUNDNESS**: for every accepted configuration, every initial cache,
    every clock and every pattern of failures, each call of the firewall in a run of
    either mode has its cause among the captured packets, a different one for each
    call, and that packet authorizes the rule. -/
theorem authorization_sound (X : Ext) {config : DaemonConfig} (hv : config.validate = .ok ())
    (persist_path : Option String) (env : Env) (w : World) (hw : w.calls = []) :
    (∀ ops, Accounted X config env (packets ops)
        (run_daemon X config persist_path env 0 ops w).calls)
      ∧ ∀ ls, Accounted X config env
          (run_privsep X config persist_path env ls (Privsep.start w)).captured
          (run_privsep X config persist_path env ls (Privsep.start w)).world.calls := by
  constructor
  · intro ops
    have hstart : Accounted X config env [] w.calls := by
      rw [hw]
      exact ⟨(fun c hc => nomatch hc), .nil⟩
    exact accounted_run hv ops hstart
  · intro ls
    exact (privsepInv_run hv ls (privsepInv_start w hw)).accounted

/-- The primitives on the sample packet; its stanza accepts any source, so no network
    is ever looked at. -/
def sampleExt : Ext := ⟨sampleRow.crypto, fun _ _ => false⟩

/-- The recorded packet, from the address it was sent from. -/
def samplePacket : CapturedPacket := ⟨.v4 sampleIp, sampleRow.wire⟩

/-- The clock stands at the sample packet's timestamp and nothing fails. -/
def sampleEnv : Env where
  clock _ := ⟨1700000000⟩
  persist _ := none
  firewall _ _ := .ok ⟨"192.0.2.7/tcp/22"⟩
  order _ l := l
  order_perm _ l := .refl l

/-- The sample packet, captured twice. -/
def sampleOps : List DaemonOp := [.packet samplePacket, .prune, .packet samplePacket]

/-- Capture it, validate it, take it, and let the parent finish. -/
def sampleSchedule : List PrivsepStep :=
  [.capture samplePacket, .crypto, .capture samplePacket, .crypto, .recv]
    ++ List.replicate 5 .parent ++ .recv :: List.replicate 5 .parent

/-- Both modes open its rule, once. -/
theorem sample_run_authorized :
    ((run_daemon sampleExt sampleConfig none sampleEnv 0 sampleOps emptyWorld).calls.length = 1
      ∧ Accounted sampleExt sampleConfig sampleEnv (packets sampleOps)
          (run_daemon sampleExt sampleConfig none sampleEnv 0 sampleOps emptyWorld).calls)
    ∧ (run_privsep sampleExt sampleConfig none sampleEnv sampleSchedule
          (Privsep.start emptyWorld)).world.calls.length = 1
      ∧ Accounted sampleExt sampleConfig sampleEnv
          (run_privsep sampleExt sampleConfig none sampleEnv sampleSchedule
            (Privsep.start emptyWorld)).captured
          (run_privsep sampleExt sampleConfig none sampleEnv sampleSchedule
            (Privsep.start emptyWorld)).world.calls := by
  have hsound := authorization_sound sampleExt sampleConfig_validate none sampleEnv emptyWorld rfl
  exact ⟨⟨by decide +kernel, hsound.1 sampleOps⟩, by decide +kernel, hsound.2 sampleSchedule⟩

end FwknoxAuthorization
