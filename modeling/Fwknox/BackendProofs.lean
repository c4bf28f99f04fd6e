import Fwknox.AuthorizationProofs
import Fwknox.RemovalProofs

/-! # Firewall backends — the daemon's calls over a backend with a state

    `backend.rs` as an interface, with the nftables backend as an implementation.  So far the
    firewall's answers came from outside; here they come from a backend that keeps a state.

    * `exec_backend` : what the daemon does with a packet is the same over every backend,
      and leaves the backend as the calls leave it, one after the other.  The reason is
      that a call of the firewall is the last effect of either packet path.
    * `Confined` : the allow set of the nftables backend holds nothing but what the calls
      of this life opened, from a flushed start on (`confined_open_all`). -/

namespace FwknoxBackend

open FwknoxTypes FwknoxClock FwknoxConfig FwknoxPacket FwknoxMatcher FwknoxPersist FwknoxWorld
open FwknoxReplay FwknoxPipeline FwknoxAuthorization FwknoxNft FwknoxRemoval
open Netfilter LruMap EffectProg EffectProg.Prog

/-! ## The trait -/

/-- `trait FirewallBackend`, over the state of an implementation. -/
structure FirewallBackend (σ : Type) where
  init : σ → Except FirewallError Unit × σ
  open_access : AccessRule → σ → Except FirewallError RuleHandle × σ
  remove_rule : RuleHandle → σ → Except FirewallError Unit × σ
  flush : σ → Except FirewallError Unit × σ

/-! ## nftables -/

/-- The kernel drops an element whose timeout ran out. -/
def lapse (b : NftablesBackend) (key : List (Value Ipv4Addr Protocol)) : NftablesBackend :=
  { b with kernel := expire b.kernel TABLE_NAME SET_NAME key }

/-- The nftables backend with what the outside does to it: the applier each operation
    meets, and the elements whose timeout runs out before it. -/
structure NftDriver where
  backend : NftablesBackend
  outside : Nat → Applier
  lapsed : Nat → List (List (Value Ipv4Addr Protocol))
  operations : Nat

namespace NftDriver

/-- The backend at the next operation. -/
def now (d : NftDriver) : NftablesBackend := (d.lapsed d.operations).foldl lapse d.backend

/-- The applier the next operation meets. -/
def applier (d : NftDriver) : Applier := d.outside d.operations

/-- One operation later. -/
def after (d : NftDriver) (b : NftablesBackend) : NftDriver :=
  { d with backend := b, operations := d.operations + 1 }

end NftDriver

/-- The backend the daemon runs with. -/
def nft (R : Reader Ipv4Addr Protocol) : FirewallBackend NftDriver where
  init d := ((FwknoxNft.init R d.applier d.now).1, d.after (FwknoxNft.init R d.applier d.now).2)
  open_access rule d :=
    ((FwknoxNft.open_access R d.applier rule d.now).1,
      d.after (FwknoxNft.open_access R d.applier rule d.now).2)
  remove_rule handle d :=
    ((FwknoxNft.remove_rule R d.applier handle d.now).1,
      d.after (FwknoxNft.remove_rule R d.applier handle d.now).2)
  flush d := (.ok (), d.after (FwknoxNft.flush R d.applier d.now))

/-! ## The daemon over a backend -/

section Handler

variable {σ : Type} (B : FirewallBackend σ) {env : Env}

/-- The daemon's effects; the firewall's part goes to the backend. -/
def backend_handler (env : Env) : Handler Eff (World × σ)
  | _, .openAccess rule, ws =>
      ((B.open_access rule ws.2).1,
        ({ ws.1.next with calls := ws.1.calls ++ [(ws.1.current, rule)] },
          (B.open_access rule ws.2).2))
  | _, e, ws => ((handler env _ e ws.1).1, ((handler env _ e ws.1).2, ws.2))

/-- The backend after a list of openings. -/
def open_all (rules : List AccessRule) (s : σ) : σ :=
  rules.foldl (fun s rule => (B.open_access rule s).2) s

/-- Rules can be opened in two goes. -/
theorem open_all_append (rules rules' : List AccessRule) (s : σ) :
    open_all B (rules ++ rules') s = open_all B rules' (open_all B rules s) :=
  List.foldl_append

/-- The effect calls the firewall. -/
def Opening {β : Type} (e : Eff β) : Prop := e.opens ≠ none

/-- Other effects pass the backend by. -/
theorem backend_handler_of_not_opening {β : Type} {e : Eff β} (he : ¬Opening e) (w : World)
    (s : σ) :
    backend_handler B env β e (w, s) = ((handler env β e w).1, ((handler env β e w).2, s)) := by
  cases e with
  | openAccess rule => exact absurd (Option.some_ne_none rule) he
  | _ => rfl

/-- The backend does not show in the world. -/
theorem backend_handler_world {β : Type} (e : Eff β) (w : World) (s : σ) :
    (backend_handler B env β e (w, s)).2.1 = (handler env β e w).2 := by
  cases e <;> rfl

/-- An opening is handed to the backend. -/
theorem backend_handler_of_opening {β : Type} {e : Eff β} {rule : AccessRule}
    (he : e.opens = some rule) (w : World) (s : σ) :
    (backend_handler B env β e (w, s)).2.2 = (B.open_access rule s).2 := by
  cases e with
  | openAccess r =>
      cases he
      rfl
  | _ => cases he

/-- Programs that open nothing avoid the firewall. -/
theorem avoids_of_opensAtMost {R : AccessRule → Prop} {α : Type} {prog : Prog Eff α}
    (h : OpensAtMost R 0 prog) : prog.Avoids Opening := by
  induction prog with
  | ret a => trivial
  | op e k ih =>
      cases he : e.opens with
      | none =>
          refine ⟨fun ho => ho he, fun b => ih b ?_⟩
          exact (opensAtMost_op_none he).mp h b
      | some rule =>
          obtain ⟨m, hm, _⟩ := (opensAtMost_op_some he).mp h
          cases hm

/-- Opening the rule is the last thing `install` does. -/
theorem endsWith_install (X : Ext) (config : DaemonConfig) (p : CapturedPacket) (name : String)
    (stanza : AccessStanza) (payload : SpaPayload) :
    (install X config p name stanza payload).EndsWith Opening := by
  cases hask : asked_rule X config stanza p.source_ip payload with
  | error reason =>
      rw [install_of_refused hask]
      trivial
  | ok rule =>
      obtain ⟨sip, pts, hmsg, hpol, -⟩ := asked_rule_eq_ok.mp hask
      simp only [install, hmsg, hpol, bind_eq, perform_bind]
      refine ⟨?_, fun _ r => ?_⟩
      · rintro _ (e | handle)
        · exact ⟨_, rfl⟩
        · exact ⟨_, rfl⟩
      · cases r <;> trivial

/-- The replay check opens nothing, so what ends with an opening after it does so with it. -/
theorem endsWith_check_and_insert {α : Type} (persist_path : Option String) (nonce : Nonce)
    {k : Except ReplayError Bool → Prog Eff α} (hunsaved : ∀ e, (k (.error e)).EndsWith Opening)
    (hknown : (k (.ok false)).EndsWith Opening) (hnew : (k (.ok true)).EndsWith Opening) :
    ((check_and_insert persist_path nonce).bind k).EndsWith Opening := by
  refine (avoids_of_opensAtMost (R := fun _ => False)
    (opensAtMost_check_and_insert persist_path nonce)).endsWith_bind ?_
  rintro (e | fresh)
  · exact hunsaved e
  · cases fresh with
    | false => exact hknown
    | true => exact hnew

/-- **THE FIREWALL COMES LAST** in the single process. -/
theorem endsWith_process_packet (X : Ext) (config : DaemonConfig) (persist_path : Option String)
    (p : CapturedPacket) : (process_packet X config persist_path p).EndsWith Opening := by
  simp only [process_packet]
  cases match_packet X.crypto p.data config.access with
  | noMatch => trivial
  | rejected name reason => trivial
  | matched name payload =>
      dsimp only
      cases find_stanza config name with
      | error e => trivial
      | ok stanza =>
          refine ⟨fun ho => absurd rfl ho, fun _ now => ?_⟩
          simp only [Prog.bind]
          cases validate_against_clock payload (now_unix now)
              (max_age_secs config.daemon.max_spa_packet_age) DEFAULT_MAX_SKEW_SECS with
          | error e => trivial
          | ok u =>
              exact endsWith_check_and_insert persist_path payload.nonce (fun _ => trivial) trivial
                (endsWith_install X config p name stanza payload)

/-- **THE FIREWALL COMES LAST** in the parent of the separated mode, whatever it is sent. -/
theorem endsWith_handle_crypto_msg (config : DaemonConfig) (persist_path : Option String)
    (msg : CryptoMsg) : (handle_crypto_msg config persist_path msg).EndsWith Opening := by
  cases msg with
  | noMatch src => trivial
  | rejected src reason => trivial
  | validRequest name src payload =>
      refine endsWith_check_and_insert persist_path payload.nonce (fun _ => trivial) trivial ?_
      show Prog.EndsWith Opening (parent_install config name payload)
      simp only [parent_install]
      cases payload.message with
      | access source_ip ports =>
          dsimp only
          cases config.access.find? (fun s => s.name == name) with
          | none => trivial
          | some stanza => exact ⟨fun _ _ => ⟨(), rfl⟩, fun _ _ => trivial⟩
      | _ => trivial

/-- A program that keeps the firewall for the end does to the world what it does over any
    other backend, and to the backend what its calls do. -/
theorem exec_backend (env : Env) {α : Type} {prog : Prog Eff α} (hp : prog.EndsWith Opening)
    (w : World) (s : σ) :
    ∃ new, (prog.exec (handler env) w).2.calls = w.calls ++ new
      ∧ (prog.exec (backend_handler B env) (w, s)).2
          = ((prog.exec (handler env) w).2, open_all B (new.map Prod.snd) s) := by
  -- the relation kept by every effect: same world, and the backend follows the calls
  have hrel := exec_related (backend_handler B env) (handler env)
    (fun ws v => ws.1 = v
      ∧ ∃ new, v.calls = w.calls ++ new ∧ ws.2 = open_all B (new.map Prod.snd) s)
    ?_ ?_ hp (w := (w, s)) (v := w) ⟨rfl, [], (List.append_nil _).symm, rfl⟩
  · obtain ⟨hw, new, hnew, hs⟩ := hrel
    exact ⟨new, hnew, Prod.ext hw hs⟩
  · rintro β e ⟨w₁, s₁⟩ v ⟨rfl, new, hnew, hs⟩ he
    rw [backend_handler_of_not_opening B he]
    refine ⟨rfl, rfl, new, ?_, hs⟩
    rw [handler_calls, not_not.mp he]
    exact (List.append_nil _).trans hnew
  · rintro β e ⟨w₁, s₁⟩ v ⟨rfl, new, hnew, hs⟩ he
    obtain ⟨rule, hrule⟩ := Option.ne_none_iff_exists'.mp he
    refine ⟨backend_handler_world B e w₁ s₁, new ++ [(w₁.current, rule)], ?_, ?_⟩
    · rw [handler_calls, hrule, hnew, List.append_assoc]
      rfl
    · rw [backend_handler_of_opening B hrule, List.map_append, open_all_append, ← hs]
      rfl

/-- A program without such a call leaves the backend alone. -/
theorem exec_backend_avoids (env : Env) {α : Type} {prog : Prog Eff α}
    (hp : prog.Avoids Opening) (w : World) (s : σ) :
    prog.exec (backend_handler B env) (w, s)
      = ((prog.exec (handler env) w).1, ((prog.exec (handler env) w).2, s)) := by
  induction prog generalizing w with
  | ret a => rfl
  | op e k ih =>
      rw [exec_op, backend_handler_of_not_opening B hp.1]
      exact ih _ (hp.2 _) _

/-- A prune never opens. -/
theorem avoids_prune (persist_path : Option String) (max_age : Duration) :
    (prune_older_than persist_path max_age).Avoids Opening := by
  refine ⟨fun ho => absurd rfl ho, fun now => ⟨fun ho => absurd rfl ho, fun pruned => ?_⟩⟩
  show Prog.Avoids Opening (if pruned > 0 then _ else _)
  by_cases hp : pruned > 0
  · rw [if_pos hp]
    refine (avoids_of_opensAtMost (R := fun _ => False)
      (opensAtMost_auto_save persist_path)).bind ?_
    rintro (e | u)
    · trivial
    · trivial
  · rw [if_neg hp]
    trivial

end Handler

/-! ## One life of the allow set -/

section Life

variable {R : Reader Ipv4Addr Protocol}

/-- A packet is allowed when its key is in the set. -/
theorem allows_iff {b : NftablesBackend} {p : Packet Ipv4Addr Protocol} :
    b.allows p = true
      ↔ Holds b.kernel TABLE_NAME SET_NAME (element_key p.saddr ⟨p.l4proto, p.dport⟩) := by
  simp only [NftablesBackend.allows, Holds, setState, element_key]
  cases b.kernel.lookup TABLE_NAME with
  | none => simp
  | some T => cases hS : T.sets.lookup SET_NAME <;> simp [hS]

/-- The start declares, and puts nothing into the set. -/
theorem init_batch_declares : ∀ c ∈ init_batch, c.Declares := by
  intro c hc
  simp only [init_batch, List.mem_cons, List.not_mem_nil, or_false] at hc
  rcases hc with rfl | rfl | rfl | rfl <;> trivial

/-- **STARTING OPENS NOTHING AND CLOSES NOTHING**: whatever table is there, `init` leaves
    the allow set as it finds it. -/
theorem allows_init (a : Applier) (b : NftablesBackend) (p : Packet Ipv4Addr Protocol) :
    (FwknoxNft.init R a b).2.allows p = b.allows p := by
  rw [Bool.eq_iff_iff, allows_iff, allows_iff]
  simp only [FwknoxNft.init]
  cases ha : a.apply R init_batch b.kernel with
  | error e => rfl
  | ok kernel => exact holds_apply init_batch_declares (applier_eq_ok_iff.mp ha).2 _ _ _

/-- After a flush there is no table, when nft runs: a batch is refused only when there
    was none to delete. -/
theorem flush_lookup {a : Applier} (ha : a.fails = none) (b : NftablesBackend) :
    (FwknoxNft.flush R a b).kernel.lookup TABLE_NAME = none := by
  simp only [FwknoxNft.flush]
  by_cases hin : TABLE_NAME ∈ b.kernel
  · have hok : a.apply R [.deleteTable TABLE_NAME] b.kernel = .ok (b.kernel.erase TABLE_NAME) := by
      refine applier_eq_ok_iff.mpr ⟨ha, ?_⟩
      simp only [Netfilter.apply, applyOne, if_pos hin]
    rw [hok]
    exact AList.lookup_erase _ _
  · have hno : AList.lookup TABLE_NAME b.kernel = none := AList.lookup_eq_none.mpr hin
    cases hk : a.apply R [.deleteTable TABLE_NAME] b.kernel with
    | ok kernel =>
        have happ := (applier_eq_ok_iff.mp hk).2
        simp only [Netfilter.apply, applyOne, if_neg hin] at happ
        cases happ
    | error e => exact hno

/-- Without a table nothing is declared wrongly. -/
theorem declared_of_lookup {b : NftablesBackend} (h : b.kernel.lookup TABLE_NAME = none)
    (hinit : b.initialized = false) : Declared b := by
  refine ⟨?_, fun hi => absurd hi (hinit ▸ Bool.false_ne_true)⟩
  intro ty hty
  rw [setType, setState, h] at hty
  cases hty

/-- **FLUSHING CLOSES EVERYTHING** when nft runs, whatever table was there. -/
theorem allows_flush {a : Applier} (ha : a.fails = none) (b : NftablesBackend)
    (p : Packet Ipv4Addr Protocol) : (FwknoxNft.flush R a b).allows p = false := by
  rw [NftablesBackend.allows, flush_lookup ha]

/-- A flush takes the flag down. -/
theorem flush_initialized (a : Applier) (b : NftablesBackend) :
    (FwknoxNft.flush R a b).initialized = false := by
  simp only [FwknoxNft.flush]
  cases a.apply R [.deleteTable TABLE_NAME] b.kernel <;> rfl

/-- A rule of the list names the packet. -/
def Named (rules : List AccessRule) (p : Packet Ipv4Addr Protocol) : Prop :=
  ∃ rule ∈ rules, rule.source_ip = .v4 p.saddr ∧ (⟨p.l4proto, p.dport⟩ : PortProto) ∈ rule.ports

/-- The allow set has its type and holds only what the rules name. -/
structure Confined (rules : List AccessRule) (b : NftablesBackend) : Prop where
  declared : Declared b
  named : ∀ p, b.allows p = true → Named rules p

/-- Running out allows nothing new. -/
theorem Confined.lapse {rules : List AccessRule} {b : NftablesBackend} (h : Confined rules b)
    (key : List (Value Ipv4Addr Protocol)) : Confined rules (lapse b key) := by
  refine ⟨declared_step (R := textReader) (.expire key) h.declared, ?_⟩
  intro p hp
  exact h.named p (allows_iff.mpr (allows_iff.mp hp).of_expire)

/-- A flush that nft does not run leaves the kernel alone. -/
theorem Confined.flush {rules : List AccessRule} {b : NftablesBackend} (h : Confined rules b)
    (a : Applier) : Confined rules (FwknoxNft.flush R a b) := by
  refine ⟨declared_step (.flush a) h.declared, ?_⟩
  intro p hp
  cases ha : a.fails with
  | none => exact absurd (allows_flush ha b p) (Bool.not_eq_false _ ▸ hp)
  | some e =>
      simp only [FwknoxNft.flush] at hp
      cases hk : a.apply R [.deleteTable TABLE_NAME] b.kernel with
      | ok kernel => exact absurd (applier_eq_ok_iff.mp hk).1 (ha ▸ Option.some_ne_none e)
      | error e =>
          rw [hk] at hp
          exact h.named p hp

/-- What every running out keeps still holds at the next operation. -/
theorem now_induction {P : NftablesBackend → Prop} (hlapse : ∀ b key, P b → P (lapse b key))
    {d : NftDriver} (h : P d.backend) : P d.now := by
  rw [NftDriver.now]
  generalize d.lapsed d.operations = keys
  generalize d.backend = b at h
  induction keys generalizing b with
  | nil => exact h
  | cons key keys ih => exact ih _ (hlapse b key h)

/-- So at the next operation the rules still cover what is allowed. -/
theorem Confined.now {rules : List AccessRule} {d : NftDriver} (h : Confined rules d.backend) :
    Confined rules d.now :=
  now_induction (fun _ key hb => hb.lapse key) h

/-- A failed opening leaves the backend alone. -/
theorem open_access_failed {a : Applier} {rule : AccessRule} {b b' : NftablesBackend}
    {e : FirewallError} (h : FwknoxNft.open_access R a rule b = (.error e, b')) : b' = b := by
  simp only [FwknoxNft.open_access] at h
  split at h
  · cases h
    rfl
  · split at h
    · cases h
      rfl
    · split at h
      · cases h
        rfl
      · cases h

/-- One that succeeds found the backend ready. -/
theorem ready_of_opened {a : Applier} {rule : AccessRule} {b b' : NftablesBackend}
    {handle : RuleHandle} (hb : Declared b)
    (h : FwknoxNft.open_access R a rule b = (.ok handle, b')) : ∃ S, Ready b S := by
  have hinit : b.initialized = true := by
    by_contra hnot
    simp only [FwknoxNft.open_access, assert_initialized, if_neg hnot] at h
    cases h
  obtain ⟨S, hS, hty⟩ := Option.map_eq_some_iff.mp (hb.present hinit)
  exact ⟨S, hinit, hS, hty⟩

/-- **AN OPENING ADDS WHAT ITS RULE NAMES**, and nothing else. -/
theorem Confined.open_access (L : ReaderLaws R) {rules : List AccessRule} {b : NftablesBackend}
    (h : Confined rules b) (a : Applier) (rule : AccessRule) :
    Confined (rules ++ [rule]) (FwknoxNft.open_access R a rule b).2 := by
  have hmore : ∀ p, b.allows p = true → Named (rules ++ [rule]) p := by
    intro p hp
    obtain ⟨r, hr, hip⟩ := h.named p hp
    exact ⟨r, List.mem_append_left _ hr, hip⟩
  refine ⟨declared_step (.openAccess a rule) h.declared, ?_⟩
  intro p hp
  generalize ho : FwknoxNft.open_access R a rule b = res at hp
  obtain ⟨answer, b'⟩ := res
  cases answer with
  | error e => exact hmore p (open_access_failed ho ▸ hp)
  | ok handle =>
      obtain ⟨ipv4, hip, _⟩ := open_access_handle ho
      obtain ⟨S, hS⟩ := ready_of_opened h.declared ho
      obtain ⟨S', hS', hkey⟩ := allows_iff.mp hp
      rw [(open_access_spec L hip hS ho).set] at hS'
      cases hS'
      rcases SetState.has_addKeys.mp hkey with hold | hnew
      · exact hmore p (allows_iff.mpr ⟨S, hS.set, hold⟩)
      · obtain ⟨pp, hpp, heq⟩ := List.mem_map.mp hnew
        simp only [element_key, List.cons.injEq, Value.addr.injEq, Value.proto.injEq,
          Value.port.injEq, and_true] at heq
        obtain ⟨rfl, hproto, hport⟩ := heq
        refine ⟨rule, List.mem_append_right _ (List.mem_singleton_self _), hip, ?_⟩
        rw [← hproto, ← hport]
        exact hpp

/-- Opened rules cover what is allowed, one after another. -/
theorem confined_open_all (L : ReaderLaws R) (more : List AccessRule) {rules : List AccessRule}
    {d : NftDriver} (h : Confined rules d.backend) :
    Confined (rules ++ more) (open_all (nft R) more d).backend := by
  induction more generalizing rules d with
  | nil =>
      rw [List.append_nil]
      exact h
  | cons rule more ih =>
      have hstep := ih (d := ((nft R).open_access rule d).2) (h.now.open_access L d.applier rule)
      rw [List.append_assoc] at hstep
      exact hstep

end Life

end FwknoxBackend
