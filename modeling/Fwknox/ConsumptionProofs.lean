import Fwknox.CompletenessProofs

/-! # Consumption — which packets use up their nonce

    A nonce should be spent by the packet that gets its rule, and by no other: a packet
    that is refused could otherwise be delivered again by its owner in vain.

    Both modes store the nonce first and find out later.  The single process stores it
    before it looks at the message, the source and the ports; both store it before the
    firewall has answered; and a failed save takes the nonce out again but does not bring
    back what a full cache evicted for it.

    Route: `check_and_insert_answer` says when a nonce is stored, from the cache and the disk;
    `unspent_iff_smooth` is the whole argument, for any handler that stores a nonce
    and then opens a rule or not; `process_packet_settled` and `grant_tail_settled`
    say that the two modes are such handlers, and `unspent_iff` is the exact condition for
    both. -/

namespace FwknoxConsumption

open FwknoxTypes FwknoxClock FwknoxConfig FwknoxPacket FwknoxMatcher FwknoxPersist FwknoxWorld
open FwknoxReplay FwknoxPipeline FwknoxAuthorization FwknoxCompleteness LruMap
open EffectProg EffectProg.Prog

variable {X : Ext} {config : DaemonConfig} {persist_path : Option String} {env : Env}
  {p : CapturedPacket} {α γ : Type}

/-! ## What the firewall answered -/

/-- The answer to an opening effect. -/
def answer (env : Env) (w : World) {β : Type} : Eff β → List (Except FirewallError RuleHandle)
  | .openAccess rule => [env.firewall w.tick rule]
  | .systemTime | .insertFresh _ _ | .pop _ | .pruneStale _ | .snapshot
  | .writeCacheFile _ _ => []

/-- The answers of the firewall along a run. -/
def answers (env : Env) : Prog Eff α → World → List (Except FirewallError RuleHandle)
  | .ret _, _ => []
  | .op e k, w =>
      answer env w e ++ answers env (k (handler env _ e w).1) (handler env _ e w).2

/-- The run ends with an installed rule. -/
def Opened (env : Env) (prog : Prog Eff α) (w : World) : Prop :=
  ∃ handle, .ok handle ∈ answers env prog w

theorem answers_bind (prog : Prog Eff α) (f : α → Prog Eff γ) (w : World) :
    answers env (prog.bind f) w
      = answers env prog w
        ++ answers env (f (prog.exec (handler env) w).1) (prog.exec (handler env) w).2 := by
  induction prog generalizing w with
  | ret a => rfl
  | op e k ih =>
      simp only [bind_op, answers, exec_op, ih, List.append_assoc]

/-- There is an answer for every call. -/
theorem answers_length (env : Env) (prog : Prog Eff α) (w : World) :
    w.calls.length + (answers env prog w).length
      = (prog.exec (handler env) w).2.calls.length := by
  induction prog generalizing w with
  | ret a => rfl
  | op e k ih =>
      have hone : (answer env w e).length = e.opens.toList.length := by
        cases e <;> rfl
      rw [exec_op, ← ih, handler_calls, answers, List.length_append, List.length_append, hone,
        List.length_map]
      omega

/-- Storing a nonce asks the firewall nothing. -/
theorem answers_check_and_insert (nonce : Nonce) (w : World) :
    answers env (check_and_insert persist_path nonce) w = [] := by
  have hlen := answers_length env (check_and_insert persist_path nonce) w
  generalize hr : (check_and_insert persist_path nonce).exec (handler env) w = res at hlen
  obtain ⟨r, w'⟩ := res
  have hcalls : w'.calls = w.calls := (check_and_insert_cases hr).1.1
  rw [hcalls] at hlen
  exact List.eq_nil_of_length_eq_zero (by omega)

/-! ## A nonce stored, a rule opened or not -/

/-- A delivery that began with the cache `before` left no trace in it: the nonces are the
    same, and whatever runs next runs as if the cache had not been touched. -/
structure Unspent (env : Env) (before : LruCache Nonce UInt64) (w' : World) : Prop where
  nonces : ∀ n, n ∈ w'.cache.map ↔ n ∈ before.map
  later : ∀ {α : Type} (prog : Prog Eff α),
    prog.exec (handler env) w' = prog.exec (handler env) { w' with cache := before }

theorem unspent_of_cache_eq {before : LruCache Nonce UInt64} {w' : World}
    (h : w'.cache = before) : Unspent env before w' := by
  refine ⟨fun n => by rw [h], fun prog => ?_⟩
  rw [← h]

/-- A cache with the same keys has as many. -/
theorem len_eq_of_mem_iff {c c' : LruCache Nonce UInt64} (h : ∀ n, n ∈ c'.map ↔ n ∈ c.map) :
    c'.len = c.len := by
  have hperm : c'.map.keys.Perm c.map.keys :=
    (List.perm_ext_iff_of_nodup c'.map.keys_nodup c.map.keys_nodup).mpr h
  have hlen := hperm.length_eq
  simp only [AList.keys, List.keys, List.length_map] at hlen
  exact hlen

/-- What stops the save of a nonce that was stored from `w`, if anything does.  The write comes
    after the clock, the insertion and the snapshot. -/
def save_error (env : Env) (persist_path : Option String) (w : World) : Option String :=
  match persist_path with
  | none => none
  | some _ => env.persist (w.tick + 3)

/-- The moment after a save that went through, when the firewall is asked. -/
def asked_at (persist_path : Option String) (w : World) : Nat :=
  match persist_path with
  | none => w.tick + 2
  | some _ => w.tick + 4

/-- What `check_and_insert` answers, from the cache and the disk: a known nonce is a replay, a new
    one is in when the save goes through, and then the firewall is asked. -/
theorem check_and_insert_answer (env : Env) (persist_path : Option String) (nonce : Nonce)
    (w : World) :
    (nonce ∈ w.cache.map
        ∧ ((check_and_insert persist_path nonce).exec (handler env) w).1 = .ok false)
      ∨ (nonce ∉ w.cache.map ∧ save_error env persist_path w ≠ none
        ∧ ∃ e, ((check_and_insert persist_path nonce).exec (handler env) w).1 = .error e)
      ∨ (nonce ∉ w.cache.map ∧ save_error env persist_path w = none
        ∧ ((check_and_insert persist_path nonce).exec (handler env) w).1 = .ok true
        ∧ ((check_and_insert persist_path nonce).exec (handler env) w).2.tick
          = asked_at persist_path w) := by
  simp only [check_and_insert, bind_eq, perform_bind, exec_op, handler_systemTime]
  by_cases hm : nonce ∈ w.cache.map
  · rw [handler_insertFresh_of_mem env w.next _ hm]
    exact .inl ⟨hm, rfl⟩
  · rw [handler_insertFresh_of_notMem env w.next _ hm]
    right
    cases persist_path with
    | none => exact .inr ⟨hm, rfl, rfl, rfl⟩
    | some path =>
        simp only [if_true, auto_save, save_to_file, bind_eq, perform_bind, exec_op, exec_bind,
          exec_perform, handler_snapshot]
        cases hp : env.persist (w.tick + 3) with
        | none =>
            rw [handler_writeCacheFile_of_none env _ hp]
            exact .inr ⟨hm, hp, rfl, rfl⟩
        | some e =>
            rw [handler_writeCacheFile_of_some env _ hp]
            refine .inl ⟨hm, ?_, _, rfl⟩
            rw [save_error, hp]
            exact Option.some_ne_none e

/-- Nothing goes wrong with a new nonce: if the disk refuses it the cache had room for it, and if
    the disk takes it there is a rule to open and the firewall opens it. -/
structure Smooth (env : Env) (persist_path : Option String) (nonce : Nonce)
    (rule : Except String AccessRule) (w : World) : Prop where
  unsaved : nonce ∉ w.cache.map → save_error env persist_path w ≠ none →
    w.cache.len < w.cache.cap
  saved : nonce ∉ w.cache.map → save_error env persist_path w = none →
    ∃ r handle, rule = .ok r ∧ env.firewall (asked_at persist_path w) r = .ok handle

/-- A handler that stores the nonce and then opens the rule, if there is one: its cache is
    the one the nonce was stored in, and it installs iff the nonce was new and the
    firewall opens. -/
structure Settled (env : Env) (persist_path : Option String) (nonce : Nonce)
    (rule : Except String AccessRule) (w w' : World) (installed : Prop) : Prop where
  cache : w'.cache = ((check_and_insert persist_path nonce).exec (handler env) w).2.cache
  installs : installed
    ↔ ((check_and_insert persist_path nonce).exec (handler env) w).1 = .ok true
      ∧ ∃ r handle, rule = .ok r
        ∧ env.firewall ((check_and_insert persist_path nonce).exec (handler env) w).2.tick r
          = .ok handle

/-- **THE ARGUMENT**: such a handler leaves no trace without installing a rule iff nothing
    goes wrong with its nonce. -/
theorem unspent_iff_smooth {nonce : Nonce} {rule : Except String AccessRule} {w w' : World}
    {installed : Prop} (h : Settled env persist_path nonce rule w w' installed) :
    (¬installed → Unspent env w.cache w') ↔ Smooth env persist_path nonce rule w := by
  obtain ⟨hcache, hinst⟩ := h
  have hanswer := check_and_insert_answer env persist_path nonce w
  generalize hr : (check_and_insert persist_path nonce).exec (handler env) w = res
    at hcache hinst hanswer
  obtain ⟨r, w₁⟩ := res
  rcases hanswer with ⟨hin, rfl⟩ | ⟨hnew, hsave, e, rfl⟩ | ⟨hnew, hsave, rfl, htick⟩
  · -- a replay stores nothing
    have hc := (check_and_insert_known hr).2
    exact iff_of_true (fun _ => unspent_of_cache_eq (hcache.trans hc))
      ⟨fun hnew => absurd hin hnew, fun hnew => absurd hin hnew⟩
  · -- not saved: the nonce is out again, and so is what a full cache evicted for it
    have hc := (check_and_insert_failed hr).2.1
    have hnoinst : ¬installed := by
      intro hi
      cases (hinst.mp hi).1
    constructor
    · intro hun
      refine ⟨fun _ _ => ?_, fun _ hnone => absurd hnone hsave⟩
      by_contra hfull
      have hlost := LruCache.len_pop_put_of_full (env.clock w.tick).unix_secs hnew
        (Nat.le_antisymm w.cache.size_le (Nat.le_of_not_lt hfull))
      have hlen := len_eq_of_mem_iff (hun hnoinst).nonces
      rw [hcache, hc] at hlen
      omega
    · intro hsmooth _
      refine unspent_of_cache_eq ?_
      rw [hcache, hc]
      exact LruCache.pop_put_of_room _ hnew (hsmooth.unsaved hnew hsave)
  · -- stored for good: only an installed rule excuses it
    have hc := (check_and_insert_stored hr).2
    dsimp only at htick
    rw [htick] at hinst
    constructor
    · intro hun
      refine ⟨fun _ hsome => absurd hsave hsome, fun _ _ => ?_⟩
      by_contra hnot
      have hkept := hun fun hi => hnot (hinst.mp hi).2
      refine hnew ((hkept.nonces nonce).mp ?_)
      rw [hcache, hc]
      exact LruCache.mem_put_self _ _ _
    · intro hsmooth hnot
      exact absurd (hinst.mpr ⟨rfl, hsmooth.saved hnew hsave⟩) hnot

/-! ## The two modes -/

/-- A rejection installs nothing. -/
theorem not_installed_rejected {name reason : String} :
    ¬Installed (.ok (.rejected name reason)) := by
  rintro ⟨_, _, h⟩
  cases h

/-- A current packet is settled by the single process. -/
theorem process_packet_settled (persist_path : Option String) {w w' : World}
    {r : Except DaemonError ProcessResult} {name : String} {stanza : AccessStanza}
    {payload : SpaPayload} (h : Current X config p (env.clock w.tick) name stanza payload)
    (hr : (process_packet X config persist_path p).exec (handler env) w = (r, w')) :
    Settled env persist_path payload.nonce (asked_rule X config stanza p.source_ip payload)
      w.next w' (Installed r) := by
  cases process_packet_cases hr with
  -- a current packet matched, was found and is fresh: the first four cases are none
  | noMatch hm => cases h.matched.symm.trans hm
  | unreadable n e hm => cases h.matched.symm.trans hm
  | missing n pl e hm hf =>
      cases h.matched.symm.trans hm
      cases h.found.symm.trans hf
  | stale n s pl e hm hf ht =>
      cases h.matched.symm.trans hm
      cases h.fresh.symm.trans ht
  | replay n s pl _ hcur hc =>
      obtain ⟨rfl, rfl, rfl⟩ := h.unique hcur
      refine ⟨by rw [hc], ?_⟩
      rw [hc]
      refine iff_of_false ?_ (fun hi => nomatch hi.1)
      rintro ⟨_, _, hi⟩
      cases hi
  | unsaved n s pl e _ hcur hc =>
      obtain ⟨rfl, rfl, rfl⟩ := h.unique hcur
      refine ⟨by rw [hc], ?_⟩
      rw [hc]
      exact iff_of_false not_installed_rejected (fun hi => nomatch hi.1)
  | refused n s pl reason _ hcur hc href =>
      obtain ⟨rfl, rfl, rfl⟩ := h.unique hcur
      refine ⟨by rw [hc], ?_⟩
      rw [hc, href]
      refine iff_of_false not_installed_rejected ?_
      rintro ⟨_, _, _, hnone, _⟩
      cases hnone
  | granted n s pl sip pts w₁ hg hc =>
      -- only here the firewall is asked, and its answer decides
      obtain ⟨rfl, rfl, rfl⟩ := h.unique hg.current
      refine ⟨by rw [hc]; rfl, ?_⟩
      rw [hc, hg.asked_rule]
      cases hans : env.firewall w₁.tick (granted_rule config stanza payload sip pts) with
      | ok handle => exact iff_of_true ⟨name, handle, rfl⟩ ⟨rfl, _, handle, rfl, hans⟩
      | error e =>
          refine iff_of_false ?_ ?_
          · rintro ⟨_, _, hi⟩
            cases hi
          · rintro ⟨_, _, handle, hrule, hok⟩
            cases hrule
            cases hans.symm.trans hok

/-- So a granted packet is installed exactly when its nonce is new, the save goes through and the
    firewall opens its rule. -/
theorem installed_iff_of_grant (persist_path : Option String) {w w' : World}
    {r : Except DaemonError ProcessResult} {name : String} {stanza : AccessStanza}
    {payload : SpaPayload} {source_ip : IpAddr} {ports : List PortProto}
    (hg : Grant X config p (env.clock w.tick) name stanza payload source_ip ports)
    (hr : (process_packet X config persist_path p).exec (handler env) w = (r, w')) :
    Installed r
      ↔ payload.nonce ∉ w.cache.map ∧ save_error env persist_path w.next = none
        ∧ ∃ handle, env.firewall (asked_at persist_path w.next)
            (granted_rule config stanza payload source_ip ports) = .ok handle := by
  have hinst := (process_packet_settled persist_path hg.current hr).installs
  rw [hg.asked_rule] at hinst
  rcases check_and_insert_answer env persist_path payload.nonce w.next with
    ⟨hin, hans⟩ | ⟨_, hsave, e, hans⟩ | ⟨hnew, hsave, hans, htick⟩
  · rw [hinst, hans]
    exact iff_of_false (fun h => by cases h.1) (fun h => h.1 hin)
  · rw [hinst, hans]
    exact iff_of_false (fun h => by cases h.1) (fun h => hsave h.2.1)
  · rw [hinst, hans, htick]
    constructor
    · rintro ⟨_, rule, handle, hrule, hok⟩
      cases hrule
      exact ⟨hnew, hsave, handle, hok⟩
    · rintro ⟨_, _, handle, hok⟩
      exact ⟨rfl, _, handle, rfl, hok⟩

/-- Any other packet leaves the cache alone. -/
theorem process_packet_not_current {w w' : World} {r : Except DaemonError ProcessResult}
    (h : ¬∃ name stanza payload, Current X config p (env.clock w.tick) name stanza payload)
    (hr : (process_packet X config persist_path p).exec (handler env) w = (r, w')) :
    w'.cache = w.cache := by
  cases process_packet_cases hr with
  | noMatch hm => rfl
  | unreadable n e hm => rfl
  | missing n pl e hm hf => rfl
  | stale n s pl e hm hf ht => rfl
  | replay n s pl _ hcur hc => exact absurd ⟨n, s, pl, hcur⟩ h
  | unsaved n s pl e _ hcur hc => exact absurd ⟨n, s, pl, hcur⟩ h
  | refused n s pl reason _ hcur hc href => exact absurd ⟨n, s, pl, hcur⟩ h
  | granted n s pl sip pts w₁ hg hc =>
      exact absurd ⟨n, s, pl, hg.current⟩ h

/-- What the parent does with a granted request settles it. -/
theorem grant_tail_settled (persist_path : Option String) (env : Env) (w : World) (nonce : Nonce)
    (rule : AccessRule) :
    Settled env persist_path nonce (.ok rule) w
      ((grant_tail persist_path nonce rule).exec (handler env) w).2
      (Opened env (grant_tail persist_path nonce rule) w) := by
  simp only [Opened, grant_tail, bind_eq, exec_bind, answers_bind, answers_check_and_insert,
    List.nil_append]
  generalize hr : (check_and_insert persist_path nonce).exec (handler env) w = res
  obtain ⟨r, w₁⟩ := res
  have hsilent : ¬∃ handle : RuleHandle, (.ok handle : Except FirewallError RuleHandle)
      ∈ answers env (pure () : Prog Eff Unit) w₁ := by
    rintro ⟨_, hin⟩
    cases hin
  cases r with
  | error e =>
      refine ⟨by rw [hr]; rfl, ?_⟩
      rw [hr]
      refine iff_of_false hsilent ?_
      rintro ⟨hnew, _⟩
      cases hnew
  | ok fresh =>
      cases fresh with
      | false =>
          refine ⟨by rw [hr]; rfl, ?_⟩
          rw [hr]
          refine iff_of_false hsilent ?_
          rintro ⟨hnew, _⟩
          cases hnew
      | true =>
          refine ⟨by rw [hr]; rfl, ?_⟩
          rw [hr]
          show (∃ handle, .ok handle ∈ [env.firewall w₁.tick rule]) ↔ _
          constructor
          · rintro ⟨handle, hin⟩
            exact ⟨rfl, _, handle, rfl, (List.mem_singleton.mp hin).symm⟩
          · rintro ⟨_, _, handle, hrule, hok⟩
            cases hrule
            exact ⟨handle, List.mem_singleton.mpr hok.symm⟩

/-- Handling `p` in one process leaves no trace unless it ends with a rule. -/
def UnspentDirect (X : Ext) (config : DaemonConfig) (persist_path : Option String) (env : Env)
    (p : CapturedPacket) (w : World) : Prop :=
  ¬Installed ((process_packet X config persist_path p).exec (handler env) w).1 →
    Unspent env w.cache ((process_packet X config persist_path p).exec (handler env) w).2

/-- Nor does the parent, on what the worker makes of `p` in its own world `v`. -/
def UnspentSeparated (X : Ext) (config : DaemonConfig) (persist_path : Option String) (env : Env)
    (p : CapturedPacket) (v w : World) : Prop :=
  ¬Opened env (handle_crypto_msg config persist_path
      ((validate_capture_msg X config p).exec (handler env) v).1) w →
    Unspent env w.cache ((handle_crypto_msg config persist_path
      ((validate_capture_msg X config p).exec (handler env) v).1).exec (handler env) w).2

/-- **WHICH PACKETS USE UP THEIR NONCE**: for every configuration, cache, packet and
    environment.  In one process a delivery that installs nothing leaves no trace iff,
    should the packet match a stanza and be fresh and its nonce be new, the disk, the policy and
    the firewall all agree, or the disk refuses and the cache has room.  With separate processes
    the policy has been checked by then; disk and firewall have not. -/
theorem unspent_iff (X : Ext) (config : DaemonConfig) (persist_path : Option String) (env : Env)
    (p : CapturedPacket) (v w : World) :
    (UnspentDirect X config persist_path env p w
        ↔ ∀ name stanza payload, Current X config p (env.clock w.tick) name stanza payload →
            Smooth env persist_path payload.nonce
              (asked_rule X config stanza p.source_ip payload) w.next)
      ∧ (UnspentSeparated X config persist_path env p v w
        ↔ ∀ name stanza payload source_ip ports,
            Grant X config p (env.clock v.tick) name stanza payload source_ip ports →
              Smooth env persist_path payload.nonce
                (.ok (granted_rule config stanza payload source_ip ports)) w) := by
  constructor
  · by_cases hcur : ∃ name stanza payload,
        Current X config p (env.clock w.tick) name stanza payload
    · obtain ⟨name, stanza, payload, hcur⟩ := hcur
      have hiff := unspent_iff_smooth
        (process_packet_settled persist_path hcur (Prod.mk.eta).symm)
      constructor
      · intro hun n s pl hcur'
        obtain ⟨rfl, rfl, rfl⟩ := hcur.unique hcur'
        exact hiff.mp hun
      · intro hall
        exact hiff.mpr (hall name stanza payload hcur)
    · -- a packet that is not current does not reach the replay cache
      refine iff_of_true (fun _ => ?_) (fun n s pl h => absurd ⟨n, s, pl, h⟩ hcur)
      exact unspent_of_cache_eq (process_packet_not_current hcur (Prod.mk.eta).symm)
  · by_cases hgrant : ∃ name stanza payload source_ip ports,
        Grant X config p (env.clock v.tick) name stanza payload source_ip ports
    · obtain ⟨name, stanza, payload, source_ip, ports, hg⟩ := hgrant
      have hiff := unspent_iff_smooth (grant_tail_settled persist_path env w payload.nonce
        (granted_rule config stanza payload source_ip ports))
      simp only [UnspentSeparated, validate_capture_msg_of_grant hg,
        handle_crypto_msg_eq_tail persist_path hg]
      constructor
      · intro hun n s pl sip pts hg'
        obtain ⟨rfl, rfl, rfl⟩ := hg.current.unique hg'.current
        cases hg.message.symm.trans hg'.message
        exact hiff.mp hun
      · intro hall
        exact hiff.mpr (hall name stanza payload source_ip ports hg)
    · -- the worker asks for nothing, and the parent leaves its cache
      obtain ⟨msg, v', hval, hmsg, _⟩ := validate_capture_msg_of_not_grant hgrant
      refine iff_of_true (fun _ => ?_)
        (fun n s pl sip pts h => absurd ⟨n, s, pl, sip, pts, h⟩ hgrant)
      rw [hval, handle_crypto_msg_of_not_valid hmsg]
      exact unspent_of_cache_eq rfl

/-- Another host. -/
abbrev relayIp : Ipv4Addr := #v[198, 51, 100, 9]

/-- The sample packet, seen on its way and sent again from another host. -/
def relayedPacket : CapturedPacket := ⟨.v4 relayIp, sampleRow.wire⟩

/-- The sample environment with a firewall that fails. -/
def closedEnv : Env := { sampleEnv with firewall := fun _ _ => .error (.backend "not permitted") }

/-- The nonce of the sample packet is in the cache now, and was not before. -/
theorem not_unspent_of_stored {w' : World} (h : sampleRow.payload.nonce ∈ w'.cache.map) :
    ¬Unspent env emptyWorld.cache w' :=
  fun hun => AList.notMem_empty _ ((hun.nonces _).mp h)

/-- A relayed copy is refused in one process, and the owner's own delivery is then taken
    for a replay; with separate processes a failure of the firewall costs the nonce. -/
theorem refused_packets_spend_nonces :
    sampleConfig.validate = .ok ()
      ∧ ((process_packet sampleExt sampleConfig none relayedPacket).exec (handler sampleEnv)
          emptyWorld).1
        = .ok (.rejected "ssh" "source mismatch: payload says 192.0.2.7, packet from 198.51.100.9")
      ∧ ((process_packet sampleExt sampleConfig none samplePacket).exec (handler sampleEnv)
          ((process_packet sampleExt sampleConfig none relayedPacket).exec (handler sampleEnv)
            emptyWorld).2).1 = .ok (.replay "ssh")
      ∧ ¬UnspentDirect sampleExt sampleConfig none sampleEnv relayedPacket emptyWorld
      ∧ answers closedEnv (handle_crypto_msg sampleConfig none
          ((validate_capture_msg sampleExt sampleConfig samplePacket).exec (handler closedEnv)
            emptyWorld).1) emptyWorld = [.error (.backend "not permitted")]
      ∧ ¬UnspentSeparated sampleExt sampleConfig none closedEnv samplePacket emptyWorld
          emptyWorld := by
  have hrejected : ((process_packet sampleExt sampleConfig none relayedPacket).exec
      (handler sampleEnv) emptyWorld).1 = .ok (.rejected "ssh"
        "source mismatch: payload says 192.0.2.7, packet from 198.51.100.9") := by decide +kernel
  have hclosed : answers closedEnv (handle_crypto_msg sampleConfig none
      ((validate_capture_msg sampleExt sampleConfig samplePacket).exec (handler closedEnv)
        emptyWorld).1) emptyWorld = [.error (.backend "not permitted")] := by decide +kernel
  refine ⟨sampleConfig_validate, hrejected, by decide +kernel, ?_, hclosed, ?_⟩
  · intro hun
    refine not_unspent_of_stored (by decide +kernel) (hun ?_)
    rw [hrejected]
    exact not_installed_rejected
  · intro hun
    refine not_unspent_of_stored (by decide +kernel) (hun ?_)
    rintro ⟨handle, hin⟩
    rw [hclosed] at hin
    cases List.mem_singleton.mp hin

end FwknoxConsumption
