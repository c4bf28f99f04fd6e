import Fwknox.AuthorizationProofs

/-! # Completeness — which permitted requests are granted

    A stanza permits a request when the packet parses under its key and passes every
    check the documentation lists.  The matcher does not look for such a stanza: it
    stops at the first one whose key verifies the tag, and the policy of that stanza
    alone decides.  Several stanzas may share a key, since `validate` compares names
    only, so a permitting stanza can stand behind one that verifies and refuses.

    `granted_iff_first_permits` is the exact condition: a request that some stanza
    permits is granted iff the first verifying stanza permits it too. -/

namespace FwknoxCompleteness

open FwknoxTypes FwknoxClock FwknoxConfig FwknoxPacket FwknoxMatcher FwknoxPersist FwknoxWorld
open FwknoxReplay FwknoxPipeline FwknoxAuthorization LruMap EffectProg EffectProg.Prog
open CheckedSlice

/-! ## What a stanza permits -/

/-- Stanza `s` has nothing against the packet `p` at the reading `t`. -/
structure Permitted (X : Ext) (config : DaemonConfig) (p : CapturedPacket) (t : SystemTime)
    (cache : LruCache Nonce UInt64) (s : AccessStanza) (payload : SpaPayload)
    (source_ip : IpAddr) (ports : List PortProto) : Prop where
  parses : parse_packet X.crypto p.data s.master_key.toList = .ok payload
  message : payload.message = .access source_ip ports
  fresh : Fresh config.daemon.max_spa_packet_age payload t
  unused : payload.nonce ∉ cache.map
  source_listed : ∃ spec ∈ s.source, spec.matches X.net_contains p.source_ip = true
  source_match : source_ip = p.source_ip ∨ s.require_source_match = false
  ports_open : ∀ pp ∈ ports, pp ∈ s.open_ports

def Permits (X : Ext) (config : DaemonConfig) (p : CapturedPacket) (t : SystemTime)
    (cache : LruCache Nonce UInt64) (s : AccessStanza) : Prop :=
  ∃ payload source_ip ports, Permitted X config p t cache s payload source_ip ports

/-- Neither a write nor the firewall fails from `w` to `w'`. -/
structure Undisturbed (env : Env) (w w' : World) : Prop where
  persist : ∀ n, w.tick ≤ n → n < w'.tick → env.persist n = none
  firewall : ∀ n rule, w.tick ≤ n → n < w'.tick → ∃ handle, env.firewall n rule = .ok handle

/-- The packet got its rule. -/
def Installed (r : Except DaemonError ProcessResult) : Prop :=
  ∃ name handle, r = .ok (.installed name handle)

variable {X : Ext} {config : DaemonConfig} {persist_path : Option String} {env : Env}
  {p : CapturedPacket} {t : SystemTime} {s : AccessStanza} {payload : SpaPayload}
  {source_ip : IpAddr} {ports : List PortProto}

theorem policy_iff {captured_ip : IpAddr} :
    check_policy X s captured_ip source_ip ports = .ok ()
      ↔ (∃ spec ∈ s.source, spec.matches X.net_contains captured_ip = true)
        ∧ (source_ip = captured_ip ∨ s.require_source_match = false)
        ∧ ∀ pp ∈ ports, pp ∈ s.open_ports := by
  have hsrc : (s.require_source_match = true → source_ip = captured_ip)
      ↔ source_ip = captured_ip ∨ s.require_source_match = false := by
    rw [← Bool.not_eq_true]
    exact Decidable.imp_iff_or_not
  rw [check_policy_eq_ok_iff, hsrc]
  exact and_left_comm

/-- Where names are distinct, a configured stanza is found under its own. -/
theorem find_stanza_of_mem (hnd : (config.access.map (·.name)).Nodup) (hs : s ∈ config.access) :
    find_stanza config s.name = .ok s :=
  find_stanza_eq_ok.mpr ((find_by_name_iff hnd).mpr ⟨hs, rfl⟩)

/-! ## The first verifying stanza decides -/

/-- If the first verifying stanza permits the request, every check before the replay
    check speaks for it. -/
theorem Permitted.grant (hv : config.validate = .ok ()) {cache : LruCache Nonce UInt64}
    (hfirst : first_verifying X.crypto p.data config.access = some s)
    (h : Permitted X config p t cache s payload source_ip ports) :
    Grant X config p t s.name s payload source_ip ports := by
  have hver : FirstVerified X.crypto p.data config.access s payload :=
    firstVerified_iff.mpr ⟨hfirst, h.parses⟩
  exact ⟨match_packet_of_firstVerified hver,
    find_stanza_of_mem (validate_eq_ok_iff.mp hv).names hver.mem, h.fresh, h.message,
    policy_iff.mpr ⟨h.source_listed, h.source_match, h.ports_open⟩⟩

/-- Conversely, a grant is a permission of the first verifying stanza. -/
theorem permitted_of_grant (hv : config.validate = .ok ()) {cache : LruCache Nonce UInt64}
    {name : String} (hg : Grant X config p t name s payload source_ip ports)
    (hunused : payload.nonce ∉ cache.map) :
    first_verifying X.crypto p.data config.access = some s
      ∧ Permitted X config p t cache s payload source_ip ports := by
  obtain ⟨s', rfl, hver⟩ := match_packet_matched hg.matched
  obtain rfl := find_stanza_of_nodup (validate_eq_ok_iff.mp hv).names hver.mem hg.found
  obtain ⟨hfirst, hpar⟩ := firstVerified_iff.mp hver
  obtain ⟨hlist, hmatch, hports⟩ := policy_iff.mp hg.policy
  exact ⟨hfirst, hpar, hg.message, hg.fresh, hunused, hlist, hmatch, hports⟩

/-- A granted packet with an unused nonce is installed unless something fails. -/
theorem installed_of_grant {name : String} {w w' : World} {r : Except DaemonError ProcessResult}
    (hr : (process_packet X config persist_path p).exec (handler env) w = (r, w'))
    (hcalm : Undisturbed env w w')
    (hg : Grant X config p (env.clock w.tick) name s payload source_ip ports)
    (hunused : payload.nonce ∉ w.cache.map) : Installed r := by
  cases process_packet_cases hr with
  | noMatch h => cases hg.matched.symm.trans h
  | unreadable n reason h => cases hg.matched.symm.trans h
  | missing n pl e h hf =>
      cases hg.matched.symm.trans h
      cases hg.found.symm.trans hf
  | stale n s' pl e h hf ht =>
      cases hg.matched.symm.trans h
      cases hg.fresh.symm.trans ht
  | replay n s' pl _ h hc =>
      obtain ⟨rfl, rfl, rfl⟩ := hg.current.unique h
      exact absurd (check_and_insert_known hc).1 hunused
  | unsaved n s' pl e _ h hc =>
      obtain ⟨_, _, k, hle, hlt, hfail⟩ := check_and_insert_failed hc
      exact absurd (hcalm.persist k (Nat.le_of_succ_le hle) hlt) hfail
  | refused n s' pl reason _ h hc href =>
      obtain ⟨rfl, rfl, rfl⟩ := hg.current.unique h
      cases hg.asked_rule.symm.trans href
  | granted n s' pl sip pts w₁ h hc =>
      have htick : w.tick ≤ w₁.tick :=
        Nat.le_of_succ_le (Nat.le_of_lt (check_and_insert_cases hc).1.2.2)
      obtain ⟨handle, hok⟩ := hcalm.firewall w₁.tick (granted_rule config s' pl sip pts) htick
        (Nat.lt_succ_self _)
      exact ⟨n, handle, congrArg (opened n) hok⟩

/-- Only a granted packet with an unused nonce is installed. -/
theorem grant_of_installed {w w' : World} {r : Except DaemonError ProcessResult}
    (hr : (process_packet X config persist_path p).exec (handler env) w = (r, w'))
    (hi : Installed r) :
    ∃ name stanza payload source_ip ports,
      Grant X config p (env.clock w.tick) name stanza payload source_ip ports
        ∧ payload.nonce ∉ w.cache.map := by
  obtain ⟨name, handle, rfl⟩ := hi
  generalize hres : Except.ok (ProcessResult.installed name handle) = res at hr
  cases process_packet_cases hr with
  | noMatch h => exact nomatch hres
  | unreadable n reason h => exact nomatch hres
  | missing n pl e h hf => exact nomatch hres
  | stale n s' pl e h hf ht => exact nomatch hres
  | replay n s' pl _ h hc => exact nomatch hres
  | unsaved n s' pl e _ h hc => exact nomatch hres
  | refused n s' pl reason _ h hc href => exact nomatch hres
  | granted n s' pl sip pts w₁ h hc =>
      exact ⟨n, s', pl, sip, pts, h, (check_and_insert_stored hc).1⟩

/-- **COMPLETENESS, EXACTLY**: for an accepted configuration, a request that some
    stanza permits is granted, as long as no write and no firewall call fails, iff the
    first stanza whose key verifies it permits it. -/
theorem granted_iff_first_permits (X : Ext) {config : DaemonConfig}
    (hv : config.validate = .ok ()) (persist_path : Option String) (env : Env)
    (p : CapturedPacket) {w w' : World} {r : Except DaemonError ProcessResult}
    (hr : (process_packet X config persist_path p).exec (handler env) w = (r, w'))
    (hcalm : Undisturbed env w w') {s : AccessStanza} (hs : s ∈ config.access)
    (h : Permits X config p (env.clock w.tick) w.cache s) :
    ∃ s₀, first_verifying X.crypto p.data config.access = some s₀
      ∧ (Installed r ↔ Permits X config p (env.clock w.tick) w.cache s₀) := by
  obtain ⟨_, _, _, hperm⟩ := h
  obtain ⟨s₀, hfirst⟩ := exists_first_verifying hs (hmacVerifies_of_parse hperm.parses).1
  refine ⟨s₀, hfirst, ?_, ?_⟩
  · intro hi
    obtain ⟨n, stanza, pl, sip, pts, hg, hunused⟩ := grant_of_installed hr hi
    obtain ⟨hfirst', hperm'⟩ := permitted_of_grant hv hg hunused
    cases hfirst.symm.trans hfirst'
    exact ⟨pl, sip, pts, hperm'⟩
  · rintro ⟨pl, sip, pts, hperm'⟩
    exact installed_of_grant hr hcalm (hperm'.grant hv hfirst) hperm'.unused

/-! ## On concrete inputs -/

theorem sampleEnv_undisturbed (w w' : World) : Undisturbed sampleEnv w w' :=
  ⟨fun _ _ _ => rfl, fun _ _ _ _ => ⟨_, rfl⟩⟩

/-- A stanza with the sample key permits the sample packet as long as `tcp/22` is open. -/
theorem sample_permitted {config : DaemonConfig} {s : AccessStanza} (hdaemon : config.daemon = {})
    (hkey : s.master_key = sampleStanza.master_key) (hsource : s.source = [.any])
    (hport : ⟨.tcp, 22⟩ ∈ s.open_ports) :
    Permitted sampleExt config samplePacket (sampleEnv.clock emptyWorld.tick) emptyWorld.cache s
      sampleRow.payload (.v4 #v[192, 0, 2, 7]) [⟨.tcp, 22⟩] := by
  refine ⟨?_, rfl, ?_, ?_, ?_, .inl rfl, ?_⟩
  · rw [hkey]
    decide +kernel
  · rw [hdaemon]
    decide
  · exact AList.notMem_empty _
  · rw [hsource]
    exact ⟨.any, List.mem_singleton_self _, rfl⟩
  · intro pp hpp
    rw [List.mem_singleton.mp hpp]
    exact hport

/-- The only stanza there is grants what it permits. -/
theorem sample_request_granted :
    Installed ((process_packet sampleExt sampleConfig none samplePacket).exec
      (handler sampleEnv) emptyWorld).1 := by
  have hperm : Permitted sampleExt sampleConfig samplePacket (sampleEnv.clock emptyWorld.tick)
      emptyWorld.cache sampleStanza sampleRow.payload (.v4 #v[192, 0, 2, 7]) [⟨.tcp, 22⟩] :=
    sample_permitted rfl rfl rfl (List.mem_singleton_self _)
  obtain ⟨s₀, hfirst, hiff⟩ := granted_iff_first_permits sampleExt sampleConfig_validate none
    sampleEnv samplePacket (Prod.mk.eta).symm (sampleEnv_undisturbed emptyWorld _)
    (List.mem_singleton_self sampleStanza) ⟨_, _, _, hperm⟩
  have hs₀ : s₀ ∈ [sampleStanza] := List.mem_of_find?_eq_some hfirst
  rw [hiff, List.mem_singleton.mp hs₀]
  exact ⟨_, _, _, hperm⟩

/-- The sample key again, for a web server. -/
def webStanza : AccessStanza := { sampleStanza with name := "web", open_ports := [⟨.tcp, 80⟩] }

def sharedKeyConfig : DaemonConfig := { access := [webStanza, sampleStanza] }

theorem sharedKeyConfig_validate : sharedKeyConfig.validate = .ok () := by
  refine default_valid (List.cons_ne_nil _ _) (by decide) ?_
  intro s hs
  rcases List.mem_cons.mp hs with rfl | hs
  · exact ⟨by decide, by decide, rfl, rfl, rfl⟩
  · rw [List.mem_singleton.mp hs]
    exact sampleStanza_valid

/-- Two stanzas share the key; the second permits the request, the first refuses it. -/
theorem permitted_request_refused :
    sharedKeyConfig.validate = .ok ()
      ∧ sampleStanza ∈ sharedKeyConfig.access
      ∧ Permitted sampleExt sharedKeyConfig samplePacket (sampleEnv.clock emptyWorld.tick)
          emptyWorld.cache sampleStanza sampleRow.payload (.v4 #v[192, 0, 2, 7]) [⟨.tcp, 22⟩]
      ∧ (∀ w', Undisturbed sampleEnv emptyWorld w')
      ∧ ((process_packet sampleExt sharedKeyConfig none samplePacket).exec (handler sampleEnv)
          emptyWorld).1
        = .ok (.rejected "web" "requested port tcp/22 not in stanza open_ports") :=
  ⟨sharedKeyConfig_validate, List.mem_cons_of_mem _ (List.mem_singleton_self _),
    sample_permitted rfl rfl rfl (List.mem_singleton_self _), sampleEnv_undisturbed emptyWorld,
    by decide +kernel⟩

end FwknoxCompleteness
