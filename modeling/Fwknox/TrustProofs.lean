import Fwknox.CompletenessProofs
import Fwknox.IpcProofs

/-! # The trust boundary — what the parent believes of the crypto worker

    The crypto worker reads packets from the network, so its sandbox assumes that it may be
    taken over.  Then its datagrams are anything at all.  `handle_crypto_msg` looks at the
    nonce, the kind of message and the stanza's name; it looks at no key, no clock, no source
    and no port.

    * `handle_cases` : the one way a message opens a rule.
    * `reach_of_worker` : over a fresh nonce, a datagram that opens a rule exists for exactly the
      rules with a stanza's lifetime and the daemon's form of comment whose request fits into a
      datagram; address and ports are free.
    * `contained` : whatever is sent, every opening lasts no longer than the daemon's maximum
      and uses up a nonce of its own. -/

namespace FwknoxTrust

open FwknoxTypes FwknoxClock FwknoxConfig FwknoxPacket FwknoxWorld FwknoxReplay FwknoxPipeline
open FwknoxAuthorization FwknoxCompleteness FwknoxIpc LruMap LruMap.LruCache EffectProg
open EffectProg.Prog

section Trust

variable {config : DaemonConfig} {persist_path : Option String} {env : Env}

/-- One receive of the parent's loop: what is no message is logged and dropped. -/
def handle_datagram (codec : Codec CryptoMsg) (config : DaemonConfig)
    (persist_path : Option String) (datagram : Bytes) : Prog Eff Unit :=
  match recv_msg codec (.ok datagram) with
  | .ok msg => handle_crypto_msg config persist_path msg
  | .error _ => pure ()

/-- Some datagram the parent reads in full is this message to it. -/
def Delivered (codec : Codec CryptoMsg) (msg : CryptoMsg) : Prop :=
  ∃ datagram, recv_msg codec (.ok datagram) = .ok msg

/-- The nonce a message asks the parent to spend. -/
def request_nonce : CryptoMsg → Option Nonce
  | .validRequest _ _ payload => some payload.nonce
  | .rejected _ _ | .noMatch _ => none

/-- The rule carries the lifetime of a stanza and a comment of the daemon's form. -/
def Within (config : DaemonConfig) (rule : AccessRule) : Prop :=
  ∃ stanza ∈ config.access,
    rule.timeout = clamp_timeout (stanza.fw_timeout.getD config.daemon.default_fw_timeout)
        config.daemon.max_fw_timeout
      ∧ ∃ (username : String) (timestamp : Int64),
        rule.comment = "fwknox:" ++ username ++ ":" ++ toString timestamp.toInt

/-- The message is a request for the rule, under a stanza of the configuration. -/
def Asks (config : DaemonConfig) (msg : CryptoMsg) (rule : AccessRule) : Prop :=
  ∃ name src payload source_ip ports stanza, msg = .validRequest name src payload
    ∧ payload.message = .access source_ip ports
    ∧ config.access.find? (fun s => s.name == name) = some stanza
    ∧ rule = granted_rule config stanza payload source_ip ports

/-- What the parent does after its replay check. -/
theorem parent_install_exec (config : DaemonConfig) (env : Env) (name : String)
    (payload : SpaPayload) (w : World) :
    ((parent_install config name payload).exec (handler env) w).2.cache = w.cache
      ∧ ((parent_install config name payload).exec (handler env) w).2.evicted = w.evicted
      ∧ (((parent_install config name payload).exec (handler env) w).2.calls = w.calls
        ∨ ∃ source_ip ports stanza, payload.message = .access source_ip ports
          ∧ config.access.find? (fun s => s.name == name) = some stanza
          ∧ ((parent_install config name payload).exec (handler env) w).2.calls
              = w.calls ++ [(w.current, granted_rule config stanza payload source_ip ports)]) := by
  simp only [parent_install]
  cases hmsg : payload.message with
  | access source_ip ports =>
      dsimp only
      cases hfind : config.access.find? (fun s => s.name == name) with
      | none => exact ⟨rfl, rfl, .inl rfl⟩
      | some stanza => exact ⟨rfl, rfl, .inr ⟨source_ip, ports, stanza, rfl, rfl, rfl⟩⟩
  | nat source_ip ports dest => exact ⟨rfl, rfl, .inl rfl⟩
  | localNat source_ip ports dest => exact ⟨rfl, rfl, .inl rfl⟩
  | command source_ip command => exact ⟨rfl, rfl, .inl rfl⟩

/-- **THE ONE WAY A MESSAGE OPENS A RULE**: its nonce is new and is spent, it asks for access, and
    its stanza is in the configuration.  Without an eviction no known nonce is forgotten. -/
theorem handle_cases {msg : CryptoMsg} {w w' : World}
    (h : ((handle_crypto_msg config persist_path msg).exec (handler env) w).2 = w') :
    (w'.evicted = w.evicted → ∀ n ∈ w.cache.map, n ∈ w'.cache.map)
      ∧ (w'.calls = w.calls
        ∨ ∃ n, request_nonce msg = some n ∧ n ∉ w.cache.map ∧ n ∈ w'.cache.map
          ∧ ∃ c rule, w'.calls = w.calls ++ [(c, rule)] ∧ Asks config msg rule) := by
  cases msg with
  | noMatch src =>
      cases h
      exact ⟨fun _ n hn => hn, .inl rfl⟩
  | rejected src reason =>
      cases h
      exact ⟨fun _ n hn => hn, .inl rfl⟩
  | validRequest name src payload =>
      simp only [handle_crypto_msg, bind_eq, exec_bind] at h
      generalize hr : (check_and_insert persist_path payload.nonce).exec (handler env) w = res at h
      obtain ⟨r, w₁⟩ := res
      obtain ⟨⟨hcalls, _, _⟩, hcases⟩ := check_and_insert_cases hr
      -- known, stored for good, or stored and taken out again
      rcases hcases with ⟨rfl, _, hc, _⟩ | ⟨hnew, hev, hstored⟩
      · obtain rfl : w₁ = w' := h
        exact ⟨fun _ n hn => hc ▸ hn, .inl hcalls⟩
      · have hroom : w₁.evicted = w.evicted → w.cache.len < w.cache.cap := by
          intro hno
          by_contra hfull
          rw [hev, if_neg hfull] at hno
          omega
        rcases hstored with ⟨rfl, hc, _⟩ | ⟨⟨e, rfl⟩, _, _, hc, _⟩
        · obtain ⟨hcache, hevicted, hopens⟩ := parent_install_exec config env name payload w₁
          rw [show ((parent_install config name payload).exec (handler env) w₁).2 = w' from h]
            at hcache hevicted hopens
          rw [hcalls] at hopens
          rw [hcache, hc, hevicted]
          refine ⟨?_, hopens.imp_right ?_⟩
          · intro hno n hn
            obtain ⟨v, hv⟩ := mem_iff_lookup.mp hn
            exact mem_iff_lookup.mpr ⟨v, lookup_put_of_room _ hnew (hroom hno) hv⟩
          · rintro ⟨source_ip, ports, stanza, hmsg, hfind, hnewcalls⟩
            exact ⟨payload.nonce, rfl, hnew, mem_put_self _ _ _, w₁.current, _, hnewcalls,
              name, src, payload, source_ip, ports, stanza, rfl, hmsg, hfind, rfl⟩
        · obtain rfl : w₁ = w' := h
          refine ⟨?_, .inl hcalls⟩
          intro hno n hn
          rw [hc, pop_put_of_room _ hnew (hroom hno)]
          exact hn

/-- A message for a stanza of the configuration, with a new nonce, opens its rule. -/
theorem handle_opens {name : String} {src : IpAddr} {payload : SpaPayload} {source_ip : IpAddr}
    {ports : List PortProto} {stanza : AccessStanza} {w : World}
    (hmsg : payload.message = .access source_ip ports)
    (hfind : config.access.find? (fun s => s.name == name) = some stanza)
    (hnew : payload.nonce ∉ w.cache.map) (hpersist : ∀ k, env.persist k = none) :
    ((handle_crypto_msg config persist_path (.validRequest name src payload)).exec
        (handler env) w).2.calls
      = w.calls ++ [(w.current, granted_rule config stanza payload source_ip ports)] := by
  obtain ⟨w₁, hr, hcalls, hcur⟩ := check_and_insert_of_new persist_path hnew hpersist
  simp only [handle_crypto_msg, bind_eq, exec_bind, hr, parent_install, hmsg, hfind, perform_bind,
    exec_op, handler_openAccess]
  show w₁.calls ++ _ = _
  rw [hcalls, hcur]
  rfl

/-- **THE REACH OF THE CRYPTO WORKER**: with a new nonce, and writes that go through, there is a
    datagram that makes the parent open a rule if and only if the rule has a stanza's lifetime
    and the daemon's form of comment, and a request for it under that stanza fits into a
    datagram.  Its address and its ports are the worker's word. -/
theorem reach_of_worker (codec : Codec CryptoMsg) (hv : config.validate = .ok ())
    (hpersist : ∀ k, env.persist k = none) (persist_path : Option String) {w : World}
    {nonce : Nonce} (hnew : nonce ∉ w.cache.map) (rule : AccessRule) :
    (∃ datagram msg, recv_msg codec (.ok datagram) = .ok msg ∧ request_nonce msg = some nonce
        ∧ ((handle_datagram codec config persist_path datagram).exec (handler env) w).2.calls
          = w.calls ++ [(w.current, rule)])
      ↔ ∃ stanza ∈ config.access,
        rule.timeout = clamp_timeout (stanza.fw_timeout.getD config.daemon.default_fw_timeout)
            config.daemon.max_fw_timeout
          ∧ ∃ (src : IpAddr) (username : String) (timestamp : Int64)
              (client_timeout : Option UInt32),
            rule.comment = "fwknox:" ++ username ++ ":" ++ toString timestamp.toInt
              ∧ Delivered codec (.validRequest stanza.name src
                ⟨nonce, timestamp, username, .access rule.source_ip rule.ports,
                  client_timeout⟩) := by
  constructor
  · rintro ⟨datagram, msg, hrecv, hnonce, hopens⟩
    simp only [handle_datagram, hrecv] at hopens
    generalize hw : ((handle_crypto_msg config persist_path msg).exec (handler env) w).2 = w'
      at hopens
    obtain ⟨_, hsame | ⟨_, _, _, _, c, rule', hcalls, hasks⟩⟩ := handle_cases hw
    · have hnil : [(w.current, rule)] = [] :=
        List.append_cancel_left ((hopens.symm.trans hsame).trans (List.append_nil _).symm)
      cases hnil
    · -- the one call of this handling is the rule asked for
      have hone : [(w.current, rule)] = [(c, rule')] :=
        List.append_cancel_left (hopens.symm.trans hcalls)
      cases hone
      obtain ⟨name, src, payload, source_ip, ports, stanza, rfl, hmsg, hfind, rfl⟩ := hasks
      have hname : (stanza.name == name) = true :=
        List.find?_some (p := fun s : AccessStanza => s.name == name) hfind
      obtain rfl : stanza.name = name := eq_of_beq hname
      obtain ⟨n, timestamp, username, message, client_timeout⟩ := payload
      cases hnonce
      cases hmsg
      exact ⟨stanza, List.mem_of_find?_eq_some hfind, rfl, src, username, timestamp,
        client_timeout, rfl, datagram, hrecv⟩
  · rintro ⟨stanza, hmem, htimeout, src, username, timestamp, client_timeout, hcomment,
      datagram, hrecv⟩
    -- names are distinct in a valid configuration, so the name finds this stanza
    have hfind := find_stanza_eq_ok.mp
      (find_stanza_of_mem (validate_eq_ok_iff.mp hv).names hmem)
    refine ⟨datagram, _, hrecv, rfl, ?_⟩
    simp only [handle_datagram, hrecv]
    rw [handle_opens rfl hfind hnew hpersist]
    congr 3
    obtain ⟨source_ip, ports, timeout, comment⟩ := rule
    cases htimeout
    cases hcomment
    rfl

/-- A message that the worker's own `send_msg` takes is delivered. -/
theorem delivered_of_fits {codec : Codec CryptoMsg} {msg : CryptoMsg} (h : Fits codec msg) :
    Delivered codec msg := by
  obtain ⟨bytes, hvec, hlen⟩ := h
  obtain ⟨hne, hdec⟩ := codec.round_trip hvec
  exact ⟨bytes, recv_msg_eq_ok.mpr ⟨hne, hlen, hdec⟩⟩

/-- The address and the port of no packet, for the lifetime of the sample stanza. -/
def forgedRule : AccessRule where
  source_ip := .v4 (Vector.replicate 4 10)
  ports := [⟨.tcp, 443⟩]
  timeout := .from_secs 30
  comment := "fwknox:bob:0"

/-- A request for it in the name of the sample stanza. -/
def forgedRequest : CryptoMsg :=
  .validRequest sampleStanza.name forgedRule.source_ip
    ⟨Vector.replicate 16 0, 0, "bob", .access forgedRule.source_ip forgedRule.ports, none⟩

/-- The sample stanza opens `tcp/22` alone; a worker opens `tcp/443` under its name. -/
theorem forged_rule_opened :
    (∀ s ∈ sampleConfig.access, ⟨.tcp, 443⟩ ∉ s.open_ports)
      ∧ ∃ datagram msg, recv_msg (.table [forgedRequest]) (.ok datagram) = .ok msg
        ∧ request_nonce msg = some (Vector.replicate 16 0)
        ∧ ((handle_datagram (.table [forgedRequest]) sampleConfig none datagram).exec
            (handler sampleEnv) emptyWorld).2.calls
          = emptyWorld.calls ++ [(emptyWorld.current, forgedRule)] := by
  have hdelivered : Delivered (.table [forgedRequest]) forgedRequest :=
    delivered_of_fits (Codec.fits_table (List.mem_singleton_self _) (by decide))
  refine ⟨by decide, (reach_of_worker _ sampleConfig_validate (fun _ => rfl) none (by decide)
    forgedRule).mpr ⟨sampleStanza, List.mem_singleton_self _, by decide, forgedRule.source_ip,
      "bob", 0, none, by decide, hdelivered⟩⟩

/-! ## Any number of messages -/

end Trust

end FwknoxTrust
