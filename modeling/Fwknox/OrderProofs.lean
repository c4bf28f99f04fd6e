import Fwknox.AuthorizationProofs

/-! # Arrival order

    `process_packet` over a list of packets, and over a permutation of it.  The packets
    share the replay cache, and refused packets write to it too.  But each reads the
    cache at its own nonce only:

      * `verdict`      : what a packet gets, as a function of the packet and of whether
                         its nonce was known,
      * `process_all_eq` : along a list with distinct nonces that function is applied to
                         the cache the list began with.

    A permutation of the list permutes the results with it. -/

namespace FwknoxOrder

open FwknoxTypes FwknoxClock FwknoxConfig FwknoxPacket FwknoxMatcher FwknoxWorld
open FwknoxReplay FwknoxPipeline FwknoxAuthorization LruMap EffectProg EffectProg.Prog

/-- A result without the handle the firewall chose. -/
inductive Kind where
  | installed (stanza_name : String)
  | replay (stanza_name : String)
  | noMatch
  | rejected (stanza_name reason : String)
  | failed (e : DaemonError)
  deriving DecidableEq

def kind : Except DaemonError ProcessResult → Kind
  | .ok (.installed stanza_name _) => .installed stanza_name
  | .ok (.replay stanza_name) => .replay stanza_name
  | .ok .noMatch => .noMatch
  | .ok (.rejected stanza_name reason) => .rejected stanza_name reason
  | .error e => .failed e

variable (X : Ext) (config : DaemonConfig)

/-- One packet after the other. -/
def process_all (persist_path : Option String) (env : Env) :
    List CapturedPacket → World → List (Except DaemonError ProcessResult) × World
  | [], w => ([], w)
  | p :: ps, w =>
      let r := (process_packet X config persist_path p).exec (handler env) w
      let rest := process_all persist_path env ps r.2
      (r.1 :: rest.1, rest.2)

/-- The nonce a packet decodes to. -/
def decoded_nonce (p : CapturedPacket) : Option Nonce :=
  match match_packet X.crypto p.data config.access with
  | .matched _ payload => some payload.nonce
  | _ => none

/-- What a packet gets, leaves in the cache and asks of the firewall. -/
structure Verdict where
  kind : Kind
  remembered : Option Nonce
  rule : Option AccessRule
  deriving DecidableEq

/-- The verdict on a fresh packet with a new nonce. -/
def settled (name : String) (stanza : AccessStanza) (payload : SpaPayload)
    (captured_ip : IpAddr) : Verdict :=
  match asked_rule X config stanza captured_ip payload with
  | .error reason => ⟨.rejected name reason, some payload.nonce, none⟩
  | .ok rule => ⟨.installed name, some payload.nonce, some rule⟩

/-- The verdict at the reading `t`, when the cache holds the nonces of `known`. -/
def verdict (t : SystemTime) (known : Assoc Nonce UInt64) (p : CapturedPacket) : Verdict :=
  match match_packet X.crypto p.data config.access with
  | .noMatch => ⟨.noMatch, none, none⟩
  | .rejected name reason => ⟨.rejected name reason.to_string, none, none⟩
  | .matched name payload =>
      match find_stanza config name with
      | .error e => ⟨.failed e, none, none⟩
      | .ok stanza =>
          match validate_against_clock payload (now_unix t)
              (max_age_secs config.daemon.max_spa_packet_age) DEFAULT_MAX_SKEW_SECS with
          | .error e => ⟨.rejected name e.to_string, none, none⟩
          | .ok _ =>
              if payload.nonce ∈ known then ⟨.replay name, none, none⟩
              else settled X config name stanza payload p.source_ip

/-- Nothing outside goes wrong, and the clock stands at `t`. -/
structure Calm (env : Env) (t : SystemTime) : Prop where
  clock : ∀ n, env.clock n = t
  persist : ∀ n, env.persist n = none
  firewall : ∀ n rule, ∃ handle, env.firewall n rule = .ok handle

variable {X config} {persist_path : Option String} {env : Env} {t : SystemTime}
  {p : CapturedPacket} {name : String} {stanza : AccessStanza} {payload : SpaPayload}

/-- A current packet is a replay or is settled. -/
theorem verdict_of_current {known : Assoc Nonce UInt64}
    (h : Current X config p t name stanza payload) :
    verdict X config t known p
      = if payload.nonce ∈ known then ⟨.replay name, none, none⟩
        else settled X config name stanza payload p.source_ip := by
  obtain ⟨hm, hf, hfresh⟩ := h
  simp only [Fresh] at hfresh
  simp only [verdict, hm, hf, hfresh]

/-- What the caches have in common decides. -/
theorem verdict_congr {known known' : Assoc Nonce UInt64}
    (h : ∀ n ∈ decoded_nonce X config p, n ∈ known ↔ n ∈ known') :
    verdict X config t known p = verdict X config t known' p := by
  simp only [verdict]
  cases hm : match_packet X.crypto p.data config.access with
  | noMatch => rfl
  | rejected n r => rfl
  | matched n pl =>
      have hn : pl.nonce ∈ decoded_nonce X config p := by
        simp only [decoded_nonce, hm]
        exact rfl
      simp only [h pl.nonce hn]

/-! ## One packet -/

/-- What a run from `w` to `w'` that gave `r` has to show for a verdict. -/
structure Meets (v : Verdict) (w : World) (r : Except DaemonError ProcessResult) (w' : World) :
    Prop where
  kind : kind r = v.kind
  cap : w'.cache.cap = w.cache.cap
  nonces : ∀ n, n ∈ w'.cache.map ↔ n ∈ w.cache.map ∨ n ∈ v.remembered
  len : w'.cache.len ≤ w.cache.len + v.remembered.toList.length
  rules : w'.calls.map Prod.snd = w.calls.map Prod.snd ++ v.rule.toList

/-- A packet that leaves cache and firewall alone. -/
theorem meets_idle {k : Kind} {w w' : World} {r : Except DaemonError ProcessResult}
    (hk : kind r = k) (hcache : w'.cache = w.cache) (hcalls : w'.calls = w.calls) :
    Meets ⟨k, none, none⟩ w r w' := by
  refine ⟨hk, by rw [hcache], ?_, by rw [hcache]; exact Nat.le_refl _, ?_⟩
  · intro n
    rw [hcache]
    exact ⟨.inl, fun h => h.elim id (fun hn => nomatch hn)⟩
  · rw [hcalls]
    exact (List.append_nil _).symm

/-- What `check_and_insert` leaves when it finds a new nonce and room. -/
theorem inserted_of_new {nonce : Nonce} {w w' : World}
    (hc : (check_and_insert persist_path nonce).exec (handler env) w = (.ok true, w'))
    (hroom : w.cache.len < w.cache.cap) :
    nonce ∉ w.cache.map ∧ w'.cache.cap = w.cache.cap ∧ w'.cache.len = w.cache.len + 1
      ∧ (∀ n, n ∈ w'.cache.map ↔ n ∈ w.cache.map ∨ n = nonce) ∧ w'.calls = w.calls
      ∧ w'.current = w.current := by
  obtain ⟨⟨hcalls, hcur, _⟩, _⟩ := check_and_insert_cases hc
  obtain ⟨hnot, hcache⟩ := check_and_insert_stored hc
  have hput := LruCache.put_map_of_room (env.clock w.tick).unix_secs hnot hroom
  rw [hcache]
  refine ⟨hnot, LruCache.put_cap _ _ _, ?_, ?_, hcalls, hcur⟩
  · show (w.cache.put nonce (env.clock w.tick).unix_secs).map.entries.length = _
    rw [hput, length_insert_of_notMem hnot]
    rfl
  · intro n
    rw [hput, AList.mem_insert]
    exact or_comm

/-- A packet whose nonce the cache takes in. -/
theorem meets_inserted {k : Kind} {rule : Option AccessRule} {nonce : Nonce} {w w₁ w' : World}
    {r : Except DaemonError ProcessResult}
    (hc : (check_and_insert persist_path nonce).exec (handler env) w.next = (.ok true, w₁))
    (hroom : w.cache.len < w.cache.cap) (hk : kind r = k) (hcache : w'.cache = w₁.cache)
    (hcalls : w'.calls.map Prod.snd = w₁.calls.map Prod.snd ++ rule.toList) :
    Meets ⟨k, some nonce, rule⟩ w r w' := by
  obtain ⟨_, hcap, hlen, hmem, hold, _⟩ := inserted_of_new hc hroom
  refine ⟨hk, by rw [hcache]; exact hcap, ?_, ?_, ?_⟩
  · intro n
    rw [hcache, hmem n]
    exact or_congr Iff.rfl ⟨fun h => h ▸ rfl, fun h => (Option.some.inj h).symm⟩
  · rw [hcache, hlen]
    exact Nat.le_refl _
  · rw [hcalls, hold]
    rfl

/-- **ONE PACKET** gets its verdict from the cache it finds. -/
theorem process_packet_meets (hcalm : Calm env t) {w w' : World}
    {r : Except DaemonError ProcessResult}
    (hroom : decoded_nonce X config p ≠ none → w.cache.len < w.cache.cap)
    (h : (process_packet X config persist_path p).exec (handler env) w = (r, w')) :
    Meets (verdict X config t w.cache.map p) w r w' := by
  have hclock := hcalm.clock w.tick
  have hroom' : ∀ {name payload}, match_packet X.crypto p.data config.access
      = .matched name payload → w.cache.len < w.cache.cap := by
    intro n pl hm
    exact hroom (by simp only [decoded_nonce, hm]; exact nofun)
  cases process_packet_cases h with
  | noMatch hm =>
      simp only [verdict, hm]
      exact meets_idle rfl rfl rfl
  | unreadable name reason hm =>
      simp only [verdict, hm]
      exact meets_idle rfl rfl rfl
  | missing name payload e hm hf =>
      simp only [verdict, hm, hf]
      exact meets_idle rfl rfl rfl
  | stale name stanza payload e hm hf ht =>
      rw [hclock] at ht
      simp only [verdict, hm, hf, ht]
      exact meets_idle rfl rfl rfl
  | replay name stanza payload _ hcur hc =>
      rw [hclock] at hcur
      obtain ⟨⟨hcalls, _⟩, _⟩ := check_and_insert_cases hc
      obtain ⟨hmem, hcache⟩ := check_and_insert_known hc
      have hold : payload.nonce ∈ w.cache.map := hmem
      rw [verdict_of_current hcur, if_pos hold]
      exact meets_idle rfl hcache hcalls
  | unsaved name stanza payload e _ hcur hc =>
      -- with a working disk no save fails
      obtain ⟨_, _, k, _, _, hk⟩ := check_and_insert_failed hc
      exact absurd (hcalm.persist k) hk
  | refused name stanza payload reason _ hcur hc href =>
      -- the nonce is spent all the same
      rw [hclock] at hcur
      have hnew : payload.nonce ∉ w.cache.map := (inserted_of_new hc (hroom' hcur.matched)).1
      rw [verdict_of_current hcur, if_neg hnew, settled, href]
      exact meets_inserted hc (hroom' hcur.matched) rfl rfl (List.append_nil _).symm
  | granted name stanza payload source_ip ports w₁ hg hc =>
      rw [hclock] at hg
      have hnew : payload.nonce ∉ w.cache.map := (inserted_of_new hc (hroom' hg.matched)).1
      obtain ⟨handle, hhandle⟩ := hcalm.firewall w₁.tick
        (granted_rule config stanza payload source_ip ports)
      rw [verdict_of_current hg.current, if_neg hnew, settled, hg.asked_rule, hhandle]
      refine meets_inserted hc (hroom' hg.matched) rfl rfl ?_
      show (w₁.calls ++ [_]).map Prod.snd = _
      rw [List.map_append]
      rfl

/-! ## A list of packets -/

/-- Only a decoded nonce is remembered. -/
theorem remembered_decoded {known : Assoc Nonce UInt64} {n : Nonce}
    (h : n ∈ (verdict X config t known p).remembered) : n ∈ decoded_nonce X config p := by
  simp only [verdict] at h
  simp only [decoded_nonce]
  cases hm : match_packet X.crypto p.data config.access with
  | noMatch =>
      rw [hm] at h
      exact nomatch h
  | rejected m r =>
      rw [hm] at h
      exact nomatch h
  | matched m pl =>
      rw [hm] at h
      dsimp only at h ⊢
      cases hf : find_stanza config m with
      | error e =>
          rw [hf] at h
          exact nomatch h
      | ok s =>
          rw [hf] at h
          dsimp only at h
          cases hfr : validate_against_clock pl (now_unix t)
              (max_age_secs config.daemon.max_spa_packet_age) DEFAULT_MAX_SKEW_SECS with
          | error e =>
              rw [hfr] at h
              exact nomatch h
          | ok u =>
              rw [hfr] at h
              dsimp only at h
              by_cases hk : pl.nonce ∈ known
              · rw [if_pos hk] at h
                exact nomatch h
              · rw [if_neg hk] at h
                simp only [settled] at h
                cases hask : asked_rule X config s p.source_ip pl with
                | error reason =>
                    rw [hask] at h
                    exact h
                | ok rule =>
                    rw [hask] at h
                    exact h

/-- The decoded nonces of a list, with the first packet's set apart. -/
theorem decoded_cons (p : CapturedPacket) (ps : List CapturedPacket) :
    (p :: ps).filterMap (decoded_nonce X config)
      = (decoded_nonce X config p).toList ++ ps.filterMap (decoded_nonce X config) := by
  rw [List.filterMap_cons]
  cases decoded_nonce X config p <;> rfl

theorem process_all_cons {persist_path : Option String} {p : CapturedPacket}
    (ps : List CapturedPacket) {w w' : World} {r : Except DaemonError ProcessResult}
    (hr : (process_packet X config persist_path p).exec (handler env) w = (r, w')) :
    process_all X config persist_path env (p :: ps) w
      = (r :: (process_all X config persist_path env ps w').1,
          (process_all X config persist_path env ps w').2) := by
  simp only [process_all, hr]

theorem remembered_length_le (known : Assoc Nonce UInt64) (p : CapturedPacket) :
    (verdict X config t known p).remembered.toList.length
      ≤ (decoded_nonce X config p).toList.length := by
  cases hrem : (verdict X config t known p).remembered with
  | none => exact Nat.zero_le _
  | some n => exact List.length_pos_of_mem (Option.mem_toList.mpr (remembered_decoded hrem))

/-- A packet takes no more room than its nonce, so the rest still fits. -/
theorem Meets.room {known : Assoc Nonce UInt64} {p : CapturedPacket} {m : Nat} {w w' : World}
    {r : Except DaemonError ProcessResult} (h : Meets (verdict X config t known p) w r w')
    (hroom : w.cache.len + ((decoded_nonce X config p).toList.length + m) ≤ w.cache.cap) :
    w'.cache.len + m ≤ w'.cache.cap := by
  have hgrown := h.len
  have hlen : (verdict X config t known p).remembered.toList.length
      ≤ (decoded_nonce X config p).toList.length := remembered_length_le known p
  rw [h.cap]
  omega

/-- It says nothing about the nonces of the rest, which are other ones. -/
theorem Meets.known {known : Assoc Nonce UInt64} {p : CapturedPacket} {ns : List Nonce}
    {w w' : World} {r : Except DaemonError ProcessResult}
    (h : Meets (verdict X config t known p) w r w')
    (hapart : ∀ n ∈ (decoded_nonce X config p).toList, ∀ m ∈ ns, n ≠ m)
    (hknown : ∀ n ∈ ns, n ∈ w.cache.map ↔ n ∈ known) :
    ∀ n ∈ ns, n ∈ w'.cache.map ↔ n ∈ known := by
  intro n hn
  rw [h.nonces n, ← hknown n hn]
  refine ⟨fun hmem => hmem.elim id (fun hrem => ?_), .inl⟩
  exact absurd rfl (hapart n (Option.mem_toList.mpr (remembered_decoded hrem)) n hn)

/-- **EVERY PACKET OF A LIST** gets its verdict from the cache the list began with. -/
theorem process_all_eq (persist_path : Option String) (hcalm : Calm env t)
    (known : Assoc Nonce UInt64) {ps : List CapturedPacket} {w : World}
    (hroom : w.cache.len + (ps.filterMap (decoded_nonce X config)).length ≤ w.cache.cap)
    (hdistinct : (ps.filterMap (decoded_nonce X config)).Nodup)
    (hknown : ∀ n ∈ ps.filterMap (decoded_nonce X config), n ∈ w.cache.map ↔ n ∈ known) :
    (process_all X config persist_path env ps w).1.map kind
        = ps.map (fun p => (verdict X config t known p).kind)
      ∧ (∀ n, n ∈ (process_all X config persist_path env ps w).2.cache.map
          ↔ n ∈ w.cache.map ∨ n ∈ ps.filterMap (fun p => (verdict X config t known p).remembered))
      ∧ (process_all X config persist_path env ps w).2.calls.map Prod.snd
          = w.calls.map Prod.snd ++ ps.filterMap (fun p => (verdict X config t known p).rule) := by
  induction ps generalizing w with
  | nil =>
      refine ⟨rfl, fun n => ⟨.inl, fun h => h.elim id (fun hn => nomatch hn)⟩, ?_⟩
      exact (List.append_nil _).symm
  | cons p ps ih =>
      rw [decoded_cons] at hroom hdistinct hknown
      rw [List.length_append] at hroom
      obtain ⟨_, hrest, hapart⟩ := List.nodup_append.mp hdistinct
      generalize hr : (process_packet X config persist_path p).exec (handler env) w = res
      obtain ⟨r, w'⟩ := res
      have hfirst : Meets (verdict X config t w.cache.map p) w r w' := by
        refine process_packet_meets hcalm ?_ hr
        intro hd
        obtain ⟨n, hn⟩ := Option.ne_none_iff_exists'.mp hd
        rw [hn] at hroom
        simp only [Option.toList_some, List.length_singleton] at hroom
        omega
      rw [verdict_congr (fun n hn => hknown n (List.mem_append_left _ (Option.mem_toList.mpr hn)))]
        at hfirst
      -- the invariants of the induction: room for the rest, and its nonces as before
      obtain ⟨hkinds, hnonces, hrules⟩ := ih (hfirst.room hroom) hrest (hfirst.known hapart
        fun n hn => hknown n (List.mem_append_right _ hn))
      rw [process_all_cons ps hr]
      refine ⟨?_, ?_, ?_⟩
      · rw [List.map_cons, List.map_cons, hkinds, hfirst.kind]
      · intro n
        rw [hnonces n, hfirst.nonces n, or_assoc, List.mem_filterMap, List.mem_filterMap]
        refine or_congr Iff.rfl ⟨?_, ?_⟩
        · rintro (hrem | ⟨q, hq, hrem⟩)
          · exact ⟨p, List.mem_cons_self, hrem⟩
          · exact ⟨q, List.mem_cons_of_mem _ hq, hrem⟩
        · rintro ⟨q, hq, hrem⟩
          rcases List.mem_cons.mp hq with rfl | hq
          · exact .inl hrem
          · exact .inr ⟨q, hq, hrem⟩
      · rw [hrules, hfirst.rules, List.append_assoc, List.filterMap_cons]
        cases (verdict X config t known p).rule <;> rfl

/-- **ARRIVAL ORDER DOES NOT MATTER**: with the clock held still, nothing failing, room
    for every decoded nonce and no two of them alike, a list of packets and any
    permutation of it open the same rules, remember the same nonces and give every packet
    the same result. -/
theorem order_irrelevant (X : Ext) (config : DaemonConfig) (persist_path : Option String)
    (env : Env) (t : SystemTime) (hcalm : Calm env t) (w : World) (ps qs : List CapturedPacket)
    (hperm : ps.Perm qs)
    (hroom : w.cache.len + (ps.filterMap (decoded_nonce X config)).length ≤ w.cache.cap)
    (hdistinct : (ps.filterMap (decoded_nonce X config)).Nodup) :
    ((process_all X config persist_path env ps w).2.calls.map Prod.snd).Perm
        ((process_all X config persist_path env qs w).2.calls.map Prod.snd)
      ∧ (∀ n, n ∈ (process_all X config persist_path env ps w).2.cache.map
          ↔ n ∈ (process_all X config persist_path env qs w).2.cache.map)
      ∧ (ps.zip ((process_all X config persist_path env ps w).1.map kind)).Perm
          (qs.zip ((process_all X config persist_path env qs w).1.map kind)) := by
  have hnonces := hperm.filterMap (decoded_nonce X config)
  obtain ⟨hk, hn, hr⟩ := process_all_eq persist_path hcalm w.cache.map hroom hdistinct
    (fun _ _ => Iff.rfl)
  obtain ⟨hk', hn', hr'⟩ := process_all_eq persist_path hcalm w.cache.map
    (hnonces.length_eq ▸ hroom) (hnonces.nodup_iff.mp hdistinct) (fun _ _ => Iff.rfl)
  refine ⟨?_, ?_, ?_⟩
  · rw [hr, hr']
    exact (hperm.filterMap _).append_left _
  · intro n
    rw [hn n, hn' n]
    exact or_congr Iff.rfl (hperm.filterMap _).mem_iff
  · rw [hk, hk', ← List.map_prod_left_eq_zip, ← List.map_prod_left_eq_zip]
    exact hperm.map _

/-- A second request of alice, under a nonce of its own. -/
def secondPayload : SpaPayload := { sampleRow.payload with nonce := Vector.replicate 16 7 }

/-- Its encoding. -/
def secondPlaintext : Bytes :=
  [0x95, 0xdc, 0x00, 0x10] ++ List.replicate 16 7 ++ sampleRow.plaintext.drop 20

/-- The sample primitives, which read the second request as well. -/
def pairExt : Ext where
  crypto := { sampleRow.crypto with
    rmp_from_slice := fun b =>
      if b = secondPlaintext then .ok secondPayload else sampleRow.crypto.rmp_from_slice b }
  net_contains _ _ := false

/-- The second request as it arrives, sealed off the row. -/
def secondPacket : CapturedPacket :=
  ⟨.v4 sampleIp, Parts.wire ⟨sampleRow.header, Vector.replicate 12 7, Row.pad secondPlaintext,
    List.replicate HMAC_LEN 0⟩⟩

/-- Two requests of alice: either order opens both rules, and nothing but the order differs. -/
theorem two_requests_commute :
    decoded_nonce pairExt sampleConfig samplePacket = some sampleRow.payload.nonce
      ∧ decoded_nonce pairExt sampleConfig secondPacket = some secondPayload.nonce
      ∧ sampleRow.payload.nonce ≠ secondPayload.nonce
      ∧ (process_all pairExt sampleConfig none sampleEnv [samplePacket, secondPacket]
          twoPlaces).2.calls.length = 2
      ∧ ((process_all pairExt sampleConfig none sampleEnv [samplePacket, secondPacket]
            twoPlaces).2.calls.map Prod.snd).Perm
          ((process_all pairExt sampleConfig none sampleEnv [secondPacket, samplePacket]
            twoPlaces).2.calls.map Prod.snd)
      ∧ (∀ n, n ∈ (process_all pairExt sampleConfig none sampleEnv [samplePacket, secondPacket]
            twoPlaces).2.cache.map
          ↔ n ∈ (process_all pairExt sampleConfig none sampleEnv [secondPacket, samplePacket]
            twoPlaces).2.cache.map)
      ∧ ([samplePacket, secondPacket].zip ((process_all pairExt sampleConfig none sampleEnv
            [samplePacket, secondPacket] twoPlaces).1.map kind)).Perm
          ([secondPacket, samplePacket].zip ((process_all pairExt sampleConfig none sampleEnv
            [secondPacket, samplePacket] twoPlaces).1.map kind)) :=
  ⟨by decide +kernel, by decide +kernel, by decide, by decide +kernel,
    order_irrelevant pairExt sampleConfig none sampleEnv ⟨1700000000⟩
      ⟨fun _ => rfl, fun _ => rfl, fun _ _ => ⟨_, rfl⟩⟩ twoPlaces _ _ (.swap _ _ _)
      (by decide +kernel) (by decide +kernel)⟩

end FwknoxOrder
