import Fwknox.NetfilterProofs
import Fwknox.TextProofs
import Fwknox.WorldProofs
import Mathlib.Data.List.Infix

/-! # The nftables backend — an allow set that opens nothing

    `nftables.rs` over the kernel of `Netfilter`: the batches it submits, its handles and
    errors, and the state they lead to.

    Its chain accepts by rule and accepts by policy, so no packet is ever dropped in the
    table, whatever the set holds, and no packet is saved from a drop elsewhere, because
    an accept ends only its own chain.  On a host that denies a packet by default the
    table changes nothing: `allow_set_decides_iff` says exactly when set membership and
    delivery agree. -/

namespace FwknoxNft

open FwknoxTypes FwknoxClock FwknoxWorld Netfilter PlainText LruMap

/-- The daemon's own table. -/
def TABLE_NAME : String := "fwknox"

/-- The set its rule looks addresses up in. -/
def SET_NAME : String := "fwknox_allow_v4"

/-- The chain that rule is in. -/
def CHAIN_NAME : String := "input"

/-! ## The backend -/

/-- What the outside decides about one call: an error of its own, the text it reports
    when the kernel refuses a batch, and the sets it would list. -/
structure Applier where
  fails : Option String
  refused : String
  get_current : Except FirewallError (List (String × Option (List Expression)))

/-- The backend's flag, and the kernel behind it. -/
structure NftablesBackend where
  initialized : Bool
  kernel : Ruleset Ipv4Addr Protocol

variable (R : Reader Ipv4Addr Protocol)

/-- A batch goes through as a whole or not at all. -/
def Applier.apply (a : Applier) (batch : List Command) (kernel : Ruleset Ipv4Addr Protocol) :
    Except FirewallError (Ruleset Ipv4Addr Protocol) :=
  match a.fails, Netfilter.apply R kernel batch with
  | some msg, _ => .error (.backend msg)
  | none, some kernel' => .ok kernel'
  | none, none => .error (.backend a.refused)

/-- Table, set, chain and the one rule that accepts what is in the set. -/
def init_batch : List Command :=
  [.add (.table TABLE_NAME),
    .add (.set TABLE_NAME SET_NAME [.ipv4Addr, .inetProto, .inetService]),
    .add (.chain TABLE_NAME CHAIN_NAME .input 0 .accept),
    .add (.rule TABLE_NAME CHAIN_NAME
      [.matchIn (.concat [.payload "ip" "saddr", .metaL4proto, .payload "th" "dport"])
        (.string ("@" ++ SET_NAME)), .accept])]

/-- The flag goes up once the batch is through. -/
def init (a : Applier) (b : NftablesBackend) : Except FirewallError Unit × NftablesBackend :=
  match a.apply R init_batch b.kernel with
  | .error e => (.error e, b)
  | .ok kernel => (.ok (), ⟨true, kernel⟩)

/-- Every operation but `init` and `flush` asks for the flag first. -/
def assert_initialized (b : NftablesBackend) (op : String) : Except FirewallError Unit :=
  if b.initialized then .ok () else .error (.inconsistentState (op ++ " called before init"))

/-- `u32::try_from(d.as_secs()).unwrap_or(u32::MAX)`. -/
def timeout_secs (d : Duration) : UInt32 :=
  if d.as_secs.toNat < 2 ^ 32 then d.as_secs.toUInt32 else 0xffffffff

/-- The element of one port. -/
def element_add (ipv4 : Ipv4Addr) (timeout : UInt32) (pp : PortProto) : Command :=
  .add (.element TABLE_NAME SET_NAME
    [.elem (.concat [.string ipv4.to_string, .string pp.proto.to_string,
      .number pp.port.toUInt32]) (some timeout)])

/-- One entry of a handle. -/
def handle_part (ipv4 : Ipv4Addr) (pp : PortProto) : String :=
  ipv4.to_string ++ "/" ++ pp.proto.to_string ++ "/" ++ toString pp.port.toNat

/-- One element for each port, in one batch, with one timeout. -/
def open_access (a : Applier) (rule : AccessRule) (b : NftablesBackend) :
    Except FirewallError RuleHandle × NftablesBackend :=
  match assert_initialized b "open_access" with
  | .error e => (.error e, b)
  | .ok _ =>
      match rule.source_ip with
      | .v6 _ => (.error (.unsupported
          "IPv6 source addresses (Phase 2 nftables backend is IPv4-only)"), b)
      | .v4 ipv4 =>
          match a.apply R (rule.ports.map (element_add ipv4 (timeout_secs rule.timeout)))
              b.kernel with
          | .error e => (.error e, b)
          | .ok kernel =>
              (.ok ⟨",".intercalate (rule.ports.map (handle_part ipv4))⟩, { b with kernel })

/-- The batch `open_access` submits for a rule; none for an IPv6 source. -/
def open_access_batch (rule : AccessRule) : Option (List Command) :=
  match rule.source_ip with
  | .v6 _ => none
  | .v4 ipv4 => some (rule.ports.map (element_add ipv4 (timeout_secs rule.timeout)))

/-- An initialized backend submits it and nothing else. -/
theorem open_access_submits {b : NftablesBackend} (hinit : b.initialized = true) (a : Applier)
    (rule : AccessRule) :
    (open_access R a rule b).2.kernel
      = match open_access_batch rule with
        | none => b.kernel
        | some batch => (a.apply R batch b.kernel).toOption.getD b.kernel := by
  simp only [open_access, assert_initialized, hinit, if_true, open_access_batch]
  cases rule.source_ip with
  | v6 ip => rfl
  | v4 ip =>
      dsimp only
      cases a.apply R (rule.ports.map (element_add ip (timeout_secs rule.timeout))) b.kernel with
      | error e => rfl
      | ok kernel => rfl

/-! ## Removal -/

/-- `str::contains`. -/
def contains (text part : String) : Bool := decide (part.toList <:+: text.toList)

/-- What `nft` says when there is nothing to delete. -/
def stderr_indicates_missing_element (stderr : String) : Bool :=
  let lower := String.ofList (stderr.toList.map Char.toLower)
  contains lower "no such file or directory" || contains lower "could not process rule"
    || contains lower "set element does not exist"

/-- The failure that says nothing. -/
def backend_has_empty_stderr (msg : String) : Bool := contains msg "stderr=\"\""

/-- The entries of a handle, split at their slashes. -/
def handle_entries (handle : RuleHandle) : List (List (List Char)) :=
  (handle.id.toList.splitOn ',').map (fun entry => entry.splitOn '/')

/-- The well-formed entries; the others are skipped. -/
def handle_targets (handle : RuleHandle) : List (String × String × UInt32) :=
  (handle_entries handle).filterMap fun
    | [ip, proto, port] => (parse_u32 port).map (String.ofList ip, String.ofList proto, ·)
    | _ => none

/-- The parts of a listed element, if it has the shape of a bare concatenation. -/
def listed_parts : Expression → Option (String × String × UInt32)
  | .concat [.string ip, .string proto, .number port] => some (ip, proto, port)
  | _ => none

/-- Whether the kernel's listing still has an element of the handle; a handle without entries
    counts as present. -/
def handle_has_present_elements (handle : RuleHandle)
    (listing : List (String × Option (List Expression))) : Bool :=
  let targets := handle_targets handle
  if targets.isEmpty then true
  else listing.any fun set =>
    set.1 == SET_NAME && (set.2.getD []).any fun e =>
      match listed_parts e with
      | some parts => targets.any (fun t => t == parts)
      | none => false

/-- The deletion of one entry. -/
def delete_entry : List (List Char) → Option Command
  | [ip, proto, port] => (parse_u16 port).map fun port =>
      .deleteElement TABLE_NAME SET_NAME
        [.concat [.string (String.ofList ip), .string (String.ofList proto),
          .number port.toUInt32]]
  | _ => none

/-- One deletion for each entry; a malformed entry gives up. -/
def delete_entries : List (List (List Char)) → Option (List Command)
  | [] => some []
  | entry :: rest =>
      match delete_entry entry, delete_entries rest with
      | some c, some cs => some (c :: cs)
      | _, _ => none

/-- The deletions of all entries, or none. -/
def delete_batch (handle : RuleHandle) : Option (List Command) :=
  delete_entries (handle_entries handle)

/-- A refused batch is reported as a missing rule when its text says so, or when the
    text is empty and the listing shows none of the elements. -/
def removal_error (a : Applier) (handle : RuleHandle) : FirewallError → FirewallError
  | .backend msg =>
      if stderr_indicates_missing_element msg then .ruleNotFound handle.id
      else if backend_has_empty_stderr msg then
        match a.get_current with
        | .ok listing =>
            if handle_has_present_elements handle listing then .backend msg
            else .ruleNotFound handle.id
        | .error _ => .backend msg
      else .backend msg
  | e => e

/-- Deletes the elements a handle names. -/
def remove_rule (a : Applier) (handle : RuleHandle) (b : NftablesBackend) :
    Except FirewallError Unit × NftablesBackend :=
  match assert_initialized b "remove_rule" with
  | .error e => (.error e, b)
  | .ok _ =>
      match delete_batch handle with
      | none => (.error (.ruleNotFound handle.id), b)
      | some batch =>
          match a.apply R batch b.kernel with
          | .ok kernel => (.ok (), { b with kernel })
          | .error e => (.error (removal_error a handle e), b)

/-- Errors are ignored, so that flushing twice is harmless. -/
def flush (a : Applier) (b : NftablesBackend) : NftablesBackend :=
  match a.apply R [.deleteTable TABLE_NAME] b.kernel with
  | .ok kernel => ⟨false, kernel⟩
  | .error _ => { b with initialized := false }

/-! ## Runs -/

/-- A call of the backend, or the kernel's own expiry. -/
inductive FirewallOp where
  | init (a : Applier)
  | openAccess (a : Applier) (rule : AccessRule)
  | removeRule (a : Applier) (handle : RuleHandle)
  | flush (a : Applier)
  /-- The kernel drops an element whose timeout ran out. -/
  | expire (key : List (Value Ipv4Addr Protocol))

/-- One operation, its answer dropped. -/
def run_op : FirewallOp → NftablesBackend → NftablesBackend
  | .init a, b => (init R a b).2
  | .openAccess a rule, b => (open_access R a rule b).2
  | .removeRule a handle, b => (remove_rule R a handle b).2
  | .flush a, b => flush R a b
  | .expire key, b => { b with kernel := expire b.kernel TABLE_NAME SET_NAME key }

/-- A run of operations. -/
def run_firewall : List FirewallOp → NftablesBackend → NftablesBackend
  | [], b => b
  | o :: ops, b => run_firewall ops (run_op R o b)

/-- No table yet. -/
def fresh_backend : NftablesBackend := ⟨false, ∅⟩

/-- Is `(saddr, l4proto, dport)` of the packet in the allow set? -/
def NftablesBackend.allows (b : NftablesBackend) (p : Packet Ipv4Addr Protocol) : Bool :=
  match b.kernel.lookup TABLE_NAME with
  | none => false
  | some T =>
      match T.sets.lookup SET_NAME with
      | none => false
      | some S => S.has [.addr p.saddr, .proto p.l4proto, .port p.dport]

/-! ## The table is transparent -/

variable {R}

/-- A batch that goes through keeps what every command of it keeps. -/
theorem applier_accepting {a : Applier} {batch : List Command}
    {kernel kernel' : Ruleset Ipv4Addr Protocol} (hb : ∀ c ∈ batch, c.Accepting)
    (h : Accepting kernel) (ha : a.apply R batch kernel = .ok kernel') : Accepting kernel' := by
  unfold Applier.apply at ha
  cases hf : a.fails with
  | some msg => simp [hf] at ha
  | none =>
      cases hk : Netfilter.apply R kernel batch with
      | none => simp [hf, hk] at ha
      | some k =>
          simp only [hf, hk, Except.ok.injEq] at ha
          exact accepting_apply hb h (ha ▸ hk)

/-- The start only ever accepts. -/
theorem init_batch_accepting : ∀ c ∈ init_batch, c.Accepting := by
  intro c hc
  simp only [init_batch, List.mem_cons, List.not_mem_nil, or_false] at hc
  rcases hc with rfl | rfl | rfl | rfl
  · trivial
  · trivial
  · rfl
  · simp [Command.Accepting]

/-- So do the elements of a rule. -/
theorem element_add_accepting {ipv4 : Ipv4Addr} {timeout : UInt32} {ports : List PortProto} :
    ∀ c ∈ ports.map (element_add ipv4 timeout), c.Accepting := by
  intro c hc
  obtain ⟨pp, _, rfl⟩ := List.mem_map.mp hc
  trivial

/-- What holds of every deletion from the allow set holds of a handle's batch. -/
theorem delete_entries_all {P : Command → Prop}
    (hP : ∀ es, P (.deleteElement TABLE_NAME SET_NAME es)) {entries : List (List (List Char))}
    {batch : List Command} (h : delete_entries entries = some batch) : ∀ c ∈ batch, P c := by
  induction entries generalizing batch with
  | nil =>
      cases h
      exact fun c hc => nomatch hc
  | cons entry rest ih =>
      simp only [delete_entries] at h
      cases he : delete_entry entry with
      | none => simp [he] at h
      | some c =>
          cases hr : delete_entries rest with
          | none => simp [he, hr] at h
          | some cs =>
              simp only [he, hr, Option.some.injEq] at h
              subst h
              intro d hd
              rcases List.mem_cons.mp hd with rfl | hd
              · simp only [delete_entry] at he
                split at he
                · obtain ⟨n, _, rfl⟩ := Option.map_eq_some_iff.mp he
                  exact hP _
                · cases he
              · exact ih hr d hd

/-- An opening leaves the backend alone, or submits the elements of the rule. -/
theorem open_access_cases (a : Applier) (rule : AccessRule) (b : NftablesBackend) :
    (open_access R a rule b).2 = b
      ∨ ∃ ipv4 kernel, a.apply R (rule.ports.map (element_add ipv4 (timeout_secs rule.timeout)))
          b.kernel = .ok kernel ∧ (open_access R a rule b).2 = { b with kernel } := by
  simp only [open_access]
  cases assert_initialized b "open_access" with
  | error e => exact .inl rfl
  | ok u =>
      cases rule.source_ip with
      | v6 ip => exact .inl rfl
      | v4 ip =>
          dsimp only
          cases h : a.apply R (rule.ports.map (element_add ip (timeout_secs rule.timeout)))
              b.kernel with
          | error e => exact .inl rfl
          | ok kernel => exact .inr ⟨ip, kernel, h, rfl⟩

/-- A removal leaves it alone, or submits the deletions of the handle. -/
theorem remove_rule_cases (a : Applier) (handle : RuleHandle) (b : NftablesBackend) :
    (remove_rule R a handle b).2 = b
      ∨ ∃ batch kernel, delete_batch handle = some batch
          ∧ a.apply R batch b.kernel = .ok kernel
          ∧ (remove_rule R a handle b).2 = { b with kernel } := by
  simp only [remove_rule]
  cases assert_initialized b "remove_rule" with
  | error e => exact .inl rfl
  | ok u =>
      dsimp only
      cases hb : delete_batch handle with
      | none => exact .inl rfl
      | some batch =>
          dsimp only
          cases h : a.apply R batch b.kernel with
          | error e => exact .inl rfl
          | ok kernel => exact .inr ⟨batch, kernel, rfl, h, rfl⟩

/-- The kernel is as before, or one accepting batch went through. -/
def Submitted (R : Reader Ipv4Addr Protocol) (kernel kernel' : Ruleset Ipv4Addr Protocol) : Prop :=
  kernel' = kernel
    ∨ ∃ a batch, (∀ c ∈ batch, c.Accepting) ∧ Applier.apply R a batch kernel = .ok kernel'

/-- The start submits one batch. -/
theorem init_submitted (a : Applier) (b : NftablesBackend) :
    Submitted R b.kernel (init R a b).2.kernel := by
  unfold init
  cases h : a.apply R init_batch b.kernel with
  | error e => exact .inl rfl
  | ok kernel => exact .inr ⟨a, init_batch, init_batch_accepting, h⟩

/-- So does opening a rule. -/
theorem open_access_submitted (a : Applier) (rule : AccessRule) (b : NftablesBackend) :
    Submitted R b.kernel (open_access R a rule b).2.kernel := by
  rcases open_access_cases a rule b with h | ⟨ipv4, kernel, ha, h⟩
  · exact .inl (congrArg NftablesBackend.kernel h)
  · rw [h]
    exact .inr ⟨a, _, element_add_accepting, ha⟩

/-- So does removing one. -/
theorem remove_rule_submitted (a : Applier) (handle : RuleHandle) (b : NftablesBackend) :
    Submitted R b.kernel (remove_rule R a handle b).2.kernel := by
  rcases remove_rule_cases a handle b with h | ⟨batch, kernel, hb, ha, h⟩
  · exact .inl (congrArg NftablesBackend.kernel h)
  · rw [h]
    exact .inr ⟨a, batch, delete_entries_all (fun _ => trivial) hb, ha⟩

/-- And so does the flush. -/
theorem flush_submitted (a : Applier) (b : NftablesBackend) :
    Submitted R b.kernel (flush R a b).kernel := by
  unfold flush
  cases h : a.apply R [.deleteTable TABLE_NAME] b.kernel with
  | error e => exact .inl rfl
  | ok kernel =>
      refine .inr ⟨a, [.deleteTable TABLE_NAME], ?_, h⟩
      intro c hc
      rw [List.mem_singleton.mp hc]
      trivial

/-- One batch of accepting commands leaves an accepting ruleset. -/
theorem Submitted.accepting {kernel kernel' : Ruleset Ipv4Addr Protocol}
    (hs : Submitted R kernel kernel') (h : Accepting kernel) : Accepting kernel' := by
  rcases hs with hk | ⟨a, batch, hb, ha⟩
  · rw [hk]
    exact h
  · exact applier_accepting hb h ha

/-- **EVERY STEP KEEPS THE TABLE WITHOUT A DROP.** -/
theorem accepting_step (o : FirewallOp) {b : NftablesBackend} (h : Accepting b.kernel) :
    Accepting (run_op R o b).kernel := by
  cases o with
  | init a => exact (init_submitted a b).accepting h
  | openAccess a rule => exact (open_access_submitted a rule b).accepting h
  | removeRule a handle => exact (remove_rule_submitted a handle b).accepting h
  | flush a => exact (flush_submitted a b).accepting h
  | expire key => exact accepting_expire h

/-- **NO OPERATION DENIES**: the ruleset stays accepting along every run. -/
theorem accepting_run (ops : List FirewallOp) {b : NftablesBackend} (h : Accepting b.kernel) :
    Accepting (run_firewall R ops b).kernel := by
  induction ops generalizing b with
  | nil => exact h
  | cons o ops ih => exact ih (accepting_step o h)

/-- **THE TABLE CHANGES NOTHING**: in every state the backend can reach and in every
    order of the chains, a packet is dropped iff the rest of the host drops it. -/
theorem dropped_iff_host {host chains : List (Packet Ipv4Addr Protocol → Verdict)}
    (ops : List FirewallOp) (p : Packet Ipv4Addr Protocol)
    (hperm : chains.Perm (host ++ inputChains (run_firewall R ops fresh_backend).kernel)) :
    traverse chains p = .drop ↔ traverse host p = .drop := by
  have hfresh : Accepting fresh_backend.kernel := fun _ _ hl => nomatch hl
  exact traverse_of_accepting hperm (inputChains_of_accepting (accepting_run ops hfresh) p)

/-- **WHEN THE ALLOW SET DECIDES**: on a host that denies the packet, in every reachable
    state, the packet is delivered exactly when it is in the set iff it is not in the
    set. -/
theorem allow_set_decides_iff (R : Reader Ipv4Addr Protocol)
    {host chains : List (Packet Ipv4Addr Protocol → Verdict)} (ops : List FirewallOp)
    {p : Packet Ipv4Addr Protocol} (hdeny : traverse host p = .drop)
    (hperm : chains.Perm (host ++ inputChains (run_firewall R ops fresh_backend).kernel)) :
    (traverse chains p = .accept ↔ (run_firewall R ops fresh_backend).allows p = true)
      ↔ (run_firewall R ops fresh_backend).allows p = false := by
  have hdrop := (dropped_iff_host ops p hperm).mpr hdeny
  rw [hdrop]
  cases (run_firewall R ops fresh_backend).allows p <;> simp

/-- An applier that does what it is asked. -/
def quietApplier : Applier := ⟨none, "", .ok []⟩

/-- The reader on the texts of the run below. -/
def sampleReader : Reader Ipv4Addr Protocol where
  addr s := if s = "192.0.2.7" then some sampleIp else none
  proto s := if s = "tcp" then some .tcp else if s = "udp" then some .udp else none

/-- Start, then open ssh for 192.0.2.7. -/
def sshOps : List FirewallOp :=
  [.init quietApplier,
    .openAccess quietApplier ⟨.v4 sampleIp, [⟨.tcp, 22⟩], .from_secs 30, "fwknox:alice:1"⟩]

/-- A host whose only chain denies everything. -/
def denyAll : List (Packet Ipv4Addr Protocol → Verdict) := [fun _ => .drop]

/-- Port 80 is neither allowed nor let through a chain that denies all. -/
theorem http_denied_and_not_allowed :
    (run_firewall sampleReader sshOps fresh_backend).allows ⟨#v[192, 0, 2, 7], .tcp, 80⟩ = false
      ∧ (traverse (denyAll ++ inputChains
            (run_firewall sampleReader sshOps fresh_backend).kernel) ⟨#v[192, 0, 2, 7], .tcp, 80⟩
              = .accept
          ↔ (run_firewall sampleReader sshOps fresh_backend).allows ⟨#v[192, 0, 2, 7], .tcp, 80⟩
              = true) := by
  have hnot : (run_firewall sampleReader sshOps fresh_backend).allows
      ⟨#v[192, 0, 2, 7], .tcp, 80⟩ = false := by decide +kernel
  exact ⟨hnot, (allow_set_decides_iff sampleReader sshOps rfl (.refl _)).mpr hnot⟩

/-- The granted packet is in the set and still denied. -/
theorem ssh_allowed_and_still_denied :
    (run_firewall sampleReader sshOps fresh_backend).allows ⟨#v[192, 0, 2, 7], .tcp, 22⟩ = true
      ∧ traverse denyAll ⟨#v[192, 0, 2, 7], .tcp, 22⟩ = .drop
      ∧ traverse (denyAll ++ inputChains
          (run_firewall sampleReader sshOps fresh_backend).kernel) ⟨#v[192, 0, 2, 7], .tcp, 22⟩
            ≠ .accept := by
  refine ⟨by decide +kernel, rfl, ?_⟩
  exact fun h => nomatch h

end FwknoxNft
