import Fwknox.NftProofs
import Fwknox.AddrProofs

/-! # Removal — what a handle undoes

    `remove_rule` of `nftables.rs` knows a rule only by the text of its handle.  The text
    is split and read back into exactly the elements that were added
    (`delete_batch_handle`), and they are deleted in one batch.

    Route:
    * `open_access_spec`, `remove_rule_spec` — both calls as operations on the content of
      the allow set;
    * `removal_undoes_iff` — removal undoes an opening iff the rule has a port and none
      twice: an empty handle is not one, and a repeated element is gone the second time;
    * `not_found_truthful_iff` — `RuleNotFound` says only that the batch was refused with
      a text that blames a missing element, or with none at all: the listing that should
      settle the second case is compared with bare concatenations, and live elements
      are never listed in that shape (`elem_never_present`). -/

namespace FwknoxRemoval

open FwknoxTypes FwknoxWorld FwknoxNft FwknoxAddr Netfilter PlainText

/-- nft reads the texts the backend prints. -/
structure ReaderLaws (R : Reader Ipv4Addr Protocol) : Prop where
  addr : ∀ a : Ipv4Addr, R.addr a.to_string = some a
  proto : ∀ q : Protocol, R.proto q.to_string = some q

/-! ## Handles -/

/-- The handle of an opening. -/
def handle_of (ipv4 : Ipv4Addr) (ports : List PortProto) : RuleHandle :=
  ⟨",".intercalate (ports.map (handle_part ipv4))⟩

/-- The three texts of one part. -/
def part_texts (ipv4 : Ipv4Addr) (pp : PortProto) : List (List Char) :=
  [ipv4.to_string.toList, pp.proto.to_string.toList, decimal pp.port.toNat]

theorem handle_part_toList (ipv4 : Ipv4Addr) (pp : PortProto) :
    (handle_part ipv4 pp).toList = ['/'].intercalate (part_texts ipv4 pp) := by
  simp [handle_part, part_texts, List.intercalate, decimal]

theorem mem_ipv4_text {ipv4 : Ipv4Addr} {c : Char} (h : c ∈ ipv4.to_string.toList) :
    c.isDigit = true ∨ c = '.' := by
  obtain ⟨b0, b1, b2, b3, rfl⟩ := exists_octets ipv4
  have hdigits : ∀ n, c ∈ Nat.toDigits 10 n → c.isDigit = true :=
    fun n hn => isDigit_of_mem_decimal hn
  simp only [ipv4_text, List.mem_append, List.mem_cons] at h
  rcases h with h | h | h | h | h | h | h
  · exact .inl (hdigits _ h)
  · exact .inr h
  · exact .inl (hdigits _ h)
  · exact .inr h
  · exact .inl (hdigits _ h)
  · exact .inr h
  · exact .inl (hdigits _ h)

/-- Neither separator occurs in a text it separates. -/
theorem separator_not_mem {sep : Char} (hsep : sep = ',' ∨ sep = '/') {ipv4 : Ipv4Addr}
    {pp : PortProto} : ∀ t ∈ part_texts ipv4 pp, sep ∉ t := by
  have hdigit : ¬sep.isDigit = true := by
    rcases hsep with rfl | rfl
    · decide
    · decide
  have hdot : sep ≠ '.' := by
    rcases hsep with rfl | rfl
    · decide
    · decide
  have hproto : ∀ q : Protocol, sep ∉ q.to_string.toList := by
    rcases hsep with rfl | rfl
    · intro q
      cases q <;> decide
    · intro q
      cases q <;> decide
  intro t ht hmem
  simp only [part_texts, List.mem_cons, List.not_mem_nil, or_false] at ht
  rcases ht with rfl | rfl | rfl
  · rcases mem_ipv4_text hmem with hd | hd
    · exact hdigit hd
    · exact hdot hd
  · exact hproto pp.proto hmem
  · exact hdigit (isDigit_of_mem_decimal hmem)

theorem comma_not_mem_part (ipv4 : Ipv4Addr) (pp : PortProto) :
    ',' ∉ (handle_part ipv4 pp).toList := by
  have hmem : ∀ t ∈ part_texts ipv4 pp, ',' ∉ t := separator_not_mem (.inl rfl)
  simp only [part_texts, List.mem_cons, List.not_mem_nil, or_false, forall_eq_or_imp,
    forall_eq] at hmem
  obtain ⟨hip, hproto, hport⟩ := hmem
  simp [handle_part_toList, part_texts, List.intercalate, hip, hproto, hport]

/-- **THE HANDLE READS BACK**: its entries are the texts of the parts, in order. -/
theorem handle_entries_handle (ipv4 : Ipv4Addr) {ports : List PortProto} (hports : ports ≠ []) :
    handle_entries (handle_of ipv4 ports) = ports.map (part_texts ipv4) := by
  have hsplit : ((handle_of ipv4 ports).id.toList).splitOn ','
      = ports.map fun pp => (handle_part ipv4 pp).toList := by
    simp only [handle_of, String.toList_intercalate, List.map_map]
    refine List.splitOn_intercalate ',' ?_ (by simpa using hports)
    intro l hl
    obtain ⟨pp, _, rfl⟩ := List.mem_map.mp hl
    exact comma_not_mem_part ipv4 pp
  rw [handle_entries, hsplit, List.map_map]
  refine List.map_congr_left fun pp _ => ?_
  show List.splitOn '/' (handle_part ipv4 pp).toList = part_texts ipv4 pp
  rw [handle_part_toList]
  exact List.splitOn_intercalate '/' (separator_not_mem (.inr rfl)) (List.cons_ne_nil _ _)

/-- The deletion of one port's element. -/
def element_delete (ipv4 : Ipv4Addr) (pp : PortProto) : Command :=
  .deleteElement TABLE_NAME SET_NAME
    [.concat [.string ipv4.to_string, .string pp.proto.to_string, .number pp.port.toUInt32]]

theorem delete_entry_part (ipv4 : Ipv4Addr) (pp : PortProto) :
    delete_entry (part_texts ipv4 pp) = some (element_delete ipv4 pp) := by
  simp only [part_texts, delete_entry, parse_u16_decimal, Option.map_some, String.ofList_toList,
    element_delete]

theorem delete_entries_parts (ipv4 : Ipv4Addr) (ports : List PortProto) :
    delete_entries (ports.map (part_texts ipv4)) = some (ports.map (element_delete ipv4)) := by
  induction ports with
  | nil => rfl
  | cons pp ports ih => simp only [List.map_cons, delete_entries, delete_entry_part, ih]

theorem delete_batch_handle (ipv4 : Ipv4Addr) {ports : List PortProto} (hports : ports ≠ []) :
    delete_batch (handle_of ipv4 ports) = some (ports.map (element_delete ipv4)) := by
  rw [delete_batch, handle_entries_handle ipv4 hports, delete_entries_parts]

/-- No port, no entry: the empty text is one malformed part. -/
theorem delete_batch_empty (ipv4 : Ipv4Addr) : delete_batch (handle_of ipv4 []) = none := rfl

/-! ## The calls as operations on the allow set -/

/-- The type of the allow set. -/
def allow_type : List SetType := [.ipv4Addr, .inetProto, .inetService]

/-- The key of one port's element. -/
def element_key (ipv4 : Ipv4Addr) (pp : PortProto) : List (Value Ipv4Addr Protocol) :=
  [.addr ipv4, .proto pp.proto, .port pp.port]

theorem element_key_injective (ipv4 : Ipv4Addr) : Function.Injective (element_key ipv4) := by
  rintro ⟨q, n⟩ ⟨q', n'⟩ h
  simp only [element_key, List.cons.injEq, Value.proto.injEq, Value.port.injEq, and_true,
    true_and] at h
  rw [h.1, h.2]

/-- The backend is initialized and its allow set is `S`. -/
structure Ready (b : NftablesBackend) (S : SetState Ipv4Addr Protocol) : Prop where
  initialized : b.initialized = true
  set : setState b.kernel TABLE_NAME SET_NAME = some S
  set_type : S.set_type = allow_type

variable {R : Reader Ipv4Addr Protocol}

/-- The allow set has the type `init` declares, if it is there at all, and it is there
    once the backend is initialized. -/
structure Declared (b : NftablesBackend) : Prop where
  set_type : ∀ ty, setType b.kernel TABLE_NAME SET_NAME = some ty → ty = allow_type
  present : b.initialized = true → setType b.kernel TABLE_NAME SET_NAME = some allow_type

theorem applier_eq_ok_iff {a : Applier} {batch : List Command}
    {kernel kernel' : Ruleset Ipv4Addr Protocol} :
    a.apply R batch kernel = .ok kernel'
      ↔ a.fails = none ∧ Netfilter.apply R kernel batch = some kernel' := by
  simp only [Applier.apply]
  cases a.fails with
  | some msg => simp
  | none => cases Netfilter.apply R kernel batch <;> simp

/-- A batch that declares and deletes nothing keeps it so. -/
theorem Declared.submit {a : Applier} {b : NftablesBackend} {batch : List Command}
    {kernel : Ruleset Ipv4Addr Protocol} (h : Declared b) (hbatch : ∀ c ∈ batch, c.KeepsSets)
    (ha : a.apply R batch b.kernel = .ok kernel) : Declared { b with kernel } := by
  have hty := setType_apply hbatch (applier_eq_ok_iff.mp ha).2 TABLE_NAME SET_NAME
  refine ⟨?_, ?_⟩
  · intro ty hk
    exact h.set_type ty (hty ▸ hk)
  · intro hinit
    exact hty.trans (h.present hinit)

/-- `init` declares the set, unless it is there. -/
theorem setType_init {kernel kernel' : Ruleset Ipv4Addr Protocol}
    (hold : ∀ ty, setType kernel TABLE_NAME SET_NAME = some ty → ty = allow_type)
    (h : Netfilter.apply R kernel init_batch = some kernel') :
    setType kernel' TABLE_NAME SET_NAME = some allow_type := by
  obtain ⟨k₁, htable, h⟩ := apply_cons_eq_some.mp h
  obtain ⟨k₂, hset, h⟩ := apply_cons_eq_some.mp h
  have hrest := setType_apply ?_ h TABLE_NAME SET_NAME
  · rw [hrest, setType_add_set hset, setType_applyOne (by trivial) htable]
    cases hty : setType kernel TABLE_NAME SET_NAME with
    | none => rfl
    | some ty => rw [hold ty hty, Option.getD_some]
  · intro c hc
    simp only [List.mem_cons, List.not_mem_nil, or_false] at hc
    rcases hc with rfl | rfl
    · trivial
    · trivial

theorem declared_step (o : FirewallOp) {b : NftablesBackend} (h : Declared b) :
    Declared (run_op R o b) := by
  cases o with
  | init a =>
      simp only [run_op, init]
      cases ha : a.apply R init_batch b.kernel with
      | error e => exact h
      | ok kernel =>
          have hty := setType_init h.set_type (applier_eq_ok_iff.mp ha).2
          refine ⟨?_, fun _ => hty⟩
          intro ty hk
          exact Option.some.inj (hk.symm.trans hty)
  | openAccess a rule =>
      rcases open_access_cases a rule b with hb | ⟨ipv4, kernel, ha, hb⟩
      · rw [run_op, hb]
        exact h
      · rw [run_op, hb]
        refine h.submit ?_ ha
        intro c hc
        obtain ⟨pp, _, rfl⟩ := List.mem_map.mp hc
        trivial
  | removeRule a handle =>
      rcases remove_rule_cases a handle b with hb | ⟨batch, kernel, hbatch, ha, hb⟩
      · rw [run_op, hb]
        exact h
      · rw [run_op, hb]
        exact h.submit (delete_entries_all (fun _ => trivial) hbatch) ha
  | flush a =>
      -- the flag goes down even when the table stays, so only the type is left to show
      simp only [run_op, flush]
      cases ha : a.apply R [.deleteTable TABLE_NAME] b.kernel with
      | error e => exact ⟨h.set_type, fun hinit => nomatch hinit⟩
      | ok kernel =>
          refine ⟨?_, fun hinit => nomatch hinit⟩
          intro ty hk
          rw [setType_deleteTable (applier_eq_ok_iff.mp ha).2] at hk
          cases hk
  | expire key =>
      -- an element goes, its set stays
      have hty := setType_expire b.kernel TABLE_NAME SET_NAME key TABLE_NAME SET_NAME
      refine ⟨?_, ?_⟩
      · intro ty hk
        exact h.set_type ty (hty ▸ hk)
      · intro hinit
        exact hty.trans (h.present hinit)

theorem declared_run (ops : List FirewallOp) {b : NftablesBackend} (h : Declared b) :
    Declared (run_firewall R ops b) := by
  induction ops generalizing b with
  | nil => exact h
  | cons o ops ih => exact ih (declared_step o h)

/-- **AN INITIALIZED BACKEND IS READY**, in every state it can reach. -/
theorem ready_of_run (ops : List FirewallOp)
    (hinit : (run_firewall R ops fresh_backend).initialized = true) :
    ∃ S, Ready (run_firewall R ops fresh_backend) S := by
  have hfresh : Declared fresh_backend := ⟨fun _ h => (nomatch h), fun h => nomatch h⟩
  obtain ⟨S, hS, hty⟩ := Option.map_eq_some_iff.mp ((declared_run ops hfresh).present hinit)
  exact ⟨S, hinit, hS, hty⟩

theorem ReaderLaws.values (L : ReaderLaws R) (ipv4 : Ipv4Addr) (pp : PortProto) :
    R.values allow_type
        [.string ipv4.to_string, .string pp.proto.to_string, .number pp.port.toUInt32]
      = some (element_key ipv4 pp) := by
  have hlt : pp.port.toUInt32.toNat < 65536 := by
    rw [UInt16.toNat_toUInt32]
    exact pp.port.toNat_lt
  have hport : pp.port.toUInt32.toUInt16 = pp.port := UInt16.toUInt16_toUInt32 pp.port
  simp only [allow_type, Reader.values, Reader.value, L.addr, L.proto, Option.map_some, if_pos hlt,
    hport, element_key]

/-- One addition is the addition of its key. -/
theorem addAll_element (L : ReaderLaws R) {S : SetState Ipv4Addr Protocol}
    (hty : S.set_type = allow_type) (ipv4 : Ipv4Addr) (timeout : UInt32) (pp : PortProto) :
    S.addAll R [.elem (.concat [.string ipv4.to_string, .string pp.proto.to_string,
        .number pp.port.toUInt32]) (some timeout)]
      = some (S.add (element_key ipv4 pp, some timeout)) := by
  simp only [SetState.addAll, hty, Reader.element, L.values, Option.map_some]

theorem add_set_type (S : SetState Ipv4Addr Protocol)
    (e : List (Value Ipv4Addr Protocol) × Option UInt32) : (S.add e).set_type = S.set_type :=
  SetState.set_type_addKeys [e.1] S e.2

/-- One deletion is the deletion of its key. -/
theorem deleteAll_element (L : ReaderLaws R) {S : SetState Ipv4Addr Protocol}
    (hty : S.set_type = allow_type) (ipv4 : Ipv4Addr) (pp : PortProto) :
    S.deleteAll R [.concat [.string ipv4.to_string, .string pp.proto.to_string,
        .number pp.port.toUInt32]]
      = S.delete (element_key ipv4 pp) := by
  simp only [SetState.deleteAll, hty, Reader.element, L.values, Option.map_some, SetState.delete]

theorem apply_adds (L : ReaderLaws R) (ipv4 : Ipv4Addr) (timeout : UInt32)
    (ports : List PortProto) {kernel : Ruleset Ipv4Addr Protocol}
    {S : SetState Ipv4Addr Protocol} (hS : setState kernel TABLE_NAME SET_NAME = some S)
    (hty : S.set_type = allow_type) :
    (Netfilter.apply R kernel (ports.map (element_add ipv4 timeout))).map
        (fun k => setState k TABLE_NAME SET_NAME)
      = some (some (S.addKeys (some timeout) (ports.map (element_key ipv4)))) := by
  refine (apply_changes (fun _ _ => rfl) ports hS).trans ?_
  clear hS
  induction ports generalizing S with
  | nil => rfl
  | cons pp ports ih =>
      rw [List.foldlM_cons, addAll_element L hty]
      exact ih ((add_set_type S _).trans hty)

theorem apply_deletes (L : ReaderLaws R) (ipv4 : Ipv4Addr) (ports : List PortProto)
    {kernel : Ruleset Ipv4Addr Protocol} {S : SetState Ipv4Addr Protocol}
    (hS : setState kernel TABLE_NAME SET_NAME = some S) (hty : S.set_type = allow_type) :
    (Netfilter.apply R kernel (ports.map (element_delete ipv4))).map
        (fun k => setState k TABLE_NAME SET_NAME)
      = ((ports.map (element_key ipv4)).foldlM SetState.delete S).map some := by
  refine (apply_changes (fun _ _ => rfl) ports hS).trans ?_
  clear hS
  induction ports generalizing S with
  | nil => rfl
  | cons pp ports ih =>
      rw [List.map_cons, List.foldlM_cons, List.foldlM_cons, deleteAll_element L hty]
      cases hd : S.delete (element_key ipv4 pp) with
      | none => rfl
      | some S' =>
          refine ih ?_
          simp only [SetState.delete] at hd
          split at hd
          · cases hd
            exact hty
          · cases hd

theorem applier_eq_error {a : Applier} {batch : List Command}
    {kernel : Ruleset Ipv4Addr Protocol}
    (h : ¬∃ kernel', a.apply R batch kernel = .ok kernel') :
    a.apply R batch kernel = .error (.backend (a.fails.getD a.refused)) := by
  simp only [applier_eq_ok_iff] at h
  simp only [Applier.apply]
  cases hf : a.fails with
  | some msg => rfl
  | none =>
      cases hk : Netfilter.apply R kernel batch with
      | some k => exact absurd ⟨k, hf, hk⟩ h
      | none => rfl

/-- A handle comes only from an IPv4 rule, and is the handle of its ports. -/
theorem open_access_handle {a : Applier} {rule : AccessRule} {b b' : NftablesBackend}
    {h : RuleHandle} (ho : open_access R a rule b = (.ok h, b')) :
    ∃ ipv4, rule.source_ip = .v4 ipv4 ∧ h = handle_of ipv4 rule.ports := by
  simp only [open_access] at ho
  split at ho
  · cases ho
  · split at ho
    · cases ho
    · rename_i ipv4 hip
      split at ho
      · cases ho
      · cases ho
        exact ⟨ipv4, hip, rfl⟩

/-- **OPENING ADDS THE RULE'S KEYS.** -/
theorem open_access_spec (L : ReaderLaws R) {a : Applier} {rule : AccessRule} {ipv4 : Ipv4Addr}
    (hip : rule.source_ip = .v4 ipv4) {b b' : NftablesBackend} {S : SetState Ipv4Addr Protocol}
    (hb : Ready b S) {h : RuleHandle} (ho : open_access R a rule b = (.ok h, b')) :
    Ready b' (S.addKeys (some (timeout_secs rule.timeout))
      (rule.ports.map (element_key ipv4))) := by
  simp only [open_access, assert_initialized, hb.initialized, if_true, hip] at ho
  cases hk : a.apply R (rule.ports.map (element_add ipv4 (timeout_secs rule.timeout)))
      b.kernel with
  | error e =>
      rw [hk] at ho
      cases ho
  | ok kernel =>
      rw [hk] at ho
      cases ho
      have hadds := apply_adds L ipv4 (timeout_secs rule.timeout) rule.ports hb.set hb.set_type
      rw [(applier_eq_ok_iff.mp hk).2] at hadds
      exact ⟨rfl, Option.some.inj hadds,
        (SetState.set_type_addKeys _ _ _).trans hb.set_type⟩

/-- The batch of deletions goes through. -/
structure Deletable (a : Applier) (S : SetState Ipv4Addr Protocol) (ipv4 : Ipv4Addr)
    (ports : List PortProto) : Prop where
  runs : a.fails = none
  present : ∀ pp ∈ ports, S.has (element_key ipv4 pp) = true
  once : ports.Nodup

section Removal

variable {a : Applier} {b : NftablesBackend} {S : SetState Ipv4Addr Protocol} {ipv4 : Ipv4Addr}
  {ports : List PortProto}

theorem deleteKeys_ports {S' : SetState Ipv4Addr Protocol} :
    (ports.map (element_key ipv4)).foldlM SetState.delete S = some S'
      ↔ (∀ pp ∈ ports, S.has (element_key ipv4 pp) = true) ∧ ports.Nodup
        ∧ S' = S.without (ports.map (element_key ipv4)) := by
  rw [SetState.deleteKeys_eq_some_iff, List.nodup_map_iff (element_key_injective ipv4),
    List.forall_mem_map]

/-- **REMOVAL**, when the batch goes through: the keys leave the set. -/
theorem remove_rule_of_deletable (L : ReaderLaws R) (hb : Ready b S) (hports : ports ≠ [])
    (hd : Deletable a S ipv4 ports) :
    ∃ b', remove_rule R a (handle_of ipv4 ports) b = (.ok (), b')
      ∧ Ready b' (S.without (ports.map (element_key ipv4))) := by
  have hdel := apply_deletes L ipv4 ports hb.set hb.set_type
  rw [deleteKeys_ports.mpr ⟨hd.present, hd.once, rfl⟩, Option.map_some] at hdel
  obtain ⟨kernel, hk, hset⟩ := Option.map_eq_some_iff.mp hdel
  have happ : a.apply R (ports.map (element_delete ipv4)) b.kernel = .ok kernel :=
    applier_eq_ok_iff.mpr ⟨hd.runs, hk⟩
  refine ⟨{ b with kernel }, ?_, hb.initialized, hset, hb.set_type⟩
  simp only [remove_rule, assert_initialized, hb.initialized, if_true,
    delete_batch_handle ipv4 hports, happ]

/-- When it does not, nothing changes and the error is classified by its text. -/
theorem remove_rule_of_not_deletable (L : ReaderLaws R) (hb : Ready b S) (hports : ports ≠ [])
    (hd : ¬Deletable a S ipv4 ports) :
    remove_rule R a (handle_of ipv4 ports) b
      = (.error (removal_error a (handle_of ipv4 ports) (.backend (a.fails.getD a.refused))),
          b) := by
  have happ : a.apply R (ports.map (element_delete ipv4)) b.kernel
      = .error (.backend (a.fails.getD a.refused)) := by
    refine applier_eq_error ?_
    rintro ⟨kernel, hk⟩
    obtain ⟨hf, hk⟩ := applier_eq_ok_iff.mp hk
    have hdel := apply_deletes L ipv4 ports hb.set hb.set_type
    rw [hk, Option.map_some] at hdel
    obtain ⟨S', hS', _⟩ := Option.map_eq_some_iff.mp hdel.symm
    obtain ⟨hall, hnd, _⟩ := deleteKeys_ports.mp hS'
    exact hd ⟨hf, hall, hnd⟩
  simp only [remove_rule, assert_initialized, hb.initialized, if_true,
    delete_batch_handle ipv4 hports, happ]

theorem remove_rule_empty (hb : Ready b S) :
    remove_rule R a (handle_of ipv4 []) b = (.error (.ruleNotFound ""), b) := by
  simp only [remove_rule, assert_initialized, hb.initialized, if_true, delete_batch_empty]
  rfl

end Removal

/-! ## Removal undoes opening -/

/-- **WHEN REMOVAL UNDOES AN OPENING**: for every rule with an IPv4 source whose elements
    are not in the set, with nft running and no change in between, exactly when the rule
    has a port and no port twice. -/
theorem removal_undoes_iff {R : Reader Ipv4Addr Protocol} (L : ReaderLaws R)
    {b b' : NftablesBackend} {S : SetState Ipv4Addr Protocol} (hb : Ready b S) {rule : AccessRule}
    {ipv4 : Ipv4Addr} (hip : rule.source_ip = .v4 ipv4)
    (hnew : ∀ pp ∈ rule.ports, S.has (element_key ipv4 pp) = false) {a₀ a : Applier}
    {h : RuleHandle} (ho : open_access R a₀ rule b = (.ok h, b')) (hruns : a.fails = none) :
    ((remove_rule R a h b').1 = .ok ()
        ∧ setState (remove_rule R a h b').2.kernel TABLE_NAME SET_NAME = some S)
      ↔ rule.ports ≠ [] ∧ rule.ports.Nodup := by
  obtain ⟨ip, hip', rfl⟩ := open_access_handle ho
  cases hip.symm.trans hip'
  have hb' := open_access_spec L hip hb ho
  by_cases hports : rule.ports = []
  · rw [hports, remove_rule_empty hb']
    exact iff_of_false (fun h => nomatch h.1) (fun h => h.1 rfl)
  · have hpresent : ∀ pp ∈ rule.ports, (S.addKeys (some (timeout_secs rule.timeout))
        (rule.ports.map (element_key ipv4))).has (element_key ipv4 pp) = true :=
      fun pp hpp => SetState.has_addKeys.mpr (.inr (List.mem_map_of_mem hpp))
    by_cases hnd : rule.ports.Nodup
    · obtain ⟨b'', hrem, hb''⟩ := remove_rule_of_deletable L hb' hports ⟨hruns, hpresent, hnd⟩
      -- adding and taking out again: only what was there before stays
      have hback : (S.addKeys (some (timeout_secs rule.timeout))
          (rule.ports.map (element_key ipv4))).without (rule.ports.map (element_key ipv4)) = S := by
        rw [SetState.without_addKeys (List.Subset.refl _)]
        exact SetState.without_of_absent (List.forall_mem_map.mpr hnew)
      rw [hrem]
      exact iff_of_true ⟨rfl, hback ▸ hb''.set⟩ ⟨hports, hnd⟩
    · -- a second deletion of the same element fails the batch
      rw [remove_rule_of_not_deletable L hb' hports fun hd => hnd hd.once]
      exact iff_of_false (fun h => nomatch h.1) (fun h => hnd h.2)

/-- The reader of nft on the texts of the backend. -/
def textReader : Reader Ipv4Addr Protocol where
  addr s :=
    match parse_ip s with
    | some (.v4 a) => some a
    | _ => none
  proto s := if s = "tcp" then some .tcp else if s = "udp" then some .udp else none

theorem textReader_laws : ReaderLaws textReader where
  addr a := by
    have hread : parse_ip a.to_string = some (.v4 a) := ip_round_trip (.v4 a)
    simp only [textReader, hread]
  proto q := by cases q <;> rfl

/-- A backend right after `init`. -/
def startedBackend : NftablesBackend := (init textReader quietApplier fresh_backend).2

theorem startedBackend_ready : Ready startedBackend ⟨allow_type, []⟩ := ⟨rfl, rfl, rfl⟩

/-- alice's rule for the given ports. -/
def ruleFor (ports : List PortProto) : AccessRule :=
  ⟨.v4 sampleIp, ports, .from_secs 30, "fwknox:alice:1700000000"⟩

/-- Two ports, opened and removed again. -/
theorem two_ports_removed :
    (open_access textReader quietApplier (ruleFor [⟨.tcp, 22⟩, ⟨.udp, 53⟩]) startedBackend).1
        = .ok (handle_of sampleIp [⟨.tcp, 22⟩, ⟨.udp, 53⟩])
      ∧ (remove_rule textReader quietApplier (handle_of sampleIp [⟨.tcp, 22⟩, ⟨.udp, 53⟩])
          (open_access textReader quietApplier (ruleFor [⟨.tcp, 22⟩, ⟨.udp, 53⟩])
            startedBackend).2).1 = .ok ()
      ∧ setState (remove_rule textReader quietApplier
          (handle_of sampleIp [⟨.tcp, 22⟩, ⟨.udp, 53⟩])
          (open_access textReader quietApplier (ruleFor [⟨.tcp, 22⟩, ⟨.udp, 53⟩])
            startedBackend).2).2.kernel TABLE_NAME SET_NAME = some ⟨allow_type, []⟩ := by
  have hopen : (open_access textReader quietApplier (ruleFor [⟨.tcp, 22⟩, ⟨.udp, 53⟩])
      startedBackend).1 = .ok (handle_of sampleIp [⟨.tcp, 22⟩, ⟨.udp, 53⟩]) := by decide +kernel
  exact ⟨hopen, (removal_undoes_iff textReader_laws startedBackend_ready rfl (fun _ _ => rfl)
    (Prod.ext hopen rfl) rfl).mpr ⟨List.cons_ne_nil _ _, by decide⟩⟩

/-- A port asked for twice, and no port at all: both openings succeed and neither can be
    removed.  The first leaves its element in the set. -/
theorem openings_not_removable :
    (open_access textReader quietApplier (ruleFor [⟨.tcp, 22⟩, ⟨.tcp, 22⟩]) startedBackend).1
        = .ok ⟨"192.0.2.7/tcp/22,192.0.2.7/tcp/22"⟩
      ∧ (remove_rule textReader quietApplier ⟨"192.0.2.7/tcp/22,192.0.2.7/tcp/22"⟩
          (open_access textReader quietApplier (ruleFor [⟨.tcp, 22⟩, ⟨.tcp, 22⟩])
            startedBackend).2).1 ≠ .ok ()
      ∧ (remove_rule textReader quietApplier ⟨"192.0.2.7/tcp/22,192.0.2.7/tcp/22"⟩
          (open_access textReader quietApplier (ruleFor [⟨.tcp, 22⟩, ⟨.tcp, 22⟩])
            startedBackend).2).2.allows ⟨sampleIp, .tcp, 22⟩ = true
      ∧ (open_access textReader quietApplier (ruleFor []) startedBackend).1 = .ok ⟨""⟩
      ∧ (remove_rule textReader quietApplier ⟨""⟩
          (open_access textReader quietApplier (ruleFor []) startedBackend).2).1
        = .error (.ruleNotFound "") := by
  decide +kernel

/-! ## What `RuleNotFound` says -/

/-- The listing shows the live elements of the allow set, in the shape in which they were
    submitted. -/
structure ListsLive (R : Reader Ipv4Addr Protocol) (S : SetState Ipv4Addr Protocol)
    (listing : List (String × Option (List Expression))) : Prop where
  shape : ∀ set ∈ listing, set.1 = SET_NAME → ∀ e ∈ set.2.getD [],
    ∃ parts timeout, e = .elem (.concat parts) timeout
  live : ∀ el, el ∈ S.elements ↔ ∃ set ∈ listing, set.1 = SET_NAME
    ∧ ∃ e ∈ set.2.getD [], R.element S.set_type e = some el

/-- A handle with a port has a target. -/
theorem handle_targets_ne_nil (ipv4 : Ipv4Addr) {ports : List PortProto} (hports : ports ≠ []) :
    handle_targets (handle_of ipv4 ports) ≠ [] := by
  cases ports with
  | nil => exact absurd rfl hports
  | cons pp ports =>
      have hlt : pp.port.toNat < 2 ^ 32 := Nat.lt_trans pp.port.toNat_lt (by decide)
      have hport : parse_u32 (decimal pp.port.toNat) = some (.ofNat pp.port.toNat) := by
        rw [parse_u32, parse_unsigned_decimal hlt, Option.map_some]
      simp only [handle_targets, handle_entries_handle ipv4 hports, List.map_cons, part_texts,
        List.filterMap_cons, hport, Option.map_some]
      exact List.cons_ne_nil _ _

/-- **THE FALLBACK IS BLIND**: no live element is recognised, because none is listed as a
    bare concatenation. -/
theorem elem_never_present {S : SetState Ipv4Addr Protocol}
    {listing : List (String × Option (List Expression))} (hl : ListsLive R S listing)
    (ipv4 : Ipv4Addr) {ports : List PortProto} (hports : ports ≠ []) :
    handle_has_present_elements (handle_of ipv4 ports) listing = false := by
  have hne : (handle_targets (handle_of ipv4 ports)).isEmpty = false :=
    List.isEmpty_eq_false_iff.mpr (handle_targets_ne_nil ipv4 hports)
  simp only [handle_has_present_elements, hne, Bool.false_eq_true, if_false]
  refine List.any_eq_false.mpr ?_
  intro set hset hmatch
  obtain ⟨hname, hany⟩ := Bool.and_eq_true_iff.mp hmatch
  obtain ⟨e, he, hparts⟩ := List.any_eq_true.mp hany
  obtain ⟨parts, timeout, rfl⟩ := hl.shape set hset (beq_iff_eq.mp hname) e he
  cases hparts

/-- The text of the failure is taken to mean a missing element. -/
def Blamed (a : Applier) : Prop :=
  stderr_indicates_missing_element (a.fails.getD a.refused) = true
    ∨ backend_has_empty_stderr (a.fails.getD a.refused) = true
      ∧ ∃ listing, a.get_current = .ok listing

theorem removal_error_notFound_iff {a : Applier} {S : SetState Ipv4Addr Protocol}
    (hl : ∀ listing, a.get_current = .ok listing → ListsLive R S listing) (ipv4 : Ipv4Addr)
    {ports : List PortProto} (hports : ports ≠ []) :
    (∃ id, removal_error a (handle_of ipv4 ports) (.backend (a.fails.getD a.refused))
        = .ruleNotFound id) ↔ Blamed a := by
  simp only [removal_error, Blamed]
  by_cases hmissing : stderr_indicates_missing_element (a.fails.getD a.refused) = true
  · rw [if_pos hmissing]
    exact iff_of_true ⟨_, rfl⟩ (.inl hmissing)
  · rw [if_neg hmissing, or_iff_right hmissing]
    by_cases hempty : backend_has_empty_stderr (a.fails.getD a.refused) = true
    · rw [if_pos hempty, and_iff_right hempty]
      cases hcur : a.get_current with
      | error e =>
          refine iff_of_false ?_ ?_
          · rintro ⟨_, h⟩
            cases h
          · rintro ⟨_, h⟩
            cases h
      | ok listing =>
          simp only [elem_never_present (hl listing hcur) ipv4 hports, Bool.false_eq_true, if_false]
          exact iff_of_true ⟨_, rfl⟩ ⟨_, rfl⟩
    · rw [if_neg hempty]
      refine iff_of_false ?_ (fun h => hempty h.1)
      rintro ⟨_, h⟩
      cases h

/-- **WHEN `RuleNotFound` IS TRUE**: for every handle an opening returned, every content
    of the allow set and every error text, with live elements listed as they were
    submitted, the report excludes that an element is still there iff none is, or the
    batch goes through, or the text of the failure blames nothing. -/
theorem not_found_truthful_iff {R : Reader Ipv4Addr Protocol} (L : ReaderLaws R)
    {b₀ b₁ : NftablesBackend} {a₀ : Applier} {rule : AccessRule} {h : RuleHandle}
    (ho : open_access R a₀ rule b₀ = (.ok h, b₁)) {b : NftablesBackend}
    {S : SetState Ipv4Addr Protocol} (hb : Ready b S) {a : Applier}
    (hl : ∀ listing, a.get_current = .ok listing → ListsLive R S listing) :
    ∃ ipv4, rule.source_ip = .v4 ipv4
      ∧ (((∃ id, (remove_rule R a h b).1 = .error (.ruleNotFound id)) →
            ∀ pp ∈ rule.ports, S.has (element_key ipv4 pp) = false)
          ↔ (∀ pp ∈ rule.ports, S.has (element_key ipv4 pp) = false)
            ∨ Deletable a S ipv4 rule.ports ∨ ¬Blamed a) := by
  obtain ⟨ipv4, hip, rfl⟩ := open_access_handle ho
  refine ⟨ipv4, hip, ?_⟩
  by_cases hports : rule.ports = []
  · have hnone : ∀ pp ∈ rule.ports, S.has (element_key ipv4 pp) = false := by
      rw [hports]
      exact fun pp hpp => nomatch hpp
    exact iff_of_true (fun _ => hnone) (.inl hnone)
  · by_cases hd : Deletable a S ipv4 rule.ports
    · obtain ⟨b', hrem, _⟩ := remove_rule_of_deletable L hb hports hd
      refine iff_of_true ?_ (.inr (.inl hd))
      rintro ⟨id, hnf⟩
      rw [hrem] at hnf
      cases hnf
    · -- refused: the report depends on the text alone
      rw [remove_rule_of_not_deletable L hb hports hd]
      simp only [Except.error.injEq, removal_error_notFound_iff hl ipv4 hports, hd, false_or]
      exact imp_iff_or_not

/-- alice's element for a port, as it is listed. -/
def listed (pp : PortProto) : Expression :=
  .elem (.concat [.string (Ipv4Addr.to_string sampleIp), .string pp.proto.to_string,
    .number pp.port.toUInt32]) (some 30)

/-- alice's ports are open, for thirty seconds. -/
def openSet (ports : List PortProto) : SetState Ipv4Addr Protocol :=
  ⟨allow_type, ports.map fun pp => (element_key sampleIp pp, some 30)⟩

theorem listsLive_listed (ports : List PortProto) :
    ListsLive textReader (openSet ports) [(SET_NAME, some (ports.map listed))] := by
  have hread : ∀ pp, textReader.element allow_type (listed pp)
      = some (element_key sampleIp pp, some 30) := by
    intro pp
    simp only [listed, Reader.element, textReader_laws.values, Option.map_some]
  refine ⟨?_, ?_⟩
  · intro set hset _ e he
    cases List.mem_singleton.mp hset
    obtain ⟨pp, _, rfl⟩ := List.mem_map.mp he
    exact ⟨_, _, rfl⟩
  · intro el
    constructor
    · intro hel
      obtain ⟨pp, hpp, rfl⟩ := List.mem_map.mp hel
      exact ⟨_, List.mem_singleton_self _, rfl, listed pp, List.mem_map_of_mem hpp, hread pp⟩
    · rintro ⟨set, hset, _, e, he, hel⟩
      cases List.mem_singleton.mp hset
      obtain ⟨pp, hpp, rfl⟩ := List.mem_map.mp he
      cases (hread pp).symm.trans hel
      exact List.mem_map_of_mem hpp

/-- nft refuses a batch and says why. -/
def missingApplier (live : List PortProto) : Applier where
  fails := none
  refused := "Error: Could not process rule: No such file or directory"
  get_current := .ok [(SET_NAME, some (live.map listed))]

/-- nft fails without a word. -/
def silentApplier (live : List PortProto) : Applier where
  fails := some "nft failed while applying ruleset: stdout=\"\" stderr=\"\""
  refused := ""
  get_current := .ok [(SET_NAME, some (live.map listed))]

/-- Nothing is left of the rule, and the report is right. -/
theorem expired_rule_not_found :
    (remove_rule textReader (missingApplier []) (handle_of sampleIp [⟨.tcp, 22⟩])
        startedBackend).1 = .error (.ruleNotFound "192.0.2.7/tcp/22")
      ∧ (openSet []).has (element_key sampleIp ⟨.tcp, 22⟩) = false := by
  have hopen : (open_access textReader quietApplier (ruleFor [⟨.tcp, 22⟩]) startedBackend).1
      = .ok (handle_of sampleIp [⟨.tcp, 22⟩]) := by decide +kernel
  have hnf : (remove_rule textReader (missingApplier []) (handle_of sampleIp [⟨.tcp, 22⟩])
      startedBackend).1 = .error (.ruleNotFound "192.0.2.7/tcp/22") := by decide +kernel
  have hlive : ∀ listing, (missingApplier []).get_current = .ok listing →
      ListsLive textReader (openSet []) listing := by
    intro listing hcur
    cases hcur
    exact listsLive_listed []
  obtain ⟨ipv4, hip, hiff⟩ := not_found_truthful_iff textReader_laws (Prod.ext hopen rfl)
    startedBackend_ready hlive
  cases hip
  exact ⟨hnf, hiff.mpr (.inl fun _ _ => rfl) ⟨_, hnf⟩ _ (List.mem_singleton_self _)⟩

/-- ssh and http, open for alice. -/
def openBackend : NftablesBackend :=
  (open_access textReader quietApplier (ruleFor [⟨.tcp, 22⟩, ⟨.tcp, 80⟩]) startedBackend).2

/-- http has expired. -/
def halfExpired : NftablesBackend :=
  run_op textReader (.expire (element_key sampleIp ⟨.tcp, 80⟩)) openBackend

/-- `RuleNotFound` with ssh still open: one element of two has expired; or none has, and
    nft failed for a reason of its own. -/
theorem not_found_while_open :
    (open_access textReader quietApplier (ruleFor [⟨.tcp, 22⟩, ⟨.tcp, 80⟩]) startedBackend).1
        = .ok ⟨"192.0.2.7/tcp/22,192.0.2.7/tcp/80"⟩
      ∧ (setState halfExpired.kernel TABLE_NAME SET_NAME = some (openSet [⟨.tcp, 22⟩])
        ∧ ListsLive textReader (openSet [⟨.tcp, 22⟩]) [(SET_NAME, some [listed ⟨.tcp, 22⟩])]
        ∧ (remove_rule textReader (missingApplier [⟨.tcp, 22⟩])
            ⟨"192.0.2.7/tcp/22,192.0.2.7/tcp/80"⟩ halfExpired).1
          = .error (.ruleNotFound "192.0.2.7/tcp/22,192.0.2.7/tcp/80"))
      ∧ (setState openBackend.kernel TABLE_NAME SET_NAME
          = some (openSet [⟨.tcp, 22⟩, ⟨.tcp, 80⟩])
        ∧ ListsLive textReader (openSet [⟨.tcp, 22⟩, ⟨.tcp, 80⟩])
            [(SET_NAME, some [listed ⟨.tcp, 22⟩, listed ⟨.tcp, 80⟩])]
        ∧ (remove_rule textReader (silentApplier [⟨.tcp, 22⟩, ⟨.tcp, 80⟩])
            ⟨"192.0.2.7/tcp/22,192.0.2.7/tcp/80"⟩ openBackend).1
          = .error (.ruleNotFound "192.0.2.7/tcp/22,192.0.2.7/tcp/80"))
      ∧ (openSet [⟨.tcp, 22⟩]).has (element_key sampleIp ⟨.tcp, 22⟩) = true :=
  ⟨by decide +kernel, ⟨rfl, listsLive_listed _, by decide +kernel⟩,
    ⟨rfl, listsLive_listed _, by decide +kernel⟩, by decide⟩

end FwknoxRemoval
