import Fwknox.CapabilityProofs

/-! # The sandbox — three privilege-changing steps in a row

    `apply.rs`, `capabilities.rs` and `privdrop.rs` over the processes of
    `LinuxCaps`.  `apply` first drops every capability it does not keep, then changes
    group and user, then raises what it kept.

    Changing group and user needs `CAP_SETGID` and `CAP_SETUID`, and dropping from the
    bounding set needs `CAP_SETPCAP`; the first step has already given all three away
    unless they are kept.  `sandbox_reached_iff` is the exact condition under which a
    fully privileged root process reaches the documented state. -/

namespace FwknoxSandbox

open LinuxCaps

/-- The stage that failed, and what it said. -/
inductive SandboxError where
  | capability (msg : String)
  | privDrop (msg : String)
  | landlock (msg : String)
  | configuration (msg : String)
  deriving DecidableEq

/-- Whom the process is to become. -/
structure PrivDropTarget where
  user : String
  group : String

/-- The paths Landlock leaves open. -/
structure LandlockConfig where
  read_only : List String
  read_write : List String

/-- What one process keeps and what it becomes. -/
structure SandboxConfig where
  keep_caps : List Capability
  drop_to : Option PrivDropTarget
  landlock : Option LandlockConfig

/-- What the host decides: the order in which `caps::all` enumerates, the account
    database, and Landlock. -/
structure Host where
  caps_all : List Capability
  caps_all_mem : ∀ cap, cap ∈ caps_all
  user : String → Except String (Option UInt32)
  group : String → Except String (Option UInt32)
  landlock : LandlockConfig → Except String Unit

/-- A step that changes the process and may fail on the way; what it did so far stays. -/
abbrev Step := EStateM SandboxError Process

/-! ## Capabilities -/

/-- A drop whose failure is only logged. -/
def try_drop (set : CapSet) (cap : Capability) (p : Process) : Process :=
  match p.drop set cap with
  | .ok p => p
  | .error _ => p

/-- The body of the loop for a capability that is not kept. -/
def drop_cap (p : Process) (cap : Capability) : Process :=
  [CapSet.effective, .permitted, .inheritable, .ambient, .bounding].foldl
    (fun p set => try_drop set cap p) p

/-- `drop_all_except`, over the capabilities as `caps::all` lists them.  The final check
    of the effective set only logs. -/
def drop_all_except (keep : List Capability) : List Capability → Process → Process
  | [], p => p
  | cap :: rest, p => drop_all_except keep rest (if cap ∈ keep then p else drop_cap p cap)

/-- The loop of `raise_effective`: the first failure stops it. -/
def raise_all : List Capability → Step Unit
  | [], p => .ok () p
  | cap :: rest, p =>
      match p.raise_effective cap with
      | .ok p => raise_all rest p
      | .error e => .error (.capability ("could not raise " ++ cap.debug
          ++ " into effective set: " ++ e.to_string)) p

/-- Nothing is raised unless everything can be. -/
def raise_effective (keep : List Capability) : Step Unit := fun p =>
  match keep.find? (fun cap => decide (cap ∉ p.permitted)) with
  | some cap => .error (.configuration ("cannot raise " ++ cap.debug ++ ": not in Permitted set")) p
  | none => raise_all keep p

/-! ## User and group -/

/-- `resolve_user` and `resolve_group`: the same lookup with another word. -/
def resolve (what : String) (lookup : String → Except String (Option UInt32)) (name : String) :
    Except SandboxError UInt32 :=
  match lookup name with
  | .error e => .error (.privDrop (what ++ " lookup failed for " ++ name ++ ": " ++ e))
  | .ok none => .error (.privDrop (what ++ " " ++ name ++ " not found"))
  | .ok (some id) => .ok id

/-- The user of that name. -/
def resolve_user (H : Host) (name : String) : Except SandboxError UInt32 :=
  resolve "user" H.user name

/-- The group of that name. -/
def resolve_group (H : Host) (name : String) : Except SandboxError UInt32 :=
  resolve "group" H.group name

/-- A lookup inside a step. -/
def looked_up (r : Except SandboxError UInt32) : Step UInt32 := fun p =>
  match r with
  | .ok id => .ok id p
  | .error e => .error e p

/-- A system call inside a step. -/
def call (name : String) (f : Process → Except Errno Process) : Step Unit := fun p =>
  match f p with
  | .ok p => .ok () p
  | .error e => .error (.privDrop (name ++ " failed: " ++ e.to_string)) p

/-- Groups before the user: afterwards the right to change them is gone. -/
def drop_to (H : Host) (user group : String) : Step Unit := do
  let uid ← looked_up (resolve_user H user)
  let gid ← looked_up (resolve_group H group)
  call "setgroups" (fun p => p.setgroups [gid])
  call "setgid" (fun p => p.setgid gid)
  call "set_keepcaps(true)" (fun p => p.set_keepcaps true)
  call "setuid" (fun p => p.setuid uid)
  call "set_keepcaps(false)" (fun p => p.set_keepcaps false)

/-! ## The sequence -/

/-- Landlock over the configured paths. -/
def landlock_apply (H : Host) (config : LandlockConfig) : Step Unit := fun p =>
  match H.landlock config with
  | .ok _ => .ok () p
  | .error e => .error (.landlock e) p

/-- Capabilities, then the user, then Landlock. -/
def apply (H : Host) (config : SandboxConfig) : Step Unit := do
  modify (drop_all_except config.keep_caps H.caps_all)
  match config.drop_to with
  | some target => do
      drop_to H target.user target.group
      raise_effective config.keep_caps
  | none => pure ()
  match config.landlock with
  | some ll => landlock_apply H ll
  | none => pure ()

/-! ## What the first step does -/

/-- One turn of the loop: gone from every set, except that the bounding set needs
    `CAP_SETPCAP` to be still effective. -/
theorem drop_cap_spec (p : Process) (cap : Capability) :
    (drop_cap p cap).effective = p.effective.erase cap
      ∧ (drop_cap p cap).permitted = p.permitted.erase cap
      ∧ (drop_cap p cap).bounding
          = if .cap_setpcap ∈ p.effective.erase cap then p.bounding.erase cap else p.bounding := by
  by_cases hset : .cap_setpcap ∈ p.effective.erase cap
  · simp [drop_cap, try_drop, Process.drop, hset]
  · simp [drop_cap, try_drop, Process.drop, hset]

/-- The whole loop on any set that each turn, while `I` holds, takes its capability
    out of: what is kept stays, what is listed and not kept goes. -/
theorem mem_drop_all_except {keep : List Capability} {I : Process → Prop}
    {set : Process → Finset Capability}
    (hI : ∀ p c, I p → c ∉ keep → I (drop_cap p c))
    (hset : ∀ p c, I p → c ∉ keep → set (drop_cap p c) = (set p).erase c)
    (l : List Capability) {p : Process} (hp : I p) (cap : Capability) :
    cap ∈ set (drop_all_except keep l p) ↔ cap ∈ set p ∧ (cap ∈ keep ∨ cap ∉ l) := by
  induction l generalizing p with
  | nil => simp [drop_all_except]
  | cons c rest ih =>
      simp only [drop_all_except]
      by_cases hc : c ∈ keep
      · rw [if_pos hc, ih hp]
        by_cases h : cap = c
        · subst h
          simp [hc]
        · simp [h]
      · rw [if_neg hc, ih (hI p c hp hc), hset p c hp hc]
        by_cases h : cap = c
        · subst h
          simp [hc]
        · simp [h]

/-- `CAP_SETPCAP` never leaves the bounding set: its own turn takes it out of Effective
    first. -/
theorem setpcap_stays_bounding (keep l : List Capability) {p : Process}
    (hp : .cap_setpcap ∈ p.bounding) : .cap_setpcap ∈ (drop_all_except keep l p).bounding := by
  induction l generalizing p with
  | nil => exact hp
  | cons c rest ih =>
      simp only [drop_all_except]
      by_cases hc : c ∈ keep
      · rw [if_pos hc]
        exact ih hp
      · rw [if_neg hc]
        refine ih ?_
        rw [(drop_cap_spec p c).2.2]
        by_cases hset : .cap_setpcap ∈ p.effective.erase c
        · rw [if_pos hset]
          exact Finset.mem_erase.mpr ⟨(Finset.mem_erase.mp hset).1, hp⟩
        · rw [if_neg hset]
          exact hp

/-- Fully privileged: uid 0 and every capability.  Inheritable and Ambient are free. -/
structure AllPowerful (p : Process) : Prop where
  uid : p.uid = 0
  effective : ∀ cap, cap ∈ p.effective
  permitted : ∀ cap, cap ∈ p.permitted
  bounding : ∀ cap, cap ∈ p.bounding

/-- After the first step a fully privileged process has what it keeps, and its bounding
    set is trimmed iff it keeps `CAP_SETPCAP`. -/
theorem drop_all_except_spec (H : Host) (keep : List Capability) {p : Process}
    (hp : AllPowerful p) :
    (∀ cap, cap ∈ (drop_all_except keep H.caps_all p).effective ↔ cap ∈ keep)
      ∧ (∀ cap, cap ∈ (drop_all_except keep H.caps_all p).permitted ↔ cap ∈ keep)
      ∧ ((∀ cap ∈ (drop_all_except keep H.caps_all p).bounding, cap ∈ keep)
          ↔ .cap_setpcap ∈ keep) := by
  refine ⟨?_, ?_, ?_⟩
  · intro cap
    rw [mem_drop_all_except (I := fun _ => True) (fun _ _ _ _ => trivial)
      (fun p c _ _ => (drop_cap_spec p c).1) H.caps_all trivial]
    simp [hp.effective cap, H.caps_all_mem cap]
  · intro cap
    rw [mem_drop_all_except (I := fun _ => True) (fun _ _ _ _ => trivial)
      (fun p c _ _ => (drop_cap_spec p c).2.1) H.caps_all trivial]
    simp [hp.permitted cap, H.caps_all_mem cap]
  · constructor
    · intro h
      exact h _ (setpcap_stays_bounding keep H.caps_all (hp.bounding _))
    · intro hkeep cap hcap
      have hne : ∀ {c : Capability}, c ∉ keep → .cap_setpcap ≠ c := fun hc h => hc (h ▸ hkeep)
      have hstay : ∀ (p : Process) c, .cap_setpcap ∈ p.effective → c ∉ keep →
          .cap_setpcap ∈ p.effective.erase c := fun p c he hc => Finset.mem_erase.mpr ⟨hne hc, he⟩
      have hmem := (mem_drop_all_except (I := fun p => .cap_setpcap ∈ p.effective)
        (fun p c he hc => (drop_cap_spec p c).1 ▸ hstay p c he hc)
        (fun p c he hc => (drop_cap_spec p c).2.2.trans (if_pos (hstay p c he hc)))
        H.caps_all (hp.effective _) cap).mp hcap
      exact hmem.2.resolve_right (not_not.mpr (H.caps_all_mem cap))

/-! ## What the second step does -/

section DropTo

variable {H : Host} {user group : String} {uid gid : UInt32} {p : Process}

/-- A call that succeeds hands its process on. -/
theorem call_bind_ok {name : String} {f : Process → Except Errno Process} {p' : Process}
    (h : f p = .ok p') (rest : Step Unit) :
    (call name f >>= fun _ => rest) p = rest p' := by
  simp only [bind, EStateM.bind, call, h]

/-- A call that fails ends the sequence and names itself. -/
theorem call_bind_error {name : String} {f : Process → Except Errno Process} {e : Errno}
    (h : f p = .error e) (rest : Step Unit) :
    (call name f >>= fun _ => rest) p
      = .error (.privDrop (name ++ " failed: " ++ e.to_string)) p := by
  simp only [bind, EStateM.bind, call, h]

/-- Once the names are found, only system calls are left. -/
theorem drop_to_of_found (hu : H.user user = .ok (some uid))
    (hg : H.group group = .ok (some gid)) :
    drop_to H user group p
      = (do
          call "setgroups" (fun p => p.setgroups [gid])
          call "setgid" (fun p => p.setgid gid)
          call "set_keepcaps(true)" (fun p => p.set_keepcaps true)
          call "setuid" (fun p => p.setuid uid)
          call "set_keepcaps(false)" (fun p => p.set_keepcaps false) : Step Unit) p := by
  simp only [drop_to, looked_up, resolve_user, resolve_group, resolve, hu, hg, bind, EStateM.bind]

/-- Without `CAP_SETGID` the first call already fails. -/
theorem drop_to_without_setgid (hu : H.user user = .ok (some uid))
    (hg : H.group group = .ok (some gid)) (hgid : .cap_setgid ∉ p.effective) :
    drop_to H user group p
      = .error (.privDrop "setgroups failed: EPERM: Operation not permitted") p := by
  have hcall : p.setgroups [gid] = .error .EPERM := if_neg hgid
  rw [drop_to_of_found hu hg, call_bind_error hcall]
  rfl

/-- With `CAP_SETGID` the step gets as far as `setuid`. -/
theorem drop_to_with_setgid (hu : H.user user = .ok (some uid))
    (hg : H.group group = .ok (some gid)) (hgid : .cap_setgid ∈ p.effective) :
    drop_to H user group p
      = (do
          call "setuid" (fun p => p.setuid uid)
          call "set_keepcaps(false)" (fun p => p.set_keepcaps false) : Step Unit)
            { p with groups := [gid], gid, keepcaps := true } := by
  have hgroups : p.setgroups [gid] = .ok { p with groups := [gid] } := if_pos hgid
  have hsetgid : Process.setgid { p with groups := [gid] } gid
      = .ok { p with groups := [gid], gid } := if_pos hgid
  rw [drop_to_of_found hu hg, call_bind_ok hgroups, call_bind_ok hsetgid]
  rfl

/-- Without `CAP_SETUID` the groups are changed when `setuid` fails. -/
theorem drop_to_without_setuid (hu : H.user user = .ok (some uid))
    (hg : H.group group = .ok (some gid)) (hgid : .cap_setgid ∈ p.effective)
    (huid : .cap_setuid ∉ p.effective) :
    drop_to H user group p
      = .error (.privDrop "setuid failed: EPERM: Operation not permitted")
          { p with groups := [gid], gid, keepcaps := true } := by
  have hcall : Process.setuid { p with groups := [gid], gid, keepcaps := true } uid
      = .error .EPERM := if_neg huid
  rw [drop_to_with_setgid hu hg hgid, call_bind_error hcall]
  rfl

/-- With both capabilities the step succeeds; Permitted and the bounding set stay, and
    Effective at most shrinks. -/
theorem drop_to_spec (hu : H.user user = .ok (some uid)) (hg : H.group group = .ok (some gid))
    (hgid : .cap_setgid ∈ p.effective) (huid : .cap_setuid ∈ p.effective) :
    ∃ p', drop_to H user group p = .ok () p' ∧ p'.uid = uid ∧ p'.gid = gid
      ∧ p'.permitted = p.permitted ∧ p'.bounding = p.bounding ∧ p'.effective ⊆ p.effective := by
  rw [drop_to_with_setgid hu hg hgid]
  -- away from root Effective is cleared, and Permitted survives through keepcaps
  by_cases haway : p.uid = 0 ∧ uid ≠ 0
  · rw [call_bind_ok ((if_pos huid).trans (if_pos haway))]
    exact ⟨_, rfl, rfl, rfl, rfl, rfl, Finset.empty_subset _⟩
  · rw [call_bind_ok ((if_pos huid).trans (if_neg haway))]
    exact ⟨_, rfl, rfl, rfl, rfl, rfl, Finset.Subset.refl _⟩

end DropTo

/-! ## What the third step does -/

/-- What is permitted can be raised, and nothing else changes. -/
theorem raise_all_spec (keep : List Capability) {p : Process}
    (hkeep : ∀ cap ∈ keep, cap ∈ p.permitted) :
    ∃ p', raise_all keep p = .ok () p' ∧ p'.uid = p.uid ∧ p'.gid = p.gid
      ∧ p'.permitted = p.permitted ∧ p'.bounding = p.bounding
      ∧ ∀ cap, cap ∈ p'.effective ↔ cap ∈ p.effective ∨ cap ∈ keep := by
  induction keep generalizing p with
  | nil => exact ⟨p, rfl, rfl, rfl, rfl, rfl, fun cap => by simp⟩
  | cons c rest ih =>
      have hc : c ∈ p.permitted := hkeep c List.mem_cons_self
      simp only [raise_all, Process.raise_effective, dif_pos hc]
      obtain ⟨p', hrun, huid, hgid, hperm, hbnd, heff⟩ :=
        ih (p := { p with
          effective := insert c p.effective
          effective_subset := Finset.insert_subset hc p.effective_subset })
          (fun cap hcap => hkeep cap (List.mem_cons_of_mem _ hcap))
      refine ⟨p', hrun, huid, hgid, hperm, hbnd, fun cap => ?_⟩
      rw [heff cap, Finset.mem_insert, List.mem_cons]
      tauto

/-- With everything permitted, only the loop is left. -/
theorem raise_effective_spec (keep : List Capability) {p : Process}
    (hkeep : ∀ cap ∈ keep, cap ∈ p.permitted) :
    raise_effective keep p = raise_all keep p := by
  have hnone : keep.find? (fun cap => decide (cap ∉ p.permitted)) = none := by
    rw [List.find?_eq_none]
    intro cap hcap
    simpa using hkeep cap hcap
  simp only [raise_effective, hnone]

/-! ## The sequence from root -/

/-- The state `apply` documents: it succeeded, user and group are the target's, Permitted
    and Effective are what was to be kept, and the bounding set has nothing else. -/
def Reached (keep : List Capability) (uid gid : UInt32)
    (r : EStateM.Result SandboxError Process Unit) : Prop :=
  ∃ p, r = .ok () p ∧ p.uid = uid ∧ p.gid = gid
    ∧ (∀ cap, cap ∈ p.permitted ↔ cap ∈ keep) ∧ (∀ cap, cap ∈ p.effective ↔ cap ∈ keep)
    ∧ ∀ cap ∈ p.bounding, cap ∈ keep

/-- A failed sequence has not reached its end. -/
theorem not_reached_of_error {keep : List Capability} {uid gid : UInt32} {e : SandboxError}
    {p : Process} : ¬Reached keep uid gid (.error e p) := by
  rintro ⟨_, h, _⟩
  exact nomatch h

theorem modify_run (f : Process → Process) (p : Process) :
    (modify f : Step Unit) p = .ok () (f p) := rfl

/-- Without Landlock, a drop and a raise. -/
theorem apply_eq (H : Host) (keep : List Capability) (target : PrivDropTarget) (p : Process) :
    apply H ⟨keep, some target, none⟩ p
      = match drop_to H target.user target.group (drop_all_except keep H.caps_all p) with
        | .ok _ p => raise_effective keep p
        | .error e p => .error e p := by
  simp only [apply, bind, EStateM.bind, modify_run]
  cases drop_to H target.user target.group (drop_all_except keep H.caps_all p) with
  | error e p => rfl
  | ok u p =>
      dsimp only
      cases raise_effective keep p with
      | ok u p => rfl
      | error e p => rfl

/-- **THE SANDBOX FROM ROOT, EXACTLY**: for every keep list, target and enumeration
    order, a fully privileged root process reaches the documented state iff it keeps the
    three capabilities that `apply` itself still needs after its first step. -/
theorem sandbox_reached_iff (H : Host) (keep : List Capability) (target : PrivDropTarget)
    {uid gid : UInt32} (hu : H.user target.user = .ok (some uid))
    (hg : H.group target.group = .ok (some gid)) {p : Process} (hp : AllPowerful p) :
    Reached keep uid gid (apply H ⟨keep, some target, none⟩ p)
      ↔ .cap_setgid ∈ keep ∧ .cap_setuid ∈ keep ∧ .cap_setpcap ∈ keep := by
  obtain ⟨heff, hperm, hbnd⟩ := drop_all_except_spec H keep hp
  rw [apply_eq]
  by_cases hgid : .cap_setgid ∈ keep
  · by_cases huid : .cap_setuid ∈ keep
    · obtain ⟨p', hrun, huid', hgid', hperm', hbnd', heff'⟩ :=
        drop_to_spec hu hg ((heff _).mpr hgid) ((heff _).mpr huid)
      have hkeep : ∀ cap ∈ keep, cap ∈ p'.permitted := by
        intro cap hcap
        rw [hperm', hperm]
        exact hcap
      obtain ⟨q, hraise, hquid, hqgid, hqperm, hqbnd, hqeff⟩ := raise_all_spec keep hkeep
      rw [hrun]
      simp only [raise_effective_spec keep hkeep, hraise, hgid, huid, true_and]
      -- the bounding set is the one thing left, and clearing it takes `CAP_SETPCAP`
      constructor
      · rintro ⟨_, ⟨⟩, _, _, _, _, hb⟩
        exact hbnd.mp (hbnd' ▸ hqbnd ▸ hb)
      · intro hset
        refine ⟨q, rfl, hquid.trans huid', hqgid.trans hgid', ?_, ?_, ?_⟩
        · rw [hqperm, hperm']
          exact hperm
        · intro cap
          rw [hqeff]
          exact or_iff_right_of_imp fun h => (heff cap).mp (heff' h)
        · rw [hqbnd, hbnd']
          exact hbnd.mpr hset
    · have hno := drop_to_without_setuid hu hg ((heff _).mpr hgid) (fun h => huid ((heff _).mp h))
      rw [hno]
      exact iff_of_false not_reached_of_error fun h => huid h.2.1
  · rw [drop_to_without_setgid hu hg (fun h => hgid ((heff _).mp h))]
    exact iff_of_false not_reached_of_error fun h => hgid h.1

/-- Every capability, in the kernel's order. -/
def caps_in_order : List Capability :=
  [.cap_chown, .cap_dac_override, .cap_dac_read_search, .cap_fowner, .cap_fsetid, .cap_kill,
    .cap_setgid, .cap_setuid, .cap_setpcap, .cap_linux_immutable, .cap_net_bind_service,
    .cap_net_broadcast, .cap_net_admin, .cap_net_raw, .cap_ipc_lock, .cap_ipc_owner,
    .cap_sys_module, .cap_sys_rawio, .cap_sys_chroot, .cap_sys_ptrace, .cap_sys_pacct,
    .cap_sys_admin, .cap_sys_boot, .cap_sys_nice, .cap_sys_resource, .cap_sys_time,
    .cap_sys_tty_config, .cap_mknod, .cap_lease, .cap_audit_write, .cap_audit_control,
    .cap_setfcap, .cap_mac_override, .cap_mac_admin, .cap_syslog, .cap_wake_alarm,
    .cap_block_suspend, .cap_audit_read, .cap_perfmon, .cap_bpf, .cap_checkpoint_restore]

/-- The list has every capability. -/
theorem caps_in_order_mem (cap : Capability) : cap ∈ caps_in_order := by
  cases cap <;> decide

/-- A host where nobody and nogroup are 65534. -/
def sampleHost : Host where
  caps_all := caps_in_order
  caps_all_mem := caps_in_order_mem
  user name := .ok (if name = "nobody" then some 65534 else none)
  group name := .ok (if name = "nogroup" then some 65534 else none)
  landlock _ := .ok ()

/-- Root, as a service manager starts it. -/
def rootProcess : Process where
  uid := 0
  gid := 0
  groups := []
  keepcaps := false
  effective := caps_in_order.toFinset
  permitted := caps_in_order.toFinset
  inheritable := ∅
  ambient := ∅
  bounding := caps_in_order.toFinset
  effective_subset := Finset.Subset.refl _
  ambient_subset := Finset.empty_subset _

/-- Root lacks nothing. -/
theorem rootProcess_allPowerful : AllPowerful rootProcess := by
  have hall : ∀ cap, cap ∈ caps_in_order.toFinset :=
    fun cap => List.mem_toFinset.mpr (caps_in_order_mem cap)
  exact ⟨rfl, hall, hall, hall⟩

/-- A process that keeps what the sequence needs gets through. -/
theorem nobody_reached :
    Reached [.cap_setgid, .cap_setuid, .cap_setpcap, .cap_net_admin] 65534 65534
      (apply sampleHost
        ⟨[.cap_setgid, .cap_setuid, .cap_setpcap, .cap_net_admin], some ⟨"nobody", "nogroup"⟩, none⟩
        rootProcess) :=
  (sandbox_reached_iff sampleHost [.cap_setgid, .cap_setuid, .cap_setpcap, .cap_net_admin]
    ⟨"nobody", "nogroup"⟩ rfl rfl rootProcess_allPowerful).mpr ⟨by decide, by decide, by decide⟩

/-- The daemon's own configuration keeps `CAP_NET_ADMIN` alone: it cannot leave root. -/
theorem daemon_cannot_leave_root :
    AllPowerful rootProcess
      ∧ (∃ p, apply sampleHost ⟨[.cap_net_admin], some ⟨"nobody", "nogroup"⟩, none⟩ rootProcess
          = .error (.privDrop "setgroups failed: EPERM: Operation not permitted") p)
      ∧ ¬Reached [.cap_net_admin] 65534 65534
          (apply sampleHost ⟨[.cap_net_admin], some ⟨"nobody", "nogroup"⟩, none⟩ rootProcess) := by
  have hno : .cap_setgid ∉ (drop_all_except [.cap_net_admin] sampleHost.caps_all
      rootProcess).effective := by
    rw [(drop_all_except_spec sampleHost [.cap_net_admin] rootProcess_allPowerful).1]
    decide
  rw [apply_eq, drop_to_without_setgid rfl rfl hno]
  exact ⟨rootProcess_allPowerful, ⟨_, rfl⟩, not_reached_of_error⟩

end FwknoxSandbox
