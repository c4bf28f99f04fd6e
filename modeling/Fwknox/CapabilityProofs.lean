import Mathlib.Data.Finset.Basic

/-! # Linux processes and their capability sets

    The credentials of a process and the system calls that change them, as
    `capabilities(7)` describes them.  A `Process` carries what the kernel guarantees:
    Effective is part of Permitted, Ambient part of Permitted and of Inheritable.

    Every call answers with the changed process or an error number and changes nothing
    when it fails. -/

namespace LinuxCaps

/-- Linux capabilities, in the kernel's order. -/
inductive Capability where
  | cap_chown
  | cap_dac_override
  | cap_dac_read_search
  | cap_fowner
  | cap_fsetid
  | cap_kill
  | cap_setgid
  | cap_setuid
  | cap_setpcap
  | cap_linux_immutable
  | cap_net_bind_service
  | cap_net_broadcast
  | cap_net_admin
  | cap_net_raw
  | cap_ipc_lock
  | cap_ipc_owner
  | cap_sys_module
  | cap_sys_rawio
  | cap_sys_chroot
  | cap_sys_ptrace
  | cap_sys_pacct
  | cap_sys_admin
  | cap_sys_boot
  | cap_sys_nice
  | cap_sys_resource
  | cap_sys_time
  | cap_sys_tty_config
  | cap_mknod
  | cap_lease
  | cap_audit_write
  | cap_audit_control
  | cap_setfcap
  | cap_mac_override
  | cap_mac_admin
  | cap_syslog
  | cap_wake_alarm
  | cap_block_suspend
  | cap_audit_read
  | cap_perfmon
  | cap_bpf
  | cap_checkpoint_restore
  deriving DecidableEq

/-- The `Debug` text. -/
def Capability.debug : Capability → String
  | .cap_chown => "CAP_CHOWN"
  | .cap_dac_override => "CAP_DAC_OVERRIDE"
  | .cap_dac_read_search => "CAP_DAC_READ_SEARCH"
  | .cap_fowner => "CAP_FOWNER"
  | .cap_fsetid => "CAP_FSETID"
  | .cap_kill => "CAP_KILL"
  | .cap_setgid => "CAP_SETGID"
  | .cap_setuid => "CAP_SETUID"
  | .cap_setpcap => "CAP_SETPCAP"
  | .cap_linux_immutable => "CAP_LINUX_IMMUTABLE"
  | .cap_net_bind_service => "CAP_NET_BIND_SERVICE"
  | .cap_net_broadcast => "CAP_NET_BROADCAST"
  | .cap_net_admin => "CAP_NET_ADMIN"
  | .cap_net_raw => "CAP_NET_RAW"
  | .cap_ipc_lock => "CAP_IPC_LOCK"
  | .cap_ipc_owner => "CAP_IPC_OWNER"
  | .cap_sys_module => "CAP_SYS_MODULE"
  | .cap_sys_rawio => "CAP_SYS_RAWIO"
  | .cap_sys_chroot => "CAP_SYS_CHROOT"
  | .cap_sys_ptrace => "CAP_SYS_PTRACE"
  | .cap_sys_pacct => "CAP_SYS_PACCT"
  | .cap_sys_admin => "CAP_SYS_ADMIN"
  | .cap_sys_boot => "CAP_SYS_BOOT"
  | .cap_sys_nice => "CAP_SYS_NICE"
  | .cap_sys_resource => "CAP_SYS_RESOURCE"
  | .cap_sys_time => "CAP_SYS_TIME"
  | .cap_sys_tty_config => "CAP_SYS_TTY_CONFIG"
  | .cap_mknod => "CAP_MKNOD"
  | .cap_lease => "CAP_LEASE"
  | .cap_audit_write => "CAP_AUDIT_WRITE"
  | .cap_audit_control => "CAP_AUDIT_CONTROL"
  | .cap_setfcap => "CAP_SETFCAP"
  | .cap_mac_override => "CAP_MAC_OVERRIDE"
  | .cap_mac_admin => "CAP_MAC_ADMIN"
  | .cap_syslog => "CAP_SYSLOG"
  | .cap_wake_alarm => "CAP_WAKE_ALARM"
  | .cap_block_suspend => "CAP_BLOCK_SUSPEND"
  | .cap_audit_read => "CAP_AUDIT_READ"
  | .cap_perfmon => "CAP_PERFMON"
  | .cap_bpf => "CAP_BPF"
  | .cap_checkpoint_restore => "CAP_CHECKPOINT_RESTORE"

/-- The sets a thread carries. -/
inductive CapSet where
  | effective
  | permitted
  | inheritable
  | ambient
  | bounding
  deriving DecidableEq

/-- The one error number the calls below fail with. -/
inductive Errno where
  | EPERM
  deriving DecidableEq

/-- The text of that number. -/
def Errno.to_string : Errno → String
  | .EPERM => "EPERM: Operation not permitted"

/-! ## Processes -/

/-- The credentials the sandbox works on, with the kernel's two inclusions as fields. -/
structure Process where
  uid : UInt32
  gid : UInt32
  groups : List UInt32
  keepcaps : Bool
  effective : Finset Capability
  permitted : Finset Capability
  inheritable : Finset Capability
  ambient : Finset Capability
  bounding : Finset Capability
  effective_subset : effective ⊆ permitted
  ambient_subset : ambient ⊆ permitted ∩ inheritable

namespace Process

/-- Take `cap` out of one set: `capset`, or `prctl` for the last two. -/
def drop (p : Process) (set : CapSet) (cap : Capability) : Except Errno Process :=
  match set with
  | .effective => .ok { p with
      effective := p.effective.erase cap
      effective_subset := (Finset.erase_subset _ _).trans p.effective_subset }
  | .permitted =>
      -- Effective must stay inside Permitted
      if h : cap ∈ p.effective then .error .EPERM
      else .ok { p with
        permitted := p.permitted.erase cap
        ambient := p.ambient.erase cap
        effective_subset := Finset.subset_erase.mpr ⟨p.effective_subset, h⟩
        ambient_subset := by
          rw [Finset.erase_inter]
          exact Finset.erase_subset_erase _ p.ambient_subset }
  | .inheritable => .ok { p with
      inheritable := p.inheritable.erase cap
      ambient := p.ambient.erase cap
      ambient_subset := by
        rw [Finset.inter_erase]
        exact Finset.erase_subset_erase _ p.ambient_subset }
  | .ambient => .ok { p with
      ambient := p.ambient.erase cap
      ambient_subset := (Finset.erase_subset _ _).trans p.ambient_subset }
  | .bounding =>
      if .cap_setpcap ∈ p.effective then .ok { p with bounding := p.bounding.erase cap }
      else .error .EPERM

/-- Put `cap` into Effective. -/
def raise_effective (p : Process) (cap : Capability) : Except Errno Process :=
  if h : cap ∈ p.permitted then .ok { p with
    effective := insert cap p.effective
    effective_subset := Finset.insert_subset h p.effective_subset }
  else .error .EPERM

/-- The supplementary groups, all at once. -/
def setgroups (p : Process) (groups : List UInt32) : Except Errno Process :=
  if .cap_setgid ∈ p.effective then .ok { p with groups } else .error .EPERM

/-- The primary group. -/
def setgid (p : Process) (gid : UInt32) : Except Errno Process :=
  if .cap_setgid ∈ p.effective then .ok { p with gid } else .error .EPERM

/-- Away from uid 0 Effective and Ambient are cleared, and Permitted too unless the
    process keeps its capabilities. -/
def setuid (p : Process) (uid : UInt32) : Except Errno Process :=
  if .cap_setuid ∈ p.effective then
    if p.uid = 0 ∧ uid ≠ 0 then .ok { p with
      uid
      effective := ∅
      ambient := ∅
      permitted := if p.keepcaps = true then p.permitted else ∅
      effective_subset := Finset.empty_subset _
      ambient_subset := Finset.empty_subset _ }
    else .ok { p with uid }
  else .error .EPERM

/-- `PR_SET_KEEPCAPS`, which needs no privilege. -/
def set_keepcaps (p : Process) (value : Bool) : Except Errno Process :=
  .ok { p with keepcaps := value }

/-- `execve` of a program file that has neither capabilities nor set-id bits: root gets what it
    can inherit and what its bounding set leaves, any other user the ambient set. -/
def execve (p : Process) : Process :=
  let caps := if p.uid = 0 then p.inheritable ∪ p.bounding ∪ p.ambient else p.ambient
  have hambient : p.ambient ⊆ caps := by
    by_cases h : p.uid = 0
    · rw [show caps = p.inheritable ∪ p.bounding ∪ p.ambient from if_pos h]
      exact Finset.subset_union_right
    · rw [show caps = p.ambient from if_neg h]
  { p with
    keepcaps := false
    effective := caps
    permitted := caps
    effective_subset := Finset.Subset.refl _
    ambient_subset :=
      Finset.subset_inter hambient (p.ambient_subset.trans Finset.inter_subset_right) }

end Process

end LinuxCaps
