import Avisor.Lcm.Ownership

/-!
# A guest's reset

`guest_halt_hanlder` of `core/lcm.c` hands its own arguments on to `restore_snapshot_hanlder`, so the reason for
the halt is taken for the number of a snapshot.
-/

namespace Avisor

open Memory

/-- `PSCI_FNID_SYSTEM_OFF`. -/
def psciFnidSystemOff : Nat := 0x84000008

/-- `PSCI_FNID_SYSTEM_RESET`. -/
def psciFnidSystemReset : Nat := 0x84000009

/-- `NUM_MAX_SNAPSHOT_RESOTRE`. -/
def numMaxSnapshotRestore : Nat := 1

/-- `guest_halt_hanlder`, where `current_restore_cnt` is `cnt`. -/
def guestHaltHanlder (cfg : LcmConfig) (s : LcmState) (cnt vcpu : Nat) (par : Option Nat) (arg0 : Nat) :
    Option (LcmState × Nat) :=
  if arg0 = psciFnidSystemOff then some (s, cnt)
  else if arg0 = psciFnidSystemReset then
    if cnt < numMaxSnapshotRestore then
      (restoreSnapshotHanlder cfg s vcpu par arg0).map fun t => (t, cnt + 1)
    else none
  else some (s, cnt)

/-- The memory of VM `v` is its image followed by zeroes, and outside of it only the caller's `struct vcpu` is
written. -/
structure Restarted (cfg : LcmConfig) (s t : LcmState) (v : VmId) (i : Nat) : Prop where
  image : ∀ b < (cfg.vm v).size, t.mem (cfg.pa v + b) = s.mem ((cfg.vm v).loadAddr + b)
  zeroes : ∀ b, (cfg.vm v).size ≤ b → b < (cfg.vm v).memSize → t.mem (cfg.pa v + b) = 0#8
  frame : ∀ a n, Apart (cfg.pa v) (cfg.vm v).memSize a n → Apart (cfg.vcpuAddr v i) cfg.sizeofVcpu a n →
    Agree t.mem s.mem a n

/-- A reset by vCPU `i` of VM `v` has the effect of a restore by `LATEST_SSID`: it loads the latest snapshot, or
restarts the VM from its image if there is none. -/
def ResetRestoresLatest (cfg : LcmConfig) (s : LcmState) (cnt : Nat) (v : VmId) (i : Nat)
    (par : Option Nat) : Prop :=
  ∃ t, guestHaltHanlder cfg s cnt (cfg.vcpuAddr v i) par psciFnidSystemReset = some (t, cnt + 1) ∧
    restoreSnapshotHanlder cfg s (cfg.vcpuAddr v i) par sizeMax = some t ∧
    (s.latestSs ≠ 0 →
      restoreSnapshotHanlderBySs cfg s (cfg.vcpuAddr v i) par s.latestSs = some t) ∧
    (s.latestSs = 0 → Restarted cfg s t v i)

variable {cfg : LcmConfig} {s : LcmState} {cnt vcpu : Nat} {par : Option Nat}

/-- No snapshot has the number of a reset. -/
theorem ssToRestore_reset : ssToRestore s psciFnidSystemReset = .halt := by
  have hlarge : intMax < psciFnidSystemReset := by decide
  have hlatest : psciFnidSystemReset ≠ sizeMax := by decide
  unfold ssToRestore
  rw [if_neg hlatest, LcmWf.getSsById_of_lt (x := ⟨s, []⟩) hlarge]
  cases s.first with
  | false => rw [if_pos rfl]
  | true => rfl

/-- A pCPU does not come out of a reset. -/
theorem guestHaltHanlder_reset : guestHaltHanlder cfg s cnt vcpu par psciFnidSystemReset = none := by
  have hoff : psciFnidSystemReset ≠ psciFnidSystemOff := by decide
  unfold guestHaltHanlder restoreSnapshotHanlder
  rw [if_neg hoff, if_pos rfl, ssToRestore_reset]
  split
  · rfl
  · rfl

/-- A reset restores the latest snapshot in no state and for no vCPU. -/
theorem reset_never_restores (cfg : LcmConfig) (s : LcmState) (cnt : Nat) (v : VmId) (i : Nat)
    (par : Option Nat) : ¬ ResetRestoresLatest cfg s cnt v i par := by
  rintro ⟨t, hreset, -⟩
  rw [guestHaltHanlder_reset] at hreset
  cases hreset

/-- A restore by `LATEST_SSID` without a snapshot is a restart, and comes to an end. -/
theorem LcmBoot.restore_latest {x : LcmRun} {v : VmId} {i : Nat} (h : LcmBoot cfg x) (hv : v < cfg.nrVms)
    (hi : i < cfg.nrCpus v) (hsize : (cfg.vm v).dmemSize ≤ (cfg.vm v).size) :
    ∃ t, restoreSnapshotHanlder cfg x.state (cfg.vcpuAddr v i) (some (cfg.pa v)) sizeMax = some t := by
  have hchoice : ssToRestore x.state sizeMax = .restart := by
    rw [ssToRestore, if_pos rfl, if_pos h.latestSs]
  obtain ⟨mem, hrestart, -⟩ := restart_spec (s := x.state) hv hsize (h.vcpu_vm v hv i hi)
  unfold restoreSnapshotHanlder
  rw [hchoice]
  exact ⟨_, hrestart⟩

/-- The first reset after boot does not come back, where a restore by `LATEST_SSID` does. -/
theorem reset_fails_pair :
    (lcmMachine (pairConfig 0x1000 0x1000 (by decide) (by decide))).Init pairBoot ∧
      (∃ t, restoreSnapshotHanlder (pairConfig 0x1000 0x1000 (by decide) (by decide)) pairBoot.state
        0x50100000 (some 0x60000000) sizeMax = some t) ∧
      ¬ ResetRestoresLatest (pairConfig 0x1000 0x1000 (by decide) (by decide)) pairBoot.state 0 0 0
        (some 0x60000000) := by
  refine ⟨pairBoot_init, ?_, ?_⟩
  · exact LcmBoot.restore_latest pairBoot_init (v := 0) (i := 0) (by decide) (by decide) (by decide)
  · rintro ⟨t, hreset, -⟩
    rw [guestHaltHanlder_reset] at hreset
    cases hreset

end Avisor
