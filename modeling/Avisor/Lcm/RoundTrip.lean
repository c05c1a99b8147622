import Avisor.Lcm.Ownership

/-!
# Checkpoint and restore as a round trip

The memory of a VM is `size + dmem_size` bytes, and a checkpoint copies that many. But it records a
snapshot with room for twice `dmem_size`, where the next one starts, and a restore copies twice
`dmem_size` back. A restore puts the memory of the VM back as it was, and nothing else, where the two
sizes are the same.
-/

namespace Avisor

open Function Memory

/-- Every snapshot can be restored by the VM that took it: its memory is then as it was at the
checkpoint, and outside of it only the `struct vcpu` of the caller, which the restore is for, is
written. -/
def RoundTrip (cfg : LcmConfig) (x : LcmRun) : Prop :=
  ∀ e ∈ x.taken, ∀ i < cfg.nrCpus e.vm, ∃ t,
    restoreSnapshotHanlderBySs cfg x.state (cfg.vcpuAddr e.vm i) (some (cfg.pa e.vm)) e.ss = some t ∧
    (∀ b < (cfg.vm e.vm).memSize, t.mem (cfg.pa e.vm + b) = e.mem (cfg.pa e.vm + b)) ∧
    ∀ a n, Apart (cfg.pa e.vm) (cfg.vm e.vm).memSize a n →
      Apart (cfg.vcpuAddr e.vm i) cfg.sizeofVcpu a n → Agree t.mem x.state.mem a n

/-- VMs that checkpoint or restore have an image as large as their further memory. A checkpoint also has
room in the pool, and a restore names a snapshot of the caller. -/
def RoundTripGuard (cfg : LcmConfig) (x : LcmRun) : LcmAction → Prop
  | .checkpoint v _ par => CheckpointFits cfg x v par ∧ (cfg.vm v).size = (cfg.vm v).dmemSize
  | .restore v i par arg0 =>
    par = some (cfg.pa v) ∧ (cfg.vm v).size = (cfg.vm v).dmemSize ∧ NamesOwn x (.restore v i par arg0)
  | _ => True

variable {cfg : LcmConfig} {x y : LcmRun} {as : List LcmAction}

/-- Each snapshot is of a VM whose two sizes are the same. -/
private def SameSizes (cfg : LcmConfig) (x : LcmRun) : Prop :=
  ∀ e ∈ x.taken, (cfg.vm e.vm).size = (cfg.vm e.vm).dmemSize

private theorem SameSizes.step (h : SameSizes cfg x) {a : LcmAction}
    (hguard : RoundTripGuard cfg x a) (hstep : (lcmMachine cfg).step x a = some y) :
    SameSizes cfg y := by
  cases a with
  | checkpoint v i par =>
    obtain ⟨-, hstep⟩ := Option.ite_none_right_eq_some.mp hstep
    obtain ⟨t, -, rfl⟩ := Option.map_eq_some_iff.mp hstep
    intro e he
    cases he with
    | head => exact hguard.2
    | tail _ hmem => exact h e hmem
  | restore v i par arg0 =>
    obtain ⟨-, hstep⟩ := Option.ite_none_right_eq_some.mp hstep
    obtain ⟨t, -, rfl⟩ := Option.map_eq_some_iff.mp hstep
    exact h
  | guestWrite v off byte =>
    obtain ⟨-, hstep⟩ := Option.ite_none_right_eq_some.mp hstep
    cases hstep
    exact h
  | vcpuWrite v i off byte =>
    obtain ⟨-, hstep⟩ := Option.ite_none_right_eq_some.mp hstep
    cases hstep
    exact h

private theorem RoundTripGuard.keepsApart (h : LcmWf cfg x) {a : LcmAction}
    (hguard : RoundTripGuard cfg x a) : KeepsApart cfg x a := by
  cases a with
  | checkpoint v i par => exact hguard.1
  | restore v i par arg0 =>
    obtain ⟨hpar, hsize, hnames⟩ := hguard
    exact ⟨hpar, Nat.le_of_eq hsize.symm, (h.restoresOwn_iff.mpr hnames).loadsOwn⟩
  | guestWrite v off byte => trivial
  | vcpuWrite v i off byte => trivial

theorem LcmWf.roundTrip (h : LcmWf cfg x) (hsizes : ∀ e ∈ x.taken,
    (cfg.vm e.vm).size = (cfg.vm e.vm).dmemSize) : RoundTrip cfg x := by
  intro e he i hi
  have hentry := h.entry e he
  have hsize := hsizes e he
  have hmemSize : (cfg.vm e.vm).memSize = (cfg.vm e.vm).size + (cfg.vm e.vm).dmemSize := rfl
  refine ⟨_, restoreBySs_spec hentry.vm_lt hi (Nat.le_of_eq hsize.symm)
    (h.vcpu_vm e.vm hentry.vm_lt i hi) hentry.base_le hentry.len_le, fun b hb => ?_,
    fun a n hmemory hvcpu => ?_⟩
  · -- the snapshot is not in the `struct vcpu` that is written first
    have hapart := cfg.apart_vcpu hentry.vm_lt hi hentry.base_le hentry.len_le
    have hlen : cfg.ssLen e.vm = (cfg.vm e.vm).dmemSize + (cfg.vm e.vm).dmemSize +
      sizeofSnapshot cfg.sizeofVcpu := rfl
    dsimp only
    rw [copy_apply (by omega), agree_copy hapart _ (by omega) (by omega)]
    exact hentry.intact.memory b hb (by omega)
  · exact LcmWf.agree_loaded (Nat.le_of_eq hsize.symm) hmemory hvcpu

/-- In a run whose checkpoints and restores are made by VMs with an image as large as their further
memory, have room in the pool and name the caller's snapshots, every snapshot can be restored to what
it was taken of. -/
theorem roundTrip_always (h : (lcmMachine cfg).Init x)
    (hguard : (lcmMachine cfg).EachStep (RoundTripGuard cfg) x as) :
    (lcmMachine cfg).Always (RoundTrip cfg) x as := by
  refine Machine.always_of_eachStep (I := fun x => LcmWf cfg x ∧ SameSizes cfg x)
    (fun x a y hx hguard hstep => ?_) (fun x hx => hx.1.roundTrip hx.2) ⟨LcmWf.init h, ?_⟩ hguard
  · exact ⟨hx.1.step (hguard.keepsApart hx.1) hstep, hx.2.step hguard hstep⟩
  · intro e he
    rw [(show LcmBoot cfg x from h).taken] at he
    cases he

/-- With the two sizes the same, the first checkpoint can be restored. -/
theorem roundTrip_always_sameSizes :
    (lcmMachine (pairConfig 0x1000 0x1000 (by decide) (by decide))).Always
      (RoundTrip (pairConfig 0x1000 0x1000 (by decide) (by decide))) pairBoot
      [.checkpoint 0 0 (some 0x60000000), .guestWrite 0 0x1800 1#8] := by
  apply roundTrip_always pairBoot_init
  intro y _
  exact ⟨⟨⟨rfl, by decide⟩, rfl⟩, fun z _ => ⟨trivial, trivial⟩⟩

/-- What a guest writes behind the first `2 * dmem_size` bytes stays there. -/
theorem not_roundTrip {e : Taken} {b : Nat} (he : e ∈ x.taken) (hv : e.vm < cfg.nrVms)
    (hi : 0 < cfg.nrCpus e.vm) (hsize : (cfg.vm e.vm).dmemSize ≤ (cfg.vm e.vm).size)
    (hvm : readLe x.state.mem (cfg.vcpuAddr e.vm 0 + cfg.vcpuVmOff) 8 = cfg.vmAddr e.vm)
    (hbase : cfg.ssPoolBase ≤ e.ss) (hfit : e.ss + cfg.ssLen e.vm ≤ cfg.ssPoolEnd)
    (hle : (cfg.vm e.vm).dmemSize + (cfg.vm e.vm).dmemSize ≤ b) (hlt : b < (cfg.vm e.vm).memSize)
    (hne : x.state.mem (cfg.pa e.vm + b) ≠ e.mem (cfg.pa e.vm + b)) : ¬ RoundTrip cfg x := by
  intro h
  obtain ⟨u, hu, hback, -⟩ := h e he 0 hi
  rw [restoreBySs_spec hv hi hsize hvm hbase hfit] at hu
  cases hu
  apply hne
  rw [← hback b hlt]
  have hvcpu := cfg.memory_vcpu e.vm hv e.vm hv 0 hi
  have hmemory : Apart (cfg.pa e.vm) ((cfg.vm e.vm).dmemSize + (cfg.vm e.vm).dmemSize)
    (cfg.pa e.vm + b) 1 := .inl (by omega)
  dsimp only
  rw [agree_copy hmemory _ (Nat.le_refl _) (by omega),
    agree_copy hvcpu.symm _ (by omega) (by omega)]

theorem guestWrite_step {v : VmId} {off : Nat} {byte : BitVec 8} (hv : v < cfg.nrVms)
    (hoff : off < (cfg.vm v).memSize) : (lcmMachine cfg).step x (.guestWrite v off byte) =
      some { x with state := { x.state with mem := update x.state.mem (cfg.pa v + off) byte } } :=
  if_pos ⟨hv, hoff⟩

/-- After a checkpoint that fits, a write of the guest behind the first `2 * dmem_size` bytes. -/
theorem LcmBoot.not_roundTrip_guestWrite {v : VmId} {par : Option Nat} {off : Nat} {byte : BitVec 8}
    (h : LcmBoot cfg x) (hv : v < cfg.nrVms) (hi : 0 < cfg.nrCpus v)
    (hsize : (cfg.vm v).dmemSize ≤ (cfg.vm v).size) (hfit : CheckpointFits cfg x v par)
    (hle : (cfg.vm v).dmemSize + (cfg.vm v).dmemSize ≤ off) (hlt : off < (cfg.vm v).memSize)
    (hne : byte ≠ x.state.mem (cfg.pa v + off)) :
    ¬ (lcmMachine cfg).Always (RoundTrip cfg) x [.checkpoint v 0 par, .guestWrite v off byte] := by
  intro hall
  obtain ⟨t, ht, -⟩ := h.checkpoint hv hi hfit
  have hlast := (hall.2 _ ht).2 _ (guestWrite_step hv hlt)
  have hwf : LcmWf cfg _ := (LcmWf.init h).step (a := .checkpoint v 0 par) hfit ht
  have hwf := hwf.step (a := .guestWrite v off byte) trivial (guestWrite_step hv hlt)
  have hmem : (⟨v, 0, cfg.ssPoolBase, x.state.mem⟩ : Taken) ∈
    [(⟨v, 0, cfg.ssPoolBase, x.state.mem⟩ : Taken)] := .head _
  have he : EntryWf cfg _ _ := hwf.entry _ hmem
  have hnew : update t.mem (cfg.pa v + off) byte (cfg.pa v + off) ≠ x.state.mem (cfg.pa v + off) := by
    rwa [update_self]
  revert hlast
  change ¬ _
  exact not_roundTrip hmem hv hi hsize (hwf.vcpu_vm v hv 0 hi) he.base_le he.len_le hle hlt hnew

/-- With an image larger than the further memory, the last byte a guest writes stays. -/
theorem roundTrip_short :
    (lcmMachine (pairConfig 0x2000 0x1000 (by decide) (by decide))).Init pairBoot ∧
      ¬ (lcmMachine (pairConfig 0x2000 0x1000 (by decide) (by decide))).Always
        (RoundTrip (pairConfig 0x2000 0x1000 (by decide) (by decide))) pairBoot
        [.checkpoint 0 0 (some 0x60000000), .guestWrite 0 0x2000 1#8] := by
  refine ⟨pairBoot_init, LcmBoot.not_roundTrip_guestWrite pairBoot_init (by decide) (by decide) (by decide)
    ⟨rfl, by decide⟩ (by decide) (by decide) ?_⟩
  have haddr : (pairConfig 0x2000 0x1000 (by decide) (by decide)).pa 0 + 0x2000 = 0x60002000 := rfl
  have hold : pairBoot.state.mem 0x60002000 = 0#8 := by decide
  rw [haddr, hold]
  decide

end Avisor
