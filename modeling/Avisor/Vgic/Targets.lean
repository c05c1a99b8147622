import Avisor.Lib.PackedFields
import Avisor.Vgic.SgiDelivery

/-!
# The targets of a shared interrupt

`vgicd_set_trgt` takes the pCPUs of the vCPUs that the guest names from the vCPUs themselves.
`vgicd_get_trgt` takes the way back through `vm->cpus`.
-/

namespace Avisor

variable {E : VgicEnv}

/-- `vm->cpus` behind `vm_init`: `vmm_alloc_vm` clears the structure, and `vm_cpu_init`, which would add
the pCPU that executes it, has no caller. -/
def vmInitCpus (_ : VmId) : BitVec 64 := 0

/-- The vCPUs of the VM among those that `mask` names. -/
def existingVcpus (cfg : VgicConfig) (vm : VmId) (mask : BitVec 64) : BitVec 64 :=
  mask &&& PackedFields.lowMask 64 (cfg.nrCpus vm)

/-- `vgicd_set_trgt` on pCPU `c`, for `vcpu`. -/
def HvState.setTrgt (cfg : HvConfig) (x : HvState) (c : PCpuId) (vcpu : VcpuRef) (i : IntRef)
    (mask : BitVec 64) : HvState :=
  { x with vgic := x.vgic.modifyInt i fun int => (vgicdSetTrgt (x.env cfg c vcpu) vcpu i mask int).2 }

/-- Behind `vgicd_set_trgt` and whatever the schedulers do next, each vCPU of the VM gets the vCPUs that
`mask` names. -/
def KeepsTargets (cfg : HvConfig) (x : HvState) (c : PCpuId) (vcpu : VcpuRef) (i : IntRef)
    (mask : BitVec 64) : Prop :=
  ∀ (as : List Action) (y : HvState),
    (hvMachine cfg).Run (x.setTrgt cfg c vcpu i mask) (as.map .sched) y →
    ∀ d w, w.vm = vcpu.vm →
      vgicdGetTrgt (y.env cfg d w) w i (y.vgic.ints i) = existingVcpus cfg.vgic vcpu.vm mask

/-- A vCPU is in the mask for the pCPU that has its number of pCPUs of the VM below it. -/
theorem getLsbD_vmTranslateToVcpuMask {vm : VmId} {mask : BitVec 64} {len v : Nat} (hv : v < 64) :
    (vmTranslateToVcpuMask E vm mask len).getLsbD v = true ↔
      ∃ p < len, mask.getLsbD p = true ∧ vmTranslateToVcpuid E vm p = some v := by
  unfold vmTranslateToVcpuMask
  induction len with
  | zero => simp
  | succ len ih =>
    rw [List.range_succ, List.foldl_append]
    simp only [List.foldl_cons, List.foldl_nil]
    generalize List.foldl _ (0 : BitVec 64) (List.range len) = pmask at ih ⊢
    have hrest : (∃ p < len + 1, mask.getLsbD p = true ∧ vmTranslateToVcpuid E vm p = some v) ↔
        (∃ p < len, mask.getLsbD p = true ∧ vmTranslateToVcpuid E vm p = some v) ∨
          (mask.getLsbD len = true ∧ vmTranslateToVcpuid E vm len = some v) := by
      simp only [Nat.lt_succ_iff_lt_or_eq, or_and_right, exists_or, exists_eq_left]
    rw [hrest, ← ih]
    by_cases hbit : mask.getLsbD len = true
    · cases hid : vmTranslateToVcpuid E vm len with
      | none => simp [hbit]
      | some shift => simp [hbit, getLsbD_oneShift hv, eq_comm (a := v)]
    · simp [hbit]

/-- No pCPU is in `vm->cpus`, and no vCPU comes out. -/
theorem vmTranslateToVcpuMask_eq_zero {vm : VmId} (hcpus : E.cpus vm = 0) (mask : BitVec 64) (len : Nat) :
    vmTranslateToVcpuMask E vm mask len = 0 := by
  apply BitVec.eq_of_getLsbD_eq
  intro v hv
  have hnone : (vmTranslateToVcpuMask E vm mask len).getLsbD v ≠ true := by
    rw [ne_eq, getLsbD_vmTranslateToVcpuMask hv]
    rintro ⟨p, -, -, hp⟩
    simp [vmTranslateToVcpuid, hcpus] at hp
  simpa using hnone

/-- `vgicd_get_trgt` names no vCPU, whatever was set. -/
theorem vgicdGetTrgt_eq_zero {vcpu : VcpuRef} {i : IntRef} {int : VgicInt} (hi : gicIsPriv i.id = false)
    (hcpus : E.cpus vcpu.vm = 0) : vgicdGetTrgt E vcpu i int = 0 := by
  unfold vgicdGetTrgt
  rw [hi]
  exact vmTranslateToVcpuMask_eq_zero hcpus _ _

/-- A VM keeps the targets it sets where these name none of its vCPUs. -/
theorem keepsTargets_iff {cfg : HvConfig} {x : HvState} {c : PCpuId} {vcpu : VcpuRef} {n : Nat}
    {mask : BitVec 64} (hcpus : cfg.vmCpus = vmInitCpus) (hn : gicCpuPriv ≤ n) :
    KeepsTargets cfg x c vcpu (.shared vcpu.vm n) mask ↔ existingVcpus cfg.vgic vcpu.vm mask = 0 := by
  have hget (y : HvState) (d : PCpuId) (w : VcpuRef) :
      vgicdGetTrgt (y.env cfg d w) w (.shared vcpu.vm n) (y.vgic.ints (.shared vcpu.vm n)) = 0 := by
    apply vgicdGetTrgt_eq_zero
    · exact decide_eq_false (Nat.not_lt.mpr hn)
    · change cfg.vmCpus w.vm = 0
      rw [hcpus]
      rfl
  constructor
  · intro hkeeps
    rw [← hkeeps [] _ (.nil _) c vcpu rfl]
    exact hget _ _ _
  · intro hzero as y _ d w _
    rw [hzero]
    exact hget y d w

/-- VM 1 is to keep that its interrupt 40 goes to none of its vCPUs. -/
theorem keepsTargets_iff_boot :
    KeepsTargets (twoVms .v2 4 (by decide)) (twoVmsBoot .v2) 0 ⟨1, 0⟩ (.shared 1 40) 0 ↔
      existingVcpus (twoVms .v2 4 (by decide)).vgic 1 0 = 0 :=
  @keepsTargets_iff (twoVms .v2 4 (by decide)) (twoVmsBoot .v2) 0 ⟨1, 0⟩ 40 0 rfl (by decide)

/-- The vCPU of VM 1 sets its interrupt 40 active, and so owns it. -/
def takeShared : List HvAction := startFirst ++ [.vgic 0 (.setField .isactiver (.shared 1 40) 1)]

/-- It then sets its first vCPU as the target, and does not find it in the mask it reads. -/
theorem targets_lost : ∃ y,
    (hvMachine (twoVms .v2 4 (by decide))).Init (twoVmsBoot .v2) ∧
      (hvMachine (twoVms .v2 4 (by decide))).Run (twoVmsBoot .v2) takeShared y ∧
      (y.sched.cpus 0).vcpu = some ⟨1, 0⟩ ∧ (y.vgic.ints (.shared 1 40)).owner = some ⟨1, 0⟩ ∧
      ¬ KeepsTargets (twoVms .v2 4 (by decide)) y 0 ⟨1, 0⟩ (.shared 1 40) 1 := by
  obtain ⟨y, hrun, hvcpu, howner⟩ : ∃ y,
      (hvMachine (twoVms .v2 4 (by decide))).run (twoVmsBoot .v2) takeShared = some y ∧
      (y.sched.cpus 0).vcpu = some ⟨1, 0⟩ ∧ (y.vgic.ints (.shared 1 40)).owner = some ⟨1, 0⟩ :=
    ⟨_, rfl, rfl, rfl⟩
  refine ⟨y, twoVmsBoot_init, Machine.run_eq_some_iff.mp hrun, hvcpu, howner, fun hkeeps => ?_⟩
  have hmask := hkeeps [] _ (.nil _) 0 ⟨1, 0⟩ rfl
  rw [vgicdGetTrgt_eq_zero rfl rfl] at hmask
  exact absurd hmask (by decide)

end Avisor
