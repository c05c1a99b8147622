import Avisor.Lcm.Handlers
import Avisor.Lib.Machine

/-!
# Runs of checkpoints and restores

Any VMs checkpoint and restore in any order, and between these calls guests write to their memory and
the hypervisor to the fields of the `struct vcpu`s. The machine keeps, beside the state of `lcm.c`,
the list of the snapshots taken, each with the physical memory it was taken of.
-/

namespace Avisor

open Function Memory

/-- A checkpoint that was made: by vCPU `idx` of `vm`, to the snapshot at `ss`, in the memory `mem`. -/
structure Taken where
  vm : VmId
  idx : Nat
  ss : Nat
  mem : Memory

/-- The state of `lcm.c` and the checkpoints made so far, the latest first. -/
structure LcmRun where
  state : LcmState
  taken : List Taken

/-- A step of vCPU `i` of VM `v`, or of its guest. The address that the pCPU translates the base
address of the VM to is `par`. -/
inductive LcmAction
  | checkpoint (v : VmId) (i : Nat) (par : Option Nat)
  | restore (v : VmId) (i : Nat) (par : Option Nat) (arg0 : Nat)
  | guestWrite (v : VmId) (off : Nat) (byte : BitVec 8)
  | vcpuWrite (v : VmId) (i off : Nat) (byte : BitVec 8)

/-- The step of the machine. A guest reaches the memory of its VM only, and the field `vm` of a
`struct vcpu` is set once. -/
def lcmStep (cfg : LcmConfig) (x : LcmRun) : LcmAction → Option LcmRun
  | .checkpoint v i par =>
    if v < cfg.nrVms ∧ i < cfg.nrCpus v then
      (checkpointSnapshotHanlder cfg x.state (cfg.vcpuAddr v i) par).map fun t =>
        { state := t, taken := ⟨v, i, t.latestSs, x.state.mem⟩ :: x.taken }
    else none
  | .restore v i par arg0 =>
    if v < cfg.nrVms ∧ i < cfg.nrCpus v then
      (restoreSnapshotHanlder cfg x.state (cfg.vcpuAddr v i) par arg0).map fun t =>
        { x with state := t }
    else none
  | .guestWrite v off byte =>
    if v < cfg.nrVms ∧ off < (cfg.vm v).memSize then
      some { x with state := { x.state with mem := update x.state.mem (cfg.pa v + off) byte } }
    else none
  | .vcpuWrite v i off byte =>
    if v < cfg.nrVms ∧ i < cfg.nrCpus v ∧ off < cfg.vcpuVmOff then
      some { x with state :=
        { x.state with mem := update x.state.mem (cfg.vcpuAddr v i + off) byte } }
    else none

/-- The state behind `vmm_init`: each `struct vcpu` knows its VM, and there is no snapshot. -/
structure LcmBoot (cfg : LcmConfig) (x : LcmRun) : Prop where
  vcpu_vm : ∀ v < cfg.nrVms, ∀ i < cfg.nrCpus v,
    readLe x.state.mem (cfg.vcpuAddr v i + cfg.vcpuVmOff) 8 = cfg.vmAddr v
  ssPool : x.state.ssPool = none
  latestSs : x.state.latestSs = 0
  latestSsId : x.state.latestSsId = 0
  first : x.state.first = true
  taken : x.taken = []

/-- The machine of `lcm.c`. -/
def lcmMachine (cfg : LcmConfig) : Machine LcmRun LcmAction where
  Init := LcmBoot cfg
  step := lcmStep cfg

/-! ### Snapshots in the pool -/

namespace LcmConfig

variable (cfg : LcmConfig)

/-- The size a checkpoint of VM `v` records for its snapshot. -/
def ssLen (v : VmId) : Nat :=
  (cfg.vm v).dmemSize + (cfg.vm v).dmemSize + sizeofSnapshot cfg.sizeofVcpu

/-- The bytes that a checkpoint of VM `v` writes to or counts to its snapshot. -/
def ssExtent (v : VmId) : Nat :=
  max (cfg.ssLen v) (sizeofSnapshot cfg.sizeofVcpu + (cfg.vm v).memSize)

/-- Where the first snapshot starts. -/
def ssPoolBase : Nat :=
  cfg.ssPoolPage + sizeofSnapshotPool

/-- The end of the pool, for the page allocator and for `get_ss_by_id`. -/
def ssPoolEnd : Nat :=
  min (cfg.ssPoolPage + cfg.ssPoolBytes) (cfg.ssPoolBase + cfg.ssPoolSize)

end LcmConfig

/-- Where the next snapshot starts. -/
def LcmState.nextSs (cfg : LcmConfig) (s : LcmState) : Nat :=
  match s.ssPool with
  | some pool => pool.last
  | none => cfg.ssPoolBase

/-- The snapshots of `taken` lie one behind the other in the pool, up to `last`. -/
def Laid (cfg : LcmConfig) : List Taken → Nat → Prop
  | [], last => last = cfg.ssPoolBase
  | e :: es, last => last = e.ss + cfg.ssLen e.vm ∧ Laid cfg es e.ss

/-- The snapshot of `e` still holds its size, its vCPU, and as much of the memory of its VM as it has
room for. -/
structure Intact (cfg : LcmConfig) (mem : Memory) (e : Taken) : Prop where
  size : readLe mem (e.ss + 8) 8 = cfg.ssLen e.vm
  vcpu : ∀ b < cfg.sizeofVcpu, mem (e.ss + 24 + b) = e.mem (cfg.vcpuAddr e.vm e.idx + b)
  memory : ∀ b < (cfg.vm e.vm).memSize, b < (cfg.vm e.vm).dmemSize + (cfg.vm e.vm).dmemSize →
    mem (e.ss + sizeofSnapshot cfg.sizeofVcpu + b) = e.mem (cfg.pa e.vm + b)

/-- A snapshot in the pool, taken by a vCPU that knew its VM. -/
structure EntryWf (cfg : LcmConfig) (mem : Memory) (e : Taken) : Prop where
  vm_lt : e.vm < cfg.nrVms
  idx_lt : e.idx < cfg.nrCpus e.vm
  base_le : cfg.ssPoolBase ≤ e.ss
  le_end : e.ss + cfg.ssExtent e.vm ≤ cfg.ssPoolEnd
  vcpu_vm : readLe e.mem (cfg.vcpuAddr e.vm e.idx + cfg.vcpuVmOff) 8 = cfg.vmAddr e.vm
  intact : Intact cfg mem e

/-- What the handlers keep as long as no store goes astray. -/
structure LcmWf (cfg : LcmConfig) (x : LcmRun) : Prop where
  vcpu_vm : ∀ v < cfg.nrVms, ∀ i < cfg.nrCpus v,
    readLe x.state.mem (cfg.vcpuAddr v i + cfg.vcpuVmOff) 8 = cfg.vmAddr v
  pool : ∀ pool, x.state.ssPool = some pool →
    pool.base = cfg.ssPoolBase ∧ pool.size = cfg.ssPoolSize
  noPool : x.state.ssPool = none → x.taken = []
  laid : Laid cfg x.taken (x.state.nextSs cfg)
  latest : x.state.latestSs = (x.taken.head?.map Taken.ss).getD 0
  entry : ∀ e ∈ x.taken, EntryWf cfg x.state.mem e

/-- The checkpoint of VM `v` reaches the VM's memory, and its snapshot has room in the pool. -/
def CheckpointFits (cfg : LcmConfig) (x : LcmRun) (v : VmId) (par : Option Nat) : Prop :=
  par = some (cfg.pa v) ∧ x.state.nextSs cfg + cfg.ssExtent v ≤ cfg.ssPoolEnd

variable {cfg : LcmConfig} {s t : LcmState} {x y : LcmRun} {v w : VmId} {i a n ss : Nat} {e : Taken}
  {mem mem' : Memory}

namespace LcmConfig

theorem ssPoolEnd_le : cfg.ssPoolEnd ≤ cfg.ssPoolPage + cfg.ssPoolBytes :=
  Nat.min_le_left _ _

theorem ssPoolEnd_lt : cfg.ssPoolEnd < sizeT := by
  have hle := Nat.le_trans cfg.ssPoolEnd_le cfg.ssPool_le
  simp only [physMax, sizeT] at *
  omega

theorem memSize_lt (hv : v < cfg.nrVms) : (cfg.vm v).memSize < sizeT := by
  have hle := cfg.memory_le v hv
  simp only [physMax, sizeT] at *
  omega

/-- The limit that `get_ss_by_id` computes does not wrap. -/
theorem ssPoolLimit_lt : cfg.ssPoolBase + cfg.ssPoolSize < sizeT := by
  have hvcpu := cfg.sizeofVcpu_lt
  have hmemory := cfg.memory_le 0 cfg.nrVms_pos
  have hpool := cfg.ssPool_le
  have hsize : cfg.ssPoolSize ≤ ((cfg.vm 0).dmemSize + sizeofSnapshot cfg.sizeofVcpu) * 5 :=
    Nat.mod_le _ _
  simp only [ssPoolBase, sizeofSnapshot, sizeofSnapshotPool, physMax, sizeT, VmConfig.memSize] at *
  omega

/-- A range of the pool is apart from the memory of every VM. -/
theorem apart_memory (hv : v < cfg.nrVms) (hle : cfg.ssPoolBase ≤ a) (hend : a + n ≤ cfg.ssPoolEnd) :
    Apart (cfg.pa v) (cfg.vm v).memSize a n := by
  have hpage := cfg.ssPoolEnd_le
  unfold ssPoolBase at hle
  exact (cfg.memory_ssPool v hv).mono (Nat.le_refl _) (Nat.le_refl _) (by omega) (by omega)

theorem apart_vcpu (hv : v < cfg.nrVms) (hi : i < cfg.nrCpus v) (hle : cfg.ssPoolBase ≤ a)
    (hend : a + n ≤ cfg.ssPoolEnd) : Apart (cfg.vcpuAddr v i) cfg.sizeofVcpu a n := by
  have hpage := cfg.ssPoolEnd_le
  unfold ssPoolBase at hle
  exact (cfg.vcpu_ssPool v hv i hi).mono (Nat.le_refl _) (Nat.le_refl _) (by omega) (by omega)

theorem vmAt_vmAddr (hv : v < cfg.nrVms) : cfg.vmAt (cfg.vmAddr v) = some v := by
  cases hfind : cfg.vmAt (cfg.vmAddr v) with
  | none =>
    have hnone := List.find?_eq_none.mp hfind v (List.mem_range.mpr hv)
    simp at hnone
  | some w =>
    unfold vmAt at hfind
    have hmem := List.mem_range.mp (List.mem_of_find?_eq_some hfind)
    have haddr : cfg.vmAddr w = cfg.vmAddr v := by simpa using List.find?_some hfind
    rw [cfg.vmAddr_inj w hmem v hv haddr]

theorem currentVm_eq (hv : v < cfg.nrVms)
    (h : readLe mem (cfg.vcpuAddr v i + cfg.vcpuVmOff) 8 = cfg.vmAddr v) :
    cfg.currentVm mem (cfg.vcpuAddr v i) = some v := by
  rw [currentVm, h, vmAt_vmAddr hv]

end LcmConfig

theorem Intact.congr (h : Intact cfg mem e) (hagree : Agree mem' mem e.ss (cfg.ssLen e.vm)) :
    Intact cfg mem' e := by
  have hlen : cfg.ssLen e.vm = (cfg.vm e.vm).dmemSize + (cfg.vm e.vm).dmemSize +
    (24 + cfg.sizeofVcpu) := rfl
  refine ⟨?_, fun b hb => ?_, fun b hb hroom => ?_⟩
  · rw [← h.size]
    exact readLe_congr (hagree.mono (by omega) (by omega))
  · rw [← h.vcpu b hb]
    exact hagree _ (by omega) (by omega)
  · rw [← h.memory b hb hroom]
    unfold sizeofSnapshot
    exact hagree _ (by omega) (by omega)

theorem EntryWf.congr (h : EntryWf cfg mem e) (hagree : Agree mem' mem e.ss (cfg.ssLen e.vm)) :
    EntryWf cfg mem' e :=
  { h with intact := h.intact.congr hagree }

/-- The range of a snapshot is in the pool. -/
theorem EntryWf.len_le (h : EntryWf cfg mem e) : e.ss + cfg.ssLen e.vm ≤ cfg.ssPoolEnd :=
  Nat.le_trans (Nat.add_le_add_left (Nat.le_max_left _ _) _) h.le_end

end Avisor
