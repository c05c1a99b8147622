import Avisor.Data.String
import Avisor.Sched.State

/-!
# Checkpoints and restores

The handlers of `core/lcm.c` over physical memory, byte by byte: the snapshots, the VMs' memory and
the `struct vcpu`s all lie in it. `mem_translate` does not look at the address space it is given but
lets the pCPU translate, through the tables of the VM it runs and through the guest's own stage 1,
so the address it stores is an input `par` here; `none` is a fault, behind which it loops. A handler
returns `none` where its pCPU stops for good: in the loop of an `ERROR`, in the one behind a second
restore by id, or at a pointer to nothing.
-/

namespace Avisor

open Memory

/-- The fields of `struct vm_config` that the handlers read. -/
structure VmConfig where
  baseAddr : Nat
  loadAddr : Nat
  size : Nat
  entry : Nat
  dmemSize : Nat

/-- The number of bytes mapped for a VM at its base address. -/
def VmConfig.memSize (config : VmConfig) : Nat :=
  config.size + config.dmemSize

/-- `sizeof(struct snapshot)`: `ss_id`, `size`, `vm_id` and its padding, and `vcpu`. -/
def sizeofSnapshot (sizeofVcpu : Nat) : Nat :=
  24 + sizeofVcpu

/-- The fields of the pool's `struct snapshot_pool`, which lies in front of the snapshots. -/
structure SnapshotPool where
  base : Nat
  size : Nat
  last : Nat

/-- `sizeof(struct snapshot_pool)`. -/
def sizeofSnapshotPool : Nat := 40

/-- A physical address has at most 52 bits. -/
def physMax : Nat := 2 ^ 52

/-- What a build, its `config` and the page allocator fix: the VMs and their vCPUs, the addresses of
their structures, the first byte of each VM's memory, and the pages of the snapshot pool. Ranges
handed out for different purposes are apart, and a VM's memory is contiguous. -/
structure LcmConfig where
  nrVms : Nat
  vm : VmId → VmConfig
  nrCpus : VmId → Nat
  sizeofVcpu : Nat
  vmAddr : VmId → Nat
  vcpuAddr : VmId → Nat → Nat
  pa : VmId → Nat
  ssPoolPage : Nat
  ssPoolBytes : Nat
  nrVms_pos : 0 < nrVms
  sizeofVcpu_le : 296 ≤ sizeofVcpu
  sizeofVcpu_lt : sizeofVcpu < physMax
  ssPoolBytes_eq : ssPoolBytes = numPages
    (((vm 0).dmemSize + sizeofSnapshot sizeofVcpu) * 5 % sizeT) * pageSize
  ssPool_le : ssPoolPage + ssPoolBytes ≤ physMax
  vmAddr_lt : ∀ v < nrVms, vmAddr v < sizeT
  vmAddr_inj : ∀ v < nrVms, ∀ w < nrVms, vmAddr v = vmAddr w → v = w
  memory_le : ∀ v < nrVms, pa v + (vm v).memSize ≤ physMax
  memory_ssPool : ∀ v < nrVms, Apart (pa v) (vm v).memSize ssPoolPage ssPoolBytes
  memory_vcpu : ∀ v < nrVms, ∀ w < nrVms, ∀ i < nrCpus w,
    Apart (pa v) (vm v).memSize (vcpuAddr w i) sizeofVcpu
  vcpu_ssPool : ∀ v < nrVms, ∀ i < nrCpus v, Apart (vcpuAddr v i) sizeofVcpu ssPoolPage ssPoolBytes
  vcpu_vcpu : ∀ v < nrVms, ∀ i < nrCpus v, ∀ w < nrVms, ∀ j < nrCpus w, (v, i) ≠ (w, j) →
    Apart (vcpuAddr v i) sizeofVcpu (vcpuAddr w j) sizeofVcpu

/-- Physical memory and the globals of `lcm.c`: the only entry of `ss_pool_list`, once `ss_pool_init`
has run, `latest_ss`, with `0` for `NULL`, `latest_ss_id`, and `first` of
`restore_snapshot_hanlder`. -/
structure LcmState where
  mem : Memory
  ssPool : Option SnapshotPool
  latestSs : Nat
  latestSsId : Nat
  first : Bool

namespace LcmConfig

variable (cfg : LcmConfig)

/-- The offset of `vm` in `struct vcpu`, its last field. -/
def vcpuVmOff : Nat := cfg.sizeofVcpu - 8

/-- The VM whose `struct vm` is at `addr`. -/
def vmAt (addr : Nat) : Option VmId :=
  (List.range cfg.nrVms).find? fun v => cfg.vmAddr v = addr

/-- `CURRENT_VM` on a pCPU with `cpu()->vcpu` equal to `vcpu`. -/
def currentVm (mem : Memory) (vcpu : Nat) : Option VmId :=
  cfg.vmAt (readLe mem (vcpu + cfg.vcpuVmOff) 8)

/-- `pool_size` of `alloc_ss_pool`. -/
def ssPoolSize : Nat :=
  ((cfg.vm 0).dmemSize + sizeofSnapshot cfg.sizeofVcpu) * 5 % sizeT

end LcmConfig

/-- The offset of `regs` in `struct vcpu`. -/
def vcpuRegsOff : Nat := 16

/-- `sizeof(struct vcpu_regs)`. -/
def sizeofVcpuRegs : Nat := 272

/-- `vcpu_writereg`. -/
def vcpuWritereg (mem : Memory) (vcpu reg val : Nat) : Memory :=
  if reg > 30 then mem else writeLe mem (vcpu + vcpuRegsOff + 8 * reg) 8 val

/-- `vcpu_writepc`. -/
def vcpuWritepc (mem : Memory) (vcpu pc : Nat) : Memory :=
  writeLe mem (vcpu + vcpuRegsOff + 256) 8 pc

/-- `vcpu_arch_reset`, up to the system registers it sets at its end. -/
def vcpuArchReset (mem : Memory) (vcpu entry : Nat) : Memory :=
  let mem := memset mem (vcpu + vcpuRegsOff) 0#8 sizeofVcpuRegs
  let mem := writeLe mem (vcpu + vcpuRegsOff + 248) 8 0x3c5
  vcpuWritepc mem vcpu entry

section

variable (cfg : LcmConfig) (s : LcmState)

/-- `ss_pool_init`, with the `struct snapshot_pool` of `alloc_ss_pool`. -/
def ssPoolInit : LcmState :=
  let base := cfg.ssPoolPage + sizeofSnapshotPool
  { s with ssPool := some { base := base, size := cfg.ssPoolSize, last := base } }

/-- `checkpoint_snapshot_hanlder` on a pCPU with `cpu()->vcpu` equal to `vcpu`. -/
def checkpointSnapshotHanlder (vcpu : Nat) (par : Option Nat) : Option LcmState := do
  let vm ← cfg.currentVm s.mem vcpu
  let config := cfg.vm vm
  let s := if s.ssPool.isNone then ssPoolInit cfg s else s
  let pool ← s.ssPool
  let ss := pool.last
  if ss = 0 then none
  else do
    let mem := writeLe s.mem ss 8 s.latestSsId
    let mem := writeLe mem (ss + 8) 8
      (config.dmemSize + config.dmemSize + sizeofSnapshot cfg.sizeofVcpu)
    let mem := writeLe mem (ss + 16) 4 vm
    let mem := memcpy mem (ss + 24) vcpu cfg.sizeofVcpu
    let pa ← par
    let mem := memcpy mem (ss + sizeofSnapshot cfg.sizeofVcpu) pa
      ((config.size + config.dmemSize) % sizeT)
    -- `update_ss_pool_last(ss->size)`
    let pool := { pool with last := (pool.last + readLe mem (ss + 8) 8) % sizeT }
    some { s with
      mem := vcpuWritereg mem vcpu 0 (readLe mem ss 8)
      ssPool := some pool
      latestSs := ss
      latestSsId := (s.latestSsId + 1) % sizeT }

/-- `restart_vm`. -/
def restartVm (vcpu : Nat) (par : Option Nat) : Option LcmState := do
  let vm ← cfg.currentVm s.mem vcpu
  let config := cfg.vm vm
  let pa ← par
  let mem := memset s.mem pa 0#8 ((config.dmemSize + config.dmemSize) % sizeT)
  let mem := memcpy mem pa config.loadAddr config.dmemSize
  some { s with mem := vcpuArchReset mem vcpu config.entry }

/-- `restore_snapshot_hanlder_by_ss`. -/
def restoreSnapshotHanlderBySs (vcpu : Nat) (par : Option Nat) (ss : Nat) : Option LcmState := do
  let vm ← cfg.currentVm s.mem vcpu
  let config := cfg.vm vm
  let mem := memcpy s.mem vcpu (ss + 24) cfg.sizeofVcpu
  let pa ← par
  some { s with
    mem := memcpy mem pa (ss + sizeofSnapshot cfg.sizeofVcpu)
      ((config.dmemSize + config.dmemSize) % sizeT) }

/-- The inner loop of `get_ss_by_id` in a pool that ends at `limit`, with the `i` and `ss` it ends
with. -/
def ssWalk (mem : Memory) (limit id : Nat) : Nat → Nat → Nat → Nat × Nat
  | 0, i, ss => (i, ss)
  | fuel + 1, i, ss =>
    let next := (ss + readLe mem (ss + 8) 8) % sizeT
    if i < id ∧ next ≤ limit then ssWalk mem limit id fuel (i + 1) next else (i, ss)

/-- `get_ss_by_id`. Its counter is an `int`, so it takes at most `INT_MAX` hops. The list of the
pools has one entry; before `ss_pool_init` its head is zeroed, and what the loop takes for the first
pool is at an address no memory has. -/
def getSsById (id : Nat) : Option Nat := do
  let pool ← s.ssPool
  let walk := ssWalk s.mem ((pool.base + pool.size) % sizeT) id (min id intMax) 0 pool.base
  if id = walk.1 then some walk.2 else none

/-- What `restore_snapshot_hanlder` goes on to restore. -/
inductive Restore
  | restart
  | load (ss : Nat)
  | halt
  deriving DecidableEq, Repr

/-- The choice of `restore_snapshot_hanlder`, where `LATEST_SSID` is `-1`. -/
def ssToRestore (arg0 : Nat) : Restore :=
  if arg0 = sizeMax then
    if s.latestSs = 0 then .restart else .load s.latestSs
  else if s.first = false then .halt
  else
    match getSsById s arg0 with
    | none => .halt
    | some ss => if ss = 0 then .halt else .load ss

/-- `restore_snapshot_hanlder`. -/
def restoreSnapshotHanlder (vcpu : Nat) (par : Option Nat) (arg0 : Nat) : Option LcmState :=
  match ssToRestore s arg0 with
  | .restart => restartVm cfg s vcpu par
  | .load ss => (restoreSnapshotHanlderBySs cfg s vcpu par ss).map fun t =>
      if arg0 = sizeMax then t else { t with first := false }
  | .halt => none

end

end Avisor
