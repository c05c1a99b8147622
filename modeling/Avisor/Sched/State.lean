import Avisor.Data.Bitmap
import Avisor.Lib.LinkedList

/-!
# The scheduler's data

The structures and globals of `core/inc/sched.h`, `core/sched.c`, and the fields of `struct cpu`,
`struct vm` and `struct vcpu` that the scheduler reads and writes. Nodes live in the static arrays
`rqnode_memory` and `vpnode_memory`, so a node pointer is an index into its array; a pointer into a
VM's `vcpus` array is the VM together with the index.
-/

namespace Avisor

open Function

/-- The position of a `struct vm`, the id that `vmm_init` creates it with. -/
abbrev VmId := Nat

/-- A pCPU, `cpu()->id`. -/
abbrev PCpuId := Nat

/-- A `vCpuNode*`, as index into `vpnode_memory`. -/
abbrev VNode := Nat

/-- A `runQueueNode*`, as index into `rqnode_memory`. -/
abbrev RNode := Nat

/-- A `struct vcpu*`: the address of `vm->vcpus[idx]`. -/
structure VcpuRef where
  vm : VmId
  idx : Nat
  deriving DecidableEq, Repr

/-- `TASK_READY`, `TASK_RUNNING`, `TASK_PENDING`. -/
inductive TaskState
  | ready
  | running
  | pending
  deriving DecidableEq, Repr

def bfsDefaultPrio : Nat := 5
def bmqDefaultPrio : Nat := 5
def prioWidth : Nat := 10
def bmqBitmapSize : Nat := 10
def maxprioAdj : Int := 5
def bfsRrInterval : Nat := 4000
def bmqRrInterval : Nat := 1000

/-- `vCpuNode`. -/
structure VCpuNode where
  cur : VcpuRef
  staticPrio : Nat
  prioAdj : Int
  prio : Nat
  next : Option VNode
  state : TaskState
  timeSlice : BitVec 64
  needResched : Bool

/-- `runQueueNode`; `multiQueue` is the offset of the node's levels in `multi_queue_memory`. The
field `vq_ptr` belongs to the round-robin scheduler that the build does not call. -/
structure RunQueueNode where
  vm : Option VmId
  nrVcpuReady : BitVec 32
  prio : Nat
  vdeadlineDiff : BitVec 64
  vdeadline : BitVec 64
  prev : Option RNode
  next : Option RNode
  bitmap : BitVec 64
  multiQueue : Nat
  runVnode : Option VNode
  state : TaskState
  timeSlice : BitVec 64
  needResched : Bool

/-- The fields of `struct vm` the scheduler uses; `ptRoot` is `as.pt.root`. -/
structure Vm where
  id : Nat
  nrCpus : Nat
  master : PCpuId
  ptRoot : BitVec 64

/-- The fields of `struct vcpu` the scheduler uses; `vmpidr` is `arch.vmpidr`. -/
structure Vcpu where
  id : Nat
  pId : PCpuId
  vmpidr : BitVec 64
  vm : VmId

/-- Where a pCPU is between two atomic steps. -/
inductive Pc
  /-- Before the first `try_reschedule` of `vmm_init`. -/
  | boot
  /-- In its guest, or handling an exit outside the functions below. -/
  | guest
  /-- At the barrier of `update_task_times`, with its two local pointers. -/
  | tick (currentVm : RNode) (currentVcpu : VNode)
  /-- In `bfs_scheduler`, about to call `rq_insert`. -/
  | bfsInsert
  /-- In the loop of `bfs_scheduler` around `p_task_lookup`. -/
  | bfsLookup
  /-- `p_task_lookup` has returned the node to `bfs_scheduler`. -/
  | bfsSelected (rqnode : RNode)
  /-- About to call `bmq_scheduler`. -/
  | bmq
  /-- In the loop of `bmq_scheduler` around `v_task_lookup`. -/
  | bmqLookup (rqnode : RNode)
  /-- Stopped for good: in the loop of a failed `ASSERT`, or at a fault taken in the hypervisor. -/
  | halted
  deriving DecidableEq, Repr

/-- The fields of `struct cpu` the scheduler uses, two system registers of the pCPU and the point
its execution has reached. -/
structure PCpu where
  rqnode : Option RNode
  vcpu : Option VcpuRef
  flag : Bool
  vttbrEl2 : BitVec 64
  vmpidrEl2 : BitVec 64
  pc : Pc

/-- What a build and its `config` fix: the sizes `MAX_VM_NUM` and `MAX_VCPU_NUM` of the static
arrays, the VMs and their numbers of vCPUs, at least one each, the page-table roots `as_init` gives
them, the number of pCPUs and `TIMER_WAIT`. -/
structure SchedConfig where
  maxVmNum : Nat
  maxVcpuNum : Nat
  nrVms : Nat
  nrCpus : VmId → Nat
  nrCpus_pos : ∀ i, 0 < nrCpus i
  ptRoot : VmId → BitVec 64
  hypNrCpus : Nat
  timerWait : BitVec 64

/-- `RNODE_NUM`. -/
def SchedConfig.rnodeNum (cfg : SchedConfig) : Nat := cfg.maxVmNum + 8

/-- `VNODE_NUM`. -/
def SchedConfig.vnodeNum (cfg : SchedConfig) : Nat := cfg.maxVcpuNum + 8

/-- The state of the scheduler: its globals, and the VMs, vCPUs and pCPUs it works on. -/
structure SchedState where
  rqnodeMemory : RNode → RunQueueNode
  multiQueueMemory : Nat → Option VNode
  vpnodeMemory : VNode → VCpuNode
  rqnodeMemBitmap : Bitmap
  vpnodeMemBitmap : Bitmap
  prioRatios : Nat → Nat
  rqPtr : Option RNode
  bfsClock : BitVec 64
  ioSleepFlag : Int
  sleepVnode : Option VNode
  withSleepVnodeRqnode : Option RNode
  vms : VmId → Vm
  vcpus : VcpuRef → Vcpu
  cpus : PCpuId → PCpu

namespace SchedState

variable (s : SchedState)

/-- A store to fields of the run queue node `r`. -/
def modifyRq (r : RNode) (f : RunQueueNode → RunQueueNode) : SchedState :=
  { s with rqnodeMemory := update s.rqnodeMemory r (f (s.rqnodeMemory r)) }

/-- A store to fields of the vCPU node `v`. -/
def modifyVnode (v : VNode) (f : VCpuNode → VCpuNode) : SchedState :=
  { s with vpnodeMemory := update s.vpnodeMemory v (f (s.vpnodeMemory v)) }

/-- A store to fields of `struct cpu` number `c`. -/
def modifyCpu (c : PCpuId) (f : PCpu → PCpu) : SchedState :=
  { s with cpus := update s.cpus c (f (s.cpus c)) }

/-- The execution of pCPU `c` reaches `pc`. -/
def setPc (c : PCpuId) (pc : Pc) : SchedState := s.modifyCpu c fun p => { p with pc := pc }

/-- The successor links of the vCPU nodes. -/
def vnext (v : VNode) : Option VNode := (s.vpnodeMemory v).next

/-- `r->multi_queue[i]`. -/
def level (r : RNode) (i : Nat) : Option VNode :=
  s.multiQueueMemory ((s.rqnodeMemory r).multiQueue + i)

/-- The node `v` was handed out by `malloc_vpnode`: `initialize_vCpuNode` created it. -/
def Created (v : VNode) : Prop := bitmapGet s.vpnodeMemBitmap v = true

/-- `r` is the run queue node of the VM that vCPU node `v` belongs to. -/
def Home (v : VNode) (r : RNode) : Prop :=
  (s.rqnodeMemory r).vm = some (s.vpnodeMemory v).cur.vm

end SchedState

end Avisor
