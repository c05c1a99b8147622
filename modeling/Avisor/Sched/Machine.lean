import Avisor.Lib.Machine
import Avisor.Sched.Bfs
import Avisor.Sched.Bmq

/-!
# The scheduler as a machine

The pCPUs run `try_reschedule`, `update_task_times` and the two scheduler hypercalls, interleaved in
any order. A step is a call or a piece of one, cut where the pCPU takes `rq_spin_lock`, waits at the
barrier of `update_task_times` or repeats a loop that found nothing. The barrier only delays a
pCPU, so leaving it is possible at any later time here; every order the real barrier allows is among
those. The machine starts behind the second barrier of `vmm_init`, where `vm_init` has run for every
VM.
-/

namespace Avisor

open Function

/-! ### Boot -/

/-- `vm_cpuid_to_mpidr`. -/
def vmCpuidToMpidr (nrCpus cpuid : Nat) : BitVec 64 :=
  if cpuid > nrCpus then ~~~(0x7fffffff#64 &&& ~~~(0x1f#64 <<< 25))
  else
    let mpidr := BitVec.ofNat 64 cpuid ||| 0x80000000#64
    if nrCpus = 1 then mpidr ||| (1#64 <<< 30) else mpidr

/-- What `vm_master_init`, `as_init` and `vm_vcpu_init` store for the scheduler in VM number `i`, and
the register `vm_init` writes between them; it runs on pCPU 0. -/
def vmMasterInit (cfg : SchedConfig) (s : SchedState) (i : VmId) : SchedState :=
  let vm : Vm := { id := i, nrCpus := cfg.nrCpus i, master := 0, ptRoot := cfg.ptRoot i }
  let s := s.modifyCpu 0 fun p => { p with vttbrEl2 := prepareToSwitch vm }
  { s with
    vms := update s.vms i vm
    vcpus := fun vp =>
      if vp.vm = i ∧ vp.idx < cfg.nrCpus i then
        { s.vcpus vp with id := vp.idx, vm := i, vmpidr := vmCpuidToMpidr (cfg.nrCpus i) vp.idx }
      else s.vcpus vp }

/-- `vm_init`, its part for the scheduler. -/
def vmInit (cfg : SchedConfig) (s : SchedState) (i : VmId) : Option SchedState :=
  let s := vmMasterInit cfg s i
  let head :=
    if s.rqPtr = none then
      (initializeRqnode cfg { s with prioRatios := initPr } none 0).map fun (pos, s) =>
        { s with rqPtr := some pos }
    else some s
  head.bind fun s =>
    (initializeRqnode cfg s (some i) bfsDefaultPrio).bind fun (rqnode, s) =>
      (initializeVCpuNode cfg s ⟨i, 0⟩ bmqDefaultPrio).bind fun (vnode, s) =>
        (vTaskInsert cfg s vnode rqnode).bind fun s => rqInsert s rqnode

/-- The state before `vmm_init`: the globals as loaded, the pCPUs as `cpu_init` leaves them. -/
def schedBoot : SchedState where
  rqnodeMemory := fun _ =>
    { vm := none, nrVcpuReady := 0, prio := 0, vdeadlineDiff := 0, vdeadline := 0, prev := none,
      next := none, bitmap := 0, multiQueue := 0, runVnode := none, state := .ready,
      timeSlice := 0, needResched := false }
  multiQueueMemory := fun _ => none
  vpnodeMemory := fun _ =>
    { cur := ⟨0, 0⟩, staticPrio := 0, prioAdj := 0, prio := 0, next := none, state := .ready,
      timeSlice := 0, needResched := false }
  rqnodeMemBitmap := fun _ => 0
  vpnodeMemBitmap := fun _ => 0
  prioRatios := fun _ => 0
  rqPtr := none
  bfsClock := 0
  ioSleepFlag := 0
  sleepVnode := none
  withSleepVnodeRqnode := none
  vms := fun _ => { id := 0, nrCpus := 0, master := 0, ptRoot := 0 }
  vcpus := fun _ => { id := 0, pId := 0, vmpidr := 0, vm := 0 }
  cpus := fun _ =>
    { rqnode := none, vcpu := none, flag := false, vttbrEl2 := 0, vmpidrEl2 := 0, pc := .boot }

/-- The loop of `vmm_init` over the first `n` VMs. -/
def vmmInit (cfg : SchedConfig) : Nat → Option SchedState
  | 0 => some schedBoot
  | n + 1 => (vmmInit cfg n).bind fun s => vmInit cfg s n

/-! ### The calls -/

/-- The wake-up in `update_task_times`: the sleeping vCPU goes back into the queues. -/
def wakeSleeper (cfg : SchedConfig) (s : SchedState) : Option SchedState :=
  s.sleepVnode.bind fun sleepVnode =>
    s.withSleepVnodeRqnode.bind fun rqnode =>
      let s := s.modifyVnode sleepVnode fun n => { n with needResched := true }
      (vTaskInsert cfg s sleepVnode rqnode).map fun s =>
        { s with sleepVnode := none, withSleepVnodeRqnode := none }

/-- What pCPU 0 does in `update_task_times` for all: it advances the clock, and wakes the sleeping
vCPU when its time has come. -/
def advanceClock (cfg : SchedConfig) (s : SchedState) : Option SchedState :=
  let s := { s with bfsClock := s.bfsClock + cfg.timerWait }
  if s.ioSleepFlag > 0 then
    let s := { s with ioSleepFlag := s.ioSleepFlag - 1 }
    if s.ioSleepFlag = 0 then wakeSleeper cfg s else some s
  else some s

/-- `update_task_times` up to its barrier. -/
def updateTaskTimesEnter (cfg : SchedConfig) (s : SchedState) (c : PCpuId) : Option SchedState :=
  (s.cpus c).rqnode.bind fun currentVm =>
    (s.rqnodeMemory currentVm).runVnode.bind fun currentVcpu =>
      (if c = 0 then advanceClock cfg s else some s).map (·.setPc c (.tick currentVm currentVcpu))

/-- One of the two countdowns of `update_task_times`: the slice left and whether it is used up. -/
def countdown (cfg : SchedConfig) (timeSlice : BitVec 64) (needResched : Bool) : BitVec 64 × Bool :=
  if timeSlice ≤ cfg.timerWait then (0, true) else (timeSlice - cfg.timerWait, needResched)

/-- The vCPU node behind its countdown. -/
def tickVnode (cfg : SchedConfig) (n : VCpuNode) : VCpuNode :=
  { n with
    timeSlice := (countdown cfg n.timeSlice n.needResched).1
    needResched := (countdown cfg n.timeSlice n.needResched).2 }

/-- The run queue node behind its countdown. -/
def tickRqnode (cfg : SchedConfig) (n : RunQueueNode) : RunQueueNode :=
  { n with
    timeSlice := (countdown cfg n.timeSlice n.needResched).1
    needResched := (countdown cfg n.timeSlice n.needResched).2 }

/-- `update_task_times` behind its barrier. -/
def updateTaskTimesLeave (cfg : SchedConfig) (s : SchedState) (c : PCpuId) (currentVm : RNode)
    (currentVcpu : VNode) : SchedState :=
  ((s.modifyVnode currentVcpu (tickVnode cfg)).modifyRq currentVm (tickRqnode cfg)).setPc c .guest

/-- The end of `try_reschedule`. -/
def tryRescheduleReturn (s : SchedState) (c : PCpuId) : SchedState :=
  s.modifyCpu c fun p => { p with flag := false, pc := .guest }

/-- `try_reschedule` up to `rq_insert`, the first `p_task_lookup`, `bmq_scheduler` or its end,
whichever comes first. -/
def tryReschedule (s : SchedState) (c : PCpuId) : Option SchedState :=
  if (s.cpus c).flag then some (s.setPc c .guest)
  else
    let s := s.modifyCpu c fun p => { p with flag := true }
    match (s.cpus c).rqnode with
    | none => some (s.setPc c .bfsLookup)
    | some currentVm =>
      if (s.rqnodeMemory currentVm).needResched then
        (bfsExpire s currentVm).map fun s => s.setPc c .bfsInsert
      else
        match (s.rqnodeMemory currentVm).runVnode with
        | none => some (s.setPc c .bmq)
        | some vnode =>
          if (s.vpnodeMemory vnode).needResched then some (s.setPc c .bmq)
          else some (tryRescheduleReturn s c)

/-- One round of the loop of `bmq_scheduler`; when it finds a vCPU, the rest of `bmq_scheduler` and
of `try_reschedule` follows. -/
def bmqLookupRound (s : SchedState) (c : PCpuId) (rqnode : RNode) : Option SchedState :=
  (vTaskLookup s rqnode).map fun (vnode, s) =>
    match vnode with
    | none => s.setPc c (.bmqLookup rqnode)
    | some vnode => tryRescheduleReturn (bmqRun s c rqnode vnode) c

/-- `sched_start_handler`, without its copy of the caller's registers. -/
def schedStartHandler (cfg : SchedConfig) (s : SchedState) (c : PCpuId) (arg0 : Nat) :
    Option SchedState := do
  let rqnode ← (s.cpus c).rqnode
  let vm ← (s.rqnodeMemory rqnode).vm
  let (vnode, s) ← initializeVCpuNode cfg s ⟨vm, arg0⟩ bmqDefaultPrio
  vTaskInsert cfg s vnode rqnode

/-- `sched_io_handler`. -/
def schedIoHandler (s : SchedState) (c : PCpuId) : Option SchedState := do
  let rqnode ← (s.cpus c).rqnode
  let sleepVnode ← (s.rqnodeMemory rqnode).runVnode
  let s := s.modifyVnode sleepVnode fun n => { prioManage n 1 with needResched := false }
  return { s with
    withSleepVnodeRqnode := some rqnode, sleepVnode := some sleepVnode, ioSleepFlag := 4 }

/-! ### The machine -/

/-- The functions a pCPU enters from outside the scheduler. -/
inductive Call
  | updateTaskTimes
  | tryReschedule
  | schedStartHandler (arg0 : Nat)
  | schedIoHandler
  deriving DecidableEq, Repr

/-- A pCPU enters a function, or goes on in the one it is in. -/
inductive Action
  | call (c : PCpuId) (f : Call)
  | resume (c : PCpuId)
  deriving DecidableEq, Repr

/-- The number of vCPUs of the VM that pCPU `c` runs. -/
def callerNrCpus (s : SchedState) (c : PCpuId) : Nat :=
  match (s.cpus c).rqnode with
  | none => 0
  | some rqnode =>
    match (s.rqnodeMemory rqnode).vm with
    | none => 0
    | some vm => (s.vms vm).nrCpus

/-- The effect of entering `f` on pCPU `c`. -/
def callEffect (cfg : SchedConfig) (s : SchedState) (c : PCpuId) : Call → Option SchedState
  | .updateTaskTimes => updateTaskTimesEnter cfg s c
  | .tryReschedule => tryReschedule s c
  | .schedStartHandler arg0 => schedStartHandler cfg s c arg0
  | .schedIoHandler => schedIoHandler s c

/-- The calls a pCPU can make where it is: before its first guest only `try_reschedule`, from a guest
all of them; a start hypercall names a vCPU of the caller. -/
def callEnabled (s : SchedState) (c : PCpuId) : Call → Bool
  | .tryReschedule => (s.cpus c).pc = .boot ∨ (s.cpus c).pc = .guest
  | .schedStartHandler arg0 => (s.cpus c).pc = .guest ∧ arg0 < callerNrCpus s c
  | _ => (s.cpus c).pc = .guest

/-- The rest of the call that pCPU `c` is in, up to its next pause; the outer `none` where it is in
no call. -/
def resumeEffect (cfg : SchedConfig) (s : SchedState) (c : PCpuId) : Option (Option SchedState) :=
  match (s.cpus c).pc with
  | .boot | .guest | .halted => none
  | .tick currentVm currentVcpu => some (some (updateTaskTimesLeave cfg s c currentVm currentVcpu))
  | .bfsInsert =>
    some ((s.cpus c).rqnode.bind fun rqnode => (rqInsert s rqnode).map (·.setPc c .bfsLookup))
  | .bfsLookup =>
    some ((pTaskLookup cfg s).map fun (rqnode, s) =>
      match rqnode with
      | none => s
      | some rqnode => s.setPc c (.bfsSelected rqnode))
  | .bfsSelected rqnode => some ((bfsRun s c rqnode).map (·.setPc c .bmq))
  | .bmq =>
    some ((s.cpus c).rqnode.bind fun rqnode =>
      (bmqRequeue cfg s rqnode).bind fun s => bmqLookupRound s c rqnode)
  | .bmqLookup rqnode => some (bmqLookupRound s c rqnode)

/-- The pCPU stops where an effect is `none`. -/
def orHalt (s : SchedState) (c : PCpuId) : Option SchedState → SchedState
  | some t => t
  | none => s.setPc c .halted

/-- The scheduler on the pCPUs of `cfg`. -/
def schedMachine (cfg : SchedConfig) : Machine SchedState Action where
  Init s := vmmInit cfg cfg.nrVms = some s
  step s
    | .call c f =>
      if c < cfg.hypNrCpus ∧ callEnabled s c f then some (orHalt s c (callEffect cfg s c f)) else none
    | .resume c =>
      if c < cfg.hypNrCpus then (resumeEffect cfg s c).map (orHalt s c) else none

end Avisor
