import Avisor.Sched.Context
import Avisor.Vgic.RegisterMessages

/-!
# Virtual interrupts on pCPUs that are shared

The virtual interrupt controllers together with the scheduler. While a pCPU is in its guest, it
handles what the guest and the interrupts ask for, one call at a time; in between the schedulers of all
pCPUs take their steps. A pCPU that does not come out of a call stops.
-/

namespace Avisor

open Function

/-- What a build and its `config` fix for both. `vmCpus` are the `cpus` of the VMs, which nothing
writes after `vm_init`. -/
structure HvConfig where
  sched : SchedConfig
  vgic : VgicConfig
  vmCpus : VmId → BitVec 64
  hypNrCpus_pos : 0 < sched.hypNrCpus
  msgCpus : vgic.msg.hypNrCpus = sched.hypNrCpus
  cpuNum_le : vgic.cpuNum ≤ sched.hypNrCpus
  nrCpus : vgic.nrCpus = sched.nrCpus

/-- The state of the scheduler and of the virtual interrupt controllers. -/
structure HvState where
  sched : SchedState
  vgic : VgicState

/-- What pCPU `c` finds where it runs `vcpu`. -/
def HvState.env (cfg : HvConfig) (x : HvState) (c : PCpuId) (vcpu : VcpuRef) : VgicEnv where
  cfg := cfg.vgic
  self := c
  current := vcpu
  pId v := (x.sched.vcpus v).pId
  master m := (x.sched.vms m).master
  cpus := cfg.vmCpus

/-- What a guest does to a list register: it takes the pending interrupt, it completes the active one,
or it completes an interrupt that is in none. -/
inductive GuestAction
  | acknowledge (n : Nat)
  | complete (n : Nat)
  | completeSpilled
  deriving DecidableEq

/-- The list register behind the guest's completion. -/
def ListReg.complete (lr : ListReg) : ListReg :=
  { lr with state := { lr.state with act := false } }

/-- The effect of the guest on the list registers of pCPU `c`; `none` where the hardware does no such
thing. -/
def guestEffect (cfg : VgicConfig) (s : VgicState) (c : PCpuId) : GuestAction → Option VgicState
  | .acknowledge n =>
    if n < cfg.numLrs ∧ (s.lr c n).state = .pending then
      some (s.writeLr c n { s.lr c n with state := .active })
    else none
  | .complete n =>
    if n < cfg.numLrs ∧ (s.lr c n).state.act then some (s.writeLr c n (s.lr c n).complete) else none
  | .completeSpilled => some (s.setHcr c { s.hcr c with eoiCount := (s.hcr c).eoiCount + 1 })

/-- One round of the loop of `cpu_msg_handler`. -/
def cpuMsgRound (E : VgicEnv) (s : VgicState) : Option VgicState :=
  match cpuGetMsg s.msgs E.self with
  | none => some s
  | some (msg, msgs) =>
    let s := { s with msgs := msgs }
    if E.cfg.msg.handles msg && msg.handler = E.cfg.vgicIpiId then
      vgicIpiHandler E s msg.event msg.data
    else some s

/-- What a pCPU in its guest does for the virtual interrupts: a write of the guest to a register of an
interrupt, to `GICD_CTLR`, `GICD_SGIR` or `ICC_SGI1R`; an interrupt to inject; the maintenance
interrupt; a message to handle; and the guest's dealings with the list registers. -/
inductive VgicCall
  | setField (id : RegHandlerId) (i : IntRef) (data : BitVec 64)
  | writeCtlr (val : BitVec 64)
  | writeSgir (val : BitVec 64)
  | writeSgi1r (sgir : BitVec 64)
  | injectHw (id : Nat)
  | inject (id : Nat) (source : Nat)
  | maintenance
  | message
  | guest (g : GuestAction)
  deriving DecidableEq

/-- The effect of a call. -/
def vgicEffect (E : VgicEnv) (s : VgicState) : VgicCall → Option VgicState
  | .setField id i data =>
    vgicIntSetField E s (regHandlerInfoTable E.cfg.version id) E.current i data
  | .writeCtlr val => vgicdWriteCtlr E s val
  | .writeSgir val => vgicdWriteSgir E s val
  | .writeSgi1r sgir => vgicIccSgirHandler E s sgir
  | .injectHw id => vgicInjectHw E s E.current id
  | .inject id source => vgicInject E s E.current id source
  | .maintenance => gicMaintenanceHandler E s
  | .message => cpuMsgRound E s
  | .guest g => guestEffect E.cfg s E.self g

/-- The calls that can be made: a register write is to a register of the build, and to an interrupt of
the VM; without redistributors a private one is the vCPU's own. The guest moves its interrupts as the
hardware does. -/
def vgicEnabled (E : VgicEnv) (s : VgicState) : VgicCall → Bool
  | .setField id i _ =>
    (regHandlerInfoTable E.cfg.version id).fields.isSome &&
      match i with
      | .priv vcpu n => n < gicCpuPriv && vcpu.vm = E.current.vm && vcpu.idx < E.cfg.nrCpus vcpu.vm &&
          (vcpu = E.current || E.cfg.version = .v3)
      | .shared vm n => vm = E.current.vm && gicCpuPriv ≤ n && n < E.cfg.intNum vm
  | .writeSgir _ => E.cfg.version = .v2
  | .writeSgi1r _ => E.cfg.version = .v3
  | .guest g => (guestEffect E.cfg s E.self g).isSome
  | _ => true

/-- A step of the scheduler, or a call on a pCPU in its guest. -/
inductive HvAction
  | sched (a : Action)
  | vgic (c : PCpuId) (call : VgicCall)

/-- The effect of a call on pCPU `c`, which runs `vcpu`. -/
def hvCall (cfg : HvConfig) (x : HvState) (c : PCpuId) (vcpu : VcpuRef) (call : VgicCall) : HvState :=
  match vgicEffect (x.env cfg c vcpu) x.vgic call with
  | some t => { x with vgic := t }
  | none => { x with sched := x.sched.setPc c .halted }

/-- `GICH_HCR` behind `gic_cpu_init`. -/
def hcrBoot : GichHcr where
  en := false
  uie := false
  lrenpie := true
  npie := false
  eoiCount := 0

/-- What `vgic_init`, `vgic_cpu_init` and `gic_cpu_init` leave: no interrupt is pending, active or in
a list register, the lists are empty, and no message is sent. A private interrupt belongs to its vCPU
in the GICv2 build, all others to nobody. -/
structure VgicBoot (cfg : VgicConfig) (s : VgicState) : Prop where
  state : ∀ i, (s.ints i).state = .inv
  inLr : ∀ i, (s.ints i).inLr = false
  sgiPend : ∀ i, (s.ints i).sgiPend = 0
  prio : ∀ i, (s.ints i).prio = gicLowestPrio
  intCfg : ∀ m n, (s.ints (.shared m n)).cfg = 0
  priv : ∀ v n, (s.ints (.priv v n)).owner = if cfg.version = .v2 then some v else none
  shared : ∀ m n, (s.ints (.shared m n)).owner = none
  targets : ∀ i, (s.ints i).targets = 0
  route : ∀ m n, (s.ints (.shared m n)).route = gicdIrouterInv
  phys : ∀ m n, (s.ints (.shared m n)).phys = gicdIrouterInv
  enabled : ∀ i, (s.ints i).enabled = (cfg.version = .v2 && gicIsSgi i.id)
  hw : ∀ i, gicIsSgi i.id → (s.ints i).hw = false
  heads : ∀ h, s.links.next (.head h) = .head h ∧ s.links.prev (.head h) = .head h
  ctlr : ∀ m, s.ctlr m = 0
  lr : ∀ c n, s.lr c n = .zero
  hcr : ∀ c, s.hcr c = hcrBoot
  msgs : MsgBoot cfg.msg s.msgs
  sent : s.sent = []

/-- The machine of the hypervisor, as far as virtual interrupts go. -/
def hvMachine (cfg : HvConfig) : Machine HvState HvAction where
  Init x := (schedMachine cfg.sched).Init x.sched ∧ VgicBoot cfg.vgic x.vgic
  step x
    | .sched a => ((schedMachine cfg.sched).step x.sched a).map fun t => { x with sched := t }
    | .vgic c call =>
      match (x.sched.cpus c).vcpu with
      | some vcpu =>
        if c < cfg.sched.hypNrCpus ∧ (x.sched.cpus c).pc = .guest ∧
            vgicEnabled (x.env cfg c vcpu) x.vgic call then some (hvCall cfg x c vcpu call)
        else none
      | none => none

/-! ### Two VMs on two pCPUs -/

/-- The interrupts of both builds at boot, none of them tied to a physical one. -/
def vgicIntAtBoot (version : GicVersion) (i : IntRef) : VgicInt where
  owner :=
    match i with
    | .priv vcpu _ => if version = .v2 then some vcpu else none
    | .shared _ _ => none
  route := gicdIrouterInv
  phys :=
    match i with
    | .priv _ _ => 0
    | .shared _ _ => gicdIrouterInv
  state := .inv
  prio := gicLowestPrio
  cfg := 0
  lr := 0
  targets := 0
  sgiPend := 0
  hw := false
  inLr := false
  enabled := version = .v2 && gicIsSgi i.id

/-- A state behind boot. -/
def vgicAtBoot (version : GicVersion) : VgicState where
  ints := vgicIntAtBoot version
  links := { next := id, prev := id }
  currLrs _ _ := 0
  ctlr _ := 0
  gich _ := { hcr := hcrBoot, lr := fun _ => .zero }
  gic _ := { enable := false, pend := false, act := false, cfg := 0, prio := 0, trgt := 0, route := 0 }
  msgs := { links := { next := id, prev := id }, msg := fun _ => ⟨0, 0, 0⟩, bitmap := fun _ => 0 }
  sent := []

theorem vgicAtBoot_boot (cfg : VgicConfig) : VgicBoot cfg (vgicAtBoot cfg.version) where
  state _ := rfl
  inLr _ := rfl
  sgiPend _ := rfl
  prio _ := rfl
  intCfg _ _ := rfl
  priv _ _ := rfl
  shared _ _ := rfl
  targets _ := rfl
  route _ _ := rfl
  phys _ _ := rfl
  enabled _ := rfl
  hw _ _ := rfl
  heads _ := ⟨rfl, rfl⟩
  ctlr _ := rfl
  lr _ _ := rfl
  hcr _ := rfl
  msgs := ⟨fun _ _ => ⟨rfl, rfl⟩, fun n => by simp [vgicAtBoot, bitmapGet_eq]⟩
  sent := rfl

/-- Two VMs of two vCPUs each, whose slices last one tick. -/
def twoVmsSched : SchedConfig where
  maxVmNum := 2
  maxVcpuNum := 4
  nrVms := 2
  nrCpus _ := 2
  nrCpus_pos _ := Nat.two_pos
  ptRoot vm := BitVec.ofNat 64 (0x1000 * (vm + 1))
  hypNrCpus := 2
  timerWait := 4000

/-- They share two pCPUs. -/
def twoVms (version : GicVersion) (numLrs : Nat) (numLrs_pos : 0 < numLrs) : HvConfig where
  sched := twoVmsSched
  vgic := twoVcpus version numLrs numLrs_pos
  vmCpus _ := 0
  hypNrCpus_pos := Nat.two_pos
  msgCpus := rfl
  cpuNum_le := Nat.le_refl 2
  nrCpus := rfl

/-- They boot. -/
def twoVmsBoot (version : GicVersion) : HvState where
  sched := (vmmInit twoVmsSched 2).getD schedBoot
  vgic := vgicAtBoot version

theorem twoVmsBoot_init {version : GicVersion} {numLrs : Nat} {numLrs_pos : 0 < numLrs} :
    (hvMachine (twoVms version numLrs numLrs_pos)).Init (twoVmsBoot version) := by
  refine ⟨?_, vgicAtBoot_boot (twoVcpus version numLrs numLrs_pos)⟩
  have hsome : (vmmInit twoVmsSched 2).isSome = true := by decide
  obtain ⟨s, hs⟩ := Option.isSome_iff_exists.mp hsome
  change vmmInit twoVmsSched 2 = some (twoVmsBoot version).sched
  rw [twoVmsBoot, hs]
  rfl

/-- pCPU 0 starts its first vCPU. -/
def startFirst : List HvAction :=
  [.sched (.call 0 .tryReschedule), .sched (.resume 0), .sched (.resume 0), .sched (.resume 0)]

/-- pCPU 0 ticks, and its VM has used up its slice: it goes on with another VM. -/
def changeVm : List HvAction :=
  [.sched (.call 0 .updateTaskTimes), .sched (.resume 0), .sched (.call 0 .tryReschedule),
    .sched (.resume 0), .sched (.resume 0), .sched (.resume 0), .sched (.resume 0)]

/-! ### Steps -/

/-- The transitions of the machine. -/
inductive HvStep (cfg : HvConfig) (x : HvState) : HvAction → HvState → Prop
  | sched (a t) (step : SchedStep cfg.sched x.sched a t)
      (taken : (schedMachine cfg.sched).step x.sched a = some t) :
      HvStep cfg x (.sched a) { x with sched := t }
  | vgic (c call vcpu t) (cpu : c < cfg.sched.hypNrCpus) (pc : (x.sched.cpus c).pc = .guest)
      (vcpu_eq : (x.sched.cpus c).vcpu = some vcpu)
      (enabled : vgicEnabled (x.env cfg c vcpu) x.vgic call = true)
      (effect : vgicEffect (x.env cfg c vcpu) x.vgic call = some t) :
      HvStep cfg x (.vgic c call) { x with vgic := t }
  | halt (c call vcpu) (cpu : c < cfg.sched.hypNrCpus) (pc : (x.sched.cpus c).pc = .guest)
      (vcpu_eq : (x.sched.cpus c).vcpu = some vcpu)
      (effect : vgicEffect (x.env cfg c vcpu) x.vgic call = none) :
      HvStep cfg x (.vgic c call) { x with sched := x.sched.setPc c .halted }

theorem step_hvStep {cfg : HvConfig} {x y : HvState} {a : HvAction}
    (h : (hvMachine cfg).step x a = some y) : HvStep cfg x a y := by
  cases a with
  | sched a =>
    obtain ⟨t, ht, rfl⟩ := Option.map_eq_some_iff.mp h
    exact .sched a t (step_schedStep ht) ht
  | vgic c call =>
    simp only [hvMachine] at h
    split at h
    · rename_i vcpu hvcpu
      split at h
      · rename_i hguard
        obtain ⟨hcpu, hpc, henabled⟩ := hguard
        cases h
        unfold hvCall
        cases heffect : vgicEffect (x.env cfg c vcpu) x.vgic call with
        | some t => exact .vgic c call vcpu t hcpu hpc hvcpu henabled heffect
        | none => exact .halt c call vcpu hcpu hpc hvcpu heffect
      · cases h
    · cases h

/-! ### Where the vCPUs are -/

/-- Every vCPU and every VM is recorded on a pCPU that exists. -/
structure Placed (n : Nat) (s : SchedState) : Prop where
  vcpu : ∀ v, (s.vcpus v).pId < n
  master : ∀ m, (s.vms m).master < n

variable {n : Nat} {s t : SchedState}

theorem Placed.congr (h : Placed n s) (hvcpus : t.vcpus = s.vcpus) (hvms : t.vms = s.vms) :
    Placed n t :=
  ⟨fun v => hvcpus ▸ h.vcpu v, fun m => hvms ▸ h.master m⟩

theorem Placed.vTaskInsert {cfg : SchedConfig} {v : VNode} {r : RNode} (h : Placed n s)
    (hinsert : vTaskInsert cfg s v r = some t) : Placed n t := by
  obtain ⟨next, levels, rfl, -⟩ := vTaskInsert_eq_some hinsert
  exact h.congr rfl rfl

theorem Placed.vTaskLookup {v : Option VNode} {r : RNode} (h : Placed n s)
    (hlookup : vTaskLookup s r = some (v, t)) : Placed n t := by
  cases v with
  | none =>
    rw [(vTaskLookup_eq_none hlookup).2]
    exact h
  | some v =>
    obtain ⟨i, -, -, rfl⟩ := vTaskLookup_eq_some hlookup
    exact h.congr rfl rfl

theorem Placed.bmqRequeue {cfg : SchedConfig} {r : RNode} (h : Placed n s)
    (hrequeue : bmqRequeue cfg s r = some t) : Placed n t := by
  rcases bmqRequeue_eq_some hrequeue with ⟨rfl, -⟩ | ⟨v, -, -, hinsert⟩
  · exact h
  · apply Placed.vTaskInsert ?_ hinsert
    exact h.congr rfl rfl

/-- `switch_to` records the vCPU on its own pCPU. -/
theorem Placed.bmqRun {c : PCpuId} {r : RNode} {v : VNode} (h : Placed n s) (hc : c < n) :
    Placed n (tryRescheduleReturn (bmqRun s c r v) c) := by
  refine ⟨fun w => ?_, h.master⟩
  simp only [tryRescheduleReturn, Avisor.bmqRun, bmqAssign, switchTo, SchedState.modifyCpu,
    SchedState.modifyRq, SchedState.modifyVnode, update_self]
  by_cases hw : w = (s.vpnodeMemory v).cur
  · subst hw
    rw [update_self]
    exact hc
  · rw [update_of_ne hw]
    exact h.vcpu w

theorem Placed.vmmInit {cfg : SchedConfig} (hn : 0 < n) (k : Nat)
    (h : vmmInit cfg k = some s) : Placed n s := by
  induction k generalizing s with
  | zero =>
    cases h
    exact ⟨fun _ => hn, fun _ => hn⟩
  | succ k ih =>
    obtain ⟨u, hu, h⟩ := Option.bind_eq_some_iff.mp h
    obtain ⟨hvms, hvcpus, -⟩ := vmInit_tables h
    have hu := ih hu
    have hmaster : Placed n (vmMasterInit cfg u k) := by
      constructor
      · intro v
        simp only [vmMasterInit]
        split
        · exact hu.vcpu v
        · exact hu.vcpu v
      · intro m
        simp only [vmMasterInit]
        by_cases hm : m = k
        · subst hm
          rw [update_self]
          exact hn
        · rw [update_of_ne hm]
          exact hu.master m
    exact hmaster.congr hvcpus hvms

theorem Placed.step {cfg : SchedConfig} {a : Action} (h : Placed n s) (hc : a.cpu < n)
    (hstep : SchedStep cfg s a t) : Placed n t := by
  cases hstep with
  | haltCall | haltResume | tickWait | tickClock | tickCount | tickLeave | reschedBusy | reschedFirst
  | reschedVcpu | reschedKeep | sleep => exact h.congr rfl rfl
  | tickWake r v u q w pc rqnode run flag sleeper home insert =>
    have hstart : Placed n (wakeStart cfg s u) := h.congr rfl rfl
    exact (hstart.vTaskInsert insert).congr rfl rfl
  | reschedVm c r u pc flag rqnode expire =>
    obtain ⟨-, rfl⟩ := bfsExpire_eq_some expire
    exact h.congr rfl rfl
  | start c arg0 r m v u t pc rqnode vm arg create insert =>
    obtain ⟨-, -, rfl⟩ := initializeVCpuNode_eq_some create
    apply Placed.vTaskInsert ?_ insert
    exact h.congr rfl rfl
  | bfsInsert c r u pc rqnode insert =>
    obtain ⟨head, -, rfl⟩ := rqInsert_eq_some insert
    exact h.congr rfl rfl
  | bfsMiss c u pc lookup =>
    rw [pTaskLookup_eq_none lookup]
    exact h
  | bfsHit c r u pc lookup =>
    obtain ⟨-, -, -, hremove⟩ := pTaskLookup_eq_some lookup
    obtain ⟨p, -, rfl⟩ := rqRemove_eq_some hremove
    exact h.congr rfl rfl
  | bfsRun c r u pc run =>
    obtain ⟨m, hm, rfl⟩ := bfsRun_eq_some run
    refine ⟨h.vcpu, fun m' => ?_⟩
    change (update s.vms m { s.vms m with master := c } m').master < n
    by_cases hm' : m' = m
    · subst hm'
      rw [update_self]
      exact hc
    · rw [update_of_ne hm']
      exact h.master m'
  | bmqSpin c r u w pc rqnode requeue lookup =>
    exact ((h.bmqRequeue requeue).vTaskLookup lookup).congr rfl rfl
  | bmqRun c r u v w pc rqnode requeue lookup =>
    exact ((h.bmqRequeue requeue).vTaskLookup lookup).bmqRun hc
  | bmqMiss c r u pc lookup => exact (h.vTaskLookup lookup).congr rfl rfl
  | bmqFind c r v u pc lookup => exact (h.vTaskLookup lookup).bmqRun hc

end Avisor
