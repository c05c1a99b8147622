import Avisor.Irq.Assignment
import Avisor.Sched.Context

/-!
# Interrupts that arrive

Physical interrupts arrive on any pCPU between any two steps of the scheduler. `interrupts_handle` asks the
VM of `cpu()->vcpu` for the interrupt, whoever it was assigned to.
-/

namespace Avisor

open Function

/-- An interrupt that arrived on pCPU `cpu`, and what `interrupts_handle` did. -/
structure Arrival where
  cpu : PCpuId
  id : Nat
  res : Option IrqRes

/-- The scheduler, who owns the interrupts, and the interrupts that arrived so far. -/
structure ArrivalRun where
  sched : SchedState
  irq : IrqState
  arrived : List Arrival

/-- A step of the scheduler, or the arrival of the interrupt `id` on pCPU `c`. -/
inductive ArrivalAction
  | sched (a : Action)
  | arrive (c : PCpuId) (id : Nat)

/-- `interrupts_handle` on pCPU `c`; before its first vCPU there is none whose VM could be asked. -/
def handleOn (x : ArrivalRun) (c : PCpuId) (id : Nat) : Option IrqRes :=
  (x.sched.cpus c).vcpu.bind fun vcpu => interruptsHandle x.irq (x.sched.vcpus vcpu).vm vcpu id

/-- The step of the machine: an interrupt that arrives is one of the hypervisor or of some VM. -/
def arrivalStep (cfg : SchedConfig) (x : ArrivalRun) : ArrivalAction → Option ArrivalRun
  | .sched a => ((schedMachine cfg).step x.sched a).map fun t => { x with sched := t }
  | .arrive c id =>
    if c < cfg.hypNrCpus ∧ (interruptIsReserved x.irq id = true ∨
        ∃ v < cfg.nrVms, vmHasInterrupt x.irq v id = true) then
      some { x with arrived := ⟨c, id, handleOn x c id⟩ :: x.arrived }
    else none

/-- The scheduler behind `vmm_init`, and interrupts given away by any calls. -/
structure ArrivalStart (cfg : SchedConfig) (x : ArrivalRun) : Prop where
  sched : (schedMachine cfg).Init x.sched
  irq : irqMachine.Reachable x.irq
  arrived : x.arrived = []

/-- The machine of the scheduler under interrupts. -/
def arrivalMachine (cfg : SchedConfig) : Machine ArrivalRun ArrivalAction where
  Init := ArrivalStart cfg
  step := arrivalStep cfg

/-- The arrival did not end in `ERROR`, and an interrupt of a VM went to a vCPU of such a VM. -/
structure Served (irq : IrqState) (a : Arrival) : Prop where
  known : a.res ≠ none
  owner : (∃ w, vmHasInterrupt irq w a.id = true) →
    ∃ vcpu, a.res = some (.forwardToVm vcpu) ∧ vmHasInterrupt irq vcpu.vm a.id = true

/-- All arrivals were served. -/
def AllServed (x : ArrivalRun) : Prop := ∀ a ∈ x.arrived, Served x.irq a

/-- The interrupt is of the VM that is current on the pCPU, or only of the hypervisor. -/
def OwnerCurrent (x : ArrivalRun) : ArrivalAction → Prop
  | .sched _ => True
  | .arrive c id => ∃ vcpu, (x.sched.cpus c).vcpu = some vcpu ∧
      (vmHasInterrupt x.irq vcpu.vm id = true ∨
        interruptIsReserved x.irq id = true ∧ ∀ w, vmHasInterrupt x.irq w id = false)

/-- A vCPU that is current on a pCPU belongs to the VM in whose array it is. -/
structure CurrentWf (cfg : SchedConfig) (s : SchedState) : Prop where
  wf : SchedWf cfg s
  context : ContextWf s
  vcpu_vm : ∀ c vcpu, (s.cpus c).vcpu = some vcpu → (s.vcpus vcpu).vm = vcpu.vm

variable {cfg : SchedConfig} {s t : SchedState} {x y : ArrivalRun} {c : PCpuId} {id : Nat}

theorem SchedStep.vcpus_vm {a : Action} (h : SchedStep cfg s a t) (vcpu : VcpuRef) :
    (t.vcpus vcpu).vm = (s.vcpus vcpu).vm := by
  rcases h.statics with hst | ⟨r, m, i, v, -, -, hst⟩
  · exact congrFun (congrArg Statics.vcpuVm hst) vcpu
  · exact congrFun (congrArg Statics.vcpuVm hst) vcpu

theorem CurrentWf.step {a : Action} (h : CurrentWf cfg s) (hstep : SchedStep cfg s a t) :
    CurrentWf cfg t := by
  have hwf := h.wf.step hstep
  have hcontext := h.context.step h.wf hstep
  refine ⟨hwf, hcontext, fun c vcpu hvcpu => ?_⟩
  obtain ⟨p, hmove, hcpus⟩ := hstep.cpus
  by_cases hc : c = a.cpu
  · subst hc
    have hp : t.cpus a.cpu = p := by rw [hcpus, update_self]
    have hold (hsame : p.vcpu = (s.cpus a.cpu).vcpu) : (t.vcpus vcpu).vm = vcpu.vm := by
      rw [hstep.vcpus_vm]
      refine h.vcpu_vm a.cpu vcpu ?_
      rw [← hsame, ← hp]
      exact hvcpu
    cases hmove with
    | run r u v w vcpu' vmpidr requeued lookup runs =>
      obtain ⟨r', m, v', hcoherent⟩ := hcontext.coherent a.cpu (by rw [hp]; simp) (by rw [hp])
      have hcur := hcoherent.vcpu
      rw [hvcpu] at hcur
      obtain rfl := Option.some.inj hcur
      exact hcoherent.vcpu_vm.trans
        (hwf.queues.run_mem r' m v' hcoherent.ready.vm hcoherent.run).2.symm
    | _ => exact hold rfl
  · rw [hcpus, update_of_ne hc] at hvcpu
    rw [hstep.vcpus_vm]
    exact h.vcpu_vm c vcpu hvcpu

theorem currentWf_init (h : (schedMachine cfg).Init s) : CurrentWf cfg s := by
  refine ⟨(vmmInit_wf cfg.nrVms h).1.sched, contextWf_init h, fun c vcpu hvcpu => ?_⟩
  rw [vmmInit_vcpu cfg.nrVms h] at hvcpu
  cases hvcpu

/-- An arrival is served exactly if the interrupt is of the current VM, or only of the hypervisor. -/
theorem served_iff (h : CurrentWf cfg x.sched)
    (hid : interruptIsReserved x.irq id = true ∨ ∃ v, vmHasInterrupt x.irq v id = true) :
    Served x.irq ⟨c, id, handleOn x c id⟩ ↔ OwnerCurrent x (.arrive c id) := by
  cases hvcpu : (x.sched.cpus c).vcpu with
  | none =>
    refine iff_of_false (fun hs => hs.known ?_) ?_
    · simp [handleOn, hvcpu]
    · rintro ⟨vcpu, hsome, -⟩
      rw [hvcpu] at hsome
      cases hsome
  | some vcpu =>
    have hres : handleOn x c id = interruptsHandle x.irq vcpu.vm vcpu id := by
      simp only [handleOn, hvcpu, Option.bind_some, h.vcpu_vm c vcpu hvcpu]
    rw [hres]
    cases hhas : vmHasInterrupt x.irq vcpu.vm id with
    | true =>
      have hforward : interruptsHandle x.irq vcpu.vm vcpu id = some (.forwardToVm vcpu) := by
        unfold interruptsHandle
        rw [hhas]
        rfl
      rw [hforward]
      exact iff_of_true ⟨by simp, fun _ => ⟨vcpu, rfl, hhas⟩⟩ ⟨vcpu, hvcpu, .inl hhas⟩
    | false =>
      constructor
      · intro hs
        have hfree (w) : vmHasInterrupt x.irq w id = false := by
          rw [← Bool.not_eq_true]
          intro hw
          obtain ⟨vcpu', hforward, -⟩ := hs.owner ⟨w, hw⟩
          unfold interruptsHandle at hforward
          rw [hhas] at hforward
          cases hreserved : interruptIsReserved x.irq id <;> simp [hreserved] at hforward
        refine ⟨vcpu, hvcpu, .inr ⟨hid.resolve_right ?_, hfree⟩⟩
        rintro ⟨w, hw⟩
        rw [hfree w] at hw
        cases hw
      · rintro ⟨vcpu', hsome, hown⟩
        obtain rfl : vcpu = vcpu' := Option.some.inj (hvcpu.symm.trans hsome)
        obtain ⟨hreserved, hfree⟩ := hown.resolve_left (by rw [hhas]; simp)
        rw [interruptsHandle_reserved hreserved hhas]
        refine ⟨by simp, ?_⟩
        rintro ⟨w, hw⟩
        have hw' : vmHasInterrupt x.irq w id = true := hw
        rw [hfree w] at hw'
        cases hw'

/-- In a run, all interrupts that arrive are served exactly if each arrives where its owner is current. -/
theorem allServed_always_iff {as : List ArrivalAction} (h : (arrivalMachine cfg).Init x) :
    (arrivalMachine cfg).Always AllServed x as ↔ (arrivalMachine cfg).EachStep OwnerCurrent x as := by
  have hstart : ArrivalStart cfg x := h
  have hserved : AllServed x := by
    intro a ha
    simp [hstart.arrived] at ha
  refine Machine.always_iff_eachStep (I := fun x => CurrentWf cfg x.sched) (H := fun _ => True) ?_
    (fun _ _ _ _ _ _ _ _ => trivial) ?_ (currentWf_init hstart.sched) hserved trivial
  · intro x a y hx hstep
    cases a with
    | sched a =>
      obtain ⟨t, ht, rfl⟩ := Option.map_eq_some_iff.mp hstep
      exact hx.step (step_schedStep ht)
    | arrive c id =>
      obtain ⟨-, hstep⟩ := Option.ite_none_right_eq_some.mp hstep
      cases hstep
      exact hx
  · intro x a y hx hxserved _ hstep
    cases a with
    | sched a =>
      obtain ⟨t, ht, rfl⟩ := Option.map_eq_some_iff.mp hstep
      exact iff_of_true hxserved trivial
    | arrive c id =>
      obtain ⟨⟨-, hid⟩, hstep⟩ := Option.ite_none_right_eq_some.mp hstep
      cases hstep
      rw [← served_iff hx (hid.imp_right fun ⟨v, hv⟩ => ⟨v, hv.2⟩)]
      constructor
      · exact fun hall => hall _ List.mem_cons_self
      · intro hnew a ha
        rcases List.mem_cons.mp ha with rfl | ha
        · exact hnew
        · exact hxserved a ha

/-- The timer of the hypervisor, and an interrupt of VM 0. -/
def irqCalls : List IrqCall := [.reserve 26 0x1000, .assign 0 33]

/-- Who owns the interrupts behind `irqCalls`. -/
def irqOwned : IrqState := (irqMachine.run irqBoot irqCalls).getD irqBoot

theorem irqOwned_reachable : irqMachine.Reachable irqOwned := by
  have hsome : (irqMachine.run irqBoot irqCalls).isSome = true := by decide
  obtain ⟨t, ht⟩ := Option.isSome_iff_exists.mp hsome
  refine ⟨irqBoot, irqCalls, irqBoot_init, Machine.run_eq_some_iff.mp ?_⟩
  rw [irqOwned, ht]
  rfl

/-- `smallConfig` behind its boot. -/
def smallArrival : ArrivalRun where
  sched := smallBoot
  irq := irqOwned
  arrived := []

/-- The first vCPU runs when both interrupts arrive. -/
theorem allServed_always_small :
    (arrivalMachine smallConfig).Always AllServed smallArrival
        (firstActions.map .sched ++ [.arrive 0 26, .arrive 0 33]) ↔
      (arrivalMachine smallConfig).EachStep OwnerCurrent smallArrival
        (firstActions.map .sched ++ [.arrive 0 26, .arrive 0 33]) :=
  allServed_always_iff ⟨smallBoot_init, irqOwned_reachable, rfl⟩

/-- Two VMs of one vCPU that share a pCPU. -/
def sharedConfig : SchedConfig where
  maxVmNum := 2
  maxVcpuNum := 2
  nrVms := 2
  nrCpus := fun _ => 1
  nrCpus_pos := fun _ => Nat.one_pos
  ptRoot := fun _ => 0x1000
  hypNrCpus := 1
  timerWait := 1000

/-- `sharedConfig` behind its boot. -/
def sharedArrival : ArrivalRun where
  sched := (vmmInit sharedConfig 2).getD schedBoot
  irq := irqOwned
  arrived := []

theorem sharedArrival_init : (arrivalMachine sharedConfig).Init sharedArrival := by
  refine ⟨?_, irqOwned_reachable, rfl⟩
  have hsome : (vmmInit sharedConfig 2).isSome = true := by decide
  obtain ⟨s, hs⟩ := Option.isSome_iff_exists.mp hsome
  show vmmInit sharedConfig 2 = some sharedArrival.sched
  rw [sharedArrival, hs]
  rfl

/-- VM 1 runs first, and the interrupt of VM 0 that arrives then ends in `ERROR`. -/
theorem allServed_lost :
    (arrivalMachine sharedConfig).Init sharedArrival ∧
      ¬ (arrivalMachine sharedConfig).Always AllServed sharedArrival
        (firstActions.map .sched ++ [.arrive 0 33]) := by
  refine ⟨sharedArrival_init, fun hall => ?_⟩
  obtain ⟨t, hrun, harrived⟩ : ∃ t, (arrivalMachine sharedConfig).run sharedArrival
      (firstActions.map .sched ++ [.arrive 0 33]) = some t ∧
      t.arrived.map (·.res.isNone) = [true] := ⟨_, rfl, by decide⟩
  have hserved := hall.last (Machine.run_eq_some_iff.mp hrun)
  obtain ⟨a, harr, hnone⟩ := List.map_eq_singleton_iff.mp harrived
  have ha := hserved a (by rw [harr]; exact List.mem_singleton_self a)
  exact ha.known (Option.isNone_iff_eq_none.mp hnone)

end Avisor
