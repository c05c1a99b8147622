import Avisor.Sched.Slices

/-!
# The assertions of the schedulers

Each scheduler asserts that the slice of the node it takes off the pCPU is used up. The VM's always is.
The vCPU's is along runs whose ticks and wake-ups meet a guard, which keeps its countdown in step with
that of its VM.
-/

namespace Avisor

open Function LinkedList

/-! ### Runs that meet the guard -/

/-- What keeps the two countdowns together: a tick that ends the slice of a VM ends that of its vCPU,
too, and a wake-up finds the sleeping vCPU with its slice used up, or with its last tick under way. -/
def SliceGuard (cfg : SchedConfig) (s : SchedState) : Action → Prop
  | .resume c => ∀ r v, (s.cpus c).pc = .tick r v →
      (s.rqnodeMemory r).timeSlice ≤ cfg.timerWait → (s.vpnodeMemory v).timeSlice ≤ cfg.timerWait
  | .call c .updateTaskTimes => c = 0 → s.ioSleepFlag = 1 → ∀ u, s.sleepVnode = some u →
      (s.vpnodeMemory u).timeSlice = 0 ∨
      (s.vpnodeMemory u).timeSlice ≤ cfg.timerWait ∧
        ((∃ r, (s.cpus 0).rqnode = some r ∧ (s.rqnodeMemory r).runVnode = some u) ∨
          ∃ c r, (s.cpus c).pc = .tick r u)
  | _ => True

/-- Where the action comes to the `ASSERT` of a scheduler the slice asserted is used up, and where it
counts slices down it takes no more from one than is left. -/
def AssertsHold (cfg : SchedConfig) (s : SchedState) : Action → Prop
  | .call c .tryReschedule => (s.cpus c).flag = false → ∀ r, (s.cpus c).rqnode = some r →
      (s.rqnodeMemory r).needResched = true → (s.rqnodeMemory r).timeSlice = 0
  | .resume c =>
      ((s.cpus c).pc = .bmq → ∀ r v, (s.cpus c).rqnode = some r →
        (s.rqnodeMemory r).runVnode = some v → (s.vpnodeMemory v).timeSlice = 0) ∧
      ∀ r v, (s.cpus c).pc = .tick r v →
        ((updateTaskTimesLeave cfg s c r v).rqnodeMemory r).timeSlice.toNat =
          (s.rqnodeMemory r).timeSlice.toNat - cfg.timerWait.toNat ∧
        ((updateTaskTimesLeave cfg s c r v).vpnodeMemory v).timeSlice.toNat =
          (s.vpnodeMemory v).timeSlice.toNat - cfg.timerWait.toNat
  | _ => True

variable {cfg : SchedConfig} {s t : SchedState} {a : Action}

/-- The vCPU found runs in no other VM. -/
theorem vTaskLookup_own {u w : SchedState} {r : RNode} {v : VNode} {m : VmId}
    (hu : u.queues.Wf cfg.vnodeNum) (hq : u.slices.Wf cfg) (hr : u.queues.nodeVm r = some m)
    (lookup : vTaskLookup u r = some (some v, w)) {r' : RNode} (hrun : u.slices.run r' = some v) :
    r' = r := by
  obtain ⟨i, hi, hlevel, -⟩ := queues_vTaskLookup lookup
  obtain ⟨-, hvm⟩ := hu.level_mem r m i v hr hi hlevel
  obtain ⟨m', hm'⟩ := Option.ne_none_iff_exists'.mp (hq.run_node r' v hrun)
  obtain ⟨-, hvm'⟩ := hu.run_mem r' m' v hm' hrun
  obtain rfl : m' = m := hvm'.symm.trans hvm
  exact hu.node_unique r' r m' hm' hr

/-- A pCPU in `bmq_scheduler` that has found a vCPU. -/
theorem slices_bmqFound {u w : SchedState} {c : PCpuId} {r : RNode} {v : VNode} {m : VmId}
    (hu : u.queues.Wf cfg.vnodeNum) (hq : u.slices.Wf cfg) (hr : u.queues.nodeVm r = some m)
    (lookup : vTaskLookup u r = some (some v, w))
    (pc : (u.cpus c).pc = .bmq ∨ (u.cpus c).pc = .bmqLookup r) (rqnode : (u.cpus c).rqnode = some r) :
    (tryRescheduleReturn (bmqRun w c r v) c).slices.Wf cfg := by
  have hheld : (u.cpus c).held = (u.cpus c).rqnode := by
    rcases pc with pc | pc <;> simp only [PCpu.held, pc]
  rw [slices_bmqRun_return, slices_vTaskLookup lookup]
  · exact hq.run pc (hheld.trans rqnode) fun r' hrun => vTaskLookup_own hu hq hr lookup hrun
  · rw [vTaskLookup_cpus lookup]
    exact hheld

/-- A pCPU goes from `try_reschedule` straight to `bmq_scheduler` only for a vCPU that is due. -/
theorem tryReschedule_bmq {c : PCpuId} {r : RNode} (h : tryReschedule s c = some t)
    (hpc : (t.cpus c).pc = .bmq) (hr : (s.cpus c).rqnode = some r) :
    (s.rqnodeMemory r).needResched = false ∧
      ∀ v, (s.rqnodeMemory r).runVnode = some v → (s.vpnodeMemory v).needResched = true := by
  unfold tryReschedule at h
  have hcpu : ((s.modifyCpu c fun p => { p with flag := true }).cpus c).rqnode = some r := by
    simp only [SchedState.modifyCpu, update_self, hr]
  split at h
  · cases h
    simp [setPc_cpus] at hpc
  · simp only [hcpu] at h
    split at h
    · obtain ⟨u, -, rfl⟩ := Option.map_eq_some_iff.mp h
      simp [setPc_cpus] at hpc
    · rename_i hrest
      refine ⟨Bool.eq_false_iff.mpr hrest, fun v hv => ?_⟩
      have hv' : ((s.modifyCpu c fun p => { p with flag := true }).rqnodeMemory r).runVnode = some v :=
        hv
      simp only [hv'] at h
      split at h
      · rename_i hdue
        exact hdue
      · cases h
        simp [tryRescheduleReturn_cpus] at hpc

theorem SchedStep.slices (h : SchedStep cfg s a t) (hs : SchedWf cfg s) (hq : s.slices.Wf cfg)
    (hguard : SliceGuard cfg s a)
    (hcall : ∀ c r, a = .call c .tryReschedule → (t.cpus c).pc = .bmq → (s.cpus c).rqnode = some r →
      (s.rqnodeMemory r).needResched = false ∧
      ∀ v, (s.rqnodeMemory r).runVnode = some v → (s.vpnodeMemory v).needResched = true) :
    t.slices.Wf cfg := by
  have hpass {c pc} (hheld : PCpu.held { s.cpus c with pc := pc } = (s.cpus c).held)
      (next : pc = .guest ∨ pc = .halted ∨ pc = .bfsLookup)
      (before : ∀ r v, (s.cpus c).pc ≠ .tick r v) : (s.setPc c pc).slices.Wf cfg := by
    rw [SchedState.setPc, slices_modifyCpu_held s c hheld]
    exact hq.pass next before
  have hout {c} (pc : (s.cpus c).pc = .boot ∨ (s.cpus c).pc = .guest) :
      (s.cpus c).held = (s.cpus c).rqnode ∧ ∀ r v, (s.cpus c).pc ≠ .tick r v := by
    rcases pc with pc | pc <;> simp [PCpu.held, pc]
  have htick {c r v} {u : SchedState} (hu : u.slices = s.slices) (pc : (s.cpus c).pc = .guest)
      (hcpu : u.cpus c = s.cpus c) (rqnode : (s.cpus c).rqnode = some r)
      (run : (s.rqnodeMemory r).runVnode = some v) :
      (u.setPc c (.tick r v)).slices = s.slices.go c (.tick r v) ∧
        (s.slices.go c (.tick r v)).Wf cfg := by
    refine ⟨?_, hq.enterTick pc ((hout (.inr pc)).1.trans rqnode) run⟩
    rw [SchedState.setPc, slices_modifyCpu_held, hu]
    simp only [PCpu.held, hcpu, pc]
  cases h with
  | haltCall c f pc guest h =>
    refine hpass ?_ (.inr (.inl rfl)) (hout pc).2
    rw [(hout pc).1]
    rfl
  | haltResume c h =>
    refine hpass (held_halted hs.rq h) (.inr (.inl rfl)) fun r v hpc => ?_
    simp only [resumeEffect, hpc] at h
    cases h
  | tickWait c r v pc rqnode run other =>
    obtain ⟨heq, hwf⟩ := htick rfl pc rfl rqnode run
    rw [heq]
    exact hwf
  | tickClock r v pc rqnode run flag =>
    obtain ⟨heq, hwf⟩ := htick (u := clockAdvanced cfg s) rfl pc rfl rqnode run
    rw [heq]
    exact hwf
  | tickCount r v pc rqnode run flag =>
    obtain ⟨heq, hwf⟩ := htick (u := sleepCounted cfg s) rfl pc rfl rqnode run
    rw [heq]
    exact hwf
  | tickWake r v u q w pc rqnode run flag sleeper home insert =>
    obtain ⟨-, hwf⟩ := htick (u := s) rfl pc rfl rqnode run
    have hmark : w.slices = { s.slices with
        vcpu := update s.slices.vcpu u { s.slices.vcpu u with due := true } } := by
      rw [slices_vTaskInsert insert, wakeStart, slices_modifyVnode]
      rfl
    have hwake : ((slotCleared w).setPc 0 (.tick r v)).slices =
        { s.slices.go 0 (.tick r v) with
          vcpu := update s.slices.vcpu u { s.slices.vcpu u with due := true } } := by
      have hcpus : w.cpus = s.cpus := (vTaskInsert_cpus insert).trans (wakeStart_cpus s cfg u)
      rw [SchedState.setPc, slices_modifyCpu_held]
      · rw [show (slotCleared w).slices = w.slices from rfl, hmark]
        rfl
      · simp only [PCpu.held, slotCleared_cpus, hcpus, pc]
    rw [hwake]
    refine hwf.wake ((hguard rfl flag u sleeper).imp_right fun hlast => ⟨hlast.1, ?_⟩)
    rcases hlast.2 with ⟨r', hr', hrun⟩ | ⟨c, r', hc⟩
    · -- the sleeping vCPU runs on pCPU 0, which counts its last tick now
      obtain rfl : r = r' := Option.some.inj (rqnode.symm.trans hr')
      obtain rfl : v = u := Option.some.inj (run.symm.trans hrun)
      exact ⟨0, r, by rw [Slices.go_pc, if_pos rfl]⟩
    · refine Slices.Counted.go ⟨c, r', hc⟩ fun r'' hpc => ?_
      exact (hout (.inr pc)).2 r'' u hpc
  | tickLeave c r v pc =>
    rw [slices_updateTaskTimesLeave pc]
    exact hq.leave pc (hguard r v pc)
  | reschedBusy c pc flag =>
    refine hpass ?_ (.inl rfl) (hout pc).2
    rw [(hout pc).1]
    rfl
  | reschedFirst c pc flag rqnode =>
    have hfirst : ((reschedEntered s c).setPc c .bfsLookup).slices = s.slices.go c .bfsLookup := by
      rw [SchedState.setPc, slices_modifyCpu_held, slices_reschedEntered]
      rw [reschedEntered_cpus, update_self]
      rcases pc with pc | pc <;> simp only [PCpu.held, pc, rqnode]
    rw [hfirst]
    exact hq.pass (.inr (.inr rfl)) (hout pc).2
  | reschedVm c r u pc flag rqnode expire =>
    obtain ⟨hzero, rfl⟩ := bfsExpire_eq_some expire
    rw [SchedState.setPc, slices_modifyCpu_held, slices_bfsExpire expire, slices_reschedEntered]
    · exact hq.expire pc ((hout pc).1.trans rqnode) hzero
    · simp only [SchedState.modifyRq, reschedEntered_cpus, update_self]
      rcases pc with pc | pc <;> simp only [PCpu.held, pc]
  | reschedVcpu c r pc flag rqnode =>
    have hbmq : ((reschedEntered s c).setPc c .bmq).slices = s.slices.go c .bmq := by
      rw [SchedState.setPc, slices_modifyCpu_held, slices_reschedEntered]
      rw [reschedEntered_cpus, update_self]
      rcases pc with pc | pc <;> simp only [PCpu.held, pc]
    obtain ⟨hrest, hover⟩ := hcall c r rfl (by rw [setPc_cpus, update_self]) rqnode
    rw [hbmq]
    exact hq.call pc ((hout pc).1.trans rqnode) hrest hover
  | reschedKeep c r v pc flag rqnode run =>
    have hkeep : (tryRescheduleReturn (reschedEntered s c) c).slices = s.slices.go c .guest := by
      rw [tryRescheduleReturn, slices_modifyCpu_held, slices_reschedEntered]
      rw [reschedEntered_cpus, update_self]
      rcases pc with pc | pc <;> simp only [PCpu.held, pc]
    rw [hkeep]
    exact hq.pass (.inl rfl) (hout pc).2
  | start c arg0 r m v u w pc rqnode vm arg create insert =>
    obtain ⟨-, -, rfl⟩ := initializeVCpuNode_eq_some create
    rw [slices_vTaskInsert insert, SchedState.withVnode, slices_modifyVnode]
    exact hq.reset
  | sleep c r v pc rqnode run =>
    have hsleep : (sleepStart s r v).slices = { s.slices with
        vcpu := update s.slices.vcpu v { s.slices.vcpu v with due := false } } := 
      slices_modifyVnode s v fun n => { prioManage n 1 with needResched := false }
    rw [hsleep]
    exact hq.sleep
  | bfsInsert c r u pc rqnode insert =>
    obtain ⟨head, -, rfl⟩ := rqInsert_eq_some insert
    rw [SchedState.setPc, slices_modifyCpu]
    have hheld : s.slices.held c = some r := by
      simp only [SchedState.slices, PCpu.held, pc, rqnode]
    exact hq.putBack pc hheld
  | bfsMiss c u pc lookup =>
    rw [pTaskLookup_eq_none lookup]
    exact hq
  | bfsHit c r u pc lookup => 
    obtain ⟨head, hhead, hscan, hremove⟩ := pTaskLookup_eq_some lookup
    obtain ⟨p, -, rfl⟩ := rqRemove_eq_some hremove
    have hheld : s.slices.held c = none := by
      simp only [SchedState.slices, PCpu.held, pc]
    obtain ⟨l, hl⟩ := hs.rq.view
    obtain ⟨x, hx, hfound⟩ :=
      (pTaskScan_mem (hl.linked head hhead).chain hscan).resolve_left (by simp)
    cases hfound
    have hnode := hl.mem_vm r hx
    rw [SchedState.setPc, slices_modifyCpu]
    exact hq.take pc hheld hnode ((hl.listed r hnode).mp hx)
  | bfsRun c r u pc run =>
    obtain ⟨m, -, rfl⟩ := bfsRun_eq_some run
    rw [SchedState.setPc, slices_modifyCpu_held, slices_bfsAssign pc]
    · refine hq.select pc ?_
      simp only [SchedState.slices, PCpu.held, pc]
    · simp only [bfsAssign_cpus, update_self, PCpu.held, pc]
  | bmqSpin c r u w pc rqnode requeue lookup =>
    obtain ⟨-, rfl⟩ := vTaskLookup_eq_none lookup
    have hheld : s.slices.held c = some r := by
      simp only [SchedState.slices, PCpu.held, pc, rqnode]
    have hcpus : w.cpus = s.cpus := bmqRequeue_cpus requeue
    rw [SchedState.setPc, slices_modifyCpu_held]
    · rcases slices_bmqRequeue requeue with hsame | ⟨v, hreset⟩
      · rw [hsame]
        exact hq.spin pc hheld
      · rw [hreset]
        exact hq.reset.spin pc hheld
    · simp only [PCpu.held, hcpus, pc]
  | bmqRun c r u v w pc rqnode requeue lookup =>
    have hcpus : u.cpus = s.cpus := bmqRequeue_cpus requeue
    obtain ⟨m, hm⟩ := hs.node rqnode
    have hmove := queues_bmqRequeue hs.queues hm requeue
    have hu : u.slices.Wf cfg := by
      rcases slices_bmqRequeue requeue with hsame | ⟨v, hreset⟩
      · rw [hsame]
        exact hq
      · rw [hreset]
        exact hq.reset
    have hum : u.queues.nodeVm r = some m := by
      rw [hmove.nodeVm]
      exact hm
    exact slices_bmqFound (hmove.wf hs.queues hm) hu hum lookup (.inl (by rw [hcpus, pc]))
      (by rw [hcpus, rqnode])
  | bmqMiss c r u pc lookup =>
    obtain ⟨-, rfl⟩ := vTaskLookup_eq_none lookup
    rw [SchedState.setPc, slices_modifyCpu_held]
    · have hsame : u.slices.go c (.bmqLookup r) = u.slices := by
        rw [← pc]
        exact Slices.go_self
      rw [hsame]
      exact hq
    · simp only [PCpu.held, pc]
  | bmqFind c r v u pc lookup =>
    obtain ⟨m, hm⟩ := hs.node (hs.bmqLookup c r pc)
    exact slices_bmqFound hs.queues hq hm lookup (.inr pc) (hs.bmqLookup c r pc)

/-! ### Boot -/

/-- The slices when some VMs are made: none has begun. -/
structure BootSlices (s : SchedState) : Prop where
  run : ∀ r, (s.rqnodeMemory r).runVnode = none
  vm : ∀ r, (s.rqnodeMemory r).vm ≠ none →
    (s.rqnodeMemory r).timeSlice = 0 ∧ (s.rqnodeMemory r).needResched = true
  vcpu : ∀ v, (s.vpnodeMemory v).timeSlice = 0

theorem BootSlices.congr (h : BootSlices s) (hslices : t.slices = s.slices) : BootSlices t := by
  have hnode (r) : (t.rqnodeMemory r).vm ≠ none ↔ (s.rqnodeMemory r).vm ≠ none :=
    iff_of_eq (congrFun (congrArg Slices.node hslices) r)
  have hvm (r) : t.slices.vm r = s.slices.vm r := congrFun (congrArg Slices.vm hslices) r
  have hvcpu (v) : t.slices.vcpu v = s.slices.vcpu v := congrFun (congrArg Slices.vcpu hslices) v
  have hrun (r) : t.slices.run r = s.slices.run r := congrFun (congrArg Slices.run hslices) r
  refine ⟨fun r => (hrun r).trans (h.run r), fun r hr => ?_, fun v => ?_⟩
  · obtain ⟨hleft, hdue⟩ := h.vm r ((hnode r).mp hr)
    exact ⟨(congrArg Slice.left (hvm r)).trans hleft, (congrArg Slice.due (hvm r)).trans hdue⟩
  · exact (congrArg Slice.left (hvcpu v)).trans (h.vcpu v)

theorem BootSlices.withRqnode (h : BootSlices s) (r : RNode) (m : Option VmId) (prio : Nat) :
    BootSlices (s.withRqnode r m prio) := by
  have hnode (x) : x = r ∨ (s.withRqnode r m prio).rqnodeMemory x = s.rqnodeMemory x := by
    by_cases hx : x = r
    · exact .inl hx
    · exact .inr (update_of_ne hx ..)
  refine ⟨fun x => ?_, fun x hx => ?_, h.vcpu⟩
  · rcases hnode x with rfl | hsame
    · simp [SchedState.withRqnode]
    · rw [hsame]
      exact h.run x
  · rcases hnode x with rfl | hsame
    · simp [SchedState.withRqnode]
    · rw [hsame] at hx ⊢
      exact h.vm x hx

theorem BootSlices.withVnode (h : BootSlices s) (v : VNode) (vp : VcpuRef) (prio : Nat) :
    BootSlices (s.withVnode v vp prio) := by
  refine ⟨h.run, h.vm, fun w => ?_⟩
  by_cases hw : w = v
  · subst hw
    simp [SchedState.withVnode, SchedState.modifyVnode]
  · simp only [SchedState.withVnode, SchedState.modifyVnode, update_of_ne hw]
    exact h.vcpu w

theorem BootSlices.vmInit {n : Nat} (h : BootSlices s) (ht : vmInit cfg s n = some t) :
    BootSlices t := by
  obtain ⟨u, r, v, w, hmade, -, -, -, -, hinsert, hlink⟩ := vmInit_eq_some ht
  have hmaster : BootSlices (vmMasterInit cfg s n) := ⟨h.run, h.vm, h.vcpu⟩
  generalize vmMasterInit cfg s n = s₁ at hmaster hmade
  have hhead : BootSlices u := by
    cases hmade with
    | first r =>
      have hratios : BootSlices { s₁ with prioRatios := initPr } :=
        ⟨hmaster.run, hmaster.vm, hmaster.vcpu⟩
      have hwith := hratios.withRqnode r none 0
      exact ⟨hwith.run, hwith.vm, hwith.vcpu⟩
    | later => exact hmaster
  obtain ⟨head, -, rfl⟩ := rqInsert_eq_some hlink
  exact ((hhead.withRqnode r _ _).withVnode v _ _).congr
    ((slices_relinkRq ..).trans (slices_vTaskInsert hinsert))

theorem bootSlices_vmmInit (n : Nat) {s : SchedState} (h : vmmInit cfg n = some s) :
    BootSlices s := by
  induction n generalizing s with
  | zero =>
    cases h
    exact ⟨fun _ => rfl, fun _ hvm => absurd rfl hvm, fun _ => rfl⟩
  | succ n ih =>
    obtain ⟨u, hu, h⟩ := Option.bind_eq_some_iff.mp h
    exact (ih hu).vmInit h

theorem slices_init (h : (schedMachine cfg).Init s) : s.slices.Wf cfg := by
  have hboot := (vmmInit_wf cfg.nrVms h).1
  have hslices := bootSlices_vmmInit cfg.nrVms h
  have hheld (c r) : s.slices.held c ≠ some r := by
    have hnone : s.slices.held c = none := hboot.held c
    simp [hnone]
  have hrun (r v) : s.slices.run r ≠ some v := by
    have hnone : s.slices.run r = none := hslices.run r
    simp [hnone]
  refine ⟨fun c r hc => absurd hc (hheld c r), fun c _ r hc => absurd hc (hheld c r),
    fun r v hr => absurd hr (hrun r v), fun r _ v hr => absurd hr (hrun r v), fun c r v hpc => ?_,
    fun r hr => ?_, fun v _ => .inl (hslices.vcpu v)⟩
  · have hpc : (s.cpus c).pc = .tick r v := hpc
    rw [(hboot.cpus c).1] at hpc
    cases hpc
  · obtain ⟨hleft, hdue⟩ := hslices.vm r hr
    exact ⟨iff_of_true hdue hleft, fun _ => hleft, fun c hc => absurd hc (hheld c r),
      fun v hv => absurd hv (hrun r v), fun c _ hc => absurd hc (hheld c r)⟩

/-! ### The assertions -/

theorem slices_step (hs : SchedWf cfg s) (hq : s.slices.Wf cfg) (hguard : SliceGuard cfg s a)
    (hstep : (schedMachine cfg).step s a = some t) : t.slices.Wf cfg := by
  refine (step_schedStep hstep).slices hs hq hguard fun c r ha hpc hr => ?_
  subst ha
  simp only [schedMachine] at hstep
  split at hstep
  · cases heffect : callEffect cfg s c .tryReschedule with
    | none =>
      simp only [heffect, orHalt, Option.some.injEq] at hstep
      subst hstep
      simp [setPc_cpus] at hpc
    | some u =>
      simp only [heffect, orHalt, Option.some.injEq] at hstep
      subst hstep
      exact tryReschedule_bmq heffect hpc hr
  · cases hstep

theorem assertsHold (hs : SchedWf cfg s) (hq : s.slices.Wf cfg) (a : Action) :
    AssertsHold cfg s a := by
  cases a with
  | call c f =>
    cases f with
    | tryReschedule =>
      intro _ r hr hdue
      exact ((hq.vm r (hs.rq.rqnode_vm c r hr)).due_iff).mp hdue
    | _ => trivial
  | resume c =>
    refine ⟨fun hpc r v hr hv => ?_, fun r v _ => ⟨?_, ?_⟩⟩
    · have hheld : s.slices.held c = some r := by
        simp only [SchedState.slices, PCpu.held, hpc, hr]
      exact (hq.vm r (hs.rq.rqnode_vm c r hr)).ended c v hheld hpc hv
    · simp only [updateTaskTimesLeave, SchedState.setPc, SchedState.modifyCpu, SchedState.modifyRq,
        update_self]
      exact Slice.toNat_countdown ..
    · simp only [updateTaskTimesLeave, SchedState.setPc, SchedState.modifyCpu, SchedState.modifyRq,
        SchedState.modifyVnode, update_self]
      exact Slice.toNat_countdown ..

/-- In a run from boot whose ticks and wake-ups meet the guard no `ASSERT` of a time slice fails, and no
slice underflows. -/
theorem assertsHold_eachStep {as : List Action} (h : (schedMachine cfg).Init s)
    (hguard : (schedMachine cfg).EachStep (SliceGuard cfg) s as) :
    (schedMachine cfg).EachStep (AssertsHold cfg) s as := by
  have hwf : SchedWf cfg s := (vmmInit_wf cfg.nrVms h).1.sched
  refine (Machine.eachStep_congr (I := fun s => SchedWf cfg s ∧ s.slices.Wf cfg)
    (D := fun _ _ => True) (fun s a _ hI _ _ => ?_) (fun s a t hI hC _ hstep => ?_)
    ⟨hwf, slices_init h⟩ hguard).mp (Machine.eachStep_of_forall fun _ _ => trivial)
  · exact iff_of_true trivial (assertsHold hI.1 hI.2 a)
  · exact ⟨schedWf_preserves s a t hI.1 hstep, slices_step hI.1 hI.2 hC hstep⟩

/-- The first vCPU of `smallConfig` runs until a tick ends its slice. -/
def oneTick : List Action :=
  [.call 0 .tryReschedule, .resume 0, .resume 0, .resume 0, .call 0 .updateTaskTimes, .resume 0]

theorem assertsHold_eachStep_oneTick :
    (schedMachine smallConfig).EachStep (AssertsHold smallConfig) smallBoot oneTick := by
  apply assertsHold_eachStep smallBoot_init
  -- no pCPU is at the barrier before the last step
  refine Machine.eachStep_cons rfl trivial ?_
  refine Machine.eachStep_cons rfl (fun _ _ hpc => by cases hpc) ?_
  refine Machine.eachStep_cons rfl (fun _ _ hpc => by cases hpc) ?_
  refine Machine.eachStep_cons rfl (fun _ _ hpc => by cases hpc) ?_
  refine Machine.eachStep_cons rfl (fun _ hflag => by cases hflag) ?_
  refine Machine.eachStep_cons rfl (fun r v hpc hle => ?_) trivial
  cases hpc
  exact absurd hle (by decide)

/-- Two ticks and the reschedule behind them. -/
def twoTicks : List Action :=
  [.call 0 .updateTaskTimes, .resume 0, .call 0 .updateTaskTimes, .resume 0, .call 0 .tryReschedule,
    .resume 0]

/-- One VM runs on one pCPU until the fifth tick, which ends its slice, and is selected again. -/
def fiveTicks : List Action :=
  [.call 0 .tryReschedule, .resume 0, .resume 0, .resume 0] ++ twoTicks ++ twoTicks ++
    [.call 0 .updateTaskTimes, .resume 0, .call 0 .tryReschedule, .resume 0, .resume 0, .resume 0]

/-- `smallConfig` with a timer that ticks every 900 ms. -/
def slowConfig : SchedConfig := { smallConfig with timerWait := 900 }

/-- The state in which `slowConfig` boots. -/
def slowBoot : SchedState := (vmmInit slowConfig 1).getD schedBoot

theorem slowBoot_init : (schedMachine slowConfig).Init slowBoot := by
  have hsome : (vmmInit slowConfig 1).isSome = true := by decide
  obtain ⟨s, hs⟩ := Option.isSome_iff_exists.mp hsome
  show vmmInit slowConfig 1 = some slowBoot
  rw [slowBoot, hs]
  rfl

/-- The vCPU's slice has 100 ms left when the VM's is over. -/
theorem assertsHold_fails : ¬∀ (cfg : SchedConfig) (s : SchedState) (as : List Action),
    0 < cfg.timerWait → (schedMachine cfg).Init s →
      (schedMachine cfg).EachStep (AssertsHold cfg) s as := by
  intro hall
  have hfinal : ((schedMachine slowConfig).run slowBoot fiveTicks).map (fun t =>
      decide ((t.cpus 0).pc = .bmq ∧ (t.cpus 0).rqnode = some 1 ∧
        (t.rqnodeMemory 1).runVnode = some 0 ∧ (t.vpnodeMemory 0).timeSlice = 100 ∧
        ((schedMachine slowConfig).step t (.resume 0)).isSome = true)) = some true := by decide
  obtain ⟨t, hrun, hfacts⟩ := Option.map_eq_some_iff.mp hfinal
  obtain ⟨hpc, hrqnode, hrunVnode, hslice, hsome⟩ := of_decide_eq_true hfacts
  obtain ⟨u, hu⟩ := Option.isSome_iff_exists.mp hsome
  have heach := hall slowConfig slowBoot (fiveTicks ++ [.resume 0]) (by decide) slowBoot_init
  have hzero := (heach.last (Machine.run_eq_some_iff.mp hrun) hu).1 hpc 1 0 hrqnode hrunVnode
  rw [hslice] at hzero
  cases hzero

end Avisor
