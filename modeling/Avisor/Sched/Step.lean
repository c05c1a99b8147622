import Avisor.Sched.Machine

/-!
# What a step of the scheduler does

`SchedStep cfg s a t` lists the transitions of the scheduler machine one by one, each with the guards
it passed and the state it leads to. `step_schedStep` says that the machine takes no others, so the
facts about runs are proved by a case split over `SchedStep` and never unfold the machine itself.
-/

namespace Avisor

open Function

/-- pCPU `c` has entered `try_reschedule`. -/
def reschedEntered (s : SchedState) (c : PCpuId) : SchedState :=
  s.modifyCpu c fun p => { p with flag := true }

/-- pCPU 0 has advanced the clock in `update_task_times`. -/
def clockAdvanced (cfg : SchedConfig) (s : SchedState) : SchedState :=
  { s with bfsClock := s.bfsClock + cfg.timerWait }

/-- pCPU 0 has counted one tick of the sleep, too. -/
def sleepCounted (cfg : SchedConfig) (s : SchedState) : SchedState :=
  { clockAdvanced cfg s with ioSleepFlag := s.ioSleepFlag - 1 }

/-- The state in which `update_task_times` inserts the sleeping vCPU `v`. -/
def wakeStart (cfg : SchedConfig) (s : SchedState) (v : VNode) : SchedState :=
  (sleepCounted cfg s).modifyVnode v fun n => { n with needResched := true }

/-- The sleeping vCPU has been put back and the sleep slot is empty. -/
def slotCleared (s : SchedState) : SchedState :=
  { s with sleepVnode := none, withSleepVnodeRqnode := none }

/-- The state in which `sched_io_handler` returns, called by the running vCPU `v` of `r`. -/
def sleepStart (s : SchedState) (r : RNode) (v : VNode) : SchedState :=
  { s.modifyVnode v fun n => { prioManage n 1 with needResched := false } with
    withSleepVnodeRqnode := some r, sleepVnode := some v, ioSleepFlag := 4 }

/-- The transitions of the scheduler machine. -/
inductive SchedStep (cfg : SchedConfig) (s : SchedState) : Action → SchedState → Prop
  | haltCall (c f) (pc : (s.cpus c).pc = .boot ∨ (s.cpus c).pc = .guest)
      (guest : f ≠ .tryReschedule → (s.cpus c).pc = .guest) (h : callEffect cfg s c f = none) :
      SchedStep cfg s (.call c f) (s.setPc c .halted)
  | haltResume (c) (h : resumeEffect cfg s c = some none) :
      SchedStep cfg s (.resume c) (s.setPc c .halted)
  | tickWait (c r v) (pc : (s.cpus c).pc = .guest) (rqnode : (s.cpus c).rqnode = some r)
      (run : (s.rqnodeMemory r).runVnode = some v) (other : c ≠ 0) :
      SchedStep cfg s (.call c .updateTaskTimes) (s.setPc c (.tick r v))
  | tickClock (r v) (pc : (s.cpus 0).pc = .guest) (rqnode : (s.cpus 0).rqnode = some r)
      (run : (s.rqnodeMemory r).runVnode = some v) (flag : ¬ s.ioSleepFlag > 0) :
      SchedStep cfg s (.call 0 .updateTaskTimes) ((clockAdvanced cfg s).setPc 0 (.tick r v))
  | tickCount (r v) (pc : (s.cpus 0).pc = .guest) (rqnode : (s.cpus 0).rqnode = some r)
      (run : (s.rqnodeMemory r).runVnode = some v) (flag : s.ioSleepFlag > 1) :
      SchedStep cfg s (.call 0 .updateTaskTimes)
        ((sleepCounted cfg s).setPc 0 (.tick r v))
  | tickWake (r v u q t) (pc : (s.cpus 0).pc = .guest) (rqnode : (s.cpus 0).rqnode = some r)
      (run : (s.rqnodeMemory r).runVnode = some v) (flag : s.ioSleepFlag = 1)
      (sleeper : s.sleepVnode = some u) (home : s.withSleepVnodeRqnode = some q)
      (insert : vTaskInsert cfg (wakeStart cfg s u) u q = some t) :
      SchedStep cfg s (.call 0 .updateTaskTimes) ((slotCleared t).setPc 0 (.tick r v))
  | tickLeave (c r v) (pc : (s.cpus c).pc = .tick r v) :
      SchedStep cfg s (.resume c) (updateTaskTimesLeave cfg s c r v)
  | reschedBusy (c) (pc : (s.cpus c).pc = .boot ∨ (s.cpus c).pc = .guest)
      (flag : (s.cpus c).flag = true) : SchedStep cfg s (.call c .tryReschedule) (s.setPc c .guest)
  | reschedFirst (c) (pc : (s.cpus c).pc = .boot ∨ (s.cpus c).pc = .guest)
      (flag : (s.cpus c).flag = false) (rqnode : (s.cpus c).rqnode = none) :
      SchedStep cfg s (.call c .tryReschedule) ((reschedEntered s c).setPc c .bfsLookup)
  | reschedVm (c r t) (pc : (s.cpus c).pc = .boot ∨ (s.cpus c).pc = .guest)
      (flag : (s.cpus c).flag = false) (rqnode : (s.cpus c).rqnode = some r)
      (expire : bfsExpire (reschedEntered s c) r = some t) :
      SchedStep cfg s (.call c .tryReschedule) (t.setPc c .bfsInsert)
  | reschedVcpu (c r) (pc : (s.cpus c).pc = .boot ∨ (s.cpus c).pc = .guest)
      (flag : (s.cpus c).flag = false) (rqnode : (s.cpus c).rqnode = some r) :
      SchedStep cfg s (.call c .tryReschedule) ((reschedEntered s c).setPc c .bmq)
  | reschedKeep (c r v) (pc : (s.cpus c).pc = .boot ∨ (s.cpus c).pc = .guest)
      (flag : (s.cpus c).flag = false) (rqnode : (s.cpus c).rqnode = some r)
      (run : (s.rqnodeMemory r).runVnode = some v) :
      SchedStep cfg s (.call c .tryReschedule) (tryRescheduleReturn (reschedEntered s c) c)
  | start (c arg0 r m v u t) (pc : (s.cpus c).pc = .guest) (rqnode : (s.cpus c).rqnode = some r)
      (vm : (s.rqnodeMemory r).vm = some m) (arg : arg0 < (s.vms m).nrCpus)
      (create : initializeVCpuNode cfg s ⟨m, arg0⟩ bmqDefaultPrio = some (v, u))
      (insert : vTaskInsert cfg u v r = some t) :
      SchedStep cfg s (.call c (.schedStartHandler arg0)) t
  | sleep (c r v) (pc : (s.cpus c).pc = .guest) (rqnode : (s.cpus c).rqnode = some r)
      (run : (s.rqnodeMemory r).runVnode = some v) :
      SchedStep cfg s (.call c .schedIoHandler) (sleepStart s r v)
  | bfsInsert (c r t) (pc : (s.cpus c).pc = .bfsInsert) (rqnode : (s.cpus c).rqnode = some r)
      (insert : rqInsert s r = some t) : SchedStep cfg s (.resume c) (t.setPc c .bfsLookup)
  | bfsMiss (c t) (pc : (s.cpus c).pc = .bfsLookup) (lookup : pTaskLookup cfg s = some (none, t)) :
      SchedStep cfg s (.resume c) t
  | bfsHit (c r t) (pc : (s.cpus c).pc = .bfsLookup)
      (lookup : pTaskLookup cfg s = some (some r, t)) :
      SchedStep cfg s (.resume c) (t.setPc c (.bfsSelected r))
  | bfsRun (c r t) (pc : (s.cpus c).pc = .bfsSelected r) (run : bfsRun s c r = some t) :
      SchedStep cfg s (.resume c) (t.setPc c .bmq)
  | bmqSpin (c r u t) (pc : (s.cpus c).pc = .bmq) (rqnode : (s.cpus c).rqnode = some r)
      (requeue : bmqRequeue cfg s r = some u) (lookup : vTaskLookup u r = some (none, t)) :
      SchedStep cfg s (.resume c) (t.setPc c (.bmqLookup r))
  | bmqRun (c r u v t) (pc : (s.cpus c).pc = .bmq) (rqnode : (s.cpus c).rqnode = some r)
      (requeue : bmqRequeue cfg s r = some u) (lookup : vTaskLookup u r = some (some v, t)) :
      SchedStep cfg s (.resume c) (tryRescheduleReturn (bmqRun t c r v) c)
  | bmqMiss (c r t) (pc : (s.cpus c).pc = .bmqLookup r)
      (lookup : vTaskLookup s r = some (none, t)) :
      SchedStep cfg s (.resume c) (t.setPc c (.bmqLookup r))
  | bmqFind (c r v t) (pc : (s.cpus c).pc = .bmqLookup r)
      (lookup : vTaskLookup s r = some (some v, t)) :
      SchedStep cfg s (.resume c) (tryRescheduleReturn (bmqRun t c r v) c)

/-! ### The machine takes only these steps -/

private theorem updateTaskTimes_step {cfg : SchedConfig} {s t : SchedState} {c : PCpuId}
    (hpc : (s.cpus c).pc = .guest) (h : updateTaskTimesEnter cfg s c = some t) :
    SchedStep cfg s (.call c .updateTaskTimes) t := by
  obtain ⟨r, hr, h⟩ := Option.bind_eq_some_iff.mp h
  obtain ⟨v, hv, h⟩ := Option.bind_eq_some_iff.mp h
  obtain ⟨u, hu, rfl⟩ := Option.map_eq_some_iff.mp h
  by_cases hc : c = 0
  · subst hc
    simp only [if_true, advanceClock] at hu
    split at hu
    · rename_i hflag
      split at hu
      · rename_i hzero
        have hone : s.ioSleepFlag = 1 := by omega
        obtain ⟨sleeper, hsleeper, hu⟩ := Option.bind_eq_some_iff.mp hu
        obtain ⟨q, hq, hu⟩ := Option.bind_eq_some_iff.mp hu
        obtain ⟨w, hw, rfl⟩ := Option.map_eq_some_iff.mp hu
        exact .tickWake r v sleeper q w hpc hr hv hone hsleeper hq hw
      · rename_i hzero
        cases hu
        exact .tickCount r v hpc hr hv (by omega)
    · rename_i hflag
      cases hu
      exact .tickClock r v hpc hr hv hflag
  · simp only [hc, if_false, Option.some.injEq] at hu
    subst hu
    exact .tickWait c r v hpc hr hv hc

private theorem tryReschedule_step {cfg : SchedConfig} {s t : SchedState} {c : PCpuId}
    (hpc : (s.cpus c).pc = .boot ∨ (s.cpus c).pc = .guest) (h : tryReschedule s c = some t) :
    SchedStep cfg s (.call c .tryReschedule) t := by
  unfold tryReschedule at h
  cases hflag : (s.cpus c).flag with
  | true =>
    simp only [hflag, if_true, Option.some.injEq] at h
    exact h ▸ .reschedBusy c hpc hflag
  | false =>
    have hcpu : ((s.modifyCpu c fun p => { p with flag := true }).cpus c).rqnode =
        (s.cpus c).rqnode := by
      simp only [SchedState.modifyCpu, update_self]
    simp only [hflag, Bool.false_eq_true, if_false, hcpu] at h
    cases hr : (s.cpus c).rqnode with
    | none =>
      simp only [hr, Option.some.injEq] at h
      exact h ▸ .reschedFirst c hpc hflag hr
    | some r =>
      simp only [hr] at h
      split at h
      · obtain ⟨u, hu, rfl⟩ := Option.map_eq_some_iff.mp h
        exact .reschedVm c r u hpc hflag hr hu
      · split at h
        · cases h
          exact .reschedVcpu c r hpc hflag hr
        · rename_i v hv
          split at h
          · cases h
            exact .reschedVcpu c r hpc hflag hr
          · cases h
            exact .reschedKeep c r v hpc hflag hr hv

private theorem schedStartHandler_step {cfg : SchedConfig} {s t : SchedState} {c : PCpuId}
    {arg0 : Nat} (hpc : (s.cpus c).pc = .guest) (harg : arg0 < callerNrCpus s c)
    (h : schedStartHandler cfg s c arg0 = some t) :
    SchedStep cfg s (.call c (.schedStartHandler arg0)) t := by
  unfold schedStartHandler at h
  obtain ⟨r, hr, h⟩ := Option.bind_eq_some_iff.mp h
  obtain ⟨m, hm, h⟩ := Option.bind_eq_some_iff.mp h
  obtain ⟨⟨v, u⟩, hcreate, h⟩ := Option.bind_eq_some_iff.mp h
  simp only [callerNrCpus, hr, hm] at harg
  exact .start c arg0 r m v u t hpc hr hm harg hcreate h

private theorem schedIoHandler_step {cfg : SchedConfig} {s t : SchedState} {c : PCpuId}
    (hpc : (s.cpus c).pc = .guest) (h : schedIoHandler s c = some t) :
    SchedStep cfg s (.call c .schedIoHandler) t := by
  unfold schedIoHandler at h
  obtain ⟨r, hr, h⟩ := Option.bind_eq_some_iff.mp h
  obtain ⟨v, hv, h⟩ := Option.bind_eq_some_iff.mp h
  cases h
  exact .sleep c r v hpc hr hv

private theorem resume_step {cfg : SchedConfig} {s t : SchedState} {c : PCpuId}
    (h : resumeEffect cfg s c = some (some t)) : SchedStep cfg s (.resume c) t := by
  unfold resumeEffect at h
  split at h
  · cases h
  · cases h
  · cases h
  · rename_i r v hpc
    cases h
    exact .tickLeave c r v hpc
  · rename_i hpc
    obtain ⟨r, hr, h⟩ := Option.bind_eq_some_iff.mp (Option.some.inj h)
    obtain ⟨u, hu, rfl⟩ := Option.map_eq_some_iff.mp h
    exact .bfsInsert c r u hpc hr hu
  · rename_i hpc
    obtain ⟨⟨found, u⟩, hlookup, rfl⟩ := Option.map_eq_some_iff.mp (Option.some.inj h)
    cases found with
    | none => exact .bfsMiss c u hpc hlookup
    | some r => exact .bfsHit c r u hpc hlookup
  · rename_i r hpc
    obtain ⟨u, hu, rfl⟩ := Option.map_eq_some_iff.mp (Option.some.inj h)
    exact .bfsRun c r u hpc hu
  · rename_i hpc
    obtain ⟨r, hr, h⟩ := Option.bind_eq_some_iff.mp (Option.some.inj h)
    obtain ⟨u, hu, h⟩ := Option.bind_eq_some_iff.mp h
    obtain ⟨⟨found, x⟩, hlookup, rfl⟩ := Option.map_eq_some_iff.mp h
    cases found with
    | none => exact .bmqSpin c r u x hpc hr hu hlookup
    | some v => exact .bmqRun c r u v x hpc hr hu hlookup
  · rename_i r hpc
    obtain ⟨⟨found, x⟩, hlookup, rfl⟩ := Option.map_eq_some_iff.mp (Option.some.inj h)
    cases found with
    | none => exact .bmqMiss c r x hpc hlookup
    | some v => exact .bmqFind c r v x hpc hlookup

theorem step_schedStep {cfg : SchedConfig} {s t : SchedState} {a : Action}
    (h : (schedMachine cfg).step s a = some t) : SchedStep cfg s a t := by
  cases a with
  | call c f =>
    simp only [schedMachine] at h
    split at h
    · rename_i henabled
      obtain ⟨-, henabled⟩ := henabled
      cases heffect : callEffect cfg s c f with
      | none =>
        simp only [heffect, orHalt, Option.some.injEq] at h
        subst h
        have hguest : f ≠ .tryReschedule → (s.cpus c).pc = .guest := by
          intro hf
          cases f <;> simp_all [callEnabled]
        have hpc : (s.cpus c).pc = .boot ∨ (s.cpus c).pc = .guest := by
          by_cases hf : f = .tryReschedule
          · subst hf
            simpa [callEnabled] using henabled
          · exact .inr (hguest hf)
        exact .haltCall c f hpc hguest heffect
      | some u =>
        simp only [heffect, orHalt, Option.some.injEq] at h
        subst h
        cases f with
        | updateTaskTimes => exact updateTaskTimes_step (by simpa [callEnabled] using henabled) heffect
        | tryReschedule => exact tryReschedule_step (by simpa [callEnabled] using henabled) heffect
        | schedStartHandler arg0 =>
          have hcall : (s.cpus c).pc = .guest ∧ arg0 < callerNrCpus s c := by
            simpa [callEnabled] using henabled
          exact schedStartHandler_step hcall.1 hcall.2 heffect
        | schedIoHandler => exact schedIoHandler_step (by simpa [callEnabled] using henabled) heffect
    · cases h
  | resume c =>
    simp only [schedMachine] at h
    split at h
    · obtain ⟨effect, heffect, rfl⟩ := Option.map_eq_some_iff.mp h
      cases effect with
      | none => exact .haltResume c heffect
      | some u => exact resume_step heffect
    · cases h

/-! ### What a step does to the pCPUs -/

/-- The pCPU that acts. -/
def Action.cpu : Action → PCpuId
  | .call c _ => c
  | .resume c => c

section Cpus

variable (s : SchedState) (c : PCpuId)

theorem setPc_cpus (pc : Pc) :
    (s.setPc c pc).cpus = update s.cpus c { s.cpus c with pc := pc } := rfl

theorem reschedEntered_cpus :
    (reschedEntered s c).cpus = update s.cpus c { s.cpus c with flag := true } := rfl

theorem tryRescheduleReturn_cpus :
    (tryRescheduleReturn s c).cpus = update s.cpus c { s.cpus c with flag := false, pc := .guest } :=
  rfl

theorem bfsAssign_cpus (r : RNode) (m : VmId) :
    (bfsAssign s c r m).cpus = update s.cpus c { s.cpus c with
      rqnode := some r, vttbrEl2 := prepareToSwitch { s.vms m with master := c } } := by
  simp only [bfsAssign, SchedState.modifyCpu, SchedState.modifyRq, update_self]

theorem bmqRun_cpus (r : RNode) (v : VNode) :
    (bmqRun s c r v).cpus = update s.cpus c { s.cpus c with
      vcpu := some (s.vpnodeMemory v).cur
      vmpidrEl2 := (s.vcpus (s.vpnodeMemory v).cur).vmpidr } := by
  simp only [bmqRun, bmqAssign, switchTo, SchedState.modifyCpu, SchedState.modifyRq,
    SchedState.modifyVnode, update_self]

theorem bmqRun_runVnode (r : RNode) (v : VNode) :
    ((tryRescheduleReturn (bmqRun s c r v) c).rqnodeMemory r).runVnode = some v := by
  simp only [tryRescheduleReturn, bmqRun, bmqAssign, switchTo, SchedState.modifyCpu,
    SchedState.modifyRq, update_self]

theorem updateTaskTimesLeave_cpus (cfg : SchedConfig) (r : RNode) (v : VNode) :
    (updateTaskTimesLeave cfg s c r v).cpus = update s.cpus c { s.cpus c with pc := .guest } := rfl

theorem slotCleared_cpus : (slotCleared s).cpus = s.cpus := rfl

theorem wakeStart_cpus (cfg : SchedConfig) (v : VNode) : (wakeStart cfg s v).cpus = s.cpus := rfl

theorem sleepStart_cpus (r : RNode) (v : VNode) : (sleepStart s r v).cpus = s.cpus := rfl

end Cpus

/-- In `bmq_scheduler`, on a pCPU with the fields `p`: `u` is the state in which it looks for a vCPU of
`r`, behind the first part of the function or in a later round of its loop. -/
def Requeued (cfg : SchedConfig) (s : SchedState) (p : PCpu) (r : RNode) (u : SchedState) : Prop :=
  (p.pc = .bmq ∧ p.rqnode = some r ∧ bmqRequeue cfg s r = some u) ∨ (p.pc = .bmqLookup r ∧ u = s)

/-- Where the pCPU `c` that acts goes, and what it stores in its `struct cpu` and registers. -/
inductive CpuMove (cfg : SchedConfig) (s t : SchedState) (c : PCpuId) (p : PCpu) : PCpu → Prop
  | stay (h : p.pc = .guest ∨ p.pc = .bfsLookup) : CpuMove cfg s t c p p
  | halt (busy : p.pc ≠ .boot ∨ p.rqnode ≠ none) : CpuMove cfg s t c p { p with pc := .halted }
  | tick (r v) (guest : p.pc = .guest) (rqnode : p.rqnode = some r)
      (run : (s.rqnodeMemory r).runVnode = some v) : CpuMove cfg s t c p { p with pc := .tick r v }
  | leave (r v) (tick : p.pc = .tick r v) : CpuMove cfg s t c p { p with pc := .guest }
  | busy (pc : p.pc = .boot ∨ p.pc = .guest) (flag : p.flag = true) :
      CpuMove cfg s t c p { p with pc := .guest }
  | resched (pc') (pc : p.pc = .boot ∨ p.pc = .guest) (flag : p.flag = false)
      (next : (pc' = .bfsLookup ∧ p.rqnode = none) ∨
        ((pc' = .bfsInsert ∨ pc' = .bmq) ∧ p.rqnode ≠ none)) :
      CpuMove cfg s t c p { p with flag := true, pc := pc' }
  | keep (r v) (pc : p.pc = .boot ∨ p.pc = .guest) (flag : p.flag = false)
      (rqnode : p.rqnode = some r) (run : (s.rqnodeMemory r).runVnode = some v) :
      CpuMove cfg s t c p { p with flag := false, pc := .guest }
  | insert (r) (pc : p.pc = .bfsInsert) (rqnode : p.rqnode = some r) :
      CpuMove cfg s t c p { p with pc := .bfsLookup }
  | hit (r) (pc : p.pc = .bfsLookup) : CpuMove cfg s t c p { p with pc := .bfsSelected r }
  | assign (r m vttbr) (pc : p.pc = .bfsSelected r) (vm : (s.rqnodeMemory r).vm = some m)
      (assigned : t = (bfsAssign s c r m).setPc c .bmq) :
      CpuMove cfg s t c p { p with rqnode := some r, vttbrEl2 := vttbr, pc := .bmq }
  | spin (r u) (requeued : Requeued cfg s p r u) (lookup : vTaskLookup u r = some (none, u))
      (spins : t = u.setPc c (.bmqLookup r)) : CpuMove cfg s t c p { p with pc := .bmqLookup r }
  | run (r u v w vcpu vmpidr) (requeued : Requeued cfg s p r u)
      (lookup : vTaskLookup u r = some (some v, w))
      (runs : t = tryRescheduleReturn (bmqRun w c r v) c) :
      CpuMove cfg s t c p { p with
        vcpu := some vcpu, vmpidrEl2 := vmpidr, flag := false, pc := .guest }

theorem SchedStep.cpus {cfg : SchedConfig} {s t : SchedState} {a : Action}
    (h : SchedStep cfg s a t) :
    ∃ p, CpuMove cfg s t a.cpu (s.cpus a.cpu) p ∧ t.cpus = update s.cpus a.cpu p := by
  cases h with
  | haltCall c f pc guest h =>
    refine ⟨_, .halt ?_, rfl⟩
    by_cases hf : f = .tryReschedule
    · subst hf
      right
      intro hnone
      have hr : (s.cpus c).rqnode = none := hnone
      cases hflag : (s.cpus c).flag <;>
        simp [callEffect, tryReschedule, SchedState.modifyCpu, hflag, hr] at h
    · left
      show (s.cpus c).pc ≠ .boot
      rw [guest hf]
      simp
  | haltResume c h =>
    refine ⟨_, .halt (.inl fun hboot => ?_), rfl⟩
    have hpc : (s.cpus c).pc = .boot := hboot
    simp only [resumeEffect, hpc] at h
    cases h
  | tickWait c r v pc rqnode run => exact ⟨_, .tick r v pc rqnode run, rfl⟩
  | tickClock r v pc rqnode run => exact ⟨_, .tick r v pc rqnode run, rfl⟩
  | tickCount r v pc rqnode run => exact ⟨_, .tick r v pc rqnode run, rfl⟩
  | tickWake r v u q w pc rqnode run flag sleeper home insert =>
    refine ⟨_, .tick r v pc rqnode run, ?_⟩
    rw [setPc_cpus, slotCleared_cpus, vTaskInsert_cpus insert, wakeStart_cpus]
    rfl
  | tickLeave c r v pc => exact ⟨_, .leave r v pc, rfl⟩
  | reschedBusy c pc flag => exact ⟨_, .busy pc flag, rfl⟩
  | reschedFirst c pc flag rqnode =>
    refine ⟨_, .resched .bfsLookup pc flag (.inl ⟨rfl, rqnode⟩), ?_⟩
    rw [setPc_cpus, reschedEntered_cpus, update_self, update_idem]
    rfl
  | reschedVm c r u pc flag rqnode expire =>
    obtain ⟨-, rfl⟩ := bfsExpire_eq_some expire
    refine ⟨_, .resched .bfsInsert pc flag (.inr ⟨.inl rfl, ?_⟩), ?_⟩
    · exact Option.ne_none_iff_exists'.mpr ⟨r, rqnode⟩
    · simp only [setPc_cpus, SchedState.modifyRq, reschedEntered_cpus, update_self, update_idem]
      rfl
  | reschedVcpu c r pc flag rqnode =>
    refine ⟨_, .resched .bmq pc flag (.inr ⟨.inr rfl, ?_⟩), ?_⟩
    · exact Option.ne_none_iff_exists'.mpr ⟨r, rqnode⟩
    · rw [setPc_cpus, reschedEntered_cpus, update_self, update_idem]
      rfl
  | reschedKeep c r v pc flag rqnode run =>
    refine ⟨_, .keep r v pc flag rqnode run, ?_⟩
    rw [tryRescheduleReturn_cpus, reschedEntered_cpus, update_self, update_idem]
    rfl
  | start c arg0 r m v u w pc rqnode vm arg create insert =>
    refine ⟨s.cpus c, .stay (.inl pc), ?_⟩
    obtain ⟨-, -, rfl⟩ := initializeVCpuNode_eq_some create
    rw [vTaskInsert_cpus insert]
    exact (update_eq_self c s.cpus).symm
  | sleep c r v pc => exact ⟨s.cpus c, .stay (.inl pc), (update_eq_self c s.cpus).symm⟩
  | bfsInsert c r u pc rqnode insert =>
    obtain ⟨head, -, rfl⟩ := rqInsert_eq_some insert
    exact ⟨_, .insert r pc rqnode, rfl⟩
  | bfsMiss c u pc lookup =>
    rw [pTaskLookup_eq_none lookup]
    exact ⟨s.cpus c, .stay (.inr pc), (update_eq_self c s.cpus).symm⟩
  | bfsHit c r u pc lookup =>
    obtain ⟨-, -, -, hremove⟩ := pTaskLookup_eq_some lookup
    obtain ⟨p, -, rfl⟩ := rqRemove_eq_some hremove
    exact ⟨_, .hit r pc, rfl⟩
  | bfsRun c r u pc run =>
    obtain ⟨m, hm, rfl⟩ := bfsRun_eq_some run
    refine ⟨_, .assign r m (prepareToSwitch { s.vms m with master := c }) pc hm rfl, ?_⟩
    rw [setPc_cpus, bfsAssign_cpus, update_self, update_idem]
    rfl
  | bmqSpin c r u w pc rqnode requeue lookup =>
    obtain ⟨-, rfl⟩ := vTaskLookup_eq_none lookup
    refine ⟨_, .spin r w (.inl ⟨pc, rqnode, requeue⟩) lookup rfl, ?_⟩
    rw [setPc_cpus, bmqRequeue_cpus requeue]
    rfl
  | bmqRun c r u v w pc rqnode requeue lookup =>
    refine ⟨_, .run r u v w (w.vpnodeMemory v).cur (w.vcpus (w.vpnodeMemory v).cur).vmpidr
      (.inl ⟨pc, rqnode, requeue⟩) lookup rfl, ?_⟩
    rw [tryRescheduleReturn_cpus, bmqRun_cpus, update_self, update_idem, vTaskLookup_cpus lookup,
      bmqRequeue_cpus requeue]
    rfl
  | bmqMiss c r u pc lookup =>
    obtain ⟨-, rfl⟩ := vTaskLookup_eq_none lookup
    exact ⟨_, .spin r u (.inr ⟨pc, rfl⟩) lookup rfl, rfl⟩
  | bmqFind c r v u pc lookup =>
    refine ⟨_, .run r s v u (u.vpnodeMemory v).cur (u.vcpus (u.vpnodeMemory v).cur).vmpidr
      (.inr ⟨pc, rfl⟩) lookup rfl, ?_⟩
    rw [tryRescheduleReturn_cpus, bmqRun_cpus, update_self, update_idem, vTaskLookup_cpus lookup]
    rfl

end Avisor
