import Avisor.Sched.Boot

/-!
# The choice of a vCPU

`bmq_scheduler` repeats `v_task_lookup` until it returns a vCPU. In every reachable state the first
lookup does, but for one case: the vCPU that ran last sleeps, so it is not put back, and its VM has no
other vCPU queued.
-/

namespace Avisor

open Function LinkedList

variable {cfg : SchedConfig} {s : SchedState} {r : RNode}

/-- A lookup finds a vCPU exactly if a level has one. -/
theorem vTaskLookup_isSome_iff {n : Nat} {m : VmId} (hs : s.queues.Wf n)
    (hr : s.queues.nodeVm r = some m) :
    (∃ v t, vTaskLookup s r = some (some v, t)) ↔ ∃ i < bmqBitmapSize, s.queues.level r i ≠ none := by
  constructor
  · rintro ⟨v, t, h⟩
    obtain ⟨i, hi, hlevel, -⟩ := queues_vTaskLookup h
    refine ⟨i, hi, ?_⟩
    rw [hlevel]
    simp
  · rintro ⟨i, hi, hlevel⟩
    cases hfirst : firstLevel (s.rqnodeMemory r).bitmap with
    | none => exact absurd (queues_empty hs hr hfirst i hi) hlevel
    | some j =>
      obtain ⟨hj, hbit⟩ := firstLevel_eq_some hfirst
      obtain ⟨v, hv⟩ := Option.ne_none_iff_exists'.mp ((hs.bit r m j hr hj).mp hbit)
      have hv' : s.level r j = some v := hv
      simp only [vTaskLookup, hfirst, hv']
      exact ⟨v, _, rfl⟩

/-- Putting the last vCPU back gets stuck at the `ASSERT` of its time slice only. -/
theorem bmqRequeue_isSome_iff {m : VmId} (hs : s.queues.Wf cfg.vnodeNum)
    (hr : s.queues.nodeVm r = some m) :
    bmqRequeue cfg s r ≠ none ↔
      ∀ v, (s.rqnodeMemory r).runVnode = some v → (s.vpnodeMemory v).timeSlice = 0 := by
  cases hrun : (s.rqnodeMemory r).runVnode with
  | none => simp [bmqRequeue, hrun]
  | some v =>
    by_cases hslice : (s.vpnodeMemory v).timeSlice = 0
    · refine iff_of_true ?_ fun w hw => by cases hw; exact hslice
      by_cases hsleep : s.sleepVnode = some v
      · simp [bmqRequeue, hrun, hslice, hsleep]
      · obtain ⟨hv, hvm⟩ := hs.run_mem r m v hr hrun
        have hset : (s.requeued v).queues =
            s.queues.setPrio v (prioManage (s.vpnodeMemory v) 0).prio :=
          queues_modifyVnode s v (fun _ => rfl) fun _ => rfl
        have hwf : (s.requeued v).queues.Wf cfg.vnodeNum := by
          rw [hset]
          exact hs.setPrio (prioManage_prio_lt _ 0 (hs.prio_lt v hv))
        have hcreated : (s.requeued v).queues.created v = true := by
          rw [hset]
          exact hv
        have hhome : (s.requeued v).queues.Home v r := by
          rw [hset]
          exact hr.trans (congrArg some hvm.symm)
        obtain ⟨t, ht⟩ : ∃ t, vTaskInsert cfg (s.requeued v) v r = some t :=
          vTaskInsert_isSome fun first hfirst => hwf.exists_tail hcreated hhome hfirst
        have hrequeue : bmqRequeue cfg s r = some t := by
          simp only [bmqRequeue, hrun, hslice, hsleep]
          exact ht
        rw [hrequeue]
        simp
    · refine iff_of_false ?_ fun h => hslice (h v rfl)
      simp only [bmqRequeue, hrun, ne_eq, not_not]
      exact if_pos hslice

/-- Whenever `bmq_scheduler` is called, the vCPU that ran last is put back unless the `ASSERT` of its
time slice fails, and the first lookup behind that returns a vCPU, except where the vCPU that ran last
sleeps and its VM has no other one queued. -/
theorem bmqScheduler_lookup_iff {c : PCpuId} (h : (schedMachine cfg).Reachable s)
    (_hpc : (s.cpus c).pc = .bmq) (hr : (s.cpus c).rqnode = some r) :
    (bmqRequeue cfg s r ≠ none ↔
      ∀ v, (s.rqnodeMemory r).runVnode = some v → (s.vpnodeMemory v).timeSlice = 0) ∧
    ∀ u, bmqRequeue cfg s r = some u →
      ((∃ v t, vTaskLookup u r = some (some v, t)) ↔
        ¬∃ v, (s.rqnodeMemory r).runVnode = some v ∧ s.sleepVnode = some v ∧
          ∀ i < bmqBitmapSize, s.level r i = none) := by
  have hs := Reachable.schedWf h
  obtain ⟨m, hm⟩ := hs.node hr
  refine ⟨bmqRequeue_isSome_iff hs.queues hm, fun u hu => ?_⟩
  have hrequeue := queues_bmqRequeue hs.queues hm hu
  have hnode : u.queues.nodeVm r = some m := by
    rw [hrequeue.nodeVm]
    exact hm
  rw [vTaskLookup_isSome_iff (hrequeue.wf hs.queues hm) hnode]
  generalize u.queues = q at hrequeue hnode
  cases hrequeue with
  | keep sleeps =>
    cases hrun : (s.rqnodeMemory r).runVnode with
    | none => exact iff_of_true (hs.started r m hm hrun) (by simp)
    | some v =>
      have hsleep : s.sleepVnode = some v := sleeps v hrun
      simp only [hsleep, Option.some.injEq, exists_eq_left', true_and, not_forall, exists_prop]
      exact Iff.rfl
  | insert v p tail run awake prio hasTail =>
    refine iff_of_true ⟨p, prio, ?_⟩ ?_
    · have hself := Queues.insertAt_level_self hasTail
      rwa [show (s.queues.setPrio v p).prio v = p by simp [Queues.setPrio]] at hself
    · rintro ⟨w, hw, hsleep, -⟩
      obtain rfl : v = w := Option.some.inj ((show _ = some v from run).symm.trans hw)
      exact awake hsleep

/-- The only vCPU of the VM sleeps, and its slice ends. -/
def sleepAlone : List Action :=
  [.call 0 .tryReschedule, .resume 0, .resume 0, .resume 0, .call 0 .schedIoHandler,
    .call 0 .updateTaskTimes, .resume 0, .call 0 .tryReschedule]

/-- The state at the call of `bmq_scheduler` then. -/
def aloneState : SchedState := ((schedMachine smallConfig).run smallBoot sleepAlone).getD schedBoot

theorem aloneState_reachable : (schedMachine smallConfig).Reachable aloneState := by
  have hsome : ((schedMachine smallConfig).run smallBoot sleepAlone).isSome = true := by decide
  obtain ⟨t, ht⟩ := Option.isSome_iff_exists.mp hsome
  refine ⟨smallBoot, sleepAlone, smallBoot_init, Machine.run_eq_some_iff.mp ?_⟩
  rw [aloneState, ht]
  rfl

theorem bmqScheduler_lookup_iff_alone :
    (bmqRequeue smallConfig aloneState 1 ≠ none ↔ ∀ v, (aloneState.rqnodeMemory 1).runVnode = some v →
      (aloneState.vpnodeMemory v).timeSlice = 0) ∧
    ∀ u, bmqRequeue smallConfig aloneState 1 = some u →
      ((∃ v t, vTaskLookup u 1 = some (some v, t)) ↔
        ¬∃ v, (aloneState.rqnodeMemory 1).runVnode = some v ∧ aloneState.sleepVnode = some v ∧
          ∀ i < bmqBitmapSize, aloneState.level 1 i = none) :=
  bmqScheduler_lookup_iff (c := 0) aloneState_reachable (by decide) (by decide)

/-- A VM whose only started vCPU sleeps at the end of its slice: the lookup finds nothing. -/
theorem bmqScheduler_spins : ¬∀ (cfg : SchedConfig) (s : SchedState) (c : PCpuId) (r : RNode),
    (schedMachine cfg).Reachable s → (s.cpus c).pc = .bmq → (s.cpus c).rqnode = some r →
    ∀ u, bmqRequeue cfg s r = some u → ∃ v t, vTaskLookup u r = some (some v, t) := by
  intro hall
  have hstuck : (bmqRequeue smallConfig aloneState 1).map
      (fun u => (vTaskLookup u 1).map fun result => result.1) = some (some none) := by decide
  obtain ⟨u, hu, hlookup⟩ := Option.map_eq_some_iff.mp hstuck
  obtain ⟨v, t, ht⟩ := hall smallConfig aloneState 0 1 aloneState_reachable (by decide) (by decide) u hu
  rw [ht] at hlookup
  cases hlookup

end Avisor
