import Avisor.Lib.DeadlineQueue
import Avisor.Sched.Boot

/-!
# Overtaking between the VMs

`p_task_lookup` takes the VM with the earliest virtual deadline, and `bfs_scheduler` gives a VM whose
slice is used up the deadline `bfs_clock + vdeadline_diff` before it puts it back. All VMs have the same
`vdeadline_diff`, so the VMs are a queue by deadline, as long as no deadline overflows: while a VM
waits, every other one is taken at most once.
-/

namespace Avisor

open Function LinkedList DeadlineQueue

/-! ### Selections and expiries -/

/-- The node that `p_task_lookup` returns in the step `a`. -/
def selected (cfg : SchedConfig) (s : SchedState) : Action → Option RNode
  | .call _ _ => none
  | .resume c =>
    if (s.cpus c).pc = .bfsLookup then (pTaskLookup cfg s).bind fun found => found.1 else none

/-- The nodes that `p_task_lookup` returns along the actions `as`, one after another. -/
def selections (cfg : SchedConfig) : SchedState → List Action → List RNode
  | _, [] => []
  | s, a :: as =>
    match (schedMachine cfg).step s a with
    | none => []
    | some t => (selected cfg s a).toList ++ selections cfg t as

/-- The node that `bfs_scheduler` gives a new deadline in the step `a` from `s` to `t`, before it puts
it back. -/
def expiring (s t : SchedState) : Action → Option RNode
  | .call c .tryReschedule => if (t.cpus c).pc = .bfsInsert then (s.cpus c).rqnode else none
  | _ => none

/-- The node is linked in the run queue. -/
def InRunQueue (s : SchedState) (r : RNode) : Prop :=
  ∃ head l, s.rqPtr = some head ∧ Chain s.rnext (s.rnext head) l ∧ r ∈ l

/-- The state with the clock at which each node was selected last. -/
structure Timed where
  sched : SchedState
  chosenAt : RNode → Option (BitVec 64)

/-- The scheduler, and when it selected the VMs. -/
def timedMachine (cfg : SchedConfig) : Machine Timed Action where
  Init x := (schedMachine cfg).Init x.sched ∧ x.chosenAt = fun _ => none
  step x a := ((schedMachine cfg).step x.sched a).map fun t =>
    { sched := t
      chosenAt := match selected cfg x.sched a with
        | none => x.chosenAt
        | some r => fun z => if z = r then some x.sched.bfsClock else x.chosenAt z }

/-- The clock does not decrease, and a VM that was selected gets its new deadline at a later clock. -/
structure Paced (cfg : SchedConfig) (x : Timed) (a : Action) : Prop where
  clock : ∀ t ∈ (schedMachine cfg).step x.sched a, x.sched.bfsClock ≤ t.bfsClock
  later : ∀ t ∈ (schedMachine cfg).step x.sched a, ∀ r ∈ expiring x.sched t a, ∀ k ∈ x.chosenAt r,
    k < x.sched.bfsClock

/-- The new deadline fits in 64 bits. -/
def DeadlineFits (cfg : SchedConfig) (x : Timed) (a : Action) : Prop :=
  ∀ t ∈ (schedMachine cfg).step x.sched a, ∀ r ∈ expiring x.sched t a,
    x.sched.bfsClock.toNat + (x.sched.rqnodeMemory r).vdeadlineDiff.toNat < 2 ^ 64

/-- The number of ready vCPUs of `v` is below its maximum. -/
def ReadyFits (v : RNode) (x : Timed) : Prop :=
  (x.sched.rqnodeMemory v).nrVcpuReady ≠ BitVec.allOnes 32

/-- Neither the new deadline nor the number of ready vCPUs of `v` overflows. -/
structure NoOverflow (cfg : SchedConfig) (v : RNode) (x : Timed) (a : Action) : Prop where
  deadline : DeadlineFits cfg x a
  count : ReadyFits v x

section Decidable

variable {cfg : SchedConfig} {v : RNode} {x : Timed} {a : Action}

instance Paced.decidable : Decidable (Paced cfg x a) :=
  -- found by itself, the instance would try every value of `k`
  have (r : RNode) : Decidable (∀ k ∈ x.chosenAt r, k < x.sched.bfsClock) :=
    Option.decidableForallMem _
  decidable_of_iff
    ((∀ t ∈ (schedMachine cfg).step x.sched a, x.sched.bfsClock ≤ t.bfsClock) ∧
      ∀ t ∈ (schedMachine cfg).step x.sched a, ∀ r ∈ expiring x.sched t a, ∀ k ∈ x.chosenAt r,
        k < x.sched.bfsClock)
    ⟨fun h => ⟨h.1, h.2⟩, fun h => ⟨h.clock, h.later⟩⟩

instance DeadlineFits.decidable : Decidable (DeadlineFits cfg x a) :=
  inferInstanceAs (Decidable (∀ t ∈ (schedMachine cfg).step x.sched a,
    ∀ r ∈ expiring x.sched t a, _))

instance ReadyFits.decidable : Decidable (ReadyFits v x) :=
  inferInstanceAs (Decidable (_ ≠ _))

instance NoOverflow.decidable : Decidable (NoOverflow cfg v x a) :=
  decidable_of_iff (DeadlineFits cfg x a ∧ ReadyFits v x)
    ⟨fun h => ⟨h.1, h.2⟩, fun h => ⟨h.deadline, h.count⟩⟩

end Decidable

/-! ### Where the VMs are -/

/-- The node that a pCPU holds, and whether it has given it its new deadline. -/
def PCpu.holding (p : PCpu) : Option (RNode × Place) :=
  match p.pc with
  | .bfsLookup => none
  | .bfsSelected r => some (r, .running)
  | .bfsInsert => p.rqnode.map fun r => (r, .expired)
  | _ => p.rqnode.map fun r => (r, .running)

theorem PCpu.held_of_holding {p : PCpu} {r : RNode} {place : Place} (h : p.holding = some (r, place)) :
    p.held = some r ∧ place ≠ .waiting := by
  unfold PCpu.holding at h
  unfold PCpu.held
  split at h
  · cases h
  · rename_i hpc
    cases h
    exact ⟨by simp [hpc], by simp⟩
  all_goals
    obtain ⟨q, hq, heq⟩ := Option.map_eq_some_iff.mp h
    cases heq
    exact ⟨by grind, by simp⟩

theorem PCpu.holding_of_held {p : PCpu} {r : RNode} (h : p.held = some r) :
    ∃ place, p.holding = some (r, place) := by
  unfold PCpu.held at h
  unfold PCpu.holding
  split at h
  · cases h
  · rename_i hpc
    cases h
    exact ⟨.running, by simp [hpc]⟩
  · simp only [h, Option.map_some]
    split <;> grind

open Classical in
/-- Where the node `r` is. -/
noncomputable def SchedState.place (s : SchedState) (r : RNode) : Place :=
  if ∃ c, (s.cpus c).holding = some (r, .expired) then .expired
  else if ∃ c, (s.cpus c).holding = some (r, .running) then .running
  else .waiting

section Place

variable {s t : SchedState} {c : PCpuId} {r : RNode}

/-- No two pCPUs hold the same node. -/
def HeldOnce (s : SchedState) : Prop :=
  ∀ c c' r, (s.cpus c).held = some r → (s.cpus c').held = some r → c = c'

theorem RqWf.heldOnce {cfg : SchedConfig} (hs : RqWf cfg s) : HeldOnce s := by
  obtain ⟨l, hl⟩ := hs.view
  exact hl.held_unique

theorem place_of_holding {place : Place} (hs : HeldOnce s)
    (h : (s.cpus c).holding = some (r, place)) : s.place r = place := by
  obtain ⟨hheld, hwaiting⟩ := PCpu.held_of_holding h
  have honly {c' place'} (h' : (s.cpus c').holding = some (r, place')) : place' = place := by
    obtain rfl := hs c c' r hheld (PCpu.held_of_holding h').1
    rw [h] at h'
    cases h'
    rfl
  unfold SchedState.place
  split
  · rename_i hexpired
    obtain ⟨c', h'⟩ := hexpired
    exact honly h'
  · rename_i hexpired
    split
    · rename_i hruns
      obtain ⟨c', h'⟩ := hruns
      exact honly h'
    · rename_i hruns
      cases place with
      | waiting => exact absurd rfl hwaiting
      | running => exact absurd ⟨c, h⟩ hruns
      | expired => exact absurd ⟨c, h⟩ hexpired

theorem place_eq_waiting (h : ∀ c, (s.cpus c).held ≠ some r) : s.place r = .waiting := by
  have hnone {place} : ¬∃ c, (s.cpus c).holding = some (r, place) := fun ⟨c, hc⟩ =>
    h c (PCpu.held_of_holding hc).1
  rw [SchedState.place, if_neg hnone, if_neg hnone]

theorem held_ne_of_waiting (hs : HeldOnce s) (h : s.place r = .waiting) (c : PCpuId) :
    (s.cpus c).held ≠ some r := by
  intro hheld
  obtain ⟨place, hplace⟩ := PCpu.holding_of_held hheld
  rw [place_of_holding hs hplace] at h
  exact (PCpu.held_of_holding hplace).2 h

theorem place_congr (h : ∀ c place,
    (t.cpus c).holding = some (r, place) ↔ (s.cpus c).holding = some (r, place)) :
    t.place r = s.place r := by
  classical
  exact if_congr (exists_congr fun c => h c .expired) rfl
    (if_congr (exists_congr fun c => h c .running) rfl rfl)

theorem place_of_cpus (h : t.cpus = s.cpus) : t.place = s.place := by
  funext r
  apply place_congr
  intro c place
  rw [h]

theorem place_of_update {p : PCpu} (hcpus : t.cpus = update s.cpus c p)
    (h : p.holding = (s.cpus c).holding) : t.place = s.place := by
  funext r
  apply place_congr
  intro c' place
  rw [hcpus]
  by_cases hc : c' = c
  · subst hc
    rw [update_self, h]
  · rw [update_of_ne hc]

/-- A pCPU that changes what it holds of `r` changes the place of `r` alone. -/
theorem place_eq_update {p : PCpu} {place : Place} (hcpus : t.cpus = update s.cpus c p)
    (hbefore : ∀ r' place', (s.cpus c).holding = some (r', place') → r' = r)
    (hbehind : ∀ r' place', p.holding = some (r', place') → r' = r) (hr : t.place r = place) :
    t.place = update s.place r place := by
  funext r'
  by_cases hr' : r' = r
  · subst hr'
    rw [update_self]
    exact hr
  · rw [update_of_ne hr']
    apply place_congr
    intro c' place'
    rw [hcpus]
    by_cases hc : c' = c
    · subst hc
      rw [update_self]
      exact iff_of_false (fun h => hr' (hbehind r' place' h)) fun h => hr' (hbefore r' place' h)
    · rw [update_of_ne hc]

/-- A pCPU gets stuck with the node it holds. -/
theorem holding_halted {cfg : SchedConfig} (hs : RqWf cfg s) (h : resumeEffect cfg s c = some none) :
    PCpu.holding { s.cpus c with pc := .halted } = (s.cpus c).holding := by
  have hheld := held_halted hs h
  cases hpc : (s.cpus c).pc with
  | bfsInsert =>
    cases hr : (s.cpus c).rqnode with
    | none => simp [PCpu.holding, hpc, hr]
    | some r =>
      simp only [resumeEffect, hpc, hr, Option.bind_some, Option.some.injEq, Option.map_eq_none_iff,
        rqInsert] at h
      obtain ⟨l, hl⟩ := hs.view
      exact absurd ((hl.empty h).2 r) (hs.rqnode_vm c r hr)
  | bfsLookup | bfsSelected r =>
    simp only [PCpu.held, hpc] at hheld
    simp [PCpu.holding, hpc, hheld]
  | _ => simp only [PCpu.holding, hpc]

end Place

/-! ### What the steps do to the tasks -/

/-- The fields of the nodes that selections depend on. -/
def SchedState.times (s : SchedState) (r : RNode) : BitVec 64 × BitVec 64 :=
  ((s.rqnodeMemory r).vdeadline, (s.rqnodeMemory r).vdeadlineDiff)

section Times

variable (s : SchedState)

theorem times_modifyRq (r : RNode) {f : RunQueueNode → RunQueueNode}
    (hdeadline : ∀ n, (f n).vdeadline = n.vdeadline)
    (hdiff : ∀ n, (f n).vdeadlineDiff = n.vdeadlineDiff) : (s.modifyRq r f).times = s.times := by
  funext x
  by_cases h : x = r
  · subst h
    simp only [SchedState.times, SchedState.modifyRq, update_self, hdeadline, hdiff]
  · simp only [SchedState.times, SchedState.modifyRq, update_of_ne h]

theorem times_relink (r : RNode) (bitmap : BitVec 64) (nr : BitVec 32)
    (next : VNode → Option VNode) (levels : Nat → Option VNode) :
    (s.relink r bitmap nr next levels).times = s.times :=
  times_modifyRq s r (f := fun n => { n with bitmap := bitmap, nrVcpuReady := nr }) (fun _ => rfl)
    fun _ => rfl

end Times

variable {cfg : SchedConfig} {s t : SchedState} {a : Action} {r : RNode}

theorem times_vTaskInsert {v : VNode} (h : vTaskInsert cfg s v r = some t) : t.times = s.times := by
  obtain ⟨next, levels, rfl, -⟩ := vTaskInsert_eq_some h
  exact times_relink ..

theorem times_vTaskLookup {v : Option VNode} (h : vTaskLookup s r = some (v, t)) :
    t.times = s.times := by
  cases v with
  | none => rw [(vTaskLookup_eq_none h).2]
  | some v =>
    obtain ⟨i, -, -, rfl⟩ := vTaskLookup_eq_some h
    exact times_relink ..

theorem times_bmqRequeue (h : bmqRequeue cfg s r = some t) : t.times = s.times := by
  rcases bmqRequeue_eq_some h with ⟨rfl, -⟩ | ⟨v, -, -, hinsert⟩
  · rfl
  · rw [times_vTaskInsert hinsert]
    rfl

theorem times_bmqRun_return (s : SchedState) (c : PCpuId) (r : RNode) (v : VNode) :
    (tryRescheduleReturn (bmqRun s c r v) c).times = s.times := by
  have hassign : (tryRescheduleReturn (bmqRun s c r v) c).times = (bmqAssign s r v).times := rfl
  rw [hassign, bmqAssign, times_modifyRq _ r (f := fun n => { n with runVnode := some v })
    (fun _ => rfl) fun _ => rfl]
  rfl

/-- A node that selections can return. -/
def SchedState.Ready (s : SchedState) (r : RNode) : Prop :=
  (s.rqnodeMemory r).vm ≠ none ∧ (s.rqnodeMemory r).nrVcpuReady > 0

/-- The number of ready vCPUs stays or grows by one. -/
def Grows (s t : SchedState) (r : RNode) : Prop :=
  (t.rqnodeMemory r).nrVcpuReady = (s.rqnodeMemory r).nrVcpuReady ∨
    (t.rqnodeMemory r).nrVcpuReady = (s.rqnodeMemory r).nrVcpuReady + 1

theorem nrVcpuReady_modifyRq (s : SchedState) (r x : RNode) {f : RunQueueNode → RunQueueNode}
    (hnr : ∀ n, (f n).nrVcpuReady = n.nrVcpuReady) :
    ((s.modifyRq r f).rqnodeMemory x).nrVcpuReady = (s.rqnodeMemory x).nrVcpuReady := by
  by_cases h : x = r
  · subst h
    simp only [SchedState.modifyRq, update_self, hnr]
  · simp only [SchedState.modifyRq, update_of_ne h]

theorem nrVcpuReady_vTaskInsert {v : VNode} (h : vTaskInsert cfg s v r = some t) (x : RNode) :
    (t.rqnodeMemory x).nrVcpuReady =
      update (fun y => (s.rqnodeMemory y).nrVcpuReady) r ((s.rqnodeMemory r).nrVcpuReady + 1) x := by
  obtain ⟨next, levels, rfl, -⟩ := vTaskInsert_eq_some h
  by_cases hx : x = r
  · subst hx
    simp only [SchedState.relink, update_self]
  · simp only [SchedState.relink, update_of_ne hx]

theorem nrVcpuReady_vTaskLookup {v : Option VNode} {x : RNode} (h : vTaskLookup s r = some (v, t))
    (hx : x ≠ r) : (t.rqnodeMemory x).nrVcpuReady = (s.rqnodeMemory x).nrVcpuReady := by
  cases v with
  | none => rw [(vTaskLookup_eq_none h).2]
  | some v =>
    obtain ⟨i, -, -, rfl⟩ := vTaskLookup_eq_some h
    simp only [SchedState.relink, update_of_ne hx]

theorem nrVcpuReady_bmqRequeue {x : RNode} (h : bmqRequeue cfg s r = some t) (hx : x ≠ r) :
    (t.rqnodeMemory x).nrVcpuReady = (s.rqnodeMemory x).nrVcpuReady := by
  rcases bmqRequeue_eq_some h with ⟨rfl, -⟩ | ⟨v, -, -, hinsert⟩
  · rfl
  · rw [nrVcpuReady_vTaskInsert hinsert, update_of_ne hx]
    rfl

theorem nrVcpuReady_bmqRun_return (s : SchedState) (c : PCpuId) (r x : RNode) (v : VNode) :
    ((tryRescheduleReturn (bmqRun s c r v) c).rqnodeMemory x).nrVcpuReady =
      (s.rqnodeMemory x).nrVcpuReady := by
  have hassign : (tryRescheduleReturn (bmqRun s c r v) c).rqnodeMemory =
      (bmqAssign s r v).rqnodeMemory := rfl
  rw [hassign, bmqAssign, nrVcpuReady_modifyRq _ r x (f := fun n => { n with runVnode := some v })
    fun _ => rfl]
  rfl

theorem ready_modifyRq (s : SchedState) (r : RNode) {f : RunQueueNode → RunQueueNode}
    (hvm : ∀ n, (f n).vm = n.vm) (hnr : ∀ n, (f n).nrVcpuReady = n.nrVcpuReady) :
    (s.modifyRq r f).Ready = s.Ready := by
  funext x
  by_cases h : x = r
  · subst h
    simp only [SchedState.Ready, SchedState.modifyRq, update_self, hvm, hnr]
  · simp only [SchedState.Ready, SchedState.modifyRq, update_of_ne h]

/-- A step of the scheduler on the places and deadlines of the nodes. -/
inductive TaskStep (cfg : SchedConfig) (s : SchedState) (a : Action) (t : SchedState) : Prop
  | pass (place : t.place = s.place) (times : t.times = s.times) (lookup : selected cfg s a = none)
      (counts : ∀ x, s.place x = .waiting → Grows s t x)
  | expire (r : RNode) (expires : expiring s t a = some r) (runs : s.place r = .running)
      (place : t.place = update s.place r .expired)
      (times : t.times = update s.times r
        (s.bfsClock + (s.rqnodeMemory r).vdeadlineDiff, (s.rqnodeMemory r).vdeadlineDiff))
      (clock : t.bfsClock = s.bfsClock) (ready : t.Ready = s.Ready)
      (lookup : selected cfg s a = none)
  | insert (r : RNode) (expired : s.place r = .expired) (place : t.place = update s.place r .waiting)
      (times : t.times = s.times) (clock : t.bfsClock = s.bfsClock) (ready : t.Ready = s.Ready)
      (lookup : selected cfg s a = none)
  | choose (r : RNode) (waits : s.place r = .waiting) (place : t.place = update s.place r .running)
      (least : ∀ x, s.place x = .waiting → s.Ready x →
        (s.rqnodeMemory r).vdeadline ≤ (s.rqnodeMemory x).vdeadline)
      (times : t.times = s.times) (clock : t.bfsClock = s.bfsClock) (ready : t.Ready = s.Ready)
      (lookup : selected cfg s a = some r)

theorem selected_resume {c : PCpuId} (h : (s.cpus c).pc ≠ .bfsLookup) :
    selected cfg s (.resume c) = none := if_neg h

theorem SchedStep.taskStep (h : SchedStep cfg s a t) (hs : SchedWf cfg s) : TaskStep cfg s a t := by
  have ht := (hs.step h).rq.heldOnce
  have hother {c : PCpuId} {r x : RNode} (hheld : (s.cpus c).held = some r)
      (hx : s.place x = .waiting) : x ≠ r := by
    rintro rfl
    exact held_ne_of_waiting hs.rq.heldOnce hx c hheld
  have hbefore {c : PCpuId} (hpc : (s.cpus c).pc = .boot ∨ (s.cpus c).pc = .guest) :
      (s.cpus c).holding = (s.cpus c).rqnode.map fun r => (r, .running) := by
    rcases hpc with hpc | hpc <;> simp only [PCpu.holding, hpc]
  cases h with
  | haltCall c f pc guest h =>
    exact .pass (place_of_update (setPc_cpus ..) (hbefore pc).symm) rfl rfl fun _ _ => .inl rfl
  | haltResume c h =>
    refine .pass (place_of_update (setPc_cpus ..) (holding_halted hs.rq h)) rfl ?_ fun _ _ => .inl rfl
    by_cases hpc : (s.cpus c).pc = .bfsLookup
    · simp only [resumeEffect, hpc, Option.some.injEq, Option.map_eq_none_iff] at h
      simp only [selected, hpc, if_true, h, Option.bind_none]
    · exact selected_resume hpc
  | tickWait c r v pc =>
    exact .pass (place_of_update (setPc_cpus ..) (hbefore (.inr pc)).symm) rfl rfl fun _ _ => .inl rfl
  | tickClock r v pc =>
    exact .pass (place_of_update (setPc_cpus ..) (hbefore (.inr pc)).symm) rfl rfl
      fun _ _ => .inl rfl
  | tickCount r v pc =>
    exact .pass (place_of_update (setPc_cpus ..) (hbefore (.inr pc)).symm) rfl rfl
      fun _ _ => .inl rfl
  | tickWake r v u q w pc rqnode run flag sleeper home insert =>
    have hcpus : ((slotCleared w).setPc 0 (.tick r v)).cpus =
        update s.cpus 0 { s.cpus 0 with pc := .tick r v } := by
      rw [setPc_cpus, slotCleared_cpus, vTaskInsert_cpus insert, wakeStart_cpus]
    refine .pass (place_of_update hcpus (hbefore (.inr pc)).symm) ?_ rfl fun x _ => ?_
    · exact (times_vTaskInsert insert).trans rfl
    · have hcount := nrVcpuReady_vTaskInsert insert x
      by_cases hx : x = q
      · subst hx
        rw [update_self] at hcount
        exact .inr hcount
      · rw [update_of_ne hx] at hcount
        exact .inl hcount
  | tickLeave c r v pc =>
    refine .pass (place_of_update (updateTaskTimesLeave_cpus ..) ?_) ?_ (selected_resume (by simp [pc]))
      fun x _ => .inl ?_
    · simp only [PCpu.holding, pc]
    · exact times_modifyRq (s.modifyVnode v (tickVnode cfg)) r (f := tickRqnode cfg) (fun _ => rfl)
        fun _ => rfl
    · exact nrVcpuReady_modifyRq (s.modifyVnode v (tickVnode cfg)) r x (f := tickRqnode cfg) fun _ => rfl
  | reschedBusy c pc flag =>
    exact .pass (place_of_update (setPc_cpus ..) (hbefore pc).symm) rfl rfl fun _ _ => .inl rfl
  | reschedFirst c pc flag rqnode =>
    have hcpus : ((reschedEntered s c).setPc c .bfsLookup).cpus =
        update s.cpus c { s.cpus c with flag := true, pc := .bfsLookup } := by
      rw [setPc_cpus, reschedEntered_cpus, update_self, update_idem]
    refine .pass (place_of_update hcpus ?_) rfl rfl fun _ _ => .inl rfl
    rw [hbefore pc, rqnode]
    rfl
  | reschedVm c r u pc flag rqnode expire =>
    obtain ⟨-, rfl⟩ := bfsExpire_eq_some expire
    have hcpus : (((reschedEntered s c).modifyRq r fun n =>
        { n with
          vdeadline := (reschedEntered s c).bfsClock + n.vdeadlineDiff
          state := .ready
          needResched := true }).setPc c .bfsInsert).cpus =
        update s.cpus c { s.cpus c with flag := true, pc := .bfsInsert } := by
      simp only [setPc_cpus, SchedState.modifyRq, reschedEntered_cpus, update_self, update_idem]
    have hruns : (s.cpus c).holding = some (r, .running) := by
      rw [hbefore pc, rqnode]
      rfl
    have hexpired : PCpu.holding { s.cpus c with flag := true, pc := .bfsInsert } =
        some (r, .expired) := by
      simp only [PCpu.holding, rqnode, Option.map_some]
    refine .expire r ?_ (place_of_holding hs.rq.heldOnce hruns) ?_ ?_ rfl ?_ rfl
    · rw [expiring, hcpus, update_self, if_pos rfl, rqnode]
    · refine place_eq_update hcpus ?_ ?_ (place_of_holding (c := c) ht ?_)
      · intro r' place' h'
        rw [hruns] at h'
        cases h'
        rfl
      · intro r' place' h'
        rw [hexpired] at h'
        cases h'
        rfl
      · rw [hcpus, update_self]
        exact hexpired
    · funext x
      by_cases hx : x = r
      · subst hx
        simp only [SchedState.times, SchedState.setPc, SchedState.modifyCpu, SchedState.modifyRq,
          update_self]
        rfl
      · simp only [SchedState.times, SchedState.setPc, SchedState.modifyCpu, SchedState.modifyRq,
          update_of_ne hx]
        rfl
    · exact ready_modifyRq (reschedEntered s c) r (f := fun n =>
        { n with
          vdeadline := (reschedEntered s c).bfsClock + n.vdeadlineDiff
          state := .ready
          needResched := true }) (fun _ => rfl) fun _ => rfl
  | reschedVcpu c r pc flag rqnode =>
    have hcpus : ((reschedEntered s c).setPc c .bmq).cpus =
        update s.cpus c { s.cpus c with flag := true, pc := .bmq } := by
      rw [setPc_cpus, reschedEntered_cpus, update_self, update_idem]
    exact .pass (place_of_update hcpus (hbefore pc).symm) rfl rfl fun _ _ => .inl rfl
  | reschedKeep c r v pc flag rqnode run =>
    have hcpus : (tryRescheduleReturn (reschedEntered s c) c).cpus =
        update s.cpus c { s.cpus c with flag := false, pc := .guest } := by
      rw [tryRescheduleReturn_cpus, reschedEntered_cpus, update_self, update_idem]
    exact .pass (place_of_update hcpus (hbefore pc).symm) rfl rfl fun _ _ => .inl rfl
  | start c arg0 r m v u w pc rqnode vm arg create insert =>
    obtain ⟨-, -, rfl⟩ := initializeVCpuNode_eq_some create
    refine .pass (place_of_cpus ?_) ?_ rfl fun x hx => .inl ?_
    · rw [vTaskInsert_cpus insert]
      rfl
    · rw [times_vTaskInsert insert]
      rfl
    · have hheld : (s.cpus c).held = some r := by simp only [PCpu.held, pc, rqnode]
      rw [nrVcpuReady_vTaskInsert insert, update_of_ne (hother hheld hx)]
      rfl
  | sleep c r v pc =>
    exact .pass (place_of_cpus (sleepStart_cpus ..)) rfl rfl fun _ _ => .inl rfl
  | bfsInsert c r u pc rqnode insert =>
    obtain ⟨head, -, rfl⟩ := rqInsert_eq_some insert
    have hexpired : (s.cpus c).holding = some (r, .expired) := by
      simp only [PCpu.holding, pc, rqnode, Option.map_some]
    have hheld := (PCpu.held_of_holding hexpired).1
    refine .insert r (place_of_holding hs.rq.heldOnce hexpired) ?_ rfl rfl rfl
      (selected_resume (by simp [pc]))
    refine place_eq_update (setPc_cpus ..) ?_ (by simp [PCpu.holding]) (place_eq_waiting fun c' => ?_)
    · intro r' place' h'
      have h'' : (s.cpus c).holding = some (r', place') := h'
      rw [hexpired] at h''
      cases h''
      rfl
    · rw [setPc_cpus]
      by_cases hc : c' = c
      · subst hc
        simp [PCpu.held]
      · rw [update_of_ne hc]
        exact fun h' => hc (hs.rq.heldOnce c' c r h' hheld)
  | bfsMiss c u pc lookup =>
    rw [pTaskLookup_eq_none lookup]
    refine .pass rfl rfl ?_ fun _ _ => .inl rfl
    simp only [selected, pc, if_true, lookup, Option.bind_some]
  | bfsHit c r u pc lookup =>
    obtain ⟨head, hhead, hscan, hremove⟩ := pTaskLookup_eq_some lookup
    obtain ⟨p, -, rfl⟩ := rqRemove_eq_some hremove
    obtain ⟨l, hl⟩ := hs.rq.view
    have hchain : Chain s.rnext (s.rnext head) l := (hl.linked head hhead).chain
    have hmem : r ∈ l := by
      obtain ⟨x, hx, hfound⟩ := (pTaskScan_mem hchain hscan).resolve_left (by simp)
      cases hfound
      exact hx
    have hfree : (s.cpus c).holding = none := by simp only [PCpu.holding, pc]
    have hwaits : s.place r = .waiting :=
      place_eq_waiting ((hl.listed r (hl.mem_vm r hmem)).mp hmem)
    refine .choose r hwaits ?_ (fun x hx hready => ?_) rfl rfl rfl ?_
    · refine place_eq_update (setPc_cpus ..) (fun r' place' h' => ?_) (fun r' place' h' => ?_)
        (place_of_holding (c := c) ht ?_)
      · have h'' : (s.cpus c).holding = some (r', place') := h'
        rw [hfree] at h''
        cases h''
      · simp only [PCpu.holding, Option.some.injEq, Prod.mk.injEq] at h'
        exact h'.1.symm
      · rw [setPc_cpus, update_self]
        rfl
    · have hlisted : x ∈ l := (hl.listed x hready.1).mpr (held_ne_of_waiting hs.rq.heldOnce hx)
      exact (pTaskScan_least hchain hscan).1 x hlisted hready.2
    · simp only [selected, pc, if_true, lookup, Option.bind_some]
  | bfsRun c r u pc run =>
    obtain ⟨m, -, rfl⟩ := bfsRun_eq_some run
    have hcpus : ((bfsAssign s c r m).setPc c .bmq).cpus = update s.cpus c { s.cpus c with
        rqnode := some r, vttbrEl2 := prepareToSwitch { s.vms m with master := c }, pc := .bmq } := by
      rw [setPc_cpus, bfsAssign_cpus, update_self, update_idem]
    refine .pass (place_of_update hcpus ?_) ?_ (selected_resume (by simp [pc]))
      fun x _ => .inl ?_
    · simp only [PCpu.holding, pc, Option.map_some]
    · exact times_modifyRq s r (f := fun n => { n with
        state := .running
        timeSlice := BitVec.ofNat 64 bfsRrInterval
        needResched := false }) (fun _ => rfl) fun _ => rfl
    · exact nrVcpuReady_modifyRq s r x (f := fun n => { n with
        state := .running
        timeSlice := BitVec.ofNat 64 bfsRrInterval
        needResched := false }) fun _ => rfl
  | bmqSpin c r u w pc rqnode requeue lookup =>
    obtain ⟨-, rfl⟩ := vTaskLookup_eq_none lookup
    have hcpus : (w.setPc c (.bmqLookup r)).cpus =
        update s.cpus c { s.cpus c with pc := .bmqLookup r } := by
      rw [setPc_cpus, bmqRequeue_cpus requeue]
    have htimes : w.times = s.times := times_bmqRequeue requeue
    have hheld : (s.cpus c).held = some r := by simp only [PCpu.held, pc, rqnode]
    refine .pass (place_of_update hcpus ?_) htimes (selected_resume (by simp [pc]))
      fun x hx => .inl ?_
    · simp only [PCpu.holding, pc]
    · have hcount : (w.rqnodeMemory x).nrVcpuReady = (s.rqnodeMemory x).nrVcpuReady :=
        nrVcpuReady_bmqRequeue requeue (hother hheld hx)
      exact hcount
  | bmqRun c r u v w pc rqnode requeue lookup =>
    have hcpus : (tryRescheduleReturn (Avisor.bmqRun w c r v) c).cpus = update s.cpus c { s.cpus c with
        vcpu := some (w.vpnodeMemory v).cur
        vmpidrEl2 := (w.vcpus (w.vpnodeMemory v).cur).vmpidr
        flag := false
        pc := .guest } := by
      rw [tryRescheduleReturn_cpus, bmqRun_cpus, update_self, update_idem, vTaskLookup_cpus lookup,
        bmqRequeue_cpus requeue]
    have hheld : (s.cpus c).held = some r := by simp only [PCpu.held, pc, rqnode]
    refine .pass (place_of_update hcpus ?_) ?_ (selected_resume (by simp [pc])) fun x hx => .inl ?_
    · simp only [PCpu.holding, pc]
    · rw [times_bmqRun_return, times_vTaskLookup lookup, times_bmqRequeue requeue]
    · have hne := hother hheld hx
      rw [nrVcpuReady_bmqRun_return, nrVcpuReady_vTaskLookup lookup hne,
        nrVcpuReady_bmqRequeue requeue hne]
  | bmqMiss c r u pc lookup =>
    obtain ⟨-, rfl⟩ := vTaskLookup_eq_none lookup
    refine .pass (place_of_update (setPc_cpus ..) ?_) rfl (selected_resume (by simp [pc]))
      fun _ _ => .inl rfl
    simp only [PCpu.holding, pc]
  | bmqFind c r v u pc lookup =>
    have hcpus : (tryRescheduleReturn (Avisor.bmqRun u c r v) c).cpus = update s.cpus c { s.cpus c with
        vcpu := some (u.vpnodeMemory v).cur
        vmpidrEl2 := (u.vcpus (u.vpnodeMemory v).cur).vmpidr
        flag := false
        pc := .guest } := by
      rw [tryRescheduleReturn_cpus, bmqRun_cpus, update_self, update_idem, vTaskLookup_cpus lookup]
    have hheld : (s.cpus c).held = some r := by
      simp only [PCpu.held, pc, hs.bmqLookup c r pc]
    refine .pass (place_of_update hcpus ?_) ?_ (selected_resume (by simp [pc])) fun x hx => .inl ?_
    · simp only [PCpu.holding, pc]
    · rw [times_bmqRun_return, times_vTaskLookup lookup]
    · rw [nrVcpuReady_bmqRun_return, nrVcpuReady_vTaskLookup lookup (hother hheld hx)]

/-! ### The deadlines -/

/-- `vdeadline_diff` of the VMs, `prio_deadline_diff` of `bfs_default_prio`. -/
def bfsDeadlineDiff : BitVec 64 := BitVec.ofNat 64 (initPr bfsDefaultPrio * bfsRrInterval / 128)

/-- The deadlines are not further behind the clock than `vdeadline_diff`. -/
def DeadlineWf (s : SchedState) : Prop :=
  ∀ r, (s.rqnodeMemory r).vm ≠ none → (s.times r).2 = bfsDeadlineDiff ∧
    (s.times r).1.toNat ≤ s.bfsClock.toNat + bfsDeadlineDiff.toNat

theorem DeadlineWf.step (hd : DeadlineWf s) (hs : SchedWf cfg s) (h : SchedStep cfg s a t)
    (hclock : s.bfsClock ≤ t.bfsClock) : DeadlineWf t := by
  intro r hr
  have hvm : (s.rqnodeMemory r).vm ≠ none := by
    obtain ⟨e, -, hmove⟩ := h.move hs
    rw [show (t.rqnodeMemory r).vm = (s.rqnodeMemory r).vm from congrFun hmove.nodeVm r] at hr
    exact hr
  obtain ⟨hdiff, hle⟩ := hd r hvm
  have hlater := BitVec.le_def.mp hclock
  cases h.taskStep hs with
  | pass place times =>
    rw [times]
    exact ⟨hdiff, by omega⟩
  | expire x expires runs place times clock =>
    rw [times]
    by_cases hrx : r = x
    · subst hrx
      have hdiff' : (s.rqnodeMemory r).vdeadlineDiff = bfsDeadlineDiff := hdiff
      rw [update_self, hdiff', clock]
      refine ⟨rfl, ?_⟩
      rw [BitVec.toNat_add]
      exact Nat.mod_le ..
    · rw [update_of_ne hrx]
      exact ⟨hdiff, by omega⟩
  | insert x expired place times =>
    rw [times]
    exact ⟨hdiff, by omega⟩
  | choose x waits place least times =>
    rw [times]
    exact ⟨hdiff, by omega⟩

/-- The nodes while the VMs are made. -/
structure BootDeadlines (s : SchedState) : Prop where
  clock : s.bfsClock = 0
  ratios : ∀ head, s.rqPtr = some head → s.prioRatios = initPr
  deadlines : DeadlineWf s

theorem BootDeadlines.vmInit {n : Nat} (h : BootDeadlines s) (ht : vmInit cfg s n = some t) :
    BootDeadlines t := by
  obtain ⟨u, r, v, w, hmade, -, -, -, -, hinsert, hlink⟩ := vmInit_eq_some ht
  have hmaster : BootDeadlines (vmMasterInit cfg s n) := ⟨h.clock, h.ratios, h.deadlines⟩
  have hhead : BootDeadlines u ∧ u.prioRatios = initPr := by
    cases hmade with
    | first x =>
      refine ⟨⟨hmaster.clock, fun _ _ => rfl, fun y hy => ?_⟩, rfl⟩
      have hyx : y ≠ x := by
        rintro rfl
        simp [SchedState.withRqnode] at hy
      simp only [SchedState.withRqnode, SchedState.times, update_of_ne hyx] at hy ⊢
      exact hmaster.deadlines y hy
    | later head ptr => exact ⟨hmaster, hmaster.ratios head ptr⟩
  obtain ⟨hu, hratios⟩ := hhead
  have htimes := times_vTaskInsert hinsert
  obtain ⟨next, levels, hw, -⟩ := vTaskInsert_eq_some hinsert
  obtain ⟨head, -, rfl⟩ := rqInsert_eq_some hlink
  have hclock : w.bfsClock = 0 := by
    rw [hw]
    exact hu.clock
  refine ⟨hclock, fun _ _ => ?_, fun x hx => ?_⟩
  · show w.prioRatios = initPr
    rw [hw]
    exact hratios
  · have hx : (w.rqnodeMemory x).vm ≠ none := hx
    show (w.times x).2 = bfsDeadlineDiff ∧
      (w.times x).1.toNat ≤ w.bfsClock.toNat + bfsDeadlineDiff.toNat
    rw [hw, SchedState.relink_vm] at hx
    rw [htimes, hclock]
    by_cases hxr : x = r
    · subst hxr
      have hdiff : prioDeadlineDiff u bfsDefaultPrio = bfsDeadlineDiff := by
        rw [prioDeadlineDiff, hratios, bfsDeadlineDiff]
      have hnew : ((u.withRqnode x (some n) bfsDefaultPrio).withVnode v ⟨n, 0⟩ bmqDefaultPrio).times
          x = (bfsDeadlineDiff, bfsDeadlineDiff) := by
        simp only [SchedState.times, SchedState.withVnode, SchedState.modifyVnode,
          SchedState.withRqnode, update_self, hdiff, hu.clock]
        rw [show (0 : BitVec 64) + bfsDeadlineDiff = bfsDeadlineDiff from BitVec.zero_add _]
      rw [hnew]
      exact ⟨rfl, Nat.le_add_left ..⟩
    · simp only [SchedState.withVnode, SchedState.modifyVnode, SchedState.withRqnode,
        update_of_ne hxr] at hx
      have hold := hu.deadlines x hx
      rw [hu.clock] at hold
      simp only [SchedState.times, SchedState.withVnode, SchedState.modifyVnode,
        SchedState.withRqnode, update_of_ne hxr]
      exact hold

theorem deadlineWf_vmmInit (n : Nat) {s : SchedState} (h : vmmInit cfg n = some s) :
    BootDeadlines s := by
  induction n generalizing s with
  | zero =>
    cases h
    exact ⟨rfl, fun _ hptr => absurd hptr (by simp [schedBoot]), fun r hr => absurd rfl hr⟩
  | succ n ih =>
    obtain ⟨u, hu, h⟩ := Option.bind_eq_some_iff.mp h
    exact (ih hu).vmInit h

/-! ### Runs -/

/-- The VMs as a queue by deadline. -/
noncomputable def Timed.tasks (x : Timed) : Tasks RNode where
  clock := x.sched.bfsClock.toNat
  place := x.sched.place
  deadline r := (x.sched.times r).1.toNat
  ready := x.sched.Ready
  chosen r := (x.chosenAt r).map BitVec.toNat

variable {x y : Timed} {v : RNode}

theorem timed_step (hs : SchedWf cfg x.sched) (hd : DeadlineWf x.sched) (hpaced : Paced cfg x a)
    (hv : NoOverflow cfg v x a) (hstep : (timedMachine cfg).step x a = some y) :
    Tasks.Step bfsDeadlineDiff.toNat x.tasks (selected cfg x.sched a) y.tasks := by
  obtain ⟨t, ht, rfl⟩ := Option.map_eq_some_iff.mp hstep
  have hschedStep := step_schedStep ht
  cases hschedStep.taskStep hs with
  | pass place times lookup =>
    have hend : Timed.tasks ⟨t, x.chosenAt⟩ =
        { x.tasks with clock := t.bfsClock.toNat, ready := t.Ready } := by
      simp only [Timed.tasks, place, times]
    simp only [lookup]
    rw [hend]
    exact .pass _ _ (BitVec.le_def.mp (hpaced.clock t ht))
  | expire r expires runs place times clock ready lookup =>
    have hvm : (x.sched.rqnodeMemory r).vm ≠ none := by
      unfold expiring at expires
      split at expires
      · rename_i c
        split at expires
        · exact hs.rq.rqnode_vm c r expires
        · cases expires
      · cases expires
    have hdiff : (x.sched.rqnodeMemory r).vdeadlineDiff = bfsDeadlineDiff := (hd r hvm).1
    have hfits := hv.deadline t ht r expires
    rw [hdiff] at hfits
    have hdeadline : (fun z => (t.times z).1.toNat) =
        update x.tasks.deadline r (x.sched.bfsClock.toNat + bfsDeadlineDiff.toNat) := by
      funext z
      rw [times]
      by_cases hz : z = r
      · subst hz
        rw [update_self, update_self, hdiff, BitVec.toNat_add, Nat.mod_eq_of_lt hfits]
      · rw [update_of_ne hz, update_of_ne hz]
        rfl
    simp only [lookup, Timed.tasks, place, clock, ready] at hdeadline ⊢
    rw [hdeadline]
    refine .expire r runs fun k hk => ?_
    obtain ⟨time, htime, rfl⟩ := Option.map_eq_some_iff.mp hk
    exact BitVec.lt_def.mp (hpaced.later t ht r expires time htime)
  | insert r expired place times clock ready lookup =>
    simp only [lookup, Timed.tasks, place, times, clock, ready]
    exact .insert r expired
  | choose r waits place least times clock ready lookup =>
    have hchosen : (fun z =>
        (if z = r then some x.sched.bfsClock else x.chosenAt z).map BitVec.toNat) =
        update x.tasks.chosen r (some x.sched.bfsClock.toNat) := by
      funext z
      by_cases hz : z = r
      · subst hz
        rw [if_pos rfl, update_self]
        rfl
      · rw [if_neg hz, update_of_ne hz]
        rfl
    simp only [lookup, Timed.tasks, place, times, clock, ready] at hchosen ⊢
    rw [hchosen]
    exact .choose r waits fun z hz hready => BitVec.le_def.mp (least z hz hready)

/-- A node that waits keeps its ready vCPUs. -/
theorem ready_step (hs : SchedWf cfg s) (h : SchedStep cfg s a t) (hv : s.place v = .waiting)
    (hready : s.Ready v) (hcount : (s.rqnodeMemory v).nrVcpuReady ≠ BitVec.allOnes 32) :
    t.Ready v := by
  have hvm : (t.rqnodeMemory v).vm ≠ none := by
    obtain ⟨e, -, hmove⟩ := h.move hs
    have hsame : (t.rqnodeMemory v).vm = (s.rqnodeMemory v).vm := congrFun hmove.nodeVm v
    rw [hsame]
    exact hready.1
  cases h.taskStep hs with
  | pass place times lookup counts =>
    refine ⟨hvm, ?_⟩
    rcases counts v hv with hkeeps | hgrows
    · rw [hkeeps]
      exact hready.2
    · have hmax : BitVec.allOnes 32 = 0xffffffff#32 := by decide
      rw [hmax] at hcount
      rw [hgrows]
      bv_omega
  | expire r expires runs place times clock ready =>
    rw [ready]
    exact hready
  | insert r expired place times clock ready =>
    rw [ready]
    exact hready
  | choose r waits place least times clock ready =>
    rw [ready]
    exact hready

theorem timed_of_step (h : (schedMachine cfg).step x.sched a = some t) :
    ∃ y, (timedMachine cfg).step x a = some y ∧ y.sched = t := by
  simp only [timedMachine, h, Option.map_some]
  exact ⟨_, rfl, rfl⟩

/-- While `v` waits, the selections of a run are what the queue by deadline chooses. -/
theorem selections_run {as : List Action} (hs : SchedWf cfg x.sched) (hd : DeadlineWf x.sched)
    (hpaced : (timedMachine cfg).EachStep (Paced cfg) x as)
    (hfits : (timedMachine cfg).EachStep (NoOverflow cfg v) x as) (hv : x.sched.place v = .waiting)
    (hready : x.sched.Ready v) (hout : v ∉ selections cfg x.sched as) :
    ∃ q, Tasks.Run bfsDeadlineDiff.toNat v x.tasks (selections cfg x.sched as) q := by
  induction as generalizing x with
  | nil => exact ⟨_, .nil _⟩
  | cons a as ih =>
    simp only [selections] at hout ⊢
    split
    · exact ⟨_, .nil _⟩
    · rename_i t ht
      rw [ht] at hout
      have hschedStep := step_schedStep ht
      obtain ⟨y, hstep, rfl⟩ := timed_of_step ht
      obtain ⟨hnow, hlater⟩ := hpaced y hstep
      obtain ⟨hroom, hrest⟩ := hfits y hstep
      have htask := timed_step hs hd hnow hroom hstep
      have hother : selected cfg x.sched a ≠ some v := fun h =>
        hout (List.mem_append_left _ (by simp [h]))
      obtain ⟨q, hrun⟩ := ih (hs.step hschedStep) (hd.step hs hschedStep (hnow.clock y.sched ht)) hlater
        hrest (htask.waits hv hother).1 (ready_step hs hschedStep hv hready hroom.count)
        fun hmem => hout (List.mem_append_right _ hmem)
      exact ⟨q, .step hready htask hrun⟩

theorem Reachable.deadlineWf {x₀ : Timed} {as : List Action} (init : (timedMachine cfg).Init x₀)
    (run : (timedMachine cfg).Run x₀ as x) (hpaced : (timedMachine cfg).EachStep (Paced cfg) x₀ as) :
    SchedWf cfg x.sched ∧ DeadlineWf x.sched := by
  have hs := (vmmInit_wf cfg.nrVms init.1).1.sched
  have hd := (deadlineWf_vmmInit cfg.nrVms init.1).deadlines
  clear init
  induction run with
  | nil => exact ⟨hs, hd⟩
  | @cons x y z a as hfirst _ ih =>
    obtain ⟨hnow, hlater⟩ := hpaced y hfirst
    obtain ⟨t, ht, rfl⟩ := Option.map_eq_some_iff.mp hfirst
    have hstep := step_schedStep ht
    exact ih hlater (hs.step hstep) (hd.step hs hstep (hnow.clock t ht))

/-- While a VM with ready vCPUs waits in the run queue, `p_task_lookup` returns every VM at most once,
as long as the clock does not decrease, a VM gets its new deadline at a later clock than the one it
was selected at, and neither a new deadline nor the number of ready vCPUs overflows. -/
theorem selected_once {x₀ : Timed} {before as : List Action} {w : RNode}
    (init : (timedMachine cfg).Init x₀) (run : (timedMachine cfg).Run x₀ before x)
    (paced : (timedMachine cfg).EachStep (Paced cfg) x₀ (before ++ as))
    (fits : (timedMachine cfg).EachStep (NoOverflow cfg v) x as) (waits : InRunQueue x.sched v)
    (ready : (x.sched.rqnodeMemory v).nrVcpuReady > 0) (out : v ∉ selections cfg x.sched as) :
    (selections cfg x.sched as).count w ≤ 1 := by
  obtain ⟨hbefore, hbehind⟩ := paced.of_append run
  obtain ⟨hs, hd⟩ := Reachable.deadlineWf init run hbefore
  obtain ⟨head, l, hhead, hchain, hv⟩ := waits
  obtain ⟨l', hl⟩ := hs.rq.view
  obtain rfl := hchain.unique (hl.linked head hhead).chain
  have hvm := hl.mem_vm v hv
  have hplace := place_eq_waiting ((hl.listed v hvm).mp hv)
  obtain ⟨q, hrun⟩ := selections_run hs hd hbehind fits hplace ⟨hvm, ready⟩ out
  exact hrun.count_le_one hplace (hd v hvm).2 out

/-! ### Runs of a few VMs -/

/-- `n` VMs of `k` vCPUs on `p` pCPUs. -/
def vmsConfig (n k p : Nat) (hk : 0 < k) (timerWait : BitVec 64) : SchedConfig where
  maxVmNum := n
  maxVcpuNum := 2 * n
  nrVms := n
  nrCpus := fun _ => k
  nrCpus_pos := fun _ => hk
  ptRoot := fun _ => 0x1000
  hypNrCpus := p
  timerWait := timerWait

/-- The state in which `cfg` boots. -/
def timedBoot (cfg : SchedConfig) : Timed where
  sched := (vmmInit cfg cfg.nrVms).getD schedBoot
  chosenAt := fun _ => none

/-- The state that the actions `as` lead to. -/
def timedEnd (cfg : SchedConfig) (as : List Action) : Timed :=
  ((timedMachine cfg).run (timedBoot cfg) as).getD (timedBoot cfg)

theorem timedBoot_init (h : (vmmInit cfg cfg.nrVms).isSome = true) :
    (timedMachine cfg).Init (timedBoot cfg) := by
  obtain ⟨s, hs⟩ := Option.isSome_iff_exists.mp h
  refine ⟨?_, rfl⟩
  show vmmInit cfg cfg.nrVms = some ((vmmInit cfg cfg.nrVms).getD schedBoot)
  rw [hs]
  rfl

theorem timedEnd_run {as : List Action}
    (h : ((timedMachine cfg).run (timedBoot cfg) as).isSome = true) :
    (timedMachine cfg).Run (timedBoot cfg) as (timedEnd cfg as) := by
  obtain ⟨x, hx⟩ := Option.isSome_iff_exists.mp h
  rw [timedEnd, hx]
  exact Machine.run_eq_some_iff.mp hx

/-- A pCPU lets its first VM run. -/
def firstVm (c : PCpuId) : List Action := [.call c .tryReschedule, .resume c, .resume c, .resume c]

/-- A pCPU whose VM has used up its slice takes the next one. -/
def nextVm (c : PCpuId) : List Action :=
  [.call c .tryReschedule, .resume c, .resume c, .resume c, .resume c]

/-- A tick on the only pCPU. -/
def aloneTick : List Action := [.call 0 .updateTaskTimes, .resume 0]

/-- Three VMs on a pCPU, whose timer ticks once in a slice. -/
def threeVms : SchedConfig := vmsConfig 3 2 1 Nat.two_pos 4000

/-- The pCPU runs the first VM, then the second one. -/
def twoSlices : List Action := firstVm 0 ++ aloneTick ++ nextVm 0

theorem selected_once_threeVms :
    selections threeVms (timedBoot threeVms).sched twoSlices = [3, 2] ∧
      (selections threeVms (timedBoot threeVms).sched twoSlices).count 3 ≤ 1 := by
  have hselections : selections threeVms (timedBoot threeVms).sched twoSlices = [3, 2] := by decide
  have hqueue : ((timedBoot threeVms).sched.rqPtr, (timedBoot threeVms).sched.rnext 0,
      (timedBoot threeVms).sched.rnext 3, (timedBoot threeVms).sched.rnext 2,
      (timedBoot threeVms).sched.rnext 1) = (some 0, some 3, some 2, some 1, none) := by decide
  have hpaced : (timedMachine threeVms).EachStep (Paced threeVms) (timedBoot threeVms) twoSlices := by
    decide +kernel
  have hfits : (timedMachine threeVms).EachStep (NoOverflow threeVms 1) (timedBoot threeVms)
      twoSlices := by
    decide +kernel
  simp only [Prod.mk.injEq] at hqueue
  obtain ⟨hhead, hfirst, hsecond, hthird, hlast⟩ := hqueue
  refine ⟨hselections, selected_once (v := 1) (timedBoot_init (by decide)) (.nil _) hpaced hfits
    ⟨0, [3, 2, 1], hhead, ⟨hfirst, hsecond, hthird, hlast⟩, by decide⟩ (by decide) ?_⟩
  rw [hselections]
  decide

/-- The node that `rq_insert` puts back in the step `a`. -/
def inserting (s : SchedState) : Action → Option RNode
  | .call _ _ => none
  | .resume c => if (s.cpus c).pc = .bfsInsert then (s.cpus c).rqnode else none

/-- The clock does not decrease, and a VM that was selected is put back at a later clock. -/
structure Ticked (cfg : SchedConfig) (x : Timed) (a : Action) : Prop where
  clock : ∀ t ∈ (schedMachine cfg).step x.sched a, x.sched.bfsClock ≤ t.bfsClock
  later : ∀ r ∈ inserting x.sched a, ∀ k ∈ x.chosenAt r, k < x.sched.bfsClock

instance Ticked.decidable {x : Timed} : Decidable (Ticked cfg x a) :=
  have (r : RNode) : Decidable (∀ k ∈ x.chosenAt r, k < x.sched.bfsClock) :=
    Option.decidableForallMem _
  decidable_of_iff
    ((∀ t ∈ (schedMachine cfg).step x.sched a, x.sched.bfsClock ≤ t.bfsClock) ∧
      ∀ r ∈ inserting x.sched a, ∀ k ∈ x.chosenAt r, k < x.sched.bfsClock)
    ⟨fun h => ⟨h.1, h.2⟩, fun h => ⟨h.clock, h.later⟩⟩

/-- In the runs whose steps meet `C`, while a VM with ready vCPUs waits in the run queue,
`p_task_lookup` returns every VM at most once. -/
def SelectedOnce (C : SchedConfig → RNode → Timed → Action → Prop) : Prop :=
  ∀ (cfg : SchedConfig) (x₀ x : Timed) (before as : List Action) (v w : RNode),
    (timedMachine cfg).Init x₀ → (timedMachine cfg).Run x₀ before x →
    (timedMachine cfg).EachStep (C cfg v) x₀ (before ++ as) → InRunQueue x.sched v →
    (x.sched.rqnodeMemory v).nrVcpuReady > 0 → v ∉ selections cfg x.sched as →
    (selections cfg x.sched as).count w ≤ 1

theorem not_selectedOnce {C : SchedConfig → RNode → Timed → Action → Prop} (cfg : SchedConfig)
    (before as : List Action) (v w : RNode) (hboot : (vmmInit cfg cfg.nrVms).isSome = true)
    (hrun : ((timedMachine cfg).run (timedBoot cfg) before).isSome = true)
    (hC : (timedMachine cfg).EachStep (C cfg v) (timedBoot cfg) (before ++ as))
    (hwaits : InRunQueue (timedEnd cfg before).sched v)
    (hready : ((timedEnd cfg before).sched.rqnodeMemory v).nrVcpuReady > 0)
    (hselections : v ∉ selections cfg (timedEnd cfg before).sched as ∧
      (selections cfg (timedEnd cfg before).sched as).count w = 2) : ¬SelectedOnce C := by
  intro h
  have hle := h cfg _ _ before as v w (timedBoot_init hboot) (timedEnd_run hrun) hC hwaits hready
    hselections.1
  omega

/-- Four VMs on two pCPUs, whose timer ticks once in a slice. -/
def fourVms : SchedConfig := vmsConfig 4 2 2 Nat.two_pos 4000

/-- Up to where pCPU 1 puts back its VM; pCPU 0 has entered the second tick already. -/
def beforeTick : List Action :=
  firstVm 0 ++ firstVm 1 ++
    [.call 0 .updateTaskTimes, .call 1 .updateTaskTimes, .resume 0, .resume 1] ++ nextVm 0 ++
    [.call 0 .updateTaskTimes, .call 1 .tryReschedule, .resume 1]

/-- PCPU 1 takes another VM, and gives it a new deadline behind the second tick; before it puts it
back, pCPU 0 has entered the third tick. -/
def acrossTick : List Action :=
  [.resume 1, .resume 1, .resume 1, .call 1 .updateTaskTimes, .resume 0, .resume 1,
    .call 1 .tryReschedule] ++ nextVm 0 ++ [.call 0 .updateTaskTimes, .resume 1, .resume 1]

/-- Two VMs on a pCPU, the deadline of one of which overflows. -/
def wideTick : SchedConfig := vmsConfig 2 2 1 Nat.two_pos (BitVec.ofInt 64 (-6000))

theorem manyVcpus_pos : 0 < 2 ^ 32 - 2 := by decide

/-- Four VMs on a pCPU, with as many vCPUs as `nr_vcpu_ready` has room for at boot. -/
def manyVcpus : SchedConfig := vmsConfig 4 (2 ^ 32 - 2) 1 manyVcpus_pos 4000

/-- The first VM starts a vCPU, and goes to sleep at the end of its slice. -/
def beforeWake : List Action :=
  firstVm 0 ++ [.call 0 (.schedStartHandler 1), .call 0 .schedIoHandler] ++ aloneTick ++
    [.call 0 .tryReschedule, .resume 0]

/-- The other VMs run, until the sleeping vCPU wakes up. -/
def acrossWake : List Action :=
  [.resume 0, .resume 0, .resume 0] ++ aloneTick ++ nextVm 0 ++ aloneTick ++ nextVm 0 ++ aloneTick ++
    [.call 0 .tryReschedule, .resume 0, .resume 0]

/-- Put back at a later clock than it was selected at, a VM is selected a second time while another
one waits: when it got its new deadline before the tick, when a deadline overflows, and when the
number of ready vCPUs of the waiting one does. -/
theorem selected_twice :
    ¬SelectedOnce (fun cfg v x a => Ticked cfg x a ∧ NoOverflow cfg v x a) ∧
      ¬SelectedOnce (fun cfg v x a => Ticked cfg x a ∧ Paced cfg x a ∧ ReadyFits v x) ∧
      ¬SelectedOnce (fun cfg _ x a => Ticked cfg x a ∧ Paced cfg x a ∧ DeadlineFits cfg x a) := by
  refine ⟨?_, ?_, ?_⟩
  · have hqueue : ((timedEnd fourVms beforeTick).sched.rqPtr,
        (timedEnd fourVms beforeTick).sched.rnext 0, (timedEnd fourVms beforeTick).sched.rnext 3,
        (timedEnd fourVms beforeTick).sched.rnext 4, (timedEnd fourVms beforeTick).sched.rnext 1) =
        (some 0, some 3, some 4, some 1, none) := by decide +kernel
    simp only [Prod.mk.injEq] at hqueue
    obtain ⟨hhead, hfirst, hsecond, hthird, hlast⟩ := hqueue
    exact not_selectedOnce fourVms beforeTick acrossTick 3 1 (by decide) (by decide +kernel)
      (by decide +kernel) ⟨0, [3, 4, 1], hhead, ⟨hfirst, hsecond, hthird, hlast⟩, by decide⟩
      (by decide +kernel) (by decide +kernel)
  · have hqueue : ((timedBoot wideTick).sched.rqPtr, (timedBoot wideTick).sched.rnext 0,
        (timedBoot wideTick).sched.rnext 2, (timedBoot wideTick).sched.rnext 1) =
        (some 0, some 2, some 1, none) := by decide
    simp only [Prod.mk.injEq] at hqueue
    obtain ⟨hhead, hfirst, hsecond, hlast⟩ := hqueue
    exact not_selectedOnce wideTick [] twoSlices 1 2 (by decide) (by decide) (by decide +kernel)
      ⟨0, [2, 1], hhead, ⟨hfirst, hsecond, hlast⟩, by decide⟩ (by decide) (by decide +kernel)
  · have hqueue : ((timedEnd manyVcpus beforeWake).sched.rqPtr,
        (timedEnd manyVcpus beforeWake).sched.rnext 0, (timedEnd manyVcpus beforeWake).sched.rnext 4,
        (timedEnd manyVcpus beforeWake).sched.rnext 3, (timedEnd manyVcpus beforeWake).sched.rnext 2,
        (timedEnd manyVcpus beforeWake).sched.rnext 1) =
        (some 0, some 4, some 3, some 2, some 1, none) := by decide +kernel
    simp only [Prod.mk.injEq] at hqueue
    obtain ⟨hhead, hfirst, hsecond, hthird, hfourth, hlast⟩ := hqueue
    exact not_selectedOnce manyVcpus beforeWake acrossWake 4 3 (by decide) (by decide +kernel)
      (by decide +kernel) ⟨0, [4, 3, 2, 1], hhead, ⟨hfirst, hsecond, hthird, hfourth, hlast⟩, by decide⟩
      (by decide +kernel) (by decide +kernel)

end Avisor
