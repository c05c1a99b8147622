import Avisor.Sched.Boot

/-!
# Where the vCPU nodes are

Every vCPU node handed out has one place: it is linked once, in the level of its priority of its own
VM's node; or it is the one that VM runs, or ran last; or it sleeps. Two calls can break this. A
sleep hypercall overwrites the single sleep slot, and the vCPU that slept there is lost unless it is
still the one its VM ran last. A tick that ends the sleep inserts the sleeping vCPU, and if that one
is still the one its VM ran last it is in two places. A run keeps every vCPU node in place exactly if
neither happens in it.
-/

namespace Avisor

open Function LinkedList

namespace SchedState

variable (s : SchedState) (lists : RNode → Nat → List VNode)

/-- `v` is linked in none of the levels. -/
def Unlinked (v : VNode) : Prop :=
  ∀ r i, (s.rqnodeMemory r).vm ≠ none → i < bmqBitmapSize → v ∉ lists r i

/-- The one place of the vCPU node `v`, where `lists r i` are the nodes of level `i` of `r`. -/
inductive Placed (v : VNode) : Prop
  | queued (r : RNode) (home : s.Home v r) (once : (lists r (s.vpnodeMemory v).prio).count v = 1)
      (only : ∀ r' i, (s.rqnodeMemory r').vm ≠ none → i < bmqBitmapSize → v ∈ lists r' i →
        r' = r ∧ i = (s.vpnodeMemory v).prio)
      (idle : (s.rqnodeMemory r).runVnode ≠ some v) (awake : s.sleepVnode ≠ some v)
  | running (r : RNode) (home : s.Home v r) (runs : (s.rqnodeMemory r).runVnode = some v)
      (unlinked : s.Unlinked lists v) (awake : s.sleepVnode ≠ some v)
  | asleep (sleeps : s.sleepVnode = some v) (unlinked : s.Unlinked lists v)

/-- The levels of the VMs' nodes are finite lists, and every vCPU node handed out has its place. -/
def Placement : Prop :=
  ∃ lists : RNode → Nat → List VNode,
    (∀ r i, (s.rqnodeMemory r).vm ≠ none → i < bmqBitmapSize →
      Chain s.vnext (s.level r i) (lists r i)) ∧
    ∀ v, s.Created v → s.Placed lists v

end SchedState

/-- What a step must find to keep the placement. A sleep hypercall: nobody sleeps but a vCPU that its
VM still has as the one it ran last. A tick of pCPU 0 that ends the sleep: the VM of the sleeping vCPU
has another one as the one it ran last. -/
def PlacementGuard (s : SchedState) : Action → Prop
  | .call _ .schedIoHandler => ∀ v r, s.sleepVnode = some v → s.withSleepVnodeRqnode = some r →
      (s.rqnodeMemory r).runVnode = some v
  | .call c .updateTaskTimes => c = 0 → s.ioSleepFlag = 1 → ∀ v r, s.sleepVnode = some v →
      s.withSleepVnodeRqnode = some r → (s.rqnodeMemory r).runVnode ≠ some v
  | _ => True

variable {cfg : SchedConfig} {s t : SchedState} {a : Action} {n : Nat}

private theorem inPlace_of_placement (hq : s.queues.Wf n) (h : s.Placement) : s.queues.InPlace := by
  obtain ⟨lists, hchain, hplaced⟩ := h
  have hvm {r m} (hr : s.queues.nodeVm r = some m) : (s.rqnodeMemory r).vm ≠ none := by
    rw [show (s.rqnodeMemory r).vm = some m from hr]
    simp
  have hmem {r m i v} (hr : s.queues.nodeVm r = some m) (hi : i < bmqBitmapSize)
      (hv : v ∈ lists r i) : s.queues.created v = true ∧ s.queues.vmOf v = m := by
    refine (hchain r i (hvm hr) hi).forall_mem (fun x hx => hq.level_mem r m i x hr hi hx) ?_ v hv
    intro x y hx hxy
    obtain ⟨hy, hyvm⟩ := hq.link_mem x y hx.1 hxy
    exact ⟨hy, hyvm.trans hx.2⟩
  refine ⟨lists, ⟨fun r m i hr hi => hchain r i (hvm hr) hi, fun r m i v hr hi hv => ?_⟩,
    fun v hv => ?_⟩
  · obtain ⟨hcreated, hown⟩ := hmem hr hi hv
    refine ⟨hcreated, hown, ?_⟩
    cases hplaced v hcreated with
    | queued r' home once only => exact (only r i (hvm hr) hi hv).2.symm
    | running r' home runs unlinked => exact absurd hv (unlinked r i (hvm hr) hi)
    | asleep sleeps unlinked => exact absurd hv (unlinked r i (hvm hr) hi)
  · have hunlinked (hun : s.Unlinked lists v) : ¬s.queues.InQueue lists v := by
      rintro ⟨r, hr, hin⟩
      exact hun r _ (hvm hr) (hq.prio_lt v hv) hin
    cases hplaced v hv with
    | queued r home once only idle awake =>
      have hpos : 0 < (lists r (s.vpnodeMemory v).prio).count v := by
        rw [once]
        exact Nat.one_pos
      refine iff_of_true ⟨r, home, List.count_pos_iff.mp hpos⟩ ⟨?_, awake⟩
      rintro ⟨r', hr', hrun⟩
      rw [hq.home_unique hr' home] at hrun
      exact idle hrun
    | running r home runs unlinked =>
      exact iff_of_false (hunlinked unlinked) fun h => h.1 ⟨r, home, runs⟩
    | asleep sleeps unlinked => exact iff_of_false (hunlinked unlinked) fun h => h.2 sleeps

private theorem placement_of_inPlace (hq : s.queues.Wf n) (h : s.queues.InPlace) : s.Placement := by
  obtain ⟨lists, hlists, hbalanced⟩ := h
  have hvm {r} (hr : (s.rqnodeMemory r).vm ≠ none) : ∃ m, s.queues.nodeVm r = some m :=
    Option.ne_none_iff_exists'.mp hr
  refine ⟨lists, fun r i hr hi => ?_, fun v hv => ?_⟩
  · obtain ⟨m, hm⟩ := hvm hr
    exact hlists.chain r m i hm hi
  · have hunlinked (hout : ¬s.queues.InQueue lists v) : s.Unlinked lists v := by
      intro r i hr hi hmem
      obtain ⟨m, hm⟩ := hvm hr
      exact hout (hlists.inQueue hm hi hmem)
    by_cases hsleep : s.sleepVnode = some v
    · exact .asleep hsleep (hunlinked fun hin => ((hbalanced v hv).mp hin).2 hsleep)
    · by_cases hcurrent : s.queues.Current v
      · obtain ⟨r, hr, hrun⟩ := hcurrent
        refine .running r hr hrun (hunlinked fun hin => ?_) hsleep
        exact ((hbalanced v hv).mp hin).1 ⟨r, hr, hrun⟩
      · obtain ⟨r, hr, hmem⟩ := (hbalanced v hv).mpr ⟨hcurrent, hsleep⟩
        have hnodup := (hlists.chain r _ _ hr (hq.prio_lt v hv)).nodup
        refine .queued r hr (List.count_eq_one_of_mem hnodup hmem) ?_
          (fun hrun => hcurrent ⟨r, hr, hrun⟩) hsleep
        intro r' i hr' hi hmem'
        obtain ⟨m, hm⟩ := hvm hr'
        obtain ⟨-, hown, hprio⟩ := hlists.mem r' m i v hm hi hmem'
        refine ⟨hq.home_unique (v := v) ?_ hr, hprio.symm⟩
        rw [Queues.Home, hown]
        exact hm

theorem placement_iff (hq : s.queues.Wf n) : s.Placement ↔ s.queues.InPlace :=
  ⟨inPlace_of_placement hq, placement_of_inPlace hq⟩

/-! ### Spinning pCPUs

A pCPU whose lookup found nothing waits for a wake-up of its VM, and a wake-up of a vCPU that its VM
still has as the one it ran last is not allowed. -/

namespace Queues

variable {q q' : Queues}

/-- All levels of `r` are empty, and if a vCPU of its VM sleeps, it is the one that ran last. -/
def Stuck (q : Queues) (r : RNode) : Prop :=
  (∀ i < bmqBitmapSize, q.level r i = none) ∧
    ∀ v, q.sleep = some v → q.Home v r → q.run r = some v

theorem Wf.insertAt_level_of_ne (hq : q.Wf n) {v : VNode} {r r' : RNode} {m : VmId} {i : Nat}
    {tail : Option VNode} (hv : q.created v = true) (hhome : q.Home v r') (hr : q.nodeVm r = some m)
    (hne : r ≠ r') (hi : i < bmqBitmapSize) : (q.insertAt v r' tail).level r i = q.level r i := by
  have hslot := hq.slot_ne hhome hr (hq.prio_lt v hv) hi (by simp [hne])
  cases tail with
  | none => simp [level, Queues.insertAt, hslot]
  | some t => rfl

theorem Wf.takeRun_level_of_ne (hq : q.Wf n) {v : VNode} {r r' : RNode} {m m' : VmId} {i j : Nat}
    (hr' : q.nodeVm r' = some m') (hr : q.nodeVm r = some m) (hne : r ≠ r')
    (hj : j < bmqBitmapSize) (hi : i < bmqBitmapSize) :
    (q.takeRun r' j v).level r i = q.level r i := by
  have hslot := hq.slot_ne hr' hr hj hi (by simp [hne])
  simp [level, Queues.takeRun, hslot]

theorem Stuck.requeue {r r' : RNode} {m m' : VmId} {u : Queues} (hq : q.Wf n) (h : q.Stuck r)
    (hrequeue : q.Requeue n r' u) (hr' : q.nodeVm r' = some m') (hr : q.nodeVm r = some m)
    (hne : r ≠ r') : u.Stuck r := by
  cases hrequeue with
  | keep => exact h
  | insert v p tail run awake prio hasTail =>
    obtain ⟨hv, hvm⟩ := hq.run_mem r' m' v hr' run
    refine ⟨fun i hi => ?_, h.2⟩
    rw [(hq.setPrio prio).insertAt_level_of_ne hv (hr'.trans (congrArg some hvm.symm)) hr hne hi]
    exact h.1 i hi

theorem Stuck.takeRun {r r' : RNode} {m m' : VmId} {i : Nat} {v : VNode} (hq : q.Wf n)
    (h : q.Stuck r) (hr' : q.nodeVm r' = some m') (hr : q.nodeVm r = some m) (hne : r ≠ r')
    (hi : i < bmqBitmapSize) : (q.takeRun r' i v).Stuck r := by
  refine ⟨fun j hj => ?_, fun w hw hhome => ?_⟩
  · rw [hq.takeRun_level_of_ne hr' hr hne hi hj]
    exact h.1 j hj
  · simp only [Queues.takeRun, update_of_ne hne]
    exact h.2 w hw hhome

/-- The moves of other pCPUs leave a stuck VM stuck. -/
theorem Stuck.move {x : Option RNode} {e : QueueEvent} {r : RNode} {m : VmId} (hq : q.Wf n)
    (h : q.Stuck r) (hmove : q.Move n x e q') (hr : q.nodeVm r = some m) (hx : x ≠ some r)
    (hwake : e = .wake → q.SleeperGone) : q'.Stuck r := by
  have hne {r'} (holds : x = some r') : r ≠ r' := by
    rintro rfl
    exact hx holds
  cases hmove with
  | stay => exact h
  | count => exact h
  | wake v r' tail sleeper home hasTail =>
    obtain ⟨hv, r'', hr'', hhome⟩ := hq.sleep_mem v sleeper
    obtain rfl : r' = r'' := Option.some.inj (home.symm.trans hr'')
    have hother : r ≠ r' := by
      rintro rfl
      exact hwake rfl v r sleeper home (h.2 v sleeper hhome)
    refine ⟨fun i hi => ?_, nofun⟩
    exact (hq.insertAt_level_of_ne hv hhome hr hother hi).trans (h.1 i hi)
  | sleep v r' m' p holds node run prio =>
    obtain ⟨hv, hvm⟩ := hq.run_mem r' m' v node run
    refine ⟨h.1, fun w hw hhome => ?_⟩
    cases hw
    exact absurd (hq.home_unique hhome (node.trans (congrArg some hvm.symm))) (hne holds)
  | start v r' m' p tail holds node fresh lt prio hasTail =>
    have hcreated : (q.create v m' p).created v = true := by simp [create]
    have hhome : (q.create v m' p).Home v r' := by
      simp only [Home, create, update_self]
      exact node
    refine ⟨fun i hi => ?_, fun w hw hw' => ?_⟩
    · rw [(hq.create fresh lt prio).insertAt_level_of_ne hcreated hhome hr (hne holds) hi]
      exact h.1 i hi
    · have hwv : w ≠ v := by
        rintro rfl
        have hcontra := (hq.sleep_mem w hw).1
        rw [fresh] at hcontra
        cases hcontra
      refine h.2 w hw ?_
      simp only [Home, Queues.insertAt, create, update_of_ne hwv] at hw'
      exact hw'
  | spin r' m' u holds node requeue => exact h.requeue hq requeue node hr (hne holds)
  | run r' m' u i v holds node requeue lt first =>
    have hnode : u.nodeVm r' = some m' := by
      rw [requeue.nodeVm]
      exact node
    have hr₁ : u.nodeVm r = some m := by
      rw [requeue.nodeVm]
      exact hr
    exact (h.requeue hq requeue node hr (hne holds)).takeRun (requeue.wf hq node) hnode hr₁
      (hne holds) lt
  | find r' m' i v holds node lt first => exact h.takeRun hq node hr (hne holds) lt

end Queues

/-- Every pCPU that spins in `bmq_scheduler` does so on a stuck VM. -/
def SpinStuck (s : SchedState) : Prop :=
  ∀ c r, (s.cpus c).pc = .bmqLookup r → s.queues.Stuck r

/-- A pCPU that goes on spinning has found nothing. -/
theorem SchedStep.spin {r : RNode} (h : SchedStep cfg s a t) (hs : SchedWf cfg s)
    (hpc : (t.cpus a.cpu).pc = .bmqLookup r) :
    t.queues = s.queues ∧
      ((s.cpus a.cpu).pc = .bmqLookup r ∨ ∀ v, s.queues.run r = some v → s.queues.sleep = some v) ∧
      ∀ i < bmqBitmapSize, s.queues.level r i = none := by
  obtain ⟨p, hp, hcpus⟩ := h.cpus
  rw [hcpus, update_self] at hpc
  cases hp with
  | stay pc => rcases pc with pc | pc <;> exact absurd (pc.symm.trans hpc) (by simp)
  | resched pc' pc flag next => rcases next with ⟨rfl, -⟩ | ⟨rfl | rfl, -⟩ <;> cases hpc
  | spin r' u requeued lookup spins =>
    cases hpc
    obtain ⟨m, hm⟩ := hs.node (hs.requeued requeued)
    have hfirst := (vTaskLookup_eq_none lookup).1
    have ht : t.queues = u.queues := by rw [spins, queues_setPc]
    rw [ht]
    rcases requeued with ⟨-, -, requeue⟩ | ⟨pc, rfl⟩
    · have hmove := queues_bmqRequeue hs.queues hm requeue
      have hum : u.queues.nodeVm r = some m := by
        rw [hmove.nodeVm]
        exact hm
      have hnone := queues_empty (hmove.wf hs.queues hm) hum hfirst
      have hsame : u.queues = s.queues := hmove.eq_of_empty hnone
      refine ⟨hsame, .inr ?_, hsame ▸ hnone⟩
      rcases bmqRequeue_eq_some requeue with ⟨-, hsleeps⟩ | ⟨v, hrun, -, hinsert⟩
      · exact hsleeps
      · -- a vCPU put back would be found
        obtain ⟨tail, htail, hqueues⟩ := queues_vTaskInsert hinsert
        obtain ⟨hv, -⟩ := hs.queues.run_mem r m v hm hrun
        have hself := Queues.insertAt_level_self htail
        rw [← hqueues] at hself
        have hset : (s.requeued v).queues =
            s.queues.setPrio v (prioManage (s.vpnodeMemory v) 0).prio :=
          queues_modifyVnode s v (fun _ => rfl) fun _ => rfl
        refine absurd (hnone _ ?_) hself
        rw [hset]
        simp only [Queues.setPrio, update_self]
        exact prioManage_prio_lt _ 0 (hs.queues.prio_lt v hv)
    · exact ⟨rfl, .inl pc, queues_empty hs.queues hm hfirst⟩
  | _ => cases hpc

theorem SpinStuck.step (hspin : SpinStuck s) (hs : SchedWf cfg s) (h : SchedStep cfg s a t)
    (hguard : PlacementGuard s a) : SpinStuck t := by
  intro c r hpc
  by_cases hc : c = a.cpu
  · subst hc
    obtain ⟨hsame, hcase, hempty⟩ := h.spin hs hpc
    rw [hsame]
    rcases hcase with hpc' | hsleeps
    · exact hspin a.cpu r hpc'
    · refine ⟨hempty, fun v hv hhome => ?_⟩
      cases hrun : s.queues.run r with
      | none =>
        obtain ⟨i, hi, hlevel⟩ := hs.started r _ hhome hrun
        exact absurd (hempty i hi) hlevel
      | some w => exact (hsleeps w hrun).symm.trans hv
  · obtain ⟨p, -, hcpus⟩ := h.cpus
    rw [hcpus, Function.update_of_ne hc] at hpc
    have hrqnode := hs.bmqLookup c r hpc
    obtain ⟨m, hm⟩ := hs.node hrqnode
    have hheld : s.rqView.held c = some r := by
      simp only [SchedState.rqView, PCpu.held, hpc, hrqnode]
    obtain ⟨l, hl⟩ := hs.rq.view
    have hother : (s.cpus a.cpu).held ≠ some r := fun hactor =>
      hc (hl.held_unique c a.cpu r hheld hactor)
    obtain ⟨e, hevent, hmove⟩ := h.move hs
    refine (hspin c r hpc).move hs.queues hmove hm hother fun he => ?_
    obtain ⟨rfl, hflag⟩ := hevent.wake.mp he
    exact hguard rfl hflag

/-! ### Steps and runs -/

theorem allows_iff {e : QueueEvent} (h : EventOf s a e) (he : e ≠ .find) :
    s.queues.Allows e ↔ PlacementGuard s a := by
  cases e with
  | none =>
    refine iff_of_true trivial ?_
    cases a with
    | resume c => trivial
    | call c f =>
      cases f with
      | updateTaskTimes =>
        rintro rfl hflag
        exact absurd (h.wake.mpr ⟨rfl, hflag⟩) (by simp)
      | tryReschedule => trivial
      | schedStartHandler arg0 => trivial
      | schedIoHandler => exact absurd (h.sleep.mpr ⟨c, rfl⟩) (by simp)
  | wake =>
    obtain ⟨rfl, hflag⟩ := h.wake.mp rfl
    exact ⟨fun hgone _ _ => hgone, fun hguard => hguard rfl hflag⟩
  | sleep =>
    obtain ⟨c, rfl⟩ := h.sleep.mp rfl
    exact Iff.rfl
  | find => exact absurd rfl he

/-- A step keeps the placement exactly if it meets the guard. -/
theorem SchedStep.placement_iff (h : SchedStep cfg s a t) (hs : SchedWf cfg s) (hp : s.Placement)
    (hspin : SpinStuck s) : t.Placement ↔ PlacementGuard s a := by
  obtain ⟨e, hevent, hmove⟩ := h.move hs
  have hfind : e ≠ .find := by
    intro he
    obtain ⟨c, r, -, hpc, i, hi, hlevel⟩ := hevent.find he
    exact hlevel ((hspin c r hpc).1 i hi)
  rw [Avisor.placement_iff (hs.step h).queues, hmove.inPlace_iff hs.queues
    ((Avisor.placement_iff hs.queues).mp hp) hfind, allows_iff hevent hfind]

theorem placement_init (h : (schedMachine cfg).Init s) : s.Placement ∧ SpinStuck s := by
  have hboot := (vmmInit_wf cfg.nrVms h).1
  refine ⟨placement_of_inPlace hboot.queues hboot.inPlace, fun c r hpc => ?_⟩
  rw [(hboot.cpus c).1] at hpc
  cases hpc

/-- A run from boot keeps every vCPU node in its one place exactly if each of its sleep hypercalls and
wake-ups meets the guard. -/
theorem placement_always_iff {as : List Action} (h : (schedMachine cfg).Init s) :
    (schedMachine cfg).Always SchedState.Placement s as ↔
      (schedMachine cfg).EachStep PlacementGuard s as := by
  obtain ⟨hp, hspin⟩ := placement_init h
  exact Machine.always_iff_eachStep schedWf_preserves
    (fun _ _ _ hs _ hspin hstep hguard => hspin.step hs (step_schedStep hstep) hguard)
    (fun _ _ _ hs hp hspin hstep => (step_schedStep hstep).placement_iff hs hp hspin)
    (vmmInit_wf cfg.nrVms h).1.sched hp hspin

/-- The first vCPU of the VM sleeps, its slice ends, and the second one, which runs then, is about to
call the sleep hypercall. -/
def sleepTwice : List Action :=
  [.call 0 .tryReschedule, .resume 0, .resume 0, .resume 0, .call 0 (.schedStartHandler 1),
    .call 0 .schedIoHandler, .call 0 .updateTaskTimes, .resume 0, .call 0 .tryReschedule, .resume 0,
    .call 0 .schedIoHandler]

theorem placement_always_iff_sleepTwice :
    (schedMachine smallConfig).Always SchedState.Placement smallBoot sleepTwice ↔
      (schedMachine smallConfig).EachStep PlacementGuard smallBoot sleepTwice :=
  placement_always_iff smallBoot_init

/-- Two vCPUs of one VM that sleep one after the other: the first one is lost. -/
theorem placement_lost : ¬∀ (cfg : SchedConfig) (s : SchedState) (as : List Action),
    (schedMachine cfg).Init s → (schedMachine cfg).Always SchedState.Placement s as := by
  intro hall
  have hfinal : ((schedMachine smallConfig).run smallBoot sleepTwice).map (fun t =>
      decide (bitmapGet t.vpnodeMemBitmap 0 = true ∧ (t.rqnodeMemory 1).vm = some 0 ∧
        (t.vpnodeMemory 0).cur.vm = 0 ∧ t.sleepVnode = some 1 ∧
        (t.rqnodeMemory 1).runVnode = some 1 ∧ t.level 1 (t.vpnodeMemory 0).prio = none)) =
      some true := by decide
  obtain ⟨t, hrun, hfacts⟩ := Option.map_eq_some_iff.mp hfinal
  obtain ⟨hcreated, hvm, hcur, hsleep, hrunVnode, hlevel⟩ := of_decide_eq_true hfacts
  have hrun := Machine.run_eq_some_iff.mp hrun
  have hwf := Reachable.schedWf ⟨smallBoot, sleepTwice, smallBoot_init, hrun⟩
  have hhome : t.Home 0 1 := by
    rw [SchedState.Home, hvm, hcur]
  obtain ⟨lists, hchain, hplaced⟩ := (hall _ _ sleepTwice smallBoot_init).last hrun
  cases hplaced 0 hcreated with
  | queued r home once =>
    obtain rfl : r = 1 := hwf.queues.home_unique home hhome
    have hempty := hchain 1 _ (by rw [hvm]; simp) (hwf.queues.prio_lt 0 hcreated)
    rw [show t.queues.prio 0 = (t.vpnodeMemory 0).prio from rfl, hlevel, chain_none] at hempty
    rw [hempty] at once
    simp at once
  | running r home runs =>
    obtain rfl : r = 1 := hwf.queues.home_unique home hhome
    rw [hrunVnode] at runs
    cases runs
  | asleep sleeps =>
    rw [hsleep] at sleeps
    cases sleeps

end Avisor
