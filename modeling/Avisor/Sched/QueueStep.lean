import Avisor.Sched.Queues
import Avisor.Sched.RunQueue

/-!
# Steps of the scheduler on the queues

A step of the scheduler is one of the `Queues.Move`s. Wake-ups, sleeps and the end of a spinning
lookup are marked by an event, as those are the moves that can put a vCPU node in a wrong place; the
invariants of this file hold whatever the events are. `SchedWf` is the invariant of all reachable
states.
-/

namespace Avisor

open Function LinkedList

/-- The moves that need a condition to keep each vCPU node in one place. -/
inductive QueueEvent
  | none
  | wake
  | sleep
  | find
  deriving DecidableEq

namespace Queues

/-- `bmq_scheduler` before its loop. -/
inductive Requeue (n : Nat) (q : Queues) (r : RNode) : Queues → Prop
  | keep (sleeps : ∀ v, q.run r = some v → q.sleep = some v) : Requeue n q r q
  | insert (v p tail) (run : q.run r = some v) (awake : q.sleep ≠ some v) (prio : p < bmqBitmapSize)
      (hasTail : (q.setPrio v p).Tail n v r tail) : Requeue n q r ((q.setPrio v p).insertAt v r tail)

/-- What a step of the scheduler does to the queues, taken by a pCPU that holds the node `x`. -/
inductive Move (n : Nat) (q : Queues) (x : Option RNode) : QueueEvent → Queues → Prop
  | stay : Move n q x .none q
  | count (f : Int) (flag : f > 0 → q.flag > 0) : Move n q x .none { q with flag := f }
  | wake (v r tail) (sleeper : q.sleep = some v) (home : q.sleepNode = some r)
      (hasTail : q.Tail n v r tail) : Move n q x .wake (q.insertAt v r tail).clearSlot
  | sleep (v r m p) (holds : x = some r) (node : q.nodeVm r = some m) (run : q.run r = some v)
      (prio : p < bmqBitmapSize) : Move n q x .sleep ((q.setPrio v p).putToSleep v r)
  | start (v r m p tail) (holds : x = some r) (node : q.nodeVm r = some m)
      (fresh : q.created v = false) (lt : v < n) (prio : p < bmqBitmapSize)
      (hasTail : (q.create v m p).Tail n v r tail) :
      Move n q x .none ((q.create v m p).insertAt v r tail)
  | spin (r m u) (holds : x = some r) (node : q.nodeVm r = some m) (requeue : Requeue n q r u)
      (none : ∀ i < bmqBitmapSize, u.level r i = none) : Move n q x .none u
  | run (r m u i v) (holds : x = some r) (node : q.nodeVm r = some m) (requeue : Requeue n q r u)
      (lt : i < bmqBitmapSize) (first : u.level r i = some v) : Move n q x .none (u.takeRun r i v)
  | find (r m i v) (holds : x = some r) (node : q.nodeVm r = some m) (lt : i < bmqBitmapSize)
      (first : q.level r i = some v) : Move n q x .find (q.takeRun r i v)

variable {n : Nat} {q q' : Queues} {x : Option RNode}

theorem insertAt_level_ne_none {v : VNode} {r r' : RNode} {tail : Option VNode} {i : Nat}
    (h : q.level r' i ≠ none) : (q.insertAt v r tail).level r' i ≠ none := by
  cases tail with
  | some t => exact h
  | none =>
    simp only [level, insertAt] at h ⊢
    by_cases hslot : q.offset r' + i = q.offset r + q.prio v
    · simp [hslot]
    · rw [update_of_ne hslot]
      exact h

theorem Requeue.wf {r : RNode} {m : VmId} (h : q.Requeue n r q') (hq : q.Wf n)
    (hr : q.nodeVm r = some m) : q'.Wf n := by
  cases h with
  | keep => exact hq
  | insert v p tail run awake prio hasTail =>
    obtain ⟨hv, hvm⟩ := hq.run_mem r m v hr run
    exact (hq.setPrio prio).insertAt hv (hr.trans (congrArg some hvm.symm)) hasTail

theorem Requeue.nodeVm {r : RNode} (h : q.Requeue n r q') : q'.nodeVm = q.nodeVm := by
  cases h <;> rfl

theorem Requeue.run {r : RNode} (h : q.Requeue n r q') : q'.run = q.run := by
  cases h <;> rfl

theorem Move.wf {e : QueueEvent} (h : q.Move n x e q') (hq : q.Wf n) : q'.Wf n := by
  cases h with
  | stay => exact hq
  | count f flag => exact hq.countDown flag
  | wake v r tail sleeper home hasTail =>
    obtain ⟨hv, r', hr', hvm⟩ := hq.sleep_mem v sleeper
    obtain rfl : r = r' := Option.some.inj (home.symm.trans hr')
    exact (hq.insertAt hv hvm hasTail).clearSlot
  | sleep v r m p holds node run prio => exact (hq.setPrio prio).putToSleep node run
  | start v r m p tail holds node fresh lt prio hasTail =>
    have hcreated : (q.create v m p).created v = true := by simp [create]
    have hhome : (q.create v m p).Home v r := by
      simp only [Home, create, update_self]
      exact node
    exact (hq.create fresh lt prio).insertAt hcreated hhome hasTail
  | spin r m u holds node requeue => exact requeue.wf hq node
  | run r m u i v holds node requeue lt first =>
    have hnode : u.nodeVm r = some m := by
      rw [requeue.nodeVm]
      exact node
    exact (requeue.wf hq node).takeRun hnode lt first
  | find r m i v holds node lt first => exact hq.takeRun node lt first

theorem Move.nodeVm {e : QueueEvent} (h : q.Move n x e q') : q'.nodeVm = q.nodeVm := by
  cases h with
  | spin r m u holds node requeue => exact requeue.nodeVm
  | run r m u i v holds node requeue => exact requeue.nodeVm
  | _ => rfl

/-- Once a VM has run, it has a vCPU that ran last. -/
theorem Move.run_ne_none {e : QueueEvent} (h : q.Move n x e q') {r : RNode} (hr : q.run r ≠ none) :
    q'.run r ≠ none := by
  have htake (u : Queues) (hu : u.run = q.run) (r' i v) : (u.takeRun r' i v).run r ≠ none := by
    simp only [takeRun, hu]
    by_cases hrr : r = r'
    · simp [hrr]
    · rw [update_of_ne hrr]
      exact hr
  cases h with
  | spin r m u holds node requeue =>
    rw [requeue.run]
    exact hr
  | run r m u i v holds node requeue => exact htake u requeue.run r i v
  | find r m i v => exact htake q rfl r i v
  | _ => exact hr

theorem Move.started {e : QueueEvent} (h : q.Move n x e q') (hq : q.Wf n) (hs : q.Started) :
    q'.Started := by
  have hinsert (u : Queues) (hu : u.Started) (v r tail) : (u.insertAt v r tail).Started := by
    intro r' m' hr' hrun
    obtain ⟨i, hi, hlevel⟩ := hu r' m' hr' hrun
    exact ⟨i, hi, insertAt_level_ne_none hlevel⟩
  have htake (u : Queues) (hu : u.Wf n) (hs : u.Started) (r m i v) (hr : u.nodeVm r = some m)
      (hi : i < bmqBitmapSize) : (u.takeRun r i v).Started := by
    intro r' m' hr' hrun
    by_cases hrr : r' = r
    · subst hrr
      simp [takeRun] at hrun
    · simp only [takeRun, update_of_ne hrr] at hr' hrun
      obtain ⟨j, hj, hlevel⟩ := hs r' m' hr' hrun
      have hslot := hu.slot_ne hr hr' hi hj (by simp [hrr])
      refine ⟨j, hj, ?_⟩
      simp only [level, takeRun, update_of_ne hslot]
      exact hlevel
  have hrequeue (r u) (hu : q.Requeue n r u) : u.Started := by
    cases hu with
    | keep => exact hs
    | insert v p tail => exact hinsert (q.setPrio v p) hs v r tail
  cases h with
  | stay => exact hs
  | count => exact hs
  | wake v r tail => exact hinsert q hs v r tail
  | sleep => exact hs
  | start v r m p tail => exact hinsert (q.create v m p) hs v r tail
  | spin r m u holds node requeue => exact hrequeue r _ requeue
  | run r m u i v holds node requeue lt first =>
    have hnode : u.nodeVm r = some m := by
      rw [requeue.nodeVm]
      exact node
    exact htake u (requeue.wf hq node) (hrequeue r u requeue) r m i v hnode lt
  | find r m i v holds node lt first => exact htake q hq hs r m i v node lt

end Queues

/-! ### What the operations do to the queues -/

section Frame

variable (s : SchedState)

theorem queues_modifyRq (r : RNode) {f : RunQueueNode → RunQueueNode}
    (hvm : ∀ n, (f n).vm = n.vm) (hoffset : ∀ n, (f n).multiQueue = n.multiQueue)
    (hbitmap : ∀ n, (f n).bitmap = n.bitmap) (hrun : ∀ n, (f n).runVnode = n.runVnode) :
    (s.modifyRq r f).queues = s.queues := by
  have hfield {β} (g : RunQueueNode → β) (hg : ∀ n, g (f n) = g n) :
      (fun x => g ((s.modifyRq r f).rqnodeMemory x)) = fun x => g (s.rqnodeMemory x) := by
    funext x
    by_cases h : x = r
    · subst h
      simp only [SchedState.modifyRq, update_self, hg]
    · simp only [SchedState.modifyRq, update_of_ne h]
  unfold SchedState.queues
  congr 1
  · exact hfield (·.vm) hvm
  · exact hfield (·.multiQueue) hoffset
  · exact hfield (·.bitmap) hbitmap
  · exact hfield (·.runVnode) hrun

theorem queues_modifyVnode (v : VNode) {f : VCpuNode → VCpuNode} (hcur : ∀ n, (f n).cur = n.cur)
    (hnext : ∀ n, (f n).next = n.next) :
    (s.modifyVnode v f).queues = s.queues.setPrio v (f (s.vpnodeMemory v)).prio := by
  have hfield {β} (g : VCpuNode → β) (hg : ∀ n, g (f n) = g n) :
      (fun x => g ((s.modifyVnode v f).vpnodeMemory x)) = fun x => g (s.vpnodeMemory x) := by
    funext x
    by_cases h : x = v
    · subst h
      simp only [SchedState.modifyVnode, update_self, hg]
    · simp only [SchedState.modifyVnode, update_of_ne h]
  unfold SchedState.queues Queues.setPrio
  congr 1
  · exact hfield (·.cur.vm) fun n => congrArg VcpuRef.vm (hcur n)
  · funext x
    by_cases h : x = v
    · subst h
      simp only [SchedState.modifyVnode, update_self]
    · simp only [SchedState.modifyVnode, update_of_ne h]
  · exact hfield (·.next) hnext

/-- A store that keeps a vCPU node's priority leaves the queues alone. -/
theorem queues_modifyVnode_same (v : VNode) {f : VCpuNode → VCpuNode}
    (hcur : ∀ n, (f n).cur = n.cur) (hnext : ∀ n, (f n).next = n.next)
    (hprio : ∀ n, (f n).prio = n.prio) : (s.modifyVnode v f).queues = s.queues := by
  rw [queues_modifyVnode s v hcur hnext, hprio]
  unfold Queues.setPrio
  rw [show (s.vpnodeMemory v).prio = s.queues.prio v from rfl, update_eq_self]

theorem queues_setPc (c : PCpuId) (pc : Pc) : (s.setPc c pc).queues = s.queues := rfl

theorem queues_updateTaskTimesLeave (cfg : SchedConfig) (c : PCpuId) (r : RNode) (v : VNode) :
    (updateTaskTimesLeave cfg s c r v).queues = s.queues := by
  unfold updateTaskTimesLeave
  rw [queues_setPc, queues_modifyRq _ r (f := tickRqnode cfg) (fun _ => rfl) (fun _ => rfl)
    (fun _ => rfl) fun _ => rfl, queues_modifyVnode_same s v (f := tickVnode cfg) (fun _ => rfl)
    (fun _ => rfl) fun _ => rfl]

theorem queues_bfsAssign (c : PCpuId) (r : RNode) (m : VmId) :
    (bfsAssign s c r m).queues = s.queues :=
  queues_modifyRq s r (f := fun n => { n with
    state := .running
    timeSlice := BitVec.ofNat 64 bfsRrInterval
    needResched := false }) (fun _ => rfl) (fun _ => rfl) (fun _ => rfl) fun _ => rfl

theorem queues_relinkRq (next prev : RNode → Option RNode) :
    (s.relinkRq next prev).queues = s.queues := rfl

theorem queues_relink (r : RNode) (bitmap : BitVec 64) (nr : BitVec 32)
    (next : VNode → Option VNode) (levels : Nat → Option VNode) :
    (s.relink r bitmap nr next levels).queues =
      { s.queues with bitmap := update s.queues.bitmap r bitmap, next := next, levels := levels } := by
  unfold SchedState.queues
  congr 1
  · funext x
    simp only [SchedState.relink_vm]
  · funext x
    simp only [SchedState.relink_multiQueue]
  · funext x
    simp only [SchedState.relink_bitmap, update_apply]
  · funext x
    simp only [SchedState.relink_runVnode]

end Frame

theorem queues_bfsExpire {s t : SchedState} {r : RNode} (h : bfsExpire s r = some t) :
    t.queues = s.queues := by
  obtain ⟨-, rfl⟩ := bfsExpire_eq_some h
  exact queues_modifyRq s r (f := fun n => { n with
    vdeadline := s.bfsClock + n.vdeadlineDiff
    state := .ready
    needResched := true }) (fun _ => rfl) (fun _ => rfl) (fun _ => rfl) fun _ => rfl

theorem queues_rqInsert {s t : SchedState} {r : RNode} (h : rqInsert s r = some t) :
    t.queues = s.queues := by
  obtain ⟨head, -, rfl⟩ := rqInsert_eq_some h
  exact queues_relinkRq ..

theorem queues_pTaskLookup {cfg : SchedConfig} {s t : SchedState} {r : Option RNode}
    (h : pTaskLookup cfg s = some (r, t)) : t.queues = s.queues := by
  cases r with
  | none => rw [pTaskLookup_eq_none h]
  | some r =>
    obtain ⟨-, -, -, hremove⟩ := pTaskLookup_eq_some h
    obtain ⟨p, -, rfl⟩ := rqRemove_eq_some hremove
    exact queues_relinkRq ..

theorem queues_vTaskInsert {cfg : SchedConfig} {s t : SchedState} {v : VNode} {r : RNode}
    (h : vTaskInsert cfg s v r = some t) :
    ∃ tail, s.queues.Tail cfg.vnodeNum v r tail ∧ t.queues = s.queues.insertAt v r tail := by
  obtain ⟨next, levels, rfl, hcase⟩ := vTaskInsert_eq_some h
  rw [queues_relink]
  rcases hcase with ⟨hnone, rfl, rfl⟩ | ⟨first, tail, hfirst, hlast, rfl, rfl⟩
  · exact ⟨none, hnone, rfl⟩
  · exact ⟨some tail, ⟨first, hfirst, hlast⟩, rfl⟩

theorem queues_withVnode (s : SchedState) (v : VNode) (vp : VcpuRef) (prio : Nat) :
    (s.withVnode v vp prio).queues = s.queues.create v vp.vm prio := by
  unfold SchedState.queues
  congr 1
  · funext x
    simp only [SchedState.withVnode, SchedState.modifyVnode, bitmapGet_set, update_apply]
    by_cases h : x = v <;> simp [h]
  all_goals
    funext x
    by_cases h : x = v
    · subst h
      simp [SchedState.withVnode, SchedState.modifyVnode, SchedState.vnext]
    · simp [SchedState.withVnode, SchedState.modifyVnode, SchedState.vnext, h]

theorem queues_vTaskLookup {s t : SchedState} {r : RNode} {v : VNode}
    (h : vTaskLookup s r = some (some v, t)) :
    ∃ i < bmqBitmapSize, s.queues.level r i = some v ∧
      { t.queues with run := update t.queues.run r (some v) } = s.queues.takeRun r i v := by
  obtain ⟨i, hfirst, hlevel, rfl⟩ := vTaskLookup_eq_some h
  refine ⟨i, (firstLevel_eq_some hfirst).1, hlevel, ?_⟩
  rw [queues_relink]
  rfl

theorem queues_bmqRun_return (s : SchedState) (c : PCpuId) (r : RNode) (v : VNode) :
    (tryRescheduleReturn (bmqRun s c r v) c).queues =
      { s.queues with run := update s.queues.run r (some v) } := by
  have hswitch : (tryRescheduleReturn (bmqRun s c r v) c).queues = (bmqAssign s r v).queues := rfl
  have hnode (x : SchedState) : (x.modifyRq r fun n => { n with runVnode := some v }).queues =
      { x.queues with run := update x.queues.run r (some v) } := by
    unfold SchedState.queues
    congr 1
    all_goals
      funext y
      by_cases h : y = r
      · subst h
        simp [SchedState.modifyRq]
      · simp [SchedState.modifyRq, h]
  rw [hswitch, bmqAssign, hnode]
  rw [queues_modifyVnode_same s v (f := fun n =>
    { n with
      state := .running
      timeSlice := BitVec.ofNat 64 bmqRrInterval
      needResched := false }) (fun _ => rfl) (fun _ => rfl) (fun _ => rfl)]

theorem prioManage_prio_lt (node : VCpuNode) (d : Int) (h : node.prio < bmqBitmapSize) :
    (prioManage node d).prio < bmqBitmapSize := by
  simp only [prioManage]
  generalize (node.staticPrio : Int) + _ = temp
  split
  · rename_i hrange
    simp only [prioWidth, bmqBitmapSize] at hrange ⊢
    omega
  · exact h

theorem queues_bmqRequeue {cfg : SchedConfig} {s t : SchedState} {r : RNode} {m : VmId}
    (hs : s.queues.Wf cfg.vnodeNum) (hr : (s.rqnodeMemory r).vm = some m)
    (h : bmqRequeue cfg s r = some t) : s.queues.Requeue cfg.vnodeNum r t.queues := by
  rcases bmqRequeue_eq_some h with ⟨rfl, hsleep⟩ | ⟨v, hrun, hawake, hinsert⟩
  · exact .keep hsleep
  · obtain ⟨hv, -⟩ := hs.run_mem r m v hr hrun
    have hprio := prioManage_prio_lt (s.vpnodeMemory v) 0 (hs.prio_lt v hv)
    obtain ⟨tail, htail, hqueues⟩ := queues_vTaskInsert hinsert
    have hset : (s.requeued v).queues = s.queues.setPrio v (prioManage (s.vpnodeMemory v) 0).prio :=
      queues_modifyVnode s v (fun _ => rfl) fun _ => rfl
    rw [hset] at htail hqueues
    rw [hqueues]
    exact .insert v _ tail hrun hawake hprio htail

/-- Where no bit is set no level has a node. -/
theorem queues_empty {s : SchedState} {r : RNode} {m : VmId} {n : Nat} (hs : s.queues.Wf n)
    (hr : s.queues.nodeVm r = some m) (hfirst : firstLevel (s.rqnodeMemory r).bitmap = none) :
    ∀ i < bmqBitmapSize, s.queues.level r i = none := by
  intro i hi
  by_contra hlevel
  have hset := (hs.bit r m i hr hi).mpr hlevel
  rw [show (s.queues.bitmap r).getLsbD i = false from firstLevel_eq_none.mp hfirst i hi] at hset
  cases hset

/-! ### The invariant of all reachable states -/

/-- The invariant of the scheduler: the run queue of VMs, the queues of vCPUs, and what a pCPU knows
of them where it is. -/
structure SchedWf (cfg : SchedConfig) (s : SchedState) : Prop where
  rq : RqWf cfg s
  queues : s.queues.Wf cfg.vnodeNum
  started : s.queues.Started
  boot : ∀ c, (s.cpus c).pc = .boot → (s.cpus c).flag = false ∧ (s.cpus c).rqnode = none
  guest : ∀ c, ((s.cpus c).pc = .guest ∨ ∃ r v, (s.cpus c).pc = .tick r v) →
    ∃ r v, (s.cpus c).rqnode = some r ∧ (s.rqnodeMemory r).runVnode = some v
  bmqLookup : ∀ c r, (s.cpus c).pc = .bmqLookup r → (s.cpus c).rqnode = some r

/-- The event that the action `a` is in the state `s`. -/
structure EventOf (s : SchedState) (a : Action) (e : QueueEvent) : Prop where
  wake : e = .wake ↔ a = .call 0 .updateTaskTimes ∧ s.ioSleepFlag = 1
  sleep : e = .sleep ↔ ∃ c, a = .call c .schedIoHandler
  find : e = .find → ∃ c r, a = .resume c ∧ (s.cpus c).pc = .bmqLookup r ∧
    ∃ i < bmqBitmapSize, s.queues.level r i ≠ none

private theorem EventOf.none {s : SchedState} {a : Action}
    (hwake : ¬(a = .call 0 .updateTaskTimes ∧ s.ioSleepFlag = 1))
    (hsleep : ∀ c, a ≠ .call c .schedIoHandler) : EventOf s a .none :=
  ⟨iff_of_false (by simp) hwake, iff_of_false (by simp) (not_exists.mpr hsleep), by simp⟩

theorem SchedWf.node {cfg : SchedConfig} {s : SchedState} {c : PCpuId} {r : RNode}
    (hs : SchedWf cfg s) (h : (s.cpus c).rqnode = some r) :
    ∃ m, (s.rqnodeMemory r).vm = some m := Option.ne_none_iff_exists'.mp (hs.rq.rqnode_vm c r h)

/-- In `bmq_scheduler` a pCPU works on its own node. -/
theorem SchedWf.requeued {cfg : SchedConfig} {s u : SchedState} {c : PCpuId} {r : RNode}
    (hs : SchedWf cfg s) (h : Requeued cfg s (s.cpus c) r u) : (s.cpus c).rqnode = some r := by
  rcases h with ⟨-, rqnode, -⟩ | ⟨pc, -⟩
  · exact rqnode
  · exact hs.bmqLookup c r pc

theorem SchedWf.wakeSleeper_isSome {cfg : SchedConfig} {s : SchedState} (hs : SchedWf cfg s)
    (hflag : s.ioSleepFlag > 0) : ∃ t, wakeSleeper cfg (sleepCounted cfg s) = some t := by
  obtain ⟨u, hu⟩ := Option.ne_none_iff_exists'.mp (hs.queues.flag_pos hflag)
  obtain ⟨hcreated, q, hq, hhome⟩ := hs.queues.sleep_mem u hu
  have hsleeper : (sleepCounted cfg s).sleepVnode = some u := hu
  have hnode : (sleepCounted cfg s).withSleepVnodeRqnode = some q := hq
  have hprio : ((wakeStart cfg s u).vpnodeMemory u).prio = (s.vpnodeMemory u).prio := by
    simp only [wakeStart, SchedState.modifyVnode, update_self]
    rfl
  have hnext : (wakeStart cfg s u).vnext = s.vnext := by
    funext x
    by_cases h : x = u
    · subst h
      simp only [wakeStart, SchedState.vnext, SchedState.modifyVnode, update_self]
      rfl
    · simp only [wakeStart, SchedState.vnext, SchedState.modifyVnode, update_of_ne h]
      rfl
  obtain ⟨t, ht⟩ : ∃ t, vTaskInsert cfg (wakeStart cfg s u) u q = some t := by
    refine vTaskInsert_isSome fun first hfirst => ?_
    rw [hprio] at hfirst
    rw [hnext]
    exact hs.queues.exists_tail hcreated hhome hfirst
  simp only [wakeSleeper, hsleeper, hnode, Option.bind_some]
  rw [wakeStart] at ht
  rw [ht]
  exact ⟨_, rfl⟩

/-- A pCPU in a guest gets through a tick and a sleep hypercall. -/
theorem SchedWf.call_isSome {cfg : SchedConfig} {s : SchedState} {c : PCpuId} {f : Call}
    (hs : SchedWf cfg s) (hpc : (s.cpus c).pc = .guest)
    (hf : f = .updateTaskTimes ∨ f = .schedIoHandler) : callEffect cfg s c f ≠ none := by
  obtain ⟨r, v, hr, hv⟩ := hs.guest c (.inl hpc)
  rcases hf with rfl | rfl
  · have hclock : ∃ t, (if c = 0 then advanceClock cfg s else some s) = some t := by
      split
      · simp only [advanceClock]
        split
        · rename_i hflag
          split
          · exact hs.wakeSleeper_isSome hflag
          · exact ⟨_, rfl⟩
        · exact ⟨_, rfl⟩
      · exact ⟨_, rfl⟩
    obtain ⟨t, ht⟩ := hclock
    simp [callEffect, updateTaskTimesEnter, hr, hv, ht]
  · simp [callEffect, schedIoHandler, hr, hv]

theorem SchedStep.move {cfg : SchedConfig} {s t : SchedState} {a : Action}
    (h : SchedStep cfg s a t) (hs : SchedWf cfg s) :
    ∃ e, EventOf s a e ∧ s.queues.Move cfg.vnodeNum (s.cpus a.cpu).held e t.queues := by
  have holds {c r} (hpc : (s.cpus c).pc = .guest ∨ (s.cpus c).pc = .bmq ∨
      ∃ r, (s.cpus c).pc = .bmqLookup r) (hr : (s.cpus c).rqnode = some r) :
      (s.cpus c).held = some r := by
    rcases hpc with hpc | hpc | ⟨r', hpc⟩ <;> simp only [PCpu.held, hpc, hr]
  have hnone (b : Action) (ha : (∃ c f, b = .call c f ∧ f ≠ .updateTaskTimes ∧
      f ≠ .schedIoHandler) ∨ ∃ c, b = .resume c) : EventOf s b .none := by
    refine .none ?_ ?_
    · rintro ⟨rfl, -⟩
      rcases ha with ⟨c, f, hcall, hf, -⟩ | ⟨c, hcall⟩ <;> cases hcall
      exact hf rfl
    · rintro c rfl
      rcases ha with ⟨c, f, hcall, -, hf⟩ | ⟨c, hcall⟩ <;> cases hcall
      exact hf rfl
  cases h with
  | haltCall c f pc guest h =>
    refine ⟨.none, hnone _ (.inl ⟨c, f, rfl, ?_, ?_⟩), .stay⟩
    · rintro rfl
      exact hs.call_isSome (guest (by simp)) (.inl rfl) h
    · rintro rfl
      exact hs.call_isSome (guest (by simp)) (.inr rfl) h
  | haltResume c h => exact ⟨.none, hnone _ (.inr ⟨c, rfl⟩), .stay⟩
  | tickWait c r v pc rqnode run other =>
    refine ⟨.none, .none ?_ (by simp), .stay⟩
    rintro ⟨hcall, -⟩
    cases hcall
    exact other rfl
  | tickClock r v pc rqnode run flag =>
    refine ⟨.none, .none ?_ (by simp), .stay⟩
    rintro ⟨-, hone⟩
    omega
  | tickCount r v pc rqnode run flag =>
    refine ⟨.none, .none ?_ (by simp), .count (s.ioSleepFlag - 1) fun hflag => ?_⟩
    · rintro ⟨-, hone⟩
      omega
    · have hpos : s.ioSleepFlag > 0 := by omega
      exact hpos
  | tickWake r v u q w pc rqnode run flag sleeper home insert =>
    refine ⟨.wake, ⟨⟨fun _ => ⟨rfl, flag⟩, fun _ => rfl⟩, ⟨by simp, by simp⟩, by simp⟩, ?_⟩
    obtain ⟨tail, htail, hqueues⟩ := queues_vTaskInsert insert
    have hstart : (wakeStart cfg s u).queues = { s.queues with flag := 0 } := by
      unfold wakeStart
      rw [queues_modifyVnode_same _ u (f := fun n => { n with needResched := true }) (fun _ => rfl)
        (fun _ => rfl) fun _ => rfl, sleepCounted, flag]
      rfl
    rw [hstart] at htail hqueues
    have hcleared : ((slotCleared w).setPc 0 (.tick r v)).queues =
        { w.queues with sleep := none, sleepNode := none } := rfl
    rw [hcleared, hqueues]
    exact .wake u q tail sleeper home htail
  | tickLeave c r v pc =>
    refine ⟨.none, hnone _ (.inr ⟨c, rfl⟩), ?_⟩
    rw [queues_updateTaskTimesLeave]
    exact .stay
  | reschedBusy c pc flag => exact ⟨.none, hnone _ (.inl ⟨c, _, rfl, by simp, by simp⟩), .stay⟩
  | reschedFirst c pc flag rqnode => exact ⟨.none, hnone _ (.inl ⟨c, _, rfl, by simp, by simp⟩), .stay⟩
  | reschedVm c r u pc flag rqnode expire =>
    refine ⟨.none, hnone _ (.inl ⟨c, _, rfl, by simp, by simp⟩), ?_⟩
    rw [queues_setPc, queues_bfsExpire expire]
    exact .stay
  | reschedVcpu c r pc flag rqnode => exact ⟨.none, hnone _ (.inl ⟨c, _, rfl, by simp, by simp⟩), .stay⟩
  | reschedKeep c r v pc flag rqnode run =>
    exact ⟨.none, hnone _ (.inl ⟨c, _, rfl, by simp, by simp⟩), .stay⟩
  | start c arg0 r m v u w pc rqnode vm arg create insert =>
    refine ⟨.none, hnone _ (.inl ⟨c, _, rfl, by simp, by simp⟩), ?_⟩
    obtain ⟨hlt, hfree, rfl⟩ := initializeVCpuNode_eq_some create
    obtain ⟨tail, htail, hqueues⟩ := queues_vTaskInsert insert
    rw [queues_withVnode] at htail hqueues
    rw [hqueues]
    exact .start v r m bmqDefaultPrio tail (holds (.inl pc) rqnode) vm hfree hlt (by decide) htail
  | sleep c r v pc rqnode run =>
    refine ⟨.sleep, ⟨⟨by simp, by simp⟩, ⟨fun _ => ⟨c, rfl⟩, fun _ => rfl⟩, by simp⟩, ?_⟩
    obtain ⟨m, hm⟩ := hs.node rqnode
    obtain ⟨hv, -⟩ := hs.queues.run_mem r m v hm run
    have hsleep : (sleepStart s r v).queues =
        (s.queues.setPrio v (prioManage (s.vpnodeMemory v) 1).prio).putToSleep v r := by
      have hset := queues_modifyVnode s v
        (f := fun n => { prioManage n 1 with needResched := false }) (fun _ => rfl) fun _ => rfl
      have hslot : (sleepStart s r v).queues = (s.modifyVnode v fun n =>
          { prioManage n 1 with needResched := false }).queues.putToSleep v r := rfl
      rw [hslot, hset]
    rw [hsleep]
    exact .sleep v r m _ (holds (.inl pc) rqnode) hm run (prioManage_prio_lt _ 1 (hs.queues.prio_lt v hv))
  | bfsInsert c r u pc rqnode insert =>
    rw [queues_setPc, queues_rqInsert insert]
    exact ⟨.none, hnone _ (.inr ⟨c, rfl⟩), .stay⟩
  | bfsMiss c u pc lookup =>
    rw [queues_pTaskLookup lookup]
    exact ⟨.none, hnone _ (.inr ⟨c, rfl⟩), .stay⟩
  | bfsHit c r u pc lookup =>
    rw [queues_setPc, queues_pTaskLookup lookup]
    exact ⟨.none, hnone _ (.inr ⟨c, rfl⟩), .stay⟩
  | bfsRun c r u pc run =>
    obtain ⟨m, -, rfl⟩ := bfsRun_eq_some run
    rw [queues_setPc, queues_bfsAssign]
    exact ⟨.none, hnone _ (.inr ⟨c, rfl⟩), .stay⟩
  | bmqSpin c r u w pc rqnode requeue lookup =>
    refine ⟨.none, hnone _ (.inr ⟨c, rfl⟩), ?_⟩
    obtain ⟨m, hm⟩ := hs.node rqnode
    have hmove := queues_bmqRequeue hs.queues hm requeue
    obtain ⟨hfirst, rfl⟩ := vTaskLookup_eq_none lookup
    rw [queues_setPc]
    have hnode : w.queues.nodeVm r = some m := by
      rw [hmove.nodeVm]
      exact hm
    exact .spin r m _ (holds (.inr (.inl pc)) rqnode) hm hmove
      (queues_empty (hmove.wf hs.queues hm) hnode hfirst)
  | bmqRun c r u v w pc rqnode requeue lookup =>
    refine ⟨.none, hnone _ (.inr ⟨c, rfl⟩), ?_⟩
    obtain ⟨m, hm⟩ := hs.node rqnode
    have hmove := queues_bmqRequeue hs.queues hm requeue
    obtain ⟨i, hi, hfirst, htake⟩ := queues_vTaskLookup lookup
    rw [queues_bmqRun_return, htake]
    exact .run r m _ i v (holds (.inr (.inl pc)) rqnode) hm hmove hi hfirst
  | bmqMiss c r u pc lookup =>
    obtain ⟨-, rfl⟩ := vTaskLookup_eq_none lookup
    exact ⟨.none, hnone _ (.inr ⟨c, rfl⟩), .stay⟩
  | bmqFind c r v u pc lookup =>
    obtain ⟨m, hm⟩ := hs.node (hs.bmqLookup c r pc)
    obtain ⟨i, hi, hfirst, htake⟩ := queues_vTaskLookup lookup
    refine ⟨.find, ⟨⟨by simp, by simp⟩, ⟨by simp, by simp⟩, fun _ => ⟨c, r, rfl, pc, i, hi, ?_⟩⟩, ?_⟩
    · rw [hfirst]
      simp
    · rw [queues_bmqRun_return, htake]
      exact .find r m i v (holds (.inr (.inr ⟨r, pc⟩)) (hs.bmqLookup c r pc)) hm hi hfirst

theorem SchedWf.step {cfg : SchedConfig} {s t : SchedState} {a : Action} (hs : SchedWf cfg s)
    (h : SchedStep cfg s a t) : SchedWf cfg t := by
  obtain ⟨e, -, hmove⟩ := h.move hs
  obtain ⟨p, hp, hcpus⟩ := h.cpus
  refine ⟨hs.rq.step h, hmove.wf hs.queues, hmove.started hs.queues hs.started, ?_, ?_, ?_⟩
  · intro c hpc
    rw [hcpus] at hpc ⊢
    by_cases hc : c = a.cpu
    · subst hc
      rw [update_self] at hpc ⊢
      cases hp with
      | stay pc => rcases pc with pc | pc <;> exact absurd (pc.symm.trans hpc) (by simp)
      | resched pc' pc flag next =>
        rcases next with ⟨rfl, -⟩ | ⟨rfl | rfl, -⟩ <;> cases hpc
      | _ => cases hpc
    · rw [update_of_ne hc] at hpc ⊢
      exact hs.boot c hpc
  · intro c hpc
    rw [hcpus] at hpc ⊢
    have hkeep {r : RNode} (hr : ∃ v, (s.rqnodeMemory r).runVnode = some v) :
        ∃ v, (t.rqnodeMemory r).runVnode = some v := by
      obtain ⟨v, hv⟩ := hr
      have hsome : s.queues.run r ≠ none := by
        rw [show s.queues.run r = some v from hv]
        simp
      exact Option.ne_none_iff_exists'.mp (hmove.run_ne_none hsome)
    have hold (c') (hpc' : (s.cpus c').pc = .guest ∨ ∃ r v, (s.cpus c').pc = .tick r v) :
        ∃ r v, (s.cpus c').rqnode = some r ∧ (t.rqnodeMemory r).runVnode = some v := by
      obtain ⟨r, v, hr, hv⟩ := hs.guest c' hpc'
      obtain ⟨w, hw⟩ := hkeep ⟨v, hv⟩
      exact ⟨r, w, hr, hw⟩
    by_cases hc : c = a.cpu
    · subst hc
      rw [update_self] at hpc ⊢
      cases hp with
      | stay => exact hold a.cpu hpc
      | tick r v guest rqnode run =>
        obtain ⟨w, hw⟩ := hkeep ⟨v, run⟩
        exact ⟨r, w, rqnode, hw⟩
      | leave r v tick => exact hold a.cpu (.inr ⟨r, v, tick⟩)
      | busy pc flag =>
        rcases pc with pc | pc
        · rw [(hs.boot a.cpu pc).1] at flag
          cases flag
        · exact hold a.cpu (.inl pc)
      | keep r v pc flag rqnode run =>
        obtain ⟨w, hw⟩ := hkeep ⟨v, run⟩
        exact ⟨r, w, rqnode, hw⟩
      | run r u v w vcpu vmpidr requeued lookup runs =>
        refine ⟨r, v, hs.requeued requeued, ?_⟩
        rw [runs]
        exact bmqRun_runVnode w a.cpu r v
      | resched pc' pc flag next =>
        rcases next with ⟨rfl, -⟩ | ⟨rfl | rfl, -⟩ <;> simp at hpc
      | _ => simp at hpc
    · rw [update_of_ne hc] at hpc ⊢
      exact hold c hpc
  · intro c r hpc
    rw [hcpus] at hpc ⊢
    by_cases hc : c = a.cpu
    · subst hc
      rw [update_self] at hpc ⊢
      cases hp with
      | stay pc => rcases pc with pc | pc <;> exact absurd (pc.symm.trans hpc) (by simp)
      | resched pc' pc flag next =>
        rcases next with ⟨rfl, -⟩ | ⟨rfl | rfl, -⟩ <;> cases hpc
      | spin r' u requeued =>
        cases hpc
        exact hs.requeued requeued
      | _ => cases hpc
    · rw [update_of_ne hc] at hpc ⊢
      exact hs.bmqLookup c r hpc

end Avisor
