import Avisor.Lib.DemotionQueue
import Avisor.Sched.Placement

/-!
# Overtaking between the vCPUs of a VM

`bmq_scheduler` takes the first vCPU of the lowest level, and puts the one that ran before into the
level below. Without sleep hypercalls the vCPU nodes of a VM are a queue with demotion: started vCPUs
enter level `bmq_default_prio`, and the last level is `PRIO_WIDTH - 1`. So a vCPU that waits is
overtaken only so many times by each other one.
-/

namespace Avisor

open Function LinkedList DemotionQueue

/-! ### What `v_task_lookup` returns -/

/-- The vCPU node that `v_task_lookup` returns for the node `r` in the step `a`. -/
def lookedUp (cfg : SchedConfig) (s : SchedState) (r : RNode) : Action → Option VNode
  | .call _ _ => none
  | .resume c =>
    match (s.cpus c).pc with
    | .bmq =>
      if (s.cpus c).rqnode = some r then
        (bmqRequeue cfg s r).bind fun u => (vTaskLookup u r).bind fun found => found.1
      else none
    | .bmqLookup r' => if r' = r then (vTaskLookup s r).bind fun found => found.1 else none
    | _ => none

/-- The vCPU nodes that `v_task_lookup` returns for the node `r` along the actions `as`, one after
another. -/
def lookups (cfg : SchedConfig) (r : RNode) : SchedState → List Action → List VNode
  | _, [] => []
  | s, a :: as =>
    match (schedMachine cfg).step s a with
    | none => []
    | some t => (lookedUp cfg s r a).toList ++ lookups cfg r t as

/-- The vCPU node `v` waits in a level of `r`. -/
def Waiting (s : SchedState) (r : RNode) (v : VNode) : Prop :=
  ∃ i < bmqBitmapSize, ∃ l, Chain s.vnext (s.level r i) l ∧ v ∈ l

/-! ### The priority of a vCPU without sleep hypercalls -/

/-- A node created with `bmq_default_prio` that has only been demoted. -/
def VCpuNode.Demoted (n : VCpuNode) : Prop :=
  n.staticPrio = bmqDefaultPrio ∧ 0 ≤ n.prioAdj ∧ n.prioAdj ≤ maxprioAdj ∧
    (n.prio : Int) = min (bmqDefaultPrio + n.prioAdj) (prioWidth - 1)

theorem VCpuNode.Demoted.range {n : VCpuNode} (h : n.Demoted) :
    bmqDefaultPrio ≤ n.prio ∧ n.prio ≤ prioWidth - 1 := by
  obtain ⟨-, hlow, -, hprio⟩ := h
  simp only [bmqDefaultPrio, prioWidth] at hprio ⊢
  omega

/-- A demotion lowers the priority by one level, if there is one. -/
theorem VCpuNode.Demoted.prioManage {n : VCpuNode} (h : n.Demoted) :
    (prioManage n 0).Demoted ∧ (prioManage n 0).prio = min (n.prio + 1) (prioWidth - 1) := by
  obtain ⟨hstatic, hlow, hhigh, hprio⟩ := h
  have hup : ¬((0 : Int) = 1 ∧ n.prioAdj > -maxprioAdj) := by simp
  have hadj : (Avisor.prioManage n 0).prioAdj = min (n.prioAdj + 1) maxprioAdj := by
    simp only [Avisor.prioManage, if_neg hup]
    by_cases hlt : n.prioAdj < maxprioAdj
    · rw [if_pos hlt]
      omega
    · rw [if_neg hlt]
      omega
  have hnew : ((Avisor.prioManage n 0).prio : Int) =
      min (bmqDefaultPrio + min (n.prioAdj + 1) maxprioAdj) (prioWidth - 1) := by
    have hprio' : (Avisor.prioManage n 0).prio =
        if (n.staticPrio : Int) + (Avisor.prioManage n 0).prioAdj ≤ prioWidth - 1 ∧
          (n.staticPrio : Int) + (Avisor.prioManage n 0).prioAdj ≥ 0
        then ((n.staticPrio : Int) + (Avisor.prioManage n 0).prioAdj).toNat else n.prio := rfl
    rw [hadj, hstatic] at hprio'
    split at hprio'
    · rename_i hrange
      simp only [bmqDefaultPrio, prioWidth, maxprioAdj] at *
      omega
    · rename_i hrange
      simp only [bmqDefaultPrio, prioWidth, maxprioAdj] at *
      omega
  refine ⟨⟨hstatic, ?_, ?_, ?_⟩, ?_⟩
  · rw [hadj]
    simp only [maxprioAdj]
    omega
  · rw [hadj]
    omega
  · rw [hadj]
    exact hnew
  · simp only [bmqDefaultPrio, prioWidth, maxprioAdj] at *
    omega

/-- The fields of the vCPU nodes that priorities depend on. -/
def SchedState.ranks (s : SchedState) (v : VNode) : Nat × Int × Nat :=
  ((s.vpnodeMemory v).staticPrio, (s.vpnodeMemory v).prioAdj, (s.vpnodeMemory v).prio)

theorem ranks_modifyVnode (s : SchedState) (v : VNode) (f : VCpuNode → VCpuNode) :
    (s.modifyVnode v f).ranks = update s.ranks v ((f (s.vpnodeMemory v)).staticPrio,
      (f (s.vpnodeMemory v)).prioAdj, (f (s.vpnodeMemory v)).prio) := by
  funext w
  by_cases h : w = v
  · subst h
    simp only [SchedState.ranks, SchedState.modifyVnode, update_self]
  · simp only [SchedState.ranks, SchedState.modifyVnode, update_of_ne h]

theorem ranks_vTaskInsert {cfg : SchedConfig} {s t : SchedState} {v : VNode} {r : RNode}
    (h : vTaskInsert cfg s v r = some t) : t.ranks = s.ranks := by
  obtain ⟨next, levels, rfl, -⟩ := vTaskInsert_eq_some h
  rfl

theorem ranks_vTaskLookup {s t : SchedState} {v : Option VNode} {r : RNode}
    (h : vTaskLookup s r = some (v, t)) : t.ranks = s.ranks := by
  cases v with
  | none => rw [(vTaskLookup_eq_none h).2]
  | some v =>
    obtain ⟨i, -, -, rfl⟩ := vTaskLookup_eq_some h
    rfl

/-- A store that keeps the fields priorities depend on. -/
theorem ranks_modifyVnode_same (s : SchedState) (v : VNode) {f : VCpuNode → VCpuNode}
    (hstatic : ∀ n, (f n).staticPrio = n.staticPrio) (hadj : ∀ n, (f n).prioAdj = n.prioAdj)
    (hprio : ∀ n, (f n).prio = n.prio) : (s.modifyVnode v f).ranks = s.ranks := by
  rw [ranks_modifyVnode, hstatic, hadj, hprio]
  exact update_eq_self v s.ranks

/-! ### The steps -/

/-- What holds in runs without sleep hypercalls. -/
structure Calm (s : SchedState) : Prop where
  sleep : s.sleepVnode = none
  flag : ¬ s.ioSleepFlag > 0
  spin : ∀ c r, (s.cpus c).pc ≠ .bmqLookup r
  inPlace : s.queues.InPlace
  demoted : ∀ v, s.Created v → (s.vpnodeMemory v).Demoted

variable {cfg : SchedConfig} {s t : SchedState} {a : Action}

/-- The queues when `bmq_scheduler` has put the vCPU that ran before back. -/
inductive Demotion (n : Nat) (q : Queues) (r : RNode) : Queues → Prop
  | first (run : q.run r = none) : Demotion n q r q
  | demote (w tail) (run : q.run r = some w)
      (hasTail : (q.setPrio w (min (q.prio w + 1) (prioWidth - 1))).Tail n w r tail) :
      Demotion n q r ((q.setPrio w (min (q.prio w + 1) (prioWidth - 1))).insertAt w r tail)

/-- A step of a run without sleep hypercalls, on the queues. -/
inductive CalmStep (cfg : SchedConfig) (s : SchedState) (a : Action) (t : SchedState) : Prop
  | stay (queues : t.queues = s.queues) (lookup : ∀ r, lookedUp cfg s r a = none)
  | start (v r m tail) (node : s.queues.nodeVm r = some m) (fresh : s.queues.created v = false)
      (lt : v < cfg.vnodeNum)
      (hasTail : (s.queues.create v m bmqDefaultPrio).Tail cfg.vnodeNum v r tail)
      (queues : t.queues = (s.queues.create v m bmqDefaultPrio).insertAt v r tail)
      (lookup : ∀ r, lookedUp cfg s r a = none)
  | run (r m u i v) (node : s.queues.nodeVm r = some m) (demotion : Demotion cfg.vnodeNum s.queues r u)
      (lt : i < bmqBitmapSize) (lower : ∀ j < i, u.level r j = none) (first : u.level r i = some v)
      (queues : t.queues = u.takeRun r i v)
      (lookup : ∀ r', lookedUp cfg s r' a = if r' = r then some v else none)

/-! ### The levels of a node as a queue with demotion -/

namespace Queues

variable {q u : Queues} {n : Nat} {lists : RNode → Nat → List VNode}

/-- The levels of `r`. -/
def levelsAt (lists : RNode → Nat → List VNode) (r : RNode) (i : Nat) : List VNode :=
  if i < bmqBitmapSize then lists r i else []

/-- The vCPU that the VM of `r` runs or ran last, with its priority. -/
def running (q : Queues) (r : RNode) : Option (VNode × Nat) := (q.run r).map fun v => (v, q.prio v)

/-- The levels of `r`, and the vCPU that its VM runs or ran last. -/
def levelsOf (q : Queues) (lists : RNode → Nat → List VNode) (r : RNode) : Levels VNode where
  level := levelsAt lists r
  run := q.running r

theorem levelsAt_appendTo_self {r : RNode} {i : Nat} {v : VNode} (hi : i < bmqBitmapSize) :
    levelsAt (appendTo lists r i v) r =
      update (levelsAt lists r) i (levelsAt lists r i ++ [v]) := by
  funext j
  by_cases hj : j = i
  · subst hj
    simp [levelsAt, appendTo, hi]
  · simp [levelsAt, appendTo, hj]

theorem levelsAt_appendTo_of_ne {r r' : RNode} {i : Nat} {v : VNode} (hne : r' ≠ r) :
    levelsAt (appendTo lists r i v) r' = levelsAt lists r' := by
  funext j
  simp [levelsAt, appendTo, hne]

theorem levelsAt_dropFirst_self {r : RNode} {i : Nat} (hi : i < bmqBitmapSize) :
    levelsAt (dropFirst lists r i) r = update (levelsAt lists r) i (lists r i).tail := by
  funext j
  by_cases hj : j = i
  · subst hj
    simp [levelsAt, dropFirst, hi]
  · simp [levelsAt, dropFirst, hj]

theorem levelsAt_dropFirst_of_ne {r r' : RNode} {i : Nat} (hne : r' ≠ r) :
    levelsAt (dropFirst lists r i) r' = levelsAt lists r' := by
  funext j
  simp [levelsAt, dropFirst, hne]

theorem running_eq_some {r : RNode} {v : VNode} {i : Nat} (h : q.running r = some (v, i)) :
    q.run r = some v ∧ q.prio v = i := by
  obtain ⟨w, hw, heq⟩ := Option.map_eq_some_iff.mp h
  cases heq
  exact ⟨hw, rfl⟩

theorem running_congr {q' : Queues} {r : RNode} (hrun : q'.run r = q.run r)
    (hprio : ∀ v, q.run r = some v → q'.prio v = q.prio v) : q'.running r = q.running r := by
  unfold running
  rw [hrun]
  cases hv : q.run r with
  | none => rfl
  | some v => rw [Option.map_some, Option.map_some, hprio v hv]

/-- The links determine the levels. -/
theorem Lists.levelsAt_unique {lists' : RNode → Nat → List VNode} {r : RNode} {m : VmId}
    (h : q.Lists lists) (h' : q.Lists lists') (hr : q.nodeVm r = some m) :
    levelsAt lists r = levelsAt lists' r := by
  funext i
  unfold levelsAt
  split
  · rename_i hi
    exact (h.chain r m i hr hi).unique (h'.chain r m i hr hi)
  · rfl

theorem Lists.mem_levelsAt {r : RNode} {m : VmId} {i : Nat} {v : VNode} (h : q.Lists lists)
    (hr : q.nodeVm r = some m) (hv : v ∈ levelsAt lists r i) :
    i < bmqBitmapSize ∧ v ∈ lists r i ∧ q.created v = true ∧ q.vmOf v = m ∧ q.prio v = i := by
  unfold levelsAt at hv
  split at hv
  · rename_i hi
    exact ⟨hi, hv, h.mem r m i v hr hi hv⟩
  · cases hv

/-- Nothing is both the vCPU that ran last and in a level. -/
theorem Balanced.run_notMem {r : RNode} {m : VmId} {i : Nat} {v : VNode} (hbalanced : q.Balanced lists)
    (hlists : q.Lists lists) (hr : q.nodeVm r = some m) (hrun : q.run r = some v) :
    v ∉ levelsAt lists r i := by
  intro hv
  obtain ⟨hi, hmem, hcreated, hvm, -⟩ := hlists.mem_levelsAt hr hv
  refine ((hbalanced v hcreated).mp (hlists.inQueue hr hi hmem)).1 ⟨r, ?_, hrun⟩
  rw [Home, hvm]
  exact hr

theorem levelsOf_wf {r : RNode} {m : VmId} (hq : q.Wf n) (hlists : q.Lists lists)
    (hbalanced : q.Balanced lists) (hr : q.nodeVm r = some m)
    (hrange : ∀ v, q.created v = true → bmqDefaultPrio ≤ q.prio v ∧ q.prio v ≤ prioWidth - 1) :
    (q.levelsOf lists r).Wf bmqDefaultPrio (prioWidth - 1) := by
  refine ⟨fun v i j hi hj => ?_, fun i => ?_, fun v i j h => ?_, fun v i hv => ?_, fun v i h => ?_⟩
  · obtain ⟨-, -, -, -, rfl⟩ := hlists.mem_levelsAt hr hi
    obtain ⟨-, -, -, -, rfl⟩ := hlists.mem_levelsAt hr hj
    rfl
  · show (levelsAt lists r i).Nodup
    unfold levelsAt
    split
    · rename_i hi
      exact (hlists.chain r m i hr hi).nodup
    · exact List.nodup_nil
  · exact hbalanced.run_notMem hlists hr (running_eq_some h).1
  · obtain ⟨-, -, hcreated, -, rfl⟩ := hlists.mem_levelsAt hr hv
    exact hrange v hcreated
  · obtain ⟨hv, rfl⟩ := running_eq_some h
    exact hrange v (hq.run_mem r m v hr hv).1

end Queues

open Queues

variable {n : Nat} {q u : Queues} {lists : RNode → Nat → List VNode} {r : RNode} {m : VmId}

theorem Demotion.requeue (h : Demotion n q r u) (hsleep : q.sleep = none) : q.Requeue n r u := by
  cases h with
  | first run =>
    refine .keep fun v hv => ?_
    rw [run] at hv
    cases hv
  | demote w tail run hasTail =>
    refine .insert w _ tail run (by simp [hsleep]) ?_ hasTail
    simp only [prioWidth, bmqBitmapSize]
    omega

theorem Demotion.created (h : Demotion n q r u) : u.created = q.created := by
  cases h <;> rfl

/-- A demotion in one VM changes no priority of another one. -/
theorem Demotion.prio_of_ne {r' : RNode} {m' : VmId} {v : VNode} (h : Demotion n q r' u)
    (hq : q.Wf n) (hr' : q.nodeVm r' = some m') (hr : q.nodeVm r = some m) (hne : r ≠ r')
    (hrun : q.run r = some v) : u.prio v = q.prio v := by
  cases h with
  | first => rfl
  | demote w tail run =>
    have hvw : v ≠ w := by
      rintro rfl
      obtain ⟨-, hvm⟩ := hq.run_mem r m v hr hrun
      obtain ⟨-, hvm'⟩ := hq.run_mem r' m' v hr' run
      obtain rfl : m = m' := hvm.symm.trans hvm'
      exact hne (hq.node_unique r r' m hr hr')
    simp only [Queues.insertAt, Queues.setPrio, update_of_ne hvw]

/-- The vCPU that ran before goes to the end of the level below. -/
theorem Demotion.levels (h : Demotion n q r u) (hq : q.Wf n) (hlists : q.Lists lists)
    (hbalanced : q.Balanced lists) (hr : q.nodeVm r = some m) :
    ∃ lists', u.Lists lists' ∧ (∀ r', r' ≠ r → levelsAt lists' r' = levelsAt lists r') ∧
      Levels.Run bmqDefaultPrio (prioWidth - 1) (q.levelsOf lists r) []
        ⟨levelsAt lists' r, none⟩ := by
  cases h with
  | first run =>
    refine ⟨lists, hlists, fun _ _ => rfl, ?_⟩
    have hnone : q.levelsOf lists r = ⟨levelsAt lists r, none⟩ := by
      rw [levelsOf, running, run, Option.map_none]
    rw [hnone]
    exact .nil _
  | demote w tail run hasTail =>
    obtain ⟨hw, hvm⟩ := hq.run_mem r m w hr run
    have hhome : q.Home w r := hr.trans (congrArg some hvm.symm)
    have hout : ¬q.InQueue lists w := fun hin => ((hbalanced w hw).mp hin).1 ⟨r, hhome, run⟩
    have hprio : min (q.prio w + 1) (prioWidth - 1) < bmqBitmapSize := by
      simp only [prioWidth, bmqBitmapSize]
      omega
    obtain ⟨hset, hin⟩ := hlists.setPrio hout hprio
    obtain ⟨hlists', -⟩ := hset.insertAt (hq.setPrio hprio) hw hhome hasTail (by rwa [hin])
    have hnew : (q.setPrio w (min (q.prio w + 1) (prioWidth - 1))).prio w =
        min (q.prio w + 1) (prioWidth - 1) := by simp [Queues.setPrio]
    rw [hnew] at hlists'
    refine ⟨_, hlists', fun r' hne => levelsAt_appendTo_of_ne hne, ?_⟩
    have hrun : (q.levelsOf lists r).run = some (w, q.prio w) := by
      rw [levelsOf, running, run, Option.map_some]
    rw [levelsAt_appendTo_self hprio]
    have hstep : Levels.Step bmqDefaultPrio (prioWidth - 1) (q.levelsOf lists r) none _ :=
      .demote w (q.prio w) hrun
    exact .single hstep

/-- What `bmq_scheduler` does to the levels of its node. -/
theorem Demotion.run_levels {i : Nat} {v : VNode} (h : Demotion n q r u) (hq : q.Wf n)
    (hsleep : q.sleep = none) (hlists : q.Lists lists) (hbalanced : q.Balanced lists)
    (hr : q.nodeVm r = some m) (lt : i < bmqBitmapSize) (lower : ∀ j < i, u.level r j = none)
    (first : u.level r i = some v) :
    ∃ lists', (u.takeRun r i v).Lists lists' ∧
      (∀ r', r' ≠ r → levelsAt lists' r' = levelsAt lists r') ∧
      Levels.Run bmqDefaultPrio (prioWidth - 1) (q.levelsOf lists r) [v]
        ((u.takeRun r i v).levelsOf lists' r) := by
  obtain ⟨lists₁, hlists₁, hother, hdemoted⟩ := h.levels hq hlists hbalanced hr
  have hrequeue := h.requeue hsleep
  have hu := hrequeue.wf hq hr
  have hur : u.nodeVm r = some m := by
    rw [hrequeue.nodeVm]
    exact hr
  obtain ⟨-, hlists', -⟩ := hlists₁.takeRun hu hur lt first
  refine ⟨_, hlists', fun r' hne => (levelsAt_dropFirst_of_ne hne).trans (hother r' hne), ?_⟩
  have hchain := hlists₁.chain r m i hur lt
  rw [first] at hchain
  obtain ⟨rest, hrest, -⟩ := chain_some.mp hchain
  have hempty (j) (hj : j < i) : levelsAt lists₁ r j = [] := by
    have hlt : j < bmqBitmapSize := Nat.lt_trans hj lt
    have hnone := hlists₁.chain r m j hur hlt
    rw [lower j hj, chain_none] at hnone
    rw [levelsAt, if_pos hlt, hnone]
  have hfirst : levelsAt lists₁ r i = v :: rest := by
    rw [levelsAt, if_pos lt, hrest]
  have hprio : u.prio v = i := by
    have hmem : v ∈ lists₁ r i := by
      rw [hrest]
      exact List.mem_cons_self
    exact (hlists₁.mem r m i v hur lt hmem).2.2
  have hchoose : Levels.Step bmqDefaultPrio (prioWidth - 1) ⟨levelsAt lists₁ r, none⟩ (some v) _ :=
    .choose v i rest rfl hempty hfirst
  have hend : (u.takeRun r i v).levelsOf (dropFirst lists₁ r i) r =
      ⟨update (levelsAt lists₁ r) i rest, some (v, i)⟩ := by
    rw [levelsOf, levelsAt_dropFirst_self lt, hrest, List.tail_cons]
    simp [running, Queues.takeRun, hprio]
  rw [hend]
  exact hdemoted.append (.single hchoose)

/-! ### The steps of the scheduler are such steps -/

theorem lookedUp_resume {c : PCpuId} (hbmq : (s.cpus c).pc ≠ .bmq)
    (hlookup : ∀ r, (s.cpus c).pc ≠ .bmqLookup r) (r : RNode) :
    lookedUp cfg s r (.resume c) = none := by
  simp only [lookedUp]

theorem VCpuNode.Demoted.of_ranks {v : VNode} (h : (s.vpnodeMemory v).Demoted)
    (hranks : t.ranks v = s.ranks v) : (t.vpnodeMemory v).Demoted := by
  simp only [SchedState.ranks, Prod.mk.injEq] at hranks
  obtain ⟨hstatic, hadj, hprio⟩ := hranks
  simpa only [VCpuNode.Demoted, hstatic, hadj, hprio] using h

theorem demoted_withVnode {v w : VNode} {vp : VcpuRef}
    (h : w ≠ v → (s.vpnodeMemory w).Demoted) :
    ((s.withVnode v vp bmqDefaultPrio).vpnodeMemory w).Demoted := by
  by_cases hwv : w = v
  · subst hwv
    simp only [SchedState.withVnode, SchedState.modifyVnode, update_self]
    exact ⟨rfl, Int.le_refl 0, (by decide : (0 : Int) ≤ maxprioAdj),
      (by decide : (bmqDefaultPrio : Int) = min (bmqDefaultPrio + 0) (prioWidth - 1))⟩
  · simp only [SchedState.withVnode, SchedState.modifyVnode, update_of_ne hwv]
    exact h hwv

/-- The first part of `bmq_scheduler` in a run without sleep hypercalls. -/
theorem bmqRequeue_demotion {u : SchedState} (hs : SchedWf cfg s) (hcalm : Calm s)
    (hr : (s.rqnodeMemory r).vm = some m) (h : bmqRequeue cfg s r = some u) :
    Demotion cfg.vnodeNum s.queues r u.queues ∧ ∀ v, s.Created v → (u.vpnodeMemory v).Demoted := by
  rcases bmqRequeue_eq_some h with ⟨rfl, hsleeps⟩ | ⟨v, hrun, -, hinsert⟩
  · refine ⟨.first ?_, hcalm.demoted⟩
    cases hrun : u.queues.run r with
    | none => rfl
    | some v => exact absurd (hcalm.sleep.symm.trans (hsleeps v hrun)) (by simp)
  · obtain ⟨hv, -⟩ := hs.queues.run_mem r m v hr hrun
    obtain ⟨hdemoted, hprio⟩ := (hcalm.demoted v hv).prioManage
    obtain ⟨tail, htail, hqueues⟩ := queues_vTaskInsert hinsert
    have hset : (s.requeued v).queues =
        s.queues.setPrio v (min (s.queues.prio v + 1) (prioWidth - 1)) := by
      rw [show s.queues.prio v = (s.vpnodeMemory v).prio from rfl, ← hprio]
      exact queues_modifyVnode s v (fun _ => rfl) fun _ => rfl
    rw [hset] at htail hqueues
    rw [hqueues]
    refine ⟨.demote v tail hrun htail, fun w hw => ?_⟩
    have hranks := ranks_vTaskInsert hinsert
    by_cases hwv : w = v
    · subst hwv
      refine VCpuNode.Demoted.of_ranks (s := s.requeued w) ?_ (congrFun hranks w)
      simp only [SchedState.requeued, SchedState.modifyVnode, update_self]
      exact hdemoted
    · refine (hcalm.demoted w hw).of_ranks ?_
      rw [hranks, SchedState.requeued, ranks_modifyVnode, update_of_ne hwv]

theorem ranks_bmqRun_return (s : SchedState) (c : PCpuId) (r : RNode) (v : VNode) :
    (tryRescheduleReturn (bmqRun s c r v) c).ranks = s.ranks :=
  ranks_modifyVnode_same s v (f := fun n => { n with
    state := .running
    timeSlice := BitVec.ofNat 64 bmqRrInterval
    needResched := false }) (fun _ => rfl) (fun _ => rfl) fun _ => rfl

/-- A VM whose vCPU nodes are not asleep has one in its queues for `bmq_scheduler`. -/
theorem Calm.not_spin (hcalm : Calm s) (hs : SchedWf cfg s) (h : SchedStep cfg s a t) (c : PCpuId)
    (r : RNode) : (t.cpus c).pc ≠ .bmqLookup r := by
  intro hpc
  by_cases hc : c = a.cpu
  · subst hc
    obtain ⟨hsame, hcase, hempty⟩ := h.spin hs hpc
    obtain ⟨m, hm⟩ := (hs.step h).node ((hs.step h).bmqLookup a.cpu r hpc)
    have hnode : s.queues.nodeVm r = some m := by
      rw [← hsame]
      exact hm
    have hrun : s.queues.run r = none := by
      apply Option.eq_none_iff_forall_ne_some.mpr
      intro v hv
      have hsleeps := (hcase.resolve_left (hcalm.spin a.cpu r)) v hv
      rw [show s.queues.sleep = none from hcalm.sleep] at hsleeps
      cases hsleeps
    obtain ⟨i, hi, hlevel⟩ := hs.started r m hnode hrun
    exact hlevel (hempty i hi)
  · obtain ⟨p, -, hcpus⟩ := h.cpus
    rw [hcpus, update_of_ne hc] at hpc
    exact hcalm.spin c r hpc

theorem SchedStep.calmStep (h : SchedStep cfg s a t) (hs : SchedWf cfg s) (hcalm : Calm s)
    (hio : ∀ c, a ≠ .call c .schedIoHandler) :
    CalmStep cfg s a t ∧ ∀ v, t.Created v → (t.vpnodeMemory v).Demoted := by
  have hstay {u : SchedState} (hqueues : u.queues = s.queues) (hranks : u.ranks = s.ranks)
      (hlookup : ∀ r, lookedUp cfg s r a = none) :
      CalmStep cfg s a u ∧ ∀ v, u.Created v → (u.vpnodeMemory v).Demoted := by
    refine ⟨.stay hqueues hlookup, fun v hv => ?_⟩
    have hcreated : s.queues.created v = true := hqueues ▸ hv
    exact (hcalm.demoted v hcreated).of_ranks (congrFun hranks v)
  cases h with
  | haltCall => exact hstay rfl rfl fun _ => rfl
  | haltResume c h =>
    refine hstay rfl rfl fun r => ?_
    cases hpc : (s.cpus c).pc with
    | bmq =>
      simp only [lookedUp, hpc]
      split
      · rename_i hr
        simp only [resumeEffect, hpc, hr, Option.bind_some, Option.some.injEq] at h
        cases hrequeue : bmqRequeue cfg s r with
        | none => rfl
        | some u =>
          rw [hrequeue, Option.bind_some] at h
          rw [Option.bind_some, Option.map_eq_none_iff.mp h, Option.bind_none]
      · rfl
    | bmqLookup r' => exact absurd hpc (hcalm.spin c r')
    | _ => exact lookedUp_resume (by simp [hpc]) (by simp [hpc]) r
  | tickWait => exact hstay rfl rfl fun _ => rfl
  | tickClock => exact hstay rfl rfl fun _ => rfl
  | tickCount r v pc rqnode run flag => exact absurd (Int.lt_trans Int.one_pos flag) hcalm.flag
  | tickWake r v u q w pc rqnode run flag =>
    exact absurd (flag ▸ Int.one_pos : s.ioSleepFlag > 0) hcalm.flag
  | tickLeave c r v pc =>
    refine hstay (queues_updateTaskTimesLeave ..) ?_ (lookedUp_resume (by simp [pc]) (by simp [pc]))
    exact ranks_modifyVnode_same s v (f := tickVnode cfg) (fun _ => rfl) (fun _ => rfl) fun _ => rfl
  | reschedBusy => exact hstay rfl rfl fun _ => rfl
  | reschedFirst => exact hstay rfl rfl fun _ => rfl
  | reschedVm c r u pc flag rqnode expire =>
    have hqueues : u.queues = (reschedEntered s c).queues := queues_bfsExpire expire
    refine hstay hqueues ?_ fun _ => rfl
    obtain ⟨-, rfl⟩ := bfsExpire_eq_some expire
    rfl
  | reschedVcpu => exact hstay rfl rfl fun _ => rfl
  | reschedKeep => exact hstay rfl rfl fun _ => rfl
  | start c arg0 r m v u w pc rqnode vm arg create insert =>
    obtain ⟨hlt, hfree, rfl⟩ := initializeVCpuNode_eq_some create
    obtain ⟨tail, htail, hqueues⟩ := queues_vTaskInsert insert
    have hranks := ranks_vTaskInsert insert
    rw [queues_withVnode] at htail hqueues
    refine ⟨.start v r m tail vm hfree hlt htail hqueues fun _ => rfl, fun w' hw' => ?_⟩
    refine VCpuNode.Demoted.of_ranks (s := s.withVnode v ⟨m, arg0⟩ bmqDefaultPrio) ?_
      (congrFun hranks w')
    refine demoted_withVnode fun hwv => ?_
    have hold : t.queues.created w' = true := hw'
    rw [hqueues] at hold
    simp only [Queues.insertAt, Queues.create, update_of_ne hwv] at hold
    exact hcalm.demoted w' hold
  | sleep c => exact absurd rfl (hio c)
  | bfsInsert c r u pc rqnode insert =>
    have hqueues : u.queues = s.queues := queues_rqInsert insert
    refine hstay hqueues ?_ (lookedUp_resume (by simp [pc]) (by simp [pc]))
    obtain ⟨head, -, rfl⟩ := rqInsert_eq_some insert
    rfl
  | bfsMiss c u pc lookup =>
    refine hstay (queues_pTaskLookup lookup) ?_ (lookedUp_resume (by simp [pc]) (by simp [pc]))
    rw [pTaskLookup_eq_none lookup]
  | bfsHit c r u pc lookup =>
    have hqueues : u.queues = s.queues := queues_pTaskLookup lookup
    refine hstay hqueues ?_ (lookedUp_resume (by simp [pc]) (by simp [pc]))
    obtain ⟨-, -, -, hremove⟩ := pTaskLookup_eq_some lookup
    obtain ⟨p, -, rfl⟩ := rqRemove_eq_some hremove
    rfl
  | bfsRun c r u pc run =>
    obtain ⟨m, -, rfl⟩ := bfsRun_eq_some run
    exact hstay (queues_bfsAssign s c r m) rfl (lookedUp_resume (by simp [pc]) (by simp [pc]))
  | bmqSpin c r u w pc rqnode requeue lookup =>
    obtain ⟨-, rfl⟩ := vTaskLookup_eq_none lookup
    have hend := SchedStep.bmqSpin c r w w pc rqnode requeue lookup
    refine absurd ?_ (hcalm.not_spin hs hend c r)
    rw [setPc_cpus, update_self]
  | bmqRun c r u v w pc rqnode requeue lookup =>
    obtain ⟨m, hm⟩ := hs.node rqnode
    obtain ⟨hdemotion, hdemoted⟩ := bmqRequeue_demotion hs hcalm hm requeue
    have hrequeue := hdemotion.requeue hcalm.sleep
    have hu := hrequeue.wf hs.queues hm
    have hum : u.queues.nodeVm r = some m := by
      rw [hrequeue.nodeVm]
      exact hm
    obtain ⟨i, hfirst, hlevel, hw⟩ := vTaskLookup_eq_some lookup
    have htake : (tryRescheduleReturn (Avisor.bmqRun w c r v) c).queues = u.queues.takeRun r i v := by
      rw [queues_bmqRun_return, hw, queues_relink]
      rfl
    refine ⟨.run r m u.queues i v hm hdemotion (firstLevel_eq_some hfirst).1 (fun j hj => ?_) hlevel
      htake fun r' => ?_, fun v' hv' => ?_⟩
    · by_contra hnone
      have hbit := (hu.bit r m j hum (Nat.lt_trans hj (firstLevel_eq_some hfirst).1)).mpr hnone
      rw [show (u.queues.bitmap r).getLsbD j = false from firstLevel_lower hfirst hj] at hbit
      cases hbit
    · simp only [lookedUp, pc, rqnode, Option.some.injEq, eq_comm]
      split
      · rename_i hr
        subst hr
        rw [requeue, Option.bind_some, lookup, Option.bind_some]
      · rfl
    · have hcreated : (tryRescheduleReturn (Avisor.bmqRun w c r v) c).queues.created v' = true := hv'
      rw [htake] at hcreated
      have hold : s.queues.created v' = true := by
        rw [← hdemotion.created]
        exact hcreated
      refine (hdemoted v' hold).of_ranks ?_
      rw [ranks_bmqRun_return, ranks_vTaskLookup lookup]
  | bmqMiss c r u pc => exact absurd pc (hcalm.spin c r)
  | bmqFind c r v u pc => exact absurd pc (hcalm.spin c r)

theorem CalmStep.inPlace (h : CalmStep cfg s a t) (hs : SchedWf cfg s) (hcalm : Calm s) :
    t.queues.InPlace ∧ t.queues.sleep = none ∧ t.queues.flag = s.queues.flag := by
  cases h with
  | stay queues =>
    rw [queues]
    exact ⟨hcalm.inPlace, hcalm.sleep, rfl⟩
  | start v r m tail node fresh lt hasTail queues =>
    rw [queues]
    exact ⟨start_inPlace hs.queues hcalm.inPlace node fresh lt (by decide) hasTail, hcalm.sleep, rfl⟩
  | run r m u i v node demotion lt lower first queues =>
    have hrequeue := demotion.requeue hcalm.sleep
    obtain ⟨lists, hlists, hbalanced⟩ := hrequeue.balanced hs.queues hcalm.inPlace node
    have hnode : u.nodeVm r = some m := by
      rw [hrequeue.nodeVm]
      exact node
    have hsame : u.sleep = s.queues.sleep ∧ u.flag = s.queues.flag := by
      cases demotion <;> exact ⟨rfl, rfl⟩
    rw [queues]
    exact ⟨run_inPlace (hrequeue.wf hs.queues node) hlists hbalanced hnode lt first,
      hsame.1.trans hcalm.sleep, hsame.2⟩

theorem Calm.step (hcalm : Calm s) (hs : SchedWf cfg s) (h : SchedStep cfg s a t)
    (hio : ∀ c, a ≠ .call c .schedIoHandler) : Calm t := by
  obtain ⟨hstep, hdemoted⟩ := h.calmStep hs hcalm hio
  obtain ⟨hinPlace, hsleep, hflag⟩ := hstep.inPlace hs hcalm
  refine ⟨hsleep, ?_, hcalm.not_spin hs h, hinPlace, hdemoted⟩
  rw [show t.ioSleepFlag = s.ioSleepFlag from hflag]
  exact hcalm.flag

/-- The nodes and the sleep slot while the VMs are made. -/
structure BootCalm (s : SchedState) : Prop where
  sleep : s.sleepVnode = none
  flag : s.ioSleepFlag = 0
  demoted : ∀ v, s.Created v → (s.vpnodeMemory v).Demoted

theorem BootCalm.vmInit {n : Nat} (h : BootCalm s) (ht : vmInit cfg s n = some t) : BootCalm t := by
  obtain ⟨u, r, v, w, hmade, -, -, -, -, hinsert, hlink⟩ := vmInit_eq_some ht
  have hmaster : BootCalm (vmMasterInit cfg s n) := ⟨h.sleep, h.flag, h.demoted⟩
  have hhead : BootCalm u := by
    cases hmade with
    | first r => exact ⟨hmaster.sleep, hmaster.flag, hmaster.demoted⟩
    | later => exact hmaster
  have hranks := ranks_vTaskInsert hinsert
  obtain ⟨next, levels, hw, -⟩ := vTaskInsert_eq_some hinsert
  obtain ⟨head, -, rfl⟩ := rqInsert_eq_some hlink
  refine ⟨?_, ?_, fun x hx => ?_⟩
  · rw [hw]
    exact hhead.sleep
  · rw [hw]
    exact hhead.flag
  · have hx : bitmapGet w.vpnodeMemBitmap x = true := hx
    have hbitmap : w.vpnodeMemBitmap = bitmapSet u.vpnodeMemBitmap v := by
      rw [hw]
      rfl
    rw [hbitmap, bitmapGet_set] at hx
    refine VCpuNode.Demoted.of_ranks (s := (u.withRqnode r (some n) bfsDefaultPrio).withVnode v
      ⟨n, 0⟩ bmqDefaultPrio) (demoted_withVnode fun hxv => ?_) (congrFun hranks x)
    simp only [hxv, decide_false, Bool.false_or] at hx
    exact hhead.demoted x hx

theorem bootCalm_vmmInit (n : Nat) {s : SchedState} (h : vmmInit cfg n = some s) : BootCalm s := by
  induction n generalizing s with
  | zero =>
    cases h
    exact ⟨rfl, rfl, fun v hv => by simp [SchedState.Created, schedBoot, bitmapGet] at hv⟩
  | succ n ih =>
    obtain ⟨u, hu, h⟩ := Option.bind_eq_some_iff.mp h
    exact (ih hu).vmInit h

theorem calm_init (h : (schedMachine cfg).Init s) : Calm s := by
  have hboot := (vmmInit_wf cfg.nrVms h).1
  have hcalm := bootCalm_vmmInit cfg.nrVms h
  refine ⟨hcalm.sleep, ?_, fun c r hpc => ?_, hboot.inPlace, hcalm.demoted⟩
  · rw [hcalm.flag]
    exact Int.lt_irrefl 0
  · rw [(hboot.cpus c).1] at hpc
    cases hpc

/-! ### Runs -/

/-- A started vCPU goes to the end of its level. -/
theorem start_levels {v : VNode} {r' : RNode} {m' : VmId} {tail : Option VNode} (hq : q.Wf n)
    (hlists : q.Lists lists) (hr : q.nodeVm r = some m) (node : q.nodeVm r' = some m')
    (fresh : q.created v = false) (lt : v < n)
    (hasTail : (q.create v m' bmqDefaultPrio).Tail n v r' tail) :
    ∃ lists', ((q.create v m' bmqDefaultPrio).insertAt v r' tail).Lists lists' ∧
      Levels.Run bmqDefaultPrio (prioWidth - 1) (q.levelsOf lists r) []
        (((q.create v m' bmqDefaultPrio).insertAt v r' tail).levelsOf lists' r) := by
  obtain ⟨hcreate, hout, -⟩ := hlists.create (m := m') (p := bmqDefaultPrio) fresh
  have hprio : (q.create v m' bmqDefaultPrio).prio v = bmqDefaultPrio := by simp [Queues.create]
  have hcreated : (q.create v m' bmqDefaultPrio).created v = true := by simp [Queues.create]
  have hhome : (q.create v m' bmqDefaultPrio).Home v r' := by
    simp only [Home, Queues.create, update_self]
    exact node
  obtain ⟨hlists', -⟩ := hcreate.insertAt (hq.create fresh lt (by decide)) hcreated hhome hasTail
    (hout (by decide))
  rw [hprio] at hlists'
  refine ⟨_, hlists', ?_⟩
  have hfresh {w} (hw : q.created w = true) : w ≠ v := by
    rintro rfl
    rw [fresh] at hw
    cases hw
  have hlast {w} (hw : q.run r = some w) : w ≠ v := hfresh (hq.run_mem r m w hr hw).1
  have hrun : ((q.create v m' bmqDefaultPrio).insertAt v r' tail).running r = q.running r :=
    running_congr rfl fun w hw => update_of_ne (hlast hw) ..
  have hend : ((q.create v m' bmqDefaultPrio).insertAt v r' tail).levelsOf
      (appendTo lists r' bmqDefaultPrio v) r =
      ⟨levelsAt (appendTo lists r' bmqDefaultPrio v) r, q.running r⟩ := by
    rw [levelsOf, hrun]
  rw [hend]
  by_cases hne : r = r'
  · subst hne
    have hstep : Levels.Step bmqDefaultPrio (prioWidth - 1) (q.levelsOf lists r) none
        ((q.levelsOf lists r).append v bmqDefaultPrio) := by
      refine .enter v (fun i hv => ?_) fun i hv => ?_
      · obtain ⟨-, -, hold, -⟩ := hlists.mem_levelsAt hr hv
        exact hfresh hold rfl
      · exact hlast (running_eq_some hv).1 rfl
    rw [levelsAt_appendTo_self (by decide)]
    exact .single hstep
  · rw [levelsAt_appendTo_of_ne hne]
    exact .nil _

/-- A step is a run of the queue with demotion that chooses what `v_task_lookup` returns. -/
theorem CalmStep.levels (h : CalmStep cfg s a t) (hs : SchedWf cfg s) (hcalm : Calm s)
    (hr : s.queues.nodeVm r = some m) (hlists : s.queues.Lists lists)
    (hbalanced : s.queues.Balanced lists) :
    ∃ lists', t.queues.Lists lists' ∧
      Levels.Run bmqDefaultPrio (prioWidth - 1) (s.queues.levelsOf lists r)
        (lookedUp cfg s r a).toList (t.queues.levelsOf lists' r) := by
  cases h with
  | stay queues lookup =>
    rw [queues, lookup r]
    exact ⟨lists, hlists, .nil _⟩
  | start v r₁ m₁ tail node fresh lt hasTail queues lookup =>
    rw [queues, lookup r]
    exact start_levels hs.queues hlists hr node fresh lt hasTail
  | run r₁ m₁ u i v node demotion lt lower first queues lookup =>
    obtain ⟨lists', hlists', hother, hrun⟩ :=
      demotion.run_levels hs.queues hcalm.sleep hlists hbalanced node lt lower first
    rw [queues, lookup r]
    refine ⟨lists', hlists', ?_⟩
    by_cases hne : r = r₁
    · subst hne
      rw [if_pos rfl]
      exact hrun
    · have hsame : (u.takeRun r₁ i v).running r = s.queues.running r := by
        refine running_congr ?_ fun w hw => demotion.prio_of_ne hs.queues node hr hne hw
        rw [← (demotion.requeue hcalm.sleep).run]
        exact update_of_ne hne ..
      have hend : (u.takeRun r₁ i v).levelsOf lists' r = s.queues.levelsOf lists r := by
        rw [levelsOf, hother r hne, hsame, levelsOf]
      rw [if_neg hne, hend]
      exact .nil _

/-- What `v_task_lookup` returns in a run is what the queue with demotion chooses. -/
theorem Calm.lookups_run {as : List Action} (hcalm : Calm s) (hs : SchedWf cfg s)
    (hio : ∀ a ∈ as, ∀ c, a ≠ .call c .schedIoHandler) (hr : s.queues.nodeVm r = some m)
    (hlists : s.queues.Lists lists) (hbalanced : s.queues.Balanced lists) :
    ∃ q, Levels.Run bmqDefaultPrio (prioWidth - 1) (s.queues.levelsOf lists r) (lookups cfg r s as)
      q := by
  induction as generalizing s lists with
  | nil => exact ⟨_, .nil _⟩
  | cons a as ih =>
    simp only [lookups]
    split
    · exact ⟨_, .nil _⟩
    · rename_i t ht
      have hstep := step_schedStep ht
      have hnow := hio a List.mem_cons_self
      obtain ⟨lists', hlists', hfirst⟩ :=
        (hstep.calmStep hs hcalm hnow).1.levels hs hcalm hr hlists hbalanced
      have hcalm' := hcalm.step hs hstep hnow
      obtain ⟨lists'', hlists'', hbalanced''⟩ := hcalm'.inPlace
      obtain ⟨e, -, hmove⟩ := hstep.move hs
      have hr' : t.queues.nodeVm r = some m := by
        rw [hmove.nodeVm]
        exact hr
      have hsame : t.queues.levelsOf lists' r = t.queues.levelsOf lists'' r := by
        rw [levelsOf, hlists'.levelsAt_unique hlists'' hr', levelsOf]
      rw [hsame] at hfirst
      obtain ⟨q, hrest⟩ := ih hcalm' (hs.step hstep) (fun b hb => hio b (List.mem_cons_of_mem a hb))
        hr' hlists'' hbalanced''
      exact ⟨q, hfirst.append hrest⟩

theorem Reachable.calm {as : List Action} {s₀ : SchedState} (init : (schedMachine cfg).Init s₀)
    (run : (schedMachine cfg).Run s₀ as s) (hio : ∀ a ∈ as, ∀ c, a ≠ .call c .schedIoHandler) :
    Calm s := by
  have hwf := (vmmInit_wf cfg.nrVms init).1.sched
  have hcalm := calm_init init
  clear init
  induction run with
  | nil => exact hcalm
  | cons hfirst _ ih =>
    have hstep := step_schedStep hfirst
    exact ih (fun b hb => hio b (List.mem_cons_of_mem _ hb)) (hwf.step hstep)
      (hcalm.step hwf hstep (hio _ List.mem_cons_self))

/-- Without sleep hypercalls, while a vCPU waits in a level every other vCPU of the VM is returned by
`v_task_lookup` at most `PRIO_WIDTH - 1 - bmq_default_prio` times. -/
theorem overtaken_le {s₀ : SchedState} {before as : List Action} {v w : VNode}
    (init : (schedMachine cfg).Init s₀) (run : (schedMachine cfg).Run s₀ before s)
    (hio : ∀ a ∈ before ++ as, ∀ c, a ≠ .call c .schedIoHandler)
    (hr : (s.rqnodeMemory r).vm = some m) (waiting : Waiting s r v)
    (hout : v ∉ lookups cfg r s as) (hwv : w ≠ v) :
    (lookups cfg r s as).count w ≤ prioWidth - 1 - bmqDefaultPrio := by
  have hs := Reachable.schedWf ⟨s₀, before, init, run⟩
  have hcalm := Reachable.calm init run fun a ha => hio a (List.mem_append_left _ ha)
  obtain ⟨lists, hlists, hbalanced⟩ := hcalm.inPlace
  obtain ⟨q, hrun⟩ := hcalm.lookups_run hs (fun a ha => hio a (List.mem_append_right _ ha)) hr hlists
    hbalanced
  have hwf := levelsOf_wf hs.queues hlists hbalanced hr fun x hx => (hcalm.demoted x hx).range
  obtain ⟨i, hi, l, hl, hv⟩ := waiting
  have hmem : v ∈ (s.queues.levelsOf lists r).level i := by
    show v ∈ levelsAt lists r i
    rw [levelsAt, if_pos hi, ← hl.unique (hlists.chain r m i hr hi)]
    exact hv
  exact hrun.count_le_of_waiting (by decide) hwf hmem hout hwv

/-- The first vCPU of the VM has used up a slice and waits; the second one runs. -/
def startOther : List Action :=
  [.call 0 .tryReschedule, .resume 0, .resume 0, .resume 0, .call 0 (.schedStartHandler 1),
    .call 0 .updateTaskTimes, .resume 0, .call 0 .tryReschedule, .resume 0]

/-- The second one starts another one and uses up its slice. -/
def startThird : List Action :=
  [.call 0 (.schedStartHandler 1), .call 0 .updateTaskTimes, .resume 0, .call 0 .tryReschedule,
    .resume 0]

/-- The state in which it starts it. -/
def startedOther : SchedState := ((schedMachine smallConfig).run smallBoot startOther).getD smallBoot

theorem overtaken_le_startThird : lookups smallConfig 1 startedOther startThird = [2] ∧
    (lookups smallConfig 1 startedOther startThird).count 2 ≤ prioWidth - 1 - bmqDefaultPrio := by
  have hlookups : lookups smallConfig 1 startedOther startThird = [2] := by decide
  have hsome : ((schedMachine smallConfig).run smallBoot startOther).isSome = true := by decide
  obtain ⟨t, ht⟩ := Option.isSome_iff_exists.mp hsome
  have hstate : startedOther = t := by
    rw [startedOther, ht]
    rfl
  have hwaits : (startedOther.level 1 6, startedOther.vnext 0) = (some 0, none) := by decide
  refine ⟨hlookups, overtaken_le (v := 0) (m := 0) smallBoot_init
    (Machine.run_eq_some_iff.mp (hstate ▸ ht)) (by simp [startOther, startThird]) (by decide) ?_ ?_
    (by decide)⟩
  · obtain ⟨hfirst, hlast⟩ := Prod.mk.injEq .. ▸ hwaits
    exact ⟨6, by decide, [0], ⟨hfirst, hlast⟩, List.mem_singleton_self 0⟩
  · rw [hlookups]
    decide

end Avisor
