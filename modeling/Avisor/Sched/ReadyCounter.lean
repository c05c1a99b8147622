import Avisor.Sched.MultiQueue

/-!
# The ready counter

`nr_vcpu_ready` of a run queue node is kept beside its lists: `initialize_rqnode` sets it to the
number of vCPUs of the VM, `v_task_insert` adds one and `v_task_lookup` takes one away. It is too
large by the number of vCPUs, whatever calls follow.
-/

namespace Avisor

open Function LinkedList PriorityQueue

/-- The vCPU nodes linked in the levels of `r`. -/
def SchedState.linkedNodes (s : SchedState) (cfg : SchedConfig) (r : RNode) : List VNode :=
  (List.range bmqBitmapSize).flatMap fun i => (walk s.vnext cfg.vnodeNum (s.level r i)).getD []

/-- The calls that work on the queue of a run queue node, and what must happen between them: a pCPU
takes the VM, and time passes. -/
inductive QueueCall
  | vTaskInsert (vnode : VNode)
  | vTaskLookup
  | schedStartHandler (c : PCpuId) (arg0 : Nat)
  /-- `bmq_scheduler` up to the first round of its loop. -/
  | bmqScheduler (c : PCpuId)
  /-- A further round of that loop. -/
  | bmqLoop (c : PCpuId)
  /-- `bfs_scheduler` behind its loop. -/
  | bfsScheduler (c : PCpuId)
  /-- `update_task_times` behind its barrier. -/
  | updateTaskTimes (c : PCpuId)
  deriving DecidableEq, Repr

/-- The effect of a call on the queue of `r`. -/
def queueCallEffect (cfg : SchedConfig) (r : RNode) (s : SchedState) : QueueCall → Option SchedState
  | .vTaskInsert vnode => vTaskInsert cfg s vnode r
  | .vTaskLookup => (vTaskLookup s r).map (·.2)
  | .schedStartHandler c arg0 => schedStartHandler cfg s c arg0
  | .bmqScheduler c => (bmqRequeue cfg s r).bind fun s => bmqLookupRound s c r
  | .bmqLoop c => bmqLookupRound s c r
  | .bfsScheduler c => bfsRun s c r
  | .updateTaskTimes c => (s.rqnodeMemory r).runVnode.map (updateTaskTimesLeave cfg s c r)

/-- What the callers see to: a node that goes into the queue was handed out and is not queued, and a
start hypercall comes from a pCPU that runs the VM. -/
def QueueCallable (cfg : SchedConfig) (r : RNode) (s : SchedState) : QueueCall → Prop
  | .vTaskInsert vnode => s.Created vnode ∧ s.Queueable cfg vnode ∧ vnode ∉ s.linkedNodes cfg r
  | .vTaskLookup | .bmqLoop _ | .bfsScheduler _ | .updateTaskTimes _ => True
  | .schedStartHandler c _ => (s.cpus c).rqnode = some r
  | .bmqScheduler _ => ∀ v ∈ (s.rqnodeMemory r).runVnode, v ∉ s.linkedNodes cfg r

instance (cfg : SchedConfig) (r : RNode) (s : SchedState) :
    ∀ call, Decidable (QueueCallable cfg r s call)
  | .vTaskInsert vnode =>
    inferInstanceAs (Decidable
      (bitmapGet s.vpnodeMemBitmap vnode = true ∧ s.Queueable cfg vnode ∧ vnode ∉ s.linkedNodes cfg r))
  | .vTaskLookup | .bmqLoop _ | .bfsScheduler _ | .updateTaskTimes _ => .isTrue trivial
  | .schedStartHandler c _ => inferInstanceAs (Decidable ((s.cpus c).rqnode = some r))
  | .bmqScheduler _ =>
    inferInstanceAs (Decidable (∀ v ∈ (s.rqnodeMemory r).runVnode, v ∉ s.linkedNodes cfg r))

/-- The node that `vm_init` has put in front of the run queue. -/
def SchedState.frontNode (s : SchedState) : Option RNode := s.rqPtr.bind s.rnext

/-- The queue of the node `r` that `vm_init` has built for VM number `i`. -/
def queueMachine (cfg : SchedConfig) (i : VmId) (r : RNode) : Machine SchedState QueueCall where
  Init s := (∃ s₀, vmInit cfg s₀ i = some s) ∧ s.frontNode = some r
  step s call := if QueueCallable cfg r s call then queueCallEffect cfg r s call else none

variable {cfg : SchedConfig} {s t : SchedState} {r : RNode} {v : VNode} {q : List VNode} {n : Nat}

theorem Serves.linkedNodes_eq (h : Serves cfg s r q) :
    s.linkedNodes cfg r = (List.range bmqBitmapSize).flatMap (level s.prioOf q) := by
  apply List.flatMap_congr
  intro i hi
  have hchain := h.chain i (List.mem_range.mp hi)
  have hlen := hchain.length_le fun v hv => h.inMemory v (mem_level.mp hv).1
  rw [hchain.walk_eq hlen, Option.getD_some]

theorem Serves.linkedNodes_perm (h : Serves cfg s r q) : (s.linkedNodes cfg r).Perm q := by
  rw [h.linkedNodes_eq]
  exact flatMap_level_perm h.nodup h.prio_lt

/-- The counter of `r` is ahead of its queue by `n`; the nodes in the queue and the node that runs were
handed out. -/
structure AheadBy (cfg : SchedConfig) (s : SchedState) (r : RNode) (n : Nat) (q : List VNode) :
    Prop where
  queued : Serves cfg s r q
  created : ∀ v ∈ q, s.Created v
  run : ∀ v, (s.rqnodeMemory r).runVnode = some v → s.Created v ∧ s.Queueable cfg v
  count : (s.rqnodeMemory r).nrVcpuReady = BitVec.ofNat 32 (n + q.length)

/-- The fields of a run queue node that its queue consists of. -/
structure SameQueue (n n' : RunQueueNode) : Prop where
  bitmap : n'.bitmap = n.bitmap
  multiQueue : n'.multiQueue = n.multiQueue
  runVnode : n'.runVnode = n.runVnode
  nrVcpuReady : n'.nrVcpuReady = n.nrVcpuReady

theorem AheadBy.congr (h : AheadBy cfg s r n q) (hnext : t.vnext = s.vnext)
    (hprio : t.prioOf = s.prioOf) (hcreated : t.vpnodeMemBitmap = s.vpnodeMemBitmap)
    (hlevels : t.multiQueueMemory = s.multiQueueMemory)
    (hnode : SameQueue (s.rqnodeMemory r) (t.rqnodeMemory r)) : AheadBy cfg t r n q := by
  refine ⟨h.queued.congr (fun v _ => congrFun hnext v) (fun v _ => congrFun hprio v) (fun i => ?_)
    hnode.bitmap, fun v hv => ?_, fun v hv => ?_, hnode.nrVcpuReady.trans h.count⟩
  · rw [SchedState.level, hnode.multiQueue, hlevels]
    rfl
  · rw [SchedState.Created, hcreated]
    exact h.created v hv
  · rw [hnode.runVnode] at hv
    rw [SchedState.Created, hcreated, queueable_congr hprio]
    exact h.run v hv

/-- An insertion counts the node. -/
theorem AheadBy.insert (h : AheadBy cfg s r n q) (hcreated : s.Created v)
    (hqueueable : s.Queueable cfg v) (hv : v ∉ q) (ht : vTaskInsert cfg s v r = some t) :
    AheadBy cfg t r n (q ++ [v]) := by
  have hqueued := h.queued.insert hv hqueueable.1 hqueueable.2 ht
  have hsame := prioOf_vTaskInsert ht
  obtain ⟨next, levels, rfl, -⟩ := vTaskInsert_eq_some ht
  refine ⟨hqueued, fun w hw => ?_, fun w hw => ?_, ?_⟩
  · rcases List.mem_append.mp hw with hw | hw
    · exact h.created w hw
    · rw [List.mem_singleton.mp hw]
      exact hcreated
  · rw [SchedState.relink_runVnode] at hw
    rw [queueable_congr hsame]
    exact h.run w hw
  · simp only [SchedState.relink, update_self, h.count, List.length_append, List.length_singleton,
      ← Nat.add_assoc, BitVec.ofNat_add]
    rfl

/-- A lookup no longer counts the node it returns, which goes out of the queue. -/
theorem AheadBy.lookup (h : AheadBy cfg s r n q) {found : Option VNode}
    (ht : vTaskLookup s r = some (found, t)) :
    ∃ q', AheadBy cfg t r n q' ∧ ∀ v, found = some v → v ∉ q' ∧ t.Created v ∧ t.Queueable cfg v := by
  obtain ⟨u, hu, hqueued, hsame⟩ := h.queued.lookup
  rw [ht, Option.some.injEq, Prod.mk.injEq] at hu
  obtain ⟨hfound, rfl⟩ := hu
  cases found with
  | none =>
    obtain ⟨-, rfl⟩ := vTaskLookup_eq_none ht
    exact ⟨q, h, nofun⟩
  | some v =>
    have hargmin : q.argmin s.prioOf = some v := by
      unfold PriorityQueue.lookup at hfound
      split at hfound
      · cases hfound
      · rename_i hargmin
        rw [hargmin]
        exact hfound.symm
    have hmem : v ∈ q := List.argmin_mem hargmin
    have hleft : (PriorityQueue.lookup s.prioOf q).2 = q.erase v := by
      simp only [PriorityQueue.lookup, hargmin]
    rw [hleft] at hqueued
    obtain ⟨i, -, -, rfl⟩ := vTaskLookup_eq_some ht
    refine ⟨q.erase v, ⟨hqueued, fun w hw => h.created w (List.mem_of_mem_erase hw), fun w hw => ?_,
      ?_⟩, fun w hw => ?_⟩
    · rw [SchedState.relink_runVnode] at hw
      rw [queueable_congr hsame]
      exact h.run w hw
    · have hlen : q.length = (q.erase v).length + 1 := by
        have hpos := List.length_pos_of_mem hmem
        rw [List.length_erase_of_mem hmem]
        omega
      simp only [SchedState.relink, update_self, h.count, hlen, ← Nat.add_assoc, BitVec.ofNat_add]
      exact BitVec.add_sub_cancel _ _
    · cases hw
      refine ⟨h.queued.nodup.not_mem_erase, h.created v hmem, ?_⟩
      rw [queueable_congr hsame]
      exact ⟨h.queued.inMemory v hmem, h.queued.prio_lt v hmem⟩

/-- A vCPU node outside the queue may be written. -/
theorem AheadBy.modifyVnode (h : AheadBy cfg s r n q) (hv : v ∉ q) {f : VCpuNode → VCpuNode}
    (hprio : ∀ n, n.prio < bmqBitmapSize → (f n).prio < bmqBitmapSize) :
    AheadBy cfg (s.modifyVnode v f) r n q := by
  refine ⟨h.queued.modifyVnode hv f, h.created, fun w hw => ?_, h.count⟩
  obtain ⟨hcreated, hlt, hold⟩ := h.run w hw
  refine ⟨hcreated, hlt, ?_⟩
  by_cases hwv : w = v
  · subst hwv
    simp only [SchedState.prioOf, SchedState.modifyVnode, update_self]
    exact hprio _ hold
  · simp only [SchedState.prioOf, SchedState.modifyVnode, update_of_ne hwv]
    exact hold

theorem AheadBy.bmqRequeue (h : AheadBy cfg s r n q)
    (hout : ∀ v, (s.rqnodeMemory r).runVnode = some v → v ∉ q)
    (ht : bmqRequeue cfg s r = some t) : ∃ q', AheadBy cfg t r n q' := by
  rcases bmqRequeue_eq_some ht with ⟨rfl, -⟩ | ⟨v, hrun, -, hinsert⟩
  · exact ⟨q, h⟩
  · have hrequeued : AheadBy cfg (s.requeued v) r n q :=
      h.modifyVnode (hout v hrun) fun n hn => prioManage_prio_lt n 0 hn
    obtain ⟨hcreated, hqueueable⟩ := hrequeued.run v hrun
    exact ⟨_, hrequeued.insert hcreated hqueueable (hout v hrun) hinsert⟩

/-- A store to a vCPU node that leaves its link and its priority. -/
theorem vnext_modifyVnode (s : SchedState) (v : VNode) {f : VCpuNode → VCpuNode}
    (hf : ∀ n, (f n).next = n.next) : (s.modifyVnode v f).vnext = s.vnext := by
  funext w
  by_cases hw : w = v
  · subst hw
    simp [SchedState.vnext, SchedState.modifyVnode, hf]
  · simp [SchedState.vnext, SchedState.modifyVnode, hw]

theorem prioOf_modifyVnode (s : SchedState) (v : VNode) {f : VCpuNode → VCpuNode}
    (hf : ∀ n, (f n).prio = n.prio) : (s.modifyVnode v f).prioOf = s.prioOf := by
  funext w
  by_cases hw : w = v
  · subst hw
    simp [SchedState.prioOf, SchedState.modifyVnode, hf]
  · simp [SchedState.prioOf, SchedState.modifyVnode, hw]

/-- The node found becomes the one that runs. -/
theorem AheadBy.bmqRun (h : AheadBy cfg s r n q) (c : PCpuId) (hcreated : s.Created v)
    (hqueueable : s.Queueable cfg v) : AheadBy cfg (bmqRun s c r v) r n q := by
  have hwritten : AheadBy cfg (s.modifyVnode v fun n =>
      { n with
        state := .running
        timeSlice := BitVec.ofNat 64 bmqRrInterval
        needResched := false }) r n q :=
    h.congr (vnext_modifyVnode s v fun _ => rfl) (prioOf_modifyVnode s v fun _ => rfl) rfl rfl
      ⟨rfl, rfl, rfl, rfl⟩
  have hprio := prioOf_modifyVnode s v (f := fun n =>
    { n with
      state := .running
      timeSlice := BitVec.ofNat 64 bmqRrInterval
      needResched := false }) fun _ => rfl
  have hnode : (Avisor.bmqRun s c r v).rqnodeMemory r =
      { s.rqnodeMemory r with runVnode := some v } := by
    simp [Avisor.bmqRun, switchTo, bmqAssign, SchedState.modifyRq, SchedState.modifyCpu,
      SchedState.modifyVnode]
  refine ⟨hwritten.queued.congr (fun _ _ => rfl) (fun _ _ => rfl) (fun i => ?_) ?_,
    hwritten.created, fun w hw => ?_, ?_⟩
  · rw [SchedState.level, hnode]
    rfl
  · rw [hnode]
    rfl
  · rw [hnode] at hw
    cases hw
    exact ⟨hcreated, hqueueable.1, (congrFun hprio v).trans_lt hqueueable.2⟩
  · rw [hnode]
    exact h.count

theorem AheadBy.bmqLookupRound {c : PCpuId} (h : AheadBy cfg s r n q)
    (ht : bmqLookupRound s c r = some t) : ∃ q', AheadBy cfg t r n q' := by
  obtain ⟨⟨found, u⟩, hlookup, rfl⟩ := Option.map_eq_some_iff.mp ht
  obtain ⟨q', hahead, hfound⟩ := h.lookup hlookup
  cases found with
  | none => exact ⟨q', hahead.congr rfl rfl rfl rfl ⟨rfl, rfl, rfl, rfl⟩⟩
  | some v =>
    obtain ⟨-, hcreated, hqueueable⟩ := hfound v rfl
    exact ⟨q', (hahead.bmqRun c hcreated hqueueable).congr rfl rfl rfl rfl ⟨rfl, rfl, rfl, rfl⟩⟩

/-- A pCPU takes the VM. -/
theorem AheadBy.bfsRun {c : PCpuId} (h : AheadBy cfg s r n q) (ht : bfsRun s c r = some t) :
    AheadBy cfg t r n q := by
  obtain ⟨m, -, rfl⟩ := bfsRun_eq_some ht
  refine h.congr (t := bfsAssign s c r m) rfl rfl rfl rfl ?_
  constructor <;> simp [bfsAssign, SchedState.modifyRq, SchedState.modifyCpu]

/-- Time passes. -/
theorem AheadBy.updateTaskTimesLeave (h : AheadBy cfg s r n q) (c : PCpuId) (v : VNode) :
    AheadBy cfg (updateTaskTimesLeave cfg s c r v) r n q := by
  apply h.congr
  · exact vnext_modifyVnode s v fun _ => rfl
  · exact prioOf_modifyVnode s v fun _ => rfl
  · rfl
  · rfl
  · constructor <;> simp [Avisor.updateTaskTimesLeave, SchedState.modifyRq, SchedState.setPc,
      SchedState.modifyCpu, SchedState.modifyVnode, tickRqnode]

/-- A vCPU node is handed out and goes into the queue. -/
theorem AheadBy.start {vp : VcpuRef} (h : AheadBy cfg s r n q) (hlt : v < cfg.vnodeNum)
    (hfree : bitmapGet s.vpnodeMemBitmap v = false)
    (ht : vTaskInsert cfg (s.withVnode v vp bmqDefaultPrio) v r = some t) :
    AheadBy cfg t r n (q ++ [v]) := by
  have hout : v ∉ q := by
    intro hv
    rw [h.created v hv] at hfree
    cases hfree
  have hset (w) (hw : s.Created w) : bitmapGet (bitmapSet s.vpnodeMemBitmap v) w = true := by
    rw [bitmapGet_set, Bool.or_eq_true]
    exact .inr hw
  have hcounted : AheadBy cfg { s with vpnodeMemBitmap := bitmapSet s.vpnodeMemBitmap v } r n q :=
    ⟨h.queued.congr (fun _ _ => rfl) (fun _ _ => rfl) (fun _ => rfl) rfl,
      fun w hw => hset w (h.created w hw), fun w hw => ⟨hset w (h.run w hw).1, (h.run w hw).2⟩,
      h.count⟩
  have hnew : AheadBy cfg (s.withVnode v vp bmqDefaultPrio) r n q :=
    hcounted.modifyVnode hout fun _ _ => (by decide : bmqDefaultPrio < bmqBitmapSize)
  have hprio : (s.withVnode v vp bmqDefaultPrio).prioOf v = bmqDefaultPrio := by
    simp only [SchedState.prioOf, SchedState.withVnode, SchedState.modifyVnode, update_self]
  refine hnew.insert ?_ ⟨hlt, hprio.trans_lt (by decide)⟩ hout ht
  simp [SchedState.Created, SchedState.withVnode, SchedState.modifyVnode, bitmapGet_set]

/-- `vm_init` sets the counter to the number of vCPUs, and one more for the vCPU it queues. -/
theorem vmInit_aheadBy {i : VmId} (ht : vmInit cfg s i = some t) (hr : t.frontNode = some r) :
    ∃ q, AheadBy cfg t r (cfg.nrCpus i) q := by
  obtain ⟨u, r', v, w, hmade, -, -, hlt, hfree, hinsert, hlink⟩ := vmInit_eq_some ht
  have hvms : (u.vms i).nrCpus = cfg.nrCpus i := by
    cases hmade <;> simp [SchedState.withRqnode, vmMasterInit]
  have hempty : AheadBy cfg (u.withRqnode r' (some i) bfsDefaultPrio) r' (cfg.nrCpus i) [] := by
    refine ⟨queued_withRqnode u r' (some i) bfsDefaultPrio, by simp, fun v hv => ?_, ?_⟩
    · simp [SchedState.withRqnode] at hv
    · simp [SchedState.withRqnode, hvms]
  have hqueued := hempty.start hlt hfree hinsert
  obtain ⟨head, hhead, rfl⟩ := rqInsert_eq_some hlink
  obtain rfl : r' = r := by
    simpa [SchedState.frontNode, SchedState.relinkRq, hhead, SchedState.rnext] using hr
  exact ⟨_, hqueued.congr rfl rfl rfl rfl ⟨rfl, rfl, rfl, rfl⟩⟩

/-- Every call keeps the distance between the counter and the queue. -/
theorem aheadBy_preserves (cfg : SchedConfig) (i : VmId) (r : RNode) (n : Nat) :
    (queueMachine cfg i r).Preserves fun s => ∃ q, AheadBy cfg s r n q := by
  rintro s call t ⟨q, h⟩ hstep
  simp only [queueMachine] at hstep
  split at hstep
  · rename_i hcallable
    cases call with
    | vTaskInsert v =>
      obtain ⟨hcreated, hqueueable, hout⟩ := hcallable
      rw [h.queued.linkedNodes_perm.mem_iff] at hout
      exact ⟨_, h.insert hcreated hqueueable hout hstep⟩
    | vTaskLookup =>
      obtain ⟨⟨found, u⟩, hu, rfl⟩ := Option.map_eq_some_iff.mp hstep
      obtain ⟨q', hcounted, -⟩ := h.lookup hu
      exact ⟨q', hcounted⟩
    | schedStartHandler c arg0 =>
      obtain ⟨x, hx, hvm⟩ := Option.bind_eq_some_iff.mp hstep
      obtain ⟨vm, -, hnode⟩ := Option.bind_eq_some_iff.mp hvm
      obtain ⟨⟨v, u⟩, hu, hinsert⟩ := Option.bind_eq_some_iff.mp hnode
      obtain rfl : r = x := Option.some.inj (hcallable.symm.trans hx)
      obtain ⟨hlt, hfree, rfl⟩ := initializeVCpuNode_eq_some hu
      exact ⟨_, h.start hlt hfree hinsert⟩
    | bmqScheduler c =>
      obtain ⟨u, hu, hround⟩ := Option.bind_eq_some_iff.mp hstep
      obtain ⟨q', hrequeued⟩ := h.bmqRequeue (fun v hv => by
        rw [← h.queued.linkedNodes_perm.mem_iff]
        exact hcallable v hv) hu
      exact hrequeued.bmqLookupRound hround
    | bmqLoop c => exact h.bmqLookupRound hstep
    | bfsScheduler c => exact ⟨q, h.bfsRun hstep⟩
    | updateTaskTimes c =>
      obtain ⟨v, -, rfl⟩ := Option.map_eq_some_iff.mp hstep
      exact ⟨q, h.updateTaskTimesLeave c v⟩
  · cases hstep

/-- `nr_vcpu_ready` counts the linked nodes, so that the test of `p_task_lookup` finds a VM exactly if
it has one. -/
def CountsLinked (cfg : SchedConfig) (r : RNode) (s : SchedState) : Prop :=
  (s.rqnodeMemory r).nrVcpuReady.toNat = (s.linkedNodes cfg r).length ∧
    ((s.rqnodeMemory r).nrVcpuReady > 0 ↔ s.linkedNodes cfg r ≠ [])

instance (cfg : SchedConfig) (r : RNode) (s : SchedState) : Decidable (CountsLinked cfg r s) :=
  inferInstanceAs (Decidable (_ ∧ (_ ↔ _)))

/-- The counter of a VM's node is right in none of its states, or in all: that depends on the number
of vCPUs alone. -/
theorem countsLinked_iff {i : VmId} (hnodes : cfg.vnodeNum < 2 ^ 31)
    (h : (queueMachine cfg i r).Reachable s) : CountsLinked cfg r s ↔ 2 ^ 32 ∣ cfg.nrCpus i := by
  obtain ⟨q, hahead⟩ := h.invariant
    (fun t ht => by
      obtain ⟨⟨s₀, hinit⟩, hfront⟩ := ht
      exact vmInit_aheadBy hinit hfront)
    (aheadBy_preserves cfg i r (cfg.nrCpus i))
  have hlen := hahead.queued.linkedNodes_perm.length_eq
  have hle : q.length ≤ cfg.vnodeNum := by
    have hsub : q ⊆ List.range cfg.vnodeNum := fun v hv =>
      List.mem_range.mpr (hahead.queued.inMemory v hv)
    simpa using (List.subperm_of_subset hahead.queued.nodup hsub).length_le
  have hcount : (s.rqnodeMemory r).nrVcpuReady.toNat = (cfg.nrCpus i + q.length) % 2 ^ 32 := by
    rw [hahead.count, BitVec.toNat_ofNat]
  constructor
  · rintro ⟨hsame, -⟩
    rw [hcount, hlen] at hsame
    omega
  · intro hdvd
    have hsame : (s.rqnodeMemory r).nrVcpuReady.toNat = (s.linkedNodes cfg r).length := by
      rw [hcount, hlen]
      omega
    refine ⟨hsame, ?_⟩
    rw [gt_iff_lt, BitVec.lt_def, hsame]
    exact List.length_pos_iff

/-- The first vCPU runs, starts the second one and is put back behind it. -/
def startSecond : List QueueCall :=
  [.bfsScheduler 0, .bmqScheduler 0, .schedStartHandler 0 1, .updateTaskTimes 0, .bmqScheduler 0]

/-- Where `startSecond` leads to. -/
def secondRuns : SchedState :=
  ((queueMachine smallConfig 0 1).run smallBoot startSecond).getD smallBoot

theorem smallBoot_queue : (queueMachine smallConfig 0 1).Init smallBoot := by
  have hfront : smallBoot.frontNode = some 1 := by decide
  exact ⟨⟨schedBoot, smallBoot_init⟩, hfront⟩

theorem countsLinked_iff_secondRuns : CountsLinked smallConfig 1 secondRuns ↔ 2 ^ 32 ∣ 2 := by
  have hsome : ((queueMachine smallConfig 0 1).run smallBoot startSecond).isSome = true := by decide
  obtain ⟨s, hs⟩ := Option.isSome_iff_exists.mp hsome
  have hrun : (queueMachine smallConfig 0 1).Run smallBoot startSecond secondRuns := by
    rw [secondRuns, hs, Option.getD_some]
    exact Machine.run_eq_some_iff.mp hs
  exact countsLinked_iff (by decide) ⟨smallBoot, startSecond, smallBoot_queue, hrun⟩

/-- Behind `vm_init` one vCPU is queued, and the counter is 3. -/
theorem countsLinked_smallBoot : (queueMachine smallConfig 0 1).Init smallBoot ∧
    (smallBoot.rqnodeMemory 1).nrVcpuReady = 3 ∧ smallBoot.linkedNodes smallConfig 1 = [0] ∧
      ¬CountsLinked smallConfig 1 smallBoot := by
  refine ⟨smallBoot_queue, ?_, ?_, ?_⟩ <;> decide

end Avisor
