import Avisor.Sched.State

/-!
# The vCPU level: BMQ

Each VM's run queue node holds one FIFO list of vCPU nodes per priority, with a bitmap of the
non-empty ones. The functions below are those of `core/sched.c`, up to the loop of `bmq_scheduler`
around `v_task_lookup`. A result `none` means that the pCPU gets no further: an `ASSERT` fails, a
null pointer is followed, a list has no end, or a node pool is exhausted and the store to its bitmap
at index `-1` faults.
-/

namespace Avisor

open Function LinkedList

/-- `malloc_vpnode`. -/
def mallocVpnode (cfg : SchedConfig) (s : SchedState) : Option (VNode × SchedState) :=
  let pos := bitmapFindNth s.vpnodeMemBitmap cfg.vnodeNum 1 0 false
  if pos = sizeMax then none
  else some (pos, { s with vpnodeMemBitmap := bitmapSet s.vpnodeMemBitmap pos })

/-- `initialize_vCpuNode`. -/
def initializeVCpuNode (cfg : SchedConfig) (s : SchedState) (vp : VcpuRef) (staticPrio : Nat) :
    Option (VNode × SchedState) :=
  (mallocVpnode cfg s).map fun (vpnode, s) =>
    (vpnode, s.modifyVnode vpnode fun _ =>
      { cur := vp
        next := none
        staticPrio := staticPrio
        prioAdj := 0
        prio := staticPrio
        state := .ready
        timeSlice := 0
        needResched := true })

/-- `v_task_insert`. -/
def vTaskInsert (cfg : SchedConfig) (s : SchedState) (vnode : VNode) (rqnode : RNode) :
    Option SchedState :=
  let prio := (s.vpnodeMemory vnode).prio
  let slot := (s.rqnodeMemory rqnode).multiQueue + prio
  let s := s.modifyRq rqnode fun n => { n with bitmap := n.bitmap ||| (1#64 <<< prio) }
  let linked :=
    match s.multiQueueMemory slot with
    | none =>
      some { s with multiQueueMemory := update s.multiQueueMemory slot (some vnode) }
    | some vnptr =>
      (last s.vnext cfg.vnodeNum vnptr).map fun tail =>
        s.modifyVnode tail fun n => { n with next := some vnode }
  linked.map fun s =>
    (s.modifyVnode vnode fun n => { n with next := none }).modifyRq rqnode fun n =>
      { n with nrVcpuReady := n.nrVcpuReady + 1 }

/-- The first level whose bit is set in the bitmap. -/
def firstLevel (bitmap : BitVec 64) : Option Nat :=
  (List.range bmqBitmapSize).find? fun i => (bitmap >>> i) &&& 1#64 == 1#64

/-- `v_task_lookup`: the node it returns, `none` for `NULL`, and the state it leaves. -/
def vTaskLookup (s : SchedState) (rqnode : RNode) : Option (Option VNode × SchedState) :=
  match firstLevel (s.rqnodeMemory rqnode).bitmap with
  | none => some (none, s)
  | some i =>
    match s.level rqnode i with
    | none => none
    | some vnode =>
      let next := s.vnext vnode
      let slot := (s.rqnodeMemory rqnode).multiQueue + i
      let s := s.modifyRq rqnode fun n =>
        { n with
          bitmap := if next = none then n.bitmap &&& ~~~(1#64 <<< i) else n.bitmap
          nrVcpuReady := n.nrVcpuReady - 1 }
      let s := { s with multiQueueMemory := update s.multiQueueMemory slot next }
      some (some vnode, s.modifyVnode vnode fun n => { n with next := none })

/-- `prio_manage`. -/
def prioManage (vnode : VCpuNode) (upOrDown : Int) : VCpuNode :=
  let prioAdj :=
    if upOrDown = 1 ∧ vnode.prioAdj > -maxprioAdj then vnode.prioAdj - 1
    else if vnode.prioAdj < maxprioAdj then vnode.prioAdj + 1
    else vnode.prioAdj
  let tempPrio := vnode.staticPrio + prioAdj
  { vnode with
    prioAdj := prioAdj
    prio := if tempPrio ≤ prioWidth - 1 ∧ tempPrio ≥ 0 then tempPrio.toNat else vnode.prio }

/-- `switch_to`, run by pCPU `c`. -/
def switchTo (s : SchedState) (c : PCpuId) (next : VNode) : SchedState :=
  let vcpu := (s.vpnodeMemory next).cur
  let s := { s with vcpus := update s.vcpus vcpu { s.vcpus vcpu with pId := c } }
  s.modifyCpu c fun p => { p with vcpu := some vcpu, vmpidrEl2 := (s.vcpus vcpu).vmpidr }

/-- `bmq_scheduler` up to its loop: the vCPU that ran goes back into the queues, unless it sleeps. -/
def bmqRequeue (cfg : SchedConfig) (s : SchedState) (rqnode : RNode) : Option SchedState :=
  match (s.rqnodeMemory rqnode).runVnode with
  | none => some s
  | some vnode =>
    if (s.vpnodeMemory vnode).timeSlice ≠ 0 then none
    else if s.sleepVnode = some vnode then some s
    else
      let s := s.modifyVnode vnode fun n =>
        { prioManage n 0 with state := .ready, needResched := true }
      vTaskInsert cfg s vnode rqnode

/-- The assignments of `bmq_scheduler` behind its loop: `vnode` is the vCPU node found. -/
def bmqAssign (s : SchedState) (rqnode : RNode) (vnode : VNode) : SchedState :=
  (s.modifyVnode vnode fun n =>
    { n with
      state := .running
      timeSlice := BitVec.ofNat 64 bmqRrInterval
      needResched := false }).modifyRq rqnode fun n => { n with runVnode := some vnode }

/-- `bmq_scheduler` behind its loop, on pCPU `c`. -/
def bmqRun (s : SchedState) (c : PCpuId) (rqnode : RNode) (vnode : VNode) : SchedState :=
  switchTo (bmqAssign s rqnode vnode) c vnode

/-! ### What the queue operations store

Both queue operations change only links, levels, a bitmap and a counter. -/

/-- `s` with new links and levels, and a new bitmap and counter in the node `r`. -/
def SchedState.relink (s : SchedState) (r : RNode) (bitmap : BitVec 64) (nr : BitVec 32)
    (next : VNode → Option VNode) (levels : Nat → Option VNode) : SchedState :=
  { s with
    rqnodeMemory :=
      update s.rqnodeMemory r { s.rqnodeMemory r with bitmap := bitmap, nrVcpuReady := nr }
    vpnodeMemory := fun v => { s.vpnodeMemory v with next := next v }
    multiQueueMemory := levels }

namespace SchedState

variable (s : SchedState) (r r' : RNode) (bitmap : BitVec 64) (nr : BitVec 32)
  (next : VNode → Option VNode) (levels : Nat → Option VNode)

@[simp] theorem relink_vnext : (s.relink r bitmap nr next levels).vnext = next := rfl

@[simp] theorem relink_multiQueueMemory :
    (s.relink r bitmap nr next levels).multiQueueMemory = levels := rfl

@[simp] theorem relink_bitmap :
    ((s.relink r bitmap nr next levels).rqnodeMemory r').bitmap =
      if r' = r then bitmap else (s.rqnodeMemory r').bitmap := by
  by_cases h : r' = r
  · subst h
    simp [relink]
  · simp [relink, h]

@[simp] theorem relink_vm :
    ((s.relink r bitmap nr next levels).rqnodeMemory r').vm = (s.rqnodeMemory r').vm := by
  by_cases h : r' = r
  · subst h
    simp [relink]
  · simp [relink, h]

@[simp] theorem relink_multiQueue :
    ((s.relink r bitmap nr next levels).rqnodeMemory r').multiQueue =
      (s.rqnodeMemory r').multiQueue := by
  by_cases h : r' = r
  · subst h
    simp [relink]
  · simp [relink, h]

@[simp] theorem relink_runVnode :
    ((s.relink r bitmap nr next levels).rqnodeMemory r').runVnode =
      (s.rqnodeMemory r').runVnode := by
  by_cases h : r' = r
  · subst h
    simp [relink]
  · simp [relink, h]

@[simp] theorem relink_level (i : Nat) :
    (s.relink r bitmap nr next levels).level r' i = levels ((s.rqnodeMemory r').multiQueue + i) := by
  rw [level, relink_multiQueue, relink_multiQueueMemory]

end SchedState

/-- `s` with the node `v` handed out, for the vCPU `vp`. -/
def SchedState.withVnode (s : SchedState) (v : VNode) (vp : VcpuRef) (staticPrio : Nat) :
    SchedState :=
  { s with vpnodeMemBitmap := bitmapSet s.vpnodeMemBitmap v }.modifyVnode v fun _ =>
    { cur := vp
      next := none
      staticPrio := staticPrio
      prioAdj := 0
      prio := staticPrio
      state := .ready
      timeSlice := 0
      needResched := true }

/-- A node handed out is one that was free. -/
theorem initializeVCpuNode_eq_some {cfg : SchedConfig} {s t : SchedState} {vp : VcpuRef}
    {prio : Nat} {v : VNode} (h : initializeVCpuNode cfg s vp prio = some (v, t)) :
    v < cfg.vnodeNum ∧ bitmapGet s.vpnodeMemBitmap v = false ∧ t = s.withVnode v vp prio := by
  obtain ⟨⟨w, u⟩, hmalloc, h⟩ := Option.map_eq_some_iff.mp h
  simp only [mallocVpnode] at hmalloc
  split at hmalloc
  · cases hmalloc
  · rename_i hfound
    cases hmalloc
    cases h
    rcases bitmapFindNth_one s.vpnodeMemBitmap cfg.vnodeNum 0 false with
      ⟨hnone, -⟩ | ⟨w, hw, -, hlt, hfree, -⟩
    · exact absurd hnone hfound
    · rw [hw]
      exact ⟨hlt, hfree, rfl⟩

theorem modifyVnode_next (s : SchedState) (v : VNode) (q : Option VNode) :
    s.modifyVnode v (fun n => { n with next := q }) =
      { s with vpnodeMemory := fun w => { s.vpnodeMemory w with next := update s.vnext v q w } } := by
  unfold SchedState.modifyVnode
  congr 1
  funext w
  by_cases h : w = v
  · subst h
    simp
  · simp [h, SchedState.vnext]

/-- What an insertion stores: an empty level starts with the node, in a filled one the node is linked
behind the last; its own link becomes null. -/
theorem vTaskInsert_eq_some {cfg : SchedConfig} {s t : SchedState} {v : VNode} {r : RNode}
    (h : vTaskInsert cfg s v r = some t) :
    ∃ next levels,
      t = s.relink r ((s.rqnodeMemory r).bitmap ||| (1#64 <<< (s.vpnodeMemory v).prio))
        ((s.rqnodeMemory r).nrVcpuReady + 1) next levels ∧
      ((s.level r (s.vpnodeMemory v).prio = none ∧ next = update s.vnext v none ∧
          levels = update s.multiQueueMemory
            ((s.rqnodeMemory r).multiQueue + (s.vpnodeMemory v).prio) (some v)) ∨
        ∃ first tail, s.level r (s.vpnodeMemory v).prio = some first ∧
          last s.vnext cfg.vnodeNum first = some tail ∧
          next = update (update s.vnext tail (some v)) v none ∧ levels = s.multiQueueMemory) := by
  obtain ⟨u, hu, rfl⟩ := Option.map_eq_some_iff.mp h
  have hslot : ((s.modifyRq r fun n =>
      { n with bitmap := n.bitmap ||| (1#64 <<< (s.vpnodeMemory v).prio) }).multiQueueMemory
      ((s.rqnodeMemory r).multiQueue + (s.vpnodeMemory v).prio)) =
      s.level r (s.vpnodeMemory v).prio := rfl
  rw [hslot] at hu
  cases hlevel : s.level r (s.vpnodeMemory v).prio with
  | none =>
    rw [hlevel] at hu
    cases hu
    refine ⟨_, _, ?_, .inl ⟨rfl, rfl, rfl⟩⟩
    rw [modifyVnode_next]
    simp only [SchedState.relink, SchedState.modifyRq, update_self, update_idem]
    rfl
  | some first =>
    rw [hlevel] at hu
    obtain ⟨tail, htail, rfl⟩ := Option.map_eq_some_iff.mp hu
    refine ⟨_, _, ?_, .inr ⟨first, tail, rfl, htail, rfl, rfl⟩⟩
    rw [modifyVnode_next, modifyVnode_next]
    simp only [SchedState.relink, SchedState.modifyRq, update_self, update_idem]
    rfl

/-- An insertion ends where the lists do. -/
theorem vTaskInsert_isSome {cfg : SchedConfig} {s : SchedState} {v : VNode} {r : RNode}
    (h : ∀ first, s.level r (s.vpnodeMemory v).prio = some first →
      ∃ tail, last s.vnext cfg.vnodeNum first = some tail) :
    ∃ t, vTaskInsert cfg s v r = some t := by
  have hslot : ((s.modifyRq r fun n =>
      { n with bitmap := n.bitmap ||| (1#64 <<< (s.vpnodeMemory v).prio) }).multiQueueMemory
      ((s.rqnodeMemory r).multiQueue + (s.vpnodeMemory v).prio)) =
      s.level r (s.vpnodeMemory v).prio := rfl
  unfold vTaskInsert
  simp only [hslot]
  cases hlevel : s.level r (s.vpnodeMemory v).prio with
  | none => exact ⟨_, rfl⟩
  | some first =>
    obtain ⟨tail, htail⟩ := h first hlevel
    have hnext : (s.modifyRq r fun n =>
      { n with bitmap := n.bitmap ||| (1#64 <<< (s.vpnodeMemory v).prio) }).vnext = s.vnext := rfl
    simp only [hnext, htail]
    exact ⟨_, rfl⟩

/-- What a lookup that finds a node stores: the first level whose bit is set loses its first node,
and its bit when that was the only one. -/
theorem vTaskLookup_eq_some {s t : SchedState} {r : RNode} {v : VNode}
    (h : vTaskLookup s r = some (some v, t)) :
    ∃ i, firstLevel (s.rqnodeMemory r).bitmap = some i ∧ s.level r i = some v ∧
      t = s.relink r
        (if s.vnext v = none then (s.rqnodeMemory r).bitmap &&& ~~~(1#64 <<< i)
          else (s.rqnodeMemory r).bitmap)
        ((s.rqnodeMemory r).nrVcpuReady - 1) (update s.vnext v none)
        (update s.multiQueueMemory ((s.rqnodeMemory r).multiQueue + i) (s.vnext v)) := by
  unfold vTaskLookup at h
  split at h
  · simp at h
  · rename_i i hi
    split at h
    · simp at h
    · rename_i w hw
      simp only [Option.some.injEq, Prod.mk.injEq] at h
      obtain ⟨rfl, rfl⟩ := h
      refine ⟨i, hi, hw, ?_⟩
      rw [modifyVnode_next]
      rfl

/-- A lookup that finds nothing stores nothing: no bit is set. -/
theorem vTaskLookup_eq_none {s t : SchedState} {r : RNode}
    (h : vTaskLookup s r = some (none, t)) :
    firstLevel (s.rqnodeMemory r).bitmap = none ∧ t = s := by
  unfold vTaskLookup at h
  split at h
  · rename_i hi
    simp only [Option.some.injEq, Prod.mk.injEq, true_and] at h
    exact ⟨hi, h.symm⟩
  · split at h <;> simp at h

theorem shift_and_one (bitmap : BitVec 64) (i : Nat) :
    ((bitmap >>> i) &&& 1#64 == 1#64) = bitmap.getLsbD i := by
  have hand : (bitmap >>> i) &&& 1#64 = BitVec.ofNat 64 (bitmap.getLsbD i).toNat := by
    ext j hj
    rw [BitVec.getElem_and, BitVec.getElem_ushiftRight, BitVec.getElem_one]
    cases j with
    | zero =>
      rw [Nat.add_zero]
      cases bitmap.getLsbD i <;> simp
    | succ j => cases bitmap.getLsbD i <;> simp
  rw [hand]
  cases bitmap.getLsbD i <;> rfl

theorem vTaskInsert_cpus {cfg : SchedConfig} {s t : SchedState} {v : VNode} {r : RNode}
    (h : vTaskInsert cfg s v r = some t) : t.cpus = s.cpus := by
  obtain ⟨next, levels, rfl, -⟩ := vTaskInsert_eq_some h
  rfl

theorem vTaskLookup_cpus {s t : SchedState} {v : Option VNode} {r : RNode}
    (h : vTaskLookup s r = some (v, t)) : t.cpus = s.cpus := by
  cases v with
  | none => rw [(vTaskLookup_eq_none h).2]
  | some v =>
    obtain ⟨i, -, -, rfl⟩ := vTaskLookup_eq_some h
    rfl

/-- The vCPU node that `bmq_scheduler` puts back, as it is then. -/
def SchedState.requeued (s : SchedState) (v : VNode) : SchedState :=
  s.modifyVnode v fun n => { prioManage n 0 with state := .ready, needResched := true }

/-- The vCPU that ran goes back into the queues, unless there was none or it sleeps. -/
theorem bmqRequeue_eq_some {cfg : SchedConfig} {s t : SchedState} {r : RNode}
    (h : bmqRequeue cfg s r = some t) :
    (t = s ∧ ∀ v, (s.rqnodeMemory r).runVnode = some v → s.sleepVnode = some v) ∨
      ∃ v, (s.rqnodeMemory r).runVnode = some v ∧ s.sleepVnode ≠ some v ∧
        vTaskInsert cfg (s.requeued v) v r = some t := by
  unfold bmqRequeue at h
  cases hrun : (s.rqnodeMemory r).runVnode with
  | none =>
    simp only [hrun, Option.some.injEq] at h
    exact .inl ⟨h.symm, nofun⟩
  | some v =>
    simp only [hrun] at h
    split at h
    · cases h
    · split at h
      · rename_i hsleep
        cases h
        refine .inl ⟨rfl, fun w hw => ?_⟩
        cases hw
        exact hsleep
      · rename_i hsleep
        exact .inr ⟨v, rfl, hsleep, h⟩

theorem bmqRequeue_cpus {cfg : SchedConfig} {s t : SchedState} {r : RNode}
    (h : bmqRequeue cfg s r = some t) : t.cpus = s.cpus := by
  rcases bmqRequeue_eq_some h with ⟨rfl, -⟩ | ⟨v, -, -, hinsert⟩
  · rfl
  · rw [vTaskInsert_cpus hinsert]
    rfl

/-- The level found is one whose bit is set. -/
theorem firstLevel_eq_some {bitmap : BitVec 64} {i : Nat} (h : firstLevel bitmap = some i) :
    i < bmqBitmapSize ∧ bitmap.getLsbD i = true := by
  have hbit := List.find?_some h
  rw [shift_and_one] at hbit
  exact ⟨List.mem_range.mp (List.mem_of_find?_eq_some h), hbit⟩

/-- No bit below it is set. -/
theorem firstLevel_lower {bitmap : BitVec 64} {i j : Nat} (h : firstLevel bitmap = some i)
    (hj : j < i) : bitmap.getLsbD j = false := by
  rw [← shift_and_one]
  have hlower := (List.find?_range_eq_some.mp h).2.2 j hj
  rw [Bool.not_eq_true'] at hlower
  exact hlower

theorem firstLevel_eq_none {bitmap : BitVec 64} :
    firstLevel bitmap = none ↔ ∀ i < bmqBitmapSize, bitmap.getLsbD i = false := by
  simp only [firstLevel, List.find?_eq_none, List.mem_range, shift_and_one, Bool.not_eq_true]

end Avisor
