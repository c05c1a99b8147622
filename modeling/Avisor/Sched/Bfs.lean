import Avisor.Sched.State

/-!
# The VM level: BFS

The run queue of VMs is a doubly linked list behind the node `rq_ptr`, shared by all pCPUs under
`rq_spin_lock`. `rq_insert` and `p_task_lookup` run under that lock, so each is one step here; the
assignments of `bfs_scheduler` around them are steps of their own. As in the file on the vCPU level
a result `none` means that the pCPU gets no further.
-/

namespace Avisor

open Function

/-- `malloc_rqnode`. -/
def mallocRqnode (cfg : SchedConfig) (s : SchedState) : Option (RNode × SchedState) :=
  let pos := bitmapFindNth s.rqnodeMemBitmap cfg.rnodeNum 1 0 false
  if pos = sizeMax then none
  else some (pos, { s with rqnodeMemBitmap := bitmapSet s.rqnodeMemBitmap pos })

/-- The entries that `init_pr` writes to `prio_ratios`. -/
def initPr : Nat → Nat
  | 0 => 128
  | i + 1 => initPr i * 11 / 10

/-- `prio_deadline_diff`. -/
def prioDeadlineDiff (s : SchedState) (userPrio : Nat) : BitVec 64 :=
  BitVec.ofNat 64 (s.prioRatios userPrio * bfsRrInterval / 128)

/-- `initialize_rqnode`. A node without a VM keeps the `nr_vcpu_ready` it had. -/
def initializeRqnode (cfg : SchedConfig) (s : SchedState) (vm : Option VmId) (prio : Nat) :
    Option (RNode × SchedState) :=
  (mallocRqnode cfg s).map fun (pos, s) =>
    let s := s.modifyRq pos fun n =>
      { prev := none
        next := none
        vm := vm
        nrVcpuReady := match vm with
          | some m => BitVec.ofNat 32 (s.vms m).nrCpus
          | none => n.nrVcpuReady
        prio := prio
        vdeadlineDiff := prioDeadlineDiff s prio
        vdeadline := s.bfsClock + prioDeadlineDiff s prio
        bitmap := 0
        multiQueue := pos * prioWidth
        runVnode := none
        state := .ready
        timeSlice := 0
        needResched := true }
    (pos, { s with
      multiQueueMemory := fun i =>
        if pos * prioWidth ≤ i ∧ i < pos * prioWidth + bmqBitmapSize then none
        else s.multiQueueMemory i })

/-- `rq_insert`. -/
def rqInsert (s : SchedState) (rqnode : RNode) : Option SchedState :=
  s.rqPtr.map fun rqPtr =>
    let first := (s.rqnodeMemory rqPtr).next
    let s := s.modifyRq rqnode fun n => { n with next := first, prev := some rqPtr }
    let s := match first with
      | none => s
      | some f => s.modifyRq f fun n => { n with prev := some rqnode }
    s.modifyRq rqPtr fun n => { n with next := some rqnode }

/-- `rq_remove`. -/
def rqRemove (s : SchedState) (rqnode : RNode) : Option SchedState :=
  (s.rqnodeMemory rqnode).prev.map fun prev =>
    let next := (s.rqnodeMemory rqnode).next
    let s := s.modifyRq prev fun n => { n with next := next }
    let s := match next with
      | none => s
      | some f => s.modifyRq f fun n => { n with prev := some prev }
    s.modifyRq rqnode fun n => { n with prev := none, next := none }

/-- The loop of `p_task_lookup`, with the nodes still to come and the target so far. The list has
fewer nodes than `fuel`, or the loop does not end. -/
def pTaskScan (s : SchedState) : Nat → Option RNode → Option RNode → Option (Option RNode)
  | _, none, target => some target
  | 0, some _, _ => none
  | fuel + 1, some rqnode, target =>
    let n := s.rqnodeMemory rqnode
    let better := n.nrVcpuReady > 0 ∧ ∀ t, target = some t → n.vdeadline < (s.rqnodeMemory t).vdeadline
    pTaskScan s fuel n.next (if better then some rqnode else target)

/-- `p_task_lookup`: the node it returns, `none` for `NULL`, and the state it leaves. -/
def pTaskLookup (cfg : SchedConfig) (s : SchedState) : Option (Option RNode × SchedState) :=
  s.rqPtr.bind fun rqPtr =>
    (pTaskScan s cfg.rnodeNum (s.rqnodeMemory rqPtr).next none).bind fun target =>
      match target with
      | none => some (none, s)
      | some rqnode => (rqRemove s rqnode).map fun s => (some rqnode, s)

/-- `VTTBR_VMID_MSK`. -/
def vttbrVmidMsk : BitVec 64 := ((1#64 <<< 7 <<< 1) - 1) <<< 48

/-- The value `prepare_to_switch` writes to `VTTBR_EL2`. -/
def prepareToSwitch (vm : Vm) : BitVec 64 :=
  ((BitVec.ofNat 64 vm.id <<< 48) &&& vttbrVmidMsk) ||| (vm.ptRoot &&& ~~~vttbrVmidMsk)

/-- `bfs_scheduler` before its call of `rq_insert`: the node the pCPU leaves gets a new deadline. -/
def bfsExpire (s : SchedState) (rqnode : RNode) : Option SchedState :=
  if (s.rqnodeMemory rqnode).timeSlice ≠ 0 then none
  else some (s.modifyRq rqnode fun n =>
    { n with
      vdeadline := s.bfsClock + n.vdeadlineDiff
      state := .ready
      needResched := true })

/-- The assignments of `bfs_scheduler` behind its loop, on pCPU `c`: `rqnode` is the node found, and
`vm` its VM. -/
def bfsAssign (s : SchedState) (c : PCpuId) (rqnode : RNode) (vm : VmId) : SchedState :=
  let s := s.modifyRq rqnode fun n =>
    { n with
      state := .running
      timeSlice := BitVec.ofNat 64 bfsRrInterval
      needResched := false }
  let s := { s with vms := update s.vms vm { s.vms vm with master := c } }
  s.modifyCpu c fun p =>
    { p with rqnode := some rqnode, vttbrEl2 := prepareToSwitch (s.vms vm) }

/-- `bfs_scheduler` behind its loop. -/
def bfsRun (s : SchedState) (c : PCpuId) (rqnode : RNode) : Option SchedState :=
  (s.rqnodeMemory rqnode).vm.map fun vm => bfsAssign s c rqnode vm

/-! ### What the run queue operations store

`rq_insert` and `rq_remove` change only links. -/

/-- The successor links of the run queue nodes. -/
def SchedState.rnext (s : SchedState) (r : RNode) : Option RNode := (s.rqnodeMemory r).next

/-- The predecessor links of the run queue nodes. -/
def SchedState.rprev (s : SchedState) (r : RNode) : Option RNode := (s.rqnodeMemory r).prev

/-- `s` with the run queue nodes linked by `next` and `prev`. -/
def SchedState.relinkRq (s : SchedState) (next prev : RNode → Option RNode) : SchedState :=
  { s with rqnodeMemory := fun r => { s.rqnodeMemory r with next := next r, prev := prev r } }

@[simp] theorem relinkRq_rnext (s : SchedState) (next prev : RNode → Option RNode) :
    (s.relinkRq next prev).rnext = next := rfl

@[simp] theorem relinkRq_rprev (s : SchedState) (next prev : RNode → Option RNode) :
    (s.relinkRq next prev).rprev = prev := rfl

theorem relinkRq_relinkRq (s : SchedState) (next prev next' prev' : RNode → Option RNode) :
    (s.relinkRq next prev).relinkRq next' prev' = s.relinkRq next' prev' := rfl

theorem modifyRq_next (s : SchedState) (r : RNode) (q : Option RNode) :
    s.modifyRq r (fun n => { n with next := q }) = s.relinkRq (update s.rnext r q) s.rprev := by
  unfold SchedState.modifyRq SchedState.relinkRq
  congr 1
  funext x
  by_cases h : x = r
  · subst h
    simp [SchedState.rprev]
  · simp [h, SchedState.rnext, SchedState.rprev]

theorem modifyRq_prev (s : SchedState) (r : RNode) (p : Option RNode) :
    s.modifyRq r (fun n => { n with prev := p }) = s.relinkRq s.rnext (update s.rprev r p) := by
  unfold SchedState.modifyRq SchedState.relinkRq
  congr 1
  funext x
  by_cases h : x = r
  · subst h
    simp [SchedState.rnext]
  · simp [h, SchedState.rnext, SchedState.rprev]

theorem modifyRq_next_prev (s : SchedState) (r : RNode) (q p : Option RNode) :
    s.modifyRq r (fun n => { n with next := q, prev := p }) =
      s.relinkRq (update s.rnext r q) (update s.rprev r p) := by
  unfold SchedState.modifyRq SchedState.relinkRq
  congr 1
  funext x
  by_cases h : x = r
  · subst h
    simp
  · simp [h, SchedState.rnext, SchedState.rprev]

/-- `rq_insert` links the node behind the head. -/
theorem rqInsert_eq_some {s t : SchedState} {r : RNode} (h : rqInsert s r = some t) :
    ∃ head, s.rqPtr = some head ∧
      t = s.relinkRq (update (update s.rnext r (s.rnext head)) head (some r))
        (match s.rnext head with
          | none => update s.rprev r (some head)
          | some f => update (update s.rprev r (some head)) f (some r)) := by
  obtain ⟨head, hhead, rfl⟩ := Option.map_eq_some_iff.mp h
  refine ⟨head, hhead, ?_⟩
  have hfirst : (s.rqnodeMemory head).next = s.rnext head := rfl
  simp only [hfirst, modifyRq_next_prev]
  cases s.rnext head with
  | none => rw [modifyRq_next, relinkRq_relinkRq, relinkRq_rnext, relinkRq_rprev]
  | some f =>
    simp only [modifyRq_next, modifyRq_prev, relinkRq_relinkRq, relinkRq_rnext, relinkRq_rprev]

/-- `rq_remove` joins the neighbours of the node. -/
theorem rqRemove_eq_some {s t : SchedState} {r : RNode} (h : rqRemove s r = some t) :
    ∃ p, s.rprev r = some p ∧
      t = s.relinkRq (update (update s.rnext p (s.rnext r)) r none)
        (match s.rnext r with
          | none => update s.rprev r none
          | some f => update (update s.rprev f (some p)) r none) := by
  obtain ⟨p, hp, rfl⟩ := Option.map_eq_some_iff.mp h
  refine ⟨p, hp, ?_⟩
  have hnext : (s.rqnodeMemory r).next = s.rnext r := rfl
  simp only [hnext, modifyRq_next]
  cases s.rnext r with
  | none => simp only [modifyRq_next_prev, relinkRq_relinkRq, relinkRq_rnext, relinkRq_rprev]
  | some f =>
    simp only [modifyRq_next_prev, modifyRq_prev, relinkRq_relinkRq, relinkRq_rnext, relinkRq_rprev]

/-- `s` with the node `r` handed out, for the VM `vm` if there is one. -/
def SchedState.withRqnode (s : SchedState) (r : RNode) (vm : Option VmId) (prio : Nat) :
    SchedState :=
  { s with
    rqnodeMemBitmap := bitmapSet s.rqnodeMemBitmap r
    rqnodeMemory := update s.rqnodeMemory r
      { prev := none
        next := none
        vm := vm
        nrVcpuReady := match vm with
          | some m => BitVec.ofNat 32 (s.vms m).nrCpus
          | none => (s.rqnodeMemory r).nrVcpuReady
        prio := prio
        vdeadlineDiff := prioDeadlineDiff s prio
        vdeadline := s.bfsClock + prioDeadlineDiff s prio
        bitmap := 0
        multiQueue := r * prioWidth
        runVnode := none
        state := .ready
        timeSlice := 0
        needResched := true }
    multiQueueMemory := fun i =>
      if r * prioWidth ≤ i ∧ i < r * prioWidth + bmqBitmapSize then none else s.multiQueueMemory i }

/-- A node handed out is one that was free. -/
theorem initializeRqnode_eq_some {cfg : SchedConfig} {s t : SchedState} {vm : Option VmId}
    {prio : Nat} {r : RNode} (h : initializeRqnode cfg s vm prio = some (r, t)) :
    r < cfg.rnodeNum ∧ bitmapGet s.rqnodeMemBitmap r = false ∧ t = s.withRqnode r vm prio := by
  obtain ⟨⟨w, u⟩, hmalloc, h⟩ := Option.map_eq_some_iff.mp h
  simp only [mallocRqnode] at hmalloc
  split at hmalloc
  · cases hmalloc
  · rename_i hfound
    cases hmalloc
    cases h
    rcases bitmapFindNth_one s.rqnodeMemBitmap cfg.rnodeNum 0 false with
      ⟨hnone, -⟩ | ⟨w, hw, -, hlt, hfree, -⟩
    · exact absurd hnone hfound
    · rw [hw]
      exact ⟨hlt, hfree, rfl⟩

theorem bfsExpire_eq_some {s t : SchedState} {r : RNode} (h : bfsExpire s r = some t) :
    (s.rqnodeMemory r).timeSlice = 0 ∧ t = s.modifyRq r fun n =>
      { n with vdeadline := s.bfsClock + n.vdeadlineDiff, state := .ready, needResched := true } := by
  unfold bfsExpire at h
  split at h
  · cases h
  · rename_i hslice
    cases h
    exact ⟨not_not.mp hslice, rfl⟩

theorem bfsRun_eq_some {s t : SchedState} {c : PCpuId} {r : RNode} (h : bfsRun s c r = some t) :
    ∃ m, (s.rqnodeMemory r).vm = some m ∧ t = bfsAssign s c r m := by
  obtain ⟨m, hm, rfl⟩ := Option.map_eq_some_iff.mp h
  exact ⟨m, hm, rfl⟩

/-- A lookup that finds nothing stores nothing. -/
theorem pTaskLookup_eq_none {cfg : SchedConfig} {s t : SchedState}
    (h : pTaskLookup cfg s = some (none, t)) : t = s := by
  obtain ⟨head, -, h⟩ := Option.bind_eq_some_iff.mp h
  obtain ⟨found, -, h⟩ := Option.bind_eq_some_iff.mp h
  cases found with
  | none =>
    cases h
    rfl
  | some r =>
    obtain ⟨u, -, hu⟩ := Option.map_eq_some_iff.mp h
    cases hu

/-- A lookup that finds a node takes it out of the list. -/
theorem pTaskLookup_eq_some {cfg : SchedConfig} {s t : SchedState} {r : RNode}
    (h : pTaskLookup cfg s = some (some r, t)) :
    ∃ head, s.rqPtr = some head ∧
      pTaskScan s cfg.rnodeNum (s.rnext head) none = some (some r) ∧ rqRemove s r = some t := by
  obtain ⟨head, hhead, h⟩ := Option.bind_eq_some_iff.mp h
  obtain ⟨found, hscan, h⟩ := Option.bind_eq_some_iff.mp h
  cases found with
  | none => cases h
  | some x =>
    obtain ⟨u, hremove, h⟩ := Option.map_eq_some_iff.mp h
    cases h
    exact ⟨head, hhead, hscan, hremove⟩

/-- The scan visits the list and returns the target so far or a node of the list. -/
theorem pTaskScan_mem {s : SchedState} {fuel : Nat} {p target found : Option RNode} {l : List RNode}
    (hl : LinkedList.Chain s.rnext p l) (h : pTaskScan s fuel p target = some found) :
    found = target ∨ ∃ r ∈ l, found = some r := by
  induction l generalizing p target fuel with
  | nil =>
    rw [LinkedList.chain_nil] at hl
    subst hl
    cases fuel <;> simp only [pTaskScan, Option.some.injEq] at h <;> exact .inl h.symm
  | cons x l ih =>
    obtain ⟨rfl, hrest⟩ := hl
    cases fuel with
    | zero => simp only [pTaskScan, reduceCtorEq] at h
    | succ fuel =>
      simp only [pTaskScan] at h
      rcases ih hrest h with h | ⟨r, hr, h⟩
      · split at h
        · exact .inr ⟨x, List.mem_cons_self, h⟩
        · exact .inl h
      · exact .inr ⟨r, List.mem_cons_of_mem _ hr, h⟩

/-- The scan returns a node whose deadline is the least of those with a ready vCPU. -/
theorem pTaskScan_least {s : SchedState} {fuel : Nat} {p target : Option RNode} {l : List RNode}
    {r : RNode} (hl : LinkedList.Chain s.rnext p l) (h : pTaskScan s fuel p target = some (some r)) :
    (∀ x ∈ l, (s.rqnodeMemory x).nrVcpuReady > 0 →
      (s.rqnodeMemory r).vdeadline ≤ (s.rqnodeMemory x).vdeadline) ∧
    ∀ x, target = some x → (s.rqnodeMemory r).vdeadline ≤ (s.rqnodeMemory x).vdeadline := by
  induction l generalizing p target fuel with
  | nil =>
    rw [LinkedList.chain_nil] at hl
    subst hl
    have htarget : target = some r := by
      cases fuel <;> simpa only [pTaskScan, Option.some.injEq] using h
    refine ⟨fun x hx => absurd hx List.not_mem_nil, fun x hx => ?_⟩
    obtain rfl : r = x := Option.some.inj (htarget.symm.trans hx)
    exact BitVec.le_refl _
  | cons y l ih =>
    obtain ⟨rfl, hrest⟩ := hl
    cases fuel with
    | zero => simp only [pTaskScan, reduceCtorEq] at h
    | succ fuel =>
      simp only [pTaskScan] at h
      obtain ⟨hlist, htarget⟩ := ih hrest h
      split at htarget
      · rename_i hbetter
        have hy := htarget y rfl
        refine ⟨fun x hx hready => ?_, fun x hx => ?_⟩
        · rcases List.mem_cons.mp hx with rfl | hx
          · exact hy
          · exact hlist x hx hready
        · exact BitVec.le_trans hy (BitVec.le_of_lt (hbetter.2 x hx))
      · rename_i hbetter
        refine ⟨fun x hx hready => ?_, htarget⟩
        rcases List.mem_cons.mp hx with rfl | hx
        · -- the target so far is no worse
          simp only [hready, true_and, Classical.not_forall] at hbetter
          obtain ⟨z, hz, hle⟩ := hbetter
          exact BitVec.le_trans (htarget z hz) (BitVec.not_lt.mp hle)
        · exact hlist x hx hready

/-- The scan ends on a list that is not longer than `fuel`. -/
theorem pTaskScan_isSome {s : SchedState} {fuel : Nat} {p target : Option RNode} {l : List RNode}
    (hl : LinkedList.Chain s.rnext p l) (hfuel : l.length ≤ fuel) :
    ∃ found, pTaskScan s fuel p target = some found := by
  induction l generalizing p target fuel with
  | nil =>
    rw [LinkedList.chain_nil] at hl
    subst hl
    cases fuel <;> exact ⟨target, rfl⟩
  | cons x l ih =>
    obtain ⟨rfl, hrest⟩ := hl
    cases fuel with
    | zero => simp at hfuel
    | succ fuel =>
      simp only [List.length_cons, Nat.add_le_add_iff_right] at hfuel
      simp only [pTaskScan]
      exact ih hrest hfuel

end Avisor
