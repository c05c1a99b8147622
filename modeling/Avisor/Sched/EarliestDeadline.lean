import Avisor.Sched.Deadlines

/-!
# The choice of a VM

`p_task_lookup` goes once through the run queue, keeps the first node with a ready vCPU that has the
least deadline so far, and unlinks the one it ends with.
-/

namespace Avisor

open Function LinkedList

/-- The nodes of `l` are the run queue, behind its head. -/
structure RunQueue (cfg : SchedConfig) (s : SchedState) (head : RNode) (l : List RNode) : Prop where
  ptr : s.rqPtr = some head
  linked : Linked s.rnext s.rprev head l
  nodup : (head :: l).Nodup
  inMemory : ∀ r ∈ l, r < cfg.rnodeNum

/-- `r` is the first of the list `l₁ ++ r :: l₂` that has the least deadline of those with a ready
vCPU. -/
structure FirstLeast (s : SchedState) (l₁ l₂ : List RNode) (r : RNode) : Prop where
  ready : (s.rqnodeMemory r).nrVcpuReady > 0
  before : ∀ x ∈ l₁, (s.rqnodeMemory x).nrVcpuReady > 0 →
    (s.rqnodeMemory r).vdeadline < (s.rqnodeMemory x).vdeadline
  behind : ∀ x ∈ l₂, (s.rqnodeMemory x).nrVcpuReady > 0 →
    (s.rqnodeMemory r).vdeadline ≤ (s.rqnodeMemory x).vdeadline

variable {cfg : SchedConfig} {s t : SchedState} {head r : RNode} {l : List RNode}

/-- The scan keeps its target, if no node of the list is better, or returns the best of the list. -/
theorem pTaskScan_cases {fuel : Nat} {p target found : Option RNode} (hl : Chain s.rnext p l)
    (h : pTaskScan s fuel p target = some found) :
    (found = target ∧ ∀ x ∈ l, (s.rqnodeMemory x).nrVcpuReady > 0 →
      ∃ t, target = some t ∧ (s.rqnodeMemory t).vdeadline ≤ (s.rqnodeMemory x).vdeadline) ∨
    ∃ l₁ r l₂, l = l₁ ++ r :: l₂ ∧ found = some r ∧ FirstLeast s l₁ l₂ r ∧
      ∀ t, target = some t → (s.rqnodeMemory r).vdeadline < (s.rqnodeMemory t).vdeadline := by
  induction l generalizing p target fuel with
  | nil =>
    rw [chain_nil] at hl
    subst hl
    left
    refine ⟨?_, fun x hx => absurd hx List.not_mem_nil⟩
    cases fuel <;> simp only [pTaskScan, Option.some.injEq] at h <;> exact h.symm
  | cons y l ih =>
    obtain ⟨rfl, hrest⟩ := hl
    cases fuel with
    | zero => simp only [pTaskScan, reduceCtorEq] at h
    | succ fuel =>
      simp only [pTaskScan] at h
      split at h
      · rename_i hbetter
        right
        rcases ih hrest h with ⟨hfound, hkept⟩ | ⟨l₁, r, l₂, rfl, hfound, hleast, hlt⟩
        · refine ⟨[], y, l, rfl, hfound, ⟨hbetter.1, fun x hx => absurd hx List.not_mem_nil, ?_⟩,
            hbetter.2⟩
          intro x hx hready
          obtain ⟨t, ht, hle⟩ := hkept x hx hready
          cases ht
          exact hle
        · have hy := hlt y rfl
          refine ⟨y :: l₁, r, l₂, rfl, hfound, ⟨hleast.ready, fun x hx hready => ?_, hleast.behind⟩,
            fun t ht => BitVec.lt_trans hy (hbetter.2 t ht)⟩
          rcases List.mem_cons.mp hx with rfl | hx
          · exact hy
          · exact hleast.before x hx hready
      · rename_i hbetter
        have hy (hready : (s.rqnodeMemory y).nrVcpuReady > 0) : ∃ t, target = some t ∧
            (s.rqnodeMemory t).vdeadline ≤ (s.rqnodeMemory y).vdeadline := by
          simp only [hready, true_and, Classical.not_forall] at hbetter
          obtain ⟨t, ht, hle⟩ := hbetter
          exact ⟨t, ht, BitVec.not_lt.mp hle⟩
        rcases ih hrest h with ⟨hfound, hkept⟩ | ⟨l₁, r, l₂, rfl, hfound, hleast, hlt⟩
        · left
          refine ⟨hfound, fun x hx hready => ?_⟩
          rcases List.mem_cons.mp hx with rfl | hx
          · exact hy hready
          · exact hkept x hx hready
        · right
          refine ⟨y :: l₁, r, l₂, rfl, hfound, ⟨hleast.ready, fun x hx hready => ?_, hleast.behind⟩,
            hlt⟩
          rcases List.mem_cons.mp hx with rfl | hx
          · obtain ⟨t, ht, hle⟩ := hy hready
            exact BitVec.lt_def.mpr (Nat.lt_of_lt_of_le (BitVec.lt_def.mp (hlt t ht))
              (BitVec.le_def.mp hle))
          · exact hleast.before x hx hready

theorem RunQueue.length_le (h : RunQueue cfg s head l) : l.length ≤ cfg.rnodeNum :=
  h.linked.chain.length_le h.inMemory

/-- `rq_remove` takes a node out of the run queue. -/
theorem RunQueue.remove {l₁ l₂ : List RNode} (h : RunQueue cfg s head (l₁ ++ r :: l₂)) :
    ∃ t, rqRemove s r = some t ∧ RunQueue cfg t head (l₁ ++ l₂) ∧ t = s.relinkRq t.rnext t.rprev ∧
      t.rnext r = none ∧ t.rprev r = none ∧
      ∀ x, x ∉ head :: (l₁ ++ r :: l₂) → t.rnext x = s.rnext x ∧ t.rprev x = s.rprev x := by
  obtain ⟨p, hp, hpr, hrp, hrest⟩ := h.linked.split
  have hprev : (s.rqnodeMemory r).prev = some p := hrp
  obtain ⟨t, ht⟩ : ∃ t, rqRemove s r = some t := by
    simp only [rqRemove, hprev, Option.map_some]
    exact ⟨_, rfl⟩
  obtain ⟨p', hp', heq⟩ := rqRemove_eq_some ht
  obtain rfl : p = p' := Option.some.inj (hrp.symm.trans hp')
  have hsub : (l₁ ++ l₂).Sublist (l₁ ++ r :: l₂) :=
    List.Sublist.append_left (List.sublist_cons_self r l₂) l₁
  have hpmem : p ∈ head :: (l₁ ++ r :: l₂) := by
    rcases List.mem_cons.mp hp with rfl | hp
    · exact List.mem_cons_self
    · exact List.mem_cons_of_mem _ (List.mem_append_left _ hp)
  have hsucc (y) (hy : s.rnext r = some y) : y ∈ l₂ := by
    have hchain := hrest.chain
    rw [hy] at hchain
    exact hchain.head_mem
  have hrmem : r ∈ l₁ ++ r :: l₂ := List.mem_append_right _ List.mem_cons_self
  have hpne : p ≠ r := by
    rintro rfl
    have hnodup := h.nodup
    rcases List.mem_cons.mp hp with rfl | hp
    · exact (List.nodup_cons.mp hnodup).1 hrmem
    · exact (List.nodup_append.mp (List.nodup_cons.mp hnodup).2).2.2 p hp p List.mem_cons_self rfl
  have hyne (y) (hy : s.rnext r = some y) : y ≠ r := by
    rintro rfl
    have hnodup := (List.nodup_append.mp (List.nodup_cons.mp h.nodup).2).2.1
    exact (List.nodup_cons.mp hnodup).1 (hsucc y hy)
  have hnext (x) : t.rnext x = if x = r then none else if x = p then s.rnext r else s.rnext x := by
    rw [heq, relinkRq_rnext]
    by_cases hxr : x = r
    · rw [hxr, update_self, if_pos rfl]
    · rw [update_of_ne hxr, if_neg hxr]
      by_cases hxp : x = p
      · rw [hxp, update_self, if_pos rfl]
      · rw [update_of_ne hxp, if_neg hxp]
  have hback (x) : t.rprev x = if x = r then none
      else if s.rnext r = some x then some p else s.rprev x := by
    rw [heq, relinkRq_rprev]
    by_cases hxr : x = r
    · rw [hxr, if_pos rfl]
      cases s.rnext r <;> simp only [update_self]
    · rw [if_neg hxr]
      cases hsome : s.rnext r with
      | none => simp only [update_of_ne hxr, reduceCtorEq, if_false]
      | some f =>
        simp only [update_of_ne hxr, Option.some.injEq]
        by_cases hxf : x = f
        · rw [hxf, update_self, if_pos rfl]
        · rw [update_of_ne hxf, if_neg (Ne.symm hxf)]
  refine ⟨t, ht, ⟨?_, ?_, h.nodup.sublist (hsub.cons_cons head), fun x hx => ?_⟩, ?_, ?_, ?_, ?_⟩
  · rw [heq]
    exact h.ptr
  · refine h.linked.remove h.nodup ?_ ?_ ?_ ?_
    · intro q hq
      obtain rfl : p = q := Option.some.inj (hrp.symm.trans hq)
      rw [hnext, if_neg hpne, if_pos rfl]
    · intro y hy
      rw [hback, if_neg (hyne y hy), if_pos hy, hrp]
    · intro y hyr hyp
      rw [hnext, if_neg hyr, if_neg]
      rintro rfl
      exact hyp hrp
    · intro y hyr hy
      rw [hback, if_neg hyr, if_neg hy]
  · exact h.inMemory x (hsub.subset hx)
  · rw [heq]
    rfl
  · rw [hnext, if_pos rfl]
  · rw [hback, if_pos rfl]
  · intro x hx
    have hxr : x ≠ r := by
      rintro rfl
      exact hx (List.mem_cons_of_mem _ hrmem)
    have hxp : x ≠ p := by
      rintro rfl
      exact hx hpmem
    have hxy : s.rnext r ≠ some x := fun hy =>
      hx (List.mem_cons_of_mem _ (List.mem_append_right _ (List.mem_cons_of_mem _ (hsucc x hy))))
    rw [hnext, hback, if_neg hxr, if_neg hxp, if_neg hxr, if_neg hxy]
    exact ⟨rfl, rfl⟩

/-- `p_task_lookup` returns `NULL`, with the state as it was, just if no node has a ready vCPU.
Otherwise it returns the first node of the least deadline among those, and unlinks it. -/
theorem pTaskLookup_firstLeast (h : RunQueue cfg s head l) :
    (pTaskLookup cfg s = some (none, s) ↔ ∀ x ∈ l, ¬(s.rqnodeMemory x).nrVcpuReady > 0) ∧
    ((∃ x ∈ l, (s.rqnodeMemory x).nrVcpuReady > 0) → ∃ l₁ r l₂ t, l = l₁ ++ r :: l₂ ∧
      FirstLeast s l₁ l₂ r ∧ pTaskLookup cfg s = some (some r, t) ∧
      RunQueue cfg t head (l₁ ++ l₂) ∧ t = s.relinkRq t.rnext t.rprev ∧
      t.rnext r = none ∧ t.rprev r = none ∧
      ∀ x, x ∉ head :: l → t.rnext x = s.rnext x ∧ t.rprev x = s.rprev x) := by
  obtain ⟨found, hscan⟩ : ∃ found, pTaskScan s cfg.rnodeNum (s.rnext head) none = some found :=
    pTaskScan_isSome h.linked.chain h.length_le
  have hfirst : (s.rqnodeMemory head).next = s.rnext head := rfl
  rcases pTaskScan_cases h.linked.chain hscan with ⟨rfl, hnone⟩ | ⟨l₁, r, l₂, rfl, rfl, hleast, -⟩
  · have hidle (x) (hx : x ∈ l) : ¬(s.rqnodeMemory x).nrVcpuReady > 0 := fun hready => by
      obtain ⟨t, ht, -⟩ := hnone x hx hready
      cases ht
    have hnull : pTaskLookup cfg s = some (none, s) := by
      simp only [pTaskLookup, h.ptr, Option.bind_some, hfirst, hscan]
    refine ⟨iff_of_true hnull hidle, ?_⟩
    rintro ⟨x, hx, hready⟩
    exact absurd hready (hidle x hx)
  · obtain ⟨t, hremove, hqueue⟩ := h.remove
    have hfound : pTaskLookup cfg s = some (some r, t) := by
      simp only [pTaskLookup, h.ptr, Option.bind_some, hfirst, hscan, hremove, Option.map_some]
    have hrmem : r ∈ l₁ ++ r :: l₂ := List.mem_append_right _ List.mem_cons_self
    refine ⟨iff_of_false ?_ fun hidle => hidle r hrmem hleast.ready, fun _ =>
      ⟨l₁, r, l₂, t, rfl, hleast, hfound, hqueue⟩⟩
    rw [hfound]
    simp

/-- Three VMs wait, all with the same deadline. -/
theorem pTaskLookup_firstLeast_threeVms :
    ∃ l₁ r l₂ t, [3, 2, 1] = l₁ ++ r :: l₂ ∧ FirstLeast (timedBoot threeVms).sched l₁ l₂ r ∧
      pTaskLookup threeVms (timedBoot threeVms).sched = some (some r, t) ∧
      RunQueue threeVms t 0 (l₁ ++ l₂) ∧
      t = (timedBoot threeVms).sched.relinkRq t.rnext t.rprev ∧
      t.rnext r = none ∧ t.rprev r = none ∧ ∀ x, x ∉ [0, 3, 2, 1] →
        t.rnext x = (timedBoot threeVms).sched.rnext x ∧
        t.rprev x = (timedBoot threeVms).sched.rprev x := by
  have hnext : ((timedBoot threeVms).sched.rqPtr, (timedBoot threeVms).sched.rnext 0,
      (timedBoot threeVms).sched.rnext 3, (timedBoot threeVms).sched.rnext 2,
      (timedBoot threeVms).sched.rnext 1) = (some 0, some 3, some 2, some 1, none) := by decide
  have hprev : ((timedBoot threeVms).sched.rprev 3, (timedBoot threeVms).sched.rprev 2,
      (timedBoot threeVms).sched.rprev 1) = (some 0, some 3, some 2) := by decide
  simp only [Prod.mk.injEq] at hnext hprev
  obtain ⟨hptr, hhead, hsecond, hthird, hlast⟩ := hnext
  obtain ⟨hback, hback', hback''⟩ := hprev
  have hqueue : RunQueue threeVms (timedBoot threeVms).sched 0 [3, 2, 1] :=
    ⟨hptr, ⟨hhead, hback, hsecond, hback', hthird, hback'', hlast⟩, by decide, by decide⟩
  exact (pTaskLookup_firstLeast hqueue).2 ⟨3, List.mem_cons_self, by decide⟩

end Avisor
