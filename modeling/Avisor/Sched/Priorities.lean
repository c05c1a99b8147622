import Avisor.Sched.Boot

/-!
# The priority of a vCPU

`prio_manage` moves the adjustment of a vCPU node by one, down for a boost and up for a demotion, and
derives the priority from it. Both are clamped. The two cases are an `if` and an `else if`: a boost
that finds the adjustment at its lower end is taken for a demotion.
-/

namespace Avisor

open Function

/-- The calls of `prio_manage` on a vCPU node that `initialize_vCpuNode` has created; an action is the
argument `up_or_down`. -/
def prioMachine : Machine VCpuNode Int where
  Init n := ∃ cfg s vp staticPrio v t, staticPrio < prioWidth ∧
    initializeVCpuNode cfg s vp staticPrio = some (v, t) ∧ t.vpnodeMemory v = n
  step n upOrDown := some (prioManage n upOrDown)

namespace VCpuNode

/-- The adjustment is in its range, and the priority is the static one adjusted and clamped. -/
structure Clamped (n : VCpuNode) : Prop where
  static_lt : n.staticPrio < prioWidth
  low : -maxprioAdj ≤ n.prioAdj
  high : n.prioAdj ≤ maxprioAdj
  prio : (n.prio : Int) = max 0 (min (n.staticPrio + n.prioAdj) (prioWidth - 1))

/-- After a call with `upOrDown` the node is clamped, and the call has not moved its adjustment and
its priority the other way. -/
structure Obeys (n : VCpuNode) (upOrDown : Int) : Prop where
  clamped : (prioManage n upOrDown).Clamped
  boost : upOrDown = 1 →
    (prioManage n upOrDown).prio ≤ n.prio ∧ (prioManage n upOrDown).prioAdj ≤ n.prioAdj
  demotion : upOrDown ≠ 1 →
    n.prio ≤ (prioManage n upOrDown).prio ∧ n.prioAdj ≤ (prioManage n upOrDown).prioAdj

variable {n : VCpuNode} {upOrDown : Int}

theorem prioManage_prioAdj (n : VCpuNode) (upOrDown : Int) :
    (prioManage n upOrDown).prioAdj =
      if upOrDown = 1 ∧ n.prioAdj > -maxprioAdj then n.prioAdj - 1
      else if n.prioAdj < maxprioAdj then n.prioAdj + 1 else n.prioAdj := rfl

theorem prioManage_prio (n : VCpuNode) (upOrDown : Int) :
    (prioManage n upOrDown).prio =
      if n.staticPrio + (prioManage n upOrDown).prioAdj ≤ prioWidth - 1 ∧
        n.staticPrio + (prioManage n upOrDown).prioAdj ≥ 0
      then (n.staticPrio + (prioManage n upOrDown).prioAdj).toNat else n.prio := rfl

/-- The adjustment moves by one at most, within its range. -/
theorem Clamped.prioAdj (h : n.Clamped) (upOrDown : Int) :
    -maxprioAdj ≤ (prioManage n upOrDown).prioAdj ∧ (prioManage n upOrDown).prioAdj ≤ maxprioAdj ∧
      n.prioAdj - 1 ≤ (prioManage n upOrDown).prioAdj ∧
      (prioManage n upOrDown).prioAdj ≤ n.prioAdj + 1 := by
  have hlow := h.low
  have hhigh := h.high
  have hadj := prioManage_prioAdj n upOrDown
  split at hadj
  · simp only [maxprioAdj] at *
    omega
  · split at hadj <;> simp only [maxprioAdj] at * <;> omega

/-- Every call keeps the priority clamped: where the sum leaves the range the old priority is the end
that it leaves it at. -/
theorem Clamped.prioManage (h : n.Clamped) (upOrDown : Int) :
    (Avisor.prioManage n upOrDown).Clamped := by
  obtain ⟨hlow, hhigh, hdown, hup⟩ := h.prioAdj upOrDown
  refine ⟨h.static_lt, hlow, hhigh, ?_⟩
  have hstatic := h.static_lt
  have hprio := h.prio
  have hsame : (Avisor.prioManage n upOrDown).staticPrio = n.staticPrio := rfl
  have hnew := prioManage_prio n upOrDown
  rw [hsame]
  generalize (Avisor.prioManage n upOrDown).prioAdj = adj at *
  split at hnew <;> simp only [prioWidth, maxprioAdj] at * <;> omega

/-- A call does what it is for, unless it is a boost at the lower end of the range. -/
theorem Clamped.obeys_iff (h : n.Clamped) :
    n.Obeys upOrDown ↔ (upOrDown = 1 → n.prioAdj > -maxprioAdj) := by
  have hclamped := h.prioManage upOrDown
  have hold := h.prio
  have hnew := hclamped.prio
  have hadj := prioManage_prioAdj n upOrDown
  rw [show (Avisor.prioManage n upOrDown).staticPrio = n.staticPrio from rfl] at hnew
  constructor
  · intro hobeys hboost
    obtain ⟨-, hle⟩ := hobeys.boost hboost
    by_contra hend
    rw [if_neg fun hcond => hend hcond.2, if_pos] at hadj
    · omega
    · simp only [maxprioAdj] at hend ⊢
      omega
  · intro hcond
    refine ⟨hclamped, fun hboost => ?_, fun hdemotion => ?_⟩
    · rw [if_pos ⟨hboost, hcond hboost⟩] at hadj
      rw [hadj] at hnew
      exact ⟨by omega, by omega⟩
    · rw [if_neg fun hcond => hdemotion hcond.1] at hadj
      have hle : n.prioAdj ≤ (Avisor.prioManage n upOrDown).prioAdj := by
        rw [hadj]
        by_cases hend : n.prioAdj < maxprioAdj
        · rw [if_pos hend]
          omega
        · exact Int.le_of_eq (if_neg hend).symm
      exact ⟨by omega, hle⟩

end VCpuNode

theorem clamped_of_init {n : VCpuNode} (h : prioMachine.Init n) : n.Clamped := by
  obtain ⟨cfg, s, vp, staticPrio, v, t, hlt, hinit, rfl⟩ := h
  obtain ⟨-, -, rfl⟩ := initializeVCpuNode_eq_some hinit
  have hnode : (s.withVnode v vp staticPrio).vpnodeMemory v =
      { cur := vp, next := none, staticPrio := staticPrio, prioAdj := 0, prio := staticPrio,
        state := .ready, timeSlice := 0, needResched := true } := by
    simp [SchedState.withVnode, SchedState.modifyVnode]
  rw [hnode]
  simp only [prioWidth] at hlt
  constructor <;> simp only [prioWidth, maxprioAdj] <;> omega

/-- All calls of a sequence do what they are for exactly if none of them is a boost that finds the
adjustment at its lower end. -/
theorem prioManage_obeys_iff {n : VCpuNode} (h : prioMachine.Init n) (calls : List Int) :
    prioMachine.EachStep VCpuNode.Obeys n calls ↔
      prioMachine.EachStep (fun n upOrDown => upOrDown = 1 → n.prioAdj > -maxprioAdj) n calls := by
  apply Machine.eachStep_congr (I := VCpuNode.Clamped) (C := fun _ _ => True)
  · intro n upOrDown _ hn _ _
    exact hn.obeys_iff
  · intro n upOrDown t hn _ _ hstep
    cases hstep
    exact hn.prioManage upOrDown
  · exact clamped_of_init h
  · exact Machine.eachStep_of_forall fun _ _ => trivial

/-- A vCPU node as `initialize_vCpuNode` creates it with the default priority. -/
def defaultVnode : VCpuNode :=
  { cur := ⟨0, 0⟩, next := none, staticPrio := bmqDefaultPrio, prioAdj := 0, prio := bmqDefaultPrio,
    state := .ready, timeSlice := 0, needResched := true }

theorem defaultVnode_init : prioMachine.Init defaultVnode :=
  ⟨smallConfig, schedBoot, ⟨0, 0⟩, bmqDefaultPrio, 0, _, by decide, rfl, rfl⟩

theorem prioManage_obeys_iff_defaultVnode : prioMachine.EachStep VCpuNode.Obeys defaultVnode [1, 0] ↔
    prioMachine.EachStep (fun n upOrDown => upOrDown = 1 → n.prioAdj > -maxprioAdj) defaultVnode
      [1, 0] :=
  prioManage_obeys_iff defaultVnode_init [1, 0]

/-- The sixth boost in a row takes the priority from 0 to 1. -/
theorem prioManage_sixthBoost : prioMachine.Init defaultVnode ∧
    ¬prioMachine.EachStep VCpuNode.Obeys defaultVnode [1, 1, 1, 1, 1, 1] := by
  refine ⟨defaultVnode_init, fun h => ?_⟩
  have hrun : prioMachine.Run defaultVnode [1, 1, 1, 1, 1]
      ([1, 1, 1, 1, 1].foldl prioManage defaultVnode) :=
    Machine.run_eq_some_iff.mp rfl
  have hlast := Machine.EachStep.last h hrun rfl
  exact absurd (hlast.boost rfl).1 (by decide)

end Avisor
