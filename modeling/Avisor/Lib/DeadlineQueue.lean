import Mathlib.Data.List.Count
import Mathlib.Logic.Function.Basic

/-!
# Queues by deadline

A task that waits is chosen when no ready task that waits has an earlier deadline. A task that has run
gets a new deadline, `delta` behind the clock, and waits again. As long as a task runs for at least one
tick of the clock, each other task is chosen at most once while a ready one waits: the deadline it gets
afterwards is a later one.
-/

namespace DeadlineQueue

open Function

variable {α : Type*}

/-- Where a task is. -/
inductive Place
  | waiting
  | running
  /-- It has its new deadline and is not waiting yet. -/
  | expired
  deriving DecidableEq

/-- The tasks, with the clock at which each was chosen last. -/
structure Tasks (α : Type*) where
  clock : Nat
  place : α → Place
  deadline : α → Nat
  ready : α → Prop
  chosen : α → Option Nat

namespace Tasks

/-- A step, with the task that it chooses. -/
inductive Step [DecidableEq α] (delta : Nat) (t : Tasks α) : Option α → Tasks α → Prop
  | pass (clock : Nat) (ready : α → Prop) (le : t.clock ≤ clock) :
      Step delta t none { t with clock := clock, ready := ready }
  | expire (x) (runs : t.place x = .running) (later : ∀ k, t.chosen x = some k → k < t.clock) :
      Step delta t none { t with
        place := update t.place x .expired
        deadline := update t.deadline x (t.clock + delta) }
  | insert (x) (expired : t.place x = .expired) :
      Step delta t none { t with place := update t.place x .waiting }
  | choose (x) (waits : t.place x = .waiting)
      (least : ∀ y, t.place y = .waiting → t.ready y → t.deadline x ≤ t.deadline y) :
      Step delta t (some x) { t with
        place := update t.place x .running
        chosen := update t.chosen x (some t.clock) }

/-- A run of steps while `v` is ready, with the tasks they choose one after another. -/
inductive Run [DecidableEq α] (delta : Nat) (v : α) : Tasks α → List α → Tasks α → Prop
  | nil (t) : Run delta v t [] t
  | step {t t' t'' : Tasks α} {o : Option α} {l : List α} (ready : t.ready v)
      (h : Step delta t o t') (rest : Run delta v t' l t'') : Run delta v t (o.toList ++ l) t''

/-- How often `x` can still be chosen before `v`. -/
inductive Left (delta : Nat) (t : Tasks α) (v x : α) : Nat → Prop
  | once : Left delta t v x 1
  | late (idle : t.place x ≠ .running) (lt : t.deadline v < t.deadline x) : Left delta t v x 0
  | running (k) (runs : t.place x = .running) (chosen : t.chosen x = some k)
      (le : t.deadline v ≤ k + delta) : Left delta t v x 0

variable {delta n : Nat} {t t' : Tasks α} {o : Option α} {v x : α}

/-- What a step does to another task than `x` does not matter to `x`. -/
theorem Left.congr (h : Left delta t v x n) (place : t'.place x = t.place x)
    (chosen : t'.chosen x = t.chosen x) (deadline : t'.deadline x = t.deadline x)
    (deadline_v : t'.deadline v = t.deadline v) : Left delta t' v x n := by
  cases h with
  | once => exact .once
  | late idle lt =>
    refine .late ?_ ?_
    · rw [place]
      exact idle
    · rw [deadline, deadline_v]
      exact lt
  | running k runs hchosen le =>
    refine .running k (place.trans runs) (chosen.trans hchosen) ?_
    rw [deadline_v]
    exact le

variable [DecidableEq α]

/-- A task that waits keeps its deadline, and waits until it is chosen. -/
theorem Step.waits (h : Step delta t o t') (hv : t.place v = .waiting) (ho : o ≠ some v) :
    t'.place v = .waiting ∧ t'.deadline v = t.deadline v ∧ t.clock ≤ t'.clock := by
  have hne {y : α} {p : Place} (hy : t.place y = p) (hp : p ≠ .waiting) : v ≠ y := by
    rintro rfl
    exact hp (hy.symm.trans hv)
  cases h with
  | pass clock ready le => exact ⟨hv, rfl, le⟩
  | expire y runs =>
    have hvy := hne runs (by simp)
    exact ⟨(update_of_ne hvy ..).trans hv, update_of_ne hvy .., Nat.le_refl _⟩
  | insert y expired =>
    exact ⟨(update_of_ne (hne expired (by simp)) ..).trans hv, rfl, Nat.le_refl _⟩
  | choose y =>
    have hvy : v ≠ y := by
      rintro rfl
      exact ho rfl
    exact ⟨(update_of_ne hvy ..).trans hv, rfl, Nat.le_refl _⟩

/-- While `v` waits, a step that chooses `x` uses up its time. -/
theorem Step.left (h : Step delta t o t') (hleft : Left delta t v x n) (hv : t.place v = .waiting)
    (hready : t.ready v) (hclock : t.deadline v ≤ t.clock + delta) (ho : o ≠ some v) :
    ∃ n', Left delta t' v x n' ∧ n' + o.toList.count x ≤ n := by
  obtain ⟨-, hdeadline, -⟩ := h.waits hv ho
  cases h with
  | pass clock ready le => exact ⟨n, hleft.congr rfl rfl rfl rfl, Nat.le_refl n⟩
  | expire y runs later =>
    by_cases hxy : x = y
    · subst hxy
      cases hleft with
      | once => exact ⟨1, .once, Nat.le_refl 1⟩
      | late idle => exact absurd runs idle
      | running k _ chosen le =>
        refine ⟨0, .late (by simp) ?_, Nat.le_refl 0⟩
        rw [hdeadline]
        simp only [update_self]
        exact Nat.lt_of_le_of_lt le (Nat.add_lt_add_right (later k chosen) delta)
    · exact ⟨n, hleft.congr (update_of_ne hxy ..) rfl (update_of_ne hxy ..) hdeadline, Nat.le_refl n⟩
  | insert y expired =>
    by_cases hxy : x = y
    · subst hxy
      cases hleft with
      | once => exact ⟨1, .once, Nat.le_refl 1⟩
      | late idle lt => exact ⟨0, .late (by simp) lt, Nat.le_refl 0⟩
      | running k runs => exact absurd (runs.symm.trans expired) (by simp)
    · exact ⟨n, hleft.congr (update_of_ne hxy ..) rfl rfl hdeadline, Nat.le_refl n⟩
  | choose y waits least =>
    by_cases hxy : x = y
    · subst hxy
      cases hleft with
      | once => exact ⟨0, .running t.clock (by simp) (by simp) hclock, by simp⟩
      | late idle lt => exact absurd (least v hv hready) (Nat.not_le_of_lt lt)
      | running k runs => exact absurd (runs.symm.trans waits) (by simp)
    · refine ⟨n, hleft.congr (update_of_ne hxy ..) (update_of_ne hxy ..) rfl hdeadline, ?_⟩
      have hcount : (some y).toList.count x = 0 := by simp [Ne.symm hxy]
      rw [hcount]
      exact Nat.le_refl n

theorem Run.count_le {l : List α} (h : Run delta v t l t') (hleft : Left delta t v x n)
    (hv : t.place v = .waiting) (hclock : t.deadline v ≤ t.clock + delta) (hl : v ∉ l) :
    l.count x ≤ n := by
  induction h generalizing n with
  | nil => exact Nat.zero_le n
  | @step t t' t'' o l hready hstep _ ih =>
    have ho : o ≠ some v := by
      rintro rfl
      exact hl (List.mem_append_left _ (by simp))
    obtain ⟨n', hleft', hle⟩ := hstep.left hleft hv hready hclock ho
    obtain ⟨hwaits, hdeadline, hlater⟩ := hstep.waits hv ho
    have hrest := ih hleft' hwaits (by omega) fun hmem => hl (List.mem_append_right _ hmem)
    rw [List.count_append]
    omega

/-- While a ready task waits, each task is chosen at most once. -/
theorem Run.count_le_one {l : List α} (h : Run delta v t l t') (hv : t.place v = .waiting)
    (hclock : t.deadline v ≤ t.clock + delta) (hl : v ∉ l) : l.count x ≤ 1 :=
  h.count_le .once hv hclock hl

end Tasks

end DeadlineQueue
