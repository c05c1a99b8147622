import Mathlib.Order.Lattice

/-!
# The largest element a loop has seen

A loop over elements with ranks keeps the largest rank so far and the element it belongs to, and starts
from a rank that no element need have. It replaces them only by a larger rank, so the element it ends with is
one of the largest, if any is larger than the start.
-/

universe u v

variable {α : Type u} {β : Type v} [LinearOrder β]

/-- `best` is the largest of `start` and the ranks of the elements in `seen`, and `ind` an element with that
rank, unless it is `start` itself. -/
structure RunningMax (rank : α → β) (start : β) (seen : List α) (best : β) (ind : Option α) : Prop where
  le : ∀ a ∈ seen, rank a ≤ best
  start_of_none : ind = none → best = start
  of_some : ∀ a, ind = some a → a ∈ seen ∧ rank a = best ∧ start < best

namespace RunningMax

variable {rank : α → β} {start best : β} {seen : List α} {ind : Option α} {a : α}

theorem nil (rank : α → β) (start : β) : RunningMax rank start [] start none :=
  ⟨fun _ ha => absurd ha List.not_mem_nil, fun _ => rfl, fun a ha => absurd ha.symm (Option.some_ne_none a)⟩

theorem start_le (h : RunningMax rank start seen best ind) : start ≤ best := by
  cases hind : ind with
  | none => exact (h.start_of_none hind).ge
  | some a => exact (h.of_some a hind).2.2.le

/-- An element that is not larger is passed by. -/
theorem pass (h : RunningMax rank start seen best ind) (hle : rank a ≤ best) :
    RunningMax rank start (seen ++ [a]) best ind := by
  refine ⟨fun b hb => ?_, h.start_of_none, fun b hb => ?_⟩
  · rcases List.mem_append.mp hb with hb | hb
    · exact h.le b hb
    · rw [List.mem_singleton.mp hb]
      exact hle
  · obtain ⟨hmem, hrank⟩ := h.of_some b hb
    exact ⟨List.mem_append_left _ hmem, hrank⟩

/-- A larger one is taken. -/
theorem take (h : RunningMax rank start seen best ind) (hlt : best < rank a) :
    RunningMax rank start (seen ++ [a]) (rank a) (some a) := by
  refine ⟨fun b hb => ?_, fun hnone => absurd hnone (Option.some_ne_none a), fun b hb => ?_⟩
  · rcases List.mem_append.mp hb with hb | hb
    · exact (h.le b hb).trans hlt.le
    · rw [List.mem_singleton.mp hb]
  · cases hb
    exact ⟨by simp, rfl, h.start_le.trans_lt hlt⟩

/-- No element is found exactly if none is larger than the start. -/
theorem eq_none_iff (h : RunningMax rank start seen best ind) :
    ind = none ↔ ∀ a ∈ seen, rank a ≤ start := by
  constructor
  · intro hnone a ha
    rw [← h.start_of_none hnone]
    exact h.le a ha
  · intro hall
    cases hind : ind with
    | none => rfl
    | some a =>
      obtain ⟨hmem, hrank, hlt⟩ := h.of_some a hind
      rw [← hrank] at hlt
      exact absurd (hall a hmem) (not_le_of_gt hlt)

/-- An element that is found is larger than the start, and none is larger than it. -/
theorem of_eq_some (h : RunningMax rank start seen best ind) (hind : ind = some a) :
    a ∈ seen ∧ start < rank a ∧ ∀ b ∈ seen, rank b ≤ rank a := by
  obtain ⟨hmem, hrank, hlt⟩ := h.of_some a hind
  exact ⟨hmem, hrank ▸ hlt, fun b hb => hrank ▸ h.le b hb⟩

end RunningMax
