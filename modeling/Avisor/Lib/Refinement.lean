import Avisor.Lib.Machine
import Mathlib.Data.Nat.Notation

/-!
# Refinement between machines

A machine refines another one when an abstraction takes each of its steps to a step of the other or to
no step at all. Then its runs are runs of the other, and what holds of all reachable states there holds
of the abstractions here.
-/

universe u v w x

namespace Machine

variable {σ : Type u} {α : Type v} {τ : Type w} {β : Type x}

/-- `abs` takes the states of `M` that meet the invariant `I` to states of `N`; `label` is the action
of `N` that an action of `M` comes to, if any. -/
structure Refines (M : Machine σ α) (N : Machine τ β) (I : σ → Prop) (abs : σ → τ)
    (label : σ → α → Option β) : Prop where
  invariant_init : ∀ {s}, M.Init s → I s
  invariant_step : ∀ {s a t}, I s → M.step s a = some t → I t
  init : ∀ {s}, M.Init s → N.Init (abs s)
  silent : ∀ {s a t}, I s → M.step s a = some t → label s a = none → abs t = abs s
  step : ∀ {s a t b}, I s → M.step s a = some t → label s a = some b →
    N.step (abs s) b = some (abs t)

namespace Refines

variable {M : Machine σ α} {N : Machine τ β} {I : σ → Prop} {abs : σ → τ} {label : σ → α → Option β}
  {s t : σ} {as : List α}

/-- A run is a run of the other machine, with at most as many steps. -/
theorem run (h : M.Refines N I abs label) (hrun : M.Run s as t) (hs : I s) :
    ∃ bs, bs.length ≤ as.length ∧ N.Run (abs s) bs (abs t) := by
  induction hrun with
  | nil s => exact ⟨[], Nat.le_refl _, .nil _⟩
  | @cons s t u a as hstep _ ih =>
    obtain ⟨bs, hlen, hrest⟩ := ih (h.invariant_step hs hstep)
    cases hlabel : label s a with
    | none =>
      rw [h.silent hs hstep hlabel] at hrest
      exact ⟨bs, Nat.le_succ_of_le hlen, hrest⟩
    | some b => exact ⟨b :: bs, Nat.succ_le_succ hlen, .cons (h.step hs hstep hlabel) hrest⟩

theorem invariant (h : M.Refines N I abs label) (hs : M.Reachable s) : I s :=
  hs.invariant (fun _ => h.invariant_init) fun _ _ _ => h.invariant_step

theorem reachable (h : M.Refines N I abs label) (hs : M.Reachable s) : N.Reachable (abs s) := by
  obtain ⟨s₀, as, hinit, hrun⟩ := hs
  obtain ⟨bs, -, hruns⟩ := h.run hrun (h.invariant_init hinit)
  exact ⟨abs s₀, bs, h.init hinit, hruns⟩

end Refines

end Machine
