import Mathlib.Order.Basic

/-!
# Deterministic machines and their runs

A machine steps a state by an action; `none` means the action cannot be taken there. The rules of
this file carry a fact from single steps to whole runs: an invariant holds in every reachable state,
and a property that a step keeps exactly when the step meets a condition holds along a run exactly
when every step of the run meets it.
-/

universe u v

/-- A deterministic machine over states `σ` driven by actions `α`. -/
structure Machine (σ : Type u) (α : Type v) where
  Init : σ → Prop
  step : σ → α → Option σ

namespace Machine

variable {σ : Type u} {α : Type v} (M : Machine σ α)

/-- `Run s as t`: taking the actions `as` one after another leads from `s` to `t`. -/
inductive Run : σ → List α → σ → Prop
  | nil (s : σ) : Run s [] s
  | cons {s t u : σ} {a : α} {as : List α} (h : M.step s a = some t) (rest : Run t as u) :
      Run s (a :: as) u

/-- The states some run from an initial state ends in. -/
def Reachable (s : σ) : Prop := ∃ s₀ as, M.Init s₀ ∧ M.Run s₀ as s

/-- `P` holds in `s` and in every state the actions `as` lead through. -/
def Always (P : σ → Prop) : σ → List α → Prop
  | s, [] => P s
  | s, a :: as => P s ∧ ∀ t, M.step s a = some t → Always P t as

/-- Every step that the actions `as` take from `s` on meets `C`, a condition on the state before the
step and the action. -/
def EachStep (C : σ → α → Prop) : σ → List α → Prop
  | _, [] => True
  | s, a :: as => ∀ t, M.step s a = some t → C s a ∧ EachStep C t as

instance EachStep.decidable {C : σ → α → Prop} [∀ s a, Decidable (C s a)] :
    ∀ s as, Decidable (M.EachStep C s as)
  | _, [] => isTrue trivial
  | s, a :: as =>
    have := fun t => EachStep.decidable (C := C) t as
    inferInstanceAs (Decidable (∀ t ∈ M.step s a, C s a ∧ M.EachStep C t as))

/-- `P` is kept by every step. -/
def Preserves (P : σ → Prop) : Prop := ∀ s a t, P s → M.step s a = some t → P t

/-- `run` computes the end of a run. -/
def run : σ → List α → Option σ
  | s, [] => some s
  | s, a :: as => (M.step s a).bind fun t => run t as

variable {M}

theorem Run.append {s t u : σ} {as bs : List α} (h : M.Run s as t) (h' : M.Run t bs u) :
    M.Run s (as ++ bs) u := by
  induction h with
  | nil => exact h'
  | cons hstep _ ih => exact .cons hstep (ih h')

theorem Run.of_append {s u : σ} {as bs : List α} (h : M.Run s (as ++ bs) u) :
    ∃ t, M.Run s as t ∧ M.Run t bs u := by
  induction as generalizing s with
  | nil => exact ⟨s, .nil s, h⟩
  | cons a as ih =>
    cases h with
    | cons hstep hrest =>
      obtain ⟨t, hbefore, hbehind⟩ := ih hrest
      exact ⟨t, .cons hstep hbefore, hbehind⟩

theorem run_eq_some_iff {s t : σ} {as : List α} : M.run s as = some t ↔ M.Run s as t := by
  induction as generalizing s with
  | nil =>
    constructor
    · intro h
      cases h
      exact .nil _
    · rintro ⟨⟩
      rfl
  | cons a as ih =>
    constructor
    · intro h
      obtain ⟨u, hstep, hrest⟩ := Option.bind_eq_some_iff.mp h
      exact .cons hstep (ih.mp hrest)
    · rintro ⟨⟩
      rename_i u hstep hrest
      exact Option.bind_eq_some_iff.mpr ⟨u, hstep, ih.mpr hrest⟩

theorem Run.invariant {P : σ → Prop} (hP : M.Preserves P) {s t : σ} {as : List α}
    (h : M.Run s as t) (hs : P s) : P t := by
  induction h with
  | nil => exact hs
  | cons hstep _ ih => exact ih (hP _ _ _ hs hstep)

theorem Reachable.step {s t : σ} {a : α} (h : M.Reachable s) (hstep : M.step s a = some t) :
    M.Reachable t := by
  obtain ⟨s₀, as, h₀, hrun⟩ := h
  exact ⟨s₀, as ++ [a], h₀, hrun.append (.cons hstep (.nil t))⟩

theorem Reachable.invariant {P : σ → Prop} (hinit : ∀ s, M.Init s → P s) (hP : M.Preserves P)
    {s : σ} (h : M.Reachable s) : P s := by
  obtain ⟨s₀, as, h₀, hrun⟩ := h
  exact hrun.invariant hP (hinit s₀ h₀)

theorem Always.head {P : σ → Prop} {s : σ} {as : List α} (h : M.Always P s as) : P s := by
  cases as with
  | nil => exact h
  | cons => exact h.1

/-- The last state of a run is one of the states it leads through. -/
theorem Always.last {P : σ → Prop} {s t : σ} {as : List α} (h : M.Always P s as)
    (hrun : M.Run s as t) : P t := by
  induction hrun with
  | nil => exact h
  | cons hstep _ ih => exact ih (h.2 _ hstep)

theorem Always.mono {P Q : σ → Prop} {s : σ} {as : List α} (h : M.Always P s as) (hPQ : ∀ s, P s → Q s) :
    M.Always Q s as := by
  induction as generalizing s with
  | nil => exact hPQ s h
  | cons a as ih => exact ⟨hPQ s h.1, fun t hstep => ih (h.2 t hstep)⟩

theorem EachStep.mono {C D : σ → α → Prop} (hCD : ∀ s a, C s a → D s a) {s : σ} {as : List α}
    (h : M.EachStep C s as) : M.EachStep D s as := by
  induction as generalizing s with
  | nil => trivial
  | cons a as ih => exact fun t hstep => ⟨hCD s a (h t hstep).1, ih (h t hstep).2⟩

theorem eachStep_of_forall {C : σ → α → Prop} (hC : ∀ s a, C s a) {s : σ} {as : List α} :
    M.EachStep C s as := by
  induction as generalizing s with
  | nil => trivial
  | cons a as ih => exact fun t _ => ⟨hC s a, ih⟩

theorem eachStep_cons {C : σ → α → Prop} {s t : σ} {a : α} {as : List α} (hstep : M.step s a = some t)
    (hC : C s a) (h : M.EachStep C t as) : M.EachStep C s (a :: as) := by
  intro u hu
  obtain rfl : t = u := Option.some.inj (hstep.symm.trans hu)
  exact ⟨hC, h⟩

/-- The steps behind a run, and the steps of the run. -/
theorem EachStep.of_append {C : σ → α → Prop} {s t : σ} {as bs : List α}
    (h : M.EachStep C s (as ++ bs)) (hrun : M.Run s as t) : M.EachStep C s as ∧ M.EachStep C t bs := by
  induction hrun with
  | nil => exact ⟨trivial, h⟩
  | @cons s t u a as hfirst _ ih =>
    obtain ⟨hC, hrest⟩ := h t hfirst
    obtain ⟨hbefore, hbehind⟩ := ih hrest
    exact ⟨eachStep_cons hfirst hC hbefore, hbehind⟩

/-- The last step of a run is one of its steps. -/
theorem EachStep.last {C : σ → α → Prop} {s t u : σ} {as : List α} {a : α}
    (h : M.EachStep C s (as ++ [a])) (hrun : M.Run s as t) (hstep : M.step t a = some u) : C t a := by
  induction hrun with
  | nil => exact (h u hstep).1
  | cons hfirst _ ih => exact ih (h _ hfirst).2 hstep

/-- Where steps that meet `C` keep `I`, a run of such steps stays in what `I` implies. -/
theorem always_of_eachStep {I P : σ → Prop} {C : σ → α → Prop}
    (hI : ∀ s a t, I s → C s a → M.step s a = some t → I t) (hP : ∀ s, I s → P s)
    {s : σ} {as : List α} (hs : I s) (h : M.EachStep C s as) : M.Always P s as := by
  induction as generalizing s with
  | nil => exact hP s hs
  | cons a as ih =>
    refine ⟨hP s hs, fun t ht => ?_⟩
    obtain ⟨hC, hrest⟩ := h t ht
    exact ih (hI s a t hs hC ht) hrest

/-- Where steps that meet `C` keep `I` and meet `D`, the steps of a run do. -/
theorem eachStep_of_eachStep {I : σ → Prop} {C D : σ → α → Prop}
    (hD : ∀ s a t, I s → C s a → M.step s a = some t → D s a)
    (hI : ∀ s a t, I s → C s a → M.step s a = some t → I t) {s : σ} {as : List α} (hs : I s)
    (h : M.EachStep C s as) : M.EachStep D s as := by
  induction as generalizing s with
  | nil => trivial
  | cons a as ih =>
    intro t ht
    obtain ⟨hC, hrest⟩ := h t ht
    exact ⟨hD s a t hs hC ht, ih (hI s a t hs hC ht) hrest⟩

/-- Where two conditions on the steps agree as long as `I` holds, and steps that meet them keep `I`,
they agree along a run. -/
theorem eachStep_congr {I : σ → Prop} {C D E : σ → α → Prop}
    (hDE : ∀ s a t, I s → C s a → M.step s a = some t → (D s a ↔ E s a))
    (hI : ∀ s a t, I s → C s a → D s a → M.step s a = some t → I t)
    {s : σ} {as : List α} (hs : I s) (h : M.EachStep C s as) :
    M.EachStep D s as ↔ M.EachStep E s as := by
  induction as generalizing s with
  | nil => exact Iff.rfl
  | cons a as ih =>
    constructor
    · intro hD t ht
      obtain ⟨hC, hrest⟩ := h t ht
      obtain ⟨hDs, hDrest⟩ := hD t ht
      exact ⟨(hDE s a t hs hC ht).mp hDs, (ih (hI s a t hs hC hDs ht) hrest).mp hDrest⟩
    · intro hE t ht
      obtain ⟨hC, hrest⟩ := h t ht
      obtain ⟨hEs, hErest⟩ := hE t ht
      have hDs := (hDE s a t hs hC ht).mpr hEs
      exact ⟨hDs, (ih (hI s a t hs hC hDs ht) hrest).mpr hErest⟩

/-- Where a step keeps `P` exactly when it meets `C`, a run stays in `P` exactly when all its steps
meet `C`. The step lemmas may use an invariant `I`, and a fact `H` that steps meeting `C` hand on. -/
theorem always_iff_eachStep {I P H : σ → Prop} {C : σ → α → Prop} (hI : M.Preserves I)
    (hH : ∀ s a t, I s → P s → H s → M.step s a = some t → C s a → H t)
    (hstep : ∀ s a t, I s → P s → H s → M.step s a = some t → (P t ↔ C s a))
    {s : σ} {as : List α} (hIs : I s) (hPs : P s) (hHs : H s) :
    M.Always P s as ↔ M.EachStep C s as := by
  induction as generalizing s with
  | nil => exact ⟨fun _ => trivial, fun _ => hPs⟩
  | cons a as ih =>
    constructor
    · intro h t ht
      have hrest := h.2 t ht
      have hC := (hstep s a t hIs hPs hHs ht).mp hrest.head
      have hHt := hH s a t hIs hPs hHs ht hC
      exact ⟨hC, (ih (hI s a t hIs ht) hrest.head hHt).mp hrest⟩
    · refine fun h => ⟨hPs, fun t ht => ?_⟩
      obtain ⟨hC, hrest⟩ := h t ht
      have hHt := hH s a t hIs hPs hHs ht hC
      exact (ih (hI s a t hIs ht) ((hstep s a t hIs hPs hHs ht).mpr hC) hHt).mpr hrest

end Machine
