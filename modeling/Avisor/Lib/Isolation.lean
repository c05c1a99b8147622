import Avisor.Lib.Machine
import Mathlib.Data.Set.Basic

/-!
# Domains with memory of their own

A keeper hands out cells of a store to domains, and keeps some for itself. A domain names its cells by places of its
own. Cells outside the store may be handed out to several domains. What a domain sees in the store changes by its own
steps only.
-/

universe u v w x y z

/-- Which cell a domain has at which place, the cells that the keeper keeps, those that are free, and what is in each
cell. -/
structure Domains (κ : Type u) (ν : Type v) (φ : Type w) (V : Type x) where
  holds : κ → ν → Option φ
  kept : Set φ
  free : Set φ
  mem : φ → V

namespace Domains

variable {κ : Type u} {ν : Type v} {φ : Type w} {V : Type x} {store out : Set φ} {s t : Domains κ ν φ V} {k k' : κ}
  {actor : Option κ} {p p' : ν} {r : φ} {x : V}

/-- A cell of the store is at one place of one domain at most, or kept, or free. -/
structure Isolated (store : Set φ) (s : Domains κ ν φ V) : Prop where
  held : ∀ {k p r}, s.holds k p = some r → r ∈ store → r ∉ s.free ∧ r ∉ s.kept
  apart : ∀ {k p k' p' r}, s.holds k p = some r → s.holds k' p' = some r → r ∈ store → k = k' ∧ p = p'
  kept : ∀ {r}, r ∈ s.kept → r ∈ store ∧ r ∉ s.free
  free : s.free ⊆ store

/-- `k` sees `x` in the store, at the place `p`. -/
def Sees (store : Set φ) (s : Domains κ ν φ V) (k : κ) (p : ν) (x : V) : Prop :=
  ∃ r ∈ store, s.holds k p = some r ∧ s.mem r = x

/-- What may happen in one step, of the domain `actor` or of the keeper: cells that were free are handed out once or
kept, and what is written was free or kept, is the actor's or is in `out` and lies outside the store. -/
structure Step (store out : Set φ) (actor : Option κ) (s t : Domains κ ν φ V) : Prop where
  keeps : ∀ {k p r}, s.holds k p = some r → t.holds k p = some r
  comes : ∀ {k p r}, t.holds k p = some r → r ∈ store →
    s.holds k p = some r ∨ r ∈ s.free ∧ r ∉ t.free ∧ r ∉ t.kept
  once : ∀ {k p k' p' r}, t.holds k p = some r → t.holds k' p' = some r → r ∈ s.free → k = k' ∧ p = p'
  keeping : ∀ {r}, r ∈ t.kept → r ∈ s.kept ∨ r ∈ s.free ∧ r ∉ t.free
  takes : t.free ⊆ s.free
  writes : ∀ {r}, t.mem r ≠ s.mem r →
    r ∈ s.free ∨ r ∈ s.kept ∨ (r ∈ out ∧ r ∉ store) ∨ ∃ k p, actor = some k ∧ s.holds k p = some r

theorem Isolated.step (h : s.Isolated store) (hstep : Step store out actor s t) : t.Isolated store where
  held {k p r} hhold hr := by
    rcases hstep.comes hhold hr with hold | ⟨-, hnew⟩
    · obtain ⟨hused, hnot⟩ := h.held hold hr
      refine ⟨fun hfree => hused (hstep.takes hfree), fun hkept => ?_⟩
      exact (hstep.keeping hkept).elim hnot fun hnew => hused hnew.1
    · exact hnew
  apart {k p k' p' r} hhold hhold' hr := by
    rcases hstep.comes hhold hr with hold | ⟨hfree, -⟩
    · rcases hstep.comes hhold' hr with hold' | ⟨hfree, -⟩
      · exact h.apart hold hold' hr
      · exact hstep.once hhold hhold' hfree
    · exact hstep.once hhold hhold' hfree
  kept {r} hr := by
    rcases hstep.keeping hr with hkept | ⟨hfree, hused⟩
    · exact ⟨(h.kept hkept).1, fun hfree => (h.kept hkept).2 (hstep.takes hfree)⟩
    · exact ⟨h.free hfree, hused⟩
  free r hr := h.free (hstep.takes hr)

/-- What a domain sees is not changed by a step of others. -/
theorem Sees.step (h : s.Sees store k p x) (hs : s.Isolated store) (hstep : Step store out actor s t)
    (hactor : actor ≠ some k) : t.Sees store k p x := by
  obtain ⟨r, hr, hhold, rfl⟩ := h
  refine ⟨r, hr, hstep.keeps hhold, ?_⟩
  by_contra hne
  rcases hstep.writes hne with hfree | hkept | ⟨-, hout⟩ | ⟨k', p', rfl, hhold'⟩
  · exact (hs.held hhold hr).1 hfree
  · exact (hs.held hhold hr).2 hkept
  · exact hout hr
  · exact hactor (congrArg some (hs.apart hhold' hhold hr).1)

/-- A step of the keeper leaves what lies outside the store, but for `out`. -/
theorem Step.outside (hstep : Step store out none s t) (hs : s.Isolated store) (hr : r ∉ store) (hout : r ∉ out) :
    t.mem r = s.mem r := by
  by_contra hne
  rcases hstep.writes hne with hfree | hkept | ⟨hin, -⟩ | ⟨k, p, hactor, -⟩
  · exact hr (hs.free hfree)
  · exact hr (hs.kept hkept).1
  · exact hout hin
  · cases hactor

theorem Step.refl (store out : Set φ) (actor : Option κ) (s : Domains κ ν φ V) (hs : s.Isolated store) :
    Step store out actor s s where
  keeps hhold := hhold
  comes hhold _ := .inl hhold
  once hhold hhold' hfree := hs.apart hhold hhold' (hs.free hfree)
  keeping hkept := .inl hkept
  takes _ hfree := hfree
  writes hne := absurd rfl hne

/-- One domain writes to a cell of its own. -/
theorem Step.stores [DecidableEq φ] (hs : s.Isolated store) (hhold : s.holds k p = some r) (x : V) :
    Step store out (some k) s { s with mem := Function.update s.mem r x } where
  keeps hhold := hhold
  comes hhold _ := .inl hhold
  once hhold hhold' hfree := hs.apart hhold hhold' (hs.free hfree)
  keeping hkept := .inl hkept
  takes _ hfree := hfree
  writes {r'} hne := by
    obtain rfl : r' = r := by
      by_contra hother
      exact hne (Function.update_of_ne hother _ _)
    exact .inr (.inr (.inr ⟨k, p, rfl, hhold⟩))

/-- What a domain has written it sees. -/
theorem sees_stored [DecidableEq φ] (hhold : s.holds k p = some r) (hr : r ∈ store) (x : V) :
    ({ s with mem := Function.update s.mem r x } : Domains κ ν φ V).Sees store k p x :=
  ⟨r, hr, hhold, Function.update_self r x s.mem⟩

/-- What was written at another place is not seen. -/
theorem Sees.stored [DecidableEq φ] (h : s.Sees store k p x) (hs : s.Isolated store)
    (hhold : s.holds k' p' = some r) (hne : ¬(k' = k ∧ p' = p)) (y : V) :
    ({ s with mem := Function.update s.mem r y } : Domains κ ν φ V).Sees store k p x := by
  obtain ⟨r', hr', hhold', rfl⟩ := h
  have hother : r' ≠ r := fun heq => hne (hs.apart hhold (heq ▸ hhold') (heq ▸ hr'))
  exact ⟨r', hr', hhold', Function.update_of_ne hother y s.mem⟩

/-- A machine whose steps are such steps, each under a condition, keeps its domains isolated. -/
theorem always_isolated {σ : Type y} {α : Type z} {M : Machine σ α} {C : σ → α → Prop} {I : σ → Prop}
    (domains : σ → Domains κ ν φ V) (out : α → Set φ) (actor : α → Option κ)
    (hI : ∀ s a t, I s → C s a → M.step s a = some t → (domains s).Isolated store →
      I t ∧ Step store (out a) (actor a) (domains s) (domains t))
    {a : σ} {as : List α} (ha : I a) (hisolated : (domains a).Isolated store) (h : M.EachStep C a as) :
    M.Always (fun s => I s ∧ (domains s).Isolated store) a as := by
  refine Machine.always_of_eachStep (I := fun s => I s ∧ (domains s).Isolated store) (fun s a t hs hC hstep => ?_)
    (fun _ hs => hs) ⟨ha, hisolated⟩ h
  obtain ⟨ht, hmoves⟩ := hI s a t hs.1 hC hstep hs.2
  exact ⟨ht, hs.2.step hmoves⟩

/-- What a domain sees stays along a run in which its own steps leave it. -/
theorem Sees.run {σ : Type y} {α : Type z} {M : Machine σ α} {C : σ → α → Prop} {I : σ → Prop} {Q : α → Prop}
    (domains : σ → Domains κ ν φ V) (out : α → Set φ) (actor : α → Option κ)
    (hI : ∀ s a t, I s → C s a → M.step s a = some t → (domains s).Isolated store →
      I t ∧ Step store (out a) (actor a) (domains s) (domains t))
    (hQ : ∀ s a t, I s → C s a → M.step s a = some t → (domains s).Isolated store → actor a = some k → Q a →
      (domains s).Sees store k p x → (domains t).Sees store k p x)
    {a b : σ} {as : List α} (hrun : M.Run a as b) (ha : I a) (hisolated : (domains a).Isolated store)
    (h : M.EachStep C a as) (has : ∀ act ∈ as, Q act) (hsees : (domains a).Sees store k p x) :
    (domains b).Sees store k p x := by
  induction hrun with
  | nil => exact hsees
  | @cons s t u act as hstep _ ih =>
    obtain ⟨hC, hrest⟩ := h t hstep
    obtain ⟨ht, hmoves⟩ := hI s act t ha hC hstep hisolated
    apply ih ht (hisolated.step hmoves) hrest fun act hact => has act (List.mem_cons_of_mem _ hact)
    by_cases hactor : actor act = some k
    · exact hQ s act t ha hC hstep hisolated hactor (has act List.mem_cons_self) hsees
    · exact hsees.step hisolated hmoves hactor

/-- What lies outside the store stays along a run of the keeper's steps that leave it. -/
theorem outside_run {σ : Type y} {α : Type z} {M : Machine σ α} {C : σ → α → Prop} {I : σ → Prop}
    (domains : σ → Domains κ ν φ V) (out : α → Set φ) (actor : α → Option κ)
    (hI : ∀ s a t, I s → C s a → M.step s a = some t → (domains s).Isolated store →
      I t ∧ Step store (out a) (actor a) (domains s) (domains t))
    {a b : σ} {as : List α} (hrun : M.Run a as b) (ha : I a) (hisolated : (domains a).Isolated store)
    (h : M.EachStep C a as) (hr : r ∉ store) (has : ∀ act ∈ as, actor act = none ∧ r ∉ out act) :
    (domains b).mem r = (domains a).mem r := by
  induction hrun with
  | nil => rfl
  | @cons s t u act as hstep _ ih =>
    obtain ⟨hC, hrest⟩ := h t hstep
    obtain ⟨ht, hmoves⟩ := hI s act t ha hC hstep hisolated
    obtain ⟨hactor, hout⟩ := has act List.mem_cons_self
    have hleft := ih ht (hisolated.step hmoves) hrest fun act hact => has act (List.mem_cons_of_mem _ hact)
    rw [hactor] at hmoves
    exact hleft.trans (hmoves.outside hisolated hr hout)

end Domains
