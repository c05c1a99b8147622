import Avisor.Lib.Machine
import Mathlib.Data.Set.Defs

/-!
# Lending

Holders keep resources at places of their own. Each of them offers some resources, and what the others borrow they
hold as well. Nobody writes down who has borrowed: an offer that ends must not be needed any more.
-/

universe u v w x

/-- Who holds which resource where, what of it was borrowed, what is on offer, and what is free. -/
structure Lending (κ : Type u) (ν : Type v) (φ : Type w) where
  holds : κ → ν → Option φ
  borrowed : κ → ν → Prop
  offers : κ → Set φ
  free : Set φ

namespace Lending

variable {κ : Type u} {ν : Type v} {φ : Type w} {s t : Lending κ ν φ} {k : κ} {p : ν} {r : φ}

/-- What is borrowed is on offer, and nothing that is held or on offer is free. -/
structure Safe (s : Lending κ ν φ) : Prop where
  borrows : ∀ {k p r}, s.borrowed k p → s.holds k p = some r → ∃ k', r ∈ s.offers k'
  held : ∀ {k p r}, s.holds k p = some r → r ∉ s.free
  offered : ∀ {k r}, r ∈ s.offers k → r ∉ s.free

/-- In `t`, the holder `k` holds `r` at `p` as in `s`, or has taken it, or has borrowed what is on offer. -/
inductive Comes (s t : Lending κ ν φ) (k : κ) (p : ν) (r : φ) : Prop
  | stays (hold : s.holds k p = some r) (borrowed : t.borrowed k p → s.borrowed k p)
  | taken (own : ¬t.borrowed k p) (used : r ∉ t.free)
  | borrowed (k' : κ) (offered : r ∈ s.offers k')

/-- What may happen in one step: holdings end or come, offers begin with what is not free and end with what nobody
borrows, and nothing is given back. -/
structure Step (s t : Lending κ ν φ) : Prop where
  comes : ∀ {k p r}, t.holds k p = some r → Comes s t k p r
  begins : ∀ {k r}, r ∈ t.offers k → r ∈ s.offers k ∨ r ∉ t.free
  ends : ∀ {k p r k'}, t.borrowed k p → t.holds k p = some r → r ∈ s.offers k' → r ∈ t.offers k'
  takes : t.free ⊆ s.free

theorem Safe.step (h : s.Safe) (hstep : Step s t) : t.Safe where
  borrows {k p r} hborrowed hhold := by
    cases hstep.comes hhold with
    | stays hold hbefore =>
      obtain ⟨k', hoffer⟩ := h.borrows (hbefore hborrowed) hold
      exact ⟨k', hstep.ends hborrowed hhold hoffer⟩
    | taken hown _ => exact absurd hborrowed hown
    | borrowed k' hoffer => exact ⟨k', hstep.ends hborrowed hhold hoffer⟩
  held {k p r} hhold hfree := by
    cases hstep.comes hhold with
    | stays hold _ => exact h.held hold (hstep.takes hfree)
    | taken _ hused => exact hused hfree
    | borrowed k' hoffer => exact h.offered hoffer (hstep.takes hfree)
  offered {k r} hoffer hfree := by
    rcases hstep.begins hoffer with hbefore | hused
    · exact h.offered hbefore (hstep.takes hfree)
    · exact hused hfree

theorem Step.refl (s : Lending κ ν φ) : Step s s where
  comes hhold := .stays hhold id
  begins hoffer := .inl hoffer
  ends _ _ hoffer := hoffer
  takes _ hfree := hfree

/-- Holdings end, and nothing else happens. -/
theorem Step.drops (hholds : ∀ {k p r}, t.holds k p = some r → s.holds k p = some r)
    (hborrowed : ∀ k p, t.borrowed k p ↔ s.borrowed k p) (hoffers : t.offers = s.offers)
    (htakes : t.free ⊆ s.free) : Step s t where
  comes hhold := .stays (hholds hhold) (hborrowed _ _).mp
  begins hoffer := .inl (hoffers ▸ hoffer)
  ends _ _ hoffer := hoffers ▸ hoffer
  takes := htakes

/-- One holder ends its offer, of which nobody borrows. -/
theorem Step.withdraws (k₀ : κ) (hholds : ∀ {k p r}, t.holds k p = some r → s.holds k p = some r)
    (hborrowed : ∀ k p, t.borrowed k p ↔ s.borrowed k p) (hothers : ∀ k ≠ k₀, t.offers k = s.offers k)
    (hend : t.offers k₀ = ∅) (hfree : t.free ⊆ s.free)
    (hnobody : ∀ {k p r}, s.borrowed k p → s.holds k p = some r → r ∉ s.offers k₀) : Step s t where
  comes hhold := .stays (hholds hhold) (hborrowed _ _).mp
  begins {k r} hoffer := by
    by_cases hk : k = k₀
    · rw [hk, hend] at hoffer
      cases hoffer
    · exact .inl (hothers k hk ▸ hoffer)
  ends {k p r k'} hb hhold hoffer := by
    have hk : k' ≠ k₀ := by
      rintro rfl
      exact hnobody ((hborrowed k p).mp hb) (hholds hhold) hoffer
    rw [hothers k' hk]
    exact hoffer
  takes := hfree

/-- A machine whose steps are such steps, each under a condition, stays safe. -/
theorem always_safe {σ : Type x} {α : Type u} {M : Machine σ α} {C : σ → α → Prop} {I : σ → Prop}
    {lending : σ → Lending κ ν φ}
    (hI : ∀ s a t, I s → C s a → M.step s a = some t → I t ∧ Step (lending s) (lending t))
    {a : σ} {as : List α} (ha : I a) (hsafe : (lending a).Safe) (h : M.EachStep C a as) :
    M.Always (fun s => (lending s).Safe) a as := by
  apply Machine.always_of_eachStep (I := fun s => I s ∧ (lending s).Safe) ?_ ?_ ⟨ha, hsafe⟩ h
  · intro s a t hs hC hstep
    obtain ⟨ht, hmoves⟩ := hI s a t hs.1 hC hstep
    exact ⟨ht, hs.2.step hmoves⟩
  · exact fun s hs => hs.2

end Lending
