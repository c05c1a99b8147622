import Mathlib.Logic.Basic

/-!
# Ternary patterns

A pattern looks at the bits of a word that its mask leaves out and wants those of its id there. Two
patterns that want the same wherever both look match a word in common; where one of them looks at no
bit that the other ignores, it matches only words that the other matches too.
-/

/-- The words that agree with `id` outside of `mask`. -/
structure TernaryPattern (w : Nat) where
  mask : BitVec w
  id : BitVec w
  deriving DecidableEq, Repr

namespace TernaryPattern

variable {w : Nat} {p q : TernaryPattern w} {s : BitVec w}

def Matches (p : TernaryPattern w) (s : BitVec w) : Prop := (p.id ^^^ s) &&& ~~~p.mask = 0

instance (p : TernaryPattern w) (s : BitVec w) : Decidable (p.Matches s) := by
  unfold Matches
  infer_instance

/-- No bit that both look at is wanted differently. -/
def Overlaps (p q : TernaryPattern w) : Prop := (p.id ^^^ q.id) &&& ~~~(p.mask ||| q.mask) = 0

instance (p q : TernaryPattern w) : Decidable (p.Overlaps q) := by
  unfold Overlaps
  infer_instance

theorem and_not_eq_zero_iff {x mask : BitVec w} :
    x &&& ~~~mask = 0 ↔ ∀ k, k < w → mask.getLsbD k = false → x.getLsbD k = false := by
  constructor
  · intro h k hk hmask
    have hbit := congrArg (fun y => BitVec.getLsbD y k) h
    simpa only [BitVec.getLsbD_and, BitVec.getLsbD_not, hk, hmask, decide_true, Bool.not_false,
      Bool.and_true, BitVec.ofNat_eq_ofNat, BitVec.getLsbD_zero] using hbit
  · intro h
    apply BitVec.eq_of_getLsbD_eq
    intro k hk
    cases hmask : mask.getLsbD k with
    | true => simp [hmask]
    | false => simp [h k hk hmask]

theorem matches_iff : p.Matches s ↔
    ∀ k, k < w → p.mask.getLsbD k = false → p.id.getLsbD k = s.getLsbD k := by
  rw [Matches, and_not_eq_zero_iff]
  simp only [BitVec.getLsbD_xor, bne_eq_false_iff_eq]

theorem overlaps_iff_bits : p.Overlaps q ↔ ∀ k, k < w → p.mask.getLsbD k = false →
    q.mask.getLsbD k = false → p.id.getLsbD k = q.id.getLsbD k := by
  rw [Overlaps, and_not_eq_zero_iff]
  simp only [BitVec.getLsbD_xor, bne_eq_false_iff_eq, BitVec.getLsbD_or, Bool.or_eq_false_iff,
    and_imp]

theorem Overlaps.symm (h : p.Overlaps q) : q.Overlaps p := by
  rw [overlaps_iff_bits] at h ⊢
  exact fun k hk hq hp => (h k hk hp hq).symm

theorem overlaps_of_matches (hp : p.Matches s) (hq : q.Matches s) : p.Overlaps q := by
  rw [matches_iff] at hp hq
  rw [overlaps_iff_bits]
  exact fun k hk hpk hqk => (hp k hk hpk).trans (hq k hk hqk).symm

/-- What both match: the bits that `p` wants, and elsewhere those of `q`. -/
theorem overlaps_iff : p.Overlaps q ↔ ∃ s, p.Matches s ∧ q.Matches s := by
  constructor
  · intro h
    rw [overlaps_iff_bits] at h
    refine ⟨(p.id &&& ~~~p.mask) ||| (q.id &&& p.mask), matches_iff.mpr ?_, matches_iff.mpr ?_⟩
    · intro k hk hp
      simp only [BitVec.getLsbD_or, BitVec.getLsbD_and, BitVec.getLsbD_not, hk, hp, decide_true,
        Bool.not_false, Bool.and_true, Bool.and_false, Bool.or_false]
    · intro k hk hq
      simp only [BitVec.getLsbD_or, BitVec.getLsbD_and, BitVec.getLsbD_not, hk, decide_true,
        Bool.true_and]
      cases hp : p.mask.getLsbD k with
      | true => simp
      | false => simp [h k hk hp hq]
  · intro ⟨s, hp, hq⟩
    exact overlaps_of_matches hp hq

/-- Where `p` ignores only bits that `q` ignores. -/
theorem Matches.of_overlaps (h : p.Overlaps q) (hmask : p.mask &&& q.mask = p.mask)
    (hs : p.Matches s) : q.Matches s := by
  rw [overlaps_iff_bits] at h
  rw [matches_iff] at hs ⊢
  intro k hk hq
  have hp : p.mask.getLsbD k = false := by
    rw [← hmask]
    simp [hq]
  exact (h k hk hp hq).symm.trans (hs k hk hp)

/-- A pattern that meets one within `q` meets `q`. -/
theorem Overlaps.of_within {r : TernaryPattern w} (h : r.Overlaps p) (hpq : p.Overlaps q)
    (hmask : p.mask &&& q.mask = p.mask) : r.Overlaps q := by
  obtain ⟨s, hr, hp⟩ := overlaps_iff.mp h
  exact overlaps_of_matches hr (hp.of_overlaps hpq hmask)

end TernaryPattern
