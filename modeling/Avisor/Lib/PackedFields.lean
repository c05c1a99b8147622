import Mathlib.Data.Nat.Bitwise
import Mathlib.Data.List.Basic
import Mathlib.Tactic.Common

/-!
# Fields in a word

A word of `n` bits that holds values in fields of `w` bits, the first value in the lowest field.
-/

namespace PackedFields

variable {n w : Nat}

/-- The word whose `w` lowest bits are set. -/
def lowMask (n w : Nat) : BitVec n := BitVec.ofNat n (2 ^ w - 1)

/-- The field of `w` bits of `x` that starts at the bit `off`. -/
def extract (x : BitVec n) (off w : Nat) : BitVec n := (x >>> off) &&& lowMask n w

/-- The values `l` are put in the fields of `acc` from field `i` on; a value keeps its low bits. -/
def packFrom (w : Nat) : Nat → List (BitVec n) → BitVec n → BitVec n
  | _, [], acc => acc
  | i, x :: l, acc => packFrom w (i + 1) l (acc ||| (x &&& lowMask n w) <<< (i * w))

theorem getLsbD_lowMask (n w b : Nat) : (lowMask n w).getLsbD b = (decide (b < n) && decide (b < w)) := by
  unfold lowMask
  rw [BitVec.getLsbD_ofNat, Nat.testBit_two_pow_sub_one]

theorem getLsbD_extract (x : BitVec n) (off w b : Nat) :
    (extract x off w).getLsbD b = (decide (b < w) && x.getLsbD (off + b)) := by
  unfold extract
  rw [BitVec.getLsbD_and, BitVec.getLsbD_ushiftRight, getLsbD_lowMask]
  by_cases hb : b < n
  · simp [hb, Bool.and_comm]
  · have hhigh : x.getLsbD (off + b) = false := BitVec.getLsbD_of_ge x _ (by omega)
    simp [hhigh]

/-- A bit of the word is a bit of the value whose field it is in. -/
theorem getLsbD_packFrom (hw : 0 < w) {i b : Nat} (hb : b < n) (l : List (BitVec n)) (acc : BitVec n)
    (hacc : ∀ b, i ≤ b / w → acc.getLsbD b = false) :
    (packFrom w i l acc).getLsbD b =
      if b / w < i then acc.getLsbD b else (l[b / w - i]?.any fun x => x.getLsbD (b % w)) := by
  induction l generalizing i acc with
  | nil =>
    simp only [packFrom, List.getElem?_nil, Option.any_none]
    split
    · rfl
    · rename_i hlt
      exact hacc b (Nat.not_lt.mp hlt)
  | cons x l ih =>
    have hfield (c : Nat) : (acc ||| (x &&& lowMask n w) <<< (i * w)).getLsbD c =
        (acc.getLsbD c || (decide (c < n) && decide (c / w = i) && x.getLsbD (c % w))) := by
      rw [BitVec.getLsbD_or, BitVec.getLsbD_shiftLeft, BitVec.getLsbD_and, getLsbD_lowMask]
      have hdiv : c / w * w + c % w = c := Nat.div_add_mod' c w
      have hmod := Nat.mod_lt c hw
      by_cases hc : c / w = i
      · subst hc
        have hsub : c - c / w * w = c % w := by omega
        by_cases hcn : c < n
        · have hlt : c % w < n := lt_of_le_of_lt (Nat.mod_le c w) hcn
          have hle : ¬ c < c / w * w := by omega
          simp [hsub, hcn, hlt, hle, hmod]
        · simp [hcn]
      · have hout : c < i * w ∨ w ≤ c - i * w := by
          by_contra hnot
          push Not at hnot
          apply hc
          rw [Nat.div_eq_iff hw]
          omega
        rcases hout with hlt | hge
        · simp [hc, hlt]
        · simp [hc, Nat.not_lt.mpr hge]
    rw [packFrom, ih]
    · by_cases hlt : b / w < i
      · rw [if_pos (Nat.lt_succ_of_lt hlt), if_pos hlt, hfield]
        simp [hb, Nat.ne_of_lt hlt]
      · rw [if_neg hlt]
        by_cases heq : b / w = i
        · rw [if_pos (by omega), hfield, hacc b (by omega), heq]
          simp [hb]
        · rw [if_neg (by omega)]
          have hsub : b / w - i = (b / w - (i + 1)) + 1 := by omega
          rw [hsub, List.getElem?_cons_succ]
    · intro c hc
      rw [hfield, hacc c (by omega)]
      have hne : ¬ c / w = i := by omega
      simp [hne]

end PackedFields
