import Mathlib.Data.BitVec
import Mathlib.Tactic.Common

/-!
# Fields that are given by their masks

`BIT_MASK_LR` of `lib/inc/bit.h` with the macros of `arch/aarch64/smmuv3.c` that put a value into the
field of a mask and take it out again.
-/

namespace Avisor

/-- `BIT_MASK_LR`. -/
def bitMaskLR (last first : ℕ) : BitVec 64 := (BitVec.allOnes 64 >>> (64 - (last + 1 - first))) <<< first

/-- `__builtin_ffsl`. -/
def builtinFfsl (x : BitVec 64) : ℕ := if x = 0 then 0 else x.ctz.toNat + 1

/-- `FIELD_PREP`. -/
def fieldPrep (mask val : BitVec 64) : BitVec 64 := (val <<< (builtinFfsl mask - 1)) &&& mask

/-- `FIELD_GET`. -/
def fieldGet (mask reg : BitVec 64) : BitVec 64 := (reg &&& mask) >>> (builtinFfsl mask - 1)

variable {last first last' first' i : ℕ} {val val' reg reg' mask : BitVec 64}

theorem getLsbD_bitMaskLR (hle : first ≤ last) (hlast : last < 64) (i : ℕ) :
    (bitMaskLR last first).getLsbD i = decide (first ≤ i ∧ i ≤ last) := by
  unfold bitMaskLR
  rw [BitVec.getLsbD_shiftLeft, BitVec.getLsbD_ushiftRight, BitVec.getLsbD_allOnes]
  by_cases hi : first ≤ i ∧ i ≤ last
  · have hlt : 64 - (last + 1 - first) + (i - first) < 64 := by omega
    simp [hi, hlt, show i < 64 by omega, Nat.not_lt.mpr hi.1]
  · have hout : i < first ∨ ¬64 - (last + 1 - first) + (i - first) < 64 := by omega
    rcases hout with hlt | hge
    · simp [hlt, Nat.not_le.mpr hlt]
    · simp [hge, hi]

theorem builtinFfsl_bitMaskLR (hle : first ≤ last) (hlast : last < 64) :
    builtinFfsl (bitMaskLR last first) = first + 1 := by
  have hbit (i : ℕ) := getLsbD_bitMaskLR hle hlast i
  have hne : bitMaskLR last first ≠ 0 := by
    intro hzero
    have hfirst := hbit first
    rw [hzero] at hfirst
    simp [hle] at hfirst
  have htrue := BitVec.getLsbD_true_ctz_of_ne_zero hne
  rw [hbit, decide_eq_true_iff] at htrue
  have hctz : (bitMaskLR last first).ctz.toNat = first := by
    apply Nat.le_antisymm _ htrue.1
    by_contra hlt
    have hfalse := BitVec.getLsbD_false_of_lt_ctz (Nat.not_le.mp hlt)
    rw [hbit] at hfalse
    simp [hle] at hfalse
  rw [builtinFfsl, if_neg hne, hctz]

/-- A field is the low bits of its value. -/
theorem getLsbD_fieldPrep (hle : first ≤ last) (hlast : last < 64) (i : ℕ) :
    (fieldPrep (bitMaskLR last first) val).getLsbD i =
      (decide (first ≤ i ∧ i ≤ last) && val.getLsbD (i - first)) := by
  rw [fieldPrep, builtinFfsl_bitMaskLR hle hlast, Nat.add_sub_cancel, BitVec.getLsbD_and,
    BitVec.getLsbD_shiftLeft, getLsbD_bitMaskLR hle hlast]
  by_cases hi : first ≤ i ∧ i ≤ last
  · simp [hi, show i < 64 by omega, Nat.not_lt.mpr hi.1]
  · simp [hi]

theorem getLsbD_fieldGet (hle : first ≤ last) (hlast : last < 64) (i : ℕ) :
    (fieldGet (bitMaskLR last first) reg).getLsbD i =
      (decide (i ≤ last - first) && reg.getLsbD (first + i)) := by
  rw [fieldGet, builtinFfsl_bitMaskLR hle hlast, Nat.add_sub_cancel, BitVec.getLsbD_ushiftRight,
    BitVec.getLsbD_and, getLsbD_bitMaskLR hle hlast, Bool.and_comm]
  congr 1
  simp only [decide_eq_decide]
  omega

@[simp] theorem fieldGet_or : fieldGet mask (reg ||| reg') = fieldGet mask reg ||| fieldGet mask reg' := by
  apply BitVec.eq_of_getLsbD_eq
  intro i _
  simp only [fieldGet, BitVec.getLsbD_ushiftRight, BitVec.getLsbD_and, BitVec.getLsbD_or,
    Bool.and_or_distrib_right]

/-- What is put into a field comes out again, as far as there is room. -/
@[simp] theorem fieldGet_fieldPrep (hle : first ≤ last) (hlast : last < 64) :
    fieldGet (bitMaskLR last first) (fieldPrep (bitMaskLR last first) val) =
      val &&& bitMaskLR (last - first) 0 := by
  apply BitVec.eq_of_getLsbD_eq
  intro i _
  rw [getLsbD_fieldGet hle hlast, getLsbD_fieldPrep hle hlast, BitVec.getLsbD_and,
    getLsbD_bitMaskLR (Nat.zero_le _) (by omega), Nat.add_sub_cancel_left, Bool.and_comm]
  by_cases hi : i ≤ last - first
  · simp [hi, show first + i ≤ last by omega]
  · simp [hi]

/-- Fields apart from each other do not show in each other. -/
@[simp] theorem fieldGet_fieldPrep_of_lt (hle : first ≤ last) (hlast : last < 64) (hle' : first' ≤ last')
    (hlast' : last' < 64) (hlt : last < first' ∨ last' < first) :
    fieldGet (bitMaskLR last first) (fieldPrep (bitMaskLR last' first') val) = 0 := by
  apply BitVec.eq_of_getLsbD_eq
  intro i _
  rw [getLsbD_fieldGet hle hlast, getLsbD_fieldPrep hle' hlast']
  simp only [BitVec.ofNat_eq_ofNat, BitVec.getLsbD_zero, Bool.and_eq_false_iff, decide_eq_false_iff_not]
  omega

end Avisor
