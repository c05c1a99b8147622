import Avisor.Data.Bitmap

/-!
# Bits of words

The macros and functions of `lib/inc/bit.h`, by the bits of what they make.
-/

namespace Avisor

/-- `BIT32_MASK`, where `len` is not zero. -/
def bit32Mask (off len : Nat) : BitVec 32 := (((1#32 <<< (len - 1)) <<< 1) - 1#32) <<< off

/-- `BIT64_MASK`, where `len` is not zero. -/
def bit64Mask (off len : Nat) : BitVec 64 := (((1#64 <<< (len - 1)) <<< 1) - 1#64) <<< off

/-- `bit32_extract`. -/
def bit32Extract (word : BitVec 32) (off len : Nat) : BitVec 32 := (word >>> off) &&& bit32Mask 0 len

/-- A value at the place of a field, `(val << OFF) & MSK`. -/
def bit32Place (val : BitVec 32) (off len : Nat) : BitVec 32 := (val <<< off) &&& bit32Mask off len

/-- The loop of `bit32_ffs`: `left` bits from `pos` on are not looked at yet. The mask is zero behind
bit 31. -/
def bit32FfsLoop (word : BitVec 32) : Nat → Nat → Nat
  | 0, _ => sizeMax
  | left + 1, pos => if (1#32 <<< pos) &&& word ≠ 0 then pos else bit32FfsLoop word left (pos + 1)

/-- `bit32_ffs`. -/
def bit32Ffs (word : BitVec 32) : Nat := bit32FfsLoop word 32 0

variable {word val : BitVec 32} {off len off' len' k pos : Nat}

theorem getLsbD_bit32Mask (hlen : 1 ≤ len) (hfit : off + len ≤ 32) (hk : k < 32) :
    (bit32Mask off len).getLsbD k = decide (off ≤ k ∧ k < off + len) :=
  getLsbD_granuleMask hlen hfit hk

theorem getLsbD_bit32Extract (hlen : 1 ≤ len) (hfit : len ≤ 32) (hk : k < 32) :
    (bit32Extract word off len).getLsbD k = (word.getLsbD (off + k) && decide (k < len)) := by
  rw [bit32Extract, BitVec.getLsbD_and, BitVec.getLsbD_ushiftRight,
    getLsbD_bit32Mask hlen (by omega) hk]
  simp

theorem getLsbD_bit32Place (hlen : 1 ≤ len) (hfit : off + len ≤ 32) (hk : k < 32) :
    (bit32Place val off len).getLsbD k =
      (decide (off ≤ k ∧ k < off + len) && val.getLsbD (k - off)) := by
  rw [bit32Place, BitVec.getLsbD_and, BitVec.getLsbD_shiftLeft, getLsbD_bit32Mask hlen hfit hk]
  by_cases hin : off ≤ k ∧ k < off + len
  · simp [hin, hk, Nat.not_lt.mpr hin.1]
  · simp [hin]

/-! ### Fields of a word -/

theorem bit32Extract_or (word word' : BitVec 32) :
    bit32Extract (word ||| word') off len = bit32Extract word off len ||| bit32Extract word' off len := by
  apply BitVec.eq_of_getLsbD_eq
  intro k _
  simp only [bit32Extract, BitVec.getLsbD_and, BitVec.getLsbD_or, BitVec.getLsbD_ushiftRight,
    Bool.and_or_distrib_right]

/-- A field has the value that was put there, as far as it has room. -/
theorem bit32Extract_place (hlen : 1 ≤ len) (hfit : off + len ≤ 32) :
    bit32Extract (bit32Place val off len) off len = bit32Extract val 0 len := by
  apply BitVec.eq_of_getLsbD_eq
  intro k hk
  rw [getLsbD_bit32Extract hlen (by omega) hk, getLsbD_bit32Extract hlen (by omega) hk]
  by_cases hklen : k < len
  · rw [getLsbD_bit32Place hlen hfit (by omega)]
    simp [hklen]
  · simp [hklen]

theorem toNat_bit32Extract (hlen : 1 ≤ len) (hfit : len ≤ 32) :
    (bit32Extract val 0 len).toNat = val.toNat % 2 ^ len := by
  apply Nat.eq_of_testBit_eq
  intro k
  rw [Nat.testBit_mod_two_pow, BitVec.testBit_toNat, BitVec.testBit_toNat]
  by_cases hk : k < 32
  · rw [getLsbD_bit32Extract hlen hfit hk, Nat.zero_add, Bool.and_comm]
  · rw [BitVec.getLsbD_of_ge _ k (by omega), BitVec.getLsbD_of_ge _ k (by omega), Bool.and_false]

theorem bit32Extract_of_lt (hlen : 1 ≤ len) (hfit : len ≤ 32) (hval : val.toNat < 2 ^ len) :
    bit32Extract val 0 len = val := by
  apply BitVec.eq_of_toNat_eq
  rw [toNat_bit32Extract hlen hfit, Nat.mod_eq_of_lt hval]

theorem or_bit32Place_zero (word : BitVec 32) (off len : Nat) : word ||| bit32Place 0 off len = word := by
  simp [bit32Place]

/-- A field is clear of the values of the fields beside it. -/
theorem bit32Extract_place_other (hlen : 1 ≤ len) (hfit : off + len ≤ 32) (hlen' : 1 ≤ len')
    (hfit' : off' + len' ≤ 32) (hbeside : off' + len' ≤ off ∨ off + len ≤ off') :
    bit32Extract (bit32Place val off' len') off len = 0 := by
  apply BitVec.eq_of_getLsbD_eq
  intro k hk
  rw [getLsbD_bit32Extract hlen (by omega) hk]
  by_cases hklen : k < len
  · rw [getLsbD_bit32Place hlen' hfit' (by omega)]
    have hout : ¬ (off' ≤ off + k ∧ off + k < off' + len') := by omega
    simp [hout]
  · simp [hklen]

theorem bit32_and_bit (hpos : pos < 32) : (1#32 <<< pos) &&& word ≠ 0 ↔ word.getLsbD pos = true := by
  have hbit := bitmapGet_eq (fun _ => word) pos
  rw [bitmapGet, granuleLen, Nat.mod_eq_of_lt hpos] at hbit
  rw [← hbit, bne_iff_ne, BitVec.and_comm]

/-- The word's first bit is found. -/
theorem bit32FfsLoop_of_first {left : Nat} (hle : k ≤ pos) (hpos : pos < k + left) (hfit : k + left ≤ 32)
    (hset : word.getLsbD pos = true) (hfirst : ∀ j, k ≤ j → j < pos → word.getLsbD j = false) :
    bit32FfsLoop word left k = pos := by
  induction left generalizing k with
  | zero => omega
  | succ left ih =>
    rw [bit32FfsLoop]
    by_cases hk : k = pos
    · subst hk
      rw [if_pos ((bit32_and_bit (by omega)).mpr hset)]
    · have hclear := hfirst k (Nat.le_refl k) (by omega)
      rw [if_neg (by rw [bit32_and_bit (by omega), hclear]; exact Bool.false_ne_true)]
      exact ih (by omega) (by omega) (by omega) fun j hj hlt => hfirst j (by omega) hlt

theorem bit32Ffs_of_first (hpos : pos < 32) (hset : word.getLsbD pos = true)
    (hfirst : ∀ j < pos, word.getLsbD j = false) : bit32Ffs word = pos :=
  bit32FfsLoop_of_first (Nat.zero_le _) (by omega) (by omega) hset fun j _ hj => hfirst j hj

end Avisor
