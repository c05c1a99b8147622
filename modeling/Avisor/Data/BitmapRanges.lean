import Avisor.Data.Bitmap

/-!
# Ranges of a bitmap

`bitmap_set_consecutive` sets the bits of a range granule by granule, under masks for the granules it ends
in. It leaves the map that `bitmap_set` leaves bit by bit, and `bitmap_clear_consecutive` takes back just
these bits.
-/

namespace Avisor

open Function

/-- `bitmap_set` for each of the `n` bits from `start` on. -/
def bitmapSetEach (map : Bitmap) (start : Nat) : Nat → Bitmap
  | 0 => map
  | n + 1 => bitmapSet (bitmapSetEach map start n) (start + n)

variable {map map' : Bitmap} {start n : Nat}

/-- A map is what its bits are. -/
theorem bitmap_ext (h : ∀ i, bitmapGet map i = bitmapGet map' i) : map = map' := by
  funext w
  apply BitVec.eq_of_getLsbD_eq
  intro k hk
  have hbit := h (w * granuleLen + k)
  have hword : (w * granuleLen + k) / granuleLen = w := by
    simp only [granuleLen]
    omega
  have hoff : (w * granuleLen + k) % granuleLen = k := by
    simp only [granuleLen]
    omega
  rwa [bitmapGet_eq, bitmapGet_eq, hword, hoff] at hbit

theorem bitmapGet_setEach (map : Bitmap) (start n i : Nat) :
    bitmapGet (bitmapSetEach map start n) i =
      (bitmapGet map i || decide (start ≤ i ∧ i < start + n)) := by
  induction n with
  | zero =>
    have hnone : ¬(start ≤ i ∧ i < start + 0) := by omega
    rw [bitmapSetEach, decide_eq_false hnone, Bool.or_false]
  | succ n ih =>
    have hlast : (i = start + n ∨ start ≤ i ∧ i < start + n) ↔ start ≤ i ∧ i < start + (n + 1) := by
      omega
    rw [bitmapSetEach, bitmapGet_set, ih, Bool.or_left_comm, ← Bool.decide_or, decide_eq_decide.mpr hlast]

/-- What is cleared behind a range was set is the range. -/
theorem bitmapGet_clear_setConsecutive (map : Bitmap) (i : Nat) (hn : 1 ≤ n) (hfit : start + n ≤ sizeT) :
    bitmapGet (bitmapClearConsecutive (bitmapSetConsecutive map start n) start n) i =
      (!decide (start ≤ i ∧ i < start + n) && bitmapGet map i) := by
  rw [bitmapGet_clearConsecutive _ i hfit, bitmapGet_setConsecutive map i hn hfit, Bool.and_or_distrib_left,
    Bool.not_and_self, Bool.or_false]

/-- Setting a range granule by granule is setting its bits one by one: they are set and all others are kept.
Clearing it then leaves the others as they were. -/
theorem bitmapSetConsecutive_bitwise (map : Bitmap) (hn : 1 ≤ n) (hfit : start + n ≤ sizeT) :
    bitmapSetConsecutive map start n = bitmapSetEach map start n ∧
      (∀ i, bitmapGet (bitmapSetConsecutive map start n) i =
        (bitmapGet map i || decide (start ≤ i ∧ i < start + n))) ∧
      ∀ i, bitmapGet (bitmapClearConsecutive (bitmapSetConsecutive map start n) start n) i =
        (!decide (start ≤ i ∧ i < start + n) && bitmapGet map i) := by
  have hset (i : Nat) := bitmapGet_setConsecutive map i hn hfit
  refine ⟨?_, hset, fun i => bitmapGet_clear_setConsecutive map i hn hfit⟩
  apply bitmap_ext
  intro i
  rw [hset, bitmapGet_setEach]

/-- Forty bits from bit 28 on: the end of a granule, a whole one, and the start of the next one. -/
theorem bitmapSetConsecutive_bitwise_threeGranules :
    bitmapSetConsecutive (fun _ => 0) 28 40 = bitmapSetEach (fun _ => 0) 28 40 ∧
      (∀ i, bitmapGet (bitmapSetConsecutive (fun _ => 0) 28 40) i =
        (bitmapGet (fun _ => 0) i || decide (28 ≤ i ∧ i < 28 + 40))) ∧
      ∀ i, bitmapGet (bitmapClearConsecutive (bitmapSetConsecutive (fun _ => 0) 28 40) 28 40) i =
        (!decide (28 ≤ i ∧ i < 28 + 40) && bitmapGet (fun _ => 0) i) :=
  bitmapSetConsecutive_bitwise (fun _ => 0) (by decide) (by decide)

end Avisor
