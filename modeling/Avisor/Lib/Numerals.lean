import Mathlib.Algebra.Order.Group.Nat
import Mathlib.Algebra.Ring.Nat

/-!
# Numerals from the highest digit down

A number is written from its highest place to its lowest, and the zeros in front of its first digit are left
out. As long as the number has no more places than are written, the result is its numeral.
-/

namespace Numeral

variable {b k n : Nat} {shown : Bool}

/-- The digits of `n` at the places from `k` down. A zero counts from the first digit on, or where zeros are
`shown`, and the last place always does; what lies above place `k` stays in the first digit. -/
def fromTop (b : Nat) : Nat → Nat → Bool → List Nat
  | 0, n, _ => [n]
  | k + 1, n, shown =>
    let shown := shown || n / b ^ (k + 1) ≠ 0
    let rest := fromTop b k (n % b ^ (k + 1)) shown
    if shown then n / b ^ (k + 1) :: rest else rest

theorem fromTop_shown (b k n : Nat) :
    fromTop b (k + 1) n true = n / b ^ (k + 1) :: fromTop b k (n % b ^ (k + 1)) true := by
  simp [fromTop]

theorem fromTop_digit (h : b ^ (k + 1) ≤ n) (hb : 0 < b) :
    fromTop b (k + 1) n shown = fromTop b (k + 1) n true := by
  have hdigit : n / b ^ (k + 1) ≠ 0 := Nat.ne_of_gt (Nat.div_pos h (Nat.pow_pos hb))
  simp [fromTop, hdigit]

theorem fromTop_zero (h : n < b ^ (k + 1)) : fromTop b (k + 1) n false = fromTop b k n false := by
  have hdigit : n / b ^ (k + 1) = 0 := Nat.div_eq_of_lt h
  simp [fromTop, hdigit, Nat.mod_eq_of_lt h]

/-- A number below the base is its digit. -/
theorem fromTop_of_lt (h : n < b) : fromTop b k n false = [n] := by
  induction k with
  | zero => rfl
  | succ k ih =>
    have hpow : b ≤ b ^ (k + 1) := Nat.le_self_pow (Nat.succ_ne_zero k) b
    rw [fromTop_zero (Nat.lt_of_lt_of_le h hpow), ih]

theorem length_fromTop_le (b k n : Nat) (shown : Bool) : (fromTop b k n shown).length ≤ k + 1 := by
  induction k generalizing n shown with
  | zero => exact Nat.le_refl 1
  | succ k ih =>
    have hrest (shown) := ih (n % b ^ (k + 1)) shown
    unfold fromTop
    dsimp only
    split
    · exact Nat.succ_le_succ (hrest _)
    · exact Nat.le_succ_of_le (hrest _)

/-- The last digit comes off the end. -/
theorem fromTop_append (hb : 0 < b) (h : shown = true ∨ b ≤ n) :
    fromTop b (k + 1) n shown = fromTop b k (n / b) shown ++ [n % b] := by
  induction k generalizing n shown with
  | zero =>
    have hdigit : shown = true ∨ n / b ≠ 0 := h.imp_right fun hle => Nat.ne_of_gt (Nat.div_pos hle hb)
    simp only [fromTop, Nat.zero_add, Nat.pow_one]
    rw [if_pos (by simpa using hdigit)]
    rfl
  | succ k ih =>
    have hpow : b ^ (k + 2) = b * b ^ (k + 1) := by rw [Nat.pow_succ, Nat.mul_comm]
    have htop : n / b ^ (k + 2) = n / b / b ^ (k + 1) := by rw [hpow, Nat.div_div_eq_div_mul]
    have hrest : n % b ^ (k + 2) / b = n / b % b ^ (k + 1) := by rw [hpow, Nat.mod_mul_right_div_self]
    have hlast : n % b ^ (k + 2) % b = n % b := by rw [hpow, Nat.mod_mul_right_mod]
    by_cases hdigit : shown = true ∨ b ^ (k + 2) ≤ n
    · have hshown : fromTop b (k + 2) n shown = fromTop b (k + 2) n true := by
        rcases hdigit with rfl | hle
        · rfl
        · exact fromTop_digit hle hb
      have hshown' : fromTop b (k + 1) (n / b) shown = fromTop b (k + 1) (n / b) true := by
        rcases hdigit with rfl | hle
        · rfl
        · refine fromTop_digit ?_ hb
          rwa [Nat.le_div_iff_mul_le hb, Nat.mul_comm, ← hpow]
      rw [hshown, hshown', fromTop_shown b (k + 1) n, fromTop_shown b k (n / b), ih (.inl rfl), hrest, hlast,
        htop, List.cons_append]
    · rw [not_or, Nat.not_le, Bool.not_eq_true] at hdigit
      obtain ⟨rfl, hlt⟩ := hdigit
      have hlt' : n / b < b ^ (k + 1) := by
        rwa [Nat.div_lt_iff_lt_mul hb, Nat.mul_comm, ← hpow]
      rw [fromTop_zero hlt, fromTop_zero hlt', ih h]

/-- A number that fits the places has digits below the base only. -/
theorem lt_of_mem_fromTop {d : Nat} (hb : 0 < b) (h : n < b ^ (k + 1)) (hd : d ∈ fromTop b k n shown) :
    d < b := by
  induction k generalizing n shown with
  | zero =>
    rw [fromTop, List.mem_singleton] at hd
    rwa [hd, ← Nat.pow_one b]
  | succ k ih =>
    have hrest (shown) (hd : d ∈ fromTop b k (n % b ^ (k + 1)) shown) : d < b :=
      ih (Nat.mod_lt n (Nat.pow_pos hb)) hd
    unfold fromTop at hd
    dsimp only at hd
    split at hd
    · rcases List.mem_cons.mp hd with rfl | hd
      · rw [Nat.div_lt_iff_lt_mul (Nat.pow_pos hb), Nat.mul_comm, ← Nat.pow_succ]
        exact h
      · exact hrest _ hd
    · exact hrest _ hd

/-- A number that fits the places is written as its numeral. -/
theorem fromTop_eq_toDigits (hb : 1 < b) (h : n < b ^ (k + 1)) :
    (fromTop b k n false).map Nat.digitChar = Nat.toDigits b n := by
  induction k generalizing n with
  | zero =>
    rw [Nat.zero_add, Nat.pow_one] at h
    rw [Nat.toDigits_of_lt_base h]
    rfl
  | succ k ih =>
    by_cases hlt : n < b
    · rw [fromTop_of_lt hlt, Nat.toDigits_of_lt_base hlt]
      rfl
    · have hle : b ≤ n := Nat.le_of_not_lt hlt
      have hdiv : n / b < b ^ (k + 1) := by
        rwa [Nat.div_lt_iff_lt_mul (Nat.lt_of_succ_lt hb), ← Nat.pow_succ]
      rw [fromTop_append (Nat.lt_of_succ_lt hb) (.inr hle), List.map_append, ih hdiv,
        Nat.toDigits_of_base_le hb hle]
      rfl

/-- One that does not fit has a longer numeral. -/
theorem length_fromTop_lt (shown : Bool) (hb : 1 < b) (h : b ^ (k + 1) ≤ n) :
    (fromTop b k n shown).length < (Nat.toDigits b n).length := by
  have hlong : ¬ (Nat.toDigits b n).length ≤ k + 1 := by
    rw [Nat.length_toDigits_le_iff hb (Nat.succ_pos k)]
    exact Nat.not_lt.mpr h
  exact Nat.lt_of_le_of_lt (length_fromTop_le b k n shown) (Nat.lt_of_not_le hlong)

end Numeral
