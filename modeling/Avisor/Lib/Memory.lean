import Mathlib.Algebra.Group.Nat.Defs
import Mathlib.Data.Set.Function

/-!
# Byte memory

A memory gives every address its byte. Ranges are an address and a number of bytes, and what a
program does to a memory is said by what it leaves in a range and by the ranges it leaves alone.
Numbers are kept with their low byte first.
-/

/-- The byte at every address. -/
abbrev Memory := Nat → BitVec 8

namespace Memory

open Function

/-- No address is in both ranges. -/
def Apart (a n b k : Nat) : Prop :=
  a + n ≤ b ∨ b + k ≤ a

instance (a n b k : Nat) : Decidable (Apart a n b k) :=
  inferInstanceAs (Decidable (_ ∨ _))

/-- The two memories have the same bytes in the range. -/
def Agree (m m' : Memory) (a n : Nat) : Prop :=
  ∀ b, a ≤ b → b < a + n → m b = m' b

/-- The number in the `n` bytes at `a`. -/
def readLe (m : Memory) : Nat → Nat → Nat
  | _, 0 => 0
  | a, n + 1 => (m a).toNat + 256 * readLe m (a + 1) n

/-- The memory with the low `n` bytes of `v` at `a`. -/
def writeLe (m : Memory) (a n v : Nat) : Memory := fun b =>
  if a ≤ b ∧ b < a + n then BitVec.ofNat 8 (v / 256 ^ (b - a)) else m b

/-- The memory in which the `n` bytes at `dst` are those at `src`. -/
def copy (m : Memory) (dst src n : Nat) : Memory := fun b =>
  if dst ≤ b ∧ b < dst + n then m (src + (b - dst)) else m b

/-- The memory in which the `n` bytes at `dst` are `c`. -/
def fill (m : Memory) (dst n : Nat) (c : BitVec 8) : Memory := fun b =>
  if dst ≤ b ∧ b < dst + n then c else m b

variable {m m' m'' : Memory} {a b k n v dst src : Nat} {c : BitVec 8}

/-! ### Ranges -/

theorem Apart.symm (h : Apart a n b k) : Apart b k a n :=
  Or.symm h

theorem Apart.out (h : Apart a n b k) {i : Nat} (hle : b ≤ i) (hlt : i < b + k) :
    ¬(a ≤ i ∧ i < a + n) := by
  unfold Apart at h
  omega

/-- Ranges inside ranges that are apart are apart. -/
theorem Apart.mono {a' n' b' k' : Nat} (h : Apart a n b k) (ha : a ≤ a') (hn : a' + n' ≤ a + n)
    (hb : b ≤ b') (hk : b' + k' ≤ b + k) : Apart a' n' b' k' := by
  unfold Apart at *
  omega

theorem Agree.refl (m : Memory) (a n : Nat) : Agree m m a n :=
  fun _ _ _ => rfl

theorem Agree.trans (h : Agree m m' a n) (h' : Agree m' m'' a n) : Agree m m'' a n :=
  fun i hle hlt => (h i hle hlt).trans (h' i hle hlt)

theorem Agree.mono (h : Agree m m' a n) (ha : a ≤ b) (hn : b + k ≤ a + n) : Agree m m' b k :=
  fun i hle hlt => h i (by omega) (by omega)

theorem agree_writeLe (h : Apart a n b k) : Agree (writeLe m a n v) m b k :=
  fun _ hle hlt => if_neg (h.out hle hlt)

theorem agree_copy (h : Apart dst n b k) : Agree (copy m dst src n) m b k :=
  fun _ hle hlt => if_neg (h.out hle hlt)

theorem agree_fill (h : Apart dst n b k) : Agree (fill m dst n c) m b k :=
  fun _ hle hlt => if_neg (h.out hle hlt)

theorem copy_zero (m : Memory) : copy m dst src 0 = m := by
  funext b
  exact if_neg (by omega)

theorem copy_apply (h : b < n) : copy m dst src n (dst + b) = m (src + b) := by
  unfold copy
  rw [if_pos (by omega), Nat.add_sub_cancel_left]

/-! ### Numbers -/

theorem readLe_congr (h : Agree m m' a n) : readLe m a n = readLe m' a n := by
  induction n generalizing a with
  | zero => rfl
  | succ n ih =>
    rw [readLe, readLe, h a (by omega) (by omega), ih (h.mono (by omega) (by omega))]

theorem readLe_lt (m : Memory) (a n : Nat) : readLe m a n < 256 ^ n := by
  induction n generalizing a with
  | zero => exact Nat.one_pos
  | succ n ih =>
    have hbyte : (m a).toNat < 256 := (m a).isLt
    have hrest := ih (a + 1)
    rw [readLe, Nat.pow_succ]
    omega

/-- What is read where a number was written. -/
theorem readLe_of_bytes (h : ∀ i < n, m (a + i) = BitVec.ofNat 8 (v / 256 ^ i)) :
    readLe m a n = v % 256 ^ n := by
  induction n generalizing a v with
  | zero => rw [readLe, Nat.pow_zero, Nat.mod_one]
  | succ n ih =>
    have hrest : readLe m (a + 1) n = v / 256 % 256 ^ n := by
      apply ih
      intro i hi
      rw [Nat.add_assoc, Nat.add_comm 1, h (i + 1) (by omega), Nat.div_div_eq_div_mul, Nat.pow_succ,
        Nat.mul_comm]
    have hbyte := h 0 (by omega)
    rw [Nat.add_zero, Nat.pow_zero, Nat.div_one] at hbyte
    have hpow : 256 ^ (n + 1) = 256 * 256 ^ n := by rw [Nat.pow_succ, Nat.mul_comm]
    rw [readLe, hrest, hbyte, BitVec.toNat_ofNat, hpow, Nat.mod_mul]

theorem readLe_writeLe (m : Memory) (a n v : Nat) : readLe (writeLe m a n v) a n = v % 256 ^ n := by
  apply readLe_of_bytes
  intro i hi
  unfold writeLe
  rw [if_pos (by omega), Nat.add_sub_cancel_left]

/-- The bytes of a number that was read. -/
theorem ofNat_readLe (m : Memory) (a n i : Nat) (hi : i < n) :
    BitVec.ofNat 8 (readLe m a n / 256 ^ i) = m (a + i) := by
  induction n generalizing a i with
  | zero => omega
  | succ n ih =>
    have hbyte : (m a).toNat < 256 := (m a).isLt
    cases i with
    | zero =>
      apply BitVec.eq_of_toNat_eq
      change _ = (m a).toNat
      rw [readLe, Nat.pow_zero, Nat.div_one, BitVec.toNat_ofNat]
      omega
    | succ i =>
      have hdiv : readLe m a (n + 1) / 256 = readLe m (a + 1) n := by
        rw [readLe]
        omega
      rw [Nat.pow_succ, Nat.mul_comm, ← Nat.div_div_eq_div_mul, hdiv, ih (a + 1) i (by omega)]
      congr 1
      omega

/-! ### Sets of addresses -/

section

variable {S : Set Nat}

theorem readLe_eq_of_eqOn (h : Set.EqOn m m' S) (hin : ∀ i < n, a + i ∈ S) :
    readLe m a n = readLe m' a n := by
  apply readLe_congr
  intro b hle hlt
  have hb := hin (b - a) (by omega)
  rw [Nat.add_sub_cancel' hle] at hb
  exact h hb

theorem eqOn_writeLe (h : Set.EqOn m m' S) : Set.EqOn (writeLe m a n v) (writeLe m' a n v) S := by
  intro b hb
  unfold writeLe
  rw [h hb]

theorem writeLe_eqOn_compl (hin : ∀ i < n, a + i ∈ S) : Set.EqOn (writeLe m a n v) m Sᶜ := by
  intro b hb
  refine if_neg fun hrange => hb ?_
  have hmem := hin (b - a) (by omega)
  rwa [Nat.add_sub_cancel' hrange.1] at hmem

end

/-! ### Copies in pieces -/

/-- A copy of `i` bytes becomes one of `i + k` bytes by moving the next `k` bytes as a number. -/
theorem writeLe_readLe_copy {i : Nat} (h : Apart dst n src n) (hi : i + k ≤ n) :
    writeLe (copy m dst src i) (dst + i) k (readLe (copy m dst src i) (src + i) k) =
      copy m dst src (i + k) := by
  have hread : readLe (copy m dst src i) (src + i) k = readLe m (src + i) k := by
    apply readLe_congr
    apply agree_copy
    exact h.mono (Nat.le_refl _) (by omega) (by omega) (by omega)
  rw [hread]
  funext b
  unfold writeLe copy
  by_cases hnew : dst + i ≤ b ∧ b < dst + i + k
  · rw [if_pos hnew, if_pos (by omega), ofNat_readLe m _ _ _ (by omega)]
    congr 1
    omega
  · rw [if_neg hnew]
    by_cases hold : dst ≤ b ∧ b < dst + i
    · rw [if_pos hold, if_pos (by omega)]
    · rw [if_neg hold, if_neg (by omega)]

theorem update_copy {i : Nat} (h : Apart dst n src n) (hi : i < n) :
    update (copy m dst src i) (dst + i) (copy m dst src i (src + i)) = copy m dst src (i + 1) := by
  have hread : copy m dst src i (src + i) = m (src + i) :=
    agree_copy (h.mono (Nat.le_refl _) (by omega) (Nat.le_refl _) (Nat.le_refl _)) _ (by omega)
      (by omega)
  rw [hread]
  funext b
  by_cases hnew : b = dst + i
  · subst hnew
    rw [update_self, copy_apply (Nat.lt_succ_self i)]
  · rw [update_of_ne hnew]
    unfold copy
    by_cases hold : dst ≤ b ∧ b < dst + i
    · rw [if_pos hold, if_pos (by omega)]
    · rw [if_neg hold, if_neg (by omega)]

end Memory
