import Mathlib.Data.List.Basic
import Mathlib.Data.Nat.ModEq
import Mathlib.Logic.Function.Basic
import Mathlib.Tactic.Common

/-!
# A ring of slots between a producer and a consumer

A ring of `2 ^ k` slots is read and written at two registers that count up. The `k` lowest bits of a
register are the index of a slot, and the bit above them tells a full ring from an empty one; what a
register has above that bit does not matter.
-/

universe u

namespace RingQueue

variable {α : Type u} {k : ℕ}

/-- The slot that a register points at. -/
def idx (k r : ℕ) : ℕ := r % 2 ^ k

/-- The wrap bit of a register. -/
def wrp (k r : ℕ) : ℕ := r / 2 ^ k % 2

/-- The register stands for the count `n`. -/
def Counts (k r n : ℕ) : Prop := r % 2 ^ (k + 1) = n % 2 ^ (k + 1)

def Empty (k prod cons : ℕ) : Prop := idx k prod = idx k cons ∧ wrp k prod = wrp k cons

def Full (k prod cons : ℕ) : Prop := idx k prod = idx k cons ∧ wrp k prod ≠ wrp k cons

/-- The ring holds the elements `rest`, behind `done` elements that were there before. -/
structure Holds (k : ℕ) (slots : ℕ → α) (prod cons done : ℕ) (rest : List α) : Prop where
  prod : Counts k prod (done + rest.length)
  cons : Counts k cons done
  length_le : rest.length ≤ 2 ^ k
  slot : ∀ {j a}, rest[j]? = some a → slots (idx k (done + j)) = a

variable {slots slots' : ℕ → α} {prod cons r n m done j : ℕ} {rest : List α} {a b : α}

/-! ### Registers -/

theorem mod_eq_wrp_idx (k r : ℕ) : r % 2 ^ (k + 1) = wrp k r * 2 ^ k + idx k r := by
  unfold wrp idx
  rw [Nat.pow_succ, Nat.mod_mul, Nat.mul_comm, Nat.add_comm]

theorem idx_lt (k r : ℕ) : idx k r < 2 ^ k := Nat.mod_lt _ (Nat.two_pow_pos k)

theorem counts_self (k n : ℕ) : Counts k n n := rfl

theorem Counts.idx_eq (h : Counts k r n) : idx k r = idx k n := by
  have hdvd : 2 ^ k ∣ 2 ^ (k + 1) := Nat.pow_dvd_pow 2 (Nat.le_succ k)
  calc r % 2 ^ k = r % 2 ^ (k + 1) % 2 ^ k := (Nat.mod_mod_of_dvd _ hdvd).symm
    _ = n % 2 ^ (k + 1) % 2 ^ k := congrArg (· % 2 ^ k) h
    _ = n % 2 ^ k := Nat.mod_mod_of_dvd _ hdvd

theorem Counts.succ (h : Counts k r n) : Counts k (r + 1) (n + 1) := by
  unfold Counts at *
  rw [Nat.add_mod, h, ← Nat.add_mod]

/-- A register is empty next to another one where both stand for one count, up to what the wrap bit
tells apart. -/
theorem empty_iff_mod : Empty k prod cons ↔ prod % 2 ^ (k + 1) = cons % 2 ^ (k + 1) := by
  rw [mod_eq_wrp_idx, mod_eq_wrp_idx]
  constructor
  · rintro ⟨hidx, hwrp⟩
    rw [hidx, hwrp]
  · intro heq
    have hprod := idx_lt k prod
    have hcons := idx_lt k cons
    have hpos := Nat.two_pow_pos k
    have hwrp : wrp k prod = wrp k cons := by
      have hdiv := congrArg (· / 2 ^ k) heq
      simpa [Nat.mul_add_div hpos, Nat.mul_comm _ (2 ^ k), Nat.div_eq_of_lt hprod,
        Nat.div_eq_of_lt hcons] using hdiv
    rw [hwrp] at heq
    exact ⟨Nat.add_left_cancel heq, hwrp⟩

/-! ### The ring -/

namespace Holds

/-- The test for an empty ring. -/
theorem empty_iff (h : Holds k slots prod cons done rest) : Empty k prod cons ↔ rest = [] := by
  rw [empty_iff_mod, h.prod, h.cons, ← List.length_eq_zero_iff]
  have hle := h.length_le
  have hlt : rest.length < 2 ^ (k + 1) :=
    Nat.lt_of_le_of_lt hle (Nat.pow_lt_pow_right (by decide) (Nat.lt_succ_self k))
  constructor
  · intro heq
    have hzero : rest.length ≡ 0 [MOD 2 ^ (k + 1)] := Nat.ModEq.add_left_cancel' done heq
    exact Nat.ModEq.eq_of_lt_of_lt hzero hlt (Nat.two_pow_pos _)
  · intro hzero
    rw [hzero, Nat.add_zero]

/-- The test for a full ring. -/
theorem full_iff (h : Holds k slots prod cons done rest) :
    Full k prod cons ↔ rest.length = 2 ^ k := by
  have hle := h.length_le
  have hpos := Nat.two_pow_pos k
  have hidx : idx k prod = idx k cons ↔ rest.length ≡ 0 [MOD 2 ^ k] := by
    rw [h.prod.idx_eq, h.cons.idx_eq]
    exact ⟨fun heq => Nat.ModEq.add_left_cancel' done heq, fun heq => heq.add_left done⟩
  have hempty := h.empty_iff
  rw [← List.length_eq_zero_iff] at hempty
  constructor
  · rintro ⟨heq, hwrp⟩
    have hne : rest.length ≠ 0 := fun hzero => hwrp (hempty.mpr hzero).2
    have hdvd : 2 ^ k ∣ rest.length := (Nat.modEq_zero_iff_dvd).mp (hidx.mp heq)
    exact Nat.le_antisymm hle (Nat.le_of_dvd (Nat.pos_of_ne_zero hne) hdvd)
  · intro hlen
    have heq := hidx.mpr ((Nat.modEq_zero_iff_dvd).mpr (hlen ▸ dvd_refl _))
    refine ⟨heq, fun hwrp => ?_⟩
    have hzero := hempty.mp ⟨heq, hwrp⟩
    omega

/-- Two elements in the ring are in different slots. -/
theorem idx_ne (hj : j < n) (hn : n < 2 ^ k) : idx k (done + j) ≠ idx k (done + n) := by
  intro heq
  have hmod : j ≡ n [MOD 2 ^ k] := Nat.ModEq.add_left_cancel' done heq
  have hjn := Nat.ModEq.eq_of_lt_of_lt hmod (Nat.lt_trans hj hn) hn
  exact absurd hjn (Nat.ne_of_lt hj)

/-- A new element goes into the slot at the producer's register. -/
theorem push (h : Holds k slots prod cons done rest) (hroom : ¬Full k prod cons)
    (hslot : slots' (idx k prod) = a) (hother : ∀ i, i ≠ idx k prod → slots' i = slots i)
    (hr : Counts k r (prod + 1)) : Holds k slots' r cons done (rest ++ [a]) := by
  have hlt : rest.length < 2 ^ k := Nat.lt_of_le_of_ne h.length_le (mt h.full_iff.mpr hroom)
  refine ⟨?_, h.cons, ?_, fun {j b} hj => ?_⟩
  · rw [List.length_append, List.length_singleton, ← Nat.add_assoc]
    exact hr.trans h.prod.succ
  · rw [List.length_append, List.length_singleton]
    exact hlt
  · rw [h.prod.idx_eq] at hslot hother
    by_cases hjl : j < rest.length
    · rw [List.getElem?_append_left hjl] at hj
      rw [hother _ (idx_ne hjl hlt)]
      exact h.slot hj
    · have hbound := (List.getElem?_eq_some_iff.mp hj).1
      rw [List.length_append, List.length_singleton] at hbound
      obtain rfl : j = rest.length := by omega
      rw [List.getElem?_concat_length] at hj
      rw [hslot]
      exact Option.some.inj hj

/-- The consumer takes the element in the slot at its register. -/
theorem pop (h : Holds k slots prod cons done (a :: rest)) (hr : Counts k r (cons + 1)) :
    slots (idx k cons) = a ∧ Holds k slots prod r (done + 1) rest := by
  refine ⟨?_, ?_, hr.trans h.cons.succ, ?_, fun {j b} hj => ?_⟩
  · rw [h.cons.idx_eq]
    exact h.slot (j := 0) rfl
  · have hprod := h.prod
    rw [List.length_cons] at hprod
    rwa [Nat.add_assoc, Nat.add_comm 1]
  · exact Nat.le_of_succ_le h.length_le
  · rw [Nat.add_assoc, Nat.add_comm 1]
    exact h.slot (List.getElem?_cons_succ.trans hj)

/-- Another element in the slot at the consumer's register. -/
theorem replace (h : Holds k slots prod cons done (a :: rest))
    (hslot : slots' (idx k cons) = b) (hother : ∀ i, i ≠ idx k cons → slots' i = slots i) :
    Holds k slots' prod cons done (b :: rest) := by
  refine ⟨h.prod, h.cons, h.length_le, fun {j c} hj => ?_⟩
  rw [h.cons.idx_eq] at hslot hother
  cases j with
  | zero => exact hslot.trans (Option.some.inj hj)
  | succ j =>
    have hlt : j + 1 < 2 ^ k := Nat.lt_of_lt_of_le (List.getElem?_eq_some_iff.mp hj).1 h.length_le
    rw [hother _ (idx_ne (j := 0) (Nat.succ_pos j) hlt).symm]
    exact h.slot hj

end Holds

end RingQueue
