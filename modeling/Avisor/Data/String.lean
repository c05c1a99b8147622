import Avisor.Data.Types
import Avisor.Lib.Memory

/-!
# `memcpy` and `memset`

The two functions of `lib/string.c` that the hypervisor moves guests with. `memcpy` copies whole
words as long as both pointers are aligned, and byte by byte otherwise and at the end. On ranges
that are apart both ways are the same copy.
-/

namespace Avisor

open Function Memory

/-- The word loop of `memcpy`, with the `i` it ends with. A pass adds a word to `i`, so `fuel` for the
bytes that are left suffices. `i` and `count` are of type `size_t`. -/
def memcpyWords (dst src count : Nat) : Nat → Nat → Memory → Memory × Nat
  | 0, i, mem => (mem, i)
  | fuel + 1, i, mem =>
    if i < count then
      if (count + sizeMax) % sizeT < (i + 7) % sizeT then (mem, i)
      else memcpyWords dst src count fuel ((i + 8) % sizeT)
        (writeLe mem (dst + i) 8 (readLe mem (src + i) 8))
    else (mem, i)

/-- The byte loops of `memcpy`. -/
def memcpyBytes (dst src count : Nat) : Nat → Nat → Memory → Memory
  | 0, _, mem => mem
  | fuel + 1, i, mem =>
    if i < count then memcpyBytes dst src count fuel (i + 1) (update mem (dst + i) (mem (src + i)))
    else mem

/-- `memcpy`. The test behind the word loop compares with `count - 1`, a `size_t`. -/
def memcpy (mem : Memory) (dst src count : Nat) : Memory :=
  if src % 8 = 0 ∧ dst % 8 = 0 then
    let words := memcpyWords dst src count count 0 mem
    if words.2 ≤ (count + sizeMax) % sizeT then
      memcpyBytes dst src count (count - words.2) words.2 words.1
    else words.1
  else memcpyBytes dst src count count 0 mem

/-- `memset`. -/
def memset (mem : Memory) (dest : Nat) (c : BitVec 8) : Nat → Memory
  | 0 => mem
  | count + 1 => memset (update mem dest c) (dest + 1) c count

variable {mem : Memory} {dst src count i : Nat}

theorem memcpyBytes_eq (mem : Memory) {fuel : Nat} (h : Apart dst count src count) (hi : i ≤ count)
    (hfuel : count - i ≤ fuel) :
    memcpyBytes dst src count fuel i (copy mem dst src i) = copy mem dst src count := by
  induction fuel generalizing i with
  | zero =>
    obtain rfl : i = count := by omega
    rfl
  | succ fuel ih =>
    rw [memcpyBytes]
    by_cases hlt : i < count
    · rw [if_pos hlt, update_copy h hlt]
      exact ih hlt (by omega)
    · obtain rfl : i = count := by omega
      rw [if_neg hlt]

/-- Whole words lie behind `i`, so the sums of the word loop do not wrap. -/
theorem wordTest_iff (hcount : count < sizeT) (hword : i % 8 = 0) (hlt : i < count) :
    ((count + sizeMax) % sizeT < (i + 7) % sizeT ↔ count < i + 8) ∧
      (i + 8 ≤ count → (i + 8) % sizeT = i + 8) := by
  simp only [sizeMax, sizeT] at *
  omega

/-- The word loop leaves a prefix of the copy, and fewer bytes than a word. -/
theorem memcpyWords_eq (mem : Memory) {fuel : Nat} (h : Apart dst count src count)
    (hcount : count < sizeT) (hword : i % 8 = 0) (hi : i ≤ count) (hfuel : count - i ≤ fuel) :
    ∃ j, i ≤ j ∧ j ≤ count ∧ count < j + 8 ∧
      memcpyWords dst src count fuel i (copy mem dst src i) = (copy mem dst src j, j) := by
  induction fuel generalizing i with
  | zero => exact ⟨i, Nat.le_refl i, hi, by omega, rfl⟩
  | succ fuel ih =>
    rw [memcpyWords]
    by_cases hlt : i < count
    · obtain ⟨htest, hnext⟩ := wordTest_iff hcount hword hlt
      rw [if_pos hlt]
      by_cases hend : count < i + 8
      · rw [if_pos (htest.mpr hend)]
        exact ⟨i, Nat.le_refl i, hi, hend, rfl⟩
      · have hle : i + 8 ≤ count := Nat.le_of_not_lt hend
        rw [if_neg (mt htest.mp hend), hnext hle, writeLe_readLe_copy h hle]
        obtain ⟨j, hij, hj, hrest, heq⟩ := ih (i := i + 8) (by omega) hle (by omega)
        exact ⟨j, by omega, hj, hrest, heq⟩
    · rw [if_neg hlt]
      exact ⟨i, Nat.le_refl i, hi, by omega, rfl⟩

/-- On ranges that are apart `memcpy` is a copy, and nothing else changes. -/
theorem memcpy_eq (h : Apart dst count src count) (hcount : count < sizeT) :
    memcpy mem dst src count = copy mem dst src count := by
  unfold memcpy
  by_cases haligned : src % 8 = 0 ∧ dst % 8 = 0
  · rw [if_pos haligned]
    obtain ⟨j, -, hj, -, heq⟩ := memcpyWords_eq mem h hcount (Nat.zero_mod 8) (Nat.zero_le count)
      (Nat.sub_le count 0)
    rw [copy_zero] at heq
    rw [heq]
    dsimp only
    by_cases hrest : j ≤ (count + sizeMax) % sizeT
    · rw [if_pos hrest]
      exact memcpyBytes_eq mem h hj (Nat.le_refl _)
    · obtain rfl : j = count := by
        simp only [sizeMax, sizeT] at *
        omega
      rw [if_neg hrest]
  · rw [if_neg haligned]
    have hbytes := memcpyBytes_eq mem h (Nat.zero_le count) (Nat.sub_le count 0)
    rwa [copy_zero] at hbytes

/-- Whatever the alignment of its pointers is, `memcpy` copies the `count` bytes, as copying byte by byte does,
and changes no other byte. -/
theorem memcpy_copies (mem : Memory) (h : Apart dst count src count) (hcount : count < sizeT) :
    (∀ k < count, memcpy mem dst src count (dst + k) = mem (src + k)) ∧
      (∀ a, (∀ k < count, a ≠ dst + k) → memcpy mem dst src count a = mem a) ∧
      memcpy mem dst src count = memcpyBytes dst src count count 0 mem := by
  have hbytes := memcpyBytes_eq mem h (Nat.zero_le count) (Nat.sub_le count 0)
  rw [copy_zero] at hbytes
  rw [memcpy_eq h hcount]
  refine ⟨fun k hk => copy_apply hk, fun a hout => if_neg fun hin => ?_, hbytes.symm⟩
  exact hout (a - dst) (by omega) (by omega)

/-- An aligned copy with bytes behind its last word. -/
theorem memcpy_copies_thirteen :
    (∀ k < 13, memcpy (BitVec.ofNat 8) 64 1024 13 (64 + k) = BitVec.ofNat 8 (1024 + k)) ∧
      (∀ a, (∀ k < 13, a ≠ 64 + k) → memcpy (BitVec.ofNat 8) 64 1024 13 a = BitVec.ofNat 8 a) ∧
      memcpy (BitVec.ofNat 8) 64 1024 13 = memcpyBytes 64 1024 13 13 0 (BitVec.ofNat 8) :=
  memcpy_copies (BitVec.ofNat 8) (by decide) (by decide)

private theorem agree_memcpyBytes {fuel b k : Nat} (h : Apart dst count b k) :
    Agree (memcpyBytes dst src count fuel i mem) mem b k := by
  induction fuel generalizing i mem with
  | zero => exact .refl mem b k
  | succ fuel ih =>
    rw [memcpyBytes]
    by_cases hlt : i < count
    · rw [if_pos hlt]
      refine ih.trans fun j hle hlt' => update_of_ne ?_ _ _
      have hout := h.out hle hlt'
      omega
    · rw [if_neg hlt]
      exact .refl mem b k

private theorem agree_memcpyWords {fuel b k : Nat} (h : Apart dst count b k) (hcount : count < sizeT)
    (hword : i % 8 = 0) : Agree (memcpyWords dst src count fuel i mem).1 mem b k := by
  induction fuel generalizing i mem with
  | zero => exact .refl mem b k
  | succ fuel ih =>
    rw [memcpyWords]
    by_cases hlt : i < count
    · obtain ⟨htest, hnext⟩ := wordTest_iff hcount hword hlt
      rw [if_pos hlt]
      by_cases hend : count < i + 8
      · rw [if_pos (htest.mpr hend)]
        exact .refl mem b k
      · have hle : i + 8 ≤ count := Nat.le_of_not_lt hend
        rw [if_neg (mt htest.mp hend), hnext hle]
        refine (ih (by omega)).trans (agree_writeLe ?_)
        exact h.mono (by omega) (by omega) (Nat.le_refl _) (Nat.le_refl _)
    · rw [if_neg hlt]
      exact .refl mem b k

/-- Whatever its ranges are, `memcpy` stores to the `count` bytes at `dst` only. -/
theorem agree_memcpy {b k : Nat} (h : Apart dst count b k) (hcount : count < sizeT) :
    Agree (memcpy mem dst src count) mem b k := by
  unfold memcpy
  by_cases haligned : src % 8 = 0 ∧ dst % 8 = 0
  · rw [if_pos haligned]
    dsimp only
    by_cases hrest : (memcpyWords dst src count count 0 mem).2 ≤ (count + sizeMax) % sizeT
    · rw [if_pos hrest]
      exact (agree_memcpyBytes h).trans (agree_memcpyWords h hcount (Nat.zero_mod 8))
    · rw [if_neg hrest]
      exact agree_memcpyWords h hcount (Nat.zero_mod 8)
  · rw [if_neg haligned]
    exact agree_memcpyBytes h

theorem memset_eq {c : BitVec 8} : memset mem dst c count = fill mem dst count c := by
  induction count generalizing mem dst with
  | zero =>
    funext b
    exact (if_neg (by omega)).symm
  | succ count ih =>
    rw [memset, ih]
    funext b
    unfold fill
    by_cases hin : dst + 1 ≤ b ∧ b < dst + 1 + count
    · rw [if_pos hin, if_pos (by omega)]
    · rw [if_neg hin]
      by_cases hb : b = dst
      · subst hb
        rw [update_self, if_pos (by omega)]
      · rw [update_of_ne hb, if_neg (by omega)]

end Avisor
