import Mathlib.Algebra.Group.Nat.Defs
import Mathlib.Logic.Function.Basic

/-!
# Words on a descending stack

A memory of 64-bit words by their addresses, eight apart, and what a stack holds from its pointer on. A
word that is pushed goes below what the stack holds and leaves it as it is.
-/

namespace WordStack

open Function

universe u

variable {α : Type u}

/-- The words `ws` lie one after another from `a` on. -/
def WordsAt (mem : BitVec 64 → α) : BitVec 64 → List α → Prop
  | _, [] => True
  | a, w :: ws => mem a = w ∧ WordsAt mem (a + 8) ws

variable {mem mem' : BitVec 64 → α} {a b : BitVec 64} {w : α} {ws : List α}

theorem WordsAt.congr (h : WordsAt mem a ws)
    (hsame : ∀ k < ws.length, mem' (a + BitVec.ofNat 64 (8 * k)) = mem (a + BitVec.ofNat 64 (8 * k))) :
    WordsAt mem' a ws := by
  induction ws generalizing a with
  | nil => trivial
  | cons w ws ih =>
    obtain ⟨hw, hws⟩ := h
    have hfirst := hsame 0 (Nat.zero_lt_succ _)
    rw [Nat.mul_zero, BitVec.add_zero] at hfirst
    refine ⟨hfirst.trans hw, ih hws fun k hk => ?_⟩
    have hnext := hsame (k + 1) (Nat.succ_lt_succ hk)
    have haddr : a + BitVec.ofNat 64 (8 * (k + 1)) = a + 8 + BitVec.ofNat 64 (8 * k) := by
      rw [Nat.mul_succ, Nat.add_comm, BitVec.ofNat_add, BitVec.add_assoc]
      rfl
    rwa [haddr] at hnext

/-- A push. -/
theorem WordsAt.push (h : WordsAt mem a ws) (w : α) (hlen : ws.length < 2 ^ 60) :
    WordsAt (update mem (a - 8) w) (a - 8) (w :: ws) := by
  constructor
  · exact update_self ..
  · rw [BitVec.sub_add_cancel]
    apply h.congr
    intro k hk
    apply update_of_ne
    intro haddr
    bv_omega

end WordStack
