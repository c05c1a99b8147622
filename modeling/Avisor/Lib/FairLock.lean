import Avisor.Lib.Machine
import Mathlib.Data.List.Basic
import Mathlib.Data.List.Nodup

/-!
# A lock that is fair

What a ticket lock is for. Clients stand in line in the order in which they have drawn, the first in
the line may enter, and who has entered is first until it leaves. `drawn` and `entered` are all the
draws and entries so far, the earliest first.
-/

universe u

/-- The draws, the entries and the number of clients that have left. -/
structure FairLock (ι : Type u) where
  drawn : List ι
  entered : List ι
  left : ℕ

namespace FairLock

/-- What a client does. -/
inductive Action (ι : Type u)
  | draw (c : ι)
  | enter (c : ι)
  | leave (c : ι)

variable {ι : Type u}

/-- The clients that have drawn and not left. -/
def line (s : FairLock ι) : List ι := s.drawn.drop s.left

/-- The clients that have entered and not left. -/
def holders (s : FairLock ι) : List ι := s.entered.drop s.left

section Machine

variable [DecidableEq ι]

/-- Nobody draws while in the line, and the first in the line enters once and then leaves. -/
def step (s : FairLock ι) : Action ι → Option (FairLock ι)
  | .draw c => if c ∈ s.line then none else some { s with drawn := s.drawn ++ [c] }
  | .enter c =>
    if s.holders = [] ∧ s.line.head? = some c then some { s with entered := s.entered ++ [c] }
    else none
  | .leave c => if s.holders = [c] then some { s with left := s.left + 1 } else none

/-- The lock, free at first. -/
def machine (ι : Type u) [DecidableEq ι] : Machine (FairLock ι) (Action ι) where
  Init s := s = ⟨[], [], 0⟩
  step := step

end Machine

/-- The order of entry is that of the draws, and the holder is one at most. -/
structure Wf (s : FairLock ι) : Prop where
  entered_isPrefix : s.entered <+: s.drawn
  left_le : s.left ≤ s.entered.length
  length_le : s.entered.length ≤ s.left + 1
  nodup : s.line.Nodup

variable {s t : FairLock ι} {c d : ι}

theorem Wf.left_le_drawn (h : s.Wf) : s.left ≤ s.drawn.length :=
  Nat.le_trans h.left_le h.entered_isPrefix.length_le

theorem Wf.length_holders (h : s.Wf) : s.holders.length ≤ 1 := by
  have hle := h.length_le
  rw [holders, List.length_drop]
  omega

/-- Where the lock is free, as many have entered as have left. -/
theorem Wf.length_entered (h : s.Wf) (hfree : s.holders = []) : s.entered.length = s.left := by
  rw [holders, List.drop_eq_nil_iff] at hfree
  exact Nat.le_antisymm hfree h.left_le

/-- Who holds the lock is the first in the line. -/
theorem Wf.head?_line (h : s.Wf) (hc : s.holders = [c]) : s.line.head? = some c := by
  have hget : s.entered[s.left]? = some c := by
    rw [← List.head?_drop]
    exact congrArg List.head? hc
  obtain ⟨rest, hrest⟩ := h.entered_isPrefix
  rw [line, List.head?_drop, ← hrest]
  exact List.getElem?_append_left (List.getElem?_eq_some_iff.mp hget).1 ▸ hget

theorem Wf.holders_eq (h : s.Wf) (hc : c ∈ s.holders) : s.holders = [c] := by
  have hlen := h.length_holders
  match hs : s.holders, hlen with
  | [], _ => simp [hs] at hc
  | [d], _ =>
    rw [hs, List.mem_singleton] at hc
    rw [hc]

theorem Wf.mem_line (h : s.Wf) (hc : c ∈ s.holders) : c ∈ s.line :=
  List.mem_of_mem_head? (h.head?_line (h.holders_eq hc))

theorem Wf.eq_of_mem_holders (h : s.Wf) (hc : c ∈ s.holders) (hd : d ∈ s.holders) : c = d := by
  rw [h.holders_eq hd, List.mem_singleton] at hc
  exact hc

/-! ### Steps -/

/-- A draw puts the client at the end of the line. -/
theorem Wf.line_draw (h : s.Wf) : line { s with drawn := s.drawn ++ [c] } = s.line ++ [c] :=
  List.drop_append_of_le_length h.left_le_drawn

theorem Wf.holders_enter (h : s.Wf) (hfree : s.holders = []) :
    holders { s with entered := s.entered ++ [c] } = [c] := by
  rw [holders, ← h.length_entered hfree]
  exact List.drop_left

theorem Wf.holders_leave (h : s.Wf) : holders { s with left := s.left + 1 } = [] := by
  rw [holders, List.drop_eq_nil_iff]
  exact h.length_le

/-- The rest of the line moves on when its first client leaves. -/
theorem line_leave (s : FairLock ι) : line { s with left := s.left + 1 } = s.line.tail :=
  List.tail_drop.symm

section Machine

variable [DecidableEq ι] {a : Action ι}

theorem Wf.init (h : (machine ι).Init s) : s.Wf := by
  subst h
  exact ⟨List.nil_prefix, Nat.le_refl _, Nat.le_succ _, List.nodup_nil⟩

theorem Wf.step (h : s.Wf) (hstep : s.step a = some t) : t.Wf := by
  cases a with
  | draw c =>
    obtain ⟨hout, ht⟩ := Option.ite_none_left_eq_some.mp hstep
    cases ht
    refine ⟨h.entered_isPrefix.trans (List.prefix_append _ _), h.left_le, h.length_le, ?_⟩
    rw [h.line_draw]
    exact List.nodup_append_comm.mp (List.nodup_cons.mpr ⟨hout, h.nodup⟩)
  | enter c =>
    obtain ⟨⟨hfree, hfirst⟩, ht⟩ := Option.ite_none_right_eq_some.mp hstep
    cases ht
    have hlen := h.length_entered hfree
    refine ⟨?_, ?_, ?_, h.nodup⟩
    · obtain ⟨rest, hrest⟩ := h.entered_isPrefix
      have hnext : rest.head? = some c := by
        rw [line, ← hrest, ← hlen, List.drop_left] at hfirst
        exact hfirst
      obtain ⟨rest', rfl⟩ := List.head?_eq_some_iff.mp hnext
      exact ⟨rest', by rw [← hrest, List.append_assoc, List.singleton_append]⟩
    · exact Nat.le_trans h.left_le (by simp)
    · simp [hlen]
  | leave c =>
    obtain ⟨hholds, ht⟩ := Option.ite_none_right_eq_some.mp hstep
    cases ht
    have hlen : s.entered.length - s.left = 1 := by
      rw [← List.length_drop]
      exact congrArg List.length hholds
    refine ⟨h.entered_isPrefix, by simp only; omega, by simp only; omega, ?_⟩
    rw [line_leave]
    exact h.nodup.sublist (List.tail_sublist _)

theorem reachable_wf (h : (machine ι).Reachable s) : s.Wf :=
  h.invariant (fun _ => Wf.init) fun _ _ _ h hstep => h.step hstep

end Machine

end FairLock
