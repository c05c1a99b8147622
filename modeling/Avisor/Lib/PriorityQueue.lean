import Mathlib.Data.List.MinMax
import Mathlib.Data.List.Nodup

/-!
# Stable priority queues

A queue is the list of its elements in the order of their insertion. A lookup takes out the element
of the least priority, of several the first inserted. An implementation may keep the elements of each
priority apart: `level prio q i` are those of priority `i`, in the order of the queue, and the lookup
takes the first of the first level that is not empty.
-/

namespace PriorityQueue

variable {α : Type*}

/-- The calls of a queue. -/
inductive Op (α : Type*)
  | insert (x : α)
  | lookup
  deriving DecidableEq, Repr

variable [DecidableEq α] (prio : α → Nat)

/-- What a lookup returns and leaves. -/
def lookup (q : List α) : Option α × List α :=
  match q.argmin prio with
  | none => (none, q)
  | some x => (some x, q.erase x)

/-- What the lookups of a sequence of calls return, and what the sequence leaves. -/
def run : List α → List (Op α) → List (Option α) × List α
  | q, [] => ([], q)
  | q, .insert x :: ops => run (q ++ [x]) ops
  | q, .lookup :: ops =>
    ((lookup prio q).1 :: (run (lookup prio q).2 ops).1, (run (lookup prio q).2 ops).2)

/-- Every insertion is of an element that is not in the queue then, and one of those allowed. -/
def Admits (allowed : α → Prop) : List α → List (Op α) → Prop
  | _, [] => True
  | q, .insert x :: ops => x ∉ q ∧ allowed x ∧ Admits allowed (q ++ [x]) ops
  | q, .lookup :: ops => Admits allowed (lookup prio q).2 ops

instance Admits.decidable (allowed : α → Prop) [DecidablePred allowed] :
    ∀ q ops, Decidable (Admits prio allowed q ops)
  | _, [] => .isTrue trivial
  | q, .insert x :: ops =>
    have := Admits.decidable allowed (q ++ [x]) ops
    inferInstanceAs (Decidable (x ∉ q ∧ allowed x ∧ Admits prio allowed (q ++ [x]) ops))
  | q, .lookup :: ops => Admits.decidable allowed (lookup prio q).2 ops

/-- The elements of priority `i`. -/
def level (q : List α) (i : Nat) : List α := q.filter fun x => prio x = i

variable {prio} {q : List α} {x : α} {i : Nat}

omit [DecidableEq α] in
@[simp] theorem level_nil : level prio [] i = [] := rfl

omit [DecidableEq α] in
@[simp] theorem mem_level : x ∈ level prio q i ↔ x ∈ q ∧ prio x = i := by
  simp [level]

omit [DecidableEq α] in
theorem level_append : level prio (q ++ [x]) i =
    if i = prio x then level prio q i ++ [x] else level prio q i := by
  by_cases h : i = prio x
  · subst h
    simp [level]
  · simp [level, h, Ne.symm h]

theorem level_erase (hq : q.Nodup) : level prio (q.erase x) i = (level prio q i).erase x := by
  simp only [level, hq.erase_eq_filter, (hq.filter _).erase_eq_filter, List.filter_filter]
  apply List.filter_congr
  intro y _
  exact Bool.and_comm _ _

theorem level_erase_of_ne (hq : q.Nodup) (h : i ≠ prio x) :
    level prio (q.erase x) i = level prio q i := by
  rw [level_erase hq]
  apply List.erase_of_not_mem
  exact fun hx => h (mem_level.mp hx).2.symm

omit [DecidableEq α] in
/-- Levels that depend on the priorities of their elements only. -/
theorem level_congr {prio' : α → Nat} (h : ∀ x ∈ q, prio' x = prio x) :
    level prio' q i = level prio q i := by
  apply List.filter_congr
  intro y hy
  rw [h y hy]

/-- The first of the first level that is not empty is the one a lookup takes. -/
theorem argmin_eq_some {rest : List α} (hfirst : level prio q i = x :: rest)
    (hlower : ∀ j < i, level prio q j = []) : q.argmin prio = some x := by
  obtain ⟨l₁, l₂, rfl, hbefore, hx, -⟩ := List.filter_eq_cons_iff.mp hfirst
  have hprio : prio x = i := by simpa using hx
  have hleast (y) (hy : y ∈ l₁ ++ x :: l₂) : prio x ≤ prio y := by
    by_contra hlt
    have hmem : y ∈ level prio (l₁ ++ x :: l₂) (prio y) := mem_level.mpr ⟨hy, rfl⟩
    rw [hlower (prio y) (by omega)] at hmem
    cases hmem
  have hbehind (y) (hy : y ∈ l₁) : prio y ≠ i := by
    simpa using hbefore y hy
  rw [List.argmin_eq_some_iff]
  refine ⟨by simp, hleast, fun y hy hle => ?_⟩
  have hyi : prio y = i := by
    have hge := hleast y hy
    omega
  have hy₁ : y ∉ l₁ := fun hmem => hbehind y hmem hyi
  have hx₁ : x ∉ l₁ := fun hmem => hbehind x hmem hprio
  rw [List.idxOf_append_of_notMem hx₁, List.idxOf_append_of_notMem hy₁, List.idxOf_cons_self]
  omega

theorem lookup_eq_some {rest : List α} (hfirst : level prio q i = x :: rest)
    (hlower : ∀ j < i, level prio q j = []) : lookup prio q = (some x, q.erase x) := by
  unfold lookup
  rw [argmin_eq_some hfirst hlower]

@[simp] theorem lookup_nil : lookup prio [] = (none, ([] : List α)) := rfl

omit [DecidableEq α] in
/-- The levels, one after another, hold the elements of the queue. -/
theorem flatMap_level_perm {n : Nat} (hq : q.Nodup) (hprio : ∀ x ∈ q, prio x < n) :
    ((List.range n).flatMap (level prio q)).Perm q := by
  apply (List.perm_ext_iff_of_nodup ?_ hq).mpr
  · intro x
    simp only [List.mem_flatMap, List.mem_range, mem_level]
    constructor
    · rintro ⟨i, -, hx, -⟩
      exact hx
    · intro hx
      exact ⟨prio x, hprio x hx, hx, rfl⟩
  · apply List.nodup_flatMap.mpr
    refine ⟨fun i _ => hq.filter _, List.nodup_range.imp fun hij x hi hj => ?_⟩
    exact hij ((mem_level.mp hi).2.symm.trans (mem_level.mp hj).2)

end PriorityQueue
