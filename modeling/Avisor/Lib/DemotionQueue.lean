import Mathlib.Data.List.Nodup
import Mathlib.Logic.Function.Basic
import Mathlib.Tactic.Common

/-!
# Queues with demotion

Elements wait in numbered levels, each a FIFO list. The first element of the lowest level that is not
empty is chosen and runs; behind its run it goes to the end of the next level, and from the last one
to its end again. New elements enter one fixed level. Choosing from the lowest level starves the
others in general, but an element that is chosen again and again sinks: while `v` waits, each other
element is chosen at most once for each level between the first one and the last, and at most once if
there is only one.
-/

namespace DemotionQueue

open Function

variable {α : Type*}

/-- The waiting elements by level, and the one that runs with the level it was chosen from. -/
structure Levels (α : Type*) where
  level : Nat → List α
  run : Option (α × Nat)

namespace Levels

/-- `x` goes to the end of level `i`. -/
def append (q : Levels α) (x : α) (i : Nat) : Levels α :=
  { q with level := update q.level i (q.level i ++ [x]) }

/-- An element has one place at most, and levels `base` to `top` are in use. -/
structure Wf (base top : Nat) (q : Levels α) : Prop where
  level_unique : ∀ x i j, x ∈ q.level i → x ∈ q.level j → i = j
  nodup : ∀ i, (q.level i).Nodup
  run_out : ∀ x i j, q.run = some (x, i) → x ∉ q.level j
  level_range : ∀ x i, x ∈ q.level i → base ≤ i ∧ i ≤ top
  run_range : ∀ x i, q.run = some (x, i) → base ≤ i ∧ i ≤ top

/-- A step, with the element that it chooses. -/
inductive Step (base top : Nat) (q : Levels α) : Option α → Levels α → Prop
  | enter (x) (out : ∀ i, x ∉ q.level i) (idle : ∀ i, q.run ≠ some (x, i)) :
      Step base top q none (q.append x base)
  | demote (x i) (run : q.run = some (x, i)) :
      Step base top q none { q.append x (min (i + 1) top) with run := none }
  | choose (x i l) (idle : q.run = none) (lower : ∀ j < i, q.level j = [])
      (first : q.level i = x :: l) :
      Step base top q (some x) { level := update q.level i l, run := some (x, i) }

/-- A run of steps, with the elements they choose one after another. -/
inductive Run (base top : Nat) : Levels α → List α → Levels α → Prop
  | nil (q) : Run base top q [] q
  | step {q q' q'' : Levels α} {o : Option α} {l : List α} (h : Step base top q o q')
      (rest : Run base top q' l q'') : Run base top q (o.toList ++ l) q''

variable {base top : Nat} {q q' q'' : Levels α} {v x : α} {p i : Nat}

theorem mem_append_iff : v ∈ (q.append x i).level p ↔ v ∈ q.level p ∨ (v = x ∧ p = i) := by
  by_cases hp : p = i
  · subst hp
    simp [append]
  · simp [append, hp]

theorem Run.single {o : Option α} (h : Step base top q o q') : Run base top q o.toList q' := by
  have hrun := Run.step h (.nil q')
  rwa [List.append_nil] at hrun

theorem Run.append {l l' : List α} (h : Run base top q l q') (h' : Run base top q' l' q'') :
    Run base top q (l ++ l') q'' := by
  induction h with
  | nil => exact h'
  | step hstep _ ih =>
    rw [List.append_assoc]
    exact .step hstep (ih h')

theorem Wf.append (h : q.Wf base top) (out : ∀ i, x ∉ q.level i) (idle : ∀ i, q.run ≠ some (x, i))
    (range : base ≤ i ∧ i ≤ top) : (q.append x i).Wf base top := by
  refine ⟨?_, ?_, ?_, ?_, h.run_range⟩
  · intro y j k hj hk
    rw [mem_append_iff] at hj hk
    rcases hj with hj | ⟨rfl, rfl⟩
    · rcases hk with hk | ⟨rfl, rfl⟩
      · exact h.level_unique y j k hj hk
      · exact absurd hj (out j)
    · rcases hk with hk | ⟨-, rfl⟩
      · exact absurd hk (out k)
      · rfl
  · intro j
    by_cases hj : j = i
    · subst hj
      simp only [Levels.append, update_self]
      exact List.nodup_append.mpr ⟨h.nodup j, List.nodup_singleton x, by
        rintro y hy z hz rfl
        rw [List.mem_singleton.mp hz] at hy
        exact out j hy⟩
    · simp only [Levels.append, update_of_ne hj]
      exact h.nodup j
  · intro y j k hrun hk
    rcases mem_append_iff.mp hk with hk | ⟨rfl, -⟩
    · exact h.run_out y j k hrun hk
    · exact idle j hrun
  · intro y j hj
    rcases mem_append_iff.mp hj with hj | ⟨-, rfl⟩
    · exact h.level_range y j hj
    · exact range

theorem Wf.step {o : Option α} (h : q.Wf base top) (hbase : base ≤ top)
    (hstep : Step base top q o q') : q'.Wf base top := by
  cases hstep with
  | enter x out idle => exact h.append out idle ⟨Nat.le_refl base, hbase⟩
  | demote x i run =>
    have hrange := h.run_range x i run
    have hidle : ({ q with run := none } : Levels α).Wf base top :=
      ⟨h.level_unique, h.nodup, by simp, h.level_range, by simp⟩
    exact hidle.append (fun j => h.run_out x i j run) (by simp) (by omega)
  | choose x i l idle lower first =>
    have hmem {y j} (hy : y ∈ update q.level i l j) : y ∈ q.level j := by
      by_cases hj : j = i
      · subst hj
        rw [update_self] at hy
        rw [first]
        exact List.mem_cons_of_mem x hy
      · rwa [update_of_ne hj] at hy
    have hx : x ∈ q.level i := by
      rw [first]
      exact List.mem_cons_self
    have hnodup := h.nodup i
    rw [first, List.nodup_cons] at hnodup
    refine ⟨fun y j k hj hk => h.level_unique y j k (hmem hj) (hmem hk), fun j => ?_, ?_,
      fun y j hy => h.level_range y j (hmem hy), ?_⟩
    · by_cases hj : j = i
      · subst hj
        simp only [update_self]
        exact hnodup.2
      · simp only [update_of_ne hj]
        exact h.nodup j
    · intro y j k hrun hk
      cases hrun
      obtain rfl : i = k := h.level_unique x i k hx (hmem hk)
      simp only [update_self] at hk
      exact hnodup.1 hk
    · intro y j hrun
      cases hrun
      exact h.level_range x i hx

theorem Step.waits {o : Option α} (h : Step base top q o q') (hv : v ∈ q.level p)
    (ho : o ≠ some v) : v ∈ q'.level p := by
  cases h with
  | enter x => exact mem_append_iff.mpr (.inl hv)
  | demote x i => exact mem_append_iff.mpr (.inl hv)
  | choose x i l idle lower first =>
    by_cases hp : p = i
    · subst hp
      rw [first] at hv
      simp only [update_self]
      refine (List.mem_cons.mp hv).resolve_left ?_
      rintro rfl
      exact ho rfl
    · simp only [update_of_ne hp]
      exact hv

/-! ### How often an element can still be chosen -/

variable [DecidableEq α]

/-- The elements of level `p` that stand ahead of `v`. -/
def ahead (q : Levels α) (p : Nat) (v : α) : List α := (q.level p).takeWhile (· ≠ v)

/-- The place of `x` while `v` waits in level `p`, with the number of times that `x` can still be
chosen before `v`: once for each level it goes through on its way to `p`, where it is behind `v`. -/
inductive Place (base : Nat) (q : Levels α) (p : Nat) (v x : α) : Nat → Prop
  | below (i : Nat) (mem : x ∈ q.level i) (lt : i < p) : Place base q p v x (p - i)
  | ahead (mem : x ∈ q.ahead p v) : Place base q p v x 1
  | behind (i : Nat) (mem : x ∈ q.level i) (le : p ≤ i) (notAhead : x ∉ q.ahead p v) :
      Place base q p v x 0
  | running (i : Nat) (run : q.run = some (x, i)) : Place base q p v x (p - (i + 1))
  | out (out : ∀ i, x ∉ q.level i) (idle : ∀ i, q.run ≠ some (x, i)) : Place base q p v x (p - base)

theorem ahead_subset (q : Levels α) (p : Nat) (v : α) : q.ahead p v ⊆ q.level p :=
  (List.takeWhile_prefix _).subset

/-- What comes behind `v` is not ahead of it. -/
theorem ahead_append (hv : v ∈ q.level p) : (q.append x i).ahead p v = q.ahead p v := by
  by_cases hp : p = i
  · subst hp
    obtain ⟨l₁, l₂, hl⟩ := List.append_of_mem hv
    simp only [ahead, Levels.append, update_self, hl, List.append_assoc, List.cons_append]
    simp [List.takeWhile_append]
  · simp only [ahead, Levels.append, update_of_ne hp]

theorem exists_place (h : q.Wf base top) (hbase : base < top) (hv : v ∈ q.level p) (x : α) :
    ∃ n ≤ top - base, Place base q p v x n := by
  have hp := h.level_range v p hv
  by_cases hrun : ∃ i, q.run = some (x, i)
  · obtain ⟨i, hi⟩ := hrun
    have hrange := h.run_range x i hi
    exact ⟨_, by omega, .running i hi⟩
  · by_cases hmem : ∃ i, x ∈ q.level i
    · obtain ⟨i, hi⟩ := hmem
      have hrange := h.level_range x i hi
      by_cases hahead : x ∈ q.ahead p v
      · exact ⟨1, by omega, .ahead hahead⟩
      · by_cases hlt : i < p
        · exact ⟨p - i, by omega, .below i hi hlt⟩
        · exact ⟨0, Nat.zero_le _, .behind i hi (Nat.le_of_not_lt hlt) hahead⟩
    · exact ⟨p - base, by omega, .out (not_exists.mp hmem) (not_exists.mp hrun)⟩

/-- An element that comes to the end of a level. -/
theorem place_append (base i : Nat) (hv : v ∈ q.level p) (hx : ∀ j, x ∉ q.level j) :
    ∃ n ≤ p - i, Place base (q.append x i) p v x n := by
  have hmem : x ∈ (q.append x i).level i := mem_append_iff.mpr (.inr ⟨rfl, rfl⟩)
  by_cases hlt : i < p
  · exact ⟨p - i, Nat.le_refl _, .below i hmem hlt⟩
  · refine ⟨0, Nat.zero_le _, .behind i hmem (Nat.le_of_not_lt hlt) ?_⟩
    rw [ahead_append hv]
    exact fun hahead => hx p (ahead_subset q p v hahead)

/-- An element keeps its place while another one comes to the end of a level. -/
theorem Place.append {n : Nat} {y : α} (h : Place base q p v x n) (hv : v ∈ q.level p)
    (hxy : x ≠ y) : Place base (q.append y i) p v x n := by
  cases h with
  | below j mem lt => exact .below j (mem_append_iff.mpr (.inl mem)) lt
  | ahead mem =>
    refine .ahead ?_
    rw [ahead_append hv]
    exact mem
  | behind j mem le notAhead =>
    refine .behind j (mem_append_iff.mpr (.inl mem)) le ?_
    rw [ahead_append hv]
    exact notAhead
  | running j run => exact .running j run
  | out out idle =>
    refine .out (fun j hj => ?_) idle
    exact (mem_append_iff.mp hj).elim (out j) fun heq => hxy heq.1

/-- An element that does not run keeps its place when another one stops running. -/
theorem Place.stop {n : Nat} (h : Place base q p v x n) (idle : ∀ i, q.run ≠ some (x, i)) :
    Place base { q with run := none } p v x n := by
  cases h with
  | below j mem lt => exact .below j mem lt
  | ahead mem => exact .ahead mem
  | behind j mem le notAhead => exact .behind j mem le notAhead
  | running j run => exact absurd run (idle j)
  | out out => exact .out out (by simp)

theorem Place.of_out {n : Nat} (h : Place base q p v x n) (out : ∀ i, x ∉ q.level i)
    (idle : ∀ i, q.run ≠ some (x, i)) : n = p - base := by
  cases h with
  | below j mem => exact absurd mem (out j)
  | ahead mem => exact absurd (ahead_subset q p v mem) (out p)
  | behind j mem => exact absurd mem (out j)
  | running j run => exact absurd run (idle j)
  | out => rfl

theorem Place.of_run {n : Nat} (h : Place base q p v x n) (hq : q.Wf base top)
    (run : q.run = some (x, i)) : n = p - (i + 1) := by
  have hout := fun j => hq.run_out x i j run
  cases h with
  | below j mem => exact absurd mem (hout j)
  | ahead mem => exact absurd (ahead_subset q p v mem) (hout p)
  | behind j mem => exact absurd mem (hout j)
  | running j run' =>
    rw [run] at run'
    cases run'
    rfl
  | out out idle => exact absurd run (idle i)

/-- The first element of its level has a time left, unless it is behind `v`. -/
theorem Place.of_first {n : Nat} {l : List α} (h : Place base q p v x n) (hq : q.Wf base top)
    (first : q.level i = x :: l) (le : i ≤ p) (hxv : x ≠ v) : p - i + (if i = p then 1 else 0) = n := by
  have hx : x ∈ q.level i := by
    rw [first]
    exact List.mem_cons_self
  cases h with
  | below j mem lt =>
    obtain rfl := hq.level_unique x i j hx mem
    rw [if_neg (Nat.ne_of_lt lt), Nat.add_zero]
  | ahead mem =>
    obtain rfl := hq.level_unique x i p hx (ahead_subset q p v mem)
    rw [if_pos rfl, Nat.sub_self]
  | behind j mem hle notAhead =>
    obtain rfl := hq.level_unique x i j hx mem
    obtain rfl := Nat.le_antisymm le hle
    refine absurd ?_ notAhead
    simp [Levels.ahead, first, hxv]
  | running j run => exact absurd hx (hq.run_out x j i run)
  | out out => exact absurd hx (out i)

/-- An element keeps its place while another one is chosen. -/
theorem Place.choose {n : Nat} {y : α} {l : List α} (h : Place base q p v x n)
    (idle : q.run = none) (first : q.level i = y :: l) (hyv : y ≠ v) (hxy : x ≠ y) :
    Place base { level := update q.level i l, run := some (y, i) } p v x n := by
  have hmem {j} : x ∈ update q.level i l j ↔ x ∈ q.level j := by
    by_cases hj : j = i
    · subst hj
      rw [update_self, first, List.mem_cons, or_iff_right hxy]
    · rw [update_of_ne hj]
  have hahead : x ∈ Levels.ahead { level := update q.level i l, run := some (y, i) } p v ↔
      x ∈ q.ahead p v := by
    by_cases hp : p = i
    · subst hp
      simp [Levels.ahead, first, hyv, hxy]
    · simp only [Levels.ahead, update_of_ne hp]
  cases h with
  | below j mem lt => exact .below j (hmem.mpr mem) lt
  | ahead mem => exact .ahead (hahead.mpr mem)
  | behind j mem le notAhead => exact .behind j (hmem.mpr mem) le fun h => notAhead (hahead.mp h)
  | running j run =>
    rw [idle] at run
    cases run
  | out out => exact .out (fun j hj => out j (hmem.mp hj)) fun j hj => hxy (by cases hj; rfl)

/-- While `v` waits, a step that chooses `x` uses up one of its times. -/
theorem Step.place {o : Option α} {n : Nat} (h : Step base top q o q') (hq : q.Wf base top)
    (hplace : Place base q p v x n) (hv : v ∈ q.level p) (ho : o ≠ some v) (hxv : x ≠ v) :
    ∃ n', Place base q' p v x n' ∧ n' + o.toList.count x ≤ n := by
  cases h with
  | enter y out idle =>
    by_cases hxy : x = y
    · subst hxy
      obtain ⟨n', hle, hn'⟩ := place_append base base hv out
      have hn := hplace.of_out out idle
      exact ⟨n', hn', by simp; omega⟩
    · exact ⟨n, hplace.append hv hxy, by simp⟩
  | demote y i run =>
    by_cases hxy : x = y
    · subst hxy
      have hn := hplace.of_run hq run
      have hp := (hq.level_range v p hv).2
      obtain ⟨n', hle, hn'⟩ := place_append (q := { q with run := none }) base (min (i + 1) top) hv
        fun j => hq.run_out x i j run
      exact ⟨n', hn', by simp; omega⟩
    · refine ⟨n, (hplace.stop fun j hj => ?_).append hv hxy, by simp⟩
      rw [run] at hj
      cases hj
      exact hxy rfl
  | choose y i l idle lower first =>
    have hyv : y ≠ v := fun heq => ho (congrArg some heq)
    by_cases hxy : x = y
    · subst hxy
      have hle : i ≤ p := by
        by_contra hlt
        rw [lower p (Nat.lt_of_not_le hlt)] at hv
        cases hv
      have hn := hplace.of_first hq first hle hxv
      refine ⟨_, .running i rfl, ?_⟩
      have hcount : (some x).toList.count x = 1 := by simp
      rw [hcount]
      split at hn <;> omega
    · refine ⟨n, hplace.choose idle first hyv hxy, ?_⟩
      have hcount : (some y).toList.count x = 0 := by
        simp [Ne.symm hxy]
      rw [hcount]
      exact Nat.le_refl n

/-- While `v` waits, every other element is chosen at most as often as its place allows. -/
theorem Run.count_le {l : List α} {n : Nat} (h : Run base top q l q') (hbase : base ≤ top)
    (hq : q.Wf base top) (hplace : Place base q p v x n) (hv : v ∈ q.level p) (hl : v ∉ l)
    (hxv : x ≠ v) : l.count x ≤ n := by
  induction h generalizing n with
  | nil => exact Nat.zero_le n
  | @step q q' q'' o l hstep _ ih =>
    have ho : o ≠ some v := by
      rintro rfl
      exact hl (List.mem_append_left _ (by simp))
    obtain ⟨n', hplace', hle⟩ := hstep.place hq hplace hv ho hxv
    have hrest := ih (hq.step hbase hstep) hplace' (hstep.waits hv ho) fun hmem =>
      hl (List.mem_append_right _ hmem)
    rw [List.count_append]
    omega

/-- While an element waits, every other one is chosen at most `top - base` times. -/
theorem Run.count_le_of_waiting {l : List α} (h : Run base top q l q') (hbase : base < top)
    (hq : q.Wf base top) (hv : v ∈ q.level p) (hl : v ∉ l) (hxv : x ≠ v) :
    l.count x ≤ top - base := by
  obtain ⟨n, hle, hplace⟩ := exists_place hq hbase hv x
  exact Nat.le_trans (h.count_le (Nat.le_of_lt hbase) hq hplace hv hl hxv) hle

end Levels

end DemotionQueue
