import Mathlib.Logic.Function.Basic
import Mathlib.Data.List.Nodup
import Mathlib.Data.List.Perm.Subperm

/-!
# Intrusive linked lists

Lists whose links are stored in the nodes: a link is an `Option ι`, `none` is the null pointer, and
`next : ι → Option ι` gives the successor stored in each node. `Chain next p l` says that following
the links from `p` visits exactly the nodes of `l` and ends at a null pointer, so a chain is finite
and, as links are a function of the node, without repetition. `Linked next prev h l` is the doubly
linked list behind a head node `h`.
-/

namespace LinkedList

open Function

variable {ι : Type*}

/-- Following `next` from the link `p` visits exactly the nodes of `l` and ends at a null link. -/
def Chain (next : ι → Option ι) : Option ι → List ι → Prop
  | p, [] => p = none
  | p, x :: l => p = some x ∧ Chain next (next x) l

variable {next : ι → Option ι}

@[simp] theorem chain_nil {p : Option ι} : Chain next p [] ↔ p = none := Iff.rfl

@[simp] theorem chain_cons {p : Option ι} {x : ι} {l : List ι} :
    Chain next p (x :: l) ↔ p = some x ∧ Chain next (next x) l := Iff.rfl

theorem chain_none {l : List ι} : Chain next none l ↔ l = [] := by
  cases l <;> simp

theorem chain_some {x : ι} {l : List ι} :
    Chain next (some x) l ↔ ∃ l', l = x :: l' ∧ Chain next (next x) l' := by
  cases l with
  | nil => simp
  | cons y l =>
    simp only [chain_cons, Option.some.injEq, List.cons.injEq]
    constructor
    · rintro ⟨rfl, h⟩
      exact ⟨l, ⟨rfl, rfl⟩, h⟩
    · rintro ⟨_, ⟨rfl, rfl⟩, h⟩
      exact ⟨rfl, h⟩

/-- The links determine the chain. -/
theorem Chain.unique {p : Option ι} {l l' : List ι} (h : Chain next p l) (h' : Chain next p l') :
    l = l' := by
  induction l generalizing p l' with
  | nil =>
    rw [chain_nil] at h
    subst h
    exact (chain_none.mp h').symm
  | cons x l ih =>
    obtain ⟨rfl, hrest⟩ := h
    obtain ⟨m, rfl, hrest'⟩ := chain_some.mp h'
    rw [ih hrest hrest']

/-- Every node of a chain starts a chain of its own, a suffix of the whole. -/
theorem Chain.suffix {p : Option ι} {l₁ l₂ : List ι} {x : ι} (h : Chain next p (l₁ ++ x :: l₂)) :
    Chain next (next x) l₂ := by
  induction l₁ generalizing p with
  | nil => exact h.2
  | cons y l₁ ih => exact ih h.2

theorem Chain.nodup {p : Option ι} {l : List ι} (h : Chain next p l) : l.Nodup := by
  induction l generalizing p with
  | nil => exact List.nodup_nil
  | cons x l ih =>
    refine List.nodup_cons.mpr ⟨fun hmem => ?_, ih h.2⟩
    -- a second visit of `x` would start the same chain again, one node shorter
    obtain ⟨l₁, l₂, rfl⟩ := List.append_of_mem hmem
    have hsame := (Chain.suffix h.2).unique h.2
    have hlen := congrArg List.length hsame
    simp only [List.length_append, List.length_cons] at hlen
    omega

/-- Changing links of nodes outside the chain leaves the chain as it is. -/
theorem Chain.congr {next' : ι → Option ι} {p : Option ι} {l : List ι} (h : Chain next p l)
    (hsame : ∀ x ∈ l, next' x = next x) : Chain next' p l := by
  induction l generalizing p with
  | nil => exact h
  | cons x l ih =>
    refine ⟨h.1, ?_⟩
    rw [hsame x List.mem_cons_self]
    exact ih h.2 fun y hy => hsame y (List.mem_cons_of_mem _ hy)

theorem Chain.last_link {p : Option ι} {l : List ι} {t : ι} (h : Chain next p (l ++ [t])) :
    next t = none := h.suffix

theorem Chain.head_mem {x : ι} {l : List ι} (h : Chain next (some x) l) : x ∈ l := by
  obtain ⟨l', rfl, _⟩ := chain_some.mp h
  exact List.mem_cons_self

/-- The successor of a node of the chain is again in the chain. -/
theorem Chain.next_mem {p : Option ι} {l : List ι} {x y : ι} (h : Chain next p l) (hx : x ∈ l)
    (hy : next x = some y) : y ∈ l := by
  obtain ⟨l₁, l₂, rfl⟩ := List.append_of_mem hx
  have hsuffix := h.suffix
  rw [hy] at hsuffix
  exact List.mem_append_right _ (List.mem_cons_of_mem _ hsuffix.head_mem)

/-- A property of the first node that every link hands on holds in the whole chain. -/
theorem Chain.forall_mem {P : ι → Prop} {p : Option ι} {l : List ι} (h : Chain next p l)
    (hfirst : ∀ x, p = some x → P x) (hlink : ∀ x y, P x → next x = some y → P y) :
    ∀ x ∈ l, P x := by
  induction l generalizing p with
  | nil => simp
  | cons a l ih =>
    have ha := hfirst a h.1
    rintro x (_ | ⟨_, hx⟩)
    · exact ha
    · exact ih h.2 (fun y hy => hlink a y ha hy) x hx

section Update

variable [DecidableEq ι]

/-- Linking a node outside the chain behind its last node. -/
theorem Chain.snoc {p : Option ι} {l : List ι} {t x : ι} (h : Chain next p (l ++ [t]))
    (hx : x ∉ l ++ [t]) :
    Chain (update (update next t (some x)) x none) p (l ++ [t] ++ [x]) := by
  have hnodup := h.nodup
  induction l generalizing p with
  | nil =>
    have htx : t ≠ x := fun heq => hx (by simp [heq])
    refine ⟨h.1, ?_⟩
    rw [update_of_ne htx, update_self]
    exact ⟨rfl, by rw [update_self]; rfl⟩
  | cons a l ih =>
    simp only [List.cons_append, List.mem_cons, not_or] at hx
    simp only [List.cons_append, List.nodup_cons] at hnodup
    have hat : a ≠ t := fun heq => hnodup.1 (by simp [heq])
    refine ⟨h.1, ?_⟩
    rw [update_of_ne (Ne.symm hx.1), update_of_ne hat]
    exact ih h.2 hx.2 hnodup.2

/-- Cutting a node out of its chain position leaves the chains that do not visit it alone. -/
theorem Chain.update_of_notMem {p q : Option ι} {l : List ι} {x : ι} (h : Chain next p l)
    (hx : x ∉ l) : Chain (update next x q) p l := by
  refine h.congr fun y hy => update_of_ne ?_ _ _
  rintro rfl
  exact hx hy

/-- Linking `x`, made the end, behind a last node `t` keeps every chain finite, whether or not `x`
was linked before: a chain through `x` now ends there. -/
theorem exists_chain_link {t x : ι} (hall : ∀ p, ∃ l, Chain next p l) (ht : next t = none)
    (p : Option ι) : ∃ l, Chain (update (update next t (some x)) x none) p l := by
  obtain ⟨l, hl⟩ := hall p
  induction l generalizing p with
  | nil => exact ⟨[], hl⟩
  | cons a l ih =>
    by_cases hax : a = x
    · subst hax
      exact ⟨[a], hl.1, by rw [update_self]; rfl⟩
    · by_cases hat : a = t
      · subst hat
        refine ⟨[a, x], hl.1, ?_⟩
        rw [update_of_ne hax, update_self]
        exact ⟨rfl, by rw [update_self]; rfl⟩
      · obtain ⟨l', hl'⟩ := ih (next a) hl.2
        refine ⟨a :: l', hl.1, ?_⟩
        rw [update_of_ne hax, update_of_ne hat]
        exact hl'

/-- Ending a chain at `x` keeps every chain finite. -/
theorem exists_chain_cut {x : ι} (hall : ∀ p, ∃ l, Chain next p l) (p : Option ι) :
    ∃ l, Chain (update next x none) p l := by
  obtain ⟨l, hl⟩ := hall p
  induction l generalizing p with
  | nil => exact ⟨[], hl⟩
  | cons a l ih =>
    by_cases hax : a = x
    · subst hax
      exact ⟨[a], hl.1, by rw [update_self]; rfl⟩
    · obtain ⟨l', hl'⟩ := ih (next a) hl.2
      refine ⟨a :: l', hl.1, ?_⟩
      rw [update_of_ne hax]
      exact hl'

end Update

/-! ### Walking a chain -/

/-- The last node reached from `x` by at most `fuel` links, if the links end by then. -/
def last (next : ι → Option ι) : Nat → ι → Option ι
  | 0, _ => none
  | fuel + 1, x =>
    match next x with
    | none => some x
    | some y => last next fuel y

/-- The nodes from the link `p` on, if there are at most `fuel`. -/
def walk (next : ι → Option ι) : Nat → Option ι → Option (List ι)
  | _, none => some []
  | 0, some _ => none
  | fuel + 1, some x => (walk next fuel (next x)).map (x :: ·)

theorem Chain.last_eq {l : List ι} {x t : ι} {fuel : Nat} (h : Chain next (some x) (l ++ [t]))
    (hfuel : l.length < fuel) : last next fuel x = some t := by
  induction l generalizing x fuel with
  | nil =>
    obtain ⟨hx, hend⟩ := h
    obtain ⟨fuel, rfl⟩ : ∃ n, fuel = n + 1 := ⟨fuel - 1, by omega⟩
    cases hx
    simp only [last, show next t = none from hend]
  | cons a l ih =>
    obtain ⟨hx, hrest⟩ := h
    obtain ⟨fuel, rfl⟩ : ∃ n, fuel = n + 1 := ⟨fuel - 1, by omega⟩
    cases hx
    simp only [List.length_cons, Nat.add_lt_add_iff_right] at hfuel
    cases hnext : next a with
    | none =>
      rw [hnext, chain_none] at hrest
      simp at hrest
    | some y =>
      rw [hnext] at hrest
      simp only [last, hnext]
      exact ih hrest hfuel

theorem last_link {fuel : Nat} {x t : ι} (h : last next fuel x = some t) : next t = none := by
  induction fuel generalizing x with
  | zero => cases h
  | succ fuel ih =>
    cases hnext : next x with
    | none =>
      simp only [last, hnext, Option.some.injEq] at h
      exact h ▸ hnext
    | some y =>
      simp only [last, hnext] at h
      exact ih h

/-- What every link hands on holds of the last node. -/
theorem last_of_links {P : ι → Prop} {fuel : Nat} {x t : ι} (h : last next fuel x = some t)
    (hx : P x) (hlink : ∀ x y, P x → next x = some y → P y) : P t := by
  induction fuel generalizing x with
  | zero => cases h
  | succ fuel ih =>
    cases hnext : next x with
    | none =>
      simp only [last, hnext, Option.some.injEq] at h
      exact h ▸ hx
    | some y =>
      simp only [last, hnext] at h
      exact ih h (hlink x y hx hnext)

theorem Chain.walk_eq {p : Option ι} {l : List ι} {fuel : Nat} (h : Chain next p l)
    (hfuel : l.length ≤ fuel) : walk next fuel p = some l := by
  induction l generalizing p fuel with
  | nil =>
    rw [chain_nil] at h
    subst h
    cases fuel <;> rfl
  | cons x l ih =>
    obtain ⟨rfl, hrest⟩ := h
    obtain ⟨fuel, rfl⟩ : ∃ n, fuel = n + 1 := ⟨fuel - 1, by simp at hfuel; omega⟩
    simp only [List.length_cons, Nat.add_le_add_iff_right] at hfuel
    simp only [walk, ih hrest hfuel, Option.map_some]

/-- A chain over numbers below `n` has at most `n` nodes. -/
theorem Chain.length_le {next : Nat → Option Nat} {p : Option Nat} {l : List Nat} {n : Nat}
    (h : Chain next p l) (hlt : ∀ x ∈ l, x < n) : l.length ≤ n := by
  have hsub : l ⊆ List.range n := fun x hx => List.mem_range.mpr (hlt x hx)
  simpa using (List.subperm_of_subset h.nodup hsub).length_le

/-! ### Doubly linked lists behind a head node -/

/-- Behind the head `h` the nodes of `l` are linked by `next`, each pointing back by `prev` to the
node before it, and the last link is null. -/
def Linked (next prev : ι → Option ι) : ι → List ι → Prop
  | h, [] => next h = none
  | h, x :: l => next h = some x ∧ prev x = some h ∧ Linked next prev x l

variable {prev : ι → Option ι}

@[simp] theorem linked_nil {h : ι} : Linked next prev h [] ↔ next h = none := Iff.rfl

@[simp] theorem linked_cons {h x : ι} {l : List ι} :
    Linked next prev h (x :: l) ↔ next h = some x ∧ prev x = some h ∧ Linked next prev x l := Iff.rfl

theorem Linked.chain {h : ι} {l : List ι} (hl : Linked next prev h l) : Chain next (next h) l := by
  induction l generalizing h with
  | nil => exact hl
  | cons x l ih => exact ⟨hl.1, ih hl.2.2⟩

theorem Linked.congr {next' prev' : ι → Option ι} {h : ι} {l : List ι} (hl : Linked next prev h l)
    (hnext : ∀ x ∈ h :: l, next' x = next x) (hprev : ∀ x ∈ l, prev' x = prev x) :
    Linked next' prev' h l := by
  induction l generalizing h with
  | nil => exact (hnext h List.mem_cons_self).trans hl
  | cons x l ih =>
    refine ⟨(hnext h List.mem_cons_self).trans hl.1, (hprev x List.mem_cons_self).trans hl.2.1, ?_⟩
    exact ih hl.2.2 (fun y hy => hnext y (List.mem_cons_of_mem _ hy))
      fun y hy => hprev y (List.mem_cons_of_mem _ hy)

/-- The node before a member of the list, its `prev`, is the head or a member. -/
theorem Linked.split {h : ι} {l₁ l₂ : List ι} {x : ι} (hl : Linked next prev h (l₁ ++ x :: l₂)) :
    ∃ p, p ∈ h :: l₁ ∧ next p = some x ∧ prev x = some p ∧ Linked next prev x l₂ := by
  induction l₁ generalizing h with
  | nil => exact ⟨h, List.mem_cons_self, hl⟩
  | cons y l₁ ih =>
    obtain ⟨p, hp, hrest⟩ := ih hl.2.2
    exact ⟨p, List.mem_cons_of_mem _ hp, hrest⟩

/-- Linking a new node `x` right behind the head. -/
theorem Linked.insert {h x : ι} {l : List ι} (hl : Linked next prev h l) (hnodup : (h :: l).Nodup)
    (hx : x ∉ h :: l) {next' prev' : ι → Option ι}
    (hhead : next' h = some x) (hxnext : next' x = next h) (hxprev : prev' x = some h)
    (hback : ∀ y, next h = some y → prev' y = some x)
    (hnext : ∀ y, y ≠ h → y ≠ x → next' y = next y)
    (hprev : ∀ y, y ≠ x → next h ≠ some y → prev' y = prev y) :
    Linked next' prev' h (x :: l) := by
  refine ⟨hhead, hxprev, ?_⟩
  cases l with
  | nil => exact hxnext.trans hl
  | cons y l =>
    obtain ⟨hy, -, hrest⟩ := hl
    simp only [List.mem_cons, not_or] at hx
    simp only [List.nodup_cons, List.mem_cons, not_or] at hnodup
    refine ⟨hxnext.trans hy, hback y hy, hrest.congr ?_ ?_⟩
    · intro z hz
      refine hnext z ?_ ?_
      · rintro rfl
        rcases List.mem_cons.mp hz with rfl | hz
        · exact hnodup.1.1 rfl
        · exact hnodup.1.2 hz
      · rintro rfl
        rcases List.mem_cons.mp hz with rfl | hz
        · exact hx.2.1 rfl
        · exact hx.2.2 hz
    · intro z hz
      refine hprev z ?_ ?_
      · rintro rfl
        exact hx.2.2 hz
      · rw [hy]
        rintro ⟨⟩
        exact hnodup.2.1 hz

/-- Unlinking a member `x`: its neighbours are joined. -/
theorem Linked.remove {h x : ι} {l₁ l₂ : List ι} (hl : Linked next prev h (l₁ ++ x :: l₂))
    (hnodup : (h :: (l₁ ++ x :: l₂)).Nodup) {next' prev' : ι → Option ι}
    (hpred : ∀ p, prev x = some p → next' p = next x)
    (hsucc : ∀ y, next x = some y → prev' y = prev x)
    (hnext : ∀ y, y ≠ x → prev x ≠ some y → next' y = next y)
    (hprev : ∀ y, y ≠ x → next x ≠ some y → prev' y = prev y) :
    Linked next' prev' h (l₁ ++ l₂) := by
  induction l₁ generalizing h with
  | nil =>
    obtain ⟨hhx, hxh, hrest⟩ := hl
    simp only [List.nil_append, List.nodup_cons, List.mem_cons, not_or] at hnodup
    cases l₂ with
    | nil => exact (hpred h hxh).trans hrest
    | cons y l₂ =>
      obtain ⟨hxy, -, htail⟩ := hrest
      simp only [List.nodup_cons, List.mem_cons, not_or] at hnodup
      refine ⟨(hpred h hxh).trans hxy, (hsucc y hxy).trans hxh, htail.congr ?_ ?_⟩
      · intro z hz
        refine hnext z ?_ ?_
        · rintro rfl
          rcases List.mem_cons.mp hz with rfl | hz
          · exact hnodup.2.1.1 rfl
          · exact hnodup.2.1.2 hz
        · rw [hxh]
          rintro ⟨⟩
          rcases List.mem_cons.mp hz with rfl | hz
          · exact hnodup.1.2.1 rfl
          · exact hnodup.1.2.2 hz
      · intro z hz
        refine hprev z ?_ ?_
        · rintro rfl
          exact hnodup.2.1.2 hz
        · rw [hxy]
          rintro ⟨⟩
          exact hnodup.2.2.1 hz
  | cons a l₁ ih =>
    obtain ⟨hha, hah, hrest⟩ := hl
    have hnodup' := hnodup
    simp only [List.cons_append, List.nodup_cons, List.mem_cons, List.mem_append, not_or] at hnodup'
    obtain ⟨p, hp, -, hxp, -⟩ := hrest.split
    have hph : p ≠ h := by
      rintro rfl
      rcases List.mem_cons.mp hp with rfl | hp
      · exact hnodup'.1.1 rfl
      · exact hnodup'.1.2.1 hp
    refine ⟨?_, ?_, ih hrest (List.nodup_cons.mp hnodup).2⟩
    · refine (hnext h hnodup'.1.2.2.1 ?_).trans hha
      rw [hxp]
      rintro ⟨⟩
      exact hph rfl
    · refine (hprev a hnodup'.2.1.2.1 ?_).trans hah
      intro hxa
      obtain ⟨_, -, -, -, htail⟩ := hrest.split
      have hmem : a ∈ l₂ := by
        have hchain := htail.chain
        rw [hxa] at hchain
        exact hchain.head_mem
      exact hnodup'.2.1.2.2 hmem

end LinkedList
