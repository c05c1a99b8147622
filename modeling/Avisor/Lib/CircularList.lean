import Mathlib.Logic.Function.Basic
import Mathlib.Data.List.Nodup

/-!
# Circular doubly linked lists

Every node has two links, so the links are two functions of the node. `Path L a l b` says that from
`a` the nodes of `l` follow one another up to `b`, each linked with the next both ways; `Circle L h l`
is the path from a head `h` back to it. The two edits of such lists are local: a list through the nodes
they store to is changed in one place, and any other list stays as it is.
-/

namespace CircularList

open Function

variable {ι : Type*}

/-- The two links of each node. -/
structure Links (ι : Type*) where
  next : ι → ι
  prev : ι → ι

/-- From `a` the links lead through the nodes of `l` to `b`, and back. -/
def Path (L : Links ι) : ι → List ι → ι → Prop
  | a, [], b => L.next a = b ∧ L.prev b = a
  | a, x :: l, b => L.next a = x ∧ L.prev x = a ∧ Path L x l b

variable {L L' : Links ι} {a b h x p n : ι} {l m : List ι}

theorem path_append : Path L a (l ++ x :: m) b ↔ Path L a l x ∧ Path L x m b := by
  induction l generalizing a with
  | nil => exact and_assoc.symm
  | cons y l ih =>
    simp only [List.cons_append, Path, ih]
    exact ⟨fun h => ⟨⟨h.1, h.2.1, h.2.2.1⟩, h.2.2.2⟩, fun h => ⟨h.1.1, h.1.2.1, h.1.2.2, h.2⟩⟩

/-- A path reads the forward links of all its nodes but the last, and the backward links of all but
the first. -/
theorem Path.congr (hpath : Path L a l b) (hnext : ∀ y ∈ a :: l, L'.next y = L.next y)
    (hprev : ∀ y, y ∈ l ∨ y = b → L'.prev y = L.prev y) : Path L' a l b := by
  induction l generalizing a with
  | nil =>
    obtain ⟨hab, hba⟩ := hpath
    exact ⟨(hnext a List.mem_cons_self).trans hab, (hprev b (.inr rfl)).trans hba⟩
  | cons x l ih =>
    obtain ⟨hax, hxa, hrest⟩ := hpath
    refine ⟨(hnext a List.mem_cons_self).trans hax,
      (hprev x (.inl List.mem_cons_self)).trans hxa, ih hrest ?_ ?_⟩
    · intro y hy
      exact hnext y (List.mem_cons_of_mem _ hy)
    · intro y hy
      exact hprev y (hy.imp_left (List.mem_cons_of_mem _))

/-- The last step of a path comes from its start or one of its nodes. -/
theorem Path.last_step (hpath : Path L a l b) : L.prev b ∈ a :: l ∧ L.next (L.prev b) = b := by
  induction l generalizing a with
  | nil =>
    rw [hpath.2]
    exact ⟨List.mem_cons_self, hpath.1⟩
  | cons x l ih =>
    obtain ⟨hmem, hnext⟩ := ih hpath.2.2
    exact ⟨List.mem_cons_of_mem _ hmem, hnext⟩

/-- The first step of a path leads to one of its nodes or its end. -/
theorem Path.first_step (hpath : Path L a l b) : L.next a ∈ b :: l ∧ L.prev (L.next a) = a := by
  cases l with
  | nil =>
    rw [hpath.1]
    exact ⟨List.mem_cons_self, hpath.2⟩
  | cons x l =>
    rw [hpath.1]
    exact ⟨List.mem_cons_of_mem _ List.mem_cons_self, hpath.2.1⟩

/-- A path with its last link stored anew. -/
theorem Path.relink_last (hpath : Path L a l b) (hnodup : (a :: l).Nodup)
    (hnext : ∀ y ∈ a :: l, y ≠ L.prev b → L'.next y = L.next y)
    (hprev : ∀ y ∈ l, L'.prev y = L.prev y) (hlink : L'.next (L.prev b) = x)
    (hback : L'.prev x = L.prev b) : Path L' a l x := by
  induction l generalizing a with
  | nil =>
    rw [hpath.2] at hlink hback
    exact ⟨hlink, hback⟩
  | cons y l ih =>
    obtain ⟨hay, hya, hrest⟩ := hpath
    have hmem : L.prev b ∈ y :: l := hrest.last_step.1
    have hne : a ≠ L.prev b := fun heq => (List.nodup_cons.mp hnodup).1 (heq ▸ hmem)
    refine ⟨(hnext a List.mem_cons_self hne).trans hay, (hprev y List.mem_cons_self).trans hya,
      ih hrest (List.nodup_cons.mp hnodup).2 ?_ ?_⟩
    · intro z hz
      exact hnext z (List.mem_cons_of_mem _ hz)
    · intro z hz
      exact hprev z (List.mem_cons_of_mem _ hz)

/-! ### Lists behind a head -/

/-- The list behind the head `h`: the nodes of `l`, none of them twice. -/
structure Circle (L : Links ι) (h : ι) (l : List ι) : Prop where
  path : Path L h l h
  nodup : (h :: l).Nodup

theorem circle_nil : Circle L h [] ↔ L.next h = h ∧ L.prev h = h :=
  ⟨fun hcirc => hcirc.path, fun hpath => ⟨hpath, List.nodup_singleton h⟩⟩

theorem Circle.congr (hcirc : Circle L h l) (hnext : ∀ y ∈ h :: l, L'.next y = L.next y)
    (hprev : ∀ y ∈ h :: l, L'.prev y = L.prev y) : Circle L' h l := by
  refine ⟨hcirc.path.congr hnext ?_, hcirc.nodup⟩
  intro y hy
  apply hprev y
  rcases hy with hy | hy
  · exact List.mem_cons_of_mem _ hy
  · exact hy ▸ List.mem_cons_self

theorem Circle.head_notMem (hcirc : Circle L h l) : h ∉ l :=
  (List.nodup_cons.mp hcirc.nodup).1

/-- The head is its own successor in the empty list only. -/
theorem Circle.next_head_iff (hcirc : Circle L h l) : L.next h = h ↔ l = [] := by
  cases l with
  | nil => exact iff_of_true hcirc.path.1 rfl
  | cons x l =>
    have hne : x ≠ h := fun heq => hcirc.head_notMem (heq ▸ List.mem_cons_self)
    rw [hcirc.path.1]
    exact iff_of_false hne (List.cons_ne_nil x l)

/-- The node in front of the head is the last one. -/
theorem Circle.prev_head (hcirc : Circle L h (l ++ [x])) : L.prev h = x :=
  (path_append.mp hcirc.path).2.2

/-- The neighbours of a member are members or the head. -/
theorem Circle.neighbours (hcirc : Circle L h (l ++ x :: m)) :
    L.prev x ∈ h :: l ∧ L.next x ∈ h :: m := by
  obtain ⟨hpre, hpost⟩ := path_append.mp hcirc.path
  exact ⟨hpre.last_step.1, hpost.first_step.1⟩

/-! ### Edits -/

section Edits

variable [DecidableEq ι]

namespace Links

/-- Linking `x` in between `p` and `n`. -/
def insert (L : Links ι) (x p n : ι) : Links ι where
  next := update (update L.next x n) p x
  prev := update (update L.prev n x) x p

/-- Linking `p` and `n` with each other. -/
def join (L : Links ι) (p n : ι) : Links ι where
  next := update L.next p n
  prev := update L.prev n p

variable {y : ι}

@[simp] theorem insert_next_self (hxp : x ≠ p) : (L.insert x p n).next x = n := by
  simp only [insert, update_of_ne hxp, update_self]

@[simp] theorem insert_next_pred : (L.insert x p n).next p = x := by
  simp only [insert, update_self]

theorem insert_next_of_ne (hp : y ≠ p) (hx : y ≠ x) : (L.insert x p n).next y = L.next y := by
  simp only [insert, update_of_ne hp, update_of_ne hx]

@[simp] theorem insert_prev_self : (L.insert x p n).prev x = p := by
  simp only [insert, update_self]

@[simp] theorem insert_prev_succ (hxn : x ≠ n) : (L.insert x p n).prev n = x := by
  simp only [insert, update_of_ne hxn.symm, update_self]

theorem insert_prev_of_ne (hn : y ≠ n) (hx : y ≠ x) : (L.insert x p n).prev y = L.prev y := by
  simp only [insert, update_of_ne hx, update_of_ne hn]

theorem join_next_of_ne (hp : y ≠ p) : (L.join p n).next y = L.next y :=
  update_of_ne hp _ _

theorem join_prev_of_ne (hn : y ≠ n) : (L.join p n).prev y = L.prev y :=
  update_of_ne hn _ _

end Links

/-- A new node at the end of a list. -/
theorem Circle.insert_tail (hcirc : Circle L h l) (hx : x ∉ h :: l) :
    Circle (L.insert x (L.prev h) h) h (l ++ [x]) := by
  have hnodup : (h :: (l ++ [x])).Nodup := by
    rw [← List.cons_append, ← List.concat_eq_append]
    exact hcirc.nodup.concat hx
  have hlast := hcirc.path.last_step
  have hxh : x ≠ h := fun heq => hx (heq ▸ List.mem_cons_self)
  have hxp : x ≠ L.prev h := fun heq => hx (heq ▸ hlast.1)
  refine ⟨path_append.mpr ⟨?_, ?_⟩, hnodup⟩
  · refine hcirc.path.relink_last hcirc.nodup ?_ ?_ Links.insert_next_pred Links.insert_prev_self
    · intro y hy hne
      exact Links.insert_next_of_ne hne fun heq => hx (heq ▸ hy)
    · intro y hy
      exact Links.insert_prev_of_ne (fun heq => hcirc.head_notMem (heq ▸ hy))
        fun heq => hx (heq ▸ List.mem_cons_of_mem _ hy)
  · exact ⟨Links.insert_next_self hxp, Links.insert_prev_succ hxh⟩

/-- A new node at the front of a list. -/
theorem Circle.insert_head (hcirc : Circle L h l) (hx : x ∉ h :: l) :
    Circle (L.insert x h (L.next h)) h (x :: l) := by
  have hxh : x ≠ h := fun heq => hx (heq ▸ List.mem_cons_self)
  have hfirst := hcirc.path.first_step
  have hxn : x ≠ L.next h := fun heq => hx (heq ▸ hfirst.1)
  refine ⟨⟨Links.insert_next_pred, Links.insert_prev_self, ?_⟩, ?_⟩
  · cases l with
    | nil =>
      have hnext : L.next h = h := hcirc.path.1
      rw [hnext]
      exact ⟨Links.insert_next_self hxh, Links.insert_prev_succ hxh⟩
    | cons y l =>
      have hnext : L.next h = y := hcirc.path.1
      obtain ⟨-, -, hrest⟩ := hcirc.path
      have hhead := hcirc.head_notMem
      have hyl := (List.nodup_cons.mp (List.nodup_cons.mp hcirc.nodup).2).1
      rw [hnext] at hxn ⊢
      refine ⟨Links.insert_next_self hxh, Links.insert_prev_succ hxn, hrest.congr ?_ ?_⟩
      · intro z hz
        exact Links.insert_next_of_ne (fun heq => hhead (heq ▸ hz))
          fun heq => hx (heq ▸ List.mem_cons_of_mem _ hz)
      · intro z hz
        have hzy : z ≠ y := by
          rintro rfl
          rcases hz with hz | hz
          · exact hyl hz
          · exact hhead (hz ▸ List.mem_cons_self)
        have hzx : z ≠ x := by
          rintro rfl
          rcases hz with hz | hz
          · exact hx (List.mem_cons_of_mem _ (List.mem_cons_of_mem _ hz))
          · exact hxh hz
        exact Links.insert_prev_of_ne hzy hzx
  · have hnodup := List.nodup_cons.mp hcirc.nodup
    refine List.nodup_cons.mpr ⟨?_, List.nodup_cons.mpr ⟨fun hmem => hx ?_, hnodup.2⟩⟩
    · exact fun hmem => (List.mem_cons.mp hmem).elim (fun heq => hxh heq.symm) hnodup.1
    · exact List.mem_cons_of_mem _ hmem

/-- A list that does not meet the three nodes of an insertion is not changed by it. -/
theorem Circle.insert_other (hcirc : Circle L h l) (hx : x ∉ h :: l) (hp : p ∉ h :: l)
    (hn : n ∉ h :: l) : Circle (L.insert x p n) h l := by
  refine hcirc.congr (fun y hy => Links.insert_next_of_ne ?_ ?_)
    fun y hy => Links.insert_prev_of_ne ?_ ?_
  · exact fun heq => hp (heq ▸ hy)
  · exact fun heq => hx (heq ▸ hy)
  · exact fun heq => hn (heq ▸ hy)
  · exact fun heq => hx (heq ▸ hy)

/-- Taking a node out of a path. -/
theorem Path.join_remove (hpath : Path L a (l ++ x :: m) b) (hnodup : (a :: (l ++ x :: m)).Nodup)
    (hb : b ∉ l ++ x :: m) : Path (L.join (L.prev x) (L.next x)) a (l ++ m) b := by
  induction l generalizing a with
  | nil =>
    obtain ⟨-, hxa, hrest⟩ := hpath
    simp only [List.nil_append, List.nodup_cons, List.mem_cons, not_or] at hnodup hb
    rw [hxa]
    cases m with
    | nil =>
      rw [hrest.1]
      exact ⟨update_self _ _ _, update_self _ _ _⟩
    | cons y m =>
      obtain ⟨hxy, -, htail⟩ := hrest
      simp only [List.nodup_cons, List.mem_cons, not_or] at hnodup hb
      rw [hxy]
      refine ⟨update_self _ _ _, update_self _ _ _, htail.congr ?_ ?_⟩
      · intro z hz
        apply update_of_ne
        rintro rfl
        rcases List.mem_cons.mp hz with rfl | hz
        · exact hnodup.1.2.1 rfl
        · exact hnodup.1.2.2 hz
      · intro z hz
        apply update_of_ne
        rintro rfl
        rcases hz with hz | hz
        · exact hnodup.2.2.1 hz
        · exact hb.2.1 hz.symm
  | cons z l ih =>
    obtain ⟨haz, hza, hrest⟩ := hpath
    obtain ⟨hpre, hpost⟩ := path_append.mp hrest
    have hpred := hpre.last_step.1
    have hsucc := hpost.first_step.1
    simp only [List.cons_append, List.nodup_cons, List.mem_cons, List.mem_append, not_or] at hnodup hb
    refine ⟨?_, ?_, ih hrest ?_ ?_⟩
    · rw [Links.join_next_of_ne, haz]
      intro heq
      rw [← heq] at hpred
      rcases List.mem_cons.mp hpred with hmem | hmem
      · exact hnodup.1.1 hmem
      · exact hnodup.1.2.1 hmem
    · rw [Links.join_prev_of_ne, hza]
      intro heq
      rw [← heq] at hsucc
      rcases List.mem_cons.mp hsucc with hmem | hmem
      · exact hb.1 hmem.symm
      · exact hnodup.2.1.2.2 hmem
    · simp only [List.nodup_cons, List.mem_append, List.mem_cons, not_or]
      exact hnodup.2
    · simp only [List.mem_append, List.mem_cons, not_or]
      exact hb.2

/-- Taking a member out of its list. -/
theorem Circle.join_remove (hcirc : Circle L h (l ++ x :: m)) :
    Circle (L.join (L.prev x) (L.next x)) h (l ++ m) := by
  refine ⟨hcirc.path.join_remove hcirc.nodup hcirc.head_notMem, ?_⟩
  refine hcirc.nodup.sublist ?_
  exact ((List.sublist_cons_self x m).append_left l).cons_cons h

/-- A list that does not meet the two neighbours is not changed. -/
theorem Circle.join_other (hcirc : Circle L h l) (hp : p ∉ h :: l) (hn : n ∉ h :: l) :
    Circle (L.join p n) h l := by
  refine hcirc.congr (fun y hy => Links.join_next_of_ne ?_) fun y hy => Links.join_prev_of_ne ?_
  · exact fun heq => hp (heq ▸ hy)
  · exact fun heq => hn (heq ▸ hy)

end Edits

end CircularList
