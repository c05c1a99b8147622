import Avisor.Lib.CircularList

/-!
# The lists of `list.h`

`struct list_head`s are the nodes of circular lists. A pointer to one is a head, the link field of an
entry, or one of the two poison values that `list_del` leaves in the entry it takes out.
-/

namespace Avisor

open Function CircularList

/-- A `struct list_head*`: to a head named by `H`, or to the link field of an entry named by `N`. -/
inductive ListPtr (H N : Type)
  | head (h : H)
  | node (n : N)
  | poison1
  | poison2
  deriving DecidableEq

variable {H N : Type}

/-- `list_last_entry`, where the head's `prev` is an entry. -/
def listLastEntry (L : Links (ListPtr H N)) (head : ListPtr H N) : Option N :=
  match L.prev head with
  | .node n => some n
  | _ => none

/-- The list at the head `h` links the entries `l`. -/
def Holds (L : Links (ListPtr H N)) (h : H) (l : List N) : Prop :=
  Circle L (.head h) (l.map .node)

variable {L : Links (ListPtr H N)} {h h' : H} {n : N} {l l' : List N}

theorem node_mem_map : (ListPtr.node n : ListPtr H N) ∈ l.map .node ↔ n ∈ l := by
  simp

theorem node_notMem (hn : n ∉ l) : (ListPtr.node n : ListPtr H N) ∉ .head h :: l.map .node := by
  simp [hn]

theorem Holds.listLastEntry (hl : Holds L h (l ++ [n])) : listLastEntry L (.head h) = some n := by
  have hcirc : Circle L (.head h) (l.map .node ++ [.node n]) := by
    simpa only [Holds, List.map_append, List.map_cons, List.map_nil] using hl
  unfold Avisor.listLastEntry
  rw [hcirc.prev_head]

theorem Holds.nodup (hl : Holds L h l) : l.Nodup :=
  List.Nodup.of_map _ (List.nodup_cons.mp (Circle.nodup hl)).2

/-! ### Lists that keep apart

Where entries are linked twice, or unlinked and linked again, the lists are no circles any more. As long
as each entry goes to the list of one head only, the pointers of one list still do not lead into
another one. -/

/-- The pointer is to the head `h` or to one of the entries `M`, whose home is `h`. -/
def Within (home : N → H) (M : N → Prop) (h : H) : ListPtr H N → Prop
  | .head h' => h' = h
  | .node n => home n = h ∧ M n
  | .poison1 | .poison2 => False

/-- The same of a pointer that may be poisoned. -/
def LeadsTo (home : N → H) (M : N → Prop) (h : H) (ptr : ListPtr H N) : Prop :=
  Within home M h ptr ∨ ptr = .poison1 ∨ ptr = .poison2

/-- From a head or an entry, both links lead to the same list. -/
def KeepApart (home : N → H) (M : N → Prop) (L : Links (ListPtr H N)) : Prop :=
  ∀ h ptr, Within home M h ptr → LeadsTo home M h (L.next ptr) ∧ LeadsTo home M h (L.prev ptr)

variable {home : N → H} {M M' : N → Prop} {ptr : ListPtr H N}

theorem Within.unique (hp : Within home M h ptr) (hp' : Within home M' h' ptr) : h = h' := by
  cases ptr with
  | head g => exact hp.symm.trans hp'
  | node n => exact hp.1.symm.trans hp'.1
  | poison1 => exact hp.elim
  | poison2 => exact hp.elim

/-- A pointer of one list that is also where the links of another one lead is of that list. -/
theorem LeadsTo.unique (hl : LeadsTo home M h ptr) (hp : Within home M' h' ptr) : h = h' := by
  rcases hl with hw | rfl | rfl
  · exact hw.unique hp
  · exact hp.elim
  · exact hp.elim

theorem LeadsTo.mono (hM : ∀ n, M n → M' n) (hl : LeadsTo home M h ptr) : LeadsTo home M' h ptr := by
  refine hl.imp_left fun hw => ?_
  cases ptr with
  | head g => exact hw
  | node n => exact ⟨hw.1, hM n hw.2⟩
  | poison1 => exact hw
  | poison2 => exact hw

/-! ### Traversals -/

section Entries

variable [DecidableEq H]

/-- The entries that `list_for_each_entry` visits from the pointer on, if no more than `fuel` pointers
lead to its end. It does not end in a list that goes into another one or round in a circle, and a
poisoned pointer is a fault. -/
def listEntries (L : Links (ListPtr H N)) (h : H) :
    Nat → ListPtr H N → Option (List N)
  | 0, _ => none
  | fuel + 1, ptr =>
    match ptr with
    | .head h' => if h' = h then some [] else none
    | .node n => (listEntries L h fuel (L.next (.node n))).map (n :: ·)
    | .poison1 | .poison2 => none

/-- A traversal from within the list visits the rest of it. -/
theorem listEntries_of_path {ptr : ListPtr H N} {fuel : Nat}
    (hpath : Path L ptr (l.map .node) (.head h)) (hlt : l.length < fuel) :
    listEntries L h fuel (L.next ptr) = some l := by
  induction l generalizing ptr fuel with
  | nil =>
    obtain ⟨fuel, rfl⟩ := Nat.exists_eq_add_one_of_ne_zero (by omega : fuel ≠ 0)
    have hnext : L.next ptr = .head h := hpath.1
    simp [listEntries, hnext]
  | cons n l ih =>
    obtain ⟨fuel, rfl⟩ := Nat.exists_eq_add_one_of_ne_zero (by omega : fuel ≠ 0)
    obtain ⟨hnext, -, hrest⟩ := hpath
    have hlt' : l.length < fuel := by
      rw [List.length_cons] at hlt
      omega
    simp only [listEntries, hnext, ih hrest hlt', Option.map_some]

theorem Holds.listEntries (hl : Holds L h l) {fuel : Nat} (hlt : l.length < fuel) :
    listEntries L h fuel (L.next (.head h)) = some l :=
  listEntries_of_path hl.path hlt

theorem KeepApart.listEntries (hL : KeepApart home M L) {fuel : Nat} (hp : LeadsTo home M h ptr)
    (hl : Avisor.listEntries L h fuel ptr = some l) : ∀ n ∈ l, home n = h ∧ M n := by
  induction fuel generalizing ptr l with
  | zero => cases hl
  | succ fuel ih =>
    cases ptr with
    | head h' =>
      simp only [Avisor.listEntries] at hl
      split at hl
      · cases hl
        exact fun n hn => absurd hn List.not_mem_nil
      · cases hl
    | node m =>
      obtain ⟨rest, hrest, rfl⟩ := Option.map_eq_some_iff.mp hl
      have hm : Within home M h (.node m) := hp.resolve_right (by simp)
      have hmem := ih (hL h _ hm).1 hrest
      intro n hn
      rcases List.mem_cons.mp hn with rfl | hn
      · exact hm
      · exact hmem n hn
    | poison1 => cases hl
    | poison2 => cases hl

end Entries

/-! ### The operations -/

variable [DecidableEq H] [DecidableEq N]

/-- `INIT_LIST_HEAD`. -/
def initListHead (L : Links (ListPtr H N)) (list : ListPtr H N) : Links (ListPtr H N) where
  next := update L.next list list
  prev := update L.prev list list

/-- `list_add`. -/
def listAdd (L : Links (ListPtr H N)) (new head : ListPtr H N) : Links (ListPtr H N) :=
  L.insert new head (L.next head)

/-- `list_add_tail`. -/
def listAddTail (L : Links (ListPtr H N)) (new head : ListPtr H N) : Links (ListPtr H N) :=
  L.insert new (L.prev head) head

/-- `list_del`. -/
def listDel (L : Links (ListPtr H N)) (entry : ListPtr H N) : Links (ListPtr H N) :=
  let joined := L.join (L.prev entry) (L.next entry)
  { next := update joined.next entry .poison1, prev := update joined.prev entry .poison2 }

/-- `list_empty`. -/
def listEmpty (L : Links (ListPtr H N)) (head : ListPtr H N) : Bool :=
  L.next head = head

theorem Holds.listEmpty_iff (hl : Holds L h l) : listEmpty L (.head h) = true ↔ l = [] := by
  unfold listEmpty
  rw [decide_eq_true_iff, hl.next_head_iff, List.map_eq_nil_iff]

/-- A new head has an empty list. -/
theorem holds_initListHead : Holds (initListHead L (.head h)) h [] :=
  circle_nil.mpr ⟨update_self .., update_self ..⟩

/-- An entry outside of the list that is made the head of a list itself. -/
theorem Holds.initListHead_node (hl : Holds L h l) (hn : n ∉ l) :
    Holds (initListHead L (.node n)) h l := by
  refine Circle.congr hl (fun y hy => update_of_ne ?_ _ _) fun y hy => update_of_ne ?_ _ _
  · rintro rfl
    exact node_notMem hn hy
  · rintro rfl
    exact node_notMem hn hy

theorem Holds.listAdd (hl : Holds L h l) (hn : n ∉ l) :
    Holds (listAdd L (.node n) (.head h)) h (n :: l) :=
  Circle.insert_head hl (node_notMem hn)

theorem Holds.listAddTail (hl : Holds L h l) (hn : n ∉ l) :
    Holds (listAddTail L (.node n) (.head h)) h (l ++ [n]) := by
  unfold Holds
  rw [List.map_append]
  exact Circle.insert_tail hl (node_notMem hn)

/-- An entry goes to the end of one list; another list is as before. -/
theorem Holds.listAddTail_other (hl : Holds L h l) (hl' : Holds L h' l') (hne : h ≠ h') (hn : n ∉ l)
    (hapart : ∀ k ∈ l, k ∉ l') : Holds (Avisor.listAddTail L (.node n) (.head h')) h l := by
  refine Circle.insert_other hl (node_notMem hn) ?_ ?_
  · intro hmem
    have hlast := hl'.path.last_step.1
    rcases List.mem_cons.mp hmem with heq | hmem
    · rw [heq] at hlast
      simp [hne] at hlast
    · obtain ⟨k, hk, heq⟩ := List.mem_map.mp hmem
      rw [← heq] at hlast
      rcases List.mem_cons.mp hlast with hhead | hlast
      · cases hhead
      · exact hapart k hk (node_mem_map.mp hlast)
  · simp [hne.symm]

/-- A member is taken out of its list. -/
theorem Holds.listDel {l₁ l₂ : List N} (hl : Holds L h (l₁ ++ n :: l₂)) :
    Holds (listDel L (.node n)) h (l₁ ++ l₂) := by
  have hsplit : Circle L (.head h) (l₁.map .node ++ .node n :: l₂.map .node) := by
    simpa only [Holds, List.map_append, List.map_cons] using hl
  have hjoin := hsplit.join_remove
  have hnodup := hl.nodup
  have hnotMem : n ∉ l₁ ++ l₂ := (List.nodup_middle.mp hnodup).notMem
  have hne (y) (hy : y ∈ (.head h : ListPtr H N) :: (l₁ ++ l₂).map .node) : y ≠ .node n := by
    rintro rfl
    exact node_notMem hnotMem hy
  unfold Holds Avisor.listDel
  rw [List.map_append] at hne ⊢
  exact hjoin.congr (fun y hy => update_of_ne (hne y hy) _ _) fun y hy => update_of_ne (hne y hy) _ _

/-- Another list is as before. -/
theorem Holds.listDel_other {l₁ l₂ : List N} (hl : Holds L h l) (hl' : Holds L h' (l₁ ++ n :: l₂))
    (hne : h ≠ h') (hapart : ∀ k ∈ l, k ∉ l₁ ++ n :: l₂) : Holds (Avisor.listDel L (.node n)) h l := by
  have hsplit : Circle L (.head h') (l₁.map .node ++ .node n :: l₂.map .node) := by
    simpa only [Holds, List.map_append, List.map_cons] using hl'
  obtain ⟨hpred, hsucc⟩ := hsplit.neighbours
  have hout (y) (hy : y ∈ (.head h' : ListPtr H N) :: (l₁ ++ n :: l₂).map .node) :
      y ∉ (.head h : ListPtr H N) :: l.map .node := by
    intro hmem
    rcases List.mem_cons.mp hmem with rfl | hmem
    · simp [hne] at hy
    · obtain ⟨k, hk, rfl⟩ := List.mem_map.mp hmem
      rcases List.mem_cons.mp hy with hhead | hy
      · cases hhead
      · exact hapart k hk (node_mem_map.mp hy)
  have hjoin : Circle (L.join (L.prev (.node n)) (L.next (.node n))) (.head h) (l.map .node) := by
    refine Circle.join_other hl (hout _ ?_) (hout _ ?_)
    · simp only [List.map_append, List.map_cons, List.mem_cons, List.mem_append] at hpred ⊢
      tauto
    · simp only [List.map_append, List.map_cons, List.mem_cons, List.mem_append] at hsucc ⊢
      tauto
  have hself := hout (.node n) (by simp)
  refine hjoin.congr (fun y hy => update_of_ne ?_ _ _) fun y hy => update_of_ne ?_ _ _
  · exact fun heq => hself (heq ▸ hy)
  · exact fun heq => hself (heq ▸ hy)

/-- An entry, linked already or not, goes to the end of the list of its home. -/
theorem KeepApart.listAddTail (hL : KeepApart home M L) :
    KeepApart home (fun m => M m ∨ m = n) (Avisor.listAddTail L (.node n) (.head (home n))) := by
  have hhead := hL (home n) (.head (home n)) rfl
  have hnew : LeadsTo home (fun m => M m ∨ m = n) (home n) (.node n) := .inl ⟨rfl, .inr rfl⟩
  have hold (g : H) (p : ListPtr H N) (hp : Within home (fun m => M m ∨ m = n) g p)
      (hne : p ≠ .node n) : Within home M g p := by
    cases p with
    | head h' => exact hp
    | node m => exact ⟨hp.1, hp.2.resolve_right fun heq => hne (congrArg _ heq)⟩
    | poison1 => exact hp
    | poison2 => exact hp
  intro g p hp
  unfold Avisor.listAddTail Links.insert
  constructor
  · show LeadsTo _ _ g (update (update L.next _ _) _ _ p)
    by_cases hpred : p = L.prev (.head (home n))
    · subst hpred
      rw [update_self, ← hhead.2.unique hp]
      exact hnew
    · rw [update_of_ne hpred]
      by_cases hself : p = .node n
      · subst hself
        rw [update_self, ← hp.1]
        exact .inl rfl
      · rw [update_of_ne hself]
        exact (hL g p (hold g p hp hself)).1.mono fun _ => .inl
  · show LeadsTo _ _ g (update (update L.prev _ _) _ _ p)
    by_cases hself : p = .node n
    · subst hself
      rw [update_self, ← hp.1]
      exact hhead.2.mono fun _ => .inl
    · rw [update_of_ne hself]
      by_cases hsucc : p = .head (home n)
      · subst hsucc
        obtain rfl : home n = g := hp
        rw [update_self]
        exact hnew
      · rw [update_of_ne hsucc]
        exact (hL g p (hold g p hp hself)).2.mono fun _ => .inl

/-- An entry is taken out of whatever its links say it is in. -/
theorem KeepApart.listDel (hL : KeepApart home M L) (hn : M n) :
    KeepApart home M (Avisor.listDel L (.node n)) := by
  obtain ⟨hnext, hprev⟩ := hL (home n) (.node n) ⟨rfl, hn⟩
  intro g p hp
  unfold Avisor.listDel Links.join
  by_cases hself : p = .node n
  · subst hself
    exact ⟨.inr (.inl (update_self ..)), .inr (.inr (update_self ..))⟩
  · constructor
    · show LeadsTo _ _ g (update (update L.next _ _) _ _ p)
      rw [update_of_ne hself]
      by_cases hpred : p = L.prev (.node n)
      · subst hpred
        rw [update_self, ← hprev.unique hp]
        exact hnext
      · rw [update_of_ne hpred]
        exact (hL g p hp).1
    · show LeadsTo _ _ g (update (update L.prev _ _) _ _ p)
      rw [update_of_ne hself]
      by_cases hsucc : p = L.next (.node n)
      · subst hsucc
        rw [update_self, ← hnext.unique hp]
        exact hprev
      · rw [update_of_ne hsucc]
        exact (hL g p hp).2

end Avisor
