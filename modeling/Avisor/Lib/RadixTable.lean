import Mathlib.Logic.Function.Basic
import Mathlib.Data.List.Range

/-!
# Radix tables in memory

A lookup goes from table to table: the table of a level is where an entry of the level before says, and
the address chooses the entry. Several lookups share the memory, each from a root of its own. Entries
that lookups reach lie apart (`Tree`); then a store to an entry where lookups stop, and a fresh table that
is hung up there, change the lookups that stop there and no others.
-/

universe u v

open Function

/-- How addresses `ι` are looked up in words `W`: where the first table of an address is, which entry it
has in the table of a level, the number of the last level, and what a word says of the next table. -/
structure RadixTable (W : Type u) (ι : Type v) where
  root : ι → Nat
  index : Nat → ι → Nat
  stride : Nat
  last : Nat
  isTable : W → Bool
  next : W → Nat

namespace RadixTable

variable {W : Type u} {ι : Type v} (T : RadixTable W ι) {mem mem' : Nat → W} {a b : ι} {l m : Nat}

/-- Where the entry of `a` at a level is, as the words before say. -/
def ptr (mem : Nat → W) : Nat → ι → Nat
  | 0, a => T.root a + T.stride * T.index 0 a
  | l + 1, a => T.next (mem (ptr mem l a)) + T.stride * T.index (l + 1) a

/-- The words before level `l` are tables. -/
def Reaches (mem : Nat → W) (l : Nat) (a : ι) : Prop :=
  ∀ j < l, T.isTable (mem (T.ptr mem j a)) = true

instance (mem : Nat → W) (l : Nat) (a : ι) : Decidable (T.Reaches mem l a) :=
  inferInstanceAs (Decidable (∀ j < l, T.isTable (mem (T.ptr mem j a)) = true))

/-- The two addresses have the same entry at level `l`. -/
def Same (l : Nat) (a b : ι) : Prop :=
  T.root a = T.root b ∧ ∀ j ≤ l, T.index j a = T.index j b

/-- The lookup of `a` stops at level `l`. -/
structure Stops (mem : Nat → W) (l : Nat) (a : ι) : Prop where
  reaches : T.Reaches mem l a
  le_last : l ≤ T.last
  stop : l ≠ T.last → T.isTable (mem (T.ptr mem l a)) = false

/-- Entries of different levels, or of different addresses, are apart. -/
def Tree (mem : Nat → W) : Prop :=
  ∀ l m a b, l ≤ T.last → m ≤ T.last → T.Reaches mem l a → T.Reaches mem m b →
    T.ptr mem l a = T.ptr mem m b → l = m ∧ T.Same l a b

/-- The level where the lookup of `a` stops. -/
def stop (mem : Nat → W) (a : ι) : Nat :=
  ((List.range T.last).find? fun l => !T.isTable (mem (T.ptr mem l a))).getD T.last

variable {T}

/-! ### Addresses with the same entry -/

theorem Same.refl (l : Nat) (a : ι) : T.Same l a a := ⟨rfl, fun _ _ => rfl⟩

theorem Same.symm (h : T.Same l a b) : T.Same l b a :=
  ⟨h.1.symm, fun j hj => (h.2 j hj).symm⟩

theorem Same.trans {c : ι} (h : T.Same l a b) (h' : T.Same l b c) : T.Same l a c :=
  ⟨h.1.trans h'.1, fun j hj => (h.2 j hj).trans (h'.2 j hj)⟩

theorem Same.mono (h : T.Same l a b) (hm : m ≤ l) : T.Same m a b :=
  ⟨h.1, fun j hj => h.2 j (hj.trans hm)⟩

theorem Same.ptr (h : T.Same l a b) : T.ptr mem l a = T.ptr mem l b := by
  induction l with
  | zero =>
    simp only [RadixTable.ptr]
    rw [h.1, h.2 0 le_rfl]
  | succ l ih =>
    simp only [RadixTable.ptr]
    rw [ih (h.mono (Nat.le_succ l)), h.2 (l + 1) le_rfl]

theorem Same.reaches (h : T.Same l a b) (hl : T.Reaches mem (l + 1) a) : T.Reaches mem (l + 1) b := by
  intro j hj
  rw [← (h.mono (Nat.le_of_lt_succ hj)).ptr]
  exact hl j hj

theorem Reaches.mono (h : T.Reaches mem l a) (hm : m ≤ l) : T.Reaches mem m a :=
  fun j hj => h j (lt_of_lt_of_le hj hm)

theorem reaches_zero : T.Reaches mem 0 a := fun _ hj => absurd hj (Nat.not_lt_zero _)

theorem reaches_succ :
    T.Reaches mem (l + 1) a ↔ T.Reaches mem l a ∧ T.isTable (mem (T.ptr mem l a)) = true := by
  constructor
  · exact fun h => ⟨h.mono (Nat.le_succ l), h l (Nat.lt_succ_self l)⟩
  · intro h j hj
    rcases Nat.lt_succ_iff_lt_or_eq.mp hj with hj | rfl
    · exact h.1 j hj
    · exact h.2

/-- An address that has its entry where the lookup of `a` stops, stops there. -/
theorem Stops.same (h : T.Stops mem l a) (hs : T.Same l a b) : T.Stops mem l b where
  reaches := by
    cases l with
    | zero => exact reaches_zero
    | succ l => exact (hs.mono (Nat.le_succ l)).reaches h.reaches
  le_last := h.le_last
  stop hl := by
    rw [← hs.ptr]
    exact h.stop hl

/-- A lookup stops at one level. -/
theorem Stops.unique (h : T.Stops mem l a) (h' : T.Stops mem m a) : l = m := by
  rcases Nat.lt_trichotomy l m with hlt | heq | hlt
  · have htable := h'.reaches l hlt
    rw [h.stop (by have := h'.le_last; omega)] at htable
    cases htable
  · exact heq
  · have htable := h.reaches m hlt
    rw [h'.stop (by have := h.le_last; omega)] at htable
    cases htable

/-- A lookup that reaches a level behind another one does not stop there. -/
theorem Stops.le_of_reaches (h : T.Stops mem l a) (hm : T.Reaches mem m a) (hle : m ≤ T.last) :
    m ≤ l := by
  by_contra hlt
  have htable := hm l (Nat.lt_of_not_le hlt)
  rw [h.stop (by omega)] at htable
  cases htable

/-- A lookup stops at a level that it reaches and does not leave. -/
theorem stops_iff : T.Stops mem l a ↔
    l ≤ T.last ∧ T.Reaches mem l a ∧ (l < T.last → ¬T.Reaches mem (l + 1) a) := by
  constructor
  · intro h
    refine ⟨h.le_last, h.reaches, fun hlt hnext => ?_⟩
    exact absurd (h.le_of_reaches hnext hlt) (Nat.not_succ_le_self l)
  · rintro ⟨hle, hreach, hleft⟩
    refine ⟨hreach, hle, fun hne => ?_⟩
    rw [← Bool.not_eq_true]
    exact fun htable => hleft (lt_of_le_of_ne hle hne) (reaches_succ.mpr ⟨hreach, htable⟩)

/-- Words that the same lookups reach say alike where they stop. -/
theorem stops_congr (h : ∀ m b, m ≤ T.last → (T.Reaches mem' m b ↔ T.Reaches mem m b)) :
    T.Stops mem' l a ↔ T.Stops mem l a := by
  rw [stops_iff, stops_iff]
  refine and_congr_right fun hle => and_congr (h l a hle) (forall_congr' fun hlt => ?_)
  exact not_congr (h (l + 1) a hlt)

theorem stops_stop (T : RadixTable W ι) (mem : Nat → W) (a : ι) :
    T.Stops mem (T.stop mem a) a := by
  unfold stop
  cases hfind : (List.range T.last).find? fun l => !T.isTable (mem (T.ptr mem l a)) with
  | none =>
    rw [List.find?_eq_none] at hfind
    have hall (j) (hj : j < T.last) : T.isTable (mem (T.ptr mem j a)) = true := by
      simpa using hfind j (List.mem_range.mpr hj)
    exact ⟨hall, le_rfl, fun hne => absurd rfl hne⟩
  | some l =>
    rw [List.find?_range_eq_some] at hfind
    obtain ⟨hstop, hlt, hbefore⟩ := hfind
    refine ⟨fun j hj => ?_, (List.mem_range.mp hlt).le, fun _ => by simpa using hstop⟩
    simpa using hbefore j hj

theorem Stops.eq_stop (h : T.Stops mem l a) : l = T.stop mem a :=
  h.unique (stops_stop T mem a)

/-! ### A store to an entry where lookups stop -/

section Store

variable {x : W}

/-- Behind a store to the entry of `a` at level `l`, all other entries are where they were. -/
theorem Tree.ptr_update (hT : T.Tree mem) (hl : T.Reaches mem l a) (hle : l ≤ T.last)
    (hm : T.Reaches mem m b) (hmle : m ≤ T.last) (hout : l < m → ¬ T.Same l a b) :
    T.ptr (update mem (T.ptr mem l a) x) m b = T.ptr mem m b := by
  induction m with
  | zero => rfl
  | succ m ih =>
    have hprev := hm.mono (Nat.le_succ m)
    have hpos := ih hprev (Nat.le_of_succ_le hmle) fun hlt => hout (hlt.trans (Nat.lt_succ_self m))
    have hne : T.ptr mem m b ≠ T.ptr mem l a := by
      intro heq
      obtain ⟨rfl, hsame⟩ := hT l m a b hle (Nat.le_of_succ_le hmle) hl hprev heq.symm
      exact hout (Nat.lt_succ_self l) hsame
    simp only [ptr]
    rw [hpos, update_of_ne hne]

theorem Tree.reaches_update (hT : T.Tree mem) (hl : T.Reaches mem l a) (hle : l ≤ T.last)
    (hm : T.Reaches mem m b) (hmle : m ≤ T.last) (hout : l < m → ¬ T.Same l a b) :
    T.Reaches (update mem (T.ptr mem l a) x) m b := by
  intro j hj
  have hjm : j ≤ T.last := hj.le.trans hmle
  have hprev := hm.mono hj.le
  rw [hT.ptr_update hl hle hprev hjm fun hlt => hout (hlt.trans hj), update_of_ne]
  · exact hm j hj
  · intro heq
    obtain ⟨rfl, hsame⟩ := hT l j a b hle hjm hl hprev heq.symm
    exact hout hj hsame

/-- Behind a store that leaves no table there, no lookup goes on from the entry. -/
theorem Tree.reaches_of_update (hT : T.Tree mem) (hl : T.Reaches mem l a) (hle : l ≤ T.last)
    (hx : l ≠ T.last → T.isTable x = false)
    (hm : T.Reaches (update mem (T.ptr mem l a) x) m b) (hmle : m ≤ T.last) :
    T.Reaches mem m b ∧ (l < m → ¬ T.Same l a b) := by
  induction m with
  | zero => exact ⟨reaches_zero, fun hlt => absurd hlt (Nat.not_lt_zero l)⟩
  | succ m ih =>
    obtain ⟨hprev', htable⟩ := reaches_succ.mp hm
    obtain ⟨hprev, hout⟩ := ih hprev' (Nat.le_of_succ_le hmle)
    rw [hT.ptr_update hl hle hprev (Nat.le_of_succ_le hmle) hout] at htable
    have hne : T.ptr mem m b ≠ T.ptr mem l a := by
      intro heq
      obtain ⟨rfl, -⟩ := hT l m a b hle (Nat.le_of_succ_le hmle) hl hprev heq.symm
      rw [heq, update_self, hx (Nat.ne_of_lt hmle)] at htable
      cases htable
    rw [update_of_ne hne] at htable
    refine ⟨reaches_succ.mpr ⟨hprev, htable⟩, fun hlt hsame => ?_⟩
    rcases Nat.lt_succ_iff_lt_or_eq.mp hlt with hlt | rfl
    · exact hout hlt hsame
    · exact hne hsame.symm.ptr

theorem Tree.update (hT : T.Tree mem) (hl : T.Reaches mem l a) (hle : l ≤ T.last)
    (hx : l ≠ T.last → T.isTable x = false) : T.Tree (update mem (T.ptr mem l a) x) := by
  intro m n b c hm hn hb hc heq
  obtain ⟨hb', hbout⟩ := hT.reaches_of_update hl hle hx hb hm
  obtain ⟨hc', hcout⟩ := hT.reaches_of_update hl hle hx hc hn
  rw [hT.ptr_update hl hle hb' hm hbout, hT.ptr_update hl hle hc' hn hcout] at heq
  exact hT m n b c hm hn hb' hc' heq

/-- A store that leaves no table where lookups stop moves no entry, and all are reached as before. -/
theorem Tree.ptr_update_stops (hT : T.Tree mem) (h : T.Stops mem l a) (hm : T.Reaches mem m b)
    (hmle : m ≤ T.last) : T.ptr (Function.update mem (T.ptr mem l a) x) m b = T.ptr mem m b :=
  hT.ptr_update h.reaches h.le_last hm hmle fun hlt hs =>
    absurd ((h.same hs).le_of_reaches hm hmle) (Nat.not_le_of_lt hlt)

theorem Tree.reaches_update_iff (hT : T.Tree mem) (h : T.Stops mem l a)
    (hx : l ≠ T.last → T.isTable x = false) (hmle : m ≤ T.last) :
    T.Reaches (Function.update mem (T.ptr mem l a) x) m b ↔ T.Reaches mem m b := by
  constructor
  · exact fun hm => (hT.reaches_of_update h.reaches h.le_last hx hm hmle).1
  · exact fun hm => hT.reaches_update h.reaches h.le_last hm hmle fun hlt hs =>
      absurd ((h.same hs).le_of_reaches hm hmle) (Nat.not_le_of_lt hlt)

/-- The lookups that stopped at the entry find what was stored. -/
theorem Tree.stops_update_same (hT : T.Tree mem) (h : T.Stops mem l a)
    (hx : l ≠ T.last → T.isTable x = false) (hs : T.Same l a b) :
    T.Stops (Function.update mem (T.ptr mem l a) x) l b ∧
      Function.update mem (T.ptr mem l a) x
        (T.ptr (Function.update mem (T.ptr mem l a) x) l b) = x := by
  have hb := h.same hs
  have hout : l < l → ¬ T.Same l a b := fun hlt => absurd hlt (lt_irrefl l)
  have hptr := hT.ptr_update (x := x) h.reaches h.le_last hb.reaches h.le_last hout
  have hentry : Function.update mem (T.ptr mem l a) x (T.ptr mem l b) = x := by
    rw [← hs.ptr, update_self]
  refine ⟨⟨hT.reaches_update h.reaches h.le_last hb.reaches h.le_last hout, h.le_last, fun hl => ?_⟩,
    ?_⟩
  · rw [hptr, hentry, hx hl]
  · rw [hptr, hentry]

/-- All other lookups stop where they did, and find what they did. -/
theorem Tree.stops_update_of_ne (hT : T.Tree mem) (h : T.Stops mem l a)
    (hb : T.Stops mem m b) (hs : ¬ T.Same l a b) :
    T.Stops (Function.update mem (T.ptr mem l a) x) m b ∧
      T.ptr (Function.update mem (T.ptr mem l a) x) m b = T.ptr mem m b ∧
      Function.update mem (T.ptr mem l a) x (T.ptr mem m b) = mem (T.ptr mem m b) := by
  have hptr := hT.ptr_update (x := x) h.reaches h.le_last hb.reaches hb.le_last fun _ => hs
  have hne : T.ptr mem m b ≠ T.ptr mem l a := by
    intro heq
    obtain ⟨rfl, hsame⟩ := hT l m a b h.le_last hb.le_last h.reaches hb.reaches heq.symm
    exact hs hsame
  have hword : Function.update mem (T.ptr mem l a) x (T.ptr mem m b) = mem (T.ptr mem m b) :=
    update_of_ne hne _ _
  refine ⟨⟨?_, hb.le_last, fun hml => ?_⟩, hptr, hword⟩
  · exact hT.reaches_update h.reaches h.le_last hb.reaches hb.le_last fun _ => hs
  · rw [hptr, hword]
    exact hb.stop hml

end Store

/-! ### A fresh table -/

/-- Where the lookup of `a` stops, before the last level, a fresh table is hung up: it lies in words `P`
that no lookup reaches, and leads no further. -/
structure Hangs (T : RadixTable W ι) (mem mem' : Nat → W) (l : Nat) (a : ι) (P : Nat → Prop) : Prop where
  stops : T.Stops mem l a
  lt_last : l < T.last
  fresh : ∀ m b, m ≤ T.last → T.Reaches mem m b → ¬ P (T.ptr mem m b)
  table : T.isTable (mem' (T.ptr mem l a)) = true
  page : ∀ b, P (T.next (mem' (T.ptr mem l a)) + T.stride * T.index (l + 1) b)
  leaves : ∀ p, P p → T.isTable (mem' p) = false
  others : ∀ p, p ≠ T.ptr mem l a → ¬ P p → mem' p = mem p

section Hangs

variable {P : Nat → Prop}

theorem Hangs.ptr_eq (h : T.Hangs mem mem' l a P) (hT : T.Tree mem) (hm : T.Reaches mem m b)
    (hmle : m ≤ T.last) : T.ptr mem' m b = T.ptr mem m b := by
  induction m with
  | zero => rfl
  | succ m ih =>
    have hle := Nat.le_of_succ_le hmle
    have hprev := hm.mono (Nat.le_succ m)
    have hne : T.ptr mem m b ≠ T.ptr mem l a := by
      intro heq
      obtain ⟨rfl, hsame⟩ := hT l m a b h.lt_last.le hle h.stops.reaches hprev heq.symm
      have htable := hm l (Nat.lt_succ_self l)
      rw [← hsame.ptr, h.stops.stop h.lt_last.ne] at htable
      cases htable
    simp only [ptr]
    rw [ih hprev hle, h.others _ hne (h.fresh m b hle hprev)]

theorem Hangs.reaches (h : T.Hangs mem mem' l a P) (hT : T.Tree mem) (hm : T.Reaches mem m b)
    (hmle : m ≤ T.last) : T.Reaches mem' m b := by
  intro j hj
  have hjle : j ≤ T.last := hj.le.trans hmle
  have hprev := hm.mono hj.le
  rw [h.ptr_eq hT hprev hjle, h.others _ _ (h.fresh j b hjle hprev)]
  · exact hm j hj
  · intro heq
    obtain ⟨rfl, hsame⟩ := hT l j a b h.lt_last.le hjle h.stops.reaches hprev heq.symm
    have htable := hm l hj
    rw [← hsame.ptr, h.stops.stop h.lt_last.ne] at htable
    cases htable

/-- The addresses whose lookup stopped at the entry have entries in the fresh table. -/
theorem Hangs.ptr_fresh (h : T.Hangs mem mem' l a P) (hT : T.Tree mem) (hs : T.Same l a b) :
    T.ptr mem' (l + 1) b =
      T.next (mem' (T.ptr mem l a)) + T.stride * T.index (l + 1) b := by
  have hb := h.stops.same hs
  simp only [ptr]
  rw [h.ptr_eq hT hb.reaches h.lt_last.le, hs.ptr]

theorem Hangs.reaches_fresh (h : T.Hangs mem mem' l a P) (hT : T.Tree mem) (hs : T.Same l a b) :
    T.Reaches mem' (l + 1) b := by
  have hb := h.stops.same hs
  refine reaches_succ.mpr ⟨h.reaches hT hb.reaches h.lt_last.le, ?_⟩
  rw [h.ptr_eq hT hb.reaches h.lt_last.le, ← hs.ptr]
  exact h.table

/-- No lookup goes anywhere else. -/
theorem Hangs.reaches_or (h : T.Hangs mem mem' l a P) (hT : T.Tree mem)
    (hm : T.Reaches mem' m b) (hmle : m ≤ T.last) :
    T.Reaches mem m b ∨ m = l + 1 ∧ T.Same l a b := by
  induction m with
  | zero => exact .inl reaches_zero
  | succ m ih =>
    have hle := Nat.le_of_succ_le hmle
    obtain ⟨hprev', htable⟩ := reaches_succ.mp hm
    rcases ih hprev' hle with hprev | ⟨rfl, hs⟩
    · rw [h.ptr_eq hT hprev hle] at htable
      by_cases heq : T.ptr mem m b = T.ptr mem l a
      · obtain ⟨rfl, hsame⟩ := hT l m a b h.lt_last.le hle h.stops.reaches hprev heq.symm
        exact .inr ⟨rfl, hsame⟩
      · rw [h.others _ heq (h.fresh m b hle hprev)] at htable
        exact .inl (reaches_succ.mpr ⟨hprev, htable⟩)
    · rw [h.ptr_fresh hT hs, h.leaves _ (h.page b)] at htable
      cases htable

theorem Hangs.tree (h : T.Hangs mem mem' l a P) (hT : T.Tree mem) (hpos : 0 < T.stride) :
    T.Tree mem' := by
  have hapart (m b c) (hm : m ≤ T.last) (hb : T.Reaches mem m b) (hs : T.Same l a c) :
      T.ptr mem' m b ≠ T.ptr mem' (l + 1) c := by
    rw [h.ptr_eq hT hb hm, h.ptr_fresh hT hs]
    intro heq
    exact h.fresh m b hm hb (heq ▸ h.page c)
  intro m n b c hm hn hb hc heq
  rcases h.reaches_or hT hb hm with hb | ⟨rfl, hsb⟩
  · rcases h.reaches_or hT hc hn with hc | ⟨rfl, hsc⟩
    · rw [h.ptr_eq hT hb hm, h.ptr_eq hT hc hn] at heq
      exact hT m n b c hm hn hb hc heq
    · exact absurd heq (hapart m b c hm hb hsc)
  · rcases h.reaches_or hT hc hn with hc | ⟨rfl, hsc⟩
    · exact absurd heq.symm (hapart n c b hn hc hsb)
    · rw [h.ptr_fresh hT hsb, h.ptr_fresh hT hsc] at heq
      have hindex : T.index (l + 1) b = T.index (l + 1) c :=
        Nat.eq_of_mul_eq_mul_left hpos (Nat.add_left_cancel heq)
      have hsame := hsb.symm.trans hsc
      refine ⟨rfl, hsame.1, fun j hj => ?_⟩
      rcases Nat.lt_succ_iff_lt_or_eq.mp (Nat.lt_succ_of_le hj) with hj | rfl
      · exact hsame.2 j (Nat.le_of_lt_succ hj)
      · exact hindex

/-- The lookups that stopped at the entry stop in the fresh table. -/
theorem Hangs.stops_fresh (h : T.Hangs mem mem' l a P) (hT : T.Tree mem) (hs : T.Same l a b) :
    T.Stops mem' (l + 1) b where
  reaches := h.reaches_fresh hT hs
  le_last := h.lt_last
  stop _ := by
    rw [h.ptr_fresh hT hs]
    exact h.leaves _ (h.page b)

/-- All other lookups stop where they did, and find what they did. -/
theorem Hangs.stops_of_ne (h : T.Hangs mem mem' l a P) (hT : T.Tree mem) (hb : T.Stops mem m b)
    (hs : ¬ T.Same l a b) : T.Stops mem' m b ∧ T.ptr mem' m b = T.ptr mem m b ∧
      mem' (T.ptr mem m b) = mem (T.ptr mem m b) := by
  have hptr := h.ptr_eq hT hb.reaches hb.le_last
  have hne : T.ptr mem m b ≠ T.ptr mem l a := by
    intro heq
    obtain ⟨rfl, hsame⟩ := hT l m a b h.lt_last.le hb.le_last h.stops.reaches hb.reaches heq.symm
    exact hs hsame
  have hword := h.others _ hne (h.fresh m b hb.le_last hb.reaches)
  refine ⟨⟨h.reaches hT hb.reaches hb.le_last, hb.le_last, fun hml => ?_⟩, hptr, hword⟩
  rw [hptr, hword]
  exact hb.stop hml

end Hangs

end RadixTable
