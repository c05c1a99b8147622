import Avisor.Mem.AddressSpaces

/-!
# More address spaces

Address spaces come one after the other, each with a first table of its own. What is stored beside the entries of
those that are there changes nothing for them.
-/

universe u v

namespace Avisor

variable {κ : Type u} {κ' : Type v} {dscr : PtDscr} {root : κ → Nat} {root' : κ' → Nat} {s t : MmuState}
  {words words' : Nat → Pte} {k : κ} {k' : κ'} {l va p : Nat} {b : κ × Nat}

/-! ### One table under two names -/

theorem ptr_rename (h : root' k' = root k) : (tables dscr root').ptr words l (k', va) =
    (tables dscr root).ptr words l (k, va) := by
  rw [← ptGetPte_eq, ← ptGetPte_eq, h]

theorem reaches_rename (h : root' k' = root k) : (tables dscr root').Reaches words l (k', va) ↔
    (tables dscr root).Reaches words l (k, va) := by
  refine forall₂_congr fun j _ => ?_
  rw [ptr_rename h]
  rfl

theorem entry_rename (h : root' k' = root k) : Entry dscr root' words k' p ↔ Entry dscr root words k p := by
  refine exists₂_congr fun l va => and_congr_right fun _ => ?_
  rw [reaches_rename h, ptr_rename h]

/-! ### Words beside the entries -/

/-- The two memories have the same entries, with the same words. -/
def SameEntries (dscr : PtDscr) (root : κ → Nat) (words words' : Nat → Pte) : Prop :=
  ∀ k p, Entry dscr root words k p → words' p = words p

theorem SameEntries.lookup (h : SameEntries dscr root words words') (hl : l ≤ dscr.last) :
    ((tables dscr root).Reaches words l b → (tables dscr root).ptr words' l b = (tables dscr root).ptr words l b) ∧
      ((tables dscr root).Reaches words' l b ↔ (tables dscr root).Reaches words l b) := by
  induction l with
  | zero => exact ⟨fun _ => rfl, iff_of_true RadixTable.reaches_zero RadixTable.reaches_zero⟩
  | succ l ih =>
    obtain ⟨hptr, hreach⟩ := ih (Nat.le_of_succ_le hl)
    have hword (hb : (tables dscr root).Reaches words l b) :
        words' ((tables dscr root).ptr words' l b) = words ((tables dscr root).ptr words l b) := by
      rw [hptr hb]
      exact h b.1 _ ⟨l, b.2, Nat.le_of_succ_le hl, hb, rfl⟩
    constructor
    · intro hb
      have hbefore := (RadixTable.reaches_succ.mp hb).1
      show (tables dscr root).next _ + _ = (tables dscr root).next _ + _
      rw [hword hbefore]
    · rw [RadixTable.reaches_succ, RadixTable.reaches_succ, hreach]
      refine and_congr_right fun hb => ?_
      rw [hword hb]

theorem SameEntries.ptr (h : SameEntries dscr root words words') (hl : l ≤ dscr.last)
    (hb : (tables dscr root).Reaches words l b) :
    (tables dscr root).ptr words' l b = (tables dscr root).ptr words l b :=
  (h.lookup hl).1 hb

theorem SameEntries.reaches (h : SameEntries dscr root words words') (hl : l ≤ dscr.last) :
    (tables dscr root).Reaches words' l b ↔ (tables dscr root).Reaches words l b :=
  (h.lookup hl).2

theorem SameEntries.word (h : SameEntries dscr root words words') (hl : l ≤ dscr.last)
    (hb : (tables dscr root).Reaches words l b) :
    words' ((tables dscr root).ptr words' l b) = words ((tables dscr root).ptr words l b) := by
  rw [h.ptr hl hb]
  exact h b.1 _ ⟨l, b.2, hl, hb, rfl⟩

theorem SameEntries.entry_iff (h : SameEntries dscr root words words') :
    Entry dscr root words' k p ↔ Entry dscr root words k p := by
  refine exists₂_congr fun l va => and_congr_right fun hl => ?_
  rw [h.reaches hl]
  refine and_congr_right fun hb => ?_
  rw [h.ptr hl hb]

theorem SameEntries.pageView (h : SameEntries dscr root words words') :
    pageView dscr root words' b = pageView dscr root words b := by
  have hstops := RadixTable.stops_stop (tables dscr root) words b
  have hstops' := (RadixTable.stops_congr fun m c hm => h.reaches hm).mpr hstops
  rw [pageView_eq hstops', pageView_eq hstops, h.word hstops.le_last hstops.reaches]

/-- Tables stay as they are behind stores beside them. -/
theorem PageTablesWf.of_sameEntries (h : PageTablesWf dscr root s) (hsame : SameEntries dscr root s.words t.words)
    (hpool : t.pool.InMemory) (htaken : ∀ p, t.pool.FreeAt p → s.pool.FreeAt p)
    (hunlocked : t.poolLocked = false) (htame : t.wild = false) : PageTablesWf dscr root t where
  tree l m b c hl hm hb hc heq := by
    rw [hsame.reaches hl] at hb
    rw [hsame.reaches hm] at hc
    rw [hsame.ptr hl hb, hsame.ptr hm hc] at heq
    exact h.tree l m b c hl hm hb hc heq
  valid l b hl hb hvalid := by
    rw [hsame.reaches hl] at hb
    rw [hsame.word hl hb] at hvalid ⊢
    exact h.valid l b hl hb hvalid
  unreserved l b hl hb := by
    rw [hsame.reaches hl] at hb
    rw [hsame.word hl.le (hb.mono (Nat.le_succ l))]
    exact h.unreserved l b hl hb
  apart k p hp hfree := h.apart k p (hsame.entry_iff.mp hp) (htaken p hfree)
  pos k p hp := h.pos k p (hsame.entry_iff.mp hp)
  pool := hpool
  unlocked := hunlocked
  tame := htame
  root_aligned := h.root_aligned
  root_injective := h.root_injective

/-! ### A first table more -/

/-- At `base`, there is a first table without entries. -/
structure ZeroTable (dscr : PtDscr) (s : MmuState) (base : Nat) : Prop where
  pos : 0 < base
  aligned : base % ptSize ⟨base, dscr⟩ 0 = 0
  zero : ∀ i < ptNentries ⟨base, dscr⟩ 0, s.words (base + 8 * i) = 0
  used : ∀ i < ptNentries ⟨base, dscr⟩ 0, ¬s.pool.FreeAt (base + 8 * i)

section

variable {base : Nat} {c : κ' × Nat}

theorem ZeroTable.reaches (h : ZeroTable dscr s base) (hroot : root' k' = base)
    (hb : (tables dscr root').Reaches s.words l (k', va)) : l = 0 := by
  cases l with
  | zero => rfl
  | succ l =>
    have htable : (tables dscr root').isTable
        (s.words (root' k' + 8 * (tables dscr root').index 0 (k', va))) = true := hb 0 (Nat.succ_pos l)
    have hlt := index_lt root' k' (Nat.zero_le dscr.last) va
    rw [hroot] at htable hlt
    rw [h.zero _ hlt, zeroed_not_table] at htable
    cases htable

/-- An entry of a first table is in it. -/
theorem ZeroTable.entry (h : ZeroTable dscr s base) (hroot : root' k' = base)
    (hp : Entry dscr root' s.words k' p) : ∃ i < ptNentries ⟨base, dscr⟩ 0, p = base + 8 * i := by
  obtain ⟨l, va, -, hreach, rfl⟩ := hp
  obtain rfl := h.reaches hroot hreach
  refine ⟨(tables dscr root').index 0 (k', va), ?_, ?_⟩
  · rw [← hroot]
    exact index_lt root' k' (Nat.zero_le _) va
  · rw [← hroot]
    rfl

/-- A first table without entries translates nothing. -/
theorem ZeroTable.translate_none (h : ZeroTable dscr s base) : translate s.words ⟨base, dscr⟩ va = none := by
  have hword : s.words (ptGetPte s.words ⟨base, dscr⟩ 0 va) = 0 :=
    h.zero _ (index_lt (fun _ : Unit => base) () (Nat.zero_le dscr.last) va)
  have hinvalid : pteValid 0 = false := by decide
  unfold translate
  split
  · rw [dscr.lvls_eq, translateFrom, hword, hinvalid]
    rfl
  · rfl

/-- The tables of address spaces that were there, and a first table that is apart from them. -/
theorem PageTablesWf.addRoot (h : PageTablesWf dscr root s) (hzero : ZeroTable dscr s base)
    (hroots : ∀ k', root' k' = base ∨ ∃ k, root' k' = root k) (hinjective : Function.Injective root')
    (hapart : ∀ k, ∀ i < ptNentries ⟨base, dscr⟩ 0, ¬Entry dscr root s.words k (base + 8 * i)) :
    PageTablesWf dscr root' s := by
  have hcases {l : Nat} {c : κ' × Nat} (hl : l ≤ dscr.last) (hc : (tables dscr root').Reaches s.words l c) :
      (root' c.1 = base ∧ l = 0 ∧ s.words ((tables dscr root').ptr s.words l c) = 0) ∨
        ∃ k, root' c.1 = root k ∧ (tables dscr root).Reaches s.words l (k, c.2) ∧
          (tables dscr root').ptr s.words l c = (tables dscr root).ptr s.words l (k, c.2) := by
    rcases hroots c.1 with hnew | ⟨k, hold⟩
    · obtain rfl := hzero.reaches hnew hc
      obtain ⟨i, hi, hptr⟩ := hzero.entry hnew ⟨0, c.2, Nat.zero_le _, hc, rfl⟩
      refine .inl ⟨hnew, rfl, ?_⟩
      rw [hptr, hzero.zero i hi]
    · exact .inr ⟨k, hold, (reaches_rename hold).mp hc, ptr_rename hold⟩
  have hentry {k' : κ'} {p : Nat} (hp : Entry dscr root' s.words k' p) :
      (∃ i < ptNentries ⟨base, dscr⟩ 0, p = base + 8 * i) ∨ ∃ k, Entry dscr root s.words k p := by
    rcases hroots k' with hnew | ⟨k, hold⟩
    · exact .inl (hzero.entry hnew hp)
    · exact .inr ⟨k, (entry_rename hold).mp hp⟩
  refine ⟨fun l m b c hl hm hb hc heq => ?_, fun l c hl hc hvalid => ?_, fun l c hl hc => ?_, fun k' p hp hfree => ?_,
    fun k' p hp => ?_, h.pool, h.unlocked, h.tame, fun k' => ?_, hinjective⟩
  · have hapart' {l m : Nat} {b c : κ' × Nat} (hm : m ≤ dscr.last) (hb : root' b.1 = base) (hl : l = 0)
        (hreach : (tables dscr root').Reaches s.words l b) {k : κ}
        (hc : (tables dscr root).Reaches s.words m (k, c.2))
        (heq : (tables dscr root').ptr s.words l b = (tables dscr root).ptr s.words m (k, c.2)) : False := by
      subst hl
      obtain ⟨i, hi, hptr⟩ := hzero.entry hb ⟨0, b.2, Nat.zero_le _, hreach, rfl⟩
      exact hapart k i hi ⟨m, c.2, hm, hc, hptr.symm.trans heq⟩
    rcases hcases hl hb with ⟨hnew, rfl, -⟩ | ⟨k, hold, hreach, hptr⟩
    · rcases hcases hm hc with ⟨hnew', rfl, -⟩ | ⟨k, hold, hreach, hptr⟩
      · have heq : root' b.1 + 8 * (tables dscr root').index 0 b =
            root' c.1 + 8 * (tables dscr root').index 0 c := heq
        rw [hnew, hnew'] at heq
        refine ⟨rfl, hnew.trans hnew'.symm, fun j hj => ?_⟩
        obtain rfl := Nat.le_zero.mp hj
        omega
      · exact (hapart' hm hnew rfl hb hreach (heq.trans hptr)).elim
    · rcases hcases hm hc with ⟨hnew', rfl, -⟩ | ⟨k'', hold', hreach', hptr'⟩
      · exact (hapart' hl hnew' rfl hc hreach (heq.symm.trans hptr)).elim
      · obtain ⟨rfl, hsame⟩ := h.tree l m (k, b.2) (k'', c.2) hl hm hreach hreach'
          ((hptr.symm.trans heq).trans hptr')
        obtain ⟨hroot, hblock⟩ := (same_iff hl).mp hsame
        exact ⟨rfl, (same_iff hl).mpr ⟨(hold.trans hroot).trans hold'.symm, hblock⟩⟩
  · rcases hcases hl hc with ⟨-, -, hword⟩ | ⟨k, hold, hreach, hptr⟩
    · rw [hword, show pteValid 0 = false from by decide] at hvalid
      cases hvalid
    · rw [hptr] at hvalid ⊢
      exact h.valid l _ hl hreach hvalid
  · rcases hcases hl hc with ⟨-, hnone, -⟩ | ⟨k, hold, hreach, -⟩
    · exact absurd hnone (Nat.succ_ne_zero l)
    · rw [show (tables dscr root').ptr s.words l c = _ from ptr_rename hold]
      exact h.unreserved l _ hl hreach
  · rcases hentry hp with ⟨i, hi, rfl⟩ | ⟨k, hp⟩
    · exact hzero.used i hi hfree
    · exact h.apart k p hp hfree
  · rcases hentry hp with ⟨i, hi, rfl⟩ | ⟨k, hp⟩
    · exact Nat.add_pos_left hzero.pos _
    · exact h.pos k p hp
  · rcases hroots k' with hnew | ⟨k, hold⟩
    · rw [hnew]
      exact hzero.aligned
    · rw [hold]
      exact h.root_aligned k

end

/-- A first table has its first entry where it is. -/
theorem root_entry (dscr : PtDscr) (root : κ → Nat) (words : Nat → Pte) (k : κ) : Entry dscr root words k (root k) := by
  refine ⟨0, 0, Nat.zero_le _, RadixTable.reaches_zero, ?_⟩
  have hindex : ptGetpteindexByVa ⟨root k, dscr⟩ 0 0 = 0 := by
    rw [ptGetpteindexByVa_zero]
    unfold PtDscr.block
    rw [Nat.zero_mod, Nat.zero_div]
  show root k = root k + 8 * ptGetpteindexByVa ⟨root k, dscr⟩ 0 0
  rw [hindex, Nat.mul_zero, Nat.add_zero]

end Avisor
