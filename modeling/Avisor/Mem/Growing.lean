import Avisor.Mem.Ranges
import Mathlib.Data.Finset.Prod
import Mathlib.Data.Finset.Card

/-!
# Tables that grow

`mem_inflate_pt` gives the pages of a range tables down to the last level. What the tables say stays as
it is. At each level it steps by the size of an entry from the first page on, so it comes to all entries
of the range but perhaps the last one.
-/

universe u

namespace Avisor

open Function

variable {κ : Type u}

/-! ### Tables are hung up -/

/-- In `t`, tables of the address space `k` hang that were missing in `s`. -/
structure Grown (dscr : PtDscr) (root : κ → Nat) (k : κ) (s t : MmuState) : Prop where
  wf : PageTablesWf dscr root t
  view : ∀ b, pageView dscr root t.words b = pageView dscr root s.words b
  keeps : ∀ m b, m ≤ dscr.last → (tables dscr root).Reaches s.words m b →
    (tables dscr root).Reaches t.words m b ∧
      (tables dscr root).ptr t.words m b = (tables dscr root).ptr s.words m b
  written : ∀ p, t.words p ≠ s.words p → Entry dscr root t.words k p
  entries : ∀ k p, Entry dscr root t.words k p → Entry dscr root s.words k p ∨ s.pool.FreeAt p
  samePool : t.pool.base = s.pool.base ∧ t.pool.nrPages = s.pool.nrPages
  taken : ∀ p, t.pool.FreeAt p → s.pool.FreeAt p

/-- The entries of the pages `pages` that have no table yet, each as its level and its number there. -/
def missing (dscr : PtDscr) (root : κ → Nat) (k : κ) (pages : Finset Nat) (words : Nat → Pte) :
    Finset (Nat × Nat) :=
  ((Finset.range dscr.last ×ˢ pages).filter fun x =>
    ¬(tables dscr root).Reaches words (x.1 + 1) (k, x.2 * pageSize)).image fun x =>
      (x.1, dscr.block x.1 (x.2 * pageSize))

/-- The pool has a page for each table that the pages miss. -/
def Supplied (dscr : PtDscr) (root : κ → Nat) (k : κ) (pages : Finset Nat) (s : MmuState) : Prop :=
  (missing dscr root k pages s.words).card ≤ s.pool.room

section

variable {dscr : PtDscr} {root : κ → Nat} {s t u : MmuState} {k : κ} {l m a va p : Nat}
  {b : κ × Nat} {pages : Finset Nat}

/-- An address has the entries of its page. -/
theorem PtDscr.block_page (dscr : PtDscr) (h : l ≤ dscr.last) (a : Nat) :
    dscr.block l (a / pageSize * pageSize) = dscr.block l a := by
  apply dscr.block_mono h le_rfl
  obtain ⟨w, hw⟩ := Nat.exists_eq_add_of_le (dscr.off_le le_rfl).le
  have hoff : dscr.lvlOff dscr.last = 12 := dscr.off_last
  have hpage : pageSize = 2 ^ 12 := rfl
  unfold PtDscr.block
  rw [hw, hoff, Nat.pow_add, Nat.mod_mul_right_div_self, Nat.mod_mul_right_div_self, hpage,
    Nat.mul_div_cancel _ (Nat.two_pow_pos 12)]

theorem same_page (h : l ≤ dscr.last) (a : Nat) :
    (tables dscr root).Same l (k, a / pageSize * pageSize) (k, a) :=
  (same_iff h).mpr ⟨rfl, dscr.block_page h a⟩

theorem Grown.refl (h : PageTablesWf dscr root s) : Grown dscr root k s s where
  wf := h
  view _ := rfl
  keeps _ _ _ hreach := ⟨hreach, rfl⟩
  written _ hne := absurd rfl hne
  entries _ _ hp := .inl hp
  samePool := ⟨rfl, rfl⟩
  taken _ hp := hp

theorem Grown.entry (h : Grown dscr root k s t) (hp : Entry dscr root s.words k p) :
    Entry dscr root t.words k p := by
  obtain ⟨m, va, hm, hreach, rfl⟩ := hp
  obtain ⟨hreach', hptr⟩ := h.keeps m (k, va) hm hreach
  exact ⟨m, va, hm, hreach', hptr.symm⟩

theorem Grown.trans (h : Grown dscr root k s t) (h' : Grown dscr root k t u) :
    Grown dscr root k s u where
  wf := h'.wf
  view b := (h'.view b).trans (h.view b)
  keeps m b hm hreach := by
    obtain ⟨hreach', hptr⟩ := h.keeps m b hm hreach
    obtain ⟨hreach'', hptr'⟩ := h'.keeps m b hm hreach'
    exact ⟨hreach'', hptr'.trans hptr⟩
  written p hne := by
    by_cases hp : t.words p = s.words p
    · apply h'.written p
      rw [hp]
      exact hne
    · exact h'.entry (h.written p hp)
  entries k' p hp := (h'.entries k' p hp).elim (h.entries k' p) fun hfree => .inr (h.taken p hfree)
  samePool := ⟨h'.samePool.1.trans h.samePool.1, h'.samePool.2.trans h.samePool.2⟩
  taken p hp := h.taken p (h'.taken p hp)

theorem Hung.grown (h : Hung dscr root s t l (k, a)) : Grown dscr root k s t :=
  ⟨h.wf, h.view, h.keeps, h.written, h.entries, h.samePool, h.taken⟩

/-! ### The tables that are missing -/

theorem mem_missing {words : Nat → Pte} {i : Nat} : (l, i) ∈ missing dscr root k pages words ↔
    l < dscr.last ∧ ∃ x ∈ pages, ¬(tables dscr root).Reaches words (l + 1) (k, x * pageSize) ∧
      dscr.block l (x * pageSize) = i := by
  simp only [missing, Finset.mem_image, Finset.mem_filter, Finset.mem_product, Finset.mem_range,
    Prod.exists, Prod.mk.injEq]
  constructor
  · rintro ⟨_, x, ⟨⟨hl, hx⟩, hmissed⟩, rfl, hi⟩
    exact ⟨hl, x, hx, hmissed, hi⟩
  · rintro ⟨hl, x, hx, hmissed, hi⟩
    exact ⟨l, x, ⟨⟨hl, hx⟩, hmissed⟩, rfl, hi⟩

theorem Grown.missing_subset (h : Grown dscr root k s t) :
    missing dscr root k pages t.words ⊆ missing dscr root k pages s.words := by
  rintro ⟨l, i⟩ hmem
  obtain ⟨hl, x, hx, hmissed, hi⟩ := mem_missing.mp hmem
  exact mem_missing.mpr ⟨hl, x, hx, fun hreach => hmissed (h.keeps (l + 1) _ hl hreach).1, hi⟩

/-- An entry of the pages without a table is one of those missing. -/
theorem mem_missing_of (hl : l < dscr.last) (ha : a / pageSize ∈ pages)
    (hmissed : ¬(tables dscr root).Reaches s.words (l + 1) (k, a)) :
    (l, dscr.block l a) ∈ missing dscr root k pages s.words := by
  refine mem_missing.mpr ⟨hl, a / pageSize, ha, fun hreach => hmissed ?_, dscr.block_page hl.le a⟩
  exact (same_page hl.le a).reaches hreach

/-- A table that is hung up is not missing any more. -/
theorem Hung.missing_lt (h : Hung dscr root s t l (k, a)) (hl : l < dscr.last)
    (ha : a / pageSize ∈ pages) :
    (missing dscr root k pages t.words).card < (missing dscr root k pages s.words).card := by
  apply Finset.card_lt_card
  refine Finset.ssubset_iff_subset_ne.mpr ⟨h.grown.missing_subset, fun heq => ?_⟩
  have hmem := mem_missing_of hl ha h.missed
  rw [← heq] at hmem
  obtain ⟨-, x, -, hmissed, hi⟩ := mem_missing.mp hmem
  have hs : (tables dscr root).Same l (k, a) (k, x * pageSize) := (same_iff hl.le).mpr ⟨rfl, hi.symm⟩
  exact hmissed (hs.reaches h.reached)

theorem Hung.supplied (h : Hung dscr root s t l (k, a)) (hl : l < dscr.last)
    (ha : a / pageSize ∈ pages) (hs : Supplied dscr root k pages s) :
    Supplied dscr root k pages t := by
  have hlt := h.missing_lt hl ha
  have hroom := h.room
  unfold Supplied at hs ⊢
  omega

/-- `mem_expand_pte` for an entry of the pages whose walk is through tables. -/
theorem memExpandPte_grown (type : AsType) (h : PageTablesWf dscr root s) (hs : Supplied dscr root k pages s)
    (hl : l < dscr.last) (hreach : (tables dscr root).Reaches s.words l (k, va))
    (hva : va / pageSize ∈ pages) :
    ∃ t, memExpandPte ⟨⟨root k, dscr⟩, type⟩ s va l = some t ∧ Grown dscr root k s t ∧
      Supplied dscr root k pages t ∧ (tables dscr root).Reaches t.words (l + 1) (k, va) ∧
      ∀ m b, m ≤ dscr.last → (tables dscr root).Reaches t.words m b →
        (tables dscr root).Reaches s.words m b ∨ m = l + 1 ∧ (tables dscr root).Same l (k, va) b := by
  have hroom (hmissed : ¬(tables dscr root).Reaches s.words (l + 1) (k, va)) : 0 < s.pool.room := by
    have hcard := Finset.card_pos.mpr ⟨_, mem_missing_of hl hva hmissed⟩
    unfold Supplied at hs
    omega
  obtain ⟨t, ht, ⟨hreached, rfl⟩ | hung⟩ := memExpandPte_spec type h hl hreach hroom
  · exact ⟨t, ht, .refl h, hs, hreached, fun m b _ hb => .inl hb⟩
  · exact ⟨t, ht, hung.grown, hung.supplied hl hva hs, hung.reached, hung.added⟩

/-! ### One level -/

/-- The addresses that the loop of `mem_inflate_pt` comes to, from `vaddr` on. -/
def Visits (pt : PageTable) (l top vaddr a : Nat) : Prop :=
  ∃ j, a = vaddr + j * ptLvlsize pt l ∧ a < top

theorem ptLvlsize_le (pt : PageTable) (h : l ≤ pt.dscr.last) : ptLvlsize pt l < 2 ^ 48 := by
  rw [ptLvlsize_eq]
  exact Nat.pow_lt_pow_right (by decide) ((pt.dscr.off_le h).trans_le pt.dscr.wdt_le)

section Visits

variable {pt : PageTable} {top vaddr : Nat}

theorem visits_next : Visits pt l top (vaddr + ptLvlsize pt l) a ∨ a = vaddr ∧ vaddr < top ↔
    Visits pt l top vaddr a := by
  constructor
  · rintro (⟨j, rfl, hlt⟩ | ⟨rfl, hlt⟩)
    · refine ⟨j + 1, ?_, hlt⟩
      rw [Nat.add_mul, Nat.one_mul, Nat.add_assoc, Nat.add_comm (ptLvlsize pt l)]
    · exact ⟨0, by rw [Nat.zero_mul, Nat.add_zero], hlt⟩
  · rintro ⟨j, rfl, hlt⟩
    cases j with
    | zero =>
      rw [Nat.zero_mul, Nat.add_zero] at hlt ⊢
      exact .inr ⟨rfl, hlt⟩
    | succ j =>
      refine .inl ⟨j, ?_, hlt⟩
      rw [Nat.add_mul, Nat.one_mul, Nat.add_assoc, Nat.add_comm (ptLvlsize pt l)]

theorem Visits.next (h : Visits pt l top (vaddr + ptLvlsize pt l) a) : Visits pt l top vaddr a :=
  visits_next.mp (.inl h)

theorem visits_self (h : vaddr < top) : Visits pt l top vaddr vaddr := visits_next.mp (.inr ⟨rfl, h⟩)

end Visits

/-- The next address is not behind the end of a `size_t`. -/
theorem next_eq (pt : PageTable) {vaddr top : Nat} (hl : l ≤ pt.dscr.last) (htop : top ≤ 2 ^ 48)
    (hlt : vaddr < top) : (vaddr + ptLvlsize pt l) % sizeT = vaddr + ptLvlsize pt l := by
  apply Nat.mod_eq_of_lt
  have hsize := ptLvlsize_le pt hl
  simp only [sizeT]
  omega

section Level

variable {top vaddr fuel : Nat}

/-- The loop hangs up the missing tables of the entries it comes to, and no others. -/
theorem inflateLoop_grown (type : AsType) (h : PageTablesWf dscr root s) (hs : Supplied dscr root k pages s)
    (hl : l < dscr.last) (htop : top ≤ 2 ^ 48)
    (hfuel : top ≤ vaddr + fuel * ptLvlsize ⟨root k, dscr⟩ l)
    (hvisits : ∀ a, Visits ⟨root k, dscr⟩ l top vaddr a → a / pageSize ∈ pages ∧
      (tables dscr root).Reaches s.words l (k, a)) :
    ∃ t, inflateLoop ⟨⟨root k, dscr⟩, type⟩ l top (fuel + 1) s vaddr = some t ∧
      Grown dscr root k s t ∧ Supplied dscr root k pages t ∧
      (∀ a, Visits ⟨root k, dscr⟩ l top vaddr a →
        (tables dscr root).Reaches t.words (l + 1) (k, a)) ∧
      ∀ m b, m ≤ dscr.last → (tables dscr root).Reaches t.words m b →
        (tables dscr root).Reaches s.words m b ∨ m = l + 1 ∧
          ∃ a, Visits ⟨root k, dscr⟩ l top vaddr a ∧ (tables dscr root).Same l (k, a) b := by
  induction fuel generalizing s vaddr with
  | zero =>
    have hend : ¬vaddr < top := by omega
    refine ⟨s, by rw [inflateLoop, if_neg hend], .refl h, hs, fun a ha => ?_, fun m b _ hb => .inl hb⟩
    obtain ⟨j, rfl, hlt⟩ := ha
    omega
  | succ fuel ih =>
    by_cases hlt : vaddr < top
    · obtain ⟨hpage, hreach⟩ := hvisits vaddr (visits_self hlt)
      obtain ⟨u, hu, hgrown, hsup, hreached, hadded⟩ :=
        memExpandPte_grown type h hs hl hreach hpage
      have hnext := next_eq ⟨root k, dscr⟩ hl.le htop hlt
      have hfuel' : top ≤ vaddr + ptLvlsize ⟨root k, dscr⟩ l +
          fuel * ptLvlsize ⟨root k, dscr⟩ l := by
        rw [Nat.add_mul, Nat.one_mul] at hfuel
        omega
      obtain ⟨t, ht, hgrown', hsup', hreached', hadded'⟩ := ih hgrown.wf hsup hfuel' fun a ha => by
        obtain ⟨ha', hreacha⟩ := hvisits a ha.next
        exact ⟨ha', (hgrown.keeps l _ hl.le hreacha).1⟩
      refine ⟨t, ?_, hgrown.trans hgrown', hsup', fun a ha => ?_, fun m b hm hb => ?_⟩
      · rw [inflateLoop, if_pos hlt, hu, Option.bind_some, hnext]
        exact ht
      · rcases visits_next.mpr ha with ha | ⟨rfl, -⟩
        · exact hreached' a ha
        · exact (hgrown'.keeps (l + 1) _ hl hreached).1
      · rcases hadded' m b hm hb with hb | ⟨heq, a, ha, hsame⟩
        · rcases hadded m b hm hb with hb | ⟨heq, hsame⟩
          · exact .inl hb
          · exact .inr ⟨heq, vaddr, visits_self hlt, hsame⟩
        · exact .inr ⟨heq, a, ha.next, hsame⟩
    · refine ⟨s, by rw [inflateLoop, if_neg hlt], .refl h, hs, fun a ha => ?_,
        fun m b _ hb => .inl hb⟩
      obtain ⟨j, rfl, hlt'⟩ := ha
      omega

/-! ### All levels -/

/-- The first `n` levels of `mem_inflate_pt`. -/
def inflateLevels (as : AddrSpace) (va top n : Nat) (s : MmuState) : Option MmuState :=
  (List.range n).foldlM
    (fun s lvl => inflateLoop as lvl top (sizeT / ptLvlsize as.pt lvl + 1) s va) s

theorem memInflatePt_eq (as : AddrSpace) (s : MmuState) (va length : Nat) :
    memInflatePt as s va length =
      inflateLevels as va ((va + length) % sizeT) as.pt.dscr.last s := rfl

theorem inflateLevels_succ (as : AddrSpace) (va top n : Nat) (s : MmuState) :
    inflateLevels as va top (n + 1) s = (inflateLevels as va top n s).bind fun s =>
      inflateLoop as n top (sizeT / ptLvlsize as.pt n + 1) s va := by
  unfold inflateLevels
  rw [List.range_succ, List.foldlM_append]
  simp only [List.foldlM_cons, List.foldlM_nil, bind_pure]
  rfl

/-- The rounds of a loop are enough. -/
theorem le_rounds (pt : PageTable) (va : Nat) (hl : l ≤ pt.dscr.last) (htop : top ≤ 2 ^ 48) :
    top ≤ va + sizeT / ptLvlsize pt l * ptLvlsize pt l := by
  have hsize := ptLvlsize_le pt hl
  have hdiv := Nat.div_add_mod' sizeT (ptLvlsize pt l)
  have hmod := Nat.mod_lt sizeT (ptLvlsize_pos pt l)
  simp only [sizeT] at hdiv hmod ⊢
  omega

/-- The addresses of a range whose entry at a level the loop comes to, or whose table is there. -/
def Covers (dscr : PtDscr) (root : κ → Nat) (k : κ) (words : Nat → Pte) (va top l : Nat) : Prop :=
  ∀ a, va ≤ a → a < top → (∃ c, Visits ⟨root k, dscr⟩ l top va c ∧
    (tables dscr root).Same l (k, c) (k, a)) ∨ (tables dscr root).Reaches words (l + 1) (k, a)

/-- Levels that the steps cover get all their tables. -/
theorem inflateLevels_grown (type : AsType) (h : PageTablesWf dscr root s) (hs : Supplied dscr root k pages s)
    (hm : m ≤ dscr.last) (htop : top ≤ 2 ^ 48)
    (hpages : ∀ a, va ≤ a → a < top → a / pageSize ∈ pages)
    (hcovers : ∀ l < m, Covers dscr root k s.words va top l) :
    ∃ t, inflateLevels ⟨⟨root k, dscr⟩, type⟩ va top m s = some t ∧
      Grown dscr root k s t ∧ Supplied dscr root k pages t ∧
      (∀ a, va ≤ a → a < top → (tables dscr root).Reaches t.words m (k, a)) ∧
      ∀ j b, m < j → j ≤ dscr.last → (tables dscr root).Reaches t.words j b →
        (tables dscr root).Reaches s.words j b := by
  induction m with
  | zero => exact ⟨s, rfl, .refl h, hs, fun _ _ _ => RadixTable.reaches_zero, fun _ _ _ _ hb => hb⟩
  | succ m ih =>
    obtain ⟨u, hu, hgrown, hsup, hreach, hback⟩ := ih (Nat.le_of_succ_le hm) fun l hl =>
      hcovers l (hl.trans (Nat.lt_succ_self m))
    have hvisits (a) (ha : Visits ⟨root k, dscr⟩ m top va a) : a / pageSize ∈ pages ∧
        (tables dscr root).Reaches u.words m (k, a) := by
      obtain ⟨j, rfl, hlt⟩ := ha
      exact ⟨hpages _ (Nat.le_add_right _ _) hlt, hreach _ (Nat.le_add_right _ _) hlt⟩
    obtain ⟨t, ht, hgrown', hsup', hreached, hadded⟩ := inflateLoop_grown type
      hgrown.wf hsup hm htop (le_rounds ⟨root k, dscr⟩ va (Nat.le_of_succ_le hm) htop) hvisits
    refine ⟨t, ?_, hgrown.trans hgrown', hsup', fun a hva hlt => ?_, fun j b hj hjl hb => ?_⟩
    · rw [inflateLevels_succ, hu]
      exact ht
    · rcases hcovers m (Nat.lt_succ_self m) a hva hlt with ⟨c, hc, hsame⟩ | hthere
      · exact hsame.reaches (hreached c hc)
      · exact ((hgrown.trans hgrown').keeps (m + 1) _ hm hthere).1
    · rcases hadded j b hjl hb with hb | ⟨heq, -⟩
      · exact hback j b (Nat.lt_of_succ_lt hj) hjl hb
      · exact absurd heq (Nat.ne_of_gt hj)

/-! ### A table that stays missing -/

theorem memAllocPpages_wild {n : Nat} {aligned : Bool} {pages : Ppages}
    (h : memAllocPpages s n aligned = some (pages, t)) : t.wild = s.wild := by
  unfold memAllocPpages at h
  split at h
  · cases h
  · split at h
    · cases h
      rfl
    · cases h

theorem memAllocPt_wild {as : AddrSpace} {parent lvl addr page : Nat} (hwild : s.wild = true)
    (h : memAllocPt as s parent lvl addr = some (page, t)) : t.wild = true := by
  obtain ⟨⟨ppage, u⟩, halloc, h⟩ := Option.map_eq_some_iff.mp h
  have hu : u.wild = true := (memAllocPpages_wild halloc).trans hwild
  dsimp only at h
  split at h
  · cases h
    exact hu
  · unfold ptGet at h
    split at h
    · cases h
      exact hu
    · cases h
      simp only [MmuState.walk, MmuState.setWord, hu, Bool.true_or]

/-- A walk that leaves the tables is not forgotten. -/
theorem memExpandPte_wild {as : AddrSpace} (hl : l < as.pt.dscr.last)
    (hwild : (s.walk as.pt l va).wild = true) (h : memExpandPte as s va l = some t) :
    t.wild = true := by
  have hlast : ¬as.pt.dscr.lvls - 1 ≤ l := Nat.not_le_of_lt hl
  unfold memExpandPte at h
  rw [if_neg hlast] at h
  dsimp only at h
  split at h
  · obtain ⟨⟨page, u⟩, halloc, h⟩ := Option.map_eq_some_iff.mp h
    have hu := memAllocPt_wild hwild halloc
    dsimp only at h
    split at h
    · cases h
      exact hu
    · cases h
      exact hu
  · cases h
    exact hwild

/-- A walk has left the tables, or the address `a` has no table behind level `m`. -/
def Lost (dscr : PtDscr) (root : κ → Nat) (k : κ) (pages : Finset Nat) (m a : Nat) (s : MmuState) :
    Prop :=
  s.wild = true ∨ PageTablesWf dscr root s ∧ Supplied dscr root k pages s ∧
    ¬(tables dscr root).Reaches s.words (m + 1) (k, a)

theorem MmuState.walk_wild_of_not_reaches (hl : l ≤ dscr.last)
    (hreach : ¬(tables dscr root).Reaches s.words l (k, va)) :
    (s.walk ⟨root k, dscr⟩ l va).wild = true := by
  have hwalk : walkOk s.words ⟨root k, dscr⟩ l va = false := by
    rw [← Bool.not_eq_true]
    exact fun hok => hreach ((walkOk_iff hl).mp hok)
  simp only [MmuState.walk, hwalk, Bool.not_false, Bool.or_true]

theorem Lost.memExpandPte {type : AsType} (h : Lost dscr root k pages m a s) (hml : m < l) (hl : l < dscr.last)
    (hva : va / pageSize ∈ pages)
    (ht : memExpandPte ⟨⟨root k, dscr⟩, type⟩ s va l = some t) : Lost dscr root k pages m a t := by
  rcases h with hwild | ⟨hwf, hs, hmissed⟩
  · left
    refine memExpandPte_wild hl ?_ ht
    simp only [MmuState.walk, hwild, Bool.true_or]
  · by_cases hreach : (tables dscr root).Reaches s.words l (k, va)
    · obtain ⟨u, hu, hgrown, hsup, -, hadded⟩ :=
        memExpandPte_grown type hwf hs hl hreach hva
      cases hu.symm.trans ht
      refine .inr ⟨hgrown.wf, hsup, fun hreached => ?_⟩
      rcases hadded (m + 1) (k, a) (Nat.succ_le_of_lt (hml.trans hl)) hreached with hold | ⟨heq, -⟩
      · exact hmissed hold
      · omega
    · have hwild : (s.walk ⟨root k, dscr⟩ l va).wild = true :=
        MmuState.walk_wild_of_not_reaches hl.le hreach
      exact .inl (memExpandPte_wild hl hwild ht)

theorem Lost.inflateLoop {type : AsType} {vaddr fuel : Nat} (h : Lost dscr root k pages m a s) (hml : m < l)
    (hl : l < dscr.last) (htop : top ≤ 2 ^ 48) (hva : va ≤ vaddr)
    (hpages : ∀ a, va ≤ a → a < top → a / pageSize ∈ pages)
    (ht : inflateLoop ⟨⟨root k, dscr⟩, type⟩ l top fuel s vaddr = some t) :
    Lost dscr root k pages m a t := by
  induction fuel generalizing s vaddr with
  | zero => cases ht
  | succ fuel ih =>
    unfold Avisor.inflateLoop at ht
    split at ht
    · rename_i hlt
      obtain ⟨u, hu, ht⟩ := Option.bind_eq_some_iff.mp ht
      rw [next_eq ⟨root k, dscr⟩ hl.le htop hlt] at ht
      exact ih (h.memExpandPte hml hl (hpages vaddr hva hlt) hu) (Nat.le_add_right_of_le hva) ht
    · cases ht
      exact h

/-- The levels behind do not bring the table either. -/
theorem Lost.inflateLevels {type : AsType} {n : Nat} (hm : m < n) (hn : n ≤ dscr.last) (htop : top ≤ 2 ^ 48)
    (hpages : ∀ a, va ≤ a → a < top → a / pageSize ∈ pages)
    (h : ∀ u, inflateLevels ⟨⟨root k, dscr⟩, type⟩ va top (m + 1) s = some u →
      Lost dscr root k pages m a u)
    (ht : inflateLevels ⟨⟨root k, dscr⟩, type⟩ va top n s = some t) :
    Lost dscr root k pages m a t := by
  induction n generalizing t with
  | zero => exact absurd hm (Nat.not_lt_zero m)
  | succ n ih =>
    rcases Nat.lt_succ_iff_lt_or_eq.mp hm with hlt | rfl
    · rw [inflateLevels_succ] at ht
      obtain ⟨u, hu, ht⟩ := Option.bind_eq_some_iff.mp ht
      exact (ih hlt (Nat.le_of_succ_le hn) hu).inflateLoop hlt hn htop le_rfl hpages ht
    · exact h t ht

/-- A level whose steps come neither to the entry of `a` nor find its table leaves it missing. -/
theorem inflateLevels_lost {type : AsType} (h : PageTablesWf dscr root s) (hs : Supplied dscr root k pages s)
    (hm : m < dscr.last) (htop : top ≤ 2 ^ 48)
    (hpages : ∀ a, va ≤ a → a < top → a / pageSize ∈ pages)
    (hcovers : ∀ l < m, Covers dscr root k s.words va top l)
    (hvisit : ¬∃ c, Visits ⟨root k, dscr⟩ m top va c ∧ (tables dscr root).Same m (k, c) (k, a))
    (hmissed : ¬(tables dscr root).Reaches s.words (m + 1) (k, a))
    (ht : inflateLevels ⟨⟨root k, dscr⟩, type⟩ va top dscr.last s = some t) :
    Lost dscr root k pages m a t := by
  refine Lost.inflateLevels hm le_rfl htop hpages (fun w hw => ?_) ht
  obtain ⟨u, hu, hgrown, hsup, hreach, hback⟩ :=
    inflateLevels_grown type h hs hm.le htop hpages hcovers
  have hvisits (c) (hc : Visits ⟨root k, dscr⟩ m top va c) : c / pageSize ∈ pages ∧
      (tables dscr root).Reaches u.words m (k, c) := by
    obtain ⟨j, rfl, hlt⟩ := hc
    exact ⟨hpages _ (Nat.le_add_right _ _) hlt, hreach _ (Nat.le_add_right _ _) hlt⟩
  obtain ⟨v, hv, hgrown', hsup', -, hadded⟩ := inflateLoop_grown type hgrown.wf hsup hm htop
    (le_rounds ⟨root k, dscr⟩ va hm.le htop) hvisits
  rw [inflateLevels_succ, hu] at hw
  cases hv.symm.trans hw
  refine .inr ⟨hgrown'.wf, hsup', fun hreached => ?_⟩
  rcases hadded (m + 1) (k, a) hm hreached with hold | ⟨-, c, hc, hsame⟩
  · exact hmissed (hback (m + 1) _ (Nat.lt_succ_self m) hm hold)
  · exact hvisit ⟨c, hc, hsame⟩

end Level

end

end Avisor
