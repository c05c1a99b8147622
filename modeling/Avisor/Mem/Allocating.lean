import Avisor.Lib.Machine
import Avisor.Mem.Mapping
import Avisor.Mem.Searching

/-!
# Allocating and mapping

`mem_alloc_vpage` for a range at a given address, with the walk that marks the entries it has counted, and
`mem_alloc_map` over it. The entries that were counted are those that `mem_inflate_pt` comes to; all others of the
range have their tables from the search.
-/

universe u

namespace Avisor

open Function

variable {κ : Type u}

section

variable {dscr : PtDscr} {root : κ → Nat} {s t u : MmuState} {k : κ} {l a va n top : Nat} {type : AsType}

/-! ### The entries are marked -/

/-- The first entry that is not valid is the one where the lookup stops. -/
theorem reserveLevel_eq (hstops : (tables dscr root).Stops s.words l (k, va))
    (hunused : Unused dscr root s.words (k, va)) : reserveLevel s.words ⟨root k, dscr⟩ va = l := by
  have hvalid : pteValid (s.words ((tables dscr root).ptr s.words l (k, va))) = false := by
    have hview := hunused.unmapped
    rwa [pageView_eq hstops, pteValid_pteView] at hview
  have hfind : (List.range dscr.lvls).find? (fun lvl =>
      !pteValid (s.words (ptGetPte s.words ⟨root k, dscr⟩ lvl va))) = some l := by
    rw [List.find?_range_eq_some]
    refine ⟨?_, ?_, fun j hj => ?_⟩
    · rw [ptGetPte_eq, hvalid]
      rfl
    · rw [List.mem_range, dscr.lvls_eq]
      exact Nat.lt_succ_of_le hstops.le_last
    · rw [ptGetPte_eq, pteValid_of_type (of_decide_eq_true (hstops.reaches j hj))]
      rfl
  exact congrArg (·.getD dscr.lvls) hfind

theorem Stored.supplied (h : Stored dscr root k s t va top) {pages : Finset Nat}
    (hs : Supplied dscr root k pages s) : Supplied dscr root k pages t := by
  have hsub : missing dscr root k pages t.words ⊆ missing dscr root k pages s.words := by
    rintro ⟨l, i⟩ hmem
    obtain ⟨hl, x, hx, hmissed, hi⟩ := mem_missing.mp hmem
    exact mem_missing.mpr ⟨hl, x, hx, fun hreach => hmissed ((h.reaches (l + 1) _ hl).mpr hreach), hi⟩
  unfold Supplied at hs ⊢
  rw [h.pool]
  exact (Finset.card_le_card hsub).trans hs

/-- The mark on an entry that is not in use. -/
theorem Stored.mark (h : PageTablesWf dscr root s) (hstops : (tables dscr root).Stops s.words l (k, va))
    (hunused : Unused dscr root s.words (k, va)) (haligned : va % ptLvlsize ⟨root k, dscr⟩ l = 0)
    (hspan : va + ptLvlsize ⟨root k, dscr⟩ l ≤ 2 ^ dscr.lvlWdt 0) :
    Stored dscr root k s (s.setWord ((tables dscr root).ptr s.words l (k, va))
      (pteSetRsw (s.words ((tables dscr root).ptr s.words l (k, va))) pteRswRsrv)) va
      (va + ptLvlsize ⟨root k, dscr⟩ l) := by
  have hvalid : pteValid (pteSetRsw (s.words ((tables dscr root).ptr s.words l (k, va))) pteRswRsrv) = false := by
    have hview := hunused.unmapped
    rw [pageView_eq hstops, pteValid_pteView] at hview
    rw [pteValid_setRsw, hview]
  refine .single h hstops (fun _ => hvalid) (fun hpage => ?_) haligned hspan
  rw [hvalid] at hpage
  cases hpage

theorem reserveLoop_stored (type : AsType) {fuel : Nat} (count : Nat) (h : PageTablesWf dscr root s)
    (htiles : Tiles dscr root k s.words va top)
    (hunused : ∀ a, va ≤ a → a < top → Unused dscr root s.words (k, a))
    (htop : va + (n - count) * pageSize = top) (hspan : top ≤ 2 ^ dscr.lvlWdt 0) (hfuel : n - count < fuel) :
    ∃ t, reserveLoop ⟨⟨root k, dscr⟩, type⟩ n fuel s count va = some t ∧ Stored dscr root k s t va top := by
  induction fuel generalizing s count va with
  | zero => exact absurd hfuel (Nat.not_lt_zero _)
  | succ fuel ih =>
    unfold reserveLoop
    cases htiles with
    | nil =>
      have hdone : ¬count < n := fun hlt => by
        have hpos : 0 < (n - count) * pageSize := Nat.mul_pos (Nat.sub_pos_of_lt hlt) (by decide)
        omega
      rw [if_neg hdone]
      exact ⟨s, rfl, .refl h _⟩
    | @cons l _ _ hstops hstart hrest =>
      have hpos := ptLvlsize_pos ⟨root k, dscr⟩ l
      have hle := hstops.le_last
      have hend := hrest.le
      have hlow : va < top := by omega
      have hfree := hunused va le_rfl hlow
      obtain ⟨hcounted, hfew, hpages⟩ := counted_pages ⟨root k, dscr⟩ (m := n - count) hle (by omega)
      have hlt : count < n := by omega
      have hsplit : n - count = n - (count + ptLvlsize ⟨root k, dscr⟩ l / pageSize) +
          ptLvlsize ⟨root k, dscr⟩ l / pageSize := by omega
      have hlast : min l (dscr.lvls - 1) = l := Nat.min_eq_left hle
      have hnext := next_eq ⟨root k, dscr⟩ hle
        (hspan.trans (Nat.pow_le_pow_right Nat.two_pos dscr.wdt_le)) hlow
      have hmark := Stored.mark h hstops hfree hstart (hend.trans hspan)
      rw [if_pos hlt]
      simp only [reserveLevel_eq hstops hfree, hlast, MmuState.walk_of_reaches hle hstops.reaches, ptGetPte_eq, hnext]
      refine (ih _ hmark.wf (hrest.stored hmark) (fun a ha hlt => ?_) ?_ (by omega)).elim fun t ht =>
        ⟨t, ht.1, hmark.trans ht.2 (Nat.le_add_right _ _) hend⟩
      · refine (unused_congr (hmark.others (k, a) fun a' _ hlt' => ?_)).mpr (hunused a (by omega) hlt)
        refine not_same_of_lt ?_ hlt' ha (hlt.trans_le hspan)
        have hsize := ptLvlsize_aligned ⟨root k, dscr⟩ hle
        have hvaPage : va % pageSize = 0 := by
          have hdvd := (Nat.dvd_of_mod_eq_zero hsize).trans (Nat.dvd_of_mod_eq_zero hstart)
          exact Nat.mod_eq_zero_of_dvd hdvd
        rw [Nat.add_mod, hvaPage, hsize, Nat.add_zero, Nat.zero_mod]
      · rw [hsplit, Nat.add_mul, hpages] at htop
        omega

/-! ### `mem_alloc_vpage` -/

/-- The pages of the range are not in use. -/
def RangeUnused (dscr : PtDscr) (root : κ → Nat) (k : κ) (s : MmuState) (va n : Nat) : Prop :=
  ∀ a, va ≤ a → a < va + n * pageSize → Unused dscr root s.words (k, a)

/-- In `t`, the entries of a range that was not in use are marked: behind tables that were hung up they are whole
entries. -/
structure Reserves (dscr : PtDscr) (root : κ → Nat) (k : κ) (s t : MmuState) (va n : Nat) : Prop where
  wf : PageTablesWf dscr root t
  supplied : Supplied dscr root k (rangePages va n) t
  tiles : Tiles dscr root k t.words va (va + n * pageSize)
  others : ∀ b, (∀ a, va ≤ a → a < va + n * pageSize → ¬(tables dscr root).Same dscr.last (k, a) b) →
    pageView dscr root t.words b = pageView dscr root s.words b
  written : ∀ p, t.words p ≠ s.words p → Entry dscr root t.words k p
  entries : ∀ k p, Entry dscr root t.words k p → Entry dscr root s.words k p ∨ s.pool.FreeAt p
  taken : ∀ p, t.pool.FreeAt p → s.pool.FreeAt p

theorem memAllocVpage_spec (type : AsType) (h : PageTablesWf dscr root s)
    (hsupplied : Supplied dscr root k (rangePages va n) s) (haligned : va % pageSize = 0) (hva : va ≠ invalidVa)
    (hspan : va + n * pageSize ≤ 2 ^ dscr.lvlWdt 0) :
    ∃ r t, memAllocVpage ⟨⟨root k, dscr⟩, type⟩ va n s = some (r, t) ∧
      ((0 < n ∧ RangeUnused dscr root k s va n) ∧ r = va ∧ Reserves dscr root k s t va n ∨
        ¬(0 < n ∧ RangeUnused dscr root k s va n) ∧ r = invalidVa ∧ Grown dscr root k s t) := by
  obtain ⟨x, hx, hend⟩ := vpageLoop_spec type haligned hva hspan (Searching.start h hsupplied)
    (distance_start dscr hspan)
  unfold memAllocVpage
  simp only [hva, ne_eq, not_false_eq_true, if_true, haligned, not_true_eq_false, if_false, hx, Option.bind_some]
  rcases hend with hfailed | ⟨hsearch, hcount⟩
  · rw [hfailed.failed, hfailed.vpage]
    refine ⟨_, _, rfl, .inr ⟨fun hunused => ?_, rfl, hfailed.grown⟩⟩
    obtain ⟨a, ha, hlt, hused⟩ := hfailed.used
    exact hused (hunused.2 a ha hlt)
  · rcases Nat.eq_zero_or_pos n with rfl | hn
    · have hvpage : x.vpage = invalidVa := by rw [hsearch.vpage, if_pos hcount]
      rw [hvpage]
      exact ⟨_, _, rfl, .inr ⟨fun hunused => absurd hunused.1 (Nat.lt_irrefl 0), rfl, hsearch.grown⟩⟩
    · have hvpage : x.vpage = va := by rw [hsearch.vpage, if_neg (by omega)]
      have haddr : x.addr = va + n * pageSize := by rw [hsearch.addr, hcount]
      have htiles := hsearch.tiles
      have hunused := hsearch.unused
      rw [haddr] at htiles hunused
      obtain ⟨t, ht, hstored⟩ := reserveLoop_stored type 0 hsearch.wf htiles hunused
        (by rw [Nat.sub_zero]) hspan (Nat.lt_succ_self n)
      rw [hvpage, hsearch.failed]
      simp only [hva, not_false_eq_true, decide_true, Bool.not_false, Bool.and_self, if_true]
      rw [ht]
      refine ⟨_, _, rfl, .inl ⟨⟨hn, fun a ha hlt => ?_⟩, rfl, hstored.wf, hstored.supplied hsearch.supplied,
        htiles.stored hstored, fun b hb => ?_, fun p hne => ?_,
        fun k' p hp => hsearch.grown.entries k' p (hstored.entry_iff.mp hp), fun p hp => ?_⟩⟩
      · exact (unused_congr (hsearch.grown.view _)).mp (hunused a ha hlt)
      · rw [hstored.others b hb, hsearch.grown.view]
      · apply hstored.entry_iff.mpr
        by_cases hp : x.s.words p = s.words p
        · apply hstored.written p
          rw [hp]
          exact hne
        · exact hsearch.grown.written p hp
      · rw [hstored.pool] at hp
        exact hsearch.grown.taken p hp

/-! ### The tables of a range of entries -/

/-- The steps of `mem_inflate_pt` come to all entries of a range of whole entries that have no table. -/
theorem Tiles.covers {words : Nat → Pte} (h : Tiles dscr root k words va top) (hl : l < dscr.last)
    (hspan : top ≤ 2 ^ dscr.lvlWdt 0) : Covers dscr root k words va top l := by
  intro a hva hlt
  obtain ⟨m, b, hstops, haligned, hab, hba, hab', hend⟩ := h.exists_tile hva hlt
  have hle := hstops.le_last
  rcases Nat.lt_or_ge l m with hlm | hml
  · -- the entry of `a` is behind a table of this level
    right
    have hsame := same_of_tile hle haligned hba hab' (hend.trans hspan)
    have hreach : (tables dscr root).Reaches words (l + 1) (k, a) :=
      ((hstops.same hsame).reaches).mono hlm
    exact hreach
  · -- the entry of `a` lies in the one that stops there
    left
    have hdvd := ptLvlsize_dvd ⟨root k, dscr⟩ hml hl.le
    have hpos := ptLvlsize_pos ⟨root k, dscr⟩ l
    have hstart : b % ptLvlsize ⟨root k, dscr⟩ l = 0 :=
      Nat.mod_eq_zero_of_dvd (hdvd.trans (Nat.dvd_of_mod_eq_zero haligned))
    have hnear : (a / ptLvlsize ⟨root k, dscr⟩ l - va / ptLvlsize ⟨root k, dscr⟩ l) *
        ptLvlsize ⟨root k, dscr⟩ l < top - va := by
      obtain ⟨parts, hparts⟩ := hdvd
      rw [hparts] at hab' hend
      generalize ptLvlsize ⟨root k, dscr⟩ l = size at *
      obtain ⟨first, rfl⟩ := Nat.dvd_of_mod_eq_zero hstart
      have hfirst : first ≤ a / size := (Nat.le_div_iff_mul_le hpos).mpr (by rwa [Nat.mul_comm])
      have hlast : a / size < first + parts := by
        rw [Nat.div_lt_iff_lt_mul hpos, Nat.add_mul, Nat.mul_comm first, Nat.mul_comm parts]
        exact hab'
      have hnext : (a / size + 1) * size ≤ (first + parts) * size := Nat.mul_le_mul_right size hlast
      have hva' := Nat.div_add_mod' va size
      have hrest := Nat.mod_lt va hpos
      rw [Nat.sub_mul]
      rw [Nat.add_mul, Nat.add_mul, Nat.one_mul, Nat.mul_comm first, Nat.mul_comm parts] at hnext
      omega
    obtain ⟨c, hc, heq⟩ := visits_of_lt hva hnear
    rw [Nat.add_sub_cancel' (hva.trans hlt.le)] at hc
    exact ⟨c, hc, same_of_div hl.le heq⟩

/-! ### Pages of the pool -/

/-- An address in a run of free pages is free. -/
theorem Allocated.freeAt_of_mem {pool pool' : PagePool} {n bit p : Nat} {aligned : Bool} {pages : Ppages}
    (h : Allocated pool pool' n aligned pages bit) (hlow : pages.base ≤ p)
    (hhigh : p < pages.base + n * pageSize) : pool.FreeAt p := by
  have hin := h.inside
  rw [h.base] at hlow hhigh
  obtain ⟨offset, rfl⟩ := Nat.exists_eq_add_of_le (Nat.le_of_add_right_le hlow)
  have hfirst : bit * pageSize ≤ offset := by omega
  have hlast : offset < (bit + n) * pageSize := by
    rw [Nat.add_mul]
    omega
  have hbit := (Nat.le_div_iff_mul_le (by decide)).mpr hfirst
  have hbit' := Nat.div_lt_of_lt_mul (Nat.mul_comm _ _ ▸ hlast)
  have hrem := Nat.div_add_mod offset pageSize
  have hlt : offset % pageSize < pageSize := Nat.mod_lt _ (by decide)
  rw [Nat.mul_comm] at hrem
  refine ⟨offset / pageSize, by omega, h.wasFree _ hbit hbit', by omega, ?_⟩
  rw [Nat.add_mul]
  omega

theorem Allocated.freeAt {pool pool' : PagePool} {aligned : Bool} {pages : Ppages} {bit p : Nat}
    (h : Allocated pool pool' n aligned pages bit) (hp : pool'.FreeAt p) : pool.FreeAt p := by
  obtain ⟨i, hi, hfree, hlow, hhigh⟩ := hp
  rw [h.bits, Bool.or_eq_false_iff] at hfree
  rw [h.samePool.1] at hlow hhigh
  exact ⟨i, h.samePool.2 ▸ hi, hfree.1, hlow, hhigh⟩

/-- Pages that are handed out are not free any more. -/
theorem Allocated.not_freeAt {pool pool' : PagePool} {bit p : Nat} {aligned : Bool} {pages : Ppages}
    (h : Allocated pool pool' n aligned pages bit) (hlow : pages.base ≤ p) (hhigh : p < pages.base + n * pageSize) :
    ¬pool'.FreeAt p := by
  rintro ⟨i, -, hfree, hlow', hhigh'⟩
  rw [h.bits, Bool.or_eq_false_iff, decide_eq_false_iff_not] at hfree
  rw [h.samePool.1] at hlow' hhigh'
  rw [h.base] at hlow hhigh
  refine hfree.2 ?_
  simp only [pageSize] at *
  omega

theorem PagePool.InMemory.allocated {pool pool' : PagePool} {aligned : Bool} {pages : Ppages} {bit : Nat}
    (h : pool.InMemory) (halloc : Allocated pool pool' n aligned pages bit) (hplaced : pool'.Placed) :
    pool'.InMemory where
  toPlaced := hplaced
  base_pos := by
    rw [halloc.samePool.1]
    exact h.base_pos
  base_aligned := by
    rw [halloc.samePool.1]
    exact h.base_aligned
  end_le := by
    rw [halloc.samePool.1, halloc.samePool.2]
    exact h.end_le

/-- Behind an allocation of free pages, the next ones are looked for behind them. -/
theorem memAllocPpages_placed {aligned : Bool} {pages : Ppages} {bit : Nat} (hpool : s.pool.InMemory) (hn : 1 ≤ n)
    (h : memAllocPpages s n aligned = some (pages, t)) (halloc : Allocated s.pool t.pool n aligned pages bit) :
    t = { s with pool := t.pool } ∧ t.pool.Placed := by
  have hsome : s.pool.free ≠ 0 := by
    have hfree := halloc.free
    omega
  unfold memAllocPpages at h
  split at h
  · cases h
  · split at h
    · rename_i pool pages' hrun
      obtain ⟨rfl, rfl⟩ := Prod.mk.inj (Option.some.inj h)
      refine ⟨rfl, halloc.placed hpool.toPlaced ?_⟩
      obtain ⟨c, -, -, -, htake⟩ := ppAlloc_eq_some hsome hn hrun
      obtain ⟨rfl, rfl⟩ := Prod.mk.inj htake
      have hbase := halloc.base
      have hin := halloc.inside
      have hend := hpool.end_le
      have hpages := hpool.toPlaced.nrPages_le
      have hfound := hpool.toPlaced.findFree_eq c hn
      dsimp only at hbase ⊢
      generalize s.pool.findFree n c = found at *
      have heq : found = bit := by
        rcases hfound with rfl | ⟨hlt, -⟩
        · simp only [pageSize, sizeT, sizeMax] at *
          omega
        · simp only [pageSize, sizeT] at *
          omega
      rw [heq]
      apply Nat.mod_eq_of_lt
      simp only [sizeT]
      omega
    · cases h

/-- `mem_alloc_ppages` where the pool has a run of free pages from the place on where it looks. -/
theorem memAllocPpages_behind (h : PageTablesWf dscr root s) (hn : 0 < n) (hfree : n ≤ s.pool.free)
    (hbehind : s.pool.FreeBehind n (s.pool.firstCurr n false)) :
    ∃ bit pages t, memAllocPpages s n false = some (pages, t) ∧ Allocated s.pool t.pool n false pages bit := by
  obtain ⟨bit, halloc, hpages, -, -⟩ :=
    ppAlloc_behind h.pool.toPlaced hn hfree hbehind ⟨0, 0⟩ (2 * s.pool.nrPages + 2)
  refine ⟨bit, _, { s with pool := (s.pool.take n bit).2 }, ?_, hpages⟩
  unfold memAllocPpages
  rw [halloc, h.unlocked]
  simp

/-- The tables do not mind that pages are taken from the pool. -/
theorem PageTablesWf.allocated {aligned : Bool} {pages : Ppages} {bit : Nat} (h : PageTablesWf dscr root s)
    (hn : 1 ≤ n) (hrun : memAllocPpages s n aligned = some (pages, t))
    (halloc : Allocated s.pool t.pool n aligned pages bit) : PageTablesWf dscr root t ∧ t.words = s.words := by
  obtain ⟨heq, hplaced⟩ := memAllocPpages_placed h.pool hn hrun halloc
  rw [heq]
  refine ⟨⟨h.tree, h.valid, h.unreserved, fun k p hp hfree => h.apart k p hp (halloc.freeAt hfree), h.pos, ?_,
    h.unlocked, h.tame, h.root_aligned, h.root_injective⟩, rfl⟩
  exact h.pool.allocated halloc hplaced

/-! ### A call -/

/-- `n` pages for `mem_map` are pages of the pool that are free, and it has more for the tables. -/
structure DataFresh (dscr : PtDscr) (root : κ → Nat) (k : κ) (va n : Nat) (s : MmuState) : Prop where
  count : n ≤ s.pool.free
  behind : s.pool.FreeBehind n (s.pool.firstCurr n false)
  rest : ∀ pages t, memAllocPpages s n false = some (pages, t) → Supplied dscr root k (rangePages va n) t

/-- The pages that the allocator hands out for a call are fresh: those for tables, and those for the range
where the caller gives none. -/
structure FreshPages (dscr : PtDscr) (root : κ → Nat) (type : AsType) (k : κ) (s : MmuState) (page : Option Ppages)
    (va n : Nat) : Prop where
  tables : Supplied dscr root k (rangePages va n) s
  data : page = none → ∀ t, memAllocVpage ⟨⟨root k, dscr⟩, type⟩ va n s = some (va, t) →
    DataFresh dscr root k va n t

/-- A page for `mem_map` is at `bit` or in front of it, and the pool has more for the tables. -/
def PageFound (dscr : PtDscr) (root : κ → Nat) (k : κ) (va bit : Nat) (s : MmuState) : Prop :=
  1 ≤ s.pool.free ∧ s.pool.firstCurr 1 false ≤ bit ∧ bit < s.pool.nrPages ∧ bitmapGet s.pool.bitmap bit = false ∧
    (memAllocPpages s 1 false).all (fun x : Ppages × MmuState => decide
      ((missing dscr root k (rangePages va 1) x.2.words).card ≤ x.2.pool.room)) = true

instance (dscr : PtDscr) (root : κ → Nat) (k : κ) (va bit : Nat) (s : MmuState) :
    Decidable (PageFound dscr root k va bit s) :=
  inferInstanceAs (Decidable (_ ∧ _))

theorem FreshPages.of_found {dscr : PtDscr} {root : κ → Nat} {type : AsType} {k : κ} {s : MmuState} {va bit : Nat}
    (htables : Supplied dscr root k (rangePages va 1) s)
    (hfound : (memAllocVpage ⟨⟨root k, dscr⟩, type⟩ va 1 s).all
      (fun x : Nat × MmuState => decide (PageFound dscr root k va bit x.2)) = true) :
    FreshPages dscr root type k s none va 1 := by
  refine ⟨htables, fun _ t ht => ?_⟩
  rw [ht, Option.all_some, decide_eq_true_iff] at hfound
  obtain ⟨hcount, hcurr, hpages, hbit, hrest⟩ := hfound
  refine ⟨hcount, ⟨bit, hcurr, hpages, fun i hi hlt => ?_⟩, fun pages u hu => ?_⟩
  · obtain rfl : i = bit := by omega
    exact hbit
  · rw [hu, Option.all_some, decide_eq_true_iff] at hrest
    exact hrest

/-- The physical pages of a call, if it has any: as many as the range, each at an address of a page. -/
def PagesOf (page : Option Ppages) (n : Nat) : Prop :=
  ∀ p, page = some p → p.nrPages = n ∧ p.base % pageSize = 0 ∧ p.base + n * pageSize ≤ 2 ^ 48

/-- `t` has the translations and reservations of `s` outside a range of pages. -/
def SameOutside (pt : PageTable) (s t : MmuState) (va n : Nat) : Prop :=
  ∀ a, ¬(va ≤ a ∧ a < va + n * pageSize) → translate t.words pt a = translate s.words pt a ∧
    (a < ptSpan pt → reserved t.words pt a = reserved s.words pt a)

/-- What `mem_alloc_map` does for `n` pages at `va` and what it returns. -/
structure AllocMaps (pt : PageTable) (s t : MmuState) (page : Option Ppages) (va n : Nat) (flags : Pte) (r : Nat) :
    Prop where
  returns : r = va ↔ 0 < n ∧ ∀ i < n, translate s.words pt (va + i * pageSize) = none ∧
    reserved s.words pt (va + i * pageSize) = false
  mapped : r = va → ∃ base, (∀ p, page = some p → base = p.base) ∧
    (page = none → ∀ i < n, s.pool.FreeAt (base + i * pageSize)) ∧
    (∀ i < n, ∀ offset < pageSize, translate t.words pt (va + i * pageSize + offset) =
      some (base + i * pageSize + offset, (ptePageType ||| flags) &&& pteFlagsMsk)) ∧ SameOutside pt s t va n
  refused : r ≠ va → r = invalidVa ∧ SameOutside pt s t va 0

/-- What the tables say decides translations and reservations. -/
theorem sameOutside_of_view (hs : PageTablesWf dscr root s) (ht : PageTablesWf dscr root t)
    (hview : ∀ a < 2 ^ dscr.lvlWdt 0, ¬(va ≤ a ∧ a < va + n * pageSize) →
      pageView dscr root t.words (k, a) = pageView dscr root s.words (k, a)) :
    SameOutside ⟨root k, dscr⟩ s t va n := by
  intro a hout
  constructor
  · rw [translate_eq ht, translate_eq hs]
    by_cases hlow : a < 2 ^ dscr.lvlWdt 0
    · rw [hview a hlow hout]
    · rw [if_neg fun hboth => hlow hboth.1, if_neg fun hboth => hlow hboth.1]
  · intro hlow
    rw [ptSpan_eq] at hlow
    rw [reserved_eq, reserved_eq, hview a hlow hout]

/-- An address outside a range of whole pages has none of their entries. -/
theorem not_same_of_outside (haligned : va % pageSize = 0) (hspan : va + n * pageSize ≤ 2 ^ dscr.lvlWdt 0) {b : Nat}
    (hlow : b < 2 ^ dscr.lvlWdt 0) (hout : ¬(va ≤ b ∧ b < va + n * pageSize)) (ha : va ≤ a)
    (hlt : a < va + n * pageSize) : ¬(tables dscr root).Same dscr.last (k, a) (k, b) := by
  intro hsame
  rw [same_last_iff (hlt.trans_le hspan) hlow] at hsame
  have hpage := hsame.2
  simp only [pageSize] at *
  omega

/-- The range is unused if its pages are neither mapped nor reserved. -/
theorem rangeUnused_iff (h : PageTablesWf dscr root s) (haligned : va % pageSize = 0)
    (hspan : va + n * pageSize ≤ 2 ^ dscr.lvlWdt 0) : RangeUnused dscr root k s va n ↔
      ∀ i < n, translate s.words ⟨root k, dscr⟩ (va + i * pageSize) = none ∧
        reserved s.words ⟨root k, dscr⟩ (va + i * pageSize) = false := by
  have hpage : 0 < pageSize := by decide
  constructor
  · intro hunused i hi
    have hlt : i * pageSize < n * pageSize := Nat.mul_lt_mul_of_pos_right hi hpage
    rw [← unused_iff h (by omega)]
    exact hunused _ (Nat.le_add_right _ _) (by omega)
  · intro hpages a ha hlt
    obtain ⟨i, hi⟩ : ∃ i, i = (a - va) / pageSize := ⟨_, rfl⟩
    have hin : i < n := by
      rw [hi, Nat.div_lt_iff_lt_mul hpage]
      omega
    have hsame : (tables dscr root).Same dscr.last (k, va + i * pageSize) (k, a) := by
      have hle : i * pageSize ≤ a - va := hi ▸ Nat.div_mul_le_self _ _
      rw [same_last_iff (by omega) (by omega)]
      refine ⟨rfl, ?_⟩
      simp only [pageSize] at *
      omega
    have hstart := (unused_iff h (by
      have hle : i * pageSize ≤ a - va := hi ▸ Nat.div_mul_le_self _ _
      omega)).mpr (hpages i hin)
    exact (unused_congr (pageView_same hsame).symm).mpr hstart

/-- `mem_map` over a range of whole entries. -/
theorem memMap_tiles (type : AsType) (flags : Pte) {base : Nat} (h : PageTablesWf dscr root s)
    (hsupplied : Supplied dscr root k (rangePages va n) s)
    (htiles : Tiles dscr root k s.words va (va + n * pageSize)) (haligned : va % pageSize = 0)
    (hspan : va + n * pageSize ≤ 2 ^ dscr.lvlWdt 0) (hpage : base % pageSize = 0)
    (hbase : base + n * pageSize ≤ 2 ^ 48) :
    ∃ t, memMap ⟨⟨root k, dscr⟩, type⟩ s va (some ⟨base, n⟩) n flags = some t ∧ PageTablesWf dscr root t ∧
      (∀ i < n, ∀ offset < pageSize, translate t.words ⟨root k, dscr⟩ (va + i * pageSize + offset) =
        some (base + i * pageSize + offset, (ptePageType ||| flags) &&& pteFlagsMsk)) ∧
      (∀ b, (∀ a, va ≤ a → a < va + n * pageSize → ¬(tables dscr root).Same dscr.last (k, a) b) →
        pageView dscr root t.words b = pageView dscr root s.words b) ∧
      (∀ p, t.words p ≠ s.words p → Entry dscr root t.words k p) ∧
      (∀ k p, Entry dscr root t.words k p → Entry dscr root s.words k p ∨ s.pool.FreeAt p) ∧
      ∀ p, t.pool.FreeAt p → s.pool.FreeAt p := by
  have hva : va / pageSize * pageSize = va := Nat.div_mul_cancel (Nat.dvd_of_mod_eq_zero haligned)
  obtain ⟨u, t, ht, hgrown, hmapped⟩ := memMap_mapped type flags h hsupplied
    (by rwa [hva]) hbase fun l hl => by
      rw [hva]
      exact htiles.covers hl hspan
  rw [hva] at hmapped
  refine ⟨t, ht, hmapped.wf, fun i hi offset hoffset => translate_page hmapped haligned hspan hpage hbase hi hoffset,
    fun b hb => ?_, fun p hne => ?_, fun k' p hp => hgrown.entries k' p (hmapped.entry_iff.mp hp), fun p hp => ?_⟩
  · rw [hmapped.others b fun j hj => hb _ (Nat.le_add_right _ _) ?_, hgrown.view]
    have hlt : j * pageSize < n * pageSize := Nat.mul_lt_mul_of_pos_right hj (by decide)
    omega
  · apply hmapped.entry_iff.mpr
    by_cases hp : u.words p = s.words p
    · apply hmapped.written p
      rw [hp]
      exact hne
    · exact hgrown.written p hp
  · rw [hmapped.pool] at hp
    exact hgrown.taken p hp

theorem memMap_none {as : AddrSpace} {pages : Ppages} {flags : Pte}
    (h : memAllocPpages s n false = some (pages, t)) (hpages : pages.nrPages = n) :
    memMap as s va none n flags = memMap as t va (some pages) n flags := by
  unfold memMap mapPpages
  rw [h]
  simp [hpages]

/-- The pages of an allocation are pages for `mem_map`. -/
theorem Allocated.pages {pool pool' : PagePool} {pages : Ppages} {bit : Nat} (hpool : pool.InMemory)
    (h : Allocated pool pool' n false pages bit) :
    pages.base % pageSize = 0 ∧ pages.base + n * pageSize ≤ 2 ^ 48 ∧
      ∀ i < n, pool.FreeAt (pages.base + i * pageSize) := by
  have hend := hpool.end_le
  have hinside : bit * pageSize + n * pageSize ≤ pool.nrPages * pageSize := by
    rw [← Nat.add_mul]
    exact Nat.mul_le_mul_right pageSize h.inside
  rw [h.base]
  refine ⟨hpool.page_aligned bit, by omega, fun i hi => ?_⟩
  have hin := h.inside
  have hwhere : pool.base + bit * pageSize + i * pageSize = pool.base + (bit + i) * pageSize := by
    rw [Nat.add_mul, Nat.add_assoc]
  refine ⟨bit + i, by omega, h.wasFree (bit + i) (Nat.le_add_right _ _) (by omega), hwhere.ge, ?_⟩
  have hpage : 0 < pageSize := by decide
  rw [hwhere, Nat.add_mul (bit + i), Nat.one_mul]
  omega

/-- In `t`, `n` pages of `k` from `va` on are mapped to those from `base` on, which are the caller's or fresh ones of
the pool, and nothing else is said differently than in `s`. -/
structure Installed (dscr : PtDscr) (root : κ → Nat) (k : κ) (s t : MmuState) (page : Option Ppages) (va n base : Nat)
    (flags : Pte) : Prop where
  wf : PageTablesWf dscr root t
  given : ∀ p, page = some p → base = p.base
  fresh : page = none → ∀ i < n, s.pool.FreeAt (base + i * pageSize)
  allocated : page = none → ∀ p, base ≤ p → p < base + n * pageSize → ¬t.pool.FreeAt p
  aligned : base % pageSize = 0
  end_le : base + n * pageSize ≤ 2 ^ 48
  pages : ∀ i < n, ∀ offset < pageSize, translate t.words ⟨root k, dscr⟩ (va + i * pageSize + offset) =
    some (base + i * pageSize + offset, (ptePageType ||| flags) &&& pteFlagsMsk)
  others : ∀ b, (∀ a, va ≤ a → a < va + n * pageSize → ¬(tables dscr root).Same dscr.last (k, a) b) →
    pageView dscr root t.words b = pageView dscr root s.words b
  written : ∀ p, t.words p ≠ s.words p → Entry dscr root s.words k p ∨ s.pool.FreeAt p
  entries : ∀ k' p, Entry dscr root t.words k' p → Entry dscr root s.words k' p ∨ s.pool.FreeAt p
  apart : page = none → ∀ k' p, Entry dscr root t.words k' p → ¬(base ≤ p ∧ p < base + n * pageSize)
  taken : ∀ p, t.pool.FreeAt p → s.pool.FreeAt p

/-- What was written behind `mem_alloc_vpage`, or hung up, was an entry or free before it. -/
theorem Reserves.entries_behind (h : Reserves dscr root k s t va n) {k' : κ} {p : Nat}
    (hp : Entry dscr root t.words k' p ∨ t.pool.FreeAt p) : Entry dscr root s.words k' p ∨ s.pool.FreeAt p :=
  hp.elim (h.entries k' p) fun hfree => .inr (h.taken p hfree)

/-- `mem_map` behind `mem_alloc_vpage`, with pages of the caller or of the pool. -/
theorem memMap_reserved (type : AsType) (flags : Pte) {page : Option Ppages} (h : Reserves dscr root k s t va n)
    (hn : 0 < n) (haligned : va % pageSize = 0) (hspan : va + n * pageSize ≤ 2 ^ dscr.lvlWdt 0)
    (hpages : PagesOf page n) (hdata : page = none → DataFresh dscr root k va n t) :
    ∃ base u, memMap ⟨⟨root k, dscr⟩, type⟩ t va page n flags = some u ∧
      Installed dscr root k s u page va n base flags := by
  cases page with
  | some p =>
    obtain ⟨hnr, hpage, hend⟩ := hpages p rfl
    obtain ⟨base, nrPages⟩ := p
    obtain rfl : nrPages = n := hnr
    obtain ⟨u, hu, hwf, hmaps, hothers, hwritten, hentries, htaken⟩ :=
      memMap_tiles type flags h.wf h.supplied h.tiles haligned hspan hpage hend
    refine ⟨base, u, hu, hwf, fun p hp => ?_, fun hnone => ?_, fun hnone => ?_, hpage, hend, hmaps, fun b hb => ?_,
      fun p hne => ?_, fun k' p hp => h.entries_behind (hentries k' p hp), fun hnone => ?_,
      fun p hp => h.taken p (htaken p hp)⟩
    · cases hp
      rfl
    · cases hnone
    · cases hnone
    · rw [hothers b hb, h.others b hb]
    · by_cases hp : t.words p = s.words p
      · rw [← hp] at hne
        exact h.entries_behind (hentries k p (hwritten p hne))
      · exact h.entries k p (h.written p hp)
    · cases hnone
  | none =>
    have hfresh := hdata rfl
    obtain ⟨bit, pages, t', halloc, hpages'⟩ := memAllocPpages_behind h.wf hn hfresh.count hfresh.behind
    obtain ⟨hpage, hend, hfree⟩ := hpages'.pages h.wf.pool
    obtain ⟨hwf', hwords⟩ := h.wf.allocated hn halloc hpages'
    have htiles := h.tiles
    rw [← hwords] at htiles
    obtain ⟨u, hu, hwf, hmaps, hothers, hwritten, hentries, htaken⟩ :=
      memMap_tiles type flags hwf' (hfresh.rest pages t' halloc) htiles haligned hspan hpage hend
    have hbefore {k' : κ} {p : Nat} (hp : Entry dscr root u.words k' p) :
        Entry dscr root t.words k' p ∨ t'.pool.FreeAt p := by
      rw [← hwords]
      exact hentries k' p hp
    refine ⟨pages.base, u, ?_, hwf, fun p hp => ?_, fun _ i hi => h.taken _ (hfree i hi), fun _ p hlow hhigh hp => ?_,
      hpage, hend, hmaps, fun b hb => ?_, fun p hne => ?_,
      fun k' p hp => h.entries_behind ((hbefore hp).imp_right hpages'.freeAt), fun _ k' p hp hin => ?_,
      fun p hp => h.taken p (hpages'.freeAt (htaken p hp))⟩
    · rw [memMap_none halloc hpages'.nrPages]
      obtain ⟨base, nrPages⟩ := pages
      obtain rfl : nrPages = n := hpages'.nrPages
      exact hu
    · cases hp
    · exact hpages'.not_freeAt hlow hhigh (htaken p hp)
    · rw [hothers b hb, hwords, h.others b hb]
    · rw [hwords] at hwritten
      by_cases hp : t.words p = s.words p
      · rw [← hp] at hne
        exact h.entries_behind ((hbefore (hwritten p hne)).imp_right hpages'.freeAt)
      · exact h.entries k p (h.written p hp)
    · rcases hbefore hp with hentry | hleft
      · exact h.wf.apart k' p hentry (hpages'.freeAt_of_mem hin.1 hin.2)
      · exact hpages'.not_freeAt hin.1 hin.2 hleft

/-- A place that is not the start of a page is refused. -/
theorem memAllocMap_misaligned (as : AddrSpace) (s : MmuState) (page : Option Ppages) (flags : Pte) {va n : Nat}
    (hgiven : va ≠ invalidVa) (hva : va % pageSize ≠ 0) :
    memAllocMap as s page va n flags = some (invalidVa, s) := by
  unfold memAllocMap memAllocVpage
  simp [hgiven, hva]

/-- A call for a range of pages in the span installs it if it was not in use, else only tables are hung up. -/
theorem memAllocMap_cases (type : AsType) (flags : Pte) {page : Option Ppages} (h : PageTablesWf dscr root s)
    (haligned : va % pageSize = 0) (hva : va ≠ invalidVa) (hspan : va + n * pageSize ≤ 2 ^ dscr.lvlWdt 0)
    (hpages : PagesOf page n) (hfresh : FreshPages dscr root type k s page va n) :
    ∃ r t, memAllocMap ⟨⟨root k, dscr⟩, type⟩ s page va n flags = some (r, t) ∧
      ((0 < n ∧ RangeUnused dscr root k s va n) ∧ r = va ∧ (∃ base, Installed dscr root k s t page va n base flags) ∨
        ¬(0 < n ∧ RangeUnused dscr root k s va n) ∧ r = invalidVa ∧ Grown dscr root k s t) := by
  obtain ⟨r, t, hr, hcases⟩ := memAllocVpage_spec type h hfresh.tables haligned hva hspan
  have hcall : memAllocMap ⟨⟨root k, dscr⟩, type⟩ s page va n flags =
      if r ≠ invalidVa then
        (memMap ⟨⟨root k, dscr⟩, type⟩ t r page n flags).map fun s => (r, s)
      else some (r, t) := by
    unfold memAllocMap
    rw [hr, Option.bind_some]
  rw [hcall]
  rcases hcases with ⟨hunused, rfl, hreserves⟩ | ⟨hused, rfl, hgrown⟩
  · obtain ⟨base, u, hu, hinstalled⟩ := memMap_reserved type flags hreserves hunused.1 haligned hspan hpages
      fun hnone => hfresh.data hnone t hr
    rw [if_pos hva, hu]
    exact ⟨r, u, rfl, .inl ⟨hunused, rfl, base, hinstalled⟩⟩
  · rw [if_neg (not_not.mpr rfl)]
    exact ⟨invalidVa, t, rfl, .inr ⟨hused, rfl, hgrown⟩⟩

/-- One call for a range of pages in the span. -/
theorem memAllocMap_spec (type : AsType) (flags : Pte) {page : Option Ppages} (h : PageTablesWf dscr root s)
    (haligned : va % pageSize = 0) (hva : va ≠ invalidVa) (hspan : va + n * pageSize ≤ 2 ^ dscr.lvlWdt 0)
    (hpages : PagesOf page n) (hfresh : FreshPages dscr root type k s page va n) :
    ∃ r t, memAllocMap ⟨⟨root k, dscr⟩, type⟩ s page va n flags = some (r, t) ∧ PageTablesWf dscr root t ∧
      AllocMaps ⟨root k, dscr⟩ s t page va n flags r := by
  obtain ⟨r, t, hr, hcases⟩ := memAllocMap_cases type flags h haligned hva hspan hpages hfresh
  refine ⟨r, t, hr, ?_⟩
  rcases hcases with ⟨hunused, rfl, base, hinstalled⟩ | ⟨hused, rfl, hgrown⟩
  · refine ⟨hinstalled.wf, ⟨⟨fun _ => ⟨hunused.1, ?_⟩, fun _ => rfl⟩, fun _ => ⟨base, hinstalled.given,
      hinstalled.fresh, hinstalled.pages, ?_⟩, fun hne => absurd rfl hne⟩⟩
    · exact (rangeUnused_iff h haligned hspan).mp hunused.2
    · refine sameOutside_of_view h hinstalled.wf fun b hlow hout => hinstalled.others _ fun a ha hlt => ?_
      exact not_same_of_outside haligned hspan hlow hout ha hlt
  · refine ⟨hgrown.wf, ⟨⟨fun heq => absurd heq.symm hva, fun hall => ?_⟩, fun heq => absurd heq.symm hva,
      fun _ => ⟨rfl, ?_⟩⟩⟩
    · exact absurd ⟨hall.1, (rangeUnused_iff h haligned hspan).mpr hall.2⟩ hused
    · exact sameOutside_of_view h hgrown.wf fun b _ _ => hgrown.view _

end

end Avisor
