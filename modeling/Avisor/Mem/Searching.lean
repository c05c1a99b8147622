import Avisor.Mem.Reserving
import Mathlib.Order.Interval.Finset.Nat

/-!
# The search for addresses

The first loop of `mem_alloc_vpage`, for a range at a given address. It comes from one end of the range to the other
over entries that are neither mapped nor reserved, with a table hung up wherever an entry is not all in the range;
or it ends at a page that is in use.
-/

universe u

namespace Avisor

open Function

variable {κ : Type u}

/-- The pages of a range. -/
def rangePages (va n : Nat) : Finset Nat := Finset.Ico (va / pageSize) (va / pageSize + n)

/-- The search for `n` pages at `va` has come to `x.addr`: it has hung up tables, and the entries from `va` up to
there are those of unused addresses. -/
structure Searching (dscr : PtDscr) (root : κ → Nat) (k : κ) (s : MmuState) (va n : Nat) (x : VpageSearch) :
    Prop where
  grown : Grown dscr root k s x.s
  supplied : Supplied dscr root k (rangePages va n) x.s
  failed : x.failed = false
  count : x.count ≤ n
  addr : x.addr = va + x.count * pageSize
  vpage : x.vpage = if x.count = 0 then invalidVa else va
  lvl : x.lvl ≤ dscr.last
  reaches : (tables dscr root).Reaches x.s.words x.lvl (k, x.addr)
  tiles : Tiles dscr root k x.s.words va x.addr
  unused : ∀ a, va ≤ a → a < x.addr → Unused dscr root x.s.words (k, a)

/-- The search for `n` pages at `va` has ended at a page that is in use. -/
structure SearchFailed (dscr : PtDscr) (root : κ → Nat) (k : κ) (s : MmuState) (va n : Nat) (x : VpageSearch) :
    Prop where
  grown : Grown dscr root k s x.s
  failed : x.failed = true
  vpage : x.vpage = invalidVa
  used : ∃ a, va ≤ a ∧ a < va + n * pageSize ∧ ¬Unused dscr root s.words (k, a)

/-- How far the search is from its end: a table to go down into takes one level, an entry that is counted at least
one page. -/
def VpageSearch.distance (x : VpageSearch) (dscr : PtDscr) (n : Nat) : Nat :=
  (n - x.count) * (dscr.last + 1) + (dscr.last - x.lvl)

/-- The three things that can happen at an entry. -/
inductive EntryStep (dscr : PtDscr) (root : κ → Nat) (k : κ) (va n : Nat) (x : VpageSearch) : VpageSearch → Prop
  | used (h : ¬Unused dscr root x.s.words (k, x.addr)) :
      EntryStep dscr root k va n x { x with count := 0, vpage := invalidVa, failed := true }
  | counted (hstops : (tables dscr root).Stops x.s.words x.lvl (k, x.addr))
      (hunused : Unused dscr root x.s.words (k, x.addr))
      (haligned : x.addr % ptLvlsize ⟨root k, dscr⟩ x.lvl = 0)
      (hfits : ptLvlsize ⟨root k, dscr⟩ x.lvl ≤ (n - x.count) * pageSize) :
      EntryStep dscr root k va n x { x with
        vpage := va
        count := x.count + ptLvlsize ⟨root k, dscr⟩ x.lvl / pageSize }
  | table {t : MmuState} (hlt : x.lvl < dscr.last) (hgrown : Grown dscr root k x.s t)
      (hsupplied : Supplied dscr root k (rangePages va n) t)
      (htiles : Tiles dscr root k t.words va x.addr)
      (hreach : (tables dscr root).Reaches t.words (x.lvl + 1) (k, x.addr)) :
      EntryStep dscr root k va n x { x with s := t }

section

variable {dscr : PtDscr} {root : κ → Nat} {s t : MmuState} {k : κ} {l a va n : Nat} {type : AsType}
  {x y : VpageSearch} {b c : κ × Nat}

theorem pageView_of_stops {words : Nat → Pte} (h : (tables dscr root).Stops words l b)
    (hs : (tables dscr root).Same l b c) : pageView dscr root words c = pageView dscr root words b := by
  rw [pageView_eq h, pageView_eq (h.same hs), hs.ptr]

/-- An entry that is not valid and not reserved. -/
theorem unused_of_stops {words : Nat → Pte} (h : (tables dscr root).Stops words l b)
    (hvalid : pteValid (words ((tables dscr root).ptr words l b)) = false)
    (hfree : pteCheckRsw (words ((tables dscr root).ptr words l b)) pteRswRsrv = false) :
    Unused dscr root words b := by
  constructor
  · rw [pageView_eq h, pteValid_pteView]
    exact hvalid
  · rw [pageView_eq h, pteCheckRsw_pteView]
    exact hfree

theorem unused_congr {words words' : Nat → Pte}
    (h : pageView dscr root words' b = pageView dscr root words c) :
    Unused dscr root words' b ↔ Unused dscr root words c := by
  constructor
  · rintro ⟨hu, hr⟩
    exact ⟨h ▸ hu, h ▸ hr⟩
  · rintro ⟨hu, hr⟩
    exact ⟨h.symm ▸ hu, h.symm ▸ hr⟩

/-- The page of an address of the range is one of its pages. -/
theorem mem_rangePages (haligned : va % pageSize = 0) (hva : va ≤ a) (hlt : a < va + n * pageSize) :
    a / pageSize ∈ rangePages va n := by
  unfold rangePages
  rw [Finset.mem_Ico]
  simp only [pageSize] at *
  omega

theorem Searching.wf (h : Searching dscr root k s va n x) : PageTablesWf dscr root x.s := h.grown.wf

/-- Before its end, the search is at a page of the range. -/
theorem Searching.addr_lt (h : Searching dscr root k s va n x) (hlt : x.count < n) :
    va ≤ x.addr ∧ x.addr < va + n * pageSize := by
  have hmul : x.count * pageSize < n * pageSize := Nat.mul_lt_mul_of_pos_right hlt (by decide)
  rw [h.addr]
  omega

theorem Searching.start (h : PageTablesWf dscr root s)
    (hsupplied : Supplied dscr root k (rangePages va n) s) :
    Searching dscr root k s va n ⟨s, 0, va, 0, invalidVa, false⟩ where
  grown := .refl h
  supplied := hsupplied
  failed := rfl
  count := Nat.zero_le n
  addr := by rw [Nat.zero_mul, Nat.add_zero]
  vpage := rfl
  lvl := Nat.zero_le _
  reaches := RadixTable.reaches_zero
  tiles := .nil va
  unused a ha hlt := absurd hlt (Nat.not_lt_of_le ha)

/-! ### One entry -/

/-- An entry that can be allocated is all in the range, from its start on. -/
theorem Searching.allocable (h : Searching dscr root k s va n x) (hlt : x.count < n)
    (haligned : va % pageSize = 0) {pte : Pte}
    (halloc : pteAllocable ⟨⟨root k, dscr⟩, type⟩ pte x.lvl (n - x.count) x.addr = true) :
    x.addr % ptLvlsize ⟨root k, dscr⟩ x.lvl = 0 ∧
      ptLvlsize ⟨root k, dscr⟩ x.lvl ≤ (n - x.count) * pageSize := by
  unfold pteAllocable at halloc
  rcases Bool.or_eq_true_iff.mp halloc with hlast | hinner
  · have hlvl : x.lvl = dscr.last := of_decide_eq_true hlast
    have hsize : ptLvlsize ⟨root k, dscr⟩ dscr.last = pageSize := ptLvlsize_last ⟨root k, dscr⟩
    rw [hlvl, hsize, h.addr, Nat.add_mul_mod_self_right]
    refine ⟨haligned, ?_⟩
    simp only [pageSize]
    omega
  · simp only [Bool.and_eq_true, decide_eq_true_eq] at hinner
    exact ⟨hinner.2, hinner.1.2.trans (Nat.mod_le _ _)⟩

/-- An entry at the last level can be allocated. -/
theorem lt_last_of_not_allocable {left addr lvl : Nat} {pte : Pte} (hlvl : lvl ≤ dscr.last)
    (halloc : pteAllocable ⟨⟨root k, dscr⟩, type⟩ pte lvl left addr = false) : lvl < dscr.last := by
  refine lt_of_le_of_ne hlvl fun heq => ?_
  have hlast : decide (lvl = dscr.lvls - 1) = true := decide_eq_true heq
  unfold pteAllocable at halloc
  rw [hlast, Bool.true_or] at halloc
  cases halloc

theorem vpageEntry_step (type : AsType) (h : Searching dscr root k s va n x) (hlt : x.count < n)
    (haligned : va % pageSize = 0) (hva : va ≠ invalidVa) (hspan : va + n * pageSize ≤ 2 ^ dscr.lvlWdt 0) :
    ∃ y, vpageEntry ⟨⟨root k, dscr⟩, type⟩ va n x ((tables dscr root).ptr x.s.words x.lvl (k, x.addr)) = some y ∧
      EntryStep dscr root k va n x y := by
  obtain ⟨hlow, hhigh⟩ := h.addr_lt hlt
  generalize hpte : x.s.words ((tables dscr root).ptr x.s.words x.lvl (k, x.addr)) = pte
  have hstops (htable : x.lvl < dscr.last → (tables dscr root).isTable pte = false) :
      (tables dscr root).Stops x.s.words x.lvl (k, x.addr) := by
    refine ⟨h.reaches, h.lvl, fun hne => ?_⟩
    rw [hpte]
    exact htable (lt_of_le_of_ne h.lvl hne)
  unfold vpageEntry
  simp only [hpte]
  by_cases hused : (pteCheckRsw pte pteRswRsrv || (pteValid pte && !pteTable ⟨root k, dscr⟩ x.lvl pte)) = true
  · rw [if_pos hused]
    refine ⟨_, by rw [decide_eq_true hva], .used fun hunused => ?_⟩
    rcases Bool.or_eq_true_iff.mp hused with hrsv | hvalid
    · -- a table is not reserved
      have hs := hstops fun hl => by
        rw [← Bool.not_eq_true]
        intro htable
        have hfree := h.wf.unreserved x.lvl (k, x.addr) hl (RadixTable.reaches_succ.mpr ⟨h.reaches, hpte ▸ htable⟩)
        rw [hpte, hrsv] at hfree
        cases hfree
      have hfree := hunused.unreserved
      rw [pageView_eq hs, pteCheckRsw_pteView, hpte, hrsv] at hfree
      cases hfree
    · obtain ⟨hvalid, htable⟩ := Bool.and_eq_true_iff.mp hvalid
      have hs := hstops fun hl => by
        rw [pteTable_eq hl, Bool.not_eq_true'] at htable
        exact htable
      have hfree := hunused.unmapped
      rw [pageView_eq hs, pteValid_pteView, hpte, hvalid] at hfree
      cases hfree
  · rw [if_neg hused]
    obtain ⟨hfree, hvalid⟩ := Bool.or_eq_false_iff.mp (Bool.eq_false_iff.mpr hused)
    cases hval : pteValid pte with
    | true =>
      rw [if_neg (by simp)]
      have htable : pteTable ⟨root k, dscr⟩ x.lvl pte = true := by simpa [hval] using hvalid
      have hl : x.lvl < dscr.last := by
        refine lt_of_le_of_ne h.lvl fun heq => ?_
        rw [heq, pteTable_last] at htable
        cases htable
      rw [pteTable_eq hl] at htable
      exact ⟨x, rfl, .table hl (.refl h.wf) h.supplied h.tiles
        (RadixTable.reaches_succ.mpr ⟨h.reaches, hpte.symm ▸ htable⟩)⟩
    | false =>
      rw [if_pos (by rfl)]
      have hs := hstops fun _ => by
        rw [← Bool.not_eq_true]
        intro htable
        rw [pteValid_of_type (of_decide_eq_true htable)] at hval
        cases hval
      cases halloc : pteAllocable ⟨⟨root k, dscr⟩, type⟩ pte x.lvl (n - x.count) x.addr with
      | true =>
        rw [if_pos rfl]
        obtain ⟨hstart, hfits⟩ := h.allocable hlt haligned halloc
        have hvpage : (if x.count = 0 then x.addr else x.vpage) = va := by
          split
          · rename_i hzero
            rw [h.addr, hzero, Nat.zero_mul, Nat.add_zero]
          · rename_i hne
            rw [h.vpage, if_neg hne]
        refine ⟨_, by rw [hvpage], .counted hs (unused_of_stops hs ?_ ?_) hstart hfits⟩
        · rw [hpte, hval]
        · rw [hpte, hfree]
      | false =>
        rw [if_neg (by simp)]
        have hl := lt_last_of_not_allocable h.lvl halloc
        have hpage := mem_rangePages haligned hlow hhigh
        have hmissed : ¬(tables dscr root).Reaches x.s.words (x.lvl + 1) (k, x.addr) := fun hreach =>
          absurd (hs.le_of_reaches hreach hl) (Nat.not_succ_le_self x.lvl)
        have hroom : 0 < x.s.pool.room := by
          have hcard := Finset.card_pos.mpr ⟨_, mem_missing_of hl hpage hmissed⟩
          have hsupplied := h.supplied
          unfold Supplied at hsupplied
          omega
        obtain ⟨page, t, hrun, hung, hpos, -⟩ := memAllocPt_hung type h.wf hl hs hroom
        rw [hrun, Option.bind_some, if_neg (Nat.ne_of_gt hpos)]
        exact ⟨_, rfl, .table hl hung.grown (hung.supplied hl hpage h.supplied)
          (h.tiles.hung hung hl le_rfl (hhigh.trans_le hspan)) hung.reached⟩

/-! ### The entries of a table -/

theorem Searching.used (h : Searching dscr root k s va n x) (hlt : x.count < n)
    (hused : ¬Unused dscr root x.s.words (k, x.addr)) :
    SearchFailed dscr root k s va n { x with count := 0, vpage := invalidVa, failed := true } where
  grown := h.grown
  failed := rfl
  vpage := rfl
  used := by
    obtain ⟨hlow, hhigh⟩ := h.addr_lt hlt
    exact ⟨x.addr, hlow, hhigh, fun hunused => hused ((unused_congr (h.grown.view _)).mpr hunused)⟩

/-- Down into the table of an entry. -/
theorem Searching.down (h : Searching dscr root k s va n x) (hlt : x.lvl < dscr.last)
    (hgrown : Grown dscr root k x.s t) (hsupplied : Supplied dscr root k (rangePages va n) t)
    (htiles : Tiles dscr root k t.words va x.addr)
    (hreach : (tables dscr root).Reaches t.words (x.lvl + 1) (k, x.addr)) :
    Searching dscr root k s va n { x with s := t, lvl := x.lvl + 1 } where
  grown := h.grown.trans hgrown
  supplied := hsupplied
  failed := h.failed
  count := h.count
  addr := h.addr
  vpage := h.vpage
  lvl := hlt
  reaches := hreach
  tiles := htiles
  unused a ha hle := (unused_congr (hgrown.view _)).mpr (h.unused a ha hle)

/-- The pages of an entry that is all in the range. -/
theorem counted_pages (pt : PageTable) (hl : l ≤ pt.dscr.last) {m : Nat} (hfits : ptLvlsize pt l ≤ m * pageSize) :
    0 < ptLvlsize pt l / pageSize ∧ ptLvlsize pt l / pageSize ≤ m ∧
      ptLvlsize pt l / pageSize * pageSize = ptLvlsize pt l := by
  have hsize := ptLvlsize_aligned pt hl
  have hpos := ptLvlsize_pos pt l
  generalize ptLvlsize pt l = size at *
  simp only [pageSize] at *
  omega

/-- Behind an entry that is counted, at a level where the next one is reached. -/
theorem Searching.next (h : Searching dscr root k s va n x) (hlt : x.count < n)
    (hspan : va + n * pageSize ≤ 2 ^ dscr.lvlWdt 0)
    (hstops : (tables dscr root).Stops x.s.words x.lvl (k, x.addr))
    (hunused : Unused dscr root x.s.words (k, x.addr))
    (haligned : x.addr % ptLvlsize ⟨root k, dscr⟩ x.lvl = 0)
    (hfits : ptLvlsize ⟨root k, dscr⟩ x.lvl ≤ (n - x.count) * pageSize) {lvl : Nat} (hlvl : lvl ≤ dscr.last)
    (hreach : (tables dscr root).Reaches x.s.words lvl (k, x.addr + ptLvlsize ⟨root k, dscr⟩ x.lvl)) :
    Searching dscr root k s va n { x with
      lvl := lvl
      addr := x.addr + ptLvlsize ⟨root k, dscr⟩ x.lvl
      count := x.count + ptLvlsize ⟨root k, dscr⟩ x.lvl / pageSize
      vpage := va } := by
  obtain ⟨hpos, hle, hpages⟩ := counted_pages ⟨root k, dscr⟩ h.lvl hfits
  have hcount : x.count + ptLvlsize ⟨root k, dscr⟩ x.lvl / pageSize ≤ n := by omega
  have haddr : x.addr + ptLvlsize ⟨root k, dscr⟩ x.lvl =
      va + (x.count + ptLvlsize ⟨root k, dscr⟩ x.lvl / pageSize) * pageSize := by
    rw [Nat.add_mul, hpages, h.addr, Nat.add_assoc]
  have hend : x.addr + ptLvlsize ⟨root k, dscr⟩ x.lvl ≤ 2 ^ dscr.lvlWdt 0 := by
    have hmul := Nat.mul_le_mul_right pageSize hcount
    omega
  refine ⟨h.grown, h.supplied, h.failed, hcount, haddr, ?_, hlvl, hreach, h.tiles.snoc hstops haligned,
    fun a ha hlt' => ?_⟩
  · rw [if_neg (by dsimp only; omega)]
  · rcases Nat.lt_or_ge a x.addr with hbefore | hin
    · exact h.unused a ha hbefore
    · have hsame := same_of_tile h.lvl haligned hin hlt' hend
      exact (unused_congr (pageView_of_stops hstops hsame)).mpr hunused

theorem distance_down (hlt : x.lvl < dscr.last) :
    { x with s := t, lvl := x.lvl + 1 }.distance dscr n < x.distance dscr n := by
  unfold VpageSearch.distance
  dsimp only
  omega

theorem distance_next (dscr : PtDscr) {d : Nat} (hpos : 0 < d) (hle : x.count + d ≤ n) (lvl addr vpage : Nat) :
    { x with lvl := lvl, addr := addr, count := x.count + d, vpage := vpage }.distance dscr n <
      x.distance dscr n := by
  have hsplit : n - x.count = n - (x.count + d) + d := by omega
  have hmul : dscr.last + 1 ≤ d * (dscr.last + 1) := Nat.le_mul_of_pos_left _ hpos
  unfold VpageSearch.distance
  dsimp only
  rw [hsplit, Nat.add_mul]
  omega

/-- The entries of a table, from the one where the search is on. -/
theorem vpageEntries_spec (type : AsType) (haligned : va % pageSize = 0) (hva : va ≠ invalidVa)
    (hspan : va + n * pageSize ≤ 2 ^ dscr.lvlWdt 0) (left : Nat) (h : Searching dscr root k s va n x)
    (hleft : (tables dscr root).index x.lvl (k, x.addr) + left = ptNentries ⟨root k, dscr⟩ x.lvl) :
    ∃ y, vpageEntries ⟨⟨root k, dscr⟩, type⟩ va n left x
        ((tables dscr root).ptr x.s.words x.lvl (k, x.addr)) = some y ∧
      (SearchFailed dscr root k s va n y ∨ Searching dscr root k s va n y ∧
        y.distance dscr n ≤ x.distance dscr n ∧ (x.count < n → y.distance dscr n < x.distance dscr n)) := by
  induction left generalizing x with
  | zero =>
    have hindex := index_lt root k h.lvl x.addr
    omega
  | succ left ih =>
    by_cases hlt : x.count < n
    · obtain ⟨y, hy, hstep⟩ := vpageEntry_step type h hlt haligned hva hspan
      have hfailed : ¬x.failed = true := by
        rw [h.failed]
        exact Bool.false_ne_true
      unfold vpageEntries
      rw [if_pos (by rw [decide_eq_true hlt, h.failed]; rfl), hy, Option.bind_some]
      cases hstep with
      | used hused => exact ⟨_, rfl, .inl (h.used hlt hused)⟩
      | table hl hgrown hsupplied htiles hreach =>
        have htable := (RadixTable.reaches_succ.mp hreach).2
        rw [(hgrown.keeps _ _ hl.le h.reaches).2, ← pteTable_eq hl] at htable
        rw [if_neg hfailed, if_pos htable]
        exact ⟨_, rfl, .inr ⟨h.down hl hgrown hsupplied htiles hreach, (distance_down hl).le,
          fun _ => distance_down hl⟩⟩
      | counted hstops hunused hstart hfits =>
        have htable : ¬pteTable ⟨root k, dscr⟩ x.lvl
            (x.s.words ((tables dscr root).ptr x.s.words x.lvl (k, x.addr))) = true := by
          rcases Nat.lt_or_eq_of_le h.lvl with hl | hl
          · rw [pteTable_eq hl, hstops.stop hl.ne]
            exact Bool.false_ne_true
          · rw [hl, pteTable_last]
            exact Bool.false_ne_true
        have hnext : (x.addr + ptLvlsize ⟨root k, dscr⟩ x.lvl) % sizeT =
            x.addr + ptLvlsize ⟨root k, dscr⟩ x.lvl :=
          next_eq ⟨root k, dscr⟩ h.lvl (hspan.trans (Nat.pow_le_pow_right Nat.two_pos dscr.wdt_le))
            (h.addr_lt hlt).2
        obtain ⟨hpos, hle, -⟩ := counted_pages ⟨root k, dscr⟩ h.lvl hfits
        have hcount : x.count + ptLvlsize ⟨root k, dscr⟩ x.lvl / pageSize ≤ n := by omega
        rw [if_neg hfailed, if_neg htable]
        dsimp only
        rw [hnext]
        by_cases hlast : left = 0
        · rw [if_pos hlast]
          refine ⟨_, rfl, .inr ⟨h.next hlt hspan hstops hunused hstart hfits (Nat.zero_le _)
            RadixTable.reaches_zero, ?_⟩⟩
          have hdist := distance_next dscr hpos hcount 0 (x.addr + ptLvlsize ⟨root k, dscr⟩ x.lvl) va
          exact ⟨hdist.le, fun _ => hdist⟩
        · rw [if_neg hlast]
          obtain ⟨hreach, hptr⟩ := ptr_next h.lvl h.reaches (by omega)
          have hindex := index_next root k h.lvl x.addr (by omega)
          have hmoved := h.next hlt hspan hstops hunused hstart hfits h.lvl hreach
          obtain ⟨y, hy, hend⟩ := ih hmoved (by dsimp only; omega)
          have hdist := distance_next dscr hpos hcount x.lvl (x.addr + ptLvlsize ⟨root k, dscr⟩ x.lvl) va
          rw [← hptr]
          refine ⟨y, hy, hend.imp_right fun ⟨hsearch, hle', _⟩ => ?_⟩
          exact ⟨hsearch, hle'.trans hdist.le, fun _ => hle'.trans_lt hdist⟩
    · unfold vpageEntries
      rw [decide_eq_false hlt, Bool.false_and, if_neg Bool.false_ne_true]
      exact ⟨x, rfl, .inr ⟨h, le_rfl, fun hlt' => absurd hlt' hlt⟩⟩

/-! ### The whole search -/

theorem vpageLoop_failed {as : AddrSpace} {fuel : Nat} (h : x.failed = true) :
    vpageLoop as va n (fuel + 1) x = some x := by
  unfold vpageLoop
  rw [h, Bool.not_true, Bool.and_false, if_neg Bool.false_ne_true]

/-- There are pages enough behind each address of the search. -/
theorem Searching.not_top (h : Searching dscr root k s va n x) (hlt : x.count < n)
    (hspan : va + n * pageSize ≤ 2 ^ dscr.lvlWdt 0) :
    ¬(decide (x.addr ≠ 0) && decide ((sizeT - x.addr) % sizeT / pageSize < n)) = true := by
  obtain ⟨-, hhigh⟩ := h.addr_lt hlt
  have hwdt : 2 ^ dscr.lvlWdt 0 ≤ 2 ^ 48 := Nat.pow_le_pow_right Nat.two_pos dscr.wdt_le
  rw [Bool.and_eq_true, decide_eq_true_eq, decide_eq_true_eq]
  rintro ⟨hne, hfew⟩
  rw [Nat.mod_eq_of_lt (Nat.sub_lt (by decide) (Nat.pos_of_ne_zero hne))] at hfew
  simp only [sizeT, pageSize] at *
  omega

theorem vpageLoop_spec (type : AsType) (haligned : va % pageSize = 0) (hva : va ≠ invalidVa)
    (hspan : va + n * pageSize ≤ 2 ^ dscr.lvlWdt 0) {fuel : Nat} (h : Searching dscr root k s va n x)
    (hfuel : x.distance dscr n < fuel) :
    ∃ y, vpageLoop ⟨⟨root k, dscr⟩, type⟩ va n fuel x = some y ∧
      (SearchFailed dscr root k s va n y ∨ Searching dscr root k s va n y ∧ y.count = n) := by
  induction fuel generalizing x with
  | zero => exact absurd hfuel (Nat.not_lt_zero _)
  | succ fuel ih =>
    by_cases hlt : x.count < n
    · have hindex := index_lt root k h.lvl x.addr
      obtain ⟨y, hy, hend⟩ := vpageEntries_spec type haligned hva hspan
        (ptNentries ⟨root k, dscr⟩ x.lvl - (tables dscr root).index x.lvl (k, x.addr)) h (by omega)
      have hround : vpageLoop ⟨⟨root k, dscr⟩, type⟩ va n (fuel + 1) x =
          vpageLoop ⟨⟨root k, dscr⟩, type⟩ va n fuel y := by
        rw [vpageLoop, if_pos (by rw [decide_eq_true hlt, h.failed]; rfl), if_neg (h.not_top hlt hspan)]
        simp only [ptGetPte_eq, ptGetpteindex_ptr h.wf h.lvl, MmuState.walk_of_reaches h.lvl h.reaches]
        rw [hy, Option.bind_some]
      rw [hround]
      rcases hend with hfailed | ⟨hsearch, -, hdist⟩
      · obtain ⟨rest, rfl⟩ : ∃ rest, fuel = rest + 1 :=
          Nat.exists_eq_add_one_of_ne_zero fun hzero => by
            have hpos : 0 < x.distance dscr n :=
              Nat.lt_of_lt_of_le (Nat.mul_pos (Nat.sub_pos_of_lt hlt) (Nat.succ_pos _)) (Nat.le_add_right _ _)
            omega
        exact ⟨y, vpageLoop_failed hfailed.failed, .inl hfailed⟩
      · exact ih hsearch (by have hless := hdist hlt; omega)
    · refine ⟨x, ?_, .inr ⟨h, Nat.le_antisymm h.count (Nat.le_of_not_lt hlt)⟩⟩
      unfold vpageLoop
      rw [decide_eq_false hlt, Bool.false_and, if_neg Bool.false_ne_true]

/-- The fuel of the search is enough for a range in the span. -/
theorem distance_start (dscr : PtDscr) (hspan : va + n * pageSize ≤ 2 ^ dscr.lvlWdt 0) :
    (⟨s, 0, va, 0, invalidVa, false⟩ : VpageSearch).distance dscr n <
      (dscr.lvls + 1) * (sizeT / pageSize + 1) := by
  have hwdt : 2 ^ dscr.lvlWdt 0 ≤ 2 ^ 48 := Nat.pow_le_pow_right Nat.two_pos dscr.wdt_le
  have hn : n + 1 ≤ sizeT / pageSize + 1 := by
    simp only [sizeT, pageSize] at *
    omega
  have hmul : (dscr.last + 1) * (n + 1) ≤ (dscr.last + 1) * (sizeT / pageSize + 1) :=
    Nat.mul_le_mul_left _ hn
  unfold VpageSearch.distance
  dsimp only
  rw [dscr.lvls_eq, Nat.sub_zero, Nat.sub_zero, Nat.add_mul (dscr.last + 1) 1, Nat.mul_comm n]
  rw [Nat.mul_add, Nat.mul_one] at hmul
  omega

end

end Avisor
