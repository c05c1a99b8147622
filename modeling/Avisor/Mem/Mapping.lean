import Avisor.Mem.Growing
import Mathlib.Order.Interval.Finset.Nat

/-!
# Mapping

`mem_map` gives the pages of a range tables down to the last level and writes their entries there. It
trusts `mem_inflate_pt` for the tables, which passes over the last entry of a range that starts within
an entry: without a table from before, the last pages are then written through an entry that is none.
-/

universe u

namespace Avisor

open Function

variable {κ : Type u}

/-! ### The entries of the pages -/

/-- In `t`, the entries of `n` pages of `k` from `vaddr` on say the pages from `base` on, and nothing else
differs from `s`. -/
structure Mapped (dscr : PtDscr) (root : κ → Nat) (k : κ) (s t : MmuState) (vaddr n base : Nat)
    (flags : Pte) : Prop where
  wf : PageTablesWf dscr root t
  reaches : ∀ m b, m ≤ dscr.last →
    ((tables dscr root).Reaches t.words m b ↔ (tables dscr root).Reaches s.words m b)
  ptr : ∀ m b, m ≤ dscr.last → (tables dscr root).Reaches s.words m b →
    (tables dscr root).ptr t.words m b = (tables dscr root).ptr s.words m b
  pages : ∀ j < n, pageView dscr root t.words (k, vaddr + j * pageSize) =
    pteSet (base + j * pageSize) ptePageType flags
  others : ∀ b, (∀ j < n, ¬(tables dscr root).Same dscr.last (k, vaddr + j * pageSize) b) →
    pageView dscr root t.words b = pageView dscr root s.words b
  written : ∀ p, t.words p ≠ s.words p → Entry dscr root s.words k p
  pool : t.pool = s.pool

section

variable {dscr : PtDscr} {root : κ → Nat} {s t u : MmuState} {k : κ} {l m a va p : Nat}
  {b c : κ × Nat} {pages : Finset Nat} {type : AsType} {flags : Pte}

/-- Addresses with one entry at the last level are said the same. -/
theorem pageView_same {words : Nat → Pte} (h : (tables dscr root).Same dscr.last b c) :
    pageView dscr root words b = pageView dscr root words c := by
  have hb := RadixTable.stops_stop (tables dscr root) words b
  have hs := h.mono hb.le_last
  rw [pageView_eq hb, pageView_eq (hb.same hs), hs.ptr]

theorem pteSet_page_type (addr : Nat) (flags : Pte) :
    pteSet addr ptePageType flags &&& pteTypeMsk = ptePageType := pteSet_type addr flags

theorem pteValid_page (addr : Nat) (flags : Pte) : pteValid (pteSet addr ptePageType flags) = true :=
  pteValid_of_type (pteSet_page_type addr flags)

/-- A page that is written to its entry. -/
theorem Mapped.single (h : PageTablesWf dscr root s)
    (hreach : (tables dscr root).Reaches s.words dscr.last (k, va)) (base : Nat) (flags : Pte) :
    Mapped dscr root k s (s.setWord ((tables dscr root).ptr s.words dscr.last (k, va))
      (pteSet base ptePageType flags)) va 1 base flags := by
  have hstops : (tables dscr root).Stops s.words dscr.last (k, va) :=
    ⟨hreach, le_rfl, fun hne => absurd rfl hne⟩
  have htable (hne : dscr.last ≠ dscr.last) :
      (tables dscr root).isTable (pteSet base ptePageType flags) = false := absurd rfl hne
  refine ⟨h.store hstops (fun hne => absurd rfl hne) fun _ => pteSet_page_type base flags,
    fun m b hm => h.tree.reaches_update_iff hstops htable hm,
    fun m b hm hb => h.tree.ptr_update_stops hstops hb hm, fun j hj => ?_, fun b hb => ?_,
    fun p hne => ?_, rfl⟩
  · obtain rfl := Nat.lt_one_iff.mp hj
    rw [Nat.zero_mul, Nat.add_zero, Nat.add_zero]
    have hsame := RadixTable.Same.refl (T := tables dscr root) dscr.last (k, va)
    exact (pageView_store_same h hstops htable hsame).trans (pteView_of_valid (pteValid_page base flags))
  · have hne := hb 0 Nat.one_pos
    rw [Nat.zero_mul, Nat.add_zero] at hne
    exact pageView_store_of_ne h hstops hne
  · refine ⟨dscr.last, va, le_rfl, hreach, ?_⟩
    by_contra hp
    exact hne (update_of_ne hp ..)

theorem Mapped.entry_iff (h : Mapped dscr root k s t va m a flags) {k' : κ} :
    Entry dscr root t.words k' p ↔ Entry dscr root s.words k' p := by
  refine exists₂_congr fun l va => and_congr_right fun hl => ?_
  rw [h.reaches l (k', va) hl]
  refine and_congr_right fun hreach => ?_
  rw [h.ptr l (k', va) hl hreach]

/-- A page and the pages behind it. -/
theorem Mapped.cons {n base : Nat} (h : Mapped dscr root k s u va 1 base flags)
    (h' : Mapped dscr root k u t (va + pageSize) n (base + pageSize) flags)
    (hspan : va + (n + 1) * pageSize ≤ 2 ^ dscr.lvlWdt 0) :
    Mapped dscr root k s t va (n + 1) base flags := by
  have hstep (x j : Nat) : x + (j + 1) * pageSize = x + pageSize + j * pageSize := by
    rw [Nat.add_mul, Nat.one_mul, Nat.add_assoc, Nat.add_comm (j * pageSize)]
  have hfirst : ∀ j < n,
      ¬(tables dscr root).Same dscr.last (k, va + pageSize + j * pageSize) (k, va) := by
    intro j hj hsame
    have hlt : (j + 1) * pageSize < (n + 1) * pageSize :=
      Nat.mul_lt_mul_of_pos_right (Nat.succ_lt_succ hj) (by decide)
    rw [← hstep, same_last_iff (by omega) (by omega)] at hsame
    have hpage := hsame.2
    rw [Nat.add_mul_div_right _ _ (by decide)] at hpage
    omega
  refine ⟨h'.wf, fun m b hm => (h'.reaches m b hm).trans (h.reaches m b hm), fun m b hm hb => ?_,
    fun j hj => ?_, fun b hb => ?_, fun p hne => ?_, h'.pool.trans h.pool⟩
  · rw [h'.ptr m b hm ((h.reaches m b hm).mpr hb)]
    exact h.ptr m b hm hb
  · cases j with
    | zero =>
      have hpage := h.pages 0 Nat.one_pos
      simp only [Nat.zero_mul, Nat.add_zero] at hpage ⊢
      rw [h'.others _ hfirst]
      exact hpage
    | succ j =>
      rw [hstep, hstep]
      exact h'.pages j (Nat.lt_of_succ_lt_succ hj)
  · rw [h'.others b fun j hj => ?_, h.others b fun j hj => ?_]
    · obtain rfl := Nat.lt_one_iff.mp hj
      exact hb 0 (Nat.succ_pos n)
    · rw [← hstep]
      exact hb (j + 1) (Nat.succ_lt_succ hj)
  · by_cases hp : u.words p = s.words p
    · apply h.entry_iff.mp
      apply h'.written p
      rw [hp]
      exact hne
    · exact h.written p hp

theorem mapLoop_mapped (type : AsType) (flags : Pte) {left i base vaddr : Nat}
    (h : PageTablesWf dscr root s)
    (hreach : ∀ j < left, (tables dscr root).Reaches s.words dscr.last (k, vaddr + j * pageSize))
    (hspan : vaddr + left * pageSize ≤ 2 ^ dscr.lvlWdt 0)
    (hbase : base + (i + left) * pageSize ≤ 2 ^ 48) :
    Mapped dscr root k s (mapLoop ⟨⟨root k, dscr⟩, type⟩ base flags left i s vaddr) vaddr left
      (base + i * pageSize) flags := by
  induction left generalizing s i vaddr with
  | zero =>
    refine ⟨h, fun _ _ _ => Iff.rfl, fun _ _ _ _ => rfl, fun j hj => absurd hj (Nat.not_lt_zero j),
      fun _ _ => rfl, fun p hne => absurd rfl hne, rfl⟩
  | succ left ih =>
    have hfirst := hreach 0 (Nat.succ_pos left)
    rw [Nat.zero_mul, Nat.add_zero] at hfirst
    have hlast : dscr.lvls - 1 = dscr.last := rfl
    have hwdt : 2 ^ dscr.lvlWdt 0 ≤ 2 ^ 48 := Nat.pow_le_pow_right Nat.two_pos dscr.wdt_le
    have haddr : (vaddr + pageSize) % sizeT = vaddr + pageSize := by
      apply Nat.mod_eq_of_lt
      rw [Nat.add_mul] at hspan
      simp only [pageSize, sizeT] at hspan ⊢
      omega
    have hpaddr : (base + i * pageSize) % sizeT = base + i * pageSize := by
      apply Nat.mod_eq_of_lt
      simp only [pageSize, sizeT] at hbase ⊢
      omega
    unfold mapLoop
    simp only [hlast, ptGetPte_eq, MmuState.walk_of_reaches le_rfl hfirst, haddr, hpaddr]
    have hsingle := Mapped.single h hfirst (base + i * pageSize) flags
    refine hsingle.cons ?_ hspan
    rw [show base + i * pageSize + pageSize = base + (i + 1) * pageSize by
      rw [Nat.add_mul, Nat.one_mul, Nat.add_assoc]]
    refine ih hsingle.wf (fun j hj => ?_) ?_ ?_
    · rw [hsingle.reaches dscr.last _ le_rfl]
      have hnext := hreach (j + 1) (Nat.succ_lt_succ hj)
      rw [Nat.add_mul, Nat.one_mul, Nat.add_comm (j * pageSize), ← Nat.add_assoc] at hnext
      exact hnext
    · rw [Nat.add_mul, Nat.one_mul] at hspan
      omega
    · rw [Nat.add_assoc, Nat.add_comm 1]
      exact hbase

/-- A walk that leaves the tables is not forgotten. -/
theorem mapLoop_wild {as : AddrSpace} {left i base vaddr : Nat} (h : s.wild = true) :
    (mapLoop as base flags left i s vaddr).wild = true := by
  induction left generalizing s i vaddr with
  | zero => exact h
  | succ left ih =>
    apply ih
    simp only [MmuState.setWord, MmuState.walk, h, Bool.true_or]

/-- Where a page has no table, its walk leaves the tables. -/
theorem mapLoop_missed {left i base vaddr : Nat} (h : PageTablesWf dscr root s) (hm : m < dscr.last)
    (hmissed : ¬(tables dscr root).Reaches s.words (m + 1) (k, a))
    (hspan : vaddr + left * pageSize ≤ 2 ^ dscr.lvlWdt 0)
    (ha : ∃ j < left, (tables dscr root).Same dscr.last (k, vaddr + j * pageSize) (k, a)) :
    (mapLoop ⟨⟨root k, dscr⟩, type⟩ base flags left i s vaddr).wild = true := by
  induction left generalizing s i vaddr with
  | zero =>
    obtain ⟨j, hj, -⟩ := ha
    exact absurd hj (Nat.not_lt_zero j)
  | succ left ih =>
    have hwdt : 2 ^ dscr.lvlWdt 0 ≤ 2 ^ 48 := Nat.pow_le_pow_right Nat.two_pos dscr.wdt_le
    have haddr : (vaddr + pageSize) % sizeT = vaddr + pageSize := by
      apply Nat.mod_eq_of_lt
      rw [Nat.add_mul] at hspan
      simp only [pageSize, sizeT] at hspan ⊢
      omega
    have hlast : dscr.lvls - 1 = dscr.last := rfl
    unfold mapLoop
    by_cases hreach : (tables dscr root).Reaches s.words dscr.last (k, vaddr)
    · simp only [hlast, ptGetPte_eq, MmuState.walk_of_reaches le_rfl hreach, haddr]
      have hsingle := Mapped.single h hreach ((base + i * pageSize) % sizeT) flags
      refine ih hsingle.wf (fun hreached => ?_) ?_ ?_
      · exact hmissed ((hsingle.reaches (m + 1) (k, a) hm).mp hreached)
      · rw [Nat.add_mul, Nat.one_mul] at hspan
        omega
      · obtain ⟨j, hj, hsame⟩ := ha
        cases j with
        | zero =>
          rw [Nat.zero_mul, Nat.add_zero] at hsame
          exact absurd ((hsame.mono hm.le).reaches (hreach.mono hm)) hmissed
        | succ j =>
          refine ⟨j, Nat.lt_of_succ_lt_succ hj, ?_⟩
          rw [Nat.add_mul, Nat.one_mul, Nat.add_comm (j * pageSize), ← Nat.add_assoc] at hsame
          exact hsame
    · apply mapLoop_wild
      exact MmuState.walk_wild_of_not_reaches le_rfl hreach

/-! ### What is translated -/

theorem translate_page (h : Mapped dscr root k s t va m a flags) (hva : va % pageSize = 0)
    (hspan : va + m * pageSize ≤ 2 ^ dscr.lvlWdt 0) (ha : a % pageSize = 0)
    (hend : a + m * pageSize ≤ 2 ^ 48) {i offset : Nat} (hi : i < m) (hoffset : offset < pageSize) :
    translate t.words ⟨root k, dscr⟩ (va + i * pageSize + offset) =
      some (a + i * pageSize + offset, (ptePageType ||| flags) &&& pteFlagsMsk) := by
  have hle : (i + 1) * pageSize ≤ m * pageSize := Nat.mul_le_mul_right pageSize hi
  rw [Nat.add_mul, Nat.one_mul] at hle
  have hsame : (tables dscr root).Same dscr.last (k, va + i * pageSize + offset)
      (k, va + i * pageSize) := by
    rw [same_last_iff (by omega) (by omega)]
    refine ⟨rfl, ?_⟩
    simp only [pageSize] at hva hoffset ⊢
    omega
  have hoff : (va + i * pageSize + offset) % pageSize = offset := by
    simp only [pageSize] at hva hoffset ⊢
    omega
  have haligned : (a + i * pageSize) % pageSize = 0 := by
    rw [Nat.add_mul_mod_self_right]
    exact ha
  rw [translate_eq h.wf, pageView_same hsame, h.pages i hi, hoff,
    if_pos ⟨by omega, pteValid_page (a + i * pageSize) flags⟩,
    pteAddr_pteSet ptePageType flags haligned (by omega), pteSet_and_flags]

theorem translate_other (h : Mapped dscr root k s t va m a flags) (hs : PageTablesWf dscr root s)
    (hva : va % pageSize = 0) (hspan : va + m * pageSize ≤ 2 ^ dscr.lvlWdt 0) {k' : κ} {va' : Nat}
    (hout : ¬(k' = k ∧ va ≤ va' ∧ va' < va + m * pageSize)) :
    translate t.words ⟨root k', dscr⟩ va' = translate s.words ⟨root k', dscr⟩ va' := by
  rw [translate_eq h.wf, translate_eq hs]
  by_cases hlt : va' < 2 ^ dscr.lvlWdt 0
  · rw [h.others (k', va') fun j hj hsame => hout ?_]
    have hle : (j + 1) * pageSize ≤ m * pageSize := Nat.mul_le_mul_right pageSize hj
    rw [Nat.add_mul, Nat.one_mul] at hle
    have hpage : 0 < pageSize := by decide
    rw [same_last_iff (by omega) hlt] at hsame
    refine ⟨(hs.root_injective hsame.1).symm, ?_⟩
    have heq := hsame.2
    simp only [pageSize] at hva heq hle ⊢
    omega
  · rw [if_neg fun hboth => hlt hboth.1, if_neg fun hboth => hlt hboth.1]

/-- In `t`, the address space `k` translates `n` pages from `vaddr` on to those from `base` on; all other
translations are those of `s`, the walks were through tables, and only entries of `k` were written. -/
structure MapsPages (dscr : PtDscr) (root : κ → Nat) (k : κ) (s t : MmuState) (vaddr n base : Nat)
    (flags : Pte) : Prop where
  pages : ∀ i < n, ∀ offset < pageSize,
    translate t.words ⟨root k, dscr⟩ (vaddr + i * pageSize + offset) =
      some (base + i * pageSize + offset, (ptePageType ||| flags) &&& pteFlagsMsk)
  others : ∀ k' va', ¬(k' = k ∧ vaddr ≤ va' ∧ va' < vaddr + n * pageSize) →
    translate t.words ⟨root k', dscr⟩ va' = translate s.words ⟨root k', dscr⟩ va'
  walks : t.wild = false
  written : ∀ p, t.words p ≠ s.words p → Entry dscr root t.words k p

/-! ### The steps -/

/-- The steps of `mem_inflate_pt` at level `lvl` come to the last entry of a range, or its table is
there. -/
def StepsCover (words : Nat → Pte) (pt : PageTable) (va length lvl : Nat) : Prop :=
  va % ptLvlsize pt lvl + length ≤
      (length + ptLvlsize pt lvl - 1) / ptLvlsize pt lvl * ptLvlsize pt lvl ∨
    walkOk words pt (lvl + 1) (va + length - 1) = true

instance (words : Nat → Pte) (pt : PageTable) (va length lvl : Nat) :
    Decidable (StepsCover words pt va length lvl) :=
  inferInstanceAs (Decidable (_ ∨ _))

theorem visits_of_lt {pt : PageTable} {length : Nat} (hva : va ≤ a)
    (hlt : (a / ptLvlsize pt l - va / ptLvlsize pt l) * ptLvlsize pt l < length) :
    ∃ c, Visits pt l (va + length) va c ∧ c / ptLvlsize pt l = a / ptLvlsize pt l := by
  have hle : va / ptLvlsize pt l ≤ a / ptLvlsize pt l := Nat.div_le_div_right hva
  refine ⟨_, ⟨_, rfl, Nat.add_lt_add_left hlt va⟩, ?_⟩
  rw [Nat.add_mul_div_right _ _ (ptLvlsize_pos pt l)]
  omega

theorem covers_of_steps {length : Nat} {words : Nat → Pte} (hl : l < dscr.last)
    (hspan : va + length ≤ 2 ^ dscr.lvlWdt 0)
    (h : StepsCover words ⟨root k, dscr⟩ va length l) :
    Covers dscr root k words va (va + length) l := by
  intro a hva hlt
  have hpos := ptLvlsize_pos ⟨root k, dscr⟩ l
  generalize hsize : ptLvlsize ⟨root k, dscr⟩ l = size at hpos
  have hstart := Nat.div_add_mod' va size
  have haddr := Nat.div_add_mod' a size
  have hrest := Nat.mod_lt va hpos
  obtain ⟨j, hj⟩ := Nat.exists_eq_add_of_le (Nat.div_le_div_right (c := size) hva)
  by_cases hnear : j * size < length
  · left
    rw [← hsize] at hnear hj
    have hcount : a / ptLvlsize ⟨root k, dscr⟩ l - va / ptLvlsize ⟨root k, dscr⟩ l = j := by omega
    rw [← hcount] at hnear
    obtain ⟨c, hc, heq⟩ := visits_of_lt hva hnear
    exact ⟨c, hc, (same_iff_div hl.le (hc.choose_spec.2.trans_le hspan) (hlt.trans_le hspan)).mpr heq⟩
  · -- the address is behind the last step, in the last entry of the range
    have hfar : length ≤ j * size := Nat.le_of_not_lt hnear
    rw [hj, Nat.add_mul] at haddr
    rcases h with hsteps | hthere
    · rw [hsize] at hsteps
      have hcount : (length + size - 1) / size ≤ j := by
        apply Nat.le_of_lt_succ
        rw [Nat.div_lt_iff_lt_mul hpos, Nat.succ_mul]
        omega
      have hmul := Nat.mul_le_mul_right size hcount
      omega
    · right
      rw [walkOk_iff hl] at hthere
      refine RadixTable.Same.reaches ?_ hthere
      rw [same_iff_div hl.le (by omega) (hlt.trans_le hspan), hsize]
      apply Nat.le_antisymm
      · apply Nat.le_of_lt_succ
        rw [Nat.div_lt_iff_lt_mul hpos, Nat.succ_mul, hj, Nat.add_mul]
        omega
      · exact Nat.div_le_div_right (by omega)

/-- Where the steps do not cover a range, they pass over its last page. -/
theorem not_visited_of_steps {length : Nat} {words : Nat → Pte} (hl : l < dscr.last)
    (hlength : 0 < length) (hspan : va + length ≤ 2 ^ dscr.lvlWdt 0)
    (h : ¬StepsCover words ⟨root k, dscr⟩ va length l) :
    (¬∃ c, Visits ⟨root k, dscr⟩ l (va + length) va c ∧
      (tables dscr root).Same l (k, c) (k, va + length - 1)) ∧
      ¬(tables dscr root).Reaches words (l + 1) (k, va + length - 1) := by
  obtain ⟨hsteps, hmissed⟩ := not_or.mp h
  rw [walkOk_iff hl] at hmissed
  refine ⟨?_, hmissed⟩
  rintro ⟨c, ⟨j, rfl, hlt⟩, hsame⟩
  rw [same_iff_div hl.le (hlt.trans_le hspan) (by omega)] at hsame
  have hpos := ptLvlsize_pos ⟨root k, dscr⟩ l
  generalize hsize : ptLvlsize ⟨root k, dscr⟩ l = size at *
  rw [Nat.add_mul_div_right _ _ hpos] at hsame
  have hstart := Nat.div_add_mod' va size
  have hlast := Nat.div_add_mod' (va + length - 1) size
  have hrest := Nat.mod_lt (va + length - 1) hpos
  have hcount : (length + size - 1) / size ≤ j := by
    rw [← hsame, Nat.add_mul] at hlast
    have hlt' : (length + size - 1) / size * size < (j + 1) * size := by
      rw [Nat.succ_mul]
      omega
    exact Nat.le_of_lt_succ (Nat.lt_of_mul_lt_mul_right hlt')
  have hmul := Nat.mul_le_mul_right size hcount
  have hround := Nat.div_add_mod' (length + size - 1) size
  have hround' := Nat.mod_lt (length + size - 1) hpos
  omega

/-! ### `mem_map` -/

section Map

variable {n base : Nat}

theorem memMap_eq {as : AddrSpace} (hlength : n * pageSize < sizeT)
    (hspan : va / pageSize * pageSize + n * pageSize < sizeT) :
    memMap as s va (some ⟨base, n⟩) n flags =
      (inflateLevels as (va / pageSize * pageSize) (va / pageSize * pageSize + n * pageSize)
        as.pt.dscr.last s).map fun u => mapLoop as base flags n 0 u (va / pageSize * pageSize) := by
  have heq : memMap as s va (some ⟨base, n⟩) n flags =
      (memInflatePt as s (va / pageSize * pageSize) (n * pageSize % sizeT)).map fun u =>
        mapLoop as base flags n 0 u (va / pageSize * pageSize) := rfl
  rw [heq, memInflatePt_eq, Nat.mod_eq_of_lt hlength, Nat.mod_eq_of_lt hspan]

theorem ptSpan_le (pt : PageTable) : ptSpan pt ≤ 2 ^ 48 := by
  rw [ptSpan_eq]
  exact Nat.pow_le_pow_right Nat.two_pos pt.dscr.wdt_le

/-- The pages of a range. -/
theorem page_mem {vpage : Nat} (hva : vpage * pageSize ≤ a)
    (hlt : a < vpage * pageSize + n * pageSize) :
    a / pageSize ∈ Finset.Ico vpage (vpage + n) := by
  rw [← Nat.add_mul] at hlt
  rw [Finset.mem_Ico]
  exact ⟨(Nat.le_div_iff_mul_le (by decide)).mpr hva, (Nat.div_lt_iff_lt_mul (by decide)).mpr hlt⟩

/-- `mem_map` for a range whose tables the steps cover at all levels. -/
theorem memMap_mapped (type : AsType) (flags : Pte) (h : PageTablesWf dscr root s)
    (hroom : Supplied dscr root k (Finset.Ico (va / pageSize) (va / pageSize + n)) s)
    (hspan : va / pageSize * pageSize + n * pageSize ≤ 2 ^ dscr.lvlWdt 0) (hbase : base + n * pageSize ≤ 2 ^ 48)
    (hcovers : ∀ l < dscr.last, Covers dscr root k s.words (va / pageSize * pageSize)
      (va / pageSize * pageSize + n * pageSize) l) :
    ∃ u t, memMap ⟨⟨root k, dscr⟩, type⟩ s va (some ⟨base, n⟩) n flags = some t ∧ Grown dscr root k s u ∧
      Mapped dscr root k u t (va / pageSize * pageSize) n base flags := by
  have hle := hspan.trans (Nat.pow_le_pow_right Nat.two_pos dscr.wdt_le)
  have hbase' : base + (0 + n) * pageSize ≤ 2 ^ 48 := by
    rwa [Nat.zero_add]
  obtain ⟨u, hu, hgrown, -, hreach, -⟩ := inflateLevels_grown type h hroom le_rfl hle
    (fun a => page_mem) hcovers
  have hpages (j) (hj : j < n) :
      (tables dscr root).Reaches u.words dscr.last (k, va / pageSize * pageSize + j * pageSize) := by
    have hlt : j * pageSize < n * pageSize := Nat.mul_lt_mul_of_pos_right hj (by decide)
    exact hreach _ (Nat.le_add_right _ _) (Nat.add_lt_add_left hlt _)
  have hmapped := mapLoop_mapped type flags hgrown.wf hpages hspan hbase'
  rw [Nat.zero_mul, Nat.add_zero] at hmapped
  refine ⟨u, _, ?_, hgrown, hmapped⟩
  rw [memMap_eq (by simp only [sizeT]; omega) (by simp only [sizeT]; omega), hu, Option.map_some]

/-- A range that the steps cover at all levels is mapped. -/
theorem memMap_mapsPages (type : AsType) (flags : Pte) (h : PageTablesWf dscr root s)
    (hroom : Supplied dscr root k (Finset.Ico (va / pageSize) (va / pageSize + n)) s)
    (hspan : va / pageSize * pageSize + n * pageSize ≤ ptSpan ⟨root k, dscr⟩)
    (haligned : base % pageSize = 0) (hbase : base + n * pageSize ≤ 2 ^ 48)
    (hcover : ∀ l < dscr.last,
      StepsCover s.words ⟨root k, dscr⟩ (va / pageSize * pageSize) (n * pageSize) l) :
    ∃ t, memMap ⟨⟨root k, dscr⟩, type⟩ s va (some ⟨base, n⟩) n flags = some t ∧
      MapsPages dscr root k s t (va / pageSize * pageSize) n base flags := by
  have hspan : va / pageSize * pageSize + n * pageSize ≤ 2 ^ dscr.lvlWdt 0 := by
    rwa [ptSpan_eq] at hspan
  have hva : va / pageSize * pageSize % pageSize = 0 := Nat.mul_mod_left ..
  obtain ⟨u, t, ht, hgrown, hmapped⟩ := memMap_mapped type flags h hroom hspan hbase fun l hl =>
    covers_of_steps hl hspan (hcover l hl)
  refine ⟨t, ht, ⟨fun i hi offset hoffset => ?_, fun k' va' hout => ?_, hmapped.wf.tame, fun p hne => ?_⟩⟩
  · exact translate_page hmapped hva hspan haligned hbase hi hoffset
  · rw [translate_other hmapped hgrown.wf hva hspan hout, translate_eq hgrown.wf, translate_eq h,
      hgrown.view]
  · by_cases hp : u.words p = s.words p
    · apply hmapped.entry_iff.mpr
      apply hmapped.written p
      rw [hp]
      exact hne
    · exact hmapped.entry_iff.mpr (hgrown.written p hp)

/-- Where the steps do not cover a range, a walk leaves the tables. -/
theorem memMap_wild (type : AsType) (flags : Pte) (base : Nat) (h : PageTablesWf dscr root s)
    (hn : 0 < n)
    (hroom : Supplied dscr root k (Finset.Ico (va / pageSize) (va / pageSize + n)) s)
    (hspan : va / pageSize * pageSize + n * pageSize ≤ ptSpan ⟨root k, dscr⟩)
    (hcover : ¬∀ l < dscr.last,
      StepsCover s.words ⟨root k, dscr⟩ (va / pageSize * pageSize) (n * pageSize) l)
    (ht : memMap ⟨⟨root k, dscr⟩, type⟩ s va (some ⟨base, n⟩) n flags = some t) : t.wild = true := by
  have hle := hspan.trans (ptSpan_le ⟨root k, dscr⟩)
  have hlength : 0 < n * pageSize := Nat.mul_pos hn (by decide)
  have hspan : va / pageSize * pageSize + n * pageSize ≤ 2 ^ dscr.lvlWdt 0 := by
    rwa [ptSpan_eq] at hspan
  -- the first level that is not covered
  obtain ⟨m, ⟨hm, hmiss⟩, hbefore⟩ : ∃ m, (m < dscr.last ∧ ¬StepsCover s.words ⟨root k, dscr⟩
      (va / pageSize * pageSize) (n * pageSize) m) ∧ ∀ l < m, StepsCover s.words ⟨root k, dscr⟩
      (va / pageSize * pageSize) (n * pageSize) l := by
    obtain ⟨m, hm⟩ := not_forall.mp hcover
    have hex : ∃ m, m < dscr.last ∧ ¬StepsCover s.words ⟨root k, dscr⟩
      (va / pageSize * pageSize) (n * pageSize) m := ⟨m, Classical.not_imp.mp hm⟩
    refine ⟨Nat.find hex, Nat.find_spec hex, fun l hl => ?_⟩
    by_contra hnot
    exact Nat.find_min hex hl ⟨hl.trans (Nat.find_spec hex).1, hnot⟩
  obtain ⟨hvisit, hmissed⟩ := not_visited_of_steps hm hlength hspan hmiss
  rw [memMap_eq (by simp only [sizeT]; omega) (by simp only [sizeT]; omega)] at ht
  obtain ⟨u, hu, rfl⟩ := Option.map_eq_some_iff.mp ht
  have hlost := inflateLevels_lost h hroom hm hle (fun a => page_mem)
    (fun l hl => covers_of_steps (hl.trans hm) hspan (hbefore l hl)) hvisit hmissed hu
  rcases hlost with hwild | ⟨hwf, -, hmissed'⟩
  · exact mapLoop_wild hwild
  · refine mapLoop_missed hwf hm hmissed' hspan ⟨n - 1, Nat.sub_lt hn Nat.one_pos, ?_⟩
    have hpred : (n - 1) * pageSize + pageSize = n * pageSize := by
      rw [← Nat.succ_mul, Nat.succ_eq_add_one, Nat.sub_add_cancel hn]
    have hpage : 0 < pageSize := by decide
    rw [same_last_iff (by omega) (by omega)]
    refine ⟨rfl, ?_⟩
    have haligned : va / pageSize * pageSize % pageSize = 0 := Nat.mul_mod_left ..
    simp only [pageSize] at haligned hpred ⊢
    omega

theorem inside_of_mapsPages {vaddr : Nat} (hn : 0 < n)
    (h : MapsPages dscr root k s t vaddr n base flags) :
    vaddr + n * pageSize ≤ ptSpan ⟨root k, dscr⟩ := by
  have hpred : (n - 1) * pageSize + pageSize = n * pageSize := by
    rw [← Nat.succ_mul, Nat.succ_eq_add_one, Nat.sub_add_cancel hn]
  have hlast := h.pages (n - 1) (Nat.sub_lt hn Nat.one_pos) (pageSize - 1) (by decide)
  unfold translate at hlast
  split at hlast
  · rename_i hlt
    have hpage : 0 < pageSize := by decide
    omega
  · cases hlast

/-- With a page in the pool for each missing table, `mem_map` maps the range just if it lies in the span
and the steps cover it at each level. -/
theorem memMap_iff {type : AsType} (h : PageTablesWf dscr root s) (hn : 0 < n)
    (hroom : Supplied dscr root k (Finset.Ico (va / pageSize) (va / pageSize + n)) s)
    (haligned : base % pageSize = 0) (hbase : base + n * pageSize ≤ 2 ^ 48) :
    (∃ t, memMap ⟨⟨root k, dscr⟩, type⟩ s va (some ⟨base, n⟩) n flags = some t ∧
      MapsPages dscr root k s t (va / pageSize * pageSize) n base flags) ↔
      va / pageSize * pageSize + n * pageSize ≤ ptSpan ⟨root k, dscr⟩ ∧
        ∀ l < dscr.last,
          StepsCover s.words ⟨root k, dscr⟩ (va / pageSize * pageSize) (n * pageSize) l := by
  constructor
  · rintro ⟨t, ht, hmaps⟩
    have hspan := inside_of_mapsPages hn hmaps
    refine ⟨hspan, ?_⟩
    by_contra hcover
    have hwild := memMap_wild type flags base h hn hroom hspan hcover ht
    rw [hmaps.walks] at hwild
    cases hwild
  · rintro ⟨hspan, hcover⟩
    exact memMap_mapsPages type flags h hroom hspan haligned hbase hcover

end Map

/-! ### Zeroed tables -/

theorem zeroed_not_table : (tables dscr root).isTable (0 : Pte) = false := by
  show decide ((0 : Pte) &&& pteTypeMsk = pteTableType) = false
  decide

/-- The entries of the first tables are zero. -/
def ZeroRoots (dscr : PtDscr) (root : κ → Nat) (words : Nat → Pte) : Prop :=
  ∀ k, ∀ i < ptNentries ⟨root k, dscr⟩ 0, words (root k + 8 * i) = 0

theorem ZeroRoots.reaches {words : Nat → Pte} (hzero : ZeroRoots dscr root words)
    (h : (tables dscr root).Reaches words l b) : l = 0 := by
  cases l with
  | zero => rfl
  | succ l =>
    have htable : (tables dscr root).isTable (words (root b.1 + 8 * (tables dscr root).index 0 b)) = true :=
      h 0 (Nat.succ_pos l)
    rw [hzero b.1 _ (index_lt root b.1 (Nat.zero_le _) b.2), zeroed_not_table] at htable
    cases htable

/-- Tables that `as_init` leaves. -/
theorem ZeroRoots.wf (hzero : ZeroRoots dscr root s.words) (hpool : s.pool.InMemory)
    (hunlocked : s.poolLocked = false) (htame : s.wild = false) (hinjective : Injective root)
    (haligned : ∀ k, root k % ptSize ⟨root k, dscr⟩ 0 = 0) (hpos : ∀ k, 0 < root k)
    (hapart : ∀ k, ∀ i < ptNentries ⟨root k, dscr⟩ 0, ¬s.pool.FreeAt (root k + 8 * i)) :
    PageTablesWf dscr root s := by
  have hentry (b : κ × Nat) : s.words ((tables dscr root).ptr s.words 0 b) = 0 :=
    hzero b.1 _ (index_lt root b.1 (Nat.zero_le _) b.2)
  have hvalid0 : pteValid 0 = false := by decide
  refine ⟨fun l m b c hl hm hb hc heq => ?_, fun l b hl hb hvalid => ?_, fun l b hl hb => ?_,
    fun k p hp => ?_, fun k p hp => ?_, hpool, hunlocked, htame, haligned, hinjective⟩
  · obtain rfl := hzero.reaches hb
    obtain rfl := hzero.reaches hc
    have heq : root b.1 + 8 * (tables dscr root).index 0 b =
      root c.1 + 8 * (tables dscr root).index 0 c := heq
    have hb' := index_lt root b.1 (Nat.zero_le dscr.last) b.2
    have hc' := index_lt root c.1 (Nat.zero_le dscr.last) c.2
    have hroot : root b.1 = root c.1 := by
      have hentries : ptNentries ⟨root c.1, dscr⟩ 0 = ptNentries ⟨root b.1, dscr⟩ 0 := rfl
      have hball := haligned b.1
      have hcall := haligned c.1
      simp only [ptSize, hentries] at hball hcall
      rw [hentries] at hc'
      obtain ⟨x, hx⟩ := Nat.dvd_of_mod_eq_zero hball
      obtain ⟨y, hy⟩ := Nat.dvd_of_mod_eq_zero hcall
      generalize ptNentries ⟨root b.1, dscr⟩ 0 = entries at *
      have hquot (z i w : Nat) (hi : i < entries) (hw : w = entries * 8 * z) :
          (w + 8 * i) / (entries * 8) = z := by
        rw [hw, Nat.add_comm, Nat.add_mul_div_left _ _ (by omega),
          Nat.div_eq_of_lt (by omega), Nat.zero_add]
      have hxq := hquot x _ _ hb' hx
      rw [heq, hquot y _ _ hc' hy] at hxq
      rw [hx, hy, hxq]
    refine ⟨rfl, hroot, fun j hj => ?_⟩
    obtain rfl := Nat.le_zero.mp hj
    omega
  · obtain rfl := hzero.reaches hb
    rw [hentry, hvalid0] at hvalid
    cases hvalid
  · exact absurd (hzero.reaches hb) (Nat.succ_ne_zero l)
  · obtain ⟨l, va, -, hreach, rfl⟩ := hp
    obtain rfl := hzero.reaches hreach
    exact hapart k _ (index_lt root k (Nat.zero_le _) va)
  · obtain ⟨l, va, -, hreach, rfl⟩ := hp
    obtain rfl := hzero.reaches hreach
    exact Nat.add_pos_left (hpos k) _

/-- Zeroed tables in a memory of zeros. -/
def zeroedTables (pool : PagePool) : MmuState where
  words := fun _ => 0
  pool := pool
  poolLocked := false
  wild := false

theorem reaches_zeroed {pool : PagePool} (h : (tables dscr root).Reaches (zeroedTables pool).words l b) :
    l = 0 :=
  ZeroRoots.reaches (fun _ _ _ => rfl) h

theorem zeroedTables_wf {pool : PagePool} (hpool : pool.InMemory) (hinjective : Injective root)
    (haligned : ∀ k, root k % ptSize ⟨root k, dscr⟩ 0 = 0) (hpos : ∀ k, 0 < root k)
    (hapart : ∀ k, ∀ i < ptNentries ⟨root k, dscr⟩ 0, ¬pool.FreeAt (root k + 8 * i)) :
    PageTablesWf dscr root (zeroedTables pool) :=
  ZeroRoots.wf (fun _ _ _ => rfl) hpool rfl rfl hinjective haligned hpos hapart

end

/-- Eight free pages. -/
def eightPages : PagePool where
  base := 0x50000000
  nrPages := 8
  free := 8
  last := 0
  bitmap := fun _ => 0

theorem eightPages_inMemory : eightPages.InMemory where
  fits := by decide
  last_le := by decide
  free_le := by decide
  base_pos := by decide
  base_aligned := by decide
  end_le := by decide

/-- The table of one address space. -/
def oneRoot (_ : Unit) : Nat := 0x40000000

theorem oneRoot_wf : PageTablesWf armv8PtDscr oneRoot (zeroedTables eightPages) := by
  have hentries (k : Unit) : ptNentries ⟨oneRoot k, armv8PtDscr⟩ 0 = 512 := by
    cases k
    decide
  refine zeroedTables_wf eightPages_inMemory (fun _ _ _ => rfl) (fun k => ?_) (fun k => ?_)
    fun k i hi hfree => ?_
  · cases k
    decide
  · cases k
    decide
  · obtain ⟨bit, -, -, hlow, -⟩ := hfree
    rw [hentries] at hi
    simp only [eightPages, oneRoot, pageSize] at hlow
    omega

/-- The page behind address zero is mapped. -/
theorem memMap_iff_onePage :
    ∃ t, memMap ⟨⟨oneRoot (), armv8PtDscr⟩, .vm⟩ (zeroedTables eightPages) 0x1000
        (some ⟨0x80000000, 1⟩) 1 pteVmFlags = some t ∧
      MapsPages armv8PtDscr oneRoot () (zeroedTables eightPages) t (0x1000 / pageSize * pageSize) 1
        0x80000000 pteVmFlags := by
  refine (memMap_iff oneRoot_wf (by decide) ?_ (by decide) (by decide)).mpr ⟨by decide, ?_⟩
  · unfold Supplied
    decide
  · decide

/-- Two pages across the end of an entry of 2 MB, without tables: the second one is written through an
entry that is none. -/
theorem memMap_leaves : ¬∀ (dscr : PtDscr) (root : Unit → Nat) (s : MmuState) (va n base : Nat)
    (flags : Pte), PageTablesWf dscr root s → 0 < n →
    Supplied dscr root () (Finset.Ico (va / pageSize) (va / pageSize + n)) s →
    va / pageSize * pageSize + n * pageSize ≤ ptSpan ⟨root (), dscr⟩ →
    base % pageSize = 0 → base + n * pageSize ≤ 2 ^ 48 →
    ∃ t, memMap ⟨⟨root (), dscr⟩, .vm⟩ s va (some ⟨base, n⟩) n flags = some t ∧
      MapsPages dscr root () s t (va / pageSize * pageSize) n base flags := by
  intro hall
  have hroom : Supplied armv8PtDscr oneRoot ()
      (Finset.Ico (0x1ff000 / pageSize) (0x1ff000 / pageSize + 2)) (zeroedTables eightPages) := by
    unfold Supplied
    decide
  have hspan : 0x1ff000 / pageSize * pageSize + 2 * pageSize ≤ ptSpan ⟨oneRoot (), armv8PtDscr⟩ := by
    decide
  obtain ⟨t, ht, hmaps⟩ := hall armv8PtDscr oneRoot (zeroedTables eightPages) 0x1ff000 2 0x80000000
    pteVmFlags oneRoot_wf (by decide) hroom hspan (by decide) (by decide)
  have hwild := memMap_wild .vm pteVmFlags 0x80000000 oneRoot_wf (by decide) hroom hspan (by decide) ht
  rw [hmaps.walks] at hwild
  cases hwild

end Avisor
