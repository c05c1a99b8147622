import Avisor.Mem.Clearing

/-!
# Unmapping

`mem_unmap` goes from entry to entry, with the level of the last one. Over an entry that is invalid it
steps by the size of the level from where it stands, which need not be the start of the entry; at the end
of a table it goes up one level at most, and the walk to the next entry trusts the levels before.
-/

universe u

namespace Avisor

open Function

/-! ### Where it comes to -/

section

variable (words : Nat → Pte) (pt : PageTable)

/-- Where `mem_unmap` goes on from `va`: behind a page at the end of its table, behind an invalid entry
as far from its end as `va` is from its start. -/
def unmapNext (va : Nat) : Nat :=
  if (translate words pt va).isSome then (va / ptLastSpan pt + 1) * ptLastSpan pt
  else va + ptLvlsize pt (walkEnd words pt va)

/-- The level at which it goes on. -/
def unmapLevel (va : Nat) : Nat :=
  if (translate words pt va).isSome then pt.dscr.lvls - 2 else walkEnd words pt va

/-- From `va` on, it comes to an entry through tables only, and passes over no page that is mapped. -/
structure UnmapSteps (top va : Nat) : Prop where
  walks : unmapNext words pt va < top →
    walkOk words pt (unmapLevel words pt va) (unmapNext words pt va) = true
  passes : translate words pt va = none → ∀ a, va ≤ a → a < unmapNext words pt va → a < top →
    translate words pt a = none

end

variable {κ : Type u}

section

variable {dscr : PtDscr} {root : κ → Nat} {s t u : MmuState} {k : κ} {l m a va bound top : Nat}
  {b : κ × Nat} {type : AsType} {free : Bool} {fuel lvl : Nat}

/-! ### Where it comes to, by the tables -/

theorem unmapNext_page {words : Nat → Pte} {pt : PageTable}
    (h : (translate words pt va).isSome = true) :
    unmapNext words pt va = (va / ptLastSpan pt + 1) * ptLastSpan pt ∧
      unmapLevel words pt va = pt.dscr.last - 1 := by
  unfold unmapNext unmapLevel
  rw [if_pos h, if_pos h]
  exact ⟨rfl, rfl⟩

theorem unmapNext_hole {words : Nat → Pte} {pt : PageTable}
    (h : (translate words pt va).isSome = false) :
    unmapNext words pt va = va + ptLvlsize pt (walkEnd words pt va) ∧
      unmapLevel words pt va = walkEnd words pt va := by
  unfold unmapNext unmapLevel
  rw [if_neg (Bool.eq_false_iff.mp h), if_neg (Bool.eq_false_iff.mp h)]
  exact ⟨rfl, rfl⟩

theorem lt_unmapNext (words : Nat → Pte) (pt : PageTable) (va : Nat) : va < unmapNext words pt va := by
  cases h : (translate words pt va).isSome with
  | false =>
    rw [(unmapNext_hole h).1]
    exact Nat.lt_add_of_pos_right (ptLvlsize_pos pt _)
  | true =>
    rw [(unmapNext_page h).1]
    exact (Nat.div_lt_iff_lt_mul (ptLastSpan_pos pt)).mp (Nat.lt_succ_self _)

theorem le_unmapNext_iterate (words : Nat → Pte) (pt : PageTable) (va i : Nat) :
    va ≤ (unmapNext words pt)^[i] va := by
  induction i generalizing va with
  | zero => exact le_rfl
  | succ i ih => exact (lt_unmapNext words pt va).le.trans (ih _)

theorem unmapNext_aligned (dscr : PtDscr) (root : κ → Nat) (k : κ) (words : Nat → Pte)
    (hva : va % pageSize = 0) :
    unmapNext words ⟨root k, dscr⟩ va % pageSize = 0 := by
  cases h : (translate words ⟨root k, dscr⟩ va).isSome with
  | false =>
    have hsize := ptLvlsize_aligned ⟨root k, dscr⟩ (walkEnd_le dscr root k words va)
    rw [(unmapNext_hole h).1, Nat.add_mod, hva, hsize]
    rfl
  | true =>
    rw [(unmapNext_page h).1, ptLastSpan_eq, ← Nat.mul_assoc]
    exact Nat.mul_mod_left ..

theorem unmapLevel_le (dscr : PtDscr) (root : κ → Nat) (k : κ) (words : Nat → Pte) (va : Nat) :
    unmapLevel words ⟨root k, dscr⟩ va ≤ dscr.last := by
  cases h : (translate words ⟨root k, dscr⟩ va).isSome with
  | false =>
    rw [(unmapNext_hole h).2]
    exact walkEnd_le dscr root k words va
  | true =>
    rw [(unmapNext_page h).2]
    exact Nat.sub_le ..

/-! ### The rounds -/

theorem reaches_or_stops {words : Nat → Pte} (hl : lvl ≤ dscr.last)
    (hreach : (tables dscr root).Reaches words lvl b) :
    lvl < dscr.last ∧ (tables dscr root).Reaches words (lvl + 1) b ∨
      (tables dscr root).Stops words lvl b := by
  by_cases htable : (tables dscr root).isTable (words ((tables dscr root).ptr words lvl b)) = true
  · rcases Nat.lt_or_eq_of_le hl with hlt | heq
    · exact .inl ⟨hlt, RadixTable.reaches_succ.mpr ⟨hreach, htable⟩⟩
    · exact .inr ⟨hreach, hl, fun hne => absurd heq hne⟩
  · exact .inr ⟨hreach, hl, fun _ => Bool.eq_false_iff.mpr htable⟩

/-- A page that is behind, or could only be given back, stays mapped, unless a walk leaves the tables. -/
theorem unmapLoop_keeps (h : PageTablesWf dscr root s) (hl : va < top → lvl ≤ dscr.last)
    (hva : va % pageSize = 0) (htop : top ≤ 2 ^ dscr.lvlWdt 0) (haligned : top % pageSize = 0)
    (ha : a < 2 ^ dscr.lvlWdt 0) (hview : pteValid (pageView dscr root s.words (k, a)) = true)
    (hkept : free = true ∨ a < va)
    (hrun : unmapLoop ⟨⟨root k, dscr⟩, type⟩ top free fuel s va lvl = some t) :
    t.wild = true ∨ (translate t.words ⟨root k, dscr⟩ a).isSome = true := by
  have hwdt : 2 ^ dscr.lvlWdt 0 ≤ 2 ^ 48 := Nat.pow_le_pow_right Nat.two_pos dscr.wdt_le
  induction fuel generalizing s va lvl with
  | zero => cases hrun
  | succ fuel ih =>
    by_cases hlt : va < top
    · by_cases hreach : (tables dscr root).Reaches s.words lvl (k, va)
      · rcases reaches_or_stops (hl hlt) hreach with ⟨hlast, hdown⟩ | hstops
        · rw [unmapLoop_down h hlast hlt hdown] at hrun
          exact ih h (fun _ => hlast) hva hview hkept hrun
        · cases hpage : pteValid (pageView dscr root s.words (k, va)) with
          | false =>
            rw [unmapLoop_over h hlt (htop.trans hwdt) hstops hpage] at hrun
            have hsize := ptLvlsize_aligned ⟨root k, dscr⟩ hstops.le_last
            refine ih h (fun _ => hl hlt) ?_ hview ?_ hrun
            · rw [Nat.add_mod, hva, hsize]
              rfl
            · exact hkept.imp_right fun hless => hless.trans_le (Nat.le_add_right va _)
          | true =>
            obtain rfl := stops_last h hstops hpage
            obtain ⟨u, lvl', hround, hcleared, hlvl⟩ :=
              unmapLoop_pages type free fuel h hlt hva htop haligned hreach hpage
            rw [hround] at hrun
            cases free with
            | true => cases hrun
            | false =>
              have hless : a < va := hkept.resolve_left (by decide)
              refine ih hcleared.wf (fun hmore => ?_) ?_ ?_ (.inr ?_) hrun
              · obtain ⟨-, rfl⟩ := hlvl (by omega)
                exact Nat.sub_le ..
              · have hnext : (va / ptLastSpan ⟨root k, dscr⟩ + 1) * ptLastSpan ⟨root k, dscr⟩ %
                    pageSize = 0 := by
                  rw [ptLastSpan_eq, ← Nat.mul_assoc]
                  exact Nat.mul_mod_left ..
                rcases Nat.le_total ((va / ptLastSpan ⟨root k, dscr⟩ + 1) *
                    ptLastSpan ⟨root k, dscr⟩) top with hle | hle
                · rw [Nat.min_eq_left hle, hnext]
                · rw [Nat.min_eq_right hle, haligned]
              · rw [hcleared.others (k, a) fun a' ha' hlt' hsame => ?_, hview]
                exact not_same_of_lt hva hless ha'
                  (hlt'.trans_le ((Nat.min_le_right ..).trans htop)) hsame.symm
              · have hnext := (Nat.div_lt_iff_lt_mul (ptLastSpan_pos ⟨root k, dscr⟩)).mp
                  (Nat.lt_succ_self (va / ptLastSpan ⟨root k, dscr⟩))
                exact hless.trans (Nat.lt_min.mpr ⟨hnext, hlt⟩)
      · exact .inl (unmapLoop_lost (hl hlt) hlt hreach hrun)
    · rw [unmapLoop_done (Nat.le_of_not_lt hlt)] at hrun
      cases hrun
      exact .inr ((translate_isSome h ha).trans hview)

/-- Addresses that are not mapped need not be cleared. -/
theorem Cleared.extend {start : Nat} (hs : PageTablesWf dscr root s)
    (h : Cleared dscr root k s t start m) (haligned : m % pageSize = 0) (hle : m ≤ bound)
    (hspan : bound ≤ 2 ^ dscr.lvlWdt 0)
    (hnone : ∀ a, m ≤ a → a < bound → translate s.words ⟨root k, dscr⟩ a = none) :
    Cleared dscr root k s t start bound where
  wf := h.wf
  reaches := h.reaches
  ptr := h.ptr
  gone a hlow hlt := by
    rcases Nat.lt_or_ge a m with ham | ham
    · exact h.gone a hlow ham
    · rw [h.others (k, a) fun a' _ hlt' =>
        not_same_of_lt haligned hlt' ham (hlt.trans_le hspan)]
      exact (translate_eq_none hs (hlt.trans_le hspan)).mp (hnone a ham hlt)
  others b hb := h.others b fun a hlow hlt => hb a hlow (hlt.trans_le hle)
  written := h.written
  pool := h.pool

/-- The loop has come to `va`: up to there the range from `start` is cleared, and the tables are as they
were. -/
structure Comes (dscr : PtDscr) (root : κ → Nat) (k : κ) (s u : MmuState) (start top va : Nat) :
    Prop where
  before : PageTablesWf dscr root s
  cleared : Cleared dscr root k s u start (min va top)
  start_le : start ≤ va
  aligned : va % pageSize = 0
  top_le : top ≤ 2 ^ dscr.lvlWdt 0
  top_aligned : top % pageSize = 0

theorem Comes.view {start : Nat} (h : Comes dscr root k s u start top va) (ha : va ≤ a) (hlt : a < top) :
    pageView dscr root u.words (k, a) = pageView dscr root s.words (k, a) := by
  refine h.cleared.others (k, a) fun a' _ hlt' => ?_
  exact not_same_of_lt h.aligned (Nat.lt_min.mp hlt').1 ha (hlt.trans_le h.top_le)

/-- At an address that is not translated, the loop is on the level where its walk ends. -/
theorem Comes.level_eq {start : Nat} (h : Comes dscr root k s u start top va)
    (hstops : (tables dscr root).Stops u.words lvl (k, va))
    (hnone : translate s.words ⟨root k, dscr⟩ va = none) :
    unmapLevel s.words ⟨root k, dscr⟩ va = lvl := by
  rw [(unmapNext_hole (Option.isSome_eq_false_iff.mpr (Option.isNone_iff_eq_none.mpr hnone))).2,
    walkEnd_eq]
  exact ((RadixTable.stops_congr h.cleared.reaches).mp hstops).eq_stop.symm

/-- A round at an address that is not translated. -/
theorem Comes.hole {start : Nat} (h : Comes dscr root k s u start top va) (hlt : va < top)
    (hstops : (tables dscr root).Stops u.words lvl (k, va))
    (hnone : translate s.words ⟨root k, dscr⟩ va = none) :
    unmapLoop ⟨⟨root k, dscr⟩, type⟩ top free (fuel + 1) u va lvl =
      unmapLoop ⟨⟨root k, dscr⟩, type⟩ top free fuel u (unmapNext s.words ⟨root k, dscr⟩ va) lvl := by
  have hwdt : 2 ^ dscr.lvlWdt 0 ≤ 2 ^ 48 := Nat.pow_le_pow_right Nat.two_pos dscr.wdt_le
  have hview := (translate_eq_none h.before (hlt.trans_le h.top_le)).mp hnone
  have hsome := Option.isSome_eq_false_iff.mpr (Option.isNone_iff_eq_none.mpr hnone)
  rw [← h.view le_rfl hlt] at hview
  rw [(unmapNext_hole hsome).1, ← (unmapNext_hole hsome).2, h.level_eq hstops hnone]
  exact unmapLoop_over h.cleared.wf hlt (h.top_le.trans hwdt) hstops hview

/-- Behind a round that passes over no page. -/
theorem Comes.next {start : Nat} (h : Comes dscr root k s u start top va)
    (hpasses : ∀ a, va ≤ a → a < unmapNext s.words ⟨root k, dscr⟩ va → a < top →
      translate s.words ⟨root k, dscr⟩ a = none) :
    Comes dscr root k s u start top (unmapNext s.words ⟨root k, dscr⟩ va) where
  before := h.before
  cleared := by
    have hnext := lt_unmapNext s.words ⟨root k, dscr⟩ va
    have hle := (Nat.min_le_right (unmapNext s.words ⟨root k, dscr⟩ va) top).trans h.top_le
    rcases Nat.le_total va top with hva | hva
    · have hcleared := h.cleared
      rw [Nat.min_eq_left hva] at hcleared
      refine hcleared.extend h.before h.aligned (Nat.le_min.mpr ⟨hnext.le, hva⟩) hle
        fun a hlow hlt => ?_
      exact hpasses a hlow (Nat.lt_min.mp hlt).1 (Nat.lt_min.mp hlt).2
    · have hcleared := h.cleared
      rw [Nat.min_eq_right hva] at hcleared
      rw [Nat.min_eq_right (hva.trans hnext.le)]
      exact hcleared
  start_le := h.start_le.trans (lt_unmapNext s.words ⟨root k, dscr⟩ va).le
  aligned := unmapNext_aligned dscr root k s.words h.aligned
  top_le := h.top_le
  top_aligned := h.top_aligned

/-- A round at a page, unless the pages are to be given back. -/
theorem Comes.page {start : Nat} (type : AsType) (fuel : Nat) (h : Comes dscr root k s u start top va)
    (hlt : va < top) (hstops : (tables dscr root).Stops u.words lvl (k, va))
    (hsome : (translate s.words ⟨root k, dscr⟩ va).isSome = true) :
    ∃ u' lvl', unmapLoop ⟨⟨root k, dscr⟩, type⟩ top false (fuel + 1) u va lvl =
        unmapLoop ⟨⟨root k, dscr⟩, type⟩ top false fuel u'
          (min (unmapNext s.words ⟨root k, dscr⟩ va) top) lvl' ∧
      Comes dscr root k s u' start top (min (unmapNext s.words ⟨root k, dscr⟩ va) top) ∧
      (unmapNext s.words ⟨root k, dscr⟩ va < top →
        lvl' = unmapLevel s.words ⟨root k, dscr⟩ va) := by
  have hview := (translate_isSome h.before (hlt.trans_le h.top_le)).symm.trans hsome
  rw [← h.view le_rfl hlt] at hview
  obtain rfl := stops_last h.cleared.wf hstops hview
  obtain ⟨hnext, hlevel⟩ := unmapNext_page hsome
  obtain ⟨u', lvl', hround, hcleared, hlvl⟩ := unmapLoop_pages type false fuel
    h.cleared.wf hlt h.aligned h.top_le h.top_aligned hstops.reaches hview
  rw [← hnext] at hround hcleared hlvl
  have hva := lt_unmapNext s.words ⟨root k, dscr⟩ va
  have hbefore := h.cleared
  rw [Nat.min_eq_left hlt.le] at hbefore
  refine ⟨u', lvl', hround, ⟨h.before, ?_, h.start_le.trans (Nat.le_min.mpr ⟨hva.le, hlt.le⟩), ?_, h.top_le,
    h.top_aligned⟩, fun hmore => ?_⟩
  · rw [Nat.min_eq_left (Nat.min_le_right _ top)]
    exact hbefore.trans hcleared h.aligned h.start_le (Nat.le_min.mpr ⟨hva.le, hlt.le⟩)
      ((Nat.min_le_right ..).trans h.top_le)
  · rcases Nat.le_total (unmapNext s.words ⟨root k, dscr⟩ va) top with hle | hle
    · rw [Nat.min_eq_left hle]
      exact unmapNext_aligned dscr root k s.words h.aligned
    · rw [Nat.min_eq_right hle]
      exact h.top_aligned
  · rw [(hlvl hmore).2, hlevel]

theorem rounds_lt {next : Nat} (hlt : va < top) (htop : top % pageSize = va % pageSize) (hnext : va < next)
    (haligned : next % pageSize = va % pageSize) : (top - next) / pageSize < (top - va) / pageSize := by
  simp only [pageSize] at *
  omega

/-- Where each step is to an entry through tables and over no page, the range is cleared. -/
theorem Comes.run {start : Nat} (h : Comes dscr root k s u start top va)
    (hfuel : 2 * ((top - va) / pageSize) + (dscr.last - lvl) < fuel)
    (hl : va < top → lvl ≤ dscr.last ∧ (tables dscr root).Reaches s.words lvl (k, va))
    (hfree : free = true → ∀ a, start ≤ a → a < top → translate s.words ⟨root k, dscr⟩ a = none)
    (hsteps : ∀ i, (unmapNext s.words ⟨root k, dscr⟩)^[i] va < top →
      UnmapSteps s.words ⟨root k, dscr⟩ top ((unmapNext s.words ⟨root k, dscr⟩)^[i] va)) :
    ∃ t, unmapLoop ⟨⟨root k, dscr⟩, type⟩ top free fuel u va lvl = some t ∧
      Cleared dscr root k s t start top := by
  induction fuel generalizing u va lvl with
  | zero => exact absurd hfuel (Nat.not_lt_zero _)
  | succ fuel ih =>
    by_cases hlt : va < top
    · obtain ⟨hlast, hreach⟩ := hl hlt
      have hstep := hsteps 0 hlt
      have hreach' := (h.cleared.reaches lvl (k, va) hlast).mpr hreach
      have hnext := lt_unmapNext s.words ⟨root k, dscr⟩ va
      have hrounds := rounds_lt hlt (h.top_aligned.trans h.aligned.symm) hnext
        ((unmapNext_aligned dscr root k s.words h.aligned).trans h.aligned.symm)
      have hlevel (hmore : unmapNext s.words ⟨root k, dscr⟩ va < top) :
          unmapLevel s.words ⟨root k, dscr⟩ va ≤ dscr.last ∧ (tables dscr root).Reaches s.words
            (unmapLevel s.words ⟨root k, dscr⟩ va) (k, unmapNext s.words ⟨root k, dscr⟩ va) := by
        have hle := unmapLevel_le dscr root k s.words va
        exact ⟨hle, (walkOk_iff hle).mp (hstep.walks hmore)⟩
      rcases reaches_or_stops hlast hreach' with ⟨hmore, hdown⟩ | hstops
      · rw [unmapLoop_down h.cleared.wf hmore hlt hdown]
        refine ih h (by omega) (fun _ => ⟨hmore, ?_⟩) hsteps
        exact (h.cleared.reaches (lvl + 1) (k, va) hmore).mp hdown
      · cases hsome : (translate s.words ⟨root k, dscr⟩ va).isSome with
        | false =>
          have hnone := Option.isNone_iff_eq_none.mp (Option.isSome_eq_false_iff.mp hsome)
          rw [h.level_eq hstops hnone] at hlevel
          rw [h.hole hlt hstops hnone]
          exact ih (h.next (hstep.passes hnone)) (by omega) hlevel fun i => hsteps (i + 1)
        | true =>
          cases free with
          | true =>
            rw [hfree rfl va h.start_le hlt] at hsome
            cases hsome
          | false =>
            obtain ⟨u', lvl', hround, hcomes, hlvl⟩ := h.page type fuel hlt hstops hsome
            rw [hround]
            rcases Nat.lt_or_ge (unmapNext s.words ⟨root k, dscr⟩ va) top with hmore | hdone
            · have hup : unmapLevel s.words ⟨root k, dscr⟩ va = dscr.last - 1 := (unmapNext_page hsome).2
              rw [Nat.min_eq_left hmore.le] at hcomes ⊢
              rw [hlvl hmore]
              exact ih hcomes (by omega) hlevel fun i => hsteps (i + 1)
            · rw [Nat.min_eq_right hdone] at hcomes ⊢
              have hround : 0 < (top - va) / pageSize := Nat.zero_lt_of_lt hrounds
              obtain ⟨rounds, rfl⟩ := Nat.exists_eq_add_of_lt (by omega : 0 < fuel)
              have hcleared := hcomes.cleared
              rw [Nat.min_self] at hcleared
              exact ⟨u', unmapLoop_done le_rfl, hcleared⟩
    · have hcleared := h.cleared
      rw [Nat.min_eq_right (Nat.le_of_not_lt hlt)] at hcleared
      exact ⟨u, unmapLoop_done (Nat.le_of_not_lt hlt), hcleared⟩

/-- If the range is cleared behind walks through tables, each step was such a one. -/
theorem Comes.steps {start : Nat} (h : Comes dscr root k s u start top va)
    (hl : va < top → lvl ≤ dscr.last ∧ (tables dscr root).Reaches s.words lvl (k, va))
    (hrun : unmapLoop ⟨⟨root k, dscr⟩, type⟩ top free fuel u va lvl = some t) (htame : t.wild = false)
    (hgone : ∀ a, start ≤ a → a < top → translate t.words ⟨root k, dscr⟩ a = none) (i : Nat)
    (hi : (unmapNext s.words ⟨root k, dscr⟩)^[i] va < top) :
    UnmapSteps s.words ⟨root k, dscr⟩ top ((unmapNext s.words ⟨root k, dscr⟩)^[i] va) := by
  induction fuel generalizing u va lvl i with
  | zero => cases hrun
  | succ fuel ih =>
    have hlt : va < top := (le_unmapNext_iterate ..).trans_lt hi
    obtain ⟨hlast, hreach⟩ := hl hlt
    have hreach' := (h.cleared.reaches lvl (k, va) hlast).mpr hreach
    have hle := unmapLevel_le dscr root k s.words va
    rcases reaches_or_stops hlast hreach' with ⟨hmore, hdown⟩ | hstops
    · rw [unmapLoop_down h.cleared.wf hmore hlt hdown] at hrun
      refine ih h (fun _ => ⟨hmore, ?_⟩) hrun i hi
      exact (h.cleared.reaches (lvl + 1) (k, va) hmore).mp hdown
    · cases hsome : (translate s.words ⟨root k, dscr⟩ va).isSome with
      | false =>
        have hnone := Option.isNone_iff_eq_none.mp (Option.isSome_eq_false_iff.mp hsome)
        rw [h.hole hlt hstops hnone] at hrun
        have haligned := unmapNext_aligned dscr root k s.words h.aligned
        -- a page that is passed over would stay mapped
        have hpasses (a) (hlow : va ≤ a) (hhigh : a < unmapNext s.words ⟨root k, dscr⟩ va)
            (ha : a < top) : translate s.words ⟨root k, dscr⟩ a = none := by
          rw [translate_eq_none h.before (ha.trans_le h.top_le), ← h.view hlow ha, ← Bool.not_eq_true]
          intro hmapped
          rcases unmapLoop_keeps h.cleared.wf (fun _ => hlast) haligned h.top_le h.top_aligned
            (ha.trans_le h.top_le) hmapped (.inr hhigh) hrun with hwild | hstill
          · rw [htame] at hwild
            cases hwild
          · rw [hgone a (h.start_le.trans hlow) ha] at hstill
            cases hstill
        have hwalks (hmore : unmapNext s.words ⟨root k, dscr⟩ va < top) :
            (tables dscr root).Reaches s.words lvl (k, unmapNext s.words ⟨root k, dscr⟩ va) := by
          by_contra hlost
          rw [← h.cleared.reaches lvl _ hlast] at hlost
          rw [unmapLoop_lost hlast hmore hlost hrun] at htame
          cases htame
        cases i with
        | zero =>
          refine ⟨fun hmore => (walkOk_iff hle).mpr ?_, fun _ => hpasses⟩
          have hlevel := h.level_eq hstops hnone
          exact hlevel ▸ hwalks hmore
        | succ i => exact ih (h.next hpasses) (fun hmore => ⟨hlast, hwalks hmore⟩) hrun i hi
      | true =>
        cases free with
        | true =>
          have hmapped := (translate_isSome h.before (hlt.trans_le h.top_le)).symm.trans hsome
          rw [← h.view le_rfl hlt] at hmapped
          rcases unmapLoop_keeps h.cleared.wf (fun _ => hlast) h.aligned h.top_le h.top_aligned
            (hlt.trans_le h.top_le) hmapped (.inl rfl) hrun with hwild | hstill
          · rw [htame] at hwild
            cases hwild
          · rw [hgone va h.start_le hlt] at hstill
            cases hstill
        | false =>
          obtain ⟨u', lvl', hround, hcomes, hlvl⟩ := h.page type fuel hlt hstops hsome
          rw [hround] at hrun
          have hwalks (hmore : unmapNext s.words ⟨root k, dscr⟩ va < top) :
              (tables dscr root).Reaches s.words (unmapLevel s.words ⟨root k, dscr⟩ va)
                (k, unmapNext s.words ⟨root k, dscr⟩ va) := by
            by_contra hlost
            rw [hlvl hmore] at hrun
            rw [Nat.min_eq_left hmore.le] at hrun hcomes
            rw [← hcomes.cleared.reaches _ _ hle] at hlost
            rw [unmapLoop_lost hle hmore hlost hrun] at htame
            cases htame
          cases i with
          | zero =>
            refine ⟨fun hmore => (walkOk_iff hle).mpr (hwalks hmore), fun hnone => ?_⟩
            have hnone : translate s.words ⟨root k, dscr⟩ va = none := hnone
            rw [hnone] at hsome
            cases hsome
          | succ i =>
            have hmore : unmapNext s.words ⟨root k, dscr⟩ va < top :=
              (le_unmapNext_iterate s.words ⟨root k, dscr⟩ _ i).trans_lt hi
            rw [hlvl hmore] at hrun
            rw [Nat.min_eq_left hmore.le] at hrun hcomes
            exact ih hcomes (fun hmore => ⟨hle, hwalks hmore⟩) hrun i hi

/-! ### The range -/

/-- In `t`, the address space `k` translates no address of `n` pages from `va` on any more; all other
translations are those of `s`, with `free` the pages that were mapped there are free pages of the pool
besides those that were, and the walks were through tables. -/
structure Unmaps (dscr : PtDscr) (root : κ → Nat) (k : κ) (s t : MmuState) (va n : Nat) (free : Bool) :
    Prop where
  gone : ∀ a, va ≤ a → a < va + n * pageSize → translate t.words ⟨root k, dscr⟩ a = none
  others : ∀ k' a, ¬(k' = k ∧ va ≤ a ∧ a < va + n * pageSize) →
    translate t.words ⟨root k', dscr⟩ a = translate s.words ⟨root k', dscr⟩ a
  samePool : t.pool.base = s.pool.base ∧ t.pool.nrPages = s.pool.nrPages
  freed : ∀ bit < s.pool.nrPages, bitmapGet t.pool.bitmap bit = false ↔
    bitmapGet s.pool.bitmap bit = false ∨ free = true ∧ ∃ a flags, va ≤ a ∧ a < va + n * pageSize ∧
      translate s.words ⟨root k, dscr⟩ a = some (s.pool.base + bit * pageSize, flags)
  walks : t.wild = false

theorem Cleared.unmaps {n : Nat} (h : Cleared dscr root k s t va (va + n * pageSize))
    (hs : PageTablesWf dscr root s) (haligned : va % pageSize = 0)
    (hspan : va + n * pageSize ≤ 2 ^ dscr.lvlWdt 0)
    (hfree : free = true → ∀ a, va ≤ a → a < va + n * pageSize →
      translate s.words ⟨root k, dscr⟩ a = none) : Unmaps dscr root k s t va n free where
  gone a hlow hlt := (translate_eq_none h.wf (hlt.trans_le hspan)).mpr (h.gone a hlow hlt)
  others k' a hout := by
    rw [translate_eq h.wf, translate_eq hs]
    by_cases ha : a < 2 ^ dscr.lvlWdt 0
    · rw [h.others (k', a) fun a' hlow hlt hsame => hout ?_]
      rw [same_last_iff (hlt.trans_le hspan) ha] at hsame
      refine ⟨(hs.root_injective hsame.1).symm, ?_⟩
      have hpage := hsame.2
      simp only [pageSize] at haligned hlow hlt hpage ⊢
      omega
    · rw [if_neg fun hboth => ha hboth.1, if_neg fun hboth => ha hboth.1]
  samePool := by
    rw [h.pool]
    exact ⟨rfl, rfl⟩
  freed bit _ := by
    rw [h.pool]
    constructor
    · exact .inl
    · rintro (hbit | ⟨hback, a, flags, hlow, hlt, hmapped⟩)
      · exact hbit
      · rw [hfree hback a hlow hlt] at hmapped
        cases hmapped
  walks := h.wf.tame

section

variable {n : Nat}

theorem memUnmap_eq (hspan : va + n * pageSize ≤ ptSpan ⟨root k, dscr⟩) :
    memUnmap ⟨⟨root k, dscr⟩, type⟩ s va n free =
      unmapLoop ⟨⟨root k, dscr⟩, type⟩ (va + n * pageSize) free (2 * n + dscr.lvls + 1) s va 0 := by
  have hle := hspan.trans (ptSpan_le ⟨root k, dscr⟩)
  unfold memUnmap
  rw [Nat.mod_eq_of_lt]
  simp only [sizeT]
  omega

theorem comes_start (h : PageTablesWf dscr root s) (haligned : va % pageSize = 0)
    (hspan : va + n * pageSize ≤ ptSpan ⟨root k, dscr⟩) :
    Comes dscr root k s s va (va + n * pageSize) va where
  before := h
  cleared := by
    rw [Nat.min_eq_left (Nat.le_add_right ..)]
    exact .refl h va
  start_le := le_rfl
  aligned := haligned
  top_le := by
    rw [ptSpan_eq] at hspan
    exact hspan
  top_aligned := by
    rw [Nat.add_mul_mod_self_right]
    exact haligned

theorem unmaps_of_steps (h : PageTablesWf dscr root s) (haligned : va % pageSize = 0)
    (hspan : va + n * pageSize ≤ ptSpan ⟨root k, dscr⟩)
    (hsteps : ∀ i, (unmapNext s.words ⟨root k, dscr⟩)^[i] va < va + n * pageSize →
      UnmapSteps s.words ⟨root k, dscr⟩ (va + n * pageSize)
        ((unmapNext s.words ⟨root k, dscr⟩)^[i] va))
    (hfree : free = true → ∀ a, va ≤ a → a < va + n * pageSize →
      translate s.words ⟨root k, dscr⟩ a = none) :
    ∃ t, memUnmap ⟨⟨root k, dscr⟩, type⟩ s va n free = some t ∧
      Unmaps dscr root k s t va n free := by
  have hcomes := comes_start h haligned hspan
  have hrounds : 2 * ((va + n * pageSize - va) / pageSize) + (dscr.last - 0) <
      2 * n + dscr.lvls + 1 := by
    rw [Nat.add_sub_cancel_left, Nat.mul_div_cancel n (by decide), dscr.lvls_eq]
    omega
  obtain ⟨t, hrun, hcleared⟩ : ∃ t, unmapLoop ⟨⟨root k, dscr⟩, type⟩ (va + n * pageSize) free
      (2 * n + dscr.lvls + 1) s va 0 = some t ∧ Cleared dscr root k s t va (va + n * pageSize) :=
    hcomes.run hrounds (fun _ => ⟨Nat.zero_le _, RadixTable.reaches_zero⟩) hfree hsteps
  refine ⟨t, ?_, hcleared.unmaps h haligned hcomes.top_le hfree⟩
  rw [memUnmap_eq hspan]
  exact hrun

theorem steps_of_unmaps (h : PageTablesWf dscr root s) (haligned : va % pageSize = 0)
    (hspan : va + n * pageSize ≤ ptSpan ⟨root k, dscr⟩)
    (hrun : memUnmap ⟨⟨root k, dscr⟩, type⟩ s va n free = some t)
    (hunmaps : Unmaps dscr root k s t va n free) (i : Nat)
    (hi : (unmapNext s.words ⟨root k, dscr⟩)^[i] va < va + n * pageSize) :
    UnmapSteps s.words ⟨root k, dscr⟩ (va + n * pageSize)
      ((unmapNext s.words ⟨root k, dscr⟩)^[i] va) := by
  rw [memUnmap_eq hspan] at hrun
  exact (comes_start h haligned hspan).steps (fun _ => ⟨Nat.zero_le _, RadixTable.reaches_zero⟩) hrun
    hunmaps.walks hunmaps.gone i hi

/-- Pages that are to be given back are not unmapped. -/
theorem free_of_unmaps (h : PageTablesWf dscr root s) (haligned : va % pageSize = 0)
    (hspan : va + n * pageSize ≤ ptSpan ⟨root k, dscr⟩)
    (hrun : memUnmap ⟨⟨root k, dscr⟩, type⟩ s va n true = some t)
    (hunmaps : Unmaps dscr root k s t va n true) (hlow : va ≤ a) (hlt : a < va + n * pageSize) :
    translate s.words ⟨root k, dscr⟩ a = none := by
  have hcomes := comes_start h haligned hspan
  have ha := hlt.trans_le hcomes.top_le
  rw [memUnmap_eq hspan] at hrun
  rw [translate_eq_none h ha, ← Bool.not_eq_true]
  intro hmapped
  rcases unmapLoop_keeps h (fun _ => Nat.zero_le _) haligned hcomes.top_le hcomes.top_aligned ha hmapped
    (.inl rfl) hrun with hwild | hstill
  · rw [hunmaps.walks] at hwild
    cases hwild
  · rw [hunmaps.gone a hlow hlt] at hstill
    cases hstill

/-- `mem_unmap` removes a range just if it comes from its start to all its pages through tables, and
none of them is mapped where the pages are to be given back. -/
theorem memUnmap_iff (h : PageTablesWf dscr root s) (haligned : va % pageSize = 0)
    (hspan : va + n * pageSize ≤ ptSpan ⟨root k, dscr⟩) :
    (∃ t, memUnmap ⟨⟨root k, dscr⟩, type⟩ s va n free = some t ∧ Unmaps dscr root k s t va n free) ↔
      (∀ i, (unmapNext s.words ⟨root k, dscr⟩)^[i] va < va + n * pageSize →
        UnmapSteps s.words ⟨root k, dscr⟩ (va + n * pageSize)
          ((unmapNext s.words ⟨root k, dscr⟩)^[i] va)) ∧
      (free = true → ∀ a, va ≤ a → a < va + n * pageSize →
        translate s.words ⟨root k, dscr⟩ a = none) := by
  constructor
  · rintro ⟨t, hrun, hunmaps⟩
    refine ⟨steps_of_unmaps h haligned hspan hrun hunmaps, fun hback a hlow hlt => ?_⟩
    subst hback
    exact free_of_unmaps h haligned hspan hrun hunmaps hlow hlt
  · rintro ⟨hsteps, hfree⟩
    exact unmaps_of_steps h haligned hspan hsteps hfree

end

/-! ### Tables for one address -/

/-- The tables of one address, down to a level, can be hung up where the pool has pages for them. -/
theorem exists_hung (h : PageTablesWf dscr root s) (type : AsType) (va : Nat) (hm : m ≤ dscr.last)
    (hroom : m ≤ s.pool.room) : ∃ t, PageTablesWf dscr root t ∧
      (tables dscr root).Reaches t.words m (k, va) ∧
      (∀ b, pageView dscr root t.words b = pageView dscr root s.words b) ∧
      (∀ j b, j ≤ dscr.last → (tables dscr root).Reaches t.words j b →
        (tables dscr root).Reaches s.words j b ∨ ∃ i < m, j = i + 1 ∧
          (tables dscr root).Same i (k, va) b) ∧ s.pool.room ≤ t.pool.room + m := by
  induction m with
  | zero => exact ⟨s, h, RadixTable.reaches_zero, fun _ => rfl, fun _ _ _ hb => .inl hb, le_rfl⟩
  | succ m ih =>
    obtain ⟨u, hwf, hreach, hview, hadded, hleft⟩ := ih (Nat.le_of_succ_le hm) (Nat.le_of_succ_le hroom)
    obtain ⟨t, -, ⟨hthere, rfl⟩ | hung⟩ := memExpandPte_spec type hwf hm hreach fun _ => by omega
    · refine ⟨t, hwf, hthere, hview, fun j b hj hb => ?_, by omega⟩
      rcases hadded j b hj hb with hold | ⟨i, hi, heq, hsame⟩
      · exact .inl hold
      · exact .inr ⟨i, hi.trans (Nat.lt_succ_self m), heq, hsame⟩
    · refine ⟨t, hung.wf, hung.reached, fun b => (hung.view b).trans (hview b), fun j b hj hb => ?_, ?_⟩
      · rcases hung.added j b hj hb with hold | ⟨heq, hsame⟩
        · rcases hadded j b hj hold with hold | ⟨i, hi, heq, hsame⟩
          · exact .inl hold
          · exact .inr ⟨i, hi.trans (Nat.lt_succ_self m), heq, hsame⟩
        · exact .inr ⟨m, Nat.lt_succ_self m, heq, hsame⟩
      · have hused := hung.room
        omega

end

/-- The tables of the first 2 MB, without a page. -/
theorem exists_firstTable : ∃ s, PageTablesWf armv8PtDscr oneRoot s ∧
    (tables armv8PtDscr oneRoot).Reaches s.words 3 ((), 0) ∧
    (∀ a, pteValid (pageView armv8PtDscr oneRoot s.words ((), a)) = false) ∧
    ∀ a, (tables armv8PtDscr oneRoot).Reaches s.words 3 ((), a) →
      (tables armv8PtDscr oneRoot).Same 2 ((), 0) ((), a) := by
  have hroom : 3 ≤ (zeroedTables eightPages).pool.room := by decide
  obtain ⟨s, hwf, hreach, hview, hadded, -⟩ := exists_hung (k := ()) oneRoot_wf .vm 0
    (m := 3) (by decide) hroom
  refine ⟨s, hwf, hreach, fun a => ?_, fun a ha => ?_⟩
  · rw [hview, pageView, pteValid_pteView]
    exact pteValid_zero
  · rcases hadded 3 ((), a) (by decide) ha with hold | ⟨i, -, heq, hsame⟩
    · exact absurd (reaches_zeroed hold) (by decide)
    · cases heq
      exact hsame

/-- The second page is mapped. -/
theorem exists_secondPage : ∃ s, PageTablesWf armv8PtDscr oneRoot s ∧
    (translate s.words ⟨oneRoot (), armv8PtDscr⟩ 0x1000).isSome = true := by
  obtain ⟨u, hwf, hreach, -, -⟩ := exists_firstTable
  have hsame : (tables armv8PtDscr oneRoot).Same 2 ((), 0) ((), 0x1000) :=
    (same_iff (by decide)).mpr ⟨rfl, by decide⟩
  have hmapped := Mapped.single hwf (hsame.reaches hreach) 0x80000000 pteVmFlags
  have hview := hmapped.pages 0 Nat.one_pos
  rw [Nat.zero_mul, Nat.add_zero] at hview
  refine ⟨_, hmapped.wf, ?_⟩
  rw [translate_isSome hmapped.wf (by decide), hview]
  exact pteValid_page _ _

/-- It is removed. -/
theorem memUnmap_iff_secondPage : ∃ s t, PageTablesWf armv8PtDscr oneRoot s ∧
    (translate s.words ⟨oneRoot (), armv8PtDscr⟩ 0x1000).isSome = true ∧
    memUnmap ⟨⟨oneRoot (), armv8PtDscr⟩, .vm⟩ s 0x1000 1 false = some t ∧
    Unmaps armv8PtDscr oneRoot () s t 0x1000 1 false := by
  obtain ⟨s, hwf, hsome⟩ := exists_secondPage
  have hnext : unmapNext s.words ⟨oneRoot (), armv8PtDscr⟩ 0x1000 = 0x200000 :=
    (unmapNext_page hsome).1.trans (by decide)
  have hfar (i : Nat) : 0x1000 + 1 * pageSize ≤
      (unmapNext s.words ⟨oneRoot (), armv8PtDscr⟩)^[i + 1] 0x1000 := by
    rw [Function.iterate_succ_apply, hnext]
    exact (by decide : 0x1000 + 1 * pageSize ≤ 0x200000).trans (le_unmapNext_iterate ..)
  have hunmap : ∃ t, memUnmap ⟨⟨oneRoot (), armv8PtDscr⟩, .vm⟩ s 0x1000 1 false = some t ∧
      Unmaps armv8PtDscr oneRoot () s t 0x1000 1 false := by
    refine (memUnmap_iff hwf (by decide) (by decide)).mpr ⟨fun i hi => ?_, fun hback => ?_⟩
    · cases i with
      | zero =>
        rw [Function.iterate_zero_apply]
        refine ⟨fun hmore => ?_, fun hnone => ?_⟩
        · rw [hnext] at hmore
          exact absurd hmore (by decide)
        · rw [hnone] at hsome
          cases hsome
      | succ i => exact absurd hi (Nat.not_lt_of_le (hfar i))
    · cases hback
  obtain ⟨t, hrun, hunmaps⟩ := hunmap
  exact ⟨s, t, hwf, hsome, hrun, hunmaps⟩

/-- The last page of the first 2 MB and the one behind, without tables for the second 2 MB: the walk to
the second page goes on from an entry that is none. -/
theorem memUnmap_strays : ¬∀ (dscr : PtDscr) (root : Unit → Nat) (s : MmuState) (va n : Nat) (free : Bool),
    PageTablesWf dscr root s → va % pageSize = 0 → va + n * pageSize ≤ ptSpan ⟨root (), dscr⟩ →
    ∃ t, memUnmap ⟨⟨root (), dscr⟩, .vm⟩ s va n free = some t ∧
      Unmaps dscr root () s t va n free := by
  intro hall
  obtain ⟨s, hwf, hreach, hview, honly⟩ := exists_firstTable
  have hspan : 0x1ff000 + 2 * pageSize ≤ ptSpan ⟨oneRoot (), armv8PtDscr⟩ := by decide
  obtain ⟨t, hrun, hunmaps⟩ := hall armv8PtDscr oneRoot s 0x1ff000 2 false hwf (by decide) hspan
  have hsame : (tables armv8PtDscr oneRoot).Same 2 ((), 0) ((), 0x1ff000) :=
    (same_iff (by decide)).mpr ⟨rfl, by decide⟩
  have hnone : translate s.words ⟨oneRoot (), armv8PtDscr⟩ 0x1ff000 = none :=
    (translate_eq_none hwf (by decide)).mpr (hview 0x1ff000)
  have hend : walkEnd s.words ⟨oneRoot (), armv8PtDscr⟩ 0x1ff000 = 3 := by
    rw [walkEnd_eq]
    symm
    exact RadixTable.Stops.eq_stop ⟨hsame.reaches hreach, le_rfl, fun hne => absurd rfl hne⟩
  obtain ⟨hnext, hlevel⟩ := unmapNext_hole (Option.isSome_eq_false_iff.mpr
    (Option.isNone_iff_eq_none.mpr hnone))
  rw [hend] at hnext hlevel
  have hlow : 0x1ff000 < 0x1ff000 + 2 * pageSize := by decide
  have hsteps := steps_of_unmaps hwf (by decide) hspan hrun hunmaps 0 hlow
  rw [Function.iterate_zero_apply] at hsteps
  have hwalks := hsteps.walks (by rw [hnext]; decide)
  rw [hnext, hlevel, walkOk_iff (by decide)] at hwalks
  have hapart := honly _ hwalks
  rw [same_iff (by decide)] at hapart
  exact absurd hapart.2 (by decide)

end Avisor
