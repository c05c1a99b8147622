import Avisor.Mem.Unmapping

/-!
# Detaching a queue

`rq_detach_hanlder` hands the address and the size that the guest passes to `mem_unmap` as they are. The range
need not start at a page, may lie outside the span of the tables, whose entries then stand for it again, and may
end where a step behind it wraps around.
-/

universe u

namespace Avisor

open Function

/-! ### Where it comes to -/

/-- `top` of `mem_unmap` for an address and a size in bytes. -/
def unmapTop (va size : BitVec 64) : Nat := (va.toNat + numPages size.toNat * pageSize) % sizeT

/-- `rq_detach_hanlder` comes back from `mem_unmap` behind some number of rounds, and what it followed were
tables. -/
def DetachReturns (as : AddrSpace) (s : MmuState) (va size : BitVec 64) : Prop :=
  ∃ fuel t, unmapLoop as (unmapTop va size) false fuel s va.toNat 0 = some t ∧ t.wild = false

/-- What `mem_unmap` goes by: the addresses of the span that a page maps, and the address it has come to. -/
structure UnmapPlace where
  mapped : Nat → Bool
  va : Nat

namespace UnmapPlace

variable (words : Nat → Pte) (pt : PageTable) (x : UnmapPlace)

/-- The address is mapped, as far as its bits are looked at. -/
def page : Bool := x.mapped (x.va % ptSpan pt)

/-- Where it goes on: behind the table of a page, or the size of an invalid entry further. -/
def next : Nat :=
  if x.page pt then (x.va / ptLastSpan pt + 1) * ptLastSpan pt
  else x.va + ptLvlsize pt (walkEnd words pt x.va)

/-- The level at which it goes on. -/
def level : Nat := if x.page pt then pt.dscr.lvls - 2 else walkEnd words pt x.va

/-- It clears the rest of the table of a page. -/
def step : UnmapPlace where
  mapped a := x.mapped a && !(x.page pt && decide (x.va % ptSpan pt ≤ a) &&
    decide (a < x.va % ptSpan pt + (x.next words pt - x.va)))
  va := x.next words pt

/-- It meets a page at its start, does not step over the end of the addresses, and goes on through tables. -/
structure Stays (top : Nat) : Prop where
  start : x.page pt = true → x.va % pageSize = 0
  fits : x.page pt = false → x.next words pt < sizeT
  walks : x.next words pt < top → walkOk words pt (x.level words pt) (x.next words pt) = true ∧
    (x.page pt = true → 2 ≤ pt.dscr.lvls)

end UnmapPlace

/-- The place behind `i` steps from `va`, by the tables as they are. -/
def unmapPlace (words : Nat → Pte) (pt : PageTable) (va i : Nat) : UnmapPlace :=
  (UnmapPlace.step words pt)^[i] ⟨fun a => (translate words pt a).isSome, va⟩

variable {κ : Type u} {dscr : PtDscr} {root : κ → Nat} {s t u : MmuState} {k : κ} {l m a va bound top : Nat}
  {b : κ × Nat} {type : AsType} {free : Bool} {fuel lvl : Nat}

/-! ### Addresses outside the span -/

theorem same_mod_span (va : Nat) :
    (tables dscr root).Same dscr.last (k, va) (k, va % ptSpan ⟨root k, dscr⟩) := by
  rw [same_iff le_rfl]
  refine ⟨rfl, ?_⟩
  unfold PtDscr.block
  rw [ptSpan_eq, Nat.mod_mod]

/-! ### Where it is lost -/

/-- Behind the last level there are no tables. -/
theorem unmapLoop_beyond (hl : dscr.last < lvl) (hlt : va < top)
    (hrun : unmapLoop ⟨⟨root k, dscr⟩, type⟩ top free fuel s va lvl = some t) : t.wild = true := by
  apply unmapLoop_strays hlt _ hrun
  have hwalk : walkOk s.words ⟨root k, dscr⟩ lvl va = false := by
    unfold walkOk
    rw [List.all_eq_false]
    refine ⟨dscr.last, List.mem_range.mpr hl, ?_⟩
    rw [pteTable_last]
    decide
  rw [MmuState.walk, hwalk, Bool.not_false, Bool.or_true]

/-- A page that is met behind its start is looked through for a table. -/
theorem unmapLoop_inside (h : PageTablesWf dscr root s) (hlt : va < top) (hva : va % pageSize ≠ 0)
    (hreach : (tables dscr root).Reaches s.words dscr.last (k, va))
    (hview : pteValid (pageView dscr root s.words (k, va)) = true)
    (hrun : unmapLoop ⟨⟨root k, dscr⟩, type⟩ top free fuel s va dscr.last = some t) :
    t.wild = true := by
  have hstops : (tables dscr root).Stops s.words dscr.last (k, va) :=
    ⟨hreach, le_rfl, fun hne => absurd rfl hne⟩
  have hpos := h.ptr_pos le_rfl hreach
  obtain ⟨left, hleft⟩ := Nat.exists_eq_add_of_lt (index_lt root k (le_refl dscr.last) va)
  have hrest : ptNentries ⟨root k, dscr⟩ dscr.last - (tables dscr root).index dscr.last (k, va) =
      left + 1 := by omega
  have hsize : ptLvlsize ⟨root k, dscr⟩ dscr.last = pageSize := ptLvlsize_last ⟨root k, dscr⟩
  have hmask : va &&& (pageSize - 1) = va % pageSize := by
    rw [show pageSize - 1 = 2 ^ 12 - 1 from rfl, Nat.and_two_pow_sub_one_eq_mod]
    rfl
  have hbehind : va - va % pageSize < va := by
    have hle := Nat.mod_le va pageSize
    omega
  have hexpand : memExpandPte ⟨⟨root k, dscr⟩, type⟩ s va dscr.last = some s := if_pos le_rfl
  have hentries : unmapEntries ⟨⟨root k, dscr⟩, type⟩ top dscr.last free (left + 1) s
      ((tables dscr root).ptr s.words dscr.last (k, va)) va = some (s, va, dscr.last + 1, left + 1) := by
    rw [unmapEntries]
    simp only [hsize, if_pos hlt, pteTable_last, Bool.not_false, if_true, hmask, hexpand,
      Option.map_some]
    rw [if_pos]
    rw [decide_eq_true hbehind, Bool.true_or]
  rw [pageView_eq hstops, pteValid_pteView] at hview
  cases fuel with
  | zero => cases hrun
  | succ fuel =>
    rw [unmapLoop, if_pos hlt] at hrun
    simp only [MmuState.walk_of_reaches le_rfl hreach, ptGetPte_eq, hview, pteTable_last,
      if_neg hpos.ne', Bool.not_true, Bool.false_eq_true, if_false, ptGetpteindex_ptr h le_rfl va,
      hrest, hentries, Option.bind_some, if_neg (Nat.succ_ne_zero left)] at hrun
    exact unmapLoop_beyond (Nat.lt_succ_self dscr.last) hlt hrun

/-! ### Once round the addresses -/

/-- The end of the part of size `m` that `va` is in. -/
theorem part_end_le (hm : m ∣ bound) (h : va < bound) : (va / m + 1) * m ≤ bound := by
  obtain ⟨parts, rfl⟩ := hm
  rw [Nat.mul_comm m parts]
  exact Nat.mul_le_mul_right m (Nat.div_lt_of_lt_mul h)

theorem ptLvlsize_dvd_sizeT (pt : PageTable) (hl : l ≤ pt.dscr.last) : ptLvlsize pt l ∣ sizeT := by
  rw [ptLvlsize_eq, show sizeT = 2 ^ 64 from rfl]
  apply Nat.pow_dvd_pow
  have hoff := pt.dscr.off_le hl
  have hwdt := pt.dscr.wdt_le
  omega

theorem ptLastSpan_lvlsize (pt : PageTable) (h : 0 < pt.dscr.last) :
    ptLastSpan pt = ptLvlsize pt (pt.dscr.last - 1) := by
  obtain ⟨l, hl⟩ := Nat.exists_eq_succ_of_ne_zero h.ne'
  have hlt : l < pt.dscr.last := by omega
  have hoff : pt.dscr.lvlOff (l + 1) = 12 := (congrArg pt.dscr.lvlOff hl.symm).trans pt.dscr.off_last
  rw [ptLastSpan_eq, hl, ptNentries_succ pt hlt, ptLvlsize_eq, Nat.succ_sub_one,
    pt.dscr.pow_off_succ hlt, hoff]
  rfl

theorem ptLastSpan_dvd (pt : PageTable) : ptLastSpan pt ∣ ptSpan pt := by
  rcases Nat.eq_zero_or_pos pt.dscr.last with hzero | hpos
  · rw [ptLastSpan_single pt hzero]
  · rw [ptLastSpan_lvlsize pt hpos, ptLvlsize_eq, ptSpan_eq]
    apply Nat.pow_dvd_pow
    exact (pt.dscr.off_le (Nat.sub_le ..)).le

section Round

variable {size part v w : Nat}

/-- A step of `part` from behind the start of a part stays before `v`, in the part behind. -/
theorem step_le (hpart : part ∣ size) (hoff : w % part ≤ v % size) (hw : w < v / size * size) :
    w + part ≤ v := by
  have hend := part_end_le (hpart.trans (Nat.dvd_mul_left size (v / size))) hw
  have hsplit := Nat.div_add_mod' w part
  have hv := Nat.div_add_mod' v size
  rw [Nat.succ_mul] at hend
  omega

/-- From the last part a step of its size goes to the first one. -/
theorem step_round (hsize : size ∣ sizeT) (hv : v < sizeT) (hend : sizeT ≤ v + size)
    (hsame : w / size = v / size) : (w + size) % sizeT = w % size := by
  have hpos : 0 < size := Nat.pos_of_dvd_of_pos hsize (by decide)
  have hlast : v / size * size + size = sizeT := by
    have hle := part_end_le hsize hv
    obtain ⟨parts, hparts⟩ := hsize
    have hlt : v < (v / size + 1) * size := (Nat.div_lt_iff_lt_mul hpos).mp (Nat.lt_succ_self _)
    rw [Nat.mul_comm] at hparts
    have hmore : parts * size < (v / size + 2) * size := by
      rw [← hparts, show v / size + 2 = v / size + 1 + 1 from rfl, Nat.succ_mul (v / size + 1)]
      omega
    have hfew := Nat.lt_of_mul_lt_mul_right hmore
    have hall : parts * size ≤ (v / size + 1) * size := Nat.mul_le_mul_right size (by omega)
    rw [Nat.succ_mul] at hle hall
    omega
  have hw := Nat.div_add_mod' w size
  have hlt := Nat.mod_lt w hpos
  have hle : size ≤ sizeT := Nat.le_of_dvd (by decide) hsize
  rw [hsame] at hw
  rw [show w + size = w % size + sizeT by omega, Nat.add_mod_right]
  exact Nat.mod_eq_of_lt (hlt.trans_le hle)

end Round

/-- A run that has stepped over the end of the addresses, from `v`, does not come behind `v` again without
leaving the tables. -/
theorem unmapLoop_round {v : Nat} (h : PageTablesWf dscr root s)
    (hstops : (tables dscr root).Stops s.words l (k, v)) (hv : v < top) (htop : top < sizeT)
    (hend : sizeT ≤ v + ptLvlsize ⟨root k, dscr⟩ l) (haligned : top % pageSize = v % pageSize)
    (hva : va % pageSize = v % pageSize) (hl : l ≤ lvl) (hlvl : lvl ≤ dscr.last) (hle : va ≤ v)
    (hoff : va % ptLvlsize ⟨root k, dscr⟩ lvl ≤ v % ptLvlsize ⟨root k, dscr⟩ l)
    (hrun : unmapLoop ⟨⟨root k, dscr⟩, type⟩ top false fuel s va lvl = some t) : t.wild = true := by
  induction fuel generalizing s va lvl with
  | zero => cases hrun
  | succ fuel ih =>
    have hlt : va < top := hle.trans_lt hv
    by_cases hreach : (tables dscr root).Reaches s.words lvl (k, va)
    · rcases reaches_or_stops hlvl hreach with ⟨hlast, hdown⟩ | hhere
      · rw [unmapLoop_down h hlast hlt hdown] at hrun
        refine ih h hstops hva (hl.trans (Nat.le_succ lvl)) hlast hle ?_ hrun
        have hdvd := ptLvlsize_dvd ⟨root k, dscr⟩ (Nat.le_succ lvl) hlast
        rw [← Nat.mod_mod_of_dvd va hdvd]
        exact (Nat.mod_le ..).trans hoff
      · -- the entry of `v` is not passed on a level behind its own
        have hother (hsame : va / ptLvlsize ⟨root k, dscr⟩ l = v / ptLvlsize ⟨root k, dscr⟩ l) :
            lvl = l :=
          hhere.unique (hstops.same (same_of_div hstops.le_last hsame.symm))
        have hbefore (hne : lvl ≠ l) : va < v / ptLvlsize ⟨root k, dscr⟩ l * ptLvlsize ⟨root k, dscr⟩ l := by
          have hdiv := Nat.div_le_div_right (c := ptLvlsize ⟨root k, dscr⟩ l) hle
          exact (Nat.div_lt_iff_lt_mul (ptLvlsize_pos _ l)).mp
            (Nat.lt_of_le_of_ne hdiv fun hsame => hne (hother hsame))
        cases hpage : pteValid (pageView dscr root s.words (k, va)) with
        | false =>
          rw [unmapLoop_hole h hlt hhere hpage] at hrun
          have hsize := ptLvlsize_aligned ⟨root k, dscr⟩ hlvl
          have hsizeT := ptLvlsize_dvd_sizeT ⟨root k, dscr⟩ hlvl
          have hpart := ptLvlsize_dvd ⟨root k, dscr⟩ hl hlvl
          refine ih h hstops ?_ hl hlvl ?_ ?_ hrun
          · rw [Nat.mod_mod_of_dvd _ (by decide), Nat.add_mod, hsize, Nat.add_zero, Nat.mod_mod, hva]
          · by_cases hsame : va / ptLvlsize ⟨root k, dscr⟩ l = v / ptLvlsize ⟨root k, dscr⟩ l
            · obtain rfl := hother hsame
              rw [step_round hsizeT (hv.trans htop) hend hsame]
              exact hoff.trans (Nat.mod_le ..)
            · have hnext := step_le hpart hoff ((Nat.div_lt_iff_lt_mul (ptLvlsize_pos _ l)).mp
                (Nat.lt_of_le_of_ne (Nat.div_le_div_right hle) hsame))
              rw [Nat.mod_eq_of_lt (hnext.trans_lt (hv.trans htop))]
              exact hnext
          · rw [Nat.mod_mod_of_dvd _ hsizeT, Nat.add_mod_right]
            exact hoff
        | true =>
          obtain rfl := stops_last h hhere hpage
          by_cases hstart : va % pageSize = 0
          · have hne : dscr.last ≠ l := by
              rintro rfl
              rw [show ptLvlsize ⟨root k, dscr⟩ dscr.last = pageSize from ptLvlsize_last _] at hend
              simp only [pageSize, sizeT] at *
              omega
            have hpos : 0 < dscr.last := by omega
            obtain ⟨u, lvl', hround, hwiped, hup⟩ := unmapLoop_wiped type false fuel h hlt hstart htop
              (haligned.trans (hva.symm.trans hstart)) hreach hpage
            have hspan : ptLastSpan ⟨root k, dscr⟩ = ptLvlsize ⟨root k, dscr⟩ (dscr.last - 1) :=
              ptLastSpan_lvlsize ⟨root k, dscr⟩ hpos
            have hdvd : ptLvlsize ⟨root k, dscr⟩ (dscr.last - 1) ∣ ptLvlsize ⟨root k, dscr⟩ l :=
              ptLvlsize_dvd ⟨root k, dscr⟩ (by omega) (Nat.sub_le ..)
            rw [hspan] at hround hup hwiped
            have hnext := (part_end_le (hdvd.trans (Nat.dvd_mul_left _ _)) (hbefore hne)).trans
              (Nat.div_mul_le_self v _)
            rw [hround, if_neg Bool.false_ne_true, Nat.min_eq_left (hnext.trans hv.le),
              hup (hnext.trans_lt hv), dscr.up_eq hpos] at hrun
            refine ih hwiped.wf ((RadixTable.stops_congr hwiped.reaches).mpr hstops) ?_ (by omega)
              (Nat.sub_le ..) hnext ?_ hrun
            · have hsize := ptLvlsize_aligned ⟨root k, dscr⟩ (Nat.sub_le dscr.last 1)
              rw [← hva, hstart, Nat.mul_mod, hsize]
              rfl
            · rw [Nat.mul_mod_left]
              exact Nat.zero_le _
          · exact unmapLoop_inside h hlt hstart hreach hpage hrun
    · exact unmapLoop_lost hlvl hlt hreach hrun

/-! ### From place to place -/

section

variable {words : Nat → Pte} {pt : PageTable} {x : UnmapPlace}

namespace UnmapPlace

theorem next_of_page (words : Nat → Pte) (h : x.page pt = true) :
    x.next words pt = (x.va / ptLastSpan pt + 1) * ptLastSpan pt :=
  if_pos h

theorem next_of_hole (words : Nat → Pte) (h : x.page pt = false) :
    x.next words pt = x.va + ptLvlsize pt (walkEnd words pt x.va) :=
  if_neg (Bool.eq_false_iff.mp h)

theorem level_of_page (words : Nat → Pte) (h : x.page pt = true) : x.level words pt = pt.dscr.last - 1 :=
  if_pos h

theorem level_of_hole (words : Nat → Pte) (h : x.page pt = false) : x.level words pt = walkEnd words pt x.va :=
  if_neg (Bool.eq_false_iff.mp h)

theorem lt_next (words : Nat → Pte) (pt : PageTable) (x : UnmapPlace) : x.va < x.next words pt := by
  cases h : x.page pt with
  | false =>
    rw [next_of_hole words h]
    exact Nat.lt_add_of_pos_right (ptLvlsize_pos pt _)
  | true =>
    rw [next_of_page words h]
    exact (Nat.div_lt_iff_lt_mul (ptLastSpan_pos pt)).mp (Nat.lt_succ_self _)

theorem le_iterate (words : Nat → Pte) (pt : PageTable) (x : UnmapPlace) (i : Nat) :
    x.va ≤ ((step words pt)^[i] x).va := by
  induction i generalizing x with
  | zero => exact le_rfl
  | succ i ih => exact (lt_next words pt x).le.trans (ih (x.step words pt))

theorem level_le (dscr : PtDscr) (root : κ → Nat) (k : κ) (words : Nat → Pte) (x : UnmapPlace) :
    x.level words ⟨root k, dscr⟩ ≤ dscr.last := by
  cases h : x.page ⟨root k, dscr⟩ with
  | false =>
    rw [level_of_hole words h]
    exact walkEnd_le dscr root k words x.va
  | true =>
    rw [level_of_page words h]
    exact Nat.sub_le ..

end UnmapPlace

end

/-- The loop has come to the place `x`: its tables have the shape of those of `s`, and map what `x` says. -/
structure Tracks (dscr : PtDscr) (root : κ → Nat) (k : κ) (s u : MmuState) (x : UnmapPlace) : Prop where
  wf : PageTablesWf dscr root u
  reaches : ∀ m b, m ≤ dscr.last →
    ((tables dscr root).Reaches u.words m b ↔ (tables dscr root).Reaches s.words m b)
  mapped : ∀ a, pteValid (pageView dscr root u.words (k, a)) = x.mapped (a % ptSpan ⟨root k, dscr⟩)

namespace Tracks

variable {x : UnmapPlace}

theorem start (h : PageTablesWf dscr root s) (k : κ) (va : Nat) :
    Tracks dscr root k s s ⟨fun a => (translate s.words ⟨root k, dscr⟩ a).isSome, va⟩ where
  wf := h
  reaches _ _ _ := Iff.rfl
  mapped a := by
    have hspan : a % ptSpan ⟨root k, dscr⟩ < 2 ^ dscr.lvlWdt 0 := by
      rw [ptSpan_eq]
      exact Nat.mod_lt _ (Nat.two_pow_pos _)
    rw [pageView_same (same_mod_span a)]
    exact (translate_isSome h hspan).symm

theorem page_eq (h : Tracks dscr root k s u x) :
    pteValid (pageView dscr root u.words (k, x.va)) = x.page ⟨root k, dscr⟩ :=
  h.mapped x.va

theorem walkEnd_eq_of_stops (h : Tracks dscr root k s u x)
    (hstops : (tables dscr root).Stops u.words lvl (k, x.va)) :
    walkEnd s.words ⟨root k, dscr⟩ x.va = lvl := by
  rw [walkEnd_eq]
  exact ((RadixTable.stops_congr h.reaches).mp hstops).eq_stop.symm

/-- A step at an address that is not mapped. -/
theorem skips (h : Tracks dscr root k s u x) (hhole : x.page ⟨root k, dscr⟩ = false) :
    Tracks dscr root k s u (x.step s.words ⟨root k, dscr⟩) where
  wf := h.wf
  reaches := h.reaches
  mapped a := by
    simp only [h.mapped, UnmapPlace.step, hhole, Bool.false_and, Bool.not_false, Bool.and_true]

/-- The addresses of a table follow each other in the span. -/
theorem mod_span {a : Nat} (hva : va ≤ a)
    (ha : a < (va / ptLastSpan ⟨root k, dscr⟩ + 1) * ptLastSpan ⟨root k, dscr⟩) :
    a % ptSpan ⟨root k, dscr⟩ = va % ptSpan ⟨root k, dscr⟩ + (a - va) := by
  have hpos : 0 < ptSpan ⟨root k, dscr⟩ := by
    rw [ptSpan_eq]
    exact Nat.two_pow_pos _
  have hend := part_end_le ((ptLastSpan_dvd ⟨root k, dscr⟩).trans (Nat.dvd_mul_left _ _))
    ((Nat.div_lt_iff_lt_mul hpos).mp (Nat.lt_succ_self (va / ptSpan ⟨root k, dscr⟩)))
  have hsplit := Nat.div_add_mod' va (ptSpan ⟨root k, dscr⟩)
  rw [Nat.succ_mul (va / ptSpan _)] at hend
  rw [show a = va % ptSpan ⟨root k, dscr⟩ + (a - va) +
      va / ptSpan ⟨root k, dscr⟩ * ptSpan ⟨root k, dscr⟩ by omega, Nat.add_mul_mod_self_right]
  rw [Nat.mod_eq_of_lt (by omega)]
  omega

/-- Pages have their entry in common if they are one page of the span. -/
theorem same_iff_page {a' : Nat} : (tables dscr root).Same dscr.last (k, a) (k, a') ↔
    a % ptSpan ⟨root k, dscr⟩ / pageSize = a' % ptSpan ⟨root k, dscr⟩ / pageSize := by
  have hoff : dscr.lvlOff dscr.last = 12 := dscr.off_last
  rw [same_iff le_rfl, ptSpan_eq]
  unfold PtDscr.block
  rw [hoff]
  exact and_iff_right rfl

/-- A step at a page. -/
theorem wiped (h : Tracks dscr root k s u x) (hpage : x.page ⟨root k, dscr⟩ = true)
    (hstart : x.va % pageSize = 0)
    (hwiped : Wiped dscr root k u t x.va (x.next s.words ⟨root k, dscr⟩)) :
    Tracks dscr root k s t (x.step s.words ⟨root k, dscr⟩) where
  wf := hwiped.wf
  reaches m b hm := (hwiped.reaches m b hm).trans (h.reaches m b hm)
  mapped a := by
    have hnext : x.next s.words ⟨root k, dscr⟩ = _ := UnmapPlace.next_of_page _ hpage
    have hlt := UnmapPlace.lt_next s.words ⟨root k, dscr⟩ x
    have haligned : ptSpan ⟨root k, dscr⟩ % pageSize = 0 := by
      rw [ptSpan_eq]
      have hoff := (dscr.off_ge (Nat.zero_le dscr.last)).trans dscr.off_lt_wdt.le
      exact Nat.mod_eq_zero_of_dvd (Nat.pow_dvd_pow 2 hoff)
    have hend : x.next s.words ⟨root k, dscr⟩ % pageSize = 0 := by
      rw [hnext, ptLastSpan_eq, ← Nat.mul_assoc]
      exact Nat.mul_mod_left ..
    have hlow : x.va % ptSpan ⟨root k, dscr⟩ % pageSize = 0 := by
      rw [Nat.mod_mod_of_dvd _ (Nat.dvd_of_mod_eq_zero haligned)]
      exact hstart
    simp only [UnmapPlace.step, hpage, Bool.true_and]
    by_cases hin : x.va % ptSpan ⟨root k, dscr⟩ ≤ a % ptSpan ⟨root k, dscr⟩ ∧
        a % ptSpan ⟨root k, dscr⟩ <
          x.va % ptSpan ⟨root k, dscr⟩ + (x.next s.words ⟨root k, dscr⟩ - x.va)
    · obtain ⟨hge, hless⟩ := hin
      rw [decide_eq_true hge, decide_eq_true hless, Bool.and_true, Bool.not_true, Bool.and_false]
      refine hwiped.gone (x.va + (a % ptSpan ⟨root k, dscr⟩ - x.va % ptSpan ⟨root k, dscr⟩)) (k, a)
        (Nat.le_add_right ..) (by omega) (same_iff_page.mpr ?_)
      rw [mod_span (Nat.le_add_right ..) (by omega), Nat.add_sub_cancel_left, Nat.add_sub_cancel' hge]
    · have hkept : (x.mapped (a % ptSpan ⟨root k, dscr⟩) &&
          !(decide (x.va % ptSpan ⟨root k, dscr⟩ ≤ a % ptSpan ⟨root k, dscr⟩) &&
            decide (a % ptSpan ⟨root k, dscr⟩ <
              x.va % ptSpan ⟨root k, dscr⟩ + (x.next s.words ⟨root k, dscr⟩ - x.va)))) =
          x.mapped (a % ptSpan ⟨root k, dscr⟩) := by
        rw [← Bool.decide_and, decide_eq_false hin, Bool.not_false, Bool.and_true]
      rw [hkept, ← h.mapped, hwiped.others (k, a)]
      intro a' hge hless hsame
      have hpages := same_iff_page.mp hsame
      rw [mod_span hge (hnext ▸ hless)] at hpages
      apply hin
      simp only [pageSize] at *
      omega

/-- Where each place is met at its start and left through tables, the loop comes back. -/
theorem returns (type : AsType) (h : Tracks dscr root k s u x) (htop : top < sizeT)
    (haligned : top % pageSize = x.va % pageSize)
    (hl : x.va < top → lvl ≤ dscr.last ∧ (tables dscr root).Reaches s.words lvl (k, x.va))
    (hfuel : 2 * ((top - x.va) / pageSize) + (dscr.last - lvl) < fuel)
    (hstays : ∀ i, ((UnmapPlace.step s.words ⟨root k, dscr⟩)^[i] x).va < top →
      ((UnmapPlace.step s.words ⟨root k, dscr⟩)^[i] x).Stays s.words ⟨root k, dscr⟩ top) :
    ∃ t, unmapLoop ⟨⟨root k, dscr⟩, type⟩ top false fuel u x.va lvl = some t ∧ t.wild = false := by
  induction fuel generalizing u x lvl with
  | zero => exact absurd hfuel (Nat.not_lt_zero _)
  | succ fuel ih =>
    by_cases hlt : x.va < top
    · obtain ⟨hlast, hreach⟩ := hl hlt
      have hstay : x.Stays s.words ⟨root k, dscr⟩ top := hstays 0 hlt
      have hnext := UnmapPlace.lt_next s.words ⟨root k, dscr⟩ x
      have hreach' := (h.reaches lvl (k, x.va) hlast).mpr hreach
      have hlevel (hmore : x.next s.words ⟨root k, dscr⟩ < top) :
          x.level s.words ⟨root k, dscr⟩ ≤ dscr.last ∧ (tables dscr root).Reaches s.words
            (x.level s.words ⟨root k, dscr⟩) (k, x.next s.words ⟨root k, dscr⟩) := by
        have hle := UnmapPlace.level_le dscr root k s.words x
        exact ⟨hle, (walkOk_iff hle).mp (hstay.walks hmore).1⟩
      rcases reaches_or_stops hlast hreach' with ⟨hmore, hdown⟩ | hstops
      · rw [unmapLoop_down h.wf hmore hlt hdown]
        refine ih h haligned (fun _ => ⟨hmore, ?_⟩) (by omega) hstays
        exact (h.reaches (lvl + 1) (k, x.va) hmore).mp hdown
      · cases hpage : x.page ⟨root k, dscr⟩ with
        | false =>
          have hend := h.walkEnd_eq_of_stops hstops
          have hfits := hstay.fits hpage
          have hgo := UnmapPlace.next_of_hole s.words hpage
          have hstay' := UnmapPlace.level_of_hole s.words hpage
          rw [hend] at hgo hstay'
          have hsame : x.next s.words ⟨root k, dscr⟩ % pageSize = x.va % pageSize := by
            have hsize := ptLvlsize_aligned ⟨root k, dscr⟩ hlast
            rw [hgo, Nat.add_mod, hsize, Nat.add_zero, Nat.mod_mod]
          have hrounds := rounds_lt hlt haligned hnext hsame
          rw [unmapLoop_hole h.wf hlt hstops (h.page_eq.trans hpage), ← hgo, Nat.mod_eq_of_lt hfits]
          refine ih (h.skips hpage) (haligned.trans hsame.symm) (hstay' ▸ hlevel) ?_ fun i => hstays (i + 1)
          show 2 * ((top - x.next s.words ⟨root k, dscr⟩) / pageSize) + (dscr.last - lvl) < fuel
          omega
        | true =>
          have hview := h.page_eq.trans hpage
          have hstart := hstay.start hpage
          obtain rfl := stops_last h.wf hstops hview
          have hgo := UnmapPlace.next_of_page s.words hpage
          have hup := UnmapPlace.level_of_page s.words hpage
          obtain ⟨v, lvl', hround, hwiped, hlvl⟩ := unmapLoop_wiped type false fuel h.wf hlt hstart htop
            (haligned.trans hstart) hreach' hview
          have hsame : x.next s.words ⟨root k, dscr⟩ % pageSize = x.va % pageSize := by
            rw [hstart, hgo, ptLastSpan_eq, ← Nat.mul_assoc, Nat.mul_mod_left]
          have hrounds := rounds_lt hlt haligned hnext hsame
          rw [← hgo] at hround hwiped hlvl
          rw [hround, if_neg Bool.false_ne_true]
          rcases Nat.lt_or_ge (x.next s.words ⟨root k, dscr⟩) top with hmore | hdone
          · have hlvls := (hstay.walks hmore).2 hpage
            have hpos : 0 < dscr.last := Nat.sub_pos_of_lt hlvls
            rw [hlvl hmore, dscr.up_eq hpos]
            rw [Nat.min_eq_left hmore.le] at hwiped ⊢
            refine ih (h.wiped hpage hstart hwiped) (haligned.trans hsame.symm) (hup ▸ hlevel) ?_
              fun i => hstays (i + 1)
            show 2 * ((top - x.next s.words ⟨root k, dscr⟩) / pageSize) + (dscr.last - (dscr.last - 1)) < fuel
            omega
          · rw [Nat.min_eq_right hdone] at hwiped ⊢
            have hleft := Nat.zero_lt_of_lt hrounds
            obtain ⟨rounds, rfl⟩ := Nat.exists_eq_add_of_lt (by omega : 0 < fuel)
            exact ⟨v, unmapLoop_done le_rfl, hwiped.wf.tame⟩
    · exact ⟨u, unmapLoop_done (Nat.le_of_not_lt hlt), h.wf.tame⟩

/-- If the loop comes back through tables, each place was met at its start and left through tables. -/
theorem stays (h : Tracks dscr root k s u x) (htop : top < sizeT)
    (haligned : top % pageSize = x.va % pageSize)
    (hl : x.va < top → lvl ≤ dscr.last ∧ (tables dscr root).Reaches s.words lvl (k, x.va))
    (hrun : unmapLoop ⟨⟨root k, dscr⟩, type⟩ top false fuel u x.va lvl = some t)
    (htame : t.wild = false) (i : Nat)
    (hi : ((UnmapPlace.step s.words ⟨root k, dscr⟩)^[i] x).va < top) :
    ((UnmapPlace.step s.words ⟨root k, dscr⟩)^[i] x).Stays s.words ⟨root k, dscr⟩ top := by
  induction fuel generalizing u x lvl i with
  | zero => cases hrun
  | succ fuel ih =>
    have hlt : x.va < top := (UnmapPlace.le_iterate ..).trans_lt hi
    obtain ⟨hlast, hreach⟩ := hl hlt
    have hreach' := (h.reaches lvl (k, x.va) hlast).mpr hreach
    have hlost (hwild : t.wild = true) : False := Bool.false_ne_true (htame.symm.trans hwild)
    rcases reaches_or_stops hlast hreach' with ⟨hmore, hdown⟩ | hstops
    · rw [unmapLoop_down h.wf hmore hlt hdown] at hrun
      refine ih h haligned (fun _ => ⟨hmore, ?_⟩) hrun i hi
      exact (h.reaches (lvl + 1) (k, x.va) hmore).mp hdown
    · cases hpage : x.page ⟨root k, dscr⟩ with
      | false =>
        have hgo := UnmapPlace.next_of_hole s.words hpage
        have hlevel := UnmapPlace.level_of_hole s.words hpage
        have hsize := ptLvlsize_aligned ⟨root k, dscr⟩ hlast
        rw [h.walkEnd_eq_of_stops hstops] at hgo hlevel
        rw [unmapLoop_hole h.wf hlt hstops (h.page_eq.trans hpage), ← hgo] at hrun
        have hfits : x.next s.words ⟨root k, dscr⟩ < sizeT := by
          by_contra hwraps
          have hdvd := ptLvlsize_dvd_sizeT ⟨root k, dscr⟩ hlast
          have hend : sizeT ≤ x.va + ptLvlsize ⟨root k, dscr⟩ lvl := hgo ▸ Nat.le_of_not_lt hwraps
          rw [hgo, step_round hdvd (hlt.trans htop) hend rfl] at hrun
          apply hlost
          refine unmapLoop_round h.wf hstops hlt htop hend haligned ?_ le_rfl hlast (Nat.mod_le ..) ?_ hrun
          · exact Nat.mod_mod_of_dvd _ (Nat.dvd_of_mod_eq_zero hsize)
          · rw [Nat.mod_mod]
        rw [Nat.mod_eq_of_lt hfits] at hrun
        have hwalks (hmore : x.next s.words ⟨root k, dscr⟩ < top) :
            (tables dscr root).Reaches s.words lvl (k, x.next s.words ⟨root k, dscr⟩) := by
          by_contra hnot
          rw [← h.reaches lvl _ hlast] at hnot
          exact hlost (unmapLoop_lost hlast hmore hnot hrun)
        cases i with
        | zero =>
          refine ⟨fun htrue => ?_, fun _ => hfits, fun hmore => ⟨?_, fun htrue => ?_⟩⟩
          · exact absurd (hpage.symm.trans htrue) Bool.false_ne_true
          · rw [Function.iterate_zero_apply] at hmore ⊢
            rw [hlevel]
            exact (walkOk_iff hlast).mpr (hwalks hmore)
          · exact absurd (hpage.symm.trans htrue) Bool.false_ne_true
        | succ i =>
          refine ih (h.skips hpage) ?_ (fun hmore => ⟨hlast, hwalks hmore⟩) hrun i hi
          show top % pageSize = x.next s.words ⟨root k, dscr⟩ % pageSize
          rw [hgo, Nat.add_mod, hsize, Nat.add_zero, Nat.mod_mod, haligned]
      | true =>
        have hview := h.page_eq.trans hpage
        obtain rfl := stops_last h.wf hstops hview
        have hgo := UnmapPlace.next_of_page s.words hpage
        have hlevel := UnmapPlace.level_of_page s.words hpage
        have hstart : x.va % pageSize = 0 := by
          by_contra hinside
          exact hlost (unmapLoop_inside h.wf hlt hinside hreach' hview hrun)
        obtain ⟨v, lvl', hround, hwiped, hlvl⟩ := unmapLoop_wiped type false fuel h.wf hlt hstart htop
          (haligned.trans hstart) hreach' hview
        rw [← hgo] at hround hwiped hlvl
        rw [hround, if_neg Bool.false_ne_true] at hrun
        have hgoes (hmore : x.next s.words ⟨root k, dscr⟩ < top) : 0 < dscr.last ∧
            unmapLoop ⟨⟨root k, dscr⟩, type⟩ top false fuel v (x.next s.words ⟨root k, dscr⟩)
              (dscr.last - 1) = some t ∧
            (tables dscr root).Reaches s.words (dscr.last - 1) (k, x.next s.words ⟨root k, dscr⟩) := by
          rw [Nat.min_eq_left hmore.le] at hrun hwiped
          rw [hlvl hmore] at hrun
          have hpos : 0 < dscr.last := by
            by_contra hzero
            rw [Nat.eq_zero_of_not_pos hzero] at hrun
            refine hlost (unmapLoop_beyond ?_ hmore hrun)
            rw [Nat.eq_zero_of_not_pos hzero]
            decide
          rw [dscr.up_eq hpos] at hrun
          refine ⟨hpos, hrun, ?_⟩
          by_contra hnot
          have hle := Nat.sub_le dscr.last 1
          rw [← h.reaches _ _ hle, ← hwiped.reaches _ _ hle] at hnot
          exact hlost (unmapLoop_lost hle hmore hnot hrun)
        cases i with
        | zero =>
          refine ⟨fun _ => hstart, fun hfalse => ?_, fun hmore => ⟨?_, fun _ => ?_⟩⟩
          · exact absurd (hfalse.symm.trans hpage) Bool.false_ne_true
          · rw [Function.iterate_zero_apply] at hmore ⊢
            rw [hlevel]
            exact (walkOk_iff (Nat.sub_le ..)).mpr (hgoes hmore).2.2
          · have hpos := (hgoes hmore).1
            have hlvls := dscr.lvls_eq
            show 2 ≤ dscr.lvls
            omega
        | succ i =>
          have hmore : x.next s.words ⟨root k, dscr⟩ < top :=
            (UnmapPlace.le_iterate s.words ⟨root k, dscr⟩ _ i).trans_lt hi
          obtain ⟨hpos, hrun, hnext⟩ := hgoes hmore
          rw [Nat.min_eq_left hmore.le] at hwiped
          refine ih (h.wiped hpage hstart hwiped) ?_ (fun _ => ⟨Nat.sub_le .., hnext⟩) hrun i hi
          show top % pageSize = x.next s.words ⟨root k, dscr⟩ % pageSize
          rw [haligned, hstart, hgo, ptLastSpan_eq, ← Nat.mul_assoc, Nat.mul_mod_left]

end Tracks

/-! ### The request -/

section

variable (va size : BitVec 64)

theorem unmapTop_lt : unmapTop va size < sizeT := Nat.mod_lt _ (by decide)

theorem unmapTop_mod : unmapTop va size % pageSize = va.toNat % pageSize := by
  unfold unmapTop
  rw [Nat.mod_mod_of_dvd _ (by decide : pageSize ∣ sizeT), Nat.add_mul_mod_self_right]

variable {va size}

theorem returns_of_stays (h : PageTablesWf dscr root s) (k : κ) (type : AsType)
    (hstays : ∀ i, (unmapPlace s.words ⟨root k, dscr⟩ va.toNat i).va < unmapTop va size →
      (unmapPlace s.words ⟨root k, dscr⟩ va.toNat i).Stays s.words ⟨root k, dscr⟩ (unmapTop va size)) :
    DetachReturns ⟨⟨root k, dscr⟩, type⟩ s va size := by
  have hstart := Tracks.start h k va.toNat
  obtain ⟨t, hrun, htame⟩ := hstart.returns type (unmapTop_lt va size) (unmapTop_mod va size)
    (fun _ => ⟨Nat.zero_le _, RadixTable.reaches_zero⟩) (Nat.lt_succ_self _) hstays
  exact ⟨_, t, hrun, htame⟩

theorem stays_of_returns (h : PageTablesWf dscr root s)
    (hreturns : DetachReturns ⟨⟨root k, dscr⟩, type⟩ s va size) (i : Nat)
    (hi : (unmapPlace s.words ⟨root k, dscr⟩ va.toNat i).va < unmapTop va size) :
    (unmapPlace s.words ⟨root k, dscr⟩ va.toNat i).Stays s.words ⟨root k, dscr⟩ (unmapTop va size) := by
  obtain ⟨fuel, t, hrun, htame⟩ := hreturns
  have hstart := Tracks.start h k va.toNat
  exact hstart.stays (unmapTop_lt va size) (unmapTop_mod va size)
    (fun _ => ⟨Nat.zero_le _, RadixTable.reaches_zero⟩) hrun htame i hi

end

/-- `rq_detach_hanlder` comes back from a range just if `mem_unmap` meets each of its pages at its start, does
not step over the end of the addresses from an entry without a page, and goes on through tables. -/
theorem detachReturns_iff (h : PageTablesWf dscr root s) (k : κ) (type : AsType) (va size : BitVec 64) :
    DetachReturns ⟨⟨root k, dscr⟩, type⟩ s va size ↔
      ∀ i, (unmapPlace s.words ⟨root k, dscr⟩ va.toNat i).va < unmapTop va size →
        (unmapPlace s.words ⟨root k, dscr⟩ va.toNat i).Stays s.words ⟨root k, dscr⟩
          (unmapTop va size) := by
  constructor
  · intro hreturns i hi
    exact stays_of_returns h hreturns i hi
  · intro hstays
    exact returns_of_stays h k type hstays

/-- The second page is mapped, and detached. -/
theorem detachReturns_iff_secondPage : ∃ s, PageTablesWf armv8PtDscr oneRoot s ∧
    (translate s.words ⟨oneRoot (), armv8PtDscr⟩ 0x1000).isSome = true ∧
    DetachReturns ⟨⟨oneRoot (), armv8PtDscr⟩, .vm⟩ s 0x1000 0x1000 := by
  obtain ⟨s, hwf, hsome⟩ := exists_secondPage
  refine ⟨s, hwf, hsome, (detachReturns_iff hwf () .vm 0x1000 0x1000).mpr fun i hi => ?_⟩
  have hpage : (unmapPlace s.words ⟨oneRoot (), armv8PtDscr⟩ 0x1000 0).page
      ⟨oneRoot (), armv8PtDscr⟩ = true := hsome
  have hnext : (unmapPlace s.words ⟨oneRoot (), armv8PtDscr⟩ 0x1000 0).next s.words
      ⟨oneRoot (), armv8PtDscr⟩ = 0x200000 :=
    (UnmapPlace.next_of_page _ hpage).trans (show
      (0x1000 / ptLastSpan ⟨oneRoot (), armv8PtDscr⟩ + 1) * ptLastSpan ⟨oneRoot (), armv8PtDscr⟩ =
        0x200000 by decide)
  have htop : unmapTop 0x1000 0x1000 = 0x2000 := by decide
  rw [htop] at hi ⊢
  cases i with
  | zero =>
    refine ⟨fun _ => ?_, fun hhole => ?_, fun hmore => ?_⟩
    · show 0x1000 % pageSize = 0
      decide
    · exact absurd (hhole.symm.trans hpage) Bool.false_ne_true
    · exact absurd (hnext ▸ hmore) (by decide)
  | succ i =>
    have hfar := UnmapPlace.le_iterate s.words ⟨oneRoot (), armv8PtDscr⟩
      ((unmapPlace s.words ⟨oneRoot (), armv8PtDscr⟩ 0x1000 0).step s.words
        ⟨oneRoot (), armv8PtDscr⟩) i
    have hfar : 0x200000 ≤ (unmapPlace s.words ⟨oneRoot (), armv8PtDscr⟩ 0x1000 (i + 1)).va :=
      hnext.symm.le.trans hfar
    exact absurd (hfar.trans_lt hi) (by decide)

/-- Without tables behind the root, a range up to the last page goes round from the last entry of the root to
the first one. -/
theorem unmapLoop_zeroed {pool : PagePool} (hwf : PageTablesWf armv8PtDscr oneRoot (zeroedTables pool))
    (hva : va % 2 ^ 39 = 0) (hlt : va < sizeT) :
    unmapLoop ⟨⟨oneRoot (), armv8PtDscr⟩, type⟩ (2 ^ 64 - 4096) free fuel (zeroedTables pool) va 0 =
      none := by
  induction fuel generalizing va with
  | zero => rfl
  | succ fuel ih =>
    have hstops : (tables armv8PtDscr oneRoot).Stops (zeroedTables pool).words 0 ((), va) :=
      ⟨RadixTable.reaches_zero, Nat.zero_le _, fun _ => zeroed_not_table⟩
    have hbefore : va < 2 ^ 64 - 4096 := by
      simp only [sizeT] at hlt
      omega
    have hview : pteValid (pageView armv8PtDscr oneRoot (zeroedTables pool).words ((), va)) = false := by
      rw [pageView_eq hstops, pteValid_pteView]
      exact pteValid_zero
    have hsize : ptLvlsize ⟨oneRoot (), armv8PtDscr⟩ 0 = 2 ^ 39 := by decide
    rw [unmapLoop_hole hwf hbefore hstops hview, hsize]
    refine ih ?_ (Nat.mod_lt _ (by decide))
    simp only [sizeT]
    omega

/-- A range up to the last page of an address space without tables is never done; and an address in a page,
behind its start, is looked up in the page. -/
theorem detach_astray :
    (PageTablesWf armv8PtDscr oneRoot (zeroedTables eightPages) ∧
      ¬∃ fuel t, unmapLoop ⟨⟨oneRoot (), armv8PtDscr⟩, .vm⟩ (unmapTop 0xffffff8000000000 0x7ffffff000)
        false fuel (zeroedTables eightPages) 0xffffff8000000000 0 = some t) ∧
    ∃ s, PageTablesWf armv8PtDscr oneRoot s ∧
      (translate s.words ⟨oneRoot (), armv8PtDscr⟩ 0x1000).isSome = true ∧
      ¬DetachReturns ⟨⟨oneRoot (), armv8PtDscr⟩, .vm⟩ s 0x1008 8 := by
  refine ⟨⟨oneRoot_wf, ?_⟩, ?_⟩
  · rintro ⟨fuel, t, hrun⟩
    have htop : unmapTop 0xffffff8000000000 0x7ffffff000 = 2 ^ 64 - 4096 := by decide
    rw [htop, unmapLoop_zeroed oneRoot_wf (by decide) (by decide)] at hrun
    cases hrun
  · obtain ⟨s, hwf, hsome⟩ := exists_secondPage
    refine ⟨s, hwf, hsome, fun hreturns => ?_⟩
    have hsame : (tables armv8PtDscr oneRoot).Same armv8PtDscr.last ((), 0x1000) ((), 0x1008) :=
      same_of_page (by decide)
    have hpage : (translate s.words ⟨oneRoot (), armv8PtDscr⟩ 0x1008).isSome = true := by
      rw [translate_isSome hwf (by decide), ← pageView_same hsame, ← translate_isSome hwf (by decide)]
      exact hsome
    have hbefore : (0x1008 : Nat) < unmapTop 0x1008 8 := by decide
    have hstart := (stays_of_returns hwf hreturns 0 hbefore).start hpage
    have hinside : 0x1008 % pageSize ≠ 0 := by decide
    exact hinside hstart

end Avisor
