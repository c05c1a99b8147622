import Avisor.Mem.Mapping
import Avisor.Mem.RootPool

/-!
# Clearing entries

`mem_unmap` and what one of its rounds does: a round goes down to a table, over an entry that is invalid,
or through the entries of a table of the last level, which it clears. Pages can only be given back by
`mem_free_ppages`, which does not return.
-/

universe u

namespace Avisor

open Function

/-! ### `mem_unmap` -/

/-- The page pool with its lock, as `mem_free_ppages` finds them. -/
def MmuState.rootPool (s : MmuState) : RootPool where
  pool := s.pool
  lock := ⟨if s.poolLocked then 1 else 0, 0⟩

/-- A call of `mem_free_ppages`. -/
def freePpages (s : MmuState) (ppages : Ppages) : Option MmuState :=
  (memFreePpages s.rootPool ppages).map fun x =>
    { s with pool := x.pool, poolLocked := x.lock.ticket ≠ x.lock.next }

/-- The inner loop of `mem_unmap` over the entries from `pte` on that are left of a table, up to the
address `top`: with its address and level behind it, and the entries left then. -/
def unmapEntries (as : AddrSpace) (top lvl : Nat) (free : Bool) :
    Nat → MmuState → Nat → Nat → Option (MmuState × Nat × Nat × Nat)
  | 0, s, _, vaddr => some (s, vaddr, lvl, 0)
  | left + 1, s, pte, vaddr =>
    let lvlsz := ptLvlsize as.pt lvl
    if vaddr < top then
      if !pteTable as.pt lvl (s.words pte) then
        let vpageBase := vaddr - (vaddr &&& (lvlsz - 1))
        if vaddr > vpageBase || top < (vpageBase + lvlsz) % sizeT then
          (memExpandPte as s vaddr lvl).map fun s => (s, vaddr, lvl + 1, left + 1)
        else
          (if free then freePpages s ⟨pteAddr (s.words pte), lvlsz / pageSize⟩ else some s).bind
            fun s =>
              unmapEntries as top lvl free left (s.setWord pte 0) (pte + 8) ((vaddr + lvlsz) % sizeT)
      else some (s, vaddr, lvl, left + 1)
    else some (s, vaddr, lvl, left + 1)

/-- The outer loop of `mem_unmap`, for `fuel` rounds; an entry at address zero ends in `ERROR`. -/
def unmapLoop (as : AddrSpace) (top : Nat) (free : Bool) :
    Nat → MmuState → Nat → Nat → Option MmuState
  | 0, _, _, _ => none
  | fuel + 1, s, vaddr, lvl =>
    if vaddr < top then
      let pte := ptGetPte s.words as.pt lvl vaddr
      let s := s.walk as.pt lvl vaddr
      if pte = 0 then none
      else if !pteValid (s.words pte) then
        unmapLoop as top free fuel s ((vaddr + ptLvlsize as.pt lvl) % sizeT) lvl
      else if pteTable as.pt lvl (s.words pte) then
        unmapLoop as top free fuel s vaddr (lvl + 1)
      else
        (unmapEntries as top lvl free (ptNentries as.pt lvl - ptGetpteindex as.pt lvl pte) s pte
          vaddr).bind fun (s, vaddr, lvl, left) =>
            unmapLoop as top free fuel s vaddr
              (if left = 0 then (lvl + (sizeT - 1)) % sizeT else lvl)
    else some s

/-- `mem_unmap`. A round goes down a level, or on by a page at least and up a level at most, so it has
ended when the rounds are used up. -/
def memUnmap (as : AddrSpace) (s : MmuState) (va numPages : Nat) (free : Bool) : Option MmuState :=
  unmapLoop as ((va + numPages * pageSize) % sizeT) free (2 * numPages + as.pt.dscr.lvls + 1) s va 0

/-! ### Pages are cleared -/

variable {κ : Type u}

/-- In `t`, no page of `k` from `va` up to `bound` is mapped, and nothing else differs from `s`. -/
structure Cleared (dscr : PtDscr) (root : κ → Nat) (k : κ) (s t : MmuState) (va bound : Nat) : Prop
    extends Stored dscr root k s t va bound where
  gone : ∀ a, va ≤ a → a < bound → pteValid (pageView dscr root t.words (k, a)) = false

/-- In `t`, no page of `k` whose entry is that of an address from `va` up to `bound` is mapped, and nothing else
differs from `s`. -/
structure Wiped (dscr : PtDscr) (root : κ → Nat) (k : κ) (s t : MmuState) (va bound : Nat) : Prop
    extends Stored dscr root k s t va bound where
  gone : ∀ a b, va ≤ a → a < bound → (tables dscr root).Same dscr.last (k, a) b →
    pteValid (pageView dscr root t.words b) = false

section

variable {dscr : PtDscr} {root : κ → Nat} {s t u : MmuState} {k : κ} {l m a va bound top : Nat}
  {b : κ × Nat} {type : AsType}

theorem Cleared.refl (h : PageTablesWf dscr root s) (va : Nat) : Cleared dscr root k s s va va where
  toStored := .refl h va
  gone _ hva hlt := absurd hva (Nat.not_le_of_lt hlt)

theorem Cleared.trans (h : Cleared dscr root k s t va m) (h' : Cleared dscr root k t u m bound)
    (haligned : m % pageSize = 0) (hva : va ≤ m) (hbound : m ≤ bound)
    (hspan : bound ≤ 2 ^ dscr.lvlWdt 0) : Cleared dscr root k s u va bound where
  toStored := h.toStored.trans h'.toStored hva hbound
  gone a hle hlt := by
    rcases Nat.lt_or_ge a m with ham | ham
    · rw [h'.others (k, a) fun a' ha' hlt' hsame => ?_]
      · exact h.gone a hle ham
      · exact not_same_of_lt haligned ham ha' (hlt'.trans_le hspan) hsame.symm
    · exact h'.gone a ham hlt

theorem pteValid_zero : pteValid 0 = false := by decide

theorem Wiped.refl (h : PageTablesWf dscr root s) (va : Nat) : Wiped dscr root k s s va va where
  toStored := .refl h va
  gone _ _ hva hlt := absurd hva (Nat.not_le_of_lt hlt)

theorem Wiped.trans (h : Wiped dscr root k s t va m) (h' : Wiped dscr root k t u m bound) (hva : va ≤ m)
    (hbound : m ≤ bound) : Wiped dscr root k s u va bound where
  toStored := h.toStored.trans h'.toStored hva hbound
  gone a b hle hlt hsame := by
    by_cases hagain : ∃ a', m ≤ a' ∧ a' < bound ∧ (tables dscr root).Same dscr.last (k, a') b
    · obtain ⟨a', hle', hlt', hsame'⟩ := hagain
      exact h'.gone a' b hle' hlt' hsame'
    · rw [h'.others b fun a' hle' hlt' hsame' => hagain ⟨a', hle', hlt', hsame'⟩]
      refine h.gone a b hle (Nat.lt_of_not_le fun hma => ?_) hsame
      exact hagain ⟨a, hma, hlt, hsame⟩

theorem same_of_page {a' : Nat} (h : a / pageSize = a' / pageSize) :
    (tables dscr root).Same dscr.last (k, a) (k, a') := by
  apply same_of_div le_rfl
  rw [show ptLvlsize ⟨root k, dscr⟩ dscr.last = pageSize from ptLvlsize_last ⟨root k, dscr⟩]
  exact h

/-- A page whose entry is cleared. -/
theorem Wiped.single (h : PageTablesWf dscr root s) (haligned : va % pageSize = 0)
    (hreach : (tables dscr root).Reaches s.words dscr.last (k, va)) :
    Wiped dscr root k s (s.setWord ((tables dscr root).ptr s.words dscr.last (k, va)) 0) va
      (va + pageSize) := by
  have hstops : (tables dscr root).Stops s.words dscr.last (k, va) :=
    ⟨hreach, le_rfl, fun hne => absurd rfl hne⟩
  have hnone : dscr.last ≠ (tables dscr root).last → (tables dscr root).isTable (0 : Pte) = false :=
    fun hne => absurd rfl hne
  have hinvalid : pteValid 0 = true → (0 : Pte) &&& pteTypeMsk = ptePageType := by
    rw [pteValid_zero]
    intro hfalse
    cases hfalse
  have hpage : 0 < pageSize := by decide
  constructor
  · constructor
    · exact h.store hstops (fun _ => pteValid_zero) hinvalid
    · intro j b hj
      exact h.tree.reaches_update_iff hstops hnone hj
    · intro j b hj hb
      exact h.tree.ptr_update_stops hstops hb hj
    · intro b hb
      exact pageView_store_of_ne h hstops (hb va le_rfl (Nat.lt_add_of_pos_right hpage))
    · intro p hne
      refine ⟨dscr.last, va, le_rfl, hreach, ?_⟩
      by_contra hp
      exact hne (update_of_ne hp ..)
    · rfl
  · intro a b hle hlt hsame
    have hsame' : (tables dscr root).Same dscr.last (k, va) b := by
      apply (same_of_page _).trans hsame
      simp only [pageSize] at haligned hlt ⊢
      omega
    rw [MmuState.setWord, pageView_store_same h hstops hnone hsame', pteValid_pteView, pteValid_zero]

theorem Wiped.cleared (h : Wiped dscr root k s t va bound) : Cleared dscr root k s t va bound where
  toStored := h.toStored
  gone a hle hlt := h.gone a (k, a) hle hlt (.refl ..)

/-! ### The entries of a table -/

/-- `mem_free_ppages` does not return. -/
theorem freePpages_eq_none (s : MmuState) (ppages : Ppages) : freePpages s ppages = none := by
  have hnone : memFreePpages s.rootPool ppages = none := by
    cases hlocked : s.poolLocked with
    | false =>
      apply memFreePpages_eq_none
      rw [MmuState.rootPool, hlocked]
      rfl
    | true =>
      have hheld : spinLock s.rootPool.lock = none := by
        rw [MmuState.rootPool, hlocked]
        rfl
      rw [memFreePpages, hheld, Option.bind_none]
  rw [freePpages, hnone, Option.map_none]

theorem PtDscr.lt_sizeT (dscr : PtDscr) (h : top ≤ 2 ^ dscr.lvlWdt 0) : top < sizeT :=
  (h.trans (Nat.pow_le_pow_right Nat.two_pos dscr.wdt_le)).trans_lt (by decide)

/-- `lvl--`, where there is a level before. -/
theorem PtDscr.up_eq (dscr : PtDscr) (h : 0 < dscr.last) :
    (dscr.last + (sizeT - 1)) % sizeT = dscr.last - 1 := by
  have hfew := dscr.off_add (Nat.zero_le dscr.last)
  have hoff := dscr.off_lt_wdt
  have hmax := dscr.wdt_le
  simp only [sizeT]
  omega

/-- A page lies in the range as a whole, so `mem_unmap` does not expand its entry. -/
theorem unmapEntries_page (as : AddrSpace) (free : Bool) (s : MmuState) (left pte : Nat)
    (haligned : va % pageSize = 0) (htop : top < sizeT) (hend : va + pageSize ≤ top) :
    unmapEntries as top as.pt.dscr.last free (left + 1) s pte va =
      if free then none
      else unmapEntries as top as.pt.dscr.last false left (s.setWord pte 0) (pte + 8)
        (va + pageSize) := by
  have hpage : 0 < pageSize := by decide
  have hlt : va < top := by omega
  have hnotable : pteTable as.pt as.pt.dscr.last (s.words pte) = false := by
    simp [pteTable, PtDscr.last]
  have hmask : va &&& (pageSize - 1) = 0 := by
    rw [show pageSize - 1 = 2 ^ 12 - 1 from rfl, Nat.and_two_pow_sub_one_eq_mod]
    exact haligned
  have hnext : (va + pageSize) % sizeT = va + pageSize := by
    exact Nat.mod_eq_of_lt (hend.trans_lt htop)
  rw [unmapEntries]
  simp only [ptLvlsize_last, if_pos hlt, hnotable, Bool.not_false, if_true, hmask, Nat.sub_zero, hnext]
  rw [if_neg (by simp; omega)]
  cases free with
  | true => simp [freePpages_eq_none]
  | false => simp

/-- The inner loop clears the pages up to the end of the table or of the range. -/
theorem unmapEntries_wiped (type : AsType) {left pte : Nat} (h : PageTablesWf dscr root s) (htop : top < sizeT)
    (haligned : top % pageSize = 0) (hva : va % pageSize = 0) (hle : va ≤ top)
    (hpte : 0 < left → (tables dscr root).Reaches s.words dscr.last (k, va) ∧
      pte = (tables dscr root).ptr s.words dscr.last (k, va) ∧
      (tables dscr root).index dscr.last (k, va) + left = ptNentries ⟨root k, dscr⟩ dscr.last) :
    ∃ t left', unmapEntries ⟨⟨root k, dscr⟩, type⟩ top dscr.last false left s pte va =
        some (t, min (va + left * pageSize) top, dscr.last, left') ∧
      Wiped dscr root k s t va (min (va + left * pageSize) top) ∧
      (va + left * pageSize < top → left' = 0) := by
  induction left generalizing s va pte with
  | zero =>
    rw [Nat.zero_mul, Nat.add_zero, Nat.min_eq_left hle]
    exact ⟨s, 0, rfl, .refl h va, fun _ => rfl⟩
  | succ left ih =>
    by_cases hlt : va < top
    · have hend : va + pageSize ≤ top := by
        simp only [pageSize] at haligned hva ⊢
        omega
      obtain ⟨hreach, rfl, hrest⟩ := hpte (Nat.succ_pos left)
      have hsingle := Wiped.single h hva hreach
      have hsize : ptLvlsize ⟨root k, dscr⟩ dscr.last = pageSize := ptLvlsize_last ⟨root k, dscr⟩
      have hva' : (va + pageSize) % pageSize = 0 := by
        rw [Nat.add_mod_right]
        exact hva
      have hpte' (hmore : 0 < left) : (tables dscr root).Reaches
          (s.setWord ((tables dscr root).ptr s.words dscr.last (k, va)) 0).words dscr.last
            (k, va + pageSize) ∧
          (tables dscr root).ptr s.words dscr.last (k, va) + 8 = (tables dscr root).ptr
            (s.setWord ((tables dscr root).ptr s.words dscr.last (k, va)) 0).words dscr.last
              (k, va + pageSize) ∧
          (tables dscr root).index dscr.last (k, va + pageSize) + left =
            ptNentries ⟨root k, dscr⟩ dscr.last := by
        have hlast : (tables dscr root).index dscr.last (k, va) + 1 <
          ptNentries ⟨root k, dscr⟩ dscr.last := by omega
        have hindex := index_next root k le_rfl va hlast
        obtain ⟨hnext, hptr⟩ := ptr_next le_rfl hreach hlast
        rw [hsize] at hindex hnext hptr
        refine ⟨(hsingle.reaches _ _ le_rfl).mpr hnext, ?_, by omega⟩
        rw [hsingle.ptr _ _ le_rfl hnext, hptr]
      obtain ⟨t, left', ht, hwiped, hnone⟩ := ih hsingle.wf hva' hend hpte'
      rw [Nat.add_right_comm, Nat.add_assoc, ← Nat.succ_mul] at ht hwiped hnone
      refine ⟨t, left', ?_, ?_, hnone⟩
      · have hstep := unmapEntries_page ⟨⟨root k, dscr⟩, type⟩ false s left
          ((tables dscr root).ptr s.words dscr.last (k, va)) hva htop hend
        exact hstep.trans ht
      · refine hsingle.trans hwiped (Nat.le_add_right va pageSize) ?_
        apply Nat.le_min.mpr
        rw [Nat.succ_mul]
        exact ⟨by omega, hend⟩
    · have heq : top = va := Nat.le_antisymm (Nat.le_of_not_lt hlt) hle
      rw [heq, Nat.min_eq_right (Nat.le_add_right va _)]
      refine ⟨s, left + 1, ?_, .refl h va,
        fun hmore => absurd hmore (Nat.not_lt_of_le (Nat.le_add_right va _))⟩
      rw [unmapEntries, if_neg (lt_irrefl va)]

/-- The addresses of a table of the last level. -/
def ptLastSpan (pt : PageTable) : Nat := ptNentries pt (pt.dscr.lvls - 1) * pageSize

theorem ptLastSpan_eq (pt : PageTable) : ptLastSpan pt = ptNentries pt pt.dscr.last * pageSize := rfl

theorem ptLastSpan_pos (pt : PageTable) : 0 < ptLastSpan pt := by
  obtain ⟨w, hw⟩ := ptNentries_pow pt (le_refl pt.dscr.last)
  rw [ptLastSpan_eq, hw]
  exact Nat.mul_pos (Nat.two_pow_pos w) (by decide)

/-- A table that is the first and the last one has all addresses. -/
theorem ptLastSpan_single (pt : PageTable) (h : pt.dscr.last = 0) : ptLastSpan pt = ptSpan pt := by
  have hoff := pt.dscr.off_last
  have hlt := pt.dscr.off_lt_wdt
  rw [show pt.dscr.lvls - 1 = pt.dscr.last from rfl, h] at hoff
  rw [ptLastSpan_eq, h, ptNentries_zero, ptSpan_eq, hoff, show pageSize = 2 ^ 12 from rfl,
    ← Nat.pow_add, Nat.sub_add_cancel (hoff ▸ hlt.le)]

/-- The pages from a page to the end of its table. -/
theorem table_end (dscr : PtDscr) (root : κ → Nat) (k : κ) (hva : va % pageSize = 0) :
    va + (ptNentries ⟨root k, dscr⟩ dscr.last - (tables dscr root).index dscr.last (k, va)) * pageSize =
      (va / ptLastSpan ⟨root k, dscr⟩ + 1) * ptLastSpan ⟨root k, dscr⟩ := by
  have hlt := index_lt root k (le_refl dscr.last) va
  have hindex := index_eq root k (le_refl dscr.last) va
  have hspan : ptLastSpan ⟨root k, dscr⟩ = ptNentries ⟨root k, dscr⟩ dscr.last * pageSize := rfl
  have hsize : ptLvlsize ⟨root k, dscr⟩ dscr.last = pageSize := ptLvlsize_last ⟨root k, dscr⟩
  rw [hsize] at hindex
  have hpages := Nat.div_add_mod' va pageSize
  have htables := Nat.div_add_mod' (va / pageSize) (ptNentries ⟨root k, dscr⟩ dscr.last)
  rw [hspan, Nat.mul_comm (ptNentries _ _), ← Nat.div_div_eq_div_mul, Nat.mul_comm pageSize,
    ← Nat.mul_assoc]
  generalize ptNentries ⟨root k, dscr⟩ dscr.last = entries at *
  rw [hindex] at hlt ⊢
  have hrows : va / pageSize + (entries - va / pageSize % entries) =
      (va / pageSize / entries + 1) * entries := by
    rw [Nat.add_mul, Nat.one_mul]
    omega
  rw [← hrows, Nat.add_mul]
  omega

/-! ### One round -/

section

variable {as : AddrSpace} {free : Bool} {fuel lvl : Nat}

theorem unmapEntries_wild {left pte left' : Nat} (hwild : s.wild = true)
    (h : unmapEntries as top lvl free left s pte va = some (t, bound, l, left')) : t.wild = true := by
  induction left generalizing s pte va with
  | zero =>
    cases h
    exact hwild
  | succ left ih =>
    rw [unmapEntries] at h
    dsimp only at h
    split at h
    · split at h
      · split at h
        · obtain ⟨u, hu, h⟩ := Option.map_eq_some_iff.mp h
          cases h
          by_cases hlast : lvl < as.pt.dscr.last
          · apply memExpandPte_wild hlast _ hu
            rw [MmuState.walk, hwild, Bool.true_or]
          · have hbehind : as.pt.dscr.lvls - 1 ≤ lvl := Nat.le_of_not_lt hlast
            rw [memExpandPte, if_pos hbehind] at hu
            cases hu
            exact hwild
        · obtain ⟨u, hu, h⟩ := Option.bind_eq_some_iff.mp h
          split at hu
          · rw [freePpages_eq_none] at hu
            cases hu
          · cases hu
            apply ih _ h
            exact hwild
      · cases h
        exact hwild
    · cases h
      exact hwild

/-- A walk that leaves the tables is not forgotten. -/
theorem unmapLoop_wild (hwild : s.wild = true) (h : unmapLoop as top free fuel s va lvl = some t) :
    t.wild = true := by
  induction fuel generalizing s va lvl with
  | zero => cases h
  | succ fuel ih =>
    have hwalk : (s.walk as.pt lvl va).wild = true := by rw [MmuState.walk, hwild, Bool.true_or]
    rw [unmapLoop] at h
    dsimp only at h
    split at h
    · split at h
      · cases h
      · split at h
        · exact ih hwalk h
        · split at h
          · exact ih hwalk h
          · obtain ⟨⟨u, bound, l, left⟩, hu, h⟩ := Option.bind_eq_some_iff.mp h
            exact ih (unmapEntries_wild hwalk hu) h
    · cases h
      exact hwild

theorem unmapLoop_strays (hlt : va < top) (hwalk : (s.walk as.pt lvl va).wild = true)
    (h : unmapLoop as top free fuel s va lvl = some t) : t.wild = true := by
  cases fuel with
  | zero => cases h
  | succ fuel =>
    rw [unmapLoop, if_pos hlt] at h
    dsimp only at h
    split at h
    · cases h
    · split at h
      · exact unmapLoop_wild hwalk h
      · split at h
        · exact unmapLoop_wild hwalk h
        · obtain ⟨⟨u, bound, l, left⟩, hu, h⟩ := Option.bind_eq_some_iff.mp h
          exact unmapLoop_wild (unmapEntries_wild hwalk hu) h

theorem unmapLoop_done (hle : top ≤ va) : unmapLoop as top free (fuel + 1) s va lvl = some s := by
  rw [unmapLoop, if_neg (Nat.not_lt_of_le hle)]

end

variable {free : Bool} {fuel lvl : Nat}

/-- Where a walk leaves the tables, it is not forgotten. -/
theorem unmapLoop_lost (hl : lvl ≤ dscr.last) (hlt : va < top)
    (hreach : ¬(tables dscr root).Reaches s.words lvl (k, va))
    (h : unmapLoop ⟨⟨root k, dscr⟩, type⟩ top free fuel s va lvl = some t) : t.wild = true := by
  have hwalk : (s.walk ⟨root k, dscr⟩ lvl va).wild = true :=
    MmuState.walk_wild_of_not_reaches hl hreach
  exact unmapLoop_strays hlt hwalk h

/-- A round at a table goes down. -/
theorem unmapLoop_down (h : PageTablesWf dscr root s) (hl : lvl < dscr.last) (hlt : va < top)
    (hreach : (tables dscr root).Reaches s.words (lvl + 1) (k, va)) :
    unmapLoop ⟨⟨root k, dscr⟩, type⟩ top free (fuel + 1) s va lvl =
      unmapLoop ⟨⟨root k, dscr⟩, type⟩ top free fuel s va (lvl + 1) := by
  have hbefore := hreach.mono (Nat.le_succ lvl)
  have hpos := h.ptr_pos hl.le hbefore
  have htable := hreach lvl (Nat.lt_succ_self lvl)
  have hvalid := pteValid_of_type (of_decide_eq_true htable)
  rw [unmapLoop, if_pos hlt]
  simp only [MmuState.walk_of_reaches hl.le hbefore, ptGetPte_eq, pteTable_eq hl, htable, hvalid,
    if_neg hpos.ne', Bool.not_true, Bool.false_eq_true, if_false, if_true]

/-- A round at an invalid entry goes on by its size. -/
theorem unmapLoop_hole (h : PageTablesWf dscr root s) (hlt : va < top)
    (hstops : (tables dscr root).Stops s.words lvl (k, va))
    (hview : pteValid (pageView dscr root s.words (k, va)) = false) :
    unmapLoop ⟨⟨root k, dscr⟩, type⟩ top free (fuel + 1) s va lvl =
      unmapLoop ⟨⟨root k, dscr⟩, type⟩ top free fuel s
        ((va + ptLvlsize ⟨root k, dscr⟩ lvl) % sizeT) lvl := by
  have hpos := h.ptr_pos hstops.le_last hstops.reaches
  rw [pageView_eq hstops, pteValid_pteView] at hview
  rw [unmapLoop, if_pos hlt]
  simp only [MmuState.walk_of_reaches hstops.le_last hstops.reaches, ptGetPte_eq, hview,
    if_neg hpos.ne', Bool.not_false, if_true]

theorem unmapLoop_over (h : PageTablesWf dscr root s) (hlt : va < top) (htop : top ≤ 2 ^ 48)
    (hstops : (tables dscr root).Stops s.words lvl (k, va))
    (hview : pteValid (pageView dscr root s.words (k, va)) = false) :
    unmapLoop ⟨⟨root k, dscr⟩, type⟩ top free (fuel + 1) s va lvl =
      unmapLoop ⟨⟨root k, dscr⟩, type⟩ top free fuel s (va + ptLvlsize ⟨root k, dscr⟩ lvl) lvl := by
  rw [unmapLoop_hole h hlt hstops hview, next_eq ⟨root k, dscr⟩ hstops.le_last htop hlt]

/-- Before the last level no entry is a page. -/
theorem stops_last (h : PageTablesWf dscr root s) (hstops : (tables dscr root).Stops s.words lvl (k, va))
    (hview : pteValid (pageView dscr root s.words (k, va)) = true) : lvl = dscr.last := by
  by_contra hne
  have hlt : lvl < dscr.last := by
    have hle := hstops.le_last
    have hle' : lvl ≤ dscr.last := hle
    omega
  rw [pageView_eq hstops, pteValid_pteView, h.not_valid hlt hstops] at hview
  cases hview

/-- A round at a page clears up to the end of its table or of the range, unless the pages are to be given
back. -/
theorem unmapLoop_wiped (type : AsType) (free : Bool) (fuel : Nat) (h : PageTablesWf dscr root s)
    (hlt : va < top) (hva : va % pageSize = 0) (htop : top < sizeT) (haligned : top % pageSize = 0)
    (hreach : (tables dscr root).Reaches s.words dscr.last (k, va))
    (hview : pteValid (pageView dscr root s.words (k, va)) = true) :
    ∃ t lvl', unmapLoop ⟨⟨root k, dscr⟩, type⟩ top free (fuel + 1) s va dscr.last =
        (if free then none else unmapLoop ⟨⟨root k, dscr⟩, type⟩ top free fuel t
          (min ((va / ptLastSpan ⟨root k, dscr⟩ + 1) * ptLastSpan ⟨root k, dscr⟩) top) lvl') ∧
      Wiped dscr root k s t va
        (min ((va / ptLastSpan ⟨root k, dscr⟩ + 1) * ptLastSpan ⟨root k, dscr⟩) top) ∧
      ((va / ptLastSpan ⟨root k, dscr⟩ + 1) * ptLastSpan ⟨root k, dscr⟩ < top →
        lvl' = (dscr.last + (sizeT - 1)) % sizeT) := by
  have hstops : (tables dscr root).Stops s.words dscr.last (k, va) :=
    ⟨hreach, le_rfl, fun hne => absurd rfl hne⟩
  have hend : va + pageSize ≤ top := by
    simp only [pageSize] at hva haligned ⊢
    omega
  have hpos := h.ptr_pos le_rfl hreach
  have hi := index_lt root k (le_refl dscr.last) va
  obtain ⟨left, hleft⟩ := Nat.exists_eq_add_of_lt hi
  have hrest : (tables dscr root).index dscr.last (k, va) + (left + 1) =
      ptNentries ⟨root k, dscr⟩ dscr.last := by omega
  have hend' := table_end dscr root k hva
  rw [← hrest, Nat.add_sub_cancel_left] at hend'
  obtain ⟨t, left', hentries, hwiped, hnone⟩ := unmapEntries_wiped type h htop haligned hva hlt.le
    fun _ => ⟨hreach, rfl, hrest⟩
  rw [hend'] at hentries hwiped hnone
  rw [pageView_eq hstops, pteValid_pteView] at hview
  refine ⟨t, if left' = 0 then (dscr.last + (sizeT - 1)) % sizeT else dscr.last, ?_, hwiped,
    fun hmore => if_pos (hnone hmore)⟩
  rw [unmapLoop, if_pos hlt]
  simp only [MmuState.walk_of_reaches le_rfl hreach, ptGetPte_eq, hview, pteTable_last,
    if_neg hpos.ne', Bool.not_true, Bool.false_eq_true, if_false, ptGetpteindex_ptr h le_rfl va]
  rw [← hrest, Nat.add_sub_cancel_left]
  cases free with
  | true =>
    have hstep := unmapEntries_page ⟨⟨root k, dscr⟩, type⟩ true s left
      ((tables dscr root).ptr s.words dscr.last (k, va)) hva htop hend
    rw [show unmapEntries ⟨⟨root k, dscr⟩, type⟩ top dscr.last true (left + 1) s
      ((tables dscr root).ptr s.words dscr.last (k, va)) va = none from hstep]
    rfl
  | false =>
    rw [hentries]
    rfl

/-- Within the span, the level behind such a round is the one before the last. -/
theorem unmapLoop_pages (type : AsType) (free : Bool) (fuel : Nat) (h : PageTablesWf dscr root s) (hlt : va < top)
    (hva : va % pageSize = 0) (htop : top ≤ 2 ^ dscr.lvlWdt 0) (haligned : top % pageSize = 0)
    (hreach : (tables dscr root).Reaches s.words dscr.last (k, va))
    (hview : pteValid (pageView dscr root s.words (k, va)) = true) :
    ∃ t lvl', unmapLoop ⟨⟨root k, dscr⟩, type⟩ top free (fuel + 1) s va dscr.last =
        (if free then none else unmapLoop ⟨⟨root k, dscr⟩, type⟩ top free fuel t
          (min ((va / ptLastSpan ⟨root k, dscr⟩ + 1) * ptLastSpan ⟨root k, dscr⟩) top) lvl') ∧
      Cleared dscr root k s t va
        (min ((va / ptLastSpan ⟨root k, dscr⟩ + 1) * ptLastSpan ⟨root k, dscr⟩) top) ∧
      ((va / ptLastSpan ⟨root k, dscr⟩ + 1) * ptLastSpan ⟨root k, dscr⟩ < top →
        0 < dscr.last ∧ lvl' = dscr.last - 1) := by
  obtain ⟨t, lvl', hround, hwiped, hlvl⟩ := unmapLoop_wiped type free fuel h hlt hva (dscr.lt_sizeT htop)
    haligned hreach hview
  refine ⟨t, lvl', hround, hwiped.cleared, fun hmore => ?_⟩
  have hlast : 0 < dscr.last := by
    by_contra hzero
    have hwhole : ptLastSpan ⟨root k, dscr⟩ = 2 ^ dscr.lvlWdt 0 :=
      (ptLastSpan_single ⟨root k, dscr⟩ (Nat.eq_zero_of_not_pos hzero)).trans (ptSpan_eq _)
    have hall := Nat.le_mul_of_pos_left (ptLastSpan ⟨root k, dscr⟩)
      (Nat.succ_pos (va / ptLastSpan ⟨root k, dscr⟩))
    have hle : 2 ^ dscr.lvlWdt 0 ≤
        (va / ptLastSpan ⟨root k, dscr⟩ + 1) * ptLastSpan ⟨root k, dscr⟩ := hwhole ▸ hall
    omega
  refine ⟨hlast, ?_⟩
  rw [hlvl hmore, dscr.up_eq hlast]

end

end Avisor
