import Avisor.Mem.Allocating
import Avisor.Mem.Detaching

/-!
# Translations behind a call

What `mem_map`, `mem_alloc_map` and `mem_unmap` make of the translations of all address spaces. However far `mem_unmap`
comes, as long as it follows tables, a page is mapped behind it as before or not any more; a call that gives pages back
does what one that keeps them does, if it comes back at all.
-/

universe u

namespace Avisor

variable {κ : Type u} {dscr : PtDscr} {root : κ → Nat} {s t u : MmuState} {k : κ}
  {a va top n base fuel lvl : Nat} {type : AsType}

/-- In `t`, the tables say of each page what they say in `s`, or that it is not mapped. -/
structure Shrunk (dscr : PtDscr) (root : κ → Nat) (s t : MmuState) : Prop where
  wf : PageTablesWf dscr root t
  view : ∀ b, pageView dscr root t.words b = pageView dscr root s.words b ∨
    pteValid (pageView dscr root t.words b) = false
  pool : t.pool = s.pool

theorem Shrunk.refl (h : PageTablesWf dscr root s) : Shrunk dscr root s s where
  wf := h
  view _ := .inl rfl
  pool := rfl

theorem Shrunk.trans (h : Shrunk dscr root s t) (h' : Shrunk dscr root t u) : Shrunk dscr root s u where
  wf := h'.wf
  view b := by
    rcases h'.view b with heq | hgone
    · rw [heq]
      exact h.view b
    · exact .inr hgone
  pool := h'.pool.trans h.pool

theorem Wiped.shrunk {bound : Nat} (h : Wiped dscr root k s t va bound) : Shrunk dscr root s t where
  wf := h.wf
  view b := by
    by_cases hin : ∃ a, va ≤ a ∧ a < bound ∧ (tables dscr root).Same dscr.last (k, a) b
    · obtain ⟨a, hlow, hlt, hsame⟩ := hin
      exact .inr (h.gone a b hlow hlt hsame)
    · exact .inl (h.others b fun a hlow hlt hsame => hin ⟨a, hlow, hlt, hsame⟩)
  pool := h.pool

/-- The loop, from any address and level, if it comes back through tables. -/
theorem unmapLoop_shrunk (h : PageTablesWf dscr root s) (htop : top < sizeT) (haligned : top % pageSize = va % pageSize)
    (hrun : unmapLoop ⟨⟨root k, dscr⟩, type⟩ top false fuel s va lvl = some t) (htame : t.wild = false) :
    Shrunk dscr root s t := by
  have hlost (hwild : t.wild = true) : False := Bool.false_ne_true (htame.symm.trans hwild)
  induction fuel generalizing s va lvl with
  | zero => cases hrun
  | succ fuel ih =>
    by_cases hlt : va < top
    · have hlast : lvl ≤ dscr.last := by
        by_contra hbeyond
        exact hlost (unmapLoop_beyond (Nat.lt_of_not_le hbeyond) hlt hrun)
      have hreach : (tables dscr root).Reaches s.words lvl (k, va) := by
        by_contra hnot
        exact hlost (unmapLoop_lost hlast hlt hnot hrun)
      rcases reaches_or_stops hlast hreach with ⟨hmore, hdown⟩ | hstops
      · rw [unmapLoop_down h hmore hlt hdown] at hrun
        exact ih h haligned hrun
      · cases hpage : pteValid (pageView dscr root s.words (k, va)) with
        | false =>
          rw [unmapLoop_hole h hlt hstops hpage] at hrun
          refine ih h ?_ hrun
          have hsize := ptLvlsize_aligned ⟨root k, dscr⟩ hlast
          rw [haligned, Nat.mod_mod_of_dvd _ (by decide : pageSize ∣ sizeT), Nat.add_mod, hsize, Nat.add_zero,
            Nat.mod_mod]
        | true =>
          obtain rfl := stops_last h hstops hpage
          have hstart : va % pageSize = 0 := by
            by_contra hinside
            exact hlost (unmapLoop_inside h hlt hinside hreach hpage hrun)
          obtain ⟨u, lvl', hround, hwiped, -⟩ := unmapLoop_wiped type false fuel h hlt hstart htop
            (haligned.trans hstart) hreach hpage
          rw [hround, if_neg Bool.false_ne_true] at hrun
          refine hwiped.shrunk.trans (ih hwiped.wf ?_ hrun)
          have hnext : (va / ptLastSpan ⟨root k, dscr⟩ + 1) * ptLastSpan ⟨root k, dscr⟩ % pageSize = 0 := by
            rw [ptLastSpan_eq, ← Nat.mul_assoc, Nat.mul_mod_left]
          rcases Nat.le_total ((va / ptLastSpan ⟨root k, dscr⟩ + 1) * ptLastSpan ⟨root k, dscr⟩) top with hle | hle
          · rw [Nat.min_eq_left hle, haligned, hstart, hnext]
          · rw [Nat.min_eq_right hle]
    · rw [unmapLoop_done (Nat.le_of_not_lt hlt)] at hrun
      cases hrun
      exact .refl h

/-! ### Giving pages back -/

theorem unmapEntries_of_free {as : AddrSpace} {left pte : Nat} {r : MmuState × Nat × Nat × Nat}
    (h : unmapEntries as top lvl true left s pte va = some r) :
    unmapEntries as top lvl false left s pte va = some r := by
  induction left generalizing s pte va with
  | zero => exact h
  | succ left ih =>
    unfold unmapEntries at h ⊢
    simp only [freePpages_eq_none, if_true, Option.bind_none] at h
    grind

/-- A call that gives pages back does not come back from one. -/
theorem unmapLoop_of_free {as : AddrSpace} (h : unmapLoop as top true fuel s va lvl = some t) :
    unmapLoop as top false fuel s va lvl = some t := by
  induction fuel generalizing s va lvl with
  | zero => exact h
  | succ fuel ih =>
    unfold unmapLoop at h ⊢
    dsimp only at h ⊢
    split_ifs at h ⊢ with hlt hzero hinvalid htable
    · exact ih h
    · exact ih h
    · obtain ⟨r, hentries, hrest⟩ := Option.bind_eq_some_iff.mp h
      rw [unmapEntries_of_free hentries]
      exact ih hrest
    · exact h

/-! ### A call -/

/-- `mem_unmap` meets each page at its start and goes on through tables. -/
def UnmapStays (words : Nat → Pte) (pt : PageTable) (va n : Nat) : Prop :=
  ∀ i, (unmapPlace words pt va i).va < (va + n * pageSize) % sizeT →
    (unmapPlace words pt va i).Stays words pt ((va + n * pageSize) % sizeT)

theorem memUnmap_shrunk {free : Bool} (h : PageTablesWf dscr root s) (hstays : UnmapStays s.words ⟨root k, dscr⟩ va n)
    (hrun : memUnmap ⟨⟨root k, dscr⟩, type⟩ s va n free = some t) : Shrunk dscr root s t := by
  have htop : (va + n * pageSize) % sizeT < sizeT := Nat.mod_lt _ (by decide)
  have haligned : (va + n * pageSize) % sizeT % pageSize = va % pageSize := by
    rw [Nat.mod_mod_of_dvd _ (by decide : pageSize ∣ sizeT), Nat.add_mul_mod_self_right]
  have hrounds : 2 * (((va + n * pageSize) % sizeT - va) / pageSize) + (dscr.last - 0) < 2 * n + dscr.lvls + 1 := by
    have hle : (va + n * pageSize) % sizeT - va ≤ n * pageSize := by
      have hmod := Nat.mod_le (va + n * pageSize) sizeT
      omega
    have hpages := Nat.div_le_div_right (c := pageSize) hle
    have hlvls := dscr.lvls_eq
    rw [Nat.mul_div_cancel n (by decide)] at hpages
    omega
  have hkeep : unmapLoop ⟨⟨root k, dscr⟩, type⟩ ((va + n * pageSize) % sizeT) false (2 * n + dscr.lvls + 1) s va 0 =
      some t := by
    cases free with
    | false => exact hrun
    | true => exact unmapLoop_of_free hrun
  obtain ⟨t', hrun', htame⟩ := (Tracks.start h k va).returns type htop haligned
    (fun _ => ⟨Nat.zero_le _, RadixTable.reaches_zero⟩) hrounds hstays
  obtain rfl : t = t' := Option.some.inj (hkeep.symm.trans hrun')
  exact unmapLoop_shrunk h htop haligned hkeep htame

/-! ### Ranges that are mapped -/

/-- `n` pages of `k` from `va` on come to be mapped to those from `base` on, all other addresses are translated as
before, and no page is given back. -/
structure Remapped (dscr : PtDscr) (root : κ → Nat) (k : κ) (s t : MmuState) (va n base : Nat) : Prop where
  wf : PageTablesWf dscr root t
  inside : ∀ a, va ≤ a → a < va + n * pageSize →
    ∃ flags, translate t.words ⟨root k, dscr⟩ a = some (base + (a - va), flags)
  others : ∀ k' a, ¬(k' = k ∧ va ≤ a ∧ a < va + n * pageSize) →
    translate t.words ⟨root k', dscr⟩ a = translate s.words ⟨root k', dscr⟩ a
  taken : ∀ p, t.pool.FreeAt p → s.pool.FreeAt p

theorem translate_congr (h : PageTablesWf dscr root s) (ht : PageTablesWf dscr root t)
    (hview : a < 2 ^ dscr.lvlWdt 0 → pageView dscr root t.words (k, a) = pageView dscr root s.words (k, a)) :
    translate t.words ⟨root k, dscr⟩ a = translate s.words ⟨root k, dscr⟩ a := by
  rw [translate_eq ht, translate_eq h]
  by_cases hlow : a < 2 ^ dscr.lvlWdt 0
  · rw [hview hlow]
  · rw [if_neg fun hboth => hlow hboth.1, if_neg fun hboth => hlow hboth.1]

theorem Shrunk.translate {x : Nat × Pte} (h : PageTablesWf dscr root s) (hshrunk : Shrunk dscr root s t)
    (hx : translate t.words ⟨root k, dscr⟩ a = some x) : translate s.words ⟨root k, dscr⟩ a = some x := by
  rcases hshrunk.view (k, a) with heq | hgone
  · rwa [translate_congr h hshrunk.wf fun _ => heq] at hx
  · rw [translate_eq hshrunk.wf, hgone, if_neg fun hboth => Bool.false_ne_true hboth.2] at hx
    cases hx

/-- Translations of whole pages are translations of their addresses. -/
theorem translate_inside {words : Nat → Pte} {pt : PageTable} {flags : Pte}
    (h : ∀ i < n, ∀ offset < pageSize, translate words pt (va + i * pageSize + offset) =
      some (base + i * pageSize + offset, flags)) (hva : va ≤ a) (ha : a < va + n * pageSize) :
    translate words pt a = some (base + (a - va), flags) := by
  have hpos : 0 < pageSize := by decide
  have hi : (a - va) / pageSize < n := by
    rw [Nat.div_lt_iff_lt_mul hpos]
    omega
  have hsplit := Nat.div_add_mod' (a - va) pageSize
  have hpage := h _ hi _ (Nat.mod_lt (a - va) hpos)
  rwa [Nat.add_assoc, hsplit, Nat.add_sub_cancel' hva, Nat.add_assoc, hsplit] at hpage

theorem Installed.remapped {page : Option Ppages} {flags : Pte} (hs : PageTablesWf dscr root s)
    (h : Installed dscr root k s t page va n base flags) (haligned : va % pageSize = 0)
    (hspan : va + n * pageSize ≤ 2 ^ dscr.lvlWdt 0) : Remapped dscr root k s t va n base where
  wf := h.wf
  inside a hva ha := ⟨_, translate_inside h.pages hva ha⟩
  others k' a hout := by
    refine translate_congr hs h.wf fun hlow => h.others _ fun b hb hlt hsame => hout ?_
    have hk : k' = k := (hs.root_injective (same_last_iff (hlt.trans_le hspan) hlow |>.mp hsame).1).symm
    subst hk
    by_contra hfar
    exact not_same_of_outside haligned hspan hlow (fun hin => hfar ⟨rfl, hin⟩) hb hlt hsame
  taken := h.taken

/-- `mem_map` of an attach. -/
theorem memMap_remapped (type : AsType) (flags : Pte) (h : PageTablesWf dscr root s)
    (hsupplied : Supplied dscr root k (Finset.Ico (va / pageSize) (va / pageSize + n)) s)
    (hspan : va / pageSize * pageSize + n * pageSize ≤ ptSpan ⟨root k, dscr⟩) (hpage : base % pageSize = 0)
    (hbase : base + n * pageSize ≤ 2 ^ 48)
    (hsteps : ∀ l < dscr.last, StepsCover s.words ⟨root k, dscr⟩ (va / pageSize * pageSize) (n * pageSize) l) :
    ∃ t, memMap ⟨⟨root k, dscr⟩, type⟩ s va (some ⟨base, n⟩) n flags = some t ∧
      Remapped dscr root k s t (va / pageSize * pageSize) n base := by
  rw [ptSpan_eq] at hspan
  obtain ⟨u, t, hrun, hgrown, hmapped⟩ := memMap_mapped type flags h hsupplied hspan hbase fun l hl =>
    covers_of_steps hl hspan (hsteps l hl)
  have hva : va / pageSize * pageSize % pageSize = 0 := Nat.mul_mod_left ..
  refine ⟨t, hrun, hmapped.wf, fun a hlow hlt => ⟨(ptePageType ||| flags) &&& pteFlagsMsk,
    translate_inside (fun i hi offset hoffset => ?_) hlow hlt⟩,
    fun k' a hout => ?_, fun p hp => ?_⟩
  · exact translate_page hmapped hva hspan hpage hbase hi hoffset
  · rw [translate_other hmapped hgrown.wf hva hspan hout]
    exact translate_congr h hgrown.wf fun _ => hgrown.view _
  · rw [hmapped.pool] at hp
    exact hgrown.taken p hp

end Avisor
