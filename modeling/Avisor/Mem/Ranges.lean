import Avisor.Mem.PageTrees
import Mathlib.Data.List.Find

/-!
# Ranges of entries

The entries of a table lie in a row, and addresses one entry apart have neighbours. Stores to the entries
of a range leave what the tables say of all other addresses.
-/

universe u

namespace Avisor

open Function

variable {κ : Type u}

section

variable {dscr : PtDscr} {root : κ → Nat} {s t u : MmuState} {k : κ} {l m a va bound : Nat}
  {b : κ × Nat}

theorem ptLvlsize_pos (pt : PageTable) (l : Nat) : 0 < ptLvlsize pt l := by
  rw [ptLvlsize_eq]
  exact Nat.two_pow_pos _

/-- An entry has whole pages. -/
theorem ptLvlsize_aligned (pt : PageTable) (h : l ≤ pt.dscr.last) : ptLvlsize pt l % pageSize = 0 := by
  rw [ptLvlsize_eq, ← Nat.sub_add_cancel (pt.dscr.off_ge h), Nat.pow_add]
  exact Nat.mul_mod_left ..

/-- An entry is made of whole entries of a level behind. -/
theorem ptLvlsize_dvd (pt : PageTable) (hl : l ≤ m) (hm : m ≤ pt.dscr.last) :
    ptLvlsize pt m ∣ ptLvlsize pt l := by
  rw [ptLvlsize_eq, ptLvlsize_eq]
  apply Nat.pow_dvd_pow
  rw [pt.dscr.off_add hm, pt.dscr.off_add (hl.trans hm)]
  omega

/-- Within the span, the entry at the last level is that of the page. -/
theorem same_last_iff {a' : Nat} {k' : κ} (ha : a < 2 ^ dscr.lvlWdt 0) (ha' : a' < 2 ^ dscr.lvlWdt 0) :
    (tables dscr root).Same dscr.last (k, a) (k', a') ↔
      root k = root k' ∧ a / pageSize = a' / pageSize := by
  have hoff : dscr.lvlOff dscr.last = 12 := dscr.off_last
  rw [same_iff le_rfl]
  unfold PtDscr.block
  rw [Nat.mod_eq_of_lt ha, Nat.mod_eq_of_lt ha', hoff]
  rfl

/-- Within the span, addresses have an entry in common if the size of the entry says so. -/
theorem same_iff_div {a' : Nat} (hl : l ≤ dscr.last) (ha : a < 2 ^ dscr.lvlWdt 0)
    (ha' : a' < 2 ^ dscr.lvlWdt 0) : (tables dscr root).Same l (k, a) (k, a') ↔
      a / ptLvlsize ⟨root k, dscr⟩ l = a' / ptLvlsize ⟨root k, dscr⟩ l := by
  rw [same_iff hl, ptLvlsize_eq]
  unfold PtDscr.block
  rw [Nat.mod_eq_of_lt ha, Nat.mod_eq_of_lt ha']
  exact and_iff_right rfl

theorem PtDscr.block_eq (hl : l ≤ dscr.last) (va : Nat) :
    dscr.block l va = va / 2 ^ dscr.lvlOff l % 2 ^ (dscr.lvlWdt 0 - dscr.lvlOff l) := by
  unfold PtDscr.block
  rw [← Nat.mod_mul_right_div_self, ← Nat.pow_add, Nat.add_sub_cancel' (dscr.off_le hl).le]

/-- Addresses in one entry have it in common, wherever they are. -/
theorem same_of_div {a' : Nat} (hl : l ≤ dscr.last)
    (h : a / ptLvlsize ⟨root k, dscr⟩ l = a' / ptLvlsize ⟨root k, dscr⟩ l) :
    (tables dscr root).Same l (k, a) (k, a') := by
  rw [ptLvlsize_eq] at h
  refine (same_iff hl).mpr ⟨rfl, ?_⟩
  rw [dscr.block_eq hl, dscr.block_eq hl]
  exact congrArg (· % _) h

/-! ### What an address is said -/

theorem walkEnd_eq (words : Nat → Pte) (va : Nat) :
    walkEnd words ⟨root k, dscr⟩ va = (tables dscr root).stop words (k, va) := by
  have hsame (l) (hl : l ∈ List.range dscr.last) :
      (!pteTable ⟨root k, dscr⟩ l (words (ptGetPte words ⟨root k, dscr⟩ l va))) =
        !(tables dscr root).isTable (words ((tables dscr root).ptr words l (k, va))) := by
    rw [pteTable_eq (List.mem_range.mp hl), ptGetPte_eq]
  unfold walkEnd RadixTable.stop
  have hfind : (List.range dscr.last).find? (fun l =>
      !pteTable ⟨root k, dscr⟩ l (words (ptGetPte words ⟨root k, dscr⟩ l va))) =
      (List.range dscr.last).find? fun l =>
        !(tables dscr root).isTable (words ((tables dscr root).ptr words l (k, va))) :=
    List.find?_congr hsame
  exact congrArg (·.getD dscr.last) hfind

/-- An address in the span is translated if its page is mapped. -/
theorem translate_isSome (h : PageTablesWf dscr root s) (hlow : va < 2 ^ dscr.lvlWdt 0) :
    (translate s.words ⟨root k, dscr⟩ va).isSome = pteValid (pageView dscr root s.words (k, va)) := by
  rw [translate_eq h]
  cases hview : pteValid (pageView dscr root s.words (k, va)) with
  | false => rw [if_neg (by simp), Option.isSome_none]
  | true => rw [if_pos ⟨hlow, rfl⟩, Option.isSome_some]

theorem translate_eq_none (h : PageTablesWf dscr root s) (hlow : va < 2 ^ dscr.lvlWdt 0) :
    translate s.words ⟨root k, dscr⟩ va = none ↔
      pteValid (pageView dscr root s.words (k, va)) = false := by
  rw [← translate_isSome h hlow, Option.isSome_eq_false_iff, Option.isNone_iff_eq_none]

theorem walkEnd_le (dscr : PtDscr) (root : κ → Nat) (k : κ) (words : Nat → Pte) (va : Nat) :
    walkEnd words ⟨root k, dscr⟩ va ≤ dscr.last := by
  rw [walkEnd_eq]
  exact (RadixTable.stops_stop (tables dscr root) words (k, va)).le_last

/-! ### Neighbours -/

theorem ptNentries_pow (pt : PageTable) (h : l ≤ pt.dscr.last) : ∃ w, ptNentries pt l = 2 ^ w := by
  cases l with
  | zero => exact ⟨_, ptNentries_zero pt⟩
  | succ l => exact ⟨9, ptNentries_succ pt h⟩

/-- The number of an entry in its table. -/
theorem index_eq (root : κ → Nat) (k : κ) (h : l ≤ dscr.last) (va : Nat) :
    (tables dscr root).index l (k, va) =
      va / ptLvlsize ⟨root k, dscr⟩ l % ptNentries ⟨root k, dscr⟩ l := by
  obtain ⟨w, hw⟩ := ptNentries_pow ⟨root k, dscr⟩ h
  show (va >>> dscr.lvlOff l) &&& (ptNentries ⟨root k, dscr⟩ l - 1) = _
  rw [hw, Nat.and_two_pow_sub_one_eq_mod, Nat.shiftRight_eq_div_pow, ptLvlsize_eq]

theorem index_lt (root : κ → Nat) (k : κ) (h : l ≤ dscr.last) (va : Nat) :
    (tables dscr root).index l (k, va) < ptNentries ⟨root k, dscr⟩ l := by
  obtain ⟨w, hw⟩ := ptNentries_pow ⟨root k, dscr⟩ h
  rw [index_eq root k h, hw]
  exact Nat.mod_lt _ (Nat.two_pow_pos w)

/-- The number of the next entry, if it is in the same table. -/
theorem index_next (root : κ → Nat) (k : κ) (h : l ≤ dscr.last) (va : Nat)
    (hnext : (tables dscr root).index l (k, va) + 1 < ptNentries ⟨root k, dscr⟩ l) :
    (tables dscr root).index l (k, va + ptLvlsize ⟨root k, dscr⟩ l) =
      (tables dscr root).index l (k, va) + 1 := by
  rw [index_eq root k h] at hnext
  rw [index_eq root k h, index_eq root k h, Nat.add_div_right _ (ptLvlsize_pos _ l),
    ← Nat.mod_add_mod, Nat.mod_eq_of_lt hnext]

/-- Neighbours in a table have the entries before in common. -/
theorem same_next (root : κ → Nat) (k : κ) (h : l < dscr.last) (va : Nat)
    (hnext : (tables dscr root).index (l + 1) (k, va) + 1 < ptNentries ⟨root k, dscr⟩ (l + 1)) :
    (tables dscr root).Same l (k, va) (k, va + ptLvlsize ⟨root k, dscr⟩ (l + 1)) := by
  have hpos := ptLvlsize_pos ⟨root k, dscr⟩ (l + 1)
  have hstep : 2 ^ dscr.lvlOff l = ptLvlsize ⟨root k, dscr⟩ (l + 1) * 512 := by
    rw [ptLvlsize_eq]
    exact dscr.pow_off_succ h
  rw [index_eq root k h, ptNentries_succ ⟨root k, dscr⟩ h] at hnext
  generalize ptLvlsize ⟨root k, dscr⟩ (l + 1) = size at *
  have hdiv : (va + size) / size / 512 = va / size / 512 := by
    rw [Nat.add_div_right _ hpos]
    omega
  apply same_of_div h.le
  rw [ptLvlsize_eq]
  show va / 2 ^ dscr.lvlOff l = _ / 2 ^ dscr.lvlOff l
  rw [hstep, ← Nat.div_div_eq_div_mul, ← Nat.div_div_eq_div_mul, hdiv]

/-- The next entry of a table is the next word. -/
theorem ptr_next {words : Nat → Pte} (h : l ≤ dscr.last) (hreach : (tables dscr root).Reaches words l (k, va))
    (hnext : (tables dscr root).index l (k, va) + 1 < ptNentries ⟨root k, dscr⟩ l) :
    (tables dscr root).Reaches words l (k, va + ptLvlsize ⟨root k, dscr⟩ l) ∧
      (tables dscr root).ptr words l (k, va + ptLvlsize ⟨root k, dscr⟩ l) =
        (tables dscr root).ptr words l (k, va) + 8 := by
  have hindex := index_next root k h va hnext
  cases l with
  | zero =>
    refine ⟨RadixTable.reaches_zero, ?_⟩
    simp only [RadixTable.ptr]
    rw [hindex, Nat.mul_add, ← Nat.add_assoc]
    rfl
  | succ l =>
    have hsame := same_next root k h va hnext
    refine ⟨hsame.reaches hreach, ?_⟩
    simp only [RadixTable.ptr]
    rw [hindex, ← hsame.ptr, Nat.mul_add, ← Nat.add_assoc]
    rfl

/-- The number that is read off the address of an entry. -/
theorem ptGetpteindex_ptr (h : PageTablesWf dscr root s) (hl : l ≤ dscr.last) (va : Nat) :
    ptGetpteindex ⟨root k, dscr⟩ l ((tables dscr root).ptr s.words l (k, va)) =
      (tables dscr root).index l (k, va) := by
  obtain ⟨w, hw⟩ := ptNentries_pow ⟨root k, dscr⟩ hl
  have hlt := index_lt root k hl va
  -- the table is aligned to its size
  obtain ⟨table, haligned, hptr⟩ : ∃ table, table % ptSize ⟨root k, dscr⟩ l = 0 ∧
      (tables dscr root).ptr s.words l (k, va) = table + 8 * (tables dscr root).index l (k, va) := by
    cases l with
    | zero => exact ⟨root k, h.root_aligned k, rfl⟩
    | succ l =>
      refine ⟨pteAddr (s.words ((tables dscr root).ptr s.words l (k, va))), ?_, rfl⟩
      unfold ptSize
      rw [ptNentries_succ _ hl]
      exact pteAddr_aligned _
  have hpow : ptNentries ⟨root k, dscr⟩ l * 8 = 2 ^ (w + 3) := by rw [hw, Nat.pow_add]
  unfold ptGetpteindex
  unfold ptSize at haligned ⊢
  rw [hptr, hpow, Nat.and_two_pow_sub_one_eq_mod, ← hpow, Nat.add_mod, haligned, Nat.zero_add,
    Nat.mod_mod, Nat.mod_eq_of_lt (by omega), Nat.mul_div_cancel_left _ (by decide)]

/-! ### Entries are stored -/

/-- In `t`, words that are no tables have been stored to entries of `k` from `va` up to `bound`, and nothing
else differs from `s`. -/
structure Stored (dscr : PtDscr) (root : κ → Nat) (k : κ) (s t : MmuState) (va bound : Nat) :
    Prop where
  wf : PageTablesWf dscr root t
  reaches : ∀ m b, m ≤ dscr.last →
    ((tables dscr root).Reaches t.words m b ↔ (tables dscr root).Reaches s.words m b)
  ptr : ∀ m b, m ≤ dscr.last → (tables dscr root).Reaches s.words m b →
    (tables dscr root).ptr t.words m b = (tables dscr root).ptr s.words m b
  others : ∀ b, (∀ a, va ≤ a → a < bound → ¬(tables dscr root).Same dscr.last (k, a) b) →
    pageView dscr root t.words b = pageView dscr root s.words b
  written : ∀ p, t.words p ≠ s.words p → Entry dscr root s.words k p
  pool : t.pool = s.pool

theorem Stored.refl (h : PageTablesWf dscr root s) (va : Nat) : Stored dscr root k s s va va where
  wf := h
  reaches _ _ _ := Iff.rfl
  ptr _ _ _ _ := rfl
  others _ _ := rfl
  written _ hne := absurd rfl hne
  pool := rfl

theorem Stored.entry_iff (h : Stored dscr root k s t va bound) {k' : κ} {p : Nat} :
    Entry dscr root t.words k' p ↔ Entry dscr root s.words k' p := by
  refine exists₂_congr fun l a => and_congr_right fun hl => ?_
  rw [h.reaches l (k', a) hl]
  refine and_congr_right fun hreach => ?_
  rw [h.ptr l (k', a) hl hreach]

theorem Stored.trans (h : Stored dscr root k s t va m) (h' : Stored dscr root k t u m bound)
    (hva : va ≤ m) (hbound : m ≤ bound) : Stored dscr root k s u va bound where
  wf := h'.wf
  reaches j b hj := (h'.reaches j b hj).trans (h.reaches j b hj)
  ptr j b hj hb := (h'.ptr j b hj ((h.reaches j b hj).mpr hb)).trans (h.ptr j b hj hb)
  others b hb := by
    rw [h'.others b fun a ha => hb a (hva.trans ha),
      h.others b fun a ha hlt => hb a ha (hlt.trans_le hbound)]
  written p hne := by
    by_cases hp : t.words p = s.words p
    · apply h.entry_iff.mp
      apply h'.written p
      rw [hp]
      exact hne
    · exact h.written p hp
  pool := h'.pool.trans h.pool

/-- A word that is stored to the entry of `va`. -/
theorem Stored.single {x : Pte} (h : PageTablesWf dscr root s)
    (hstops : (tables dscr root).Stops s.words l (k, va)) (hx : l ≠ dscr.last → pteValid x = false)
    (hpage : pteValid x = true → x &&& pteTypeMsk = ptePageType)
    (haligned : va % ptLvlsize ⟨root k, dscr⟩ l = 0)
    (hspan : va + ptLvlsize ⟨root k, dscr⟩ l ≤ 2 ^ dscr.lvlWdt 0) :
    Stored dscr root k s (s.setWord ((tables dscr root).ptr s.words l (k, va)) x) va
      (va + ptLvlsize ⟨root k, dscr⟩ l) where
  wf := h.store hstops hx hpage
  reaches j b hj := by
    refine h.tree.reaches_update_iff hstops (fun hne => decide_eq_false fun htype => ?_) hj
    have hvalid := pteValid_of_type htype
    rw [hx hne] at hvalid
    cases hvalid
  ptr j b hj hb := h.tree.ptr_update_stops hstops hb hj
  others b hb := by
    refine pageView_store_of_ne h hstops fun hsame => ?_
    have hle := hstops.le_last
    have hpos := ptLvlsize_pos ⟨root k, dscr⟩ l
    have hlow : va < 2 ^ dscr.lvlWdt 0 := by omega
    obtain ⟨hroot, hblock⟩ := (same_iff hle).mp hsame
    unfold PtDscr.block at hblock
    rw [Nat.mod_eq_of_lt hlow, ← ptLvlsize_eq ⟨root k, dscr⟩] at hblock
    have hva := Nat.div_add_mod' va (ptLvlsize ⟨root k, dscr⟩ l)
    have hb' := Nat.div_add_mod' (b.2 % 2 ^ dscr.lvlWdt 0) (ptLvlsize ⟨root k, dscr⟩ l)
    have hlt := Nat.mod_lt (b.2 % 2 ^ dscr.lvlWdt 0) hpos
    rw [haligned, Nat.add_zero, hblock] at hva
    refine hb (b.2 % 2 ^ dscr.lvlWdt 0) (by omega) (by omega) ((same_iff le_rfl).mpr ⟨hroot, ?_⟩)
    unfold PtDscr.block
    rw [Nat.mod_mod]
  written p hne := by
    refine ⟨l, va, hstops.le_last, hstops.reaches, ?_⟩
    by_contra hp
    exact hne (update_of_ne hp ..)
  pool := rfl

/-- A range that starts at a page contains the whole page of each address. -/
theorem not_same_of_lt {a' : Nat} (haligned : bound % pageSize = 0) (hlt : a' < bound) (hle : bound ≤ a)
    (hspan : a < 2 ^ dscr.lvlWdt 0) : ¬(tables dscr root).Same dscr.last (k, a') (k, a) := by
  intro hsame
  rw [same_last_iff (by omega) hspan] at hsame
  have hpage := hsame.2
  simp only [pageSize] at haligned hpage
  omega

end

end Avisor
