import Avisor.Data.Bitmap
import Mathlib.Data.Nat.Count

/-!
# The page allocator

`pp_alloc` of `core/mem.c`. The search for pages starts at the page behind the last ones handed out,
and a run found off an asked alignment sends it on. It never notices that nothing was found: the
`-1` of `bitmap_find_consec` is a `size_t`, which is not below zero. So the second pass is never
made for want of pages, and the search ends at the first position whose result passes the test for
the alignment, be it a run of free pages, a run that leaves the pool in its last granule, or `-1`.
-/

namespace Avisor

open Function

/-- `struct ppages`. -/
structure Ppages where
  base : Nat
  nrPages : Nat
  deriving DecidableEq, Repr

/-- `struct page_pool`, without its lock. -/
structure PagePool where
  base : Nat
  nrPages : Nat
  free : Nat
  last : Nat
  bitmap : Bitmap

namespace PagePool

variable (pool : PagePool) (nrPages : Nat) (aligned : Bool)

/-- `start` of `pp_alloc`. -/
def start : Nat :=
  if aligned then pool.base / pageSize % nrPages else 0

/-- The first `curr` of `pp_alloc`. -/
def firstCurr : Nat :=
  (pool.last + (pool.last + pool.start nrPages aligned) % sizeT % nrPages) % sizeT

/-- `bitmap_find_consec` for free pages, from `curr` on. -/
def findFree (curr : Nat) : Nat :=
  bitmapFindConsec pool.bitmap pool.nrPages curr nrPages false

/-- The pages at `bit` do not have the alignment that was asked. -/
def Misaligned (bit : Nat) : Prop :=
  aligned = true ∧ (bit + pool.start nrPages aligned) % sizeT % nrPages ≠ 0

instance (bit : Nat) : Decidable (pool.Misaligned nrPages aligned bit) :=
  inferInstanceAs (Decidable (_ ∧ _))

/-- Where the search goes on behind a misaligned `bit`. -/
def nextCurr (bit : Nat) : Nat :=
  (bit + (bit + pool.start nrPages aligned) % sizeT % nrPages) % sizeT

/-- The pages at `bit`, and the pool in which they are allocated. -/
def take (bit : Nat) : Ppages × PagePool :=
  ({ base := (pool.base + bit * pageSize) % sizeT, nrPages },
    { pool with
      bitmap := bitmapSetConsecutive pool.bitmap bit nrPages
      free := (pool.free + (sizeT - nrPages)) % sizeT
      last := (bit + nrPages) % sizeT })

end PagePool

/-- The inner loop of `pp_alloc`: `none` without fuel, else the `curr` it ends with and what it took.
The test `bit < 0` is the one that was to notice a search without result. -/
def ppAllocSearch (pool : PagePool) (nrPages : Nat) (aligned : Bool) :
    Nat → Nat → Option (Nat × Option (Ppages × PagePool))
  | 0, _ => none
  | fuel + 1, curr =>
    if pool.free ≠ 0 then
      let bit := pool.findFree nrPages curr
      if bit < 0 then
        some (if aligned then (nrPages - pool.base / pageSize % nrPages) % nrPages else 0, none)
      else if pool.Misaligned nrPages aligned bit then
        ppAllocSearch pool nrPages aligned fuel (pool.nextCurr nrPages aligned bit)
      else some (curr, some (pool.take nrPages bit))
    else some (curr, none)

/-- The outer loop of `pp_alloc`, with the passes that are left. -/
def ppAllocPasses (pool : PagePool) (nrPages : Nat) (aligned : Bool) (fuel : Nat) :
    Nat → Nat → Option (Option (Ppages × PagePool))
  | 0, _ => some none
  | pass + 1, curr =>
    match ppAllocSearch pool nrPages aligned fuel curr with
    | none => none
    | some (_, some found) => some (some found)
    | some (curr, none) => ppAllocPasses pool nrPages aligned fuel pass curr

/-- `pp_alloc`, for `fuel` rounds of a search: its result, the pool and `*ppages` behind it. -/
def ppAlloc (fuel : Nat) (pool : PagePool) (nrPages : Nat) (aligned : Bool) (ppages : Ppages) :
    Option (Bool × PagePool × Ppages) :=
  if nrPages = 0 then some (true, pool, { ppages with nrPages := 0 })
  else
    match ppAllocPasses pool nrPages aligned fuel 2 (pool.firstCurr nrPages aligned) with
    | none => none
    | some none => some (false, pool, { ppages with nrPages := 0 })
    | some (some (pages, pool')) => some (true, pool', pages)

/-! ### What an allocation is for -/

/-- The pool is a range of memory, and its counter says how many of its pages are free. -/
structure PagePool.Wf (pool : PagePool) : Prop where
  fits : pool.base + pool.nrPages * pageSize ≤ sizeT
  last_le : pool.last ≤ pool.nrPages
  free_eq : pool.free = Nat.count (fun i => bitmapGet pool.bitmap i = false) pool.nrPages

/-- `pages` are `n` pages of the pool from `bit` on that were free, and `pool'` is the pool in which
just these are allocated too. -/
structure Allocated (pool pool' : PagePool) (n : Nat) (aligned : Bool) (pages : Ppages) (bit : Nat) :
    Prop where
  base : pages.base = pool.base + bit * pageSize
  nrPages : pages.nrPages = n
  inside : bit + n ≤ pool.nrPages
  wasFree : BitRun pool.bitmap false bit n
  aligned : aligned = true → pages.base / pageSize % n = 0
  samePool : pool'.base = pool.base ∧ pool'.nrPages = pool.nrPages
  bits : ∀ i, bitmapGet pool'.bitmap i =
    (bitmapGet pool.bitmap i || decide (bit ≤ i ∧ i < bit + n))
  free : pool'.free + n = pool.free

/-- A request is served with free pages of the pool, or refused with the pool as it was. -/
def SoundAlloc (pool : PagePool) (n : Nat) (aligned : Bool) : Prop :=
  ∀ fuel pages ok pool' pages', ppAlloc fuel pool n aligned pages = some (ok, pool', pages') →
    (ok = true → ∃ bit, Allocated pool pool' n aligned pages' bit) ∧ (ok = false → pool' = pool)

/-- The positions from which `pp_alloc` looks for pages. -/
inductive LooksFrom (pool : PagePool) (n : Nat) (aligned : Bool) : Nat → Prop
  | first : LooksFrom pool n aligned (pool.firstCurr n aligned)
  | again {curr : Nat} : LooksFrom pool n aligned curr →
      pool.Misaligned n aligned (pool.findFree n curr) →
      LooksFrom pool n aligned (pool.nextCurr n aligned (pool.findFree n curr))

/-- `n` free pages of the pool lie at or behind `curr`. -/
def PagePool.FreeBehind (pool : PagePool) (n curr : Nat) : Prop :=
  ∃ p, curr ≤ p ∧ p + n ≤ pool.nrPages ∧ BitRun pool.bitmap false p n

variable {pool pool' : PagePool} {n curr bit : Nat} {aligned : Bool} {pages : Ppages}

/-- The pool is a range of memory; its counter may be too small. -/
structure PagePool.Placed (pool : PagePool) : Prop where
  fits : pool.base + pool.nrPages * pageSize ≤ sizeT
  last_le : pool.last ≤ pool.nrPages
  free_le : pool.free ≤ pool.nrPages

theorem PagePool.Wf.placed (h : pool.Wf) : pool.Placed where
  fits := h.fits
  last_le := h.last_le
  free_le := by
    rw [h.free_eq]
    exact Nat.count_le _

namespace PagePool.Placed

theorem nrPages_le (h : pool.Placed) : pool.nrPages ≤ 2 ^ 52 := by
  have hfits := h.fits
  simp only [pageSize, sizeT] at hfits
  omega

theorem size_lt (h : pool.Placed) : pool.nrPages + granuleLen < sizeMax := by
  have hle := h.nrPages_le
  simp only [granuleLen, sizeMax]
  omega

/-- The search finds a run of the pool exactly if there is one. -/
theorem findFree_inside_iff (h : pool.Placed) (hn : 1 ≤ n) :
    pool.findFree n curr + n ≤ pool.nrPages ↔ pool.FreeBehind n curr := by
  have hsize := h.size_lt
  obtain ⟨hfound, hnone⟩ := bitmapFindConsec_spec pool.bitmap curr false hn hsize
  unfold PagePool.findFree PagePool.FreeBehind
  generalize bitmapFindConsec pool.bitmap pool.nrPages curr n false = bit at *
  constructor
  · intro hin
    obtain ⟨hle, -, hrun⟩ := hfound.resolve_left (by omega)
    exact ⟨bit, hle, hin, hrun⟩
  · rintro ⟨p, hp, hin, hrun⟩
    by_contra hout
    exact hnone p hp (by omega) hin hrun

theorem findFree_eq (h : pool.Placed) (curr : Nat) (hn : 1 ≤ n) :
    pool.findFree n curr = sizeMax ∨ pool.findFree n curr < pool.nrPages ∧
      BitRun pool.bitmap false (pool.findFree n curr) n := by
  obtain ⟨hfound, -⟩ := bitmapFindConsec_spec pool.bitmap curr false hn h.size_lt
  exact hfound.imp_right fun hrun => hrun.2

end PagePool.Placed

theorem PagePool.Wf.run_le_free (h : pool.Wf) (hin : bit + n ≤ pool.nrPages)
    (hrun : BitRun pool.bitmap false bit n) : n ≤ pool.free := by
  rw [h.free_eq]
  have hall : Nat.count (fun k => bitmapGet pool.bitmap (bit + k) = false) n = n :=
    Nat.count_of_forall fun k hk => hrun (bit + k) (by omega) (by omega)
  have hprefix := Nat.count_monotone (fun i => bitmapGet pool.bitmap i = false) hin
  rw [Nat.count_add, hall] at hprefix
  exact Nat.le_of_add_left_le hprefix

/-- Taking the pages at `bit` is an allocation if they are a run of the pool with the alignment asked. -/
theorem PagePool.Placed.allocated_take (h : pool.Placed) (hn : 1 ≤ n) (hin : bit + n ≤ pool.nrPages)
    (hrun : BitRun pool.bitmap false bit n) (hfree : n ≤ pool.free) (haligned : ¬pool.Misaligned n aligned bit) :
    Allocated pool (pool.take n bit).2 n aligned (pool.take n bit).1 bit := by
  have hpages := h.nrPages_le
  have hfits := h.fits
  have hcount := h.free_le
  have hbase : (pool.base + bit * pageSize) % sizeT = pool.base + bit * pageSize := by
    apply Nat.mod_eq_of_lt
    simp only [pageSize] at *
    omega
  refine ⟨hbase, rfl, hin, hrun, fun hasked => ?_, ⟨rfl, rfl⟩, fun i => ?_, ?_⟩
  · have hzero : (bit + pool.start n aligned) % sizeT % n = 0 := by
      by_contra hne
      exact haligned ⟨hasked, hne⟩
    have hstart : pool.start n aligned = pool.base / pageSize % n := if_pos hasked
    have hpage : (pool.base + bit * pageSize) / pageSize = pool.base / pageSize + bit :=
      Nat.add_mul_div_right _ _ (by decide)
    have hsmall : bit + pool.base / pageSize % n < sizeT := by
      have hlt : pool.base / pageSize % n < n := Nat.mod_lt _ hn
      simp only [sizeT]
      omega
    rw [hstart, Nat.mod_eq_of_lt hsmall, Nat.add_mod_mod] at hzero
    change (pool.base + bit * pageSize) % sizeT / pageSize % n = 0
    rw [hbase, hpage, Nat.add_comm]
    exact hzero
  · apply bitmapGet_setConsecutive pool.bitmap i hn
    simp only [sizeT]
    omega
  · change (pool.free + (sizeT - n)) % sizeT + n = pool.free
    simp only [sizeT]
    omega

/-- Taking pages that are no run of the pool is no allocation. -/
theorem PagePool.Wf.not_allocated_take (h : pool.Wf) (hn : 1 ≤ n)
    (hbit : bit = sizeMax ∨ bit < pool.nrPages) (hout : ¬bit + n ≤ pool.nrPages) {bit' : Nat} :
    ¬Allocated pool (pool.take n bit).2 n aligned (pool.take n bit).1 bit' := by
  intro halloc
  have hpages := h.placed.nrPages_le
  have hfits := h.fits
  have hin := halloc.inside
  have hbase : (pool.base + bit * pageSize) % sizeT = pool.base + bit' * pageSize := halloc.base
  rcases hbit with rfl | hlt
  · -- the page in front of the pool, which is one of the pool only if it wraps to the last one
    obtain ⟨rfl, rfl⟩ : n = 1 ∧ bit' = 2 ^ 52 - 1 := by
      simp only [pageSize, sizeT, sizeMax] at *
      omega
    have hbits := halloc.bits (2 ^ 52 - 1)
    have hset := bitmapGet_setConsecutive pool.bitmap (2 ^ 52 - 1) (Nat.le_refl 1)
      (show sizeMax + 1 ≤ sizeT by decide)
    rw [show bitmapGet (pool.take 1 sizeMax).2.bitmap (2 ^ 52 - 1) = _ from hset,
      halloc.wasFree (2 ^ 52 - 1) (Nat.le_refl _) (by decide)] at hbits
    revert hbits
    decide
  · have heq : bit = bit' := by
      simp only [pageSize, sizeT] at *
      omega
    omega

/-! ### The search -/

section

variable (hfree : pool.free ≠ 0)

include hfree

theorem ppAllocSearch_take (fuel : Nat) (h : ¬pool.Misaligned n aligned (pool.findFree n curr)) :
    ppAllocSearch pool n aligned (fuel + 1) curr =
      some (curr, some (pool.take n (pool.findFree n curr))) := by
  rw [ppAllocSearch, if_pos hfree]
  simp only [Nat.not_lt_zero, if_false, h]

theorem ppAllocSearch_next (fuel : Nat) (h : pool.Misaligned n aligned (pool.findFree n curr)) :
    ppAllocSearch pool n aligned (fuel + 1) curr =
      ppAllocSearch pool n aligned fuel (pool.nextCurr n aligned (pool.findFree n curr)) := by
  rw [ppAllocSearch, if_pos hfree]
  simp only [Nat.not_lt_zero, if_false, h, if_true]

/-- A search that ends has taken the pages found from a position it looks from. -/
theorem ppAllocSearch_eq_some {fuel : Nat} {result : Nat × Option (Ppages × PagePool)}
    (hlooks : LooksFrom pool n aligned curr)
    (h : ppAllocSearch pool n aligned fuel curr = some result) :
    ∃ c, LooksFrom pool n aligned c ∧ ¬pool.Misaligned n aligned (pool.findFree n c) ∧
      result.2 = some (pool.take n (pool.findFree n c)) := by
  induction fuel generalizing curr with
  | zero => cases h
  | succ fuel ih =>
    by_cases hmis : pool.Misaligned n aligned (pool.findFree n curr)
    · rw [ppAllocSearch_next hfree fuel hmis] at h
      exact ih (hlooks.again hmis) h
    · rw [ppAllocSearch_take hfree fuel hmis] at h
      cases h
      exact ⟨curr, hlooks, hmis, rfl⟩

/-- With enough fuel the search comes to every position it looks from. -/
theorem exists_ppAllocSearch (hlooks : LooksFrom pool n aligned curr) :
    ∃ rounds, ∀ fuel, ppAllocSearch pool n aligned (fuel + rounds) (pool.firstCurr n aligned) =
      ppAllocSearch pool n aligned fuel curr := by
  induction hlooks with
  | first => exact ⟨0, fun _ => rfl⟩
  | again _ hmis ih =>
    obtain ⟨rounds, hrounds⟩ := ih
    refine ⟨rounds + 1, fun fuel => ?_⟩
    rw [Nat.add_comm rounds, ← Nat.add_assoc, hrounds (fuel + 1), ppAllocSearch_next hfree fuel hmis]

end

theorem ppAlloc_of_free_eq_zero {fuel : Nat} (hfree : pool.free = 0) (hn : 1 ≤ n) :
    ppAlloc (fuel + 1) pool n aligned pages = some (false, pool, { pages with nrPages := 0 }) := by
  have hsearch (c : Nat) : ppAllocSearch pool n aligned (fuel + 1) c = some (c, none) := by
    rw [ppAllocSearch, if_neg (not_not.mpr hfree)]
  rw [ppAlloc, if_neg (Nat.ne_of_gt hn)]
  simp only [ppAllocPasses, hsearch]

theorem ppAlloc_of_search {fuel c : Nat} {found : Ppages × PagePool} (hn : 1 ≤ n)
    (hsearch : ppAllocSearch pool n aligned fuel (pool.firstCurr n aligned) =
      some (c, some found)) :
    ppAlloc fuel pool n aligned pages = some (true, found.2, found.1) := by
  rw [ppAlloc, if_neg (Nat.ne_of_gt hn)]
  simp only [ppAllocPasses, hsearch]

/-- With a free page in the pool, what `pp_alloc` returns was taken at a position it looks from. -/
theorem ppAlloc_eq_some {fuel : Nat} {ok : Bool} {pages' : Ppages} (hfree : pool.free ≠ 0)
    (hn : 1 ≤ n) (h : ppAlloc fuel pool n aligned pages = some (ok, pool', pages')) :
    ∃ c, LooksFrom pool n aligned c ∧ ¬pool.Misaligned n aligned (pool.findFree n c) ∧
      ok = true ∧ (pages', pool') = pool.take n (pool.findFree n c) := by
  cases hsearch : ppAllocSearch pool n aligned fuel (pool.firstCurr n aligned) with
  | none =>
    rw [ppAlloc, if_neg (Nat.ne_of_gt hn)] at h
    simp only [ppAllocPasses, hsearch] at h
    cases h
  | some result =>
    obtain ⟨c, hlooks, hmis, hfound⟩ := ppAllocSearch_eq_some hfree .first hsearch
    obtain ⟨curr', found⟩ := result
    dsimp only at hfound
    subst hfound
    rw [ppAlloc_of_search hn hsearch] at h
    cases h
    exact ⟨c, hlooks, hmis, rfl, rfl⟩

/-- Requests are served soundly or refused exactly if the pool has no free page or each position the
search looks from has a run of `n` free pages of the pool at or behind it, unless what is found
there is misaligned. -/
theorem ppAlloc_sound_iff (h : pool.Wf) (hn : 1 ≤ n) :
    SoundAlloc pool n aligned ↔ pool.free = 0 ∨ ∀ curr, LooksFrom pool n aligned curr →
      pool.FreeBehind n curr ∨ pool.Misaligned n aligned (pool.findFree n curr) := by
  by_cases hfree : pool.free = 0
  · refine iff_of_true (fun fuel pages ok pool' pages' hrun => ?_) (.inl hfree)
    cases fuel with
    | zero =>
      rw [ppAlloc, if_neg (Nat.ne_of_gt hn)] at hrun
      cases hrun
    | succ fuel =>
      rw [ppAlloc_of_free_eq_zero hfree hn] at hrun
      cases hrun
      exact ⟨fun hfalse => absurd hfalse (by simp), fun _ => rfl⟩
  constructor
  · intro hsound
    refine .inr fun curr hlooks => ?_
    by_contra hbad
    obtain ⟨hnone, hmis⟩ := not_or.mp hbad
    -- a run of `pp_alloc` that takes what is found from `curr`
    obtain ⟨rounds, hrounds⟩ := exists_ppAllocSearch hfree hlooks
    have hsearch := (hrounds 1).trans (ppAllocSearch_take hfree 0 hmis)
    obtain ⟨halloc, -⟩ := hsound _ ⟨0, 0⟩ _ _ _ (ppAlloc_of_search hn hsearch)
    obtain ⟨bit', halloc⟩ := halloc rfl
    refine h.not_allocated_take hn ((h.placed.findFree_eq curr hn).imp_right And.left) ?_ halloc
    exact fun hin => hnone ((h.placed.findFree_inside_iff hn).mp hin)
  · intro hcond fuel pages ok pool' pages' hrun
    obtain ⟨c, hlooks, hmis, rfl, htake⟩ := ppAlloc_eq_some hfree hn hrun
    refine ⟨fun _ => ⟨pool.findFree n c, ?_⟩, fun hfalse => absurd hfalse (by simp)⟩
    have hbehind := (hcond.resolve_left hfree c hlooks).resolve_right hmis
    have hin := (h.placed.findFree_inside_iff hn).mpr hbehind
    have hpool := h.placed.size_lt
    have hrun := (h.placed.findFree_eq c hn).resolve_left (by omega)
    have halloc := h.placed.allocated_take hn hin hrun.2 (h.run_le_free hin hrun.2) hmis
    rwa [← htake] at halloc

/-- Two pages, of which the first is handed out. -/
def spentPool : PagePool where
  base := 0x50000000
  nrPages := 2
  free := 1
  last := 1
  bitmap := fun i => if i = 0 then 1#32 else 0#32

theorem spentPool_wf : spentPool.Wf :=
  ⟨by decide, by decide, by decide⟩

theorem ppAlloc_sound_iff_spentPool :
    SoundAlloc spentPool 1 false ↔ spentPool.free = 0 ∨ ∀ curr, LooksFrom spentPool 1 false curr →
      spentPool.FreeBehind 1 curr ∨
        spentPool.Misaligned 1 false (spentPool.findFree 1 curr) :=
  ppAlloc_sound_iff spentPool_wf (Nat.le_refl 1)

/-- A pool with too few pages left: the page in front of the pool is handed out. -/
theorem ppAlloc_unsound : ¬∀ (pool : PagePool) (n : Nat) (aligned : Bool), pool.Wf → 1 ≤ n →
    SoundAlloc pool n aligned := by
  intro hall
  have hrun : (ppAlloc 1 spentPool 2 false ⟨0, 0⟩).map (fun result => (result.1, result.2.2)) =
      some (true, ⟨0x4ffff000, 2⟩) := by decide
  obtain ⟨⟨ok, pool', pages'⟩, hrun, hresult⟩ := Option.map_eq_some_iff.mp hrun
  cases hresult
  obtain ⟨halloc, -⟩ := hall spentPool 2 false spentPool_wf (by decide) _ _ _ _ _ hrun
  obtain ⟨bit, halloc⟩ := halloc rfl
  have hbase : 0x4ffff000 = 0x50000000 + bit * pageSize := halloc.base
  omega

/-! ### Pages one by one -/

/-- The pages that the pool hands out one by one: the free pages at or behind the last ones handed out,
as long as the counter says that there are some. -/
def PagePool.room (pool : PagePool) : Nat :=
  min pool.free
    (Nat.count (fun i => bitmapGet pool.bitmap (pool.last + i) = false) (pool.nrPages - pool.last))

theorem count_congr_of_lt {p q : Nat → Prop} [DecidablePred p] [DecidablePred q]
    (h : ∀ k < n, p k ↔ q k) : Nat.count p n = Nat.count q n :=
  Nat.le_antisymm (Nat.count_mono_left fun k hk => (h k hk).mp)
    (Nat.count_mono_left fun k hk => (h k hk).mpr)

/-- An allocation uses up as many free pages of the pool as it hands out. -/
theorem Allocated.count_free (h : Allocated pool pool' n aligned pages bit) :
    Nat.count (fun i => bitmapGet pool'.bitmap i = false) pool.nrPages + n =
      Nat.count (fun i => bitmapGet pool.bitmap i = false) pool.nrPages := by
  obtain ⟨rest, hrest⟩ := Nat.exists_eq_add_of_le h.inside
  have hcount (q : Nat → Prop) [DecidablePred q] : Nat.count q pool.nrPages =
      Nat.count q bit + Nat.count (fun k => q (bit + k)) n +
        Nat.count (fun k => q (bit + n + k)) rest := by
    rw [hrest, Nat.count_add, Nat.count_add]
  have hrun : Nat.count (fun k => bitmapGet pool.bitmap (bit + k) = false) n = n :=
    Nat.count_of_forall fun k hk => h.wasFree (bit + k) (by omega) (by omega)
  have hnone : Nat.count (fun k => bitmapGet pool'.bitmap (bit + k) = false) n = 0 := by
    refine Nat.count_of_forall_not fun k hk => ?_
    rw [h.bits, decide_eq_true (by omega), Bool.or_true]
    simp
  have hfront : Nat.count (fun i => bitmapGet pool'.bitmap i = false) bit =
      Nat.count (fun i => bitmapGet pool.bitmap i = false) bit := by
    refine count_congr_of_lt fun i hi => ?_
    rw [h.bits, decide_eq_false (by omega), Bool.or_false]
  have hback : Nat.count (fun k => bitmapGet pool'.bitmap (bit + n + k) = false) rest =
      Nat.count (fun k => bitmapGet pool.bitmap (bit + n + k) = false) rest := by
    refine count_congr_of_lt fun k _ => ?_
    rw [h.bits, decide_eq_false (by omega), Bool.or_false]
  rw [hcount, hcount, hrun, hnone, hfront, hback]
  omega

/-- An allocation leaves a pool as the next one needs it. -/
theorem Allocated.placed (h : Allocated pool pool' n aligned pages bit) (hpool : pool.Placed)
    (hlast : pool'.last = bit + n) : pool'.Placed where
  fits := by
    rw [h.samePool.1, h.samePool.2]
    exact hpool.fits
  last_le := by
    rw [hlast, h.samePool.2]
    exact h.inside
  free_le := by
    have hsum := h.free
    have hle := hpool.free_le
    rw [h.samePool.2]
    omega

/-- A request without alignment takes the first run of free pages behind the last pages handed out, if
there is one and the counter allows it. -/
theorem ppAlloc_behind (h : pool.Placed) (hn : 1 ≤ n) (hfree : n ≤ pool.free)
    (hbehind : pool.FreeBehind n (pool.firstCurr n false)) (pages : Ppages) (fuel : Nat) :
    ∃ bit, ppAlloc (fuel + 1) pool n false pages =
        some (true, (pool.take n bit).2, (pool.take n bit).1) ∧
      Allocated pool (pool.take n bit).2 n false (pool.take n bit).1 bit ∧
      pool.firstCurr n false ≤ bit ∧
      ∀ p, pool.firstCurr n false ≤ p → p < bit → ¬ BitRun pool.bitmap false p n := by
  have hmis (b) : ¬ pool.Misaligned n false b := fun hm => absurd hm.1 Bool.false_ne_true
  have hin := (h.findFree_inside_iff hn).mpr hbehind
  have hsize := h.size_lt
  have hfound := (h.findFree_eq (pool.firstCurr n false) hn).resolve_left (by omega)
  have hsome : pool.free ≠ 0 := Nat.ne_of_gt (Nat.lt_of_lt_of_le hn hfree)
  obtain ⟨hstart, hfirst⟩ := bitmapFindConsec_spec pool.bitmap (pool.firstCurr n false) false hn hsize
  refine ⟨_, ppAlloc_of_search hn (ppAllocSearch_take hsome fuel (hmis _)),
    h.allocated_take hn hin hfound.2 hfree (hmis _), ?_, fun p hp hlt => hfirst p hp hlt ?_⟩
  · exact (hstart.resolve_left (by unfold PagePool.findFree at hin; omega)).1
  · unfold PagePool.findFree at hin hlt
    omega

/-- A single page is there as long as the pool has room behind the last one handed out. -/
theorem ppAlloc_single (h : pool.Placed) (hroom : 0 < pool.room) (pages : Ppages) (fuel : Nat) :
    ∃ bit pool' pages', ppAlloc (fuel + 1) pool 1 false pages = some (true, pool', pages') ∧
      Allocated pool pool' 1 false pages' bit ∧ pool'.Placed ∧ pool'.room + 1 = pool.room := by
  have hle := h.last_le
  have hnr := h.nrPages_le
  obtain ⟨hsome, hcount⟩ := Nat.lt_min.mp hroom
  have hcurr : pool.firstCurr 1 false = pool.last := by
    unfold PagePool.firstCurr
    rw [Nat.mod_one, Nat.add_zero]
    apply Nat.mod_eq_of_lt
    simp only [sizeT]
    omega
  have hbehind : pool.FreeBehind 1 (pool.firstCurr 1 false) := by
    by_contra hnone
    apply Nat.ne_of_gt hcount
    refine Nat.count_of_forall_not fun i hi hfree => hnone ⟨pool.last + i, ?_, by omega, ?_⟩
    · rw [hcurr]
      exact Nat.le_add_right _ _
    · intro j hj hlt
      rw [show j = pool.last + i by omega]
      exact hfree
  obtain ⟨bit, halloc, hpages, hlow, hfirst⟩ :=
    ppAlloc_behind h (Nat.le_refl 1) hsome hbehind pages fuel
  rw [hcurr] at hlow hfirst
  have hin := hpages.inside
  have hused := hpages.free
  have hlast : (pool.take 1 bit).2.last = bit + 1 := by
    apply Nat.mod_eq_of_lt
    simp only [sizeT]
    omega
  refine ⟨bit, _, _, halloc, hpages, hpages.placed h hlast, ?_⟩
  -- the pages in front of `bit` are taken, and those behind it stay as they are
  obtain ⟨front, rfl⟩ := Nat.exists_eq_add_of_le hlow
  obtain ⟨rest, hrest⟩ := Nat.exists_eq_add_of_le hin
  have hrestEq : pool.nrPages - (pool.last + front + 1) = rest := by omega
  have hwhole : pool.nrPages - pool.last = front + (1 + rest) := by omega
  have hnone : Nat.count (fun i => bitmapGet pool.bitmap (pool.last + i) = false) front = 0 := by
    refine Nat.count_of_forall_not fun i hi hfree => ?_
    apply hfirst (pool.last + i) (by omega) (by omega)
    intro j hj hlt
    rw [show j = pool.last + i by omega]
    exact hfree
  have hone : Nat.count (fun k => bitmapGet pool.bitmap (pool.last + (front + k)) = false) 1 = 1 := by
    refine Nat.count_of_forall fun k hk => ?_
    exact hpages.wasFree _ (by omega) (by omega)
  have hback : Nat.count (fun i => bitmapGet (pool.take 1 (pool.last + front)).2.bitmap
        (pool.last + front + 1 + i) = false) rest =
      Nat.count (fun k => bitmapGet pool.bitmap (pool.last + (front + (1 + k))) = false) rest := by
    refine count_congr_of_lt fun k _ => ?_
    rw [hpages.bits, decide_eq_false (by omega), Bool.or_false, Nat.add_assoc, Nat.add_assoc]
  unfold PagePool.room
  rw [hlast, hpages.samePool.2, hrestEq, hwhole, Nat.count_add, Nat.count_add, hnone, hone, hback,
    ← hused, Nat.zero_add, Nat.add_comm 1, Nat.add_min_add_right]

end Avisor
