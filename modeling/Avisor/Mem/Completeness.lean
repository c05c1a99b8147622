import Avisor.Mem.Pages

/-!
# Requests that could be served

A request that the pool could serve is served if the walk of `pp_alloc` comes to a run of free pages
with the alignment asked. Without alignment it looks at one position only: `last` and the remainder
of `last`. With alignment it walks on from run to run, each time by the remainder of the one it found
there, where the distance to the next aligned page is `n` less the remainder.
-/

namespace Avisor

/-- `n` pages of the pool from `p` on are free and lie as asked. -/
structure PagePool.Suitable (pool : PagePool) (n : Nat) (aligned : Bool) (p : Nat) : Prop where
  inside : p + n ≤ pool.nrPages
  free : BitRun pool.bitmap false p n
  aligned : aligned = true → (pool.base / pageSize + p) % n = 0

/-- A request that the pool can serve is served with free pages that lie as asked. -/
def CompleteAlloc (pool : PagePool) (n : Nat) (aligned : Bool) : Prop :=
  (∃ p, pool.Suitable n aligned p) → ∀ pages, ∃ fuel pool' pages' bit,
    ppAlloc fuel pool n aligned pages = some (true, pool', pages') ∧
      Allocated pool pool' n aligned pages' bit

/-- The walk comes to a position where the first free pages lie as asked; without alignment the only
position is `last` and its remainder. -/
def PagePool.WalkFinds (pool : PagePool) (n : Nat) : Bool → Prop
  | false => pool.FreeBehind n (pool.last + pool.last % n)
  | true => ∃ curr, LooksFrom pool n true curr ∧ pool.FreeBehind n curr ∧
      ¬pool.Misaligned n true (pool.findFree n curr)

variable {pool : PagePool} {n curr : Nat} {aligned : Bool}

theorem PagePool.Wf.firstCurr_eq (h : pool.Wf) :
    pool.firstCurr n false = pool.last + pool.last % n := by
  have hlast := h.last_le
  have hpages := h.placed.nrPages_le
  have hmod := Nat.mod_le pool.last n
  have hstart : pool.start n false = 0 := if_neg Bool.false_ne_true
  unfold PagePool.firstCurr
  rw [hstart, Nat.add_zero, Nat.mod_eq_of_lt (a := pool.last) (by simp only [sizeT]; omega)]
  apply Nat.mod_eq_of_lt
  simp only [sizeT]
  omega

theorem not_misaligned (bit : Nat) : ¬pool.Misaligned n false bit :=
  fun h => absurd h.1 Bool.false_ne_true

/-- Without alignment the search looks from one position. -/
theorem looksFrom_unaligned_iff : LooksFrom pool n false curr ↔ curr = pool.firstCurr n false := by
  constructor
  · intro h
    cases h with
    | first => rfl
    | again _ hmis => exact absurd hmis (not_misaligned _)
  · rintro rfl
    exact .first

theorem PagePool.Wf.walkFinds_iff (h : pool.Wf) : pool.WalkFinds n aligned ↔
    ∃ curr, LooksFrom pool n aligned curr ∧ pool.FreeBehind n curr ∧
      ¬pool.Misaligned n aligned (pool.findFree n curr) := by
  cases aligned with
  | true => exact Iff.rfl
  | false =>
    constructor
    · intro hbehind
      rw [PagePool.WalkFinds, ← h.firstCurr_eq] at hbehind
      exact ⟨_, .first, hbehind, not_misaligned _⟩
    · rintro ⟨curr, hlooks, hbehind, -⟩
      rw [PagePool.WalkFinds, ← h.firstCurr_eq, ← looksFrom_unaligned_iff.mp hlooks]
      exact hbehind

/-- The request is served if the walk comes to pages that lie as asked. -/
theorem PagePool.Wf.exists_ppAlloc (h : pool.Wf) (hn : 1 ≤ n) (hlooks : LooksFrom pool n aligned curr)
    (hbehind : pool.FreeBehind n curr) (hmis : ¬pool.Misaligned n aligned (pool.findFree n curr))
    (pages : Ppages) : ∃ fuel pool' pages' bit,
      ppAlloc fuel pool n aligned pages = some (true, pool', pages') ∧
        Allocated pool pool' n aligned pages' bit := by
  have hin := (h.placed.findFree_inside_iff hn).mpr hbehind
  have hsize := h.placed.size_lt
  have hrun := ((h.placed.findFree_eq curr hn).resolve_left (by omega)).2
  have hfree : pool.free ≠ 0 := by
    have hle := h.run_le_free hin hrun
    omega
  obtain ⟨rounds, hrounds⟩ := exists_ppAllocSearch hfree hlooks
  have hsearch := (hrounds 1).trans (ppAllocSearch_take hfree 0 hmis)
  exact ⟨_, _, _, _, ppAlloc_of_search hn hsearch,
    h.placed.allocated_take hn hin hrun (h.run_le_free hin hrun) hmis⟩

/-- Requests that can be served are served exactly if there are none or the walk finds their pages. -/
theorem ppAlloc_complete_iff (h : pool.Wf) (hn : 1 ≤ n) :
    CompleteAlloc pool n aligned ↔ ((∃ p, pool.Suitable n aligned p) → pool.WalkFinds n aligned) := by
  rw [h.walkFinds_iff]
  constructor
  · rintro hcomplete ⟨p, hsuitable⟩
    have hfree : pool.free ≠ 0 := by
      have hle := h.run_le_free hsuitable.inside hsuitable.free
      omega
    obtain ⟨fuel, pool', pages', bit, hrun, halloc⟩ := hcomplete ⟨p, hsuitable⟩ ⟨0, 0⟩
    obtain ⟨curr, hlooks, hmis, -, htake⟩ := ppAlloc_eq_some hfree hn hrun
    refine ⟨curr, hlooks, ?_, hmis⟩
    by_contra hnone
    obtain ⟨rfl, rfl⟩ := Prod.ext_iff.mp htake
    refine h.not_allocated_take hn ((h.placed.findFree_eq curr hn).imp_right And.left) ?_ halloc
    exact fun hin => hnone ((h.placed.findFree_inside_iff hn).mp hin)
  · rintro hwalk hsuitable pages
    obtain ⟨curr, hlooks, hbehind, hmis⟩ := hwalk hsuitable
    exact h.exists_ppAlloc hn hlooks hbehind hmis pages

theorem ppAlloc_complete_iff_spentPool : CompleteAlloc spentPool 1 false ↔
    ((∃ p, spentPool.Suitable 1 false p) → spentPool.WalkFinds 1 false) :=
  ppAlloc_complete_iff spentPool_wf (Nat.le_refl 1)

/-- A pool whose last pages were handed out and given back. -/
def returnedPool : PagePool where
  base := 0x50000000
  nrPages := 32
  free := 32
  last := 32
  bitmap := fun _ => 0#32

/-- All pages are free, but none lies behind `last`: one page is asked for, and the one in front of the
pool is the answer. -/
theorem ppAlloc_incomplete : returnedPool.Wf ∧ returnedPool.nrPages % granuleLen = 0 ∧
    returnedPool.Suitable 1 false 0 ∧ ¬CompleteAlloc returnedPool 1 false := by
  have hwf : returnedPool.Wf := by
    refine ⟨by decide, by decide, ?_⟩
    have hall : Nat.count (fun i => bitmapGet returnedPool.bitmap i = false) 32 = 32 :=
      Nat.count_of_forall fun i _ => by simp [returnedPool, bitmapGet]
    exact hall.symm
  have hsuitable : returnedPool.Suitable 1 false 0 := by
    refine ⟨by decide, fun i _ _ => ?_, nofun⟩
    simp [returnedPool, bitmapGet]
  have hfree : returnedPool.free ≠ 0 := by decide
  refine ⟨hwf, by decide, hsuitable, fun hcomplete => ?_⟩
  obtain ⟨fuel, pool', pages', bit, hrun, halloc⟩ := hcomplete ⟨0, hsuitable⟩ ⟨0, 0⟩
  obtain ⟨curr, hlooks, -, -, htake⟩ := ppAlloc_eq_some hfree (Nat.le_refl 1) hrun
  rw [looksFrom_unaligned_iff.mp hlooks] at htake
  have hfound : returnedPool.findFree 1 (returnedPool.firstCurr 1 false) = sizeMax := by decide
  rw [hfound] at htake
  have hbase : pages'.base = 0x4ffff000 := congrArg (fun t => t.1.base) htake
  have hinside : pages'.base = 0x50000000 + bit * pageSize := halloc.base
  omega

end Avisor
