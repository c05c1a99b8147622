import Avisor.Lib.Machine
import Avisor.Mem.Pages

/-!
# The root pool

`mem_init` makes the one pool that all pages come from, and `mem_free_ppages` gives pages back to it.
The bitmap lies behind the last page of the pool; `root_pool_set_up_bitmap` marks its pages as bits of
the bitmap all the same, behind those of the pool's pages, and takes them off the counter. So the
counter is too small from the start. Behind `mem_free_ppages` nobody gets at the pool any more: it
ends with a second `spin_lock`.
-/

namespace Avisor

/-! ### The lock -/

/-- `spinlock_t`. -/
structure Spinlock where
  ticket : BitVec 32
  next : BitVec 32
  deriving DecidableEq, Repr

/-- `SPINLOCK_INITVAL`. -/
def spinlockInitval : Spinlock := ⟨0, 0⟩

/-- Nobody holds the lock or waits for it. -/
def Spinlock.Released (lock : Spinlock) : Prop := lock.ticket = lock.next

/-- `spin_lock` where no other pCPU works on what the lock protects: with the ticket it draws the pCPU
either goes on or waits for good. -/
def spinLock (lock : Spinlock) : Option Spinlock :=
  if lock.ticket = lock.next then some { lock with ticket := lock.ticket + 1 } else none

/-- `spin_unlock`. -/
def spinUnlock (lock : Spinlock) : Spinlock := { lock with next := lock.next + 1 }

/-! ### The pool -/

/-- `root_page_pool` with its lock. -/
structure RootPool where
  pool : PagePool
  lock : Spinlock

/-- The memory of the VMs between `__mem_vm_begin` and `__mem_vm_end`, and the words behind it. -/
structure VmMemory where
  vmBegin : Nat
  vmEnd : Nat
  words : Bitmap
  begin_le : vmBegin ≤ vmEnd
  end_le : vmEnd + pageSize ≤ sizeT

/-- The pages that a bitmap of `nrPages` bits takes. -/
def bitmapNrPages (nrPages : Nat) : Nat :=
  nrPages / (8 * pageSize) + if nrPages % (8 * pageSize) ≠ 0 then 1 else 0

/-- The granules in a page. -/
def pageGranules : Nat := pageSize * 8 / granuleLen

/-- The bitmap behind `memset`: its pages are cleared, the memory behind them is left. -/
def clearedBitmap (words : Bitmap) (nrPages : Nat) : Bitmap :=
  fun i => if i < nrPages * pageGranules then 0 else words i

/-- `root_pool_set_up_bitmap`; `none` where it returns `false`. -/
def rootPoolSetUpBitmap (mem : VmMemory) (rootPool : PagePool) : Option PagePool :=
  let nrPages := bitmapNrPages rootPool.nrPages
  if rootPool.nrPages ≤ nrPages then none
  else
    let bitmap := clearedBitmap mem.words nrPages
    let pageoff := numPages ((mem.vmEnd + (sizeT - rootPool.base)) % sizeT)
    some { rootPool with
      bitmap := bitmapSetConsecutive bitmap pageoff nrPages
      free := (rootPool.free + (sizeT - nrPages)) % sizeT }

/-- `mem_init`; `none` is the loop of its `ERROR`. -/
def memInit (mem : VmMemory) : Option RootPool :=
  let nrPages := (mem.vmEnd - mem.vmBegin) / pageSize
  let rootPool : PagePool :=
    { base := align mem.vmBegin pageSize, nrPages := nrPages, free := nrPages, last := 0
      bitmap := mem.words }
  (rootPoolSetUpBitmap mem rootPool).map fun pool => { pool := pool, lock := spinlockInitval }

/-- `mem_alloc_ppages`, for `fuel` rounds of a search; `none` where it waits for the lock, searches on
or comes to its `ERROR`. Without pages to ask for it does not take the lock. -/
def RootPool.memAllocPpages (fuel : Nat) (x : RootPool) (nrPages : Nat) (aligned : Bool) :
    Option (Ppages × RootPool) :=
  if nrPages = 0 then some (⟨0, 0⟩, x)
  else
    (spinLock x.lock).bind fun lock =>
      match ppAlloc fuel x.pool nrPages aligned ⟨0, 0⟩ with
      | some (true, pool, pages) => some (pages, { pool := pool, lock := spinUnlock lock })
      | _ => none

/-- A limit in `range_in_range`, which saturates. -/
def rangeLimit (base size : Nat) : Nat :=
  if (base + size) % sizeT < base then sizeMax else (base + size) % sizeT

/-- `range_in_range`. -/
def rangeInRange (base1 size1 base2 size2 : Nat) : Bool :=
  base2 ≤ base1 ∧ rangeLimit base1 size1 ≤ rangeLimit base2 size2

/-- `mem_free_ppages`; `none` where it waits for the lock. -/
def memFreePpages (x : RootPool) (ppages : Ppages) : Option RootPool :=
  (spinLock x.lock).bind fun lock =>
    let pool :=
      if rangeInRange ppages.base 0 x.pool.base (x.pool.nrPages * pageSize % sizeT) then
        { x.pool with
          bitmap := bitmapClearConsecutive x.pool.bitmap ((ppages.base - x.pool.base) / pageSize)
            ppages.nrPages }
      else x.pool
    (spinLock lock).map fun lock => { pool := pool, lock := lock }

/-! ### The runs -/

/-- The pool and the ranges handed out and not given back. -/
structure PoolRun where
  root : RootPool
  taken : List Ppages

inductive PoolAction
  | alloc (fuel nrPages : Nat) (aligned : Bool)
  | free (ppages : Ppages)
  deriving DecidableEq, Repr

/-- Calls of `mem_alloc_ppages` that return, and calls of `mem_free_ppages` on ranges handed out. -/
def poolMachine (mem : VmMemory) : Machine PoolRun PoolAction where
  Init x := memInit mem = some x.root ∧ x.taken = []
  step x
    | .alloc fuel nrPages aligned =>
      (RootPool.memAllocPpages fuel x.root nrPages aligned).map fun (pages, root) =>
        { root := root, taken := pages :: x.taken }
    | .free ppages =>
      if ppages ∈ x.taken then
        (memFreePpages x.root ppages).map fun root =>
          { root := root, taken := x.taken.erase ppages }
      else none

/-- The free pages of the pool, by its bitmap. -/
def PagePool.clearBits (pool : PagePool) : Nat :=
  Nat.count (fun i => bitmapGet pool.bitmap i = false) pool.nrPages

/-- The counter says how many pages are free, no bit behind those of the pool's pages has been
written, the lock is released, and giving back what has just been handed out undoes that. -/
structure PoolKept (mem : VmMemory) (x : PoolRun) : Prop where
  free : x.root.pool.free = x.root.pool.clearBits
  outside : ∀ i, x.root.pool.nrPages ≤ i → bitmapGet x.root.pool.bitmap i =
    bitmapGet (clearedBitmap mem.words (bitmapNrPages x.root.pool.nrPages)) i
  released : x.root.lock.Released
  undo : ∀ fuel n aligned pages y, RootPool.memAllocPpages fuel x.root n aligned = some (pages, y) →
    ∃ z, memFreePpages y pages = some z ∧ z.lock.Released ∧ z.pool.free = x.root.pool.free ∧
      z.pool.bitmap = x.root.pool.bitmap

/-- The pages that the call hands out, if any, are free pages of the pool. -/
def ServedFree (x : PoolRun) : PoolAction → Prop
  | .alloc fuel n aligned => ∀ pages y, RootPool.memAllocPpages fuel x.root n aligned = some (pages, y) →
      n = 0 ∨ ∃ bit, Allocated x.root.pool y.pool n aligned pages bit
  | .free _ => True

/-- What every state of a run has: the lock is released, and more pages are free than counted. -/
structure ShortOf (x : PoolRun) : Prop where
  released : x.root.lock.Released
  short : x.root.pool.clearBits = x.root.pool.free + bitmapNrPages x.root.pool.nrPages
  pages_pos : 0 < bitmapNrPages x.root.pool.nrPages

variable {mem : VmMemory} {x y : PoolRun}

/-- The bitmap's pages hold a bit for each page of the pool, and no more are taken. -/
theorem bitmapNrPages_spec (nrPages : Nat) :
    nrPages ≤ bitmapNrPages nrPages * (8 * pageSize) ∧
      bitmapNrPages nrPages * (8 * pageSize) < nrPages + 8 * pageSize := by
  unfold bitmapNrPages
  split <;> simp only [pageSize] at * <;> omega

theorem bitmapGet_cleared (words : Bitmap) {n i : Nat} (hi : i < n * (8 * pageSize)) :
    bitmapGet (clearedBitmap words n) i = false := by
  have hin : i / granuleLen < n * pageGranules := by
    simp only [granuleLen, pageGranules, pageSize] at *
    omega
  simp [bitmapGet, clearedBitmap, hin]

/-- The pages of the bitmap lie behind those of the pool. -/
theorem VmMemory.le_pageoff (mem : VmMemory)
    (hsize : pageSize ≤ mem.vmEnd - mem.vmBegin) : (mem.vmEnd - mem.vmBegin) / pageSize ≤
      numPages ((mem.vmEnd + (sizeT - align mem.vmBegin pageSize)) % sizeT) := by
  have hle := mem.begin_le
  have hend := mem.end_le
  simp only [numPages, align, pageSize, sizeT] at *
  omega

theorem VmMemory.pageoff_le (mem : VmMemory) :
    numPages ((mem.vmEnd + (sizeT - align mem.vmBegin pageSize)) % sizeT) ≤ 2 ^ 52 := by
  simp only [numPages, align, pageSize, sizeT]
  omega

/-- `mem_init` clears the bits of the pool's pages, and takes the pages of the bitmap off the counter. -/
theorem memInit_shortOf (hinit : (poolMachine mem).Init x) : ShortOf x := by
  obtain ⟨pool, hpool, hroot⟩ := Option.map_eq_some_iff.mp hinit.1
  simp only [rootPoolSetUpBitmap] at hpool
  split at hpool
  · cases hpool
  · rename_i hroom
    cases hpool
    have hle := mem.begin_le
    have hend := mem.end_le
    have hoff := mem.pageoff_le
    have hsmall : (mem.vmEnd - mem.vmBegin) / pageSize < 2 ^ 52 := by
      simp only [pageSize, sizeT] at *
      omega
    have hbefore : (mem.vmEnd - mem.vmBegin) / pageSize ≤
        numPages ((mem.vmEnd + (sizeT - align mem.vmBegin pageSize)) % sizeT) := by
      apply mem.le_pageoff
      simp only [pageSize] at *
      omega
    generalize numPages ((mem.vmEnd + (sizeT - align mem.vmBegin pageSize)) % sizeT) = pageoff at *
    generalize (mem.vmEnd - mem.vmBegin) / pageSize = nrPages at *
    obtain ⟨hbits, hfew⟩ := bitmapNrPages_spec nrPages
    have hpos : 0 < bitmapNrPages nrPages := by
      simp only [pageSize] at *
      omega
    have hfits : pageoff + bitmapNrPages nrPages ≤ sizeT := by
      simp only [pageSize, sizeT] at *
      omega
    have hclear : Nat.count (fun i => bitmapGet (bitmapSetConsecutive
        (clearedBitmap mem.words (bitmapNrPages nrPages)) pageoff (bitmapNrPages nrPages)) i = false)
        nrPages = nrPages := by
      refine Nat.count_of_forall fun i hi => ?_
      rw [bitmapGet_setConsecutive _ i hpos hfits, decide_eq_false (by omega), Bool.or_false]
      exact bitmapGet_cleared mem.words (by omega)
    refine ⟨?_, ?_, ?_⟩
    · rw [← hroot]
      exact rfl
    · rw [← hroot, PagePool.clearBits]
      refine hclear.trans ?_
      simp only [sizeT]
      omega
    · rw [← hroot]
      exact hpos

theorem spinLock_released {lock : Spinlock} (h : lock.Released) :
    spinLock lock = some { lock with ticket := lock.ticket + 1 } := if_pos h

theorem spinUnlock_released {lock held : Spinlock} (h : lock.Released)
    (hheld : spinLock lock = some held) : (spinUnlock held).Released := by
  rw [spinLock_released h] at hheld
  cases hheld
  exact congrArg (· + 1) h

/-- A pCPU that has the lock waits for itself at the next `spin_lock`. -/
theorem spinLock_twice {lock held : Spinlock} (h : lock.Released)
    (hheld : spinLock lock = some held) : spinLock held = none := by
  rw [spinLock_released h] at hheld
  cases hheld
  apply if_neg
  rw [show lock.ticket = lock.next from h]
  simp

/-- `mem_free_ppages` does not return. -/
theorem memFreePpages_eq_none {root : RootPool} (h : root.lock.Released) (ppages : Ppages) :
    memFreePpages root ppages = none := by
  cases hlock : spinLock root.lock with
  | none => rw [memFreePpages, hlock, Option.bind_none]
  | some held =>
    rw [memFreePpages, hlock, Option.bind_some, spinLock_twice h hlock]
    rfl

theorem ShortOf.alloc {root : RootPool} {fuel n : Nat} {aligned : Bool} {pages : Ppages}
    {taken : List Ppages} (h : ShortOf x)
    (halloc : RootPool.memAllocPpages fuel x.root n aligned = some (pages, root))
    (hserved : n = 0 ∨ ∃ bit, Allocated x.root.pool root.pool n aligned pages bit) :
    ShortOf { root := root, taken := taken } := by
  unfold RootPool.memAllocPpages at halloc
  split at halloc
  · cases halloc
    exact ⟨h.released, h.short, h.pages_pos⟩
  · rename_i hn
    obtain ⟨held, hlock, halloc⟩ := Option.bind_eq_some_iff.mp halloc
    split at halloc
    · cases halloc
      obtain ⟨bit, hpages⟩ := hserved.resolve_left hn
      have hcount := hpages.count_free
      have hfree := hpages.free
      have hshort := h.short
      have hnr := hpages.samePool.2
      refine ⟨spinUnlock_released h.released hlock, ?_, ?_⟩
      · simp only [PagePool.clearBits] at *
        rw [hnr]
        omega
      · rw [hnr]
        exact h.pages_pos
    · cases halloc

/-- A run whose requests are served with free pages keeps the counter as much too small as it was. -/
theorem ShortOf.run {actions : List PoolAction} (h : ShortOf x)
    (hrun : (poolMachine mem).Run x actions y)
    (hserved : (poolMachine mem).EachStep ServedFree x actions) : ShortOf y := by
  induction hrun with
  | nil => exact h
  | @cons x z y a as hstep _ ih =>
    obtain ⟨hfirst, hrest⟩ := hserved z hstep
    refine ih ?_ hrest
    cases a with
    | alloc fuel n aligned =>
      obtain ⟨⟨pages, root⟩, halloc, rfl⟩ := Option.map_eq_some_iff.mp hstep
      exact h.alloc halloc (hfirst pages root halloc)
    | free ppages =>
      simp only [poolMachine, memFreePpages_eq_none h.released, Option.map_none, ite_self] at hstep
      cases hstep

theorem ShortOf.not_kept (h : ShortOf x) : ¬PoolKept mem x := by
  intro hkept
  have hshort := h.short
  have hpos := h.pages_pos
  have hfree := hkept.free
  omega

/-- From `mem_init` on no run keeps the pool as it should; where requests are served with free pages
the counter is wrong in every state, and what is handed out cannot be given back. -/
theorem rootPool_never_kept {actions : List PoolAction} (hinit : (poolMachine mem).Init x)
    (hrun : (poolMachine mem).Run x actions y) :
    ¬(poolMachine mem).Always (PoolKept mem) x actions ∧
      ((poolMachine mem).EachStep ServedFree x actions →
        y.root.pool.free < y.root.pool.clearBits ∧ ¬PoolKept mem y ∧
          ∀ ppages, memFreePpages y.root ppages = none) := by
  have hx := memInit_shortOf hinit
  refine ⟨fun halways => hx.not_kept halways.head, fun hserved => ?_⟩
  have hy := hx.run hrun hserved
  have hshort := hy.short
  have hpos := hy.pages_pos
  exact ⟨by omega, hy.not_kept, memFreePpages_eq_none hy.released⟩

/-- Sixteen pages of memory for VMs. -/
def sixteenPages : VmMemory where
  vmBegin := 0x50000000
  vmEnd := 0x50010000
  words := fun _ => 0
  begin_le := by decide
  end_le := by decide

/-- What `mem_init` makes of `sixteenPages`. -/
def sixteenPool : PoolRun where
  root := (memInit sixteenPages).getD ⟨spentPool, spinlockInitval⟩
  taken := []

/-- The first page of `sixteenPool` is handed out. -/
def sixteenFirst : PoolRun :=
  ((poolMachine sixteenPages).run sixteenPool [.alloc 1 1 false]).getD sixteenPool

theorem sixteenPool_init : (poolMachine sixteenPages).Init sixteenPool := by
  have hsome : (memInit sixteenPages).isSome = true := by decide
  obtain ⟨root, hroot⟩ := Option.isSome_iff_exists.mp hsome
  refine ⟨?_, rfl⟩
  rw [sixteenPool, hroot]
  rfl

theorem rootPool_never_kept_sixteenPages :
    ¬(poolMachine sixteenPages).Always (PoolKept sixteenPages) sixteenPool [.alloc 1 1 false] ∧
      ((poolMachine sixteenPages).EachStep ServedFree sixteenPool [.alloc 1 1 false] →
        sixteenFirst.root.pool.free < sixteenFirst.root.pool.clearBits ∧
          ¬PoolKept sixteenPages sixteenFirst ∧
          ∀ ppages, memFreePpages sixteenFirst.root ppages = none) := by
  have hsome :
      ((poolMachine sixteenPages).run sixteenPool [.alloc 1 1 false]).isSome = true := by decide
  obtain ⟨y, hy⟩ := Option.isSome_iff_exists.mp hsome
  have hrun : (poolMachine sixteenPages).Run sixteenPool [.alloc 1 1 false] sixteenFirst := by
    rw [sixteenFirst, hy, Option.getD_some]
    exact Machine.run_eq_some_iff.mp hy
  exact rootPool_never_kept sixteenPool_init hrun

/-- Right behind `mem_init` all sixteen pages are free and the counter says fifteen; the page handed
out next cannot be given back. -/
theorem rootPool_unkept_sixteenPages : (poolMachine sixteenPages).Init sixteenPool ∧
    sixteenPool.root.pool.free = 15 ∧ sixteenPool.root.pool.clearBits = 16 ∧
      ¬PoolKept sixteenPages sixteenPool ∧
        (poolMachine sixteenPages).run sixteenPool
          [.alloc 1 1 false, .free ⟨0x50000000, 1⟩] = none := by
  have hfree : sixteenPool.root.pool.free = 15 := by decide
  have hclear : sixteenPool.root.pool.clearBits = 16 := by decide
  refine ⟨sixteenPool_init, hfree, hclear, fun hkept => ?_, ?_⟩
  · have heq := hkept.free
    rw [hfree, hclear] at heq
    cases heq
  · have hnone : ((poolMachine sixteenPages).run sixteenPool
        [.alloc 1 1 false, .free ⟨0x50000000, 1⟩]).isNone = true := by decide
    exact Option.isNone_iff_eq_none.mp hnone

end Avisor
