import Avisor.Mem.Allocating

/-!
# Address spaces

`as_init` and, behind it, any calls of `mem_alloc_map` and `mem_alloc_map_dev`. The first table is zeroed, and each
call leaves the tables as the next one needs them.
-/

namespace Avisor

open Function

/-! ### `as_init` -/

/-- `mem_alloc_page`. -/
def memAllocPage (s : MmuState) (nrPages : Nat) (physAligned : Bool) : Option (Nat × MmuState) :=
  (memAllocPpages s nrPages physAligned).map fun (ppages, s) => (ppages.base, s)

/-- `memset` of `n` pages with zero. -/
def MmuState.clearPages (s : MmuState) (base n : Nat) : MmuState :=
  { s with words := fun p => if base ≤ p ∧ p < base + n * pageSize then 0 else s.words p }

/-- `as_init`, where `hyp_pt_dscr` and `vm_pt_dscr` point to the two descriptors; `as_arch_init` does nothing
more. -/
def asInit (hypPtDscr vmPtDscr : PtDscr) (type : AsType) (rootPt : Option Nat) (s : MmuState) :
    Option (AddrSpace × MmuState) :=
  let dscr := if type = .hyp ∨ type = .hypCpy then hypPtDscr else vmPtDscr
  match rootPt with
  | some root => some (⟨⟨root, dscr⟩, type⟩, s)
  | none =>
    let n := numPages (ptSize ⟨0, dscr⟩ 0)
    (memAllocPage s n true).map fun (root, s) => (⟨⟨root, dscr⟩, type⟩, s.clearPages root n)

/-- `t` is `s` with `n` pages at `base` handed out, that were free. -/
structure FreshPagesAt (s t : MmuState) (base n : Nat) : Prop where
  pool : t.pool.InMemory
  words : t.words = s.words
  frame : t = { s with pool := t.pool }
  aligned : base % pageSize = 0
  pos : base ≠ 0
  low : base + n * pageSize ≤ 2 ^ 48
  wasFree : ∀ p, base ≤ p → p < base + n * pageSize → s.pool.FreeAt p
  taken : ∀ p, base ≤ p → p < base + n * pageSize → ¬t.pool.FreeAt p
  stillFree : ∀ p, t.pool.FreeAt p → s.pool.FreeAt p

/-- `mem_alloc_page` where the allocator is sound. -/
theorem memAllocPage_fresh {s t : MmuState} {n base : Nat} {aligned : Bool} (hpool : s.pool.InMemory)
    (hn : 1 ≤ n) (hsound : SoundAlloc s.pool n aligned) (h : memAllocPage s n aligned = some (base, t)) :
    FreshPagesAt s t base n ∧ (aligned = true → n * pageSize ∣ base) := by
  obtain ⟨⟨pages, t⟩, halloc, heq⟩ := Option.map_eq_some_iff.mp h
  obtain ⟨rfl, rfl⟩ := Prod.mk.inj heq
  obtain ⟨bit, hbit⟩ : ∃ bit, Allocated s.pool t.pool n aligned pages bit := by
    unfold memAllocPpages at halloc
    split at halloc
    · cases halloc
    · split at halloc
      · rename_i pool pages hrun
        cases halloc
        exact (hsound _ _ _ _ _ hrun).1 rfl
      · cases halloc
  obtain ⟨ht, hplaced⟩ := memAllocPpages_placed hpool hn halloc hbit
  have hbase := hbit.base
  have hin := hbit.inside
  have hend := hpool.end_le
  have hpos := hpool.base_pos
  have hpage : pages.base % pageSize = 0 := by
    rw [hbase]
    exact hpool.page_aligned bit
  refine ⟨⟨hpool.allocated hbit hplaced, by rw [ht], ht, hpage, ?_, ?_, fun p => hbit.freeAt_of_mem,
    fun p => hbit.not_freeAt, fun p => hbit.freeAt⟩, fun haligned => ?_⟩
  · omega
  · simp only [pageSize] at *
    omega
  · have hmod := hbit.aligned haligned
    rw [Nat.mul_comm]
    exact Nat.mul_dvd_of_dvd_div (Nat.dvd_of_mod_eq_zero hpage) (Nat.dvd_of_mod_eq_zero hmod)

/-- An allocator that finds what it looks for at once is sound. -/
theorem soundAlloc_of_found {pool : PagePool} {n : Nat} {aligned : Bool} (h : pool.Placed) (hn : 1 ≤ n)
    (hfree : n ≤ pool.free) (hin : pool.findFree n (pool.firstCurr n aligned) + n ≤ pool.nrPages)
    (hmis : ¬pool.Misaligned n aligned (pool.findFree n (pool.firstCurr n aligned))) :
    SoundAlloc pool n aligned := by
  intro fuel pages ok pool' pages' hrun
  obtain ⟨c, hlooks, -, rfl, htake⟩ := ppAlloc_eq_some (by omega) hn hrun
  have hfirst : c = pool.firstCurr n aligned := by
    clear htake
    induction hlooks with
    | first => rfl
    | again _ hagain ih => exact absurd (ih ▸ hagain) hmis
  subst hfirst
  have hsize := h.size_lt
  have hfound := (h.findFree_eq (pool.firstCurr n aligned) hn).resolve_left (by omega)
  obtain ⟨rfl, rfl⟩ := Prod.mk.inj htake
  exact ⟨fun _ => ⟨_, h.allocated_take hn hin hfound.2 hfree hmis⟩, fun hfalse => absurd hfalse (by simp)⟩

/-- The pages for a table are a power of two of words, or a page. -/
theorem numPages_two_pow {w : Nat} (hw : w < 48) :
    2 ^ w ≤ numPages (2 ^ w) * pageSize ∧ 2 ^ w ∣ numPages (2 ^ w) * pageSize := by
  have hlt : 2 ^ w < 2 ^ 48 := Nat.pow_lt_pow_right (by decide) hw
  have hpages : numPages (2 ^ w) = (2 ^ w + 4095) / 4096 := by
    have hmod : (2 ^ w + 4096 - 1) % 2 ^ 64 = 2 ^ w + 4095 := Nat.mod_eq_of_lt (by omega)
    unfold numPages align
    simp only [pageSize, sizeT]
    rw [hmod, Nat.mul_div_cancel _ (by decide)]
  rw [hpages]
  rcases Nat.le_total w 12 with hsmall | hlarge
  · have hle : 2 ^ w ≤ 2 ^ 12 := Nat.pow_le_pow_right Nat.two_pos hsmall
    have hpos : 0 < 2 ^ w := Nat.two_pow_pos w
    have hone : (2 ^ w + 4095) / 4096 = 1 := by omega
    rw [hone, Nat.one_mul]
    exact ⟨hle, Nat.pow_dvd_pow 2 hsmall⟩
  · obtain ⟨v, rfl⟩ := Nat.exists_eq_add_of_le hlarge
    have hmany : (2 ^ (12 + v) + 4095) / 4096 * pageSize = 2 ^ (12 + v) := by
      rw [Nat.pow_add]
      simp only [pageSize]
      omega
    rw [hmany]
    exact ⟨le_rfl, dvd_rfl⟩

/-- The first table lies in whole pages of its own. -/
theorem ptSize_zero (pt : PageTable) : 0 < ptSize pt 0 ∧ ptSize pt 0 ≤ numPages (ptSize pt 0) * pageSize ∧
    ptSize pt 0 ∣ numPages (ptSize pt 0) * pageSize := by
  have hwdt := pt.dscr.wdt_le
  have hoff := pt.dscr.off_add (Nat.zero_le pt.dscr.last)
  have hsize : ptSize pt 0 = 2 ^ (pt.dscr.lvlWdt 0 - pt.dscr.lvlOff 0 + 3) := by
    unfold ptSize
    rw [ptNentries_zero, Nat.pow_add]
  rw [hsize]
  exact ⟨Nat.two_pow_pos _, numPages_two_pow (by omega)⟩

/-! ### Behind `as_init` -/

/-- The memory that `as_init` finds: the pages it is given for the first table are fresh. -/
structure RootFresh (dscr : PtDscr) (s : MmuState) : Prop where
  pool : s.pool.InMemory
  unlocked : s.poolLocked = false
  tame : s.wild = false
  fresh : ∀ pages t, memAllocPpages s (numPages (ptSize ⟨0, dscr⟩ 0)) true = some (pages, t) →
    ∃ bit, Allocated s.pool t.pool (numPages (ptSize ⟨0, dscr⟩ 0)) true pages bit

section

variable {as : AddrSpace} {s t u : MmuState}

/-- The first table of an address space. -/
def AddrSpace.root (as : AddrSpace) (_ : Unit) : Nat := as.pt.root

/-- A first table in fresh pages, zeroed. -/
theorem clearPages_wf {pages : Ppages} {dscr : PtDscr} {bit : Nat} (hpool : s.pool.InMemory)
    (hunlocked : s.poolLocked = false) (htame : s.wild = false)
    (hrun : memAllocPpages s (numPages (ptSize ⟨0, dscr⟩ 0)) true = some (pages, t))
    (halloc : Allocated s.pool t.pool (numPages (ptSize ⟨0, dscr⟩ 0)) true pages bit) :
    PageTablesWf dscr (fun _ : Unit => pages.base) (t.clearPages pages.base (numPages (ptSize ⟨0, dscr⟩ 0))) := by
  obtain ⟨hsize, hwhole, hdvd⟩ := ptSize_zero ⟨0, dscr⟩
  have hcount : 1 ≤ numPages (ptSize ⟨0, dscr⟩ 0) := by
    by_contra hnone
    rw [Nat.lt_one_iff.mp (Nat.lt_of_not_le hnone), Nat.zero_mul] at hwhole
    omega
  have hin (i : Nat) (hi : i < ptNentries ⟨0, dscr⟩ 0) :
      8 * i < numPages (ptSize ⟨0, dscr⟩ 0) * pageSize := by
    unfold ptSize at hwhole ⊢
    omega
  obtain ⟨heq, hplaced⟩ := memAllocPpages_placed hpool hcount hrun halloc
  have hmemory := hpool.allocated halloc hplaced
  refine ZeroRoots.wf (fun k i hi => ?_) hmemory ?_ ?_ (fun _ _ _ => rfl) (fun k => ?_) (fun k => ?_)
    fun k i hi => ?_
  · exact if_pos ⟨Nat.le_add_right _ _, Nat.add_lt_add_left (hin i hi) _⟩
  · rw [heq]
    exact hunlocked
  · rw [heq]
    exact htame
  · -- whole pages at a multiple of their size
    have hpage : pages.base % pageSize = 0 := by
      rw [halloc.base]
      exact hpool.page_aligned bit
    have hpages := halloc.aligned rfl
    refine Nat.mod_eq_zero_of_dvd (hdvd.trans ?_)
    rw [← Nat.div_mul_cancel (Nat.dvd_of_mod_eq_zero hpage)]
    exact Nat.mul_dvd_mul_right (Nat.dvd_of_mod_eq_zero hpages) pageSize
  · rw [halloc.base]
    exact Nat.add_pos_left hpool.base_pos _
  · exact halloc.not_freeAt (Nat.le_add_right _ _) (Nat.add_lt_add_left (hin i hi) _)

/-- `as_init` makes an empty first table. -/
theorem asInit_wf {hypPtDscr vmPtDscr : PtDscr} {type : AsType} (h : RootFresh as.pt.dscr s)
    (hinit : asInit hypPtDscr vmPtDscr type none s = some (as, t)) : PageTablesWf as.pt.dscr as.root t := by
  obtain ⟨⟨base, u⟩, hpage, heq⟩ := Option.map_eq_some_iff.mp hinit
  obtain ⟨⟨pages, u'⟩, hrun, hpages⟩ := Option.map_eq_some_iff.mp hpage
  obtain ⟨rfl, rfl⟩ := Prod.mk.inj hpages
  obtain ⟨rfl, rfl⟩ := Prod.mk.inj heq
  obtain ⟨bit, halloc⟩ := h.fresh pages u' hrun
  exact clearPages_wf h.pool h.unlocked h.tame hrun halloc

/-! ### Calls -/

/-- A call of `mem_alloc_map` or of `mem_alloc_map_dev`. -/
inductive MapCall
  | map (page : Option Ppages) (va nrPages : Nat) (flags : Pte)
  | dev (va pa nrPages : Nat)

namespace MapCall

def run (as : AddrSpace) (s : MmuState) : MapCall → Option (Nat × MmuState)
  | map page va n flags => memAllocMap as s page va n flags
  | dev va pa n => memAllocMapDev as s va pa n

def page : MapCall → Option Ppages
  | map page _ _ _ => page
  | dev _ pa n => some ⟨pa, n⟩

def va : MapCall → Nat
  | map _ va _ _ | dev va _ _ => va

def nrPages : MapCall → Nat
  | map _ _ n _ | dev _ _ n => n

def flags (as : AddrSpace) : MapCall → Pte
  | map _ _ _ flags => flags
  | dev .. => if as.type = .hyp then pteHypDevFlags else pteVmDevFlags

theorem run_eq (as : AddrSpace) (s : MmuState) (call : MapCall) :
    call.run as s = memAllocMap as s call.page call.va call.nrPages (call.flags as) := by
  cases call <;> rfl

/-- The call is for pages of the address space at a given address, and the pages it is given are fresh. -/
structure Fits (as : AddrSpace) (s : MmuState) (call : MapCall) : Prop where
  aligned : call.va % pageSize = 0
  given : call.va ≠ invalidVa
  span : call.va + call.nrPages * pageSize ≤ ptSpan as.pt
  pages : PagesOf call.page call.nrPages
  fresh : FreshPages as.pt.dscr as.root as.type () s call.page call.va call.nrPages

end MapCall

/-- Address spaces behind `as_init`, and calls for them. -/
def mapMachine (as : AddrSpace) : Machine MmuState MapCall where
  Init s := ∃ hypPtDscr vmPtDscr s₀, RootFresh as.pt.dscr s₀ ∧
    asInit hypPtDscr vmPtDscr as.type none s₀ = some (as, s)
  step s call := (call.run as s).map Prod.snd

variable {calls : List MapCall} {call : MapCall}

theorem MapCall.Fits.run_spec (h : PageTablesWf as.pt.dscr as.root s) (hfits : call.Fits as s) :
    ∃ r t, call.run as s = some (r, t) ∧ PageTablesWf as.pt.dscr as.root t ∧
      AllocMaps as.pt s t call.page call.va call.nrPages (call.flags as) r := by
  have hspan := hfits.span
  rw [ptSpan_eq] at hspan
  rw [call.run_eq]
  exact memAllocMap_spec as.type (call.flags as) h hfits.aligned hfits.given hspan hfits.pages hfits.fresh

end

theorem eightPages_root : memAllocPpages (zeroedTables eightPages) 1 true =
    some ((eightPages.take 1 0).1, { zeroedTables eightPages with pool := (eightPages.take 1 0).2 }) := rfl

theorem eightPages_rootFresh : RootFresh armv8PtDscr (zeroedTables eightPages) where
  pool := eightPages_inMemory
  unlocked := rfl
  tame := rfl
  fresh pages t h := by
    have hpages : numPages (ptSize ⟨0, armv8PtDscr⟩ 0) = 1 := by decide
    rw [hpages, eightPages_root] at h
    cases h
    refine ⟨0, ?_⟩
    rw [hpages]
    refine eightPages_inMemory.toPlaced.allocated_take (by decide) (by decide) (fun i _ _ => ?_) (by decide)
      (by decide)
    simp [eightPages, bitmapGet]

/-- The address space whose first table is the first of the pages. -/
def firstSpace : AddrSpace := ⟨⟨0x50000000, armv8PtDscr⟩, .vm⟩

/-- The memory behind its `as_init`. -/
def firstMemory : MmuState :=
  { zeroedTables eightPages with pool := (eightPages.take 1 0).2 }.clearPages 0x50000000 1

theorem firstSpace_init : (mapMachine firstSpace).Init
    firstMemory := by
  refine ⟨armv8PtDscr, armv8PtDscr, zeroedTables eightPages, eightPages_rootFresh, ?_⟩
  have hpages : numPages (ptSize ⟨0, armv8PtDscr⟩ 0) = 1 := by decide
  have hbase : (eightPages.take 1 0).1.base = 0x50000000 := by decide
  unfold asInit memAllocPage
  simp only [firstSpace, reduceCtorEq, or_self, if_false, hpages, eightPages_root, Option.map_some, hbase]
  rfl

end Avisor
