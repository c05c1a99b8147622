import Avisor.Lib.Isolation
import Avisor.Vm.Creation

/-!
# VMs keep apart

The hypervisor creates VMs and allocates pages for itself, and the VMs that are there store to what their tables map,
all in any order. No page of the pool is in the reach of two VMs, or of a VM and a table or the hypervisor's own data,
and a VM finds in its memory what it has stored there last.
-/

namespace Avisor

open Function Memory

/-! ### The machine -/

/-- The memory, the first tables of the VMs that are there, and the pages that the hypervisor has allocated for
itself. -/
structure VmMemories where
  mem : MmuState
  root : Nat → Nat
  nrVms : Nat
  hyp : List Ppages

/-- What happens to the memory: the hypervisor allocates pages, stores to its own memory, or does a part of `vm_init`
for the VM `k`; or the VM `k` stores a byte. -/
inductive VmAct
  | alloc (nrPages : Nat) (physAligned : Bool)
  | allocVm (config : VmMemoryConfig)
  | hypStore (p : Nat) (b : BitVec 8)
  | asInit
  | memRegion (k baseAddr loadAddr size nrPages : Nat)
  | mapDev (k va pa nrPages : Nat)
  | store (k a : Nat) (b : BitVec 8)

namespace VmMemories

variable (v : VmPlatform) (s : VmMemories)

def roots (k : Fin s.nrVms) : Nat := s.root k

/-- `vms[k].as`. -/
def as (k : Nat) : AddrSpace := ⟨⟨s.root k, v.vmPtDscr⟩, .vm⟩

/-- The memories with a VM more, whose first table is at `base`. -/
def addVm (mem : MmuState) (base : Nat) : VmMemories :=
  { s with mem := mem, root := update s.root s.nrVms base, nrVms := s.nrVms + 1 }

/-- `p` is in a page that the hypervisor has allocated for itself. -/
def InHyp (p : Nat) : Prop := ∃ pages ∈ s.hyp, pages.base ≤ p ∧ p < pages.base + pages.nrPages * pageSize

end VmMemories

/-- `total_size` of `vmm_alloc_vm`. -/
def VmMemoryConfig.totalSize (v : VmPlatform) (config : VmMemoryConfig) : Nat :=
  align ((align v.sizeofVm v.alignofVcpu + config.nrCpus * v.sizeofVcpu) % sizeT) pageSize

def VmAct.run (v : VmPlatform) (s : VmMemories) : VmAct → Option VmMemories
  | alloc nrPages physAligned =>
    (memAllocPage s.mem nrPages physAligned).map fun (base, mem) =>
      { s with mem := mem, hyp := ⟨base, nrPages⟩ :: s.hyp }
  | allocVm config =>
    (vmmAllocVm v config s.mem).map fun (allocation, mem) =>
      { s with mem := mem, hyp := ⟨allocation.base, numPages allocation.size⟩ :: s.hyp }
  | hypStore p b => some { s with mem := s.mem.storeByte p b }
  | asInit =>
    (Avisor.asInit v.hypPtDscr v.vmPtDscr .vm none s.mem).map fun (as, mem) => s.addVm mem as.pt.root
  | memRegion k baseAddr loadAddr size nrPages =>
    (vmInitMemRegion v (s.as v k) baseAddr loadAddr size nrPages s.mem).map fun mem => { s with mem := mem }
  | mapDev k va pa nrPages =>
    (memAllocMapDev (s.as v k) s.mem va pa nrPages).map fun (_, mem) => { s with mem := mem }
  | store k a b =>
    match translate s.mem.words (s.as v k).pt a with
    | none => some s
    | some (pa, flags) =>
      -- a page that is not writable faults
      if flags &&& pteS2apWo = 0 then some s else some { s with mem := s.mem.storeByte pa b }

/-- No VM is there, and the free pages are RAM. -/
structure VmMemoriesInit (ram : Set Nat) (s : VmMemories) : Prop where
  none : s.nrVms = 0
  hyp : s.hyp = []
  pool : s.mem.pool.InMemory
  unlocked : s.mem.poolLocked = false
  tame : s.mem.wild = false
  ram : ∀ p, s.mem.pool.FreeAt p → p ∈ ram

def vmMachine (v : VmPlatform) (ram : Set Nat) : Machine VmMemories VmAct where
  Init := VmMemoriesInit ram
  step s act := act.run v s

/-! ### What is asked -/

/-- A region is mapped in the span and with fresh pages, which its image fits in. The tables of EL1 change nothing
there, the pool lies in the addresses that `PAR_PA_MSK` leaves, and the image is not in the RAM of the pool. -/
structure RegionFits (v : VmPlatform) (ram : Set Nat) (s : VmMemories) (k baseAddr loadAddr size nrPages : Nat) :
    Prop where
  vm : k < s.nrVms
  aligned : baseAddr % pageSize = 0
  given : baseAddr ≠ invalidVa
  span : baseAddr + nrPages * pageSize ≤ 2 ^ v.vmPtDscr.lvlWdt 0
  fresh : FreshPages v.vmPtDscr s.roots .vm ⟨k, vm⟩ s.mem none baseAddr nrPages
  fits : size ≤ nrPages * pageSize
  flat : ∀ ipa, v.stage1 baseAddr = some ipa → ipa = baseAddr
  low : ∀ p, s.mem.pool.FreeAt p → p < 2 ^ 38
  image : ∀ i < size, loadAddr + i ∉ ram

/-- A device is mapped in the span, there are pages for its tables, and it is not in the RAM of the pool. -/
structure DevFits (v : VmPlatform) (ram : Set Nat) (s : VmMemories) (k va pa nrPages : Nat) : Prop where
  vm : k < s.nrVms
  aligned : va % pageSize = 0
  given : va ≠ invalidVa
  span : va + nrPages * pageSize ≤ 2 ^ v.vmPtDscr.lvlWdt 0
  page : pa % pageSize = 0
  end_le : pa + nrPages * pageSize ≤ 2 ^ 48
  supplied : Supplied v.vmPtDscr s.roots ⟨k, vm⟩ (rangePages va nrPages) s.mem
  device : ∀ p, pa ≤ p → p < pa + nrPages * pageSize → p ∉ ram

/-- The condition on what happens; the hypervisor stores to memory of its own. -/
def VmAct.Fits (v : VmPlatform) (ram : Set Nat) (s : VmMemories) : VmAct → Prop
  | alloc nrPages physAligned => 1 ≤ nrPages ∧ SoundAlloc s.mem.pool nrPages physAligned
  | allocVm config => 0 < config.totalSize v ∧ config.totalSize v + pageSize ≤ sizeT ∧
      SoundAlloc s.mem.pool (numPages (config.totalSize v)) false
  | hypStore p _ => p ∈ ram → s.InHyp p
  | asInit => SoundAlloc s.mem.pool (numPages (ptSize ⟨0, v.vmPtDscr⟩ 0)) true
  | memRegion k baseAddr loadAddr size nrPages => RegionFits v ram s k baseAddr loadAddr size nrPages
  | mapDev k va pa nrPages => DevFits v ram s k va pa nrPages
  | store k _ _ => k < s.nrVms

/-- RAM that a VM reaches is in the reach of no other VM and at no other address, and it is no entry of a table, not
free and not the hypervisor's. -/
structure VmsIsolated (v : VmPlatform) (ram : Set Nat) (s : VmMemories) : Prop where
  apart : ∀ k a k' a' pa flags flags', k < s.nrVms → k' < s.nrVms →
    translate s.mem.words (s.as v k).pt a = some (pa, flags) →
    translate s.mem.words (s.as v k').pt a' = some (pa, flags') → pa ∈ ram → k = k' ∧ a = a'
  tables : ∀ k a pa flags k', k < s.nrVms → translate s.mem.words (s.as v k).pt a = some (pa, flags) → pa ∈ ram →
    ¬Entry v.vmPtDscr s.roots s.mem.words k' (pa / 8 * 8)
  hypervisor : ∀ k a pa flags, k < s.nrVms → translate s.mem.words (s.as v k).pt a = some (pa, flags) → pa ∈ ram →
    ¬s.InHyp pa ∧ ¬s.mem.pool.FreeAt pa

/-! ### Pages -/

theorem PagePool.FreeAt.congr {pool : PagePool} {p q : Nat} (h : pool.FreeAt p) (hbase : pool.base % pageSize = 0)
    (hpage : p / pageSize = q / pageSize) : pool.FreeAt q := by
  obtain ⟨bit, hbit, hfree, hlow, hhigh⟩ := h
  refine ⟨bit, hbit, hfree, ?_, ?_⟩ <;>
  · simp only [pageSize] at *
    omega

theorem PagePool.InMemory.freeAt_word {pool : PagePool} {p : Nat} (h : pool.InMemory) :
    pool.FreeAt (p / 8 * 8) ↔ pool.FreeAt p := by
  have hpage : p / 8 * 8 / pageSize = p / pageSize := by
    simp only [pageSize]
    omega
  exact ⟨fun hfree => hfree.congr h.base_aligned hpage, fun hfree => hfree.congr h.base_aligned hpage.symm⟩

/-! ### Domains -/

variable {v : VmPlatform} {ram : Set Nat} {s t : VmMemories} {k k' a a' pa p n : Nat} {flags : Pte} {b : BitVec 8}

/-- The bytes that the VMs' tables map, and those that the hypervisor has for its data and for tables. -/
def VmMemories.domains (v : VmPlatform) (s : VmMemories) : Domains Nat Nat Nat (BitVec 8) where
  holds k a := if k < s.nrVms then (translate s.mem.words (s.as v k).pt a).map Prod.fst else none
  kept := {p | (∃ k, Entry v.vmPtDscr s.roots s.mem.words k (p / 8 * 8)) ∨ s.InHyp p}
  free := {p | s.mem.pool.FreeAt p}
  mem := s.mem.bytes

theorem domains_holds : (s.domains v).holds k a = some pa ↔
    k < s.nrVms ∧ ∃ flags, translate s.mem.words (s.as v k).pt a = some (pa, flags) := by
  show (if k < s.nrVms then _ else none) = some pa ↔ _
  by_cases hk : k < s.nrVms <;> simp [hk, Option.map_eq_some_iff]

theorem vmsIsolated_of_domains (h : (s.domains v).Isolated ram) : VmsIsolated v ram s where
  apart _ _ _ _ _ flags flags' hk hk' ht ht' hram :=
    h.apart (domains_holds.mpr ⟨hk, flags, ht⟩) (domains_holds.mpr ⟨hk', flags', ht'⟩) hram
  tables _ _ _ flags k' hk ht hram hentry :=
    (h.held (domains_holds.mpr ⟨hk, flags, ht⟩) hram).2 (.inl ⟨k', hentry⟩)
  hypervisor _ _ _ flags hk ht hram := by
    obtain ⟨hused, hown⟩ := h.held (domains_holds.mpr ⟨hk, flags, ht⟩) hram
    exact ⟨fun hhyp => hown (.inr hhyp), hused⟩

/-- The tables are such, apart from the hypervisor's own pages, and the RAM that they map is writable. -/
structure VmMemoriesWf (v : VmPlatform) (ram : Set Nat) (s : VmMemories) : Prop where
  tables : PageTablesWf v.vmPtDscr s.roots s.mem
  hyp : ∀ pages ∈ s.hyp, pages.base % pageSize = 0
  apart : ∀ k p, Entry v.vmPtDscr s.roots s.mem.words k p → ¬s.InHyp p
  writable : ∀ k < s.nrVms, ∀ a pa flags, translate s.mem.words (s.as v k).pt a = some (pa, flags) → pa ∈ ram →
    flags &&& pteS2apWo ≠ 0

/-- What the tables say changes for pages that were free and for devices. -/
structure TablesStep (v : VmPlatform) (ram : Set Nat) (s : VmMemories) (m : MmuState) : Prop where
  wf : PageTablesWf v.vmPtDscr s.roots m
  keeps : ∀ k < s.nrVms, ∀ a x, translate s.mem.words (s.as v k).pt a = some x →
    translate m.words (s.as v k).pt a = some x
  comes : ∀ k < s.nrVms, ∀ a pa flags, translate m.words (s.as v k).pt a = some (pa, flags) → pa ∈ ram →
    translate s.mem.words (s.as v k).pt a = some (pa, flags) ∨ flags &&& pteS2apWo ≠ 0 ∧ s.mem.pool.FreeAt pa ∧
      ¬m.pool.FreeAt pa ∧ ∀ k', ¬Entry v.vmPtDscr s.roots m.words k' (pa / 8 * 8)
  once : ∀ k < s.nrVms, ∀ k' < s.nrVms, ∀ a a' pa flags flags',
    translate m.words (s.as v k).pt a = some (pa, flags) → translate m.words (s.as v k').pt a' = some (pa, flags') →
    s.mem.pool.FreeAt pa → k = k' ∧ a = a'
  entries : ∀ k p, Entry v.vmPtDscr s.roots m.words k p →
    Entry v.vmPtDscr s.roots s.mem.words k p ∨ s.mem.pool.FreeAt p
  written : ∀ p, m.words p ≠ s.mem.words p →
    (∃ k, Entry v.vmPtDscr s.roots s.mem.words k p) ∨ s.mem.pool.FreeAt p
  taken : ∀ p, m.pool.FreeAt p → s.mem.pool.FreeAt p

theorem TablesStep.step {m : MmuState} (h : TablesStep v ram s m) (hwf : VmMemoriesWf v ram s)
    (hs : (s.domains v).Isolated ram) : VmMemoriesWf v ram { s with mem := m } ∧
      Domains.Step ram ∅ none (s.domains v) (VmMemories.domains v { s with mem := m }) := by
  have hfree {p : Nat} (hp : s.mem.pool.FreeAt (p / 8 * 8)) : s.mem.pool.FreeAt p :=
    hwf.tables.pool.freeAt_word.mp hp
  refine ⟨⟨h.wf, hwf.hyp, fun k p hentry hhyp => ?_, fun k hk a pa flags ht hram => ?_⟩, ?_, ?_, ?_, ?_,
    fun p hp => h.taken p hp, ?_⟩
  · rcases h.entries k p hentry with hold | hwas
    · exact hwf.apart k p hold hhyp
    · exact (hs.kept (.inr hhyp)).2 hwas
  · exact (h.comes k hk a pa flags ht hram).elim (fun hold => hwf.writable k hk a pa flags hold hram) fun hnew => hnew.1
  · intro k a pa hhold
    obtain ⟨hk, flags, ht⟩ := domains_holds.mp hhold
    exact domains_holds.mpr ⟨hk, flags, h.keeps k hk a _ ht⟩
  · intro k a pa hhold hram
    obtain ⟨hk, flags, ht⟩ := domains_holds.mp hhold
    rcases h.comes k hk a pa flags ht hram with hold | ⟨-, hwas, hused, hapart⟩
    · exact .inl (domains_holds.mpr ⟨hk, flags, hold⟩)
    · refine .inr ⟨hwas, hused, ?_⟩
      rintro (⟨k', hentry⟩ | hhyp)
      · exact hapart k' hentry
      · exact (hs.kept (.inr hhyp)).2 hwas
  · intro k a k' a' pa hhold hhold' hwas
    obtain ⟨hk, flags, ht⟩ := domains_holds.mp hhold
    obtain ⟨hk', flags', ht'⟩ := domains_holds.mp hhold'
    exact h.once k hk k' hk' a a' pa flags flags' ht ht' hwas
  · rintro p (⟨k, hentry⟩ | hhyp)
    · rcases h.entries k _ hentry with hold | hwas
      · exact .inl (.inl ⟨k, hold⟩)
      · exact .inr ⟨hfree hwas, fun hp => h.wf.apart k _ hentry (h.wf.pool.freeAt_word.mpr hp)⟩
    · exact .inl (.inr hhyp)
  · intro p hne
    rcases h.written _ (MmuState.words_ne_of_bytes hne) with hentry | hwas
    · exact .inr (.inl (.inl hentry))
    · exact .inl (hfree hwas)

/-- Tables that were hung up say nothing new. -/
theorem Grown.tablesStep {m : MmuState} {k : Fin s.nrVms} (h : Grown v.vmPtDscr s.roots k s.mem m)
    (hwf : PageTablesWf v.vmPtDscr s.roots s.mem) (hs : (s.domains v).Isolated ram) : TablesStep v ram s m := by
  have hsame {k : Nat} (hk : k < s.nrVms) (a : Nat) :
      translate m.words (s.as v k).pt a = translate s.mem.words (s.as v k).pt a := by
    have hview := translate_congr (k := (⟨k, hk⟩ : Fin s.nrVms)) (a := a) hwf h.wf fun _ => h.view _
    exact hview
  refine ⟨h.wf, fun k hk a x ht => ?_, fun k hk a pa flags ht _ => ?_,
    fun k hk k' hk' a a' pa flags flags' ht ht' hwas => ?_,
    h.entries, fun p hne => ?_, h.taken⟩
  · rwa [hsame hk]
  · rw [hsame hk] at ht
    exact .inl ht
  · rw [hsame hk] at ht
    rw [hsame hk'] at ht'
    exact hs.apart (domains_holds.mpr ⟨hk, flags, ht⟩) (domains_holds.mpr ⟨hk', flags', ht'⟩) (hs.free hwas)
  · exact (h.entries k p (h.written p hne)).imp_left fun hentry => ⟨k, hentry⟩

section

variable {m m' : MmuState} {k : Fin s.nrVms} {page : Option Ppages} {va base : Nat}

/-- Pages that the allocator has handed out for a range were free. -/
theorem Installed.freeAt (h : Installed v.vmPtDscr s.roots k s.mem m none va n base flags)
    (hwf : PageTablesWf v.vmPtDscr s.roots s.mem) (hlow : base ≤ p) (hhigh : p < base + n * pageSize) :
    s.mem.pool.FreeAt p := by
  have hpage := h.aligned
  have hi : (p - base) / pageSize < n := by
    rw [Nat.div_lt_iff_lt_mul (by decide)]
    omega
  refine (h.fresh rfl _ hi).congr hwf.pool.base_aligned ?_
  simp only [pageSize] at *
  omega

/-- What the tables say behind pages that are mapped: of these as they say, of all others as before. -/
theorem Installed.translate_cases (h : Installed v.vmPtDscr s.roots k s.mem m page va n base flags)
    (hwf : PageTablesWf v.vmPtDscr s.roots s.mem) (haligned : va % pageSize = 0)
    (hspan : va + n * pageSize ≤ 2 ^ v.vmPtDscr.lvlWdt 0) {k' : Nat} (hk' : k' < s.nrVms) (a : Nat) :
    (k' = k ∧ va ≤ a ∧ a < va + n * pageSize) ∧ translate m.words (s.as v k').pt a =
        some (base + (a - va), (ptePageType ||| flags) &&& pteFlagsMsk) ∨
      ¬(k' = k ∧ va ≤ a ∧ a < va + n * pageSize) ∧
        translate m.words (s.as v k').pt a = translate s.mem.words (s.as v k').pt a := by
  by_cases hin : k' = k ∧ va ≤ a ∧ a < va + n * pageSize
  · obtain ⟨rfl, hlow, hlt⟩ := hin
    exact .inl ⟨⟨rfl, hlow, hlt⟩, translate_inside h.pages hlow hlt⟩
  · refine .inr ⟨hin, ?_⟩
    exact (h.remapped hwf haligned hspan).others ⟨k', hk'⟩ a fun hboth => hin ⟨congrArg Fin.val hboth.1, hboth.2⟩

/-- What is stored to the pages behind the call is in no entry. -/
theorem Installed.sameEntries (h : Installed v.vmPtDscr s.roots k s.mem m page va n base flags)
    (hstored : ∀ p, m'.words p ≠ m.words p → page = none ∧ base ≤ p ∧ p < base + n * pageSize) :
    SameEntries v.vmPtDscr s.roots m.words m'.words := by
  intro k' p hentry
  by_contra hne
  obtain ⟨hnone, hin⟩ := hstored p hne
  exact h.apart hnone k' p hentry hin

theorem Installed.translate_stored (h : Installed v.vmPtDscr s.roots k s.mem m page va n base flags)
    (hwf' : PageTablesWf v.vmPtDscr s.roots m')
    (hstored : ∀ p, m'.words p ≠ m.words p → page = none ∧ base ≤ p ∧ p < base + n * pageSize)
    {k' : Nat} (hk' : k' < s.nrVms) : translate m'.words (s.as v k').pt a = translate m.words (s.as v k').pt a := by
  have hsame := h.sameEntries hstored
  have hview := translate_congr (k := (⟨k', hk'⟩ : Fin s.nrVms)) (a := a) h.wf hwf' fun _ => hsame.pageView
  exact hview

/-- Pages that are mapped, and what is stored to them then if they are of the pool. -/
theorem Installed.tablesStep (h : Installed v.vmPtDscr s.roots k s.mem m page va n base flags)
    (hwf : PageTablesWf v.vmPtDscr s.roots s.mem) (hs : (s.domains v).Isolated ram) (haligned : va % pageSize = 0)
    (hspan : va + n * pageSize ≤ 2 ^ v.vmPtDscr.lvlWdt 0) (hunused : RangeUnused v.vmPtDscr s.roots k s.mem va n)
    (hram : page = none ∧ (ptePageType ||| flags) &&& pteFlagsMsk &&& pteS2apWo ≠ 0 ∨
      ∀ p, base ≤ p → p < base + n * pageSize → p ∉ ram)
    (hpool : m'.pool = m.pool) (hunlocked : m'.poolLocked = m.poolLocked) (htame : m'.wild = m.wild)
    (hstored : ∀ p, m'.words p ≠ m.words p → page = none ∧ base ≤ p ∧ p < base + n * pageSize) :
    TablesStep v ram s m' := by
  have hsame : SameEntries v.vmPtDscr s.roots m.words m'.words := h.sameEntries hstored
  have hwf' : PageTablesWf v.vmPtDscr s.roots m' := by
    refine h.wf.of_sameEntries hsame (hpool ▸ h.wf.pool) (fun p hp => hpool ▸ hp) ?_ ?_
    · rw [hunlocked, h.wf.unlocked]
    · rw [htame, h.wf.tame]
  have hcases {k' : Nat} (hk' : k' < s.nrVms) (a : Nat) :
      (k' = k ∧ va ≤ a ∧ a < va + n * pageSize) ∧ translate m'.words (s.as v k').pt a =
          some (base + (a - va), (ptePageType ||| flags) &&& pteFlagsMsk) ∨
        ¬(k' = k ∧ va ≤ a ∧ a < va + n * pageSize) ∧
          translate m'.words (s.as v k').pt a = translate s.mem.words (s.as v k').pt a := by
    rw [h.translate_stored hwf' hstored hk']
    exact h.translate_cases hwf haligned hspan hk' a
  refine ⟨hwf', fun k' hk' a x ht => ?_, fun k' hk' a pa flags' ht hin => ?_,
    fun k₁ hk₁ k₂ hk₂ a₁ a₂ pa f₁ f₂ ht₁ ht₂ hwas => ?_, fun k' p hp => h.entries k' p (hsame.entry_iff.mp hp),
    fun p hne => ?_, fun p hp => h.taken p (hpool ▸ hp)⟩
  · rcases hcases hk' a with ⟨⟨rfl, hlow, hlt⟩, -⟩ | ⟨-, heq⟩
    · have hnone := (translate_eq_none hwf (by omega)).mpr (hunused a hlow hlt).unmapped
      rw [show translate s.mem.words (s.as v k).pt a = none from hnone] at ht
      cases ht
    · rwa [heq]
  · rcases hcases hk' a with ⟨⟨-, hlow, hlt⟩, heq⟩ | ⟨-, heq⟩
    · rw [heq] at ht
      obtain ⟨rfl, rfl⟩ := Prod.mk.inj (Option.some.inj ht)
      rcases hram with ⟨rfl, hwritable⟩ | hdevice
      · refine .inr ⟨hwritable, h.freeAt hwf (Nat.le_add_right _ _) (by omega), fun hp => ?_, fun k'' hentry => ?_⟩
        · exact h.allocated rfl _ (Nat.le_add_right _ _) (by omega) (hpool ▸ hp)
        · have hbase := h.aligned
          refine h.apart rfl k'' _ (hsame.entry_iff.mp hentry) ?_
          simp only [pageSize] at *
          omega
      · exact absurd hin (hdevice _ (Nat.le_add_right _ _) (by omega))
    · rw [heq] at ht
      exact .inl ht
  · have hold {k' a f : _} (hk' : k' < s.nrVms) (ht : translate s.mem.words (s.as v k').pt a = some (pa, f)) : False :=
      (hs.held (domains_holds.mpr ⟨hk', f, ht⟩) (hs.free hwas)).1 hwas
    rcases hcases hk₁ a₁ with ⟨⟨rfl, hlow₁, hlt₁⟩, heq₁⟩ | ⟨-, heq₁⟩
    · rcases hcases hk₂ a₂ with ⟨⟨rfl, hlow₂, hlt₂⟩, heq₂⟩ | ⟨-, heq₂⟩
      · have hpa₁ := congrArg Prod.fst (Option.some.inj (heq₁.symm.trans ht₁))
        have hpa₂ := congrArg Prod.fst (Option.some.inj (heq₂.symm.trans ht₂))
        simp only at hpa₁ hpa₂
        exact ⟨rfl, by omega⟩
      · exact (hold hk₂ (heq₂.symm.trans ht₂)).elim
    · exact (hold hk₁ (heq₁.symm.trans ht₁)).elim
  · by_cases hp : m'.words p = m.words p
    · rw [hp] at hne
      exact (h.written p hne).imp_left fun hentry => ⟨k, hentry⟩
    · obtain ⟨rfl, hlow, hhigh⟩ := hstored p hp
      exact .inr (h.freeAt hwf hlow hhigh)

end

/-! ### Step by step -/

theorem VmMemoriesWf.inHyp_word (h : VmMemoriesWf v ram s) : s.InHyp (p / 8 * 8) ↔ s.InHyp p := by
  refine exists_congr fun pages => and_congr_right fun hpages => ?_
  have haligned := h.hyp pages hpages
  simp only [pageSize] at *
  omega

/-- A store beside the entries. -/
theorem VmMemoriesWf.storeByte (h : VmMemoriesWf v ram s)
    (hbeside : ∀ k, ¬Entry v.vmPtDscr s.roots s.mem.words k (p / 8 * 8)) (b : BitVec 8) :
    VmMemoriesWf v ram { s with mem := s.mem.storeByte p b } ∧
      VmMemories.domains v { s with mem := s.mem.storeByte p b } =
        { s.domains v with mem := update (s.domains v).mem p b } := by
  have hsame : SameEntries v.vmPtDscr s.roots s.mem.words (s.mem.storeByte p b).words := by
    intro k q hentry
    refine MmuState.words_withBytes fun hq i hi => update_of_ne (fun heq => hbeside k ?_) ..
    obtain rfl : q = p / 8 * 8 := by omega
    exact hentry
  have hwf : PageTablesWf v.vmPtDscr s.roots (s.mem.storeByte p b) :=
    h.tables.of_sameEntries hsame h.tables.pool (fun _ hp => hp) h.tables.unlocked h.tables.tame
  have hview {k : Nat} (hk : k < s.nrVms) (a : Nat) :
      translate (s.mem.storeByte p b).words (s.as v k).pt a = translate s.mem.words (s.as v k).pt a := by
    have hview := translate_congr (k := (⟨k, hk⟩ : Fin s.nrVms)) (a := a) h.tables hwf fun _ => hsame.pageView
    exact hview
  refine ⟨⟨hwf, h.hyp, fun k q hentry => h.apart k q (hsame.entry_iff.mp hentry), fun k hk a pa flags ht => ?_⟩, ?_⟩
  · exact h.writable k hk a pa flags ((hview hk a).symm.trans ht)
  · unfold VmMemories.domains
    congr 1
    · funext k a
      show (if k < s.nrVms then (translate (s.mem.storeByte p b).words (s.as v k).pt a).map Prod.fst else none) =
        if k < s.nrVms then (translate s.mem.words (s.as v k).pt a).map Prod.fst else none
      split_ifs with hk
      · rw [hview hk]
      · rfl
    · ext q
      exact or_congr (exists_congr fun k => hsame.entry_iff) Iff.rfl
    · exact MmuState.bytes_withBytes ..

/-- A store of the hypervisor to its own memory. -/
theorem VmMemoriesWf.hypStore (h : VmMemoriesWf v ram s) (hs : (s.domains v).Isolated ram)
    (hfits : p ∈ ram → s.InHyp p) (b : BitVec 8) :
    VmMemoriesWf v ram { s with mem := s.mem.storeByte p b } ∧
      Domains.Step ram {p} none (s.domains v) (VmMemories.domains v { s with mem := s.mem.storeByte p b }) := by
  have hbeside (k) : ¬Entry v.vmPtDscr s.roots s.mem.words k (p / 8 * 8) := fun hentry =>
    h.apart k _ hentry (h.inHyp_word.mpr (hfits (hs.kept (.inl ⟨k, hentry⟩)).1))
  obtain ⟨hwf, hdomains⟩ := h.storeByte hbeside b
  refine ⟨hwf, ?_⟩
  rw [hdomains]
  have hrefl := Domains.Step.refl ram {p} none (s.domains v) hs
  refine { hrefl with writes := fun {q} hne => .inr ?_ }
  obtain rfl : q = p := by
    by_contra hother
    exact hne (update_of_ne hother _ _)
  by_cases hram : q ∈ ram
  · exact .inl (.inr (hfits hram))
  · exact .inr (.inl ⟨rfl, hram⟩)

/-- A store of a VM to a page that its tables map. -/
theorem VmMemoriesWf.vmStore (h : VmMemoriesWf v ram s) (hs : (s.domains v).Isolated ram) (hk : k < s.nrVms)
    (ht : translate s.mem.words (s.as v k).pt a = some (pa, flags)) (b : BitVec 8) :
    VmMemoriesWf v ram { s with mem := s.mem.storeByte pa b } ∧
      VmMemories.domains v { s with mem := s.mem.storeByte pa b } =
        { s.domains v with mem := update (s.domains v).mem pa b } := by
  refine h.storeByte (fun k' hentry => ?_) b
  have hkept : pa ∈ (s.domains v).kept := .inl ⟨k', hentry⟩
  exact (hs.held (domains_holds.mpr ⟨hk, flags, ht⟩) (hs.kept hkept).1).2 hkept

section

variable {m m' : MmuState} {base : Nat}

/-- Pages that were free have no entries. -/
theorem FreshPagesAt.sameEntries (h : FreshPagesAt s.mem m base n) (hwf : PageTablesWf v.vmPtDscr s.roots s.mem)
    (hpool : m'.pool = m.pool) (hunlocked : m'.poolLocked = m.poolLocked) (htame : m'.wild = m.wild)
    (hstored : ∀ p, m'.words p ≠ m.words p → base ≤ p ∧ p < base + n * pageSize) :
    SameEntries v.vmPtDscr s.roots s.mem.words m'.words ∧ PageTablesWf v.vmPtDscr s.roots m' := by
  have hsame : SameEntries v.vmPtDscr s.roots s.mem.words m'.words := by
    intro k p hentry
    rw [← h.words]
    by_contra hne
    obtain ⟨hlow, hhigh⟩ := hstored p hne
    exact hwf.apart k p hentry (h.wasFree p hlow hhigh)
  refine ⟨hsame, hwf.of_sameEntries hsame (hpool ▸ h.pool) (fun p hp => h.stillFree p (hpool ▸ hp)) ?_ ?_⟩
  · rw [hunlocked, h.frame, hwf.unlocked]
  · rw [htame, h.frame, hwf.tame]

/-- Pages for the hypervisor itself, and what it stores to them then. -/
theorem FreshPagesAt.alloc (h : FreshPagesAt s.mem m base n) (hwf : VmMemoriesWf v ram s)
    (hs : (s.domains v).Isolated ram) (hpool : m'.pool = m.pool) (hunlocked : m'.poolLocked = m.poolLocked)
    (htame : m'.wild = m.wild) (hstored : ∀ p, m'.words p ≠ m.words p → base ≤ p ∧ p < base + n * pageSize) :
    VmMemoriesWf v ram { s with mem := m', hyp := ⟨base, n⟩ :: s.hyp } ∧
      Domains.Step ram ∅ none (s.domains v) (VmMemories.domains v { s with mem := m', hyp := ⟨base, n⟩ :: s.hyp }) := by
  obtain ⟨hsame, htables⟩ := h.sameEntries hwf.tables hpool hunlocked htame hstored
  have hview {k : Nat} (hk : k < s.nrVms) (a : Nat) :
      translate m'.words (s.as v k).pt a = translate s.mem.words (s.as v k).pt a := by
    have hview := translate_congr (k := (⟨k, hk⟩ : Fin s.nrVms)) (a := a) hwf.tables htables fun _ => hsame.pageView
    exact hview
  have hfree (p) (hp : m'.pool.FreeAt p) : s.mem.pool.FreeAt p := h.stillFree p (hpool ▸ hp)
  refine ⟨⟨htables, fun pages hpages => ?_, fun k p hentry hhyp => ?_, fun k hk a pa flags ht => ?_⟩, ?_, ?_, ?_, ?_,
    fun p hp => hfree p hp, ?_⟩
  · rcases List.mem_cons.mp hpages with rfl | hold
    · exact h.aligned
    · exact hwf.hyp pages hold
  · have hold := hsame.entry_iff.mp hentry
    obtain ⟨pages, hpages, hin⟩ := hhyp
    rcases List.mem_cons.mp hpages with rfl | hbefore
    · exact hwf.tables.apart k p hold (h.wasFree p hin.1 hin.2)
    · exact hwf.apart k p hold ⟨pages, hbefore, hin⟩
  · exact hwf.writable k hk a pa flags ((hview hk a).symm.trans ht)
  · intro k a pa hhold
    obtain ⟨hk, flags, ht⟩ := domains_holds.mp hhold
    exact domains_holds.mpr ⟨hk, flags, (hview hk a).trans ht⟩
  · intro k a pa hhold _
    obtain ⟨hk, flags, ht⟩ := domains_holds.mp hhold
    exact .inl (domains_holds.mpr ⟨hk, flags, (hview hk a).symm.trans ht⟩)
  · intro k a k' a' pa hhold hhold' hwas
    obtain ⟨hk, flags, ht⟩ := domains_holds.mp hhold
    obtain ⟨hk', flags', ht'⟩ := domains_holds.mp hhold'
    exact hs.apart (domains_holds.mpr ⟨hk, flags, (hview hk a).symm.trans ht⟩)
      (domains_holds.mpr ⟨hk', flags', (hview hk' a').symm.trans ht'⟩) (hs.free hwas)
  · rintro p (⟨k, hentry⟩ | ⟨pages, hpages, hin⟩)
    · exact .inl (.inl ⟨k, hsame.entry_iff.mp hentry⟩)
    · rcases List.mem_cons.mp hpages with rfl | hbefore
      · exact .inr ⟨h.wasFree p hin.1 hin.2, fun hp => h.taken p hin.1 hin.2 (hpool ▸ hp)⟩
      · exact .inl (.inr ⟨pages, hbefore, hin⟩)
  · intro p hne
    have hword := MmuState.words_ne_of_bytes hne
    have hword : m'.words (p / 8 * 8) ≠ m.words (p / 8 * 8) := by rwa [h.words]
    obtain ⟨hlow, hhigh⟩ := hstored _ hword
    exact .inl (hwf.tables.pool.freeAt_word.mp (h.wasFree _ hlow hhigh))

/-- The first table of a VM, in pages that were free. -/
theorem FreshPagesAt.zeroTable {dscr : PtDscr} (h : FreshPagesAt s.mem m base (numPages (ptSize ⟨0, dscr⟩ 0)))
    (haligned : numPages (ptSize ⟨0, dscr⟩ 0) * pageSize ∣ base) :
    ZeroTable dscr (m.clearPages base (numPages (ptSize ⟨0, dscr⟩ 0))) base := by
  obtain ⟨-, hwhole, hdvd⟩ := ptSize_zero ⟨0, dscr⟩
  have hin {i : Nat} (hi : i < ptNentries ⟨base, dscr⟩ 0) :
      base + 8 * i < base + numPages (ptSize ⟨0, dscr⟩ 0) * pageSize := by
    have hentries : ptNentries ⟨base, dscr⟩ 0 = ptNentries ⟨0, dscr⟩ 0 := rfl
    unfold ptSize at hwhole ⊢
    omega
  refine ⟨Nat.pos_of_ne_zero h.pos, Nat.mod_eq_zero_of_dvd (hdvd.trans haligned), fun i hi => ?_, fun i hi => ?_⟩
  · exact if_pos ⟨Nat.le_add_right _ _, hin hi⟩
  · exact h.taken _ (Nat.le_add_right _ _) (hin hi)

/-- In `m`, there is a first table at `base` that was free, and the tables of the VMs that were there. -/
structure NewTable (v : VmPlatform) (s : VmMemories) (m : MmuState) (base : Nat) : Prop where
  zero : ZeroTable v.vmPtDscr m base
  same : SameEntries v.vmPtDscr s.roots s.mem.words m.words
  wf : PageTablesWf v.vmPtDscr s.roots m
  first : ∀ i < ptNentries ⟨base, v.vmPtDscr⟩ 0, s.mem.pool.FreeAt (base + 8 * i)
  taken : ∀ p, m.pool.FreeAt p → s.mem.pool.FreeAt p
  written : ∀ p, m.words p ≠ s.mem.words p → s.mem.pool.FreeAt p

theorem FreshPagesAt.newTable (h : FreshPagesAt s.mem m base (numPages (ptSize ⟨0, v.vmPtDscr⟩ 0)))
    (haligned : numPages (ptSize ⟨0, v.vmPtDscr⟩ 0) * pageSize ∣ base)
    (hwf : PageTablesWf v.vmPtDscr s.roots s.mem) :
    NewTable v s (m.clearPages base (numPages (ptSize ⟨0, v.vmPtDscr⟩ 0))) base := by
  have hstored (p) (hne : (m.clearPages base (numPages (ptSize ⟨0, v.vmPtDscr⟩ 0))).words p ≠ m.words p) :
      base ≤ p ∧ p < base + numPages (ptSize ⟨0, v.vmPtDscr⟩ 0) * pageSize := by
    by_contra hout
    exact hne (if_neg hout)
  have hboth : SameEntries v.vmPtDscr s.roots s.mem.words
        (m.clearPages base (numPages (ptSize ⟨0, v.vmPtDscr⟩ 0))).words ∧
      PageTablesWf v.vmPtDscr s.roots (m.clearPages base (numPages (ptSize ⟨0, v.vmPtDscr⟩ 0))) :=
    h.sameEntries hwf rfl rfl rfl hstored
  refine ⟨h.zeroTable haligned, hboth.1, hboth.2, fun i hi => ?_, h.stillFree, fun p hne => ?_⟩
  · refine h.wasFree _ (Nat.le_add_right _ _) ?_
    obtain ⟨-, hwhole, -⟩ := ptSize_zero ⟨0, v.vmPtDscr⟩
    have hentries : ptNentries ⟨base, v.vmPtDscr⟩ 0 = ptNentries ⟨0, v.vmPtDscr⟩ 0 := rfl
    unfold ptSize at hwhole ⊢
    omega
  · rw [← h.words] at hne
    obtain ⟨hlow, hhigh⟩ := hstored p hne
    exact h.wasFree p hlow hhigh

theorem VmMemories.roots_addVm (k : Fin (s.addVm m base).nrVms) :
    k.val = s.nrVms ∧ (s.addVm m base).roots k = base ∨
      ∃ k' : Fin s.nrVms, k.val = k'.val ∧ (s.addVm m base).roots k = s.roots k' := by
  rcases Nat.lt_succ_iff_lt_or_eq.mp k.isLt with hlt | heq
  · exact .inr ⟨⟨k, hlt⟩, rfl, update_of_ne hlt.ne ..⟩
  · refine .inl ⟨heq, ?_⟩
    show update s.root s.nrVms base k.val = base
    rw [heq, update_self]

theorem NewTable.entry (h : NewTable v s m base) {k : Fin (s.addVm m base).nrVms}
    (hp : Entry v.vmPtDscr (s.addVm m base).roots m.words k p) :
    s.mem.pool.FreeAt p ∨ ∃ k', Entry v.vmPtDscr s.roots s.mem.words k' p := by
  rcases VmMemories.roots_addVm k with ⟨-, hnew⟩ | ⟨k', -, hroot⟩
  · obtain ⟨i, hi, rfl⟩ := h.zero.entry hnew hp
    exact .inl (h.first i hi)
  · exact .inr ⟨k', h.same.entry_iff.mp ((entry_rename hroot).mp hp)⟩

theorem NewTable.tables (h : NewTable v s m base) (hwf : PageTablesWf v.vmPtDscr s.roots s.mem) :
    PageTablesWf v.vmPtDscr (s.addVm m base).roots m := by
  have hbase (k : Fin s.nrVms) : s.roots k ≠ base := by
    intro heq
    have hpos : 0 < ptNentries ⟨base, v.vmPtDscr⟩ 0 :=
      (Nat.zero_le _).trans_lt (index_lt (fun _ : Unit => base) () (Nat.zero_le v.vmPtDscr.last) 0)
    refine hwf.apart k _ (root_entry v.vmPtDscr s.roots s.mem.words k) ?_
    rw [heq]
    exact h.first 0 hpos
  refine h.wf.addRoot h.zero (fun k => (VmMemories.roots_addVm k).imp And.right fun ⟨k', hk⟩ => ⟨k', hk.2⟩)
    (fun k₁ k₂ heq => ?_) fun k i hi hp => hwf.apart k _ (h.same.entry_iff.mp hp) (h.first i hi)
  rcases VmMemories.roots_addVm k₁ with ⟨hk₁, hnew₁⟩ | ⟨k₁', hk₁, hold₁⟩ <;>
    rcases VmMemories.roots_addVm k₂ with ⟨hk₂, hnew₂⟩ | ⟨k₂', hk₂, hold₂⟩
  · exact Fin.ext (hk₁.trans hk₂.symm)
  · exact absurd (hold₂.symm.trans (heq.symm.trans hnew₁)) (hbase k₂')
  · exact absurd (hold₁.symm.trans (heq.trans hnew₂)) (hbase k₁')
  · obtain rfl := hwf.root_injective (hold₁.symm.trans (heq.trans hold₂))
    exact Fin.ext (hk₁.trans hk₂.symm)

/-- The new VM has no memory yet, and that of the others stays. -/
theorem NewTable.translate_iff (h : NewTable v s m base) (hwf : PageTablesWf v.vmPtDscr s.roots s.mem)
    {x : Nat × Pte} (hk : k < s.nrVms + 1) :
    translate m.words ((s.addVm m base).as v k).pt a = some x ↔
      k < s.nrVms ∧ translate s.mem.words (s.as v k).pt a = some x := by
  rcases Nat.lt_succ_iff_lt_or_eq.mp hk with hlt | rfl
  · have hroot : update s.root s.nrVms base k = s.root k := update_of_ne hlt.ne ..
    have hview := translate_congr (k := (⟨k, hlt⟩ : Fin s.nrVms)) (a := a) hwf h.wf fun _ => h.same.pageView
    show translate m.words ⟨update s.root s.nrVms base k, v.vmPtDscr⟩ a = some x ↔ _
    rw [hroot, show translate m.words ⟨s.root k, v.vmPtDscr⟩ a = _ from hview]
    exact (and_iff_right hlt).symm
  · show translate m.words ⟨update s.root s.nrVms base s.nrVms, v.vmPtDscr⟩ a = some x ↔ _
    rw [update_self, h.zero.translate_none]
    exact iff_of_false nofun fun hboth => Nat.lt_irrefl _ hboth.1

theorem NewTable.holds_iff (h : NewTable v s m base) (hwf : PageTablesWf v.vmPtDscr s.roots s.mem) :
    ((s.addVm m base).domains v).holds k a = some pa ↔ (s.domains v).holds k a = some pa := by
  rw [domains_holds, domains_holds]
  constructor
  · rintro ⟨hk, flags, ht⟩
    obtain ⟨hk', ht'⟩ := (h.translate_iff hwf hk).mp ht
    exact ⟨hk', flags, ht'⟩
  · rintro ⟨hk, flags, ht⟩
    exact ⟨Nat.lt_succ_of_lt hk, flags, (h.translate_iff hwf (Nat.lt_succ_of_lt hk)).mpr ⟨hk, ht⟩⟩

/-- A VM more. -/
theorem NewTable.addVm (h : NewTable v s m base) (hwf : VmMemoriesWf v ram s) (hs : (s.domains v).Isolated ram) :
    VmMemoriesWf v ram (s.addVm m base) ∧
      Domains.Step ram ∅ none (s.domains v) ((s.addVm m base).domains v) := by
  have hholds {k a pa : Nat} : ((s.addVm m base).domains v).holds k a = some pa ↔ (s.domains v).holds k a = some pa :=
    h.holds_iff hwf.tables
  have htables := h.tables hwf.tables
  refine ⟨⟨htables, hwf.hyp, fun k p hp hown => ?_, fun k hk a pa flags ht => ?_⟩,
    hholds.mpr, fun hhold _ => .inl (hholds.mp hhold), fun hhold hhold' hwas => ?_, fun {p} hp => ?_,
    h.taken, fun {p} hne => ?_⟩
  · rcases h.entry hp with hwas | ⟨k', hp'⟩
    · exact (hs.kept (.inr hown)).2 hwas
    · exact hwf.apart k' p hp' hown
  · obtain ⟨hk', ht'⟩ := (h.translate_iff hwf.tables hk).mp ht
    exact hwf.writable k hk' a pa flags ht'
  · exact hs.apart (hholds.mp hhold) (hholds.mp hhold') (hs.free hwas)
  · rcases hp with ⟨k, hp⟩ | hown
    · rcases h.entry hp with hwas | ⟨k', hp'⟩
      · exact .inr ⟨hwf.tables.pool.freeAt_word.mp hwas,
          fun hstill => htables.apart k _ hp (htables.pool.freeAt_word.mpr hstill)⟩
      · exact .inl (.inl ⟨k', hp'⟩)
    · exact .inl (.inr hown)
  · exact .inl (hwf.tables.pool.freeAt_word.mp (h.written _ (MmuState.words_ne_of_bytes hne)))

/-! ### A region -/

/-- Behind a region, its pages are mapped, and the image is at their start. -/
theorem RegionFits.run {baseAddr loadAddr size : Nat} (hfits : RegionFits v ram s k baseAddr loadAddr size n)
    (hwf : PageTablesWf v.vmPtDscr s.roots s.mem) (hram : ∀ p, s.mem.pool.FreeAt p → p ∈ ram)
    (h : vmInitMemRegion v (s.as v k) baseAddr loadAddr size n s.mem = some m') :
    ∃ m base, Installed v.vmPtDscr s.roots ⟨k, hfits.vm⟩ s.mem m none baseAddr n base pteVmFlags ∧
      RangeUnused v.vmPtDscr s.roots ⟨k, hfits.vm⟩ s.mem baseAddr n ∧
      m' = m.withBytes (copy m.bytes base loadAddr size) := by
  obtain ⟨⟨va, m⟩, hmap, hrest⟩ := Option.bind_eq_some_iff.mp h
  obtain ⟨va', m'', hmap', hcases⟩ := memAllocMap_cases .vm pteVmFlags hwf hfits.aligned hfits.given hfits.span
    (fun _ hpage => by cases hpage) hfits.fresh
  obtain ⟨rfl, rfl⟩ := Prod.mk.inj (Option.some.inj (hmap.symm.trans hmap'))
  rcases hcases with ⟨⟨hn, hunused⟩, rfl, base, hinstalled⟩ | ⟨-, hva, -⟩
  · obtain ⟨pa, htranslate, rfl⟩ := Option.map_eq_some_iff.mp ((if_neg (not_not.mpr rfl)).symm.trans hrest)
    have hpage := hinstalled.pages 0 hn 0 (by decide)
    have hlow := hfits.low _ (hinstalled.fresh rfl 0 hn)
    rw [Nat.zero_mul, Nat.add_zero] at hpage hlow
    obtain rfl : pa = base :=
      memTranslate_page hfits.flat hpage hfits.aligned hinstalled.aligned hlow htranslate
    refine ⟨m, pa, hinstalled, hunused, congrArg m.withBytes (memcpy_eq ?_ ?_)⟩
    · -- the pages are of the pool, and the image is not
      have hsize := hfits.fits
      by_contra hcommon
      unfold Apart at hcommon
      have himage := hfits.image (max pa loadAddr - loadAddr) (by omega)
      refine himage (hram _ (hinstalled.freeAt hwf ?_ ?_)) <;> omega
    · have hend := hinstalled.end_le
      have hsize := hfits.fits
      simp only [sizeT]
      omega
  · have hne : va ≠ baseAddr := fun heq => hfits.given (heq.symm.trans hva)
    cases (if_pos hne).symm.trans hrest

/-- The words of an image are in its pages. -/
theorem words_image {baseAddr loadAddr size base : Nat} {k : Fin s.nrVms}
    (h : Installed v.vmPtDscr s.roots k s.mem m none baseAddr n base flags) (hsize : size ≤ n * pageSize)
    (hne : (m.withBytes (copy m.bytes base loadAddr size)).words p ≠ m.words p) :
    base ≤ p ∧ p < base + n * pageSize := by
  by_contra hout
  refine hne (MmuState.words_withBytes fun hp i hi => if_neg fun hin => hout ?_)
  have hbase := h.aligned
  simp only [pageSize] at *
  omega

theorem RegionFits.step {baseAddr loadAddr size : Nat} (hfits : RegionFits v ram s k baseAddr loadAddr size n)
    (hwf : VmMemoriesWf v ram s) (hs : (s.domains v).Isolated ram)
    (h : vmInitMemRegion v (s.as v k) baseAddr loadAddr size n s.mem = some m') :
    VmMemoriesWf v ram { s with mem := m' } ∧
      Domains.Step ram ∅ none (s.domains v) (VmMemories.domains v { s with mem := m' }) := by
  obtain ⟨m, base, hinstalled, hunused, rfl⟩ := hfits.run hwf.tables (fun _ hp => hs.free hp) h
  have htables : TablesStep v ram s (m.withBytes (copy m.bytes base loadAddr size)) :=
    hinstalled.tablesStep hwf.tables hs hfits.aligned hfits.span hunused (.inl ⟨rfl, by decide⟩) rfl rfl rfl
      fun p hne => ⟨rfl, words_image hinstalled hfits.fits hne⟩
  exact htables.step hwf hs

theorem DevFits.step {va : Nat} (hfits : DevFits v ram s k va pa n) (hwf : VmMemoriesWf v ram s)
    (hs : (s.domains v).Isolated ram) {r : Nat} (h : memAllocMapDev (s.as v k) s.mem va pa n = some (r, m)) :
    VmMemoriesWf v ram { s with mem := m } ∧
      Domains.Step ram ∅ none (s.domains v) (VmMemories.domains v { s with mem := m }) := by
  have hpages : PagesOf (some ⟨pa, n⟩) n := fun p hp => by
    cases hp
    exact ⟨rfl, hfits.page, hfits.end_le⟩
  obtain ⟨va', m', hmap, hcases⟩ := memAllocMap_cases .vm pteVmDevFlags hwf.tables hfits.aligned hfits.given hfits.span
    hpages ⟨hfits.supplied, fun hnone => by cases hnone⟩
  obtain ⟨rfl, rfl⟩ := Prod.mk.inj (Option.some.inj (h.symm.trans hmap))
  rcases hcases with ⟨⟨-, hunused⟩, -, base, hinstalled⟩ | ⟨-, -, hgrown⟩
  · obtain rfl : base = pa := hinstalled.given _ rfl
    have htables : TablesStep v ram s m := hinstalled.tablesStep hwf.tables hs hfits.aligned hfits.span hunused
      (.inr hfits.device) rfl rfl rfl fun p hne => absurd rfl hne
    exact htables.step hwf hs
  · exact (hgrown.tablesStep hwf.tables hs).step hwf hs

theorem totalSize_pages {config : VmMemoryConfig} (hfits : config.totalSize v + pageSize ≤ sizeT) :
    numPages (config.totalSize v) * pageSize = config.totalSize v := by
  have haligned : config.totalSize v % pageSize = 0 := Nat.mul_mod_left ..
  generalize config.totalSize v = size at *
  simp only [numPages, align, pageSize, sizeT] at *
  rw [Nat.mod_eq_of_lt (by omega)]
  omega

/-- Pages for the hypervisor's own data of a VM, which are cleared. -/
theorem vmmAllocVm_step {config : VmMemoryConfig} {allocation : VmAllocation}
    (hfits : (VmAct.allocVm config).Fits v ram s) (hwf : VmMemoriesWf v ram s) (hs : (s.domains v).Isolated ram)
    (h : vmmAllocVm v config s.mem = some (allocation, m')) :
    VmMemoriesWf v ram { s with mem := m', hyp := ⟨allocation.base, numPages allocation.size⟩ :: s.hyp } ∧
      Domains.Step ram ∅ none (s.domains v) (VmMemories.domains v
        { s with mem := m', hyp := ⟨allocation.base, numPages allocation.size⟩ :: s.hyp }) := by
  obtain ⟨hpos, hlarge, hsound⟩ := hfits
  obtain ⟨⟨base, m⟩, hpage, hrest⟩ := Option.bind_eq_some_iff.mp h
  have hpages := totalSize_pages hlarge
  have hn : 1 ≤ numPages (config.totalSize v) := by
    by_contra hnone
    rw [Nat.lt_one_iff.mp (Nat.lt_of_not_le hnone), Nat.zero_mul] at hpages
    omega
  obtain ⟨hfresh, -⟩ := memAllocPage_fresh hwf.tables.pool hn hsound hpage
  obtain ⟨rfl, rfl⟩ := Prod.mk.inj (Option.some.inj ((if_neg hfresh.pos).symm.trans hrest))
  refine hfresh.alloc hwf hs rfl rfl rfl fun p hne => ?_
  by_contra hout
  refine hne (MmuState.words_withBytes fun hp i hi => ?_)
  rw [memset_eq]
  refine if_neg fun hin => hout ?_
  have hin : base ≤ p + i ∧ p + i < base + config.totalSize v := hin
  have hbase := hfresh.aligned
  rw [hpages]
  have hsize : config.totalSize v % pageSize = 0 := Nat.mul_mod_left ..
  simp only [pageSize] at *
  omega

end

/-! ### Runs -/

/-- Whose step it is: a VM's store is its own, all else is the hypervisor's. -/
def VmAct.actor : VmAct → Option Nat
  | store k _ _ => some k
  | _ => none

/-- Where the hypervisor stores outside RAM. -/
def VmAct.outside : VmAct → Set Nat
  | hypStore p _ => {p}
  | _ => ∅

theorem VmAct.Fits.step {act : VmAct} (hfits : act.Fits v ram s) (hwf : VmMemoriesWf v ram s)
    (hs : (s.domains v).Isolated ram) (h : act.run v s = some t) :
    VmMemoriesWf v ram t ∧ Domains.Step ram act.outside act.actor (s.domains v) (t.domains v) := by
  cases act with
  | alloc nrPages physAligned =>
    obtain ⟨⟨base, m⟩, hpage, rfl⟩ := Option.map_eq_some_iff.mp h
    obtain ⟨hfresh, -⟩ := memAllocPage_fresh hwf.tables.pool hfits.1 hfits.2 hpage
    exact hfresh.alloc hwf hs rfl rfl rfl fun p hne => absurd rfl hne
  | allocVm config =>
    obtain ⟨⟨allocation, m⟩, halloc, rfl⟩ := Option.map_eq_some_iff.mp h
    exact vmmAllocVm_step hfits hwf hs halloc
  | hypStore p b =>
    cases h
    exact hwf.hypStore hs hfits b
  | asInit =>
    obtain ⟨⟨as, m'⟩, hinit, rfl⟩ := Option.map_eq_some_iff.mp h
    obtain ⟨⟨base, m⟩, hpage, heq⟩ := Option.map_eq_some_iff.mp hinit
    obtain ⟨rfl, rfl⟩ := Prod.mk.inj heq
    have hn : 1 ≤ numPages (ptSize ⟨0, v.vmPtDscr⟩ 0) := by
      obtain ⟨hsize, hwhole, -⟩ := ptSize_zero ⟨0, v.vmPtDscr⟩
      by_contra hnone
      rw [Nat.lt_one_iff.mp (Nat.lt_of_not_le hnone), Nat.zero_mul] at hwhole
      omega
    obtain ⟨hfresh, haligned⟩ := memAllocPage_fresh hwf.tables.pool hn hfits hpage
    exact (hfresh.newTable (haligned rfl) hwf.tables).addVm hwf hs
  | memRegion k baseAddr loadAddr size nrPages =>
    obtain ⟨m, hregion, rfl⟩ := Option.map_eq_some_iff.mp h
    exact RegionFits.step hfits hwf hs hregion
  | mapDev k va pa nrPages =>
    obtain ⟨⟨r, m⟩, hmap, rfl⟩ := Option.map_eq_some_iff.mp h
    exact DevFits.step hfits hwf hs hmap
  | store k a b =>
    cases ht : translate s.mem.words (s.as v k).pt a with
    | none =>
      simp only [VmAct.run, ht, Option.some.injEq] at h
      subst h
      exact ⟨hwf, .refl ram _ _ _ hs⟩
    | some x =>
      obtain ⟨pa, flags⟩ := x
      simp only [VmAct.run, ht] at h
      split_ifs at h
      · cases h
        exact ⟨hwf, .refl ram _ _ _ hs⟩
      · cases h
        obtain ⟨hwf', hdomains⟩ := hwf.vmStore hs hfits ht b
        refine ⟨hwf', ?_⟩
        rw [hdomains]
        exact .stores hs (domains_holds.mpr ⟨hfits, flags, ht⟩) b

theorem VmMemoriesInit.wf (h : VmMemoriesInit ram s) :
    VmMemoriesWf v ram s ∧ (s.domains v).Isolated ram := by
  have hvm (k : Fin s.nrVms) : False := Nat.not_lt_zero _ (k.isLt.trans_eq h.none)
  have hhyp {p : Nat} : ¬s.InHyp p := by
    rintro ⟨pages, hpages, -⟩
    rw [h.hyp] at hpages
    cases hpages
  refine ⟨⟨⟨fun l m a => (hvm a.1).elim, fun l a => (hvm a.1).elim, fun l a => (hvm a.1).elim,
    fun k => (hvm k).elim, fun k => (hvm k).elim, h.pool, h.unlocked, h.tame, fun k => (hvm k).elim,
    fun k => (hvm k).elim⟩, fun pages hpages => ?_, fun k => (hvm k).elim, fun k hk => (hvm ⟨k, hk⟩).elim⟩, ?_⟩
  · rw [h.hyp] at hpages
    cases hpages
  · refine ⟨fun hhold _ => (hvm ⟨_, (domains_holds.mp hhold).1⟩).elim,
      fun hhold _ _ => (hvm ⟨_, (domains_holds.mp hhold).1⟩).elim, ?_, fun p hp => h.ram p hp⟩
    rintro p (⟨k, -⟩ | hown)
    · exact (hvm k).elim
    · exact absurd hown hhyp

variable {acts : List VmAct}

theorem vmMachine_step {act : VmAct} : (vmMachine v ram).step s act = some t ↔ act.run v s = some t := Iff.rfl

/-- What the proofs about runs know of the memories. -/
def VmMemoriesOk (v : VmPlatform) (ram : Set Nat) (s : VmMemories) : Prop :=
  VmMemoriesWf v ram s ∧ (s.domains v).Isolated ram

/-- Steps that meet their conditions are steps of domains. -/
theorem vmMachine_moves {act : VmAct} (hwf : VmMemoriesWf v ram s) (hfits : act.Fits v ram s)
    (hstep : (vmMachine v ram).step s act = some t) (hs : (s.domains v).Isolated ram) :
    VmMemoriesWf v ram t ∧ Domains.Step ram act.outside act.actor (s.domains v) (t.domains v) :=
  hfits.step hwf hs (vmMachine_step.mp hstep)

theorem VmMemoriesOk.always (h : VmMemoriesOk v ram s)
    (hacts : (vmMachine v ram).EachStep (fun s act => act.Fits v ram s) s acts) :
    (vmMachine v ram).Always (VmMemoriesOk v ram) s acts :=
  Domains.always_isolated (VmMemories.domains v) VmAct.outside VmAct.actor
    (fun _ _ _ hwf hfits hstep hs => vmMachine_moves hwf hfits hstep hs) h.1 h.2 hacts

/-- Whatever VMs are created and whatever they store, in any order, their memory is apart. -/
theorem vms_isolated (hinit : (vmMachine v ram).Init s)
    (hacts : (vmMachine v ram).EachStep (fun s act => act.Fits v ram s) s acts) :
    (vmMachine v ram).Always (VmsIsolated v ram) s acts :=
  (VmMemoriesOk.always (VmMemoriesInit.wf hinit) hacts).mono fun _ hs => vmsIsolated_of_domains hs.2

/-! ### Two VMs -/

/-- A board whose tables at EL1 are flat. -/
def flatPlatform : VmPlatform where
  hypPtDscr := armv8PtDscr
  vmPtDscr := armv8PtDscr
  dtb := ⟨0x2000, 0x60001000, 8⟩
  stage1 := some
  sizeofVm := 256
  sizeofVcpu := 512
  alignofVcpu := 64
  gicVersion := .v3
  gicd := .zero 0
  gicvAddr := 0
  sizeofGicc := 0x2000
  sizeofVgicInt := 64

/-- Eight pages, and no VM. -/
def noVms : VmMemories := ⟨zeroedTables eightPages, fun _ => 0, 0, []⟩

/-- The first VM behind its `as_init`. -/
def firstCreated : VmMemories := noVms.addVm firstMemory 0x50000000

/-- The RAM of the eight pages. -/
def eightPagesRam : Set Nat := {p | 0x50000000 ≤ p ∧ p < 0x50008000}

theorem eightPages_ram {pool : PagePool} {p : Nat} (hbase : pool.base = 0x50000000) (hpages : pool.nrPages = 8)
    (h : pool.FreeAt p) : p ∈ eightPagesRam := by
  obtain ⟨bit, hbit, -, hlow, hhigh⟩ := h
  simp only [hbase, hpages, pageSize] at hbit hlow hhigh
  exact ⟨by omega, by omega⟩

theorem noVms_init : (vmMachine flatPlatform eightPagesRam).Init noVms :=
  ⟨rfl, rfl, eightPages_inMemory, rfl, rfl, fun _ => eightPages_ram rfl rfl⟩

theorem firstCreated_run : VmAct.asInit.run flatPlatform noVms = some firstCreated := by
  have hpages : numPages (ptSize ⟨0, armv8PtDscr⟩ 0) = 1 := by decide
  have hbase : (eightPages.take 1 0).1.base = 0x50000000 := by decide
  simp only [VmAct.run, asInit, memAllocPage, flatPlatform, noVms, reduceCtorEq, or_self, if_false, hpages,
    eightPages_root, Option.map_some, hbase]
  rfl

/-- The first table of one VM. -/
def oneVmRoot (base : Nat) (k : Fin 1) : Nat := update (fun _ => 0) 0 base k.val

theorem firstCreated_fresh :
    FreshPages armv8PtDscr (oneVmRoot 0x50000000) .vm (0 : Fin 1) firstCreated.mem none 0x1000 1 := by
  have hfound : (memAllocVpage ⟨⟨oneVmRoot 0x50000000 0, armv8PtDscr⟩, .vm⟩ 0x1000 1 firstCreated.mem).all
      (fun x : Nat × MmuState => decide (PageFound armv8PtDscr (oneVmRoot 0x50000000) 0 0x1000 4 x.2)) = true := by
    decide +kernel
  refine .of_found ?_ hfound
  unfold Supplied
  decide +kernel

theorem firstCreated_fits : RegionFits flatPlatform eightPagesRam firstCreated 0 0x1000 0x60000000 8 1 where
  vm := Nat.zero_lt_one
  aligned := by decide
  given := by decide
  span := by decide
  fresh := firstCreated_fresh
  fits := by decide
  flat _ h := (Option.some.inj h).symm
  low p hp := (eightPages_ram rfl rfl hp).2.trans (by decide)
  image i hi hin := by
    have hlow := hin.2
    omega

theorem nrVms_asInit (h : VmAct.asInit.run v s = some t) : t.nrVms = s.nrVms + 1 := by
  obtain ⟨_, -, rfl⟩ := Option.map_eq_some_iff.mp h
  rfl

/-- A store ends, and leaves the number of VMs. -/
theorem store_run (v : VmPlatform) (s : VmMemories) (k a : Nat) (b : BitVec 8) :
    ∃ t, (VmAct.store k a b).run v s = some t ∧ t.nrVms = s.nrVms := by
  cases ht : translate s.mem.words (s.as v k).pt a with
  | none => exact ⟨s, by simp only [VmAct.run, ht], rfl⟩
  | some x =>
    obtain ⟨pa, flags⟩ := x
    by_cases hread : flags &&& pteS2apWo = 0
    · exact ⟨s, by simp only [VmAct.run, ht, hread, if_true], rfl⟩
    · exact ⟨{ s with mem := s.mem.storeByte pa b }, by simp only [VmAct.run, ht, hread, if_false], rfl⟩

/-- A VM with a page is created, another one without, and the first one stores to its page. -/
def twoVmsActs : List VmAct :=
  [.asInit, .memRegion 0 0x1000 0x60000000 8 1, .asInit, .store 0 0x1000 0x41, .store 0 0x1001 0x42]

/-- The creation of the two VMs. -/
theorem twoVms_created : ∃ s t, (VmAct.memRegion 0 0x1000 0x60000000 8 1).run flatPlatform firstCreated = some s ∧
    VmAct.asInit.run flatPlatform s = some t ∧ SoundAlloc s.mem.pool 1 true := by
  have hregion : ((VmAct.memRegion 0 0x1000 0x60000000 8 1).run flatPlatform firstCreated).any (fun s => decide
      ((VmAct.asInit.run flatPlatform s).isSome = true ∧ s.mem.pool.base = 0x50000000 ∧ s.mem.pool.nrPages = 8 ∧
        s.mem.pool.free = 3 ∧ s.mem.pool.last = 5 ∧ s.mem.pool.findFree 1 (s.mem.pool.firstCurr 1 true) = 5)) = true := by
    decide +kernel
  obtain ⟨s, hs, hfacts⟩ := (Option.any_eq_true _ _).mp hregion
  rw [decide_eq_true_iff] at hfacts
  obtain ⟨hsecond, hbase, hnr, hfree, hlast, hfound⟩ := hfacts
  obtain ⟨t, ht⟩ := Option.isSome_iff_exists.mp hsecond
  have hplaced : s.mem.pool.Placed := ⟨by rw [hbase, hnr]; decide, by omega, by omega⟩
  refine ⟨s, t, hs, ht, soundAlloc_of_found hplaced le_rfl (by omega) (by omega) ?_⟩
  rw [hfound]
  exact fun hmis => hmis.2 (Nat.mod_one _)

theorem twoVmsActs_fits : (vmMachine flatPlatform eightPagesRam).EachStep
    (fun s act => act.Fits flatPlatform eightPagesRam s) noVms twoVmsActs := by
  have hpages : numPages (ptSize ⟨0, flatPlatform.vmPtDscr⟩ 0) = 1 := by decide
  obtain ⟨s, t, hs, ht, hsound⟩ := twoVms_created
  obtain ⟨u, hu, hcount⟩ := store_run flatPlatform t 0 0x1000 0x41
  obtain ⟨w, hw, -⟩ := store_run flatPlatform u 0 0x1001 0x42
  have htwo : 0 < t.nrVms := (Nat.succ_pos _).trans_eq (nrVms_asInit ht).symm
  refine Machine.eachStep_cons (vmMachine_step.mpr firstCreated_run) ?_
    (Machine.eachStep_cons (vmMachine_step.mpr hs) firstCreated_fits
      (Machine.eachStep_cons (vmMachine_step.mpr ht) ?_
        (Machine.eachStep_cons (vmMachine_step.mpr hu) htwo
          (Machine.eachStep_cons (vmMachine_step.mpr hw) (htwo.trans_eq hcount.symm) trivial))))
  · unfold VmAct.Fits
    rw [hpages]
    exact soundAlloc_of_found eightPages_inMemory.toPlaced (by decide) (by decide) (by decide) (by decide)
  · unfold VmAct.Fits
    rw [hpages]
    exact hsound

theorem vms_isolated_two : (vmMachine flatPlatform eightPagesRam).Always (VmsIsolated flatPlatform eightPagesRam) noVms
    twoVmsActs :=
  vms_isolated noVms_init twoVmsActs_fits

end Avisor
