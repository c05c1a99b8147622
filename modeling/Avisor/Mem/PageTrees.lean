import Avisor.Mem.PageTables

/-!
# Trees of page tables

The tables of address spaces with one descriptor in one memory, as radix tables: what holds of those that
`core/mmu.c` builds, what they say of a page, and what a store to an entry and a table that is hung up do
to it.
-/

universe u

namespace Avisor

open Function

/-! ### Entries -/

theorem pteSet_and_flags (addr : Nat) (type flags : Pte) :
    pteSet addr type flags &&& pteFlagsMsk = (type ||| flags) &&& pteFlagsMsk := by
  ext i hi
  simp only [pteSet, pteFlagsMsk, BitVec.getElem_and, BitVec.getElem_or, BitVec.getElem_not]
  cases pteAddrMsk[i] <;> simp

theorem pteSet_and_addr (addr : Nat) (type flags : Pte) :
    pteSet addr type flags &&& pteAddrMsk = BitVec.ofNat 64 addr &&& pteAddrMsk := by
  ext i hi
  simp only [pteSet, pteFlagsMsk, BitVec.getElem_and, BitVec.getElem_or, BitVec.getElem_not]
  cases pteAddrMsk[i] <;> simp

theorem pteAddrMsk_toNat : pteAddrMsk.toNat = 2 ^ 12 * (2 ^ 36 - 1) := by decide

/-- `PTE_ADDR_MSK` keeps the address of a page. -/
theorem and_pteAddrMsk {addr : Nat} (haligned : addr % pageSize = 0) (hlt : addr < 2 ^ 48) :
    (BitVec.ofNat 64 addr &&& pteAddrMsk).toNat = addr := by
  rw [BitVec.toNat_and, BitVec.toNat_ofNat, Nat.mod_eq_of_lt (by omega), pteAddrMsk_toNat]
  obtain ⟨q, rfl⟩ := Nat.dvd_of_mod_eq_zero haligned
  have hq : q < 2 ^ 36 := by
    simp only [pageSize] at hlt
    omega
  apply Nat.eq_of_testBit_eq
  intro i
  rw [show pageSize = 2 ^ 12 from rfl, Nat.testBit_and, Nat.testBit_two_pow_mul,
    Nat.testBit_two_pow_mul, Nat.testBit_two_pow_sub_one]
  rcases Nat.lt_or_ge (i - 12) 36 with hi | hi
  · rw [decide_eq_true hi, Bool.and_true, Bool.and_right_comm, Bool.and_self]
  · rw [Nat.testBit_lt_two_pow (hq.trans_le (Nat.pow_le_pow_right Nat.two_pos hi))]
    simp

theorem pteAddr_pteSet {addr : Nat} (type flags : Pte) (haligned : addr % pageSize = 0)
    (hlt : addr < 2 ^ 48) : pteAddr (pteSet addr type flags) = addr := by
  unfold pteAddr
  rw [pteSet_and_addr]
  exact and_pteAddrMsk haligned hlt

/-- What an entry says on a page is the address of a page. -/
theorem pteAddr_aligned (pte : Pte) : pteAddr pte % pageSize = 0 := by
  unfold pteAddr
  rw [BitVec.toNat_and, pteAddrMsk_toNat]
  apply Nat.eq_of_testBit_eq
  intro i
  rw [show pageSize = 2 ^ 12 from rfl, Nat.testBit_mod_two_pow, Nat.testBit_and,
    Nat.testBit_two_pow_mul, Nat.zero_testBit]
  rcases Nat.lt_or_ge i 12 with hi | hi
  · simp [Nat.not_le_of_lt hi]
  · simp [Nat.not_lt_of_le hi]

/-- An entry that `pte_set` makes a table or a page has the type of one. -/
theorem pteSet_type (addr : Nat) (flags : Pte) :
    pteSet addr pteTableType flags &&& pteTypeMsk = pteTableType := by
  have hmask : pteFlagsMsk &&& pteTypeMsk = pteTypeMsk := by decide
  rw [← hmask, ← BitVec.and_assoc, pteSet_and_flags, BitVec.and_assoc, hmask]
  ext i hi
  simp only [pteTableType, pteTypeMsk, BitVec.getElem_and, BitVec.getElem_or]
  cases (3 : Pte)[i] <;> simp

theorem pteSet_and_rswMsk (addr : Nat) (type flags : Pte) :
    pteSet addr type flags &&& pteRswMsk = (type ||| flags) &&& pteRswMsk := by
  have hmask : pteFlagsMsk &&& pteRswMsk = pteRswMsk := by decide
  rw [← hmask, ← BitVec.and_assoc, pteSet_and_flags, BitVec.and_assoc]

theorem pteValid_of_type {pte : Pte} (h : pte &&& pteTypeMsk = pteTableType) :
    pteValid pte = true := by
  have hmask : pteTypeMsk &&& pteValidBit = pteValidBit := by decide
  unfold pteValid
  rw [← hmask, ← BitVec.and_assoc, h]
  decide

/-- The reservation of an entry alone is neither a table nor valid. -/
theorem and_pteRswMsk_type (pte : Pte) : pte &&& pteRswMsk &&& pteTypeMsk = 0 := by
  rw [BitVec.and_assoc, show pteRswMsk &&& pteTypeMsk = 0#64 by decide]
  exact BitVec.and_zero

theorem pteValid_and_rswMsk (pte : Pte) : pteValid (pte &&& pteRswMsk) = false := by
  unfold pteValid
  rw [BitVec.and_assoc, show pteRswMsk &&& pteValidBit = 0#64 by decide, BitVec.and_zero]
  rfl

theorem pteSetRsw_and_rswMsk (pte flag : Pte) :
    pteSetRsw pte flag &&& pteRswMsk = flag &&& pteRswMsk := by
  ext i hi
  simp only [pteSetRsw, BitVec.getElem_and, BitVec.getElem_or, BitVec.getElem_not]
  cases pteRswMsk[i] <;> simp

theorem pteValid_setRsw (pte flag : Pte) : pteValid (pteSetRsw pte flag) = pteValid pte := by
  have hmask : pteSetRsw pte flag &&& pteValidBit = pte &&& pteValidBit := by
    unfold pteSetRsw
    rw [BitVec.and_or_distrib_right, BitVec.and_assoc, BitVec.and_assoc,
      show ~~~pteRswMsk &&& pteValidBit = pteValidBit by decide,
      show pteRswMsk &&& pteValidBit = 0#64 by decide, BitVec.and_zero, BitVec.or_zero]
  unfold pteValid
  rw [hmask]

/-! ### Levels -/

namespace PtDscr

variable (dscr : PtDscr) {l : Nat}

/-- The number of the last level. -/
def last : Nat := dscr.lvls - 1

/-- The number, in the address space, of the entry that `va` has at a level. -/
def block (l va : Nat) : Nat := va % 2 ^ dscr.lvlWdt 0 / 2 ^ dscr.lvlOff l

theorem lvls_eq : dscr.lvls = dscr.last + 1 :=
  (Nat.sub_add_cancel dscr.lvls_pos).symm

theorem off_add (h : l ≤ dscr.last) : dscr.lvlOff l = 12 + 9 * (dscr.last - l) := by
  induction hd : dscr.last - l generalizing l with
  | zero =>
    have heq : l = dscr.last := Nat.le_antisymm h (Nat.le_of_sub_eq_zero hd)
    subst heq
    exact dscr.off_last
  | succ d ih =>
    have hlvls := dscr.lvls_eq
    rw [dscr.off_succ l (by omega), ih (l := l + 1) (by omega) (by omega)]
    omega

theorem off_le (h : l ≤ dscr.last) : dscr.lvlOff l < dscr.lvlWdt 0 := by
  have hzero := dscr.off_add (Nat.zero_le dscr.last)
  have hoff := dscr.off_add h
  have hlt := dscr.off_lt_wdt
  omega

theorem off_ge (h : l ≤ dscr.last) : 12 ≤ dscr.lvlOff l := by
  rw [dscr.off_add h]
  exact Nat.le_add_right 12 _

theorem pow_off_succ (h : l < dscr.last) :
    2 ^ dscr.lvlOff l = 2 ^ dscr.lvlOff (l + 1) * 512 := by
  have hlvls := dscr.lvls_eq
  rw [dscr.off_succ l (by omega), Nat.pow_add]

theorem block_succ (h : l < dscr.last) (va : Nat) :
    dscr.block (l + 1) va / 512 = dscr.block l va := by
  unfold block
  rw [Nat.div_div_eq_div_mul, ← dscr.pow_off_succ h]

theorem block_lt (h : l ≤ dscr.last) (va : Nat) :
    dscr.block l va < 2 ^ (dscr.lvlWdt 0 - dscr.lvlOff l) := by
  unfold block
  rw [Nat.div_lt_iff_lt_mul (Nat.two_pow_pos _), ← Nat.pow_add, Nat.sub_add_cancel (dscr.off_le h).le]
  exact Nat.mod_lt _ (Nat.two_pow_pos _)

/-- Each entry of the table behind a block belongs to an address of the block. -/
theorem exists_block_succ (h : l < dscr.last) (va : Nat) {i : Nat} (hi : i < 512) :
    ∃ va', dscr.block (l + 1) va' = dscr.block l va * 512 + i := by
  have hlt := dscr.block_lt h.le va
  have hoff := dscr.off_le h.le
  have hstep : dscr.lvlOff l = dscr.lvlOff (l + 1) + 9 := dscr.off_succ l (by
    have hlvls := dscr.lvls_eq
    omega)
  have hwhole : 2 ^ dscr.lvlWdt 0 =
      2 ^ (dscr.lvlWdt 0 - dscr.lvlOff l) * 512 * 2 ^ dscr.lvlOff (l + 1) := by
    rw [show 512 = 2 ^ 9 from rfl, ← Nat.pow_add, ← Nat.pow_add]
    congr 1
    omega
  refine ⟨(dscr.block l va * 512 + i) * 2 ^ dscr.lvlOff (l + 1), ?_⟩
  rw [show dscr.block (l + 1) ((dscr.block l va * 512 + i) * 2 ^ dscr.lvlOff (l + 1)) =
      (dscr.block l va * 512 + i) * 2 ^ dscr.lvlOff (l + 1) % 2 ^ dscr.lvlWdt 0 /
        2 ^ dscr.lvlOff (l + 1) from rfl]
  rw [Nat.mod_eq_of_lt, Nat.mul_div_cancel _ (Nat.two_pow_pos _)]
  rw [hwhole]
  apply Nat.mul_lt_mul_of_pos_right _ (Nat.two_pow_pos _)
  omega

/-- Two addresses in one block are in one block before. -/
theorem block_mono {m a b : Nat} (hle : l ≤ m) (hm : m ≤ dscr.last)
    (h : dscr.block m a = dscr.block m b) : dscr.block l a = dscr.block l b := by
  induction m with
  | zero =>
    rw [Nat.le_zero.mp hle]
    exact h
  | succ m ih =>
    rcases Nat.le_succ_iff.mp hle with hle | rfl
    · refine ih hle (Nat.le_of_succ_le hm) ?_
      rw [← dscr.block_succ hm, ← dscr.block_succ hm, h]
    · exact h

end PtDscr

section Levels

variable (pt : PageTable) {l : Nat}

theorem ptLvlsize_eq (l : Nat) : ptLvlsize pt l = 2 ^ pt.dscr.lvlOff l := Nat.one_shiftLeft _

theorem ptSpan_eq : ptSpan pt = 2 ^ pt.dscr.lvlWdt 0 := Nat.one_shiftLeft _

theorem ptNentries_zero : ptNentries pt 0 = 2 ^ (pt.dscr.lvlWdt 0 - pt.dscr.lvlOff 0) := by
  unfold ptNentries
  rw [Nat.one_shiftLeft, Nat.shiftRight_eq_div_pow, Nat.pow_div pt.dscr.off_lt_wdt.le Nat.two_pos]

theorem ptNentries_succ (h : l < pt.dscr.last) : ptNentries pt (l + 1) = 512 := by
  have hlvls := pt.dscr.lvls_eq
  have hoff := pt.dscr.off_succ l (by omega)
  unfold ptNentries
  rw [pt.dscr.wdt_succ l (by omega), Nat.one_shiftLeft, Nat.shiftRight_eq_div_pow,
    Nat.pow_div (by omega) Nat.two_pos, show pt.dscr.lvlOff l - pt.dscr.lvlOff (l + 1) = 9 by omega]

theorem ptGetpteindexByVa_zero (va : Nat) : ptGetpteindexByVa pt 0 va = pt.dscr.block 0 va := by
  unfold ptGetpteindexByVa PtDscr.block
  rw [ptNentries_zero, Nat.and_two_pow_sub_one_eq_mod, Nat.shiftRight_eq_div_pow,
    ← Nat.mod_mul_right_div_self, ← Nat.pow_add, Nat.add_sub_cancel' pt.dscr.off_lt_wdt.le]

theorem ptGetpteindexByVa_succ (h : l < pt.dscr.last) (va : Nat) :
    ptGetpteindexByVa pt (l + 1) va = pt.dscr.block (l + 1) va % 512 := by
  have hoff := pt.dscr.off_le h.le
  have hstep := pt.dscr.pow_off_succ h
  obtain ⟨k, hk⟩ := Nat.exists_eq_add_of_lt hoff
  unfold ptGetpteindexByVa PtDscr.block
  rw [ptNentries_succ pt h, show (512 : Nat) = 2 ^ 9 from rfl, Nat.and_two_pow_sub_one_eq_mod,
    Nat.shiftRight_eq_div_pow, ← Nat.mod_mul_right_div_self, ← Nat.mod_mul_right_div_self]
  rw [show (2 : Nat) ^ 9 = 512 from rfl, ← hstep, hk, Nat.add_assoc, Nat.pow_add, Nat.mod_mul_right_mod]

end Levels

/-! ### The tables of address spaces -/

variable {κ : Type u}

/-- The tables behind the roots of address spaces, looked up by address space and address. -/
def tables (dscr : PtDscr) (root : κ → Nat) : RadixTable Pte (κ × Nat) where
  root a := root a.1
  index lvl a := ptGetpteindexByVa ⟨root a.1, dscr⟩ lvl a.2
  stride := 8
  last := dscr.last
  isTable pte := pte &&& pteTypeMsk = pteTableType
  next := pteAddr

section Tables

variable {dscr : PtDscr} {root : κ → Nat} {words : Nat → Pte} {k : κ} {l va : Nat}

theorem ptGetPte_eq (l : Nat) :
    ptGetPte words ⟨root k, dscr⟩ l va = (tables dscr root).ptr words l (k, va) := by
  induction l with
  | zero => rfl
  | succ l ih =>
    simp only [ptGetPte, RadixTable.ptr]
    rw [ih]
    rfl

theorem pteTable_eq (h : l < dscr.last) (pte : Pte) :
    pteTable ⟨root k, dscr⟩ l pte = (tables dscr root).isTable pte := by
  have hne : l ≠ dscr.lvls - 1 := h.ne
  unfold pteTable tables
  simp [hne]

theorem pteTable_last (pte : Pte) : pteTable ⟨root k, dscr⟩ dscr.last pte = false := by
  simp [pteTable, PtDscr.last]

theorem walkOk_iff (h : l ≤ dscr.last) : walkOk words ⟨root k, dscr⟩ l va = true ↔
    (tables dscr root).Reaches words l (k, va) := by
  unfold walkOk RadixTable.Reaches
  rw [List.all_eq_true]
  simp only [List.mem_range]
  refine forall₂_congr fun j hj => ?_
  rw [pteTable_eq (hj.trans_le h), ptGetPte_eq]

theorem same_iff {a b : κ × Nat} (h : l ≤ dscr.last) : (tables dscr root).Same l a b ↔
    root a.1 = root b.1 ∧ dscr.block l a.2 = dscr.block l b.2 := by
  induction l with
  | zero =>
    have hindex (c : κ × Nat) : (tables dscr root).index 0 c = dscr.block 0 c.2 :=
      ptGetpteindexByVa_zero ⟨root c.1, dscr⟩ c.2
    constructor
    · intro hs
      exact ⟨hs.1, by rw [← hindex, ← hindex, hs.2 0 le_rfl]⟩
    · rintro ⟨hroot, hblock⟩
      refine ⟨hroot, fun j hj => ?_⟩
      rw [Nat.le_zero.mp hj, hindex, hindex, hblock]
  | succ l ih =>
    have hindex (c : κ × Nat) : (tables dscr root).index (l + 1) c = dscr.block (l + 1) c.2 % 512 :=
      ptGetpteindexByVa_succ ⟨root c.1, dscr⟩ h c.2
    have ih := ih (Nat.le_of_succ_le h)
    constructor
    · intro hs
      obtain ⟨hroot, hblock⟩ := ih.mp (hs.mono (Nat.le_succ l))
      have hmod := hs.2 (l + 1) le_rfl
      rw [hindex, hindex] at hmod
      rw [← dscr.block_succ h, ← dscr.block_succ h] at hblock
      refine ⟨hroot, ?_⟩
      rw [← Nat.div_add_mod (dscr.block (l + 1) a.2) 512,
        ← Nat.div_add_mod (dscr.block (l + 1) b.2) 512, hblock, hmod]
    · rintro ⟨hroot, hblock⟩
      obtain ⟨-, hbefore⟩ := ih.mpr ⟨hroot, dscr.block_mono (Nat.le_succ l) h hblock⟩
      refine ⟨hroot, fun j hj => ?_⟩
      rcases Nat.le_succ_iff.mp hj with hj | rfl
      · exact hbefore j hj
      · rw [hindex, hindex, hblock]

end Tables

/-! ### What tables say -/

/-- What an entry says of its addresses; an invalid one says whether they are reserved. -/
def pteView (pte : Pte) : Pte := if pteValid pte then pte else pte &&& pteRswMsk

/-- What the tables say of an address: what the entry says where its lookup stops. -/
def pageView (dscr : PtDscr) (root : κ → Nat) (words : Nat → Pte) (a : κ × Nat) : Pte :=
  pteView (words ((tables dscr root).ptr words ((tables dscr root).stop words a) a))

/-- `p` is an entry of the tables of `k`. -/
def Entry (dscr : PtDscr) (root : κ → Nat) (words : Nat → Pte) (k : κ) (p : Nat) : Prop :=
  ∃ l va, l ≤ dscr.last ∧ (tables dscr root).Reaches words l (k, va) ∧
    p = (tables dscr root).ptr words l (k, va)

/-- The pool is a range of pages behind address zero that entries can name. -/
structure PagePool.InMemory (pool : PagePool) : Prop extends pool.Placed where
  base_pos : 0 < pool.base
  base_aligned : pool.base % pageSize = 0
  end_le : pool.base + pool.nrPages * pageSize ≤ 2 ^ 48

section

variable {pool : PagePool} {bit : Nat}

theorem PagePool.InMemory.page_aligned (h : pool.InMemory) (bit : Nat) :
    (pool.base + bit * pageSize) % pageSize = 0 := by
  rw [Nat.add_mul_mod_self_right]
  exact h.base_aligned

theorem PagePool.InMemory.page_lt (h : pool.InMemory) (hbit : bit < pool.nrPages) :
    pool.base + bit * pageSize < 2 ^ 48 := by
  have hend := h.end_le
  simp only [pageSize] at hend ⊢
  omega

end

/-- `p` is in a free page of the pool. -/
def PagePool.FreeAt (pool : PagePool) (p : Nat) : Prop :=
  ∃ bit < pool.nrPages, bitmapGet pool.bitmap bit = false ∧
    pool.base + bit * pageSize ≤ p ∧ p < pool.base + (bit + 1) * pageSize

/-- The tables as `mmu.c` builds them, each address space behind a root of its own: their entries are apart
from each other and from the free pages, an entry that is valid is a table or, at the last level, a page,
and no table is reserved. No walk has left them. -/
structure PageTablesWf (dscr : PtDscr) (root : κ → Nat) (s : MmuState) : Prop where
  tree : (tables dscr root).Tree s.words
  valid : ∀ l a, l ≤ dscr.last → (tables dscr root).Reaches s.words l a →
    pteValid (s.words ((tables dscr root).ptr s.words l a)) = true →
    s.words ((tables dscr root).ptr s.words l a) &&& pteTypeMsk = ptePageType
  unreserved : ∀ l a, l < dscr.last → (tables dscr root).Reaches s.words (l + 1) a →
    pteCheckRsw (s.words ((tables dscr root).ptr s.words l a)) pteRswRsrv = false
  apart : ∀ k p, Entry dscr root s.words k p → ¬ s.pool.FreeAt p
  pos : ∀ k p, Entry dscr root s.words k p → 0 < p
  pool : s.pool.InMemory
  unlocked : s.poolLocked = false
  tame : s.wild = false
  root_aligned : ∀ k, root k % ptSize ⟨root k, dscr⟩ 0 = 0
  root_injective : Injective root

theorem pageView_eq {dscr : PtDscr} {root : κ → Nat} {words : Nat → Pte} {a : κ × Nat} {l : Nat}
    (h : (tables dscr root).Stops words l a) :
    pageView dscr root words a = pteView (words ((tables dscr root).ptr words l a)) := by
  unfold pageView
  rw [← h.eq_stop]

/-- Without its valid bit, an entry says what its reservation alone says. -/
theorem pteView_of_not_valid {pte : Pte} (h : pteValid pte = false) :
    pteView pte = pteView (pte &&& pteRswMsk) := by
  unfold pteView
  rw [h, pteValid_and_rswMsk, BitVec.and_assoc, BitVec.and_self]
  rfl

/-! ### A page for a table -/

/-- `bit` is a free page of the pool, and `pool'` the pool without it. -/
structure TakesPage (pool pool' : PagePool) (bit : Nat) : Prop where
  lt : bit < pool.nrPages
  wasFree : bitmapGet pool.bitmap bit = false
  base : pool'.base = pool.base
  nrPages : pool'.nrPages = pool.nrPages
  bits : ∀ i, bitmapGet pool'.bitmap i = (bitmapGet pool.bitmap i || decide (i = bit))
  inMemory : pool'.InMemory
  room : pool'.room + 1 = pool.room
  served : ∃ pages, ppAlloc (2 * pool.nrPages + 3) pool 1 false ⟨0, 0⟩ = some (true, pool', pages)

theorem TakesPage.freeAt {pool pool' : PagePool} {bit p : Nat} (h : TakesPage pool pool' bit)
    (hp : pool'.FreeAt p) : pool.FreeAt p := by
  obtain ⟨i, hi, hfree, hlow, hhigh⟩ := hp
  rw [h.bits, Bool.or_eq_false_iff] at hfree
  rw [h.base] at hlow hhigh
  exact ⟨i, h.nrPages ▸ hi, hfree.1, hlow, hhigh⟩

/-- The page that was taken is not free any more. -/
theorem TakesPage.not_freeAt {pool pool' : PagePool} {bit p : Nat} (h : TakesPage pool pool' bit)
    (hlow : pool.base + bit * pageSize ≤ p) (hhigh : p < pool.base + (bit + 1) * pageSize) :
    ¬ pool'.FreeAt p := by
  rintro ⟨i, hi, hfree, hlow', hhigh'⟩
  rw [h.base] at hlow' hhigh'
  have heq : i = bit := by
    simp only [pageSize] at hlow hhigh hlow' hhigh'
    omega
  rw [h.bits, heq] at hfree
  simp at hfree

theorem memAllocPpages_single {s : MmuState} (hpool : s.pool.InMemory) (hlock : s.poolLocked = false)
    (hroom : 0 < s.pool.room) : ∃ bit pool', TakesPage s.pool pool' bit ∧
      memAllocPpages s 1 false =
        some (⟨s.pool.base + bit * pageSize, 1⟩, { s with pool := pool' }) := by
  obtain ⟨bit, pool', pages, halloc, hpages, hwf, hrooms⟩ :=
    ppAlloc_single hpool.toPlaced hroom ⟨0, 0⟩ (2 * s.pool.nrPages + 2)
  obtain ⟨hbase, hnr⟩ := hpages.samePool
  have hin := hpages.inside
  refine ⟨bit, pool', ⟨by omega, hpages.wasFree bit le_rfl (Nat.lt_succ_self bit), hbase, hnr,
    fun i => ?_, ⟨hwf, ?_, ?_, ?_⟩, hrooms, ⟨pages, halloc⟩⟩, ?_⟩
  · rw [hpages.bits]
    congr 1
    simp only [decide_eq_decide]
    omega
  · rw [hbase]
    exact hpool.base_pos
  · rw [hbase]
    exact hpool.base_aligned
  · rw [hbase, hnr]
    exact hpool.end_le
  · have hpage : pages = ⟨s.pool.base + bit * pageSize, 1⟩ := by
      rw [← hpages.base, ← hpages.nrPages]
    unfold memAllocPpages
    rw [halloc, hlock, hpage]
    rfl

/-! ### A table is hung up -/

theorem fillTable_apply (val : Pte) (tempPt n : Nat) (words : Nat → Pte) (p : Nat) :
    fillTable val tempPt n words p = if ∃ i < n, p = tempPt + 8 * i then val else words p := by
  induction n with
  | zero => simp [fillTable]
  | succ n ih =>
    simp only [fillTable]
    by_cases hp : p = tempPt + 8 * n
    · rw [hp, update_self, if_pos ⟨n, Nat.lt_succ_self n, rfl⟩]
    · rw [update_of_ne hp, ih]
      congr 1
      simp only [eq_iff_iff]
      constructor
      · rintro ⟨i, hi, heq⟩
        exact ⟨i, hi.trans (Nat.lt_succ_self n), heq⟩
      · rintro ⟨i, hi, heq⟩
        rcases Nat.lt_succ_iff_lt_or_eq.mp hi with hi | rfl
        · exact ⟨i, hi, heq⟩
        · exact absurd heq hp

/-- The memory behind `mem_alloc_pt`, for an entry and the page of its table. -/
def hungWords (words : Nat → Pte) (pte page : Nat) : Nat → Pte :=
  fillTable (words pte &&& pteRswMsk) page 512
    (update words pte (pteSet page pteTableType pteHypFlags))

/-- `p` is an entry of the table in `page`. -/
def InTable (page p : Nat) : Prop := ∃ i < 512, p = page + 8 * i

theorem hungWords_table {words : Nat → Pte} {pte page p : Nat} (hp : InTable page p) :
    hungWords words pte page p = words pte &&& pteRswMsk := by
  unfold hungWords
  rw [fillTable_apply]
  exact if_pos hp

theorem hungWords_pte (words : Nat → Pte) {pte page : Nat} (hpte : ¬ InTable page pte) :
    hungWords words pte page pte = pteSet page pteTableType pteHypFlags := by
  unfold hungWords
  rw [fillTable_apply]
  exact (if_neg hpte).trans (update_self ..)

theorem hungWords_of_ne (words : Nat → Pte) {pte page p : Nat} (hne : p ≠ pte)
    (hp : ¬ InTable page p) : hungWords words pte page p = words p := by
  unfold hungWords
  rw [fillTable_apply]
  exact (if_neg hp).trans (update_of_ne hne ..)

theorem TakesPage.freeAt_inTable {pool pool' : PagePool} {bit p : Nat} (h : TakesPage pool pool' bit)
    (hp : InTable (pool.base + bit * pageSize) p) : pool.FreeAt p ∧ ¬ pool'.FreeAt p := by
  obtain ⟨i, hi, rfl⟩ := hp
  have hlow : pool.base + bit * pageSize ≤ pool.base + bit * pageSize + 8 * i :=
    Nat.le_add_right _ _
  have hhigh : pool.base + bit * pageSize + 8 * i < pool.base + (bit + 1) * pageSize := by
    simp only [pageSize]
    omega
  exact ⟨⟨bit, h.lt, h.wasFree, hlow, hhigh⟩, h.not_freeAt hlow hhigh⟩

section Hang

variable {dscr : PtDscr} {root : κ → Nat} {s t : MmuState} {k : κ} {l va bit : Nat} {type : AsType}
  {a b : κ × Nat}

theorem PageTablesWf.ptr_pos (h : PageTablesWf dscr root s) (hl : l ≤ dscr.last)
    (ha : (tables dscr root).Reaches s.words l a) : 0 < (tables dscr root).ptr s.words l a :=
  h.pos a.1 _ ⟨l, a.2, hl, ha, rfl⟩

theorem PageTablesWf.not_freeAt (h : PageTablesWf dscr root s) (hl : l ≤ dscr.last)
    (ha : (tables dscr root).Reaches s.words l a) :
    ¬ s.pool.FreeAt ((tables dscr root).ptr s.words l a) :=
  h.apart a.1 _ ⟨l, a.2, hl, ha, rfl⟩

/-- Before the last level, lookups stop at entries that are not valid. -/
theorem PageTablesWf.not_valid (h : PageTablesWf dscr root s) (hl : l < dscr.last)
    (ha : (tables dscr root).Stops s.words l a) :
    pteValid (s.words ((tables dscr root).ptr s.words l a)) = false := by
  rw [← Bool.not_eq_true]
  intro hvalid
  have htype := h.valid l a hl.le ha.reaches hvalid
  have hstop := ha.stop hl.ne
  simp [tables] at hstop
  exact hstop htype

theorem MmuState.walk_of_reaches (hl : l ≤ dscr.last)
    (ha : (tables dscr root).Reaches s.words l (k, va)) : s.walk ⟨root k, dscr⟩ l va = s := by
  unfold MmuState.walk
  rw [(walkOk_iff hl).mpr ha, Bool.not_true, Bool.or_false]

/-- `pt_get` of a table behind the first one. -/
theorem ptGet_succ (hl : l < dscr.last) (ha : (tables dscr root).Reaches s.words (l + 1) (k, va)) :
    ptGet s ⟨root k, dscr⟩ (l + 1) va =
      (pteAddr (s.words ((tables dscr root).ptr s.words l (k, va))), s) := by
  have hsize : ptSize ⟨root k, dscr⟩ (l + 1) = 4096 := by
    unfold ptSize
    rw [ptNentries_succ _ hl]
  have hindex := ptGetpteindexByVa_succ ⟨root k, dscr⟩ hl va
  have hlt : dscr.block (l + 1) va % 512 < 512 := Nat.mod_lt _ (by decide)
  have haligned := pteAddr_aligned (s.words ((tables dscr root).ptr s.words l (k, va)))
  unfold ptGet
  rw [if_neg (Nat.succ_ne_zero l), MmuState.walk_of_reaches hl ha]
  simp only [ptGetPte, hsize, hindex, ptGetPte_eq]
  rw [show (4096 : Nat) - 1 = 2 ^ 12 - 1 from rfl, Nat.and_two_pow_sub_one_eq_mod]
  simp only [pageSize] at haligned
  congr 1
  omega

/-- `mem_alloc_pt` takes a page of the pool, fills it with the reservation of the entry, and makes the
entry a table. -/
theorem memAllocPt_eq (type : AsType) (h : PageTablesWf dscr root s) (hl : l < dscr.last)
    (ha : (tables dscr root).Stops s.words l (k, va)) (hroom : 0 < s.pool.room) :
    ∃ bit pool', TakesPage s.pool pool' bit ∧
      memAllocPt ⟨⟨root k, dscr⟩, type⟩ s ((tables dscr root).ptr s.words l (k, va)) l va =
        some (s.pool.base + bit * pageSize, { s with
          pool := pool'
          words := hungWords s.words ((tables dscr root).ptr s.words l (k, va))
            (s.pool.base + bit * pageSize) }) := by
  obtain ⟨bit, pool', htake, halloc⟩ := memAllocPpages_single h.pool h.unlocked hroom
  refine ⟨bit, pool', htake, ?_⟩
  have hentries : ptNentries ⟨root k, dscr⟩ (l + 1) = 512 := ptNentries_succ _ hl
  have hsize : ptSize ⟨root k, dscr⟩ (l + 1) = 4096 := by
    unfold ptSize
    rw [hentries]
  have hpage : numPages 4096 = 1 := by decide
  have haligned := h.pool.page_aligned bit
  have hlt := h.pool.page_lt htake.lt
  have hself : update s.words ((tables dscr root).ptr s.words l (k, va))
      (pteSet (s.pool.base + bit * pageSize) pteTableType pteHypFlags)
      ((tables dscr root).ptr (update s.words ((tables dscr root).ptr s.words l (k, va))
        (pteSet (s.pool.base + bit * pageSize) pteTableType pteHypFlags)) l (k, va)) =
      pteSet (s.pool.base + bit * pageSize) pteTableType pteHypFlags := by
    rw [h.tree.ptr_update ha.reaches ha.le_last ha.reaches ha.le_last
      fun hlt => absurd hlt (lt_irrefl l), update_self]
  have hreaches : (tables dscr root).Reaches (update s.words
      ((tables dscr root).ptr s.words l (k, va))
      (pteSet (s.pool.base + bit * pageSize) pteTableType pteHypFlags)) (l + 1) (k, va) := by
    refine RadixTable.reaches_succ.mpr ⟨?_, ?_⟩
    · exact h.tree.reaches_update ha.reaches ha.le_last ha.reaches ha.le_last
        fun hlt => absurd hlt (lt_irrefl l)
    · rw [hself]
      exact decide_eq_true (pteSet_type _ _)
  unfold memAllocPt
  simp only [hsize, hpage]
  rw [show decide (1 > 1) = false from rfl, halloc]
  simp only [Option.map_some, hentries, MmuState.setWord]
  rw [if_neg (by simp), ptGet_succ hl hreaches]
  simp only [hself, pteAddr_pteSet _ _ haligned hlt]
  rw [show ∀ pte : Pte, pteInvalid ||| pte = pte from fun _ => BitVec.zero_or]
  rfl

section Hung

variable {pool' : PagePool}

theorem PageTablesWf.hangs (h : PageTablesWf dscr root s) (hl : l < dscr.last)
    (ha : (tables dscr root).Stops s.words l a) (htake : TakesPage s.pool pool' bit) :
    (tables dscr root).Hangs s.words (hungWords s.words ((tables dscr root).ptr s.words l a)
      (s.pool.base + bit * pageSize)) l a (InTable (s.pool.base + bit * pageSize)) := by
  have haligned := h.pool.page_aligned bit
  have hlt := h.pool.page_lt htake.lt
  have hfresh (m c) (hm : m ≤ dscr.last) (hc : (tables dscr root).Reaches s.words m c) :
      ¬ InTable (s.pool.base + bit * pageSize) ((tables dscr root).ptr s.words m c) :=
    fun hin => h.not_freeAt hm hc (htake.freeAt_inTable hin).1
  have hpte := hungWords_pte s.words (hfresh l a hl.le ha.reaches)
  refine ⟨ha, hl, hfresh, ?_, fun c => ?_, fun p hp => ?_, fun p hne hp => hungWords_of_ne s.words hne hp⟩
  · rw [hpte]
    exact decide_eq_true (pteSet_type _ _)
  · rw [hpte]
    refine ⟨(tables dscr root).index (l + 1) c, ?_, ?_⟩
    · rw [show (tables dscr root).index (l + 1) c = dscr.block (l + 1) c.2 % 512 from
        ptGetpteindexByVa_succ ⟨root c.1, dscr⟩ hl c.2]
      exact Nat.mod_lt _ (by decide)
    · rw [show (tables dscr root).next = pteAddr from rfl, pteAddr_pteSet _ _ haligned hlt]
      rfl
  · rw [hungWords_table hp]
    refine decide_eq_false ?_
    rw [and_pteRswMsk_type]
    decide

end Hung

end Hang

/-- In `t`, a table that was missing in `s` hangs at the entry of `a` at level `l`. -/
structure Hung (dscr : PtDscr) (root : κ → Nat) (s t : MmuState) (l : Nat) (a : κ × Nat) : Prop where
  wf : PageTablesWf dscr root t
  view : ∀ b, pageView dscr root t.words b = pageView dscr root s.words b
  keeps : ∀ m b, m ≤ dscr.last → (tables dscr root).Reaches s.words m b →
    (tables dscr root).Reaches t.words m b ∧
      (tables dscr root).ptr t.words m b = (tables dscr root).ptr s.words m b
  missed : ¬ (tables dscr root).Reaches s.words (l + 1) a
  reached : (tables dscr root).Reaches t.words (l + 1) a
  added : ∀ m b, m ≤ dscr.last → (tables dscr root).Reaches t.words m b →
    (tables dscr root).Reaches s.words m b ∨ m = l + 1 ∧ (tables dscr root).Same l a b
  written : ∀ p, t.words p ≠ s.words p → Entry dscr root t.words a.1 p
  entries : ∀ k p, Entry dscr root t.words k p → Entry dscr root s.words k p ∨ s.pool.FreeAt p
  wild : t.wild = s.wild
  samePool : t.pool.base = s.pool.base ∧ t.pool.nrPages = s.pool.nrPages
  taken : ∀ p, t.pool.FreeAt p → s.pool.FreeAt p
  room : t.pool.room + 1 = s.pool.room
  served : ∃ pages, ppAlloc (2 * s.pool.nrPages + 3) s.pool 1 false ⟨0, 0⟩ = some (true, t.pool, pages)

section Hung

variable {dscr : PtDscr} {root : κ → Nat} {s : MmuState} {pool' : PagePool} {l bit : Nat} {a b : κ × Nat}

/-- What the tables say is not changed by a table that is hung up. -/
theorem PageTablesWf.pageView_hung (h : PageTablesWf dscr root s) (hl : l < dscr.last)
    (ha : (tables dscr root).Stops s.words l a) (htake : TakesPage s.pool pool' bit) :
    pageView dscr root (hungWords s.words ((tables dscr root).ptr s.words l a)
      (s.pool.base + bit * pageSize)) b = pageView dscr root s.words b := by
  have hangs := h.hangs hl ha htake
  by_cases hs : (tables dscr root).Same l a b
  · have hb := ha.same hs
    rw [pageView_eq (hangs.stops_fresh h.tree hs), pageView_eq hb, hangs.ptr_fresh h.tree hs,
      hungWords_table (hangs.page b), ← hs.ptr,
      pteView_of_not_valid (h.not_valid hl ha)]
  · have hb := RadixTable.stops_stop (tables dscr root) s.words b
    obtain ⟨hstops, hptr, hword⟩ := hangs.stops_of_ne h.tree hb hs
    rw [pageView_eq hstops, pageView_eq hb, hptr, hword]

/-- The entries behind a table that is hung up: those of before, and those of the table. -/
theorem PageTablesWf.entry_hung {k : κ} {p : Nat} (h : PageTablesWf dscr root s) (hl : l < dscr.last)
    (ha : (tables dscr root).Stops s.words l a) (htake : TakesPage s.pool pool' bit)
    (hp : Entry dscr root (hungWords s.words ((tables dscr root).ptr s.words l a)
      (s.pool.base + bit * pageSize)) k p) :
    Entry dscr root s.words k p ∨ InTable (s.pool.base + bit * pageSize) p := by
  have hangs := h.hangs hl ha htake
  obtain ⟨m, va, hm, hreaches, rfl⟩ := hp
  rcases hangs.reaches_or h.tree hreaches hm with hold | ⟨rfl, hs⟩
  · rw [hangs.ptr_eq h.tree hold hm]
    exact .inl ⟨m, va, hm, hold, rfl⟩
  · rw [hangs.ptr_fresh h.tree hs]
    exact .inr (hangs.page (k, va))

theorem PageTablesWf.wf_hung (h : PageTablesWf dscr root s) (hl : l < dscr.last)
    (ha : (tables dscr root).Stops s.words l a) (htake : TakesPage s.pool pool' bit) :
    PageTablesWf dscr root { s with
      pool := pool'
      words := hungWords s.words ((tables dscr root).ptr s.words l a)
        (s.pool.base + bit * pageSize) } := by
  have hangs := h.hangs hl ha htake
  have hpte : hungWords s.words ((tables dscr root).ptr s.words l a) (s.pool.base + bit * pageSize)
      ((tables dscr root).ptr s.words l a) =
      pteSet (s.pool.base + bit * pageSize) pteTableType pteHypFlags :=
    hungWords_pte s.words (hangs.fresh l a hl.le ha.reaches)
  have hold (m c) (hm : m ≤ dscr.last) (hc : (tables dscr root).Reaches s.words m c)
      (hne : (tables dscr root).ptr s.words m c ≠ (tables dscr root).ptr s.words l a) :=
    hungWords_of_ne s.words hne (hangs.fresh m c hm hc)
  refine ⟨hangs.tree h.tree (by decide : 0 < 8), fun m c hm hc hvalid => ?_, fun m c hm hc => ?_,
    fun k p hp hfree => ?_, fun k p hp => ?_, htake.inMemory, h.unlocked, h.tame,
    h.root_aligned, h.root_injective⟩
  · rcases hangs.reaches_or h.tree hc hm with hc' | ⟨rfl, hs⟩
    · simp only [hangs.ptr_eq h.tree hc' hm] at hvalid ⊢
      by_cases heq : (tables dscr root).ptr s.words m c = (tables dscr root).ptr s.words l a
      · rw [heq, hpte]
        exact pteSet_type _ _
      · rw [hold m c hm hc' heq] at hvalid ⊢
        exact h.valid m c hm hc' hvalid
    · simp only [hangs.ptr_fresh h.tree hs] at hvalid
      rw [hungWords_table (hangs.page c), pteValid_and_rswMsk] at hvalid
      cases hvalid
  · rcases hangs.reaches_or h.tree hc hm with hc' | ⟨heq, hs⟩
    · simp only [hangs.ptr_eq h.tree (hc'.mono (Nat.le_succ m)) hm.le]
      rw [hold m c hm.le (hc'.mono (Nat.le_succ m))]
      · exact h.unreserved m c hm hc'
      · intro heq
        obtain ⟨rfl, hs⟩ := h.tree m l c a hm.le hl.le (hc'.mono (Nat.le_succ m)) ha.reaches heq
        exact absurd ((ha.same hs.symm).le_of_reaches hc' hm) (Nat.not_succ_le_self m)
    · obtain rfl := Nat.succ_injective heq
      have hc' := (ha.same hs).reaches
      simp only [hangs.ptr_eq h.tree hc' hm.le, ← hs.ptr, hpte, pteCheckRsw, pteSet_and_rswMsk]
      decide
  · rcases h.entry_hung hl ha htake hp with hp | hp
    · exact h.apart k p hp (htake.freeAt hfree)
    · exact (htake.freeAt_inTable hp).2 hfree
  · rcases h.entry_hung hl ha htake hp with hp | ⟨i, -, rfl⟩
    · exact h.pos k p hp
    · exact Nat.add_pos_left (Nat.add_pos_left h.pool.base_pos _) _

theorem PageTablesWf.hung (h : PageTablesWf dscr root s) (hl : l < dscr.last)
    (ha : (tables dscr root).Stops s.words l a) (htake : TakesPage s.pool pool' bit) :
    Hung dscr root s { s with
      pool := pool'
      words := hungWords s.words ((tables dscr root).ptr s.words l a)
        (s.pool.base + bit * pageSize) } l a := by
  have hangs := h.hangs hl ha htake
  refine ⟨h.wf_hung hl ha htake, fun b => h.pageView_hung hl ha htake, fun m b hm hb => ?_,
    fun hmissed => ?_, hangs.reaches_fresh h.tree (RadixTable.Same.refl l a),
    fun m b hm hb => hangs.reaches_or h.tree hb hm, fun p hne => ?_,
    fun k p hp => (h.entry_hung hl ha htake hp).imp_right fun hin => (htake.freeAt_inTable hin).1,
    rfl, ⟨htake.base, htake.nrPages⟩,
    fun p hp => htake.freeAt hp, htake.room, htake.served⟩
  · exact ⟨hangs.reaches h.tree hb hm, hangs.ptr_eq h.tree hb hm⟩
  · exact absurd (ha.le_of_reaches hmissed hl) (Nat.not_succ_le_self l)
  · by_cases heq : p = (tables dscr root).ptr s.words l a
    · refine ⟨l, a.2, hl.le, hangs.reaches h.tree ha.reaches hl.le, ?_⟩
      rw [heq]
      exact (hangs.ptr_eq h.tree ha.reaches hl.le).symm
    · have htable : InTable (s.pool.base + bit * pageSize) p := by
        by_contra hp
        exact hne (hungWords_of_ne s.words heq hp)
      obtain ⟨i, hi, rfl⟩ := htable
      obtain ⟨va, hva⟩ := dscr.exists_block_succ hl a.2 hi
      have hs : (tables dscr root).Same l a (a.1, va) := by
        refine (same_iff hl.le).mpr ⟨rfl, ?_⟩
        rw [← dscr.block_succ hl va, hva]
        omega
      have hindex : (tables dscr root).index (l + 1) (a.1, va) = i := by
        rw [show (tables dscr root).index (l + 1) (a.1, va) = dscr.block (l + 1) va % 512 from
          ptGetpteindexByVa_succ ⟨root a.1, dscr⟩ hl va, hva]
        omega
      refine ⟨l + 1, va, hl, hangs.reaches_fresh h.tree hs, ?_⟩
      simp only [hangs.ptr_fresh h.tree hs, hindex]
      rw [hungWords_pte s.words (hangs.fresh l a hl.le ha.reaches),
        show (tables dscr root).next = pteAddr from rfl,
        pteAddr_pteSet _ _ (h.pool.page_aligned bit) (h.pool.page_lt htake.lt)]
      rfl

end Hung

/-! ### Expansion -/

/-- An entry that is only reserved stays as it is when it is reserved again. -/
theorem pteSetRsw_of_check {pte : Pte} (h : pteCheckRsw pte pteRswRsrv = true) :
    pteSetRsw (pte &&& pteRswMsk) pteRswRsrv = pte &&& pteRswMsk := by
  unfold pteSetRsw
  rw [← of_decide_eq_true h]
  ext i hi
  simp only [BitVec.getElem_and, BitVec.getElem_or, BitVec.getElem_not]
  cases pteRswMsk[i] <;> simp

/-- The loop of `mem_expand_pte` changes nothing in a table that is reserved already. -/
theorem expandLoop_reserved (type flags : Pte) (lvlsz left : Nat) (words : Nat → Pte)
    (pte paddr : Nat)
    (h : ∀ i < left, pteSetRsw (words (pte + 8 * i)) pteRswRsrv = words (pte + 8 * i)) :
    expandLoop false type flags lvlsz left words pte paddr = words := by
  induction left generalizing pte paddr with
  | zero => rfl
  | succ left ih =>
    have hfirst := h 0 (Nat.succ_pos left)
    simp only [Nat.mul_zero, Nat.add_zero] at hfirst
    simp only [expandLoop, Bool.false_eq_true, if_false, hfirst, update_eq_self]
    refine ih _ _ fun i hi => ?_
    have hnext := h (i + 1) (Nat.succ_lt_succ hi)
    rw [show pte + 8 + 8 * i = pte + 8 * (i + 1) by omega]
    exact hnext

section Expand

variable {dscr : PtDscr} {root : κ → Nat} {s t : MmuState} {k : κ} {l va : Nat}

/-- `mem_alloc_pt` hangs up a table. -/
theorem memAllocPt_hung (type : AsType) (h : PageTablesWf dscr root s) (hl : l < dscr.last)
    (ha : (tables dscr root).Stops s.words l (k, va)) (hroom : 0 < s.pool.room) :
    ∃ page t, memAllocPt ⟨⟨root k, dscr⟩, type⟩ s ((tables dscr root).ptr s.words l (k, va)) l va =
        some (page, t) ∧ Hung dscr root s t l (k, va) ∧ 0 < page ∧
      ∀ i < 512, t.words (page + 8 * i) =
        s.words ((tables dscr root).ptr s.words l (k, va)) &&& pteRswMsk := by
  obtain ⟨bit, pool', htake, halloc⟩ := memAllocPt_eq type h hl ha hroom
  exact ⟨_, _, halloc, h.hung hl ha htake, Nat.add_pos_left h.pool.base_pos _,
    fun i hi => hungWords_table ⟨i, hi, rfl⟩⟩

/-- `mem_expand_pte` hangs up a table where none is. -/
theorem memExpandPte_spec (type : AsType) (h : PageTablesWf dscr root s) (hl : l < dscr.last)
    (hreach : (tables dscr root).Reaches s.words l (k, va))
    (hroom : ¬ (tables dscr root).Reaches s.words (l + 1) (k, va) → 0 < s.pool.room) :
    ∃ t, memExpandPte ⟨⟨root k, dscr⟩, type⟩ s va l = some t ∧
      ((tables dscr root).Reaches s.words (l + 1) (k, va) ∧ t = s ∨
        Hung dscr root s t l (k, va)) := by
  have hpos := h.ptr_pos hl.le hreach
  have hlast : ¬ dscr.lvls - 1 ≤ l := Nat.not_le_of_lt hl
  unfold memExpandPte
  simp only [hlast, if_false, MmuState.walk_of_reaches hl.le hreach, ptGetPte_eq, pteTable_eq hl]
  cases htable : (tables dscr root).isTable (s.words ((tables dscr root).ptr s.words l (k, va))) with
  | true =>
    refine ⟨s, by simp, .inl ⟨RadixTable.reaches_succ.mpr ⟨hreach, htable⟩, rfl⟩⟩
  | false =>
    have ha : (tables dscr root).Stops s.words l (k, va) := ⟨hreach, hl.le, fun _ => htable⟩
    have hmissed : ¬ (tables dscr root).Reaches s.words (l + 1) (k, va) := fun hr =>
      absurd (ha.le_of_reaches hr hl) (Nat.not_succ_le_self l)
    obtain ⟨page, t, halloc, hung, -, hfilled⟩ :=
      memAllocPt_hung type h hl ha (hroom hmissed)
    refine ⟨t, ?_, .inr hung⟩
    have hvalid := h.not_valid hl ha
    rw [halloc, hvalid]
    simp only [hpos.ne', ne_eq, not_false_eq_true, decide_true, Bool.not_false, Bool.and_true,
      if_true, Option.map_some, Bool.false_or]
    congr 1
    split
    · rename_i hrsv
      rw [expandLoop_reserved]
      intro i hi
      rw [hfilled i ((hi.trans_le (Nat.sub_le _ _)).trans_eq (ptNentries_succ _ hl))]
      exact pteSetRsw_of_check hrsv
    · rfl

end Expand

/-! ### An entry is stored -/

section Store

variable {dscr : PtDscr} {root : κ → Nat} {s : MmuState} {k : κ} {l m p : Nat} {a b : κ × Nat} {x : Pte}

theorem entry_store_iff (h : PageTablesWf dscr root s) (ha : (tables dscr root).Stops s.words l a)
    (hx : l ≠ dscr.last → (tables dscr root).isTable x = false) :
    Entry dscr root (update s.words ((tables dscr root).ptr s.words l a) x) k p ↔
      Entry dscr root s.words k p := by
  refine exists₂_congr fun m va => and_congr_right fun hm => ?_
  rw [h.tree.reaches_update_iff ha hx hm]
  refine and_congr_right fun hreach => ?_
  rw [h.tree.ptr_update_stops ha hreach hm]

/-- A store of an entry that is no table keeps the tables as they are built. -/
theorem PageTablesWf.store (h : PageTablesWf dscr root s) (ha : (tables dscr root).Stops s.words l a)
    (hx : l ≠ dscr.last → pteValid x = false)
    (hpage : pteValid x = true → x &&& pteTypeMsk = ptePageType) :
    PageTablesWf dscr root (s.setWord ((tables dscr root).ptr s.words l a) x) := by
  have htable (hne : l ≠ dscr.last) : (tables dscr root).isTable x = false := by
    refine decide_eq_false fun htype => ?_
    rw [pteValid_of_type htype] at hx
    exact absurd (hx hne) (by decide)
  refine ⟨h.tree.update ha.reaches ha.le_last htable, fun m b hm hb hvalid => ?_, fun m b hm hb => ?_,
    fun k p hp => ?_, fun k p hp => ?_, h.pool, h.unlocked, h.tame, h.root_aligned, h.root_injective⟩
  · have hb' := (h.tree.reaches_update_iff ha htable hm).mp hb
    simp only [MmuState.setWord, h.tree.ptr_update_stops ha hb' hm] at hvalid ⊢
    by_cases heq : (tables dscr root).ptr s.words m b = (tables dscr root).ptr s.words l a
    · rw [heq, update_self] at hvalid ⊢
      exact hpage hvalid
    · rw [update_of_ne heq] at hvalid ⊢
      exact h.valid m b hm hb' hvalid
  · have hb' := (h.tree.reaches_update_iff ha htable hm).mp hb
    have hm' := hb'.mono (Nat.le_succ m)
    simp only [MmuState.setWord, h.tree.ptr_update_stops ha hm' hm.le]
    rw [update_of_ne]
    · exact h.unreserved m b hm hb'
    · intro heq
      obtain ⟨rfl, hs⟩ := h.tree m l b a hm.le ha.le_last hm' ha.reaches heq
      exact absurd ((ha.same hs.symm).le_of_reaches hb' hm) (Nat.not_succ_le_self m)
  · exact h.apart k p ((entry_store_iff h ha htable).mp hp)
  · exact h.pos k p ((entry_store_iff h ha htable).mp hp)

/-- What is stored is what the tables say of the addresses that have the entry. -/
theorem pageView_store_same (h : PageTablesWf dscr root s) (ha : (tables dscr root).Stops s.words l a)
    (hx : l ≠ dscr.last → (tables dscr root).isTable x = false) (hs : (tables dscr root).Same l a b) :
    pageView dscr root (update s.words ((tables dscr root).ptr s.words l a) x) b = pteView x := by
  obtain ⟨hstops, hword⟩ := h.tree.stops_update_same ha hx hs
  rw [pageView_eq hstops, hword]

theorem pageView_store_of_ne (h : PageTablesWf dscr root s) (ha : (tables dscr root).Stops s.words l a)
    (hs : ¬ (tables dscr root).Same l a b) :
    pageView dscr root (update s.words ((tables dscr root).ptr s.words l a) x) b =
      pageView dscr root s.words b := by
  have hb := RadixTable.stops_stop (tables dscr root) s.words b
  obtain ⟨hstops, hptr, hword⟩ := h.tree.stops_update_of_ne (x := x) ha hb hs
  rw [pageView_eq hstops, pageView_eq hb, hptr, hword]

end Store

/-! ### Translation -/

section Translate

variable {dscr : PtDscr} {root : κ → Nat} {s : MmuState} {k : κ} {l va : Nat}

theorem pteView_of_valid {pte : Pte} (h : pteValid pte = true) : pteView pte = pte := if_pos h

theorem pteValid_pteView (pte : Pte) : pteValid (pteView pte) = pteValid pte := by
  unfold pteView
  split
  · rfl
  · rename_i hvalid
    rw [pteValid_and_rswMsk, Bool.eq_false_iff.mpr hvalid]

theorem ptLvlsize_last (pt : PageTable) : ptLvlsize pt pt.dscr.last = pageSize := by
  rw [ptLvlsize_eq, pt.dscr.off_add le_rfl, Nat.sub_self]
  rfl

/-- The walk of the hardware from a level on, with the levels that are left. -/
theorem translateFrom_eq (k : κ) (va : Nat) (h : PageTablesWf dscr root s) (left : Nat)
    (hleft : l + left = dscr.last) (hreach : (tables dscr root).Reaches s.words l (k, va)) :
    translateFrom s.words ⟨root k, dscr⟩ va (left + 1) l =
      if pteValid (pageView dscr root s.words (k, va)) = true then
        some (pteAddr (pageView dscr root s.words (k, va)) + va % pageSize,
          pageView dscr root s.words (k, va) &&& pteFlagsMsk)
      else none := by
  induction left generalizing l with
  | zero =>
    obtain rfl : l = dscr.last := hleft
    have hstops : (tables dscr root).Stops s.words dscr.last (k, va) :=
      ⟨hreach, le_rfl, fun hne => absurd rfl hne⟩
    have haligned := pteAddr_aligned (s.words ((tables dscr root).ptr s.words dscr.last (k, va)))
    have hlvlsize := ptLvlsize_last ⟨root k, dscr⟩
    rw [pageView_eq hstops, pteValid_pteView]
    simp only [translateFrom, ptGetPte_eq, pteTable_last]
    cases hvalid : pteValid (s.words ((tables dscr root).ptr s.words dscr.last (k, va))) with
    | false => rfl
    | true =>
      have htype := h.valid dscr.last (k, va) le_rfl hreach hvalid
      have hpage : ptPageType ⟨root k, dscr⟩ dscr.last = ptePageType := if_pos rfl
      have hlast : dscr.last = dscr.lvls - 1 := rfl
      rw [pteView_of_valid hvalid, hlvlsize, htype, hpage]
      rw [Nat.div_mul_cancel (Nat.dvd_of_mod_eq_zero haligned)]
      simp [hlast]
  | succ left ih =>
    have hl : l < dscr.last := by omega
    rw [translateFrom]
    simp only [ptGetPte_eq, pteTable_eq hl]
    cases htable : (tables dscr root).isTable (s.words ((tables dscr root).ptr s.words l (k, va))) with
    | false =>
      have hstops : (tables dscr root).Stops s.words l (k, va) := ⟨hreach, hl.le, fun _ => htable⟩
      rw [pageView_eq hstops, pteValid_pteView, h.not_valid hl hstops]
      rfl
    | true =>
      rw [pteValid_of_type (of_decide_eq_true htable)]
      exact ih (by omega) (RadixTable.reaches_succ.mpr ⟨hreach, htable⟩)

/-- A page that is said to be mapped is translated as its entry says, and no other address. -/
theorem translate_eq (h : PageTablesWf dscr root s) : translate s.words ⟨root k, dscr⟩ va =
    if va < 2 ^ dscr.lvlWdt 0 ∧ pteValid (pageView dscr root s.words (k, va)) = true then
      some (pteAddr (pageView dscr root s.words (k, va)) + va % pageSize,
        pageView dscr root s.words (k, va) &&& pteFlagsMsk)
    else none := by
  have hwalk := translateFrom_eq k va h dscr.last (Nat.zero_add _)
    RadixTable.reaches_zero
  unfold translate
  rw [ptSpan_eq, dscr.lvls_eq, hwalk, ← ite_and]

end Translate

end Avisor
