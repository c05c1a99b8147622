import Avisor.Lib.RadixTable
import Avisor.Mem.Pages

/-!
# Page tables

`core/mmu.c` with `arch/aarch64/arch_page_table.c`. A `pte_t*` is the address of the word it points to.
The lock of an address space is held throughout its functions, so it does not show; the lock of the page
pool does. `none`, or a `Halt`, stands for a call that does not return.
-/

namespace Avisor

open Function

/-! ### Entries -/

/-- `pte_t`. -/
abbrev Pte := BitVec 64

/-- `PTE_ADDR_MSK`. -/
def pteAddrMsk : Pte := 0xfffffffff000

/-- `PTE_FLAGS_MSK`. -/
def pteFlagsMsk : Pte := ~~~pteAddrMsk

/-- `PTE_TYPE_MSK`. -/
def pteTypeMsk : Pte := 3

/-- `PTE_VALID`. -/
def pteValidBit : Pte := 1

/-- `PTE_SUPERPAGE`. -/
def pteSuperpage : Pte := 1

/-- `PTE_TABLE`. -/
def pteTableType : Pte := 3

/-- `PTE_PAGE`. -/
def ptePageType : Pte := 3

/-- `PTE_INVALID`. -/
def pteInvalid : Pte := 0

/-- `PTE_RSW_MSK`. -/
def pteRswMsk : Pte := 0x780000000000000

/-- `PTE_RSW_RSRV`. -/
def pteRswRsrv : Pte := 0x180000000000000

/-- `PTE_HYP_FLAGS`. -/
def pteHypFlags : Pte := 0x744

/-- `PTE_VM_FLAGS`. -/
def pteVmFlags : Pte := 0x4fc

/-- `PTE_HYP_DEV_FLAGS`. -/
def pteHypDevFlags : Pte := 0x40000000000748

/-- `PTE_VM_DEV_FLAGS`. -/
def pteVmDevFlags : Pte := 0x4cc

/-- The word that `pte_set` stores. -/
def pteSet (addr : Nat) (type flags : Pte) : Pte :=
  (BitVec.ofNat 64 addr &&& pteAddrMsk) ||| ((type ||| flags) &&& pteFlagsMsk)

/-- `pte_valid`. -/
def pteValid (pte : Pte) : Bool := pte &&& pteValidBit ≠ 0

/-- The word that `pte_set_rsw` stores. -/
def pteSetRsw (pte flag : Pte) : Pte := (pte &&& ~~~pteRswMsk) ||| (flag &&& pteRswMsk)

/-- `pte_check_rsw`. -/
def pteCheckRsw (pte flag : Pte) : Bool := pte &&& pteRswMsk = flag &&& pteRswMsk

/-- `pte_addr`. -/
def pteAddr (pte : Pte) : Nat := (pte &&& pteAddrMsk).toNat

/-! ### Tables -/

/-- `struct page_table_dscr`: a page is the last level, a table behind the first one has 512 entries, and
the addresses of the first table are 48 bits at most. -/
structure PtDscr where
  lvls : Nat
  lvlOff : Nat → Nat
  lvlWdt : Nat → Nat
  lvlTerm : Nat → Bool
  lvls_pos : 0 < lvls
  off_last : lvlOff (lvls - 1) = 12
  off_succ : ∀ l, l + 1 < lvls → lvlOff l = lvlOff (l + 1) + 9
  wdt_succ : ∀ l, l + 1 < lvls → lvlWdt (l + 1) = lvlOff l
  off_lt_wdt : lvlOff 0 < lvlWdt 0
  wdt_le : lvlWdt 0 ≤ 48

/-- `lvl_off` of `armv8_pt_dscr` and `armv8_pt_s2_dscr`. -/
def armv8LvlOff : Nat → Nat
  | 0 => 39
  | 1 => 30
  | 2 => 21
  | _ => 12

/-- `lvl_wdt` of the two. -/
def armv8LvlWdt : Nat → Nat
  | 0 => 48
  | 1 => 39
  | 2 => 30
  | _ => 21

/-- `lvl_term` of the two. -/
def armv8LvlTerm : Nat → Bool
  | 0 => false
  | _ => true

private theorem armv8_off_succ (l : Nat) (h : l + 1 < 4) :
    armv8LvlOff l = armv8LvlOff (l + 1) + 9 := by
  match l with
  | 0 | 1 | 2 => rfl
  | l + 3 => omega

private theorem armv8_wdt_succ (l : Nat) (h : l + 1 < 4) :
    armv8LvlWdt (l + 1) = armv8LvlOff l := by
  match l with
  | 0 | 1 | 2 => rfl
  | l + 3 => omega

private theorem armv8_off_lt_wdt : armv8LvlOff 0 < armv8LvlWdt 0 := by decide

/-- `armv8_pt_dscr`, and `armv8_pt_s2_dscr` where `parange_table[parange]` is 44 or 48. -/
def armv8PtDscr : PtDscr where
  lvls := 4
  lvlOff := armv8LvlOff
  lvlWdt := armv8LvlWdt
  lvlTerm := armv8LvlTerm
  lvls_pos := Nat.succ_pos 3
  off_last := rfl
  off_succ := armv8_off_succ
  wdt_succ := armv8_wdt_succ
  off_lt_wdt := armv8_off_lt_wdt
  wdt_le := Nat.le_refl 48

/-- `lvl_wdt` of `armv8_pt_s2_dscr` behind `vmm_arch_init_tcr`, for a smaller `parange`. -/
def armv8S2LvlWdt (parange : Nat) : Nat → Nat
  | 0 => parange
  | l + 1 => armv8LvlWdt (l + 2)

private theorem armv8_s2_off_succ (l : Nat) (h : l + 1 < 3) :
    armv8LvlOff (l + 1) = armv8LvlOff (l + 1 + 1) + 9 :=
  armv8_off_succ (l + 1) (Nat.succ_lt_succ h)

private theorem armv8_s2_wdt_succ (parange l : Nat) (h : l + 1 < 3) :
    armv8S2LvlWdt parange (l + 1) = armv8LvlOff (l + 1) :=
  armv8_wdt_succ (l + 1) (Nat.succ_lt_succ h)

/-- `armv8_pt_s2_dscr` behind `vmm_arch_init_tcr`, which drops the first level. -/
def armv8PtS2Dscr (parange : Nat) (h : 30 < parange) (hle : parange ≤ 48) : PtDscr where
  lvls := 3
  lvlOff l := armv8LvlOff (l + 1)
  lvlWdt := armv8S2LvlWdt parange
  lvlTerm l := armv8LvlTerm (l + 1)
  lvls_pos := Nat.succ_pos 2
  off_last := rfl
  off_succ := armv8_s2_off_succ
  wdt_succ := armv8_s2_wdt_succ parange
  off_lt_wdt := h
  wdt_le := hle

/-- `struct page_table`. -/
structure PageTable where
  root : Nat
  dscr : PtDscr

section

variable (pt : PageTable) (lvl : Nat)

/-- `pt_nentries`. -/
def ptNentries : Nat := (1 <<< pt.dscr.lvlWdt lvl) >>> pt.dscr.lvlOff lvl

/-- `pt_lvlsize`. -/
def ptLvlsize : Nat := 1 <<< pt.dscr.lvlOff lvl

/-- `pt_size`. -/
def ptSize : Nat := ptNentries pt lvl * 8

/-- `pt_getpteindex`. -/
def ptGetpteindex (pte : Nat) : Nat := (pte &&& (ptSize pt lvl - 1)) / 8

/-- `pt_getpteindex_by_va`. -/
def ptGetpteindexByVa (va : Nat) : Nat := (va >>> pt.dscr.lvlOff lvl) &&& (ptNentries pt lvl - 1)

/-- `pte_table`. -/
def pteTable (pte : Pte) : Bool :=
  lvl ≠ pt.dscr.lvls - 1 && pte &&& pteTypeMsk = pteTableType

end

/-- `pt_get_pte`. -/
def ptGetPte (words : Nat → Pte) (pt : PageTable) : Nat → Nat → Nat
  | 0, va => pt.root + 8 * ptGetpteindexByVa pt 0 va
  | lvl + 1, va =>
    pteAddr (words (ptGetPte words pt lvl va)) + 8 * ptGetpteindexByVa pt (lvl + 1) va

/-- All entries that `pt_get_pte` follows are tables. -/
def walkOk (words : Nat → Pte) (pt : PageTable) (lvl va : Nat) : Bool :=
  (List.range lvl).all fun l => pteTable pt l (words (ptGetPte words pt l va))

/-- `enum type` of an address space. -/
inductive AsType
  | hyp
  | vm
  | hypCpy
  deriving DecidableEq

/-- `struct addr_space`. -/
structure AddrSpace where
  pt : PageTable
  type : AsType

/-- What the functions work on: the words of the physical memory, and the page pool with its lock. `wild`
is not in the source: a walk has followed an entry that is no table. -/
structure MmuState where
  words : Nat → Pte
  pool : PagePool
  poolLocked : Bool
  wild : Bool

namespace MmuState

variable (s : MmuState)

/-- `*pte = val`. -/
def setWord (pte : Nat) (val : Pte) : MmuState := { s with words := update s.words pte val }

/-- A walk to the entry of `va` at level `lvl`. -/
def walk (pt : PageTable) (lvl va : Nat) : MmuState :=
  { s with wild := s.wild || !walkOk s.words pt lvl va }

end MmuState

/-! ### Allocation -/

/-- `mem_alloc_ppages`; without pages it ends in `ERROR`. An aligned search that has been through the
pool twice goes on for ever. -/
def memAllocPpages (s : MmuState) (nrPages : Nat) (aligned : Bool) : Option (Ppages × MmuState) :=
  if nrPages ≠ 0 && s.poolLocked then none
  else
    match ppAlloc (2 * s.pool.nrPages + 3) s.pool nrPages aligned ⟨0, 0⟩ with
    | some (true, pool, pages) => some (pages, { s with pool := pool })
    | _ => none

/-- `temp_pt[i] = val` for the first `n` entries of a table. -/
def fillTable (val : Pte) (tempPt : Nat) : Nat → (Nat → Pte) → Nat → Pte
  | 0, words => words
  | n + 1, words => update (fillTable val tempPt n words) (tempPt + 8 * n) val

/-- `pt_get`, with its walk. -/
def ptGet (s : MmuState) (pt : PageTable) (lvl va : Nat) : Nat × MmuState :=
  if lvl = 0 then (pt.root, s)
  else
    let pte := ptGetPte s.words pt lvl va
    (pte - (pte &&& (ptSize pt lvl - 1)), s.walk pt lvl va)

/-- `mem_alloc_pt`. -/
def memAllocPt (as : AddrSpace) (s : MmuState) (parent lvl addr : Nat) : Option (Nat × MmuState) :=
  let ptsize := numPages (ptSize as.pt (lvl + 1))
  (memAllocPpages s ptsize (ptsize > 1)).map fun (ppage, s) =>
    if ppage.nrPages = 0 then (0, s)
    else
      let pteDfltVal := pteInvalid ||| (s.words parent &&& pteRswMsk)
      let s := s.setWord parent (pteSet ppage.base pteTableType pteHypFlags)
      let (tempPt, s) := ptGet s as.pt (lvl + 1) addr
      (tempPt, { s with
        words := fillTable pteDfltVal tempPt (ptNentries as.pt (lvl + 1)) s.words })

/-! ### Mapping -/

/-- `pt_page_type`. -/
def ptPageType (pt : PageTable) (lvl : Nat) : Pte :=
  if lvl = pt.dscr.lvls - 1 then ptePageType else pteSuperpage

/-- The loop of `mem_expand_pte` over the entries that are left of the new table. -/
def expandLoop (vld : Bool) (type flags : Pte) (lvlsz : Nat) :
    Nat → (Nat → Pte) → Nat → Nat → Nat → Pte
  | 0, words, _, _ => words
  | left + 1, words, pte, paddr =>
    let val := if vld then pteSet paddr type flags else pteSetRsw (words pte) pteRswRsrv
    expandLoop vld type flags lvlsz left (update words pte val) (pte + 8) (paddr + lvlsz)

/-- `mem_expand_pte`. -/
def memExpandPte (as : AddrSpace) (s : MmuState) (va lvl : Nat) : Option MmuState :=
  if as.pt.dscr.lvls - 1 ≤ lvl then some s
  else
    let pte := ptGetPte s.words as.pt lvl va
    let s := s.walk as.pt lvl va
    let pteVal := s.words pte
    if pte ≠ 0 && !pteTable as.pt lvl pteVal then
      let rsv := pteCheckRsw pteVal pteRswRsrv
      let vld := pteValid pteVal
      (memAllocPt as s pte lvl va).map fun (pte, s) =>
        if vld || rsv then
          let lvl := lvl + 1
          let entry := ptGetpteindex as.pt lvl pte
          let flags := if as.type = .hyp then pteHypFlags else pteVmFlags
          { s with
            words := expandLoop vld (ptPageType as.pt lvl) flags (ptLvlsize as.pt lvl)
              (ptNentries as.pt lvl - entry) s.words pte (pteAddr pteVal) }
        else s
    else some s

/-- The inner loop of `mem_inflate_pt`, up to the address `top`. -/
def inflateLoop (as : AddrSpace) (lvl top : Nat) : Nat → MmuState → Nat → Option MmuState
  | 0, _, _ => none
  | fuel + 1, s, vaddr =>
    if vaddr < top then
      (memExpandPte as s vaddr lvl).bind fun s =>
        inflateLoop as lvl top fuel s ((vaddr + ptLvlsize as.pt lvl) % sizeT)
    else some s

/-- `mem_inflate_pt`; a loop that has not ended when it has been round the address space never does. -/
def memInflatePt (as : AddrSpace) (s : MmuState) (va length : Nat) : Option MmuState :=
  (List.range (as.pt.dscr.lvls - 1)).foldlM
    (fun s lvl => inflateLoop as lvl ((va + length) % sizeT) (sizeT / ptLvlsize as.pt lvl + 1) s va) s

/-- The loop of `mem_map` over the pages that are left. -/
def mapLoop (as : AddrSpace) (base : Nat) (flags : Pte) : Nat → Nat → MmuState → Nat → MmuState
  | 0, _, s, _ => s
  | left + 1, i, s, vaddr =>
    let pte := ptGetPte s.words as.pt (as.pt.dscr.lvls - 1) vaddr
    let s := s.walk as.pt (as.pt.dscr.lvls - 1) vaddr
    let paddr := (base + i * pageSize) % sizeT
    mapLoop as base flags left (i + 1) (s.setWord pte (pteSet paddr ptePageType flags))
      ((vaddr + pageSize) % sizeT)

/-- The pages that `mem_map` maps: those given, or such as it allocates. -/
def mapPpages (s : MmuState) (ppages : Option Ppages) (nrPages : Nat) : Option (Ppages × MmuState) :=
  match ppages with
  | some pages => some (pages, s)
  | none =>
    (memAllocPpages s nrPages false).bind fun (pages, s) =>
      if pages.nrPages < nrPages then none else some (pages, s)

/-- `mem_map`. -/
def memMap (as : AddrSpace) (s : MmuState) (va : Nat) (ppages : Option Ppages) (nrPages : Nat)
    (flags : Pte) : Option MmuState :=
  let vaddr := va / pageSize * pageSize
  (mapPpages s ppages nrPages).bind fun (pages, s) =>
    (memInflatePt as s vaddr (nrPages * pageSize % sizeT)).map fun s =>
      mapLoop as pages.base flags pages.nrPages 0 s vaddr

/-! ### Translation -/

/-- What the hardware makes of an address: its physical address and the attributes of its page or
block. -/
def translateFrom (words : Nat → Pte) (pt : PageTable) (va : Nat) : Nat → Nat → Option (Nat × Pte)
  | 0, _ => none
  | left + 1, lvl =>
    let pte := words (ptGetPte words pt lvl va)
    if !pteValid pte then none
    else if pteTable pt lvl pte then translateFrom words pt va left (lvl + 1)
    else if pte &&& pteTypeMsk = ptPageType pt lvl && (lvl = pt.dscr.lvls - 1 || pt.dscr.lvlTerm lvl)
    then some (pteAddr pte / ptLvlsize pt lvl * ptLvlsize pt lvl + va % ptLvlsize pt lvl,
      pte &&& pteFlagsMsk)
    else none

/-- The level where the walk of `va` ends. -/
def walkEnd (words : Nat → Pte) (pt : PageTable) (va : Nat) : Nat :=
  ((List.range (pt.dscr.lvls - 1)).find? fun l =>
    !pteTable pt l (words (ptGetPte words pt l va))).getD (pt.dscr.lvls - 1)

/-- The end of the addresses that the first table translates. -/
def ptSpan (pt : PageTable) : Nat := 1 <<< pt.dscr.lvlWdt 0

/-- The translation of `va`; an address outside the span faults. -/
def translate (words : Nat → Pte) (pt : PageTable) (va : Nat) : Option (Nat × Pte) :=
  if va < ptSpan pt then translateFrom words pt va pt.dscr.lvls 0 else none

end Avisor
