import Avisor.Mem.AddressSpaces
import Avisor.Smmu.Commands

/-!
# The stream table of an SMMUv3

The table of `arch/aarch64/smmuv3.c` that says how the accesses of each stream are translated, linear or
with second levels that are allocated when a stream of theirs gets its first device, and the walk of the
SMMU over it. What a function stores and the commands that it issues come in the order of the source. A
pointer is its address, which is the physical one, and `none` is the loop of an `ERROR`.
-/

namespace Avisor

open Function

/-! ### Masks -/

/-- `STRTAB_BASE_RA`. -/
def strtabBaseRa : BitVec 64 := 1 <<< 62

/-- `STRTAB_BASE_ADDR_MASK`. -/
def strtabBaseAddrMask : BitVec 64 := bitMaskLR 51 6

/-- `STRTAB_BASE_CFG_FMT`. -/
def strtabBaseCfgFmt : BitVec 64 := bitMaskLR 17 16

/-- `STRTAB_BASE_CFG_FMT_LINEAR`. -/
def strtabBaseCfgFmtLinear : BitVec 64 := 0

/-- `STRTAB_BASE_CFG_FMT_2LVL`. -/
def strtabBaseCfgFmt2lvl : BitVec 64 := 1

/-- `STRTAB_BASE_CFG_SPLIT`. -/
def strtabBaseCfgSplit : BitVec 64 := bitMaskLR 10 6

/-- `STRTAB_BASE_CFG_LOG2SIZE`. -/
def strtabBaseCfgLog2size : BitVec 64 := bitMaskLR 5 0

/-- `STRTAB_L1_SZ_SHIFT`. -/
def strtabL1SzShift : ℕ := 20

/-- `STRTAB_SPLIT`. -/
def strtabSplit : ℕ := 8

/-- `STRTAB_L1_DESC_SIZE`. -/
def strtabL1DescSize : ℕ := 8

/-- `STRTAB_L1_DESC_SPAN`. -/
def strtabL1DescSpan : BitVec 64 := bitMaskLR 4 0

/-- `STRTAB_L1_DESC_L2PTR_MASK`. -/
def strtabL1DescL2ptrMask : BitVec 64 := bitMaskLR 51 6

/-- `STRTAB_STE_SIZE`. -/
def strtabSteSize : ℕ := 64

/-- `STRTAB_STE_0_V`, that is `1UL << 0`. -/
def strtabSte0V : BitVec 64 := bitMaskLR 0 0

/-- `STRTAB_STE_0_CFG`. -/
def strtabSte0Cfg : BitVec 64 := bitMaskLR 3 1

/-- `STRTAB_STE_0_CFG_ABORT`. -/
def strtabSte0CfgAbort : BitVec 64 := 0

/-- `STRTAB_STE_0_CFG_BYPASS`. -/
def strtabSte0CfgBypass : BitVec 64 := 4

/-- `STRTAB_STE_0_CFG_S2_TRANS`. -/
def strtabSte0CfgS2Trans : BitVec 64 := 6

/-- `STRTAB_STE_1_SHCFG`. -/
def strtabSte1Shcfg : BitVec 64 := bitMaskLR 45 44

/-- `STRTAB_STE_1_SHCFG_INCOMING`. -/
def strtabSte1ShcfgIncoming : BitVec 64 := 1

/-- `STRTAB_STE_2_S2VMID`. -/
def strtabSte2S2vmid : BitVec 64 := bitMaskLR 15 0

/-- `STRTAB_STE_2_VTCR`. -/
def strtabSte2Vtcr : BitVec 64 := bitMaskLR 50 32

/-- `STRTAB_STE_2_S2AA64`, that is `1UL << 51`. -/
def strtabSte2S2aa64 : BitVec 64 := bitMaskLR 51 51

/-- `STRTAB_STE_2_S2PTW`, that is `1UL << 54`. -/
def strtabSte2S2ptw : BitVec 64 := bitMaskLR 54 54

/-- `STRTAB_STE_2_S2R`, that is `1UL << 58`. -/
def strtabSte2S2r : BitVec 64 := bitMaskLR 58 58

/-- `STRTAB_STE_3_S2TTB_MASK`. -/
def strtabSte3S2ttbMask : BitVec 64 := bitMaskLR 51 4

/-- `VTCR_CELL`. -/
def vtcrCell : BitVec 64 :=
  0 ||| (1 <<< 6) ||| (0x1 <<< 8) ||| (0x1 <<< 10) ||| (0x3 <<< 12) ||| (1 <<< 31)

/-- `ARM_SMMU_FEAT_2_LVL_STRTAB`. -/
def armSmmuFeat2LvlStrtab : BitVec 32 := 1

/-- `ENOMEM`. -/
def enomem : ℤ := 12

/-! ### The table -/

/-- `struct arm_smmu_strtab_l1_desc`. -/
structure ArmSmmuStrtabL1Desc where
  span : BitVec 8
  l2ptr : ℕ
  l2ptrDma : BitVec 64
  activeStes : BitVec 32

/-- A cleared `struct arm_smmu_strtab_l1_desc`. -/
def noL1Desc : ArmSmmuStrtabL1Desc := ⟨0, 0, 0, 0⟩

/-- `struct arm_smmu_strtab_cfg`, with the array at `l1_desc`. -/
structure ArmSmmuStrtabCfg where
  strtab : ℕ
  strtabDma : BitVec 64
  l1Desc : ℕ → ArmSmmuStrtabL1Desc
  numL1Ents : ℕ
  strtabBase : BitVec 64
  strtabBaseCfg : BitVec 32

/-- What `struct arm_smmu_device` has of the stream table, the memory and the commands issued so far. -/
structure Smmuv3 where
  mmu : MmuState
  features : BitVec 32
  sidBits : ℕ
  cfg : ArmSmmuStrtabCfg
  issued : List ArmSmmuCmdqEnt

/-- `CURRENT_VM`, as far as it is used: `id` and `as.pt.root`. -/
structure CurrentVm where
  id : BitVec 64
  root : BitVec 64

/-- A store to memory, or `arm_smmu_cmdq_issue_cmd`. -/
inductive SmmuOp
  | store (dst : ℕ) (val : BitVec 64)
  | issue (ent : ArmSmmuCmdqEnt)
  deriving DecidableEq

namespace Smmuv3

def store (s : Smmuv3) (dst : ℕ) (val : BitVec 64) : Smmuv3 := { s with mmu := s.mmu.setWord dst val }

def perform (s : Smmuv3) : SmmuOp → Smmuv3
  | .store dst val => s.store dst val
  | .issue ent => { s with issued := s.issued ++ [ent] }

def setL1Desc (s : Smmuv3) (i : ℕ) (desc : ArmSmmuStrtabL1Desc) : Smmuv3 :=
  { s with cfg := { s.cfg with l1Desc := update s.cfg.l1Desc i desc } }

/-- The features say that there are two levels. -/
def TwoLevel (s : Smmuv3) : Prop := s.features &&& armSmmuFeat2LvlStrtab ≠ 0

instance (s : Smmuv3) : Decidable s.TwoLevel := inferInstanceAs (Decidable (_ ≠ _))

end Smmuv3

/-! ### Entries -/

/-- `arm_smmu_write_strtab_l1_desc`. -/
def armSmmuWriteStrtabL1Desc (dst : ℕ) (desc : ArmSmmuStrtabL1Desc) : List SmmuOp :=
  [.store dst (fieldPrep strtabL1DescSpan (desc.span.setWidth 64) |||
    desc.l2ptrDma &&& strtabL1DescL2ptrMask)]

/-- `arm_smmu_sync_ste_for_sid`, with the command of `arm_smmu_cmdq_issue_sync`. -/
def armSmmuSyncSteForSid (sid : BitVec 32) : List SmmuOp :=
  [.issue ⟨cmdqOpCfgiSte, sid, 1, 0⟩, .issue ⟨cmdqOpCmdSync, 0, 0, 0⟩]

/-- `dst[2]` of an entry that translates. -/
def ste2 (vmid : BitVec 32) : BitVec 64 :=
  fieldPrep strtabSte2S2vmid (vmid.setWidth 64) ||| fieldPrep strtabSte2Vtcr vtcrCell |||
    strtabSte2S2ptw ||| strtabSte2S2aa64 ||| strtabSte2S2r

/-- `arm_smmu_write_strtab_ent`; `smmu` says that there is one. -/
def armSmmuWriteStrtabEnt (smmu : Bool) (sid : BitVec 32) (dst : ℕ) (bypass : Bool) (vmid : BitVec 32)
    (rootPt : BitVec 64) : List SmmuOp :=
  if bypass then
    [.store (dst + 8) (fieldPrep strtabSte1Shcfg strtabSte1ShcfgIncoming),
      .store (dst + 16) (fieldPrep strtabSte2S2vmid (vmid.setWidth 64)),
      .store dst (strtabSte0V ||| fieldPrep strtabSte0Cfg strtabSte0CfgBypass)] ++
      if smmu then armSmmuSyncSteForSid sid else []
  else
    [.store (dst + 16) (ste2 vmid), .store (dst + 24) (rootPt &&& strtabSte3S2ttbMask)] ++
      armSmmuSyncSteForSid sid ++
      [.store dst (fieldPrep strtabSte0Cfg strtabSte0CfgS2Trans ||| strtabSte0V)] ++
      armSmmuSyncSteForSid sid

/-- `arm_smmu_init_bypass_stes`. -/
def armSmmuInitBypassStes (vm : CurrentVm) (strtab nent : ℕ) : List SmmuOp :=
  (List.range nent).flatMap fun n =>
    armSmmuWriteStrtabEnt false (-1) (strtab + strtabSteSize * n) true (vm.id.setWidth 32) vm.root

/-! ### Tables -/

variable (vm : CurrentVm) (s : Smmuv3)

/-- `arm_smmu_init_strtab_linear`. -/
def armSmmuInitStrtabLinear : Option (ℤ × Smmuv3) :=
  let size := 2 ^ s.sidBits * strtabSteSize % 2 ^ 32
  (memAllocPage s.mmu (numPages size) true).map fun (strtab, mmu) =>
    if strtab = 0 then (-enomem, { s with mmu := mmu })
    else
      let numL1Ents := 2 ^ s.sidBits
      let reg := fieldPrep strtabBaseCfgFmt strtabBaseCfgFmtLinear |||
        fieldPrep strtabBaseCfgLog2size (BitVec.ofNat 64 s.sidBits)
      let cfg := { s.cfg with
        strtab := strtab
        strtabDma := BitVec.ofNat 64 strtab
        numL1Ents := numL1Ents
        strtabBaseCfg := reg.setWidth 32 }
      (0, (armSmmuInitBypassStes vm strtab numL1Ents).foldl Smmuv3.perform
        { s with mmu := mmu, cfg := cfg })

/-- `arm_smmu_init_l1_strtab`, with 32 bytes for a descriptor. -/
def armSmmuInitL1Strtab : Option (ℤ × Smmuv3) :=
  (memAllocPage s.mmu (numPages (32 * s.cfg.numL1Ents % 2 ^ 32)) false).map fun (l1Desc, mmu) =>
    if l1Desc = 0 then (-enomem, { s with mmu := mmu })
    else
      (0, (List.range s.cfg.numL1Ents).foldl
        (fun s n => (armSmmuWriteStrtabL1Desc (s.cfg.strtab + strtabL1DescSize * n) noL1Desc).foldl
          Smmuv3.perform (s.setL1Desc n noL1Desc))
        { s with mmu := mmu })

/-- `arm_smmu_init_strtab_2lvl`. -/
def armSmmuInitStrtab2lvl : Option (ℤ × Smmuv3) :=
  let l1bits := min (strtabL1SzShift - 3) ((s.sidBits + (2 ^ 32 - strtabSplit)) % 2 ^ 32)
  let numL1Ents := 2 ^ l1bits
  let size := l1bits + strtabSplit
  let sidBits := if size < s.sidBits then size else s.sidBits
  (memAllocPage s.mmu (numPages (numL1Ents * strtabL1DescSize % 2 ^ 32)) true).bind fun (strtab, mmu) =>
    if strtab = 0 then
      some (-enomem, { s with mmu := mmu, sidBits := sidBits, cfg := { s.cfg with numL1Ents := numL1Ents } })
    else
      let reg := fieldPrep strtabBaseCfgFmt strtabBaseCfgFmt2lvl |||
        fieldPrep strtabBaseCfgLog2size (BitVec.ofNat 64 size) |||
        fieldPrep strtabBaseCfgSplit (BitVec.ofNat 64 strtabSplit)
      let cfg := { s.cfg with
        strtab := strtab
        strtabDma := BitVec.ofNat 64 strtab
        numL1Ents := numL1Ents
        strtabBaseCfg := reg.setWidth 32 }
      armSmmuInitL1Strtab { s with mmu := mmu, sidBits := sidBits, cfg := cfg }

/-- `arm_smmu_init_strtab`. -/
def armSmmuInitStrtab : Option (ℤ × Smmuv3) :=
  (if s.TwoLevel then armSmmuInitStrtab2lvl s else armSmmuInitStrtabLinear vm s).map fun (ret, s) =>
    if ret ≠ 0 then (ret, s)
    else
      (0, { s with cfg := { s.cfg with
        strtabBase := s.cfg.strtabDma &&& strtabBaseAddrMask ||| strtabBaseRa } })

/-- `arm_smmu_init_l2_strtab`. -/
def armSmmuInitL2Strtab (sid : BitVec 32) : Option (ℤ × Smmuv3) :=
  let i := sid.toNat / 2 ^ strtabSplit
  let desc := s.cfg.l1Desc i
  if desc.l2ptr ≠ 0 then some (0, s.setL1Desc i { desc with activeStes := desc.activeStes + 1 })
  else
    let size := 2 ^ (strtabSplit + 3 + 3)
    (memAllocPage s.mmu (numPages size) true).map fun (l2ptr, mmu) =>
      let s := { s with mmu := mmu }
      let span : BitVec 8 := BitVec.ofNat 8 (strtabSplit + 1)
      if l2ptr = 0 then (-enomem, s.setL1Desc i { desc with span := span, l2ptr := 0 })
      else
        let desc : ArmSmmuStrtabL1Desc := ⟨span, l2ptr, BitVec.ofNat 64 l2ptr, 1⟩
        (0, (armSmmuInitBypassStes vm l2ptr (2 ^ strtabSplit) ++
          armSmmuWriteStrtabL1Desc (s.cfg.strtab + strtabL1DescSize * i) desc ++
          [SmmuOp.issue ⟨cmdqOpCfgiSte, sid, 0, 0⟩]).foldl Smmuv3.perform (s.setL1Desc i desc))

/-- `arm_smmu_get_step_for_sid`. -/
def armSmmuGetStepForSid (sid : BitVec 32) : ℕ :=
  if s.TwoLevel then
    (s.cfg.l1Desc (sid.toNat / 2 ^ strtabSplit)).l2ptr + strtabSteSize * (sid.toNat % 2 ^ strtabSplit)
  else s.cfg.strtab + strtabSteSize * sid.toNat

/-- `arm_smmu_init_ste`. -/
def armSmmuInitSte (sid vmid : BitVec 32) : Option (ℤ × Smmuv3) :=
  (if s.TwoLevel then armSmmuInitL2Strtab vm s sid else some (0, s)).map fun (ret, s) =>
    if ret ≠ 0 then (ret, s)
    else
      (0, (armSmmuWriteStrtabEnt true sid (armSmmuGetStepForSid s sid) false vmid vm.root).foldl
        Smmuv3.perform s)

/-- `arm_smmuv3_vm_dev_init`. -/
def armSmmuv3VmDevInit (vmid : BitVec 64) (sid : BitVec 32) : Option (ℤ × Smmuv3) :=
  (armSmmuInitSte vm s sid (vmid.setWidth 32)).map fun (ret, s) =>
    if ret ≠ 0 then (ret, s)
    else
      (0, s.perform (.issue ⟨cmdqOpTlbiS12Vmall, (vmid.setWidth 16).setWidth 32 <<< 16, 0, 0⟩))

/-! ### The walk of the SMMU -/

/-- The parts of an entry for stage 2 that the SMMU uses. -/
structure SteStage2 where
  vmid : BitVec 64
  vtcr : BitVec 64
  aa64 : BitVec 64
  ptw : BitVec 64
  record : BitVec 64
  ttb : BitVec 64
  deriving DecidableEq, Repr

/-- What becomes of an access: the stream has no entry, its entry is not valid or aborts, or the access
goes on untranslated, through stage 2 or through stage 1. -/
inductive StreamView
  | noEntry
  | invalid
  | abort
  | bypass
  | stage2 (ste : SteStage2)
  | stage1
  deriving DecidableEq, Repr

/-- What the SMMU sees in the double words of an entry. -/
def steView (ste : ℕ → BitVec 64) : StreamView :=
  if fieldGet strtabSte0V (ste 0) = 0 then .invalid
  else if fieldGet strtabSte0Cfg (ste 0) = strtabSte0CfgBypass then .bypass
  else if fieldGet strtabSte0Cfg (ste 0) = strtabSte0CfgS2Trans then
    .stage2 ⟨fieldGet strtabSte2S2vmid (ste 2), fieldGet strtabSte2Vtcr (ste 2),
      fieldGet strtabSte2S2aa64 (ste 2), fieldGet strtabSte2S2ptw (ste 2),
      fieldGet strtabSte2S2r (ste 2), ste 3 &&& strtabSte3S2ttbMask⟩
  else if fieldGet strtabSte0Cfg (ste 0) < strtabSte0CfgBypass then .abort
  else .stage1

/-- An address of which the SMMU takes the low bits as zero. -/
def alignDown (addr bits : ℕ) : ℕ := addr / 2 ^ bits * 2 ^ bits

/-- The entry at an address. -/
def steAt (words : ℕ → BitVec 64) (ste : ℕ) : ℕ → BitVec 64 := fun i => words (ste + 8 * i)

/-- The walk of the SMMU for a stream, with its registers `STRTAB_BASE` and `STRTAB_BASE_CFG`. -/
def strtabWalk (words : ℕ → BitVec 64) (base : BitVec 64) (baseCfg : BitVec 32) (sid : ℕ) : StreamView :=
  let log2size := (fieldGet strtabBaseCfgLog2size (baseCfg.setWidth 64)).toNat
  let addr := (base &&& strtabBaseAddrMask).toNat
  if 2 ^ log2size ≤ sid then .noEntry
  else if fieldGet strtabBaseCfgFmt (baseCfg.setWidth 64) = strtabBaseCfgFmtLinear then
    steView (steAt words (alignDown addr (log2size + 6) + strtabSteSize * sid))
  else
    let split := (fieldGet strtabBaseCfgSplit (baseCfg.setWidth 64)).toNat
    let desc := words (alignDown addr (max 6 (log2size - split + 3)) + strtabL1DescSize * (sid / 2 ^ split))
    let span := (fieldGet strtabL1DescSpan desc).toNat
    if span = 0 ∨ 2 ^ (span - 1) ≤ sid % 2 ^ split then .noEntry
    else
      steView (steAt words
        (alignDown (desc &&& strtabL1DescL2ptrMask).toNat (span + 5) + strtabSteSize * (sid % 2 ^ split)))

/-- The walk over the table, with the registers as `arm_smmu_device_reset` sets them. -/
def Smmuv3.walk (sid : ℕ) : StreamView :=
  strtabWalk s.mmu.words s.cfg.strtabBase s.cfg.strtabBaseCfg sid

end Avisor
