import Avisor.Data.FieldMasks

/-!
# The commands of an SMMUv3

`arm_smmu_cmdq_build_cmd` of `arch/aarch64/smmuv3.c` with the entries it is called with. The union of an
entry is the word, the byte and the double word that its members lie in; what the SMMU reads in a command
is `smmuCommand`, field by field.
-/

namespace Avisor

/-! ### Masks and codes -/

/-- `CMDQ_0_OP`. -/
@[simp] def cmdq0Op : BitVec 64 := bitMaskLR 7 0

/-- `CMDQ_PREFETCH_0_SID`. -/
@[simp] def cmdqPrefetch0Sid : BitVec 64 := bitMaskLR 63 32

/-- `CMDQ_PREFETCH_1_SIZE`. -/
@[simp] def cmdqPrefetch1Size : BitVec 64 := bitMaskLR 4 0

/-- `CMDQ_PREFETCH_1_ADDR_MASK`. -/
@[simp] def cmdqPrefetch1AddrMask : BitVec 64 := bitMaskLR 63 12

/-- `CMDQ_CFGI_0_SID`. -/
@[simp] def cmdqCfgi0Sid : BitVec 64 := bitMaskLR 63 32

/-- `CMDQ_CFGI_1_LEAF`, that is `1UL << 0`. -/
@[simp] def cmdqCfgi1Leaf : BitVec 64 := bitMaskLR 0 0

/-- `CMDQ_CFGI_1_RANGE`. -/
@[simp] def cmdqCfgi1Range : BitVec 64 := bitMaskLR 4 0

/-- `CMDQ_TLBI_0_VMID`. -/
@[simp] def cmdqTlbi0Vmid : BitVec 64 := bitMaskLR 47 32

/-- `CMDQ_TLBI_0_ASID`. -/
@[simp] def cmdqTlbi0Asid : BitVec 64 := bitMaskLR 63 48

/-- `CMDQ_TLBI_1_LEAF`, that is `1UL << 0`. -/
@[simp] def cmdqTlbi1Leaf : BitVec 64 := bitMaskLR 0 0

/-- `CMDQ_TLBI_1_VA_MASK`. -/
@[simp] def cmdqTlbi1VaMask : BitVec 64 := bitMaskLR 63 12

/-- `CMDQ_TLBI_1_IPA_MASK`. -/
@[simp] def cmdqTlbi1IpaMask : BitVec 64 := bitMaskLR 51 12

/-- `CMDQ_SYNC_0_CS`. -/
@[simp] def cmdqSync0Cs : BitVec 64 := bitMaskLR 13 12

/-- `CMDQ_SYNC_0_MSH`. -/
@[simp] def cmdqSync0Msh : BitVec 64 := bitMaskLR 23 22

/-- `CMDQ_SYNC_0_MSIATTR`. -/
@[simp] def cmdqSync0Msiattr : BitVec 64 := bitMaskLR 27 24

/-- `CMDQ_SYNC_0_MSIDATA`. -/
@[simp] def cmdqSync0Msidata : BitVec 64 := bitMaskLR 63 32

/-- `CMDQ_SYNC_1_MSIADDR_MASK`. -/
@[simp] def cmdqSync1MsiaddrMask : BitVec 64 := bitMaskLR 51 2

/-- `CMDQ_OP_PREFETCH_CFG`. -/
def cmdqOpPrefetchCfg : BitVec 8 := 0x1

/-- `CMDQ_OP_PREFETCH_ADDR`. -/
def cmdqOpPrefetchAddr : BitVec 8 := 0x2

/-- `CMDQ_OP_CFGI_STE`. -/
def cmdqOpCfgiSte : BitVec 8 := 0x3

/-- `CMDQ_OP_CFGI_ALL`. -/
def cmdqOpCfgiAll : BitVec 8 := 0x4

/-- `CMDQ_OP_TLBI_NH_ASID`. -/
def cmdqOpTlbiNhAsid : BitVec 8 := 0x11

/-- `CMDQ_OP_TLBI_NH_VA`. -/
def cmdqOpTlbiNhVa : BitVec 8 := 0x12

/-- `CMDQ_OP_TLBI_EL2_ALL`. -/
def cmdqOpTlbiEl2All : BitVec 8 := 0x20

/-- `CMDQ_OP_TLBI_S12_VMALL`. -/
def cmdqOpTlbiS12Vmall : BitVec 8 := 0x28

/-- `CMDQ_OP_TLBI_S2_IPA`. -/
def cmdqOpTlbiS2Ipa : BitVec 8 := 0x2a

/-- `CMDQ_OP_TLBI_NSNH_ALL`. -/
def cmdqOpTlbiNsnhAll : BitVec 8 := 0x30

/-- `CMDQ_OP_CMD_SYNC`. -/
def cmdqOpCmdSync : BitVec 8 := 0x46

/-- `struct arm_smmu_cmdq_ent`: the opcode and the union, as the word at its start (`sid`, `asid` with
`vmid`, or `msidata`), the byte behind that (`size`, `leaf`) and the double word behind (`addr`,
`msiaddr`). -/
structure ArmSmmuCmdqEnt where
  opcode : BitVec 8
  word : BitVec 32
  byte : BitVec 8
  addr : BitVec 64
  deriving DecidableEq, Repr

namespace ArmSmmuCmdqEnt

/-- `prefetch.sid` or `cfgi.sid`. -/
def sid (ent : ArmSmmuCmdqEnt) : BitVec 64 := ent.word.setWidth 64

/-- `prefetch.size`. -/
def size (ent : ArmSmmuCmdqEnt) : BitVec 64 := ent.byte.setWidth 64

/-- `cfgi.leaf` or `tlbi.leaf`. -/
def leaf (ent : ArmSmmuCmdqEnt) : BitVec 64 := if ent.byte = 0 then 0 else 1

/-- `tlbi.asid`. -/
def asid (ent : ArmSmmuCmdqEnt) : BitVec 64 := (ent.word.setWidth 16).setWidth 64

/-- `tlbi.vmid`. -/
def vmid (ent : ArmSmmuCmdqEnt) : BitVec 64 := (ent.word >>> 16).setWidth 64

/-- `sync.msidata`. -/
def msidata (ent : ArmSmmuCmdqEnt) : BitVec 64 := ent.word.setWidth 64

end ArmSmmuCmdqEnt

/-- The two double words of a command, `CMDQ_ENT_DWORDS`. -/
structure SmmuCmd where
  dword0 : BitVec 64
  dword1 : BitVec 64
  deriving DecidableEq, Repr

/-- `arm_smmu_cmdq_build_cmd`; `none` is `-ENOENT`. -/
def armSmmuCmdqBuildCmd (ent : ArmSmmuCmdqEnt) : Option SmmuCmd :=
  let op := fieldPrep cmdq0Op (ent.opcode.setWidth 64)
  if ent.opcode = cmdqOpTlbiEl2All then some ⟨op, 0⟩
  else if ent.opcode = cmdqOpTlbiNsnhAll then some ⟨op, 0⟩
  else if ent.opcode = cmdqOpPrefetchAddr then
    some ⟨op ||| fieldPrep cmdqPrefetch0Sid ent.sid,
      fieldPrep cmdqPrefetch1Size ent.size ||| ent.addr &&& cmdqPrefetch1AddrMask⟩
  else if ent.opcode = cmdqOpPrefetchCfg then some ⟨op ||| fieldPrep cmdqPrefetch0Sid ent.sid, 0⟩
  else if ent.opcode = cmdqOpCfgiSte then
    some ⟨op ||| fieldPrep cmdqCfgi0Sid ent.sid, fieldPrep cmdqCfgi1Leaf ent.leaf⟩
  else if ent.opcode = cmdqOpCfgiAll then some ⟨op, fieldPrep cmdqCfgi1Range 31⟩
  else if ent.opcode = cmdqOpTlbiNhVa then
    some ⟨op ||| fieldPrep cmdqTlbi0Asid ent.asid ||| fieldPrep cmdqTlbi0Vmid ent.vmid,
      fieldPrep cmdqTlbi1Leaf ent.leaf ||| ent.addr &&& cmdqTlbi1VaMask⟩
  else if ent.opcode = cmdqOpTlbiS2Ipa then
    some ⟨op ||| fieldPrep cmdqTlbi0Vmid ent.vmid,
      fieldPrep cmdqTlbi1Leaf ent.leaf ||| ent.addr &&& cmdqTlbi1IpaMask⟩
  else if ent.opcode = cmdqOpTlbiNhAsid then
    some ⟨op ||| fieldPrep cmdqTlbi0Asid ent.asid ||| fieldPrep cmdqTlbi0Vmid ent.vmid, 0⟩
  else if ent.opcode = cmdqOpTlbiS12Vmall then some ⟨op ||| fieldPrep cmdqTlbi0Vmid ent.vmid, 0⟩
  else if ent.opcode = cmdqOpCmdSync then
    some ⟨op ||| fieldPrep cmdqSync0Cs (if ent.addr = 0 then 2 else 1) |||
        (fieldPrep cmdqSync0Msh 3 ||| fieldPrep cmdqSync0Msiattr 0xf |||
          fieldPrep cmdqSync0Msidata ent.msidata),
      ent.addr &&& cmdqSync1MsiaddrMask⟩
  else none

/-- What a command asks for. -/
inductive SmmuCommand
  | tlbiEl2All
  | tlbiNsnhAll
  | prefetchAddr (sid size addr : BitVec 64)
  | prefetchCfg (sid : BitVec 64)
  | cfgiSte (sid leaf : BitVec 64)
  | cfgiAll (range : BitVec 64)
  | tlbiNhVa (asid vmid leaf addr : BitVec 64)
  | tlbiS2Ipa (vmid leaf addr : BitVec 64)
  | tlbiNhAsid (asid vmid : BitVec 64)
  | tlbiS12Vmall (vmid : BitVec 64)
  | cmdSync (cs msh msiattr msidata msiaddr : BitVec 64)
  deriving DecidableEq, Repr

/-- What the SMMU reads in the double words of a command with a given opcode. -/
def smmuOperands (op : BitVec 8) (cmd : SmmuCmd) : Option SmmuCommand :=
  if op = cmdqOpTlbiEl2All then some .tlbiEl2All
  else if op = cmdqOpTlbiNsnhAll then some .tlbiNsnhAll
  else if op = cmdqOpPrefetchAddr then
    some (.prefetchAddr (fieldGet cmdqPrefetch0Sid cmd.dword0) (fieldGet cmdqPrefetch1Size cmd.dword1)
      (cmd.dword1 &&& cmdqPrefetch1AddrMask))
  else if op = cmdqOpPrefetchCfg then some (.prefetchCfg (fieldGet cmdqPrefetch0Sid cmd.dword0))
  else if op = cmdqOpCfgiSte then
    some (.cfgiSte (fieldGet cmdqCfgi0Sid cmd.dword0) (fieldGet cmdqCfgi1Leaf cmd.dword1))
  else if op = cmdqOpCfgiAll then some (.cfgiAll (fieldGet cmdqCfgi1Range cmd.dword1))
  else if op = cmdqOpTlbiNhVa then
    some (.tlbiNhVa (fieldGet cmdqTlbi0Asid cmd.dword0) (fieldGet cmdqTlbi0Vmid cmd.dword0)
      (fieldGet cmdqTlbi1Leaf cmd.dword1) (cmd.dword1 &&& cmdqTlbi1VaMask))
  else if op = cmdqOpTlbiS2Ipa then
    some (.tlbiS2Ipa (fieldGet cmdqTlbi0Vmid cmd.dword0) (fieldGet cmdqTlbi1Leaf cmd.dword1)
      (cmd.dword1 &&& cmdqTlbi1IpaMask))
  else if op = cmdqOpTlbiNhAsid then
    some (.tlbiNhAsid (fieldGet cmdqTlbi0Asid cmd.dword0) (fieldGet cmdqTlbi0Vmid cmd.dword0))
  else if op = cmdqOpTlbiS12Vmall then some (.tlbiS12Vmall (fieldGet cmdqTlbi0Vmid cmd.dword0))
  else if op = cmdqOpCmdSync then
    some (.cmdSync (fieldGet cmdqSync0Cs cmd.dword0) (fieldGet cmdqSync0Msh cmd.dword0)
      (fieldGet cmdqSync0Msiattr cmd.dword0) (fieldGet cmdqSync0Msidata cmd.dword0)
      (cmd.dword1 &&& cmdqSync1MsiaddrMask))
  else none

/-- What the SMMU reads in the double words of a command. -/
def smmuCommand (cmd : SmmuCmd) : Option SmmuCommand :=
  smmuOperands ((fieldGet cmdq0Op cmd.dword0).setWidth 8) cmd

/-- What an entry asks for. -/
def ArmSmmuCmdqEnt.command (ent : ArmSmmuCmdqEnt) : Option SmmuCommand :=
  if ent.opcode = cmdqOpTlbiEl2All then some .tlbiEl2All
  else if ent.opcode = cmdqOpTlbiNsnhAll then some .tlbiNsnhAll
  else if ent.opcode = cmdqOpPrefetchAddr then
    some (.prefetchAddr ent.sid (ent.size &&& bitMaskLR 4 0) (ent.addr &&& cmdqPrefetch1AddrMask))
  else if ent.opcode = cmdqOpPrefetchCfg then some (.prefetchCfg ent.sid)
  else if ent.opcode = cmdqOpCfgiSte then some (.cfgiSte ent.sid ent.leaf)
  else if ent.opcode = cmdqOpCfgiAll then some (.cfgiAll 31)
  else if ent.opcode = cmdqOpTlbiNhVa then
    some (.tlbiNhVa ent.asid ent.vmid ent.leaf (ent.addr &&& cmdqTlbi1VaMask))
  else if ent.opcode = cmdqOpTlbiS2Ipa then
    some (.tlbiS2Ipa ent.vmid ent.leaf (ent.addr &&& cmdqTlbi1IpaMask))
  else if ent.opcode = cmdqOpTlbiNhAsid then some (.tlbiNhAsid ent.asid ent.vmid)
  else if ent.opcode = cmdqOpTlbiS12Vmall then some (.tlbiS12Vmall ent.vmid)
  else if ent.opcode = cmdqOpCmdSync then
    some (.cmdSync (if ent.addr = 0 then 2 else 1) 3 0xf ent.msidata
      (ent.addr &&& cmdqSync1MsiaddrMask))
  else none

variable {ent : ArmSmmuCmdqEnt} {cmd : SmmuCmd} {val reg addr : BitVec 64}
  {last first last' first' n : ℕ}

/-! ### Fields -/

/-- A value that has room keeps all its bits. -/
theorem setWidth_and_bitMaskLR (x : BitVec n) (hn : n ≤ last + 1) (hlast : last < 64) :
    x.setWidth 64 &&& bitMaskLR last 0 = x.setWidth 64 := by
  apply BitVec.eq_of_getLsbD_eq
  intro i hi
  rw [BitVec.getLsbD_and, getLsbD_bitMaskLR (Nat.zero_le _) hlast, BitVec.getLsbD_setWidth]
  by_cases hin : i < n
  · simp [show i ≤ last by omega]
  · simp [BitVec.getLsbD_of_ge x i (Nat.not_lt.mp hin)]

/-- An address in a mask does not show in a field below the mask. -/
@[simp] theorem fieldGet_and_bitMaskLR (hle : first ≤ last) (hlast : last < 64) (hle' : first' ≤ last')
    (hlast' : last' < 64) (hlt : last < first') :
    fieldGet (bitMaskLR last first) (addr &&& bitMaskLR last' first') = 0 := by
  apply BitVec.eq_of_getLsbD_eq
  intro i _
  rw [getLsbD_fieldGet hle hlast, BitVec.getLsbD_and, getLsbD_bitMaskLR hle' hlast']
  by_cases hi : i ≤ last - first
  · simp [show ¬(first' ≤ first + i ∧ first + i ≤ last') by omega]
  · simp [hi]

/-- A field below the mask of an address does not show in the address. -/
@[simp] theorem fieldPrep_and_bitMaskLR (hle : first ≤ last) (hlast : last < 64) (hle' : first' ≤ last')
    (hlast' : last' < 64) (hlt : last < first') :
    fieldPrep (bitMaskLR last first) val &&& bitMaskLR last' first' = 0 := by
  apply BitVec.eq_of_getLsbD_eq
  intro i _
  rw [BitVec.getLsbD_and, getLsbD_fieldPrep hle hlast, getLsbD_bitMaskLR hle' hlast']
  by_cases hi : first ≤ i ∧ i ≤ last
  · simp [show ¬(first' ≤ i ∧ i ≤ last') by omega]
  · simp [hi]

/-- An address in a mask comes out of the mask again, next to a field below it. -/
@[simp] theorem fieldPrep_or_and_bitMaskLR (hle : first ≤ last) (hlast : last < 64)
    (hle' : first' ≤ last') (hlast' : last' < 64) (hlt : last < first') :
    (fieldPrep (bitMaskLR last first) val ||| addr &&& bitMaskLR last' first') &&&
      bitMaskLR last' first' = addr &&& bitMaskLR last' first' := by
  rw [BitVec.and_or_distrib_right, fieldPrep_and_bitMaskLR hle hlast hle' hlast' hlt,
    BitVec.and_assoc, BitVec.and_self]
  exact BitVec.zero_or

/-- The opcode of a command is that of its entry, whatever else is in the command. -/
theorem setWidth_fieldGet_cmdq0Op (op : BitVec 8) (hrest : fieldGet cmdq0Op reg = 0) :
    (fieldGet cmdq0Op (fieldPrep cmdq0Op (op.setWidth 64) ||| reg)).setWidth 8 = op := by
  rw [fieldGet_or, hrest, cmdq0Op, fieldGet_fieldPrep (by decide) (by decide),
    setWidth_and_bitMaskLR _ (by decide) (by decide)]
  simp

theorem smmuCommand_mk (op : BitVec 8) (dword1 : BitVec 64) (hrest : fieldGet cmdq0Op reg = 0) :
    smmuCommand ⟨fieldPrep cmdq0Op (op.setWidth 64) ||| reg, dword1⟩ =
      smmuOperands op ⟨fieldPrep cmdq0Op (op.setWidth 64) ||| reg, dword1⟩ :=
  congrArg (smmuOperands · _) (setWidth_fieldGet_cmdq0Op op hrest)

@[simp] theorem ArmSmmuCmdqEnt.sid_and (ent : ArmSmmuCmdqEnt) : ent.sid &&& bitMaskLR 31 0 = ent.sid :=
  setWidth_and_bitMaskLR _ (by decide) (by decide)

@[simp] theorem ArmSmmuCmdqEnt.msidata_and (ent : ArmSmmuCmdqEnt) :
    ent.msidata &&& bitMaskLR 31 0 = ent.msidata :=
  setWidth_and_bitMaskLR _ (by decide) (by decide)

@[simp] theorem ArmSmmuCmdqEnt.asid_and (ent : ArmSmmuCmdqEnt) : ent.asid &&& bitMaskLR 15 0 = ent.asid :=
  setWidth_and_bitMaskLR _ (by decide) (by decide)

@[simp] theorem ArmSmmuCmdqEnt.vmid_and (ent : ArmSmmuCmdqEnt) : ent.vmid &&& bitMaskLR 15 0 = ent.vmid := by
  apply BitVec.eq_of_getLsbD_eq
  intro i hi
  rw [BitVec.getLsbD_and, getLsbD_bitMaskLR (by decide) (by decide), vmid, BitVec.getLsbD_setWidth,
    BitVec.getLsbD_ushiftRight]
  by_cases hi16 : i ≤ 15
  · simp [hi16]
  · simp [hi16, BitVec.getLsbD_of_ge ent.word (16 + i) (by omega)]

@[simp] theorem ArmSmmuCmdqEnt.leaf_and (ent : ArmSmmuCmdqEnt) : ent.leaf &&& bitMaskLR 0 0 = ent.leaf := by
  unfold ArmSmmuCmdqEnt.leaf
  split <;> decide

/-- A command of nothing but its opcode in the first double word. -/
theorem smmuCommand_op (op : BitVec 8) (dword1 : BitVec 64) :
    smmuCommand ⟨fieldPrep cmdq0Op (op.setWidth 64), dword1⟩ =
      smmuOperands op ⟨fieldPrep cmdq0Op (op.setWidth 64), dword1⟩ := by
  have hmk := smmuCommand_mk op dword1 (show fieldGet cmdq0Op 0#64 = 0 by simp [fieldGet])
  rwa [BitVec.or_zero] at hmk

/-- The SMMU reads in a built command what the entry asks for, and an entry that asks for nothing it
knows is not built. -/
theorem smmuCommand_build (ent : ArmSmmuCmdqEnt) :
    (armSmmuCmdqBuildCmd ent).map smmuCommand = ent.command.map some := by
  obtain ⟨op, word, byte, addr⟩ := ent
  by_cases hel2 : op = cmdqOpTlbiEl2All
  · subst hel2
    exact congrArg some (smmuCommand_op _ _)
  by_cases hnsnhAll : op = cmdqOpTlbiNsnhAll
  · subst hnsnhAll
    exact congrArg some (smmuCommand_op _ _)
  by_cases hprefetchAddr : op = cmdqOpPrefetchAddr
  · subst hprefetchAddr
    show some (smmuCommand ⟨_ ||| _, _⟩) = some _
    rw [smmuCommand_mk _ _ (by simp)]
    show some (some (SmmuCommand.prefetchAddr _ _ _)) = some (some (SmmuCommand.prefetchAddr _ _ _))
    simp
  by_cases hprefetchCfg : op = cmdqOpPrefetchCfg
  · subst hprefetchCfg
    show some (smmuCommand ⟨_ ||| _, _⟩) = some _
    rw [smmuCommand_mk _ _ (by simp)]
    show some (some (SmmuCommand.prefetchCfg _)) = some (some (SmmuCommand.prefetchCfg _))
    simp
  by_cases hcfgiSte : op = cmdqOpCfgiSte
  · subst hcfgiSte
    show some (smmuCommand ⟨_ ||| _, _⟩) = some _
    rw [smmuCommand_mk _ _ (by simp)]
    show some (some (SmmuCommand.cfgiSte _ _)) = some (some (SmmuCommand.cfgiSte _ _))
    simp
  by_cases hcfgiAll : op = cmdqOpCfgiAll
  · subst hcfgiAll
    refine congrArg some ((smmuCommand_op _ _).trans ?_)
    show some (SmmuCommand.cfgiAll _) = some (SmmuCommand.cfgiAll _)
    simp only [cmdqCfgi1Range, fieldGet_fieldPrep (show 0 ≤ 4 by decide) (show 4 < 64 by decide)]
    decide
  by_cases hnhVa : op = cmdqOpTlbiNhVa
  · subst hnhVa
    show some (smmuCommand ⟨_ ||| _, _⟩) = some _
    rw [BitVec.or_assoc, smmuCommand_mk _ _ (by simp)]
    show some (some (SmmuCommand.tlbiNhVa _ _ _ _)) = some (some (SmmuCommand.tlbiNhVa _ _ _ _))
    simp
  by_cases hs2Ipa : op = cmdqOpTlbiS2Ipa
  · subst hs2Ipa
    show some (smmuCommand ⟨_ ||| _, _⟩) = some _
    rw [smmuCommand_mk _ _ (by simp)]
    show some (some (SmmuCommand.tlbiS2Ipa _ _ _)) = some (some (SmmuCommand.tlbiS2Ipa _ _ _))
    simp
  by_cases hnhAsid : op = cmdqOpTlbiNhAsid
  · subst hnhAsid
    show some (smmuCommand ⟨_ ||| _, _⟩) = some _
    rw [BitVec.or_assoc, smmuCommand_mk _ _ (by simp)]
    show some (some (SmmuCommand.tlbiNhAsid _ _)) = some (some (SmmuCommand.tlbiNhAsid _ _))
    simp
  by_cases hs12 : op = cmdqOpTlbiS12Vmall
  · subst hs12
    show some (smmuCommand ⟨_ ||| _, _⟩) = some _
    rw [smmuCommand_mk _ _ (by simp)]
    show some (some (SmmuCommand.tlbiS12Vmall _)) = some (some (SmmuCommand.tlbiS12Vmall _))
    simp
  by_cases hsync : op = cmdqOpCmdSync
  · subst hsync
    show some (smmuCommand ⟨_ ||| _, _⟩) = some _
    rw [BitVec.or_assoc, smmuCommand_mk _ _ (by simp)]
    show some (some (SmmuCommand.cmdSync _ _ _ _ _)) = some (some (SmmuCommand.cmdSync _ _ _ _ _))
    have hcs : (if addr = 0#64 then 2#64 else 1#64) &&& bitMaskLR 1 0 =
        if addr = 0#64 then 2#64 else 1#64 := by
      split <;> decide
    have hmsh : 3#64 &&& bitMaskLR 1 0 = 3#64 := by decide
    have hmsiattr : 15#64 &&& bitMaskLR 3 0 = 15#64 := by decide
    simp [hcs, hmsh, hmsiattr, BitVec.and_assoc]
  simp [armSmmuCmdqBuildCmd, ArmSmmuCmdqEnt.command, *]

end Avisor
