import Avisor.Data.Bits
import Avisor.Mem.StageTwo

/-!
# The SMMU

The registers of an SMMUv2 with the book-keeping of `arch/aarch64/smmuv2.c`. The functions run one after
another here, so their locks do not show. A register array is a function, as a bitmap is: indices past
the array stand for what lies behind it. `none` is the loop of an `ERROR`.
-/

namespace Avisor

open Function

/-- `SME_MAX_NUM`. -/
def smeMaxNum : Nat := 128

/-- `CTX_MAX_NUM`. -/
def ctxMaxNum : Nat := 128

/-! ### Register fields -/

/-- `SMMU_SMR_ID`. -/
def smmuSmrId (smr : BitVec 32) : BitVec 32 := bit32Extract smr 0 15

/-- `SMMU_ID_MSK`. -/
def smmuIdMsk : BitVec 32 := bit32Mask 0 15

/-- `SMMU_SMR_MASK_OFF`. -/
def smmuSmrMaskOff : Nat := 16

/-- `SMMU_SMR_MASK`. -/
def smmuSmrMask (smr : BitVec 32) : BitVec 32 := bit32Extract smr smmuSmrMaskOff 15

/-- `SMMUV2_SMR_VALID`. -/
def smmuv2SmrValid : BitVec 32 := 1#32 <<< 31

/-- `S2CR_IMPL_MASK`. -/
def s2crImplMask : BitVec 32 := bit32Mask 30 2

/-- `S2CR_CBNDX_MASK`. -/
def s2crCbndxMask : BitVec 32 := bit32Mask 0 8

/-- `S2CR_CBNDX`. -/
def s2crCbndx (s2cr : BitVec 32) : BitVec 32 := bit32Extract s2cr 0 8

/-- `S2CR_CLEAR`. -/
def s2crClear (s2cr : BitVec 32) : BitVec 32 := s2cr &&& s2crImplMask

/-- `S2CR_DFLT`. -/
def s2crDflt : BitVec 32 := 0

/-! ### The state -/

/-- `smmu`: the registers that its functions use, and the book-keeping. -/
structure Smmu where
  idr0 : BitVec 32
  idr1 : BitVec 32
  idr2 : BitVec 32
  idr7 : BitVec 32
  cr0 : BitVec 32
  smr : Nat → BitVec 32
  s2cr : Nat → BitVec 32
  cbar : Nat → BitVec 32
  cba2r : Nat → BitVec 32
  sctlr : Nat → BitVec 32
  ttbr0 : Nat → BitVec 64
  tcr : Nat → BitVec 32
  fsr : Nat → BitVec 32
  smeNum : Nat
  smeBitmap : Bitmap
  grpBitmap : Bitmap
  ctxNum : Nat
  ctxbankBitmap : Bitmap

variable {s t : Smmu}

/-- `smmu_sme_is_group`. -/
def smmuSmeIsGroup (s : Smmu) (sme : Nat) : Bool := bitmapGet s.grpBitmap sme

/-- `smmu_sme_get_ctx`. -/
def smmuSmeGetCtx (s : Smmu) (sme : Nat) : Nat := (s2crCbndx (s.s2cr sme)).toNat

/-- `smmu_sme_get_id`. -/
def smmuSmeGetId (s : Smmu) (sme : Nat) : BitVec 32 := smmuSmrId (s.smr sme)

/-- `smmu_sme_get_mask`. -/
def smmuSmeGetMask (s : Smmu) (sme : Nat) : BitVec 32 := smmuSmrMask (s.smr sme)

/-! ### The start -/

/-- `smmu_check_features`: whether it comes to no `ERROR`. -/
def smmuCheckFeatures (parange : Nat) (s : Smmu) : Bool :=
  bit32Extract s.idr7 4 4 = 2 ∧ s.idr0 &&& (1 <<< 30) ≠ 0 ∧ s.idr0 &&& (1 <<< 27) ≠ 0 ∧
    s.idr0 &&& (1 <<< 13) ≠ 0 ∧ s.idr2 &&& (1 <<< 12) ≠ 0 ∧
    parange ≤ (bit32Extract s.idr2 4 4).toNat ∧ parange ≤ (bit32Extract s.idr2 0 4).toNat

/-- `SMMUV2_CR0_CLEAR`. -/
def smmuv2Cr0Clear (cr0 : BitVec 32) : BitVec 32 := cr0 &&& ((3 <<< 30) ||| (1 <<< 11))

/-- `smmu_init`. -/
def smmuInit (parange : Nat) (s : Smmu) : Option Smmu :=
  if smmuCheckFeatures parange s then
    let ctxNum := (bit32Extract s.idr1 0 8).toNat
    let smeNum := (s.idr0 &&& 0xFF).toNat
    some { s with
      ctxNum := ctxNum
      ctxbankBitmap := bitmapClearConsecutive s.ctxbankBitmap 0 ctxNum
      smeNum := smeNum
      smeBitmap := bitmapClearConsecutive s.smeBitmap 0 smeNum
      grpBitmap := bitmapClearConsecutive s.grpBitmap 0 smeNum
      smr := fun i => if i < smeNum then 0 else s.smr i
      sctlr := fun i => if i < ctxNum then 0 else s.sctlr i
      fsr := fun i => if i < ctxNum then -1 else s.fsr i
      cr0 := (smmuv2Cr0Clear s.cr0 ||| ((1 <<< 10) ||| (1 <<< 21))) &&& ~~~1 }
  else none

/-! ### Context banks -/

/-- `smmu_alloc_ctxbnk`. A `size_t` is never below 0, so a search that fails marks bit `-1`. -/
def smmuAllocCtxbnk (s : Smmu) : Nat × Smmu :=
  let nth := bitmapFindNth s.ctxbankBitmap s.ctxNum 1 0 false
  if 0 ≤ nth then (nth, { s with ctxbankBitmap := bitmapSet s.ctxbankBitmap nth }) else (nth, s)

/-- `parange_table[parange]`, for one of its indices. -/
def parangeBits (parange : Nat) : Nat := parangeTable.getD parange 0

/-- `smmu_cb_ttba_offset`. -/
def smmuCbTtbaOffset (parange t0sz : Nat) : Nat :=
  if parangeBits parange < 44 then if 21 ≤ t0sz ∧ t0sz ≤ 33 then 37 - t0sz else 12
  else if 16 ≤ t0sz ∧ t0sz ≤ 24 then 28 - t0sz else 12

/-- `SMMUV2_CB_TTBA`. -/
def smmuv2CbTtba (x : Nat) : BitVec 64 := bit64Mask x (48 - x)

/-- The `TCR` of a context bank. -/
def smmuTcr (parange : Nat) : BitVec 32 :=
  (BitVec.ofNat 32 parange <<< 16 &&& 0x7 <<< 16) ||| (0 <<< 14) ||| (1 <<< 10) ||| (1 <<< 8) |||
    (BitVec.ofNat 32 (64 - parangeBits parange) &&& 0x1F) ||| (3 <<< 12) |||
    if parangeBits parange < 44 then 1 <<< 6 else 2 <<< 6

/-- `SMMUV2_SCTLR_CLEAR`. -/
def smmuv2SctlrClear (sctlr : BitVec 32) : BitVec 32 :=
  sctlr &&& ((0xF <<< 28) ||| (1 <<< 20) ||| (0xF <<< 9) ||| (1 <<< 11))

/-- `SMMUV2_SCTLR_DEFAULT`. -/
def smmuv2SctlrDefault : BitVec 32 := (1 <<< 7) ||| 1

/-- The root of the tables as `TTBR0` of a context bank keeps it. -/
def smmuTtbr0 (parange : Nat) (rootPt : BitVec 64) : BitVec 64 :=
  rootPt &&& smmuv2CbTtba (smmuCbTtbaOffset parange (64 - parangeBits parange))

/-- `SMMUV2_CBAR_VMID`. -/
def smmuv2CbarVmid (vmId : BitVec 64) : BitVec 32 := (vmId &&& 0xFF).setWidth 32

/-- `smmu_write_ctxbnk`. -/
def smmuWriteCtxbnk (parange : Nat) (s : Smmu) (ctxId : Nat) (rootPt vmId : BitVec 64) :
    Option Smmu :=
  if bitmapGet s.ctxbankBitmap ctxId then
    let sctlr := smmuv2SctlrClear (s.sctlr ctxId) ||| smmuv2SctlrDefault
    some { s with
      cbar := update s.cbar ctxId (smmuv2CbarVmid vmId)
      cba2r := update s.cba2r ctxId 1
      tcr := update s.tcr ctxId (smmuTcr parange)
      ttbr0 := update s.ttbr0 ctxId (smmuTtbr0 parange rootPt)
      sctlr := update s.sctlr ctxId (s.sctlr ctxId ||| sctlr) }
  else none

/-! ### Stream match entries -/

/-- `smmu_alloc_sme`, as careless with `-1` as `smmu_alloc_ctxbnk`. -/
def smmuAllocSme (s : Smmu) : Nat × Smmu :=
  let nth := bitmapFindNth s.smeBitmap s.smeNum 1 0 false
  if 0 ≤ nth then (nth, { s with smeBitmap := bitmapSet s.smeBitmap nth }) else (nth, s)

/-- The loop of `smmu_compatible_sme_exists`: `left` more entries from `sme` on. -/
def smmuCompatibleLoop (mask id : BitVec 32) (ctx : Nat) (group : Bool) :
    Smmu → Nat → Nat → Option (Bool × Smmu)
  | s, 0, _ => some (false, s)
  | s, left + 1, sme =>
    if bitmapGet s.smeBitmap sme then
      let smeMask := smmuSmeGetMask s sme
      let maskR := mask &&& smeMask
      let diffId := (smmuSmeGetId s sme ^^^ id) &&& ~~~(mask ||| smeMask)
      if diffId = 0 then
        if (group ∨ smmuSmeIsGroup s sme) ∧ (maskR = mask ∨ maskR = smeMask) ∧
            ctx = smmuSmeGetCtx s sme then
          if smeMask < mask then
            smmuCompatibleLoop mask id ctx group
              { s with smeBitmap := bitmapClear s.smeBitmap sme } left (sme + 1)
          else some (true, s)
        else none
      else smmuCompatibleLoop mask id ctx group s left (sme + 1)
    else smmuCompatibleLoop mask id ctx group s left (sme + 1)

/-- `smmu_compatible_sme_exists`. -/
def smmuCompatibleSmeExists (s : Smmu) (mask id : BitVec 32) (ctx : Nat) (group : Bool) :
    Option (Bool × Smmu) :=
  smmuCompatibleLoop mask id ctx group s s.smeNum 0

/-- The word that `smmu_write_sme` writes. -/
def smmuSmr (mask id : BitVec 32) : BitVec 32 :=
  (mask <<< smmuSmrMaskOff) ||| (id &&& smmuIdMsk) ||| smmuv2SmrValid

/-- `smmu_write_sme`. -/
def smmuWriteSme (s : Smmu) (sme : Nat) (mask id : BitVec 32) (group : Bool) : Option Smmu :=
  if bitmapGet s.smeBitmap sme then
    some { s with
      smr := update s.smr sme (smmuSmr mask id)
      grpBitmap := if group then bitmapSet s.grpBitmap sme else s.grpBitmap }
  else none

/-- The word that `smmu_write_s2c` writes. -/
def smmuS2cr (s2cr : BitVec 32) (ctxId : Nat) : BitVec 32 :=
  s2crClear s2cr ||| s2crDflt ||| (BitVec.ofNat 32 ctxId &&& s2crCbndxMask)

/-- `smmu_write_s2c`. -/
def smmuWriteS2c (s : Smmu) (sme ctxId : Nat) : Option Smmu :=
  if bitmapGet s.ctxbankBitmap ctxId then
    if bitmapGet s.smeBitmap sme then
      some { s with s2cr := update s.s2cr sme (smmuS2cr (s.s2cr sme) ctxId) }
    else none
  else none

/-! ### The fields of the words written -/

theorem getLsbD_smmuIdMsk {k : Nat} (hk : k < 32) : smmuIdMsk.getLsbD k = decide (k < 15) := by
  rw [smmuIdMsk, getLsbD_bit32Mask (by omega) (by omega) hk]
  simp

theorem getLsbD_smmuSmr {mask id : BitVec 32} {k : Nat} (hk : k < 32) :
    (smmuSmr mask id).getLsbD k =
      ((!decide (k < 16) && mask.getLsbD (k - 16)) || (id.getLsbD k && decide (k < 15)) ||
        decide (k = 31)) := by
  have hvalid : smmuv2SmrValid.getLsbD k = decide (k = 31) := by
    rw [smmuv2SmrValid, getLsbD_bit hk]
  rw [smmuSmr, BitVec.getLsbD_or, BitVec.getLsbD_or, BitVec.getLsbD_shiftLeft, BitVec.getLsbD_and,
    getLsbD_smmuIdMsk hk, hvalid]
  simp only [smmuSmrMaskOff, hk, decide_true, Bool.true_and]
  rfl

/-- The id that is read back. -/
theorem smmuSmrId_smmuSmr (mask id : BitVec 32) : smmuSmrId (smmuSmr mask id) = id &&& smmuIdMsk := by
  apply BitVec.eq_of_getLsbD_eq
  intro k hk
  rw [smmuSmrId, getLsbD_bit32Extract (by omega) (by omega) hk, Nat.zero_add, getLsbD_smmuSmr hk,
    BitVec.getLsbD_and, getLsbD_smmuIdMsk hk]
  by_cases h : k < 15
  · simp [h, show k < 16 by omega, show k ≠ 31 by omega]
  · simp [h]

/-- The mask that is read back. -/
theorem smmuSmrMask_smmuSmr (mask id : BitVec 32) :
    smmuSmrMask (smmuSmr mask id) = mask &&& smmuIdMsk := by
  apply BitVec.eq_of_getLsbD_eq
  intro k hk
  rw [smmuSmrMask, getLsbD_bit32Extract (by omega) (by omega) hk, smmuSmrMaskOff,
    BitVec.getLsbD_and, getLsbD_smmuIdMsk hk]
  by_cases h : k < 15
  · rw [getLsbD_smmuSmr (by omega)]
    simp [h, show ¬16 + k < 15 by omega, show 16 + k ≠ 31 by omega]
  · simp [h]

theorem smmuSmr_valid (mask id : BitVec 32) : smmuSmr mask id &&& smmuv2SmrValid ≠ 0 := by
  intro h
  have hbit := congrArg (fun x => BitVec.getLsbD x 31) h
  rw [BitVec.getLsbD_and, getLsbD_smmuSmr (by omega)] at hbit
  simp [smmuv2SmrValid] at hbit

/-- The context that is read back. -/
theorem s2crCbndx_smmuS2cr (s2cr : BitVec 32) {ctxId : Nat} (h : ctxId < 256) :
    (s2crCbndx (smmuS2cr s2cr ctxId)).toNat = ctxId := by
  have hword : s2crCbndx (smmuS2cr s2cr ctxId) = BitVec.ofNat 32 ctxId := by
    apply BitVec.eq_of_getLsbD_eq
    intro k hk
    have hbig : ¬k < 8 → ctxId.testBit k = false := by
      intro hk8
      apply Nat.testBit_lt_two_pow
      calc ctxId < 2 ^ 8 := h
        _ ≤ 2 ^ k := Nat.pow_le_pow_right (by omega) (by omega)
    rw [s2crCbndx, getLsbD_bit32Extract (by omega) (by omega) hk, Nat.zero_add, smmuS2cr, s2crClear,
      s2crDflt, s2crImplMask, s2crCbndxMask, BitVec.getLsbD_or, BitVec.getLsbD_or, BitVec.getLsbD_and,
      BitVec.getLsbD_and, getLsbD_bit32Mask (by omega) (by omega) hk,
      getLsbD_bit32Mask (by omega) (by omega) hk, BitVec.getLsbD_ofNat]
    by_cases h8 : k < 8
    · simp [h8, show ¬30 ≤ k by omega]
    · simp [h8, hbig h8]
  rw [hword, BitVec.toNat_ofNat]
  exact Nat.mod_eq_of_lt (by omega)

end Avisor
