import Avisor.Data.Bits

/-!
# The distributor

The registers of the GIC that `gic.c`, `gicv2.c` and `gicv3.c` set up, and the accessors of the ones with a
byte for each interrupt. Four interrupts share such a register. What `ICENABLER`, `ICPENDR` and `ICACTIVER`
clear are the states themselves here, and a register array is a function: indices past it stand for what
lies behind.
-/

namespace Avisor

open Function

/-! ### Numbers of `gic.h` -/

/-- `GIC_VERSION`. -/
inductive GicVersion
  | v2
  | v3
  deriving DecidableEq, Repr

/-- `GIC_MAX_SGIS`. -/
def gicMaxSgis : Nat := 16

/-- `GIC_CPU_PRIV`. -/
def gicCpuPriv : Nat := 32

/-- `GIC_MAX_VALID_INTERRUPTS`. -/
def gicMaxValidInterrupts : Nat := 1020

/-- `GIC_LOWEST_PRIO`. -/
def gicLowestPrio : BitVec 8 := 0xff

/-- `MPIDR_AFF_MSK`. -/
def mpidrAffMsk : BitVec 64 := 0xffff

/-- `GICD_IROUTER_INV`. -/
def gicdIrouterInv : BitVec 64 := ~~~mpidrAffMsk

/-- `GICD_IROUTER_IRM_BIT`. -/
def gicdIrouterIrmBit : BitVec 64 := 1#64 <<< 31

/-- `GICD_IROUTER_RES0_MSK`. -/
def gicdIrouterRes0Msk : BitVec 64 := (1#64 <<< 40) - 1

def gicIsSgi (intId : Nat) : Bool := intId < gicMaxSgis

def gicIsPriv (intId : Nat) : Bool := intId < gicCpuPriv

/-- `GIC_MAX_INTERUPTS`. -/
def gicMaxInterupts : Nat := 1024

/-- `GIC_PRIO_BITS`. -/
def gicPrioBits : Nat := 8

/-- `GIC_TARGET_BITS`. -/
def gicTargetBits : Nat := 8

/-- `GIC_INT_REG`. -/
def gicIntReg (nint : Nat) : Nat := nint / 32

/-- `GIC_PRIO_REG`. -/
def gicPrioReg (nint : Nat) : Nat := nint * gicPrioBits / 32

/-- `GIC_PRIO_OFF`. -/
def gicPrioOff (nint : Nat) : Nat := nint * gicPrioBits % 32

/-- `GIC_TARGET_REG`. -/
def gicTargetReg (nint : Nat) : Nat := nint * gicTargetBits / 32

/-- `GIC_TARGET_OFF`. -/
def gicTargetOff (nint : Nat) : Nat := nint * gicTargetBits % 32

/-! ### Registers -/

/-- `struct gicd_hw`: the enable, pending and active bits, and the registers that are written. -/
structure GicdHw where
  ctlr : BitVec 32
  typer : BitVec 32
  igroupr : Nat → BitVec 32
  enabled : Nat → BitVec 32
  pending : Nat → BitVec 32
  active : Nat → BitVec 32
  ipriorityr : Nat → BitVec 32
  itargetsr : Nat → BitVec 32
  irouter : Nat → BitVec 64
  sgir : BitVec 32

/-- `struct gicr_hw`, of which the priorities matter here. -/
structure GicrHw where
  ipriorityr : Nat → BitVec 32

/-- A field of a register is replaced: `(reg & ~mask) | ((val << off) & mask)`. -/
def putField (reg : BitVec 32) (val : BitVec 32) (off len : Nat) : BitVec 32 :=
  (reg &&& ~~~bit32Mask off len) ||| ((val <<< off) &&& bit32Mask off len)

/-- The mask in these reads is that of the field in its place, after the field was shifted to bit 0. -/
def prioRead (ipriorityr : Nat → BitVec 32) (intId : Nat) : BitVec 8 :=
  ((ipriorityr (gicPrioReg intId) >>> gicPrioOff intId) &&&
    bit32Mask (gicPrioOff intId) gicPrioBits).setWidth 8

def prioWrite (ipriorityr : Nat → BitVec 32) (intId : Nat) (prio : BitVec 8) : Nat → BitVec 32 :=
  update ipriorityr (gicPrioReg intId)
    (putField (ipriorityr (gicPrioReg intId)) (prio.setWidth 32) (gicPrioOff intId) gicPrioBits)

/-- `gicd_get_prio`. -/
def gicdGetPrio (gicd : GicdHw) (intId : Nat) : BitVec 8 := prioRead gicd.ipriorityr intId

/-- `gicd_set_prio`. -/
def gicdSetPrio (gicd : GicdHw) (intId : Nat) (prio : BitVec 8) : GicdHw :=
  { gicd with ipriorityr := prioWrite gicd.ipriorityr intId prio }

/-- `gicr_get_prio`. -/
def gicrGetPrio (gicr : Nat → GicrHw) (intId gicrId : Nat) : BitVec 8 :=
  prioRead (gicr gicrId).ipriorityr intId

/-- `gicr_set_prio`. -/
def gicrSetPrio (gicr : Nat → GicrHw) (intId : Nat) (prio : BitVec 8) (gicrId : Nat) : Nat → GicrHw :=
  update gicr gicrId { ipriorityr := prioWrite (gicr gicrId).ipriorityr intId prio }

/-! ### One byte for each interrupt -/

/-- The byte of an interrupt in registers with four bytes each. -/
def byteOf (regs : Nat → BitVec 32) (id : Nat) : BitVec 8 :=
  (regs (id / 4)).extractLsb' (8 * (id % 4)) 8

variable {regs : Nat → BitVec 32} {id id' k : Nat}

theorem getLsbD_putField {reg val : BitVec 32} {off len : Nat} (hlen : 1 ≤ len) (hfit : off + len ≤ 32)
    (hk : k < 32) : (putField reg val off len).getLsbD k =
      if off ≤ k ∧ k < off + len then val.getLsbD (k - off) else reg.getLsbD k := by
  rw [putField, BitVec.getLsbD_or, BitVec.getLsbD_and, BitVec.getLsbD_and, BitVec.getLsbD_not,
    BitVec.getLsbD_shiftLeft, getLsbD_bit32Mask hlen hfit hk]
  by_cases hin : off ≤ k ∧ k < off + len
  · have hge : ¬k < off := by omega
    simp [hin, hk, hge]
  · simp [hin, hk]

theorem gicPrio_place (id : Nat) : gicPrioReg id = id / 4 ∧ gicPrioOff id = 8 * (id % 4) := by
  simp only [gicPrioReg, gicPrioOff, gicPrioBits]
  omega

/-- The byte of one interrupt is written. -/
theorem byteOf_update (regs : Nat → BitVec 32) (id : Nat) (v : BitVec 32) :
    byteOf (update regs (id / 4) (putField (regs (id / 4)) v (8 * (id % 4)) 8)) =
      update (byteOf regs) id (v.setWidth 8) := by
  funext id'
  apply BitVec.eq_of_getLsbD_eq
  intro k hk
  by_cases hid : id' = id
  · subst hid
    rw [byteOf, update_self, update_self, BitVec.getLsbD_extractLsb', getLsbD_putField (by omega)
      (by omega) (by omega), if_pos (by omega), Nat.add_sub_cancel_left, BitVec.getLsbD_setWidth]
  · rw [update_of_ne hid, byteOf, byteOf]
    by_cases hreg : id' / 4 = id / 4
    · rw [hreg, update_self, BitVec.getLsbD_extractLsb', BitVec.getLsbD_extractLsb', getLsbD_putField
        (by omega) (by omega) (by omega), if_neg (by omega)]
    · rw [update_of_ne hreg]

/-- What a priority is read as: only the first interrupt of a register has one. -/
theorem prioRead_eq (regs : Nat → BitVec 32) (id : Nat) :
    prioRead regs id = if id % 4 = 0 then byteOf regs id else 0 := by
  obtain ⟨hreg, hoff⟩ := gicPrio_place id
  apply BitVec.eq_of_getLsbD_eq
  intro k hk
  rw [prioRead, hreg, hoff, BitVec.getLsbD_setWidth, BitVec.getLsbD_and, BitVec.getLsbD_ushiftRight,
    gicPrioBits, getLsbD_bit32Mask (by omega) (by omega) (by omega)]
  by_cases hfirst : id % 4 = 0
  · rw [if_pos hfirst, byteOf, BitVec.getLsbD_extractLsb', hfirst]
    simp [hk]
  · have hbelow : ¬(8 * (id % 4) ≤ k ∧ k < 8 * (id % 4) + 8) := by omega
    rw [if_neg hfirst, decide_eq_false hbelow]
    simp

theorem byteOf_prioWrite (regs : Nat → BitVec 32) (id : Nat) (p : BitVec 8) :
    byteOf (prioWrite regs id p) = update (byteOf regs) id p := by
  obtain ⟨hreg, hoff⟩ := gicPrio_place id
  have hwidth : (p.setWidth 32).setWidth 8 = p := BitVec.setWidth_setWidth_of_le p (by omega)
  rw [prioWrite, hreg, hoff, gicPrioBits, byteOf_update, hwidth]

/-! ### Priorities -/

/-- What a setter for the field of `id` is for: the getter, `get` before and `get'` after, returns the value
for `id` and what it did for all others below `bound`. -/
def InverseAndLocal (get get' : Nat → BitVec 8) (bound id : Nat) (v : BitVec 8) : Prop :=
  get' id = v ∧ ∀ id' < bound, id' ≠ id → get' id' = get id'

theorem prioWrite_inverse_iff (regs : Nat → BitVec 32) (bound id : Nat) (p : BitVec 8) :
    InverseAndLocal (prioRead regs) (prioRead (prioWrite regs id p)) bound id p ↔ id % 4 = 0 ∨ p = 0 := by
  have hlocal (id' : Nat) (hne : id' ≠ id) : prioRead (prioWrite regs id p) id' = prioRead regs id' := by
    rw [prioRead_eq, prioRead_eq, byteOf_prioWrite, update_of_ne hne]
  have hget : prioRead (prioWrite regs id p) id = if id % 4 = 0 then p else 0 := by
    rw [prioRead_eq, byteOf_prioWrite, update_self]
  rw [InverseAndLocal, hget, and_iff_left fun id' _ => hlocal id']
  by_cases hfirst : id % 4 = 0
  · rw [if_pos hfirst]
    exact iff_of_true rfl (.inl hfirst)
  · rw [if_neg hfirst, or_iff_right hfirst]
    exact eq_comm

/-- The priority accessors are inverse for the first interrupt of a register and for the priority 0. -/
theorem setPrio_inverse_iff (gicd : GicdHw) (gicr : Nat → GicrHw) (gicrId id : Nat) (p : BitVec 8) :
    (InverseAndLocal (gicdGetPrio gicd) (gicdGetPrio (gicdSetPrio gicd id p)) gicMaxInterupts id p ↔
      id % 4 = 0 ∨ p = 0) ∧
    (InverseAndLocal (fun i => gicrGetPrio gicr i gicrId)
        (fun i => gicrGetPrio (gicrSetPrio gicr id p gicrId) i gicrId) gicCpuPriv id p ↔
      id % 4 = 0 ∨ p = 0) := by
  constructor
  · exact prioWrite_inverse_iff gicd.ipriorityr _ id p
  · unfold gicrGetPrio gicrSetPrio
    rw [update_self]
    exact prioWrite_inverse_iff (gicr gicrId).ipriorityr _ id p

/-- The distributor with all its registers zero, for interrupts up to `32 * (itln + 1)`. -/
def GicdHw.zero (itln : Nat) : GicdHw where
  ctlr := 0
  typer := BitVec.ofNat 32 itln
  igroupr := fun _ => 0
  enabled := fun _ => 0
  pending := fun _ => 0
  active := fun _ => 0
  ipriorityr := fun _ => 0
  itargetsr := fun _ => 0
  irouter := fun _ => 0
  sgir := 0

/-- The priority of interrupt 33 is read as 0. -/
theorem setPrio_not_inverse : ¬∀ (gicd : GicdHw) (id : Nat) (p : BitVec 8), id < gicMaxInterupts →
    InverseAndLocal (gicdGetPrio gicd) (gicdGetPrio (gicdSetPrio gicd id p)) gicMaxInterupts id p := by
  intro hall
  have hget := (hall (.zero 1) 33 0x80 (by decide)).1
  exact absurd hget (by decide)

end Avisor
