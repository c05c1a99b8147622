import Avisor.Gic.Distributor
import Avisor.Data.Types

/-!
# `gicd_init`

The loops of `gicd_init` over the shared interrupts. `gic_num_irqs` is one more than a multiple of 32, where
`GICD_TYPER` tells of 32 interrupts more than that multiple: the bounds of the loops are the ones for the
multiple, and the last block of interrupts is left as it was found.
-/

namespace Avisor

open Function

/-- `gic_num_irqs`. -/
def gicNumIrqs (gicd : GicdHw) : Nat := 32 * (bit32Extract gicd.typer 0 5).toNat + 1

/-- A loop that writes a register for each index from `i` on; `left` indices are left. -/
def forRegs (body : GicdHw → Nat → GicdHw) : Nat → Nat → GicdHw → GicdHw
  | 0, _, gicd => gicd
  | left + 1, i, gicd => forRegs body left (i + 1) (body gicd i)

/-- A value written to `ICENABLER`, `ICPENDR` or `ICACTIVER` clears the bits that are set in it. -/
def writeClear (state : Nat → BitVec 32) (i : Nat) (val : BitVec 32) : Nat → BitVec 32 :=
  update state i (state i &&& ~~~val)

/-- The body of the first loop of `gicd_init`. -/
def gicdInitState (gicd : GicdHw) (i : Nat) : GicdHw :=
  { gicd with
    igroupr := update gicd.igroupr i (-1)
    enabled := writeClear gicd.enabled i (-1)
    pending := writeClear gicd.pending i (-1)
    active := writeClear gicd.active i (-1) }

/-- The body of the loop over the priorities. -/
def gicdInitPrio (gicd : GicdHw) (i : Nat) : GicdHw :=
  { gicd with ipriorityr := update gicd.ipriorityr i (-1) }

/-- The body of the loop over the targets. -/
def gicdInitTarget (gicd : GicdHw) (i : Nat) : GicdHw :=
  { gicd with itargetsr := update gicd.itargetsr i 0 }

/-- The body of the loop over the routes. -/
def gicdInitRoute (gicd : GicdHw) (i : Nat) : GicdHw :=
  { gicd with irouter := update gicd.irouter i gicdIrouterInv }

/-- `gicd_init`, up to the handler it reserves for the maintenance interrupt. -/
def gicdInit (version : GicVersion) (gicd : GicdHw) : GicdHw :=
  let intNum := gicNumIrqs gicd
  let gicd := forRegs gicdInitState (gicIntReg intNum - gicCpuPriv / 32) (gicCpuPriv / 32) gicd
  let gicd := forRegs gicdInitPrio (gicPrioReg intNum - gicPrioReg gicCpuPriv) (gicPrioReg gicCpuPriv) gicd
  match version with
  | .v2 =>
    let gicd := forRegs gicdInitTarget (gicTargetReg intNum - gicTargetReg gicCpuPriv)
      (gicTargetReg gicCpuPriv) gicd
    -- `GICD_CTLR_EN_BIT`
    { gicd with ctlr := gicd.ctlr ||| 0x1 }
  | .v3 =>
    let gicd := forRegs gicdInitRoute (gicMaxInterupts - gicCpuPriv) gicCpuPriv gicd
    -- `GICD_CTLR_ARE_NS_BIT | GICD_CTLR_ENA_BIT`
    { gicd with ctlr := gicd.ctlr ||| (0x10 ||| 0x2) }

/-- `GICD_TYPER_ITLN` of the distributor. -/
def GicdHw.itLinesNumber (gicd : GicdHw) : Nat := (bit32Extract gicd.typer 0 5).toNat

/-- An interrupt is disabled, not pending, not active, of the lowest priority and, with GICv2, without a
target. -/
structure Silenced (version : GicVersion) (gicd : GicdHw) (id : Nat) : Prop where
  disabled : (gicd.enabled (gicIntReg id)).getLsbD (id % 32) = false
  notPending : (gicd.pending (gicIntReg id)).getLsbD (id % 32) = false
  notActive : (gicd.active (gicIntReg id)).getLsbD (id % 32) = false
  lowestPrio : byteOf gicd.ipriorityr id = gicLowestPrio
  noTarget : version = .v2 → byteOf gicd.itargetsr id = 0

variable {α : Type} {version : GicVersion} {id : Nat}

theorem writeClear_all (state : Nat → BitVec 32) (i : Nat) : writeClear state i (-1) = update state i 0 := by
  have hnone : state i &&& ~~~(-1 : BitVec 32) = 0 := BitVec.and_zero
  rw [writeClear, hnone]

/-- A loop sets a register array between its bounds. -/
theorem forRegs_sets (body : GicdHw → Nat → GicdHw) (f : GicdHw → Nat → α) {c : α}
    (hbody : ∀ gicd i, f (body gicd i) = update (f gicd) i c)
    (left i : Nat) (gicd : GicdHw) (j : Nat) :
    f (forRegs body left i gicd) j = if i ≤ j ∧ j < i + left then c else f gicd j := by
  induction left generalizing i gicd with
  | zero => rw [forRegs, if_neg (by omega)]
  | succ left ih =>
    rw [forRegs, ih, hbody]
    by_cases hj : j = i
    · subst hj
      rw [if_neg (by omega), if_pos (by omega), update_self]
    · rw [update_of_ne hj]
      have hiff : (i + 1 ≤ j ∧ j < i + 1 + left) ↔ i ≤ j ∧ j < i + (left + 1) := by omega
      simp only [hiff]

/-- A loop keeps what its body keeps. -/
theorem forRegs_keeps {β : Type} (body : GicdHw → Nat → GicdHw) (f : GicdHw → β)
    (hbody : ∀ gicd i, f (body gicd i) = f gicd) (left i : Nat) (gicd : GicdHw) :
    f (forRegs body left i gicd) = f gicd := by
  induction left generalizing i gicd with
  | zero => rfl
  | succ left ih => rw [forRegs, ih, hbody]

/-- The bounds of the loops. -/
theorem gicNumIrqs_regs (gicd : GicdHw) : gicIntReg (gicNumIrqs gicd) = gicd.itLinesNumber ∧
    gicPrioReg (gicNumIrqs gicd) = 8 * gicd.itLinesNumber ∧
    gicTargetReg (gicNumIrqs gicd) = 8 * gicd.itLinesNumber := by
  rw [gicNumIrqs, GicdHw.itLinesNumber]
  simp only [gicIntReg, gicPrioReg, gicTargetReg, gicPrioBits, gicTargetBits]
  omega

/-- What `gicd_init` leaves in the registers of the first `N` blocks but the private one, and in the
others. -/
structure Initialised (version : GicVersion) (gicd gicd' : GicdHw) : Prop where
  enabled : ∀ j, gicd'.enabled j = if 1 ≤ j ∧ j < gicd.itLinesNumber then 0 else gicd.enabled j
  pending : ∀ j, gicd'.pending j = if 1 ≤ j ∧ j < gicd.itLinesNumber then 0 else gicd.pending j
  active : ∀ j, gicd'.active j = if 1 ≤ j ∧ j < gicd.itLinesNumber then 0 else gicd.active j
  ipriorityr : ∀ j, gicd'.ipriorityr j =
    if 8 ≤ j ∧ j < 8 * gicd.itLinesNumber then -1 else gicd.ipriorityr j
  itargetsr : version = .v2 → ∀ j, gicd'.itargetsr j =
    if 8 ≤ j ∧ j < 8 * gicd.itLinesNumber then 0 else gicd.itargetsr j

/-- A last loop that leaves the states and the priorities alone. -/
theorem Initialised.last {gicd gicd' gicd'' : GicdHw} (h : Initialised .v3 gicd gicd')
    (henabled : gicd''.enabled = gicd'.enabled) (hpending : gicd''.pending = gicd'.pending)
    (hactive : gicd''.active = gicd'.active) (hprio : gicd''.ipriorityr = gicd'.ipriorityr)
    (htarget : version = .v2 → ∀ j, gicd''.itargetsr j =
      if 8 ≤ j ∧ j < 8 * gicd.itLinesNumber then 0 else gicd.itargetsr j) :
    Initialised version gicd gicd'' where
  enabled := henabled ▸ h.enabled
  pending := hpending ▸ h.pending
  active := hactive ▸ h.active
  ipriorityr := hprio ▸ h.ipriorityr
  itargetsr := htarget

/-- The two loops of both versions. -/
theorem initialised_loops (gicd : GicdHw) (n : Nat) (hn : n = gicd.itLinesNumber) :
    Initialised .v3 gicd
      (forRegs gicdInitPrio (8 * n - 8) 8 (forRegs gicdInitState (n - 1) 1 gicd)) := by
  subst hn
  have hbound (j : Nat) : (1 ≤ j ∧ j < 1 + (gicd.itLinesNumber - 1)) ↔ 1 ≤ j ∧ j < gicd.itLinesNumber := by
    omega
  have hbound' (j : Nat) :
      (8 ≤ j ∧ j < 8 + (8 * gicd.itLinesNumber - 8)) ↔ 8 ≤ j ∧ j < 8 * gicd.itLinesNumber := by
    omega
  refine ⟨fun j => ?_, fun j => ?_, fun j => ?_, fun j => ?_, fun h => by cases h⟩
  · rw [forRegs_keeps gicdInitPrio GicdHw.enabled fun _ _ => rfl,
      forRegs_sets gicdInitState GicdHw.enabled fun gicd => writeClear_all gicd.enabled]
    simp only [hbound]
  · rw [forRegs_keeps gicdInitPrio GicdHw.pending fun _ _ => rfl,
      forRegs_sets gicdInitState GicdHw.pending fun gicd => writeClear_all gicd.pending]
    simp only [hbound]
  · rw [forRegs_keeps gicdInitPrio GicdHw.active fun _ _ => rfl,
      forRegs_sets gicdInitState GicdHw.active fun gicd => writeClear_all gicd.active]
    simp only [hbound]
  · rw [forRegs_sets gicdInitPrio GicdHw.ipriorityr fun _ _ => rfl,
      forRegs_keeps gicdInitState GicdHw.ipriorityr fun _ _ => rfl]
    simp only [hbound']

theorem initialised_gicdInit (version : GicVersion) (gicd : GicdHw) :
    Initialised version gicd (gicdInit version gicd) := by
  obtain ⟨hint, hprio, htarget⟩ := gicNumIrqs_regs gicd
  have hpriv : gicCpuPriv / 32 = 1 ∧ gicPrioReg gicCpuPriv = 8 ∧ gicTargetReg gicCpuPriv = 8 := by decide
  have hloops := initialised_loops gicd _ rfl
  have hkept (j : Nat) : (forRegs gicdInitPrio (8 * gicd.itLinesNumber - 8) 8
      (forRegs gicdInitState (gicd.itLinesNumber - 1) 1 gicd)).itargetsr j = gicd.itargetsr j := by
    rw [forRegs_keeps gicdInitPrio GicdHw.itargetsr fun _ _ => rfl,
      forRegs_keeps gicdInitState GicdHw.itargetsr fun _ _ => rfl]
  unfold gicdInit
  simp only [hint, hprio, htarget, hpriv.1, hpriv.2.1, hpriv.2.2]
  generalize forRegs gicdInitPrio _ _ _ = gicd' at *
  generalize gicMaxInterupts - gicCpuPriv = routes
  cases version with
  | v2 =>
    refine hloops.last (forRegs_keeps gicdInitTarget GicdHw.enabled (fun _ _ => rfl) _ _ _)
      (forRegs_keeps gicdInitTarget GicdHw.pending (fun _ _ => rfl) _ _ _)
      (forRegs_keeps gicdInitTarget GicdHw.active (fun _ _ => rfl) _ _ _)
      (forRegs_keeps gicdInitTarget GicdHw.ipriorityr (fun _ _ => rfl) _ _ _) fun _ j => ?_
    have htargets := forRegs_sets gicdInitTarget GicdHw.itargetsr (fun _ _ => rfl)
      (8 * gicd.itLinesNumber - 8) 8 gicd' j
    rw [hkept j] at htargets
    have hbound : (8 ≤ j ∧ j < 8 + (8 * gicd.itLinesNumber - 8)) ↔
        8 ≤ j ∧ j < 8 * gicd.itLinesNumber := by omega
    simpa only [hbound] using htargets
  | v3 =>
    exact hloops.last (forRegs_keeps gicdInitRoute GicdHw.enabled (fun _ _ => rfl) _ _ _)
      (forRegs_keeps gicdInitRoute GicdHw.pending (fun _ _ => rfl) _ _ _)
      (forRegs_keeps gicdInitRoute GicdHw.active (fun _ _ => rfl) _ _ _)
      (forRegs_keeps gicdInitRoute GicdHw.ipriorityr (fun _ _ => rfl) _ _ _) fun h => by cases h

/-- A register of ones has the lowest priority for its four interrupts. -/
theorem lowestPrio_of_ones (id : Nat) : (-1 : BitVec 32).extractLsb' (8 * (id % 4)) 8 = gicLowestPrio := by
  have hone : (-1 : BitVec 32) = BitVec.allOnes 32 := by decide
  have hlowest : gicLowestPrio = BitVec.allOnes 8 := by decide
  apply BitVec.eq_of_getLsbD_eq
  intro k hk
  have hlane : 8 * (id % 4) + k < 32 := by omega
  rw [hone, hlowest, BitVec.getLsbD_extractLsb', BitVec.getLsbD_allOnes, BitVec.getLsbD_allOnes]
  simp only [hk, hlane, decide_true, Bool.and_self]

/-- An interrupt is silent after `gicd_init` if it is in one of the first blocks or was silent before. -/
theorem silenced_gicdInit_iff (version : GicVersion) (gicd : GicdHw) (id : Nat) :
    Silenced version (gicdInit version gicd) id ↔
      (32 ≤ id ∧ id < 32 * gicd.itLinesNumber) ∨ Silenced version gicd id := by
  have hinit := initialised_gicdInit version gicd
  by_cases hin : 32 ≤ id ∧ id < 32 * gicd.itLinesNumber
  · have hreg : 1 ≤ gicIntReg id ∧ gicIntReg id < gicd.itLinesNumber := by
      rw [gicIntReg]
      omega
    have hbyte : 8 ≤ id / 4 ∧ id / 4 < 8 * gicd.itLinesNumber := by omega
    refine iff_of_true ⟨?_, ?_, ?_, ?_, fun hv2 => ?_⟩ (.inl hin)
    · rw [hinit.enabled, if_pos hreg, BitVec.ofNat_eq_ofNat, BitVec.getLsbD_zero]
    · rw [hinit.pending, if_pos hreg, BitVec.ofNat_eq_ofNat, BitVec.getLsbD_zero]
    · rw [hinit.active, if_pos hreg, BitVec.ofNat_eq_ofNat, BitVec.getLsbD_zero]
    · rw [byteOf, hinit.ipriorityr, if_pos hbyte]
      exact lowestPrio_of_ones id
    · rw [byteOf, hinit.itargetsr hv2, if_pos hbyte]
      exact BitVec.extractLsb'_zero ..
  · rw [or_iff_right hin]
    have hreg : ¬(1 ≤ gicIntReg id ∧ gicIntReg id < gicd.itLinesNumber) := by
      rw [gicIntReg]
      omega
    have hbyte : ¬(8 ≤ id / 4 ∧ id / 4 < 8 * gicd.itLinesNumber) := by omega
    have hprio : byteOf (gicdInit version gicd).ipriorityr id = byteOf gicd.ipriorityr id := by
      rw [byteOf, hinit.ipriorityr, if_neg hbyte, byteOf]
    have htarget (hv2 : version = .v2) :
        byteOf (gicdInit version gicd).itargetsr id = byteOf gicd.itargetsr id := by
      rw [byteOf, hinit.itargetsr hv2, if_neg hbyte, byteOf]
    have henabled := hinit.enabled (gicIntReg id)
    have hpending := hinit.pending (gicIntReg id)
    have hactive := hinit.active (gicIntReg id)
    rw [if_neg hreg] at henabled hpending hactive
    constructor
    · intro h
      exact ⟨henabled ▸ h.disabled, hpending ▸ h.notPending, hactive ▸ h.notActive, hprio ▸ h.lowestPrio,
        fun hv2 => htarget hv2 ▸ h.noTarget hv2⟩
    · intro h
      exact ⟨henabled ▸ h.disabled, hpending ▸ h.notPending, hactive ▸ h.notActive, hprio ▸ h.lowestPrio,
        fun hv2 => htarget hv2 ▸ h.noTarget hv2⟩

/-- `gicd_init` silences all shared interrupts if and only if it finds the ones of the last block silent. -/
theorem gicdInit_silences_iff (version : GicVersion) (gicd : GicdHw) (hitln : 1 ≤ gicd.itLinesNumber) :
    (∀ id, 32 ≤ id → id < 32 * (gicd.itLinesNumber + 1) → Silenced version (gicdInit version gicd) id) ↔
      ∀ id, 32 * gicd.itLinesNumber ≤ id → id < 32 * (gicd.itLinesNumber + 1) → Silenced version gicd id := by
  constructor
  · intro hall id hle hlt
    have hsilenced := (silenced_gicdInit_iff version gicd id).mp (hall id (by omega) hlt)
    exact hsilenced.resolve_left (by omega)
  · intro hlast id hle hlt
    rw [silenced_gicdInit_iff]
    by_cases hin : id < 32 * gicd.itLinesNumber
    · exact .inl ⟨hle, hin⟩
    · exact .inr (hlast id (by omega) hlt)

/-- In a distributor that is silent from the start, interrupt 63 is it behind. -/
theorem gicdInit_silences_iff_silent :
    Silenced .v2 (gicdInit .v2 { GicdHw.zero 1 with ipriorityr := fun _ => -1 }) 63 := by
  refine (gicdInit_silences_iff .v2 { GicdHw.zero 1 with ipriorityr := fun _ => -1 }
    (by decide)).mpr ?_ 63 (by decide) (by decide)
  intro id hle hlt
  exact ⟨BitVec.getLsbD_zero, BitVec.getLsbD_zero, BitVec.getLsbD_zero, lowestPrio_of_ones id,
    fun _ => BitVec.extractLsb'_zero⟩

/-- With 64 interrupts, interrupt 32 keeps the highest priority it has out of reset. -/
theorem gicdInit_leaves_lastBlock : ¬∀ (version : GicVersion) (gicd : GicdHw), 1 ≤ gicd.itLinesNumber →
    ∀ id, 32 ≤ id → id < 32 * (gicd.itLinesNumber + 1) → Silenced version (gicdInit version gicd) id := by
  intro hall
  have hsilenced := hall .v2 (.zero 1) (by decide) 32 (by decide) (by decide)
  exact absurd hsilenced.lowestPrio (by decide)

end Avisor
