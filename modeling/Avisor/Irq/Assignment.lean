import Avisor.Data.Bitmap
import Avisor.Lib.Machine
import Avisor.Vgic.State

/-!
# Who owns an interrupt

`core/interrupts.c`: the hypervisor reserves interrupts for itself and assigns others to VMs, and
`interrupts_handle` decides by the bitmaps of the two what becomes of one that arrives. A handler is its
address.
-/

namespace Avisor

open Function

/-- `MAX_INTERRUPTS`. -/
def maxInterrupts : Nat := 1024

/-- `hyp_interrupt_bitmap`, `global_interrupt_bitmap` and `interrupt_handlers`, and the
`interrupt_bitmap` of each VM. -/
structure IrqState where
  hypInterruptBitmap : Bitmap
  globalInterruptBitmap : Bitmap
  interruptHandlers : Nat → Nat
  interruptBitmap : VmId → Bitmap

/-- `interrupt_is_reserved`. -/
def interruptIsReserved (s : IrqState) (intId : Nat) : Bool :=
  bitmapGet s.hypInterruptBitmap intId

/-- `vm_has_interrupt`. -/
def vmHasInterrupt (s : IrqState) (vm : VmId) (intId : Nat) : Bool :=
  bitmapGet (s.interruptBitmap vm) intId

/-- `interrupts_reserve`. -/
def interruptsReserve (s : IrqState) (intId handler : Nat) : IrqState :=
  if intId < maxInterrupts then
    { s with
      interruptHandlers := update s.interruptHandlers intId handler
      hypInterruptBitmap := bitmapSet s.hypInterruptBitmap intId
      globalInterruptBitmap := bitmapSet s.globalInterruptBitmap intId }
  else s

/-- `interrupts_arch_conflict`. -/
def interruptsArchConflict (interruptBitmap : Bitmap) (intId : Nat) : Bool :=
  bitmapGet interruptBitmap intId && decide (intId > gicCpuPriv)

/-- `interrupts_vm_assign`, without the mark that `vgic_set_hw` leaves in the vGIC of the VM; `none` where
it ends in `ERROR`. -/
def interruptsVmAssign (s : IrqState) (vm : VmId) (id : Nat) : Option IrqState :=
  if interruptsArchConflict s.globalInterruptBitmap id then none
  else some { s with
    interruptBitmap := update s.interruptBitmap vm (bitmapSet (s.interruptBitmap vm) id)
    globalInterruptBitmap := bitmapSet s.globalInterruptBitmap id }

/-- What `interrupts_handle` does: it calls a handler of the hypervisor, or injects into a vCPU. -/
inductive IrqRes
  | handledByHyp (handler : Nat)
  | forwardToVm (vcpu : VcpuRef)
  deriving DecidableEq

/-- `interrupts_handle` on a pCPU whose `cpu()->vcpu` is `vcpu`, with `vcpu->vm` being `vm`; `none` where
it ends in `ERROR`. -/
def interruptsHandle (s : IrqState) (vm : VmId) (vcpu : VcpuRef) (intId : Nat) : Option IrqRes :=
  if vmHasInterrupt s vm intId then some (.forwardToVm vcpu)
  else if interruptIsReserved s intId then some (.handledByHyp (s.interruptHandlers intId))
  else none

/-! ### Calls in any order -/

/-- A call of `interrupts_reserve` or `interrupts_vm_assign`. -/
inductive IrqCall
  | reserve (intId handler : Nat)
  | assign (vm : VmId) (id : Nat)

/-- No interrupt is reserved or assigned. -/
structure IrqBoot (s : IrqState) : Prop where
  hyp : ∀ id, bitmapGet s.hypInterruptBitmap id = false
  global : ∀ id, bitmapGet s.globalInterruptBitmap id = false
  vm : ∀ vm id, bitmapGet (s.interruptBitmap vm) id = false

/-- The calls, for interrupts below `MAX_INTERRUPTS`. -/
def irqStep (s : IrqState) : IrqCall → Option IrqState
  | .reserve intId handler =>
    if intId < maxInterrupts then some (interruptsReserve s intId handler) else none
  | .assign vm id => if id < maxInterrupts then interruptsVmAssign s vm id else none

/-- The machine of `interrupts.c`. -/
def irqMachine : Machine IrqState IrqCall where
  Init := IrqBoot
  step := irqStep

/-- A shared interrupt has one VM at most, and one of the hypervisor none, so that it is not forwarded. -/
structure Exclusive (s : IrqState) : Prop where
  shared : ∀ id v w, gicCpuPriv ≤ id → vmHasInterrupt s v id = true →
    vmHasInterrupt s w id = true → v = w
  reserved : ∀ id v, interruptIsReserved s id = true → vmHasInterrupt s v id = false
  handled : ∀ id vm vcpu, interruptIsReserved s id = true →
    interruptsHandle s vm vcpu id = some (.handledByHyp (s.interruptHandlers id))

/-- What no test guards: an interrupt that a VM has is not reserved, one up to `GIC_CPU_PRIV` that is
reserved is not assigned, nor `GIC_CPU_PRIV` to a second VM. -/
def Unclaimed (s : IrqState) : IrqCall → Prop
  | .reserve intId _ => ∀ v, vmHasInterrupt s v intId = false
  | .assign vm id => id ≤ gicCpuPriv → interruptIsReserved s id = false ∧
      (id = gicCpuPriv → ∀ w, w ≠ vm → vmHasInterrupt s w id = false)

/-- The global bitmap has the interrupts of the others. -/
def GlobalCovers (s : IrqState) : Prop :=
  ∀ id, bitmapGet s.globalInterruptBitmap id = true ↔
    interruptIsReserved s id = true ∨ ∃ v, vmHasInterrupt s v id = true

variable {s t : IrqState} {v w : VmId} {id intId handler : Nat}

theorem IrqBoot.globalCovers (h : IrqBoot s) : GlobalCovers s := by
  intro id
  simp [h.global, interruptIsReserved, h.hyp, vmHasInterrupt, h.vm]

theorem IrqBoot.exclusive (h : IrqBoot s) : Exclusive s where
  shared id v w _ hv := by
    simp only [vmHasInterrupt, h.vm, Bool.false_eq_true] at hv
  reserved id v hid := by
    simp only [interruptIsReserved, h.hyp, Bool.false_eq_true] at hid
  handled id vm vcpu hid := by
    simp only [interruptIsReserved, h.hyp, Bool.false_eq_true] at hid

/-! ### What the calls do -/

theorem interruptIsReserved_reserve (hlt : intId < maxInterrupts) :
    interruptIsReserved (interruptsReserve s intId handler) id =
      (decide (id = intId) || interruptIsReserved s id) := by
  unfold interruptIsReserved interruptsReserve
  rw [if_pos hlt, bitmapGet_set]

theorem vmHasInterrupt_reserve :
    vmHasInterrupt (interruptsReserve s intId handler) v id = vmHasInterrupt s v id := by
  unfold interruptsReserve
  split <;> rfl

theorem interruptsVmAssign_eq_some (h : interruptsVmAssign s v id = some t) :
    interruptsArchConflict s.globalInterruptBitmap id = false ∧ t = { s with
      interruptBitmap := update s.interruptBitmap v (bitmapSet (s.interruptBitmap v) id)
      globalInterruptBitmap := bitmapSet s.globalInterruptBitmap id } := by
  unfold interruptsVmAssign at h
  split at h
  · cases h
  · rename_i hconflict
    cases h
    exact ⟨by simpa using hconflict, rfl⟩

theorem vmHasInterrupt_assign (h : interruptsVmAssign s v id = some t) (i : Nat) :
    vmHasInterrupt t w i = (decide (w = v ∧ i = id) || vmHasInterrupt s w i) := by
  obtain ⟨-, rfl⟩ := interruptsVmAssign_eq_some h
  unfold vmHasInterrupt
  by_cases hw : w = v
  · subst hw
    simp only [update_self, bitmapGet_set, true_and]
  · simp only [update_of_ne hw, hw, false_and, decide_false, Bool.false_or]

theorem interruptIsReserved_assign (h : interruptsVmAssign s v id = some t) (i : Nat) :
    interruptIsReserved t i = interruptIsReserved s i := by
  obtain ⟨-, rfl⟩ := interruptsVmAssign_eq_some h
  rfl

theorem globalCovers_preserves : irqMachine.Preserves GlobalCovers := by
  intro s a t hs hstep
  cases a with
  | reserve intId handler =>
    obtain ⟨hlt, hstep⟩ := Option.ite_none_right_eq_some.mp hstep
    cases hstep
    intro id
    have hglobal : bitmapGet (interruptsReserve s intId handler).globalInterruptBitmap id =
        (decide (id = intId) || bitmapGet s.globalInterruptBitmap id) := by
      unfold interruptsReserve
      rw [if_pos hlt, bitmapGet_set]
    simp only [hglobal, interruptIsReserved_reserve hlt, vmHasInterrupt_reserve, Bool.or_eq_true,
      decide_eq_true_eq, hs id, or_assoc]
  | assign v id =>
    obtain ⟨hlt, hstep⟩ := Option.ite_none_right_eq_some.mp hstep
    intro i
    have hglobal : bitmapGet t.globalInterruptBitmap i =
        (decide (i = id) || bitmapGet s.globalInterruptBitmap i) := by
      obtain ⟨-, rfl⟩ := interruptsVmAssign_eq_some hstep
      exact bitmapGet_set ..
    simp only [hglobal, interruptIsReserved_assign hstep, vmHasInterrupt_assign hstep, Bool.or_eq_true,
      decide_eq_true_eq, hs i, exists_or]
    rw [or_left_comm]
    simp

/-- `interrupts_handle` calls the handler of an interrupt that no VM has. -/
theorem interruptsHandle_reserved {vcpu : VcpuRef} (hid : interruptIsReserved s id = true)
    (hvm : vmHasInterrupt s v id = false) :
    interruptsHandle s v vcpu id = some (.handledByHyp (s.interruptHandlers id)) := by
  unfold interruptsHandle
  rw [hvm, hid]
  rfl

/-- The last part of exclusiveness follows from the second. -/
theorem exclusive_iff : Exclusive s ↔
    (∀ id v w, gicCpuPriv ≤ id → vmHasInterrupt s v id = true → vmHasInterrupt s w id = true → v = w) ∧
    ∀ id v, interruptIsReserved s id = true → vmHasInterrupt s v id = false := by
  constructor
  · exact fun h => ⟨h.shared, h.reserved⟩
  · exact fun h => ⟨h.1, h.2, fun id vm vcpu hid => interruptsHandle_reserved hid (h.2 id vm hid)⟩

/-- A call keeps the interrupts exclusive exactly if what no test guards is in order. -/
theorem exclusive_step_iff {a : IrqCall} (hcovers : GlobalCovers s) (hs : Exclusive s)
    (hstep : irqMachine.step s a = some t) : Exclusive t ↔ Unclaimed s a := by
  rw [exclusive_iff]
  cases a with
  | reserve intId handler =>
    obtain ⟨hlt, hstep⟩ := Option.ite_none_right_eq_some.mp hstep
    cases hstep
    simp only [vmHasInterrupt_reserve, interruptIsReserved_reserve hlt, Bool.or_eq_true,
      decide_eq_true_eq]
    constructor
    · exact fun h v => h.2 intId v (.inl rfl)
    · intro hfree
      refine ⟨hs.shared, fun id v hid => ?_⟩
      rcases hid with rfl | hid
      · exact hfree v
      · exact hs.reserved id v hid
  | assign v id =>
    obtain ⟨hlt, hstep⟩ := Option.ite_none_right_eq_some.mp hstep
    have hconflict := (interruptsVmAssign_eq_some hstep).1
    simp only [vmHasInterrupt_assign hstep, interruptIsReserved_assign hstep]
    constructor
    · rintro ⟨hshared, hreserved⟩ hle
      refine ⟨?_, fun heq w hw => ?_⟩
      · rw [← Bool.not_eq_true]
        intro hid
        have hnone := hreserved id v hid
        simp at hnone
      · rw [← Bool.not_eq_true]
        intro hhas
        exact hw (hshared id w v (Nat.le_of_eq heq.symm) (by simp [hhas]) (by simp))
    · intro hfree
      -- behind `GIC_CPU_PRIV` the test keeps out what is taken
      have htaken (hlt : gicCpuPriv < id) : bitmapGet s.globalInterruptBitmap id = false := by
        unfold interruptsArchConflict at hconflict
        simpa [hlt] using hconflict
      have hother (hle : gicCpuPriv ≤ id) (w) (hw : w ≠ v) : vmHasInterrupt s w id = false := by
        rcases Nat.eq_or_lt_of_le hle with heq | hlt
        · exact (hfree (Nat.le_of_eq heq.symm)).2 heq.symm w hw
        · rw [← Bool.not_eq_true]
          intro hhas
          have hglobal := (hcovers id).mpr (.inr ⟨w, hhas⟩)
          rw [htaken hlt] at hglobal
          cases hglobal
      refine ⟨fun i w w' hi hw hw' => ?_, fun i w hi => ?_⟩
      · by_cases hid : i = id
        · subst hid
          have hone (u) (hu : (decide (u = v ∧ i = i) || vmHasInterrupt s u i) = true) : u = v := by
            by_contra hne
            simp [hne, hother hi u hne] at hu
          exact (hone w hw).trans (hone w' hw').symm
        · simp only [hid, and_false, decide_false, Bool.false_or] at hw hw'
          exact hs.shared i w w' hi hw hw'
      · rw [hs.reserved i w hi, Bool.or_false]
        refine decide_eq_false ?_
        rintro ⟨rfl, rfl⟩
        rcases Nat.lt_or_ge gicCpuPriv i with hlt | hle
        · have hglobal := (hcovers i).mpr (.inl hi)
          rw [htaken hlt] at hglobal
          cases hglobal
        · rw [(hfree hle).1] at hi
          cases hi

/-- In a run, interrupts stay exclusive exactly if each call meets what no test guards. -/
theorem exclusive_always_iff {as : List IrqCall} (h : irqMachine.Init s) :
    irqMachine.Always Exclusive s as ↔ irqMachine.EachStep Unclaimed s as := by
  have hboot : IrqBoot s := h
  refine Machine.always_iff_eachStep (I := GlobalCovers) (H := fun _ => True) globalCovers_preserves
    (fun _ _ _ _ _ _ _ _ => trivial)
    (fun s a t hcovers hs _ hstep => exclusive_step_iff hcovers hs hstep) hboot.globalCovers
    hboot.exclusive trivial

/-- Nothing is reserved or assigned. -/
def irqBoot : IrqState where
  hypInterruptBitmap := fun _ => 0
  globalInterruptBitmap := fun _ => 0
  interruptHandlers := fun _ => 0
  interruptBitmap := fun _ _ => 0

theorem irqBoot_init : irqMachine.Init irqBoot where
  hyp id := by simp [irqBoot, bitmapGet_eq]
  global id := by simp [irqBoot, bitmapGet_eq]
  vm v id := by simp [irqBoot, bitmapGet_eq]

/-- An interrupt for the hypervisor, and another one for a VM. -/
theorem exclusive_always_apart :
    irqMachine.Always Exclusive irqBoot [.reserve 26 0x1000, .assign 0 33] ↔
      irqMachine.EachStep Unclaimed irqBoot [.reserve 26 0x1000, .assign 0 33] :=
  exclusive_always_iff irqBoot_init

/-- The first shared interrupt can be given to two VMs. -/
theorem exclusive_lost :
    irqMachine.Init irqBoot ∧ ¬ irqMachine.Always Exclusive irqBoot [.assign 0 32, .assign 1 32] := by
  refine ⟨irqBoot_init, fun hall => ?_⟩
  obtain ⟨t, hrun, hfirst, hsecond⟩ : ∃ t, irqMachine.run irqBoot [.assign 0 32, .assign 1 32] = some t ∧
      vmHasInterrupt t 0 32 = true ∧ vmHasInterrupt t 1 32 = true := ⟨_, rfl, by decide, by decide⟩
  have hexclusive := hall.last (Machine.run_eq_some_iff.mp hrun)
  exact absurd (hexclusive.shared 32 0 1 (Nat.le_refl 32) hfirst hsecond) (by decide)

end Avisor
