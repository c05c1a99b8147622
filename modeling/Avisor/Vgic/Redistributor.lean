import Avisor.Vgic.Banks
import Avisor.Vgic.Machine

/-!
# The registers of both frames

In the GICv3 build the registers of the private interrupts are in the frame of a redistributor, those of the shared
ones in the frame of the distributor. An access to a register of either is to do the same to the interrupts it is
for.
-/

namespace Avisor

open Function PackedFields

namespace RegHandlerId

/-- The registers that both frames have. -/
inductive InBoth : RegHandlerId → Prop
  | isenabler : InBoth .isenabler
  | icenabler : InBoth .icenabler
  | ispendr : InBoth .ispendr
  | icpendr : InBoth .icpendr
  | isactiver : InBoth .isactiver
  | icactiver : InBoth .icactiver
  | icfgr : InBoth .icfgr
  | ipriorityr : InBoth .ipriorityr

/-- The offset in `struct gicd_hw`, and behind `sgi_base` in `struct gicr_hw`. -/
def base : RegHandlerId → Nat
  | isenabler => 0x100
  | icenabler => 0x180
  | ispendr => 0x200
  | icpendr => 0x280
  | isactiver => 0x300
  | icactiver => 0x380
  | ipriorityr => 0x400
  | itargetsr => 0x800
  | icfgr => 0xc00
  | irouter => 0x6000

/-- The bits of an interrupt's field. -/
def bits : RegHandlerId → Nat
  | ipriorityr => 8
  | itargetsr => 8
  | icfgr => 2
  | irouter => 64
  | _ => 1

/-- What a write of `data` to the field is to do: a set register only sets, a clear register only clears, and the
other two only configure. -/
def sets (id : RegHandlerId) (data : BitVec 64) (int : VgicInt) : VgicInt :=
  match id with
  | isenabler => { int with enabled := int.enabled || data ≠ 0 }
  | icenabler => { int with enabled := int.enabled && data = 0 }
  | ispendr => { int with state := { int.state with pend := int.state.pend || data ≠ 0 } }
  | icpendr => { int with state := { int.state with pend := int.state.pend && data = 0 } }
  | isactiver => { int with state := { int.state with act := int.state.act || data ≠ 0 } }
  | icactiver => { int with state := { int.state with act := int.state.act && data = 0 } }
  | icfgr => { int with cfg := data.setWidth 8 }
  | ipriorityr => { int with prio := data.setWidth 8 }
  | irouter => int
  | itargetsr => int

/-- What is to be read in the field. -/
def shows (id : RegHandlerId) (int : VgicInt) : BitVec 64 :=
  match id with
  | isenabler | icenabler => ofBool64 int.enabled
  | ispendr | icpendr => ofBool64 int.state.pend
  | isactiver | icactiver => ofBool64 int.state.act
  | icfgr => int.cfg.setWidth 64 &&& 3
  | ipriorityr => int.prio.setWidth 64
  | irouter | itargetsr => 0

end RegHandlerId

/-- The width and the alignment of a load or store. -/
structure AlignedAccess (acc : EmulAccess) : Prop where
  width : acc.width = 1 ∨ acc.width = 2 ∨ acc.width = 4 ∨ acc.width = 8
  aligned : acc.addr.toNat % acc.width.toNat = 0

/-- An access to the registers of the private interrupts in the frame of the vCPU `r`, from byte `k` on. -/
structure RedistAccess (E : VgicEnv) (R : EmulRegs) (id : RegHandlerId) (acc : EmulAccess) (r k : Nat) : Prop
    extends AlignedAccess acc where
  addr : (acc.addr - R.vgicrAddr E.current.vm).toNat = r * 0x20000 + 0x10000 + id.base + k
  vcpu : r < E.cfg.nrCpus E.current.vm
  priv : k * 8 < 32 * id.bits

/-- An access to the registers in the frame of the distributor, from byte `k` on, which is that of a shared interrupt
that is implemented. -/
structure DistAccess (E : VgicEnv) (id : RegHandlerId) (acc : EmulAccess) (k : Nat) : Prop
    extends AlignedAccess acc where
  addr : acc.addr.toNat % 0x10000 = id.base + k
  shared : 32 * id.bits ≤ k * 8
  implemented : k * 8 / id.bits < E.cfg.intNum E.current.vm

/-- The number of fields in the access. -/
def accessCount (id : RegHandlerId) (acc : EmulAccess) : Nat := acc.width.toNat * 8 / id.bits

/-- The private interrupts that an access to a redistributor is for. -/
def privInts (E : VgicEnv) (id : RegHandlerId) (acc : EmulAccess) (r k : Nat) : List IntRef :=
  (List.range (accessCount id acc)).map fun p => .priv ⟨E.current.vm, r⟩ (k * 8 / id.bits + p)

/-- The shared interrupts that an access to the distributor is for. -/
def sharedInts (E : VgicEnv) (id : RegHandlerId) (acc : EmulAccess) (k : Nat) : List IntRef :=
  let first := k * 8 / id.bits
  (List.range (min (accessCount id acc) (E.cfg.intNum E.current.vm - first))).map fun p =>
    .shared E.current.vm (first + p)

/-- The interrupts, from field `i` on, are written or read one after another. -/
def fieldsLoop (E : VgicEnv) (id : RegHandlerId) (write : Bool) :
    List IntRef → Nat → VgicState → BitVec 64 → Option (VgicState × BitVec 64)
  | [], _, s, val => some (s, val)
  | interrupt :: l, i, s, val =>
    if write then
      let data := bit64Extract val (i * id.bits) id.bits
      (vgicIntSetField E s (regHandlerInfoTable .v3 id) E.current interrupt data).bind fun s =>
        fieldsLoop E id write l (i + 1) s val
    else fieldsLoop E id write l (i + 1) s (val ||| id.shows (s.ints interrupt) <<< (i * id.bits))

/-- What an access to the register `id` is to do where it is for the interrupts `ints`: it is refused if the register
does not take its width. -/
def frameEffect (E : VgicEnv) (s : VgicState) (id : RegHandlerId) (acc : EmulAccess) (ints : List IntRef) :
    Option (Bool × Accessed) :=
  if (regHandlerInfoTable .v3 id).alignment &&& acc.width ≠ 0 then
    (fieldsLoop E id acc.write ints 0 s (if acc.write then acc.val else 0)).map fun (s, val) =>
      (true, ⟨s, if acc.write then none else some val⟩)
  else some (false, ⟨s, none⟩)

/-- The access `acc` to a redistributor and the access `acc'` to the distributor do the same, in every state, each to
the interrupts it is for. What they write is the field of the register and nothing else. -/
structure FramesAgree (E : VgicEnv) (R : EmulRegs) (id : RegHandlerId) (acc acc' : EmulAccess) (r k k' : Nat) :
    Prop where
  redist : ∀ s, vgicrEmulHandler E s R acc = frameEffect E s id acc (privInts E id acc r k)
  dist : ∀ s, vgicdEmulHandler E s R acc' = frameEffect E s id acc' (sharedInts E id acc' k')
  field : ∃ fields, (regHandlerInfoTable .v3 id).fields = some fields ∧
    ∀ vcpu i data int, (fields.updateField E vcpu i data int).2 = id.sets data int

variable {E : VgicEnv} {s : VgicState} {R : EmulRegs} {id : RegHandlerId} {acc acc' : EmulAccess} {r k k' : Nat}

/-! ### Decoding -/

theorem gicdRegMask_v3 (addr : BitVec 64) : (gicdRegMask .v3 addr).toNat = addr.toNat % 0x10000 := by
  unfold gicdRegMask
  rw [if_neg (by decide), BitVec.toNat_and]
  exact Nat.and_two_pow_sub_one_eq_mod _ 16

theorem gicrRegMask_toNat (addr : BitVec 64) : (gicrRegMask addr).toNat = addr.toNat % 0x20000 := by
  unfold gicrRegMask
  rw [BitVec.toNat_and]
  exact Nat.and_two_pow_sub_one_eq_mod _ 17

theorem AlignedAccess.check (h : AlignedAccess acc) (alignment : BitVec 64) :
    vgicCheckRegAlignment acc alignment = decide (alignment &&& acc.width ≠ 0) := by
  have hlow : acc.addr &&& (acc.width - 1) = 0 := by
    have haligned := h.aligned
    rcases h.width with hwidth | hwidth | hwidth | hwidth
    · rw [hwidth] at haligned ⊢
      exact (and_eq_zero_iff (k := 0) (by decide)).mpr haligned
    · rw [hwidth] at haligned ⊢
      exact (and_eq_zero_iff (k := 1) (by decide)).mpr haligned
    · rw [hwidth] at haligned ⊢
      exact (and_eq_zero_iff (k := 2) (by decide)).mpr haligned
    · rw [hwidth] at haligned ⊢
      exact (and_eq_zero_iff (k := 3) (by decide)).mpr haligned
  unfold vgicCheckRegAlignment
  rw [hlow]
  simp

/-- The decoder of the distributor finds the register, but for the upper half of the configuration registers. -/
theorem DistAccess.handler (hid : id.InBoth) (h : DistAccess E id acc k) : vgicdHandler .v3 acc.addr =
    if id = .icfgr ∧ 0x80 ≤ k then .razwi else .table id := by
  have hlt := Nat.lt_of_lt_of_le h.implemented (E.cfg.intNum_le E.current.vm)
  unfold vgicdHandler
  simp only [gicdRegMask_v3, h.addr]
  generalize hoff : id.base + k = off
  cases hid with
  | isenabler =>
    rw [show off / 128 = 2 by simp only [RegHandlerId.base, RegHandlerId.bits] at *; omega]
    rfl
  | icenabler =>
    rw [show off / 128 = 3 by simp only [RegHandlerId.base, RegHandlerId.bits] at *; omega]
    rfl
  | ispendr =>
    rw [show off / 128 = 4 by simp only [RegHandlerId.base, RegHandlerId.bits] at *; omega]
    rfl
  | icpendr =>
    rw [show off / 128 = 5 by simp only [RegHandlerId.base, RegHandlerId.bits] at *; omega]
    rfl
  | isactiver =>
    rw [show off / 128 = 6 by simp only [RegHandlerId.base, RegHandlerId.bits] at *; omega]
    rfl
  | icactiver =>
    rw [show off / 128 = 7 by simp only [RegHandlerId.base, RegHandlerId.bits] at *; omega]
    rfl
  | icfgr =>
    simp only [RegHandlerId.base, RegHandlerId.bits] at hlt hoff
    by_cases hhigh : 0x80 ≤ k
    · rw [show off / 128 = 25 by omega, if_neg (by omega), if_neg (by omega), if_neg (by omega),
        if_neg (by omega)]
      exact (if_pos ⟨rfl, hhigh⟩).symm
    · rw [show off / 128 = 24 by omega]
      exact (if_neg fun hicfgr => hhigh hicfgr.2).symm
  | ipriorityr =>
    simp only [RegHandlerId.base, RegHandlerId.bits] at hlt hoff
    have hplace : 0x400 ≤ off ∧ off < 0x800 := by omega
    split
    all_goals first
      | rw [if_pos hplace, if_neg (by simp)]
      | omega

/-- The register whose handler the decoder of the redistributor takes. -/
def RegHandlerId.routed : RegHandlerId → RegHandlerId
  | isactiver => icactiver
  | icactiver => icfgr
  | id => id

theorem RedistAccess.end_lt (hid : id.InBoth) (h : RedistAccess E R id acc r k) : id.base + k < 0x10000 := by
  have hpriv := h.priv
  cases hid with
  | isenabler | icenabler | ispendr | icpendr | isactiver | icactiver | icfgr | ipriorityr =>
    simp only [RegHandlerId.base, RegHandlerId.bits] at *
    omega

/-- The bits of the address that the decoder looks at. -/
theorem RedistAccess.addr_mod (hid : id.InBoth) (hframe : (R.vgicrAddr E.current.vm).toNat % 0x10000 = 0)
    (h : RedistAccess E R id acc r k) : acc.addr.toNat % 0x20000 =
      if (R.vgicrAddr E.current.vm).toNat % 0x20000 = 0 then 0x10000 + (id.base + k) else id.base + k := by
  have haddr := h.addr
  have hend := h.end_lt hid
  rw [BitVec.toNat_sub] at haddr
  split
  · omega
  · omega

theorem RedistAccess.addr_low (hid : id.InBoth) (hframe : (R.vgicrAddr E.current.vm).toNat % 0x10000 = 0)
    (h : RedistAccess E R id acc r k) : acc.addr.toNat % 0x10000 = id.base + k := by
  have hmod := h.addr_mod hid hframe
  have hend := h.end_lt hid
  split at hmod
  · omega
  · omega

theorem RedistAccess.getId (hid : id.InBoth) (h : RedistAccess E R id acc r k) : vgicrGetId E R acc = r := by
  have hend := h.end_lt hid
  unfold vgicrGetId
  rw [BitVec.toNat_udiv, h.addr, show (0x20000 : BitVec 64).toNat = 0x20000 from rfl]
  omega

/-- The addresses that the decoder of a redistributor knows nothing of. -/
theorem vgicrHandler_eq_razwi {vgicrAddr addr : BitVec 64}
    (haddr : addr.toNat % 0x20000 % 4 ≠ 0 ∨ 0 < addr.toNat % 0x20000 ∧ addr.toNat % 0x20000 < 0x10000)
    (hsgi : 0x10000 ≤ (addr - vgicrAddr).toNat % 0x20000)
    (hprio : (addr - vgicrAddr).toNat % 0x20000 < 0x10400 ∨ 0x10420 ≤ (addr - vgicrAddr).toNat % 0x20000) :
    vgicrHandler vgicrAddr addr = .razwi := by
  unfold vgicrHandler
  simp only [gicrRegMask_toNat]
  generalize addr.toNat % 0x20000 = off at haddr ⊢
  generalize (addr - vgicrAddr).toNat % 0x20000 = place at hsgi hprio ⊢
  have htyper : ¬ (0x8 ≤ place ∧ place < 0x10) := by omega
  have hprio' : ¬ (0x10400 ≤ place ∧ place < 0x10420) := by omega
  have hpidr : ¬ (0xffd0 ≤ place ∧ place < 0x10000) := by omega
  split
  all_goals first
    | rw [if_neg htyper, if_neg hprio', if_neg hpidr]
    | omega

theorem vgicrHandler_eq_ipriorityr {vgicrAddr addr : BitVec 64}
    (haddr : addr.toNat % 0x10000 < 0x420 ∧ 0x400 ≤ addr.toNat % 0x10000)
    (hplace : 0x10400 ≤ (addr - vgicrAddr).toNat % 0x20000 ∧ (addr - vgicrAddr).toNat % 0x20000 < 0x10420) :
    vgicrHandler vgicrAddr addr = .table .ipriorityr := by
  have hoff : addr.toNat % 0x20000 % 0x10000 = addr.toNat % 0x10000 := Nat.mod_mod_of_dvd _ (by decide)
  rw [← hoff] at haddr
  unfold vgicrHandler
  simp only [gicrRegMask_toNat]
  generalize addr.toNat % 0x20000 = off at haddr ⊢
  generalize (addr - vgicrAddr).toNat % 0x20000 = place at hplace ⊢
  have htyper : ¬ (0x8 ≤ place ∧ place < 0x10) := by omega
  split
  all_goals first
    | rw [if_neg htyper, if_pos hplace]
    | omega

/-- The decoder of a redistributor looks at the lower bits of the address, and takes the handler of another register
for two of them. -/
theorem RedistAccess.handler (hid : id.InBoth) (hframe : (R.vgicrAddr E.current.vm).toNat % 0x10000 = 0)
    (h : RedistAccess E R id acc r k) : vgicrHandler (R.vgicrAddr E.current.vm) acc.addr =
      if id = .ipriorityr then .table .ipriorityr
      else if (R.vgicrAddr E.current.vm).toNat % 0x20000 = 0 ∧ k % 4 = 0 then .table id.routed
      else .razwi := by
  have hpriv := h.priv
  have hend := h.end_lt hid
  have hplace : (acc.addr - R.vgicrAddr E.current.vm).toNat % 0x20000 = 0x10000 + (id.base + k) := by
    rw [h.addr]
    omega
  have hmod := h.addr_mod hid hframe
  have hlow := h.addr_low hid hframe
  by_cases hprio : id = .ipriorityr
  · subst hprio
    simp only [RegHandlerId.base, RegHandlerId.bits] at hplace hlow hpriv
    rw [if_pos rfl]
    apply vgicrHandler_eq_ipriorityr
    · omega
    · omega
  rw [if_neg hprio]
  by_cases hcase : (R.vgicrAddr E.current.vm).toNat % 0x20000 = 0 ∧ k % 4 = 0
  · rw [if_pos hcase.1] at hmod
    rw [if_pos hcase]
    unfold vgicrHandler
    simp only [gicrRegMask_toNat, hmod]
    cases hid with
    | ipriorityr => exact absurd rfl hprio
    | icfgr =>
      simp only [RegHandlerId.bits] at hpriv
      obtain rfl | rfl : k = 0 ∨ k = 4 := by omega
      · rfl
      · rfl
    | isenabler | icenabler | ispendr | icpendr | isactiver | icactiver =>
      simp only [RegHandlerId.bits] at hpriv
      obtain rfl : k = 0 := by omega
      rfl
  · rw [if_neg hcase]
    have hbase : id.base % 4 = 0 ∧ 0x100 ≤ id.base := by cases hid <;> decide
    have hrange : id.base + k < 0x400 ∨ 0x420 ≤ id.base + k := by
      cases hid with
      | ipriorityr => exact absurd rfl hprio
      | isenabler | icenabler | ispendr | icpendr | isactiver | icactiver | icfgr =>
        simp only [RegHandlerId.base, RegHandlerId.bits] at hpriv ⊢
        omega
    apply vgicrHandler_eq_razwi
    · rw [hmod]
      split
      · omega
      · omega
    · omega
    · omega

/-! ### The fields of an access -/

theorem RegHandlerId.InBoth.fieldWidth (hid : id.InBoth) (version : GicVersion) :
    (regHandlerInfoTable version id).fieldWidth = id.bits := by
  cases hid <;> rfl

theorem updateEnable_snd (hv3 : E.cfg.version = .v3) (enable : Bool) (i : IntRef) (int : VgicInt) :
    (vgicIntUpdateEnable E enable i int).2 = { int with enabled := enable } := by
  unfold vgicIntUpdateEnable
  rw [hv3]
  simp only [reduceCtorEq, decide_false, Bool.false_and, Bool.false_eq_true, if_false]
  split
  · rfl
  · rename_i hsame
    rw [not_not.mp hsame]

theorem updatePend_snd (hv3 : E.cfg.version = .v3) (pend : Bool) (i : IntRef) (int : VgicInt) :
    (vgicIntUpdatePend E pend i int).2 = { int with state := { int.state with pend := pend } } := by
  unfold vgicIntUpdatePend
  rw [hv3]
  simp only [reduceCtorEq, decide_false, Bool.false_and, Bool.false_eq_true, if_false]
  split
  · rfl
  · rename_i hsame
    rw [not_not.mp hsame]

theorem updateAct_snd (act : Bool) (int : VgicInt) :
    (vgicIntUpdateAct act int).2 = { int with state := { int.state with act := act } } := by
  unfold vgicIntUpdateAct
  split
  · rfl
  · rename_i hsame
    rw [not_not.mp hsame]

theorem ofBool64_and_one (b : Bool) : ofBool64 b &&& (1#64 <<< 1) - 1 = ofBool64 b := by
  cases b <;> decide

/-- The register sets and shows its own field. -/
theorem RegHandlerId.InBoth.fields (hid : id.InBoth) (hv3 : E.cfg.version = .v3) :
    ∃ fields, (regHandlerInfoTable .v3 id).fields = some fields ∧
      (∀ vcpu i data int, (fields.updateField E vcpu i data int).2 = id.sets data int) ∧
      ∀ vcpu i int, fields.readField E vcpu i int &&& (1#64 <<< id.bits) - 1 = id.shows int := by
  cases hid with
  | isenabler =>
    refine ⟨_, rfl, fun vcpu i data int => ?_, fun vcpu i int => ofBool64_and_one _⟩
    simp only [vgicIntSetEnable, RegHandlerId.sets]
    by_cases hdata : data = 0#64
    · simp [hdata]
    · simp [hdata, updateEnable_snd hv3]
  | icenabler =>
    refine ⟨_, rfl, fun vcpu i data int => ?_, fun vcpu i int => ofBool64_and_one _⟩
    simp only [vgicIntClearEnable, RegHandlerId.sets]
    by_cases hdata : data = 0#64
    · simp [hdata]
    · simp [hdata, updateEnable_snd hv3]
  | ispendr =>
    refine ⟨_, rfl, fun vcpu i data int => ?_, fun vcpu i int => ofBool64_and_one _⟩
    simp only [vgicIntSetPend, RegHandlerId.sets]
    by_cases hdata : data = 0#64
    · simp [hdata]
    · simp [hdata, updatePend_snd hv3]
  | icpendr =>
    refine ⟨_, rfl, fun vcpu i data int => ?_, fun vcpu i int => ofBool64_and_one _⟩
    simp only [vgicIntClearPend, RegHandlerId.sets]
    by_cases hdata : data = 0#64
    · simp [hdata]
    · simp [hdata, updatePend_snd hv3]
  | isactiver =>
    refine ⟨_, rfl, fun vcpu i data int => ?_, fun vcpu i int => ofBool64_and_one _⟩
    simp only [vgicIntSetAct, RegHandlerId.sets]
    by_cases hdata : data = 0#64
    · simp [hdata]
    · simp [hdata, updateAct_snd]
  | icactiver =>
    refine ⟨_, rfl, fun vcpu i data int => ?_, fun vcpu i int => ofBool64_and_one _⟩
    simp only [vgicIntClearAct, RegHandlerId.sets]
    by_cases hdata : data = 0#64
    · simp [hdata]
    · simp [hdata, updateAct_snd]
  | icfgr => exact ⟨_, rfl, fun vcpu i data int => rfl, fun vcpu i int => rfl⟩
  | ipriorityr =>
    refine ⟨_, rfl, fun vcpu i data int => ?_, fun vcpu i int => ?_⟩
    · have hmask : (bitMask (8 - 8) 8).setWidth 8 = BitVec.allOnes 8 := by decide
      simp only [vgicIntSetPrio, RegHandlerId.sets, hv3, gichLrPrioLen, hmask, BitVec.and_allOnes]
    · apply BitVec.eq_of_getLsbD_eq
      intro b hb
      rw [RegHandlerId.bits, mask_eq_lowMask (by decide), BitVec.getLsbD_and, getLsbD_lowMask]
      simp only [vgicIntGetPrio, RegHandlerId.shows, BitVec.getLsbD_setWidth, hb, decide_true, Bool.true_and]
      by_cases hlow : b < 8
      · simp [hlow]
      · simp [hlow, BitVec.getLsbD_of_ge int.prio b (Nat.not_lt.mp hlow)]

theorem RegHandlerId.InBoth.regAccess (hid : id.InBoth) :
    (regHandlerInfoTable .v3 id).regAccess = .generic := by
  cases hid <;> rfl

/-- The rounds of the handler are those over the interrupts that the access is for. -/
theorem genericLoop_eq_fieldsLoop {fields : RegFields} {gicrId n i : Nat} {l : List IntRef} {val : BitVec 64}
    (hid : id.InBoth) (hread : ∀ vcpu i int, fields.readField E vcpu i int &&& (1#64 <<< id.bits) - 1 = id.shows int)
    (hl : ∀ p < n, coveredInt E (regHandlerInfoTable .v3 id) acc gicrId (i + p) = l[p]?) (hlength : l.length ≤ n) :
    genericLoop E (regHandlerInfoTable .v3 id) fields acc gicrId n i s val =
      fieldsLoop E id acc.write l i s val := by
  induction n generalizing i l s val with
  | zero =>
    obtain rfl := List.length_eq_zero_iff.mp (Nat.le_zero.mp hlength)
    rfl
  | succ n ih =>
    have hfirst := hl 0 (Nat.succ_pos n)
    unfold genericLoop
    change vgicGetInt E E.current _ _ = _ at hfirst
    rw [Nat.add_zero] at hfirst
    rw [hfirst]
    cases l with
    | nil => rfl
    | cons interrupt l =>
      have hrest : ∀ p < n, coveredInt E (regHandlerInfoTable .v3 id) acc gicrId (i + 1 + p) = l[p]? := by
        intro p hp
        rw [show i + 1 + p = i + (p + 1) by omega, hl (p + 1) (Nat.succ_lt_succ hp), List.getElem?_cons_succ]
      have hlength' : l.length ≤ n := by simpa using hlength
      simp only [List.getElem?_cons_zero, fieldsLoop, hid.fieldWidth, hread]
      split
      · congr 1
        funext t
        exact ih hrest hlength'
      · exact ih hrest hlength'

theorem RegHandlerId.InBoth.bits_cases (hid : id.InBoth) : id.bits = 1 ∨ id.bits = 2 ∨ id.bits = 8 := by
  cases hid with
  | isenabler | icenabler | ispendr | icpendr | isactiver | icactiver => exact .inl rfl
  | icfgr => exact .inr (.inl rfl)
  | ipriorityr => exact .inr (.inr rfl)

theorem RegHandlerId.InBoth.base_mod (hid : id.InBoth) : id.base % 4 = 0 := by
  cases hid <;> rfl

theorem firstInt_v3 (hid : id.InBoth) (hv3 : E.cfg.version = .v3) (haddr : acc.addr.toNat % 0x10000 = id.base + k) :
    (firstInt E (regHandlerInfoTable .v3 id) acc).toNat = k * 8 / id.bits := by
  have hregroup : (regHandlerInfoTable .v3 id).regroupBase.toNat = id.base := by cases hid <;> rfl
  have hwidth : (BitVec.ofNat 64 id.bits).toNat = id.bits := by cases hid <;> rfl
  have height : (8 : BitVec 64).toNat = 8 := rfl
  have hend : id.base + k < 0x10000 := haddr ▸ Nat.mod_lt _ (by decide)
  unfold firstInt
  rw [hv3, hid.fieldWidth, BitVec.toNat_udiv, BitVec.toNat_mul, BitVec.toNat_sub, gicdRegMask_v3, haddr, hregroup,
    hwidth, height]
  congr 1
  omega

/-- An access that the register takes is to whole fields, and there are as many as it says. -/
theorem AlignedAccess.taken (h : AlignedAccess acc) (hid : id.InBoth)
    (htaken : (regHandlerInfoTable .v3 id).alignment &&& acc.width ≠ 0) :
    acc.width.toNat = 4 ∨ id = .ipriorityr ∧ acc.width.toNat = 1 := by
  rcases h.width with hwidth | hwidth | hwidth | hwidth
  · rw [hwidth] at htaken ⊢
    cases hid with
    | ipriorityr => exact .inr ⟨rfl, rfl⟩
    | isenabler | icenabler | ispendr | icpendr | isactiver | icactiver | icfgr => exact absurd rfl htaken
  · rw [hwidth] at htaken
    cases hid <;> exact absurd rfl htaken
  · rw [hwidth]
    exact .inl rfl
  · rw [hwidth] at htaken
    cases hid <;> exact absurd rfl htaken

theorem fieldCount_eq (hid : id.InBoth) (h : AlignedAccess acc) :
    fieldCount (regHandlerInfoTable .v3 id) acc = accessCount id acc := by
  unfold fieldCount accessCount
  rw [hid.fieldWidth]
  congr 1
  rcases h.width with hwidth | hwidth | hwidth | hwidth
  all_goals
    rw [hwidth]
    rfl

theorem coveredInt_toNat {gicrId p : Nat} (hid : id.InBoth) (hv3 : E.cfg.version = .v3)
    (haddr : acc.addr.toNat % 0x10000 = id.base + k) (hp : p ≤ 32) :
    coveredInt E (regHandlerInfoTable .v3 id) acc gicrId p =
      vgicGetInt E E.current (k * 8 / id.bits + p) gicrId := by
  have hend : id.base + k < 0x10000 := haddr ▸ Nat.mod_lt _ (by decide)
  have hfirst : k * 8 / id.bits ≤ k * 8 := Nat.div_le_self _ _
  unfold coveredInt
  congr 1
  rw [BitVec.toNat_add, firstInt_v3 hid hv3 haddr, BitVec.toNat_ofNat]
  generalize k * 8 / id.bits = first at hfirst ⊢
  omega

theorem accessCount_le (h : AlignedAccess acc) (hid : id.InBoth)
    (htaken : (regHandlerInfoTable .v3 id).alignment &&& acc.width ≠ 0) : accessCount id acc ≤ 32 := by
  unfold accessCount
  have hle : acc.width.toNat * 8 / id.bits ≤ acc.width.toNat * 8 := Nat.div_le_self _ _
  rcases h.taken hid htaken with hwidth | ⟨-, hwidth⟩
  · omega
  · omega

/-- The access to a redistributor covers the private interrupts of its vCPU. -/
theorem RedistAccess.covered (hid : id.InBoth) (hv3 : E.cfg.version = .v3)
    (hframe : (R.vgicrAddr E.current.vm).toNat % 0x10000 = 0) (h : RedistAccess E R id acc r k)
    (htaken : (regHandlerInfoTable .v3 id).alignment &&& acc.width ≠ 0) {p : Nat} (hp : p < accessCount id acc) :
    coveredInt E (regHandlerInfoTable .v3 id) acc r p = (privInts E id acc r k)[p]? := by
  have hlow := h.addr_low hid hframe
  have hcount := accessCount_le h.toAlignedAccess hid htaken
  have hpriv : k * 8 / id.bits + p < gicCpuPriv := by
    have haligned := h.aligned
    have hk := h.priv
    have hbase := hid.base_mod
    unfold accessCount at hp
    unfold gicCpuPriv
    rcases h.taken hid htaken with hwidth | ⟨rfl, hwidth⟩
    · rw [hwidth] at haligned hp
      rcases hid.bits_cases with hbits | hbits | hbits
      all_goals
        rw [hbits] at hk hp ⊢
        omega
    · rw [hwidth] at hp
      simp only [RegHandlerId.bits] at hk hp ⊢
      omega
  rw [coveredInt_toNat hid hv3 hlow (by omega)]
  unfold vgicGetInt privInts
  rw [if_pos hpriv, List.getElem?_map, List.getElem?_range hp]
  by_cases hself : r = E.current.idx
  · rw [if_pos hself, hself]
    rfl
  · rw [if_neg hself, if_pos h.vcpu]
    rfl

/-- The access to the distributor covers the shared interrupts, as far as they are implemented. -/
theorem DistAccess.covered (hid : id.InBoth) (hv3 : E.cfg.version = .v3) (h : DistAccess E id acc k)
    (htaken : (regHandlerInfoTable .v3 id).alignment &&& acc.width ≠ 0) {p : Nat} (hp : p < accessCount id acc) :
    coveredInt E (regHandlerInfoTable .v3 id) acc E.current.idx p = (sharedInts E id acc k)[p]? := by
  have hcount := accessCount_le h.toAlignedAccess hid htaken
  have hshared : gicCpuPriv ≤ k * 8 / id.bits := by
    have hk := h.shared
    unfold gicCpuPriv
    rcases hid.bits_cases with hbits | hbits | hbits
    all_goals
      rw [hbits] at hk ⊢
      omega
  have hfirst := h.implemented
  rw [coveredInt_toNat hid hv3 h.addr (by omega)]
  unfold vgicGetInt sharedInts
  dsimp only
  generalize k * 8 / id.bits = first at *
  rw [if_neg (by omega), List.getElem?_map]
  by_cases hlt : first + p < E.cfg.intNum E.current.vm
  · rw [if_pos hlt, List.getElem?_range (by omega)]
    rfl
  · rw [if_neg hlt, List.getElem?_eq_none (by rw [List.length_range]; omega)]
    rfl

/-- The register's own handler does to the interrupts what the register is to do. -/
theorem handlerAccess_table {gicrAccess : Bool} {gicrId : Nat} {l : List IntRef} (hid : id.InBoth)
    (hv3 : E.cfg.version = .v3) (h : AlignedAccess acc)
    (hvalid : gicIsPriv (firstInt E (regHandlerInfoTable .v3 id) acc).toNat = gicrAccess)
    (hcovered : ∀ p < accessCount id acc, coveredInt E (regHandlerInfoTable .v3 id) acc gicrId p = l[p]?)
    (hlength : l.length ≤ accessCount id acc) :
    handlerAccess E s R (.table id) acc gicrAccess gicrId =
      (fieldsLoop E id acc.write l 0 s (if acc.write then acc.val else 0)).map fun (s, val) =>
        ⟨s, if acc.write then none else some val⟩ := by
  obtain ⟨fields, hfields, -, hread⟩ := hid.fields hv3
  have hloop : genericLoop E (regHandlerInfoTable .v3 id) fields acc gicrId (accessCount id acc) 0 s
      (if acc.write then acc.val else 0) =
        fieldsLoop E id acc.write l 0 s (if acc.write then acc.val else 0) := by
    apply genericLoop_eq_fieldsLoop hid hread _ hlength
    intro p hp
    rw [Nat.zero_add]
    exact hcovered p hp
  simp only [handlerAccess, hv3, hid.regAccess, vgicEmulGenericAccess, hvalid, Bool.xor_self, Bool.not_false,
    Bool.or_true, if_true, hfields, Option.bind_some, fieldCount_eq hid h, hloop]

theorem RedistAccess.valid (hid : id.InBoth) (hv3 : E.cfg.version = .v3)
    (hframe : (R.vgicrAddr E.current.vm).toNat % 0x10000 = 0) (h : RedistAccess E R id acc r k) :
    gicIsPriv (firstInt E (regHandlerInfoTable .v3 id) acc).toNat = true := by
  have hpriv := h.priv
  rw [firstInt_v3 hid hv3 (h.addr_low hid hframe)]
  apply decide_eq_true
  unfold gicCpuPriv
  rcases hid.bits_cases with hbits | hbits | hbits
  all_goals
    rw [hbits] at hpriv ⊢
    omega

theorem DistAccess.valid (hid : id.InBoth) (hv3 : E.cfg.version = .v3) (h : DistAccess E id acc k) :
    gicIsPriv (firstInt E (regHandlerInfoTable .v3 id) acc).toNat = false := by
  have hshared := h.shared
  rw [firstInt_v3 hid hv3 h.addr]
  apply decide_eq_false
  unfold gicCpuPriv
  rcases hid.bits_cases with hbits | hbits | hbits
  all_goals
    rw [hbits] at hshared ⊢
    omega

/-! ### The accesses -/

/-- The handler that is taken takes the same widths as the register's own. -/
theorem RedistAccess.alignment (hid : id.InBoth) (hframe : (R.vgicrAddr E.current.vm).toNat % 0x10000 = 0)
    (h : RedistAccess E R id acc r k) :
    (vgicrHandler (R.vgicrAddr E.current.vm) acc.addr).alignment .v3 = (regHandlerInfoTable .v3 id).alignment := by
  rw [h.handler hid hframe]
  cases hid with
  | ipriorityr => rfl
  | isenabler | icenabler | ispendr | icpendr | isactiver | icactiver | icfgr =>
    rw [if_neg (by decide)]
    split
    · rfl
    · rfl

theorem DistAccess.alignment (hid : id.InBoth) (h : DistAccess E id acc k) :
    (vgicdHandler .v3 acc.addr).alignment .v3 = (regHandlerInfoTable .v3 id).alignment := by
  rw [h.handler hid]
  split
  · rename_i hhigh
    rw [hhigh.1]
    rfl
  · rfl

theorem RedistAccess.emul (hid : id.InBoth) (hv3 : E.cfg.version = .v3)
    (hframe : (R.vgicrAddr E.current.vm).toNat % 0x10000 = 0) (h : RedistAccess E R id acc r k) :
    vgicrEmulHandler E s R acc =
      if (regHandlerInfoTable .v3 id).alignment &&& acc.width ≠ 0 then
        (handlerAccess E s R (vgicrHandler (R.vgicrAddr E.current.vm) acc.addr) acc true r).map fun r => (true, r)
      else some (false, ⟨s, none⟩) := by
  simp only [vgicrEmulHandler, hv3, h.alignment hid hframe, h.check, h.getId hid, h.vcpu, or_true, if_true,
    decide_eq_true_eq]

theorem DistAccess.emul (hid : id.InBoth) (hv3 : E.cfg.version = .v3) (h : DistAccess E id acc k) :
    vgicdEmulHandler E s R acc =
      if (regHandlerInfoTable .v3 id).alignment &&& acc.width ≠ 0 then
        (handlerAccess E s R (vgicdHandler .v3 acc.addr) acc false E.current.idx).map fun r => (true, r)
      else some (false, ⟨s, none⟩) := by
  simp only [vgicdEmulHandler, hv3, h.alignment hid, h.check, decide_eq_true_eq]

/-- Where the decoder finds the register, the access does what it is to do; so it does where it is refused. -/
theorem RedistAccess.effect (hid : id.InBoth) (hv3 : E.cfg.version = .v3)
    (hframe : (R.vgicrAddr E.current.vm).toNat % 0x10000 = 0) (h : RedistAccess E R id acc r k)
    (hfound : acc.width = 4 → vgicrHandler (R.vgicrAddr E.current.vm) acc.addr = .table id) :
    vgicrEmulHandler E s R acc = frameEffect E s id acc (privInts E id acc r k) := by
  rw [h.emul hid hv3 hframe]
  unfold frameEffect
  by_cases htaken : (regHandlerInfoTable .v3 id).alignment &&& acc.width ≠ 0
  · have htable : vgicrHandler (R.vgicrAddr E.current.vm) acc.addr = .table id := by
      rcases h.taken hid htaken with hwidth | ⟨rfl, -⟩
      · exact hfound (BitVec.eq_of_toNat_eq hwidth)
      · rw [h.handler hid hframe]
        rfl
    rw [if_pos htaken, if_pos htaken, htable,
      handlerAccess_table hid hv3 h.toAlignedAccess (h.valid hid hv3 hframe)
        (fun p hp => h.covered hid hv3 hframe htaken hp) (by simp [privInts]), Option.map_map]
    rfl
  · rw [if_neg htaken, if_neg htaken]

theorem DistAccess.effect (hid : id.InBoth) (hv3 : E.cfg.version = .v3) (h : DistAccess E id acc k)
    (hfound : acc.width = 4 → vgicdHandler .v3 acc.addr = .table id) :
    vgicdEmulHandler E s R acc = frameEffect E s id acc (sharedInts E id acc k) := by
  rw [h.emul hid hv3]
  unfold frameEffect
  by_cases htaken : (regHandlerInfoTable .v3 id).alignment &&& acc.width ≠ 0
  · have htable : vgicdHandler .v3 acc.addr = .table id := by
      rcases h.taken hid htaken with hwidth | ⟨rfl, -⟩
      · exact hfound (BitVec.eq_of_toNat_eq hwidth)
      · rw [h.handler hid]
        rfl
    rw [if_pos htaken, if_pos htaken, htable,
      handlerAccess_table hid hv3 h.toAlignedAccess (h.valid hid hv3)
        (fun p hp => h.covered hid hv3 htaken hp)
        (by simpa [sharedInts] using Nat.min_le_left _ _), Option.map_map]
    rfl
  · rw [if_neg htaken, if_neg htaken]

/-- The handler that is taken for an active register does not work on private interrupts there. -/
theorem vgicEmulGenericAccess_routed (hv3 : E.cfg.version = .v3) {gicrId : Nat}
    (hactive : id = .isactiver ∨ id = .icactiver) (haddr : acc.addr.toNat % 0x10000 = id.base) :
    handlerAccess E s R (.table id.routed) acc true gicrId = some (vgicEmulRazwi s acc) := by
  have hmask : gicdRegMask .v3 acc.addr = BitVec.ofNat 64 id.base := by
    apply BitVec.eq_of_toNat_eq
    rw [gicdRegMask_v3, haddr]
    rcases hactive with rfl | rfl
    · rfl
    · rfl
  have hfirst : gicIsPriv (firstInt E (regHandlerInfoTable .v3 id.routed) acc).toNat = false := by
    unfold firstInt
    rw [hv3, hmask]
    rcases hactive with rfl | rfl
    · decide
    · decide
  have hgeneric : (regHandlerInfoTable .v3 id.routed).regAccess = .generic := by
    rcases hactive with rfl | rfl
    · rfl
    · rfl
  simp only [handlerAccess, hv3, hgeneric, vgicEmulGenericAccess, hfirst, reduceCtorEq, decide_false,
    Bool.xor_false, Bool.not_true, Bool.or_self, Bool.false_eq_true, if_false, Option.map_some, vgicEmulRazwi]
  cases acc.write with
  | true => rfl
  | false => rfl

theorem RegHandlerId.InBoth.takes_four (hid : id.InBoth) (hwidth : acc.width = 4) :
    (regHandlerInfoTable .v3 id).alignment &&& acc.width ≠ 0 := by
  rw [hwidth]
  cases hid <;> decide

theorem RedistAccess.razwi (hid : id.InBoth) (hv3 : E.cfg.version = .v3)
    (hframe : (R.vgicrAddr E.current.vm).toNat % 0x10000 = 0) (h : RedistAccess E R id acc r k)
    (hwidth : acc.width = 4) (hlost : id = .isactiver ∨ id = .icactiver ∨
      (R.vgicrAddr E.current.vm).toNat % 0x20000 ≠ 0 ∧ id ≠ .ipriorityr) :
    vgicrEmulHandler E s R acc = some (true, vgicEmulRazwi s acc) := by
  rw [h.emul hid hv3 hframe, if_pos (hid.takes_four hwidth), h.handler hid hframe]
  have hroute (hactive : id = .isactiver ∨ id = .icactiver) :
      handlerAccess E s R (.table id.routed) acc true r = some (vgicEmulRazwi s acc) := by
    have haligned := h.aligned
    have hpriv := h.priv
    have hlow := h.addr_low hid hframe
    have hbits : id.bits = 1 := by
      rcases hactive with rfl | rfl
      · rfl
      · rfl
    have hbase := hid.base_mod
    rw [show acc.width.toNat = 4 by rw [hwidth]; rfl] at haligned
    apply vgicEmulGenericAccess_routed hv3 hactive
    rw [hlow]
    omega
  have hprio : id ≠ .ipriorityr := by
    rcases hlost with rfl | rfl | hstart
    · decide
    · decide
    · exact hstart.2
  rw [if_neg hprio]
  split
  · rename_i hcase
    rcases hlost with hid' | hid' | hstart
    · rw [hroute (.inl hid')]
      rfl
    · rw [hroute (.inr hid')]
      rfl
    · exact absurd hcase.1 hstart.1
  · rfl

theorem DistAccess.razwi (hid : id.InBoth) (hv3 : E.cfg.version = .v3) (h : DistAccess E id acc k)
    (hwidth : acc.width = 4) (hlost : id = .icfgr ∧ 0x80 ≤ k) :
    vgicdEmulHandler E s R acc = some (true, vgicEmulRazwi s acc) := by
  rw [h.emul hid hv3, if_pos (hid.takes_four hwidth), h.handler hid, if_pos hlost]
  rfl

/-! ### What is lost where an access does nothing -/

/-- All is set in the interrupt. -/
def allSet (int : VgicInt) : VgicInt := { int with enabled := true, state := .pendact, cfg := 3, prio := 0xff }

theorem shows_allSet (hid : id.InBoth) (int : VgicInt) : (id.shows (allSet int)).getLsbD 0 = true := by
  cases hid with
  | icfgr =>
    change ((3 : BitVec 8).setWidth 64 &&& 3).getLsbD 0 = true
    decide
  | ipriorityr =>
    change ((0xff : BitVec 8).setWidth 64).getLsbD 0 = true
    decide
  | isenabler | icenabler | ispendr | icpendr | isactiver | icactiver =>
    change (ofBool64 true).getLsbD 0 = true
    decide

/-- The interrupt `i` belongs to `owner`, all are set, and no message can be sent. -/
def deafState (i : IntRef) (owner : VcpuRef) : VgicState :=
  { vgicAtBoot .v3 with
    ints := update (fun j => allSet (vgicIntAtBoot .v3 j)) i
      (allSet { vgicIntAtBoot .v3 i with owner := some owner })
    msgs := { (vgicAtBoot .v3).msgs with bitmap := fun _ => BitVec.allOnes 32 } }

theorem cpuSendMsg_deaf {i : IntRef} {owner : VcpuRef} {cfg : MsgConfig} {c : PCpuId} {msg : CpuMsg} :
    cpuSendMsg cfg (deafState i owner).msgs c msg = none := by
  unfold cpuSendMsg
  rcases objpoolAlloc_spec (fun _ => BitVec.allOnes 32) cfg.poolSize_lt with ⟨hnone, -⟩ | ⟨n, -, -, hfree⟩
  · change (objpoolAlloc (fun _ => BitVec.allOnes 32) cfg.poolSize).map _ = none
    rw [hnone]
    rfl
  · have hlt : n % granuleLen < 32 := Nat.mod_lt _ (by decide)
    rw [bitmapGet_eq, BitVec.getLsbD_allOnes, decide_eq_true hlt] at hfree
    cases hfree

/-- The bits that are read stay. -/
theorem fieldsLoop_read (l : List IntRef) (i : Nat) (val : BitVec 64) :
    ∃ v, fieldsLoop E id false l i s val = some (s, v) ∧ ∀ b, val.getLsbD b = true → v.getLsbD b = true := by
  induction l generalizing i val with
  | nil => exact ⟨val, rfl, fun b hb => hb⟩
  | cons interrupt l ih =>
    obtain ⟨v, hv, hbits⟩ := ih (i + 1) (val ||| id.shows (s.ints interrupt) <<< (i * id.bits))
    refine ⟨v, ?_, fun b hb => hbits b ?_⟩
    · simpa [fieldsLoop] using hv
    · rw [BitVec.getLsbD_or, hb, Bool.true_or]

/-- A read is to show the first interrupt. -/
theorem frameEffect_read_ne {i : IntRef} {l : List IntRef} (hid : id.InBoth) (hwidth : acc.width = 4)
    (hread : acc.write = false) (hshows : (id.shows (s.ints i)).getLsbD 0 = true) :
    frameEffect E s id acc (i :: l) ≠ some (true, vgicEmulRazwi s acc) := by
  obtain ⟨v, hv, hbits⟩ := @fieldsLoop_read E s id l 1 (0 ||| id.shows (s.ints i) <<< (0 * id.bits))
  have hbit : v.getLsbD 0 = true := by
    apply hbits
    rw [Nat.zero_mul, BitVec.getLsbD_or, BitVec.shiftLeft_zero, hshows, Bool.or_true]
  unfold frameEffect
  rw [if_pos (hid.takes_four hwidth), hread]
  simp only [fieldsLoop, if_false, Bool.false_eq_true]
  rw [hv]
  intro heq
  have hval : some v = some 0 := by simpa [vgicEmulRazwi, hread] using heq
  rw [Option.some.inj hval] at hbit
  exact absurd hbit (by decide)

/-- An access that covers an interrupt is not to do nothing in every state. -/
theorem frameEffect_ne_razwi {i : IntRef} {l : List IntRef} (hid : id.InBoth) (hwidth : acc.width = 4) :
    ∃ s, frameEffect E s id acc (i :: l) ≠ some (true, vgicEmulRazwi s acc) := by
  refine ⟨deafState i ⟨E.current.vm, E.current.idx + 1⟩, ?_⟩
  cases hwrite : acc.write with
  | true =>
    have howner : ((deafState i ⟨E.current.vm, E.current.idx + 1⟩).ints i).owner =
        some ⟨E.current.vm, E.current.idx + 1⟩ := by
      simp [deafState, allSet]
    have hother : some (⟨E.current.vm, E.current.idx + 1⟩ : VcpuRef) ≠ some E.current := by
      intro heq
      have hidx := congrArg VcpuRef.idx (Option.some.inj heq)
      exact absurd hidx (Nat.succ_ne_self _)
    unfold frameEffect
    rw [if_pos (hid.takes_four hwidth), hwrite]
    simp only [fieldsLoop, if_true, vgicIntSetField, vgicGetOwnership, howner, hother, if_false, reduceCtorEq,
      Bool.false_eq_true, Option.bind_some, vgicSendMsg, cpuSendMsg_deaf, Option.map_none, Option.bind_none, ne_eq,
      not_false_eq_true]
  | false =>
    apply frameEffect_read_ne hid hwidth hwrite
    simp only [deafState, update_self, shows_allSet hid]

theorem accessCount_pos (hid : id.InBoth) (hwidth : acc.width = 4) : 0 < accessCount id acc := by
  unfold accessCount
  rw [hwidth]
  cases hid <;> decide

theorem privInts_cons (hid : id.InBoth) (hwidth : acc.width = 4) : ∃ i l, privInts E id acc r k = i :: l := by
  apply List.exists_cons_of_ne_nil
  rw [← List.length_pos_iff, privInts, List.length_map, List.length_range]
  exact accessCount_pos hid hwidth

theorem DistAccess.sharedInts_cons (hid : id.InBoth) (h : DistAccess E id acc k) (hwidth : acc.width = 4) :
    ∃ i l, sharedInts E id acc k = i :: l := by
  have hpos := accessCount_pos hid hwidth
  have hfirst := h.implemented
  apply List.exists_cons_of_ne_nil
  rw [← List.length_pos_iff, sharedInts, List.length_map, List.length_range]
  omega

/-- The frames agree on a register but for the active ones, for which the redistributor does nothing; but for the
upper half of the configuration registers, for which the distributor does nothing; and but for a redistributor whose
frame is not aligned to its size. -/
theorem framesAgree_iff (hid : id.InBoth) (hv3 : E.cfg.version = .v3)
    (hframe : (R.vgicrAddr E.current.vm).toNat % 0x10000 = 0) (h : RedistAccess E R id acc r k)
    (h' : DistAccess E id acc' k') (hwidth : acc'.width = acc.width) :
    FramesAgree E R id acc acc' r k k' ↔
      (acc.width = 4 → id ≠ .isactiver ∧ id ≠ .icactiver ∧ ¬ (id = .icfgr ∧ 0x80 ≤ k') ∧
        ((R.vgicrAddr E.current.vm).toNat % 0x20000 = 0 ∨ id = .ipriorityr)) := by
  constructor
  · intro hagree h4
    have hredist : ¬ (id = .isactiver ∨ id = .icactiver ∨
        (R.vgicrAddr E.current.vm).toNat % 0x20000 ≠ 0 ∧ id ≠ .ipriorityr) := by
      intro hlost
      obtain ⟨i, l, hints⟩ := @privInts_cons E id acc r k hid h4
      obtain ⟨s, hs⟩ := @frameEffect_ne_razwi E id acc i l hid h4
      apply hs
      rw [← hints, ← hagree.redist, h.razwi hid hv3 hframe h4 hlost]
    have hdist : ¬ (id = .icfgr ∧ 0x80 ≤ k') := by
      intro hlost
      have h4' := hwidth.trans h4
      obtain ⟨i, l, hints⟩ := h'.sharedInts_cons hid h4'
      obtain ⟨s, hs⟩ := @frameEffect_ne_razwi E id acc' i l hid h4'
      apply hs
      rw [← hints, ← hagree.dist, h'.razwi hid hv3 h4' hlost]
    refine ⟨fun hid' => hredist (.inl hid'), fun hid' => hredist (.inr (.inl hid')), hdist, ?_⟩
    by_contra hlost
    rw [not_or] at hlost
    exact hredist (.inr (.inr hlost))
  · intro hcond
    obtain ⟨fields, hfields, hsets, -⟩ := hid.fields hv3
    refine ⟨fun s => ?_, fun s => ?_, fields, hfields, hsets⟩
    · apply h.effect hid hv3 hframe
      intro h4
      obtain ⟨hset, hclear, -, hstart⟩ := hcond h4
      have haligned := h.aligned
      have hlow := h.addr_low hid hframe
      have hbase := hid.base_mod
      rw [show acc.width.toNat = 4 by rw [h4]; rfl] at haligned
      rw [h.handler hid hframe]
      by_cases hprio : id = .ipriorityr
      · rw [if_pos hprio, hprio]
      · rw [if_neg hprio, if_pos ⟨hstart.resolve_right hprio, by omega⟩]
        congr 1
        cases hid with
        | isactiver => exact absurd rfl hset
        | icactiver => exact absurd rfl hclear
        | isenabler | icenabler | ispendr | icpendr | icfgr | ipriorityr => rfl
    · apply h'.effect hid hv3
      intro h4
      rw [h'.handler hid, if_neg (hcond (hwidth ▸ h4)).2.2.1]

/-! ### Two VMs -/

/-- The frames where the configurations have them. -/
def emulRegsAtBoot : EmulRegs := { zeroRegs with vgicrAddr := fun _ => 0x080a0000 }

/-- A vCPU enables its private interrupt 0, or the shared interrupt 32. -/
theorem framesAgree_iff_enable :
    FramesAgree ((twoVmsBoot .v3).env (twoVms .v3 4 (by decide)) 0 ⟨1, 0⟩) emulRegsAtBoot .isenabler
        ⟨0x080b0100, true, 4, 1⟩ ⟨0x08000104, true, 4, 1⟩ 0 0 4 ↔
      ((4 : BitVec 64) = 4 → RegHandlerId.isenabler ≠ .isactiver ∧ RegHandlerId.isenabler ≠ .icactiver ∧
        ¬ (RegHandlerId.isenabler = .icfgr ∧ 0x80 ≤ 4) ∧
          ((0x080a0000 : BitVec 64).toNat % 0x20000 = 0 ∨ RegHandlerId.isenabler = .ipriorityr)) :=
  @framesAgree_iff ((twoVmsBoot .v3).env (twoVms .v3 4 (by decide)) 0 ⟨1, 0⟩) emulRegsAtBoot .isenabler
    ⟨0x080b0100, true, 4, 1⟩ ⟨0x08000104, true, 4, 1⟩ 0 0 4 .isenabler rfl (by decide)
    ⟨⟨by decide, by decide⟩, by decide, by decide, by decide⟩
    ⟨⟨by decide, by decide⟩, by decide, by decide, by decide⟩ rfl

/-- The vCPU of VM 1 enables its private interrupt 0, sets it pending, takes it, and disables it. -/
def activePrivate : List HvAction :=
  startFirst ++ [.vgic 0 (.setField .isenabler (.priv ⟨1, 0⟩ 0) 1),
    .vgic 0 (.setField .ispendr (.priv ⟨1, 0⟩ 0) 1), .vgic 0 (.guest (.acknowledge 0)),
    .vgic 0 (.setField .icenabler (.priv ⟨1, 0⟩ 0) 1)]

/-- The private interrupt is active, and a read of `ISACTIVER0` of the redistributor returns 0. -/
theorem redist_active_lost : ∃ y,
    (hvMachine (twoVms .v3 4 (by decide))).Init (twoVmsBoot .v3) ∧
      (hvMachine (twoVms .v3 4 (by decide))).Run (twoVmsBoot .v3) activePrivate y ∧
      (y.sched.cpus 0).vcpu = some ⟨1, 0⟩ ∧ (y.vgic.ints (.priv ⟨1, 0⟩ 0)).state.act = true ∧
      RedistAccess (y.env (twoVms .v3 4 (by decide)) 0 ⟨1, 0⟩) emulRegsAtBoot .isactiver
        ⟨0x080b0300, false, 4, 0⟩ 0 0 ∧
      DistAccess (y.env (twoVms .v3 4 (by decide)) 0 ⟨1, 0⟩) .isactiver ⟨0x08000304, false, 4, 0⟩ 4 ∧
      vgicrEmulHandler (y.env (twoVms .v3 4 (by decide)) 0 ⟨1, 0⟩) y.vgic emulRegsAtBoot
        ⟨0x080b0300, false, 4, 0⟩ = some (true, ⟨y.vgic, some 0⟩) ∧
      ¬ FramesAgree (y.env (twoVms .v3 4 (by decide)) 0 ⟨1, 0⟩) emulRegsAtBoot .isactiver
        ⟨0x080b0300, false, 4, 0⟩ ⟨0x08000304, false, 4, 0⟩ 0 0 4 := by
  obtain ⟨y, hrun, hvcpu, hact⟩ : ∃ y,
      (hvMachine (twoVms .v3 4 (by decide))).run (twoVmsBoot .v3) activePrivate = some y ∧
      (y.sched.cpus 0).vcpu = some ⟨1, 0⟩ ∧ (y.vgic.ints (.priv ⟨1, 0⟩ 0)).state.act = true :=
    ⟨_, rfl, rfl, rfl⟩
  have hredist : RedistAccess (y.env (twoVms .v3 4 (by decide)) 0 ⟨1, 0⟩) emulRegsAtBoot .isactiver
      ⟨0x080b0300, false, 4, 0⟩ 0 0 :=
    ⟨⟨by decide, by decide⟩, show ((0x080b0300 : BitVec 64) - 0x080a0000).toNat = 0 * 0x20000 + 0x10000 + 0x300 + 0
      by decide, show 0 < 2 by decide, by decide⟩
  have hdist : DistAccess (y.env (twoVms .v3 4 (by decide)) 0 ⟨1, 0⟩) .isactiver ⟨0x08000304, false, 4, 0⟩ 4 :=
    ⟨⟨by decide, by decide⟩, by decide, by decide, show 32 < 64 by decide⟩
  have hrazwi := @RedistAccess.razwi _ y.vgic _ _ _ _ _ .isactiver rfl
    (show (0x080a0000 : BitVec 64).toNat % 0x10000 = 0 by decide) hredist rfl (.inl rfl)
  refine ⟨y, twoVmsBoot_init, Machine.run_eq_some_iff.mp hrun, hvcpu, hact, hredist, hdist, hrazwi, fun hagree => ?_⟩
  rw [hagree.redist] at hrazwi
  apply @frameEffect_read_ne (y.env (twoVms .v3 4 (by decide)) 0 ⟨1, 0⟩) y.vgic .isactiver
    ⟨0x080b0300, false, 4, 0⟩ (.priv ⟨1, 0⟩ 0) _ .isactiver rfl rfl ?_ hrazwi
  change (ofBool64 _).getLsbD 0 = true
  rw [hact]
  decide

end Avisor
