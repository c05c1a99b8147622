import Avisor.Vgic.Emulation
import Avisor.Vgic.Returning

/-!
# The register banks of the distributor

A bank is an array of registers with a field for each interrupt. What a bank is to do is stated for the interrupts
whose fields an access covers, and compared with what `vgicd_emul_handler` does in the GICv2 build.
-/

namespace Avisor

open Function PackedFields

/-- What the guest sets up of an interrupt. -/
@[ext] structure Setup where
  enabled : Bool
  prio : BitVec 8
  cfg : BitVec 8

def VgicInt.setup (int : VgicInt) : Setup := ⟨int.enabled, int.prio, int.cfg⟩

inductive Bank
  | isenabler
  | icenabler
  | ipriorityr
  | icfgr
  deriving DecidableEq

namespace Bank

/-- The handler of the bank. -/
def handlerId : Bank → RegHandlerId
  | isenabler => .isenabler
  | icenabler => .icenabler
  | ipriorityr => .ipriorityr
  | icfgr => .icfgr

/-- The offset of the array in the frame of the distributor. -/
def base : Bank → Nat
  | isenabler => 0x100
  | icenabler => 0x180
  | ipriorityr => 0x400
  | icfgr => 0xc00

/-- The bytes of the array. -/
def size : Bank → Nat
  | isenabler => 0x80
  | icenabler => 0x80
  | ipriorityr => 0x400
  | icfgr => 0x100

/-- The bits of a field. -/
def fieldWidth : Bank → Nat
  | isenabler => 1
  | icenabler => 1
  | ipriorityr => 8
  | icfgr => 2

/-- What a write of `field` is to do to the interrupt `id`: the enabled flag of an SGI stays, and the three lowest
bits of a priority are not implemented. -/
def write (bank : Bank) (id : Nat) (field : BitVec 64) (x : Setup) : Setup :=
  match bank with
  | isenabler => if field.getLsbD 0 && !gicIsSgi id then { x with enabled := true } else x
  | icenabler => if field.getLsbD 0 && !gicIsSgi id then { x with enabled := false } else x
  | ipriorityr => { x with prio := field.setWidth 8 &&& 0xf8 }
  | icfgr => { x with cfg := field.setWidth 8 }

/-- What is to be read of an interrupt. -/
def read (bank : Bank) (x : Setup) : BitVec 64 :=
  match bank with
  | isenabler => ofBool64 x.enabled
  | icenabler => ofBool64 x.enabled
  | ipriorityr => x.prio.setWidth 64
  | icfgr => x.cfg.setWidth 64

end Bank

/-- The offset of an access in the frame of the distributor. -/
def EmulAccess.offset (acc : EmulAccess) : Nat := acc.addr.toNat % 4096

/-- An aligned access of an allowed width to the registers of a bank. -/
structure BankAccess (bank : Bank) (acc : EmulAccess) : Prop where
  base_le : bank.base ≤ acc.offset
  offset_lt : acc.offset < bank.base + bank.size
  width : acc.width = 4 ∨ bank = .ipriorityr ∧ acc.width = 1
  aligned : acc.addr.toNat % acc.width.toNat = 0

/-- The number of fields the access covers. -/
def bankCount (bank : Bank) (acc : EmulAccess) : Nat := acc.width.toNat * 8 / bank.fieldWidth

/-- The interrupt whose field is at place `p` of the access, if it is implemented. -/
def bankInt (E : VgicEnv) (bank : Bank) (acc : EmulAccess) (p : Nat) : Option IntRef :=
  vgicGetInt E E.current ((acc.offset - bank.base) * 8 / bank.fieldWidth + p) E.current.idx

/-- The field at place `p` of what is written. -/
def bankField (bank : Bank) (acc : EmulAccess) (p : Nat) : BitVec 64 :=
  bit64Extract acc.val (p * bank.fieldWidth) bank.fieldWidth

/-- The number of messages for the interrupt at place `p`, at most. -/
def bankTargets (E : VgicEnv) (s : VgicState) (bank : Bank) (acc : EmulAccess) (p : Nat) : Nat :=
  ((bankInt E bank acc p).map (otherTargets E s)).getD 0

/-- The distributor does with the access what the bank is to do. A read returns the fields of the interrupts that
are covered, a write sets the implemented ones of them up and no other interrupt, and it comes back, as far as there
are nodes for the messages it sends. -/
structure BehavesAsBank (E : VgicEnv) (s : VgicState) (R : EmulRegs) (bank : Bank) (acc : EmulAccess) :
    Prop where
  read : acc.write = false → ∃ val, vgicdEmulHandler E s R acc = some (true, ⟨s, some val⟩) ∧
    ∀ b < 64, val.getLsbD b = (decide (b / bank.fieldWidth < bankCount bank acc) &&
      (bankInt E bank acc (b / bank.fieldWidth)).any fun i =>
        (bank.read (s.ints i).setup).getLsbD (b % bank.fieldWidth))
  covered : acc.write = true → ∀ ok r, vgicdEmulHandler E s R acc = some (ok, r) →
    ok = true ∧ ∀ p < bankCount bank acc, ∀ i, bankInt E bank acc p = some i →
      (r.state.ints i).setup = bank.write i.id (bankField bank acc p) (s.ints i).setup
  others : acc.write = true → ∀ ok r, vgicdEmulHandler E s R acc = some (ok, r) →
    ∀ i, (∀ p < bankCount bank acc, bankInt E bank acc p ≠ some i) → (r.state.ints i).setup = (s.ints i).setup
  returns : acc.write = true → LrsHeld E s →
    ((List.range (bankCount bank acc)).map (bankTargets E s bank acc)).sum ≤ freeNodes E.cfg.msg s.msgs →
      vgicdEmulHandler E s R acc ≠ none

variable {E : VgicEnv} {s t : VgicState} {R : EmulRegs} {bank : Bank} {acc : EmulAccess} {i j : IntRef}
  {int int' : VgicInt}

/-! ### Decoding -/

theorem gicdRegMask_toNat (addr : BitVec 64) : (gicdRegMask .v2 addr).toNat = addr.toNat % 4096 := by
  unfold gicdRegMask
  rw [if_pos rfl, BitVec.toNat_and]
  exact Nat.and_two_pow_sub_one_eq_mod _ 12

/-- The decoder finds the bank, but for the upper half of the configuration registers. -/
theorem BankAccess.handler (h : BankAccess bank acc) : vgicdHandler .v2 acc.addr =
    if bank = .icfgr ∧ 0xc80 ≤ acc.offset then .razwi else .table bank.handlerId := by
  have hbase := h.base_le
  have hlt := h.offset_lt
  unfold vgicdHandler
  simp only [gicdRegMask_toNat]
  change bank.base ≤ acc.addr.toNat % 4096 at hbase
  change acc.addr.toNat % 4096 < bank.base + bank.size at hlt
  change _ = if bank = .icfgr ∧ 0xc80 ≤ acc.addr.toNat % 4096 then _ else _
  generalize acc.addr.toNat % 4096 = off at *
  cases bank with
  | isenabler =>
    simp only [Bank.base, Bank.size] at hbase hlt
    rw [show off / 128 = 2 by omega]
    rfl
  | icenabler =>
    simp only [Bank.base, Bank.size] at hbase hlt
    rw [show off / 128 = 3 by omega]
    rfl
  | ipriorityr =>
    simp only [Bank.base, Bank.size] at hbase hlt
    split
    all_goals first
      | omega
      | rw [if_pos (by omega), if_neg (by simp)]
        rfl
  | icfgr =>
    simp only [Bank.base, Bank.size] at hbase hlt
    by_cases hhigh : 0xc80 ≤ off
    · rw [show off / 128 = 25 by omega, if_neg (by omega), if_neg (by omega), if_neg (by omega),
        if_neg (by omega)]
      exact (if_pos ⟨rfl, hhigh⟩).symm
    · rw [show off / 128 = 24 by omega]
      exact (if_neg fun hicfgr => hhigh hicfgr.2).symm

theorem and_eq_zero_iff {x : BitVec 64} {k : Nat} (hk : k < 64) :
    x &&& (BitVec.ofNat 64 (2 ^ k) - 1) = 0 ↔ x.toNat % 2 ^ k = 0 := by
  have hpow : 2 ^ k < 2 ^ 64 := Nat.pow_lt_pow_right (by decide) hk
  have hone : 1 ≤ 2 ^ k := Nat.one_le_two_pow
  have hmask : (BitVec.ofNat 64 (2 ^ k) - 1).toNat = 2 ^ k - 1 := by
    have htoNat : (1 : BitVec 64).toNat = 1 := rfl
    rw [BitVec.toNat_sub, BitVec.toNat_ofNat, htoNat]
    omega
  rw [← BitVec.toNat_inj, BitVec.toNat_and, hmask, Nat.and_two_pow_sub_one_eq_mod]
  rfl

theorem BankAccess.aligned_eq (h : BankAccess bank acc) {alignment : BitVec 64}
    (h4 : alignment &&& 4 ≠ 0) (h1 : bank = .ipriorityr → alignment &&& 1 ≠ 0) :
    vgicCheckRegAlignment acc alignment = true := by
  have haligned := h.aligned
  unfold vgicCheckRegAlignment
  rw [Bool.and_eq_true, decide_eq_true_eq, decide_eq_true_eq]
  rcases h.width with hwidth | ⟨hprio, hwidth⟩
  · rw [hwidth] at haligned ⊢
    exact ⟨h4, (and_eq_zero_iff (k := 2) (by decide)).mpr haligned⟩
  · rw [hwidth] at haligned ⊢
    exact ⟨h1 hprio, (and_eq_zero_iff (k := 0) (by decide)).mpr haligned⟩

theorem Bank.fieldWidth_pos (bank : Bank) : 0 < bank.fieldWidth := by
  cases bank <;> decide

theorem Bank.fieldWidth_eq (bank : Bank) (version : GicVersion) :
    (regHandlerInfoTable version bank.handlerId).fieldWidth = bank.fieldWidth := by
  cases bank <;> rfl

theorem BankAccess.width_toNat (h : BankAccess bank acc) :
    acc.width.toNat = 4 ∨ bank = .ipriorityr ∧ acc.width.toNat = 1 := by
  rcases h.width with hwidth | ⟨hprio, hwidth⟩
  · exact .inl (by rw [hwidth]; rfl)
  · exact .inr ⟨hprio, by rw [hwidth]; rfl⟩

theorem BankAccess.fieldCount (h : BankAccess bank acc) :
    fieldCount (regHandlerInfoTable .v2 bank.handlerId) acc = bankCount bank acc := by
  unfold Avisor.fieldCount bankCount
  rw [bank.fieldWidth_eq]
  congr 1
  rw [BitVec.toNat_mul]
  have height : (8 : BitVec 64).toNat = 8 := rfl
  rw [height]
  rcases h.width_toNat with hwidth | ⟨-, hwidth⟩
  · rw [hwidth]
  · rw [hwidth]

/-- The fields of an access are within a word. -/
theorem BankAccess.count_mul_le (h : BankAccess bank acc) : bankCount bank acc * bank.fieldWidth ≤ 32 := by
  unfold bankCount
  have hle := Nat.div_mul_le_self (acc.width.toNat * 8) bank.fieldWidth
  rcases h.width_toNat with hwidth | ⟨-, hwidth⟩
  · omega
  · omega

theorem firstInt_toNat (hv2 : E.cfg.version = .v2) (h : BankAccess bank acc) :
    (firstInt E (regHandlerInfoTable .v2 bank.handlerId) acc).toNat =
      (acc.offset - bank.base) * 8 / bank.fieldWidth := by
  have hbase := h.base_le
  have hlt := h.offset_lt
  have hmask := gicdRegMask_toNat acc.addr
  unfold firstInt
  rw [hv2, bank.fieldWidth_eq]
  unfold EmulAccess.offset at *
  have height : (8 : BitVec 64).toNat = 8 := rfl
  have hregroup : (regHandlerInfoTable .v2 bank.handlerId).regroupBase.toNat = bank.base := by
    cases bank <;> rfl
  have hwidth : (BitVec.ofNat 64 bank.fieldWidth).toNat = bank.fieldWidth := by cases bank <;> rfl
  have hsize : bank.base + bank.size ≤ 4096 := by cases bank <;> decide
  rw [BitVec.toNat_udiv, BitVec.toNat_mul, BitVec.toNat_sub, hmask, hregroup, height, hwidth]
  congr 1
  omega

theorem bankInt_eq (hv2 : E.cfg.version = .v2) (h : BankAccess bank acc) {p : Nat} (hp : p ≤ 32) :
    coveredInt E (regHandlerInfoTable .v2 bank.handlerId) acc E.current.idx p = bankInt E bank acc p := by
  unfold coveredInt bankInt
  congr 1
  have hlt := h.offset_lt
  have hsize : bank.base + bank.size ≤ 4096 := by cases bank <;> decide
  have hfirst : (acc.offset - bank.base) * 8 / bank.fieldWidth ≤ (acc.offset - bank.base) * 8 :=
    Nat.div_le_self _ _
  rw [BitVec.toNat_add, firstInt_toNat hv2 h, BitVec.toNat_ofNat]
  generalize (acc.offset - bank.base) * 8 / bank.fieldWidth = first at hfirst ⊢
  omega

/-- The implemented interrupts come first. -/
theorem bankInt_isSome {p q : Nat} (hqp : q ≤ p) (h : bankInt E bank acc p = some i) :
    ∃ j, bankInt E bank acc q = some j := by
  unfold bankInt vgicGetInt at *
  simp only [if_true] at *
  split at h
  · rw [if_pos (by omega)]
    exact ⟨_, rfl⟩
  · split at h
    · split
      · exact ⟨_, rfl⟩
      · rw [if_pos (by omega)]
        exact ⟨_, rfl⟩
    · cases h

theorem bankInt_inj {p q : Nat} (hp : bankInt E bank acc p = some i) (hq : bankInt E bank acc q = some i) :
    p = q := by
  have hidp := vgicGetInt_id hp
  have hidq := vgicGetInt_id hq
  omega

/-! ### What a register write sets up -/

theorem IntShift.setup (h : IntShift E i int int') : int'.setup = int.setup := by
  cases h with
  | own | disown | release | place | inject | source | deactivate => rfl
  | remove lr =>
    unfold intOfLr
    dsimp only
    split
    · split
      · rfl
      · split
        · rfl
        · rfl
    · rfl

theorem Shifts.setup (h : Shifts E s t) (i : IntRef) : (t.ints i).setup = (s.ints i).setup :=
  h.invariant (P := fun int => int.setup = (s.ints i).setup)
    (fun _ _ hshift hsame => hshift.setup.trans hsame) rfl

/-- Nobody but the vCPU owns the interrupt. -/
def Ownable (E : VgicEnv) (int : VgicInt) : Prop := int.owner = none ∨ int.owner = some E.current

theorem IntShift.ownable (h : IntShift E i int int') (howner : Ownable E int) : Ownable E int' := by
  cases h with
  | own | inject => exact .inr rfl
  | disown => exact .inl rfl
  | release | place | source | deactivate => exact howner
  | remove lr => exact howner.imp intOfLr_same.2.1.trans intOfLr_same.2.1.trans

theorem Shifts.ownable (h : Shifts E s t) (howner : Ownable E (s.ints i)) : Ownable E (t.ints i) :=
  h.invariant (fun _ _ => IntShift.ownable) howner

/-- What is known of the interrupts behind a register write to `i`. -/
structure SetUp (E : VgicEnv) (fields : RegFields) (i : IntRef) (data : BitVec 64) (s t : VgicState) : Prop where
  self : ∃ int, int.setup = (s.ints i).setup ∧
    (t.ints i).setup = (fields.updateField E E.current i data int).2.setup
  others : ∀ j, j ≠ i → (t.ints j).setup = (s.ints j).setup
  ownable : ∀ j, Ownable E (s.ints j) → Ownable E (t.ints j)
  targets : (∀ int, (fields.updateField E E.current i data int).2.targets = int.targets) →
    ∀ j, gicIsSgi j.id = false → (t.ints j).targets = (s.ints j).targets

theorem FieldSet.setUp {fields : RegFields} {data : BitVec 64} (h : FieldSet E fields i data s t)
    (hsame : ∀ int, SamePlace E i int (fields.updateField E E.current i data int).2) :
    SetUp E fields i data s t := by
  obtain ⟨u, hremove, -, hroute⟩ := h.sets
  have hints : (updateInt E u fields E.current i data).ints =
      update u.ints i (fields.updateField E E.current i data (u.ints i)).2 := updateInt_ints fields u
  have hself : (updateInt E u fields E.current i data).ints i =
      (fields.updateField E E.current i data (u.ints i)).2 := by rw [hints, update_self]
  have hothers (j) (hj : j ≠ i) : (updateInt E u fields E.current i data).ints j = u.ints j := by
    rw [hints, update_of_ne hj]
  constructor
  · refine ⟨u.ints i, hremove.setup i, ?_⟩
    rw [hroute.setup i, hself]
  · intro j hj
    rw [hroute.setup j, hothers j hj, hremove.setup j]
  · intro j hj
    apply hroute.ownable
    have hu := hremove.ownable hj
    by_cases hji : j = i
    · subst hji
      rw [hself]
      exact hu.imp (hsame _).owner.trans (hsame _).owner.trans
    · rwa [hothers j hji]
  · intro htargets j hsgi
    rw [hroute.targets hsgi, ← hremove.targets hsgi]
    by_cases hji : j = i
    · subst hji
      rw [hself, htargets]
    · rw [hothers j hji]

theorem setField_setUp {handlers : RegHandlerInfo} {fields : RegFields} {data : BitVec 64}
    (hfields : handlers.fields = some fields) (howner : Ownable E (s.ints i))
    (hsame : ∀ int, SamePlace E i int (fields.updateField E E.current i data int).2)
    (h : vgicIntSetField E s handlers E.current i data = some t) : SetUp E fields i data s t := by
  have howned : Shifts E s (vgicGetOwnership s E.current i).2 := getOwnership_shifts s
  have hgets := vgicGetOwnership_granted.mpr howner
  unfold vgicIntSetField at h
  dsimp only at h
  rw [if_pos hgets] at h
  obtain ⟨u, hremove, hinLr, hroute⟩ := (setFieldOwned_sets hfields (getOwnership_owner hgets) h).sets
  exact FieldSet.setUp ⟨u, howned.trans hremove, hinLr, hroute⟩ hsame

/-- The functions of a bank. -/
def Bank.fields : Bank → RegFields
  | .isenabler => ⟨vgicIntGetEnable, vgicIntSetEnable, vgicIntEnableHw⟩
  | .icenabler => ⟨vgicIntGetEnable, vgicIntClearEnable, vgicIntEnableHw⟩
  | .ipriorityr => ⟨vgicIntGetPrio, vgicIntSetPrio, vgicIntSetPrioHw⟩
  | .icfgr => ⟨vgicIntGetCfg, vgicIntSetCfg, vgicIntSetCfgHw⟩

theorem Bank.fields_eq (bank : Bank) (version : GicVersion) :
    (regHandlerInfoTable version bank.handlerId).fields = some bank.fields := by
  cases bank <;> rfl

theorem Bank.regAccess_eq (bank : Bank) (version : GicVersion) :
    (regHandlerInfoTable version bank.handlerId).regAccess = .generic := by
  cases bank <;> rfl

theorem Bank.readField_eq (bank : Bank) (vcpu : VcpuRef) :
    bank.fields.readField E vcpu i int = bank.read int.setup := by
  cases bank <;> rfl

theorem Bank.samePlace (bank : Bank) (data : BitVec 64) :
    SamePlace E i int (bank.fields.updateField E E.current i data int).2 :=
  updateField_samePlace (bank.fields_eq .v2)

theorem Bank.targets (bank : Bank) (data : BitVec 64) :
    (bank.fields.updateField E E.current i data int).2.targets = int.targets := by
  have henable (enable : Bool) : (vgicIntUpdateEnable E enable i int).2.targets = int.targets := by
    unfold vgicIntUpdateEnable
    split
    · rfl
    · split
      · rfl
      · rfl
  cases bank with
  | isenabler =>
    simp only [fields, vgicIntSetEnable]
    split
    · rfl
    · exact henable true
  | icenabler =>
    simp only [fields, vgicIntClearEnable]
    split
    · rfl
    · exact henable false
  | ipriorityr => rfl
  | icfgr => rfl

theorem updateEnable_setup (hv2 : E.cfg.version = .v2) (enable : Bool) :
    (vgicIntUpdateEnable E enable i int).2.setup =
      if gicIsSgi i.id then int.setup else { int.setup with enabled := enable } := by
  unfold vgicIntUpdateEnable
  rw [hv2]
  by_cases hsgi : gicIsSgi i.id = true
  · simp [hsgi]
  · by_cases hsame : enable = int.enabled
    · simp [hsgi, hsame, VgicInt.setup]
    · simp [hsgi, hsame, VgicInt.setup]

theorem bankField_getLsbD (p b : Nat) : (bankField bank acc p).getLsbD b =
    (decide (b < bank.fieldWidth) && acc.val.getLsbD (p * bank.fieldWidth + b)) := by
  unfold bankField
  rw [bit64Extract_eq, getLsbD_extract]
  cases bank <;> decide

/-- A field of one bit is zero if the bit is. -/
theorem bankField_eq_zero (acc : EmulAccess) (hwidth : bank.fieldWidth = 1) (p : Nat) :
    bankField bank acc p = 0 ↔ (bankField bank acc p).getLsbD 0 = false := by
  constructor
  · intro hzero
    rw [hzero]
    exact BitVec.getLsbD_zero
  · intro hbit
    apply BitVec.eq_of_getLsbD_eq
    intro b _
    cases b with
    | zero => exact hbit.trans BitVec.getLsbD_zero.symm
    | succ b =>
      rw [bankField_getLsbD, hwidth, decide_eq_false (by omega), Bool.false_and]
      exact BitVec.getLsbD_zero.symm

theorem updateEnable_bankField (hv2 : E.cfg.version = .v2) (hwidth : bank.fieldWidth = 1) (enable : Bool) (p : Nat) :
    (if bankField bank acc p = 0 then (false, int) else vgicIntUpdateEnable E enable i int).2.setup =
      if (bankField bank acc p).getLsbD 0 && !gicIsSgi i.id then { int.setup with enabled := enable }
      else int.setup := by
  have hiff := bankField_eq_zero acc hwidth p
  by_cases hzero : bankField bank acc p = 0
  · rw [if_pos hzero, hiff.mp hzero]
    rfl
  · have hbit : (bankField bank acc p).getLsbD 0 = true := by
      by_contra hbit
      exact hzero (hiff.mpr (Bool.eq_false_iff.mpr hbit))
    rw [if_neg hzero, hbit, updateEnable_setup hv2, Bool.true_and]
    cases gicIsSgi i.id with
    | false => rfl
    | true => rfl

/-- The handlers set up what the bank is to set up. -/
theorem Bank.updateField_setup (hv2 : E.cfg.version = .v2) (bank : Bank) (p : Nat) :
    (bank.fields.updateField E E.current i (bankField bank acc p) int).2.setup =
      bank.write i.id (bankField bank acc p) int.setup := by
  cases bank with
  | isenabler => exact updateEnable_bankField hv2 rfl true p
  | icenabler => exact updateEnable_bankField hv2 rfl false p
  | ipriorityr =>
    have hmask : (bitMask (8 - gichLrPrioLen E.cfg.version) (gichLrPrioLen E.cfg.version)).setWidth 8 = 0xf8#8 := by
      rw [hv2]
      decide
    simp only [fields, vgicIntSetPrio, write, VgicInt.setup, hmask]
    rfl
  | icfgr => rfl

/-! ### An access that reaches its bank -/

theorem vgicdEmulHandler_generic (hv2 : E.cfg.version = .v2) (h : BankAccess bank acc)
    (hreached : ¬ (bank = .icfgr ∧ 0xc80 ≤ acc.offset)) : vgicdEmulHandler E s R acc =
      (genericLoop E (regHandlerInfoTable .v2 bank.handlerId) bank.fields acc E.current.idx
        (bankCount bank acc) 0 s (if acc.write then acc.val else 0)).map fun (s, val) =>
          (true, ⟨s, if acc.write then none else some val⟩) := by
  have haligned : vgicCheckRegAlignment acc
      ((EmulHandler.table bank.handlerId).alignment .v2) = true := by
    apply h.aligned_eq
    · cases bank <;> decide
    · rintro rfl
      decide
  unfold vgicdEmulHandler
  dsimp only
  rw [hv2, h.handler, if_neg hreached, if_pos haligned]
  unfold handlerAccess
  dsimp only
  rw [hv2, bank.regAccess_eq]
  unfold vgicEmulGenericAccess
  dsimp only
  simp only [hv2, decide_true, Bool.true_or, if_true, bank.fields_eq, Option.bind_some, h.fieldCount,
    Option.map_map]
  rfl

theorem BankAccess.read (hv2 : E.cfg.version = .v2) (h : BankAccess bank acc)
    (hreached : ¬ (bank = .icfgr ∧ 0xc80 ≤ acc.offset)) (hread : acc.write = false) :
    ∃ val, vgicdEmulHandler E s R acc = some (true, ⟨s, some val⟩) ∧
      ∀ b < 64, val.getLsbD b = (decide (b / bank.fieldWidth < bankCount bank acc) &&
        (bankInt E bank acc (b / bank.fieldWidth)).any fun i =>
          (bank.read (s.ints i).setup).getLsbD (b % bank.fieldWidth)) := by
  have hwidth : (regHandlerInfoTable .v2 bank.handlerId).fieldWidth < 64 := by cases bank <;> decide
  have hcount := h.count_mul_le
  have hpos := bank.fieldWidth_pos
  have hle : bankCount bank acc ≤ 32 := (Nat.le_mul_of_pos_right _ hpos).trans hcount
  obtain ⟨l, hloop, hfields, hend⟩ := genericLoop_read (E := E) (s := s) bank.fields E.current.idx hread
    hwidth (bankCount bank acc) 0 0
  rw [bank.fieldWidth_eq] at hloop
  rw [vgicdEmulHandler_generic hv2 h hreached]
  simp only [hread, Bool.false_eq_true, if_false, hloop, Option.map_some]
  refine ⟨_, rfl, fun b hb => ?_⟩
  rw [getLsbD_packFrom hpos hb l 0 fun _ _ => BitVec.getLsbD_zero, if_neg (Nat.not_lt_zero _), Nat.sub_zero]
  cases hx : l[b / bank.fieldWidth]? with
  | some x =>
    obtain ⟨hlt, i, hi, rfl⟩ := hfields _ x hx
    rw [Nat.zero_add, bankInt_eq hv2 h (by omega)] at hi
    rw [hi, decide_eq_true hlt, bank.readField_eq]
    rfl
  | none =>
    have hlen : l.length ≤ b / bank.fieldWidth := List.getElem?_eq_none_iff.mp hx
    by_cases hlt : b / bank.fieldWidth < bankCount bank acc
    · have hmissing := hend (by omega)
      rw [Nat.zero_add, bankInt_eq hv2 h (by omega)] at hmissing
      have hnone : bankInt E bank acc (b / bank.fieldWidth) = none := by
        by_contra hsome
        obtain ⟨i, hi⟩ := Option.ne_none_iff_exists'.mp hsome
        obtain ⟨j, hj⟩ := bankInt_isSome hlen hi
        rw [hmissing] at hj
        cases hj
      rw [hnone, decide_eq_true hlt]
      rfl
    · rw [decide_eq_false hlt]
      rfl

/-- What holds behind the first `m` rounds of a write. -/
structure Written (E : VgicEnv) (s : VgicState) (bank : Bank) (acc : EmulAccess) (m : Nat) (t : VgicState) :
    Prop where
  covered : ∀ p < m, ∀ i, bankInt E bank acc p = some i →
    (t.ints i).setup = bank.write i.id (bankField bank acc p) (s.ints i).setup
  others : ∀ i, (∀ p < m, bankInt E bank acc p ≠ some i) → (t.ints i).setup = (s.ints i).setup
  ownable : ∀ p < bankCount bank acc, ∀ i, bankInt E bank acc p = some i → Ownable E (t.ints i)
  targets : ∀ i, gicIsSgi i.id = false → (t.ints i).targets = (s.ints i).targets

theorem Written.start (howner : ∀ p < bankCount bank acc, ∀ i, bankInt E bank acc p = some i →
    Ownable E (s.ints i)) : Written E s bank acc 0 s where
  covered _ hp := absurd hp (Nat.not_lt_zero _)
  others _ _ := rfl
  ownable := howner
  targets _ _ := rfl

theorem Written.round {u v : VgicState} {p : Nat} (hv2 : E.cfg.version = .v2) (hp : p < bankCount bank acc)
    (hi : bankInt E bank acc p = some i) (h : Written E s bank acc p u)
    (hset : vgicIntSetField E u (regHandlerInfoTable .v2 bank.handlerId) E.current i
      (bankField bank acc p) = some v) : Written E s bank acc (p + 1) v := by
  obtain ⟨⟨int, hint, hself⟩, hothers, hownable, htargets⟩ :=
    setField_setUp (bank.fields_eq .v2) (h.ownable p hp i hi) (fun _ => bank.samePlace _) hset
  have hne {q : Nat} {j : IntRef} (hqp : q ≠ p) (hj : bankInt E bank acc q = some j) : j ≠ i := by
    rintro rfl
    exact hqp (bankInt_inj hj hi)
  constructor
  · intro q hq j hj
    by_cases hqp : q = p
    · subst hqp
      rw [hi] at hj
      cases hj
      rw [hself, bank.updateField_setup hv2, hint]
      rw [h.others i fun q hq hj => (Nat.ne_of_lt hq) (bankInt_inj hj hi)]
    · rw [hothers j (hne hqp hj)]
      exact h.covered q (by omega) j hj
  · intro j hj
    have hji : j ≠ i := by
      rintro rfl
      exact hj p (Nat.lt_succ_self p) hi
    rw [hothers j hji]
    exact h.others j fun q hq => hj q (Nat.lt_succ_of_lt hq)
  · exact fun q hq j hj => hownable j (h.ownable q hq j hj)
  · intro j hsgi
    rw [htargets (fun _ => bank.targets _) j hsgi, h.targets j hsgi]

theorem writtenField_eq (version : GicVersion) (bank : Bank) (p : Nat) :
    writtenField (regHandlerInfoTable version bank.handlerId) acc p = bankField bank acc p := by
  unfold writtenField bankField
  rw [bank.fieldWidth_eq]

theorem BankAccess.written (hv2 : E.cfg.version = .v2) (h : BankAccess bank acc)
    (hreached : ¬ (bank = .icfgr ∧ 0xc80 ≤ acc.offset)) (hwrite : acc.write = true)
    (howner : ∀ p < bankCount bank acc, ∀ i, bankInt E bank acc p = some i → Ownable E (s.ints i))
    {ok : Bool} {r : Accessed} (hrun : vgicdEmulHandler E s R acc = some (ok, r)) :
    ok = true ∧ Written E s bank acc (bankCount bank acc) r.state := by
  have hcount := h.count_mul_le
  have hle : bankCount bank acc ≤ 32 := (Nat.le_mul_of_pos_right _ bank.fieldWidth_pos).trans hcount
  rw [vgicdEmulHandler_generic hv2 h hreached] at hrun
  simp only [hwrite, if_true] at hrun
  obtain ⟨⟨t, val⟩, hloop, hr⟩ := Option.map_eq_some_iff.mp hrun
  cases hr
  refine ⟨rfl, ?_⟩
  obtain ⟨m, -, hm, hwritten, hend⟩ := genericLoop_write (P := Written E s bank acc) hwrite
    (fun p u v i _ hp hi hu hset => by
      rw [Nat.zero_add] at hp
      rw [bankInt_eq hv2 h (by omega)] at hi
      rw [writtenField_eq] at hset
      exact hu.round hv2 hp hi hset) (.start howner) hloop
  rw [Nat.zero_add] at hm hend
  rcases Nat.lt_or_ge m (bankCount bank acc) with hlt | hge
  · -- the interrupts behind the last round are not implemented
    have hmissing := hend hlt
    rw [bankInt_eq hv2 h (by omega)] at hmissing
    have hnone (p : Nat) (hp : m ≤ p) (i : IntRef) : bankInt E bank acc p ≠ some i := by
      intro hi
      obtain ⟨j, hj⟩ := bankInt_isSome hp hi
      rw [hmissing] at hj
      cases hj
    constructor
    · intro p hp i hi
      rcases Nat.lt_or_ge p m with hpm | hpm
      · exact hwritten.covered p hpm i hi
      · exact absurd hi (hnone p hpm i)
    · exact fun i hi => hwritten.others i fun p hp => hi p (by omega)
    · exact hwritten.ownable
    · exact hwritten.targets
  · obtain rfl : m = bankCount bank acc := Nat.le_antisymm hm hge
    exact hwritten

theorem BankAccess.returns (hv2 : E.cfg.version = .v2) (h : BankAccess bank acc)
    (hreached : ¬ (bank = .icfgr ∧ 0xc80 ≤ acc.offset)) (hwrite : acc.write = true)
    (howner : ∀ p < bankCount bank acc, ∀ i, bankInt E bank acc p = some i → Ownable E (s.ints i))
    (hheld : LrsHeld E s)
    (hroom : ((List.range (bankCount bank acc)).map (bankTargets E s bank acc)).sum ≤
      freeNodes E.cfg.msg s.msgs) : vgicdEmulHandler E s R acc ≠ none := by
  have hcount := h.count_mul_le
  have hle : bankCount bank acc ≤ 32 := (Nat.le_mul_of_pos_right _ bank.fieldWidth_pos).trans hcount
  rw [vgicdEmulHandler_generic hv2 h hreached]
  simp only [hwrite, if_true]
  rw [List.range_eq_range'] at hroom
  have hround (p : Nat) (u : VgicState) (i : IntRef) (hp : p < bankCount bank acc)
      (hi : bankInt E bank acc p = some i) (hu : LrsHeld E u ∧ Written E s bank acc p u ∧
        ((List.range' p (bankCount bank acc - p)).map (bankTargets E s bank acc)).sum ≤
          freeNodes E.cfg.msg u.msgs) :
      ∃ v, vgicIntSetField E u (regHandlerInfoTable .v2 bank.handlerId) E.current i
          (bankField bank acc p) = some v ∧ LrsHeld E v ∧ Written E s bank acc (p + 1) v ∧
        ((List.range' (p + 1) (bankCount bank acc - (p + 1))).map (bankTargets E s bank acc)).sum ≤
          freeNodes E.cfg.msg v.msgs := by
    obtain ⟨huheld, hwritten, huroom⟩ := hu
    rw [show bankCount bank acc - p = (bankCount bank acc - (p + 1)) + 1 by omega, List.range'_succ,
      List.map_cons, List.sum_cons] at huroom
    have htargets : otherTargets E u i = bankTargets E s bank acc p := by
      unfold bankTargets
      rw [hi, Option.map_some, Option.getD_some]
      exact otherTargets_congr hv2 (hwritten.targets i)
    obtain ⟨v, hset, hvheld, hleft⟩ := setField_returns hv2 huheld (vgicGetInt_own hi).1
      (hwritten.ownable p hp i hi) (bank.fields_eq .v2) (fun _ => bank.samePlace (bankField bank acc p))
      (fun _ => bank.targets _) (by omega)
    exact ⟨v, hset, hvheld, hwritten.round hv2 hp hi hset, by omega⟩
  obtain ⟨t, ht⟩ := genericLoop_isSome bank.fields (n := bankCount bank acc) (i := 0)
    (P := fun p u => LrsHeld E u ∧ Written E s bank acc p u ∧
      ((List.range' p (bankCount bank acc - p)).map (bankTargets E s bank acc)).sum ≤
        freeNodes E.cfg.msg u.msgs) hwrite
    (fun p u i _ hp hi hu => by
      rw [Nat.zero_add] at hp
      rw [bankInt_eq hv2 h (by omega)] at hi
      rw [writtenField_eq]
      exact hround p u i hp hi hu) ⟨hheld, .start howner, hroom⟩
  rw [ht]
  exact Option.some_ne_none _

/-! ### An access that does not -/

theorem BankAccess.dropped (h : BankAccess bank acc) (hv2 : E.cfg.version = .v2)
    (hdropped : bank = .icfgr ∧ 0xc80 ≤ acc.offset) :
    vgicdEmulHandler E s R acc = some (true, ⟨s, if acc.write then none else some 0⟩) := by
  have haligned : vgicCheckRegAlignment acc (EmulHandler.razwi.alignment .v2) = true := by
    apply h.aligned_eq
    · decide
    · rintro rfl
      exact absurd hdropped.1 (by decide)
  unfold vgicdEmulHandler
  dsimp only
  rw [hv2, h.handler, if_pos hdropped, if_pos haligned]
  rfl

/-- The configuration of the interrupt at place `p` is what is written, or zero where it is read. -/
def CfgThere (s : VgicState) (acc : EmulAccess) (p : Nat) (i : IntRef) : Prop :=
  if acc.write then (s.ints i).cfg = (bankField .icfgr acc p).setWidth 8 else (s.ints i).cfg &&& 3 = 0

theorem low_cfg_iff (x : BitVec 8) : x &&& 3 = 0 ↔ ∀ k < 2, (x.setWidth 64).getLsbD k = false := by
  revert x
  decide

/-- The distributor does what the bank is to do exactly if the access is not to the upper half of the configuration
registers, or makes no difference there. -/
theorem behavesAsBank_iff (hv2 : E.cfg.version = .v2) (h : BankAccess bank acc)
    (howner : ∀ p < bankCount bank acc, ∀ i, bankInt E bank acc p = some i →
      (s.ints i).owner = none ∨ (s.ints i).owner = some E.current) :
    BehavesAsBank E s R bank acc ↔
      (bank = .icfgr → 0xc80 ≤ acc.offset → ∀ p < bankCount bank acc, ∀ i,
        bankInt E bank acc p = some i → CfgThere s acc p i) := by
  by_cases hdropped : bank = .icfgr ∧ 0xc80 ≤ acc.offset
  · obtain ⟨rfl, hoffset⟩ := hdropped
    have hrun := h.dropped (s := s) (R := R) hv2 ⟨rfl, hoffset⟩
    have hcount := h.count_mul_le
    unfold CfgThere
    cases hwrite : acc.write with
    | true =>
      rw [hwrite] at hrun
      constructor
      · intro hbank _ _ p hp i hi
        have hcovered := (hbank.covered hwrite true _ hrun).2 p hp i hi
        exact congrArg Setup.cfg hcovered
      · intro hthere
        constructor
        · intro hread
          rw [hwrite] at hread
          cases hread
        · intro _ ok r hr
          rw [hrun] at hr
          cases hr
          refine ⟨rfl, fun p hp i hi => ?_⟩
          have hcfg := hthere rfl hoffset p hp i hi
          rw [if_pos rfl] at hcfg
          exact Setup.ext rfl rfl hcfg
        · intro _ ok r hr i _
          rw [hrun] at hr
          cases hr
          rfl
        · intro _ _ _
          rw [hrun]
          exact Option.some_ne_none _
    | false =>
      rw [hwrite] at hrun
      constructor
      · intro hbank _ _ p hp i hi
        obtain ⟨val, hval, hbits⟩ := hbank.read hwrite
        rw [hrun] at hval
        cases hval
        simp only [Bool.false_eq_true, if_false]
        rw [low_cfg_iff]
        intro k hk
        have hbit := hbits (p * 2 + k) (by simp only [Bank.fieldWidth] at hcount; omega)
        simp only [Bank.fieldWidth, show (p * 2 + k) / 2 = p by omega, show (p * 2 + k) % 2 = k by omega] at hbit
        rw [decide_eq_true hp, hi] at hbit
        exact hbit.symm.trans BitVec.getLsbD_zero
      · intro hthere
        constructor
        · intro _
          refine ⟨0, hrun, fun b _ => BitVec.getLsbD_zero.trans ?_⟩
          by_cases hlt : b / Bank.icfgr.fieldWidth < bankCount .icfgr acc
          · cases hi : bankInt E .icfgr acc (b / Bank.icfgr.fieldWidth) with
            | none => simp
            | some i =>
              have hcfg := hthere rfl hoffset (b / Bank.icfgr.fieldWidth) hlt i hi
              simp only [Bool.false_eq_true, if_false] at hcfg
              have hbit := (low_cfg_iff _).mp hcfg (b % 2) (Nat.mod_lt b Nat.two_pos)
              rw [decide_eq_true hlt]
              exact hbit.symm
          · rw [decide_eq_false hlt]
            rfl
        · intro htrue
          rw [hwrite] at htrue
          cases htrue
        · intro htrue
          rw [hwrite] at htrue
          cases htrue
        · intro htrue
          rw [hwrite] at htrue
          cases htrue
  · constructor
    · exact fun _ hicfgr hoffset => absurd ⟨hicfgr, hoffset⟩ hdropped
    · intro _
      constructor
      · exact h.read hv2 hdropped
      · intro hwrite ok r hr
        obtain ⟨hok, hwritten⟩ := h.written hv2 hdropped hwrite howner hr
        exact ⟨hok, hwritten.covered⟩
      · intro hwrite ok r hr
        exact (h.written hv2 hdropped hwrite howner hr).2.others
      · exact fun hwrite hheld hroom => h.returns hv2 hdropped hwrite howner hheld hroom

/-! ### A VM with all interrupts -/

/-- Nothing is in the registers that are only read. -/
def zeroRegs : EmulRegs where
  typer _ := 0
  iidr _ := 0
  gicdId _ := 0
  vgicrTyper _ := 0
  gicrId _ _ := 0
  vgicrAddr _ := 0x080a0000

/-- VMs with 1024 interrupts, and what a pCPU with the first vCPU finds. -/
def allInts : VgicEnv :=
  twoVcpusOn { twoVcpus .v2 2 Nat.two_pos with intNum := fun _ => 1024, intNum_le := fun _ => Nat.le_refl 1024 }
    0 ⟨0, 0⟩

theorem allInts_ownable {p : Nat} (hi : bankInt allInts bank acc p = some i) :
    ((vgicAtBoot .v2).ints i).owner = none ∨ ((vgicAtBoot .v2).ints i).owner = some allInts.current := by
  cases i with
  | priv vcpu id =>
    obtain ⟨⟨rfl, -⟩, -⟩ := vgicGetInt_own hi
    exact .inr rfl
  | shared vm id => exact .inl rfl

/-- The guest enables the interrupts 32 and 33 behind boot. -/
theorem behavesAsBank_iff_enable :
    BehavesAsBank allInts (vgicAtBoot .v2) zeroRegs .isenabler ⟨0x08000104, true, 4, 3⟩ ↔
      (Bank.isenabler = .icfgr → 0xc80 ≤ (⟨0x08000104, true, 4, 3⟩ : EmulAccess).offset →
        ∀ p < bankCount .isenabler ⟨0x08000104, true, 4, 3⟩, ∀ i,
          bankInt allInts .isenabler ⟨0x08000104, true, 4, 3⟩ p = some i →
            CfgThere (vgicAtBoot .v2) ⟨0x08000104, true, 4, 3⟩ p i) :=
  behavesAsBank_iff rfl ⟨by decide, by decide, .inl rfl, by decide⟩ fun _ _ _ hi => allInts_ownable hi

/-- The interrupt 512 stays level-sensitive when the guest makes it edge-triggered. -/
theorem bank_icfgr_dropped :
    ¬ BehavesAsBank allInts (vgicAtBoot .v2) zeroRegs .icfgr ⟨0x08000c80, true, 4, 2⟩ := by
  intro h
  have hint : bankInt allInts .icfgr ⟨0x08000c80, true, 4, 2⟩ 0 = some (.shared 0 512) := by decide
  have hcovered := (h.covered rfl true ⟨vgicAtBoot .v2, none⟩ rfl).2 0 (by decide) _ hint
  exact absurd (congrArg Setup.cfg hcovered) (by decide)

end Avisor
