import Avisor.Vgic.Handlers

/-!
# Delegated register writes

`vgic_int_set_field` packs a write to an interrupt of another vCPU in the word of a message, and
`vgic_ipi_handler` unpacks it. The word has 16 bits for the VM, 16 for a vCPU, 15 for the interrupt
and 8 each for the register and the value; the vCPU is always 0.
-/

namespace Avisor

/-! ### The word of a message -/

theorem getLsbD_mask (n i : Nat) (hn : n ≤ 64) :
    (BitVec.ofNat 64 (2 ^ n - 1)).getLsbD i = decide (i < n) := by
  rw [BitVec.getLsbD_ofNat, Nat.testBit_two_pow_sub_one]
  by_cases h : i < n
  · simp [h]
    omega
  · simp [h]

theorem getLsbD_mask8 (i : Nat) : (0xff : BitVec 64).getLsbD i = decide (i < 8) :=
  getLsbD_mask 8 i (by decide)

theorem getLsbD_mask15 (i : Nat) : (0x7fff : BitVec 64).getLsbD i = decide (i < 15) :=
  getLsbD_mask 15 i (by decide)

theorem getLsbD_mask16 (i : Nat) : (0xffff : BitVec 64).getLsbD i = decide (i < 16) :=
  getLsbD_mask 16 i (by decide)

variable (vmId vgicrid intId reg val : BitVec 64)

theorem getLsbD_vgicMsgData (i : Nat) :
    (vgicMsgData vmId vgicrid intId reg val).getLsbD i =
      if i < 8 then val.getLsbD i
      else if i < 16 then reg.getLsbD (i - 8)
      else if i < 31 then intId.getLsbD (i - 16)
      else if i < 32 then false
      else if i < 48 then vgicrid.getLsbD (i - 32)
      else decide (i < 64) && vmId.getLsbD (i - 48) := by
  simp only [vgicMsgData, BitVec.getLsbD_and, BitVec.getLsbD_or, BitVec.getLsbD_shiftLeft,
    getLsbD_mask8, getLsbD_mask15, getLsbD_mask16]
  grind

theorem vgicMsgVal_data : vgicMsgVal (vgicMsgData vmId vgicrid intId reg val) = val &&& 0xff := by
  apply BitVec.eq_of_getLsbD_eq
  intro i hi
  simp only [vgicMsgVal, BitVec.getLsbD_and, getLsbD_vgicMsgData, getLsbD_mask8]
  grind

theorem vgicMsgReg_data : vgicMsgReg (vgicMsgData vmId vgicrid intId reg val) = reg &&& 0xff := by
  apply BitVec.eq_of_getLsbD_eq
  intro i hi
  simp only [vgicMsgReg, BitVec.getLsbD_and, BitVec.getLsbD_ushiftRight, getLsbD_vgicMsgData,
    getLsbD_mask8]
  grind

theorem vgicMsgIntid_data :
    vgicMsgIntid (vgicMsgData vmId vgicrid intId reg val) = intId &&& 0x7fff := by
  apply BitVec.eq_of_getLsbD_eq
  intro i hi
  simp only [vgicMsgIntid, BitVec.getLsbD_and, BitVec.getLsbD_ushiftRight, getLsbD_vgicMsgData,
    getLsbD_mask15]
  grind

theorem vgicMsgVgicrid_data :
    vgicMsgVgicrid (vgicMsgData vmId vgicrid intId reg val) = vgicrid &&& 0xffff := by
  apply BitVec.eq_of_getLsbD_eq
  intro i hi
  simp only [vgicMsgVgicrid, BitVec.getLsbD_and, BitVec.getLsbD_ushiftRight, getLsbD_vgicMsgData,
    getLsbD_mask16]
  grind

theorem vgicMsgVm_data :
    vgicMsgVm (vgicMsgData vmId vgicrid intId reg val) = vmId &&& 0xffff := by
  apply BitVec.eq_of_getLsbD_eq
  intro i hi
  simp only [vgicMsgVm, BitVec.getLsbD_and, BitVec.getLsbD_ushiftRight, getLsbD_vgicMsgData,
    getLsbD_mask16]
  grind

/-- A value that fits in the field of a mask comes through it. -/
theorem toNat_and_mask {n width : Nat} (hwidth : width ≤ 64) (hn : n < 2 ^ width) :
    (BitVec.ofNat 64 n &&& BitVec.ofNat 64 (2 ^ width - 1)).toNat = n := by
  have hpow : 2 ^ width ≤ 2 ^ 64 := Nat.pow_le_pow_right (by decide) hwidth
  have hpos : 0 < 2 ^ width := Nat.two_pow_pos width
  rw [BitVec.toNat_and, BitVec.toNat_ofNat, BitVec.toNat_ofNat, Nat.mod_eq_of_lt (by omega),
    Nat.mod_eq_of_lt (by omega), Nat.and_two_pow_sub_one_eq_mod, Nat.mod_eq_of_lt hn]

theorem and_mask8_eq_iff : val &&& 0xff = val ↔ val.toNat < 256 := by
  have hand : (val &&& 0xff).toNat = val.toNat % 256 := by
    rw [BitVec.toNat_and]
    exact Nat.and_two_pow_sub_one_eq_mod _ 8
  rw [← BitVec.toNat_inj, hand]
  omega

/-! ### The two paths -/

/-- The view of the pCPU `c` that runs the vCPU `vcpu`, at the same moment. -/
def VgicEnv.on (E : VgicEnv) (c : PCpuId) (vcpu : VcpuRef) : VgicEnv :=
  { E with self := c, current := vcpu }

/-- `i` is an interrupt that the VM implements, a private one of one of its vCPUs or a shared one. -/
def Implements (cfg : VgicConfig) (vm : VmId) : IntRef → Prop
  | .priv vcpu id => vcpu.vm = vm ∧ vcpu.idx < cfg.nrCpus vm ∧ id < gicCpuPriv
  | .shared vm' id => vm' = vm ∧ gicCpuPriv ≤ id ∧ id < cfg.intNum vm

/-- The message for the write of `data` by `vcpu` is taken on a pCPU with the view `E'` for the same
write: it is for the VM that runs there, names the same handler, interrupt and value, and updates the
registers of the interrupt as the write itself. -/
structure DelegatesFaithfully (E E' : VgicEnv) (handlers : RegHandlerInfo) (vcpu : VcpuRef)
    (i : IntRef) (data : BitVec 64) : Prop where
  vm : (vgicMsgVm (setRegMsg E handlers vcpu i data).data).toNat = E'.current.vm
  selects : setRegOfMsg E' (setRegMsg E handlers vcpu i data).data = some (handlers, i, data)
  updates : ∀ fields, handlers.fields = some fields → ∀ s,
    (updateInt E' s fields E'.current i data).ints = (updateInt E s fields vcpu i data).ints

variable {E : VgicEnv} {c : PCpuId} {w vcpu : VcpuRef} {i : IntRef} {id : RegHandlerId}
  {data : BitVec 64}

theorem regid_toNat_lt (id : RegHandlerId) : id.toNat < 2 ^ 8 := by
  cases id <;> decide

theorem setRegMsg_regid (hfields : (regHandlerInfoTable E.cfg.version id).fields ≠ none) :
    vgicGetRegHandlerInfo E.cfg.version
        (vgicMsgReg (setRegMsg E (regHandlerInfoTable E.cfg.version id) w i data).data).toNat =
      some (regHandlerInfoTable E.cfg.version id) := by
  have hmask := toNat_and_mask (by decide) (regid_toNat_lt id)
  unfold vgicGetRegHandlerInfo
  simp only [setRegMsg, vgicMsg, vgicMsgReg_data, regid_of_fields hfields]
  rw [show (0xff : BitVec 64) = BitVec.ofNat 64 (2 ^ 8 - 1) from rfl, hmask,
    RegHandlerId.ofNat?_toNat, Option.map_some]

theorem setRegMsg_intid {handlers : RegHandlerInfo} (hid : i.id < 2 ^ 15) :
    (vgicMsgIntid (setRegMsg E handlers w i data).data).toNat = i.id := by
  simp only [setRegMsg, vgicMsg, vgicMsgIntid_data]
  exact toNat_and_mask (by decide) hid

theorem setRegMsg_vgicrid {handlers : RegHandlerInfo} :
    (vgicMsgVgicrid (setRegMsg E handlers w i data).data).toNat = 0 := by
  simp only [setRegMsg, vgicMsg, vgicMsgVgicrid_data]
  rfl

theorem setRegMsg_vm {handlers : RegHandlerInfo} (hvm : w.vm < 2 ^ 16) :
    (vgicMsgVm (setRegMsg E handlers w i data).data).toNat = w.vm := by
  simp only [setRegMsg, vgicMsg, vgicMsgVm_data]
  exact toNat_and_mask (by decide) hvm

theorem setRegMsg_val {handlers : RegHandlerInfo} :
    vgicMsgVal (setRegMsg E handlers w i data).data = data &&& 0xff := by
  simp only [setRegMsg, vgicMsg, vgicMsgVal_data]

/-- `i` has the number of an interrupt that `vgic_get_int` finds for the VM. -/
def InVm (cfg : VgicConfig) (vm : VmId) : IntRef → Prop
  | .priv vcpu id => vcpu.vm = vm ∧ id < gicCpuPriv
  | .shared vm' id => vm' = vm ∧ gicCpuPriv ≤ id ∧ id < cfg.intNum vm

theorem Implements.inVm {cfg : VgicConfig} {vm : VmId} (h : Implements cfg vm i) :
    InVm cfg vm i := by
  cases i with
  | priv v n => exact ⟨h.1, h.2.2⟩
  | shared vm' n => exact h

theorem vgicGetInt_inVm {intId vgicrId : Nat} (h : vgicGetInt E vcpu intId vgicrId = some i) :
    InVm E.cfg vcpu.vm i := by
  unfold vgicGetInt at h
  split at h
  · rename_i hid
    split at h
    · cases h
      exact ⟨rfl, hid⟩
    · split at h
      · cases h
        exact ⟨rfl, hid⟩
      · cases h
  · rename_i hid
    split at h
    · rename_i hlt
      cases h
      exact ⟨rfl, Nat.not_lt.mp hid, hlt⟩
    · cases h

theorem InVm.vm_eq {cfg : VgicConfig} {vm vm' : VmId} (h : InVm cfg vm i) (h' : InVm cfg vm' i) :
    vm = vm' := by
  cases i with
  | priv v n => exact h.1.symm.trans h'.1
  | shared m n => exact h.1.symm.trans h'.1

theorem InVm.id_lt {cfg : VgicConfig} {vm : VmId} (h : InVm cfg vm i) : i.id < 2 ^ 15 := by
  cases i with
  | priv v n =>
    have hn : n < gicCpuPriv := h.2
    simp only [IntRef.id, gicCpuPriv] at hn ⊢
    omega
  | shared vm' n =>
    have hn := h.2.2
    have hle := cfg.intNum_le vm
    simp only [IntRef.id]
    omega

/-- With 0 for the vCPU, `vgic_get_int` finds the interrupt exactly if it is not private to another
vCPU. -/
theorem vgicGetInt_zero_iff (h : InVm E.cfg vcpu.vm i)
    (hcpus : ∀ v n, i = .priv v n → 0 < E.cfg.nrCpus vcpu.vm) :
    vgicGetInt E vcpu i.id 0 = some i ↔ ∀ v n, i = .priv v n → v.idx = 0 := by
  cases i with
  | priv v n =>
    obtain ⟨hvm, hn⟩ := h
    have hget : vgicGetInt E vcpu n 0 = some (.priv ⟨vcpu.vm, 0⟩ n) := by
      unfold vgicGetInt
      rw [if_pos hn, if_pos (hcpus v n rfl)]
      split
      · rename_i hzero
        rw [hzero]
      · rfl
    simp only [IntRef.id, hget, Option.some.injEq, IntRef.priv.injEq, and_true]
    constructor
    · rintro rfl _ _ ⟨rfl, -⟩
      rfl
    · intro hzero
      rw [← hvm, ← hzero v n ⟨rfl, rfl⟩]
  | shared vm n =>
    obtain ⟨rfl, hpriv, hn⟩ := h
    have hget : vgicGetInt E vcpu n 0 = some (.shared vcpu.vm n) := by
      unfold vgicGetInt
      rw [if_neg (Nat.not_lt.mpr hpriv), if_pos hn]
    apply iff_of_true hget
    intro v m heq
    cases heq

/-- What the handler of messages makes of the message for a write. -/
theorem setRegOfMsg_setRegMsg {V : VgicEnv} (hcfg : V.cfg = E.cfg) (hi : i.id < 2 ^ 15)
    (hfields : (regHandlerInfoTable E.cfg.version id).fields ≠ none) :
    setRegOfMsg V (setRegMsg E (regHandlerInfoTable E.cfg.version id) w i data).data =
      (vgicGetInt V V.current i.id 0).map fun j =>
        (regHandlerInfoTable E.cfg.version id, j, data &&& 0xff) := by
  unfold setRegOfMsg
  rw [setRegMsg_intid hi, setRegMsg_vgicrid, setRegMsg_val, hcfg, setRegMsg_regid hfields,
    Option.bind_some]

/-- A value of 8 bits does not ask for broadcast. -/
theorem and_irmBit (hdata : data.toNat < 256) : data &&& gicdIrouterIrmBit = 0 := by
  apply BitVec.eq_of_getLsbD_eq
  intro n hn
  rw [BitVec.getLsbD_and]
  by_cases h8 : n < 8
  · have hbit : gicdIrouterIrmBit.getLsbD n = false := by
      unfold gicdIrouterIrmBit
      rw [BitVec.getLsbD_shiftLeft]
      simp
      omega
    rw [hbit, Bool.and_false]
    exact BitVec.getLsbD_zero.symm
  · have hbit : data.getLsbD n = false := by
      rw [← BitVec.testBit_toNat]
      apply Nat.testBit_lt_two_pow
      exact Nat.lt_of_lt_of_le hdata (Nat.pow_le_pow_right Nat.two_pos (Nat.not_lt.mp h8))
    rw [hbit, Bool.false_and]
    exact BitVec.getLsbD_zero.symm

theorem vgicIntSetRoute_on (hvm : vcpu.vm = w.vm) (hdata : data.toNat < 256) (int : VgicInt) :
    vgicIntSetRoute (E.on c vcpu) vcpu i data int = vgicIntSetRoute E w i data int := by
  unfold vgicIntSetRoute
  simp only [and_irmBit hdata, ne_eq, not_true_eq_false, if_false, hvm]
  rfl

theorem vgicdSetTrgt_on (hvm : vcpu.vm = w.vm) (int : VgicInt) :
    vgicdSetTrgt (E.on c vcpu) vcpu i data int = vgicdSetTrgt E w i data int := by
  unfold vgicdSetTrgt
  rw [hvm]
  rfl

/-- A value of 8 bits updates a field the same way for every vCPU of the VM. -/
theorem updateField_on {fields : RegFields}
    (hfields : (regHandlerInfoTable E.cfg.version id).fields = some fields) (hvm : vcpu.vm = w.vm)
    (hdata : data.toNat < 256) (int : VgicInt) :
    fields.updateField (E.on c vcpu) vcpu i data int = fields.updateField E w i data int := by
  cases id <;> cases hversion : E.cfg.version <;> rw [hversion] at hfields <;> cases hfields <;>
    first
    | rfl
    | exact vgicIntSetRoute_on hvm hdata int
    | exact vgicdSetTrgt_on hvm int

theorem updateInt_ints (fields : RegFields) (s : VgicState) :
    (updateInt E s fields w i data).ints =
      Function.update s.ints i (fields.updateField E w i data (s.ints i)).2 := by
  unfold updateInt
  dsimp only
  split
  · rfl
  · rfl

/-- A delegated write is taken for the same write exactly if the interrupt is shared or private to
vCPU 0, and the value has 8 bits. -/
theorem delegatesFaithfully_iff (E : VgicEnv) (c : PCpuId) (vcpu w : VcpuRef) (id : RegHandlerId)
    (i : IntRef) (data : BitVec 64) (hfields : (regHandlerInfoTable E.cfg.version id).fields ≠ none)
    (hw : w.vm < 2 ^ 16) (hvm : vcpu.vm = w.vm) (hi : Implements E.cfg w.vm i) :
    DelegatesFaithfully E (E.on c vcpu) (regHandlerInfoTable E.cfg.version id) w i data ↔
      (∀ v n, i = .priv v n → v.idx = 0) ∧ data.toNat < 256 := by
  have hcpus (v) (n) (h : i = .priv v n) : 0 < (E.on c vcpu).cfg.nrCpus vcpu.vm := by
    subst h
    rw [hvm]
    exact Nat.zero_lt_of_lt hi.2.1
  have hget : vgicGetInt (E.on c vcpu) vcpu i.id 0 = some i ↔ ∀ v n, i = .priv v n → v.idx = 0 :=
    vgicGetInt_zero_iff (hvm ▸ hi.inVm) hcpus
  have hselect : setRegOfMsg (E.on c vcpu)
      (setRegMsg E (regHandlerInfoTable E.cfg.version id) w i data).data =
        (vgicGetInt (E.on c vcpu) vcpu i.id 0).map fun j =>
          (regHandlerInfoTable E.cfg.version id, j, data &&& 0xff) :=
    setRegOfMsg_setRegMsg rfl hi.inVm.id_lt hfields
  constructor
  · intro h
    obtain ⟨j, hj, heq⟩ := Option.map_eq_some_iff.mp (hselect.symm.trans h.selects)
    simp only [Prod.mk.injEq, true_and] at heq
    exact ⟨hget.mp (heq.1 ▸ hj), (and_mask8_eq_iff data).mp heq.2⟩
  · intro h
    constructor
    · rw [setRegMsg_vm hw]
      exact hvm.symm
    · rw [hselect, hget.mpr h.1, Option.map_some, (and_mask8_eq_iff data).mpr h.2]
    · intro fields hsome s
      rw [updateInt_ints, updateInt_ints]
      exact congrArg _ (congrArg _ (updateField_on hsome hvm h.2 (s.ints i)))

/-- Priority 0xa0 for the interrupt 27 of vCPU 0, written by vCPU 1. -/
theorem delegatesFaithfully_private :
    DelegatesFaithfully (twoVcpusOn (twoVcpus .v3 4 (by decide)) 1 ⟨0, 1⟩)
        ((twoVcpusOn (twoVcpus .v3 4 (by decide)) 1 ⟨0, 1⟩).on 0 ⟨0, 0⟩)
        (regHandlerInfoTable .v3 .ipriorityr) ⟨0, 1⟩ (.priv ⟨0, 0⟩ 27) 0xa0 ↔
      (∀ v n, IntRef.priv ⟨0, 0⟩ 27 = .priv v n → v.idx = 0) ∧ (0xa0 : BitVec 64).toNat < 256 :=
  delegatesFaithfully_iff (twoVcpusOn (twoVcpus .v3 4 (by decide)) 1 ⟨0, 1⟩) 0 ⟨0, 0⟩ ⟨0, 1⟩
    .ipriorityr (.priv ⟨0, 0⟩ 27) 0xa0 (by simp [regHandlerInfoTable, ipriorityrInfo]) (by decide) rfl
    ⟨rfl, by decide, by decide⟩

/-- The write of 1 for the interrupt 27 of vCPU 1 to `ISENABLER`, by vCPU 0, is taken on pCPU 1 for a
write to the interrupt 27 of vCPU 0, in both builds; the affinity 0x100, which is none of the VM, is
taken for affinity 0. -/
theorem delegates_otherwise :
    (∀ version, ¬ DelegatesFaithfully (twoVcpusOn (twoVcpus version 4 (by decide)) 0 ⟨0, 0⟩)
      ((twoVcpusOn (twoVcpus version 4 (by decide)) 0 ⟨0, 0⟩).on 1 ⟨0, 1⟩)
      (regHandlerInfoTable version .isenabler) ⟨0, 0⟩ (.priv ⟨0, 1⟩ 27) 1) ∧
    ¬ DelegatesFaithfully (twoVcpusOn (twoVcpus .v3 4 (by decide)) 0 ⟨0, 0⟩)
      ((twoVcpusOn (twoVcpus .v3 4 (by decide)) 0 ⟨0, 0⟩).on 1 ⟨0, 1⟩)
      (regHandlerInfoTable .v3 .irouter) ⟨0, 0⟩ (.shared 0 40) 0x100 := by
  constructor
  · intro version h
    have hselects := congrArg (Option.map fun x => x.2.1) h.selects
    cases version <;> exact absurd hselects (by decide)
  · intro h
    have hselects := congrArg (Option.map fun x => x.2.2) h.selects
    exact absurd hselects (by decide)

end Avisor
