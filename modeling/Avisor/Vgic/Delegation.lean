import Avisor.Vgic.Delivery

/-!
# Delegated writes and their handling

The handler of messages calls `vgic_int_set_field` for the vCPU that runs, which need not be the owner
of the interrupt: then the write is delegated again, to the same pCPU as before if the owner is still
recorded there. The machine of this file remembers each delegated write, to tell what a message that is
handled was sent for.
-/

namespace Avisor

open Function

variable {cfg : HvConfig} {E : VgicEnv} {s t : VgicState} {D : Delegation}

/-- What the action delegates. -/
def HvState.delegation (cfg : HvConfig) (x : HvState) : HvAction → Option Delegation
  | .sched _ => none
  | .vgic c call =>
    (x.sched.cpus c).vcpu.bind fun vcpu =>
      if (vgicEffect (x.env cfg c vcpu) x.vgic call).isSome then
        vgicDelegation (x.env cfg c vcpu) x.vgic call
      else none

/-- The machine of the hypervisor with all writes that were delegated. -/
def delegMachine (cfg : HvConfig) : Machine (HvState × List Delegation) HvAction where
  Init x := (hvMachine cfg).Init x.1 ∧ x.2 = []
  step x a :=
    ((hvMachine cfg).step x.1 a).map fun y => (y, x.2 ++ (x.1.delegation cfg a).toList)

/-- The message of the delegated write is consumed where it is handled: it names the interrupt, the
handler and the value of the write, the pCPU does what it does for the owner of the interrupt, and it
sends no further `VGIC_SET_REG` and nothing to the pCPU of the vCPU that runs, which is its own: the
loop of `cpu_msg_handler` has one message less before it. -/
structure Consumed (E : VgicEnv) (s : VgicState) (D : Delegation) : Prop where
  vm : (vgicMsgVm (D.msg E).data).toNat = E.current.vm
  selects : setRegOfMsg E (D.msg E).data = some (D.handlers, D.i, D.data)
  applied : vgicIpiHandler E s (D.msg E).event (D.msg E).data =
    vgicIntSetFieldOwned E (vgicGetOwnership s E.current D.i).2 D.handlers E.current D.i D.data
  noSetReg : ∀ t l, vgicIpiHandler E s (D.msg E).event (D.msg E).data = some t →
    t.sent = s.sent ++ l →
      ∀ m ∈ l, m.2.event ≠ VgicEvent.setReg.toBits ∧ m.1 ≠ E.pId E.current

/-- The pCPU that handles the message of the delegated write runs the owner of the interrupt, or a
vCPU of the VM that can become it; and the write is one that its message can tell. -/
structure AtOwner (E : VgicEnv) (s : VgicState) (D : Delegation) : Prop where
  vm : E.current.vm = D.writer.vm
  vm_lt : D.writer.vm < 2 ^ 16
  priv : ∀ v n, D.i = .priv v n → v.idx = 0
  data : D.data.toNat < 256
  owner : ∀ owner, (s.ints D.i).owner = some owner → owner = E.current

/-- `P` holds of the delegated writes whose message the step hands to `vgic_ipi_handler`. -/
def HandlesEach (P : VgicEnv → VgicState → Delegation → Prop) (cfg : HvConfig)
    (x : HvState × List Delegation) : HvAction → Prop
  | .vgic c .message =>
    ∀ vcpu msg msgs, (x.1.sched.cpus c).vcpu = some vcpu →
      cpuGetMsg x.1.vgic.msgs c = some (msg, msgs) → cfg.vgic.msg.handles msg →
        ∀ D ∈ x.2, D.target = c → D.msg (x.1.env cfg c vcpu) = msg →
          P (x.1.env cfg c vcpu) { x.1.vgic with msgs := msgs } D
  | _ => True

/-! ### One message -/

/-- The write is to a register and an interrupt that the VM of the writer has. -/
structure Delegation.Known (D : Delegation) (cfg : VgicConfig) : Prop where
  handlers : ∃ id, D.handlers = regHandlerInfoTable cfg.version id
  fields : D.handlers.fields ≠ none
  i : InVm cfg D.writer.vm D.i

theorem route_ofBits : VgicEvent.ofBits? VgicEvent.route.toBits ≠ some .setReg := by decide

theorem inject_ofBits : VgicEvent.ofBits? VgicEvent.inject.toBits ≠ some .setReg := by decide

theorem updateEnable_ofBits :
    VgicEvent.ofBits? VgicEvent.updateEnable.toBits ≠ some .setReg := by decide

theorem setReg_ofBits : VgicEvent.ofBits? VgicEvent.setReg.toBits = some .setReg := by decide

/-- What the handler makes of the message for a write to a register of the build. -/
theorem Delegation.Known.setRegOfMsg (h : D.Known E.cfg) :
    setRegOfMsg E (D.msg E).data =
      (vgicGetInt E E.current D.i.id 0).map fun j => (D.handlers, j, D.data &&& 0xff) := by
  obtain ⟨id, hid⟩ := h.handlers
  have hfields := h.fields
  unfold Delegation.msg
  rw [hid] at hfields ⊢
  exact setRegOfMsg_setRegMsg rfl h.i.id_lt hfields

/-- The message names the write exactly if its fields are wide enough for it and the VM runs. -/
theorem Delegation.Known.selects_iff (h : D.Known E.cfg) (hcpus : ∀ vm, 0 < E.cfg.nrCpus vm) :
    ((vgicMsgVm (D.msg E).data).toNat = E.current.vm ∧
      Avisor.setRegOfMsg E (D.msg E).data = some (D.handlers, D.i, D.data)) ↔
    E.current.vm = D.writer.vm ∧ D.writer.vm < 2 ^ 16 ∧ (∀ v n, D.i = .priv v n → v.idx = 0) ∧
      D.data.toNat < 256 := by
  rw [h.setRegOfMsg]
  constructor
  · intro hmsg
    obtain ⟨hvm, hselects⟩ := hmsg
    obtain ⟨j, hj, heq⟩ := Option.map_eq_some_iff.mp hselects
    simp only [Prod.mk.injEq, true_and] at heq
    obtain ⟨rfl, hdata⟩ := heq
    have hcurrent : E.current.vm = D.writer.vm := (vgicGetInt_inVm hj).vm_eq h.i
    have hmod := vgicMsgVm_toNat D.writer.vm 0 (BitVec.ofNat 64 D.i.id)
      (BitVec.ofNat 64 D.handlers.regid.toNat) D.data
    have hlt : D.writer.vm < 2 ^ 16 := by
      rw [← hcurrent, ← hvm]
      refine Nat.lt_of_le_of_lt (Nat.le_of_eq hmod) ?_
      exact Nat.mod_lt _ (by decide)
    refine ⟨hcurrent, hlt, ?_, (and_mask8_eq_iff D.data).mp hdata⟩
    exact (vgicGetInt_zero_iff (vgicGetInt_inVm hj) fun _ _ _ => hcpus _).mp hj
  · intro hmsg
    obtain ⟨hcurrent, hlt, hpriv, hdata⟩ := hmsg
    have hi : InVm E.cfg E.current.vm D.i := hcurrent ▸ h.i
    rw [(vgicGetInt_zero_iff hi fun _ _ _ => hcpus _).mpr hpriv, Option.map_some,
      (and_mask8_eq_iff D.data).mpr hdata]
    exact ⟨(setRegMsg_vm hlt).trans hcurrent.symm, rfl⟩

/-- The handler of messages at a message that names a write. -/
theorem vgicIpiHandler_setReg (hvm : (vgicMsgVm (D.msg E).data).toNat = E.current.vm)
    (hselects : setRegOfMsg E (D.msg E).data = some (D.handlers, D.i, D.data)) :
    vgicIpiHandler E s (D.msg E).event (D.msg E).data =
      vgicIntSetField E s D.handlers E.current D.i D.data := by
  have hevent : VgicEvent.ofBits? (D.msg E).event = some .setReg := setReg_ofBits
  unfold vgicIpiHandler
  rw [if_neg (not_not_intro hvm), hevent]
  simp only [hselects]

/-- Where a message can be sent, the message of a delegated write is consumed exactly if the pCPU runs
the owner. -/
theorem consumed_iff (h : D.Known E.cfg) (hcpus : ∀ vm, 0 < E.cfg.nrCpus vm)
    (hsend : ∀ owner msg, ∃ u, cpuSendMsg E.cfg.msg s.msgs (E.pId owner) msg = some u) :
    Consumed E s D ↔ AtOwner E s D := by
  constructor
  · intro hconsumed
    obtain ⟨hvm, hlt, hpriv, hdata⟩ :=
      (h.selects_iff hcpus).mp ⟨hconsumed.vm, hconsumed.selects⟩
    refine ⟨hvm, hlt, hpriv, hdata, ?_⟩
    rcases getOwnership_cases s E.current D.i with ⟨-, howner⟩ | ⟨owner, howner, -, hget⟩
    · exact howner
    · exfalso
      obtain ⟨msgs, hmsgs⟩ := hsend owner (setRegMsg E D.handlers E.current D.i D.data)
      have hresent : vgicIntSetField E s D.handlers E.current D.i D.data =
          some { s with msgs := msgs, sent := s.sent ++ [(E.pId owner,
            setRegMsg E D.handlers E.current D.i D.data)] } := by
        unfold vgicIntSetField vgicSendMsg
        simp only [hget, Bool.false_eq_true, if_false, howner, Option.bind_some, hmsgs,
          Option.map_some]
      have hnone := hconsumed.noSetReg _ _
        ((vgicIpiHandler_setReg hconsumed.vm hconsumed.selects).trans hresent) rfl
      exact (hnone _ (List.mem_singleton_self _)).1 rfl
  · intro howner
    obtain ⟨hvm, hselects⟩ :=
      (h.selects_iff hcpus).mpr ⟨howner.vm, howner.vm_lt, howner.priv, howner.data⟩
    have hhandler := vgicIpiHandler_setReg (s := s) hvm hselects
    have hfield : vgicIntSetField E s D.handlers E.current D.i D.data =
        vgicIntSetFieldOwned E (vgicGetOwnership s E.current D.i).2 D.handlers E.current D.i
          D.data := by
      unfold vgicIntSetField
      rcases getOwnership_cases s E.current D.i with ⟨howned, -⟩ | ⟨owner, hother, hne, -⟩
      · simp only [howned, if_true]
      · exact absurd (howner.owner owner hother) hne
    refine ⟨hvm, hselects, hhandler.trans hfield, fun t l ht hsent m hm => ?_⟩
    have hroute : Sends E (fun c msg => msg.event = VgicEvent.route.toBits ∧ c ≠ E.pId E.current)
        (vgicGetOwnership s E.current D.i).2 t :=
      Sends.setFieldOwned (hfield.symm.trans (hhandler.symm.trans ht)) fun _ _ hne => ⟨rfl, hne⟩
    obtain ⟨l', hsent', hl', -⟩ := hroute
    have heq : l = l' := by
      rw [Quiet.getOwnership.sent, hsent] at hsent'
      exact List.append_cancel_left hsent'
    obtain ⟨hevent, hne⟩ := hl' m (heq ▸ hm)
    refine ⟨?_, hne⟩
    rw [hevent]
    decide

/-! ### Runs -/

/-- The writes that were delegated are known, and every `VGIC_SET_REG` that waits was sent for one of
them, to the pCPU where it waits. -/
structure Traced (cfg : HvConfig) (x : HvState × List Delegation) : Prop where
  wf : SendingWf cfg x.1
  known : ∀ D ∈ x.2, D.Known cfg.vgic
  origin : ∀ c < cfg.sched.hypNrCpus, ∀ msg ∈ waitingMsgs cfg.vgic.msg x.1.vgic.msgs c,
    VgicEvent.ofBits? msg.event = some .setReg →
      ∃ D ∈ x.2, D.target = c ∧ ∀ E : VgicEnv, E.cfg = cfg.vgic → D.msg E = msg

theorem Traced.init {x : HvState × List Delegation} (h : (delegMachine cfg).Init x) :
    Traced cfg x where
  wf := SendingWf.init h.1
  known D hD := by
    rw [h.2] at hD
    exact absurd hD List.not_mem_nil
  origin c hc msg hmsg := by
    rw [h.1.2.msgs.waitingMsgs (cfg.msgCpus.symm ▸ hc)] at hmsg
    exact absurd hmsg List.not_mem_nil

variable {x y : HvState × List Delegation} {a : HvAction}

/-- A message that is taken was waiting. -/
theorem SendingWf.mem_waiting {x : HvState} (h : SendingWf cfg x) {c : PCpuId} {msg : CpuMsg}
    {msgs : MsgState} (hc : c < cfg.sched.hypNrCpus)
    (hget : cpuGetMsg x.vgic.msgs c = some (msg, msgs)) :
    msg ∈ waitingMsgs cfg.vgic.msg x.vgic.msgs c := by
  rcases h.msgs.get (cfg.msgCpus.symm ▸ hc) with ⟨hnone, -⟩ | ⟨msg', u, hsome, -, hconcat, -⟩
  · rw [hnone] at hget
    cases hget
  · rw [hsome] at hget
    cases hget
    rw [hconcat]
    exact List.mem_append_right _ (List.mem_singleton_self _)

/-- What is delegated next is known again. -/
theorem Traced.delegation (h : Traced cfg x) {c : PCpuId} {vcpu : VcpuRef} {call : VgicCall}
    (hc : c < cfg.sched.hypNrCpus)
    (henabled : vgicEnabled (x.1.env cfg c vcpu) x.1.vgic call = true)
    (hD : vgicDelegation (x.1.env cfg c vcpu) x.1.vgic call = some D) : D.Known cfg.vgic := by
  have hfor := vgicDelegation_for hD
  have hwriter : D.writer = vcpu := hfor.writer
  cases call with
  | setField id i data =>
    obtain ⟨-, hhandlers, rfl⟩ := delegation_eq_some hD
    simp only [vgicEnabled, Bool.and_eq_true] at henabled
    refine ⟨⟨id, hhandlers⟩, ?_, ?_⟩
    · rw [hhandlers]
      exact Option.isSome_iff_ne_none.mp henabled.1
    · rw [hwriter]
      cases hi : D.i with
      | priv v n =>
        simp only [hi, Bool.and_eq_true, decide_eq_true_eq] at henabled
        exact ⟨henabled.2.1.1.2, henabled.2.1.1.1⟩
      | shared m n =>
        simp only [hi, Bool.and_eq_true, decide_eq_true_eq] at henabled
        obtain ⟨⟨rfl, hpriv⟩, hn⟩ := henabled.2
        exact ⟨rfl, hpriv, hn⟩
  | inject id source =>
    obtain ⟨-, hhandlers, hi⟩ := vgicInjectDelegation_eq_some hD
    refine ⟨⟨.ispendr, hhandlers⟩, ?_, hwriter ▸ vgicGetInt_inVm hi⟩
    rw [hhandlers]
    exact Option.some_ne_none _
  | message =>
    obtain ⟨⟨msg, msgs⟩, hget, hD⟩ := Option.bind_eq_some_iff.mp hD
    obtain ⟨-, hD⟩ := Option.ite_none_right_eq_some.mp hD
    obtain ⟨-, ⟨id, hhandlers, hi⟩ | ⟨hevent, val, hmsg⟩⟩ := vgicIpiDelegation_eq_some hD
    · refine ⟨⟨.ispendr, hhandlers⟩, ?_, hwriter ▸ vgicGetInt_inVm hi⟩
      rw [hhandlers]
      exact Option.some_ne_none _
    · -- the message is the one of a write that is known already
      obtain ⟨D', hD', -, hmsg'⟩ := h.origin c hc msg (h.wf.mem_waiting hc hget) hevent
      have hknown := h.known D' hD'
      have hdecode := Delegation.Known.setRegOfMsg (E := x.1.env cfg c vcpu) hknown
      rw [hmsg' _ rfl, hmsg] at hdecode
      obtain ⟨j, hj, heq⟩ := Option.map_eq_some_iff.mp hdecode.symm
      simp only [Prod.mk.injEq] at heq
      obtain ⟨hhandlers, rfl, -⟩ := heq
      refine ⟨?_, ?_, hwriter ▸ vgicGetInt_inVm hj⟩
      · rw [← hhandlers]
        exact hknown.handlers
      · rw [← hhandlers]
        exact hknown.fields
  | writeCtlr | writeSgir | writeSgi1r | injectHw | maintenance | guest => cases hD

/-- A `VGIC_SET_REG` is sent for a write that the call delegates. -/
def SetRegFor (E : VgicEnv) (D : Option Delegation) (c : PCpuId) (msg : CpuMsg) : Prop :=
  c < E.cfg.msg.hypNrCpus ∧ (VgicEvent.ofBits? msg.event = some .setReg →
    ∃ D', D = some D' ∧ D'.target = c ∧ D'.msg E = msg)

theorem EnvPlaced.admits_setReg (h : EnvPlaced E) (D : Option Delegation) :
    Admits E (SetRegFor E D) where
  route _ hc _ := ⟨Nat.lt_of_lt_of_le hc h.cpuNum_le, fun hevent => absurd hevent route_ofBits⟩
  sgi _ hc _ := ⟨Nat.lt_of_lt_of_le hc h.cpuNum_le, fun hevent => absurd hevent inject_ofBits⟩
  updateEnable := ⟨h.master _, fun hevent => absurd hevent updateEnable_ofBits⟩

theorem Traced.step (h : Traced cfg x) (hstep : (delegMachine cfg).step x a = some y) :
    Traced cfg y := by
  obtain ⟨z, hz, rfl⟩ := Option.map_eq_some_iff.mp hstep
  have hwf := h.wf.step hz
  cases step_hvStep hz with
  | sched a t step taken =>
    refine ⟨hwf, ?_, ?_⟩
    · simpa [HvState.delegation] using h.known
    · simpa [HvState.delegation] using h.origin
  | halt c call vcpu cpu pc vcpu_eq effect =>
    have hnone : x.1.delegation cfg (.vgic c call) = none := by
      simp only [HvState.delegation, vcpu_eq, Option.bind_some, effect]
      rfl
    refine ⟨hwf, ?_, ?_⟩
    · simpa [hnone] using h.known
    · simpa [hnone] using h.origin
  | vgic c call vcpu t cpu pc vcpu_eq enabled effect =>
    have hE := h.wf.env c vcpu
    have hsome : x.1.delegation cfg (.vgic c call) =
        vgicDelegation (x.1.env cfg c vcpu) x.1.vgic call := by
      simp only [HvState.delegation, vcpu_eq, Option.bind_some, effect]
      rfl
    refine ⟨hwf, ?_, ?_⟩
    · intro D hD
      rcases List.mem_append.mp hD with hold | hnew
      · exact h.known D hold
      · rw [hsome, Option.mem_toList] at hnew
        exact h.delegation cpu enabled hnew
    · obtain ⟨-, kept, l, -, hl, hwaiting⟩ := h.wf.call cpu
        (hE.admits_setReg (vgicDelegation (x.1.env cfg c vcpu) x.1.vgic call))
        (fun D hD => ⟨(hE.delegation (vgicDelegation_for hD)).1, fun _ => ⟨D, hD, rfl, rfl⟩⟩)
        (fun d msg hmsg => cfg.msgCpus ▸ hmsg.1) effect
      intro d hd msg hmsg hevent
      change msg ∈ waitingMsgs cfg.vgic.msg t.msgs d at hmsg
      rw [(hwaiting d hd).2, List.mem_append] at hmsg
      rcases hmsg with hmsg | hmsg
      · obtain ⟨D, hD, hfor⟩ := h.origin d hd msg ((hwaiting d hd).1 msg hmsg) hevent
        exact ⟨D, List.mem_append_left _ hD, hfor⟩
      · obtain ⟨m, hm, rfl⟩ := List.mem_map.mp hmsg
        obtain ⟨hml, hmd⟩ := List.mem_filter.mp hm
        obtain rfl : m.1 = d := by simpa using hmd
        obtain ⟨D, hD, htarget, hDmsg⟩ := (hl m hml).2 hevent
        refine ⟨D, List.mem_append_right _ ?_, htarget, fun E hcfg => ?_⟩
        · rw [hsome, Option.mem_toList]
          exact hD
        · rw [← hDmsg]
          unfold Delegation.msg setRegMsg vgicMsg
          rw [hcfg]
          rfl

/-- vCPU 0 of VM 1 activates the shared interrupt 40, which it owns from then on; when vCPU 1 has its
turn on the pCPU, it does the same, and delegates the write to its own pCPU. -/
def activateTwice : List HvAction :=
  startFirst ++ [.vgic 0 (.setField .isactiver (.shared 1 40) 1),
    .sched (.call 0 (.schedStartHandler 1))] ++ changeVm ++ changeVm ++
    [.vgic 0 (.setField .isactiver (.shared 1 40) 1)]

/-- The state behind it. -/
def activatedTwice : HvState × List Delegation :=
  ((delegMachine (twoVms .v2 4 (by decide))).run (twoVmsBoot .v2, []) activateTwice).getD
    (twoVmsBoot .v2, [])

end Avisor
