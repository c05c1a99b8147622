import Avisor.Vgic.CallSteps

/-!
# What the virtual interrupt controllers send

Moving interrupts into list registers and out of them sends nothing. The other functions send messages
to the pCPUs one after another, each for the VM of the executing pCPU.
-/

namespace Avisor

open Function

/-- No message is sent or taken. -/
structure Quiet (s t : VgicState) : Prop where
  msgs : t.msgs = s.msgs
  sent : t.sent = s.sent

variable {E : VgicEnv} {s t u : VgicState} {vcpu : VcpuRef} {i : IntRef} {n : Nat}

namespace Quiet

theorem refl (s : VgicState) : Quiet s s := ⟨rfl, rfl⟩

theorem trans (h : Quiet s t) (h' : Quiet t u) : Quiet s u :=
  ⟨h'.msgs.trans h.msgs, h'.sent.trans h.sent⟩

theorem modifyInt (i : IntRef) (f : VgicInt → VgicInt) : Quiet s (s.modifyInt i f) := ⟨rfl, rfl⟩

theorem setHcr (c : PCpuId) (hcr : GichHcr) : Quiet s (s.setHcr c hcr) := ⟨rfl, rfl⟩

theorem yieldOwnership : Quiet s (vgicYieldOwnership E s vcpu i) := by
  rcases vgicYieldOwnership_cases E s vcpu i with hsame | ⟨-, hyield⟩
  · rw [hsame]
    exact refl s
  · rw [hyield]
    exact modifyInt i _

theorem getOwnership : Quiet s (vgicGetOwnership s vcpu i).2 := by
  rcases vgicGetOwnership_cases s vcpu i with ⟨-, hsame⟩ | ⟨-, hget⟩
  · rw [hsame]
    exact refl s
  · rw [hget]
    exact modifyInt i _

theorem releasePrev : Quiet s (vgicReleasePrev E s vcpu i n) := by
  rcases vgicReleasePrev_cases E s vcpu i n with hsame | ⟨prev, -, hrelease⟩
  · rw [hsame]
    exact refl s
  · rw [hrelease]
    exact (modifyInt prev _).trans yieldOwnership

theorem writeLr : Quiet s (vgicWriteLr E s vcpu i n) :=
  releasePrev.trans ⟨rfl, rfl⟩

theorem removeLr : Quiet s (vgicRemoveLr E s vcpu i).2 := by
  unfold vgicRemoveLr
  split
  · exact refl s
  · split
    · exact ⟨rfl, rfl⟩
    · exact ⟨rfl, rfl⟩

theorem addSpilled : Quiet s (vgicAddSpilled E s vcpu i) := ⟨rfl, rfl⟩

theorem spillLr {held : IntRef} (h : vgicSpillLr E s vcpu n held = some t) : Quiet s t := by
  cases vgicSpillLr_step h with
  | unknown => exact refl s
  | spilled j found other => exact (removeLr.trans addSpilled).trans yieldOwnership

theorem addLr (h : vgicAddLr E s vcpu i = some t) : Quiet s t := by
  cases vgicAddLr_step h with
  | refused => exact refl s
  | placed k => exact writeLr
  | evicted k u enabled inLr search spill => exact (spillLr spill).trans writeLr
  | spilled => exact addSpilled

theorem addLrTarget (h : vgicAddLrTarget E s vcpu i = some t) : Quiet s t := by
  cases vgicAddLrTarget_step h with
  | added t target add => exact addLr add
  | elsewhere => exact refl s

theorem updateInt {fields : RegFields} {data : BitVec 64} :
    Quiet s (updateInt E s fields vcpu i data) := by
  unfold Avisor.updateInt
  dsimp only
  split
  · exact ⟨rfl, rfl⟩
  · exact modifyInt i _

theorem injectHw {id : Nat} (h : vgicInjectHw E s vcpu id = some t) : Quiet s t := by
  obtain ⟨i, -, h⟩ := Option.bind_eq_some_iff.mp h
  exact (modifyInt i _).trans (addLr h)

theorem injectSgi {source : Nat} (h : vgicInjectSgi E s vcpu i source = some t) : Quiet s t := by
  cases vgicInjectSgi_step h with
  | known => exact removeLr
  | added t new add => exact (removeLr.trans (modifyInt i _)).trans (addLr add)

theorem ipiRoute (h : vgicIpiRoute E s i = some t) : Quiet s t := by
  cases vgicIpiRoute_step h with
  | routed u granted place => exact (getOwnership.trans (addLrTarget place)).trans yieldOwnership
  | refused => exact refl s

theorem unspill : Quiet s (vgicUnspill E s vcpu i n) := by
  apply Quiet.trans ?_ writeLr
  exact ⟨rfl, rfl⟩

theorem refillLoop {fuel : Nat} {flags : IntState} (h : refillLoop E vcpu fuel s flags = some t) :
    Quiet s t := by
  apply refillLoop_invariant ?_ ?_ (refl s) h
  · exact fun _ _ _ _ hu _ _ _ => hu.trans (getOwnership.trans unspill)
  · exact fun _ hu => hu.trans (setHcr _ _)

theorem eoirHighestSpilledActive (h : vgicEoirHighestSpilledActive E s vcpu = some t) :
    Quiet s t := by
  cases vgicEoirHighestSpilledActive_step h with
  | kept => exact refl s
  | hw i u highest granted ended =>
    subst ended
    exact getOwnership.trans ⟨rfl, rfl⟩
  | added i u t highest granted ended notHw pend add =>
    subst ended
    exact (getOwnership.trans (modifyInt _ _)).trans (addLr add)
  | inactive i u highest granted ended =>
    subst ended
    exact getOwnership.trans (modifyInt _ _)

theorem trappedEoi (h : vgicTrappedEoi E s vcpu i = some t) : Quiet s t := by
  cases vgicTrappedEoi_step h with
  | sgi t sgi add => exact (modifyInt i _).trans (addLr add)
  | yielded => exact (modifyInt i _).trans yieldOwnership

theorem trappedEoirLoop {fuel : Nat} {lrInd : Option Nat}
    (h : trappedEoirLoop E vcpu fuel s lrInd = some t) : Quiet s t := by
  have hzero (u : VgicState) (k : Nat) : Quiet u (u.writeLr E.self k .zero) := ⟨rfl, rfl⟩
  obtain ⟨-, hquiet⟩ := trappedEoirLoop_invariant (P := fun _ u _ => Quiet s u)
    (fun _ u k hu _ => hu.trans (hzero u k))
    (fun _ u k _ _ hu _ heoi => (hu.trans (hzero u k)).trans (trappedEoi heoi)) (refl s) h
  exact hquiet

theorem eoiCountLoop {fuel : Nat} (h : eoiCountLoop E fuel s = some t) : Quiet s t := by
  obtain ⟨-, hquiet⟩ := eoiCountLoop_invariant (P := fun _ u => Quiet s u)
    (fun _ _ _ hu _ heoir => hu.trans ((eoirHighestSpilledActive heoir).trans (setHcr _ _))) (refl s) h
  exact hquiet

theorem maintenance (h : gicMaintenanceHandler E s = some t) : Quiet s t := by
  apply gicMaintenanceHandler_invariant ?_ ?_ ?_ (refl s) h
  · exact fun _ _ htrapped => trappedEoirLoop htrapped
  · exact fun _ _ hu hrefill => hu.trans (refillLoop hrefill)
  · exact fun _ _ _ _ _ hw _ hcount => hw.trans (eoiCountLoop hcount)

end Quiet

/-! ### Delegated writes -/

/-- A write to an interrupt of another vCPU: the pCPU its message goes to, and what is to be done
there. -/
structure Delegation where
  target : PCpuId
  handlers : RegHandlerInfo
  writer : VcpuRef
  i : IntRef
  data : BitVec 64

/-- The message for the write. -/
def Delegation.msg (D : Delegation) (E : VgicEnv) : CpuMsg :=
  setRegMsg E D.handlers D.writer D.i D.data

/-- What `vgic_int_set_field` delegates. -/
def delegation (E : VgicEnv) (s : VgicState) (handlers : RegHandlerInfo) (vcpu : VcpuRef)
    (i : IntRef) (data : BitVec 64) : Option Delegation :=
  (s.ints i).owner.bind fun owner =>
    if owner = vcpu then none else some ⟨E.pId owner, handlers, vcpu, i, data⟩

/-- What `vgic_inject` delegates. -/
def vgicInjectDelegation (E : VgicEnv) (s : VgicState) (vcpu : VcpuRef) (id : Nat) :
    Option Delegation :=
  (vgicGetInt E vcpu id vcpu.idx).bind fun i =>
    if vgicIntIsHw s i || E.cfg.version = .v2 && gicIsSgi id then none
    else delegation E s ispendrInfo vcpu i 1

/-- What `vgic_ipi_handler` delegates. -/
def vgicIpiDelegation (E : VgicEnv) (s : VgicState) (event : BitVec 32) (data : BitVec 64) :
    Option Delegation :=
  if (vgicMsgVm data).toNat ≠ E.current.vm then none
  else
    match VgicEvent.ofBits? event with
    | some .inject => vgicInjectDelegation E s E.current (vgicMsgIntid data).toNat
    | some .setReg =>
      (setRegOfMsg E data).bind fun (handlers, i, val) => delegation E s handlers E.current i val
    | _ => none

/-- What a call delegates. -/
def vgicDelegation (E : VgicEnv) (s : VgicState) : VgicCall → Option Delegation
  | .setField id i data =>
    delegation E s (regHandlerInfoTable E.cfg.version id) E.current i data
  | .inject id _ => vgicInjectDelegation E s E.current id
  | .message =>
    (cpuGetMsg s.msgs E.self).bind fun (msg, _) =>
      if E.cfg.msg.handles msg && msg.handler = E.cfg.vgicIpiId then
        vgicIpiDelegation E s msg.event msg.data
      else none
  | _ => none

/-- A vCPU gets the ownership, or another vCPU has it. -/
theorem getOwnership_cases (s : VgicState) (vcpu : VcpuRef) (i : IntRef) :
    ((vgicGetOwnership s vcpu i).1 = true ∧
      ∀ owner, (s.ints i).owner = some owner → owner = vcpu) ∨
    ∃ owner, (s.ints i).owner = some owner ∧ owner ≠ vcpu ∧ vgicGetOwnership s vcpu i = (false, s) := by
  unfold vgicGetOwnership
  cases howner : (s.ints i).owner with
  | none =>
    left
    rw [if_neg (by simp), if_pos rfl]
    exact ⟨rfl, by simp⟩
  | some owner =>
    by_cases hvcpu : owner = vcpu
    · left
      rw [if_pos (congrArg some hvcpu)]
      exact ⟨rfl, fun _ h => Option.some.inj h ▸ hvcpu⟩
    · right
      refine ⟨owner, rfl, hvcpu, ?_⟩
      rw [if_neg (by simpa using hvcpu), if_neg (by simp)]

/-- From `s` to `t` the messages of a list are sent one after another; each, with its target, meets
`R`. -/
def Sends (E : VgicEnv) (R : PCpuId → CpuMsg → Prop) (s t : VgicState) : Prop :=
  ∃ l : List (PCpuId × CpuMsg), t.sent = s.sent ++ l ∧ (∀ x ∈ l, R x.1 x.2) ∧
    l.foldlM (fun m x => cpuSendMsg E.cfg.msg m x.1 x.2) s.msgs = some t.msgs

variable {R : PCpuId → CpuMsg → Prop}

theorem Quiet.sends (h : Quiet s t) : Sends E R s t :=
  ⟨[], by rw [h.sent, List.append_nil], by simp, by rw [h.msgs]; rfl⟩

namespace Sends

theorem trans (h : Sends E R s t) (h' : Sends E R t u) : Sends E R s u := by
  obtain ⟨l, hsent, hl, hmsgs⟩ := h
  obtain ⟨m, hsent', hm, hmsgs'⟩ := h'
  refine ⟨l ++ m, by rw [hsent', hsent, List.append_assoc], fun x hx => ?_, ?_⟩
  · exact (List.mem_append.mp hx).elim (hl x) (hm x)
  · rw [List.foldlM_append, hmsgs]
    exact hmsgs'

theorem sendMsg {c : PCpuId} {msg : CpuMsg} (h : vgicSendMsg E s c msg = some t) (hR : R c msg) :
    Sends E R s t := by
  obtain ⟨msgs, hmsgs, rfl⟩ := Option.map_eq_some_iff.mp h
  refine ⟨[(c, msg)], rfl, by simpa using hR, ?_⟩
  simp [hmsgs]

theorem sendMask {mask : BitVec 64} {msg : CpuMsg} (h : vgicSendMask E s mask msg = some t)
    (hR : ∀ c < E.cfg.cpuNum, mask.getLsbD c → R c msg) : Sends E R s t := by
  unfold vgicSendMask at h
  have hcpus (c) (hc : c ∈ List.range E.cfg.cpuNum) : mask.getLsbD c → R c msg :=
    hR c (List.mem_range.mp hc)
  revert hcpus
  generalize List.range E.cfg.cpuNum = cpus at h
  intro hcpus
  induction cpus generalizing s with
  | nil =>
    cases h
    exact (Quiet.refl _).sends
  | cons c cpus ih =>
    rw [List.foldlM_cons] at h
    obtain ⟨u, hu, h⟩ := Option.bind_eq_some_iff.mp h
    have hrest := ih h fun d hd => hcpus d (List.mem_cons_of_mem c hd)
    split at hu
    · rename_i hbit
      exact (sendMsg hu (hcpus c List.mem_cons_self hbit)).trans hrest
    · cases hu
      exact hrest

/-- `vgic_route` sends to the pCPUs of its mask only. -/
theorem routeOthers (h : vgicRouteOthers E s vcpu i = some t)
    (hR : ∀ c < E.cfg.cpuNum, c ≠ E.pId vcpu → R c (routeMsg E vcpu i)) : Sends E R s t := by
  cases vgicRouteOthers_step h with
  | kept => exact (Quiet.refl s).sends
  | sent t send =>
    refine Quiet.yieldOwnership.sends.trans (sendMask send fun c hc hbit => hR c hc ?_)
    rintro rfl
    unfold routeMask at hbit
    simp only [BitVec.getLsbD_and, BitVec.getLsbD_not, BitVec.getLsbD_shiftLeft, Bool.and_eq_true,
      Bool.not_eq_true', decide_eq_true_eq] at hbit
    simp [hbit.2.1] at hbit

theorem route (h : vgicRoute E s vcpu i = some t)
    (hR : ∀ c < E.cfg.cpuNum, c ≠ E.pId vcpu → R c (routeMsg E vcpu i)) : Sends E R s t := by
  cases vgicRoute_step h with
  | idle => exact (Quiet.refl s).sends
  | routed u t state enabled place others =>
    exact (Quiet.addLrTarget place).sends.trans (routeOthers others hR)

/-- A write to an owned interrupt sends nothing but `VGIC_ROUTE` to other pCPUs. -/
theorem setFieldOwned {handlers : RegHandlerInfo} {data : BitVec 64}
    (h : vgicIntSetFieldOwned E s handlers vcpu i data = some t)
    (hR : ∀ c < E.cfg.cpuNum, c ≠ E.pId vcpu → R c (routeMsg E vcpu i)) : Sends E R s t := by
  obtain ⟨fields, hfields, -⟩ := Option.bind_eq_some_iff.mp h
  obtain ⟨u, hu, rfl⟩ := vgicIntSetFieldOwned_route hfields h
  have hupdate : Quiet s (Avisor.updateInt E (vgicRemoveLr E s vcpu i).2 fields vcpu i data) :=
    Quiet.removeLr.trans Quiet.updateInt
  exact (hupdate.sends.trans (route hu hR)).trans Quiet.yieldOwnership.sends

theorem setField {handlers : RegHandlerInfo} {data : BitVec 64}
    (h : vgicIntSetField E s handlers vcpu i data = some t)
    (hroute : ∀ c < E.cfg.cpuNum, c ≠ E.pId vcpu → R c (routeMsg E vcpu i))
    (hset : ∀ D, delegation E s handlers vcpu i data = some D → R D.target (D.msg E)) :
    Sends E R s t := by
  cases vgicIntSetField_step h with
  | owned fields t granted fields_eq set =>
    exact Quiet.getOwnership.sends.trans (setFieldOwned set hroute)
  | delegated owner t owner_eq other send =>
    refine sendMsg send (hset ⟨E.pId owner, handlers, vcpu, i, data⟩ ?_)
    unfold delegation
    rw [owner_eq, Option.bind_some, if_neg other]

/-- Behind the messages that waited on a pCPU wait those sent to it, in that order. -/
theorem waiting (h : Sends E R s t) (hs : MsgWellFormed E.cfg.msg s.msgs)
    (hR : ∀ c msg, R c msg → c < E.cfg.msg.hypNrCpus) :
    MsgWellFormed E.cfg.msg t.msgs ∧ ∃ l : List (PCpuId × CpuMsg),
      t.sent = s.sent ++ l ∧ (∀ x ∈ l, R x.1 x.2) ∧ ∀ c < E.cfg.msg.hypNrCpus,
        waitingMsgs E.cfg.msg t.msgs c =
          waitingMsgs E.cfg.msg s.msgs c ++ (l.filter (·.1 = c)).map Prod.snd := by
  obtain ⟨l, hsent, hl, hmsgs⟩ := h
  suffices hwait : MsgWellFormed E.cfg.msg t.msgs ∧ ∀ c < E.cfg.msg.hypNrCpus,
      waitingMsgs E.cfg.msg t.msgs c =
        waitingMsgs E.cfg.msg s.msgs c ++ (l.filter (·.1 = c)).map Prod.snd from
    ⟨hwait.1, l, hsent, hl, hwait.2⟩
  clear hsent
  generalize s.msgs = m at hs hmsgs
  induction l generalizing m with
  | nil =>
    cases hmsgs
    exact ⟨hs, fun c _ => by simp⟩
  | cons x l ih =>
    rw [List.foldlM_cons] at hmsgs
    obtain ⟨k, hk, hmsgs⟩ := Option.bind_eq_some_iff.mp hmsgs
    obtain ⟨hwf, hwaiting⟩ := hs.send (hR x.1 x.2 (hl x List.mem_cons_self)) hk
    obtain ⟨hwf', hrest⟩ := ih (fun y hy => hl y (List.mem_cons_of_mem x hy)) k hwf hmsgs
    refine ⟨hwf', fun c hc => ?_⟩
    rw [hrest c hc, hwaiting c hc]
    by_cases hx : x.1 = c
    · simp [hx]
    · simp [hx, Ne.symm hx]

end Sends

/-! ### The calls of the machine -/

/-- `R` holds of all that the calls send on this pCPU but the messages of delegated writes. -/
structure Admits (E : VgicEnv) (R : PCpuId → CpuMsg → Prop) : Prop where
  route : ∀ c < E.cfg.cpuNum, ∀ i, R c (routeMsg E E.current i)
  sgi : ∀ c < E.cfg.cpuNum, ∀ id, R c (sgiMsg E id)
  updateEnable : R (E.master E.current.vm) (updateEnableMsg E)

namespace Sends

theorem setFieldCurrent {handlers : RegHandlerInfo} {data : BitVec 64} (hR : Admits E R)
    (hset : ∀ D, delegation E s handlers E.current i data = some D → R D.target (D.msg E))
    (h : vgicIntSetField E s handlers E.current i data = some t) : Sends E R s t :=
  setField h (fun c hc _ => hR.route c hc i) hset

theorem sendSgi (hR : Admits E R) {mask : BitVec 64} {id : Nat}
    (h : vgicSendSgiMsg E s mask id = some t) : Sends E R s t :=
  sendMask h fun c hc _ => hR.sgi c hc id

theorem writeCtlr (hR : Admits E R) {val : BitVec 64} (h : vgicdWriteCtlr E s val = some t) :
    Sends E R s t := by
  cases vgicdWriteCtlr_step h with
  | same => exact Quiet.sends ⟨rfl, rfl⟩
  | changed t send =>
    have hsend := sendMsg send hR.updateEnable
    refine Sends.trans (Quiet.sends ?_) hsend
    exact ⟨rfl, rfl⟩

theorem inject (hR : Admits E R) {id source : Nat}
    (hset : ∀ D, vgicInjectDelegation E s E.current id = some D → R D.target (D.msg E))
    (h : vgicInject E s E.current id source = some t) : Sends E R s t := by
  cases vgicInject_step h with
  | unknown => exact (Quiet.refl s).sends
  | hw i t found hw inject => exact (Quiet.injectHw inject).sends
  | sgi i t found notHw sources inject => exact (Quiet.injectSgi inject).sends
  | set i t found notHw sources set =>
    have hsgi : (E.cfg.version = .v2 && gicIsSgi id) = false := vgicGetInt_id found ▸ sources
    unfold vgicInjectDelegation at hset
    rw [found, Option.bind_some, if_neg (by simp [notHw, hsgi])] at hset
    exact setFieldCurrent hR hset set

theorem ipiHandler (hR : Admits E R) {event : BitVec 32} {data : BitVec 64}
    (hset : ∀ D, vgicIpiDelegation E s event data = some D → R D.target (D.msg E))
    (h : vgicIpiHandler E s event data = some t) : Sends E R s t := by
  obtain ⟨hvm, hstep⟩ := vgicIpiHandler_step h
  unfold vgicIpiDelegation at hset
  rw [if_neg (not_not.mpr hvm)] at hset
  cases hstep with
  | unknown => exact (Quiet.refl s).sends
  | updateEnable => exact Quiet.sends ⟨rfl, rfl⟩
  | route i t event_eq found route => exact (Quiet.ipiRoute route).sends
  | inject t event_eq inject =>
    simp only [event_eq] at hset
    exact Sends.inject hR hset inject
  | setReg handlers i val t event_eq msg set =>
    simp only [event_eq, msg] at hset
    exact setFieldCurrent hR hset set

/-- What a call sends; before that, the handler of messages takes one. -/
theorem effect (hR : Admits E R) {call : VgicCall}
    (hset : ∀ D, vgicDelegation E s call = some D → R D.target (D.msg E))
    (h : vgicEffect E s call = some t) :
    Sends E R s t ∨
    ∃ msg msgs, call = .message ∧ cpuGetMsg s.msgs E.self = some (msg, msgs) ∧
      Sends E R { s with msgs := msgs } t := by
  cases call with
  | setField id i data => exact .inl (setFieldCurrent hR hset h)
  | writeCtlr val => exact .inl (writeCtlr hR h)
  | writeSgir val =>
    left
    rcases vgicdWriteSgir_step h with rfl | ⟨mask, -, hsend⟩
    · exact (Quiet.refl t).sends
    · exact sendSgi hR hsend
  | writeSgi1r sgir => exact .inl (sendSgi hR h)
  | injectHw id => exact .inl (Quiet.injectHw h).sends
  | inject id source => exact .inl (inject hR hset h)
  | maintenance => exact .inl (Quiet.maintenance h).sends
  | message =>
    cases cpuMsgRound_step h with
    | none => exact .inl (Quiet.refl s).sends
    | other msg msgs get => exact .inr ⟨msg, msgs, rfl, get, (Quiet.refl _).sends⟩
    | vgic msg msgs t get handles handle =>
      refine .inr ⟨msg, msgs, rfl, get, ?_⟩
      simp only [vgicDelegation, get, Option.bind_some] at hset
      rw [if_pos handles] at hset
      exact ipiHandler hR hset handle
  | guest g =>
    left
    cases guestEffect_step h with
    | lr n state lt used => exact Quiet.sends ⟨rfl, rfl⟩
    | counted => exact Quiet.sends ⟨rfl, rfl⟩

end Sends

/-! ### Who delegates what -/

/-- The writer runs on the pCPU, another vCPU owns the interrupt, and the message goes to the pCPU of
that one. -/
structure Delegation.For (D : Delegation) (E : VgicEnv) (s : VgicState) : Prop where
  writer : D.writer = E.current
  target : ∃ owner, (s.ints D.i).owner = some owner ∧ owner ≠ E.current ∧ D.target = E.pId owner

variable {D : Delegation}

theorem delegation_eq_some {handlers : RegHandlerInfo} {data : BitVec 64}
    (h : delegation E s handlers E.current i data = some D) :
    D.For E s ∧ D.handlers = handlers ∧ D.i = i := by
  obtain ⟨owner, howner, h⟩ := Option.bind_eq_some_iff.mp h
  split at h
  · cases h
  · rename_i hne
    cases h
    exact ⟨⟨rfl, owner, howner, hne, rfl⟩, rfl, rfl⟩

theorem vgicInjectDelegation_eq_some {id : Nat}
    (h : vgicInjectDelegation E s E.current id = some D) :
    D.For E s ∧ D.handlers = ispendrInfo ∧ vgicGetInt E E.current id E.current.idx = some D.i := by
  obtain ⟨i, hi, h⟩ := Option.bind_eq_some_iff.mp h
  split at h
  · cases h
  · obtain ⟨hfor, hhandlers, rfl⟩ := delegation_eq_some h
    exact ⟨hfor, hhandlers, hi⟩

theorem vgicIpiDelegation_eq_some {event : BitVec 32} {data : BitVec 64}
    (h : vgicIpiDelegation E s event data = some D) :
    D.For E s ∧
      ((∃ id, D.handlers = ispendrInfo ∧ vgicGetInt E E.current id E.current.idx = some D.i) ∨
        VgicEvent.ofBits? event = some .setReg ∧
          ∃ val, setRegOfMsg E data = some (D.handlers, D.i, val)) := by
  unfold vgicIpiDelegation at h
  split at h
  · cases h
  · split at h
    · obtain ⟨hfor, hinject⟩ := vgicInjectDelegation_eq_some h
      exact ⟨hfor, .inl ⟨_, hinject⟩⟩
    · rename_i hevent
      obtain ⟨⟨handlers, i, val⟩, hmsg, h⟩ := Option.bind_eq_some_iff.mp h
      obtain ⟨hfor, rfl, rfl⟩ := delegation_eq_some h
      exact ⟨hfor, .inr ⟨hevent, val, hmsg⟩⟩
    · cases h

theorem vgicDelegation_for {call : VgicCall} (h : vgicDelegation E s call = some D) : D.For E s := by
  cases call with
  | setField id i data => exact (delegation_eq_some h).1
  | inject id source => exact (vgicInjectDelegation_eq_some h).1
  | message =>
    obtain ⟨⟨msg, msgs⟩, -, h⟩ := Option.bind_eq_some_iff.mp h
    obtain ⟨-, h⟩ := Option.ite_none_right_eq_some.mp h
    exact (vgicIpiDelegation_eq_some h).1
  | writeCtlr | writeSgir | writeSgi1r | injectHw | maintenance | guest => cases h

/-! ### For which VM -/

/-- The pCPUs that the code sends messages to exist. -/
structure EnvPlaced (E : VgicEnv) : Prop where
  pId : ∀ v, E.pId v < E.cfg.msg.hypNrCpus
  master : ∀ m, E.master m < E.cfg.msg.hypNrCpus
  cpuNum_le : E.cfg.cpuNum ≤ E.cfg.msg.hypNrCpus

/-- The message goes to a pCPU that exists and is for the VM of the sender, whose id it holds in 16
bits. -/
def ForOwnVm (E : VgicEnv) (c : PCpuId) (msg : CpuMsg) : Prop :=
  c < E.cfg.msg.hypNrCpus ∧ (vgicMsgVm msg.data).toNat = E.current.vm % 2 ^ 16

theorem vgicMsgVm_toNat (vm : VmId) (vgicrid intId reg val : BitVec 64) :
    (vgicMsgVm (vgicMsgData (BitVec.ofNat 64 vm) vgicrid intId reg val)).toNat = vm % 2 ^ 16 := by
  have hand : (BitVec.ofNat 64 vm &&& 0xffff).toNat = vm % 2 ^ 64 % 2 ^ 16 := by
    rw [BitVec.toNat_and, BitVec.toNat_ofNat]
    exact Nat.and_two_pow_sub_one_eq_mod _ 16
  rw [vgicMsgVm_data, hand]
  omega

theorem EnvPlaced.admits (h : EnvPlaced E) : Admits E (ForOwnVm E) where
  route _ hc _ := ⟨Nat.lt_of_lt_of_le hc h.cpuNum_le, vgicMsgVm_toNat _ _ _ _ _⟩
  sgi _ hc _ := ⟨Nat.lt_of_lt_of_le hc h.cpuNum_le, vgicMsgVm_toNat _ _ _ _ _⟩
  updateEnable := ⟨h.master _, vgicMsgVm_toNat _ _ _ _ _⟩

theorem EnvPlaced.delegation (h : EnvPlaced E) (hD : D.For E s) :
    ForOwnVm E D.target (D.msg E) := by
  obtain ⟨owner, -, -, htarget⟩ := hD.target
  refine ⟨htarget ▸ h.pId owner, ?_⟩
  unfold Delegation.msg setRegMsg
  rw [hD.writer]
  exact vgicMsgVm_toNat _ _ _ _ _

end Avisor
