import Avisor.Vgic.HousingMaintenance

/-!
# Whose interrupts the list registers hold

A pCPU writes list registers and links interrupts for the vCPU that it runs. The calls look interrupts
up in that vCPU and in its VM, so what they write is theirs; but the scheduler goes on with another vCPU
and leaves the list registers as they are.
-/

namespace Avisor

open Function CircularList

/-- The list that an interrupt is linked in when it is spilled. -/
def intHome : IntRef → SpilledHead
  | .priv vcpu _ => .vcpu vcpu
  | .shared vm _ => .vm vm

/-- A private interrupt of the vCPU, or a shared one of its VM. -/
def BelongsTo (vcpu : VcpuRef) : IntRef → Prop
  | .priv w _ => w = vcpu
  | .shared vm _ => vm = vcpu.vm

/-- The number of the interrupt tells whether it is private. -/
def WellNumbered : IntRef → Prop
  | .priv _ id => id < gicCpuPriv
  | .shared _ id => gicCpuPriv ≤ id

/-- The list register was written for an interrupt of the vCPU or its VM. -/
def HoldsFor (vcpu : VcpuRef) (lr : ListReg) : Prop :=
  ∃ i, lr.holds = some i ∧ lr.vid = i.id ∧ WellNumbered i ∧ BelongsTo vcpu i

/-- What calls on a pCPU keep: the lists of different vCPUs and VMs do not meet, the list registers in
use are for the vCPU that runs, and those of the other pCPUs are `R`. -/
structure Kept (E : VgicEnv) (R : PCpuId → Nat → ListReg) (s : VgicState) : Prop where
  apart : ∃ M, (∀ i, M i → WellNumbered i) ∧ KeepApart intHome M s.links
  lrs : ∀ k < E.cfg.numLrs, (s.lr E.self k).state ≠ .inv → HoldsFor E.current (s.lr E.self k)
  others : ∀ c, c ≠ E.self → s.lr c = R c

variable {E : VgicEnv} {R : PCpuId → Nat → ListReg} {s t : VgicState} {i : IntRef} {k : Nat}

theorem Own.belongsTo (h : Own E i) : BelongsTo E.current i := by
  cases i with
  | priv vcpu id => exact h.1
  | shared vm id => exact h.1

theorem Own.wellNumbered (h : Own E i) : WellNumbered i := by
  cases i with
  | priv vcpu id => exact h.2
  | shared vm id => exact h.2.1

/-- The number of an interrupt that belongs to the vCPU chooses the list it is linked in. -/
theorem spilledHead_eq (hn : WellNumbered i) (hi : BelongsTo E.current i) :
    spilledHead E.current i = intHome i := by
  unfold spilledHead gicIsPriv
  cases i with
  | priv vcpu id =>
    obtain rfl : vcpu = E.current := hi
    have hpriv : id < gicCpuPriv := hn
    exact if_pos (decide_eq_true hpriv)
  | shared vm id =>
    obtain rfl : vm = E.current.vm := hi
    have hshared : gicCpuPriv ≤ id := hn
    exact if_neg fun hlt => absurd (of_decide_eq_true hlt) (Nat.not_lt.mpr hshared)

theorem belongsTo_of_home (h : intHome i = .vcpu E.current ∨ intHome i = .vm E.current.vm) :
    BelongsTo E.current i := by
  cases i with
  | priv vcpu id => simpa [intHome, BelongsTo] using h
  | shared vm id => simpa [intHome, BelongsTo] using h

/-! ### What the functions leave alone -/

theorem vgicSendMsg_same {c : PCpuId} {msg : CpuMsg} (h : vgicSendMsg E s c msg = some t) :
    t.links = s.links ∧ t.ints = s.ints ∧ t.gich = s.gich := by
  obtain ⟨msgs, -, rfl⟩ := Option.map_eq_some_iff.mp h
  exact ⟨rfl, rfl, rfl⟩

theorem lrOfInt_holds (E : VgicEnv) (i : IntRef) (int : VgicInt) (state : IntState) :
    (lrOfInt E i int state).1.holds = some i := by
  unfold lrOfInt
  dsimp only
  split
  · rfl
  · split
    · split
      · rfl
      · split
        · rfl
        · rfl
    · rfl

theorem updateInt_same (E : VgicEnv) (s : VgicState) (fields : RegFields) (i : IntRef)
    (data : BitVec 64) :
    (updateInt E s fields E.current i data).links = s.links ∧
      (updateInt E s fields E.current i data).lr = s.lr ∧
      (updateInt E s fields E.current i data).ints i =
        (fields.updateField E E.current i data (s.ints i)).2 := by
  unfold updateInt
  dsimp only
  split
  · exact ⟨rfl, rfl, update_self ..⟩
  · exact ⟨rfl, rfl, update_self ..⟩

/-! ### The list registers and the lists -/

namespace Kept

/-- Only the lists and the list registers matter. -/
theorem congr (h : Kept E R s) (hlinks : t.links = s.links) (hlr : t.lr = s.lr) : Kept E R t where
  apart := hlinks ▸ h.apart
  lrs := hlr ▸ h.lrs
  others := hlr ▸ h.others

theorem modifyInt {f : VgicInt → VgicInt} (h : Kept E R s) : Kept E R (s.modifyInt i f) :=
  h.congr rfl rfl

theorem setHcr {hcr : GichHcr} (h : Kept E R s) : Kept E R (s.setHcr E.self hcr) :=
  h.congr rfl VgicState.setHcr_lr

/-- A list register is written for an interrupt of the vCPU, or left free. -/
theorem writeLr (h : Kept E R s) {lr : ListReg}
    (hlr : k < E.cfg.numLrs → lr.state ≠ .inv → HoldsFor E.current lr) :
    Kept E R (s.writeLr E.self k lr) where
  apart := h.apart
  lrs n hn hne := by
    rw [VgicState.writeLr_lr, update_self] at hne ⊢
    by_cases hnk : n = k
    · subst hnk
      rw [update_self] at hne ⊢
      exact hlr hn hne
    · rw [update_of_ne hnk] at hne ⊢
      exact h.lrs n hn hne
  others c hc := by
    rw [VgicState.writeLr_lr, update_of_ne hc]
    exact h.others c hc

theorem zeroLr (h : Kept E R s) : Kept E R (s.writeLr E.self k .zero) :=
  h.writeLr fun _ hne => absurd rfl hne

theorem yieldOwnership (h : Kept E R s) : Kept E R (vgicYieldOwnership E s E.current i) :=
  h.congr vgicYieldOwnership_links vgicYieldOwnership_lr

theorem getOwnership (h : Kept E R s) : Kept E R (vgicGetOwnership s E.current i).2 :=
  h.congr (vgicGetOwnership_same s E.current i).1 (vgicGetOwnership_same s E.current i).2

theorem vgicWriteLr (h : Kept E R s) (hn : WellNumbered i) (hi : BelongsTo E.current i) :
    Kept E R (vgicWriteLr E s E.current i k) := by
  have hprev : Kept E R (vgicReleasePrev E s E.current i k) :=
    h.congr vgicReleasePrev_links vgicReleasePrev_lr
  unfold Avisor.vgicWriteLr
  generalize vgicReleasePrev E s E.current i k = u at hprev
  have hholds := lrOfInt_holds E i (u.ints i) (vgicGetState E u i)
  have hvid := lrOfInt_vid E i (u.ints i) (vgicGetState E u i)
  dsimp only
  generalize lrOfInt E i (u.ints i) (vgicGetState E u i) = p at hholds hvid
  obtain ⟨lr, sgiPend⟩ := p
  apply Kept.writeLr
  · exact hprev.congr rfl rfl
  · exact fun _ _ => ⟨i, hholds, hvid, hn, hi⟩

theorem removeLr (h : Kept E R s) : Kept E R (vgicRemoveLr E s E.current i).2 := by
  unfold vgicRemoveLr
  split
  · exact h
  · split
    · exact h.congr rfl rfl
    · rename_i lrInd lr _
      exact (h.zeroLr (k := lrInd)).congr rfl (by simp)

theorem addSpilled (h : Kept E R s) (hn : WellNumbered i) (hi : BelongsTo E.current i) :
    Kept E R (vgicAddSpilled E s E.current i) := by
  obtain ⟨M, hM, hapart⟩ := h.apart
  have hadded := hapart.listAddTail (n := i)
  rw [← spilledHead_eq hn hi] at hadded
  refine { h with apart := ⟨fun j => M j ∨ j = i, ?_, hadded⟩, lrs := ?_, others := ?_ }
  · rintro j (hj | rfl)
    · exact hM j hj
    · exact hn
  · rw [vgicAddSpilled_lr]
    exact h.lrs
  · rw [vgicAddSpilled_lr]
    exact h.others

theorem spillLr (h : Kept E R s) (hspill : vgicSpillLr E s E.current k i = some t) : Kept E R t := by
  cases vgicSpillLr_step hspill with
  | unknown => exact h
  | spilled j found =>
    obtain ⟨hj, -⟩ := vgicGetInt_own found
    exact (h.removeLr.addSpilled hj.wellNumbered hj.belongsTo).yieldOwnership

theorem addLr (h : Kept E R s) (hn : WellNumbered i) (hi : BelongsTo E.current i)
    (hadd : vgicAddLr E s E.current i = some t) : Kept E R t := by
  cases vgicAddLr_step hadd with
  | refused => exact h
  | placed => exact h.vgicWriteLr hn hi
  | evicted k u _ _ _ spill => exact (h.spillLr spill).vgicWriteLr hn hi
  | spilled => exact h.addSpilled hn hi

theorem addLrTarget (h : Kept E R s) (hn : WellNumbered i) (hi : BelongsTo E.current i)
    (hadd : vgicAddLrTarget E s E.current i = some t) : Kept E R t := by
  cases vgicAddLrTarget_step hadd with
  | added _ _ add => exact h.addLr hn hi add
  | elsewhere => exact h

theorem sendMask {mask : BitVec 64} {msg : CpuMsg} (h : Kept E R s)
    (hsend : vgicSendMask E s mask msg = some t) : Kept E R t := by
  obtain ⟨hlinks, -, hgich⟩ := vgicSendMask_same hsend
  apply h.congr hlinks
  unfold VgicState.lr
  rw [hgich]

theorem sendMsg {c : PCpuId} {msg : CpuMsg} (h : Kept E R s)
    (hsend : vgicSendMsg E s c msg = some t) : Kept E R t := by
  obtain ⟨hlinks, -, hgich⟩ := vgicSendMsg_same hsend
  apply h.congr hlinks
  unfold VgicState.lr
  rw [hgich]

end Kept

/-! ### Register writes and injection -/

/-- A write to an interrupt of another vCPU, which this one owns, does not end in `vgic_add_lr`. -/
def ForeignClean (E : VgicEnv) (s : VgicState) (handlers : RegHandlerInfo) (i : IntRef)
    (data : BitVec 64) : Prop :=
  ¬ Own E i → ∀ fields, handlers.fields = some fields → (vgicGetOwnership s E.current i).1 = true →
    ¬ Routed E i (fields.updateField E E.current i data
      ((vgicRemoveLr E (vgicGetOwnership s E.current i).2 E.current i).2.ints i)).2

namespace Kept

theorem route (h : Kept E R s) (hown : Routed E i (s.ints i) → Own E i)
    (hroute : vgicRoute E s E.current i = some t) : Kept E R t := by
  cases vgicRoute_step hroute with
  | idle => exact h
  | routed u _ state enabled place others =>
    have hplaced : Kept E R u := by
      cases vgicAddLrTarget_step place with
      | added _ target add =>
        have hi := hown ⟨state, enabled, target⟩
        exact h.addLr hi.wellNumbered hi.belongsTo add
      | elsewhere => exact h
    cases vgicRouteOthers_step others with
    | kept => exact hplaced
    | sent _ send => exact hplaced.yieldOwnership.sendMask send

theorem setField {handlers : RegHandlerInfo} {data : BitVec 64} (h : Kept E R s)
    (hforeign : ForeignClean E s handlers i data)
    (hset : vgicIntSetField E s handlers E.current i data = some t) : Kept E R t := by
  cases vgicIntSetField_step hset with
  | delegated _ _ _ _ send => exact h.sendMsg send
  | owned fields t granted fields_eq set =>
    obtain ⟨w, hroute, rfl⟩ := vgicIntSetFieldOwned_route fields_eq set
    have hnot (hi : ¬ Own E i) := hforeign hi fields fields_eq granted
    have hremoved := (h.getOwnership (i := i)).removeLr (i := i)
    generalize (vgicRemoveLr E (vgicGetOwnership s E.current i).2 E.current i).2 = u at *
    obtain ⟨hlinks, hlr, hint⟩ := updateInt_same E u fields i data
    apply yieldOwnership
    apply (hremoved.congr hlinks hlr).route ?_ hroute
    intro hrouted
    rw [hint] at hrouted
    by_contra hi
    exact hnot hi hrouted

theorem injectHw {id : Nat} (h : Kept E R s)
    (hinject : vgicInjectHw E s E.current id = some t) : Kept E R t := by
  obtain ⟨i, hget, hadd⟩ := Option.bind_eq_some_iff.mp hinject
  obtain ⟨hi, -⟩ := vgicGetInt_own hget
  exact h.modifyInt.addLr hi.wellNumbered hi.belongsTo hadd

theorem injectSgi {source : Nat} (h : Kept E R s) (hi : Own E i)
    (hinject : vgicInjectSgi E s E.current i source = some t) : Kept E R t := by
  have hremoved := h.removeLr (i := i)
  cases vgicInjectSgi_step hinject with
  | known => exact hremoved
  | added _ _ add => exact hremoved.modifyInt.addLr hi.wellNumbered hi.belongsTo add

theorem inject {id source : Nat} (h : Kept E R s)
    (hinject : vgicInject E s E.current id source = some t) : Kept E R t := by
  cases vgicInject_step hinject with
  | unknown => exact h
  | hw _ _ _ _ inject => exact h.injectHw inject
  | sgi i _ found _ _ inject => exact h.injectSgi (vgicGetInt_own found).1 inject
  | set i _ found _ _ set =>
    exact h.setField (fun hforeign => absurd (vgicGetInt_own found).1 hforeign) set

/-! ### Maintenance -/

/-- `vgic_highest_prio_spilled` finds an interrupt of the vCPU or its VM. -/
theorem highest (h : Kept E R s) {flags : IntState}
    (hhighest : vgicHighestPrioSpilled E s E.current flags = some (some i)) :
    (WellNumbered i ∧ BelongsTo E.current i) ∧ Kept E R { s with links := listDel s.links (.node i) } := by
  obtain ⟨M, hM, hapart⟩ := h.apart
  obtain ⟨l, hentries, hfold⟩ := Option.map_eq_some_iff.mp hhighest
  have hmem : i ∈ l := (foldl_higherPrio hfold).resolve_right (by simp)
  unfold spilledEntries at hentries
  simp only [Option.bind_eq_bind] at hentries
  obtain ⟨own, hown, hentries⟩ := Option.bind_eq_some_iff.mp hentries
  obtain ⟨shared, hshared, hentries⟩ := Option.bind_eq_some_iff.mp hentries
  cases hentries
  have hlinked : (intHome i = .vcpu E.current ∨ intHome i = .vm E.current.vm) ∧ M i := by
    rcases List.mem_append.mp hmem with hmem | hmem
    · have hi := hapart.listEntries (hapart _ (.head (.vcpu E.current)) rfl).1 hown i hmem
      exact ⟨.inl hi.1, hi.2⟩
    · have hi := hapart.listEntries (hapart _ (.head (.vm E.current.vm)) rfl).1 hshared i hmem
      exact ⟨.inr hi.1, hi.2⟩
  refine ⟨⟨hM i hlinked.2, belongsTo_of_home hlinked.1⟩, ?_⟩
  exact { h with apart := ⟨M, hM, hapart.listDel hlinked.2⟩ }

theorem refillLoop {fuel : Nat} {flags : IntState} (h : Kept E R s)
    (hrefill : refillLoop E E.current fuel s flags = some t) : Kept E R t := by
  refine refillLoop_invariant (P := Kept E R) ?_ (fun _ hs => hs.setHcr) h hrefill
  intro s irq k flags hs _ hhighest _
  obtain ⟨⟨hn, hi⟩, hunlinked⟩ := hs.highest hhighest
  obtain ⟨hlinks, hlr⟩ := vgicGetOwnership_same s E.current irq
  unfold vgicUnspill
  apply Kept.vgicWriteLr ?_ hn hi
  exact hunlinked.congr (by rw [hlinks]) hlr

theorem eoirHighestSpilledActive (h : Kept E R s)
    (heoir : vgicEoirHighestSpilledActive E s E.current = some t) : Kept E R t := by
  cases vgicEoirHighestSpilledActive_step heoir with
  | kept => exact h
  | hw i u highest _ ended =>
    subst ended
    exact (h.getOwnership (i := i)).congr rfl rfl
  | added i u _ highest _ ended _ _ add =>
    subst ended
    obtain ⟨⟨hn, hi⟩, -⟩ := h.highest highest
    exact h.getOwnership.modifyInt.addLr hn hi add
  | inactive i u highest _ ended =>
    subst ended
    exact h.getOwnership.modifyInt

theorem eoiCountLoop {fuel : Nat} (h : Kept E R s) (hloop : eoiCountLoop E fuel s = some t) :
    Kept E R t := by
  obtain ⟨-, ht⟩ := eoiCountLoop_invariant (P := fun _ => Kept E R)
    (fun _ _ _ hs _ heoir => (hs.eoirHighestSpilledActive heoir).setHcr) h hloop
  exact ht

theorem trappedEoi (h : Kept E R s) (hi : Own E i) (heoi : vgicTrappedEoi E s E.current i = some t) :
    Kept E R t := by
  cases vgicTrappedEoi_step heoi with
  | sgi _ _ add => exact h.modifyInt.addLr hi.wellNumbered hi.belongsTo add
  | yielded => exact h.modifyInt.yieldOwnership

theorem trappedEoirLoop {fuel : Nat} {lrInd : Option Nat} (h : Kept E R s)
    (hloop : trappedEoirLoop E E.current fuel s lrInd = some t) : Kept E R t := by
  obtain ⟨-, ht⟩ := trappedEoirLoop_invariant (P := fun _ s _ => Kept E R s)
    (fun _ _ _ hs _ => hs.zeroLr)
    (fun _ _ _ _ _ hs hget heoi => hs.zeroLr.trappedEoi (vgicGetInt_own hget).1 heoi) h hloop
  exact ht

theorem maintenance (h : Kept E R s) (hhandler : gicMaintenanceHandler E s = some t) :
    Kept E R t := by
  refine gicMaintenanceHandler_invariant (P := Kept E R) ?_ ?_ ?_ h hhandler
  · exact fun _ _ hu => h.trappedEoirLoop hu
  · exact fun _ _ hu hw => hu.refillLoop hw
  · exact fun _ _ _ _ _ hw _ ht => hw.eoiCountLoop ht

/-! ### Messages and the guest -/

theorem ipiRoute (h : Kept E R s) (hi : Own E i) (hroute : vgicIpiRoute E s i = some t) :
    Kept E R t := by
  cases vgicIpiRoute_step hroute with
  | routed _ _ place =>
    exact (h.getOwnership.addLrTarget hi.wellNumbered hi.belongsTo place).yieldOwnership
  | refused => exact h

theorem ipiHandler {event : BitVec 32} {data : BitVec 64} (h : Kept E R s)
    (hforeign : ∀ handlers j val, setRegOfMsg E data = some (handlers, j, val) →
      ForeignClean E s handlers j val)
    (hhandler : vgicIpiHandler E s event data = some t) : Kept E R t := by
  cases (vgicIpiHandler_step hhandler).2 with
  | unknown => exact h
  | updateEnable => exact h.setHcr
  | route i _ _ found route => exact h.ipiRoute (vgicGetInt_own found).1 route
  | inject _ _ inject => exact h.inject inject
  | setReg handlers j val _ _ msg set => exact h.setField (hforeign handlers j val msg) set

theorem writeCtlr {val : BitVec 64} (h : Kept E R s) (hwrite : vgicdWriteCtlr E s val = some t) :
    Kept E R t := by
  cases vgicdWriteCtlr_step hwrite with
  | same => exact h.congr rfl rfl
  | changed _ send =>
    refine Kept.sendMsg ?_ send
    exact h.congr rfl VgicState.setHcr_lr

theorem writeSgir {val : BitVec 64} (h : Kept E R s) (hwrite : vgicdWriteSgir E s val = some t) :
    Kept E R t := by
  obtain rfl | ⟨mask, -, hsend⟩ := vgicdWriteSgir_step hwrite
  · exact h
  · exact h.sendMask hsend

theorem guest {g : GuestAction} (h : Kept E R s) (hguest : guestEffect E.cfg s E.self g = some t) :
    Kept E R t := by
  cases guestEffect_step hguest with
  | lr n state _ used => exact h.writeLr fun hn _ => h.lrs n hn used
  | counted => exact h.setHcr

/-- A call on the pCPU that runs the vCPU. -/
theorem effect {call : VgicCall} (h : Kept E R s)
    (hwrite : ∀ id i data, call = .setField id i data →
      ForeignClean E s (regHandlerInfoTable E.cfg.version id) i data)
    (hmessage : call = .message → ∀ msg msgs handlers i val, cpuGetMsg s.msgs E.self = some (msg, msgs) →
      setRegOfMsg E msg.data = some (handlers, i, val) →
        ForeignClean E { s with msgs := msgs } handlers i val)
    (heffect : vgicEffect E s call = some t) : Kept E R t := by
  cases call with
  | setField id i data => exact h.setField (hwrite id i data rfl) heffect
  | writeCtlr val => exact h.writeCtlr heffect
  | writeSgir val => exact h.writeSgir heffect
  | writeSgi1r sgir => exact h.sendMask heffect
  | injectHw id => exact h.injectHw heffect
  | inject id source => exact h.inject heffect
  | maintenance => exact h.maintenance heffect
  | guest g => exact h.guest heffect
  | message =>
    have htaken (msgs) : Kept E R { s with msgs := msgs } := h.congr rfl rfl
    cases cpuMsgRound_step heffect with
    | none => exact h
    | other _ msgs => exact htaken msgs
    | vgic msg msgs _ get _ handle =>
      exact (htaken msgs).ipiHandler (fun handlers j val => hmessage rfl msg msgs handlers j val get) handle

end Kept

/-! ### Runs of the hypervisor -/

/-- Wherever a vCPU is in its guest, the list registers of its pCPU that are in use hold its private
interrupts and the shared ones of its VM. -/
def PresentsOwn (cfg : HvConfig) (x : HvState) : Prop :=
  ∀ c vcpu, (x.sched.cpus c).pc = .guest → (x.sched.cpus c).vcpu = some vcpu →
    ∀ k < cfg.vgic.numLrs, (x.vgic.lr c k).state ≠ .inv →
      ∃ i, (x.vgic.lr c k).holds = some i ∧ BelongsTo vcpu i

/-- A pCPU that goes on with another vCPU has no list register in use, but those with shared interrupts
where both vCPUs are of one VM; and a write to a private interrupt of another vCPU does not end in a list
register of this one. -/
def Switchable (cfg : HvConfig) (x : HvState) : HvAction → Prop
  | .sched a => ∀ t, (schedMachine cfg.sched).step x.sched a = some t → ∀ c v w,
      (x.sched.cpus c).vcpu = some v → (t.cpus c).vcpu = some w → w ≠ v →
        ∀ k < cfg.vgic.numLrs, (x.vgic.lr c k).state ≠ .inv →
          w.vm = v.vm ∧ gicIsPriv (x.vgic.lr c k).vid = false
  | .vgic c call => ∀ v, (x.sched.cpus c).vcpu = some v →
      (∀ id i data, call = .setField id i data →
        ForeignClean (x.env cfg c v) x.vgic (regHandlerInfoTable cfg.vgic.version id) i data) ∧
      (call = .message → ∀ msg msgs handlers i val, cpuGetMsg x.vgic.msgs c = some (msg, msgs) →
        setRegOfMsg (x.env cfg c v) msg.data = some (handlers, i, val) →
          ForeignClean (x.env cfg c v) { x.vgic with msgs := msgs } handlers i val)

/-- What holds in every state of a run. -/
structure Presenting (cfg : HvConfig) (x : HvState) : Prop where
  apart : ∃ M, (∀ i, M i → WellNumbered i) ∧ KeepApart intHome M x.vgic.links
  lrs : ∀ c, ∀ k < cfg.vgic.numLrs, (x.vgic.lr c k).state ≠ .inv →
    ∃ v, (x.sched.cpus c).vcpu = some v ∧ HoldsFor v (x.vgic.lr c k)

variable {cfg : HvConfig} {x y : HvState}

theorem Presenting.presentsOwn (h : Presenting cfg x) : PresentsOwn cfg x := by
  intro c vcpu _ hvcpu k hk hne
  obtain ⟨v, hv, i, hholds, -, -, hi⟩ := h.lrs c k hk hne
  obtain rfl : vcpu = v := Option.some.inj (hvcpu.symm.trans hv)
  exact ⟨i, hholds, hi⟩

theorem presenting_init (h : (hvMachine cfg).Init x) : Presenting cfg x where
  apart := by
    refine ⟨fun _ => False, fun _ hfalse => hfalse.elim, ?_⟩
    intro hd ptr hptr
    cases ptr with
    | head hd' =>
      obtain rfl : hd' = hd := hptr
      obtain ⟨hnext, hprev⟩ := h.2.heads hd'
      rw [hnext, hprev]
      exact ⟨.inl rfl, .inl rfl⟩
    | node i => exact hptr.2.elim
    | poison1 => exact hptr.elim
    | poison2 => exact hptr.elim
  lrs c k _ hne := absurd (congrArg ListReg.state (h.2.lr c k)) hne

/-- The scheduler takes no pCPU its vCPU without giving it another one. -/
theorem SchedStep.vcpu {cfg : SchedConfig} {s t : SchedState} {a : Action} {c : PCpuId}
    {v : VcpuRef} (h : SchedStep cfg s a t) (hv : (s.cpus c).vcpu = some v) :
    ∃ w, (t.cpus c).vcpu = some w := by
  obtain ⟨p, hp, hcpus⟩ := h.cpus
  by_cases hc : c = a.cpu
  · subst hc
    rw [hcpus, update_self]
    cases hp with
    | run r u n w => exact ⟨_, rfl⟩
    | _ => exact ⟨v, hv⟩
  · rw [hcpus, update_of_ne hc]
    exact ⟨v, hv⟩

/-- A list register with a shared interrupt is as good for another vCPU of the VM. -/
theorem HoldsFor.shared {v w : VcpuRef} {lr : ListReg} (h : HoldsFor v lr) (hvm : w.vm = v.vm)
    (hshared : gicIsPriv lr.vid = false) : HoldsFor w lr := by
  obtain ⟨i, hholds, hvid, hn, hi⟩ := h
  refine ⟨i, hholds, hvid, hn, ?_⟩
  cases i with
  | priv vcpu id =>
    have hpriv : id < gicCpuPriv := hn
    rw [hvid] at hshared
    exact absurd hpriv (of_decide_eq_false hshared)
  | shared vm id => exact hi.trans hvm.symm

theorem Presenting.step {a : HvAction} (h : Presenting cfg x) (hclean : Switchable cfg x a)
    (hstep : (hvMachine cfg).step x a = some y) : Presenting cfg y := by
  cases step_hvStep hstep with
  | sched a t hsched taken =>
    refine ⟨h.apart, fun c k hk hne => ?_⟩
    obtain ⟨v, hv, hholds⟩ := h.lrs c k hk hne
    obtain ⟨w, hw⟩ := hsched.vcpu hv
    refine ⟨w, hw, ?_⟩
    by_cases hwv : w = v
    · exact hwv ▸ hholds
    · obtain ⟨hvm, hshared⟩ := hclean t taken c v w hv hw hwv k hk hne
      exact hholds.shared hvm hshared
  | vgic c call vcpu t cpu pc hvcpu enabled heffect =>
    obtain ⟨hwrite, hmessage⟩ := hclean vcpu hvcpu
    have hkept : Kept (x.env cfg c vcpu) x.vgic.lr x.vgic := by
      refine ⟨h.apart, fun k hk hne => ?_, fun _ _ => rfl⟩
      obtain ⟨v, hv, hholds⟩ := h.lrs c k hk hne
      obtain rfl : vcpu = v := Option.some.inj (hvcpu.symm.trans hv)
      exact hholds
    have hafter := hkept.effect hwrite hmessage heffect
    refine ⟨hafter.apart, fun d k hk hne => ?_⟩
    by_cases hd : d = c
    · subst hd
      exact ⟨vcpu, hvcpu, hafter.lrs k hk hne⟩
    · have hsame : t.lr d = x.vgic.lr d := hafter.others d hd
      simp only [hsame] at hne ⊢
      exact h.lrs d k hk hne
  | halt c call vcpu cpu pc hvcpu heffect =>
    refine ⟨h.apart, fun d k hk hne => ?_⟩
    obtain ⟨v, hv, hholds⟩ := h.lrs d k hk hne
    refine ⟨v, ?_, hholds⟩
    change ((update x.sched.cpus c { x.sched.cpus c with pc := .halted }) d).vcpu = some v
    by_cases hd : d = c
    · subst hd
      rw [update_self]
      exact hv
    · rw [update_of_ne hd]
      exact hv

/-- vCPU 0 of VM 1 sends itself SGI 1, and before its guest takes it the pCPU goes on with VM 0. -/
def sendAndChange : List HvAction := startFirst ++ [.vgic 0 (.writeSgir 0x02000001)] ++
  [.vgic 0 .message] ++ changeVm

private theorem listRegNum_pos : 0 < 4 := Nat.succ_pos 3

/-- The state behind it. -/
def sentAndChanged : HvState :=
  ((hvMachine (twoVms .v2 4 listRegNum_pos)).run (twoVmsBoot .v2) sendAndChange).getD (twoVmsBoot .v2)

end Avisor
