import Avisor.Vgic.Refilling
import Avisor.Vgic.SpillOrder

/-!
# Interrupts that are linked once

`list_add_tail` does not look whether the interrupt that `vgic_add_lr` or `vgic_spill_lr` puts on a list is on
it already. As long as no call links one that is, the lists of all vCPUs and VMs stay lists, whichever vCPUs the
pCPUs run, and how the loop of `vgic_refill_lrs` goes is told by the owners of the interrupts on them.
-/

namespace Avisor

open Function CircularList

/-- The interrupt is one for the list at this head. -/
def GoesTo (cfg : VgicConfig) (h : SpilledHead) : IntRef → Prop
  | .priv vcpu id => h = .vcpu vcpu ∧ id < gicCpuPriv
  | .shared vm id => h = .vm vm ∧ gicCpuPriv ≤ id ∧ id < cfg.intNum vm

/-- All lists of spilled interrupts are the circular lists `q`, and each interrupt is on that of its vCPU or
VM. -/
structure LinkedOnce (cfg : VgicConfig) (q : SpilledHead → List IntRef) (s : VgicState) : Prop where
  lists : ∀ h, Holds s.links h (q h)
  member : ∀ h, ∀ i ∈ q h, GoesTo cfg h i

/-- All lists of spilled interrupts are circular lists. -/
def Orderly (cfg : VgicConfig) (s : VgicState) : Prop := ∃ q, LinkedOnce cfg q s

/-! ### What a call may link -/

section

variable (E : VgicEnv) (s : VgicState)

/-- The interrupt that `vgic_add_lr` for `i` puts on a list, `i` itself or one that has to leave its list
register. -/
def linkedByAdd (i : IntRef) : Option IntRef :=
  match addLrOutcome E s i with
  | .refused | .placed _ => none
  | .evicted n => vgicGetInt E E.current (s.lr E.self n).vid E.current.idx
  | .spilled => some i

/-- `vgic_add_lr` for `i` links no interrupt that is linked. -/
def AddUnlinked (i : IntRef) : Prop := ∀ j, linkedByAdd E s i = some j → ¬ Spilled E s j

/-- The same of `vgic_route`, which comes to `vgic_add_lr` for interrupts of the vCPU only. -/
def RouteUnlinked (i : IntRef) : Prop := Routed E i (s.ints i) → Own E i ∧ AddUnlinked E s i

/-- The same of `vgic_int_set_field`. -/
def SetFieldUnlinked (handlers : RegHandlerInfo) (i : IntRef) (data : BitVec 64) : Prop :=
  ∀ fields, handlers.fields = some fields → (vgicGetOwnership s E.current i).1 = true →
    RouteUnlinked E
      (updateInt E (vgicRemoveLr E (vgicGetOwnership s E.current i).2 E.current i).2 fields E.current i data) i

/-- The same of `vgic_inject_hw`. -/
def InjectHwUnlinked (i : IntRef) : Prop :=
  AddUnlinked E (s.modifyInt i fun int =>
    { int with owner := some E.current, state := .pending, inLr := false }) i

/-- The same of `vgic_inject_sgi`. -/
def InjectSgiUnlinked (i : IntRef) (source : Nat) : Prop :=
  let s := (vgicRemoveLr E s E.current i).2
  let sgiPend := withSource (s.ints i).sgiPend source
  sgiPend ≠ (s.ints i).sgiPend →
    AddUnlinked E (s.modifyInt i fun int =>
      { int with sgiPend := sgiPend, state := { int.state with pend := sgiPend ≠ 0 } }) i

/-- The same of `vgic_inject`. -/
def InjectUnlinked (id source : Nat) : Prop :=
  ∀ i, vgicGetInt E E.current id E.current.idx = some i →
    if vgicIntIsHw s i then InjectHwUnlinked E s i
    else if hasSources E i then InjectSgiUnlinked E s i source
    else SetFieldUnlinked E s ispendrInfo i 1

/-- The same of the rounds of the loop of `vgic_handle_trapped_eoir`. -/
def TrappedUnlinked : Nat → VgicState → Option Nat → Prop
  | _, _, none => True
  | 0, _, some _ => True
  | fuel + 1, s, some lrInd =>
    let u := s.writeLr E.self lrInd .zero
    match vgicGetInt E E.current (s.lr E.self lrInd).vid E.current.idx with
    | none => TrappedUnlinked fuel u (some lrInd)
    | some i =>
      (gicIsSgi i.id = true → AddUnlinked E (u.modifyInt i fun int => { int with inLr := false }) i) ∧
        ∀ t, vgicTrappedEoi E u E.current i = some t → TrappedUnlinked fuel t (findLr E t ListReg.eisr)

/-- The same of `vgic_eoir_highest_spilled_active`. -/
def EoirUnlinked : Prop :=
  ∀ i, vgicHighestPrioSpilled E s E.current .active = some (some i) →
    let u := (vgicGetOwnership s E.current i).2.modifyInt i fun int =>
      { int with state := { int.state with act := false } }
    (vgicGetOwnership s E.current i).1 = true → vgicIntIsHw u i = false → (u.ints i).state.pend = true →
      AddUnlinked E u i

/-- The same of the rounds of the loop over `EOICount`. -/
def EoiCountUnlinked : Nat → VgicState → Prop
  | 0, _ => True
  | fuel + 1, s =>
    (s.hcr E.self).eoiCount ≠ 0 → EoirUnlinked E s ∧
      ∀ t, vgicEoirHighestSpilledActive E s E.current = some t →
        EoiCountUnlinked fuel
          (t.setHcr E.self { s.hcr E.self with eoiCount := (s.hcr E.self).eoiCount - 1 })

/-- The same of `gic_maintenance_handler`. -/
def MaintenanceUnlinked : Prop :=
  ((gichGetMisr E s).eoi = true →
    TrappedUnlinked E (E.cfg.numLrs + 1) s (findLr E s ListReg.eisr)) ∧
  ∀ u w,
    (if (gichGetMisr E s).eoi then vgicHandleTrappedEoir E s E.current else some s) = some u →
    (if (gichGetMisr E s).np || (gichGetMisr E s).u
      then vgicRefillLrs E u E.current (gichGetMisr E s).np else some u) = some w →
    (gichGetMisr E s).lrenp = true → EoiCountUnlinked E 32 w

/-- The same of `vgic_ipi_handler`. -/
def IpiUnlinked (event : BitVec 32) (data : BitVec 64) : Prop :=
  match VgicEvent.ofBits? event with
  | some .route =>
    ∀ i, vgicGetInt E E.current (vgicMsgIntid data).toNat E.current.idx = some i →
      (vgicGetOwnership s E.current i).1 = true →
        vgicIntVcpuIsTarget E E.current i ((vgicGetOwnership s E.current i).2.ints i) = true →
          AddUnlinked E (vgicGetOwnership s E.current i).2 i
  | some .inject => InjectUnlinked E s (vgicMsgIntid data).toNat (vgicMsgVal data).toNat
  | some .setReg =>
    ∀ handlers i val, setRegOfMsg E data = some (handlers, i, val) → SetFieldUnlinked E s handlers i val
  | _ => True

/-- A call links no interrupt that is linked. -/
def CallUnlinked : VgicCall → Prop
  | .setField id i data => SetFieldUnlinked E s (regHandlerInfoTable E.cfg.version id) i data
  | .injectHw id => ∀ i, vgicGetInt E E.current id E.current.idx = some i → InjectHwUnlinked E s i
  | .inject id source => InjectUnlinked E s id source
  | .maintenance => MaintenanceUnlinked E s
  | .message => ∀ msg msgs, cpuGetMsg s.msgs E.self = some (msg, msgs) →
      IpiUnlinked E { s with msgs := msgs } msg.event msg.data
  | _ => True

end

variable {E : VgicEnv} {s t u : VgicState} {i j : IntRef} {k : Nat} {q : SpilledHead → List IntRef}

/-! ### The lists of the vCPU -/

theorem GoesTo.own {h : SpilledHead} (hi : GoesTo E.cfg h i) (hown : OwnHead E h) :
    Own E i ∧ spilledHead E.current i = h := by
  have hbelongs : intHome i = h ∧ WellNumbered i := by
    cases i with
    | priv vcpu id => exact ⟨hi.1.symm, hi.2⟩
    | shared vm id => exact ⟨hi.1.symm, hi.2.1⟩
  have hhome : intHome i = .vcpu E.current ∨ intHome i = .vm E.current.vm := by
    rw [hbelongs.1]
    exact hown
  have hto := belongsTo_of_home hhome
  refine ⟨?_, (spilledHead_eq hbelongs.2 hto).trans hbelongs.1⟩
  cases i with
  | priv vcpu id => exact ⟨hto, hi.2⟩
  | shared vm id => exact ⟨hto, hi.2⟩

theorem Own.goesTo (hi : Own E i) : GoesTo E.cfg (spilledHead E.current i) i := by
  rw [spilledHead_eq hi.wellNumbered hi.belongsTo]
  cases i with
  | priv vcpu id => exact ⟨rfl, hi.2⟩
  | shared vm id =>
    obtain ⟨rfl, hrange⟩ := hi
    exact ⟨rfl, hrange⟩

theorem LinkedOnce.spillLists (h : LinkedOnce E.cfg q s) : SpillLists E q s where
  lists hd _ := h.lists hd
  member hd hhd i hi := (h.member hd i hi).own hhd

theorem GoesTo.unique {cfg : VgicConfig} {h h' : SpilledHead} (hi : GoesTo cfg h i) (hi' : GoesTo cfg h' i) :
    h = h' := by
  cases i with
  | priv vcpu id => exact hi.1.trans hi'.1.symm
  | shared vm id => exact hi.1.trans hi'.1.symm

/-! ### The calls keep the lists -/

theorem spilled_congr (hlinks : t.links = s.links) : Spilled E t i ↔ Spilled E s i := by
  unfold Spilled spilledEntries
  rw [hlinks]

namespace Orderly

/-- Only the links matter. -/
theorem congr {cfg : VgicConfig} (h : Orderly cfg s) (hlinks : t.links = s.links) : Orderly cfg t := by
  obtain ⟨q, hq⟩ := h
  exact ⟨q, hlinks ▸ hq.lists, hq.member⟩

theorem modifyInt {cfg : VgicConfig} {f : VgicInt → VgicInt} (h : Orderly cfg s) :
    Orderly cfg (s.modifyInt i f) :=
  h.congr rfl

theorem setHcr {hcr : GichHcr} (h : Orderly E.cfg s) : Orderly E.cfg (s.setHcr E.self hcr) :=
  h.congr rfl

theorem writeLr {lr : ListReg} (h : Orderly E.cfg s) : Orderly E.cfg (s.writeLr E.self k lr) :=
  h.congr rfl

theorem addSpilled (h : Orderly E.cfg s) (hi : Own E i) (hn : ¬ Spilled E s i) :
    Orderly E.cfg (vgicAddSpilled E s E.current i) := by
  obtain ⟨q, hq⟩ := h
  rw [hq.spillLists.spilled_iff] at hn
  refine ⟨update q (spilledHead E.current i) (q (spilledHead E.current i) ++ [i]), fun hd => ?_, ?_⟩
  · show Holds (listAddTail s.links (.node i) (.head (spilledHead E.current i))) hd _
    by_cases heq : hd = spilledHead E.current i
    · subst heq
      rw [update_self]
      exact (hq.lists _).listAddTail hn
    · rw [update_of_ne heq]
      apply (hq.lists hd).listAddTail_other (hq.lists _) heq
      · exact fun hmem => heq ((hq.member hd i hmem).unique hi.goesTo)
      · exact fun j hj hj' => heq ((hq.member hd j hj).unique (hq.member _ j hj'))
  · intro hd j hj
    by_cases heq : hd = spilledHead E.current i
    · subst heq
      rw [update_self, List.mem_append, List.mem_singleton] at hj
      rcases hj with hj | rfl
      · exact hq.member _ j hj
      · exact hi.goesTo
    · rw [update_of_ne heq] at hj
      exact hq.member hd j hj

theorem addLr (h : Orderly E.cfg s) (hi : Own E i) (hadds : AddUnlinked E s i)
    (hadd : vgicAddLr E s E.current i = some t) : Orderly E.cfg t := by
  unfold AddUnlinked linkedByAdd at hadds
  rw [vgicAddLr_eq] at hadd
  cases houtcome : addLrOutcome E s i with
  | refused =>
    rw [houtcome] at hadd
    cases hadd
    exact h
  | placed n =>
    rw [houtcome] at hadd
    cases hadd
    exact h.congr vgicWriteLr_links
  | evicted n =>
    simp only [houtcome] at hadd hadds
    obtain ⟨u, hspill, rfl⟩ := Option.map_eq_some_iff.mp hadd
    apply congr ?_ vgicWriteLr_links
    cases vgicSpillLr_step hspill with
    | unknown => exact h
    | spilled j found =>
      apply congr ?_ vgicYieldOwnership_links
      apply (h.congr vgicRemoveLr_links).addSpilled (vgicGetInt_own found).1
      rw [spilled_congr vgicRemoveLr_links]
      exact hadds j found
  | spilled =>
    simp only [houtcome] at hadd hadds
    cases hadd
    exact h.addSpilled hi (hadds i rfl)

theorem route (h : Orderly E.cfg s) (hadds : RouteUnlinked E s i)
    (hroute : vgicRoute E s E.current i = some t) : Orderly E.cfg t := by
  cases vgicRoute_step hroute with
  | idle => exact h
  | routed u _ state enabled place others =>
    have hplaced : Orderly E.cfg u := by
      cases vgicAddLrTarget_step place with
      | added _ target add =>
        obtain ⟨hi, hlinked⟩ := hadds ⟨state, enabled, target⟩
        exact h.addLr hi hlinked add
      | elsewhere => exact h
    cases vgicRouteOthers_step others with
    | kept => exact hplaced
    | sent _ send => exact (hplaced.congr vgicYieldOwnership_links).congr (vgicSendMask_same send).1

theorem setField {handlers : RegHandlerInfo} {data : BitVec 64} (h : Orderly E.cfg s)
    (hadds : SetFieldUnlinked E s handlers i data)
    (hset : vgicIntSetField E s handlers E.current i data = some t) : Orderly E.cfg t := by
  cases vgicIntSetField_step hset with
  | delegated _ _ _ _ send => exact h.congr (vgicSendMsg_same send).1
  | owned fields _ granted fields_eq set =>
    obtain ⟨w, hroute, rfl⟩ := vgicIntSetFieldOwned_route fields_eq set
    have howned : Orderly E.cfg (vgicGetOwnership s E.current i).2 :=
      h.congr (vgicGetOwnership_same s E.current i).1
    apply congr ?_ vgicYieldOwnership_links
    apply route ?_ (hadds fields fields_eq granted) hroute
    exact (howned.congr vgicRemoveLr_links).congr (updateInt_same E _ fields i data).1

theorem injectHw (h : Orderly E.cfg s) (hi : Own E i) (hadds : InjectHwUnlinked E s i)
    (hadd : vgicAddLr E (s.modifyInt i fun int =>
      { int with owner := some E.current, state := .pending, inLr := false }) E.current i = some t) :
    Orderly E.cfg t :=
  h.modifyInt.addLr hi hadds hadd

theorem injectSgi {source : Nat} (h : Orderly E.cfg s) (hi : Own E i)
    (hadds : InjectSgiUnlinked E s i source)
    (hinject : vgicInjectSgi E s E.current i source = some t) : Orderly E.cfg t := by
  have hremoved : Orderly E.cfg (vgicRemoveLr E s E.current i).2 := h.congr vgicRemoveLr_links
  cases vgicInjectSgi_step hinject with
  | known => exact hremoved
  | added _ new add => exact hremoved.modifyInt.addLr hi (hadds new) add

theorem inject {id source : Nat} (h : Orderly E.cfg s) (hadds : InjectUnlinked E s id source)
    (hinject : vgicInject E s E.current id source = some t) : Orderly E.cfg t := by
  unfold InjectUnlinked at hadds
  cases vgicInject_step hinject with
  | unknown => exact h
  | hw i _ found hw inject =>
    have hadds := hadds i found
    rw [if_pos hw] at hadds
    obtain ⟨j, hget, hadd⟩ := Option.bind_eq_some_iff.mp inject
    obtain rfl : i = j := Option.some.inj (found.symm.trans hget)
    exact h.injectHw (vgicGetInt_own found).1 hadds hadd
  | sgi i _ found notHw sources inject =>
    have hadds := hadds i found
    simp only [notHw, sources, if_true, Bool.false_eq_true, if_false] at hadds
    exact h.injectSgi (vgicGetInt_own found).1 hadds inject
  | set i _ found notHw sources set =>
    have hadds := hadds i found
    simp only [notHw, sources, Bool.false_eq_true, if_false] at hadds
    exact h.setField hadds set

/-- `vgic_refill_lrs` takes an interrupt from the list of its vCPU or VM. -/
theorem unlink (h : Orderly E.cfg s) (hi : Spilled E s i) :
    Orderly E.cfg { s with links := listDel s.links (.node i) } := by
  obtain ⟨q, hq⟩ := h
  have hmem : i ∈ q (spilledHead E.current i) := hq.spillLists.spilled_iff.mp hi
  obtain ⟨l₁, l₂, hsplit⟩ := List.append_of_mem hmem
  have hlist := hq.lists (spilledHead E.current i)
  rw [hsplit] at hlist
  refine ⟨update q (spilledHead E.current i) (l₁ ++ l₂), fun hd => ?_, fun hd j hj => ?_⟩
  · by_cases heq : hd = spilledHead E.current i
    · subst heq
      rw [update_self]
      exact hlist.listDel
    · rw [update_of_ne heq]
      apply (hq.lists hd).listDel_other hlist heq
      intro j hj hj'
      rw [← hsplit] at hj'
      exact heq ((hq.member hd j hj).unique (hq.member _ j hj'))
  · by_cases heq : hd = spilledHead E.current i
    · subst heq
      rw [update_self] at hj
      apply hq.member _ j
      rw [hsplit]
      exact List.mem_append.mpr ((List.mem_append.mp hj).imp_right (List.mem_cons_of_mem i))
    · rw [update_of_ne heq] at hj
      exact hq.member hd j hj

end Orderly

/-- `vgic_highest_prio_spilled` finds a linked interrupt. -/
theorem spilled_of_highest {flags : IntState}
    (h : vgicHighestPrioSpilled E s E.current flags = some (some i)) : Spilled E s i := by
  obtain ⟨l, hentries, hfold⟩ := Option.map_eq_some_iff.mp h
  exact ⟨l, hentries, (foldl_higherPrio hfold).resolve_right (by simp)⟩

namespace Orderly

theorem own_of_spilled (h : Orderly E.cfg s) (hi : Spilled E s i) : Own E i := by
  obtain ⟨q, hq⟩ := h
  exact (hq.spillLists.member _ ownHead_spilledHead i (hq.spillLists.spilled_iff.mp hi)).1

theorem refillLoop {fuel : Nat} {flags : IntState} (h : Orderly E.cfg s)
    (hrefill : refillLoop E E.current fuel s flags = some t) : Orderly E.cfg t := by
  refine refillLoop_invariant (P := Orderly E.cfg) ?_ (fun _ hs => hs.setHcr) h hrefill
  intro s irq k flags hs _ hhighest _
  unfold vgicUnspill
  apply congr ?_ vgicWriteLr_links
  apply (hs.unlink (spilled_of_highest hhighest)).congr
  rw [(vgicGetOwnership_same s E.current irq).1]

theorem eoirHighestSpilledActive (h : Orderly E.cfg s) (hadds : EoirUnlinked E s)
    (heoir : vgicEoirHighestSpilledActive E s E.current = some t) : Orderly E.cfg t := by
  have howned (i) : Orderly E.cfg (vgicGetOwnership s E.current i).2 :=
    h.congr (vgicGetOwnership_same s E.current i).1
  cases vgicEoirHighestSpilledActive_step heoir with
  | kept => exact h
  | hw i _ _ _ ended =>
    subst ended
    exact (howned i).congr rfl
  | added i _ _ highest granted ended notHw pend add =>
    subst ended
    have hi := h.own_of_spilled (spilled_of_highest highest)
    exact (howned i).modifyInt.addLr hi (hadds i highest granted notHw pend) add
  | inactive i _ _ _ ended =>
    subst ended
    exact (howned i).modifyInt

theorem eoiCountLoop {fuel : Nat} (h : Orderly E.cfg s) (hadds : EoiCountUnlinked E fuel s)
    (hloop : eoiCountLoop E fuel s = some t) : Orderly E.cfg t := by
  refine (eoiCountLoop_invariant (P := fun n s => Orderly E.cfg s ∧ EoiCountUnlinked E n s) ?_
    ⟨h, hadds⟩ hloop).elim fun _ ht => ht.1
  intro n s t ⟨hs, hadds⟩ hcount heoir
  obtain ⟨hfirst, hrest⟩ := hadds hcount
  exact ⟨(hs.eoirHighestSpilledActive hfirst heoir).setHcr, hrest t heoir⟩

theorem trappedEoi (h : Orderly E.cfg s) (hi : Own E i)
    (hadds : gicIsSgi i.id = true → AddUnlinked E (s.modifyInt i fun int => { int with inLr := false }) i)
    (heoi : vgicTrappedEoi E s E.current i = some t) : Orderly E.cfg t := by
  cases vgicTrappedEoi_step heoi with
  | sgi _ sgi add => exact h.modifyInt.addLr hi (hadds sgi) add
  | yielded => exact h.modifyInt.congr vgicYieldOwnership_links

theorem trappedEoirLoop {fuel : Nat} {lrInd : Option Nat} (h : Orderly E.cfg s)
    (hadds : TrappedUnlinked E fuel s lrInd)
    (hloop : trappedEoirLoop E E.current fuel s lrInd = some t) : Orderly E.cfg t := by
  refine (trappedEoirLoop_invariant
    (P := fun n s lrInd => Orderly E.cfg s ∧ TrappedUnlinked E n s lrInd) ?_ ?_
    ⟨h, hadds⟩ hloop).elim fun _ ht => ht.1
  · intro n s k ⟨hs, hadds⟩ hget
    simp only [TrappedUnlinked, hget] at hadds
    exact ⟨hs.writeLr, hadds⟩
  · intro n s k i t ⟨hs, hadds⟩ hget heoi
    simp only [TrappedUnlinked, hget] at hadds
    obtain ⟨hsgi, hrest⟩ := hadds
    exact ⟨hs.writeLr.trappedEoi (vgicGetInt_own hget).1 hsgi heoi, hrest t heoi⟩

theorem maintenance (h : Orderly E.cfg s) (hadds : MaintenanceUnlinked E s)
    (hhandler : gicMaintenanceHandler E s = some t) : Orderly E.cfg t := by
  obtain ⟨htrapped, hcounted⟩ := hadds
  refine gicMaintenanceHandler_invariant (P := Orderly E.cfg) ?_ ?_ ?_ h hhandler
  · exact fun heoi _ hu => h.trappedEoirLoop (htrapped heoi) hu
  · exact fun _ _ hu hw => hu.refillLoop hw
  · exact fun u w hu hw hlrenp hs _ ht => hs.eoiCountLoop (hcounted u w hu hw hlrenp) ht

theorem ipiRoute (h : Orderly E.cfg s) (hi : Own E i)
    (hadds : (vgicGetOwnership s E.current i).1 = true →
      vgicIntVcpuIsTarget E E.current i ((vgicGetOwnership s E.current i).2.ints i) = true →
        AddUnlinked E (vgicGetOwnership s E.current i).2 i)
    (hroute : vgicIpiRoute E s i = some t) : Orderly E.cfg t := by
  cases vgicIpiRoute_step hroute with
  | refused => exact h
  | routed _ granted place =>
    have howned : Orderly E.cfg (vgicGetOwnership s E.current i).2 :=
      h.congr (vgicGetOwnership_same s E.current i).1
    apply congr ?_ vgicYieldOwnership_links
    cases vgicAddLrTarget_step place with
    | added _ target add => exact howned.addLr hi (hadds granted target) add
    | elsewhere => exact howned

theorem ipiHandler {event : BitVec 32} {data : BitVec 64} (h : Orderly E.cfg s)
    (hadds : IpiUnlinked E s event data)
    (hhandler : vgicIpiHandler E s event data = some t) : Orderly E.cfg t := by
  unfold IpiUnlinked at hadds
  cases (vgicIpiHandler_step hhandler).2 with
  | unknown => exact h
  | updateEnable => exact h.congr rfl
  | route i _ event_eq found route =>
    rw [event_eq] at hadds
    exact h.ipiRoute (vgicGetInt_own found).1 (hadds i found) route
  | inject _ event_eq inject =>
    rw [event_eq] at hadds
    exact h.inject hadds inject
  | setReg handlers i val _ event_eq msg set =>
    rw [event_eq] at hadds
    exact h.setField (hadds handlers i val msg) set

theorem writeCtlr {val : BitVec 64} (h : Orderly E.cfg s) (hwrite : vgicdWriteCtlr E s val = some t) :
    Orderly E.cfg t := by
  cases vgicdWriteCtlr_step hwrite with
  | same => exact h.congr rfl
  | changed _ send => exact h.congr (vgicSendMsg_same send).1

/-- A call on the pCPU that runs the vCPU. -/
theorem effect {call : VgicCall} (h : Orderly E.cfg s) (hadds : CallUnlinked E s call)
    (heffect : vgicEffect E s call = some t) : Orderly E.cfg t := by
  cases call with
  | setField id i data => exact h.setField hadds heffect
  | writeCtlr val => exact h.writeCtlr heffect
  | writeSgir val =>
    obtain rfl | ⟨mask, -, hsend⟩ := vgicdWriteSgir_step heffect
    · exact h
    · exact h.congr (vgicSendMask_same hsend).1
  | writeSgi1r sgir => exact h.congr (vgicSendMask_same heffect).1
  | injectHw id =>
    obtain ⟨i, hget, hadd⟩ := Option.bind_eq_some_iff.mp heffect
    exact h.injectHw (vgicGetInt_own hget).1 (hadds i hget) hadd
  | inject id source => exact h.inject hadds heffect
  | maintenance => exact h.maintenance hadds heffect
  | guest g =>
    cases guestEffect_step heffect with
    | lr => exact h.writeLr
    | counted => exact h.setHcr
  | message =>
    have htaken (msgs) : Orderly E.cfg { s with msgs := msgs } := h.congr rfl
    cases cpuMsgRound_step heffect with
    | none => exact h
    | other _ msgs => exact htaken msgs
    | vgic msg msgs _ get _ handle => exact (htaken msgs).ipiHandler (hadds msg msgs get) handle

end Orderly

/-! ### Runs of the hypervisor -/

/-- `vgic_refill_lrs` may be called in the state `u`: it is the state `s`, or what `vgic_handle_trapped_eoir`
makes of it without linking an interrupt that is linked. -/
def RefillStart (E : VgicEnv) (s u : VgicState) : Prop :=
  u = s ∨ TrappedUnlinked E (E.cfg.numLrs + 1) s (findLr E s ListReg.eisr) ∧
    vgicHandleTrappedEoir E s E.current = some u

/-- Wherever a pCPU runs a vCPU, `P` holds of the calls of `vgic_refill_lrs` it may come to. -/
def AtRefills (cfg : HvConfig) (P : VgicEnv → VgicState → Bool → Prop) (x : HvState) : Prop :=
  ∀ c v, (x.sched.cpus c).vcpu = some v → ∀ u, RefillStart (x.env cfg c v) x.vgic u →
    ∀ npie, P (x.env cfg c v) u npie

/-- No call links an interrupt that is linked. -/
def LinksFresh (cfg : HvConfig) (x : HvState) : HvAction → Prop
  | .sched _ => True
  | .vgic c call => ∀ v, (x.sched.cpus c).vcpu = some v → CallUnlinked (x.env cfg c v) x.vgic call

variable {cfg : HvConfig} {x y : HvState}

theorem Orderly.refillStart (h : Orderly E.cfg s) (hstart : RefillStart E s u) : Orderly E.cfg u := by
  rcases hstart with rfl | ⟨hadds, htrapped⟩
  · exact h
  · exact h.trappedEoirLoop hadds htrapped

theorem orderly_init (h : (hvMachine cfg).Init x) : Orderly cfg.vgic x.vgic :=
  ⟨fun _ => [], fun hd => circle_nil.mpr (h.2.heads hd), fun _ i hi => by cases hi⟩

theorem Orderly.step {a : HvAction} (h : Orderly cfg.vgic x.vgic) (hfresh : LinksFresh cfg x a)
    (hstep : (hvMachine cfg).step x a = some y) : Orderly cfg.vgic y.vgic := by
  cases step_hvStep hstep with
  | sched a t hsched taken => exact h
  | vgic c call vcpu t cpu pc hvcpu enabled heffect =>
    exact Orderly.effect (E := x.env cfg c vcpu) h (hfresh vcpu hvcpu) heffect
  | halt c call vcpu cpu pc hvcpu heffect => exact h

/-- A call before any interrupt is linked. -/
theorem not_spilled_of_boot {E : VgicEnv} {s : VgicState} {i : IntRef}
    (hlinks : s.links = (vgicAtBoot E.cfg.version).links) : ¬ Spilled E s i := by
  intro hspilled
  have horderly : LinkedOnce E.cfg (fun _ => []) s :=
    ⟨fun hd => hlinks ▸ circle_nil.mpr ⟨rfl, rfl⟩, fun _ i hi => by cases hi⟩
  have hmem := horderly.spillLists.spilled_iff.mp hspilled
  cases hmem

/-- vCPU 0 of VM 1 has the shared interrupt 40 active in the only list register, and 39, which comes first,
takes it; 39 is disabled again, and the pCPU goes on with vCPU 1. -/
def spillActive : List HvAction :=
  let write (reg : RegHandlerId) (id : Nat) (data : BitVec 64) : HvAction :=
    .vgic 0 (.setField reg (.shared 1 id) data)
  startFirst ++ [write .itargetsr 40 1, write .isenabler 40 1, write .ispendr 40 1,
    .vgic 0 (.guest (.acknowledge 0)), write .ipriorityr 39 0, write .itargetsr 39 1, write .isenabler 39 1,
    write .ispendr 39 1, write .icenabler 39 1, .sched (.call 0 (.schedStartHandler 1))] ++ changeVm ++ changeVm

/-- The state behind it. -/
def activeSpilled : HvState :=
  ((hvMachine (twoVms .v2 1 Nat.one_pos)).run (twoVmsBoot .v2) spillActive).getD (twoVmsBoot .v2)

end Avisor
