import Avisor.Vgic.Moves

/-!
# When a register write comes back

`vgic_int_set_field` takes the lock of the interrupt, and `vgic_spill_lr` that of the one it spills, so the list
registers must not show an interrupt that is in none. And `cpu_send_msg` stops the pCPU if the pool has no node left
for a message to another target.
-/

namespace Avisor

open Function

variable {E : VgicEnv} {s t : VgicState} {i j : IntRef} {k : Nat}

/-! ### Nodes for messages -/

/-- The number of free nodes in `msg_pool`. -/
def freeNodes (cfg : MsgConfig) (s : MsgState) : Nat :=
  (List.range cfg.poolSize).countP fun n => !bitmapGet s.bitmap n

theorem countP_update {l : List Nat} (hl : l.Nodup) {n : Nat} (hn : n ∈ l) {p q : Nat → Bool} (hp : p n = true)
    (hq : ∀ m, q m = (p m && decide (m ≠ n))) : l.countP q + 1 = l.countP p := by
  induction l with
  | nil => exact absurd hn List.not_mem_nil
  | cons m l ih =>
    obtain ⟨hm, hl⟩ := List.nodup_cons.mp hl
    rw [List.countP_cons, List.countP_cons, hq m]
    by_cases hmn : m = n
    · subst hmn
      have hsame : l.countP q = l.countP p := by
        apply List.countP_congr
        intro x hx
        have hxm : x ≠ m := fun heq => hm (heq ▸ hx)
        simp [hq, hxm]
      simp [hsame, hp]
    · have hrest := ih hl ((List.mem_cons.mp hn).resolve_left (Ne.symm hmn))
      simp only [ne_eq, hmn, not_false_eq_true, decide_true, Bool.and_true]
      omega

theorem cpuSendMsg_freeNodes {cfg : MsgConfig} {s : MsgState} (c : PCpuId) (msg : CpuMsg)
    (h : 0 < freeNodes cfg s) :
    ∃ t, cpuSendMsg cfg s c msg = some t ∧ freeNodes cfg t + 1 = freeNodes cfg s := by
  rcases objpoolAlloc_spec s.bitmap cfg.poolSize_lt with ⟨-, hall⟩ | ⟨n, hn, hlt, hfree⟩
  · obtain ⟨n, hn, hfree⟩ := List.countP_pos_iff.mp h
    rw [hall n (List.mem_range.mp hn)] at hfree
    cases hfree
  · unfold cpuSendMsg
    rw [hn]
    refine ⟨_, rfl, countP_update List.nodup_range (List.mem_range.mpr hlt) (by rw [hfree]; rfl) ?_⟩
    intro m
    rw [bitmapGet_set, Bool.not_or, Bool.and_comm]
    simp [eq_comm]

/-- A mask of pCPUs is sent a message, with a node for each. -/
theorem vgicSendMask_freeNodes {mask : BitVec 64} (msg : CpuMsg)
    (h : (List.range E.cfg.cpuNum).countP mask.getLsbD ≤ freeNodes E.cfg.msg s.msgs) :
    ∃ t, vgicSendMask E s mask msg = some t ∧
      freeNodes E.cfg.msg t.msgs + (List.range E.cfg.cpuNum).countP mask.getLsbD =
        freeNodes E.cfg.msg s.msgs := by
  unfold vgicSendMask
  generalize List.range E.cfg.cpuNum = cpus at h ⊢
  induction cpus generalizing s with
  | nil => exact ⟨s, rfl, rfl⟩
  | cons c cpus ih =>
    rw [List.countP_cons] at h
    rw [List.foldlM_cons, List.countP_cons]
    cases hc : mask.getLsbD c with
    | false =>
      simp only [hc, Bool.false_eq_true, if_false, Nat.add_zero] at h ⊢
      exact ih h
    | true =>
      simp only [hc, if_true] at h ⊢
      obtain ⟨msgs, hsend, hfree⟩ := cpuSendMsg_freeNodes c msg (show 0 < freeNodes E.cfg.msg s.msgs by omega)
      obtain ⟨t, ht, hrest⟩ := ih (s := { s with msgs := msgs, sent := s.sent ++ [(c, msg)] }) (by
        dsimp only
        omega)
      refine ⟨t, ?_, by dsimp only at hrest; omega⟩
      unfold vgicSendMsg
      rw [hsend]
      exact ht

/-- The number of messages that routing an interrupt sends at most. -/
def otherTargets (E : VgicEnv) (s : VgicState) (i : IntRef) : Nat :=
  if gicIsPriv i.id then 0
  else (List.range E.cfg.cpuNum).countP (routeMask E s E.current i).getLsbD

/-! ### Interrupts in list registers -/

/-- The fields of an interrupt say that it is in list register `k`. -/
structure HeldIn (E : VgicEnv) (int : VgicInt) (k : Nat) : Prop where
  inLr : int.inLr = true
  lr : int.lr = k
  owner : int.owner = some E.current

/-- The vCPU is on the pCPU, and an interrupt that a list register shows is in this one. -/
structure LrsHeld (E : VgicEnv) (s : VgicState) : Prop where
  here : E.pId E.current = E.self
  held : ∀ k i, (s.lr E.self k).state ≠ .inv → Own E i → (s.lr E.self k).vid = i.id → HeldIn E (s.ints i) k

theorem Housed.lrsHeld {b : Prop} {X : IntRef → Prop} {q : SpilledHead → List IntRef} (h : Housed E b X q s) :
    LrsHeld E s where
  here := h.here
  held k i hne hi hvid :=
    let hrec := h.held k i hne hi hvid
    ⟨hrec.inLr, hrec.lr, hrec.owner⟩

namespace LrsHeld

theorem congr (h : LrsHeld E s) (hints : t.ints = s.ints) (hlr : t.lr E.self = s.lr E.self) :
    LrsHeld E t where
  here := h.here
  held k i hne hi hvid := by
    rw [hlr] at hne hvid
    rw [hints]
    exact h.held k i hne hi hvid

/-- A store to fields of an interrupt that keeps it where it is, or to one that is in no list register. -/
theorem modifyInt (h : LrsHeld E s) {f : VgicInt → VgicInt}
    (hf : ∀ k, (s.lr E.self k).state ≠ .inv → (s.lr E.self k).vid = i.id → HeldIn E (s.ints i) k →
      HeldIn E (f (s.ints i)) k) : LrsHeld E (s.modifyInt i f) where
  here := h.here
  held k j hne hj hvid := by
    rw [VgicState.modifyInt_lr] at hne hvid
    have hheld := h.held k j hne hj hvid
    rw [VgicState.modifyInt_ints]
    by_cases hji : j = i
    · subst hji
      rw [update_self]
      exact hf k hne hvid hheld
    · rwa [update_of_ne hji]

theorem notHeld (h : LrsHeld E s) (hi : Own E i) (hinLr : (s.ints i).inLr = false) : NotHeld E s i := by
  intro k hvid
  by_contra hne
  have hheld := (h.held k i hne hi hvid).inLr
  rw [hinLr] at hheld
  cases hheld

theorem modifyNotHeld (h : LrsHeld E s) (hnot : NotHeld E s i) (f : VgicInt → VgicInt) :
    LrsHeld E (s.modifyInt i f) :=
  h.modifyInt fun k hne hvid _ => absurd (hnot k hvid) hne

theorem yieldOwnership (h : LrsHeld E s) : LrsHeld E (vgicYieldOwnership E s E.current i) := by
  rcases vgicYieldOwnership_cases E s E.current i with hsame | ⟨⟨-, -, hinLr, -⟩, hyield⟩
  · rw [hsame]
    exact h
  · rw [hyield]
    apply h.modifyInt
    intro k _ _ hheld
    exact absurd (hinLr.symm.trans hheld.inLr) Bool.false_ne_true

theorem getOwnership (h : LrsHeld E s) : LrsHeld E (vgicGetOwnership s E.current i).2 := by
  rcases vgicGetOwnership_cases s E.current i with ⟨-, hsame⟩ | ⟨-, hget⟩
  · rw [hsame]
    exact h
  · rw [hget]
    apply h.modifyInt
    exact fun k _ _ hheld => { hheld with owner := rfl }

/-- `gich_get_lr` finds the list register that shows an interrupt. -/
theorem notHeld_of_gichGetLr (h : LrsHeld E s) (hi : Own E i) (hnone : gichGetLr E s i = none) :
    NotHeld E s i := by
  intro k hvid
  by_contra hne
  obtain ⟨hinLr, hlr, howner⟩ := h.held k i hne hi hvid
  unfold gichGetLr at hnone
  simp [hinLr, howner, hlr, h.here, hvid, hne] at hnone

theorem removeLr (h : LrsHeld E s) (hi : Own E i) (howner : (s.ints i).owner = some E.current) :
    LrsHeld E (vgicRemoveLr E s E.current i).2 := by
  unfold vgicRemoveLr
  split
  · exact h
  · split
    · rename_i hnone
      dsimp only
      exact h.modifyNotHeld (h.notHeld_of_gichGetLr hi hnone) _
    · rename_i lrInd lr hsome
      obtain ⟨rfl, hvid, hne⟩ := gichGetLr_eq_some hsome
      have hlr := (h.held lrInd i hne hi hvid).lr
      constructor
      · exact h.here
      · intro k j hstate hj hvidk
        simp only [VgicState.setHcr_lr, VgicState.modifyInt_lr, VgicState.writeLr_lr, update_self] at hstate hvidk
        by_cases hk : k = lrInd
        · subst hk
          rw [update_self] at hstate
          exact absurd rfl hstate
        · rw [update_of_ne hk] at hstate hvidk
          have hheld := h.held k j hstate hj hvidk
          have hji : j ≠ i := by
            rintro rfl
            exact hk (hheld.lr.symm.trans hlr)
          simpa only [VgicState.setHcr_ints, VgicState.modifyInt_ints, VgicState.writeLr_ints,
            update_of_ne hji] using hheld

theorem releasePrev (h : LrsHeld E s)
    (hk : ∀ j, Own E j → (s.lr E.self k).vid = j.id → (s.lr E.self k).state = .inv) :
    LrsHeld E (vgicReleasePrev E s E.current i k) := by
  rcases vgicReleasePrev_cases E s E.current i k with hsame | ⟨prev, hprev, hrelease⟩
  · rw [hsame]
    exact h
  · rw [hrelease]
    apply LrsHeld.yieldOwnership
    apply h.modifyNotHeld
    intro k' hvid
    by_contra hne
    obtain ⟨hown, -⟩ := vgicGetInt_own hprev.found
    have hheld := h.held k' prev hne hown hvid
    rw [← hheld.lr, hprev.lr] at hne hvid
    exact hne (hk prev hown hvid)

/-- `vgic_write_lr` for an interrupt that is in no list register, over one that shows none. -/
theorem writeLr (h : LrsHeld E s) (hi : Own E i) (howner : (s.ints i).owner = some E.current)
    (hnot : NotHeld E s i)
    (hk : ∀ j, Own E j → (s.lr E.self k).vid = j.id → (s.lr E.self k).state = .inv) :
    LrsHeld E (vgicWriteLr E s E.current i k) := by
  have hprev : LrsHeld E (vgicReleasePrev E s E.current i k) := h.releasePrev hk
  have hlrPrev : (vgicReleasePrev E s E.current i k).lr = s.lr := vgicReleasePrev_lr
  have hint : (vgicReleasePrev E s E.current i k).ints i = s.ints i := vgicReleasePrev_ints rfl
  unfold vgicWriteLr
  generalize vgicReleasePrev E s E.current i k = u at hprev hlrPrev hint
  have hvid := lrOfInt_vid E i (u.ints i) (vgicGetState E u i)
  dsimp only
  generalize lrOfInt E i (u.ints i) (vgicGetState E u i) = p at hvid
  obtain ⟨lr, sgiPend⟩ := p
  constructor
  · exact h.here
  · intro n j hne hj hjvid
    simp only [VgicState.writeLr_lr, update_self] at hne hjvid
    by_cases hnk : n = k
    · subst hnk
      rw [update_self] at hjvid
      obtain rfl := hi.id_inj hj (hvid.symm.trans hjvid)
      simp only [VgicState.writeLr_ints, VgicState.modifyInt_ints, update_self]
      exact ⟨rfl, rfl, (congrArg VgicInt.owner hint).trans howner⟩
    · rw [update_of_ne hnk] at hne hjvid
      change (u.lr E.self n).state ≠ .inv at hne
      change (u.lr E.self n).vid = j.id at hjvid
      have hji : j ≠ i := by
        rintro rfl
        rw [hlrPrev] at hne hjvid
        exact hne (hnot n hjvid)
      simpa only [VgicState.writeLr_ints, VgicState.modifyInt_ints, update_of_ne hji] using
        hprev.held n j hne hj hjvid

/-- `vgic_spill_lr` spills another interrupt than the one whose lock is held. -/
theorem spillLr (h : LrsHeld E s) (hi : Own E i) (hnot : NotHeld E s i) (hne : (s.lr E.self k).state ≠ .inv) :
    ∃ t, vgicSpillLr E s E.current k i = some t ∧ LrsHeld E t ∧ NotHeld E t i ∧ t.ints i = s.ints i ∧
      ∀ j, Own E j → (t.lr E.self k).vid = j.id → (t.lr E.self k).state = .inv := by
  unfold vgicSpillLr
  cases hget : vgicGetInt E E.current (s.lr E.self k).vid E.current.idx with
  | none =>
    refine ⟨s, rfl, h, hnot, rfl, fun j hj hvid => ?_⟩
    rw [hvid, hj.getInt] at hget
    cases hget
  | some j =>
    obtain ⟨hj, hid⟩ := vgicGetInt_own hget
    have hji : j ≠ i := by
      rintro rfl
      exact hne (hnot k hid.symm)
    obtain ⟨hinLr, hlr, howner⟩ := h.held k j hne hj hid.symm
    have hremove := h.removeLr hj howner
    have hints : (vgicRemoveLr E s E.current j).2.ints i = s.ints i := vgicRemoveLr_ints_ne (Ne.symm hji)
    have hlrs : (vgicRemoveLr E s E.current j).2.lr E.self = update (s.lr E.self) k .zero := by
      unfold vgicRemoveLr vgicOwns gichGetLr
      simp [howner, hinLr, hlr, h.here, ← hid, hne]
    dsimp only
    rw [if_neg hji]
    generalize (vgicRemoveLr E s E.current j).2 = u at hremove hints hlrs
    have hspilled : LrsHeld E (vgicAddSpilled E u E.current j) :=
      hremove.congr rfl (congrFun vgicAddSpilled_lr E.self)
    refine ⟨_, rfl, hspilled.yieldOwnership, ?_, ?_, ?_⟩
    · intro n hvid
      rw [vgicYieldOwnership_lr, vgicAddSpilled_lr, hlrs] at hvid ⊢
      by_cases hnk : n = k
      · subst hnk
        rw [update_self]
        rfl
      · rw [update_of_ne hnk] at hvid ⊢
        exact hnot n hvid
    · rw [vgicYieldOwnership_ints_ne (Ne.symm hji)]
      exact hints
    · intro m _ _
      rw [vgicYieldOwnership_lr, vgicAddSpilled_lr, hlrs, update_self]
      rfl

/-- `vgic_add_lr` comes back for an interrupt that is in no list register. -/
theorem addLr (h : LrsHeld E s) (hi : Own E i) (howner : (s.ints i).owner = some E.current)
    (hnot : NotHeld E s i) : ∃ t, vgicAddLr E s E.current i = some t ∧ LrsHeld E t := by
  unfold vgicAddLr
  split
  · exact ⟨s, rfl, h⟩
  · cases hfind : findLr E s ListReg.elrsr with
    | some n =>
      have hfree := (findLr_eq_some hfind).2
      simp only [ListReg.elrsr, Bool.and_eq_true, decide_eq_true_eq] at hfree
      exact ⟨_, rfl, h.writeLr hi howner hnot fun _ _ _ => hfree.1⟩
    | none =>
      cases hsearch : spillSearch E s i with
      | none =>
        refine ⟨_, rfl, h.congr rfl ?_⟩
        rw [vgicAddSpilled_lr]
      | some n =>
        obtain ⟨t, hspill, ht, hnot', hint, hfree⟩ := h.spillLr hi hnot (spillSearch_eq_some hsearch).2
        simp only [hspill]
        exact ⟨_, rfl, ht.writeLr hi (hint ▸ howner) hnot' hfree⟩

end LrsHeld

/-! ### Register writes -/

/-- Moving an interrupt leaves its targets, if it has no sources. -/
theorem IntShift.targets {int int' : VgicInt} (h : IntShift E i int int') (hsgi : gicIsSgi i.id = false) :
    int'.targets = int.targets := by
  cases h with
  | own | disown | release | place | inject | source | deactivate => rfl
  | remove lr =>
    unfold intOfLr hasSources
    rw [hsgi]
    simp

theorem Shifts.targets (h : Shifts E s t) (hsgi : gicIsSgi i.id = false) :
    (t.ints i).targets = (s.ints i).targets :=
  h.invariant (P := fun int => int.targets = (s.ints i).targets)
    (fun _ _ hshift hsame => (hshift.targets hsgi).trans hsame) rfl

theorem otherTargets_congr (hv2 : E.cfg.version = .v2)
    (h : gicIsSgi i.id = false → (t.ints i).targets = (s.ints i).targets) :
    otherTargets E t i = otherTargets E s i := by
  unfold otherTargets
  split
  · rfl
  · rename_i hshared
    have hsgi : gicIsSgi i.id = false := by
      by_contra hsgi
      exact hshared (gicIsPriv_of_sgi (by simpa using hsgi))
    unfold routeMask vgicIntPtargetMask
    rw [hv2, h hsgi]

theorem Shifts.otherTargets (hv2 : E.cfg.version = .v2) (h : Shifts E s t) :
    otherTargets E t i = otherTargets E s i :=
  otherTargets_congr hv2 h.targets

/-- `vgic_route` comes back, with a node less for each message. -/
theorem route_returns (hv2 : E.cfg.version = .v2) (h : LrsHeld E s) (hi : Own E i)
    (howner : (s.ints i).owner = some E.current) (hnot : NotHeld E s i)
    (hroom : otherTargets E s i ≤ freeNodes E.cfg.msg s.msgs) :
    ∃ t, vgicRoute E s E.current i = some t ∧ LrsHeld E t ∧
      freeNodes E.cfg.msg s.msgs ≤ freeNodes E.cfg.msg t.msgs + otherTargets E s i := by
  have hplaced : ∃ u, vgicAddLrTarget E s E.current i = some u ∧ LrsHeld E u := by
    unfold vgicAddLrTarget
    split
    · exact h.addLr hi howner hnot
    · exact ⟨s, rfl, h⟩
  obtain ⟨u, hu, hheld⟩ := hplaced
  have hmsgs : u.msgs = s.msgs := (Quiet.addLrTarget hu).msgs
  have hyield : Shifts E s (vgicYieldOwnership E u E.current i) :=
    (addLrTarget_shifts hu).trans (yieldOwnership_shifts u)
  unfold vgicRoute
  split
  · exact ⟨s, rfl, h, by omega⟩
  · rw [hu, Option.bind_some]
    unfold vgicRouteOthers
    split
    · rename_i hother
      simp only [vgicIntHasOtherTarget, hv2, Bool.and_eq_true, Bool.not_eq_true'] at hother
      have hmsgs' : (vgicYieldOwnership E u E.current i).msgs = s.msgs :=
        Quiet.yieldOwnership.msgs.trans hmsgs
      have hcount := hyield.otherTargets (i := i) hv2
      unfold otherTargets at hcount hroom ⊢
      simp only [hother.2.1, Bool.false_eq_true, if_false] at hcount hroom ⊢
      rw [← hcount, ← hmsgs'] at hroom
      obtain ⟨t, ht, hfree⟩ := vgicSendMask_freeNodes (routeMsg E E.current i) hroom
      obtain ⟨-, hints, hgich⟩ := vgicSendMask_same ht
      refine ⟨t, ht, ?_, ?_⟩
      · apply hheld.yieldOwnership.congr hints
        unfold VgicState.lr
        rw [hgich]
      · rw [← hcount, ← hmsgs']
        omega
    · exact ⟨u, rfl, hheld, by rw [hmsgs]; omega⟩

/-- `vgic_int_set_field` comes back for an interrupt of the vCPU that no other one owns. -/
theorem setField_returns {handlers : RegHandlerInfo} {fields : RegFields} {data : BitVec 64}
    (hv2 : E.cfg.version = .v2) (h : LrsHeld E s) (hi : Own E i)
    (howner : (s.ints i).owner = none ∨ (s.ints i).owner = some E.current)
    (hfields : handlers.fields = some fields)
    (hsame : ∀ int, SamePlace E i int (fields.updateField E E.current i data int).2)
    (htargets : ∀ int, (fields.updateField E E.current i data int).2.targets = int.targets)
    (hroom : otherTargets E s i ≤ freeNodes E.cfg.msg s.msgs) :
    ∃ t, vgicIntSetField E s handlers E.current i data = some t ∧ LrsHeld E t ∧
      freeNodes E.cfg.msg s.msgs ≤ freeNodes E.cfg.msg t.msgs + otherTargets E s i := by
  have hgets := vgicGetOwnership_granted.mpr howner
  have hown := getOwnership_owner hgets
  have hheld := h.getOwnership (i := i)
  have hshifts : Shifts E s (vgicGetOwnership s E.current i).2 := getOwnership_shifts s
  have hmsgs : (vgicGetOwnership s E.current i).2.msgs = s.msgs := Quiet.getOwnership.msgs
  unfold vgicIntSetField
  dsimp only
  rw [if_pos hgets]
  unfold vgicIntSetFieldOwned
  rw [hfields, Option.bind_some]
  generalize (vgicGetOwnership s E.current i).2 = u at hown hheld hshifts hmsgs
  have hremoved := hheld.removeLr hi hown
  have hownRemoved := vgicRemoveLr_owner (E := E) (s := u) (i := i)
  have hinLr := vgicRemoveLr_inLr hown
  have hmsgsRemoved : (vgicRemoveLr E u E.current i).2.msgs = u.msgs := Quiet.removeLr.msgs
  have hshiftsRemoved : Shifts E u (vgicRemoveLr E u E.current i).2 := removeLr_shifts u
  dsimp only
  generalize (vgicRemoveLr E u E.current i).2 = w at *
  obtain ⟨-, hlr, hint⟩ := updateInt_same E w fields i data
  have hmsgsUpdated : (updateInt E w fields E.current i data).msgs = w.msgs := Quiet.updateInt.msgs
  have hints : (updateInt E w fields E.current i data).ints =
      update w.ints i (fields.updateField E E.current i data (w.ints i)).2 := updateInt_ints fields w
  have hnot : NotHeld E w i := hremoved.notHeld hi hinLr
  have hupdated : LrsHeld E (updateInt E w fields E.current i data) := by
    apply (hremoved.modifyNotHeld hnot fun int => (fields.updateField E E.current i data int).2).congr hints
    rw [hlr]
    rfl
  have hnotUpdated : NotHeld E (updateInt E w fields E.current i data) i := by
    intro k
    rw [hlr]
    exact hnot k
  have hcount : otherTargets E (updateInt E w fields E.current i data) i = otherTargets E s i := by
    apply otherTargets_congr hv2
    intro hsgi
    rw [hint, htargets, hshiftsRemoved.targets hsgi, hshifts.targets hsgi]
  have hfree : freeNodes E.cfg.msg (updateInt E w fields E.current i data).msgs =
      freeNodes E.cfg.msg s.msgs := by
    rw [hmsgsUpdated, hmsgsRemoved, hmsgs]
  have hownUpdated : ((updateInt E w fields E.current i data).ints i).owner = some E.current := by
    rw [hint, (hsame _).owner, hownRemoved, hown]
  obtain ⟨t, ht, htheld, hleft⟩ := route_returns hv2 hupdated hi hownUpdated hnotUpdated
    (by rw [hcount, hfree]; exact hroom)
  rw [ht, Option.map_some]
  refine ⟨_, rfl, htheld.yieldOwnership, ?_⟩
  have hmsgsLast : (vgicYieldOwnership E t E.current i).msgs = t.msgs := Quiet.yieldOwnership.msgs
  rw [hmsgsLast, ← hfree, ← hcount]
  exact hleft

end Avisor
