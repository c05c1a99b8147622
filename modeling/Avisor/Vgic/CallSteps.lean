import Avisor.Vgic.Machine

/-!
# What the functions of the virtual interrupt controller do

For each function that moves interrupts, one relation with a constructor for each way through it, and for each
loop a rule with the rounds it may take. What calls keep is proved from these.
-/

namespace Avisor

open CircularList

variable {E : VgicEnv} {s t u : VgicState} {vcpu : VcpuRef} {i : IntRef} {k : Nat}

/-! ### `vgic_spill_lr` and `vgic_add_lr` -/

inductive SpillLrStep (E : VgicEnv) (s : VgicState) (vcpu : VcpuRef) (k : Nat) (held : IntRef) :
    VgicState → Prop
  | unknown (missing : vgicGetInt E vcpu (s.lr E.self k).vid vcpu.idx = none) : SpillLrStep E s vcpu k held s
  | spilled (j : IntRef) (found : vgicGetInt E vcpu (s.lr E.self k).vid vcpu.idx = some j)
      (other : j ≠ held) :
      SpillLrStep E s vcpu k held
        (vgicYieldOwnership E (vgicAddSpilled E (vgicRemoveLr E s vcpu j).2 vcpu j) vcpu j)

theorem vgicSpillLr_step {held : IntRef} (h : vgicSpillLr E s vcpu k held = some t) :
    SpillLrStep E s vcpu k held t := by
  unfold vgicSpillLr at h
  split at h
  · rename_i hmissing
    cases h
    exact .unknown hmissing
  · rename_i j found
    split at h
    · cases h
    · rename_i hother
      cases h
      exact .spilled j found hother

inductive AddLrStep (E : VgicEnv) (s : VgicState) (vcpu : VcpuRef) (i : IntRef) : VgicState → Prop
  | refused (guard : (s.ints i).enabled = false ∨ (s.ints i).inLr = true) : AddLrStep E s vcpu i s
  | placed (k : Nat) (enabled : (s.ints i).enabled = true) (inLr : (s.ints i).inLr = false)
      (free : findLr E s ListReg.elrsr = some k) : AddLrStep E s vcpu i (vgicWriteLr E s vcpu i k)
  | evicted (k : Nat) (u : VgicState) (enabled : (s.ints i).enabled = true) (inLr : (s.ints i).inLr = false)
      (search : spillSearch E s i = some k) (spill : vgicSpillLr E s vcpu k i = some u) :
      AddLrStep E s vcpu i (vgicWriteLr E u vcpu i k)
  | spilled (enabled : (s.ints i).enabled = true) (inLr : (s.ints i).inLr = false) :
      AddLrStep E s vcpu i (vgicAddSpilled E s vcpu i)

theorem vgicAddLr_step (h : vgicAddLr E s vcpu i = some t) : AddLrStep E s vcpu i t := by
  unfold vgicAddLr at h
  split at h
  · rename_i hguard
    simp only [Bool.or_eq_true, Bool.not_eq_true'] at hguard
    cases h
    exact .refused hguard
  · rename_i hguard
    simp only [Bool.or_eq_true, Bool.not_eq_true', not_or, Bool.not_eq_false, Bool.not_eq_true] at hguard
    obtain ⟨henabled, hinLr⟩ := hguard
    split at h
    · rename_i k hfree
      cases h
      exact .placed k henabled hinLr hfree
    · split at h
      · rename_i k hsearch
        obtain ⟨u, hspill, rfl⟩ := Option.map_eq_some_iff.mp h
        exact .evicted k u henabled hinLr hsearch hspill
      · cases h
        exact .spilled henabled hinLr

/-! ### `vgic_route` and `vgic_int_set_field` -/

/-- `vgic_route` goes on to `vgic_add_lr` for an interrupt with these fields. -/
def Routed (E : VgicEnv) (i : IntRef) (int : VgicInt) : Prop :=
  int.state ≠ .inv ∧ int.enabled = true ∧ vgicIntVcpuIsTarget E E.current i int = true

inductive AddLrTargetStep (E : VgicEnv) (s : VgicState) (vcpu : VcpuRef) (i : IntRef) : VgicState → Prop
  | added (t : VgicState) (target : vgicIntVcpuIsTarget E vcpu i (s.ints i) = true)
      (add : vgicAddLr E s vcpu i = some t) : AddLrTargetStep E s vcpu i t
  | elsewhere (target : vgicIntVcpuIsTarget E vcpu i (s.ints i) = false) : AddLrTargetStep E s vcpu i s

theorem vgicAddLrTarget_step (h : vgicAddLrTarget E s vcpu i = some t) : AddLrTargetStep E s vcpu i t := by
  unfold vgicAddLrTarget at h
  split at h
  · rename_i htarget
    exact .added t htarget h
  · rename_i htarget
    cases h
    exact .elsewhere (Bool.eq_false_iff.mpr htarget)

inductive RouteOthersStep (E : VgicEnv) (s : VgicState) (vcpu : VcpuRef) (i : IntRef) : VgicState → Prop
  | kept : RouteOthersStep E s vcpu i s
  | sent (t : VgicState) (send : vgicSendMask E (vgicYieldOwnership E s vcpu i)
      (routeMask E (vgicYieldOwnership E s vcpu i) vcpu i) (routeMsg E vcpu i) = some t) :
      RouteOthersStep E s vcpu i t

theorem vgicRouteOthers_step (h : vgicRouteOthers E s vcpu i = some t) : RouteOthersStep E s vcpu i t := by
  unfold vgicRouteOthers at h
  split at h
  · exact .sent t h
  · cases h
    exact .kept

inductive RouteStep (E : VgicEnv) (s : VgicState) (vcpu : VcpuRef) (i : IntRef) : VgicState → Prop
  | idle (guard : (s.ints i).state = .inv ∨ (s.ints i).enabled = false) : RouteStep E s vcpu i s
  | routed (u t : VgicState) (state : (s.ints i).state ≠ .inv) (enabled : (s.ints i).enabled = true)
      (place : vgicAddLrTarget E s vcpu i = some u) (others : vgicRouteOthers E u vcpu i = some t) :
      RouteStep E s vcpu i t

theorem vgicRoute_step (h : vgicRoute E s vcpu i = some t) : RouteStep E s vcpu i t := by
  unfold vgicRoute at h
  split at h
  · rename_i hguard
    simp only [Bool.or_eq_true, decide_eq_true_eq, Bool.not_eq_true'] at hguard
    cases h
    exact .idle hguard
  · rename_i hguard
    simp only [Bool.or_eq_true, decide_eq_true_eq, Bool.not_eq_true', not_or, Bool.not_eq_false] at hguard
    obtain ⟨u, hplace, hothers⟩ := Option.bind_eq_some_iff.mp h
    exact .routed u t hguard.1 hguard.2 hplace hothers

inductive SetFieldStep (E : VgicEnv) (s : VgicState) (handlers : RegHandlerInfo) (vcpu : VcpuRef) (i : IntRef)
    (data : BitVec 64) : VgicState → Prop
  | owned (fields : RegFields) (t : VgicState) (granted : (vgicGetOwnership s vcpu i).1 = true)
      (fields_eq : handlers.fields = some fields)
      (set : vgicIntSetFieldOwned E (vgicGetOwnership s vcpu i).2 handlers vcpu i data = some t) :
      SetFieldStep E s handlers vcpu i data t
  | delegated (owner : VcpuRef) (t : VgicState) (owner_eq : (s.ints i).owner = some owner)
      (other : owner ≠ vcpu)
      (send : vgicSendMsg E s (E.pId owner) (setRegMsg E handlers vcpu i data) = some t) :
      SetFieldStep E s handlers vcpu i data t

theorem vgicIntSetField_step {handlers : RegHandlerInfo} {data : BitVec 64}
    (h : vgicIntSetField E s handlers vcpu i data = some t) : SetFieldStep E s handlers vcpu i data t := by
  unfold vgicIntSetField at h
  dsimp only at h
  split at h
  · rename_i hgranted
    obtain ⟨fields, hfields, -⟩ := Option.bind_eq_some_iff.mp h
    exact .owned fields t hgranted hfields h
  · rename_i hrefused
    rcases vgicGetOwnership_cases s vcpu i with ⟨-, hsame⟩ | ⟨hnone, -⟩
    · rw [hsame] at h
      obtain ⟨owner, howner, hsend⟩ := Option.bind_eq_some_iff.mp h
      refine .delegated owner t howner (fun heq => ?_) hsend
      exact hrefused (vgicGetOwnership_granted.mpr (.inr (heq ▸ howner)))
    · exact absurd (vgicGetOwnership_granted.mpr (.inl hnone)) hrefused

theorem vgicIntSetFieldOwned_route {handlers : RegHandlerInfo} {fields : RegFields} {data : BitVec 64}
    (hfields : handlers.fields = some fields) (h : vgicIntSetFieldOwned E s handlers vcpu i data = some t) :
    ∃ u, vgicRoute E (updateInt E (vgicRemoveLr E s vcpu i).2 fields vcpu i data) vcpu i = some u ∧
      t = vgicYieldOwnership E u vcpu i := by
  unfold vgicIntSetFieldOwned at h
  rw [hfields, Option.bind_some] at h
  obtain ⟨u, hroute, rfl⟩ := Option.map_eq_some_iff.mp h
  exact ⟨u, hroute, rfl⟩

/-! ### Injection -/

/-- `sgi.pend` with another source. -/
def withSource (sgiPend : BitVec 8) (source : Nat) : BitVec 8 :=
  sgiPend ||| (1#32 <<< source).setWidth 8

/-- `vgic_inject_sgi` behind `vgic_remove_lr`. -/
inductive InjectSgiStep (E : VgicEnv) (u : VgicState) (vcpu : VcpuRef) (i : IntRef) (source : Nat) :
    VgicState → Prop
  | known (old : withSource (u.ints i).sgiPend source = (u.ints i).sgiPend) :
      InjectSgiStep E u vcpu i source u
  | added (t : VgicState) (new : withSource (u.ints i).sgiPend source ≠ (u.ints i).sgiPend)
      (add : vgicAddLr E (u.modifyInt i fun int =>
        { int with
          sgiPend := withSource (u.ints i).sgiPend source
          state := { int.state with pend := withSource (u.ints i).sgiPend source ≠ 0 } }) vcpu i = some t) :
      InjectSgiStep E u vcpu i source t

theorem vgicInjectSgi_step {source : Nat} (h : vgicInjectSgi E s vcpu i source = some t) :
    InjectSgiStep E (vgicRemoveLr E s vcpu i).2 vcpu i source t := by
  unfold vgicInjectSgi at h
  dsimp only at h
  generalize (vgicRemoveLr E s vcpu i).2 = u at h
  change (if (u.ints i).sgiPend ^^^ withSource (u.ints i).sgiPend source ≠ 0 then _ else _) = _ at h
  split at h
  · rename_i hxor
    have hnew : withSource (u.ints i).sgiPend source ≠ (u.ints i).sgiPend :=
      fun heq => hxor (BitVec.xor_eq_zero_iff.mpr heq.symm)
    split at h
    · exact .added t hnew h
    · rename_i hinv
      -- a source has been added, so the interrupt is pending
      rw [VgicState.modifyInt_ints, Function.update_self, not_not] at hinv
      have hpend : decide (withSource (u.ints i).sgiPend source ≠ 0) = false := congrArg IntState.pend hinv
      have hzero : withSource (u.ints i).sgiPend source = 0 := by
        by_contra hne
        exact of_decide_eq_false hpend hne
      exact absurd (hzero.trans (BitVec.or_eq_zero_iff.mp hzero).1.symm) hnew
  · rename_i hxor
    cases h
    exact .known (by_contra fun hne => hxor fun heq => hne (BitVec.xor_eq_zero_iff.mp heq).symm)

inductive InjectStep (E : VgicEnv) (s : VgicState) (vcpu : VcpuRef) (id source : Nat) : VgicState → Prop
  | unknown : InjectStep E s vcpu id source s
  | hw (i : IntRef) (t : VgicState) (found : vgicGetInt E vcpu id vcpu.idx = some i)
      (hw : vgicIntIsHw s i = true)
      (inject : vgicInjectHw E s vcpu id = some t) : InjectStep E s vcpu id source t
  | sgi (i : IntRef) (t : VgicState) (found : vgicGetInt E vcpu id vcpu.idx = some i)
      (notHw : vgicIntIsHw s i = false)
      (sources : hasSources E i = true) (inject : vgicInjectSgi E s vcpu i source = some t) :
      InjectStep E s vcpu id source t
  | set (i : IntRef) (t : VgicState) (found : vgicGetInt E vcpu id vcpu.idx = some i)
      (notHw : vgicIntIsHw s i = false)
      (sources : hasSources E i = false) (set : vgicIntSetField E s ispendrInfo vcpu i 1 = some t) :
      InjectStep E s vcpu id source t

theorem vgicInject_step {id source : Nat} (h : vgicInject E s vcpu id source = some t) :
    InjectStep E s vcpu id source t := by
  unfold vgicInject at h
  split at h
  · cases h
    exact .unknown
  · rename_i i hfound
    have hsources : (E.cfg.version = .v2 && gicIsSgi id) = hasSources E i := by
      unfold hasSources
      rw [vgicGetInt_id hfound]
    rw [hsources] at h
    split at h
    · rename_i hhw
      exact .hw i t hfound hhw h
    · rename_i hhw
      rw [Bool.not_eq_true] at hhw
      split at h
      · rename_i hsgi
        exact .sgi i t hfound hhw hsgi h
      · rename_i hsgi
        exact .set i t hfound hhw (Bool.eq_false_iff.mpr hsgi) h

/-! ### Maintenance -/

/-- What every round of the loop of `vgic_refill_lrs` keeps, the loop keeps. -/
theorem refillLoop_invariant {P : VgicState → Prop} {fuel : Nat} {flags : IntState}
    (hround : ∀ s irq k flags, P s → findLr E s ListReg.elrsr = some k →
      vgicHighestPrioSpilled E s vcpu flags = some (some irq) → (vgicGetOwnership s vcpu irq).1 = true →
        P (vgicUnspill E (vgicGetOwnership s vcpu irq).2 vcpu irq k))
    (hempty : ∀ s, P s → P (s.setHcr E.self { s.hcr E.self with npie := false, uie := false }))
    (hs : P s) (h : refillLoop E vcpu fuel s flags = some t) : P t := by
  induction fuel generalizing s flags with
  | zero => cases h
  | succ fuel ih =>
    unfold refillLoop at h
    split at h
    · cases h
      exact hs
    · rename_i k hfound
      split at h
      · cases h
      · cases h
        exact hempty s hs
      · rename_i irq hhighest
        dsimp only at h
        split at h
        · rename_i hgranted
          exact ih (hround s irq k flags hs hfound hhighest hgranted) h
        · rename_i hrefused
          rcases vgicGetOwnership_cases s vcpu irq with ⟨-, hsame⟩ | ⟨hnone, -⟩
          · rw [hsame] at h
            exact ih hs h
          · exact absurd (vgicGetOwnership_granted.mpr (.inl hnone)) hrefused

/-- `vgic_eoir_highest_spilled_active`; where it gets the owner, it has deactivated the interrupt. -/
inductive EoirStep (E : VgicEnv) (s : VgicState) (vcpu : VcpuRef) : VgicState → Prop
  | kept : EoirStep E s vcpu s
  | hw (i : IntRef) (u : VgicState) (highest : vgicHighestPrioSpilled E s vcpu .active = some (some i))
      (granted : (vgicGetOwnership s vcpu i).1 = true)
      (ended : u = (vgicGetOwnership s vcpu i).2.modifyInt i fun int =>
        { int with state := { int.state with act := false } }) :
      EoirStep E s vcpu (u.modifyGic (physHere E i) fun p => { p with act := false })
  | added (i : IntRef) (u t : VgicState)
      (highest : vgicHighestPrioSpilled E s vcpu .active = some (some i))
      (granted : (vgicGetOwnership s vcpu i).1 = true)
      (ended : u = (vgicGetOwnership s vcpu i).2.modifyInt i fun int =>
        { int with state := { int.state with act := false } })
      (notHw : vgicIntIsHw u i = false) (pend : (u.ints i).state.pend = true)
      (add : vgicAddLr E u vcpu i = some t) : EoirStep E s vcpu t
  | inactive (i : IntRef) (u : VgicState) (highest : vgicHighestPrioSpilled E s vcpu .active = some (some i))
      (granted : (vgicGetOwnership s vcpu i).1 = true)
      (ended : u = (vgicGetOwnership s vcpu i).2.modifyInt i fun int =>
        { int with state := { int.state with act := false } }) :
      EoirStep E s vcpu u

theorem vgicEoirHighestSpilledActive_step (h : vgicEoirHighestSpilledActive E s vcpu = some t) :
    EoirStep E s vcpu t := by
  unfold vgicEoirHighestSpilledActive at h
  split at h
  · cases h
  · cases h
    exact .kept
  · rename_i i hhighest
    dsimp only at h
    split at h
    · rename_i hgranted
      split at h
      · cases h
        exact .hw i _ hhighest hgranted rfl
      · rename_i hhw
        split at h
        · rename_i hpend
          exact .added i _ t hhighest hgranted rfl (Bool.eq_false_iff.mpr hhw) hpend h
        · cases h
          exact .inactive i _ hhighest hgranted rfl
    · rename_i hrefused
      cases h
      rcases vgicGetOwnership_cases s vcpu i with ⟨-, hsame⟩ | ⟨hnone, -⟩
      · rw [hsame]
        exact .kept
      · exact absurd (vgicGetOwnership_granted.mpr (.inl hnone)) hrefused

/-- `P` tells what holds with so many rounds left. -/
theorem eoiCountLoop_invariant {P : Nat → VgicState → Prop} {fuel : Nat}
    (hround : ∀ n s t, P (n + 1) s → (s.hcr E.self).eoiCount ≠ 0 →
      vgicEoirHighestSpilledActive E s E.current = some t →
        P n (t.setHcr E.self { s.hcr E.self with eoiCount := (s.hcr E.self).eoiCount - 1 }))
    (hs : P fuel s) (h : eoiCountLoop E fuel s = some t) : ∃ n, P n t := by
  induction fuel generalizing s with
  | zero => cases h
  | succ fuel ih =>
    unfold eoiCountLoop at h
    dsimp only at h
    split at h
    · cases h
      exact ⟨_, hs⟩
    · rename_i hcount
      obtain ⟨u, hu, h⟩ := Option.bind_eq_some_iff.mp h
      exact ih (hround fuel s u hs hcount hu) h

inductive TrappedEoiStep (E : VgicEnv) (s : VgicState) (vcpu : VcpuRef) (i : IntRef) : VgicState → Prop
  | sgi (t : VgicState) (sgi : gicIsSgi i.id = true)
      (add : vgicAddLr E (s.modifyInt i fun int => { int with inLr := false }) vcpu i = some t) :
      TrappedEoiStep E s vcpu i t
  | yielded (notSgi : gicIsSgi i.id = false) :
      TrappedEoiStep E s vcpu i
        (vgicYieldOwnership E (s.modifyInt i fun int => { int with inLr := false }) vcpu i)

theorem vgicTrappedEoi_step (h : vgicTrappedEoi E s vcpu i = some t) : TrappedEoiStep E s vcpu i t := by
  unfold vgicTrappedEoi at h
  dsimp only at h
  split at h
  · rename_i hsgi
    exact .sgi t hsgi h
  · rename_i hsgi
    cases h
    exact .yielded (Bool.eq_false_iff.mpr hsgi)

/-- `P` tells what holds with so many rounds left and the list register that is the next one. -/
theorem trappedEoirLoop_invariant {P : Nat → VgicState → Option Nat → Prop} {fuel : Nat}
    {lrInd : Option Nat}
    (hunknown : ∀ n s k, P (n + 1) s (some k) → vgicGetInt E vcpu (s.lr E.self k).vid vcpu.idx = none →
      P n (s.writeLr E.self k .zero) (some k))
    (hround : ∀ n s k i t, P (n + 1) s (some k) →
      vgicGetInt E vcpu (s.lr E.self k).vid vcpu.idx = some i →
      vgicTrappedEoi E (s.writeLr E.self k .zero) vcpu i = some t → P n t (findLr E t ListReg.eisr))
    (hs : P fuel s lrInd) (h : trappedEoirLoop E vcpu fuel s lrInd = some t) : ∃ n, P n t none := by
  induction fuel generalizing s lrInd with
  | zero =>
    cases lrInd with
    | none =>
      cases h
      exact ⟨_, hs⟩
    | some k => cases h
  | succ fuel ih =>
    cases lrInd with
    | none =>
      cases h
      exact ⟨_, hs⟩
    | some k =>
      unfold trappedEoirLoop at h
      dsimp only at h
      split at h
      · rename_i hfound
        exact ih (hunknown fuel s k hs hfound) h
      · rename_i i hfound
        obtain ⟨u, hu, h⟩ := Option.bind_eq_some_iff.mp h
        exact ih (hround fuel s k i u hs hfound hu) h

/-- What each part of `gic_maintenance_handler` keeps, the handler keeps. -/
theorem gicMaintenanceHandler_invariant {P : VgicState → Prop}
    (htrapped : (gichGetMisr E s).eoi = true → ∀ u, vgicHandleTrappedEoir E s E.current = some u → P u)
    (hrefill : ∀ u w, P u → vgicRefillLrs E u E.current (gichGetMisr E s).np = some w → P w)
    (hcount : ∀ u w,
      (if (gichGetMisr E s).eoi then vgicHandleTrappedEoir E s E.current else some s) = some u →
      (if (gichGetMisr E s).np || (gichGetMisr E s).u
        then vgicRefillLrs E u E.current (gichGetMisr E s).np else some u) = some w →
      (gichGetMisr E s).lrenp = true → P w → ∀ t, eoiCountLoop E 32 w = some t → P t)
    (hs : P s) (h : gicMaintenanceHandler E s = some t) : P t := by
  obtain ⟨u, hu, h⟩ := Option.bind_eq_some_iff.mp h
  obtain ⟨w, hw, h⟩ := Option.bind_eq_some_iff.mp h
  have hcount := hcount u w hu hw
  have hfirst : P u := by
    split at hu
    · rename_i heoi
      exact htrapped heoi u hu
    · cases hu
      exact hs
  have hsecond : P w := by
    split at hw
    · exact hrefill u w hfirst hw
    · cases hw
      exact hfirst
  split at h
  · rename_i hlrenp
    exact hcount hlrenp hsecond t h
  · cases h
    exact hsecond

/-! ### Messages and the guest -/

inductive IpiRouteStep (E : VgicEnv) (s : VgicState) (i : IntRef) : VgicState → Prop
  | routed (u : VgicState) (granted : (vgicGetOwnership s E.current i).1 = true)
      (place : vgicAddLrTarget E (vgicGetOwnership s E.current i).2 E.current i = some u) :
      IpiRouteStep E s i (vgicYieldOwnership E u E.current i)
  | refused : IpiRouteStep E s i s

theorem vgicIpiRoute_step (h : vgicIpiRoute E s i = some t) : IpiRouteStep E s i t := by
  unfold vgicIpiRoute at h
  dsimp only at h
  split at h
  · rename_i hgranted
    obtain ⟨u, hplace, rfl⟩ := Option.map_eq_some_iff.mp h
    exact .routed u hgranted hplace
  · rename_i hrefused
    cases h
    rcases vgicGetOwnership_cases s E.current i with ⟨-, hsame⟩ | ⟨hnone, -⟩
    · rw [hsame]
      exact .refused
    · exact absurd (vgicGetOwnership_granted.mpr (.inl hnone)) hrefused

inductive IpiStep (E : VgicEnv) (s : VgicState) (event : BitVec 32) (data : BitVec 64) : VgicState → Prop
  | unknown : IpiStep E s event data s
  | updateEnable (event_eq : VgicEvent.ofBits? event = some .updateEnable) :
      IpiStep E s event data (vgicUpdateEnable E s)
  | route (i : IntRef) (t : VgicState) (event_eq : VgicEvent.ofBits? event = some .route)
      (found : vgicGetInt E E.current (vgicMsgIntid data).toNat E.current.idx = some i)
      (route : vgicIpiRoute E s i = some t) : IpiStep E s event data t
  | inject (t : VgicState) (event_eq : VgicEvent.ofBits? event = some .inject)
      (inject : vgicInject E s E.current (vgicMsgIntid data).toNat (vgicMsgVal data).toNat = some t) :
      IpiStep E s event data t
  | setReg (handlers : RegHandlerInfo) (i : IntRef) (val : BitVec 64) (t : VgicState)
      (event_eq : VgicEvent.ofBits? event = some .setReg)
      (msg : setRegOfMsg E data = some (handlers, i, val))
      (set : vgicIntSetField E s handlers E.current i val = some t) : IpiStep E s event data t

theorem vgicIpiHandler_step {event : BitVec 32} {data : BitVec 64}
    (h : vgicIpiHandler E s event data = some t) :
    (vgicMsgVm data).toNat = E.current.vm ∧ IpiStep E s event data t := by
  unfold vgicIpiHandler at h
  dsimp only at h
  split at h
  · cases h
  · rename_i hvm
    refine ⟨not_not.mp hvm, ?_⟩
    split at h
    · rename_i hevent
      cases h
      exact .updateEnable hevent
    · rename_i hevent
      split at h
      · rename_i i hfound
        exact .route i t hevent hfound h
      · cases h
        exact .unknown
    · rename_i hevent
      exact .inject t hevent h
    · rename_i hevent
      split at h
      · rename_i handlers i val hmsg
        exact .setReg handlers i val t hevent hmsg h
      · cases h
        exact .unknown
    · cases h
      exact .unknown

inductive MsgStep (E : VgicEnv) (s : VgicState) : VgicState → Prop
  | none : MsgStep E s s
  | other (msg : CpuMsg) (msgs) (get : cpuGetMsg s.msgs E.self = some (msg, msgs)) :
      MsgStep E s { s with msgs := msgs }
  | vgic (msg : CpuMsg) (msgs) (t : VgicState) (get : cpuGetMsg s.msgs E.self = some (msg, msgs))
      (handles : (E.cfg.msg.handles msg && msg.handler = E.cfg.vgicIpiId) = true)
      (handle : vgicIpiHandler E { s with msgs := msgs } msg.event msg.data = some t) : MsgStep E s t

theorem cpuMsgRound_step (h : cpuMsgRound E s = some t) : MsgStep E s t := by
  unfold cpuMsgRound at h
  split at h
  · cases h
    exact .none
  · rename_i msg msgs hget
    dsimp only at h
    split at h
    · rename_i hhandles
      exact .vgic msg msgs t hget hhandles h
    · cases h
      exact .other msg msgs hget

/-- The guest changes the state of a list register in use, or counts an end of interrupt. -/
inductive GuestStep (cfg : VgicConfig) (s : VgicState) (c : PCpuId) : VgicState → Prop
  | lr (n : Nat) (state : IntState) (lt : n < cfg.numLrs) (used : (s.lr c n).state ≠ .inv) :
      GuestStep cfg s c (s.writeLr c n { s.lr c n with state := state })
  | counted : GuestStep cfg s c (s.setHcr c { s.hcr c with eoiCount := (s.hcr c).eoiCount + 1 })

theorem guestEffect_step {cfg : VgicConfig} {g : GuestAction} {c : PCpuId}
    (h : guestEffect cfg s c g = some t) : GuestStep cfg s c t := by
  cases g with
  | acknowledge n =>
    obtain ⟨⟨hlt, hpending⟩, h⟩ := Option.ite_none_right_eq_some.mp h
    cases h
    exact .lr n .active hlt fun hinv => by rw [hinv] at hpending; cases hpending
  | complete n =>
    obtain ⟨⟨hlt, hactive⟩, h⟩ := Option.ite_none_right_eq_some.mp h
    cases h
    exact .lr n _ hlt fun hinv => by rw [hinv] at hactive; cases hactive
  | completeSpilled =>
    cases h
    exact .counted

/-! ### `GICD_CTLR` and the SGI registers -/

inductive WriteCtlrStep (E : VgicEnv) (s : VgicState) (ctlr : BitVec 32) : VgicState → Prop
  | same : WriteCtlrStep E s ctlr { s with ctlr := Function.update s.ctlr E.current.vm ctlr }
  | changed (t : VgicState) (send : vgicSendMsg E
      (vgicUpdateEnable E { s with ctlr := Function.update s.ctlr E.current.vm ctlr })
      (E.master E.current.vm) (updateEnableMsg E) = some t) : WriteCtlrStep E s ctlr t

theorem vgicdWriteCtlr_step {val : BitVec 64} (h : vgicdWriteCtlr E s val = some t) :
    WriteCtlrStep E s (val.setWidth 32 &&& vgicEnableMask E.cfg.version) t := by
  unfold vgicdWriteCtlr at h
  dsimp only at h
  split at h
  · exact .changed t h
  · cases h
    exact .same

theorem vgicdWriteSgir_step {val : BitVec 64} (h : vgicdWriteSgir E s val = some t) :
    t = s ∨ ∃ mask, sgirTargets E val = some mask ∧
      vgicSendSgiMsg E s mask (val.extractLsb' 0 4).toNat = some t := by
  unfold vgicdWriteSgir at h
  split at h
  · rename_i mask hmask
    exact .inr ⟨mask, hmask, h⟩
  · cases h
    exact .inl rfl

end Avisor
