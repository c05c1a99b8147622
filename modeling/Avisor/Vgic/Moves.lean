import Avisor.Vgic.Presenting
import Avisor.Vgic.RegisterMessages
import Mathlib.Logic.Relation

/-!
# What can happen to an interrupt

Each store of the virtual interrupt controller to the fields of a `struct vgic_int` is one of a few kinds. A
register write is the only kind that changes what the guest configures; all others move the interrupt between its
structure, the list registers and its owner.
-/

namespace Avisor

open Function Relation CircularList

variable {E : VgicEnv} {s t u : VgicState} {i j : IntRef} {k : Nat} {int int' : VgicInt}

/-- A store to the interrupt `i` that moves it, on a pCPU that runs `E.current`. -/
inductive IntShift (E : VgicEnv) (i : IntRef) (int : VgicInt) : VgicInt → Prop
  | own (owner : int.owner = none) : IntShift E i int { int with owner := some E.current }
  | disown (shared : E.cfg.version = .v2 → gicIsPriv i.id = false) :
      IntShift E i int { int with owner := none }
  | release : IntShift E i int { int with inLr := false }
  | place (sgiPend : BitVec 8) (n : Nat) :
      IntShift E i int { int with sgiPend := sgiPend, state := .inv, inLr := true, lr := n }
  | remove (lr : ListReg) : IntShift E i int (intOfLr E i lr { int with inLr := false })
  | inject (own : Own E i) :
      IntShift E i int { int with owner := some E.current, state := .pending, inLr := false }
  | source (sgiPend : BitVec 8) (pend : Bool) (inLr : int.inLr = false) :
      IntShift E i int { int with sgiPend := sgiPend, state := { int.state with pend := pend } }
  | deactivate : IntShift E i int { int with state := { int.state with act := false } }

/-- A store to the interrupt `i`: it moves it, or it is that of a register write. -/
inductive IntMove (E : VgicEnv) (i : IntRef) (int : VgicInt) : VgicInt → Prop
  | shift (int' : VgicInt) (shift : IntShift E i int int') : IntMove E i int int'
  | update (id : RegHandlerId) {fields : RegFields} (data : BitVec 64)
      (fields_eq : (regHandlerInfoTable E.cfg.version id).fields = some fields)
      (inLr : int.inLr = false) : IntMove E i int (fields.updateField E E.current i data int).2

/-- Between two states, interrupts are only moved. -/
def Shifts (E : VgicEnv) (s t : VgicState) : Prop :=
  ∀ i, ReflTransGen (IntShift E i) (s.ints i) (t.ints i)

/-- What happens to the interrupts between two states. -/
def Moves (E : VgicEnv) (s t : VgicState) : Prop :=
  ∀ i, ReflTransGen (IntMove E i) (s.ints i) (t.ints i)

theorem Shifts.of_ints (h : t.ints = s.ints) : Shifts E s t := by
  intro i
  rw [h]

theorem Shifts.trans (h : Shifts E s t) (h' : Shifts E t u) : Shifts E s u :=
  fun i => (h i).trans (h' i)

theorem Shifts.moves (h : Shifts E s t) : Moves E s t :=
  fun i => ReflTransGen.mono (fun _ int' hshift => .shift int' hshift) _ _ (h i)

theorem Moves.trans (h : Moves E s t) (h' : Moves E t u) : Moves E s u :=
  fun i => (h i).trans (h' i)

/-- What each store to an interrupt keeps is kept. -/
theorem Moves.invariant {P : VgicInt → Prop} (h : Moves E s t)
    (hP : ∀ int int', IntMove E i int int' → P int → P int') (hs : P (s.ints i)) : P (t.ints i) := by
  have hi := h i
  generalize t.ints i = int at hi
  induction hi with
  | refl => exact hs
  | tail _ hmove ih => exact hP _ _ hmove ih

theorem Shifts.invariant {P : VgicInt → Prop} (h : Shifts E s t)
    (hP : ∀ int int', IntShift E i int int' → P int → P int') (hs : P (s.ints i)) : P (t.ints i) := by
  have hi := h i
  generalize t.ints i = int at hi
  induction hi with
  | refl => exact hs
  | tail _ hshift ih => exact hP _ _ hshift ih

theorem modifyInt_shifts (s : VgicState) (i : IntRef) {f : VgicInt → VgicInt}
    (h : IntShift E i (s.ints i) (f (s.ints i))) : Shifts E s (s.modifyInt i f) := by
  intro j
  rw [VgicState.modifyInt_ints]
  by_cases hj : j = i
  · subst hj
    rw [update_self]
    exact .single h
  · rw [update_of_ne hj]

/-! ### List registers -/

theorem yieldOwnership_shifts (s : VgicState) : Shifts E s (vgicYieldOwnership E s E.current i) := by
  rcases vgicYieldOwnership_cases E s E.current i with hsame | ⟨⟨hversion, -⟩, hyield⟩
  · rw [hsame]
    exact .of_ints rfl
  · rw [hyield]
    exact modifyInt_shifts s i (.disown hversion)

theorem getOwnership_shifts (s : VgicState) : Shifts E s (vgicGetOwnership s E.current i).2 := by
  rcases vgicGetOwnership_cases s E.current i with ⟨-, hsame⟩ | ⟨hnone, hget⟩
  · rw [hsame]
    exact .of_ints rfl
  · rw [hget]
    exact modifyInt_shifts s i (.own hnone)

theorem releasePrev_shifts (s : VgicState) : Shifts E s (vgicReleasePrev E s E.current i k) := by
  rcases vgicReleasePrev_cases E s E.current i k with hsame | ⟨prev, -, hrelease⟩
  · rw [hsame]
    exact .of_ints rfl
  · rw [hrelease]
    exact (modifyInt_shifts s prev .release).trans (yieldOwnership_shifts _)

theorem writeLr_shifts (s : VgicState) : Shifts E s (vgicWriteLr E s E.current i k) := by
  have hprev : Shifts E s (vgicReleasePrev E s E.current i k) := releasePrev_shifts s
  unfold vgicWriteLr
  generalize vgicReleasePrev E s E.current i k = u at hprev
  have hplace : Shifts E u (u.modifyInt i fun int =>
      { int with
        sgiPend := (lrOfInt E i (u.ints i) (vgicGetState E u i)).2
        state := .inv
        inLr := true
        lr := k }) := modifyInt_shifts u i (.place _ k)
  exact hprev.trans hplace

theorem removeLr_shifts (s : VgicState) : Shifts E s (vgicRemoveLr E s E.current i).2 := by
  unfold vgicRemoveLr
  split
  · exact .of_ints rfl
  · split
    · dsimp only
      apply modifyInt_shifts
      exact .release
    · rename_i n lr _
      have hremove : Shifts E (s.writeLr E.self n .zero) ((s.writeLr E.self n .zero).modifyInt i
          fun int => intOfLr E i lr { int with inLr := false }) := modifyInt_shifts _ i (.remove lr)
      exact hremove

theorem addSpilled_shifts (s : VgicState) : Shifts E s (vgicAddSpilled E s E.current i) :=
  .of_ints rfl

theorem spillLr_shifts (h : vgicSpillLr E s E.current k i = some t) : Shifts E s t := by
  cases vgicSpillLr_step h with
  | unknown => exact .of_ints rfl
  | spilled j found other =>
    exact ((removeLr_shifts s).trans (addSpilled_shifts _)).trans (yieldOwnership_shifts _)

theorem addLr_shifts (h : vgicAddLr E s E.current i = some t) : Shifts E s t := by
  cases vgicAddLr_step h with
  | refused => exact .of_ints rfl
  | placed k => exact writeLr_shifts s
  | evicted k u enabled inLr search spill => exact (spillLr_shifts spill).trans (writeLr_shifts u)
  | spilled => exact addSpilled_shifts s

theorem addLrTarget_shifts (h : vgicAddLrTarget E s E.current i = some t) : Shifts E s t := by
  cases vgicAddLrTarget_step h with
  | added t target add => exact addLr_shifts add
  | elsewhere => exact .of_ints rfl

theorem routeOthers_shifts (h : vgicRouteOthers E s E.current i = some t) : Shifts E s t := by
  cases vgicRouteOthers_step h with
  | kept => exact .of_ints rfl
  | sent t send => exact (yieldOwnership_shifts s).trans (.of_ints (vgicSendMask_same send).2.1)

theorem route_shifts (h : vgicRoute E s E.current i = some t) : Shifts E s t := by
  cases vgicRoute_step h with
  | idle => exact .of_ints rfl
  | routed u t state enabled place others =>
    exact (addLrTarget_shifts place).trans (routeOthers_shifts others)

/-! ### Register writes and injection -/

/-- A register write to an interrupt of the vCPU: it leaves its list register, the field is updated, and it is
moved to its targets. -/
structure FieldSet (E : VgicEnv) (fields : RegFields) (i : IntRef) (data : BitVec 64) (s t : VgicState) :
    Prop where
  intro ::
  sets : ∃ u, Shifts E s u ∧ (u.ints i).inLr = false ∧
    Shifts E (updateInt E u fields E.current i data) t

theorem setFieldOwned_sets {handlers : RegHandlerInfo} {fields : RegFields} {data : BitVec 64}
    (hfields : handlers.fields = some fields) (howner : (s.ints i).owner = some E.current)
    (h : vgicIntSetFieldOwned E s handlers E.current i data = some t) : FieldSet E fields i data s t := by
  obtain ⟨w, hroute, rfl⟩ := vgicIntSetFieldOwned_route hfields h
  exact ⟨_, removeLr_shifts s, vgicRemoveLr_inLr howner, (route_shifts hroute).trans (yieldOwnership_shifts w)⟩

theorem FieldSet.moves {id : RegHandlerId} {fields : RegFields} {data : BitVec 64}
    (hfields : (regHandlerInfoTable E.cfg.version id).fields = some fields)
    (h : FieldSet E fields i data s t) : Moves E s t := by
  obtain ⟨u, hremove, hinLr, hroute⟩ := h.sets
  apply (hremove.moves.trans ?_).trans hroute.moves
  intro j
  rw [updateInt_ints]
  by_cases hj : j = i
  · subst hj
    rw [update_self]
    exact .single (.update id data hfields hinLr)
  · rw [update_of_ne hj]

theorem setField_moves (id : RegHandlerId) {data : BitVec 64}
    (h : vgicIntSetField E s (regHandlerInfoTable E.cfg.version id) E.current i data = some t) :
    Moves E s t := by
  cases vgicIntSetField_step h with
  | owned fields t granted fields_eq set =>
    have howned : Shifts E s (vgicGetOwnership s E.current i).2 := getOwnership_shifts s
    exact howned.moves.trans ((setFieldOwned_sets fields_eq (getOwnership_owner granted) set).moves fields_eq)
  | delegated owner t owner_eq other send => exact (Shifts.of_ints (vgicSendMsg_same send).2.1).moves

theorem injectHw_shifts {id : Nat} (h : vgicInjectHw E s E.current id = some t) : Shifts E s t := by
  obtain ⟨i, hget, hadd⟩ := Option.bind_eq_some_iff.mp h
  exact (modifyInt_shifts s i (.inject (vgicGetInt_own hget).1)).trans (addLr_shifts hadd)

/-- In the GICv2 build, the private interrupts are owned by their vCPUs. -/
def PrivOwned (E : VgicEnv) (s : VgicState) : Prop :=
  E.cfg.version = .v2 → ∀ n < gicCpuPriv, (s.ints (.priv E.current n)).owner = some E.current

theorem PrivOwned.of_own (h : PrivOwned E s) (hv2 : E.cfg.version = .v2) (hi : Own E i)
    (hsgi : gicIsSgi i.id = true) : (s.ints i).owner = some E.current := by
  cases i with
  | priv vcpu n =>
    obtain ⟨rfl, hn⟩ := hi
    exact h hv2 n hn
  | shared vm n =>
    have hpriv := gicIsPriv_of_sgi hsgi
    exact absurd (of_decide_eq_true hpriv) (Nat.not_lt.mpr hi.2.1)

theorem injectSgi_shifts {source : Nat} (howner : (s.ints i).owner = some E.current)
    (h : vgicInjectSgi E s E.current i source = some t) : Shifts E s t := by
  have hremove : Shifts E s (vgicRemoveLr E s E.current i).2 := removeLr_shifts s
  cases vgicInjectSgi_step h with
  | known => exact hremove
  | added t new add =>
    have hinLr := vgicRemoveLr_inLr howner
    exact (hremove.trans (modifyInt_shifts _ i (.source _ _ hinLr))).trans (addLr_shifts add)

theorem inject_moves {id source : Nat} (hpriv : PrivOwned E s)
    (h : vgicInject E s E.current id source = some t) : Moves E s t := by
  cases vgicInject_step h with
  | unknown => exact (Shifts.of_ints rfl).moves
  | hw i t found hw inject => exact (injectHw_shifts inject).moves
  | sgi i t found notHw sources inject =>
    simp only [hasSources, Bool.and_eq_true, decide_eq_true_eq] at sources
    have howner := hpriv.of_own sources.1 (vgicGetInt_own found).1 sources.2
    exact (injectSgi_shifts howner inject).moves
  | set i t found notHw sources set => exact setField_moves .ispendr set

/-! ### Maintenance -/

theorem unspill_shifts (s : VgicState) : Shifts E s (vgicUnspill E s E.current i k) := by
  have hunlink : Shifts E s { s with links := listDel s.links (.node i) } := .of_ints rfl
  exact hunlink.trans (writeLr_shifts _)

theorem refillLoop_shifts {fuel : Nat} {flags : IntState}
    (h : refillLoop E E.current fuel s flags = some t) : Shifts E s t := by
  apply refillLoop_invariant ?_ ?_ (.of_ints rfl) h
  · exact fun u _ _ _ hu _ _ _ => hu.trans ((getOwnership_shifts u).trans (unspill_shifts _))
  · exact fun _ hu => hu.trans (.of_ints rfl)

theorem eoirHighestSpilledActive_shifts (h : vgicEoirHighestSpilledActive E s E.current = some t) :
    Shifts E s t := by
  have hended (i : IntRef) : Shifts E s ((vgicGetOwnership s E.current i).2.modifyInt i fun int =>
      { int with state := { int.state with act := false } }) :=
    (getOwnership_shifts s).trans (modifyInt_shifts _ i .deactivate)
  cases vgicEoirHighestSpilledActive_step h with
  | kept => exact .of_ints rfl
  | hw i u highest granted ended =>
    subst ended
    exact hended i
  | added i u t highest granted ended notHw pend add =>
    subst ended
    exact (hended i).trans (addLr_shifts add)
  | inactive i u highest granted ended =>
    subst ended
    exact hended i

theorem eoiCountLoop_shifts {fuel : Nat} (h : eoiCountLoop E fuel s = some t) : Shifts E s t := by
  obtain ⟨-, hshifts⟩ := eoiCountLoop_invariant (P := fun _ u => Shifts E s u)
    (fun _ _ _ hu _ heoir => (hu.trans (eoirHighestSpilledActive_shifts heoir)).trans (.of_ints rfl))
    (.of_ints rfl) h
  exact hshifts

theorem trappedEoi_shifts (h : vgicTrappedEoi E s E.current i = some t) : Shifts E s t := by
  cases vgicTrappedEoi_step h with
  | sgi t sgi add => exact (modifyInt_shifts s i .release).trans (addLr_shifts add)
  | yielded => exact (modifyInt_shifts s i .release).trans (yieldOwnership_shifts _)

theorem trappedEoirLoop_shifts {fuel : Nat} {lrInd : Option Nat}
    (h : trappedEoirLoop E E.current fuel s lrInd = some t) : Shifts E s t := by
  have hzero (u : VgicState) (k : Nat) : Shifts E u (u.writeLr E.self k .zero) := .of_ints rfl
  obtain ⟨-, hshifts⟩ := trappedEoirLoop_invariant (P := fun _ u _ => Shifts E s u)
    (fun _ u k hu _ => hu.trans (hzero u k))
    (fun _ u k _ _ hu _ heoi => (hu.trans (hzero u k)).trans (trappedEoi_shifts heoi)) (.of_ints rfl) h
  exact hshifts

theorem maintenance_shifts (h : gicMaintenanceHandler E s = some t) : Shifts E s t := by
  apply gicMaintenanceHandler_invariant ?_ ?_ ?_ (.of_ints rfl) h
  · exact fun _ _ htrapped => trappedEoirLoop_shifts htrapped
  · exact fun _ _ hu hrefill => hu.trans (refillLoop_shifts hrefill)
  · exact fun _ _ _ _ _ hw _ hcount => hw.trans (eoiCountLoop_shifts hcount)

/-! ### Calls -/

theorem ipiRoute_shifts (h : vgicIpiRoute E s i = some t) : Shifts E s t := by
  cases vgicIpiRoute_step h with
  | routed u granted place =>
    exact ((getOwnership_shifts s).trans (addLrTarget_shifts place)).trans (yieldOwnership_shifts u)
  | refused => exact .of_ints rfl

theorem ipiHandler_moves {event : BitVec 32} {data : BitVec 64} (hpriv : PrivOwned E s)
    (h : vgicIpiHandler E s event data = some t) : Moves E s t := by
  cases (vgicIpiHandler_step h).2 with
  | unknown => exact (Shifts.of_ints rfl).moves
  | updateEnable => exact (Shifts.of_ints rfl).moves
  | route i t event_eq found route => exact (ipiRoute_shifts route).moves
  | inject t event_eq inject => exact inject_moves hpriv inject
  | setReg handlers i val t event_eq msg set =>
    obtain ⟨handlers', hget, hmsg⟩ := Option.bind_eq_some_iff.mp msg
    obtain ⟨i', -, hmsg⟩ := Option.map_eq_some_iff.mp hmsg
    cases hmsg
    obtain ⟨id, -, rfl⟩ := Option.map_eq_some_iff.mp hget
    exact setField_moves id set

theorem guestEffect_ints {g : GuestAction} {c : PCpuId} (h : guestEffect E.cfg s c g = some t) :
    t.ints = s.ints := by
  cases guestEffect_step h with
  | lr n state lt used => rfl
  | counted => rfl

theorem writeCtlr_ints {val : BitVec 64} (h : vgicdWriteCtlr E s val = some t) : t.ints = s.ints := by
  cases vgicdWriteCtlr_step h with
  | same => rfl
  | changed t send => exact (vgicSendMsg_same send).2.1

/-- What a call can do to the interrupts. -/
theorem vgicEffect_moves {call : VgicCall} (hpriv : PrivOwned E s) (h : vgicEffect E s call = some t) :
    Moves E s t := by
  cases call with
  | setField id i data => exact setField_moves id h
  | writeCtlr val => exact (Shifts.of_ints (writeCtlr_ints h)).moves
  | writeSgir val =>
    rcases vgicdWriteSgir_step h with rfl | ⟨mask, -, hsend⟩
    · exact (Shifts.of_ints rfl).moves
    · exact (Shifts.of_ints (vgicSendMask_same hsend).2.1).moves
  | writeSgi1r sgir => exact (Shifts.of_ints (vgicSendMask_same h).2.1).moves
  | injectHw id => exact (injectHw_shifts h).moves
  | inject id source => exact inject_moves hpriv h
  | maintenance => exact (maintenance_shifts h).moves
  | guest g => exact (Shifts.of_ints (guestEffect_ints h)).moves
  | message =>
    cases cpuMsgRound_step h with
    | none => exact (Shifts.of_ints rfl).moves
    | other msg msgs get => exact (Shifts.of_ints rfl).moves
    | vgic msg msgs t get handles handle =>
      exact ipiHandler_moves (s := { s with msgs := msgs }) hpriv handle

end Avisor
