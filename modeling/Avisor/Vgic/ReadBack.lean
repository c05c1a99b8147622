import Avisor.Vgic.Emulation

/-!
# Reading the state of an interrupt

The state of an interrupt is in its structure, in the list register that holds it, or, for an SGI with sources, in
its source bits. `vgic_get_state` looks at all of them, and the functions that a guest's read comes to at the
structure alone.
-/

namespace Avisor

open Function PackedFields

variable {E : VgicEnv} {s t : VgicState} {i : IntRef} {int int' : VgicInt}

/-! ### What every call keeps -/

/-- An interrupt in a list register has its state there, and the private interrupts of the GICv2 build are owned by
their vCPUs. -/
structure StateKept (cfg : VgicConfig) (i : IntRef) (int : VgicInt) : Prop where
  inLr : int.inLr = true → int.state = .inv
  priv : cfg.version = .v2 → ∀ vcpu, ∀ n < gicCpuPriv, i = .priv vcpu n → int.owner = some vcpu

theorem IntShift.stateKept (h : IntShift E i int int') (hkept : StateKept E.cfg i int) :
    StateKept E.cfg i int' := by
  have hout (hclear : int'.inLr = false) (howner : int'.owner = int.owner) : StateKept E.cfg i int' := by
    refine ⟨fun hset => ?_, fun hv2 vcpu n hn hi => howner.trans (hkept.priv hv2 vcpu n hn hi)⟩
    rw [hclear] at hset
    cases hset
  cases h with
  | own hnone =>
    refine ⟨hkept.inLr, fun hv2 vcpu n hn hi => ?_⟩
    have howner := hkept.priv hv2 vcpu n hn hi
    rw [hnone] at howner
    cases howner
  | disown hshared =>
    refine ⟨hkept.inLr, fun hv2 vcpu n hn hi => ?_⟩
    subst hi
    exact absurd hn (of_decide_eq_false (hshared hv2))
  | release => exact hout rfl rfl
  | place => exact ⟨fun _ => rfl, hkept.priv⟩
  | remove lr => exact hout intOfLr_same.1 intOfLr_same.2.1
  | inject hown =>
    refine ⟨fun hset => (by cases hset), fun hv2 vcpu n hn hi => ?_⟩
    subst hi
    rw [hown.1]
  | source sgiPend pend hclear => exact hout hclear rfl
  | deactivate =>
    refine ⟨fun hset => ?_, hkept.priv⟩
    rw [hkept.inLr hset]
    rfl

theorem IntMove.stateKept (h : IntMove E i int int') (hkept : StateKept E.cfg i int) :
    StateKept E.cfg i int' := by
  cases h with
  | shift _ hshift => exact hshift.stateKept hkept
  | update id data hfields hclear =>
    rename_i fields
    have hplace : SamePlace E i int (fields.updateField E E.current i data int).2 :=
      updateField_samePlace hfields
    refine ⟨fun hset => ?_, fun hv2 vcpu n hn hi => hplace.owner.trans (hkept.priv hv2 vcpu n hn hi)⟩
    rw [hplace.inLr, hclear] at hset
    cases hset

theorem stateKept_init {cfg : VgicConfig} (h : VgicBoot cfg s) (i : IntRef) : StateKept cfg i (s.ints i) where
  inLr _ := h.state i
  priv hv2 vcpu n _ hi := by
    rw [hi, h.priv, if_pos hv2]

theorem stateKept_preserves (cfg : HvConfig) :
    (hvMachine cfg).Preserves fun x => ∀ i, StateKept cfg.vgic i (x.vgic.ints i) := by
  intro x a y h hstep i
  cases step_hvStep hstep with
  | sched a t step taken => exact h i
  | halt c call vcpu cpu pc vcpu_eq effect => exact h i
  | vgic c call vcpu t cpu pc vcpu_eq enabled effect =>
    have hpriv : PrivOwned (x.env cfg c vcpu) x.vgic := fun hv2 n hn => (h _).priv hv2 _ n hn rfl
    exact (vgicEffect_moves hpriv effect).invariant
      (P := StateKept (x.env cfg c vcpu).cfg i) (fun _ _ hmove => hmove.stateKept) (h i)

/-! ### Reads -/

/-- The bit of the state that a register shows. -/
def stateBit : RegHandlerId → Option (IntState → Bool)
  | .ispendr => some IntState.pend
  | .icpendr => some IntState.pend
  | .isactiver => some IntState.act
  | .icactiver => some IntState.act
  | _ => none

/-- A read of the guest, whose bit `p` is that of the interrupt `i`. -/
structure ReadsBit (E : VgicEnv) (handlers : RegHandlerInfo) (acc : EmulAccess) (gicrAccess : Bool)
    (vgicrId p : Nat) (i : IntRef) : Prop where
  read : acc.write = false
  width : acc.width = 4
  valid : E.cfg.version = .v2 ∨ gicrAccess = gicIsPriv (firstInt E handlers acc).toNat
  lt : p < 32
  covers : ∀ q < p, coveredInt E handlers acc vgicrId q ≠ none
  int : coveredInt E handlers acc vgicrId p = some i

/-- The read returns the bit of the interrupt's state. -/
def ReadsBack (E : VgicEnv) (s : VgicState) (handlers : RegHandlerInfo) (bit : IntState → Bool)
    (acc : EmulAccess) (gicrAccess : Bool) (vgicrId p : Nat) (i : IntRef) : Prop :=
  ∃ val, vgicEmulGenericAccess E s handlers acc gicrAccess vgicrId = some ⟨s, some val⟩ ∧
    (val.getLsbD p = true ↔ bit (vgicGetState E s i) = true)

/-- What the source bits of an interrupt add to its state. -/
def sourceState (E : VgicEnv) (s : VgicState) (i : IntRef) : IntState :=
  ⟨hasSources E i && (s.ints i).sgiPend ≠ 0, false⟩

/-- The structure of the interrupt shows the bit of its state: neither a list register nor the source bits have it
for themselves. -/
def ShownInStruct (E : VgicEnv) (s : VgicState) (bit : IntState → Bool) (i : IntRef) : Prop :=
  match gichGetLr E s i with
  | some (_, lr) => bit lr.state = false ∧ bit (sourceState E s i) = false
  | none => bit (sourceState E s i) = true → bit (s.ints i).state = true

/-- The fields of a register that shows a bit of the state. -/
theorem stateBit_handlers {version : GicVersion} {id : RegHandlerId} {bit : IntState → Bool}
    (hbit : stateBit id = some bit) :
    (regHandlerInfoTable version id).fieldWidth = 1 ∧ ∃ fields,
      (regHandlerInfoTable version id).fields = some fields ∧
        ∀ E vcpu i int, fields.readField E vcpu i int = ofBool64 (bit int.state) := by
  cases id with
  | ispendr | icpendr | isactiver | icactiver =>
    cases hbit
    exact ⟨rfl, _, rfl, fun _ _ _ _ => rfl⟩
  | isenabler | icenabler | icfgr | irouter | ipriorityr | itargetsr => cases hbit

/-- A read returns the bit that the structure has. -/
theorem ReadsBit.genericAccess {version : GicVersion} {id : RegHandlerId} {bit : IntState → Bool}
    {acc : EmulAccess} {gicrAccess : Bool} {vgicrId p : Nat} (hbit : stateBit id = some bit)
    (h : ReadsBit E (regHandlerInfoTable version id) acc gicrAccess vgicrId p i) :
    ∃ val, vgicEmulGenericAccess E s (regHandlerInfoTable version id) acc gicrAccess vgicrId =
        some ⟨s, some val⟩ ∧ (val.getLsbD p = true ↔ bit (s.ints i).state = true) := by
  obtain ⟨hwidth, fields, hfields, hread⟩ := @stateBit_handlers version id bit hbit
  have hcount : fieldCount (regHandlerInfoTable version id) acc = 32 := by
    unfold fieldCount
    rw [hwidth, h.width]
    rfl
  have hvalid : (E.cfg.version = .v2 ||
      !(gicrAccess ^^ gicIsPriv (firstInt E (regHandlerInfoTable version id) acc).toNat)) = true := by
    rcases h.valid with hv2 | hpriv
    · simp [hv2]
    · simp [hpriv]
  obtain ⟨l, hloop, hl, hend⟩ := genericLoop_read (E := E) (s := s) fields vgicrId h.read
    (show (regHandlerInfoTable version id).fieldWidth < 64 by omega) 32 0 0
  have hlen : p < l.length := by
    by_contra hle
    have hmissing := hend (lt_of_le_of_lt (Nat.not_lt.mp hle) h.lt)
    rw [Nat.zero_add] at hmissing
    rcases Nat.lt_or_ge l.length p with hlt | hge
    · exact h.covers _ hlt hmissing
    · rw [show l.length = p by omega, h.int] at hmissing
      cases hmissing
  obtain ⟨hp, j, hj, hx⟩ := hl p l[p] (List.getElem?_eq_getElem hlen)
  rw [Nat.zero_add, h.int] at hj
  cases hj
  unfold vgicEmulGenericAccess
  simp only [hvalid, if_true, hfields, Option.bind_some, hcount, h.read, Bool.false_eq_true, if_false, hloop,
    Option.map_some]
  refine ⟨_, rfl, ?_⟩
  rw [hwidth, getLsbD_packFrom Nat.one_pos (by have hlt := h.lt; omega) l 0 fun _ _ => BitVec.getLsbD_zero,
    if_neg (Nat.not_lt_zero _), Nat.div_one, Nat.mod_one, Nat.sub_zero, List.getElem?_eq_getElem hlen,
    Option.any_some, hx, hread]
  cases bit (s.ints i).state with
  | false => decide
  | true => decide

theorem stateBit_getState {id : RegHandlerId} {bit : IntState → Bool} (hbit : stateBit id = some bit) :
    bit (vgicGetState E s i) = (bit (sourceState E s i) || bit
      (match gichGetLr E s i with
      | some (_, lr) => lr.state
      | none => (s.ints i).state)) := by
  have hadd (state : IntState) (b : Bool) :
      bit (if b then { state with pend := true } else state) = (bit ⟨b, false⟩ || bit state) := by
    cases id with
    | ispendr | icpendr | isactiver | icactiver =>
      cases hbit
      cases b with
      | false => rfl
      | true => rfl
    | isenabler | icenabler | icfgr | irouter | ipriorityr | itargetsr => cases hbit
  unfold vgicGetState sourceState
  exact hadd _ _

theorem stateBit_inv {id : RegHandlerId} {bit : IntState → Bool} (hbit : stateBit id = some bit) :
    bit .inv = false := by
  cases id with
  | ispendr | icpendr | isactiver | icactiver =>
    cases hbit
    rfl
  | isenabler | icenabler | icfgr | irouter | ipriorityr | itargetsr => cases hbit

theorem inLr_of_gichGetLr {n : Nat} {lr : ListReg} (h : gichGetLr E s i = some (n, lr)) :
    (s.ints i).inLr = true := by
  unfold gichGetLr at h
  dsimp only at h
  split at h
  · cases h
  · rename_i hguard
    simp only [Bool.or_eq_true, not_or, Bool.not_eq_true, Bool.not_eq_false'] at hguard
    exact hguard.1

/-- The vCPU of VM 1 enables its private interrupt 20 and sets it pending. -/
def pendPrivate : List HvAction :=
  startFirst ++ [.vgic 0 (.setField .isenabler (.priv ⟨1, 0⟩ 20) 1),
    .vgic 0 (.setField .ispendr (.priv ⟨1, 0⟩ 20) 1)]

end Avisor
