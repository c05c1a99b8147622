import Avisor.Vgic.State

/-!
# The registers of an interrupt

The functions that `struct vgic_reg_handler_info` points to, the values of that structure and the table
`reg_handler_info_table`, from `vgic.c`, `vgicv2.c` and `vgicv3.c`. An update reports whether it
changed the field, as in the source.
-/

namespace Avisor

open Function

variable (E : VgicEnv)

/-! ### Targets -/

/-- `BIT_MASK`; the first shift is by `len - 1` modulo the width, as the machine takes it. -/
def bitMask (off len : Nat) : BitVec 64 :=
  (((1#64 <<< ((len + 63) % 64)) <<< 1) - 1) <<< off

/-- `vm_translate_to_pcpuid`; `none` is `INVALID_CPUID`. -/
def vmTranslateToPcpuid (vm : VmId) (vcpuid : Nat) : Option PCpuId :=
  if vcpuid < E.cfg.nrCpus vm then some (E.pId ⟨vm, vcpuid⟩) else none

/-- `vm_translate_to_pcpu_mask`. -/
def vmTranslateToPcpuMask (vm : VmId) (mask : BitVec 64) (len : Nat) : BitVec 64 :=
  (List.range len).foldl
    (fun pmask i =>
      if mask.getLsbD i then
        match vmTranslateToPcpuid E vm i with
        | some shift => pmask ||| 1#64 <<< shift
        | none => pmask
      else pmask) 0

/-- `vm_translate_to_vcpuid`; `none` is `INVALID_CPUID`. -/
def vmTranslateToVcpuid (vm : VmId) (pcpuid : PCpuId) : Option Nat :=
  if (E.cpus vm).getLsbD pcpuid then
    some ((List.range 64).countP fun n => (E.cpus vm &&& bitMask 0 pcpuid).getLsbD n)
  else none

/-- `vm_translate_to_vcpu_mask`. -/
def vmTranslateToVcpuMask (vm : VmId) (mask : BitVec 64) (len : Nat) : BitVec 64 :=
  (List.range len).foldl
    (fun pmask i =>
      if mask.getLsbD i then
        match vmTranslateToVcpuid E vm i with
        | some shift => pmask ||| 1#64 <<< shift
        | none => pmask
      else pmask) 0

/-- `vm_get_vcpu_by_mpidr`. -/
def vmGetVcpuByMpidr (vm : VmId) (mpidr : BitVec 64) : Option VcpuRef :=
  ((List.range (E.cfg.nrCpus vm)).map fun vcpuid => (⟨vm, vcpuid⟩ : VcpuRef)).find? fun vcpu =>
    E.cfg.vmpidr vcpu &&& mpidrAffMsk = mpidr &&& mpidrAffMsk

/-- `vgic_broadcast`. -/
def vgicBroadcast (int : VgicInt) : Bool := int.route &&& gicdIrouterIrmBit ≠ 0

/-- The affinity of the executing pCPU. -/
def selfAffinity : BitVec 64 := E.cfg.mpidr E.self &&& mpidrAffMsk

/-- `vgic_int_vcpu_is_target`. -/
def vgicIntVcpuIsTarget (vcpu : VcpuRef) (i : IntRef) (int : VgicInt) : Bool :=
  match E.cfg.version with
  | .v2 => gicIsPriv i.id || int.targets.getLsbD (E.pId vcpu)
  | .v3 =>
    (gicIsPriv i.id && int.phys.toNat = E.pId vcpu) ||
      (!gicIsPriv i.id && int.phys = selfAffinity E) || (!gicIsPriv i.id && vgicBroadcast int)

/-- `vgic_int_has_other_target`. -/
def vgicIntHasOtherTarget (i : IntRef) (int : VgicInt) : Bool :=
  match E.cfg.version with
  | .v2 => !gicIsPriv i.id && int.targets &&& ~~~(1#8 <<< E.self) ≠ 0
  | .v3 =>
    (!gicIsPriv i.id && vgicBroadcast int) ||
      (!(!gicIsPriv i.id && int.phys = selfAffinity E) && int.phys ≠ gicdIrouterInv)

/-- `vgic_int_ptarget_mask`. -/
def vgicIntPtargetMask (int : VgicInt) : BitVec 8 :=
  match E.cfg.version with
  | .v2 => int.targets
  | .v3 =>
    if vgicBroadcast int then
      (E.cpus E.current.vm &&& ~~~(1#64 <<< E.pId E.current)).setWidth 8
    else (1#32 <<< (int.phys.toNat % 32)).setWidth 8

/-! ### Fields -/

/-- `update_field`. -/
abbrev UpdateField := VgicEnv → VcpuRef → IntRef → BitVec 64 → VgicInt → Bool × VgicInt

/-- `read_field`. -/
abbrev ReadField := VgicEnv → VcpuRef → IntRef → VgicInt → BitVec 64

/-- `update_hw`, as what it stores to the registers of the physical interrupt. -/
abbrev UpdateHw := VgicInt → PhysInt → PhysInt

/-- The value of a `bool`. -/
def ofBool64 (b : Bool) : BitVec 64 := if b then 1 else 0

/-- `vgic_int_update_enable`. -/
def vgicIntUpdateEnable (enable : Bool) (i : IntRef) (int : VgicInt) : Bool × VgicInt :=
  if E.cfg.version = .v2 && gicIsSgi i.id then (false, int)
  else if enable ≠ int.enabled then (true, { int with enabled := enable })
  else (false, int)

/-- `vgic_int_update_pend`. -/
def vgicIntUpdatePend (pend : Bool) (i : IntRef) (int : VgicInt) : Bool × VgicInt :=
  if E.cfg.version = .v2 && gicIsSgi i.id then (false, int)
  else if pend ≠ int.state.pend then (true, { int with state := { int.state with pend := pend } })
  else (false, int)

/-- `vgic_int_update_act`. -/
def vgicIntUpdateAct (act : Bool) (int : VgicInt) : Bool × VgicInt :=
  if act ≠ int.state.act then (true, { int with state := { int.state with act := act } })
  else (false, int)

/-- `vgic_int_set_enable`. -/
def vgicIntSetEnable : UpdateField := fun E _ i data int =>
  if data = 0 then (false, int) else vgicIntUpdateEnable E true i int

/-- `vgic_int_clear_enable`. -/
def vgicIntClearEnable : UpdateField := fun E _ i data int =>
  if data = 0 then (false, int) else vgicIntUpdateEnable E false i int

/-- `vgic_int_get_enable`. -/
def vgicIntGetEnable : ReadField := fun _ _ _ int => ofBool64 int.enabled

/-- `vgic_int_enable_hw`. -/
def vgicIntEnableHw : UpdateHw := fun int p => { p with enable := int.enabled }

/-- `vgic_int_set_pend`. -/
def vgicIntSetPend : UpdateField := fun E _ i data int =>
  if data = 0 then (false, int) else vgicIntUpdatePend E true i int

/-- `vgic_int_clear_pend`. -/
def vgicIntClearPend : UpdateField := fun E _ i data int =>
  if data = 0 then (false, int) else vgicIntUpdatePend E false i int

/-- `vgic_int_get_pend`. -/
def vgicIntGetPend : ReadField := fun _ _ _ int => ofBool64 int.state.pend

/-- `vgic_int_set_act`. -/
def vgicIntSetAct : UpdateField := fun _ _ _ data int =>
  if data = 0 then (false, int) else vgicIntUpdateAct true int

/-- `vgic_int_clear_act`. -/
def vgicIntClearAct : UpdateField := fun _ _ _ data int =>
  if data = 0 then (false, int) else vgicIntUpdateAct false int

/-- `vgic_int_get_act`. -/
def vgicIntGetAct : ReadField := fun _ _ _ int => ofBool64 int.state.act

/-- `vgic_int_state_hw`. -/
def vgicIntStateHw : UpdateHw := fun int p =>
  let state := if int.state = .pending then .active else int.state
  { p with act := state.act, pend := state.pend }

/-- `vgic_int_set_cfg`. -/
def vgicIntSetCfg : UpdateField := fun _ _ _ cfg int =>
  (int.cfg.setWidth 64 ≠ cfg, { int with cfg := cfg.setWidth 8 })

/-- `vgic_int_get_cfg`. -/
def vgicIntGetCfg : ReadField := fun _ _ _ int => int.cfg.setWidth 64

/-- `vgic_int_set_cfg_hw`. -/
def vgicIntSetCfgHw : UpdateHw := fun int p => { p with cfg := int.cfg }

/-- `GICH_LR_PRIO_LEN`. -/
def gichLrPrioLen : GicVersion → Nat
  | .v2 => 5
  | .v3 => 8

/-- `vgic_int_set_prio`. -/
def vgicIntSetPrio : UpdateField := fun E _ _ prio int =>
  let len := gichLrPrioLen E.cfg.version
  (int.prio.setWidth 64 ≠ prio,
    { int with prio := prio.setWidth 8 &&& (bitMask (8 - len) len).setWidth 8 })

/-- `vgic_int_get_prio`. -/
def vgicIntGetPrio : ReadField := fun _ _ _ int => int.prio.setWidth 64

/-- `vgic_int_set_prio_hw`. -/
def vgicIntSetPrioHw : UpdateHw := fun int p => { p with prio := int.prio }

/-- `vgicd_set_trgt`. -/
def vgicdSetTrgt : UpdateField := fun E vcpu i targets int =>
  if gicIsPriv i.id then (false, int)
  else
    let targets := vmTranslateToPcpuMask E vcpu.vm targets 8
    (int.targets.setWidth 64 ≠ targets, { int with targets := targets.setWidth 8 })

/-- `vgicd_get_trgt`. -/
def vgicdGetTrgt : ReadField := fun E vcpu i int =>
  if gicIsPriv i.id then 1#64 <<< vcpu.idx
  else vmTranslateToVcpuMask E vcpu.vm (int.targets.setWidth 64) 8

/-- `vgicd_set_trgt_hw`. -/
def vgicdSetTrgtHw : UpdateHw := fun int p => { p with trgt := int.targets }

/-- `vgic_int_set_route`. -/
def vgicIntSetRoute : UpdateField := fun E vcpu i route int =>
  if gicIsPriv i.id then (false, int)
  else
    let physRoute :=
      if route &&& gicdIrouterIrmBit ≠ 0 then E.cfg.mpidr (E.pId vcpu)
      else
        match vmGetVcpuByMpidr E vcpu.vm (route &&& mpidrAffMsk) with
        | some tvcpu => E.cfg.mpidr (E.pId tvcpu) &&& mpidrAffMsk
        | none => gicdIrouterInv
    let newRoute := route &&& gicdIrouterRes0Msk
    (int.route ≠ newRoute, { int with phys := physRoute, route := newRoute })

/-- `vgic_int_get_route`. -/
def vgicIntGetRoute : ReadField := fun _ _ i int => if gicIsPriv i.id then 0 else int.route

/-- `vgic_int_set_route_hw`. -/
def vgicIntSetRouteHw : UpdateHw := fun int p => { p with route := int.phys }

/-! ### The table -/

/-- `enum vgic_reg_handler_info_id`. -/
inductive RegHandlerId
  | isenabler
  | ispendr
  | isactiver
  | icenabler
  | icpendr
  | icactiver
  | icfgr
  | irouter
  | ipriorityr
  | itargetsr
  deriving DecidableEq, Repr

/-- The value of the enumerator. -/
def RegHandlerId.toNat : RegHandlerId → Nat
  | .isenabler => 0
  | .ispendr => 1
  | .isactiver => 2
  | .icenabler => 3
  | .icpendr => 4
  | .icactiver => 5
  | .icfgr => 6
  | .irouter => 7
  | .ipriorityr => 8
  | .itargetsr => 9

/-- The enumerator with a value, below `VGIC_REG_HANDLER_ID_NUM`. -/
def RegHandlerId.ofNat? : Nat → Option RegHandlerId
  | 0 => some .isenabler
  | 1 => some .ispendr
  | 2 => some .isactiver
  | 3 => some .icenabler
  | 4 => some .icpendr
  | 5 => some .icactiver
  | 6 => some .icfgr
  | 7 => some .irouter
  | 8 => some .ipriorityr
  | 9 => some .itargetsr
  | _ => none

/-- The functions a `reg_access` points to. -/
inductive RegAccess
  | generic
  | router
  | razwi
  deriving DecidableEq, Repr

/-- The fields of an interrupt that a register group updates. -/
structure RegFields where
  readField : ReadField
  updateField : UpdateField
  updateHw : UpdateHw

/-- `struct vgic_reg_handler_info`, as `reg_handler_info_table` refers to it; `fields` is `none` where
the three pointers are null. -/
structure RegHandlerInfo where
  regAccess : RegAccess
  alignment : BitVec 64
  regid : RegHandlerId
  regroupBase : BitVec 64
  fieldWidth : Nat
  fields : Option RegFields

def isenablerInfo : RegHandlerInfo where
  regAccess := .generic
  alignment := 0b0100
  regid := .isenabler
  regroupBase := 0x100
  fieldWidth := 1
  fields := some ⟨vgicIntGetEnable, vgicIntSetEnable, vgicIntEnableHw⟩

def ispendrInfo : RegHandlerInfo where
  regAccess := .generic
  alignment := 0b0100
  regid := .ispendr
  regroupBase := 0x200
  fieldWidth := 1
  fields := some ⟨vgicIntGetPend, vgicIntSetPend, vgicIntStateHw⟩

def isactiverInfo : RegHandlerInfo where
  regAccess := .generic
  alignment := 0b0100
  regid := .isactiver
  regroupBase := 0x300
  fieldWidth := 1
  fields := some ⟨vgicIntGetAct, vgicIntSetAct, vgicIntStateHw⟩

def icenablerInfo : RegHandlerInfo where
  regAccess := .generic
  alignment := 0b0100
  regid := .icenabler
  regroupBase := 0x180
  fieldWidth := 1
  fields := some ⟨vgicIntGetEnable, vgicIntClearEnable, vgicIntEnableHw⟩

def icpendrInfo : RegHandlerInfo where
  regAccess := .generic
  alignment := 0b0100
  regid := .icpendr
  regroupBase := 0x280
  fieldWidth := 1
  fields := some ⟨vgicIntGetPend, vgicIntClearPend, vgicIntStateHw⟩

def iactiverInfo : RegHandlerInfo where
  regAccess := .generic
  alignment := 0b0100
  regid := .icactiver
  regroupBase := 0x380
  fieldWidth := 1
  fields := some ⟨vgicIntGetAct, vgicIntClearAct, vgicIntStateHw⟩

def icfgrInfo : RegHandlerInfo where
  regAccess := .generic
  alignment := 0b0100
  regid := .icfgr
  regroupBase := 0xc00
  fieldWidth := 2
  fields := some ⟨vgicIntGetCfg, vgicIntSetCfg, vgicIntSetCfgHw⟩

def ipriorityrInfo : RegHandlerInfo where
  regAccess := .generic
  alignment := 0b0101
  regid := .ipriorityr
  regroupBase := 0x400
  fieldWidth := 8
  fields := some ⟨vgicIntGetPrio, vgicIntSetPrio, vgicIntSetPrioHw⟩

/-- `irouter_info`; the GICv2 build keeps the weak definition of `vgic.c`. -/
def irouterInfo : GicVersion → RegHandlerInfo
  | .v2 =>
    { regAccess := .razwi, alignment := 0b0100, regid := .isenabler, regroupBase := 0,
      fieldWidth := 0, fields := none }
  | .v3 =>
    { regAccess := .router, alignment := 0b1100, regid := .irouter, regroupBase := 0x6000,
      fieldWidth := 64, fields := some ⟨vgicIntGetRoute, vgicIntSetRoute, vgicIntSetRouteHw⟩ }

/-- `itargetr_info`; the GICv3 build keeps the weak definition of `vgic.c`. -/
def itargetrInfo : GicVersion → RegHandlerInfo
  | .v2 =>
    { regAccess := .generic, alignment := 0b0101, regid := .itargetsr, regroupBase := 0x800,
      fieldWidth := 8, fields := some ⟨vgicdGetTrgt, vgicdSetTrgt, vgicdSetTrgtHw⟩ }
  | .v3 =>
    { regAccess := .razwi, alignment := 0b0101, regid := .isenabler, regroupBase := 0,
      fieldWidth := 0, fields := none }

/-- `reg_handler_info_table`. -/
def regHandlerInfoTable (version : GicVersion) : RegHandlerId → RegHandlerInfo
  | .isenabler => isenablerInfo
  | .ispendr => ispendrInfo
  | .isactiver => isactiverInfo
  | .icenabler => icenablerInfo
  | .icpendr => icpendrInfo
  | .icactiver => iactiverInfo
  | .icfgr => icfgrInfo
  | .irouter => irouterInfo version
  | .ipriorityr => ipriorityrInfo
  | .itargetsr => itargetrInfo version

/-- `vgic_get_reg_handler_info`. -/
def vgicGetRegHandlerInfo (version : GicVersion) (id : Nat) : Option RegHandlerInfo :=
  (RegHandlerId.ofNat? id).map (regHandlerInfoTable version)

/-- Where the registers of the physical interrupt with the id of `i` are, on the executing pCPU. -/
def physHere (i : IntRef) : PhysRef :=
  if gicIsPriv i.id then .gicr i.id E.self else .gicd i.id

/-- Where the registers of the physical interrupt behind `i` are. -/
def physRef (i : IntRef) (int : VgicInt) : PhysRef :=
  if E.cfg.version = .v3 && gicIsPriv i.id then .gicr i.id int.phys.toNat else physHere E i

theorem RegHandlerId.ofNat?_toNat (id : RegHandlerId) : ofNat? id.toNat = some id := by
  cases id <;> rfl

/-- A group that updates a field has its own number in the table. -/
theorem regid_of_fields {version : GicVersion} {id : RegHandlerId}
    (h : (regHandlerInfoTable version id).fields ≠ none) :
    (regHandlerInfoTable version id).regid = id := by
  cases id <;> cases version <;> first | rfl | exact absurd rfl h

end Avisor
