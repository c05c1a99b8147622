import Avisor.Vgic.Fields
import Avisor.Vgic.ListRegisters

/-!
# The virtual interrupt controller

Guest register writes, injection, the messages between the pCPUs and the maintenance interrupt, from
`arch/aarch64/vgic.c`, `vgicv2.c` and `vgicv3.c`. `none` stands for a pCPU that does not come out of
the call: it is in the loop of `ERROR`, at a fault, waits for a lock it holds, or goes round a loop for
ever.
-/

namespace Avisor

open Function CircularList

variable (E : VgicEnv) (s : VgicState)

/-! ### Messages -/

/-- `enum VGIC_EVENTS`. -/
inductive VgicEvent
  | updateEnable
  | route
  | inject
  | setReg
  deriving DecidableEq, Repr

/-- The value of the enumerator. -/
def VgicEvent.toBits : VgicEvent → BitVec 32
  | .updateEnable => 0
  | .route => 1
  | .inject => 2
  | .setReg => 3

/-- The enumerator with a value. -/
def VgicEvent.ofBits? (event : BitVec 32) : Option VgicEvent :=
  [VgicEvent.updateEnable, .route, .inject, .setReg].find? fun e => e.toBits = event

/-- `VGIC_MSG_DATA`. -/
def vgicMsgData (vmId vgicrid intId reg val : BitVec 64) : BitVec 64 :=
  vmId <<< 48 ||| (vgicrid &&& 0xffff) <<< 32 ||| (intId &&& 0x7fff) <<< 16 |||
    (reg &&& 0xff) <<< 8 ||| val &&& 0xff

/-- `VGIC_MSG_VM`. -/
def vgicMsgVm (data : BitVec 64) : BitVec 64 := data >>> 48

/-- `VGIC_MSG_VGICRID`. -/
def vgicMsgVgicrid (data : BitVec 64) : BitVec 64 := (data >>> 32) &&& 0xffff

/-- `VGIC_MSG_INTID`. -/
def vgicMsgIntid (data : BitVec 64) : BitVec 64 := (data >>> 16) &&& 0x7fff

/-- `VGIC_MSG_REG`. -/
def vgicMsgReg (data : BitVec 64) : BitVec 64 := (data >>> 8) &&& 0xff

/-- `VGIC_MSG_VAL`. -/
def vgicMsgVal (data : BitVec 64) : BitVec 64 := data &&& 0xff

/-- A `struct cpu_msg` of the virtual interrupt controller. -/
def vgicMsg (event : VgicEvent) (data : BitVec 64) : CpuMsg :=
  { handler := E.cfg.vgicIpiId, event := event.toBits, data := data }

/-- `cpu_send_msg`. -/
def vgicSendMsg (trgtcpu : PCpuId) (msg : CpuMsg) : Option VgicState :=
  (cpuSendMsg E.cfg.msg s.msgs trgtcpu msg).map fun msgs =>
    { s with msgs := msgs, sent := s.sent ++ [(trgtcpu, msg)] }

/-- The loops that send a message to the pCPUs of a mask. -/
def vgicSendMask (mask : BitVec 64) (msg : CpuMsg) : Option VgicState :=
  (List.range E.cfg.cpuNum).foldlM
    (fun s i => if mask.getLsbD i then vgicSendMsg E s i msg else some s) s

/-- The message of `vgic_send_sgi_msg`. -/
def sgiMsg (intId : Nat) : CpuMsg :=
  vgicMsg E .inject (vgicMsgData (BitVec.ofNat 64 E.current.vm) 0 (BitVec.ofNat 64 intId) 0
    (BitVec.ofNat 64 E.current.idx))

/-- `vgic_send_sgi_msg`. -/
def vgicSendSgiMsg (pcpuMask : BitVec 64) (intId : Nat) : Option VgicState :=
  vgicSendMask E s pcpuMask (sgiMsg E intId)

/-! ### Register writes -/

/-- The message of `vgic_route`. -/
def routeMsg (vcpu : VcpuRef) (i : IntRef) : CpuMsg :=
  vgicMsg E .route (vgicMsgData (BitVec.ofNat 64 vcpu.vm) (BitVec.ofNat 64 vcpu.idx)
    (BitVec.ofNat 64 i.id) 0 0)

/-- The pCPUs `vgic_route` sends its message to. -/
def routeMask (vcpu : VcpuRef) (i : IntRef) : BitVec 64 :=
  (vgicIntPtargetMask E (s.ints i)).setWidth 64 &&& ~~~(1#64 <<< E.pId vcpu)

/-- The second half of `vgic_route`, for the other pCPUs. -/
def vgicRouteOthers (vcpu : VcpuRef) (i : IntRef) : Option VgicState :=
  if !(s.ints i).inLr && vgicIntHasOtherTarget E i (s.ints i) then
    let s := vgicYieldOwnership E s vcpu i
    vgicSendMask E s (routeMask E s vcpu i) (routeMsg E vcpu i)
  else some s

/-- `vgic_add_lr`, where the vCPU is a target of the interrupt. -/
def vgicAddLrTarget (vcpu : VcpuRef) (i : IntRef) : Option VgicState :=
  if vgicIntVcpuIsTarget E vcpu i (s.ints i) then vgicAddLr E s vcpu i else some s

/-- `vgic_route`. -/
def vgicRoute (vcpu : VcpuRef) (i : IntRef) : Option VgicState :=
  if (s.ints i).state = .inv || !(s.ints i).enabled then some s
  else (vgicAddLrTarget E s vcpu i).bind fun s => vgicRouteOthers E s vcpu i

/-- The message of `vgic_int_set_field`. -/
def setRegMsg (handlers : RegHandlerInfo) (vcpu : VcpuRef) (i : IntRef) (data : BitVec 64) : CpuMsg :=
  vgicMsg E .setReg (vgicMsgData (BitVec.ofNat 64 vcpu.vm) 0 (BitVec.ofNat 64 i.id)
    (BitVec.ofNat 64 handlers.regid.toNat) data)

/-- The call of `update_field` in `vgic_int_set_field`, and of `update_hw` behind it. -/
def updateInt (fields : RegFields) (vcpu : VcpuRef) (i : IntRef) (data : BitVec 64) : VgicState :=
  let (changed, int) := fields.updateField E vcpu i data (s.ints i)
  let s := s.modifyInt i fun _ => int
  if changed && vgicIntIsHw s i then s.modifyGic (physRef E i int) (fields.updateHw int) else s

/-- The branch of `vgic_int_set_field` for an interrupt that `vcpu` owns. -/
def vgicIntSetFieldOwned (handlers : RegHandlerInfo) (vcpu : VcpuRef) (i : IntRef)
    (data : BitVec 64) : Option VgicState :=
  handlers.fields.bind fun fields =>
    let s := (vgicRemoveLr E s vcpu i).2
    let s := updateInt E s fields vcpu i data
    (vgicRoute E s vcpu i).map fun s => vgicYieldOwnership E s vcpu i

/-- `vgic_int_set_field`. -/
def vgicIntSetField (handlers : RegHandlerInfo) (vcpu : VcpuRef) (i : IntRef) (data : BitVec 64) :
    Option VgicState :=
  let (owned, s) := vgicGetOwnership s vcpu i
  if owned then vgicIntSetFieldOwned E s handlers vcpu i data
  else
    (s.ints i).owner.bind fun owner =>
      vgicSendMsg E s (E.pId owner) (setRegMsg E handlers vcpu i data)

/-- `VGIC_ENABLE_MASK`. -/
def vgicEnableMask : GicVersion → BitVec 32
  | .v2 => 0x1
  | .v3 => 0x2

/-- `vgic_update_enable`. -/
def vgicUpdateEnable : VgicState :=
  s.setHcr E.self { s.hcr E.self with
    en := s.ctlr E.current.vm &&& vgicEnableMask E.cfg.version ≠ 0 }

/-- The message of `vgicd_emul_misc_access`. -/
def updateEnableMsg : CpuMsg :=
  vgicMsg E .updateEnable (vgicMsgData (BitVec.ofNat 64 E.current.vm) 0 0 0 0)

/-- `vgicd_emul_misc_access`, the write of `val` to `GICD_CTLR`; `vm_msg_broadcast` sends to the
master alone. -/
def vgicdWriteCtlr (val : BitVec 64) : Option VgicState :=
  let vm := E.current.vm
  let ctlr := val.setWidth 32 &&& vgicEnableMask E.cfg.version
  let prevCtrl := s.ctlr vm
  let s := { s with ctlr := update s.ctlr vm ctlr }
  if prevCtrl ^^^ ctlr ≠ 0 then
    vgicSendMsg E (vgicUpdateEnable E s) (E.master vm) (updateEnableMsg E)
  else some s

/-- The pCPUs that `vgicd_emul_sgiregs_access` sends an SGI to, by the value written to `GICD_SGIR`;
`none` where it sends none. -/
def sgirTargets (val : BitVec 64) : Option (BitVec 64) :=
  let vm := E.current.vm
  match (val.extractLsb' 24 2).toNat with
  | 0 => some (vmTranslateToPcpuMask E vm ((val.extractLsb' 16 8).setWidth 64) 8)
  | 1 => some (E.cpus vm &&& (~~~(1#32 <<< E.pId E.current)).setWidth 64)
  | 2 => some ((1#32 <<< E.self).setWidth 64)
  | _ => none

/-- `vgicd_emul_sgiregs_access`, the write of `val` to `GICD_SGIR`. -/
def vgicdWriteSgir (val : BitVec 64) : Option VgicState :=
  match sgirTargets E val with
  | some trgtlist => vgicSendSgiMsg E s trgtlist (val.extractLsb' 0 4).toNat
  | none => some s

/-- The pCPUs that `vgic_icc_sgir_handler` sends an SGI to. -/
def iccSgirTargets (sgir : BitVec 64) : BitVec 64 :=
  let vm := E.current.vm
  if sgir.getLsbD 40 then E.cpus vm &&& (~~~(1#32 <<< E.pId E.current)).setWidth 64
  else vmTranslateToPcpuMask E vm ((sgir.extractLsb' 0 16).setWidth 64) (E.cfg.nrCpus vm)

/-- `vgic_icc_sgir_handler`, a write. -/
def vgicIccSgirHandler (sgir : BitVec 64) : Option VgicState :=
  vgicSendSgiMsg E s (iccSgirTargets E sgir) (sgir.extractLsb' 24 4).toNat

/-! ### Injection -/

/-- `vgic_inject_hw`. -/
def vgicInjectHw (vcpu : VcpuRef) (id : Nat) : Option VgicState :=
  (vgicGetInt E vcpu id vcpu.idx).bind fun i =>
    let s := s.modifyInt i fun int =>
      { int with owner := some vcpu, state := .pending, inLr := false }
    vgicAddLr E s vcpu i

/-- `vgic_inject_sgi`. -/
def vgicInjectSgi (vcpu : VcpuRef) (i : IntRef) (source : Nat) : Option VgicState :=
  let s := (vgicRemoveLr E s vcpu i).2
  let pendstate := (s.ints i).sgiPend
  let newPendstate := pendstate ||| (1#32 <<< source).setWidth 8
  if pendstate ^^^ newPendstate ≠ 0 then
    let s := s.modifyInt i fun int =>
      { int with
        sgiPend := newPendstate
        state := { int.state with pend := newPendstate ≠ 0 } }
    if (s.ints i).state ≠ .inv then vgicAddLr E s vcpu i else some s
  else some s

/-- `vgic_inject`. -/
def vgicInject (vcpu : VcpuRef) (id : Nat) (source : Nat) : Option VgicState :=
  match vgicGetInt E vcpu id vcpu.idx with
  | none => some s
  | some i =>
    if vgicIntIsHw s i then vgicInjectHw E s vcpu id
    else if E.cfg.version = .v2 && gicIsSgi id then vgicInjectSgi E s vcpu i source
    else vgicIntSetField E s ispendrInfo vcpu i 1

/-- What `vgic_ipi_handler` takes a `VGIC_SET_REG` message to be about: the handler, the interrupt and
the value; `none` where it finds no handler or no interrupt. -/
def setRegOfMsg (data : BitVec 64) : Option (RegHandlerInfo × IntRef × BitVec 64) :=
  (vgicGetRegHandlerInfo E.cfg.version (vgicMsgReg data).toNat).bind fun handlers =>
    (vgicGetInt E E.current (vgicMsgIntid data).toNat (vgicMsgVgicrid data).toNat).map fun i =>
      (handlers, i, vgicMsgVal data)

/-- The part of `vgic_ipi_handler` for `VGIC_ROUTE`. -/
def vgicIpiRoute (i : IntRef) : Option VgicState :=
  let vcpu := E.current
  let (owned, s) := vgicGetOwnership s vcpu i
  if owned then (vgicAddLrTarget E s vcpu i).map fun s => vgicYieldOwnership E s vcpu i else some s

/-- `vgic_ipi_handler`. -/
def vgicIpiHandler (event : BitVec 32) (data : BitVec 64) : Option VgicState :=
  let vcpu := E.current
  let intId := (vgicMsgIntid data).toNat
  if (vgicMsgVm data).toNat ≠ vcpu.vm then none
  else
    match VgicEvent.ofBits? event with
    | some .updateEnable => some (vgicUpdateEnable E s)
    | some .route =>
      match vgicGetInt E vcpu intId vcpu.idx with
      | some i => vgicIpiRoute E s i
      | none => some s
    | some .inject => vgicInject E s vcpu intId (vgicMsgVal data).toNat
    | some .setReg =>
      match setRegOfMsg E data with
      | some (handlers, i, val) => vgicIntSetField E s handlers vcpu i val
      | none => some s
    | none => some s

/-! ### Maintenance -/

/-- The number of steps a traversal of a list of spilled interrupts can take without meeting an
interrupt twice. -/
def spilledFuel (vm : VmId) : Nat := gicCpuPriv + E.cfg.intNum vm + 1

/-- The interrupts that the loops of `vgic_highest_prio_spilled` visit. -/
def spilledEntries (vcpu : VcpuRef) : Option (List IntRef) := do
  let fuel := spilledFuel E vcpu.vm
  let own ← listEntries s.links (.vcpu vcpu) fuel (s.links.next (.head (.vcpu vcpu)))
  let shared ← listEntries s.links (.vm vcpu.vm) fuel (s.links.next (.head (.vm vcpu.vm)))
  some (own ++ shared)

/-- One round of the loop of `vgic_highest_prio_spilled`. -/
def higherPrio (flags : IntState) (irq : Option IntRef) (tempIrq : IntRef) : Option IntRef :=
  if !(vgicGetState E s tempIrq).meets flags then irq
  else
    let irqPrio := (irq.map fun i => (s.ints i).prio).getD gicLowestPrio
    let irqId := (irq.map IntRef.id).getD gicMaxValidInterrupts
    let prio := (s.ints tempIrq).prio
    if prio < irqPrio || (prio = irqPrio && tempIrq.id < irqId) then some tempIrq else irq

/-- `vgic_highest_prio_spilled`; the outer `none` where a loop does not end. -/
def vgicHighestPrioSpilled (vcpu : VcpuRef) (flags : IntState) : Option (Option IntRef) :=
  (spilledEntries E s vcpu).map fun entries => entries.foldl (higherPrio E s flags) none

/-- `vgic_refill_lrs` takes an interrupt from its list into a list register. -/
def vgicUnspill (vcpu : VcpuRef) (irq : IntRef) (lrInd : Nat) : VgicState :=
  vgicWriteLr E { s with links := listDel s.links (.node irq) } vcpu irq lrInd

/-- The loop of `vgic_refill_lrs`. -/
def refillLoop (vcpu : VcpuRef) : Nat → VgicState → IntState → Option VgicState
  | 0, _, _ => none
  | fuel + 1, s, flags =>
    match findLr E s ListReg.elrsr with
    | none => some s
    | some lrInd =>
      match vgicHighestPrioSpilled E s vcpu flags with
      | none => none
      | some none => some (s.setHcr E.self { s.hcr E.self with npie := false, uie := false })
      | some (some irq) =>
        let (owned, s) := vgicGetOwnership s vcpu irq
        if owned then refillLoop vcpu fuel (vgicUnspill E s vcpu irq lrInd) .pendact
        else refillLoop vcpu fuel s flags

/-- `vgic_refill_lrs`; every round but those that do not get ownership takes an interrupt from the
lists. -/
def vgicRefillLrs (vcpu : VcpuRef) (npie : Bool) : Option VgicState :=
  refillLoop E vcpu (spilledFuel E vcpu.vm) s (if npie then .pending else .pendact)

/-- `vgic_eoir_highest_spilled_active`. -/
def vgicEoirHighestSpilledActive (vcpu : VcpuRef) : Option VgicState :=
  match vgicHighestPrioSpilled E s vcpu .active with
  | none => none
  | some none => some s
  | some (some i) =>
    let (owned, s) := vgicGetOwnership s vcpu i
    if owned then
      let s := s.modifyInt i fun int => { int with state := { int.state with act := false } }
      if vgicIntIsHw s i then
        some (s.modifyGic (physHere E i) fun p => { p with act := false })
      else if (s.ints i).state.pend then vgicAddLr E s vcpu i
      else some s
    else some s

/-- What `vgic_handle_trapped_eoir` does for the interrupt of a list register it has cleared. -/
def vgicTrappedEoi (vcpu : VcpuRef) (i : IntRef) : Option VgicState :=
  let s := s.modifyInt i fun int => { int with inLr := false }
  if gicIsSgi i.id then vgicAddLr E s vcpu i else some (vgicYieldOwnership E s vcpu i)

/-- The loop of `vgic_handle_trapped_eoir`; each round clears a bit of `GICH_EISR`. -/
def trappedEoirLoop (vcpu : VcpuRef) : Nat → VgicState → Option Nat → Option VgicState
  | _, s, none => some s
  | 0, _, some _ => none
  | fuel + 1, s, some lrInd =>
    let vid := (s.lr E.self lrInd).vid
    let s := s.writeLr E.self lrInd .zero
    match vgicGetInt E vcpu vid vcpu.idx with
    | none => trappedEoirLoop vcpu fuel s (some lrInd)
    | some i =>
      (vgicTrappedEoi E s vcpu i).bind fun s =>
        trappedEoirLoop vcpu fuel s (findLr E s ListReg.eisr)

/-- `vgic_handle_trapped_eoir`. -/
def vgicHandleTrappedEoir (vcpu : VcpuRef) : Option VgicState :=
  trappedEoirLoop E vcpu (E.cfg.numLrs + 1) s (findLr E s ListReg.eisr)

/-- The loop of `gic_maintenance_handler` over the `EOICount` of `GICH_HCR`. -/
def eoiCountLoop : Nat → VgicState → Option VgicState
  | 0, _ => none
  | fuel + 1, s =>
    let hcr := s.hcr E.self
    if hcr.eoiCount = 0 then some s
    else
      (vgicEoirHighestSpilledActive E s E.current).bind fun s =>
        eoiCountLoop fuel (s.setHcr E.self { hcr with eoiCount := hcr.eoiCount - 1 })

/-- The bits of `GICH_MISR` the code reads. -/
structure GichMisr where
  eoi : Bool
  u : Bool
  lrenp : Bool
  np : Bool
  deriving DecidableEq

/-- `gich_get_misr`. -/
def gichGetMisr : GichMisr :=
  let hcr := s.hcr E.self
  let lrs := (List.range E.cfg.numLrs).map (s.lr E.self)
  { eoi := lrs.any ListReg.eisr
    u := hcr.uie && lrs.countP (fun lr => lr.state ≠ .inv) ≤ 1
    lrenp := hcr.lrenpie && hcr.eoiCount ≠ 0
    np := hcr.npie && !lrs.any fun lr => lr.state = .pending }

/-- `gic_maintenance_handler`. -/
def gicMaintenanceHandler : Option VgicState :=
  let misr := gichGetMisr E s
  (if misr.eoi then vgicHandleTrappedEoir E s E.current else some s).bind fun s =>
    (if misr.np || misr.u then vgicRefillLrs E s E.current misr.np else some s).bind fun s =>
      if misr.lrenp then eoiCountLoop E 32 s else some s

end Avisor
