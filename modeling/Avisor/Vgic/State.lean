import Avisor.Cpu.Messages
import Avisor.Gic.Distributor

/-!
# The virtual interrupt controller's data

The structures of `arch/aarch64/inc/vgic.h` and the hypervisor control interface of the GIC, for both
values of `GIC_VERSION`. An interrupt is the place of its `struct vgic_int`: in the private bank of a
vCPU or in the distributor of a VM; the `id` in the structure never changes after `vgic_init` and
`vgic_cpu_init`, so it is read off the place. The functions hold the locks of the source, and run one
after another.
-/

namespace Avisor

open Function CircularList

/-- `enum int_state`, by its two bits. -/
structure IntState where
  pend : Bool
  act : Bool
  deriving DecidableEq, Repr

namespace IntState

/-- `INV`. -/
def inv : IntState := ⟨false, false⟩

/-- `PEND`. -/
def pending : IntState := ⟨true, false⟩

/-- `ACT`. -/
def active : IntState := ⟨false, true⟩

/-- `PENDACT`. -/
def pendact : IntState := ⟨true, true⟩

/-- `a & b` is not zero. -/
def meets (a b : IntState) : Bool := a.pend && b.pend || a.act && b.act

@[simp] theorem inv_pend : inv.pend = false := rfl
@[simp] theorem inv_act : inv.act = false := rfl
@[simp] theorem active_pend : active.pend = false := rfl
@[simp] theorem active_act : active.act = true := rfl
@[simp] theorem pending_pend : pending.pend = true := rfl
@[simp] theorem pending_act : pending.act = false := rfl

end IntState

/-- A `struct vgic_int*`. -/
inductive IntRef
  /-- `&vcpu->arch.vgic_priv.interrupts[id]`. -/
  | priv (vcpu : VcpuRef) (id : Nat)
  /-- `&vm->arch.vgicd.interrupts[id - GIC_CPU_PRIV]`. -/
  | shared (vm : VmId) (id : Nat)
  deriving DecidableEq, Repr

/-- `interrupt->id`. -/
def IntRef.id : IntRef → Nat
  | .priv _ id => id
  | .shared _ id => id

/-- `struct vgic_int`. The first byte of the union of the GICv2 build is `targets`, and `sgi.act` of
an SGI; `route` and `phys`, a union as well, belong to the GICv3 build. -/
structure VgicInt where
  owner : Option VcpuRef
  route : BitVec 64
  phys : BitVec 64
  state : IntState
  prio : BitVec 8
  cfg : BitVec 8
  lr : Nat
  targets : BitVec 8
  sgiPend : BitVec 8
  hw : Bool
  inLr : Bool
  enabled : Bool
  deriving DecidableEq

/-- The fields of a list register. `holds` is not in the hardware: the interrupt that `vgic_write_lr`
wrote the register for. -/
structure ListReg where
  vid : Nat
  pid : Nat
  cpuid : Nat
  prio : BitVec 8
  state : IntState
  hw : Bool
  eoi : Bool
  holds : Option IntRef
  deriving DecidableEq

/-- The list register with the value 0. -/
def ListReg.zero : ListReg where
  vid := 0
  pid := 0
  cpuid := 0
  prio := 0
  state := .inv
  hw := false
  eoi := false
  holds := none

@[simp] theorem ListReg.zero_state : zero.state = .inv := rfl
@[simp] theorem ListReg.zero_eoi : zero.eoi = false := rfl

/-- The bit of the register in `GICH_ELRSR`: it is free to be written. -/
def ListReg.elrsr (lr : ListReg) : Bool := lr.state = .inv && (lr.hw || !lr.eoi)

/-- The bit of the register in `GICH_EISR`: the guest has completed an interrupt whose end was to be
told. -/
def ListReg.eisr (lr : ListReg) : Bool := lr.state = .inv && !lr.hw && lr.eoi

/-- The bits of `GICH_HCR` the code uses. -/
structure GichHcr where
  en : Bool
  uie : Bool
  lrenpie : Bool
  npie : Bool
  eoiCount : BitVec 5
  deriving DecidableEq

/-- The hypervisor control interface of a pCPU. -/
structure Gich where
  hcr : GichHcr
  lr : Nat → ListReg

/-- Where the registers of a physical interrupt are: in the distributor, or in the redistributor or
bank of a pCPU. -/
inductive PhysRef
  | gicd (id : Nat)
  | gicr (id : Nat) (gicrId : Nat)
  deriving DecidableEq

/-- What the code sets for a physical interrupt. -/
structure PhysInt where
  enable : Bool
  pend : Bool
  act : Bool
  cfg : BitVec 8
  prio : BitVec 8
  trgt : BitVec 8
  route : BitVec 64
  deriving DecidableEq

/-- The head of a list of spilled interrupts: `vcpu->arch.vgic_spilled` or `vm->arch.vgic_spilled`. -/
inductive SpilledHead
  | vcpu (vcpu : VcpuRef)
  | vm (vm : VmId)
  deriving DecidableEq

/-- The state of the virtual interrupt controllers of all VMs, the list registers and the physical
interrupts they work on, and the messages between pCPUs. `sent` is not in the source: the messages sent
so far, with their targets. -/
structure VgicState where
  ints : IntRef → VgicInt
  links : Links (ListPtr SpilledHead IntRef)
  currLrs : VcpuRef → Nat → Nat
  ctlr : VmId → BitVec 32
  gich : PCpuId → Gich
  gic : PhysRef → PhysInt
  msgs : MsgState
  sent : List (PCpuId × CpuMsg)

/-- What a build and its `config` fix: `GIC_VERSION`, `NUM_LRS`, the `int_num` that `vgic_init`
computes and the vCPUs of each VM, `platform.cpu_num`, the physical and virtual affinities, the
messages and `VGIC_IPI_ID`. -/
structure VgicConfig where
  version : GicVersion
  numLrs : Nat
  numLrs_pos : 0 < numLrs
  intNum : VmId → Nat
  intNum_le : ∀ vm, intNum vm ≤ 1024
  nrCpus : VmId → Nat
  cpuNum : Nat
  mpidr : PCpuId → BitVec 64
  vmpidr : VcpuRef → BitVec 64
  msg : MsgConfig
  vgicIpiId : BitVec 32

private theorem twoVcpus_intNum_le (_ : VmId) : 64 ≤ 1024 := by decide

/-- Two pCPUs, and VMs with two vCPUs and 64 interrupts each. -/
def twoVcpus (version : GicVersion) (numLrs : Nat) (numLrs_pos : 0 < numLrs) : VgicConfig where
  version := version
  numLrs := numLrs
  numLrs_pos := numLrs_pos
  intNum _ := 64
  intNum_le := twoVcpus_intNum_le
  nrCpus _ := 2
  cpuNum := 2
  mpidr c := BitVec.ofNat 64 c
  vmpidr vcpu := BitVec.ofNat 64 vcpu.idx
  msg := twoCpus
  vgicIpiId := 0

/-- A pCPU that executes the code, and what it finds in the structures of the other components:
`cpu()->id`, `cpu()->vcpu`, the `p_id` of each vCPU, the `master` and `cpus` of each VM. -/
structure VgicEnv where
  cfg : VgicConfig
  self : PCpuId
  current : VcpuRef
  pId : VcpuRef → PCpuId
  master : VmId → PCpuId
  cpus : VmId → BitVec 64

/-- The view of pCPU `c` where it runs `current`, and each vCPU is on the pCPU with its number. -/
def twoVcpusOn (cfg : VgicConfig) (c : PCpuId) (current : VcpuRef) : VgicEnv where
  cfg := cfg
  self := c
  current := current
  pId vcpu := vcpu.idx
  master _ := 0
  cpus _ := 0

namespace VgicState

variable (s : VgicState)

/-- A store to fields of the interrupt `i`. -/
def modifyInt (i : IntRef) (f : VgicInt → VgicInt) : VgicState :=
  { s with ints := update s.ints i (f (s.ints i)) }

/-- A store to `GICH_HCR` of pCPU `c`. -/
def setHcr (c : PCpuId) (hcr : GichHcr) : VgicState :=
  { s with gich := update s.gich c { s.gich c with hcr := hcr } }

/-- `gich_write_lr` on pCPU `c`. -/
def writeLr (c : PCpuId) (n : Nat) (lr : ListReg) : VgicState :=
  { s with gich := update s.gich c { s.gich c with lr := update (s.gich c).lr n lr } }

/-- A store to the registers of a physical interrupt. -/
def modifyGic (p : PhysRef) (f : PhysInt → PhysInt) : VgicState :=
  { s with gic := update s.gic p (f (s.gic p)) }

/-- `GICH_HCR` of pCPU `c`. -/
def hcr (c : PCpuId) : GichHcr := (s.gich c).hcr

/-- The list registers of pCPU `c`. -/
def lr (c : PCpuId) : Nat → ListReg := (s.gich c).lr

variable {s} {c d : PCpuId} {n : Nat} {r : ListReg} {h : GichHcr} {i j : IntRef}
  {f : VgicInt → VgicInt} {p : PhysRef} {g : PhysInt → PhysInt}

@[simp] theorem modifyInt_ints : (s.modifyInt i f).ints = update s.ints i (f (s.ints i)) := rfl
@[simp] theorem modifyInt_links : (s.modifyInt i f).links = s.links := rfl
@[simp] theorem modifyInt_currLrs : (s.modifyInt i f).currLrs = s.currLrs := rfl
@[simp] theorem modifyInt_lr : (s.modifyInt i f).lr = s.lr := rfl
@[simp] theorem modifyInt_hcr : (s.modifyInt i f).hcr = s.hcr := rfl
@[simp] theorem modifyInt_msgs : (s.modifyInt i f).msgs = s.msgs := rfl
@[simp] theorem modifyInt_sent : (s.modifyInt i f).sent = s.sent := rfl

@[simp] theorem setHcr_ints : (s.setHcr c h).ints = s.ints := rfl
@[simp] theorem setHcr_links : (s.setHcr c h).links = s.links := rfl
@[simp] theorem setHcr_currLrs : (s.setHcr c h).currLrs = s.currLrs := rfl
@[simp] theorem setHcr_msgs : (s.setHcr c h).msgs = s.msgs := rfl
@[simp] theorem setHcr_sent : (s.setHcr c h).sent = s.sent := rfl

@[simp] theorem setHcr_lr : (s.setHcr c h).lr = s.lr := by
  funext d
  unfold VgicState.lr setHcr
  by_cases hd : d = c
  · subst hd
    simp
  · simp [hd]

@[simp] theorem modifyGic_ints : (s.modifyGic p g).ints = s.ints := rfl
@[simp] theorem modifyGic_links : (s.modifyGic p g).links = s.links := rfl
@[simp] theorem modifyGic_currLrs : (s.modifyGic p g).currLrs = s.currLrs := rfl
@[simp] theorem modifyGic_lr : (s.modifyGic p g).lr = s.lr := rfl
@[simp] theorem modifyGic_hcr : (s.modifyGic p g).hcr = s.hcr := rfl
@[simp] theorem modifyGic_msgs : (s.modifyGic p g).msgs = s.msgs := rfl
@[simp] theorem modifyGic_sent : (s.modifyGic p g).sent = s.sent := rfl

@[simp] theorem writeLr_ints : (s.writeLr c n r).ints = s.ints := rfl
@[simp] theorem writeLr_links : (s.writeLr c n r).links = s.links := rfl
@[simp] theorem writeLr_currLrs : (s.writeLr c n r).currLrs = s.currLrs := rfl
@[simp] theorem writeLr_msgs : (s.writeLr c n r).msgs = s.msgs := rfl
@[simp] theorem writeLr_sent : (s.writeLr c n r).sent = s.sent := rfl

@[simp] theorem writeLr_lr : (s.writeLr c n r).lr = update s.lr c (update (s.lr c) n r) := by
  funext d
  unfold VgicState.lr writeLr
  by_cases hd : d = c
  · subst hd
    simp
  · simp [hd]

end VgicState

/-- `vgic_get_int`; the pointer it computes from a vCPU that does not exist is not followed. -/
def vgicGetInt (E : VgicEnv) (vcpu : VcpuRef) (intId vgicrId : Nat) : Option IntRef :=
  if intId < gicCpuPriv then
    if vgicrId = vcpu.idx then some (.priv vcpu intId)
    else if vgicrId < E.cfg.nrCpus vcpu.vm then some (.priv ⟨vcpu.vm, vgicrId⟩ intId) else none
  else if intId < E.cfg.intNum vcpu.vm then some (.shared vcpu.vm intId)
  else none

theorem vgicGetInt_id {E : VgicEnv} {vcpu : VcpuRef} {intId vgicrId : Nat} {i : IntRef}
    (h : vgicGetInt E vcpu intId vgicrId = some i) : i.id = intId := by
  unfold vgicGetInt at h
  split at h
  · split at h
    · cases h
      rfl
    · split at h
      · cases h
        rfl
      · cases h
  · split at h
    · cases h
      rfl
    · cases h

end Avisor
