import Avisor.Data.String
import Avisor.Gic.Initialisation
import Avisor.Irq.Assignment
import Avisor.Lcm.Handlers
import Avisor.Mem.RequestQueues
import Avisor.Mem.Roots

/-!
# VMs and their memory

What `vmm_init` does for the memory of the VMs, one after the other: `vmm_alloc_vm`, and of `vm_init` the calls of
`as_init`, `vgic_init`, `vm_init_mem_regions` and `vm_init_dev`, without what these store to the structures of the VM.
The bytes of the memory are those of its words. `none` stands for a call that ends in `ERROR` or does not come back.
-/

namespace Avisor

open Function Memory

/-! ### The bytes of words -/

namespace MmuState

/-- The bytes of the words, the low one first. -/
def bytes (s : MmuState) : Memory := fun p => ((s.words (p / 8 * 8)) >>> (8 * (p % 8))).setWidth 8

/-- The memory whose words have the bytes `m`. -/
def withBytes (s : MmuState) (m : Memory) : MmuState :=
  { s with words := fun p => if p % 8 = 0 then BitVec.ofNat 64 (readLe m p 8) else s.words p }

/-- `memcpy` in the memory. -/
def memcpy (s : MmuState) (dst src count : Nat) : MmuState := s.withBytes (Avisor.memcpy s.bytes dst src count)

/-- A byte is stored. -/
def storeByte (s : MmuState) (p : Nat) (b : BitVec 8) : MmuState := s.withBytes (update s.bytes p b)

variable (s : MmuState) (m : Memory)

@[simp] theorem withBytes_pool : (s.withBytes m).pool = s.pool := rfl

@[simp] theorem withBytes_poolLocked : (s.withBytes m).poolLocked = s.poolLocked := rfl

@[simp] theorem withBytes_wild : (s.withBytes m).wild = s.wild := rfl

variable {s m} {p : Nat}

theorem bytes_eq (hp : p % 8 = 0) {i : Nat} (hi : i < 8) :
    s.bytes (p + i) = BitVec.ofNat 8 ((s.words p).toNat / 256 ^ i) := by
  have hword : (p + i) / 8 * 8 = p := by omega
  have hoffset : (p + i) % 8 = i := by omega
  have hpow : 256 ^ i = 2 ^ (8 * i) := by rw [Nat.pow_mul]
  unfold bytes
  rw [hword, hoffset, hpow, ← Nat.shiftRight_eq_div_pow]
  apply BitVec.eq_of_toNat_eq
  rw [BitVec.toNat_setWidth, BitVec.toNat_ushiftRight, BitVec.toNat_ofNat]

/-- The bytes behind a store are those that were stored. -/
theorem bytes_withBytes (s : MmuState) (m : Memory) : (s.withBytes m).bytes = m := by
  funext p
  have hp : p = p / 8 * 8 + p % 8 := by omega
  have hlt : p % 8 < 8 := Nat.mod_lt _ (by decide)
  have hword : (s.withBytes m).words (p / 8 * 8) = BitVec.ofNat 64 (readLe m (p / 8 * 8) 8) :=
    if_pos (Nat.mul_mod_left ..)
  have hsmall : readLe m (p / 8 * 8) 8 < 2 ^ 64 := readLe_lt m _ 8
  conv_lhs => rw [hp]
  rw [bytes_eq (Nat.mul_mod_left ..) hlt, hword, BitVec.toNat_ofNat, Nat.mod_eq_of_lt hsmall, ofNat_readLe m _ 8 _ hlt,
    ← hp]

/-- A word whose bytes stay is the same word. -/
theorem words_withBytes (h : p % 8 = 0 → ∀ i < 8, m (p + i) = s.bytes (p + i)) :
    (s.withBytes m).words p = s.words p := by
  by_cases hp : p % 8 = 0
  · refine (if_pos hp).trans ?_
    rw [readLe_of_bytes fun i hi => (h hp i hi).trans (bytes_eq hp hi)]
    apply BitVec.eq_of_toNat_eq
    rw [BitVec.toNat_ofNat, Nat.mod_mod_of_dvd _ (by decide), Nat.mod_eq_of_lt (s.words p).isLt]
  · exact if_neg hp

/-- Bytes that differ are in words that differ. -/
theorem words_ne_of_bytes {s t : MmuState} (h : t.bytes p ≠ s.bytes p) : t.words (p / 8 * 8) ≠ s.words (p / 8 * 8) := by
  intro heq
  apply h
  unfold bytes
  rw [heq]

end MmuState

/-! ### The configuration -/

/-- `struct vm_dev_region`. -/
structure VmDevRegion where
  id : Nat
  pa : Nat
  va : Nat
  size : Nat
  interrupts : List Nat

/-- The fields of `struct vgic_dscrp` that `vgic_init` looks at for the memory. -/
structure VgicDscrp where
  giccAddr : Nat
  interruptNum : Nat

/-- The fields of `struct vm_config` that the memory of the VM comes from. -/
structure VmMemoryConfig extends VmConfig where
  nrCpus : Nat
  devs : List VmDevRegion
  gic : VgicDscrp

/-- `struct dtb_config`. -/
structure DtbConfig where
  baseAddr : Nat
  loadAddr : Nat
  size : Nat

/-- What the functions find: the two page table descriptors, `config.dtb`, what the tables of EL1 say during boot, the
distributor, `platform.arch.gic.gicv_addr`, and `sizeof` of the structures. -/
structure VmPlatform where
  hypPtDscr : PtDscr
  vmPtDscr : PtDscr
  dtb : DtbConfig
  stage1 : Nat → Option Nat
  sizeofVm : Nat
  sizeofVcpu : Nat
  alignofVcpu : Nat
  gicVersion : GicVersion
  gicd : GicdHw
  gicvAddr : Nat
  sizeofGicc : Nat
  sizeofVgicInt : Nat

/-- `struct vm_allocation`. -/
structure VmAllocation where
  base : Nat
  size : Nat
  vm : Nat
  vcpus : Nat

/-! ### The functions -/

section

variable (v : VmPlatform)

/-- `vmm_alloc_vm`. -/
def vmmAllocVm (config : VmMemoryConfig) (s : MmuState) : Option (VmAllocation × MmuState) :=
  let vcpusOffset := align v.sizeofVm v.alignofVcpu
  let totalSize := align ((vcpusOffset + config.nrCpus * v.sizeofVcpu) % sizeT) pageSize
  (memAllocPage s (numPages totalSize) false).bind fun (allocation, s) =>
    if allocation = 0 then none
    else some (⟨allocation, totalSize, allocation, allocation + vcpusOffset⟩,
      s.withBytes (memset s.bytes allocation 0 totalSize))

/-- `vgic_get_itln`. -/
def vgicGetItln (dscrp : VgicDscrp) : Nat :=
  -- `GIC_MAX_PPIS`
  if 16 < dscrp.interruptNum then (align dscrp.interruptNum 32 / 32 + (sizeT - 1)) % sizeT &&& (bit32Mask 0 5).toNat
  else v.gicd.itLinesNumber

/-- `vgic_int_size` of `vgic_init`. -/
def vgicIntSize (dscrp : VgicDscrp) : Nat := 32 * (vgicGetItln v dscrp + 1) * v.sizeofVgicInt

/-- `vgic_init`; the address that `mem_alloc_map_dev` returns is not looked at. -/
def vgicInit (as : AddrSpace) (dscrp : VgicDscrp) (s : MmuState) : Option MmuState :=
  (match v.gicVersion with
    | .v2 => (memAllocMapDev as s dscrp.giccAddr v.gicvAddr (numPages v.sizeofGicc)).map Prod.snd
    | .v3 => some s).bind fun s =>
      (memAllocPage s (numPages (vgicIntSize v dscrp)) false).bind fun (interrupts, s) =>
        if interrupts = 0 then none else some s

/-- A region of `vm_init_mem_regions`: its pages are mapped, and its image is copied there. -/
def vmInitMemRegion (as : AddrSpace) (baseAddr loadAddr size nrPages : Nat) (s : MmuState) : Option MmuState :=
  (memAllocMap as s none baseAddr nrPages pteVmFlags).bind fun (va, s) =>
    if va ≠ baseAddr then none
    else (memTranslate v.stage1 s.words as.pt va).map fun pa => s.memcpy pa loadAddr size

/-- `vm_init_mem_regions`. -/
def vmInitMemRegions (as : AddrSpace) (config : VmMemoryConfig) (s : MmuState) : Option MmuState :=
  (vmInitMemRegion v as config.baseAddr config.loadAddr config.size
    (numPages (config.memSize % sizeT)) s).bind fun s =>
      vmInitMemRegion v as v.dtb.baseAddr v.dtb.loadAddr v.dtb.size (numPages v.dtb.size) s

/-- The memory and the interrupts. -/
structure BootState where
  mem : MmuState
  irq : IrqState

/-- One device of `vm_init_dev`; the address that `mem_alloc_map_dev` returns is not looked at. -/
def vmInitDevRegion (as : AddrSpace) (vm : VmId) (s : BootState) (dev : VmDevRegion) : Option BootState :=
  (if dev.va ≠ invalidVa then (memAllocMapDev as s.mem dev.va dev.pa (numPages dev.size)).map Prod.snd
    else some s.mem).bind fun mem =>
      (dev.interrupts.foldlM (fun irq id => interruptsVmAssign irq vm id) s.irq).map fun irq => ⟨mem, irq⟩

/-- `vm_init_dev` of a build without IOMMU, where `io_vm_init` and `io_vm_add_device` return `true`. -/
def vmInitDev (as : AddrSpace) (vm : VmId) (config : VmMemoryConfig) (s : BootState) : Option BootState :=
  config.devs.foldlM (vmInitDevRegion as vm) s

/-- `vm_init`, as far as the memory and the interrupts go; the address space is that of the VM. -/
def vmInitMemory (vm : VmId) (config : VmMemoryConfig) (s : BootState) : Option (AddrSpace × BootState) :=
  (asInit v.hypPtDscr v.vmPtDscr .vm none s.mem).bind fun (as, mem) =>
    (vgicInit v as config.gic mem).bind fun mem =>
      (vmInitMemRegions v as config mem).bind fun mem =>
        (vmInitDev as vm config { s with mem := mem }).map fun s => (as, s)

/-- The loop of `vmm_init` over the VMs from the number `vm` on, with their address spaces. -/
def vmmInitVms : VmId → List VmMemoryConfig → BootState → Option (List AddrSpace × BootState)
  | _, [], s => some ([], s)
  | vm, config :: configs, s =>
    (vmmAllocVm v config s.mem).bind fun (_, mem) =>
      (vmInitMemory v vm config { s with mem := mem }).bind fun (as, s) =>
        (vmmInitVms (vm + 1) configs s).map fun (spaces, s) => (as :: spaces, s)

end

end Avisor
