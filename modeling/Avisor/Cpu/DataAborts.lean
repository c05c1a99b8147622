import Avisor.Lcm.Handlers
import Avisor.Vgic.Emulation
import Avisor.Vgic.Machine

/-!
# Data aborts of a guest

`aborts_data_lower` over physical memory, in which the `struct vcpu`s lie as well. An access that a region of the
VM's list takes is emulated; any other is made by the pCPU itself. EL2 runs without translation, so it is made at
the physical address equal to the address that the guest used. The structures of the interrupt controllers, on
which the emulation works, are kept apart from the memory.
-/

namespace Avisor

open Memory

/-! ### The regions that are emulated -/

/-- The functions that are an `emul_handler_t` of a `struct emul_mem`. -/
inductive EmulMemHandler
  | vgicdEmulHandler
  | vgicrEmulHandler
  deriving DecidableEq

/-- `struct emul_mem`. -/
structure EmulMem where
  vaBase : BitVec 64
  size : BitVec 64
  handler : EmulMemHandler

/-- The regions that `vgic_init` adds to the list of a VM. -/
def vgicEmulMemList (version : GicVersion) (gicdAddr gicrAddr : BitVec 64) (nrCpus : Nat) : List EmulMem :=
  let vgicdEmul : EmulMem := ⟨gicdAddr, 0x10000, .vgicdEmulHandler⟩
  match version with
  | .v2 => [vgicdEmul]
  | .v3 => [vgicdEmul, ⟨gicrAddr, 0x20000 * BitVec.ofNat 64 nrCpus, .vgicrEmulHandler⟩]

/-- `vm_emul_get_mem`, with the list of the VM. -/
def vmEmulGetMem (emulMemList : List EmulMem) (addr : BitVec 64) : Option EmulMemHandler :=
  (emulMemList.find? fun emu => emu.vaBase ≤ addr && addr < emu.vaBase + emu.size).map (·.handler)

/-! ### The machine -/

/-- A range of physical memory. -/
structure PhysRegion where
  base : Nat
  size : Nat

/-- The bytes of a range. -/
def PhysRegion.bytes (r : PhysRegion) : Set Nat := {b | r.base ≤ b ∧ b < r.base + r.size}

/-- What the handling of an abort finds: the interrupt controller of the pCPU and the vCPU it runs, the lists of
the emulated regions, the addresses of the `struct vcpu`s, and the physical memory that the configuration gives
each VM. -/
structure AbortEnv where
  vgic : VgicEnv
  emulRegs : EmulRegs
  emulMemList : VmId → List EmulMem
  vcpuAddr : VcpuRef → Nat
  given : VmId → List PhysRegion

/-- Physical memory, and the virtual interrupt controllers. -/
structure AbortState where
  mem : Memory
  vgic : VgicState

/-- An access of the hypervisor at an address of the guest. -/
structure PhysAccess where
  region : PhysRegion
  write : Bool

/-- What is left behind an abort. `direct` is not in the source: the accesses made for the guest. -/
structure Aborted where
  state : AbortState
  direct : List PhysAccess

namespace AbortEnv

variable (A : AbortEnv)

/-- `cpu()->vcpu`. -/
def vcpu : Nat := A.vcpuAddr A.vgic.current

/-- The registers of `cpu()->vcpu`. -/
def ownRegs : Set Nat := (PhysRegion.mk (A.vcpu + vcpuRegsOff) sizeofVcpuRegs).bytes

/-- The memory that the configuration gives the VM. -/
def givenBytes : Set Nat := {b | ∃ r ∈ A.given A.vgic.current.vm, b ∈ r.bytes}

end AbortEnv

/-- `vcpu_readreg`. -/
def vcpuReadreg (mem : Memory) (vcpu reg : Nat) : Nat :=
  if reg > 30 then 0 else readLe mem (vcpu + vcpuRegsOff + 8 * reg) 8

/-- `vcpu_readpc`. -/
def vcpuReadpc (mem : Memory) (vcpu : Nat) : Nat :=
  readLe mem (vcpu + vcpuRegsOff + 256) 8

/-! ### The syndrome -/

section

variable (iss : BitVec 64)

/-- `DSFC`. -/
def issDsfc : BitVec 64 := bit64Extract iss 0 6 &&& (0xf <<< 2)

/-- The checks at the start of `aborts_data_lower`: `ESR_ISS_DA_ISV_BIT`, `ESR_ISS_DA_FnV_BIT`, and that it is a
translation or a permission fault. Behind one that fails it loops. -/
def dataAbortChecks : Bool :=
  iss &&& (1 <<< 24) ≠ 0 && iss &&& (1 <<< 10) = 0 && (issDsfc iss = 0x4 || issDsfc iss = 0xc)

/-- `width`. -/
def issWidth : Nat := 2 ^ (bit64Extract iss 22 2).toNat

/-- `write`. -/
def issWrite : Bool := iss &&& (1 <<< 6) ≠ 0

/-- `reg`. -/
def issReg : Nat := (bit64Extract iss 16 5).toNat

/-- `sign_ext`. -/
def issSignExt : Bool := bit64Extract iss 21 1 ≠ 0

end

/-! ### The handler -/

/-- `addr_write`; `none` is the loop of its `ERROR`. -/
def addrWrite (mem : Memory) (addr width : Nat) (val : BitVec 64) : Option Memory :=
  match width with
  | 1 | 2 | 4 | 8 => some (writeLe mem addr width val.toNat)
  | _ => none

/-- `addr_read`; `none` is the loop of its `ERROR`. A byte or a half of a word is an `int` before it becomes the
value, while the types of four bytes meet in the unsigned one. -/
def addrRead (mem : Memory) (addr width : Nat) (signExt : Bool) : Option (BitVec 64) :=
  match width with
  | 1 =>
    let byte := BitVec.ofNat 8 (readLe mem addr 1)
    some (if signExt then byte.signExtend 64 else byte.setWidth 64)
  | 2 =>
    let half := BitVec.ofNat 16 (readLe mem addr 2)
    some (if signExt then half.signExtend 64 else half.setWidth 64)
  | 4 => some ((BitVec.ofNat 32 (readLe mem addr 4)).setWidth 64)
  | 8 => some (BitVec.ofNat 64 (readLe mem addr 8))
  | _ => none

section

variable (A : AbortEnv) (s : AbortState) (iss far il : BitVec 64)

/-- The branch of `aborts_data_lower` without a handler. -/
def directAccess : Option Aborted :=
  let width := issWidth iss
  let access : PhysAccess := ⟨⟨far.toNat, width⟩, issWrite iss⟩
  let mem :=
    if issWrite iss then
      let regVal := BitVec.ofNat 64 (vcpuReadreg s.mem A.vcpu (issReg iss))
      addrWrite s.mem far.toNat width (regVal &&& bitMask 0 (width * 8))
    else
      (addrRead s.mem far.toNat width (issSignExt iss)).map fun val =>
        vcpuWritereg s.mem A.vcpu (issReg iss) val.toNat
  mem.map fun mem => ⟨{ s with mem := mem }, [access]⟩

/-- The `struct emul_access` of the other branch; the handlers read the guest's register where they write. -/
def abortAccess : EmulAccess where
  addr := far
  write := issWrite iss
  width := BitVec.ofNat 64 (issWidth iss)
  val := BitVec.ofNat 64 (vcpuReadreg s.mem A.vcpu (issReg iss))

/-- `handler(&emul)`. -/
def handlerCall (handler : EmulMemHandler) (acc : EmulAccess) : Option (Bool × Accessed) :=
  match handler with
  | .vgicdEmulHandler => vgicdEmulHandler A.vgic s.vgic A.emulRegs acc
  | .vgicrEmulHandler => vgicrEmulHandler A.vgic s.vgic A.emulRegs acc

/-- The branch of `aborts_data_lower` with a handler, of whose result it does not ask. -/
def emulatedAccess (handler : EmulMemHandler) : Option Aborted :=
  (handlerCall A s handler (abortAccess A s iss far)).map fun (_, accessed) =>
    let mem :=
      match accessed.reg with
      | some val => vcpuWritereg s.mem A.vcpu (issReg iss) val.toNat
      | none => s.mem
    ⟨{ mem := mem, vgic := accessed.state }, []⟩

/-- The end of `aborts_data_lower`: the guest goes on behind its instruction. -/
def skipInstruction (r : Aborted) : Aborted :=
  let pcStep := 2 + 2 * il
  let pc := BitVec.ofNat 64 (vcpuReadpc r.state.mem A.vcpu)
  { r with state := { r.state with mem := vcpuWritepc r.state.mem A.vcpu (pc + pcStep).toNat } }

/-- `aborts_data_lower`; `none` where it loops. -/
def abortsDataLower : Option Aborted :=
  if dataAbortChecks iss then
    let access :=
      match vmEmulGetMem (A.emulMemList A.vgic.current.vm) far with
      | none => directAccess A s iss far
      | some handler => emulatedAccess A s iss far handler
    access.map (skipInstruction A il)
  else none

end

/-! ### What an abort may touch -/

/-- The memory that the configuration gives the VM, and the registers of its vCPU. -/
def AbortEnv.own (A : AbortEnv) : Set Nat := A.givenBytes ∪ A.ownRegs

/-- What `f` does for the guest stays with its own: it makes its accesses in the memory that is given, it leaves
all memory alone that is not the guest's own, and what is in that memory makes no difference. -/
structure Isolated (A : AbortEnv) (f : AbortState → Option Aborted) (s : AbortState) : Prop where
  inside : ∀ t, f s = some t → ∀ a ∈ t.direct, a.region.bytes ⊆ A.givenBytes
  frame : ∀ t, f s = some t → Set.EqOn t.state.mem s.mem A.ownᶜ
  reach : ∀ mem, Set.EqOn mem s.mem A.own → ∀ t, f s = some t →
    ∃ t', f { s with mem := mem } = some t' ∧ t'.state.vgic = t.state.vgic ∧
      Set.EqOn t'.state.mem t.state.mem A.own

/-- A region of the VM takes the address. -/
def Emulated (A : AbortEnv) (far : BitVec 64) : Prop :=
  (vmEmulGetMem (A.emulMemList A.vgic.current.vm) far).isSome

instance (A : AbortEnv) (far : BitVec 64) : Decidable (Emulated A far) :=
  inferInstanceAs (Decidable (_ = true))

/-- Every byte of the access is given to the VM. -/
def AccessGiven (A : AbortEnv) (iss far : BitVec 64) : Prop :=
  ∀ i < issWidth iss, far.toNat + i ∈ A.givenBytes

variable {A : AbortEnv} {s : AbortState} {iss far il : BitVec 64} {m m' : Memory} {S : Set Nat} {reg : Nat}

/-! ### The registers of the vCPU -/

theorem reg_mem_ownRegs (hreg : ¬ reg > 30) {i : Nat} (hi : i < 8) :
    A.vcpu + vcpuRegsOff + 8 * reg + i ∈ A.ownRegs := by
  change A.vcpu + vcpuRegsOff ≤ _ ∧ _ < A.vcpu + vcpuRegsOff + sizeofVcpuRegs
  simp only [sizeofVcpuRegs]
  omega

theorem pc_mem_ownRegs {i : Nat} (hi : i < 8) : A.vcpu + vcpuRegsOff + 256 + i ∈ A.ownRegs := by
  change A.vcpu + vcpuRegsOff ≤ _ ∧ _ < A.vcpu + vcpuRegsOff + sizeofVcpuRegs
  simp only [sizeofVcpuRegs]
  omega

theorem ownRegs_subset : A.ownRegs ⊆ A.own := Set.subset_union_right

theorem vcpuReadreg_congr (h : Set.EqOn m m' A.own) (reg : Nat) :
    vcpuReadreg m A.vcpu reg = vcpuReadreg m' A.vcpu reg := by
  unfold vcpuReadreg
  split
  · rfl
  · rename_i hreg
    exact readLe_eq_of_eqOn h fun i hi => ownRegs_subset (reg_mem_ownRegs hreg hi)

theorem vcpuReadpc_congr (h : Set.EqOn m m' A.own) : vcpuReadpc m A.vcpu = vcpuReadpc m' A.vcpu :=
  readLe_eq_of_eqOn h fun _ hi => ownRegs_subset (pc_mem_ownRegs hi)

theorem vcpuWritereg_congr (h : Set.EqOn m m' S) (vcpu reg val : Nat) :
    Set.EqOn (vcpuWritereg m vcpu reg val) (vcpuWritereg m' vcpu reg val) S := by
  unfold vcpuWritereg
  split
  · exact h
  · exact eqOn_writeLe h

theorem vcpuWritereg_frame (m : Memory) (reg val : Nat) :
    Set.EqOn (vcpuWritereg m A.vcpu reg val) m A.ownᶜ := by
  unfold vcpuWritereg
  split
  · exact Set.eqOn_refl m _
  · rename_i hreg
    exact writeLe_eqOn_compl fun i hi => ownRegs_subset (reg_mem_ownRegs hreg hi)

/-! ### The branches -/

theorem issWidth_cases (iss : BitVec 64) :
    issWidth iss = 1 ∨ issWidth iss = 2 ∨ issWidth iss = 4 ∨ issWidth iss = 8 := by
  have hfield : (bit64Extract iss 22 2).toNat ≤ 3 := by
    rw [bit64Extract, BitVec.toNat_and]
    exact Nat.and_le_right
  have hcases : (bit64Extract iss 22 2).toNat = 0 ∨ (bit64Extract iss 22 2).toNat = 1 ∨
      (bit64Extract iss 22 2).toNat = 2 ∨ (bit64Extract iss 22 2).toNat = 3 := by omega
  unfold issWidth
  obtain h | h | h | h := hcases <;> rw [h] <;> simp

theorem addrWrite_eq (mem : Memory) (addr : Nat) (iss val : BitVec 64) :
    addrWrite mem addr (issWidth iss) val = some (writeLe mem addr (issWidth iss) val.toNat) := by
  obtain h | h | h | h := issWidth_cases iss <;> rw [h] <;> rfl

theorem addrRead_isSome (mem : Memory) (addr : Nat) (iss : BitVec 64) (signExt : Bool) :
    (addrRead mem addr (issWidth iss) signExt).isSome := by
  obtain h | h | h | h := issWidth_cases iss <;> rw [h] <;> rfl

theorem addrRead_congr {addr width : Nat} (h : readLe m addr width = readLe m' addr width) (signExt : Bool) :
    addrRead m addr width signExt = addrRead m' addr width signExt := by
  unfold addrRead
  split <;> simp only [h]

/-- Without a handler there is one access, at the address of the fault. -/
theorem directAccess_some (A : AbortEnv) (s : AbortState) (iss far : BitVec 64) :
    ∃ t, directAccess A s iss far = some t ∧
      t.direct = [⟨⟨far.toNat, issWidth iss⟩, issWrite iss⟩] := by
  unfold directAccess
  cases issWrite iss with
  | true =>
    simp only [if_true, addrWrite_eq, Option.map_some]
    exact ⟨_, rfl, rfl⟩
  | false =>
    obtain ⟨val, hval⟩ := Option.isSome_iff_exists.mp (addrRead_isSome s.mem far.toNat iss (issSignExt iss))
    simp only [Bool.false_eq_true, if_false, hval, Option.map_some]
    exact ⟨_, rfl, rfl⟩

/-- The bytes of an access that is given to the VM. -/
theorem AccessGiven.bytes_subset (h : AccessGiven A iss far) :
    (PhysRegion.mk far.toNat (issWidth iss)).bytes ⊆ A.givenBytes := by
  intro b hb
  obtain ⟨hle, hlt⟩ := hb
  have hbyte := h (b - far.toNat) (by dsimp only at hle hlt; omega)
  rwa [Nat.add_sub_cancel' hle] at hbyte

theorem directAccess_isolated (h : AccessGiven A iss far) : Isolated A (directAccess A · iss far) s := by
  have hown : ∀ i < issWidth iss, far.toNat + i ∈ A.own := fun i hi => Set.subset_union_left (h i hi)
  constructor
  · intro t ht a ha
    obtain ⟨t', ht', hdirect⟩ := directAccess_some A s iss far
    cases ht'.symm.trans ht
    rw [hdirect, List.mem_singleton] at ha
    subst ha
    exact h.bytes_subset
  · intro t ht
    unfold directAccess at ht
    cases hwrite : issWrite iss with
    | true =>
      simp only [hwrite, if_true, addrWrite_eq, Option.map_some, Option.some.injEq] at ht
      subst ht
      exact writeLe_eqOn_compl hown
    | false =>
      simp only [hwrite, Bool.false_eq_true, if_false, Option.map_map, Option.map_eq_some_iff] at ht
      obtain ⟨val, -, rfl⟩ := ht
      exact vcpuWritereg_frame s.mem (issReg iss) val.toNat
  · intro mem hmem t ht
    unfold directAccess at ht ⊢
    cases hwrite : issWrite iss with
    | true =>
      simp only [hwrite, if_true, addrWrite_eq, Option.map_some, Option.some.injEq] at ht ⊢
      subst ht
      refine ⟨_, rfl, rfl, ?_⟩
      rw [vcpuReadreg_congr hmem]
      exact eqOn_writeLe hmem
    | false =>
      have hread := addrRead_congr (readLe_eq_of_eqOn hmem hown) (issSignExt iss)
      simp only [hwrite, Bool.false_eq_true, if_false, hread, Option.map_map, Option.map_eq_some_iff] at ht ⊢
      obtain ⟨val, hval, rfl⟩ := ht
      exact ⟨_, ⟨val, hval, rfl⟩, rfl, vcpuWritereg_congr hmem _ _ _⟩

theorem emulatedAccess_isolated (handler : EmulMemHandler) :
    Isolated A (emulatedAccess A · iss far handler) s := by
  constructor
  · intro t ht a ha
    obtain ⟨r, -, rfl⟩ := Option.map_eq_some_iff.mp ht
    exact absurd ha List.not_mem_nil
  · intro t ht
    obtain ⟨⟨_, accessed⟩, -, rfl⟩ := Option.map_eq_some_iff.mp ht
    dsimp only
    split
    · exact vcpuWritereg_frame s.mem (issReg iss) _
    · exact Set.eqOn_refl s.mem _
  · intro mem hmem t ht
    have hacc : abortAccess A { s with mem := mem } iss far = abortAccess A s iss far := by
      unfold abortAccess
      rw [vcpuReadreg_congr hmem]
    obtain ⟨⟨took, accessed⟩, hcall, rfl⟩ := Option.map_eq_some_iff.mp ht
    refine ⟨_, Option.map_eq_some_iff.mpr ⟨(took, accessed), ?_, rfl⟩, rfl, ?_⟩
    · rw [hacc]
      exact hcall
    · dsimp only
      split
      · exact vcpuWritereg_congr hmem _ _ _
      · exact hmem

/-- Behind an access that stays with the guest's own, so does the step to the next instruction. -/
theorem Isolated.skip {f : AbortState → Option Aborted} (h : Isolated A f s) :
    Isolated A (fun s => (f s).map (skipInstruction A il)) s := by
  constructor
  · intro t ht
    obtain ⟨r, hr, rfl⟩ := Option.map_eq_some_iff.mp ht
    exact h.inside r hr
  · intro t ht
    obtain ⟨r, hr, rfl⟩ := Option.map_eq_some_iff.mp ht
    have hpc : Set.EqOn (skipInstruction A il r).state.mem r.state.mem A.ownᶜ :=
      writeLe_eqOn_compl fun i hi => ownRegs_subset (pc_mem_ownRegs hi)
    exact hpc.trans (h.frame r hr)
  · intro mem hmem t ht
    obtain ⟨r, hr, rfl⟩ := Option.map_eq_some_iff.mp ht
    obtain ⟨r', hr', hvgic, hmem'⟩ := h.reach mem hmem r hr
    refine ⟨_, Option.map_eq_some_iff.mpr ⟨r', hr', rfl⟩, hvgic, ?_⟩
    unfold skipInstruction
    dsimp only
    rw [vcpuReadpc_congr hmem']
    exact eqOn_writeLe hmem'

theorem abortsDataLower_eq (hchecks : dataAbortChecks iss = true) :
    abortsDataLower A s iss far il = (match vmEmulGetMem (A.emulMemList A.vgic.current.vm) far with
      | none => directAccess A s iss far
      | some handler => emulatedAccess A s iss far handler).map (skipInstruction A il) :=
  if_pos hchecks

/-- An access that is not emulated shows the address of its fault. -/
theorem AccessGiven.of_isolated (hchecks : dataAbortChecks iss = true) (hemulated : ¬ Emulated A far)
    (h : Isolated A (abortsDataLower A · iss far il) s) : AccessGiven A iss far := by
  have hget : vmEmulGetMem (A.emulMemList A.vgic.current.vm) far = none :=
    Option.not_isSome_iff_eq_none.mp hemulated
  obtain ⟨t, ht, hdirect⟩ := directAccess_some A s iss far
  have hrun : abortsDataLower A s iss far il = some (skipInstruction A il t) := by
    rw [abortsDataLower_eq hchecks, hget]
    exact congrArg _ ht
  have hbytes := h.inside _ hrun ⟨⟨far.toNat, issWidth iss⟩, issWrite iss⟩ (hdirect ▸ List.mem_singleton_self _)
  intro i hi
  exact hbytes ⟨Nat.le_add_right _ _, Nat.add_lt_add_left hi _⟩

/-- A pCPU in a guest that has its image and its first device, with the regions of its interrupt controller. -/
def oneGuest : AbortEnv where
  vgic := twoVcpusOn (twoVcpus .v3 2 Nat.two_pos) 0 ⟨0, 0⟩
  emulRegs := ⟨fun _ => 0, fun _ => 0, fun _ => 0, fun _ => 0, fun _ _ => 0, fun _ => 0x080a0000⟩
  emulMemList _ := vgicEmulMemList .v3 0x08000000 0x080a0000 2
  vcpuAddr vcpu := 0x50100000 + 0x1000 * vcpu.idx
  given _ := [⟨0x50200000, 0x8200000⟩, ⟨0x1c0b0000, 0x10000⟩]

/-- The memory is clear, and the interrupt controllers are as they are behind boot. -/
def clearState : AbortState := ⟨fun _ => 0, vgicAtBoot .v3⟩

end Avisor
