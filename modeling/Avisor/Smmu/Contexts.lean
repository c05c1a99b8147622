import Avisor.Smmu.StreamMatch

/-!
# Contexts of the VMs

`arch/aarch64/iommu.c` for an SMMUv2. The `ctx_id` of a VM is a `size_t`, so the `-1` that stands for "no
context yet" is not below 0, and no context bank is ever allocated.
-/

namespace Avisor

open Function

/-- What `struct vm` holds for its `iommu`. -/
structure IommuVm where
  id : BitVec 64
  root : BitVec 64
  globalMask : BitVec 32
  ctxId : Nat
  deriving DecidableEq, Repr

structure SmmuGroup where
  mask : BitVec 32
  id : BitVec 32
  deriving DecidableEq, Repr

/-- The `smmu` of a `struct vm_config`. -/
structure SmmuVmConfig where
  globalMask : BitVec 32
  groups : List SmmuGroup
  deriving DecidableEq, Repr

/-- The SMMU and the VMs, by their number. -/
structure IommuState where
  smmu : Smmu
  vms : Nat → IommuVm

/-- `parange` and `platform.arch.smmu.global_mask`. -/
structure IommuPlatform where
  parange : Nat
  globalMask : BitVec 32

variable (p : IommuPlatform)

/-- `iommu_vm_arch_init_ctx`. -/
def iommuVmArchInitCtx (x : IommuState) (vm : Nat) : Option (Nat × IommuState) :=
  let ctxId := (x.vms vm).ctxId
  if ctxId < 0 then
    let (ctxId, smmu) := smmuAllocCtxbnk x.smmu
    if 0 ≤ ctxId then
      (smmuWriteCtxbnk p.parange smmu ctxId (x.vms vm).root (x.vms vm).id).map fun smmu =>
        (ctxId, { smmu := smmu, vms := update x.vms vm { x.vms vm with ctxId := ctxId } })
    else some (ctxId, { x with smmu := smmu })
  else some (ctxId, x)

/-- `iommu_vm_arch_add`. -/
def iommuVmArchAdd (x : IommuState) (vm : Nat) (mask id : BitVec 32) : Option (Bool × IommuState) :=
  (iommuVmArchInitCtx p x vm).bind fun (vmCtx, x) =>
    let prepMask := (mask &&& smmuIdMsk) ||| (x.vms vm).globalMask
    let prepId := id &&& smmuIdMsk
    let group := decide (mask ≠ 0)
    if vmCtx < 0 then some (false, x)
    else
      (smmuCompatibleSmeExists x.smmu prepMask prepId vmCtx group).bind fun (included, smmu) =>
        if included then some (true, { x with smmu := smmu })
        else
          let (sme, smmu) := smmuAllocSme smmu
          if sme < 0 then some (false, { x with smmu := smmu })
          else
            (smmuWriteSme smmu sme prepMask prepId group).bind fun smmu =>
              (smmuWriteS2c smmu sme vmCtx).map fun smmu => (true, { x with smmu := smmu })

/-- `iommu_arch_vm_add_device`. -/
def iommuArchVmAddDevice (x : IommuState) (vm : Nat) (id : BitVec 32) : Option (Bool × IommuState) :=
  iommuVmArchAdd p x vm 0 id

/-- The loop of `iommu_arch_vm_init`. -/
def iommuAddGroups (vm : Nat) : List SmmuGroup → IommuState → Option (Bool × IommuState)
  | [], x => some (true, x)
  | group :: groups, x =>
    (iommuVmArchAdd p x vm group.mask group.id).bind fun (added, x) =>
      if added then iommuAddGroups vm groups x else some (false, x)

/-- `iommu_arch_vm_init`. -/
def iommuArchVmInit (x : IommuState) (vm : Nat) (config : SmmuVmConfig) :
    Option (Bool × IommuState) :=
  iommuAddGroups p vm config.groups
    { x with
      vms := update x.vms vm
        { x.vms vm with globalMask := config.globalMask ||| p.globalMask, ctxId := sizeMax } }

/-! ### The calls -/

inductive IommuCall
  | init (vm : Nat) (config : SmmuVmConfig)
  | addDevice (vm : Nat) (id : BitVec 32)
  deriving DecidableEq, Repr

def IommuCall.vm : IommuCall → Nat
  | init vm _ => vm
  | addDevice vm _ => vm

/-- The stream ids that a call is about. -/
def IommuCall.streams : IommuCall → List (BitVec 32)
  | init _ config => config.groups.map SmmuGroup.id
  | addDevice _ id => [id]

/-- A call with what it returns; `none` where it does not come back. -/
def iommuCall (x : IommuState) : IommuCall → Option (Bool × IommuState)
  | .init vm config => iommuArchVmInit p x vm config
  | .addDevice vm id => iommuArchVmAddDevice p x vm id

/-- Calls for any VMs behind `smmu_init`; what the VMs hold before their own `iommu_arch_vm_init` is
arbitrary. -/
def iommuMachine : Machine IommuState IommuCall where
  Init x := (∃ hw, smmuInit p.parange hw = some x.smmu) ∧ x.smmu.smeNum ≤ smeMaxNum ∧
    x.smmu.ctxNum ≤ ctxMaxNum
  step x c := (iommuCall p x c).map Prod.snd

/-! ### A bank for each VM -/

/-- The VM has a bank of its own, with its tables and its id. -/
structure IommuState.OwnBank (x : IommuState) (vm : Nat) : Prop where
  below : (x.vms vm).ctxId < x.smmu.ctxNum
  allocated : bitmapGet x.smmu.ctxbankBitmap (x.vms vm).ctxId = true
  root : x.smmu.ttbr0 (x.vms vm).ctxId = smmuTtbr0 p.parange (x.vms vm).root
  id : x.smmu.cbar (x.vms vm).ctxId = smmuv2CbarVmid (x.vms vm).id
  own : ∀ vm', vm' ≠ vm → (x.vms vm').ctxId ≠ (x.vms vm).ctxId

/-- An entry matches the stream and leads to the bank of the VM. -/
def IommuState.Binds (x : IommuState) (vm : Nat) (stream : BitVec 32) : Prop :=
  ∃ sme < x.smmu.smeNum, x.smmu.Matches sme stream ∧
    smmuSmeGetCtx x.smmu sme = (x.vms vm).ctxId

/-- No bank or no entry is free. -/
def IommuState.Exhausted (x : IommuState) : Prop :=
  (∀ i < x.smmu.ctxNum, bitmapGet x.smmu.ctxbankBitmap i = true) ∨
    ∀ i < x.smmu.smeNum, bitmapGet x.smmu.smeBitmap i = true

/-- A call that returns `true` gives the VM a bank and binds the streams to it; without a free bank or
entry it returns `false` and leaves the SMMU alone. -/
structure IommuState.Isolates (x : IommuState) (c : IommuCall) : Prop where
  isolated : ∀ y, iommuCall p x c = some (true, y) →
    y.OwnBank p c.vm ∧ ∀ stream ∈ c.streams, y.Binds c.vm stream
  refused : x.Exhausted → ∃ y, iommuCall p x c = some (false, y) ∧ y.smmu = x.smmu

variable {p} {x y : IommuState}

/-- The VM keeps the context that it has. -/
theorem iommuVmArchInitCtx_eq (x : IommuState) (vm : Nat) :
    iommuVmArchInitCtx p x vm = some ((x.vms vm).ctxId, x) := by
  rw [iommuVmArchInitCtx]
  exact if_neg (Nat.not_lt_zero _)

/-- With the context that the VM has, whatever it is, the addition is made. -/
theorem iommuVmArchAdd_eq (x : IommuState) (vm : Nat) (mask id : BitVec 32) :
    iommuVmArchAdd p x vm mask id =
      (smmuAddSme x.smmu
        { mask := (mask &&& smmuIdMsk) ||| (x.vms vm).globalMask
          id := id &&& smmuIdMsk
          ctx := (x.vms vm).ctxId
          group := decide (mask ≠ 0) }).map fun (_, smmu) => (true, { x with smmu := smmu }) := by
  rw [iommuVmArchAdd, iommuVmArchInitCtx_eq, smmuAddSme]
  simp only [Option.bind_some, Nat.not_lt_zero, if_false, Option.map_bind]
  congr 1
  funext found
  obtain ⟨included, smmu⟩ := found
  cases included with
  | true => rfl
  | false =>
    simp only [Bool.false_eq_true, if_false, Function.comp_def, Option.map_bind, Option.map_map]

/-- No bank is allocated. -/
def IommuState.NoBanks (x : IommuState) : Prop :=
  ∀ i < x.smmu.ctxNum, bitmapGet x.smmu.ctxbankBitmap i = false

theorem smmuAddSme_banks {s t : Smmu} {a : SmeAddition} {sme : Option Nat}
    (h : smmuAddSme s a = some (sme, t)) :
    t.ctxNum = s.ctxNum ∧ t.ctxbankBitmap = s.ctxbankBitmap := by
  rcases smmuAddSme_cases h with ⟨-, n, hs⟩ | ⟨u, r, hs, -, -, rfl⟩
  · rw [hs.frame]
    exact ⟨rfl, rfl⟩
  · rw [hs.frame]
    exact ⟨rfl, rfl⟩

/-- What an addition returns, and what it does to the banks. -/
theorem iommuVmArchAdd_some {vm : Nat} {mask id : BitVec 32} {r : Bool}
    (h : iommuVmArchAdd p x vm mask id = some (r, y)) (hx : x.NoBanks) : r = true ∧ y.NoBanks := by
  rw [iommuVmArchAdd_eq] at h
  obtain ⟨⟨sme, smmu⟩, hadd, hy⟩ := Option.map_eq_some_iff.mp h
  obtain ⟨rfl, rfl⟩ := Prod.mk.inj hy
  obtain ⟨hnum, hbitmap⟩ := smmuAddSme_banks hadd
  refine ⟨rfl, fun i hi => ?_⟩
  rw [hbitmap]
  exact hx i (hnum ▸ hi)

theorem iommuAddGroups_some {vm : Nat} {groups : List SmmuGroup} {r : Bool}
    (h : iommuAddGroups p vm groups x = some (r, y)) (hx : x.NoBanks) : r = true ∧ y.NoBanks := by
  induction groups generalizing x with
  | nil =>
    obtain ⟨rfl, rfl⟩ := Prod.mk.inj (Option.some.inj h)
    exact ⟨rfl, hx⟩
  | cons group groups ih =>
    obtain ⟨⟨added, u⟩, hadd, hrest⟩ := Option.bind_eq_some_iff.mp h
    obtain ⟨rfl, hu⟩ := iommuVmArchAdd_some hadd hx
    exact ih hrest hu

theorem iommuCall_some {c : IommuCall} {r : Bool} (h : iommuCall p x c = some (r, y))
    (hx : x.NoBanks) : r = true ∧ y.NoBanks := by
  cases c with
  | init vm config => exact iommuAddGroups_some h hx
  | addDevice vm id =>
    have hadd : iommuVmArchAdd p x vm 0 id = some (r, y) := h
    exact iommuVmArchAdd_some hadd hx

theorem IommuState.noBanks_of_init (h : (iommuMachine p).Init x) : x.NoBanks := by
  obtain ⟨⟨hw, hinit⟩, -, hnum⟩ := h
  unfold smmuInit at hinit
  split at hinit
  · have hsmmu := Option.some.inj hinit
    rw [IommuState.NoBanks, ← hsmmu]
    rw [← hsmmu] at hnum
    intro i hi
    have hfit : 0 + (bit32Extract hw.idr1 0 8).toNat ≤ sizeT := by
      simp only [ctxMaxNum, sizeT] at hnum ⊢
      omega
    simp only [bitmapGet_clearConsecutive _ i hfit]
    simp only [Nat.zero_add, Nat.zero_le, true_and, hi, decide_true]
    simp
  · cases hinit

/-- In every run no call isolates its VM unless it does not come back. -/
theorem iommuCall_isolates_iff {p : IommuPlatform} {x : IommuState}
    (h : (iommuMachine p).Reachable x) (c : IommuCall) :
    x.Isolates p c ↔ iommuCall p x c = none ∧ ¬x.Exhausted := by
  have hx : x.NoBanks := h.invariant (fun _ => IommuState.noBanks_of_init) fun u c v hu hstep => by
    obtain ⟨⟨r, w⟩, hcall, rfl⟩ := Option.map_eq_some_iff.mp hstep
    exact (iommuCall_some hcall hu).2
  constructor
  · intro hiso
    have hnone : iommuCall p x c = none := by
      rw [Option.eq_none_iff_forall_ne_some]
      intro ⟨r, y⟩ hcall
      obtain ⟨rfl, hy⟩ := iommuCall_some hcall hx
      obtain ⟨hbank, -⟩ := hiso.isolated y hcall
      have hset := hbank.allocated
      rw [hy _ hbank.below] at hset
      exact absurd hset nofun
    refine ⟨hnone, fun hexh => ?_⟩
    obtain ⟨y, hcall, -⟩ := hiso.refused hexh
    exact absurd (hnone.symm.trans hcall) nofun
  · intro ⟨hnone, hfree⟩
    exact ⟨fun y hcall => absurd (hnone.symm.trans hcall) nofun, fun hexh => absurd hexh hfree⟩

/-- An SMMU where the word that index `-1` of the bitmap of the banks reads is not zero. -/
def smallSmmuBehind : Smmu :=
  { smallSmmu with ctxbankBitmap := fun i => if i = sizeMax / granuleLen then -1 else 0 }

/-- Behind `smmu_init`. -/
def smallIommu : IommuState where
  smmu := (smmuInit 2 smallSmmuBehind).getD smallSmmuBehind
  vms := fun _ => { id := 1, root := 0x80000000, globalMask := 0, ctxId := 0 }

def smallIommuPlatform : IommuPlatform := ⟨2, 0⟩

theorem smallIommu_init : (iommuMachine smallIommuPlatform).Init smallIommu :=
  ⟨⟨smallSmmuBehind, rfl⟩, by decide, by decide⟩

theorem iommuCall_isolates_iff_addDevice :
    smallIommu.Isolates smallIommuPlatform (.addDevice 0 5) ↔
      iommuCall smallIommuPlatform smallIommu (.addDevice 0 5) = none ∧ ¬smallIommu.Exhausted :=
  iommuCall_isolates_iff ⟨smallIommu, [], smallIommu_init, .nil _⟩ (.addDevice 0 5)

/-- `iommu_arch_vm_init` returns `true` and leaves the VM without a bank, with a group and without. -/
theorem iommuArchVmInit_unisolated : (iommuMachine smallIommuPlatform).Init smallIommu ∧
    ¬smallIommu.Isolates smallIommuPlatform (.init 0 ⟨0, []⟩) ∧
    ¬smallIommu.Isolates smallIommuPlatform (.init 0 ⟨0, [⟨1, 4⟩]⟩) := by
  refine ⟨smallIommu_init, fun h => ?_, fun h => ?_⟩
  · exact absurd (h.isolated _ rfl).1.below (by decide)
  · exact absurd (h.isolated _ rfl).1.below (by decide)

end Avisor
