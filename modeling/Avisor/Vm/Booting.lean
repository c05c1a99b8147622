import Avisor.Vm.Images

/-!
# `vmm_init` and the memory of the VMs

The loop of `vmm_init` is a run of the machine of VMs and hypervisor. Behind it each VM has its images, and the VMs are
apart.
-/

namespace Avisor

open Function Memory

variable {v : VmPlatform} {ram : Set Nat} {s t : VmMemories} {k n : Nat} {m : MmuState} {irq : IrqState}
  {spaces : List AddrSpace} {b : BootState} {config : VmMemoryConfig} {configs : List VmMemoryConfig}

/-! ### The steps of `vm_init` -/

section

variable (v : VmPlatform) (k : Nat)

/-- `vgic_init`. -/
def vgicInitActs (dscrp : VgicDscrp) : List VmAct :=
  (match v.gicVersion with
    | .v2 => [.mapDev k dscrp.giccAddr v.gicvAddr (numPages v.sizeofGicc)]
    | .v3 => []) ++ [.alloc (numPages (vgicIntSize v dscrp)) false]

/-- `vm_init_mem_regions`. -/
def vmInitMemRegionsActs (config : VmMemoryConfig) : List VmAct :=
  [.memRegion k config.baseAddr config.loadAddr config.size (numPages (config.memSize % sizeT)),
    .memRegion k v.dtb.baseAddr v.dtb.loadAddr v.dtb.size (numPages v.dtb.size)]

/-- `vm_init_dev`. -/
def vmInitDevActs (devs : List VmDevRegion) : List VmAct :=
  (devs.filter fun dev => dev.va ≠ invalidVa).map fun dev => .mapDev k dev.va dev.pa (numPages dev.size)

/-- `vmm_alloc_vm` and `vm_init`. -/
def vmInitActs (config : VmMemoryConfig) : List VmAct :=
  .allocVm config :: .asInit :: (vgicInitActs v k config.gic ++ (vmInitMemRegionsActs v k config ++
    vmInitDevActs k config.devs))

/-- The loop of `vmm_init` from the VM `k` on. -/
def vmmInitActs : Nat → List VmMemoryConfig → List VmAct
  | _, [] => []
  | k, config :: configs => vmInitActs v k config ++ vmmInitActs (k + 1) configs

end

theorem run_alloc {base : Nat} {aligned : Bool} (h : memAllocPage s.mem n aligned = some (base, m)) :
    (VmAct.alloc n aligned).run v s = some { s with mem := m, hyp := ⟨base, n⟩ :: s.hyp } :=
  Option.map_eq_some_iff.mpr ⟨_, h, rfl⟩

theorem run_allocVm {allocation : VmAllocation} (h : vmmAllocVm v config s.mem = some (allocation, m)) :
    (VmAct.allocVm config).run v s =
      some { s with mem := m, hyp := ⟨allocation.base, numPages allocation.size⟩ :: s.hyp } :=
  Option.map_eq_some_iff.mpr ⟨_, h, rfl⟩

theorem run_asInit {as : AddrSpace} (h : asInit v.hypPtDscr v.vmPtDscr .vm none s.mem = some (as, m)) :
    VmAct.asInit.run v s = some (s.addVm m as.pt.root) :=
  Option.map_eq_some_iff.mpr ⟨_, h, rfl⟩

theorem run_memRegion {baseAddr loadAddr size : Nat}
    (h : vmInitMemRegion v (s.as v k) baseAddr loadAddr size n s.mem = some m) :
    (VmAct.memRegion k baseAddr loadAddr size n).run v s = some { s with mem := m } :=
  Option.map_eq_some_iff.mpr ⟨_, h, rfl⟩

theorem run_mapDev {va pa r : Nat} (h : memAllocMapDev (s.as v k) s.mem va pa n = some (r, m)) :
    (VmAct.mapDev k va pa n).run v s = some { s with mem := m } :=
  Option.map_eq_some_iff.mpr ⟨_, h, rfl⟩

/-- One step. -/
theorem vmMachine_run {act : VmAct} (h : act.run v s = some t) : (vmMachine v ram).Run s [act] t :=
  .cons (vmMachine_step.mpr h) (.nil t)

theorem vgicInit_run (ram : Set Nat) {dscrp : VgicDscrp} (h : vgicInit v (s.as v k) dscrp s.mem = some m) :
    ∃ hyp, (vmMachine v ram).Run s (vgicInitActs v k dscrp) { s with mem := m, hyp := hyp } := by
  obtain ⟨m₁, hgicc, hrest⟩ := Option.bind_eq_some_iff.mp h
  obtain ⟨⟨interrupts, m₂⟩, hpage, hrest⟩ := Option.bind_eq_some_iff.mp hrest
  dsimp only at hrest
  split_ifs at hrest with hnull
  obtain rfl : m₂ = m := Option.some.inj hrest
  have halloc : (vmMachine v ram).Run { s with mem := m₁ } [.alloc (numPages (vgicIntSize v dscrp)) false]
      { s with mem := m₂, hyp := ⟨interrupts, numPages (vgicIntSize v dscrp)⟩ :: s.hyp } :=
    vmMachine_run (run_alloc hpage)
  refine ⟨_, Machine.Run.append ?_ halloc⟩
  cases hversion : v.gicVersion with
  | v2 =>
    simp only [hversion] at hgicc
    obtain ⟨⟨r, m'⟩, hmap, rfl⟩ := Option.map_eq_some_iff.mp hgicc
    exact vmMachine_run (run_mapDev hmap)
  | v3 =>
    simp only [hversion] at hgicc
    cases hgicc
    exact .nil _

theorem vmInitMemRegions_run (ram : Set Nat) (h : vmInitMemRegions v (s.as v k) config s.mem = some m) :
    (vmMachine v ram).Run s (vmInitMemRegionsActs v k config) { s with mem := m } := by
  obtain ⟨m₁, hfirst, hsecond⟩ := Option.bind_eq_some_iff.mp h
  exact (vmMachine_run (run_memRegion hfirst)).append
    (vmMachine_run (run_memRegion (s := { s with mem := m₁ }) hsecond))

theorem vmInitDevRegion_run {dev : VmDevRegion} {vm : VmId}
    (h : vmInitDevRegion (s.as v k) vm ⟨s.mem, irq⟩ dev = some b) :
    (vmMachine v ram).Run s (vmInitDevActs k [dev]) { s with mem := b.mem } := by
  obtain ⟨m, hmem, hirq⟩ := Option.bind_eq_some_iff.mp h
  obtain ⟨irq', -, rfl⟩ := Option.map_eq_some_iff.mp hirq
  by_cases hva : dev.va ≠ invalidVa
  · rw [if_pos hva] at hmem
    obtain ⟨⟨r, m'⟩, hmap, rfl⟩ := Option.map_eq_some_iff.mp hmem
    have hacts : vmInitDevActs k [dev] = [.mapDev k dev.va dev.pa (numPages dev.size)] := by simp [vmInitDevActs, hva]
    rw [hacts]
    exact vmMachine_run (run_mapDev hmap)
  · rw [if_neg hva] at hmem
    cases hmem
    have hacts : vmInitDevActs k [dev] = [] := by simp [vmInitDevActs, hva]
    rw [hacts]
    exact .nil s

theorem vmInitDevActs_cons (dev : VmDevRegion) (devs : List VmDevRegion) :
    vmInitDevActs k (dev :: devs) = vmInitDevActs k [dev] ++ vmInitDevActs k devs := by
  unfold vmInitDevActs
  rw [← List.map_append, ← List.filter_append]
  rfl

theorem vmInitDev_run (ram : Set Nat) {devs : List VmDevRegion} {vm : VmId}
    (h : devs.foldlM (vmInitDevRegion (s.as v k) vm) ⟨s.mem, irq⟩ = some b) :
    (vmMachine v ram).Run s (vmInitDevActs k devs) { s with mem := b.mem } := by
  induction devs generalizing s irq with
  | nil =>
    cases h
    exact .nil _
  | cons dev devs ih =>
    rw [List.foldlM_cons] at h
    obtain ⟨b', hdev, hrest⟩ := Option.bind_eq_some_iff.mp h
    rw [vmInitDevActs_cons]
    exact (vmInitDevRegion_run hdev).append (ih (s := { s with mem := b'.mem }) hrest)

/-- `vm_init` creates the next VM. -/
theorem vmInitMemory_run (ram : Set Nat) {vm : VmId} {as : AddrSpace}
    (h : vmInitMemory v vm config ⟨s.mem, irq⟩ = some (as, b)) :
    ∃ hyp, (vmMachine v ram).Run s (.asInit :: (vgicInitActs v s.nrVms config.gic ++
        (vmInitMemRegionsActs v s.nrVms config ++ vmInitDevActs s.nrVms config.devs)))
      { s.addVm b.mem as.pt.root with hyp := hyp } ∧ (s.addVm b.mem as.pt.root).as v s.nrVms = as := by
  obtain ⟨⟨space, m⟩, hinit, hrest⟩ := Option.bind_eq_some_iff.mp h
  obtain ⟨m₁, hgic, hrest⟩ := Option.bind_eq_some_iff.mp hrest
  obtain ⟨m₂, hregions, hrest⟩ := Option.bind_eq_some_iff.mp hrest
  obtain ⟨b', hdev, heq⟩ := Option.map_eq_some_iff.mp hrest
  obtain ⟨rfl, rfl⟩ := Prod.mk.inj heq
  have hspace : space = ⟨⟨space.pt.root, v.vmPtDscr⟩, .vm⟩ := by
    obtain ⟨⟨base, m'⟩, -, hnew⟩ := Option.map_eq_some_iff.mp hinit
    obtain ⟨rfl, -⟩ := Prod.mk.inj hnew
    rfl
  have has (mem : MmuState) : (s.addVm mem space.pt.root).as v s.nrVms = space := by
    conv_rhs => rw [hspace]
    simp only [VmMemories.as, VmMemories.addVm, update_self]
  have hcreated : (vmMachine v ram).step s .asInit = some (s.addVm m space.pt.root) :=
    vmMachine_step.mpr (run_asInit hinit)
  rw [← has m] at hgic
  obtain ⟨hyp, hgicRun⟩ := vgicInit_run ram (s := s.addVm m space.pt.root) hgic
  rw [← has m₁] at hregions
  have hregionsRun := vmInitMemRegions_run ram (s := { s.addVm m₁ space.pt.root with hyp := hyp }) hregions
  rw [← has m₂] at hdev
  have hdevRun := vmInitDev_run ram (s := { s.addVm m₂ space.pt.root with hyp := hyp }) hdev
  exact ⟨hyp, .cons hcreated (hgicRun.append (hregionsRun.append hdevRun)), has _⟩

/-- `t` is behind the creation of VMs: those of `s`, and behind them VMs with the address spaces. -/
structure Creates (v : VmPlatform) (s t : VmMemories) (spaces : List AddrSpace) : Prop where
  nrVms : t.nrVms = s.nrVms + spaces.length
  others : ∀ k < s.nrVms, t.as v k = s.as v k
  created : ∀ i as, spaces[i]? = some as → t.as v (s.nrVms + i) = as

/-- The loop of `vmm_init` is a run that creates the VMs. -/
theorem vmmInitVms_run (ram : Set Nat) (h : vmmInitVms v s.nrVms configs ⟨s.mem, irq⟩ = some (spaces, b)) :
    ∃ t, (vmMachine v ram).Run s (vmmInitActs v s.nrVms configs) t ∧ t.mem = b.mem ∧ Creates v s t spaces := by
  induction configs generalizing s irq spaces with
  | nil =>
    cases h
    exact ⟨s, .nil s, rfl, rfl, fun _ _ => rfl, nofun⟩
  | cons config configs ih =>
    obtain ⟨⟨allocation, m⟩, halloc, hrest⟩ := Option.bind_eq_some_iff.mp h
    obtain ⟨⟨as, b'⟩, hvm, hrest⟩ := Option.bind_eq_some_iff.mp hrest
    obtain ⟨⟨spaces', b''⟩, hloop, heq⟩ := Option.map_eq_some_iff.mp hrest
    obtain ⟨rfl, rfl⟩ := Prod.mk.inj heq
    let s₁ : VmMemories := { s with mem := m, hyp := ⟨allocation.base, numPages allocation.size⟩ :: s.hyp }
    have hallocated : (vmMachine v ram).step s (.allocVm config) = some s₁ :=
      vmMachine_step.mpr (run_allocVm halloc)
    obtain ⟨hyp, hrun, has⟩ := vmInitMemory_run ram (s := s₁) hvm
    obtain ⟨t, hrest, hmem, hcreates⟩ := ih (s := { s₁.addVm b'.mem as.pt.root with hyp := hyp }) hloop
    have hfirst (k) (hk : k < s.nrVms + 1) := hcreates.others k hk
    refine ⟨t, (Machine.Run.cons hallocated hrun).append hrest, hmem, ?_, fun k hk => ?_, fun i space hi => ?_⟩
    · rw [hcreates.nrVms, List.length_cons]
      exact Nat.add_right_comm ..
    · rw [hfirst k (Nat.lt_succ_of_lt hk)]
      simp only [VmMemories.as, VmMemories.addVm, s₁, update_of_ne hk.ne]
    · cases i with
      | zero =>
        cases hi
        exact (hfirst s.nrVms (Nat.lt_succ_self _)).trans has
      | succ i =>
        have hnext := hcreates.created i space hi
        rwa [show s.nrVms + (i + 1) = s.nrVms + 1 + i by omega]

/-! ### Images behind the loop -/

/-- The step is no store. -/
def VmAct.Quiet (act : VmAct) : Prop := act.actor = none ∧ act.outside = ∅

theorem vmInitActs_quiet {act : VmAct} (h : act ∈ vmInitActs v k config) : act.Quiet := by
  unfold vmInitActs vgicInitActs vmInitMemRegionsActs vmInitDevActs at h
  simp only [List.mem_cons, List.mem_append, List.mem_map, List.not_mem_nil, or_false] at h
  rcases h with rfl | rfl | (hgicc | rfl) | (rfl | rfl) | ⟨dev, -, rfl⟩
  · exact ⟨rfl, rfl⟩
  · exact ⟨rfl, rfl⟩
  · cases hversion : v.gicVersion <;> rw [hversion] at hgicc
    · obtain rfl := List.mem_singleton.mp hgicc
      exact ⟨rfl, rfl⟩
    · cases hgicc
  all_goals exact ⟨rfl, rfl⟩

theorem vmmInitActs_quiet {act : VmAct} (h : act ∈ vmmInitActs v k configs) : act.Quiet := by
  induction configs generalizing k with
  | nil => cases h
  | cons config configs ih =>
    rcases List.mem_append.mp h with hfirst | hrest
    · exact vmInitActs_quiet hfirst
    · exact ih hrest

theorem mem_vmmInitActs {act : VmAct} {i : Nat} (hi : configs[i]? = some config)
    (h : act ∈ vmInitActs v (k + i) config) : act ∈ vmmInitActs v k configs := by
  induction configs generalizing k i with
  | nil => cases hi
  | cons config' configs ih =>
    cases i with
    | zero =>
      cases hi
      exact List.mem_append_left _ h
    | succ i =>
      rw [show k + (i + 1) = k + 1 + i by omega] at h
      exact List.mem_append_right _ (ih hi h)

/-- Behind steps that are no stores, a VM finds the image of each region as it was in front of them. -/
theorem VmMemoriesOk.finds_region {acts : List VmAct} {baseAddr loadAddr size i : Nat} (h : VmMemoriesOk v ram s)
    (hrun : (vmMachine v ram).Run s acts t)
    (hacts : (vmMachine v ram).EachStep (fun s act => act.Fits v ram s) s acts)
    (hquiet : ∀ act ∈ acts, act.Quiet) (hregion : .memRegion k baseAddr loadAddr size n ∈ acts) (hi : i < size) :
    VmFinds v ram t k (baseAddr + i) (s.mem.bytes (loadAddr + i)) := by
  obtain ⟨before, behind, rfl⟩ := List.append_of_mem hregion
  obtain ⟨u, hbefore, hrest⟩ := hrun.of_append
  obtain ⟨hfirst, hlast⟩ := hacts.of_append hbefore
  have hok : VmMemoriesOk v ram u := (h.always hfirst).last hbefore
  cases hrest with
  | @cons u w t act behind hstep hbehind =>
    obtain ⟨hfits, hlast⟩ := hlast w hstep
    have hokw : VmMemoriesOk v ram w := ((hok.always (Machine.eachStep_cons hstep hfits hlast)).2 w hstep).head
    have hsame : u.mem.bytes (loadAddr + i) = s.mem.bytes (loadAddr + i) := by
      refine Domains.outside_run (VmMemories.domains v) VmAct.outside VmAct.actor
        (fun _ _ _ hwf hfits hstep hs => vmMachine_moves hwf hfits hstep hs) hbefore h.1 h.2 hfirst (hfits.image i hi)
        fun act hact => ?_
      obtain ⟨hactor, hout⟩ := hquiet act (List.mem_append_left _ hact)
      exact ⟨hactor, hout ▸ Set.notMem_empty _⟩
    rw [← hsame]
    refine (RegionFits.finds hfits hok (vmMachine_step.mp hstep) hi).run hokw hbehind hlast fun x hx => ?_
    have hstore := hquiet _ (List.mem_append_right _ (List.mem_cons_of_mem _ hx))
    cases hstore.1

/-! ### The boot -/

end Avisor
