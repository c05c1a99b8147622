import Avisor.Data.ListHead
import Avisor.Lib.Machine
import Avisor.Sched.State

/-!
# The list of VMs

Between the two barriers of `vmm_init` every pCPU initialises the head of `vm_list`, and pCPU 0 goes on
to create the VMs and to add them to the list.
-/

namespace Avisor

open Function CircularList

/-- Where a pCPU is in `vmm_init`. -/
inductive VmmInitPc
  /-- Behind the first barrier. -/
  | vmListInit
  /-- In the loop of pCPU 0, with its counter. -/
  | vmInit (i : Nat)
  /-- At the second barrier. -/
  | waiting
  deriving DecidableEq

/-- `vm_list`, the fields `list` and `id` of each `struct vm`, and the pCPUs. The links are arbitrary at
first: nothing reads them before they are initialised. -/
structure VmListState where
  links : Links (ListPtr Unit VmId)
  id : VmId → Nat
  pc : PCpuId → VmmInitPc

/-- The loop of pCPU 0 with the counter `i`. -/
def vmmInitLoop (cfg : SchedConfig) (i : Nat) : VmmInitPc :=
  if i < cfg.nrVms then .vmInit i else .waiting

/-- `vm_list_init`. -/
def vmListInit (cfg : SchedConfig) (s : VmListState) (c : PCpuId) : VmListState :=
  { s with
    links := initListHead s.links (.head ())
    pc := update s.pc c (if c = 0 then vmmInitLoop cfg 0 else .waiting) }

/-- What `vm_init` does for the list: `vm_master_init` stores the id, and the VM becomes the first one. -/
def vmInitList (cfg : SchedConfig) (s : VmListState) (c : PCpuId) (i : Nat) : VmListState :=
  { links := listAdd (initListHead s.links (.node i)) (.node i) (.head ())
    id := update s.id i i
    pc := update s.pc c (vmmInitLoop cfg (i + 1)) }

/-- The loop of `get_vm_by_id` from the pointer on; it follows no more than `fuel` pointers. `some none`
stands for `NULL`. -/
def getVmByIdFrom (s : VmListState) (id : Nat) : Nat → ListPtr Unit VmId → Option (Option VmId)
  | 0, _ => none
  | fuel + 1, ptr =>
    match ptr with
    | .head _ => some none
    | .node vm =>
      if s.id vm = id then some (some vm) else getVmByIdFrom s id fuel (s.links.next (.node vm))
    | .poison1 | .poison2 => none

/-- `get_vm_by_id`. A traversal longer than the list of all VMs runs in a circle. -/
def getVmById (cfg : SchedConfig) (s : VmListState) (id : Nat) : Option (Option VmId) :=
  getVmByIdFrom s id (cfg.nrVms + 1) (s.links.next (.head ()))

/-- The pCPUs of `cfg` between the two barriers; an action is the next step of a pCPU. -/
def vmListMachine (cfg : SchedConfig) : Machine VmListState PCpuId where
  Init s := ∀ c, s.pc c = .vmListInit
  step s c :=
    if c < cfg.hypNrCpus then
      match s.pc c with
      | .vmListInit => some (vmListInit cfg s c)
      | .vmInit i => some (vmInitList cfg s c i)
      | .waiting => none
    else none

/-- All pCPUs are at the second barrier. -/
def AllWaiting (cfg : SchedConfig) (s : VmListState) : Prop :=
  ∀ c < cfg.hypNrCpus, s.pc c = .waiting

/-- The number of VMs that are created. -/
def nrCreated (cfg : SchedConfig) (s : VmListState) : Nat :=
  match s.pc 0 with
  | .vmListInit => 0
  | .vmInit i => i
  | .waiting => cfg.nrVms

/-- The list is initialised only as long as no VM is created. -/
def InitFirst (cfg : SchedConfig) (s : VmListState) (c : PCpuId) : Prop :=
  s.pc c = .vmListInit → nrCreated cfg s = 0

variable {cfg : SchedConfig} {s t : VmListState} {c : PCpuId} {l : List Nat} {i : Nat}

/-- What holds of the pCPUs and the VMs at any time; `l` are the VMs in the list. -/
structure Listed (cfg : SchedConfig) (s : VmListState) (l : List Nat) : Prop where
  only : ∀ c i, s.pc c = .vmInit i → c = 0 ∧ i < cfg.nrVms
  id : ∀ i < nrCreated cfg s, s.id i = i
  created : ∀ i ∈ l, i < nrCreated cfg s
  holds : s.pc 0 ≠ .vmListInit → Holds s.links () l

theorem nrCreated_le (h : Listed cfg s l) : nrCreated cfg s ≤ cfg.nrVms := by
  unfold nrCreated
  split
  · exact Nat.zero_le _
  · rename_i i hi
    exact Nat.le_of_lt (h.only 0 i hi).2
  · exact Nat.le_refl _

theorem vmmInitLoop_eq_vmInit {j : Nat} (h : vmmInitLoop cfg i = .vmInit j) :
    j = i ∧ i < cfg.nrVms := by
  unfold vmmInitLoop at h
  split at h
  · rename_i hlt
    cases h
    exact ⟨rfl, hlt⟩
  · cases h

/-- The VMs created when the loop of pCPU 0 has reached `i`. -/
theorem nrCreated_loop (h : s.pc 0 = vmmInitLoop cfg i) (hi : i ≤ cfg.nrVms) :
    nrCreated cfg s = i := by
  unfold nrCreated
  rw [h]
  unfold vmmInitLoop
  split
  · rename_i heq
    split at heq <;> cases heq
  · rename_i heq
    split at heq
    · cases heq
      rfl
    · cases heq
  · rename_i heq
    split at heq
    · cases heq
    · omega

/-- The list starts anew. -/
theorem Listed.vmListInit (h : Listed cfg s l) (hpc : s.pc c = .vmListInit) :
    Listed cfg (vmListInit cfg s c) [] ∧ nrCreated cfg (vmListInit cfg s c) = nrCreated cfg s := by
  have hnr : nrCreated cfg (Avisor.vmListInit cfg s c) = nrCreated cfg s := by
    by_cases hc : c = 0
    · subst hc
      have hloop : (Avisor.vmListInit cfg s 0).pc 0 = vmmInitLoop cfg 0 := by
        simp [Avisor.vmListInit]
      rw [nrCreated_loop hloop (Nat.zero_le _), nrCreated, hpc]
    · have hsame : (Avisor.vmListInit cfg s c).pc 0 = s.pc 0 := update_of_ne (Ne.symm hc) ..
      unfold nrCreated
      rw [hsame]
  refine ⟨⟨fun c' i hi => ?_, fun i hi => ?_, fun i hi => absurd hi List.not_mem_nil,
    fun _ => holds_initListHead⟩, hnr⟩
  · by_cases hc : c' = c
    · subst hc
      have hself : (Avisor.vmListInit cfg s c').pc c' = if c' = 0 then vmmInitLoop cfg 0 else .waiting :=
        update_self ..
      rw [hself] at hi
      split at hi
      · rename_i hzero
        obtain ⟨rfl, hlt⟩ := vmmInitLoop_eq_vmInit hi
        exact ⟨hzero, hlt⟩
      · cases hi
    · have hsame : (Avisor.vmListInit cfg s c).pc c' = s.pc c' := update_of_ne hc ..
      rw [hsame] at hi
      exact h.only c' i hi
  · rw [hnr] at hi
    exact h.id i hi

/-- The next VM goes to the front of the list. -/
theorem Listed.vmInitList (h : Listed cfg s l) (hpc : s.pc c = .vmInit i) :
    Listed cfg (vmInitList cfg s c i) (i :: l) ∧ nrCreated cfg s = i ∧
      nrCreated cfg (vmInitList cfg s c i) = i + 1 := by
  obtain ⟨rfl, hlt⟩ := h.only c i hpc
  have hold : nrCreated cfg s = i := by rw [nrCreated, hpc]
  have hloop : (Avisor.vmInitList cfg s 0 i).pc 0 = vmmInitLoop cfg (i + 1) := by
    simp [Avisor.vmInitList]
  have hnr := nrCreated_loop hloop hlt
  have hnot : i ∉ l := by
    intro hi
    have hlt' := h.created i hi
    omega
  refine ⟨⟨fun c' j hj => ?_, fun j hj => ?_, fun j hj => ?_, fun _ => ?_⟩, hold, hnr⟩
  · by_cases hc : c' = 0
    · subst hc
      rw [hloop] at hj
      obtain ⟨rfl, hbound⟩ := vmmInitLoop_eq_vmInit hj
      exact ⟨rfl, hbound⟩
    · have hsame : (Avisor.vmInitList cfg s 0 i).pc c' = s.pc c' := update_of_ne hc ..
      rw [hsame] at hj
      exact h.only c' j hj
  · rw [hnr] at hj
    show update s.id i i j = j
    by_cases hji : j = i
    · rw [hji, update_self]
    · rw [update_of_ne hji]
      exact h.id j (by omega)
  · rw [hnr]
    rcases List.mem_cons.mp hj with rfl | hj
    · exact Nat.lt_succ_self j
    · have hlt' := h.created j hj
      omega
  · have hholds := h.holds (by rw [hpc]; exact fun heq => by cases heq)
    exact (hholds.initListHead_node hnot).listAdd hnot

/-! ### Runs -/

/-- The VMs created so far are in the list. -/
def AllListed (cfg : SchedConfig) (s : VmListState) : Prop :=
  ∃ l, Listed cfg s l ∧ ∀ i < nrCreated cfg s, i ∈ l

/-- The first VM is created, but not in the list. -/
def FirstLost (cfg : SchedConfig) (s : VmListState) : Prop :=
  ∃ l, Listed cfg s l ∧ 0 < nrCreated cfg s ∧ 0 ∉ l

/-- A step is that of `vm_list_init` or that of the next VM. -/
theorem vmListMachine_step (h : (vmListMachine cfg).step s c = some t) :
    (s.pc c = .vmListInit ∧ t = vmListInit cfg s c) ∨
      ∃ i, s.pc c = .vmInit i ∧ t = vmInitList cfg s c i := by
  obtain ⟨-, h⟩ := Option.ite_none_right_eq_some.mp h
  split at h
  · rename_i hpc
    cases h
    exact .inl ⟨hpc, rfl⟩
  · rename_i i hpc
    cases h
    exact .inr ⟨i, hpc, rfl⟩
  · cases h

theorem AllListed.step (h : AllListed cfg s) (hstep : (vmListMachine cfg).step s c = some t) :
    (InitFirst cfg s c → AllListed cfg t) ∧ (¬ InitFirst cfg s c → FirstLost cfg t) := by
  obtain ⟨l, hl, hall⟩ := h
  rcases vmListMachine_step hstep with ⟨hpc, rfl⟩ | ⟨i, hpc, rfl⟩
  · obtain ⟨hnew, hnr⟩ := hl.vmListInit hpc
    constructor
    · intro hfirst
      refine ⟨[], hnew, fun i hi => ?_⟩
      rw [hnr, hfirst hpc] at hi
      exact absurd hi (Nat.not_lt_zero i)
    · intro hlate
      refine ⟨[], hnew, ?_, List.not_mem_nil⟩
      rw [hnr]
      exact Nat.pos_of_ne_zero fun hzero => hlate fun _ => hzero
  · obtain ⟨hnew, hold, hnr⟩ := hl.vmInitList hpc
    constructor
    · refine fun _ => ⟨i :: l, hnew, fun j hj => ?_⟩
      rw [hnr] at hj
      rcases Nat.lt_succ_iff_lt_or_eq.mp hj with hlt | rfl
      · exact List.mem_cons_of_mem _ (hall j (by omega))
      · exact List.mem_cons_self
    · intro hlate
      exact absurd (fun hinit => by rw [hpc] at hinit; cases hinit) hlate

theorem FirstLost.preserves : (vmListMachine cfg).Preserves (FirstLost cfg) := by
  intro s c t h hstep
  obtain ⟨l, hl, hpos, hnot⟩ := h
  rcases vmListMachine_step hstep with ⟨hpc, rfl⟩ | ⟨i, hpc, rfl⟩
  · obtain ⟨hnew, hnr⟩ := hl.vmListInit hpc
    exact ⟨[], hnew, by omega, List.not_mem_nil⟩
  · obtain ⟨hnew, hold, hnr⟩ := hl.vmInitList hpc
    refine ⟨i :: l, hnew, by omega, ?_⟩
    rw [List.mem_cons, not_or]
    exact ⟨by omega, hnot⟩

theorem allListed_init (h : (vmListMachine cfg).Init s) : AllListed cfg s := by
  have hpc (c) : s.pc c = .vmListInit := h c
  have hnr : nrCreated cfg s = 0 := by rw [nrCreated, hpc]
  refine ⟨[], ⟨fun c i hi => ?_, fun i hi => ?_, fun i hi => absurd hi List.not_mem_nil,
    fun hne => absurd (hpc 0) hne⟩, fun i hi => ?_⟩
  · rw [hpc] at hi
    cases hi
  · omega
  · omega

/-- A run leads to one of the two, by the order of its steps. -/
theorem AllListed.run {cs : List PCpuId} (h : AllListed cfg s) (hrun : (vmListMachine cfg).Run s cs t) :
    ((vmListMachine cfg).EachStep (InitFirst cfg) s cs → AllListed cfg t) ∧
      (¬ (vmListMachine cfg).EachStep (InitFirst cfg) s cs → FirstLost cfg t) := by
  induction hrun with
  | nil => exact ⟨fun _ => h, fun hnot => absurd trivial hnot⟩
  | @cons s u t c cs hstep hrest ih =>
    by_cases hfirst : InitFirst cfg s c
    · obtain ⟨hlisted, hlost⟩ := ih ((h.step hstep).1 hfirst)
      constructor
      · exact fun heach => hlisted (heach u hstep).2
      · intro hnot
        refine hlost fun heach => hnot fun v hv => ?_
        obtain rfl : u = v := Option.some.inj (hstep.symm.trans hv)
        exact ⟨hfirst, heach⟩
    · constructor
      · exact fun heach => absurd (heach u hstep).1 hfirst
      · exact fun _ => hrest.invariant FirstLost.preserves ((h.step hstep).2 hfirst)

/-! ### The search -/

/-- From within the list the search finds exactly the VMs that follow. -/
theorem getVmByIdFrom_of_path {ptr : ListPtr Unit VmId} {fuel : Nat}
    (hpath : Path s.links ptr (l.map .node) (.head ())) (hid : ∀ m ∈ l, s.id m = m)
    (hlt : l.length < fuel) :
    getVmByIdFrom s i fuel (s.links.next ptr) = some (if i ∈ l then some i else none) := by
  induction l generalizing ptr fuel with
  | nil =>
    obtain ⟨fuel, rfl⟩ := Nat.exists_eq_add_one_of_ne_zero (by omega : fuel ≠ 0)
    have hnext : s.links.next ptr = .head () := hpath.1
    simp [getVmByIdFrom, hnext]
  | cons m l ih =>
    obtain ⟨fuel, rfl⟩ := Nat.exists_eq_add_one_of_ne_zero (by omega : fuel ≠ 0)
    obtain ⟨hnext, -, hrest⟩ := hpath
    rw [List.length_cons] at hlt
    have hfollow := ih hrest (fun k hk => hid k (List.mem_cons_of_mem _ hk)) (by omega : l.length < fuel)
    rw [hnext, getVmByIdFrom, hid m List.mem_cons_self]
    by_cases hm : m = i
    · subst hm
      simp
    · rw [if_neg hm, hfollow]
      simp [Ne.symm hm]

theorem Listed.getVmById (h : Listed cfg s l) (hpc : s.pc 0 ≠ .vmListInit) (i : Nat) :
    getVmById cfg s i = some (if i ∈ l then some i else none) := by
  have hholds := h.holds hpc
  have hlength : l.length ≤ cfg.nrVms := by
    have hsub : l ⊆ List.range cfg.nrVms := by
      intro m hm
      exact List.mem_range.mpr (Nat.lt_of_lt_of_le (h.created m hm) (nrCreated_le h))
    calc l.length ≤ (List.range cfg.nrVms).length := (hholds.nodup.subperm hsub).length_le
      _ = cfg.nrVms := List.length_range
  exact getVmByIdFrom_of_path hholds.path (fun m hm => h.id m (h.created m hm))
    (Nat.lt_succ_of_le hlength)

/-- Behind the second barrier all VMs are found exactly if no pCPU initialised the list after the first
VM was added. -/
theorem getVmById_iff {cs : List PCpuId} (hcpus : 0 < cfg.hypNrCpus)
    (hinit : (vmListMachine cfg).Init s) (hrun : (vmListMachine cfg).Run s cs t)
    (hwaiting : AllWaiting cfg t) :
    (∀ i < cfg.nrVms, getVmById cfg t i = some (some i)) ↔
      (vmListMachine cfg).EachStep (InitFirst cfg) s cs := by
  obtain ⟨hlisted, hlost⟩ := (allListed_init hinit).run hrun
  have hpc : t.pc 0 = .waiting := hwaiting 0 hcpus
  have hne : t.pc 0 ≠ .vmListInit := by
    rw [hpc]
    exact fun heq => by cases heq
  have hnr : nrCreated cfg t = cfg.nrVms := by rw [nrCreated, hpc]
  constructor
  · intro hfound
    by_contra hnot
    obtain ⟨l, hl, hpos, hzero⟩ := hlost hnot
    have hnone := hl.getVmById hne 0
    rw [if_neg hzero, hfound 0 (by omega)] at hnone
    cases hnone
  · intro heach i hi
    obtain ⟨l, hl, hall⟩ := hlisted heach
    rw [hl.getVmById hne i, if_pos (hall i (by omega))]

/-- Two pCPUs and one VM. -/
def vmListCpus : SchedConfig where
  maxVmNum := 1
  maxVcpuNum := 1
  nrVms := 1
  nrCpus := fun _ => 1
  nrCpus_pos := fun _ => Nat.one_pos
  ptRoot := fun _ => 0x1000
  hypNrCpus := 2
  timerWait := 1000

/-- Both pCPUs are behind the first barrier. -/
def vmListBoot : VmListState where
  links := { next := fun _ => .head (), prev := fun _ => .head () }
  id := fun _ => 0
  pc := fun _ => .vmListInit

/-- Both initialise the list, then pCPU 0 creates the VM. -/
theorem getVmById_in_order : ∃ t, (vmListMachine vmListCpus).run vmListBoot [0, 1, 0] = some t ∧
    ((∀ i < vmListCpus.nrVms, getVmById vmListCpus t i = some (some i)) ↔
      (vmListMachine vmListCpus).EachStep (InitFirst vmListCpus) vmListBoot [0, 1, 0]) := by
  obtain ⟨t, hrun, hwaiting⟩ : ∃ t, (vmListMachine vmListCpus).run vmListBoot [0, 1, 0] = some t ∧
      ∀ c < 2, t.pc c = .waiting := ⟨_, rfl, by decide⟩
  exact ⟨t, hrun, getVmById_iff (by decide) (fun _ => rfl) (Machine.run_eq_some_iff.mp hrun) hwaiting⟩

/-- pCPU 1 initialises the list again when the VM is in it, and the VM is not found. -/
theorem getVmById_lost : ∃ t, (vmListMachine vmListCpus).Init vmListBoot ∧
    (vmListMachine vmListCpus).run vmListBoot [0, 0, 1] = some t ∧ AllWaiting vmListCpus t ∧
    getVmById vmListCpus t 0 = some none := by
  obtain ⟨t, hrun, hwaiting, hnone⟩ : ∃ t, (vmListMachine vmListCpus).run vmListBoot [0, 0, 1] = some t ∧
      (∀ c < 2, t.pc c = .waiting) ∧ getVmById vmListCpus t 0 = some none := ⟨_, rfl, by decide, by decide⟩
  exact ⟨t, fun _ => rfl, hrun, hwaiting, hnone⟩

end Avisor
