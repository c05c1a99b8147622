import Avisor.Sched.Boot

/-!
# Who a pCPU runs

What a pCPU runs is written down in six places by four functions: `cpu->rqnode`, `run_vnode`,
`cpu->vcpu`, the owner fields of the VM and the vCPU, two system registers and the states of the two
nodes. They agree from the end of one `try_reschedule` to the next one, whatever the other pCPUs do,
since those write only to VMs that they hold themselves.
-/

namespace Avisor

open Function

/-- The VM level is right on pCPU `c`: its node `r` is running, and belongs to a VM whose master is
`c` and whose identity and page table `VTTBR_EL2` holds. -/
structure VmReady (s : SchedState) (c : PCpuId) (r : RNode) (m : VmId) : Prop where
  rqnode : (s.cpus c).rqnode = some r
  vm : (s.rqnodeMemory r).vm = some m
  state : (s.rqnodeMemory r).state = .running
  master : (s.vms m).master = c
  vttbr : (s.cpus c).vttbrEl2 = prepareToSwitch (s.vms m)

/-- The vCPU level is right on pCPU `c`, too: the node `v` that its VM runs is running, `cpu->vcpu` is
that node's vCPU, which belongs to the VM, is owned by `c` and has its identity in `VMPIDR_EL2`. -/
structure Coherent (s : SchedState) (c : PCpuId) (r : RNode) (m : VmId) (v : VNode) : Prop where
  ready : VmReady s c r m
  run : (s.rqnodeMemory r).runVnode = some v
  vcpu : (s.cpus c).vcpu = some (s.vpnodeMemory v).cur
  vcpu_vm : (s.vcpus (s.vpnodeMemory v).cur).vm = m
  owner : (s.vcpus (s.vpnodeMemory v).cur).pId = c
  vmpidr : (s.cpus c).vmpidrEl2 = (s.vcpus (s.vpnodeMemory v).cur).vmpidr
  state : (s.vpnodeMemory v).state = .running

/-! ### What a step leaves of a VM -/

/-- The VM `m` of the node `r` is the same in `t` as in `s`, as far as contexts go. -/
structure SameVm (s t : SchedState) (r : RNode) (m : VmId) : Prop where
  vm : (t.rqnodeMemory r).vm = (s.rqnodeMemory r).vm
  run : (t.rqnodeMemory r).runVnode = (s.rqnodeMemory r).runVnode
  state : (t.rqnodeMemory r).state = (s.rqnodeMemory r).state
  vnode : ∀ v, s.Created v → (s.vpnodeMemory v).cur.vm = m →
    (t.vpnodeMemory v).cur = (s.vpnodeMemory v).cur ∧
      (t.vpnodeMemory v).state = (s.vpnodeMemory v).state
  vms : t.vms m = s.vms m
  vcpus : ∀ vp : VcpuRef, vp.vm = m → t.vcpus vp = s.vcpus vp

namespace SameVm

variable {s t u : SchedState} {r : RNode} {m : VmId}

theorem of_cpus (hrq : t.rqnodeMemory = s.rqnodeMemory) (hv : t.vpnodeMemory = s.vpnodeMemory)
    (hvms : t.vms = s.vms) (hvcpus : t.vcpus = s.vcpus) : SameVm s t r m :=
  ⟨by rw [hrq], by rw [hrq], by rw [hrq], fun v _ _ => by rw [hv]; exact ⟨rfl, rfl⟩, by rw [hvms],
    fun vp _ => by rw [hvcpus]⟩

theorem trans (h : SameVm s t r m) (h' : SameVm t u r m)
    (hcreated : ∀ v, s.Created v → t.Created v) : SameVm s u r m := by
  refine ⟨h'.vm.trans h.vm, h'.run.trans h.run, h'.state.trans h.state, fun v hv hvm => ?_,
    h'.vms.trans h.vms, fun vp hvp => (h'.vcpus vp hvp).trans (h.vcpus vp hvp)⟩
  obtain ⟨hcur, hstate⟩ := h.vnode v hv hvm
  obtain ⟨hcur', hstate'⟩ := h'.vnode v (hcreated v hv) (by rw [hcur]; exact hvm)
  exact ⟨hcur'.trans hcur, hstate'.trans hstate⟩

theorem modifyRq {r' : RNode} {f : RunQueueNode → RunQueueNode}
    (hf : r' = r → ∀ n, (f n).vm = n.vm ∧ (f n).runVnode = n.runVnode ∧ (f n).state = n.state) :
    SameVm s (s.modifyRq r' f) r m := by
  have hsame : ((s.modifyRq r' f).rqnodeMemory r).vm = (s.rqnodeMemory r).vm ∧
      ((s.modifyRq r' f).rqnodeMemory r).runVnode = (s.rqnodeMemory r).runVnode ∧
      ((s.modifyRq r' f).rqnodeMemory r).state = (s.rqnodeMemory r).state := by
    by_cases h : r = r'
    · subst h
      simp only [SchedState.modifyRq, update_self]
      exact hf rfl _
    · simp only [SchedState.modifyRq, update_of_ne h, and_self]
  exact ⟨hsame.1, hsame.2.1, hsame.2.2, fun _ _ _ => ⟨rfl, rfl⟩, rfl, fun _ _ => rfl⟩

theorem modifyVnode {v : VNode} {f : VCpuNode → VCpuNode}
    (hf : s.Created v → (s.vpnodeMemory v).cur.vm = m →
      ∀ n, (f n).cur = n.cur ∧ (f n).state = n.state) : SameVm s (s.modifyVnode v f) r m := by
  refine ⟨rfl, rfl, rfl, fun w hw hwm => ?_, rfl, fun _ _ => rfl⟩
  by_cases h : w = v
  · subst h
    simp only [SchedState.modifyVnode, update_self]
    exact hf hw hwm _
  · simp only [SchedState.modifyVnode, update_of_ne h, and_self]

theorem relink (r' : RNode) (bitmap : BitVec 64) (nr : BitVec 32) (next : VNode → Option VNode)
    (levels : Nat → Option VNode) : SameVm s (s.relink r' bitmap nr next levels) r m := by
  refine ⟨by simp, by simp, ?_, fun _ _ _ => ⟨rfl, rfl⟩, rfl, fun _ _ => rfl⟩
  by_cases h : r = r'
  · subst h
    simp [SchedState.relink]
  · simp [SchedState.relink, h]

theorem vTaskInsert {cfg : SchedConfig} {v : VNode} {r' : RNode}
    (h : vTaskInsert cfg s v r' = some t) : SameVm s t r m := by
  obtain ⟨next, levels, rfl, -⟩ := vTaskInsert_eq_some h
  exact relink ..

theorem vTaskLookup {v : Option VNode} {r' : RNode} (h : vTaskLookup s r' = some (v, t)) :
    SameVm s t r m := by
  cases v with
  | none =>
    rw [(vTaskLookup_eq_none h).2]
    exact of_cpus rfl rfl rfl rfl
  | some v =>
    obtain ⟨i, -, -, rfl⟩ := vTaskLookup_eq_some h
    exact relink ..

end SameVm

theorem created_vTaskInsert {cfg : SchedConfig} {s t : SchedState} {v : VNode} {r : RNode}
    (h : vTaskInsert cfg s v r = some t) : t.vpnodeMemBitmap = s.vpnodeMemBitmap := by
  obtain ⟨next, levels, rfl, -⟩ := vTaskInsert_eq_some h
  rfl

theorem created_vTaskLookup {s t : SchedState} {v : Option VNode} {r : RNode}
    (h : vTaskLookup s r = some (v, t)) : t.vpnodeMemBitmap = s.vpnodeMemBitmap := by
  cases v with
  | none => rw [(vTaskLookup_eq_none h).2]
  | some v =>
    obtain ⟨i, -, -, rfl⟩ := vTaskLookup_eq_some h
    rfl

theorem created_bmqRequeue {cfg : SchedConfig} {s t : SchedState} {r : RNode}
    (h : bmqRequeue cfg s r = some t) : t.vpnodeMemBitmap = s.vpnodeMemBitmap := by
  rcases bmqRequeue_eq_some h with ⟨rfl, -⟩ | ⟨v, -, -, hinsert⟩
  · rfl
  · rw [created_vTaskInsert hinsert]
    rfl

/-- The vCPU found belongs to the VM it is looked up for. -/
theorem vTaskLookup_cur {s t : SchedState} {v : VNode} {r : RNode} {m : VmId} {n : Nat}
    (hs : s.queues.Wf n) (hr : s.queues.nodeVm r = some m)
    (h : vTaskLookup s r = some (some v, t)) : (t.vpnodeMemory v).cur.vm = m := by
  obtain ⟨i, hi, hlevel, -⟩ := queues_vTaskLookup h
  obtain ⟨-, hvm⟩ := hs.level_mem r m i v hr hi hlevel
  obtain ⟨j, -, -, rfl⟩ := vTaskLookup_eq_some h
  exact hvm

namespace SameVm

variable {cfg : SchedConfig} {s t : SchedState} {r r' : RNode} {m m' : VmId}

/-- A new node is no node of the VM yet. -/
theorem withVnode {v : VNode} {vp : VcpuRef} {prio : Nat}
    (hfree : bitmapGet s.vpnodeMemBitmap v = false) : SameVm s (s.withVnode v vp prio) r m := by
  refine ⟨rfl, rfl, rfl, fun w hw _ => ?_, rfl, fun _ _ => rfl⟩
  have hne : w ≠ v := by
    rintro rfl
    rw [SchedState.Created, hfree] at hw
    cases hw
  simp only [SchedState.withVnode, SchedState.modifyVnode, update_of_ne hne, and_self]

theorem bmqRequeue (hs : s.queues.Wf cfg.vnodeNum) (hr' : (s.rqnodeMemory r').vm = some m')
    (hne : m' ≠ m) (h : bmqRequeue cfg s r' = some t) : SameVm s t r m := by
  rcases bmqRequeue_eq_some h with ⟨rfl, -⟩ | ⟨v, hrun, -, hinsert⟩
  · exact of_cpus rfl rfl rfl rfl
  · refine (modifyVnode fun hv hvm => ?_).trans (vTaskInsert hinsert) fun _ hw => hw
    exact absurd ((hs.run_mem r' m' v hr' hrun).2.symm.trans hvm) hne

theorem bmqRun_return {c : PCpuId} {v : VNode} (hr : r' ≠ r)
    (hvm : (s.vpnodeMemory v).cur.vm ≠ m) :
    SameVm s (tryRescheduleReturn (bmqRun s c r' v) c) r m := by
  refine ⟨?_, ?_, ?_, fun w hw hwm => ?_, rfl, fun vp hvp => ?_⟩
  · simp [tryRescheduleReturn, bmqRun, bmqAssign, switchTo, SchedState.modifyCpu,
      SchedState.modifyRq, Ne.symm hr]
    rfl
  · simp [tryRescheduleReturn, bmqRun, bmqAssign, switchTo, SchedState.modifyCpu,
      SchedState.modifyRq, Ne.symm hr]
    rfl
  · simp [tryRescheduleReturn, bmqRun, bmqAssign, switchTo, SchedState.modifyCpu,
      SchedState.modifyRq, Ne.symm hr]
    rfl
  · have hne : w ≠ v := by
      rintro rfl
      exact hvm hwm
    simp [tryRescheduleReturn, bmqRun, bmqAssign, switchTo, SchedState.modifyCpu,
      SchedState.modifyRq, SchedState.modifyVnode, hne]
  · have hne : vp ≠ (s.vpnodeMemory v).cur := by
      rintro rfl
      exact hvm hvp
    simp [tryRescheduleReturn, bmqRun, bmqAssign, switchTo, SchedState.modifyCpu,
      SchedState.modifyRq, SchedState.modifyVnode, hne]

end SameVm

/-- In `try_reschedule` a pCPU has its flag set, in a guest it has not. -/
structure FlagWf (s : SchedState) : Prop where
  clear : ∀ c, ((s.cpus c).pc = .guest ∨ ∃ r v, (s.cpus c).pc = .tick r v) → (s.cpus c).flag = false
  set : ∀ c, (s.cpus c).flag = false → (s.cpus c).pc = .boot ∨ (s.cpus c).pc = .guest ∨
    (∃ r v, (s.cpus c).pc = .tick r v) ∨ (s.cpus c).pc = .halted

/-- A step leaves the VM of a node alone that the acting pCPU does not hold, and also the VM it holds
unless it is in `try_reschedule`. -/
theorem SchedStep.sameVm {cfg : SchedConfig} {s t : SchedState} {a : Action} {r : RNode} {m : VmId}
    (h : SchedStep cfg s a t) (hs : SchedWf cfg s) (hf : FlagWf s)
    (hr : (s.rqnodeMemory r).vm = some m)
    (hcase : (s.cpus a.cpu).held ≠ some r ∨
      (s.cpus a.cpu).flag = false ∧ (t.cpus a.cpu).pc ≠ .bfsInsert) : SameVm s t r m := by
  have hother {c r'} (hc : c = a.cpu) (hheld : (s.cpus c).held = some r')
      (hpc : ¬((s.cpus c).pc = .boot ∨ (s.cpus c).pc = .guest ∨
        (∃ r v, (s.cpus c).pc = .tick r v) ∨ (s.cpus c).pc = .halted)) : r' ≠ r := by
    rintro rfl
    subst hc
    rcases hcase with hne | ⟨hflag, -⟩
    · exact hne hheld
    · exact hpc (hf.set a.cpu hflag)
  have hvmne {r' m'} (hr' : (s.rqnodeMemory r').vm = some m') (hne : r' ≠ r) : m' ≠ m := by
    rintro rfl
    exact hne (hs.queues.node_unique r' r m' hr' hr)
  cases h with
  | tickWake r' v u q w pc rqnode run flag sleeper home insert =>
    have hcount : SameVm s (sleepCounted cfg s) r m := .of_cpus rfl rfl rfl rfl
    have hmark : SameVm (sleepCounted cfg s) (wakeStart cfg s u) r m :=
      SameVm.modifyVnode (f := fun n => { n with needResched := true }) fun _ _ _ => ⟨rfl, rfl⟩
    have hclear : SameVm w ((slotCleared w).setPc 0 (.tick r' v)) r m := .of_cpus rfl rfl rfl rfl
    refine ((hcount.trans hmark fun _ hx => hx).trans (.vTaskInsert insert) fun _ hx => hx).trans
      hclear fun x hx => ?_
    rw [SchedState.Created, created_vTaskInsert insert]
    exact hx
  | tickLeave c r' v pc =>
    have hvcpu : SameVm s (s.modifyVnode v (tickVnode cfg)) r m :=
      SameVm.modifyVnode fun _ _ _ => ⟨rfl, rfl⟩
    have hvm : SameVm (s.modifyVnode v (tickVnode cfg))
        ((s.modifyVnode v (tickVnode cfg)).modifyRq r' (tickRqnode cfg)) r m :=
      SameVm.modifyRq fun _ _ => ⟨rfl, rfl, rfl⟩
    have hpc : SameVm ((s.modifyVnode v (tickVnode cfg)).modifyRq r' (tickRqnode cfg))
        (updateTaskTimesLeave cfg s c r' v) r m := .of_cpus rfl rfl rfl rfl
    exact (hvcpu.trans hvm fun _ hx => hx).trans hpc fun _ hx => hx
  | reschedVm c r' u pc flag rqnode expire =>
    obtain ⟨-, rfl⟩ := bfsExpire_eq_some expire
    have hne : r' ≠ r := by
      rintro rfl
      rcases hcase with hne | ⟨-, hpc⟩
      · refine hne ?_
        rcases pc with pc | pc <;> simp only [Action.cpu, PCpu.held, pc, rqnode]
      · exact hpc (by simp [Action.cpu, setPc_cpus])
    have hexpire : SameVm (reschedEntered s c) ((reschedEntered s c).modifyRq r' fun n => { n with
        vdeadline := (reschedEntered s c).bfsClock + n.vdeadlineDiff
        state := .ready
        needResched := true }) r m :=
      SameVm.modifyRq fun heq => absurd heq hne
    exact ⟨hexpire.vm, hexpire.run, hexpire.state, hexpire.vnode, hexpire.vms, hexpire.vcpus⟩
  | start c arg0 r' m' v u t pc rqnode vm arg create insert =>
    obtain ⟨-, hfree, rfl⟩ := initializeVCpuNode_eq_some create
    refine (SameVm.withVnode hfree).trans (SameVm.vTaskInsert insert) fun w hw => ?_
    simp only [SchedState.Created, SchedState.withVnode, SchedState.modifyVnode, bitmapGet_set,
      Bool.or_eq_true]
    exact .inr hw
  | sleep c r' v pc =>
    have hmark := SameVm.modifyVnode (s := s) (r := r) (m := m) (v := v)
      (f := fun n => { prioManage n 1 with needResched := false }) fun _ _ _ => ⟨rfl, rfl⟩
    exact ⟨hmark.vm, hmark.run, hmark.state, hmark.vnode, hmark.vms, hmark.vcpus⟩
  | bfsInsert c r' u pc rqnode insert =>
    obtain ⟨head, -, rfl⟩ := rqInsert_eq_some insert
    exact ⟨rfl, rfl, rfl, fun _ _ _ => ⟨rfl, rfl⟩, rfl, fun _ _ => rfl⟩
  | bfsMiss c u pc lookup =>
    rw [pTaskLookup_eq_none lookup]
    exact .of_cpus rfl rfl rfl rfl
  | bfsHit c r' u pc lookup =>
    obtain ⟨-, -, -, hremove⟩ := pTaskLookup_eq_some lookup
    obtain ⟨p, -, rfl⟩ := rqRemove_eq_some hremove
    exact ⟨rfl, rfl, rfl, fun _ _ _ => ⟨rfl, rfl⟩, rfl, fun _ _ => rfl⟩
  | bfsRun c r' u pc run =>
    obtain ⟨m', hm', rfl⟩ := bfsRun_eq_some run
    have hne : r' ≠ r := hother (c := c) rfl (by simp only [PCpu.held, pc]) (by simp [pc])
    have hrq : ((bfsAssign s c r' m').setPc c .bmq).rqnodeMemory r = s.rqnodeMemory r := by
      simp only [bfsAssign, SchedState.setPc, SchedState.modifyCpu, SchedState.modifyRq]
      exact update_of_ne (Ne.symm hne) ..
    have hvms : ((bfsAssign s c r' m').setPc c .bmq).vms m = s.vms m := by
      simp only [bfsAssign, SchedState.setPc, SchedState.modifyCpu, SchedState.modifyRq]
      exact update_of_ne (Ne.symm (hvmne hm' hne)) ..
    exact ⟨by rw [hrq], by rw [hrq], by rw [hrq], fun _ _ _ => ⟨rfl, rfl⟩, hvms, fun _ _ => rfl⟩
  | bmqSpin c r' u w pc rqnode requeue lookup =>
    have hne : r' ≠ r := hother (c := c) rfl (by simp only [PCpu.held, pc, rqnode]) (by simp [pc])
    obtain ⟨m', hm'⟩ := hs.node rqnode
    obtain ⟨-, rfl⟩ := vTaskLookup_eq_none lookup
    have hrequeue := SameVm.bmqRequeue (r := r) hs.queues hm' (hvmne hm' hne) requeue
    exact ⟨hrequeue.vm, hrequeue.run, hrequeue.state, hrequeue.vnode, hrequeue.vms, hrequeue.vcpus⟩
  | bmqRun c r' u v w pc rqnode requeue lookup =>
    have hne : r' ≠ r := hother (c := c) rfl (by simp only [PCpu.held, pc, rqnode]) (by simp [pc])
    obtain ⟨m', hm'⟩ := hs.node rqnode
    have hmove := queues_bmqRequeue hs.queues hm' requeue
    have hrequeue := SameVm.bmqRequeue (r := r) hs.queues hm' (hvmne hm' hne) requeue
    have hum' : u.queues.nodeVm r' = some m' := by
      rw [hmove.nodeVm]
      exact hm'
    have hvm : (w.vpnodeMemory v).cur.vm ≠ m := by
      rw [vTaskLookup_cur (hmove.wf hs.queues hm') hum' lookup]
      exact hvmne hm' hne
    refine (hrequeue.trans (.vTaskLookup lookup) ?_).trans (.bmqRun_return hne hvm) ?_
    · exact fun x hx => by rwa [SchedState.Created, created_bmqRequeue requeue]
    · intro x hx
      rw [SchedState.Created, created_vTaskLookup lookup, created_bmqRequeue requeue]
      exact hx
  | bmqMiss c r' u pc lookup =>
    obtain ⟨-, rfl⟩ := vTaskLookup_eq_none lookup
    exact .of_cpus rfl rfl rfl rfl
  | bmqFind c r' v u pc lookup =>
    have hne : r' ≠ r := hother (c := c) rfl (by simp only [PCpu.held, pc, hs.bmqLookup c r' pc])
      (by simp [pc])
    obtain ⟨m', hm'⟩ := hs.node (hs.bmqLookup c r' pc)
    have hvm : (u.vpnodeMemory v).cur.vm ≠ m := by
      rw [vTaskLookup_cur hs.queues hm' lookup]
      exact hvmne hm' hne
    refine (SameVm.vTaskLookup lookup).trans (.bmqRun_return hne hvm) fun x hx => ?_
    rw [SchedState.Created, created_vTaskLookup lookup]
    exact hx
  | _ => exact .of_cpus rfl rfl rfl rfl

theorem FlagWf.step {cfg : SchedConfig} {s t : SchedState} {a : Action} (hf : FlagWf s)
    (hs : SchedWf cfg s) (h : SchedStep cfg s a t) : FlagWf t := by
  obtain ⟨p, hp, hcpus⟩ := h.cpus
  constructor
  · intro c hpc
    rw [hcpus] at hpc ⊢
    by_cases hc : c = a.cpu
    · subst hc
      rw [update_self] at hpc ⊢
      cases hp with
      | stay => exact hf.clear a.cpu hpc
      | tick r v guest => exact hf.clear a.cpu (.inl guest)
      | leave r v tick => exact hf.clear a.cpu (.inr ⟨r, v, tick⟩)
      | busy pc flag =>
        rcases pc with pc | pc
        · exact (hs.boot a.cpu pc).1
        · exact hf.clear a.cpu (.inl pc)
      | keep => rfl
      | run => rfl
      | resched pc' pc flag next => rcases next with ⟨rfl, -⟩ | ⟨rfl | rfl, -⟩ <;> simp at hpc
      | _ => simp at hpc
    · rw [update_of_ne hc] at hpc ⊢
      exact hf.clear c hpc
  · intro c hflag
    rw [hcpus] at hflag ⊢
    by_cases hc : c = a.cpu
    · subst hc
      rw [update_self] at hflag ⊢
      have hnot (hpc : ¬((s.cpus a.cpu).pc = .boot ∨ (s.cpus a.cpu).pc = .guest ∨
          (∃ r v, (s.cpus a.cpu).pc = .tick r v) ∨ (s.cpus a.cpu).pc = .halted))
          (hflag : (s.cpus a.cpu).flag = false) : False := hpc (hf.set a.cpu hflag)
      cases hp with
      | stay => exact hf.set a.cpu hflag
      | halt => exact .inr (.inr (.inr rfl))
      | tick r v => exact .inr (.inr (.inl ⟨r, v, rfl⟩))
      | leave => exact .inr (.inl rfl)
      | busy => exact .inr (.inl rfl)
      | keep => exact .inr (.inl rfl)
      | run => exact .inr (.inl rfl)
      | resched => cases hflag
      | insert r pc => exact (hnot (by simp [pc]) hflag).elim
      | hit r pc => exact (hnot (by simp [pc]) hflag).elim
      | assign r m vttbr pc => exact (hnot (by simp [pc]) hflag).elim
      | spin r u requeued =>
        exact (hnot (by rcases requeued with ⟨pc, -⟩ | ⟨pc, -⟩ <;> simp [pc]) hflag).elim
    · rw [update_of_ne hc] at hflag ⊢
      exact hf.set c hflag

/-! ### What never changes -/

/-- The fields that boot and a start hypercall set and nothing changes later. -/
structure Statics where
  cur : VNode → VcpuRef
  created : Bitmap
  nrCpus : VmId → Nat
  vcpuVm : VcpuRef → VmId

def SchedState.statics (s : SchedState) : Statics where
  cur := fun v => (s.vpnodeMemory v).cur
  created := s.vpnodeMemBitmap
  nrCpus := fun m => (s.vms m).nrCpus
  vcpuVm := fun vp => (s.vcpus vp).vm

theorem statics_modifyVnode (s : SchedState) (v : VNode) {f : VCpuNode → VCpuNode}
    (hf : ∀ n, (f n).cur = n.cur) : (s.modifyVnode v f).statics = s.statics := by
  unfold SchedState.statics
  congr 1
  funext w
  by_cases h : w = v
  · subst h
    simp only [SchedState.modifyVnode, update_self, hf]
  · simp only [SchedState.modifyVnode, update_of_ne h]

theorem statics_vTaskInsert {cfg : SchedConfig} {s t : SchedState} {v : VNode} {r : RNode}
    (h : vTaskInsert cfg s v r = some t) : t.statics = s.statics := by
  obtain ⟨next, levels, rfl, -⟩ := vTaskInsert_eq_some h
  rfl

theorem statics_vTaskLookup {s t : SchedState} {v : Option VNode} {r : RNode}
    (h : vTaskLookup s r = some (v, t)) : t.statics = s.statics := by
  cases v with
  | none => rw [(vTaskLookup_eq_none h).2]
  | some v =>
    obtain ⟨i, -, -, rfl⟩ := vTaskLookup_eq_some h
    rfl

theorem statics_bmqRequeue {cfg : SchedConfig} {s t : SchedState} {r : RNode}
    (h : bmqRequeue cfg s r = some t) : t.statics = s.statics := by
  rcases bmqRequeue_eq_some h with ⟨rfl, -⟩ | ⟨v, -, -, hinsert⟩
  · rfl
  · rw [statics_vTaskInsert hinsert]
    exact statics_modifyVnode s v fun _ => rfl

theorem statics_bmqRun_return (s : SchedState) (c : PCpuId) (r : RNode) (v : VNode) :
    (tryRescheduleReturn (bmqRun s c r v) c).statics = s.statics := by
  have hmark := statics_modifyVnode s v (f := fun n =>
    { n with
      state := .running
      timeSlice := BitVec.ofNat 64 bmqRrInterval
      needResched := false }) fun _ => rfl
  have hvcpu : (tryRescheduleReturn (bmqRun s c r v) c).statics.vcpuVm = s.statics.vcpuVm := by
    funext vp
    simp only [SchedState.statics, tryRescheduleReturn, bmqRun, bmqAssign, switchTo,
      SchedState.modifyCpu, SchedState.modifyRq, SchedState.modifyVnode, update_self]
    by_cases h : vp = (s.vpnodeMemory v).cur
    · subst h
      rw [update_self]
    · rw [update_of_ne h]
  have hrest : (tryRescheduleReturn (bmqRun s c r v) c).statics =
      { (s.modifyVnode v fun n =>
          { n with
            state := .running
            timeSlice := BitVec.ofNat 64 bmqRrInterval
            needResched := false }).statics with
        vcpuVm := (tryRescheduleReturn (bmqRun s c r v) c).statics.vcpuVm } := rfl
  rw [hrest, hvcpu, hmark]

/-- Only a start hypercall changes them: it hands out a node for a vCPU of the caller. -/
theorem SchedStep.statics {cfg : SchedConfig} {s t : SchedState} {a : Action}
    (h : SchedStep cfg s a t) :
    t.statics = s.statics ∨
      ∃ r m i v, (s.rqnodeMemory r).vm = some m ∧ i < (s.vms m).nrCpus ∧
        t.statics = { s.statics with
          cur := update s.statics.cur v ⟨m, i⟩
          created := bitmapSet s.statics.created v } := by
  cases h with
  | tickWake r v u q w pc rqnode run flag sleeper home insert =>
    have hclear : ((slotCleared w).setPc 0 (.tick r v)).statics = w.statics := rfl
    rw [hclear, statics_vTaskInsert insert]
    exact .inl (statics_modifyVnode (sleepCounted cfg s) u fun _ => rfl)
  | tickLeave c r v pc => exact .inl (statics_modifyVnode s v fun _ => rfl)
  | reschedVm c r u pc flag rqnode expire =>
    obtain ⟨-, rfl⟩ := bfsExpire_eq_some expire
    exact .inl rfl
  | start c arg0 r m v u t pc rqnode vm arg create insert =>
    obtain ⟨-, -, rfl⟩ := initializeVCpuNode_eq_some create
    refine .inr ⟨r, m, arg0, v, vm, arg, ?_⟩
    rw [statics_vTaskInsert insert]
    unfold SchedState.statics
    congr 1
    funext w
    by_cases h : w = v
    · subst h
      simp [SchedState.withVnode, SchedState.modifyVnode]
    · simp [SchedState.withVnode, SchedState.modifyVnode, h]
  | sleep c r v pc =>
    have hmark := statics_modifyVnode s v
      (f := fun n => { prioManage n 1 with needResched := false }) fun _ => rfl
    exact .inl hmark
  | bfsInsert c r u pc rqnode insert =>
    obtain ⟨head, -, rfl⟩ := rqInsert_eq_some insert
    exact .inl rfl
  | bfsMiss c u pc lookup =>
    rw [pTaskLookup_eq_none lookup]
    exact .inl rfl
  | bfsHit c r u pc lookup =>
    obtain ⟨-, -, -, hremove⟩ := pTaskLookup_eq_some lookup
    obtain ⟨p, -, rfl⟩ := rqRemove_eq_some hremove
    exact .inl rfl
  | bfsRun c r u pc run =>
    obtain ⟨m, hm, rfl⟩ := bfsRun_eq_some run
    left
    have hnr : ((bfsAssign s c r m).setPc c .bmq).statics.nrCpus = s.statics.nrCpus := by
      funext x
      simp only [SchedState.statics, bfsAssign, SchedState.setPc, SchedState.modifyCpu,
        SchedState.modifyRq]
      by_cases h : x = m
      · subst h
        rw [update_self]
      · rw [update_of_ne h]
    have hrest : ((bfsAssign s c r m).setPc c .bmq).statics =
        { s.statics with nrCpus := ((bfsAssign s c r m).setPc c .bmq).statics.nrCpus } := rfl
    rw [hrest, hnr]
  | bmqSpin c r u w pc rqnode requeue lookup =>
    left
    rw [show (w.setPc c (.bmqLookup r)).statics = w.statics from rfl, statics_vTaskLookup lookup,
      statics_bmqRequeue requeue]
  | bmqRun c r u v w pc rqnode requeue lookup =>
    left
    rw [statics_bmqRun_return, statics_vTaskLookup lookup, statics_bmqRequeue requeue]
  | bmqMiss c r u pc lookup =>
    left
    rw [show (u.setPc c (.bmqLookup r)).statics = u.statics from rfl, statics_vTaskLookup lookup]
  | bmqFind c r v u pc lookup =>
    left
    rw [statics_bmqRun_return, statics_vTaskLookup lookup]
  | _ => exact .inl rfl

/-! ### Coherence along steps -/

variable {cfg : SchedConfig} {s t : SchedState} {a : Action}

/-- Every vCPU that has a node belongs to the VM whose array it is in. -/
structure TablesWf (s : SchedState) : Prop where
  vcpu_vm : ∀ r m i, (s.rqnodeMemory r).vm = some m → i < (s.vms m).nrCpus →
    (s.vcpus ⟨m, i⟩).vm = m
  cur_vm : ∀ v, s.Created v → (s.vcpus (s.vpnodeMemory v).cur).vm = (s.vpnodeMemory v).cur.vm

theorem TablesWf.step (ht : TablesWf s) (hs : SchedWf cfg s) (h : SchedStep cfg s a t) :
    TablesWf t := by
  obtain ⟨e, -, hmove⟩ := h.move hs
  have hnode (r) : (t.rqnodeMemory r).vm = (s.rqnodeMemory r).vm := congrFun hmove.nodeVm r
  have hnr (hst : t.statics.nrCpus = s.statics.nrCpus) (m) : (t.vms m).nrCpus = (s.vms m).nrCpus :=
    congrFun hst m
  have hvm (hst : t.statics.vcpuVm = s.statics.vcpuVm) (vp) : (t.vcpus vp).vm = (s.vcpus vp).vm :=
    congrFun hst vp
  rcases h.statics with hst | ⟨r', m', i', v', hr', hi', hst⟩
  · refine ⟨fun r m i hr hi => ?_, fun v hv => ?_⟩
    · rw [hnode] at hr
      rw [hnr (by rw [hst])] at hi
      rw [hvm (by rw [hst])]
      exact ht.vcpu_vm r m i hr hi
    · have hcur : (t.vpnodeMemory v).cur = (s.vpnodeMemory v).cur :=
        congrFun (congrArg Statics.cur hst) v
      have hcreated : t.vpnodeMemBitmap = s.vpnodeMemBitmap := congrArg Statics.created hst
      rw [SchedState.Created, hcreated] at hv
      rw [hvm (by rw [hst]), hcur]
      exact ht.cur_vm v hv
  · refine ⟨fun r m i hr hi => ?_, fun v hv => ?_⟩
    · rw [hnode] at hr
      rw [hnr (by rw [hst])] at hi
      rw [hvm (by rw [hst])]
      exact ht.vcpu_vm r m i hr hi
    · have hcur : (t.vpnodeMemory v).cur = update s.statics.cur v' ⟨m', i'⟩ v :=
        congrFun (congrArg Statics.cur hst) v
      have hcreated : t.vpnodeMemBitmap = bitmapSet s.vpnodeMemBitmap v' :=
        congrArg Statics.created hst
      rw [SchedState.Created, hcreated, bitmapGet_set] at hv
      rw [hvm (by rw [hst]), hcur]
      by_cases hvv : v = v'
      · subst hvv
        rw [update_self]
        exact ht.vcpu_vm r' m' i' hr' hi'
      · rw [update_of_ne hvv]
        simp only [hvv, decide_false, Bool.false_or] at hv
        exact ht.cur_vm v hv

theorem VmReady.congr {c : PCpuId} {r : RNode} {m : VmId} (h : VmReady s c r m)
    (hvm : (t.rqnodeMemory r).vm = (s.rqnodeMemory r).vm)
    (hstate : (t.rqnodeMemory r).state = (s.rqnodeMemory r).state) (hvms : t.vms m = s.vms m)
    (hrqnode : (t.cpus c).rqnode = (s.cpus c).rqnode)
    (hvttbr : (t.cpus c).vttbrEl2 = (s.cpus c).vttbrEl2) : VmReady t c r m :=
  ⟨hrqnode.trans h.rqnode, hvm.trans h.vm, hstate.trans h.state, by rw [hvms]; exact h.master,
    by rw [hvttbr, hvms]; exact h.vttbr⟩

theorem VmReady.sameVm {c : PCpuId} {r : RNode} {m : VmId} (h : VmReady s c r m)
    (hsame : SameVm s t r m) (hrqnode : (t.cpus c).rqnode = (s.cpus c).rqnode)
    (hvttbr : (t.cpus c).vttbrEl2 = (s.cpus c).vttbrEl2) : VmReady t c r m :=
  h.congr hsame.vm hsame.state hsame.vms hrqnode hvttbr

theorem Coherent.sameVm {c : PCpuId} {r : RNode} {m : VmId} {v : VNode} (h : Coherent s c r m v)
    (hs : SchedWf cfg s) (hsame : SameVm s t r m)
    (hrqnode : (t.cpus c).rqnode = (s.cpus c).rqnode) (hvcpu : (t.cpus c).vcpu = (s.cpus c).vcpu)
    (hvttbr : (t.cpus c).vttbrEl2 = (s.cpus c).vttbrEl2)
    (hvmpidr : (t.cpus c).vmpidrEl2 = (s.cpus c).vmpidrEl2) : Coherent t c r m v := by
  obtain ⟨hcreated, hvm⟩ := hs.queues.run_mem r m v h.ready.vm h.run
  obtain ⟨hcur, hstate⟩ := hsame.vnode v hcreated hvm
  have hvcpus := hsame.vcpus (s.vpnodeMemory v).cur hvm
  refine ⟨h.ready.sameVm hsame hrqnode hvttbr, hsame.run.trans h.run, ?_, ?_, ?_, ?_,
    hstate.trans h.state⟩
  · rw [hvcpu, hcur]
    exact h.vcpu
  · rw [hcur, hvcpus]
    exact h.vcpu_vm
  · rw [hcur, hvcpus]
    exact h.owner
  · rw [hvmpidr, hcur, hvcpus]
    exact h.vmpidr

theorem VmReady.vTaskInsert {c : PCpuId} {r r' : RNode} {m : VmId} {v : VNode}
    (h : VmReady s c r m) (hinsert : vTaskInsert cfg s v r' = some t) : VmReady t c r m :=
  h.sameVm (.vTaskInsert hinsert) (by rw [vTaskInsert_cpus hinsert]) (by rw [vTaskInsert_cpus hinsert])

theorem VmReady.vTaskLookup {c : PCpuId} {r r' : RNode} {m : VmId} {v : Option VNode}
    (h : VmReady s c r m) (hlookup : vTaskLookup s r' = some (v, t)) : VmReady t c r m :=
  h.sameVm (.vTaskLookup hlookup) (by rw [vTaskLookup_cpus hlookup]) (by rw [vTaskLookup_cpus hlookup])

theorem VmReady.bmqRequeue {c : PCpuId} {r r' : RNode} {m : VmId} (h : VmReady s c r m)
    (hrequeue : bmqRequeue cfg s r' = some t) : VmReady t c r m := by
  rcases bmqRequeue_eq_some hrequeue with ⟨rfl, -⟩ | ⟨v, -, -, hinsert⟩
  · exact h
  · have hmark : VmReady (s.requeued v) c r m := h.congr rfl rfl rfl rfl rfl
    exact hmark.vTaskInsert hinsert

theorem VmReady.requeued {c : PCpuId} {r r' : RNode} {m : VmId} {p : PCpu} (h : VmReady s c r m)
    (hrequeued : Requeued cfg s p r' t) : VmReady t c r m := by
  rcases hrequeued with ⟨-, -, requeue⟩ | ⟨-, rfl⟩
  · exact h.bmqRequeue requeue
  · exact h

theorem VmReady.setPc {c : PCpuId} {r : RNode} {m : VmId} {pc : Pc} (h : VmReady s c r m) :
    VmReady (s.setPc c pc) c r m :=
  h.congr rfl rfl rfl (by rw [setPc_cpus, update_self]) (by rw [setPc_cpus, update_self])

/-- At the end of `bfs_scheduler` the VM level is right. -/
theorem vmReady_bfsAssign {c : PCpuId} {r : RNode} {m : VmId} {pc : Pc}
    (hvm : (s.rqnodeMemory r).vm = some m) : VmReady ((bfsAssign s c r m).setPc c pc) c r m := by
  refine VmReady.setPc ⟨?_, ?_, ?_, ?_, ?_⟩
  · rw [bfsAssign_cpus, update_self]
  · simp only [bfsAssign, SchedState.modifyCpu, SchedState.modifyRq, update_self]
    exact hvm
  · simp only [bfsAssign, SchedState.modifyCpu, SchedState.modifyRq, update_self]
  · simp only [bfsAssign, SchedState.modifyCpu, SchedState.modifyRq, update_self]
  · rw [bfsAssign_cpus, update_self]
    simp only [bfsAssign, SchedState.modifyCpu, SchedState.modifyRq, update_self]

/-- At the end of `bmq_scheduler` both levels are right. -/
theorem VmReady.bmqRun_return {c : PCpuId} {r : RNode} {m : VmId} {v : VNode}
    (h : VmReady s c r m) (hvm : (s.vcpus (s.vpnodeMemory v).cur).vm = m) :
    Coherent (tryRescheduleReturn (bmqRun s c r v) c) c r m v := by
  have hrq : ((tryRescheduleReturn (bmqRun s c r v) c).rqnodeMemory r) =
      { s.rqnodeMemory r with runVnode := some v } := by
    simp only [tryRescheduleReturn, bmqRun, bmqAssign, switchTo, SchedState.modifyCpu,
      SchedState.modifyRq, SchedState.modifyVnode, update_self]
  have hv : ((tryRescheduleReturn (bmqRun s c r v) c).vpnodeMemory v) =
      { s.vpnodeMemory v with
        state := .running
        timeSlice := BitVec.ofNat 64 bmqRrInterval
        needResched := false } := by
    simp only [tryRescheduleReturn, bmqRun, bmqAssign, switchTo, SchedState.modifyCpu,
      SchedState.modifyRq, SchedState.modifyVnode, update_self]
  have hvcpus : (tryRescheduleReturn (bmqRun s c r v) c).vcpus (s.vpnodeMemory v).cur =
      { s.vcpus (s.vpnodeMemory v).cur with pId := c } := by
    simp only [tryRescheduleReturn, bmqRun, bmqAssign, switchTo, SchedState.modifyCpu,
      SchedState.modifyRq, SchedState.modifyVnode, update_self]
  have hcpu : (tryRescheduleReturn (bmqRun s c r v) c).cpus c = { s.cpus c with
      vcpu := some (s.vpnodeMemory v).cur
      vmpidrEl2 := (s.vcpus (s.vpnodeMemory v).cur).vmpidr
      flag := false
      pc := .guest } := by
    rw [tryRescheduleReturn_cpus, update_self, bmqRun_cpus, update_self]
  have hvms : (tryRescheduleReturn (bmqRun s c r v) c).vms = s.vms := rfl
  refine ⟨h.congr (by rw [hrq]) (by rw [hrq]) (by rw [hvms]) (by rw [hcpu]) (by rw [hcpu]), by rw [hrq],
    by rw [hcpu, hv], ?_, ?_, ?_, by rw [hv]⟩
  · rw [hv, hvcpus]
    exact hvm
  · rw [hv, hvcpus]
  · rw [hcpu, hv, hvcpus]

/-- What the pCPUs run, in every reachable state. -/
structure ContextWf (s : SchedState) : Prop where
  flag : FlagWf s
  tables : TablesWf s
  ready : ∀ c, ((s.cpus c).pc = .bmq ∨ ∃ r, (s.cpus c).pc = .bmqLookup r) → ∃ r m, VmReady s c r m
  coherent : ∀ c, (s.cpus c).pc ≠ .boot → (s.cpus c).flag = false → ∃ r m v, Coherent s c r m v

/-- A pCPU at the vCPU level or in a guest holds its node. -/
theorem ContextWf.held (h : ContextWf s) {c : PCpuId} {r : RNode}
    (hr : (s.cpus c).rqnode = some r) (hpc : (s.cpus c).flag = false ∨ (s.cpus c).pc = .bmq ∨
      ∃ r, (s.cpus c).pc = .bmqLookup r) : (s.cpus c).held = some r := by
  rcases hpc with hflag | hpc | ⟨r', hpc⟩
  · rcases h.flag.set c hflag with hpc | hpc | ⟨r', v', hpc⟩ | hpc <;>
      simp only [PCpu.held, hpc, hr]
  · simp only [PCpu.held, hpc, hr]
  · simp only [PCpu.held, hpc, hr]

/-- The other pCPUs leave what a pCPU runs alone. -/
theorem ContextWf.other {c : PCpuId} {r : RNode} {m : VmId} (hc : ContextWf s) (hs : SchedWf cfg s)
    (h : SchedStep cfg s a t) (hne : c ≠ a.cpu) (hr : (s.rqnodeMemory r).vm = some m)
    (hheld : (s.cpus c).held = some r) : SameVm s t r m := by
  obtain ⟨l, hl⟩ := hs.rq.view
  exact h.sameVm hs hc.flag hr (.inl fun hactor => hne (hl.held_unique c a.cpu r hheld hactor))

/-- The vCPU that `bmq_scheduler` finds belongs to the VM. -/
theorem ContextWf.found_vm {c : PCpuId} {r : RNode} {m : VmId} {u w : SchedState} {v : VNode}
    (hc : ContextWf s) (hs : SchedWf cfg s) (hr : (s.rqnodeMemory r).vm = some m)
    (hrequeued : Requeued cfg s (s.cpus c) r u) (hlookup : vTaskLookup u r = some (some v, w)) :
    (w.vcpus (w.vpnodeMemory v).cur).vm = m := by
  have hu : u.queues.Wf cfg.vnodeNum ∧ u.queues.nodeVm r = some m ∧ u.statics = s.statics := by
    rcases hrequeued with ⟨-, -, requeue⟩ | ⟨-, rfl⟩
    · have hmove := queues_bmqRequeue hs.queues hr requeue
      refine ⟨hmove.wf hs.queues hr, ?_, statics_bmqRequeue requeue⟩
      rw [hmove.nodeVm]
      exact hr
    · exact ⟨hs.queues, hr, rfl⟩
  obtain ⟨hwf, hnode, hstatics⟩ := hu
  obtain ⟨i, hi, hlevel, -⟩ := queues_vTaskLookup hlookup
  obtain ⟨hcreated, hvm⟩ := hwf.level_mem r m i v hnode hi hlevel
  have hws : w.statics = s.statics := (statics_vTaskLookup hlookup).trans hstatics
  have hcur : (w.vpnodeMemory v).cur = (s.vpnodeMemory v).cur :=
    congrFun (congrArg Statics.cur hws) v
  have hucur : (u.vpnodeMemory v).cur = (s.vpnodeMemory v).cur :=
    congrFun (congrArg Statics.cur hstatics) v
  have hbitmap : u.vpnodeMemBitmap = s.vpnodeMemBitmap := congrArg Statics.created hstatics
  have hscreated : s.Created v := by
    rw [SchedState.Created, ← hbitmap]
    exact hcreated
  have hwvm : (w.vcpus (s.vpnodeMemory v).cur).vm = (s.vcpus (s.vpnodeMemory v).cur).vm :=
    congrFun (congrArg Statics.vcpuVm hws) _
  have huvm : (u.vpnodeMemory v).cur.vm = m := hvm
  rw [hcur, hwvm, hc.tables.cur_vm v hscreated, ← hucur, huvm]

theorem ContextWf.ready_step (hc : ContextWf s) (hs : SchedWf cfg s) (h : SchedStep cfg s a t)
    (c : PCpuId) (hpc : (t.cpus c).pc = .bmq ∨ ∃ r, (t.cpus c).pc = .bmqLookup r) :
    ∃ r m, VmReady t c r m := by
  obtain ⟨p, hp, hcpus⟩ := h.cpus
  by_cases hca : c = a.cpu
  · subst hca
    have hcpu : t.cpus a.cpu = p := by rw [hcpus, update_self]
    rw [hcpu] at hpc
    cases hp with
    | stay pc => rcases pc with pc | pc <;> simp [pc] at hpc
    | resched pc' pc flag next =>
      have hrqnode : (s.cpus a.cpu).rqnode ≠ none := by
        rcases next with ⟨rfl, -⟩ | ⟨-, hr⟩
        · simp at hpc
        · exact hr
      have hboot : (s.cpus a.cpu).pc ≠ .boot := fun hboot => hrqnode (hs.boot a.cpu hboot).2
      obtain ⟨r, m, v, hcoherent⟩ := hc.coherent a.cpu hboot flag
      have hsame := h.sameVm hs hc.flag hcoherent.ready.vm (.inr ⟨flag, by
        rw [hcpu]
        rintro rfl
        simp at hpc⟩)
      exact ⟨r, m, hcoherent.ready.sameVm hsame (by rw [hcpu]) (by rw [hcpu])⟩
    | assign r m vttbr pc vm assigned =>
      refine ⟨r, m, ?_⟩
      rw [assigned]
      exact vmReady_bfsAssign vm
    | spin r u requeued lookup spins =>
      obtain ⟨r', m, hready⟩ := hc.ready a.cpu (by
        rcases requeued with ⟨pc, -⟩ | ⟨pc, -⟩
        · exact .inl pc
        · exact .inr ⟨r, pc⟩)
      obtain rfl : r = r' :=
        Option.some.inj ((hs.requeued requeued).symm.trans hready.rqnode)
      refine ⟨r, m, ?_⟩
      rw [spins]
      exact (hready.requeued requeued).setPc
    | _ => simp at hpc
  · rw [hcpus, update_of_ne hca] at hpc
    obtain ⟨r, m, hready⟩ := hc.ready c hpc
    have hsame := hc.other hs h hca hready.vm (hc.held hready.rqnode (.inr hpc))
    exact ⟨r, m, hready.sameVm hsame (by rw [hcpus, update_of_ne hca])
      (by rw [hcpus, update_of_ne hca])⟩

theorem ContextWf.coherent_step (hc : ContextWf s) (hs : SchedWf cfg s) (h : SchedStep cfg s a t)
    (c : PCpuId) (hpc : (t.cpus c).pc ≠ .boot) (hflag : (t.cpus c).flag = false) :
    ∃ r m v, Coherent t c r m v := by
  obtain ⟨p, hp, hcpus⟩ := h.cpus
  by_cases hca : c = a.cpu
  · subst hca
    have hcpu : t.cpus a.cpu = p := by rw [hcpus, update_self]
    have hkeep (hp : (s.cpus a.cpu).pc ≠ .boot) (hf : (s.cpus a.cpu).flag = false)
        (hins : p.pc ≠ .bfsInsert) (hrqnode : p.rqnode = (s.cpus a.cpu).rqnode)
        (hvcpu : p.vcpu = (s.cpus a.cpu).vcpu) (hvttbr : p.vttbrEl2 = (s.cpus a.cpu).vttbrEl2)
        (hvmpidr : p.vmpidrEl2 = (s.cpus a.cpu).vmpidrEl2) : ∃ r m v, Coherent t a.cpu r m v := by
      obtain ⟨r, m, v, hcoherent⟩ := hc.coherent a.cpu hp hf
      have hsame := h.sameVm hs hc.flag hcoherent.ready.vm (.inr ⟨hf, by rwa [hcpu]⟩)
      exact ⟨r, m, v, hcoherent.sameVm hs hsame (by rwa [hcpu]) (by rwa [hcpu]) (by rwa [hcpu])
        (by rwa [hcpu])⟩
    rw [hcpu] at hpc hflag
    cases hp with
    | stay pc =>
      refine hkeep hpc hflag ?_ rfl rfl rfl rfl
      rcases pc with pc | pc <;> simp [pc]
    | halt busy =>
      refine hkeep (fun hboot => ?_) hflag (by simp) rfl rfl rfl rfl
      rcases busy with hne | hne
      · exact hne hboot
      · exact hne (hs.boot a.cpu hboot).2
    | tick r v guest => exact hkeep (by simp [guest]) hflag (by simp) rfl rfl rfl rfl
    | leave r v tick => exact hkeep (by simp [tick]) hflag (by simp) rfl rfl rfl rfl
    | busy pc flag => simp [flag] at hflag
    | resched => simp at hflag
    | keep r v pc flag rqnode =>
      refine hkeep (fun hboot => ?_) flag (by simp) rfl rfl rfl rfl
      rw [(hs.boot a.cpu hboot).2] at rqnode
      cases rqnode
    | run r u v w vcpu vmpidr requeued lookup runs =>
      obtain ⟨r', m, hready⟩ := hc.ready a.cpu (by
        rcases requeued with ⟨pc, -⟩ | ⟨pc, -⟩
        · exact .inl pc
        · exact .inr ⟨r, pc⟩)
      obtain rfl : r = r' :=
        Option.some.inj ((hs.requeued requeued).symm.trans hready.rqnode)
      refine ⟨r, m, v, ?_⟩
      rw [runs]
      exact ((hready.requeued requeued).vTaskLookup lookup).bmqRun_return
        (hc.found_vm hs hready.vm requeued lookup)
    | insert r pc =>
      rcases hc.flag.set a.cpu hflag with h | h | ⟨_, _, h⟩ | h <;> simp [pc] at h
    | hit r pc =>
      rcases hc.flag.set a.cpu hflag with h | h | ⟨_, _, h⟩ | h <;> simp [pc] at h
    | assign r m vttbr pc =>
      rcases hc.flag.set a.cpu hflag with h | h | ⟨_, _, h⟩ | h <;> simp [pc] at h
    | spin r u requeued =>
      rcases requeued with ⟨pc, -⟩ | ⟨pc, -⟩ <;>
        rcases hc.flag.set a.cpu hflag with h | h | ⟨_, _, h⟩ | h <;> simp [pc] at h
  · rw [hcpus, update_of_ne hca] at hpc hflag
    obtain ⟨r, m, v, hcoherent⟩ := hc.coherent c hpc hflag
    have hsame := hc.other hs h hca hcoherent.ready.vm (hc.held hcoherent.ready.rqnode (.inl hflag))
    exact ⟨r, m, v, hcoherent.sameVm hs hsame (by rw [hcpus, update_of_ne hca])
      (by rw [hcpus, update_of_ne hca]) (by rw [hcpus, update_of_ne hca])
      (by rw [hcpus, update_of_ne hca])⟩

theorem ContextWf.step (hc : ContextWf s) (hs : SchedWf cfg s) (h : SchedStep cfg s a t) :
    ContextWf t :=
  ⟨hc.flag.step hs h, hc.tables.step hs h, hc.ready_step hs h, hc.coherent_step hs h⟩

theorem contextWf_init (h : (schedMachine cfg).Init s) : ContextWf s := by
  obtain ⟨hwf, htables⟩ := vmmInit_wf cfg.nrVms h
  have hpc (c) := (hwf.cpus c).1
  refine ⟨⟨fun c _ => (hwf.cpus c).2.1, fun c _ => .inl (hpc c)⟩, ⟨fun r m i hr hi => ?_,
    fun v hv => ?_⟩, fun c hc => ?_, fun c hc => absurd (hpc c) hc⟩
  · have hm := hwf.vm_lt r m hr
    rw [htables.nrCpus m hm] at hi
    exact htables.vcpu_vm m hm i hi
  · obtain ⟨hm, hi⟩ := hwf.cur_lt v hv
    exact htables.vcpu_vm _ hm _ hi
  · rw [hpc] at hc
    rcases hc with hc | ⟨r, hc⟩ <;> cases hc

theorem Reachable.contextWf (h : (schedMachine cfg).Reachable s) : ContextWf s := by
  have hinv := h.invariant (P := fun s => SchedWf cfg s ∧ ContextWf s)
    (fun s hinit => ⟨(vmmInit_wf cfg.nrVms hinit).1.sched, contextWf_init hinit⟩)
    fun s a t hs hstep => ⟨hs.1.step (step_schedStep hstep), hs.2.step hs.1 (step_schedStep hstep)⟩
  exact hinv.2

/-- The first reschedule of `smallConfig`, up to the vCPU it lets run. -/
def firstActions : List Action :=
  [.call 0 .tryReschedule, .resume 0, .resume 0, .resume 0]

/-- The state of `smallConfig` when its first vCPU starts to run. -/
def firstRun : SchedState :=
  ((schedMachine smallConfig).run smallBoot firstActions).getD schedBoot

theorem firstRun_reachable : (schedMachine smallConfig).Reachable firstRun := by
  have hsome : ((schedMachine smallConfig).run smallBoot firstActions).isSome = true := by decide
  obtain ⟨t, ht⟩ := Option.isSome_iff_exists.mp hsome
  refine ⟨smallBoot, firstActions, smallBoot_init, Machine.run_eq_some_iff.mp ?_⟩
  rw [firstRun, ht]
  rfl

end Avisor
