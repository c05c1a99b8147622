import Avisor.Vgic.Machine

/-!
# The running context behind a restore

`checkpoint_snapshot_hanlder` copies the `struct vcpu` of the vCPU that runs, and
`restore_snapshot_hanlder_by_ss` copies it back, as a whole, to the one that runs then: its number, the
number of its pCPU, the pointer to its VM, its private interrupts and the links of the list they are
spilled on. The list registers of the pCPU are not in it, and stay as they are.
-/

namespace Avisor

open Function CircularList

/-! ### Copies of a vCPU -/

/-- A `struct list_head` in a `struct vcpu`: that of `arch.vgic_spilled`, or the node of a private
interrupt. -/
inductive VcpuLink
  | spilled
  | interrupt (n : Nat)
  deriving DecidableEq

/-- Its address in the `struct vcpu` of `v`. -/
def VcpuLink.addr (v : VcpuRef) : VcpuLink → ListPtr SpilledHead IntRef
  | .spilled => .head (.vcpu v)
  | .interrupt n => .node (.priv v n)

/-- The `struct list_head` of `v` at an address, if it is one. -/
def vcpuLinkAt (v : VcpuRef) : ListPtr SpilledHead IntRef → Option VcpuLink
  | .head (.vcpu w) => if w = v then some .spilled else none
  | .node (.priv w n) => if w = v then some (.interrupt n) else none
  | _ => none

/-- The fields of a `struct vcpu` that the scheduler and the virtual interrupt controller use: those of
`Vcpu`, `curr_lrs` and `interrupts` of `arch.vgic_priv`, and the links in it. -/
structure VcpuCopy where
  vcpu : Vcpu
  currLrs : Nat → Nat
  ints : Nat → VgicInt
  next : VcpuLink → ListPtr SpilledHead IntRef
  prev : VcpuLink → ListPtr SpilledHead IntRef

/-- `memcpy(&ss->vcpu, cpu()->vcpu, sizeof(struct vcpu))`. -/
def HvState.copyVcpu (x : HvState) (v : VcpuRef) : VcpuCopy where
  vcpu := x.sched.vcpus v
  currLrs := x.vgic.currLrs v
  ints n := x.vgic.ints (.priv v n)
  next k := x.vgic.links.next (k.addr v)
  prev k := x.vgic.links.prev (k.addr v)

namespace VcpuCopy

variable (copy : VcpuCopy) (v : VcpuRef)

/-- The interrupts behind a copy to `v`. -/
def pasteInts (ints : IntRef → VgicInt) : IntRef → VgicInt
  | .priv w n => if w = v then copy.ints n else ints (.priv w n)
  | .shared m n => ints (.shared m n)

/-- The links behind a copy to `v`. -/
def pasteLinks (L : Links (ListPtr SpilledHead IntRef)) : Links (ListPtr SpilledHead IntRef) where
  next p := ((vcpuLinkAt v p).map copy.next).getD (L.next p)
  prev p := ((vcpuLinkAt v p).map copy.prev).getD (L.prev p)

/-- The links of the copy, as if it was `v`; all other nodes are apart. -/
def links : Links (ListPtr SpilledHead IntRef) := copy.pasteLinks v ⟨id, id⟩

end VcpuCopy

/-- `memcpy(cpu()->vcpu, &ss->vcpu, sizeof(struct vcpu))`. -/
def HvState.pasteVcpu (x : HvState) (v : VcpuRef) (copy : VcpuCopy) : HvState where
  sched := { x.sched with vcpus := update x.sched.vcpus v copy.vcpu }
  vgic := { x.vgic with
    ints := copy.pasteInts v x.vgic.ints
    links := copy.pasteLinks v x.vgic.links
    currLrs := update x.vgic.currLrs v copy.currLrs }

/-! ### The machine -/

/-- A snapshot, as far as its vCPU goes. `taker` and `cpu` are not in the source: the vCPU that took it and
the pCPU it ran on. -/
structure VcpuSnapshot where
  copy : VcpuCopy
  taker : VcpuRef
  cpu : PCpuId

/-- The hypervisor with the snapshots that were taken, the latest first, and `first` of
`restore_snapshot_hanlder`. -/
structure SsState where
  hv : HvState
  taken : List VcpuSnapshot
  first : Bool

/-- What `restore_snapshot_hanlder` goes on to do. -/
inductive VcpuRestore
  | restart
  | load (e : VcpuSnapshot)
  | halt

/-- The choice of `restore_snapshot_hanlder`, where `LATEST_SSID` is `-1`; `none` where no snapshot has the
number, so that there is none to restore. -/
def SsState.toRestore (x : SsState) (arg0 : Nat) : Option VcpuRestore :=
  if arg0 = sizeMax then
    match x.taken.head? with
    | none => some .restart
    | some e => some (.load e)
  else if x.first = false then some .halt
  else if intMax < arg0 then none
  else x.taken.reverse[arg0]?.map .load

/-- A step of the hypervisor, or a call of one of the two handlers from the guest of pCPU `c`. -/
inductive SsAction
  | hv (a : HvAction)
  | checkpoint (c : PCpuId)
  | restore (c : PCpuId) (arg0 : Nat)

/-- `restore_snapshot_hanlder` on pCPU `c`, which runs `v`. `restart_vm` writes registers and the memory of
the VM only. -/
def restoreEffect (x : SsState) (c : PCpuId) (v : VcpuRef) (arg0 : Nat) : VcpuRestore → SsState
  | .restart => x
  | .load e => { x with hv := x.hv.pasteVcpu v e.copy, first := x.first && arg0 = sizeMax }
  | .halt => { x with hv := { x.hv with sched := x.hv.sched.setPc c .halted } }

/-- The vCPU whose guest pCPU `c` is in. -/
def HvState.inGuest (cfg : HvConfig) (x : HvState) (c : PCpuId) : Option VcpuRef :=
  if c < cfg.sched.hypNrCpus ∧ (x.sched.cpus c).pc = .guest then (x.sched.cpus c).vcpu else none

/-- The machine of the hypervisor with checkpoints and restores. -/
def ssMachine (cfg : HvConfig) : Machine SsState SsAction where
  Init x := (hvMachine cfg).Init x.hv ∧ x.taken = [] ∧ x.first = true
  step x
    | .hv a => ((hvMachine cfg).step x.hv a).map fun y => { x with hv := y }
    | .checkpoint c =>
      (x.hv.inGuest cfg c).map fun v => { x with taken := ⟨x.hv.copyVcpu v, v, c⟩ :: x.taken }
    | .restore c arg0 =>
      (x.hv.inGuest cfg c).bind fun v => (x.toRestore arg0).map (restoreEffect x c v arg0)

/-! ### What a restore keeps -/

/-- Behind a restore on pCPU `c`, which takes `x` to `y`, the vCPU `v` that runs there is on `c`, and still
has its number and its VM; each of its private interrupts that is marked `in_lr` has its number in the list
register it names, and the list of those that are spilled is in order. -/
structure KeepsContext (x y : HvState) (c : PCpuId) (v : VcpuRef) : Prop where
  pId : (y.sched.vcpus v).pId = c
  id : (y.sched.vcpus v).id = (x.sched.vcpus v).id
  vm : (y.sched.vcpus v).vm = (x.sched.vcpus v).vm
  held : ∀ n < gicCpuPriv, (y.vgic.ints (.priv v n)).inLr = true →
    (y.vgic.lr c (y.vgic.ints (.priv v n)).lr).vid = n
  spilled : ∃ l, Circle y.vgic.links (.head (.vcpu v)) l

/-- The restores of a snapshot keep the context. -/
def RestoreKeeps (cfg : HvConfig) (x : SsState) : SsAction → Prop
  | .restore c arg0 => ∀ v e y, x.hv.inGuest cfg c = some v → x.toRestore arg0 = some (.load e) →
      (ssMachine cfg).step x (.restore c arg0) = some y → KeepsContext x.hv y.hv c v
  | _ => True

/-- The vCPU `v` took the snapshot `e` on pCPU `c`, where it runs again; the list registers of the private
interrupts that were marked `in_lr` have their numbers now, and the list of the spilled ones was in order
and had private interrupts of `v` only. -/
structure SnapshotFits (x : HvState) (c : PCpuId) (v : VcpuRef) (e : VcpuSnapshot) : Prop where
  taker : e.taker = v
  cpu : e.cpu = c
  held : ∀ n < gicCpuPriv, (e.copy.ints n).inLr = true → (x.vgic.lr c (e.copy.ints n).lr).vid = n
  spilled : ∃ l : List Nat, Circle (e.copy.links v) (.head (.vcpu v)) (l.map fun n => .node (.priv v n))

/-- The restores are of snapshots that fit. -/
def RestoreFits (cfg : HvConfig) (x : SsState) : SsAction → Prop
  | .restore c arg0 => ∀ v e, x.hv.inGuest cfg c = some v → x.toRestore arg0 = some (.load e) →
      SnapshotFits x.hv c v e
  | _ => True

/-! ### What the scheduler writes to a vCPU -/

section

variable {cfg : SchedConfig} {s t : SchedState} {a : Action} {c : PCpuId} {r : RNode}

theorem vTaskInsert_vcpus {v : VNode} (h : vTaskInsert cfg s v r = some t) : t.vcpus = s.vcpus := by
  obtain ⟨next, levels, rfl, -⟩ := vTaskInsert_eq_some h
  rfl

theorem vTaskLookup_vcpus {v : Option VNode} (h : vTaskLookup s r = some (v, t)) :
    t.vcpus = s.vcpus := by
  cases v with
  | none => rw [(vTaskLookup_eq_none h).2]
  | some v =>
    obtain ⟨i, -, -, rfl⟩ := vTaskLookup_eq_some h
    rfl

theorem bmqRequeue_vcpus (h : bmqRequeue cfg s r = some t) : t.vcpus = s.vcpus := by
  rcases bmqRequeue_eq_some h with ⟨rfl, -⟩ | ⟨v, -, -, hinsert⟩
  · rfl
  · have hmark : (s.modifyVnode v fun n => n).vcpus = s.vcpus := rfl
    rw [vTaskInsert_vcpus hinsert]
    exact hmark

/-- Of a vCPU, a step writes the number of its pCPU only. -/
def SameVcpus (s t : SchedState) : Prop :=
  ∀ v, t.vcpus v = { s.vcpus v with pId := (t.vcpus v).pId }

theorem SameVcpus.of_eq (h : t.vcpus = s.vcpus) : SameVcpus s t := by
  intro v
  rw [h]

theorem sameVcpus_bmqRun_return {v : VNode} {u : SchedState} (h : u.vcpus = s.vcpus) :
    SameVcpus s (tryRescheduleReturn (bmqRun u c r v) c) := by
  intro w
  simp only [tryRescheduleReturn, bmqRun, bmqAssign, switchTo, SchedState.modifyCpu,
    SchedState.modifyRq, SchedState.modifyVnode, update_self]
  by_cases hw : w = (u.vpnodeMemory v).cur
  · subst hw
    rw [update_self, h]
  · rw [update_of_ne hw, h]

theorem SchedStep.sameVcpus (h : SchedStep cfg s a t) : SameVcpus s t := by
  cases h with
  | tickWake r v u q w pc rqnode run flag sleeper home insert =>
    have hstart : (wakeStart cfg s u).vcpus = s.vcpus := rfl
    have hinsert : w.vcpus = s.vcpus := (vTaskInsert_vcpus insert).trans hstart
    have hclear : ((slotCleared w).setPc 0 (.tick r v)).vcpus = w.vcpus := rfl
    exact .of_eq (hclear.trans hinsert)
  | reschedVm c r u pc flag rqnode expire =>
    obtain ⟨-, rfl⟩ := bfsExpire_eq_some expire
    exact .of_eq rfl
  | start c arg0 r m v u t pc rqnode vm arg create insert =>
    obtain ⟨-, -, hu⟩ := initializeVCpuNode_eq_some create
    have hnew : u.vcpus = s.vcpus := by
      rw [hu]
      rfl
    exact .of_eq ((vTaskInsert_vcpus insert).trans hnew)
  | bfsInsert c r u pc rqnode insert =>
    obtain ⟨head, -, rfl⟩ := rqInsert_eq_some insert
    exact .of_eq rfl
  | bfsMiss c u pc lookup =>
    rw [pTaskLookup_eq_none lookup]
    exact .of_eq rfl
  | bfsHit c r u pc lookup =>
    obtain ⟨-, -, -, hremove⟩ := pTaskLookup_eq_some lookup
    obtain ⟨p, -, rfl⟩ := rqRemove_eq_some hremove
    exact .of_eq rfl
  | bfsRun c r u pc run =>
    obtain ⟨m, hm, rfl⟩ := bfsRun_eq_some run
    exact .of_eq rfl
  | bmqSpin c r u w pc rqnode requeue lookup =>
    have hlookup : w.vcpus = s.vcpus := (vTaskLookup_vcpus lookup).trans (bmqRequeue_vcpus requeue)
    exact .of_eq hlookup
  | bmqRun c r u v w pc rqnode requeue lookup =>
    exact sameVcpus_bmqRun_return ((vTaskLookup_vcpus lookup).trans (bmqRequeue_vcpus requeue))
  | bmqMiss c r u pc lookup =>
    have hlookup : u.vcpus = s.vcpus := vTaskLookup_vcpus lookup
    exact .of_eq hlookup
  | bmqFind c r v u pc lookup => exact sameVcpus_bmqRun_return (vTaskLookup_vcpus lookup)
  | _ => exact .of_eq rfl

/-! ### A pCPU stops in its guest -/

theorem held_stopped (hpc : (s.cpus c).pc = .guest) (d : PCpuId) :
    ((s.setPc c .halted).cpus d).held = (s.cpus d).held := by
  rw [setPc_cpus]
  by_cases hd : d = c
  · subst hd
    simp only [update_self, PCpu.held, hpc]
  · rw [update_of_ne hd]

theorem pc_halted {pc : Pc} (hne : pc ≠ .halted) {d : PCpuId} (h : ((s.setPc c .halted).cpus d).pc = pc) :
    (s.setPc c .halted).cpus d = s.cpus d := by
  rw [setPc_cpus] at h ⊢
  by_cases hd : d = c
  · subst hd
    rw [update_self] at h
    exact absurd h.symm hne
  · rw [update_of_ne hd]

theorem SchedWf.halted (h : SchedWf cfg s) (hpc : (s.cpus c).pc = .guest) :
    SchedWf cfg (s.setPc c .halted) where
  rq := by
    have hview : (s.setPc c .halted).rqView = s.rqView := by
      have hheld : (s.setPc c .halted).rqView.held = s.rqView.held := funext (held_stopped hpc)
      have hsame : (s.setPc c .halted).rqView =
        { s.rqView with held := (s.setPc c .halted).rqView.held } := rfl
      rw [hsame, hheld]
    refine ⟨hview ▸ h.rq.view, fun d r hr => ?_⟩
    rw [setPc_cpus] at hr
    by_cases hd : d = c
    · subst hd
      rw [update_self] at hr
      exact h.rq.rqnode_vm d r hr
    · rw [update_of_ne hd] at hr
      exact h.rq.rqnode_vm d r hr
  queues := h.queues
  started := h.started
  boot d hd := by
    have hsame := pc_halted (by simp) hd
    rw [hsame] at hd ⊢
    exact h.boot d hd
  guest d hd := by
    have hsame : (s.setPc c .halted).cpus d = s.cpus d := by
      rcases hd with hd | ⟨r, v, hd⟩
      · exact pc_halted (by simp) hd
      · exact pc_halted (by simp) hd
    rw [hsame] at hd ⊢
    exact h.guest d hd
  bmqLookup d r hd := by
    have hsame := pc_halted (by simp) hd
    rw [hsame] at hd ⊢
    exact h.bmqLookup d r hd

theorem Coherent.halted {d : PCpuId} {m : VmId} {v : VNode} (h : Coherent s d r m v) :
    Coherent (s.setPc c .halted) d r m v := by
  have hcpu : ((s.setPc c .halted).cpus d).rqnode = (s.cpus d).rqnode ∧
      ((s.setPc c .halted).cpus d).vcpu = (s.cpus d).vcpu ∧
      ((s.setPc c .halted).cpus d).vttbrEl2 = (s.cpus d).vttbrEl2 ∧
      ((s.setPc c .halted).cpus d).vmpidrEl2 = (s.cpus d).vmpidrEl2 := by
    rw [setPc_cpus]
    by_cases hd : d = c
    · subst hd
      rw [update_self]
      exact ⟨rfl, rfl, rfl, rfl⟩
    · rw [update_of_ne hd]
      exact ⟨rfl, rfl, rfl, rfl⟩
  obtain ⟨hrqnode, hvcpu, hvttbr, hvmpidr⟩ := hcpu
  exact ⟨h.ready.congr rfl rfl rfl hrqnode hvttbr, h.run, hvcpu.trans h.vcpu, h.vcpu_vm, h.owner,
    hvmpidr.trans h.vmpidr, h.state⟩

theorem ContextWf.halted (h : ContextWf s) (hpc : (s.cpus c).pc = .guest) :
    ContextWf (s.setPc c .halted) where
  flag := by
    constructor
    · intro d hd
      have hsame : (s.setPc c .halted).cpus d = s.cpus d := by
        rcases hd with hd | ⟨r, v, hd⟩
        · exact pc_halted (by simp) hd
        · exact pc_halted (by simp) hd
      rw [hsame] at hd ⊢
      exact h.flag.clear d hd
    · intro d hd
      rw [setPc_cpus] at hd ⊢
      by_cases hdc : d = c
      · subst hdc
        rw [update_self]
        exact .inr (.inr (.inr rfl))
      · rw [update_of_ne hdc] at hd ⊢
        exact h.flag.set d hd
  tables := ⟨h.tables.vcpu_vm, h.tables.cur_vm⟩
  ready d hd := by
    have hsame : (s.setPc c .halted).cpus d = s.cpus d := by
      rcases hd with hd | ⟨r, hd⟩
      · exact pc_halted (by simp) hd
      · exact pc_halted (by simp) hd
    rw [hsame] at hd
    obtain ⟨r, m, hready⟩ := h.ready d hd
    exact ⟨r, m, hready.congr rfl rfl rfl (by rw [hsame]) (by rw [hsame])⟩
  coherent d hd hflag := by
    have hbefore : (s.cpus d).pc ≠ .boot ∧ (s.cpus d).flag = false := by
      rw [setPc_cpus] at hd hflag
      by_cases hdc : d = c
      · subst hdc
        rw [update_self] at hflag
        rw [hpc]
        exact ⟨by simp, hflag⟩
      · rw [update_of_ne hdc] at hd hflag
        exact ⟨hd, hflag⟩
    obtain ⟨r, m, v, hcoherent⟩ := h.coherent d hbefore.1 hbefore.2
    exact ⟨r, m, v, hcoherent.halted⟩

end

/-! ### Links that are copied -/

section

variable {copy : VcpuCopy} {v : VcpuRef} {L : Links (ListPtr SpilledHead IntRef)}

theorem vcpuLinkAt_addr (k : VcpuLink) : vcpuLinkAt v (k.addr v) = some k := by
  cases k with
  | spilled => exact if_pos rfl
  | interrupt n => exact if_pos rfl

theorem pasteLinks_addr (k : VcpuLink) : (copy.pasteLinks v L).next (k.addr v) = copy.next k ∧
    (copy.pasteLinks v L).prev (k.addr v) = copy.prev k := by
  simp only [VcpuCopy.pasteLinks, vcpuLinkAt_addr, Option.map_some, Option.getD_some, and_self]

/-- A list of private interrupts of the vCPU comes back as it was copied. -/
theorem circle_pasteLinks {l : List Nat}
    (h : Circle (copy.links v) (.head (.vcpu v)) (l.map fun n => .node (.priv v n))) :
    Circle (copy.pasteLinks v L) (.head (.vcpu v)) (l.map fun n => .node (.priv v n)) := by
  have hown (p) (hp : p ∈ .head (.vcpu v) :: l.map fun n => ListPtr.node (IntRef.priv v n)) :
      ∃ k : VcpuLink, p = k.addr v := by
    rcases List.mem_cons.mp hp with rfl | hp
    · exact ⟨.spilled, rfl⟩
    · obtain ⟨n, -, rfl⟩ := List.mem_map.mp hp
      exact ⟨.interrupt n, rfl⟩
  apply h.congr
  · intro p hp
    obtain ⟨k, rfl⟩ := hown p hp
    exact (pasteLinks_addr k).1.trans (pasteLinks_addr k).1.symm
  · intro p hp
    obtain ⟨k, rfl⟩ := hown p hp
    exact (pasteLinks_addr k).2.trans (pasteLinks_addr k).2.symm

end

/-! ### Runs -/

variable {cfg : HvConfig} {x y : SsState} {a : SsAction} {c : PCpuId} {v : VcpuRef} {e : VcpuSnapshot}

/-- The vCPU a pCPU runs is its own, and each snapshot has its vCPU as it is but for the pCPU, which is the
one where it was taken. -/
structure SsWf (cfg : HvConfig) (x : SsState) : Prop where
  sched : SchedWf cfg.sched x.hv.sched
  context : ContextWf x.hv.sched
  taken : ∀ e ∈ x.taken, e.copy.vcpu = { x.hv.sched.vcpus e.taker with pId := e.cpu }

theorem inGuest_eq_some {x : HvState} (h : x.inGuest cfg c = some v) :
    (x.sched.cpus c).pc = .guest ∧ (x.sched.cpus c).vcpu = some v := by
  unfold HvState.inGuest at h
  split at h
  · rename_i hguard
    exact ⟨hguard.2, h⟩
  · cases h

theorem SsWf.owner (h : SsWf cfg x) (hin : x.hv.inGuest cfg c = some v) :
    (x.hv.sched.vcpus v).pId = c := by
  obtain ⟨hpc, hvcpu⟩ := inGuest_eq_some hin
  have hflag := h.context.flag.clear c (.inl hpc)
  obtain ⟨r, m, n, hcoherent⟩ := h.context.coherent c (by simp [hpc]) hflag
  have heq := hvcpu.symm.trans hcoherent.vcpu
  rw [Option.some.inj heq]
  exact hcoherent.owner

theorem SsWf.init (h : (ssMachine cfg).Init x) : SsWf cfg x := by
  obtain ⟨⟨hsched, -⟩, htaken, -⟩ := h
  refine ⟨(vmmInit_wf cfg.sched.nrVms hsched).1.sched, contextWf_init hsched, fun e he => ?_⟩
  rw [htaken] at he
  cases he

/-- A step that leaves the vCPUs but for their pCPUs leaves the snapshots right. -/
theorem SsWf.taken_congr (h : SsWf cfg x) {t : SchedState} (hsame : SameVcpus x.hv.sched t) :
    ∀ e ∈ x.taken, e.copy.vcpu = { t.vcpus e.taker with pId := e.cpu } := by
  intro e he
  rw [h.taken e he, hsame e.taker]

theorem SsWf.stop (h : SsWf cfg x) (hpc : (x.hv.sched.cpus c).pc = .guest) :
    SsWf cfg { x with hv := { x.hv with sched := x.hv.sched.setPc c .halted } } where
  sched := h.sched.halted hpc
  context := h.context.halted hpc
  taken := h.taken

theorem SsWf.hvStep (h : SsWf cfg x) {b : HvAction} {z : HvState} (hstep : HvStep cfg x.hv b z) :
    SsWf cfg { x with hv := z } := by
  cases hstep with
  | sched a t step taken =>
    exact ⟨h.sched.step step, h.context.step h.sched step, h.taken_congr step.sameVcpus⟩
  | vgic c call vcpu t cpu pc vcpu_eq enabled effect => exact ⟨h.sched, h.context, h.taken⟩
  | halt c call vcpu cpu pc vcpu_eq effect => exact h.stop pc

theorem SsWf.checkpoint (h : SsWf cfg x) (hin : x.hv.inGuest cfg c = some v) :
    SsWf cfg { x with taken := ⟨x.hv.copyVcpu v, v, c⟩ :: x.taken } where
  sched := h.sched
  context := h.context
  taken e he := by
    rcases List.mem_cons.mp he with rfl | he
    · have howner := h.owner hin
      show x.hv.sched.vcpus v = { x.hv.sched.vcpus v with pId := c }
      rw [← howner]
    · exact h.taken e he

theorem toRestore_mem {arg0 : Nat} (h : x.toRestore arg0 = some (.load e)) : e ∈ x.taken := by
  unfold SsState.toRestore at h
  split at h
  · split at h
    · cases h
    · rename_i hhead
      cases h
      exact List.mem_of_mem_head? hhead
  · split at h
    · cases h
    · split at h
      · cases h
      · obtain ⟨e', hget, heq⟩ := Option.map_eq_some_iff.mp h
        cases heq
        exact List.mem_reverse.mp (List.mem_of_getElem? hget)

/-- The vCPU of a snapshot that fits is the one that runs. -/
theorem SsWf.copy_eq (h : SsWf cfg x) (hin : x.hv.inGuest cfg c = some v) (he : e ∈ x.taken)
    (hfits : SnapshotFits x.hv c v e) : e.copy.vcpu = x.hv.sched.vcpus v := by
  have howner := h.owner hin
  rw [h.taken e he, hfits.taker, hfits.cpu, ← howner]

theorem SsWf.load (h : SsWf cfg x) (hin : x.hv.inGuest cfg c = some v) (he : e ∈ x.taken)
    (hfits : SnapshotFits x.hv c v e) :
    (x.hv.pasteVcpu v e.copy).sched = x.hv.sched := by
  rw [HvState.pasteVcpu, h.copy_eq hin he hfits, update_eq_self]

theorem SsWf.keepsContext (h : SsWf cfg x) (hin : x.hv.inGuest cfg c = some v) (he : e ∈ x.taken)
    (hfits : SnapshotFits x.hv c v e) : KeepsContext x.hv (x.hv.pasteVcpu v e.copy) c v := by
  have hsched := h.load hin he hfits
  have hints (n : Nat) : (x.hv.pasteVcpu v e.copy).vgic.ints (.priv v n) = e.copy.ints n := if_pos rfl
  constructor
  · rw [hsched]
    exact h.owner hin
  · rw [hsched]
  · rw [hsched]
  · intro n hn hinLr
    rw [hints] at hinLr ⊢
    exact hfits.held n hn hinLr
  · obtain ⟨l, hl⟩ := hfits.spilled
    exact ⟨_, circle_pasteLinks hl⟩

theorem restore_eq_some {arg0 : Nat} (h : (ssMachine cfg).step x (.restore c arg0) = some y) :
    ∃ v r, x.hv.inGuest cfg c = some v ∧ x.toRestore arg0 = some r ∧ y = restoreEffect x c v arg0 r := by
  obtain ⟨v, hin, h⟩ := Option.bind_eq_some_iff.mp h
  obtain ⟨r, hr, rfl⟩ := Option.map_eq_some_iff.mp h
  exact ⟨v, r, hin, hr, rfl⟩

theorem restore_step {arg0 : Nat} {r : VcpuRestore} (hin : x.hv.inGuest cfg c = some v)
    (hr : x.toRestore arg0 = some r) :
    (ssMachine cfg).step x (.restore c arg0) = some (restoreEffect x c v arg0 r) := by
  simp only [ssMachine, hin, hr, Option.bind_some, Option.map_some]

/-- A step with snapshots that fit only. -/
theorem SsWf.step (h : SsWf cfg x) (hfits : RestoreFits cfg x a)
    (hstep : (ssMachine cfg).step x a = some y) : SsWf cfg y := by
  cases a with
  | hv b =>
    obtain ⟨z, hz, rfl⟩ := Option.map_eq_some_iff.mp hstep
    exact h.hvStep (step_hvStep hz)
  | checkpoint c =>
    obtain ⟨v, hin, rfl⟩ := Option.map_eq_some_iff.mp hstep
    exact h.checkpoint hin
  | restore c arg0 =>
    obtain ⟨v, r, hin, hr, rfl⟩ := restore_eq_some hstep
    cases r with
    | restart => exact h
    | load e =>
      have hsched := h.load hin (toRestore_mem hr) (hfits v e hin hr)
      exact ⟨hsched ▸ h.sched, hsched ▸ h.context, hsched ▸ h.taken⟩
    | halt => exact h.stop (inGuest_eq_some hin).1

theorem SsWf.keeps (h : SsWf cfg x) (hfits : RestoreFits cfg x a) : RestoreKeeps cfg x a := by
  cases a with
  | restore c arg0 =>
    intro v e y hin hload hstep
    obtain ⟨v', r, hin', hr, rfl⟩ := restore_eq_some hstep
    obtain rfl := Option.some.inj (hin.symm.trans hin')
    obtain rfl := Option.some.inj (hload.symm.trans hr)
    exact h.keepsContext hin (toRestore_mem hload) (hfits v e hin hload)
  | hv | checkpoint => exact trivial

/-- They boot, and there is no snapshot. -/
def twoVmsUnsaved : SsState where
  hv := twoVmsBoot .v2
  taken := []
  first := true

/-- The two VMs on two pCPUs with one list register each. -/
def twoVmsSs : Machine SsState SsAction := ssMachine (twoVms .v2 1 Nat.one_pos)

/-- pCPU 0 starts a vCPU, which takes a snapshot. -/
def startSaved : List SsAction := startFirst.map .hv ++ [.checkpoint 0]

theorem sched_vgic {b : Action} (h : (ssMachine cfg).step x (.hv (.sched b)) = some y) :
    y.hv.vgic = x.hv.vgic := by
  obtain ⟨z, hz, rfl⟩ := Option.map_eq_some_iff.mp h
  obtain ⟨t, -, rfl⟩ := Option.map_eq_some_iff.mp hz
  rfl

/-- pCPU 1 starts the vCPU of a VM that has waited. -/
def startOnSecond : List HvAction :=
  [.sched (.call 1 .tryReschedule), .sched (.resume 1), .sched (.resume 1), .sched (.resume 1)]

/-- pCPU 0 goes on with the other VM, and pCPU 1 with the one that took the snapshot. -/
def migrate : List SsAction := (changeVm ++ startOnSecond).map .hv

/-- The state then. -/
def migrated : SsState := (twoVmsSs.run twoVmsUnsaved (startSaved ++ migrate)).getD twoVmsUnsaved

end Avisor
