import Avisor.Sched.Context

/-!
# Hypercalls

A guest's `HVC` reaches `hypercall_handler` with its immediate and three registers, all as the guest
chose them. The immediate is the index into the table of handlers, and the first register of a start
hypercall the index into the VM's array of vCPUs. Neither is compared with the size of its array: the
memory behind the table is read as a further handler, and the registers of a `struct vcpu` behind the
array are overwritten.
-/

namespace Avisor

open Function

/-- `struct vcpu_regs`. -/
structure VcpuRegs where
  x : Fin 31 → BitVec 64
  spsrEl2 : BitVec 64
  elrEl2 : BitVec 64
  spEl1 : BitVec 64

/-- The state of the hypervisor and its VMs: the scheduler, the registers of the vCPUs, and whatever
else there is. At an index from `nr_cpus` on, `regs` is the memory behind the VM's array. -/
structure HypState (ρ : Type*) where
  sched : SchedState
  regs : VcpuRef → VcpuRegs
  rest : ρ

/-- The functions in the table of handlers. -/
inductive HypercallHandler
  | guestHaltHanlder
  | checkpointSnapshotHanlder
  | restoreSnapshotHanlder
  | rqOpenHanlder
  | rqCloseHanlder
  | rqAttachHanlder
  | rqDetachHanlder
  | schedStartHandler
  | schedIoHandler
  deriving DecidableEq, Repr

/-- `hypercall_handlers`; the positions are those of `HYPERCALL_TYPE`. -/
def hypercallHandlers : List HypercallHandler :=
  [.guestHaltHanlder, .checkpointSnapshotHanlder, .restoreSnapshotHanlder, .rqOpenHanlder,
    .rqCloseHanlder, .rqAttachHanlder, .rqDetachHanlder, .schedStartHandler, .schedIoHandler]

/-- `HYPERCALL_ISS_SCHE_START`. -/
def hypercallIssScheStart : Nat := 7

/-- How a call ends, with the state it leaves. -/
inductive Outcome (σ : Type*)
  | returned (state : σ)
  /-- In the loop of an `ERROR`. -/
  | looped (state : σ)
  /-- At a fault taken in the hypervisor. -/
  | faulted (state : σ)
  /-- The pCPU goes on at an address that is not one of the handlers. -/
  | jumped (address : BitVec 64) (state : σ)

def Outcome.state {σ : Type*} : Outcome σ → σ
  | .returned x | .looped x | .faulted x | .jumped _ x => x

/-- What the dispatch depends on beyond the scheduler: the words in memory behind the table, and the
effects of the handlers in `core/lcm.c` and `core/rq.c` and of a data abort. -/
structure HypEnv (ρ : Type*) where
  behind : Nat → BitVec 64
  handler : HypercallHandler → HypState ρ → PCpuId → BitVec 64 → BitVec 64 → BitVec 64 →
    Outcome (HypState ρ)
  abortsDataLower : HypState ρ → PCpuId → BitVec 64 → Outcome (HypState ρ)

variable {ρ : Type*}

/-- The VM of `cpu()->rqnode`, the one that makes a start hypercall. -/
def SchedState.callerVm (s : SchedState) (c : PCpuId) : Option VmId :=
  (s.cpus c).rqnode.bind fun rqnode => (s.rqnodeMemory rqnode).vm

/-- `sched_start_handler` as a whole: the new vCPU starts with the caller's registers, at `arg1`. -/
def schedStart (cfg : SchedConfig) (x : HypState ρ) (c : PCpuId) (arg0 arg1 : BitVec 64) :
    Outcome (HypState ρ) :=
  match x.sched.callerVm c, (x.sched.cpus c).vcpu with
  | some vm, some vcpu =>
    let targetVcpu : VcpuRef := ⟨vm, arg0.toNat⟩
    let x := { x with regs := update x.regs targetVcpu { x.regs vcpu with elrEl2 := arg1 } }
    match schedStartHandler cfg x.sched c arg0.toNat with
    | some s => .returned { x with sched := s }
    | none => .faulted x
  | _, _ => .faulted x

/-- `hypercall_handler`. -/
def hypercallHandler (cfg : SchedConfig) (env : HypEnv ρ) (x : HypState ρ) (c : PCpuId)
    (iss arg0 arg1 arg2 : BitVec 64) : Outcome (HypState ρ) :=
  match hypercallHandlers[iss.toNat]? with
  | some .schedStartHandler => schedStart cfg x c arg0 arg1
  | some .schedIoHandler =>
    match schedIoHandler x.sched c with
    | some s => .returned { x with sched := s }
    | none => .faulted x
  | some handler => env.handler handler x c arg0 arg1 arg2
  | none =>
    let handler := env.behind (iss.toNat - hypercallHandlers.length)
    if handler = 0 then .looped x else .jumped handler x

def esrEcHvc64 : BitVec 64 := 0x16
def esrEcDalel : BitVec 64 := 0x24

/-- The field `ESR_EC` of the syndrome. -/
def esrEc (hsr : BitVec 64) : BitVec 64 := bit64Extract hsr 26 6

/-- The field `ESR_ISS` of the syndrome. -/
def esrIss (hsr : BitVec 64) : BitVec 64 := bit64Extract hsr 0 25

/-- `aborts_sync_hanlder` on pCPU `c`, where `hsr` is its `ESR_EL2`. -/
def abortsSyncHanlder (cfg : SchedConfig) (env : HypEnv ρ) (x : HypState ρ) (c : PCpuId)
    (hsr : BitVec 64) : Outcome (HypState ρ) :=
  if esrEc hsr = esrEcDalel then env.abortsDataLower x c (esrIss hsr)
  else if esrEc hsr = esrEcHvc64 then
    match (x.sched.cpus c).vcpu with
    | none => .faulted x
    | some vcpu =>
      hypercallHandler cfg env x c (esrIss hsr) ((x.regs vcpu).x 0) ((x.regs vcpu).x 1)
        ((x.regs vcpu).x 2)
  else .returned x

/-! ### What a call may reach -/

/-- Of the vCPUs only `target` has changed from `x` to `y`. -/
structure TouchesOnly (target : VcpuRef) (x y : HypState ρ) : Prop where
  regs : ∀ vp, vp ≠ target → y.regs vp = x.regs vp
  vcpus : ∀ vp, vp ≠ target → y.sched.vcpus vp = x.sched.vcpus vp

/-- A hypercall with the immediate `iss` and the first register `arg0` ends with an error and changes
nothing; or it goes to an entry of the table, and a start hypercall of it to a vCPU of the caller. -/
def Contained (x : HypState ρ) (c : PCpuId) (iss arg0 : BitVec 64) (o : Outcome (HypState ρ)) :
    Prop :=
  o = .looped x ∨
    iss.toNat < hypercallHandlers.length ∧
      (iss.toNat = hypercallIssScheStart → ∀ vm, x.sched.callerVm c = some vm →
        arg0.toNat < (x.sched.vms vm).nrCpus ∧ TouchesOnly ⟨vm, arg0.toNat⟩ x o.state)

variable {cfg : SchedConfig} {env : HypEnv ρ} {x : HypState ρ} {c : PCpuId}

theorem schedStartHandler_vcpus {s t : SchedState} {arg0 : Nat}
    (h : schedStartHandler cfg s c arg0 = some t) : t.vcpus = s.vcpus := by
  obtain ⟨r, -, hvm⟩ := Option.bind_eq_some_iff.mp h
  obtain ⟨m, -, hnode⟩ := Option.bind_eq_some_iff.mp hvm
  obtain ⟨⟨v, u⟩, hu, hinsert⟩ := Option.bind_eq_some_iff.mp hnode
  obtain ⟨-, -, rfl⟩ := initializeVCpuNode_eq_some hu
  obtain ⟨next, levels, rfl, -⟩ := vTaskInsert_eq_some hinsert
  rfl

/-- A start hypercall ends at its return or at a fault, and touches the vCPU it names. -/
theorem schedStart_touchesOnly {vm : VmId} (arg0 arg1 : BitVec 64)
    (hvm : x.sched.callerVm c = some vm) :
    TouchesOnly ⟨vm, arg0.toNat⟩ x (schedStart cfg x c arg0 arg1).state := by
  cases hvcpu : (x.sched.cpus c).vcpu with
  | none =>
    simp only [schedStart, hvm, hvcpu]
    exact ⟨fun _ _ => rfl, fun _ _ => rfl⟩
  | some vcpu =>
    cases hstart : schedStartHandler cfg x.sched c arg0.toNat with
    | none =>
      simp only [schedStart, hvm, hvcpu, hstart]
      exact ⟨fun vp hvp => update_of_ne hvp _ _, fun _ _ => rfl⟩
    | some s =>
      simp only [schedStart, hvm, hvcpu, hstart]
      exact ⟨fun vp hvp => update_of_ne hvp _ _,
        fun vp _ => congrFun (schedStartHandler_vcpus hstart) vp⟩

theorem schedStart_ne_looped (arg0 arg1 : BitVec 64) (y : HypState ρ) :
    schedStart cfg x c arg0 arg1 ≠ .looped y := by
  unfold schedStart
  split
  · dsimp only
    split <;> exact nofun
  · exact nofun

/-- The entry for start hypercalls is the only one at its position. -/
theorem hypercallHandler_scheStart {iss : BitVec 64} (arg0 arg1 arg2 : BitVec 64)
    (hiss : iss.toNat = hypercallIssScheStart) :
    hypercallHandler cfg env x c iss arg0 arg1 arg2 = schedStart cfg x c arg0 arg1 := by
  unfold hypercallHandler
  rw [hiss]
  rfl

/-- Behind the table the word there decides. -/
theorem hypercallHandler_behind {iss : BitVec 64} (arg0 arg1 arg2 : BitVec 64)
    (hiss : hypercallHandlers.length ≤ iss.toNat) :
    hypercallHandler cfg env x c iss arg0 arg1 arg2 =
      if env.behind (iss.toNat - hypercallHandlers.length) = 0 then .looped x
      else .jumped (env.behind (iss.toNat - hypercallHandlers.length)) x := by
  unfold hypercallHandler
  rw [List.getElem?_eq_none hiss]

theorem hypercallHandler_contained_iff (iss arg0 arg1 arg2 : BitVec 64) :
    Contained x c iss arg0 (hypercallHandler cfg env x c iss arg0 arg1 arg2) ↔
      (iss.toNat < hypercallHandlers.length ∨
        env.behind (iss.toNat - hypercallHandlers.length) = 0) ∧
      (iss.toNat = hypercallIssScheStart → ∀ vm, x.sched.callerVm c = some vm →
        arg0.toNat < (x.sched.vms vm).nrCpus) := by
  have hlength : hypercallIssScheStart < hypercallHandlers.length := by decide
  by_cases hiss : iss.toNat < hypercallHandlers.length
  · by_cases hstart : iss.toNat = hypercallIssScheStart
    · rw [hypercallHandler_scheStart arg0 arg1 arg2 hstart]
      constructor
      · rintro (hlooped | ⟨-, htouches⟩)
        · exact absurd hlooped (schedStart_ne_looped arg0 arg1 x)
        · exact ⟨.inl hiss, fun _ vm hvm => (htouches hstart vm hvm).1⟩
      · rintro ⟨-, hlt⟩
        right
        exact ⟨hiss, fun _ vm hvm =>
          ⟨hlt hstart vm hvm, schedStart_touchesOnly arg0 arg1 hvm⟩⟩
    · refine iff_of_true (.inr ⟨hiss, fun h => absurd h hstart⟩) ⟨.inl hiss, fun h => absurd h hstart⟩
  · have hother : iss.toNat ≠ hypercallIssScheStart := by omega
    rw [hypercallHandler_behind arg0 arg1 arg2 (Nat.le_of_not_lt hiss)]
    by_cases hnull : env.behind (iss.toNat - hypercallHandlers.length) = 0
    · rw [if_pos hnull]
      exact iff_of_true (.inl rfl) ⟨.inr hnull, fun h => absurd h hother⟩
    · rw [if_neg hnull]
      refine iff_of_false ?_ fun h => h.1.elim hiss hnull
      rintro (hlooped | ⟨hlt, -⟩)
      · cases hlooped
      · exact hiss hlt

/-- An `HVC` of a guest stays within the tables exactly if its immediate is the position of a handler,
or of a null word behind the table, and a start hypercall names a vCPU of its VM. -/
theorem abortsSyncHanlder_contained_iff {hsr : BitVec 64} {vcpu : VcpuRef}
    (hvcpu : (x.sched.cpus c).vcpu = some vcpu) (hec : esrEc hsr = esrEcHvc64) :
    Contained x c (esrIss hsr) ((x.regs vcpu).x 0) (abortsSyncHanlder cfg env x c hsr) ↔
      ((esrIss hsr).toNat < hypercallHandlers.length ∨
        env.behind ((esrIss hsr).toNat - hypercallHandlers.length) = 0) ∧
      ((esrIss hsr).toNat = hypercallIssScheStart → ∀ vm, x.sched.callerVm c = some vm →
        ((x.regs vcpu).x 0).toNat < (x.sched.vms vm).nrCpus) := by
  have hother : ¬esrEc hsr = esrEcDalel := by
    rw [hec]
    decide
  rw [abortsSyncHanlder, if_neg hother, if_pos hec, hvcpu]
  exact hypercallHandler_contained_iff _ _ _ _

/-- The first vCPU of `smallConfig` runs, with `x0` as given. -/
def firstGuest (x0 : BitVec 64) : HypState Unit where
  sched := firstRun
  regs := fun _ =>
    { x := fun i => if i = 0 then x0 else 0, spsrEl2 := 0, elrEl2 := 0x1000, spEl1 := 0 }
  rest := ()

/-- Handlers that return at once, with nothing but null words behind the table. -/
def quietEnv : HypEnv Unit where
  behind := fun _ => 0
  handler := fun _ x _ _ _ _ => .returned x
  abortsDataLower := fun x _ _ => .returned x

/-- The syndrome of an `HVC` with the immediate `iss`. -/
def hvcSyndrome (iss : BitVec 64) : BitVec 64 := 0x5a000000#64 ||| iss

theorem abortsSyncHanlder_contained_iff_startOne :
    Contained (firstGuest 1) 0 (esrIss (hvcSyndrome 7)) (((firstGuest 1).regs ⟨0, 0⟩).x 0)
        (abortsSyncHanlder smallConfig quietEnv (firstGuest 1) 0 (hvcSyndrome 7)) ↔
      ((esrIss (hvcSyndrome 7)).toNat < hypercallHandlers.length ∨
        quietEnv.behind ((esrIss (hvcSyndrome 7)).toNat - hypercallHandlers.length) = 0) ∧
      ((esrIss (hvcSyndrome 7)).toNat = hypercallIssScheStart →
        ∀ vm, (firstGuest 1).sched.callerVm 0 = some vm →
          (((firstGuest 1).regs ⟨0, 0⟩).x 0).toNat < ((firstGuest 1).sched.vms vm).nrCpus) :=
  abortsSyncHanlder_contained_iff (by decide) (by decide)

/-- A start hypercall names vCPU 2 of a VM with the vCPUs 0 and 1, and returns. -/
theorem abortsSyncHanlder_startTwo : (schedMachine smallConfig).Reachable (firstGuest 2).sched ∧
    (firstGuest 2).sched.callerVm 0 = some 0 ∧ ((firstGuest 2).sched.vms 0).nrCpus = 2 ∧
      ¬Contained (firstGuest 2) 0 (esrIss (hvcSyndrome 7)) (((firstGuest 2).regs ⟨0, 0⟩).x 0)
        (abortsSyncHanlder smallConfig quietEnv (firstGuest 2) 0 (hvcSyndrome 7)) := by
  have hcaller : (firstGuest 2).sched.callerVm 0 = some 0 := by decide
  have hnrCpus : ((firstGuest 2).sched.vms 0).nrCpus = 2 := by decide
  have hec : ¬esrEc (hvcSyndrome 7) = esrEcDalel := by decide
  have hvcpu : ((firstGuest 2).sched.cpus 0).vcpu = some ⟨0, 0⟩ := by decide
  refine ⟨firstRun_reachable, hcaller, hnrCpus, fun h => ?_⟩
  rw [abortsSyncHanlder, if_neg hec, if_pos (by decide), hvcpu] at h
  have hlt := ((hypercallHandler_contained_iff _ _ _ _).mp h).2 (by decide) 0 hcaller
  rw [hnrCpus] at hlt
  exact absurd hlt (by decide)

end Avisor
