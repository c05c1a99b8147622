import Avisor.Vgic.Sending

/-!
# Messages and the VM they are for

`vgic_ipi_handler` stops the pCPU at a message for another VM than the one that runs. A message waits
from the moment it is sent until its pCPU handles it, and the schedulers do not look at it. So all
messages find their VM as long as each is sent to a pCPU that runs the VM, and a pCPU changes to
another VM only when no message waits.
-/

namespace Avisor

open Function

variable {cfg : HvConfig} {x y : HvState} {a : HvAction}

/-- Every message that waits on a pCPU is for the VM that the pCPU runs: whenever `vgic_ipi_handler`
is to run there, it does not come to `ERROR`. -/
def DeliversHome (cfg : HvConfig) (x : HvState) : Prop :=
  ∀ c < cfg.sched.hypNrCpus, ∀ vcpu, (x.sched.cpus c).vcpu = some vcpu →
    ∀ msg ∈ waitingMsgs cfg.vgic.msg x.vgic.msgs c, (vgicMsgVm msg.data).toNat = vcpu.vm

/-- A pCPU that changes from a VM to another one has no message waiting, and one that starts its first
VM has only messages for that VM. -/
def SwitchesIdle (cfg : HvConfig) (x : HvState) (a : Action) : Prop :=
  ∀ t, (schedMachine cfg.sched).step x.sched a = some t → ∀ c < cfg.sched.hypNrCpus, ∀ new,
    (t.cpus c).vcpu = some new →
      match (x.sched.cpus c).vcpu with
      | some old => old.vm ≠ new.vm → waitingMsgs cfg.vgic.msg x.vgic.msgs c = []
      | none => ∀ msg ∈ waitingMsgs cfg.vgic.msg x.vgic.msgs c, (vgicMsgVm msg.data).toNat = new.vm

/-- The messages that a call on pCPU `c` sends go to pCPUs that run the VM of the sender, as far as 16
bits of its id tell. -/
def SendsHome (cfg : HvConfig) (x : HvState) (c : PCpuId) (call : VgicCall) : Prop :=
  ∀ y sender l, (hvMachine cfg).step x (.vgic c call) = some y →
    (x.sched.cpus c).vcpu = some sender → y.vgic.sent = x.vgic.sent ++ l →
      ∀ m ∈ l, ∀ target, (x.sched.cpus m.1).vcpu = some target → target.vm = sender.vm % 2 ^ 16

/-- The condition on a step. -/
def KeepsHome (cfg : HvConfig) (x : HvState) : HvAction → Prop
  | .sched a => SwitchesIdle cfg x a
  | .vgic c call => SendsHome cfg x c call

/-- What every step keeps: the vCPUs and VMs are recorded on pCPUs that exist, and the lists of
messages are well formed. -/
structure SendingWf (cfg : HvConfig) (x : HvState) : Prop where
  placed : Placed cfg.sched.hypNrCpus x.sched
  msgs : MsgWellFormed cfg.vgic.msg x.vgic.msgs

theorem SendingWf.env (h : SendingWf cfg x) (c : PCpuId) (vcpu : VcpuRef) :
    EnvPlaced (x.env cfg c vcpu) where
  pId v := cfg.msgCpus ▸ h.placed.vcpu v
  master m := cfg.msgCpus ▸ h.placed.master m
  cpuNum_le := cfg.msgCpus ▸ cfg.cpuNum_le

/-- What a call does to the messages that wait: one may be taken on the pCPU itself, and then those
sent are added. -/
theorem SendingWf.call (h : SendingWf cfg x) {c : PCpuId} {vcpu : VcpuRef} {call : VgicCall}
    {t : VgicState} {R : PCpuId → CpuMsg → Prop} (hc : c < cfg.sched.hypNrCpus)
    (hR : Admits (x.env cfg c vcpu) R)
    (hset : ∀ D, vgicDelegation (x.env cfg c vcpu) x.vgic call = some D →
      R D.target (D.msg (x.env cfg c vcpu)))
    (hlt : ∀ d msg, R d msg → d < cfg.sched.hypNrCpus)
    (heffect : vgicEffect (x.env cfg c vcpu) x.vgic call = some t) :
    MsgWellFormed cfg.vgic.msg t.msgs ∧ ∃ (kept : PCpuId → List CpuMsg) (l : List (PCpuId × CpuMsg)),
      t.sent = x.vgic.sent ++ l ∧ (∀ m ∈ l, R m.1 m.2) ∧
      ∀ d < cfg.sched.hypNrCpus, (∀ msg ∈ kept d, msg ∈ waitingMsgs cfg.vgic.msg x.vgic.msgs d) ∧
        waitingMsgs cfg.vgic.msg t.msgs d = kept d ++ (l.filter (·.1 = d)).map Prod.snd := by
  have hmsgCpus := cfg.msgCpus
  have hlt' (d) (msg) (hmsg : R d msg) : d < (x.env cfg c vcpu).cfg.msg.hypNrCpus :=
    hmsgCpus.symm ▸ hlt d msg hmsg
  rcases Sends.effect hR hset heffect with hsends | ⟨msg, msgs, -, hget, hsends⟩
  · obtain ⟨hwf, l, hsent, hl, hwaiting⟩ := hsends.waiting h.msgs hlt'
    refine ⟨hwf, waitingMsgs cfg.vgic.msg x.vgic.msgs, l, hsent, hl, fun d hd => ?_⟩
    exact ⟨fun _ hmsg => hmsg, hwaiting d (hmsgCpus.symm ▸ hd)⟩
  · rcases h.msgs.get (hmsgCpus.symm ▸ hc) with ⟨hnone, -⟩ | ⟨msg', u, hsome, hu, hconcat, hother⟩
    · rw [show (x.env cfg c vcpu).self = c from rfl, hnone] at hget
      cases hget
    · rw [show (x.env cfg c vcpu).self = c from rfl, hsome] at hget
      cases hget
      obtain ⟨hwf, l, hsent, hl, hwaiting⟩ := hsends.waiting hu hlt'
      refine ⟨hwf, waitingMsgs cfg.vgic.msg msgs, l, hsent, hl, fun d hd => ?_⟩
      refine ⟨fun k hk => ?_, hwaiting d (hmsgCpus.symm ▸ hd)⟩
      by_cases hdc : d = c
      · subst hdc
        rw [hconcat]
        exact List.mem_append_left _ hk
      · rwa [← hother d (hmsgCpus.symm ▸ hd) hdc]

/-- The messages of a call are for the VM that runs. -/
theorem SendingWf.callHome (h : SendingWf cfg x) {c : PCpuId} {vcpu : VcpuRef} {call : VgicCall}
    {t : VgicState} (hc : c < cfg.sched.hypNrCpus)
    (heffect : vgicEffect (x.env cfg c vcpu) x.vgic call = some t) :
    MsgWellFormed cfg.vgic.msg t.msgs ∧ ∃ (kept : PCpuId → List CpuMsg) (l : List (PCpuId × CpuMsg)),
      t.sent = x.vgic.sent ++ l ∧ (∀ m ∈ l, ForOwnVm (x.env cfg c vcpu) m.1 m.2) ∧
      ∀ d < cfg.sched.hypNrCpus, (∀ msg ∈ kept d, msg ∈ waitingMsgs cfg.vgic.msg x.vgic.msgs d) ∧
        waitingMsgs cfg.vgic.msg t.msgs d = kept d ++ (l.filter (·.1 = d)).map Prod.snd := by
  have hE := h.env c vcpu
  apply h.call hc hE.admits ?_ ?_ heffect
  · intro D hD
    exact hE.delegation (vgicDelegation_for hD)
  · intro d msg hmsg
    have hlt : d < cfg.vgic.msg.hypNrCpus := hmsg.1
    rwa [cfg.msgCpus] at hlt

theorem SendingWf.step (h : SendingWf cfg x) (hstep : (hvMachine cfg).step x a = some y) :
    SendingWf cfg y := by
  cases step_hvStep hstep with
  | sched a t step taken =>
    refine ⟨h.placed.step ?_ step, h.msgs⟩
    cases a with
    | call c f =>
      simp only [schedMachine] at taken
      exact (Option.ite_none_right_eq_some.mp taken).1.1
    | resume c =>
      simp only [schedMachine] at taken
      exact (Option.ite_none_right_eq_some.mp taken).1
  | vgic c call vcpu t cpu pc vcpu_eq enabled effect => exact ⟨h.placed, (h.callHome cpu effect).1⟩
  | halt c call vcpu cpu pc vcpu_eq effect => exact ⟨h.placed.congr rfl rfl, h.msgs⟩

/-- A step keeps all messages at home exactly if it meets the condition. -/
theorem deliversHome_step (h : SendingWf cfg x) (hhome : DeliversHome cfg x)
    (hstep : (hvMachine cfg).step x a = some y) : DeliversHome cfg y ↔ KeepsHome cfg x a := by
  cases step_hvStep hstep with
  | sched a t step taken =>
    constructor
    · intro hy u hu c hc new hnew
      rw [taken] at hu
      cases hu
      have hwait := hy c hc new hnew
      split
      · rename_i old hold
        intro hne
        apply List.eq_nil_iff_forall_not_mem.mpr
        intro msg hmsg
        exact hne ((hhome c hc old hold msg hmsg).symm.trans (hwait msg hmsg))
      · exact hwait
    · intro hidle c hc new hnew msg hmsg
      have hmatch := hidle t taken c hc new hnew
      split at hmatch
      · rename_i old hold
        by_cases hvm : old.vm = new.vm
        · rw [hhome c hc old hold msg hmsg, hvm]
        · rw [hmatch hvm] at hmsg
          exact absurd hmsg List.not_mem_nil
      · exact hmatch msg hmsg
  | vgic c call vcpu t cpu pc vcpu_eq enabled effect =>
    obtain ⟨-, kept, l, hsent, hl, hwaiting⟩ := h.callHome cpu effect
    have hlt (m) (hm : m ∈ l) : m.1 < cfg.sched.hypNrCpus := by
      have hlt : m.1 < cfg.vgic.msg.hypNrCpus := (hl m hm).1
      rwa [cfg.msgCpus] at hlt
    constructor
    · intro hy z sender l' hz hsender hsent' m hm target htarget
      rw [hstep] at hz
      cases hz
      rw [vcpu_eq] at hsender
      cases hsender
      obtain rfl : l' = l := List.append_cancel_left (hsent'.symm.trans hsent)
      refine Eq.trans (hy m.1 (hlt m hm) target htarget m.2 ?_).symm (hl m hm).2
      change m.2 ∈ waitingMsgs cfg.vgic.msg t.msgs m.1
      rw [(hwaiting m.1 (hlt m hm)).2]
      exact List.mem_append_right _ (List.mem_map_of_mem (List.mem_filter.mpr ⟨hm, by simp⟩))
    · intro hsends d hd target htarget msg hmsg
      change msg ∈ waitingMsgs cfg.vgic.msg t.msgs d at hmsg
      rw [(hwaiting d hd).2, List.mem_append] at hmsg
      rcases hmsg with hmsg | hmsg
      · exact hhome d hd target htarget msg ((hwaiting d hd).1 msg hmsg)
      · obtain ⟨m, hm, rfl⟩ := List.mem_map.mp hmsg
        obtain ⟨hml, hmd⟩ := List.mem_filter.mp hm
        obtain rfl : m.1 = d := by simpa using hmd
        exact (hl m hml).2.trans (hsends _ vcpu l hstep vcpu_eq hsent m hml target htarget).symm
  | halt c call vcpu cpu pc vcpu_eq effect =>
    have hcpus (d) : ((x.sched.setPc c .halted).cpus d).vcpu = (x.sched.cpus d).vcpu := by
      rw [setPc_cpus]
      by_cases hd : d = c
      · subst hd
        rw [update_self]
      · rw [update_of_ne hd]
    constructor
    · intro _ z sender l hz hsender hsent m hm
      rw [hstep] at hz
      cases hz
      obtain rfl : l = [] := List.append_right_eq_self.mp hsent.symm
      exact absurd hm List.not_mem_nil
    · intro _ d hd target htarget msg hmsg
      exact hhome d hd target ((hcpus d).symm.trans htarget) msg hmsg

theorem SendingWf.init (h : (hvMachine cfg).Init x) : SendingWf cfg x :=
  ⟨Placed.vmmInit cfg.hypNrCpus_pos cfg.sched.nrVms h.1, h.2.msgs.wellFormed⟩

theorem DeliversHome.init (h : (hvMachine cfg).Init x) : DeliversHome cfg x := by
  intro c hc vcpu hvcpu msg hmsg
  rw [h.2.msgs.waitingMsgs (cfg.msgCpus.symm ▸ hc)] at hmsg
  exact absurd hmsg List.not_mem_nil

end Avisor
