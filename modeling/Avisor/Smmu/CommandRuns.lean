import Avisor.Smmu.CommandProtocol

/-!
# Runs of the command queue

Under the lock one pCPU at a time works on the queue, so that what holds of one access of the pCPU and of
one step of the SMMU holds of every order of steps. A pCPU that waits for its command is never left waiting
by an SMMU that goes on.
-/

namespace Avisor

open Function RingQueue

variable {n i : ℕ} {s t : SmmuCmdq} {c d : PCpuId} {pc pc' : CmdqPc} {cmd : SmmuCmd}
  {r : BitVec 32}

/-- Before the command is issued. -/
def CmdqPc.Unissued : CmdqPc → Prop
  | .locking _ | .full _ | .write _ _ | .incProd _ => True
  | _ => False

/-- Where a pCPU is with the lock, while it is at a place of the queue's code. -/
def CmdqPlace : CmdqPc → SpinPc → Prop
  | .outside, p => p = .outside
  | .locking _, p => p.Entering ∨ p = .inside
  | .unlocking, p => p = .inside ∨ p.Leaving ∨ p = .outside
  | _, p => p = .inside

/-- The queue is in order, the pCPUs work on it under the lock, and the commands are issued in the order
in which the lock is entered. -/
structure CmdqWf (n : ℕ) (s : CmdqState) : Prop where
  spin : (spinMachine n).Reachable s.spin
  place : ∀ c, CmdqPlace (s.pc c) (s.spin.pc c)
  ok : CmdqOk s.cmdq
  at_pc : ∀ c, CmdqAt s.cmdq (s.pc c)
  quiet : (∀ c, ¬(s.pc c).InSection) → s.cmdq.Quiet
  unissued : ∀ c, s.spin.pc c = .inside → (s.pc c).Unissued →
    s.spin.entered = s.cmdq.issued.map Prod.fst ++ [c]
  issued : (∀ c, s.spin.pc c = .inside → ¬(s.pc c).Unissued) →
    s.spin.entered = s.cmdq.issued.map Prod.fst

theorem CmdqAt.quiet (hpc : pc.InSection) (hun : pc.Unissued) (hat : CmdqAt s pc) : s.Quiet := by
  cases pc with
  | full cmd => exact hat
  | write cmd k => exact hat.1
  | incProd cmd => exact hat.1
  | locking cmd => exact hpc.elim
  | _ => exact hun.elim

theorem CmdqPlace.inside {p : SpinPc} (h : CmdqPlace pc p) (hpc : pc.InSection) : p = .inside := by
  cases pc with
  | outside => exact hpc.elim
  | locking cmd => exact hpc.elim
  | unlocking => exact hpc.elim
  | _ => exact h

theorem CmdqPlace.entering {p : SpinPc} (h : CmdqPlace pc p) (hp : p.Entering) :
    ∃ cmd, pc = .locking cmd := by
  cases pc with
  | locking cmd => exact ⟨cmd, rfl⟩
  | unlocking =>
    rcases h with rfl | hleaving | rfl
    · exact hp.elim
    · exact absurd hp hleaving.not_entering
    · exact hp.elim
  | _ =>
    rw [show p = _ from h] at hp
    exact hp.elim

theorem CmdqPlace.leaving {p : SpinPc} (h : CmdqPlace pc p) (hp : p.Leaving) : pc = .unlocking := by
  cases pc with
  | unlocking => rfl
  | locking cmd =>
    rcases h with hentering | rfl
    · exact absurd hentering hp.not_entering
    · exact hp.elim
  | _ =>
    rw [show p = _ from h] at hp
    exact hp.elim

/-- Behind an access the pCPU works on, or it is done. -/
theorem cmdqInsert_inSection (hstep : cmdqInsert s c pc = some (pc', t)) :
    pc' = .unlocking ∨ pc'.InSection := by
  cases pc with
  | outside => cases hstep
  | locking cmd => cases hstep
  | unlocking => cases hstep
  | empty =>
    rw [cmdqInsert] at hstep
    split at hstep
    · cases hstep
      exact .inl rfl
    · cases hstep
      exact .inr trivial
  | gerrorn gerror =>
    cases hstep
    split <;> exact .inr trivial
  | incProd cmd =>
    cases hstep
    exact .inr trivial
  | gerror =>
    cases hstep
    exact .inr trivial
  | ackRead =>
    cases hstep
    exact .inr trivial
  | ackWrite gerrorn =>
    cases hstep
    exact .inr trivial
  | _ =>
    rw [cmdqInsert] at hstep
    split at hstep
    all_goals
      cases hstep
      exact .inr trivial

/-- An access under the lock issues the command or leaves the commands that are issued, and the pCPU
stays with the lock. -/
theorem cmdqInsert_issued (hstep : cmdqInsert s c pc = some (pc', t)) :
    CmdqPlace pc' .inside ∧
      (pc.Unissued ∧ pc'.Unissued ∧ t.issued = s.issued ∨
        (∃ cmd, pc = .incProd cmd ∧ t.issued = s.issued ++ [(c, cmd)]) ∧ ¬pc'.Unissued ∨
        ¬pc.Unissued ∧ ¬pc'.Unissued ∧ t.issued = s.issued) := by
  cases pc with
  | outside => cases hstep
  | locking cmd => cases hstep
  | unlocking => cases hstep
  | full cmd =>
    rw [cmdqInsert] at hstep
    split at hstep
    all_goals
      cases hstep
      exact ⟨rfl, .inl ⟨trivial, trivial, rfl⟩⟩
  | write cmd k =>
    rw [cmdqInsert] at hstep
    split at hstep
    all_goals
      cases hstep
      exact ⟨rfl, .inl ⟨trivial, trivial, rfl⟩⟩
  | incProd cmd =>
    cases hstep
    exact ⟨rfl, .inr (.inl ⟨⟨cmd, rfl, rfl⟩, id⟩)⟩
  | empty =>
    rw [cmdqInsert] at hstep
    split at hstep
    · cases hstep
      exact ⟨.inl rfl, .inr (.inr ⟨id, id, rfl⟩)⟩
    · cases hstep
      exact ⟨rfl, .inr (.inr ⟨id, id, rfl⟩)⟩
  | gerrorn gerror =>
    cases hstep
    split
    all_goals exact ⟨rfl, .inr (.inr ⟨id, id, rfl⟩)⟩
  | skip k =>
    rw [cmdqInsert] at hstep
    split at hstep
    all_goals
      cases hstep
      exact ⟨rfl, .inr (.inr ⟨id, id, rfl⟩)⟩
  | _ =>
    cases hstep
    exact ⟨rfl, .inr (.inr ⟨id, id, rfl⟩)⟩

namespace CmdqWf

variable {s t : CmdqState}

theorem init (h : CmdqStart s) : CmdqWf n s := by
  have hring : RingQueue.Holds s.cmdq.q.maxNShift s.cmdq.q.slot s.cmdq.prodReg.toNat s.cmdq.consReg.toNat
      s.cmdq.executed.length [] := by
    rw [h.prodReg, h.consReg, h.executed]
    exact ⟨counts_self _ _, counts_self _ _, Nat.zero_le _, fun hj => by simp at hj⟩
  refine ⟨⟨s.spin, [], h.spin, .nil _⟩, fun c => ?_, ?_, fun c => ?_, fun _ => ⟨?_, ?_⟩,
    fun c hc _ => ?_, fun _ => ?_⟩
  · rw [h.pc]
    exact h.spin.pc c
  · refine ⟨h.entDwords, h.maxNShift, h.gerrMask, ?_, fun i hi => ?_, fun i hi => ?_,
      ⟨[], hring, ?_⟩, fun hstopped => absurd hstopped h.running⟩
    · rw [h.prodReg, h.prod]
    · rw [h.executed] at hi
      exact absurd hi (Nat.not_lt_zero i)
    · rw [h.faulted] at hi
      cases hi
    · rw [h.issued, h.executed]
      rfl
  · rw [h.pc]
    trivial
  · rw [h.issued, h.executed]
    rfl
  · rw [h.cons, h.executed]
    exact counts_self _ _
  · rw [h.spin.pc] at hc
    cases hc
  · rw [h.spin.entered, h.issued]
    rfl

/-- Only one pCPU works on the queue. -/
theorem eq_of_inside (hn : n ≤ 2 ^ 32) (h : CmdqWf n s) (hc : s.spin.pc c = .inside)
    (hd : s.spin.pc d = .inside) : d = c := by
  apply SpinState.eq_of_holds hn h.spin
  · rw [hd]
    trivial
  · rw [hc]
    trivial

/-- The pCPU that holds the lock goes on, and nobody else works on the queue. -/
theorem of_inside (hn : n ≤ 2 ^ 32) (h : CmdqWf n s) (hc : s.spin.pc c = .inside)
    (hspin : t.spin = s.spin) (hpc : ∀ d, d ≠ c → t.pc d = s.pc d) (hplace : CmdqPlace (t.pc c) .inside)
    (hok : CmdqOk t.cmdq) (hat : CmdqAt t.cmdq (t.pc c)) (hquiet : ¬(t.pc c).InSection → t.cmdq.Quiet)
    (hunissued : (t.pc c).Unissued → (s.pc c).Unissued ∧ t.cmdq.issued = s.cmdq.issued)
    (hissued : ¬(t.pc c).Unissued → s.spin.entered = t.cmdq.issued.map Prod.fst) : CmdqWf n t := by
  have hout (d : PCpuId) (hdc : d ≠ c) : ¬(s.pc d).InSection := fun hd =>
    hdc (h.eq_of_inside hn hc ((h.place d).inside hd))
  refine ⟨hspin ▸ h.spin, fun d => ?_, hok, fun d => ?_, fun hall => hquiet (hall c), fun d hd hun => ?_,
    fun hall => ?_⟩
  · rw [hspin]
    by_cases hdc : d = c
    · rw [hdc, hc]
      exact hplace
    · rw [hpc d hdc]
      exact h.place d
  · by_cases hdc : d = c
    · rw [hdc]
      exact hat
    · have hd := hout d hdc
      rw [hpc d hdc]
      cases hpcd : s.pc d with
      | outside => trivial
      | locking cmd => trivial
      | unlocking => trivial
      | _ => simp [hpcd, CmdqPc.InSection] at hd
  · rw [hspin] at hd ⊢
    obtain rfl := h.eq_of_inside hn hc hd
    obtain ⟨hun', hsame⟩ := hunissued hun
    rw [hsame]
    exact h.unissued d hd hun'
  · rw [hspin]
    exact hissued (hall c (hspin ▸ hc))

/-- The lock goes on, and the pCPU with it, outside the code that works on the queue. -/
theorem of_spin (hn : n ≤ 2 ^ 32) (h : CmdqWf n s) (hspin : (spinMachine n).Reachable t.spin)
    (hcmdq : t.cmdq = s.cmdq) (hpc : ∀ d, d ≠ c → t.pc d = s.pc d)
    (hspinpc : ∀ d, d ≠ c → t.spin.pc d = s.spin.pc d) (hplace : CmdqPlace (t.pc c) (t.spin.pc c))
    (hsection : ¬(t.pc c).InSection ∧ ¬(s.pc c).InSection)
    (hentered : t.spin.entered = s.spin.entered ∧
        (t.spin.pc c = .inside ∧ (t.pc c).Unissued ↔ s.spin.pc c = .inside ∧ (s.pc c).Unissued) ∨
      t.spin.entered = s.spin.entered ++ [c] ∧ s.spin.pc c ≠ .inside ∧ t.spin.pc c = .inside ∧
        (t.pc c).Unissued) :
    CmdqWf n t := by
  have hone {d : PCpuId} (hc : t.spin.pc c = .inside) (hd : s.spin.pc d = .inside) : d = c := by
    by_contra hdc
    apply hdc
    apply SpinState.eq_of_holds hn hspin
    · rw [hspinpc d hdc, hd]
      trivial
    · rw [hc]
      trivial
  refine ⟨hspin, fun d => ?_, hcmdq ▸ h.ok, fun d => ?_, fun hall => ?_, fun d hd hun => ?_,
    fun hall => ?_⟩
  · by_cases hdc : d = c
    · rw [hdc]
      exact hplace
    · rw [hpc d hdc, hspinpc d hdc]
      exact h.place d
  · by_cases hdc : d = c
    · rw [hdc]
      have hout := hsection.1
      cases hpcc : t.pc c with
      | outside => trivial
      | locking cmd => trivial
      | unlocking => trivial
      | _ => simp [hpcc, CmdqPc.InSection] at hout
    · rw [hpc d hdc, hcmdq]
      exact h.at_pc d
  · rw [hcmdq]
    apply h.quiet
    intro d
    by_cases hdc : d = c
    · rw [hdc]
      exact hsection.2
    · rw [← hpc d hdc]
      exact hall d
  · rw [hcmdq]
    by_cases hdc : d = c
    · rw [hdc] at hd hun ⊢
      rcases hentered with ⟨hsame, hiff⟩ | ⟨hnew, hout, -, -⟩
      · obtain ⟨hin, hun'⟩ := hiff.mp ⟨hd, hun⟩
        rw [hsame]
        exact h.unissued c hin hun'
      · rw [hnew, h.issued fun e he _ => hout (hone hd he ▸ he)]
    · rw [hpc d hdc] at hun
      rw [hspinpc d hdc] at hd
      rcases hentered with ⟨hsame, -⟩ | ⟨-, -, hin, -⟩
      · rw [hsame]
        exact h.unissued d hd hun
      · exact absurd (hone hin hd) hdc
  · rw [hcmdq]
    rcases hentered with ⟨hsame, hiff⟩ | ⟨-, -, hin, hun⟩
    · rw [hsame]
      apply h.issued
      intro d hd hun
      by_cases hdc : d = c
      · rw [hdc] at hd hun
        obtain ⟨hd', hun'⟩ := hiff.mpr ⟨hd, hun⟩
        exact hall c hd' hun'
      · refine hall d ?_ ?_
        · rw [hspinpc d hdc, hd]
        · rwa [hpc d hdc]
    · exact absurd hun (hall c hin)

/-- A call of `arm_smmu_cmdq_issue_cmd`. -/
theorem issue (hn : n ≤ 2 ^ 32) (h : CmdqWf n s) {spin : SpinState} (hpc : s.pc c = .outside)
    (hstep : spinStep n s.spin (.lock c) = some spin) :
    CmdqWf n { s.goto c (.locking cmd) s.cmdq with spin := spin } := by
  have hreach : (spinMachine n).Reachable spin := h.spin.step (a := .lock c) hstep
  obtain ⟨⟨hc, hout⟩, ht⟩ := Option.ite_none_right_eq_some.mp hstep
  cases ht
  refine h.of_spin (t := { s.goto c (.locking cmd) s.cmdq with spin := s.spin.goto c .ldaxr }) (c := c) hn
    hreach rfl (fun d hdc => update_of_ne hdc ..) (fun d hdc => s.spin.goto_pc_of_ne hdc _) ?_ ?_
    (.inl ⟨rfl, ?_⟩)
  · simp only [CmdqState.goto, update_self, SpinState.goto_pc_self]
    exact .inl trivial
  · simp only [CmdqState.goto, update_self]
    exact ⟨id, hpc ▸ id⟩
  · simp [SpinState.goto, hout]

/-- An instruction of the lock. -/
theorem lock (hn : n ≤ 2 ^ 32) (h : CmdqWf n s) {spin : SpinState} {fails : Bool}
    (hstep : spinStep n s.spin (.exec c fails) = some spin) : CmdqWf n { s with spin := spin } := by
  have hreach : (spinMachine n).Reachable spin := h.spin.step (a := .exec c fails) hstep
  obtain ⟨hc, hexec⟩ := Option.ite_none_right_eq_some.mp hstep
  obtain ⟨hother, hplace⟩ := spinExec_place hexec
  rcases hplace with ⟨hentering, hplace⟩ | ⟨hleaving, hplace, hsame⟩
  · obtain ⟨cmd, hpc⟩ := (h.place c).entering hentering
    have hsection : ¬(s.pc c).InSection := hpc ▸ id
    refine h.of_spin (t := { s with spin := spin }) hn hreach rfl (fun _ _ => rfl) hother ?_
      ⟨hsection, hsection⟩ ?_
    · show CmdqPlace (s.pc c) _
      rw [hpc]
      exact hplace.imp And.left And.left
    · rcases hplace with ⟨hstays, hsame⟩ | ⟨hin, hnew⟩
      · refine .inl ⟨hsame, ?_⟩
        simp [hstays.ne_inside, hentering.ne_inside]
      · refine .inr ⟨hnew, hentering.ne_inside, hin, ?_⟩
        show (s.pc c).Unissued
        rw [hpc]
        trivial
  · have hpc := (h.place c).leaving hleaving
    have hsection : ¬(s.pc c).InSection := hpc ▸ id
    refine h.of_spin (t := { s with spin := spin }) hn hreach rfl (fun _ _ => rfl) hother ?_
      ⟨hsection, hsection⟩ (.inl ⟨hsame, ?_⟩)
    · show CmdqPlace (s.pc c) _
      rw [hpc]
      exact .inr hplace
    · show _ ∧ (s.pc c).Unissued ↔ _
      rw [hpc]
      simp [CmdqPc.Unissued]

/-- What reaches the lock's pCPUs from elsewhere moves none of them. -/
theorem of_pc (h : CmdqWf n s) {spin : SpinState} (hreach : (spinMachine n).Reachable spin)
    (hpc : spin.pc = s.spin.pc) (hentered : spin.entered = s.spin.entered) :
    CmdqWf n { s with spin := spin } := by
  refine ⟨hreach, ?_, h.ok, h.at_pc, h.quiet, ?_, ?_⟩
  · simp only [hpc]
    exact h.place
  · simp only [hpc, hentered]
    exact h.unissued
  · simp only [hpc, hentered]
    exact h.issued

/-- An access under the lock. -/
theorem insert (hn : n ≤ 2 ^ 32) (h : CmdqWf n s) (hpc : (s.pc c).InSection) {next : CmdqPc × SmmuCmdq}
    (hstep : cmdqInsert s.cmdq c (s.pc c) = some next) : CmdqWf n (s.goto c next.1 next.2) := by
  obtain ⟨pc', cmdq⟩ := next
  have hin := (h.place c).inside hpc
  obtain ⟨hplace, hissued⟩ := cmdqInsert_issued hstep
  obtain ⟨hok, hat, hquiet⟩ := h.ok.insert (h.at_pc c) hstep
  have hself : (s.goto c pc' cmdq).pc c = pc' := update_self ..
  refine h.of_inside hn hin rfl (fun d hdc => update_of_ne hdc ..) ?_ hok ?_ ?_ ?_ ?_
  · rwa [hself]
  · rwa [hself]
  · rwa [hself]
  · rw [hself]
    intro hun
    rcases hissued with ⟨hbefore, -, hsame⟩ | ⟨-, hbehind⟩ | ⟨-, hbehind, -⟩
    · exact ⟨hbefore, hsame⟩
    · exact absurd hun hbehind
    · exact absurd hun hbehind
  · rw [hself]
    intro hbehind
    show _ = cmdq.issued.map Prod.fst
    rcases hissued with ⟨-, hun, -⟩ | ⟨⟨cmd, hcmd, hnew⟩, -⟩ | ⟨hbefore, -, hsame⟩
    · exact absurd hun hbehind
    · rw [hnew, List.map_append]
      apply h.unissued c hin
      rw [hcmd]
      trivial
    · rw [hsame]
      apply h.issued
      intro d hd
      obtain rfl := h.eq_of_inside hn hin hd
      exact hbefore

/-- The call of `spin_unlock`, or the return behind it. -/
theorem unlock (hn : n ≤ 2 ^ 32) (h : CmdqWf n s) (hpc : s.pc c = .unlocking) {spin : SpinState}
    (hstep : spinStep n s.spin (.unlock c) = some spin) : CmdqWf n { s with spin := spin } := by
  have hreach : (spinMachine n).Reachable spin := h.spin.step (a := .unlock c) hstep
  obtain ⟨⟨hc, hin⟩, ht⟩ := Option.ite_none_right_eq_some.mp hstep
  cases ht
  have hsection : ¬(s.pc c).InSection := hpc ▸ id
  refine h.of_spin (t := { s with spin := s.spin.goto c .ldr }) (c := c) hn hreach rfl (fun _ _ => rfl)
    (fun d hdc => s.spin.goto_pc_of_ne hdc _) ?_ ⟨hsection, hsection⟩ (.inl ⟨rfl, ?_⟩)
  · show CmdqPlace (s.pc c) _
    rw [hpc, SpinState.goto_pc_self]
    exact .inr (.inl trivial)
  · show _ ∧ (s.pc c).Unissued ↔ _
    rw [hpc]
    simp [CmdqPc.Unissued]

theorem outside (hn : n ≤ 2 ^ 32) (h : CmdqWf n s) (hpc : s.pc c = .unlocking)
    (hout : s.spin.pc c = .outside) : CmdqWf n (s.goto c .outside s.cmdq) := by
  have hself : (s.goto c .outside s.cmdq).pc c = .outside := update_self ..
  refine h.of_spin (c := c) hn h.spin rfl (fun d hdc => update_of_ne hdc ..) (fun _ _ => rfl) ?_ ?_
    (.inl ⟨rfl, ?_⟩)
  · rw [hself]
    exact hout
  · rw [hself, hpc]
    exact ⟨id, id⟩
  · rw [hself, hpc]
    simp [CmdqPc.Unissued]

/-- The next access of a pCPU. -/
theorem exec (hn : n ≤ 2 ^ 32) (h : CmdqWf n s) (hstep : cmdqExec n s c = some t) : CmdqWf n t := by
  cases hpc : s.pc c with
  | outside => simp [cmdqExec, hpc] at hstep
  | locking cmd =>
    simp only [cmdqExec, hpc] at hstep
    obtain ⟨hin, ht⟩ := Option.ite_none_right_eq_some.mp hstep
    cases ht
    have hself : (s.goto c (.full cmd) s.cmdq).pc c = .full cmd := update_self ..
    have hquiet : s.cmdq.Quiet := h.quiet fun d hd => by
      obtain rfl := h.eq_of_inside hn hin ((h.place d).inside hd)
      simp [hpc, CmdqPc.InSection] at hd
    refine h.of_inside hn hin rfl (fun d hdc => update_of_ne hdc ..) ?_ h.ok ?_ ?_ ?_ ?_
    · rw [hself]
      rfl
    · rw [hself]
      exact hquiet
    · rw [hself]
      exact fun hout => (hout trivial).elim
    · rw [hpc]
      exact fun _ => ⟨trivial, rfl⟩
    · rw [hself]
      exact fun hissued => (hissued trivial).elim
  | unlocking =>
    simp only [cmdqExec, hpc] at hstep
    split at hstep
    · obtain ⟨spin, hspin, rfl⟩ := Option.map_eq_some_iff.mp hstep
      exact h.unlock hn hpc hspin
    · obtain ⟨hout, ht⟩ := Option.ite_none_right_eq_some.mp hstep
      cases ht
      exact h.outside hn hpc hout
  | _ =>
    simp only [cmdqExec, hpc] at hstep
    obtain ⟨next, hnext, rfl⟩ := Option.map_eq_some_iff.mp hstep
    rw [← hpc] at hnext
    apply h.insert hn _ hnext
    rw [hpc]
    trivial

/-- What the SMMU does leaves the pCPUs where they are. -/
theorem of_cmdq (h : CmdqWf n s) {cmdq : SmmuCmdq} (hok : CmdqOk cmdq)
    (hat : ∀ pc, pc.InSection → CmdqAt s.cmdq pc → CmdqAt cmdq pc) (hquiet : s.cmdq.Quiet → cmdq.Quiet)
    (hissued : cmdq.issued = s.cmdq.issued) : CmdqWf n { s with cmdq := cmdq } := by
  refine ⟨h.spin, h.place, hok, fun c => ?_, fun hall => hquiet (h.quiet hall), ?_, ?_⟩
  · have hatc := h.at_pc c
    show CmdqAt cmdq (s.pc c)
    cases hpc : s.pc c with
    | outside => trivial
    | locking cmd => trivial
    | unlocking => trivial
    | _ =>
      rw [hpc] at hatc
      exact hat _ trivial hatc
  · rw [hissued]
    exact h.unissued
  · rw [hissued]
    exact h.issued

theorem step (hn : n ≤ 2 ^ 32) (h : CmdqWf n s) {a : CmdqAction}
    (hstep : (cmdqMachine n).step s a = some t) : CmdqWf n t := by
  cases a with
  | issue c ent =>
    obtain ⟨hpc, hstep⟩ := Option.ite_none_right_eq_some.mp hstep
    split at hstep
    · cases hstep
      exact h
    · obtain ⟨spin, hspin, rfl⟩ := Option.map_eq_some_iff.mp hstep
      exact h.issue hn hpc hspin
  | spin c fails =>
    obtain ⟨spin, hspin, rfl⟩ := Option.map_eq_some_iff.mp hstep
    exact h.lock hn hspin
  | monitor c =>
    cases hstep
    exact h.of_pc (h.spin.step (a := .clear c) rfl) rfl rfl
  | event c =>
    cases hstep
    exact h.of_pc (h.spin.step (a := .event c) rfl) rfl rfl
  | exec c =>
    obtain ⟨-, hstep⟩ := Option.ite_none_right_eq_some.mp hstep
    exact h.exec hn hstep
  | consume r =>
    obtain ⟨⟨hready, hr⟩, ht⟩ := Option.ite_none_right_eq_some.mp hstep
    cases ht
    obtain ⟨c, hc⟩ : ∃ c, (s.pc c).InSection := by
      by_contra hnone
      exact h.ok.not_ready (h.quiet (not_exists.mp hnone)) hready
    have hwaits := h.ok.waits hready hc (h.at_pc c)
    refine h.of_cmdq (h.ok.consume hready hwaits hr) (fun pc _ hat => ?_) (fun hquiet => ?_) rfl
    · exact hat.of_ready h.ok hready rfl SmmuCmdq.Waits.consume
    · exact absurd hready (h.ok.not_ready hquiet)
  | fault r =>
    obtain ⟨⟨hready, hr⟩, ht⟩ := Option.ite_none_right_eq_some.mp hstep
    cases ht
    have hrunning := (h.ok.ready_iff.mp hready).1
    refine h.of_cmdq (h.ok.fault hready hr) (fun pc _ hat => ?_) (fun hquiet => ?_) rfl
    · exact hat.of_ready h.ok hready rfl fun hwaits => hwaits.fault hrunning
    · exact absurd hready (h.ok.not_ready hquiet)
  | report r =>
    obtain ⟨hr, ht⟩ := Option.ite_none_right_eq_some.mp hstep
    cases ht
    exact h.of_cmdq (h.ok.report hr) (fun pc _ hat => hat.report hr)
      (fun hquiet => ⟨hquiet.length, hquiet.cons⟩) rfl

theorem of_reachable (hn : n ≤ 2 ^ 32) (h : (cmdqMachine n).Reachable s) : CmdqWf n s :=
  h.invariant (fun _ => init) fun _ _ _ h hstep => h.step hn hstep

/-- One command at most is not executed. -/
theorem length_issued_le (h : CmdqWf n s) :
    s.cmdq.issued.length ≤ s.cmdq.executed.length + 1 := by
  by_cases hnone : ∀ c, ¬(s.pc c).InSection
  · rw [(h.quiet hnone).length]
    exact Nat.le_succ _
  · obtain ⟨c, hc⟩ := not_forall_not.mp hnone
    have hquiet (hquiet : s.cmdq.Quiet) : s.cmdq.issued.length ≤ s.cmdq.executed.length + 1 := by
      rw [hquiet.length]
      exact Nat.le_succ _
    have hwaits (hwaits : s.cmdq.Waits) : s.cmdq.issued.length ≤ s.cmdq.executed.length + 1 := by
      obtain ⟨m, -, hle, hlen⟩ := hwaits.cons
      omega
    have hat := h.at_pc c
    cases hpc : s.pc c with
    | outside => simp [hpc, CmdqPc.InSection] at hc
    | locking cmd => simp [hpc, CmdqPc.InSection] at hc
    | unlocking => simp [hpc, CmdqPc.InSection] at hc
    | full cmd => exact hquiet (by rwa [hpc] at hat)
    | write cmd k =>
      rw [hpc] at hat
      exact hquiet hat.1
    | incProd cmd =>
      rw [hpc] at hat
      exact hquiet hat.1
    | empty => exact hwaits (by rwa [hpc] at hat)
    | gerror => exact hwaits (by rwa [hpc] at hat)
    | gerrorn gerror =>
      rw [hpc] at hat
      exact hwaits hat.1
    | skip k =>
      rw [hpc] at hat
      exact hat.1.length_le
    | ackRead =>
      rw [hpc] at hat
      exact hat.1.length_le
    | ackWrite gerrorn =>
      rw [hpc] at hat
      exact hat.1.length_le

/-- Where a command is not executed, the pCPU that entered last has issued it and waits for it. -/
theorem last_issued (hn : n ≤ 2 ^ 32) (h : CmdqWf n s)
    (hlt : s.cmdq.executed.length < s.cmdq.issued.length) :
    ∃ d, (s.pc d).InSection ∧ (s.cmdq.issued.map Prod.fst).getLast? = some d := by
  obtain ⟨d, hd⟩ : ∃ d, (s.pc d).InSection := by
    by_contra hnone
    exact absurd (h.quiet (not_exists.mp hnone)).length (Nat.ne_of_gt hlt)
  have hin := (h.place d).inside hd
  have hissued : ¬(s.pc d).Unissued := fun hun =>
    absurd ((h.at_pc d).quiet hd hun).length (Nat.ne_of_gt hlt)
  have hentered := h.issued fun e he => h.eq_of_inside hn hin he ▸ hissued
  have hwf := (spinMachine_refines hn).invariant h.spin
  have hholders : s.spin.entered.drop s.spin.left = [d] := hwf.holders_eq (hin ▸ trivial)
  refine ⟨d, hd, ?_⟩
  rw [← hentered, ← List.take_append_drop s.spin.left s.spin.entered, hholders]
  exact List.getLast?_concat

/-- A command that is not executed is that of a pCPU that waits for it. -/
theorem executed_of_outside (hn : n ≤ 2 ^ 32) (h : CmdqWf n s)
    (hi : s.cmdq.issued[i]? = some (c, cmd)) (hc : ¬(s.pc c).InSection) :
    i < s.cmdq.executed.length := by
  by_contra hge
  have hlen := (List.getElem?_eq_some_iff.mp hi).1
  have hle := h.length_issued_le
  obtain ⟨d, hd, hlast⟩ := h.last_issued hn (by omega)
  obtain rfl : i = s.cmdq.issued.length - 1 := by omega
  rw [List.getLast?_eq_getElem?, List.length_map, List.getElem?_map, hi] at hlast
  cases hlast
  exact hc hd

/-- The commands are issued in the order of entry. -/
theorem issued_isPrefix (h : CmdqWf n s) : s.cmdq.issued.map Prod.fst <+: s.spin.entered := by
  by_cases hall : ∀ c, s.spin.pc c = .inside → ¬(s.pc c).Unissued
  · rw [h.issued hall]
  · obtain ⟨c, hc⟩ := not_forall.mp hall
    obtain ⟨hin, hun⟩ := Classical.not_imp.mp hc
    rw [h.unissued c hin (not_not.mp hun)]
    exact List.prefix_append _ _

end CmdqWf

/-- In every order of steps, the SMMU executes the commands in the order in which the pCPUs drew the
tickets of the lock, each once, with a `CMD_SYNC` for one that it cannot execute; one at most is under
way, and a call does not return before its command is executed. -/
theorem cmdq_executes_issued (hn : n ≤ 2 ^ 32) {s : CmdqState} (h : (cmdqMachine n).Reachable s) :
    (∀ i < s.cmdq.executed.length, s.cmdq.executed[i]? = s.cmdq.expected i) ∧
      s.cmdq.executed.length ≤ s.cmdq.issued.length ∧
      s.cmdq.issued.length ≤ s.cmdq.executed.length + 1 ∧
      s.cmdq.issued.map Prod.fst <+: s.spin.drawn ∧
      ∀ i c cmd, s.cmdq.issued[i]? = some (c, cmd) → ¬(s.pc c).InSection →
        i < s.cmdq.executed.length := by
  have hwf := CmdqWf.of_reachable hn h
  refine ⟨hwf.ok.log, hwf.ok.length_le, hwf.length_issued_le, ?_,
    fun i c cmd => hwf.executed_of_outside hn⟩
  exact hwf.issued_isPrefix.trans (SpinState.line_wf hn hwf.spin).entered_isPrefix

/-! ### Progress -/

/-- How many steps of the pCPU at `pc` and of an SMMU that executes everything are left at most. -/
def cmdqRank (s : SmmuCmdq) : CmdqPc → ℕ
  | .outside | .locking _ | .unlocking => 0
  | .full _ => 10
  | .write _ k => if k < 2 then 9 - k else 7
  | .incProd _ => 6
  | .empty =>
    if s.Stopped then 13
    else if s.executed.length < s.issued.length then 5
    else if s.q.queueEmpty then 1 else 4
  | .gerror =>
    if s.Stopped then 12
    else if s.executed.length < s.issued.length then 7
    else if s.q.queueEmpty then 3 else 6
  | .gerrorn gerror =>
    if s.Stopped then if gerror.getLsbD 0 ≠ s.gerrorn.getLsbD 0 then 11 else 14
    else if s.executed.length < s.issued.length then 6
    else if s.q.queueEmpty then 2 else 5
  | .skip k => if k < 2 then 10 - k else 8
  | .ackRead => 7
  | .ackWrite _ => 6

/-- While the SMMU is stopped or has nothing to do, an access brings the pCPU nearer to the end. -/
theorem CmdqOk.insert_rank (h : CmdqOk s) (hpc : pc.InSection) (hat : CmdqAt s pc)
    (hidle : ¬s.Stopped → s.issued.length = s.executed.length) :
    ∃ pc' t, cmdqInsert s c pc = some (pc', t) ∧ cmdqRank t pc' < cmdqRank s pc := by
  have hstopped (hstopped : s.Stopped) := h.lt_of_stopped hstopped
  cases pc with
  | outside => exact hpc.elim
  | locking cmd => exact hpc.elim
  | unlocking => exact hpc.elim
  | full cmd =>
    refine ⟨.write cmd 0, s, ?_, ?_⟩
    · rw [cmdqInsert, h.not_queueFull hat]
      rfl
    · simp [cmdqRank]
  | write cmd k =>
    by_cases hk : k < 2
    · refine ⟨_, _, by rw [cmdqInsert, h.entDwords, if_pos hk], ?_⟩
      simp only [cmdqRank, if_pos hk]
      split <;> omega
    · refine ⟨_, _, by rw [cmdqInsert, h.entDwords, if_neg hk], ?_⟩
      simp [cmdqRank, hk]
  | incProd cmd =>
    refine ⟨_, _, rfl, ?_⟩
    have hrunning : ¬(s.incProd c cmd).Stopped := h.not_stopped hat.1
    simp only [cmdqRank, if_neg hrunning]
    split
    · decide
    · split <;> decide
  | empty =>
    by_cases hq : s.q.queueEmpty = true
    · refine ⟨.unlocking, s, by rw [cmdqInsert, if_pos hq], ?_⟩
      rw [cmdqRank, cmdqRank]
      split_ifs <;> decide
    · refine ⟨.gerror, _, by rw [cmdqInsert, if_neg hq], ?_⟩
      by_cases hs : s.Stopped
      · have hs' : SmmuCmdq.Stopped { s with q := s.q.queueSyncCons s.consReg } := hs
        simp [cmdqRank, hs, hs']
      · have hs' : ¬SmmuCmdq.Stopped { s with q := s.q.queueSyncCons s.consReg } := hs
        have hlen := hidle hs
        have hq' := (h.syncCons.queueEmpty_iff h.counts_cons h.length_le
          (Nat.le_succ_of_le (Nat.le_of_eq hlen))).mpr hlen
        simp [cmdqRank, hs, hs', hlen, hq, hq']
  | gerror =>
    refine ⟨.gerrorn s.gerror, s, rfl, ?_⟩
    by_cases hs : s.Stopped
    · have hbit : s.gerror.getLsbD 0 ≠ s.gerrorn.getLsbD 0 := hs
      simp only [cmdqRank, if_pos hs, if_pos hbit]
      decide
    · simp only [cmdqRank, if_neg hs, hidle hs, Nat.lt_irrefl, if_false]
      split_ifs <;> decide
  | gerrorn gerror =>
    refine ⟨_, s, rfl, ?_⟩
    by_cases herror : s.q.queueError gerror s.gerrorn = true
    · have hbit := (queueError_iff h.gerrMask).mp herror
      simp only [cmdqRank, if_pos herror, if_pos (hat.2 hbit), if_pos hbit]
      decide
    · have hbit := mt (queueError_iff h.gerrMask).mpr herror
      rw [if_neg herror]
      by_cases hs : s.Stopped
      · simp only [cmdqRank, if_pos hs, if_neg hbit]
        decide
      · simp only [cmdqRank, if_neg hs, hidle hs, Nat.lt_irrefl, if_false]
        split_ifs <;> decide
  | skip k =>
    by_cases hk : k < 2
    · refine ⟨_, _, by rw [cmdqInsert, h.entDwords, if_pos hk], ?_⟩
      simp only [cmdqRank, if_pos hk]
      split <;> omega
    · refine ⟨_, _, by rw [cmdqInsert, h.entDwords, if_neg hk], ?_⟩
      simp [cmdqRank, hk]
  | ackRead => exact ⟨_, _, rfl, by simp [cmdqRank]⟩
  | ackWrite gerrorn =>
    obtain ⟨hstuck, hslot, rfl⟩ := hat
    refine ⟨_, _, rfl, ?_⟩
    have hrunning : ¬SmmuCmdq.Stopped { s with gerrorn := s.gerrorn ^^^ 1 } := not_stopped_ack hstuck.stopped
    simp only [cmdqRank, if_neg hrunning, if_pos (hstopped hstuck.stopped)]
    decide

/-- Where the SMMU goes on, that brings the pCPU nearer to the end. -/
theorem CmdqOk.consume_rank (h : CmdqOk s) (hready : s.Ready) (hpc : pc.InSection) (hat : CmdqAt s pc) :
    cmdqRank (s.consume r) pc < cmdqRank s pc := by
  obtain ⟨hrunning, hlt⟩ := h.ready_iff.mp hready
  have hrunning' : ¬(s.consume r).Stopped := hrunning
  obtain ⟨m, -, hle, hlen⟩ := (h.waits hready hpc hat).cons
  have hdone : ¬(s.consume r).executed.length < (s.consume r).issued.length := by
    have hlength : (s.consume r).executed.length = s.executed.length + 1 := List.length_append
    have hissued : (s.consume r).issued.length = s.issued.length := rfl
    omega
  cases pc with
  | outside => exact hpc.elim
  | locking cmd => exact hpc.elim
  | unlocking => exact hpc.elim
  | full cmd => exact absurd hready (h.not_ready hat)
  | write cmd k => exact absurd hready (h.not_ready hat.1)
  | incProd cmd => exact absurd hready (h.not_ready hat.1)
  | skip k => exact absurd hat.1.stopped hrunning
  | ackRead => exact absurd hat.1.stopped hrunning
  | ackWrite gerrorn => exact absurd hat.1.stopped hrunning
  | _ =>
    simp only [cmdqRank, if_neg hrunning, if_neg hrunning', if_pos hlt, if_neg hdone]
    split <;> decide

namespace CmdqWf

variable {s t : CmdqState}

/-- The pCPU that works on the queue, or the SMMU, can do a step that brings the pCPU nearer to the end. -/
theorem advance (hn : n ≤ 2 ^ 32) (h : CmdqWf n s) (hpc : (s.pc c).InSection) :
    ∃ a t, (a = .exec c ∨ ∃ r, a = .consume r) ∧ (cmdqMachine n).step s a = some t ∧
      (t.pc c = .unlocking ∨ (t.pc c).InSection) ∧
      cmdqRank t.cmdq (t.pc c) < cmdqRank s.cmdq (s.pc c) := by
  by_cases hready : s.cmdq.Ready
  · have hr : qEmpty (s.cmdq.consReg + 1) (s.cmdq.consReg + 1) s.cmdq.q.maxNShift = true := by
      simp [qEmpty]
    exact ⟨.consume _, _, .inr ⟨_, rfl⟩, if_pos ⟨hready, hr⟩, .inr hpc,
      h.ok.consume_rank hready hpc (h.at_pc c)⟩
  · have hidle : ¬s.cmdq.Stopped → s.cmdq.issued.length = s.cmdq.executed.length := by
      intro hs
      have hge := fun hlt => hready (h.ok.ready_iff.mpr ⟨hs, hlt⟩)
      exact Nat.le_antisymm (Nat.not_lt.mp hge) h.ok.length_le
    obtain ⟨pc', cmdq, hinsert, hlt⟩ := h.ok.insert_rank (c := c) hpc (h.at_pc c) hidle
    have hin := (h.place c).inside hpc
    have hc : c < n := ((spinMachine_refines hn).invariant h.spin).lt c (by simp [hin])
    have hself : (s.goto c pc' cmdq).pc c = pc' := update_self ..
    refine ⟨.exec c, s.goto c pc' cmdq, .inl rfl, ?_, ?_, ?_⟩
    · show (if c < n then cmdqExec n s c else none) = _
      rw [if_pos hc]
      cases hpcc : s.pc c with
      | outside => simp [hpcc, CmdqPc.InSection] at hpc
      | locking cmd => simp [hpcc, CmdqPc.InSection] at hpc
      | unlocking => simp [hpcc, CmdqPc.InSection] at hpc
      | _ =>
        rw [hpcc] at hinsert
        simp only [cmdqExec, hpcc, hinsert]
        rfl
    · rw [hself]
      exact cmdqInsert_inSection hinsert
    · rw [hself]
      exact hlt

theorem exists_run (hn : n ≤ 2 ^ 32) (h : CmdqWf n s) (hpc : s.pc c = .unlocking ∨ (s.pc c).InSection) :
    ∃ as t, as.length ≤ cmdqRank s.cmdq (s.pc c) ∧ (∀ a ∈ as, a = .exec c ∨ ∃ r, a = .consume r) ∧
      (cmdqMachine n).Run s as t ∧ t.pc c = .unlocking := by
  induction hrank : cmdqRank s.cmdq (s.pc c) using Nat.strong_induction_on generalizing s with
  | _ rank ih =>
    rcases hpc with hdone | hpc
    · exact ⟨[], s, Nat.zero_le _, by simp, .nil s, hdone⟩
    · obtain ⟨a, t, ha, hstep, ht, hlt⟩ := h.advance hn hpc
      obtain ⟨as, u, hlen, has, hrun, hdone⟩ := ih _ (hrank ▸ hlt) (h.step hn hstep) ht rfl
      refine ⟨a :: as, u, ?_, ?_, .cons hstep hrun, hdone⟩
      · rw [List.length_cons]
        omega
      · intro b hb
        rcases List.mem_cons.mp hb with rfl | hb
        · exact ha
        · exact has b hb

end CmdqWf

theorem cmdqRank_le (s : SmmuCmdq) (pc : CmdqPc) : cmdqRank s pc ≤ 14 := by
  cases pc with
  | outside => exact Nat.zero_le _
  | locking cmd => exact Nat.zero_le _
  | unlocking => exact Nat.zero_le _
  | full cmd => exact (by decide : 10 ≤ 14)
  | ackRead => exact (by decide : 7 ≤ 14)
  | ackWrite gerrorn => exact (by decide : 6 ≤ 14)
  | incProd cmd => exact (by decide : 6 ≤ 14)
  | _ =>
    rw [cmdqRank]
    split_ifs <;> omega

/-- No command and no error leaves a pCPU waiting for good: from every state that can come up, an SMMU that
executes what it finds lets the pCPU that works on the queue leave it by fourteen steps of the two. -/
theorem cmdq_progress (hn : n ≤ 2 ^ 32) {s : CmdqState} (h : (cmdqMachine n).Reachable s)
    (hpc : (s.pc c).InSection) :
    ∃ as t, as.length ≤ 14 ∧ (∀ a ∈ as, a = .exec c ∨ ∃ r, a = .consume r) ∧
      (cmdqMachine n).Run s as t ∧ t.pc c = .unlocking := by
  obtain ⟨as, t, hlen, has, hrun, hdone⟩ := (CmdqWf.of_reachable hn h).exists_run hn (.inr hpc)
  exact ⟨as, t, Nat.le_trans hlen (cmdqRank_le _ _), has, hrun, hdone⟩

/-! ### A command that cannot be executed -/

/-- A queue of two slots, in use by nobody. -/
def cmdqIdle : CmdqState where
  spin := spinIdle
  cmdq := ⟨⟨fun _ => 0, 2, 1, 0, 0, 1⟩, 0, 0, 0, 0, [], [], []⟩
  pc := fun _ => .outside

/-- pCPU 0 issues a `CMDQ_OP_CFGI_ALL`, the SMMU cannot execute it, and the pCPU has seen so; pCPU 1 waits
for the lock. -/
def cmdqFaultRun : List CmdqAction :=
  [.issue 0 ⟨cmdqOpCfgiAll, 0, 0, 0⟩, .issue 1 ⟨cmdqOpTlbiEl2All, 0, 0, 0⟩, .spin 0 false, .spin 0 false,
    .spin 1 false, .spin 1 false, .spin 0 false, .spin 1 false, .exec 0, .exec 0, .exec 0, .exec 0, .exec 0,
    .exec 0, .exec 0, .fault 0x01000000, .exec 0, .exec 0, .exec 0]

/-- Behind the fault. -/
def cmdqFaulted : CmdqState := ((cmdqMachine 2).run cmdqIdle cmdqFaultRun).getD cmdqIdle

theorem cmdqFaulted_reachable : (cmdqMachine 2).Reachable cmdqFaulted := by
  refine ⟨cmdqIdle, cmdqFaultRun, ⟨⟨rfl, fun _ => rfl, rfl, rfl, rfl⟩, fun _ => rfl, rfl, by decide, rfl, rfl,
    rfl, rfl, rfl, by decide, rfl, rfl, rfl⟩, Machine.run_eq_some_iff.mp ?_⟩
  obtain ⟨t, ht⟩ := Option.isSome_iff_exists.mp
    (by decide +kernel : ((cmdqMachine 2).run cmdqIdle cmdqFaultRun).isSome = true)
  rw [cmdqFaulted, ht]
  rfl

theorem cmdqFaulted_pc : cmdqFaulted.pc 0 = .skip 1 := by
  decide +kernel

theorem cmdq_executes_issued_two :
    cmdqFaulted.cmdq.faulted = [0] ∧ cmdqFaulted.cmdq.issued.map Prod.fst <+: cmdqFaulted.spin.drawn ∧
      cmdqFaulted.cmdq.issued.length ≤ cmdqFaulted.cmdq.executed.length + 1 := by
  obtain ⟨-, -, hone, horder, -⟩ := cmdq_executes_issued (by decide) cmdqFaulted_reachable
  exact ⟨by decide +kernel, horder, hone⟩

theorem cmdq_progress_two :
    ∃ as t, as.length ≤ 14 ∧ (∀ a ∈ as, a = .exec 0 ∨ ∃ r, a = .consume r) ∧
      (cmdqMachine 2).Run cmdqFaulted as t ∧ t.pc 0 = .unlocking :=
  cmdq_progress (by decide) cmdqFaulted_reachable (by rw [cmdqFaulted_pc]; trivial)

end Avisor
