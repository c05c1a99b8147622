import Avisor.Cpu.MessageOrder
import Mathlib.Algebra.BigOperators.Group.Finset.Piecewise

/-!
# Every message once

pCPUs call `cpu_send_msg` and `cpu_get_msg` in any order. What was sent to a pCPU is what `cpu_get_msg`
has returned there together with what still waits in its event list, message for message.
-/

namespace Avisor

open Function

/-- The state of `cpu.c`, with the messages sent, each behind its target, and the messages returned, each
behind the pCPU that got it. -/
structure DeliveryRun where
  state : MsgState
  sent : List (PCpuId × CpuMsg)
  returned : List (PCpuId × CpuMsg)

/-- The step of the machine; a `cpu_get_msg` that returns `false` changes nothing, and a `cpu_send_msg`
without a node ends in `ERROR`. -/
def deliveryStep (cfg : MsgConfig) (x : DeliveryRun) : MsgAction → Option DeliveryRun
  | .send src trgt msg =>
    if src < cfg.hypNrCpus ∧ trgt < cfg.hypNrCpus then
      (cpuSendMsg cfg x.state trgt msg).map fun t =>
        { x with state := t, sent := x.sent ++ [(trgt, msg)] }
    else none
  | .get c =>
    if c < cfg.hypNrCpus then
      match cpuGetMsg x.state c with
      | none => some x
      | some (msg, t) => some { x with state := t, returned := x.returned ++ [(c, msg)] }
    else none

/-- Nothing was sent, and `cpu_init` has run on every pCPU. -/
structure DeliveryStart (cfg : MsgConfig) (x : DeliveryRun) : Prop where
  boot : MsgBoot cfg x.state
  sent : x.sent = []
  returned : x.returned = []

/-- The machine of the two calls. -/
def deliveryMachine (cfg : MsgConfig) : Machine DeliveryRun MsgAction where
  Init := DeliveryStart cfg
  step := deliveryStep cfg

/-- The messages of `es` that have to do with pCPU `c`. -/
def msgsOf (es : List (PCpuId × CpuMsg)) (c : PCpuId) : List CpuMsg :=
  (es.filter fun e => e.1 = c).map Prod.snd

/-- The number of messages in the event lists. -/
def nrWaiting (cfg : MsgConfig) (s : MsgState) : Nat :=
  ∑ c ∈ Finset.range cfg.hypNrCpus, (waitingMsgs cfg s c).length

/-- The number of objects of `msg_pool` that are in use. -/
def nrInUse (cfg : MsgConfig) (s : MsgState) : Nat :=
  ((Finset.range cfg.poolSize).filter fun n => bitmapGet s.bitmap n = true).card

/-- No message is lost, doubled, changed or made up: what was sent to a pCPU was returned there or waits
there, and as soon as `cpu_get_msg` returns `false` there all of it was returned; a pool object is in use
for each message that waits; and with fewer messages outstanding than the pool has objects
`cpu_send_msg` finds one. -/
structure Delivered (cfg : MsgConfig) (x : DeliveryRun) : Prop where
  account : ∀ c < cfg.hypNrCpus,
    (msgsOf x.sent c).Perm (msgsOf x.returned c ++ waitingMsgs cfg x.state c)
  drained : ∀ c < cfg.hypNrCpus, cpuGetMsg x.state c = none →
    (msgsOf x.sent c).Perm (msgsOf x.returned c)
  inUse : nrInUse cfg x.state = nrWaiting cfg x.state
  accepted : ∀ c < cfg.hypNrCpus, ∀ msg, x.sent.length < x.returned.length + cfg.poolSize →
    ∃ t, cpuSendMsg cfg x.state c msg = some t

variable {cfg : MsgConfig} {x y : DeliveryRun} {s t : MsgState} {c trgt : PCpuId} {msg : CpuMsg}
  {es : List (PCpuId × CpuMsg)}

theorem msgsOf_append_self : msgsOf (es ++ [(c, msg)]) c = msgsOf es c ++ [msg] := by
  simp [msgsOf]

theorem msgsOf_append_of_ne (h : trgt ≠ c) : msgsOf (es ++ [(trgt, msg)]) c = msgsOf es c := by
  simp [msgsOf, h]

/-! ### The pool -/

/-- The nodes in use are those of the event lists. -/
theorem Queued.nrInUse {q : PCpuId → List Nat} (h : Queued cfg s q) :
    nrInUse cfg s = nrWaiting cfg s := by
  have hnodup : ((List.range cfg.hypNrCpus).flatMap q).Nodup := by
    refine List.nodup_flatMap.mpr ⟨fun c hc => (h.holds c (List.mem_range.mp hc)).nodup, ?_⟩
    refine List.nodup_range.pairwise_of_forall_ne ?_
    intro c hc d hd hne n hn hn'
    exact h.apart c (List.mem_range.mp hc) d (List.mem_range.mp hd) hne n hn hn'
  have hset : (Finset.range cfg.poolSize).filter (fun n => bitmapGet s.bitmap n = true) =
      ((List.range cfg.hypNrCpus).flatMap q).toFinset := by
    ext n
    simp only [Finset.mem_filter, Finset.mem_range, List.mem_toFinset, List.mem_flatMap, List.mem_range]
    constructor
    · rintro ⟨hlt, hused⟩
      exact (h.used n hlt).mp hused
    · rintro ⟨c, hc, hn⟩
      have hlt := h.lt c hc n hn
      exact ⟨hlt, (h.used n hlt).mpr ⟨c, hc, hn⟩⟩
  have hlength : nrWaiting cfg s = ∑ c ∈ Finset.range cfg.hypNrCpus, (q c).length := by
    refine Finset.sum_congr rfl fun c hc => ?_
    rw [h.waitingMsgs (Finset.mem_range.mp hc), List.length_map]
  rw [Avisor.nrInUse, hset, List.toFinset_card_of_nodup hnodup, List.length_flatMap, hlength]
  rfl

/-- With fewer messages in the lists than the pool has objects one is free. -/
theorem Queued.accepts {q : PCpuId → List Nat} (h : Queued cfg s q) (hc : c < cfg.hypNrCpus)
    (hlt : nrWaiting cfg s < cfg.poolSize) : ∃ t, Avisor.cpuSendMsg cfg s c msg = some t := by
  rcases h.cpuSendMsg hc msg with ⟨-, hall⟩ | ⟨-, t, -, hsome, -⟩
  · have hfull : Avisor.nrInUse cfg s = cfg.poolSize := by
      have hfilter : (Finset.range cfg.poolSize).filter (fun n => bitmapGet s.bitmap n = true) =
          Finset.range cfg.poolSize := by
        refine Finset.filter_true_of_mem fun n hn => ?_
        exact (h.used n (Finset.mem_range.mp hn)).mpr (hall n (Finset.mem_range.mp hn))
      rw [Avisor.nrInUse, hfilter, Finset.card_range]
    rw [h.nrInUse] at hfull
    omega
  · exact ⟨t, hsome⟩

/-! ### Runs -/

/-- What every step keeps. -/
structure DeliveryWf (cfg : MsgConfig) (x : DeliveryRun) : Prop where
  wf : MsgWellFormed cfg x.state
  account : ∀ c < cfg.hypNrCpus,
    (msgsOf x.sent c).Perm (msgsOf x.returned c ++ waitingMsgs cfg x.state c)
  outstanding : x.sent.length = x.returned.length + nrWaiting cfg x.state

theorem DeliveryWf.init (h : DeliveryStart cfg x) : DeliveryWf cfg x := by
  refine ⟨h.boot.wellFormed, fun c hc => ?_, ?_⟩
  · rw [h.sent, h.returned, h.boot.waitingMsgs hc]
    exact List.Perm.refl _
  · have hnone : nrWaiting cfg x.state = 0 := by
      refine Finset.sum_eq_zero fun c hc => ?_
      rw [h.boot.waitingMsgs (Finset.mem_range.mp hc), List.length_nil]
    rw [h.sent, h.returned, hnone]
    rfl

/-- One list is longer by one. -/
theorem nrWaiting_succ (hc : c < cfg.hypNrCpus) (h : ∀ d < cfg.hypNrCpus,
    (waitingMsgs cfg t d).length = (waitingMsgs cfg s d).length + if d = c then 1 else 0) :
    nrWaiting cfg t = nrWaiting cfg s + 1 := by
  have hsum : nrWaiting cfg t = ∑ d ∈ Finset.range cfg.hypNrCpus,
      ((waitingMsgs cfg s d).length + if d = c then 1 else 0) :=
    Finset.sum_congr rfl fun d hd => h d (Finset.mem_range.mp hd)
  rw [hsum, Finset.sum_add_distrib, Finset.sum_ite_eq', if_pos (Finset.mem_range.mpr hc)]
  rfl

theorem DeliveryWf.send (h : DeliveryWf cfg x) (htrgt : trgt < cfg.hypNrCpus)
    (hsend : cpuSendMsg cfg x.state trgt msg = some t) :
    DeliveryWf cfg { x with state := t, sent := x.sent ++ [(trgt, msg)] } := by
  obtain ⟨hwf, hwaiting⟩ := h.wf.send htrgt hsend
  refine ⟨hwf, fun c hc => ?_, ?_⟩
  · have hold := h.account c hc
    have hnew := hwaiting c hc
    by_cases hct : c = trgt
    · subst hct
      rw [if_pos rfl] at hnew
      simp only [msgsOf_append_self, hnew, ← List.append_assoc]
      exact hold.append_right [msg]
    · rw [if_neg hct] at hnew
      simp only [msgsOf_append_of_ne (Ne.symm hct), hnew]
      exact hold
  · have hnr : nrWaiting cfg t = nrWaiting cfg x.state + 1 := by
      refine nrWaiting_succ htrgt fun d hd => ?_
      rw [hwaiting d hd]
      split
      · rw [List.length_append, List.length_singleton]
      · rfl
    have hold := h.outstanding
    simp only [List.length_append, List.length_singleton]
    omega

theorem DeliveryWf.get (h : DeliveryWf cfg x) (hc : c < cfg.hypNrCpus)
    (hget : cpuGetMsg x.state c = some (msg, t)) :
    DeliveryWf cfg { x with state := t, returned := x.returned ++ [(c, msg)] } ∧
      (waitingMsgs cfg x.state c).length = (waitingMsgs cfg t c).length + 1 := by
  rcases h.wf.get hc with ⟨hnone, -⟩ | ⟨msg', t', hsome, hwf, hself, hother⟩
  · rw [hget] at hnone
    cases hnone
  · rw [hget] at hsome
    cases hsome
    have hlength : (waitingMsgs cfg x.state c).length = (waitingMsgs cfg t c).length + 1 := by
      rw [hself, List.length_append, List.length_singleton]
    refine ⟨⟨hwf, fun d hd => ?_, ?_⟩, hlength⟩
    · have hold := h.account d hd
      by_cases hdc : d = c
      · subst hdc
        rw [hself] at hold
        simp only [msgsOf_append_self, List.append_assoc]
        exact hold.trans (List.perm_append_comm.append_left _)
      · simp only [msgsOf_append_of_ne (Ne.symm hdc), hother d hd hdc]
        exact hold
    · have hnr : nrWaiting cfg x.state = nrWaiting cfg t + 1 := by
        refine nrWaiting_succ hc fun d hd => ?_
        by_cases hdc : d = c
        · subst hdc
          rw [if_pos rfl, hlength]
        · rw [if_neg hdc, hother d hd hdc, Nat.add_zero]
      have hold := h.outstanding
      simp only [List.length_append, List.length_singleton]
      omega

theorem deliveryWf_preserves : (deliveryMachine cfg).Preserves (DeliveryWf cfg) := by
  intro x a y h hstep
  cases a with
  | send src trgt msg =>
    obtain ⟨⟨-, htrgt⟩, hstep⟩ := Option.ite_none_right_eq_some.mp hstep
    obtain ⟨t, hsend, rfl⟩ := Option.map_eq_some_iff.mp hstep
    exact h.send htrgt hsend
  | get c =>
    obtain ⟨hc, hstep⟩ := Option.ite_none_right_eq_some.mp hstep
    split at hstep
    · cases hstep
      exact h
    · rename_i msg t hget
      cases hstep
      exact (h.get hc hget).1

theorem DeliveryWf.delivered (h : DeliveryWf cfg x) : Delivered cfg x := by
  obtain ⟨q, hq⟩ := h.wf
  refine ⟨h.account, fun c hc hnone => ?_, hq.nrInUse, fun c hc msg hlt => ?_⟩
  · rcases h.wf.get hc with ⟨-, hnil⟩ | ⟨msg, t, hsome, -⟩
    · have hold := h.account c hc
      rw [hnil, List.append_nil] at hold
      exact hold
    · rw [hnone] at hsome
      cases hsome
  · have hold := h.outstanding
    exact hq.accepts hc (by omega)

/-- Calls of `cpu_get_msg` on one pCPU, as many as messages wait there, return all of them. -/
theorem DeliveryWf.drain (h : DeliveryWf cfg x) (hc : c < cfg.hypNrCpus) {n : Nat}
    (hn : (waitingMsgs cfg x.state c).length = n) :
    ∃ y, (deliveryMachine cfg).Run x (List.replicate n (.get c)) y ∧ y.sent = x.sent ∧
      cpuGetMsg y.state c = none := by
  induction n generalizing x with
  | zero =>
    refine ⟨x, .nil x, rfl, ?_⟩
    rcases h.wf.get hc with ⟨hnone, -⟩ | ⟨msg, t, -, -, hself, -⟩
    · exact hnone
    · rw [hself, List.length_append, List.length_singleton] at hn
      omega
  | succ n ih =>
    rcases h.wf.get hc with ⟨-, hnil⟩ | ⟨msg, t, hget, -, -, -⟩
    · rw [hnil] at hn
      cases hn
    · obtain ⟨hwf, hlength⟩ := h.get hc hget
      obtain ⟨y, hrun, hsent, hnone⟩ := ih hwf (by dsimp only; omega)
      have hstep : (deliveryMachine cfg).step x (.get c) =
          some { x with state := t, returned := x.returned ++ [(c, msg)] } := by
        simp only [deliveryMachine, deliveryStep, if_pos hc, hget]
      exact ⟨y, .cons hstep hrun, hsent, hnone⟩

/-- Whatever the pCPUs call, the messages are delivered, and from any point on calls of `cpu_get_msg`
return all that was sent to their pCPU. -/
theorem messages_delivered (h : (deliveryMachine cfg).Reachable x) :
    Delivered cfg x ∧ ∀ c < cfg.hypNrCpus, ∃ n y,
      (deliveryMachine cfg).Run x (List.replicate n (.get c)) y ∧ y.sent = x.sent ∧
        (msgsOf x.sent c).Perm (msgsOf y.returned c) := by
  have hwf : DeliveryWf cfg x :=
    h.invariant (fun _ hinit => DeliveryWf.init hinit) deliveryWf_preserves
  refine ⟨hwf.delivered, fun c hc => ?_⟩
  obtain ⟨y, hrun, hsent, hnone⟩ := hwf.drain hc rfl
  refine ⟨_, y, hrun, hsent, ?_⟩
  rw [← hsent]
  exact (hrun.invariant deliveryWf_preserves hwf).delivered.drained c hc hnone

/-- Two pCPUs at boot. -/
def deliveryBoot : DeliveryRun where
  state := twoCpusBoot.state
  sent := []
  returned := []

/-- A message from pCPU 0 to pCPU 1, taken there, and another one that waits. -/
theorem messages_delivered_two : ∃ x, (deliveryMachine twoCpus).run deliveryBoot
      [.send 0 1 ⟨0, 3, 1⟩, .get 1, .send 0 1 ⟨0, 3, 2⟩] = some x ∧
    Delivered twoCpus x ∧ ∀ c < twoCpus.hypNrCpus, ∃ n y,
      (deliveryMachine twoCpus).Run x (List.replicate n (.get c)) y ∧ y.sent = x.sent ∧
        (msgsOf x.sent c).Perm (msgsOf y.returned c) := by
  obtain ⟨x, hrun⟩ : ∃ x, (deliveryMachine twoCpus).run deliveryBoot
      [.send 0 1 ⟨0, 3, 1⟩, .get 1, .send 0 1 ⟨0, 3, 2⟩] = some x := ⟨_, rfl⟩
  have hinit : (deliveryMachine twoCpus).Init deliveryBoot := ⟨twoCpusBoot_init.boot, rfl, rfl⟩
  exact ⟨x, hrun, messages_delivered ⟨_, _, hinit, Machine.run_eq_some_iff.mp hrun⟩⟩

end Avisor
