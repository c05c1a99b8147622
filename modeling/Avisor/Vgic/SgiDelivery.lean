import Avisor.Vgic.Delivery

/-!
# Where an SGI goes

A write to `GICD_SGIR` sends a message to each pCPU that it computes, and each of these makes the SGI
pending for the vCPU that it runs when it comes to the message. Nothing in the message names a vCPU. So
the SGI reaches the vCPUs that the write selects as long as these are alone on the pCPUs where they are
recorded, and run there again when the message is handled.
-/

namespace Avisor

open Function

/-! ### The vCPUs selected -/

/-- `GICD_SGIR_SGIINTID`. -/
def sgirIntId (val : BitVec 64) : Nat := (val.extractLsb' 0 4).toNat

/-- `GICD_SGIR_TRGLSTFLT`. -/
def sgirFilter (val : BitVec 64) : Nat := (val.extractLsb' 24 2).toNat

/-- The vCPUs that a write of `val` to `GICD_SGIR` by `sender` is for: those of the target list, all
others of the VM, or the sender alone. -/
def sgirSelected (nrCpus : Nat) (sender : VcpuRef) (val : BitVec 64) : List VcpuRef :=
  let vcpus := (List.range nrCpus).map fun v => (⟨sender.vm, v⟩ : VcpuRef)
  match sgirFilter val with
  | 0 => vcpus.filter fun v => v.idx < 8 && val.getLsbD (16 + v.idx)
  | 1 => vcpus.filter fun v => v ≠ sender
  | 2 => [sender]
  | _ => []

/-- The write sends a message to pCPU `d`, if there is such a pCPU. -/
def sgirBit (E : VgicEnv) (val : BitVec 64) (d : PCpuId) : Bool :=
  ((sgirTargets E val).getD 0).getLsbD d

/-- The SGI, with its source, that `vgic_ipi_handler` makes pending by `vgic_inject_sgi`. -/
def sgiOfMsg (E : VgicEnv) (event : BitVec 32) (data : BitVec 64) : Option (VcpuRef × Nat × Nat) :=
  let intId := (vgicMsgIntid data).toNat
  let source := (vgicMsgVal data).toNat
  if (vgicMsgVm data).toNat = E.current.vm ∧ event = VgicEvent.inject.toBits ∧
      E.cfg.version = .v2 ∧ gicIsSgi intId ∧ source < 8 then some (E.current, intId, source)
  else none

/-- The same for a round of `cpu_msg_handler`. -/
def sgiOfRound (E : VgicEnv) (s : VgicState) : Option (VcpuRef × Nat × Nat) :=
  (cpuGetMsg s.msgs E.self).bind fun (msg, _) =>
    if E.cfg.msg.handles msg && msg.handler = E.cfg.vgicIpiId then sgiOfMsg E msg.event msg.data
    else none

variable {E : VgicEnv} {s t : VgicState}

/-! ### The runs behind a write -/

/-- A run behind a write to `GICD_SGIR`: where the message of the write is in the list of each pCPU
until it is handled, and the SGIs that handling these messages made pending. -/
structure SgiRun where
  hv : HvState
  waits : PCpuId → Option Nat
  pended : List (VcpuRef × Nat × Nat)

variable (cfg : HvConfig)

/-- The next message that pCPU `d` takes is the one of the write. -/
def SgiRun.Next (x : SgiRun) (d : PCpuId) : Prop :=
  ∃ p, x.waits d = some p ∧ (waitingMsgs cfg.vgic.msg x.hv.vgic.msgs d).length = p + 1

instance (x : SgiRun) (d : PCpuId) : Decidable (x.Next cfg d) :=
  match h : x.waits d with
  | none => isFalse fun ⟨_, hp, _⟩ => by
    rw [h] at hp
    exact absurd hp nofun
  | some p =>
    decidable_of_iff ((waitingMsgs cfg.vgic.msg x.hv.vgic.msgs d).length = p + 1)
      ⟨fun hlen => ⟨p, h, hlen⟩, fun ⟨q, hq, hlen⟩ => by
        rw [h] at hq
        exact Option.some.inj hq ▸ hlen⟩

/-- The bookkeeping of a step: pCPU `d` has handled the message of the write. -/
def SgiRun.handled (x : SgiRun) (d : PCpuId) (vcpu : VcpuRef) : SgiRun :=
  { x with
    waits := update x.waits d none
    pended := x.pended ++ (sgiOfRound (x.hv.env cfg d vcpu) x.hv.vgic).toList }

/-- The bookkeeping before an action. -/
def SgiRun.note (x : SgiRun) : HvAction → SgiRun
  | .vgic d .message =>
    match (x.hv.sched.cpus d).vcpu with
    | some vcpu =>
      if x.Next cfg d ∧ (vgicEffect (x.hv.env cfg d vcpu) x.hv.vgic .message).isSome then
        x.handled cfg d vcpu
      else x
    | none => x
  | _ => x

/-- The machine behind the write of `val` to `GICD_SGIR` by `sender` on pCPU `c`, from `x₀` on. -/
def sgiMachine (x₀ : HvState) (c : PCpuId) (sender : VcpuRef) (val : BitVec 64) :
    Machine SgiRun HvAction where
  Init x :=
    (x₀.sched.cpus c).vcpu = some sender ∧
    (hvMachine cfg).step x₀ (.vgic c (.writeSgir val)) = some x.hv ∧
    vgicdWriteSgir (x₀.env cfg c sender) x₀.vgic val = some x.hv.vgic ∧
    (x.waits = fun d =>
      if d < cfg.vgic.cpuNum ∧ sgirBit (x₀.env cfg c sender) val d then
        some (waitingMsgs cfg.vgic.msg x₀.vgic.msgs d).length
      else none) ∧
    x.pended = []
  step x a := ((hvMachine cfg).step x.hv a).map fun y => { x.note cfg a with hv := y }

/-- The SGIs that the write asks for. -/
def sgirExpected (sender : VcpuRef) (val : BitVec 64) : List (VcpuRef × Nat × Nat) :=
  (sgirSelected (cfg.vgic.nrCpus sender.vm) sender val).map fun v =>
    (v, sgirIntId val, sender.idx)

/-- No SGI was made pending but those the write asks for, none of them twice; once all messages are
handled, all of them were. -/
structure SgiRun.Reaches (x : SgiRun) (sender : VcpuRef) (val : BitVec 64) : Prop where
  only : x.pended.Subperm (sgirExpected cfg sender val)
  all : (∀ d, x.waits d = none) → x.pended.Perm (sgirExpected cfg sender val)

/-! ### Writes that reach their targets -/

/-- The condition on the write: the selected vCPUs are recorded on pCPUs of their own, and for the
filter 1 `vm->cpus` names the pCPUs of the vCPUs of the VM. -/
structure SgirSpreads (E : VgicEnv) (val : BitVec 64) : Prop where
  vm : E.current.vm < 2 ^ 16
  source : E.current.idx < 8
  few : E.cfg.cpuNum ≤ 32
  below : ∀ v ∈ sgirSelected (E.cfg.nrCpus E.current.vm) E.current val, E.pId v < E.cfg.cpuNum
  apart : ∀ v ∈ sgirSelected (E.cfg.nrCpus E.current.vm) E.current val,
    ∀ w ∈ sgirSelected (E.cfg.nrCpus E.current.vm) E.current val, E.pId v = E.pId w → v = w
  others : sgirFilter val = 1 →
    (∀ d < E.cfg.cpuNum, (E.cpus E.current.vm).getLsbD d = true ↔
      ∃ v < E.cfg.nrCpus E.current.vm, E.pId ⟨E.current.vm, v⟩ = d) ∧
    ∀ v < E.cfg.nrCpus E.current.vm, E.pId ⟨E.current.vm, v⟩ = E.pId E.current →
      (⟨E.current.vm, v⟩ : VcpuRef) = E.current
  self : sgirFilter val = 2 → E.pId E.current = E.self

/-- The condition on a step: a pCPU that handles the message of the write runs the selected vCPU that
was recorded there. -/
def SgiRun.HandlesHome (x₀ : HvState) (sender : VcpuRef) (val : BitVec 64) (x : SgiRun) :
    HvAction → Prop
  | .vgic d .message => x.Next cfg d →
    ∃ v ∈ sgirSelected (cfg.vgic.nrCpus sender.vm) sender val,
      (x.hv.sched.cpus d).vcpu = some v ∧ (x₀.sched.vcpus v).pId = d
  | _ => True

variable {cfg} {x₀ : HvState} {c : PCpuId} {sender : VcpuRef} {val : BitVec 64} {x y : SgiRun}

/-! ### The targets -/

theorem mem_sgirSelected {nrCpus : Nat} {v : VcpuRef} : v ∈ sgirSelected nrCpus sender val ↔
    (sgirFilter val = 0 ∧ v.vm = sender.vm ∧ v.idx < nrCpus ∧ v.idx < 8 ∧
      val.getLsbD (16 + v.idx) = true) ∨
    (sgirFilter val = 1 ∧ v.vm = sender.vm ∧ v.idx < nrCpus ∧ v ≠ sender) ∨
    (sgirFilter val = 2 ∧ v = sender) := by
  have hvcpus : v ∈ (List.range nrCpus).map (fun v => (⟨sender.vm, v⟩ : VcpuRef)) ↔
      v.vm = sender.vm ∧ v.idx < nrCpus := by
    simp only [List.mem_map, List.mem_range]
    constructor
    · intro ⟨i, hi, h⟩
      rw [← h]
      exact ⟨rfl, hi⟩
    · intro ⟨hvm, hi⟩
      exact ⟨v.idx, hi, by rw [← hvm]⟩
  unfold sgirSelected
  generalize sgirFilter val = f
  match f with
  | 0 => simp [List.mem_filter, hvcpus, and_assoc]
  | 1 => simp [List.mem_filter, hvcpus, and_assoc]
  | 2 => simp
  | f + 3 => simp

theorem sgirSelected_nodup (nrCpus : Nat) (sender : VcpuRef) (val : BitVec 64) :
    (sgirSelected nrCpus sender val).Nodup := by
  have hvcpus : ((List.range nrCpus).map fun v => (⟨sender.vm, v⟩ : VcpuRef)).Nodup :=
    List.nodup_range.map fun _ _ h => congrArg VcpuRef.idx h
  unfold sgirSelected
  split
  · exact hvcpus.filter _
  · exact hvcpus.filter _
  · exact List.nodup_singleton _
  · exact List.nodup_nil

theorem getLsbD_oneShift {i k : Nat} (hi : i < 64) : (1#64 <<< k).getLsbD i = decide (i = k) := by
  rw [← BitVec.twoPow_eq, BitVec.getLsbD_twoPow]
  by_cases h : i = k
  · simp [h, h ▸ hi]
  · simp [h, Ne.symm h]

theorem getLsbD_vmTranslateToPcpuMask {vm : VmId} {mask : BitVec 64} {len d : Nat} (hd : d < 64) :
    (vmTranslateToPcpuMask E vm mask len).getLsbD d = true ↔
      ∃ i < len, mask.getLsbD i = true ∧ i < E.cfg.nrCpus vm ∧ E.pId ⟨vm, i⟩ = d := by
  unfold vmTranslateToPcpuMask
  induction len with
  | zero => simp
  | succ len ih =>
    rw [List.range_succ, List.foldl_append]
    simp only [List.foldl_cons, List.foldl_nil]
    generalize List.foldl _ (0 : BitVec 64) (List.range len) = pmask at ih ⊢
    simp only [vmTranslateToPcpuid]
    have hrest : (∃ i < len + 1, mask.getLsbD i = true ∧ i < E.cfg.nrCpus vm ∧ E.pId ⟨vm, i⟩ = d) ↔
        (∃ i < len, mask.getLsbD i = true ∧ i < E.cfg.nrCpus vm ∧ E.pId ⟨vm, i⟩ = d) ∨
          (mask.getLsbD len = true ∧ len < E.cfg.nrCpus vm ∧ E.pId ⟨vm, len⟩ = d) := by
      simp only [Nat.lt_succ_iff_lt_or_eq, or_and_right, exists_or, exists_eq_left]
    rw [hrest, ← ih]
    by_cases hbit : mask.getLsbD len = true
    · by_cases hlen : len < E.cfg.nrCpus vm
      · simp only [hbit, if_true, hlen, true_and, BitVec.getLsbD_or, Bool.or_eq_true,
          getLsbD_oneShift hd, decide_eq_true_eq, eq_comm (a := d)]
      · simp only [hbit, hlen, if_true, if_false, true_and, false_and, or_false]
    · simp only [hbit, if_false, Bool.false_eq_true, false_and, or_false]

theorem sgirTargets_eq (E : VgicEnv) (val : BitVec 64) : sgirTargets E val =
    match sgirFilter val with
    | 0 => some (vmTranslateToPcpuMask E E.current.vm ((val.extractLsb' 16 8).setWidth 64) 8)
    | 1 => some (E.cpus E.current.vm &&& (~~~(1#32 <<< E.pId E.current)).setWidth 64)
    | 2 => some ((1#32 <<< E.self).setWidth 64)
    | _ => none :=
  rfl

theorem sgirBit_list (h : sgirFilter val = 0) {d : PCpuId} (hd : d < 64) :
    sgirBit E val d = true ↔
      ∃ i < 8, val.getLsbD (16 + i) = true ∧ i < E.cfg.nrCpus E.current.vm ∧
        E.pId ⟨E.current.vm, i⟩ = d := by
  have hlist : ∀ i < 8, ((val.extractLsb' 16 8).setWidth 64).getLsbD i = val.getLsbD (16 + i) := by
    intro i hi
    rw [BitVec.getLsbD_setWidth, BitVec.getLsbD_extractLsb', decide_eq_true (by omega),
      decide_eq_true hi, Bool.true_and, Bool.true_and]
  rw [sgirBit, sgirTargets_eq, h]
  change (vmTranslateToPcpuMask E _ _ _).getLsbD d = true ↔ _
  rw [getLsbD_vmTranslateToPcpuMask hd]
  constructor
  · intro ⟨i, hi, hbit, hrest⟩
    exact ⟨i, hi, hlist i hi ▸ hbit, hrest⟩
  · intro ⟨i, hi, hbit, hrest⟩
    exact ⟨i, hi, (hlist i hi).symm ▸ hbit, hrest⟩

theorem sgirBit_others (h : sgirFilter val = 1) {d : PCpuId} (hd : d < 32) :
    sgirBit E val d = true ↔ (E.cpus E.current.vm).getLsbD d = true ∧ d ≠ E.pId E.current := by
  have hd64 : d < 64 := Nat.lt_trans hd (by decide)
  rw [sgirBit, sgirTargets_eq, h]
  change (E.cpus E.current.vm &&& (~~~(1#32 <<< E.pId E.current)).setWidth 64).getLsbD d = true ↔ _
  rw [BitVec.getLsbD_and, BitVec.getLsbD_setWidth, BitVec.getLsbD_not, getLsbD_bit hd,
    decide_eq_true hd, decide_eq_true hd64]
  simp

theorem sgirBit_self (h : sgirFilter val = 2) {d : PCpuId} (hd : d < 32) :
    sgirBit E val d = true ↔ d = E.self := by
  have hd64 : d < 64 := Nat.lt_trans hd (by decide)
  rw [sgirBit, sgirTargets_eq, h]
  change ((1#32 <<< E.self).setWidth 64).getLsbD d = true ↔ _
  rw [BitVec.getLsbD_setWidth, getLsbD_bit hd, decide_eq_true hd64]
  simp

/-- The pCPUs that the write computes are those of the selected vCPUs. -/
theorem SgirSpreads.bit_iff (h : SgirSpreads E val) {d : PCpuId} (hd : d < E.cfg.cpuNum) :
    sgirBit E val d = true ↔
      ∃ v ∈ sgirSelected (E.cfg.nrCpus E.current.vm) E.current val, E.pId v = d := by
  have hd32 : d < 32 := Nat.lt_of_lt_of_le hd h.few
  have hfilter : sgirFilter val < 4 := (val.extractLsb' 24 2).isLt
  rcases (by omega : sgirFilter val = 0 ∨ sgirFilter val = 1 ∨ sgirFilter val = 2 ∨
    sgirFilter val = 3) with hf | hf | hf | hf
  · rw [sgirBit_list hf (Nat.lt_trans hd32 (by decide))]
    simp only [mem_sgirSelected, hf]
    constructor
    · intro ⟨i, hi, hbit, hnr, hp⟩
      exact ⟨⟨E.current.vm, i⟩, .inl ⟨trivial, rfl, hnr, hi, hbit⟩, hp⟩
    · intro ⟨v, hv, hp⟩
      obtain ⟨-, hvm, hnr, hi, hbit⟩ := hv.resolve_right (by omega)
      exact ⟨v.idx, hi, hbit, hnr, hvm ▸ hp⟩
  · obtain ⟨hcpus, hown⟩ := h.others hf
    rw [sgirBit_others hf hd32, hcpus d hd]
    simp only [mem_sgirSelected, hf]
    constructor
    · intro ⟨⟨i, hi, hp⟩, hne⟩
      refine ⟨⟨E.current.vm, i⟩, .inr (.inl ⟨trivial, rfl, hi, fun heq => hne ?_⟩), hp⟩
      rw [← hp, heq]
    · intro ⟨v, hv, hp⟩
      obtain ⟨-, hvm, hi, hne⟩ := (hv.resolve_left (by omega)).resolve_right (by omega)
      have hvref : (⟨E.current.vm, v.idx⟩ : VcpuRef) = v := by rw [← hvm]
      refine ⟨⟨v.idx, hi, by rw [hvref, hp]⟩, fun heq => hne ?_⟩
      rw [← hvref]
      exact hown v.idx hi (by rw [hvref, hp, heq])
  · rw [sgirBit_self hf hd32, ← h.self hf]
    simp only [mem_sgirSelected, hf]
    constructor
    · intro heq
      exact ⟨E.current, .inr (.inr ⟨trivial, rfl⟩), heq.symm⟩
    · intro ⟨v, hv, hp⟩
      obtain ⟨-, rfl⟩ := (hv.resolve_left (by omega)).resolve_left (by omega)
      exact hp.symm
  · rw [sgirBit, sgirTargets_eq, hf]
    simp [mem_sgirSelected, hf]

/-! ### The messages -/

/-- The loop of `vgic_send_sgi_msg` adds the message to the list of each pCPU of the mask. -/
theorem vgicSendMask_waiting {mask : BitVec 64} {msg : CpuMsg}
    (h : vgicSendMask E s mask msg = some t) (hs : MsgWellFormed E.cfg.msg s.msgs)
    (hnum : E.cfg.cpuNum ≤ E.cfg.msg.hypNrCpus) {d : PCpuId} (hd : d < E.cfg.msg.hypNrCpus) :
    waitingMsgs E.cfg.msg t.msgs d = waitingMsgs E.cfg.msg s.msgs d ++
      if d < E.cfg.cpuNum ∧ mask.getLsbD d = true then [msg] else [] := by
  unfold vgicSendMask at h
  generalize E.cfg.cpuNum = n at h hnum ⊢
  suffices hall : MsgWellFormed E.cfg.msg t.msgs ∧ ∀ d < E.cfg.msg.hypNrCpus,
      waitingMsgs E.cfg.msg t.msgs d = waitingMsgs E.cfg.msg s.msgs d ++
        if d < n ∧ mask.getLsbD d = true then [msg] else [] from hall.2 d hd
  clear hd
  induction n generalizing t with
  | zero =>
    cases h
    exact ⟨hs, fun d _ => by simp⟩
  | succ n ih =>
    rw [List.range_succ, List.foldlM_append] at h
    obtain ⟨u, hu, hlast⟩ := Option.bind_eq_some_iff.mp h
    obtain ⟨hwf, hwaiting⟩ := ih hu (by omega)
    rw [List.foldlM_cons] at hlast
    obtain ⟨w, hw, hnil⟩ := Option.bind_eq_some_iff.mp hlast
    cases hnil
    by_cases hbit : mask.getLsbD n = true
    · rw [if_pos hbit] at hw
      obtain ⟨msgs, hmsgs, rfl⟩ := Option.map_eq_some_iff.mp hw
      obtain ⟨hwf', hsent⟩ := hwf.send (Nat.lt_of_succ_le hnum) hmsgs
      refine ⟨hwf', fun d hd => ?_⟩
      rw [hsent d hd, hwaiting d hd]
      by_cases hdn : d = n
      · subst hdn
        simp [hbit]
      · rw [if_neg hdn]
        congr 2
        rw [eq_iff_iff]
        constructor
        · exact fun hlt => ⟨by omega, hlt.2⟩
        · exact fun hlt => ⟨by omega, hlt.2⟩
    · rw [if_neg hbit] at hw
      cases hw
      refine ⟨hwf, fun d hd => ?_⟩
      rw [hwaiting d hd]
      congr 2
      rw [eq_iff_iff]
      constructor
      · exact fun hlt => ⟨by omega, hlt.2⟩
      · intro hlt
        refine ⟨?_, hlt.2⟩
        rcases Nat.lt_succ_iff_lt_or_eq.mp hlt.1 with hdn | rfl
        · exact hdn
        · exact absurd hlt.2 hbit

/-- What a call does to the list of a pCPU: it adds to it, and the handler of messages takes the last
one of its own before. -/
theorem SendingWf.call_waiting {x : HvState} (h : SendingWf cfg x) {c d : PCpuId} {vcpu : VcpuRef}
    {call : VgicCall} {t : VgicState} (hc : c < cfg.sched.hypNrCpus)
    (heffect : vgicEffect (x.env cfg c vcpu) x.vgic call = some t) (hd : d < cfg.sched.hypNrCpus) :
    ∃ kept l, waitingMsgs cfg.vgic.msg t.msgs d = kept ++ l ∧
      (kept = waitingMsgs cfg.vgic.msg x.vgic.msgs d ∨
        (call = .message ∧ d = c ∧
          ∃ msg, waitingMsgs cfg.vgic.msg x.vgic.msgs d = kept ++ [msg])) := by
  have hmsgCpus := cfg.msgCpus
  have hE := h.env c vcpu
  have hlt (d) (msg) (hmsg : ForOwnVm (x.env cfg c vcpu) d msg) :
      d < (x.env cfg c vcpu).cfg.msg.hypNrCpus := hmsg.1
  rcases Sends.effect hE.admits (fun D hD => hE.delegation (vgicDelegation_for hD)) heffect with
    hsends | ⟨msg, msgs, hcall, hget, hsends⟩
  · obtain ⟨-, l, -, -, hwaiting⟩ := hsends.waiting h.msgs hlt
    exact ⟨_, _, hwaiting d (hmsgCpus.symm ▸ hd), .inl rfl⟩
  · rcases h.msgs.get (hmsgCpus.symm ▸ hc) with ⟨hnone, -⟩ | ⟨msg', u, hsome, hu, hconcat, hother⟩
    · rw [show (x.env cfg c vcpu).self = c from rfl, hnone] at hget
      cases hget
    · rw [show (x.env cfg c vcpu).self = c from rfl, hsome] at hget
      cases hget
      obtain ⟨-, l, -, -, hwaiting⟩ := hsends.waiting hu hlt
      refine ⟨_, _, hwaiting d (hmsgCpus.symm ▸ hd), ?_⟩
      by_cases hdc : d = c
      · subst hdc
        exact .inr ⟨hcall, rfl, _, hconcat⟩
      · exact .inl (hother d (hmsgCpus.symm ▸ hd) hdc)

/-! ### The invariant of a run -/

/-- The messages that wait are where they are noted to be, and the SGIs of the others were made
pending. -/
structure SgiRun.Tracks (cfg : HvConfig) (x₀ : HvState) (c : PCpuId) (sender : VcpuRef)
    (val : BitVec 64) (x : SgiRun) : Prop where
  wf : SendingWf cfg x.hv
  waiting : ∀ d p, x.waits d = some p → d < cfg.sched.hypNrCpus ∧
    (waitingMsgs cfg.vgic.msg x.hv.vgic.msgs d)[p]? =
      some (sgiMsg (x₀.env cfg c sender) (sgirIntId val))
  nodup : x.pended.Nodup
  pended : ∀ e, e ∈ x.pended ↔ ∃ v ∈ sgirSelected (cfg.vgic.nrCpus sender.vm) sender val,
    e = (v, sgirIntId val, sender.idx) ∧ x.waits (x₀.sched.vcpus v).pId = none

theorem sgirExpected_nodup : (sgirExpected cfg sender val).Nodup :=
  (sgirSelected_nodup _ _ _).map fun _ _ h => congrArg Prod.fst h

theorem SgiRun.Tracks.reaches (h : x.Tracks cfg x₀ c sender val) : x.Reaches cfg sender val where
  only := by
    apply List.subperm_of_subset h.nodup
    intro e he
    obtain ⟨v, hv, rfl, -⟩ := (h.pended e).mp he
    exact List.mem_map_of_mem hv
  all hnone := by
    apply (List.perm_ext_iff_of_nodup h.nodup sgirExpected_nodup).mpr
    intro e
    rw [h.pended e, sgirExpected, List.mem_map]
    constructor
    · intro ⟨v, hv, he, _⟩
      exact ⟨v, hv, he.symm⟩
    · intro ⟨v, hv, he⟩
      exact ⟨v, hv, he.symm, hnone _⟩

/-- The message of the write, taken by a pCPU that runs a selected vCPU. -/
theorem sgiOfMsg_sgiMsg {E' : VgicEnv} (hvm : E'.current.vm = E.current.vm)
    (hversion : E'.cfg.version = .v2) (hlt : E.current.vm < 2 ^ 16) (hsource : E.current.idx < 8) :
    sgiOfMsg E' (sgiMsg E (sgirIntId val)).event (sgiMsg E (sgirIntId val)).data =
      some (E'.current, sgirIntId val, E.current.idx) := by
  have hid : sgirIntId val < 16 := (val.extractLsb' 0 4).isLt
  have hid15 : sgirIntId val < 2 ^ 15 := Nat.lt_trans hid (by decide)
  have hsource8 : E.current.idx < 2 ^ 8 := Nat.lt_trans hsource (by decide)
  have hmvm : (vgicMsgVm (sgiMsg E (sgirIntId val)).data).toNat = E.current.vm := by
    simp only [sgiMsg, vgicMsg, vgicMsgVm_data]
    exact toNat_and_mask (by decide) hlt
  have hmid : (vgicMsgIntid (sgiMsg E (sgirIntId val)).data).toNat = sgirIntId val := by
    simp only [sgiMsg, vgicMsg, vgicMsgIntid_data]
    exact toNat_and_mask (by decide) hid15
  have hmval : (vgicMsgVal (sgiMsg E (sgirIntId val)).data).toNat = E.current.idx := by
    simp only [sgiMsg, vgicMsg, vgicMsgVal_data]
    exact toNat_and_mask (by decide) hsource8
  unfold sgiOfMsg
  rw [hmvm, hmid, hmval]
  exact if_pos ⟨hvm.symm, rfl, hversion, decide_eq_true hid, hsource⟩

/-- A round of the handler that takes the message of the write. -/
theorem sgiOfRound_eq {E' : VgicEnv} {msg : CpuMsg} {msgs : MsgState}
    (hget : cpuGetMsg s.msgs E'.self = some (msg, msgs)) (hmsg : msg = sgiMsg E (sgirIntId val))
    (hcfg : E'.cfg = E.cfg) (hipi : E.cfg.msg.handles ⟨E.cfg.vgicIpiId, 0, 0⟩ = true)
    (hvm : E'.current.vm = E.current.vm) (hversion : E'.cfg.version = .v2)
    (hlt : E.current.vm < 2 ^ 16) (hsource : E.current.idx < 8) :
    sgiOfRound E' s = some (E'.current, sgirIntId val, E.current.idx) := by
  subst hmsg
  have hhandles : (E'.cfg.msg.handles (sgiMsg E (sgirIntId val)) &&
      (sgiMsg E (sgirIntId val)).handler = E'.cfg.vgicIpiId) = true := by
    rw [hcfg, Bool.and_eq_true]
    exact ⟨hipi, decide_eq_true rfl⟩
  rw [sgiOfRound, hget, Option.bind_some]
  simp only [hhandles, if_true]
  exact sgiOfMsg_sgiMsg hvm hversion hlt hsource

namespace SgiRun.Tracks

/-- A call leaves a message in its place, unless it takes it. -/
theorem place (h : x.Tracks cfg x₀ c sender val) {d d' : PCpuId} {vcpu : VcpuRef} {call : VgicCall}
    {t : VgicState} (hd : d < cfg.sched.hypNrCpus)
    (heffect : vgicEffect (x.hv.env cfg d vcpu) x.hv.vgic call = some t) {p : Nat}
    (hp : x.waits d' = some p) (hnext : call = .message → d' = d → ¬x.Next cfg d) :
    d' < cfg.sched.hypNrCpus ∧ (waitingMsgs cfg.vgic.msg t.msgs d')[p]? =
      some (sgiMsg (x₀.env cfg c sender) (sgirIntId val)) := by
  obtain ⟨hd', hmsg⟩ := h.waiting d' p hp
  refine ⟨hd', ?_⟩
  obtain ⟨kept, l, hwaiting, hkept⟩ := h.wf.call_waiting hd heffect hd'
  have hlt : p < (waitingMsgs cfg.vgic.msg x.hv.vgic.msgs d').length :=
    (List.getElem?_eq_some_iff.mp hmsg).1
  rcases hkept with rfl | ⟨hcall, hdd, msg, hconcat⟩
  · rw [hwaiting, List.getElem?_append_left hlt]
    exact hmsg
  · have hlen : p < kept.length := by
      by_contra hge
      apply hnext hcall hdd
      refine ⟨p, hdd ▸ hp, ?_⟩
      rw [hconcat, List.length_append, List.length_singleton] at hlt
      rw [← hdd, hconcat, List.length_append, List.length_singleton]
      omega
    rw [hwaiting, List.getElem?_append_left hlen]
    rw [hconcat, List.getElem?_append_left hlen] at hmsg
    exact hmsg

/-- The hypervisor goes on, and the messages of the write stay where they are. -/
theorem keep (h : x.Tracks cfg x₀ c sender val) {z : HvState} (hwf : SendingWf cfg z)
    (hplace : ∀ d p, x.waits d = some p → d < cfg.sched.hypNrCpus ∧
      (waitingMsgs cfg.vgic.msg z.vgic.msgs d)[p]? =
        some (sgiMsg (x₀.env cfg c sender) (sgirIntId val))) :
    SgiRun.Tracks cfg x₀ c sender val { x with hv := z } :=
  ⟨hwf, hplace, h.nodup, h.pended⟩

/-- pCPU `d` handles its message of the write. -/
theorem handled (h : x.Tracks cfg x₀ c sender val) {z : HvState} (hwf : SendingWf cfg z)
    (hspreads : SgirSpreads (x₀.env cfg c sender) val) {d : PCpuId} {v : VcpuRef}
    (hv : v ∈ sgirSelected (cfg.vgic.nrCpus sender.vm) sender val)
    (hpId : (x₀.sched.vcpus v).pId = d) {p : Nat} (hp : x.waits d = some p)
    (hround : sgiOfRound (x.hv.env cfg d v) x.hv.vgic = some (v, sgirIntId val, sender.idx))
    (hplace : ∀ d' p, d' ≠ d → x.waits d' = some p → d' < cfg.sched.hypNrCpus ∧
      (waitingMsgs cfg.vgic.msg z.vgic.msgs d')[p]? =
        some (sgiMsg (x₀.env cfg c sender) (sgirIntId val))) :
    SgiRun.Tracks cfg x₀ c sender val { x.handled cfg d v with hv := z } where
  wf := hwf
  waiting d' q hq := by
    by_cases hd : d' = d
    · subst hd
      simp only [SgiRun.handled, update_self] at hq
      exact absurd hq nofun
    · simp only [SgiRun.handled, update_of_ne hd] at hq
      exact hplace d' q hd hq
  nodup := by
    simp only [SgiRun.handled, hround, Option.toList_some]
    rw [List.nodup_append_comm]
    refine List.nodup_cons.mpr ⟨fun hmem => ?_, h.nodup⟩
    obtain ⟨w, -, heq, hnone⟩ := (h.pended _).mp hmem
    obtain rfl : v = w := congrArg Prod.fst heq
    rw [hpId, hp] at hnone
    exact absurd hnone nofun
  pended e := by
    simp only [SgiRun.handled, hround, Option.toList_some, List.mem_append, List.mem_singleton,
      h.pended e]
    constructor
    · rintro (⟨w, hw, he, hnone⟩ | rfl)
      · refine ⟨w, hw, he, ?_⟩
        by_cases hwd : (x₀.sched.vcpus w).pId = d
        · rw [hwd, update_self]
        · rw [update_of_ne hwd, hnone]
      · exact ⟨v, hv, rfl, by rw [hpId, update_self]⟩
    · intro ⟨w, hw, he, hnone⟩
      by_cases hwd : (x₀.sched.vcpus w).pId = d
      · right
        obtain rfl : w = v := hspreads.apart w hw v hv (hwd.trans hpId.symm)
        exact he
      · rw [update_of_ne hwd] at hnone
        exact .inl ⟨w, hw, he, hnone⟩

theorem step (h : x.Tracks cfg x₀ c sender val) {a : HvAction}
    (hspreads : SgirSpreads (x₀.env cfg c sender) val) (hversion : cfg.vgic.version = .v2)
    (hipi : cfg.vgic.msg.handles ⟨cfg.vgic.vgicIpiId, 0, 0⟩ = true)
    (hstep : (sgiMachine cfg x₀ c sender val).step x a = some y)
    (hhome : x.HandlesHome cfg x₀ sender val a) : y.Tracks cfg x₀ c sender val := by
  obtain ⟨z, hz, rfl⟩ := Option.map_eq_some_iff.mp hstep
  have hwf := h.wf.step hz
  cases step_hvStep hz with
  | sched a t step taken => exact h.keep hwf h.waiting
  | halt d call vcpu cpu pc vcpu_eq effect =>
    have hnote : x.note cfg (.vgic d call) = x := by
      unfold SgiRun.note
      split
      · rename_i heq
        cases heq
        simp [vcpu_eq, effect]
      · rfl
    rw [hnote]
    exact h.keep hwf h.waiting
  | vgic d call vcpu t cpu pc vcpu_eq enabled effect =>
    by_cases hnext : call = .message ∧ x.Next cfg d
    · obtain ⟨rfl, hnext⟩ := hnext
      have hnote : x.note cfg (.vgic d .message) = x.handled cfg d vcpu := by
        simp only [SgiRun.note, vcpu_eq, effect, Option.isSome_some, and_true, hnext, if_true]
      rw [hnote]
      obtain ⟨v, hv, hcpu, hpId⟩ := hhome hnext
      obtain rfl : vcpu = v := Option.some.inj (vcpu_eq.symm.trans hcpu)
      obtain ⟨p, hp, hlen⟩ := hnext
      have hvm : vcpu.vm = sender.vm := by
        rcases mem_sgirSelected.mp hv with ⟨-, hvm, -⟩ | ⟨-, hvm, -⟩ | ⟨-, rfl⟩
        · exact hvm
        · exact hvm
        · rfl
      have hround : sgiOfRound (x.hv.env cfg d vcpu) x.hv.vgic =
          some (vcpu, sgirIntId val, sender.idx) := by
        obtain ⟨hd, hmsg⟩ := h.waiting d p hp
        rcases h.wf.msgs.get (cfg.msgCpus.symm ▸ hd) with ⟨-, hnil⟩ | ⟨msg, u, hget, -, hconcat, -⟩
        · rw [hnil] at hlen
          exact absurd hlen nofun
        · have hmsgEq : msg = sgiMsg (x₀.env cfg c sender) (sgirIntId val) := by
            rw [hconcat, List.length_append, List.length_singleton] at hlen
            obtain rfl : p = (waitingMsgs cfg.vgic.msg u d).length := by omega
            rw [hconcat, List.getElem?_concat_length] at hmsg
            exact Option.some.inj hmsg
          exact sgiOfRound_eq (E := x₀.env cfg c sender) hget hmsgEq rfl hipi hvm hversion
            hspreads.vm hspreads.source
      apply h.handled hwf hspreads hv hpId hp hround
      intro d' q hd' hq
      exact h.place cpu effect hq fun _ hdd => absurd hdd hd'
    · have hnote : x.note cfg (.vgic d call) = x := by
        unfold SgiRun.note
        split
        · rename_i heq
          cases heq
          rw [vcpu_eq]
          exact if_neg fun hcond => hnext ⟨rfl, hcond.1⟩
        · rfl
      rw [hnote]
      apply h.keep hwf
      intro d' q hq
      apply h.place cpu effect hq
      exact fun hcall hdd hn => hnext ⟨hcall, hn⟩

/-- Behind the write the message waits where it was sent. -/
theorem init (h₀ : SendingWf cfg x₀) (hinit : (sgiMachine cfg x₀ c sender val).Init x)
    (hspreads : SgirSpreads (x₀.env cfg c sender) val) : x.Tracks cfg x₀ c sender val := by
  obtain ⟨-, hstep, hwrite, hwaits, hpended⟩ := hinit
  have hnum : cfg.vgic.cpuNum ≤ cfg.sched.hypNrCpus := cfg.cpuNum_le
  refine ⟨h₀.step hstep, fun d p hp => ?_, ?_, fun e => ?_⟩
  · rw [hwaits] at hp
    obtain ⟨⟨hd, hbit⟩, hlen⟩ := Option.ite_none_right_eq_some.mp hp
    have hdn : d < cfg.sched.hypNrCpus := Nat.lt_of_lt_of_le hd hnum
    refine ⟨hdn, ?_⟩
    unfold vgicdWriteSgir at hwrite
    rw [sgirBit] at hbit
    cases htargets : sgirTargets (x₀.env cfg c sender) val with
    | none =>
      rw [htargets] at hbit
      simp at hbit
    | some mask =>
      rw [htargets] at hwrite hbit
      have hwaiting := vgicSendMask_waiting hwrite h₀.msgs (cfg.msgCpus.symm ▸ hnum)
        (cfg.msgCpus.symm ▸ hdn)
      change waitingMsgs cfg.vgic.msg x.hv.vgic.msgs d = _ at hwaiting
      rw [if_pos ⟨hd, hbit⟩] at hwaiting
      rw [hwaiting, ← Option.some.inj hlen]
      exact List.getElem?_concat_length
  · rw [hpended]
    exact List.nodup_nil
  · rw [hpended]
    constructor
    · exact nofun
    · intro ⟨v, hv, _, hnone⟩
      have hlt : (x₀.sched.vcpus v).pId < cfg.vgic.cpuNum := hspreads.below v hv
      have hbit := (hspreads.bit_iff hlt).mpr ⟨v, hv, rfl⟩
      rw [hwaits] at hnone
      simp only [hlt, hbit, and_self, if_true] at hnone
      exact absurd hnone nofun

end SgiRun.Tracks

/-- The register is one of the GICv2 build. -/
theorem sgiMachine_version (hinit : (sgiMachine cfg x₀ c sender val).Init x) :
    cfg.vgic.version = .v2 := by
  obtain ⟨hsender, hstep, hwrite, -⟩ := hinit
  generalize x.hv = z at hstep hwrite
  cases step_hvStep hstep with
  | vgic c call vcpu t cpu pc vcpu_eq enabled effect => exact of_decide_eq_true enabled
  | halt c call vcpu cpu pc vcpu_eq effect =>
    obtain rfl : sender = vcpu := Option.some.inj (hsender.symm.trans vcpu_eq)
    exact absurd (hwrite.symm.trans effect) nofun

/-- VM 1 starts its second vCPU, and pCPU 0 comes to it with the next turn of the VM. -/
def bringUpSecond : List HvAction :=
  startFirst ++ [.sched (.call 0 (.schedStartHandler 1))] ++ changeVm ++ changeVm

/-- pCPU 0 runs the second vCPU of VM 1; both have run there. -/
def onSecond (cfg : HvConfig) : HvState :=
  ((hvMachine cfg).run (twoVmsBoot .v2) bringUpSecond).getD (twoVmsBoot .v2)

/-- It writes `val` to `GICD_SGIR`. -/
def sgirOfSecond (cfg : HvConfig) (val : BitVec 64) : SgiRun where
  hv := ((hvMachine cfg).step (onSecond cfg) (.vgic 0 (.writeSgir val))).getD (onSecond cfg)
  waits := fun d =>
    if d < cfg.vgic.cpuNum ∧ sgirBit ((onSecond cfg).env cfg 0 ⟨1, 1⟩) val d then
      some (waitingMsgs cfg.vgic.msg (onSecond cfg).vgic.msgs d).length
    else none
  pended := []

theorem onSecond_reachable :
    (hvMachine (twoVms .v2 4 (by decide))).Reachable (onSecond (twoVms .v2 4 (by decide))) :=
  ⟨twoVmsBoot .v2, bringUpSecond, twoVmsBoot_init, Machine.run_eq_some_iff.mp rfl⟩

end Avisor
