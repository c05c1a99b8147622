import Avisor.Smmu.CommandQueue

/-!
# What the SMMU executes

The pCPU that holds the lock puts its command into an empty ring and leaves when the ring is empty again,
so that there is never more than one command in the ring. A command that stops the SMMU is replaced while
the SMMU is stopped.
-/

namespace Avisor

open Function RingQueue

variable {n shift k i : ℕ} {s t : SmmuCmdq} {c d : PCpuId} {pc pc' : CmdqPc} {cmd : SmmuCmd}
  {r : BitVec 32}

/-- What holds between any two steps: the ring has the commands that are issued and not executed, and
what is executed is what was to be executed. -/
structure CmdqOk (s : SmmuCmdq) : Prop where
  entDwords : s.q.entDwords = 2
  maxNShift : s.q.maxNShift ≤ 8
  gerrMask : s.q.gerrMask = 1
  prodReg : s.prodReg = s.q.prod
  log : ∀ i < s.executed.length, s.executed[i]? = s.expected i
  faulted : ∀ i ∈ s.faulted, i < s.issued.length
  ring : ∃ rest, RingQueue.Holds s.q.maxNShift s.q.slot s.prodReg.toNat s.consReg.toNat
    s.executed.length rest ∧ s.issued.length = s.executed.length + rest.length
  stopped : s.Stopped → s.executed.length ∈ s.faulted

/-- All is executed, and the pCPUs know. -/
structure SmmuCmdq.Quiet (s : SmmuCmdq) : Prop where
  length : s.issued.length = s.executed.length
  cons : Counts s.q.maxNShift s.q.cons.toNat s.executed.length

/-- One command at most is not executed; it is in its slot unless the SMMU is stopped. -/
structure SmmuCmdq.Waits (s : SmmuCmdq) : Prop where
  cons : ∃ m, Counts s.q.maxNShift s.q.cons.toNat m ∧ m ≤ s.executed.length ∧ s.issued.length ≤ m + 1
  pending : ¬s.Stopped → s.executed.length < s.issued.length →
    some (s.q.slot (qIdx s.consReg s.q.maxNShift).toNat) = s.expected s.executed.length

/-- The SMMU is stopped at the one command that is not executed. -/
structure SmmuCmdq.Stuck (s : SmmuCmdq) : Prop where
  stopped : s.Stopped
  cons : Counts s.q.maxNShift s.q.cons.toNat s.executed.length
  length_le : s.issued.length ≤ s.executed.length + 1

/-- What the place of the pCPU that holds the lock says about the queue. -/
def CmdqAt (s : SmmuCmdq) : CmdqPc → Prop
  | .outside | .locking _ | .unlocking => True
  | .full _ => s.Quiet
  | .write cmd k => s.Quiet ∧ ∀ j < k, s.q.base (s.q.queueEntry s.q.prod + j) = cmd.dword j
  | .incProd cmd => s.Quiet ∧ s.q.slot (qIdx s.q.prod s.q.maxNShift).toNat = cmd
  | .empty | .gerror => s.Waits
  | .gerrorn gerror => s.Waits ∧ (gerror.getLsbD 0 ≠ s.gerrorn.getLsbD 0 → s.Stopped)
  | .skip k => s.Stuck ∧ ∀ j < k, s.q.base (s.q.queueEntry s.q.cons + j) = cmdSync.dword j
  | .ackRead => s.Stuck ∧ s.q.slot (qIdx s.q.cons s.q.maxNShift).toNat = cmdSync
  | .ackWrite gerrorn =>
    s.Stuck ∧ s.q.slot (qIdx s.q.cons s.q.maxNShift).toNat = cmdSync ∧ gerrorn = s.gerrorn ^^^ 1

/-! ### The queue -/

namespace CmdqOk

theorem shift_lt (h : CmdqOk s) : s.q.maxNShift < 32 := Nat.lt_of_le_of_lt h.maxNShift (by decide)

theorem length_le (h : CmdqOk s) : s.executed.length ≤ s.issued.length := by
  obtain ⟨rest, -, hlen⟩ := h.ring
  exact hlen ▸ Nat.le_add_right _ _

theorem counts_prod (h : CmdqOk s) : Counts s.q.maxNShift s.q.prod.toNat s.issued.length := by
  obtain ⟨rest, hring, hlen⟩ := h.ring
  rw [← h.prodReg, hlen]
  exact hring.prod

theorem counts_cons (h : CmdqOk s) : Counts s.q.maxNShift s.consReg.toNat s.executed.length := by
  obtain ⟨rest, hring, -⟩ := h.ring
  exact hring.cons

/-- A stopped SMMU has a command that is not executed. -/
theorem lt_of_stopped (h : CmdqOk s) (hstopped : s.Stopped) : s.executed.length < s.issued.length :=
  h.faulted _ (h.stopped hstopped)

theorem not_stopped (h : CmdqOk s) (hquiet : s.Quiet) : ¬s.Stopped := fun hstopped =>
  Nat.lt_irrefl _ (hquiet.length ▸ h.lt_of_stopped hstopped)

/-- The SMMU goes on exactly where there is a command and no error. -/
theorem ready_iff (h : CmdqOk s) :
    s.Ready ↔ ¬s.Stopped ∧ s.executed.length < s.issued.length := by
  obtain ⟨rest, hring, hlen⟩ := h.ring
  have hempty : qEmpty s.prodReg s.consReg s.q.maxNShift = true ↔ rest = [] :=
    (qEmpty_iff h.shift_lt).trans hring.empty_iff
  have hrest : rest = [] ↔ ¬s.executed.length < s.issued.length := by
    rw [← List.length_eq_zero_iff]
    omega
  rw [SmmuCmdq.Ready, ← Bool.not_eq_true, hempty, hrest, not_not]

/-- The test of `queue_empty`, with the count that the pCPUs know. -/
theorem queueEmpty_iff (h : CmdqOk s) {m : ℕ} (hm : Counts s.q.maxNShift s.q.cons.toNat m)
    (hle : m ≤ s.issued.length) (hlt : s.issued.length ≤ m + 1) :
    s.q.queueEmpty = true ↔ s.issued.length = m := by
  rw [ArmSmmuQueue.queueEmpty, qEmpty_iff h.shift_lt, empty_iff_mod, h.counts_prod, hm]
  constructor
  · intro hmod
    by_contra hne
    obtain hone : s.issued.length = m + 1 := by omega
    rw [hone] at hmod
    have hcongr : 1 ≡ 0 [MOD 2 ^ (s.q.maxNShift + 1)] := Nat.ModEq.add_left_cancel' m hmod
    have hlarge : 1 < 2 ^ (s.q.maxNShift + 1) := Nat.one_lt_two_pow (Nat.succ_ne_zero _)
    exact absurd (hcongr.eq_of_lt_of_lt hlarge (Nat.lt_trans Nat.one_pos hlarge)) one_ne_zero
  · intro heq
    rw [heq]

/-- An empty ring is not taken for a full one. -/
theorem not_queueFull (h : CmdqOk s) (hquiet : s.Quiet) : s.q.queueFull = false := by
  have hempty := (h.queueEmpty_iff hquiet.cons (by rw [hquiet.length]) (by rw [hquiet.length]; omega)).mpr
    hquiet.length
  rw [ArmSmmuQueue.queueEmpty, qEmpty, decide_eq_true_iff] at hempty
  simp [ArmSmmuQueue.queueFull, qFull, hempty]

/-- What the SMMU is to execute next is in the slot at its register, unless it is stopped. -/
theorem waits (h : CmdqOk s) (hready : s.Ready) (hpc : pc.InSection) (hat : CmdqAt s pc) : s.Waits := by
  obtain ⟨hrunning, hlt⟩ := h.ready_iff.mp hready
  have hquiet (hquiet : s.Quiet) : s.Waits := absurd hquiet.length (Nat.ne_of_gt hlt)
  have hstuck (hstuck : s.Stuck) : s.Waits := absurd hstuck.stopped hrunning
  cases pc with
  | outside => exact hpc.elim
  | locking cmd => exact hpc.elim
  | unlocking => exact hpc.elim
  | full cmd => exact hquiet hat
  | write cmd k => exact hquiet hat.1
  | incProd cmd => exact hquiet hat.1
  | empty => exact hat
  | gerror => exact hat
  | gerrorn gerror => exact hat.1
  | skip k => exact hstuck hat.1
  | ackRead => exact hstuck hat.1
  | ackWrite gerrorn => exact hstuck hat.1

end CmdqOk

/-! ### What the SMMU does -/

/-- A fault at the end does not change what was to be executed before. -/
theorem expected_fault (hi : i < s.executed.length) : (s.fault r).expected i = s.expected i := by
  have hne : i ≠ s.executed.length := Nat.ne_of_lt hi
  simp only [SmmuCmdq.expected, SmmuCmdq.fault, List.mem_append, List.mem_singleton, hne, or_false]

/-- The register behind one more command. -/
theorem CmdqOk.counts_succ (h : CmdqOk s) (hr : qEmpty (s.consReg + 1) r s.q.maxNShift = true) :
    Counts s.q.maxNShift r.toNat (s.consReg.toNat + 1) := by
  have hempty := empty_iff_mod.mp ((qEmpty_iff h.shift_lt).mp hr)
  have hdvd : 2 ^ (s.q.maxNShift + 1) ∣ 2 ^ 32 := Nat.pow_dvd_pow 2 h.shift_lt
  rw [BitVec.toNat_add, Nat.mod_mod_of_dvd _ hdvd] at hempty
  exact hempty.symm

theorem CmdqOk.consume (h : CmdqOk s) (hready : s.Ready) (hwaits : s.Waits)
    (hr : qEmpty (s.consReg + 1) r s.q.maxNShift = true) : CmdqOk (s.consume r) := by
  obtain ⟨hrunning, hlt⟩ := h.ready_iff.mp hready
  have hpending := hwaits.pending hrunning hlt
  have hlen : (s.consume r).executed.length = s.executed.length + 1 := List.length_append
  refine ⟨h.entDwords, h.maxNShift, h.gerrMask, h.prodReg, fun i hi => ?_, h.faulted, ?_,
    fun hstopped => absurd hstopped hrunning⟩
  · rw [hlen] at hi
    by_cases hlast : i = s.executed.length
    · rw [hlast]
      exact List.getElem?_concat_length.trans hpending
    · have hbefore : i < s.executed.length := by omega
      exact (List.getElem?_append_left hbefore).trans (h.log i hbefore)
  · obtain ⟨rest, hring, hrest⟩ := h.ring
    match rest with
    | [] => exact absurd hrest (Nat.ne_of_gt hlt)
    | a :: rest =>
      rw [hlen]
      refine ⟨rest, (hring.pop (h.counts_succ hr)).2, ?_⟩
      rw [List.length_cons] at hrest
      show s.issued.length = _
      omega

/-- A fault stops the SMMU at the command. -/
theorem stopped_fault (hrunning : ¬s.Stopped) : (s.fault r).Stopped := by
  rw [SmmuCmdq.Stopped, not_not] at hrunning
  show (s.gerror ^^^ 1).getLsbD 0 ≠ s.gerrorn.getLsbD 0
  rw [BitVec.getLsbD_xor, hrunning]
  simp

theorem CmdqOk.fault (h : CmdqOk s) (hready : s.Ready)
    (hr : qEmpty s.consReg r s.q.maxNShift = true) : CmdqOk (s.fault r) := by
  obtain ⟨hrunning, hlt⟩ := h.ready_iff.mp hready
  refine ⟨h.entDwords, h.maxNShift, h.gerrMask, h.prodReg, fun i hi => ?_, fun i hi => ?_, ?_,
    fun _ => List.mem_append_right _ (List.mem_singleton_self _)⟩
  · exact (h.log i hi).trans (expected_fault (s := s) hi).symm
  · rcases List.mem_append.mp hi with hbefore | hlast
    · exact h.faulted i hbefore
    · rw [List.mem_singleton.mp hlast]
      exact hlt
  · obtain ⟨rest, hring, hrest⟩ := h.ring
    have hempty := empty_iff_mod.mp ((qEmpty_iff h.shift_lt).mp hr)
    exact ⟨rest, ⟨hring.prod, hempty.symm.trans hring.cons, hring.length_le, hring.slot⟩, hrest⟩

/-- The SMMU does not go on while all is executed. -/
theorem CmdqOk.not_ready (h : CmdqOk s) (hquiet : s.Quiet) : ¬s.Ready := fun hready =>
  absurd hquiet.length (Nat.ne_of_gt (h.ready_iff.mp hready).2)

theorem SmmuCmdq.Waits.consume (hwaits : s.Waits) : (s.consume r).Waits := by
  obtain ⟨m, hm, hle, hlen⟩ := hwaits.cons
  have hlength : (s.consume r).executed.length = s.executed.length + 1 := List.length_append
  refine ⟨⟨m, hm, by omega, hlen⟩, fun _ hlt => ?_⟩
  have hissued : s.issued.length ≤ s.executed.length + 1 := by omega
  rw [hlength] at hlt
  exact absurd hissued (Nat.not_le.mpr hlt)

theorem SmmuCmdq.Waits.fault (hwaits : s.Waits) (hrunning : ¬s.Stopped) : (s.fault r).Waits :=
  ⟨hwaits.cons, fun hrunning' => absurd (stopped_fault hrunning) hrunning'⟩

/-- What the pCPU at `pc` knows stays true when the SMMU goes on. -/
theorem CmdqAt.of_ready (h : CmdqOk s) (hready : s.Ready) (hat : CmdqAt s pc)
    (hgerrorn : t.gerrorn = s.gerrorn) (hwaits : s.Waits → t.Waits) : CmdqAt t pc := by
  have hrunning := (h.ready_iff.mp hready).1
  cases pc with
  | outside => trivial
  | locking cmd => trivial
  | unlocking => trivial
  | full cmd => exact absurd hready (h.not_ready hat)
  | write cmd k => exact absurd hready (h.not_ready hat.1)
  | incProd cmd => exact absurd hready (h.not_ready hat.1)
  | empty => exact hwaits hat
  | gerror => exact hwaits hat
  | gerrorn gerror => exact ⟨hwaits hat.1, fun hne => absurd (hat.2 (hgerrorn ▸ hne)) hrunning⟩
  | skip k => exact absurd hat.1.stopped hrunning
  | ackRead => exact absurd hat.1.stopped hrunning
  | ackWrite gerrorn => exact absurd hat.1.stopped hrunning

/-- Another report leaves the queue alone. -/
theorem CmdqOk.report (h : CmdqOk s) (hr : r.getLsbD 0 = s.gerror.getLsbD 0) :
    CmdqOk { s with gerror := r } :=
  ⟨h.entDwords, h.maxNShift, h.gerrMask, h.prodReg, h.log, h.faulted, h.ring,
    fun hstopped => h.stopped (hr.symm.trans_ne hstopped)⟩

theorem CmdqAt.report (hr : r.getLsbD 0 = s.gerror.getLsbD 0) (hat : CmdqAt s pc) :
    CmdqAt { s with gerror := r } pc := by
  have hwaits (hwaits : s.Waits) : SmmuCmdq.Waits { s with gerror := r } :=
    ⟨hwaits.cons, fun hrunning => hwaits.pending fun hstopped => hrunning (hr.trans_ne hstopped)⟩
  have hquiet (hquiet : s.Quiet) : SmmuCmdq.Quiet { s with gerror := r } := ⟨hquiet.length, hquiet.cons⟩
  have hstuck (hstuck : s.Stuck) : SmmuCmdq.Stuck { s with gerror := r } :=
    ⟨hr.trans_ne hstuck.stopped, hstuck.cons, hstuck.length_le⟩
  cases pc with
  | outside => trivial
  | locking cmd => trivial
  | unlocking => trivial
  | full cmd => exact hquiet hat
  | write cmd k => exact ⟨hquiet hat.1, hat.2⟩
  | incProd cmd => exact ⟨hquiet hat.1, hat.2⟩
  | empty => exact hwaits hat
  | gerror => exact hwaits hat
  | gerrorn gerror => exact ⟨hwaits hat.1, fun hne => hr.trans_ne (hat.2 hne)⟩
  | skip k => exact ⟨hstuck hat.1, hat.2⟩
  | ackRead => exact ⟨hstuck hat.1, hat.2⟩
  | ackWrite gerrorn => exact ⟨hstuck hat.1, hat.2⟩

/-! ### What a pCPU does -/

/-- A slot is the two double words at its entry. -/
theorem slot_eq (hword : ∀ j < 2, s.q.base (s.q.queueEntry r + j) = cmd.dword j) :
    s.q.slot (qIdx r s.q.maxNShift).toNat = cmd := by
  have hword0 := hword 0 (by decide)
  have hword1 := hword 1 (by decide)
  rw [ArmSmmuQueue.slot]
  exact congrArg₂ SmmuCmd.mk hword0 hword1

/-- A double word written at an entry is in no other slot. -/
theorem slot_queueWrite (h : s.q.entDwords = 2) (hk : k < 2) {val : BitVec 64}
    (hi : i ≠ (qIdx r s.q.maxNShift).toNat) :
    (s.q.queueWrite (s.q.queueEntry r) k val).slot i = s.q.slot i := by
  have hne0 : i * 2 ≠ (qIdx r s.q.maxNShift).toNat * 2 + k := by omega
  have hne1 : i * 2 + 1 ≠ (qIdx r s.q.maxNShift).toNat * 2 + k := by omega
  simp only [ArmSmmuQueue.slot, ArmSmmuQueue.queueWrite, ArmSmmuQueue.queueEntry, h,
    update_of_ne hne0, update_of_ne hne1]

/-- The words of an entry that are written so far. -/
theorem base_queueWrite (hword : ∀ j < k, s.q.base (i + j) = cmd.dword j) :
    ∀ j < k + 1, (s.q.queueWrite i k (cmd.dword k)).base (i + j) = cmd.dword j := by
  intro j hj
  by_cases hjk : j = k
  · rw [hjk]
    exact update_self ..
  · have hne : i + j ≠ i + k := by omega
    exact (update_of_ne hne ..).trans (hword j (by omega))

/-- The ring is empty while all is executed, whatever is in its slots. -/
theorem CmdqOk.holds_nil (h : CmdqOk s) (hquiet : s.Quiet) (slots : ℕ → SmmuCmd) :
    RingQueue.Holds s.q.maxNShift slots s.prodReg.toNat s.consReg.toNat s.executed.length [] := by
  have hprod := h.counts_prod
  rw [← h.prodReg, hquiet.length] at hprod
  exact ⟨hprod, h.counts_cons, Nat.zero_le _, fun hj => by simp at hj⟩

/-- A pCPU that writes into the ring while all is executed. -/
theorem CmdqOk.write (h : CmdqOk s) (hquiet : s.Quiet) {val : BitVec 64} :
    CmdqOk { s with q := s.q.queueWrite i k val } :=
  ⟨h.entDwords, h.maxNShift, h.gerrMask, h.prodReg, h.log, h.faulted,
    ⟨[], h.holds_nil hquiet _, hquiet.length⟩, h.stopped⟩

/-- The command behind the producer's register becomes one that the SMMU is to execute. -/
theorem CmdqOk.incProd (h : CmdqOk s) (hquiet : s.Quiet)
    (hslot : s.q.slot (qIdx s.q.prod s.q.maxNShift).toNat = cmd) :
    CmdqOk (s.incProd c cmd) ∧ (s.incProd c cmd).Waits := by
  have hlength : (s.incProd c cmd).issued.length = s.issued.length + 1 := List.length_append
  have hnew : s.issued.length ∉ s.faulted := fun hmem => Nat.lt_irrefl _ (h.faulted _ hmem)
  have hring := h.holds_nil hquiet s.q.slot
  have hfull : ¬Full s.q.maxNShift s.prodReg.toNat s.consReg.toNat := fun hfull =>
    (Nat.two_pow_pos s.q.maxNShift).ne (hring.full_iff.mp hfull)
  have hidx : s.q.slot (idx s.q.maxNShift s.prodReg.toNat) = cmd := by
    rw [h.prodReg, ← toNat_qIdx _ h.shift_lt]
    exact hslot
  have hcounts := counts_queueIncProd s.q h.maxNShift
  rw [← h.prodReg] at hcounts
  have hpush := hring.push hfull hidx (fun _ _ => rfl) hcounts
  refine ⟨⟨h.entDwords, h.maxNShift, h.gerrMask, rfl, fun i hi => ?_, fun i hi => ?_, ⟨[cmd], hpush, ?_⟩,
    h.stopped⟩, ⟨⟨s.executed.length, hquiet.cons, Nat.le_refl _, ?_⟩, fun _ _ => ?_⟩⟩
  · have hlt : i < s.issued.length := Nat.lt_of_lt_of_le hi h.length_le
    refine (h.log i hi).trans ?_
    exact congrArg _ (List.getElem?_append_left hlt).symm
  · rw [hlength]
    exact Nat.lt_succ_of_lt (h.faulted i hi)
  · rw [hlength, hquiet.length]
    rfl
  · rw [hlength, hquiet.length]
  · show some (s.q.slot (qIdx s.consReg s.q.maxNShift).toNat) = _
    rw [toNat_qIdx _ h.shift_lt, h.counts_cons.idx_eq, ← hquiet.length, ← h.counts_prod.idx_eq,
      ← h.prodReg, hidx]
    show _ = ((s.issued ++ [(c, cmd)])[s.executed.length]?).map _
    rw [← hquiet.length, List.getElem?_concat_length]
    rw [hquiet.length] at hnew
    show some cmd = some (if s.executed.length ∈ s.faulted then cmdSync else cmd)
    rw [if_neg hnew]

/-- While the SMMU is stopped, a pCPU may write into the slot of the command. -/
theorem CmdqOk.skip (h : CmdqOk s) (hstuck : s.Stuck) (hk : k < 2) {val : BitVec 64} :
    CmdqOk { s with q := s.q.queueWrite (s.q.queueEntry s.q.cons) k val } := by
  refine ⟨h.entDwords, h.maxNShift, h.gerrMask, h.prodReg, h.log, h.faulted, ?_, h.stopped⟩
  obtain ⟨rest, hring, hrest⟩ := h.ring
  have hlt := h.lt_of_stopped hstuck.stopped
  match rest with
  | [] => exact absurd hrest (Nat.ne_of_gt hlt)
  | a :: rest =>
    refine ⟨_ :: rest, hring.replace rfl fun i hi => ?_, hrest⟩
    apply slot_queueWrite h.entDwords hk
    rwa [toNat_qIdx _ h.shift_lt, hstuck.cons.idx_eq, ← h.counts_cons.idx_eq]

theorem not_stopped_ack (hstopped : s.Stopped) :
    ¬SmmuCmdq.Stopped { s with gerrorn := s.gerrorn ^^^ 1 } := by
  unfold SmmuCmdq.Stopped at hstopped ⊢
  rw [BitVec.getLsbD_xor]
  revert hstopped
  cases s.gerror.getLsbD 0 <;> cases s.gerrorn.getLsbD 0 <;> simp

/-- The acknowledgement lets the SMMU go on with the `CMD_SYNC` in the slot. -/
theorem CmdqOk.ack (h : CmdqOk s) (hstuck : s.Stuck)
    (hslot : s.q.slot (qIdx s.q.cons s.q.maxNShift).toNat = cmdSync) :
    CmdqOk { s with gerrorn := s.gerrorn ^^^ 1 } ∧
      SmmuCmdq.Waits { s with gerrorn := s.gerrorn ^^^ 1 } := by
  have hlt := h.lt_of_stopped hstuck.stopped
  have hmem := h.stopped hstuck.stopped
  have hrunning := not_stopped_ack hstuck.stopped
  refine ⟨⟨h.entDwords, h.maxNShift, h.gerrMask, h.prodReg, h.log, h.faulted, h.ring,
    fun hstopped => absurd hstopped hrunning⟩,
    ⟨s.executed.length, hstuck.cons, Nat.le_refl _, hstuck.length_le⟩, fun _ _ => ?_⟩
  have hidx : (qIdx s.consReg s.q.maxNShift).toNat = (qIdx s.q.cons s.q.maxNShift).toNat := by
    rw [toNat_qIdx _ h.shift_lt, toNat_qIdx _ h.shift_lt, hstuck.cons.idx_eq, h.counts_cons.idx_eq]
  show some (s.q.slot (qIdx s.consReg s.q.maxNShift).toNat) = _
  rw [hidx, hslot]
  obtain ⟨p, hp⟩ : ∃ p, s.issued[s.executed.length]? = some p :=
    ⟨_, List.getElem?_eq_getElem hlt⟩
  show _ = (s.issued[s.executed.length]?).map _
  rw [hp]
  show some cmdSync = some (if s.executed.length ∈ s.faulted then cmdSync else p.2)
  rw [if_pos hmem]

/-- `queue_sync_cons` tells how far the SMMU is. -/
theorem CmdqOk.syncCons (h : CmdqOk s) : CmdqOk { s with q := s.q.queueSyncCons s.consReg } :=
  ⟨h.entDwords, h.maxNShift, h.gerrMask, h.prodReg, h.log, h.faulted, h.ring, h.stopped⟩

/-- The test of `queue_error`. -/
theorem queueError_iff {q : ArmSmmuQueue} (hmask : q.gerrMask = 1) {gerror gerrorn : BitVec 32} :
    q.queueError gerror gerrorn = true ↔ gerror.getLsbD 0 ≠ gerrorn.getLsbD 0 := by
  have hone (x : BitVec 32) : x &&& 1 ≠ 0 ↔ x.getLsbD 0 = true := by
    have hmod : (x &&& 1).toNat = x.toNat % 2 := by
      rw [BitVec.toNat_and]
      exact Nat.and_one_is_mod x.toNat
    rw [Ne, ← BitVec.toNat_inj, hmod, ← BitVec.testBit_toNat, Nat.testBit_zero, decide_eq_true_iff]
    exact Nat.mod_two_ne_zero
  rw [ArmSmmuQueue.queueError, hmask, decide_eq_true_iff, hone, BitVec.getLsbD_xor, bne_iff_ne]

/-- A pCPU that has seen the SMMU stop knows how far it is. -/
theorem CmdqOk.stuck (h : CmdqOk s) (hwaits : s.Waits) (hstopped : s.Stopped) : s.Stuck := by
  obtain ⟨m, hm, hle, hlen⟩ := hwaits.cons
  have hlt := h.lt_of_stopped hstopped
  obtain rfl : m = s.executed.length := by omega
  exact ⟨hstopped, hm, hlen⟩

/-- An access of the pCPU that holds the lock: it knows behind it what its next place says, and leaves
with all executed. -/
theorem CmdqOk.insert (h : CmdqOk s) (hat : CmdqAt s pc) (hstep : cmdqInsert s c pc = some (pc', t)) :
    CmdqOk t ∧ CmdqAt t pc' ∧ (¬pc'.InSection → t.Quiet) := by
  cases pc with
  | outside => cases hstep
  | locking cmd => cases hstep
  | unlocking => cases hstep
  | full cmd =>
    rw [cmdqInsert, h.not_queueFull hat] at hstep
    cases hstep
    exact ⟨h, ⟨hat, fun j hj => absurd hj (Nat.not_lt_zero j)⟩, fun hout => (hout trivial).elim⟩
  | write cmd k =>
    obtain ⟨hquiet, hword⟩ := hat
    rw [cmdqInsert, h.entDwords] at hstep
    by_cases hk : k < 2
    · rw [if_pos hk] at hstep
      cases hstep
      exact ⟨h.write hquiet, ⟨⟨hquiet.length, hquiet.cons⟩, base_queueWrite hword⟩,
        fun hout => (hout trivial).elim⟩
    · rw [if_neg hk] at hstep
      cases hstep
      exact ⟨h, ⟨hquiet, slot_eq fun j hj => hword j (by omega)⟩, fun hout => (hout trivial).elim⟩
  | incProd cmd =>
    cases hstep
    obtain ⟨hok, hwaits⟩ := h.incProd (c := c) hat.1 hat.2
    exact ⟨hok, hwaits, fun hout => (hout trivial).elim⟩
  | empty =>
    obtain ⟨m, hm, hle, hlen⟩ := hat.cons
    have hempty := h.queueEmpty_iff hm (Nat.le_trans hle h.length_le) hlen
    rw [cmdqInsert] at hstep
    by_cases hq : s.q.queueEmpty = true
    · rw [if_pos hq] at hstep
      cases hstep
      have hsame : s.issued.length = m := hempty.mp hq
      have hexecuted : s.executed.length = m := by
        have hle' := h.length_le
        omega
      refine ⟨h, trivial, fun _ => ⟨hsame.trans hexecuted.symm, ?_⟩⟩
      rw [hexecuted]
      exact hm
    · rw [if_neg hq] at hstep
      cases hstep
      refine ⟨h.syncCons, ⟨⟨s.executed.length, h.counts_cons, Nat.le_refl _, ?_⟩, hat.pending⟩,
        fun hout => (hout trivial).elim⟩
      show s.issued.length ≤ s.executed.length + 1
      omega
  | gerror =>
    cases hstep
    exact ⟨h, ⟨hat, id⟩, fun hout => (hout trivial).elim⟩
  | gerrorn gerror =>
    obtain ⟨hwaits, hbit⟩ := hat
    cases hstep
    split
    · rename_i herror
      have hstopped := hbit ((queueError_iff h.gerrMask).mp herror)
      exact ⟨h, ⟨h.stuck hwaits hstopped, fun j hj => absurd hj (Nat.not_lt_zero j)⟩,
        fun hout => (hout trivial).elim⟩
    · exact ⟨h, hwaits, fun hout => (hout trivial).elim⟩
  | skip k =>
    obtain ⟨hstuck, hword⟩ := hat
    rw [cmdqInsert, h.entDwords] at hstep
    by_cases hk : k < 2
    · rw [if_pos hk] at hstep
      cases hstep
      exact ⟨h.skip hstuck hk, ⟨⟨hstuck.stopped, hstuck.cons, hstuck.length_le⟩, base_queueWrite hword⟩,
        fun hout => (hout trivial).elim⟩
    · rw [if_neg hk] at hstep
      cases hstep
      exact ⟨h, ⟨hstuck, slot_eq fun j hj => hword j (by omega)⟩, fun hout => (hout trivial).elim⟩
  | ackRead =>
    cases hstep
    exact ⟨h, ⟨hat.1, hat.2, rfl⟩, fun hout => (hout trivial).elim⟩
  | ackWrite gerrorn =>
    obtain ⟨hstuck, hslot, rfl⟩ := hat
    cases hstep
    obtain ⟨hok, hwaits⟩ := h.ack hstuck hslot
    exact ⟨hok, hwaits, fun hout => (hout trivial).elim⟩

end Avisor
