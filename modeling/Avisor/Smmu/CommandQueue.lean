import Avisor.Cpu.Spinlock
import Avisor.Lib.RingQueue
import Avisor.Smmu.Commands
import Mathlib.Data.Nat.Bitwise

/-!
# The command queue of an SMMUv3

The pCPUs give their commands to the SMMU one after another, under the lock of the queue: a pCPU puts its
command into the ring, moves the producer's register on and waits until the SMMU has consumed the command.
A command that the SMMU cannot execute stops it; the pCPU then puts a `CMD_SYNC` in its place and
acknowledges the error. Every access to the ring, to a register and to the lock is a step of its own here,
and the SMMU works at any time in between.
-/

namespace Avisor

open Function RingQueue

/-! ### Queues -/

/-- `Q_IDX`. -/
def qIdx (reg : BitVec 32) (shift : ℕ) : BitVec 32 := reg &&& ((1#32 <<< shift) - 1)

/-- `Q_WRP`. -/
def qWrp (reg : BitVec 32) (shift : ℕ) : BitVec 32 := reg &&& (1#32 <<< shift)

/-- `Q_OVF`. -/
def qOvf (reg : BitVec 32) : BitVec 32 := reg &&& (1#32 <<< 31)

/-- `Q_EMPTY`. -/
def qEmpty (prod cons : BitVec 32) (shift : ℕ) : Bool :=
  qIdx prod shift = qIdx cons shift ∧ qWrp prod shift = qWrp cons shift

/-- `Q_FULL`. -/
def qFull (prod cons : BitVec 32) (shift : ℕ) : Bool :=
  qIdx prod shift = qIdx cons shift ∧ qWrp prod shift ≠ qWrp cons shift

/-- `struct arm_smmu_queue`, with the double words at `base`. -/
structure ArmSmmuQueue where
  base : ℕ → BitVec 64
  entDwords : ℕ
  maxNShift : ℕ
  prod : BitVec 32
  cons : BitVec 32
  gerrMask : BitVec 32

namespace ArmSmmuQueue

/-- `queue_full`. -/
def queueFull (q : ArmSmmuQueue) : Bool := qFull q.prod q.cons q.maxNShift

/-- `queue_empty`. -/
def queueEmpty (q : ArmSmmuQueue) : Bool := qEmpty q.prod q.cons q.maxNShift

/-- `queue_sync_cons`, with what the register reads. -/
def queueSyncCons (q : ArmSmmuQueue) (consReg : BitVec 32) : ArmSmmuQueue := { q with cons := consReg }

/-- `queue_error`, with what the registers read. -/
def queueError (q : ArmSmmuQueue) (gerror gerrorn : BitVec 32) : Bool :=
  (gerror ^^^ gerrorn) &&& q.gerrMask ≠ 0

/-- `queue_inc_prod` up to its write of the register. -/
def queueIncProd (q : ArmSmmuQueue) : ArmSmmuQueue :=
  let prod := (qWrp q.prod q.maxNShift ||| qIdx q.prod q.maxNShift) + 1
  { q with prod := qOvf q.prod ||| qWrp prod q.maxNShift ||| qIdx prod q.maxNShift }

/-- `queue_entry`, as an index of `base`. -/
def queueEntry (q : ArmSmmuQueue) (reg : BitVec 32) : ℕ := (qIdx reg q.maxNShift).toNat * q.entDwords

/-- One round of the loop of `queue_write`. -/
def queueWrite (q : ArmSmmuQueue) (dst n : ℕ) (val : BitVec 64) : ArmSmmuQueue :=
  { q with base := update q.base (dst + n) val }

/-- The command in a slot. -/
def slot (q : ArmSmmuQueue) (i : ℕ) : SmmuCmd :=
  ⟨q.base (i * q.entDwords), q.base (i * q.entDwords + 1)⟩

end ArmSmmuQueue

/-- A double word of a command. -/
def SmmuCmd.dword (cmd : SmmuCmd) (n : ℕ) : BitVec 64 := if n = 0 then cmd.dword0 else cmd.dword1

/-- The command that `arm_smmu_cmdq_skip_err` and `arm_smmu_cmdq_issue_sync` build. -/
def cmdSync : SmmuCmd := (armSmmuCmdqBuildCmd ⟨cmdqOpCmdSync, 0, 0, 0⟩).getD ⟨0, 0⟩

/-! ### The machine -/

/-- Where a pCPU is: in no call, in `spin_lock`, before an access of `arm_smmu_cmdq_insert_cmd` or of
`arm_smmu_cmdq_skip_err`, or in `spin_unlock`. -/
inductive CmdqPc
  | outside
  | locking (cmd : SmmuCmd)
  | full (cmd : SmmuCmd)
  | write (cmd : SmmuCmd) (n : ℕ)
  | incProd (cmd : SmmuCmd)
  | empty
  | gerror
  | gerrorn (gerror : BitVec 32)
  | skip (n : ℕ)
  | ackRead
  | ackWrite (gerrorn : BitVec 32)
  | unlocking
  deriving DecidableEq

/-- The queue with the registers. Nothing keeps `issued`, the commands behind a write of the producer's
register with the pCPUs they come from, `executed`, what the SMMU has consumed, and `faulted`, the
positions of the commands that it could not execute. -/
structure SmmuCmdq where
  q : ArmSmmuQueue
  prodReg : BitVec 32
  consReg : BitVec 32
  gerror : BitVec 32
  gerrorn : BitVec 32
  issued : List (PCpuId × SmmuCmd)
  executed : List SmmuCmd
  faulted : List ℕ

/-- The lock, the queue and the pCPUs. -/
structure CmdqState where
  spin : SpinState
  cmdq : SmmuCmdq
  pc : PCpuId → CmdqPc

/-- A call, a step of the lock, the next access of a pCPU, or what the SMMU does: it consumes a command,
it cannot execute one, or it reports something else. -/
inductive CmdqAction
  | issue (c : PCpuId) (ent : ArmSmmuCmdqEnt)
  | spin (c : PCpuId) (fails : Bool)
  | monitor (c : PCpuId)
  | event (c : PCpuId)
  | exec (c : PCpuId)
  | consume (consReg : BitVec 32)
  | fault (consReg : BitVec 32)
  | report (gerror : BitVec 32)

namespace SmmuCmdq

/-- There is an error of the command queue that is not acknowledged. -/
def Stopped (s : SmmuCmdq) : Prop := s.gerror.getLsbD 0 ≠ s.gerrorn.getLsbD 0

instance (s : SmmuCmdq) : Decidable s.Stopped := inferInstanceAs (Decidable (_ ≠ _))

/-- The SMMU goes on with the command at the consumer's register. -/
def Ready (s : SmmuCmdq) : Prop := ¬s.Stopped ∧ qEmpty s.prodReg s.consReg s.q.maxNShift = false

instance (s : SmmuCmdq) : Decidable s.Ready := inferInstanceAs (Decidable (_ ∧ _))

/-- What the SMMU is to execute for the command at position `i`. -/
def expected (s : SmmuCmdq) (i : ℕ) : Option SmmuCmd :=
  s.issued[i]?.map fun p => if i ∈ s.faulted then cmdSync else p.2

/-- The command at the consumer's register is consumed. What the SMMU leaves above the wrap bit of the
register is its own affair. -/
def consume (s : SmmuCmdq) (consReg : BitVec 32) : SmmuCmdq :=
  { s with
    consReg := consReg
    executed := s.executed ++ [s.q.slot (qIdx s.consReg s.q.maxNShift).toNat] }

/-- The command at the consumer's register cannot be executed. -/
def fault (s : SmmuCmdq) (consReg : BitVec 32) : SmmuCmdq :=
  { s with
    consReg := consReg
    gerror := s.gerror ^^^ 1
    faulted := s.faulted ++ [s.executed.length] }

/-- `queue_inc_prod`. -/
def incProd (s : SmmuCmdq) (c : PCpuId) (cmd : SmmuCmd) : SmmuCmdq :=
  { s with
    q := s.q.queueIncProd
    prodReg := s.q.queueIncProd.prod
    issued := s.issued ++ [(c, cmd)] }

end SmmuCmdq

/-- The pCPU `c` goes on at `pc`, with the queue as it is then. -/
def CmdqState.goto (s : CmdqState) (c : PCpuId) (pc : CmdqPc) (cmdq : SmmuCmdq) : CmdqState :=
  { s with pc := update s.pc c pc, cmdq := cmdq }

/-- Where a pCPU in `arm_smmu_cmdq_insert_cmd` goes on behind its next access, and the queue then. -/
def cmdqInsert (s : SmmuCmdq) (c : PCpuId) : CmdqPc → Option (CmdqPc × SmmuCmdq)
  -- `while (queue_full(q)) queue_sync_cons(q);`
  | .full cmd =>
    if s.q.queueFull then some (.full cmd, { s with q := s.q.queueSyncCons s.consReg })
    else some (.write cmd 0, s)
  | .write cmd k =>
    if k < s.q.entDwords then
      some (.write cmd (k + 1), { s with
        q := s.q.queueWrite (s.q.queueEntry s.q.prod) k (cmd.dword k) })
    else some (.incProd cmd, s)
  | .incProd cmd => some (.empty, s.incProd c cmd)
  -- `while (!queue_empty(q))`, with the `queue_sync_cons(q)` behind it
  | .empty =>
    if s.q.queueEmpty then some (.unlocking, s)
    else some (.gerror, { s with q := s.q.queueSyncCons s.consReg })
  | .gerror => some (.gerrorn s.gerror, s)
  | .gerrorn gerror => some (if s.q.queueError gerror s.gerrorn then .skip 0 else .empty, s)
  | .skip k =>
    if k < s.q.entDwords then
      some (.skip (k + 1), { s with
        q := s.q.queueWrite (s.q.queueEntry s.q.cons) k (cmdSync.dword k) })
    else some (.ackRead, s)
  | .ackRead => some (.ackWrite (s.gerrorn ^^^ 1), s)
  | .ackWrite gerrorn => some (.empty, { s with gerrorn := gerrorn })
  | .outside | .locking _ | .unlocking => none

/-- The next access of a pCPU. -/
def cmdqExec (n : ℕ) (s : CmdqState) (c : PCpuId) : Option CmdqState :=
  match s.pc c with
  | .outside => none
  | .locking cmd => if s.spin.pc c = .inside then some (s.goto c (.full cmd) s.cmdq) else none
  | .unlocking =>
    if s.spin.pc c = .inside then
      (spinStep n s.spin (.unlock c)).map fun spin => { s with spin := spin }
    else if s.spin.pc c = .outside then some (s.goto c .outside s.cmdq)
    else none
  | pc => (cmdqInsert s.cmdq c pc).map fun next => s.goto c next.1 next.2

/-- A step of one of the `n` pCPUs or of the SMMU. -/
def cmdqStep (n : ℕ) (s : CmdqState) : CmdqAction → Option CmdqState
  | .issue c ent =>
    if s.pc c = .outside then
      match armSmmuCmdqBuildCmd ent with
      | none => some s
      | some cmd =>
        (spinStep n s.spin (.lock c)).map fun spin =>
          { s.goto c (.locking cmd) s.cmdq with spin := spin }
    else none
  | .spin c fails => (spinStep n s.spin (.exec c fails)).map fun spin => { s with spin := spin }
  | .monitor c => (spinStep n s.spin (.clear c)).map fun spin => { s with spin := spin }
  | .event c => (spinStep n s.spin (.event c)).map fun spin => { s with spin := spin }
  | .exec c => if c < n then cmdqExec n s c else none
  | .consume consReg =>
    if s.cmdq.Ready ∧ qEmpty (s.cmdq.consReg + 1) consReg s.cmdq.q.maxNShift then
      some { s with cmdq := s.cmdq.consume consReg }
    else none
  | .fault consReg =>
    if s.cmdq.Ready ∧ qEmpty s.cmdq.consReg consReg s.cmdq.q.maxNShift then
      some { s with cmdq := s.cmdq.fault consReg }
    else none
  | .report gerror =>
    if gerror.getLsbD 0 = s.cmdq.gerror.getLsbD 0 then
      some { s with cmdq := { s.cmdq with gerror := gerror } }
    else none

/-- Behind `arm_smmu_init_one_queue` and the writes of `arm_smmu_device_reset`, with no error left. -/
structure CmdqStart (s : CmdqState) : Prop where
  spin : SpinStart s.spin
  pc : ∀ c, s.pc c = .outside
  entDwords : s.cmdq.q.entDwords = 2
  maxNShift : s.cmdq.q.maxNShift ≤ 8
  gerrMask : s.cmdq.q.gerrMask = 1
  prod : s.cmdq.q.prod = 0
  cons : s.cmdq.q.cons = 0
  prodReg : s.cmdq.prodReg = 0
  consReg : s.cmdq.consReg = 0
  running : ¬s.cmdq.Stopped
  issued : s.cmdq.issued = []
  executed : s.cmdq.executed = []
  faulted : s.cmdq.faulted = []

/-- The machine of `n` pCPUs and an SMMU. -/
def cmdqMachine (n : ℕ) : Machine CmdqState CmdqAction where
  Init := CmdqStart
  step := cmdqStep n

/-- Between the entry to the code that the lock protects and the last test of the queue. -/
def CmdqPc.InSection : CmdqPc → Prop
  | .outside | .locking _ | .unlocking => False
  | _ => True

variable {n shift k i : ℕ} {reg prod cons r : BitVec 32}

/-! ### Registers -/

theorem toNat_one_shiftLeft (hshift : shift < 32) : (1#32 <<< shift).toNat = 2 ^ shift := by
  have hlt : 2 ^ shift < 2 ^ 32 := Nat.pow_lt_pow_right (by decide) hshift
  rw [BitVec.toNat_shiftLeft, BitVec.toNat_ofNat, Nat.shiftLeft_eq, Nat.one_mod_two_pow, Nat.one_mul]
  · exact Nat.mod_eq_of_lt hlt
  · decide

theorem toNat_qIdx (reg : BitVec 32) (hshift : shift < 32) :
    (qIdx reg shift).toNat = idx shift reg.toNat := by
  have hone : ((1#32 <<< shift) - 1).toNat = 2 ^ shift - 1 := by
    have hlt : 2 ^ shift < 2 ^ 32 := Nat.pow_lt_pow_right (by decide) hshift
    have hpos := Nat.two_pow_pos shift
    rw [BitVec.toNat_sub_of_le, toNat_one_shiftLeft hshift]
    · rfl
    · rw [BitVec.le_def, toNat_one_shiftLeft hshift]
      exact hpos
  rw [qIdx, BitVec.toNat_and, hone, Nat.and_two_pow_sub_one_eq_mod]
  rfl

theorem toNat_qWrp (reg : BitVec 32) (hshift : shift < 32) :
    (qWrp reg shift).toNat = wrp shift reg.toNat * 2 ^ shift := by
  rw [qWrp, BitVec.toNat_and, toNat_one_shiftLeft hshift, Nat.and_two_pow, wrp,
    Nat.testBit_eq_decide_div_mod_eq]
  rcases Nat.mod_two_eq_zero_or_one (reg.toNat / 2 ^ shift) with hbit | hbit
  · rw [hbit]
    rfl
  · rw [hbit]
    rfl

theorem qWrp_eq_iff (hshift : shift < 32) :
    qWrp prod shift = qWrp cons shift ↔ wrp shift prod.toNat = wrp shift cons.toNat := by
  rw [← BitVec.toNat_inj, toNat_qWrp _ hshift, toNat_qWrp _ hshift]
  exact Nat.mul_right_cancel_iff (Nat.two_pow_pos shift)

theorem qIdx_eq_iff (hshift : shift < 32) :
    qIdx prod shift = qIdx cons shift ↔ idx shift prod.toNat = idx shift cons.toNat := by
  rw [← BitVec.toNat_inj, toNat_qIdx _ hshift, toNat_qIdx _ hshift]

theorem qEmpty_iff (hshift : shift < 32) :
    qEmpty prod cons shift = true ↔ Empty shift prod.toNat cons.toNat := by
  rw [qEmpty, decide_eq_true_iff, qIdx_eq_iff hshift, qWrp_eq_iff hshift]
  rfl

theorem qFull_iff (hshift : shift < 32) :
    qFull prod cons shift = true ↔ Full shift prod.toNat cons.toNat := by
  rw [qFull, decide_eq_true_iff, qIdx_eq_iff hshift, Ne, qWrp_eq_iff hshift]
  rfl

theorem getLsbD_qIdx (hshift : shift < 32) (i : ℕ) :
    (qIdx reg shift).getLsbD i = (decide (i < shift) && reg.getLsbD i) := by
  rw [← BitVec.testBit_toNat, toNat_qIdx _ hshift, idx, Nat.testBit_mod_two_pow, BitVec.testBit_toNat]

theorem getLsbD_one_shiftLeft (hshift : shift < 32) (i : ℕ) :
    (1#32 <<< shift).getLsbD i = decide (i = shift) := by
  rw [← BitVec.testBit_toNat, toNat_one_shiftLeft hshift, Nat.testBit_two_pow]
  simp only [eq_comm]

theorem getLsbD_qWrp (hshift : shift < 32) (i : ℕ) :
    (qWrp reg shift).getLsbD i = (decide (i = shift) && reg.getLsbD i) := by
  rw [qWrp, BitVec.getLsbD_and, getLsbD_one_shiftLeft hshift, Bool.and_comm]

/-- Wrap bit and index together are the low bits of a register. -/
theorem toNat_qWrp_or_qIdx (reg : BitVec 32) (hshift : shift < 32) :
    (qWrp reg shift ||| qIdx reg shift).toNat = reg.toNat % 2 ^ (shift + 1) := by
  apply Nat.eq_of_testBit_eq
  intro i
  rw [BitVec.testBit_toNat, Nat.testBit_mod_two_pow, BitVec.testBit_toNat, BitVec.getLsbD_or,
    getLsbD_qWrp hshift, getLsbD_qIdx hshift, ← Bool.and_or_distrib_right, ← Bool.decide_or]
  congr 2
  simp only [eq_iff_iff]
  omega

/-- The producer's register moves on by one slot. -/
theorem counts_queueIncProd (q : ArmSmmuQueue) (hshift : q.maxNShift ≤ 8) :
    Counts q.maxNShift q.queueIncProd.prod.toNat (q.prod.toNat + 1) := by
  have hlt : q.maxNShift < 32 := by omega
  have hlow : 2 ^ (q.maxNShift + 1) ≤ 2 ^ 9 := Nat.pow_le_pow_right (by decide) (by omega)
  have hsum : ((qWrp q.prod q.maxNShift ||| qIdx q.prod q.maxNShift) + 1).toNat =
      q.prod.toNat % 2 ^ (q.maxNShift + 1) + 1 := by
    have hmod := Nat.mod_lt q.prod.toNat (Nat.two_pow_pos (q.maxNShift + 1))
    rw [BitVec.toNat_add, toNat_qWrp_or_qIdx _ hlt]
    apply Nat.mod_eq_of_lt
    show _ + 1 < 2 ^ 32
    omega
  unfold Counts
  calc q.queueIncProd.prod.toNat % 2 ^ (q.maxNShift + 1)
      = (qWrp ((qWrp q.prod q.maxNShift ||| qIdx q.prod q.maxNShift) + 1) q.maxNShift |||
          qIdx ((qWrp q.prod q.maxNShift ||| qIdx q.prod q.maxNShift) + 1) q.maxNShift).toNat := by
        rw [ArmSmmuQueue.queueIncProd, toNat_qWrp_or_qIdx _ hlt]
        apply Nat.eq_of_testBit_eq
        intro i
        simp only [Nat.testBit_mod_two_pow, BitVec.testBit_toNat, BitVec.getLsbD_or, getLsbD_qWrp hlt,
          getLsbD_qIdx hlt, qOvf, BitVec.getLsbD_and, getLsbD_one_shiftLeft (show 31 < 32 by decide)]
        by_cases hi : i < q.maxNShift + 1
        · rcases Nat.lt_succ_iff_lt_or_eq.mp hi with hidx | hwrp
          · simp [hi, hidx, show i ≠ 31 by omega, Nat.ne_of_lt hidx]
          · simp [hwrp, show q.maxNShift ≠ 31 by omega]
        · simp [hi, show i ≠ q.maxNShift by omega, show ¬i < q.maxNShift by omega]
    _ = (q.prod.toNat % 2 ^ (q.maxNShift + 1) + 1) % 2 ^ (q.maxNShift + 1) := by
        rw [toNat_qWrp_or_qIdx _ hlt, hsum]
    _ = (q.prod.toNat + 1) % 2 ^ (q.maxNShift + 1) := Nat.mod_add_mod _ _ _

end Avisor
