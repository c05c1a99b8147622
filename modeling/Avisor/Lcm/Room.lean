import Avisor.Lcm.Invariant

/-!
# Room in the snapshot pool

A checkpoint does not ask whether its snapshot has room in the pool, and it copies another number of bytes
than it records. The machine of this file makes checkpoints only, with the guests at work in between.
-/

namespace Avisor

open Function Memory

/-- A step of the machine of `lcm.c` that is no restore. -/
def checkpointStep (cfg : LcmConfig) (x : LcmRun) : LcmAction → Option LcmRun
  | .restore .. => none
  | a => lcmStep cfg x a

/-- The checkpoints of the machine of `lcm.c`. -/
def checkpointMachine (cfg : LcmConfig) : Machine LcmRun LcmAction where
  Init := LcmBoot cfg
  step := checkpointStep cfg

/-- The bytes of a snapshot of VM `v`: its header and all that is copied into `mem`. -/
def LcmConfig.ssWritten (cfg : LcmConfig) (v : VmId) : Nat :=
  sizeofSnapshot cfg.sizeofVcpu + (cfg.vm v).memSize

/-- The end of the pages of the pool. -/
def LcmConfig.ssPagesEnd (cfg : LcmConfig) : Nat :=
  cfg.ssPoolPage + cfg.ssPoolBytes

/-- The snapshots lie in the pages of the pool, and no two of them share a byte. -/
structure SnapshotsApart (cfg : LcmConfig) (x : LcmRun) : Prop where
  inside : ∀ e ∈ x.taken, cfg.ssPoolPage ≤ e.ss ∧ e.ss + cfg.ssWritten e.vm ≤ cfg.ssPagesEnd
  disjoint : x.taken.Pairwise fun e d => Apart e.ss (cfg.ssWritten e.vm) d.ss (cfg.ssWritten d.vm)

/-- From `last` of the pool to the end of its pages there is room for a snapshot of VM `v`. -/
def HasRoom (cfg : LcmConfig) (x : LcmRun) (v : VmId) : Prop :=
  x.state.nextSs cfg + cfg.ssWritten v ≤ cfg.ssPagesEnd

/-- A checkpoint without room takes an error path: it ends there, or leaves the pool and the latest
snapshot. -/
def RefusesWithoutRoom (cfg : LcmConfig) (x : LcmRun) (a : LcmAction) : Prop :=
  ∀ v i par, a = .checkpoint v i par → ¬ HasRoom cfg x v →
    ∀ y, (checkpointMachine cfg).step x a = some y → y.state.ssPool = x.state.ssPool ∧
      y.state.latestSs = x.state.latestSs ∧ y.state.latestSsId = x.state.latestSsId

/-- What the snapshot store promises for a run. -/
structure SnapshotStoreSafe (cfg : LcmConfig) (x : LcmRun) (as : List LcmAction) : Prop where
  apart : (checkpointMachine cfg).Always (SnapshotsApart cfg) x as
  refuses : (checkpointMachine cfg).EachStep (RefusesWithoutRoom cfg) x as

/-- The checkpoint has room, and the snapshot in front of it is of a VM whose image is not larger than
its `dmem_size`. -/
def RoomForStep (cfg : LcmConfig) (x : LcmRun) : LcmAction → Prop
  | .checkpoint v _ _ => HasRoom cfg x v ∧
      ∀ e, x.taken.head? = some e → (cfg.vm e.vm).size ≤ (cfg.vm e.vm).dmemSize
  | _ => True

/-- What the checkpoints keep as long as the snapshots are in their pages. -/
structure StoreWf (cfg : LcmConfig) (x : LcmRun) : Prop where
  vcpu_vm : ∀ v < cfg.nrVms, ∀ i < cfg.nrCpus v,
    readLe x.state.mem (cfg.vcpuAddr v i + cfg.vcpuVmOff) 8 = cfg.vmAddr v
  pool : ∀ pool, x.state.ssPool = some pool →
    pool.base = cfg.ssPoolBase ∧ pool.size = cfg.ssPoolSize
  laid : Laid cfg x.taken (x.state.nextSs cfg)
  known : ∀ e ∈ x.taken, e.vm < cfg.nrVms

variable {cfg : LcmConfig} {s t : LcmState} {x y : LcmRun} {v : VmId} {i p ss : Nat} {par : Option Nat}

theorem ssLen_lt (hv : v < cfg.nrVms) : cfg.ssLen v < 4 * physMax := by
  have hvcpu := cfg.sizeofVcpu_lt
  have hmemory := cfg.memory_le v hv
  have hmemSize : (cfg.vm v).memSize = (cfg.vm v).size + (cfg.vm v).dmemSize := rfl
  have hlen : cfg.ssLen v = (cfg.vm v).dmemSize + (cfg.vm v).dmemSize + (24 + cfg.sizeofVcpu) := rfl
  simp only [physMax] at *
  omega

/-- Where a checkpoint puts its snapshot, what it records, and which bytes it writes. -/
structure CheckpointWrites (cfg : LcmConfig) (s t : LcmState) (v : VmId) (i ss : Nat) : Prop where
  ssPool : t.ssPool = some ⟨cfg.ssPoolBase, cfg.ssPoolSize, ss + cfg.ssLen v⟩
  latestSs : t.latestSs = ss
  latestSsId : t.latestSsId = (s.latestSsId + 1) % sizeT
  frame : ∀ a n, Apart ss (cfg.ssWritten v) a n →
    Apart (cfg.vcpuAddr v i + vcpuRegsOff) sizeofVcpuRegs a n → Agree t.mem s.mem a n
  header : Apart (cfg.vcpuAddr v i + vcpuRegsOff) sizeofVcpuRegs ss 16 →
    readLe t.mem ss 8 = s.latestSsId % sizeT ∧ readLe t.mem (ss + 8) 8 = cfg.ssLen v

/-- A checkpoint is made wherever it has room or not. -/
theorem checkpoint_writes (hv : v < cfg.nrVms)
    (hvm : readLe s.mem (cfg.vcpuAddr v i + cfg.vcpuVmOff) 8 = cfg.vmAddr v)
    (hpool : ∀ pool, s.ssPool = some pool →
      pool.base = cfg.ssPoolBase ∧ pool.size = cfg.ssPoolSize)
    (hss : s.nextSs cfg = ss) (hpos : 0 < ss) (hlt : ss + cfg.ssLen v < sizeT) :
    ∃ t, checkpointSnapshotHanlder cfg s (cfg.vcpuAddr v i) (some p) = some t ∧
      CheckpointWrites cfg s t v i ss := by
  have hmem := cfg.memSize_lt hv
  have hcontext : cfg.sizeofVcpu < sizeT := Nat.lt_of_lt_of_le cfg.sizeofVcpu_lt (by decide)
  obtain ⟨s₁, hinit, ⟨hs₁, hid⟩, hssPool⟩ :
      ∃ s₁, (if s.ssPool.isNone then ssPoolInit cfg s else s) = s₁ ∧
        (s₁.mem = s.mem ∧ s₁.latestSsId = s.latestSsId) ∧
        s₁.ssPool = some ⟨cfg.ssPoolBase, cfg.ssPoolSize, ss⟩ := by
    cases hcase : s.ssPool with
    | none =>
      rw [LcmState.nextSs, hcase] at hss
      subst hss
      exact ⟨_, rfl, ⟨rfl, rfl⟩, rfl⟩
    | some pool =>
      rw [LcmState.nextSs, hcase] at hss
      obtain ⟨hb, hsz⟩ := hpool pool hcase
      obtain ⟨base, size, last⟩ := pool
      dsimp only at hss hb hsz
      subst hss hb hsz
      exact ⟨_, rfl, ⟨rfl, rfl⟩, hcase⟩
  have hcount : ((cfg.vm v).size + (cfg.vm v).dmemSize) % sizeT = (cfg.vm v).memSize :=
    Nat.mod_eq_of_lt hmem
  -- the memory behind the two copies
  obtain ⟨m, hm⟩ : ∃ m, memcpy (memcpy (writeLe (writeLe (writeLe s.mem ss 8 s.latestSsId) (ss + 8) 8
      (cfg.ssLen v)) (ss + 16) 4 v) (ss + 24) (cfg.vcpuAddr v i) cfg.sizeofVcpu)
      (ss + sizeofSnapshot cfg.sizeofVcpu) p (cfg.vm v).memSize = m := ⟨_, rfl⟩
  have hsize : readLe m (ss + 8) 8 = cfg.ssLen v := by
    have hmemory : Apart (ss + sizeofSnapshot cfg.sizeofVcpu) (cfg.vm v).memSize (ss + 8) 8 :=
      .inr (by simp only [sizeofSnapshot]; omega)
    have hvcpu : Apart (ss + 24) cfg.sizeofVcpu (ss + 8) 8 := .inr (by omega)
    have hid : Apart (ss + 16) 4 (ss + 8) 8 := .inr (by omega)
    rw [← hm, readLe_congr (agree_memcpy hmemory hmem), readLe_congr (agree_memcpy hvcpu hcontext),
      readLe_congr (agree_writeLe hid), readLe_writeLe]
    exact Nat.mod_eq_of_lt (by simp only [sizeT] at *; omega)
  have hssId : readLe m ss 8 = s.latestSsId % sizeT := by
    have hmemory : Apart (ss + sizeofSnapshot cfg.sizeofVcpu) (cfg.vm v).memSize ss 8 :=
      .inr (by simp only [sizeofSnapshot]; omega)
    have hvcpu : Apart (ss + 24) cfg.sizeofVcpu ss 8 := .inr (by omega)
    have hvmId : Apart (ss + 16) 4 ss 8 := .inr (by omega)
    have hlen : Apart (ss + 8) 8 ss 8 := .inr (by omega)
    rw [← hm, readLe_congr (agree_memcpy hmemory hmem), readLe_congr (agree_memcpy hvcpu hcontext),
      readLe_congr (agree_writeLe hvmId), readLe_congr (agree_writeLe hlen), readLe_writeLe]
    rfl
  refine ⟨{ s₁ with
    mem := vcpuWritereg m (cfg.vcpuAddr v i) 0 (readLe m ss 8)
    ssPool := some ⟨cfg.ssPoolBase, cfg.ssPoolSize, ss + cfg.ssLen v⟩
    latestSs := ss
    latestSsId := (s.latestSsId + 1) % sizeT }, ?_, rfl, rfl, rfl, fun a n hsnap hregs => ?_,
    fun hregs => ?_⟩
  · unfold checkpointSnapshotHanlder
    rw [cfg.currentVm_eq hv hvm]
    have hlen : (cfg.vm v).dmemSize + (cfg.vm v).dmemSize + sizeofSnapshot cfg.sizeofVcpu =
        cfg.ssLen v := rfl
    simp only [Option.bind_eq_bind, Option.bind_some, hinit, hssPool, hs₁, hid, hcount, hlen, hm, hsize,
      if_neg (Nat.ne_of_gt hpos), Nat.mod_eq_of_lt hlt]
  · have hwritten : cfg.ssWritten v = 24 + cfg.sizeofVcpu + (cfg.vm v).memSize := rfl
    have hin {b k : Nat} (hb : ss ≤ b) (hk : b + k ≤ ss + (24 + cfg.sizeofVcpu + (cfg.vm v).memSize)) :
        Apart b k a n := hsnap.mono hb (by omega) (Nat.le_refl _) (Nat.le_refl _)
    have hvcpu := cfg.sizeofVcpu_le
    have hreg : Agree (vcpuWritereg m (cfg.vcpuAddr v i) 0 (readLe m ss 8)) m a n := by
      refine agree_writeLe ?_
      exact hregs.mono (Nat.le_refl _) (by simp only [sizeofVcpuRegs]; omega) (Nat.le_refl _)
        (Nat.le_refl _)
    refine hreg.trans ?_
    rw [← hm]
    refine (agree_memcpy (hin (by omega) (by simp only [sizeofSnapshot]; omega)) hmem).trans ?_
    refine (agree_memcpy (hin (by omega) (by omega)) hcontext).trans ?_
    refine (agree_writeLe (hin (by omega) (by omega))).trans ?_
    refine (agree_writeLe (hin (by omega) (by omega))).trans ?_
    exact agree_writeLe (hin (by omega) (by omega))
  · have hreg : Agree (vcpuWritereg m (cfg.vcpuAddr v i) 0 (readLe m ss 8)) m ss 16 := by
      refine agree_writeLe ?_
      exact hregs.mono (Nat.le_refl _) (by simp only [sizeofVcpuRegs]; omega) (Nat.le_refl _)
        (Nat.le_refl _)
    constructor
    · rw [← hssId]
      exact readLe_congr (hreg.mono (Nat.le_refl _) (by omega))
    · rw [← hsize]
      exact readLe_congr (hreg.mono (by omega) (by omega))

theorem checkpointSnapshotHanlder_none (vcpu : Nat) :
    checkpointSnapshotHanlder cfg s vcpu none = none := by
  unfold checkpointSnapshotHanlder
  simp

theorem StoreWf.init (h : LcmBoot cfg x) : StoreWf cfg x := by
  have htaken := h.taken
  refine ⟨h.vcpu_vm, fun pool hpool => ?_, ?_, fun e he => ?_⟩
  · rw [h.ssPool] at hpool
    cases hpool
  · rw [htaken, LcmState.nextSs, h.ssPool]
    rfl
  · rw [htaken] at he
    cases he

/-- The next snapshot is far from where `last` would wrap around. -/
theorem StoreWf.nextSs_lt (h : StoreWf cfg x) (hp : SnapshotsApart cfg x) :
    cfg.ssPoolBase ≤ x.state.nextSs cfg ∧ x.state.nextSs cfg < 6 * physMax := by
  have hpool := cfg.ssPool_le
  have hlaid := h.laid
  refine ⟨hlaid.base_le, ?_⟩
  cases htaken : x.taken with
  | nil =>
    rw [htaken] at hlaid
    have hbase : x.state.nextSs cfg = cfg.ssPoolPage + 40 := hlaid
    simp only [physMax] at *
    omega
  | cons e es =>
    rw [htaken] at hlaid
    have hmem : e ∈ x.taken := by simp [htaken]
    have hnext := hlaid.1
    have hinside := (hp.inside e hmem).2
    have hlen := ssLen_lt (h.known e hmem)
    have hend : cfg.ssPagesEnd = cfg.ssPoolPage + cfg.ssPoolBytes := rfl
    simp only [physMax] at *
    omega

/-- What a checkpoint step does, while all snapshots so far are in their pages. -/
theorem StoreWf.checkpoint (h : StoreWf cfg x) (hp : SnapshotsApart cfg x)
    (hstep : (checkpointMachine cfg).step x (.checkpoint v i par) = some y) :
    v < cfg.nrVms ∧ i < cfg.nrCpus v ∧
      y.taken = ⟨v, i, x.state.nextSs cfg, x.state.mem⟩ :: x.taken ∧
      y.state.ssPool = some ⟨cfg.ssPoolBase, cfg.ssPoolSize, x.state.nextSs cfg + cfg.ssLen v⟩ ∧
      ∀ a n, Apart (x.state.nextSs cfg) (cfg.ssWritten v) a n →
        Apart (cfg.vcpuAddr v i + vcpuRegsOff) sizeofVcpuRegs a n →
          Agree y.state.mem x.state.mem a n := by
  obtain ⟨⟨hv, hi⟩, hstep⟩ := Option.ite_none_right_eq_some.mp hstep
  obtain ⟨t, ht, rfl⟩ := Option.map_eq_some_iff.mp hstep
  obtain ⟨hbase, hlt⟩ := h.nextSs_lt hp
  have hlen := ssLen_lt hv
  cases par with
  | none =>
    rw [checkpointSnapshotHanlder_none] at ht
    cases ht
  | some p =>
    have hpos : 0 < x.state.nextSs cfg := by
      have hhead : cfg.ssPoolBase = cfg.ssPoolPage + 40 := rfl
      omega
    obtain ⟨u, hu, hspec⟩ := checkpoint_writes (p := p) hv (h.vcpu_vm v hv i hi)
      h.pool rfl hpos (by simp only [physMax, sizeT] at *; omega)
    obtain rfl : t = u := Option.some.inj (ht.symm.trans hu)
    exact ⟨hv, hi, by rw [hspec.latestSs], hspec.ssPool, hspec.frame⟩

/-- A new snapshot keeps the store apart exactly if it has room behind one that kept to its size. -/
theorem StoreWf.apart_iff (h : StoreWf cfg x) (hp : SnapshotsApart cfg x)
    (htaken : y.taken = ⟨v, i, x.state.nextSs cfg, x.state.mem⟩ :: x.taken) :
    SnapshotsApart cfg y ↔ RoomForStep cfg x (.checkpoint v i par) := by
  have hlaid := h.laid
  have hbase := hlaid.base_le
  have hhead : cfg.ssPoolBase = cfg.ssPoolPage + 40 := rfl
  have hwritten (w : VmId) : cfg.ssWritten w =
      24 + cfg.sizeofVcpu + ((cfg.vm w).size + (cfg.vm w).dmemSize) := rfl
  have hlen (w : VmId) : cfg.ssLen w =
      (cfg.vm w).dmemSize + (cfg.vm w).dmemSize + (24 + cfg.sizeofVcpu) := rfl
  constructor
  · intro hy
    have hnew := hy.inside ⟨v, i, x.state.nextSs cfg, x.state.mem⟩ (by simp [htaken])
    refine ⟨hnew.2, fun e he => ?_⟩
    have hmem : e ∈ x.taken := List.mem_of_head? he
    have hdisjoint := hy.disjoint
    rw [htaken, List.pairwise_cons] at hdisjoint
    have hapart := hdisjoint.1 e hmem
    obtain ⟨es, htail⟩ : ∃ es, x.taken = e :: es := List.head?_eq_some_iff.mp he
    rw [htail] at hlaid
    have hnext := hlaid.1
    have hw := hwritten e.vm
    have hwv := hwritten v
    have hl := hlen e.vm
    unfold Apart at hapart
    dsimp only at hapart
    omega
  · rintro ⟨hroom, hsize⟩
    have hroom' : x.state.nextSs cfg + cfg.ssWritten v ≤ cfg.ssPagesEnd := hroom
    -- every older snapshot ends where the new one starts
    have hbelow (d) (hd : d ∈ x.taken) : d.ss + cfg.ssWritten d.vm ≤ x.state.nextSs cfg := by
      cases hcase : x.taken with
      | nil =>
        rw [hcase] at hd
        cases hd
      | cons e es =>
        have hkept := hsize e (by rw [hcase, List.head?_cons])
        have hw := hwritten e.vm
        have hl := hlen e.vm
        have hdisjoint := hp.disjoint
        rw [hcase] at hlaid hd hdisjoint
        obtain ⟨hnext, hrest⟩ := hlaid
        rcases List.mem_cons.mp hd with rfl | hd
        · omega
        · have hapart := (List.pairwise_cons.mp hdisjoint).1 d hd
          have hle := hrest.le_last hd
          have hwd := hwritten d.vm
          have hld := hlen d.vm
          unfold Apart at hapart
          omega
    constructor
    · intro e he
      rw [htaken] at he
      rcases List.mem_cons.mp he with rfl | he
      · exact ⟨by dsimp only; omega, hroom'⟩
      · exact hp.inside e he
    · rw [htaken, List.pairwise_cons]
      exact ⟨fun d hd => .inr (hbelow d hd), hp.disjoint⟩

/-- A checkpoint with room keeps what the next one needs. -/
theorem StoreWf.step {a : LcmAction} (h : StoreWf cfg x) (hp : SnapshotsApart cfg x)
    (hstep : (checkpointMachine cfg).step x a = some y) (hroom : RoomForStep cfg x a) :
    StoreWf cfg y := by
  cases a with
  | checkpoint v i par =>
    obtain ⟨hv, hi, htaken, hpool, hframe⟩ := h.checkpoint hp hstep
    have hbase := h.laid.base_le
    have hhead : cfg.ssPoolBase = cfg.ssPoolPage + 40 := rfl
    have hfit : x.state.nextSs cfg + cfg.ssWritten v ≤ cfg.ssPoolPage + cfg.ssPoolBytes := hroom.1
    have hregs := cfg.sizeofVcpu_le
    have hvmOff : cfg.vcpuVmOff = cfg.sizeofVcpu - 8 := rfl
    have hoff : vcpuRegsOff = 16 := rfl
    have hsize : sizeofVcpuRegs = 272 := rfl
    refine ⟨fun w hw j hj => ?_, fun pool hsome => ?_, ?_, fun e he => ?_⟩
    · rw [← h.vcpu_vm w hw j hj]
      apply readLe_congr
      apply hframe
      · exact (cfg.vcpu_ssPool w hw j hj).symm.mono (by omega) hfit (by omega) (by omega)
      · by_cases hsame : (v, i) = (w, j)
        · cases hsame
          exact .inl (by omega)
        · exact (cfg.vcpu_vcpu v hv i hi w hw j hj hsame).mono (by omega) (by omega) (by omega)
            (by omega)
    · rw [hpool] at hsome
      cases hsome
      exact ⟨rfl, rfl⟩
    · have hnext : y.state.nextSs cfg = x.state.nextSs cfg + cfg.ssLen v := by
        rw [LcmState.nextSs.eq_def cfg y.state, hpool]
      rw [htaken, hnext]
      exact ⟨rfl, h.laid⟩
    · rw [htaken] at he
      rcases List.mem_cons.mp he with rfl | he
      · exact hv
      · exact h.known e he
  | restore v i par arg0 => cases hstep
  | guestWrite v off byte =>
    obtain ⟨⟨hv, hoff⟩, hstep⟩ := Option.ite_none_right_eq_some.mp hstep
    cases hstep
    refine ⟨fun w hw j hj => ?_, h.pool, h.laid, h.known⟩
    rw [← h.vcpu_vm w hw j hj]
    exact readLe_vm_guestWrite hv hoff hw hj
  | vcpuWrite v i off byte =>
    obtain ⟨⟨hv, hi, hoff⟩, hstep⟩ := Option.ite_none_right_eq_some.mp hstep
    cases hstep
    refine ⟨fun w hw j hj => ?_, h.pool, h.laid, h.known⟩
    rw [← h.vcpu_vm w hw j hj]
    exact readLe_vm_vcpuWrite hv hi hoff hw hj

/-- A step keeps the store apart exactly if the checkpoint it makes has room. -/
theorem StoreWf.step_iff {a : LcmAction} (h : StoreWf cfg x) (hp : SnapshotsApart cfg x)
    (hstep : (checkpointMachine cfg).step x a = some y) :
    SnapshotsApart cfg y ↔ RoomForStep cfg x a := by
  cases a with
  | checkpoint v i par =>
    obtain ⟨-, -, htaken, -, -⟩ := h.checkpoint hp hstep
    exact h.apart_iff hp htaken
  | restore v i par arg0 => cases hstep
  | guestWrite v off byte =>
    obtain ⟨-, hstep⟩ := Option.ite_none_right_eq_some.mp hstep
    cases hstep
    exact iff_of_true ⟨hp.inside, hp.disjoint⟩ trivial
  | vcpuWrite v i off byte =>
    obtain ⟨-, hstep⟩ := Option.ite_none_right_eq_some.mp hstep
    cases hstep
    exact iff_of_true ⟨hp.inside, hp.disjoint⟩ trivial

theorem snapshotsApart_init (h : LcmBoot cfg x) : SnapshotsApart cfg x := by
  constructor
  · rw [h.taken]
    exact fun e he => absurd he List.not_mem_nil
  · rw [h.taken]
    exact List.Pairwise.nil

theorem snapshotsApart_always_iff {as : List LcmAction} (h : LcmBoot cfg x) :
    (checkpointMachine cfg).Always (SnapshotsApart cfg) x as ↔
      (checkpointMachine cfg).EachStep (RoomForStep cfg) x as :=
  Machine.always_iff_eachStep (I := fun _ => True) (H := StoreWf cfg) (fun _ _ _ _ _ => trivial)
    (fun _ _ _ _ hp hwf hstep hroom => hwf.step hp hstep hroom)
    (fun _ _ _ _ hp hwf hstep => hwf.step_iff hp hstep) trivial (snapshotsApart_init h) (StoreWf.init h)

/-- In a run, the snapshot store is safe exactly if every checkpoint has room behind a snapshot that
kept to its size. -/
theorem snapshotStoreSafe_iff {as : List LcmAction} (h : (checkpointMachine cfg).Init x) :
    SnapshotStoreSafe cfg x as ↔ (checkpointMachine cfg).EachStep (RoomForStep cfg) x as := by
  constructor
  · exact fun hsafe => (snapshotsApart_always_iff h).mp hsafe.apart
  · intro hroom
    refine ⟨(snapshotsApart_always_iff h).mpr hroom, hroom.mono fun x a ha => ?_⟩
    rintro v i par rfl hnot
    exact absurd ha.1 hnot

/-- Two checkpoints of a VM with an image as large as its `dmem_size`. -/
theorem snapshotStoreSafe_pair :
    SnapshotStoreSafe (pairConfig 0x1000 0x1000 (by decide) (by decide)) pairBoot
        [.checkpoint 0 0 (some 0x60000000), .checkpoint 0 0 (some 0x60000000)] ↔
      (checkpointMachine (pairConfig 0x1000 0x1000 (by decide) (by decide))).EachStep
        (RoomForStep (pairConfig 0x1000 0x1000 (by decide) (by decide))) pairBoot
        [.checkpoint 0 0 (some 0x60000000), .checkpoint 0 0 (some 0x60000000)] :=
  snapshotStoreSafe_iff (x := pairBoot) (pairBoot_init)

/-- A checkpoint after boot that has no room is made all the same. -/
theorem LcmBoot.not_apart (h : LcmBoot cfg x) (hv : v < cfg.nrVms) (hi : i < cfg.nrCpus v)
    (hroom : cfg.ssPagesEnd < cfg.ssPoolBase + cfg.ssWritten v) :
    ¬ SnapshotStoreSafe cfg x [.checkpoint v i (some p)] := by
  intro hsafe
  have hnext : x.state.nextSs cfg = cfg.ssPoolBase := by rw [LcmState.nextSs, h.ssPool]
  have hwf := StoreWf.init h
  have hp := snapshotsApart_init h
  obtain ⟨hbase, hlt⟩ := hwf.nextSs_lt hp
  have hlen := ssLen_lt hv
  obtain ⟨t, ht, -⟩ := checkpoint_writes (p := p) hv (h.vcpu_vm v hv i hi) hwf.pool rfl
    (by rw [hnext]; exact Nat.lt_of_lt_of_le (by decide : 0 < 40) (Nat.le_add_left _ _))
    (by simp only [physMax, sizeT] at *; omega)
  have hstep : (checkpointMachine cfg).step x (.checkpoint v i (some p)) =
      some { state := t, taken := ⟨v, i, t.latestSs, x.state.mem⟩ :: x.taken } := by
    simp only [checkpointMachine, checkpointStep, lcmStep]
    rw [if_pos ⟨hv, hi⟩, ht]
    rfl
  have happ := hsafe.apart.2 _ hstep
  have hfits := ((hwf.step_iff hp hstep).mp happ).1
  unfold HasRoom at hfits
  omega

/-- An image of 32 KiB has no room in the pool for a `dmem_size` of 4 KiB. -/
theorem snapshotStore_overflow :
    (checkpointMachine (pairConfig 0x8000 0x1000 (by decide) (by decide))).Init pairBoot ∧
      ¬ SnapshotStoreSafe (pairConfig 0x8000 0x1000 (by decide) (by decide)) pairBoot
        [.checkpoint 0 0 (some 0x60000000)] :=
  ⟨pairBoot_init, LcmBoot.not_apart pairBoot_init (by decide) (by decide) (by decide)⟩

end Avisor
