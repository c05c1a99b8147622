import Avisor.Lcm.Machine

/-!
# What the handlers do

One theorem for each handler, for a caller that knows its VM and reaches the VM's memory: the stores
it makes, as the ranges outside of which memory stays as it was, and what it leaves in them.
-/

namespace Avisor

open Function Memory

variable {cfg : LcmConfig} {s t : LcmState} {v : VmId} {i a n ss : Nat} {mem : Memory}

/-- What a checkpoint of vCPU `i` of VM `v` to the snapshot at `ss` comes to. -/
structure Checkpointed (cfg : LcmConfig) (s t : LcmState) (v : VmId) (i ss : Nat) : Prop where
  ssPool : t.ssPool = some ⟨cfg.ssPoolBase, cfg.ssPoolSize, ss + cfg.ssLen v⟩
  latestSs : t.latestSs = ss
  latestSsId : t.latestSsId = (s.latestSsId + 1) % sizeT
  first : t.first = s.first
  frame : ∀ a n, Apart ss (cfg.ssExtent v) a n →
    Apart (cfg.vcpuAddr v i + vcpuRegsOff) sizeofVcpuRegs a n → Agree t.mem s.mem a n
  intact : Intact cfg t.mem ⟨v, i, ss, s.mem⟩

/-- The stores of a checkpoint to the snapshot at `ss`. -/
def checkpointMem (cfg : LcmConfig) (mem : Memory) (v : VmId) (i ss id : Nat) : Memory :=
  let header := writeLe (writeLe (writeLe mem ss 8 id) (ss + 8) 8 (cfg.ssLen v)) (ss + 16) 4 v
  let saved := copy header (ss + 24) (cfg.vcpuAddr v i) cfg.sizeofVcpu
  copy saved (ss + sizeofSnapshot cfg.sizeofVcpu) (cfg.pa v) (cfg.vm v).memSize

private theorem ssExtent_eq (cfg : LcmConfig) (v : VmId) :
    cfg.ssLen v ≤ cfg.ssExtent v ∧ 24 + cfg.sizeofVcpu + (cfg.vm v).memSize ≤ cfg.ssExtent v :=
  ⟨Nat.le_max_left _ _, Nat.le_max_right _ _⟩

/-- The stores to a snapshot stay in it. -/
theorem agree_checkpointMem {id : Nat} (h : Apart ss (cfg.ssExtent v) a n) :
    Agree (checkpointMem cfg mem v i ss id) mem a n := by
  have hextent := (ssExtent_eq cfg v).2
  have hin {b k : Nat} (hb : ss ≤ b) (hk : b + k ≤ ss + (24 + cfg.sizeofVcpu + (cfg.vm v).memSize)) :
      Apart b k a n := h.mono hb (by omega) (Nat.le_refl _) (Nat.le_refl _)
  unfold checkpointMem sizeofSnapshot
  refine (agree_copy (hin (by omega) (by omega))).trans ?_
  refine (agree_copy (hin (by omega) (by omega))).trans ?_
  refine (agree_writeLe (hin (by omega) (by omega))).trans ?_
  refine (agree_writeLe (hin (by omega) (by omega))).trans ?_
  exact agree_writeLe (hin (by omega) (by omega))

theorem readLe_checkpointMem_size (mem : Memory) (i ss id : Nat) (hlen : cfg.ssLen v < sizeT) :
    readLe (checkpointMem cfg mem v i ss id) (ss + 8) 8 = cfg.ssLen v := by
  unfold checkpointMem sizeofSnapshot
  have hmemory : Apart (ss + (24 + cfg.sizeofVcpu)) (cfg.vm v).memSize (ss + 8) 8 := .inr (by omega)
  have hvcpu : Apart (ss + 24) cfg.sizeofVcpu (ss + 8) 8 := .inr (by omega)
  have hid : Apart (ss + 16) 4 (ss + 8) 8 := .inr (by omega)
  rw [readLe_congr (agree_copy hmemory), readLe_congr (agree_copy hvcpu),
    readLe_congr (agree_writeLe hid), readLe_writeLe]
  exact Nat.mod_eq_of_lt hlen

theorem checkpointMem_intact {id : Nat} (hv : v < cfg.nrVms) (hi : i < cfg.nrCpus v)
    (hbase : cfg.ssPoolBase ≤ ss) (hfit : ss + cfg.ssExtent v ≤ cfg.ssPoolEnd) :
    Intact cfg (checkpointMem cfg mem v i ss id) ⟨v, i, ss, mem⟩ := by
  obtain ⟨hlen, hextent⟩ := ssExtent_eq cfg v
  have hvcpu := cfg.apart_vcpu hv hi hbase hfit
  have hmemory := cfg.apart_memory hv hbase hfit
  have hend := cfg.ssPoolEnd_lt
  have hhead : cfg.ssPoolBase = cfg.ssPoolPage + 40 := rfl
  -- the headers do not change what is copied
  have hheader {b k : Nat} (h : Apart ss (cfg.ssExtent v) b k) :
      Agree (writeLe (writeLe (writeLe mem ss 8 id) (ss + 8) 8 (cfg.ssLen v)) (ss + 16) 4 v) mem b k := by
    refine (agree_writeLe (h.mono (by omega) (by omega) (Nat.le_refl _) (Nat.le_refl _))).trans ?_
    refine (agree_writeLe (h.mono (by omega) (by omega) (Nat.le_refl _) (Nat.le_refl _))).trans ?_
    exact agree_writeLe (h.mono (by omega) (by omega) (Nat.le_refl _) (Nat.le_refl _))
  refine ⟨readLe_checkpointMem_size mem i ss id (by omega), fun b hb => ?_, fun b hb _ => ?_⟩
  · unfold checkpointMem sizeofSnapshot
    have hbehind : Apart (ss + (24 + cfg.sizeofVcpu)) (cfg.vm v).memSize (ss + 24) cfg.sizeofVcpu :=
      .inr (by omega)
    change copy _ _ _ _ (ss + 24 + b) = mem (cfg.vcpuAddr v i + b)
    rw [agree_copy hbehind (ss + 24 + b) (by omega) (by omega), copy_apply hb]
    exact hheader hvcpu.symm _ (by omega) (by omega)
  · unfold checkpointMem sizeofSnapshot
    have hapart : Apart (ss + 24) cfg.sizeofVcpu (cfg.pa v) (cfg.vm v).memSize :=
      hmemory.symm.mono (by omega) (by omega) (Nat.le_refl _) (Nat.le_refl _)
    change copy _ _ _ _ (ss + (24 + cfg.sizeofVcpu) + b) = mem (cfg.pa v + b)
    have hb : b < (cfg.vm v).memSize := hb
    rw [copy_apply hb, agree_copy hapart (cfg.pa v + b) (by omega) (by omega)]
    exact hheader hmemory.symm _ (by omega) (by omega)

/-- The state a checkpoint of vCPU `i` of VM `v` to the snapshot at `ss` leaves. -/
theorem checkpoint_eq (hv : v < cfg.nrVms) (hi : i < cfg.nrCpus v)
    (hvm : readLe s.mem (cfg.vcpuAddr v i + cfg.vcpuVmOff) 8 = cfg.vmAddr v)
    (hpool : ∀ pool, s.ssPool = some pool →
      pool.base = cfg.ssPoolBase ∧ pool.size = cfg.ssPoolSize)
    (hss : s.nextSs cfg = ss) (hbase : cfg.ssPoolBase ≤ ss)
    (hfit : ss + cfg.ssExtent v ≤ cfg.ssPoolEnd) :
    checkpointSnapshotHanlder cfg s (cfg.vcpuAddr v i) (some (cfg.pa v)) = some
      { mem := writeLe (checkpointMem cfg s.mem v i ss s.latestSsId) (cfg.vcpuAddr v i + vcpuRegsOff) 8
          (readLe (checkpointMem cfg s.mem v i ss s.latestSsId) ss 8)
        ssPool := some ⟨cfg.ssPoolBase, cfg.ssPoolSize, ss + cfg.ssLen v⟩
        latestSs := ss
        latestSsId := (s.latestSsId + 1) % sizeT
        first := s.first } := by
  obtain ⟨hlen, hextent⟩ := ssExtent_eq cfg v
  have hvcpu := cfg.apart_vcpu hv hi hbase hfit
  have hmemory := cfg.apart_memory hv hbase hfit
  have hend := cfg.ssPoolEnd_lt
  have hhead : cfg.ssPoolBase = cfg.ssPoolPage + 40 := rfl
  have hregs := cfg.sizeofVcpu_le
  have hmem := cfg.memSize_lt hv
  -- the pool, fresh or not, has its next snapshot at `ss`
  obtain ⟨s₁, hinit, hsame, hssPool⟩ : ∃ s₁, (if s.ssPool.isNone then ssPoolInit cfg s else s) = s₁ ∧
      (s₁.mem = s.mem ∧ s₁.latestSsId = s.latestSsId ∧ s₁.first = s.first) ∧
      s₁.ssPool = some ⟨cfg.ssPoolBase, cfg.ssPoolSize, ss⟩ := by
    cases hcase : s.ssPool with
    | none =>
      rw [LcmState.nextSs, hcase] at hss
      subst hss
      exact ⟨_, rfl, ⟨rfl, rfl, rfl⟩, rfl⟩
    | some pool =>
      rw [LcmState.nextSs, hcase] at hss
      obtain ⟨hb, hsz⟩ := hpool pool hcase
      obtain ⟨base, size, last⟩ := pool
      dsimp only at hss hb hsz
      subst hss hb hsz
      exact ⟨_, rfl, ⟨rfl, rfl, rfl⟩, hcase⟩
  obtain ⟨hs₁, hid, hfirst⟩ := hsame
  have hvcpuCopy {m : Memory} : memcpy m (ss + 24) (cfg.vcpuAddr v i) cfg.sizeofVcpu =
      copy m (ss + 24) (cfg.vcpuAddr v i) cfg.sizeofVcpu :=
    memcpy_eq (hvcpu.symm.mono (by omega) (by omega) (Nat.le_refl _) (Nat.le_refl _)) (by omega)
  have hmemoryCopy {m : Memory} : memcpy m (ss + sizeofSnapshot cfg.sizeofVcpu) (cfg.pa v)
      (((cfg.vm v).size + (cfg.vm v).dmemSize) % sizeT) =
        copy m (ss + sizeofSnapshot cfg.sizeofVcpu) (cfg.pa v) (cfg.vm v).memSize := by
    unfold sizeofSnapshot
    rw [show (cfg.vm v).size + (cfg.vm v).dmemSize = (cfg.vm v).memSize from rfl,
      Nat.mod_eq_of_lt hmem]
    exact memcpy_eq (hmemory.symm.mono (by omega) (by omega) (Nat.le_refl _) (Nat.le_refl _)) hmem
  have hrun : checkpointSnapshotHanlder cfg s (cfg.vcpuAddr v i) (some (cfg.pa v)) = some { s₁ with
      mem := vcpuWritereg (checkpointMem cfg s.mem v i ss s.latestSsId) (cfg.vcpuAddr v i) 0
        (readLe (checkpointMem cfg s.mem v i ss s.latestSsId) ss 8)
      ssPool := some ⟨cfg.ssPoolBase, cfg.ssPoolSize, (ss + cfg.ssLen v) % sizeT⟩
      latestSs := ss
      latestSsId := (s.latestSsId + 1) % sizeT } := by
    unfold checkpointSnapshotHanlder
    rw [cfg.currentVm_eq hv hvm]
    simp only [Option.bind_eq_bind, Option.bind_some, hinit, hssPool, hs₁, hid, hvcpuCopy, hmemoryCopy]
    have hsize := readLe_checkpointMem_size s.mem i ss s.latestSsId
      (show cfg.ssLen v < sizeT by omega)
    rw [if_neg (by omega), ← hsize]
    rfl
  rw [hrun, Nat.mod_eq_of_lt (by omega), hfirst]
  rfl

theorem checkpoint_spec (hv : v < cfg.nrVms) (hi : i < cfg.nrCpus v)
    (hvm : readLe s.mem (cfg.vcpuAddr v i + cfg.vcpuVmOff) 8 = cfg.vmAddr v)
    (hpool : ∀ pool, s.ssPool = some pool →
      pool.base = cfg.ssPoolBase ∧ pool.size = cfg.ssPoolSize)
    (hss : s.nextSs cfg = ss) (hbase : cfg.ssPoolBase ≤ ss)
    (hfit : ss + cfg.ssExtent v ≤ cfg.ssPoolEnd) :
    ∃ t, checkpointSnapshotHanlder cfg s (cfg.vcpuAddr v i) (some (cfg.pa v)) = some t ∧
      Checkpointed cfg s t v i ss := by
  obtain ⟨hlen, hextent⟩ := ssExtent_eq cfg v
  have hvcpu := cfg.apart_vcpu hv hi hbase hfit
  have hregs := cfg.sizeofVcpu_le
  refine ⟨_, checkpoint_eq hv hi hvm hpool hss hbase hfit, rfl, rfl, rfl, rfl, fun a n hss hx => ?_, ?_⟩
  · refine (agree_writeLe ?_).trans (agree_checkpointMem hss)
    exact hx.mono (Nat.le_refl _) (by simp only [sizeofVcpuRegs]; omega) (Nat.le_refl _) (Nat.le_refl _)
  · refine (checkpointMem_intact hv hi hbase hfit).congr (agree_writeLe ?_)
    have hroom : ss + cfg.ssLen v ≤ ss + cfg.ssExtent v := by omega
    exact hvcpu.mono (by omega) (by simp only [vcpuRegsOff]; omega) (Nat.le_refl _) hroom

/-- The stores of `restart_vm` for VM `v` with `vcpu` stay in the VM's memory and the registers. -/
theorem restart_spec (hv : v < cfg.nrVms) (hsize : (cfg.vm v).dmemSize ≤ (cfg.vm v).size)
    (hvm : readLe s.mem (cfg.vcpuAddr v i + cfg.vcpuVmOff) 8 = cfg.vmAddr v) :
    ∃ mem, restartVm cfg s (cfg.vcpuAddr v i) (some (cfg.pa v)) = some { s with mem := mem } ∧
      ∀ a n, Apart (cfg.pa v) (cfg.vm v).memSize a n →
        Apart (cfg.vcpuAddr v i + vcpuRegsOff) sizeofVcpuRegs a n → Agree mem s.mem a n := by
  have hmem := cfg.memSize_lt hv
  have hmemSize : (cfg.vm v).memSize = (cfg.vm v).size + (cfg.vm v).dmemSize := rfl
  unfold restartVm
  rw [cfg.currentVm_eq hv hvm]
  refine ⟨_, rfl, fun a n hmemory hregs => ?_⟩
  have hx {b k : Nat} (hb : cfg.vcpuAddr v i + vcpuRegsOff ≤ b)
      (hk : b + k ≤ cfg.vcpuAddr v i + vcpuRegsOff + 272) : Apart b k a n :=
    hregs.mono hb hk (Nat.le_refl _) (Nat.le_refl _)
  unfold vcpuArchReset vcpuWritepc
  rw [memset_eq, memset_eq, Nat.mod_eq_of_lt (by omega)]
  refine (agree_writeLe (hx (by omega) (by omega))).trans ?_
  refine (agree_writeLe (hx (by omega) (by omega))).trans ?_
  refine (agree_fill (hx (by omega) (by simp only [sizeofVcpuRegs]; omega))).trans ?_
  refine (agree_memcpy ?_ (by omega)).trans (agree_fill ?_)
  · exact hmemory.mono (by omega) (by omega) (Nat.le_refl _) (Nat.le_refl _)
  · exact hmemory.mono (by omega) (by omega) (Nat.le_refl _) (Nat.le_refl _)

/-- What `restore_snapshot_hanlder_by_ss` leaves in memory. -/
theorem restoreBySs_spec (hv : v < cfg.nrVms) (hi : i < cfg.nrCpus v)
    (hsize : (cfg.vm v).dmemSize ≤ (cfg.vm v).size)
    (hvm : readLe s.mem (cfg.vcpuAddr v i + cfg.vcpuVmOff) 8 = cfg.vmAddr v)
    (hbase : cfg.ssPoolBase ≤ ss) (hfit : ss + cfg.ssLen v ≤ cfg.ssPoolEnd) :
    restoreSnapshotHanlderBySs cfg s (cfg.vcpuAddr v i) (some (cfg.pa v)) ss = some { s with
      mem := copy (copy s.mem (cfg.vcpuAddr v i) (ss + 24) cfg.sizeofVcpu) (cfg.pa v)
        (ss + sizeofSnapshot cfg.sizeofVcpu) ((cfg.vm v).dmemSize + (cfg.vm v).dmemSize) } := by
  have hmem := cfg.memSize_lt hv
  have hmemSize : (cfg.vm v).memSize = (cfg.vm v).size + (cfg.vm v).dmemSize := rfl
  have hlen : cfg.ssLen v = (cfg.vm v).dmemSize + (cfg.vm v).dmemSize + (24 + cfg.sizeofVcpu) := rfl
  have hend := cfg.ssPoolEnd_lt
  have hvcpu := (cfg.apart_vcpu hv hi hbase hfit).mono (Nat.le_refl _) (Nat.le_refl _)
    (show ss ≤ ss + 24 by omega) (show ss + 24 + cfg.sizeofVcpu ≤ ss + cfg.ssLen v by omega)
  have hmemory := (cfg.apart_memory hv hbase hfit).mono (Nat.le_refl _)
    (show cfg.pa v + ((cfg.vm v).dmemSize + (cfg.vm v).dmemSize) ≤ cfg.pa v + (cfg.vm v).memSize by omega)
    (show ss ≤ ss + sizeofSnapshot cfg.sizeofVcpu by omega)
    (show ss + sizeofSnapshot cfg.sizeofVcpu + ((cfg.vm v).dmemSize + (cfg.vm v).dmemSize) ≤
      ss + cfg.ssLen v by simp only [sizeofSnapshot]; omega)
  unfold restoreSnapshotHanlderBySs
  rw [cfg.currentVm_eq hv hvm]
  simp only [Option.bind_eq_bind, Option.bind_some]
  rw [memcpy_eq hvcpu (by omega), Nat.mod_eq_of_lt (by omega), memcpy_eq hmemory (by omega)]

/-- The first checkpoint after boot. -/
theorem LcmBoot.checkpoint {x : LcmRun} {par : Option Nat} (h : LcmBoot cfg x) (hv : v < cfg.nrVms)
    (hi : i < cfg.nrCpus v) (hfit : CheckpointFits cfg x v par) :
    ∃ t, (lcmMachine cfg).step x (.checkpoint v i par) =
        some { state := t, taken := [⟨v, i, cfg.ssPoolBase, x.state.mem⟩] } ∧
      Checkpointed cfg x.state t v i cfg.ssPoolBase := by
  obtain ⟨hpar, hroom⟩ := hfit
  have hnext : x.state.nextSs cfg = cfg.ssPoolBase := by
    unfold LcmState.nextSs
    rw [h.ssPool]
  rw [hnext] at hroom
  obtain ⟨t, ht, hspec⟩ := checkpoint_spec hv hi (h.vcpu_vm v hv i hi)
    (fun pool hpool => by simp [h.ssPool] at hpool) hnext (Nat.le_refl _) hroom
  refine ⟨t, ?_, hspec⟩
  change lcmStep cfg x (.checkpoint v i par) = _
  unfold lcmStep
  dsimp only
  rw [if_pos ⟨hv, hi⟩, hpar, ht, Option.map_some, hspec.latestSs, h.taken]

/-! ### A small machine -/

/-- The configuration of both VMs of a pair. -/
def pairVm (size dmemSize : Nat) : VmConfig :=
  { baseAddr := 0x40100000, loadAddr := 0x48000000, size, entry := 0x40100cd0, dmemSize }

private theorem pair_sizeofVcpu_lt : 296 < physMax := by
  decide

private theorem pair_ssPool_le (dmemSize : Nat) (hdmem : dmemSize ≤ 0x8000) :
    0x70000000 + numPages ((dmemSize + sizeofSnapshot 296) * 5 % sizeT) * pageSize ≤ physMax := by
  have hpages := numPages_le ((dmemSize + sizeofSnapshot 296) * 5 % sizeT)
  have hsize : (dmemSize + sizeofSnapshot 296) * 5 % sizeT ≤ (dmemSize + sizeofSnapshot 296) * 5 :=
    Nat.mod_le _ _
  simp only [sizeofSnapshot, pageSize, physMax] at *
  omega

private theorem pair_vmAddr_lt : ∀ v < 2, 0x50000000 + v * 0x1000 < sizeT := by
  intro v hv
  simp only [sizeT]
  omega

private theorem pair_vmAddr_inj : ∀ v < 2, ∀ w < 2,
    0x50000000 + v * 0x1000 = 0x50000000 + w * 0x1000 → v = w := by
  intro v hv w hw h
  omega

private theorem pair_memory_le (size dmemSize : Nat) (hsize : size ≤ 0x8000)
    (hdmem : dmemSize ≤ 0x8000) :
    ∀ v < 2, 0x60000000 + v * 0x10000 + (pairVm size dmemSize).memSize ≤ physMax := by
  intro v hv
  simp only [pairVm, VmConfig.memSize, physMax]
  omega

private theorem pair_memory_ssPool (size dmemSize bytes : Nat) (hsize : size ≤ 0x8000)
    (hdmem : dmemSize ≤ 0x8000) :
    ∀ v < 2, Apart (0x60000000 + v * 0x10000) (pairVm size dmemSize).memSize 0x70000000 bytes := by
  intro v hv
  exact .inl (by simp only [pairVm, VmConfig.memSize]; omega)

private theorem pair_memory_vcpu (size dmemSize : Nat) : ∀ v < 2, ∀ w < 2, ∀ i < 1,
    Apart (0x60000000 + v * 0x10000) (pairVm size dmemSize).memSize
      (0x50100000 + w * 0x1000 + i * 296) 296 := by
  intro v hv w hw i hi
  exact .inr (by omega)

private theorem pair_vcpu_ssPool (bytes : Nat) : ∀ v < 2, ∀ i < 1,
    Apart (0x50100000 + v * 0x1000 + i * 296) 296 0x70000000 bytes := by
  intro v hv i hi
  exact .inl (by omega)

private theorem pair_vcpu_vcpu : ∀ v < 2, ∀ i < 1, ∀ w < 2, ∀ j < 1, (v, i) ≠ (w, j) →
    Apart (0x50100000 + v * 0x1000 + i * 296) 296 (0x50100000 + w * 0x1000 + j * 296) 296 := by
  intro v hv i hi w hw j hj hne
  have hvw : v ≠ w := by
    intro h
    exact hne (by rw [h, Nat.lt_one_iff.mp hi, Nat.lt_one_iff.mp hj])
  unfold Apart
  omega

/-- Two VMs with one vCPU each, both with an image of `size` and `dmem_size` bytes of further memory. -/
def pairConfig (size dmemSize : Nat) (hsize : size ≤ 0x8000) (hdmem : dmemSize ≤ 0x8000) :
    LcmConfig where
  nrVms := 2
  vm _ := pairVm size dmemSize
  nrCpus _ := 1
  sizeofVcpu := 296
  vmAddr v := 0x50000000 + v * 0x1000
  vcpuAddr v i := 0x50100000 + v * 0x1000 + i * 296
  pa v := 0x60000000 + v * 0x10000
  ssPoolPage := 0x70000000
  ssPoolBytes := numPages ((dmemSize + sizeofSnapshot 296) * 5 % sizeT) * pageSize
  nrVms_pos := Nat.two_pos
  sizeofVcpu_le := Nat.le_refl _
  sizeofVcpu_lt := pair_sizeofVcpu_lt
  ssPoolBytes_eq := rfl
  ssPool_le := pair_ssPool_le dmemSize hdmem
  vmAddr_lt := pair_vmAddr_lt
  vmAddr_inj := pair_vmAddr_inj
  memory_le := pair_memory_le size dmemSize hsize hdmem
  memory_ssPool := pair_memory_ssPool size dmemSize _ hsize hdmem
  memory_vcpu := pair_memory_vcpu size dmemSize
  vcpu_ssPool := pair_vcpu_ssPool _
  vcpu_vcpu := pair_vcpu_vcpu

/-- Its memory at boot, with nothing but the fields `vm`. -/
def pairMem : Memory :=
  writeLe (writeLe (fun _ => 0#8) 0x50100120 8 0x50000000) 0x50101120 8 0x50001000

/-- The machine at boot. -/
def pairBoot : LcmRun where
  state := { mem := pairMem, ssPool := none, latestSs := 0, latestSsId := 0, first := true }
  taken := []

theorem pairBoot_init {size dmemSize : Nat} {hsize : size ≤ 0x8000} {hdmem : dmemSize ≤ 0x8000} :
    (lcmMachine (pairConfig size dmemSize hsize hdmem)).Init pairBoot := by
  refine ⟨fun v hv i hi => ?_, rfl, rfl, rfl, rfl, rfl⟩
  obtain rfl : i = 0 := Nat.lt_one_iff.mp hi
  have hcases : v = 0 ∨ v = 1 := by
    have hlt : v < 2 := hv
    omega
  rcases hcases with rfl | rfl
  · change readLe pairMem 0x50100120 8 = 0x50000000
    unfold pairMem
    rw [readLe_congr (agree_writeLe (by decide)), readLe_writeLe]
    rfl
  · change readLe pairMem 0x50101120 8 = 0x50001000
    unfold pairMem
    rw [readLe_writeLe]
    rfl

end Avisor
