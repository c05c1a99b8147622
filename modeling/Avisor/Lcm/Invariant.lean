import Avisor.Lcm.Spec

/-!
# Snapshots stay intact

As long as every checkpoint has room in the pool and every restore stays in its VM's memory and
loads one of the VM's own snapshots, the snapshots lie one behind the other as they were taken, and
each `struct vcpu` knows its VM. The walk of `get_ss_by_id` then comes by every snapshot.
-/

namespace Avisor

open Function Memory

variable {cfg : LcmConfig} {x y : LcmRun} {v : VmId} {i a n last : Nat} {e : Taken} {es : List Taken}
  {mem mem' : Memory}

/-- What a restore of VM `v` loads is a snapshot of `v`. -/
def LoadsOwn (x : LcmRun) (v : VmId) (arg0 : Nat) : Prop :=
  ∀ ss, ssToRestore x.state arg0 = .load ss → ∃ e ∈ x.taken, e.vm = v ∧ e.ss = ss

/-- The steps that keep to their own memory and snapshots. -/
def KeepsApart (cfg : LcmConfig) (x : LcmRun) : LcmAction → Prop
  | .checkpoint v _ par => CheckpointFits cfg x v par
  | .restore v _ par arg0 =>
    par = some (cfg.pa v) ∧ (cfg.vm v).dmemSize ≤ (cfg.vm v).size ∧ LoadsOwn x v arg0
  | _ => True

theorem Laid.base_le (h : Laid cfg es last) : cfg.ssPoolBase ≤ last := by
  induction es generalizing last with
  | nil => exact Nat.le_of_eq (Eq.symm h)
  | cons e es ih =>
    have hbase := ih h.2
    have hlast := h.1
    omega

/-- Every snapshot ends at or below the end of the last one. -/
theorem Laid.le_last (h : Laid cfg es last) (he : e ∈ es) : e.ss + cfg.ssLen e.vm ≤ last := by
  induction es generalizing last with
  | nil => cases he
  | cons d es ih =>
    have hlast := h.1
    cases he with
    | head => omega
    | tail _ hmem =>
      have hle := ih h.2 hmem
      omega

/-- A store to a byte of a VM's memory is not to the field `vm` of a vCPU. -/
theorem readLe_vm_guestWrite {w : VmId} {j off : Nat} {byte : BitVec 8} (hv : v < cfg.nrVms)
    (hoff : off < (cfg.vm v).memSize) (hw : w < cfg.nrVms) (hj : j < cfg.nrCpus w) :
    readLe (update mem (cfg.pa v + off) byte) (cfg.vcpuAddr w j + cfg.vcpuVmOff) 8 =
      readLe mem (cfg.vcpuAddr w j + cfg.vcpuVmOff) 8 := by
  have hregs := cfg.sizeofVcpu_le
  have hapart : Apart (cfg.pa v) (cfg.vm v).memSize (cfg.vcpuAddr w j + cfg.vcpuVmOff) 8 :=
    (cfg.memory_vcpu v hv w hw j hj).mono (Nat.le_refl _) (Nat.le_refl _) (by omega)
      (by unfold LcmConfig.vcpuVmOff; omega)
  refine readLe_congr fun b hle hlt => update_of_ne ?_ _ _
  have hout := hapart.out hle hlt
  omega

/-- Nor is a store to another field of a vCPU. -/
theorem readLe_vm_vcpuWrite {w : VmId} {j off : Nat} {byte : BitVec 8} (hv : v < cfg.nrVms)
    (hi : i < cfg.nrCpus v) (hoff : off < cfg.vcpuVmOff) (hw : w < cfg.nrVms) (hj : j < cfg.nrCpus w) :
    readLe (update mem (cfg.vcpuAddr v i + off) byte) (cfg.vcpuAddr w j + cfg.vcpuVmOff) 8 =
      readLe mem (cfg.vcpuAddr w j + cfg.vcpuVmOff) 8 := by
  have hregs := cfg.sizeofVcpu_le
  have hvmOff : cfg.vcpuVmOff = cfg.sizeofVcpu - 8 := rfl
  have hapart : Apart (cfg.vcpuAddr v i) cfg.vcpuVmOff (cfg.vcpuAddr w j + cfg.vcpuVmOff) 8 := by
    by_cases hsame : (v, i) = (w, j)
    · cases hsame
      exact .inl (Nat.le_refl _)
    · exact (cfg.vcpu_vcpu v hv i hi w hw j hj hsame).mono (Nat.le_refl _) (by omega) (by omega)
        (by omega)
  refine readLe_congr fun b hle hlt => update_of_ne ?_ _ _
  have hout := hapart.out hle hlt
  omega

namespace LcmWf

/-- Stores outside the pool and the fields `vm` keep everything. -/
theorem congr (h : LcmWf cfg x) (htaken : y.taken = x.taken)
    (hpool : y.state.ssPool = x.state.ssPool) (hlatest : y.state.latestSs = x.state.latestSs)
    (hvm : ∀ v < cfg.nrVms, ∀ i < cfg.nrCpus v,
      readLe y.state.mem (cfg.vcpuAddr v i + cfg.vcpuVmOff) 8 = cfg.vmAddr v)
    (hagree : ∀ a n, cfg.ssPoolBase ≤ a → a + n ≤ cfg.ssPoolEnd →
      Agree y.state.mem x.state.mem a n) : LcmWf cfg y := by
  have hnext : y.state.nextSs cfg = x.state.nextSs cfg := by
    unfold LcmState.nextSs
    rw [hpool]
  refine ⟨hvm, hpool ▸ h.pool, ?_, ?_, ?_, fun e he => ?_⟩
  · rw [hpool, htaken]
    exact h.noPool
  · rw [htaken, hnext]
    exact h.laid
  · rw [htaken, hlatest]
    exact h.latest
  · rw [htaken] at he
    have hentry := h.entry e he
    exact hentry.congr (hagree _ _ hentry.base_le hentry.len_le)

/-- A store to a byte of a VM's memory. -/
theorem guestWrite (h : LcmWf cfg x) (hv : v < cfg.nrVms) {off : Nat} (hoff : off < (cfg.vm v).memSize)
    {byte : BitVec 8} : LcmWf cfg { x with state :=
      { x.state with mem := update x.state.mem (cfg.pa v + off) byte } } := by
  refine h.congr rfl rfl rfl (fun w hw j hj => ?_) fun a n hle hend b hb hlt => update_of_ne ?_ _ _
  · rw [← h.vcpu_vm w hw j hj]
    exact readLe_vm_guestWrite hv hoff hw hj
  · have hout := (cfg.apart_memory hv hle hend).out hb hlt
    omega

/-- A store to a field of a `struct vcpu` other than `vm`. -/
theorem vcpuWrite (h : LcmWf cfg x) (hv : v < cfg.nrVms) (hi : i < cfg.nrCpus v) {off : Nat}
    (hoff : off < cfg.vcpuVmOff) {byte : BitVec 8} : LcmWf cfg { x with state :=
      { x.state with mem := update x.state.mem (cfg.vcpuAddr v i + off) byte } } := by
  have hvmOff : cfg.vcpuVmOff = cfg.sizeofVcpu - 8 := rfl
  refine h.congr rfl rfl rfl (fun w hw j hj => ?_) fun a n hle hend b hb hlt => update_of_ne ?_ _ _
  · rw [← h.vcpu_vm w hw j hj]
    exact readLe_vm_vcpuWrite hv hi hoff hw hj
  · have hout := (cfg.apart_vcpu hv hi hle hend).out hb hlt
    omega

/-- Stores to the memory of VM `v` and to the registers of its vCPU `i`. -/
theorem ownStores (h : LcmWf cfg x) (hv : v < cfg.nrVms) (hi : i < cfg.nrCpus v)
    (hagree : ∀ a n, Apart (cfg.pa v) (cfg.vm v).memSize a n →
      Apart (cfg.vcpuAddr v i + vcpuRegsOff) sizeofVcpuRegs a n → Agree mem x.state.mem a n) :
    LcmWf cfg { x with state := { x.state with mem := mem } } := by
  have hregs := cfg.sizeofVcpu_le
  have hvmOff : cfg.vcpuVmOff = cfg.sizeofVcpu - 8 := rfl
  have hoff : vcpuRegsOff = 16 := rfl
  have hsize : sizeofVcpuRegs = 272 := rfl
  refine h.congr rfl rfl rfl (fun w hw j hj => ?_) fun a n hle hend => ?_
  · rw [← h.vcpu_vm w hw j hj]
    apply readLe_congr
    apply hagree
    · exact (cfg.memory_vcpu v hv w hw j hj).mono (Nat.le_refl _) (Nat.le_refl _) (by omega)
        (by omega)
    · by_cases hsame : (v, i) = (w, j)
      · cases hsame
        exact .inl (by omega)
      · exact (cfg.vcpu_vcpu v hv i hi w hw j hj hsame).mono (by omega) (by omega) (by omega)
          (by omega)
  · apply hagree
    · exact cfg.apart_memory hv hle hend
    · exact (cfg.apart_vcpu hv hi hle hend).mono (by omega) (by omega) (Nat.le_refl _)
        (Nat.le_refl _)

/-- The memory after VM `v` loads one of its own snapshots to its vCPU `i`. -/
def loaded (cfg : LcmConfig) (mem : Memory) (v : VmId) (i ss : Nat) : Memory :=
  copy (copy mem (cfg.vcpuAddr v i) (ss + 24) cfg.sizeofVcpu) (cfg.pa v)
    (ss + sizeofSnapshot cfg.sizeofVcpu) ((cfg.vm v).dmemSize + (cfg.vm v).dmemSize)

theorem agree_loaded {ss : Nat} (hsize : (cfg.vm v).dmemSize ≤ (cfg.vm v).size)
    (hmemory : Apart (cfg.pa v) (cfg.vm v).memSize a n)
    (hvcpu : Apart (cfg.vcpuAddr v i) cfg.sizeofVcpu a n) :
    Agree (loaded cfg mem v i ss) mem a n := by
  have hmemSize : (cfg.vm v).memSize = (cfg.vm v).size + (cfg.vm v).dmemSize := rfl
  refine (agree_copy ?_).trans (agree_copy hvcpu)
  exact hmemory.mono (Nat.le_refl _) (by omega) (Nat.le_refl _) (Nat.le_refl _)

theorem load (h : LcmWf cfg x) (hv : v < cfg.nrVms) (hi : i < cfg.nrCpus v)
    (hsize : (cfg.vm v).dmemSize ≤ (cfg.vm v).size) (he : e ∈ x.taken) (hev : e.vm = v) :
    LcmWf cfg { x with state := { x.state with mem := loaded cfg x.state.mem v i e.ss } } := by
  have hentry := h.entry e he
  have hregs := cfg.sizeofVcpu_le
  have hvmOff : cfg.vcpuVmOff = cfg.sizeofVcpu - 8 := rfl
  have hmemSize : (cfg.vm v).memSize = (cfg.vm v).size + (cfg.vm v).dmemSize := rfl
  subst hev
  refine h.congr rfl rfl rfl (fun w hw j hj => ?_) fun a n hle hend =>
    agree_loaded hsize (cfg.apart_memory hv hle hend) (cfg.apart_vcpu hv hi hle hend)
  by_cases hsame : (e.vm, i) = (w, j)
  · -- the field `vm` comes from the snapshot, which has it from a vCPU of the same VM
    cases hsame
    rw [← hentry.vcpu_vm]
    have hbytes : ∀ b < 8, loaded cfg x.state.mem e.vm i e.ss
        (cfg.vcpuAddr e.vm i + cfg.vcpuVmOff + b) =
          e.mem (cfg.vcpuAddr e.vm e.idx + cfg.vcpuVmOff + b) := by
      intro b hb
      have hout : Apart (cfg.pa e.vm) ((cfg.vm e.vm).dmemSize + (cfg.vm e.vm).dmemSize)
          (cfg.vcpuAddr e.vm i) cfg.sizeofVcpu :=
        (cfg.memory_vcpu e.vm hv e.vm hv i hi).mono (Nat.le_refl _) (by omega) (Nat.le_refl _)
          (Nat.le_refl _)
      unfold loaded
      rw [agree_copy hout _ (by omega) (by omega), Nat.add_assoc, copy_apply (by omega),
        hentry.intact.vcpu _ (by omega), Nat.add_assoc]
    rw [readLe_of_bytes (v := readLe e.mem (cfg.vcpuAddr e.vm e.idx + cfg.vcpuVmOff) 8)
      fun b hb => (hbytes b hb).trans (ofNat_readLe _ _ _ _ hb).symm]
    exact Nat.mod_eq_of_lt (readLe_lt _ _ _)
  · rw [← h.vcpu_vm w hw j hj]
    apply readLe_congr
    apply agree_loaded hsize
    · exact (cfg.memory_vcpu e.vm hv w hw j hj).mono (Nat.le_refl _) (Nat.le_refl _) (by omega)
        (by omega)
    · exact (cfg.vcpu_vcpu e.vm hv i hi w hw j hj hsame).mono (by omega) (by omega) (by omega)
        (by omega)

/-- A checkpoint that fits adds its snapshot behind the others. -/
theorem checkpoint (h : LcmWf cfg x) (hv : v < cfg.nrVms) (hi : i < cfg.nrCpus v)
    (hfit : x.state.nextSs cfg + cfg.ssExtent v ≤ cfg.ssPoolEnd) {t : LcmState}
    (ht : Checkpointed cfg x.state t v i (x.state.nextSs cfg)) :
    LcmWf cfg ⟨t, ⟨v, i, t.latestSs, x.state.mem⟩ :: x.taken⟩ := by
  have hlaid := h.laid
  have hbase := hlaid.base_le
  have hregs := cfg.sizeofVcpu_le
  have hvmOff : cfg.vcpuVmOff = cfg.sizeofVcpu - 8 := rfl
  have hoff : vcpuRegsOff = 16 := rfl
  have hsize : sizeofVcpuRegs = 272 := rfl
  rw [ht.latestSs]
  generalize hss : x.state.nextSs cfg = ss at *
  refine ⟨fun w hw j hj => ?_, fun pool hpool => ?_, fun hnone => ?_, ?_, ht.latestSs, ?_⟩
  · rw [← h.vcpu_vm w hw j hj]
    apply readLe_congr
    apply ht.frame
    · exact (cfg.apart_vcpu hw hj hbase hfit).symm.mono (Nat.le_refl _) (Nat.le_refl _) (by omega)
        (by omega)
    · by_cases hsame : (v, i) = (w, j)
      · cases hsame
        exact .inl (by omega)
      · exact (cfg.vcpu_vcpu v hv i hi w hw j hj hsame).mono (by omega) (by omega) (by omega)
          (by omega)
  · rw [ht.ssPool] at hpool
    cases hpool
    exact ⟨rfl, rfl⟩
  · rw [ht.ssPool] at hnone
    cases hnone
  · constructor
    · change t.nextSs cfg = ss + cfg.ssLen v
      unfold LcmState.nextSs
      rw [ht.ssPool]
    · exact hlaid
  · intro e he
    cases he with
    | head => exact ⟨hv, hi, hbase, hfit, h.vcpu_vm v hv i hi, ht.intact⟩
    | tail _ hmem =>
      -- the older snapshots end where the new one starts
      have hentry := h.entry e hmem
      have hbelow := hlaid.le_last hmem
      refine hentry.congr (ht.frame _ _ (.inr hbelow) ?_)
      exact (cfg.apart_vcpu hv hi hentry.base_le hentry.len_le).mono (by omega) (by omega)
        (Nat.le_refl _) (Nat.le_refl _)

theorem first (h : LcmWf cfg x) {first : Bool} :
    LcmWf cfg { x with state := { x.state with first := first } } :=
  h.congr rfl rfl rfl h.vcpu_vm fun _ _ _ _ => .refl _ _ _

/-- Every step that keeps apart keeps the snapshots as they are. -/
theorem step (h : LcmWf cfg x) {a : LcmAction} (hkeeps : KeepsApart cfg x a)
    (hstep : (lcmMachine cfg).step x a = some y) : LcmWf cfg y := by
  cases a with
  | checkpoint v i par =>
    obtain ⟨rfl, hfit⟩ := hkeeps
    obtain ⟨⟨hv, hi⟩, hstep⟩ := Option.ite_none_right_eq_some.mp hstep
    obtain ⟨t, ht, hspec⟩ := checkpoint_spec hv hi (h.vcpu_vm v hv i hi) h.pool rfl
      h.laid.base_le hfit
    rw [ht] at hstep
    cases hstep
    exact h.checkpoint hv hi hfit hspec
  | restore v i par arg0 =>
    obtain ⟨rfl, hsize, hown⟩ := hkeeps
    obtain ⟨⟨hv, hi⟩, hstep⟩ := Option.ite_none_right_eq_some.mp hstep
    have hvm := h.vcpu_vm v hv i hi
    unfold restoreSnapshotHanlder at hstep
    cases hchoice : ssToRestore x.state arg0 with
    | restart =>
      obtain ⟨mem, hrestart, hagree⟩ := restart_spec (s := x.state) hv hsize hvm
      rw [hchoice] at hstep
      dsimp only at hstep
      rw [hrestart] at hstep
      cases hstep
      exact h.ownStores hv hi hagree
    | load ss =>
      obtain ⟨e, he, hev, rfl⟩ := hown ss hchoice
      have hentry := h.entry e he
      have hload := restoreBySs_spec (s := x.state) hv hi hsize hvm hentry.base_le
        (hev ▸ hentry.len_le)
      rw [hchoice] at hstep
      dsimp only at hstep
      rw [hload] at hstep
      have hloaded := h.load hv hi hsize he hev
      cases hstep
      dsimp only
      by_cases hlatest : arg0 = sizeMax
      · rw [if_pos hlatest]
        exact hloaded
      · rw [if_neg hlatest]
        exact hloaded.first
    | halt =>
      rw [hchoice] at hstep
      cases hstep
  | guestWrite v off byte =>
    obtain ⟨⟨hv, hoff⟩, hstep⟩ := Option.ite_none_right_eq_some.mp hstep
    cases hstep
    exact h.guestWrite hv hoff
  | vcpuWrite v i off byte =>
    obtain ⟨⟨hv, hi, hoff⟩, hstep⟩ := Option.ite_none_right_eq_some.mp hstep
    cases hstep
    exact h.vcpuWrite hv hi hoff

theorem init (h : (lcmMachine cfg).Init x) : LcmWf cfg x := by
  have hboot : LcmBoot cfg x := h
  refine ⟨hboot.vcpu_vm, fun pool hpool => ?_, fun _ => hboot.taken, ?_, ?_, fun e he => ?_⟩
  · rw [hboot.ssPool] at hpool
    cases hpool
  · rw [hboot.taken]
    unfold LcmState.nextSs
    rw [hboot.ssPool]
    exact rfl
  · rw [hboot.taken, hboot.latestSs]
    rfl
  · rw [hboot.taken] at he
    cases he

end LcmWf

/-! ### The walk of `get_ss_by_id` -/

/-- The hops over the older snapshots lead to the end of the last of them. -/
theorem ssWalk_laid (mem : Memory) (limit id fuel : Nat) (hlaid : Laid cfg es last) (hlast : last ≤ limit)
    (hlt : last < sizeT) (hfuel : es.length ≤ fuel) (hid : es.length ≤ id)
    (hintact : ∀ e ∈ es, readLe mem (e.ss + 8) 8 = cfg.ssLen e.vm) :
    ssWalk mem limit id fuel 0 cfg.ssPoolBase =
      ssWalk mem limit id (fuel - es.length) es.length last := by
  induction es generalizing last with
  | nil =>
    obtain rfl : last = cfg.ssPoolBase := hlaid
    rfl
  | cons e es ih =>
    obtain ⟨hsum, hlaid⟩ := hlaid
    simp only [List.length_cons] at hfuel hid ⊢
    rw [ih hlaid (by omega) (by omega) (by omega) (by omega) fun d hd => hintact d (.tail e hd)]
    obtain ⟨k, hk⟩ : ∃ k, fuel - es.length = k + 1 := ⟨fuel - es.length - 1, by omega⟩
    rw [hk, ssWalk, hintact e (.head es), ← hsum, Nat.mod_eq_of_lt hlt]
    rw [if_pos ⟨by omega, hlast⟩]
    congr 1
    omega

theorem ssWalk_fst_le {limit id fuel ss : Nat} : (ssWalk mem limit id fuel i ss).1 ≤ i + fuel := by
  induction fuel generalizing i ss with
  | zero => exact Nat.le_refl _
  | succ fuel ih =>
    rw [ssWalk]
    by_cases hpass : i < id ∧ (ss + readLe mem (ss + 8) 8) % sizeT ≤ limit
    · rw [if_pos hpass]
      have hle : (ssWalk mem limit id fuel (i + 1) ((ss + readLe mem (ss + 8) 8) % sizeT)).1 ≤
          i + 1 + fuel := ih
      omega
    · rw [if_neg hpass]
      omega

theorem ssWalk_self {limit id fuel ss : Nat} : ssWalk mem limit id fuel id ss = (id, ss) := by
  cases fuel with
  | zero => rfl
  | succ fuel =>
    rw [ssWalk]
    rw [if_neg fun h => absurd h.1 (Nat.lt_irrefl _)]

/-- The snapshot that was taken as number `id`. -/
def LcmRun.byId (x : LcmRun) (id : Nat) : Option Taken :=
  x.taken.reverse[id]?

theorem LcmRun.byId_eq_some {id : Nat} (h : x.byId id = some e) :
    ∃ pre es, x.taken = pre ++ e :: es ∧ es.length = id := by
  unfold LcmRun.byId at h
  have hlt : id < x.taken.length := by
    have hbound := (List.getElem?_eq_some_iff.mp h).1
    rwa [List.length_reverse] at hbound
  have hget := (List.getElem?_eq_some_iff.mp h).2
  rw [List.getElem_reverse] at hget
  refine ⟨x.taken.take (x.taken.length - 1 - id), x.taken.drop (x.taken.length - 1 - id + 1), ?_, ?_⟩
  · rw [← hget, ← List.drop_eq_getElem_cons, List.take_append_drop]
  · rw [List.length_drop]
    omega

theorem LcmRun.mem_of_byId {id : Nat} (h : x.byId id = some e) : e ∈ x.taken := by
  obtain ⟨pre, es, htaken, -⟩ := LcmRun.byId_eq_some h
  rw [htaken]
  exact List.mem_append_right pre (.head es)

theorem Laid.suffix {pre : List Taken} (h : Laid cfg (pre ++ es) last) :
    ∃ mid ≤ last, Laid cfg es mid := by
  induction pre generalizing last with
  | nil => exact ⟨last, Nat.le_refl _, h⟩
  | cons d pre ih =>
    obtain ⟨mid, hle, hmid⟩ := ih h.2
    have hlast := h.1
    exact ⟨mid, by omega, hmid⟩

/-- `get_ss_by_id` finds the snapshots by their numbers, as long as these are values of an `int`. -/
theorem LcmWf.getSsById {id : Nat} (h : LcmWf cfg x) (he : x.byId id = some e)
    (hid : id ≤ intMax) : getSsById x.state id = some e.ss := by
  obtain ⟨pre, es, htaken, hlen⟩ := LcmRun.byId_eq_some he
  cases hpool : x.state.ssPool with
  | none =>
    rw [h.noPool hpool] at htaken
    simp at htaken
  | some pool =>
    obtain ⟨hbase, hsize⟩ := h.pool pool hpool
    have hmem : ∀ d ∈ e :: es, d ∈ x.taken := fun d hd => htaken ▸ List.mem_append_right pre hd
    have hlaid := h.laid
    rw [htaken] at hlaid
    obtain ⟨mid, -, -, hlaid⟩ := hlaid.suffix
    have hentry := h.entry e (hmem e (.head es))
    have hend : cfg.ssPoolEnd ≤ cfg.ssPoolBase + cfg.ssPoolSize := Nat.min_le_right _ _
    have hlimit := cfg.ssPoolLimit_lt
    have hin := hentry.len_le
    have hwalk := ssWalk_laid x.state.mem (cfg.ssPoolBase + cfg.ssPoolSize) id id hlaid (by omega) (by omega)
      (by omega) (by omega) fun d hd => (h.entry d (hmem d (.tail e hd))).intact.size
    rw [hlen, ssWalk_self] at hwalk
    unfold Avisor.getSsById
    rw [hpool]
    simp only [Option.bind_eq_bind, Option.bind_some, hbase, hsize]
    rw [Nat.mod_eq_of_lt hlimit, Nat.min_eq_left hid, hwalk, if_pos rfl]

end Avisor
