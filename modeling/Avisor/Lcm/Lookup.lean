import Avisor.Lcm.Room

/-!
# Looking up a snapshot

`get_ss_by_id` hops from snapshot to snapshot by the sizes recorded in them, up to the end of the pool, and
not up to the last snapshot. What it comes to is told apart here by its branches, together with the
snapshots whose size it reads on the way.
-/

namespace Avisor

open Function Memory

/-- What `get_ss_by_id` comes to: a pointer, its `ERROR`, or neither, at an address that has no memory or with
an `int` that overflows. -/
inductive Lookup
  | found (ss : Nat)
  | invalid
  | undefined
  deriving DecidableEq, Repr

/-- The addresses of what the inner loop of `get_ss_by_id` takes for snapshots and reads the size of. -/
def ssWalkReads (mem : Memory) (limit id : Nat) : Nat → Nat → Nat → List Nat
  | 0, _, _ => []
  | fuel + 1, i, ss =>
    if i < id then
      let next := (ss + readLe mem (ss + 8) 8) % sizeT
      ss :: if next ≤ limit then ssWalkReads mem limit id fuel (i + 1) next else []
    else []

section

variable (s : LcmState) (id : Nat)

/-- `get_ss_by_id`, by the branch it takes. The hop at `INT_MAX` is the one that overflows. -/
def lookupSs : Lookup :=
  match s.ssPool with
  | none => .undefined
  | some pool =>
    let limit := (pool.base + pool.size) % sizeT
    let walk := ssWalk s.mem limit id (min id intMax) 0 pool.base
    if intMax < id ∧ walk.1 = intMax ∧ (walk.2 + readLe s.mem (walk.2 + 8) 8) % sizeT ≤ limit then
      .undefined
    else if id = walk.1 then .found walk.2
    else .invalid

/-- The addresses whose sizes it reads. -/
def lookupReads : List Nat :=
  match s.ssPool with
  | none => []
  | some pool =>
    ssWalkReads s.mem ((pool.base + pool.size) % sizeT) id (min id (intMax + 1)) 0 pool.base

end

/-- The pointer of `get_ss_by_id` is that of the branch that returns one. -/
theorem getSsById_eq_some_iff {s : LcmState} {id ss : Nat} :
    getSsById s id = some ss ↔ lookupSs s id = .found ss := by
  unfold getSsById lookupSs
  cases s.ssPool with
  | none => simp
  | some pool =>
    have hle : (ssWalk s.mem ((pool.base + pool.size) % sizeT) id (min id intMax) 0 pool.base).1 ≤
        0 + min id intMax := ssWalk_fst_le
    simp only [Option.bind_eq_bind, Option.bind_some]
    generalize ssWalk s.mem ((pool.base + pool.size) % sizeT) id (min id intMax) 0 pool.base = walk at *
    by_cases hover : intMax < id ∧ walk.1 = intMax ∧
        (walk.2 + readLe s.mem (walk.2 + 8) 8) % sizeT ≤ (pool.base + pool.size) % sizeT
    · rw [if_pos hover, if_neg (by omega)]
      simp
    · rw [if_neg hover]
      by_cases hid : id = walk.1
      · simp [← hid]
      · simp [hid]

/-- A lookup of a number that was given out returns the snapshot with that number; any other one ends in the
error, and reads no size behind the last snapshot. -/
structure LookupExact (cfg : LcmConfig) (x : LcmRun) (id : Nat) : Prop where
  found : id < x.state.latestSsId →
    ∃ e ∈ x.taken, lookupSs x.state id = .found e.ss ∧ readLe x.state.mem e.ss 8 = id
  invalid : x.state.latestSsId ≤ id → lookupSs x.state id = .invalid ∧
    ∀ ss ∈ lookupReads x.state id, ss + 16 ≤ x.state.nextSs cfg

/-- The snapshot of every checkpoint ends in the pool. -/
def FitsPool (cfg : LcmConfig) (x : LcmRun) : LcmAction → Prop
  | .checkpoint v _ _ => x.state.nextSs cfg + cfg.ssExtent v ≤ cfg.ssPoolEnd
  | _ => True

/-- The headers of the snapshots are as the checkpoints wrote them. -/
structure HeadersWf (cfg : LcmConfig) (x : LcmRun) : Prop where
  vcpu_vm : ∀ v < cfg.nrVms, ∀ i < cfg.nrCpus v,
    readLe x.state.mem (cfg.vcpuAddr v i + cfg.vcpuVmOff) 8 = cfg.vmAddr v
  pool : ∀ pool, x.state.ssPool = some pool →
    pool.base = cfg.ssPoolBase ∧ pool.size = cfg.ssPoolSize
  noPool : x.state.ssPool = none → x.taken = []
  laid : Laid cfg x.taken (x.state.nextSs cfg)
  inside : ∀ e ∈ x.taken, cfg.ssPoolBase ≤ e.ss ∧ e.ss + cfg.ssLen e.vm ≤ cfg.ssPoolEnd
  size : ∀ e ∈ x.taken, readLe x.state.mem (e.ss + 8) 8 = cfg.ssLen e.vm
  count : x.state.latestSsId = x.taken.length
  ssId : ∀ id e, x.byId id = some e → readLe x.state.mem e.ss 8 = id

variable {cfg : LcmConfig} {x y : LcmRun} {v : VmId} {i id : Nat} {e : Taken} {es : List Taken}
  {last : Nat} {mem : Memory}

/-! ### Numbers and sizes in the snapshots -/

private theorem sizeof_le_ssLen (cfg : LcmConfig) (v : VmId) : 24 + cfg.sizeofVcpu ≤ cfg.ssLen v :=
  Nat.le_add_left _ _

theorem Laid.length_le (h : Laid cfg es last) : cfg.ssPoolBase + es.length ≤ last := by
  induction es generalizing last with
  | nil => exact Nat.le_of_eq (Eq.symm h)
  | cons e es ih =>
    have hle := ih h.2
    have hlast := h.1
    have hlen := sizeof_le_ssLen cfg e.vm
    rw [List.length_cons]
    omega

theorem byId_cons (s : LcmState) (e : Taken) (es : List Taken) (id : Nat) :
    LcmRun.byId ⟨s, e :: es⟩ id = if id = es.length then some e else LcmRun.byId ⟨s, es⟩ id := by
  unfold LcmRun.byId
  rw [List.reverse_cons]
  rcases Nat.lt_trichotomy id es.length with hlt | rfl | hgt
  · rw [if_neg (Nat.ne_of_lt hlt), List.getElem?_append_left (by rwa [List.length_reverse])]
  · rw [if_pos rfl, ← List.length_reverse, List.getElem?_concat_length]
  · rw [if_neg (Nat.ne_of_gt hgt), List.getElem?_eq_none, List.getElem?_eq_none]
    · rw [List.length_reverse]
      exact Nat.le_of_lt hgt
    · simp only [List.length_append, List.length_reverse, List.length_singleton]
      omega

theorem exists_byId (h : id < x.taken.length) : ∃ e, x.byId id = some e := by
  unfold LcmRun.byId
  rw [← List.length_reverse] at h
  exact ⟨_, List.getElem?_eq_getElem h⟩

namespace HeadersWf

theorem init (h : LcmBoot cfg x) : HeadersWf cfg x := by
  have hnone {e : Taken} (he : e ∈ x.taken) : False := by
    rw [h.taken] at he
    cases he
  refine ⟨h.vcpu_vm, fun pool hpool => ?_, fun _ => h.taken, ?_, fun e he => (hnone he).elim,
    fun e he => (hnone he).elim, ?_, fun id e hid => (hnone (LcmRun.mem_of_byId hid)).elim⟩
  · rw [h.ssPool] at hpool
    cases hpool
  · rw [h.taken, LcmState.nextSs, h.ssPool]
    exact rfl
  · rw [h.latestSsId, h.taken]
    rfl

/-- Stores outside the pool and the fields `vm` keep the headers. -/
theorem congr (h : HeadersWf cfg x) {mem : Memory}
    (hvm : ∀ v < cfg.nrVms, ∀ i < cfg.nrCpus v,
      readLe mem (cfg.vcpuAddr v i + cfg.vcpuVmOff) 8 = cfg.vmAddr v)
    (hagree : ∀ a n, cfg.ssPoolBase ≤ a → a + n ≤ cfg.ssPoolEnd → Agree mem x.state.mem a n) :
    HeadersWf cfg { x with state := { x.state with mem := mem } } := by
  have hheader {e : Taken} (he : e ∈ x.taken) : Agree mem x.state.mem e.ss 16 := by
    obtain ⟨hbase, hend⟩ := h.inside e he
    have hlen := sizeof_le_ssLen cfg e.vm
    have hregs := cfg.sizeofVcpu_le
    exact hagree _ _ hbase (by omega)
  refine ⟨hvm, h.pool, h.noPool, h.laid, h.inside, fun e he => ?_, h.count, fun id e hid => ?_⟩
  · rw [← h.size e he]
    exact readLe_congr ((hheader he).mono (by omega) (by omega))
  · have he : e ∈ x.taken := LcmRun.mem_of_byId (x := x) hid
    rw [← h.ssId id e hid]
    exact readLe_congr ((hheader he).mono (Nat.le_refl _) (by omega))

/-- A checkpoint that fits adds a header, with the next number, behind the others. -/
theorem checkpoint (h : HeadersWf cfg x) {t : LcmState} {par : Nat} (hv : v < cfg.nrVms)
    (hi : i < cfg.nrCpus v) (hfit : x.state.nextSs cfg + cfg.ssExtent v ≤ cfg.ssPoolEnd)
    (ht : checkpointSnapshotHanlder cfg x.state (cfg.vcpuAddr v i) (some par) = some t) :
    HeadersWf cfg ⟨t, ⟨v, i, t.latestSs, x.state.mem⟩ :: x.taken⟩ := by
  have hlaid := h.laid
  have hbase := hlaid.base_le
  have hlength := hlaid.length_le
  have hend := cfg.ssPoolEnd_lt
  have hregs := cfg.sizeofVcpu_le
  have hhead : cfg.ssPoolBase = cfg.ssPoolPage + 40 := rfl
  have hlen : cfg.ssLen v ≤ cfg.ssExtent v := Nat.le_max_left _ _
  have hwritten : cfg.ssWritten v ≤ cfg.ssExtent v := Nat.le_max_right _ _
  have hlenv := sizeof_le_ssLen cfg v
  have hvcpu {w : VmId} {j : Nat} (hw : w < cfg.nrVms) (hj : j < cfg.nrCpus w) :=
    cfg.apart_vcpu hw hj hbase hfit
  obtain ⟨u, hu, hspec⟩ := checkpoint_writes (p := par) hv (h.vcpu_vm v hv i hi) h.pool rfl
    (by omega) (by omega)
  obtain rfl : t = u := Option.some.inj (ht.symm.trans hu)
  rw [hspec.latestSs]
  generalize hss : x.state.nextSs cfg = ss at *
  have hvmOff : cfg.vcpuVmOff = cfg.sizeofVcpu - 8 := rfl
  have hoff : vcpuRegsOff = 16 := rfl
  have hsize : sizeofVcpuRegs = 272 := rfl
  obtain ⟨hnumber, hlength'⟩ := hspec.header <|
    (hvcpu hv hi).mono (by omega) (by omega) (Nat.le_refl _) (by omega)
  -- the older headers end where the new one starts
  have hold {e : Taken} (he : e ∈ x.taken) : Agree t.mem x.state.mem e.ss 16 := by
    obtain ⟨hbase', hend'⟩ := h.inside e he
    have hbelow := hlaid.le_last he
    have hlene := sizeof_le_ssLen cfg e.vm
    apply hspec.frame
    · exact .inr (by omega)
    · exact (cfg.apart_vcpu hv hi hbase' hend').mono (by omega) (by omega) (Nat.le_refl _) (by omega)
  refine ⟨fun w hw j hj => ?_, fun pool hpool => ?_, fun hnone => ?_, ⟨?_, hlaid⟩, fun e he => ?_,
    fun e he => ?_, ?_, fun id e hid => ?_⟩
  · rw [← h.vcpu_vm w hw j hj]
    apply readLe_congr
    apply hspec.frame
    · exact (hvcpu hw hj).symm.mono (Nat.le_refl _) (by omega) (by omega) (by omega)
    · by_cases hsame : (v, i) = (w, j)
      · cases hsame
        exact .inl (by omega)
      · exact (cfg.vcpu_vcpu v hv i hi w hw j hj hsame).mono (by omega) (by omega) (by omega)
          (by omega)
  · rw [hspec.ssPool] at hpool
    cases hpool
    exact ⟨rfl, rfl⟩
  · rw [hspec.ssPool] at hnone
    cases hnone
  · change t.nextSs cfg = ss + cfg.ssLen v
    rw [LcmState.nextSs, hspec.ssPool]
  · cases he with
    | head => exact ⟨hbase, by dsimp only; omega⟩
    | tail _ he => exact h.inside e he
  · cases he with
    | head => exact hlength'
    | tail _ he =>
      rw [← h.size e he]
      exact readLe_congr ((hold he).mono (by omega) (by omega))
  · change t.latestSsId = x.taken.length + 1
    rw [hspec.latestSsId, h.count, Nat.mod_eq_of_lt (by omega)]
  · rw [byId_cons] at hid
    by_cases hnew : id = x.taken.length
    · rw [if_pos hnew] at hid
      cases hid
      change readLe t.mem ss 8 = id
      rw [hnumber, h.count, hnew, Nat.mod_eq_of_lt (by omega)]
    · rw [if_neg hnew] at hid
      have he : e ∈ x.taken := LcmRun.mem_of_byId (x := ⟨t, x.taken⟩) hid
      rw [← h.ssId id e hid]
      exact readLe_congr ((hold he).mono (Nat.le_refl _) (by omega))

theorem step (h : HeadersWf cfg x) {a : LcmAction} (hfit : FitsPool cfg x a)
    (hstep : (checkpointMachine cfg).step x a = some y) : HeadersWf cfg y := by
  cases a with
  | checkpoint v i par =>
    obtain ⟨⟨hv, hi⟩, hstep⟩ := Option.ite_none_right_eq_some.mp hstep
    obtain ⟨t, ht, rfl⟩ := Option.map_eq_some_iff.mp hstep
    cases par with
    | none =>
      rw [checkpointSnapshotHanlder_none] at ht
      cases ht
    | some p => exact h.checkpoint hv hi hfit ht
  | restore v i par arg0 => cases hstep
  | guestWrite v off byte =>
    obtain ⟨⟨hv, hoff⟩, hstep⟩ := Option.ite_none_right_eq_some.mp hstep
    cases hstep
    refine h.congr (fun w hw j hj => ?_) fun a n hle hend b hb hlt => update_of_ne ?_ _ _
    · rw [← h.vcpu_vm w hw j hj]
      exact readLe_vm_guestWrite hv hoff hw hj
    · have hout := (cfg.apart_memory hv hle hend).out hb hlt
      omega
  | vcpuWrite v i off byte =>
    obtain ⟨⟨hv, hi, hoff⟩, hstep⟩ := Option.ite_none_right_eq_some.mp hstep
    cases hstep
    refine h.congr (fun w hw j hj => ?_) fun a n hle hend b hb hlt => update_of_ne ?_ _ _
    · rw [← h.vcpu_vm w hw j hj]
      exact readLe_vm_vcpuWrite hv hi hoff hw hj
    · have hvmOff : cfg.vcpuVmOff = cfg.sizeofVcpu - 8 := rfl
      have hout := (cfg.apart_vcpu hv hi hle hend).out hb hlt
      omega

end HeadersWf

/-! ### The walk over them -/

/-- The reads of the hops that are left behind the older snapshots are among those of the walk. -/
theorem ssWalkReads_laid {limit fuel ss : Nat} (hlaid : Laid cfg es last) (hlast : last ≤ limit)
    (hlt : last < sizeT) (hfuel : es.length ≤ fuel) (hid : es.length ≤ id)
    (hsize : ∀ e ∈ es, readLe mem (e.ss + 8) 8 = cfg.ssLen e.vm)
    (hss : ss ∈ ssWalkReads mem limit id (fuel - es.length) es.length last) :
    ss ∈ ssWalkReads mem limit id fuel 0 cfg.ssPoolBase := by
  induction es generalizing last with
  | nil =>
    obtain rfl : last = cfg.ssPoolBase := hlaid
    exact hss
  | cons e es ih =>
    obtain ⟨hsum, hlaid⟩ := hlaid
    simp only [List.length_cons] at hfuel hid hss
    refine ih hlaid (by omega) (by omega) (by omega) (by omega) (fun d hd => hsize d (.tail e hd)) ?_
    obtain ⟨k, hk⟩ : ∃ k, fuel - es.length = k + 1 := ⟨fuel - es.length - 1, by omega⟩
    rw [hk, ssWalkReads, if_pos (by omega), hsize e (.head es), ← hsum, Nat.mod_eq_of_lt hlt]
    refine List.mem_cons_of_mem _ ?_
    rwa [if_pos hlast, show k = fuel - (es.length + 1) by omega]

namespace HeadersWf

/-- The part of the state that the walk depends on, once there is a pool. -/
theorem limit_eq (h : HeadersWf cfg x) {pool : SnapshotPool} (hpool : x.state.ssPool = some pool) :
    pool.base = cfg.ssPoolBase ∧
      (pool.base + pool.size) % sizeT = cfg.ssPoolBase + cfg.ssPoolSize := by
  obtain ⟨hbase, hsize⟩ := h.pool pool hpool
  rw [hbase, hsize]
  exact ⟨rfl, Nat.mod_eq_of_lt cfg.ssPoolLimit_lt⟩

theorem nextSs_le (h : HeadersWf cfg x) : x.state.nextSs cfg ≤ cfg.ssPoolBase + cfg.ssPoolSize := by
  have hend : cfg.ssPoolEnd ≤ cfg.ssPoolBase + cfg.ssPoolSize := Nat.min_le_right _ _
  have hlaid := h.laid
  cases htaken : x.taken with
  | nil =>
    rw [htaken] at hlaid
    have hbase : x.state.nextSs cfg = cfg.ssPoolBase := hlaid
    omega
  | cons e es =>
    rw [htaken] at hlaid
    have hin := (h.inside e (by simp [htaken])).2
    have hlast := hlaid.1
    omega

/-- A snapshot that is number `id`, and the ones in front of it. -/
theorem split (h : HeadersWf cfg x) (hid : x.byId id = some e) :
    ∃ es, es.length = id ∧ Laid cfg es e.ss ∧ e ∈ x.taken ∧ ∀ d ∈ es, d ∈ x.taken := by
  obtain ⟨pre, es, htaken, hlen⟩ := LcmRun.byId_eq_some hid
  have hlaid := h.laid
  rw [htaken] at hlaid
  obtain ⟨mid, -, -, hlaid⟩ := hlaid.suffix
  have hmem (d) (hd : d ∈ e :: es) : d ∈ x.taken := htaken ▸ List.mem_append_right pre hd
  exact ⟨es, hlen, hlaid, hmem e (.head es), fun d hd => hmem d (.tail e hd)⟩

/-- The walk comes by the snapshot number `k`, if it takes that many hops. -/
theorem walk_eq (h : HeadersWf cfg x) {k fuel : Nat} (he : x.byId k = some e) (hfuel : k ≤ fuel)
    (hid : k ≤ id) : ssWalk x.state.mem (cfg.ssPoolBase + cfg.ssPoolSize) id fuel 0 cfg.ssPoolBase =
      ssWalk x.state.mem (cfg.ssPoolBase + cfg.ssPoolSize) id (fuel - k) k e.ss := by
  obtain ⟨es, rfl, hlaid, hin, hmem⟩ := h.split he
  have hle := (h.inside e hin).2
  have hlimit : cfg.ssPoolEnd ≤ cfg.ssPoolBase + cfg.ssPoolSize := Nat.min_le_right _ _
  have hlt := cfg.ssPoolEnd_lt
  exact ssWalk_laid _ _ _ _ hlaid (by omega) (by omega) hfuel hid fun d hd => h.size d (hmem d hd)

theorem lookup_found (h : HeadersWf cfg x) (he : x.byId id = some e) (hid : id ≤ intMax) :
    lookupSs x.state id = .found e.ss := by
  have hin := LcmRun.mem_of_byId he
  unfold lookupSs
  cases hpool : x.state.ssPool with
  | none =>
    rw [h.noPool hpool] at hin
    cases hin
  | some pool =>
    obtain ⟨hbase, hlimit⟩ := h.limit_eq hpool
    dsimp only
    rw [hlimit, hbase, Nat.min_eq_left hid, h.walk_eq he (Nat.le_refl _) (Nat.le_refl _), ssWalk_self]
    rw [if_neg fun hover => absurd hover.1 (Nat.not_lt_of_le hid), if_pos rfl]

/-- A number past `INT_MAX` makes the counter overflow, where there are as many snapshots. -/
theorem lookup_overflow (h : HeadersWf cfg x) (he : x.byId intMax = some e) (hid : intMax < id) :
    lookupSs x.state id = .undefined := by
  have hin := LcmRun.mem_of_byId he
  unfold lookupSs
  cases hpool : x.state.ssPool with
  | none => rfl
  | some pool =>
    obtain ⟨hbase, hlimit⟩ := h.limit_eq hpool
    have hle := (h.inside e hin).2
    have hend : cfg.ssPoolEnd ≤ cfg.ssPoolBase + cfg.ssPoolSize := Nat.min_le_right _ _
    have hlt := cfg.ssPoolEnd_lt
    dsimp only
    rw [hlimit, hbase, Nat.min_eq_right (Nat.le_of_lt hid),
      h.walk_eq he (Nat.le_refl _) (Nat.le_of_lt hid), Nat.sub_self, ssWalk]
    dsimp only
    rw [h.size e hin, Nat.mod_eq_of_lt (by omega), if_pos ⟨hid, rfl, by omega⟩]

/-- The number behind the last one is found, where the next snapshot would start. -/
theorem lookup_next (h : HeadersWf cfg x) (hsome : x.state.ssPool ≠ none)
    (hid : x.taken.length ≤ intMax) :
    lookupSs x.state x.taken.length = .found (x.state.nextSs cfg) := by
  unfold lookupSs
  cases hpool : x.state.ssPool with
  | none => exact absurd hpool hsome
  | some pool =>
    obtain ⟨hbase, hlimit⟩ := h.limit_eq hpool
    have hlt := cfg.ssPoolLimit_lt
    have hle := h.nextSs_le
    have hwalk := ssWalk_laid x.state.mem (cfg.ssPoolBase + cfg.ssPoolSize) x.taken.length x.taken.length
      h.laid hle (by omega) (Nat.le_refl _) (Nat.le_refl _) h.size
    dsimp only
    rw [hlimit, hbase, Nat.min_eq_left hid, hwalk, ssWalk_self]
    rw [if_neg fun hover => absurd hover.1 (Nat.not_lt_of_le hid), if_pos rfl]

/-- A larger number makes it read the size of a snapshot that is not there. -/
theorem reads_next (h : HeadersWf cfg x) (hsome : x.state.ssPool ≠ none)
    (hcount : x.taken.length ≤ intMax) (hid : x.taken.length < id) :
    x.state.nextSs cfg ∈ lookupReads x.state id := by
  unfold lookupReads
  cases hpool : x.state.ssPool with
  | none => exact absurd hpool hsome
  | some pool =>
    obtain ⟨hbase, hlimit⟩ := h.limit_eq hpool
    have hlt := cfg.ssPoolLimit_lt
    have hle := h.nextSs_le
    dsimp only
    rw [hlimit, hbase]
    refine ssWalkReads_laid h.laid hle (by omega) (by omega) (by omega) h.size ?_
    obtain ⟨k, hk⟩ : ∃ k, min id (intMax + 1) - x.taken.length = k + 1 :=
      ⟨min id (intMax + 1) - x.taken.length - 1, by omega⟩
    rw [hk, ssWalkReads, if_pos hid]
    exact List.mem_cons_self

/-- A lookup is exact for the numbers that were given out, as far as an `int` holds them. -/
theorem lookupExact_iff (h : HeadersWf cfg x) :
    LookupExact cfg x id ↔ id < x.state.latestSsId ∧ id ≤ intMax := by
  have hcount := h.count
  constructor
  · intro hexact
    rcases Nat.lt_or_ge id x.state.latestSsId with hlt | hge
    · refine ⟨hlt, Nat.le_of_not_lt fun hover => ?_⟩
      obtain ⟨e, -, hfound, -⟩ := hexact.found hlt
      obtain ⟨d, hd⟩ : ∃ d, x.byId intMax = some d := exists_byId (by omega)
      rw [h.lookup_overflow hd hover] at hfound
      cases hfound
    · exfalso
      obtain ⟨hinvalid, hreads⟩ := hexact.invalid hge
      cases hpool : x.state.ssPool with
      | none =>
        rw [lookupSs, hpool] at hinvalid
        cases hinvalid
      | some pool =>
        have hsome : x.state.ssPool ≠ none := by simp [hpool]
        rcases Nat.lt_or_ge intMax x.taken.length with hmany | hfew
        · obtain ⟨d, hd⟩ := exists_byId (x := x) hmany
          rw [h.lookup_overflow hd (by omega)] at hinvalid
          cases hinvalid
        · rcases Nat.eq_or_lt_of_le (hcount ▸ hge) with rfl | hgt
          · rw [h.lookup_next hsome hfew] at hinvalid
            cases hinvalid
          · have hread := hreads _ (h.reads_next hsome hfew hgt)
            omega
  · rintro ⟨hlt, hid⟩
    refine ⟨fun _ => ?_, fun hge => absurd hlt (Nat.not_lt_of_le hge)⟩
    obtain ⟨e, he⟩ : ∃ e, x.byId id = some e := exists_byId (by omega)
    exact ⟨e, LcmRun.mem_of_byId he, h.lookup_found he hid, h.ssId id e he⟩

end HeadersWf

/-- Behind the first checkpoint, number 1 is found. -/
theorem LcmBoot.not_exact_next {par : Option Nat} (h : LcmBoot cfg x) (hv : v < cfg.nrVms)
    (hi : i < cfg.nrCpus v) (hfit : CheckpointFits cfg x v par) :
    ∃ y, (checkpointMachine cfg).Run x [.checkpoint v i par] y ∧ ¬ LookupExact cfg y 1 := by
  obtain ⟨t, ht, hspec⟩ := h.checkpoint hv hi hfit
  refine ⟨_, .cons ht (.nil _), fun hexact => ?_⟩
  have hwf := (HeadersWf.init h).step (a := .checkpoint v i par) hfit.2 ht
  have hlt := (hwf.lookupExact_iff.mp hexact).1
  dsimp only at hlt
  rw [hspec.latestSsId, h.latestSsId] at hlt
  exact absurd hlt (by decide)

end Avisor
