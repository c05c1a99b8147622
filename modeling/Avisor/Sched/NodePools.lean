import Avisor.Sched.Bmq
import Avisor.Sched.Bfs
import Avisor.Lib.Machine

/-!
# The pools of scheduler nodes

`malloc_rqnode` and `malloc_vpnode` of `core/sched.c`, on the bitmaps of their pools alone, for calls in any
number and order. The position that `bitmap_find_nth` returns is stored in an `int`, and goes back to a
`size_t` where the bit is set; a pointer to a node is that `int`. The scheduler's own model stops where a
pool is used up; here the call goes on as the source does.
-/

namespace Avisor

open Function

/-- The `int` that a `size_t` is stored in. -/
def intOfSize (n : Nat) : Int := (BitVec.ofNat 32 n).toInt

/-- The `size_t` of an `int`. -/
def sizeOfInt (i : Int) : Nat := (BitVec.ofInt 64 i).toNat

/-- A `runQueueNode*` or `vCpuNode*`, by the position in `rqnode_memory` or `vpnode_memory`; `none` is
`NULL`. -/
abbrev NodePtr := Option Int

/-- The sizes of the two pools, which are values of an `int`. -/
structure NodeConfig where
  sched : SchedConfig
  rnodeNum_le : sched.rnodeNum ≤ intMax
  vnodeNum_le : sched.vnodeNum ≤ intMax

/-- The bitmaps of the two pools, each with the memory behind it. -/
structure NodePools where
  rqnodeMemBitmap : Bitmap
  vpnodeMemBitmap : Bitmap

/-- What both functions do with their bitmap: the `pos` they come to, and the bitmap they leave. -/
def takeNode (map : Bitmap) (size : Nat) : Int × Bitmap :=
  let pos := intOfSize (bitmapFindNth map size 1 0 false)
  (pos, bitmapSet map (sizeOfInt pos))

/-- `malloc_rqnode`. -/
def NodePools.mallocRqnode (cfg : NodeConfig) (s : NodePools) : NodePtr × NodePools :=
  let (pos, map) := takeNode s.rqnodeMemBitmap cfg.sched.rnodeNum
  (some pos, { s with rqnodeMemBitmap := map })

/-- `malloc_vpnode`. -/
def NodePools.mallocVpnode (cfg : NodeConfig) (s : NodePools) : NodePtr × NodePools :=
  let (pos, map) := takeNode s.vpnodeMemBitmap cfg.sched.vnodeNum
  (some pos, { s with vpnodeMemBitmap := map })

/-- A call of one of the two functions. -/
inductive NodeCall
  | rqnode
  | vpnode
  deriving DecidableEq, Repr

namespace NodeCall

/-- The size of the pool the call takes from: `RNODE_NUM` or `VNODE_NUM`. -/
def size (cfg : NodeConfig) : NodeCall → Nat
  | .rqnode => cfg.sched.rnodeNum
  | .vpnode => cfg.sched.vnodeNum

/-- The bitmap of that pool. -/
def bitmap (s : NodePools) : NodeCall → Bitmap
  | .rqnode => s.rqnodeMemBitmap
  | .vpnode => s.vpnodeMemBitmap

/-- The effect of the call. -/
def run (cfg : NodeConfig) (s : NodePools) : NodeCall → NodePtr × NodePools
  | .rqnode => s.mallocRqnode cfg
  | .vpnode => s.mallocVpnode cfg

end NodeCall

/-- The pools, and what the calls so far have returned, the latest first. -/
structure NodeRun where
  pools : NodePools
  returned : List (NodeCall × NodePtr)

/-- Calls of `malloc_rqnode` and `malloc_vpnode`, from bitmaps that are zeroed up to their sizes. -/
def nodeMachine (cfg : NodeConfig) : Machine NodeRun NodeCall where
  Init x := (∀ call i, i < NodeCall.size cfg call → bitmapGet (call.bitmap x.pools) i = false) ∧
    x.returned = []
  step x call :=
    let (node, pools) := call.run cfg x.pools
    some { pools := pools, returned := (call, node) :: x.returned }

/-- `&multi_queue_memory[pos*PRIO_WIDTH]`, by its index. -/
def multiQueueOf (pos : Int) : Int := pos * prioWidth

/-- The nodes returned so far are in their arrays and no two of them the same, and the levels of two run
queue nodes do not overlap. -/
structure NodesApart (cfg : NodeConfig) (x : NodeRun) : Prop where
  inside : ∀ call pos, (call, some pos) ∈ x.returned → 0 ≤ pos ∧ pos < call.size cfg
  distinct : x.returned.Pairwise fun a b => a.2 ≠ none → a ≠ b
  slices : x.returned.Pairwise fun a b => ∀ p q, a = (.rqnode, some p) → b = (.rqnode, some q) →
    ∀ i < bmqBitmapSize, ∀ j < bmqBitmapSize, multiQueueOf p + i ≠ multiQueueOf q + j

/-- A call that finds all nodes taken returns none and stores nothing. -/
def FailsCleanly (cfg : NodeConfig) (x : NodeRun) (call : NodeCall) : Prop :=
  (∀ i < call.size cfg, bitmapGet (call.bitmap x.pools) i = true) → call.run cfg x.pools = (none, x.pools)

/-- What the pools promise for a run. -/
structure PoolsFailCleanly (cfg : NodeConfig) (x : NodeRun) (calls : List NodeCall) : Prop where
  apart : (nodeMachine cfg).Always (NodesApart cfg) x calls
  fails : (nodeMachine cfg).EachStep (FailsCleanly cfg) x calls

variable {cfg : NodeConfig} {x y : NodeRun} {map : Bitmap} {n k : Nat} {call : NodeCall}

theorem sizeOfInt_intOfSize (h : n ≤ intMax) : intOfSize n = n ∧ sizeOfInt n = n := by
  unfold intMax at h
  constructor
  · unfold intOfSize
    rw [BitVec.toInt_eq_toNat_of_lt]
    · rw [BitVec.toNat_ofNat, Nat.mod_eq_of_lt (by omega)]
    · rw [BitVec.toNat_ofNat]
      omega
  · unfold sizeOfInt
    rw [BitVec.ofInt_natCast, BitVec.toNat_ofNat]
    omega

theorem intOfSize_sizeMax : intOfSize sizeMax = -1 := by
  decide

/-- The first `k` nodes of a pool are taken, and the others are free. -/
def Filled (map : Bitmap) (size k : Nat) : Prop :=
  ∀ i < size, bitmapGet map i = decide (i < k)

/-- A call takes the first free node. -/
theorem Filled.take (h : Filled map n k) (hk : k < n) (hn : n ≤ intMax) :
    takeNode map n = ((k : Int), bitmapSet map k) ∧ Filled (bitmapSet map k) n (k + 1) := by
  obtain ⟨hint, hsize⟩ := sizeOfInt_intOfSize (show k ≤ intMax by omega)
  have hfound : bitmapFindNth map n 1 0 false = k := by
    rcases bitmapFindNth_one map n 0 false with ⟨-, hnone⟩ | ⟨r, hr, -, hlt, hfree, hfirst⟩
    · have hfree := hnone k (Nat.zero_le k) hk
      rw [h k hk] at hfree
      simp at hfree
    · rw [hr]
      rw [h r hlt] at hfree
      have hle : k ≤ r := Nat.le_of_not_lt (of_decide_eq_false hfree)
      refine Nat.le_antisymm (Nat.le_of_not_lt fun hkr => ?_) hle
      have hbit := hfirst k (Nat.zero_le k) hkr
      rw [h k hk] at hbit
      simp at hbit
  constructor
  · unfold takeNode
    rw [hfound, hint]
    simp only [hsize]
  · intro i hi
    rw [bitmapGet_set, h i hi]
    by_cases hik : i = k
    · simp [hik]
    · have hiff : i < k + 1 ↔ i < k := by omega
      simp [hik, hiff]

/-- In a pool that is used up it finds none, and goes on with the position `-1`. -/
theorem Filled.take_none (h : Filled map n n) : takeNode map n = (-1, bitmapSet map sizeMax) := by
  have hnone : bitmapFindNth map n 1 0 false = sizeMax := by
    rcases bitmapFindNth_one map n 0 false with ⟨hnone, -⟩ | ⟨r, -, -, hlt, hfree, -⟩
    · exact hnone
    · rw [h r hlt, decide_eq_true hlt] at hfree
      cases hfree
  have hsize : sizeOfInt (-1) = sizeMax := by decide
  unfold takeNode
  rw [hnone, intOfSize_sizeMax, ← hsize]

/-- The number of calls so far that took from the pool of `call`. -/
def NodeRun.taken (x : NodeRun) (call : NodeCall) : Nat := x.returned.countP fun a => a.1 = call

/-- What calls keep that find a free node. -/
structure NodePoolsWf (cfg : NodeConfig) (x : NodeRun) : Prop where
  filled : ∀ call, Filled (call.bitmap x.pools) (call.size cfg) (x.taken call)
  taken_le : ∀ call, x.taken call ≤ call.size cfg
  returned : ∀ call pos, (call, some pos) ∈ x.returned → 0 ≤ pos ∧ pos < x.taken call
  apart : NodesApart cfg x

theorem NodeCall.size_le (cfg : NodeConfig) (call : NodeCall) : call.size cfg ≤ intMax := by
  cases call with
  | rqnode => exact cfg.rnodeNum_le
  | vpnode => exact cfg.vnodeNum_le

theorem NodeCall.run_of_take {pos : Int} {map : Bitmap} {s : NodePools}
    (h : takeNode (call.bitmap s) (call.size cfg) = (pos, map)) : (call.run cfg s).1 = some pos ∧
      call.bitmap (call.run cfg s).2 = map ∧
      ∀ other, other ≠ call → other.bitmap (call.run cfg s).2 = other.bitmap s := by
  cases call with
  | rqnode =>
    have hrun : NodePools.mallocRqnode cfg s = (some pos, { s with rqnodeMemBitmap := map }) := by
      unfold NodePools.mallocRqnode
      rw [show takeNode s.rqnodeMemBitmap cfg.sched.rnodeNum = (pos, map) from h]
    refine ⟨congrArg Prod.fst hrun, congrArg (fun r => r.2.rqnodeMemBitmap) hrun, fun other hne => ?_⟩
    cases other with
    | rqnode => exact absurd rfl hne
    | vpnode => exact congrArg (fun r => r.2.vpnodeMemBitmap) hrun
  | vpnode =>
    have hrun : NodePools.mallocVpnode cfg s = (some pos, { s with vpnodeMemBitmap := map }) := by
      unfold NodePools.mallocVpnode
      rw [show takeNode s.vpnodeMemBitmap cfg.sched.vnodeNum = (pos, map) from h]
    refine ⟨congrArg Prod.fst hrun, congrArg (fun r => r.2.vpnodeMemBitmap) hrun, fun other hne => ?_⟩
    cases other with
    | rqnode => exact congrArg (fun r => r.2.rqnodeMemBitmap) hrun
    | vpnode => exact absurd rfl hne

theorem nodeMachine_step (x : NodeRun) (call : NodeCall) : (nodeMachine cfg).step x call =
    some ⟨(call.run cfg x.pools).2, (call, (call.run cfg x.pools).1) :: x.returned⟩ := rfl

theorem taken_cons (x : NodeRun) (pools : NodePools) (node : NodePtr) (call other : NodeCall) :
    NodeRun.taken ⟨pools, (call, node) :: x.returned⟩ other =
      x.taken other + if call = other then 1 else 0 := by
  unfold NodeRun.taken
  rw [List.countP_cons]
  simp only [decide_eq_true_eq]

theorem NodesApart.cons (h : NodesApart cfg x) {pools : NodePools}
    (hreturned : ∀ other pos, (other, some pos) ∈ x.returned → 0 ≤ pos ∧ pos < x.taken other)
    (hk : x.taken call < call.size cfg) :
    NodesApart cfg ⟨pools, (call, some (x.taken call : Int)) :: x.returned⟩ := by
  constructor
  · intro other pos hmem
    rcases List.mem_cons.mp hmem with heq | hmem
    · cases heq
      exact ⟨by omega, by omega⟩
    · exact h.inside other pos hmem
  · refine List.pairwise_cons.mpr ⟨fun b hb _ heq => ?_, h.distinct⟩
    rw [← heq] at hb
    have hlt := (hreturned _ _ hb).2
    omega
  · refine List.pairwise_cons.mpr ⟨fun b hb p q hp hq i hi j hj => ?_, h.slices⟩
    cases hp
    rw [hq] at hb
    have hlt := hreturned _ _ hb
    -- the older levels end where the newer ones start, or before
    simp only [multiQueueOf, prioWidth, bmqBitmapSize] at *
    omega

theorem NodePoolsWf.step (h : NodePoolsWf cfg x) (hk : x.taken call < call.size cfg)
    (hstep : (nodeMachine cfg).step x call = some y) : NodePoolsWf cfg y := by
  obtain ⟨htake, hfilled⟩ := (h.filled call).take hk (call.size_le cfg)
  obtain ⟨hnode, hmap, hother⟩ := NodeCall.run_of_take htake
  rw [nodeMachine_step, hnode] at hstep
  cases hstep
  constructor
  · intro other
    rw [taken_cons]
    by_cases hcall : call = other
    · subst hcall
      rw [if_pos rfl, hmap]
      exact hfilled
    · rw [if_neg hcall, hother other (Ne.symm hcall)]
      exact h.filled other
  · intro other
    rw [taken_cons]
    have hle := h.taken_le other
    by_cases hcall : call = other
    · subst hcall
      rw [if_pos rfl]
      omega
    · rw [if_neg hcall]
      exact hle
  · intro other pos hmem
    rw [taken_cons]
    rcases List.mem_cons.mp hmem with heq | hmem
    · cases heq
      rw [if_pos rfl]
      omega
    · have hlt := h.returned other pos hmem
      omega
  · exact h.apart.cons h.returned hk

theorem NodePoolsWf.init (h : (nodeMachine cfg).Init x) : NodePoolsWf cfg x := by
  obtain ⟨hclear, hreturned⟩ := h
  have htaken (call : NodeCall) : x.taken call = 0 := by
    rw [NodeRun.taken, hreturned, List.countP_nil]
  constructor
  · intro call i hi
    rw [hclear call i hi, htaken]
    rfl
  · intro call
    rw [htaken]
    exact Nat.zero_le _
  · intro call pos hmem
    rw [hreturned] at hmem
    cases hmem
  · constructor <;> rw [hreturned]
    · intro call pos hmem
      cases hmem
    · exact List.Pairwise.nil
    · exact List.Pairwise.nil

/-- A call is as promised exactly if the pool has a node for it. -/
theorem NodePoolsWf.failsCleanly_iff (h : NodePoolsWf cfg x) :
    FailsCleanly cfg x call ↔ x.taken call < call.size cfg := by
  constructor
  · intro hfails
    refine Nat.lt_of_le_of_ne (h.taken_le call) fun hfull => ?_
    have hfilled := h.filled call
    rw [hfull] at hfilled
    have hrun := hfails fun i hi => by rw [hfilled i hi, decide_eq_true hi]
    have hnode := (NodeCall.run_of_take hfilled.take_none).1
    rw [hrun] at hnode
    cases hnode
  · intro hk hall
    have hbit := hall _ hk
    rw [h.filled call _ hk] at hbit
    simp at hbit

theorem NodePoolsWf.failCleanly_iff (h : NodePoolsWf cfg x) {calls : List NodeCall} :
    PoolsFailCleanly cfg x calls ↔ ∀ call, x.taken call + calls.count call ≤ call.size cfg := by
  induction calls generalizing x with
  | nil => exact ⟨fun _ call => h.taken_le call, fun _ => ⟨h.apart, trivial⟩⟩
  | cons call calls ih =>
    have hnext (other : NodeCall) : NodeRun.taken ⟨(call.run cfg x.pools).2,
        (call, (call.run cfg x.pools).1) :: x.returned⟩ other + calls.count other =
          x.taken other + (call :: calls).count other := by
      rw [taken_cons, List.count_cons]
      simp only [beq_iff_eq]
      omega
    have hstep : (nodeMachine cfg).step x call =
        some ⟨(call.run cfg x.pools).2, (call, (call.run cfg x.pools).1) :: x.returned⟩ := nodeMachine_step x call
    constructor
    · intro hclean
      obtain ⟨hfails, hrest⟩ := hclean.fails _ hstep
      have hwf := h.step (h.failsCleanly_iff.mp hfails) hstep
      intro other
      rw [← hnext]
      exact (ih hwf).mp ⟨hclean.apart.2 _ hstep, hrest⟩ other
    · intro hcount
      have hk : x.taken call < call.size cfg := by
        have hle := hcount call
        rw [List.count_cons_self] at hle
        omega
      have hclean := (ih (h.step hk hstep)).mpr fun other => (hnext other).trans_le (hcount other)
      refine ⟨⟨h.apart, fun t ht => ?_⟩, fun t ht => ⟨h.failsCleanly_iff.mpr hk, ?_⟩⟩
      · cases ht
        exact hclean.apart
      · cases ht
        exact hclean.fails

/-- In a run of calls, the pools are as promised exactly if neither is asked for more nodes than it has. -/
theorem poolsFailCleanly_iff (h : (nodeMachine cfg).Init x) {calls : List NodeCall} :
    PoolsFailCleanly cfg x calls ↔
      calls.count .rqnode ≤ cfg.sched.rnodeNum ∧ calls.count .vpnode ≤ cfg.sched.vnodeNum := by
  have hwf := NodePoolsWf.init h
  have htaken (call : NodeCall) : x.taken call = 0 := by
    rw [NodeRun.taken, h.2, List.countP_nil]
  rw [hwf.failCleanly_iff]
  constructor
  · intro hall
    have hrqnode := hall .rqnode
    have hvpnode := hall .vpnode
    rw [htaken, Nat.zero_add] at hrqnode hvpnode
    exact ⟨hrqnode, hvpnode⟩
  · rintro ⟨hrqnode, hvpnode⟩ call
    rw [htaken, Nat.zero_add]
    cases call with
    | rqnode => exact hrqnode
    | vpnode => exact hvpnode

/-! ### The pools of the scheduler -/

/-- The pools of a scheduler's state. -/
def SchedState.pools (s : SchedState) : NodePools := ⟨s.rqnodeMemBitmap, s.vpnodeMemBitmap⟩

theorem takeNode_of_found {pos : Nat} (hn : n ≤ intMax) (hpos : bitmapFindNth map n 1 0 false = pos)
    (hne : pos ≠ sizeMax) : takeNode map n = ((pos : Int), bitmapSet map pos) := by
  have hlt : pos < n := by
    rcases bitmapFindNth_one map n 0 false with ⟨hnone, -⟩ | ⟨r, hr, -, hlt, -⟩
    · exact absurd (hpos.symm.trans hnone) hne
    · rwa [← hpos.symm.trans hr] at hlt
  obtain ⟨hint, hsize⟩ := sizeOfInt_intOfSize (show pos ≤ intMax by omega)
  unfold takeNode
  rw [hpos, hint]
  simp only [hsize]

/-- Where the scheduler gets a run queue node, it is the one of the pool. -/
theorem mallocRqnode_pools {s t : SchedState} {r : RNode} (h : mallocRqnode cfg.sched s = some (r, t)) :
    s.pools.mallocRqnode cfg = (some (r : Int), t.pools) := by
  simp only [mallocRqnode] at h
  split at h
  · cases h
  · rename_i hne
    cases h
    have htake := takeNode_of_found cfg.rnodeNum_le rfl hne
    unfold NodePools.mallocRqnode
    rw [show takeNode s.pools.rqnodeMemBitmap cfg.sched.rnodeNum = _ from htake]
    rfl

/-- Where it gets a vCPU node, likewise. -/
theorem mallocVpnode_pools {s t : SchedState} {v : VNode} (h : mallocVpnode cfg.sched s = some (v, t)) :
    s.pools.mallocVpnode cfg = (some (v : Int), t.pools) := by
  simp only [mallocVpnode] at h
  split at h
  · cases h
  · rename_i hne
    cases h
    have htake := takeNode_of_found cfg.vnodeNum_le rfl hne
    unfold NodePools.mallocVpnode
    rw [show takeNode s.pools.vpnodeMemBitmap cfg.sched.vnodeNum = _ from htake]
    rfl

/-! ### The sizes of the source -/

/-- `MAX_VM_NUM` and `MAX_VCPU_NUM` of `util.h`, for one VM. -/
def utilPools : NodeConfig where
  sched :=
    { maxVmNum := 4
      maxVcpuNum := 16
      nrVms := 1
      nrCpus _ := 1
      nrCpus_pos _ := Nat.one_pos
      ptRoot _ := 0x1000
      hypNrCpus := 1
      timerWait := 4000 }
  rnodeNum_le := by decide
  vnodeNum_le := by decide

/-- The zeroed bitmaps. -/
def zeroedPools : NodeRun := ⟨⟨fun _ => 0, fun _ => 0⟩, []⟩

theorem zeroedPools_init (cfg : NodeConfig) : (nodeMachine cfg).Init zeroedPools := by
  refine ⟨fun call i _ => ?_, rfl⟩
  cases call <;> simp [NodeCall.bitmap, zeroedPools, bitmapGet]

/-- Three calls. -/
theorem poolsFailCleanly_iff_threeCalls :
    PoolsFailCleanly utilPools zeroedPools [.rqnode, .vpnode, .vpnode] ↔
      [NodeCall.rqnode, .vpnode, .vpnode].count .rqnode ≤ utilPools.sched.rnodeNum ∧
        [NodeCall.rqnode, .vpnode, .vpnode].count .vpnode ≤ utilPools.sched.vnodeNum :=
  poolsFailCleanly_iff (zeroedPools_init utilPools)

/-- The 25th call of `malloc_vpnode` returns the node at `-1`. -/
theorem poolsFail_lastCall : (nodeMachine utilPools).Init zeroedPools ∧
    ¬ PoolsFailCleanly utilPools zeroedPools (List.replicate 25 .vpnode) := by
  refine ⟨zeroedPools_init utilPools, fun hclean => ?_⟩
  have hcount := (NodePoolsWf.init (zeroedPools_init utilPools)).failCleanly_iff.mp hclean .vpnode
  rw [List.count_replicate_self] at hcount
  exact absurd hcount (by decide)

end Avisor
