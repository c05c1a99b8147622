import Avisor.Sched.Step

/-!
# The queues of the vCPU level

`Queues` is the part of the state that says where the vCPU nodes are: the links and levels, the node
each VM runs and the sleep slot. The operations on it are those of the scheduler without the data
they carry along. `Queues.Wf` collects what holds of them in every reachable state, whatever the
order of sleeps and wake-ups; `Lists` and `InQueue` describe the contents of the levels.
-/

namespace Avisor

open Function LinkedList

/-- Where the vCPU nodes are. -/
structure Queues where
  created : VNode → Bool
  vmOf : VNode → VmId
  prio : VNode → Nat
  next : VNode → Option VNode
  nodeVm : RNode → Option VmId
  offset : RNode → Nat
  bitmap : RNode → BitVec 64
  levels : Nat → Option VNode
  run : RNode → Option VNode
  sleep : Option VNode
  sleepNode : Option RNode
  flag : Int

def SchedState.queues (s : SchedState) : Queues where
  created := bitmapGet s.vpnodeMemBitmap
  vmOf := fun v => (s.vpnodeMemory v).cur.vm
  prio := fun v => (s.vpnodeMemory v).prio
  next := s.vnext
  nodeVm := fun r => (s.rqnodeMemory r).vm
  offset := fun r => (s.rqnodeMemory r).multiQueue
  bitmap := fun r => (s.rqnodeMemory r).bitmap
  levels := s.multiQueueMemory
  run := fun r => (s.rqnodeMemory r).runVnode
  sleep := s.sleepVnode
  sleepNode := s.withSleepVnodeRqnode
  flag := s.ioSleepFlag

namespace Queues

variable (q : Queues)

/-- `r->multi_queue[i]`. -/
def level (r : RNode) (i : Nat) : Option VNode := q.levels (q.offset r + i)

/-- `r` is the node of the VM that `v` belongs to. -/
def Home (v : VNode) (r : RNode) : Prop := q.nodeVm r = some (q.vmOf v)

/-- `q` with `v` put at the end of its level of `r`; `tail` is the last node there. -/
def insertAt (v : VNode) (r : RNode) (tail : Option VNode) : Queues :=
  { q with
    bitmap := update q.bitmap r (q.bitmap r ||| (1#64 <<< q.prio v))
    next :=
      match tail with
      | none => update q.next v none
      | some t => update (update q.next t (some v)) v none
    levels :=
      match tail with
      | none => update q.levels (q.offset r + q.prio v) (some v)
      | some _ => q.levels }

/-- `tail` is the node that `v_task_insert` finds at the end of the level of `v`. -/
def Tail (n : Nat) (v : VNode) (r : RNode) : Option VNode → Prop
  | none => q.level r (q.prio v) = none
  | some t => ∃ first, q.level r (q.prio v) = some first ∧ last q.next n first = some t

/-- `q` after `v`, the first node of level `i`, has been chosen to run. -/
def takeRun (r : RNode) (i : Nat) (v : VNode) : Queues :=
  { q with
    bitmap := update q.bitmap r
      (if q.next v = none then q.bitmap r &&& ~~~(1#64 <<< i) else q.bitmap r)
    next := update q.next v none
    levels := update q.levels (q.offset r + i) (q.next v)
    run := update q.run r (some v) }

def setPrio (v : VNode) (p : Nat) : Queues := { q with prio := update q.prio v p }

/-- `q` with the node `v` handed out. -/
def create (v : VNode) (m : VmId) (p : Nat) : Queues :=
  { q with
    created := update q.created v true
    vmOf := update q.vmOf v m
    prio := update q.prio v p
    next := update q.next v none }

/-- `q` with the node `r` handed out, for the VM `m` if there is one. -/
def createNode (r : RNode) (m : Option VmId) : Queues :=
  { q with
    nodeVm := update q.nodeVm r m
    offset := update q.offset r (r * prioWidth)
    bitmap := update q.bitmap r 0
    levels := fun i =>
      if r * prioWidth ≤ i ∧ i < r * prioWidth + bmqBitmapSize then none else q.levels i
    run := update q.run r none }

/-- `q` with the slot holding `v` of the node `r`. -/
def putToSleep (v : VNode) (r : RNode) : Queues :=
  { q with sleep := some v, sleepNode := some r, flag := 4 }

/-- `q` with the slot empty. -/
def clearSlot : Queues := { q with sleep := none, sleepNode := none, flag := 0 }

/-- What holds of the queues in every reachable state; `n` is the number of vCPU nodes. -/
structure Wf (n : Nat) (q : Queues) : Prop where
  prio_lt : ∀ v, q.created v = true → q.prio v < bmqBitmapSize
  created_lt : ∀ v, q.created v = true → v < n
  offset_eq : ∀ r m, q.nodeVm r = some m → q.offset r = r * prioWidth
  node_unique : ∀ r r' m, q.nodeVm r = some m → q.nodeVm r' = some m → r = r'
  finite : ∀ p, ∃ l, Chain q.next p l
  link_mem : ∀ v w, q.created v = true → q.next v = some w →
    q.created w = true ∧ q.vmOf w = q.vmOf v
  level_mem : ∀ r m i v, q.nodeVm r = some m → i < bmqBitmapSize → q.level r i = some v →
    q.created v = true ∧ q.vmOf v = m
  bit : ∀ r m i, q.nodeVm r = some m → i < bmqBitmapSize →
    ((q.bitmap r).getLsbD i = true ↔ q.level r i ≠ none)
  run_mem : ∀ r m v, q.nodeVm r = some m → q.run r = some v → q.created v = true ∧ q.vmOf v = m
  sleep_mem : ∀ v, q.sleep = some v →
    q.created v = true ∧ ∃ r, q.sleepNode = some r ∧ q.nodeVm r = some (q.vmOf v)
  flag_pos : q.flag > 0 → q.sleep ≠ none

/-- A VM that has not run yet has a vCPU in its queues. -/
def Started : Prop :=
  ∀ r m, q.nodeVm r = some m → q.run r = none → ∃ i < bmqBitmapSize, q.level r i ≠ none

variable {q} {n : Nat}

/-- The levels of two nodes lie apart. -/
private theorem slot_arith {r r' i i' : Nat} (hi : i < bmqBitmapSize) (hi' : i' < bmqBitmapSize) :
    r' * prioWidth + i' = r * prioWidth + i ↔ r' = r ∧ i' = i := by
  simp only [bmqBitmapSize, prioWidth] at hi hi' ⊢
  omega

/-- Two levels are the same only if their nodes and numbers are. -/
theorem Wf.slot_ne (h : q.Wf n) {r r' : RNode} {m m' : VmId} {i i' : Nat}
    (hr : q.nodeVm r = some m) (hr' : q.nodeVm r' = some m') (hi : i < bmqBitmapSize)
    (hi' : i' < bmqBitmapSize) (hne : ¬(r' = r ∧ i' = i)) : q.offset r' + i' ≠ q.offset r + i := by
  rw [h.offset_eq r m hr, h.offset_eq r' m' hr', ne_eq, slot_arith hi hi']
  exact hne

/-- The tail an insertion finds is a created node of the same VM. -/
theorem Wf.tail_mem (h : q.Wf n) {v t : VNode} {r : RNode} (hv : q.created v = true)
    (hr : q.Home v r) (ht : q.Tail n v r (some t)) : q.created t = true ∧ q.vmOf t = q.vmOf v := by
  obtain ⟨first, hfirst, hlast⟩ := ht
  have hmem := h.level_mem r _ _ first hr (h.prio_lt v hv) hfirst
  refine last_of_links (P := fun x => q.created x = true ∧ q.vmOf x = q.vmOf v) hlast hmem ?_
  intro x y hx hxy
  obtain ⟨hy, hvm⟩ := h.link_mem x y hx.1 hxy
  exact ⟨hy, hvm.trans hx.2⟩

theorem Wf.insertAt (h : q.Wf n) {v : VNode} {r : RNode} {tail : Option VNode}
    (hv : q.created v = true) (hr : q.Home v r) (ht : q.Tail n v r tail) :
    (q.insertAt v r tail).Wf n := by
  have hlevel (r' m i) (hr' : q.nodeVm r' = some m) (hi : i < bmqBitmapSize) :
      (q.insertAt v r tail).level r' i =
        if tail = none ∧ r' = r ∧ i = q.prio v then some v else q.level r' i := by
    cases tail with
    | none =>
      by_cases heq : r' = r ∧ i = q.prio v
      · obtain ⟨rfl, rfl⟩ := heq
        simp [Queues.insertAt, level]
      · have hslot := h.slot_ne hr hr' (h.prio_lt v hv) hi heq
        simp [Queues.insertAt, level, heq, hslot]
    | some t => simp [Queues.insertAt, level]
  refine ⟨h.prio_lt, h.created_lt, h.offset_eq, h.node_unique, ?_, ?_, ?_, ?_, h.run_mem,
    h.sleep_mem, h.flag_pos⟩
  · cases tail with
    | none => exact exists_chain_cut h.finite
    | some t =>
      obtain ⟨first, -, hlast⟩ := ht
      exact exists_chain_link h.finite (last_link hlast)
  · intro x y hx hxy
    cases tail with
    | none =>
      simp only [Queues.insertAt] at hx hxy ⊢
      by_cases hxv : x = v
      · subst hxv
        simp at hxy
      · rw [update_of_ne hxv] at hxy
        exact h.link_mem x y hx hxy
    | some t =>
      simp only [Queues.insertAt] at hx hxy ⊢
      by_cases hxv : x = v
      · subst hxv
        simp at hxy
      · rw [update_of_ne hxv] at hxy
        by_cases hxt : x = t
        · subst hxt
          rw [update_self] at hxy
          cases hxy
          exact ⟨hv, (h.tail_mem hv hr ht).2.symm⟩
        · rw [update_of_ne hxt] at hxy
          exact h.link_mem x y hx hxy
  · intro r' m i w hr' hi hw
    rw [hlevel r' m i hr' hi] at hw
    split at hw
    · rename_i heq
      obtain ⟨-, rfl, rfl⟩ := heq
      cases hw
      exact ⟨hv, Option.some.inj (hr.symm.trans hr')⟩
    · exact h.level_mem r' m i w hr' hi hw
  · intro r' m i hr' hi
    rw [hlevel r' m i hr' hi]
    have hbit : ((q.insertAt v r tail).bitmap r').getLsbD i = true ↔
        (r' = r ∧ i = q.prio v) ∨ (q.bitmap r').getLsbD i = true := by
      by_cases hrr : r' = r
      · subst hrr
        have hi64 : i < 64 := Nat.lt_trans hi (by decide)
        simp only [Queues.insertAt, update_self, BitVec.getLsbD_or, BitVec.getLsbD_shiftLeft,
          BitVec.getLsbD_one, hi64, decide_true, Bool.true_and, true_and, Bool.or_eq_true,
          Bool.and_eq_true, decide_eq_true_eq, Bool.not_eq_true', decide_eq_false_iff_not]
        rw [or_comm]
        refine or_congr_left ?_
        constructor
        · rintro ⟨hle, hzero⟩
          omega
        · rintro rfl
          omega
      · simp [Queues.insertAt, hrr]
    rw [hbit, h.bit r' m i hr' hi]
    by_cases heq : r' = r ∧ i = q.prio v
    · obtain ⟨rfl, rfl⟩ := heq
      cases tail with
      | none => simp
      | some t =>
        obtain ⟨first, hfirst, -⟩ := ht
        simp [hfirst]
    · simp [heq]

theorem Wf.takeRun (h : q.Wf n) {v : VNode} {r : RNode} {m : VmId} {i : Nat}
    (hr : q.nodeVm r = some m) (hi : i < bmqBitmapSize) (hv : q.level r i = some v) :
    (q.takeRun r i v).Wf n := by
  obtain ⟨hcreated, hvm⟩ := h.level_mem r m i v hr hi hv
  have hlevel (r' m' i') (hr' : q.nodeVm r' = some m') (hi' : i' < bmqBitmapSize) :
      (q.takeRun r i v).level r' i' = if r' = r ∧ i' = i then q.next v else q.level r' i' := by
    by_cases heq : r' = r ∧ i' = i
    · obtain ⟨rfl, rfl⟩ := heq
      simp [Queues.takeRun, level]
    · have hslot := h.slot_ne hr hr' hi hi' heq
      simp [Queues.takeRun, level, heq, hslot]
  refine ⟨h.prio_lt, h.created_lt, h.offset_eq, h.node_unique, exists_chain_cut h.finite, ?_, ?_, ?_,
    ?_, h.sleep_mem, h.flag_pos⟩
  · intro x y hx hxy
    simp only [Queues.takeRun] at hx hxy ⊢
    by_cases hxv : x = v
    · subst hxv
      simp at hxy
    · rw [update_of_ne hxv] at hxy
      exact h.link_mem x y hx hxy
  · intro r' m' i' w hr' hi' hw
    rw [hlevel r' m' i' hr' hi'] at hw
    split at hw
    · rename_i heq
      obtain ⟨rfl, rfl⟩ := heq
      have hmm : m = m' := Option.some.inj (hr.symm.trans hr')
      obtain ⟨hw, hwvm⟩ := h.link_mem v w hcreated hw
      exact ⟨hw, hwvm.trans (hvm.trans hmm)⟩
    · exact h.level_mem r' m' i' w hr' hi' hw
  · intro r' m' i' hr' hi'
    rw [hlevel r' m' i' hr' hi']
    by_cases hrr : r' = r
    · subst hrr
      have hbit := h.bit r' m' i' hr' hi'
      simp only [Queues.takeRun, update_self, true_and]
      by_cases hnext : q.next v = none
      · have hi64 : i' < 64 := Nat.lt_trans hi' (by decide)
        simp only [hnext, if_true, BitVec.getLsbD_and, BitVec.getLsbD_not, BitVec.getLsbD_shiftLeft,
          BitVec.getLsbD_one, hi64, decide_true, Bool.true_and, Bool.and_eq_true, hbit,
          Bool.not_eq_true', Bool.and_eq_false_iff, decide_eq_false_iff_not]
        by_cases hii : i' = i
        · subst hii
          simp
        · simp only [hii, if_false, and_iff_left_iff_imp]
          intro _
          simp
          omega
      · simp only [hnext, if_false, hbit]
        by_cases hii : i' = i
        · subst hii
          simp [hnext, hv]
        · simp [hii]
    · simp only [Queues.takeRun, update_of_ne hrr, hrr, false_and, if_false]
      exact h.bit r' m' i' hr' hi'
  · intro r' m' w hr' hw
    simp only [Queues.takeRun] at hw ⊢
    by_cases hrr : r' = r
    · subst hrr
      rw [update_self] at hw
      cases hw
      exact ⟨hcreated, hvm.trans (Option.some.inj (hr.symm.trans hr'))⟩
    · rw [update_of_ne hrr] at hw
      exact h.run_mem r' m' w hr' hw

theorem Wf.setPrio (h : q.Wf n) {v : VNode} {p : Nat} (hp : p < bmqBitmapSize) :
    (q.setPrio v p).Wf n := by
  refine ⟨fun w hw => ?_, h.created_lt, h.offset_eq, h.node_unique, h.finite, h.link_mem,
    h.level_mem, h.bit, h.run_mem, h.sleep_mem, h.flag_pos⟩
  simp only [Queues.setPrio]
  by_cases hwv : w = v
  · subst hwv
    rw [update_self]
    exact hp
  · rw [update_of_ne hwv]
    exact h.prio_lt w hw

theorem Wf.create (h : q.Wf n) {v : VNode} {m : VmId} {p : Nat} (hv : q.created v = false)
    (hlt : v < n) (hp : p < bmqBitmapSize) : (q.create v m p).Wf n := by
  -- nothing refers to a node that has not been handed out
  have hne {w} (hw : q.created w = true) : w ≠ v := by
    rintro rfl
    rw [hv] at hw
    cases hw
  have hcreated {w} (hw : q.created w = true) : (q.create v m p).created w = true := by
    simp only [Queues.create, update_of_ne (hne hw)]
    exact hw
  have hvmOf {w} (hw : q.created w = true) : (q.create v m p).vmOf w = q.vmOf w := by
    simp only [Queues.create, update_of_ne (hne hw)]
  have hcases {w} (hw : (q.create v m p).created w = true) : w = v ∨ q.created w = true := by
    by_cases hwv : w = v
    · exact .inl hwv
    · simp only [Queues.create, update_of_ne hwv] at hw
      exact .inr hw
  refine ⟨fun w hw => ?_, fun w hw => ?_, h.offset_eq, h.node_unique, exists_chain_cut h.finite, ?_,
    ?_, h.bit, ?_, ?_, h.flag_pos⟩
  · rcases hcases hw with rfl | hw
    · simp only [Queues.create, update_self]
      exact hp
    · simp only [Queues.create, update_of_ne (hne hw)]
      exact h.prio_lt w hw
  · rcases hcases hw with rfl | hw
    · exact hlt
    · exact h.created_lt w hw
  · intro x y hx hxy
    rcases hcases hx with rfl | hx
    · simp [Queues.create] at hxy
    · simp only [Queues.create, update_of_ne (hne hx)] at hxy
      obtain ⟨hy, hvm⟩ := h.link_mem x y hx hxy
      rw [hvmOf hy, hvmOf hx]
      exact ⟨hcreated hy, hvm⟩
  · intro r m' i w hr hi hw
    obtain ⟨hw', hvm⟩ := h.level_mem r m' i w hr hi hw
    rw [hvmOf hw']
    exact ⟨hcreated hw', hvm⟩
  · intro r m' w hr hw
    obtain ⟨hw', hvm⟩ := h.run_mem r m' w hr hw
    rw [hvmOf hw']
    exact ⟨hcreated hw', hvm⟩
  · intro w hw
    obtain ⟨hw', r, hr, hvm⟩ := h.sleep_mem w hw
    refine ⟨hcreated hw', r, hr, ?_⟩
    rw [hvmOf hw']
    exact hvm

/-- The levels of the other nodes are not those of a node handed out. -/
theorem Wf.createNode_level (h : q.Wf n) {r r' : RNode} {m : Option VmId} {m' : VmId} {i : Nat}
    (hr' : q.nodeVm r' = some m') (hne : r' ≠ r) (hi : i < bmqBitmapSize) :
    (q.createNode r m).level r' i = q.level r' i := by
  simp only [level, createNode, update_of_ne hne, h.offset_eq r' m' hr']
  refine if_neg fun hin => ?_
  obtain ⟨j, hj⟩ := Nat.le.dest hin.1
  have hjlt : j < bmqBitmapSize := by omega
  exact hne ((slot_arith hjlt hi).mp hj.symm).1

theorem Wf.createNode (h : q.Wf n) {r : RNode} {m : Option VmId} (hr : q.nodeVm r = none)
    (hm : ∀ r' m', m = some m' → q.nodeVm r' ≠ some m') : (q.createNode r m).Wf n := by
  have hne {r' m'} (hr' : q.nodeVm r' = some m') : r' ≠ r := by
    rintro rfl
    rw [hr] at hr'
    cases hr'
  have hcases {r' m'} (hr' : (q.createNode r m).nodeVm r' = some m') :
      (r' = r ∧ m = some m') ∨ q.nodeVm r' = some m' := by
    by_cases hrr : r' = r
    · subst hrr
      simp only [Queues.createNode, update_self] at hr'
      exact .inl ⟨rfl, hr'⟩
    · simp only [Queues.createNode, update_of_ne hrr] at hr'
      exact .inr hr'
  have hnew (i) (hi : i < bmqBitmapSize) : (q.createNode r m).level r i = none := by
    simp only [level, Queues.createNode, update_self]
    exact if_pos ⟨Nat.le_add_right _ _, Nat.add_lt_add_left hi _⟩
  have hold (r' m' i) (hr' : q.nodeVm r' = some m') (hi : i < bmqBitmapSize) :
      (q.createNode r m).level r' i = q.level r' i := h.createNode_level hr' (hne hr') hi
  refine ⟨h.prio_lt, h.created_lt, ?_, ?_, h.finite, h.link_mem, ?_, ?_, ?_, ?_, h.flag_pos⟩
  · intro r' m' hr'
    rcases hcases hr' with ⟨rfl, -⟩ | hr'
    · simp only [Queues.createNode, update_self]
    · simp only [Queues.createNode, update_of_ne (hne hr')]
      exact h.offset_eq r' m' hr'
  · intro r₁ r₂ m' h₁ h₂
    rcases hcases h₁ with ⟨rfl, hnew₁⟩ | hold₁
    · rcases hcases h₂ with ⟨rfl, -⟩ | hold₂
      · rfl
      · exact absurd hold₂ (hm r₂ m' hnew₁)
    · rcases hcases h₂ with ⟨-, hnew₂⟩ | hold₂
      · exact absurd hold₁ (hm r₁ m' hnew₂)
      · exact h.node_unique r₁ r₂ m' hold₁ hold₂
  · intro r' m' i w hr' hi hw
    rcases hcases hr' with ⟨rfl, -⟩ | hr'
    · rw [hnew i hi] at hw
      cases hw
    · rw [hold r' m' i hr' hi] at hw
      exact h.level_mem r' m' i w hr' hi hw
  · intro r' m' i hr' hi
    rcases hcases hr' with ⟨rfl, -⟩ | hr'
    · rw [hnew i hi]
      simp [Queues.createNode]
    · rw [hold r' m' i hr' hi]
      simp only [Queues.createNode, update_of_ne (hne hr')]
      exact h.bit r' m' i hr' hi
  · intro r' m' w hr' hw
    rcases hcases hr' with ⟨rfl, -⟩ | hr'
    · simp [Queues.createNode] at hw
    · simp only [Queues.createNode, update_of_ne (hne hr')] at hw
      exact h.run_mem r' m' w hr' hw
  · intro w hw
    obtain ⟨hw', r', hr', hvm⟩ := h.sleep_mem w hw
    refine ⟨hw', r', hr', ?_⟩
    simp only [Queues.createNode, update_of_ne (hne hvm)]
    exact hvm

theorem Wf.putToSleep (h : q.Wf n) {v : VNode} {r : RNode} {m : VmId} (hr : q.nodeVm r = some m)
    (hrun : q.run r = some v) : (q.putToSleep v r).Wf n := by
  refine ⟨h.prio_lt, h.created_lt, h.offset_eq, h.node_unique, h.finite, h.link_mem, h.level_mem,
    h.bit, h.run_mem, fun w hw => ?_, fun _ => by simp [Queues.putToSleep]⟩
  cases hw
  obtain ⟨hv, hvm⟩ := h.run_mem r m v hr hrun
  exact ⟨hv, r, rfl, hvm ▸ hr⟩

theorem Wf.clearSlot (h : q.Wf n) : q.clearSlot.Wf n :=
  ⟨h.prio_lt, h.created_lt, h.offset_eq, h.node_unique, h.finite, h.link_mem, h.level_mem, h.bit,
    h.run_mem, nofun, fun hflag => absurd hflag (Int.lt_irrefl 0)⟩

theorem Wf.countDown (h : q.Wf n) {f : Int} (hflag : f > 0 → q.flag > 0) :
    { q with flag := f }.Wf n :=
  ⟨h.prio_lt, h.created_lt, h.offset_eq, h.node_unique, h.finite, h.link_mem, h.level_mem, h.bit,
    h.run_mem, h.sleep_mem, fun hf => h.flag_pos (hflag hf)⟩

/-- An insertion finds the end of its list. -/
theorem Wf.exists_tail (h : q.Wf n) {v : VNode} {r : RNode} (hv : q.created v = true)
    (hr : q.Home v r) {first : VNode} (hfirst : q.level r (q.prio v) = some first) :
    ∃ t, last q.next n first = some t := by
  obtain ⟨l, hl⟩ := h.finite (some first)
  have hmem := h.level_mem r _ _ first hr (h.prio_lt v hv) hfirst
  have hall : ∀ x ∈ l, q.created x = true := by
    refine hl.forall_mem (fun x hx => ?_) fun x y hx hxy => (h.link_mem x y hx hxy).1
    cases hx
    exact hmem.1
  have hlen := hl.length_le fun x hx => h.created_lt x (hall x hx)
  rcases List.eq_nil_or_concat l with rfl | ⟨l', t, rfl⟩
  · cases hl
  · rw [List.concat_eq_append] at hl hlen
    refine ⟨t, hl.last_eq ?_⟩
    rw [List.length_append, List.length_singleton] at hlen
    omega

end Queues

end Avisor
