import Avisor.Sched.QueueStep

/-!
# The contents of the queues

`Lists` gives the levels of all VMs' nodes as lists of vCPU nodes. An insertion puts a node at the end
of one of them, and a lookup takes the first node out of one. The moves of the scheduler keep every
vCPU node in one place, its level, its VM or the sleep slot, as long as a wake-up finds the sleeping
vCPU off its VM and a sleep hypercall finds the slot empty, or with a vCPU that its VM still has.
-/

namespace Avisor

open Function LinkedList

namespace Queues

variable (q : Queues) (lists : RNode → Nat → List VNode)

/-- `lists r i` are the nodes of level `i` of `r`, and each stands in the level of its priority of its
own VM's node. -/
structure Lists : Prop where
  chain : ∀ r m i, q.nodeVm r = some m → i < bmqBitmapSize →
    Chain q.next (q.level r i) (lists r i)
  mem : ∀ r m i v, q.nodeVm r = some m → i < bmqBitmapSize → v ∈ lists r i →
    q.created v = true ∧ q.vmOf v = m ∧ q.prio v = i

/-- `v` stands in the level of its priority. -/
def InQueue (v : VNode) : Prop := ∃ r, q.Home v r ∧ v ∈ lists r (q.prio v)

/-- `v` is the vCPU that its VM runs or ran last. -/
def Current (v : VNode) : Prop := ∃ r, q.Home v r ∧ q.run r = some v

/-- A vCPU node is in a queue exactly if it is neither current nor asleep. -/
def Balanced : Prop :=
  ∀ v, q.created v = true → (q.InQueue lists v ↔ ¬q.Current v ∧ q.sleep ≠ some v)

variable {q lists} {n : Nat}

theorem Lists.inQueue (h : q.Lists lists) {r : RNode} {m : VmId} {i : Nat} {v : VNode}
    (hr : q.nodeVm r = some m) (hi : i < bmqBitmapSize) (hv : v ∈ lists r i) :
    q.InQueue lists v := by
  obtain ⟨-, hvm, hprio⟩ := h.mem r m i v hr hi hv
  refine ⟨r, ?_, ?_⟩
  · rw [Home, hvm]
    exact hr
  · rw [hprio]
    exact hv

/-- `lists` with `v` at the end of level `i` of `r`. -/
def appendTo (lists : RNode → Nat → List VNode) (r : RNode) (i : Nat) (v : VNode) :
    RNode → Nat → List VNode :=
  fun r' i' => if r' = r ∧ i' = i then lists r' i' ++ [v] else lists r' i'

/-- `lists` without the first node of level `i` of `r`. -/
def dropFirst (lists : RNode → Nat → List VNode) (r : RNode) (i : Nat) : RNode → Nat → List VNode :=
  fun r' i' => if r' = r ∧ i' = i then (lists r' i').tail else lists r' i'

/-- Putting `v`, not in a queue, at the end of its level. -/
theorem Lists.insertAt (h : q.Lists lists) (hq : q.Wf n) {v : VNode} {r : RNode}
    {tail : Option VNode} (hv : q.created v = true) (hr : q.Home v r) (ht : q.Tail n v r tail)
    (hout : ¬q.InQueue lists v) :
    (q.insertAt v r tail).Lists (appendTo lists r (q.prio v) v) ∧
      ∀ w, (q.insertAt v r tail).InQueue (appendTo lists r (q.prio v) v) w ↔
        w = v ∨ q.InQueue lists w := by
  have hprio := hq.prio_lt v hv
  refine ⟨⟨?_, ?_⟩, ?_⟩
  · intro r' m i hr' hi
    have hchain := h.chain r' m i hr' hi
    have hvout : v ∉ lists r' i := fun hmem => hout (h.inQueue hr' hi hmem)
    by_cases heq : r' = r ∧ i = q.prio v
    · obtain ⟨rfl, rfl⟩ := heq
      simp only [appendTo, and_self, if_true]
      cases tail with
      | none =>
        have hnone : q.level r' (q.prio v) = none := ht
        rw [hnone, chain_none] at hchain
        rw [hchain]
        simp [Queues.insertAt, level]
      | some t =>
        obtain ⟨first, hfirst, hlast⟩ := ht
        obtain ⟨l, t', hl⟩ : ∃ l t', lists r' (q.prio v) = l ++ [t'] := by
          rcases List.eq_nil_or_concat (lists r' (q.prio v)) with hnil | ⟨l, t', hl⟩
          · rw [hnil, chain_nil, hfirst] at hchain
            cases hchain
          · exact ⟨l, t', by rw [hl, List.concat_eq_append]⟩
        rw [hl] at hchain hvout ⊢
        have htt : t' = t := by
          have hlink := hchain.last_link
          rw [hfirst] at hchain
          have hall : ∀ x ∈ l ++ [t'], q.created x = true := by
            intro x hx
            rw [← hl] at hx
            exact (h.mem r' m _ x hr' hi hx).1
          have hlen := hchain.length_le fun x hx => hq.created_lt x (hall x hx)
          rw [List.length_append, List.length_singleton] at hlen
          exact Option.some.inj ((hchain.last_eq (by omega)).symm.trans hlast)
        subst htt
        have hlevel : (q.insertAt v r' (some t')).level r' (q.prio v) = q.level r' (q.prio v) := rfl
        rw [hlevel]
        exact hchain.snoc hvout
    · simp only [appendTo, heq, if_false]
      cases tail with
      | none =>
        have hslot := hq.slot_ne hr hr' hprio hi heq
        have hlevel : (q.insertAt v r none).level r' i = q.level r' i := by
          simp [level, Queues.insertAt, hslot]
        rw [hlevel]
        exact hchain.update_of_notMem hvout
      | some t =>
        -- the list of the last node is another one
        have htout : t ∉ lists r' i := by
          intro hmem
          obtain ⟨first, hfirst, hlast⟩ := ht
          obtain ⟨-, htvm, htprio⟩ := h.mem r' m i t hr' hi hmem
          have hown : t ∈ lists r (q.prio v) := by
            have hchain := h.chain r _ _ hr hprio
            rw [hfirst] at hchain
            refine last_of_links (P := fun x => x ∈ lists r (q.prio v)) hlast hchain.head_mem ?_
            exact fun x y hx hxy => hchain.next_mem hx hxy
          obtain ⟨-, htvm', htprio'⟩ := h.mem r _ _ t hr hprio hown
          refine heq ⟨?_, htprio.symm.trans htprio'⟩
          refine hq.node_unique r' r (q.vmOf t) ?_ ?_
          · rw [htvm]
            exact hr'
          · rw [htvm']
            exact hr
        exact (hchain.update_of_notMem htout).update_of_notMem hvout
  · intro r' m i w hr' hi hw
    by_cases heq : r' = r ∧ i = q.prio v
    · obtain ⟨rfl, rfl⟩ := heq
      simp only [appendTo, and_self, if_true, List.mem_append, List.mem_singleton] at hw
      rcases hw with hw | rfl
      · exact h.mem r' m _ w hr' hi hw
      · exact ⟨hv, Option.some.inj (hr.symm.trans hr'), rfl⟩
    · simp only [appendTo, heq, if_false] at hw
      exact h.mem r' m i w hr' hi hw
  · intro w
    have hprio' : (q.insertAt v r tail).prio w = q.prio w := rfl
    constructor
    · rintro ⟨r', hr', hw⟩
      simp only [hprio', appendTo] at hw
      split at hw
      · rcases List.mem_append.mp hw with hw | hw
        · exact .inr ⟨r', hr', hw⟩
        · exact .inl (List.mem_singleton.mp hw)
      · exact .inr ⟨r', hr', hw⟩
    · rintro (rfl | ⟨r', hr', hw⟩)
      · refine ⟨r, hr, ?_⟩
        simp [hprio', appendTo]
      · refine ⟨r', hr', ?_⟩
        simp only [hprio', appendTo]
        split
        · exact List.mem_append_left _ hw
        · exact hw

/-- Taking the first node of a level. -/
theorem Lists.takeRun (h : q.Lists lists) (hq : q.Wf n) {v : VNode} {r : RNode} {m : VmId} {i : Nat}
    (hr : q.nodeVm r = some m) (hi : i < bmqBitmapSize) (hv : q.level r i = some v) :
    q.InQueue lists v ∧ (q.takeRun r i v).Lists (dropFirst lists r i) ∧
      ∀ w, (q.takeRun r i v).InQueue (dropFirst lists r i) w ↔ w ≠ v ∧ q.InQueue lists w := by
  have hfirst := h.chain r m i hr hi
  rw [hv] at hfirst
  obtain ⟨rest, hrest, hchain⟩ := chain_some.mp hfirst
  have hmem : v ∈ lists r i := hfirst.head_mem
  obtain ⟨hcreated, hvm, hprio⟩ := h.mem r m i v hr hi hmem
  have hnodup := hfirst.nodup
  rw [hrest, List.nodup_cons] at hnodup
  have hothers {r' m' i'} (hr' : q.nodeVm r' = some m') (hi' : i' < bmqBitmapSize)
      (hne : ¬(r' = r ∧ i' = i)) : v ∉ lists r' i' := by
    intro hv'
    obtain ⟨-, hvm', hprio'⟩ := h.mem r' m' i' v hr' hi' hv'
    refine hne ⟨hq.node_unique r' r (q.vmOf v) ?_ ?_, hprio'.symm.trans hprio⟩
    · rw [hvm']
      exact hr'
    · rw [hvm]
      exact hr
  have hdrop (r' i') : dropFirst lists r i r' i' = if r' = r ∧ i' = i then rest else lists r' i' := by
    simp only [dropFirst]
    split
    · rename_i heq
      rw [heq.1, heq.2, hrest, List.tail_cons]
    · rfl
  refine ⟨h.inQueue hr hi hmem, ⟨?_, ?_⟩, ?_⟩
  · intro r' m' i' hr' hi'
    by_cases heq : r' = r ∧ i' = i
    · obtain ⟨rfl, rfl⟩ := heq
      simp only [hdrop, and_self, if_true]
      have hlevel : (q.takeRun r' i' v).level r' i' = q.next v := by
        simp [level, Queues.takeRun]
      rw [hlevel]
      exact hchain.update_of_notMem hnodup.1
    · simp only [hdrop, heq, if_false]
      have hslot := hq.slot_ne hr hr' hi hi' heq
      have hlevel : (q.takeRun r i v).level r' i' = q.level r' i' := by
        simp [level, Queues.takeRun, hslot]
      rw [hlevel]
      exact (h.chain r' m' i' hr' hi').update_of_notMem (hothers hr' hi' heq)
  · intro r' m' i' w hr' hi' hw
    by_cases heq : r' = r ∧ i' = i
    · obtain ⟨rfl, rfl⟩ := heq
      simp only [hdrop, and_self, if_true] at hw
      exact h.mem r' m' i' w hr' hi' (hrest ▸ List.mem_cons_of_mem _ hw)
    · simp only [hdrop, heq, if_false] at hw
      exact h.mem r' m' i' w hr' hi' hw
  · intro w
    have hprioW : (q.takeRun r i v).prio w = q.prio w := rfl
    constructor
    · rintro ⟨r', hr', hw⟩
      simp only [hprioW, hdrop] at hw
      split at hw
      · rename_i heq
        refine ⟨?_, r', hr', ?_⟩
        · rintro rfl
          exact hnodup.1 hw
        · rw [heq.1, heq.2, hrest]
          exact List.mem_cons_of_mem _ hw
      · rename_i heq
        refine ⟨?_, r', hr', hw⟩
        rintro rfl
        refine hothers hr' ?_ heq hw
        rw [hprio]
        exact hi
    · rintro ⟨hwv, r', hr', hw⟩
      refine ⟨r', hr', ?_⟩
      simp only [hprioW, hdrop]
      split
      · rename_i heq
        rw [heq.1, heq.2, hrest] at hw
        exact (List.mem_cons.mp hw).resolve_left hwv
      · exact hw

/-- Giving a node that is in no queue another priority. -/
theorem Lists.setPrio (h : q.Lists lists) {v : VNode} {p : Nat} (hout : ¬q.InQueue lists v)
    (hp : p < bmqBitmapSize) : (q.setPrio v p).Lists lists ∧
      ∀ w, (q.setPrio v p).InQueue lists w ↔ q.InQueue lists w := by
  have hne {r m i w} (hr : q.nodeVm r = some m) (hi : i < bmqBitmapSize) (hw : w ∈ lists r i) :
      w ≠ v := by
    rintro rfl
    exact hout (h.inQueue hr hi hw)
  refine ⟨⟨h.chain, fun r m i w hr hi hw => ?_⟩, fun w => ?_⟩
  · obtain ⟨hcreated, hvm, hprio⟩ := h.mem r m i w hr hi hw
    refine ⟨hcreated, hvm, ?_⟩
    simp only [Queues.setPrio, update_of_ne (hne hr hi hw)]
    exact hprio
  · by_cases hwv : w = v
    · subst hwv
      refine iff_of_false ?_ hout
      rintro ⟨r, hr, hw⟩
      have hprio : (q.setPrio w p).prio w = p := by simp [Queues.setPrio]
      rw [hprio] at hw
      exact hne hr hp hw rfl
    · simp only [InQueue, Queues.setPrio, update_of_ne hwv, Home]

/-- Handing out a node: it is in no queue yet. -/
theorem Lists.create (h : q.Lists lists) {v : VNode} {m : VmId} {p : Nat}
    (hv : q.created v = false) : (q.create v m p).Lists lists ∧
      (p < bmqBitmapSize → ¬(q.create v m p).InQueue lists v) ∧
      ∀ w, w ≠ v → ((q.create v m p).InQueue lists w ↔ q.InQueue lists w) := by
  have hne {r m' i w} (hr : q.nodeVm r = some m') (hi : i < bmqBitmapSize) (hw : w ∈ lists r i) :
      w ≠ v := by
    rintro rfl
    rw [(h.mem r m' i w hr hi hw).1] at hv
    cases hv
  refine ⟨⟨fun r m' i hr hi => ?_, fun r m' i w hr hi hw => ?_⟩, fun hp => ?_, fun w hwv => ?_⟩
  · exact (h.chain r m' i hr hi).update_of_notMem fun hmem => hne hr hi hmem rfl
  · obtain ⟨hcreated, hvm, hprio⟩ := h.mem r m' i w hr hi hw
    simp only [Queues.create, update_of_ne (hne hr hi hw)]
    exact ⟨hcreated, hvm, hprio⟩
  · rintro ⟨r, hr, hw⟩
    have hprio : (q.create v m p).prio v = p := by simp [Queues.create]
    rw [hprio] at hw
    exact hne hr hp hw rfl
  · simp only [InQueue, Home, Queues.create, update_of_ne hwv]

/-- The links determine the lists. -/
theorem Lists.inQueue_congr {lists' : RNode → Nat → List VNode} (h : q.Lists lists)
    (h' : q.Lists lists') (hq : q.Wf n) {v : VNode} (hv : q.created v = true) :
    q.InQueue lists v ↔ q.InQueue lists' v := by
  refine exists_congr fun r => and_congr_right fun hr => ?_
  rw [(h.chain r _ _ hr (hq.prio_lt v hv)).unique (h'.chain r _ _ hr (hq.prio_lt v hv))]

/-! ### The placement and the moves -/

/-- Every vCPU node handed out is in one place. -/
def InPlace (q : Queues) : Prop := ∃ lists, q.Lists lists ∧ q.Balanced lists

/-- The sleeping vCPU is the one that its VM runs or ran last. -/
def SleeperCurrent (q : Queues) : Prop :=
  ∀ v r, q.sleep = some v → q.sleepNode = some r → q.run r = some v

/-- The sleeping vCPU is not the one that its VM runs or ran last. -/
def SleeperGone (q : Queues) : Prop :=
  ∀ v r, q.sleep = some v → q.sleepNode = some r → q.run r ≠ some v

/-- What an event must find to keep the placement. -/
def Allows (q : Queues) : QueueEvent → Prop
  | .wake => q.SleeperGone
  | .sleep => q.SleeperCurrent
  | _ => True

theorem Wf.home_unique (hq : q.Wf n) {v : VNode} {r r' : RNode} (h : q.Home v r)
    (h' : q.Home v r') : r = r' := hq.node_unique r r' _ h h'

theorem wake_inPlace {v : VNode} {r : RNode} {tail : Option VNode} (hq : q.Wf n) (hp : q.InPlace)
    (sleeper : q.sleep = some v) (home : q.sleepNode = some r) (hasTail : q.Tail n v r tail) :
    (q.insertAt v r tail).clearSlot.InPlace ↔ q.SleeperGone := by
  obtain ⟨lists, hlists, hbalanced⟩ := hp
  obtain ⟨hv, r', hr', hhome⟩ := hq.sleep_mem v sleeper
  obtain rfl : r = r' := Option.some.inj (home.symm.trans hr')
  have hout : ¬q.InQueue lists v := fun hin => ((hbalanced v hv).mp hin).2 sleeper
  obtain ⟨hlists', hin⟩ := hlists.insertAt hq hv hhome hasTail hout
  have hgone : q.SleeperGone ↔ ¬q.Current v := by
    constructor
    · rintro hgone ⟨x, hx, hrun⟩
      rw [hq.home_unique hx hhome] at hrun
      exact hgone v r sleeper home hrun
    · intro hcurrent w x hw hx hrun
      obtain rfl : v = w := Option.some.inj (sleeper.symm.trans hw)
      obtain rfl : r = x := Option.some.inj (home.symm.trans hx)
      exact hcurrent ⟨r, hhome, hrun⟩
  rw [hgone]
  constructor
  · rintro ⟨lists'', hlists'', hbalanced''⟩ hcurrent
    have hsame : (q.insertAt v r tail).Lists lists'' := ⟨hlists''.chain, hlists''.mem⟩
    have hin'' : (q.insertAt v r tail).InQueue lists'' v :=
      (hlists'.inQueue_congr hsame (hq.insertAt hv hhome hasTail) hv).mp ((hin v).mpr (.inl rfl))
    exact ((hbalanced'' v hv).mp hin'').1 hcurrent
  · refine fun hcurrent => ⟨_, ⟨hlists'.chain, hlists'.mem⟩, fun w hw => ?_⟩
    have hclear : (q.insertAt v r tail).clearSlot.sleep ≠ some w := by simp [clearSlot]
    refine (hin w).trans ?_
    by_cases hwv : w = v
    · subst hwv
      exact iff_of_true (.inl rfl) ⟨hcurrent, hclear⟩
    · have hawake : q.sleep ≠ some w := by
        rw [sleeper]
        exact fun heq => hwv (Option.some.inj heq).symm
      have hold := hbalanced w hw
      simp only [hwv, false_or, hold, hawake, ne_eq, not_false_eq_true, and_true]
      exact ⟨fun h => ⟨h, hclear⟩, fun h => h.1⟩

theorem sleep_inPlace {v : VNode} {r : RNode} {m : VmId} {p : Nat} (hq : q.Wf n) (hp : q.InPlace)
    (node : q.nodeVm r = some m) (run : q.run r = some v) (prio : p < bmqBitmapSize) :
    ((q.setPrio v p).putToSleep v r).InPlace ↔ q.SleeperCurrent := by
  obtain ⟨lists, hlists, hbalanced⟩ := hp
  obtain ⟨hv, hvm⟩ := hq.run_mem r m v node run
  have hcurrent : q.Current v := ⟨r, node.trans (congrArg some hvm.symm), run⟩
  have hout : ¬q.InQueue lists v := fun hin => ((hbalanced v hv).mp hin).1 hcurrent
  obtain ⟨hlists', hin⟩ := hlists.setPrio hout prio
  constructor
  · rintro ⟨lists'', hlists'', hbalanced''⟩ u x hu hx
    obtain ⟨hucreated, x', hx', huhome⟩ := hq.sleep_mem u hu
    obtain rfl : x = x' := Option.some.inj (hx.symm.trans hx')
    have hsame : (q.setPrio v p).Lists lists'' := ⟨hlists''.chain, hlists''.mem⟩
    have hcongr := hlists'.inQueue_congr hsame (hq.setPrio prio) hucreated
    have huout : ¬(q.setPrio v p).InQueue lists'' u := by
      rw [← hcongr, hin]
      exact fun h => ((hbalanced u hucreated).mp h).2 hu
    by_contra hrun
    refine huout ((hbalanced'' u hucreated).mpr ⟨?_, fun hsleep => ?_⟩)
    · rintro ⟨y, hy, hyrun⟩
      rw [hq.home_unique hy huhome] at hyrun
      exact hrun hyrun
    · obtain rfl : v = u := Option.some.inj hsleep
      obtain rfl : r = x := hq.home_unique (node.trans (congrArg some hvm.symm)) huhome
      exact hrun run
  · refine fun hsleeper => ⟨lists, ⟨hlists'.chain, hlists'.mem⟩, fun w hw => ?_⟩
    refine (hin w).trans ((hbalanced w hw).trans ?_)
    by_cases hsleep : q.sleep = some w
    · obtain ⟨-, x, hx, hhome⟩ := hq.sleep_mem w hsleep
      have hwcurrent : q.Current w := ⟨x, hhome, hsleeper w x hsleep hx⟩
      exact iff_of_false (fun h => h.1 hwcurrent) fun h => h.1 hwcurrent
    · refine ⟨fun h => ⟨h.1, fun heq => ?_⟩, fun h => ⟨h.1, hsleep⟩⟩
      obtain rfl : v = w := Option.some.inj heq
      exact h.1 hcurrent

theorem start_inPlace {v : VNode} {r : RNode} {m : VmId} {p : Nat} {tail : Option VNode}
    (hq : q.Wf n) (hp : q.InPlace) (node : q.nodeVm r = some m) (fresh : q.created v = false)
    (lt : v < n) (prio : p < bmqBitmapSize) (hasTail : (q.create v m p).Tail n v r tail) :
    ((q.create v m p).insertAt v r tail).InPlace := by
  obtain ⟨lists, hlists, hbalanced⟩ := hp
  obtain ⟨hlists', hout, hin⟩ := hlists.create (m := m) (p := p) fresh
  have hcreated : (q.create v m p).created v = true := by simp [create]
  have hhome : (q.create v m p).Home v r := by
    simp only [Home, create, update_self]
    exact node
  obtain ⟨hlists'', hin''⟩ :=
    hlists'.insertAt (hq.create fresh lt prio) hcreated hhome hasTail (hout prio)
  refine ⟨_, hlists'', fun w hw => ?_⟩
  rw [hin'']
  by_cases hwv : w = v
  · subst hwv
    refine iff_of_true (.inl rfl) ⟨?_, fun hsleep => ?_⟩
    · rintro ⟨x, hx, hrun⟩
      have hcontra := (hq.run_mem x _ w hx hrun).1
      rw [fresh] at hcontra
      cases hcontra
    · have hcontra := (hq.sleep_mem w hsleep).1
      rw [fresh] at hcontra
      cases hcontra
  · have hwcreated : q.created w = true := by
      simp only [Queues.insertAt, create, update_of_ne hwv] at hw
      exact hw
    rw [hin w hwv, hbalanced w hwcreated]
    simp only [hwv, false_or, Current, Home, Queues.insertAt, create, update_of_ne hwv]

/-- A vCPU node is in a queue exactly if no VM but that of `r` has it as current one and it is not
asleep. -/
def BalancedBut (q : Queues) (lists : RNode → Nat → List VNode) (r : RNode) : Prop :=
  ∀ v, q.created v = true →
    (q.InQueue lists v ↔ ¬(∃ r', r' ≠ r ∧ q.Home v r' ∧ q.run r' = some v) ∧ q.sleep ≠ some v)

theorem Requeue.balanced {u : Queues} {r : RNode} {m : VmId} (h : q.Requeue n r u) (hq : q.Wf n)
    (hp : q.InPlace) (node : q.nodeVm r = some m) :
    ∃ lists, u.Lists lists ∧ u.BalancedBut lists r := by
  obtain ⟨lists, hlists, hbalanced⟩ := hp
  cases h with
  | keep sleeps =>
    refine ⟨lists, hlists, fun w hw => (hbalanced w hw).trans (and_congr_left fun hawake => ?_)⟩
    refine not_congr ⟨?_, ?_⟩
    · rintro ⟨x, hx, hrun⟩
      refine ⟨x, ?_, hx, hrun⟩
      rintro rfl
      exact hawake (sleeps w hrun)
    · rintro ⟨x, -, hx, hrun⟩
      exact ⟨x, hx, hrun⟩
  | insert v p tail run awake prio hasTail =>
    obtain ⟨hv, hvm⟩ := hq.run_mem r m v node run
    have hhome : q.Home v r := node.trans (congrArg some hvm.symm)
    have hcurrent : q.Current v := ⟨r, hhome, run⟩
    have hout : ¬q.InQueue lists v := fun hin => ((hbalanced v hv).mp hin).1 hcurrent
    obtain ⟨hlists', hin'⟩ := hlists.setPrio hout prio
    obtain ⟨hlists'', hin''⟩ := hlists'.insertAt (hq.setPrio prio) hv hhome hasTail (by rwa [hin'])
    refine ⟨_, hlists'', fun w hw => ?_⟩
    rw [hin'', hin']
    by_cases hwv : w = v
    · subst hwv
      refine iff_of_true (.inl rfl) ⟨?_, awake⟩
      rintro ⟨x, hxr, hx, -⟩
      exact hxr (hq.home_unique hx hhome)
    · simp only [hwv, false_or]
      refine (hbalanced w hw).trans (and_congr_left fun _ => not_congr ⟨?_, ?_⟩)
      · rintro ⟨x, hx, hrun⟩
        refine ⟨x, ?_, hx, hrun⟩
        rintro rfl
        exact hwv (Option.some.inj (hrun.symm.trans run))
      · rintro ⟨x, -, hx, hrun⟩
        exact ⟨x, hx, hrun⟩

theorem run_inPlace {v : VNode} {r : RNode} {m : VmId} {i : Nat} {lists : RNode → Nat → List VNode}
    (hq : q.Wf n) (hlists : q.Lists lists) (hbalanced : q.BalancedBut lists r)
    (node : q.nodeVm r = some m) (lt : i < bmqBitmapSize) (first : q.level r i = some v) :
    (q.takeRun r i v).InPlace := by
  obtain ⟨hvin, hlists', hin'⟩ := hlists.takeRun hq node lt first
  obtain ⟨hv, hvm⟩ := hq.level_mem r m i v node lt first
  have hhome : q.Home v r := node.trans (congrArg some hvm.symm)
  refine ⟨_, hlists', fun w hw => ?_⟩
  rw [hin']
  by_cases hwv : w = v
  · subst hwv
    refine iff_of_false (fun h => h.1 rfl) fun h => h.1 ⟨r, hhome, ?_⟩
    simp [Queues.takeRun]
  · simp only [hwv, ne_eq, not_false_eq_true, true_and]
    refine (hbalanced w hw).trans (and_congr_left fun _ => not_congr ⟨?_, ?_⟩)
    · rintro ⟨x, hxr, hx, hrun⟩
      refine ⟨x, hx, ?_⟩
      simp only [Queues.takeRun, update_of_ne hxr]
      exact hrun
    · rintro ⟨x, hx, hrun⟩
      simp only [Queues.takeRun] at hrun
      by_cases hxr : x = r
      · subst hxr
        rw [update_self] at hrun
        exact absurd (Option.some.inj hrun).symm hwv
      · rw [update_of_ne hxr] at hrun
        exact ⟨x, hxr, hx, hrun⟩

theorem Requeue.eq_of_empty {u : Queues} {r : RNode} (h : q.Requeue n r u)
    (hempty : ∀ i < bmqBitmapSize, u.level r i = none) : u = q := by
  cases h with
  | keep => rfl
  | insert v p tail run awake prio hasTail =>
    have hlevel := hempty p prio
    have hp : (q.setPrio v p).prio v = p := by simp [Queues.setPrio]
    cases tail with
    | none => simp [level, Queues.insertAt, hp] at hlevel
    | some t =>
      obtain ⟨first, hfirst, -⟩ := hasTail
      rw [hp] at hfirst
      have hsame : ((q.setPrio v p).insertAt v r (some t)).level r p = (q.setPrio v p).level r p := rfl
      rw [hsame, hfirst] at hlevel
      cases hlevel

/-- A move keeps the placement exactly if its event allows it. -/
theorem Move.inPlace_iff {e : QueueEvent} {q' : Queues} {x : Option RNode} (h : q.Move n x e q') (hq : q.Wf n)
    (hp : q.InPlace) (hfind : e ≠ .find) : q'.InPlace ↔ q.Allows e := by
  cases h with
  | stay => exact iff_of_true hp trivial
  | count f flag =>
    obtain ⟨lists, hlists, hbalanced⟩ := hp
    exact iff_of_true ⟨lists, ⟨hlists.chain, hlists.mem⟩, hbalanced⟩ trivial
  | wake v r tail sleeper home hasTail => exact wake_inPlace hq hp sleeper home hasTail
  | sleep v r m p holds node run prio => exact sleep_inPlace hq hp node run prio
  | start v r m p tail holds node fresh lt prio hasTail =>
    exact iff_of_true (start_inPlace hq hp node fresh lt prio hasTail) trivial
  | spin r m u holds node requeue none =>
    rw [requeue.eq_of_empty none]
    exact iff_of_true hp trivial
  | run r m u i v holds node requeue lt first =>
    obtain ⟨lists, hlists, hbalanced⟩ := requeue.balanced hq hp node
    have hnode : u.nodeVm r = some m := by
      rw [requeue.nodeVm]
      exact node
    exact iff_of_true (run_inPlace (requeue.wf hq node) hlists hbalanced hnode lt first) trivial
  | find => exact absurd rfl hfind

end Queues

end Avisor
