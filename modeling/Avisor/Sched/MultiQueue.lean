import Avisor.Lib.PriorityQueue
import Avisor.Sched.Boot

/-!
# The queue of a run queue node

The ten lists and the bitmap of a run queue node are one stable priority queue. `Serves` relates them
to the vCPU nodes in the order of their insertion; `v_task_insert` and `v_task_lookup` are the calls
of that queue.
-/

namespace Avisor

open Function LinkedList PriorityQueue

/-- `v->prio`. -/
def SchedState.prioOf (s : SchedState) (v : VNode) : Nat := (s.vpnodeMemory v).prio

@[simp] theorem prioOf_relink (s : SchedState) (r : RNode) (bitmap : BitVec 64) (nr : BitVec 32)
    (next : VNode → Option VNode) (levels : Nat → Option VNode) :
    (s.relink r bitmap nr next levels).prioOf = s.prioOf := rfl

/-- The run queue node `r` holds the vCPU nodes `q`, given in the order of their insertion: the list
of a level links those of its priority in that order, and its bit tells whether there are any. -/
structure Serves (cfg : SchedConfig) (s : SchedState) (r : RNode) (q : List VNode) : Prop where
  chain : ∀ i < bmqBitmapSize, Chain s.vnext (s.level r i) (level s.prioOf q i)
  bit : ∀ i, (s.rqnodeMemory r).bitmap.getLsbD i = true ↔ level s.prioOf q i ≠ []
  nodup : q.Nodup
  inMemory : ∀ v ∈ q, v < cfg.vnodeNum
  prio_lt : ∀ v ∈ q, s.prioOf v < bmqBitmapSize

variable {cfg : SchedConfig} {s t : SchedState} {r : RNode} {v : VNode} {q : List VNode}

theorem queued_withRqnode (s : SchedState) (r : RNode) (vm : Option VmId) (prio : Nat) :
    Serves cfg (s.withRqnode r vm prio) r [] := by
  refine ⟨fun i hi => ?_, fun i => ?_, List.nodup_nil, by simp, by simp⟩
  · have hlevel : (s.withRqnode r vm prio).level r i = none := by
      simp [SchedState.level, SchedState.withRqnode, hi]
    rw [hlevel]
    exact chain_none.mpr rfl
  · simp [SchedState.withRqnode]

/-- A queue does not see what changes outside its lists and its bitmap. -/
theorem Serves.congr (h : Serves cfg s r q) (hnext : ∀ v ∈ q, t.vnext v = s.vnext v)
    (hprio : ∀ v ∈ q, t.prioOf v = s.prioOf v) (hlevel : ∀ i, t.level r i = s.level r i)
    (hbitmap : (t.rqnodeMemory r).bitmap = (s.rqnodeMemory r).bitmap) : Serves cfg t r q := by
  refine ⟨fun i hi => ?_, fun i => ?_, h.nodup, h.inMemory, fun v hv => ?_⟩
  · rw [hlevel, level_congr hprio]
    exact (h.chain i hi).congr fun v hv => hnext v (mem_level.mp hv).1
  · rw [hbitmap, level_congr hprio]
    exact h.bit i
  · rw [hprio v hv]
    exact h.prio_lt v hv

theorem Serves.modifyVnode (h : Serves cfg s r q) (hv : v ∉ q) (f : VCpuNode → VCpuNode) :
    Serves cfg (s.modifyVnode v f) r q := by
  have hne {w} (hw : w ∈ q) : w ≠ v := by
    rintro rfl
    exact hv hw
  apply h.congr
  · intro w hw
    simp [SchedState.vnext, SchedState.modifyVnode, hne hw]
  · intro w hw
    simp [SchedState.prioOf, SchedState.modifyVnode, hne hw]
  · exact fun i => rfl
  · rfl

/-- The list of a level that is not empty has an end within reach. -/
theorem Serves.last (h : Serves cfg s r q) {i : Nat} (hi : i < bmqBitmapSize) {first : VNode}
    (hfirst : s.level r i = some first) :
    ∃ l tail, level s.prioOf q i = l ++ [tail] ∧
      LinkedList.last s.vnext cfg.vnodeNum first = some tail := by
  have hchain := h.chain i hi
  rw [hfirst] at hchain
  have hlen := hchain.length_le fun v hv => h.inMemory v (mem_level.mp hv).1
  rcases List.eq_nil_or_concat (level s.prioOf q i) with hnil | ⟨l, tail, hl⟩
  · rw [hnil] at hchain
    cases hchain
  · rw [List.concat_eq_append] at hl
    rw [hl] at hchain hlen
    rw [List.length_append, List.length_singleton] at hlen
    exact ⟨l, tail, hl, hchain.last_eq hlen⟩

theorem Serves.insert_isSome (h : Serves cfg s r q) (hprio : s.prioOf v < bmqBitmapSize) :
    ∃ t, vTaskInsert cfg s v r = some t := by
  apply vTaskInsert_isSome
  intro first hfirst
  obtain ⟨-, tail, -, htail⟩ := h.last hprio hfirst
  exact ⟨tail, htail⟩

private theorem getLsbD_shift_one {p : Nat} (hp : p < bmqBitmapSize) (i : Nat) :
    (1#64 <<< p).getLsbD i = decide (i = p) := by
  simp only [bmqBitmapSize] at hp
  rw [Bool.eq_iff_iff, BitVec.getLsbD_shiftLeft, BitVec.getLsbD_one]
  simp only [Bool.and_eq_true, decide_eq_true_eq, Bool.not_eq_true', decide_eq_false_iff_not]
  omega

/-- An insertion puts the node behind all the others. -/
theorem Serves.insert (h : Serves cfg s r q) (hv : v ∉ q) (hlt : v < cfg.vnodeNum)
    (hprio : s.prioOf v < bmqBitmapSize) (ht : vTaskInsert cfg s v r = some t) :
    Serves cfg t r (q ++ [v]) := by
  obtain ⟨next, levels, rfl, hstored⟩ := vTaskInsert_eq_some ht
  have hout (i) : v ∉ level s.prioOf q i := fun hmem => hv (mem_level.mp hmem).1
  refine ⟨fun i hi => ?_, fun i => ?_, ?_, ?_, ?_⟩
  · have hchain := h.chain i hi
    rw [prioOf_relink, SchedState.relink_vnext, SchedState.relink_level, level_append]
    rcases hstored with ⟨hnone, rfl, rfl⟩ | ⟨first, tail, hfirst, htail, rfl, rfl⟩
    · by_cases hiv : i = s.prioOf v
      · subst hiv
        have hempty : level s.prioOf q (s.prioOf v) = [] := by
          rw [show s.level r (s.prioOf v) = none from hnone] at hchain
          exact chain_none.mp hchain
        rw [if_pos rfl, hempty]
        simp [SchedState.prioOf]
      · have hslot : (s.rqnodeMemory r).multiQueue + i ≠
            (s.rqnodeMemory r).multiQueue + (s.vpnodeMemory v).prio :=
          fun heq => hiv (Nat.add_left_cancel heq)
        rw [if_neg hiv, update_of_ne hslot]
        exact hchain.update_of_notMem (hout i)
    · obtain ⟨l, tail', hl, htail'⟩ := h.last hprio hfirst
      obtain rfl : tail = tail' := Option.some.inj (htail.symm.trans htail')
      by_cases hiv : i = s.prioOf v
      · subst hiv
        have hout' := hout (s.prioOf v)
        rw [hl] at hchain hout'
        rw [if_pos rfl, hl]
        exact hchain.snoc hout'
      · -- the last node of the level of `v` is in no other level
        have htail_out : tail ∉ level s.prioOf q i := by
          intro hmem
          have hmem' : tail ∈ level s.prioOf q (s.prioOf v) := by
            rw [hl]
            exact List.mem_append_right _ List.mem_cons_self
          exact hiv ((mem_level.mp hmem).2.symm.trans (mem_level.mp hmem').2)
        rw [if_neg hiv]
        exact (hchain.update_of_notMem htail_out).update_of_notMem (hout i)
  · have hold := h.bit i
    rw [prioOf_relink, SchedState.relink_bitmap, if_pos rfl, BitVec.getLsbD_or, Bool.or_eq_true, hold,
      show (s.vpnodeMemory v).prio = s.prioOf v from rfl, getLsbD_shift_one hprio, level_append]
    by_cases hiv : i = s.prioOf v <;> simp [hiv]
  · exact List.nodup_append.mpr ⟨h.nodup, List.nodup_singleton v, fun x hx y hy hxy => by
      rw [List.mem_singleton.mp hy] at hxy
      exact hv (hxy ▸ hx)⟩
  · intro x hx
    rcases List.mem_append.mp hx with hx | hx
    · exact h.inMemory x hx
    · rw [List.mem_singleton.mp hx]
      exact hlt
  · intro x hx
    rcases List.mem_append.mp hx with hx | hx
    · exact h.prio_lt x hx
    · rw [List.mem_singleton.mp hx]
      exact hprio

/-- A lookup returns a node exactly if there is one, and the node that a stable priority queue would
return. -/
theorem Serves.lookup (h : Serves cfg s r q) :
    ∃ t, vTaskLookup s r = some ((lookup s.prioOf q).1, t) ∧
      Serves cfg t r (lookup s.prioOf q).2 ∧ t.prioOf = s.prioOf := by
  cases hi : firstLevel (s.rqnodeMemory r).bitmap with
  | none =>
    have hempty : q = [] := by
      apply List.eq_nil_iff_forall_not_mem.mpr
      intro v hv
      have hbit := firstLevel_eq_none.mp hi (s.prioOf v) (h.prio_lt v hv)
      have hmem : v ∈ level s.prioOf q (s.prioOf v) := mem_level.mpr ⟨hv, rfl⟩
      rw [Bool.eq_false_iff, ne_eq, h.bit, not_not] at hbit
      rw [hbit] at hmem
      cases hmem
    subst hempty
    refine ⟨s, ?_, h, rfl⟩
    simp only [vTaskLookup, hi, lookup_nil]
  | some i =>
    obtain ⟨hlt, hbit⟩ := firstLevel_eq_some hi
    obtain ⟨v, rest, hlevel⟩ := List.exists_cons_of_ne_nil ((h.bit i).mp hbit)
    have hchain := h.chain i hlt
    rw [hlevel, chain_cons] at hchain
    obtain ⟨hfirst, hrest⟩ := hchain
    have hlower (j) (hj : j < i) : level s.prioOf q j = [] := by
      have hunset := firstLevel_lower hi hj
      rw [Bool.eq_false_iff, ne_eq, h.bit, not_not] at hunset
      exact hunset
    obtain ⟨t, ht⟩ : ∃ t, vTaskLookup s r = some (some v, t) := by
      simp only [vTaskLookup, hi, hfirst]
      exact ⟨_, rfl⟩
    obtain ⟨i', hi', -, rfl⟩ := vTaskLookup_eq_some ht
    obtain rfl : i = i' := Option.some.inj (hi.symm.trans hi')
    obtain ⟨hmem, hprio⟩ := mem_level.mp (hlevel ▸ List.mem_cons_self : v ∈ level s.prioOf q i)
    have hlast : s.vnext v = none ↔ rest = [] := by
      constructor
      · intro hnone
        rw [hnone] at hrest
        exact chain_none.mp hrest
      · rintro rfl
        exact hrest
    have hnodup : (v :: rest).Nodup := hlevel ▸ h.nodup.filter _
    rw [lookup_eq_some hlevel hlower]
    refine ⟨_, ht, ⟨fun j hj => ?_, fun j => ?_, h.nodup.erase v,
      fun x hx => h.inMemory x (List.mem_of_mem_erase hx),
      fun x hx => h.prio_lt x (List.mem_of_mem_erase hx)⟩, rfl⟩
    · rw [prioOf_relink, SchedState.relink_vnext, SchedState.relink_level, level_erase h.nodup]
      by_cases hji : j = i
      · subst hji
        rw [update_self, hlevel, List.erase_cons_head]
        exact hrest.update_of_notMem (List.nodup_cons.mp hnodup).1
      · have hslot : (s.rqnodeMemory r).multiQueue + j ≠ (s.rqnodeMemory r).multiQueue + i :=
          fun heq => hji (Nat.add_left_cancel heq)
        have hout : v ∉ level s.prioOf q j := fun hv => hji ((mem_level.mp hv).2.symm.trans hprio)
        rw [update_of_ne hslot, List.erase_of_not_mem hout]
        exact (h.chain j hj).update_of_notMem hout
    · have hold := h.bit j
      rw [prioOf_relink, SchedState.relink_bitmap, if_pos rfl]
      by_cases hji : j = i
      · subst hji
        rw [level_erase h.nodup, hlevel, List.erase_cons_head]
        by_cases hnone : s.vnext v = none
        · rw [if_pos hnone, BitVec.getLsbD_and, BitVec.getLsbD_not, getLsbD_shift_one hlt]
          simp [hlast.mp hnone]
        · rw [if_neg hnone]
          exact iff_of_true hbit fun hnil => hnone (hlast.mpr hnil)
      · rw [level_erase_of_ne h.nodup (hprio ▸ hji), ← hold]
        split
        · rw [BitVec.getLsbD_and, BitVec.getLsbD_not, getLsbD_shift_one hlt]
          simp only [hji, decide_false, Bool.not_false, Bool.and_true, Bool.and_eq_true,
            decide_eq_true_eq, and_iff_left_iff_imp]
          exact BitVec.lt_of_getLsbD
        · rfl

/-! ### Sequences of calls -/

/-- Calls of `v_task_insert` and `v_task_lookup` on the node `r`: what the lookups return, and the
state the last call leaves. -/
def queueCalls (cfg : SchedConfig) (r : RNode) :
    SchedState → List (Op VNode) → Option (List (Option VNode) × SchedState)
  | s, [] => some ([], s)
  | s, .insert v :: ops => (vTaskInsert cfg s v r).bind fun s => queueCalls cfg r s ops
  | s, .lookup :: ops =>
    (vTaskLookup s r).bind fun (found, s) =>
      (queueCalls cfg r s ops).map fun (rest, s) => (found :: rest, s)

/-- The vCPU nodes that can be queued. -/
def SchedState.Queueable (s : SchedState) (cfg : SchedConfig) (v : VNode) : Prop :=
  v < cfg.vnodeNum ∧ s.prioOf v < prioWidth

instance (s : SchedState) (cfg : SchedConfig) : DecidablePred (s.Queueable cfg) :=
  fun v => inferInstanceAs (Decidable (v < cfg.vnodeNum ∧ s.prioOf v < prioWidth))

theorem queueable_congr (h : t.prioOf = s.prioOf) : t.Queueable cfg = s.Queueable cfg := by
  funext v
  rw [SchedState.Queueable, SchedState.Queueable, h]

theorem prioOf_vTaskInsert (h : vTaskInsert cfg s v r = some t) : t.prioOf = s.prioOf := by
  obtain ⟨next, levels, rfl, -⟩ := vTaskInsert_eq_some h
  rfl

theorem Serves.calls {ops : List (Op VNode)} (h : Serves cfg s r q)
    (hops : Admits s.prioOf (s.Queueable cfg) q ops) :
    ∃ t, queueCalls cfg r s ops = some ((run s.prioOf q ops).1, t) ∧
      Serves cfg t r (run s.prioOf q ops).2 := by
  induction ops generalizing s q with
  | nil => exact ⟨s, rfl, h⟩
  | cons op ops ih =>
    cases op with
    | insert v =>
      obtain ⟨hv, ⟨hlt, hprio⟩, hrest⟩ := hops
      obtain ⟨u, hu⟩ := h.insert_isSome hprio
      have hsame := prioOf_vTaskInsert hu
      have hinserted := h.insert hv hlt hprio hu
      obtain ⟨t, ht, hqueued⟩ := ih hinserted (by rwa [hsame, queueable_congr hsame])
      rw [hsame] at ht hqueued
      refine ⟨t, ?_, hqueued⟩
      rw [queueCalls, hu, Option.bind_some, ht]
      rfl
    | lookup =>
      obtain ⟨u, hu, hqueued, hsame⟩ := h.lookup
      obtain ⟨t, ht, hqueued⟩ := ih hqueued (by rwa [hsame, queueable_congr hsame])
      rw [hsame] at ht hqueued
      refine ⟨t, ?_, hqueued⟩
      rw [queueCalls, hu, Option.bind_some]
      simp only [ht, Option.map_some]
      rfl

/-- A node fresh from `initialize_rqnode` is an empty stable priority queue: its calls return what
that queue returns, and leave its bitmap and its lists in step with it. -/
theorem queueCalls_stable {vm : Option VmId} {prio : Nat} {ops : List (Op VNode)}
    (h : initializeRqnode cfg s vm prio = some (r, t))
    (hops : Admits t.prioOf (t.Queueable cfg) [] ops) :
    ∃ u, queueCalls cfg r t ops = some ((run t.prioOf [] ops).1, u) ∧
      Serves cfg u r (run t.prioOf [] ops).2 := by
  obtain ⟨-, -, rfl⟩ := initializeRqnode_eq_some h
  exact (queued_withRqnode s r vm prio).calls hops

/-- Memory where the vCPU node 2 has a lower priority number than the others. -/
def mixedBoot : SchedState :=
  { schedBoot with
    vpnodeMemory := fun v => { schedBoot.vpnodeMemory v with prio := if v = 2 then 3 else 5 } }

/-- `mixedBoot` with the run queue node 0 handed out. -/
def mixedQueue : SchedState := mixedBoot.withRqnode 0 none 0

def mixedCalls : List (Op VNode) :=
  [.insert 0, .insert 1, .insert 2, .lookup, .lookup, .insert 2, .insert 0, .lookup]

theorem queueCalls_stable_mixedCalls :
    ∃ u, queueCalls smallConfig 0 mixedQueue mixedCalls = some ([some 2, some 0, some 2], u) ∧
      Serves smallConfig u 0 [1, 0] := by
  have hinit : initializeRqnode smallConfig mixedBoot none 0 = some (0, mixedQueue) := rfl
  have hops : Admits mixedQueue.prioOf (mixedQueue.Queueable smallConfig) [] mixedCalls := by
    decide
  exact queueCalls_stable hinit hops

end Avisor
