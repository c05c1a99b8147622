import Avisor.Sched.Step

/-!
# Which pCPU holds which VM

Between `p_task_lookup` and the next `rq_insert` a pCPU holds the run queue node that it took out of
the shared list, also in the window in which `cpu->rqnode` still shows the node it has put back. The
nodes of the list and the nodes held are kept apart by every step, whichever pCPU takes it. What the
steps do to the list is described on `RqView`, the links and the nodes held; a step is one of the
three `RqMove`s there.
-/

namespace Avisor

open Function LinkedList

/-- The run queue node that a pCPU holds: the one its `p_task_lookup` returned and that it has not
put back since. -/
def PCpu.held (p : PCpu) : Option RNode :=
  match p.pc with
  | .bfsLookup => none
  | .bfsSelected rqnode => some rqnode
  | _ => p.rqnode

/-- The part of the state the run queue of VMs lives in. -/
structure RqView where
  ptr : Option RNode
  next : RNode → Option RNode
  prev : RNode → Option RNode
  vm : RNode → Option VmId
  held : PCpuId → Option RNode

def SchedState.rqView (s : SchedState) : RqView where
  ptr := s.rqPtr
  next := s.rnext
  prev := s.rprev
  vm := fun r => (s.rqnodeMemory r).vm
  held := fun c => (s.cpus c).held

namespace RqView

/-- `q` with the node `r` linked behind the head. -/
def insert (q : RqView) (head r : RNode) : RqView :=
  { q with
    next := update (update q.next r (q.next head)) head (some r)
    prev :=
      match q.next head with
      | none => update q.prev r (some head)
      | some f => update (update q.prev r (some head)) f (some r) }

/-- `q` with the node `r`, linked behind `p`, taken out. -/
def remove (q : RqView) (p r : RNode) : RqView :=
  { q with
    next := update (update q.next p (q.next r)) r none
    prev :=
      match q.next r with
      | none => update q.prev r none
      | some f => update (update q.prev f (some p)) r none }

/-- `q` after pCPU `c` has taken `r`, or nothing. -/
def hold (q : RqView) (c : PCpuId) (r : Option RNode) : RqView :=
  { q with held := update q.held c r }

/-- The list behind the head is well formed, `l` are its nodes, and every VM's node is in it or held
by one pCPU. -/
structure Wf (n : Nat) (q : RqView) (l : List RNode) : Prop where
  linked : ∀ head, q.ptr = some head → Linked q.next q.prev head l
  nodup : ∀ head, q.ptr = some head → (head :: l).Nodup
  ptr_vm : ∀ head, q.ptr = some head → q.vm head = none
  empty : q.ptr = none → l = [] ∧ ∀ r, q.vm r = none
  lt : ∀ r m, q.vm r = some m → r < n
  mem_vm : ∀ r ∈ l, q.vm r ≠ none
  held_vm : ∀ c r, q.held c = some r → q.vm r ≠ none
  listed : ∀ r, q.vm r ≠ none → (r ∈ l ↔ ∀ c, q.held c ≠ some r)
  held_unique : ∀ c c' r, q.held c = some r → q.held c' = some r → c = c'

variable {n : Nat} {q : RqView} {l : List RNode}

theorem Wf.insert {c : PCpuId} {head r : RNode} (h : q.Wf n l) (hhead : q.ptr = some head)
    (hheld : q.held c = some r) : ((q.insert head r).hold c none).Wf n (r :: l) := by
  have hvm := h.held_vm c r hheld
  have hrl : r ∉ l := fun hr => (h.listed r hvm).mp hr c hheld
  have hrhead : r ≠ head := by
    rintro rfl
    exact hvm (h.ptr_vm r hhead)
  have hlinked := h.linked head hhead
  have hnodup := h.nodup head hhead
  have hptr (head') (hh : q.ptr = some head') : head' = head := by
    rw [hhead] at hh
    exact (Option.some.inj hh).symm
  refine ⟨?_, ?_, h.ptr_vm, ?_, h.lt, ?_, ?_, ?_, ?_⟩
  · intro head' hh
    obtain rfl := hptr head' hh
    refine hlinked.insert hnodup (by simp [hrhead, hrl]) ?_ ?_ ?_ ?_ ?_ ?_
    · simp [RqView.hold, RqView.insert]
    · simp [RqView.hold, RqView.insert, hrhead]
    · simp only [RqView.hold, RqView.insert]
      cases hf : q.next head' with
      | none => exact update_self ..
      | some f =>
        have hfr : r ≠ f := by
          rintro rfl
          have hchain := hlinked.chain
          rw [hf] at hchain
          exact hrl hchain.head_mem
        simp only [update_of_ne hfr, update_self]
    · intro y hy
      simp only [RqView.hold, RqView.insert, hy, update_self]
    · intro y hyh hyr
      simp only [RqView.hold, RqView.insert, update_of_ne hyh, update_of_ne hyr]
    · intro y hyr hyf
      simp only [RqView.hold, RqView.insert]
      cases hf : q.next head' with
      | none => exact update_of_ne hyr ..
      | some f =>
        have hne : y ≠ f := by
          rintro rfl
          exact hyf hf
        simp only [update_of_ne hne, update_of_ne hyr]
  · intro head' hh
    obtain rfl := hptr head' hh
    rw [List.nodup_cons] at hnodup ⊢
    exact ⟨by simp [Ne.symm hrhead, hnodup.1], List.nodup_cons.mpr ⟨hrl, hnodup.2⟩⟩
  · intro hnone
    exact absurd (hhead.symm.trans hnone) (by simp)
  · intro x hx
    rcases List.mem_cons.mp hx with rfl | hx
    · exact hvm
    · exact h.mem_vm x hx
  · intro c' x hx
    by_cases hc : c' = c
    · subst hc
      simp [RqView.hold] at hx
    · simp only [RqView.hold, update_of_ne hc] at hx
      exact h.held_vm c' x hx
  · intro x hx
    by_cases hxr : x = r
    · subst hxr
      refine ⟨fun _ c' hc' => ?_, fun _ => List.mem_cons_self⟩
      by_cases hc : c' = c
      · subst hc
        simp [RqView.hold] at hc'
      · simp only [RqView.hold, update_of_ne hc] at hc'
        exact hc (h.held_unique c' c x hc' hheld)
    · have hmem : x ∈ r :: l ↔ x ∈ l := by simp [hxr]
      rw [hmem, h.listed x hx]
      refine forall_congr' fun c' => ?_
      by_cases hc : c' = c
      · subst hc
        simp [RqView.hold, RqView.insert, hheld, Ne.symm hxr]
      · simp only [RqView.hold, RqView.insert, update_of_ne hc]
  · intro c₁ c₂ x h₁ h₂
    by_cases hc₁ : c₁ = c
    · subst hc₁
      simp [RqView.hold] at h₁
    · by_cases hc₂ : c₂ = c
      · subst hc₂
        simp [RqView.hold] at h₂
      · simp only [RqView.hold, update_of_ne hc₁, update_of_ne hc₂] at h₁ h₂
        exact h.held_unique c₁ c₂ x h₁ h₂

theorem Wf.remove {c : PCpuId} {p r : RNode} (h : q.Wf n l) (hmem : r ∈ l)
    (hprev : q.prev r = some p) (hfree : q.held c = none) :
    ∃ l', ((q.remove p r).hold c (some r)).Wf n l' := by
  obtain ⟨head, hhead⟩ : ∃ head, q.ptr = some head := by
    cases hptr : q.ptr with
    | none =>
      rw [(h.empty hptr).1] at hmem
      simp at hmem
    | some head => exact ⟨head, rfl⟩
  have hvm := h.mem_vm r hmem
  have hlinked := h.linked head hhead
  have hnodup := h.nodup head hhead
  obtain ⟨l₁, l₂, rfl⟩ := List.append_of_mem hmem
  have hptr (head') (hh : q.ptr = some head') : head' = head := by
    rw [hhead] at hh
    exact (Option.some.inj hh).symm
  have hperm : (head :: (l₁ ++ r :: l₂)).Perm (r :: head :: (l₁ ++ l₂)) :=
    (List.perm_middle.cons head).trans (.swap r head _)
  have hnodup' := (hperm.nodup_iff).mp hnodup
  rw [List.nodup_cons] at hnodup'
  obtain ⟨hrrest, hrest⟩ := hnodup'
  obtain ⟨p', hp', hpr, hrp, htail⟩ := hlinked.split
  obtain rfl : p = p' := by
    rw [hprev] at hrp
    exact Option.some.inj hrp
  have hpr' : p ≠ r := by
    rintro rfl
    refine hrrest ?_
    rcases List.mem_cons.mp hp' with rfl | hp'
    · exact List.mem_cons_self
    · exact List.mem_cons_of_mem _ (List.mem_append_left _ hp')
  refine ⟨l₁ ++ l₂, ?_, ?_, h.ptr_vm, ?_, h.lt, ?_, ?_, ?_, ?_⟩
  · intro head' hh
    obtain rfl := hptr head' hh
    refine hlinked.remove hnodup ?_ ?_ ?_ ?_
    · intro p' hp'
      rw [hprev] at hp'
      cases hp'
      simp [RqView.hold, RqView.remove, hpr']
    · intro y hy
      have hyr : y ≠ r := by
        rintro rfl
        have hchain := htail.chain
        rw [hy] at hchain
        exact hrrest (List.mem_cons_of_mem _ (List.mem_append_right _ hchain.head_mem))
      simp only [RqView.hold, RqView.remove, hy, hprev]
      rw [update_of_ne hyr, update_self]
    · intro y hyr hyp
      have hne : y ≠ p := by
        rintro rfl
        exact hyp hprev
      simp only [RqView.hold, RqView.remove, update_of_ne hyr, update_of_ne hne]
    · intro y hyr hyf
      simp only [RqView.hold, RqView.remove]
      cases hf : q.next r with
      | none => exact update_of_ne hyr ..
      | some f =>
        have hne : y ≠ f := by
          rintro rfl
          exact hyf hf
        simp only [update_of_ne hyr, update_of_ne hne]
  · intro head' hh
    obtain rfl := hptr head' hh
    exact hrest
  · intro hnone
    exact absurd (hhead.symm.trans hnone) (by simp)
  · intro x hx
    refine h.mem_vm x ?_
    rcases List.mem_append.mp hx with hx | hx
    · exact List.mem_append_left _ hx
    · exact List.mem_append_right _ (List.mem_cons_of_mem _ hx)
  · intro c' x hx
    by_cases hc : c' = c
    · subst hc
      simp only [RqView.hold, update_self, Option.some.injEq] at hx
      exact hx ▸ hvm
    · simp only [RqView.hold, update_of_ne hc] at hx
      exact h.held_vm c' x hx
  · intro x hx
    by_cases hxr : x = r
    · subst hxr
      refine ⟨fun hx' => absurd (List.mem_cons_of_mem _ hx') hrrest, fun hheld => ?_⟩
      exact absurd (by simp [RqView.hold]) (hheld c)
    · have hmem' : x ∈ l₁ ++ l₂ ↔ x ∈ l₁ ++ r :: l₂ := by simp [hxr]
      rw [hmem', h.listed x hx]
      refine forall_congr' fun c' => ?_
      by_cases hc : c' = c
      · subst hc
        simp [RqView.hold, RqView.remove, hfree, Ne.symm hxr]
      · simp only [RqView.hold, RqView.remove, update_of_ne hc]
  · have hother (c') (hc' : q.held c' = some r) : False := (h.listed r hvm).mp hmem c' hc'
    intro c₁ c₂ x h₁ h₂
    by_cases hc₁ : c₁ = c
    · by_cases hc₂ : c₂ = c
      · exact hc₁.trans hc₂.symm
      · subst hc₁
        simp only [RqView.hold, RqView.remove, update_self, update_of_ne hc₂,
          Option.some.injEq] at h₁ h₂
        exact (hother c₂ (h₁ ▸ h₂)).elim
    · by_cases hc₂ : c₂ = c
      · subst hc₂
        simp only [RqView.hold, RqView.remove, update_self, update_of_ne hc₁,
          Option.some.injEq] at h₁ h₂
        exact (hother c₁ (h₂ ▸ h₁)).elim
      · simp only [RqView.hold, RqView.remove, update_of_ne hc₁, update_of_ne hc₂] at h₁ h₂
        exact h.held_unique c₁ c₂ x h₁ h₂

end RqView

/-! ### What leaves the run queue alone -/

section Frame

variable (s : SchedState)

theorem rqView_modifyRq (r : RNode) {f : RunQueueNode → RunQueueNode}
    (hnext : ∀ n, (f n).next = n.next) (hprev : ∀ n, (f n).prev = n.prev)
    (hvm : ∀ n, (f n).vm = n.vm) : (s.modifyRq r f).rqView = s.rqView := by
  have hfield {β} (g : RunQueueNode → β) (hg : ∀ n, g (f n) = g n) :
      (fun x => g ((s.modifyRq r f).rqnodeMemory x)) = fun x => g (s.rqnodeMemory x) := by
    funext x
    by_cases h : x = r
    · subst h
      simp only [SchedState.modifyRq, update_self, hg]
    · simp only [SchedState.modifyRq, update_of_ne h]
  unfold SchedState.rqView
  congr 1
  · exact hfield (·.next) hnext
  · exact hfield (·.prev) hprev
  · exact hfield (·.vm) hvm

theorem rqView_modifyCpu (c : PCpuId) {f : PCpu → PCpu} :
    (s.modifyCpu c f).rqView = s.rqView.hold c (f (s.cpus c)).held := by
  unfold SchedState.rqView RqView.hold
  congr 1
  funext x
  by_cases h : x = c
  · subst h
    simp only [SchedState.modifyCpu, update_self]
  · simp only [SchedState.modifyCpu, update_of_ne h]

theorem RqView.hold_held (q : RqView) (c : PCpuId) : q.hold c (q.held c) = q := by
  unfold RqView.hold
  rw [update_eq_self]

theorem rqView_setPc (c : PCpuId) (pc : Pc)
    (h : PCpu.held { s.cpus c with pc := pc } = (s.cpus c).held) :
    (s.setPc c pc).rqView = s.rqView := by
  unfold SchedState.setPc
  rw [rqView_modifyCpu, h]
  exact s.rqView.hold_held c

theorem rqView_modifyVnode (v : VNode) (f : VCpuNode → VCpuNode) :
    (s.modifyVnode v f).rqView = s.rqView := rfl

theorem rqView_relink (r : RNode) (bitmap : BitVec 64) (nr : BitVec 32)
    (next : VNode → Option VNode) (levels : Nat → Option VNode) :
    (s.relink r bitmap nr next levels).rqView = s.rqView := by
  have h : (s.relink r bitmap nr next levels).rqView =
      (s.modifyRq r fun n => { n with bitmap := bitmap, nrVcpuReady := nr }).rqView := rfl
  exact h.trans (rqView_modifyRq s r (fun _ => rfl) (fun _ => rfl) (fun _ => rfl))

theorem rqView_relinkRq (next prev : RNode → Option RNode) :
    (s.relinkRq next prev).rqView = { s.rqView with next := next, prev := prev } := rfl

end Frame

theorem rqView_vTaskInsert {cfg : SchedConfig} {s t : SchedState} {v : VNode} {r : RNode}
    (h : vTaskInsert cfg s v r = some t) : t.rqView = s.rqView := by
  obtain ⟨next, levels, rfl, -⟩ := vTaskInsert_eq_some h
  exact rqView_relink ..

theorem rqView_vTaskLookup {s t : SchedState} {v : Option VNode} {r : RNode}
    (h : vTaskLookup s r = some (v, t)) : t.rqView = s.rqView := by
  cases v with
  | none => rw [(vTaskLookup_eq_none h).2]
  | some v =>
    obtain ⟨i, -, -, rfl⟩ := vTaskLookup_eq_some h
    exact rqView_relink ..

theorem rqView_bmqRequeue {cfg : SchedConfig} {s t : SchedState} {r : RNode}
    (h : bmqRequeue cfg s r = some t) : t.rqView = s.rqView := by
  rcases bmqRequeue_eq_some h with ⟨rfl, -⟩ | ⟨v, -, -, hinsert⟩
  · rfl
  · rw [rqView_vTaskInsert hinsert]
    rfl

theorem rqView_initializeVCpuNode {cfg : SchedConfig} {s t : SchedState} {vp : VcpuRef}
    {prio : Nat} {v : VNode} (h : initializeVCpuNode cfg s vp prio = some (v, t)) :
    t.rqView = s.rqView := by
  obtain ⟨-, -, rfl⟩ := initializeVCpuNode_eq_some h
  rfl

theorem rqView_switchTo (s : SchedState) (c : PCpuId) (v : VNode) :
    (switchTo s c v).rqView = s.rqView := by
  unfold switchTo
  rw [rqView_modifyCpu]
  exact RqView.hold_held s.rqView c

theorem rqView_bmqRun (s : SchedState) (c : PCpuId) (r : RNode) (v : VNode) :
    (bmqRun s c r v).rqView = s.rqView := by
  unfold bmqRun
  rw [rqView_switchTo]
  exact rqView_modifyRq (s.modifyVnode v _) r (fun _ => rfl) (fun _ => rfl) (fun _ => rfl)

theorem rqView_tryRescheduleReturn {s : SchedState} {c : PCpuId}
    (hheld : (s.cpus c).held = (s.cpus c).rqnode) :
    (tryRescheduleReturn s c).rqView = s.rqView := by
  unfold tryRescheduleReturn
  rw [rqView_modifyCpu]
  have hsame : PCpu.held { s.cpus c with flag := false, pc := .guest } = s.rqView.held c :=
    hheld.symm
  rw [hsame]
  exact s.rqView.hold_held c

/-- The end of `bmq_scheduler` and of `try_reschedule` around it. -/
theorem rqView_bmqRun_return {s : SchedState} {c : PCpuId} {r : RNode} {v : VNode}
    (hheld : (s.cpus c).held = (s.cpus c).rqnode) :
    (tryRescheduleReturn (bmqRun s c r v) c).rqView = s.rqView := by
  rw [rqView_tryRescheduleReturn, rqView_bmqRun]
  simp only [PCpu.held, bmqRun_cpus, update_self]
  exact hheld

/-! ### The steps -/

/-- What a step does to the run queue: nothing, or one pCPU puts its node back or takes one out. -/
inductive RqMove (q : RqView) : RqView → Prop
  | stay : RqMove q q
  | insert (c head r) (ptr : q.ptr = some head) (held : q.held c = some r) :
      RqMove q ((q.insert head r).hold c none)
  | remove (c head p r) (ptr : q.ptr = some head)
      (listed : ∀ l, Linked q.next q.prev head l → r ∈ l) (prev : q.prev r = some p)
      (held : q.held c = none) : RqMove q ((q.remove p r).hold c (some r))

theorem RqMove.wf {n : Nat} {q q' : RqView} (h : RqMove q q') (hq : ∃ l, q.Wf n l) :
    ∃ l, q'.Wf n l := by
  obtain ⟨l, hl⟩ := hq
  cases h with
  | stay => exact ⟨l, hl⟩
  | insert c head r ptr held => exact ⟨r :: l, hl.insert ptr held⟩
  | remove c head p r ptr listed prev held => exact hl.remove (listed l (hl.linked head ptr)) prev held

/-- The invariant of the run queue of VMs. -/
structure RqWf (cfg : SchedConfig) (s : SchedState) : Prop where
  view : ∃ l, s.rqView.Wf cfg.rnodeNum l
  rqnode_vm : ∀ c r, (s.cpus c).rqnode = some r → (s.rqnodeMemory r).vm ≠ none

theorem rqMove_pTaskLookup {cfg : SchedConfig} {s t : SchedState} {c : PCpuId} {r : RNode}
    (hpc : (s.cpus c).pc = .bfsLookup) (h : pTaskLookup cfg s = some (some r, t)) :
    RqMove s.rqView (t.setPc c (.bfsSelected r)).rqView := by
  obtain ⟨head, hhead, hscan, hremove⟩ := pTaskLookup_eq_some h
  obtain ⟨p, hp, rfl⟩ := rqRemove_eq_some hremove
  have hheld : s.rqView.held c = none := by
    simp only [SchedState.rqView, PCpu.held, hpc]
  have hlisted (l) (hl : Linked s.rnext s.rprev head l) : r ∈ l := by
    rcases pTaskScan_mem hl.chain hscan with hnone | ⟨x, hx, hfound⟩
    · cases hnone
    · cases hfound
      exact hx
  unfold SchedState.setPc
  rw [rqView_modifyCpu]
  exact .remove c head p r hhead hlisted hp hheld

/-- Where the run queue is well formed a lookup ends, unless there is no queue at all. -/
theorem pTaskLookup_isSome {cfg : SchedConfig} {s : SchedState} (hs : ∃ l, s.rqView.Wf cfg.rnodeNum l)
    {head : RNode} (hhead : s.rqPtr = some head) : ∃ result, pTaskLookup cfg s = some result := by
  obtain ⟨l, hl⟩ := hs
  have hlinked : Linked s.rnext s.rprev head l := hl.linked head hhead
  have hlen : l.length ≤ cfg.rnodeNum := by
    refine hlinked.chain.length_le fun r hr => ?_
    obtain ⟨m, hm⟩ := Option.ne_none_iff_exists'.mp (hl.mem_vm r hr)
    exact hl.lt r m hm
  obtain ⟨found, hscan⟩ : ∃ found, pTaskScan s cfg.rnodeNum (s.rnext head) none = some found :=
    pTaskScan_isSome hlinked.chain hlen
  have hfirst : (s.rqnodeMemory head).next = s.rnext head := rfl
  simp only [pTaskLookup, hhead, Option.bind_some, hfirst, hscan]
  cases found with
  | none => exact ⟨_, rfl⟩
  | some r =>
    obtain ⟨x, hx, hfound⟩ := (pTaskScan_mem hlinked.chain hscan).resolve_left (by simp)
    cases hfound
    obtain ⟨l₁, l₂, rfl⟩ := List.append_of_mem hx
    obtain ⟨p, -, -, hp, -⟩ := hlinked.split
    have hprev : (s.rqnodeMemory r).prev = some p := hp
    simp only [rqRemove, hprev, Option.map_some]
    exact ⟨_, rfl⟩

theorem held_halted {cfg : SchedConfig} {s : SchedState} {c : PCpuId} (hs : RqWf cfg s)
    (h : resumeEffect cfg s c = some none) :
    PCpu.held { s.cpus c with pc := .halted } = (s.cpus c).held := by
  unfold resumeEffect at h
  split at h
  · cases h
  · cases h
  · cases h
  · cases h
  · rename_i hpc
    simp only [PCpu.held, hpc]
  · rename_i hpc
    -- a lookup gets stuck only without a run queue, and then no pCPU ever got a node
    cases hptr : s.rqPtr with
    | none =>
      have hnone : (s.cpus c).rqnode = none := by
        obtain ⟨l, hl⟩ := hs.view
        cases hr : (s.cpus c).rqnode with
        | none => rfl
        | some r => exact absurd ((hl.empty hptr).2 r) (hs.rqnode_vm c r hr)
      simp only [PCpu.held, hpc, hnone]
    | some head =>
      obtain ⟨result, hresult⟩ := pTaskLookup_isSome hs.view hptr
      rw [hresult] at h
      cases h
  · rename_i r hpc
    have hheld : s.rqView.held c = some r := by
      simp only [SchedState.rqView, PCpu.held, hpc]
    obtain ⟨l, hl⟩ := hs.view
    have hvm : (s.rqnodeMemory r).vm ≠ none := hl.held_vm c r hheld
    obtain ⟨m, hm⟩ := Option.ne_none_iff_exists'.mp hvm
    simp only [bfsRun, hm, Option.map_some] at h
    cases h
  · rename_i hpc
    simp only [PCpu.held, hpc]
  · rename_i r hpc
    simp only [PCpu.held, hpc]

theorem rqView_reschedEntered (s : SchedState) (c : PCpuId) :
    (reschedEntered s c).rqView = s.rqView := by
  unfold reschedEntered
  rw [rqView_modifyCpu]
  exact s.rqView.hold_held c

theorem rqView_bfsAssign {s : SchedState} {c : PCpuId} {r : RNode} {m : VmId}
    (hpc : (s.cpus c).pc = .bfsSelected r) : (bfsAssign s c r m).rqView = s.rqView := by
  have hheld : ((bfsAssign s c r m).cpus c).held = s.rqView.held c := by
    rw [bfsAssign_cpus, update_self]
    simp only [SchedState.rqView, PCpu.held, hpc]
  have hassign : (bfsAssign s c r m).rqView = (s.modifyRq r fun n => { n with
      state := .running
      timeSlice := BitVec.ofNat 64 bfsRrInterval
      needResched := false }).rqView.hold c ((bfsAssign s c r m).cpus c).held := by
    unfold bfsAssign
    rw [rqView_modifyCpu]
    simp only [SchedState.modifyCpu, update_self]
    rfl
  have hmodify := rqView_modifyRq s r (f := fun n => { n with
    state := .running
    timeSlice := BitVec.ofNat 64 bfsRrInterval
    needResched := false }) (fun _ => rfl) (fun _ => rfl) (fun _ => rfl)
  rw [hassign, hmodify, hheld]
  exact s.rqView.hold_held c

theorem SchedStep.rqMove {cfg : SchedConfig} {s t : SchedState} {a : Action}
    (h : SchedStep cfg s a t) (hs : RqWf cfg s) : RqMove s.rqView t.rqView := by
  cases h with
  | haltCall c f pc =>
    rw [rqView_setPc]
    · exact .stay
    · rcases pc with pc | pc <;> simp only [PCpu.held, pc]
  | haltResume c h =>
    rw [rqView_setPc s c .halted (held_halted hs h)]
    exact .stay
  | tickWait c r v pc =>
    rw [rqView_setPc]
    · exact .stay
    · simp only [PCpu.held, pc]
  | tickClock r v pc =>
    rw [rqView_setPc]
    · exact .stay
    · simp only [PCpu.held, clockAdvanced, pc]
  | tickCount r v pc =>
    rw [rqView_setPc]
    · exact .stay
    · simp only [PCpu.held, sleepCounted, clockAdvanced, pc]
  | tickWake r v u q w pc rqnode run flag sleeper home insert =>
    rw [rqView_setPc]
    · have hcleared : (slotCleared w).rqView = w.rqView := rfl
      have hstart : (wakeStart cfg s u).rqView = s.rqView := rfl
      rw [hcleared, rqView_vTaskInsert insert, hstart]
      exact .stay
    · have hcleared : (slotCleared w).cpus = w.cpus := rfl
      have hstart : (wakeStart cfg s u).cpus = s.cpus := rfl
      simp only [PCpu.held, hcleared, vTaskInsert_cpus insert, hstart, pc]
  | tickLeave c r v pc =>
    unfold updateTaskTimesLeave
    rw [rqView_setPc, rqView_modifyRq _ r (f := tickRqnode cfg) (fun _ => rfl) (fun _ => rfl)
      (fun _ => rfl), rqView_modifyVnode]
    · exact .stay
    · have hcpu : ((s.modifyVnode v (tickVnode cfg)).modifyRq r (tickRqnode cfg)).cpus c =
          s.cpus c := rfl
      rw [hcpu]
      simp only [PCpu.held, pc]
  | reschedBusy c pc =>
    rw [rqView_setPc]
    · exact .stay
    · rcases pc with pc | pc <;> simp only [PCpu.held, pc]
  | reschedFirst c pc flag rqnode =>
    rw [rqView_setPc, rqView_reschedEntered]
    · exact .stay
    · rw [reschedEntered_cpus, update_self]
      simp only [PCpu.held]
      rcases pc with pc | pc <;> simp only [pc, rqnode]
  | reschedVm c r u pc flag rqnode expire =>
    obtain ⟨-, rfl⟩ := bfsExpire_eq_some expire
    rw [rqView_setPc]
    · have hview := rqView_modifyRq (reschedEntered s c) r (f := fun n =>
        { n with
          vdeadline := (reschedEntered s c).bfsClock + n.vdeadlineDiff
          state := .ready
          needResched := true }) (fun _ => rfl) (fun _ => rfl) (fun _ => rfl)
      rw [hview, rqView_reschedEntered]
      exact .stay
    · simp only [SchedState.modifyRq, reschedEntered_cpus, update_self, PCpu.held]
      rcases pc with pc | pc <;> simp only [pc]
  | reschedVcpu c r pc flag rqnode =>
    rw [rqView_setPc, rqView_reschedEntered]
    · exact .stay
    · rw [reschedEntered_cpus, update_self]
      simp only [PCpu.held]
      rcases pc with pc | pc <;> simp only [pc]
  | reschedKeep c r v pc flag rqnode run =>
    rw [rqView_tryRescheduleReturn, rqView_reschedEntered]
    · exact .stay
    · rw [reschedEntered_cpus, update_self]
      simp only [PCpu.held]
      rcases pc with pc | pc <;> simp only [pc]
  | start c arg0 r m v u t pc rqnode vm arg create insert =>
    rw [rqView_vTaskInsert insert, rqView_initializeVCpuNode create]
    exact .stay
  | sleep c r v pc =>
    have hview : (sleepStart s r v).rqView = s.rqView := rfl
    rw [hview]
    exact .stay
  | bfsInsert c r u pc rqnode insert =>
    obtain ⟨head, hhead, rfl⟩ := rqInsert_eq_some insert
    have hheld : s.rqView.held c = some r := by
      simp only [SchedState.rqView, PCpu.held, pc, rqnode]
    unfold SchedState.setPc
    rw [rqView_modifyCpu]
    exact .insert c head r hhead hheld
  | bfsMiss c u pc lookup =>
    rw [pTaskLookup_eq_none lookup]
    exact .stay
  | bfsHit c r u pc lookup => exact rqMove_pTaskLookup pc lookup
  | bfsRun c r u pc run =>
    obtain ⟨m, -, rfl⟩ := bfsRun_eq_some run
    rw [rqView_setPc, rqView_bfsAssign]
    · exact .stay
    · exact pc
    · rw [bfsAssign_cpus, update_self]
      simp only [PCpu.held, pc]
  | bmqSpin c r u w pc rqnode requeue lookup =>
    rw [rqView_setPc, rqView_vTaskLookup lookup, rqView_bmqRequeue requeue]
    · exact .stay
    · rw [vTaskLookup_cpus lookup, bmqRequeue_cpus requeue]
      simp only [PCpu.held, pc]
  | bmqRun c r u v w pc rqnode requeue lookup =>
    rw [rqView_bmqRun_return, rqView_vTaskLookup lookup, rqView_bmqRequeue requeue]
    · exact .stay
    · rw [vTaskLookup_cpus lookup, bmqRequeue_cpus requeue]
      simp only [PCpu.held, pc]
  | bmqMiss c r u pc lookup =>
    rw [rqView_setPc, rqView_vTaskLookup lookup]
    · exact .stay
    · rw [vTaskLookup_cpus lookup]
      simp only [PCpu.held, pc]
  | bmqFind c r v u pc lookup =>
    rw [rqView_bmqRun_return, rqView_vTaskLookup lookup]
    · exact .stay
    · rw [vTaskLookup_cpus lookup]
      simp only [PCpu.held, pc]

theorem RqWf.step {cfg : SchedConfig} {s t : SchedState} {a : Action} (hs : RqWf cfg s)
    (h : SchedStep cfg s a t) : RqWf cfg t := by
  have hmove := h.rqMove hs
  have hvm : t.rqView.vm = s.rqView.vm := by
    generalize t.rqView = q at hmove
    cases hmove <;> rfl
  have hvm' (r) : (t.rqnodeMemory r).vm = (s.rqnodeMemory r).vm := congrFun hvm r
  refine ⟨hmove.wf hs.view, fun c r hr => ?_⟩
  rw [hvm']
  obtain ⟨p, hp, hcpus⟩ := h.cpus
  rw [hcpus] at hr
  by_cases hc : c = a.cpu
  · subst hc
    rw [update_self] at hr
    cases hp with
    | assign r' m vttbr pc =>
      -- the only store to `cpu->rqnode`: the node held
      cases hr
      obtain ⟨l, hl⟩ := hs.view
      refine hl.held_vm a.cpu r ?_
      simp only [SchedState.rqView, PCpu.held, pc]
    | _ => exact hs.rqnode_vm a.cpu r hr
  · rw [update_of_ne hc] at hr
    exact hs.rqnode_vm c r hr

end Avisor
