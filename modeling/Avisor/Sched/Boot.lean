import Avisor.Sched.Lists

/-!
# The scheduler after boot

`vmm_init` creates the nodes of one VM after the other. The facts that the steps of the scheduler keep
hold when it is done: the run queue of VMs is well formed, and every vCPU node is in place.
-/

namespace Avisor

open Function LinkedList

namespace RqView

variable {n : Nat} {q : RqView} {l : List RNode}

/-- `q` with the unlinked node `r` handed out. -/
def create (q : RqView) (r : RNode) (m : Option VmId) : RqView :=
  { q with
    next := update q.next r none
    prev := update q.prev r none
    vm := update q.vm r m }

/-- A new node of a VM, put in the list at once. -/
theorem Wf.create_insert {c : PCpuId} {head r : RNode} {m : VmId} (h : q.Wf n l)
    (hhead : q.ptr = some head) (hr : q.vm r = none) (hne : r ≠ head) (hlt : r < n)
    (hfree : q.held c = none) : ((q.create r (some m)).insert head r).Wf n (r :: l) := by
  have hother {x} (hx : q.vm x ≠ none) : x ≠ r := by
    rintro rfl
    exact hx hr
  have hrl {x} (hx : x ∈ l) : x ≠ r := hother (h.mem_vm x hx)
  have hptr {x} (hx : q.ptr = some x) : x ≠ r := by
    obtain rfl : head = x := Option.some.inj (hhead.symm.trans hx)
    exact hne.symm
  -- until it is linked the new node is one that a pCPU holds
  have hheld : ((q.create r (some m)).hold c (some r)).Wf n l := by
    refine ⟨fun x hx => ?_, h.nodup, fun x hx => ?_, fun hnone => ?_, ?_, ?_, ?_, ?_, ?_⟩
    · refine (h.linked x hx).congr (fun y hy => ?_) fun y hy => ?_
      · rcases List.mem_cons.mp hy with rfl | hy
        · exact update_of_ne (hptr hx) ..
        · exact update_of_ne (hrl hy) ..
      · exact update_of_ne (hrl hy) ..
    · exact (update_of_ne (hptr hx) ..).trans (h.ptr_vm x hx)
    · exact absurd (hhead.symm.trans hnone) (by simp)
    · intro x m' hx
      simp only [hold, create] at hx
      by_cases hxr : x = r
      · exact hxr ▸ hlt
      · rw [update_of_ne hxr] at hx
        exact h.lt x m' hx
    · intro x hx
      simp only [hold, create, update_of_ne (hrl hx)]
      exact h.mem_vm x hx
    · intro c' x hx
      simp only [hold, create] at hx ⊢
      by_cases hc : c' = c
      · subst hc
        rw [update_self] at hx
        cases hx
        simp
      · rw [update_of_ne hc] at hx
        have hvm := h.held_vm c' x hx
        rw [update_of_ne (hother hvm)]
        exact hvm
    · intro x hx
      simp only [hold, create] at hx ⊢
      by_cases hxr : x = r
      · subst hxr
        refine iff_of_false (fun hmem => hrl hmem rfl) fun hall => hall c ?_
        rw [update_self]
      · rw [update_of_ne hxr] at hx
        rw [h.listed x hx]
        refine forall_congr' fun c' => ?_
        by_cases hc : c' = c
        · subst hc
          simp [hfree, Ne.symm hxr]
        · rw [update_of_ne hc]
    · have hnot (c') (hc' : q.held c' = some r) : False := h.held_vm c' r hc' hr
      intro c₁ c₂ x h₁ h₂
      simp only [hold, create] at h₁ h₂
      by_cases hc₁ : c₁ = c
      · by_cases hc₂ : c₂ = c
        · exact hc₁.trans hc₂.symm
        · subst hc₁
          rw [update_self] at h₁
          rw [update_of_ne hc₂] at h₂
          cases h₁
          exact (hnot c₂ h₂).elim
      · by_cases hc₂ : c₂ = c
        · subst hc₂
          rw [update_self] at h₂
          rw [update_of_ne hc₁] at h₁
          cases h₂
          exact (hnot c₁ h₁).elim
        · rw [update_of_ne hc₁] at h₁
          rw [update_of_ne hc₂] at h₂
          exact h.held_unique c₁ c₂ x h₁ h₂
  have hinsert := hheld.insert (c := c) (r := r) hhead (by simp [hold])
  have hsame : (((q.create r (some m)).hold c (some r)).insert head r).hold c none =
      { (q.create r (some m)).insert head r with
        held := update (update q.held c (some r)) c none } := rfl
  have hback : update (update q.held c (some r)) c none = q.held := by
    rw [update_idem, ← hfree, update_eq_self]
  rw [hsame, hback] at hinsert
  exact hinsert

/-- The list of VMs is empty when its head is made. -/
theorem Wf.create_head {r : RNode} (h : q.Wf n l) (hptr : q.ptr = none) :
    ({ q.create r none with ptr := some r } : RqView).Wf n [] := by
  have hvm (x) : (q.create r none).vm x = none := by
    simp only [create]
    by_cases hxr : x = r
    · subst hxr
      rw [update_self]
    · rw [update_of_ne hxr]
      exact (h.empty hptr).2 x
  refine ⟨fun x hx => ?_, fun _ _ => List.nodup_singleton _, fun x _ => hvm x, nofun, ?_, nofun, ?_,
    ?_, h.held_unique⟩
  · cases hx
    simp [create]
  · intro x m hx
    exact absurd ((hvm x).symm.trans hx) (by simp)
  · intro c x hx
    exact absurd ((h.empty hptr).2 x) (h.held_vm c x hx)
  · intro x hx
    exact absurd (hvm x) hx

end RqView

namespace Queues

variable {n : Nat} {q : Queues}

theorem createNode_inPlace {r : RNode} {m : Option VmId} (hq : q.Wf n) (hp : q.InPlace)
    (hr : q.nodeVm r = none) : (q.createNode r m).InPlace := by
  obtain ⟨lists, hlists, hbalanced⟩ := hp
  have hne {r' m'} (hr' : q.nodeVm r' = some m') : r' ≠ r := by
    rintro rfl
    rw [hr] at hr'
    cases hr'
  have hhome {v r'} (hrr : r' ≠ r) : (q.createNode r m).Home v r' ↔ q.Home v r' := by
    simp only [Home, createNode, update_of_ne hrr]
  have hwf := hq.createNode hr (m := none) (by simp)
  refine ⟨fun r' i => if r' = r then [] else lists r' i, ⟨?_, ?_⟩, ?_⟩
  · intro r' m' i hr' hi
    by_cases hrr : r' = r
    · subst hrr
      simp only [if_true, chain_nil, level, createNode, update_self]
      exact if_pos ⟨Nat.le_add_right _ _, Nat.add_lt_add_left hi _⟩
    · simp only [createNode, update_of_ne hrr] at hr'
      have hold : (q.createNode r m).level r' i = q.level r' i := hq.createNode_level hr' hrr hi
      rw [hold, if_neg hrr]
      exact hlists.chain r' m' i hr' hi
  · intro r' m' i v hr' hi hv
    by_cases hrr : r' = r
    · simp only [hrr, if_true, List.not_mem_nil] at hv
    · simp only [hrr, if_false] at hv
      simp only [createNode, update_of_ne hrr] at hr'
      exact hlists.mem r' m' i v hr' hi hv
  · intro v hv
    have hin : (q.createNode r m).InQueue (fun r' i => if r' = r then [] else lists r' i) v ↔
        q.InQueue lists v := by
      constructor
      · rintro ⟨r', hr', hmem⟩
        by_cases hrr : r' = r
        · simp only [hrr, if_true, List.not_mem_nil] at hmem
        · simp only [hrr, if_false] at hmem
          exact ⟨r', (hhome hrr).mp hr', hmem⟩
      · rintro ⟨r', hr', hmem⟩
        have hrr := hne hr'
        refine ⟨r', (hhome hrr).mpr hr', ?_⟩
        simp only [hrr, if_false]
        exact hmem
    have hcurrent : (q.createNode r m).Current v ↔ q.Current v := by
      constructor
      · rintro ⟨r', hr', hrun⟩
        by_cases hrr : r' = r
        · subst hrr
          simp [createNode] at hrun
        · simp only [createNode, update_of_ne hrr] at hrun
          exact ⟨r', (hhome hrr).mp hr', hrun⟩
      · rintro ⟨r', hr', hrun⟩
        have hrr := hne hr'
        refine ⟨r', (hhome hrr).mpr hr', ?_⟩
        simp only [createNode, update_of_ne hrr]
        exact hrun
    rw [hin, hcurrent]
    exact hbalanced v hv

/-- An insertion leaves the level it is made in filled. -/
theorem insertAt_level_self {v : VNode} {r : RNode} {tail : Option VNode}
    (ht : q.Tail n v r tail) : (q.insertAt v r tail).level r (q.prio v) ≠ none := by
  cases tail with
  | none => simp [level, insertAt]
  | some t =>
    obtain ⟨first, hfirst, -⟩ := ht
    rw [show (q.insertAt v r (some t)).level r (q.prio v) = q.level r (q.prio v) from rfl, hfirst]
    simp

/-- The nodes of a VM and of its first vCPU are handed out, and the vCPU is queued. -/
theorem boot_move {v : VNode} {r : RNode} {m : VmId} {p : Nat} {tail : Option VNode} (hq : q.Wf n)
    (hs : q.Started) (hp : q.InPlace) (hr : q.nodeVm r = none) (hm : ∀ r', q.nodeVm r' ≠ some m)
    (fresh : q.created v = false) (lt : v < n) (prio : p < bmqBitmapSize)
    (hasTail : ((q.createNode r (some m)).create v m p).Tail n v r tail) :
    (((q.createNode r (some m)).create v m p).insertAt v r tail).Wf n ∧
      (((q.createNode r (some m)).create v m p).insertAt v r tail).Started ∧
      (((q.createNode r (some m)).create v m p).insertAt v r tail).InPlace := by
  have hnode : (q.createNode r (some m)).nodeVm r = some m := by simp [createNode]
  have hwf : (q.createNode r (some m)).Wf n := by
    refine hq.createNode hr fun r' m' hm' => ?_
    cases hm'
    exact hm r'
  refine ⟨?_, ?_, start_inPlace hwf (createNode_inPlace hq hp hr) hnode fresh lt prio hasTail⟩
  · exact (Move.start (x := some r) v r m p tail rfl hnode fresh lt prio hasTail).wf hwf
  · intro r' m' hr' hrun
    by_cases hrr : r' = r
    · subst hrr
      refine ⟨p, prio, ?_⟩
      have hself := insertAt_level_self hasTail
      rwa [show ((q.createNode r' (some m)).create v m p).prio v = p by simp [create]] at hself
    · have hold : q.nodeVm r' = some m' := by
        have hsame : (((q.createNode r (some m)).create v m p).insertAt v r tail).nodeVm r' =
            q.nodeVm r' := by
          simp only [insertAt, create, createNode, update_of_ne hrr]
        exact hsame.symm.trans hr'
      have hrun' : q.run r' = none := by
        have hsame : (((q.createNode r (some m)).create v m p).insertAt v r tail).run r' =
            q.run r' := by
          simp only [insertAt, create, createNode, update_of_ne hrr]
        exact hsame.symm.trans hrun
      obtain ⟨i, hi, hlevel⟩ := hs r' m' hold hrun'
      refine ⟨i, hi, insertAt_level_ne_none ?_⟩
      rw [← hq.createNode_level (m := some m) hold hrr hi] at hlevel
      exact hlevel

end Queues

/-! ### The states of `vmm_init` -/

theorem queues_withRqnode (s : SchedState) (r : RNode) (m : Option VmId) (prio : Nat) :
    (s.withRqnode r m prio).queues = s.queues.createNode r m := by
  unfold SchedState.queues
  congr 1
  all_goals
    funext x
    by_cases h : x = r
    · subst h
      simp [SchedState.withRqnode]
    · simp [SchedState.withRqnode, h]

theorem rqView_withRqnode (s : SchedState) (r : RNode) (m : Option VmId) (prio : Nat) :
    (s.withRqnode r m prio).rqView = s.rqView.create r m := by
  unfold SchedState.rqView
  congr 1
  all_goals
    funext x
    by_cases h : x = r
    · subst h
      simp [SchedState.withRqnode, SchedState.rnext, SchedState.rprev]
    · simp [SchedState.withRqnode, SchedState.rnext, SchedState.rprev, h]

/-- What holds of the nodes when those of the first `n` VMs are made. -/
structure BootWf (cfg : SchedConfig) (n : Nat) (s : SchedState) : Prop where
  view : ∃ l, s.rqView.Wf cfg.rnodeNum l
  queues : s.queues.Wf cfg.vnodeNum
  started : s.queues.Started
  inPlace : s.queues.InPlace
  cpus : ∀ c, (s.cpus c).pc = .boot ∧ (s.cpus c).flag = false ∧ (s.cpus c).rqnode = none
  allocated : ∀ r, s.rqPtr = some r ∨ (s.rqnodeMemory r).vm ≠ none →
    bitmapGet s.rqnodeMemBitmap r = true
  vm_lt : ∀ r m, (s.rqnodeMemory r).vm = some m → m < n
  cur_lt : ∀ v, s.Created v →
    (s.vpnodeMemory v).cur.vm < n ∧ (s.vpnodeMemory v).cur.idx < cfg.nrCpus (s.vpnodeMemory v).cur.vm

/-- What holds of the VMs and vCPUs when the first `n` VMs are made. -/
structure VmTables (cfg : SchedConfig) (n : Nat) (s : SchedState) : Prop where
  nrCpus : ∀ m < n, (s.vms m).nrCpus = cfg.nrCpus m
  vcpu_vm : ∀ m < n, ∀ i < cfg.nrCpus m, (s.vcpus ⟨m, i⟩).vm = m

variable {cfg : SchedConfig} {s t : SchedState} {n : Nat}

theorem BootWf.held (h : BootWf cfg n s) (c : PCpuId) : s.rqView.held c = none := by
  obtain ⟨hpc, -, hrqnode⟩ := h.cpus c
  simp only [SchedState.rqView, PCpu.held, hpc, hrqnode]

theorem BootWf.sched (h : BootWf cfg n s) : SchedWf cfg s := by
  have hpc (c) := (h.cpus c).1
  have hrqnode (c) := (h.cpus c).2.2
  refine ⟨⟨h.view, fun c r hr => ?_⟩, h.queues, h.started, fun c _ => (h.cpus c).2, fun c hc => ?_,
    fun c r hc => ?_⟩
  · rw [hrqnode] at hr
    cases hr
  · rw [hpc] at hc
    rcases hc with hc | ⟨r, v, hc⟩ <;> cases hc
  · rw [hpc] at hc
    cases hc

theorem bootWf_schedBoot : BootWf cfg 0 schedBoot := by
  have hchain (p) : ∃ l, Chain schedBoot.queues.next p l := by
    cases p with
    | none => exact ⟨[], rfl⟩
    | some v => exact ⟨[v], rfl, rfl⟩
  have hfree (v) : schedBoot.queues.created v = false := by
    simp [SchedState.queues, schedBoot, bitmapGet]
  have hcreated (v) : schedBoot.queues.created v ≠ true := by simp [hfree]
  refine ⟨⟨[], ⟨nofun, nofun, nofun, fun _ => ⟨rfl, fun _ => rfl⟩, nofun, nofun, nofun,
    fun _ h => absurd rfl h, nofun⟩⟩, ?_, nofun, ⟨fun _ _ => [], ⟨nofun, nofun⟩, ?_⟩,
    fun _ => ⟨rfl, rfl, rfl⟩, ?_, nofun, ?_⟩
  · exact ⟨fun v hv => absurd hv (hcreated v), fun v hv => absurd hv (hcreated v), nofun, nofun,
      hchain, fun v w hv => absurd hv (hcreated v), nofun, nofun, nofun, nofun,
      fun h => absurd h (Int.lt_irrefl 0)⟩
  · exact fun v hv => absurd hv (hcreated v)
  · rintro r (h | h)
    · cases h
    · exact absurd rfl h
  · exact fun v hv => absurd hv (hcreated v)

theorem BootWf.vmMasterInit (h : BootWf cfg n s) (i : VmId) : BootWf cfg n (vmMasterInit cfg s i) := by
  have hcpus (c) : ((Avisor.vmMasterInit cfg s i).cpus c).pc = .boot ∧
      ((Avisor.vmMasterInit cfg s i).cpus c).flag = false ∧
      ((Avisor.vmMasterInit cfg s i).cpus c).rqnode = none := by
    by_cases hc : c = 0
    · subst hc
      simp only [Avisor.vmMasterInit, SchedState.modifyCpu, update_self]
      exact h.cpus 0
    · simp only [Avisor.vmMasterInit, SchedState.modifyCpu, update_of_ne hc]
      exact h.cpus c
  have hview : (Avisor.vmMasterInit cfg s i).rqView = s.rqView := by
    have hheld : (Avisor.vmMasterInit cfg s i).rqView.held = s.rqView.held := by
      funext c
      rw [h.held c]
      simp only [SchedState.rqView, PCpu.held, hcpus c]
    have hsame : (Avisor.vmMasterInit cfg s i).rqView =
        { s.rqView with held := (Avisor.vmMasterInit cfg s i).rqView.held } := rfl
    rw [hsame, hheld]
  refine ⟨?_, h.queues, h.started, h.inPlace, hcpus, h.allocated, h.vm_lt, h.cur_lt⟩
  rw [hview]
  exact h.view

theorem VmTables.vmMasterInit (h : VmTables cfg n s) : VmTables cfg (n + 1) (vmMasterInit cfg s n) := by
  constructor
  · intro m hm
    simp only [Avisor.vmMasterInit, SchedState.modifyCpu]
    by_cases hmn : m = n
    · subst hmn
      rw [update_self]
    · rw [update_of_ne hmn]
      exact h.nrCpus m (by omega)
  · intro m hm i hi
    simp only [Avisor.vmMasterInit, SchedState.modifyCpu]
    by_cases hmn : m = n
    · subst hmn
      rw [if_pos ⟨rfl, hi⟩]
    · rw [if_neg (by simp [hmn])]
      exact h.vcpu_vm m (by omega) i hi

theorem BootWf.head {r : RNode} {prio : Nat} (h : BootWf cfg n s) (hptr : s.rqPtr = none)
    (hfree : bitmapGet s.rqnodeMemBitmap r = false) :
    BootWf cfg n { s.withRqnode r none prio with rqPtr := some r } := by
  obtain ⟨l, hl⟩ := h.view
  have hnone (x) : (s.rqnodeMemory x).vm = none := (hl.empty hptr).2 x
  have hview : ({ s.withRqnode r none prio with rqPtr := some r } : SchedState).rqView =
      { s.rqView.create r none with ptr := some r } := by
    have hsame : ({ s.withRqnode r none prio with rqPtr := some r } : SchedState).rqView =
      { (s.withRqnode r none prio).rqView with ptr := some r } := rfl
    rw [hsame, rqView_withRqnode]
  have hqueues : ({ s.withRqnode r none prio with rqPtr := some r } : SchedState).queues =
      s.queues.createNode r none := queues_withRqnode s r none prio
  have hvm (x) : ((s.withRqnode r none prio).rqnodeMemory x).vm = none := by
    by_cases hx : x = r
    · subst hx
      simp [SchedState.withRqnode]
    · simp only [SchedState.withRqnode, update_of_ne hx]
      exact hnone x
  refine ⟨⟨[], ?_⟩, ?_, ?_, ?_, h.cpus, ?_, ?_, h.cur_lt⟩
  · rw [hview]
    exact hl.create_head hptr
  · rw [hqueues]
    exact h.queues.createNode (hnone r) nofun
  · intro x m hx
    exact absurd ((hvm x).symm.trans hx) (by simp)
  · rw [hqueues]
    exact Queues.createNode_inPlace h.queues h.inPlace (hnone r)
  · rintro x (hx | hx)
    · cases hx
      simp only [SchedState.withRqnode, bitmapGet_set, decide_true, Bool.true_or]
    · exact absurd (hvm x) hx
  · intro x m hx
    exact absurd ((hvm x).symm.trans hx) (by simp)

theorem BootWf.vm {u w : SchedState} {r head : RNode} {v : VNode} {prio prio' : Nat}
    (h : BootWf cfg n s) (hhead : s.rqPtr = some head) (hlt : r < cfg.rnodeNum)
    (hfree : bitmapGet s.rqnodeMemBitmap r = false) (hvlt : v < cfg.vnodeNum)
    (hvfree : bitmapGet s.vpnodeMemBitmap v = false) (hprio : prio' < bmqBitmapSize)
    (hu : u = (s.withRqnode r (some n) prio).withVnode v ⟨n, 0⟩ prio')
    (hinsert : vTaskInsert cfg u v r = some w) (hlink : rqInsert w r = some t) :
    BootWf cfg (n + 1) t := by
  have hnew : (s.rqnodeMemory r).vm = none := by
    by_contra hvm
    rw [h.allocated r (.inr hvm)] at hfree
    cases hfree
  have hne : r ≠ head := by
    rintro rfl
    rw [h.allocated r (.inl hhead)] at hfree
    cases hfree
  obtain ⟨tail, htail, hqueues⟩ := queues_vTaskInsert hinsert
  have huqueues : u.queues = (s.queues.createNode r (some n)).create v n prio' := by
    rw [hu, queues_withVnode, queues_withRqnode]
  rw [huqueues] at htail hqueues
  have hwview : w.rqView = s.rqView.create r (some n) := by
    rw [rqView_vTaskInsert hinsert, hu]
    exact rqView_withRqnode s r (some n) prio
  have hwptr : w.rqPtr = some head := by
    rw [show w.rqPtr = w.rqView.ptr from rfl, hwview]
    exact hhead
  obtain ⟨head', hhead', rfl⟩ := rqInsert_eq_some hlink
  obtain rfl : head = head' := Option.some.inj (hwptr.symm.trans hhead')
  obtain ⟨hwf, hstarted, hinPlace⟩ := Queues.boot_move h.queues h.started h.inPlace hnew
    (fun r' hr' => absurd (h.vm_lt r' n hr') (Nat.lt_irrefl n)) hvfree hvlt hprio htail
  have hvm (x) : (w.rqnodeMemory x).vm = update (fun x => (s.rqnodeMemory x).vm) r (some n) x := by
    rw [show (w.rqnodeMemory x).vm = w.rqView.vm x from rfl, hwview]
    rfl
  obtain ⟨next, levels, hw, -⟩ := vTaskInsert_eq_some hinsert
  refine ⟨?_, ?_, ?_, ?_, ?_, ?_, ?_, ?_⟩
  · obtain ⟨l, hl⟩ := h.view
    refine ⟨r :: l, ?_⟩
    have hinserted := hl.create_insert (m := n) hhead hnew hne hlt (h.held 0)
    rw [← hwview] at hinserted
    rw [rqView_relinkRq]
    exact hinserted
  · rw [queues_relinkRq, hqueues]
    exact hwf
  · rw [queues_relinkRq, hqueues]
    exact hstarted
  · rw [queues_relinkRq, hqueues]
    exact hinPlace
  · have hcpus : w.cpus = s.cpus := by
      rw [hw, hu]
      rfl
    intro c
    have hc := h.cpus c
    rw [← hcpus] at hc
    exact hc
  · have hbitmap : w.rqnodeMemBitmap = bitmapSet s.rqnodeMemBitmap r := by
      rw [hw, hu]
      rfl
    intro x hx
    have hx' : w.rqPtr = some x ∨ (w.rqnodeMemory x).vm ≠ none := hx
    show bitmapGet w.rqnodeMemBitmap x = true
    rw [hbitmap, bitmapGet_set]
    by_cases hxr : x = r
    · simp [hxr]
    · rw [hvm, update_of_ne hxr, hwptr, ← hhead] at hx'
      simp [h.allocated x hx']
  · intro x m hx
    have hx' : (w.rqnodeMemory x).vm = some m := hx
    rw [hvm] at hx'
    by_cases hxr : x = r
    · subst hxr
      rw [update_self] at hx'
      cases hx'
      exact Nat.lt_succ_self n
    · rw [update_of_ne hxr] at hx'
      exact Nat.lt_succ_of_lt (h.vm_lt x m hx')
  · have hcur (x) : (w.vpnodeMemory x).cur =
        update (fun x => (s.vpnodeMemory x).cur) v ⟨n, 0⟩ x := by
      rw [hw, hu]
      by_cases hxv : x = v
      · subst hxv
        simp [SchedState.relink, SchedState.withVnode, SchedState.modifyVnode]
      · simp [SchedState.relink, SchedState.withVnode, SchedState.modifyVnode, hxv,
          SchedState.withRqnode]
    have hbitmap : w.vpnodeMemBitmap = bitmapSet s.vpnodeMemBitmap v := by
      rw [hw, hu]
      rfl
    intro x hx
    have hx' : bitmapGet w.vpnodeMemBitmap x = true := hx
    rw [hbitmap, bitmapGet_set] at hx'
    show (w.vpnodeMemory x).cur.vm < n + 1 ∧
      (w.vpnodeMemory x).cur.idx < cfg.nrCpus (w.vpnodeMemory x).cur.vm
    rw [hcur]
    by_cases hxv : x = v
    · subst hxv
      rw [update_self]
      exact ⟨Nat.lt_succ_self n, cfg.nrCpus_pos n⟩
    · rw [update_of_ne hxv]
      simp only [hxv, decide_false, Bool.false_or] at hx'
      obtain ⟨hlt, hidx⟩ := h.cur_lt x hx'
      exact ⟨Nat.lt_succ_of_lt hlt, hidx⟩

/-- The head of the run queue is there when the VM's nodes are made: `vm_init` makes it with the first
VM. -/
inductive HeadMade (cfg : SchedConfig) (s : SchedState) : SchedState → Prop
  | first (r) (ptr : s.rqPtr = none) (lt : r < cfg.rnodeNum)
      (free : bitmapGet s.rqnodeMemBitmap r = false) :
      HeadMade cfg s { ({ s with prioRatios := initPr }).withRqnode r none 0 with rqPtr := some r }
  | later (head) (ptr : s.rqPtr = some head) : HeadMade cfg s s

/-- What `vm_init` does behind `vm_master_init`. -/
theorem vmInit_eq_some (ht : vmInit cfg s n = some t) :
    ∃ u r v w, HeadMade cfg (vmMasterInit cfg s n) u ∧ r < cfg.rnodeNum ∧
      bitmapGet u.rqnodeMemBitmap r = false ∧ v < cfg.vnodeNum ∧
      bitmapGet u.vpnodeMemBitmap v = false ∧
      vTaskInsert cfg ((u.withRqnode r (some n) bfsDefaultPrio).withVnode v ⟨n, 0⟩ bmqDefaultPrio)
        v r = some w ∧ rqInsert w r = some t := by
  simp only [vmInit] at ht
  generalize vmMasterInit cfg s n = s₁ at ht ⊢
  obtain ⟨s₂, hs₂, hnode⟩ := Option.bind_eq_some_iff.mp ht
  have hhead : HeadMade cfg s₁ s₂ := by
    split at hs₂
    · rename_i hptr
      obtain ⟨⟨r, u⟩, hu, rfl⟩ := Option.map_eq_some_iff.mp hs₂
      obtain ⟨hlt, hfree, rfl⟩ := initializeRqnode_eq_some hu
      exact .first r hptr hlt hfree
    · rename_i hptr
      cases hs₂
      obtain ⟨head, hhead⟩ := Option.ne_none_iff_exists'.mp hptr
      exact .later head hhead
  obtain ⟨⟨r, u⟩, hu, hvnode⟩ := Option.bind_eq_some_iff.mp hnode
  obtain ⟨⟨v, x⟩, hx, hinsert⟩ := Option.bind_eq_some_iff.mp hvnode
  obtain ⟨w, hw, hlink⟩ := Option.bind_eq_some_iff.mp hinsert
  obtain ⟨hrlt, hrfree, rfl⟩ := initializeRqnode_eq_some hu
  obtain ⟨hvlt, hvfree, rfl⟩ := initializeVCpuNode_eq_some hx
  exact ⟨s₂, r, v, w, hhead, hrlt, hrfree, hvlt, hvfree, hw, hlink⟩

/-- Behind `vm_master_init` and `vm_vcpu_init`, `vm_init` changes no VM, no vCPU and no pCPU. -/
theorem vmInit_tables (ht : vmInit cfg s n = some t) :
    t.vms = (vmMasterInit cfg s n).vms ∧ t.vcpus = (vmMasterInit cfg s n).vcpus ∧
      t.cpus = (vmMasterInit cfg s n).cpus := by
  obtain ⟨u, r, v, w, hhead, -, -, -, -, hinsert, hlink⟩ := vmInit_eq_some ht
  obtain ⟨next, levels, rfl, -⟩ := vTaskInsert_eq_some hinsert
  obtain ⟨head, -, rfl⟩ := rqInsert_eq_some hlink
  cases hhead <;> exact ⟨rfl, rfl, rfl⟩

/-- No pCPU has a vCPU when the VMs are made. -/
theorem vmmInit_vcpu (n : Nat) {s : SchedState} (h : vmmInit cfg n = some s) (c : PCpuId) :
    (s.cpus c).vcpu = none := by
  induction n generalizing s with
  | zero =>
    cases h
    rfl
  | succ n ih =>
    obtain ⟨u, hu, h⟩ := Option.bind_eq_some_iff.mp h
    rw [(vmInit_tables h).2.2]
    by_cases hc : c = 0
    · subst hc
      simp only [vmMasterInit, SchedState.modifyCpu, update_self]
      exact ih hu
    · simp only [vmMasterInit, SchedState.modifyCpu, update_of_ne hc]
      exact ih hu

/-- A VM is made. -/
theorem vmInit_wf (h : BootWf cfg n s) (hv : VmTables cfg n s) (ht : vmInit cfg s n = some t) :
    BootWf cfg (n + 1) t ∧ VmTables cfg (n + 1) t := by
  obtain ⟨hvms, hvcpus, -⟩ := vmInit_tables ht
  have htables := hv.vmMasterInit
  constructor
  · obtain ⟨u, r, v, w, hmade, hlt, hfree, hvlt, hvfree, hinsert, hlink⟩ := vmInit_eq_some ht
    have hmaster := h.vmMasterInit n
    generalize vmMasterInit cfg s n = s₁ at hmaster hmade
    have hhead : BootWf cfg n u ∧ ∃ head, u.rqPtr = some head := by
      cases hmade with
      | first r ptr lt free =>
        have hratios : BootWf cfg n { s₁ with prioRatios := initPr } := ⟨hmaster.view,
          hmaster.queues, hmaster.started, hmaster.inPlace, hmaster.cpus, hmaster.allocated,
          hmaster.vm_lt, hmaster.cur_lt⟩
        exact ⟨hratios.head ptr free, r, rfl⟩
      | later head ptr => exact ⟨hmaster, head, ptr⟩
    obtain ⟨hwf, head, hptr⟩ := hhead
    exact hwf.vm hptr hlt hfree hvlt hvfree (by decide) rfl hinsert hlink
  · constructor
    · rw [hvms]
      exact htables.nrCpus
    · rw [hvcpus]
      exact htables.vcpu_vm

theorem vmmInit_wf (n : Nat) {s : SchedState} (h : vmmInit cfg n = some s) :
    BootWf cfg n s ∧ VmTables cfg n s := by
  induction n generalizing s with
  | zero =>
    cases h
    exact ⟨bootWf_schedBoot, ⟨fun m hm => absurd hm (Nat.not_lt_zero m),
      fun m hm => absurd hm (Nat.not_lt_zero m)⟩⟩
  | succ n ih =>
    obtain ⟨u, hu, h⟩ := Option.bind_eq_some_iff.mp h
    obtain ⟨hwf, htables⟩ := ih hu
    exact vmInit_wf hwf htables h

/-! ### Reachable states -/

theorem schedWf_preserves : (schedMachine cfg).Preserves (SchedWf cfg) :=
  fun _ _ _ hs hstep => hs.step (step_schedStep hstep)

theorem Reachable.schedWf (h : (schedMachine cfg).Reachable s) : SchedWf cfg s :=
  h.invariant (fun _ hinit => (vmmInit_wf cfg.nrVms hinit).1.sched) schedWf_preserves

/-- One VM of two vCPUs on one pCPU, whose timer ticks once in a vCPU's time slice. -/
def smallConfig : SchedConfig where
  maxVmNum := 1
  maxVcpuNum := 2
  nrVms := 1
  nrCpus := fun _ => 2
  nrCpus_pos := fun _ => by decide
  ptRoot := fun _ => 0x1000
  hypNrCpus := 1
  timerWait := 1000

/-- The state in which `smallConfig` boots. -/
def smallBoot : SchedState := (vmmInit smallConfig 1).getD schedBoot

theorem smallBoot_init : (schedMachine smallConfig).Init smallBoot := by
  have hsome : (vmmInit smallConfig 1).isSome = true := by decide
  obtain ⟨s, hs⟩ := Option.isSome_iff_exists.mp hsome
  show vmmInit smallConfig 1 = some smallBoot
  rw [smallBoot, hs]
  rfl

end Avisor
