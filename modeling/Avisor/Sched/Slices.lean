import Avisor.Sched.Boot

/-!
# The time slices

A VM gets a slice of 4 s and a vCPU one of 1 s, and `update_task_times` counts the two down on their
own. `Slices` is the part of the state the slices live in. The steps of the scheduler keep `Slices.Wf`
as long as no tick ends the slice of a VM before that of its vCPU, and no wake-up finds a slice that is
neither used up nor in its last tick.
-/

namespace Avisor

open Function

/-- The fields `time_slice` and `need_resched` of a node. -/
structure Slice where
  left : BitVec 64
  due : Bool

namespace Slice

/-- The slice of a node that goes back into its queue. -/
def spent : Slice := ⟨0, true⟩

/-- The slice of a node that is about to run. -/
def full (interval : Nat) : Slice := ⟨BitVec.ofNat 64 interval, false⟩

/-- The slice behind a tick. -/
def count (cfg : SchedConfig) (x : Slice) : Slice :=
  ⟨(countdown cfg x.left x.due).1, (countdown cfg x.left x.due).2⟩

variable {cfg : SchedConfig} {x : Slice}

theorem count_left_eq_zero : (x.count cfg).left = 0 ↔ x.left ≤ cfg.timerWait := by
  simp only [count, countdown]
  split
  · rename_i hle
    exact iff_of_true rfl hle
  · rename_i hlt
    refine iff_of_false ?_ hlt
    bv_omega

theorem count_due : (x.count cfg).due = true ↔ x.left ≤ cfg.timerWait ∨ x.due = true := by
  simp only [count, countdown]
  split
  · rename_i hle
    exact iff_of_true rfl (.inl hle)
  · rename_i hlt
    simp only [hlt, false_or]

/-- A tick does not take more from a slice than is left of it. -/
theorem toNat_countdown (cfg : SchedConfig) (left : BitVec 64) (due : Bool) :
    (countdown cfg left due).1.toNat = left.toNat - cfg.timerWait.toNat := by
  unfold countdown
  split
  · rename_i hle
    have hnat : left.toNat ≤ cfg.timerWait.toNat := hle
    rw [Nat.sub_eq_zero_of_le hnat]
    rfl
  · rename_i hlt
    have hnat : cfg.timerWait.toNat ≤ left.toNat := Nat.le_of_lt (BitVec.not_le.mp hlt)
    exact BitVec.toNat_sub_of_le hnat

end Slice

/-- The part of the state the time slices live in; `node` tells the nodes of VMs. -/
structure Slices where
  node : RNode → Prop
  vm : RNode → Slice
  vcpu : VNode → Slice
  run : RNode → Option VNode
  pc : PCpuId → Pc
  held : PCpuId → Option RNode

namespace Slices

/-- A pCPU is at the barrier of `update_task_times` and counts a tick for `v` behind it. -/
def Counted (q : Slices) (v : VNode) : Prop := ∃ c r, q.pc c = .tick r v

/-- What holds of the VM of the node `r`. -/
structure VmWf (q : Slices) (r : RNode) : Prop where
  due_iff : (q.vm r).due = true ↔ (q.vm r).left = 0
  idle : (∀ c, q.held c = some r → q.pc c = .bfsInsert ∨ q.pc c = .bfsSelected r) →
    (q.vm r).left = 0
  chosen : ∀ c, q.held c = some r → q.pc c = .bmq ∨ q.pc c = .bmqLookup r → (q.vm r).left ≠ 0
  spent : ∀ v, q.run r = some v → (q.vm r).left = 0 → (q.vcpu v).left = 0
  ended : ∀ c v, q.held c = some r → q.pc c = .bmq → q.run r = some v → (q.vcpu v).left = 0

/-- What holds of the slices behind steps that meet the guard. -/
structure Wf (cfg : SchedConfig) (q : Slices) : Prop where
  held_node : ∀ c r, q.held c = some r → q.node r
  held_unique : ∀ c c' r, q.held c = some r → q.held c' = some r → c = c'
  run_node : ∀ r v, q.run r = some v → q.node r
  run_unique : ∀ r r' v, q.run r = some v → q.run r' = some v → r = r'
  tick : ∀ c r v, q.pc c = .tick r v → q.held c = some r ∧ q.run r = some v
  vm : ∀ r, q.node r → q.VmWf r
  late : ∀ v, (q.vcpu v).due = true →
    (q.vcpu v).left = 0 ∨ (q.vcpu v).left ≤ cfg.timerWait ∧ q.Counted v

/-- `q` with the pCPU `c` at `pc`. -/
def go (q : Slices) (c : PCpuId) (pc : Pc) : Slices := { q with pc := update q.pc c pc }

/-! ### What the steps do to the slices keeps the invariant -/

section Steps

variable {cfg : SchedConfig} {q : Slices} {c : PCpuId} {r : RNode} {v : VNode}

theorem go_pc (pc : Pc) (c' : PCpuId) : (q.go c pc).pc c' = if c' = c then pc else q.pc c' :=
  update_apply ..

theorem go_self : q.go c (q.pc c) = q := by
  unfold go
  rw [update_eq_self]

/-- A vCPU counted by another pCPU's tick stays so. -/
theorem Counted.go {pc : Pc} (h : q.Counted v) (before : ∀ r, q.pc c ≠ .tick r v) :
    (q.go c pc).Counted v := by
  obtain ⟨c', r, hc'⟩ := h
  have hne : c' ≠ c := by
    rintro rfl
    exact before r hc'
  exact ⟨c', r, (update_of_ne hne ..).trans hc'⟩

theorem Wf.late_go {p : Pc} (h : q.Wf cfg) (before : ∀ r v, q.pc c ≠ .tick r v) (v : VNode)
    (hdue : (q.vcpu v).due = true) :
    (q.vcpu v).left = 0 ∨ (q.vcpu v).left ≤ cfg.timerWait ∧ (q.go c p).Counted v :=
  (h.late v hdue).imp_right fun hcount => ⟨hcount.1, hcount.2.go fun r => before r v⟩

theorem Wf.tick_go {p : Pc} (h : q.Wf cfg) (hpc : ∀ r v, p ≠ .tick r v) (c' : PCpuId) (r : RNode)
    (v : VNode) (hc' : (q.go c p).pc c' = .tick r v) : q.held c' = some r ∧ q.run r = some v := by
  rw [go_pc] at hc'
  split at hc'
  · exact absurd hc' (hpc r v)
  · exact h.tick c' r v hc'

/-- A VM is as it was where its slice is, and where the pCPU that holds it is where it was. -/
theorem VmWf.frame {q' : Slices} (h : q.VmWf r) (vm : q'.vm r = q.vm r) (run : q'.run r = q.run r)
    (vcpu : ∀ v, q.run r = some v → (q.vcpu v).left = 0 → (q'.vcpu v).left = 0)
    (held : ∀ c, q'.held c = some r ↔ q.held c = some r)
    (pc : ∀ c, q.held c = some r → q'.pc c = q.pc c) : q'.VmWf r := by
  constructor
  · rw [vm]
    exact h.due_iff
  · intro hidle
    rw [vm]
    refine h.idle fun c hc => ?_
    rw [← pc c hc]
    exact hidle c ((held c).mpr hc)
  · intro c hc hpc
    have hc := (held c).mp hc
    rw [pc c hc] at hpc
    rw [vm]
    exact h.chosen c hc hpc
  · intro v hv hleft
    rw [run] at hv
    rw [vm] at hleft
    exact vcpu v hv (h.spent v hv hleft)
  · intro c v hc hpc hv
    have hc := (held c).mp hc
    rw [pc c hc] at hpc
    rw [run] at hv
    exact vcpu v hv (h.ended c v hc hpc hv)

/-- Only `c` holds its node. -/
theorem ne_of_held {c' : PCpuId} {r' : RNode} (held : q.held c = some r) (hne : r' ≠ r)
    (hc' : q.held c' = some r') : c' ≠ c := by
  rintro rfl
  exact hne (Option.some.inj (hc'.symm.trans held))

/-- A pCPU goes on elsewhere than to a barrier or into a scheduler. -/
theorem Wf.pass {pc : Pc} (h : q.Wf cfg)
    (next : pc = .guest ∨ pc = .halted ∨ pc = .bfsLookup) (before : ∀ r v, q.pc c ≠ .tick r v) :
    (q.go c pc).Wf cfg := by
  refine { h with tick := h.tick_go (by grind), vm := fun r hr => ?_, late := h.late_go before }
  have hr := h.vm r hr
  refine { hr with idle := fun hidle => hr.idle fun c' hc' => ?_, chosen := fun c' hc' hpc => ?_,
                   ended := fun c' v hc' hpc => hr.ended c' v hc' ?_ }
  · have hpc := hidle c' hc'
    grind [go_pc]
  · refine hr.chosen c' hc' ?_
    grind [go_pc]
  · grind [go_pc]

theorem Wf.enterTick (h : q.Wf cfg) (pc : q.pc c = .guest) (held : q.held c = some r)
    (run : q.run r = some v) : (q.go c (.tick r v)).Wf cfg := by
  refine { h with
    tick := fun c' r' v' hpc => ?_
    vm := fun r hr => ?_
    late := h.late_go (by simp [pc]) }
  · rw [go_pc] at hpc
    split at hpc
    · cases hpc
      rename_i hc
      exact ⟨hc ▸ held, run⟩
    · exact h.tick c' r' v' hpc
  · have hr := h.vm r hr
    refine { hr with idle := fun hidle => hr.idle fun c' hc' => ?_, chosen := fun c' hc' hpc => ?_,
                     ended := fun c' v hc' hpc => hr.ended c' v hc' ?_ }
    · have hpc := hidle c' hc'
      grind [go_pc]
    · refine hr.chosen c' hc' ?_
      grind [go_pc]
    · grind [go_pc]

/-- A wake-up marks a vCPU whose slice is used up, or will be at the end of the tick. -/
theorem Wf.wake {u : VNode} (h : q.Wf cfg)
    (guard : (q.vcpu u).left = 0 ∨ (q.vcpu u).left ≤ cfg.timerWait ∧ q.Counted u) :
    ({ q with vcpu := update q.vcpu u { q.vcpu u with due := true } } : Slices).Wf cfg := by
  have hleft (v) : (update q.vcpu u { q.vcpu u with due := true } v).left = (q.vcpu v).left := by
    grind [update_apply]
  refine { h with vm := fun r hr => ?_, late := fun v hdue => ?_ }
  · refine (h.vm r hr).frame rfl rfl (fun v _ hv => ?_) (fun _ => Iff.rfl) fun _ _ => rfl
    exact (hleft v).trans hv
  · rw [hleft]
    by_cases hvu : v = u
    · exact hvu ▸ guard
    · refine h.late v ?_
      simp only [update_of_ne hvu] at hdue
      exact hdue

/-- Behind a tick the VM is due only if its vCPU's slice is used up, too. -/
theorem Wf.leave (h : q.Wf cfg) (pc : q.pc c = .tick r v)
    (guard : (q.vm r).left ≤ cfg.timerWait → (q.vcpu v).left ≤ cfg.timerWait) :
    (({ q with
      vm := update q.vm r ((q.vm r).count cfg)
      vcpu := update q.vcpu v ((q.vcpu v).count cfg) } : Slices).go c .guest).Wf cfg := by
  obtain ⟨hheld, hrun⟩ := h.tick c r v pc
  have hzero (x : Slice) : (x.count cfg).left = 0 ↔ x.left ≤ cfg.timerWait :=
    Slice.count_left_eq_zero
  have hdue (x : Slice) : (x.count cfg).due = true ↔ x.left ≤ cfg.timerWait ∨ x.due = true :=
    Slice.count_due
  have hused {x : Slice} (hx : x.left = 0) : x.left ≤ cfg.timerWait := by
    rw [hx]
    bv_omega
  refine { h with tick := fun c' r' v' hpc => ?_, vm := fun r' hr' => ?_, late := fun v' => ?_ }
  · exact h.tick_go (by simp) c' r' v' hpc
  · by_cases hrr : r' = r
    · subst hrr
      have hr := h.vm r' hr'
      have hheld' {c'} (hc' : q.held c' = some r') : c' = c := h.held_unique c' c r' hc' hheld
      refine ⟨?_, fun hidle => ?_, fun c' hc' hpc => ?_, fun v' hv' => ?_, fun c' v' hc' hpc => ?_⟩
      · simp only [go, update_self, hdue, hzero, hr.due_iff, or_iff_left_iff_imp]
        exact hused
      · have hpc := hidle c hheld
        simp [go] at hpc
      · rw [hheld' hc'] at hpc
        simp [go] at hpc
      · obtain rfl : v = v' := Option.some.inj (hrun.symm.trans hv')
        simp only [go, update_self, hzero]
        exact guard
      · rw [hheld' hc'] at hpc
        simp [go] at hpc
    · refine (h.vm r' hr').frame (update_of_ne hrr ..) rfl (fun v' hv' hleft => ?_) (fun _ => Iff.rfl)
        fun c' hc' => update_of_ne (ne_of_held hheld hrr hc') ..
      have hne : v' ≠ v := by
        rintro rfl
        exact hrr (h.run_unique r' r v' hv' hrun)
      exact (congrArg Slice.left (update_of_ne hne ..)).trans hleft
  · intro hdue'
    by_cases hv : v' = v
    · subst hv
      simp only [go, update_self, hdue, hzero] at hdue' ⊢
      refine .inl (hdue'.elim id fun hdue' => ?_)
      exact (h.late v' hdue').elim hused fun hcount => hcount.1
    · simp only [go, update_of_ne hv] at hdue' ⊢
      refine (h.late v' hdue').imp_right fun hcount => ⟨hcount.1, hcount.2.go fun r' hpc => ?_⟩
      rw [pc] at hpc
      cases hpc
      exact hv rfl

/-- A VM whose slice is used up goes off the pCPU. -/
theorem Wf.expire (h : q.Wf cfg) (pc : q.pc c = .boot ∨ q.pc c = .guest) (held : q.held c = some r)
    (used : (q.vm r).left = 0) :
    (({ q with vm := update q.vm r .spent } : Slices).go c .bfsInsert).Wf cfg := by
  refine { h with tick := h.tick_go (by simp), vm := fun r' hr' => ?_, late := h.late_go ?_ }
  · by_cases hrr : r' = r
    · subst hrr
      have hr := h.vm r' hr'
      refine ⟨?_, fun _ => ?_, fun c' hc' hpc => ?_, fun v hv _ => hr.spent v hv used,
        fun c' v hc' hpc => ?_⟩
      · simp [go, Slice.spent]
      · simp [go, Slice.spent]
      · obtain rfl := h.held_unique c' c r' hc' held
        simp [go] at hpc
      · obtain rfl := h.held_unique c' c r' hc' held
        simp [go] at hpc
    · exact (h.vm r' hr').frame (update_of_ne hrr ..) rfl (fun _ _ hleft => hleft) (fun _ => Iff.rfl)
        fun c' hc' => update_of_ne (ne_of_held held hrr hc') ..
  · rcases pc with pc | pc <;> simp [pc]

/-- `try_reschedule` calls `bmq_scheduler` for a vCPU that is due. -/
theorem Wf.call (h : q.Wf cfg) (pc : q.pc c = .boot ∨ q.pc c = .guest) (held : q.held c = some r)
    (rest : (q.vm r).due = false) (ends : ∀ v, q.run r = some v → (q.vcpu v).due = true) :
    (q.go c .bmq).Wf cfg := by
  have hbefore (r' v) : q.pc c ≠ .tick r' v := by
    rcases pc with pc | pc <;> simp [pc]
  refine { h with tick := h.tick_go (by simp), vm := fun r' hr' => ?_, late := h.late_go hbefore }
  by_cases hrr : r' = r
  · subst hrr
    have hr := h.vm r' hr'
    have hleft : (q.vm r').left ≠ 0 := fun hzero => by
      rw [hr.due_iff.mpr hzero] at rest
      cases rest
    refine { hr with idle := fun hidle => ?_, chosen := fun _ _ _ => hleft,
                     ended := fun c' v hc' _ hv => ?_ }
    · have hpc := hidle c held
      simp [go] at hpc
    · obtain rfl := h.held_unique c' c r' hc' held
      -- a vCPU that another pCPU counts is not this VM's
      refine (h.late v (ends v hv)).resolve_right fun ⟨_, c₁, r₁, hc₁⟩ => ?_
      obtain ⟨hheld₁, hrun₁⟩ := h.tick c₁ r₁ v hc₁
      obtain rfl := h.run_unique r₁ r' v hrun₁ hv
      obtain rfl := h.held_unique c₁ c' r₁ hheld₁ held
      exact hbefore r₁ v hc₁
  · exact (h.vm r' hr').frame rfl rfl (fun _ _ hleft => hleft) (fun _ => Iff.rfl)
      fun c' hc' => update_of_ne (ne_of_held held hrr hc') ..

theorem Wf.sleep (h : q.Wf cfg) :
    ({ q with vcpu := update q.vcpu v { q.vcpu v with due := false } } : Slices).Wf cfg := by
  refine { h with vm := fun r hr => ?_, late := fun v' hdue => ?_ }
  · refine (h.vm r hr).frame rfl rfl (fun v' _ hleft => ?_) (fun _ => Iff.rfl) fun _ _ => rfl
    grind [update_apply]
  · by_cases hv : v' = v
    · subst hv
      simp at hdue
    · simp only [update_of_ne hv] at hdue ⊢
      exact h.late v' hdue

theorem Wf.putBack (h : q.Wf cfg) (pc : q.pc c = .bfsInsert) (held : q.held c = some r) :
    (({ q with held := update q.held c none } : Slices).go c .bfsLookup).Wf cfg := by
  have hheld {c' r'} (hc' : update q.held c none c' = some r') : c' ≠ c ∧ q.held c' = some r' := by
    grind [update_apply]
  refine { h with
    held_node := fun c' r' hc' => h.held_node c' r' (hheld hc').2
    held_unique := fun c₁ c₂ r' h₁ h₂ => h.held_unique c₁ c₂ r' (hheld h₁).2 (hheld h₂).2
    tick := fun c' r' v hpc => ?_
    vm := fun r' hr' => ?_
    late := h.late_go (by simp [pc]) }
  · obtain ⟨hc', hrun⟩ := h.tick_go (p := .bfsLookup) (by simp) c' r' v hpc
    refine ⟨(update_of_ne ?_ ..).trans hc', hrun⟩
    rintro rfl
    simp [go] at hpc
  · by_cases hrr : r' = r
    · subst hrr
      have hr := h.vm r' hr'
      -- nobody holds the node behind this, and its slice is used up
      have hnone {c'} (hc' : update q.held c none c' = some r') : False :=
        (hheld hc').1 (h.held_unique c' c r' (hheld hc').2 held)
      refine { hr with idle := fun _ => hr.idle fun c' hc' => ?_,
                       chosen := fun c' hc' => (hnone hc').elim,
                       ended := fun c' v hc' => (hnone hc').elim }
      obtain rfl := h.held_unique c' c r' hc' held
      exact .inl pc
    · refine (h.vm r' hr').frame rfl rfl (fun _ _ hleft => hleft) (fun c' => ?_)
        fun c' hc' => update_of_ne (ne_of_held held hrr hc') ..
      exact ⟨fun hc' => (hheld hc').2, fun hc' => (update_of_ne (ne_of_held held hrr hc') ..).trans hc'⟩

/-- A VM in the queue has used up its slice. -/
theorem Wf.take (h : q.Wf cfg) (pc : q.pc c = .bfsLookup) (held : q.held c = none) (node : q.node r)
    (free : ∀ c', q.held c' ≠ some r) :
    (({ q with held := update q.held c (some r) } : Slices).go c (.bfsSelected r)).Wf cfg := by
  have hheld {c' r'} (hc' : update q.held c (some r) c' = some r') :
      c' = c ∧ r' = r ∨ c' ≠ c ∧ q.held c' = some r' := by
    grind [update_apply]
  refine { h with
    held_node := fun c' r' hc' => ?_
    held_unique := fun c₁ c₂ r' h₁ h₂ => ?_
    tick := fun c' r' v hpc => ?_
    vm := fun r' hr' => ?_
    late := h.late_go (by simp [pc]) }
  · rcases hheld hc' with ⟨-, rfl⟩ | ⟨-, hc'⟩
    · exact node
    · exact h.held_node c' r' hc'
  · rcases hheld h₁ with ⟨rfl, rfl⟩ | ⟨-, hc₁⟩
    · rcases hheld h₂ with ⟨rfl, -⟩ | ⟨-, hc₂⟩
      · rfl
      · exact absurd hc₂ (free c₂)
    · rcases hheld h₂ with ⟨-, rfl⟩ | ⟨-, hc₂⟩
      · exact absurd hc₁ (free c₁)
      · exact h.held_unique c₁ c₂ r' hc₁ hc₂
  · obtain ⟨hc', hrun⟩ := h.tick_go (p := .bfsSelected r) (by simp) c' r' v hpc
    refine ⟨(update_of_ne ?_ ..).trans hc', hrun⟩
    rintro rfl
    simp [go] at hpc
  · by_cases hrr : r' = r
    · subst hrr
      have hr := h.vm r' hr'
      have hzero : (q.vm r').left = 0 := hr.idle fun c' hc' => absurd hc' (free c')
      have honly {c'} (hc' : update q.held c (some r') c' = some r') : c' = c :=
        (hheld hc').elim (·.1) fun hc' => absurd hc'.2 (free c')
      refine { hr with idle := fun _ => hzero, chosen := fun c' hc' hpc => ?_,
                       ended := fun c' v hc' hpc => ?_ }
      · rw [honly hc'] at hpc
        simp [go] at hpc
      · rw [honly hc'] at hpc
        simp [go] at hpc
    · have hne {c'} (hc' : q.held c' = some r') : c' ≠ c := by
        rintro rfl
        rw [held] at hc'
        cases hc'
      refine (h.vm r' hr').frame rfl rfl (fun _ _ hleft => hleft) (fun c' => ?_)
        fun c' hc' => update_of_ne (hne hc') ..
      exact ⟨fun hc' => (hheld hc').elim (fun heq => absurd heq.2 hrr) (·.2),
        fun hc' => (update_of_ne (hne hc') ..).trans hc'⟩

/-- A VM gets a new slice while its vCPU has none left. -/
theorem Wf.select (h : q.Wf cfg) (pc : q.pc c = .bfsSelected r) (held : q.held c = some r) :
    (({ q with vm := update q.vm r (.full bfsRrInterval) } : Slices).go c .bmq).Wf cfg := by
  have hfull : (Slice.full bfsRrInterval).left ≠ 0 := by decide
  refine { h with tick := h.tick_go (by simp), vm := fun r' hr' => ?_, late := h.late_go (by simp [pc]) }
  by_cases hrr : r' = r
  · subst hrr
    have hr := h.vm r' hr'
    have hzero : (q.vm r').left = 0 := hr.idle fun c' hc' => by
      obtain rfl := h.held_unique c' c r' hc' held
      exact .inr pc
    refine ⟨?_, fun hidle => ?_, fun c' hc' hpc => ?_, fun v hv _ => hr.spent v hv hzero,
      fun c' v _ _ hv => hr.spent v hv hzero⟩
    · simp only [go, update_self]
      exact iff_of_false (by simp [Slice.full]) hfull
    · have hpc := hidle c held
      simp [go] at hpc
    · simp only [go, update_self]
      exact hfull
  · exact (h.vm r' hr').frame (update_of_ne hrr ..) rfl (fun _ _ hleft => hleft) (fun _ => Iff.rfl)
      fun c' hc' => update_of_ne (ne_of_held held hrr hc') ..

/-- A vCPU whose slice is used up, or new, goes into a queue. -/
theorem Wf.reset (h : q.Wf cfg) : ({ q with vcpu := update q.vcpu v .spent } : Slices).Wf cfg := by
  refine { h with vm := fun r hr => ?_, late := fun v' hdue => ?_ }
  · refine (h.vm r hr).frame rfl rfl (fun v' _ hleft => ?_) (fun _ => Iff.rfl) fun _ _ => rfl
    grind [update_apply, Slice.spent]
  · by_cases hv : v' = v
    · subst hv
      simp [Slice.spent]
    · simp only [update_of_ne hv] at hdue ⊢
      exact h.late v' hdue

theorem Wf.spin (h : q.Wf cfg) (pc : q.pc c = .bmq) (held : q.held c = some r) :
    (q.go c (.bmqLookup r)).Wf cfg := by
  refine { h with tick := h.tick_go (by simp), vm := fun r' hr' => ?_, late := h.late_go (by simp [pc]) }
  by_cases hrr : r' = r
  · subst hrr
    have hr := h.vm r' hr'
    have hleft := hr.chosen c held (.inl pc)
    refine { hr with idle := fun hidle => ?_, chosen := fun _ _ _ => hleft,
                     ended := fun c' v hc' hpc => ?_ }
    · have hpc := hidle c held
      simp [go] at hpc
    · obtain rfl := h.held_unique c' c r' hc' held
      simp [go] at hpc
  · exact (h.vm r' hr').frame rfl rfl (fun _ _ hleft => hleft) (fun _ => Iff.rfl)
      fun c' hc' => update_of_ne (ne_of_held held hrr hc') ..

/-- A vCPU gets a new slice while its VM has some of its own left. -/
theorem Wf.run (h : q.Wf cfg) (pc : q.pc c = .bmq ∨ q.pc c = .bmqLookup r) (held : q.held c = some r)
    (own : ∀ r', q.run r' = some v → r' = r) :
    (({ q with
      vcpu := update q.vcpu v (.full bmqRrInterval)
      run := update q.run r (some v) } : Slices).go c .guest).Wf cfg := by
  have hbefore (r' v) : q.pc c ≠ .tick r' v := by
    rcases pc with pc | pc <;> simp [pc]
  have hrun {r'} (hrr : r' ≠ r) : update q.run r (some v) r' = q.run r' := update_of_ne hrr ..
  refine { h with
    run_node := fun r' v' hr' => ?_
    run_unique := fun r₁ r₂ v' h₁ h₂ => ?_
    tick := fun c' r' v' hpc => ?_
    vm := fun r' hr' => ?_
    late := fun v' hdue => ?_ }
  · by_cases hrr : r' = r
    · exact hrr ▸ h.held_node c r held
    · exact h.run_node r' v' ((hrun hrr).symm.trans hr')
  · have hown := own
    have hold := h.run_unique
    simp only [go, update_apply] at h₁ h₂
    grind
  · obtain ⟨hc', hrun'⟩ := h.tick_go (p := .guest) (by simp) c' r' v' hpc
    refine ⟨hc', (hrun ?_).trans hrun'⟩
    rintro rfl
    obtain rfl := h.held_unique c' c r' hc' held
    simp [go] at hpc
  · by_cases hrr : r' = r
    · subst hrr
      have hr := h.vm r' hr'
      have hleft := hr.chosen c held pc
      refine { hr with idle := fun hidle => ?_, chosen := fun _ _ _ => hleft,
                       spent := fun _ _ hzero => absurd hzero hleft,
                       ended := fun c' v' hc' hpc => ?_ }
      · have hpc := hidle c held
        simp [go] at hpc
      · obtain rfl := h.held_unique c' c r' hc' held
        simp [go] at hpc
    · refine (h.vm r' hr').frame rfl (hrun hrr) (fun v' hv' hleft => ?_) (fun _ => Iff.rfl)
        fun c' hc' => update_of_ne (ne_of_held held hrr hc') ..
      have hne : v' ≠ v := by
        rintro rfl
        exact hrr (own r' hv')
      exact (congrArg Slice.left (update_of_ne hne ..)).trans hleft
  · by_cases hv : v' = v
    · subst hv
      simp [go, Slice.full] at hdue
    · simp only [go, update_of_ne hv] at hdue ⊢
      exact h.late_go (p := .guest) hbefore v' hdue

end Steps

end Slices

/-! ### The slices of the scheduler's state -/

def SchedState.slices (s : SchedState) : Slices where
  node := fun r => (s.rqnodeMemory r).vm ≠ none
  vm := fun r => ⟨(s.rqnodeMemory r).timeSlice, (s.rqnodeMemory r).needResched⟩
  vcpu := fun v => ⟨(s.vpnodeMemory v).timeSlice, (s.vpnodeMemory v).needResched⟩
  run := fun r => (s.rqnodeMemory r).runVnode
  pc := fun c => (s.cpus c).pc
  held := fun c => (s.cpus c).held

section Frame

variable (s : SchedState)

theorem slices_modifyRq (r : RNode) {f : RunQueueNode → RunQueueNode} (hvm : ∀ n, (f n).vm = n.vm)
    (hrun : ∀ n, (f n).runVnode = n.runVnode) :
    (s.modifyRq r f).slices = { s.slices with
      vm := update s.slices.vm r
        ⟨(f (s.rqnodeMemory r)).timeSlice, (f (s.rqnodeMemory r)).needResched⟩ } := by
  unfold SchedState.slices
  congr 1
  all_goals
    funext x
    by_cases h : x = r
    · subst h
      simp only [SchedState.modifyRq, update_self, hvm, hrun]
    · simp only [SchedState.modifyRq, update_of_ne h]

theorem slices_modifyVnode (v : VNode) (f : VCpuNode → VCpuNode) :
    (s.modifyVnode v f).slices = { s.slices with
      vcpu := update s.slices.vcpu v
        ⟨(f (s.vpnodeMemory v)).timeSlice, (f (s.vpnodeMemory v)).needResched⟩ } := by
  unfold SchedState.slices
  congr 1
  funext x
  by_cases h : x = v
  · subst h
    simp only [SchedState.modifyVnode, update_self]
  · simp only [SchedState.modifyVnode, update_of_ne h]

theorem slices_modifyCpu (c : PCpuId) (f : PCpu → PCpu) :
    (s.modifyCpu c f).slices = ({ s.slices with
      held := update s.slices.held c (f (s.cpus c)).held } : Slices).go c (f (s.cpus c)).pc := by
  unfold SchedState.slices Slices.go
  congr 1
  all_goals
    funext x
    by_cases h : x = c
    · subst h
      simp only [SchedState.modifyCpu, update_self]
    · simp only [SchedState.modifyCpu, update_of_ne h]

/-- A pCPU that keeps the node it holds. -/
theorem slices_modifyCpu_held (c : PCpuId) {f : PCpu → PCpu}
    (hheld : (f (s.cpus c)).held = (s.cpus c).held) :
    (s.modifyCpu c f).slices = s.slices.go c (f (s.cpus c)).pc := by
  rw [slices_modifyCpu, hheld, show (s.cpus c).held = s.slices.held c from rfl, update_eq_self]

theorem slices_relinkRq (next prev : RNode → Option RNode) :
    (s.relinkRq next prev).slices = s.slices := rfl

theorem slices_relink (r : RNode) (bitmap : BitVec 64) (nr : BitVec 32)
    (next : VNode → Option VNode) (levels : Nat → Option VNode) :
    (s.relink r bitmap nr next levels).slices = s.slices := by
  unfold SchedState.slices
  congr 1
  all_goals
    funext x
    by_cases h : x = r
    · subst h
      simp [SchedState.relink]
    · simp [SchedState.relink, h]

end Frame

theorem slices_vTaskInsert {cfg : SchedConfig} {s t : SchedState} {v : VNode} {r : RNode}
    (h : vTaskInsert cfg s v r = some t) : t.slices = s.slices := by
  obtain ⟨next, levels, rfl, -⟩ := vTaskInsert_eq_some h
  exact slices_relink ..

theorem slices_vTaskLookup {s t : SchedState} {v : Option VNode} {r : RNode}
    (h : vTaskLookup s r = some (v, t)) : t.slices = s.slices := by
  cases v with
  | none => rw [(vTaskLookup_eq_none h).2]
  | some v =>
    obtain ⟨i, -, -, rfl⟩ := vTaskLookup_eq_some h
    exact slices_relink ..

/-- The vCPU that ran is put back, or sleeps. -/
theorem slices_bmqRequeue {cfg : SchedConfig} {s t : SchedState} {r : RNode}
    (h : bmqRequeue cfg s r = some t) :
    t.slices = s.slices ∨ ∃ v, t.slices = { s.slices with vcpu := update s.slices.vcpu v .spent } := by
  unfold bmqRequeue at h
  split at h
  · cases h
    exact .inl rfl
  · rename_i v hv
    split at h
    · cases h
    · rename_i hzero
      split at h
      · cases h
        exact .inl rfl
      · refine .inr ⟨v, ?_⟩
        rw [slices_vTaskInsert h, slices_modifyVnode]
        simp only [prioManage, not_not.mp hzero]
        rfl

theorem slices_bmqAssign (s : SchedState) (r : RNode) (v : VNode) :
    (bmqAssign s r v).slices = { s.slices with
      vcpu := update s.slices.vcpu v (.full bmqRrInterval)
      run := update s.slices.run r (some v) } := by
  have hvnode := slices_modifyVnode s v fun n =>
    { n with state := .running, timeSlice := BitVec.ofNat 64 bmqRrInterval, needResched := false }
  have hrun (u : SchedState) : (u.modifyRq r fun n => { n with runVnode := some v }).slices =
      { u.slices with run := update u.slices.run r (some v) } := by
    unfold SchedState.slices
    congr 1
    all_goals
      funext x
      by_cases h : x = r
      · subst h
        simp only [SchedState.modifyRq, update_self]
      · simp only [SchedState.modifyRq, update_of_ne h]
  unfold bmqAssign
  rw [hrun, hvnode]
  rfl

theorem slices_switchTo (s : SchedState) (c : PCpuId) (v : VNode) :
    (switchTo s c v).slices = s.slices := by
  unfold switchTo
  rw [slices_modifyCpu_held]
  · exact Slices.go_self
  · rfl

theorem slices_reschedEntered (s : SchedState) (c : PCpuId) :
    (reschedEntered s c).slices = s.slices := by
  unfold reschedEntered
  rw [slices_modifyCpu_held]
  · exact Slices.go_self
  · rfl

/-- The end of `bmq_scheduler` and of `try_reschedule`. -/
theorem slices_bmqRun_return {s : SchedState} {c : PCpuId} {r : RNode} {v : VNode}
    (hheld : (s.cpus c).held = (s.cpus c).rqnode) :
    (tryRescheduleReturn (bmqRun s c r v) c).slices = ({ s.slices with
      vcpu := update s.slices.vcpu v (.full bmqRrInterval)
      run := update s.slices.run r (some v) } : Slices).go c .guest := by
  unfold tryRescheduleReturn
  rw [slices_modifyCpu_held]
  · unfold bmqRun
    rw [slices_switchTo, slices_bmqAssign]
  · simp only [PCpu.held, bmqRun_cpus, update_self]
    exact hheld.symm

theorem slices_bfsExpire {s t : SchedState} {r : RNode} (h : bfsExpire s r = some t) :
    t.slices = { s.slices with vm := update s.slices.vm r .spent } := by
  obtain ⟨hzero, rfl⟩ := bfsExpire_eq_some h
  rw [slices_modifyRq]
  · simp only [hzero]
    rfl
  · exact fun _ => rfl
  · exact fun _ => rfl

theorem slices_bfsAssign {s : SchedState} {c : PCpuId} {r : RNode} {m : VmId}
    (hpc : (s.cpus c).pc = .bfsSelected r) :
    (bfsAssign s c r m).slices =
      { s.slices with vm := update s.slices.vm r (.full bfsRrInterval) } := by
  have hmodify := slices_modifyRq s r (f := fun n => { n with
    state := .running
    timeSlice := BitVec.ofNat 64 bfsRrInterval
    needResched := false }) (fun _ => rfl) fun _ => rfl
  unfold bfsAssign
  rw [slices_modifyCpu_held]
  · exact (congrArg (fun q : Slices => q.go c (s.cpus c).pc) hmodify).trans Slices.go_self
  · simp only [SchedState.modifyRq, PCpu.held, hpc]

theorem slices_updateTaskTimesLeave {cfg : SchedConfig} {s : SchedState} {c : PCpuId} {r : RNode}
    {v : VNode} (hpc : (s.cpus c).pc = .tick r v) :
    (updateTaskTimesLeave cfg s c r v).slices = ({ s.slices with
      vm := update s.slices.vm r ((s.slices.vm r).count cfg)
      vcpu := update s.slices.vcpu v ((s.slices.vcpu v).count cfg) } : Slices).go c .guest := by
  unfold updateTaskTimesLeave
  rw [SchedState.setPc, slices_modifyCpu_held, slices_modifyRq, slices_modifyVnode]
  · rfl
  · exact fun _ => rfl
  · exact fun _ => rfl
  · simp only [SchedState.modifyRq, SchedState.modifyVnode, PCpu.held, hpc]

end Avisor
