import Avisor.Cpu.Barrier

/-!
# The barrier behind which messages are cleared

`cpu_sync_and_clear_msgs` takes three arrivals of each pCPU on one counter: that of `cpu_sync_barrier`, an addition
of its own, and that of `cpu_sync_barrier` again. What the middle phase waits for is computed from the counter as it
stands some time after the addition. If another pCPU has made its third arrival by then, that is the end of the third
round, and the third arrival of the pCPU that waits for it is missing there.
-/

namespace Avisor

open Function Finset

/-- Where a pCPU is in `cpu_sync_and_clear_msgs`, with what it waits for. -/
inductive SyncPc
  /-- In front of the first `cpu_sync_barrier`. -/
  | start
  /-- In the loop of the first `cpu_sync_barrier`. -/
  | first (expV : Int)
  /-- In front of `atomic_add`. -/
  | synced
  /-- Behind `atomic_add`, `next_count` not computed yet. -/
  | added
  /-- In the loop that handles messages. -/
  | clearing (nextCount : Nat)
  /-- In front of the last `cpu_sync_barrier`. -/
  | cleared
  /-- In the loop of the last `cpu_sync_barrier`. -/
  | last (expV : Int)
  /-- Returned. -/
  | done
  deriving DecidableEq

/-- The field `count` of the token, and where the pCPUs are. -/
structure SyncState where
  count : Int
  pc : PCpuId → SyncPc

/-- An `int` as a `size_t`. -/
def intToSize (x : Int) : Nat := (x % sizeT).toNat

/-- `ALIGN`, on `int`s. -/
def intAlign (val unit : Int) : Int :=
  wrapInt ((wrapInt (wrapInt (val + unit) - 1)).tdiv unit * unit)

/-- The next addition or read of `count` of a pCPU; `n` is the field of the token. -/
def syncAct (n : Int) (s : SyncState) (c : PCpuId) : Option SyncState :=
  match s.pc c with
  | .start =>
    let val := wrapInt (s.count + 1)
    some { count := val, pc := update s.pc c (.first (expV n val)) }
  | .first e => if s.count < e then some s else some { s with pc := update s.pc c .synced }
  | .synced => some { count := wrapInt (s.count + 1), pc := update s.pc c .added }
  | .added => some { s with pc := update s.pc c (.clearing (intToSize (intAlign s.count n))) }
  | .clearing next =>
    if intToSize s.count < next then some s else some { s with pc := update s.pc c .cleared }
  | .cleared =>
    let val := wrapInt (s.count + 1)
    some { count := val, pc := update s.pc c (.last (expV n val)) }
  | .last e => if s.count < e then some s else some { s with pc := update s.pc c .done }
  | .done => none

/-- The `n` pCPUs that call `cpu_sync_and_clear_msgs` once each, on a token initialised with `n`. A step is one of a
pCPU. -/
def syncMachine (n : Nat) : Machine SyncState PCpuId where
  Init := fun s => s.count = 0 ∧ ∀ c, s.pc c = .start
  step := fun s c => if c < n then syncAct (wrapInt n) s c else none

/-- The arrivals a pCPU has made. -/
def SyncPc.arrived : SyncPc → Nat
  | .start => 0
  | .first _ | .synced => 1
  | .added | .clearing _ | .cleared => 2
  | .last _ | .done => 3

/-- What a pCPU waits for. -/
def SyncPc.awaits : SyncPc → Option Int
  | .first e | .last e => some e
  | .clearing next => some next
  | _ => none

/-- The arrivals that the pCPUs other than `c` still have to make. -/
def othersToCome (n : Nat) (s : SyncState) (c : PCpuId) : Nat :=
  ∑ d ∈ (range n).erase c, (3 - (s.pc d).arrived)

/-- Nobody waits for a count that the others cannot reach, and nobody has returned before all have made all their
arrivals. -/
structure Unblocked (n : Nat) (s : SyncState) : Prop where
  reachable : ∀ c < n, ∀ e, (s.pc c).awaits = some e → e ≤ s.count + othersToCome n s c
  returned : ∀ c < n, s.pc c = .done → ∀ d < n, (s.pc d).arrived = 3

/-- `next_count` is not computed behind somebody's third arrival. -/
def InTime (n : Nat) (s : SyncState) (c : PCpuId) : Prop :=
  s.pc c = .added → s.count ≤ 2 * n

instance (n : Nat) (s : SyncState) (c : PCpuId) : Decidable (InTime n s c) :=
  inferInstanceAs (Decidable (_ → _))

variable {n : Nat} {s t : SyncState} {c d : PCpuId} {p : SyncPc}

/-! ### Arrivals -/

/-- The arrivals of all. -/
def arrivedAll (n : Nat) (pc : PCpuId → SyncPc) : Nat := ∑ c ∈ range n, (pc c).arrived

theorem SyncPc.arrived_le (p : SyncPc) : p.arrived ≤ 3 := by
  cases p <;> simp [SyncPc.arrived]

theorem arrivedAll_update (hc : c < n) (pc : PCpuId → SyncPc) (p : SyncPc) :
    arrivedAll n (update pc c p) + (pc c).arrived = arrivedAll n pc + p.arrived := by
  have hmem : c ∈ range n := mem_range.mpr hc
  have hnew := add_sum_erase (range n) (fun d => (update pc c p d).arrived) hmem
  have hold := add_sum_erase (range n) (fun d => (pc d).arrived) hmem
  have hrest : ∑ d ∈ (range n).erase c, (update pc c p d).arrived = ∑ d ∈ (range n).erase c, (pc d).arrived :=
    sum_congr rfl fun d hd => by rw [update_of_ne (ne_of_mem_erase hd)]
  simp only [update_self] at hnew
  rw [arrivedAll, arrivedAll]
  omega

/-- What the others still have to do. -/
theorem othersToCome_eq (hc : c < n) :
    othersToCome n s c + arrivedAll n s.pc + 3 = 3 * n + (s.pc c).arrived := by
  have hmem : c ∈ range n := mem_range.mpr hc
  have hall : ∑ d ∈ range n, (3 - (s.pc d).arrived) + arrivedAll n s.pc = 3 * n := by
    rw [arrivedAll, ← sum_add_distrib]
    rw [sum_congr rfl fun d _ => Nat.sub_add_cancel (s.pc d).arrived_le, sum_const, card_range, smul_eq_mul,
      Nat.mul_comm]
  have hsplit := add_sum_erase (range n) (fun d => 3 - (s.pc d).arrived) hmem
  have hle := (s.pc c).arrived_le
  rw [othersToCome]
  omega

/-! ### The invariant -/

/-- Nobody is in front of the first barrier any more. -/
def AllStarted (n : Nat) (pc : PCpuId → SyncPc) : Prop := ∀ d < n, pc d ≠ .start

/-- What has happened where a pCPU is. -/
def PcWf (n : Nat) (pc : PCpuId → SyncPc) : SyncPc → Prop
  | .start => True
  | .first e => e = n
  | .synced | .added => AllStarted n pc
  | .clearing next => AllStarted n pc ∧ (next = 2 * n ∨ next = 3 * n)
  | .cleared => AllStarted n pc ∧ 2 * n ≤ arrivedAll n pc
  | .last e => AllStarted n pc ∧ 2 * n ≤ arrivedAll n pc ∧ e = (3 * n : Nat)
  | .done => AllStarted n pc ∧ 3 * n ≤ arrivedAll n pc

/-- The counter counts the arrivals, and every pCPU got where it is by its barriers. -/
structure SyncWf (n : Nat) (s : SyncState) : Prop where
  count : s.count = arrivedAll n s.pc
  pcs : ∀ c < n, PcWf n s.pc (s.pc c)

theorem SyncWf.init (h : (syncMachine n).Init s) : SyncWf n s := by
  refine ⟨?_, fun c _ => ?_⟩
  · rw [h.1, arrivedAll, sum_eq_zero fun c _ => by rw [h.2]; rfl]
    rfl
  · rw [h.2]
    trivial

/-- What holds where a pCPU is goes on to hold when others move on. -/
theorem PcWf.mono {pc pc' : PCpuId → SyncPc} (h : PcWf n pc p) (hle : arrivedAll n pc ≤ arrivedAll n pc')
    (hstarted : AllStarted n pc → AllStarted n pc') : PcWf n pc' p := by
  cases p with
  | start => trivial
  | first e => exact h
  | synced => exact hstarted h
  | added => exact hstarted h
  | clearing next => exact ⟨hstarted h.1, h.2⟩
  | cleared => exact ⟨hstarted h.1, h.2.trans hle⟩
  | last e => exact ⟨hstarted h.1, h.2.1.trans hle, h.2.2⟩
  | done => exact ⟨hstarted h.1, h.2.trans hle⟩

/-- A pCPU that has made its second arrival has seen all others start. -/
theorem PcWf.started {pc : PCpuId → SyncPc} (h : PcWf n pc p) (hp : 2 ≤ p.arrived) : AllStarted n pc := by
  cases p with
  | start => cases hp
  | first e => exact absurd hp (Nat.not_succ_le_self 1)
  | synced => exact h
  | added => exact h
  | clearing next => exact h.1
  | cleared => exact h.1
  | last e => exact h.1
  | done => exact h.1

/-- As long as somebody has not arrived, fewer than `n` arrivals are made. -/
theorem SyncWf.arrivedAll_lt_of_start (h : SyncWf n s) (hc : c < n) (hstart : s.pc c = .start) :
    arrivedAll n s.pc < n := by
  have hone (d : PCpuId) (hd : d < n) : (s.pc d).arrived ≤ 1 := by
    by_contra htwo
    exact (h.pcs d hd).started (by omega) c hc hstart
  have hsum : arrivedAll n s.pc < ∑ _d ∈ range n, 1 :=
    sum_lt_sum (fun d hd => hone d (mem_range.mp hd)) ⟨c, mem_range.mpr hc, by rw [hstart]; decide⟩
  rwa [sum_const, card_range, smul_eq_mul, Nat.mul_one] at hsum

theorem SyncWf.allStarted (h : SyncWf n s) (hle : n ≤ arrivedAll n s.pc) : AllStarted n s.pc :=
  fun _ hd hstart => absurd (h.arrivedAll_lt_of_start hd hstart) (Nat.not_lt.mpr hle)

/-- When all have started and one of them has made its second arrival, more than `n` arrivals are made. -/
theorem lt_arrivedAll {pc : PCpuId → SyncPc} (hstarted : AllStarted n pc) (hc : c < n)
    (htwo : 2 ≤ (pc c).arrived) : n < arrivedAll n pc := by
  have hone (d : PCpuId) (hd : d < n) : 1 ≤ (pc d).arrived := by
    have hne := hstarted d hd
    cases hpc : pc d <;> simp_all [SyncPc.arrived]
  have hsum : ∑ _d ∈ range n, 1 < arrivedAll n pc :=
    sum_lt_sum (fun d hd => hone d (mem_range.mp hd)) ⟨c, mem_range.mpr hc, htwo⟩
  rwa [sum_const, card_range, smul_eq_mul, Nat.mul_one] at hsum

theorem arrivedAll_lt {pc : PCpuId → SyncPc} (hc : c < n) (hthree : (pc c).arrived < 3) :
    arrivedAll n pc < 3 * n := by
  have hsum : arrivedAll n pc < ∑ _d ∈ range n, 3 :=
    sum_lt_sum (fun d _ => (pc d).arrived_le) ⟨c, mem_range.mpr hc, hthree⟩
  rwa [sum_const, card_range, smul_eq_mul, Nat.mul_comm] at hsum

/-! ### What a step does -/

/-- The ways on, when `k` arrivals are made. -/
inductive SyncMove (n k : Nat) : SyncPc → SyncPc → Prop
  | arrive (h : k < n) : SyncMove n k .start (.first n)
  | pass {e : Int} (h : e ≤ k) : SyncMove n k (.first e) .synced
  | add : SyncMove n k .synced .added
  | inTime (h : k ≤ 2 * n) : SyncMove n k .added (.clearing (2 * n))
  | late (h : 2 * n < k) : SyncMove n k .added (.clearing (3 * n))
  | clear {next : Nat} (h : next ≤ k) : SyncMove n k (.clearing next) .cleared
  | arriveLast : SyncMove n k .cleared (.last (3 * n : Nat))
  | passLast {e : Int} (h : e ≤ k) : SyncMove n k (.last e) .done

theorem SyncMove.arrived_le {k : Nat} {q : SyncPc} (h : SyncMove n k p q) : p.arrived ≤ q.arrived := by
  cases h <;> simp [SyncPc.arrived]

theorem SyncMove.ne_start {k : Nat} {q : SyncPc} (h : SyncMove n k p q) : q ≠ .start := by
  cases h <;> simp

theorem intToSize_of_lt {x : Nat} (h : x < sizeT) : intToSize x = x := by
  rw [intToSize, ← Int.natCast_emod, Int.toNat_natCast, Nat.mod_eq_of_lt h]

theorem intAlign_eq {x : Nat} (hn : 0 < n) (h : x + n < 2 ^ 31) :
    intAlign x (wrapInt n) = ((x + n - 1) / n * n : Nat) := by
  have hle : (x + n - 1) / n * n ≤ x + n - 1 := Nat.div_mul_le_self _ _
  have hsub : ((x + n : Nat) : Int) - 1 = ((x + n - 1 : Nat) : Int) := by omega
  unfold intAlign
  rw [wrapInt_of_lt (by omega : n < 2 ^ 31), ← Int.natCast_add, wrapInt_of_lt h, hsub,
    wrapInt_of_lt (by omega), Int.tdiv_eq_ediv_of_nonneg (Int.natCast_nonneg _), ← Int.natCast_ediv,
    ← Int.natCast_mul, wrapInt_of_lt (by omega)]

theorem SyncWf.wrapInt_count (h : SyncWf n s) (hfit : 4 * n < 2 ^ 31) (hc : c < n)
    (hthree : (s.pc c).arrived < 3) : wrapInt (s.count + 1) = (arrivedAll n s.pc + 1 : Nat) := by
  have hlt := arrivedAll_lt hc hthree
  rw [h.count, ← Int.natCast_succ]
  exact wrapInt_of_lt (by omega)

/-- An addition counts the arrival. -/
theorem SyncWf.count_arrive (h : SyncWf n s) (hfit : 4 * n < 2 ^ 31) (hc : c < n)
    (hp : p.arrived = (s.pc c).arrived + 1) : wrapInt (s.count + 1) = arrivedAll n (update s.pc c p) := by
  have hupdate := arrivedAll_update hc s.pc p
  have hle := p.arrived_le
  rw [h.wrapInt_count hfit hc (by omega), Int.natCast_inj]
  omega

/-- A read counts none. -/
theorem SyncWf.count_stay (h : SyncWf n s) (hc : c < n) (hp : p.arrived = (s.pc c).arrived) :
    s.count = arrivedAll n (update s.pc c p) := by
  have hupdate := arrivedAll_update hc s.pc p
  rw [h.count, Int.natCast_inj]
  omega

/-- What the first barrier and the last one wait for. -/
theorem expV_of_round {k j : Nat} (hlow : j * n ≤ k) (hhigh : k < (j + 1) * n) (hfit : k + n < 2 ^ 31) :
    expV (wrapInt n) (k + 1 : Nat) = ((j + 1) * n : Nat) := by
  have hn : 0 < n := by
    by_contra hzero
    obtain rfl : n = 0 := by omega
    omega
  have hdiv : k / n = j := Nat.div_eq_of_lt_le hlow hhigh
  have hle : (k + 1 + n - 1) / n * n ≤ k + 1 + n - 1 := Nat.div_mul_le_self _ _
  rw [expV_eq (by omega : 0 < k + 1) hn (by omega), Nat.add_sub_cancel, hdiv, Int.natCast_mul]

/-- What the middle phase waits for. -/
theorem SyncWf.nextCount (h : SyncWf n s) {j : Nat} (hlow : j * n < arrivedAll n s.pc)
    (hhigh : arrivedAll n s.pc ≤ (j + 1) * n) (hfit : arrivedAll n s.pc + n < 2 ^ 31) :
    intToSize (intAlign s.count (wrapInt n)) = (j + 1) * n := by
  have hn : 0 < n := by
    by_contra hzero
    obtain rfl : n = 0 := by omega
    omega
  have hdiv : (arrivedAll n s.pc + n - 1) / n = j + 1 := by
    apply Nat.div_eq_of_lt_le
    · rw [Nat.add_mul]
      omega
    · rw [Nat.add_mul (j + 1)]
      omega
  rw [h.count, intAlign_eq hn hfit, hdiv, intToSize_of_lt]
  rw [sizeT]
  have hround : (j + 1) * n = j * n + n := Nat.succ_mul j n
  omega

/-- A step is one of these ways on, or a read after which the loop goes on. The arrivals fit in an `int`, and so do
their sums with `n`. -/
theorem SyncWf.step_cases (h : SyncWf n s) (hfit : 4 * n < 2 ^ 31) (hstep : (syncMachine n).step s c = some t) :
    c < n ∧ (t = s ∧ (s.pc c).awaits ≠ none ∨ ∃ p, SyncMove n (arrivedAll n s.pc) (s.pc c) p ∧ t.pc = update s.pc c p ∧
      t.count = arrivedAll n t.pc) := by
  obtain ⟨hc, hact⟩ := Option.ite_none_right_eq_some.mp hstep
  have hn : 0 < n := Nat.zero_lt_of_lt hc
  have hwf := h.pcs c hc
  have hcount := h.count
  refine ⟨hc, ?_⟩
  unfold syncAct at hact
  cases hpc : s.pc c with
  | start =>
    simp only [hpc] at hact
    obtain rfl := Option.some.inj hact
    have hlt := h.arrivedAll_lt_of_start hc hpc
    have harrive := h.count_arrive (p := .first n) hfit hc (by rw [hpc]; rfl)
    have hexp : expV (wrapInt n) (wrapInt (s.count + 1)) = n := by
      rw [h.wrapInt_count hfit hc (by rw [hpc]; decide), expV_of_round (j := 0) (by omega) (by omega) (by omega),
        Nat.zero_add, Nat.one_mul]
    rw [hexp]
    exact .inr ⟨.first n, .arrive hlt, rfl, harrive⟩
  | first e =>
    simp only [hpc] at hact
    by_cases hwait : s.count < e
    · rw [if_pos hwait] at hact
      exact .inl ⟨(Option.some.inj hact).symm, Option.some_ne_none _⟩
    · rw [if_neg hwait] at hact
      obtain rfl := Option.some.inj hact
      exact .inr ⟨.synced, .pass (by omega), rfl, h.count_stay hc (by rw [hpc]; rfl)⟩
  | synced =>
    simp only [hpc] at hact
    obtain rfl := Option.some.inj hact
    exact .inr ⟨.added, .add, rfl, h.count_arrive hfit hc (by rw [hpc]; rfl)⟩
  | added =>
    rw [hpc] at hwf
    simp only [hpc] at hact
    obtain rfl := Option.some.inj hact
    have hlow := lt_arrivedAll hwf hc (by rw [hpc]; decide)
    have hthree : (s.pc c).arrived < 3 := by
      rw [hpc]
      decide
    have hhigh := arrivedAll_lt hc hthree
    by_cases htime : arrivedAll n s.pc ≤ 2 * n
    · have hnext : intToSize (intAlign s.count (wrapInt n)) = 2 * n :=
        h.nextCount (j := 1) (by omega) htime (by omega)
      rw [hnext]
      exact .inr ⟨.clearing (2 * n), .inTime htime, rfl, h.count_stay hc (by rw [hpc]; rfl)⟩
    · have hnext : intToSize (intAlign s.count (wrapInt n)) = 3 * n :=
        h.nextCount (j := 2) (by omega) (by omega) (by omega)
      rw [hnext]
      exact .inr ⟨.clearing (3 * n), .late (by omega), rfl, h.count_stay hc (by rw [hpc]; rfl)⟩
  | clearing next =>
    rw [hpc] at hwf
    simp only [hpc] at hact
    have hthree : (s.pc c).arrived < 3 := by
      rw [hpc]
      exact Nat.lt_succ_self 2
    have hhigh := arrivedAll_lt hc hthree
    have hsize : intToSize s.count = arrivedAll n s.pc := by
      rw [hcount]
      exact intToSize_of_lt (by rw [sizeT]; omega)
    rw [hsize] at hact
    by_cases hwait : arrivedAll n s.pc < next
    · rw [if_pos hwait] at hact
      exact .inl ⟨(Option.some.inj hact).symm, Option.some_ne_none _⟩
    · rw [if_neg hwait] at hact
      obtain rfl := Option.some.inj hact
      exact .inr ⟨.cleared, .clear (by omega), rfl, h.count_stay hc (by rw [hpc]; rfl)⟩
  | cleared =>
    rw [hpc] at hwf
    simp only [hpc] at hact
    obtain rfl := Option.some.inj hact
    have hthree : (s.pc c).arrived < 3 := by
      rw [hpc]
      decide
    have hhigh := arrivedAll_lt hc hthree
    have harrive := h.count_arrive (p := .last (3 * n : Nat)) hfit hc (by rw [hpc]; rfl)
    have hexp : expV (wrapInt n) (wrapInt (s.count + 1)) = (3 * n : Nat) := by
      rw [h.wrapInt_count hfit hc (by rw [hpc]; decide), expV_of_round hwf.2 hhigh (by omega)]
    rw [hexp]
    exact .inr ⟨.last (3 * n : Nat), .arriveLast, rfl, harrive⟩
  | last e =>
    simp only [hpc] at hact
    by_cases hwait : s.count < e
    · rw [if_pos hwait] at hact
      exact .inl ⟨(Option.some.inj hact).symm, Option.some_ne_none _⟩
    · rw [if_neg hwait] at hact
      obtain rfl := Option.some.inj hact
      exact .inr ⟨.done, .passLast (by omega), rfl, h.count_stay hc (by rw [hpc]; rfl)⟩
  | done =>
    rw [hpc] at hact
    cases hact

theorem SyncWf.move {k : Nat} (h : SyncWf n s) (hc : c < n) (hk : k = arrivedAll n s.pc)
    (hmove : SyncMove n k (s.pc c) p) (hpc : t.pc = update s.pc c p) (hcount : t.count = arrivedAll n t.pc) :
    SyncWf n t := by
  have hupdate := arrivedAll_update hc s.pc p
  have hle := hmove.arrived_le
  rw [← hpc] at hupdate
  have hall : arrivedAll n s.pc ≤ arrivedAll n t.pc := by omega
  have hstarted (hs : AllStarted n s.pc) : AllStarted n t.pc := by
    intro d hd
    rw [hpc]
    by_cases hdc : d = c
    · subst hdc
      rw [update_self]
      exact hmove.ne_start
    · rw [update_of_ne hdc]
      exact hs d hd
  refine ⟨hcount, fun d hd => ?_⟩
  rw [hpc]
  by_cases hdc : d = c
  · subst hdc
    rw [update_self, ← hpc]
    have hwf := h.pcs d hd
    have hmono := hwf.mono hall hstarted
    generalize s.pc d = q at *
    cases hmove with
    | arrive hlt => rfl
    | @pass e hle =>
      have hexp : e = n := hwf
      exact hstarted (h.allStarted (by omega))
    | add => exact hmono
    | inTime hle => exact ⟨hmono, .inl rfl⟩
    | late hlt => exact ⟨hmono, .inr rfl⟩
    | @clear next hle =>
      obtain ⟨-, hnext⟩ := hwf
      exact ⟨hmono.1, by omega⟩
    | arriveLast => exact ⟨hmono.1, hmono.2, rfl⟩
    | @passLast e hle =>
      have hexp : e = (3 * n : Nat) := hwf.2.2
      exact ⟨hmono.1, by omega⟩
  · rw [update_of_ne hdc, ← hpc]
    exact (h.pcs d hd).mono hall hstarted

theorem SyncWf.step (h : SyncWf n s) (hfit : 4 * n < 2 ^ 31) (hstep : (syncMachine n).step s c = some t) :
    SyncWf n t := by
  obtain ⟨hc, ⟨rfl, -⟩ | ⟨p, hmove, hpc, hcount⟩⟩ := h.step_cases hfit hstep
  · exact h
  · exact h.move hc rfl hmove hpc hcount

/-! ### Blocking -/

/-- The pCPUs that handle messages wait for the second arrivals. -/
def WaitsForSecond (n : Nat) (s : SyncState) : Prop :=
  ∀ c < n, ∀ next, s.pc c = .clearing next → next = 2 * n

theorem SyncWf.unblocked_iff (h : SyncWf n s) : Unblocked n s ↔ WaitsForSecond n s := by
  constructor
  · intro hfree c hc next hpc
    have hothers := othersToCome_eq (s := s) hc
    have hreach := hfree.reachable c hc next (by rw [hpc]; rfl)
    have hwf := h.pcs c hc
    rw [hpc] at hothers hwf
    rw [h.count] at hreach
    simp only [SyncPc.arrived] at hothers
    have hnext := hwf.2
    omega
  · intro hsecond
    constructor
    · intro c hc e hawaits
      have hothers := othersToCome_eq (s := s) hc
      have hwf := h.pcs c hc
      rw [h.count]
      cases hpc : s.pc c with
      | first e' =>
        rw [hpc] at hawaits hothers hwf
        have hexp : e' = n := hwf
        have harrived : (SyncPc.first e').arrived = 1 := rfl
        obtain rfl : e' = e := Option.some.inj hawaits
        omega
      | clearing next =>
        have hnext := hsecond c hc next hpc
        rw [hpc] at hawaits hothers
        have harrived : (SyncPc.clearing next).arrived = 2 := rfl
        obtain rfl : (next : Int) = e := Option.some.inj hawaits
        omega
      | last e' =>
        rw [hpc] at hawaits hothers hwf
        have hexp : e' = (3 * n : Nat) := hwf.2.2
        have harrived : (SyncPc.last e').arrived = 3 := rfl
        obtain rfl : e' = e := Option.some.inj hawaits
        omega
      | start | synced | added | cleared | done =>
        rw [hpc] at hawaits
        cases hawaits
    · intro c hc hdone d hd
      have hwf := h.pcs c hc
      rw [hdone] at hwf
      by_contra hne
      have hlt := arrivedAll_lt hd (by have := (s.pc d).arrived_le; omega : (s.pc d).arrived < 3)
      exact absurd hwf.2 (by omega)

/-- A step keeps the pCPUs waiting for the second arrivals if and only if it does not compute `next_count` late. -/
theorem SyncWf.waitsForSecond_iff (h : SyncWf n s) (hfit : 4 * n < 2 ^ 31) (hsecond : WaitsForSecond n s)
    (hstep : (syncMachine n).step s c = some t) : WaitsForSecond n t ↔ InTime n s c := by
  obtain ⟨hc, ⟨rfl, hawaits⟩ | ⟨p, hmove, hpc, -⟩⟩ := h.step_cases hfit hstep
  · refine iff_of_true hsecond fun hadded => ?_
    rw [hadded] at hawaits
    exact absurd rfl hawaits
  · have hnew : WaitsForSecond n t ↔ ∀ next, p = .clearing next → next = 2 * n := by
      constructor
      · intro ht next hp
        exact ht c hc next (by rw [hpc, update_self, hp])
      · intro hp d hd next hd'
        rw [hpc] at hd'
        by_cases hdc : d = c
        · subst hdc
          rw [update_self] at hd'
          exact hp next hd'
        · rw [update_of_ne hdc] at hd'
          exact hsecond d hd next hd'
    have hcount := h.count
    rw [hnew, InTime]
    generalize s.pc c = q at *
    cases hmove with
    | inTime hle =>
      refine iff_of_true (fun next hp => ?_) fun _ => by omega
      injection hp with hnext
      exact hnext.symm
    | late hlt =>
      refine iff_of_false (fun hp => ?_) fun hle => ?_
      · have hthree := hp _ rfl
        have hn := Nat.zero_lt_of_lt hc
        omega
      · have hcount' := hle rfl
        omega
    | arrive _ | pass _ | add | clear _ | arriveLast | passLast _ =>
      exact iff_of_true (fun _ hp => by cases hp) fun hq => by cases hq

/-- In a run of the calls nobody is ever blocked if and only if every `next_count` is computed before anybody has made
the third arrival. -/
theorem always_unblocked_iff {as : List PCpuId} (hfit : 4 * n < 2 ^ 31) (hinit : (syncMachine n).Init s) :
    (syncMachine n).Always (Unblocked n) s as ↔ (syncMachine n).EachStep (InTime n) s as := by
  have hwf := SyncWf.init hinit
  refine Machine.always_iff_eachStep (I := SyncWf n) (H := fun _ => True) ?_ (fun _ _ _ _ _ _ _ _ => trivial) ?_
    hwf ?_ trivial
  · exact fun s c t h hstep => h.step hfit hstep
  · intro s c t h hfree _ hstep
    rw [(h.step hfit hstep).unblocked_iff]
    exact h.waitsForSecond_iff hfit (h.unblocked_iff.mp hfree) hstep
  · rw [hwf.unblocked_iff]
    intro c _ next hpc
    rw [hinit.2] at hpc
    cases hpc

/-- In front of the calls. -/
def SyncState.initial : SyncState := ⟨0, fun _ => .start⟩

/-- Two pCPUs arrive a second time before one of them goes on. -/
theorem always_unblocked_iff_together :
    (syncMachine 2).Always (Unblocked 2) .initial [0, 1, 0, 1, 0, 1, 0, 1, 0, 1, 0, 1, 0, 1] :=
  (always_unblocked_iff (by decide) ⟨rfl, fun _ => rfl⟩).mpr (by decide)

/-- pCPU 1 makes its third arrival before pCPU 0 has computed `next_count`: pCPU 0 waits for the sixth arrival, which
is its own. -/
theorem sync_blocks : ¬∀ (n : Nat) (s t : SyncState) (as : List PCpuId), 4 * n < 2 ^ 31 →
    (syncMachine n).Init s → (syncMachine n).Run s as t → Unblocked n t := by
  intro hall
  obtain ⟨t, hrun, hpc, hcount, hother⟩ : ∃ t,
      (syncMachine 2).run .initial [0, 1, 0, 0, 1, 1, 1, 1, 1, 0] = some t ∧ t.pc 0 = .clearing 6 ∧ t.count = 5 ∧
        t.pc 1 = .last 6 := ⟨_, rfl, rfl, rfl, rfl⟩
  have hfree := hall 2 .initial t _ (by decide) ⟨rfl, fun _ => rfl⟩ (Machine.run_eq_some_iff.mp hrun)
  have hreach := hfree.reachable 0 (by decide) 6 (by rw [hpc]; rfl)
  have hothers : othersToCome 2 t 0 = 0 := by
    have herase : (range 2).erase 0 = {1} := by decide
    rw [othersToCome, herase, sum_singleton, hother]
    rfl
  rw [hcount, hothers] at hreach
  exact absurd hreach (by decide)

end Avisor
