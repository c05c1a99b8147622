import Avisor.Lib.Machine
import Avisor.Sched.State
import Mathlib.Algebra.BigOperators.Group.Finset.Piecewise
import Mathlib.Algebra.Group.Action.Defs
import Mathlib.Algebra.Order.BigOperators.Ring.Finset

/-!
# The barrier of all pCPUs

`cpu_sync_barrier` counts arrivals and never starts over: an arrival is the ticket of the caller, and the
caller waits until the count has reached the end of the ticket's round. The token is initialised, so that
nobody waits for its field `ready`. An `int` is an `Int`, taken into its 32 bits after each operation.
-/

namespace Avisor

open Function Finset

/-- The value of an `int` behind an operation that may wrap around. -/
def wrapInt (x : Int) : Int := x.bmod (2 ^ 32)

/-- `exp_v` of `cpu_sync_barrier`. -/
def expV (n val : Int) : Int :=
  wrapInt (wrapInt ((wrapInt (val - 1)).tdiv n + 1) * n)

/-- Where a pCPU is: in no call, or in the loop of `cpu_sync_barrier` with its `exp_v`. -/
inductive BarrierPc
  | outside
  | waiting (expV : Int)
  deriving DecidableEq

/-- The field `count` of the token, and the pCPUs with the number of calls that each has entered and
returned from. -/
structure BarrierState where
  count : Int
  pc : PCpuId → BarrierPc
  entered : PCpuId → Nat
  returned : PCpuId → Nat

/-- The atomic increment with which pCPU `c` enters a call, or one of its reads of `count`. -/
inductive BarrierAction
  | enter (c : PCpuId)
  | read (c : PCpuId)

/-- `atomic_inc_return`, with `exp_v` computed behind it; `n` is the field of the token. -/
def barrierEnter (n : Int) (s : BarrierState) (c : PCpuId) : BarrierState :=
  let val := wrapInt (s.count + 1)
  { s with
    count := val
    pc := update s.pc c (.waiting (expV n val))
    entered := update s.entered c (s.entered c + 1) }

/-- The test of the loop: the call ends when the count is not below `exp_v`. -/
def barrierRead (s : BarrierState) (c : PCpuId) (expV : Int) : BarrierState :=
  if s.count < expV then s
  else { s with
    pc := update s.pc c .outside
    returned := update s.returned c (s.returned c + 1) }

/-- A step of one of the `n` pCPUs, on a token initialised with `n`. -/
def barrierStep (n : Nat) (s : BarrierState) : BarrierAction → Option BarrierState
  | .enter c =>
    if c < n ∧ s.pc c = .outside then some (barrierEnter (wrapInt n) s c) else none
  | .read c =>
    if c < n then
      match s.pc c with
      | .outside => none
      | .waiting expV => some (barrierRead s c expV)
    else none

/-- Behind `cpu_sync_init`, before the first call. -/
structure BarrierStart (s : BarrierState) : Prop where
  count : s.count = 0
  pc : ∀ c, s.pc c = .outside
  entered : ∀ c, s.entered c = 0
  returned : ∀ c, s.returned c = 0

/-- The machine of `n` pCPUs. -/
def barrierMachine (n : Nat) : Machine BarrierState BarrierAction where
  Init := BarrierStart
  step := barrierStep n

/-- The number of calls entered by the `n` pCPUs. -/
def arrivals (n : Nat) (s : BarrierState) : Nat := ∑ c ∈ range n, s.entered c

/-- Rounds are apart: who has returned from the `k`-th call did so when all had entered theirs, and where
all have, nobody in the `k`-th call waits for a larger count. -/
structure Separates (n : Nat) (s : BarrierState) : Prop where
  returned : ∀ c < n, ∀ k, k ≤ s.returned c → ∀ d < n, k ≤ s.entered d
  released : ∀ k, (∀ d < n, k ≤ s.entered d) → ∀ c < n, s.entered c = k → ∀ expV,
    s.pc c = .waiting expV → ¬ s.count < expV

variable {n k : Nat} {s t : BarrierState} {c d : PCpuId}

/-! ### Numbers -/

theorem wrapInt_of_lt {x : Nat} (h : x < 2 ^ 31) : wrapInt x = x := by
  apply Int.bmod_eq_of_le_mul_two
  · omega
  · omega

/-- The end of the round of an arrival, as long as it is an `int`. -/
theorem expV_eq {val : Nat} (hpos : 0 < val) (hn : 0 < n) (h : (val + n - 1) / n * n < 2 ^ 31) :
    expV (wrapInt n) val = ((val - 1) / n + 1 : Nat) * n := by
  have hround : (val + n - 1) / n = (val - 1) / n + 1 := by
    rw [show val + n - 1 = val - 1 + n by omega, Nat.add_div_right _ hn]
  rw [hround] at h
  have hle : n ≤ ((val - 1) / n + 1) * n := Nat.le_mul_of_pos_left n (Nat.succ_pos _)
  have hle' : (val - 1) / n + 1 ≤ ((val - 1) / n + 1) * n := Nat.le_mul_of_pos_right _ hn
  have hval : val - 1 < 2 ^ 31 := by
    have hdiv := Nat.lt_div_mul_add (a := val - 1) hn
    rw [Nat.add_mul, Nat.one_mul] at h
    omega
  have hsub : ((val : Int) - 1) = ((val - 1 : Nat) : Int) := by omega
  unfold expV
  rw [hsub, wrapInt_of_lt hval, wrapInt_of_lt (by omega : n < 2 ^ 31),
    Int.tdiv_eq_ediv_of_nonneg (Int.natCast_nonneg _), ← Int.natCast_ediv]
  have hsucc : ((((val - 1) / n : Nat) : Int) + 1) = (((val - 1) / n + 1 : Nat) : Int) := by omega
  rw [hsucc, wrapInt_of_lt (by omega), ← Int.natCast_mul, wrapInt_of_lt h]

/-! ### The invariant -/

/-- The count is that of the arrivals, each pCPU waits for the end of its round, and nobody has returned
from a call that another one has not entered. -/
structure BarrierWf (n : Nat) (s : BarrierState) : Prop where
  count : s.count = arrivals n s
  outside : ∀ c < n, s.pc c = .outside → s.returned c = s.entered c
  waiting : ∀ c < n, ∀ expV, s.pc c = .waiting expV →
    s.returned c + 1 = s.entered c ∧ expV = (s.entered c * n : Nat)
  returned_le : ∀ c < n, ∀ d < n, s.returned c ≤ s.entered d

theorem BarrierWf.init (h : BarrierStart s) : BarrierWf n s := by
  refine ⟨?_, fun c _ _ => ?_, fun c _ expV hpc => ?_, fun c _ d _ => ?_⟩
  · rw [h.count, arrivals, sum_eq_zero fun c _ => h.entered c]
    rfl
  · rw [h.entered, h.returned]
  · rw [h.pc] at hpc
    cases hpc
  · rw [h.entered, h.returned]

/-- Nobody is more than a call ahead of another one. -/
theorem BarrierWf.entered_le (h : BarrierWf n s) (hc : c < n) (hd : d < n) :
    s.entered c ≤ s.entered d + 1 := by
  have hle := h.returned_le c hc d hd
  cases hpc : s.pc c with
  | outside =>
    have heq := h.outside c hc hpc
    omega
  | waiting expV =>
    have heq := (h.waiting c hc expV hpc).1
    omega

/-- When all have entered `k` calls and nobody more than `k + 1`, with `c` among the former, the next
arrival is of round `k + 1`. -/
theorem arrivals_div (hc : c < n) (hk : s.entered c = k) (hle : ∀ d < n, k ≤ s.entered d)
    (hlt : ∀ d < n, s.entered d ≤ k + 1) : arrivals n s / n = k := by
  have hlow : n * k ≤ arrivals n s := by
    have hsum := card_nsmul_le_sum (range n) s.entered k fun d hd => hle d (mem_range.mp hd)
    rwa [card_range, smul_eq_mul] at hsum
  have hhigh : arrivals n s < n * (k + 1) := by
    have hsum : arrivals n s < ∑ _d ∈ range n, (k + 1) :=
      sum_lt_sum (fun d hd => hlt d (mem_range.mp hd)) ⟨c, mem_range.mpr hc, by omega⟩
    rwa [sum_const, card_range, smul_eq_mul] at hsum
  exact Nat.div_eq_of_lt_le (by rwa [Nat.mul_comm]) (by rwa [Nat.mul_comm])

/-- Where somebody has not entered the call `k`, fewer than `k * n` calls are entered. -/
theorem BarrierWf.arrivals_lt (h : BarrierWf n s) (hd : d < n) (hlt : s.entered d < k) :
    arrivals n s < k * n := by
  have hsum : arrivals n s < ∑ _d ∈ range n, k := by
    refine sum_lt_sum (fun c hc => ?_) ⟨d, mem_range.mpr hd, hlt⟩
    have hle := h.entered_le (mem_range.mp hc) hd
    omega
  rwa [sum_const, card_range, smul_eq_mul, Nat.mul_comm] at hsum

/-- Where all have entered the call `k`, at least `k * n` calls are entered. -/
theorem le_arrivals (hle : ∀ d < n, k ≤ s.entered d) : k * n ≤ arrivals n s := by
  have hsum := card_nsmul_le_sum (range n) s.entered k fun d hd => hle d (mem_range.mp hd)
  rwa [card_range, smul_eq_mul, Nat.mul_comm] at hsum

theorem arrivals_enter (hc : c < n) (m : Int) : arrivals n (barrierEnter m s c) = arrivals n s + 1 := by
  have hother : ∀ d ∈ range n, (barrierEnter m s c).entered d =
      s.entered d + if d = c then 1 else 0 := by
    intro d _
    by_cases hdc : d = c
    · subst hdc
      rw [if_pos rfl]
      exact update_self ..
    · rw [if_neg hdc]
      exact update_of_ne hdc ..
  rw [arrivals, sum_congr rfl hother, sum_add_distrib, sum_ite_eq', if_pos (mem_range.mpr hc)]
  rfl

/-- The arrivals, up to the end of the last round that was started, are `int`s. -/
def RoundsFit (n : Nat) (s : BarrierState) : Prop :=
  (arrivals n s + n - 1) / n * n < 2 ^ 31

theorem RoundsFit.arrivals_lt (h : RoundsFit n s) (hn : 0 < n) : arrivals n s < 2 ^ 31 := by
  have hlt := Nat.lt_div_mul_add (a := arrivals n s + n - 1) hn
  unfold RoundsFit at h
  omega

/-- An arrival is of the round that the caller has not entered. -/
theorem BarrierWf.enter (h : BarrierWf n s) (hc : c < n) (hpc : s.pc c = .outside)
    (hfit : RoundsFit n (barrierEnter (wrapInt n) s c)) :
    BarrierWf n (barrierEnter (wrapInt n) s c) := by
  have hn : 0 < n := Nat.zero_lt_of_lt hc
  have hnr := arrivals_enter (s := s) hc (wrapInt n)
  have hlt := hfit.arrivals_lt hn
  have hval : wrapInt (s.count + 1) = (arrivals n s + 1 : Nat) := by
    rw [h.count, ← Int.natCast_succ]
    exact wrapInt_of_lt (by omega)
  have hself : (barrierEnter (wrapInt n) s c).entered c = s.entered c + 1 := update_self ..
  have hexp : expV (wrapInt n) (wrapInt (s.count + 1)) = ((s.entered c + 1) * n : Nat) := by
    unfold RoundsFit at hfit
    rw [hnr] at hfit
    have hret := h.outside c hc hpc
    have hround : arrivals n s / n = s.entered c := by
      refine arrivals_div hc rfl (fun d hd => ?_) fun d hd => h.entered_le hd hc
      rw [← hret]
      exact h.returned_le c hc d hd
    rw [hval, expV_eq (Nat.succ_pos _) hn hfit, Nat.succ_sub_one, hround, Int.natCast_mul]
  refine ⟨?_, fun d hd hout => ?_, fun d hd e hwait => ?_, fun d hd d' hd' => ?_⟩
  · rw [hnr]
    exact hval
  · by_cases hdc : d = c
    · subst hdc
      simp [barrierEnter] at hout
    · simp only [barrierEnter, update_of_ne hdc] at hout ⊢
      exact h.outside d hd hout
  · by_cases hdc : d = c
    · subst hdc
      simp only [barrierEnter, update_self, BarrierPc.waiting.injEq] at hwait ⊢
      exact ⟨by rw [h.outside d hd hpc], by rw [← hwait, hexp]⟩
    · simp only [barrierEnter, update_of_ne hdc] at hwait ⊢
      exact h.waiting d hd e hwait
  · have hle := h.returned_le d hd d' hd'
    refine Nat.le_trans hle ?_
    show s.entered d' ≤ update s.entered c (s.entered c + 1) d'
    by_cases hdc : d' = c
    · subst hdc
      rw [update_self]
      exact Nat.le_succ _
    · rw [update_of_ne hdc]

/-- A call ends when all have entered theirs. -/
theorem BarrierWf.read (h : BarrierWf n s) (hc : c < n) {e : Int} (hpc : s.pc c = .waiting e) :
    BarrierWf n (barrierRead s c e) := by
  unfold barrierRead
  split
  · exact h
  · rename_i hreached
    obtain ⟨hret, hexp⟩ := h.waiting c hc e hpc
    have hall (d) (hd : d < n) : s.entered c ≤ s.entered d := by
      by_contra hlt
      have harr := h.arrivals_lt hd (Nat.lt_of_not_le hlt)
      apply hreached
      rw [hexp, h.count]
      exact Int.ofNat_lt.mpr harr
    refine ⟨h.count, fun d hd hout => ?_, fun d hd e' hwait => ?_, fun d hd d' hd' => ?_⟩
    · by_cases hdc : d = c
      · subst hdc
        simp only [update_self]
        exact hret
      · simp only [update_of_ne hdc] at hout ⊢
        exact h.outside d hd hout
    · by_cases hdc : d = c
      · subst hdc
        simp only [update_self] at hwait
        cases hwait
      · simp only [update_of_ne hdc] at hwait ⊢
        exact h.waiting d hd e' hwait
    · by_cases hdc : d = c
      · subst hdc
        simp only [update_self, hret]
        exact hall d' hd'
      · simp only [update_of_ne hdc]
        exact h.returned_le d hd d' hd'

theorem BarrierWf.separates (h : BarrierWf n s) : Separates n s := by
  refine ⟨fun c hc k hk d hd => Nat.le_trans hk (h.returned_le c hc d hd), ?_⟩
  intro k hall c hc hk e hpc
  have hexp := (h.waiting c hc e hpc).2
  have hle := le_arrivals hall
  rw [hexp, h.count, hk, not_lt]
  exact Int.ofNat_le.mpr hle

/-! ### Runs -/

/-- A step is that of `barrierEnter` or that of `barrierRead`. -/
theorem barrierMachine_step {a : BarrierAction} (h : (barrierMachine n).step s a = some t) :
    (∃ c < n, s.pc c = .outside ∧ t = barrierEnter (wrapInt n) s c) ∨
      ∃ c < n, ∃ e, s.pc c = .waiting e ∧ t = barrierRead s c e := by
  cases a with
  | enter c =>
    obtain ⟨⟨hc, hpc⟩, h⟩ := Option.ite_none_right_eq_some.mp h
    cases h
    exact .inl ⟨c, hc, hpc, rfl⟩
  | read c =>
    obtain ⟨hc, h⟩ := Option.ite_none_right_eq_some.mp h
    split at h
    · cases h
    · rename_i e hpc
      cases h
      exact .inr ⟨c, hc, e, hpc, rfl⟩

theorem arrivals_read (e : Int) : arrivals n (barrierRead s c e) = arrivals n s := by
  unfold barrierRead
  split <;> rfl

theorem arrivals_le_of_run {as : List BarrierAction} (h : (barrierMachine n).Run s as t) :
    arrivals n s ≤ arrivals n t := by
  induction h with
  | nil => exact Nat.le_refl _
  | cons hstep _ ih =>
    refine Nat.le_trans ?_ ih
    rcases barrierMachine_step hstep with ⟨c, hc, -, rfl⟩ | ⟨c, -, e, -, rfl⟩
    · rw [arrivals_enter hc]
      exact Nat.le_succ _
    · rw [arrivals_read]

theorem RoundsFit.mono (h : RoundsFit n t) (hle : arrivals n s ≤ arrivals n t) : RoundsFit n s := by
  unfold RoundsFit at *
  have hdiv : (arrivals n s + n - 1) / n ≤ (arrivals n t + n - 1) / n :=
    Nat.div_le_div_right (by omega)
  exact Nat.lt_of_le_of_lt (Nat.mul_le_mul_right n hdiv) h

theorem BarrierWf.run {as : List BarrierAction} (hrun : (barrierMachine n).Run s as t)
    (h : BarrierWf n s) (hfit : RoundsFit n t) : BarrierWf n t := by
  induction hrun with
  | nil => exact h
  | cons hstep hrest ih =>
    refine ih ?_ hfit
    have hfit' := hfit.mono (arrivals_le_of_run hrest)
    rcases barrierMachine_step hstep with ⟨c, hc, hpc, rfl⟩ | ⟨c, hc, e, hpc, rfl⟩
    · exact h.enter hc hpc hfit'
    · exact h.read hc hpc

/-- In every run whose arrivals, up to the end of the last round that was started, are `int`s, the barrier
separates its rounds. -/
theorem barrier_separates {as : List BarrierAction} (hinit : (barrierMachine n).Init s)
    (hrun : (barrierMachine n).Run s as t) (hfit : RoundsFit n t) : Separates n t :=
  ((BarrierWf.init hinit).run hrun hfit).separates

/-- Two pCPUs outside, behind `k` rounds. -/
def afterRounds (k : Nat) : BarrierState where
  count := (2 * k : Nat)
  pc := fun _ => .outside
  entered := fun c => if c < 2 then k else 0
  returned := fun c => if c < 2 then k else 0

theorem afterRounds_init : (barrierMachine 2).Init (afterRounds 0) :=
  ⟨rfl, fun _ => rfl, fun _ => ite_self 0, fun _ => ite_self 0⟩

/-- pCPU 0 is back from the first call, which both have entered, and pCPU 1 is in it. -/
theorem barrier_separates_two : ∃ t,
    (barrierMachine 2).run (afterRounds 0) [.enter 0, .read 0, .enter 1, .read 0] = some t ∧
      Separates 2 t := by
  obtain ⟨t, hrun, harr⟩ : ∃ t,
      (barrierMachine 2).run (afterRounds 0) [.enter 0, .read 0, .enter 1, .read 0] = some t ∧
        t.entered 0 + t.entered 1 = 2 := ⟨_, rfl, rfl⟩
  have hfit : RoundsFit 2 t := by
    have hsum : arrivals 2 t = t.entered 0 + t.entered 1 := by simp [arrivals, sum_range_succ]
    rw [RoundsFit, hsum, harr]
    decide
  exact ⟨t, hrun, barrier_separates afterRounds_init (Machine.run_eq_some_iff.mp hrun) hfit⟩

/-- A round of two pCPUs. -/
theorem afterRounds_run (hk : 2 * k + 2 < 2 ^ 31) : ∃ as,
    (barrierMachine 2).Run (afterRounds k) as (afterRounds (k + 1)) := by
  have hexp {val : Nat} (hval : val = 2 * k + 1 ∨ val = 2 * k + 2) :
      expV (wrapInt (2 : Nat)) val = (2 * (k + 1) : Nat) := by
    rw [expV_eq (by omega) Nat.two_pos (by omega)]
    omega
  have hfirst : (barrierMachine 2).step (afterRounds k) (.enter 0) = some
      { count := (2 * k + 1 : Nat)
        pc := update (afterRounds k).pc 0 (.waiting (2 * (k + 1) : Nat))
        entered := update (afterRounds k).entered 0 (k + 1)
        returned := (afterRounds k).returned } := by
    have hval : wrapInt ((afterRounds k).count + 1) = (2 * k + 1 : Nat) :=
      wrapInt_of_lt (x := 2 * k + 1) (by omega)
    show some (barrierEnter (wrapInt (2 : Nat)) (afterRounds k) 0) = _
    rw [barrierEnter, hval, hexp (.inl rfl)]
    rfl
  have hsecond : (barrierMachine 2).step
      { count := (2 * k + 1 : Nat)
        pc := update (afterRounds k).pc 0 (.waiting (2 * (k + 1) : Nat))
        entered := update (afterRounds k).entered 0 (k + 1)
        returned := (afterRounds k).returned } (.enter 1) = some
      { count := (2 * k + 2 : Nat)
        pc := update (update (afterRounds k).pc 0 (.waiting (2 * (k + 1) : Nat))) 1
          (.waiting (2 * (k + 1) : Nat))
        entered := update (update (afterRounds k).entered 0 (k + 1)) 1 (k + 1)
        returned := (afterRounds k).returned } := by
    have hval : wrapInt (((2 * k + 1 : Nat) : Int) + 1) = (2 * k + 2 : Nat) :=
      wrapInt_of_lt (x := 2 * k + 2) (by omega)
    simp only [barrierMachine, barrierStep, barrierEnter, hval, hexp (.inr rfl)]
    rfl
  refine ⟨[.enter 0, .enter 1, .read 0, .read 1], .cons hfirst (.cons hsecond ?_)⟩
  have hpast : ¬ (((2 * k + 2 : Nat) : Int) < (2 * (k + 1) : Nat)) := by omega
  refine Machine.run_eq_some_iff.mp ?_
  simp only [Machine.run, barrierMachine, barrierStep, barrierRead, update_self, Nat.zero_lt_two,
    Nat.one_lt_two, if_true, update_of_ne (Nat.zero_ne_one), update_of_ne (Nat.one_ne_zero), hpast,
    if_false, Option.bind_some, Option.some.injEq, afterRounds, BarrierState.mk.injEq]
  have hboth {f : PCpuId → Nat} (hf : ∀ c, f c = if c < 2 then k else 0) :
      update (update f 0 (k + 1)) 1 (k + 1) = fun c => if c < 2 then k + 1 else 0 := by
    funext c
    match c with
    | 0 | 1 => rfl
    | c + 2 => exact hf (c + 2)
  refine ⟨rfl, ?_, hboth fun _ => rfl, hboth fun _ => rfl⟩
  funext c
  match c with
  | 0 | 1 => rfl
  | c + 2 => rfl

theorem afterRounds_reachable (hk : 2 * k < 2 ^ 31) : ∃ as,
    (barrierMachine 2).Run (afterRounds 0) as (afterRounds k) := by
  induction k with
  | zero => exact ⟨[], .nil _⟩
  | succ k ih =>
    obtain ⟨as, hrun⟩ := ih (by omega)
    obtain ⟨bs, hround⟩ := afterRounds_run (by omega)
    exact ⟨as ++ bs, hrun.append hround⟩

theorem expV_overflow : expV (wrapInt (2 : Nat)) (2147483647 : Nat) < 0 := by
  decide

/-- The last arrival that an `int` counts is the first one of its round, whose end is none. -/
theorem barrier_overflow : ∃ as t, (barrierMachine 2).Init (afterRounds 0) ∧
    (barrierMachine 2).Run (afterRounds 0) as t ∧ arrivals 2 t < 2 ^ 31 ∧ ¬ Separates 2 t := by
  obtain ⟨k, hk⟩ : ∃ k, 2 * k + 1 = 2147483647 := ⟨1073741823, rfl⟩
  obtain ⟨as, hrun⟩ := afterRounds_reachable (k := k) (by omega)
  have hval : wrapInt ((afterRounds k).count + 1) = (2 * k + 1 : Nat) :=
    wrapInt_of_lt (x := 2 * k + 1) (by omega)
  obtain ⟨e, he⟩ : ∃ e, expV (wrapInt (2 : Nat)) (2 * k + 1 : Nat) = e := ⟨_, rfl⟩
  have hneg : e < 0 := by
    rw [← he, hk]
    exact expV_overflow
  have henter : (barrierMachine 2).step (afterRounds k) (.enter 0) = some
      { count := (2 * k + 1 : Nat)
        pc := update (afterRounds k).pc 0 (.waiting e)
        entered := update (afterRounds k).entered 0 (k + 1)
        returned := (afterRounds k).returned } := by
    show some (barrierEnter (wrapInt (2 : Nat)) (afterRounds k) 0) = _
    rw [barrierEnter, hval, he]
    rfl
  have hread : (barrierMachine 2).step
      { count := (2 * k + 1 : Nat)
        pc := update (afterRounds k).pc 0 (.waiting e)
        entered := update (afterRounds k).entered 0 (k + 1)
        returned := (afterRounds k).returned } (.read 0) = some
      { count := (2 * k + 1 : Nat)
        pc := update (update (afterRounds k).pc 0 (.waiting e)) 0 .outside
        entered := update (afterRounds k).entered 0 (k + 1)
        returned := update (afterRounds k).returned 0 (k + 1) } := by
    have hpast : ¬ ((2 * k + 1 : Nat) : Int) < e := by omega
    simp only [barrierMachine, barrierStep, barrierRead, update_self, Nat.zero_lt_two, if_true, hpast,
      if_false]
    rfl
  refine ⟨as ++ [.enter 0, .read 0], _, afterRounds_init,
    hrun.append (.cons henter (.cons hread (.nil _))), ?_, fun hsep => ?_⟩
  · simp only [arrivals, sum_range_succ, range_zero, sum_empty, update_self,
      update_of_ne (Nat.one_ne_zero), afterRounds, Nat.one_lt_two, if_true]
    omega
  · have hle := hsep.returned 0 Nat.two_pos (k + 1) (by simp) 1 Nat.one_lt_two
    simp [afterRounds] at hle

end Avisor
