import Avisor.Lib.RunningMax
import Avisor.Vgic.Machine
import Mathlib.Data.Prod.Lex

/-!
# Which interrupt is spilled

Without a free list register, `vgic_add_lr` looks for one to spill: among the pending ones if there are two or
more, else among the active ones. It ranks the list registers by the priority that is left in them, and the
interrupt it has by the priority in its `struct vgic_int`.
-/

namespace Avisor

open Function

/-- An interrupt's place in the order of interrupts, by priority and id; smaller ones come first. -/
def intRank (s : VgicState) (i : IntRef) : ℕ ×ₗ ℕ := toLex ((s.ints i).prio.toNat, i.id)

section

variable (E : VgicEnv) (s : VgicState)

/-- The place that `vgic_add_lr` reads from list register `n`. -/
def lrRank (n : Nat) : ℕ ×ₗ ℕ :=
  let lr := s.lr E.self n
  toLex (if E.cfg.version = .v2 then lr.prio.toNat <<< 3 else lr.prio.toNat, lr.vid)

/-- The search takes list register `n` for an active one. -/
def looksActive (n : Nat) : Bool := (lrStateOf E.cfg.version (s.lr E.self n).state).act

/-- The search takes list register `n` for a pending one. -/
def looksPending (n : Nat) : Bool :=
  !looksActive E s n && (lrStateOf E.cfg.version (s.lr E.self n).state).pend

/-- The list registers the search chooses from. -/
def lookedAt (n : Nat) : Bool :=
  if 1 < (List.range E.cfg.numLrs).countP (looksPending E s) then looksPending E s n
  else looksActive E s n

/-- What `vgic_add_lr` does with an interrupt. -/
inductive AddLrOutcome
  | refused
  | placed (n : Nat)
  | evicted (n : Nat)
  | spilled
  deriving DecidableEq, Repr

/-- The choice of `vgic_add_lr`. -/
def addLrOutcome (i : IntRef) : AddLrOutcome :=
  if !(s.ints i).enabled || (s.ints i).inLr then .refused
  else
    match findLr E s ListReg.elrsr with
    | some n => .placed n
    | none =>
      match spillSearch E s i with
      | some n => .evicted n
      | none => .spilled

/-- `vgic_add_lr` takes the interrupt and has no free list register for it. -/
structure NeedsSpill (i : IntRef) : Prop where
  enabled : (s.ints i).enabled = true
  inLr : (s.ints i).inLr = false
  full : findLr E s ListReg.elrsr = none

/-- List register `n` has been written by `vgic_write_lr` for the interrupt `j` of `vcpu`, whose priority has
not changed since. -/
structure WrittenFor (vcpu : VcpuRef) (n : Nat) (j : IntRef) : Prop where
  vid : (s.lr E.self n).vid = j.id
  prio : (s.lr E.self n).prio = if E.cfg.version = .v2 then (s.ints j).prio >>> 3 else (s.ints j).prio
  int : vgicGetInt E vcpu j.id vcpu.idx = some j

/-- Two list registers hold interrupts of the same kind, active ones or ones that are only pending. -/
def SameKind (n m : Nat) : Prop :=
  ((s.lr E.self n).state.act = true ∧ (s.lr E.self m).state.act = true) ∨
    ((s.lr E.self n).state = .pending ∧ (s.lr E.self m).state = .pending)

/-- Spilling the interrupt `i` of `vcpu` respects the order. Where `i` is spilled, the pending interrupts in list
registers come before it; where it takes the place of another one, it comes before that one, and none of the same
kind comes after that one. -/
structure SpillRespects (vcpu : VcpuRef) (i : IntRef) : Prop where
  spilled : addLrOutcome E s i = .spilled → ∀ n < E.cfg.numLrs, ∀ j, WrittenFor E s vcpu n j →
    (s.lr E.self n).state.pend = true → intRank s j < intRank s i
  evicted : ∀ k, addLrOutcome E s i = .evicted k → ∀ j, WrittenFor E s vcpu k j →
    intRank s i < intRank s j ∧
      ∀ n < E.cfg.numLrs, ∀ l, WrittenFor E s vcpu n l → SameKind E s k n → ¬ intRank s j < intRank s l

/-- What the list registers must be like. If the search chooses from none that it reads as coming after `i`, then no
pending interrupt comes after `i`; and what it reads as the last of those it chooses from is the last. -/
structure ReadsInOrder (vcpu : VcpuRef) (i : IntRef) : Prop where
  pending : (∀ n < E.cfg.numLrs, lookedAt E s n = true → lrRank E s n ≤ intRank s i) →
    ∀ n < E.cfg.numLrs, ∀ j, WrittenFor E s vcpu n j → (s.lr E.self n).state.pend = true →
      intRank s j < intRank s i
  last : ∀ n < E.cfg.numLrs, lookedAt E s n = true → intRank s i < lrRank E s n →
    (∀ m < E.cfg.numLrs, lookedAt E s m = true → lrRank E s m ≤ lrRank E s n) →
    ∀ m < E.cfg.numLrs, lookedAt E s m = true → ∀ j l, WrittenFor E s vcpu n j →
      WrittenFor E s vcpu m l → intRank s l ≤ intRank s j

end

variable {E : VgicEnv} {s : VgicState} {vcpu : VcpuRef} {i j : IntRef} {n k : Nat}

theorem vgicAddLr_eq (E : VgicEnv) (s : VgicState) (vcpu : VcpuRef) (i : IntRef) :
    vgicAddLr E s vcpu i =
      match addLrOutcome E s i with
      | .refused => some s
      | .placed n => some (vgicWriteLr E s vcpu i n)
      | .evicted n => (vgicSpillLr E s vcpu n i).map fun s => vgicWriteLr E s vcpu i n
      | .spilled => some (vgicAddSpilled E s vcpu i) := by
  unfold vgicAddLr addLrOutcome
  split
  · rfl
  · cases findLr E s ListReg.elrsr with
    | some n => rfl
    | none =>
      cases spillSearch E s i with
      | some n => rfl
      | none => rfl

/-- `vgic_write_lr` leaves a list register that it has written. -/
theorem vgicWriteLr_writtenFor (hi : vgicGetInt E vcpu i.id vcpu.idx = some i) (n : Nat) :
    WrittenFor E (vgicWriteLr E s vcpu i n) vcpu n i := by
  have hlr : (vgicWriteLr E s vcpu i n).lr E.self n =
      (lrOfInt E i ((vgicReleasePrev E s vcpu i n).ints i)
        (vgicGetState E (vgicReleasePrev E s vcpu i n) i)).1 := by
    unfold vgicWriteLr
    simp only [VgicState.writeLr_lr, update_self]
  have hprio : ((vgicWriteLr E s vcpu i n).ints i).prio =
      ((vgicReleasePrev E s vcpu i n).ints i).prio := by
    unfold vgicWriteLr
    simp only [VgicState.writeLr_ints, VgicState.modifyInt_ints, update_self]
  have hfields (int : VgicInt) (state : IntState) : (lrOfInt E i int state).1.vid = i.id ∧
      (lrOfInt E i int state).1.prio =
        if E.cfg.version = .v2 then int.prio >>> 3 else int.prio := by
    unfold lrOfInt
    dsimp only
    split
    · exact ⟨rfl, rfl⟩
    · split
      · split
        · exact ⟨rfl, rfl⟩
        · split
          · exact ⟨rfl, rfl⟩
          · exact ⟨rfl, rfl⟩
      · exact ⟨rfl, rfl⟩
  refine ⟨?_, ?_, hi⟩
  · rw [hlr]
    exact (hfields _ _).1
  · rw [hlr, hprio]
    exact (hfields _ _).2

/-! ### The search -/

/-- The two searches behind the list registers in `l`. -/
structure Searched (E : VgicEnv) (s : VgicState) (i : IntRef) (l : List Nat) (x : SpillSearch) : Prop where
  act : RunningMax (lrRank E s) (intRank s i) (l.filter (looksActive E s))
    (toLex (x.minPrioAct, x.minIdAct)) x.actInd
  pend : RunningMax (lrRank E s) (intRank s i) (l.filter (looksPending E s))
    (toLex (x.minPrioPend, x.minIdPend)) x.pendInd
  count : x.pendFound = l.countP (looksPending E s)

theorem later_iff {p q a b : Nat} : (p > q || (p = q && a > b)) = true ↔ toLex (q, b) < toLex (p, a) := by
  rw [Prod.Lex.toLex_lt_toLex]
  simp only [Bool.or_eq_true, decide_eq_true_eq, Bool.and_eq_true, gt_iff_lt]
  constructor <;> omega

theorem Searched.step {l : List Nat} {x : SpillSearch} (h : Searched E s i l x) :
    Searched E s i (l ++ [n]) (spillSearchStep E s x n) := by
  have hact := h.act
  have hpend := h.pend
  have hcount := h.count
  have hrank : lrRank E s n = toLex (if E.cfg.version = .v2 then (s.lr E.self n).prio.toNat <<< 3
    else (s.lr E.self n).prio.toNat, (s.lr E.self n).vid) := rfl
  unfold spillSearchStep
  dsimp only
  generalize (if E.cfg.version = .v2 then (s.lr E.self n).prio.toNat <<< 3
    else (s.lr E.self n).prio.toNat) = lrPrio at *
  by_cases hlooks : looksActive E s n = true
  · have hnot : looksPending E s n = false := by simp [looksPending, hlooks]
    have hfilter : (l ++ [n]).filter (looksActive E s) = l.filter (looksActive E s) ++ [n] := by
      simp [hlooks]
    have hpend' : (l ++ [n]).filter (looksPending E s) = l.filter (looksPending E s) := by simp [hnot]
    have hcount' : (l ++ [n]).countP (looksPending E s) = l.countP (looksPending E s) := by simp [hnot]
    rw [if_pos (show (lrStateOf E.cfg.version (s.lr E.self n).state).act = true from hlooks)]
    by_cases hlater : (lrPrio > x.minPrioAct || (lrPrio = x.minPrioAct && (s.lr E.self n).vid > x.minIdAct)) = true
    · rw [if_pos hlater]
      rw [later_iff, ← hrank] at hlater
      refine ⟨?_, hpend' ▸ hpend, hcount' ▸ hcount⟩
      rw [hfilter]
      dsimp only
      rw [← hrank]
      exact hact.take hlater
    · rw [if_neg hlater]
      rw [later_iff, ← hrank] at hlater
      refine ⟨?_, hpend' ▸ hpend, hcount' ▸ hcount⟩
      rw [hfilter]
      exact hact.pass (not_lt.mp hlater)
  · have hfilter : (l ++ [n]).filter (looksActive E s) = l.filter (looksActive E s) := by simp [hlooks]
    rw [if_neg (show ¬ (lrStateOf E.cfg.version (s.lr E.self n).state).act = true from hlooks)]
    by_cases hlooksPending : (lrStateOf E.cfg.version (s.lr E.self n).state).pend = true
    · have hpending : looksPending E s n = true := by simp [looksPending, hlooks, hlooksPending]
      have hpend' : (l ++ [n]).filter (looksPending E s) = l.filter (looksPending E s) ++ [n] := by
        simp [hpending]
      have hcount' : (l ++ [n]).countP (looksPending E s) = l.countP (looksPending E s) + 1 := by
        simp [hpending]
      rw [if_pos hlooksPending]
      by_cases hlater : (lrPrio > x.minPrioPend ||
          (lrPrio = x.minPrioPend && (s.lr E.self n).vid > x.minIdPend)) = true
      · rw [if_pos hlater]
        rw [later_iff, ← hrank] at hlater
        refine ⟨hfilter ▸ hact, ?_, ?_⟩
        · rw [hpend']
          dsimp only
          rw [← hrank]
          exact hpend.take hlater
        · rw [hcount', ← hcount]
      · rw [if_neg hlater]
        rw [later_iff, ← hrank] at hlater
        refine ⟨hfilter ▸ hact, ?_, ?_⟩
        · rw [hpend']
          exact hpend.pass (not_lt.mp hlater)
        · rw [hcount', ← hcount]
    · have hnot : looksPending E s n = false := by simp [looksPending, hlooksPending]
      have hpend' : (l ++ [n]).filter (looksPending E s) = l.filter (looksPending E s) := by simp [hnot]
      have hcount' : (l ++ [n]).countP (looksPending E s) = l.countP (looksPending E s) := by simp [hnot]
      rw [if_neg hlooksPending]
      exact ⟨hfilter ▸ hact, hpend' ▸ hpend, hcount' ▸ hcount⟩

theorem Searched.foldl {l : List Nat} {x : SpillSearch} (h : Searched E s i l x) (l' : List Nat) :
    Searched E s i (l ++ l') (l'.foldl (spillSearchStep E s) x) := by
  induction l' generalizing l x with
  | nil => rwa [List.append_nil]
  | cons n l' ih =>
    rw [List.append_cons]
    exact ih h.step

/-- The search finds a list register exactly if one of those it chooses from comes after the interrupt, as far as
it reads, and then one of the last of them. -/
theorem spillSearch_runningMax (E : VgicEnv) (s : VgicState) (i : IntRef) :
    ∃ best, RunningMax (lrRank E s) (intRank s i) ((List.range E.cfg.numLrs).filter (lookedAt E s)) best
      (spillSearch E s i) := by
  unfold spillSearch
  dsimp only
  generalize hstart : (SpillSearch.mk _ _ _ _ _ _ _ _) = x
  have hx : Searched E s i [] x := by
    subst hstart
    exact ⟨.nil _ _, .nil _ _, rfl⟩
  have hsearched := hx.foldl (List.range E.cfg.numLrs)
  rw [List.nil_append] at hsearched
  rw [hsearched.count]
  by_cases hmany : 1 < (List.range E.cfg.numLrs).countP (looksPending E s)
  · have hlooked : lookedAt E s = looksPending E s := by
      funext n
      exact if_pos hmany
    rw [if_pos hmany, hlooked]
    exact ⟨_, hsearched.pend⟩
  · have hlooked : lookedAt E s = looksActive E s := by
      funext n
      exact if_neg hmany
    rw [if_neg hmany, hlooked]
    exact ⟨_, hsearched.act⟩

theorem spillSearch_eq_none_iff : spillSearch E s i = none ↔
    ∀ n < E.cfg.numLrs, lookedAt E s n = true → lrRank E s n ≤ intRank s i := by
  obtain ⟨best, hmax⟩ := spillSearch_runningMax E s i
  rw [hmax.eq_none_iff]
  simp only [List.mem_filter, List.mem_range, and_imp]

theorem of_spillSearch_eq_some (h : spillSearch E s i = some k) :
    k < E.cfg.numLrs ∧ lookedAt E s k = true ∧ intRank s i < lrRank E s k ∧
      ∀ n < E.cfg.numLrs, lookedAt E s n = true → lrRank E s n ≤ lrRank E s k := by
  obtain ⟨best, hmax⟩ := spillSearch_runningMax E s i
  obtain ⟨hmem, hlt, hle⟩ := hmax.of_eq_some h
  simp only [List.mem_filter, List.mem_range, and_imp] at hmem hle
  exact ⟨hmem.1, hmem.2, hlt, hle⟩

/-! ### The order it keeps -/

/-- A list register has the priority of its interrupt, or the next one with the bits that it has room for. -/
theorem WrittenFor.lrRank_le (h : WrittenFor E s vcpu n j) : lrRank E s n ≤ intRank s j := by
  unfold lrRank intRank
  dsimp only
  rw [h.vid, h.prio, Prod.Lex.toLex_le_toLex]
  by_cases hv2 : E.cfg.version = .v2
  · simp only [hv2, if_true, BitVec.toNat_ushiftRight, Nat.shiftLeft_eq, Nat.shiftRight_eq_div_pow]
    omega
  · simp only [hv2, if_false]
    exact .inr ⟨trivial, le_rfl⟩

theorem WrittenFor.congr (h : WrittenFor E s vcpu n j) (hrank : lrRank E s k = lrRank E s n) :
    WrittenFor E s vcpu k j := by
  have hpair := congrArg ofLex hrank
  unfold lrRank at hpair
  simp only [ofLex_toLex, Prod.mk.injEq] at hpair
  obtain ⟨hprio, hvid⟩ := hpair
  refine ⟨hvid.trans h.vid, ?_, h.int⟩
  rw [← h.prio]
  apply BitVec.eq_of_toNat_eq
  by_cases hv2 : E.cfg.version = .v2
  · simp only [hv2, if_true, Nat.shiftLeft_eq] at hprio
    omega
  · simpa only [hv2, if_false] using hprio

/-- The search chooses from list registers of one kind, and from all of that kind. -/
theorem sameKind_iff (hk : lookedAt E s k = true) : SameKind E s k n ↔ lookedAt E s n = true := by
  unfold SameKind
  by_cases hmany : 1 < (List.range E.cfg.numLrs).countP (looksPending E s)
  · rw [lookedAt, if_pos hmany] at hk ⊢
    unfold looksPending looksActive at hk ⊢
    cases hversion : E.cfg.version with
    | v2 =>
      rw [hversion] at hk
      revert hk
      simp only [lrStateOf]
      obtain ⟨pk, ak⟩ := (s.lr E.self k).state
      obtain ⟨pn, an⟩ := (s.lr E.self n).state
      cases pk <;> cases ak <;> cases pn <;> cases an <;> decide
    | v3 => simp [hversion, lrStateOf, IntState.inv] at hk
  · rw [lookedAt, if_neg hmany] at hk ⊢
    unfold looksActive at hk ⊢
    cases hversion : E.cfg.version with
    | v2 =>
      rw [hversion] at hk
      revert hk
      simp only [lrStateOf]
      obtain ⟨pk, ak⟩ := (s.lr E.self k).state
      obtain ⟨pn, an⟩ := (s.lr E.self n).state
      cases pk <;> cases ak <;> cases pn <;> cases an <;> decide
    | v3 => simp [hversion, lrStateOf, IntState.inv] at hk

theorem addLrOutcome_eq (h : NeedsSpill E s i) : addLrOutcome E s i =
    match spillSearch E s i with
    | some n => .evicted n
    | none => .spilled := by
  unfold addLrOutcome
  rw [h.enabled, h.inLr, h.full]
  rfl

theorem needsSpill_of_spilled (h : addLrOutcome E s i = .spilled) :
    NeedsSpill E s i ∧ spillSearch E s i = none := by
  unfold addLrOutcome at h
  split at h
  · cases h
  · rename_i htaken
    simp only [Bool.or_eq_true, Bool.not_eq_true', not_or, Bool.not_eq_false, Bool.not_eq_true] at htaken
    cases hfull : findLr E s ListReg.elrsr with
    | some n =>
      rw [hfull] at h
      cases h
    | none =>
      rw [hfull] at h
      cases hsearch : spillSearch E s i with
      | some n =>
        rw [hsearch] at h
        cases h
      | none => exact ⟨⟨htaken.1, htaken.2, hfull⟩, rfl⟩

theorem needsSpill_of_evicted (h : addLrOutcome E s i = .evicted k) :
    NeedsSpill E s i ∧ spillSearch E s i = some k := by
  unfold addLrOutcome at h
  split at h
  · cases h
  · rename_i htaken
    simp only [Bool.or_eq_true, Bool.not_eq_true', not_or, Bool.not_eq_false, Bool.not_eq_true] at htaken
    cases hfull : findLr E s ListReg.elrsr with
    | some n =>
      rw [hfull] at h
      cases h
    | none =>
      rw [hfull] at h
      cases hsearch : spillSearch E s i with
      | some n =>
        rw [hsearch] at h
        cases h
        exact ⟨⟨htaken.1, htaken.2, hfull⟩, rfl⟩
      | none =>
        rw [hsearch] at h
        cases h

theorem ReadsInOrder.respects (h : NeedsSpill E s i → ReadsInOrder E s vcpu i) :
    SpillRespects E s vcpu i := by
  constructor
  · intro hspilled
    obtain ⟨hneeds, hnone⟩ := needsSpill_of_spilled hspilled
    exact (h hneeds).pending (spillSearch_eq_none_iff.mp hnone)
  · intro k hevicted j hj
    obtain ⟨hneeds, hsome⟩ := needsSpill_of_evicted hevicted
    obtain ⟨hk, hlooked, hlt, hle⟩ := of_spillSearch_eq_some hsome
    refine ⟨hlt.trans_le hj.lrRank_le, fun n hn l hl hkind => not_lt.mpr ?_⟩
    exact (h hneeds).last k hk hlooked hlt hle n hn ((sameKind_iff hlooked).mp hkind) j l hj hl

theorem SpillRespects.readsInOrder (h : SpillRespects E s vcpu i) (hneeds : NeedsSpill E s i) :
    ReadsInOrder E s vcpu i := by
  have houtcome := addLrOutcome_eq hneeds
  constructor
  · intro hall
    rw [spillSearch_eq_none_iff.mpr hall] at houtcome
    exact h.spilled houtcome
  · intro n hn hlooked hlt hlast m hm hlooked' j l hj hl
    cases hsearch : spillSearch E s i with
    | none => exact absurd (spillSearch_eq_none_iff.mp hsearch n hn hlooked) (not_le_of_gt hlt)
    | some k =>
      -- the list register that is taken has the same place as the last one
      obtain ⟨hk, hlookedk, -, hle⟩ := of_spillSearch_eq_some hsearch
      have hrank : lrRank E s k = lrRank E s n := le_antisymm (hlast k hk hlookedk) (hle n hn hlooked)
      rw [hsearch] at houtcome
      have hkept := (h.evicted k houtcome j (hj.congr hrank)).2 m hm l hl
      exact not_lt.mp (hkept ((sameKind_iff hlookedk).mpr hlooked'))

/-- `vgic_add_lr` respects the order of interrupts exactly where, if it has to spill one, what it reads of the list
registers is in that order. -/
theorem spillRespects_iff (E : VgicEnv) (s : VgicState) (vcpu : VcpuRef) (i : IntRef) :
    SpillRespects E s vcpu i ↔ (NeedsSpill E s i → ReadsInOrder E s vcpu i) :=
  ⟨fun h hneeds => h.readsInOrder hneeds, ReadsInOrder.respects⟩

/-! ### Two list registers that are taken -/

/-- A vCPU's interrupt `id` is enabled and pending with the priority `prio`. -/
def raised (s : VgicState) (id : Nat) (prio : BitVec 8) : VgicState :=
  s.modifyInt (.shared 0 id) fun int =>
    { int with owner := some ⟨0, 0⟩, enabled := true, state := .pending, prio := prio }

/-- Two list registers, and what a pCPU with the first vCPU finds. -/
def twoLrs (version : GicVersion) : VgicEnv := twoVcpusOn (twoVcpus version 2 Nat.two_pos) 0 ⟨0, 0⟩

/-- Both are taken by pending interrupts of the priority `held`, and one with the priority `prio` is raised. -/
def lrsTaken (version : GicVersion) (held prio : BitVec 8) : VgicState :=
  let E := twoLrs version
  let s := vgicWriteLr E (raised (vgicAtBoot version) 50 held) ⟨0, 0⟩ (.shared 0 50) 0
  let s := vgicWriteLr E (raised s 51 held) ⟨0, 0⟩ (.shared 0 51) 1
  raised s 40 prio

/-- The GICv3 build spills the highest priority behind two lower ones that are pending, and the GICv2 build an
interrupt with the priority of boot behind two later ones with the same. -/
theorem spill_outOfOrder :
    ¬ SpillRespects (twoLrs .v3) (lrsTaken .v3 0xa0 0x00) ⟨0, 0⟩ (.shared 0 40) ∧
      ¬ SpillRespects (twoLrs .v2) (lrsTaken .v2 gicLowestPrio gicLowestPrio) ⟨0, 0⟩ (.shared 0 40) := by
  constructor
  · intro h
    have hlt := h.spilled (by decide) 0 (by decide) (.shared 0 50) ⟨by decide, by decide, by decide⟩
      (by decide)
    exact absurd hlt (by decide)
  · intro h
    have hlt := h.spilled (by decide) 0 (by decide) (.shared 0 50) ⟨by decide, by decide, by decide⟩
      (by decide)
    exact absurd hlt (by decide)

end Avisor
