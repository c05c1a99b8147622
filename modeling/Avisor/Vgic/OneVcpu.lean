import Avisor.Vgic.HousingMaintenance

/-!
# Runs of one vCPU

A vCPU runs on its pCPU from boot on: interrupts are injected, its guest writes registers and works on
its list registers, and maintenance interrupts come. Along such a run an interrupt is in one list
register or on a list once, and one that is pending is in one of them, as long as the calls meet the
conditions of the files before.
-/

namespace Avisor

open Function CircularList

variable {E : VgicEnv} {s t : VgicState} {i j : IntRef}

/-- The calls that stay with the vCPU. -/
def VgicCall.isLocal : VgicCall → Bool
  | .setField _ _ _ | .injectHw _ | .inject _ _ | .maintenance | .guest _ => true
  | .writeCtlr _ | .writeSgir _ | .writeSgi1r _ | .message => false

/-- The virtual interrupt controller under the calls of one vCPU. -/
def vgicMachine (E : VgicEnv) : Machine VgicState VgicCall where
  Init := VgicBoot E.cfg
  step s call := if call.isLocal && vgicEnabled E s call then vgicEffect E s call else none

/-- No call comes to `vgic_add_lr` for an interrupt that has a place. -/
def CallClean (E : VgicEnv) (s : VgicState) : VgicCall → Prop
  | .setField id i data => SetFieldClean E s (regHandlerInfoTable E.cfg.version id) i data
  | .injectHw id => ∀ i, vgicGetInt E E.current id E.current.idx = some i → InjectHwClean E s i
  | .inject id source => ∀ i, vgicGetInt E E.current id E.current.idx = some i →
      if vgicIntIsHw s i then InjectHwClean E s i
      else if hasSources E i then InjectSgiClean E s i source
      else SetFieldClean E s ispendrInfo i 1
  | .maintenance => MaintenanceClean E s
  | _ => True

/-- No call leaves an SGI that is pending out of the list register it took it from. -/
def CallDelivers (E : VgicEnv) (s : VgicState) : VgicCall → Prop
  | .setField id i data => SetFieldDelivers E s (regHandlerInfoTable E.cfg.version id) i data
  | .inject id source => ∀ i, vgicGetInt E E.current id E.current.idx = some i →
      vgicIntIsHw s i = false → hasSources E i → InjectSgiDelivers E s i source
  | _ => True

/-! ### The invariant along a run -/

theorem VgicBoot.settled {b : Prop} (here : E.pId E.current = E.self) (h : VgicBoot E.cfg s) :
    Settled E b (fun _ => []) s := by
  have hlr (k) : s.lr E.self k = .zero := h.lr E.self k
  constructor
  · exact here
  · exact fun hd _ => circle_nil.mpr (h.heads hd)
  · exact fun _ _ _ hmem => absurd hmem List.not_mem_nil
  · exact fun k => ⟨.priv E.current 0, ⟨rfl, by decide⟩, by rw [hlr]; rfl⟩
  · exact fun k hne => absurd (congrArg ListReg.state (hlr k)) hne
  · exact fun k _ hne => absurd (congrArg ListReg.state (hlr k)) hne
  · intro i hinLr
    rw [h.inLr i] at hinLr
    cases hinLr
  · intro hv2 n _
    rw [h.priv, if_pos hv2]
  · intro k heoi
    rw [hlr] at heoi
    cases heoi
  · intro _ i _ _ hdue
    unfold Due at hdue
    rw [h.state i, h.sgiPend i] at hdue
    split at hdue
    · exact absurd hdue (by simp)
    · exact absurd hdue.2.2 Bool.false_ne_true
  · exact fun _ k _ hne => absurd (congrArg ListReg.state (hlr k)) hne
  · intro _ i hsgi
    rw [h.enabled i]
    exact hsgi

/-- Each call keeps the places of the interrupts. -/
theorem Housed.step {b : Prop} {q : SpilledHead → List IntRef} {call : VgicCall}
    (h : Settled E b q s) (hclean : CallClean E s call) (hdelivers : b → CallDelivers E s call)
    (hstep : (vgicMachine E).step s call = some t) : ∃ q', Settled E b q' t := by
  simp only [vgicMachine] at hstep
  split at hstep
  · rename_i hguard
    rw [Bool.and_eq_true] at hguard
    cases call with
    | setField id i data =>
      exact h.setField (fun fields hfields int => updateField_samePlace hfields) hclean hdelivers hstep
    | injectHw id => exact h.injectHw hclean hstep
    | inject id source => exact h.inject hclean hdelivers hstep
    | maintenance => exact h.maintenance hclean hstep
    | guest g => exact ⟨q, h.guest hstep⟩
    | writeCtlr | writeSgir | writeSgi1r | message => cases hguard.1
  · cases hstep

/-! ### One place for each interrupt -/

/-- No two list registers hold an interrupt of one number, no interrupt is on a list of spilled
interrupts twice, and none that is on one is in a list register. -/
structure Unique (E : VgicEnv) (s : VgicState) : Prop where
  lrs : ∀ k < E.cfg.numLrs, ∀ n < E.cfg.numLrs, (s.lr E.self k).state ≠ .inv →
    (s.lr E.self n).state ≠ .inv → (s.lr E.self k).vid = (s.lr E.self n).vid → k = n
  spilled : ∃ l, spilledEntries E s E.current = some l ∧ l.Nodup ∧
    ∀ i ∈ l, ∀ k < E.cfg.numLrs, (s.lr E.self k).vid = i.id → (s.lr E.self k).state = .inv

theorem Housed.unique {b : Prop} {X : IntRef → Prop} {q : SpilledHead → List IntRef}
    (h : Housed E b X q s) : Unique E s where
  lrs k _ n _ hk hn hvid := by
    obtain ⟨i, hi, hid⟩ := h.vid k
    have hrecK := h.held k i hk hi hid
    have hrecN := h.held n i hn hi (hvid.symm.trans hid)
    exact hrecK.lr.symm.trans hrecN.lr
  spilled := by
    have hvcpu : OwnHead E (.vcpu E.current) := .inl rfl
    have hvm : OwnHead E (.vm E.current.vm) := .inr rfl
    refine ⟨_, h.spilledEntries, ?_, ?_⟩
    · apply List.Nodup.append (h.lists _ hvcpu).nodup (h.lists _ hvm).nodup
      intro i hi hi'
      have hhead := (h.member _ hvcpu i hi).2.1
      have hhead' := (h.member _ hvm i hi').2.1
      cases hhead.symm.trans hhead'
    · intro i hi k _ hvid
      have hlinked := h.spilled_iff.mp ⟨_, h.spilledEntries, hi⟩
      have hown := (h.member _ ownHead_spilledHead i hlinked).1
      exact h.notHeld hown (h.linked hlinked) k hvid

/-- Along a run of calls none of which comes to `vgic_add_lr` for an interrupt that has a place, each
interrupt has one place at most. -/
theorem unique_always {calls : List VgicCall} (here : E.pId E.current = E.self)
    (init : (vgicMachine E).Init s) (h : (vgicMachine E).EachStep (CallClean E) s calls) :
    (vgicMachine E).Always (Unique E) s calls := by
  apply Machine.always_of_eachStep (I := fun s => ∃ q, Settled E False q s) ?_ ?_
    ⟨_, init.settled here⟩ h
  · intro s call t hs hclean hstep
    obtain ⟨q, hq⟩ := hs
    exact hq.step hclean False.elim hstep
  · intro s hs
    obtain ⟨q, hq⟩ := hs
    exact hq.unique

/-- The first vCPU of two, on pCPU 0 with one list register. -/
def oneLr : VgicEnv := twoVcpusOn (twoVcpus .v2 1 Nat.one_pos) 0 ⟨0, 0⟩

/-- The guest sends itself SGI 0, takes it and completes it. -/
def sendFirst : List VgicCall := [.inject 0 0, .guest (.acknowledge 0), .guest (.complete 0)]

theorem oneLr_boot_spilled : ¬ Spilled oneLr (vgicAtBoot .v2) i := by
  intro hspilled
  obtain ⟨l, hl, hmem⟩ := hspilled
  have hnil : spilledEntries oneLr (vgicAtBoot .v2) oneLr.current = some [] := rfl
  rw [hnil] at hl
  cases hl
  exact absurd hmem List.not_mem_nil

theorem oneLr_boot_clean {id source : Nat} (hid : gicIsSgi id = true) :
    CallClean oneLr (vgicAtBoot .v2) (.inject id source) := by
  intro i hget
  have hi : gicIsSgi i.id = true := (congrArg gicIsSgi (vgicGetInt_id hget)).trans hid
  have hsources : hasSources oneLr i = true := by
    unfold hasSources
    rw [hi]
    rfl
  have hhw : vgicIntIsHw (vgicAtBoot .v2) i = false := by
    unfold vgicIntIsHw
    rw [hi]
    rfl
  rw [hhw, if_neg Bool.false_ne_true, if_pos hsources]
  exact fun hspilled => absurd hspilled oneLr_boot_spilled

theorem unique_always_sendFirst :
    (vgicMachine oneLr).Always (Unique oneLr) (vgicAtBoot .v2) sendFirst := by
  apply unique_always rfl (vgicAtBoot_boot oneLr.cfg)
  exact fun _ _ => ⟨oneLr_boot_clean rfl, fun _ _ => ⟨trivial, fun _ _ => ⟨trivial, trivial⟩⟩⟩

/-- SGI 0 fills the list register and SGI 1 is spilled. The guest completes SGI 0, and before the
maintenance interrupt comes vCPU 1 sends SGI 1 as well. -/
def sendSpilled : List VgicCall :=
  [.inject 0 0, .inject 1 0, .guest (.acknowledge 0), .guest (.complete 0), .inject 1 1]

/-- The state behind it. -/
def sentSpilled : VgicState :=
  ((vgicMachine oneLr).run (vgicAtBoot .v2) sendSpilled).getD (vgicAtBoot .v2)

/-- Behind the second injection SGI 1 is in the list register and on the list. -/
theorem unique_lost : (vgicMachine oneLr).Init (vgicAtBoot .v2) ∧
    ¬ (vgicMachine oneLr).Always (Unique oneLr) (vgicAtBoot .v2) sendSpilled := by
  refine ⟨vgicAtBoot_boot oneLr.cfg, fun hall => ?_⟩
  have hrun : (vgicMachine oneLr).run (vgicAtBoot .v2) sendSpilled = some sentSpilled := by
    have hsome : ((vgicMachine oneLr).run (vgicAtBoot .v2) sendSpilled).isSome = true := rfl
    obtain ⟨y, hy⟩ := Option.isSome_iff_exists.mp hsome
    rw [sentSpilled, hy]
    rfl
  have hentries : spilledEntries oneLr sentSpilled oneLr.current = some [.priv ⟨0, 0⟩ 1] := rfl
  obtain ⟨l, hl, -, hout⟩ := (hall.last (Machine.run_eq_some_iff.mp hrun)).spilled
  rw [hentries] at hl
  cases hl
  have hinv := hout _ (List.mem_singleton_self _) 0 Nat.one_pos rfl
  have hpending : (sentSpilled.lr oneLr.self 0).state = .pending := rfl
  rw [hpending] at hinv
  cases hinv

/-! ### A place for each pending interrupt -/

/-- An interrupt that is enabled and pending for the vCPU is on a list of spilled interrupts, or a list
register has it. The register has it as long as `GICH_ELRSR` does not call it free: when the guest is
done with one source of an SGI, the maintenance interrupt goes on with the next. -/
def NoneStranded (E : VgicEnv) (s : VgicState) : Prop :=
  ∀ i, Own E i → (s.ints i).enabled = true →
    vgicIntVcpuIsTarget E E.current i (s.ints i) = true → (vgicGetState E s i).pend = true →
      (∃ k < E.cfg.numLrs, (s.lr E.self k).vid = i.id ∧ (s.lr E.self k).elrsr = false) ∨
        Spilled E s i

theorem elrsr_of_state {lr : ListReg} (hne : lr.state ≠ .inv) : lr.elrsr = false := by
  unfold ListReg.elrsr
  rw [decide_eq_false hne, Bool.false_and]

theorem Housed.noneStranded {q : SpilledHead → List IntRef} (h : Settled E True q s) :
    NoneStranded E s := by
  intro i hi henabled htarget hpend
  cases hlr : Avisor.gichGetLr E s i with
  | some found =>
    obtain ⟨k, lr⟩ := found
    obtain ⟨-, hvid, hne⟩ := gichGetLr_eq_some hlr
    exact .inl ⟨k, h.used k hne, hvid, elrsr_of_state hne⟩
  | none =>
    unfold vgicGetState at hpend
    rw [hlr] at hpend
    dsimp only at hpend
    have hdue : Due E i (s.ints i) := by
      unfold Due
      split at hpend
      · rename_i hsources
        rw [Bool.and_eq_true] at hsources
        rw [if_pos hsources.1]
        exact .inr (of_decide_eq_true hsources.2)
      · split
        · exact .inl hpend
        · exact ⟨henabled, htarget, hpend⟩
    rcases h.due trivial i hi not_false hdue with hlinked | hevidence
    · exact .inr (h.spilled_iff.mpr hlinked)
    · exact .inl hevidence.2

/-- Along a run of calls as before, none of which leaves a pending SGI out of its list register, each
pending interrupt has a place. -/
theorem noneStranded_always {calls : List VgicCall} (here : E.pId E.current = E.self)
    (init : (vgicMachine E).Init s)
    (h : (vgicMachine E).EachStep (fun s call => CallClean E s call ∧ CallDelivers E s call) s
      calls) :
    (vgicMachine E).Always (NoneStranded E) s calls := by
  apply Machine.always_of_eachStep (I := fun s => ∃ q, Settled E True q s) ?_ ?_
    ⟨_, init.settled here⟩ h
  · intro s call t hs hcall hstep
    obtain ⟨q, hq⟩ := hs
    exact hq.step hcall.1 (fun _ => hcall.2) hstep
  · intro s hs
    obtain ⟨q, hq⟩ := hs
    exact hq.noneStranded

theorem noneStranded_always_sendFirst :
    (vgicMachine oneLr).Always (NoneStranded oneLr) (vgicAtBoot .v2) sendFirst := by
  apply noneStranded_always rfl (vgicAtBoot_boot oneLr.cfg)
  refine fun _ _ => ⟨⟨oneLr_boot_clean rfl, ?_⟩,
    fun _ _ => ⟨⟨trivial, trivial⟩, fun _ _ => ⟨⟨trivial, trivial⟩, trivial⟩⟩⟩
  exact fun i _ _ _ hfound => absurd rfl hfound

/-- vCPU 1 sends SGI 1 twice before the guest takes it. -/
def sendAgain : List VgicCall := [.inject 1 1, .inject 1 1]

/-- The state behind it. -/
def sentAgain : VgicState :=
  ((vgicMachine oneLr).run (vgicAtBoot .v2) sendAgain).getD (vgicAtBoot .v2)

/-- The second injection takes SGI 1 out of the list register, finds the source pending already, and
leaves it there. -/
theorem stranded_sendAgain : (vgicMachine oneLr).Init (vgicAtBoot .v2) ∧
    ¬ (vgicMachine oneLr).Always (NoneStranded oneLr) (vgicAtBoot .v2) sendAgain := by
  refine ⟨vgicAtBoot_boot oneLr.cfg, fun hall => ?_⟩
  have hrun : (vgicMachine oneLr).run (vgicAtBoot .v2) sendAgain = some sentAgain := by
    have hsome : ((vgicMachine oneLr).run (vgicAtBoot .v2) sendAgain).isSome = true := rfl
    obtain ⟨y, hy⟩ := Option.isSome_iff_exists.mp hsome
    rw [sentAgain, hy]
    rfl
  have hnone := hall.last (Machine.run_eq_some_iff.mp hrun) (.priv ⟨0, 0⟩ 1) ⟨rfl, by decide⟩ rfl
    rfl rfl
  have hentries : spilledEntries oneLr sentAgain oneLr.current = some [] := rfl
  rcases hnone with hfound | hspilled
  · obtain ⟨k, hk, hvid, -⟩ := hfound
    obtain rfl : k = 0 := Nat.lt_one_iff.mp hk
    have hzero : (sentAgain.lr oneLr.self 0).vid = 0 := rfl
    rw [hzero] at hvid
    cases hvid
  · obtain ⟨l, hl, hmem⟩ := hspilled
    rw [hentries] at hl
    cases hl
    exact absurd hmem List.not_mem_nil

end Avisor
