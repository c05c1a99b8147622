import Avisor.Vgic.HousingCalls

/-!
# Maintenance among the places of interrupts

`vgic_refill_lrs` takes an interrupt from its list before it writes a list register. The end of an
interrupt that is trapped, or counted in `EOICount`, comes to `vgic_add_lr` for an interrupt that may
have a place already.
-/

namespace Avisor

open Function CircularList

variable {E : VgicEnv} {s t : VgicState} {i j : IntRef} {k : Nat} {b : Prop}
  {X Y : IntRef → Prop} {q : SpilledHead → List IntRef}

/-! ### Refilling list registers -/

theorem foldl_higherPrio {flags : IntState} {l : List IntRef} {irq : Option IntRef}
    (h : l.foldl (higherPrio E s flags) irq = some i) : i ∈ l ∨ irq = some i := by
  induction l generalizing irq with
  | nil => exact .inr h
  | cons j l ih =>
    rcases ih h with hmem | hstep
    · exact .inl (List.mem_cons_of_mem j hmem)
    · unfold higherPrio at hstep
      dsimp only at hstep
      split at hstep
      · exact .inr hstep
      · split at hstep
        · cases hstep
          exact .inl List.mem_cons_self
        · exact .inr hstep

namespace Housed

/-- `vgic_highest_prio_spilled` finds a linked interrupt. -/
theorem highest (h : Housed E b X q s) {flags : IntState}
    (hhighest : vgicHighestPrioSpilled E s E.current flags = some (some i)) :
    i ∈ q (spilledHead E.current i) := by
  unfold vgicHighestPrioSpilled at hhighest
  rw [h.spilledEntries, Option.map_some, Option.some.injEq] at hhighest
  apply h.spilled_iff.mp
  refine ⟨_, h.spilledEntries, ?_⟩
  exact (foldl_higherPrio hhighest).resolve_right (by simp)

/-- An interrupt is taken out of its list, and left to the caller. -/
theorem unlink (h : Settled E b q s) (hi : i ∈ q (spilledHead E.current i)) :
    ∃ q', Housed E b (· = i) q' { s with links := listDel s.links (.node i) } ∧
      i ∉ q' (spilledHead E.current i) := by
  obtain ⟨l₁, l₂, hsplit⟩ := List.append_of_mem hi
  have hown := ownHead_spilledHead (E := E) (i := i)
  have hlist := h.lists _ hown
  rw [hsplit] at hlist
  have hnodup := hlist.nodup
  have hsub (hd) (j) (hj : j ∈ update q (spilledHead E.current i) (l₁ ++ l₂) hd) : j ∈ q hd := by
    by_cases heq : hd = spilledHead E.current i
    · subst heq
      rw [update_self] at hj
      rw [hsplit]
      rcases List.mem_append.mp hj with hj | hj
      · exact List.mem_append_left _ hj
      · exact List.mem_append_right _ (List.mem_cons_of_mem i hj)
    · rwa [update_of_ne heq] at hj
  refine ⟨update q (spilledHead E.current i) (l₁ ++ l₂), ?_, ?_⟩
  · refine { h with lists := ?_, member := ?_, due := ?_ }
    · intro hd hhd
      by_cases heq : hd = spilledHead E.current i
      · subst heq
        rw [update_self]
        exact hlist.listDel
      · rw [update_of_ne heq]
        apply (h.lists hd hhd).listDel_other hlist heq
        intro j hj hj'
        rw [← hsplit] at hj'
        exact heq ((h.member hd hhd j hj).2.1.symm.trans (h.member _ hown j hj').2.1)
    · exact fun hd hhd j hj => h.member hd hhd j (hsub hd j hj)
    · intro hb j hj hji hdue
      apply (h.due hb j hj not_false hdue).imp_left
      intro hmem
      rw [update_apply]
      split
      · rename_i heq
        rw [heq, hsplit, List.mem_append, List.mem_cons] at hmem
        rw [List.mem_append]
        exact hmem.imp_right fun hmem => hmem.resolve_left hji
      · exact hmem
  · rw [update_self]
    exact (List.nodup_middle.mp hnodup).notMem

theorem unspill (h : Settled E b q s) (hi : i ∈ q (spilledHead E.current i))
    (howner : (s.ints i).owner = some E.current) (hk : k < E.cfg.numLrs)
    (hfree : (s.lr E.self k).elrsr = true) :
    ∃ q', Settled E b q' (vgicUnspill E s E.current i k) := by
  obtain ⟨q', hunlink, hn⟩ := h.unlink hi
  have hown := (h.member _ ownHead_spilledHead i hi).1
  exact ⟨q', hunlink.writeLr hown howner (h.linked hi) hn hk hfree fun j hj => .inr hj⟩

theorem refillLoop {fuel : Nat} {flags : IntState} (h : Settled E b q s)
    (hrefill : refillLoop E E.current fuel s flags = some t) : ∃ q', Settled E b q' t := by
  refine refillLoop_invariant (P := fun s => ∃ q, Settled E b q s) ?_ ?_ ⟨q, h⟩ hrefill
  · intro s irq k flags ⟨q, hs⟩ hfound hhighest hgranted
    obtain ⟨hlt, hfree⟩ := findLr_eq_some hfound
    have hlr := (vgicGetOwnership_same s E.current irq).2
    apply hs.getOwnership.unspill (hs.highest hhighest) (getOwnership_owner hgranted) hlt
    rw [hlr]
    exact hfree
  · intro s ⟨q, hs⟩
    exact ⟨q, hs.congr rfl rfl (congrFun VgicState.setHcr_lr E.self)⟩

theorem refillLrs {npie : Bool} (h : Settled E b q s)
    (hrefill : vgicRefillLrs E s E.current npie = some t) : ∃ q', Settled E b q' t :=
  h.refillLoop hrefill

end Housed

/-! ### The end of an interrupt in a list register -/

/-- `vgic_handle_trapped_eoir` finds the interrupt in no other list register, and does not come to
`vgic_add_lr` for a linked one. -/
def TrappedClean (E : VgicEnv) (s : VgicState) (i : IntRef) : Prop :=
  gichGetLr E s i = none ∧
    (gicIsSgi i.id = true → Spilled E s i → (s.ints i).enabled = false)

/-- The same for each round of the loop of `vgic_handle_trapped_eoir`. -/
def TrappedLoopClean (E : VgicEnv) : Nat → VgicState → Option Nat → Prop
  | _, _, none => True
  | 0, _, some _ => True
  | fuel + 1, s, some lrInd =>
    ∀ i, vgicGetInt E E.current (s.lr E.self lrInd).vid E.current.idx = some i →
      TrappedClean E (s.writeLr E.self lrInd .zero) i ∧
        ∀ t, vgicTrappedEoi E (s.writeLr E.self lrInd .zero) E.current i = some t →
          TrappedLoopClean E fuel t (findLr E t ListReg.eisr)

theorem eoi_of_eisr (h : findLr E s ListReg.eisr = some k) : (s.lr E.self k).eoi = true := by
  have heisr := (findLr_eq_some h).2
  simp only [ListReg.eisr, Bool.and_eq_true] at heisr
  exact heisr.2

namespace Housed

theorem trappedEoi (h : Settled E b q s) (hi : Own E i) (hvid : (s.lr E.self k).vid = i.id)
    (hsgi : gicIsSgi i.id = true → E.cfg.version = .v2)
    (hclean : TrappedClean E (s.writeLr E.self k .zero) i)
    (heoi : vgicTrappedEoi E (s.writeLr E.self k .zero) E.current i = some t) :
    ∃ q', Settled E b q' t := by
  have hzero : Housed E b (· = i) q (s.writeLr E.self k .zero) :=
    h.zeroLr hi hvid (fun _ hfalse => hfalse.elim) rfl
  obtain ⟨hnone, hspilled⟩ := hclean
  have hout := hzero.clearInLr (hzero.notHeld_of_gichGetLr hi hnone)
  have hself : ((s.writeLr E.self k .zero).modifyInt i fun int =>
      { int with inLr := false }).ints i = { s.ints i with inLr := false } := update_self ..
  cases vgicTrappedEoi_step heoi with
  | sgi _ hid add =>
    have hsources : hasSources E i = true := by
      unfold hasSources
      rw [hid, hsgi hid]
      rfl
    apply hout.addLr hi ?_ ?_ ?_ (fun j hj => .inr hj) add
    · rw [hself]
      exact h.owner_of_hasSources hi hsources
    · rw [hself]
    · rw [hself]
      intro henabled hmem
      have hdisabled := hspilled hid (hzero.spilled_iff.mpr hmem)
      exact absurd (hdisabled.symm.trans henabled) Bool.false_ne_true
  | yielded hid =>
    refine ⟨q, Housed.yieldOwnership (hout.settle fun hb _ hdue => ?_)⟩
    rw [hself] at hdue
    have hplain : ¬ hasSources E i := by
      intro hsources
      simp only [hasSources, Bool.and_eq_true] at hsources
      exact absurd (hid.symm.trans hsources.2) Bool.false_ne_true
    exact .inl ((h.due hb i hi not_false hdue).resolve_right fun hevidence => hplain hevidence.1)

theorem trappedEoirLoop {fuel : Nat} {lrInd : Option Nat} (h : Settled E b q s)
    (hclean : TrappedLoopClean E fuel s lrInd)
    (hfound : ∀ n, lrInd = some n → (s.lr E.self n).eoi = true)
    (hloop : trappedEoirLoop E E.current fuel s lrInd = some t) : ∃ q', Settled E b q' t := by
  refine (trappedEoirLoop_invariant (P := fun n s lrInd => (∃ q, Settled E b q s) ∧
    TrappedLoopClean E n s lrInd ∧ ∀ n, lrInd = some n → (s.lr E.self n).eoi = true) ?_ ?_
    ⟨⟨q, h⟩, hclean, hfound⟩ hloop).elim fun _ ht => ht.1
  · intro n s k hs hunknown
    obtain ⟨⟨q, hs⟩, -⟩ := hs
    obtain ⟨i, hi, hvid⟩ := hs.vid k
    rw [hvid, hi.getInt] at hunknown
    cases hunknown
  · intro n s k i t ⟨⟨q, hs⟩, hclean, hfound⟩ hget heoi
    obtain ⟨hi, hvid⟩ := vgicGetInt_own hget
    obtain ⟨hround, hrest⟩ := hclean i hget
    have hsgi : gicIsSgi i.id = true → E.cfg.version = .v2 :=
      fun hid => hs.eoi k (hfound k rfl) (hvid ▸ hid)
    exact ⟨hs.trappedEoi hi hvid.symm hsgi hround heoi, hrest t heoi, fun _ hm => eoi_of_eisr hm⟩

end Housed

/-! ### The end of a spilled interrupt -/

/-- `vgic_eoir_highest_spilled_active` does not come to `vgic_add_lr`, for the interrupt is linked. -/
def EoirClean (E : VgicEnv) (s : VgicState) : Prop :=
  ∀ i, vgicHighestPrioSpilled E s E.current .active = some (some i) →
    (vgicGetOwnership s E.current i).1 = true → vgicIntIsHw s i = false →
      (s.ints i).state.pend = true → (s.ints i).enabled = false

/-- The same for each round of the loop over `EOICount`. -/
def EoiLoopClean (E : VgicEnv) : Nat → VgicState → Prop
  | 0, _ => True
  | fuel + 1, s =>
    (s.hcr E.self).eoiCount ≠ 0 → EoirClean E s ∧
      ∀ t, vgicEoirHighestSpilledActive E s E.current = some t →
        EoiLoopClean E fuel
          (t.setHcr E.self { s.hcr E.self with eoiCount := (s.hcr E.self).eoiCount - 1 })

/-- `vgic_get_ownership` writes the owner only. -/
theorem vgicGetOwnership_ints :
    (vgicGetOwnership s E.current i).2.ints j =
      { s.ints j with owner := ((vgicGetOwnership s E.current i).2.ints j).owner } := by
  rcases vgicGetOwnership_cases s E.current i with ⟨-, hsame⟩ | ⟨-, hget⟩
  · rw [hsame]
  · rw [hget, VgicState.modifyInt_ints]
    by_cases hj : j = i
    · subst hj
      rw [update_self]
    · rw [update_of_ne hj]

namespace Housed

/-- A linked interrupt that is not active any more stays where it is. -/
theorem endActive (h : Settled E b q s)
    (hhighest : vgicHighestPrioSpilled E s E.current .active = some (some i)) :
    Settled E b q ((vgicGetOwnership s E.current i).2.modifyInt i fun int =>
      { int with state := { int.state with act := false } }) := by
  have howned := h.getOwnership (i := i)
  have hinLr := howned.linked (h.highest hhighest)
  apply howned.modifyInt
  · exact fun k _ _ hrec => absurd (hinLr.symm.trans hrec.inLr) Bool.false_ne_true
  · exact id
  · exact fun howner => .inl howner
  · exact fun _ _ _ hdue => hdue
  · exact fun _ _ => .inl rfl
  · exact fun hb hsgi => howned.enabled hb i hsgi

theorem eoirHighestSpilledActive (h : Settled E b q s) (hclean : EoirClean E s)
    (heoir : vgicEoirHighestSpilledActive E s E.current = some t) : ∃ q', Settled E b q' t := by
  cases vgicEoirHighestSpilledActive_step heoir with
  | kept => exact ⟨q, h⟩
  | hw i _ highest _ ended =>
    subst ended
    exact ⟨q, (h.endActive highest).congr rfl rfl rfl⟩
  | inactive i _ highest _ ended =>
    subst ended
    exact ⟨q, h.endActive highest⟩
  | added i u _ highest granted ended notHw pend add =>
    have hended : Settled E b q u := ended ▸ h.endActive highest
    have hint := vgicGetOwnership_ints (E := E) (s := s) (i := i) (j := i)
    have hself : u.ints i = { (vgicGetOwnership s E.current i).2.ints i with
        state := { ((vgicGetOwnership s E.current i).2.ints i).state with act := false } } := by
      rw [ended, VgicState.modifyInt_ints, update_self]
    rw [hint] at hself
    have hdisabled : (u.ints i).enabled = false := by
      rw [hself]
      apply hclean i highest granted
      · unfold vgicIntIsHw at notHw ⊢
        rwa [hself] at notHw
      · rwa [hself] at pend
    cases vgicAddLr_step add with
    | refused => exact ⟨q, hended⟩
    | placed _ enabled => exact absurd (hdisabled.symm.trans enabled) Bool.false_ne_true
    | evicted _ _ enabled => exact absurd (hdisabled.symm.trans enabled) Bool.false_ne_true
    | spilled enabled => exact absurd (hdisabled.symm.trans enabled) Bool.false_ne_true

theorem eoiCountLoop {fuel : Nat} (h : Settled E b q s) (hclean : EoiLoopClean E fuel s)
    (hloop : eoiCountLoop E fuel s = some t) : ∃ q', Settled E b q' t := by
  refine (eoiCountLoop_invariant (P := fun n s => (∃ q, Settled E b q s) ∧ EoiLoopClean E n s) ?_
    ⟨⟨q, h⟩, hclean⟩ hloop).elim fun _ ht => ht.1
  intro n s t ⟨⟨q, hs⟩, hclean⟩ hcount heoir
  obtain ⟨hround, hrest⟩ := hclean hcount
  obtain ⟨q', hq'⟩ := hs.eoirHighestSpilledActive hround heoir
  exact ⟨⟨q', hq'.congr rfl rfl (congrFun VgicState.setHcr_lr E.self)⟩, hrest t heoir⟩

end Housed

/-! ### `gic_maintenance_handler` -/

/-- Every round of the loops of `gic_maintenance_handler` is one as above. -/
def MaintenanceClean (E : VgicEnv) (s : VgicState) : Prop :=
  ((gichGetMisr E s).eoi = true →
    TrappedLoopClean E (E.cfg.numLrs + 1) s (findLr E s ListReg.eisr)) ∧
  ∀ u w,
    (if (gichGetMisr E s).eoi then vgicHandleTrappedEoir E s E.current else some s) = some u →
    (if (gichGetMisr E s).np || (gichGetMisr E s).u
      then vgicRefillLrs E u E.current (gichGetMisr E s).np else some u) = some w →
    (gichGetMisr E s).lrenp = true → EoiLoopClean E 32 w

namespace Housed

theorem maintenance (h : Settled E b q s) (hclean : MaintenanceClean E s)
    (hhandler : gicMaintenanceHandler E s = some t) : ∃ q', Settled E b q' t := by
  obtain ⟨htrapped, hcount⟩ := hclean
  refine gicMaintenanceHandler_invariant (P := fun s => ∃ q, Settled E b q s) ?_ ?_ ?_ ⟨q, h⟩ hhandler
  · exact fun heoi _ hu => h.trappedEoirLoop (htrapped heoi) (fun _ hn => eoi_of_eisr hn) hu
  · exact fun _ _ ⟨_, hs⟩ hw => hs.refillLrs hw
  · exact fun u w hu hw hlrenp ⟨_, hs⟩ _ ht => hs.eoiCountLoop (hcount u w hu hw hlrenp) ht

/-! ### The guest -/

/-- The guest, or nobody, changes the state of a list register that holds an interrupt. -/
theorem setLrState (h : Settled E b q s) {state : IntState} (hne : (s.lr E.self k).state ≠ .inv) :
    Settled E b q (s.writeLr E.self k { s.lr E.self k with state := state }) := by
  have hlr (n) : (s.writeLr E.self k { s.lr E.self k with state := state }).lr E.self n =
      if n = k then { s.lr E.self k with state := state } else s.lr E.self n := by
    rw [VgicState.writeLr_lr, update_self, update_apply]
  have hvid (n) : ((s.writeLr E.self k { s.lr E.self k with state := state }).lr E.self n).vid =
      (s.lr E.self n).vid := by
    rw [hlr]
    split
    · rename_i hnk
      rw [hnk]
    · rfl
  have hvalid (n) (hn : ((s.writeLr E.self k { s.lr E.self k with state := state }).lr
      E.self n).state ≠ .inv) : (s.lr E.self n).state ≠ .inv := by
    rw [hlr] at hn
    split at hn
    · rename_i hnk
      exact hnk ▸ hne
    · exact hn
  constructor
  · exact h.here
  · exact h.lists
  · exact h.member
  · intro n
    rw [hvid]
    exact h.vid n
  · exact fun n hn => h.used n (hvalid n hn)
  · intro n j hn hj hjvid
    rw [hvid] at hjvid
    exact h.held n j (hvalid n hn) hj hjvid
  · exact h.inLr
  · exact h.privOwner
  · intro n heoi hsgi
    rw [hvid] at hsgi
    apply h.eoi n ?_ hsgi
    rw [hlr] at heoi
    split at heoi
    · rename_i hnk
      rw [hnk]
      exact heoi
    · exact heoi
  · intro hb j hj hX hdue
    refine (h.due hb j hj hX hdue).imp_right fun hevidence => ?_
    obtain ⟨hsgi, n, hn, hjvid, helrsr⟩ := hevidence
    refine ⟨hsgi, n, hn, (hvid n).trans hjvid, ?_⟩
    rw [hlr]
    split
    · rename_i hnk
      subst hnk
      obtain ⟨hhw, heoi⟩ := h.sources hb n j hne hj hsgi hjvid
      have hrec := h.held n j hne hj hjvid
      have hpend : (s.ints j).sgiPend ≠ 0 := by
        unfold Due at hdue
        rw [VgicState.writeLr_ints, if_pos hsgi, hrec.state] at hdue
        exact hdue.resolve_left (by simp)
      simp [ListReg.elrsr, hhw, heoi hpend]
    · exact helrsr
  · intro hb n j hn hj hsgi hjvid
    rw [hvid] at hjvid
    obtain ⟨hhw, heoi⟩ := h.sources hb n j (hvalid n hn) hj hsgi hjvid
    rw [hlr]
    split
    · rename_i hnk
      rw [hnk] at hhw heoi
      exact ⟨hhw, heoi⟩
    · exact ⟨hhw, heoi⟩
  · exact h.enabled

theorem guest {g : GuestAction} (h : Settled E b q s)
    (hguest : guestEffect E.cfg s E.self g = some t) : Settled E b q t := by
  cases guestEffect_step hguest with
  | lr n state _ used => exact h.setLrState used
  | counted => exact h.congr rfl rfl (congrFun VgicState.setHcr_lr E.self)

end Housed

end Avisor
