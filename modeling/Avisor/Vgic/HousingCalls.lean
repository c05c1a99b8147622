import Avisor.Vgic.Housing
import Avisor.Vgic.Sending

/-!
# Register writes and injection among the places of interrupts

`vgic_add_lr` does not look whether the interrupt is linked already, and `vgic_inject_hw` not whether it
is in a list register. Where that happens to be so is the condition under which these calls keep each
interrupt in one place.
-/

namespace Avisor

open Function CircularList

variable {E : VgicEnv} {s t : VgicState} {i j : IntRef} {k : Nat}

/-- Each interrupt of the vCPU has one place, and as far as `b` holds each that is due has one. -/
abbrev Settled (E : VgicEnv) (b : Prop) (q : SpilledHead → List IntRef) (s : VgicState) : Prop :=
  Housed E b (fun _ => False) q s

/-- The interrupt is on a list of spilled interrupts. -/
def Spilled (E : VgicEnv) (s : VgicState) (i : IntRef) : Prop :=
  ∃ l, spilledEntries E s E.current = some l ∧ i ∈ l

variable {b : Prop} {X Y : IntRef → Prop} {q : SpilledHead → List IntRef}

/-! ### The lists -/

/-- The lists of the vCPU and of its VM are the circular lists `q`, of interrupts that are theirs. -/
structure SpillLists (E : VgicEnv) (q : SpilledHead → List IntRef) (s : VgicState) : Prop where
  lists : ∀ h, OwnHead E h → Holds s.links h (q h)
  member : ∀ h, OwnHead E h → ∀ i ∈ q h, Own E i ∧ spilledHead E.current i = h

/-- A list in which no interrupt is twice is no longer than a traversal can be. -/
theorem own_length_lt {l : List IntRef} (hnodup : l.Nodup) (hown : ∀ i ∈ l, Own E i) :
    l.length < spilledFuel E E.current.vm := by
  have hids : (l.map IntRef.id).Nodup := by
    apply hnodup.map_on
    intro i hi j hj hid
    exact (hown i hi).id_inj (hown j hj) hid
  have hsub : l.map IntRef.id ⊆ List.range (gicCpuPriv + E.cfg.intNum E.current.vm) := by
    intro n hn
    obtain ⟨i, hi, rfl⟩ := List.mem_map.mp hn
    have hi := hown i hi
    rw [List.mem_range]
    cases i with
    | priv vcpu id => exact Nat.lt_of_lt_of_le hi.2 (Nat.le_add_right _ _)
    | shared vm id =>
      obtain ⟨rfl, -, hlt⟩ := hi
      exact Nat.lt_of_lt_of_le hlt (Nat.le_add_left _ _)
  have hle := (hids.subperm hsub).length_le
  rw [List.length_map, List.length_range] at hle
  exact Nat.lt_succ_of_le hle

namespace SpillLists

theorem length_lt (h : SpillLists E q s) {hd : SpilledHead} (hhd : OwnHead E hd) :
    (q hd).length < spilledFuel E E.current.vm :=
  own_length_lt (h.lists hd hhd).nodup fun i hi => (h.member hd hhd i hi).1

/-- The traversals visit the lists. -/
theorem spilledEntries (h : SpillLists E q s) :
    spilledEntries E s E.current = some (q (.vcpu E.current) ++ q (.vm E.current.vm)) := by
  have hvcpu : OwnHead E (.vcpu E.current) := .inl rfl
  have hvm : OwnHead E (.vm E.current.vm) := .inr rfl
  unfold Avisor.spilledEntries
  simp only [(h.lists _ hvcpu).listEntries (h.length_lt hvcpu),
    (h.lists _ hvm).listEntries (h.length_lt hvm)]
  rfl

theorem spilled_iff (h : SpillLists E q s) :
    Spilled E s i ↔ i ∈ q (spilledHead E.current i) := by
  have hvcpu : OwnHead E (.vcpu E.current) := .inl rfl
  have hvm : OwnHead E (.vm E.current.vm) := .inr rfl
  unfold Spilled
  rw [h.spilledEntries]
  constructor
  · intro hspilled
    obtain ⟨l, hl, hmem⟩ := hspilled
    cases hl
    rcases List.mem_append.mp hmem with hmem | hmem
    · rw [(h.member _ hvcpu i hmem).2]
      exact hmem
    · rw [(h.member _ hvm i hmem).2]
      exact hmem
  · intro hmem
    refine ⟨_, rfl, List.mem_append.mpr ?_⟩
    unfold spilledHead at hmem
    split at hmem
    · exact .inl hmem
    · exact .inr hmem

end SpillLists

namespace Housed

theorem spillLists (h : Housed E b X q s) : SpillLists E q s where
  lists := h.lists
  member hd hhd i hi := ⟨(h.member hd hhd i hi).1, (h.member hd hhd i hi).2.1⟩

theorem spilledEntries (h : Housed E b X q s) :
    Avisor.spilledEntries E s E.current = some (q (.vcpu E.current) ++ q (.vm E.current.vm)) :=
  h.spillLists.spilledEntries

theorem spilled_iff (h : Housed E b X q s) : Spilled E s i ↔ i ∈ q (spilledHead E.current i) :=
  h.spillLists.spilled_iff

/-- The interrupt left to the caller turns out to wait, or not to be due. -/
theorem settle (h : Housed E b (· = i) q s)
    (hwaits : b → Own E i → Due E i (s.ints i) → Waits E q s i) : Settled E b q s :=
  { h with
    due := fun hb j hj _ hdue => by
      by_cases hji : j = i
      · subst hji
        exact hwaits hb hj hdue
      · exact h.due hb j hj hji hdue }

end Housed

/-! ### Register writes -/

/-- A mask of pCPUs is sent a message; no interrupt or list register is touched. -/
theorem vgicSendMask_same {mask : BitVec 64} {msg : CpuMsg}
    (h : vgicSendMask E s mask msg = some t) :
    t.links = s.links ∧ t.ints = s.ints ∧ t.gich = s.gich := by
  unfold vgicSendMask at h
  generalize List.range E.cfg.cpuNum = cpus at h
  induction cpus generalizing s with
  | nil =>
    cases h
    exact ⟨rfl, rfl, rfl⟩
  | cons c cpus ih =>
    rw [List.foldlM_cons] at h
    obtain ⟨u, hu, h⟩ := Option.bind_eq_some_iff.mp h
    have hrest := ih h
    split at hu
    · obtain ⟨msgs, -, rfl⟩ := Option.map_eq_some_iff.mp hu
      exact hrest
    · cases hu
      exact hrest

/-- Fields that decide where an interrupt is, behind an update. -/
structure SamePlace (E : VgicEnv) (i : IntRef) (int int' : VgicInt) : Prop where
  inLr : int'.inLr = int.inLr
  owner : int'.owner = int.owner
  sgiPend : int'.sgiPend = int.sgiPend
  enabled : hasSources E i → int'.enabled = int.enabled

theorem SamePlace.ite {c : Prop} [Decidable c] {int : VgicInt} {p p' : Bool × VgicInt}
    (h : SamePlace E i int p.2) (h' : SamePlace E i int p'.2) :
    SamePlace E i int (if c then p else p').2 := by
  split
  · exact h
  · exact h'

/-- No update of a field moves the interrupt, and none disables an SGI of the build with sources. -/
theorem updateField_samePlace {version : GicVersion} {id : RegHandlerId} {fields : RegFields}
    {vcpu : VcpuRef} {data : BitVec 64} {int : VgicInt}
    (hfields : (regHandlerInfoTable version id).fields = some fields) :
    SamePlace E i int (fields.updateField E vcpu i data int).2 := by
  have hsame : SamePlace E i int int := ⟨rfl, rfl, rfl, fun _ => rfl⟩
  have henable (enable : Bool) : SamePlace E i int (vgicIntUpdateEnable E enable i int).2 := by
    unfold vgicIntUpdateEnable
    split
    · exact hsame
    · rename_i hnot
      apply SamePlace.ite ?_ hsame
      exact ⟨rfl, rfl, rfl, fun hsgi => absurd hsgi hnot⟩
  have hpend (pend : Bool) : SamePlace E i int (vgicIntUpdatePend E pend i int).2 := by
    apply SamePlace.ite hsame
    apply SamePlace.ite ?_ hsame
    exact ⟨rfl, rfl, rfl, fun _ => rfl⟩
  have hact (act : Bool) : SamePlace E i int (vgicIntUpdateAct act int).2 := by
    apply SamePlace.ite ?_ hsame
    exact ⟨rfl, rfl, rfl, fun _ => rfl⟩
  cases id with
  | isenabler => cases hfields; exact SamePlace.ite hsame (henable true)
  | ispendr => cases hfields; exact SamePlace.ite hsame (hpend true)
  | isactiver => cases hfields; exact SamePlace.ite hsame (hact true)
  | icenabler => cases hfields; exact SamePlace.ite hsame (henable false)
  | icpendr => cases hfields; exact SamePlace.ite hsame (hpend false)
  | icactiver => cases hfields; exact SamePlace.ite hsame (hact false)
  | icfgr => cases hfields; exact ⟨rfl, rfl, rfl, fun _ => rfl⟩
  | ipriorityr => cases hfields; exact ⟨rfl, rfl, rfl, fun _ => rfl⟩
  | irouter =>
    cases version with
    | v2 => cases hfields
    | v3 =>
      cases hfields
      apply SamePlace.ite hsame
      exact ⟨rfl, rfl, rfl, fun _ => rfl⟩
  | itargetsr =>
    cases version with
    | v2 =>
      cases hfields
      apply SamePlace.ite hsame
      exact ⟨rfl, rfl, rfl, fun _ => rfl⟩
    | v3 => cases hfields

/-- An SGI of the build with sources is for the vCPU that has it. -/
theorem target_of_hasSources {int : VgicInt} (hsgi : hasSources E i = true) :
    vgicIntVcpuIsTarget E E.current i int = true := by
  simp only [hasSources, Bool.and_eq_true, decide_eq_true_eq] at hsgi
  unfold vgicIntVcpuIsTarget
  simp only [hsgi.1, gicIsPriv_of_sgi hsgi.2, Bool.true_or]

namespace Housed

/-- `vgic_route`, for an interrupt that the caller has taken out of its list register. -/
theorem route (h : Housed E b (· = i) q s) (howner : (s.ints i).owner = some E.current)
    (hinLr : (s.ints i).inLr = false)
    (hclean : Routed E i (s.ints i) → Own E i ∧ i ∉ q (spilledHead E.current i))
    (hwaits : b → Own E i → ¬ Routed E i (s.ints i) → Due E i (s.ints i) → Waits E q s i)
    (hroute : vgicRoute E s E.current i = some t) : ∃ q', Settled E b q' t := by
  cases vgicRoute_step hroute with
  | idle guard =>
    have hnot : ¬ Routed E i (s.ints i) := by
      intro hrouted
      rcases guard with hinv | hdisabled
      · exact hrouted.1 hinv
      · exact absurd (hdisabled.symm.trans hrouted.2.1) Bool.false_ne_true
    exact ⟨q, h.settle fun hb hi => hwaits hb hi hnot⟩
  | routed u _ state enabled place others =>
    have hplaced : ∃ q', Settled E b q' u := by
      cases vgicAddLrTarget_step place with
      | added _ target add =>
        obtain ⟨hi, hn⟩ := hclean ⟨state, enabled, target⟩
        exact h.addLr hi howner hinLr (fun _ => hn) (fun j hj => .inr hj) add
      | elsewhere target =>
        refine ⟨q, h.settle fun hb hi => hwaits hb hi fun hrouted => ?_⟩
        exact absurd (target.symm.trans hrouted.2.2) Bool.false_ne_true
    obtain ⟨q', hq'⟩ := hplaced
    refine ⟨q', ?_⟩
    cases vgicRouteOthers_step others with
    | kept => exact hq'
    | sent _ send =>
      obtain ⟨hlinks, hints, hgich⟩ := vgicSendMask_same send
      apply (hq'.yieldOwnership (i := i)).congr hlinks hints
      unfold VgicState.lr
      rw [hgich]

end Housed

/-- For an interrupt that the vCPU owns, `vgic_int_set_field` comes to `vgic_add_lr` only if the
interrupt is one of the vCPU and not linked. -/
def OwnedClean (E : VgicEnv) (s : VgicState) (fields : RegFields) (i : IntRef) (data : BitVec 64) :
    Prop :=
  Spilled E s i ∨ ¬ Own E i → ¬ Routed E i (fields.updateField E E.current i data (s.ints i)).2

/-- The same for an interrupt that the vCPU may own or not. -/
def SetFieldClean (E : VgicEnv) (s : VgicState) (handlers : RegHandlerInfo) (i : IntRef)
    (data : BitVec 64) : Prop :=
  ∀ fields, handlers.fields = some fields → (vgicGetOwnership s E.current i).1 = true →
    OwnedClean E (vgicGetOwnership s E.current i).2 fields i data

/-- `vgic_int_set_field` does not take an SGI out of its list register and then, with the state
inactive, leave it there although sources are left. -/
def OwnedDelivers (E : VgicEnv) (s : VgicState) (fields : RegFields) (i : IntRef)
    (data : BitVec 64) : Prop :=
  hasSources E i → gichGetLr E s i ≠ none →
    ((vgicRemoveLr E s E.current i).2.ints i).sgiPend ≠ 0 →
      (fields.updateField E E.current i data ((vgicRemoveLr E s E.current i).2.ints i)).2.state ≠ .inv

/-- The same for an interrupt that the vCPU may own or not. -/
def SetFieldDelivers (E : VgicEnv) (s : VgicState) (handlers : RegHandlerInfo) (i : IntRef)
    (data : BitVec 64) : Prop :=
  ∀ fields, handlers.fields = some fields → (vgicGetOwnership s E.current i).1 = true →
    OwnedDelivers E (vgicGetOwnership s E.current i).2 fields i data

theorem getOwnership_owner (h : (vgicGetOwnership s E.current i).1 = true) :
    ((vgicGetOwnership s E.current i).2.ints i).owner = some E.current := by
  rcases vgicGetOwnership_cases s E.current i with ⟨hsome, hsame⟩ | ⟨-, hget⟩
  · rw [hsame]
    exact (vgicGetOwnership_granted.mp h).resolve_left hsome
  · rw [hget, VgicState.modifyInt_ints, update_self]

theorem vgicRemoveLr_of_inLr (hinLr : (s.ints i).inLr = false) :
    (vgicRemoveLr E s E.current i).2 = s := by
  unfold vgicRemoveLr
  rw [hinLr]
  simp

namespace Housed

/-- Where `gich_get_lr` finds nothing, `vgic_remove_lr` leaves nothing to the caller. -/
theorem removeLr_of_none (h : Housed E b X q s) (hnone : Avisor.gichGetLr E s i = none) :
    Housed E b X q (vgicRemoveLr E s E.current i).2 := by
  unfold vgicRemoveLr
  split
  · exact h
  · rename_i hguard
    simp only [Bool.or_eq_true, not_or, Bool.not_eq_true, Bool.not_eq_false'] at hguard
    rw [hnone]
    exact h.clearInLr (h.notHeld_of_gichGetLr (h.inLr i hguard.2) hnone)

/-- `vgic_int_set_field`, for an interrupt that the vCPU owns. -/
theorem setFieldOwned {handlers : RegHandlerInfo} {fields : RegFields} {data : BitVec 64}
    (h : Settled E b q s) (howner : (s.ints i).owner = some E.current)
    (hfields : handlers.fields = some fields)
    (hsame : ∀ int, SamePlace E i int (fields.updateField E E.current i data int).2)
    (hclean : OwnedClean E s fields i data) (hdelivers : b → OwnedDelivers E s fields i data)
    (hset : vgicIntSetFieldOwned E s handlers E.current i data = some t) :
    ∃ q', Settled E b q' t := by
  obtain ⟨w, hroute, rfl⟩ := vgicIntSetFieldOwned_route hfields hset
  have hremove : Housed E b (· = i) q (vgicRemoveLr E s E.current i).2 :=
    h.removeLr (fun _ hfalse => hfalse.elim) rfl
  have hinLr := vgicRemoveLr_inLr howner
  have hownerRemoved : ((vgicRemoveLr E s E.current i).2.ints i).owner = some E.current :=
    vgicRemoveLr_owner.trans howner
  have hnoop (hn : Spilled E s i ∨ ¬ Own E i) : (vgicRemoveLr E s E.current i).2 = s := by
    apply vgicRemoveLr_of_inLr
    rcases hn with hspilled | hforeign
    · exact h.linked (h.spilled_iff.mp hspilled)
    · by_contra hinLr
      exact hforeign (h.inLr i (by simpa using hinLr))
  have hwaiting (hnone : Avisor.gichGetLr E s i = none) := h.removeLr_of_none hnone
  have hdelivers' (hb : b) := hdelivers hb
  unfold OwnedDelivers at hdelivers'
  unfold OwnedClean at hclean
  generalize (vgicRemoveLr E s E.current i).2 = u at *
  have hplace := hsame (u.ints i)
  generalize hint : (fields.updateField E E.current i data (u.ints i)).2 = int at *
  have hmodify : Housed E b (· = i) q (u.modifyInt i fun _ => int) := by
    apply hremove.modifyInt
    · exact fun k _ _ hrec => absurd (hinLr.symm.trans hrec.inLr) Bool.false_ne_true
    · exact fun hclear => hplace.inLr.trans hclear
    · exact fun howner => .inl (hplace.owner.trans howner)
    · exact fun _ _ hne => absurd rfl hne
    · exact fun _ _ => .inl hplace.sgiPend
    · exact fun hb hsgi => (hplace.enabled hsgi).trans (hremove.enabled hb i hsgi)
  have hupdate : (updateInt E u fields E.current i data).links = u.links ∧
      (updateInt E u fields E.current i data).ints = (u.modifyInt i fun _ => int).ints ∧
      (updateInt E u fields E.current i data).lr = u.lr := by
    unfold updateInt
    dsimp only
    rw [hint]
    split
    · exact ⟨rfl, rfl, rfl⟩
    · exact ⟨rfl, rfl, rfl⟩
  have hupdated : Housed E b (· = i) q (updateInt E u fields E.current i data) :=
    hmodify.congr hupdate.1 hupdate.2.1 (congrFun hupdate.2.2 E.self)
  have hself : (updateInt E u fields E.current i data).ints i = int := by
    rw [hupdate.2.1, VgicState.modifyInt_ints, update_self]
  have hplaceable (hrouted : Routed E i int) : Own E i ∧ i ∉ q (spilledHead E.current i) := by
    by_contra hnot
    have hn : Spilled E s i ∨ ¬ Own E i := by
      by_cases hi : Own E i
      · left
        apply h.spilled_iff.mpr
        by_contra hmem
        exact hnot ⟨hi, hmem⟩
      · exact .inr hi
    have hunrouted := hclean hn
    rw [← hnoop hn, hint] at hunrouted
    exact hunrouted hrouted
  have hwaits (hb : b) (hi : Own E i) (hnot : ¬ Routed E i int) (hdue : Due E i int) :
      Waits E q (updateInt E u fields E.current i data) i := by
    unfold Due at hdue
    split at hdue
    · rename_i hsgi
      have henabled : int.enabled = true := (hplace.enabled hsgi).trans (hremove.enabled hb i hsgi)
      have hinv : int.state = .inv := by
        by_contra hne
        exact hnot ⟨hne, henabled, target_of_hasSources hsgi⟩
      have hpend : (u.ints i).sgiPend ≠ 0 := by
        rcases hdue with hpend | hpend
        · rw [hinv] at hpend
          cases hpend
        · rwa [hplace.sgiPend] at hpend
      by_cases hnone : Avisor.gichGetLr E s i = none
      · have hdueRemoved : Due E i (u.ints i) := by
          unfold Due
          rw [if_pos hsgi]
          exact .inr hpend
        have hwait := (hwaiting hnone).due hb i hi not_false hdueRemoved
        unfold Waits at hwait ⊢
        rw [hupdate.2.2]
        exact hwait
      · exact absurd hinv (hdelivers' hb hsgi hnone hpend)
    · obtain ⟨henabled, htarget, hpend⟩ := hdue
      have hne : int.state ≠ .inv := by
        intro hinv
        rw [hinv] at hpend
        cases hpend
      exact absurd ⟨hne, henabled, htarget⟩ hnot
  rw [← hself] at hplaceable hwaits
  obtain ⟨q', hq'⟩ := hupdated.route (hself ▸ hplace.owner.trans hownerRemoved)
    (hself ▸ hplace.inLr.trans hinLr) hplaceable hwaits hroute
  exact ⟨q', hq'.yieldOwnership⟩

/-- `vgic_int_set_field`, wherever the interrupt belongs. -/
theorem setField {handlers : RegHandlerInfo} {data : BitVec 64} (h : Settled E b q s)
    (hsame : ∀ fields, handlers.fields = some fields →
      ∀ int, SamePlace E i int (fields.updateField E E.current i data int).2)
    (hclean : SetFieldClean E s handlers i data)
    (hdelivers : b → SetFieldDelivers E s handlers i data)
    (hset : vgicIntSetField E s handlers E.current i data = some t) : ∃ q', Settled E b q' t := by
  cases vgicIntSetField_step hset with
  | owned fields _ granted fields_eq set =>
    exact h.getOwnership.setFieldOwned (getOwnership_owner granted) fields_eq (hsame fields fields_eq)
      (hclean fields fields_eq granted) (fun hb => hdelivers hb fields fields_eq granted) set
  | delegated _ _ _ _ send =>
    obtain ⟨msgs, -, rfl⟩ := Option.map_eq_some_iff.mp send
    exact ⟨q, h.congr rfl rfl rfl⟩

end Housed

/-! ### Injection -/

/-- `vgic_inject_hw` finds the interrupt in no list register, and does not come to `vgic_add_lr` for a
linked one. -/
def InjectHwClean (E : VgicEnv) (s : VgicState) (i : IntRef) : Prop :=
  gichGetLr E s i = none ∧ (Spilled E s i → (s.ints i).enabled = false)

/-- `vgic_inject_sgi` does not come to `vgic_add_lr` for a linked interrupt. -/
def InjectSgiClean (E : VgicEnv) (s : VgicState) (i : IntRef) (source : Nat) : Prop :=
  Spilled E s i → withSource (s.ints i).sgiPend source = (s.ints i).sgiPend

/-- `vgic_inject_sgi` does not take the interrupt out of its list register and then leave it there
because the source is pending already. -/
def InjectSgiDelivers (E : VgicEnv) (s : VgicState) (i : IntRef) (source : Nat) : Prop :=
  gichGetLr E s i ≠ none →
    withSource ((vgicRemoveLr E s E.current i).2.ints i).sgiPend source ≠
      ((vgicRemoveLr E s E.current i).2.ints i).sgiPend

/-- An interrupt with sources is a private one, and in the build that has such interrupts those stay
with their vCPU. -/
theorem Housed.owner_of_hasSources (h : Housed E b X q s) (hi : Own E i)
    (hsgi : hasSources E i = true) : (s.ints i).owner = some E.current := by
  simp only [hasSources, Bool.and_eq_true, decide_eq_true_eq] at hsgi
  cases i with
  | priv vcpu id =>
    obtain ⟨rfl, hid⟩ := hi
    exact h.privOwner hsgi.1 id hid
  | shared vm id =>
    have hlt : id < gicMaxSgis := of_decide_eq_true hsgi.2
    exact absurd (Nat.lt_of_lt_of_le hlt (by decide)) (Nat.not_lt.mpr hi.2.1)

namespace Housed

theorem injectHw {id : Nat} (h : Settled E b q s)
    (hclean : ∀ i, vgicGetInt E E.current id E.current.idx = some i → InjectHwClean E s i)
    (hinject : vgicInjectHw E s E.current id = some t) : ∃ q', Settled E b q' t := by
  obtain ⟨i, hget, hadd⟩ := Option.bind_eq_some_iff.mp hinject
  obtain ⟨hi, -⟩ := vgicGetInt_own hget
  obtain ⟨hnone, hspilled⟩ := hclean i hget
  have hnot := h.notHeld_of_gichGetLr hi hnone
  have hpending : Housed E b (· = i) q (s.modifyInt i fun int =>
      { int with owner := some E.current, state := .pending, inLr := false }) := by
    apply (h.mono fun _ hfalse => hfalse.elim).modifyInt
    · exact fun k hne hvid _ => absurd (hnot k hvid) hne
    · exact fun _ => rfl
    · exact fun _ => .inl rfl
    · exact fun _ _ hne => absurd rfl hne
    · exact fun _ _ => .inl rfl
    · exact fun hb hsgi => h.enabled hb i hsgi
  apply hpending.addLr hi ?_ ?_ ?_ (fun j hj => .inr hj) hadd
  · rw [VgicState.modifyInt_ints, update_self]
  · rw [VgicState.modifyInt_ints, update_self]
  · rw [VgicState.modifyInt_ints, update_self]
    intro henabled hmem
    exact absurd ((hspilled (h.spilled_iff.mpr hmem)).symm.trans henabled) Bool.false_ne_true

theorem injectSgi {source : Nat} (h : Settled E b q s) (hi : Own E i)
    (hsgi : hasSources E i = true) (hclean : InjectSgiClean E s i source)
    (hdelivers : b → InjectSgiDelivers E s i source)
    (hinject : vgicInjectSgi E s E.current i source = some t) : ∃ q', Settled E b q' t := by
  have howner := h.owner_of_hasSources hi hsgi
  have hremove : Housed E b (· = i) q (vgicRemoveLr E s E.current i).2 :=
    h.removeLr (fun _ hfalse => hfalse.elim) rfl
  have hinLr := vgicRemoveLr_inLr howner
  have hownerRemoved : ((vgicRemoveLr E s E.current i).2.ints i).owner = some E.current :=
    vgicRemoveLr_owner.trans howner
  have hwaiting (hnone : Avisor.gichGetLr E s i = none) := h.removeLr_of_none hnone
  have hdelivers' (hb : b) := hdelivers hb
  have hlinked (hmem : i ∈ q (spilledHead E.current i)) : (vgicRemoveLr E s E.current i).2 = s :=
    vgicRemoveLr_of_inLr (h.linked hmem)
  unfold InjectSgiDelivers at hdelivers'
  have hstep := vgicInjectSgi_step hinject
  generalize (vgicRemoveLr E s E.current i).2 = u at *
  cases hstep with
  | added _ hne add =>
    have hn : i ∉ q (spilledHead E.current i) := by
      intro hmem
      rw [hlinked hmem] at hne
      exact hne (hclean (h.spilled_iff.mpr hmem))
    have hpending : Housed E b (· = i) q (u.modifyInt i fun int => { int with
        sgiPend := withSource (u.ints i).sgiPend source
        state := { int.state with pend := withSource (u.ints i).sgiPend source ≠ 0 } }) := by
      apply hremove.modifyInt
      · exact fun k _ _ hrec => absurd (hinLr.symm.trans hrec.inLr) Bool.false_ne_true
      · exact fun hclear => hclear
      · exact fun howner => .inl howner
      · exact fun _ _ hne => absurd rfl hne
      · exact fun _ _ => .inr (hremove.notHeld hi hinLr)
      · exact fun hb hsgi => hremove.enabled hb i hsgi
    apply hpending.addLr hi ?_ ?_ (fun _ => hn) (fun j hj => .inr hj) add
    · rw [VgicState.modifyInt_ints, update_self]
      exact hownerRemoved
    · rw [VgicState.modifyInt_ints, update_self]
      exact hinLr
  | known heq =>
    by_cases hnone : Avisor.gichGetLr E s i = none
    · exact ⟨q, hwaiting hnone⟩
    · refine ⟨q, hremove.settle fun hb _ _ => ?_⟩
      exact absurd heq (hdelivers' hb hnone)

/-- `vgic_inject`. -/
theorem inject {id source : Nat} (h : Settled E b q s)
    (hclean : ∀ i, vgicGetInt E E.current id E.current.idx = some i →
      if vgicIntIsHw s i then InjectHwClean E s i
      else if hasSources E i then InjectSgiClean E s i source
      else SetFieldClean E s ispendrInfo i 1)
    (hdelivers : b → ∀ i, vgicGetInt E E.current id E.current.idx = some i →
      vgicIntIsHw s i = false → hasSources E i → InjectSgiDelivers E s i source)
    (hinject : vgicInject E s E.current id source = some t) : ∃ q', Settled E b q' t := by
  cases vgicInject_step hinject with
  | unknown => exact ⟨q, h⟩
  | hw i _ found hw inject =>
    have hclean := hclean i found
    rw [if_pos hw] at hclean
    apply h.injectHw ?_ inject
    intro j hj
    obtain rfl : i = j := Option.some.inj (found.symm.trans hj)
    exact hclean
  | sgi i _ found notHw sources inject =>
    have hclean := hclean i found
    simp only [notHw, sources, if_true, Bool.false_eq_true, if_false] at hclean
    exact h.injectSgi (vgicGetInt_own found).1 sources hclean
      (fun hb => hdelivers hb i found notHw sources) inject
  | set i _ found notHw sources set =>
    have hclean := hclean i found
    simp only [notHw, sources, Bool.false_eq_true, if_false] at hclean
    apply h.setField ?_ hclean ?_ set
    · intro fields hfields int
      have htable : (regHandlerInfoTable .v2 .ispendr).fields = some fields := hfields
      exact updateField_samePlace htable
    · intro _ _ _ _ hsources
      exact absurd (sources.symm.trans hsources) Bool.false_ne_true

end Housed

end Avisor
