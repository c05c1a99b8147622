import Avisor.Vgic.CallSteps

/-!
# Where the interrupts of a vCPU are

On the pCPU that runs a vCPU, an interrupt is in a list register, on a list of spilled interrupts, or in
neither. The invariant of this file says that it is in one place at most, and that the fields of the
interrupt tell which. A second part, which a caller can switch off, says that an interrupt that is due
is in one of them.
-/

namespace Avisor

open Function CircularList

variable {E : VgicEnv} {s t : VgicState} {i j : IntRef} {k : Nat}

/-! ### The interrupts of the vCPU -/

/-- `vgic_get_int` finds the interrupt for the vCPU that runs. -/
def Own (E : VgicEnv) : IntRef → Prop
  | .priv vcpu id => vcpu = E.current ∧ id < gicCpuPriv
  | .shared vm id => vm = E.current.vm ∧ gicCpuPriv ≤ id ∧ id < E.cfg.intNum vm

theorem vgicGetInt_own {id : Nat} (h : vgicGetInt E E.current id E.current.idx = some i) :
    Own E i ∧ i.id = id := by
  refine ⟨?_, vgicGetInt_id h⟩
  unfold vgicGetInt at h
  split at h
  · rename_i hid
    rw [if_pos rfl] at h
    cases h
    exact ⟨rfl, hid⟩
  · rename_i hid
    split at h
    · rename_i hlt
      cases h
      exact ⟨rfl, Nat.not_lt.mp hid, hlt⟩
    · cases h

theorem Own.getInt (h : Own E i) : vgicGetInt E E.current i.id E.current.idx = some i := by
  unfold vgicGetInt
  cases i with
  | priv vcpu id =>
    obtain ⟨rfl, hid⟩ := h
    simp only [IntRef.id, if_pos hid, if_true]
  | shared vm id =>
    obtain ⟨rfl, hid, hlt⟩ := h
    simp only [IntRef.id, if_neg (Nat.not_lt.mpr hid)]
    exact if_pos hlt

/-- Two interrupts of one vCPU have different numbers. -/
theorem Own.id_inj (hi : Own E i) (hj : Own E j) (hid : i.id = j.id) : i = j := by
  have hget := hi.getInt
  rw [hid, hj.getInt] at hget
  exact (Option.some.inj hget).symm

/-- The lists that hold interrupts of the vCPU. -/
def OwnHead (E : VgicEnv) (h : SpilledHead) : Prop := h = .vcpu E.current ∨ h = .vm E.current.vm

theorem ownHead_spilledHead : OwnHead E (spilledHead E.current i) := by
  unfold spilledHead
  split
  · exact .inl rfl
  · exact .inr rfl

/-! ### The invariant -/

/-- The fields of an interrupt that is in list register `k`. -/
structure Recorded (E : VgicEnv) (int : VgicInt) (k : Nat) : Prop where
  inLr : int.inLr = true
  lr : int.lr = k
  owner : int.owner = some E.current
  state : int.state = .inv

/-- As far as its own fields tell, the interrupt is pending for the vCPU. -/
def Due (E : VgicEnv) (i : IntRef) (int : VgicInt) : Prop :=
  if hasSources E i then int.state.pend = true ∨ int.sgiPend ≠ 0
  else int.enabled = true ∧ vgicIntVcpuIsTarget E E.current i int = true ∧ int.state.pend = true

/-- The interrupt is linked or, if it is one with sources, the hardware does not take its list register
for a free one: the source that is next follows when the guest is done with the one before. -/
def Waits (E : VgicEnv) (q : SpilledHead → List IntRef) (s : VgicState) (i : IntRef) : Prop :=
  i ∈ q (spilledHead E.current i) ∨
    hasSources E i ∧ ∃ k < E.cfg.numLrs, (s.lr E.self k).vid = i.id ∧ (s.lr E.self k).elrsr = false

/-- The lists are the circular lists `q`, and each interrupt of the vCPU is where its fields say. As far
as `b` holds, each interrupt that is due waits, but those in `X`. -/
structure Housed (E : VgicEnv) (b : Prop) (X : IntRef → Prop) (q : SpilledHead → List IntRef)
    (s : VgicState) : Prop where
  here : E.pId E.current = E.self
  lists : ∀ h, OwnHead E h → Holds s.links h (q h)
  member : ∀ h, OwnHead E h → ∀ i ∈ q h,
    Own E i ∧ spilledHead E.current i = h ∧ (s.ints i).inLr = false
  vid : ∀ k, ∃ i, Own E i ∧ (s.lr E.self k).vid = i.id
  used : ∀ k, (s.lr E.self k).state ≠ .inv → k < E.cfg.numLrs
  held : ∀ k i, (s.lr E.self k).state ≠ .inv → Own E i → (s.lr E.self k).vid = i.id →
    Recorded E (s.ints i) k
  inLr : ∀ i, (s.ints i).inLr = true → Own E i
  privOwner : E.cfg.version = .v2 → ∀ n < gicCpuPriv,
    (s.ints (.priv E.current n)).owner = some E.current
  eoi : ∀ k, (s.lr E.self k).eoi = true → gicIsSgi (s.lr E.self k).vid = true →
    E.cfg.version = .v2
  due : b → ∀ i, Own E i → ¬ X i → Due E i (s.ints i) → Waits E q s i
  sources : b → ∀ k i, (s.lr E.self k).state ≠ .inv → Own E i → hasSources E i →
    (s.lr E.self k).vid = i.id →
      (s.lr E.self k).hw = false ∧ ((s.ints i).sgiPend ≠ 0 → (s.lr E.self k).eoi = true)
  enabled : b → ∀ i, hasSources E i → (s.ints i).enabled = true

/-- What `gich_get_lr` finds. -/
theorem gichGetLr_eq_some {lr : ListReg} (h : gichGetLr E s i = some (k, lr)) :
    lr = s.lr E.self k ∧ (s.lr E.self k).vid = i.id ∧ (s.lr E.self k).state ≠ .inv := by
  unfold gichGetLr at h
  dsimp only at h
  split at h
  · cases h
  · split at h
    · rename_i hheld
      cases h
      exact ⟨rfl, hheld⟩
    · cases h

/-- The state that the fields of an interrupt tell, where no list register holds it. -/
def fieldState (E : VgicEnv) (i : IntRef) (int : VgicInt) : IntState :=
  if hasSources E i && int.sgiPend ≠ 0 then { int.state with pend := true } else int.state

theorem vgicGetState_of_none (h : gichGetLr E s i = none) :
    vgicGetState E s i = fieldState E i (s.ints i) := by
  unfold vgicGetState
  rw [h]
  rfl

theorem gichGetLr_of_not_inLr (h : (s.ints i).inLr = false) : gichGetLr E s i = none := by
  unfold gichGetLr
  simp [h]

/-- A list register that is free, or has another number, does not hold the interrupt. -/
theorem gichGetLr_of_other (h : (s.lr E.self (s.ints i).lr).vid = i.id →
    (s.lr E.self (s.ints i).lr).state = .inv) : gichGetLr E s i = none := by
  unfold gichGetLr
  dsimp only
  split
  · rfl
  · apply if_neg
    exact fun hheld => hheld.2 (h hheld.1)

theorem vgicGetState_congr (hints : t.ints i = s.ints i)
    (hlr : t.lr E.self (s.ints i).lr = s.lr E.self (s.ints i).lr) :
    vgicGetState E t i = vgicGetState E s i := by
  have hget : gichGetLr E t i = gichGetLr E s i := by
    unfold gichGetLr
    dsimp only
    rw [hints, hlr]
  unfold vgicGetState
  rw [hget, hints]

/-- Fields that do not come back from a list register. -/
theorem intOfLr_same {lr : ListReg} {int : VgicInt} :
    (intOfLr E i lr int).inLr = int.inLr ∧ (intOfLr E i lr int).owner = int.owner ∧
      (intOfLr E i lr int).enabled = int.enabled := by
  unfold intOfLr
  dsimp only
  split
  · split
    · exact ⟨rfl, rfl, rfl⟩
    · split
      · exact ⟨rfl, rfl, rfl⟩
      · exact ⟨rfl, rfl, rfl⟩
  · exact ⟨rfl, rfl, rfl⟩

/-- The interrupt is in no list register. -/
def NotHeld (E : VgicEnv) (s : VgicState) (i : IntRef) : Prop :=
  ∀ k, (s.lr E.self k).vid = i.id → (s.lr E.self k).state = .inv

namespace Housed

variable {b : Prop} {X Y : IntRef → Prop} {q : SpilledHead → List IntRef}

theorem mono (h : Housed E b X q s) (hXY : ∀ j, X j → Y j) : Housed E b Y q s :=
  { h with due := fun hb j hj hY => h.due hb j hj fun hX => hY (hXY j hX) }

/-- Only the lists, the interrupts and the list registers of the pCPU matter. -/
theorem congr (h : Housed E b X q s) (hlinks : t.links = s.links) (hints : t.ints = s.ints)
    (hlr : t.lr E.self = s.lr E.self) : Housed E b X q t where
  here := h.here
  lists := hlinks ▸ h.lists
  member := hints ▸ h.member
  vid := hlr ▸ h.vid
  used := hlr ▸ h.used
  held := hlr ▸ hints ▸ h.held
  inLr := hints ▸ h.inLr
  privOwner := hints ▸ h.privOwner
  eoi := hlr ▸ h.eoi
  due hb j hj hX hdue := by
    have hwaits := h.due hb j hj hX (hints ▸ hdue)
    unfold Waits at hwaits ⊢
    rw [hlr]
    exact hwaits
  sources := hlr ▸ hints ▸ h.sources
  enabled := hints ▸ h.enabled

/-- An interrupt without `in_lr` is in no list register. -/
theorem notHeld (h : Housed E b X q s) (hi : Own E i) (hinLr : (s.ints i).inLr = false) :
    NotHeld E s i := by
  intro k hvid
  by_contra hne
  have hrecorded := (h.held k i hne hi hvid).inLr
  rw [hinLr] at hrecorded
  cases hrecorded

/-- A linked interrupt has `in_lr` clear. -/
theorem linked (h : Housed E b X q s) (hi : i ∈ q (spilledHead E.current i)) :
    (s.ints i).inLr = false :=
  (h.member _ ownHead_spilledHead i hi).2.2

/-- `gich_get_lr` finds the list register that an interrupt is in. -/
theorem gichGetLr (h : Housed E b X q s) (hi : Own E i) (hne : (s.lr E.self k).state ≠ .inv)
    (hvid : (s.lr E.self k).vid = i.id) : gichGetLr E s i = some (k, s.lr E.self k) := by
  obtain ⟨hinLr, hk, howner, -⟩ := h.held k i hne hi hvid
  unfold Avisor.gichGetLr
  simp only [hinLr, howner, hk, Option.map_some, h.here, Bool.not_true, Bool.false_or, ne_eq,
    not_true_eq_false, decide_false, Bool.false_eq_true, if_false, hvid, hne, not_false_eq_true,
    and_self, if_true]

/-- A store to fields of an interrupt. -/
theorem modifyInt (h : Housed E b X q s) {f : VgicInt → VgicInt}
    (hrecorded : ∀ k, (s.lr E.self k).state ≠ .inv → (s.lr E.self k).vid = i.id →
      Recorded E (s.ints i) k → Recorded E (f (s.ints i)) k)
    (hlinked : (s.ints i).inLr = false → (f (s.ints i)).inLr = false)
    (howner : (s.ints i).owner = some E.current →
      (f (s.ints i)).owner = some E.current ∨ E.cfg.version = .v3 ∨ gicIsPriv i.id = false)
    (hdue : b → Own E i → ¬ X i → Due E i (f (s.ints i)) → Due E i (s.ints i))
    (hsources : b → hasSources E i →
      (f (s.ints i)).sgiPend = (s.ints i).sgiPend ∨ NotHeld E s i)
    (henabled : b → hasSources E i → (f (s.ints i)).enabled = true) :
    Housed E b X q (s.modifyInt i f) where
  here := h.here
  lists := h.lists
  member hd hhd j hj := by
    obtain ⟨hown, hhead, hinLr⟩ := h.member hd hhd j hj
    refine ⟨hown, hhead, ?_⟩
    rw [VgicState.modifyInt_ints]
    by_cases hji : j = i
    · subst hji
      rw [update_self]
      exact hlinked hinLr
    · rw [update_of_ne hji]
      exact hinLr
  vid := h.vid
  used := h.used
  held k j hne hj hvid := by
    have hrec := h.held k j hne hj hvid
    rw [VgicState.modifyInt_ints]
    by_cases hji : j = i
    · subst hji
      rw [update_self]
      exact hrecorded k hne hvid hrec
    · rw [update_of_ne hji]
      exact hrec
  inLr j hj := by
    rw [VgicState.modifyInt_ints] at hj
    by_cases hji : j = i
    · subst hji
      rw [update_self] at hj
      apply h.inLr j
      by_contra hinLr
      rw [hlinked (by simpa using hinLr)] at hj
      cases hj
    · rw [update_of_ne hji] at hj
      exact h.inLr j hj
  privOwner hv2 n hn := by
    have hpriv := h.privOwner hv2 n hn
    rw [VgicState.modifyInt_ints]
    by_cases hni : IntRef.priv E.current n = i
    · subst hni
      rw [update_self]
      rcases howner hpriv with hsame | hv3 | hshared
      · exact hsame
      · rw [hv2] at hv3
        cases hv3
      · exact absurd hn (of_decide_eq_false hshared)
    · rw [update_of_ne hni]
      exact hpriv
  eoi := h.eoi
  due hb j hj hX hjdue := by
    apply h.due hb j hj hX
    rw [VgicState.modifyInt_ints] at hjdue
    by_cases hji : j = i
    · subst hji
      rw [update_self] at hjdue
      exact hdue hb hj hX hjdue
    · rwa [update_of_ne hji] at hjdue
  sources hb k j hne hj hsgi hvid := by
    obtain ⟨hhw, heoi⟩ := h.sources hb k j hne hj hsgi hvid
    refine ⟨hhw, fun hpend => heoi ?_⟩
    rw [VgicState.modifyInt_ints] at hpend
    by_cases hji : j = i
    · subst hji
      rw [update_self] at hpend
      rcases hsources hb hsgi with hsame | hnot
      · rwa [hsame] at hpend
      · exact absurd (hnot k hvid) hne
    · rwa [update_of_ne hji] at hpend
  enabled hb j hsgi := by
    rw [VgicState.modifyInt_ints]
    by_cases hji : j = i
    · subst hji
      rw [update_self]
      exact henabled hb hsgi
    · rw [update_of_ne hji]
      exact h.enabled hb j hsgi

/-! ### Ownership -/

theorem yieldOwnership (h : Housed E b X q s) :
    Housed E b X q (vgicYieldOwnership E s E.current i) := by
  rcases vgicYieldOwnership_cases E s E.current i with hsame | ⟨⟨hversion, -, hinLr, -⟩, hyield⟩
  · rw [hsame]
    exact h
  · rw [hyield]
    apply h.modifyInt
    · intro k _ _ hrec
      exact absurd (hinLr.symm.trans hrec.inLr) Bool.false_ne_true
    · exact id
    · intro _
      right
      cases hv : E.cfg.version with
      | v2 => exact .inr (hversion hv)
      | v3 => exact .inl rfl
    · exact fun _ _ _ hdue => hdue
    · exact fun _ _ => .inl rfl
    · exact fun hb hsgi => h.enabled hb i hsgi

theorem getOwnership (h : Housed E b X q s) :
    Housed E b X q (vgicGetOwnership s E.current i).2 := by
  rcases vgicGetOwnership_cases s E.current i with ⟨-, hsame⟩ | ⟨-, hget⟩
  · rw [hsame]
    exact h
  · rw [hget]
    apply h.modifyInt
    · exact fun k _ _ hrec => { hrec with owner := rfl }
    · exact id
    · exact fun _ => .inl rfl
    · exact fun _ _ _ hdue => hdue
    · exact fun _ _ => .inl rfl
    · exact fun hb hsgi => h.enabled hb i hsgi

/-- The interrupt leaves the list register that its fields name. -/
theorem clearInLr (h : Housed E b X q s)
    (hnot : NotHeld E s i) :
    Housed E b X q (s.modifyInt i fun int => { int with inLr := false }) := by
  apply h.modifyInt
  · exact fun k hne hvid _ => absurd (hnot k hvid) hne
  · exact fun _ => rfl
  · exact fun howner => .inl howner
  · exact fun _ _ _ hdue => hdue
  · exact fun _ _ => .inl rfl
  · exact fun hb hsgi => h.enabled hb i hsgi

theorem releasePrev (h : Housed E b X q s) (hk : (s.lr E.self k).state = .inv) :
    Housed E b X q (vgicReleasePrev E s E.current i k) := by
  rcases vgicReleasePrev_cases E s E.current i k with hsame | ⟨prev, hprev, hrelease⟩
  · rw [hsame]
    exact h
  · rw [hrelease]
    apply Housed.yieldOwnership
    apply h.clearInLr
    intro k' hvid
    by_contra hne
    have hrec := h.held k' prev hne (vgicGetInt_own hprev.found).1 hvid
    rw [← hrec.lr, hprev.lr] at hne
    exact hne hk

/-! ### Out of a list register -/

/-- `gich_get_lr` finds nothing for an interrupt that is in no list register. -/
theorem notHeld_of_gichGetLr (h : Housed E b X q s) (hi : Own E i)
    (hnone : Avisor.gichGetLr E s i = none) : NotHeld E s i := by
  intro k hvid
  by_contra hne
  rw [h.gichGetLr hi hne hvid] at hnone
  cases hnone

/-- A list register is cleared; the interrupt it was for is left to the caller. -/
theorem zeroLr (h : Housed E b X q s) (hi : Own E i) (hvid : (s.lr E.self k).vid = i.id)
    (hX : ∀ j, X j → Y j) (hY : Y i) : Housed E b Y q (s.writeLr E.self k .zero) := by
  have hlr (n) : (s.writeLr E.self k .zero).lr E.self n =
      if n = k then .zero else s.lr E.self n := by
    rw [VgicState.writeLr_lr, update_self, update_apply]
  have hvalid (n) (hne : ((s.writeLr E.self k .zero).lr E.self n).state ≠ .inv) :
      n ≠ k ∧ (s.writeLr E.self k .zero).lr E.self n = s.lr E.self n := by
    rw [hlr] at hne ⊢
    split at hne
    · exact absurd rfl hne
    · rename_i hnk
      exact ⟨hnk, if_neg hnk⟩
  constructor
  · exact h.here
  · exact h.lists
  · exact h.member
  · intro n
    rw [hlr]
    split
    · exact ⟨.priv E.current 0, ⟨rfl, by decide⟩, rfl⟩
    · exact h.vid n
  · intro n hne
    have hsame := (hvalid n hne).2
    rw [hsame] at hne
    exact h.used n hne
  · intro n j hne hj hn
    have hsame := (hvalid n hne).2
    rw [hsame] at hne hn
    exact h.held n j hne hj hn
  · exact h.inLr
  · exact h.privOwner
  · intro n heoi hsgi
    rw [hlr] at heoi hsgi
    split at heoi
    · cases heoi
    · rename_i hnk
      rw [if_neg hnk] at hsgi
      exact h.eoi n heoi hsgi
  · intro hb j hj hjY hdue
    have hwaits := h.due hb j hj (fun hjX => hjY (hX j hjX)) hdue
    refine hwaits.imp_right fun hevidence => ?_
    obtain ⟨hsgi, n, hn, hnvid, helrsr⟩ := hevidence
    have hnk : n ≠ k := by
      rintro rfl
      exact hjY ((hi.id_inj hj (hvid.symm.trans hnvid)) ▸ hY)
    refine ⟨hsgi, n, hn, ?_⟩
    rw [hlr, if_neg hnk]
    exact ⟨hnvid, helrsr⟩
  · intro hb n j hne hj hsgi hn
    have hsame := (hvalid n hne).2
    rw [hsame] at hne hn ⊢
    exact h.sources hb n j hne hj hsgi hn
  · exact h.enabled

/-- `vgic_remove_lr` leaves the interrupt to the caller. -/
theorem removeLr (h : Housed E b X q s) (hX : ∀ j, X j → Y j) (hY : Y i) :
    Housed E b Y q (vgicRemoveLr E s E.current i).2 := by
  unfold vgicRemoveLr
  split
  · exact h.mono hX
  · rename_i hguard
    simp only [Bool.or_eq_true, not_or, Bool.not_eq_true, Bool.not_eq_false'] at hguard
    have hi : Own E i := h.inLr i hguard.2
    split
    · rename_i hnone
      exact (h.clearInLr (h.notHeld_of_gichGetLr hi hnone)).mono hX
    · rename_i lrInd lr hsome
      obtain ⟨hlr, hvid, hne⟩ := gichGetLr_eq_some hsome
      subst hlr
      have hzero := h.zeroLr hi hvid hX hY
      have hnot : NotHeld E (s.writeLr E.self lrInd .zero) i := by
        intro n hn
        by_contra hstate
        have hrec := (hzero.held n i hstate hi hn).lr
        have hrec' := (h.held lrInd i hne hi hvid).lr
        rw [VgicState.writeLr_ints, hrec'] at hrec
        subst hrec
        rw [VgicState.writeLr_lr, update_self, update_self] at hstate
        exact hstate rfl
      have hmodify := hzero.modifyInt (f := fun int =>
          intOfLr E i (s.lr E.self lrInd) { int with inLr := false })
        (fun n hstate hn _ => absurd (hnot n hn) hstate)
        (fun _ => intOfLr_same.1)
        (fun howner => .inl (intOfLr_same.2.1.trans howner))
        (fun _ _ hiY => absurd hY hiY)
        (fun _ _ => .inr hnot)
        (fun hb hsgi => by
          rw [intOfLr_same.2.2]
          exact hzero.enabled hb i hsgi)
      exact hmodify.congr rfl rfl (by simp)

end Housed

/-- What `vgic_remove_lr` does to its interrupt is the same in all cases but for the fields that come
back from the list register. -/
theorem vgicRemoveLr_ints : (vgicRemoveLr E s E.current i).2.ints =
    update s.ints i ((vgicRemoveLr E s E.current i).2.ints i) := by
  unfold vgicRemoveLr
  split
  · exact (update_eq_self i s.ints).symm
  · split
    · simp
    · simp

theorem vgicRemoveLr_ints_ne (hj : j ≠ i) :
    (vgicRemoveLr E s E.current i).2.ints j = s.ints j := by
  rw [vgicRemoveLr_ints, update_of_ne hj]

theorem vgicRemoveLr_links : (vgicRemoveLr E s E.current i).2.links = s.links := by
  unfold vgicRemoveLr
  split
  · rfl
  · split
    · rfl
    · rfl

/-- An interrupt that the vCPU owns has `in_lr` clear behind `vgic_remove_lr`. -/
theorem vgicRemoveLr_inLr (howner : (s.ints i).owner = some E.current) :
    ((vgicRemoveLr E s E.current i).2.ints i).inLr = false := by
  unfold vgicRemoveLr vgicOwns
  rw [howner]
  split
  · rename_i hguard
    simpa using hguard
  · split
    · simp
    · simp [intOfLr_same]

theorem vgicRemoveLr_owner :
    ((vgicRemoveLr E s E.current i).2.ints i).owner = (s.ints i).owner := by
  unfold vgicRemoveLr
  split
  · rfl
  · split
    · simp
    · simp [intOfLr_same]

theorem vgicYieldOwnership_lr : (vgicYieldOwnership E s E.current i).lr = s.lr := by
  rcases vgicYieldOwnership_cases E s E.current i with hsame | ⟨-, hyield⟩
  · rw [hsame]
  · rw [hyield, VgicState.modifyInt_lr]

theorem vgicYieldOwnership_links : (vgicYieldOwnership E s E.current i).links = s.links := by
  rcases vgicYieldOwnership_cases E s E.current i with hsame | ⟨-, hyield⟩
  · rw [hsame]
  · rw [hyield, VgicState.modifyInt_links]

theorem vgicYieldOwnership_ints_ne (hj : j ≠ i) :
    (vgicYieldOwnership E s E.current i).ints j = s.ints j := by
  rcases vgicYieldOwnership_cases E s E.current i with hsame | ⟨-, hyield⟩
  · rw [hsame]
  · rw [hyield, VgicState.modifyInt_ints, update_of_ne hj]

theorem vgicGetOwnership_same (s : VgicState) (vcpu : VcpuRef) (i : IntRef) :
    (vgicGetOwnership s vcpu i).2.links = s.links ∧ (vgicGetOwnership s vcpu i).2.lr = s.lr := by
  rcases vgicGetOwnership_cases s vcpu i with ⟨-, hsame⟩ | ⟨-, hget⟩
  · rw [hsame]
    exact ⟨rfl, rfl⟩
  · rw [hget]
    exact ⟨rfl, rfl⟩

theorem vgicGetOwnership_ints_ne (hj : j ≠ i) : (vgicGetOwnership s E.current i).2.ints j = s.ints j := by
  rcases vgicGetOwnership_cases s E.current i with ⟨-, hsame⟩ | ⟨-, hget⟩
  · rw [hsame]
  · rw [hget, VgicState.modifyInt_ints, update_of_ne hj]

theorem vgicAddSpilled_lr : (vgicAddSpilled E s E.current i).lr = s.lr :=
  VgicState.setHcr_lr

/-- Only the interrupt in the list register before is changed. -/
theorem vgicReleasePrev_ints (hne : j.id = i.id) :
    (vgicReleasePrev E s E.current i k).ints j = s.ints j := by
  rcases vgicReleasePrev_cases E s E.current i k with hsame | ⟨prev, hprev, hrelease⟩
  · rw [hsame]
  · have hj : j ≠ prev := by
      intro heq
      rw [← heq] at hprev
      exact hprev.other ((vgicGetInt_id hprev.found).symm.trans hne)
    rw [hrelease, vgicYieldOwnership_ints_ne hj, VgicState.modifyInt_ints, update_of_ne hj]

theorem vgicReleasePrev_lr : (vgicReleasePrev E s E.current i k).lr = s.lr := by
  rcases vgicReleasePrev_cases E s E.current i k with hsame | ⟨prev, -, hrelease⟩
  · rw [hsame]
  · rw [hrelease, vgicYieldOwnership_lr, VgicState.modifyInt_lr]

theorem vgicReleasePrev_links : (vgicReleasePrev E s E.current i k).links = s.links := by
  rcases vgicReleasePrev_cases E s E.current i k with hsame | ⟨prev, -, hrelease⟩
  · rw [hsame]
  · rw [hrelease, vgicYieldOwnership_links, VgicState.modifyInt_links]

theorem vgicGetState_releasePrev :
    vgicGetState E (vgicReleasePrev E s E.current i k) i = vgicGetState E s i :=
  vgicGetState_congr (vgicReleasePrev_ints rfl) (by rw [vgicReleasePrev_lr])

/-- What `vgic_write_lr` writes to the list register is told by the interrupt as the call finds it. -/
theorem vgicWriteLr_lr : (vgicWriteLr E s E.current i k).lr =
    update s.lr E.self (update (s.lr E.self) k (lrOfInt E i (s.ints i) (vgicGetState E s i)).1) := by
  have hprev : (vgicReleasePrev E s E.current i k).lr = s.lr := vgicReleasePrev_lr
  unfold vgicWriteLr
  dsimp only
  rw [vgicReleasePrev_ints rfl, vgicGetState_releasePrev, VgicState.writeLr_lr, ← hprev]
  rfl

theorem vgicWriteLr_ints : (vgicWriteLr E s E.current i k).ints =
    update (vgicReleasePrev E s E.current i k).ints i
      { s.ints i with
        sgiPend := (lrOfInt E i (s.ints i) (vgicGetState E s i)).2
        state := .inv
        inLr := true
        lr := k } := by
  unfold vgicWriteLr
  dsimp only
  rw [vgicReleasePrev_ints rfl, vgicGetState_releasePrev, VgicState.writeLr_ints, VgicState.modifyInt_ints,
    vgicReleasePrev_ints rfl]

theorem vgicWriteLr_int : (vgicWriteLr E s E.current i k).ints i =
    { s.ints i with
      sgiPend := (lrOfInt E i (s.ints i) (vgicGetState E s i)).2
      state := .inv
      inLr := true
      lr := k } := by
  rw [vgicWriteLr_ints, update_self]

/-! ### Into a list or a list register -/

theorem lrOfInt_vid (E : VgicEnv) (i : IntRef) (int : VgicInt) (state : IntState) :
    (lrOfInt E i int state).1.vid = i.id := by
  unfold lrOfInt
  dsimp only
  split
  · rfl
  · split
    · split
      · rfl
      · split
        · rfl
        · rfl
    · rfl

theorem gicIsPriv_of_sgi {id : Nat} (h : gicIsSgi id = true) : gicIsPriv id = true := by
  apply decide_eq_true
  exact Nat.lt_of_lt_of_le (of_decide_eq_true h) (by decide)

/-- The list register of an SGI tells its end only in the build with sources. -/
theorem lrOfInt_eoi (int : VgicInt) (state : IntState)
    (heoi : (lrOfInt E i int state).1.eoi = true) (hsgi : gicIsSgi i.id = true) :
    E.cfg.version = .v2 := by
  by_contra hv3
  have hpriv := gicIsPriv_of_sgi hsgi
  unfold lrOfInt hasSources at heoi
  simp [hsgi, hv3, hpriv] at heoi

/-- While sources are left, the list register tells the end of the interrupt. -/
theorem lrOfInt_sources (int : VgicInt) (state : IntState) (hsgi : hasSources E i = true) :
    (lrOfInt E i int state).1.hw = false ∧
      ((lrOfInt E i int state).2 ≠ 0 → (lrOfInt E i int state).1.eoi = true) := by
  have hid : gicIsSgi i.id = true := by
    simp only [hasSources, Bool.and_eq_true] at hsgi
    exact hsgi.2
  unfold lrOfInt
  simp only [hid, Bool.not_true, Bool.false_and, Bool.false_eq_true, if_false, hsgi, if_true]
  split
  · exact ⟨rfl, fun hne => decide_eq_true hne⟩
  · split
    · exact ⟨rfl, fun hne => decide_eq_true hne⟩
    · exact ⟨rfl, fun hne => decide_eq_true hne⟩

namespace Housed

variable {b : Prop} {X Y : IntRef → Prop} {q : SpilledHead → List IntRef}

theorem addSpilled (h : Housed E b X q s) (hi : Own E i) (hinLr : (s.ints i).inLr = false)
    (hn : i ∉ q (spilledHead E.current i)) (hX : ∀ j, X j → Y j ∨ j = i) :
    Housed E b Y (update q (spilledHead E.current i) (q (spilledHead E.current i) ++ [i]))
      (vgicAddSpilled E s E.current i) := by
  have hlr : (vgicAddSpilled E s E.current i).lr = s.lr := vgicAddSpilled_lr
  have hmem (j) (hj : j ∈ q (spilledHead E.current j)) : j ∈ update q (spilledHead E.current i)
      (q (spilledHead E.current i) ++ [i]) (spilledHead E.current j) := by
    rw [update_apply]
    split
    · rename_i heq
      exact List.mem_append_left _ (heq ▸ hj)
    · exact hj
  constructor
  · exact h.here
  · intro hd hhd
    by_cases heq : hd = spilledHead E.current i
    · subst heq
      rw [update_self]
      exact (h.lists _ hhd).listAddTail hn
    · rw [update_of_ne heq]
      apply (h.lists hd hhd).listAddTail_other (h.lists _ ownHead_spilledHead) heq
      · intro hmem
        exact heq (h.member hd hhd i hmem).2.1.symm
      · intro j hj hj'
        exact heq ((h.member hd hhd j hj).2.1.symm.trans
          (h.member _ ownHead_spilledHead j hj').2.1)
  · intro hd hhd j hj
    by_cases heq : hd = spilledHead E.current i
    · subst heq
      rw [update_self, List.mem_append, List.mem_singleton] at hj
      rcases hj with hj | rfl
      · exact h.member _ hhd j hj
      · exact ⟨hi, rfl, hinLr⟩
    · rw [update_of_ne heq] at hj
      exact h.member hd hhd j hj
  · rw [hlr]
    exact h.vid
  · rw [hlr]
    exact h.used
  · rw [hlr]
    exact h.held
  · exact h.inLr
  · exact h.privOwner
  · rw [hlr]
    exact h.eoi
  · intro hb j hj hY hdue
    by_cases hji : j = i
    · subst hji
      left
      rw [update_self]
      exact List.mem_append_right _ (List.mem_singleton_self j)
    · have hnX : ¬ X j := fun hjX => (hX j hjX).elim hY hji
      unfold Waits
      rw [hlr]
      exact (h.due hb j hj hnX hdue).imp_left (hmem j)
  · rw [hlr]
    exact h.sources
  · exact h.enabled

/-- An interrupt that is in no place is recorded in a list register that the hardware takes for a free
one. -/
theorem fill (h : Housed E b X q s) {int : VgicInt} {lr : ListReg} (hi : Own E i)
    (hnot : NotHeld E s i) (hn : i ∉ q (spilledHead E.current i)) (hk : k < E.cfg.numLrs)
    (hfree : (s.lr E.self k).elrsr = true) (hrec : Recorded E int k) (hvid : lr.vid = i.id)
    (heoi : lr.eoi = true → gicIsSgi i.id = true → E.cfg.version = .v2)
    (hsources : hasSources E i → lr.hw = false ∧ (int.sgiPend ≠ 0 → lr.eoi = true))
    (henabled : int.enabled = (s.ints i).enabled) (hX : ∀ j, X j → Y j ∨ j = i)
    (hlinks : t.links = s.links) (hints : t.ints = update s.ints i int)
    (hlr : ∀ n, t.lr E.self n = if n = k then lr else s.lr E.self n) : Housed E b Y q t := by
  have hself : t.lr E.self k = lr := (hlr k).trans (if_pos rfl)
  have hother (n) (hnk : n ≠ k) : t.lr E.self n = s.lr E.self n := (hlr n).trans (if_neg hnk)
  have hint : t.ints i = int := by rw [hints, update_self]
  have hints (j) (hji : j ≠ i) : t.ints j = s.ints j := by rw [hints, update_of_ne hji]
  constructor
  · exact h.here
  · rw [hlinks]
    exact h.lists
  · intro hd hhd j hj
    obtain ⟨hown, hhead, hinLr⟩ := h.member hd hhd j hj
    have hji : j ≠ i := by
      rintro rfl
      exact hn (hhead ▸ hj)
    rw [hints j hji]
    exact ⟨hown, hhead, hinLr⟩
  · intro n
    by_cases hnk : n = k
    · subst hnk
      rw [hself]
      exact ⟨i, hi, hvid⟩
    · rw [hother n hnk]
      exact h.vid n
  · intro n hne
    by_cases hnk : n = k
    · exact hnk ▸ hk
    · rw [hother n hnk] at hne
      exact h.used n hne
  · intro n j hne hj hjvid
    by_cases hnk : n = k
    · subst hnk
      rw [hself, hvid] at hjvid
      rw [← hi.id_inj hj hjvid, hint]
      exact hrec
    · rw [hother n hnk] at hne hjvid
      have hji : j ≠ i := by
        rintro rfl
        exact hne (hnot n hjvid)
      rw [hints j hji]
      exact h.held n j hne hj hjvid
  · intro j hj
    by_cases hji : j = i
    · exact hji ▸ hi
    · rw [hints j hji] at hj
      exact h.inLr j hj
  · intro hv2 n hn
    by_cases hni : IntRef.priv E.current n = i
    · rw [hni, hint]
      exact hrec.owner
    · rw [hints _ hni]
      exact h.privOwner hv2 n hn
  · intro n hneoi hsgi
    by_cases hnk : n = k
    · subst hnk
      rw [hself] at hneoi hsgi
      exact heoi hneoi (hvid ▸ hsgi)
    · rw [hother n hnk] at hneoi hsgi
      exact h.eoi n hneoi hsgi
  · intro hb j hj hY hdue
    by_cases hji : j = i
    · subst hji
      rw [hint] at hdue
      unfold Due at hdue
      split at hdue
      · rename_i hsgi
        right
        refine ⟨hsgi, k, hk, ?_⟩
        have hpend : int.sgiPend ≠ 0 := by
          rcases hdue with hpend | hpend
          · rw [hrec.state] at hpend
            cases hpend
          · exact hpend
        rw [hself]
        simp only [ListReg.elrsr, (hsources hsgi).1, (hsources hsgi).2 hpend]
        exact ⟨hvid, by simp⟩
      · rw [hrec.state] at hdue
        exact absurd hdue.2.2 Bool.false_ne_true
    · rw [hints j hji] at hdue
      have hnX : ¬ X j := fun hjX => (hX j hjX).elim hY hji
      refine (h.due hb j hj hnX hdue).imp_right fun hevidence => ?_
      obtain ⟨hsgi, n, hnlt, hjvid, helrsr⟩ := hevidence
      have hnk : n ≠ k := by
        rintro rfl
        rw [hfree] at helrsr
        cases helrsr
      refine ⟨hsgi, n, hnlt, ?_⟩
      rw [hother n hnk]
      exact ⟨hjvid, helrsr⟩
  · intro hb n j hne hj hsgi hjvid
    by_cases hnk : n = k
    · subst hnk
      rw [hself, hvid] at hjvid
      obtain rfl := hi.id_inj hj hjvid
      rw [hself, hint]
      exact hsources hsgi
    · rw [hother n hnk] at hne hjvid ⊢
      have hji : j ≠ i := by
        rintro rfl
        exact hne (hnot n hjvid)
      rw [hints j hji]
      exact h.sources hb n j hne hj hsgi hjvid
  · intro hb j hsgi
    by_cases hji : j = i
    · subst hji
      rw [hint, henabled]
      exact h.enabled hb j hsgi
    · rw [hints j hji]
      exact h.enabled hb j hsgi

/-- `vgic_write_lr` for an interrupt that is in no place. -/
theorem writeLr (h : Housed E b X q s) (hi : Own E i) (howner : (s.ints i).owner = some E.current)
    (hinLr : (s.ints i).inLr = false) (hn : i ∉ q (spilledHead E.current i))
    (hk : k < E.cfg.numLrs) (hfree : (s.lr E.self k).elrsr = true)
    (hX : ∀ j, X j → Y j ∨ j = i) : Housed E b Y q (vgicWriteLr E s E.current i k) := by
  have hinv : (s.lr E.self k).state = .inv := by
    simp only [ListReg.elrsr, Bool.and_eq_true, decide_eq_true_eq] at hfree
    exact hfree.1
  have hprev : Housed E b X q (vgicReleasePrev E s E.current i k) := h.releasePrev hinv
  have hlrPrev : (vgicReleasePrev E s E.current i k).lr = s.lr := vgicReleasePrev_lr
  have hint : (vgicReleasePrev E s E.current i k).ints i = s.ints i := vgicReleasePrev_ints rfl
  unfold vgicWriteLr
  generalize vgicReleasePrev E s E.current i k = u at hprev hlrPrev hint
  have hvid := lrOfInt_vid E i (u.ints i) (vgicGetState E u i)
  have heoi := lrOfInt_eoi (E := E) (i := i) (u.ints i) (vgicGetState E u i)
  have hsources := fun hsgi =>
    lrOfInt_sources (E := E) (i := i) (u.ints i) (vgicGetState E u i) hsgi
  dsimp only
  generalize lrOfInt E i (u.ints i) (vgicGetState E u i) = p at hvid heoi hsources
  obtain ⟨lr, sgiPend⟩ := p
  have hrec : Recorded E { u.ints i with
      sgiPend := sgiPend, state := .inv, inLr := true, lr := k } k :=
    ⟨rfl, rfl, (congrArg VgicInt.owner hint).trans howner, rfl⟩
  apply hprev.fill hi (hprev.notHeld hi (hint ▸ hinLr)) hn hk (hlrPrev ▸ hfree) hrec hvid heoi
    hsources rfl hX
  · rfl
  · rfl
  · intro n
    rw [VgicState.writeLr_lr, update_self, update_apply]
    rfl

/-! ### `vgic_add_lr` -/

end Housed

theorem findLr_eq_some {p : ListReg → Bool} (h : findLr E s p = some k) :
    k < E.cfg.numLrs ∧ p (s.lr E.self k) = true := by
  unfold findLr at h
  have hfound := List.find?_some h
  exact ⟨List.mem_range.mp (List.mem_of_find?_eq_some h), by simpa using hfound⟩

/-- What the search has picked so far is pending or active. -/
def SpillSearch.Valid (E : VgicEnv) (s : VgicState) (x : SpillSearch) : Prop :=
  ∀ k, x.pendInd = some k ∨ x.actInd = some k →
    k < E.cfg.numLrs ∧ (s.lr E.self k).state ≠ .inv

theorem SpillSearch.Valid.step {x : SpillSearch} (h : x.Valid E s) {n : Nat} (hn : n < E.cfg.numLrs) :
    (spillSearchStep E s x n).Valid E s := by
  have hpicked (hne : (s.lr E.self n).state ≠ .inv) (m) (hm : some n = some m) :
      m < E.cfg.numLrs ∧ (s.lr E.self m).state ≠ .inv := by
    cases hm
    exact ⟨hn, hne⟩
  unfold spillSearchStep
  dsimp only
  generalize (if E.cfg.version = .v2 then (s.lr E.self n).prio.toNat <<< 3
    else (s.lr E.self n).prio.toNat) = lrPrio
  split
  · rename_i hact
    have hne : (s.lr E.self n).state ≠ .inv := by
      intro hinv
      rw [hinv, lrStateOf_inv] at hact
      cases hact
    split
    · exact fun m hm => hm.elim (fun hpend => h m (.inl hpend)) (hpicked hne m)
    · exact h
  · split
    · rename_i hpend
      have hne : (s.lr E.self n).state ≠ .inv := by
        intro hinv
        rw [hinv, lrStateOf_inv] at hpend
        cases hpend
      split
      · exact fun m hm => hm.elim (hpicked hne m) fun hact => h m (.inr hact)
      · exact h
    · exact h

theorem SpillSearch.Valid.foldl {x : SpillSearch} (h : x.Valid E s) {l : List Nat}
    (hl : ∀ n ∈ l, n < E.cfg.numLrs) : (l.foldl (spillSearchStep E s) x).Valid E s := by
  induction l generalizing x with
  | nil => exact h
  | cons n l ih =>
    exact ih (h.step (hl n List.mem_cons_self)) fun m hm => hl m (List.mem_cons_of_mem n hm)

/-- The search picks a list register whose interrupt is pending or active. -/
theorem spillSearch_eq_some (h : spillSearch E s i = some k) :
    k < E.cfg.numLrs ∧ (s.lr E.self k).state ≠ .inv := by
  unfold spillSearch at h
  dsimp only at h
  generalize hstart : (SpillSearch.mk _ _ _ _ _ _ _ _) = x at h
  have hx : x.Valid E s := by
    subst hstart
    exact fun m hm => by simp at hm
  have hvalid := hx.foldl (l := List.range E.cfg.numLrs) fun n hn => List.mem_range.mp hn
  split at h
  · exact hvalid k (.inl h)
  · exact hvalid k (.inr h)

namespace Housed

variable {b : Prop} {X Y : IntRef → Prop} {q : SpilledHead → List IntRef}

/-- `vgic_spill_lr` moves the interrupt of a list register to its list, and the list register is
free. -/
theorem spillLr (h : Housed E b X q s) (hne : (s.lr E.self k).state ≠ .inv) (hi : Own E i)
    (hinLr : (s.ints i).inLr = false) (hn : i ∉ q (spilledHead E.current i))
    (hspill : vgicSpillLr E s E.current k i = some t) :
    ∃ q', Housed E b X q' t ∧ (t.lr E.self k).elrsr = true ∧ t.ints i = s.ints i ∧
      i ∉ q' (spilledHead E.current i) := by
  obtain ⟨j, hj, hvid⟩ := h.vid k
  have hrec := h.held k j hne hj hvid
  have hji : j ≠ i := by
    rintro rfl
    exact absurd (hinLr.symm.trans hrec.inLr) Bool.false_ne_true
  have hjn : j ∉ q (spilledHead E.current j) := by
    intro hmem
    exact absurd ((h.linked hmem).symm.trans hrec.inLr) Bool.false_ne_true
  obtain rfl : t = vgicYieldOwnership E
      (vgicAddSpilled E (vgicRemoveLr E s E.current j).2 E.current j) E.current j := by
    have hget := hj.getInt
    rw [← hvid] at hget
    cases vgicSpillLr_step hspill with
    | unknown missing => cases missing.symm.trans hget
    | spilled m found => rw [Option.some.inj (found.symm.trans hget)]
  have hremove := h.removeLr (Y := fun m => X m ∨ m = j) (i := j) (fun _ => .inl) (.inr rfl)
  have hzero : (vgicRemoveLr E s E.current j).2.lr E.self k = .zero := by
    unfold vgicRemoveLr vgicOwns
    simp only [hrec.owner, hrec.inLr, h.gichGetLr hj hne hvid]
    simp
  have hlinks := vgicRemoveLr_links (E := E) (s := s) (i := j)
  have hinLrRemoved := vgicRemoveLr_inLr hrec.owner
  have hints : (vgicRemoveLr E s E.current j).2.ints i = s.ints i :=
    vgicRemoveLr_ints_ne (Ne.symm hji)
  generalize (vgicRemoveLr E s E.current j).2 = u at hremove hzero hinLrRemoved hints
  have hadd := (hremove.addSpilled hj hinLrRemoved hjn fun m hm => hm).yieldOwnership (i := j)
  refine ⟨_, hadd, ?_, ?_, ?_⟩
  · rw [vgicYieldOwnership_lr, vgicAddSpilled_lr, hzero]
    rfl
  · rw [vgicYieldOwnership_ints_ne (Ne.symm hji)]
    exact hints
  · rw [update_apply]
    split
    · rename_i heq
      rw [List.mem_append, List.mem_singleton]
      exact not_or.mpr ⟨heq ▸ hn, Ne.symm hji⟩
    · exact hn

/-- `vgic_add_lr` gives an interrupt that is in no place a place, if it is enabled. -/
theorem addLr (h : Housed E b X q s) (hi : Own E i) (howner : (s.ints i).owner = some E.current)
    (hinLr : (s.ints i).inLr = false)
    (hn : (s.ints i).enabled = true → i ∉ q (spilledHead E.current i))
    (hX : ∀ j, X j → Y j ∨ j = i) (hadd : vgicAddLr E s E.current i = some t) :
    ∃ q', Housed E b Y q' t := by
  cases vgicAddLr_step hadd with
  | refused guard =>
    have hdisabled : (s.ints i).enabled = false := by
      apply guard.resolve_right
      rw [hinLr]
      exact Bool.false_ne_true
    refine ⟨q, { h with due := fun hb j hj hY hdue => ?_ }⟩
    by_cases hji : j = i
    · subst hji
      unfold Due at hdue
      split at hdue
      · rename_i hsgi
        exact absurd (hdisabled.symm.trans (h.enabled hb j hsgi)) Bool.false_ne_true
      · exact absurd (hdisabled.symm.trans hdue.1) Bool.false_ne_true
    · exact h.due hb j hj (fun hjX => (hX j hjX).elim hY hji) hdue
  | placed k enabled _ free =>
    obtain ⟨hlt, hfree⟩ := findLr_eq_some free
    exact ⟨q, h.writeLr hi howner hinLr (hn enabled) hlt hfree hX⟩
  | evicted k u enabled _ search spill =>
    obtain ⟨hlt, hne⟩ := spillSearch_eq_some search
    obtain ⟨q', hu, hfree, hint, hn'⟩ := h.spillLr hne hi hinLr (hn enabled) spill
    exact ⟨q', hu.writeLr hi (hint ▸ howner) (hint ▸ hinLr) hn' hlt hfree hX⟩
  | spilled enabled => exact ⟨_, h.addSpilled hi hinLr (hn enabled) hX⟩

end Housed

end Avisor
