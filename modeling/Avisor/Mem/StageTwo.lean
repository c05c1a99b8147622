import Avisor.Mem.PageTables
import Avisor.Sched.State
import Mathlib.Tactic.IntervalCases

/-!
# The configuration of stage 2

`vmm_arch_init_tcr` runs on one pCPU after the other. Each lowers the running minimum of the physical
address ranges, edits the descriptor that all VMs share in place, and writes its own `VTCR_EL2`.
-/

namespace Avisor

open Function

/-- `parange_table`. -/
def parangeTable : List Nat := [32, 36, 40, 42, 44, 48]

/-- The `struct page_table_dscr` behind `vm_pt_dscr`, while it is still edited. -/
structure VmPtDscr where
  lvls : Nat
  lvlWdt : Nat → Nat
  lvlOff : Nat → Nat
  lvlTerm : Nat → Bool

/-- `armv8_pt_s2_dscr` as it is loaded. -/
def armv8PtS2DscrLoaded : VmPtDscr where
  lvls := 4
  lvlWdt := armv8LvlWdt
  lvlOff := armv8LvlOff
  lvlTerm := armv8LvlTerm

/-- The statics of `vmm_arch_init_tcr` and what it changes outside; `vtcrEl2` is a register of each
pCPU. -/
structure TcrState where
  minParange : Nat
  parange : Nat
  vmPtDscr : VmPtDscr
  vtcrEl2 : PCpuId → BitVec 64

/-- The state before the first pCPU gets there. -/
def tcrBoot : TcrState where
  minParange := 0b111
  parange := 0
  vmPtDscr := armv8PtS2DscrLoaded
  vtcrEl2 := fun _ => 0

/-! ### The register -/

/-- `VTCR_RES1`. -/
def vtcrRes1 : BitVec 64 := 1 <<< 31

/-- `VTCR_PS_OFF`. -/
def vtcrPsOff : Nat := 16

/-- `VTCR_PS_MSK`. -/
def vtcrPsMsk : BitVec 64 := 0x7 <<< vtcrPsOff

/-- `VTCR_TG0_4K`. -/
def vtcrTg04k : BitVec 64 := 0 <<< 14

/-- `VTCR_ORGN0_WB_RA_WA`. -/
def vtcrOrgn0WbRaWa : BitVec 64 := 1 <<< 10

/-- `VTCR_IRGN0_WB_RA_WA`. -/
def vtcrIrgn0WbRaWa : BitVec 64 := 1 <<< 8

/-- `VTCR_SH0_IS`. -/
def vtcrSh0Is : BitVec 64 := 3 <<< 12

/-- `VTCR_T0SZ`; `TCR_T0SZ_OFF` is 0. -/
def vtcrT0sz (sz : Nat) : BitVec 64 := BitVec.ofNat 64 sz &&& 0x1f

/-- `VTCR_SL0_12`: the first lookup is at level 1. -/
def vtcrSl012 : BitVec 64 := (0x1 <<< 6) &&& 0xc0

/-- `VTCR_SL0_01`: the first lookup is at level 0. -/
def vtcrSl001 : BitVec 64 := (0x2 <<< 6) &&& 0xc0

/-- The value that `vmm_arch_init_tcr` writes, with `bits` being `parange_table[parange]`. -/
def vtcrValue (parange bits : Nat) : BitVec 64 :=
  vtcrRes1 ||| ((BitVec.ofNat 64 parange <<< vtcrPsOff) &&& vtcrPsMsk) |||
    vtcrTg04k ||| vtcrOrgn0WbRaWa ||| vtcrIrgn0WbRaWa |||
    vtcrT0sz (64 - bits) ||| vtcrSh0Is |||
    (if bits < 44 then vtcrSl012 else vtcrSl001)

/-- The field `T0SZ`, all bits below `SL0`. -/
def t0szField (vtcr : BitVec 64) : Nat := (vtcr &&& 0x3f).toNat

/-- The level of the first lookup, by the field `SL0` for 4K pages. -/
def startLevel (vtcr : BitVec 64) : Nat := 2 - ((vtcr >>> 6) &&& 3).toNat

/-! ### The initialisation -/

/-- The body of the loop that drops the first level. -/
def shiftLevel (d : VmPtDscr) (i : Nat) : VmPtDscr :=
  { d with
    lvlWdt := update d.lvlWdt i (d.lvlWdt (i + 1))
    lvlOff := update d.lvlOff i (d.lvlOff (i + 1))
    lvlTerm := update d.lvlTerm i (d.lvlTerm (i + 1)) }

/-- One shift of the descriptor. Without a level left the bound `lvls - 1` of the loop wraps around, and
it runs out of the arrays. -/
def shiftDscr (d : VmPtDscr) (bits : Nat) : Option VmPtDscr :=
  if d.lvls = 0 then none
  else
    let d := (List.range (d.lvls - 1)).foldl shiftLevel d
    some { d with lvlWdt := update d.lvlWdt 0 bits, lvls := d.lvls - 1 }

/-- `ID_AA64MMFR0_EL1`, its field `PARange`. -/
def parangeField (mmfr0 : BitVec 64) : Nat := (mmfr0 &&& 0xf).toNat

/-- `vmm_arch_init_tcr` on pCPU `c`; `none` where it reads behind the end of `parange_table` or of the
descriptor's arrays. -/
def vmmArchInitTcr (mmfr0 : PCpuId → BitVec 64) (s : TcrState) (c : PCpuId) : Option TcrState :=
  let tempParange := parangeField (mmfr0 c)
  let minParange := if tempParange < s.minParange then tempParange else s.minParange
  parangeTable[minParange]?.bind fun bits =>
    (if bits < 44 then shiftDscr s.vmPtDscr bits else some s.vmPtDscr).map fun dscr =>
      { minParange := minParange
        parange := minParange
        vmPtDscr := dscr
        vtcrEl2 := update s.vtcrEl2 c (vtcrValue minParange bits) }

/-- The pCPUs of `order` initialise stage 2 one after the other. -/
def tcrRun (mmfr0 : PCpuId → BitVec 64) : TcrState → List PCpuId → Option TcrState
  | s, [] => some s
  | s, c :: order => (vmmArchInitTcr mmfr0 s c).bind fun s => tcrRun mmfr0 s order

/-- The descriptor that an address range of `bits` bits needs. -/
def stageTwoDscr (bits : Nat) : Option VmPtDscr :=
  if bits < 44 then shiftDscr armv8PtS2DscrLoaded bits else some armv8PtS2DscrLoaded

/-- The register starts at the first level of the descriptor, and translates the addresses of `bits`
bits. -/
structure VtcrMatches (dscr : VmPtDscr) (bits : Nat) (vtcr : BitVec 64) : Prop where
  level : startLevel vtcr + dscr.lvls = 4
  size : t0szField vtcr + bits = 64

/-- What the pCPUs of `order` leave does not depend on their number and order. -/
def StageTwoConfigured (mmfr0 : PCpuId → BitVec 64) (order : List PCpuId) : Prop :=
  ∃ t bits, tcrRun mmfr0 tcrBoot order = some t ∧
    (∀ c ∈ order, t.parange ≤ parangeField (mmfr0 c)) ∧
    (∃ c ∈ order, t.parange = parangeField (mmfr0 c)) ∧
    parangeTable[t.parange]? = some bits ∧ stageTwoDscr bits = some t.vmPtDscr ∧
    ∀ c ∈ order, VtcrMatches t.vmPtDscr bits (t.vtcrEl2 c)

/-- Only the range of the first pCPU counts: it is in the table, not the smallest one there, and not above
any other; below 44 bits there is no other pCPU. -/
def FirstSuffices (mmfr0 : PCpuId → BitVec 64) (order : List PCpuId) : Prop :=
  ∃ c rest, order = c :: rest ∧ 0 < parangeField (mmfr0 c) ∧ parangeField (mmfr0 c) ≤ 5 ∧
    (∀ c' ∈ rest, parangeField (mmfr0 c) ≤ parangeField (mmfr0 c')) ∧
    (rest = [] ∨ 4 ≤ parangeField (mmfr0 c))

variable {mmfr0 : PCpuId → BitVec 64} {order : List PCpuId} {s t : TcrState} {c : PCpuId}
  {d : VmPtDscr} {bits m : Nat}

/-! ### The descriptor -/

/-- The loop moves each of the levels it reaches to the front. -/
theorem foldl_shiftLevel (d : VmPtDscr) (n : Nat) :
    (List.range n).foldl shiftLevel d =
      { d with
        lvlWdt := fun l => if l < n then d.lvlWdt (l + 1) else d.lvlWdt l
        lvlOff := fun l => if l < n then d.lvlOff (l + 1) else d.lvlOff l
        lvlTerm := fun l => if l < n then d.lvlTerm (l + 1) else d.lvlTerm l } := by
  induction n with
  | zero => simp
  | succ n ih =>
    have hupdate {α : Type} (f : Nat → α) :
        update (fun l => if l < n then f (l + 1) else f l) n (f (n + 1)) =
          fun l => if l < n + 1 then f (l + 1) else f l := by
      funext l
      by_cases hl : l = n
      · subst hl
        simp
      · rw [update_of_ne hl]
        simp only [show l < n + 1 ↔ l < n by omega]
    have hread {α : Type} (f : Nat → α) :
        (if n + 1 < n then f (n + 1 + 1) else f (n + 1)) = f (n + 1) := if_neg (by omega)
    rw [List.range_succ, List.foldl_append, ih]
    simp only [List.foldl_cons, List.foldl_nil, shiftLevel, hread, hupdate]

theorem shiftDscr_lvls {d' : VmPtDscr} (h : shiftDscr d bits = some d') : d'.lvls + 1 = d.lvls := by
  unfold shiftDscr at h
  split at h
  · cases h
  · rename_i hlvls
    cases h
    rw [foldl_shiftLevel]
    exact Nat.succ_pred hlvls

/-- The descriptor the VMs get is the one their page tables are read by. -/
theorem stageTwoDscr_eq (hd : stageTwoDscr bits = some d) (h : 30 < bits) (hle : bits ≤ 48) :
    ∃ dscr : PtDscr, (dscr = armv8PtDscr ∨ dscr = armv8PtS2Dscr bits h hle) ∧
      d.lvls = dscr.lvls ∧ ∀ l < dscr.lvls, d.lvlWdt l = dscr.lvlWdt l ∧
        d.lvlOff l = dscr.lvlOff l ∧ d.lvlTerm l = dscr.lvlTerm l := by
  unfold stageTwoDscr at hd
  split at hd
  · have hdscr : shiftDscr armv8PtS2DscrLoaded bits = some
        { (List.range 3).foldl shiftLevel armv8PtS2DscrLoaded with
          lvlWdt := update ((List.range 3).foldl shiftLevel armv8PtS2DscrLoaded).lvlWdt 0 bits
          lvls := 3 } := rfl
    rw [hdscr, foldl_shiftLevel] at hd
    cases hd
    refine ⟨_, .inr rfl, rfl, fun l hl => ?_⟩
    have hl3 : l < 3 := hl
    refine ⟨?_, if_pos hl3, if_pos hl3⟩
    cases l with
    | zero => rfl
    | succ l =>
      simp only [update_of_ne (Nat.succ_ne_zero l), if_pos hl3]
      rfl
  · cases hd
    exact ⟨_, .inl rfl, rfl, fun _ _ => ⟨rfl, rfl, rfl⟩⟩

/-! ### The register -/

theorem parangeTable_isSome : (∃ bits, parangeTable[m]? = some bits) ↔ m ≤ 5 := by
  constructor
  · rintro ⟨bits, h⟩
    exact Nat.lt_succ_iff.mp (List.getElem?_eq_some_iff.mp h).1
  · exact fun h => ⟨_, List.getElem?_eq_getElem (Nat.lt_succ_iff.mpr h)⟩

/-- The ranges of the table. -/
theorem parangeTable_cases (h : parangeTable[m]? = some bits) :
    (m, bits) ∈ [(0, 32), (1, 36), (2, 40), (3, 42), (4, 44), (5, 48)] := by
  have hm : m ≤ 5 := parangeTable_isSome.mp ⟨bits, h⟩
  interval_cases m <;> cases h <;> simp

theorem parangeTable_lt_44 (h : parangeTable[m]? = some bits) : bits < 44 ↔ m < 4 := by
  have hcases := parangeTable_cases h
  simp only [List.mem_cons, Prod.mk.injEq, List.not_mem_nil, or_false] at hcases
  omega

/-- The size that is written fits another range of the table only if it is the same one, and the smallest
one never. -/
theorem t0szField_vtcrValue {m' bits' : Nat} (h : parangeTable[m]? = some bits)
    (h' : parangeTable[m']? = some bits') :
    t0szField (vtcrValue m bits) + bits' = 64 ↔ m = m' ∧ 0 < m := by
  have hm := parangeTable_isSome.mp ⟨bits, h⟩
  have hm' := parangeTable_isSome.mp ⟨bits', h'⟩
  interval_cases m <;> interval_cases m' <;> cases h <;> cases h' <;> decide

theorem startLevel_vtcrValue (h : parangeTable[m]? = some bits) :
    startLevel (vtcrValue m bits) = if bits < 44 then 1 else 0 := by
  have hm := parangeTable_isSome.mp ⟨bits, h⟩
  interval_cases m <;> cases h <;> decide

/-! ### One pCPU -/

theorem vmmArchInitTcr_eq_some (h : vmmArchInitTcr mmfr0 s c = some t) :
    ∃ bits dscr, parangeTable[min (parangeField (mmfr0 c)) s.minParange]? = some bits ∧
      (if bits < 44 then shiftDscr s.vmPtDscr bits else some s.vmPtDscr) = some dscr ∧
      t = { minParange := min (parangeField (mmfr0 c)) s.minParange
            parange := min (parangeField (mmfr0 c)) s.minParange
            vmPtDscr := dscr
            vtcrEl2 := update s.vtcrEl2 c
              (vtcrValue (min (parangeField (mmfr0 c)) s.minParange) bits) } := by
  have hmin : (if parangeField (mmfr0 c) < s.minParange then parangeField (mmfr0 c)
      else s.minParange) = min (parangeField (mmfr0 c)) s.minParange := by
    split <;> omega
  unfold vmmArchInitTcr at h
  simp only [hmin] at h
  obtain ⟨bits, hbits, h⟩ := Option.bind_eq_some_iff.mp h
  obtain ⟨dscr, hdscr, rfl⟩ := Option.map_eq_some_iff.mp h
  exact ⟨bits, dscr, hbits, hdscr, rfl⟩

/-- A pCPU that does not run writes no register. -/
theorem tcrRun_vtcrEl2 (h : tcrRun mmfr0 s order = some t) (hc : c ∉ order) :
    t.vtcrEl2 c = s.vtcrEl2 c := by
  induction order generalizing s with
  | nil =>
    cases h
    rfl
  | cons c' order ih =>
    obtain ⟨u, hu, h⟩ := Option.bind_eq_some_iff.mp h
    obtain ⟨bits, dscr, -, -, rfl⟩ := vmmArchInitTcr_eq_some hu
    rw [ih h (List.not_mem_of_not_mem_cons hc)]
    exact update_of_ne (List.ne_of_not_mem_cons hc) ..

/-- Below 44 bits each pCPU drops a level. -/
theorem tcrRun_lvls (h : tcrRun mmfr0 s order = some t) (hmin : s.minParange < 4) :
    t.vmPtDscr.lvls + order.length = s.vmPtDscr.lvls := by
  induction order generalizing s with
  | nil =>
    cases h
    rfl
  | cons c order ih =>
    obtain ⟨u, hu, h⟩ := Option.bind_eq_some_iff.mp h
    obtain ⟨bits, dscr, hbits, hdscr, rfl⟩ := vmmArchInitTcr_eq_some hu
    have hlt : min (parangeField (mmfr0 c)) s.minParange < 4 := by omega
    rw [if_pos ((parangeTable_lt_44 hbits).mpr hlt)] at hdscr
    have hrest := ih h hlt
    have hlvls := shiftDscr_lvls hdscr
    simp only at hrest
    rw [List.length_cons]
    omega

/-- Where no range is below the minimum so far, and that is 44 bits or more, the pCPUs only write their
registers. -/
theorem tcrRun_of_le (hbits : parangeTable[s.minParange]? = some bits) (hge : 4 ≤ s.minParange)
    (hparange : s.parange = s.minParange) (h : ∀ c ∈ order, s.minParange ≤ parangeField (mmfr0 c)) :
    tcrRun mmfr0 s order = some { s with
      vtcrEl2 := fun c => if c ∈ order then vtcrValue s.minParange bits else s.vtcrEl2 c } := by
  induction order generalizing s with
  | nil => simp [tcrRun]
  | cons c order ih =>
    have hmin : (if parangeField (mmfr0 c) < s.minParange then parangeField (mmfr0 c)
        else s.minParange) = s.minParange := if_neg (by have := h c List.mem_cons_self; omega)
    have hlt : ¬ bits < 44 := by
      rw [parangeTable_lt_44 hbits]
      omega
    have hstep : vmmArchInitTcr mmfr0 s c = some
        { s with vtcrEl2 := update s.vtcrEl2 c (vtcrValue s.minParange bits) } := by
      unfold vmmArchInitTcr
      simp only [hmin, hbits, Option.bind_some, if_neg hlt, Option.map_some]
      rw [← hparange]
    have hrest := ih (s := { s with vtcrEl2 := update s.vtcrEl2 c (vtcrValue s.minParange bits) })
      hbits hge hparange fun c' hc' => h c' (List.mem_cons_of_mem _ hc')
    rw [tcrRun, hstep, Option.bind_some]
    refine hrest.trans ?_
    congr 2
    funext c'
    by_cases hc : c' = c
    · subst hc
      simp
    · simp [hc]

/-! ### All pCPUs -/

theorem stageTwoDscr_isSome (bits : Nat) : ∃ d, stageTwoDscr bits = some d := by
  unfold stageTwoDscr
  split
  · exact ⟨_, if_neg (by decide)⟩
  · exact ⟨_, rfl⟩

theorem stageTwoDscr_lvls (h : stageTwoDscr bits = some d) :
    d.lvls = if bits < 44 then 3 else 4 := by
  unfold stageTwoDscr at h
  split at h
  · rename_i hlt
    rw [if_pos hlt]
    exact Nat.succ.inj (shiftDscr_lvls h)
  · rename_i hlt
    cases h
    exact (if_neg hlt).symm

/-- The register written for a range of the table matches the descriptor for that range, unless it is the
smallest one. -/
theorem vtcrMatches_vtcrValue (hbits : parangeTable[m]? = some bits) (hm : 0 < m)
    (hd : stageTwoDscr bits = some d) : VtcrMatches d bits (vtcrValue m bits) := by
  constructor
  · rw [startLevel_vtcrValue hbits, stageTwoDscr_lvls hd]
    split <;> rfl
  · exact (t0szField_vtcrValue hbits hbits).mpr ⟨rfl, hm⟩

/-- The first pCPU gives all values that the condition allows. -/
theorem FirstSuffices.configured (h : FirstSuffices mmfr0 order) : StageTwoConfigured mmfr0 order := by
  obtain ⟨c, rest, rfl, hpos, hle, hmin, hrest⟩ := h
  obtain ⟨bits, hbits⟩ := parangeTable_isSome.mpr hle
  obtain ⟨d, hd⟩ := stageTwoDscr_isSome bits
  let u : TcrState := { minParange := parangeField (mmfr0 c), parange := parangeField (mmfr0 c),
                        vmPtDscr := d,
                        vtcrEl2 := update tcrBoot.vtcrEl2 c
                          (vtcrValue (parangeField (mmfr0 c)) bits) }
  have hfirst : vmmArchInitTcr mmfr0 tcrBoot c = some u := by
    have hlt : parangeField (mmfr0 c) < tcrBoot.minParange := Nat.lt_of_le_of_lt hle (by decide)
    have hdscr : (if bits < 44 then shiftDscr tcrBoot.vmPtDscr bits else some tcrBoot.vmPtDscr) =
        some d := hd
    unfold vmmArchInitTcr
    simp only [if_pos hlt, hbits, Option.bind_some, hdscr, Option.map_some, u]
  have hothers : ∃ t, tcrRun mmfr0 u rest = some t ∧ t.parange = u.parange ∧
      t.vmPtDscr = u.vmPtDscr ∧ ∀ c' ∈ c :: rest,
        t.vtcrEl2 c' = vtcrValue (parangeField (mmfr0 c)) bits := by
    rcases hrest with rfl | hge
    · refine ⟨u, rfl, rfl, rfl, fun c' hc' => ?_⟩
      rw [List.mem_singleton.mp hc']
      exact update_self ..
    · refine ⟨_, tcrRun_of_le (s := u) hbits hge rfl hmin, rfl, rfl, fun c' hc' => ?_⟩
      by_cases hc : c' ∈ rest
      · exact if_pos hc
      · obtain rfl := (List.mem_cons.mp hc').resolve_right hc
        exact (if_neg hc).trans (update_self ..)
  obtain ⟨t, hrun, hparange, hdscr, hvtcr⟩ := hothers
  have hparange' : t.parange = parangeField (mmfr0 c) := hparange
  have hdscr' : t.vmPtDscr = d := hdscr
  refine ⟨t, bits, ?_, ?_, ⟨c, List.mem_cons_self, hparange'⟩, ?_, ?_, ?_⟩
  · rw [tcrRun, hfirst]
    exact hrun
  · intro c' hc'
    rw [hparange']
    rcases List.mem_cons.mp hc' with rfl | hc'
    · exact Nat.le_refl _
    · exact hmin c' hc'
  · rw [hparange']
    exact hbits
  · rw [hdscr']
    exact hd
  · intro c' hc'
    rw [hdscr', hvtcr c' hc']
    exact vtcrMatches_vtcrValue hbits hpos hd

/-- The pCPUs, each running once, leave the configuration of their smallest range exactly if the first of
them decides it. -/
theorem stageTwoConfigured_iff (hnodup : order.Nodup) :
    StageTwoConfigured mmfr0 order ↔ FirstSuffices mmfr0 order := by
  refine ⟨?_, FirstSuffices.configured⟩
  rintro ⟨t, bits, hrun, hall, ⟨c₀, hc₀, -⟩, hbits, hd, hvtcr⟩
  cases order with
  | nil => cases hc₀
  | cons c rest =>
    obtain ⟨u, hu, hothers⟩ := Option.bind_eq_some_iff.mp hrun
    obtain ⟨bits₁, d₁, hbits₁, hd₁, rfl⟩ := vmmArchInitTcr_eq_some hu
    -- the first pCPU wrote its register before the others ran
    have hreg := hvtcr c List.mem_cons_self
    rw [tcrRun_vtcrEl2 hothers (List.nodup_cons.mp hnodup).1] at hreg
    simp only [update_self] at hreg
    obtain ⟨hsame, hpos⟩ := (t0szField_vtcrValue hbits₁ hbits).mp hreg.size
    have hle := parangeTable_isSome.mp ⟨bits₁, hbits₁⟩
    have hboot : tcrBoot.minParange = 7 := rfl
    have hfirst : min (parangeField (mmfr0 c)) tcrBoot.minParange = parangeField (mmfr0 c) := by
      omega
    rw [hfirst] at hsame hpos hle hothers
    refine ⟨c, rest, rfl, hpos, hle, fun c' hc' => ?_, ?_⟩
    · rw [hsame]
      exact hall c' (List.mem_cons_of_mem c hc')
    · rcases Nat.lt_or_ge (parangeField (mmfr0 c)) 4 with hlt | hge
      · have hshift : bits < 44 := by
          rw [parangeTable_lt_44 hbits, ← hsame]
          exact hlt
        have hlvls := stageTwoDscr_lvls hd
        rw [if_pos hshift] at hlvls
        have hdropped := tcrRun_lvls hothers hlt
        have hd₁lvls : d₁.lvls + 1 = 4 := by
          rw [hfirst] at hbits₁
          rw [if_pos ((parangeTable_lt_44 hbits₁).mpr hlt)] at hd₁
          exact shiftDscr_lvls hd₁
        refine .inl (List.length_eq_zero_iff.mp ?_)
        simp only at hdropped
        omega
      · exact .inr hge

/-- Two pCPUs of 44 and 48 bits. -/
theorem stageTwoConfigured_two :
    StageTwoConfigured (fun c => if c = 0 then 4 else 5) [0, 1] ↔
      FirstSuffices (fun c => if c = 0 then 4 else 5) [0, 1] :=
  stageTwoConfigured_iff (by decide)

/-- Two pCPUs of 40 bits drop two levels. -/
theorem stageTwo_dropped : ¬ StageTwoConfigured (fun _ => 2) [0, 1] := by
  rintro ⟨t, bits, hrun, -, -, hbits, hd, -⟩
  obtain ⟨u, hu, hlvls, hparange⟩ : ∃ u, tcrRun (fun _ => 2) tcrBoot [0, 1] = some u ∧
      u.vmPtDscr.lvls = 2 ∧ u.parange = 2 := ⟨_, rfl, rfl, rfl⟩
  obtain rfl : t = u := Option.some.inj (hrun.symm.trans hu)
  rw [hparange] at hbits
  cases hbits
  have hthree := stageTwoDscr_lvls hd
  rw [hlvls] at hthree
  exact absurd hthree (by decide)

end Avisor
