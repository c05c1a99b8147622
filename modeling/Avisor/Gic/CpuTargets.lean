import Avisor.Gic.Distributor

/-!
# CPU interfaces of a GICv2

`gicc_init` learns which of the eight interfaces a CPU has, and `gic_send_sgi` and `gicd_set_trgt` name the CPUs by
what it noted. It notes the number of the interface plus one: every SGI and every shared interrupt goes to the
interface behind the one it is meant for. `bit32_ffs` returns `-1` for a CPU without an interface, and plus one
that is 0, so the test for a negative number never holds.
-/

namespace Avisor

open Function

/-- `GIC_MAX_TARGETS`. -/
def gicMaxTargets : Nat := gicTargetBits

/-- `struct gicc_hw`, as far as `gicc_init` writes it. -/
structure GiccHw where
  ctlr : BitVec 32
  pmr : BitVec 32

/-- `struct gich_hw`, as far as `gicc_init` uses it. -/
structure GichHw where
  hcr : BitVec 32
  vtr : BitVec 32
  lr : Nat → BitVec 32

/-- The GICv2 with `gic_cpu_map`. Each CPU has a CPU interface and a `GICD_ITARGETSR0` of its own. -/
structure GicV2 where
  gicd : GicdHw
  itargetsr0 : Nat → BitVec 32
  gicc : Nat → GiccHw
  gich : Nat → GichHw
  gicCpuMap : Nat → Nat

/-- `gich_num_lrs`. -/
def gichNumLrs (gich : GichHw) : Nat := ((gich.vtr &&& bit32Mask 0 6) >>> 0).toNat + 1

/-- `gicc_init` on the CPU `cpu`; `none` is the branch of its `ERROR`. -/
def giccInit (g : GicV2) (cpu : Nat) : Option GicV2 :=
  let gich := { g.gich cpu with
    lr := fun i => if i < gichNumLrs (g.gich cpu) then 0 else (g.gich cpu).lr i
    -- `GICH_HCR_LRENPIE_BIT`
    hcr := (g.gich cpu).hcr ||| 0x4 }
  -- `GIC_LOWEST_PRIO`, and `GICC_CTLR_EN_BIT | GICC_CTLR_EOImodeNS_BIT`
  let gicc := { pmr := 0xff, ctlr := (g.gicc cpu).ctlr ||| 0x201 }
  let sgiTargets := g.itargetsr0 cpu &&& bit32Mask 0 gicTargetBits
  let gicCpuId := (bit32Ffs sgiTargets + 1) % sizeT
  -- an `ssize_t` below zero
  if 2 ^ 63 ≤ gicCpuId then none
  else some { g with
    gicc := update g.gicc cpu gicc
    gich := update g.gich cpu gich
    gicCpuMap := update g.gicCpuMap cpu gicCpuId }

/-- `gicc_init` on the CPUs one after another. -/
def giccInitAll : List Nat → GicV2 → Option GicV2
  | [], g => some g
  | cpu :: order, g => (giccInit g cpu).bind (giccInitAll order)

/-- `gic_send_sgi`. -/
def gicSendSgi (g : GicV2) (cpuTarget sgiNum : Nat) : GicV2 :=
  if sgiNum < gicMaxSgis ∧ cpuTarget < gicMaxTargets then
    { g with gicd := { g.gicd with
        sgir := (1#64 <<< (16 + g.gicCpuMap cpuTarget) |||
          (BitVec.ofNat 64 sgiNum &&& (bit32Mask 0 4).setWidth 64)).setWidth 32 } }
  else g

/-- The loop of `gic_translate_cpu_to_trgt`: `left` CPUs from `i` on are left. -/
def gicTranslateLoop (gicCpuMap : Nat → Nat) (cpuTargets : BitVec 8) : Nat → Nat → BitVec 8 → BitVec 8
  | 0, _, gicTargets => gicTargets
  | left + 1, i, gicTargets =>
    if (1#32 <<< i) &&& cpuTargets.setWidth 32 ≠ 0 then
      gicTranslateLoop gicCpuMap cpuTargets left (i + 1)
        (gicTargets ||| (1#32 <<< gicCpuMap i).setWidth 8)
    else gicTranslateLoop gicCpuMap cpuTargets left (i + 1) gicTargets

/-- `gic_translate_cpu_to_trgt`. -/
def gicTranslateCpuToTrgt (g : GicV2) (cpuTargets : BitVec 8) : BitVec 8 :=
  gicTranslateLoop g.gicCpuMap cpuTargets gicMaxTargets 0 0

/-- `gicd_set_trgt`. -/
def gicdSetTrgt (g : GicV2) (intId : Nat) (cpuTargets : BitVec 8) : GicV2 :=
  { g with gicd := { g.gicd with
      itargetsr := update g.gicd.itargetsr (gicTargetReg intId)
        (putField (g.gicd.itargetsr (gicTargetReg intId)) ((gicTranslateCpuToTrgt g cpuTargets).setWidth 32)
          (gicTargetOff intId) gicTargetBits) } }

/-! ### What they are for -/

/-- The interfaces of the `n` CPUs that are booted, different ones. -/
structure Wiring (n : Nat) where
  interface : Nat → Nat
  cpus_le : n ≤ gicMaxTargets
  lt : ∀ c < n, interface c < gicMaxTargets
  inj : ∀ c < n, ∀ d < n, interface c = interface d → c = d

variable {n : Nat} (w : Wiring n)

/-- A CPU reads only its own interface's bit in its `GICD_ITARGETSR0`. -/
def Wiring.Reads (g : GicV2) : Prop :=
  ∀ c < n, ∀ b < gicTargetBits, (g.itargetsr0 c).getLsbD b = decide (b = w.interface c)

/-- What is asked of the functions. -/
inductive TargetUse where
  /-- `gic_send_sgi(cpu, num)` -/
  | sgi (cpu num : Nat)
  /-- `gicd_set_trgt(id, cpus)` -/
  | trgt (id : Nat) (cpus : BitVec 8)
  /-- `gicc_init` on a CPU -/
  | init (cpu : Nat)

/-- The CPUs are booted, the SGI is one, and the CPU that is initialised has no interface. -/
def TargetUse.Valid (n : Nat) (g : GicV2) : TargetUse → Prop
  | .sgi cpu num => cpu < n ∧ num < gicMaxSgis
  | .trgt _ cpus => ∀ c, cpus.getLsbD c = true → c < n
  | .init cpu => ∀ b < gicTargetBits, (g.itargetsr0 cpu).getLsbD b = false

/-- The SGI is sent to the interface of the CPU only; the interrupt's byte has the interfaces of the CPUs and the
other bytes stay; the missing interface is an error. -/
def TargetUse.Reaches (g : GicV2) : TargetUse → Prop
  | .sgi cpu num =>
    let sgir := (gicSendSgi g cpu num).gicd.sgir
    (∀ b < gicTargetBits, (bit32Extract sgir 16 8).getLsbD b = decide (b = w.interface cpu)) ∧
      bit32Extract sgir 24 2 = 0 ∧ bit32Extract sgir 0 4 = BitVec.ofNat 32 num
  | .trgt id cpus =>
    (∀ b < gicTargetBits, (byteOf (gicdSetTrgt g id cpus).gicd.itargetsr id).getLsbD b = true ↔
        ∃ c, cpus.getLsbD c = true ∧ w.interface c = b) ∧
      ∀ id', id' ≠ id → byteOf (gicdSetTrgt g id cpus).gicd.itargetsr id' = byteOf g.gicd.itargetsr id'
  | .init cpu => giccInit g cpu = none

/-! ### The table -/

variable {w} {g g' : GicV2} {c cpu id num i b : Nat} {order : List Nat} {cpus acc : BitVec 8}

theorem getLsbD_sgiTargets (hb : b < 32) (word : BitVec 32) :
    (word &&& bit32Mask 0 gicTargetBits).getLsbD b = (decide (b < gicTargetBits) && word.getLsbD b) := by
  rw [BitVec.getLsbD_and, getLsbD_bit32Mask (by decide) (by decide) hb, Bool.and_comm]
  simp

/-- What a booted CPU notes: its interface plus one. -/
theorem giccInit_eq (hreads : w.Reads g) (hc : c < n) : ∃ g', giccInit g c = some g' ∧
    g'.gicCpuMap = update g.gicCpuMap c (w.interface c + 1) ∧ g'.itargetsr0 = g.itargetsr0 ∧
      g'.gicd = g.gicd := by
  have hlt := w.lt c hc
  simp only [gicMaxTargets, gicTargetBits] at hlt
  have hffs : bit32Ffs (g.itargetsr0 c &&& bit32Mask 0 gicTargetBits) = w.interface c := by
    apply bit32Ffs_of_first (by omega)
    · rw [getLsbD_sgiTargets (by omega), hreads c hc _ (w.lt c hc)]
      simp [gicTargetBits, hlt]
    · intro j hj
      have hj' : j < gicTargetBits := by
        rw [gicTargetBits]
        omega
      rw [getLsbD_sgiTargets (by omega), hreads c hc j hj', decide_eq_false (Nat.ne_of_lt hj), Bool.and_false]
  have hid : (w.interface c + 1) % sizeT = w.interface c + 1 := Nat.mod_eq_of_lt (by rw [sizeT]; omega)
  unfold giccInit
  dsimp only
  rw [hffs, hid, if_neg (by omega)]
  exact ⟨_, rfl, rfl, rfl, rfl⟩

/-- A CPU without an interface is no error. -/
theorem giccInit_ne_none (hnone : ∀ b < gicTargetBits, (g.itargetsr0 cpu).getLsbD b = false) :
    giccInit g cpu ≠ none := by
  have hzero : g.itargetsr0 cpu &&& bit32Mask 0 gicTargetBits = 0 := by
    apply BitVec.eq_of_getLsbD_eq
    intro k hk
    rw [getLsbD_sgiTargets hk]
    by_cases hk' : k < gicTargetBits
    · rw [hnone k hk', Bool.and_false]
      exact BitVec.getLsbD_zero.symm
    · rw [decide_eq_false hk', Bool.false_and]
      exact BitVec.getLsbD_zero.symm
  have hffs : (bit32Ffs (0 : BitVec 32) + 1) % sizeT = 0 := by decide
  unfold giccInit
  dsimp only
  rw [hzero, hffs, if_neg (by decide)]
  exact Option.some_ne_none _

/-- The CPUs boot in any order, and all of them note their interface plus one. -/
theorem giccInitAll_eq (hreads : w.Reads g) (horder : ∀ c ∈ order, c < n) : ∃ g', giccInitAll order g = some g' ∧
    (∀ c, c ∈ order → g'.gicCpuMap c = w.interface c + 1) ∧
      (∀ c, c ∉ order → g'.gicCpuMap c = g.gicCpuMap c) := by
  induction order generalizing g with
  | nil => exact ⟨g, rfl, fun c hc => absurd hc List.not_mem_nil, fun _ _ => rfl⟩
  | cons cpu order ih =>
    obtain ⟨g₁, hinit, hmap, htargets, -⟩ := giccInit_eq hreads (horder cpu List.mem_cons_self)
    have hreads₁ : w.Reads g₁ := fun c hc b hb => by rw [htargets]; exact hreads c hc b hb
    obtain ⟨g', hall, hin, hout⟩ := ih hreads₁ fun c hc => horder c (List.mem_cons_of_mem cpu hc)
    refine ⟨g', by rw [giccInitAll, hinit]; exact hall, ?_, ?_⟩
    · intro c hc
      by_cases hmem : c ∈ order
      · exact hin c hmem
      · obtain rfl : c = cpu := (List.mem_cons.mp hc).resolve_right hmem
        rw [hout c hmem, hmap, update_self]
    · intro c hc
      obtain ⟨hne, hmem⟩ := not_or.mp (mt List.mem_cons.mpr hc)
      rw [hout c hmem, hmap, update_of_ne hne]

/-! ### What is reached -/

/-- The bit an SGI for the CPU should have in its register is not set. -/
theorem sgir_clear (hcpu : cpu < gicMaxTargets) (hnum : num < gicMaxSgis) (hb : b < gicTargetBits)
    (hmap : g.gicCpuMap cpu = b + 1) :
    (bit32Extract (gicSendSgi g cpu num).gicd.sgir 16 8).getLsbD b = false := by
  rw [gicTargetBits] at hb
  rw [gicSendSgi, if_pos ⟨hnum, hcpu⟩, getLsbD_bit32Extract (by decide) (by decide) (by omega), hmap]
  rw [BitVec.getLsbD_setWidth, BitVec.getLsbD_or, BitVec.getLsbD_shiftLeft, BitVec.getLsbD_and,
    BitVec.getLsbD_setWidth, getLsbD_bit32Mask (by decide) (by decide) (by omega)]
  have hbelow : 16 + b < 16 + (b + 1) := by omega
  have hbehind : ¬16 + b < 4 := by omega
  simp [hbelow, hbehind]

/-- The interfaces that CPUs are translated to are the ones of the table. -/
theorem getLsbD_translateLoop (gicCpuMap : Nat → Nat) {left i : Nat} (hfit : i + left ≤ 8) (hb : b < 8) :
    (gicTranslateLoop gicCpuMap cpus left i acc).getLsbD b = true ↔ acc.getLsbD b = true ∨
      ∃ c, i ≤ c ∧ c < i + left ∧ cpus.getLsbD c = true ∧ gicCpuMap c = b := by
  induction left generalizing i acc with
  | zero =>
    rw [gicTranslateLoop]
    exact ⟨.inl, fun h => h.resolve_right fun ⟨c, hc, hc', _⟩ => by omega⟩
  | succ left ih =>
    have htest : (1#32 <<< i) &&& cpus.setWidth 32 ≠ 0 ↔ cpus.getLsbD i = true := by
      rw [bit32_and_bit (by omega), BitVec.getLsbD_setWidth, Bool.and_eq_true, decide_eq_true_eq]
      exact and_iff_right (by omega)
    have hnext : (∃ c, i ≤ c ∧ c < i + (left + 1) ∧ cpus.getLsbD c = true ∧ gicCpuMap c = b) ↔
        (cpus.getLsbD i = true ∧ gicCpuMap i = b) ∨
          ∃ c, i + 1 ≤ c ∧ c < i + 1 + left ∧ cpus.getLsbD c = true ∧ gicCpuMap c = b := by
      constructor
      · rintro ⟨c, hle, hlt, hc⟩
        rcases Nat.eq_or_lt_of_le hle with rfl | hle
        · exact .inl hc
        · exact .inr ⟨c, hle, by omega, hc⟩
      · rintro (hc | ⟨c, hle, hlt, hc⟩)
        · exact ⟨i, Nat.le_refl i, by omega, hc⟩
        · exact ⟨c, by omega, by omega, hc⟩
    rw [gicTranslateLoop, hnext]
    by_cases hset : cpus.getLsbD i = true
    · have hbit : (acc ||| (1#32 <<< gicCpuMap i).setWidth 8).getLsbD b = true ↔
          acc.getLsbD b = true ∨ gicCpuMap i = b := by
        rw [BitVec.getLsbD_or, BitVec.getLsbD_setWidth, getLsbD_bit (by omega), Bool.or_eq_true,
          Bool.and_eq_true, decide_eq_true_eq, decide_eq_true_eq, and_iff_right hb, eq_comm (a := b)]
      rw [if_pos (htest.mpr hset), ih (by omega), hbit, and_iff_right hset, or_assoc]
    · rw [if_neg (mt htest.mp hset), ih (by omega)]
      simp only [hset, false_and, false_or, Bool.false_eq_true]

theorem getLsbD_translate (hb : b < 8) : (gicTranslateCpuToTrgt g cpus).getLsbD b = true ↔
    ∃ c < 8, cpus.getLsbD c = true ∧ g.gicCpuMap c = b := by
  rw [gicTranslateCpuToTrgt, getLsbD_translateLoop _ (by decide) hb]
  simp [gicMaxTargets, gicTargetBits]

/-- The targets of an interrupt are written to its byte only. -/
theorem byteOf_setTrgt : byteOf (gicdSetTrgt g id cpus).gicd.itargetsr =
    update (byteOf g.gicd.itargetsr) id (gicTranslateCpuToTrgt g cpus) := by
  have hreg : gicTargetReg id = id / 4 := by
    rw [gicTargetReg, gicTargetBits]
    omega
  have hoff : gicTargetOff id = 8 * (id % 4) := by
    rw [gicTargetOff, gicTargetBits]
    omega
  have hwidth (x : BitVec 8) : (x.setWidth 32).setWidth 8 = x := BitVec.setWidth_setWidth_of_le x (by omega)
  rw [gicdSetTrgt]
  dsimp only
  rw [hreg, hoff, gicTargetBits, byteOf_update, hwidth]

/-- After all CPUs have booted, none of the functions reaches the CPUs it is meant for; only no CPU at all is
translated to no interface. -/
theorem reaches_iff {g₀ : GicV2} (hreads : w.Reads g₀) (horder : ∀ c, c ∈ order ↔ c < n)
    (hboot : giccInitAll order g₀ = some g) {u : TargetUse} (hu : u.Valid n g) :
    u.Reaches w g ↔ ∃ id, u = .trgt id 0 := by
  have hmap (c : Nat) (hc : c < n) : g.gicCpuMap c = w.interface c + 1 := by
    obtain ⟨g', hall, hin, -⟩ := giccInitAll_eq hreads fun c hc => (horder c).mp hc
    obtain rfl := Option.some.inj (hboot.symm.trans hall)
    exact hin c ((horder c).mpr hc)
  cases u with
  | sgi cpu num =>
    obtain ⟨hcpu, hnum⟩ := hu
    refine iff_of_false (fun h => ?_) fun ⟨_, h⟩ => by cases h
    have hset := h.1 (w.interface cpu) (w.lt cpu hcpu)
    rw [sgir_clear (Nat.lt_of_lt_of_le hcpu w.cpus_le) hnum (w.lt cpu hcpu) (hmap cpu hcpu)] at hset
    simp at hset
  | init cpu => exact iff_of_false (giccInit_ne_none hu) fun ⟨_, h⟩ => by cases h
  | trgt id cpus =>
    have hlocal (id' : Nat) (hne : id' ≠ id) :
        byteOf (gicdSetTrgt g id cpus).gicd.itargetsr id' = byteOf g.gicd.itargetsr id' := by
      rw [byteOf_setTrgt, update_of_ne hne]
    have htargets (b : Nat) (hb : b < gicTargetBits) :
        (byteOf (gicdSetTrgt g id cpus).gicd.itargetsr id).getLsbD b = true ↔
          ∃ c, cpus.getLsbD c = true ∧ w.interface c + 1 = b := by
      rw [byteOf_setTrgt, update_self, getLsbD_translate hb]
      constructor
      · rintro ⟨c, -, hc, hb⟩
        exact ⟨c, hc, by rw [← hmap c (hu c hc), hb]⟩
      · rintro ⟨c, hc, hb⟩
        exact ⟨c, Nat.lt_of_lt_of_le (hu c hc) w.cpus_le, hc, by rw [hmap c (hu c hc), hb]⟩
    constructor
    · rintro ⟨hreach, -⟩
      -- the first of the interfaces would have to be one behind another
      have hnone : ∀ b < gicTargetBits, ¬∃ c, cpus.getLsbD c = true ∧ w.interface c = b := by
        intro b
        induction b using Nat.strongRecOn with
        | ind b ih =>
          intro hb hex
          obtain ⟨c, hc, hb'⟩ := (htargets b hb).mp ((hreach b hb).mpr hex)
          exact ih (w.interface c) (by omega) (by omega) ⟨c, hc, rfl⟩
      refine ⟨id, congrArg _ (BitVec.eq_of_getLsbD_eq fun c _ => ?_)⟩
      by_contra hset
      have hc : cpus.getLsbD c = true := by simpa using hset
      exact hnone _ (w.lt c (hu c hc)) ⟨c, hc, rfl⟩
    · rintro ⟨_, heq⟩
      cases heq
      refine ⟨fun b hb => ?_, hlocal⟩
      rw [htargets b hb]
      simp

/-- Two CPUs, the first one with the second interface. -/
def crossed : Wiring 2 where
  interface := fun c => 1 - c
  cpus_le := by decide
  lt := by decide
  inj := by decide

/-- Their GIC out of reset. -/
def GicV2.crossed : GicV2 where
  gicd := .zero 1
  itargetsr0 := fun c => 1 <<< (1 - c)
  gicc := fun _ => ⟨0, 0⟩
  gich := fun _ => ⟨0, 3, fun _ => 0⟩
  gicCpuMap := fun _ => 0

theorem reads_crossed : Avisor.crossed.Reads .crossed := by
  unfold Wiring.Reads
  decide

/-- An interrupt without a CPU gets no target. -/
theorem reaches_iff_noCpu : ∃ g, giccInitAll [1, 0] .crossed = some g ∧
    TargetUse.Reaches crossed g (.trgt 40 0) := by
  have hbooted : ∀ c ∈ [1, 0], c < 2 := by decide
  obtain ⟨g, hboot, -⟩ := giccInitAll_eq reads_crossed hbooted
  refine ⟨g, hboot, (reaches_iff reads_crossed ?_ hboot ?_).mpr ⟨40, rfl⟩⟩
  · intro c
    simp only [List.mem_cons, List.not_mem_nil, or_false]
    omega
  · exact fun c hc => absurd hc (by simp)

/-- An SGI for the first CPU goes to interface 2. -/
theorem sgi_not_reaches : ¬∀ (n : Nat) (w : Wiring n) (g₀ g : GicV2) (order : List Nat), w.Reads g₀ →
    (∀ c, c ∈ order ↔ c < n) → giccInitAll order g₀ = some g → ∀ u : TargetUse, u.Valid n g →
      u.Reaches w g := by
  intro hall
  have hbooted : ∀ c ∈ [1, 0], c < 2 := by decide
  obtain ⟨g, hboot, hmap, -⟩ := giccInitAll_eq reads_crossed hbooted
  have horder (c : Nat) : c ∈ [1, 0] ↔ c < 2 := by
    simp only [List.mem_cons, List.not_mem_nil, or_false]
    omega
  have hnoted : g.gicCpuMap 0 = 1 + 1 := hmap 0 (by decide)
  have hreach := hall 2 crossed .crossed g [1, 0] reads_crossed horder hboot (.sgi 0 3)
    ⟨by decide, by decide⟩
  have hset := hreach.1 1 (by decide)
  rw [sgir_clear (by decide) (by decide) (by decide) hnoted] at hset
  exact absurd hset (by decide)

end Avisor
