import Avisor.Lib.Machine
import Avisor.Mem.Allocating
import Avisor.Smmu.StreamTable

/-!
# Whose tables a stream uses

Over every order of registrations the SMMU finds the entry of the last one of a stream. The other streams
are not disturbed, but a second level that a stream opens lets the streams beside it pass untranslated,
where they had no entry before.
-/

namespace Avisor

open Function

/-! ### Stores -/

/-- The words behind a store or a command. -/
def SmmuOp.words (words : ℕ → BitVec 64) : SmmuOp → ℕ → BitVec 64
  | .store dst val => update words dst val
  | .issue _ => words

def SmmuOp.command : SmmuOp → Option ArmSmmuCmdqEnt
  | .store _ _ => none
  | .issue ent => some ent

variable {s t : Smmuv3} {vm : CurrentVm} {ops : List SmmuOp} {words : ℕ → BitVec 64} {vmid sid : BitVec 32}
  {dst p n i : ℕ} {root : BitVec 64}

theorem foldl_perform (ops : List SmmuOp) (s : Smmuv3) : ops.foldl Smmuv3.perform s =
    { s with
      mmu := { s.mmu with words := ops.foldl SmmuOp.words s.mmu.words }
      issued := s.issued ++ ops.filterMap SmmuOp.command } := by
  induction ops generalizing s with
  | nil => simp
  | cons op ops ih =>
    rw [List.foldl_cons, ih]
    cases op with
    | store dst val =>
      rw [List.filterMap_cons_none rfl]
      rfl
    | issue ent =>
      have hcommands : (SmmuOp.issue ent :: ops).filterMap SmmuOp.command =
          [ent] ++ ops.filterMap SmmuOp.command := List.filterMap_cons_some rfl
      rw [hcommands, ← List.append_assoc]
      rfl

@[simp] theorem perform_words (ops : List SmmuOp) (s : Smmuv3) :
    (ops.foldl Smmuv3.perform s).mmu.words = ops.foldl SmmuOp.words s.mmu.words := by
  rw [foldl_perform]

@[simp] theorem perform_pool (ops : List SmmuOp) (s : Smmuv3) :
    (ops.foldl Smmuv3.perform s).mmu.pool = s.mmu.pool := by
  rw [foldl_perform]

@[simp] theorem perform_features (ops : List SmmuOp) (s : Smmuv3) :
    (ops.foldl Smmuv3.perform s).features = s.features := by
  rw [foldl_perform]

@[simp] theorem perform_sidBits (ops : List SmmuOp) (s : Smmuv3) :
    (ops.foldl Smmuv3.perform s).sidBits = s.sidBits := by
  rw [foldl_perform]

@[simp] theorem perform_cfg (ops : List SmmuOp) (s : Smmuv3) : (ops.foldl Smmuv3.perform s).cfg = s.cfg := by
  rw [foldl_perform]

/-- The words of an entry that lets everything pass. -/
theorem words_bypass (sid : BitVec 32) :
    (armSmmuWriteStrtabEnt false sid dst true vmid root).foldl SmmuOp.words words p =
      if p = dst then strtabSte0V ||| fieldPrep strtabSte0Cfg strtabSte0CfgBypass
      else if p = dst + 16 then fieldPrep strtabSte2S2vmid (vmid.setWidth 64)
      else if p = dst + 8 then fieldPrep strtabSte1Shcfg strtabSte1ShcfgIncoming
      else words p := by
  simp only [armSmmuWriteStrtabEnt, if_true, Bool.false_eq_true, if_false, List.append_nil, List.foldl_cons,
    List.foldl_nil, SmmuOp.words, update_apply]

/-- The words of an entry that translates. -/
theorem words_stage2 (smmu : Bool) :
    (armSmmuWriteStrtabEnt smmu sid dst false vmid root).foldl SmmuOp.words words p =
      if p = dst then fieldPrep strtabSte0Cfg strtabSte0CfgS2Trans ||| strtabSte0V
      else if p = dst + 24 then root &&& strtabSte3S2ttbMask
      else if p = dst + 16 then ste2 vmid
      else words p := by
  simp only [armSmmuWriteStrtabEnt, armSmmuSyncSteForSid, Bool.false_eq_true, if_false, List.foldl_append,
    List.foldl_cons, List.foldl_nil, SmmuOp.words, update_apply]

/-! ### Views -/

/-- What the SMMU sees of an entry for stage 2. -/
def stage2View (vmid : BitVec 32) (root : BitVec 64) : SteStage2 where
  vmid := vmid.setWidth 64 &&& bitMaskLR 15 0
  vtcr := 0x3540
  aa64 := 1
  ptw := 1
  record := 1
  ttb := root &&& strtabSte3S2ttbMask

/-- `ste2` is a field for the `VMID` and a constant. -/
theorem ste2_eq (vmid : BitVec 32) : ste2 vmid =
    fieldPrep strtabSte2S2vmid (vmid.setWidth 64) ||| 0x448354000000000 := by
  have hrest : fieldPrep strtabSte2Vtcr vtcrCell ||| strtabSte2S2ptw ||| strtabSte2S2aa64 ||| strtabSte2S2r =
      0x448354000000000 := by decide +kernel
  rw [ste2, ← hrest]
  simp only [BitVec.or_assoc]

theorem steView_stage2 {ste : ℕ → BitVec 64}
    (h₀ : ste 0 = fieldPrep strtabSte0Cfg strtabSte0CfgS2Trans ||| strtabSte0V) (h₂ : ste 2 = ste2 vmid)
    (h₃ : ste 3 = root &&& strtabSte3S2ttbMask) : steView ste = .stage2 (stage2View vmid root) := by
  have hvalid : fieldGet strtabSte0V (ste 0) ≠ 0 := by
    rw [h₀]
    decide +kernel
  have hcfg : fieldGet strtabSte0Cfg (ste 0) = strtabSte0CfgS2Trans := by
    rw [h₀]
    decide +kernel
  have hvmid : fieldGet strtabSte2S2vmid (ste2 vmid) = vmid.setWidth 64 &&& bitMaskLR 15 0 := by
    have hrest : fieldGet strtabSte2S2vmid 0x448354000000000 = 0 := by decide +kernel
    rw [ste2_eq, fieldGet_or, hrest, strtabSte2S2vmid, fieldGet_fieldPrep (by decide) (by decide)]
    exact BitVec.or_zero
  have hapart (mask val : BitVec 64) (hzero : fieldGet mask (fieldPrep strtabSte2S2vmid (vmid.setWidth 64)) = 0)
      (hval : fieldGet mask 0x448354000000000 = val) : fieldGet mask (ste2 vmid) = val := by
    rw [ste2_eq, fieldGet_or, hzero, hval]
    exact BitVec.zero_or
  rw [steView, if_neg hvalid, hcfg, if_neg (by decide), if_pos rfl, h₂, h₃, hvmid]
  rw [hapart strtabSte2Vtcr 0x3540 ?_ (by decide +kernel),
    hapart strtabSte2S2aa64 1 ?_ (by decide +kernel),
    hapart strtabSte2S2ptw 1 ?_ (by decide +kernel),
    hapart strtabSte2S2r 1 ?_ (by decide +kernel), BitVec.and_assoc, BitVec.and_self]
  · rfl
  all_goals exact fieldGet_fieldPrep_of_lt (by decide) (by decide) (by decide) (by decide) (by decide)

theorem steView_bypass {ste : ℕ → BitVec 64}
    (h₀ : ste 0 = strtabSte0V ||| fieldPrep strtabSte0Cfg strtabSte0CfgBypass) : steView ste = .bypass := by
  have hvalid : fieldGet strtabSte0V (ste 0) ≠ 0 := by
    rw [h₀]
    decide +kernel
  have hcfg : fieldGet strtabSte0Cfg (ste 0) = strtabSte0CfgBypass := by
    rw [h₀]
    decide +kernel
  rw [steView, if_neg hvalid, if_pos hcfg]

/-- The SMMU uses the first four double words of an entry. -/
theorem steView_congr {ste ste' : ℕ → BitVec 64} (h : ∀ i < 4, ste i = ste' i) : steView ste = steView ste' := by
  unfold steView
  rw [h 0 (by decide), h 2 (by decide), h 3 (by decide)]

/-- Entries one behind another that let everything pass. -/
theorem words_bypasses (vm : CurrentVm) (strtab n p : ℕ) :
    let words' := (armSmmuInitBypassStes vm strtab n).foldl SmmuOp.words words
    (∀ i < n, words' (strtab + strtabSteSize * i) =
        strtabSte0V ||| fieldPrep strtabSte0Cfg strtabSte0CfgBypass) ∧
      (¬(strtab ≤ p ∧ p < strtab + strtabSteSize * n) → words' p = words p) := by
  induction n with
  | zero => exact ⟨fun i hi => absurd hi (Nat.not_lt_zero i), fun _ => rfl⟩
  | succ n ih =>
    simp only [armSmmuInitBypassStes, List.range_succ, List.flatMap_append, List.flatMap_singleton,
      List.foldl_append] at ih ⊢
    simp only [words_bypass]
    have hsize : strtabSteSize * (n + 1) = strtabSteSize * n + 64 := rfl
    refine ⟨fun i hi => ?_, fun hout => ?_⟩
    · by_cases hlast : i = n
      · rw [hlast]
        exact if_pos rfl
      · have hbefore : strtabSteSize * i + 64 ≤ strtabSteSize * n := by
          simp only [strtabSteSize]
          omega
        rw [if_neg (by omega), if_neg (by omega), if_neg (by omega)]
        exact ih.1 i (by omega)
    · rw [if_neg (by omega), if_neg (by omega), if_neg (by omega)]
      exact ih.2 (by omega)

/-! ### Addresses in fields -/

/-- An address with its low bits clear keeps its bits in a field. -/
theorem ofNat_and_bitMaskLR {addr last first : ℕ} (hle : first ≤ last) (hlast : last < 64)
    (haligned : 2 ^ first ∣ addr) (hlt : addr < 2 ^ (last + 1)) :
    BitVec.ofNat 64 addr &&& bitMaskLR last first = BitVec.ofNat 64 addr := by
  apply BitVec.eq_of_getLsbD_eq
  intro i hi
  rw [BitVec.getLsbD_and, getLsbD_bitMaskLR hle hlast, BitVec.getLsbD_ofNat]
  by_cases hbit : addr.testBit i = true
  · have hfirst : first ≤ i := by
      by_contra hlow
      obtain ⟨k, rfl⟩ := haligned
      rw [Nat.testBit_two_pow_mul, decide_eq_false hlow] at hbit
      simp at hbit
    have hiLast : i ≤ last := by
      have hge := Nat.ge_two_pow_of_testBit hbit
      have hpow := (Nat.pow_lt_pow_iff_right (a := 2) (by decide)).mp (Nat.lt_of_le_of_lt hge hlt)
      omega
    simp [hfirst, hiLast]
  · simp [hbit]

theorem alignDown_eq {addr bits : ℕ} (h : 2 ^ bits ∣ addr) : alignDown addr bits = addr :=
  Nat.div_mul_cancel h

/-- What the SMMU reads in the double word of a descriptor. -/
theorem l1DescWord_span (ptr : ℕ) : (fieldGet strtabL1DescSpan
    (fieldPrep strtabL1DescSpan 9 ||| BitVec.ofNat 64 ptr &&& strtabL1DescL2ptrMask)).toNat = 9 := by
  rw [fieldGet_or, strtabL1DescSpan, strtabL1DescL2ptrMask, fieldGet_fieldPrep (by decide) (by decide),
    fieldGet_and_bitMaskLR (by decide) (by decide) (by decide) (by decide) (by decide)]
  decide

theorem l1DescWord_ptr {ptr : ℕ} (haligned : 2 ^ 6 ∣ ptr) (hlt : ptr < 2 ^ 52) :
    (fieldPrep strtabL1DescSpan 9 ||| BitVec.ofNat 64 ptr &&& strtabL1DescL2ptrMask) &&&
      strtabL1DescL2ptrMask = BitVec.ofNat 64 ptr := by
  rw [strtabL1DescSpan, strtabL1DescL2ptrMask,
    fieldPrep_or_and_bitMaskLR (by decide) (by decide) (by decide) (by decide) (by decide)]
  exact ofNat_and_bitMaskLR (by decide) (by decide) haligned hlt

/-- `STRTAB_BASE_CFG` of a linear table. -/
theorem baseCfg_linear : ∀ bits ≤ 25,
    let cfg := ((fieldPrep strtabBaseCfgFmt strtabBaseCfgFmtLinear |||
      fieldPrep strtabBaseCfgLog2size (BitVec.ofNat 64 bits)).setWidth 32).setWidth 64
    fieldGet strtabBaseCfgLog2size cfg = BitVec.ofNat 64 bits ∧
      fieldGet strtabBaseCfgFmt cfg = strtabBaseCfgFmtLinear := by
  decide +kernel

/-- `STRTAB_BASE_CFG` of a table with two levels. -/
theorem baseCfg_2lvl : ∀ bits ≤ 25,
    let cfg := ((fieldPrep strtabBaseCfgFmt strtabBaseCfgFmt2lvl |||
      fieldPrep strtabBaseCfgLog2size (BitVec.ofNat 64 bits) |||
      fieldPrep strtabBaseCfgSplit (BitVec.ofNat 64 strtabSplit)).setWidth 32).setWidth 64
    fieldGet strtabBaseCfgLog2size cfg = BitVec.ofNat 64 bits ∧
      fieldGet strtabBaseCfgFmt cfg ≠ strtabBaseCfgFmtLinear ∧
      fieldGet strtabBaseCfgSplit cfg = BitVec.ofNat 64 strtabSplit := by
  decide +kernel

/-! ### What the table is for -/

/-- How many streams there are, whether there are second levels, the entries of the streams with a device
and the second levels that there are. -/
structure StreamMap where
  bits : ℕ
  twoLevel : Bool
  device : ℕ → Option SteStage2
  opened : ℕ → Bool

namespace StreamMap

/-- What becomes of the accesses of a stream. -/
def view (m : StreamMap) (sid : ℕ) : StreamView :=
  if 2 ^ m.bits ≤ sid then .noEntry
  else
    match m.device sid with
    | some ste => .stage2 ste
    | none => if m.twoLevel && !m.opened (sid / 2 ^ strtabSplit) then .noEntry else .bypass

def openGroup (m : StreamMap) (i : ℕ) : StreamMap := { m with opened := update m.opened i true }

def assign (m : StreamMap) (sid : ℕ) (ste : SteStage2) : StreamMap :=
  { m with device := update m.device sid (some ste) }

/-- A stream gets a device. -/
def attach (m : StreamMap) (sid : ℕ) (ste : SteStage2) : StreamMap :=
  (m.openGroup (sid / 2 ^ strtabSplit)).assign sid ste

variable {m : StreamMap} {sid' : ℕ} {ste : SteStage2}

theorem view_assign_self {sid : ℕ} (hsid : sid < 2 ^ m.bits) : (m.assign sid ste).view sid = .stage2 ste := by
  simp only [view, assign, update_self]
  exact if_neg (Nat.not_le.mpr hsid)

theorem view_assign_of_ne {sid : ℕ} (hne : sid' ≠ sid) : (m.assign sid ste).view sid' = m.view sid' := by
  simp only [view, assign, update_of_ne hne]
  rfl

theorem view_eq_stage2_iff {sid : ℕ} (hsid : sid < 2 ^ m.bits) :
    m.view sid = .stage2 ste ↔ m.device sid = some ste := by
  rw [view, if_neg (Nat.not_le.mpr hsid)]
  cases m.device sid with
  | some ste' => simp
  | none =>
    refine iff_of_false (fun hview => ?_) nofun
    by_cases hclosed : (m.twoLevel && !m.opened (sid / 2 ^ strtabSplit)) = true
    · cases (if_pos hclosed).symm.trans hview
    · cases (if_neg hclosed).symm.trans hview

theorem view_openGroup_self {sid i : ℕ} (hsid : sid < 2 ^ m.bits) (hgroup : sid / 2 ^ strtabSplit = i)
    (hdevice : m.device sid = none) : (m.openGroup i).view sid = .bypass := by
  simp only [view, openGroup, hgroup, hdevice, update_self, Bool.not_true, Bool.and_false]
  exact if_neg (Nat.not_le.mpr hsid)

theorem view_openGroup_of_ne {sid i : ℕ} (hgroup : sid / 2 ^ strtabSplit ≠ i) :
    (m.openGroup i).view sid = m.view sid := by
  simp only [view, openGroup, update_of_ne hgroup]

end StreamMap

namespace Smmuv3

theorem l1Desc_setL1Desc (s : Smmuv3) (i j : ℕ) (desc : ArmSmmuStrtabL1Desc) :
    (s.setL1Desc i desc).cfg.l1Desc j = if j = i then desc else s.cfg.l1Desc j :=
  update_apply s.cfg.l1Desc i desc j

/-- The size of the table that `STRTAB_BASE` points to. -/
def strtabBytes (s : Smmuv3) : ℕ :=
  if s.TwoLevel then strtabL1DescSize * 2 ^ (s.sidBits - strtabSplit) else strtabSteSize * 2 ^ s.sidBits

/-- The ranges of memory that the tables lie in: the first level, and the second levels. -/
def table (s : Smmuv3) : Option ℕ → Option (ℕ × ℕ)
  | none => some (s.cfg.strtab, s.strtabBytes)
  | some i =>
    if s.TwoLevel ∧ i < 2 ^ (s.sidBits - strtabSplit) ∧ (s.cfg.l1Desc i).l2ptr ≠ 0 then
      some ((s.cfg.l1Desc i).l2ptr, strtabSteSize * 2 ^ strtabSplit)
    else none

/-- An address of a table. -/
def InTable (s : Smmuv3) (i : Option ℕ) (p : ℕ) : Prop :=
  ∃ r, s.table i = some r ∧ r.1 ≤ p ∧ p < r.1 + r.2

/-- Where the entry of a stream is, if there is one. -/
def place (s : Smmuv3) (sid : ℕ) : Option ℕ :=
  if s.TwoLevel then
    if (s.cfg.l1Desc (sid / 2 ^ strtabSplit)).l2ptr = 0 then none
    else some ((s.cfg.l1Desc (sid / 2 ^ strtabSplit)).l2ptr + strtabSteSize * (sid % 2 ^ strtabSplit))
  else some (s.cfg.strtab + strtabSteSize * sid)

/-- The table in which the entry of a stream is. -/
def tableOf (s : Smmuv3) (sid : ℕ) : Option ℕ := if s.TwoLevel then some (sid / 2 ^ strtabSplit) else none

end Smmuv3

/-- The double word of a descriptor. -/
def l1DescWord (desc : ArmSmmuStrtabL1Desc) : BitVec 64 :=
  if desc.l2ptr = 0 then 0
  else fieldPrep strtabL1DescSpan 9 ||| BitVec.ofNat 64 desc.l2ptr &&& strtabL1DescL2ptrMask

/-- The tables are where the registers and the descriptors say, in memory of their own, and what the SMMU
sees in the entries is what `m` says. -/
structure StrtabOk (s : Smmuv3) (m : StreamMap) : Prop where
  pool : s.mmu.pool.InMemory
  bits : m.bits = s.sidBits
  twoLevel : m.twoLevel = decide s.TwoLevel
  bits_le : s.sidBits ≤ 25
  split_lt : s.TwoLevel → strtabSplit < s.sidBits
  base : s.cfg.strtabBase = BitVec.ofNat 64 s.cfg.strtab &&& strtabBaseAddrMask ||| strtabBaseRa
  baseCfg : s.cfg.strtabBaseCfg = ((if s.TwoLevel then fieldPrep strtabBaseCfgFmt strtabBaseCfgFmt2lvl |||
      fieldPrep strtabBaseCfgLog2size (BitVec.ofNat 64 s.sidBits) |||
      fieldPrep strtabBaseCfgSplit (BitVec.ofNat 64 strtabSplit)
    else fieldPrep strtabBaseCfgFmt strtabBaseCfgFmtLinear |||
      fieldPrep strtabBaseCfgLog2size (BitVec.ofNat 64 s.sidBits)).setWidth 32)
  strtab_aligned : s.strtabBytes ∣ s.cfg.strtab ∧ 2 ^ 6 ∣ s.cfg.strtab
  l2_aligned : s.TwoLevel → ∀ i < 2 ^ (s.sidBits - strtabSplit),
    strtabSteSize * 2 ^ strtabSplit ∣ (s.cfg.l1Desc i).l2ptr
  low : ∀ i p, s.InTable i p → p < 2 ^ 48
  apart : ∀ i j p, s.InTable i p → s.InTable j p → i = j
  taken : ∀ i p, s.InTable i p → ¬s.mmu.pool.FreeAt p
  descs : s.TwoLevel → ∀ i < 2 ^ (s.sidBits - strtabSplit),
    s.mmu.words (s.cfg.strtab + strtabL1DescSize * i) = l1DescWord (s.cfg.l1Desc i)
  opened : s.TwoLevel → ∀ i < 2 ^ (s.sidBits - strtabSplit),
    m.opened i = decide ((s.cfg.l1Desc i).l2ptr ≠ 0)
  devices : ∀ sid ste, m.device sid = some ste → s.place sid ≠ none
  entries : ∀ sid < 2 ^ s.sidBits, ∀ a, s.place sid = some a → steView (steAt s.mmu.words a) = m.view sid

namespace StrtabOk

variable {m : StreamMap}

theorem strtab_lt (h : StrtabOk s m) : s.cfg.strtab < 2 ^ 48 := by
  refine h.low none _ ⟨(s.cfg.strtab, s.strtabBytes), rfl, Nat.le_refl _, ?_⟩
  have hpos : 0 < s.strtabBytes := by
    unfold Smmuv3.strtabBytes
    split
    · exact Nat.mul_pos (by decide) (Nat.two_pow_pos _)
    · exact Nat.mul_pos (by decide) (Nat.two_pow_pos _)
  exact Nat.lt_add_of_pos_right hpos

theorem base_addr (h : StrtabOk s m) : (s.cfg.strtabBase &&& strtabBaseAddrMask).toNat = s.cfg.strtab := by
  have hlt := h.strtab_lt
  have hra : strtabBaseRa &&& strtabBaseAddrMask = 0 := by decide +kernel
  rw [h.base, BitVec.and_or_distrib_right, hra, BitVec.and_assoc, BitVec.and_self, strtabBaseAddrMask,
    ofNat_and_bitMaskLR (by decide) (by decide) h.strtab_aligned.2 (Nat.lt_trans hlt (by decide))]
  rw [BitVec.ofNat_eq_ofNat, BitVec.or_zero, BitVec.toNat_ofNat]
  exact Nat.mod_eq_of_lt (Nat.lt_trans hlt (by decide))

theorem toNat_bits (h : StrtabOk s m) : (BitVec.ofNat 64 s.sidBits).toNat = s.sidBits :=
  Nat.mod_eq_of_lt (Nat.lt_of_le_of_lt h.bits_le (by decide))

theorem group_lt (h : StrtabOk s m) (htwo : s.TwoLevel) {sid : ℕ} (hsid : sid < 2 ^ s.sidBits) :
    sid / 2 ^ strtabSplit < 2 ^ (s.sidBits - strtabSplit) := by
  apply Nat.div_lt_of_lt_mul
  rw [← Nat.pow_add, Nat.add_sub_cancel' (h.split_lt htwo).le]
  exact hsid

theorem view_of_place (h : StrtabOk s m) {sid : ℕ} (hsid : sid < 2 ^ s.sidBits) :
    m.view sid = (s.place sid).elim .noEntry fun a => steView (steAt s.mmu.words a) := by
  cases hplace : s.place sid with
  | some a => rw [Option.elim_some, h.entries sid hsid a hplace]
  | none =>
    have hdevice : m.device sid = none := by
      by_contra hsome
      obtain ⟨ste, hste⟩ := Option.ne_none_iff_exists'.mp hsome
      exact h.devices sid ste hste hplace
    rw [StreamMap.view, h.bits, if_neg (Nat.not_le.mpr hsid), hdevice, h.twoLevel]
    unfold Smmuv3.place at hplace
    split at hplace
    · rename_i htwo
      split at hplace
      · rename_i hnull
        simp [htwo, h.opened htwo _ (h.group_lt htwo hsid), hnull]
      · cases hplace
    · cases hplace

theorem walk_linear (h : StrtabOk s m) (htwo : ¬s.TwoLevel) (sid : ℕ) : s.walk sid =
    if 2 ^ s.sidBits ≤ sid then .noEntry
    else steView (steAt s.mmu.words (s.cfg.strtab + strtabSteSize * sid)) := by
  obtain ⟨hlog, hfmt⟩ := baseCfg_linear s.sidBits h.bits_le
  have haligned := h.strtab_aligned.1
  have hbytes : s.strtabBytes = 2 ^ (s.sidBits + 6) := by
    rw [Smmuv3.strtabBytes, if_neg htwo, Nat.pow_add, Nat.mul_comm]
    rfl
  rw [hbytes] at haligned
  rw [Smmuv3.walk, strtabWalk, h.baseCfg, if_neg htwo, h.base_addr, hlog, h.toNat_bits, if_pos hfmt,
    alignDown_eq haligned]

theorem walk_2lvl (h : StrtabOk s m) (htwo : s.TwoLevel) {sid : ℕ} (hsid : sid < 2 ^ s.sidBits) :
    s.walk sid = (s.place sid).elim .noEntry fun a => steView (steAt s.mmu.words a) := by
  obtain ⟨hlog, hfmt, hsplit⟩ := baseCfg_2lvl s.sidBits h.bits_le
  have haligned : 2 ^ (max 6 (s.sidBits - strtabSplit + 3)) ∣ s.cfg.strtab := by
    have hbytes : s.strtabBytes = 2 ^ (s.sidBits - strtabSplit + 3) := by
      rw [Smmuv3.strtabBytes, if_pos htwo, Nat.pow_add, Nat.mul_comm]
      rfl
    rcases Nat.le_total 6 (s.sidBits - strtabSplit + 3) with hle | hle
    · rw [Nat.max_eq_right hle, ← hbytes]
      exact h.strtab_aligned.1
    · rw [Nat.max_eq_left hle]
      exact h.strtab_aligned.2
  have hsplitNat : (BitVec.ofNat 64 strtabSplit).toNat = strtabSplit := rfl
  rw [Smmuv3.walk, strtabWalk, h.baseCfg, if_pos htwo, h.base_addr, hlog, h.toNat_bits,
    if_neg (Nat.not_le.mpr hsid), if_neg hfmt, hsplit, hsplitNat]
  dsimp only
  rw [alignDown_eq haligned, h.descs htwo _ (h.group_lt htwo hsid), l1DescWord, Smmuv3.place, if_pos htwo]
  by_cases hnull : (s.cfg.l1Desc (sid / 2 ^ strtabSplit)).l2ptr = 0
  · rw [if_pos hnull, if_pos hnull, if_pos (.inl (by decide +kernel))]
    rfl
  · have hlt : (s.cfg.l1Desc (sid / 2 ^ strtabSplit)).l2ptr < 2 ^ 48 :=
      h.low (some (sid / 2 ^ strtabSplit)) _
        ⟨_, if_pos ⟨htwo, h.group_lt htwo hsid, hnull⟩, Nat.le_refl _,
          Nat.lt_add_of_pos_right (Nat.mul_pos (by decide) (Nat.two_pow_pos _))⟩
    have hl2 := h.l2_aligned htwo _ (h.group_lt htwo hsid)
    have hspan : ¬(9 = 0 ∨ 2 ^ (9 - 1) ≤ sid % 2 ^ strtabSplit) := by
      have hmod : sid % 2 ^ strtabSplit < 2 ^ 8 := Nat.mod_lt _ (Nat.two_pow_pos _)
      omega
    rw [if_neg hnull, if_neg hnull, l1DescWord_span, if_neg hspan,
      l1DescWord_ptr (Nat.dvd_trans (by decide) hl2) (Nat.lt_trans hlt (by decide)), BitVec.toNat_ofNat,
      Nat.mod_eq_of_lt (Nat.lt_trans hlt (by decide)), alignDown_eq hl2, Option.elim_some]

/-- The SMMU finds in memory what the table is for. -/
theorem walk (h : StrtabOk s m) (sid : ℕ) : s.walk sid = m.view sid := by
  by_cases hsid : sid < 2 ^ s.sidBits
  · rw [h.view_of_place hsid]
    by_cases htwo : s.TwoLevel
    · exact h.walk_2lvl htwo hsid
    · rw [h.walk_linear htwo, if_neg (Nat.not_le.mpr hsid), Smmuv3.place, if_neg htwo, Option.elim_some]
  · have hge := Nat.not_lt.mp hsid
    rw [StreamMap.view, h.bits, if_pos hge]
    by_cases htwo : s.TwoLevel
    · rw [Smmuv3.walk, strtabWalk, h.baseCfg, if_pos htwo, (baseCfg_2lvl s.sidBits h.bits_le).1,
        h.toNat_bits, if_pos hge]
    · rw [h.walk_linear htwo, if_pos hge]

/-! ### Where the entries are -/

theorem desc_inTable (htwo : s.TwoLevel) (hi : i < 2 ^ (s.sidBits - strtabSplit)) :
    s.InTable none (s.cfg.strtab + strtabL1DescSize * i) := by
  refine ⟨(s.cfg.strtab, s.strtabBytes), rfl, Nat.le_add_right _ _, ?_⟩
  rw [Smmuv3.strtabBytes, if_pos htwo]
  exact Nat.add_lt_add_left (Nat.mul_lt_mul_of_pos_left hi (by decide)) _

theorem place_inTable (h : StrtabOk s m) {sid a k : ℕ} (hsid : sid < 2 ^ s.sidBits)
    (hplace : s.place sid = some a) (hk : k < strtabSteSize) : s.InTable (s.tableOf sid) (a + k) := by
  unfold Smmuv3.place at hplace
  unfold Smmuv3.tableOf
  by_cases htwo : s.TwoLevel
  · rw [if_pos htwo] at hplace ⊢
    split at hplace
    · cases hplace
    · rename_i hnull
      cases hplace
      refine ⟨_, if_pos ⟨htwo, h.group_lt htwo hsid, hnull⟩, by omega, ?_⟩
      have hmod : sid % 2 ^ strtabSplit < 2 ^ strtabSplit := Nat.mod_lt _ (Nat.two_pow_pos _)
      simp only [strtabSteSize, strtabSplit] at *
      omega
  · rw [if_neg htwo] at hplace ⊢
    cases hplace
    refine ⟨(s.cfg.strtab, s.strtabBytes), rfl, by omega, ?_⟩
    rw [Smmuv3.strtabBytes, if_neg htwo]
    simp only [strtabSteSize] at *
    omega

/-- The entries of two streams are apart. -/
theorem place_apart (h : StrtabOk s m) {sid sid' a a' : ℕ} (hsid : sid < 2 ^ s.sidBits)
    (hsid' : sid' < 2 ^ s.sidBits) (hne : sid ≠ sid') (hplace : s.place sid = some a)
    (hplace' : s.place sid' = some a') : a + strtabSteSize ≤ a' ∨ a' + strtabSteSize ≤ a := by
  by_cases htable : s.tableOf sid = s.tableOf sid'
  · unfold Smmuv3.place at hplace hplace'
    unfold Smmuv3.tableOf at htable
    by_cases htwo : s.TwoLevel
    · rw [if_pos htwo] at hplace hplace'
      rw [if_pos htwo, if_pos htwo] at htable
      have hgroup := Option.some.inj htable
      rw [← hgroup] at hplace'
      split at hplace
      · cases hplace
      · rename_i hnull
        rw [if_neg hnull] at hplace'
        cases hplace
        cases hplace'
        simp only [strtabSteSize, strtabSplit] at *
        omega
    · rw [if_neg htwo] at hplace hplace'
      cases hplace
      cases hplace'
      simp only [strtabSteSize] at *
      omega
  · by_contra hnear
    apply htable
    have hin := h.place_inTable hsid hplace (k := max a a' - a) (by simp only [strtabSteSize] at *; omega)
    have hin' := h.place_inTable hsid' hplace' (k := max a a' - a') (by simp only [strtabSteSize] at *; omega)
    refine h.apart _ _ (max a a') ?_ ?_
    · rwa [Nat.add_sub_cancel' (Nat.le_max_left a a')] at hin
    · rwa [Nat.add_sub_cancel' (Nat.le_max_right a a')] at hin'

/-- Stores to entries leave the tables where they are. -/
theorem stored (h : StrtabOk s m) {words : ℕ → BitVec 64} {issued : List ArmSmmuCmdqEnt}
    {device : ℕ → Option SteStage2} (hdescs : s.TwoLevel → ∀ p, s.InTable none p → words p = s.mmu.words p)
    (hdevices : ∀ sid ste, device sid = some ste → s.place sid ≠ none)
    (hentries : ∀ sid < 2 ^ s.sidBits, ∀ a, s.place sid = some a →
      steView (steAt words a) = { m with device := device }.view sid) :
    StrtabOk { s with mmu := { s.mmu with words := words }, issued := issued } { m with device := device } where
  pool := h.pool
  bits := h.bits
  twoLevel := h.twoLevel
  bits_le := h.bits_le
  split_lt := h.split_lt
  base := h.base
  baseCfg := h.baseCfg
  strtab_aligned := h.strtab_aligned
  l2_aligned := h.l2_aligned
  low := h.low
  apart := h.apart
  taken := h.taken
  descs htwo i hi := (hdescs htwo _ (desc_inTable htwo hi)).trans (h.descs htwo i hi)
  opened := h.opened
  devices := hdevices
  entries := hentries

/-- `arm_smmu_write_strtab_ent` gives a stream its device. -/
theorem write_strtab_ent (h : StrtabOk s m) {a : ℕ} (hsid : sid.toNat < 2 ^ s.sidBits)
    (hplace : s.place sid.toNat = some a) :
    StrtabOk ((armSmmuWriteStrtabEnt true sid a false vmid root).foldl Smmuv3.perform s)
      (m.assign sid.toNat (stage2View vmid root)) := by
  rw [foldl_perform]
  have hwords (p : ℕ) (hout : p < a ∨ a + strtabSteSize ≤ p) :
      (armSmmuWriteStrtabEnt true sid a false vmid root).foldl SmmuOp.words s.mmu.words p = s.mmu.words p := by
    simp only [strtabSteSize] at hout
    rw [words_stage2, if_neg (by omega), if_neg (by omega), if_neg (by omega)]
  refine h.stored (fun htwo p hp => hwords p ?_) (fun sid' ste hdevice => ?_) fun sid' hsid' a' hplace' => ?_
  · by_contra hin
    have hentry := h.place_inTable hsid hplace (k := p - a) (by omega)
    rw [Nat.add_sub_cancel' (by omega), Smmuv3.tableOf, if_pos htwo] at hentry
    cases h.apart _ _ p hp hentry
  · by_cases hsame : sid' = sid.toNat
    · rw [hsame, hplace]
      exact Option.some_ne_none a
    · rw [update_of_ne hsame] at hdevice
      exact h.devices sid' ste hdevice
  · by_cases hsame : sid' = sid.toNat
    · subst hsame
      rw [hplace] at hplace'
      cases hplace'
      refine Eq.trans ?_ (StreamMap.view_assign_self (h.bits ▸ hsid)).symm
      apply steView_stage2
      · rw [steAt, words_stage2]
        exact if_pos rfl
      · rw [steAt, words_stage2, if_neg (by omega), if_neg (by omega)]
        exact if_pos rfl
      · rw [steAt, words_stage2, if_neg (by omega)]
        exact if_pos rfl
    · have hout := h.place_apart hsid hsid' (Ne.symm hsame) hplace hplace'
      refine Eq.trans ?_ ((h.entries sid' hsid' a' hplace').trans (StreamMap.view_assign_of_ne hsame).symm)
      apply steView_congr
      intro i hi
      apply hwords
      simp only [strtabSteSize] at *
      omega

/-! ### Second levels -/

theorem l2ptr_setL1Desc {desc : ArmSmmuStrtabL1Desc} (hsame : desc.l2ptr = (s.cfg.l1Desc i).l2ptr) (j : ℕ) :
    ((s.setL1Desc i desc).cfg.l1Desc j).l2ptr = (s.cfg.l1Desc j).l2ptr := by
  rw [s.l1Desc_setL1Desc]
  split
  · rename_i hj
    rw [hj, hsame]
  · rfl

theorem inTable_setL1Desc {desc : ArmSmmuStrtabL1Desc} (hsame : desc.l2ptr = (s.cfg.l1Desc i).l2ptr) :
    (s.setL1Desc i desc).table = s.table ∧ (s.setL1Desc i desc).place = s.place := by
  have hl2 := l2ptr_setL1Desc hsame
  constructor
  · funext j
    cases j with
    | none => rfl
    | some j =>
      simp only [Smmuv3.table, hl2]
      rfl
  · funext sid
    simp only [Smmuv3.place, hl2]
    rfl

/-- A second level that is there gets one more user. -/
theorem used (h : StrtabOk s m) (htwo : s.TwoLevel) (hi : i < 2 ^ (s.sidBits - strtabSplit))
    (hl2 : (s.cfg.l1Desc i).l2ptr ≠ 0) {desc : ArmSmmuStrtabL1Desc}
    (hsame : desc.l2ptr = (s.cfg.l1Desc i).l2ptr) : StrtabOk (s.setL1Desc i desc) (m.openGroup i) := by
  obtain ⟨htable, hplace⟩ := inTable_setL1Desc hsame
  have hin (j : Option ℕ) (p : ℕ) : (s.setL1Desc i desc).InTable j p ↔ s.InTable j p := by
    rw [Smmuv3.InTable, htable]
    rfl
  have hopen : m.openGroup i = m := by
    have htrue : m.opened i = true := by
      rw [h.opened htwo i hi, decide_eq_true hl2]
    rw [StreamMap.openGroup, ← htrue, update_eq_self]
  have hdesc := l2ptr_setL1Desc hsame
  rw [hopen]
  exact {
    pool := h.pool
    bits := h.bits
    twoLevel := h.twoLevel
    bits_le := h.bits_le
    split_lt := h.split_lt
    base := h.base
    baseCfg := h.baseCfg
    strtab_aligned := h.strtab_aligned
    l2_aligned := fun _ j hj => by
      rw [hdesc]
      exact h.l2_aligned htwo j hj
    low := fun j p hp => h.low j p ((hin j p).mp hp)
    apart := fun j k p hj hk => h.apart j k p ((hin j p).mp hj) ((hin k p).mp hk)
    taken := fun j p hp => h.taken j p ((hin j p).mp hp)
    descs := fun _ j hj => by
      rw [l1DescWord, hdesc]
      exact h.descs htwo j hj
    opened := fun _ j hj => by
      rw [hdesc]
      exact h.opened htwo j hj
    devices := fun sid ste hste => by
      rw [hplace]
      exact h.devices sid ste hste
    entries := fun sid hsid a hsome => by
      rw [hplace] at hsome
      exact h.entries sid hsid a hsome }

section

variable {mmu : MmuState} {ptr : ℕ} {desc : ArmSmmuStrtabL1Desc}

/-- What is stored when a second level is allocated. -/
theorem words_l2 (desc : ArmSmmuStrtabL1Desc) (hspan : desc.span = 9) (hdma : desc.l2ptrDma = BitVec.ofNat 64 desc.l2ptr)
    (hl2 : desc.l2ptr ≠ 0) (ent : ArmSmmuCmdqEnt) (strtab n p : ℕ) :
    (armSmmuInitBypassStes vm ptr n ++ armSmmuWriteStrtabL1Desc strtab desc ++
        [SmmuOp.issue ent]).foldl SmmuOp.words words p =
      if p = strtab then l1DescWord desc
      else (armSmmuInitBypassStes vm ptr n).foldl SmmuOp.words words p := by
  rw [List.foldl_append, List.foldl_append, armSmmuWriteStrtabL1Desc, hspan, hdma, l1DescWord, if_neg hl2]
  exact update_apply _ _ _ p

/-- A second level that is not there yet is allocated, and lets its streams pass. -/
theorem allocated (h : StrtabOk s m) (htwo : s.TwoLevel) (hi : i < 2 ^ (s.sidBits - strtabSplit))
    (hclosed : (s.cfg.l1Desc i).l2ptr = 0) (hfresh : FreshPagesAt s.mmu mmu ptr 4)
    (haligned : 4 * pageSize ∣ ptr) (hdesc : desc.l2ptr = ptr) (hfeatures : t.features = s.features)
    (hbits : t.sidBits = s.sidBits) (hcfg : t.cfg = { s.cfg with l1Desc := update s.cfg.l1Desc i desc })
    (hpool : t.mmu.pool = mmu.pool) (hwords : ∀ p, t.mmu.words p =
      if p = s.cfg.strtab + strtabL1DescSize * i then l1DescWord desc
      else (armSmmuInitBypassStes vm ptr (2 ^ strtabSplit)).foldl SmmuOp.words s.mmu.words p) :
    StrtabOk t (m.openGroup i) := by
  have hsize : strtabSteSize * 2 ^ strtabSplit = 4 * pageSize := by decide
  have htwo' : t.TwoLevel := by
    rw [Smmuv3.TwoLevel, hfeatures]
    exact htwo
  have hat (j : ℕ) : t.cfg.l1Desc j = if j = i then desc else s.cfg.l1Desc j := by
    rw [hcfg]
    exact update_apply s.cfg.l1Desc i desc j
  have hnew : t.table (some i) = some (ptr, 4 * pageSize) := by
    rw [Smmuv3.table, hat, if_pos rfl, hbits, hdesc, if_pos ⟨htwo', hi, hfresh.pos⟩, hsize]
  have hold (j : Option ℕ) (hj : j ≠ some i) : t.table j = s.table j := by
    cases j with
    | none => rw [Smmuv3.table, Smmuv3.table, Smmuv3.strtabBytes, Smmuv3.strtabBytes, if_pos htwo, if_pos htwo', hbits, hcfg]
    | some j =>
      rw [Smmuv3.table, Smmuv3.table, hat, if_neg fun heq => hj (congrArg some heq), hbits]
      simp only [htwo, htwo']
  have hfree (p : ℕ) (hp : t.InTable (some i) p) : s.mmu.pool.FreeAt p := by
    obtain ⟨r, hr, hlow, hhigh⟩ := hp
    rw [hnew] at hr
    cases hr
    exact hfresh.wasFree p hlow hhigh
  have hcase (j : Option ℕ) (p : ℕ) (hp : t.InTable j p) : j = some i ∨ s.InTable j p := by
    by_cases hj : j = some i
    · exact .inl hj
    · rw [Smmuv3.InTable, hold j hj] at hp
      exact .inr hp
  have hrange (p : ℕ) (hlow : ptr ≤ p) (hhigh : p < ptr + 4 * pageSize) : t.InTable (some i) p :=
    ⟨_, hnew, hlow, hhigh⟩
  -- what is in no new memory stays
  have hkept (j : Option ℕ) (p : ℕ) (hp : s.InTable j p) (hdescp : p ≠ s.cfg.strtab + strtabL1DescSize * i) :
      t.mmu.words p = s.mmu.words p := by
    rw [hwords, if_neg hdescp]
    refine (words_bypasses vm ptr (2 ^ strtabSplit) p).2 fun hin => ?_
    rw [hsize] at hin
    exact h.taken j p hp (hfree p (hrange p hin.1 hin.2))
  have hplace (sid : ℕ) (hsid : sid / 2 ^ strtabSplit ≠ i) : t.place sid = s.place sid := by
    rw [Smmuv3.place, Smmuv3.place, if_pos htwo, if_pos htwo', hat, if_neg hsid]
  have hplaceNew (sid : ℕ) (hsid : sid / 2 ^ strtabSplit = i) :
      t.place sid = some (ptr + strtabSteSize * (sid % 2 ^ strtabSplit)) := by
    rw [Smmuv3.place, if_pos htwo', hat, if_pos hsid, hdesc, if_neg hfresh.pos]
  have hdevice (sid : ℕ) (hsid : sid / 2 ^ strtabSplit = i) : m.device sid = none := by
    by_contra hsome
    obtain ⟨ste, hste⟩ := Option.ne_none_iff_exists'.mp hsome
    apply h.devices sid ste hste
    rw [Smmuv3.place, if_pos htwo, hsid, if_pos hclosed]
  exact {
    pool := hpool ▸ hfresh.pool
    bits := h.bits.trans hbits.symm
    twoLevel := by
      rw [decide_eq_true htwo']
      exact h.twoLevel.trans (decide_eq_true htwo)
    bits_le := hbits ▸ h.bits_le
    split_lt := fun _ => hbits ▸ h.split_lt htwo
    base := by
      rw [hcfg]
      exact h.base
    baseCfg := by
      rw [hcfg, if_pos htwo', hbits]
      exact h.baseCfg.trans (by rw [if_pos htwo])
    strtab_aligned := by
      have haligned := h.strtab_aligned
      rw [Smmuv3.strtabBytes, if_pos htwo] at haligned
      rw [Smmuv3.strtabBytes, if_pos htwo', hbits, hcfg]
      exact haligned
    l2_aligned := fun _ j hj => by
      rw [hbits] at hj
      rw [hat, hsize]
      split
      · rw [hdesc]
        exact haligned
      · exact hsize ▸ h.l2_aligned htwo j hj
    low := fun j p hp => by
      rcases hcase j p hp with rfl | hs
      · obtain ⟨r, hr, -, hhigh⟩ := hp
        rw [hnew] at hr
        cases hr
        exact Nat.lt_of_lt_of_le hhigh hfresh.low
      · exact h.low j p hs
    apart := fun j k p hj hk => by
      rcases hcase j p hj with rfl | hsj
      · rcases hcase k p hk with rfl | hsk
        · rfl
        · exact absurd (hfree p hj) (h.taken k p hsk)
      · rcases hcase k p hk with rfl | hsk
        · exact absurd (hfree p hk) (h.taken j p hsj)
        · exact h.apart j k p hsj hsk
    taken := fun j p hp => by
      rw [hpool]
      rcases hcase j p hp with rfl | hs
      · obtain ⟨r, hr, hlow, hhigh⟩ := hp
        rw [hnew] at hr
        cases hr
        exact hfresh.taken p hlow hhigh
      · exact fun hfreep => h.taken j p hs (hfresh.stillFree p hfreep)
    descs := fun _ j hj => by
      rw [hbits] at hj
      have hstrtab : t.cfg.strtab = s.cfg.strtab := by rw [hcfg]
      rw [hstrtab, hat]
      by_cases hji : j = i
      · rw [if_pos hji, hji, hwords, if_pos rfl]
      · rw [if_neg hji]
        refine (hkept none _ (desc_inTable htwo hj) ?_).trans (h.descs htwo j hj)
        simp only [strtabL1DescSize]
        omega
    opened := fun _ j hj => by
      rw [hbits] at hj
      rw [hat, StreamMap.openGroup]
      dsimp only
      by_cases hji : j = i
      · rw [hji, update_self, if_pos rfl, hdesc, decide_eq_true hfresh.pos]
      · rw [update_of_ne hji, if_neg hji]
        exact h.opened htwo j hj
    devices := fun sid ste hste => by
      by_cases hsid : sid / 2 ^ strtabSplit = i
      · rw [hplaceNew sid hsid]
        exact Option.some_ne_none _
      · rw [hplace sid hsid]
        exact h.devices sid ste hste
    entries := fun sid hsid a ha => by
      rw [hbits] at hsid
      by_cases hgroup : sid / 2 ^ strtabSplit = i
      · rw [hplaceNew sid hgroup] at ha
        cases ha
        have hmod : sid % 2 ^ strtabSplit < 2 ^ strtabSplit := Nat.mod_lt _ (Nat.two_pow_pos _)
        refine Eq.trans (steView_bypass ?_) (StreamMap.view_openGroup_self (h.bits ▸ hsid) hgroup
          (hdevice sid hgroup)).symm
        refine (hwords _).trans ?_
        rw [if_neg fun heq => ?_]
        · exact (words_bypasses vm ptr (2 ^ strtabSplit) 0).1 _ hmod
        · have hin := hrange (ptr + strtabSteSize * (sid % 2 ^ strtabSplit)) (Nat.le_add_right _ _)
            (hsize ▸ Nat.add_lt_add_left (Nat.mul_lt_mul_of_pos_left hmod (by decide)) _)
          apply h.taken none _ (desc_inTable htwo hi)
          rw [← heq]
          exact hfree _ hin
      · rw [hplace sid hgroup] at ha
        refine Eq.trans ?_ ((h.entries sid hsid a ha).trans (StreamMap.view_openGroup_of_ne hgroup).symm)
        apply steView_congr
        intro k hk
        have hin := h.place_inTable hsid ha (k := 8 * k) (by simp only [strtabSteSize]; omega)
        refine hkept _ _ hin fun heq => ?_
        rw [Smmuv3.tableOf, if_pos htwo, heq] at hin
        cases h.apart _ _ _ hin (desc_inTable htwo hi) }

end

/-! ### Calls -/

theorem issue (h : StrtabOk s m) (ent : ArmSmmuCmdqEnt) : StrtabOk (s.perform (.issue ent)) m :=
  h.stored (fun _ _ _ => rfl) h.devices h.entries

/-- `arm_smmu_init_l2_strtab`. -/
theorem init_l2_strtab (h : StrtabOk s m) (htwo : s.TwoLevel) (hsid : sid.toNat < 2 ^ s.sidBits)
    (hsound : (s.cfg.l1Desc (sid.toNat / 2 ^ strtabSplit)).l2ptr = 0 → SoundAlloc s.mmu.pool 4 true) {ret : ℤ}
    (hrun : armSmmuInitL2Strtab vm s sid = some (ret, t)) :
    ret = 0 ∧ StrtabOk t (m.openGroup (sid.toNat / 2 ^ strtabSplit)) ∧ t.TwoLevel ∧ t.sidBits = s.sidBits ∧
      t.place sid.toNat = some (armSmmuGetStepForSid t sid) := by
  have hi := h.group_lt htwo hsid
  have hstep {u : Smmuv3} (htwo' : u.TwoLevel) (hl2 : (u.cfg.l1Desc (sid.toNat / 2 ^ strtabSplit)).l2ptr ≠ 0) :
      u.place sid.toNat = some (armSmmuGetStepForSid u sid) := by
    rw [Smmuv3.place, armSmmuGetStepForSid, if_pos htwo', if_pos htwo', if_neg hl2]
  unfold armSmmuInitL2Strtab at hrun
  by_cases hl2 : (s.cfg.l1Desc (sid.toNat / 2 ^ strtabSplit)).l2ptr = 0
  · have hpages : numPages (2 ^ (strtabSplit + 3 + 3)) = 4 := by decide
    have hspan : BitVec.ofNat 8 (strtabSplit + 1) = 9 := rfl
    simp only [hl2, ne_eq, not_true_eq_false, if_false, hpages, hspan] at hrun
    obtain ⟨⟨ptr, mmu⟩, halloc, heq⟩ := Option.map_eq_some_iff.mp hrun
    obtain ⟨hfresh, haligned⟩ := memAllocPage_fresh h.pool (by decide) (hsound hl2) halloc
    dsimp only at heq
    rw [if_neg hfresh.pos] at heq
    obtain ⟨hret, ht⟩ := Prod.mk.inj heq
    have hfeatures : t.features = s.features := by
      rw [← ht, perform_features]
      rfl
    have htwo' : t.TwoLevel := by
      rw [Smmuv3.TwoLevel, hfeatures]
      exact htwo
    have hbits : t.sidBits = s.sidBits := by
      rw [← ht, perform_sidBits]
      rfl
    have hcfg : t.cfg = { s.cfg with
        l1Desc := update s.cfg.l1Desc (sid.toNat / 2 ^ strtabSplit)
          (ArmSmmuStrtabL1Desc.mk 9 ptr (BitVec.ofNat 64 ptr) 1) } := by
      rw [← ht, perform_cfg]
      rfl
    have hwords (p : ℕ) : t.mmu.words p =
        if p = s.cfg.strtab + strtabL1DescSize * (sid.toNat / 2 ^ strtabSplit) then
          l1DescWord ⟨9, ptr, BitVec.ofNat 64 ptr, 1⟩
        else (armSmmuInitBypassStes vm ptr (2 ^ strtabSplit)).foldl SmmuOp.words s.mmu.words p := by
      refine Eq.trans ?_ (words_l2 ⟨9, ptr, BitVec.ofNat 64 ptr, 1⟩ rfl rfl hfresh.pos
        ⟨cmdqOpCfgiSte, sid, 0, 0⟩ _ _ p)
      rw [← ht, perform_words, ← hfresh.words]
      rfl
    refine ⟨hret.symm, h.allocated htwo hi hl2 hfresh (haligned rfl) rfl hfeatures hbits hcfg ?_ hwords,
      htwo', hbits, hstep htwo' ?_⟩
    · rw [← ht, perform_pool]
      rfl
    · rw [hcfg]
      simp only [update_self]
      exact hfresh.pos
  · simp only [hl2, ne_eq, not_false_eq_true, if_true] at hrun
    cases hrun
    refine ⟨rfl, h.used htwo hi hl2 rfl, htwo, rfl, hstep htwo ?_⟩
    rw [s.l1Desc_setL1Desc, if_pos rfl]
    exact hl2

/-- Without second levels there is nothing to open. -/
theorem openGroup_linear (h : StrtabOk s m) (htwo : ¬s.TwoLevel) (i : ℕ) : StrtabOk s (m.openGroup i) := by
  have hview (sid : ℕ) : (m.openGroup i).view sid = m.view sid := by
    simp only [StreamMap.view, StreamMap.openGroup, h.twoLevel, decide_eq_false htwo, Bool.false_and]
  exact { h with
    opened := fun htrue => absurd htrue htwo
    entries := fun sid hsid a ha => (h.entries sid hsid a ha).trans (hview sid).symm }

/-- A device is registered. -/
theorem vm_dev_init (h : StrtabOk s m) {vmid : BitVec 64} (hsid : sid.toNat < 2 ^ s.sidBits)
    (hsound : s.TwoLevel → (s.cfg.l1Desc (sid.toNat / 2 ^ strtabSplit)).l2ptr = 0 →
      SoundAlloc s.mmu.pool 4 true) {ret : ℤ} (hrun : armSmmuv3VmDevInit vm s vmid sid = some (ret, t)) :
    ret = 0 ∧ StrtabOk t (m.attach sid.toNat (stage2View (vmid.setWidth 32) vm.root)) := by
  obtain ⟨⟨ret', u⟩, hste, heq⟩ := Option.map_eq_some_iff.mp hrun
  obtain ⟨⟨ret'', v⟩, hopen, heq'⟩ := Option.map_eq_some_iff.mp hste
  have hopened : ret'' = 0 ∧ StrtabOk v (m.openGroup (sid.toNat / 2 ^ strtabSplit)) ∧ v.sidBits = s.sidBits ∧
      v.place sid.toNat = some (armSmmuGetStepForSid v sid) := by
    by_cases htwo : s.TwoLevel
    · rw [if_pos htwo] at hopen
      obtain ⟨hret, hok, -, hbits, hplace⟩ := h.init_l2_strtab htwo hsid (hsound htwo) hopen
      exact ⟨hret, hok, hbits, hplace⟩
    · rw [if_neg htwo] at hopen
      cases hopen
      refine ⟨rfl, h.openGroup_linear htwo _, rfl, ?_⟩
      rw [Smmuv3.place, armSmmuGetStepForSid, if_neg htwo, if_neg htwo]
  obtain ⟨rfl, hok, hbits, hplace⟩ := hopened
  cases heq'
  cases heq
  exact ⟨rfl, (hok.write_strtab_ent (hbits ▸ hsid) hplace).issue _⟩

end StrtabOk

end Avisor
