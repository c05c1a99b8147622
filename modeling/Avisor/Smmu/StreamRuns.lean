import Avisor.Smmu.StreamLookup

/-!
# Registrations one after another

The table is built, then devices are registered in any order, while the rest of the hypervisor takes pages
from the allocator and writes to memory that is not the table's.
-/

namespace Avisor

open Function

variable {s t : Smmuv3} {vm : CurrentVm} {m : StreamMap} {i n p : ℕ} {ret : ℤ}

/-! ### Building the table -/

/-- A table for no devices. -/
def StreamMap.start (bits : ℕ) (twoLevel : Bool) : StreamMap :=
  ⟨bits, twoLevel, fun _ => none, fun _ => false⟩

/-- What the allocator is asked for a table of `2 ^ w` bytes is one. -/
theorem FreshPagesAt.table {s t : MmuState} {base w : ℕ} (hw : w < 48)
    (h : FreshPagesAt s t base (numPages (2 ^ w))) (haligned : numPages (2 ^ w) * pageSize ∣ base) :
    2 ^ w ∣ base ∧ 2 ^ 6 ∣ base ∧ ∀ p, base ≤ p → p < base + 2 ^ w → p < 2 ^ 48 ∧ ¬t.pool.FreeAt p := by
  obtain ⟨hle, hdvd⟩ := numPages_two_pow hw
  have hlow := h.low
  have hpage : 2 ^ 6 ∣ pageSize := by decide
  refine ⟨Nat.dvd_trans hdvd haligned, Nat.dvd_trans (Nat.dvd_trans hpage (Nat.dvd_mul_left _ _)) haligned,
    fun p hp hlt => ⟨by omega, h.taken p hp (by omega)⟩⟩

theorem one_le_numPages {w : ℕ} (hw : w < 48) : 1 ≤ numPages (2 ^ w) := by
  have hle := (numPages_two_pow hw).1
  have hpos := Nat.two_pow_pos w
  rcases Nat.eq_zero_or_pos (numPages (2 ^ w)) with hzero | hpos'
  · rw [hzero] at hle
    omega
  · exact hpos'

/-- `arm_smmu_init_strtab` for a linear table. -/
theorem init_strtab_linear (hpool : s.mmu.pool.InMemory) (htwo : ¬s.TwoLevel) (hbits : s.sidBits ≤ 25)
    (hsound : SoundAlloc s.mmu.pool (numPages (2 ^ (s.sidBits + 6))) true)
    (hrun : armSmmuInitStrtab vm s = some (ret, t)) :
    ret = 0 ∧ StrtabOk t (.start s.sidBits false) ∧ t.sidBits = s.sidBits := by
  obtain ⟨⟨ret', u⟩, hlinear, heq⟩ := Option.map_eq_some_iff.mp hrun
  rw [if_neg htwo] at hlinear
  obtain ⟨⟨strtab, mmu⟩, halloc, heq'⟩ := Option.map_eq_some_iff.mp hlinear
  have hpow : 2 ^ (s.sidBits + 6) = strtabSteSize * 2 ^ s.sidBits := by
    rw [Nat.pow_add, Nat.mul_comm]
    rfl
  have hsize : 2 ^ s.sidBits * strtabSteSize % 2 ^ 32 = 2 ^ (s.sidBits + 6) := by
    have hle : 2 ^ s.sidBits ≤ 2 ^ 25 := Nat.pow_le_pow_right (by decide) hbits
    rw [Nat.pow_add, strtabSteSize, Nat.mod_eq_of_lt (by omega)]
  rw [hsize] at halloc
  obtain ⟨hfresh, haligned⟩ := memAllocPage_fresh hpool (one_le_numPages (by omega)) hsound halloc
  obtain ⟨hdvd, hdvd6, hrange⟩ := hfresh.table (by omega) (haligned rfl)
  rw [hpow] at hdvd hrange
  dsimp only at heq'
  rw [if_neg hfresh.pos] at heq'
  obtain ⟨rfl, hu⟩ := Prod.mk.inj heq'
  simp only [ne_eq, not_true_eq_false, if_false] at heq
  obtain ⟨rfl, ht⟩ := Prod.mk.inj heq
  have hfeatures : t.features = s.features := by rw [← ht, ← hu, perform_features]
  have htwo' : ¬t.TwoLevel := by
    rw [Smmuv3.TwoLevel, hfeatures]
    exact htwo
  have hbits' : t.sidBits = s.sidBits := by rw [← ht, ← hu, perform_sidBits]
  have hstrtab : t.cfg.strtab = strtab := by rw [← ht, ← hu, perform_cfg]
  have hbytes : t.strtabBytes = strtabSteSize * 2 ^ s.sidBits := by
    rw [Smmuv3.strtabBytes, if_neg htwo', hbits']
  have hpool' : t.mmu.pool = mmu.pool := by rw [← ht, ← hu, perform_pool]
  have hwords (p : ℕ) : t.mmu.words p =
      (armSmmuInitBypassStes vm strtab (2 ^ s.sidBits)).foldl SmmuOp.words mmu.words p := by
    rw [← ht, ← hu, perform_words]
  have hin (j : Option ℕ) (p : ℕ) (hp : t.InTable j p) :
      j = none ∧ strtab ≤ p ∧ p < strtab + strtabSteSize * 2 ^ s.sidBits := by
    obtain ⟨r, hr, hlow, hhigh⟩ := hp
    cases j with
    | none =>
      cases hr
      rw [hbytes] at hhigh
      rw [hstrtab] at hlow hhigh
      exact ⟨rfl, hlow, hhigh⟩
    | some j =>
      rw [Smmuv3.table, if_neg fun hall => htwo' hall.1] at hr
      cases hr
  refine ⟨rfl, ?_, hbits'⟩
  exact {
    pool := hpool' ▸ hfresh.pool
    bits := hbits'.symm
    twoLevel := (decide_eq_false htwo').symm
    bits_le := hbits' ▸ hbits
    split_lt := fun htrue => absurd htrue htwo'
    base := by rw [← ht, ← hu, perform_cfg]
    baseCfg := by
      rw [if_neg htwo', hbits', ← ht, ← hu, perform_cfg]
    strtab_aligned := by
      rw [hbytes, hstrtab]
      exact ⟨hdvd, hdvd6⟩
    l2_aligned := fun htrue => absurd htrue htwo'
    low := fun j p hp => (hrange p (hin j p hp).2.1 (hin j p hp).2.2).1
    apart := fun j k p hj hk => (hin j p hj).1.trans (hin k p hk).1.symm
    taken := fun j p hp => hpool' ▸ (hrange p (hin j p hp).2.1 (hin j p hp).2.2).2
    descs := fun htrue => absurd htrue htwo'
    opened := fun htrue => absurd htrue htwo'
    devices := fun _ _ hsome => by cases hsome
    entries := fun sid hsid a ha => by
      rw [Smmuv3.place, if_neg htwo', hstrtab] at ha
      cases ha
      rw [hbits'] at hsid
      refine Eq.trans (steView_bypass ?_) (if_neg (Nat.not_le.mpr hsid)).symm
      exact (hwords _).trans ((words_bypasses vm strtab (2 ^ s.sidBits) 0).1 sid hsid) }

/-- What the loop of `arm_smmu_init_l1_strtab` leaves behind. -/
structure L1Cleared (s t : Smmuv3) (n : ℕ) : Prop where
  features : t.features = s.features
  sidBits : t.sidBits = s.sidBits
  pool : t.mmu.pool = s.mmu.pool
  cfg : ∃ l1Desc, t.cfg = { s.cfg with l1Desc := l1Desc } ∧ ∀ j < n, (l1Desc j).l2ptr = 0
  words : ∀ j < n, t.mmu.words (s.cfg.strtab + strtabL1DescSize * j) = 0

theorem l1Cleared (s : Smmuv3) (n : ℕ) : L1Cleared s ((List.range n).foldl
    (fun s n => (armSmmuWriteStrtabL1Desc (s.cfg.strtab + strtabL1DescSize * n) noL1Desc).foldl
      Smmuv3.perform (s.setL1Desc n noL1Desc)) s) n := by
  induction n with
  | zero =>
    exact ⟨rfl, rfl, rfl, ⟨_, rfl, fun j hj => absurd hj (Nat.not_lt_zero j)⟩,
      fun j hj => absurd hj (Nat.not_lt_zero j)⟩
  | succ n ih =>
    rw [List.range_succ, List.foldl_append, List.foldl_cons, List.foldl_nil]
    generalize (List.range n).foldl
      (fun s n => (armSmmuWriteStrtabL1Desc (s.cfg.strtab + strtabL1DescSize * n) noL1Desc).foldl
        Smmuv3.perform (s.setL1Desc n noL1Desc)) s = t at ih
    obtain ⟨l1Desc, hcfg, hzero⟩ := ih.cfg
    have hval : fieldPrep strtabL1DescSpan (noL1Desc.span.setWidth 64) |||
        noL1Desc.l2ptrDma &&& strtabL1DescL2ptrMask = 0 := by decide +kernel
    have hstrtab : t.cfg.strtab = s.cfg.strtab := by rw [hcfg]
    refine ⟨?_, ?_, ?_, ⟨update l1Desc n noL1Desc, ?_, fun j hj => ?_⟩, fun j hj => ?_⟩
    · rw [perform_features, ← ih.features]
      rfl
    · rw [perform_sidBits, ← ih.sidBits]
      rfl
    · rw [perform_pool, ← ih.pool]
      rfl
    · rw [perform_cfg, Smmuv3.setL1Desc, hcfg]
    · rw [update_apply]
      split
      · rfl
      · exact hzero j (by omega)
    · rw [perform_words, armSmmuWriteStrtabL1Desc, hval, hstrtab]
      refine (update_apply _ _ _ _).trans ?_
      by_cases hjn : j = n
      · rw [hjn, if_pos rfl]
      · rw [if_neg ?_]
        · exact ih.words j (by omega)
        · simp only [strtabL1DescSize]
          omega

/-- How many bits of the number of a stream a table with two levels covers. -/
def twoLevelBits (sidBits : ℕ) : ℕ := min 17 (sidBits - strtabSplit) + strtabSplit

/-- `arm_smmu_init_strtab` for a table with two levels. -/
theorem init_strtab_2lvl (hpool : s.mmu.pool.InMemory) (htwo : s.TwoLevel) (hsplit : strtabSplit < s.sidBits)
    (hbits : s.sidBits < 2 ^ 32)
    (hsound : SoundAlloc s.mmu.pool (numPages (2 ^ (twoLevelBits s.sidBits - strtabSplit + 3))) true)
    (hsound' : ∀ strtab mmu, memAllocPage s.mmu
      (numPages (2 ^ (twoLevelBits s.sidBits - strtabSplit + 3))) true = some (strtab, mmu) →
        SoundAlloc mmu.pool (numPages (2 ^ (twoLevelBits s.sidBits - strtabSplit + 5))) false)
    (hrun : armSmmuInitStrtab vm s = some (ret, t)) :
    ret = 0 ∧ StrtabOk t (.start (twoLevelBits s.sidBits) true) ∧ t.sidBits = twoLevelBits s.sidBits := by
  obtain ⟨⟨ret', u⟩, h2lvl, heq⟩ := Option.map_eq_some_iff.mp hrun
  rw [if_pos htwo] at h2lvl
  have hwrap : (s.sidBits + (2 ^ 32 - strtabSplit)) % 2 ^ 32 = s.sidBits - strtabSplit := by
    simp only [strtabSplit] at *
    omega
  obtain ⟨l1bits, hl1⟩ : ∃ l1bits, l1bits = min (strtabL1SzShift - 3) (s.sidBits - strtabSplit) := ⟨_, rfl⟩
  have hl1bits : twoLevelBits s.sidBits - strtabSplit = l1bits := by
    rw [hl1]
    exact Nat.add_sub_cancel _ _
  have hl1le : l1bits ≤ s.sidBits - strtabSplit := hl1 ▸ Nat.min_le_right _ _
  have hl1le17 : l1bits ≤ 17 := hl1 ▸ Nat.min_le_left _ _
  have hsid : (if l1bits + strtabSplit < s.sidBits then l1bits + strtabSplit else s.sidBits) =
      l1bits + strtabSplit := by
    split
    · rfl
    · omega
  have hle : 2 ^ l1bits ≤ 2 ^ 17 := Nat.pow_le_pow_right (by decide) hl1le17
  have hsize : 2 ^ l1bits * strtabL1DescSize % 2 ^ 32 = 2 ^ (l1bits + 3) := by
    rw [Nat.pow_add, strtabL1DescSize, Nat.mod_eq_of_lt (by omega)]
  have hsize' : 32 * 2 ^ l1bits % 2 ^ 32 = 2 ^ (l1bits + 5) := by
    rw [Nat.pow_add, Nat.mul_comm, Nat.mod_eq_of_lt (by omega)]
  rw [hl1bits] at hsound hsound'
  unfold armSmmuInitStrtab2lvl at h2lvl
  rw [hwrap, ← hl1] at h2lvl
  dsimp only at h2lvl
  rw [hsid, hsize] at h2lvl
  obtain ⟨⟨strtab, mmu⟩, halloc, h2lvl⟩ := Option.bind_eq_some_iff.mp h2lvl
  obtain ⟨hfresh, haligned⟩ := memAllocPage_fresh hpool (one_le_numPages (by omega)) hsound halloc
  obtain ⟨hdvd, hdvd6, hrange⟩ := hfresh.table (by omega) (haligned rfl)
  dsimp only at h2lvl
  rw [if_neg hfresh.pos] at h2lvl
  obtain ⟨⟨l1Desc, mmu'⟩, halloc', heq'⟩ := Option.map_eq_some_iff.mp h2lvl
  dsimp only at halloc' heq'
  rw [hsize'] at halloc'
  obtain ⟨hfresh', -⟩ := memAllocPage_fresh hfresh.pool (one_le_numPages (by omega)) (hsound' _ _ halloc) halloc'
  rw [if_neg hfresh'.pos] at heq'
  obtain ⟨rfl, hu⟩ := Prod.mk.inj heq'
  simp only [ne_eq, not_true_eq_false, if_false] at heq
  obtain ⟨rfl, ht⟩ := Prod.mk.inj heq
  -- behind the loop
  have hcleared := l1Cleared { s with
    mmu := mmu'
    sidBits := l1bits + strtabSplit
    cfg := { s.cfg with
      strtab := strtab
      strtabDma := BitVec.ofNat 64 strtab
      numL1Ents := 2 ^ l1bits
      strtabBaseCfg := (fieldPrep strtabBaseCfgFmt strtabBaseCfgFmt2lvl |||
        fieldPrep strtabBaseCfgLog2size (BitVec.ofNat 64 (l1bits + strtabSplit)) |||
        fieldPrep strtabBaseCfgSplit (BitVec.ofNat 64 strtabSplit)).setWidth 32 } } (2 ^ l1bits)
  rw [hu] at hcleared
  obtain ⟨l1Descs, hcfg, hnull⟩ := hcleared.cfg
  have hfeatures : t.features = s.features := by rw [← ht, hcleared.features]
  have htwo' : t.TwoLevel := by
    rw [Smmuv3.TwoLevel, hfeatures]
    exact htwo
  have hbits' : t.sidBits = l1bits + strtabSplit := by rw [← ht, hcleared.sidBits]
  have hgroups : t.sidBits - strtabSplit = l1bits := by
    rw [hbits']
    exact Nat.add_sub_cancel _ _
  have hall : twoLevelBits s.sidBits = l1bits + strtabSplit := by
    rw [hl1]
    rfl
  have hstrtab : t.cfg.strtab = strtab := by rw [← ht, hcfg]
  have hl2 (j : ℕ) (hj : j < 2 ^ l1bits) : (t.cfg.l1Desc j).l2ptr = 0 := by
    rw [← ht, hcfg]
    exact hnull j hj
  have hpool' : t.mmu.pool = mmu'.pool := by rw [← ht, hcleared.pool]
  have hbytes : t.strtabBytes = 2 ^ (l1bits + 3) := by
    rw [Smmuv3.strtabBytes, if_pos htwo', hgroups, Nat.pow_add, Nat.mul_comm]
    rfl
  have hin (j : Option ℕ) (p : ℕ) (hp : t.InTable j p) :
      j = none ∧ strtab ≤ p ∧ p < strtab + 2 ^ (l1bits + 3) := by
    obtain ⟨r, hr, hlow, hhigh⟩ := hp
    cases j with
    | none =>
      cases hr
      rw [hbytes] at hhigh
      rw [hstrtab] at hlow hhigh
      exact ⟨rfl, hlow, hhigh⟩
    | some j =>
      rw [Smmuv3.table, hgroups, if_neg fun hboth => hboth.2.2 (hl2 j hboth.2.1)] at hr
      cases hr
  have hplace (sid : ℕ) (hsid : sid < 2 ^ t.sidBits) : t.place sid = none := by
    rw [hbits', Nat.pow_add, Nat.mul_comm] at hsid
    rw [Smmuv3.place, if_pos htwo', if_pos (hl2 _ (Nat.div_lt_of_lt_mul hsid))]
  rw [hall]
  refine ⟨rfl, ?_, hbits'⟩
  exact {
    pool := hpool' ▸ hfresh'.pool
    bits := hbits'.symm
    twoLevel := (decide_eq_true htwo').symm
    bits_le := by
      rw [hbits', strtabSplit]
      omega
    split_lt := fun _ => by
      have hpos : 0 < l1bits := hl1 ▸ Nat.lt_min.mpr ⟨by decide, Nat.sub_pos_of_lt hsplit⟩
      rw [hbits']
      omega
    base := by rw [← ht, hcfg]
    baseCfg := by rw [if_pos htwo', hbits', ← ht, hcfg]
    strtab_aligned := by
      rw [hbytes, hstrtab]
      exact ⟨hdvd, hdvd6⟩
    l2_aligned := fun _ j hj => by
      rw [hgroups] at hj
      rw [hl2 j hj]
      exact Nat.dvd_zero _
    low := fun j p hp => (hrange p (hin j p hp).2.1 (hin j p hp).2.2).1
    apart := fun j k p hj hk => (hin j p hj).1.trans (hin k p hk).1.symm
    taken := fun j p hp hfree =>
      (hrange p (hin j p hp).2.1 (hin j p hp).2.2).2 (hfresh'.stillFree p (hpool' ▸ hfree))
    descs := fun _ j hj => by
      rw [hgroups] at hj
      rw [l1DescWord, if_pos (hl2 j hj), hstrtab, ← ht]
      exact hcleared.words j hj
    opened := fun _ j hj => by
      rw [hgroups] at hj
      rw [hl2 j hj]
      rfl
    devices := fun _ _ hsome => by cases hsome
    entries := fun sid hsid a ha => by
      rw [hplace sid hsid] at ha
      cases ha }

/-! ### Runs -/

/-- A device is registered, pages are handed out to others, or others write to memory. -/
inductive StrtabAction
  | devInit (vm : CurrentVm) (vmid : BitVec 64) (sid : BitVec 32)
  | alloc (n : ℕ) (aligned : Bool)
  | store (dst : ℕ) (val : BitVec 64)

/-- What `arm_smmu_device_init_features` leaves for the table, before any of it is built. -/
structure StrtabBoot (s : Smmuv3) : Prop where
  pool : s.mmu.pool.InMemory
  linear : ¬s.TwoLevel → s.sidBits ≤ 25 ∧ SoundAlloc s.mmu.pool (numPages (2 ^ (s.sidBits + 6))) true
  split : s.TwoLevel → strtabSplit < s.sidBits ∧ s.sidBits < 2 ^ 32
  first : s.TwoLevel → SoundAlloc s.mmu.pool (numPages (2 ^ (twoLevelBits s.sidBits - strtabSplit + 3))) true
  second : s.TwoLevel → ∀ strtab mmu, memAllocPage s.mmu
    (numPages (2 ^ (twoLevelBits s.sidBits - strtabSplit + 3))) true = some (strtab, mmu) →
      SoundAlloc mmu.pool (numPages (2 ^ (twoLevelBits s.sidBits - strtabSplit + 5))) false

/-- `arm_smmu_init_strtab`, then calls of `arm_smmuv3_vm_dev_init` and what others do. -/
def strtabMachine : Machine Smmuv3 StrtabAction where
  Init t := ∃ vm s ret, StrtabBoot s ∧ armSmmuInitStrtab vm s = some (ret, t)
  step s
    | .devInit vm vmid sid => (armSmmuv3VmDevInit vm s vmid sid).map Prod.snd
    | .alloc n aligned => (memAllocPage s.mmu n aligned).map fun (_, mmu) => { s with mmu := mmu }
    | .store dst val => some (s.store dst val)

namespace StrtabAction

/-- The stream is one that the table covers, the allocator is sound where it is asked, and others leave the
tables alone. -/
def Fits (s : Smmuv3) : StrtabAction → Prop
  | devInit _ _ sid => sid.toNat < 2 ^ s.sidBits ∧ (s.TwoLevel →
      (s.cfg.l1Desc (sid.toNat / 2 ^ strtabSplit)).l2ptr = 0 → SoundAlloc s.mmu.pool 4 true)
  | alloc n aligned => 1 ≤ n ∧ SoundAlloc s.mmu.pool n aligned
  | store dst _ => ∀ i, ¬s.InTable i dst

/-- The stream that gets a device, with its entry. -/
def device : StrtabAction → Option (ℕ × SteStage2)
  | devInit vm vmid sid => some (sid.toNat, stage2View (vmid.setWidth 32) vm.root)
  | _ => none

end StrtabAction

/-- The registrations of a run. -/
def registrations (as : List StrtabAction) : List (ℕ × SteStage2) := as.filterMap StrtabAction.device

/-- What the table is for behind registrations. -/
def StreamMap.attachAll (m : StreamMap) (devices : List (ℕ × SteStage2)) : StreamMap :=
  devices.foldl (fun m d => m.attach d.1 d.2) m

theorem StrtabOk.alloc (h : StrtabOk s m) {aligned : Bool} {base : ℕ} {mmu : MmuState} (hn : 1 ≤ n)
    (hsound : SoundAlloc s.mmu.pool n aligned) (hrun : memAllocPage s.mmu n aligned = some (base, mmu)) :
    StrtabOk { s with mmu := mmu } m := by
  obtain ⟨hfresh, -⟩ := memAllocPage_fresh h.pool hn hsound hrun
  have hwords : mmu.words = s.mmu.words := hfresh.words
  exact { h with
    pool := hfresh.pool
    taken := fun i p hp hfree => h.taken i p hp (hfresh.stillFree p hfree)
    descs := fun htwo i hi => by
      rw [hwords]
      exact h.descs htwo i hi
    entries := fun sid hsid a ha => by
      rw [hwords]
      exact h.entries sid hsid a ha }

theorem StrtabOk.store (h : StrtabOk s m) {dst : ℕ} (hout : ∀ i, ¬s.InTable i dst) (val : BitVec 64) :
    StrtabOk (s.store dst val) m := by
  have hwords (i : Option ℕ) (p : ℕ) (hp : s.InTable i p) :
      update s.mmu.words dst val p = s.mmu.words p := by
    refine update_of_ne ?_ _ _
    rintro rfl
    exact hout i hp
  refine h.stored (fun _ p => hwords none p) h.devices fun sid hsid a ha => ?_
  refine Eq.trans (steView_congr fun i hi => ?_) (h.entries sid hsid a ha)
  exact hwords _ _ (h.place_inTable hsid ha (by simp only [strtabSteSize]; omega))

/-- A step keeps the tables in order, and the registrations are what it does to them. -/
theorem StrtabOk.step (h : StrtabOk s m) {a : StrtabAction} (hfits : a.Fits s)
    (hstep : strtabMachine.step s a = some t) : StrtabOk t (m.attachAll (registrations [a])) := by
  cases a with
  | devInit vm vmid sid =>
    obtain ⟨⟨ret, u⟩, hrun, rfl⟩ := Option.map_eq_some_iff.mp hstep
    exact (h.vm_dev_init hfits.1 hfits.2 hrun).2
  | alloc n aligned =>
    obtain ⟨⟨base, mmu⟩, hrun, rfl⟩ := Option.map_eq_some_iff.mp hstep
    exact h.alloc hfits.1 hfits.2 hrun
  | store dst val =>
    cases hstep
    exact h.store hfits val

theorem StrtabOk.run {as : List StrtabAction} (h : StrtabOk s m) (hrun : strtabMachine.Run s as t)
    (hfits : strtabMachine.EachStep (fun s a => a.Fits s) s as) :
    StrtabOk t (m.attachAll (registrations as)) := by
  induction hrun generalizing m with
  | nil => exact h
  | @cons s u t a as hstep _ ih =>
    obtain ⟨hfit, hrest⟩ := hfits u hstep
    have hsplit : registrations (a :: as) = registrations [a] ++ registrations as :=
      List.filterMap_append (l := [a])
    rw [hsplit, StreamMap.attachAll, List.foldl_append]
    exact ih (h.step hfit hstep) hrest

theorem StrtabBoot.start (hboot : StrtabBoot s) (hrun : armSmmuInitStrtab vm s = some (ret, t)) :
    StrtabOk t (.start t.sidBits (decide t.TwoLevel)) := by
  by_cases htwo : s.TwoLevel
  · obtain ⟨-, hok, hbits⟩ := init_strtab_2lvl hboot.pool htwo (hboot.split htwo).1 (hboot.split htwo).2
      (hboot.first htwo) (hboot.second htwo) hrun
    rw [← hok.twoLevel, hbits]
    exact hok
  · obtain ⟨-, hok, hbits⟩ := init_strtab_linear hboot.pool htwo (hboot.linear htwo).1 (hboot.linear htwo).2 hrun
    rw [← hok.twoLevel, hbits]
    exact hok

namespace StreamMap

theorem attach_device (m : StreamMap) (sid : ℕ) (ste : SteStage2) (i : ℕ) :
    (m.attach sid ste).device i = if i = sid then some ste else m.device i :=
  update_apply m.device sid (some ste) i

theorem attach_opened (m : StreamMap) (sid : ℕ) (ste : SteStage2) (i : ℕ) :
    (m.attach sid ste).opened i = if i = sid / 2 ^ strtabSplit then true else m.opened i :=
  update_apply m.opened (sid / 2 ^ strtabSplit) true i

theorem attachAll_concat (m : StreamMap) (ds : List (ℕ × SteStage2)) (d : ℕ × SteStage2) :
    m.attachAll (ds ++ [d]) = (m.attachAll ds).attach d.1 d.2 := by
  rw [attachAll, List.foldl_append]
  rfl

theorem attachAll_bits (m : StreamMap) (ds : List (ℕ × SteStage2)) :
    (m.attachAll ds).bits = m.bits ∧ (m.attachAll ds).twoLevel = m.twoLevel := by
  induction ds using List.reverseRecOn with
  | nil => exact ⟨rfl, rfl⟩
  | append_singleton ds d ih =>
    rw [attachAll_concat]
    exact ih

/-- The last registration of a stream is the one that counts. -/
theorem attachAll_device (m : StreamMap) (ds : List (ℕ × SteStage2)) (sid : ℕ) : (m.attachAll ds).device sid =
    ((ds.reverse.find? fun d => d.1 = sid).map Prod.snd).or (m.device sid) := by
  induction ds using List.reverseRecOn with
  | nil => rfl
  | append_singleton ds d ih =>
    rw [attachAll_concat, List.reverse_append, List.reverse_singleton, List.singleton_append, List.find?_cons]
    by_cases hd : d.1 = sid
    · rw [decide_eq_true hd, attach_device, if_pos hd.symm]
      rfl
    · rw [decide_eq_false hd, attach_device, if_neg (Ne.symm hd), ih]

/-- A registration opens the second level of its stream. -/
theorem attachAll_opened (m : StreamMap) (ds : List (ℕ × SteStage2)) (i : ℕ) : (m.attachAll ds).opened i =
    (ds.any (fun d => d.1 / 2 ^ strtabSplit = i) || m.opened i) := by
  induction ds using List.reverseRecOn with
  | nil => rfl
  | append_singleton ds d ih =>
    rw [attachAll_concat, List.any_append, List.any_cons, List.any_nil, Bool.or_false]
    by_cases hd : d.1 / 2 ^ strtabSplit = i
    · rw [decide_eq_true hd, Bool.or_true, Bool.true_or, attach_opened, if_pos hd.symm]
    · rw [decide_eq_false hd, Bool.or_false, attach_opened, if_neg (Ne.symm hd), ih]

end StreamMap

/-- An SMMU with 512 streams and two levels, and eight free pages. -/
def streams512 : Smmuv3 where
  mmu := zeroedTables eightPages
  features := 1
  sidBits := 9
  cfg := ⟨0, 0, fun _ => noL1Desc, 0, 0, 0⟩
  issued := []

/-- The table of `streams512` before any device. -/
def emptyStreams : Smmuv3 := ((armSmmuInitStrtab ⟨0, 0⟩ streams512).getD (0, streams512)).2

theorem streams512_boot : StrtabBoot streams512 := by
  have hbits : twoLevelBits streams512.sidBits = 9 := by decide
  have hfirst : numPages (2 ^ (9 - strtabSplit + 3)) = 1 := by decide
  have hsecond : numPages (2 ^ (9 - strtabSplit + 5)) = 1 := by decide
  refine ⟨eightPages_inMemory, fun htwo => absurd (by decide) htwo, fun _ => by decide, fun _ => ?_,
    fun _ strtab mmu halloc => ?_⟩
  · rw [hbits, hfirst]
    exact soundAlloc_of_found eightPages_inMemory.toPlaced (by decide) (by decide) (by decide) (by decide)
  · rw [hbits, hfirst, memAllocPage, streams512, eightPages_root] at halloc
    cases halloc
    rw [hbits, hsecond]
    exact soundAlloc_of_found ⟨by decide, by decide, by decide⟩ (by decide) (by decide) (by decide) (by decide)

/-- VM 7 gets stream 5, and VM 8 gets it behind it. -/
def streamsRun : List StrtabAction := [.devInit ⟨7, 0x50010000⟩ 7 5, .devInit ⟨8, 0x50020000⟩ 8 5]

def busyStreams : Smmuv3 := (strtabMachine.run emptyStreams streamsRun).getD emptyStreams

theorem streamsRun_fits : strtabMachine.EachStep (fun s a => a.Fits s) emptyStreams streamsRun := by
  refine fun u hu => ⟨⟨by decide +kernel, fun _ _ => ?_⟩, fun v _ => ⟨⟨?_, fun _ hclosed => ?_⟩, trivial⟩⟩
  · refine soundAlloc_of_found ⟨?_, ?_, ?_⟩ (by decide) ?_ ?_ ?_
    all_goals decide +kernel
  · have hbits : (strtabMachine.step emptyStreams (.devInit ⟨7, 0x50010000⟩ 7 5)).map Smmuv3.sidBits =
        some 9 := by decide +kernel
    rw [hu] at hbits
    rw [Option.some.inj hbits]
    decide
  · have hopen : (strtabMachine.step emptyStreams (.devInit ⟨7, 0x50010000⟩ 7 5)).map
        (fun u => (u.cfg.l1Desc 0).l2ptr) = some 0x50004000 := by decide +kernel
    rw [hu] at hopen
    have hzero : (u.cfg.l1Desc 0).l2ptr = 0 := hclosed
    rw [Option.map_some, hzero] at hopen
    cases hopen

theorem emptyStreams_init : strtabMachine.Init emptyStreams := by
  have hsome : (armSmmuInitStrtab ⟨0, 0⟩ streams512).isSome = true := by decide +kernel
  obtain ⟨⟨ret, t⟩, ht⟩ := Option.isSome_iff_exists.mp hsome
  refine ⟨⟨0, 0⟩, streams512, ret, streams512_boot, ?_⟩
  rw [emptyStreams, ht]
  rfl

theorem busyStreams_run : strtabMachine.Run emptyStreams streamsRun busyStreams := by
  have hsome : (strtabMachine.run emptyStreams streamsRun).isSome = true := by decide +kernel
  obtain ⟨t, ht⟩ := Option.isSome_iff_exists.mp hsome
  apply Machine.run_eq_some_iff.mp
  rw [busyStreams, ht]
  rfl

end Avisor
