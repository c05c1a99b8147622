import Avisor.Lib.Machine
import Avisor.Lib.TernaryPattern
import Avisor.Smmu.State

/-!
# Stream matching

An addition that covers entries of the table takes them off the bitmap, not out of the hardware: their
`SMR` stay valid and their bits in the group bitmap stay set. One such entry does no harm, since the
addition goes into its slot again. With two of them the second stays behind in the hardware.
-/

namespace Avisor

open Function

/-- What `iommu_vm_arch_add` adds for a context. -/
structure SmeAddition where
  mask : BitVec 32
  id : BitVec 32
  ctx : Nat
  group : Bool
  deriving DecidableEq, Repr

/-- An addition without the test of `iommu_vm_arch_add` for `sme < 0`; with the slot written, if one
was. -/
def smmuAddSme (s : Smmu) (a : SmeAddition) : Option (Option Nat × Smmu) :=
  (smmuCompatibleSmeExists s a.mask a.id a.ctx a.group).bind fun (included, s) =>
    if included then some (none, s)
    else
      let (sme, s) := smmuAllocSme s
      (smmuWriteSme s sme a.mask a.id a.group).bind fun s =>
        (smmuWriteS2c s sme a.ctx).map fun s => (some sme, s)

/-! ### The runs -/

/-- The SMMU with the additions made so far, and for each slot the one written there last. -/
structure StreamTable where
  smmu : Smmu
  added : List SmeAddition
  writer : Nat → Option SmeAddition

inductive StreamAction
  | allocCtx
  | add (a : SmeAddition)
  deriving DecidableEq, Repr

/-- Allocations of contexts, and additions for allocated ones that do not end in an `ERROR`. The id is
masked as `iommu_vm_arch_add` does. -/
def streamMachine (parange : Nat) : Machine StreamTable StreamAction where
  Init x := (∃ hw, smmuInit parange hw = some x.smmu) ∧ x.smmu.smeNum ≤ smeMaxNum ∧
    x.smmu.ctxNum ≤ ctxMaxNum ∧ x.added = [] ∧ x.writer = fun _ => none
  step x
    | .allocCtx => some { x with smmu := (smmuAllocCtxbnk x.smmu).2 }
    | .add a =>
      let a := { a with id := a.id &&& smmuIdMsk }
      if a.ctx < x.smmu.ctxNum ∧ bitmapGet x.smmu.ctxbankBitmap a.ctx then
        (smmuAddSme x.smmu a).map fun (sme, s) =>
          { smmu := s
            added := a :: x.added
            writer := match sme with
              | some i => update x.writer i (some a)
              | none => x.writer }
      else none

/-! ### What the hardware matches -/

/-- The stream ids that a mask and an id stand for: only the bits of `SMMU_ID_MSK` count. -/
def smePattern (mask id : BitVec 32) : TernaryPattern 32 := ⟨mask ||| ~~~smmuIdMsk, id⟩

def SmeAddition.pattern (a : SmeAddition) : TernaryPattern 32 := smePattern a.mask a.id

/-- The pattern in the `SMR` of an entry. -/
def Smmu.pattern (s : Smmu) (sme : Nat) : TernaryPattern 32 :=
  smePattern (smmuSmeGetMask s sme) (smmuSmeGetId s sme)

def Smmu.Valid (s : Smmu) (sme : Nat) : Prop := s.smr sme &&& smmuv2SmrValid ≠ 0

/-- The entry matches the stream id. -/
def Smmu.Matches (s : Smmu) (sme : Nat) (stream : BitVec 32) : Prop :=
  s.Valid sme ∧ (s.pattern sme).Matches stream

/-- The book-keeping tells what the hardware does, and the hardware tells the streams apart. -/
structure StreamTable.Unambiguous (x : StreamTable) : Prop where
  valid : ∀ i < x.smmu.smeNum, x.smmu.Valid i ↔ bitmapGet x.smmu.smeBitmap i = true
  single : ∀ stream, ∀ i < x.smmu.smeNum, ∀ j < x.smmu.smeNum, x.smmu.Matches i stream →
    x.smmu.Matches j stream → i = j
  bound : ∀ a ∈ x.added, ∀ stream, a.pattern.Matches stream →
    ∃ i < x.smmu.smeNum, x.smmu.Matches i stream ∧ smmuSmeGetCtx x.smmu i = a.ctx
  group : ∀ i < x.smmu.smeNum, smmuSmeIsGroup x.smmu i = true ↔
    bitmapGet x.smmu.smeBitmap i = true ∧ ∃ a, x.writer i = some a ∧ a.group = true

/-! ### The additions that go well -/

/-- The entry shares streams with the addition. -/
def Smmu.Meets (s : Smmu) (a : SmeAddition) (sme : Nat) : Prop :=
  bitmapGet s.smeBitmap sme = true ∧
    (smmuSmeGetId s sme ^^^ a.id) &&& ~~~(a.mask ||| smmuSmeGetMask s sme) = 0

/-- The entry is taken off the bitmap for the addition. -/
def Smmu.Absorbs (s : Smmu) (a : SmeAddition) (sme : Nat) : Prop :=
  s.Meets a sme ∧ smmuSmeGetMask s sme < a.mask

/-- At most one entry gives way to the addition, a group only to a group, and there is an entry for the
addition: the one that gave way, one that covers it, or a free one. -/
structure Smmu.Takes (s : Smmu) (a : SmeAddition) : Prop where
  one : ∀ i < s.smeNum, ∀ j < s.smeNum, s.Absorbs a i → s.Absorbs a j → i = j
  group : ∀ i < s.smeNum, s.Absorbs a i → smmuSmeIsGroup s i = true → a.group = true
  room : ∃ i < s.smeNum, s.Meets a i ∨ bitmapGet s.smeBitmap i = false

/-- The condition on a step: the addition that it makes goes well. -/
def StreamTable.StepTakes (x : StreamTable) : StreamAction → Prop
  | .allocCtx => True
  | .add a => x.smmu.Takes { a with id := a.id &&& smmuIdMsk }

variable {s t : Smmu} {a : SmeAddition} {x y : StreamTable} {parange : Nat}

/-! ### The search -/

/-- Only groups are merged, only within each other, and only for one context. -/
def Smmu.Compatible (s : Smmu) (a : SmeAddition) (sme : Nat) : Prop :=
  (a.group = true ∨ smmuSmeIsGroup s sme = true) ∧
    (a.mask &&& smmuSmeGetMask s sme = a.mask ∨
      a.mask &&& smmuSmeGetMask s sme = smmuSmeGetMask s sme) ∧
    a.ctx = smmuSmeGetCtx s sme

/-- What a search over the entries from `sme` on did: it passed `n` of them and took those that meet
the addition off the bitmap; an entry that covers the addition ended it. -/
structure Smmu.Searched (s : Smmu) (a : SmeAddition) (sme left : Nat) (included : Bool) (t : Smmu)
    (n : Nat) : Prop where
  le : n ≤ left
  frame : t = { s with smeBitmap := t.smeBitmap }
  bitmap : ∀ i, bitmapGet t.smeBitmap i = true ↔
    bitmapGet s.smeBitmap i = true ∧ ¬(sme ≤ i ∧ i < sme + n ∧ s.Meets a i)
  passed : ∀ i, sme ≤ i → i < sme + n → s.Meets a i →
    s.Compatible a i ∧ smmuSmeGetMask s i < a.mask
  covered : included = true → n < left ∧ s.Meets a (sme + n) ∧ s.Compatible a (sme + n) ∧
    ¬smmuSmeGetMask s (sme + n) < a.mask
  through : included = false → n = left

/-- An entry that does not meet the addition is passed. -/
theorem Smmu.Searched.pass {sme left n : Nat} {included : Bool}
    (h : s.Searched a (sme + 1) left included t n) (hmeets : ¬s.Meets a sme) :
    s.Searched a sme (left + 1) included t (n + 1) where
  le := Nat.succ_le_succ h.le
  frame := h.frame
  bitmap i := by
    rw [h.bitmap i]
    constructor
    · intro ⟨hs, hnot⟩
      refine ⟨hs, fun ⟨hle, hlt, hi⟩ => hnot ⟨?_, by omega, hi⟩⟩
      rcases Nat.eq_or_lt_of_le hle with heq | hlt
      · exact absurd (heq ▸ hi) hmeets
      · exact hlt
    · intro ⟨hs, hnot⟩
      exact ⟨hs, fun ⟨hle, hlt, hi⟩ => hnot ⟨by omega, by omega, hi⟩⟩
  passed i hle hlt hi := by
    rcases Nat.eq_or_lt_of_le hle with heq | hle
    · exact absurd (heq ▸ hi) hmeets
    · exact h.passed i hle (by omega) hi
  covered hinc := by
    obtain ⟨hn, hmeets, hrest⟩ := h.covered hinc
    rw [show sme + (n + 1) = sme + 1 + n by omega]
    exact ⟨by omega, hmeets, hrest⟩
  through hinc := by rw [h.through hinc]

/-- With an entry off the bitmap the others meet the addition as before. -/
theorem Smmu.meets_clear {sme : Nat} (i : Nat) :
    ({ s with smeBitmap := bitmapClear s.smeBitmap sme } : Smmu).Meets a i ↔ s.Meets a i ∧ i ≠ sme := by
  simp only [Smmu.Meets, smmuSmeGetId, smmuSmeGetMask, bitmapGet_clear]
  grind

/-- An entry that gives way is passed too. -/
theorem Smmu.Searched.absorb {sme left n : Nat} {included : Bool}
    (h : ({ s with smeBitmap := bitmapClear s.smeBitmap sme } : Smmu).Searched a (sme + 1) left
      included t n)
    (hmeets : s.Meets a sme) (hcomp : s.Compatible a sme) (hlt : smmuSmeGetMask s sme < a.mask) :
    s.Searched a sme (left + 1) included t (n + 1) where
  le := Nat.succ_le_succ h.le
  frame := h.frame
  bitmap i := by
    rw [h.bitmap i, Smmu.meets_clear]
    simp only [bitmapGet_clear]
    by_cases hi : i = sme
    · subst hi
      simp [hmeets]
    · have hle : sme ≤ i ∧ i < sme + (n + 1) ↔ sme + 1 ≤ i ∧ i < sme + 1 + n := by omega
      grind
  passed i hle hltn hi := by
    rcases Nat.eq_or_lt_of_le hle with heq | hle
    · exact heq ▸ ⟨hcomp, hlt⟩
    · exact h.passed i hle (by omega) (Smmu.meets_clear i |>.mpr ⟨hi, by omega⟩)
  covered hinc := by
    obtain ⟨hn, hmeets, hrest⟩ := h.covered hinc
    rw [show sme + (n + 1) = sme + 1 + n by omega]
    exact ⟨by omega, (Smmu.meets_clear _ |>.mp hmeets).1, hrest⟩
  through hinc := by rw [h.through hinc]

theorem smmuCompatibleLoop_spec {left sme : Nat} {included : Bool}
    (h : smmuCompatibleLoop a.mask a.id a.ctx a.group s left sme = some (included, t)) :
    ∃ n, s.Searched a sme left included t n := by
  induction left generalizing s sme with
  | zero =>
    obtain ⟨rfl, rfl⟩ := Prod.mk.inj (Option.some.inj h)
    exact ⟨0, ⟨Nat.le_refl _, rfl, fun i => by simp; omega, fun i _ _ => by omega, nofun,
      fun _ => rfl⟩⟩
  | succ left ih =>
    unfold smmuCompatibleLoop at h
    by_cases hbit : bitmapGet s.smeBitmap sme = true
    · simp only [hbit, if_true] at h
      split at h
      · rename_i hdiff
        have hmeets : s.Meets a sme := ⟨hbit, hdiff⟩
        split at h
        · rename_i hcomp
          have hcompat : s.Compatible a sme := hcomp
          split at h
          · rename_i hlt
            obtain ⟨n, hn⟩ := ih h
            exact ⟨n + 1, hn.absorb hmeets hcompat hlt⟩
          · rename_i hlt
            obtain ⟨rfl, rfl⟩ := Prod.mk.inj (Option.some.inj h)
            exact ⟨0, ⟨by omega, rfl, fun i => by simp; omega, fun i _ _ => by omega,
              fun _ => ⟨by omega, hmeets, hcompat, hlt⟩, nofun⟩⟩
        · exact absurd h nofun
      · rename_i hdiff
        obtain ⟨n, hn⟩ := ih h
        exact ⟨n + 1, hn.pass fun hmeets => hdiff hmeets.2⟩
    · simp only [hbit] at h
      obtain ⟨n, hn⟩ := ih h
      exact ⟨n + 1, hn.pass fun hmeets => hbit hmeets.1⟩

/-! ### The patterns in the table -/

theorem smmuSmeGetId_and_msk (s : Smmu) (sme : Nat) :
    smmuSmeGetId s sme &&& smmuIdMsk = smmuSmeGetId s sme := by
  rw [smmuSmeGetId, smmuSmrId, bit32Extract, smmuIdMsk, BitVec.and_assoc, BitVec.and_self]

/-- What the code compares is what the patterns say, for an id within `SMMU_ID_MSK`. -/
theorem Smmu.meets_iff (hid : a.id &&& smmuIdMsk = a.id) (i : Nat) :
    s.Meets a i ↔ bitmapGet s.smeBitmap i = true ∧ (s.pattern i).Overlaps a.pattern := by
  have hwithin : (smmuSmeGetId s i ^^^ a.id) &&& smmuIdMsk = smmuSmeGetId s i ^^^ a.id := by
    apply BitVec.eq_of_getLsbD_eq
    intro k hk
    have hs := congrArg (fun x => BitVec.getLsbD x k) (smmuSmeGetId_and_msk s i)
    have ha := congrArg (fun x => BitVec.getLsbD x k) hid
    simp only [BitVec.getLsbD_and] at hs ha
    rw [BitVec.getLsbD_and, BitVec.getLsbD_xor, Bool.and_xor_distrib_right, hs, ha]
  have hdiff : (smmuSmeGetId s i ^^^ a.id) &&&
      ~~~((smmuSmeGetMask s i ||| ~~~smmuIdMsk) ||| (a.mask ||| ~~~smmuIdMsk)) =
      (smmuSmeGetId s i ^^^ a.id) &&& ~~~(a.mask ||| smmuSmeGetMask s i) := by
    rw [← hwithin]
    apply BitVec.eq_of_getLsbD_eq
    intro k hk
    simp only [BitVec.getLsbD_and, BitVec.getLsbD_or, BitVec.getLsbD_not, hk, decide_true,
      Bool.true_and]
    generalize smmuIdMsk.getLsbD k = m
    cases m <;> simp [Bool.and_comm]
  rw [Smmu.Meets, TernaryPattern.Overlaps, Smmu.pattern, SmeAddition.pattern]
  simp only [smePattern]
  rw [hdiff]

theorem smePattern_mask_and {mask mask' id id' : BitVec 32} (h : mask &&& mask' = mask) :
    (smePattern mask id).mask &&& (smePattern mask' id').mask = (smePattern mask id).mask := by
  apply BitVec.eq_of_getLsbD_eq
  intro k hk
  have hbit := congrArg (fun x => BitVec.getLsbD x k) h
  simp only [BitVec.getLsbD_and] at hbit
  simp only [smePattern, BitVec.getLsbD_and, BitVec.getLsbD_or]
  rw [← Bool.or_and_distrib_right, hbit]

private theorem le_of_and_eq {w : Nat} {x y : BitVec w} (h : x &&& y = x) : x ≤ y := by
  rw [← h, BitVec.le_def, BitVec.toNat_and]
  exact Nat.and_le_right

/-- An entry that gives way matches no stream that the addition does not match. -/
theorem Smmu.Compatible.absorbed {i : Nat} (h : s.Compatible a i) (hlt : smmuSmeGetMask s i < a.mask) :
    (s.pattern i).mask &&& a.pattern.mask = (s.pattern i).mask := by
  apply smePattern_mask_and
  rcases h.2.1 with hsub | hsub
  · exact absurd hlt (BitVec.not_lt.mpr (le_of_and_eq hsub))
  · rw [BitVec.and_comm]
    exact hsub

/-- An entry that does not give way matches all that the addition matches. -/
theorem Smmu.Compatible.covering {i : Nat} (h : s.Compatible a i)
    (hlt : ¬smmuSmeGetMask s i < a.mask) :
    a.pattern.mask &&& (s.pattern i).mask = a.pattern.mask := by
  apply smePattern_mask_and
  rcases h.2.1 with hsub | hsub
  · exact hsub
  · have hle : smmuSmeGetMask s i ≤ a.mask :=
      le_of_and_eq ((BitVec.and_comm _ _).trans hsub)
    have heq : smmuSmeGetMask s i = a.mask := BitVec.le_antisymm hle (BitVec.not_lt.mp hlt)
    rw [heq, BitVec.and_self]

/-- The pattern of an entry written for an addition. -/
theorem Smmu.pattern_of_smr {i : Nat} (hid : a.id &&& smmuIdMsk = a.id)
    (h : s.smr i = smmuSmr a.mask a.id) : s.pattern i = a.pattern := by
  have hmask : a.mask &&& smmuIdMsk ||| ~~~smmuIdMsk = a.mask ||| ~~~smmuIdMsk := by
    apply BitVec.eq_of_getLsbD_eq
    intro k hk
    simp only [BitVec.getLsbD_and, BitVec.getLsbD_or, BitVec.getLsbD_not, hk, decide_true,
      Bool.true_and]
    generalize smmuIdMsk.getLsbD k = m
    cases m <;> simp
  rw [Smmu.pattern, smmuSmeGetMask, smmuSmeGetId, h, smmuSmrId_smmuSmr, smmuSmrMask_smmuSmr, hid,
    SmeAddition.pattern, smePattern, smePattern, hmask]

theorem SmeAddition.pattern_matches_id (a : SmeAddition) : a.pattern.Matches a.id := by
  rw [TernaryPattern.Matches, SmeAddition.pattern, smePattern, BitVec.xor_self]
  exact BitVec.zero_and

/-! ### An addition -/

/-- The SMMU with an addition written to a slot. -/
def Smmu.written (s : Smmu) (a : SmeAddition) (r : Nat) : Smmu :=
  { s with
    smeBitmap := bitmapSet s.smeBitmap r
    smr := update s.smr r (smmuSmr a.mask a.id)
    grpBitmap := if a.group then bitmapSet s.grpBitmap r else s.grpBitmap
    s2cr := update s.s2cr r (smmuS2cr (s.s2cr r) a.ctx) }

section

variable {r i : Nat}

@[simp] theorem Smmu.written_smeNum : (s.written a r).smeNum = s.smeNum := rfl

@[simp] theorem Smmu.written_ctxNum : (s.written a r).ctxNum = s.ctxNum := rfl

theorem Smmu.written_bitmap : bitmapGet (s.written a r).smeBitmap i = true ↔
    i = r ∨ bitmapGet s.smeBitmap i = true := by
  simp [Smmu.written, bitmapGet_set]

theorem Smmu.written_smr_of_ne (h : i ≠ r) : (s.written a r).smr i = s.smr i :=
  update_of_ne h _ _

theorem Smmu.written_pattern_of_ne (h : i ≠ r) : (s.written a r).pattern i = s.pattern i := by
  simp only [Smmu.pattern, smmuSmeGetMask, smmuSmeGetId, Smmu.written_smr_of_ne h]

theorem Smmu.written_ctx_of_ne (h : i ≠ r) :
    smmuSmeGetCtx (s.written a r) i = smmuSmeGetCtx s i := by
  simp only [smmuSmeGetCtx, Smmu.written, update_of_ne h]

theorem Smmu.written_group_of_ne (h : i ≠ r) :
    smmuSmeIsGroup (s.written a r) i = smmuSmeIsGroup s i := by
  simp only [smmuSmeIsGroup, Smmu.written]
  split
  · simp [bitmapGet_set, h]
  · rfl

/-- The group bit of the slot is only ever set. -/
theorem Smmu.written_group : smmuSmeIsGroup (s.written a r) r = (a.group || smmuSmeIsGroup s r) := by
  simp only [smmuSmeIsGroup, Smmu.written]
  cases a.group <;> simp [bitmapGet_set]

end

/-- An addition ends at an entry that covers it, or is written to the first slot that is free behind
the search. -/
theorem smmuAddSme_cases {sme : Option Nat} (h : smmuAddSme s a = some (sme, t)) :
    (sme = none ∧ ∃ n, s.Searched a 0 s.smeNum true t n) ∨
    ∃ u r, s.Searched a 0 s.smeNum false u s.smeNum ∧
      bitmapFindNth u.smeBitmap u.smeNum 1 0 false = r ∧ sme = some r ∧ t = u.written a r := by
  obtain ⟨⟨included, u⟩, hsearch, hrest⟩ := Option.bind_eq_some_iff.mp h
  obtain ⟨n, hn⟩ := smmuCompatibleLoop_spec hsearch
  cases included with
  | true =>
    obtain ⟨rfl, rfl⟩ := Prod.mk.inj (Option.some.inj hrest)
    exact .inl ⟨rfl, n, hn⟩
  | false =>
    obtain rfl := hn.through rfl
    simp only [Bool.false_eq_true, if_false, smmuAllocSme, Nat.zero_le, if_true, smmuWriteSme,
      smmuWriteS2c, bitmapGet_set, decide_true, Bool.true_or, Option.bind_some] at hrest
    split at hrest
    · obtain ⟨rfl, rfl⟩ := Prod.mk.inj (Option.some.inj hrest)
      exact .inr ⟨u, _, hn, rfl, rfl, rfl⟩
    · exact absurd hrest nofun

/-! ### The entries at the front -/

/-- The first `k` entries are allocated and hold what was written last; they are apart, and each
addition is within one of them. -/
structure StreamTable.Packed (x : StreamTable) (k : Nat) : Prop where
  le : k ≤ x.smmu.smeNum
  smeNum_le : x.smmu.smeNum ≤ smeMaxNum
  ctxNum_le : x.smmu.ctxNum ≤ ctxMaxNum
  bitmap : ∀ i < x.smmu.smeNum, bitmapGet x.smmu.smeBitmap i = true ↔ i < k
  entry : ∀ i < k, ∃ a, x.writer i = some a ∧ x.smmu.smr i = smmuSmr a.mask a.id ∧
    smmuSmeIsGroup x.smmu i = a.group
  free : ∀ i, k ≤ i → i < x.smmu.smeNum → x.smmu.smr i = 0 ∧ smmuSmeIsGroup x.smmu i = false
  apart : ∀ i < k, ∀ j < k, (x.smmu.pattern i).Overlaps (x.smmu.pattern j) → i = j
  bound : ∀ a ∈ x.added, ∃ i < k, (∀ stream, a.pattern.Matches stream →
    (x.smmu.pattern i).Matches stream) ∧ smmuSmeGetCtx x.smmu i = a.ctx

namespace StreamTable.Packed

variable {k : Nat}

theorem valid_iff (h : x.Packed k) {i : Nat} (hi : i < x.smmu.smeNum) : x.smmu.Valid i ↔ i < k := by
  constructor
  · intro hvalid
    by_contra hk
    rw [Smmu.Valid, (h.free i (by omega) hi).1] at hvalid
    exact hvalid BitVec.zero_and
  · intro hk
    obtain ⟨a, -, hsmr, -⟩ := h.entry i hk
    rw [Smmu.Valid, hsmr]
    exact smmuSmr_valid _ _

theorem unambiguous (h : x.Packed k) : x.Unambiguous where
  valid i hi := by rw [h.valid_iff hi, h.bitmap i hi]
  single stream i hi j hj hmi hmj :=
    h.apart i ((h.valid_iff hi).mp hmi.1) j ((h.valid_iff hj).mp hmj.1)
      (TernaryPattern.overlaps_of_matches hmi.2 hmj.2)
  bound a ha stream hstream := by
    obtain ⟨i, hi, hwithin, hctx⟩ := h.bound a ha
    have hlt := Nat.lt_of_lt_of_le hi h.le
    exact ⟨i, hlt, ⟨(h.valid_iff hlt).mpr hi, hwithin stream hstream⟩, hctx⟩
  group i hi := by
    rw [h.bitmap i hi]
    constructor
    · intro hgroup
      have hk : i < k := by
        by_contra hk
        rw [(h.free i (by omega) hi).2] at hgroup
        exact absurd hgroup nofun
      obtain ⟨a, hwriter, -, hag⟩ := h.entry i hk
      exact ⟨hk, a, hwriter, hag ▸ hgroup⟩
    · intro ⟨hk, a, hwriter, hag⟩
      obtain ⟨b, hwriter', -, hbg⟩ := h.entry i hk
      obtain rfl : a = b := Option.some.inj (hwriter.symm.trans hwriter')
      rw [hbg, hag]

/-- What meets an addition is one of the entries at the front. -/
theorem meets_iff (h : x.Packed k) (hid : a.id &&& smmuIdMsk = a.id) {i : Nat}
    (hi : i < x.smmu.smeNum) :
    x.smmu.Meets a i ↔ i < k ∧ (x.smmu.pattern i).Overlaps a.pattern := by
  rw [Smmu.meets_iff hid, h.bitmap i hi]

/-- Where an entry covers the addition, none gives way to it. -/
theorem not_absorbs (h : x.Packed k) (hid : a.id &&& smmuIdMsk = a.id) {n : Nat}
    (hs : x.smmu.Searched a 0 x.smmu.smeNum true t n) {i : Nat} (hi : i < x.smmu.smeNum) :
    ¬x.smmu.Absorbs a i := by
  intro ⟨hmeets, hlt⟩
  obtain ⟨hn, hmeetsN, hcompN, hnot⟩ := hs.covered rfl
  rw [Nat.zero_add] at hmeetsN hcompN hnot
  obtain ⟨hik, hover⟩ := (h.meets_iff hid hi).mp hmeets
  obtain ⟨hnk, hoverN⟩ := (h.meets_iff hid hn).mp hmeetsN
  have hboth := hover.of_within hoverN.symm (hcompN.covering hnot)
  obtain rfl := h.apart i hik n hnk hboth
  exact hnot hlt

/-- The search that no entry ended: an allocated entry stays so unless it gives way. -/
theorem searched_bit (h : x.Packed k)
    (hs : x.smmu.Searched a 0 x.smmu.smeNum false t x.smmu.smeNum) {i : Nat}
    (hi : i < x.smmu.smeNum) : bitmapGet t.smeBitmap i = true ↔ i < k ∧ ¬x.smmu.Absorbs a i := by
  rw [hs.bitmap i, h.bitmap i hi]
  constructor
  · intro ⟨hk, hnot⟩
    exact ⟨hk, fun habs => hnot ⟨Nat.zero_le _, by omega, habs.1⟩⟩
  · intro ⟨hk, hnot⟩
    exact ⟨hk, fun ⟨_, _, hmeets⟩ =>
      hnot ⟨hmeets, (hs.passed i (Nat.zero_le _) (by omega) hmeets).2⟩⟩

/-- Where an entry gives way or a slot is free, the slot found is the first of these. -/
theorem slot (h : x.Packed k)
    (hs : x.smmu.Searched a 0 x.smmu.smeNum false t x.smmu.smeNum)
    (hroom : ∃ i < x.smmu.smeNum, x.smmu.Meets a i ∨ bitmapGet x.smmu.smeBitmap i = false) :
    ∃ r, bitmapFindNth t.smeBitmap t.smeNum 1 0 false = r ∧ r < x.smmu.smeNum ∧ r ≤ k ∧
      (r < k → x.smmu.Absorbs a r) ∧ ∀ j < r, ¬x.smmu.Absorbs a j := by
  have hnum : t.smeNum = x.smmu.smeNum := by rw [hs.frame]
  have hbit := fun {i} => h.searched_bit hs (i := i)
  obtain ⟨i, hi, hor⟩ := hroom
  have hfree : bitmapGet t.smeBitmap i = false := by
    rw [Bool.eq_false_iff]
    intro hset
    obtain ⟨hik, hnot⟩ := (hbit hi).mp hset
    rcases hor with hmeets | hclear
    · exact hnot ⟨hmeets, (hs.passed i (Nat.zero_le _) (by omega) hmeets).2⟩
    · rw [(h.bitmap i hi).mpr hik] at hclear
      exact absurd hclear nofun
  rcases bitmapFindNth_one t.smeBitmap t.smeNum 0 false with ⟨-, hall⟩ | ⟨r, hr, -, hlt, hclear, hfirst⟩
  · exact absurd hfree (hall i (Nat.zero_le _) (by omega))
  · rw [hnum] at hlt
    have hbefore : ∀ j < r, j < k ∧ ¬x.smmu.Absorbs a j := by
      intro j hj
      exact (hbit (by omega)).mp (Bool.eq_true_of_not_eq_false (hfirst j (Nat.zero_le _) hj))
    refine ⟨r, hr, hlt, ?_, ?_, fun j hj => (hbefore j hj).2⟩
    · by_contra hk
      exact absurd (hbefore k (by omega)).1 (Nat.lt_irrefl k)
    · intro hk
      by_contra habs
      rw [(hbit hlt).mpr ⟨hk, habs⟩] at hclear
      exact absurd hclear nofun

/-- An addition that an entry covers changes nothing. -/
theorem included (h : x.Packed k) (hid : a.id &&& smmuIdMsk = a.id) {n : Nat}
    (hs : x.smmu.Searched a 0 x.smmu.smeNum true t n) :
    StreamTable.Packed { smmu := t, added := a :: x.added, writer := x.writer } k := by
  have hbit : ∀ i < x.smmu.smeNum, bitmapGet t.smeBitmap i = true ↔ i < k := by
    intro i hi
    rw [hs.bitmap i, h.bitmap i hi]
    constructor
    · exact fun hk => hk.1
    · intro hk
      refine ⟨hk, fun ⟨_, hin, hmeets⟩ => h.not_absorbs hid hs hi ⟨hmeets, ?_⟩⟩
      exact (hs.passed i (Nat.zero_le _) hin hmeets).2
  obtain ⟨hn, hmeets, hcomp, hnot⟩ := hs.covered rfl
  rw [Nat.zero_add] at hmeets hcomp hnot
  obtain ⟨hnk, hover⟩ := (h.meets_iff hid hn).mp hmeets
  have hcover : ∀ stream, a.pattern.Matches stream → (x.smmu.pattern n).Matches stream :=
    fun stream hstream => hstream.of_overlaps hover.symm (hcomp.covering hnot)
  rw [hs.frame]
  exact
    { le := h.le
      smeNum_le := h.smeNum_le
      ctxNum_le := h.ctxNum_le
      bitmap := hbit
      entry := h.entry
      free := h.free
      apart := h.apart
      bound := List.forall_mem_cons.mpr ⟨⟨n, hnk, hcover, hcomp.2.2.symm⟩, h.bound⟩ }

/-- An addition that goes well is written to the slot of the entry that gave way, or behind the
others. -/
theorem written (h : x.Packed k) (hid : a.id &&& smmuIdMsk = a.id) (hctx : a.ctx < 256)
    (hs : x.smmu.Searched a 0 x.smmu.smeNum false t x.smmu.smeNum) (htakes : x.smmu.Takes a) {r : Nat}
    (hr : bitmapFindNth t.smeBitmap t.smeNum 1 0 false = r) :
    StreamTable.Packed
      { smmu := t.written a r, added := a :: x.added, writer := update x.writer r (some a) }
      (max k (r + 1)) := by
  obtain ⟨r', hr', hlt, hrk, habsr, hbefore⟩ := h.slot hs htakes.room
  obtain rfl : r' = r := hr'.symm.trans hr
  have hother : ∀ i < k, i ≠ r' → ¬x.smmu.Absorbs a i := by
    intro i hi hne habs
    rcases Nat.lt_or_ge r' k with hrk | hkr
    · exact hne (htakes.one i (Nat.lt_of_lt_of_le hi h.le) r' hlt habs (habsr hrk))
    · exact hbefore i (by omega) habs
  have hapart : ∀ i < k, i ≠ r' → ¬(x.smmu.pattern i).Overlaps a.pattern := by
    intro i hi hne hover
    have hik := Nat.lt_of_lt_of_le hi h.le
    have hmeets := (h.meets_iff hid hik).mpr ⟨hi, hover⟩
    exact hother i hi hne ⟨hmeets, (hs.passed i (Nat.zero_le _) (by omega) hmeets).2⟩
  have hlow : ∀ i, i < max k (r' + 1) → i ≠ r' → i < k := by
    intro i hi hne
    omega
  have hnum : (t.written a r').smeNum = x.smmu.smeNum := by
    rw [Smmu.written_smeNum, hs.frame]
  have hnew : (t.written a r').pattern r' = a.pattern :=
    Smmu.pattern_of_smr hid (by simp [Smmu.written])
  have hold : ∀ i, i ≠ r' → (t.written a r').pattern i = x.smmu.pattern i := by
    intro i hne
    rw [Smmu.written_pattern_of_ne hne, hs.frame]
    rfl
  have hctxOld : ∀ i, i ≠ r' → smmuSmeGetCtx (t.written a r') i = smmuSmeGetCtx x.smmu i := by
    intro i hne
    rw [Smmu.written_ctx_of_ne hne, hs.frame]
    rfl
  have hctxNew : smmuSmeGetCtx (t.written a r') r' = a.ctx := by
    simp only [smmuSmeGetCtx, Smmu.written, update_self]
    exact s2crCbndx_smmuS2cr _ hctx
  have hgroup : (a.group || smmuSmeIsGroup t r') = a.group := by
    rw [hs.frame]
    rcases Nat.lt_or_ge r' k with hrk | hkr
    · have himp := htakes.group r' hlt (habsr hrk)
      cases hg : smmuSmeIsGroup x.smmu r' with
      | true => simp [himp hg]
      | false => exact (congrArg _ hg).trans (Bool.or_false _)
    · exact (congrArg _ (h.free r' hkr hlt).2).trans (Bool.or_false _)
  have hgroupOld : ∀ i, i ≠ r' → smmuSmeIsGroup (t.written a r') i = smmuSmeIsGroup x.smmu i := by
    intro i hne
    rw [Smmu.written_group_of_ne hne, hs.frame]
    rfl
  exact
    { le := by
        rw [hnum]
        exact Nat.max_le.mpr ⟨h.le, hlt⟩
      smeNum_le := by
        rw [hnum]
        exact h.smeNum_le
      ctxNum_le := by
        rw [Smmu.written_ctxNum, hs.frame]
        exact h.ctxNum_le
      bitmap := by
        rw [hnum]
        intro i hi
        rw [Smmu.written_bitmap, h.searched_bit hs hi]
        constructor
        · intro hor
          omega
        · intro hi
          by_cases hne : i = r'
          · exact .inl hne
          · exact .inr ⟨hlow i hi hne, hother i (hlow i hi hne) hne⟩
      entry := by
        intro i hi
        by_cases hne : i = r'
        · subst hne
          refine ⟨a, update_self _ _ _, update_self _ _ _, ?_⟩
          rw [Smmu.written_group, hgroup]
        · obtain ⟨b, hwriter, hsmr, hbg⟩ := h.entry i (hlow i hi hne)
          refine ⟨b, (update_of_ne hne _ _).trans hwriter, ?_, (hgroupOld i hne).trans hbg⟩
          rw [Smmu.written_smr_of_ne hne, hs.frame]
          exact hsmr
      free := by
        rw [hnum]
        intro i hk hi
        have hne : i ≠ r' := by omega
        obtain ⟨hsmr, hclear⟩ := h.free i (by omega) hi
        refine ⟨?_, (hgroupOld i hne).trans hclear⟩
        rw [Smmu.written_smr_of_ne hne, hs.frame]
        exact hsmr
      apart := by
        intro i hi j hj hover
        by_cases hir : i = r' <;> by_cases hjr : j = r'
        · exact hir.trans hjr.symm
        · rw [hir, hnew, hold j hjr] at hover
          exact absurd hover.symm (hapart j (hlow j hj hjr) hjr)
        · rw [hjr, hnew, hold i hir] at hover
          exact absurd hover (hapart i (hlow i hi hir) hir)
        · rw [hold i hir, hold j hjr] at hover
          exact h.apart i (hlow i hi hir) j (hlow j hj hjr) hover
      bound := by
        have hr : r' < max k (r' + 1) := by omega
        refine List.forall_mem_cons.mpr ⟨⟨r', hr, fun stream hstream => ?_, hctxNew⟩, fun b hb => ?_⟩
        · rw [hnew]
          exact hstream
        · obtain ⟨i, hi, hwithin, hctxb⟩ := h.bound b hb
          by_cases hne : i = r'
          · subst hne
            obtain ⟨hmeets, hmask⟩ := habsr hi
            obtain ⟨hcomp, -⟩ := hs.passed i (Nat.zero_le _) (by omega) hmeets
            obtain ⟨-, hover⟩ := (h.meets_iff hid hlt).mp hmeets
            refine ⟨i, hr, fun stream hstream => ?_, ?_⟩
            · rw [hnew]
              exact (hwithin stream hstream).of_overlaps hover (hcomp.absorbed hmask)
            · rw [hctxNew, hcomp.2.2, hctxb]
          · refine ⟨i, by omega, ?_, (hctxOld i hne).trans hctxb⟩
            rw [hold i hne]
            exact hwithin }

/-- Where an entry covers the addition it goes well. -/
theorem takes_of_included (h : x.Packed k) (hid : a.id &&& smmuIdMsk = a.id) {n : Nat}
    (hs : x.smmu.Searched a 0 x.smmu.smeNum true t n) : x.smmu.Takes a where
  one i hi _ _ habs := absurd habs (h.not_absorbs hid hs hi)
  group i hi habs := absurd habs (h.not_absorbs hid hs hi)
  room := by
    obtain ⟨hn, hmeets, -⟩ := hs.covered rfl
    rw [Nat.zero_add] at hmeets
    exact ⟨n, hn, .inl hmeets⟩

/-- Where an addition is written and the table is still in order, it went well. -/
theorem takes_of_written (h : x.Packed k) (hid : a.id &&& smmuIdMsk = a.id)
    (hs : x.smmu.Searched a 0 x.smmu.smeNum false t x.smmu.smeNum) {r : Nat}
    (hr : bitmapFindNth t.smeBitmap t.smeNum 1 0 false = r)
    (hy : StreamTable.Unambiguous
      { smmu := t.written a r, added := a :: x.added, writer := update x.writer r (some a) }) :
    x.smmu.Takes a := by
  have hnum : (t.written a r).smeNum = x.smmu.smeNum := by
    rw [Smmu.written_smeNum, hs.frame]
  have hvalid : ∀ i, i ≠ r → ((t.written a r).Valid i ↔ x.smmu.Valid i) := by
    intro i hne
    rw [Smmu.Valid, Smmu.written_smr_of_ne hne, hs.frame]
    rfl
  have hkept : ∀ i < x.smmu.smeNum, x.smmu.Absorbs a i → i = r := by
    intro i hi habs
    by_contra hne
    have hik := ((h.meets_iff hid hi).mp habs.1).1
    have hset := (hy.valid i (hnum ▸ hi)).mp ((hvalid i hne).mpr ((h.valid_iff hi).mpr hik))
    rw [Smmu.written_bitmap, h.searched_bit hs hi] at hset
    exact (hset.resolve_left hne).2 habs
  have hroom : ∃ i < x.smmu.smeNum, x.smmu.Meets a i ∨ bitmapGet x.smmu.smeBitmap i = false := by
    by_contra hnone
    push Not at hnone
    obtain ⟨i, hi, ⟨hval, hmatch⟩, -⟩ := hy.bound a List.mem_cons_self a.id a.pattern_matches_id
    rw [hnum] at hi
    have hik := (h.bitmap i hi).mp (Bool.eq_true_of_not_eq_false (hnone i hi).2)
    have hfull : r = sizeMax := by
      rcases bitmapFindNth_one t.smeBitmap t.smeNum 0 false with ⟨hmax, -⟩ | ⟨q, hq, -, hlt, hclear, -⟩
      · exact hr.symm.trans hmax
      · have hlt' : q < x.smmu.smeNum := by
          rw [hs.frame] at hlt
          exact hlt
        have hqk := (h.bitmap q hlt').mp (Bool.eq_true_of_not_eq_false (hnone q hlt').2)
        rw [(h.searched_bit hs hlt').mpr ⟨hqk, fun habs => (hnone q hlt').1 habs.1⟩] at hclear
        exact absurd hclear nofun
    have hne : i ≠ r := by
      have hmax := h.smeNum_le
      simp only [smeMaxNum, hfull, sizeMax] at hmax ⊢
      omega
    rw [Smmu.written_pattern_of_ne hne, hs.frame] at hmatch
    have hover := TernaryPattern.overlaps_of_matches hmatch a.pattern_matches_id
    exact (hnone i hi).1 ((h.meets_iff hid hi).mpr ⟨hik, hover⟩)
  refine ⟨fun i hi j hj habsi habsj => (hkept i hi habsi).trans (hkept j hj habsj).symm, ?_, hroom⟩
  intro i hi habs hgroup
  obtain rfl := hkept i hi habs
  have hset : smmuSmeIsGroup (t.written a i) i = true := by
    rw [Smmu.written_group, hs.frame]
    exact Bool.or_eq_true_iff.mpr (.inr hgroup)
  obtain ⟨-, b, hwriter, hb⟩ := (hy.group i (hnum ▸ hi)).mp hset
  obtain rfl : a = b := by
    simpa only [update_self, Option.some.injEq] using hwriter
  exact hb

end StreamTable.Packed

/-! ### The runs of additions -/

theorem and_smmuIdMsk_and (id : BitVec 32) : (id &&& smmuIdMsk) &&& smmuIdMsk = id &&& smmuIdMsk := by
  rw [BitVec.and_assoc, BitVec.and_self]

/-- What a step does: it allocates a context, or an entry covers the addition, or the addition is
written. -/
theorem streamMachine_step_add {b : SmeAddition}
    (h : (streamMachine parange).step x (.add b) = some y)
    (ha : a = { b with id := b.id &&& smmuIdMsk }) :
    a.ctx < x.smmu.ctxNum ∧
      ((∃ t n, x.smmu.Searched a 0 x.smmu.smeNum true t n ∧
        y = { smmu := t, added := a :: x.added, writer := x.writer }) ∨
      ∃ t r, x.smmu.Searched a 0 x.smmu.smeNum false t x.smmu.smeNum ∧
        bitmapFindNth t.smeBitmap t.smeNum 1 0 false = r ∧
        y = { smmu := t.written a r, added := a :: x.added, writer := update x.writer r (some a) }) := by
  subst ha
  simp only [streamMachine] at h
  split at h
  · rename_i hctx
    obtain ⟨⟨sme, s⟩, hadd, rfl⟩ := Option.map_eq_some_iff.mp h
    refine ⟨hctx.1, ?_⟩
    rcases smmuAddSme_cases hadd with ⟨rfl, n, hn⟩ | ⟨u, r, hs, hr, rfl, rfl⟩
    · exact .inl ⟨s, n, hn, rfl⟩
    · exact .inr ⟨u, r, hs, hr, rfl⟩
  · exact absurd h nofun

theorem StreamTable.Packed.step {k : Nat} (h : x.Packed k) {act : StreamAction}
    (hstep : (streamMachine parange).step x act = some y) (htakes : x.StepTakes act) :
    ∃ k', y.Packed k' := by
  cases act with
  | allocCtx =>
    obtain rfl := Option.some.inj hstep
    exact ⟨k, ⟨h.le, h.smeNum_le, h.ctxNum_le, h.bitmap, h.entry, h.free, h.apart, h.bound⟩⟩
  | add b =>
    have hid := and_smmuIdMsk_and b.id
    obtain ⟨hctx, ⟨t, n, hs, rfl⟩ | ⟨t, r, hs, hr, rfl⟩⟩ := streamMachine_step_add hstep rfl
    · exact ⟨k, h.included hid hs⟩
    · have hmax := h.ctxNum_le
      simp only [ctxMaxNum] at hmax
      exact ⟨_, h.written hid (by omega) hs htakes hr⟩

theorem StreamTable.Packed.stepTakes {k : Nat} (h : x.Packed k) {act : StreamAction}
    (hstep : (streamMachine parange).step x act = some y) (hy : y.Unambiguous) : x.StepTakes act := by
  cases act with
  | allocCtx => trivial
  | add b =>
    have hid := and_smmuIdMsk_and b.id
    obtain ⟨-, ⟨t, n, hs, rfl⟩ | ⟨t, r, hs, hr, rfl⟩⟩ := streamMachine_step_add hstep rfl
    · exact h.takes_of_included hid hs
    · exact h.takes_of_written hid hs hr hy

/-- `smmu_init` leaves an empty table. -/
theorem StreamTable.packed_of_init (h : (streamMachine parange).Init x) : x.Packed 0 := by
  obtain ⟨⟨hw, hinit⟩, hnum, hctx, hadded, hwriter⟩ := h
  unfold smmuInit at hinit
  split at hinit
  · have hsmu := Option.some.inj hinit
    rw [← hsmu] at hnum hctx
    have hfit : 0 + (hw.idr0 &&& 0xFF).toNat ≤ sizeT := by
      simp only [smeMaxNum, sizeT] at hnum ⊢
      omega
    refine ⟨Nat.zero_le _, hsmu ▸ hnum, hsmu ▸ hctx, ?_, fun i hi => absurd hi (Nat.not_lt_zero i), ?_,
      fun i hi => absurd hi (Nat.not_lt_zero i), ?_⟩
    · rw [← hsmu]
      intro i hi
      simp only [bitmapGet_clearConsecutive _ i hfit]
      simp only [Nat.zero_add, Nat.zero_le, true_and, hi, decide_true]
      simp
    · rw [← hsmu]
      intro i _ hi
      refine ⟨if_pos hi, ?_⟩
      simp only [smmuSmeIsGroup, bitmapGet_clearConsecutive _ i hfit]
      simp only [Nat.zero_add, Nat.zero_le, true_and, hi, decide_true]
      simp
    · rw [hadded]
      exact fun a ha => absurd ha List.not_mem_nil
  · cases hinit

/-- Along a run of additions the table stays in order exactly as long as each of them goes well. -/
theorem streamTable_unambiguous_iff (parange : Nat) {x : StreamTable}
    (h : (streamMachine parange).Init x) (acts : List StreamAction) :
    (streamMachine parange).Always StreamTable.Unambiguous x acts ↔
      (streamMachine parange).EachStep StreamTable.StepTakes x acts := by
  have hpacked := StreamTable.packed_of_init h
  refine Machine.always_iff_eachStep (I := fun _ => True) (H := fun x => ∃ k, x.Packed k)
    (fun _ _ _ _ _ => trivial) ?_ ?_ trivial hpacked.unambiguous ⟨0, hpacked⟩
  · intro s act t _ _ ⟨k, hk⟩ hstep htakes
    exact hk.step hstep htakes
  · intro s act t _ _ ⟨k, hk⟩ hstep
    constructor
    · exact hk.stepTakes hstep
    · intro htakes
      obtain ⟨k', hk'⟩ := hk.step hstep htakes
      exact hk'.unambiguous

/-- An SMMU with four entries and two context banks, before `smmu_init`. -/
def smallSmmu : Smmu where
  idr0 := (1 <<< 30) ||| (1 <<< 27) ||| (1 <<< 13) ||| 4
  idr1 := 2
  idr2 := (1 <<< 12) ||| (5 <<< 4) ||| 5
  idr7 := 2 <<< 4
  cr0 := 0
  smr := fun _ => 0
  s2cr := fun _ => 0
  cbar := fun _ => 0
  cba2r := fun _ => 0
  sctlr := fun _ => 0
  ttbr0 := fun _ => 0
  tcr := fun _ => 0
  fsr := fun _ => 0
  smeNum := 0
  smeBitmap := fun _ => 0
  grpBitmap := fun _ => 0
  ctxNum := 0
  ctxbankBitmap := fun _ => 0

def smallStreamTable : StreamTable where
  smmu := (smmuInit 2 smallSmmu).getD smallSmmu
  added := []
  writer := fun _ => none

theorem smallStreamTable_init : (streamMachine 2).Init smallStreamTable :=
  ⟨⟨smallSmmu, rfl⟩, by decide, by decide, rfl, rfl⟩

/-- Two devices of one context, then a group that holds both. -/
def mergedDevices : List StreamAction :=
  [.allocCtx, .add ⟨0, 1, 0, false⟩, .add ⟨0, 2, 0, false⟩, .add ⟨3, 0, 0, true⟩]

theorem streamTable_unambiguous_iff_mergedDevices :
    (streamMachine 2).Always StreamTable.Unambiguous smallStreamTable mergedDevices ↔
      (streamMachine 2).EachStep StreamTable.StepTakes smallStreamTable mergedDevices :=
  streamTable_unambiguous_iff 2 smallStreamTable_init mergedDevices

/-- The group takes the slot of the first device; the entry of the second stays valid. -/
theorem mergedDevices_ambiguous : (streamMachine 2).Init smallStreamTable ∧
    ¬(streamMachine 2).Always StreamTable.Unambiguous smallStreamTable mergedDevices := by
  refine ⟨smallStreamTable_init, fun h => ?_⟩
  have hrun : (streamMachine 2).Run smallStreamTable mergedDevices
      (((streamMachine 2).run smallStreamTable mergedDevices).getD smallStreamTable) :=
    Machine.run_eq_some_iff.mp rfl
  have hvalid := (h.last hrun).valid 1 (by decide)
  exact absurd (hvalid.mp (by unfold Smmu.Valid; decide)) (by decide)

end Avisor
