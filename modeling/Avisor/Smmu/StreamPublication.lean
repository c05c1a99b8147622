import Avisor.Lib.Publication
import Avisor.Smmu.StreamRuns
import Mathlib.Tactic.IntervalCases

/-!
# A stream is used while its entry is written

The SMMU may fetch the double words of an entry at any time, and keeps what it has until the command to
invalidate it. So `arm_smmu_write_strtab_ent` writes the double words that are not yet used, invalidates the
entry, and only then lets it translate.
-/

namespace Avisor

open Function Publication

/-- What a store or a command is for the entry of a stream. -/
def SmmuOp.forStream (sid : BitVec 32) : SmmuOp → Publication.Op ℕ (BitVec 64)
  | .store dst val => .store dst val
  | .issue ent =>
    match ent.command with
    | some (.cfgiSte sid' _) => if sid' = sid.setWidth 64 then .invalidate else .skip
    | some (.cfgiAll _) => .invalidate
    | _ => .skip

/-- The addresses of the double words of an entry. -/
def steAddr (ste : ℕ) (k : Fin 8) : ℕ := ste + 8 * k

/-- `arm_smmu_write_strtab_ent` for a stream with a device, while the SMMU uses the entry at `ste`. -/
def steMachine (words : ℕ → BitVec 64) (ste : ℕ) (sid vmid : BitVec 32) (root : BitVec 64) :
    Machine (Publication ℕ (BitVec 64) 8) (Publication.Action 8) :=
  machine (steAddr ste) words
    ((armSmmuWriteStrtabEnt true sid ste false vmid root).map (SmmuOp.forStream sid))

/-- What the SMMU sees in an entry that it has. -/
def cachedView (r : Fin 8 → BitVec 64) : StreamView := steView fun i => if h : i < 8 then r ⟨i, h⟩ else 0

variable {words : ℕ → BitVec 64} {ste : ℕ} {sid vmid : BitVec 32} {root : BitVec 64} {r : Fin 8 → BitVec 64}

/-! ### Views -/

/-- What an entry for stage 2 says. -/
def steStage2 (dword2 dword3 : BitVec 64) : SteStage2 :=
  ⟨fieldGet strtabSte2S2vmid dword2, fieldGet strtabSte2Vtcr dword2, fieldGet strtabSte2S2aa64 dword2,
    fieldGet strtabSte2S2ptw dword2, fieldGet strtabSte2S2r dword2, dword3 &&& strtabSte3S2ttbMask⟩

/-- The entry translates by stage 2. -/
def SteTranslates (dword0 : BitVec 64) : Prop :=
  fieldGet strtabSte0V dword0 ≠ 0 ∧ fieldGet strtabSte0Cfg dword0 = strtabSte0CfgS2Trans

theorem steView_of_translates (ste : ℕ → BitVec 64) (h : SteTranslates (ste 0)) :
    steView ste = .stage2 (steStage2 (ste 2) (ste 3)) := by
  rw [steView, if_neg h.1, h.2, if_neg (by decide), if_pos rfl]
  rfl

/-- An entry that does not translate is its first double word. -/
theorem steView_of_not_translates (ste ste' : ℕ → BitVec 64) (h : ¬SteTranslates (ste 0)) (hsame : ste' 0 = ste 0) :
    steView ste' = steView ste ∧ ∀ o, steView ste ≠ .stage2 o := by
  unfold SteTranslates at h
  unfold steView
  rw [hsame]
  by_cases hvalid : fieldGet strtabSte0V (ste 0) = 0
  · rw [if_pos hvalid, if_pos hvalid]
    exact ⟨rfl, nofun⟩
  · rw [if_neg hvalid, if_neg hvalid]
    have hcfg : fieldGet strtabSte0Cfg (ste 0) ≠ strtabSte0CfgS2Trans := fun hcfg => h ⟨hvalid, hcfg⟩
    rw [if_neg hcfg, if_neg hcfg]
    refine ⟨rfl, fun o => ?_⟩
    split
    · nofun
    · split <;> nofun

theorem steTranslates_new : SteTranslates (fieldPrep strtabSte0Cfg strtabSte0CfgS2Trans ||| strtabSte0V) := by
  constructor
  · decide +kernel
  · decide +kernel

/-! ### Mixtures -/

theorem map_forStream : (armSmmuWriteStrtabEnt true sid ste false vmid root).map (SmmuOp.forStream sid) =
    [.store (ste + 16) (ste2 vmid), .store (ste + 24) (root &&& strtabSte3S2ttbMask), .invalidate, .skip,
      .store ste (fieldPrep strtabSte0Cfg strtabSte0CfgS2Trans ||| strtabSte0V), .invalidate, .skip] := by
  have hcfgi : (SmmuOp.issue ⟨cmdqOpCfgiSte, sid, 1, 0⟩).forStream sid = .invalidate := if_pos rfl
  have hsync : (SmmuOp.issue ⟨cmdqOpCmdSync, 0, 0, 0⟩).forStream sid = .skip := rfl
  simp only [armSmmuWriteStrtabEnt, armSmmuSyncSteForSid, Bool.false_eq_true, if_false, List.map_cons,
    List.map_nil, List.cons_append, List.nil_append, hcfgi, hsync]
  rfl

theorem exists_take {α : Type*} {l done rest : List α} (h : l = done ++ rest) :
    ∃ k, done = l.take k ∧ rest = l.drop k ∧ k ≤ l.length := by
  refine ⟨done.length, ?_, ?_, ?_⟩
  · rw [h, List.take_left]
  · rw [h, List.drop_left]
  · rw [h, List.length_append]
    exact Nat.le_add_right _ _

/-- What the SMMU may have of an entry: before the first double word is written, it is the old one, and
behind the invalidation the others are the new ones. -/
theorem mixture_cases {done rest : List (Publication.Op ℕ (BitVec 64))}
    (h : (armSmmuWriteStrtabEnt true sid ste false vmid root).map (SmmuOp.forStream sid) = done ++ rest)
    (hmix : (Window.run words done).Mixture (steAddr ste) r) :
    (r 0 = words ste ∧ (r 2 = ste2 vmid ∨ r 2 = words (ste + 16)) ∧
        (r 3 = root &&& strtabSte3S2ttbMask ∨ r 3 = words (ste + 24)) ∨
      (r 0 = fieldPrep strtabSte0Cfg strtabSte0CfgS2Trans ||| strtabSte0V ∨ r 0 = words ste) ∧
        r 2 = ste2 vmid ∧ r 3 = root &&& strtabSte3S2ttbMask) ∧
    (rest = [] → r 0 = fieldPrep strtabSte0Cfg strtabSte0CfgS2Trans ||| strtabSte0V ∧
      r 2 = ste2 vmid ∧ r 3 = root &&& strtabSte3S2ttbMask) := by
  rw [map_forStream] at h
  have h₀ := hmix 0
  have h₂ := hmix 2
  have h₃ := hmix 3
  rw [show steAddr ste 0 = ste from rfl] at h₀
  rw [show steAddr ste 2 = ste + 16 from rfl] at h₂
  rw [show steAddr ste 3 = ste + 24 from rfl] at h₃
  generalize fieldPrep strtabSte0Cfg strtabSte0CfgS2Trans ||| strtabSte0V = new₀ at *
  generalize ste2 vmid = new₂ at *
  generalize root &&& strtabSte3S2ttbMask = new₃ at *
  obtain ⟨k, rfl, rfl, hk⟩ := exists_take h
  clear h hmix
  simp only [List.length_cons, List.length_nil] at hk
  have h02 : ste ≠ ste + 16 := by omega
  have h03 : ste ≠ ste + 24 := by omega
  have h23 : ste + 16 ≠ ste + 24 := by omega
  interval_cases k
  all_goals
    simp only [List.take_succ_cons, List.take_zero, List.take_nil, List.drop_succ_cons, List.drop_zero,
      List.drop_nil, Window.run, Window.after, Window.Had, List.foldl_cons, List.foldl_nil, List.mem_cons, List.not_mem_nil,
      or_false, exists_eq_or_imp, exists_eq_left, update_self, ne_eq, h02, h03, h23, h02.symm, h03.symm, h23.symm,
      not_false_eq_true, update_of_ne] at h₀ h₂ h₃ ⊢
    grind

/-- The new entry. -/
theorem steStage2_new (vmid : BitVec 32) (root : BitVec 64) :
    steStage2 (ste2 vmid) (root &&& strtabSte3S2ttbMask) = stage2View vmid root := by
  obtain ⟨ste, h₀, h₂, h₃⟩ : ∃ ste : ℕ → BitVec 64,
      ste 0 = fieldPrep strtabSte0Cfg strtabSte0CfgS2Trans ||| strtabSte0V ∧ ste 2 = ste2 vmid ∧
        ste 3 = root &&& strtabSte3S2ttbMask :=
    ⟨fun i => if i = 0 then _ else if i = 2 then _ else _, rfl, rfl, rfl⟩
  have hview := steView_of_translates ste (h₀ ▸ steTranslates_new)
  rw [steView_stage2 h₀ h₂ h₃, h₂, h₃] at hview
  exact (StreamView.stage2.inj hview).symm

/-- An entry that the SMMU has, as far as it translates. -/
theorem cachedView_of_translates (h : SteTranslates (r 0)) : cachedView r = .stage2 (steStage2 (r 2) (r 3)) :=
  steView_of_translates (fun i => if h : i < 8 then r ⟨i, h⟩ else 0) h

theorem cachedView_of_not_translates (h : ¬SteTranslates (steAt words ste 0)) (hsame : r 0 = words ste) :
    cachedView r = steView (steAt words ste) :=
  (steView_of_not_translates (steAt words ste) (fun i => if h : i < 8 then r ⟨i, h⟩ else 0) h hsame).1

/-- The parts of an entry for stage 2 lie in a double word each. -/
theorem steStage2_congr {a b c d : BitVec 64}
    (h : { steStage2 a b with ttb := d &&& strtabSte3S2ttbMask } = steStage2 c d) (e : BitVec 64) :
    steStage2 a e = steStage2 c e := by
  unfold steStage2 at *
  simp only [SteStage2.mk.injEq] at *
  exact ⟨h.1, h.2.1, h.2.2.1, h.2.2.2.1, h.2.2.2.2.1, trivial⟩

/-- What the SMMU sees while the entry is written is the old entry or the new one, and at the end the new
one, unless the old one translates too, for another VM and by other tables. -/
theorem write_strtab_ent_seen (words : ℕ → BitVec 64) (ste : ℕ) (sid vmid : BitVec 32) (root : BitVec 64) :
    (∀ s, (steMachine words ste sid vmid root).Reachable s → ∀ r, s.cache = some r →
      (cachedView r = steView (steAt words ste) ∨ cachedView r = .stage2 (stage2View vmid root)) ∧
        (s.rest = [] → cachedView r = .stage2 (stage2View vmid root))) ↔
    ∀ o, steView (steAt words ste) = .stage2 o →
      { o with ttb := (stage2View vmid root).ttb } = stage2View vmid root ∨
        o.ttb = (stage2View vmid root).ttb := by
  have hnew := steStage2_new vmid root
  constructor
  · intro hall o hold
    have htranslates : SteTranslates (steAt words ste 0) := by
      by_contra hnot
      exact (steView_of_not_translates (steAt words ste) (steAt words ste) hnot rfl).2 o hold
    rw [steView_of_translates _ htranslates] at hold hall
    obtain rfl := StreamView.stage2.inj hold
    -- the entry as it is in memory behind the first store
    obtain ⟨rest, hops⟩ : ∃ rest, (armSmmuWriteStrtabEnt true sid ste false vmid root).map
        (SmmuOp.forStream sid) = [.store (ste + 16) (ste2 vmid)] ++ rest := ⟨_, map_forStream⟩
    have hmix : (Window.run words [.store (ste + 16) (ste2 vmid)]).Mixture (steAddr ste)
        fun k => update words (ste + 16) (ste2 vmid) (steAddr ste k) :=
      fun k => ⟨_, List.mem_cons_self, rfl⟩
    obtain ⟨s, hs, -, hcache⟩ := (exists_cache_iff hops).mpr hmix
    have hseen := (hall s hs _ hcache).1
    have hheader : update words (ste + 16) (ste2 vmid) (steAddr ste 0) = steAt words ste 0 :=
      update_of_ne (by simp [steAddr]) _ _
    have hthird : update words (ste + 16) (ste2 vmid) (steAddr ste 3) = steAt words ste 3 :=
      update_of_ne (by simp [steAddr]) _ _
    have hsecond : update words (ste + 16) (ste2 vmid) (steAddr ste 2) = ste2 vmid := update_self _ _ _
    rw [cachedView_of_translates (by rwa [hheader]), hsecond, hthird] at hseen
    rcases hseen with hseen | hseen
    · left
      rw [← StreamView.stage2.inj hseen, ← hnew]
      rfl
    · right
      rw [← StreamView.stage2.inj hseen]
      rfl
  · intro hcond s hs r hr
    obtain ⟨done, hops, -⟩ := reachable_within hs
    obtain ⟨hcases, hend⟩ := mixture_cases hops ((exists_cache_iff hops).mp ⟨s, hs, rfl, hr⟩)
    have hviewNew (h₀ : SteTranslates (r 0)) (h₂ : r 2 = ste2 vmid)
        (h₃ : r 3 = root &&& strtabSte3S2ttbMask) : cachedView r = .stage2 (stage2View vmid root) := by
      rw [cachedView_of_translates h₀, h₂, h₃, hnew]
    refine ⟨?_, fun hrest => ?_⟩
    · by_cases htranslates : SteTranslates (steAt words ste 0)
      · have hold := steView_of_translates (steAt words ste) htranslates
        have hone := hcond _ hold
        rw [← hnew] at hone
        rw [hold]
        rcases hcases with ⟨h₀, h₂, h₃⟩ | ⟨h₀, h₂, h₃⟩
        · have h₀' : SteTranslates (r 0) := h₀ ▸ htranslates
          rw [cachedView_of_translates h₀', ← hnew]
          rcases hone with hcfg | httb
          · have hsame := steStage2_congr hcfg
            have hr2 (e : BitVec 64) : steStage2 (r 2) e = steStage2 (ste2 vmid) e := by
              rcases h₂ with h₂ | h₂
              · rw [h₂]
              · exact h₂ ▸ hsame e
            rcases h₃ with h₃ | h₃
            · exact .inr (by rw [hr2, h₃])
            · exact .inl (by rw [hr2, h₃, hsame]; rfl)
          · have hsame (x : BitVec 64) : steStage2 x (steAt words ste 3) =
                steStage2 x (root &&& strtabSte3S2ttbMask) := congrArg (SteStage2.mk _ _ _ _ _) httb
            have hr3 (x : BitVec 64) : steStage2 x (r 3) = steStage2 x (root &&& strtabSte3S2ttbMask) := by
              rcases h₃ with h₃ | h₃
              · rw [h₃]
              · exact h₃ ▸ hsame x
            rcases h₂ with h₂ | h₂
            · exact .inr (by rw [hr3, h₂])
            · exact .inl (by rw [hr3, h₂, hsame]; rfl)
        · right
          refine hviewNew ?_ h₂ h₃
          rcases h₀ with h₀ | h₀
          · exact h₀ ▸ steTranslates_new
          · exact h₀ ▸ htranslates
      · rcases hcases with ⟨h₀, -, -⟩ | ⟨h₀ | h₀, h₂, h₃⟩
        · exact .inl (cachedView_of_not_translates htranslates h₀)
        · exact .inr (hviewNew (h₀ ▸ steTranslates_new) h₂ h₃)
        · exact .inl (cachedView_of_not_translates htranslates h₀)
    · obtain ⟨h₀, h₂, h₃⟩ := hend hrest
      exact hviewNew (h₀ ▸ steTranslates_new) h₂ h₃

/-! ### In a run -/

theorem registrations_stage2 {as : List StrtabAction} {d : ℕ × SteStage2} (hd : d ∈ registrations as) :
    ∃ vmid root, d.2 = stage2View vmid root := by
  obtain ⟨a, -, ha⟩ := List.mem_filterMap.mp hd
  cases a with
  | devInit vm vmid sid =>
    cases ha
    exact ⟨_, _, rfl⟩
  | alloc => cases ha
  | store => cases ha

end Avisor
