import Avisor.Vm.Isolation

/-!
# What VMs find in their memory

A VM finds in its RAM what it has stored there last, and where it has stored nothing, the image that was copied there,
whatever the hypervisor and the other VMs do in between.
-/

namespace Avisor

open Function Memory

variable {v : VmPlatform} {ram : Set Nat} {s s₀ t : VmMemories} {k a pa n : Nat} {b c : BitVec 8}
  {acts later : List VmAct}

/-- The VM `k` has RAM at `a`, and finds the byte `b` there. -/
def VmFinds (v : VmPlatform) (ram : Set Nat) (s : VmMemories) (k a : Nat) (b : BitVec 8) : Prop :=
  k < s.nrVms ∧ ∃ pa flags, translate s.mem.words (s.as v k).pt a = some (pa, flags) ∧ pa ∈ ram ∧ s.mem.bytes pa = b

theorem vmFinds_iff : VmFinds v ram s k a b ↔ (s.domains v).Sees ram k a b := by
  constructor
  · rintro ⟨hk, pa, flags, ht, hram, hbyte⟩
    exact ⟨pa, hram, domains_holds.mpr ⟨hk, flags, ht⟩, hbyte⟩
  · rintro ⟨pa, hram, hhold, hbyte⟩
    obtain ⟨hk, flags, ht⟩ := domains_holds.mp hhold
    exact ⟨hk, pa, flags, ht, hram, hbyte⟩

/-! ### Stores -/

/-- What a store does in the domains: nothing, or one byte of the VM. -/
theorem vmStore_cases {x : BitVec 8} (h : VmMemoriesOk v ram s) (hk : k < s.nrVms)
    (hrun : (VmAct.store k a x).run v s = some t) :
    t = s ∧ (∀ pa flags, translate s.mem.words (s.as v k).pt a = some (pa, flags) → pa ∉ ram) ∨
      ∃ pa, (s.domains v).holds k a = some pa ∧
        t.domains v = { s.domains v with mem := update (s.domains v).mem pa x } := by
  cases ht : translate s.mem.words (s.as v k).pt a with
  | none =>
    simp only [VmAct.run, ht, Option.some.injEq] at hrun
    subst hrun
    refine .inl ⟨rfl, fun pa flags hsome => ?_⟩
    cases hsome
  | some y =>
    obtain ⟨pa, flags⟩ := y
    simp only [VmAct.run, ht] at hrun
    split_ifs at hrun with hread
    · cases hrun
      refine .inl ⟨rfl, fun pa' flags' heq hram => ?_⟩
      obtain ⟨rfl, rfl⟩ := Prod.mk.inj (Option.some.inj heq)
      exact h.1.writable k hk a pa flags ht hram hread
    · cases hrun
      exact .inr ⟨pa, domains_holds.mpr ⟨hk, flags, ht⟩, (h.1.vmStore h.2 hk ht x).2⟩

/-- Behind a store to RAM, the VM finds what it has stored. -/
theorem VmFinds.store (hfinds : VmFinds v ram s k a c) (h : VmMemoriesOk v ram s)
    (hrun : (VmAct.store k a b).run v s = some t) : VmFinds v ram t k a b := by
  obtain ⟨hk, pa, flags, ht, hram, -⟩ := hfinds
  rcases vmStore_cases h hk hrun with ⟨-, hnot⟩ | ⟨pa', hhold, hdomains⟩
  · exact absurd hram (hnot pa flags ht)
  · obtain rfl : pa' = pa := Option.some.inj (hhold.symm.trans (domains_holds.mpr ⟨hk, flags, ht⟩))
    rw [vmFinds_iff, hdomains]
    exact Domains.sees_stored hhold hram b

/-- A store elsewhere leaves what the VM finds. -/
theorem VmFinds.store_other {a' : Nat} {x : BitVec 8} (hfinds : VmFinds v ram s k a b) (h : VmMemoriesOk v ram s)
    (hrun : (VmAct.store k a' x).run v s = some t) (hne : a' ≠ a) : VmFinds v ram t k a b := by
  rcases vmStore_cases h hfinds.1 hrun with ⟨rfl, -⟩ | ⟨pa', hhold, hdomains⟩
  · exact hfinds
  · rw [vmFinds_iff, hdomains]
    exact (vmFinds_iff.mp hfinds).stored h.2 hhold (fun heq => hne heq.2) x

/-- The VM stores nothing more at `a`. -/
theorem VmFinds.run (hfinds : VmFinds v ram s k a b) (h : VmMemoriesOk v ram s)
    (hrun : (vmMachine v ram).Run s later t)
    (hacts : (vmMachine v ram).EachStep (fun s act => act.Fits v ram s) s later)
    (hlater : ∀ x, .store k a x ∉ later) : VmFinds v ram t k a b := by
  rw [vmFinds_iff] at hfinds ⊢
  refine Domains.Sees.run (Q := fun act => ∀ x, act ≠ .store k a x) (VmMemories.domains v) VmAct.outside VmAct.actor
    (fun _ _ _ hwf hfits hstep hs => vmMachine_moves hwf hfits hstep hs)
    (fun s act t hwf hfits hstep hs hactor hnot hsees => ?_)
    hrun h.1 h.2 hacts (fun act hact x heq => hlater x (heq ▸ hact)) hfinds
  cases act with
  | store k' a' x =>
    obtain rfl : k' = k := Option.some.inj hactor
    have hne : a' ≠ a := fun heq => hnot x (heq ▸ rfl)
    exact vmFinds_iff.mp ((vmFinds_iff.mpr hsees).store_other ⟨hwf, hs⟩ (vmMachine_step.mp hstep) hne)
  | _ => cases hactor

/-! ### Images -/

/-- The image of a region does not change while its pages are mapped. -/
theorem Installed.image {m : MmuState} {va base p : Nat} {flags : Pte} {page : Option Ppages} {k : Fin s.nrVms}
    (h : Installed v.vmPtDscr s.roots k s.mem m page va n base flags) (hok : VmMemoriesOk v ram s)
    (hp : p ∉ ram) : m.bytes p = s.mem.bytes p := by
  by_contra hne
  rcases h.written _ (MmuState.words_ne_of_bytes hne) with hentry | hfree
  · exact hp (hok.2.kept (.inl ⟨k, hentry⟩)).1
  · exact hp (hok.2.free (hok.1.tables.pool.freeAt_word.mp hfree))

/-- Behind a region, the VM finds the image at its start. -/
theorem RegionFits.finds {baseAddr loadAddr size i : Nat} (hfits : RegionFits v ram s k baseAddr loadAddr size n)
    (hok : VmMemoriesOk v ram s) (hrun : (VmAct.memRegion k baseAddr loadAddr size n).run v s = some t)
    (hi : i < size) : VmFinds v ram t k (baseAddr + i) (s.mem.bytes (loadAddr + i)) := by
  obtain ⟨m', hregion, rfl⟩ := Option.map_eq_some_iff.mp hrun
  obtain ⟨hwf', -⟩ := hfits.step hok.1 hok.2 hregion
  obtain ⟨m, base, hinstalled, -, rfl⟩ := hfits.run hok.1.tables (fun _ hp => hok.2.free hp) hregion
  have hin := hfits.fits
  have hmapped : translate m.words (s.as v k).pt (baseAddr + i) =
      some (base + i, (ptePageType ||| pteVmFlags) &&& pteFlagsMsk) := by
    have hinside := translate_inside hinstalled.pages (Nat.le_add_right baseAddr i) (by omega)
    rwa [Nat.add_sub_cancel_left] at hinside
  have hram : base + i ∈ ram := hok.2.free (hinstalled.freeAt hok.1.tables (Nat.le_add_right ..) (by omega))
  refine ⟨hfits.vm, base + i, (ptePageType ||| pteVmFlags) &&& pteFlagsMsk, ?_, hram, ?_⟩
  · exact (hinstalled.translate_stored hwf'.tables (fun p hne => ⟨rfl, words_image hinstalled hin hne⟩) hfits.vm).trans
      hmapped
  · show (m.withBytes _).bytes (base + i) = _
    rw [MmuState.bytes_withBytes, copy_apply hi]
    exact hinstalled.image hok (hfits.image i hi)

/-! ### Runs -/

theorem firstCreated_ok : VmMemoriesOk flatPlatform eightPagesRam firstCreated :=
  ((VmMemoriesOk.always (VmMemoriesInit.wf noVms_init) twoVmsActs_fits).2 firstCreated
    (vmMachine_step.mpr firstCreated_run)).head

end Avisor
