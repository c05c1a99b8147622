import Avisor.Vgic.Presenting
import Mathlib.Data.Finset.Card
import Mathlib.Data.Finset.Range

/-!
# The loop that refills list registers

As long as a list register is free, `vgic_refill_lrs` takes the interrupt that comes first by priority and
number from the list of the vCPU and that of its VM. Where another vCPU owns that interrupt, the loop is
continued without a change of what it looks at, and finds the same interrupt again.
-/

namespace Avisor

open Function CircularList

/-! ### The loop, with its rounds counted -/

/-- From the state `s` the loop of `vgic_refill_lrs` ends in the state `t`, behind `n` rounds; the caller then
releases `vgic_spilled_lock`. -/
inductive RefillEnds (E : VgicEnv) : VgicState → IntState → Nat → VgicState → Prop
  | full {s flags} (full : findLr E s ListReg.elrsr = none) : RefillEnds E s flags 0 s
  | empty {s flags lrInd} (found : findLr E s ListReg.elrsr = some lrInd)
      (empty : vgicHighestPrioSpilled E s E.current flags = some none) :
      RefillEnds E s flags 1 (s.setHcr E.self { s.hcr E.self with npie := false, uie := false })
  | take {s flags lrInd irq n t} (found : findLr E s ListReg.elrsr = some lrInd)
      (highest : vgicHighestPrioSpilled E s E.current flags = some (some irq))
      (owned : (vgicGetOwnership s E.current irq).1 = true)
      (rest : RefillEnds E (vgicUnspill E (vgicGetOwnership s E.current irq).2 E.current irq lrInd)
        .pendact n t) : RefillEnds E s flags (n + 1) t
  | again {s flags lrInd irq n t} (found : findLr E s ListReg.elrsr = some lrInd)
      (highest : vgicHighestPrioSpilled E s E.current flags = some (some irq))
      (refused : (vgicGetOwnership s E.current irq).1 = false)
      (rest : RefillEnds E (vgicGetOwnership s E.current irq).2 flags n t) : RefillEnds E s flags (n + 1) t

section

variable (E : VgicEnv) (s : VgicState)

/-- The number of free list registers. -/
def freeLrs : Nat := {k ∈ Finset.range E.cfg.numLrs | (s.lr E.self k).elrsr = true}.card

/-- The number of interrupts on the two lists. -/
def spilledCount : Nat := ((spilledEntries E s E.current).map List.length).getD 0

/-- The flags that the loop starts with. -/
def refillFlags (npie : Bool) : IntState := if npie then .pending else .pendact

/-- The loop ends, behind no more rounds than there are free list registers and spilled interrupts. -/
def RefillReturns (npie : Bool) : Prop :=
  ∃ n ≤ freeLrs E s + spilledCount E s, ∃ t, RefillEnds E s (refillFlags npie) n t

/-! ### The order of the interrupts -/

/-- The order in which the interrupts of `l` are the first ones, of those that are pending or active; `flags`
goes for the first. -/
def refillOrder : Nat → List IntRef → IntState → List IntRef
  | 0, _, _ => []
  | n + 1, l, flags =>
    match l.foldl (higherPrio E s flags) none with
    | none => []
    | some i => i :: refillOrder n (l.erase i) .pendact

/-- The list register that the interrupt is written to is not free afterwards. -/
def fillsLr (i : IntRef) : Bool :=
  let s := (vgicGetOwnership s E.current i).2
  !(lrOfInt E i (s.ints i) (vgicGetState E s i)).1.elrsr

/-- Of interrupts that go to `free` list registers one after another, each one until there is none left is
owned by the vCPU or by nobody. -/
def GrantedWhileFree : Nat → List IntRef → Prop
  | 0, _ => True
  | _ + 1, [] => True
  | free + 1, i :: l =>
    (vgicGetOwnership s E.current i).1 = true ∧
      GrantedWhileFree (if fillsLr E s i then free else free + 1) l

/-- As long as a list register is free for it, no interrupt that another vCPU owns is the next one. -/
def RefillGranted (npie : Bool) : Prop :=
  ∀ l, spilledEntries E s E.current = some l →
    GrantedWhileFree E s (freeLrs E s) (refillOrder E s l.length l (refillFlags npie))

end

variable {E : VgicEnv} {s t u : VgicState} {i j : IntRef} {k n : Nat} {flags : IntState}
  {q : SpilledHead → List IntRef}

/-! ### What a round leaves of the other interrupts -/

/-- A refused owner is no change of the state. -/
theorem vgicGetOwnership_refused (h : (vgicGetOwnership s E.current i).1 = false) :
    (vgicGetOwnership s E.current i).2 = s := by
  rcases vgicGetOwnership_cases s E.current i with ⟨-, hsame⟩ | ⟨hnone, -⟩
  · exact hsame
  · rw [vgicGetOwnership_granted.mpr (.inl hnone)] at h
    cases h

theorem vgicGetOwnership_self (s : VgicState) (vcpu : VcpuRef) (i : IntRef) :
    (vgicGetOwnership s vcpu i).2.ints i =
      if (s.ints i).owner = none then { s.ints i with owner := some vcpu } else s.ints i := by
  rcases vgicGetOwnership_cases s vcpu i with ⟨hsome, hsame⟩ | ⟨hnone, hget⟩
  · rw [hsame, if_neg hsome]
  · rw [hget, if_pos hnone, VgicState.modifyInt_ints, update_self]

/-- Behind a round of the loop that writes list register `k`, free before, for an interrupt with another number,
`j` is as it was, or it has left that list register for the books as well. -/
structure Beside (E : VgicEnv) (k : Nat) (s t : VgicState) (j : IntRef) : Prop where
  int : t.ints j = s.ints j ∨
    (s.ints j).owner = some E.current ∧ (s.ints j).lr = k ∧
      ∃ owner, (owner = none ∨ owner = some E.current) ∧
        t.ints j = { s.ints j with inLr := false, owner := owner }
  free : (s.lr E.self k).state = .inv
  vid : (t.lr E.self k).vid ≠ j.id
  lr : ∀ n, n ≠ k → t.lr E.self n = s.lr E.self n

namespace Beside

theorem state (h : Beside E k s t j) : vgicGetState E t j = vgicGetState E s j := by
  have hnone (hk : (s.ints j).lr = k) : gichGetLr E s j = none := by
    apply gichGetLr_of_other
    rw [hk]
    exact fun _ => h.free
  rcases h.int with hsame | ⟨-, hk, owner, -, hleft⟩
  · by_cases hk : (s.ints j).lr = k
    · have hnone' : gichGetLr E t j = none := by
        apply gichGetLr_of_other
        rw [hsame, hk]
        exact fun hvid => absurd hvid h.vid
      rw [vgicGetState_of_none (hnone hk), vgicGetState_of_none hnone', hsame]
    · exact vgicGetState_congr hsame (h.lr _ hk)
  · have hnone' : gichGetLr E t j = none := by
      apply gichGetLr_of_not_inLr
      rw [hleft]
    rw [vgicGetState_of_none (hnone hk), vgicGetState_of_none hnone', hleft]
    rfl

theorem prio (h : Beside E k s t j) : (t.ints j).prio = (s.ints j).prio := by
  rcases h.int with hsame | ⟨-, -, owner, -, hleft⟩
  · rw [hsame]
  · rw [hleft]

theorem granted (h : Beside E k s t j) :
    (vgicGetOwnership t E.current j).1 = (vgicGetOwnership s E.current j).1 := by
  rw [Bool.eq_iff_iff, vgicGetOwnership_granted, vgicGetOwnership_granted]
  rcases h.int with hsame | ⟨howner, -, owner, hnew, hleft⟩
  · rw [hsame]
  · rw [hleft]
    exact iff_of_true hnew (.inr howner)

theorem getOwnership (h : Beside E k s t j) :
    Beside E k (vgicGetOwnership s E.current j).2 (vgicGetOwnership t E.current j).2 j where
  int := by
    rcases h.int with hsame | ⟨howner, hk, owner, hnew, hleft⟩
    · rw [vgicGetOwnership_self, vgicGetOwnership_self, hsame]
      exact .inl rfl
    · have hs : (vgicGetOwnership s E.current j).2.ints j = s.ints j := by
        rw [vgicGetOwnership_self, if_neg (by rw [howner]; exact Option.some_ne_none _)]
      rw [hs, vgicGetOwnership_self, hleft]
      refine .inr ⟨howner, hk, some E.current, .inr rfl, ?_⟩
      rcases hnew with rfl | rfl
      · exact if_pos rfl
      · exact if_neg (Option.some_ne_none _)
  free := by
    rw [(vgicGetOwnership_same s E.current j).2]
    exact h.free
  vid := by
    rw [(vgicGetOwnership_same t E.current j).2]
    exact h.vid
  lr n hn := by
    rw [(vgicGetOwnership_same s E.current j).2, (vgicGetOwnership_same t E.current j).2]
    exact h.lr n hn

theorem fills (h : Beside E k s t j) : fillsLr E t j = fillsLr E s j := by
  have howned := h.getOwnership
  have hstate := howned.state
  unfold fillsLr
  dsimp only
  rw [hstate]
  rcases howned.int with hsame | ⟨-, -, owner, -, hleft⟩
  · rw [hsame]
  · rw [hleft]
    rfl

end Beside

/-- The interrupt that the list register held before leaves it, and may be given up. -/
theorem vgicReleasePrev_int (E : VgicEnv) (s : VgicState) (i : IntRef) (k : Nat) (j : IntRef) :
    (vgicReleasePrev E s E.current i k).ints j = s.ints j ∨
      (s.ints j).owner = some E.current ∧ (s.ints j).lr = k ∧
        ∃ owner, (owner = none ∨ owner = some E.current) ∧
          (vgicReleasePrev E s E.current i k).ints j = { s.ints j with inLr := false, owner := owner } := by
  rcases vgicReleasePrev_cases E s E.current i k with hsame | ⟨prev, hprev, hrelease⟩
  · rw [hsame]
    exact .inl rfl
  · rw [hrelease]
    by_cases hj : j = prev
    · subst hj
      right
      rcases vgicYieldOwnership_cases E (s.modifyInt j fun int => { int with inLr := false }) E.current j with
        hsame | ⟨-, hyield⟩
      · refine ⟨hprev.owner, hprev.lr, some E.current, .inr rfl, ?_⟩
        rw [hsame, VgicState.modifyInt_ints, update_self, ← hprev.owner]
      · refine ⟨hprev.owner, hprev.lr, none, .inl rfl, ?_⟩
        rw [hyield, VgicState.modifyInt_ints, update_self, VgicState.modifyInt_ints, update_self]
    · left
      rw [vgicYieldOwnership_ints_ne hj, VgicState.modifyInt_ints, update_of_ne hj]

theorem vgicUnspill_lr : (vgicUnspill E (vgicGetOwnership s E.current i).2 E.current i k).lr =
    update s.lr E.self (update (s.lr E.self) k
      (lrOfInt E i ((vgicGetOwnership s E.current i).2.ints i)
        (vgicGetState E (vgicGetOwnership s E.current i).2 i)).1) := by
  unfold vgicUnspill
  rw [vgicWriteLr_lr, ← (vgicGetOwnership_same s E.current i).2]
  rfl

/-- What `vgic_refill_lrs` takes into a free list register leaves the other interrupts beside it. -/
theorem vgicUnspill_beside (hfree : (s.lr E.self k).state = .inv) (hid : i.id ≠ j.id) :
    Beside E k s (vgicUnspill E (vgicGetOwnership s E.current i).2 E.current i k) j where
  int := by
    have hj : j ≠ i := fun heq => hid (congrArg IntRef.id heq.symm)
    have hprev := vgicReleasePrev_int E
      { (vgicGetOwnership s E.current i).2 with
        links := listDel (vgicGetOwnership s E.current i).2.links (.node i) } i k j
    unfold vgicUnspill
    rw [vgicWriteLr_ints, update_of_ne hj]
    dsimp only at hprev
    rwa [vgicGetOwnership_ints_ne hj] at hprev
  free := hfree
  vid := by
    rw [vgicUnspill_lr, update_self, update_self, lrOfInt_vid]
    exact hid
  lr n hn := by
    rw [vgicUnspill_lr, update_self, update_of_ne hn]

/-! ### The free list registers -/

theorem findLr_eq_none_iff : findLr E s ListReg.elrsr = none ↔ freeLrs E s = 0 := by
  unfold findLr freeLrs
  rw [List.find?_eq_none, Finset.card_eq_zero, Finset.filter_eq_empty_iff]
  simp

/-- A free one of `m` list registers that is written is one less, unless what is written leaves it free. -/
theorem card_elrsr_update {m : Nat} {lrs : Nat → ListReg} (hk : k < m) (hfree : (lrs k).elrsr = true)
    (lr : ListReg) :
    {n ∈ Finset.range m | (lrs n).elrsr = true}.card =
      {n ∈ Finset.range m | (update lrs k lr n).elrsr = true}.card + if lr.elrsr then 0 else 1 := by
  cases hlr : lr.elrsr with
  | true =>
    rw [if_pos rfl, Nat.add_zero]
    congr 1
    ext n
    by_cases hn : n = k
    · subst hn
      simp [hlr, hfree]
    · simp [hn]
  | false =>
    have hmem : k ∈ {n ∈ Finset.range m | (lrs n).elrsr = true} := by simp [hk, hfree]
    rw [if_neg Bool.false_ne_true, ← Finset.card_erase_add_one hmem]
    congr 2
    ext n
    by_cases hn : n = k
    · subst hn
      simp [hlr]
    · simp [hn]

theorem freeLrs_unspill (hfound : findLr E s ListReg.elrsr = some k) :
    freeLrs E s = freeLrs E (vgicUnspill E (vgicGetOwnership s E.current i).2 E.current i k) +
      if fillsLr E s i then 1 else 0 := by
  obtain ⟨hk, hfree⟩ := findLr_eq_some hfound
  have hfills : fillsLr E s i = !(lrOfInt E i ((vgicGetOwnership s E.current i).2.ints i)
    (vgicGetState E (vgicGetOwnership s E.current i).2 i)).1.elrsr := rfl
  unfold freeLrs
  rw [vgicUnspill_lr, update_self, card_elrsr_update hk hfree, hfills]
  congr 1
  split
  · rename_i hlr
    simp [hlr]
  · rename_i hlr
    simp [hlr]

/-! ### The lists behind a round -/

theorem vgicWriteLr_links : (vgicWriteLr E s E.current i k).links = s.links := by
  unfold vgicWriteLr
  exact vgicReleasePrev_links

/-- The interrupts on the two lists. -/
def listedOf (E : VgicEnv) (q : SpilledHead → List IntRef) : List IntRef :=
  q (.vcpu E.current) ++ q (.vm E.current.vm)

namespace SpillLists

/-- An interrupt that is taken leaves the lists as they were without it. -/
theorem unspill (h : SpillLists E q s) (hi : i ∈ listedOf E q) :
    ∃ q', SpillLists E q' (vgicUnspill E (vgicGetOwnership s E.current i).2 E.current i k) ∧
      listedOf E q' = (listedOf E q).erase i := by
  have hvcpu : OwnHead E (.vcpu E.current) := .inl rfl
  have hvm : OwnHead E (.vm E.current.vm) := .inr rfl
  have hmem : i ∈ q (spilledHead E.current i) := h.spilled_iff.mp ⟨_, h.spilledEntries, hi⟩
  obtain ⟨l₁, l₂, hsplit⟩ := List.append_of_mem hmem
  have hown := ownHead_spilledHead (E := E) (i := i)
  have hlist := h.lists _ hown
  have herase : (q (spilledHead E.current i)).erase i = l₁ ++ l₂ := by
    rw [hsplit]
    have hnodup := hlist.nodup
    rw [hsplit] at hnodup
    have hn : i ∉ l₁ := by
      intro hin
      exact (List.nodup_middle.mp hnodup).notMem (List.mem_append_left _ hin)
    rw [List.erase_append_right _ hn, List.erase_cons_head]
  rw [hsplit] at hlist
  have hlinks : (vgicUnspill E (vgicGetOwnership s E.current i).2 E.current i k).links =
      listDel s.links (.node i) := by
    unfold vgicUnspill
    rw [vgicWriteLr_links, (vgicGetOwnership_same s E.current i).1]
  refine ⟨fun hd => (q hd).erase i, ⟨fun hd hhd => ?_, fun hd hhd j hj => ?_⟩, ?_⟩
  · rw [hlinks]
    by_cases heq : hd = spilledHead E.current i
    · subst heq
      rw [herase]
      exact hlist.listDel
    · have hnot : i ∉ q hd := fun hin => heq ((h.member hd hhd i hin).2.symm)
      rw [List.erase_of_not_mem hnot]
      apply (h.lists hd hhd).listDel_other hlist heq
      intro j hj hj'
      rw [← hsplit] at hj'
      exact heq ((h.member hd hhd j hj).2.symm.trans (h.member _ hown j hj').2)
  · exact h.member hd hhd j (List.mem_of_mem_erase hj)
  · unfold listedOf
    dsimp only
    by_cases hin : i ∈ q (.vcpu E.current)
    · have hnot : i ∉ q (.vm E.current.vm) := by
        intro hin'
        cases (h.member _ hvcpu i hin).2.symm.trans (h.member _ hvm i hin').2
      rw [List.erase_append_left _ hin, List.erase_of_not_mem hnot]
    · rw [List.erase_append_right _ hin, List.erase_of_not_mem hin]

theorem own (h : SpillLists E q s) (hi : i ∈ listedOf E q) : Own E i := by
  rcases List.mem_append.mp hi with hi | hi
  · exact (h.member _ (.inl rfl) i hi).1
  · exact (h.member _ (.inr rfl) i hi).1

theorem nodup (h : SpillLists E q s) : (listedOf E q).Nodup := by
  apply List.Nodup.append (h.lists _ (.inl rfl)).nodup (h.lists _ (.inr rfl)).nodup
  intro i hi hi'
  cases (h.member _ (.inl rfl) i hi).2.symm.trans (h.member _ (.inr rfl) i hi').2

/-- A round leaves the interrupts that stay on the lists beside it. -/
theorem beside (h : SpillLists E q s) (hi : i ∈ listedOf E q)
    (hfound : findLr E s ListReg.elrsr = some k) (hj : j ∈ (listedOf E q).erase i) :
    Beside E k s (vgicUnspill E (vgicGetOwnership s E.current i).2 E.current i k) j := by
  obtain ⟨hne, hj⟩ := h.nodup.mem_erase_iff.mp hj
  apply vgicUnspill_beside
  · have hfree := (findLr_eq_some hfound).2
    simp only [ListReg.elrsr, Bool.and_eq_true, decide_eq_true_eq] at hfree
    exact hfree.1
  · exact fun hid => hne ((h.own hj).id_inj (h.own hi) hid.symm)

end SpillLists

/-! ### The order behind a round -/

theorem foldl_higherPrio_congr {l : List IntRef} {irq : Option IntRef} (h : ∀ j ∈ l, Beside E k s t j)
    (hirq : ∀ j, irq = some j → Beside E k s t j) :
    l.foldl (higherPrio E t flags) irq = l.foldl (higherPrio E s flags) irq := by
  induction l generalizing irq with
  | nil => rfl
  | cons j l ih =>
    have hj := h j List.mem_cons_self
    have hstep : higherPrio E t flags irq j = higherPrio E s flags irq j := by
      have hprio : (irq.map fun i => (t.ints i).prio) = irq.map fun i => (s.ints i).prio := by
        cases irq with
        | none => rfl
        | some i => exact congrArg some (hirq i rfl).prio
      unfold higherPrio
      rw [hj.state, hj.prio, hprio]
    rw [List.foldl_cons, List.foldl_cons, hstep]
    apply ih fun m hm => h m (List.mem_cons_of_mem j hm)
    intro m hm
    unfold higherPrio at hm
    dsimp only at hm
    split at hm
    · exact hirq m hm
    · split at hm
      · cases hm
        exact hj
      · exact hirq m hm

theorem mem_refillOrder {l : List IntRef} (h : i ∈ refillOrder E s n l flags) : i ∈ l := by
  induction n generalizing l flags with
  | zero => cases h
  | succ n ih =>
    rw [refillOrder] at h
    split at h
    · cases h
    · rename_i j hj
      rcases List.mem_cons.mp h with rfl | h
      · exact (foldl_higherPrio hj).resolve_right (by simp)
      · exact List.mem_of_mem_erase (ih h)

theorem refillOrder_congr {l : List IntRef} (h : ∀ j ∈ l, Beside E k s t j) :
    refillOrder E t n l flags = refillOrder E s n l flags := by
  induction n generalizing l flags with
  | zero => rfl
  | succ n ih =>
    rw [refillOrder, refillOrder, foldl_higherPrio_congr h fun j hj => by cases hj]
    split
    · rfl
    · rename_i i _
      rw [ih fun j hj => h j (List.mem_of_mem_erase hj)]

theorem grantedWhileFree_congr {l : List IntRef} {free : Nat} (h : ∀ j ∈ l, Beside E k s t j) :
    GrantedWhileFree E t free l ↔ GrantedWhileFree E s free l := by
  induction l generalizing free with
  | nil =>
    cases free with
    | zero => exact Iff.rfl
    | succ free => exact Iff.rfl
  | cons i l ih =>
    cases free with
    | zero => exact Iff.rfl
    | succ free =>
      have hi := h i List.mem_cons_self
      rw [GrantedWhileFree, GrantedWhileFree, hi.granted, hi.fills,
        ih fun j hj => h j (List.mem_cons_of_mem i hj)]

/-! ### The end of the loop -/

/-- Where the next interrupt is refused, the loop goes on for ever. -/
theorem RefillEnds.not_refused (h : RefillEnds E s flags n t) (hfound : findLr E s ListReg.elrsr = some k)
    (hhighest : vgicHighestPrioSpilled E s E.current flags = some (some i)) :
    (vgicGetOwnership s E.current i).1 = true := by
  induction h with
  | full full =>
    rw [full] at hfound
    cases hfound
  | empty _ empty =>
    rw [empty] at hhighest
    cases hhighest
  | take _ highest owned =>
    rw [highest] at hhighest
    cases hhighest
    exact owned
  | again _ highest refused _ ih =>
    rw [highest] at hhighest
    cases hhighest
    rw [vgicGetOwnership_refused refused] at ih
    exact ih hfound highest

namespace SpillLists

theorem highest (h : SpillLists E q s) : vgicHighestPrioSpilled E s E.current flags =
    some ((listedOf E q).foldl (higherPrio E s flags) none) := by
  unfold vgicHighestPrioSpilled
  rw [h.spilledEntries]
  rfl

/-- The condition behind a round that takes an interrupt is what is left of the condition before. -/
theorem granted_unspill (h : SpillLists E q s) (hfound : findLr E s ListReg.elrsr = some k)
    (hirq : (listedOf E q).foldl (higherPrio E s flags) none = some i) :
    ∃ q', SpillLists E q' (vgicUnspill E (vgicGetOwnership s E.current i).2 E.current i k) ∧
      (listedOf E q').length + 1 = (listedOf E q).length ∧
      (GrantedWhileFree E s (freeLrs E s) (refillOrder E s (listedOf E q).length (listedOf E q) flags) ↔
        (vgicGetOwnership s E.current i).1 = true ∧
          GrantedWhileFree E (vgicUnspill E (vgicGetOwnership s E.current i).2 E.current i k)
            (freeLrs E (vgicUnspill E (vgicGetOwnership s E.current i).2 E.current i k))
            (refillOrder E (vgicUnspill E (vgicGetOwnership s E.current i).2 E.current i k)
              (listedOf E q').length (listedOf E q') .pendact)) := by
  have hi : i ∈ listedOf E q := (foldl_higherPrio hirq).resolve_right (by simp)
  obtain ⟨q', hq', herase⟩ := h.unspill (k := k) hi
  have hlength : (listedOf E q').length + 1 = (listedOf E q).length := by
    rw [herase]
    exact List.length_erase_add_one hi
  have hbeside : ∀ j ∈ listedOf E q',
      Beside E k s (vgicUnspill E (vgicGetOwnership s E.current i).2 E.current i k) j := by
    intro j hj
    rw [herase] at hj
    exact h.beside hi hfound hj
  have hfree := freeLrs_unspill (i := i) hfound
  refine ⟨q', hq', hlength, ?_⟩
  generalize vgicUnspill E (vgicGetOwnership s E.current i).2 E.current i k = u at hbeside hfree
  have hpos : freeLrs E s ≠ 0 := by
    intro hzero
    rw [findLr_eq_none_iff.mpr hzero] at hfound
    cases hfound
  obtain ⟨m, hm⟩ := Nat.exists_eq_add_one_of_ne_zero hpos
  have hleft : (if fillsLr E s i then m else m + 1) = freeLrs E u := by
    split at hfree
    · rename_i hfills
      rw [if_pos hfills]
      omega
    · rename_i hfills
      rw [if_neg hfills]
      omega
  rw [hm, ← hlength, refillOrder, hirq]
  dsimp only
  rw [GrantedWhileFree, hleft, ← herase, refillOrder_congr hbeside,
    grantedWhileFree_congr fun j hj => hbeside j (mem_refillOrder hj)]

/-- Where no interrupt is refused while a list register is free, the loop ends. -/
theorem refillEnds_of_granted (h : SpillLists E q s)
    (hgranted : GrantedWhileFree E s (freeLrs E s)
      (refillOrder E s (listedOf E q).length (listedOf E q) flags)) :
    ∃ n ≤ freeLrs E s + (listedOf E q).length, ∃ t, RefillEnds E s flags n t := by
  induction hlen : (listedOf E q).length using Nat.strongRecOn generalizing s q flags with
  | ind m ih =>
    cases hfound : findLr E s ListReg.elrsr with
    | none => exact ⟨0, Nat.zero_le _, s, .full hfound⟩
    | some k =>
      have hpos : freeLrs E s ≠ 0 := by
        intro hzero
        rw [findLr_eq_none_iff.mpr hzero] at hfound
        cases hfound
      cases hirq : (listedOf E q).foldl (higherPrio E s flags) none with
      | none =>
        have hempty : vgicHighestPrioSpilled E s E.current flags = some none := by rw [h.highest, hirq]
        exact ⟨1, by omega, _, .empty hfound hempty⟩
      | some i =>
        have hhighest : vgicHighestPrioSpilled E s E.current flags = some (some i) := by
          rw [h.highest, hirq]
        obtain ⟨q', hq', hlength, hiff⟩ := h.granted_unspill hfound hirq
        obtain ⟨howned, hrest⟩ := hiff.mp hgranted
        obtain ⟨n, hn, t, hends⟩ := ih (listedOf E q').length (by omega) hq' hrest rfl
        have hfree := freeLrs_unspill (i := i) hfound
        exact ⟨n + 1, by omega, t, .take hfound hhighest howned hends⟩

/-- Where the loop ends, no interrupt was refused. -/
theorem granted_of_refillEnds (h : SpillLists E q s) (hends : RefillEnds E s flags n t) :
    GrantedWhileFree E s (freeLrs E s)
      (refillOrder E s (listedOf E q).length (listedOf E q) flags) := by
  induction hends generalizing q with
  | full full =>
    rw [findLr_eq_none_iff.mp full, GrantedWhileFree]
    trivial
  | @empty s flags k _ empty =>
    rw [h.highest, Option.some.injEq] at empty
    cases hlen : (listedOf E q).length with
    | zero =>
      rw [refillOrder]
      cases freeLrs E s with
      | zero => trivial
      | succ => trivial
    | succ m =>
      rw [refillOrder, empty]
      cases freeLrs E s with
      | zero => trivial
      | succ => trivial
  | take found highest owned _ ih =>
    rw [h.highest, Option.some.injEq] at highest
    obtain ⟨q', hq', -, hiff⟩ := h.granted_unspill found highest
    exact hiff.mpr ⟨owned, ih hq'⟩
  | again found highest refused rest =>
    have howned := (RefillEnds.again found highest refused rest).not_refused found highest
    rw [refused] at howned
    cases howned

/-- The loop ends, behind as many rounds at most as there are free list registers and spilled interrupts,
exactly if no interrupt that another vCPU owns is the next one as long as a list register is free. -/
theorem refillReturns_iff (h : SpillLists E q s) (npie : Bool) :
    RefillReturns E s npie ↔ RefillGranted E s npie := by
  have hcount : spilledCount E s = (listedOf E q).length := by
    unfold spilledCount
    rw [h.spilledEntries]
    rfl
  constructor
  · rintro ⟨n, -, t, hends⟩ l hl
    rw [h.spilledEntries] at hl
    cases hl
    exact h.granted_of_refillEnds hends
  · intro hgranted
    unfold RefillReturns
    rw [hcount]
    exact h.refillEnds_of_granted (hgranted _ h.spilledEntries)

theorem refillLoop_of_ends {fuel : Nat} (h : SpillLists E q s) (hends : RefillEnds E s flags n t)
    (hfuel : (listedOf E q).length < fuel) : refillLoop E E.current fuel s flags = some t := by
  induction hends generalizing q fuel with
  | full full =>
    obtain ⟨fuel, rfl⟩ := Nat.exists_eq_add_one_of_ne_zero (Nat.ne_zero_of_lt hfuel)
    rw [refillLoop, full]
  | empty found empty =>
    obtain ⟨fuel, rfl⟩ := Nat.exists_eq_add_one_of_ne_zero (Nat.ne_zero_of_lt hfuel)
    rw [refillLoop, found]
    dsimp only
    rw [empty]
  | take found highest owned _ ih =>
    obtain ⟨fuel, rfl⟩ := Nat.exists_eq_add_one_of_ne_zero (Nat.ne_zero_of_lt hfuel)
    have hirq := highest
    rw [h.highest, Option.some.injEq] at hirq
    obtain ⟨q', hq', hlength, -⟩ := h.granted_unspill found hirq
    rw [refillLoop, found]
    dsimp only
    rw [highest]
    dsimp only
    rw [if_pos owned]
    exact ih hq' (by omega)
  | again found highest refused rest =>
    have howned := (RefillEnds.again found highest refused rest).not_refused found highest
    rw [refused] at howned
    cases howned

end SpillLists

theorem ends_of_refillLoop {fuel : Nat} (h : refillLoop E E.current fuel s flags = some t) :
    ∃ n, RefillEnds E s flags n t := by
  induction fuel generalizing s flags with
  | zero => cases h
  | succ fuel ih =>
    unfold refillLoop at h
    split at h
    · rename_i hfull
      cases h
      exact ⟨0, .full hfull⟩
    · rename_i hfound
      split at h
      · cases h
      · rename_i hempty
        cases h
        exact ⟨1, .empty hfound hempty⟩
      · rename_i irq hhighest
        dsimp only at h
        split at h
        · rename_i howned
          obtain ⟨n, hends⟩ := ih h
          exact ⟨n + 1, .take hfound hhighest howned hends⟩
        · rename_i howned
          obtain ⟨n, hends⟩ := ih h
          exact ⟨n + 1, .again hfound hhighest (Bool.eq_false_iff.mpr howned) hends⟩

/-- The steps that `vgic_refill_lrs` is given are enough for every run of its loop that ends. -/
theorem SpillLists.vgicRefillLrs_iff (h : SpillLists E q s) (npie : Bool) :
    vgicRefillLrs E s E.current npie = some t ↔ ∃ n, RefillEnds E s (refillFlags npie) n t := by
  constructor
  · exact ends_of_refillLoop
  · intro hends
    obtain ⟨n, hends⟩ := hends
    exact h.refillLoop_of_ends hends (own_length_lt h.nodup fun i hi => h.own hi)

end Avisor
