import Avisor.Lib.Lending
import Avisor.Mem.Remapping

/-!
# Request queues

The handlers of `core/rq.c`. A VM opens its queue in pages of the pool, and others map these pages into their own
address spaces. Neither that a queue is open nor who maps its pages is written down, so nothing of this is asked for
when a queue is attached, closed or opened again.
-/

universe u

namespace Avisor

open Function

/-! ### The handlers -/

/-- `struct rq_vm`. -/
structure RqVm where
  vbase : Nat
  pbase : Nat
  rqSize : Nat
  deriving DecidableEq, Repr

/-- `NUM_PAGES(rq_size)`. -/
def RqVm.nrPages (rq : RqVm) : Nat := numPages rq.rqSize

/-- The VMs behind `vmm_init`: `vm_list` has each of them, and no other one under its id. -/
structure RqVms (κ : Type u) where
  dscr : PtDscr
  root : κ → Nat
  vmList : List κ
  id : κ → Nat
  found : ∀ k, vmList.find? (fun vm => id vm = id k) = some k

/-- The VMs' request queues and tables. `isOpen` and `attached`, by the number of a page, are not in the source: a VM
has its queue open, and a page was mapped by an attach. -/
structure RqState (κ : Type u) where
  mem : MmuState
  rq : κ → RqVm
  isOpen : κ → Bool
  attached : κ → Nat → Bool

/-- How a handler ends: in the endless loop of `ERROR`, or with the registers it has written. -/
inductive RqReply
  | error
  | back (regs : List (Nat × Nat))

/-- `PAR_PA_MSK`. -/
def parPaMsk : Nat := 0x3ffffff <<< 12

/-- `PTE_S2AP_WO`. -/
def pteS2apWo : Pte := 0x2 <<< 6

/-- `mem_translate`, which asks the hardware for both stages of a write of the running guest; `stage1` is what the
guest's own tables say. `none` stands for `PAR_F`. -/
def memTranslate (stage1 : Nat → Option Nat) (words : Nat → Pte) (pt : PageTable) (va : Nat) : Option Nat :=
  ((stage1 va).bind fun ipa => translate words pt ipa).bind fun (pa, flags) =>
    if flags &&& pteS2apWo = 0 then none else some ((pa &&& parPaMsk) ||| (va &&& (pageSize - 1)))

namespace RqVms

variable {κ : Type u} (v : RqVms κ)

/-- `vm->as.pt`. -/
def pt (k : κ) : PageTable := ⟨v.root k, v.dscr⟩

/-- `vm->as`. -/
def as (k : κ) : AddrSpace := ⟨v.pt k, .vm⟩

/-- `get_vm_by_id`. -/
def getVmById (id : Nat) : Option κ := v.vmList.find? fun vm => v.id vm = id

theorem getVmById_id (k : κ) : v.getVmById (v.id k) = some k := v.found k

end RqVms

section

variable {κ : Type u} [DecidableEq κ]

/-- `n` pages from `va` on are mapped, by an attach or not. -/
def RqState.mapped (s : RqState κ) (k : κ) (va n : Nat) (byAttach : Bool) : RqState κ :=
  { s with
    attached := update s.attached k fun page =>
      if va / pageSize ≤ page ∧ page < va / pageSize + n then byAttach else s.attached k page }

section

variable (s : RqState κ) (k : κ) (va n : Nat) (byAttach : Bool)

@[simp] theorem RqState.mapped_mem : (s.mapped k va n byAttach).mem = s.mem := rfl

@[simp] theorem RqState.mapped_rq : (s.mapped k va n byAttach).rq = s.rq := rfl

@[simp] theorem RqState.mapped_isOpen : (s.mapped k va n byAttach).isOpen = s.isOpen := rfl

variable {s k va n byAttach} {k' : κ} {page : Nat}

theorem RqState.mapped_attached (h : va / pageSize ≤ page ∧ page < va / pageSize + n) :
    (s.mapped k va n byAttach).attached k page = byAttach :=
  (congrFun (update_self k _ s.attached) page).trans (if_pos h)

theorem RqState.mapped_attached_of_not (h : ¬(k' = k ∧ va / pageSize ≤ page ∧ page < va / pageSize + n)) :
    (s.mapped k va n byAttach).attached k' page = s.attached k' page := by
  by_cases hk : k' = k
  · subst hk
    exact (congrFun (update_self k' _ s.attached) page).trans (if_neg fun hin => h ⟨rfl, hin⟩)
  · exact congrFun (update_of_ne hk _ s.attached) page

end

/-- `rq_open_hanlder`, called by the VM `k`. -/
def rqOpenHanlder (v : RqVms κ) (stage1 : Nat → Option Nat) (s : RqState κ) (k : κ) :
    Option (RqReply × RqState κ) :=
  (memAllocMap (v.as k) s.mem none (s.rq k).vbase (s.rq k).nrPages pteVmFlags).map fun (va, mem) =>
    let s := { s with mem := mem }
    if va ≠ (s.rq k).vbase then (.error, s)
    else
      let s := s.mapped k va (s.rq k).nrPages false
      match memTranslate stage1 mem.words (v.pt k) va with
      | none => (.error, s)
      | some pa =>
        let s := { s with rq := update s.rq k { s.rq k with pbase := pa } }
        match v.getVmById (v.id k) with
        | none => (.error, s)
        | some currentVm =>
          (.back [(0, v.id k), (1, (s.rq k).vbase), (2, (s.rq k).rqSize)],
            { s with
              rq := update s.rq currentVm (s.rq k)
              isOpen := update s.isOpen k true })

/-- `rq_close_hanlder`. -/
def rqCloseHanlder (v : RqVms κ) (s : RqState κ) (k : κ) : Option (RqReply × RqState κ) :=
  (memUnmap (v.as k) s.mem (s.rq k).vbase (s.rq k).nrPages true).map fun mem =>
    (.back [], { s with mem := mem, isOpen := update s.isOpen k false })

/-- `rq_attach_hanlder`. -/
def rqAttachHanlder (v : RqVms κ) (stage1 : Nat → Option Nat) (arg0 arg1 : BitVec 64) (s : RqState κ) (k : κ) :
    Option (RqReply × RqState κ) :=
  match v.getVmById arg0.toNat with
  | none => some (.error, s)
  | some recVm =>
    let pages : Ppages := ⟨(s.rq recVm).pbase, (s.rq recVm).nrPages⟩
    (memMap (v.as k) s.mem arg1.toNat (some pages) (s.rq recVm).nrPages pteVmFlags).map fun mem =>
      let s := { s with mem := mem }.mapped k arg1.toNat (s.rq recVm).nrPages true
      match memTranslate stage1 mem.words (v.pt k) arg1.toNat with
      | none => (.error, s)
      | some pa =>
        if pa ≠ (s.rq recVm).pbase then (.error, s)
        else (.back [(0, arg1.toNat), (1, (s.rq recVm).rqSize)], s)

/-- `rq_detach_hanlder`. -/
def rqDetachHanlder (v : RqVms κ) (arg0 arg1 : BitVec 64) (s : RqState κ) (k : κ) : Option (RqReply × RqState κ) :=
  (memUnmap (v.as k) s.mem arg0.toNat (numPages arg1.toNat) false).map fun mem => (.back [], { s with mem := mem })

/-- A hypercall, with what the caller's own tables say then. -/
inductive RqCall
  | rqOpen (stage1 : Nat → Option Nat)
  | rqClose
  | rqAttach (stage1 : Nat → Option Nat) (arg0 arg1 : BitVec 64)
  | rqDetach (arg0 arg1 : BitVec 64)

def RqCall.run (v : RqVms κ) (s : RqState κ) (k : κ) : RqCall → Option (RqReply × RqState κ)
  | rqOpen stage1 => rqOpenHanlder v stage1 s k
  | rqClose => rqCloseHanlder v s k
  | rqAttach stage1 arg0 arg1 => rqAttachHanlder v stage1 arg0 arg1 s k
  | rqDetach arg0 arg1 => rqDetachHanlder v arg0 arg1 s k

/-- The VMs before the first call: `struct vm` was zeroed, so no queue has an address, and no free page is mapped. -/
structure RqStart (v : RqVms κ) (s : RqState κ) : Prop where
  tables : PageTablesWf v.dscr v.root s.mem
  pbase : ∀ k, (s.rq k).pbase = 0
  closed : ∀ k, s.isOpen k = false
  detached : ∀ k page, s.attached k page = false
  used : ∀ k a pa flags, translate s.mem.words (v.pt k) a = some (pa, flags) → ¬s.mem.pool.FreeAt pa

/-- Calls of any VMs in any order. A call that ends in `ERROR` may be followed by others too. -/
def rqMachine (v : RqVms κ) : Machine (RqState κ) (κ × RqCall) where
  Init := RqStart v
  step s x := (x.2.run v s x.1).map Prod.snd

end

section

variable {κ : Type u}

/-! ### What is asked -/

/-- `pa` is part of an open queue of `k`. -/
def RqState.InQueue (s : RqState κ) (k : κ) (pa : Nat) : Prop :=
  s.isOpen k = true ∧ (s.rq k).pbase ≤ pa ∧ pa < (s.rq k).pbase + (s.rq k).nrPages * pageSize

/-- What is mapped through an attach is part of an open queue, and no free page is mapped. -/
structure QueuesSafe (v : RqVms κ) (s : RqState κ) : Prop where
  attached : ∀ k a pa flags, s.attached k (a / pageSize) = true → translate s.mem.words (v.pt k) a = some (pa, flags) →
    ∃ r, s.InQueue r pa
  used : ∀ k a pa flags, translate s.mem.words (v.pt k) a = some (pa, flags) → ¬s.mem.pool.FreeAt pa

/-- Nobody has a page of the queue of `r` attached, if it is open. -/
def Unattached (v : RqVms κ) (s : RqState κ) (r : κ) : Prop :=
  ∀ k a pa flags, s.attached k (a / pageSize) = true → translate s.mem.words (v.pt k) a = some (pa, flags) →
    ¬s.InQueue r pa

/-- A queue is opened in the address space and with fresh pages. Where its own pages are not in use, nobody has it
attached, the caller's own tables change nothing, and the pool lies in the addresses that `PAR_PA_MSK` leaves. -/
structure OpenFits (v : RqVms κ) (stage1 : Nat → Option Nat) (s : RqState κ) (k : κ) : Prop where
  span : (s.rq k).vbase + (s.rq k).nrPages * pageSize ≤ ptSpan (v.pt k)
  fresh : FreshPages v.dscr v.root .vm k s.mem none (s.rq k).vbase (s.rq k).nrPages
  unattached : RangeUnused v.dscr v.root k s.mem (s.rq k).vbase (s.rq k).nrPages → Unattached v s k
  flat : RangeUnused v.dscr v.root k s.mem (s.rq k).vbase (s.rq k).nrPages →
    ∀ ipa, stage1 (s.rq k).vbase = some ipa → ipa = (s.rq k).vbase
  low : RangeUnused v.dscr v.root k s.mem (s.rq k).vbase (s.rq k).nrPages → ∀ p, s.mem.pool.FreeAt p → p < 2 ^ 38

/-- A queue that is attached is open, and `mem_map` can map it. -/
structure AttachFits (v : RqVms κ) (va : Nat) (s : RqState κ) (k r : κ) : Prop where
  isOpen : 0 < (s.rq r).nrPages → s.isOpen r = true
  span : va / pageSize * pageSize + (s.rq r).nrPages * pageSize ≤ ptSpan (v.pt k)
  supplied : Supplied v.dscr v.root k (Finset.Ico (va / pageSize) (va / pageSize + (s.rq r).nrPages)) s.mem
  steps : ∀ l < v.dscr.last, StepsCover s.mem.words (v.pt k) (va / pageSize * pageSize)
    ((s.rq r).nrPages * pageSize) l

/-- The condition on a call of `k`. -/
def RqCall.Fits (v : RqVms κ) (s : RqState κ) (k : κ) : RqCall → Prop
  | rqOpen stage1 => (s.rq k).vbase ≠ invalidVa ∧ ((s.rq k).vbase % pageSize = 0 → OpenFits v stage1 s k)
  | rqClose => UnmapStays s.mem.words (v.pt k) (s.rq k).vbase (s.rq k).nrPages ∧ Unattached v s k
  | rqAttach _ arg0 arg1 => ∀ r, v.getVmById arg0.toNat = some r → AttachFits v arg1.toNat s k r
  | rqDetach arg0 arg1 => UnmapStays s.mem.words (v.pt k) arg0.toNat (numPages arg1.toNat)

variable {v : RqVms κ} {s t : RqState κ} {k r : κ} {stage1 : Nat → Option Nat}

/-- Where the caller's own tables change nothing, what `mem_translate` finds is the page. -/
theorem memTranslate_page {words : Nat → Pte} {pt : PageTable} {va base pa : Nat} {flags : Pte}
    (hflat : ∀ ipa, stage1 va = some ipa → ipa = va) (htranslate : translate words pt va = some (base, flags))
    (hva : va % pageSize = 0) (hpage : base % pageSize = 0) (hlow : base < 2 ^ 38)
    (h : memTranslate stage1 words pt va = some pa) : pa = base := by
  obtain ⟨⟨pa', flags'⟩, hstages, hpar⟩ := Option.bind_eq_some_iff.mp h
  obtain ⟨ipa, hstage1, hstage2⟩ := Option.bind_eq_some_iff.mp hstages
  obtain rfl := hflat ipa hstage1
  obtain ⟨rfl, rfl⟩ := Prod.mk.inj (Option.some.inj (htranslate.symm.trans hstage2))
  dsimp only at hpar
  split at hpar
  · cases hpar
  · have hoffset : ipa &&& (pageSize - 1) = 0 := by
      rw [show pageSize - 1 = 2 ^ 12 - 1 from rfl, Nat.and_two_pow_sub_one_eq_mod]
      exact hva
    obtain ⟨page, rfl⟩ := Nat.dvd_of_mod_eq_zero hpage
    have hsmall : page < 2 ^ 26 := by
      simp only [pageSize] at hlow
      omega
    have hmask : pageSize * page &&& parPaMsk = pageSize * page := by
      rw [show pageSize * page = page <<< 12 by rw [Nat.shiftLeft_eq, Nat.mul_comm]; rfl, parPaMsk,
        ← Nat.shiftLeft_and_distrib, show 0x3ffffff = 2 ^ 26 - 1 from rfl, Nat.and_two_pow_sub_one_eq_mod,
        Nat.mod_eq_of_lt hsmall]
    rw [hmask, hoffset, Nat.or_zero] at hpar
    exact (Option.some.inj hpar).symm

/-! ### Pages that are lent -/

/-- The physical addresses that the VMs' tables map, and those of open queues as what is on offer. -/
def RqState.lending (v : RqVms κ) (s : RqState κ) : Lending κ Nat Nat where
  holds k a := (translate s.mem.words (v.pt k) a).map Prod.fst
  borrowed k a := s.attached k (a / pageSize) = true
  offers k := {pa | s.InQueue k pa}
  free := {p | s.mem.pool.FreeAt p}

theorem lending_holds {a pa : Nat} :
    (s.lending v).holds k a = some pa ↔ ∃ flags, translate s.mem.words (v.pt k) a = some (pa, flags) := by
  show Option.map Prod.fst _ = some pa ↔ _
  simp [Option.map_eq_some_iff]

theorem queuesSafe_of_lending (h : (s.lending v).Safe) : QueuesSafe v s where
  attached _ _ _ flags hattached htranslate := h.borrows hattached (lending_holds.mpr ⟨flags, htranslate⟩)
  used _ _ _ flags htranslate := h.held (lending_holds.mpr ⟨flags, htranslate⟩)

theorem RqStart.safe (h : RqStart v s) : (s.lending v).Safe where
  borrows {k p r} hborrowed _ := by
    have hattached : s.attached k (p / pageSize) = true := hborrowed
    rw [h.detached] at hattached
    cases hattached
  held hhold := by
    obtain ⟨flags, htranslate⟩ := lending_holds.mp hhold
    exact h.used _ _ _ flags htranslate
  offered {k r} hoffer := by
    have hopen : s.isOpen k = true := hoffer.1
    rw [h.closed] at hopen
    cases hopen

theorem Unattached.lending (h : Unattached v s r) {a pa : Nat} (hborrowed : (s.lending v).borrowed k a)
    (hhold : (s.lending v).holds k a = some pa) : pa ∉ (s.lending v).offers r := by
  obtain ⟨flags, htranslate⟩ := lending_holds.mp hhold
  exact h k a pa flags hborrowed htranslate

/-- The tables are such, and an open queue is whole pages of memory. -/
structure RequestQueuesWf (v : RqVms κ) (s : RqState κ) : Prop where
  tables : PageTablesWf v.dscr v.root s.mem
  pages : ∀ k, (s.rq k).pbase % pageSize = 0 ∧ (s.rq k).pbase ≤ 2 ^ 48
  queues : ∀ k, s.isOpen k = true → (s.rq k).pbase + (s.rq k).nrPages * pageSize ≤ 2 ^ 48

theorem RqStart.wf (h : RqStart v s) : RequestQueuesWf v s where
  tables := h.tables
  pages k := by
    rw [h.pbase]
    exact ⟨Nat.zero_mod _, Nat.zero_le _⟩
  queues k hopen := by
    rw [h.closed] at hopen
    cases hopen

theorem holds_of_shrunk {m : MmuState} (h : RequestQueuesWf v s) (hshrunk : Shrunk v.dscr v.root s.mem m) (hm : t.mem = m)
    {a pa : Nat} (hhold : (t.lending v).holds k a = some pa) : (s.lending v).holds k a = some pa := by
  subst hm
  obtain ⟨flags, htranslate⟩ := lending_holds.mp hhold
  exact lending_holds.mpr ⟨flags, hshrunk.translate h.tables htranslate⟩

/-- Behind tables that were hung up. -/
theorem RequestQueuesWf.grown {m : MmuState} (h : RequestQueuesWf v s) (hgrown : Grown v.dscr v.root k s.mem m) :
    RequestQueuesWf v { s with mem := m } ∧ Lending.Step (s.lending v) ({ s with mem := m }.lending v) := by
  refine ⟨⟨hgrown.wf, h.pages, h.queues⟩, .drops (fun {k' a pa} hhold => ?_) (fun _ _ => Iff.rfl) rfl hgrown.taken⟩
  obtain ⟨flags, htranslate⟩ := lending_holds.mp hhold
  refine lending_holds.mpr ⟨flags, ?_⟩
  rw [← htranslate]
  exact (translate_congr h.tables hgrown.wf fun _ => hgrown.view _).symm

/-- The pages of a range, by their numbers. -/
theorem page_range (vpage n a : Nat) : vpage ≤ a / pageSize ∧ a / pageSize < vpage + n ↔
    vpage * pageSize ≤ a ∧ a < vpage * pageSize + n * pageSize := by
  rw [Nat.le_div_iff_mul_le (by decide), Nat.div_lt_iff_lt_mul (by decide), Nat.add_mul]

end

section

variable {κ : Type u} [DecidableEq κ] {v : RqVms κ} {s t : RqState κ} {k r : κ} {reply : RqReply} {stage1 : Nat → Option Nat}
  {arg0 arg1 : BitVec 64}

/-! ### What a call comes to -/

/-- The state with an open queue of `k` from `base` on. -/
def RqState.opened (s : RqState κ) (k : κ) (base : Nat) : RqState κ :=
  { s with
    rq := update s.rq k { s.rq k with pbase := base }
    isOpen := update s.isOpen k true }

theorem RqState.opened_rq (s : RqState κ) (k : κ) (base : Nat) :
    (s.opened k base).rq k = { s.rq k with pbase := base } :=
  update_self ..

theorem RqState.inQueue_opened {base pa : Nat} : (s.opened k base).InQueue k pa ↔
    base ≤ pa ∧ pa < base + (s.rq k).nrPages * pageSize := by
  unfold RqState.InQueue
  rw [s.opened_rq]
  exact and_iff_right (update_self ..)

theorem RqState.inQueue_opened_of_ne {base pa : Nat} (hr : r ≠ k) :
    (s.opened k base).InQueue r pa ↔ s.InQueue r pa := by
  unfold RqState.InQueue RqState.opened
  simp only [update_of_ne hr]

/-- An open goes no further than `mem_alloc_map`, or than the translation, or makes the pages that were found the
queue. -/
theorem rqOpenHanlder_cases (h : rqOpenHanlder v stage1 s k = some (reply, t)) :
    ∃ va m, memAllocMap (v.as k) s.mem none (s.rq k).vbase (s.rq k).nrPages pteVmFlags = some (va, m) ∧
      (va ≠ (s.rq k).vbase ∧ t = { s with mem := m } ∨
        va = (s.rq k).vbase ∧ (t = { s with mem := m }.mapped k va (s.rq k).nrPages false ∨
          ∃ pa, memTranslate stage1 m.words (v.pt k) va = some pa ∧
            t = ({ s with mem := m }.mapped k va (s.rq k).nrPages false).opened k pa)) := by
  obtain ⟨⟨va, m⟩, halloc, hrest⟩ := Option.map_eq_some_iff.mp h
  refine ⟨va, m, halloc, ?_⟩
  simp only [RqState.mapped_rq] at hrest
  by_cases hva : va = (s.rq k).vbase
  · right
    refine ⟨hva, ?_⟩
    rw [if_neg (not_not.mpr hva)] at hrest
    cases htranslate : memTranslate stage1 m.words (v.pt k) va with
    | none =>
      rw [htranslate] at hrest
      exact .inl (Prod.mk.inj hrest).2.symm
    | some pa =>
      rw [htranslate, v.getVmById_id] at hrest
      refine .inr ⟨pa, rfl, (Prod.mk.inj hrest).2.symm.trans ?_⟩
      simp only [update_self, update_idem, RqState.mapped_isOpen, RqState.opened, RqState.mapped_rq]
  · rw [if_pos hva] at hrest
    exact .inl ⟨hva, (Prod.mk.inj hrest).2.symm⟩

/-- An attach to a VM that is there maps its queue, whatever the translation says then. -/
theorem rqAttachHanlder_cases (h : rqAttachHanlder v stage1 arg0 arg1 s k = some (reply, t)) :
    v.getVmById arg0.toNat = none ∧ t = s ∨
      ∃ r m, v.getVmById arg0.toNat = some r ∧
        memMap (v.as k) s.mem arg1.toNat (some ⟨(s.rq r).pbase, (s.rq r).nrPages⟩) (s.rq r).nrPages pteVmFlags =
          some m ∧
        t = { s with mem := m }.mapped k arg1.toNat (s.rq r).nrPages true := by
  unfold rqAttachHanlder at h
  cases hfound : v.getVmById arg0.toNat with
  | none =>
    rw [hfound] at h
    exact .inl ⟨rfl, (Prod.mk.inj (Option.some.inj h)).2.symm⟩
  | some r =>
    rw [hfound] at h
    obtain ⟨m, hmap, hrest⟩ := Option.map_eq_some_iff.mp h
    refine .inr ⟨r, m, rfl, hmap, ?_⟩
    dsimp only at hrest
    split at hrest
    · exact (Prod.mk.inj hrest).2.symm
    · split_ifs at hrest <;> exact (Prod.mk.inj hrest).2.symm

/-! ### Step by step -/

/-- Behind a detach. -/
theorem RequestQueuesWf.detach (h : RequestQueuesWf v s) (hfits : (RqCall.rqDetach arg0 arg1).Fits v s k)
    (hrun : (RqCall.rqDetach arg0 arg1).run v s k = some (reply, t)) :
    RequestQueuesWf v t ∧ Lending.Step (s.lending v) (t.lending v) := by
  obtain ⟨m, hunmap, hm⟩ := Option.map_eq_some_iff.mp hrun
  obtain ⟨-, rfl⟩ := Prod.mk.inj hm
  have hshrunk := memUnmap_shrunk h.tables hfits hunmap
  have hfree : ∀ p, m.pool.FreeAt p → s.mem.pool.FreeAt p := fun p hp => hshrunk.pool ▸ hp
  exact ⟨⟨hshrunk.wf, h.pages, h.queues⟩, .drops (fun hhold => holds_of_shrunk h hshrunk rfl hhold)
    (fun _ _ => Iff.rfl) rfl hfree⟩

/-- Behind a close. -/
theorem RequestQueuesWf.close (h : RequestQueuesWf v s) (hfits : RqCall.rqClose.Fits v s k)
    (hrun : RqCall.rqClose.run v s k = some (reply, t)) :
    RequestQueuesWf v t ∧ Lending.Step (s.lending v) (t.lending v) := by
  obtain ⟨m, hunmap, hm⟩ := Option.map_eq_some_iff.mp hrun
  obtain ⟨-, rfl⟩ := Prod.mk.inj hm
  obtain ⟨hstays, hunattached⟩ := hfits
  have hshrunk := memUnmap_shrunk h.tables hstays hunmap
  have hfree : ∀ p, m.pool.FreeAt p → s.mem.pool.FreeAt p := fun p hp => hshrunk.pool ▸ hp
  refine ⟨⟨hshrunk.wf, h.pages, fun r hopen => ?_⟩,
    .withdraws k (fun hhold => holds_of_shrunk h hshrunk rfl hhold) (fun _ _ => Iff.rfl) (fun r hr => ?_) ?_
      hfree fun hborrowed hhold => hunattached.lending hborrowed hhold⟩
  · have hopen : update s.isOpen k false r = true := hopen
    have hother : r ≠ k := by
      rintro rfl
      rw [update_self] at hopen
      cases hopen
    rw [update_of_ne hother] at hopen
    exact h.queues r hopen
  · ext pa
    show update s.isOpen k false r = true ∧ _ ↔ s.isOpen r = true ∧ _
    rw [update_of_ne hr]
  · ext pa
    refine ⟨fun hin => ?_, fun hin => hin.elim⟩
    have hopen : update s.isOpen k false k = true := hin.1
    rw [update_self] at hopen
    cases hopen

/-- What is mapped behind a call that maps a range. -/
theorem holds_of_remapped {m : MmuState} {k' : κ} {va n base a pa : Nat}
    (hremapped : Remapped v.dscr v.root k s.mem m va n base) (hm : t.mem = m)
    (hhold : (t.lending v).holds k' a = some pa) :
    (k' = k ∧ va ≤ a ∧ a < va + n * pageSize) ∧ pa = base + (a - va) ∨
      ¬(k' = k ∧ va ≤ a ∧ a < va + n * pageSize) ∧ (s.lending v).holds k' a = some pa := by
  subst hm
  obtain ⟨flags, htranslate⟩ := lending_holds.mp hhold
  by_cases hin : k' = k ∧ va ≤ a ∧ a < va + n * pageSize
  · obtain ⟨rfl, hlow, hlt⟩ := hin
    obtain ⟨flags', hinside⟩ := hremapped.inside a hlow hlt
    rw [show translate t.mem.words (v.pt k') a = _ from hinside] at htranslate
    exact .inl ⟨⟨rfl, hlow, hlt⟩, (Prod.mk.inj (Option.some.inj htranslate)).1.symm⟩
  · rw [show translate t.mem.words (v.pt k') a = _ from hremapped.others k' a hin] at htranslate
    exact .inr ⟨hin, lending_holds.mpr ⟨flags, htranslate⟩⟩

/-- Behind an attach. -/
theorem RequestQueuesWf.attach (h : RequestQueuesWf v s) (hfits : (RqCall.rqAttach stage1 arg0 arg1).Fits v s k)
    (hrun : (RqCall.rqAttach stage1 arg0 arg1).run v s k = some (reply, t)) :
    RequestQueuesWf v t ∧ Lending.Step (s.lending v) (t.lending v) := by
  rcases rqAttachHanlder_cases hrun with ⟨-, rfl⟩ | ⟨r, m, hfound, hmap, rfl⟩
  · exact ⟨h, .refl _⟩
  · have hattach := hfits r hfound
    obtain ⟨hpage, hbase⟩ := h.pages r
    have hend : (s.rq r).pbase + (s.rq r).nrPages * pageSize ≤ 2 ^ 48 := by
      rcases Nat.eq_zero_or_pos (s.rq r).nrPages with hzero | hsome
      · rwa [hzero, Nat.zero_mul]
      · exact h.queues r (hattach.isOpen hsome)
    obtain ⟨m', hmap', hremapped⟩ := memMap_remapped .vm pteVmFlags h.tables hattach.supplied hattach.span hpage hend
      hattach.steps
    obtain rfl : m = m' := Option.some.inj (hmap.symm.trans hmap')
    refine ⟨⟨hremapped.wf, h.pages, h.queues⟩, fun {k' a pa} hhold => ?_, fun hoffer => .inl hoffer,
      fun _ _ hoffer => hoffer, hremapped.taken⟩
    rcases holds_of_remapped hremapped rfl hhold with ⟨⟨rfl, hlow, hlt⟩, rfl⟩ | ⟨hout, hbefore⟩
    · have hsome : 0 < (s.rq r).nrPages := by
        by_contra hnone
        rw [Nat.eq_zero_of_not_pos hnone, Nat.zero_mul] at hlt
        omega
      exact .borrowed r ⟨hattach.isOpen hsome, Nat.le_add_right _ _, by omega⟩
    · refine .stays hbefore fun hborrowed => ?_
      rw [← page_range] at hout
      exact (RqState.mapped_attached_of_not hout).symm.trans hborrowed

/-- What is mapped behind the pages that an open finds: those pages, which are not free any more, and what was. -/
theorem holds_of_installed {m : MmuState} {va n base a pa : Nat} {flags : Pte} {k' : κ} (h : RequestQueuesWf v s)
    (hinstalled : Installed v.dscr v.root k s.mem m none va n base flags) (haligned : va % pageSize = 0)
    (hspan : va + n * pageSize ≤ ptSpan (v.pt k)) (hhold : (t.lending v).holds k' a = some pa) (hm : t.mem = m)
    (hattached : t.attached = (s.mapped k va n false).attached) :
    ¬(t.lending v).borrowed k' a ∧ pa ∉ (t.lending v).free ∨
      (s.lending v).holds k' a = some pa ∧ ((t.lending v).borrowed k' a → (s.lending v).borrowed k' a) := by
  rw [ptSpan_eq] at hspan
  have hva : va / pageSize * pageSize = va := Nat.div_mul_cancel (Nat.dvd_of_mod_eq_zero haligned)
  have hpages := page_range (va / pageSize) n a
  rw [hva] at hpages
  rcases holds_of_remapped (hinstalled.remapped h.tables haligned hspan) hm hhold with
    ⟨⟨rfl, hlow, hlt⟩, rfl⟩ | ⟨hout, hbefore⟩
  · have hown : t.attached k' (a / pageSize) = false := by
      rw [hattached]
      exact RqState.mapped_attached (hpages.mpr ⟨hlow, hlt⟩)
    refine .inl ⟨fun hborrowed => Bool.false_ne_true (hown.symm.trans hborrowed), fun hfree => ?_⟩
    subst hm
    exact hinstalled.allocated rfl _ (Nat.le_add_right _ _) (by omega) hfree
  · refine .inr ⟨hbefore, fun hborrowed => ?_⟩
    have hborrowed : t.attached k' (a / pageSize) = true := hborrowed
    rw [← hpages] at hout
    rwa [hattached, RqState.mapped_attached_of_not hout] at hborrowed

section

variable {m : MmuState} {va n base : Nat} {flags : Pte}

/-- Behind the pages that an open finds, before they are its queue. -/
theorem RequestQueuesWf.installed (h : RequestQueuesWf v s)
    (hinstalled : Installed v.dscr v.root k s.mem m none va n base flags) (haligned : va % pageSize = 0)
    (hspan : va + n * pageSize ≤ ptSpan (v.pt k)) :
    RequestQueuesWf v ({ s with mem := m }.mapped k va n false) ∧
      Lending.Step (s.lending v) (({ s with mem := m }.mapped k va n false).lending v) := by
  refine ⟨⟨hinstalled.wf, h.pages, h.queues⟩, fun hhold => ?_, fun hoffer => .inl hoffer, fun _ _ hoffer => hoffer,
    hinstalled.taken⟩
  exact (holds_of_installed h hinstalled haligned hspan hhold rfl rfl).elim (fun hnew => .taken hnew.1 hnew.2)
    fun hold => .stays hold.1 hold.2

/-- Behind an open that makes them its queue. -/
theorem RequestQueuesWf.opened (h : RequestQueuesWf v s)
    (hinstalled : Installed v.dscr v.root k s.mem m none va (s.rq k).nrPages base flags) (haligned : va % pageSize = 0)
    (hspan : va + (s.rq k).nrPages * pageSize ≤ ptSpan (v.pt k)) (hunattached : Unattached v s k) :
    RequestQueuesWf v (({ s with mem := m }.mapped k va (s.rq k).nrPages false).opened k base) ∧
      Lending.Step (s.lending v) ((({ s with mem := m }.mapped k va (s.rq k).nrPages false).opened k base).lending v) := by
  refine ⟨⟨hinstalled.wf, fun r => ?_, fun r hopen => ?_⟩, fun hhold => ?_, fun {r pa} hoffer => ?_,
    fun {k' a pa r} hborrowed hhold hoffer => ?_, hinstalled.taken⟩
  · by_cases hr : r = k
    · subst hr
      rw [RqState.opened_rq]
      exact ⟨hinstalled.aligned, (Nat.le_add_right _ _).trans hinstalled.end_le⟩
    · have hpages := h.pages r
      simp only [RqState.opened, update_of_ne hr]
      exact hpages
  · by_cases hr : r = k
    · subst hr
      rw [RqState.opened_rq]
      exact hinstalled.end_le
    · have hqueue := h.queues r
      simp only [RqState.opened, update_of_ne hr] at hopen ⊢
      exact hqueue hopen
  · exact (holds_of_installed h hinstalled haligned hspan hhold rfl rfl).elim (fun hnew => .taken hnew.1 hnew.2)
      fun hold => .stays hold.1 hold.2
  · by_cases hr : r = k
    · subst hr
      obtain ⟨hge, hlt⟩ := RqState.inQueue_opened.mp hoffer
      exact .inr (hinstalled.allocated rfl pa hge hlt)
    · exact .inl ((RqState.inQueue_opened_of_ne hr).mp hoffer)
  · -- what is borrowed then was before, so it is not of the queue that is opened again
    have hr : r ≠ k := by
      rintro rfl
      rcases holds_of_installed h hinstalled haligned hspan hhold rfl rfl with ⟨hown, -⟩ | ⟨hold, hbefore⟩
      · exact hown hborrowed
      · exact hunattached.lending (hbefore hborrowed) hold hoffer
    exact (RqState.inQueue_opened_of_ne hr).mpr hoffer

end

/-- Behind an open. -/
theorem RequestQueuesWf.open (h : RequestQueuesWf v s) (hfits : (RqCall.rqOpen stage1).Fits v s k)
    (hrun : (RqCall.rqOpen stage1).run v s k = some (reply, t)) :
    RequestQueuesWf v t ∧ Lending.Step (s.lending v) (t.lending v) := by
  obtain ⟨hgiven, hfits⟩ := hfits
  obtain ⟨va, m, halloc, hcases⟩ := rqOpenHanlder_cases hrun
  by_cases haligned : (s.rq k).vbase % pageSize = 0
  · have hfits := hfits haligned
    have hspan := hfits.span
    rw [ptSpan_eq] at hspan
    obtain ⟨va', m', halloc', hspec⟩ := memAllocMap_cases .vm pteVmFlags h.tables haligned hgiven hspan
      (fun _ hpage => by cases hpage) hfits.fresh
    obtain ⟨rfl, rfl⟩ := Prod.mk.inj (Option.some.inj (halloc.symm.trans halloc'))
    rcases hspec with ⟨⟨hn, hunused⟩, rfl, base, hinstalled⟩ | ⟨-, hva, hgrown⟩
    · rcases hcases with ⟨hne, -⟩ | ⟨-, rfl | ⟨pa, htranslate, rfl⟩⟩
      · exact absurd rfl hne
      · exact h.installed hinstalled haligned hfits.span
      · have hfree := hinstalled.fresh rfl 0 hn
        have hpage := hinstalled.pages 0 hn 0 (by decide)
        rw [Nat.zero_mul, Nat.add_zero, Nat.add_zero] at hpage
        rw [Nat.zero_mul, Nat.add_zero] at hfree
        obtain rfl : pa = base := memTranslate_page (hfits.flat hunused) hpage haligned hinstalled.aligned
          (hfits.low hunused _ hfree) htranslate
        exact h.opened hinstalled haligned hfits.span (hfits.unattached hunused)
    · rcases hcases with ⟨-, rfl⟩ | ⟨heq, -⟩
      · exact h.grown hgrown
      · exact absurd (heq.symm.trans hva) hgiven
  · rw [memAllocMap_misaligned _ _ _ _ hgiven haligned] at halloc
    obtain ⟨rfl, rfl⟩ := Prod.mk.inj (Option.some.inj halloc)
    rcases hcases with ⟨-, rfl⟩ | ⟨heq, -⟩
    · exact ⟨h, .refl _⟩
    · exact absurd heq hgiven.symm

theorem rqMachine_step {call : RqCall} :
    (rqMachine v).step s (k, call) = some t ↔ ∃ reply, call.run v s k = some (reply, t) := by
  constructor
  · intro hstep
    obtain ⟨⟨reply, u⟩, hrun, rfl⟩ := Option.map_eq_some_iff.mp hstep
    exact ⟨reply, hrun⟩
  · rintro ⟨reply, hrun⟩
    exact Option.map_eq_some_iff.mpr ⟨(reply, t), hrun, rfl⟩

theorem RequestQueuesWf.run {call : RqCall} (h : RequestQueuesWf v s) (hfits : call.Fits v s k)
    (hrun : call.run v s k = some (reply, t)) : RequestQueuesWf v t ∧ Lending.Step (s.lending v) (t.lending v) := by
  cases call with
  | rqOpen stage1 => exact h.open hfits hrun
  | rqClose => exact h.close hfits hrun
  | rqAttach stage1 arg0 arg1 => exact h.attach hfits hrun
  | rqDetach arg0 arg1 => exact h.detach hfits hrun

/-- In a run of calls that meet their conditions, what is mapped through an attach is part of an open queue in every
state, and no free page is mapped. -/
theorem rqMachine_safe {calls : List (κ × RqCall)} (hinit : (rqMachine v).Init s)
    (hcalls : (rqMachine v).EachStep (fun s x => x.2.Fits v s x.1) s calls) :
    (rqMachine v).Always (QueuesSafe v) s calls := by
  have hsafe : (rqMachine v).Always (fun s => (s.lending v).Safe) s calls := by
    refine Lending.always_safe (I := RequestQueuesWf v) (fun s x t hs hfits hstep => ?_) hinit.wf hinit.safe hcalls
    obtain ⟨reply, hrun⟩ := rqMachine_step.mp hstep
    exact hs.run hfits hrun
  exact hsafe.mono fun s hs => queuesSafe_of_lending hs

end

/-! ### Two VMs -/

/-- The first tables of two VMs. -/
def twoRoots (vm : Bool) : Nat := if vm then 0x40001000 else 0x40000000

theorem twoRoots_wf : PageTablesWf armv8PtDscr twoRoots (zeroedTables eightPages) := by
  have hentries (vm : Bool) : ptNentries ⟨twoRoots vm, armv8PtDscr⟩ 0 = 512 := by
    cases vm <;> decide
  refine zeroedTables_wf eightPages_inMemory (by decide) (by decide) (by decide) fun vm i hi hfree => ?_
  obtain ⟨bit, -, -, hlow, -⟩ := hfree
  rw [hentries] at hi
  cases vm <;> simp only [eightPages, twoRoots, pageSize, if_true, Bool.false_eq_true, if_false] at hlow <;> omega

private theorem queueVms_found (vm : Bool) : [false, true].find? (fun vm' => vm'.toNat = vm.toNat) = some vm := by
  cases vm <;> rfl

/-- Two VMs with the ids 0 and 1. -/
def queueVms : RqVms Bool where
  dscr := armv8PtDscr
  root := twoRoots
  vmList := [false, true]
  id := Bool.toNat
  found := queueVms_found

/-- Each has a queue of one page, at its second page, which it has not opened. -/
def queueStart : RqState Bool where
  mem := zeroedTables eightPages
  rq _ := ⟨0x1000, 0, 0x1000⟩
  isOpen _ := false
  attached _ _ := false

theorem queueStart_init : (rqMachine queueVms).Init queueStart where
  tables := twoRoots_wf
  pbase _ := rfl
  closed _ := rfl
  detached _ _ := rfl
  used k a pa flags htranslate := by
    have hmapped := congrArg Option.isSome htranslate
    by_cases hlow : a < 2 ^ armv8PtDscr.lvlWdt 0
    · have hmapped := (translate_isSome (k := k) twoRoots_wf hlow).symm.trans hmapped
      have hview : pteValid (pageView armv8PtDscr twoRoots queueStart.mem.words (k, a)) = false := by
        rw [pageView, pteValid_pteView]
        exact pteValid_zero
      exact absurd (hview.symm.trans hmapped) Bool.false_ne_true
    · have hnone : translate queueStart.mem.words (queueVms.pt k) a = none := by
        unfold translate
        rw [ptSpan_eq]
        exact if_neg hlow
      rw [hnone] at htranslate
      cases htranslate

theorem queueStart_fresh :
    FreshPages armv8PtDscr twoRoots .vm false (zeroedTables eightPages) none 0x1000 1 := by
  have hfound : (memAllocVpage ⟨⟨twoRoots false, armv8PtDscr⟩, .vm⟩ 0x1000 1 (zeroedTables eightPages)).all
      (fun x : Nat × MmuState => decide (PageFound armv8PtDscr twoRoots false 0x1000 3 x.2)) = true := by
    decide +kernel
  refine .of_found ?_ hfound
  unfold Supplied
  decide

/-- The first VM opens its queue, and the second one attaches it. -/
theorem rqMachine_safe_pair : (rqMachine queueVms).Always (QueuesSafe queueVms) queueStart
    [(false, .rqOpen some), (true, .rqAttach some 0 0x2000)] := by
  refine rqMachine_safe queueStart_init fun t ht => ⟨?_, fun u _ => ⟨?_, trivial⟩⟩
  · refine ⟨by decide, fun _ => ⟨by decide, queueStart_fresh, fun _ k a pa flags hattached _ => ?_,
      fun _ ipa hipa => (Option.some.inj hipa).symm, fun _ p hfree => ?_⟩⟩
    · exact absurd hattached Bool.false_ne_true
    · obtain ⟨bit, hbit, -, -, hhigh⟩ := hfree
      simp only [queueStart, zeroedTables, eightPages, pageSize] at hbit hhigh
      omega
  · have hopened : (RqCall.run queueVms queueStart false (.rqOpen some)).all (fun x : RqReply × RqState Bool =>
        decide (x.2.isOpen false = true ∧ (x.2.rq false).nrPages = 1 ∧
          (missing armv8PtDscr twoRoots true (Finset.Ico 2 3) x.2.mem.words).card ≤ x.2.mem.pool.room ∧
          ∀ l : Nat, l < 3 → StepsCover x.2.mem.words ⟨twoRoots true, armv8PtDscr⟩ 0x2000 0x1000 l)) = true := by
      decide +kernel
    obtain ⟨reply, hrun⟩ := rqMachine_step.mp ht
    have hstate := (Option.all_eq_true _ _).mp hopened (reply, t) hrun
    rw [decide_eq_true_iff] at hstate
    obtain ⟨hopen, hpages, hsupplied, hsteps⟩ := hstate
    intro r hr
    obtain rfl : false = r := Option.some.inj hr
    refine ⟨fun _ => hopen, ?_, ?_, ?_⟩
    · rw [hpages]
      decide
    · rw [hpages]
      exact hsupplied
    · rw [hpages]
      exact hsteps

/-- The second VM attaches the queue of the first one, which is not open: the page at address zero is mapped. -/
theorem attach_closed : ¬∀ (v : RqVms Bool) (s : RqState Bool) (calls : List (Bool × RqCall)), (rqMachine v).Init s →
    (rqMachine v).Always (QueuesSafe v) s calls := by
  intro hall
  have halways := hall queueVms queueStart [(true, .rqAttach some 0 0x2000)] queueStart_init
  have hattached : (RqCall.run queueVms queueStart true (.rqAttach some 0 0x2000)).any
      (fun x : RqReply × RqState Bool => decide (x.2.isOpen false = false ∧ x.2.isOpen true = false ∧
        x.2.attached true 2 = true ∧ (translate x.2.mem.words (queueVms.pt true) 0x2000).isSome = true)) = true := by
    decide +kernel
  obtain ⟨⟨reply, t⟩, hrun, hmapped⟩ := (Option.any_eq_true _ _).mp hattached
  rw [decide_eq_true_iff] at hmapped
  obtain ⟨hfirst, hsecond, hpage, hsome⟩ := hmapped
  obtain ⟨⟨pa, flags⟩, htranslate⟩ := Option.isSome_iff_exists.mp hsome
  have hsafe := halways.2 t (rqMachine_step.mpr ⟨reply, hrun⟩)
  obtain ⟨r, hqueue⟩ := hsafe.attached true 0x2000 pa flags hpage htranslate
  have hopen := hqueue.1
  cases r with
  | false => exact Bool.false_ne_true (hfirst.symm.trans hopen)
  | true => exact Bool.false_ne_true (hsecond.symm.trans hopen)

end Avisor
