import Avisor.Vgic.State

/-!
# List registers

The functions of `arch/aarch64/vgic.c` that move an interrupt into a list register of the executing
pCPU, out of it, and to the list of spilled interrupts. `none` stands for a pCPU that waits for a lock
it holds itself.
-/

namespace Avisor

open Function CircularList

variable (E : VgicEnv) (s : VgicState)

/-! ### State and ownership -/

/-- `vgic_int_is_hw`. -/
def vgicIntIsHw (i : IntRef) : Bool := !gicIsSgi i.id && (s.ints i).hw

/-- `gich_get_lr`; an interrupt with `in_lr` set has an owner. -/
def gichGetLr (i : IntRef) : Option (Nat × ListReg) :=
  let int := s.ints i
  if !int.inLr || int.owner.map E.pId ≠ some E.self then none
  else
    let lr := s.lr E.self int.lr
    if lr.vid = i.id ∧ lr.state ≠ .inv then some (int.lr, lr) else none

/-- The interrupt is a software-generated one of the GICv2 build, with source bits. -/
def hasSources (i : IntRef) : Bool := E.cfg.version = .v2 && gicIsSgi i.id

/-- `vgic_get_state`. -/
def vgicGetState (i : IntRef) : IntState :=
  let state :=
    match gichGetLr E s i with
    | some (_, lr) => lr.state
    | none => (s.ints i).state
  if hasSources E i && (s.ints i).sgiPend ≠ 0 then { state with pend := true } else state

/-- `vgic_get_ownership`. -/
def vgicGetOwnership (vcpu : VcpuRef) (i : IntRef) : Bool × VgicState :=
  if (s.ints i).owner = some vcpu then (true, s)
  else if (s.ints i).owner = none then
    (true, s.modifyInt i fun int => { int with owner := some vcpu })
  else (false, s)

/-- `vgic_owns`. -/
def vgicOwns (vcpu : VcpuRef) (i : IntRef) : Bool := (s.ints i).owner = some vcpu

/-- `vgic_yield_ownership`. -/
def vgicYieldOwnership (vcpu : VcpuRef) (i : IntRef) : VgicState :=
  if (E.cfg.version = .v2 && gicIsPriv i.id) || !vgicOwns s vcpu i || (s.ints i).inLr ||
      (vgicGetState E s i).act then s
  else s.modifyInt i fun int => { int with owner := none }

variable {E s} {i : IntRef} {vcpu : VcpuRef}

theorem vgicGetOwnership_granted :
    (vgicGetOwnership s vcpu i).1 = true ↔ (s.ints i).owner = none ∨ (s.ints i).owner = some vcpu := by
  unfold vgicGetOwnership
  by_cases hself : (s.ints i).owner = some vcpu
  · simp [hself]
  · by_cases hnone : (s.ints i).owner = none
    · simp [hnone]
    · simp [hself, hnone]

/-- `vgic_get_ownership` gives an interrupt without an owner one, and does nothing else. -/
theorem vgicGetOwnership_cases (s : VgicState) (vcpu : VcpuRef) (i : IntRef) :
    (s.ints i).owner ≠ none ∧ (vgicGetOwnership s vcpu i).2 = s ∨
      (s.ints i).owner = none ∧
        (vgicGetOwnership s vcpu i).2 = s.modifyInt i fun int => { int with owner := some vcpu } := by
  unfold vgicGetOwnership
  by_cases hnone : (s.ints i).owner = none
  · exact .inr ⟨hnone, by simp [hnone]⟩
  · refine .inl ⟨hnone, ?_⟩
    split
    · rfl
    · rfl

/-- `vgic_yield_ownership` takes the owner from an interrupt that is in no list register and not active. -/
theorem vgicYieldOwnership_cases (E : VgicEnv) (s : VgicState) (vcpu : VcpuRef) (i : IntRef) :
    vgicYieldOwnership E s vcpu i = s ∨
      ((E.cfg.version = .v2 → gicIsPriv i.id = false) ∧ (s.ints i).owner = some vcpu ∧
        (s.ints i).inLr = false ∧ (vgicGetState E s i).act = false) ∧
        vgicYieldOwnership E s vcpu i = s.modifyInt i fun int => { int with owner := none } := by
  unfold vgicYieldOwnership
  split
  · exact .inl rfl
  · rename_i hguard
    simp only [vgicOwns, Bool.or_eq_true, not_or, Bool.not_eq_true, Bool.and_eq_false_imp, decide_eq_true_eq,
      Bool.not_eq_false'] at hguard
    exact .inr ⟨⟨hguard.1.1.1, hguard.1.1.2, hguard.1.2, hguard.2⟩, rfl⟩

variable (E s)

/-! ### Into a list register and out of it -/

/-- What `vgic_write_lr` does for the shared interrupt that the list register was written for
before. -/
def vgicReleasePrev (vcpu : VcpuRef) (i : IntRef) (lrInd : Nat) : VgicState :=
  let prevIntId := s.currLrs vcpu lrInd
  if prevIntId ≠ i.id ∧ !gicIsPriv prevIntId then
    match vgicGetInt E vcpu prevIntId vcpu.idx with
    | none => s
    | some prev =>
      if vgicOwns s vcpu prev && (s.ints prev).inLr && (s.ints prev).lr = lrInd then
        vgicYieldOwnership E (s.modifyInt prev fun int => { int with inLr := false }) vcpu prev
      else s
  else s

variable {E s}

/-- The interrupt that the list register was written for before is a shared one with another number, which still
counts as in it. -/
structure HeldBefore (E : VgicEnv) (s : VgicState) (vcpu : VcpuRef) (i : IntRef) (n : Nat) (prev : IntRef) :
    Prop where
  found : vgicGetInt E vcpu (s.currLrs vcpu n) vcpu.idx = some prev
  other : s.currLrs vcpu n ≠ i.id
  shared : gicIsPriv (s.currLrs vcpu n) = false
  owner : (s.ints prev).owner = some vcpu
  inLr : (s.ints prev).inLr = true
  lr : (s.ints prev).lr = n

theorem vgicReleasePrev_cases (E : VgicEnv) (s : VgicState) (vcpu : VcpuRef) (i : IntRef) (n : Nat) :
    vgicReleasePrev E s vcpu i n = s ∨ ∃ prev, HeldBefore E s vcpu i n prev ∧
      vgicReleasePrev E s vcpu i n =
        vgicYieldOwnership E (s.modifyInt prev fun int => { int with inLr := false }) vcpu prev := by
  unfold vgicReleasePrev
  dsimp only
  split
  · rename_i hprev
    split
    · exact .inl rfl
    · rename_i prev hfound
      split
      · rename_i hheld
        simp only [vgicOwns, Bool.and_eq_true, decide_eq_true_eq] at hheld
        exact .inr ⟨prev, ⟨hfound, hprev.1, by simpa using hprev.2, hheld.1.1, hheld.1.2, hheld.2⟩, rfl⟩
      · exact .inl rfl
  · exact .inl rfl

variable (E s)

/-- The source of an SGI that `vgic_write_lr` takes from its `sgi.pend`, the highest one. -/
def sgiSource (sgiPend : BitVec 8) : Option Nat :=
  [7, 6, 5, 4, 3, 2, 1, 0].find? fun n => sgiPend.getLsbD n

/-- The list register `vgic_write_lr` makes of an interrupt in the state `state`, and what stays of
`sgi.pend`. -/
def lrOfInt (i : IntRef) (int : VgicInt) (state : IntState) : ListReg × BitVec 8 :=
  let lr : ListReg :=
    { ListReg.zero with
      vid := i.id
      prio := if E.cfg.version = .v2 then int.prio >>> 3 else int.prio
      holds := some i }
  if !gicIsSgi i.id && int.hw then
    ({ lr with hw := true, pid := i.id, state := if state = .pendact then .active else state },
      int.sgiPend)
  else if hasSources E i then
    let (lr, sgiPend) :=
      if state.act then ({ lr with cpuid := int.targets.toNat % 8, state := .active }, int.sgiPend)
      else
        match sgiSource int.sgiPend with
        | none => (lr, int.sgiPend)
        | some n => ({ lr with cpuid := n, state := .pending }, int.sgiPend &&& ~~~(1#8 <<< n))
    ({ lr with eoi := sgiPend ≠ 0 }, sgiPend)
  else ({ lr with eoi := !gicIsPriv i.id, state := state }, int.sgiPend)

/-- `vgic_write_lr`. -/
def vgicWriteLr (vcpu : VcpuRef) (i : IntRef) (lrInd : Nat) : VgicState :=
  let s := vgicReleasePrev E s vcpu i lrInd
  let (lr, sgiPend) := lrOfInt E i (s.ints i) (vgicGetState E s i)
  let s := s.modifyInt i fun int =>
    { int with sgiPend := sgiPend, state := .inv, inLr := true, lr := lrInd }
  let s := { s with currLrs := update s.currLrs vcpu (update (s.currLrs vcpu) lrInd i.id) }
  s.writeLr E.self lrInd lr

/-- The fields of an interrupt behind `vgic_remove_lr` has copied the list register to them. -/
def intOfLr (i : IntRef) (lr : ListReg) (int : VgicInt) : VgicInt :=
  let int := { int with state := lr.state }
  if hasSources E i then
    if int.state.act then { int with targets := BitVec.ofNat 8 lr.cpuid }
    else if int.state.pend then { int with sgiPend := int.sgiPend ||| 1#8 <<< lr.cpuid }
    else int
  else int

/-- `vgic_remove_lr`. -/
def vgicRemoveLr (vcpu : VcpuRef) (i : IntRef) : Bool × VgicState :=
  if !vgicOwns s vcpu i || !(s.ints i).inLr then (false, s)
  else
    match gichGetLr E s i with
    | none => (false, s.modifyInt i fun int => { int with inLr := false })
    | some (lrInd, lr) =>
      let s := s.writeLr E.self lrInd .zero
      let s := s.modifyInt i fun int => intOfLr E i lr { int with inLr := false }
      let hcr := s.hcr E.self
      let hcr := if lr.state.pend && (s.ints i).enabled then { hcr with npie := true } else hcr
      (true, s.setHcr E.self { hcr with uie := true })

/-- The head of the list that `vgic_add_spilled` puts an interrupt in. -/
def spilledHead (vcpu : VcpuRef) (i : IntRef) : SpilledHead :=
  if gicIsPriv i.id then .vcpu vcpu else .vm vcpu.vm

/-- `vgic_add_spilled`. -/
def vgicAddSpilled (vcpu : VcpuRef) (i : IntRef) : VgicState :=
  let s := { s with links := listAddTail s.links (.node i) (.head (spilledHead vcpu i)) }
  s.setHcr E.self { s.hcr E.self with npie := true }

/-- `vgic_spill_lr`, called with the lock of `held`. -/
def vgicSpillLr (vcpu : VcpuRef) (lrInd : Nat) (held : IntRef) : Option VgicState :=
  match vgicGetInt E vcpu (s.lr E.self lrInd).vid vcpu.idx with
  | none => some s
  | some i =>
    if i = held then none
    else
      let s := (vgicRemoveLr E s vcpu i).2
      let s := vgicAddSpilled E s vcpu i
      some (vgicYieldOwnership E s vcpu i)

/-! ### A place in a list register -/

/-- The first list register with `p`, the lowest bit that `bitmap_find_nth` finds in a register of
bits. -/
def findLr (p : ListReg → Bool) : Option Nat :=
  (List.range E.cfg.numLrs).find? fun n => p (s.lr E.self n)

/-- The local variables of `vgic_add_lr` in its search for a list register to spill. -/
structure SpillSearch where
  minPrioPend : Nat
  minPrioAct : Nat
  minIdAct : Nat
  minIdPend : Nat
  pendFound : Nat
  actFound : Nat
  pendInd : Option Nat
  actInd : Option Nat

/-- `lr_state` of `vgic_add_lr`, an `unsigned`. The GICv3 build has the state in the two highest of 64 bits,
which it cuts off. -/
def lrStateOf : GicVersion → IntState → IntState
  | .v2, state => state
  | .v3, _ => .inv

@[simp] theorem lrStateOf_inv (version : GicVersion) : lrStateOf version .inv = .inv := by
  cases version <;> rfl

/-- One round of the search, at list register `n`. -/
def spillSearchStep (x : SpillSearch) (n : Nat) : SpillSearch :=
  let lr := s.lr E.self n
  let lrPrio := if E.cfg.version = .v2 then lr.prio.toNat <<< 3 else lr.prio.toNat
  let lrState := lrStateOf E.cfg.version lr.state
  if lrState.act then
    let x :=
      if lrPrio > x.minPrioAct || (lrPrio = x.minPrioAct && lr.vid > x.minIdAct) then
        { x with minIdAct := lr.vid, minPrioAct := lrPrio, actInd := some n }
      else x
    { x with actFound := x.actFound + 1 }
  else if lrState.pend then
    let x :=
      if lrPrio > x.minPrioPend || (lrPrio = x.minPrioPend && lr.vid > x.minIdPend) then
        { x with minIdPend := lr.vid, minPrioPend := lrPrio, pendInd := some n }
      else x
    { x with pendFound := x.pendFound + 1 }
  else x

/-- The list register that `vgic_add_lr` spills for the interrupt, if it finds one. -/
def spillSearch (i : IntRef) : Option Nat :=
  let int := s.ints i
  let x : SpillSearch :=
    { minPrioPend := int.prio.toNat, minPrioAct := int.prio.toNat, minIdAct := i.id,
      minIdPend := i.id, pendFound := 0, actFound := 0, pendInd := none, actInd := none }
  let x := (List.range E.cfg.numLrs).foldl (spillSearchStep E s) x
  if x.pendFound > 1 then x.pendInd else x.actInd

/-- `vgic_add_lr`, called with the lock of the interrupt. -/
def vgicAddLr (vcpu : VcpuRef) (i : IntRef) : Option VgicState :=
  if !(s.ints i).enabled || (s.ints i).inLr then some s
  else
    match findLr E s ListReg.elrsr with
    | some lrInd => some (vgicWriteLr E s vcpu i lrInd)
    | none =>
      match spillSearch E s i with
      | some lrInd => (vgicSpillLr E s vcpu lrInd i).map fun s => vgicWriteLr E s vcpu i lrInd
      | none => some (vgicAddSpilled E s vcpu i)

end Avisor
