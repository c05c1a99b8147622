import Avisor.Data.Bits
import Avisor.Vgic.Housing
import Avisor.Vgic.Machine

/-!
# List registers as words

In the GICv2 build a list register is a word of 32 bits. `vgic_write_lr` puts the fields in their places, where
those of a physical interrupt lie over those of a software-generated one, and `vgic_remove_lr` cuts them out
again. The functions of `arch/aarch64/vgic.c` on such words do what they do on the list registers by their
fields, and what is written to a list register comes back from it.
-/

namespace Avisor

open Function

/-! ### The source taken from `sgi.pend` -/

theorem sgiSource_lt {sgiPend : BitVec 8} {k : Nat} (h : sgiSource sgiPend = some k) : k < 8 := by
  have hmem := List.mem_of_find?_eq_some h
  simp only [List.mem_cons, List.not_mem_nil, or_false] at hmem
  omega

/-- The highest source is one that is pending. -/
theorem sgiSource_some {sgiPend : BitVec 8} {k : Nat} (h : sgiSource sgiPend = some k) :
    sgiPend.getLsbD k = true := by
  have hfound := List.find?_some h
  exact hfound

theorem sgiSource_none {sgiPend : BitVec 8} (h : sgiSource sgiPend = none) : sgiPend = 0 := by
  apply BitVec.eq_of_getLsbD_eq
  intro k hk
  have hclear := List.find?_eq_none.mp h k (by simp; omega)
  simpa using hclear

/-- The source that `vgic_write_lr` takes is put back by `vgic_remove_lr`. -/
theorem sgiPend_taken {sgiPend : BitVec 8} {k : Nat} (h : sgiSource sgiPend = some k) :
    sgiPend &&& ~~~(1#8 <<< k) ||| 1#8 <<< k = sgiPend := by
  have hset := sgiSource_some h
  apply BitVec.eq_of_getLsbD_eq
  intro j hj
  have hbit : (1#8 <<< k).getLsbD j = decide (j = k) := by
    rw [BitVec.getLsbD_shiftLeft, BitVec.getLsbD_one]
    by_cases heq : j = k
    · subst heq
      simp [hj]
    · by_cases hlt : j < k
      · simp [hlt, heq]
      · have hsub : ¬ j - k = 0 := by omega
        simp [heq, hsub]
  rw [BitVec.getLsbD_or, BitVec.getLsbD_and, BitVec.getLsbD_not, hbit]
  by_cases heq : j = k
  · subst heq
    simp [hset]
  · simp [heq, hj]

/-! ### The fields of a word -/

namespace IntState

/-- The number of a state in `enum int_state`. -/
def toWord (state : IntState) : BitVec 32 :=
  match state.pend, state.act with
  | false, false => 0
  | true, false => 1
  | false, true => 2
  | true, true => 3

/-- The state with a number below 4. -/
def ofWord (word : BitVec 32) : IntState := ⟨word.getLsbD 0, word.getLsbD 1⟩

@[simp] theorem ofWord_toWord (state : IntState) : ofWord state.toWord = state := by
  obtain ⟨pend, act⟩ := state
  cases pend <;> cases act <;> rfl

theorem toWord_lt (state : IntState) : state.toWord.toNat < 2 ^ 2 := by
  obtain ⟨pend, act⟩ := state
  cases pend <;> cases act <;> decide

end IntState

/-- `GICH_LR_HW_BIT`. -/
def gichLrHwBit : BitVec 32 := 1#32 <<< 31

/-- `GICH_LR_EOI_BIT`. -/
def gichLrEoiBit : BitVec 32 := 1#32 <<< 19

/-- `GICH_LR_STATE_PND`. -/
def gichLrStatePnd : BitVec 32 := bit32Place 1 28 2

/-- `GICH_LR_STATE_ACT`. -/
def gichLrStateAct : BitVec 32 := bit32Place 2 28 2

/-- `GICH_LR_VID`. -/
def gichLrVid (lr : BitVec 32) : Nat := (bit32Extract lr 0 10).toNat

/-- `GICH_LR_CPUID`. -/
def gichLrCpuid (lr : BitVec 32) : Nat := (bit32Extract lr 10 3).toNat

/-- `GICH_LR_STATE`. -/
def gichLrState (lr : BitVec 32) : IntState := .ofWord (bit32Extract lr 28 2)

/-- The fields the hardware finds in a word, written for the interrupt `holds`. -/
def listRegOf (lr : BitVec 32) (holds : Option IntRef) : ListReg where
  vid := gichLrVid lr
  pid := if lr.getLsbD 31 then (bit32Extract lr 10 10).toNat else 0
  cpuid := if lr.getLsbD 31 then 0 else gichLrCpuid lr
  prio := (bit32Extract lr 23 5).setWidth 8
  state := gichLrState lr
  hw := lr.getLsbD 31
  eoi := !lr.getLsbD 31 && lr.getLsbD 19
  holds := holds

/-- The state of the build with the list registers as words. Those of `vgic` are not there but for
`holds`. -/
structure LrWords where
  vgic : VgicState
  lr : PCpuId → Nat → BitVec 32

namespace LrWords

variable (E : VgicEnv) (w : LrWords)

/-! ### The functions on words -/

/-- `gich_get_lr`. -/
def gichGetLr (i : IntRef) : Option (Nat × BitVec 32) :=
  let int := w.vgic.ints i
  if !int.inLr || int.owner.map E.pId ≠ some E.self then none
  else
    let lr := w.lr E.self int.lr
    if gichLrVid lr = i.id ∧ gichLrState lr ≠ .inv then some (int.lr, lr) else none

/-- `vgic_get_state`. -/
def vgicGetState (i : IntRef) : IntState :=
  let state :=
    match w.gichGetLr E i with
    | some (_, lr) => gichLrState lr
    | none => (w.vgic.ints i).state
  if gicIsSgi i.id && (w.vgic.ints i).sgiPend ≠ 0 then { state with pend := true } else state

/-- `vgic_yield_ownership`. -/
def vgicYieldOwnership (vcpu : VcpuRef) (i : IntRef) : LrWords :=
  if gicIsPriv i.id || !vgicOwns w.vgic vcpu i || (w.vgic.ints i).inLr || (w.vgicGetState E i).act then w
  else { w with vgic := w.vgic.modifyInt i fun int => { int with owner := none } }

/-- What `vgic_write_lr` does for the shared interrupt that the list register was written for
before. -/
def vgicReleasePrev (vcpu : VcpuRef) (i : IntRef) (lrInd : Nat) : LrWords :=
  let prevIntId := w.vgic.currLrs vcpu lrInd
  if prevIntId ≠ i.id ∧ !gicIsPriv prevIntId then
    match vgicGetInt E vcpu prevIntId vcpu.idx with
    | none => w
    | some prev =>
      if vgicOwns w.vgic vcpu prev && (w.vgic.ints prev).inLr && (w.vgic.ints prev).lr = lrInd then
        vgicYieldOwnership E
          { w with vgic := w.vgic.modifyInt prev fun int => { int with inLr := false } } vcpu prev
      else w
  else w

/-- The identity and the priority of an interrupt at their places in the word. -/
def lrBase (i : IntRef) (int : VgicInt) : BitVec 32 :=
  let lr := bit32Place (BitVec.ofNat 32 i.id) 0 10
  lr ||| bit32Place (int.prio.setWidth 32 >>> 3) 23 5

/-- The word `vgic_write_lr` makes of an interrupt in the state `state`, and what stays of
`sgi.pend`. -/
def lrOfInt (i : IntRef) (int : VgicInt) (state : IntState) : BitVec 32 × BitVec 8 :=
  let lr := lrBase i int
  if !gicIsSgi i.id && int.hw then
    let lr := lr ||| gichLrHwBit
    let lr := lr ||| bit32Place (BitVec.ofNat 32 i.id) 10 10
    (if state = .pendact then lr ||| gichLrStateAct else lr ||| bit32Place state.toWord 28 2, int.sgiPend)
  else if gicIsSgi i.id then
    let (lr, sgiPend) :=
      if state.act then
        (lr ||| bit32Place (int.targets.setWidth 32) 10 3 ||| gichLrStateAct, int.sgiPend)
      else
        match sgiSource int.sgiPend with
        | none => (lr, int.sgiPend)
        | some n =>
          (lr ||| bit32Place (BitVec.ofNat 32 n) 10 3 ||| gichLrStatePnd, int.sgiPend &&& ~~~(1#8 <<< n))
    (if sgiPend ≠ 0 then lr ||| gichLrEoiBit else lr, sgiPend)
  else
    let lr := if !gicIsPriv i.id then lr ||| gichLrEoiBit else lr
    (lr ||| bit32Place state.toWord 28 2, int.sgiPend)

/-- `vgic_write_lr`. -/
def vgicWriteLr (vcpu : VcpuRef) (i : IntRef) (lrInd : Nat) : LrWords :=
  let w := w.vgicReleasePrev E vcpu i lrInd
  let (lr, sgiPend) := lrOfInt i (w.vgic.ints i) (w.vgicGetState E i)
  let s := w.vgic.modifyInt i fun int =>
    { int with sgiPend := sgiPend, state := .inv, inLr := true, lr := lrInd }
  let s := { s with currLrs := update s.currLrs vcpu (update (s.currLrs vcpu) lrInd i.id) }
  { vgic := s.writeLr E.self lrInd { ListReg.zero with holds := some i }
    lr := update w.lr E.self (update (w.lr E.self) lrInd lr) }

/-- The fields of an interrupt behind `vgic_remove_lr` has copied the list register to them. -/
def intOfLr (i : IntRef) (lr : BitVec 32) (int : VgicInt) : VgicInt :=
  let int := { int with state := gichLrState lr }
  if gicIsSgi i.id then
    if int.state.act then { int with targets := BitVec.ofNat 8 (gichLrCpuid lr) }
    else if int.state.pend then { int with sgiPend := int.sgiPend ||| 1#8 <<< gichLrCpuid lr }
    else int
  else int

/-- `vgic_remove_lr`. -/
def vgicRemoveLr (vcpu : VcpuRef) (i : IntRef) : Bool × LrWords :=
  if !vgicOwns w.vgic vcpu i || !(w.vgic.ints i).inLr then (false, w)
  else
    match w.gichGetLr E i with
    | none => (false, { w with vgic := w.vgic.modifyInt i fun int => { int with inLr := false } })
    | some (lrInd, lr) =>
      let s := w.vgic.writeLr E.self lrInd .zero
      let s := s.modifyInt i fun int => intOfLr i lr { int with inLr := false }
      let hcr := s.hcr E.self
      let hcr := if (gichLrState lr).pend && (s.ints i).enabled then { hcr with npie := true } else hcr
      (true,
        { vgic := s.setHcr E.self { hcr with uie := true }
          lr := update w.lr E.self (update (w.lr E.self) lrInd 0) })

/-- The state with the list registers by their fields. -/
def toVgic : VgicState :=
  { w.vgic with
    gich := fun c =>
      { w.vgic.gich c with lr := fun n => listRegOf (w.lr c n) (w.vgic.lr c n).holds } }

/-! ### The functions by fields -/

variable {E w} {vcpu : VcpuRef} {i : IntRef} {n : Nat} {int : VgicInt} {state : IntState}

@[simp] theorem toVgic_ints : w.toVgic.ints = w.vgic.ints := rfl
@[simp] theorem toVgic_currLrs : w.toVgic.currLrs = w.vgic.currLrs := rfl
@[simp] theorem toVgic_hcr : w.toVgic.hcr = w.vgic.hcr := rfl

theorem toVgic_lr (c : PCpuId) :
    w.toVgic.lr c n = listRegOf (w.lr c n) (w.vgic.lr c n).holds := rfl

theorem toVgic_modifyInt (f : VgicInt → VgicInt) :
    ({ w with vgic := w.vgic.modifyInt i f } : LrWords).toVgic = w.toVgic.modifyInt i f := rfl

theorem gichGetLr_toVgic : Avisor.gichGetLr E w.toVgic i =
    (w.gichGetLr E i).map fun x => (x.1, listRegOf x.2 (w.vgic.lr E.self x.1).holds) := by
  unfold Avisor.gichGetLr gichGetLr
  dsimp only
  rw [toVgic_ints]
  by_cases hout : (!(w.vgic.ints i).inLr || (w.vgic.ints i).owner.map E.pId ≠ some E.self) = true
  · rw [if_pos hout, if_pos hout]
    rfl
  · rw [if_neg hout, if_neg hout, toVgic_lr]
    by_cases hheld : gichLrVid (w.lr E.self (w.vgic.ints i).lr) = i.id ∧
        gichLrState (w.lr E.self (w.vgic.ints i).lr) ≠ .inv
    · rw [if_pos hheld]
      exact if_pos hheld
    · rw [if_neg hheld]
      exact if_neg hheld

theorem hasSources_v2 (hv2 : E.cfg.version = .v2) : hasSources E i = gicIsSgi i.id := by
  simp [hasSources, hv2]

theorem vgicGetState_toVgic (hv2 : E.cfg.version = .v2) :
    Avisor.vgicGetState E w.toVgic i = w.vgicGetState E i := by
  unfold Avisor.vgicGetState vgicGetState
  rw [gichGetLr_toVgic, hasSources_v2 hv2]
  cases w.gichGetLr E i with
  | none => rfl
  | some x => rfl

theorem vgicYieldOwnership_toVgic (hv2 : E.cfg.version = .v2) :
    (w.vgicYieldOwnership E vcpu i).toVgic = Avisor.vgicYieldOwnership E w.toVgic vcpu i := by
  unfold vgicYieldOwnership Avisor.vgicYieldOwnership
  rw [apply_ite toVgic, vgicGetState_toVgic hv2, hv2]
  rfl

theorem vgicReleasePrev_toVgic (hv2 : E.cfg.version = .v2) :
    (w.vgicReleasePrev E vcpu i n).toVgic = Avisor.vgicReleasePrev E w.toVgic vcpu i n := by
  unfold vgicReleasePrev Avisor.vgicReleasePrev
  dsimp only
  rw [apply_ite toVgic, toVgic_currLrs]
  cases vgicGetInt E vcpu (w.vgic.currLrs vcpu n) vcpu.idx with
  | none => rfl
  | some prev =>
    dsimp only
    rw [apply_ite toVgic, vgicYieldOwnership_toVgic hv2, toVgic_modifyInt]
    rfl

/-! ### The fields of what is written -/

theorem toNat_idWord (hid : i.id < 2 ^ 10) : (BitVec.ofNat 32 i.id).toNat = i.id := by
  rw [BitVec.toNat_ofNat]
  exact Nat.mod_eq_of_lt (by omega)

theorem toNat_prioWord (int : VgicInt) : (int.prio.setWidth 32 >>> 3).toNat = int.prio.toNat / 8 := by
  have hlt := int.prio.isLt
  rw [BitVec.toNat_ushiftRight, BitVec.toNat_setWidth, Nat.shiftRight_eq_div_pow]
  omega

theorem setWidth_prioWord : (int.prio.setWidth 32 >>> 3).setWidth 8 = int.prio >>> 3 := by
  apply BitVec.eq_of_toNat_eq
  have hlt := int.prio.isLt
  rw [BitVec.toNat_setWidth, toNat_prioWord, BitVec.toNat_ushiftRight, Nat.shiftRight_eq_div_pow]
  omega

/-- The fields of the word for a physical interrupt. -/
theorem listRegOf_hw {holds : Option IntRef} (hid : i.id < 2 ^ 10) :
    listRegOf (lrBase i int ||| gichLrHwBit ||| bit32Place (BitVec.ofNat 32 i.id) 10 10 |||
      bit32Place state.toWord 28 2) holds =
    { vid := i.id, pid := i.id, cpuid := 0, prio := int.prio >>> 3, state := state, hw := true, eoi := false,
      holds := holds } := by
  have hlt := int.prio.isLt
  have hidWord := toNat_idWord hid
  have hprioWord := toNat_prioWord int
  have hstate := state.toWord_lt
  have hbit : gichLrHwBit = bit32Place 1 31 1 := by decide
  simp (disch := omega) only [lrBase, listRegOf, gichLrVid, gichLrState, hbit, bit32Extract_or,
    bit32Extract_place, bit32Extract_place_other, BitVec.getLsbD_or, getLsbD_bit32Place, bit32Extract_of_lt]
  simp [hidWord, setWidth_prioWord]

/-- The fields of the word for any other interrupt. -/
theorem listRegOf_soft (int : VgicInt) (state : IntState) (cpu eoi : BitVec 32) (holds : Option IntRef)
    (hid : i.id < 2 ^ 10) :
    listRegOf (lrBase i int ||| bit32Place cpu 10 3 ||| bit32Place state.toWord 28 2 |||
      bit32Place eoi 19 1) holds =
    { vid := i.id, pid := 0, cpuid := cpu.toNat % 8, prio := int.prio >>> 3, state := state, hw := false,
      eoi := eoi.getLsbD 0, holds := holds } := by
  have hlt := int.prio.isLt
  have hidWord := toNat_idWord hid
  have hprioWord := toNat_prioWord int
  have hstate := state.toWord_lt
  simp (disch := omega) only [lrBase, listRegOf, gichLrVid, gichLrState, gichLrCpuid, bit32Extract_or,
    bit32Extract_place, bit32Extract_place_other, BitVec.getLsbD_or, getLsbD_bit32Place, bit32Extract_of_lt]
  simp (disch := omega) [hidWord, setWidth_prioWord, toNat_bit32Extract]

/-- The request to be told of the end, as a field. -/
theorem or_gichLrEoiBit (p : Prop) [Decidable p] (lr : BitVec 32) :
    (if p then lr ||| gichLrEoiBit else lr) = lr ||| bit32Place (if p then 1 else 0) 19 1 := by
  split
  · rfl
  · exact (or_bit32Place_zero lr 19 1).symm

theorem getLsbD_ite_one (p : Prop) [Decidable p] :
    ((if p then 1 else 0 : BitVec 32)).getLsbD 0 = decide p := by
  split
  · rename_i hp
    simp [hp]
  · rename_i hp
    simp [hp]

/-- The two ways to make a list register of a physical interrupt agree. -/
theorem listRegOf_lrOfInt_hw (hv2 : E.cfg.version = .v2) (hid : i.id < 2 ^ 10)
    (hhw : (!gicIsSgi i.id && int.hw) = true) :
    listRegOf (lrOfInt i int state).1 (some i) = (Avisor.lrOfInt E i int state).1 ∧
      (lrOfInt i int state).2 = (Avisor.lrOfInt E i int state).2 := by
  have hstate (lr : BitVec 32) :
      (if state = .pendact then lr ||| gichLrStateAct else lr ||| bit32Place state.toWord 28 2) =
        lr ||| bit32Place (if state = .pendact then IntState.active else state).toWord 28 2 := by
    split
    · rfl
    · rfl
  rw [lrOfInt, Avisor.lrOfInt, if_pos hhw, if_pos hhw]
  dsimp only
  rw [hstate, listRegOf_hw hid, if_pos hv2]
  exact ⟨rfl, rfl⟩

/-- The two ways to make a list register of a software-generated interrupt agree. -/
theorem listRegOf_lrOfInt_sgi (hv2 : E.cfg.version = .v2) (hid : i.id < 2 ^ 10)
    (hsgi : gicIsSgi i.id = true) :
    listRegOf (lrOfInt i int state).1 (some i) = (Avisor.lrOfInt E i int state).1 ∧
      (lrOfInt i int state).2 = (Avisor.lrOfInt E i int state).2 := by
  have hsoft : ¬ (!gicIsSgi i.id && int.hw) = true := by simp [hsgi]
  have hsources : hasSources E i = true := (hasSources_v2 hv2).trans hsgi
  rw [lrOfInt, Avisor.lrOfInt, if_neg hsoft, if_neg hsoft, if_pos hsgi, if_pos hsources, if_pos hv2]
  by_cases hact : state.act = true
  · rw [if_pos hact, if_pos hact]
    dsimp only
    have hword := listRegOf_soft int .active (int.targets.setWidth 32)
      (if int.sgiPend ≠ 0 then 1 else 0) (some i) hid
    rw [or_gichLrEoiBit, show gichLrStateAct = bit32Place IntState.active.toWord 28 2 from rfl, hword,
      getLsbD_ite_one]
    have hcpu : (int.targets.setWidth 32).toNat = int.targets.toNat := by
      rw [BitVec.toNat_setWidth]
      omega
    rw [hcpu]
    exact ⟨rfl, rfl⟩
  · rw [if_neg hact, if_neg hact]
    cases hn : sgiSource int.sgiPend with
    | none =>
      dsimp only
      have hword := listRegOf_soft int .inv 0 (if int.sgiPend ≠ 0 then 1 else 0) (some i) hid
      rw [show IntState.inv.toWord = 0 from rfl, or_bit32Place_zero, or_bit32Place_zero,
        getLsbD_ite_one] at hword
      rw [or_gichLrEoiBit, hword]
      exact ⟨rfl, rfl⟩
    | some n =>
      dsimp only
      have hlt := sgiSource_lt hn
      have hword := listRegOf_soft int .pending (BitVec.ofNat 32 n)
        (if int.sgiPend &&& ~~~(1#8 <<< n) ≠ 0 then 1 else 0) (some i) hid
      have hcpu : (BitVec.ofNat 32 n).toNat % 8 = n := by
        rw [BitVec.toNat_ofNat]
        omega
      rw [or_gichLrEoiBit, show gichLrStatePnd = bit32Place IntState.pending.toWord 28 2 from rfl, hword,
        getLsbD_ite_one, hcpu]
      exact ⟨rfl, rfl⟩

/-- The two ways to make a list register of any other interrupt agree. -/
theorem listRegOf_lrOfInt_plain (hv2 : E.cfg.version = .v2) (hid : i.id < 2 ^ 10)
    (hsgi : gicIsSgi i.id = false) (hhw : int.hw = false) :
    listRegOf (lrOfInt i int state).1 (some i) = (Avisor.lrOfInt E i int state).1 ∧
      (lrOfInt i int state).2 = (Avisor.lrOfInt E i int state).2 := by
  have hsoft : ¬ (!gicIsSgi i.id && int.hw) = true := by simp [hhw]
  have hsource : ¬ hasSources E i = true := by simp [hasSources_v2 hv2, hsgi]
  have hsgi' : ¬ gicIsSgi i.id = true := by simp [hsgi]
  rw [lrOfInt, Avisor.lrOfInt, if_neg hsoft, if_neg hsoft, if_neg hsgi', if_neg hsource, if_pos hv2]
  dsimp only
  have hword := listRegOf_soft int state 0 (if (!gicIsPriv i.id) = true then 1 else 0) (some i) hid
  rw [or_bit32Place_zero, getLsbD_ite_one, Bool.decide_eq_true, BitVec.or_assoc,
    BitVec.or_comm (bit32Place state.toWord 28 2), ← BitVec.or_assoc] at hword
  rw [or_gichLrEoiBit, hword]
  exact ⟨rfl, rfl⟩

/-- The two ways to make a list register of an interrupt agree. -/
theorem listRegOf_lrOfInt (int : VgicInt) (state : IntState) (hv2 : E.cfg.version = .v2)
    (hid : i.id < 2 ^ 10) :
    listRegOf (lrOfInt i int state).1 (some i) = (Avisor.lrOfInt E i int state).1 ∧
      (lrOfInt i int state).2 = (Avisor.lrOfInt E i int state).2 := by
  cases hsgi : gicIsSgi i.id with
  | true => exact listRegOf_lrOfInt_sgi hv2 hid hsgi
  | false =>
    cases hhw : int.hw with
    | true => exact listRegOf_lrOfInt_hw hv2 hid (by simp [hsgi, hhw])
    | false => exact listRegOf_lrOfInt_plain hv2 hid hsgi hhw

/-! ### The functions by fields, with stores -/

theorem toVgic_writeLr (s : VgicState) (lr : PCpuId → Nat → BitVec 32) (c : PCpuId) (word : BitVec 32)
    (r : ListReg) :
    (mk (s.writeLr c n r) (update lr c (update (lr c) n word))).toVgic =
      (mk s lr).toVgic.writeLr c n (listRegOf word r.holds) := by
  have hgich : (mk (s.writeLr c n r) (update lr c (update (lr c) n word))).toVgic.gich =
      ((mk s lr).toVgic.writeLr c n (listRegOf word r.holds)).gich := by
    funext d
    by_cases hd : d = c
    · subst hd
      simp only [toVgic, VgicState.writeLr, VgicState.lr, update_self, Gich.mk.injEq, true_and]
      funext m
      by_cases hm : m = n
      · subst hm
        simp only [update_self]
      · simp only [update_of_ne hm]
    · simp only [toVgic, VgicState.writeLr, VgicState.lr, update_of_ne hd]
  exact congrArg (fun gich => { s with gich := gich }) hgich

theorem toVgic_setHcr (s : VgicState) (lr : PCpuId → Nat → BitVec 32) (c : PCpuId) (hcr : GichHcr) :
    (mk (s.setHcr c hcr) lr).toVgic = (mk s lr).toVgic.setHcr c hcr := by
  have hgich : (mk (s.setHcr c hcr) lr).toVgic.gich = ((mk s lr).toVgic.setHcr c hcr).gich := by
    funext d
    by_cases hd : d = c
    · subst hd
      simp only [toVgic, VgicState.setHcr, VgicState.lr, update_self]
    · simp only [toVgic, VgicState.setHcr, VgicState.lr, update_of_ne hd]
  exact congrArg (fun gich => { s with gich := gich }) hgich

theorem vgicWriteLr_toVgic (hv2 : E.cfg.version = .v2) (hid : i.id < 2 ^ 10) :
    (w.vgicWriteLr E vcpu i n).toVgic = Avisor.vgicWriteLr E w.toVgic vcpu i n := by
  unfold vgicWriteLr Avisor.vgicWriteLr
  dsimp only
  rw [← vgicReleasePrev_toVgic hv2, vgicGetState_toVgic hv2, toVgic_writeLr, toVgic_ints]
  obtain ⟨hlr, hsgiPend⟩ := listRegOf_lrOfInt ((w.vgicReleasePrev E vcpu i n).vgic.ints i)
    ((w.vgicReleasePrev E vcpu i n).vgicGetState E i) hv2 hid
  rw [hlr, hsgiPend]
  rfl

/-- The field that tells the source of a software-generated interrupt is one of the physical identity in
the word of a physical one. -/
theorem vgicRemoveLr_toVgic (vcpu : VcpuRef) (hv2 : E.cfg.version = .v2)
    (hsoft : gicIsSgi i.id = true → ∀ n lr, w.gichGetLr E i = some (n, lr) → lr.getLsbD 31 = false) :
    (w.vgicRemoveLr E vcpu i).1 = (Avisor.vgicRemoveLr E w.toVgic vcpu i).1 ∧
      (w.vgicRemoveLr E vcpu i).2.toVgic = (Avisor.vgicRemoveLr E w.toVgic vcpu i).2 := by
  unfold vgicRemoveLr Avisor.vgicRemoveLr
  by_cases hguard : (!vgicOwns w.vgic vcpu i || !(w.vgic.ints i).inLr) = true
  · have hguard' : (!vgicOwns w.toVgic vcpu i || !(w.toVgic.ints i).inLr) = true := hguard
    rw [if_pos hguard, if_pos hguard']
    exact ⟨rfl, rfl⟩
  · have hguard' : ¬ (!vgicOwns w.toVgic vcpu i || !(w.toVgic.ints i).inLr) = true := hguard
    rw [if_neg hguard, if_neg hguard', gichGetLr_toVgic]
    cases hlr : w.gichGetLr E i with
    | none => exact ⟨rfl, rfl⟩
    | some x =>
      obtain ⟨lrInd, lr⟩ := x
      have hint (int : VgicInt) :
          Avisor.intOfLr E i (listRegOf lr (w.vgic.lr E.self lrInd).holds) int = intOfLr i lr int := by
        unfold Avisor.intOfLr intOfLr
        rw [hasSources_v2 hv2]
        by_cases hsgi : gicIsSgi i.id = true
        · have hcpuid : (listRegOf lr (w.vgic.lr E.self lrInd).holds).cpuid = gichLrCpuid lr := by
            apply if_neg
            rw [hsoft hsgi lrInd lr hlr]
            exact Bool.false_ne_true
          rw [if_pos hsgi, if_pos hsgi, hcpuid]
          rfl
        · rw [if_neg hsgi, if_neg hsgi]
          rfl
      have hzero : listRegOf 0 none = ListReg.zero := by decide
      have hwrite : (mk (w.vgic.writeLr E.self lrInd .zero)
          (update w.lr E.self (update (w.lr E.self) lrInd 0))).toVgic = w.toVgic.writeLr E.self lrInd .zero :=
        (toVgic_writeLr w.vgic w.lr E.self 0 .zero).trans (congrArg (w.toVgic.writeLr E.self lrInd) hzero)
      refine ⟨rfl, ?_⟩
      simp only [Option.map_some, hint]
      rw [toVgic_setHcr, ← hwrite]
      rfl

end LrWords

/-! ### There and back -/

variable {E : VgicEnv} {s : VgicState} {w : LrWords} {i : IntRef} {n : Nat} {int : VgicInt} {state : IntState}

/-- The interrupt has a state, one that its list register has room for, and an SGI that is pending has a
source. -/
structure Writable (i : IntRef) (int : VgicInt) (state : IntState) : Prop where
  valid : state ≠ .inv
  hw : (!gicIsSgi i.id && int.hw) = true → state ≠ .pendact
  pend : gicIsSgi i.id = true → state.pend = true → int.sgiPend ≠ 0
  act : gicIsSgi i.id = true → int.targets.toNat < 8

/-- An interrupt outside of the list registers shows what `int` and the state `state` show. -/
structure PutBack (E : VgicEnv) (i : IntRef) (int : VgicInt) (state : IntState) (int' : VgicInt) : Prop where
  state : fieldState E i int' = state
  sgiPend : int'.sgiPend = int.sgiPend
  targets : int'.targets = int.targets
  prio : int'.prio = int.prio
  enabled : int'.enabled = int.enabled
  inLr : int'.inLr = false

/-- The interrupt behind it was in list register `n`. -/
def thereAndBack (E : VgicEnv) (i : IntRef) (int : VgicInt) (n : Nat) : VgicInt :=
  let written := lrOfInt E i int (fieldState E i int)
  intOfLr E i written.1 { int with sgiPend := written.2, state := .inv, inLr := false, lr := n }

theorem fieldState_of_not_sources (hsource : ¬ hasSources E i = true) : fieldState E i int = int.state := by
  unfold fieldState
  simp [hsource]

/-- The state of an SGI is that of its structure and, if a source is left, pending. -/
theorem fieldState_pend (hsource : hasSources E i = true) :
    fieldState E i int = if int.sgiPend ≠ 0 then { int.state with pend := true } else int.state := by
  unfold fieldState
  simp [hsource]

theorem putBack_of_hw (h : Writable i int (fieldState E i int)) (hhw : (!gicIsSgi i.id && int.hw) = true) :
    (lrOfInt E i int (fieldState E i int)).1.state ≠ .inv ∧
      PutBack E i int (fieldState E i int) (thereAndBack E i int n) := by
  have hsource : ¬ hasSources E i = true := by
    unfold hasSources
    simp only [Bool.and_eq_true, Bool.not_eq_true'] at hhw ⊢
    simp [hhw.1]
  have hstate : (if fieldState E i int = .pendact then IntState.active else fieldState E i int) =
      fieldState E i int := if_neg (h.hw hhw)
  unfold thereAndBack lrOfInt intOfLr
  simp only [if_pos hhw, if_neg hsource, hstate]
  exact ⟨h.valid, fieldState_of_not_sources hsource, rfl, rfl, rfl, rfl, rfl⟩

theorem putBack_of_plain (h : Writable i int (fieldState E i int)) (hhw : ¬ (!gicIsSgi i.id && int.hw) = true)
    (hsource : ¬ hasSources E i = true) :
    (lrOfInt E i int (fieldState E i int)).1.state ≠ .inv ∧
      PutBack E i int (fieldState E i int) (thereAndBack E i int n) := by
  unfold thereAndBack lrOfInt intOfLr
  simp only [if_neg hhw, if_neg hsource]
  exact ⟨h.valid, fieldState_of_not_sources hsource, rfl, rfl, rfl, rfl, rfl⟩

theorem putBack_of_sources (h : Writable i int (fieldState E i int)) (hsource : hasSources E i = true) :
    (lrOfInt E i int (fieldState E i int)).1.state ≠ .inv ∧
      PutBack E i int (fieldState E i int) (thereAndBack E i int n) := by
  have hsgi : gicIsSgi i.id = true := by
    simp only [hasSources, Bool.and_eq_true] at hsource
    exact hsource.2
  have hhw : ¬ (!gicIsSgi i.id && int.hw) = true := by simp [hsgi]
  have hpend : (fieldState E i int).pend = true ↔ int.sgiPend ≠ 0 := by
    constructor
    · exact h.pend hsgi
    · intro hne
      rw [fieldState_pend hsource, if_pos hne]
  generalize hstate : fieldState E i int = state at h hpend ⊢
  obtain ⟨pend, act⟩ := state
  unfold thereAndBack lrOfInt intOfLr
  cases act with
  | true =>
    simp only [hstate, if_neg hhw, if_pos hsource, if_true, IntState.active_act]
    refine ⟨by decide, ?_, rfl, ?_, rfl, rfl, rfl⟩
    · rw [fieldState_pend hsource]
      by_cases hsome : int.sgiPend ≠ 0
      · have hp : pend = true := hpend.mpr hsome
        rw [if_pos hsome, hp]
        rfl
      · have hnone : pend = false := by simpa using fun hp => hsome (hpend.mp hp)
        rw [if_neg hsome, hnone]
        rfl
    · apply BitVec.eq_of_toNat_eq
      have hlt := h.act hsgi
      dsimp only
      rw [BitVec.toNat_ofNat, Nat.mod_eq_of_lt hlt, Nat.mod_eq_of_lt int.targets.isLt]
  | false =>
    have hp : pend = true := by
      cases pend with
      | true => rfl
      | false => exact absurd rfl h.valid
    cases hk : sgiSource int.sgiPend with
    | none => exact absurd (sgiSource_none hk) (hpend.mp hp)
    | some k =>
      have hback := sgiPend_taken hk
      simp only [hstate, if_neg hhw, if_pos hsource, Bool.false_eq_true, if_false, if_true,
        IntState.pending_act, IntState.pending_pend]
      refine ⟨by decide, ?_, hback, rfl, rfl, rfl, rfl⟩
      rw [fieldState_pend hsource]
      dsimp only
      rw [hback, if_pos (hpend.mp hp), hp]
      rfl

theorem putBack (h : Writable i int (fieldState E i int)) :
    (lrOfInt E i int (fieldState E i int)).1.state ≠ .inv ∧
      PutBack E i int (fieldState E i int) (thereAndBack E i int n) := by
  by_cases hhw : (!gicIsSgi i.id && int.hw) = true
  · exact putBack_of_hw h hhw
  · by_cases hsource : hasSources E i = true
    · exact putBack_of_sources h hsource
    · exact putBack_of_plain h hhw hsource

/-- The interrupt is found in its list register. -/
theorem gichGetLr_vgicWriteLr (hrun : E.pId E.current = E.self) (howner : (s.ints i).owner = some E.current)
    (hvalid : (lrOfInt E i (s.ints i) (vgicGetState E s i)).1.state ≠ .inv) :
    gichGetLr E (vgicWriteLr E s E.current i n) i =
      some (n, (lrOfInt E i (s.ints i) (vgicGetState E s i)).1) := by
  unfold gichGetLr
  rw [vgicWriteLr_int, vgicWriteLr_lr]
  dsimp only
  rw [update_self, update_self, howner, Option.map_some, hrun, if_neg (by simp),
    if_pos ⟨lrOfInt_vid .., hvalid⟩]

theorem vgicRemoveLr_vgicWriteLr (hrun : E.pId E.current = E.self)
    (howner : (s.ints i).owner = some E.current) (hstate : vgicGetState E s i = fieldState E i (s.ints i))
    (hvalid : (lrOfInt E i (s.ints i) (vgicGetState E s i)).1.state ≠ .inv) :
    (vgicRemoveLr E (vgicWriteLr E s E.current i n) E.current i).2.ints i =
      thereAndBack E i (s.ints i) n := by
  have hguard : ¬ (!vgicOwns (vgicWriteLr E s E.current i n) E.current i ||
      !((vgicWriteLr E s E.current i n).ints i).inLr) = true := by
    unfold vgicOwns
    rw [vgicWriteLr_int]
    simp [howner]
  unfold vgicRemoveLr
  rw [if_neg hguard, gichGetLr_vgicWriteLr hrun howner hvalid]
  dsimp only
  rw [VgicState.setHcr_ints, VgicState.modifyInt_ints, update_self, VgicState.writeLr_ints, vgicWriteLr_int,
    hstate]
  rfl

namespace LrWords

/-- The word that is found is gone behind `vgic_remove_lr`. -/
theorem vgicRemoveLr_lr {vcpu : VcpuRef} {lr : BitVec 32} (howner : (w.vgic.ints i).owner = some vcpu)
    (hfound : w.gichGetLr E i = some (n, lr)) :
    (w.vgicRemoveLr E vcpu i).2.lr E.self n = 0 := by
  have hinLr : (w.vgic.ints i).inLr = true := by
    cases hin : (w.vgic.ints i).inLr with
    | true => rfl
    | false => simp [gichGetLr, hin] at hfound
  have hguard : ¬ (!vgicOwns w.vgic vcpu i || !(w.vgic.ints i).inLr) = true := by
    unfold vgicOwns
    simp [howner, hinLr]
  unfold vgicRemoveLr
  rw [if_neg hguard, hfound]
  dsimp only
  rw [update_self, update_self]

/-- An interrupt that the running vCPU owns is, behind it was written to a list register and removed
from it, as it was before, and the list register is empty. -/
theorem removeLr_writeLr_restores (n : Nat) (hv2 : E.cfg.version = .v2) (hid : i.id < 1020)
    (hrun : E.pId E.current = E.self) (howner : (w.vgic.ints i).owner = some E.current)
    (hout : (w.vgic.ints i).inLr = false) (h : Writable i (w.vgic.ints i) (w.vgicGetState E i)) :
    let w' := ((w.vgicWriteLr E E.current i n).vgicRemoveLr E E.current i).2
    w'.vgicGetState E i = w.vgicGetState E i ∧ (w'.vgic.ints i).sgiPend = (w.vgic.ints i).sgiPend ∧
      (w'.vgic.ints i).targets = (w.vgic.ints i).targets ∧ (w'.vgic.ints i).prio = (w.vgic.ints i).prio ∧
      (w'.vgic.ints i).enabled = (w.vgic.ints i).enabled ∧ w'.lr E.self n = 0 ∧
      (w'.vgic.ints i).inLr = false := by
  intro w'
  have hfields : Avisor.vgicGetState E w.toVgic i = fieldState E i (w.vgic.ints i) :=
    vgicGetState_of_none (gichGetLr_of_not_inLr hout)
  have hstate : w.vgicGetState E i = fieldState E i (w.vgic.ints i) := by
    rw [← vgicGetState_toVgic hv2, hfields]
  rw [hstate] at h
  obtain ⟨hvalid, hputBack⟩ := putBack (E := E) (n := n) h
  rw [← hfields] at hvalid
  have hwrite : (w.vgicWriteLr E E.current i n).toVgic = Avisor.vgicWriteLr E w.toVgic E.current i n :=
    vgicWriteLr_toVgic hv2 (by omega)
  have hfound := gichGetLr_vgicWriteLr (s := w.toVgic) (n := n) hrun howner hvalid
  rw [← hwrite, gichGetLr_toVgic] at hfound
  obtain ⟨⟨k, lr⟩, hword, heq⟩ := Option.map_eq_some_iff.mp hfound
  obtain ⟨hk, hlr⟩ := Prod.mk.inj heq
  dsimp only at hk hlr
  rw [hk] at hword
  have hsoft (hsgi : gicIsSgi i.id = true) (m : Nat) (lr' : BitVec 32)
      (hm : (w.vgicWriteLr E E.current i n).gichGetLr E i = some (m, lr')) : lr'.getLsbD 31 = false := by
    have hsame : lr' = lr := (Prod.mk.inj (Option.some.inj (hm.symm.trans hword))).2
    have hhw := congrArg ListReg.hw hlr
    rw [hsame]
    exact hhw.trans (lrOfInt_sources _ _ ((hasSources_v2 hv2).trans hsgi)).1
  have hremove := (vgicRemoveLr_toVgic E.current hv2 hsoft).2
  have hints : w'.vgic.ints i = thereAndBack E i (w.vgic.ints i) n := by
    have hback := vgicRemoveLr_vgicWriteLr (s := w.toVgic) (n := n) hrun howner hfields hvalid
    rw [← hwrite, ← hremove] at hback
    exact hback
  have hstate' : w'.vgicGetState E i = fieldState E i (w'.vgic.ints i) := by
    rw [← vgicGetState_toVgic hv2]
    apply vgicGetState_of_none
    apply gichGetLr_of_not_inLr
    rw [toVgic_ints, hints]
    exact hputBack.inLr
  have howner' : ((w.vgicWriteLr E E.current i n).vgic.ints i).owner = some E.current := by
    rw [← toVgic_ints, hwrite, vgicWriteLr_int]
    exact howner
  rw [hstate', hstate, hints]
  exact ⟨hputBack.state, hputBack.sgiPend, hputBack.targets, hputBack.prio, hputBack.enabled,
    vgicRemoveLr_lr howner' hword, hputBack.inLr⟩

/-- SGI 3 of vCPU 0 is active for vCPU 5, and vCPUs 2 and 5 have sent it since. -/
def activeSgi : LrWords where
  vgic := (vgicAtBoot .v2).modifyInt (.priv ⟨0, 0⟩ 3) fun int =>
    { int with owner := some ⟨0, 0⟩, state := .active, targets := 5, sgiPend := 0x24, prio := 0xa0 }
  lr _ _ := 0

theorem removeLr_writeLr_restores_activeSgi :
    let E := twoVcpusOn (twoVcpus .v2 4 (by decide)) 0 ⟨0, 0⟩
    let i := IntRef.priv ⟨0, 0⟩ 3
    let w' := ((activeSgi.vgicWriteLr E ⟨0, 0⟩ i 2).vgicRemoveLr E ⟨0, 0⟩ i).2
    w'.vgicGetState E i = .pendact ∧ (w'.vgic.ints i).sgiPend = 0x24 ∧ (w'.vgic.ints i).targets = 5 ∧
      (w'.vgic.ints i).prio = 0xa0 ∧ (w'.vgic.ints i).enabled = true ∧ w'.lr 0 2 = 0 ∧
      (w'.vgic.ints i).inLr = false :=
  removeLr_writeLr_restores (E := twoVcpusOn (twoVcpus .v2 4 (by decide)) 0 ⟨0, 0⟩) (w := activeSgi)
    (i := .priv ⟨0, 0⟩ 3) 2 rfl (by decide) rfl rfl rfl
    ⟨by decide, by decide, fun _ _ => by decide, fun _ => by decide⟩

end LrWords

end Avisor
