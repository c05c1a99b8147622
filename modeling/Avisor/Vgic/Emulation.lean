import Avisor.Lib.PackedFields
import Avisor.Vgic.Moves

/-!
# Accesses to the interrupt controller

`vgicd_emul_handler` and `vgicr_emul_handler`: an access of the guest to the frame of the distributor or of a
redistributor is decoded to one of the handlers, which works on the interrupts that the access covers. The locks
that the handlers hold are free when they are called.
-/

namespace Avisor

open Function PackedFields

/-- `struct emul_access`; `val` is what the guest's register holds. -/
structure EmulAccess where
  addr : BitVec 64
  write : Bool
  width : BitVec 64
  val : BitVec 64
  deriving DecidableEq

/-- What an access leaves: the state, and what is stored to the guest's register. -/
structure Accessed where
  state : VgicState
  reg : Option (BitVec 64)

/-- What the handlers only read: `TYPER` and `IIDR` of each VM's distributor, the identification registers of the
hardware, `TYPER` of each vCPU's redistributor, and `vgicr_addr`. -/
structure EmulRegs where
  typer : VmId → BitVec 32
  iidr : VmId → BitVec 32
  gicdId : Nat → BitVec 32
  vgicrTyper : VcpuRef → BitVec 64
  gicrId : PCpuId → Nat → BitVec 32
  vgicrAddr : VmId → BitVec 64

variable (E : VgicEnv) (s : VgicState)

/-! ### The interrupts an access covers -/

/-- `GICD_REG_MASK`. -/
def gicdRegMask (version : GicVersion) (addr : BitVec 64) : BitVec 64 :=
  addr &&& if version = .v2 then 0xfff else 0xffff

/-- `first_int` of `vgic_emul_generic_access`. -/
def firstInt (handlers : RegHandlerInfo) (acc : EmulAccess) : BitVec 64 :=
  (gicdRegMask E.cfg.version acc.addr - handlers.regroupBase) * 8 / BitVec.ofNat 64 handlers.fieldWidth

/-- The number of fields in an access. -/
def fieldCount (handlers : RegHandlerInfo) (acc : EmulAccess) : Nat :=
  (acc.width * 8).toNat / handlers.fieldWidth

/-- The loop of `vgic_emul_generic_access` behind its first `i` rounds. -/
def genericLoop (handlers : RegHandlerInfo) (fields : RegFields) (acc : EmulAccess) (vgicrId : Nat) :
    Nat → Nat → VgicState → BitVec 64 → Option (VgicState × BitVec 64)
  | 0, _, s, val => some (s, val)
  | n + 1, i, s, val =>
    match vgicGetInt E E.current (firstInt E handlers acc + BitVec.ofNat 64 i).toNat vgicrId with
    | none => some (s, val)
    | some interrupt =>
      if acc.write then
        let data := bit64Extract val (i * handlers.fieldWidth) handlers.fieldWidth
        (vgicIntSetField E s handlers E.current interrupt data).bind fun s =>
          genericLoop handlers fields acc vgicrId n (i + 1) s val
      else
        let mask := (1#64 <<< handlers.fieldWidth) - 1
        let field := fields.readField E E.current interrupt (s.ints interrupt) &&& mask
        genericLoop handlers fields acc vgicrId n (i + 1) s (val ||| field <<< (i * handlers.fieldWidth))

/-- `vgic_emul_generic_access`; `none` where it does not come out of a round. -/
def vgicEmulGenericAccess (handlers : RegHandlerInfo) (acc : EmulAccess) (gicrAccess : Bool)
    (vgicrId : Nat) : Option Accessed :=
  let val := if acc.write then acc.val else 0
  let validAccess := E.cfg.version = .v2 || !(gicrAccess ^^ gicIsPriv (firstInt E handlers acc).toNat)
  let run :=
    if validAccess then
      handlers.fields.bind fun fields =>
        genericLoop E handlers fields acc vgicrId (fieldCount handlers acc) 0 s val
    else some (s, val)
  run.map fun (s, val) => ⟨s, if acc.write then none else some val⟩

/-- `vgic_emul_razwi`. -/
def vgicEmulRazwi (acc : EmulAccess) : Accessed := ⟨s, if acc.write then none else some 0⟩

/-- `vgicd_emul_router_access`. -/
def vgicdEmulRouterAccess (handlers : RegHandlerInfo) (acc : EmulAccess) : Option Accessed :=
  let wordAccess := acc.width = 4
  let topAccess := wordAccess && acc.addr &&& 0x4 ≠ 0
  let irqId := ((gicdRegMask E.cfg.version (acc.addr &&& ~~~0x7) - 0x6000) / 8).toNat
  match vgicGetInt E E.current irqId E.current.idx with
  | none => some (vgicEmulRazwi s acc)
  | some interrupt =>
    let route := vgicIntGetRoute E E.current interrupt (s.ints interrupt)
    if acc.write then
      let route :=
        if topAccess then route &&& bitMask 0 32 ||| (acc.val &&& bitMask 0 32) <<< 32
        else if wordAccess then route &&& bitMask 32 32 ||| acc.val &&& bitMask 0 32
        else acc.val
      (vgicIntSetField E s handlers E.current interrupt route).map fun s => ⟨s, none⟩
    else
      let val :=
        if topAccess then ((route >>> 32).setWidth 32).setWidth 64
        else if wordAccess then (route.setWidth 32).setWidth 64
        else route
      some ⟨s, some val⟩

/-! ### The handlers -/

/-- The `struct vgic_reg_handler_info` of both frames: those of `reg_handler_info_table`, and those that are not
in it. -/
inductive EmulHandler
  | table (id : RegHandlerId)
  | misc
  | pidr
  | sgir
  | razwi
  | ctrl
  | typer
  | gicrPidr
  deriving DecidableEq

/-- The widths of an access that the handler takes, as the bits of a word. -/
def EmulHandler.alignment (version : GicVersion) : EmulHandler → BitVec 64
  | .table id => (regHandlerInfoTable version id).alignment
  | .misc => 0b0100
  | .pidr => 0b0100
  | .sgir => 0b0100
  | .razwi => 0b0100
  | .ctrl => 0b0100
  | .typer => 0b1100
  | .gicrPidr => 0b0100

/-- `vgic_check_reg_alignment`. -/
def vgicCheckRegAlignment (acc : EmulAccess) (alignment : BitVec 64) : Bool :=
  alignment &&& acc.width ≠ 0 && acc.addr &&& (acc.width - 1) = 0

variable (R : EmulRegs)

/-- `vgicd_emul_misc_access`. -/
def vgicdEmulMiscAccess (acc : EmulAccess) : Option Accessed :=
  let vm := E.current.vm
  match (acc.addr.setWidth 32 &&& 0x7f).toNat with
  | 0 =>
    if acc.write then (vgicdWriteCtlr E s acc.val).map fun s => ⟨s, none⟩
    else some ⟨s, some ((s.ctlr vm ||| 1 <<< 4).setWidth 64)⟩
  | 4 => some ⟨s, if acc.write then none else some ((R.typer vm).setWidth 64)⟩
  | 8 => some ⟨s, if acc.write then none else some ((R.iidr vm).setWidth 64)⟩
  | _ => some ⟨s, none⟩

/-- The index of an identification register. -/
def pidrIndex (acc : EmulAccess) : Nat := (((acc.addr &&& 0xff) - 0xd0) / 4).toNat

/-- `vgicd_emul_pidr_access`. -/
def vgicdEmulPidrAccess (acc : EmulAccess) : Accessed :=
  ⟨s, if acc.write then none else some ((R.gicdId (pidrIndex acc)).setWidth 64)⟩

/-- `vgicd_emul_sgiregs_access`; the GICv3 build keeps the weak definition of `vgic.c`. -/
def vgicdEmulSgiregsAccess (acc : EmulAccess) : Option Accessed :=
  match E.cfg.version with
  | .v2 =>
    if acc.addr &&& 0xfff = 0xf00 ∧ acc.write then
      (vgicdWriteSgir E s acc.val).map fun s => ⟨s, none⟩
    else some ⟨s, none⟩
  | .v3 => some (vgicEmulRazwi s acc)

/-- `vgicr_emul_typer_access`; the access is to the redistributor of a vCPU that exists. -/
def vgicrEmulTyperAccess (acc : EmulAccess) (vgicrId : Nat) : Accessed :=
  let wordAccess := acc.width = 4
  let topAccess := wordAccess && acc.addr &&& 0x4 ≠ 0
  let typer := R.vgicrTyper ⟨E.current.vm, vgicrId⟩
  let typer :=
    if topAccess then typer >>> 32
    else if wordAccess then typer &&& bitMask 0 32
    else typer
  ⟨s, if acc.write then none else some typer⟩

/-- `vgicr_emul_pidr_access`. -/
def vgicrEmulPidrAccess (acc : EmulAccess) (vgicrId : Nat) : Accessed :=
  let val :=
    match vmTranslateToPcpuid E E.current.vm vgicrId with
    | some pgicrId => (R.gicrId pgicrId (pidrIndex acc)).setWidth 64
    | none => 0
  ⟨s, if acc.write then none else some val⟩

/-- The call of `reg_access`. -/
def handlerAccess (handler : EmulHandler) (acc : EmulAccess) (gicrAccess : Bool) (vgicrId : Nat) :
    Option Accessed :=
  match handler with
  | .table id =>
    let handlers := regHandlerInfoTable E.cfg.version id
    match handlers.regAccess with
    | .generic => vgicEmulGenericAccess E s handlers acc gicrAccess vgicrId
    | .router => vgicdEmulRouterAccess E s handlers acc
    | .razwi => some (vgicEmulRazwi s acc)
  | .misc => vgicdEmulMiscAccess E s R acc
  | .pidr => some (vgicdEmulPidrAccess s R acc)
  | .sgir => vgicdEmulSgiregsAccess E s acc
  | .razwi => some (vgicEmulRazwi s acc)
  | .ctrl => some (vgicEmulRazwi s acc)
  | .typer => some (vgicrEmulTyperAccess E s R acc vgicrId)
  | .gicrPidr => some (vgicrEmulPidrAccess E s R acc vgicrId)

/-! ### The decoders -/

/-- The handler `vgicd_emul_handler` chooses. -/
def vgicdHandler (version : GicVersion) (addr : BitVec 64) : EmulHandler :=
  let accOff := (gicdRegMask version addr).toNat
  match accOff / 128 with
  | 0x00 => .misc
  | 0x02 => .table .isenabler
  | 0x04 => .table .ispendr
  | 0x06 => .table .isactiver
  | 0x03 => .table .icenabler
  | 0x05 => .table .icpendr
  | 0x07 => .table .icactiver
  | 0x18 => .table .icfgr
  | 0x1e => .sgir
  | _ =>
    if 0x400 ≤ accOff ∧ accOff < 0x800 then .table .ipriorityr
    else if 0x800 ≤ accOff ∧ accOff < 0xc00 then .table .itargetsr
    else if 0x6000 ≤ accOff ∧ accOff < 0x8000 then .table .irouter
    else if 0xffd0 ≤ accOff ∧ accOff < 0x10000 then .pidr
    else .razwi

/-- `vgicd_emul_handler`, with what it returns. -/
def vgicdEmulHandler (acc : EmulAccess) : Option (Bool × Accessed) :=
  let handler := vgicdHandler E.cfg.version acc.addr
  if vgicCheckRegAlignment acc (handler.alignment E.cfg.version) then
    (handlerAccess E s R handler acc false E.current.idx).map fun r => (true, r)
  else some (false, ⟨s, none⟩)

/-- `GICR_REG_MASK`. -/
def gicrRegMask (addr : BitVec 64) : BitVec 64 := addr &&& 0x1ffff

/-- The handler `vgicr_emul_handler` chooses. -/
def vgicrHandler (vgicrAddr addr : BitVec 64) : EmulHandler :=
  match (gicrRegMask addr).toNat with
  | 0x00000 => .ctrl
  | 0x10100 => .table .isenabler
  | 0x10200 => .table .ispendr
  | 0x10300 => .table .icactiver
  | 0x10180 => .table .icenabler
  | 0x10280 => .table .icpendr
  | 0x10380 => .table .icfgr
  | 0x10c00 => .table .icfgr
  | 0x10c04 => .table .icfgr
  | _ =>
    let accOffset := (gicrRegMask (addr - vgicrAddr)).toNat
    if 0x8 ≤ accOffset ∧ accOffset < 0x10 then .typer
    else if 0x10400 ≤ accOffset ∧ accOffset < 0x10420 then .table .ipriorityr
    else if 0xffd0 ≤ accOffset ∧ accOffset < 0x10000 then .gicrPidr
    else .razwi

/-- `vgicr_get_id`. -/
def vgicrGetId (acc : EmulAccess) : Nat :=
  ((acc.addr - R.vgicrAddr E.current.vm) / 0x20000).toNat

/-- `vgicr_emul_handler`, with what it returns; `none` also where the frame is that of no vCPU. -/
def vgicrEmulHandler (acc : EmulAccess) : Option (Bool × Accessed) :=
  let handler := vgicrHandler (R.vgicrAddr E.current.vm) acc.addr
  if vgicCheckRegAlignment acc (handler.alignment E.cfg.version) then
    let vgicrId := vgicrGetId E R acc
    if vgicrId = E.current.idx ∨ vgicrId < E.cfg.nrCpus E.current.vm then
      (handlerAccess E s R handler acc true vgicrId).map fun r => (true, r)
    else none
  else some (false, ⟨s, none⟩)

/-! ### The loop over the fields -/

variable {E s} {handlers : RegHandlerInfo} {acc : EmulAccess} {vgicrId : Nat}

/-- The interrupt that the field `p` of an access is for. -/
def coveredInt (E : VgicEnv) (handlers : RegHandlerInfo) (acc : EmulAccess) (vgicrId p : Nat) :
    Option IntRef :=
  vgicGetInt E E.current (firstInt E handlers acc + BitVec.ofNat 64 p).toNat vgicrId

/-- The value of the field `p` in what is written. -/
def writtenField (handlers : RegHandlerInfo) (acc : EmulAccess) (p : Nat) : BitVec 64 :=
  bit64Extract acc.val (p * handlers.fieldWidth) handlers.fieldWidth

theorem mask_eq_lowMask {w : Nat} (hw : w < 64) : (1#64 <<< w) - 1 = lowMask 64 w := by
  have hpow : 2 ^ w < 2 ^ 64 := Nat.pow_lt_pow_right (by decide) hw
  have hone : 1 ≤ 2 ^ w := Nat.one_le_two_pow
  have htoNat : (1 : BitVec 64).toNat = 1 := rfl
  apply BitVec.eq_of_toNat_eq
  rw [BitVec.toNat_sub, BitVec.toNat_shiftLeft]
  simp only [lowMask, BitVec.toNat_ofNat, Nat.shiftLeft_eq, htoNat]
  omega

theorem bit64Extract_eq {word : BitVec 64} {off w : Nat} (hw : w < 64) :
    bit64Extract word off w = extract word off w := by
  unfold bit64Extract extract
  rw [mask_eq_lowMask hw]

/-- A read does nothing but to put the fields of the interrupts in a word, up to the first one that is not
implemented. -/
theorem genericLoop_read (fields : RegFields) (vgicrId : Nat) (hread : acc.write = false)
    (hwidth : handlers.fieldWidth < 64) (n i : Nat) (val : BitVec 64) :
    ∃ l : List (BitVec 64), genericLoop E handlers fields acc vgicrId n i s val =
        some (s, packFrom handlers.fieldWidth i l val) ∧
      (∀ p x, l[p]? = some x → p < n ∧ ∃ interrupt, coveredInt E handlers acc vgicrId (i + p) = some interrupt ∧
        x = fields.readField E E.current interrupt (s.ints interrupt)) ∧
      (l.length < n → coveredInt E handlers acc vgicrId (i + l.length) = none) := by
  induction n generalizing i val with
  | zero => exact ⟨[], rfl, fun p x hx => by simp at hx, fun hlt => absurd hlt (Nat.not_lt_zero _)⟩
  | succ n ih =>
    unfold genericLoop
    cases hget : vgicGetInt E E.current (firstInt E handlers acc + BitVec.ofNat 64 i).toNat vgicrId with
    | none => exact ⟨[], rfl, fun p x hx => by simp at hx, fun _ => hget⟩
    | some interrupt =>
      simp only [hread, Bool.false_eq_true, if_false, mask_eq_lowMask hwidth]
      obtain ⟨l, hl, hfields, hend⟩ := ih (i + 1) (val |||
        (fields.readField E E.current interrupt (s.ints interrupt) &&& lowMask 64 handlers.fieldWidth) <<<
          (i * handlers.fieldWidth))
      refine ⟨fields.readField E E.current interrupt (s.ints interrupt) :: l, hl, ?_, ?_⟩
      · intro p x hx
        cases p with
        | zero =>
          simp only [List.getElem?_cons_zero, Option.some.injEq] at hx
          exact ⟨Nat.succ_pos n, interrupt, hget, hx.symm⟩
        | succ p =>
          rw [List.getElem?_cons_succ] at hx
          obtain ⟨hp, hcovered⟩ := hfields p x hx
          rw [show i + 1 + p = i + (p + 1) by omega] at hcovered
          exact ⟨Nat.succ_lt_succ hp, hcovered⟩
      · intro hlt
        rw [List.length_cons] at hlt ⊢
        rw [show i + (l.length + 1) = i + 1 + l.length by omega]
        exact hend (by omega)

/-- What every round of a write keeps holds behind the last one, which is that of the last interrupt that is
implemented. -/
theorem genericLoop_write {fields : RegFields} {P : Nat → VgicState → Prop} {n i : Nat} {t : VgicState}
    {val : BitVec 64}
    (hwrite : acc.write = true)
    (hround : ∀ p u v interrupt, i ≤ p → p < i + n → coveredInt E handlers acc vgicrId p = some interrupt →
      P p u → vgicIntSetField E u handlers E.current interrupt (writtenField handlers acc p) = some v →
        P (p + 1) v)
    (hstart : P i s)
    (h : genericLoop E handlers fields acc vgicrId n i s acc.val = some (t, val)) :
    ∃ m, i ≤ m ∧ m ≤ i + n ∧ P m t ∧ (m < i + n → coveredInt E handlers acc vgicrId m = none) := by
  induction n generalizing i s with
  | zero =>
    cases h
    exact ⟨i, Nat.le_refl i, Nat.le_refl i, hstart, fun hlt => absurd hlt (Nat.lt_irrefl i)⟩
  | succ n ih =>
    unfold genericLoop at h
    cases hget : vgicGetInt E E.current (firstInt E handlers acc + BitVec.ofNat 64 i).toNat vgicrId with
    | none =>
      rw [hget] at h
      cases h
      exact ⟨i, Nat.le_refl i, Nat.le_add_right _ _, hstart, fun _ => hget⟩
    | some interrupt =>
      simp only [hget, hwrite, if_true] at h
      obtain ⟨u, hu, h⟩ := Option.bind_eq_some_iff.mp h
      have hnext := hround i s u interrupt (Nat.le_refl i) (by omega) hget hstart hu
      obtain ⟨m, him, hmn, hm, hend⟩ := ih
        (fun p u v j hp hpn => hround p u v j (by omega) (by omega)) hnext h
      exact ⟨m, by omega, by omega, hm, fun hlt => hend (by omega)⟩

/-- A write comes out of its rounds if it comes out of each. -/
theorem genericLoop_isSome (fields : RegFields) {P : Nat → VgicState → Prop} {n i : Nat}
    (hwrite : acc.write = true)
    (hround : ∀ p u interrupt, i ≤ p → p < i + n → coveredInt E handlers acc vgicrId p = some interrupt →
      P p u → ∃ v, vgicIntSetField E u handlers E.current interrupt (writtenField handlers acc p) = some v ∧
        P (p + 1) v)
    (hstart : P i s) : ∃ t, genericLoop E handlers fields acc vgicrId n i s acc.val = some (t, acc.val) := by
  induction n generalizing i s with
  | zero => exact ⟨s, rfl⟩
  | succ n ih =>
    unfold genericLoop
    cases hget : vgicGetInt E E.current (firstInt E handlers acc + BitVec.ofNat 64 i).toNat vgicrId with
    | none => exact ⟨s, rfl⟩
    | some interrupt =>
      obtain ⟨u, hu, hnext⟩ := hround i s interrupt (Nat.le_refl i) (by omega) hget hstart
      obtain ⟨t, ht⟩ := ih (fun p u j hp hpn => hround p u j (by omega) (by omega)) hnext
      refine ⟨t, ?_⟩
      simp only [hwrite, if_true]
      unfold writtenField at hu
      rw [hu, Option.bind_some, ht]

end Avisor
