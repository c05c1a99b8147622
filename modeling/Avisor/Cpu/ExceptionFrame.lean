import Avisor.Lib.WordStack
import Mathlib.Data.Fintype.Basic
import Mathlib.Tactic.FinCases

/-!
# The frame of an interrupt in EL2

`SAVE_CPU` and `restore_cpu` of `exception.S`, instruction by instruction. `stp` leaves the first of its
registers at the lower address and `ldp` takes its first register from there. The pairs of `restore_cpu` are
the ones of `SAVE_CPU` the other way round, so the two registers of every pair come back exchanged, and
`x17` is not in the frame at all.
-/

namespace Avisor

open Function WordStack

/-- Numerals name the general registers. -/
local instance generalRegs_neZero : @NeZero Nat Zero.ofOfNat0 31 := Nat.instNeZeroSucc

/-- What the instructions work on: the general registers, the stack pointer, `SPSR_EL2`, `ELR_EL2`, and the
memory by its double words; the frame is a multiple of eight bytes below the stack pointer everywhere. -/
structure ExcState where
  x : Fin 31 → BitVec 64
  sp : BitVec 64
  spsr : BitVec 64
  elr : BitVec 64
  mem : BitVec 64 → BitVec 64

/-- The system registers of the frame. -/
inductive ExcReg where
  | spsrEl2
  | elrEl2
  deriving DecidableEq

/-- The instructions of the two macros. -/
inductive ExcInstr where
  /-- `stp xa, xb, [sp, #-16]!` -/
  | stp (a b : Fin 31)
  /-- `str xa, [sp, #-8]!` -/
  | str (a : Fin 31)
  /-- `ldp xa, xb, [sp], #16` -/
  | ldp (a b : Fin 31)
  /-- `ldr xa, [sp], #8` -/
  | ldr (a : Fin 31)
  /-- `mrs xa, r` -/
  | mrs (a : Fin 31) (r : ExcReg)
  /-- `msr r, xa` -/
  | msr (r : ExcReg) (a : Fin 31)
  deriving DecidableEq

def ExcState.sysreg (s : ExcState) : ExcReg → BitVec 64
  | .spsrEl2 => s.spsr
  | .elrEl2 => s.elr

/-- One instruction. -/
def ExcInstr.exec (s : ExcState) : ExcInstr → ExcState
  | .stp a b =>
    { s with sp := s.sp - 16, mem := update (update s.mem (s.sp - 16) (s.x a)) (s.sp - 16 + 8) (s.x b) }
  | .str a => { s with sp := s.sp - 8, mem := update s.mem (s.sp - 8) (s.x a) }
  | .ldp a b =>
    { s with sp := s.sp + 16, x := update (update s.x a (s.mem s.sp)) b (s.mem (s.sp + 8)) }
  | .ldr a => { s with sp := s.sp + 8, x := update s.x a (s.mem s.sp) }
  | .mrs a r => { s with x := update s.x a (s.sysreg r) }
  | .msr .spsrEl2 a => { s with spsr := s.x a }
  | .msr .elrEl2 a => { s with elr := s.x a }

/-- The instructions one after another. -/
def ExcState.run (s : ExcState) (instrs : List ExcInstr) : ExcState := instrs.foldl ExcInstr.exec s

/-- The pushes of the general registers in `SAVE_CPU`. -/
def saveCpuPushes : List ExcInstr :=
  [.stp 0 1, .stp 2 3, .stp 4 5, .stp 6 7, .stp 8 9, .stp 10 11, .stp 12 13, .stp 14 15, .stp 16 16,
    .stp 18 19, .stp 20 21, .stp 22 23, .stp 24 25, .stp 26 27, .stp 28 29, .str 30]

/-- `SAVE_CPU`. -/
def saveCpu : List ExcInstr :=
  saveCpuPushes ++ [.mrs 0 .spsrEl2, .str 0, .mrs 0 .elrEl2, .str 0]

/-- The pops of the general registers in `restore_cpu`. -/
def restoreCpuPops : List ExcInstr :=
  [.ldr 30, .ldp 29 28, .ldp 27 26, .ldp 25 24, .ldp 23 22, .ldp 21 20, .ldp 19 18, .ldp 17 16, .ldp 15 14,
    .ldp 13 12, .ldp 11 10, .ldp 9 8, .ldp 7 6, .ldp 5 4, .ldp 3 2, .ldp 1 0]

/-- `restore_cpu`, up to its `eret`. -/
def restoreCpu : List ExcInstr :=
  [.ldr 0, .msr .elrEl2 0, .ldr 0, .msr .spsrEl2 0] ++ restoreCpuPops

variable {s t : ExcState} {ws : List (BitVec 64)}

theorem ExcState.run_cons (s : ExcState) (i : ExcInstr) (is : List ExcInstr) :
    s.run (i :: is) = (i.exec s).run is := rfl

theorem ExcState.run_append (s : ExcState) (is js : List ExcInstr) :
    s.run (is ++ js) = (s.run is).run js :=
  List.foldl_append ..

/-! ### The save -/

/-- The registers a push leaves on the stack, the one at the lower address first. -/
def ExcInstr.pushes : ExcInstr → List (Fin 31)
  | .stp a b => [a, b]
  | .str a => [a]
  | _ => []

/-- `t` is `s` with `ws` pushed on its stack. -/
structure Pushed (s t : ExcState) (ws : List (BitVec 64)) : Prop where
  x : t.x = s.x
  spsr : t.spsr = s.spsr
  elr : t.elr = s.elr
  sp : t.sp = s.sp - BitVec.ofNat 64 (8 * ws.length)
  holds : WordsAt t.mem t.sp ws

theorem Pushed.refl (s : ExcState) : Pushed s s [] where
  x := rfl
  spsr := rfl
  elr := rfl
  sp := (BitVec.sub_zero s.sp).symm
  holds := trivial

/-- A `stp` is a `str` of its second register and one of its first. -/
theorem exec_stp (s : ExcState) (a b : Fin 31) :
    (ExcInstr.stp a b).exec s = (ExcInstr.str a).exec ((ExcInstr.str b).exec s) := by
  have hsp : s.sp - 8 - 8 = s.sp - 16 := by bv_omega
  have hnext : s.sp - 16 + 8 = s.sp - 8 := by bv_omega
  have hne : s.sp - 8 ≠ s.sp - 16 := by bv_omega
  simp only [ExcInstr.exec, hsp, hnext]
  rw [update_comm hne]

theorem Pushed.str (h : Pushed s t ws) (a : Fin 31) (hlen : ws.length < 2 ^ 60) :
    Pushed s ((ExcInstr.str a).exec t) (s.x a :: ws) where
  x := h.x
  spsr := h.spsr
  elr := h.elr
  sp := by
    have hsp := h.sp
    simp only [ExcInstr.exec, List.length_cons]
    bv_omega
  holds := by
    rw [← h.x]
    exact h.holds.push (t.x a) hlen

theorem Pushed.exec {i : ExcInstr} (h : Pushed s t ws) (hi : i.pushes ≠ [])
    (hlen : ws.length + 1 < 2 ^ 60) : Pushed s (i.exec t) (i.pushes.map s.x ++ ws) := by
  cases i with
  | stp a b =>
    rw [exec_stp]
    exact (h.str b (Nat.lt_of_succ_lt hlen)).str a hlen
  | str a => exact h.str a (Nat.lt_of_succ_lt hlen)
  | ldp a b => exact absurd rfl hi
  | ldr a => exact absurd rfl hi
  | mrs a r => exact absurd rfl hi
  | msr r a => exact absurd rfl hi

theorem Pushed.run {is : List ExcInstr} (h : Pushed s t ws) (hpush : ∀ i ∈ is, i.pushes ≠ [])
    (hlen : ws.length + 2 * is.length < 2 ^ 60) :
    Pushed s (t.run is) ((is.reverse.flatMap ExcInstr.pushes).map s.x ++ ws) := by
  induction is generalizing t ws with
  | nil => exact h
  | cons i is ih =>
    have hwords : (i.pushes.map s.x).length ≤ 2 := by
      rw [List.length_map]
      cases i <;> simp [ExcInstr.pushes]
    rw [List.length_cons] at hlen
    have hnext := h.exec (hpush i List.mem_cons_self) (by omega)
    have hrest := ih hnext (fun j hj => hpush j (List.mem_cons_of_mem i hj))
      (by rw [List.length_append]; omega)
    rw [ExcState.run_cons, List.reverse_cons, List.flatMap_append, List.map_append, List.append_assoc]
    simpa only [List.flatMap_cons, List.flatMap_nil, List.append_nil] using hrest

/-- What `SAVE_CPU` leaves on the stack. -/
def savedFrame (s : ExcState) : List (BitVec 64) :=
  s.elr :: s.spsr :: (saveCpuPushes.reverse.flatMap ExcInstr.pushes).map s.x

/-- `SAVE_CPU` leaves its frame at the stack pointer. -/
theorem saveCpu_holds (s : ExcState) :
    (s.run saveCpu).sp = s.sp - 264 ∧ WordsAt (s.run saveCpu).mem (s.run saveCpu).sp (savedFrame s) := by
  have hpush : ∀ i ∈ saveCpuPushes, i.pushes ≠ [] := by decide
  have hpushed := (Pushed.refl s).run hpush (by decide)
  rw [List.append_nil] at hpushed
  rw [saveCpu, ExcState.run_append, savedFrame, ← hpushed.elr, ← hpushed.spsr]
  have hlen : ((saveCpuPushes.reverse.flatMap ExcInstr.pushes).map s.x).length = 31 := rfl
  have hsp : (s.run saveCpuPushes).sp - 8 - 8 = s.sp - 264 := by
    have hsp := hpushed.sp
    rw [hlen] at hsp
    bv_omega
  have hspsr := hpushed.holds.push (s.run saveCpuPushes).spsr (by rw [hlen]; decide)
  have helr := hspsr.push (s.run saveCpuPushes).elr (by rw [List.length_cons, hlen]; decide)
  generalize s.run saveCpuPushes = t at *
  exact ⟨hsp, helr⟩

/-! ### The restore -/

/-- The registers a pop takes from the stack, the one at the lower address first. -/
def ExcInstr.pops : ExcInstr → List (Fin 31)
  | .ldp a b => [a, b]
  | .ldr a => [a]
  | _ => []

/-- The registers with words loaded into them one after another. -/
def loadAll (x : Fin 31 → BitVec 64) : List (Fin 31) → List (BitVec 64) → Fin 31 → BitVec 64
  | a :: as, w :: ws => loadAll (update x a w) as ws
  | _, _ => x

/-- An `ldp` is an `ldr` of its first register and one of its second. -/
theorem exec_ldp (s : ExcState) (a b : Fin 31) :
    (ExcInstr.ldp a b).exec s = (ExcInstr.ldr b).exec ((ExcInstr.ldr a).exec s) := by
  have hsp : s.sp + 8 + 8 = s.sp + 16 := by bv_omega
  simp only [ExcInstr.exec, hsp]

theorem run_pops (s : ExcState) {is : List ExcInstr} (hpop : ∀ i ∈ is, i.pops ≠ []) :
    s.run is = s.run ((is.flatMap ExcInstr.pops).map .ldr) := by
  induction is generalizing s with
  | nil => rfl
  | cons i is ih =>
    have hrest (j : ExcInstr) (hj : j ∈ is) := hpop j (List.mem_cons_of_mem i hj)
    rw [List.flatMap_cons, List.map_append, ExcState.run_cons, ExcState.run_append, ih _ hrest]
    cases i with
    | ldp a b =>
      rw [exec_ldp]
      rfl
    | ldr a => rfl
    | stp a b => exact absurd rfl (hpop _ List.mem_cons_self)
    | str a => exact absurd rfl (hpop _ List.mem_cons_self)
    | mrs a r => exact absurd rfl (hpop _ List.mem_cons_self)
    | msr r a => exact absurd rfl (hpop _ List.mem_cons_self)

/-- Pops load what the stack holds. -/
theorem run_ldr {as : List (Fin 31)} (h : WordsAt s.mem s.sp ws) (hlen : ws.length = as.length) :
    s.run (as.map .ldr) = { s with x := loadAll s.x as ws
                                   sp := s.sp + BitVec.ofNat 64 (8 * ws.length) } := by
  induction as generalizing s ws with
  | nil =>
    obtain rfl := List.eq_nil_of_length_eq_zero hlen
    change s = { s with sp := s.sp + 0#64 }
    rw [BitVec.add_zero]
  | cons a as ih =>
    cases ws with
    | nil => cases hlen
    | cons w ws =>
      obtain ⟨hw, hws⟩ := h
      have hsp : s.sp + 8 + BitVec.ofNat 64 (8 * ws.length) =
          s.sp + BitVec.ofNat 64 (8 * (ws.length + 1)) := by bv_omega
      rw [List.map_cons, ExcState.run_cons]
      have hrest := ih (s := (ExcInstr.ldr a).exec s) hws (Nat.succ.inj hlen)
      rw [hrest]
      simp only [ExcInstr.exec, hw, hsp, loadAll, List.length_cons]

/-! ### The two together -/

/-- The register from which `SAVE_CPU` and `restore_cpu` fill a register. -/
def takenFrom (a : Fin 31) : Fin 31 :=
  if a = 30 then 30
  else if a = 16 ∨ a = 17 then 16
  else if a.val % 2 = 0 then a + 1 else a - 1

/-- The handler between the two keeps the stack pointer and the frame. -/
def FrameKept (s t : ExcState) : Prop :=
  t.sp = s.sp ∧ ∀ k < 33, t.mem (s.sp + BitVec.ofNat 64 (8 * k)) = s.mem (s.sp + BitVec.ofNat 64 (8 * k))

/-- The pops of `restore_cpu` fill every register. -/
theorem loadAll_saved (x y : Fin 31 → BitVec 64) :
    loadAll y (restoreCpuPops.flatMap ExcInstr.pops)
      ((saveCpuPushes.reverse.flatMap ExcInstr.pushes).map x) = fun a => x (takenFrom a) := by
  funext a
  fin_cases a <;> rfl

theorem takenFrom_odd (i : Fin 15) : takenFrom ⟨2 * i + 1, by omega⟩ = ⟨2 * i, by omega⟩ := by
  revert i
  decide

theorem takenFrom_cases (a : Fin 31) : takenFrom a = a ∨ ∃ i : Fin 15,
    a = ⟨2 * i, by omega⟩ ∧ takenFrom a = ⟨2 * i + 1, by omega⟩ ∨
      a = ⟨2 * i + 1, by omega⟩ ∧ takenFrom a = ⟨2 * i, by omega⟩ := by
  revert a
  decide

/-- `restore_cpu` on the frame that `SAVE_CPU` left. -/
theorem restoreCpu_eq (hkept : FrameKept (s.run saveCpu) t) :
    t.run restoreCpu = { s with x := fun a => s.x (takenFrom a), mem := t.mem } := by
  obtain ⟨hsp, hholds⟩ := saveCpu_holds s
  have hlen : (savedFrame s).length = 33 := rfl
  have hholds' : WordsAt t.mem t.sp (savedFrame s) := by
    rw [hkept.1]
    exact hholds.congr fun k hk => hkept.2 k hk
  obtain ⟨helr, hspsr, hregs⟩ := hholds'
  have hfirst : t.run [.ldr 0, .msr .elrEl2 0, .ldr 0, .msr .spsrEl2 0] =
      { t with x := update (update t.x 0 s.elr) 0 s.spsr, sp := t.sp + 8 + 8, spsr := s.spsr, elr := s.elr } := by
    simp only [ExcState.run, List.foldl_cons, List.foldl_nil, ExcInstr.exec, helr, hspsr, update_self]
  have hend : t.sp + 8 + 8 + BitVec.ofNat 64 (8 * 31) = s.sp := by
    rw [hkept.1, hsp]
    bv_omega
  rw [restoreCpu, ExcState.run_append, run_pops _ (by decide), hfirst, run_ldr hregs rfl]
  change ExcState.mk _ (t.sp + 8 + 8 + BitVec.ofNat 64 (8 * 31)) _ _ _ = _
  rw [hend, loadAll_saved]

/-- The interrupted code gets everything back. -/
def Restored (s t : ExcState) : Prop := t.x = s.x ∧ t.sp = s.sp ∧ t.spsr = s.spsr ∧ t.elr = s.elr

/-- The interrupted code gets everything back if and only if the two registers of each pair are alike. -/
theorem restoreCpu_restored_iff (hkept : FrameKept (s.run saveCpu) t) :
    Restored s (t.run restoreCpu) ↔
      ∀ i : Fin 15, s.x ⟨2 * i, by omega⟩ = s.x ⟨2 * i + 1, by omega⟩ := by
  rw [restoreCpu_eq hkept]
  constructor
  · rintro ⟨hx, -⟩ i
    have hodd : s.x (takenFrom ⟨2 * i + 1, by omega⟩) = s.x ⟨2 * i + 1, by omega⟩ := congrFun hx _
    rwa [takenFrom_odd] at hodd
  · intro hpairs
    refine ⟨?_, rfl, rfl, rfl⟩
    funext a
    rcases takenFrom_cases a with hsame | ⟨i, ⟨rfl, htaken⟩ | ⟨rfl, htaken⟩⟩
    · exact congrArg s.x hsame
    · exact (congrArg s.x htaken).trans (hpairs i).symm
    · exact (congrArg s.x htaken).trans (hpairs i)

/-- An interrupt of code that has the number of each register in it. -/
def ExcState.numbered : ExcState := ⟨fun a => a.val, 4096, 9, 0, fun _ => 0⟩

/-- The handler does nothing, and still `x0` comes back as `x1`. -/
theorem restoreCpu_exchanges :
    ¬∀ s t : ExcState, FrameKept (s.run saveCpu) t → Restored s (t.run restoreCpu) := by
  intro hall
  have hkept : FrameKept (ExcState.numbered.run saveCpu) (ExcState.numbered.run saveCpu) :=
    ⟨rfl, fun _ _ => rfl⟩
  have hx := congrFun (hall _ _ hkept).1 0
  rw [restoreCpu_eq hkept] at hx
  exact absurd hx (by decide)

/-- An interrupt of code that has the same in all registers. -/
def ExcState.alike : ExcState := ⟨fun _ => 7, 4096, 9, 0, fun _ => 0⟩

/-- It gets the registers back, also from a handler that used them. -/
theorem restoreCpu_restored_iff_alike :
    Restored .alike (ExcState.run { ExcState.alike.run saveCpu with x := fun _ => 5 } restoreCpu) := by
  have hkept : FrameKept (ExcState.alike.run saveCpu) { ExcState.alike.run saveCpu with x := fun _ => 5 } :=
    ⟨rfl, fun _ _ => rfl⟩
  exact (restoreCpu_restored_iff hkept).mpr fun _ => rfl

end Avisor
