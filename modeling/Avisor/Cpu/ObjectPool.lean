import Avisor.Cpu.Messages
import Avisor.Data.BitmapRanges
import Avisor.Data.BitmapSearch
import Avisor.Lib.Machine
import Avisor.Mem.RootPool

/-!
# Object pools by address

`objpool_alloc` and `objpool_free` of `core/objpool.c`, with the pointers they return and take. What
`objpool_free` takes for an object also is the address behind the last one: its bit is the first one
behind the pool's bits.
-/

namespace Avisor

open Function

/-- `struct objpool`, without its bitmap. The objects lie in memory, and no array has more bytes than a
`ptrdiff_t` counts. -/
structure ObjPool where
  pool : Nat
  objsize : Nat
  num : Nat
  objsize_pos : 1 ≤ objsize
  size_lt : objsize * num < 2 ^ 63
  fits : pool + objsize * num ≤ sizeT

namespace ObjPool

variable (op : ObjPool)

/-- The address of object `k`. -/
def obj (k : Nat) : Nat := op.pool + op.objsize * k

/-- `objpool_alloc`; `none` is `NULL`. -/
def objpoolAlloc (bitmap : Bitmap) : Option Nat × Bitmap :=
  let n := bitmapFindNth bitmap op.num 1 0 false
  -- `n >= 0`, for an `ssize_t`
  if n < 2 ^ 63 then (some ((op.pool + op.objsize * n) % sizeT), bitmapSet bitmap n) else (none, bitmap)

/-- The object that `objpool_free` takes a pointer for, or `none` for a stray one. -/
def objpoolIndex (ptr : Nat) : Option Nat :=
  let inPool := rangeInRange ptr 0 op.pool (op.objsize * op.num % sizeT)
  let aligned := (ptr + sizeT - op.pool) % sizeT % op.objsize = 0
  if inPool ∧ aligned then some ((ptr + sizeT - op.pool) % sizeT / op.objsize) else none

/-- `objpool_free`. -/
def objpoolFree (bitmap : Bitmap) (ptr : Nat) : Bitmap :=
  match op.objpoolIndex ptr with
  | some n => bitmapClear bitmap n
  | none => bitmap

/-- The granule of the bitmap that `objpool_free` writes. -/
def objpoolFreeWrites (ptr : Nat) : Option Nat := (op.objpoolIndex ptr).map (· / granuleLen)

/-- The bitmap of a pool, and which of its objects are live: handed out and not given back since. -/
structure State where
  bitmap : Bitmap
  live : Nat → Bool

/-- What is called. -/
inductive Call where
  | alloc
  | free (ptr : Nat)
  deriving DecidableEq

/-- One call. A pointer is a 64-bit address. -/
def call (s : State) : Call → Option State
  | .alloc => some
      { bitmap := (op.objpoolAlloc s.bitmap).2
        live := fun k => s.live k || decide ((op.objpoolAlloc s.bitmap).1 = some (op.obj k)) }
  | .free ptr =>
    if ptr < sizeT then some
      { bitmap := op.objpoolFree s.bitmap ptr
        live := fun k => s.live k && !decide (ptr = op.obj k) }
    else none

/-- The pool in use. `OBJPOOL_ALLOC` leaves the map's granules zero. -/
def machine : Machine State Call where
  Init := fun s => (∀ i < bitmapSize op.num * granuleLen, bitmapGet s.bitmap i = false) ∧
    ∀ k, s.live k = false
  step := op.call

/-- What a call is for. An allocation fails just if all objects are live, and else hands out one that is
not. To free an object's address clears the object's bit and no other; any other pointer changes
nothing, and no granule is written that is not the map's. -/
def Meets (s : State) : Call → Prop
  | .alloc => ((op.objpoolAlloc s.bitmap).1 = none ↔ ∀ k < op.num, s.live k = true) ∧
      ∀ ptr, (op.objpoolAlloc s.bitmap).1 = some ptr →
        ∃ k < op.num, ptr = op.obj k ∧ s.live k = false
  | .free ptr => (∀ k < op.num, ptr = op.obj k → ∀ i,
        bitmapGet (op.objpoolFree s.bitmap ptr) i = (!decide (i = k) && bitmapGet s.bitmap i)) ∧
      ((∀ k < op.num, ptr ≠ op.obj k) → op.objpoolFree s.bitmap ptr = s.bitmap) ∧
      ∀ w, op.objpoolFreeWrites ptr = some w → w < bitmapSize op.num

variable {op} {s t : State} {bitmap : Bitmap} {ptr k n : Nat}

/-! ### Addresses -/

theorem obj_inj : op.obj k = op.obj n ↔ k = n := by
  have hpos := op.objsize_pos
  rw [obj, obj, Nat.add_left_cancel_iff, Nat.mul_right_inj (by omega)]

theorem num_lt : op.num < 2 ^ 63 :=
  Nat.lt_of_le_of_lt (Nat.le_mul_of_pos_left op.num op.objsize_pos) op.size_lt

theorem obj_le (hk : k ≤ n) : op.obj k ≤ op.obj n :=
  Nat.add_le_add_left (Nat.mul_le_mul_left op.objsize hk) op.pool

theorem rangeLimit_zero (hptr : ptr < sizeT) : rangeLimit ptr 0 = ptr := by
  rw [rangeLimit, Nat.add_zero, Nat.mod_eq_of_lt hptr, if_neg (Nat.lt_irrefl ptr)]

/-- A range that ends at the top of the address space is one that overflows. -/
theorem le_rangeLimit_iff {base size : Nat} (hptr : ptr < sizeT) (hsize : size < sizeT)
    (hfits : base + size ≤ sizeT) : ptr ≤ rangeLimit base size ↔ ptr ≤ base + size := by
  unfold rangeLimit
  split <;> simp only [sizeT, sizeMax] at * <;> omega

/-- The pointers that are not stray: the addresses of the objects and the one behind them. -/
theorem objpoolIndex_eq_some_iff (hptr : ptr < sizeT) :
    op.objpoolIndex ptr = some n ↔ ptr = op.obj n ∧ n ≤ op.num := by
  have hpos := op.objsize_pos
  have hsize := op.size_lt
  have hfits := op.fits
  have hrange : rangeInRange ptr 0 op.pool (op.objsize * op.num % sizeT) = true ↔
      op.pool ≤ ptr ∧ ptr ≤ op.obj op.num := by
    have hlt : op.objsize * op.num < sizeT := Nat.lt_trans hsize (by decide)
    rw [rangeInRange, decide_eq_true_eq, rangeLimit_zero hptr, Nat.mod_eq_of_lt hlt,
      le_rangeLimit_iff hptr hlt hfits]
    rfl
  have hdiff (hle : op.pool ≤ ptr) : (ptr + sizeT - op.pool) % sizeT = ptr - op.pool := by
    simp only [sizeT] at *
    omega
  unfold objpoolIndex
  simp only [hrange]
  constructor
  · intro h
    obtain ⟨⟨⟨hle, hend⟩, haligned⟩, hn⟩ := Option.ite_none_right_eq_some.mp h
    rw [hdiff hle] at haligned hn
    have hmul : op.objsize * n = ptr - op.pool := by
      rw [← Option.some.inj hn]
      exact Nat.mul_div_cancel' (Nat.dvd_of_mod_eq_zero haligned)
    have haddr : ptr = op.obj n := by
      rw [obj]
      omega
    refine ⟨haddr, ?_⟩
    rw [haddr] at hend
    exact Nat.le_of_mul_le_mul_left (Nat.le_of_add_le_add_left hend) hpos
  · rintro ⟨rfl, hn⟩
    have hle : op.pool ≤ op.obj n := Nat.le_add_right _ _
    have hoff : op.obj n - op.pool = op.objsize * n := Nat.add_sub_cancel_left ..
    rw [hdiff hle, hoff, Nat.mul_mod_right, Nat.mul_div_cancel_left n hpos, if_pos]
    exact ⟨⟨hle, obj_le hn⟩, rfl⟩

/-- `objpool_alloc` by address is the one by index. -/
theorem objpoolAlloc_eq (bitmap : Bitmap) :
    op.objpoolAlloc bitmap = match Avisor.objpoolAlloc bitmap op.num with
      | some (n, bitmap') => (some (op.obj n), bitmap')
      | none => (none, bitmap) := by
  have hnum := op.num_lt
  have hsize := op.size_lt
  have hfits := op.fits
  unfold objpoolAlloc Avisor.objpoolAlloc
  dsimp only
  rcases bitmapFindNth_one bitmap op.num 0 false with ⟨hmax, -⟩ | ⟨n, hn, -, hlt, -⟩
  · rw [hmax, if_neg (by decide), if_pos rfl]
  · have hend : op.obj n < op.obj op.num := by
      rw [obj, obj]
      exact Nat.add_lt_add_left (Nat.mul_lt_mul_of_pos_left hlt op.objsize_pos) op.pool
    have haddr : (op.pool + op.objsize * n) % sizeT = op.obj n :=
      Nat.mod_eq_of_lt (Nat.lt_of_lt_of_le hend hfits)
    rw [hn, if_pos (by omega), if_neg (by simp only [sizeMax]; omega), haddr]

/-- `objpool_free` by address is the one by index. -/
theorem objpoolFree_obj (bitmap : Bitmap) (hn : n ≤ op.num) (haddr : op.obj n < sizeT) :
    op.objpoolFree bitmap (op.obj n) = Avisor.objpoolFree bitmap n := by
  rw [objpoolFree, (objpoolIndex_eq_some_iff haddr).mpr ⟨rfl, hn⟩]
  rfl

/-! ### The calls -/

/-- The bitmap says which objects are live, and is clear behind the pool's bits. -/
structure Kept (op : ObjPool) (s : State) : Prop where
  live : ∀ k < op.num, bitmapGet s.bitmap k = s.live k
  behind : ∀ i, op.num ≤ i → i < bitmapSize op.num * granuleLen → bitmapGet s.bitmap i = false

/-- What `objpool_alloc` does to a pool. -/
theorem objpoolAlloc_cases (hs : op.Kept s) :
    (op.objpoolAlloc s.bitmap = (none, s.bitmap) ∧ ∀ k < op.num, s.live k = true) ∨
    ∃ k < op.num, op.objpoolAlloc s.bitmap = (some (op.obj k), bitmapSet s.bitmap k) ∧
      s.live k = false := by
  have hnum : op.num < sizeMax := Nat.lt_trans op.num_lt (by decide)
  rw [objpoolAlloc_eq]
  rcases objpoolAlloc_spec s.bitmap hnum with ⟨hnone, hall⟩ | ⟨k, hk, hlt, hfree⟩
  · rw [hnone]
    exact .inl ⟨rfl, fun k hk => (hs.live k hk).symm.trans (hall k hk)⟩
  · rw [hk]
    exact .inr ⟨k, hlt, rfl, (hs.live k hlt).symm.trans hfree⟩

/-- What `objpool_free` does to a pool: a stray pointer does nothing, the others clear a bit. -/
theorem objpoolFree_cases (op : ObjPool) (bitmap : Bitmap) (hptr : ptr < sizeT) :
    ((∀ k ≤ op.num, ptr ≠ op.obj k) ∧ op.objpoolFree bitmap ptr = bitmap ∧
      op.objpoolFreeWrites ptr = none) ∨
    ∃ k ≤ op.num, ptr = op.obj k ∧ op.objpoolFree bitmap ptr = bitmapClear bitmap k ∧
      op.objpoolFreeWrites ptr = some (k / granuleLen) := by
  unfold objpoolFree objpoolFreeWrites
  cases hindex : op.objpoolIndex ptr with
  | none =>
    refine .inl ⟨?_, rfl, rfl⟩
    intro k hk haddr
    rw [(objpoolIndex_eq_some_iff hptr).mpr ⟨haddr, hk⟩] at hindex
    cases hindex
  | some n =>
    obtain ⟨haddr, hn⟩ := (objpoolIndex_eq_some_iff hptr).mp hindex
    exact .inr ⟨n, hn, haddr, rfl, rfl⟩

theorem Kept.init (hinit : op.machine.Init s) : op.Kept s where
  live := fun k hk => by
    rw [hinit.1 k (by have := bitmapSize_mul op.num; omega), hinit.2 k]
  behind := fun i _ hi => hinit.1 i hi

/-- A call of `objpool_free`, and the state after it. -/
theorem call_free (hstep : op.machine.step s (.free ptr) = some t) : ptr < sizeT ∧
    t = { bitmap := op.objpoolFree s.bitmap ptr, live := fun k => s.live k && !decide (ptr = op.obj k) } := by
  obtain ⟨hptr, ht⟩ := Option.ite_none_right_eq_some.mp hstep
  exact ⟨hptr, (Option.some.inj ht).symm⟩

theorem Kept.step (c : Call) (hs : op.Kept s) (hstep : op.machine.step s c = some t) : op.Kept t := by
  cases c with
  | alloc =>
    obtain rfl := Option.some.inj hstep
    rcases objpoolAlloc_cases hs with ⟨hnone, -⟩ | ⟨n, hn, halloc, -⟩
    · rw [hnone]
      refine ⟨fun k hk => ?_, hs.behind⟩
      simpa using hs.live k hk
    · rw [halloc]
      constructor
      · intro k hk
        simp only [bitmapGet_set, hs.live k hk, Option.some.injEq, obj_inj]
        rw [Bool.or_comm, decide_eq_decide.mpr eq_comm]
      · intro i hi hend
        have hne : i ≠ n := by omega
        simp only [bitmapGet_set, hs.behind i hi hend, hne, decide_false, Bool.false_or]
  | free ptr =>
    obtain ⟨hptr, rfl⟩ := call_free hstep
    rcases op.objpoolFree_cases s.bitmap hptr with ⟨hstray, hfree, -⟩ | ⟨n, -, rfl, hfree, -⟩
    · rw [hfree]
      refine ⟨fun k hk => ?_, hs.behind⟩
      simpa only [decide_eq_false (hstray k (Nat.le_of_lt hk)), Bool.not_false, Bool.and_true] using
        hs.live k hk
    · rw [hfree]
      constructor
      · intro k hk
        simp only [bitmapGet_clear, hs.live k hk, obj_inj]
        rw [Bool.and_comm, decide_eq_decide.mpr eq_comm]
      · intro i hi hend
        simp only [bitmapGet_clear, hs.behind i hi hend, Bool.and_false]

theorem alloc_meets (hs : op.Kept s) : op.Meets s .alloc := by
  rcases objpoolAlloc_cases hs with ⟨hnone, hall⟩ | ⟨n, hn, halloc, hfree⟩
  · rw [Meets, hnone]
    exact ⟨iff_of_true rfl hall, fun _ h => absurd h (Option.some_ne_none _).symm⟩
  · rw [Meets, halloc]
    have hnotAll : ¬∀ k < op.num, s.live k = true := fun hall =>
      Bool.false_ne_true (hfree.symm.trans (hall n hn))
    refine ⟨iff_of_false (Option.some_ne_none _) hnotAll, fun ptr hptr => ⟨n, hn, ?_, hfree⟩⟩
    exact (Option.some.inj hptr).symm

/-- To free a pointer does what it is for, unless it is the address behind the objects and the bit behind
theirs is in no granule of the map. -/
theorem free_meets_iff (hs : op.Kept s) (hptr : ptr < sizeT) :
    op.Meets s (.free ptr) ↔ ¬(ptr = op.obj op.num ∧ op.num % granuleLen = 0) := by
  have hsize := bitmapSize_mul op.num
  rcases op.objpoolFree_cases s.bitmap hptr with ⟨hstray, hfree, hwrites⟩ | ⟨n, hn, rfl, hfree, hwrites⟩
  · have hend : ¬(ptr = op.obj op.num ∧ op.num % granuleLen = 0) :=
      fun h => hstray op.num (Nat.le_refl _) h.1
    rw [Meets, hfree, hwrites]
    refine iff_of_true ⟨fun k hk haddr => absurd haddr (hstray k (Nat.le_of_lt hk)), fun _ => rfl, ?_⟩ hend
    exact fun _ h => absurd h (Option.some_ne_none _).symm
  · rw [Meets, hfree, hwrites, obj_inj]
    by_cases hlt : n < op.num
    · have hend : ¬(n = op.num ∧ op.num % granuleLen = 0) := fun h => Nat.ne_of_lt hlt h.1
      refine iff_of_true ⟨?_, fun hstray => absurd rfl (hstray n hlt), ?_⟩ hend
      · intro k hk haddr i
        rw [obj_inj.mp haddr, bitmapGet_clear]
      · intro w hw
        rw [← Option.some.inj hw]
        exact granule_lt_of_lt hlt
    · obtain rfl : n = op.num := by omega
      have hne (k : Nat) (hk : k < op.num) : op.obj op.num ≠ op.obj k :=
        fun haddr => Nat.ne_of_gt hk (obj_inj.mp haddr)
      have hin : op.num / granuleLen < bitmapSize op.num ↔ ¬op.num % granuleLen = 0 := by
        simp only [granuleLen] at *
        omega
      constructor
      · rintro ⟨-, -, hwrite⟩ ⟨-, hzero⟩
        exact hin.mp (hwrite _ rfl) hzero
      · intro hend
        have hzero : ¬op.num % granuleLen = 0 := fun h => hend ⟨rfl, h⟩
        refine ⟨fun k hk haddr => absurd haddr (hne k hk), fun _ => ?_, ?_⟩
        · apply bitmap_ext
          intro i
          rw [bitmapGet_clear]
          by_cases hi : i = op.num
          · have hclear := hs.behind i (Nat.le_of_eq hi.symm)
              (by rw [hi]; simp only [granuleLen] at *; omega)
            rw [hclear, Bool.and_false]
          · rw [decide_eq_false hi, Bool.not_false, Bool.true_and]
        · intro w hw
          rw [← Option.some.inj hw]
          exact hin.mpr hzero

theorem calls_meet_iff {calls : List Call} (hs : op.Kept s) (hrun : op.machine.Run s calls t) :
    op.machine.EachStep op.Meets s calls ↔
      (op.num % granuleLen = 0 → .free (op.obj op.num) ∉ calls) := by
  induction hrun with
  | nil => exact iff_of_true trivial fun _ => List.not_mem_nil
  | @cons s t u c calls hstep hrest ih =>
    have hcall : op.Meets s c ↔ (op.num % granuleLen = 0 → c ≠ .free (op.obj op.num)) := by
      cases c with
      | alloc => exact iff_of_true (alloc_meets hs) fun _ => Call.noConfusion
      | free ptr =>
        rw [free_meets_iff hs (call_free hstep).1, ne_eq, Call.free.injEq]
        tauto
    have hsteps : op.machine.EachStep op.Meets s (c :: calls) ↔
        op.Meets s c ∧ op.machine.EachStep op.Meets t calls :=
      ⟨fun h => h t hstep, fun h => Machine.eachStep_cons hstep h.1 h.2⟩
    rw [hsteps, hcall, ih (hs.step c hstep), List.mem_cons, not_or, ← imp_and, ne_comm]

/-- From the start on, the calls do what they are for if and only if the address behind the objects is not
freed, or the pool's bits end in the middle of a granule. -/
theorem discipline_iff {calls : List Call} (hinit : op.machine.Init s)
    (hrun : op.machine.Run s calls t) :
    op.machine.EachStep op.Meets s calls ↔
      (op.num % granuleLen = 0 → .free (op.obj op.num) ∉ calls) :=
  calls_meet_iff (Kept.init hinit) hrun

/-- A pool of 128 objects of 32 bytes. -/
def pool128 : ObjPool where
  pool := 4096
  objsize := 32
  num := 128
  objsize_pos := by decide
  size_lt := by decide
  fits := by decide

/-- Nothing is live. -/
def State.empty : State := ⟨fun _ => 0, fun _ => false⟩

theorem init_empty (op : ObjPool) : op.machine.Init .empty := by
  refine ⟨fun i _ => ?_, fun _ => rfl⟩
  rw [bitmapGet_eq]
  exact BitVec.getLsbD_zero

/-- An object is handed out and given back. -/
theorem discipline_iff_allocFree : pool128.machine.EachStep pool128.Meets .empty [.alloc, .free 4096] :=
  (discipline_iff (init_empty pool128) (.cons rfl (.cons rfl (.nil _)))).mpr (by decide)

/-- To free the address behind the 128 objects writes the granule behind the map. -/
theorem free_behind_writes : ¬∀ (op : ObjPool) (s t : State) (calls : List Call), op.machine.Init s →
    op.machine.Run s calls t → op.machine.EachStep op.Meets s calls := by
  intro hall
  have hmeets := hall pool128 .empty _ [.free 8192] (init_empty _) (.cons rfl (.nil _))
  have hwrites := (hmeets _ rfl).1.2.2 4 (by decide)
  exact absurd hwrites (by decide)

end ObjPool

end Avisor
