import Mathlib.Algebra.Group.Nat.Defs

/-!
# Sizes and pages

The numbers of `core/inc/types.h`, `core/inc/util.h` and `core/inc/mem_cfg.h`. A `size_t` is a `Nat`,
and where the source lets it wrap the model takes the remainder by `sizeT`.
-/

namespace Avisor

/-- The number of values of a `size_t`. -/
def sizeT : Nat := 2 ^ 64

/-- `(size_t)-1`. -/
def sizeMax : Nat := 2 ^ 64 - 1

/-- `INT_MAX`. -/
def intMax : Nat := 2 ^ 31 - 1

/-- `bit64_extract`. -/
def bit64Extract (word : BitVec 64) (off len : Nat) : BitVec 64 :=
  (word >>> off) &&& ((1#64 <<< len) - 1)

/-- `PAGE_SIZE`. -/
def pageSize : Nat := 4096

/-- `ALIGN`. -/
def align (val unit : Nat) : Nat :=
  (val + unit - 1) % sizeT / unit * unit

/-- `NUM_PAGES`. -/
def numPages (size : Nat) : Nat :=
  align size pageSize / pageSize

/-- Less than a page more than the size is counted. -/
theorem numPages_le (size : Nat) : numPages size * pageSize ≤ size + pageSize := by
  have hmod : (size + pageSize - 1) % sizeT ≤ size + pageSize - 1 := Nat.mod_le _ _
  simp only [numPages, align, pageSize] at *
  omega

end Avisor
