import Avisor.Data.Types
import Avisor.Lib.Memory
import Avisor.Lib.Numerals

/-!
# `vsprintk`

`lib/printk.c` writes the log. A format is the list of its characters up to the terminator, and what is written
is the list of the characters behind `buf`. An argument takes a word of the `va_list`, of which `va_arg` reads the
low half if its type is narrower.
-/

namespace Avisor

/-- The value of a character constant. -/
def char (c : Char) : BitVec 8 := BitVec.ofNat 8 c.toNat

/-- `PRINT_TEXT_LEN`. -/
def printTextLen : Nat := 0x100

/-- `strnlen`. -/
def strnlen : List (BitVec 8) → Nat → Nat
  | [], _ => 0
  | _ :: _, 0 => 0
  | c :: s, n + 1 => if c = 0 then 0 else strnlen s n + 1

/-! ### The conversions -/

/-- The loop over the digits of `%x`. -/
def hexLoop (number : BitVec 64) (length lengthInBits : Nat) (zeroPadding keepZeros : Bool) (i : Nat)
    (str : List (BitVec 8)) : List (BitVec 8) :=
  if i < length then
    let byte := (number >>> (lengthInBits - (i + 1) * 4)).setWidth 8 &&& 0xF
    let keepZeros := if byte ≠ 0 ∨ i = length - 1 then true else keepZeros
    let str :=
      if keepZeros || zeroPadding then str ++ [if byte ≤ 9 then byte + 0x30 else byte + (0x61 - 0xa)] else str
    hexLoop number length lengthInBits zeroPadding keepZeros (i + 1) str
  else str
termination_by length - i

/-- The loop that takes `divisor_value` from `number` and counts in `sw_quotient_value`. It does not end for a
divisor of zero. -/
def quotientLoop (divisor : Nat) : Nat → Nat → Nat → Option (Nat × Nat)
  | 0, _, _ => none
  | fuel + 1, number, quotient =>
    if number ≥ divisor then quotientLoop divisor fuel (number - divisor) (quotient + 1)
    else some (number, quotient)

/-- The loop that computes the next divisor in `new_div_val`. -/
def newDivLoop (maxNumZeros j newDivVal : Nat) : Nat :=
  if j < maxNumZeros - 1 then newDivLoop maxNumZeros (j + 1) (newDivVal * 10) else newDivVal
termination_by maxNumZeros - 1 - j

/-- The loop over the digits of `%d` but the last one. -/
def decimalLoop (maxNumZeros : Nat) (zeroPadding keepZeros : Bool) (i number divisor : Nat)
    (str : List (BitVec 8)) : Option (Nat × List (BitVec 8)) :=
  if i < maxNumZeros then do
    let (number, quotient) ← quotientLoop divisor (number + 1) number 0
    let keepZeros := if quotient ≠ 0 then true else keepZeros
    let str := if keepZeros || zeroPadding then str ++ [BitVec.ofNat 8 (quotient + 0x30)] else str
    decimalLoop maxNumZeros zeroPadding keepZeros (i + 1) number (newDivLoop maxNumZeros i 1) str
  else some (number, str)
termination_by maxNumZeros - i

/-- The digits of `%d`, `%i` and `%u`. -/
def printDecimal (zeroPadding : Bool) (number : Nat) (str : List (BitVec 8)) : Option (List (BitVec 8)) := do
  let numOfDigits := 10
  let (number, str) ← decimalLoop (numOfDigits - 1) zeroPadding false 0 number 1000000000 str
  some (str ++ [BitVec.ofNat 8 (number + 0x30)])

/-- The loop of `%s`, with the `len` it ends with. -/
def stringLoop (mem : Memory) (arg len : Nat) (str : List (BitVec 8)) : List (BitVec 8) × Nat :=
  if mem arg ≠ 0 ∧ len < printTextLen then stringLoop mem (arg + 1) (len + 1) (str ++ [mem arg])
  else (str, len)
termination_by printTextLen - len

/-- What `vsprintk` works on: the characters behind `buf`, `len` and the arguments that are left. -/
structure PrintState where
  str : List (BitVec 8)
  len : Nat
  args : List (BitVec 64)

/-- `*str++`. -/
def PrintState.put (p : PrintState) (cs : List (BitVec 8)) : PrintState :=
  { p with str := p.str ++ cs }

/-- `va_arg`. -/
def PrintState.vaArg (p : PrintState) : Option (BitVec 64 × PrintState) :=
  match p.args with
  | [] => none
  | arg :: args => some (arg, { p with args := args })

/-- A `long`, or an `int` made one. -/
def argSigned (isLong : Bool) (arg : BitVec 64) : BitVec 64 :=
  if isLong then arg else (arg.setWidth 32).signExtend 64

/-- An `unsigned long`, or an `unsigned` made one. -/
def argUnsigned (isLong : Bool) (arg : BitVec 64) : BitVec 64 :=
  if isLong then arg else (arg.setWidth 32).setWidth 64

/-- `-(number_signed)` behind a minus sign, or `number_signed`; the negation is that of the machine. -/
def printSigned (isLong zeroPadding : Bool) (arg : BitVec 64) (str : List (BitVec 8)) :
    Option (List (BitVec 8)) :=
  let numberSigned := argSigned isLong arg
  if numberSigned.slt 0 then printDecimal zeroPadding (-numberSigned).toNat (str ++ [0x2d])
  else printDecimal zeroPadding numberSigned.toNat str

/-- The `switch` over the character of a conversion. -/
def printConversion (mem : Memory) (conversion : BitVec 8) (zeroPadding isLong : Bool) (p : PrintState) :
    Option PrintState :=
  if conversion = char 'x' then do
    let (arg, p) ← p.vaArg
    let number := argUnsigned isLong arg
    let length := if isLong then 16 else 8
    let lengthInBits := if isLong then 64 else 32
    some { p with str := hexLoop number length lengthInBits zeroPadding false 0 p.str }
  else if conversion = char 'u' then do
    let (arg, p) ← p.vaArg
    let str ← printDecimal zeroPadding (argUnsigned isLong arg).toNat p.str
    some { p with str := str }
  else if conversion = char 'i' ∨ conversion = char 'd' then do
    let (arg, p) ← p.vaArg
    let str ← printSigned isLong zeroPadding arg p.str
    some { p with str := str }
  else if conversion = char 's' then do
    let (arg, p) ← p.vaArg
    let (str, len) := stringLoop mem arg.toNat p.len p.str
    some { p with str := str, len := len }
  else if conversion = char 'c' then do
    let (arg, p) ← p.vaArg
    some (p.put [arg.setWidth 8])
  else if conversion = char '%' then some (p.put [conversion])
  else if conversion = char '\t' then some (p.put [char '%', conversion])
  else if conversion = char '\n' then some (p.put [char '%', char '\r', char '\n'])
  else some p

/-! ### The format -/

/-- A flag behind `%`, and the format behind it. -/
def takeFlag (flag : BitVec 8) : List (BitVec 8) → Bool × List (BitVec 8)
  | [] => (false, [])
  | c :: fmt => if c = flag then (true, fmt) else (false, c :: fmt)

theorem takeFlag_self (flag : BitVec 8) (fmt : List (BitVec 8)) : takeFlag flag (flag :: fmt) = (true, fmt) :=
  if_pos rfl

theorem takeFlag_of_ne {flag c : BitVec 8} (fmt : List (BitVec 8)) (h : c ≠ flag) :
    takeFlag flag (c :: fmt) = (false, c :: fmt) :=
  if_neg h

theorem takeFlag_length (flag : BitVec 8) (fmt : List (BitVec 8)) :
    (takeFlag flag fmt).2.length ≤ fmt.length := by
  cases fmt with
  | nil => exact Nat.le_refl 0
  | cons c fmt =>
    rw [takeFlag]
    split
    · exact Nat.le_succ _
    · exact Nat.le_refl _

/-- The end of a round of `vsprintk`. -/
def printBlank (c : BitVec 8) (p : PrintState) : PrintState :=
  let p := if c = char '\n' then p.put [char '\r', char '\n'] else p
  if c = char '\t' then p.put [c] else p

/-- The loop of `vsprintk`, with the format it ends at. A `%` at the end of the format takes it past the
terminator. -/
def vsprintkLoop (mem : Memory) (fmt : List (BitVec 8)) (p : PrintState) :
    Option (PrintState × List (BitVec 8)) :=
  match fmt with
  | [] => some (p, [])
  | c :: rest =>
    if c = 0 then some (p, c :: rest)
    else if c ≠ char '%' ∧ c ≠ char '\n' ∧ c ≠ char '\t' then vsprintkLoop mem rest (p.put [c])
    else if c = char '%' then
      let zero := takeFlag (char '0') rest
      let long := takeFlag (char 'l') zero.2
      match _hrest : long.2 with
      | [] => none
      | conversion :: rest' =>
        if conversion = 0 then none
        else do
          let p ← printConversion mem conversion zero.1 long.1 p
          vsprintkLoop mem rest' (printBlank conversion p)
    else vsprintkLoop mem rest (printBlank c p)
termination_by fmt.length
decreasing_by
  · exact Nat.lt_succ_self _
  · have hzero := takeFlag_length (char '0') rest
    have hlong := takeFlag_length (char 'l') (takeFlag (char '0') rest).2
    rw [_hrest] at hlong
    simp only [List.length_cons] at *
    omega
  · exact Nat.lt_succ_self _

/-- `vsprintk`: the characters it leaves in `buf`, and its result. -/
def vsprintk (mem : Memory) (fmt : List (BitVec 8)) (args : List (BitVec 64)) :
    Option (List (BitVec 8) × Nat) := do
  let (p, fmt) ← vsprintkLoop mem fmt { str := [], len := strnlen fmt printTextLen, args := args }
  some (p.str ++ [0], strnlen fmt printTextLen)

end Avisor
