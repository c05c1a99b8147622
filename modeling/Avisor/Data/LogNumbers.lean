import Avisor.Data.Printk

/-!
# Numbers in the log

A log text is made of characters and of conversions of numbers, each with its argument. Hexadecimal numbers and
decimal numbers of at most ten digits are written as their numerals; `%ld` and `%lu` start from the divisor of the
shorter types and write ten characters for longer ones.
-/

namespace Avisor

open Numeral

/-! ### What is to be written -/

/-- A conversion of a number. -/
inductive NumberKind
  | d | i | u | x
  deriving DecidableEq

/-- A conversion of a number, with or without `l`. -/
structure NumberConversion where
  kind : NumberKind
  isLong : Bool

/-- The character of the conversion. -/
def NumberKind.char : NumberKind → BitVec 8
  | .d => Avisor.char 'd'
  | .i => Avisor.char 'i'
  | .u => Avisor.char 'u'
  | .x => Avisor.char 'x'

namespace NumberConversion

/-- The conversion in a format. -/
def format (conversion : NumberConversion) : List (BitVec 8) :=
  char '%' :: ((if conversion.isLong then [char 'l'] else []) ++ [conversion.kind.char])

/-- The value of its argument; a type of 32 bits takes the low half of the word. -/
def value (conversion : NumberConversion) (arg : BitVec 64) : Int :=
  match conversion.kind with
  | .d | .i => if conversion.isLong then arg.toInt else (arg.setWidth 32).toInt
  | .u | .x => if conversion.isLong then arg.toNat else (arg.setWidth 32).toNat

/-- The minus sign of a negative number. -/
def sign (value : Int) : List (BitVec 8) :=
  if value < 0 then [char '-'] else []

/-- The numeral of its argument. -/
def numeral (conversion : NumberConversion) (arg : BitVec 64) : List (BitVec 8) :=
  sign (conversion.value arg) ++
    (Nat.toDigits (if conversion.kind = .x then 16 else 10) (conversion.value arg).natAbs).map char

end NumberConversion

/-- A piece of a log text: a character, neither NUL nor `%`, or a number. -/
inductive LogPiece
  | text (c : BitVec 8) (nonzero : c ≠ 0) (plain : c ≠ char '%')
  | number (conversion : NumberConversion) (arg : BitVec 64)

namespace LogPiece

/-- The piece in the format. -/
def format : LogPiece → List (BitVec 8)
  | text c _ _ => [c]
  | number conversion _ => conversion.format

/-- Its argument. -/
def args : LogPiece → List (BitVec 64)
  | text _ _ _ => []
  | number _ arg => [arg]

/-- The line end gets a carriage return. -/
def textOf (c : BitVec 8) : List (BitVec 8) :=
  if c = char '\n' then [char '\r', char '\n'] else [c]

/-- What is to be written for it. -/
def rendered : LogPiece → List (BitVec 8)
  | text c _ _ => textOf c
  | number conversion arg => conversion.numeral arg

end LogPiece

variable {mem : Memory} {number : Nat} {str : List (BitVec 8)} {zeroPadding keepZeros : Bool}

/-! ### The loops -/

theorem quotientLoop_eq {divisor fuel : Nat} (number quotient : Nat) (hdivisor : 0 < divisor) (hfuel : number < fuel) :
    quotientLoop divisor fuel number quotient = some (number % divisor, quotient + number / divisor) := by
  induction fuel generalizing number quotient with
  | zero => exact absurd hfuel (Nat.not_lt_zero number)
  | succ fuel ih =>
    rw [quotientLoop]
    split
    · rename_i hle
      rw [ih (number - divisor) (quotient + 1) (by omega), ← Nat.mod_eq_sub_mod hle, Nat.div_eq_sub_div hdivisor hle]
      congr 2
      omega
    · rename_i hlt
      have hlt := Nat.lt_of_not_le hlt
      rw [Nat.mod_eq_of_lt hlt, Nat.div_eq_of_lt hlt]
      rfl

theorem newDivLoop_eq (maxNumZeros j newDivVal : Nat) :
    newDivLoop maxNumZeros j newDivVal = newDivVal * 10 ^ (maxNumZeros - 1 - j) := by
  generalize hk : maxNumZeros - 1 - j = k
  induction k generalizing j newDivVal with
  | zero =>
    rw [newDivLoop, if_neg (by omega), Nat.pow_zero, Nat.mul_one]
  | succ k ih =>
    rw [newDivLoop, if_pos (by omega), ih (j + 1) _ (by omega), Nat.pow_succ, Nat.mul_assoc,
      Nat.mul_comm 10]

/-- The character that is written for a digit. -/
def digitByte (digit : Nat) : BitVec 8 := BitVec.ofNat 8 (digit + 0x30)

theorem digitByte_eq {digit : Nat} (h : digit < 10) : digitByte digit = char (Nat.digitChar digit) := by
  unfold digitByte char
  rw [Nat.toNat_digitChar_of_lt_ten h, Nat.add_comm]

/-- The divisor of a round is that of its place. -/
theorem decimalLoop_eq {maxNumZeros i k : Nat} (keepZeros : Bool) (hk : i + k = maxNumZeros) :
    ((decimalLoop maxNumZeros zeroPadding keepZeros i number (10 ^ k) str).bind fun p =>
      some (p.2 ++ [digitByte p.1])) =
        some (str ++ (fromTop 10 k number (keepZeros || zeroPadding)).map digitByte) := by
  induction k generalizing i number keepZeros str with
  | zero =>
    rw [decimalLoop, if_neg (by omega)]
    rfl
  | succ k ih =>
    have hquotient := quotientLoop_eq number 0 (Nat.pow_pos (n := k + 1) (Nat.succ_pos 9))
      (Nat.lt_succ_self number)
    have hdivisor : newDivLoop maxNumZeros i 1 = 10 ^ k := by
      rw [newDivLoop_eq, Nat.one_mul]
      congr 1
      omega
    rw [decimalLoop, if_pos (by omega), Option.bind_eq_bind, hquotient, Option.bind_some, hdivisor]
    dsimp only
    rw [ih _ (by omega), Nat.zero_add, fromTop]
    generalize number / 10 ^ (k + 1) = digit
    generalize number % 10 ^ (k + 1) = rest
    by_cases hdigit : digit = 0
    · -- a zero is written like the zeros behind it
      subst hdigit
      cases hshown : keepZeros || zeroPadding with
      | true => simp [hshown, digitByte]
      | false => simp [hshown]
    · simp [hdigit, digitByte]

theorem printDecimal_eq :
    printDecimal zeroPadding number str = some (str ++ (fromTop 10 9 number zeroPadding).map digitByte) :=
  decimalLoop_eq false (Nat.zero_add 9)

/-- A hexadecimal digit of the number. -/
theorem hexByte_toNat (number : BitVec 64) (k : Nat) :
    ((number >>> (4 * k)).setWidth 8 &&& 0xF).toNat = number.toNat / 16 ^ k % 16 := by
  have hmask : (0xF : BitVec 8).toNat = 2 ^ 4 - 1 := rfl
  have hpow : 2 ^ (4 * k) = 16 ^ k := Nat.pow_mul 2 4 k
  rw [BitVec.toNat_and, hmask, Nat.and_two_pow_sub_one_eq_mod, BitVec.toNat_setWidth, BitVec.toNat_ushiftRight,
    Nat.shiftRight_eq_div_pow, hpow]
  exact Nat.mod_mod_of_dvd _ (by decide)

/-- The character that is written for it. -/
theorem hexByte_eq {byte : BitVec 8} {digit : Nat} (hbyte : byte.toNat = digit) (hdigit : digit < 16) :
    (if byte ≤ 9 then byte + 0x30 else byte + (0x61 - 0xa)) = char (Nat.digitChar digit) := by
  have hall : ∀ d : Fin 16, (if BitVec.ofNat 8 d ≤ 9 then BitVec.ofNat 8 d + 0x30
      else BitVec.ofNat 8 d + (0x61 - 0xa)) = char (Nat.digitChar d) := by decide
  obtain rfl : byte = BitVec.ofNat 8 digit := by
    rw [← hbyte, BitVec.ofNat_toNat, BitVec.setWidth_eq]
  exact hall ⟨digit, hdigit⟩

/-- A round writes the digit of its place, or leaves a zero out. -/
theorem hexLoop_round {number : BitVec 64} {length i k : Nat} (hk : i + (k + 1) = length) :
    hexLoop number length (4 * length) zeroPadding keepZeros i str =
      let digit := number.toNat / 16 ^ k % 16
      let keepZeros := if digit ≠ 0 ∨ k = 0 then true else keepZeros
      hexLoop number length (4 * length) zeroPadding keepZeros (i + 1)
        (if keepZeros || zeroPadding then str ++ [char (Nat.digitChar digit)] else str) := by
  have hshift : 4 * length - (i + 1) * 4 = 4 * k := by omega
  have hlast : i = length - 1 ↔ k = 0 := by omega
  rw [hexLoop, if_pos (by omega), hshift]
  have hbyte := hexByte_toNat number k
  generalize (number >>> (4 * k)).setWidth 8 &&& 0xF = byte at hbyte
  have hzero : byte ≠ 0 ↔ number.toNat / 16 ^ k % 16 ≠ 0 := by
    rw [← hbyte, ne_eq, ne_eq, ← BitVec.toNat_inj]
    rfl
  dsimp only
  simp only [hexByte_eq hbyte (Nat.mod_lt _ (by decide)), hzero, hlast]

/-- The last `k + 1` digits are written. -/
theorem hexLoop_eq {number : BitVec 64} {length i k : Nat} (hk : i + (k + 1) = length) :
    hexLoop number length (4 * length) zeroPadding keepZeros i str =
      str ++ (fromTop 16 k (number.toNat % 16 ^ (k + 1)) (keepZeros || zeroPadding)).map
        fun digit => char (Nat.digitChar digit) := by
  rw [hexLoop_round hk]
  induction k generalizing i keepZeros str with
  | zero =>
    rw [hexLoop, if_neg (by omega)]
    simp [fromTop]
  | succ k ih =>
    have htop : number.toNat % 16 ^ (k + 2) / 16 ^ (k + 1) = number.toNat / 16 ^ (k + 1) % 16 := by
      rw [Nat.pow_succ 16 (k + 1), Nat.mod_mul_right_div_self]
    have hrest : number.toNat % 16 ^ (k + 2) % 16 ^ (k + 1) = number.toNat % 16 ^ (k + 1) := by
      rw [Nat.pow_succ 16 (k + 1), Nat.mod_mul_right_mod]
    dsimp only
    rw [hexLoop_round (k := k) (by omega), ih (by omega), fromTop, htop, hrest]
    generalize number.toNat / 16 ^ (k + 1) % 16 = digit
    generalize number.toNat % 16 ^ (k + 1) = rest
    by_cases hdigit : digit = 0
    · subst hdigit
      cases hshown : keepZeros || zeroPadding with
      | true => simp [hshown]
      | false => simp [hshown]
    · simp [hdigit]

/-! ### The conversions -/

/-- The machine's negation makes the magnitude of every negative number, the least one included. -/
theorem neg_toNat_eq {number : BitVec 64} (h : number.toInt < 0) : (-number).toNat = number.toInt.natAbs := by
  have hlt := number.isLt
  rw [BitVec.toInt_neg_iff] at h
  rw [BitVec.toNat_neg, BitVec.toInt_eq_toNat_cond, if_neg (by omega)]
  omega

theorem toNat_eq_natAbs {number : BitVec 64} (h : ¬ number.toInt < 0) : number.toNat = number.toInt.natAbs := by
  rw [BitVec.toInt_neg_iff] at h
  rw [BitVec.toInt_eq_toNat_cond, if_pos (by omega)]
  exact (Int.natAbs_natCast _).symm

theorem printSigned_eq {isLong : Bool} {arg : BitVec 64} :
    printSigned isLong zeroPadding arg str =
      some (str ++ (NumberConversion.sign (argSigned isLong arg).toInt ++
        (fromTop 10 9 (argSigned isLong arg).toInt.natAbs zeroPadding).map digitByte)) := by
  unfold printSigned NumberConversion.sign
  generalize argSigned isLong arg = number
  have hzero : (0 : BitVec 64).toInt = 0 := rfl
  dsimp only
  rw [BitVec.slt_eq_decide, hzero]
  by_cases hneg : number.toInt < 0
  · rw [if_pos (decide_eq_true hneg), if_pos hneg, printDecimal_eq, neg_toNat_eq hneg, List.append_assoc]
    rfl
  · rw [if_neg (by simpa using hneg), if_neg hneg, printDecimal_eq, toNat_eq_natAbs hneg, List.nil_append]

/-- `%x` writes the numeral, for both types. -/
theorem hexLoop_toDigits {isLong : Bool} {arg : BitVec 64} :
    hexLoop (argUnsigned isLong arg) (if isLong then 16 else 8) (if isLong then 64 else 32) false false 0 str =
      str ++ (Nat.toDigits 16 (argUnsigned isLong arg).toNat).map char := by
  cases isLong with
  | true =>
    have hlt : (argUnsigned true arg).toNat < 16 ^ (15 + 1) := (argUnsigned true arg).isLt
    rw [← fromTop_eq_toDigits (by decide) hlt, List.map_map]
    exact (hexLoop_eq (Nat.zero_add 16)).trans (by rw [Nat.mod_eq_of_lt hlt]; rfl)
  | false =>
    have hlt : (argUnsigned false arg).toNat < 16 ^ (7 + 1) := by
      change ((arg.setWidth 32).setWidth 64).toNat < _
      rw [BitVec.toNat_setWidth_of_le (by decide)]
      exact (arg.setWidth 32).isLt
    rw [← fromTop_eq_toDigits (by decide) hlt, List.map_map]
    exact (hexLoop_eq (Nat.zero_add 8)).trans (by rw [Nat.mod_eq_of_lt hlt]; rfl)

namespace NumberConversion

variable {conversion : NumberConversion} {arg : BitVec 64}

theorem value_signed (h : conversion.kind = .d ∨ conversion.kind = .i) :
    conversion.value arg = (argSigned conversion.isLong arg).toInt := by
  have hvalue : conversion.value arg =
      if conversion.isLong then arg.toInt else (arg.setWidth 32).toInt := by
    unfold value
    rcases h with hkind | hkind
    · rw [hkind]
    · rw [hkind]
  rw [hvalue]
  cases conversion.isLong with
  | true => rfl
  | false => exact (BitVec.toInt_signExtend_of_le (by decide)).symm

theorem value_unsigned (h : conversion.kind = .u ∨ conversion.kind = .x) :
    conversion.value arg = ((argUnsigned conversion.isLong arg).toNat : Int) := by
  have hvalue : conversion.value arg =
      if conversion.isLong then (arg.toNat : Int) else ((arg.setWidth 32).toNat : Int) := by
    unfold value
    rcases h with hkind | hkind
    · rw [hkind]
    · rw [hkind]
  rw [hvalue]
  cases conversion.isLong with
  | true => rfl
  | false => exact congrArg Int.ofNat (BitVec.toNat_setWidth_of_le (by decide)).symm

/-- What `vsprintk` writes for it. -/
def printed (conversion : NumberConversion) (arg : BitVec 64) : List (BitVec 8) :=
  sign (conversion.value arg) ++
    if conversion.kind = .x then (Nat.toDigits 16 (conversion.value arg).natAbs).map char
    else (fromTop 10 9 (conversion.value arg).natAbs false).map digitByte

theorem printed_of_unsigned (h : conversion.kind = .u ∨ conversion.kind = .x) :
    conversion.printed arg =
      if conversion.kind = .x then (Nat.toDigits 16 (argUnsigned conversion.isLong arg).toNat).map char
      else (fromTop 10 9 (argUnsigned conversion.isLong arg).toNat false).map digitByte := by
  unfold printed sign
  rw [value_unsigned h, Int.natAbs_natCast, if_neg (Int.not_lt.mpr (Int.natCast_nonneg _)), List.nil_append]

theorem printSigned_printed (conversion : NumberConversion) (h : conversion.kind = .d ∨ conversion.kind = .i) :
    printSigned conversion.isLong false arg str = some (str ++ conversion.printed arg) := by
  have hkind : conversion.kind ≠ .x := by
    rcases h with hkind | hkind
    · simp [hkind]
    · simp [hkind]
  unfold printed
  rw [printSigned_eq, value_signed h, if_neg hkind]

/-- A conversion takes its argument and writes `printed`. -/
theorem printConversion_eq (mem : Memory) (conversion : NumberConversion) {p : PrintState}
    {args : List (BitVec 64)} (hargs : p.args = arg :: args) :
    printConversion mem conversion.kind.char false conversion.isLong p =
      some { p with str := p.str ++ conversion.printed arg, args := args } := by
  obtain ⟨kind, isLong⟩ := conversion
  obtain ⟨str, len, _⟩ := p
  obtain rfl := hargs
  cases kind with
  | d =>
    change (printSigned isLong false arg str).bind _ = _
    rw [printSigned_printed ⟨.d, isLong⟩ (.inl rfl)]
    rfl
  | i =>
    change (printSigned isLong false arg str).bind _ = _
    rw [printSigned_printed ⟨.i, isLong⟩ (.inr rfl)]
    rfl
  | u =>
    change (printDecimal false (argUnsigned isLong arg).toNat str).bind _ = _
    rw [printDecimal_eq, printed_of_unsigned (.inl rfl)]
    rfl
  | x =>
    change some ({ str := hexLoop (argUnsigned isLong arg) _ _ false false 0 str, len, args } : PrintState) = _
    rw [hexLoop_toDigits, printed_of_unsigned (.inr rfl)]
    rfl

/-- The number is not one of a long decimal conversion with more digits than the shorter types have. -/
def Fits (conversion : NumberConversion) (arg : BitVec 64) : Prop :=
  conversion.isLong = true → conversion.kind ≠ .x → (conversion.value arg).natAbs < 10 ^ 10

/-- The 32-bit types have no number with more than ten digits. -/
theorem Fits.lt (h : conversion.Fits arg) (hkind : conversion.kind ≠ .x) :
    (conversion.value arg).natAbs < 10 ^ 10 := by
  cases hlong : conversion.isLong with
  | true => exact h hlong hkind
  | false =>
    have hsigned := (arg.setWidth 32).toInt_lt
    have hle := (arg.setWidth 32).le_toInt
    have hunsigned := (arg.setWidth 32).isLt
    unfold value
    rw [hlong]
    cases conversion.kind with
    | d =>
      change (arg.setWidth 32).toInt.natAbs < 10 ^ 10
      omega
    | i =>
      change (arg.setWidth 32).toInt.natAbs < 10 ^ 10
      omega
    | u =>
      change (arg.setWidth 32).toNat < 10 ^ 10
      omega
    | x =>
      change (arg.setWidth 32).toNat < 10 ^ 10
      omega

theorem printed_of_fits (h : conversion.Fits arg) : conversion.printed arg = conversion.numeral arg := by
  unfold printed numeral
  by_cases hkind : conversion.kind = .x
  · rw [if_pos hkind, if_pos hkind]
  · rw [if_neg hkind, if_neg hkind, ← fromTop_eq_toDigits (by decide) (h.lt hkind), List.map_map]
    congr 1
    refine List.map_congr_left fun digit hdigit => ?_
    exact digitByte_eq (lt_of_mem_fromTop (by decide) (h.lt hkind) hdigit)

theorem printed_shorter (h : ¬ conversion.Fits arg) :
    (conversion.printed arg).length < (conversion.numeral arg).length := by
  simp only [Fits, Classical.not_imp, Nat.not_lt] at h
  obtain ⟨-, hkind, hle⟩ := h
  have hshorter := length_fromTop_lt false (by decide) hle
  unfold printed numeral
  rw [if_neg hkind, if_neg hkind]
  simpa using hshorter

end NumberConversion

/-! ### Log texts -/

variable {p : PrintState} {rest : List (BitVec 8)}

/-- The characters behind a `%` up to the conversion, which is in the format. -/
theorem vsprintkLoop_percent {conversion : BitVec 8} {fmt fmt' : List (BitVec 8)} {isLong : Bool}
    (hzero : takeFlag (char '0') fmt = (zeroPadding, fmt'))
    (hlong : takeFlag (char 'l') fmt' = (isLong, conversion :: rest)) (hne : conversion ≠ 0) :
    vsprintkLoop mem (char '%' :: fmt) p =
      (printConversion mem conversion zeroPadding isLong p).bind fun p =>
        vsprintkLoop mem rest (printBlank conversion p) := by
  rw [vsprintkLoop, if_neg (by decide), if_neg (by decide), if_pos rfl]
  dsimp only
  split
  · rename_i hnil
    rw [hzero, hlong] at hnil
    cases hnil
  · rename_i c rest' hcons
    rw [hzero, hlong] at hcons
    cases hcons
    rw [if_neg hne, hzero, hlong]
    rfl

namespace LogPiece

/-- What `vsprintk` writes for a piece. -/
def printed : LogPiece → List (BitVec 8)
  | .text c _ _ => textOf c
  | .number conversion arg => conversion.printed arg

/-- A piece of the format is written, and the loop goes on behind it. -/
theorem vsprintkLoop_eq {piece : LogPiece} {args : List (BitVec 64)} (hargs : p.args = piece.args ++ args) :
    vsprintkLoop mem (piece.format ++ rest) p =
      vsprintkLoop mem rest { p with str := p.str ++ piece.printed, args := args } := by
  cases piece with
  | text c nonzero plain =>
    obtain ⟨str, len, _⟩ := p
    obtain rfl := hargs
    change vsprintkLoop mem (c :: rest) _ = _
    rw [vsprintkLoop, if_neg nonzero]
    by_cases hn : c = char '\n'
    · subst hn
      rw [if_neg (by decide), if_neg (by decide)]
      rfl
    · by_cases ht : c = char '\t'
      · subst ht
        rw [if_neg (by decide), if_neg (by decide)]
        rfl
      · rw [if_pos ⟨plain, hn, ht⟩, printed, textOf, if_neg hn]
        rfl
  | number conversion arg =>
    have hconversion := NumberConversion.printConversion_eq mem conversion hargs
    obtain ⟨kind, isLong⟩ := conversion
    have hblank (p : PrintState) : printBlank kind.char p = p := by
      cases kind with
      | d => rfl
      | i => rfl
      | u => rfl
      | x => rfl
    have hplain : kind.char ≠ 0 ∧ kind.char ≠ char '0' ∧ kind.char ≠ char 'l' := by
      cases kind with
      | d => decide
      | i => decide
      | u => decide
      | x => decide
    obtain ⟨hne, hzero, hlong⟩ := hplain
    cases isLong with
    | true =>
      change vsprintkLoop mem (char '%' :: (char 'l' :: kind.char :: rest)) p = _
      rw [vsprintkLoop_percent (takeFlag_of_ne _ (by decide)) (takeFlag_self _ _) hne, hconversion, Option.bind_some, hblank]
      rfl
    | false =>
      change vsprintkLoop mem (char '%' :: (kind.char :: rest)) p = _
      rw [vsprintkLoop_percent (takeFlag_of_ne _ hzero) (takeFlag_of_ne _ hlong) hne, hconversion, Option.bind_some, hblank]
      rfl

end LogPiece

/-- The format of a log text. -/
def logFormat (pieces : List LogPiece) : List (BitVec 8) := pieces.flatMap LogPiece.format

/-- The arguments of a log text. -/
def logArgs (pieces : List LogPiece) : List (BitVec 64) := pieces.flatMap LogPiece.args

/-- The log text with the numerals of its numbers. -/
def logText (pieces : List LogPiece) : List (BitVec 8) := pieces.flatMap LogPiece.rendered

theorem vsprintkLoop_pieces {pieces : List LogPiece} (hargs : p.args = logArgs pieces) :
    vsprintkLoop mem (logFormat pieces) p =
      some ({ p with str := p.str ++ pieces.flatMap LogPiece.printed, args := [] }, []) := by
  induction pieces generalizing p with
  | nil =>
    obtain ⟨str, len, _⟩ := p
    obtain rfl := hargs
    change vsprintkLoop mem [] _ = some (⟨str ++ [], len, []⟩, [])
    rw [vsprintkLoop, List.append_nil]
    rfl
  | cons piece pieces ih =>
    change vsprintkLoop mem (piece.format ++ logFormat pieces) p = _
    rw [LogPiece.vsprintkLoop_eq hargs, ih rfl, List.flatMap_cons, List.append_assoc]

/-- `vsprintk` returns for every log text. -/
theorem vsprintk_eq (mem : Memory) (pieces : List LogPiece) :
    vsprintk mem (logFormat pieces) (logArgs pieces) =
      some (pieces.flatMap LogPiece.printed ++ [0], 0) := by
  unfold vsprintk
  rw [vsprintkLoop_pieces rfl]
  rfl

/-- Texts of which no part is longer than its counterpart are equal only part by part. -/
theorem flatMap_eq_iff {α β : Type} {f g : α → List β} {l : List α}
    (hshorter : ∀ a, f a ≠ g a → (f a).length < (g a).length) :
    l.flatMap f = l.flatMap g ↔ ∀ a ∈ l, f a = g a := by
  have hle (a) : (f a).length ≤ (g a).length := by
    by_cases heq : f a = g a
    · rw [heq]
    · exact Nat.le_of_lt (hshorter a heq)
  have hrest (l : List α) : (l.flatMap f).length ≤ (l.flatMap g).length := by
    induction l with
    | nil => exact Nat.le_refl 0
    | cons a l ih =>
      rw [List.flatMap_cons, List.flatMap_cons, List.length_append, List.length_append]
      exact Nat.add_le_add (hle a) ih
  induction l with
  | nil => exact ⟨fun _ _ ha => absurd ha List.not_mem_nil, fun _ => rfl⟩
  | cons a l ih =>
    rw [List.flatMap_cons, List.flatMap_cons, List.forall_mem_cons]
    constructor
    · intro heq
      have hlength := congrArg List.length heq
      rw [List.length_append, List.length_append] at hlength
      have hhead : f a = g a := by
        by_contra hne
        have hlt := hshorter a hne
        have hle := hrest l
        omega
      rw [hhead] at heq
      exact ⟨hhead, ih.mp (List.append_cancel_left heq)⟩
    · intro ⟨hhead, htail⟩
      rw [hhead, ih.mpr htail]

theorem printed_eq_logText_iff {pieces : List LogPiece} :
    pieces.flatMap LogPiece.printed = logText pieces ↔
      ∀ conversion arg, .number conversion arg ∈ pieces → conversion.Fits arg := by
  have hfits {conversion : NumberConversion} {arg : BitVec 64}
      (h : conversion.printed arg = conversion.numeral arg) : conversion.Fits arg := by
    by_contra hnot
    exact absurd (congrArg List.length h) (Nat.ne_of_lt (NumberConversion.printed_shorter hnot))
  unfold logText
  rw [flatMap_eq_iff]
  · constructor
    · exact fun h conversion arg hmem => hfits (h _ hmem)
    · intro h piece hmem
      cases piece with
      | text c nonzero plain => rfl
      | number conversion arg => exact NumberConversion.printed_of_fits (h conversion arg hmem)
  · intro piece hne
    cases piece with
    | text c nonzero plain => exact absurd rfl hne
    | number conversion arg =>
      apply NumberConversion.printed_shorter
      exact fun h => hne (NumberConversion.printed_of_fits h)

/-- A log text is written with the numerals of its numbers, if and only if no decimal number of a long type has
more than ten digits. -/
theorem vsprintk_numerals (mem : Memory) (pieces : List LogPiece) :
    vsprintk mem (logFormat pieces) (logArgs pieces) = some (logText pieces ++ [0], 0) ↔
      ∀ conversion arg, .number conversion arg ∈ pieces → conversion.Fits arg := by
  rw [vsprintk_eq, Option.some.injEq, Prod.mk.injEq, and_iff_left rfl, List.append_left_inj,
    printed_eq_logText_iff]

/-- The snapshot id of a restore request, in the format of its log line. -/
def ssidPiece (ssid : BitVec 64) : LogPiece := .number ⟨.d, true⟩ ssid

/-- The snapshot id 10000000000 is written as a colon and nine zeros. -/
theorem vsprintk_numerals_longId :
    vsprintk (fun _ => 0) (logFormat [ssidPiece 10000000000]) (logArgs [ssidPiece 10000000000]) =
        some ([':', '0', '0', '0', '0', '0', '0', '0', '0', '0'].map char ++ [0], 0) ∧
      ¬ ∀ mem pieces, vsprintk mem (logFormat pieces) (logArgs pieces) = some (logText pieces ++ [0], 0) := by
  have hprinted : [ssidPiece 10000000000].flatMap LogPiece.printed =
      [':', '0', '0', '0', '0', '0', '0', '0', '0', '0'].map char := by decide
  have hwritten := vsprintk_eq (fun _ => 0) [ssidPiece 10000000000]
  rw [hprinted] at hwritten
  refine ⟨hwritten, fun hall => ?_⟩
  have htext := hwritten.symm.trans (hall (fun _ => 0) [ssidPiece 10000000000])
  have hlength : (logText [ssidPiece 10000000000]).length = 11 := by decide
  have heq := congrArg (fun r => r.map fun p => p.1.length) htext
  simp only [Option.map_some, Option.some.injEq, List.length_append, hlength] at heq
  cases heq

end Avisor
