import Avisor.Data.Types
import Mathlib.Logic.Function.Basic

/-!
# Bitmaps

The bitmap functions of `lib/bitmap.c` and `lib/inc/bitmap.h`. A bitmap is an array of 32-bit
granules, here the function from the granule index to the granule: indices past the array are the
memory behind it. A `size_t` is a `Nat`, and where the source lets it wrap the wrap is written out;
the `-1` that the searches return for "not found" is the largest `size_t`.
-/

namespace Avisor

open Function

/-- `BITMAP_GRANULE_LEN`. -/
def granuleLen : Nat := 32

/-- `bitmap_t*`: the granules from the start of the map on. -/
abbrev Bitmap := Nat → BitVec 32

/-- `bitmap_get`. -/
def bitmapGet (map : Bitmap) (bit : Nat) : Bool :=
  map (bit / granuleLen) &&& (1#32 <<< (bit % granuleLen)) != 0

/-- `bitmap_set`. -/
def bitmapSet (map : Bitmap) (bit : Nat) : Bitmap :=
  update map (bit / granuleLen) (map (bit / granuleLen) ||| (1#32 <<< (bit % granuleLen)))

/-- `bitmap_clear`. -/
def bitmapClear (map : Bitmap) (bit : Nat) : Bitmap :=
  update map (bit / granuleLen) (map (bit / granuleLen) &&& ~~~(1#32 <<< (bit % granuleLen)))

/-- `bitmap_clear_consecutive`. -/
def bitmapClearConsecutive (map : Bitmap) (start : Nat) : Nat → Bitmap
  | 0 => map
  | n + 1 => bitmapClear (bitmapClearConsecutive map start n) ((start + n) % sizeT)

/-- The loop of `bitmap_find_nth`: `left` more bits from `i` on, `count` of them found so far. -/
def bitmapFindNthLoop (map : Bitmap) (nth : Nat) (set : Bool) : Nat → Nat → Nat → Option Nat
  | 0, _, _ => none
  | left + 1, i, count =>
    if bitmapGet map i = set then
      if count + 1 = nth then some i else bitmapFindNthLoop map nth set left (i + 1) (count + 1)
    else bitmapFindNthLoop map nth set left (i + 1) count

/-- `bitmap_find_nth`: the `nth` bit from `start` on that is `set`, or `-1`. -/
def bitmapFindNth (map : Bitmap) (size nth start : Nat) (set : Bool) : Nat :=
  if size = 0 ∨ nth = 0 then sizeMax
  else (bitmapFindNthLoop map nth set (size - start) start 0).getD sizeMax

/-- `BITMAP_GRANULE_MASK`: `len` bits from `off` on, where `len` is not zero. -/
def bitmapGranuleMask (off len : Nat) : BitVec 32 :=
  (((1#32 <<< (len - 1)) <<< 1) - 1#32) <<< off

/-- The word loop of `bitmap_count_consecutive`. A pass adds a granule to `pos`, so `fuel` for the
bits that are left suffices: without fuel `pos` is not below `size`. -/
def bitmapCountWords (map : Bitmap) (size n : Nat) (mask : BitVec 32) :
    Nat → Nat → Nat → Nat × Nat
  | 0, pos, count => (pos, count)
  | fuel + 1, pos, count =>
    if pos < size ∧ map (pos / granuleLen) = mask ∧ count < n then
      bitmapCountWords map size n mask fuel (pos + granuleLen) (count + granuleLen)
    else (pos, count)

/-- The bit loop of `bitmap_count_consecutive`. -/
def bitmapCountBits (map : Bitmap) (size n : Nat) (set : Bool) : Nat → Nat → Nat → Nat
  | 0, _, count => count
  | fuel + 1, pos, count =>
    if pos < size ∧ bitmapGet map pos = set ∧ count < n then
      bitmapCountBits map size n set fuel (pos + 1) (count + 1)
    else count

/-- What `bitmap_count_consecutive` counts of the first granule: its bits from `start` on, at most `n`,
if they are all like the one at `start`. -/
def bitmapCountFirst (map : Bitmap) (start n : Nat) : Nat :=
  let startOffset := start % granuleLen
  let firstWordBits := min (granuleLen - startOffset) n
  let initMask := bitmapGranuleMask startOffset firstWordBits
  let mask := if bitmapGet map start then initMask else ~~~initMask
  if (map (start / granuleLen) ^^^ mask) &&& initMask = 0#32 then firstWordBits else 0

/-- `bitmap_count_consecutive`: how many bits from `start` on are like the one at `start`. The search
stops at `size` and at `n`, but only after the granule it is in. -/
def bitmapCountConsecutive (map : Bitmap) (size start n : Nat) : Nat :=
  let set := bitmapGet map start
  if n ≤ 1 then n
  else
    let first := bitmapCountFirst map start n
    let words := bitmapCountWords map size n (if set then ~~~0#32 else 0#32) (size - start)
      (start + first) first
    bitmapCountBits map size n set (size - words.1) words.1 words.2

/-- The loop of `bitmap_find_consec`: every pass leaves the run at `i` and the gap behind it. -/
def bitmapFindConsecLoop (map : Bitmap) (size n : Nat) : Nat → Nat → Nat
  | 0, i => i
  | fuel + 1, i =>
    if i < size then
      let count := bitmapCountConsecutive map size i n
      if count < n then
        bitmapFindConsecLoop map size n fuel
          (i + count + bitmapCountConsecutive map size (i + count) sizeMax)
      else i
    else i

/-- `bitmap_find_consec`: the first `n` bits in a row from `start` on that are `set`, or `-1`. The test
of the search for the first bit, `i < 0`, never holds for a `size_t`. -/
def bitmapFindConsec (map : Bitmap) (size start n : Nat) (set : Bool) : Nat :=
  let first := bitmapFindNth map size 1 start set
  if first < 0 then sizeMax
  else
    let i := bitmapFindConsecLoop map size n (size - first) first
    if size ≤ i then sizeMax else i

/-- The loop of `bitmap_set_consecutive`, with the `pos` and `count` it ends with. -/
def bitmapSetWords (map : Bitmap) : Nat → Nat → Nat → Bitmap × Nat × Nat
  | 0, pos, count => (map, pos, count)
  | fuel + 1, pos, count =>
    if granuleLen ≤ count then
      bitmapSetWords (update map (pos / granuleLen) (map (pos / granuleLen) ||| ~~~0#32)) fuel
        ((pos + granuleLen) % sizeT) (count - granuleLen)
    else (map, pos, count)

/-- `bitmap_set_consecutive`. -/
def bitmapSetConsecutive (map : Bitmap) (start n : Nat) : Bitmap :=
  let startOffset := start % granuleLen
  let firstWordBits := min (granuleLen - startOffset) n
  let first := update map (start / granuleLen)
    (map (start / granuleLen) ||| bitmapGranuleMask startOffset firstWordBits)
  let words := bitmapSetWords first n ((start + firstWordBits) % sizeT) (n - firstWordBits)
  if 0 < words.2.2 then
    update words.1 (words.2.1 / granuleLen)
      (words.1 (words.2.1 / granuleLen) ||| bitmapGranuleMask 0 words.2.2)
  else words.1

/-! ### Single bits -/

theorem granule_index {a b : Nat} : a = b ↔ a / granuleLen = b / granuleLen ∧
    a % granuleLen = b % granuleLen := by
  simp only [granuleLen]
  omega

/-- The granule with the single bit `k`. -/
theorem getLsbD_bit {i k : Nat} (hi : i < 32) : (1#32 <<< k).getLsbD i = decide (i = k) := by
  rw [BitVec.getLsbD_shiftLeft, BitVec.getLsbD_one, Bool.eq_iff_iff]
  simp only [Bool.and_eq_true, decide_eq_true_eq, Bool.not_eq_true', decide_eq_false_iff_not]
  omega

theorem bitmapGet_eq (map : Bitmap) (bit : Nat) :
    bitmapGet map bit = (map (bit / granuleLen)).getLsbD (bit % granuleLen) := by
  have hlt : bit % granuleLen < 32 := Nat.mod_lt _ (by decide)
  unfold bitmapGet
  generalize map (bit / granuleLen) = w
  generalize bit % granuleLen = k at hlt
  rw [Bool.eq_iff_iff, bne_iff_ne]
  constructor
  · intro hne
    by_contra hk
    refine hne (BitVec.eq_of_getLsbD_eq fun i hi => ?_)
    rw [BitVec.getLsbD_and, getLsbD_bit hi]
    by_cases hik : i = k
    · subst hik
      simpa using hk
    · simp [hik]
  · intro hk hzero
    have hbit : (w &&& 1#32 <<< k).getLsbD k = false := by
      rw [hzero]
      exact BitVec.getLsbD_zero
    rw [BitVec.getLsbD_and, getLsbD_bit hlt, hk] at hbit
    simp at hbit

theorem bitmapGet_set (map : Bitmap) (bit i : Nat) :
    bitmapGet (bitmapSet map bit) i = (decide (i = bit) || bitmapGet map i) := by
  have hlt : i % granuleLen < 32 := Nat.mod_lt _ (by decide)
  rw [bitmapGet_eq, bitmapGet_eq, bitmapSet]
  by_cases hword : i / granuleLen = bit / granuleLen
  · rw [hword, update_self, BitVec.getLsbD_or, Bool.or_comm, getLsbD_bit hlt]
    simp only [granule_index (a := i), hword, true_and]
  · have hne : i ≠ bit := fun h => hword (h ▸ rfl)
    rw [update_of_ne hword]
    simp [hne]

theorem bitmapGet_clear (map : Bitmap) (bit i : Nat) :
    bitmapGet (bitmapClear map bit) i = (!decide (i = bit) && bitmapGet map i) := by
  have hlt : i % granuleLen < 32 := Nat.mod_lt _ (by decide)
  rw [bitmapGet_eq, bitmapGet_eq, bitmapClear]
  by_cases hword : i / granuleLen = bit / granuleLen
  · rw [hword, update_self, BitVec.getLsbD_and, Bool.and_comm, BitVec.getLsbD_not, getLsbD_bit hlt]
    simp only [granule_index (a := i), hword, true_and, hlt, decide_true,
      Bool.true_and]
  · have hne : i ≠ bit := fun h => hword (h ▸ rfl)
    rw [update_of_ne hword]
    simp [hne]

/-- The granule with its low `len` bits set. -/
private theorem getLsbD_lowBits {len i : Nat} (hlen : 1 ≤ len) (hfit : len ≤ 32) :
    (((1#32 <<< (len - 1)) <<< 1) - 1#32).getLsbD i = decide (i < len) := by
  have hshift : (1#32 <<< (len - 1)) <<< 1 = 1#32 <<< len := by
    rw [← BitVec.shiftLeft_add, Nat.sub_add_cancel hlen]
  have hnat : ((1#32 <<< len) - 1#32).toNat = 2 ^ len - 1 := by
    rw [BitVec.toNat_sub, BitVec.toNat_shiftLeft, BitVec.toNat_ofNat, Nat.shiftLeft_eq]
    rcases Nat.eq_or_lt_of_le hfit with rfl | hlt
    · rfl
    · have hpow : 2 ^ len < 2 ^ 32 := Nat.pow_lt_pow_right (by omega) hlt
      have hpos : 0 < 2 ^ len := Nat.two_pow_pos len
      omega
  rw [hshift, BitVec.getLsbD, hnat, Nat.testBit_two_pow_sub_one]

theorem getLsbD_granuleMask {off len i : Nat} (hlen : 1 ≤ len) (hfit : off + len ≤ 32) (hi : i < 32) :
    (bitmapGranuleMask off len).getLsbD i = decide (off ≤ i ∧ i < off + len) := by
  rw [bitmapGranuleMask, BitVec.getLsbD_shiftLeft, getLsbD_lowBits hlen (by omega), Bool.eq_iff_iff]
  simp only [Bool.and_eq_true, decide_eq_true_eq, Bool.not_eq_true', decide_eq_false_iff_not]
  omega

theorem bitmapGet_clearConsecutive (map : Bitmap) (i : Nat) {start n : Nat} (hfit : start + n ≤ sizeT) :
    bitmapGet (bitmapClearConsecutive map start n) i =
      (!decide (start ≤ i ∧ i < start + n) && bitmapGet map i) := by
  induction n with
  | zero =>
    have hnone : ¬(start ≤ i ∧ i < start + 0) := by omega
    rw [bitmapClearConsecutive, decide_eq_false hnone, Bool.not_false, Bool.true_and]
  | succ n ih =>
    rw [bitmapClearConsecutive, bitmapGet_clear, ih (by omega), Nat.mod_eq_of_lt (by omega)]
    by_cases hi : i = start + n
    · simp [hi]
    · have hiff : start ≤ i ∧ i < start + (n + 1) ↔ start ≤ i ∧ i < start + n := by omega
      simp [hi, hiff]

/-! ### The first bit of a polarity -/

theorem bitmapFindNthLoop_one (map : Bitmap) (set : Bool) (left i : Nat) :
    (∀ r, bitmapFindNthLoop map 1 set left i 0 = some r →
      i ≤ r ∧ r < i + left ∧ bitmapGet map r = set ∧ ∀ j, i ≤ j → j < r → bitmapGet map j ≠ set) ∧
    (bitmapFindNthLoop map 1 set left i 0 = none →
      ∀ j, i ≤ j → j < i + left → bitmapGet map j ≠ set) := by
  induction left generalizing i with
  | zero => exact ⟨fun r h => (nomatch h), fun _ j h h' => absurd h' (by omega)⟩
  | succ left ih =>
    unfold bitmapFindNthLoop
    by_cases hi : bitmapGet map i = set
    · simp only [hi, if_true, Nat.zero_add]
      exact ⟨fun r h => by
        cases h
        exact ⟨Nat.le_refl _, by omega, hi, fun j h h' => absurd h' (by omega)⟩, fun h => nomatch h⟩
    · simp only [hi, if_false]
      obtain ⟨hsome, hnone⟩ := ih (i + 1)
      constructor
      · intro r hr
        obtain ⟨h1, h2, h3, h4⟩ := hsome r hr
        refine ⟨by omega, by omega, h3, fun j hj hjr => ?_⟩
        rcases Nat.eq_or_lt_of_le hj with rfl | hj
        · exact hi
        · exact h4 j hj hjr
      · intro hr j hj hjl
        rcases Nat.eq_or_lt_of_le hj with rfl | hj
        · exact hi
        · exact hnone hr j hj (by omega)

/-- A search for one bit finds the first one from `start` on, or there is none before `size`. -/
theorem bitmapFindNth_one (map : Bitmap) (size start : Nat) (set : Bool) :
    (bitmapFindNth map size 1 start set = sizeMax ∧
      ∀ j, start ≤ j → j < size → bitmapGet map j ≠ set) ∨
    (∃ r, bitmapFindNth map size 1 start set = r ∧ start ≤ r ∧ r < size ∧ bitmapGet map r = set ∧
      ∀ j, start ≤ j → j < r → bitmapGet map j ≠ set) := by
  unfold bitmapFindNth
  by_cases hsize : size = 0
  · rw [if_pos (.inl hsize)]
    exact .inl ⟨rfl, fun j _ h => absurd h (by omega)⟩
  simp only [hsize, Nat.one_ne_zero, or_self, if_false]
  obtain ⟨hsome, hnone⟩ := bitmapFindNthLoop_one map set (size - start) start
  cases hloop : bitmapFindNthLoop map 1 set (size - start) start 0 with
  | none => exact .inl ⟨rfl, fun j h h' => hnone hloop j h (by omega)⟩
  | some r =>
    obtain ⟨h1, h2, h3, h4⟩ := hsome r hloop
    exact .inr ⟨r, rfl, h1, by omega, h3, h4⟩

/-! ### Runs of equal bits -/

/-- The granule whose bits are all `set`. -/
theorem bitmapGet_of_granule {map : Bitmap} {pos j : Nat} {set : Bool} (hpos : pos % granuleLen = 0)
    (hgranule : map (pos / granuleLen) = if set then ~~~0#32 else 0#32) (hle : pos ≤ j)
    (hlt : j < pos + granuleLen) : bitmapGet map j = set := by
  have hbit : j % granuleLen < 32 := Nat.mod_lt _ (by decide)
  have hword : j / granuleLen = pos / granuleLen := by
    simp only [granuleLen] at *
    omega
  rw [bitmapGet_eq, hword, hgranule]
  cases set
  · simp only [Bool.false_eq_true, if_false, BitVec.getLsbD_zero]
  · simp only [if_true, BitVec.getLsbD_not, hbit, decide_true, BitVec.getLsbD_zero, Bool.not_false,
      Bool.and_true]

/-- The test of the first granule of a run. -/
private theorem bitmapGet_of_first {map : Bitmap} {start len j : Nat} {set : Bool} (hlen : 1 ≤ len)
    (hfit : start % granuleLen + len ≤ granuleLen)
    (htest : (map (start / granuleLen) ^^^ (if set then bitmapGranuleMask (start % granuleLen) len
      else ~~~bitmapGranuleMask (start % granuleLen) len)) &&&
        bitmapGranuleMask (start % granuleLen) len = 0#32)
    (hle : start ≤ j) (hlt : j < start + len) : bitmapGet map j = set := by
  simp only [granuleLen] at *
  have hword : j / 32 = start / 32 := by omega
  have hbit : j % 32 < 32 := by omega
  have hmask : (bitmapGranuleMask (start % 32) len).getLsbD (j % 32) = true := by
    rw [getLsbD_granuleMask hlen hfit hbit, decide_eq_true_eq]
    omega
  have hget := congrArg (fun w => w.getLsbD (j % 32)) htest
  simp only [BitVec.getLsbD_and, hmask, Bool.and_true, BitVec.getLsbD_xor, BitVec.getLsbD_zero] at hget
  rw [bitmapGet_eq]
  simp only [granuleLen, hword]
  cases set
  · simpa only [Bool.false_eq_true, if_false, BitVec.getLsbD_not, hbit, decide_true, hmask,
      Bool.not_true, Bool.and_false, Bool.xor_false] using hget
  · simpa only [if_true, hmask, Bool.xor_true, Bool.not_eq_false'] using hget

private theorem first_of_granule {w mask : BitVec 32} {set : Bool}
    (hw : w = if set then ~~~0#32 else 0#32) :
    (w ^^^ (if set then mask else ~~~mask)) &&& mask = 0#32 := by
  subst hw
  apply BitVec.eq_of_getLsbD_eq
  intro i hi
  rw [BitVec.getLsbD_and, BitVec.getLsbD_xor, BitVec.getLsbD_zero]
  cases set
  · cases hbit : mask.getLsbD i <;>
      simp only [Bool.false_eq_true, if_false, BitVec.getLsbD_not, BitVec.getLsbD_zero, hbit, hi,
        decide_true, Bool.and_false, Bool.and_true, Bool.not_true, Bool.xor_false]
  · cases hbit : mask.getLsbD i <;>
      simp only [if_true, BitVec.getLsbD_not, BitVec.getLsbD_zero, hbit, hi, decide_true,
        Bool.not_false, Bool.and_true, Bool.and_false, Bool.xor_self]

/-- `count` bits from `start` on are `set`, and the search is at `pos` behind them. -/
structure Counted (map : Bitmap) (size start : Nat) (set : Bool) (pos count : Nat) : Prop where
  pos_eq : pos = start + count
  bits : ∀ j, start ≤ j → j < start + count → bitmapGet map j = set
  le : count ≤ size - start + granuleLen

variable {map : Bitmap} {size start n pos count k : Nat} {set : Bool}

theorem Counted.add (h : Counted map size start set pos count) (hpos : pos < size)
    (hk : k ≤ granuleLen) (hbits : ∀ j, pos ≤ j → j < pos + k → bitmapGet map j = set) :
    Counted map size start set (pos + k) (count + k) := by
  obtain ⟨rfl, hold, hle⟩ := h
  refine ⟨by omega, fun j hj hlt => ?_, by omega⟩
  by_cases hj' : j < start + count
  · exact hold j hj hj'
  · exact hbits j (by omega) (by omega)

/-- The word loop only takes granules from their first bit on. -/
theorem Counted.words {mask : BitVec 32} (fuel : Nat) (h : Counted map size start set pos count)
    (hmask : mask = if set then ~~~0#32 else 0#32)
    (hstart : pos % granuleLen = 0 ∨ n ≤ count ∨ map (pos / granuleLen) ≠ mask) :
    Counted map size start set (bitmapCountWords map size n mask fuel pos count).1
      (bitmapCountWords map size n mask fuel pos count).2 ∧
    count ≤ (bitmapCountWords map size n mask fuel pos count).2 := by
  induction fuel generalizing pos count with
  | zero => exact ⟨h, Nat.le_refl _⟩
  | succ fuel ih =>
    rw [bitmapCountWords]
    by_cases hpass : pos < size ∧ map (pos / granuleLen) = mask ∧ count < n
    · rw [if_pos hpass]
      obtain ⟨hpos, hgranule, hcount⟩ := hpass
      have haligned : pos % granuleLen = 0 := by
        rcases hstart with hstart | hstart | hstart
        · exact hstart
        · omega
        · exact absurd hgranule hstart
      have hnext := h.add hpos (Nat.le_refl _) fun j hj hlt =>
        bitmapGet_of_granule haligned (hgranule.trans hmask) hj hlt
      obtain ⟨hcounted, hle⟩ := ih hnext (.inl (by rw [Nat.add_mod_right, haligned]))
      exact ⟨hcounted, by omega⟩
    · rw [if_neg hpass]
      exact ⟨h, Nat.le_refl _⟩

theorem Counted.bitLoop {fuel : Nat} (h : Counted map size start set pos count)
    (hfuel : size - pos ≤ fuel) :
    ∃ pos', Counted map size start set pos' (bitmapCountBits map size n set fuel pos count) ∧
      count ≤ bitmapCountBits map size n set fuel pos count ∧
      ¬(pos' < size ∧ bitmapGet map pos' = set ∧ bitmapCountBits map size n set fuel pos count < n) ∧
      (pos < size → bitmapGet map pos = set → count < n →
        count < bitmapCountBits map size n set fuel pos count) := by
  induction fuel generalizing pos count with
  | zero => exact ⟨pos, h, Nat.le_refl _, fun hpass => by omega, fun hpos => by omega⟩
  | succ fuel ih =>
    rw [bitmapCountBits]
    by_cases hpass : pos < size ∧ bitmapGet map pos = set ∧ count < n
    · rw [if_pos hpass]
      obtain ⟨hpos, hbit, hcount⟩ := hpass
      have hnext := h.add (k := 1) hpos (by decide) fun j hj hlt => by
        rw [show j = pos by omega]
        exact hbit
      obtain ⟨pos', hcounted, hle, hstop, -⟩ := ih hnext (by omega)
      exact ⟨pos', hcounted, by omega, hstop, fun _ _ _ => by omega⟩
    · rw [if_neg hpass]
      exact ⟨pos, h, Nat.le_refl _, hpass, fun hpos hbit hcount => absurd ⟨hpos, hbit, hcount⟩ hpass⟩

/-- What is counted of the first granule is a run, and a granule whose bits are all alike is counted to
its end or up to `n`. -/
theorem bitmapCountFirst_spec (size : Nat) (hn : 1 ≤ n) (hset : bitmapGet map start = set) :
    Counted map size start set (start + bitmapCountFirst map start n)
      (bitmapCountFirst map start n) ∧
    ((start + bitmapCountFirst map start n) % granuleLen = 0 ∨ n ≤ bitmapCountFirst map start n ∨
      map ((start + bitmapCountFirst map start n) / granuleLen) ≠
        if set then ~~~0#32 else 0#32) := by
  have hoff : start % granuleLen < granuleLen := Nat.mod_lt _ (by decide)
  unfold bitmapCountFirst
  simp only [hset]
  generalize hlen : min (granuleLen - start % granuleLen) n = len
  by_cases htest : (map (start / granuleLen) ^^^ (if set then
      bitmapGranuleMask (start % granuleLen) len
    else ~~~bitmapGranuleMask (start % granuleLen) len)) &&&
      bitmapGranuleMask (start % granuleLen) len = 0#32
  · rw [if_pos htest]
    constructor
    · have hpos : 1 ≤ len := hlen ▸ Nat.le_min.mpr ⟨Nat.sub_pos_of_lt hoff, hn⟩
      refine ⟨rfl, fun j hj hlt => ?_, by omega⟩
      exact bitmapGet_of_first hpos (by omega) htest hj hlt
    · simp only [granuleLen] at *
      omega
  · rw [if_neg htest]
    constructor
    · exact ⟨rfl, fun j hj hlt => by omega, Nat.zero_le _⟩
    · exact .inr (.inr fun hgranule => htest (first_of_granule hgranule))

/-- A count says how long the run at `start` is: all its bits are equal, and a count below `n` ends at
`size` or at the first bit that differs. -/
theorem bitmapCountConsecutive_spec (map : Bitmap) (size start : Nat) (hn : 1 ≤ n) :
    Counted map size start (bitmapGet map start) (start + bitmapCountConsecutive map size start n)
      (bitmapCountConsecutive map size start n) ∧
    (bitmapCountConsecutive map size start n < n →
      size ≤ start + bitmapCountConsecutive map size start n ∨
      bitmapGet map (start + bitmapCountConsecutive map size start n) ≠ bitmapGet map start) ∧
    (start < size → 1 ≤ bitmapCountConsecutive map size start n) := by
  unfold bitmapCountConsecutive
  by_cases hone : n ≤ 1
  · obtain rfl : n = 1 := by omega
    rw [if_pos (Nat.le_refl 1)]
    refine ⟨⟨rfl, fun j hj hlt => ?_, by simp [granuleLen]⟩, fun h => absurd h (by omega),
      fun _ => Nat.le_refl 1⟩
    rw [show j = start by omega]
  rw [if_neg hone]
  generalize hset : bitmapGet map start = set
  dsimp only
  obtain ⟨hfirst, haligned⟩ := bitmapCountFirst_spec size hn hset
  obtain ⟨hwords, -⟩ := hfirst.words (size - start) rfl haligned
  generalize bitmapCountWords map size n _ (size - start) _ _ = words at *
  obtain ⟨pos', hbits, hle, hstop, hgrow⟩ := hwords.bitLoop (n := n) (Nat.le_refl (size - words.1))
  generalize bitmapCountBits map size n set (size - words.1) words.1 words.2 = count at *
  obtain rfl := hbits.pos_eq
  refine ⟨hbits, fun hlt => ?_, fun hlt => ?_⟩
  · by_cases hsize : start + count < size
    · exact .inr fun heq => hstop ⟨hsize, heq, hlt⟩
    · exact .inl (by omega)
  · by_contra hzero
    have hnone : words.2 = 0 := by omega
    have hpos : words.1 = start := by
      rw [hwords.pos_eq, hnone]
      rfl
    rw [hpos, hnone] at hgrow
    have hpass : 0 < count := hgrow hlt hset (by omega)
    omega

/-- `n` bits from `p` on are `set`. -/
def BitRun (map : Bitmap) (set : Bool) (p n : Nat) : Prop :=
  ∀ j, p ≤ j → j < p + n → bitmapGet map j = set

private theorem bitmapFindConsecLoop_spec (fuel : Nat) {i : Nat} (hn : 1 ≤ n)
    (hsize : size + granuleLen < sizeMax) (hfuel : size - i ≤ fuel)
    (hi : i < size → bitmapGet map i = set) :
    (size ≤ bitmapFindConsecLoop map size n fuel i ∨
      BitRun map set (bitmapFindConsecLoop map size n fuel i) n) ∧
    i ≤ bitmapFindConsecLoop map size n fuel i ∧
    ∀ p, i ≤ p → p < bitmapFindConsecLoop map size n fuel i → p + n ≤ size → ¬BitRun map set p n := by
  induction fuel generalizing i with
  | zero => exact ⟨.inl (by simp only [bitmapFindConsecLoop]; omega), Nat.le_refl _,
      fun p hp hlt => absurd hlt (Nat.not_lt.mpr hp)⟩
  | succ fuel ih =>
    rw [bitmapFindConsecLoop]
    by_cases hlt : i < size
    · rw [if_pos hlt]
      have hset := hi hlt
      obtain ⟨hrun, hstop, hpos⟩ := bitmapCountConsecutive_spec map size i hn
      rw [hset] at hrun hstop
      dsimp only
      generalize bitmapCountConsecutive map size i n = count at *
      by_cases hcount : count < n
      · rw [if_pos hcount]
        obtain ⟨hgap, hend, -⟩ := bitmapCountConsecutive_spec map size (i + count)
          (show 1 ≤ sizeMax by decide)
        generalize bitmapCountConsecutive map size (i + count) sizeMax = gap at *
        have hstop := hstop hcount
        have hpos := hpos hlt
        have hshort : gap < sizeMax := Nat.lt_of_le_of_lt hgap.le (by omega)
        -- the next pass starts at a run again
        have hnext : i + count + gap < size → bitmapGet map (i + count + gap) = set := by
          intro hlt'
          have hother : bitmapGet map (i + count) ≠ set := hstop.resolve_left (by omega)
          have hdiffers := (hend hshort).resolve_left (by omega)
          revert hother hdiffers
          cases bitmapGet map (i + count) <;> cases bitmapGet map (i + count + gap) <;> cases set <;> simp
        obtain ⟨hfound, hle, hnone⟩ := ih (i := i + count + gap) (by omega) hnext
        refine ⟨hfound, by omega, fun p hp hlt' hfit hrunp => ?_⟩
        by_cases hbehind : i + count + gap ≤ p
        · exact hnone p hbehind hlt' hfit hrunp
        have hother : bitmapGet map (i + count) ≠ set := hstop.resolve_left (by omega)
        by_cases hgapp : i + count ≤ p
        · have hsame := hgap.bits p hgapp (by omega)
          exact hother (hsame.symm.trans (hrunp p (Nat.le_refl p) (by omega)))
        · exact hother (hrunp (i + count) (by omega) (by omega))
      · rw [if_neg hcount]
        exact ⟨.inr fun j hj hlt' => hrun.bits j hj (by omega), Nat.le_refl _,
          fun p hp hlt' => absurd hlt' (Nat.not_lt.mpr hp)⟩
    · rw [if_neg hlt]
      exact ⟨.inl (by omega), Nat.le_refl _, fun p hp hlt' => absurd hlt' (Nat.not_lt.mpr hp)⟩

/-- The search returns `-1` or a run of `n` bits that starts below `size`, and there is no such run
below `size` in front of what it returns. -/
theorem bitmapFindConsec_spec (map : Bitmap) (start : Nat) (set : Bool) (hn : 1 ≤ n)
    (hsize : size + granuleLen < sizeMax) :
    (bitmapFindConsec map size start n set = sizeMax ∨
      start ≤ bitmapFindConsec map size start n set ∧ bitmapFindConsec map size start n set < size ∧
        BitRun map set (bitmapFindConsec map size start n set) n) ∧
    ∀ p, start ≤ p → p < bitmapFindConsec map size start n set → p + n ≤ size →
      ¬BitRun map set p n := by
  unfold bitmapFindConsec
  simp only [Nat.not_lt_zero, if_false]
  have hfirst := bitmapFindNth_one map size start set
  generalize bitmapFindNth map size 1 start set = first at *
  -- no run starts in front of the first bit
  have hfront : ∀ p, start ≤ p → p < first → p + n ≤ size → ¬BitRun map set p n := by
    intro p hp hlt hfit hrun
    have hbit := hrun p (Nat.le_refl p) (by omega)
    rcases hfirst with ⟨-, hnone⟩ | ⟨r, rfl, -, -, -, hnone⟩
    · exact hnone p hp (by omega) hbit
    · exact hnone p hp hlt hbit
  have hstart : first < size → bitmapGet map first = set := by
    rcases hfirst with ⟨rfl, -⟩ | ⟨r, rfl, -, -, hbit, -⟩
    · intro hlt
      omega
    · exact fun _ => hbit
  obtain ⟨hfound, hle, hnone⟩ := bitmapFindConsecLoop_spec (size - first) hn hsize
    (Nat.le_refl _) hstart
  generalize bitmapFindConsecLoop map size n (size - first) first = i at *
  by_cases hi : size ≤ i
  · rw [if_pos hi]
    refine ⟨.inl rfl, fun p hp hlt hfit => ?_⟩
    by_cases hpf : p < first
    · exact hfront p hp hpf hfit
    · exact hnone p (by omega) (by omega) hfit
  · rw [if_neg hi]
    have hfirst_le : start ≤ first := by
      rcases hfirst with ⟨rfl, -⟩ | ⟨r, rfl, hle, -⟩
      · omega
      · exact hle
    refine ⟨.inr ⟨by omega, by omega, hfound.resolve_left hi⟩, fun p hp hlt hfit => ?_⟩
    by_cases hpf : p < first
    · exact hfront p hp hpf hfit
    · exact hnone p (by omega) hlt hfit

/-! ### Setting a run -/

private theorem bitmapGet_orMask (map : Bitmap) (pos i : Nat) {len : Nat} (hlen : 1 ≤ len)
    (hfit : pos % granuleLen + len ≤ granuleLen) :
    bitmapGet (update map (pos / granuleLen)
      (map (pos / granuleLen) ||| bitmapGranuleMask (pos % granuleLen) len)) i =
      (bitmapGet map i || decide (pos ≤ i ∧ i < pos + len)) := by
  have hlt : i % granuleLen < 32 := Nat.mod_lt _ (by decide)
  rw [bitmapGet_eq, bitmapGet_eq]
  by_cases hword : i / granuleLen = pos / granuleLen
  · rw [hword, update_self, BitVec.getLsbD_or, getLsbD_granuleMask hlen hfit hlt]
    congr 2
    simp only [granuleLen, eq_iff_iff] at *
    omega
  · rw [update_of_ne hword]
    have hout : ¬(pos ≤ i ∧ i < pos + len) := by
      simp only [granuleLen] at *
      omega
    simp only [hout, decide_false, Bool.or_false]

private theorem bitmapSetWords_spec (fuel : Nat) (map : Bitmap) (pos count : Nat) (hfuel : count ≤ fuel)
    (haligned : pos % granuleLen = 0 ∨ count = 0) (hfit : pos + count ≤ sizeT) :
    (bitmapSetWords map fuel pos count).2.2 < granuleLen ∧
    ((bitmapSetWords map fuel pos count).2.1 % granuleLen = 0 ∨
      (bitmapSetWords map fuel pos count).2.2 = 0) ∧
    ∀ i, (bitmapGet (bitmapSetWords map fuel pos count).1 i ||
        decide ((bitmapSetWords map fuel pos count).2.1 ≤ i ∧
          i < (bitmapSetWords map fuel pos count).2.1 + (bitmapSetWords map fuel pos count).2.2)) =
      (bitmapGet map i || decide (pos ≤ i ∧ i < pos + count)) := by
  induction fuel generalizing map pos count with
  | zero =>
    obtain rfl : count = 0 := by omega
    exact ⟨Nat.two_pow_pos 5, .inr rfl, fun i => rfl⟩
  | succ fuel ih =>
    rw [bitmapSetWords]
    by_cases hpass : granuleLen ≤ count
    · rw [if_pos hpass]
      have hzero : pos % granuleLen = 0 := by
        simp only [granuleLen] at *
        omega
      obtain ⟨hlt, hend, hbits⟩ := ih
        (update map (pos / granuleLen) (map (pos / granuleLen) ||| ~~~0#32))
        ((pos + granuleLen) % sizeT) (count - granuleLen) (by simp only [granuleLen] at *; omega)
        (by simp only [granuleLen, sizeT] at *; omega) (by simp only [granuleLen, sizeT] at *; omega)
      refine ⟨hlt, hend, fun i => ?_⟩
      have hmask : ~~~0#32 = bitmapGranuleMask (pos % granuleLen) granuleLen := by
        rw [hzero]
        rfl
      rw [hbits i, hmask, bitmapGet_orMask _ _ _ (by decide) (by rw [hzero]; decide), Bool.or_assoc,
        ← Bool.decide_or]
      congr 2
      simp only [granuleLen, sizeT, eq_iff_iff] at *
      omega
    · rw [if_neg hpass]
      exact ⟨Nat.lt_of_not_le hpass, haligned, fun i => rfl⟩

/-- Exactly the `n` bits from `start` on become set. -/
theorem bitmapGet_setConsecutive (map : Bitmap) (i : Nat) (hn : 1 ≤ n) (hfit : start + n ≤ sizeT) :
    bitmapGet (bitmapSetConsecutive map start n) i =
      (bitmapGet map i || decide (start ≤ i ∧ i < start + n)) := by
  have hoff : start % granuleLen < granuleLen := Nat.mod_lt _ (by decide)
  unfold bitmapSetConsecutive
  dsimp only
  generalize hlen : min (granuleLen - start % granuleLen) n = len
  obtain ⟨hlt, hend, hbits⟩ := bitmapSetWords_spec n (update map (start / granuleLen)
      (map (start / granuleLen) ||| bitmapGranuleMask (start % granuleLen) len))
    ((start + len) % sizeT) (n - len) (by omega)
    (by simp only [granuleLen, sizeT] at *; omega) (by simp only [granuleLen, sizeT] at *; omega)
  have hbits := hbits i
  rw [bitmapGet_orMask _ _ _ (by omega) (by omega), Bool.or_assoc, ← Bool.decide_or] at hbits
  generalize bitmapSetWords _ n ((start + len) % sizeT) (n - len) = words at *
  have hall : (start ≤ i ∧ i < start + len) ∨ ((start + len) % sizeT ≤ i ∧
      i < (start + len) % sizeT + (n - len)) ↔ start ≤ i ∧ i < start + n := by
    simp only [granuleLen, sizeT] at *
    omega
  simp only [hall] at hbits
  rw [← hbits]
  by_cases hrest : 0 < words.2.2
  · have hzero : words.2.1 % granuleLen = 0 := hend.resolve_right (by omega)
    rw [if_pos hrest]
    have hset := bitmapGet_orMask words.1 words.2.1 i hrest (by omega)
    rwa [hzero] at hset
  · rw [if_neg hrest]
    have hout : ¬(words.2.1 ≤ i ∧ i < words.2.1 + words.2.2) := by omega
    simp only [hout, decide_false, Bool.or_false]

end Avisor
