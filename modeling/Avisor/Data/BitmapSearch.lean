import Avisor.Data.Bitmap
import Mathlib.Data.Nat.Find

/-!
# The search for a run of bits

`bitmap_find_consec` against what it is for: the first run of `n` bits that fits in the map, found
without reading behind the map. A count goes on to the end of the granule it is in, so the bits that
the last granule has behind `size` decide what the search makes of a run that reaches `size`.
-/

namespace Avisor

/-- `BITMAP_SIZE`: how many granules a map of `size` bits has. -/
def bitmapSize (size : Nat) : Nat :=
  size / granuleLen + if size % granuleLen = 0 then 0 else 1

/-- The granules that the loop of `bitmap_find_nth` reads. -/
def bitmapFindNthLoopReads (map : Bitmap) (nth : Nat) (set : Bool) : Nat → Nat → Nat → List Nat
  | 0, _, _ => []
  | left + 1, i, count =>
    i / granuleLen ::
      if bitmapGet map i = set then
        if count + 1 = nth then [] else bitmapFindNthLoopReads map nth set left (i + 1) (count + 1)
      else bitmapFindNthLoopReads map nth set left (i + 1) count

/-- The granules that `bitmap_find_nth` reads. -/
def bitmapFindNthReads (map : Bitmap) (size nth start : Nat) (set : Bool) : List Nat :=
  if size = 0 ∨ nth = 0 then [] else bitmapFindNthLoopReads map nth set (size - start) start 0

/-- The granules that the word loop of `bitmap_count_consecutive` reads. -/
def bitmapCountWordsReads (map : Bitmap) (size n : Nat) (mask : BitVec 32) : Nat → Nat → Nat → List Nat
  | 0, _, _ => []
  | fuel + 1, pos, count =>
    if pos < size then
      pos / granuleLen ::
        if map (pos / granuleLen) = mask ∧ count < n then
          bitmapCountWordsReads map size n mask fuel (pos + granuleLen) (count + granuleLen)
        else []
    else []

/-- The granules that the bit loop of `bitmap_count_consecutive` reads. -/
def bitmapCountBitsReads (map : Bitmap) (size n : Nat) (set : Bool) : Nat → Nat → Nat → List Nat
  | 0, _, _ => []
  | fuel + 1, pos, count =>
    if pos < size then
      pos / granuleLen ::
        if bitmapGet map pos = set ∧ count < n then
          bitmapCountBitsReads map size n set fuel (pos + 1) (count + 1)
        else []
    else []

/-- The granules that `bitmap_count_consecutive` reads. The bit at `start` is read before `n` is
tested, and the first granule is tested without a look at `size`. -/
def bitmapCountConsecutiveReads (map : Bitmap) (size start n : Nat) : List Nat :=
  let set := bitmapGet map start
  start / granuleLen ::
    if n ≤ 1 then []
    else
      let first := bitmapCountFirst map start n
      let mask := if set then ~~~0#32 else 0#32
      let words := bitmapCountWords map size n mask (size - start) (start + first) first
      start / granuleLen ::
        (bitmapCountWordsReads map size n mask (size - start) (start + first) first ++
          bitmapCountBitsReads map size n set (size - words.1) words.1 words.2)

/-- The granules that the loop of `bitmap_find_consec` reads. -/
def bitmapFindConsecLoopReads (map : Bitmap) (size n : Nat) : Nat → Nat → List Nat
  | 0, _ => []
  | fuel + 1, i =>
    if i < size then
      let count := bitmapCountConsecutive map size i n
      bitmapCountConsecutiveReads map size i n ++
        if count < n then
          bitmapCountConsecutiveReads map size (i + count) sizeMax ++
            bitmapFindConsecLoopReads map size n fuel
              (i + count + bitmapCountConsecutive map size (i + count) sizeMax)
        else []
    else []

/-- The granules that `bitmap_find_consec` reads. -/
def bitmapFindConsecReads (map : Bitmap) (size start n : Nat) (set : Bool) : List Nat :=
  let first := bitmapFindNth map size 1 start set
  bitmapFindNthReads map size 1 start set ++ bitmapFindConsecLoopReads map size n (size - first) first

/-- All granules that are read belong to the map. -/
def InMap (size : Nat) (reads : List Nat) : Prop := ∀ w ∈ reads, w < bitmapSize size

/-- A run of `n` bits from `p` on lies between `start` and `size`. -/
def RunFits (map : Bitmap) (size start n : Nat) (set : Bool) (p : Nat) : Prop :=
  start ≤ p ∧ p + n ≤ size ∧ BitRun map set p n

/-- What the search is for: the first run that fits, or `-1` if none does, and no granule behind the map
is read. -/
structure FindsFirst (map : Bitmap) (size start n : Nat) (set : Bool) : Prop where
  first : (∃ p, RunFits map size start n set p ∧ (∀ q, RunFits map size start n set q → p ≤ q) ∧
      bitmapFindConsec map size start n set = p) ∨
    (∀ p, ¬RunFits map size start n set p) ∧ bitmapFindConsec map size start n set = sizeMax
  inMap : InMap size (bitmapFindConsecReads map size start n set)

/-- The run that reaches `size`, from its first bit on. -/
structure LastRun (map : Bitmap) (size start : Nat) (set : Bool) (t : Nat) : Prop where
  le : start ≤ t
  lt : t < size
  run : BitRun map set t (size - t)
  first : t = start ∨ bitmapGet map (t - 1) ≠ set

/-- How far a count from `t` on looks: to the end of the last granule, or only up to `n` bits if it
starts there. -/
def countLimit (size n t : Nat) : Nat :=
  if bitmapSize size * granuleLen ≤ t + granuleLen then min (bitmapSize size * granuleLen) (t + n)
  else bitmapSize size * granuleLen

/-- The run that reaches `size` ends behind it, before the count does. -/
def LastRunEnds (map : Bitmap) (size start n : Nat) (set : Bool) : Prop :=
  ∀ t, LastRun map size start set t →
    ∃ j, size ≤ j ∧ j < countLimit size n t ∧ bitmapGet map j ≠ set

variable {map : Bitmap} {size start n pos count i t fuel : Nat} {set : Bool} {mask : BitVec 32}

/-! ### Granules that are read -/

theorem bitmapSize_mul (size : Nat) :
    size ≤ bitmapSize size * granuleLen ∧ bitmapSize size * granuleLen < size + granuleLen := by
  unfold bitmapSize
  split <;> simp only [granuleLen] at * <;> omega

theorem granule_lt_size : i / granuleLen < bitmapSize size ↔ i / granuleLen * granuleLen < size := by
  have hsize := bitmapSize_mul size
  simp only [granuleLen] at *
  omega

theorem granule_lt_of_lt (h : i < size) : i / granuleLen < bitmapSize size := by
  apply granule_lt_size.mpr
  exact Nat.lt_of_le_of_lt (Nat.div_mul_le_self i granuleLen) h

@[simp] theorem inMap_nil : InMap size [] := fun _ hw => absurd hw List.not_mem_nil

@[simp] theorem inMap_cons {w : Nat} {reads : List Nat} :
    InMap size (w :: reads) ↔ w < bitmapSize size ∧ InMap size reads :=
  List.forall_mem_cons

@[simp] theorem inMap_append {reads reads' : List Nat} :
    InMap size (reads ++ reads') ↔ InMap size reads ∧ InMap size reads' :=
  List.forall_mem_append

theorem inMap_findNthLoop {nth left : Nat} (h : i + left ≤ size ∨ left = 0) :
    InMap size (bitmapFindNthLoopReads map nth set left i count) := by
  induction left generalizing i count with
  | zero => exact inMap_nil
  | succ left ih =>
    rw [bitmapFindNthLoopReads, inMap_cons]
    constructor
    · exact granule_lt_of_lt (by omega)
    · split
      · split
        · exact inMap_nil
        · exact ih (by omega)
      · exact ih (by omega)

theorem inMap_findNth (nth : Nat) : InMap size (bitmapFindNthReads map size nth start set) := by
  rw [bitmapFindNthReads]
  split
  · exact inMap_nil
  · exact inMap_findNthLoop (by omega)

theorem inMap_countWords : InMap size (bitmapCountWordsReads map size n mask fuel pos count) := by
  induction fuel generalizing pos count with
  | zero => exact inMap_nil
  | succ fuel ih =>
    rw [bitmapCountWordsReads]
    split
    next hpos =>
      rw [inMap_cons]
      constructor
      · exact granule_lt_of_lt hpos
      · split
        · exact ih
        · exact inMap_nil
    · exact inMap_nil

theorem inMap_countBits : InMap size (bitmapCountBitsReads map size n set fuel pos count) := by
  induction fuel generalizing pos count with
  | zero => exact inMap_nil
  | succ fuel ih =>
    rw [bitmapCountBitsReads]
    split
    next hpos =>
      rw [inMap_cons]
      constructor
      · exact granule_lt_of_lt hpos
      · split
        · exact ih
        · exact inMap_nil
    · exact inMap_nil

/-- A count stays in the map if it starts in one of its granules. -/
theorem inMap_count : InMap size (bitmapCountConsecutiveReads map size start n) ↔
    start / granuleLen < bitmapSize size := by
  rw [bitmapCountConsecutiveReads]
  split
  · simp only [inMap_cons, inMap_nil, and_true]
  · simp only [inMap_cons, inMap_append, inMap_countWords, inMap_countBits, and_true, and_self]

/-! ### How far a count goes -/

theorem bitmapCountFirst_eq (map : Bitmap) (start n : Nat) :
    bitmapCountFirst map start n = 0 ∨
      bitmapCountFirst map start n = min (granuleLen - start % granuleLen) n := by
  unfold bitmapCountFirst
  dsimp only
  generalize (if bitmapGet map start = true then _ else _) = mask
  split
  · exact .inr rfl
  · exact .inl rfl

/-- A granule whose bits are alike where the mask is set passes the test of the first granule. -/
theorem bitmapCountFirst_of_run (hn : 1 ≤ n)
    (hrun : BitRun map (bitmapGet map start) start (min (granuleLen - start % granuleLen) n)) :
    bitmapCountFirst map start n = min (granuleLen - start % granuleLen) n := by
  have hoff : start % granuleLen < granuleLen := Nat.mod_lt _ (by decide)
  unfold bitmapCountFirst
  dsimp only
  generalize hset : bitmapGet map start = set at *
  generalize hlen : min (granuleLen - start % granuleLen) n = len at *
  rw [if_pos]
  apply BitVec.eq_of_getLsbD_eq
  intro k hk
  rw [BitVec.getLsbD_and, BitVec.getLsbD_xor, BitVec.getLsbD_zero]
  by_cases hin : start % granuleLen ≤ k ∧ k < start % granuleLen + len
  · have hbit := hrun (start / granuleLen * granuleLen + k) (by simp only [granuleLen] at *; omega)
      (by simp only [granuleLen] at *; omega)
    have hword : (start / granuleLen * granuleLen + k) / granuleLen = start / granuleLen := by
      simp only [granuleLen]
      omega
    have hk' : (start / granuleLen * granuleLen + k) % granuleLen = k := by
      simp only [granuleLen]
      omega
    have hmask : (bitmapGranuleMask (start % granuleLen) len).getLsbD k = true := by
      rw [getLsbD_granuleMask (by omega) (by simp only [granuleLen] at *; omega) hk]
      exact decide_eq_true hin
    rw [bitmapGet_eq, hword, hk'] at hbit
    cases set
    · simp only [Bool.false_eq_true, if_false, BitVec.getLsbD_not, hk, decide_true, hmask, hbit,
        Bool.not_true, Bool.and_false, Bool.xor_false, Bool.false_and]
    · simp only [if_true, hmask, hbit, Bool.xor_self, Bool.false_and]
  · have hmask : (bitmapGranuleMask (start % granuleLen) len).getLsbD k = false := by
      rw [getLsbD_granuleMask (by omega) (by simp only [granuleLen] at *; omega) hk]
      exact decide_eq_false hin
    rw [hmask, Bool.and_false]

/-- A granule of equal bits is one of the two that the word loop takes. -/
theorem granule_of_run (haligned : pos % granuleLen = 0) (hrun : BitRun map set pos granuleLen) :
    map (pos / granuleLen) = if set then ~~~0#32 else 0#32 := by
  apply BitVec.eq_of_getLsbD_eq
  intro k hk
  have hbit := hrun (pos + k) (by omega) (by simp only [granuleLen] at *; omega)
  have hword : (pos + k) / granuleLen = pos / granuleLen := by
    simp only [granuleLen] at *
    omega
  have hk' : (pos + k) % granuleLen = k := by
    simp only [granuleLen] at *
    omega
  rw [bitmapGet_eq, hword, hk'] at hbit
  rw [hbit]
  cases set
  · simp only [Bool.false_eq_true, if_false, BitVec.getLsbD_zero]
  · simp only [if_true, BitVec.getLsbD_not, hk, decide_true, BitVec.getLsbD_zero, Bool.not_false,
      Bool.and_true]

/-- The word loop does not move, or it ends at the start of a granule, at most in the one behind
`size`. -/
theorem bitmapCountWords_end (size fuel : Nat)
    (hstart : pos % granuleLen = 0 ∨ n ≤ count ∨ map (pos / granuleLen) ≠ mask) :
    (bitmapCountWords map size n mask fuel pos count).1 = pos ∨
      (bitmapCountWords map size n mask fuel pos count).1 % granuleLen = 0 ∧
        (bitmapCountWords map size n mask fuel pos count).1 < size + granuleLen := by
  induction fuel generalizing pos count with
  | zero => exact .inl rfl
  | succ fuel ih =>
    rw [bitmapCountWords]
    by_cases hpass : pos < size ∧ map (pos / granuleLen) = mask ∧ count < n
    · rw [if_pos hpass]
      have haligned : pos % granuleLen = 0 := by
        rcases hstart with hstart | hstart | hstart
        · exact hstart
        · omega
        · exact absurd hpass.2.1 hstart
      have hnext : (pos + granuleLen) % granuleLen = 0 := by rw [Nat.add_mod_right, haligned]
      rcases @ih (pos + granuleLen) (count + granuleLen) (.inl hnext) with hend | hend
      · rw [hend]
        exact .inr ⟨hnext, by omega⟩
      · exact .inr hend
    · rw [if_neg hpass]
      exact .inl rfl

/-- The bit loop does not go beyond `size`. -/
theorem bitmapCountBits_le (map : Bitmap) (size n : Nat) (set : Bool) (fuel pos count : Nat) :
    bitmapCountBits map size n set fuel pos count ≤ count + (size - pos) := by
  induction fuel generalizing pos count with
  | zero => exact Nat.le_add_right _ _
  | succ fuel ih =>
    rw [bitmapCountBits]
    split
    · have hrest := ih (pos + 1) (count + 1)
      omega
    · exact Nat.le_add_right _ _

theorem bitmapCountBits_ge (map : Bitmap) (size n : Nat) (set : Bool) (fuel pos count : Nat) :
    count ≤ bitmapCountBits map size n set fuel pos count := by
  induction fuel generalizing pos count with
  | zero => exact Nat.le_refl _
  | succ fuel ih =>
    rw [bitmapCountBits]
    split
    · have hrest := ih (pos + 1) (count + 1)
      omega
    · exact Nat.le_refl _

/-- In granules of equal bits the word loop goes on to the end of the map, unless it has counted
`n`. -/
theorem bitmapCountWords_full (hmask : mask = if set then ~~~0#32 else 0#32)
    (haligned : pos % granuleLen = 0) (hle : pos ≤ bitmapSize size * granuleLen)
    (hrun : ∀ j, pos ≤ j → j < bitmapSize size * granuleLen → bitmapGet map j = set)
    (hcount : size + count < pos + n) (hfuel : size ≤ pos + fuel) :
    (bitmapCountWords map size n mask fuel pos count).1 = bitmapSize size * granuleLen := by
  have hsize := bitmapSize_mul size
  induction fuel generalizing pos count with
  | zero =>
    simp only [bitmapCountWords, granuleLen] at *
    omega
  | succ fuel ih =>
    rw [bitmapCountWords]
    by_cases hpos : pos < size
    · have hnext : pos + granuleLen ≤ bitmapSize size * granuleLen := by
        simp only [granuleLen] at *
        omega
      have hgranule := granule_of_run haligned fun j hj hlt => hrun j hj (by omega)
      rw [if_pos ⟨hpos, hgranule.trans hmask.symm, by omega⟩]
      apply ih
      · rw [Nat.add_mod_right, haligned]
      · exact hnext
      · exact fun j hj hlt => hrun j (by omega) hlt
      · omega
      · simp only [granuleLen]
        omega
    · rw [if_neg fun hpass => hpos hpass.1]
      simp only [granuleLen] at *
      omega

theorem countLimit_le_iff (size n t i : Nat) : countLimit size n t ≤ i ↔ bitmapSize size * granuleLen ≤ i ∨
    bitmapSize size * granuleLen ≤ t + granuleLen ∧ t + n ≤ i := by
  unfold countLimit
  split <;> omega

/-- A count that goes beyond `size` has looked as far as its limit. -/
theorem countLimit_le (hn : 1 ≤ n) (hlt : start < size)
    (hpast : size < start + bitmapCountConsecutive map size start n) :
    countLimit size n start ≤ start + bitmapCountConsecutive map size start n := by
  have hsize := bitmapSize_mul size
  obtain ⟨hcounted, hstop, -⟩ := bitmapCountConsecutive_spec map size start hn
  unfold bitmapCountConsecutive at *
  by_cases hone : n ≤ 1
  · rw [if_pos hone] at hpast
    omega
  rw [if_neg hone] at *
  dsimp only at *
  generalize hset : bitmapGet map start = set at *
  have hfirst := bitmapCountFirst_eq map start n
  obtain ⟨hrun, haligned⟩ := bitmapCountFirst_spec size hn hset
  obtain ⟨hwords, -⟩ := hrun.words (size - start) rfl haligned
  have hend := bitmapCountWords_end size (size - start) haligned
  generalize bitmapCountWords map size n _ (size - start) _ _ = words at *
  have hbits := bitmapCountBits_le map size n set (size - words.1) words.1 words.2
  have hkept := bitmapCountBits_ge map size n set (size - words.1) words.1 words.2
  have hpos := hwords.pos_eq
  rw [countLimit_le_iff]
  -- the bit loop stops at `size`, so it is one of the two faster tests that went beyond
  generalize bitmapCountBits map size n set (size - words.1) words.1 words.2 = count at *
  simp only [granuleLen] at *
  rcases hend with hend | ⟨hend, hnear⟩
  · rcases hfirst with hfirst | hfirst
    · omega
    · omega
  · omega

/-- If all bits up to the limit are alike, the count reaches `n` or the end of the map. -/
theorem count_of_full (hlt : start < size) (hfit : size < start + n)
    (hfull : ∀ j, start ≤ j → j < countLimit size n start → bitmapGet map j = bitmapGet map start) :
    n ≤ bitmapCountConsecutive map size start n ∨
      bitmapSize size * granuleLen ≤ start + bitmapCountConsecutive map size start n := by
  have hsize := bitmapSize_mul size
  have hlimit := countLimit_le_iff size n start
  have hn : ¬n ≤ 1 := by omega
  have hfirst : bitmapCountFirst map start n = min (granuleLen - start % granuleLen) n := by
    apply bitmapCountFirst_of_run (by omega)
    intro j hj hend
    apply hfull j hj
    rw [← Nat.not_le, hlimit]
    simp only [granuleLen] at *
    omega
  unfold bitmapCountConsecutive
  rw [if_neg hn]
  dsimp only
  generalize hset : bitmapGet map start = set at *
  obtain ⟨hrun, haligned⟩ := bitmapCountFirst_spec size (show 1 ≤ n by omega) hset
  obtain ⟨hwords, hle⟩ := hrun.words (size - start) rfl haligned
  -- a granule behind the first one is there only if the first one was counted to its end
  have hword : start + granuleLen < bitmapSize size * granuleLen →
      (bitmapCountWords map size n (if set then ~~~0#32 else 0#32) (size - start)
        (start + bitmapCountFirst map start n) (bitmapCountFirst map start n)).1 =
        bitmapSize size * granuleLen := by
    intro hmore
    apply bitmapCountWords_full rfl
    · rw [hfirst]
      simp only [granuleLen] at *
      omega
    · rw [hfirst]
      simp only [granuleLen] at *
      omega
    · intro j hj hend
      apply hfull j (by omega)
      rw [← Nat.not_le, hlimit]
      omega
    · omega
    · omega
  generalize bitmapCountWords map size n _ (size - start) _ _ = words at *
  have hkept := bitmapCountBits_ge map size n set (size - words.1) words.1 words.2
  have hpos := hwords.pos_eq
  rw [hfirst] at hle
  simp only [granuleLen] at *
  omega

/-! ### The search -/

/-- Where a pass of the search starts: at the first bit of a run, or behind the map. -/
structure AtRun (map : Bitmap) (size start : Nat) (set : Bool) (i : Nat) : Prop where
  le : start ≤ i
  run : i < size → bitmapGet map i = set ∧ (i = start ∨ bitmapGet map (i - 1) ≠ set)
  stop : size ≤ i → start < size → bitmapGet map (size - 1) ≠ set

theorem LastRun.eq {u : Nat} (h : LastRun map size start set t) (h' : LastRun map size start set u) :
    t = u := by
  have hlt := h.lt
  have hlt' := h'.lt
  by_contra hne
  rcases Nat.lt_or_gt_of_ne hne with hless | hless
  · rcases h'.first with hfirst | hfirst
    · exact absurd h.le (by omega)
    · exact hfirst (h.run (u - 1) (by omega) (by omega))
  · rcases h.first with hfirst | hfirst
    · exact absurd h'.le (by omega)
    · exact hfirst (h'.run (t - 1) (by omega) (by omega))

/-- A run that is counted to `size` is the last one. -/
theorem AtRun.lastRun (h : AtRun map size start set i) (hlt : i < size) (hrun : BitRun map set i count)
    (hend : size ≤ i + count) : LastRun map size start set i where
  le := h.le
  lt := hlt
  run := fun j hj hj' => hrun j hj (by omega)
  first := (h.run hlt).2

/-- A pass that ends below `size` leaves no run of `n` bits behind and is at the next run. -/
theorem AtRun.pass (h : AtRun map size start set i) (hn : 1 ≤ n) (hsize : size + granuleLen < sizeMax)
    (hlt : i < size) (hcount : bitmapCountConsecutive map size i n < n)
    (hin : i + bitmapCountConsecutive map size i n < size) :
    AtRun map size start set (i + bitmapCountConsecutive map size i n +
      bitmapCountConsecutive map size (i + bitmapCountConsecutive map size i n) sizeMax) ∧
    i < i + bitmapCountConsecutive map size i n +
      bitmapCountConsecutive map size (i + bitmapCountConsecutive map size i n) sizeMax ∧
    ∀ p, i ≤ p → p < i + bitmapCountConsecutive map size i n +
      bitmapCountConsecutive map size (i + bitmapCountConsecutive map size i n) sizeMax →
        ¬BitRun map set p n := by
  obtain ⟨hrun, hstop, hpos⟩ := bitmapCountConsecutive_spec map size i hn
  rw [(h.run hlt).1] at hrun hstop
  generalize bitmapCountConsecutive map size i n = count at *
  obtain ⟨hgap, hend, hgapPos⟩ := bitmapCountConsecutive_spec map size (i + count)
    (show 1 ≤ sizeMax by decide)
  generalize bitmapCountConsecutive map size (i + count) sizeMax = gap at *
  have hother : bitmapGet map (i + count) ≠ set := (hstop hcount).resolve_left (by omega)
  have hshort : gap < sizeMax := Nat.lt_of_le_of_lt hgap.le (by omega)
  have hgapPos := hgapPos hin
  have hpos := hpos hlt
  have hgapBit (j : Nat) (hj : i + count ≤ j) (hj' : j < i + count + gap) : bitmapGet map j ≠ set := by
    rwa [hgap.bits j hj hj']
  refine ⟨⟨by have := h.le; omega, fun hnext => ⟨?_, .inr ?_⟩, fun hnext _ => ?_⟩, by omega, ?_⟩
  · have hdiffers := (hend hshort).resolve_left (by omega)
    rw [Bool.eq_not_of_ne hother] at hdiffers
    exact (Bool.eq_not_of_ne hdiffers).trans (Bool.not_not set)
  · exact hgapBit _ (by omega) (by omega)
  · exact hgapBit _ (by omega) (by omega)
  · intro p hp hnext hrunp
    by_cases hgapp : i + count ≤ p
    · exact hgapBit p hgapp hnext (hrunp p (Nat.le_refl p) (by omega))
    · exact hother (hrunp (i + count) (by omega) (by omega))

theorem findConsecLoop_behind (map : Bitmap) (n fuel : Nat) (hle : size ≤ i) :
    bitmapFindConsecLoop map size n fuel i = i ∧ bitmapFindConsecLoopReads map size n fuel i = [] := by
  cases fuel with
  | zero => exact ⟨rfl, rfl⟩
  | succ fuel =>
    rw [bitmapFindConsecLoop, bitmapFindConsecLoopReads, if_neg (by omega), if_neg (by omega)]
    exact ⟨rfl, rfl⟩

/-- If a run fits, the search stops in front of the end of the map. -/
theorem inMap_findConsecLoop_of_fits {p : Nat} (h : AtRun map size start set i) (hn : 1 ≤ n)
    (hsize : size + granuleLen < sizeMax) (hfit : RunFits map size i n set p) :
    InMap size (bitmapFindConsecLoopReads map size n fuel i) := by
  induction fuel generalizing i with
  | zero => exact inMap_nil
  | succ fuel ih =>
    obtain ⟨hp, hend, hrunp⟩ := hfit
    have hlt : i < size := by omega
    rw [bitmapFindConsecLoopReads, if_pos hlt]
    dsimp only
    rw [inMap_append]
    refine ⟨inMap_count.mpr (granule_lt_of_lt hlt), ?_⟩
    by_cases hcount : bitmapCountConsecutive map size i n < n
    · obtain ⟨hrun, hstop, -⟩ := bitmapCountConsecutive_spec map size i hn
      have hin : i + bitmapCountConsecutive map size i n < size := by omega
      obtain ⟨hnext, -, hnone⟩ := h.pass hn hsize hlt hcount hin
      rw [if_pos hcount, inMap_append]
      refine ⟨inMap_count.mpr (granule_lt_of_lt hin), ih hnext ⟨?_, hend, hrunp⟩⟩
      exact Nat.le_of_not_lt fun hbefore => hnone p hp hbefore hrunp
    · rw [if_neg hcount]
      exact inMap_nil

/-- The count of the last run sees it end if and only if it comes to less than `n` and stays in the
map. -/
theorem LastRun.ends_iff (h : LastRun map size start set t) (hn : 1 ≤ n) (hfit : size < t + n)
    (hend : size ≤ t + bitmapCountConsecutive map size t n) :
    LastRunEnds map size start n set ↔ bitmapCountConsecutive map size t n < n ∧
      t + bitmapCountConsecutive map size t n < bitmapSize size * granuleLen := by
  have hset : bitmapGet map t = set := h.run t (Nat.le_refl t) (by have := h.lt; omega)
  have hrun := (bitmapCountConsecutive_spec map size t hn).1.bits
  have hlimit := countLimit_le_iff size n t
  constructor
  · intro hends
    obtain ⟨j, hj, hjlt, hbit⟩ := hends t h
    have hcounted : t + bitmapCountConsecutive map size t n ≤ j := by
      by_contra hless
      exact hbit ((hrun j (by have := h.lt; omega) (by omega)).trans hset)
    have hle : countLimit size n t ≤ bitmapSize size * granuleLen := (hlimit _).mpr (.inl (Nat.le_refl _))
    constructor
    · by_contra hcount
      have hpast : countLimit size n t ≤ t + bitmapCountConsecutive map size t n :=
        countLimit_le hn h.lt (by omega)
      omega
    · omega
  · rintro ⟨hcount, hin⟩ u hu
    rw [← h.eq hu]
    by_contra hall
    have hfull : ∀ j, t ≤ j → j < countLimit size n t → bitmapGet map j = bitmapGet map t := by
      intro j hj hjlt
      by_cases hless : j < t + bitmapCountConsecutive map size t n
      · exact hrun j hj hless
      · by_contra hbit
        exact hall ⟨j, by omega, hjlt, by rwa [hset] at hbit⟩
    rcases count_of_full h.lt hfit hfull with hcounted | hcounted
    · omega
    · omega

theorem AtRun.no_lastRun (h : AtRun map size start set i) (hle : size ≤ i) (hstart : start < size) :
    ¬LastRun map size start set t :=
  fun ht => h.stop hle hstart (ht.run (size - 1) (Nat.le_sub_one_of_lt ht.lt) (by have := ht.lt; omega))

/-- If no run fits, the search goes to the end of the map and stays in it just if it sees the last run
end. -/
theorem findConsecLoop_iff (h : AtRun map size start set i) (hn : 1 ≤ n)
    (hsize : size + granuleLen < sizeMax) (hfuel : size ≤ i + fuel)
    (hnone : ∀ p, ¬RunFits map size start n set p) (hstart : start < size) :
    size ≤ bitmapFindConsecLoop map size n fuel i ∧
        InMap size (bitmapFindConsecLoopReads map size n fuel i) ↔
      LastRunEnds map size start n set := by
  induction fuel generalizing i with
  | zero => exact ⟨fun _ t ht => absurd ht (h.no_lastRun hfuel hstart), fun _ => ⟨hfuel, inMap_nil⟩⟩
  | succ fuel ih =>
    by_cases hlt : i < size
    · obtain ⟨hrun, hstop, hpos⟩ := bitmapCountConsecutive_spec map size i hn
      rw [(h.run hlt).1] at hrun
      rw [bitmapFindConsecLoop, bitmapFindConsecLoopReads, if_pos hlt, if_pos hlt]
      dsimp only
      have hreads : InMap size (bitmapCountConsecutiveReads map size i n) :=
        inMap_count.mpr (granule_lt_of_lt hlt)
      by_cases hin : bitmapCountConsecutive map size i n < n ∧
          i + bitmapCountConsecutive map size i n < size
      · obtain ⟨hnext, hless, -⟩ := h.pass hn hsize hlt hin.1 hin.2
        have hgap : InMap size (bitmapCountConsecutiveReads map size
            (i + bitmapCountConsecutive map size i n) sizeMax) :=
          inMap_count.mpr (granule_lt_of_lt hin.2)
        rw [if_pos hin.1, if_pos hin.1, inMap_append, inMap_append, ← ih hnext (by omega)]
        simp only [hreads, hgap, true_and]
      · have hfit : size < i + n := by
          by_contra hfit
          exact hnone i ⟨h.le, by omega, fun j hj hj' => hrun.bits j hj (by omega)⟩
        have hend : size ≤ i + bitmapCountConsecutive map size i n := by omega
        rw [(h.lastRun hlt hrun.bits hend).ends_iff hn hfit hend]
        by_cases hcount : bitmapCountConsecutive map size i n < n
        · have hbehind : size ≤ i + bitmapCountConsecutive map size i n + bitmapCountConsecutive map size
              (i + bitmapCountConsecutive map size i n) sizeMax := by omega
          obtain ⟨hloop, hnil⟩ := findConsecLoop_behind map n fuel hbehind
          rw [if_pos hcount, if_pos hcount, hloop, hnil, inMap_append, inMap_append, inMap_count (n := sizeMax),
            Nat.div_lt_iff_lt_mul (by decide)]
          simp only [hreads, hcount, hbehind, inMap_nil, and_true, true_and]
        · rw [if_neg hcount, if_neg hcount]
          exact ⟨fun hle => absurd hle.1 (by omega), fun hless => absurd hless.1 hcount⟩
    · have hle : size ≤ i := by omega
      obtain ⟨hloop, hreads⟩ := findConsecLoop_behind map n (fuel + 1) hle
      rw [hloop, hreads]
      exact ⟨fun _ t ht => absurd ht (h.no_lastRun hle hstart), fun _ => ⟨hle, inMap_nil⟩⟩

/-- The search starts at a run. -/
theorem atRun_findNth (map : Bitmap) (hsize : size < sizeMax) (hstart : start < size) (set : Bool) :
    AtRun map size start set (bitmapFindNth map size 1 start set) := by
  rcases bitmapFindNth_one map size start set with ⟨hfirst, hnone⟩ | ⟨r, rfl, hle, hlt, hbit, hnone⟩
  · rw [hfirst]
    exact ⟨by omega, fun hlt => absurd hlt (by omega), fun _ _ => hnone _ (by omega) (by omega)⟩
  · refine ⟨hle, fun _ => ⟨hbit, ?_⟩, fun hbehind => absurd hlt (by omega)⟩
    by_cases hr : bitmapFindNth map size 1 start set = start
    · exact .inl hr
    · exact .inr (hnone _ (by omega) (by omega))

/-- A run that fits is found, and the search stays in the map. -/
theorem findsFirst_of_fits {p : Nat} (hn : 1 ≤ n) (hsize : size + granuleLen < sizeMax)
    (hfit : RunFits map size start n set p) : FindsFirst map size start n set := by
  classical
  have hex : ∃ p, RunFits map size start n set p := ⟨p, hfit⟩
  have hfirst := Nat.find_spec hex
  have hmin (q : Nat) (hq : RunFits map size start n set q) : Nat.find hex ≤ q := Nat.find_min' hex hq
  generalize Nat.find hex = p at *
  obtain ⟨hp, hend, hrun⟩ := hfirst
  have hstart : start < size := by omega
  constructor
  · left
    refine ⟨p, ⟨hp, hend, hrun⟩, hmin, ?_⟩
    obtain ⟨hfound, hnone⟩ := bitmapFindConsec_spec map start set hn hsize
    have hle : bitmapFindConsec map size start n set ≤ p := by
      by_contra hlt
      exact hnone p hp (by omega) hend hrun
    rcases hfound with hfound | ⟨hge, -, hrun'⟩
    · omega
    · exact Nat.le_antisymm hle (hmin _ ⟨hge, by omega, hrun'⟩)
  · rw [bitmapFindConsecReads, inMap_append]
    refine ⟨inMap_findNth 1, ?_⟩
    have hat := atRun_findNth map (by omega) hstart set
    apply inMap_findConsecLoop_of_fits hat hn hsize (p := p)
    refine ⟨?_, hend, hrun⟩
    rcases bitmapFindNth_one map size start set with ⟨-, hnone⟩ | ⟨r, rfl, -, -, -, hnone⟩
    · exact absurd (hrun p (Nat.le_refl p) (by omega)) (hnone p hp (by omega))
    · by_contra hless
      exact hnone p hp (by omega) (hrun p (Nat.le_refl p) (by omega))

/-- `bitmap_find_consec` finds the first run that fits, without reading behind the map, if and only if
one fits or the run that reaches `size` ends in what the count sees behind `size`. -/
theorem bitmapFindConsec_findsFirst (map : Bitmap) (start : Nat) (set : Bool) (hn : 1 ≤ n)
    (hsize : size + granuleLen < sizeMax) :
    FindsFirst map size start n set ↔
      (∃ p, RunFits map size start n set p) ∨ LastRunEnds map size start n set := by
  by_cases hfits : ∃ p, RunFits map size start n set p
  · obtain ⟨p, hfit⟩ := hfits
    exact ⟨fun _ => .inl ⟨p, hfit⟩, fun _ => findsFirst_of_fits hn hsize hfit⟩
  have hnone (p : Nat) : ¬RunFits map size start n set p := fun hfit => hfits ⟨p, hfit⟩
  rw [or_iff_right hfits]
  have hfirst : FindsFirst map size start n set ↔ bitmapFindConsec map size start n set = sizeMax ∧
      InMap size (bitmapFindConsecReads map size start n set) :=
    ⟨fun h => ⟨(h.first.resolve_left fun ⟨p, hfit, _⟩ => hnone p hfit).2, h.inMap⟩,
      fun h => ⟨.inr ⟨hnone, h.1⟩, h.2⟩⟩
  rw [hfirst, bitmapFindConsecReads, inMap_append, bitmapFindConsec]
  simp only [Nat.not_lt_zero, if_false, inMap_findNth, true_and]
  by_cases hstart : start < size
  · have hat := atRun_findNth map (by omega) hstart set
    have hfuel : size ≤ bitmapFindNth map size 1 start set +
        (size - bitmapFindNth map size 1 start set) := by omega
    rw [← findConsecLoop_iff hat hn hsize hfuel hnone hstart]
    apply and_congr_left'
    split
    next hle => exact ⟨fun _ => hle, fun _ => rfl⟩
    next hlt => exact ⟨fun hmax => absurd hmax (by omega), fun hle => absurd hle hlt⟩
  · have hnth : bitmapFindNth map size 1 start set = sizeMax := by
      rcases bitmapFindNth_one map size start set with ⟨hmax, -⟩ | ⟨r, -, hle, hlt, -⟩
      · exact hmax
      · omega
    have hbehind : size ≤ bitmapFindNth map size 1 start set := by omega
    obtain ⟨hloop, hreads⟩ := findConsecLoop_behind map n (size - bitmapFindNth map size 1 start set) hbehind
    rw [hloop, hreads, if_pos hbehind]
    exact ⟨fun _ t ht => absurd (Nat.lt_of_le_of_lt ht.le ht.lt) hstart, fun _ => ⟨rfl, inMap_nil⟩⟩

/-- Thirty clear bits with a set one behind them. -/
theorem bitmapFindConsec_findsFirst_endsBehind : FindsFirst (fun _ => 1#32 <<< 30) 30 0 31 false := by
  apply (bitmapFindConsec_findsFirst (fun _ => 1#32 <<< 30) 0 false (by decide) (by decide)).mpr
  right
  intro t ht
  refine ⟨30, Nat.le_refl _, ?_, by decide⟩
  have hmap : bitmapSize 30 * granuleLen = 32 := by decide
  rw [← Nat.not_le, countLimit_le_iff, hmap]
  omega

/-- Thirty clear bits in a granule of clear bits: a search for 31 of them finds them at bit 0. -/
theorem bitmapFindConsec_beyondSize :
    ¬∀ (map : Bitmap) (size start n : Nat) (set : Bool), 1 ≤ n → size + granuleLen < sizeMax →
      FindsFirst map size start n set := by
  intro hall
  have hfind := (hall (fun _ => 0) 30 0 31 false (by decide) (by decide)).first
  have hzero : bitmapFindConsec (fun _ => 0) 30 0 31 false = 0 := by decide
  rw [hzero] at hfind
  rcases hfind with ⟨p, ⟨hp, hend, -⟩, -⟩ | ⟨-, hmax⟩
  · omega
  · exact absurd hmax (by decide)

end Avisor
