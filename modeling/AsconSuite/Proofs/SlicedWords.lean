/-
Module: AsconSuite.Proofs.SlicedWords
Layer: Proofs
Purpose: The bit-sliced form of a word. `ascon_separate` and `ascon_combine` are followed bit by bit, which
  makes the sliced pair of a word its even and its odd lane, and makes slicing and combining inverse.
Imports: AsconSuite.Core.Sliced32
Trusted boundary: none
Main exports: Sliced32.asconCombine_asconSeparate, Sliced32.asconSeparate_asconCombine,
  Sliced32.sliceWord_eq_lanes, Sliced32.combineWord_sliceWord, Sliced32.sliceWord_combineWord,
  Sliced32.toSliced, Sliced32.ofSliced
-/
import AsconSuite.Core.Sliced32

namespace AsconSuite.Sliced32

open ByteWord ByteMemory BitLanes

/-! ### The two bit permutations -/

/-- The bit that `ascon_separate` moves to position `i`. -/
def separateSource (i : Nat) : Nat := if i < 16 then 2 * i else 2 * (i - 16) + 1

/-- The bit that `ascon_combine` moves to position `i`. -/
def combineSource (i : Nat) : Nat := if i % 2 = 0 then i / 2 else 16 + i / 2

theorem separateSource_lt {i : Nat} (hi : i < 32) : separateSource i < 32 := by
  rw [separateSource]
  split <;> omega

theorem combineSource_lt {i : Nat} (hi : i < 32) : combineSource i < 32 := by
  rw [combineSource]
  split <;> omega

theorem separateSource_combineSource {i : Nat} (hi : i < 32) :
    separateSource (combineSource i) = i := by
  rw [separateSource, combineSource]
  split <;> split <;> omega

theorem combineSource_separateSource {i : Nat} (hi : i < 32) :
    combineSource (separateSource i) = i := by
  rw [separateSource, combineSource]
  split <;> split <;> omega

/-- Following a bit back through the four swaps of `ascon_separate`. -/
theorem separate_swaps : ∀ i < 32,
    swapSource 0x0000ff00#32 8 i < 32 ∧
    swapSource 0x00f000f0#32 4 (swapSource 0x0000ff00#32 8 i) < 32 ∧
    swapSource 0x0c0c0c0c#32 2 (swapSource 0x00f000f0#32 4
      (swapSource 0x0000ff00#32 8 i)) < 32 ∧
    swapSource 0x22222222#32 1 (swapSource 0x0c0c0c0c#32 2
      (swapSource 0x00f000f0#32 4 (swapSource 0x0000ff00#32 8 i))) =
      separateSource i := by
  decide

/-- Following a bit back through the four swaps of `ascon_combine`. -/
theorem combine_swaps : ∀ i < 32,
    swapSource 0x0000ff00#32 8 i < 32 ∧
    swapSource 0x0000f0f0#32 12 (swapSource 0x0000ff00#32 8 i) < 32 ∧
    swapSource 0x0000cccc#32 14 (swapSource 0x0000f0f0#32 12
      (swapSource 0x0000ff00#32 8 i)) < 32 ∧
    swapSource 0x0000aaaa#32 15 (swapSource 0x0000cccc#32 14
      (swapSource 0x0000f0f0#32 12 (swapSource 0x0000ff00#32 8 i))) =
      combineSource i := by
  decide

theorem getLsbD_asconSeparate (x : BitVec 32) {i : Nat} (hi : i < 32) :
    (asconSeparate x).getLsbD i = x.getLsbD (separateSource i) := by
  obtain ⟨step8, step4, step2, source⟩ := separate_swaps i hi
  simp only [asconSeparate]
  rw [getLsbD_bitPermuteStep _ _ hi (by decide), getLsbD_bitPermuteStep _ _ step8 (by decide),
    getLsbD_bitPermuteStep _ _ step4 (by decide), getLsbD_bitPermuteStep _ _ step2 (by decide),
    source]

theorem getLsbD_asconCombine (x : BitVec 32) {i : Nat} (hi : i < 32) :
    (asconCombine x).getLsbD i = x.getLsbD (combineSource i) := by
  obtain ⟨step8, step12, step14, source⟩ := combine_swaps i hi
  simp only [asconCombine]
  rw [getLsbD_bitPermuteStep _ _ hi (by decide), getLsbD_bitPermuteStep _ _ step8 (by decide),
    getLsbD_bitPermuteStep _ _ step12 (by decide), getLsbD_bitPermuteStep _ _ step14 (by decide),
    source]

/-- Combining undoes separating. -/
theorem asconCombine_asconSeparate (x : BitVec 32) : asconCombine (asconSeparate x) = x := by
  apply BitVec.eq_of_getLsbD_eq
  intro i hi
  rw [getLsbD_asconCombine _ hi, getLsbD_asconSeparate _ (combineSource_lt hi),
    separateSource_combineSource hi]

/-- Separating undoes combining. -/
theorem asconSeparate_asconCombine (x : BitVec 32) : asconSeparate (asconCombine x) = x := by
  apply BitVec.eq_of_getLsbD_eq
  intro i hi
  rw [getLsbD_asconSeparate _ hi, getLsbD_asconCombine _ (separateSource_lt hi),
    combineSource_separateSource hi]

theorem asconSeparate_xor (x y : BitVec 32) :
    asconSeparate (x ^^^ y) = asconSeparate x ^^^ asconSeparate y := by
  apply BitVec.eq_of_getLsbD_eq
  intro i hi
  rw [BitVec.getLsbD_xor, getLsbD_asconSeparate _ hi, getLsbD_asconSeparate _ hi,
    getLsbD_asconSeparate _ hi, BitVec.getLsbD_xor]

theorem asconCombine_xor (x y : BitVec 32) :
    asconCombine (x ^^^ y) = asconCombine x ^^^ asconCombine y := by
  apply BitVec.eq_of_getLsbD_eq
  intro i hi
  rw [BitVec.getLsbD_xor, getLsbD_asconCombine _ hi, getLsbD_asconCombine _ hi,
    getLsbD_asconCombine _ hi, BitVec.getLsbD_xor]

/-! ### Stored pairs -/

/-- Bits of the mask of the lower half. -/
theorem getLsbD_lowMask (i : Nat) : (0x0000FFFF#32).getLsbD i = decide (i < 16) := by
  rcases Nat.lt_or_ge i 32 with inside | outside
  · interval_cases i <;> rfl
  · rw [BitVec.getLsbD_of_ge _ _ outside, decide_eq_false (by omega)]

/-- Bits of the mask of the upper half. -/
theorem getLsbD_highMask {i : Nat} (hi : i < 32) :
    (0xFFFF0000#32).getLsbD i = decide (16 ≤ i) := by
  interval_cases i <;> rfl

theorem getLsbD_sliceHalves_even (high low : BitVec 32) {i : Nat} (hi : i < 32) :
    (sliceHalves high low).even.getLsbD i =
      if i < 16 then low.getLsbD i else high.getLsbD (i - 16) := by
  simp only [sliceHalves, BitVec.getLsbD_or, BitVec.getLsbD_shiftLeft, BitVec.getLsbD_and,
    getLsbD_lowMask, hi, decide_true, Bool.true_and]
  by_cases lower : i < 16 <;> simp [lower]

theorem getLsbD_sliceHalves_odd (high low : BitVec 32) {i : Nat} (hi : i < 32) :
    (sliceHalves high low).odd.getLsbD i =
      if i < 16 then low.getLsbD (i + 16) else high.getLsbD i := by
  simp only [sliceHalves, BitVec.getLsbD_or, BitVec.getLsbD_ushiftRight, BitVec.getLsbD_and,
    getLsbD_highMask hi]
  by_cases lower : i < 16
  · simp [lower, Nat.add_comm, Nat.not_le.2 lower]
  · rw [if_neg lower, BitVec.getLsbD_of_ge low _ (by omega), decide_eq_true (by omega)]
    simp

theorem slicedHigh_sliceHalves (high low : BitVec 32) : slicedHigh (sliceHalves high low) = high := by
  apply BitVec.eq_of_getLsbD_eq
  intro i hi
  simp only [slicedHigh, BitVec.getLsbD_or, BitVec.getLsbD_ushiftRight, BitVec.getLsbD_and,
    getLsbD_highMask hi, getLsbD_sliceHalves_odd high low hi]
  rcases Nat.lt_or_ge i 16 with lower | upper
  · rw [getLsbD_sliceHalves_even high low (by omega), if_neg (by omega), Nat.add_sub_cancel_left,
      decide_eq_false (by omega), Bool.and_false, Bool.or_false]
  · rw [BitVec.getLsbD_of_ge _ _ (by omega : 32 ≤ 16 + i), if_neg (by omega),
      decide_eq_true upper, Bool.and_true, Bool.false_or]

theorem slicedLow_sliceHalves (high low : BitVec 32) : slicedLow (sliceHalves high low) = low := by
  apply BitVec.eq_of_getLsbD_eq
  intro i hi
  simp only [slicedLow, BitVec.getLsbD_or, BitVec.getLsbD_shiftLeft, BitVec.getLsbD_and,
    getLsbD_lowMask, hi, decide_true, Bool.true_and, getLsbD_sliceHalves_even high low hi]
  rcases Nat.lt_or_ge i 16 with lower | upper
  · simp [lower]
  · rw [getLsbD_sliceHalves_odd high low (by omega), decide_eq_false (by omega), Bool.and_false,
      Bool.false_or, Bool.not_false, Bool.true_and, if_pos (by omega), Nat.sub_add_cancel upper]

/-- Pairs with the same halves are equal. -/
theorem SlicedWord.eq_of_halves {w v : SlicedWord} (even : w.even = v.even) (odd : w.odd = v.odd) :
    w = v := by
  cases w
  cases v
  simp_all

/-- A stored pair is what its two separated halves are stored as. -/
theorem sliceHalves_slicedHigh_slicedLow (w : SlicedWord) :
    sliceHalves (slicedHigh w) (slicedLow w) = w := by
  apply SlicedWord.eq_of_halves
  · apply BitVec.eq_of_getLsbD_eq
    intro i hi
    rw [getLsbD_sliceHalves_even _ _ hi]
    simp only [slicedHigh, slicedLow, BitVec.getLsbD_or, BitVec.getLsbD_shiftLeft,
      BitVec.getLsbD_ushiftRight, BitVec.getLsbD_and, getLsbD_lowMask]
    rcases Nat.lt_or_ge i 16 with lower | upper
    · simp [lower]
    · rw [if_neg (by omega), getLsbD_highMask (by omega), decide_eq_false (by omega),
        Nat.add_sub_cancel' upper, Bool.and_false, Bool.or_false]
  · apply BitVec.eq_of_getLsbD_eq
    intro i hi
    rw [getLsbD_sliceHalves_odd _ _ hi]
    simp only [slicedHigh, slicedLow, BitVec.getLsbD_or, BitVec.getLsbD_shiftLeft,
      BitVec.getLsbD_ushiftRight, BitVec.getLsbD_and, getLsbD_lowMask, getLsbD_highMask hi]
    rcases Nat.lt_or_ge i 16 with lower | upper
    · rw [if_pos lower, decide_eq_false (by omega : ¬ i + 16 < 16), decide_eq_true (by omega),
        Nat.add_sub_cancel]
      simp
    · rw [if_neg (by omega), BitVec.getLsbD_of_ge w.even _ (by omega), decide_eq_true upper,
        Bool.and_true, Bool.false_or]

theorem sliceHalves_xor (high low high' low' : BitVec 32) :
    sliceHalves (high ^^^ high') (low ^^^ low') =
      addSliced (sliceHalves high low) (sliceHalves high' low') := by
  apply SlicedWord.eq_of_halves
  · apply BitVec.eq_of_getLsbD_eq
    intro i hi
    rw [addSliced, BitVec.getLsbD_xor, getLsbD_sliceHalves_even _ _ hi,
      getLsbD_sliceHalves_even _ _ hi, getLsbD_sliceHalves_even _ _ hi]
    split <;> exact BitVec.getLsbD_xor
  · apply BitVec.eq_of_getLsbD_eq
    intro i hi
    rw [addSliced, BitVec.getLsbD_xor, getLsbD_sliceHalves_odd _ _ hi,
      getLsbD_sliceHalves_odd _ _ hi, getLsbD_sliceHalves_odd _ _ hi]
    split <;> exact BitVec.getLsbD_xor

/-! ### Words -/

/-- The sliced form of a word is its even lane and its odd lane. -/
theorem sliceWord_eq_lanes (value : Word) :
    sliceWord value = ⟨lane 2 0 32 value, lane 2 1 32 value⟩ := by
  apply SlicedWord.eq_of_halves
  · apply BitVec.eq_of_getLsbD_eq
    intro i hi
    rw [sliceWord, getLsbD_sliceHalves_even _ _ hi, getLsbD_lane_of_lt 2 0 _ hi]
    split
    next lower =>
      rw [getLsbD_asconSeparate _ hi, BitVec.getLsbD_setWidth, separateSource, if_pos lower,
        decide_eq_true (by omega), Bool.true_and, Nat.add_zero]
    next upper =>
      rw [getLsbD_asconSeparate _ (by omega), BitVec.getLsbD_setWidth, BitVec.getLsbD_ushiftRight,
        separateSource, if_pos (by omega), decide_eq_true (by omega), Bool.true_and]
      congr 1
      omega
  · apply BitVec.eq_of_getLsbD_eq
    intro i hi
    rw [sliceWord, getLsbD_sliceHalves_odd _ _ hi, getLsbD_lane_of_lt 2 1 _ hi]
    split
    next lower =>
      rw [getLsbD_asconSeparate _ (by omega), BitVec.getLsbD_setWidth, separateSource,
        if_neg (by omega), decide_eq_true (by omega), Bool.true_and, Nat.add_sub_cancel]
    next upper =>
      rw [getLsbD_asconSeparate _ hi, BitVec.getLsbD_setWidth, BitVec.getLsbD_ushiftRight,
        separateSource, if_neg upper, decide_eq_true (by omega), Bool.true_and]
      congr 1
      omega

/-- Combining a sliced word gives the word back. -/
theorem combineWord_sliceWord (value : Word) : combineWord (sliceWord value) = value := by
  rw [combineWord, sliceWord, slicedHigh_sliceHalves, slicedLow_sliceHalves,
    asconCombine_asconSeparate, asconCombine_asconSeparate]
  apply BitVec.eq_of_getLsbD_eq
  intro i hi
  simp only [BitVec.getLsbD_or, BitVec.getLsbD_shiftLeft, BitVec.getLsbD_setWidth,
    BitVec.getLsbD_ushiftRight, hi, decide_true, Bool.true_and]
  rcases Nat.lt_or_ge i 32 with lower | upper
  · simp [lower]
  · rw [decide_eq_false (by omega : ¬ i < 32), decide_eq_true (by omega : i - 32 < 64),
      decide_eq_true (by omega : i - 32 < 32), Nat.add_sub_cancel' upper]
    simp

/-- The upper half of a combined word. -/
theorem setWidth_combineWord_ushiftRight (w : SlicedWord) :
    ((combineWord w) >>> 32).setWidth 32 = asconCombine (slicedHigh w) := by
  apply BitVec.eq_of_getLsbD_eq
  intro i hi
  simp only [combineWord, BitVec.getLsbD_setWidth, BitVec.getLsbD_ushiftRight, BitVec.getLsbD_or,
    BitVec.getLsbD_shiftLeft, hi, decide_true, Bool.true_and, Nat.add_sub_cancel_left]
  rw [decide_eq_true (by omega : 32 + i < 64), decide_eq_false (by omega),
    decide_eq_true (by omega : i < 64), BitVec.getLsbD_of_ge _ _ (by omega : 32 ≤ 32 + i)]
  simp

/-- The lower half of a combined word. -/
theorem setWidth_combineWord (w : SlicedWord) :
    (combineWord w).setWidth 32 = asconCombine (slicedLow w) := by
  apply BitVec.eq_of_getLsbD_eq
  intro i hi
  simp only [combineWord, BitVec.getLsbD_setWidth, BitVec.getLsbD_or, BitVec.getLsbD_shiftLeft, hi,
    decide_true, Bool.true_and]
  rw [decide_eq_true (by omega : i < 64)]
  simp

/-- Slicing a combined word gives the stored pair back. -/
theorem sliceWord_combineWord (w : SlicedWord) : sliceWord (combineWord w) = w := by
  rw [sliceWord, setWidth_combineWord_ushiftRight, setWidth_combineWord, asconSeparate_asconCombine,
    asconSeparate_asconCombine, sliceHalves_slicedHigh_slicedLow]

/-- Slicing is additive. -/
theorem sliceWord_xor (x y : Word) : sliceWord (x ^^^ y) = addSliced (sliceWord x) (sliceWord y) := by
  simp only [sliceWord_eq_lanes, addSliced, lane_xor]

theorem combineWord_addSliced (w v : SlicedWord) :
    combineWord (addSliced w v) = combineWord w ^^^ combineWord v := by
  rw [← combineWord_sliceWord (combineWord w ^^^ combineWord v), sliceWord_xor, sliceWord_combineWord,
    sliceWord_combineWord]

/-! ### Rotations and bitwise operations -/

/-- The even lane after a rotation by an even amount is the even lane rotated by half of it. -/
theorem lane_zero_rotate_even (x : Word) (r : Nat) :
    lane 2 0 32 (x.rotateRight (2 * r)) = (lane 2 0 32 x).rotateRight r := by
  rw [lane_rotateRight x _ rfl (by omega), show (0 + 2 * r) % 2 = 0 by omega,
    show (0 + 2 * r) / 2 = r by omega]

/-- The even lane after a rotation by an odd amount comes from the odd lane. -/
theorem lane_zero_rotate_odd (x : Word) (r : Nat) :
    lane 2 0 32 (x.rotateRight (2 * r + 1)) = (lane 2 1 32 x).rotateRight r := by
  rw [lane_rotateRight x _ rfl (by omega), show (0 + (2 * r + 1)) % 2 = 1 by omega,
    show (0 + (2 * r + 1)) / 2 = r by omega]

theorem lane_one_rotate_even (x : Word) (r : Nat) :
    lane 2 1 32 (x.rotateRight (2 * r)) = (lane 2 1 32 x).rotateRight r := by
  rw [lane_rotateRight x _ rfl (by omega), show (1 + 2 * r) % 2 = 1 by omega,
    show (1 + 2 * r) / 2 = r by omega]

/-- The odd lane after a rotation by an odd amount comes from the even lane, one step further. -/
theorem lane_one_rotate_odd (x : Word) (r : Nat) :
    lane 2 1 32 (x.rotateRight (2 * r + 1)) = (lane 2 0 32 x).rotateRight (r + 1) := by
  rw [lane_rotateRight x _ rfl (by omega), show (1 + (2 * r + 1)) % 2 = 0 by omega,
    show (1 + (2 * r + 1)) / 2 = r + 1 by omega]

/-- The pair of a word is determined by the word it combines to. -/
theorem combineWord_eq_iff {w : SlicedWord} {x : Word} : combineWord w = x ↔ w = sliceWord x := by
  constructor
  · rintro rfl
    rw [sliceWord_combineWord]
  · rintro rfl
    rw [combineWord_sliceWord]

/-- The lanes of a combined word are the two halves of the pair. -/
theorem lane_combineWord (w : SlicedWord) :
    lane 2 0 32 (combineWord w) = w.even ∧ lane 2 1 32 (combineWord w) = w.odd := by
  have lanes := sliceWord_eq_lanes (combineWord w)
  rw [sliceWord_combineWord] at lanes
  exact ⟨(congrArg SlicedWord.even lanes).symm, (congrArg SlicedWord.odd lanes).symm⟩

/-- Operations on both halves are operations on the word. -/
theorem combineWord_and (w v : SlicedWord) :
    combineWord ⟨w.even &&& v.even, w.odd &&& v.odd⟩ = combineWord w &&& combineWord v := by
  rw [combineWord_eq_iff, sliceWord_eq_lanes, lane_and, lane_and, (lane_combineWord w).1,
    (lane_combineWord w).2, (lane_combineWord v).1, (lane_combineWord v).2]

/-- Rotating both halves rotates the word twice as far. -/
theorem combineWord_rotateRight (w : SlicedWord) (r : Nat) :
    combineWord ⟨w.even.rotateRight r, w.odd.rotateRight r⟩ = (combineWord w).rotateRight (2 * r) := by
  rw [combineWord_eq_iff, sliceWord_eq_lanes, lane_zero_rotate_even, lane_one_rotate_even,
    (lane_combineWord w).1, (lane_combineWord w).2]

/-- The word of two separated halves. -/
theorem combineWord_sliceHalves (high low : BitVec 32) :
    combineWord (sliceHalves (asconSeparate high) (asconSeparate low)) =
      (high.setWidth 64 <<< 32) ||| low.setWidth 64 := by
  rw [combineWord, slicedHigh_sliceHalves, slicedLow_sliceHalves, asconCombine_asconSeparate,
    asconCombine_asconSeparate]

/-! ### States -/

/-- The state in bit-sliced form. -/
def toSliced (state : AsconSuite.AsconState) : AsconState :=
  ⟨sliceWord state.w0, sliceWord state.w1, sliceWord state.w2, sliceWord state.w3,
    sliceWord state.w4⟩

/-- The state as words again. -/
def ofSliced (state : AsconState) : AsconSuite.AsconState :=
  ⟨combineWord state.w0, combineWord state.w1, combineWord state.w2, combineWord state.w3,
    combineWord state.w4⟩

@[simp] theorem ofSliced_toSliced (state : AsconSuite.AsconState) :
    ofSliced (toSliced state) = state := by
  simp only [ofSliced, toSliced, combineWord_sliceWord]

@[simp] theorem toSliced_ofSliced (state : AsconState) : toSliced (ofSliced state) = state := by
  simp only [ofSliced, toSliced, sliceWord_combineWord]

end AsconSuite.Sliced32
