/-
Module: AsconSuite.Proofs.SlicedPermute
Layer: Proofs
Purpose: The 32-bit permutation computes the 64-bit permutation on the bit-sliced state. Each layer of a
  round commutes with slicing, so a round does, and so does any number of rounds.
Imports: AsconSuite.Core.Permute, AsconSuite.Core.PermuteC32, AsconSuite.Proofs.SlicedWords
Trusted boundary: none
Main exports: Sliced32.permuteSbox_toSliced, Sliced32.permuteLinear_toSliced,
  Sliced32.permuteRound_toSliced, Sliced32.asconPermute_toSliced, sliced32_permute_refines_sliced64
-/
import AsconSuite.Core.Permute
import AsconSuite.Core.PermuteC32
import AsconSuite.Proofs.SlicedWords

namespace AsconSuite.Sliced32

open ByteWord BitLanes
open RotatedSharing (rotateRight_xor rotateRight_rotateRight rotateRight_of_zero)

/-! ### The substitution layer -/

/-- The lanes `p` of the five words. -/
def laneState (p : Nat) (x : AsconSuite.AsconState) : Five (BitVec 32) :=
  ⟨lane 2 p 32 x.w0, lane 2 p 32 x.w1, lane 2 p 32 x.w2, lane 2 p 32 x.w3, lane 2 p 32 x.w4⟩

theorem evens_toSliced (x : AsconSuite.AsconState) : evens (toSliced x) = laneState 0 x := by
  simp only [evens, toSliced, laneState, sliceWord_eq_lanes]

theorem odds_toSliced (x : AsconSuite.AsconState) : odds (toSliced x) = laneState 1 x := by
  simp only [odds, toSliced, laneState, sliceWord_eq_lanes]

/-- The substitution layer is bitwise, so it acts on each lane. -/
theorem asconSbox_laneState {p : Nat} (inside : p < 2) (x : AsconSuite.AsconState) :
    asconSbox (laneState p x) = laneState p (AsconSuite.permuteSbox x) := by
  have inverted (v : Word) : lane 2 p 32 (~~~v) = ~~~lane 2 p 32 v := lane_not v rfl inside
  simp only [asconSbox, laneState, AsconSuite.permuteSbox, lane_xor, lane_and, inverted]

theorem permuteSbox_toSliced (x : AsconSuite.AsconState) :
    permuteSbox (toSliced x) = toSliced (AsconSuite.permuteSbox x) := by
  rw [permuteSbox, evens_toSliced, odds_toSliced, asconSbox_laneState (by omega),
    asconSbox_laneState (by omega)]
  simp only [laneState, toSliced, sliceWord_eq_lanes]

/-! ### The linear layer -/

/-- The two rotations of the linear layer on a word, by an odd and by an even amount. -/
theorem sliceWord_linear_mixed (x : Word) {r s a b : Nat} (odd : a = 2 * r + 1) (even : b = 2 * s)
    (small : a < 64 ∧ b < 64) :
    sliceWord (x ^^^ (rightRotate64 x a ^^^ rightRotate64 x b)) =
      ⟨(sliceWord x).even ^^^ ((sliceWord x).odd.rotateRight r ^^^
          (sliceWord x).even.rotateRight s),
        (sliceWord x).odd ^^^ ((sliceWord x).even.rotateRight (r + 1) ^^^
          (sliceWord x).odd.rotateRight s)⟩ := by
  rw [rightRotate64_eq_rotateRight _ small.1, rightRotate64_eq_rotateRight _ small.2, odd, even]
  simp only [sliceWord_eq_lanes, lane_xor, lane_zero_rotate_odd, lane_zero_rotate_even,
    lane_one_rotate_odd, lane_one_rotate_even]

/-- The two rotations of the linear layer on a word, both by odd amounts. -/
theorem sliceWord_linear_odd (x : Word) {r s a b : Nat} (first : a = 2 * r + 1)
    (second : b = 2 * s + 1) (small : a < 64 ∧ b < 64) :
    sliceWord (x ^^^ (rightRotate64 x a ^^^ rightRotate64 x b)) =
      ⟨(sliceWord x).even ^^^ ((sliceWord x).odd.rotateRight r ^^^
          (sliceWord x).odd.rotateRight s),
        (sliceWord x).odd ^^^ ((sliceWord x).even.rotateRight (r + 1) ^^^
          (sliceWord x).even.rotateRight (s + 1))⟩ := by
  rw [rightRotate64_eq_rotateRight _ small.1, rightRotate64_eq_rotateRight _ small.2, first, second]
  simp only [sliceWord_eq_lanes, lane_xor, lane_zero_rotate_odd, lane_one_rotate_odd]

/-- A rotation of a sum with a rotated word, as the source writes the linear layer. -/
theorem rightRotate_xor_rightRotate (x y : BitVec 32) {a b : Nat} (ha : a < 32) (hb : b < 32) :
    rightRotate (x ^^^ rightRotate y a) b = x.rotateRight b ^^^ y.rotateRight (a + b) := by
  rw [rightRotate_eq_rotateRight _ hb, rightRotate_eq_rotateRight _ ha, rotateRight_xor,
    rotateRight_rotateRight]

theorem permuteLinear_toSliced (x : AsconSuite.AsconState) :
    permuteLinear (toSliced x) = toSliced (AsconSuite.permuteLinear x) := by
  simp only [permuteLinear, toSliced, AsconSuite.permuteLinear, Five.mk.injEq]
  refine ⟨?_, ?_, ?_, ?_, ?_⟩
  · rw [sliceWord_linear_mixed x.w0 (r := 9) (s := 14) rfl rfl (by omega),
      rightRotate_xor_rightRotate _ _ (by omega) (by omega),
      rightRotate_xor_rightRotate _ _ (by omega) (by omega)]
  · rw [BitVec.xor_comm (rightRotate64 x.w1 61),
      sliceWord_linear_odd x.w1 (r := 19) (s := 30) rfl rfl (by omega),
      rightRotate_xor_rightRotate _ _ (by omega) (by omega),
      rightRotate_xor_rightRotate _ _ (by omega) (by omega)]
  · rw [sliceWord_linear_mixed x.w2 (r := 0) (s := 3) rfl rfl (by omega),
      rightRotate_xor_rightRotate _ _ (by omega) (by omega), rightRotate_eq_rotateRight _ (by omega),
      rotateRight_of_zero]
  · rw [BitVec.xor_comm (rightRotate64 x.w3 10),
      sliceWord_linear_mixed x.w3 (r := 8) (s := 5) rfl rfl (by omega),
      rightRotate_xor_rightRotate _ _ (by omega) (by omega),
      rightRotate_xor_rightRotate _ _ (by omega) (by omega),
      BitVec.xor_comm ((sliceWord x.w3).odd.rotateRight 8),
      BitVec.xor_comm ((sliceWord x.w3).even.rotateRight (8 + 1))]
  · rw [sliceWord_linear_odd x.w4 (r := 3) (s := 20) rfl rfl (by omega),
      rightRotate_xor_rightRotate _ _ (by omega) (by omega),
      rightRotate_xor_rightRotate _ _ (by omega) (by omega)]

/-! ### Rounds -/

/-- The table of the 32-bit backend holds the sliced round constants. -/
theorem sliceWord_roundConstant : ∀ round < 12, sliceWord (roundConstant round) = rc round := by
  decide

/-- One round commutes with slicing. -/
theorem permuteRound_toSliced (x : AsconSuite.AsconState) {round : Nat} (inside : round < 12) :
    permuteRound (toSliced x) round = toSliced (AsconSuite.permuteRound x round) := by
  have constant : ({ toSliced x with w2 := addSliced (toSliced x).w2 (rc round) } : AsconState) =
      toSliced { x with w2 := x.w2 ^^^ roundConstant round } := by
    simp only [toSliced, sliceWord_xor, sliceWord_roundConstant round inside]
  rw [permuteRound, constant, permuteSbox_toSliced, permuteLinear_toSliced, AsconSuite.permuteRound]

/-- The rounds from `firstRound` on commute with slicing. -/
theorem permuteRounds_toSliced (x : AsconSuite.AsconState) (firstRound : Nat) :
    permuteRounds (toSliced x) firstRound = toSliced (AsconSuite.permuteRounds x firstRound) := by
  induction x, firstRound using AsconSuite.permuteRounds.induct with
  | case1 x firstRound inside ih =>
      rw [permuteRounds, if_pos inside, AsconSuite.permuteRounds, if_pos inside,
        permuteRound_toSliced x inside, ih]
  | case2 x firstRound done =>
      rw [permuteRounds, if_neg done, AsconSuite.permuteRounds, if_neg done]

theorem invertX2_toSliced (x : AsconSuite.AsconState) :
    invertX2 (toSliced x) = toSliced { x with w2 := ~~~x.w2 } := by
  have even : lane 2 0 32 (~~~x.w2) = ~~~lane 2 0 32 x.w2 := lane_not _ rfl (by omega)
  have odd : lane 2 1 32 (~~~x.w2) = ~~~lane 2 1 32 x.w2 := lane_not _ rfl (by omega)
  simp only [invertX2, toSliced, sliceWord_eq_lanes, even, odd]

/-- The 32-bit permutation of the sliced state is the sliced 64-bit permutation. -/
theorem asconPermute_toSliced (state : AsconSuite.AsconState) (firstRound : Nat) :
    asconPermute (toSliced state) firstRound =
      toSliced (AsconSuite.asconPermute state firstRound) := by
  rw [asconPermute, invertX2_toSliced, permuteRounds_toSliced, invertX2_toSliced,
    AsconSuite.asconPermute]

/-- The even and odd bits of every word are what the sliced state holds. -/
theorem toSliced_bits (state : AsconSuite.AsconState) {i bit : Nat} (hi : i < 5) (inside : bit < 32) :
    ((toSliced state).get i).even.getLsbD bit = (state.get i).getLsbD (2 * bit) ∧
      ((toSliced state).get i).odd.getLsbD bit = (state.get i).getLsbD (2 * bit + 1) := by
  have word : (toSliced state).get i = sliceWord (state.get i) := by interval_cases i <;> rfl
  rw [word, sliceWord_eq_lanes]
  exact ⟨getLsbD_lane_of_lt 2 0 _ inside, getLsbD_lane_of_lt 2 1 _ inside⟩

end AsconSuite.Sliced32

namespace AsconSuite

open Sliced32

/-- The bit-sliced permutation of the 32-bit backend refines the permutation of the 64-bit backend: on
the even and odd bits of any state it computes the even and odd bits of the result, whatever the first
round. The conversions between the two forms are inverse to each other, and so are `ascon_separate` and
`ascon_combine`. -/
theorem sliced32_permute_refines_sliced64 :
    (∀ (state : AsconState) (firstRound : Nat),
      ofSliced (Sliced32.asconPermute (toSliced state) firstRound) =
        asconPermute state firstRound) ∧
    (∀ (state : AsconState) (i : Fin 5) (bit : Fin 32),
      ((toSliced state).get i).even.getLsbD bit = (state.get i).getLsbD (2 * bit) ∧
        ((toSliced state).get i).odd.getLsbD bit = (state.get i).getLsbD (2 * bit + 1)) ∧
    (∀ state : AsconState, ofSliced (toSliced state) = state) ∧
    (∀ state : Sliced32.AsconState, toSliced (ofSliced state) = state) ∧
    (∀ x : BitVec 32, asconCombine (asconSeparate x) = x) ∧
    (∀ x : BitVec 32, asconSeparate (asconCombine x) = x) := by
  refine ⟨?_, ?_, ofSliced_toSliced, toSliced_ofSliced, asconCombine_asconSeparate,
    asconSeparate_asconCombine⟩
  · intro state firstRound
    rw [asconPermute_toSliced, ofSliced_toSliced]
  · intro state i bit
    exact toSliced_bits state i.isLt bit.isLt

end AsconSuite
