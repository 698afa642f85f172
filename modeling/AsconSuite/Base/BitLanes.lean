/-
Module: AsconSuite.Base.BitLanes
Layer: Base (library)
Purpose: Words cut into interleaved lanes. Lane `p` of a word cut `k` ways holds the bits at positions
  `p`, `p + k`, `p + 2 k`, and so on. Bitwise operations act lane by lane, and a rotation of the word
  rotates the lanes and moves them among each other. Bit permutations built from masked swaps are
  followed through the position each bit comes from.
Imports: AsconSuite.Base.RotatedSharing
Trusted boundary: none
Main exports: lane, getLsbD_lane, lane_xor, lane_and, lane_not, lane_rotateRight,
  bitPermuteStep, swapSource, getLsbD_bitPermuteStep
-/
import AsconSuite.Base.RotatedSharing

namespace BitLanes

open RotatedSharing (getLsbD_rotateRight_eq_mod)

variable {n : Nat}

/-- The lane of `w` bits that starts at bit `p` and takes every `k`-th bit. -/
def lane (k p : Nat) : (w : Nat) → (x : BitVec n) → BitVec w
  | 0, _ => 0#0
  | w + 1, x => BitVec.cons (x.getLsbD (k * w + p)) (lane k p w x)

/-- Bit `i` of a lane. -/
theorem getLsbD_lane (k p w : Nat) (x : BitVec n) (i : Nat) :
    (lane k p w x).getLsbD i = (decide (i < w) && x.getLsbD (k * i + p)) := by
  induction w with
  | zero => simp [lane]
  | succ w ih =>
      rw [lane, BitVec.getLsbD_cons, ih]
      by_cases last : i = w
      · rw [if_pos last, last, decide_eq_true (Nat.lt_succ_self w), Bool.true_and]
      · rw [if_neg last]
        congr 1
        exact decide_eq_decide.2 (by omega)

theorem getLsbD_lane_of_lt (k p : Nat) {w : Nat} (x : BitVec n) {i : Nat} (hi : i < w) :
    (lane k p w x).getLsbD i = x.getLsbD (k * i + p) := by
  rw [getLsbD_lane, decide_eq_true hi, Bool.true_and]

/-! ### Bitwise operations -/

theorem lane_xor (k p w : Nat) (x y : BitVec n) :
    lane k p w (x ^^^ y) = lane k p w x ^^^ lane k p w y := by
  apply BitVec.eq_of_getLsbD_eq
  intro i hi
  rw [BitVec.getLsbD_xor]
  simp only [getLsbD_lane_of_lt k p _ hi, BitVec.getLsbD_xor]

theorem lane_and (k p w : Nat) (x y : BitVec n) :
    lane k p w (x &&& y) = lane k p w x &&& lane k p w y := by
  apply BitVec.eq_of_getLsbD_eq
  intro i hi
  rw [BitVec.getLsbD_and]
  simp only [getLsbD_lane_of_lt k p _ hi, BitVec.getLsbD_and]

theorem lane_not {k p w : Nat} (x : BitVec n) (width : n = k * w) (inside : p < k) :
    lane k p w (~~~x) = ~~~lane k p w x := by
  apply BitVec.eq_of_getLsbD_eq
  intro i hi
  have position : k * i + p < n := by
    calc k * i + p < k * i + k := by omega
      _ = k * (i + 1) := by rw [Nat.mul_succ]
      _ ≤ n := width ▸ Nat.mul_le_mul_left k hi
  rw [BitVec.getLsbD_not, decide_eq_true hi, getLsbD_lane_of_lt k p _ hi,
    getLsbD_lane_of_lt k p _ hi, BitVec.getLsbD_not, decide_eq_true position]

/-- A rotation of the word takes lane `p` from the lane that `p + r` falls in, rotated by the whole
strides in `p + r`. -/
theorem lane_rotateRight {k p w : Nat} (x : BitVec n) (r : Nat) (width : n = k * w)
    (inside : p < k) :
    lane k p w (x.rotateRight r) = (lane k ((p + r) % k) w x).rotateRight ((p + r) / k) := by
  apply BitVec.eq_of_getLsbD_eq
  intro i hi
  have position : k * i + p < n := by
    calc k * i + p < k * i + k := by omega
      _ = k * (i + 1) := by rw [Nat.mul_succ]
      _ ≤ n := width ▸ Nat.mul_le_mul_left k hi
  have source : (k * i + p + r) % n = k * ((i + (p + r) / k) % w) + (p + r) % k := by
    have cut : k * i + p + r = k * (i + (p + r) / k) + (p + r) % k := by
      rw [Nat.mul_add, Nat.add_assoc, Nat.add_assoc, Nat.div_add_mod]
    rw [cut, width, Nat.mod_mul, Nat.mul_add_mod, Nat.mod_mod, Nat.add_comm,
      Nat.mul_add_div (by omega), Nat.div_eq_of_lt (Nat.mod_lt _ (by omega)), Nat.add_zero]
  rw [getLsbD_lane_of_lt k p _ hi, getLsbD_rotateRight_eq_mod _ _ position, source,
    getLsbD_rotateRight_eq_mod _ _ hi, getLsbD_lane_of_lt k _ _ (Nat.mod_lt _ (by omega))]

/-! ### Masked swaps -/

/-- Swap the bits under `mask` with the bits `shift` positions above them. -/
def bitPermuteStep (y mask : BitVec n) (shift : Nat) : BitVec n :=
  let t := ((y >>> shift) ^^^ y) &&& mask
  (y ^^^ t) ^^^ (t <<< shift)

/-- The position that bit `i` comes from in a masked swap. -/
def swapSource (mask : BitVec n) (shift i : Nat) : Nat :=
  if mask.getLsbD i then i + shift
  else if shift ≤ i ∧ mask.getLsbD (i - shift) then i - shift else i

/-- Adding the sum of two bits to the first gives the second. -/
theorem xor_xor_swap (a b : Bool) : (a ^^ (b ^^ a)) = b := by
  rw [Bool.xor_comm b a, ← Bool.xor_assoc, Bool.xor_self, Bool.false_xor]

/-- A masked swap moves bits when no bit under the mask is also the partner of one. -/
theorem getLsbD_bitPermuteStep (y mask : BitVec n) {shift i : Nat} (hi : i < n)
    (disjoint : mask &&& (mask <<< shift) = 0#n) :
    (bitPermuteStep y mask shift).getLsbD i = y.getLsbD (swapSource mask shift i) := by
  have apart := congrArg (fun m => m.getLsbD i) disjoint
  simp only [BitVec.getLsbD_and, BitVec.getLsbD_shiftLeft, hi, decide_true, Bool.true_and,
    BitVec.getLsbD_zero] at apart
  simp only [bitPermuteStep, BitVec.getLsbD_xor, BitVec.getLsbD_shiftLeft, BitVec.getLsbD_and,
    BitVec.getLsbD_ushiftRight, hi, decide_true, Bool.true_and, swapSource]
  by_cases under : mask.getLsbD i = true
  · -- a bit under the mask takes its partner, and is nobody's partner itself.
    rw [if_pos under, under, Bool.and_true, xor_xor_swap]
    have free : (!decide (i < shift) &&
        ((y.getLsbD (shift + (i - shift)) ^^ y.getLsbD (i - shift)) && mask.getLsbD (i - shift))) =
          false := by
      rw [under, Bool.true_and] at apart
      rw [Bool.and_left_comm, apart, Bool.and_false]
    rw [free, Bool.xor_false, Nat.add_comm]
  · rw [if_neg under, Bool.eq_false_of_not_eq_true under, Bool.and_false, Bool.xor_false]
    by_cases partner : shift ≤ i ∧ mask.getLsbD (i - shift) = true
    · rw [if_pos partner, partner.2, decide_eq_false (by omega : ¬ i < shift), Bool.not_false,
        Bool.true_and, Bool.and_true, Nat.add_sub_cancel' partner.1, ← Bool.xor_assoc,
        Bool.xor_self, Bool.false_xor]
    · rw [if_neg partner]
      have idle : (!decide (i < shift) && mask.getLsbD (i - shift)) = false := by
        rw [Bool.and_eq_false_iff, Bool.not_eq_false', decide_eq_true_iff]
        by_cases above : shift ≤ i
        · exact Or.inr (Bool.eq_false_of_not_eq_true fun under => partner ⟨above, under⟩)
        · exact Or.inl (by omega)
      rw [Bool.and_left_comm, idle, Bool.and_false, Bool.xor_false]

end BitLanes
