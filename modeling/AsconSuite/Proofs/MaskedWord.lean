/-
Module: AsconSuite.Proofs.MaskedWord
Layer: Proofs
Purpose: What the masked word functions do to the word behind the shares. Random words cancel, additions to
  share 0 are additions, and operations on every share are operations on the word.
Imports: AsconSuite.Masking.Permute
Trusted boundary: none
Main exports: unmaskWord, unmaskWord_eq_unmask, unmaskWord_addFirst, unmaskWord_maskedWordXor,
  unmaskWord_invertFirst, unmaskWord_maskedDiffuse, unmaskWord_randomShares
-/
import AsconSuite.Masking.Permute

namespace AsconSuite

open ByteWord RotatedSharing

/-- The word behind `n` shares, as the store functions compute it. -/
def unmaskWord (n : Nat) (word : MaskedWord) : Word := xorRange n (shareValue word)

/-- The state behind the shares of its words. -/
def unmaskState (n : Nat) (state : MaskedState) : AsconState :=
  ⟨unmaskWord n state.w0, unmaskWord n state.w1, unmaskWord n state.w2, unmaskWord n state.w3,
    unmaskWord n state.w4⟩

/-! ### Rotations of the shares -/

theorem rotateShare_eq {i j : Nat} (small : i - j ≤ 5) (x : Word) :
    rotateShare i j x = x.rotateRight (11 * (i - j)) :=
  rightRotate64_eq_rotateRight x (by omega)

theorem unrotateShare_eq {i j : Nat} (above : j < i) (small : i - j ≤ 5) (x : Word) :
    unrotateShare i j x = x.rotateRight (53 * (i - j)) := by
  obtain ⟨k, hk⟩ := Nat.exists_eq_add_of_lt above
  have turns : 53 * (i - j) = (64 - 11 * (i - j)) + 64 * (i - j - 1) := by omega
  rw [unrotateShare, rightRotate64_eq_rotateRight x (by omega), turns, rotateRight_add_mul]

theorem unmaskWord_eq_unmask {n : Nat} (small : n ≤ 6) (word : MaskedWord) :
    unmaskWord n word = unmask 53 n word := by
  refine xorRange_congr fun i hi => ?_
  rw [shareValue]
  by_cases first : i = 0
  · rw [if_pos first, first, Nat.mul_zero, rotateRight_of_zero]
  · rw [if_neg first, unrotateShare_eq (by omega) (by omega), Nat.sub_zero]

/-- A share rotated into place and turned back is the word itself. -/
theorem rotateRight_rotateRight_share (x : Word) (i : Nat) :
    (x.rotateRight (11 * i)).rotateRight (53 * i) = x := by
  have full : 11 * i + 53 * i = 0 + 64 * i := by omega
  rw [rotateRight_rotateRight, full, rotateRight_add_mul, rotateRight_of_zero]

section

variable {n : Nat} (some_share : 0 < n) (small : n ≤ 6)

include small

/-! ### Linear operations -/

theorem unmaskWord_congr {word other : MaskedWord} (same : ∀ i < n, word i = other i) :
    unmaskWord n word = unmaskWord n other := by
  rw [unmaskWord_eq_unmask small, unmaskWord_eq_unmask small, unmask_congr same]

theorem unmaskWord_maskedWordXor (dest src : MaskedWord) :
    unmaskWord n (maskedWordXor n dest src) = unmaskWord n dest ^^^ unmaskWord n src := by
  have shares : unmask 53 n (maskedWordXor n dest src) = unmask 53 n fun i => dest i ^^^ src i :=
    unmask_congr fun i hi => if_pos hi
  rw [unmaskWord_eq_unmask small, unmaskWord_eq_unmask small, unmaskWord_eq_unmask small, shares,
    unmask_xor]

theorem unmaskWord_maskedDiffuse (word : MaskedWord) {r s : Nat} (hr : r < 64) (hs : s < 64) :
    unmaskWord n (maskedDiffuse n word r s) =
      unmaskWord n word ^^^ (rightRotate64 (unmaskWord n word) r ^^^
        rightRotate64 (unmaskWord n word) s) := by
  have shares : unmask 53 n (maskedDiffuse n word r s) =
      unmask 53 n fun i => word i ^^^ ((word i).rotateRight r ^^^ (word i).rotateRight s) :=
    unmask_congr fun i hi => by
      rw [maskedDiffuse, if_pos hi, rightRotate64_eq_rotateRight _ hr,
        rightRotate64_eq_rotateRight _ hs]
  rw [unmaskWord_eq_unmask small, unmaskWord_eq_unmask small, shares, unmask_xor, unmask_xor,
    unmask_rotateRight, unmask_rotateRight, rightRotate64_eq_rotateRight _ hr,
    rightRotate64_eq_rotateRight _ hs]

include some_share

/-- Adding to share 0 adds to the word. -/
theorem unmaskWord_addFirst (word : MaskedWord) (x : Word) :
    unmaskWord n (word.addFirst x) = unmaskWord n word ^^^ x := by
  have shares : unmask 53 n (word.addFirst x) =
      unmask 53 n fun i => word i ^^^ if i = 0 then x else 0#64 :=
    unmask_congr fun i _ => by
      rw [MaskedWord.addFirst]
      by_cases first : i = 0
      · rw [if_pos first, if_pos first, first]
      · rw [if_neg first, if_neg first, BitVec.xor_zero]
  rw [unmaskWord_eq_unmask small, unmaskWord_eq_unmask small, shares, unmask_xor,
    unmask_single some_share, Nat.mul_zero, rotateRight_of_zero]

/-- Inverting share 0 inverts the word. -/
theorem unmaskWord_invertFirst (word : MaskedWord) :
    unmaskWord n (invertFirst word) = ~~~unmaskWord n word := by
  have added : invertFirst word = word.addFirst (BitVec.allOnes 64) := by
    funext i
    rw [invertFirst, MaskedWord.addFirst, BitVec.xor_allOnes]
  rw [added, unmaskWord_addFirst some_share small, BitVec.xor_allOnes]

/-! ### Random shares -/

/-- The shares made of random words are a sharing of zero. -/
theorem unmaskWord_randomShares (random : Nat → Word) :
    unmaskWord n (randomShares n random) = 0 := by
  obtain ⟨last, rfl⟩ := Nat.exists_eq_add_of_lt some_share
  rw [Nat.zero_add] at small ⊢
  rw [unmaskWord_eq_unmask small]
  -- share 0 is the sum of all the others turned back.
  have sums (m : Nat) (hm : m ≤ last) :
      xorRange (m + 1) (fun i => (randomShares (last + 1) random i).rotateRight (53 * i)) =
        xorRange last random ^^^ xorRange m random := by
    induction m with
    | zero =>
        rw [xorRange_succ, xorRange_zero, xorRange_zero, randomShares, if_pos rfl,
          Nat.add_sub_cancel, Nat.mul_zero, rotateRight_of_zero, BitVec.zero_xor, BitVec.xor_zero]
    | succ m ih =>
        rw [xorRange_succ, ih (by omega), randomShares, if_neg (by omega), if_pos (by omega),
          rotateShare_eq (by omega), Nat.sub_zero, rotateRight_rotateRight_share,
          Nat.add_sub_cancel, xorRange_succ, BitVec.xor_assoc]
  have total := sums last (Nat.le_refl last)
  rw [BitVec.xor_self] at total
  exact total

end

end AsconSuite
