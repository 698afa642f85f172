/-
Module: AsconSuite.Proofs.MaskedPermute
Layer: Proofs
Purpose: The masked permutations refine the plain one. Each `and_not_xor` acts on the words behind the
  shares as its name says, and the rest of a round is linear.
Imports: AsconSuite.Proofs.MaskedWord
Trusted boundary: none
Main exports: AndNotXor, unmaskWord_andNotXorX2, unmaskWord_andNotXorX3, unmaskWord_andNotXorX4,
  unmaskState_maskedPermute, masked_permute_refines_permute
-/
import AsconSuite.Proofs.MaskedWord

namespace AsconSuite

open ByteWord RotatedSharing

/-- `x ^= (~y & z)` on the words behind `n` shares. -/
def AndNotXor (n : Nat) (andNotXor : MaskedWord → MaskedWord → MaskedWord → MaskedWord) : Prop :=
  ∀ x y z, unmaskWord n (andNotXor x y z) =
    unmaskWord n x ^^^ (~~~unmaskWord n y &&& unmaskWord n z)

/-! ### Shares seen from the position of another share -/

/-- Share `j` of a word in the bit positions of share `i`. -/
def seenFrom (i j : Nat) (x : Word) : Word := (x.rotateRight (53 * j)).rotateRight (11 * i)

theorem rotateShare_eq_seenFrom {i j : Nat} (below : j < i) (small : i ≤ 5) (x : Word) :
    rotateShare i j x = seenFrom i j x := by
  obtain ⟨k, rfl⟩ := Nat.exists_eq_add_of_lt below
  have full : 53 * j + 11 * (j + k + 1) = 11 * (k + 1) + 64 * j := by omega
  rw [rotateShare_eq (by omega), seenFrom, rotateRight_rotateRight, full, rotateRight_add_mul,
    show j + k + 1 - j = k + 1 by omega]

theorem unrotateShare_eq_seenFrom {i j : Nat} (above : i < j) (small : j ≤ 5) (x : Word) :
    unrotateShare j i x = seenFrom i j x := by
  obtain ⟨k, rfl⟩ := Nat.exists_eq_add_of_lt above
  have full : 53 * (i + k + 1) + 11 * i = 53 * (k + 1) + 64 * i := by omega
  rw [unrotateShare_eq above (by omega), seenFrom, rotateRight_rotateRight, full,
    rotateRight_add_mul, show i + k + 1 - i = k + 1 by omega]

theorem seenFrom_self (i : Nat) (x : Word) : seenFrom i i x = x := by
  rw [seenFrom, rotateRight_rotateRight, Nat.add_comm, ← rotateRight_rotateRight,
    rotateRight_rotateRight_share]

theorem seenFrom_not (i j : Nat) (x : Word) : seenFrom i j (~~~x) = ~~~seenFrom i j x := by
  rw [seenFrom, rotateRight_not, rotateRight_not, seenFrom]

/-- A word in the position of share `i` is the sum of its shares seen from there. -/
theorem unmaskWord_rotateRight {n : Nat} (small : n ≤ 6) (word : MaskedWord) (i : Nat) :
    (unmaskWord n word).rotateRight (11 * i) = xorRange n fun j => seenFrom i j (word j) := by
  rw [unmaskWord_eq_unmask small, unmask,
    map_xorRange (fun x => x.rotateRight (11 * i)) (rotateRight_zero _)
      (fun x y => rotateRight_xor x y _)]
  rfl

/-- The product of every share with a word in its position is the product of the words. -/
theorem unmaskWord_and {n : Nat} (small : n ≤ 6) (word : MaskedWord) (c : Word) :
    (unmaskWord n fun i => word i &&& c.rotateRight (11 * i)) = unmaskWord n word &&& c := by
  rw [unmaskWord_eq_unmask small, unmaskWord_eq_unmask small, unmask_and_const rfl]

/-! ### The products of two, three and four shares

In each backend every share of the result is the share of `x` plus a product of one share with a whole word
in the position of that share; the backends differ in which factor is shared. -/

/-- Two shares: the product of a share of `~y` with `z`. -/
theorem andNotXorX2_share (x y z : MaskedWord) {i : Nat} (hi : i < 2) :
    andNotXorX2 x y z i = x i ^^^ (invertFirst y i &&& (unmaskWord 2 z).rotateRight (11 * i)) := by
  rw [unmaskWord_rotateRight (by omega), xorRange_succ, xorRange_succ, xorRange_zero,
    BitVec.zero_xor, and_xor_distrib]
  interval_cases i
  · rw [andNotXorX2, unrotateShare_eq_seenFrom (by omega) (by omega), seenFrom_self, BitVec.xor_assoc,
      BitVec.xor_comm (~~~y 0 &&& seenFrom 0 1 (z 1))]
    rfl
  · rw [andNotXorX2, rotateShare_eq_seenFrom (by omega) (by omega), seenFrom_self, BitVec.xor_assoc,
      BitVec.xor_comm (y 1 &&& z 1)]
    rfl

/-- Three shares: the product of a share of `y` with `z`, and a share of `z`. -/
theorem andNotXorX3_share (x y z : MaskedWord) {i : Nat} (hi : i < 3) :
    andNotXorX3 x y z i = x i ^^^ (z i ^^^ (y i &&& (unmaskWord 3 z).rotateRight (11 * i))) := by
  -- `~y & z` leaves `z` beside the product, and so does `y | z` after `y & ~z`.
  have notAnd (a b : Word) : ~~~a &&& b = b ^^^ (a &&& b) := by
    rw [← BitVec.allOnes_xor, xor_and_distrib, BitVec.allOnes_and]
  have andNot (a b c d : Word) :
      (a &&& ~~~b) ^^^ ((a &&& c) ^^^ (a ||| d)) = d ^^^ ((a &&& b) ^^^ ((a &&& c) ^^^ (a &&& d))) := by
    apply BitVec.eq_of_getLsbD_eq
    intro k hk
    simp only [BitVec.getLsbD_xor, BitVec.getLsbD_and, BitVec.getLsbD_or, BitVec.getLsbD_not, hk,
      decide_true, Bool.true_and]
    cases a.getLsbD k <;> cases b.getLsbD k <;> cases c.getLsbD k <;> cases d.getLsbD k <;> rfl
  rw [unmaskWord_rotateRight (by omega), xorRange_succ, xorRange_succ, xorRange_succ, xorRange_zero,
    BitVec.zero_xor, and_xor_distrib, and_xor_distrib]
  interval_cases i
  · rw [andNotXorX3, unrotateShare_eq_seenFrom (by omega) (by omega),
      unrotateShare_eq_seenFrom (by omega) (by omega), seenFrom_self, notAnd]
    simp only [BitVec.xor_assoc]
  · rw [andNotXorX3, rotateShare_eq_seenFrom (by omega) (by omega),
      unrotateShare_eq_seenFrom (by omega) (by omega), seenFrom_self, notAnd]
    simp only [BitVec.xor_assoc, xor_left_comm (y 1 &&& seenFrom 1 0 (z 0)) (z 1)]
  · rw [andNotXorX3, rotateShare_eq_seenFrom (by omega) (by omega),
      rotateShare_eq_seenFrom (by omega) (by omega), seenFrom_self, seenFrom_not]
    simp only [BitVec.xor_assoc, andNot]

/-- Four shares: the product of `~y` with a share of `z`. -/
theorem andNotXorX4_share (x y z : MaskedWord) {i : Nat} (hi : i < 4) :
    andNotXorX4 x y z i = x i ^^^ (z i &&& (~~~unmaskWord 4 y).rotateRight (11 * i)) := by
  rw [← unmaskWord_invertFirst (by omega) (by omega), unmaskWord_rotateRight (by omega),
    xorRange_succ, xorRange_succ, xorRange_succ, xorRange_succ, xorRange_zero, BitVec.zero_xor,
    BitVec.and_comm, xor_and_distrib, xor_and_distrib, xor_and_distrib]
  interval_cases i
  · rw [andNotXorX4, unrotateShare_eq_seenFrom (by omega) (by omega),
      unrotateShare_eq_seenFrom (by omega) (by omega),
      unrotateShare_eq_seenFrom (by omega) (by omega), seenFrom_self]
    simp only [BitVec.xor_assoc]
    rfl
  · rw [andNotXorX4, rotateShare_eq_seenFrom (by omega) (by omega),
      unrotateShare_eq_seenFrom (by omega) (by omega),
      unrotateShare_eq_seenFrom (by omega) (by omega), seenFrom_self]
    simp only [BitVec.xor_assoc]
    rfl
  · rw [andNotXorX4, rotateShare_eq_seenFrom (by omega) (by omega),
      rotateShare_eq_seenFrom (by omega) (by omega),
      unrotateShare_eq_seenFrom (by omega) (by omega), seenFrom_self]
    simp only [BitVec.xor_assoc]
    rfl
  · rw [andNotXorX4, rotateShare_eq_seenFrom (by omega) (by omega),
      rotateShare_eq_seenFrom (by omega) (by omega),
      rotateShare_eq_seenFrom (by omega) (by omega), seenFrom_self]
    simp only [BitVec.xor_assoc]
    rfl

theorem unmaskWord_andNotXorX2 : AndNotXor 2 andNotXorX2 := by
  intro x y z
  have shares : unmask 53 2 (andNotXorX2 x y z) = unmask 53 2 fun i =>
      x i ^^^ (invertFirst y i &&& (unmaskWord 2 z).rotateRight (11 * i)) :=
    unmask_congr fun i hi => andNotXorX2_share x y z hi
  rw [unmaskWord_eq_unmask (by omega), shares, unmask_xor,
    ← unmaskWord_eq_unmask (by omega), ← unmaskWord_eq_unmask (by omega), unmaskWord_and (by omega),
    unmaskWord_invertFirst (by omega) (by omega)]

theorem unmaskWord_andNotXorX3 : AndNotXor 3 andNotXorX3 := by
  intro x y z
  have shares : unmask 53 3 (andNotXorX3 x y z) = unmask 53 3 fun i =>
      x i ^^^ (z i ^^^ (y i &&& (unmaskWord 3 z).rotateRight (11 * i))) :=
    unmask_congr fun i hi => andNotXorX3_share x y z hi
  rw [unmaskWord_eq_unmask (by omega), shares, unmask_xor, unmask_xor,
    ← unmaskWord_eq_unmask (by omega), ← unmaskWord_eq_unmask (by omega),
    ← unmaskWord_eq_unmask (by omega), unmaskWord_and (by omega), ← BitVec.allOnes_xor,
    xor_and_distrib, BitVec.allOnes_and]

theorem unmaskWord_andNotXorX4 : AndNotXor 4 andNotXorX4 := by
  intro x y z
  have shares : unmask 53 4 (andNotXorX4 x y z) = unmask 53 4 fun i =>
      x i ^^^ (z i &&& (~~~unmaskWord 4 y).rotateRight (11 * i)) :=
    unmask_congr fun i hi => andNotXorX4_share x y z hi
  rw [unmaskWord_eq_unmask (by omega), shares, unmask_xor,
    ← unmaskWord_eq_unmask (by omega), ← unmaskWord_eq_unmask (by omega), unmaskWord_and (by omega),
    BitVec.and_comm]

/-! ### Rounds -/

/-- The preserved words and the share computed from them are a sharing of zero. -/
theorem unmaskWord_preservedShares {n : Nat} (some_share : 0 < n) (small : n ≤ 6)
    (preserve : Nat → Word) : unmaskWord n (preservedShares n preserve) = 0 := by
  obtain ⟨last, rfl⟩ := Nat.exists_eq_add_of_lt some_share
  rw [Nat.zero_add] at small ⊢
  have others : xorRange last (fun i => (preservedShares (last + 1) preserve i).rotateRight (53 * i)) =
      xorRange last fun i => (preserve i).rotateRight (53 * i) :=
    xorRange_congr fun i hi => by rw [preservedShares, if_neg (by omega)]
  have turned : (preservedShares (last + 1) preserve last).rotateRight (53 * last) =
      xorRange last fun i => (preserve i).rotateRight (53 * i) := by
    rw [preservedShares, if_pos (by omega), Nat.add_sub_cancel,
      map_xorRange (fun x => x.rotateRight (53 * last)) (rotateRight_zero _)
        (fun x y => rotateRight_xor x y _)]
    refine xorRange_congr fun i hi => ?_
    rw [rotateShare_eq_seenFrom hi (by omega), seenFrom, rotateRight_rotateRight_share]
  rw [unmaskWord_eq_unmask small, unmask, xorRange_succ, others, turned, BitVec.xor_self]
  rfl

section

variable {n : Nat} (some_share : 0 < n) (small : n ≤ 6)
  {andNotXor : MaskedWord → MaskedWord → MaskedWord → MaskedWord} (product : AndNotXor n andNotXor)

include small

theorem unmaskState_maskedLinear (x : MaskedState) :
    unmaskState n (maskedLinear n x) = permuteLinear (unmaskState n x) := by
  have diffuse (word : MaskedWord) {r s : Nat} (hr : r < 64) (hs : s < 64) :=
    unmaskWord_maskedDiffuse small word hr hs
  simp only [unmaskState, maskedLinear, permuteLinear, diffuse _ (show 19 < 64 by omega)
    (show 28 < 64 by omega), diffuse _ (show 61 < 64 by omega) (show 39 < 64 by omega),
    diffuse _ (show 1 < 64 by omega) (show 6 < 64 by omega), diffuse _ (show 10 < 64 by omega)
    (show 17 < 64 by omega), diffuse _ (show 7 < 64 by omega) (show 41 < 64 by omega)]

include some_share product

theorem unmaskState_maskedSbox (x : MaskedState) (preserve : Nat → Word) :
    unmaskState n (maskedSbox n andNotXor x preserve).1 = permuteSbox (unmaskState n x) := by
  have random := unmaskWord_preservedShares some_share small preserve
  simp only [unmaskState, maskedSbox, permuteSbox, unmaskWord_maskedWordXor small, product _ _ _,
    random, BitVec.ofNat_eq_ofNat, BitVec.zero_xor]

/-- The masked rounds do on the words behind the shares what the rounds do on words. -/
theorem unmaskState_maskedRounds (x : MaskedState) (firstRound : Nat) (preserve : Nat → Word) :
    unmaskState n (maskedRounds n andNotXor x firstRound preserve).1 =
      permuteRounds (unmaskState n x) firstRound := by
  induction x, firstRound, preserve using maskedRounds.induct n andNotXor with
  | case1 x firstRound preserve more added substituted ih =>
      have constant : unmaskState n added =
          { unmaskState n x with w2 := (unmaskState n x).w2 ^^^ roundConstant firstRound } := by
        simp only [added, unmaskState, unmaskWord_addFirst some_share small]
      rw [maskedRounds, if_pos more, permuteRounds, if_pos more]
      refine ih.trans ?_
      rw [unmaskState_maskedLinear small, unmaskState_maskedSbox some_share small product, constant]
      rfl
  | case2 x firstRound preserve done =>
      rw [maskedRounds, if_neg done, permuteRounds, if_neg done]

theorem unmaskState_maskedPermute (state : MaskedState) (firstRound : Nat) (preserve : Nat → Word) :
    unmaskState n (maskedPermute n andNotXor state firstRound preserve).1 =
      asconPermute (unmaskState n state) firstRound := by
  have rounds := unmaskState_maskedRounds some_share small product
    { state with w2 := invertFirst state.w2 } firstRound preserve
  simp only [unmaskState, unmaskWord_invertFirst some_share small] at rounds
  simp only [maskedPermute, asconPermute, unmaskState, unmaskWord_invertFirst some_share small,
    ← rounds]

end

/-- Unmasking the output of a masked permutation gives the plain permutation of the unmasked input, for
every sharing, every first round and every value of the preserved words. -/
theorem masked_permute_refines_permute (state : MaskedState) (firstRound : Nat)
    (preserve : Nat → Word) :
    unmaskState 2 (asconX2Permute state firstRound preserve).1 =
        asconPermute (unmaskState 2 state) firstRound ∧
      unmaskState 3 (asconX3Permute state firstRound preserve).1 =
        asconPermute (unmaskState 3 state) firstRound ∧
      unmaskState 4 (asconX4Permute state firstRound preserve).1 =
        asconPermute (unmaskState 4 state) firstRound := by
  refine ⟨?_, ?_, ?_⟩
  · exact unmaskState_maskedPermute (by omega) (by omega) unmaskWord_andNotXorX2 _ _ _
  · exact unmaskState_maskedPermute (by omega) (by omega) unmaskWord_andNotXorX3 _ _ _
  · exact unmaskState_maskedPermute (by omega) (by omega) unmaskWord_andNotXorX4 _ _ _

end AsconSuite
