/-
Module: AsconSuite.Proofs.MaskedUniform
Layer: Proofs
Purpose: The masked permutations as maps on finitely many shares. With two and with four shares every output comes from
  exactly one input, so that shares chosen at random stay as random as they were, and all shares but one of every word
  of the output, together with the preserved words, tell nothing about the state behind them. With three shares two
  inputs meet in every round.
Imports: AsconSuite.Base.Hiding, AsconSuite.Proofs.MaskedBijection
Trusted boundary: none
Main exports: SharedInput, permuteShared, masked_permute_bijective, masked_permute_hides
-/
import AsconSuite.Base.Hiding
import AsconSuite.Proofs.MaskedBijection

namespace AsconSuite

open ByteWord RotatedSharing
open Hiding (Hides hides_of_move)

/-! ### Finitely many shares -/

/-- The shares of the five words, and the preserved words. -/
abbrev SharedInput (n : Nat) := Five (Fin n → Word) × (Fin (n - 1) → Word)

/-- Finitely many words as a masked word. -/
def extendShares {n : Nat} (shares : Fin n → Word) : Nat → Word := fun i => if h : i < n then shares ⟨i, h⟩ else 0

theorem extendShares_apply {n : Nat} (shares : Fin n → Word) (i : Fin n) : extendShares shares i = shares i := by
  rw [extendShares, dif_pos i.isLt]

/-- The masked state with these shares. -/
def sharedState {n : Nat} (words : Five (Fin n → Word)) : MaskedState :=
  ⟨extendShares words.w0, extendShares words.w1, extendShares words.w2, extendShares words.w3, extendShares words.w4⟩

/-- The state behind the shares. -/
def plainState {n : Nat} (input : SharedInput n) : AsconState := unmaskState n (sharedState input.1)

/-- The words of a state, cut to their shares. -/
def sharesOf (n : Nat) (state : MaskedState) : Five (Fin n → Word) :=
  ⟨fun i => state.w0 i, fun i => state.w1 i, fun i => state.w2 i, fun i => state.w3 i, fun i => state.w4 i⟩

/-- What a masked permutation makes of the shares and of the preserved words. -/
def permuteShared (n : Nat) (permute : MaskedState → Nat → (Nat → Word) → MaskedState × (Nat → Word)) (firstRound : Nat)
    (input : SharedInput n) : SharedInput n :=
  let done := permute (sharedState input.1) firstRound (extendShares input.2)
  (sharesOf n done.1, fun i => done.2 i)

section

variable {n : Nat}

theorem shares_ext {f g : Fin n → Word} (same : SameShares n (extendShares f) (extendShares g)) : f = g := by
  funext i
  have share := same i i.isLt
  rwa [extendShares_apply, extendShares_apply] at share

theorem extendShares_restrict (word : MaskedWord) : SameShares n (extendShares fun i : Fin n => word i) word := by
  intro i below
  rw [extendShares, dif_pos below]

theorem unmaskState_sharesOf (small : n ≤ 6) (state : MaskedState) :
    unmaskState n (sharedState (sharesOf n state)) = unmaskState n state :=
  SameState.unmaskState small ⟨extendShares_restrict state.w0, extendShares_restrict state.w1,
    extendShares_restrict state.w2, extendShares_restrict state.w3, extendShares_restrict state.w4⟩

/-- What can be gone back share by share is one to one. -/
theorem permuteShared_injective {permute : MaskedState → Nat → (Nat → Word) → MaskedState × (Nat → Word)}
    {firstRound : Nat} (back : ∀ {s t : MaskedState} {p q : Nat → Word},
      SameState n (permute s firstRound p).1 (permute t firstRound q).1 →
        (∀ i < n - 1, (permute s firstRound p).2 i = (permute t firstRound q).2 i) →
        SameState n s t ∧ ∀ i < n - 1, p i = q i) : (permuteShared n permute firstRound).Injective := by
  rintro ⟨s, p⟩ ⟨t, q⟩ same
  simp only [permuteShared, sharesOf, Prod.mk.injEq, Five.mk.injEq] at same
  obtain ⟨⟨same0, same1, same2, same3, same4⟩, kept⟩ := same
  obtain ⟨state, preserved⟩ := back (s := sharedState s) (t := sharedState t) (p := extendShares p)
    (q := extendShares q)
    ⟨fun i below => congrFun same0 ⟨i, below⟩, fun i below => congrFun same1 ⟨i, below⟩,
      fun i below => congrFun same2 ⟨i, below⟩, fun i below => congrFun same3 ⟨i, below⟩,
      fun i below => congrFun same4 ⟨i, below⟩⟩
    fun i below => congrFun kept ⟨i, below⟩
  have words : s = t := by
    cases s
    cases t
    simp only [Five.mk.injEq]
    exact ⟨shares_ext state.w0, shares_ext state.w1, shares_ext state.w2, shares_ext state.w3, shares_ext state.w4⟩
  rw [words, shares_ext preserved]

variable {andNotXor : MaskedWord → MaskedWord → MaskedWord → MaskedWord}

theorem maskedRounds_done {firstRound : Nat} (done : 12 ≤ firstRound) (s : MaskedState) (p : Nat → Word) :
    maskedRounds n andNotXor s firstRound p = (s, p) := by
  rw [maskedRounds, if_neg (Nat.not_lt.2 done)]

/-- Without rounds nothing is lost. -/
theorem permuteShared_injective_of_done {firstRound : Nat} (done : 12 ≤ firstRound) :
    (permuteShared n (maskedPermute n andNotXor) firstRound).Injective := by
  refine permuteShared_injective fun {s t p q} same kept => ?_
  rw [maskedPermute, maskedPermute, maskedRounds_done done, maskedRounds_done done] at same kept
  refine ⟨⟨same.w0, same.w1, same.w2.of_invertFirst.of_invertFirst, same.w3, same.w4⟩, fun i below => ?_⟩
  have word := kept i below
  simp only [if_pos below] at word
  exact word

variable (some_share : 0 < n) (small : n ≤ 6) (product : AndNotXor n andNotXor)

include some_share small product

/-- The state behind the shares is permuted. -/
theorem plainState_permuteShared (firstRound : Nat) (input : SharedInput n) :
    plainState (permuteShared n (maskedPermute n andNotXor) firstRound input) =
      asconPermute (plainState input) firstRound := by
  rw [plainState, plainState, ← unmaskState_maskedPermute some_share small product _ _ (extendShares input.2)]
  exact unmaskState_sharesOf small _

theorem permuteShared_bijective (cancels : Cancels n andNotXor) (chi : Chi n andNotXor) (firstRound : Nat) :
    (permuteShared n (maskedPermute n andNotXor) firstRound).Bijective :=
  Finite.injective_iff_bijective.1 (permuteShared_injective fun {_ _ _ _} same kept =>
    maskedPermute_same some_share small product cancels chi firstRound same kept)

end

/-! ### What is seen of the output -/

section

variable {n : Nat}

/-- A word is added to one share, in the position of that share. -/
def addShare (hidden : Fin n) (c : Word) (shares : Fin n → Word) : Fin n → Word :=
  Function.update shares hidden (shares hidden ^^^ c.rotateRight (11 * hidden))

theorem unmaskWord_addShare (small : n ≤ 6) (hidden : Fin n) (c : Word) (shares : Fin n → Word) :
    unmaskWord n (extendShares (addShare hidden c shares)) = unmaskWord n (extendShares shares) ^^^ c := by
  have added : SameShares n (extendShares (addShare hidden c shares)) fun i =>
      extendShares shares i ^^^ if i = hidden then c.rotateRight (11 * hidden) else 0#64 := by
    intro i below
    have place (f : Fin n → Word) : extendShares f i = f ⟨i, below⟩ := extendShares_apply f ⟨i, below⟩
    change extendShares (addShare hidden c shares) i = extendShares shares i ^^^ _
    rw [place, place, addShare]
    by_cases here : i = hidden
    · have same : (⟨i, below⟩ : Fin n) = hidden := Fin.ext here
      rw [same, Function.update_self, if_pos here]
    · have other : (⟨i, below⟩ : Fin n) ≠ hidden := fun same => here (congrArg Fin.val same)
      rw [Function.update_of_ne other, if_neg here, BitVec.xor_zero]
  rw [added.unmaskWord small, unmaskWord_eq_unmask small, unmaskWord_eq_unmask small, unmask_xor,
    unmask_single hidden.isLt, rotateRight_rotateRight_share]

theorem addShare_addShare (hidden : Fin n) (c : Word) (shares : Fin n → Word) :
    addShare hidden c (addShare hidden c shares) = shares := by
  rw [addShare, addShare, Function.update_self, BitVec.xor_assoc, BitVec.xor_self, BitVec.xor_zero,
    Function.update_idem, Function.update_eq_self]

/-- One share of every word is not seen. -/
def seenShares (hidden : Five (Fin n)) (output : SharedInput n) : SharedInput n :=
  (⟨Function.update output.1.w0 hidden.w0 0, Function.update output.1.w1 hidden.w1 0,
    Function.update output.1.w2 hidden.w2 0, Function.update output.1.w3 hidden.w3 0,
    Function.update output.1.w4 hidden.w4 0⟩, output.2)

theorem update_addShare (hidden : Fin n) (c : Word) (shares : Fin n → Word) :
    Function.update (addShare hidden c shares) hidden 0 = Function.update shares hidden 0 :=
  Function.update_idem _ _ _

/-- The shares of one state as shares of another, by what is added to the hidden ones. -/
def moveShares (hidden : Five (Fin n)) (x y : AsconState) (output : SharedInput n) : SharedInput n :=
  (⟨addShare hidden.w0 (x.w0 ^^^ y.w0) output.1.w0, addShare hidden.w1 (x.w1 ^^^ y.w1) output.1.w1,
    addShare hidden.w2 (x.w2 ^^^ y.w2) output.1.w2, addShare hidden.w3 (x.w3 ^^^ y.w3) output.1.w3,
    addShare hidden.w4 (x.w4 ^^^ y.w4) output.1.w4⟩, output.2)

/-- All shares but one of every word tell nothing about the state behind them. -/
theorem hides_seenShares (small : n ≤ 6) (hidden : Five (Fin n)) : Hides plainState (seenShares hidden) := by
  refine hides_of_move (moveShares hidden) ?_ ?_ ?_
  · rintro x y output rfl
    have moved (v w : Word) : v ^^^ (v ^^^ w) = w := by rw [← BitVec.xor_assoc, BitVec.xor_self, BitVec.zero_xor]
    cases y
    simp only [plainState, unmaskState, sharedState, moveShares, unmaskWord_addShare small, moved]
  · intro x y output _
    simp only [moveShares, BitVec.xor_comm y.w0, BitVec.xor_comm y.w1, BitVec.xor_comm y.w2, BitVec.xor_comm y.w3,
      BitVec.xor_comm y.w4, addShare_addShare]
  · intro x y output _
    simp only [seenShares, moveShares, update_addShare]

end

/-! ### Three shares -/

/-- Three shares of which the last one is zero. -/
def threeShares (first second : Word) : Fin 3 → Word := fun i =>
  if i.val = 0 then first else if i.val = 1 then second else 0

/-- The words in front of the first S-box, for a word `d` of equal bits: `x4` is all ones, in its first share. -/
def meetingWords (d : Word) : Five (Fin 3 → Word) :=
  ⟨threeShares (~~~0) 0, threeShares d d, threeShares 0 0, threeShares d d, threeShares (~~~0 ^^^ d) d⟩

/-- The input of the permutation that leads there. -/
def meetingInput (firstRound : Nat) (d : Word) : SharedInput 3 :=
  ({ meetingWords d with w2 := threeShares (~~~roundConstant firstRound) 0 }, fun _ => d)

/-- The S-box makes the same of a word of zeroes and of a word of ones. -/
theorem maskedSbox_meeting :
    maskedSbox 3 andNotXorX3 (sharedState (meetingWords 0)) (extendShares fun _ : Fin 2 => 0) =
      maskedSbox 3 andNotXorX3 (sharedState (meetingWords (~~~0))) (extendShares fun _ : Fin 2 => ~~~0) := by
  have words {f g : MaskedWord} (first : f 0 = g 0) (second : f 1 = g 1) (third : f 2 = g 2)
      (others : ∀ i, f (i + 3) = g (i + 3)) : f = g := by
    funext i
    rcases i with _ | _ | _ | i
    · exact first
    · exact second
    · exact third
    · exact others i
  refine Prod.ext (Five.ext_get ?_) ?_
  · intro i inside
    interval_cases i
    all_goals
      refine words ?_ ?_ ?_ ?_
      · decide +kernel
      · decide +kernel
      · decide +kernel
      · intro i
        rfl
  · refine words ?_ ?_ ?_ ?_
    · decide +kernel
    · decide +kernel
    · decide +kernel
    · intro i
      rfl

/-- In front of the first S-box the input is what was chosen. -/
theorem maskedRounds_meeting {firstRound : Nat} (isRound : firstRound < 12) (d : Word) :
    maskedPermute 3 andNotXorX3 (sharedState (meetingInput firstRound d).1) firstRound
        (extendShares (meetingInput firstRound d).2) =
      let substituted := maskedSbox 3 andNotXorX3 (sharedState (meetingWords d)) (extendShares fun _ : Fin 2 => d)
      let done := maskedRounds 3 andNotXorX3 (maskedLinear 3 substituted.1) (firstRound + 1)
        (rotatePreserved substituted.2)
      ({ done.1 with w2 := invertFirst done.1.w2 },
        fun i => if i < 2 then done.2 i else extendShares (fun _ : Fin 2 => d) i) := by
  have constant : (invertFirst (extendShares (threeShares (~~~roundConstant firstRound) 0))).addFirst
      (roundConstant firstRound) = extendShares (threeShares 0 0) := by
    funext i
    rcases i with _ | _ | _ | i
    · change ~~~(~~~roundConstant firstRound) ^^^ roundConstant firstRound = 0
      rw [BitVec.not_not, BitVec.xor_self]
      rfl
    · rfl
    · rfl
    · rfl
  rw [maskedPermute, maskedRounds, if_pos isRound]
  simp only [meetingInput, sharedState, constant, meetingWords]

/-- With three shares two inputs have the same output. -/
theorem permuteShared_meets {firstRound : Nat} (isRound : firstRound < 12) :
    permuteShared 3 asconX3Permute firstRound (meetingInput firstRound 0) =
        permuteShared 3 asconX3Permute firstRound (meetingInput firstRound (~~~0)) ∧
      meetingInput firstRound 0 ≠ meetingInput firstRound (~~~0) := by
  refine ⟨?_, fun same => ?_⟩
  · rw [permuteShared, permuteShared, asconX3Permute, maskedRounds_meeting isRound, maskedRounds_meeting isRound,
      maskedSbox_meeting]
    refine Prod.ext rfl (funext fun i => ?_)
    have below : i.val < 2 := i.isLt
    simp only [if_pos below]
  · have word : (0 : Word) = ~~~0 := congrFun (congrArg Prod.snd same) 0
    exact absurd word (by decide)

/-- With two and with four shares the masked permutation takes the shares and the preserved words one to one to those
of the output, from any first round on; with three shares it does only when no round is left. -/
theorem masked_permute_bijective (firstRound : Nat) :
    (permuteShared 2 asconX2Permute firstRound).Bijective ∧ (permuteShared 4 asconX4Permute firstRound).Bijective ∧
      ((permuteShared 3 asconX3Permute firstRound).Injective ↔ 12 ≤ firstRound) := by
  refine ⟨permuteShared_bijective (by decide) (by decide) unmaskWord_andNotXorX2 cancels_two chi_two firstRound,
    permuteShared_bijective (by decide) (by decide) unmaskWord_andNotXorX4 cancels_four chi_four firstRound, ?_, ?_⟩
  · intro injective
    by_contra isRound
    obtain ⟨same, different⟩ := permuteShared_meets (Nat.not_le.1 isRound)
    exact different (injective same)
  · exact permuteShared_injective_of_done

/-- How many sharings of a state, with any preserved words, have an output of which this is seen. -/
noncomputable def sharingsSeen (n : Nat)
    (permute : MaskedState → Nat → (Nat → Word) → MaskedState × (Nat → Word)) (firstRound : Nat) (hidden : Five (Fin n))
    (view : SharedInput n) (state : AsconState) : Nat :=
  Nat.card {input : SharedInput n //
    plainState input = state ∧ seenShares hidden (permuteShared n permute firstRound input) = view}

/-- Of the output with two or four shares, all shares but one of every word and the preserved words tell nothing about
the state that was permuted: whatever is seen, as many sharings of one state lead to it as of any other. -/
theorem masked_permute_hides (firstRound : Nat) (x y : AsconState) :
    (∀ hidden view, sharingsSeen 2 asconX2Permute firstRound hidden view x =
      sharingsSeen 2 asconX2Permute firstRound hidden view y) ∧
    ∀ hidden view, sharingsSeen 4 asconX4Permute firstRound hidden view x =
      sharingsSeen 4 asconX4Permute firstRound hidden view y := by
  have hides {n : Nat} {andNotXor} (some_share : 0 < n) (small : n ≤ 6) (product : AndNotXor n andNotXor)
      (cancels : Cancels n andNotXor) (chi : Chi n andNotXor) (hidden : Five (Fin n)) :
      Hides plainState (seenShares hidden ∘ permuteShared n (maskedPermute n andNotXor) firstRound) :=
    (hides_seenShares small hidden).comap (permuteShared_bijective some_share small product cancels chi firstRound)
      (asconPermute_injective firstRound) fun input => plainState_permuteShared some_share small product firstRound input
  refine ⟨fun hidden view => ?_, fun hidden view => ?_⟩
  · exact (hides (by decide) (by decide) unmaskWord_andNotXorX2 cancels_two chi_two hidden).card_eq x y view
  · exact (hides (by decide) (by decide) unmaskWord_andNotXorX4 cancels_four chi_four hidden).card_eq x y view

end AsconSuite
