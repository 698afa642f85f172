/-
Module: AsconSuite.Proofs.PermuteInverse
Layer: Proofs
Purpose: The permutation is one: every layer of a round is invertible, and so is the permutation from any first round
  on, in the 64-bit and in the bit-sliced back end.
Imports: AsconSuite.Base.RotationSums, AsconSuite.Proofs.SlicedPermute, AsconSuite.Proofs.UnrolledRounds, Mathlib's
  finite types
Trusted boundary: none
Main exports: permuteSbox_injective, permuteLinear_injective, asconPermute_injective, ascon_permute_bijective
-/
import AsconSuite.Base.RotationSums
import AsconSuite.Proofs.SlicedPermute
import AsconSuite.Proofs.UnrolledRounds
import Mathlib.Data.BitVec
import Mathlib.Data.Finite.Prod

namespace AsconSuite

open ByteWord RotatedSharing
open RotationSums (diffuse diffuse_bijective)

/-! ### The layers of a round -/

/-- The bits of the five words at one position. -/
def stateColumn (x : AsconState) (i : Nat) : Five Bool :=
  ⟨x.w0.getLsbD i, x.w1.getLsbD i, x.w2.getLsbD i, x.w3.getLsbD i, x.w4.getLsbD i⟩

theorem ext_stateColumn {x y : AsconState} (same : ∀ i < 64, stateColumn x i = stateColumn y i) : x = y := by
  have words : x.w0 = y.w0 ∧ x.w1 = y.w1 ∧ x.w2 = y.w2 ∧ x.w3 = y.w3 ∧ x.w4 = y.w4 := by
    refine ⟨?_, ?_, ?_, ?_, ?_⟩
    all_goals
      apply BitVec.eq_of_getLsbD_eq
      intro i below
      have column := same i below
      simp only [stateColumn, Five.mk.injEq] at column
    · exact column.1
    · exact column.2.1
    · exact column.2.2.1
    · exact column.2.2.2.1
    · exact column.2.2.2.2
  obtain ⟨same0, same1, same2, same3, same4⟩ := words
  cases x
  cases y
  simp only [Five.mk.injEq]
  exact ⟨same0, same1, same2, same3, same4⟩

/-- The substitution layer on one column. -/
def columnSbox (c : Five Bool) : Five Bool :=
  let x0 := c.w0 ^^ c.w4
  let x4 := c.w4 ^^ c.w3
  let x2 := c.w2 ^^ c.w1
  let y0 := x0 ^^ (!c.w1 && x2)
  let y1 := c.w1 ^^ (!x2 && c.w3)
  let y2 := x2 ^^ (!c.w3 && x4)
  let y3 := c.w3 ^^ (!x4 && x0)
  let y4 := x4 ^^ (!x0 && c.w1)
  ⟨y0 ^^ y4, y1 ^^ y0, y2, y3 ^^ y2, y4⟩

theorem stateColumn_permuteSbox (x : AsconState) {i : Nat} (below : i < 64) :
    stateColumn (permuteSbox x) i = columnSbox (stateColumn x i) := by
  simp only [stateColumn, permuteSbox, columnSbox, BitVec.getLsbD_xor, BitVec.getLsbD_and, BitVec.getLsbD_not,
    decide_eq_true below, Bool.true_and]

theorem columnSbox_injective : Function.Injective columnSbox := by
  have all : ∀ a0 a1 a2 a3 a4 b0 b1 b2 b3 b4 : Bool,
      columnSbox ⟨a0, a1, a2, a3, a4⟩ = columnSbox ⟨b0, b1, b2, b3, b4⟩ →
        (⟨a0, a1, a2, a3, a4⟩ : Five Bool) = ⟨b0, b1, b2, b3, b4⟩ := by
    decide +kernel
  intro c d same
  exact all _ _ _ _ _ _ _ _ _ _ same

theorem permuteSbox_injective : Function.Injective permuteSbox := by
  intro x y same
  refine ext_stateColumn fun i below => columnSbox_injective ?_
  rw [← stateColumn_permuteSbox x below, ← stateColumn_permuteSbox y below, same]

theorem permuteLinear_injective : Function.Injective permuteLinear := by
  intro x y same
  have word {r s : Nat} (hr : r < 64) (hs : s < 64) {v w : Word}
      (equal : v ^^^ (rightRotate64 v r ^^^ rightRotate64 v s) = w ^^^ (rightRotate64 w r ^^^ rightRotate64 w s)) :
      v = w := by
    rw [rightRotate64_eq_rotateRight _ hr, rightRotate64_eq_rotateRight _ hs, rightRotate64_eq_rotateRight _ hr,
      rightRotate64_eq_rotateRight _ hs] at equal
    exact (diffuse_bijective (k := 6) rfl r s).injective equal
  cases x
  cases y
  simp only [permuteLinear, Five.mk.injEq] at same ⊢
  obtain ⟨same0, same1, same2, same3, same4⟩ := same
  exact ⟨word (by decide) (by decide) same0, word (by decide) (by decide) same1, word (by decide) (by decide) same2,
    word (by decide) (by decide) same3, word (by decide) (by decide) same4⟩

theorem permuteRound_injective (round : Nat) : Function.Injective fun x => permuteRound x round := by
  intro x y same
  have constant := permuteSbox_injective (permuteLinear_injective same)
  cases x
  cases y
  simp only [Five.mk.injEq, BitVec.xor_left_inj] at constant ⊢
  exact constant

/-! ### The permutation -/

theorem permuteRounds_injective (firstRound : Nat) : Function.Injective fun x => permuteRounds x firstRound := by
  by_cases isRound : firstRound < 12
  · intro x y same
    have later := permuteRounds_injective (firstRound + 1)
    simp only [permuteRounds_step _ isRound] at same
    exact permuteRound_injective firstRound (later same)
  · intro x y same
    simpa only [permuteRounds_end _ (Nat.not_lt.1 isRound)] using same
termination_by 12 - firstRound

theorem asconPermute_injective (firstRound : Nat) : Function.Injective fun x => asconPermute x firstRound := by
  have invert : Function.Injective fun x : AsconState => { x with w2 := ~~~x.w2 } := by
    intro x y same
    cases x
    cases y
    simp only [Five.mk.injEq, BitVec.not_inj] at same ⊢
    exact same
  intro x y same
  exact invert (permuteRounds_injective firstRound (invert same))

instance finite_bitVec (w : Nat) : Finite (BitVec w) := Finite.of_equiv _ BitVec.equivFin.toEquiv.symm

instance finite_five {α : Type*} [Finite α] : Finite (Five α) := by
  refine Finite.of_injective (fun (s : Five α) => fun i : Fin 5 => s.get i) fun s t same => ?_
  exact Five.ext_get fun i inside => congrFun same ⟨i, inside⟩

/-- From any first round on, the permutation of each back end takes every state to a state of its own and leaves
none out. -/
theorem ascon_permute_bijective (firstRound : Nat) :
    (Function.Bijective fun state => asconPermute state firstRound) ∧
      Function.Bijective fun state => Sliced32.asconPermute state firstRound := by
  have plain : Function.Bijective fun state => asconPermute state firstRound :=
    Finite.injective_iff_bijective.1 (asconPermute_injective firstRound)
  have sliced : (fun state => Sliced32.asconPermute state firstRound) =
      Sliced32.toSliced ∘ (fun state => asconPermute state firstRound) ∘ Sliced32.ofSliced := by
    funext state
    rw [Function.comp_apply, Function.comp_apply, ← Sliced32.asconPermute_toSliced, Sliced32.toSliced_ofSliced]
  have slicing : Function.Bijective Sliced32.toSliced :=
    Function.bijective_iff_has_inverse.2 ⟨Sliced32.ofSliced, Sliced32.ofSliced_toSliced, Sliced32.toSliced_ofSliced⟩
  have unslicing : Function.Bijective Sliced32.ofSliced :=
    Function.bijective_iff_has_inverse.2 ⟨Sliced32.toSliced, Sliced32.toSliced_ofSliced, Sliced32.ofSliced_toSliced⟩
  refine ⟨plain, ?_⟩
  rw [sliced]
  exact slicing.comp (plain.comp unslicing)

end AsconSuite
