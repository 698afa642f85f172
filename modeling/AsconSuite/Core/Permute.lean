/-
Module: AsconSuite.Core.Permute
Layer: Model
Purpose: The permutation of the 64-bit C backend, `core/ascon-c64.c`.
Imports: AsconSuite.Core.State
Trusted boundary: none
Main exports: roundConstant, permuteRound, asconPermute
-/
import AsconSuite.Core.State

namespace AsconSuite

open ByteWord

/-- `ROUND_CONSTANT`. -/
def roundConstant (round : Nat) : Word :=
  ~~~BitVec.ofNat 64 (((0x0F - round) <<< 4) ||| round)

/-- The substitution layer of one round. The final inversion of `x2` is left to the inverted round
constant of the next round, as in the source. -/
def permuteSbox (x : AsconState) : AsconState :=
  let x0 := x.w0 ^^^ x.w4
  let x4 := x.w4 ^^^ x.w3
  let x2 := x.w2 ^^^ x.w1
  let x1 := x.w1
  let x3 := x.w3
  let t0 := ~~~x0 &&& x1
  let t1 := ~~~x1 &&& x2
  let t2 := ~~~x2 &&& x3
  let t3 := ~~~x3 &&& x4
  let t4 := ~~~x4 &&& x0
  let x0 := x0 ^^^ t1
  let x1 := x1 ^^^ t2
  let x2 := x2 ^^^ t3
  let x3 := x3 ^^^ t4
  let x4 := x4 ^^^ t0
  let x1 := x1 ^^^ x0
  let x0 := x0 ^^^ x4
  let x3 := x3 ^^^ x2
  ⟨x0, x1, x2, x3, x4⟩

/-- The linear diffusion layer of one round. -/
def permuteLinear (x : AsconState) : AsconState where
  w0 := x.w0 ^^^ (rightRotate64 x.w0 19 ^^^ rightRotate64 x.w0 28)
  w1 := x.w1 ^^^ (rightRotate64 x.w1 61 ^^^ rightRotate64 x.w1 39)
  w2 := x.w2 ^^^ (rightRotate64 x.w2 1 ^^^ rightRotate64 x.w2 6)
  w3 := x.w3 ^^^ (rightRotate64 x.w3 10 ^^^ rightRotate64 x.w3 17)
  w4 := x.w4 ^^^ (rightRotate64 x.w4 7 ^^^ rightRotate64 x.w4 41)

/-- One turn of the loop of `ascon_permute`. -/
def permuteRound (x : AsconState) (round : Nat) : AsconState :=
  permuteLinear (permuteSbox { x with w2 := x.w2 ^^^ roundConstant round })

/-- The loop of `ascon_permute`. -/
def permuteRounds (x : AsconState) (firstRound : Nat) : AsconState :=
  if firstRound < 12 then permuteRounds (permuteRound x firstRound) (firstRound + 1) else x
termination_by 12 - firstRound

/-- `ascon_permute`. -/
def asconPermute (state : AsconState) (firstRound : Nat) : AsconState :=
  let x := permuteRounds { state with w2 := ~~~state.w2 } firstRound
  { x with w2 := ~~~x.w2 }

end AsconSuite
