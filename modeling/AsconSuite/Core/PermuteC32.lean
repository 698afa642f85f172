/-
Module: AsconSuite.Core.PermuteC32
Layer: Model
Purpose: The permutation of the 32-bit C backend, `core/ascon-c32.c`, on the bit-sliced state.
Imports: AsconSuite.Core.Sliced32
Trusted boundary: none
Main exports: Sliced32.rc, Sliced32.permuteRound, Sliced32.asconPermute
-/
import AsconSuite.Core.Sliced32

namespace AsconSuite.Sliced32

/-- `ROUND_CONSTANT_PAIR`. -/
def roundConstantPair (rc1 rc2 : BitVec 32) : SlicedWord := ⟨~~~rc1, ~~~rc2⟩

/-- The table `RC`. -/
def roundConstants : List SlicedWord :=
  [roundConstantPair 12#32 12#32, roundConstantPair 9#32 12#32, roundConstantPair 12#32 9#32,
    roundConstantPair 9#32 9#32, roundConstantPair 6#32 12#32, roundConstantPair 3#32 12#32,
    roundConstantPair 6#32 9#32, roundConstantPair 3#32 9#32, roundConstantPair 12#32 6#32,
    roundConstantPair 9#32 6#32, roundConstantPair 12#32 3#32, roundConstantPair 9#32 3#32]

/-- What `rc` points to in a round. -/
def rc (round : Nat) : SlicedWord := roundConstants.getD round ⟨0#32, 0#32⟩

/-- `ascon_sbox`, on the even or on the odd halves. -/
def asconSbox (x : Five (BitVec 32)) : Five (BitVec 32) :=
  let x0 := x.w0 ^^^ x.w4
  let x4 := x.w4 ^^^ x.w3
  let x2 := x.w2 ^^^ x.w1
  let x1 := x.w1
  let x3 := x.w3
  let t0 := ~~~x0 &&& x1
  let t1 := ~~~x1 &&& x2
  let t2 := ~~~x2 &&& x3
  let t3 := ~~~x3 &&& x4
  let t4 := ~~~x4 &&& x0
  let x0 := x0 ^^^ t1
  let x1 := x1 ^^^ t2
  let x2 := x2 ^^^ t3
  let x3 := x3 ^^^ t4
  let x4 := x4 ^^^ t0
  let x1 := x1 ^^^ x0
  let x0 := x0 ^^^ x4
  let x3 := x3 ^^^ x2
  ⟨x0, x1, x2, x3, x4⟩

/-- The even halves of a state. -/
def evens (x : AsconState) : Five (BitVec 32) :=
  ⟨x.w0.even, x.w1.even, x.w2.even, x.w3.even, x.w4.even⟩

/-- The odd halves of a state. -/
def odds (x : AsconState) : Five (BitVec 32) := ⟨x.w0.odd, x.w1.odd, x.w2.odd, x.w3.odd, x.w4.odd⟩

/-- The substitution layer of one round. -/
def permuteSbox (x : AsconState) : AsconState :=
  let e := asconSbox (evens x)
  let o := asconSbox (odds x)
  ⟨⟨e.w0, o.w0⟩, ⟨e.w1, o.w1⟩, ⟨e.w2, o.w2⟩, ⟨e.w3, o.w3⟩, ⟨e.w4, o.w4⟩⟩

/-- The linear diffusion layer of one round. -/
def permuteLinear (x : AsconState) : AsconState where
  w0 :=
    let t0 := x.w0.even ^^^ rightRotate x.w0.odd 4
    let t1 := x.w0.odd ^^^ rightRotate x.w0.even 5
    ⟨x.w0.even ^^^ rightRotate t1 9, x.w0.odd ^^^ rightRotate t0 10⟩
  w1 :=
    let t0 := x.w1.even ^^^ rightRotate x.w1.even 11
    let t1 := x.w1.odd ^^^ rightRotate x.w1.odd 11
    ⟨x.w1.even ^^^ rightRotate t1 19, x.w1.odd ^^^ rightRotate t0 20⟩
  w2 :=
    let t0 := x.w2.even ^^^ rightRotate x.w2.odd 2
    let t1 := x.w2.odd ^^^ rightRotate x.w2.even 3
    ⟨x.w2.even ^^^ t1, x.w2.odd ^^^ rightRotate t0 1⟩
  w3 :=
    let t0 := x.w3.even ^^^ rightRotate x.w3.odd 3
    let t1 := x.w3.odd ^^^ rightRotate x.w3.even 4
    ⟨x.w3.even ^^^ rightRotate t0 5, x.w3.odd ^^^ rightRotate t1 5⟩
  w4 :=
    let t0 := x.w4.even ^^^ rightRotate x.w4.even 17
    let t1 := x.w4.odd ^^^ rightRotate x.w4.odd 17
    ⟨x.w4.even ^^^ rightRotate t1 3, x.w4.odd ^^^ rightRotate t0 4⟩

/-- One turn of the loop of `ascon_permute`. -/
def permuteRound (x : AsconState) (round : Nat) : AsconState :=
  permuteLinear (permuteSbox { x with w2 := addSliced x.w2 (rc round) })

/-- The loop of `ascon_permute`. -/
def permuteRounds (x : AsconState) (firstRound : Nat) : AsconState :=
  if firstRound < 12 then permuteRounds (permuteRound x firstRound) (firstRound + 1) else x
termination_by 12 - firstRound

/-- The inversion of `x2` before and after the loop. -/
def invertX2 (x : AsconState) : AsconState :=
  { x with w2 := ⟨~~~x.w2.even, ~~~x.w2.odd⟩ }

/-- `ascon_permute`. -/
def asconPermute (state : AsconState) (firstRound : Nat) : AsconState :=
  invertX2 (permuteRounds (invertX2 state) firstRound)

end AsconSuite.Sliced32
