/-
Module: AsconSuite.Masking.Permute
Layer: Model
Purpose: The masked permutations of the 64-bit C backend, `masking/ascon-x2-c64.c`, `ascon-x3-c64.c` and
  `ascon-x4-c64.c`. They differ in `and_not_xor` and in the number of shares the linear steps go through.
Imports: AsconSuite.Masking.Word, AsconSuite.Core.Permute
Trusted boundary: none
Main exports: MaskedState, andNotXorX2, andNotXorX3, andNotXorX4, asconX2Permute, asconX3Permute,
  asconX4Permute
-/
import AsconSuite.Masking.Word
import AsconSuite.Core.Permute

namespace AsconSuite

open ByteWord RotatedSharing

/-- `ascon_masked_state_t`, seen as its words `M`. -/
abbrev MaskedState := Five MaskedWord

/-- `and_not_xor` of `ascon-x2-c64.c`. -/
def andNotXorX2 (x y z : MaskedWord) : MaskedWord := fun i =>
  match i with
  | 0 => x 0 ^^^ (~~~y 0 &&& unrotateShare 1 0 (z 1)) ^^^ (~~~y 0 &&& z 0)
  | 1 => x 1 ^^^ (y 1 &&& z 1) ^^^ (y 1 &&& rotateShare 1 0 (z 0))
  | _ => x i

/-- `and_not_xor` of `ascon-x3-c64.c`. -/
def andNotXorX3 (x y z : MaskedWord) : MaskedWord := fun i =>
  match i with
  | 0 => x 0 ^^^ (~~~y 0 &&& z 0) ^^^ (y 0 &&& unrotateShare 1 0 (z 1)) ^^^
      (y 0 &&& unrotateShare 2 0 (z 2))
  | 1 => x 1 ^^^ (y 1 &&& rotateShare 1 0 (z 0)) ^^^ (~~~y 1 &&& z 1) ^^^
      (y 1 &&& unrotateShare 2 1 (z 2))
  | 2 => x 2 ^^^ (y 2 &&& rotateShare 2 0 (~~~z 0)) ^^^ (y 2 &&& rotateShare 2 1 (z 1)) ^^^
      (y 2 ||| z 2)
  | _ => x i

/-- `and_not_xor` of `ascon-x4-c64.c`. -/
def andNotXorX4 (x y z : MaskedWord) : MaskedWord := fun i =>
  match i with
  | 0 => x 0 ^^^ (~~~y 0 &&& z 0) ^^^ (unrotateShare 1 0 (y 1) &&& z 0) ^^^
      (unrotateShare 2 0 (y 2) &&& z 0) ^^^ (unrotateShare 3 0 (y 3) &&& z 0)
  | 1 => x 1 ^^^ (rotateShare 1 0 (~~~y 0) &&& z 1) ^^^ (y 1 &&& z 1) ^^^
      (unrotateShare 2 1 (y 2) &&& z 1) ^^^ (unrotateShare 3 1 (y 3) &&& z 1)
  | 2 => x 2 ^^^ (rotateShare 2 0 (~~~y 0) &&& z 2) ^^^ (rotateShare 2 1 (y 1) &&& z 2) ^^^
      (y 2 &&& z 2) ^^^ (unrotateShare 3 2 (y 3) &&& z 2)
  | 3 => x 3 ^^^ (rotateShare 3 0 (~~~y 0) &&& z 3) ^^^ (rotateShare 3 1 (y 1) &&& z 3) ^^^
      (rotateShare 3 2 (y 2) &&& z 3) ^^^ (y 3 &&& z 3)
  | _ => x i

/-- The random shares `t0` of a round: those preserved, and a last one that makes them a sharing of zero. -/
def preservedShares (n : Nat) (preserve : Nat → Word) : MaskedWord := fun i =>
  if i = n - 1 then xorRange (n - 1) fun j => rotateShare (n - 1) j (preserve j) else preserve i

/-- The substitution layer of one masked round: the state, and `t0` as the layer leaves it. -/
def maskedSbox (n : Nat) (andNotXor : MaskedWord → MaskedWord → MaskedWord → MaskedWord)
    (x : MaskedState) (preserve : Nat → Word) : MaskedState × MaskedWord :=
  let x0 := maskedWordXor n x.w0 x.w4
  let x4 := maskedWordXor n x.w4 x.w3
  let x2 := maskedWordXor n x.w2 x.w1
  let x1 := x.w1
  let x3 := x.w3
  let t1 := x0
  let t0 := andNotXor (preservedShares n preserve) x0 x1
  let x0 := andNotXor x0 x1 x2
  let x1 := andNotXor x1 x2 x3
  let x2 := andNotXor x2 x3 x4
  let x3 := andNotXor x3 x4 t1
  let x4 := maskedWordXor n x4 t0
  let x1 := maskedWordXor n x1 x0
  let x0 := maskedWordXor n x0 x4
  let x3 := maskedWordXor n x3 x2
  (⟨x0, x1, x2, x3, x4⟩, t0)

/-- One line of the linear diffusion layer, for every share. -/
def maskedDiffuse (n : Nat) (x : MaskedWord) (r s : Nat) : MaskedWord := fun i =>
  if i < n then x i ^^^ (rightRotate64 (x i) r ^^^ rightRotate64 (x i) s) else x i

/-- The linear diffusion layer of one masked round. -/
def maskedLinear (n : Nat) (x : MaskedState) : MaskedState where
  w0 := maskedDiffuse n x.w0 19 28
  w1 := maskedDiffuse n x.w1 61 39
  w2 := maskedDiffuse n x.w2 1 6
  w3 := maskedDiffuse n x.w3 10 17
  w4 := maskedDiffuse n x.w4 7 41

/-- The rotations of `t0` at the end of a round. Its last share is computed anew in the next one. -/
def rotatePreserved (t0 : MaskedWord) : Nat → Word := fun i =>
  match i with
  | 0 => rightRotate64 (t0 0) 13
  | 1 => rightRotate64 (t0 1) 29
  | 2 => rightRotate64 (t0 2) 59
  | _ => t0 i

/-- `x2_a = ~x2_a`. -/
def invertFirst (word : MaskedWord) : MaskedWord := fun i => if i = 0 then ~~~word 0 else word i

/-- The loop of the masked permutations. -/
def maskedRounds (n : Nat) (andNotXor : MaskedWord → MaskedWord → MaskedWord → MaskedWord)
    (x : MaskedState) (firstRound : Nat) (preserve : Nat → Word) : MaskedState × (Nat → Word) :=
  if firstRound < 12 then
    let x := { x with w2 := x.w2.addFirst (roundConstant firstRound) }
    let substituted := maskedSbox n andNotXor x preserve
    maskedRounds n andNotXor (maskedLinear n substituted.1) (firstRound + 1)
      (rotatePreserved substituted.2)
  else (x, preserve)
termination_by 12 - firstRound

/-- The body that the masked permutations share: the state, and the array of preserved words with its
first `n - 1` entries replaced. -/
def maskedPermute (n : Nat) (andNotXor : MaskedWord → MaskedWord → MaskedWord → MaskedWord)
    (state : MaskedState) (firstRound : Nat) (preserve : Nat → Word) :
    MaskedState × (Nat → Word) :=
  let done := maskedRounds n andNotXor { state with w2 := invertFirst state.w2 } firstRound preserve
  ({ done.1 with w2 := invertFirst done.1.w2 }, fun i => if i < n - 1 then done.2 i else preserve i)

/-- `ascon_x2_permute`. -/
def asconX2Permute := maskedPermute 2 andNotXorX2

/-- `ascon_x3_permute`. -/
def asconX3Permute := maskedPermute 3 andNotXorX3

/-- `ascon_x4_permute`. -/
def asconX4Permute := maskedPermute 4 andNotXorX4

end AsconSuite
