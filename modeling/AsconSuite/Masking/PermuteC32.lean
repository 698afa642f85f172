/-
Module: AsconSuite.Masking.PermuteC32
Layer: Model
Purpose: The masked permutations of the 32-bit C backend, `masking/ascon-x2-c32.c`, `ascon-x3-c32.c` and
  `ascon-x4-c32.c`, on shares in bit-sliced form.
Imports: AsconSuite.Core.PermuteC32, AsconSuite.Masking.WordC32
Trusted boundary: none
Main exports: MaskedC32.MaskedState, MaskedC32.andNotXorX2, MaskedC32.andNotXorX3, MaskedC32.andNotXorX4,
  MaskedC32.permuteShares
-/
import AsconSuite.Core.PermuteC32
import AsconSuite.Masking.WordC32

namespace AsconSuite.MaskedC32

open ByteWord RotatedSharing
open Sliced32 (SlicedWord addSliced)

/-- `ascon_masked_state_t`, seen as its words `M`. -/
abbrev MaskedState := Five MaskedWord

/-- The even or the odd halves of the shares of a word. -/
abbrev Halves := Nat → BitVec 32

/-- `ascon_mask32_rotate_share<i>_<j>`. -/
def rotateHalf (i j : Nat) (x : BitVec 32) : BitVec 32 := rightRotate x (5 * (i - j))

/-- `ascon_mask32_unrotate_share<i>_<j>`. -/
def unrotateHalf (i j : Nat) (x : BitVec 32) : BitVec 32 := rightRotate x (32 - 5 * (i - j))

/-- `and_not_xor` of `ascon-x2-c32.c`. -/
def andNotXorX2 (x y z : Halves) : Halves := fun i =>
  match i with
  | 0 => x 0 ^^^ (~~~y 0 &&& unrotateHalf 1 0 (z 1)) ^^^ (~~~y 0 &&& z 0)
  | 1 => x 1 ^^^ (y 1 &&& z 1) ^^^ (y 1 &&& rotateHalf 1 0 (z 0))
  | _ => x i

/-- `and_not_xor` of `ascon-x3-c32.c`. -/
def andNotXorX3 (x y z : Halves) : Halves := fun i =>
  match i with
  | 0 => x 0 ^^^ (~~~y 0 &&& z 0) ^^^ (y 0 &&& unrotateHalf 1 0 (z 1)) ^^^ (y 0 &&& unrotateHalf 2 0 (z 2))
  | 1 => x 1 ^^^ (y 1 &&& rotateHalf 1 0 (z 0)) ^^^ (~~~y 1 &&& z 1) ^^^ (y 1 &&& unrotateHalf 2 1 (z 2))
  | 2 => x 2 ^^^ (y 2 &&& rotateHalf 2 0 (~~~z 0)) ^^^ (y 2 &&& rotateHalf 2 1 (z 1)) ^^^ (y 2 ||| z 2)
  | _ => x i

/-- `and_not_xor` of `ascon-x4-c32.c`. -/
def andNotXorX4 (x y z : Halves) : Halves := fun i =>
  match i with
  | 0 => x 0 ^^^ (~~~y 0 &&& z 0) ^^^ (unrotateHalf 1 0 (y 1) &&& z 0) ^^^ (unrotateHalf 2 0 (y 2) &&& z 0) ^^^
      (unrotateHalf 3 0 (y 3) &&& z 0)
  | 1 => x 1 ^^^ (rotateHalf 1 0 (~~~y 0) &&& z 1) ^^^ (y 1 &&& z 1) ^^^ (unrotateHalf 2 1 (y 2) &&& z 1) ^^^
      (unrotateHalf 3 1 (y 3) &&& z 1)
  | 2 => x 2 ^^^ (rotateHalf 2 0 (~~~y 0) &&& z 2) ^^^ (rotateHalf 2 1 (y 1) &&& z 2) ^^^ (y 2 &&& z 2) ^^^
      (unrotateHalf 3 2 (y 3) &&& z 2)
  | 3 => x 3 ^^^ (rotateHalf 3 0 (~~~y 0) &&& z 3) ^^^ (rotateHalf 3 1 (y 1) &&& z 3) ^^^
      (rotateHalf 3 2 (y 2) &&& z 3) ^^^ (y 3 &&& z 3)
  | _ => x i

/-- `and_not_xor` for a number of shares. -/
def andNotXor : (n : Nat) → Halves → Halves → Halves → Halves
  | 2 => andNotXorX2
  | 3 => andNotXorX3
  | _ => andNotXorX4

/-- The random shares `t0` of a round: those preserved, and a last one that makes them a sharing of zero. -/
def preservedShares (n : Nat) (preserve : Halves) : Halves := fun i =>
  if i = n - 1 then xorRange (n - 1) fun j => rotateHalf (n - 1) j (preserve j) else preserve i

/-- The exclusive or of the first shares. -/
def xorHalves (n : Nat) (x y : Halves) : Halves := fun i => if i < n then x i ^^^ y i else x i

/-- The substitution layer of one masked round on the even or on the odd halves: the state, and `t0` as the layer
leaves it. -/
def maskedSbox (n : Nat) (x : Five Halves) (preserve : Halves) : Five Halves × Halves :=
  let x0 := xorHalves n x.w0 x.w4
  let x4 := xorHalves n x.w4 x.w3
  let x2 := xorHalves n x.w2 x.w1
  let x1 := x.w1
  let x3 := x.w3
  let t1 := x0
  let t0 := andNotXor n (preservedShares n preserve) x0 x1
  let x0 := andNotXor n x0 x1 x2
  let x1 := andNotXor n x1 x2 x3
  let x2 := andNotXor n x2 x3 x4
  let x3 := andNotXor n x3 x4 t1
  let x4 := xorHalves n x4 t0
  let x1 := xorHalves n x1 x0
  let x0 := xorHalves n x0 x4
  let x3 := xorHalves n x3 x2
  (⟨x0, x1, x2, x3, x4⟩, t0)

/-- The even halves of the shares of a word. -/
def evens (word : MaskedWord) : Halves := fun i => (word i).even

/-- The odd halves of the shares of a word. -/
def odds (word : MaskedWord) : Halves := fun i => (word i).odd

/-- The shares with these halves. -/
def joinHalves (even odd : Halves) : MaskedWord := fun i => ⟨even i, odd i⟩

/-- `linear` of a share: the linear layer of the permutation itself. -/
def linearShare (x : MaskedState) (i : Nat) : Five SlicedWord :=
  Sliced32.permuteLinear ⟨x.w0 i, x.w1 i, x.w2 i, x.w3 i, x.w4 i⟩

/-- `linear` of the first shares. -/
def maskedLinear (n : Nat) (x : MaskedState) : MaskedState where
  w0 := fun i => if i < n then (linearShare x i).w0 else x.w0 i
  w1 := fun i => if i < n then (linearShare x i).w1 else x.w1 i
  w2 := fun i => if i < n then (linearShare x i).w2 else x.w2 i
  w3 := fun i => if i < n then (linearShare x i).w3 else x.w3 i
  w4 := fun i => if i < n then (linearShare x i).w4 else x.w4 i

/-- The rotations of `t0` at the end of a round. Its last share is computed anew in the next one. -/
def rotatePreserved (t0 : Halves) : Halves := fun i =>
  match i with
  | 0 => rightRotate (t0 0) 7
  | 1 => rightRotate (t0 1) 13
  | 2 => rightRotate (t0 2) 29
  | _ => t0 i

/-- The addition of a pair to the first share of a word. -/
def addFirst (word : MaskedWord) (x : SlicedWord) : MaskedWord := fun i =>
  if i = 0 then addSliced (word 0) x else word i

/-- `x2_ae = ~x2_ae` and `x2_ao = ~x2_ao`. -/
def invertFirst (word : MaskedWord) : MaskedWord := fun i =>
  if i = 0 then ⟨~~~(word 0).even, ~~~(word 0).odd⟩ else word i

/-- The loop of the masked permutations. -/
def maskedRounds (n : Nat) (x : MaskedState) (firstRound : Nat) (preserve : MaskedWord) : MaskedState × MaskedWord :=
  if firstRound < 12 then
    let x := { x with w2 := addFirst x.w2 (Sliced32.rc firstRound) }
    let even := maskedSbox n ⟨evens x.w0, evens x.w1, evens x.w2, evens x.w3, evens x.w4⟩ (evens preserve)
    let odd := maskedSbox n ⟨odds x.w0, odds x.w1, odds x.w2, odds x.w3, odds x.w4⟩ (odds preserve)
    let x : MaskedState :=
      ⟨joinHalves even.1.w0 odd.1.w0, joinHalves even.1.w1 odd.1.w1, joinHalves even.1.w2 odd.1.w2,
        joinHalves even.1.w3 odd.1.w3, joinHalves even.1.w4 odd.1.w4⟩
    maskedRounds n (maskedLinear n x) (firstRound + 1) (joinHalves (rotatePreserved even.2) (rotatePreserved odd.2))
  else (x, preserve)
termination_by 12 - firstRound

/-- `ascon_x<n>_permute`: the state, and the array of preserved words with its first `n - 1` pairs replaced. -/
def permuteShares (n : Nat) (state : MaskedState) (firstRound : Nat) (preserve : MaskedWord) :
    MaskedState × MaskedWord :=
  let done := maskedRounds n { state with w2 := invertFirst state.w2 } firstRound preserve
  ({ done.1 with w2 := invertFirst done.1.w2 }, fun i => if i < n - 1 then done.2 i else preserve i)

end AsconSuite.MaskedC32
