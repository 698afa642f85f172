/-
Module: AsconSuite.Masking.Key
Layer: Model
Purpose: Masked keys, `masking/ascon-masked-key.c`. The key of ASCON-80pq is masked twice, since the
  algorithm absorbs it at two different alignments.
Imports: AsconSuite.Masking.Word
Trusted boundary: the outputs of the random number generator, which are arbitrary
Main exports: MaskedKey, asconMaskedKey128Init, asconMaskedKey128RandomizeWithTrng, asconMaskedKey128Extract,
  asconMaskedKey160Init, asconMaskedKey160RandomizeWithTrng, asconMaskedKey160Extract
-/
import AsconSuite.Masking.Word

namespace AsconSuite

open ByteWord ByteMemory

/-- `ascon_masked_key_128_t` and `ascon_masked_key_160_t`, seen as the array `k` of their words. -/
abbrev MaskedKey := Nat → MaskedWord

/-- `ascon_masked_key_128_init`. -/
def asconMaskedKey128Init (n : Nat) (key : Mem) (trng : Trng) : MaskedKey :=
  let k0 := maskedWordLoad n key trng
  let k1 := maskedWordLoad n (key.view 8) k0.2
  fun i =>
    match i with
    | 0 => k0.1
    | 1 => k1.1
    | _ => fun _ => 0

/-- `ascon_masked_key_160_init`. -/
def asconMaskedKey160Init (n : Nat) (key : Mem) (trng : Trng) : MaskedKey :=
  let zeroes : Mem := fun _ => 0
  let k0 := maskedWordLoad n key trng
  let k1 := maskedWordLoad n (key.view 8) k0.2
  let k2 := maskedWordLoad32 n (key.view 16) zeroes k1.2
  let k3 := maskedWordLoad32 n zeroes key k2.2
  let k4 := maskedWordLoad n (key.view 4) k3.2
  let k5 := maskedWordLoad n (key.view 12) k4.2
  fun i =>
    match i with
    | 0 => k0.1
    | 1 => k1.1
    | 2 => k2.1
    | 3 => k3.1
    | 4 => k4.1
    | 5 => k5.1
    | _ => fun _ => 0

/-! ### Refreshing -/

/-- `ascon_masked_word_x<n>_randomize` of the words number `index` to `index + words - 1`, each in its place. -/
def randomizeKeyWords (n : Nat) (masked : MaskedKey) (trng : Trng) (index : Nat) :
    (words : Nat) → MaskedKey × Trng
  | 0 => (masked, trng)
  | words + 1 =>
      let (word, trng) := maskedWordRandomize n (masked index) trng
      randomizeKeyWords n (fun i => if i = index then word else masked i) trng (index + 1) words

/-- `ascon_masked_key_128_randomize_with_trng`. -/
def asconMaskedKey128RandomizeWithTrng (n : Nat) (masked : MaskedKey) (trng : Trng) : MaskedKey × Trng :=
  randomizeKeyWords n masked trng 0 2

/-- `ascon_masked_key_160_randomize_with_trng`, where the branches for 2, 3 and 4 shares all call
`ascon_masked_word_x2_randomize`. -/
def asconMaskedKey160RandomizeWithTrng (n : Nat) (masked : MaskedKey) (trng : Trng) : MaskedKey × Trng :=
  match n with
  | 2 => randomizeKeyWords 2 masked trng 0 6
  | 3 => randomizeKeyWords 2 masked trng 0 6
  | _ => randomizeKeyWords 2 masked trng 0 6

/-! ### Extraction -/

/-- `ascon_masked_key_128_extract`. -/
def asconMaskedKey128Extract (n : Nat) (masked : MaskedKey) (mem : Mem) (key : Nat) : Mem :=
  let mem := maskedWordStore n mem key (masked 0)
  maskedWordStore n mem (key + 8) (masked 1)

/-- `ascon_masked_key_160_extract`. -/
def asconMaskedKey160Extract (n : Nat) (masked : MaskedKey) (mem : Mem) (key : Nat) : Mem :=
  let mem := maskedWordStore n mem key (masked 0)
  let mem := maskedWordStore n mem (key + 8) (masked 1)
  maskedWordStorePartial n mem (key + 16) 4 (masked 2)

end AsconSuite
