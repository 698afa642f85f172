/-
Module: AsconSuite.Masking.WordC32
Layer: Model
Purpose: Masked words of the 32-bit C backend, `masking/ascon-masked-word-c32.c`: shares in bit-sliced form.
  The functions for 2, 3 and 4 shares are one function of the number of shares; the narrowing conversions
  have bodies of their own.
Imports: AsconSuite.Core.Sliced32, AsconSuite.Masking.Word
Trusted boundary: the random number generator is the sequence of its outputs, of which a call for 32 bits
  takes the lower half of the next one
Main exports: MaskedC32.MaskedWord, MaskedC32.maskedWordLoad, MaskedC32.maskedWordLoadPartial,
  MaskedC32.maskedWordStore, MaskedC32.maskedWordStorePartial, MaskedC32.maskedWordRandomize,
  MaskedC32.maskedWordReplace
-/
import AsconSuite.Core.Sliced32
import AsconSuite.Masking.Word

namespace AsconSuite.MaskedC32

open ByteWord ByteMemory RotatedSharing
open Sliced32 (SlicedWord addSliced sliceHalves sliceWord slicedHigh slicedLow asconSeparate
  asconCombine storeHalves)

/-- `ascon_masked_word_t`: share `i` is the pair `W[2 * i]` and `W[2 * i + 1]`. -/
abbrev MaskedWord := Nat → SlicedWord

/-- `ascon_mask32_rotate_share<i>_<j>` of both halves of a share. -/
def rotateShare (i j : Nat) (x : SlicedWord) : SlicedWord :=
  ⟨rightRotate x.even (5 * (i - j)), rightRotate x.odd (5 * (i - j))⟩

/-- `ascon_mask32_unrotate_share<i>_<j>` of both halves of a share. -/
def unrotateShare (i j : Nat) (x : SlicedWord) : SlicedWord :=
  ⟨rightRotate x.even (32 - 5 * (i - j)), rightRotate x.odd (32 - 5 * (i - j))⟩

/-- Two calls of `ascon_trng_generate_32`, the pair after `k` earlier ones. -/
def randomPair (trng : Trng) (k : Nat) : SlicedWord :=
  ⟨(trng (2 * k)).setWidth 32, (trng (2 * k + 1)).setWidth 32⟩

/-- The sum of the first `n` pairs of a sequence. -/
def addRange : (n : Nat) → (Nat → SlicedWord) → SlicedWord
  | 0, _ => ⟨0#32, 0#32⟩
  | n + 1, f => addSliced (addRange n f) (f n)

/-- The shares made of `n - 1` random pairs: their sum in share 0, and each of them in a share of its
own. -/
def randomShares (n : Nat) (random : Nat → SlicedWord) : MaskedWord := fun i =>
  if i = 0 then addRange (n - 1) random
  else if i < n then rotateShare i 0 (random (i - 1))
  else ⟨0#32, 0#32⟩

/-- `ascon_masked_word_x<n>_zero`. -/
def maskedWordZero (n : Nat) (trng : Trng) : MaskedWord × Trng :=
  (randomShares n (randomPair trng), trng.skip (2 * (n - 1)))

/-- `ascon_masked_word_x<n>_load_32`. The first random pair is added before the separation, the others
are stored as they come and turned back for share 0. -/
def maskedWordLoad32 (n : Nat) (data1 data2 : Mem) (trng : Trng) : MaskedWord × Trng :=
  let random1 := randomPair trng 0
  let high := random1.even ^^^ beLoadWord32 data1
  let low := random1.odd ^^^ beLoadWord32 data2
  let word : MaskedWord := fun i =>
    if i = 0 then
      addSliced (sliceHalves (asconSeparate high) (asconSeparate low))
        (addRange (n - 2) fun k => unrotateShare (k + 2) 0 (randomPair trng (k + 1)))
    else if i = 1 then
      rotateShare 1 0 (sliceHalves (asconSeparate random1.even) (asconSeparate random1.odd))
    else if i < n then randomPair trng (i - 1)
    else ⟨0#32, 0#32⟩
  (word, trng.skip (2 * (n - 1)))

/-- `ascon_masked_word_x<n>_load`. -/
def maskedWordLoad (n : Nat) (data : Mem) (trng : Trng) : MaskedWord × Trng :=
  maskedWordLoad32 n data (data.view 4) trng

/-- `ascon_masked_word_x<n>_load_partial`. The steps on 64-bit words are those of the 64-bit backend. -/
def maskedWordLoadPartial (n : Nat) (data : Mem) (size : Nat) (trng : Trng) : MaskedWord × Trng :=
  let (masked, random) := loadPartialSteps (trng 0) (trng 0) data size
  let trng := trng.skip 1
  let word : MaskedWord := fun i =>
    if i = 0 then addSliced (sliceWord masked) (addRange (n - 2) (randomPair trng))
    else if i = 1 then rotateShare 1 0 (sliceWord random)
    else if i < n then rotateShare i 0 (randomPair trng (i - 2))
    else ⟨0#32, 0#32⟩
  (word, trng.skip (2 * (n - 2)))

/-- The shares behind the first one, turned back and added up. -/
def otherShares (n : Nat) (word : MaskedWord) : SlicedWord :=
  addRange (n - 1) fun k => unrotateShare (k + 1) 0 (word (k + 1))

/-- `ascon_masked_word_x<n>_store`. -/
def maskedWordStore (n : Nat) (mem : Mem) (data : Nat) (word : MaskedWord) : Mem :=
  let high1 := asconCombine (slicedHigh (word 0))
  let low1 := asconCombine (slicedLow (word 0))
  let high3 := asconCombine (slicedHigh (otherShares n word))
  let low3 := asconCombine (slicedLow (otherShares n word))
  storeHalves mem data (high1 ^^^ high3) (low1 ^^^ low3)

/-- `ascon_masked_word_x<n>_store_partial`. The steps are those of the 64-bit backend on two words. -/
def maskedWordStorePartial (n : Nat) (mem : Mem) (data size : Nat) (word : MaskedWord) : Mem :=
  let masked1 := Sliced32.combineWord (word 0)
  let masked2 := Sliced32.combineWord (otherShares n word)
  storePartialSteps 2 mem data size fun i => if i = 0 then masked1 else masked2

/-- `ascon_masked_word_x<n>_randomize`, where source and destination are the same word. -/
def maskedWordRandomize (n : Nat) (src : MaskedWord) (trng : Trng) : MaskedWord × Trng :=
  (fun i => if i < n then addSliced (src i) (randomShares n (randomPair trng) i) else src i,
    trng.skip (2 * (n - 1)))

/-- `ascon_masked_word_x<n>_xor`. -/
def maskedWordXor (n : Nat) (dest src : MaskedWord) : MaskedWord := fun i =>
  if i < n then addSliced (dest i) (src i) else dest i

/-- A mask after the rotations that precede its use on share `i`. -/
def shareMask (mask : BitVec 32) : (i : Nat) → BitVec 32
  | 0 => mask
  | i + 1 => rightRotate (shareMask mask i) 5

/-- `ascon_masked_word_x<n>_replace`. -/
def maskedWordReplace (n : Nat) (dest src : MaskedWord) (size : Nat) : MaskedWord :=
  let mask1 := (~~~0#32) >>> (size * 4)
  let mask2 := ~~~mask1
  fun i =>
    if i < n then
      ⟨((dest i).even &&& shareMask mask1 i) ||| ((src i).even &&& shareMask mask2 i),
        ((dest i).odd &&& shareMask mask1 i) ||| ((src i).odd &&& shareMask mask2 i)⟩
    else dest i

/-- `ascon_masked_word_x<n>_from_x<m>` for `m < n`. -/
def maskedWordWiden (n m : Nat) (src : MaskedWord) (trng : Trng) : MaskedWord × Trng :=
  (fun i =>
    if i < m then addSliced (randomShares n (randomPair trng) i) (src i)
    else randomShares n (randomPair trng) i,
    trng.skip (2 * (n - 1)))

/-- `ascon_masked_word_x2_from_x3`. -/
def maskedWordX2FromX3 (src : MaskedWord) (trng : Trng) : MaskedWord × Trng :=
  let random1 := randomPair trng 0
  (fun i => match i with
    | 0 => addSliced random1 (src 0)
    | 1 => addSliced (addSliced (rotateShare 1 0 random1) (src 1)) (unrotateShare 2 1 (src 2))
    | _ => ⟨0#32, 0#32⟩, trng.skip 2)

/-- `ascon_masked_word_x2_from_x4`. -/
def maskedWordX2FromX4 (src : MaskedWord) (trng : Trng) : MaskedWord × Trng :=
  let random1 := randomPair trng 0
  (fun i => match i with
    | 0 => addSliced (addSliced random1 (src 0)) (unrotateShare 2 0 (src 2))
    | 1 => addSliced (addSliced (rotateShare 1 0 random1) (src 1)) (unrotateShare 3 1 (src 3))
    | _ => ⟨0#32, 0#32⟩, trng.skip 2)

/-- `ascon_masked_word_x3_from_x4`. -/
def maskedWordX3FromX4 (src : MaskedWord) (trng : Trng) : MaskedWord × Trng :=
  let random1 := randomPair trng 0
  let random2 := randomPair trng 1
  (fun i => match i with
    | 0 => addSliced (addSliced (addSliced random1 random2) (src 0)) (unrotateShare 3 0 (src 3))
    | 1 => addSliced (rotateShare 1 0 random1) (src 1)
    | 2 => addSliced (rotateShare 2 0 random2) (src 2)
    | _ => ⟨0#32, 0#32⟩, trng.skip 4)

/-- `ascon_masked_word_pad`. -/
def maskedWordPad (word : MaskedWord) (offset : Nat) : MaskedWord := fun i =>
  if i = 0 then { word 0 with odd := (word 0).odd ^^^ (0x80000000#32 >>> (offset * 4)) } else word i

/-- `ascon_masked_word_separator`. -/
def maskedWordSeparator (word : MaskedWord) : MaskedWord := fun i =>
  if i = 0 then { word 0 with even := (word 0).even ^^^ 1#32 } else word i

end AsconSuite.MaskedC32
