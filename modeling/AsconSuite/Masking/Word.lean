/-
Module: AsconSuite.Masking.Word
Layer: Model
Purpose: Masked 64-bit words of the 64-bit C backend, `masking/ascon-masked-word-c64.c`. The functions for
  2, 3 and 4 shares are one function of the number of shares; the narrowing conversions have bodies of
  their own.
Imports: AsconSuite.Core.Util, AsconSuite.Base.RotatedSharing
Trusted boundary: the random number generator is the sequence of its outputs
Main exports: MaskedWord, Trng, rotateShare, unrotateShare, maskedWordLoad, maskedWordLoadPartial,
  maskedWordStore, maskedWordStorePartial, maskedWordRandomize, maskedWordXor, maskedWordReplace
-/
import AsconSuite.Core.Util
import AsconSuite.Base.RotatedSharing

namespace AsconSuite

open ByteWord ByteMemory RotatedSharing

/-- `ascon_masked_word_t`, seen as the array `S` of its shares. -/
abbrev MaskedWord := Nat → Word

/-- `ascon_trng_state_t`: the outputs the generator has still to give. -/
abbrev Trng := Nat → Word

/-- The generator after `count` calls of `ascon_trng_generate_64`. -/
def Trng.skip (trng : Trng) (count : Nat) : Trng := fun i => trng (count + i)

/-- `ascon_mask64_rotate_share<i>_<j>`. -/
def rotateShare (i j : Nat) (x : Word) : Word := rightRotate64 x (11 * (i - j))

/-- `ascon_mask64_unrotate_share<i>_<j>`. -/
def unrotateShare (i j : Nat) (x : Word) : Word := rightRotate64 x (64 - 11 * (i - j))

/-- The shares made of `n - 1` random words: their sum in share 0, and each of them in a share of its own. -/
def randomShares (n : Nat) (random : Nat → Word) : MaskedWord := fun i =>
  if i = 0 then xorRange (n - 1) random
  else if i < n then rotateShare i 0 (random (i - 1))
  else 0

/-- `word->S[0] ^= x`. -/
def MaskedWord.addFirst (word : MaskedWord) (x : Word) : MaskedWord := fun i =>
  if i = 0 then word 0 ^^^ x else word i

/-- `ascon_masked_word_x<n>_zero`. -/
def maskedWordZero (n : Nat) (trng : Trng) : MaskedWord × Trng :=
  (randomShares n trng, trng.skip (n - 1))

/-- `ascon_masked_word_x<n>_load`. -/
def maskedWordLoad (n : Nat) (data : Mem) (trng : Trng) : MaskedWord × Trng :=
  (MaskedWord.addFirst (randomShares n trng) (beLoadWord64 data), trng.skip (n - 1))

/-- The steps of `ascon_masked_word_x<n>_load_partial` on the data and the first random word: groups of
four, two and one bytes from the end, each rotated into place. -/
def loadPartialSteps (masked random : Word) (data : Mem) (size : Nat) : Word × Word :=
  let (masked, random, size) :=
    if 4 ≤ size then
      (rightRotate64 (masked ^^^ (beLoadWord32 (data.view (size - 4))).setWidth 64) 32,
        rightRotate64 random 32, size - 4)
    else (masked, random, size)
  let (masked, random, size) :=
    if 2 ≤ size then
      (rightRotate64 (masked ^^^ (beLoadWord16 (data.view (size - 2))).setWidth 64) 16,
        rightRotate64 random 16, size - 2)
    else (masked, random, size)
  if 0 < size then
    (rightRotate64 (masked ^^^ (data 0).setWidth 64) 8, rightRotate64 random 8)
  else (masked, random)

/-- `ascon_masked_word_x<n>_load_partial`. -/
def maskedWordLoadPartial (n : Nat) (data : Mem) (size : Nat) (trng : Trng) : MaskedWord × Trng :=
  let (masked, random) := loadPartialSteps (trng 0) (rotateShare 1 0 (trng 0)) data size
  let word : MaskedWord := fun i =>
    if i = 0 then masked ^^^ xorRange (n - 2) (trng.skip 1)
    else if i = 1 then random
    else if i < n then rotateShare i 0 (trng (i - 1))
    else 0
  (word, trng.skip (n - 1))

/-- `ascon_masked_word_x<n>_load_32`. -/
def maskedWordLoad32 (n : Nat) (data1 data2 : Mem) (trng : Trng) : MaskedWord × Trng :=
  (MaskedWord.addFirst (MaskedWord.addFirst (randomShares n trng)
      ((beLoadWord32 data1).setWidth 64 <<< 32)) ((beLoadWord32 data2).setWidth 64),
    trng.skip (n - 1))

/-- Share `i` in the bit positions of share 0. -/
def shareValue (word : MaskedWord) (i : Nat) : Word :=
  if i = 0 then word 0 else unrotateShare i 0 (word i)

/-- `ascon_masked_word_x<n>_store`. -/
def maskedWordStore (n : Nat) (mem : Mem) (data : Nat) (word : MaskedWord) : Mem :=
  beStoreWord64 mem data (xorRange n (shareValue word))

/-- The steps of `ascon_masked_word_x<n>_store_partial` on the shares in the positions of share 0. -/
def storePartialSteps (n : Nat) (mem : Mem) (data size : Nat) (masked : Nat → Word) : Mem :=
  let (mem, data, size, masked) :=
    if 4 ≤ size then
      let masked := fun i => leftRotate64 (masked i) 32
      (beStoreWord32 mem data ((xorRange n masked).setWidth 32), data + 4, size - 4, masked)
    else (mem, data, size, masked)
  let (mem, data, size, masked) :=
    if 2 ≤ size then
      let masked := fun i => leftRotate64 (masked i) 16
      (beStoreWord16 mem data ((xorRange n masked).setWidth 16), data + 2, size - 2, masked)
    else (mem, data, size, masked)
  if 0 < size then
    let masked := fun i => leftRotate64 (masked i) 8
    mem.store data ((xorRange n masked).setWidth 8)
  else mem

/-- `ascon_masked_word_x<n>_store_partial`. -/
def maskedWordStorePartial (n : Nat) (mem : Mem) (data size : Nat) (word : MaskedWord) : Mem :=
  storePartialSteps n mem data size (shareValue word)

/-- `ascon_masked_word_x<n>_randomize`, where source and destination are the same word. -/
def maskedWordRandomize (n : Nat) (src : MaskedWord) (trng : Trng) : MaskedWord × Trng :=
  (fun i => if i < n then src i ^^^ randomShares n trng i else src i, trng.skip (n - 1))

/-- `ascon_masked_word_x<n>_xor`. -/
def maskedWordXor (n : Nat) (dest src : MaskedWord) : MaskedWord := fun i =>
  if i < n then dest i ^^^ src i else dest i

/-- `ascon_masked_word_x<n>_replace`. -/
def maskedWordReplace (n : Nat) (dest src : MaskedWord) (size : Nat) : MaskedWord :=
  let mask1 : Word := (~~~(0 : Word)) >>> (size * 8)
  let mask2 : Word := ~~~mask1
  fun i =>
    if i = 0 then (dest 0 &&& mask1) ||| (src 0 &&& mask2)
    else if i < n then (dest i &&& rotateShare i 0 mask1) ||| (src i &&& rotateShare i 0 mask2)
    else dest i

/-- `ascon_masked_word_x<n>_from_x<m>` for `m < n`. -/
def maskedWordWiden (n m : Nat) (src : MaskedWord) (trng : Trng) : MaskedWord × Trng :=
  (fun i => if i < m then randomShares n trng i ^^^ src i else randomShares n trng i,
    trng.skip (n - 1))

/-- `ascon_masked_word_x2_from_x3`. -/
def maskedWordX2FromX3 (src : MaskedWord) (trng : Trng) : MaskedWord × Trng :=
  (fun i => match i with
    | 0 => trng 0 ^^^ src 0
    | 1 => (rotateShare 1 0 (trng 0) ^^^ src 1) ^^^ unrotateShare 2 1 (src 2)
    | _ => 0, trng.skip 1)

/-- `ascon_masked_word_x2_from_x4`. -/
def maskedWordX2FromX4 (src : MaskedWord) (trng : Trng) : MaskedWord × Trng :=
  (fun i => match i with
    | 0 => (trng 0 ^^^ src 0) ^^^ unrotateShare 2 0 (src 2)
    | 1 => (rotateShare 1 0 (trng 0) ^^^ src 1) ^^^ unrotateShare 3 1 (src 3)
    | _ => 0, trng.skip 1)

/-- `ascon_masked_word_x3_from_x4`. -/
def maskedWordX3FromX4 (src : MaskedWord) (trng : Trng) : MaskedWord × Trng :=
  (fun i => match i with
    | 0 => (trng 0 ^^^ trng 1 ^^^ src 0) ^^^ unrotateShare 3 0 (src 3)
    | 1 => rotateShare 1 0 (trng 0) ^^^ src 1
    | 2 => rotateShare 2 0 (trng 1) ^^^ src 2
    | _ => 0, trng.skip 2)

/-- `ascon_masked_word_pad`. -/
def maskedWordPad (word : MaskedWord) (offset : Nat) : MaskedWord :=
  word.addFirst ((0x8000000000000000 : Word) >>> (offset * 8))

/-- `ascon_masked_word_separator`. -/
def maskedWordSeparator (word : MaskedWord) : MaskedWord := word.addFirst 1

end AsconSuite
