/-
Module: AsconSuite.Masking.Backends
Layer: Model
Purpose: The masked word functions of a backend as one record, and the record of each of the three C
  backends.
Imports: AsconSuite.Masking.WordC32, AsconSuite.Masking.WordDirect
Trusted boundary: none
Main exports: MaskedWords, maskedWords64, maskedWords32, maskedWordsDirect
-/
import AsconSuite.Masking.WordC32
import AsconSuite.Masking.WordDirect

namespace AsconSuite

open ByteMemory

/-- The masked word functions of `masking/ascon-masked-word.h`. The number of shares comes first, and
`convert n m` is `ascon_masked_word_x<n>_from_x<m>`. -/
structure MaskedWords (μ : Type) where
  zero : (n : Nat) → Trng → μ × Trng
  load : (n : Nat) → (data : Mem) → Trng → μ × Trng
  loadPartial : (n : Nat) → (data : Mem) → (size : Nat) → Trng → μ × Trng
  load32 : (n : Nat) → (data1 data2 : Mem) → Trng → μ × Trng
  store : (n : Nat) → (mem : Mem) → (data : Nat) → μ → Mem
  storePartial : (n : Nat) → (mem : Mem) → (data size : Nat) → μ → Mem
  randomize : (n : Nat) → (src : μ) → Trng → μ × Trng
  xor : (n : Nat) → (dest src : μ) → μ
  replace : (n : Nat) → (dest src : μ) → (size : Nat) → μ
  convert : (n m : Nat) → (src : μ) → Trng → μ × Trng
  pad : (word : μ) → (offset : Nat) → μ
  separator : (word : μ) → μ

/-- The 64-bit backend. -/
def maskedWords64 : MaskedWords MaskedWord where
  zero := maskedWordZero
  load := maskedWordLoad
  loadPartial := maskedWordLoadPartial
  load32 := maskedWordLoad32
  store := maskedWordStore
  storePartial := maskedWordStorePartial
  randomize := maskedWordRandomize
  xor := maskedWordXor
  replace := maskedWordReplace
  convert
    | 2, 3 => maskedWordX2FromX3
    | 2, 4 => maskedWordX2FromX4
    | 3, 4 => maskedWordX3FromX4
    | n, m => maskedWordWiden n m
  pad := maskedWordPad
  separator := maskedWordSeparator

/-- The 32-bit bit-sliced backend. -/
def maskedWords32 : MaskedWords MaskedC32.MaskedWord where
  zero := MaskedC32.maskedWordZero
  load := MaskedC32.maskedWordLoad
  loadPartial := MaskedC32.maskedWordLoadPartial
  load32 := MaskedC32.maskedWordLoad32
  store := MaskedC32.maskedWordStore
  storePartial := MaskedC32.maskedWordStorePartial
  randomize := MaskedC32.maskedWordRandomize
  xor := MaskedC32.maskedWordXor
  replace := MaskedC32.maskedWordReplace
  convert
    | 2, 3 => MaskedC32.maskedWordX2FromX3
    | 2, 4 => MaskedC32.maskedWordX2FromX4
    | 3, 4 => MaskedC32.maskedWordX3FromX4
    | n, m => MaskedC32.maskedWordWiden n m
  pad := MaskedC32.maskedWordPad
  separator := MaskedC32.maskedWordSeparator

/-- The direct backend. -/
def maskedWordsDirect : MaskedWords MaskedDirect.MaskedWord where
  zero := MaskedDirect.maskedWordZero
  load := MaskedDirect.maskedWordLoad
  loadPartial := MaskedDirect.maskedWordLoadPartial
  load32 := MaskedDirect.maskedWordLoad32
  store := MaskedDirect.maskedWordStore
  storePartial := MaskedDirect.maskedWordStorePartial
  randomize := MaskedDirect.maskedWordRandomize
  xor := MaskedDirect.maskedWordXor
  replace := MaskedDirect.maskedWordReplace
  convert
    | 2, 3 => MaskedDirect.maskedWordX2FromX3
    | 2, 4 => MaskedDirect.maskedWordX2FromX4
    | 3, 4 => MaskedDirect.maskedWordX3FromX4
    | n, m => MaskedDirect.maskedWordWiden n m
  pad := MaskedDirect.maskedWordPad
  separator := MaskedDirect.maskedWordSeparator

end AsconSuite
