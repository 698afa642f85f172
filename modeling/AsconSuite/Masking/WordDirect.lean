/-
Module: AsconSuite.Masking.WordDirect
Layer: Model
Purpose: Masked words of the direct backend, `masking/ascon-masked-word-direct.c`: shares of eight bytes that
  are not rotated. The functions for 2, 3 and 4 shares are one function of the number of shares; the
  narrowing conversions have bodies of their own.
Imports: AsconSuite.Masking.Word
Trusted boundary: a little-endian host, for the bytes of a 64-bit output of the random number generator
Main exports: MaskedDirect.MaskedWord, MaskedDirect.maskedWordLoad, MaskedDirect.maskedWordLoadPartial,
  MaskedDirect.maskedWordStore, MaskedDirect.maskedWordStorePartial, MaskedDirect.maskedWordRandomize,
  MaskedDirect.maskedWordReplace
-/
import AsconSuite.Masking.Word

namespace AsconSuite.MaskedDirect

open ByteWord ByteMemory RotatedSharing

/-- `ascon_masked_word_t`: byte `index` of share `i` is `B[index + 8 * i]`. -/
abbrev MaskedWord := Nat → Nat → Byte

/-- Byte `index` of a 64-bit number in memory. -/
def randomByte (x : Word) (index : Nat) : Byte := (x >>> (8 * index)).setWidth 8

/-- `n - 1` random words in the shares behind the first, and in the first the sum of these and of
`data`. -/
def maskedSum (n : Nat) (data : Nat → Byte) (trng : Trng) : MaskedWord := fun i index =>
  if i = 0 then data index ^^^ xorRange (n - 1) fun k => randomByte (trng k) index
  else if i < n then randomByte (trng (i - 1)) index
  else 0#8

/-- `ascon_masked_word_x<n>_zero`. -/
def maskedWordZero (n : Nat) (trng : Trng) : MaskedWord × Trng :=
  (maskedSum n (fun _ => 0#8) trng, trng.skip (n - 1))

/-- `ascon_masked_word_x<n>_load`. -/
def maskedWordLoad (n : Nat) (data : Mem) (trng : Trng) : MaskedWord × Trng :=
  (maskedSum n data trng, trng.skip (n - 1))

/-- `ascon_masked_word_x<n>_load_partial`. -/
def maskedWordLoadPartial (n : Nat) (data : Mem) (size : Nat) (trng : Trng) : MaskedWord × Trng :=
  (maskedSum n (fun index => if index < size then data index else 0#8) trng, trng.skip (n - 1))

/-- `ascon_masked_word_x<n>_load_32`. -/
def maskedWordLoad32 (n : Nat) (data1 data2 : Mem) (trng : Trng) : MaskedWord × Trng :=
  (maskedSum n (fun index => if index < 4 then data1 index else data2 (index - 4)) trng,
    trng.skip (n - 1))

/-- Byte `index` of the sum of the shares. -/
def sumByte (n : Nat) (word : MaskedWord) (index : Nat) : Byte := xorRange n fun i => word i index

/-- `ascon_masked_word_x<n>_store_partial`. -/
def maskedWordStorePartial (n : Nat) (mem : Mem) (data size : Nat) (word : MaskedWord) : Mem :=
  mem.write data (Mem.read (sumByte n word) 0 size)

/-- `ascon_masked_word_x<n>_store`. -/
def maskedWordStore (n : Nat) (mem : Mem) (data : Nat) (word : MaskedWord) : Mem :=
  maskedWordStorePartial n mem data 8 word

/-- `ascon_masked_word_x<n>_randomize`, where source and destination are the same word. -/
def maskedWordRandomize (n : Nat) (src : MaskedWord) (trng : Trng) : MaskedWord × Trng :=
  (fun i index =>
    if i = 0 then src 0 index ^^^ xorRange (n - 1) fun k => randomByte (trng k) index
    else if i < n then src i index ^^^ randomByte (trng (i - 1)) index
    else src i index,
    trng.skip (n - 1))

/-- `ascon_masked_word_x<n>_xor`. -/
def maskedWordXor (n : Nat) (dest src : MaskedWord) : MaskedWord := fun i index =>
  if i < n then dest i index ^^^ src i index else dest i index

/-- `ascon_masked_word_x<n>_replace`. -/
def maskedWordReplace (n : Nat) (dest src : MaskedWord) (size : Nat) : MaskedWord := fun i index =>
  if i < n ∧ index < size then src i index else dest i index

/-- `ascon_masked_word_x<n>_from_x<m>` for `m < n`. -/
def maskedWordWiden (n m : Nat) (src : MaskedWord) (trng : Trng) : MaskedWord × Trng :=
  (fun i index =>
    if i = 0 then src 0 index ^^^ xorRange (n - 1) fun k => randomByte (trng k) index
    else if i < m then randomByte (trng (i - 1)) index ^^^ src i index
    else if i < n then randomByte (trng (i - 1)) index
    else 0#8,
    trng.skip (n - 1))

/-- `ascon_masked_word_x2_from_x3`. -/
def maskedWordX2FromX3 (src : MaskedWord) (trng : Trng) : MaskedWord × Trng :=
  (fun i index => match i with
    | 0 => randomByte (trng 0) index ^^^ src 0 index
    | 1 => (randomByte (trng 0) index ^^^ src 1 index) ^^^ src 2 index
    | _ => 0#8, trng.skip 1)

/-- `ascon_masked_word_x2_from_x4`. -/
def maskedWordX2FromX4 (src : MaskedWord) (trng : Trng) : MaskedWord × Trng :=
  (fun i index => match i with
    | 0 => (randomByte (trng 0) index ^^^ src 0 index) ^^^ src 2 index
    | 1 => (randomByte (trng 0) index ^^^ src 1 index) ^^^ src 3 index
    | _ => 0#8, trng.skip 1)

/-- `ascon_masked_word_x3_from_x4`. -/
def maskedWordX3FromX4 (src : MaskedWord) (trng : Trng) : MaskedWord × Trng :=
  (fun i index => match i with
    | 0 => ((randomByte (trng 0) index ^^^ src 0 index) ^^^ randomByte (trng 1) index) ^^^
        src 3 index
    | 1 => randomByte (trng 0) index ^^^ src 1 index
    | 2 => randomByte (trng 1) index ^^^ src 2 index
    | _ => 0#8, trng.skip 2)

/-- `ascon_masked_word_pad`. -/
def maskedWordPad (word : MaskedWord) (offset : Nat) : MaskedWord := fun i index =>
  if i = 0 ∧ index = offset then word 0 offset ^^^ 0x80#8 else word i index

/-- `ascon_masked_word_separator`. -/
def maskedWordSeparator (word : MaskedWord) : MaskedWord := fun i index =>
  if i = 0 ∧ index = 7 then word 0 7 ^^^ 1#8 else word i index

end AsconSuite.MaskedDirect
