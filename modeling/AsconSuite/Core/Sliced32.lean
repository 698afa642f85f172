/-
Module: AsconSuite.Core.Sliced32
Layer: Model
Purpose: The permutation state of the 32-bit bit-sliced backend: the conversion and access macros of
  `core/ascon-sliced32.h`, the byte functions of `core/ascon-sliced32.c` and the macros that
  `core/ascon-util-snp.h` defines for this backend.
Imports: AsconSuite.Base.BitLanes, AsconSuite.Core.State
Trusted boundary: none
Main exports: Sliced32.asconSeparate, Sliced32.asconCombine, Sliced32.AsconState,
  Sliced32.asconSetWord64, Sliced32.asconSqueezeWord64, Sliced32.asconAddBytes,
  Sliced32.asconOverwriteBytes, Sliced32.asconExtractAndOverwriteBytes
-/
import AsconSuite.Base.BitLanes
import AsconSuite.Core.State

namespace AsconSuite.Sliced32

open ByteWord ByteMemory
open BitLanes (bitPermuteStep)

/-! ### Bit separation -/

/-- `ascon_separate`. -/
def asconSeparate (x : BitVec 32) : BitVec 32 :=
  let x := bitPermuteStep x 0x22222222#32 1
  let x := bitPermuteStep x 0x0c0c0c0c#32 2
  let x := bitPermuteStep x 0x00f000f0#32 4
  bitPermuteStep x 0x0000ff00#32 8

/-- `ascon_combine`. -/
def asconCombine (x : BitVec 32) : BitVec 32 :=
  let x := bitPermuteStep x 0x0000aaaa#32 15
  let x := bitPermuteStep x 0x0000cccc#32 14
  let x := bitPermuteStep x 0x0000f0f0#32 12
  bitPermuteStep x 0x0000ff00#32 8

/-- A 64-bit word in sliced form: `W[2 * i]` holds its even bits and `W[2 * i + 1]` its odd bits. -/
structure SlicedWord where
  even : BitVec 32
  odd : BitVec 32
deriving DecidableEq

/-- `ascon_state_t`, seen as the pairs of its words `W`. -/
abbrev AsconState := Five SlicedWord

/-- The pair that separated halves of a word are stored as. -/
def sliceHalves (high low : BitVec 32) : SlicedWord where
  even := (high <<< 16) ||| (low &&& 0x0000FFFF#32)
  odd := (high &&& 0xFFFF0000#32) ||| (low >>> 16)

/-- The separated upper half of a stored pair. -/
def slicedHigh (w : SlicedWord) : BitVec 32 := (w.even >>> 16) ||| (w.odd &&& 0xFFFF0000#32)

/-- The separated lower half of a stored pair. -/
def slicedLow (w : SlicedWord) : BitVec 32 := (w.even &&& 0x0000FFFF#32) ||| (w.odd <<< 16)

/-- The addition of a pair to a stored pair. -/
def addSliced (w v : SlicedWord) : SlicedWord := ⟨w.even ^^^ v.even, w.odd ^^^ v.odd⟩

/-- The pair for eight bytes of data. -/
def sliceData (data : Mem) : SlicedWord :=
  sliceHalves (asconSeparate (beLoadWord32 data)) (asconSeparate (beLoadWord32 (data.view 4)))

/-- The pair for a 64-bit word. -/
def sliceWord (value : Word) : SlicedWord :=
  sliceHalves (asconSeparate ((value >>> 32).setWidth 32)) (asconSeparate (value.setWidth 32))

/-! ### Macros of `ascon-sliced32.h` -/

/-- `ascon_set_sliced`. -/
def asconSetSliced (state : AsconState) (data : Mem) (offset : Nat) : AsconState :=
  state.set offset (sliceData data)

/-- `ascon_set_word64`. -/
def asconSetWord64 (state : AsconState) (value : Word) (offset : Nat) : AsconState :=
  state.set offset (sliceWord value)

/-- `ascon_absorb_sliced`. -/
def asconAbsorbSliced (state : AsconState) (data : Mem) (offset : Nat) : AsconState :=
  state.modify offset fun w => addSliced w (sliceData data)

/-- `ascon_absorb_word64`. -/
def asconAbsorbWord64 (state : AsconState) (value : Word) (offset : Nat) : AsconState :=
  state.modify offset fun w => addSliced w (sliceWord value)

/-- The halves of a word stored one behind the other. -/
def storeHalves (mem : Mem) (data : Nat) (high low : BitVec 32) : Mem :=
  beStoreWord32 (beStoreWord32 mem data high) (data + 4) low

/-- `ascon_squeeze_sliced`. -/
def asconSqueezeSliced (state : AsconState) (mem : Mem) (data offset : Nat) : Mem :=
  storeHalves mem data (asconCombine (slicedHigh (state.get offset)))
    (asconCombine (slicedLow (state.get offset)))

/-- The word of a stored pair, as `ascon_squeeze_word64` computes it. -/
def combineWord (w : SlicedWord) : Word :=
  ((asconCombine (slicedHigh w)).setWidth 64 <<< 32) ||| (asconCombine (slicedLow w)).setWidth 64

/-- `ascon_squeeze_word64`. -/
def asconSqueezeWord64 (state : AsconState) (offset : Nat) : Word := combineWord (state.get offset)

/-- `ascon_encrypt_sliced`. -/
def asconEncryptSliced (state : AsconState) (mem : Mem) (c m offset : Nat) : AsconState × Mem :=
  let state := state.modify offset fun w => addSliced w (sliceData (mem.view m))
  (state, storeHalves mem c (asconCombine (slicedHigh (state.get offset)))
    (asconCombine (slicedLow (state.get offset))))

/-- `ascon_decrypt_sliced`. -/
def asconDecryptSliced (state : AsconState) (mem : Mem) (m c offset : Nat) : AsconState × Mem :=
  let high := asconSeparate (beLoadWord32 (mem.view c))
  let low := asconSeparate (beLoadWord32 (mem.view (c + 4)))
  let high2 := high ^^^ slicedHigh (state.get offset)
  let low2 := low ^^^ slicedLow (state.get offset)
  (state.set offset (sliceHalves high low),
    storeHalves mem m (asconCombine high2) (asconCombine low2))

/-- `ascon_decrypt_sliced_no_insert`. -/
def asconDecryptSlicedNoInsert (state : AsconState) (mem : Mem) (m c offset : Nat) : Mem :=
  let high := asconSeparate (beLoadWord32 (mem.view c))
  let low := asconSeparate (beLoadWord32 (mem.view (c + 4)))
  storeHalves mem m (asconCombine (high ^^^ slicedHigh (state.get offset)))
    (asconCombine (low ^^^ slicedLow (state.get offset)))

/-! ### Byte functions of `ascon-sliced32.c` -/

section Ranges

variable {σ : Type*} (whole : σ → (posn offset : Nat) → σ) (tail : σ → (posn offset size : Nat) → σ)

/-- The loop over whole words and the incomplete word behind it. `posn` counts the bytes already
processed, which the source adds to its pointers. -/
def wholeWords (s : σ) (posn offset size : Nat) : σ :=
  if 8 ≤ size then wholeWords (whole s posn offset) (posn + 8) (offset + 8) (size - 8)
  else if 0 < size then tail s posn offset size
  else s
termination_by size

/-- The frame of the byte functions: an incomplete word up to the next word boundary, whole words, and
an incomplete word at the end. -/
def byteRange (head : σ → (offset size : Nat) → σ) (s : σ) (offset size : Nat) : σ :=
  if offset % 8 ≠ 0 then
    let posn := min (8 - offset % 8) size
    wholeWords whole tail (head s offset posn) posn (offset + posn) (size - posn)
  else wholeWords whole tail s 0 offset size

end Ranges

/-- The loop that puts `size` bytes below each other into a word, from bit `shift` on. -/
def orBytes (value : Word) (data : Mem) (shift : Nat) : (size : Nat) → Word
  | 0 => value
  | size + 1 =>
      orBytes (value ||| ((data 0).setWidth 64 <<< shift)) (data.view 1) (shift - 8) size

/-- The loop that replaces `size` bytes of a word from bit `shift` on. -/
def replaceBytes (value : Word) (data : Mem) (shift : Nat) : (size : Nat) → Word
  | 0 => value
  | size + 1 =>
      replaceBytes
        ((value &&& ~~~(0xFF#64 <<< shift)) ||| ((data 0).setWidth 64 <<< shift))
        (data.view 1) (shift - 8) size

/-- The loop that writes `size` bytes of a word from bit `shift` on. -/
def writeBytes (value : Word) (mem : Mem) (data shift : Nat) : (size : Nat) → Mem
  | 0 => mem
  | size + 1 =>
      writeBytes value (mem.store data ((value >>> shift).setWidth 8)) (data + 1) (shift - 8) size

/-- The loop that writes `size` bytes of a word from bit `shift` on, each added to an input byte. -/
def writeSums (value : Word) (mem : Mem) (input output shift : Nat) : (size : Nat) → Mem
  | 0 => mem
  | size + 1 =>
      writeSums value (mem.store output (mem input ^^^ (value >>> shift).setWidth 8)) (input + 1)
        (output + 1) (shift - 8) size

/-- The loop that writes the sums of bytes of a word with input bytes and keeps the input bytes. -/
def swapBytes (value : Word) (mem : Mem) (input output shift : Nat) : (size : Nat) → Word × Mem
  | 0 => (value, mem)
  | size + 1 =>
      let inByte := mem input
      swapBytes
        ((value &&& ~~~(0xFF#64 <<< shift)) ||| (inByte.setWidth 64 <<< shift))
        (mem.store output (inByte ^^^ (value >>> shift).setWidth 8)) (input + 1) (output + 1)
        (shift - 8) size

/-- `ascon_add_bytes`. -/
def asconAddBytes (state : AsconState) (data : Mem) (offset size : Nat) : AsconState :=
  byteRange
    (fun state posn offset => asconAbsorbSliced state (data.view posn) (offset / 8))
    (fun state posn offset size =>
      asconAbsorbWord64 state (orBytes 0#64 (data.view posn) 56 size) (offset / 8))
    (fun state offset size =>
      asconAbsorbWord64 state (orBytes 0#64 data ((7 - offset % 8) * 8) size) (offset / 8))
    state offset size

/-- `ascon_overwrite_bytes`. -/
def asconOverwriteBytes (state : AsconState) (data : Mem) (offset size : Nat) : AsconState :=
  byteRange
    (fun state posn offset => asconSetSliced state (data.view posn) (offset / 8))
    (fun state posn offset size =>
      let value := asconSqueezeWord64 state (offset / 8)
      asconSetWord64 state (replaceBytes value (data.view posn) 56 size) (offset / 8))
    (fun state offset size =>
      let value := asconSqueezeWord64 state (offset / 8)
      asconSetWord64 state (replaceBytes value data ((7 - offset % 8) * 8) size) (offset / 8))
    state offset size

/-- `ascon_overwrite_with_zeroes`. -/
def asconOverwriteWithZeroes (state : AsconState) (offset size : Nat) : AsconState :=
  byteRange
    (fun state _ offset => state.set (offset / 8) ⟨0#32, 0#32⟩)
    (fun state _ offset size =>
      let value := asconSqueezeWord64 state (offset / 8)
      asconSetWord64 state (value &&& (~~~0#64 >>> (size * 8))) (offset / 8))
    (fun state offset posn =>
      let value := asconSqueezeWord64 state (offset / 8)
      let ofs := offset % 8
      asconSetWord64 state
        ((value &&& (~~~0#64 <<< ((8 - ofs) * 8))) |||
          (value &&& ((1#64 <<< ((8 - ofs - posn) * 8)) - 1#64)))
        (offset / 8))
    state offset size

/-- `ascon_extract_bytes`. -/
def asconExtractBytes (state : AsconState) (mem : Mem) (data offset size : Nat) : Mem :=
  byteRange
    (fun mem posn offset => asconSqueezeSliced state mem (data + posn) (offset / 8))
    (fun mem posn offset size =>
      writeBytes (asconSqueezeWord64 state (offset / 8)) mem (data + posn) 56 size)
    (fun mem offset size =>
      writeBytes (asconSqueezeWord64 state (offset / 8)) mem data ((7 - offset % 8) * 8) size)
    mem offset size

/-- `ascon_extract_and_add_bytes`. -/
def asconExtractAndAddBytes (state : AsconState) (mem : Mem) (input output offset size : Nat) : Mem :=
  byteRange
    (fun mem posn offset =>
      asconDecryptSlicedNoInsert state mem (output + posn) (input + posn) (offset / 8))
    (fun mem posn offset size =>
      writeSums (asconSqueezeWord64 state (offset / 8)) mem (input + posn) (output + posn) 56 size)
    (fun mem offset size =>
      writeSums (asconSqueezeWord64 state (offset / 8)) mem input output ((7 - offset % 8) * 8) size)
    mem offset size

/-- `ascon_extract_and_overwrite_bytes`. -/
def asconExtractAndOverwriteBytes (state : AsconState) (mem : Mem) (input output offset size : Nat) :
    AsconState × Mem :=
  byteRange
    (fun (state, mem) posn offset =>
      asconDecryptSliced state mem (output + posn) (input + posn) (offset / 8))
    (fun (state, mem) posn offset size =>
      let (value, mem) := swapBytes (asconSqueezeWord64 state (offset / 8)) mem (input + posn)
        (output + posn) 56 size
      (asconSetWord64 state value (offset / 8), mem))
    (fun (state, mem) offset size =>
      let (value, mem) := swapBytes (asconSqueezeWord64 state (offset / 8)) mem input output
        ((7 - offset % 8) * 8) size
      (asconSetWord64 state value (offset / 8), mem))
    (state, mem) offset size

/-! ### Macros of `ascon-util-snp.h` -/

/-- `ascon_separator`. -/
def asconSeparator (state : AsconState) : AsconState :=
  state.modify 4 fun w => { w with even := w.even ^^^ 0x01#32 }

/-- `ascon_pad`. -/
def asconPad (state : AsconState) (offset : Nat) : AsconState :=
  state.modify (offset / 8) fun w =>
    { w with odd := w.odd ^^^ (0x80000000#32 >>> (offset % 8 * 4)) }

/-- `ascon_absorb_8`. -/
def asconAbsorb8 (state : AsconState) (data : Mem) (offset : Nat) : AsconState :=
  asconAbsorbSliced state data (offset / 8)

/-- `ascon_absorb_16`. -/
def asconAbsorb16 (state : AsconState) (data : Mem) (offset : Nat) : AsconState :=
  asconAbsorbSliced (asconAbsorbSliced state data (offset / 8)) (data.view 8) (offset / 8 + 1)

/-- `ascon_absorb_partial`. -/
def asconAbsorbPartial (state : AsconState) (data : Mem) (offset count : Nat) : AsconState :=
  asconAddBytes state data offset count

/-- `ascon_squeeze_8`. -/
def asconSqueeze8 (state : AsconState) (mem : Mem) (data offset : Nat) : Mem :=
  asconSqueezeSliced state mem data (offset / 8)

/-- `ascon_squeeze_16`. -/
def asconSqueeze16 (state : AsconState) (mem : Mem) (data offset : Nat) : Mem :=
  asconSqueezeSliced state (asconSqueezeSliced state mem data (offset / 8)) (data + 8)
    (offset / 8 + 1)

/-- `ascon_squeeze_partial`. -/
def asconSqueezePartial (state : AsconState) (mem : Mem) (data offset count : Nat) : Mem :=
  asconExtractBytes state mem data offset count

/-- `ascon_encrypt_8`. -/
def asconEncrypt8 (state : AsconState) (mem : Mem) (dest src offset : Nat) : AsconState × Mem :=
  asconEncryptSliced state mem dest src (offset / 8)

/-- `ascon_encrypt_16`. -/
def asconEncrypt16 (state : AsconState) (mem : Mem) (dest src offset : Nat) : AsconState × Mem :=
  let (state, mem) := asconEncryptSliced state mem dest src (offset / 8)
  asconEncryptSliced state mem (dest + 8) (src + 8) (offset / 8 + 1)

/-- `ascon_encrypt_partial`. -/
def asconEncryptPartial (state : AsconState) (mem : Mem) (dest src offset count : Nat) :
    AsconState × Mem :=
  let state := asconAddBytes state (mem.view src) offset count
  (state, asconExtractBytes state mem dest offset count)

/-- `ascon_decrypt_8`. -/
def asconDecrypt8 (state : AsconState) (mem : Mem) (dest src offset : Nat) : AsconState × Mem :=
  asconDecryptSliced state mem dest src (offset / 8)

/-- `ascon_decrypt_16`. -/
def asconDecrypt16 (state : AsconState) (mem : Mem) (dest src offset : Nat) : AsconState × Mem :=
  let (state, mem) := asconDecryptSliced state mem dest src (offset / 8)
  asconDecryptSliced state mem (dest + 8) (src + 8) (offset / 8 + 1)

/-- `ascon_decrypt_partial`. -/
def asconDecryptPartial (state : AsconState) (mem : Mem) (dest src offset count : Nat) :
    AsconState × Mem :=
  asconExtractAndOverwriteBytes state mem src dest offset count

end AsconSuite.Sliced32
