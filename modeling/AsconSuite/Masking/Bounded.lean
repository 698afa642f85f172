/-
Module: AsconSuite.Masking.Bounded
Layer: Model
Purpose: The functions of `masking/ascon-masked-word-*.c`, `ascon-masked-state.c` and `ascon-masked-key.c` on words
  that are arrays of `ASCON_MASKED_MAX_SHARES` shares, where an access beyond the array is seen.
Imports: AsconSuite.Masking.Backends, AsconSuite.Masking.PermuteC32, AsconSuite.Masking.State
Trusted boundary: the outputs of the random number generator; a little-endian host
Main exports: Bounded.Memory, Bounded.Shared, Bounded.WordCode, Bounded.c64Code, Bounded.c32Code, Bounded.directCode,
  Bounded.Operation, Bounded.Backend, Bounded.Compiled
-/
import AsconSuite.Masking.Backends
import AsconSuite.Masking.PermuteC32
import AsconSuite.Masking.State

namespace AsconSuite.Bounded

open ByteWord ByteMemory RotatedSharing
open Sliced32 (SlicedWord)

/-! ### Words in memory -/

/-- The masked words in memory, each an array of cells, and the random number generator. -/
structure Memory (β : Type) where
  cell : (word index : Nat) → β
  trng : Trng

/-- Code on masked words. An access beyond the array of a word ends it with the index of the share. -/
abbrev Shared (β : Type) := StateT (Memory β) (Except Nat)

variable {β : Type}

/-- A read of a cell of a share. -/
def readCell (max share word index : Nat) : Shared β β := do
  if share < max then return (← get).cell word index else throw share

/-- A write to a cell of a share. -/
def writeCell (max share word index : Nat) (x : β) : Shared β Unit := do
  if share < max then
    modify fun s => { s with cell := fun w i => if w = word ∧ i = index then x else s.cell w i }
  else throw share

/-- What takes outputs of the random number generator. -/
def draw {α : Type} (f : Trng → α × Trng) : Shared β α := do
  let s ← get
  set { s with trng := (f s.trng).2 }
  return (f s.trng).1

/-- `memset` and `ascon_clean` of some words, whatever the size of their arrays. -/
def fillWords (first count : Nat) (zero : β) : Shared β Unit :=
  modify fun s => { s with cell := fun w i => if first ≤ w ∧ w < first + count then zero else s.cell w i }

/-- The masked word functions of a backend on words in memory. The number of shares comes first, and `convert n m` is
`ascon_masked_word_x<n>_from_x<m>`. -/
structure WordCode (β : Type) where
  zero : (n word : Nat) → Shared β Unit
  load : (n word : Nat) → (data : Mem) → Shared β Unit
  loadPartial : (n word : Nat) → (data : Mem) → (size : Nat) → Shared β Unit
  load32 : (n word : Nat) → (data1 data2 : Mem) → Shared β Unit
  store : (n : Nat) → (mem : Mem) → (data word : Nat) → Shared β Mem
  storePartial : (n : Nat) → (mem : Mem) → (data size word : Nat) → Shared β Mem
  randomize : (n dest src : Nat) → Shared β Unit
  xor : (n dest src : Nat) → Shared β Unit
  replace : (n dest src size : Nat) → Shared β Unit
  convert : (n m dest src : Nat) → Shared β Unit
  pad : (word offset : Nat) → Shared β Unit
  separator : (word : Nat) → Shared β Unit

/-! ### The 64-bit and 32-bit backends -/

section Shares

variable {σ : Type} (max : Nat) (zero : σ)

/-- A read of `S[i]`, or of `W[2 * i]` and `W[2 * i + 1]`. -/
def readShare (word i : Nat) : Shared σ σ := readCell max i word i

/-- A write to `S[i]`, or to `W[2 * i]` and `W[2 * i + 1]`. -/
def writeShare (word i : Nat) (x : σ) : Shared σ Unit := writeCell max i word i x

/-- The first shares of a word. -/
def readShares (word : Nat) : (n : Nat) → Shared σ (Nat → σ)
  | 0 => return fun _ => zero
  | n + 1 => do
      let shares ← readShares word n
      let x ← readShare max word n
      return fun i => if i = n then x else shares i

/-- Writes to the first shares of a word. -/
def writeShares (word n : Nat) (value : Nat → σ) : Shared σ Unit :=
  (List.range n).forM fun i => writeShare max word i (value i)

/-- A share that is not one of the first `n`, set to zero under `#if ASCON_MASKED_MAX_SHARES >= i + 1`. -/
def clearShare (word n i : Nat) : Shared σ Unit :=
  if i + 1 ≤ max ∧ n ≤ i then writeShare max word i zero else return ()

/-- The shares behind the first `n`. -/
def clearShares (word n : Nat) : Shared σ Unit := do
  clearShare max zero word n 2
  clearShare max zero word n 3

/-- New values for the first shares, and zero for the others. -/
def fillShares (n word : Nat) (value : Trng → (Nat → σ) × Trng) : Shared σ Unit := do
  let shares ← draw value
  writeShares max word n shares
  clearShares max zero word n

/-- The functions for words of whole shares, where `words` says which values they compute. What they read of the word
that they fill, they have written before. -/
def sharesCode (words : MaskedWords (Nat → σ)) : WordCode σ where
  zero n word := fillShares max zero n word (words.zero n)
  load n word data := fillShares max zero n word (words.load n data)
  loadPartial n word data size := fillShares max zero n word (words.loadPartial n data size)
  load32 n word data1 data2 := fillShares max zero n word (words.load32 n data1 data2)
  store n mem data word := do
    let shares ← readShares max zero word n
    return words.store n mem data shares
  storePartial n mem data size word := do
    let shares ← readShares max zero word n
    return words.storePartial n mem data size shares
  randomize n dest src := do
    let shares ← readShares max zero src n
    let shares ← draw (words.randomize n shares)
    writeShares max dest n shares
  xor n dest src := do
    let shares ← readShares max zero dest n
    let added ← readShares max zero src n
    writeShares max dest n (words.xor n shares added)
  replace n dest src size := do
    let shares ← readShares max zero dest n
    let added ← readShares max zero src n
    writeShares max dest n (words.replace n shares added size)
  convert n m dest src := do
    let shares ← readShares max zero src m
    let shares ← draw (words.convert n m shares)
    writeShares max dest (if n < m then m else n) shares
    clearShares max zero dest (if n < m then m else n)
  pad word offset := do
    let shares ← readShares max zero word 1
    writeShares max word 1 (words.pad shares offset)
  separator word := do
    let shares ← readShares max zero word 1
    writeShares max word 1 (words.separator shares)

/-- `ascon_x<n>_permute`, where `permute` is what it computes. -/
def permuteWords {τ : Type} (n state : Nat) (permute : Five (Nat → σ) → Five (Nat → σ) × τ) : Shared σ τ := do
  let w0 ← readShares max zero state n
  let w1 ← readShares max zero (state + 1) n
  let w2 ← readShares max zero (state + 2) n
  let w3 ← readShares max zero (state + 3) n
  let w4 ← readShares max zero (state + 4) n
  let done := permute ⟨w0, w1, w2, w3, w4⟩
  (List.range 5).forM fun index => writeShares max (state + index) n (done.1.get index)
  return done.2

end Shares

/-- `ascon_masked_word_x<n>_zero` of the 64-bit backend: for three shares, `S[3]` is set to zero without a test too. -/
def c64Zero (max : Nat) : (n word : Nat) → Shared Word Unit
  | 3, word => do
      let shares ← draw (maskedWords64.zero 3)
      writeShares max word 3 shares
      writeShare max word 3 0
      clearShares max 0 word 3
  | n, word => fillShares max 0 n word (maskedWords64.zero n)

/-- `masking/ascon-masked-word-c64.c`. -/
def c64Code (max : Nat) : WordCode Word := { sharesCode max 0 maskedWords64 with zero := c64Zero max }

/-- `masking/ascon-masked-word-c32.c`. -/
def c32Code (max : Nat) : WordCode SlicedWord := sharesCode max ⟨0#32, 0#32⟩ maskedWords32

/-- The two 32-bit halves of a 64-bit word in memory, and back. -/
def splitWord (x : Word) : SlicedWord := ⟨x.setWidth 32, (x >>> 32).setWidth 32⟩

def joinWord (x : SlicedWord) : Word := x.odd ++ x.even

/-- `masking/ascon-x<n>-c64.c`. -/
def c64Permute (max n state firstRound : Nat) (preserve : Nat → Word) : Shared Word (Nat → Word) :=
  permuteWords max 0 n state fun x => permuteShares n x firstRound preserve

/-- `masking/ascon-x<n>-c32.c`. -/
def c32Permute (max n state firstRound : Nat) (preserve : Nat → Word) : Shared SlicedWord (Nat → Word) :=
  permuteWords max ⟨0#32, 0#32⟩ n state fun x =>
    let done := MaskedC32.permuteShares n x firstRound fun i => splitWord (preserve i)
    (done.1, fun i => joinWord (done.2 i))

/-! ### The direct backend -/

section Direct

variable (max : Nat)

/-- A read of `B[index]`. -/
def readByte (word index : Nat) : Shared Byte Byte := readCell max (index / 8) word index

/-- A write to `B[index]`. -/
def writeByte (word index : Nat) (x : Byte) : Shared Byte Unit := writeCell max (index / 8) word index x

/-- A write to `S[i]`. -/
def setShare (word i : Nat) (x : Word) : Shared Byte Unit :=
  (List.range 8).forM fun index => writeByte max word (index + 8 * i) (MaskedDirect.randomByte x index)

/-- A share that is not one of the first `n`, set to zero under `#if ASCON_MASKED_MAX_SHARES >= i + 1`. -/
def clearByteShare (word n i : Nat) : Shared Byte Unit :=
  if i + 1 ≤ max ∧ n ≤ i then setShare max word i 0 else return ()

/-- The shares behind the first `n`. -/
def clearBytes (word n : Nat) : Shared Byte Unit := do
  clearByteShare max word n 2
  clearByteShare max word n 3

/-- `ascon_trng_generate_64`. -/
def generate64 : Shared Byte Word := draw fun trng => (trng 0, trng.skip 1)

/-- Random words for the shares 1 to `n - 1`. -/
def drawShares (word n : Nat) : Shared Byte Unit :=
  (List.range (n - 1)).forM fun k => do
    let random ← generate64
    setShare max word (k + 1) random

/-- The sum of the bytes `index` of the shares from one on. -/
def sumShares (word index : Nat) : (first count : Nat) → Shared Byte Byte
  | _, 0 => return 0
  | first, count + 1 => do
      let x ← readByte max word (index + 8 * first)
      let sum ← sumShares word index (first + 1) count
      return x ^^^ sum

/-- The loop that gives the bytes of the first share from an index on: data, added to the bytes of the other shares. -/
def maskBytes (n word : Nat) (data : Nat → Byte) (first count : Nat) : Shared Byte Unit :=
  (List.range' first count).forM fun index => do
    let sum ← sumShares max word index 1 (n - 1)
    writeByte max word index (data index ^^^ sum)

/-- `ascon_masked_word_x<n>_zero`. For two shares it is the second one that is copied. -/
def directZero : (n word : Nat) → Shared Byte Unit
  | 2, word => do
      let random ← generate64
      setShare max word 0 random
      (List.range 8).forM fun index => do
        let x ← readByte max word index
        writeByte max word (index + 8) x
      clearBytes max word 2
  | n, word => do
      drawShares max word n
      maskBytes max n word (fun _ => 0) 0 8
      clearBytes max word n

/-- `ascon_masked_word_x<n>_load`. -/
def directLoad (n word : Nat) (data : Mem) : Shared Byte Unit := do
  drawShares max word n
  maskBytes max n word data 0 8
  clearBytes max word n

/-- `ascon_masked_word_x<n>_load_partial`. -/
def directLoadPartial (n word : Nat) (data : Mem) (size : Nat) : Shared Byte Unit := do
  drawShares max word n
  maskBytes max n word data 0 size
  maskBytes max n word (fun _ => 0) size (8 - size)
  clearBytes max word n

/-- `ascon_masked_word_x<n>_load_32`. -/
def directLoad32 (n word : Nat) (data1 data2 : Mem) : Shared Byte Unit := do
  drawShares max word n
  (List.range 4).forM fun index => do
    let sum ← sumShares max word index 1 (n - 1)
    writeByte max word index (data1 index ^^^ sum)
    let sum ← sumShares max word (index + 4) 1 (n - 1)
    writeByte max word (index + 4) (data2 index ^^^ sum)
  clearBytes max word n

/-- `ascon_masked_word_x<n>_store_partial`. -/
def directStorePartial (n : Nat) (mem : Mem) (data : Nat) : (size word : Nat) → Shared Byte Mem
  | 0, _ => return mem
  | size + 1, word => do
      let mem ← directStorePartial n mem data size word
      let sum ← sumShares max word size 0 n
      return mem.store (data + size) sum

/-- `ascon_masked_word_x<n>_randomize`. -/
def directRandomize (n dest src : Nat) : Shared Byte Unit := do
  let random ← draw fun trng => (trng, trng.skip (n - 1))
  (List.range 8).forM fun index => do
    let x ← readByte max src index
    writeByte max dest index (x ^^^ xorRange (n - 1) fun k => MaskedDirect.randomByte (random k) index)
    (List.range (n - 1)).forM fun k => do
      let x ← readByte max src (index + 8 * (k + 1))
      writeByte max dest (index + 8 * (k + 1)) (x ^^^ MaskedDirect.randomByte (random k) index)

/-- `ascon_masked_word_x<n>_xor`. -/
def directXor (n dest src : Nat) : Shared Byte Unit :=
  (List.range 8).forM fun index => (List.range n).forM fun k => do
    let x ← readByte max dest (index + 8 * k)
    let y ← readByte max src (index + 8 * k)
    writeByte max dest (index + 8 * k) (x ^^^ y)

/-- `ascon_masked_word_x<n>_replace`. -/
def directReplace (n dest src size : Nat) : Shared Byte Unit :=
  (List.range size).forM fun index => (List.range n).forM fun k => do
    let x ← readByte max src (index + 8 * k)
    writeByte max dest (index + 8 * k) x

/-- `ascon_masked_word_x2_from_x3`. -/
def directX2FromX3 (dest src : Nat) : Shared Byte Unit := do
  let random ← generate64
  (List.range 8).forM fun index => do
    let x ← readByte max src index
    writeByte max dest index (MaskedDirect.randomByte random index ^^^ x)
    let y ← readByte max src (index + 8)
    let z ← readByte max src (index + 16)
    writeByte max dest (index + 8) ((MaskedDirect.randomByte random index ^^^ y) ^^^ z)
  setShare max dest 2 0
  clearBytes max dest 3

/-- `ascon_masked_word_x2_from_x4`. -/
def directX2FromX4 (dest src : Nat) : Shared Byte Unit := do
  let random ← generate64
  (List.range 8).forM fun index => do
    let x ← readByte max src index
    let y ← readByte max src (index + 16)
    writeByte max dest index ((MaskedDirect.randomByte random index ^^^ x) ^^^ y)
    let x ← readByte max src (index + 8)
    let y ← readByte max src (index + 24)
    writeByte max dest (index + 8) ((MaskedDirect.randomByte random index ^^^ x) ^^^ y)
  setShare max dest 2 0
  setShare max dest 3 0

/-- `ascon_masked_word_x3_from_x4`. -/
def directX3FromX4 (dest src : Nat) : Shared Byte Unit := do
  let random1 ← generate64
  let random2 ← generate64
  (List.range 8).forM fun index => do
    let x ← readByte max src index
    let y ← readByte max src (index + 24)
    writeByte max dest index
      (((MaskedDirect.randomByte random1 index ^^^ x) ^^^ MaskedDirect.randomByte random2 index) ^^^ y)
    let x ← readByte max src (index + 8)
    writeByte max dest (index + 8) (MaskedDirect.randomByte random1 index ^^^ x)
    let x ← readByte max src (index + 16)
    writeByte max dest (index + 16) (MaskedDirect.randomByte random2 index ^^^ x)
  setShare max dest 3 0

/-- `ascon_masked_word_x<n>_from_x<m>` for `m < n`. -/
def directWiden (n m dest src : Nat) : Shared Byte Unit := do
  let random ← draw fun trng => (trng, trng.skip (n - 1))
  (List.range 8).forM fun index => do
    let x ← readByte max src index
    writeByte max dest index (x ^^^ xorRange (n - 1) fun k => MaskedDirect.randomByte (random k) index)
    (List.range (m - 1)).forM fun k => do
      let x ← readByte max src (index + 8 * (k + 1))
      writeByte max dest (index + 8 * (k + 1)) (MaskedDirect.randomByte (random k) index ^^^ x)
    (List.range' m (n - m)).forM fun k =>
      writeByte max dest (index + 8 * k) (MaskedDirect.randomByte (random (k - 1)) index)
  clearBytes max dest n

/-- `ascon_masked_word_x<n>_from_x<m>`. -/
def directConvert : (n m dest src : Nat) → Shared Byte Unit
  | 2, 3 => directX2FromX3 max
  | 2, 4 => directX2FromX4 max
  | 3, 4 => directX3FromX4 max
  | n, m => directWiden max n m

/-- `word->B[index] ^= x`, of which `ascon_masked_word_pad` and `ascon_masked_word_separator` consist. -/
def xorByte (word index : Nat) (x : Byte) : Shared Byte Unit := do
  let y ← readByte max word index
  writeByte max word index (y ^^^ x)

/-- `masking/ascon-masked-word-direct.c`. -/
def directCode : WordCode Byte where
  zero := directZero max
  load := directLoad max
  loadPartial := directLoadPartial max
  load32 := directLoad32 max
  store n mem data word := directStorePartial max n mem data 8 word
  storePartial := directStorePartial max
  randomize := directRandomize max
  xor := directXor max
  replace := directReplace max
  convert := directConvert max
  pad word offset := xorByte max word offset 0x80#8
  separator word := xorByte max word 7 1#8

end Direct

/-! ### States -/

section Words

variable (code : WordCode β) (max keyShares : Nat) (zero : β)

/-- `ascon_x<n>_randomize` and `ascon_x<n>_copy_from_x<n>`. -/
def stateRandomize (n dest src : Nat) : Shared β Unit :=
  (List.range 5).forM fun index => code.randomize n (dest + index) (src + index)

/-- `ascon_x<n>_copy_from_x1`, of the bytes of the plain state. -/
def stateCopyFromX1 (n dest : Nat) (src : Mem) : Shared β Unit :=
  (List.range 5).forM fun index => code.load n (dest + index) (src.view (index * 8))

/-- The loop of `ascon_x<n>_copy_to_x1`, to the bytes of the plain state. -/
def copyToX1Loop (n src : Nat) (dest : Mem) : (index count : Nat) → Shared β Mem
  | _, 0 => return dest
  | index, count + 1 => do
      let dest ← code.store n dest (index * 8) (src + index)
      copyToX1Loop n src dest (index + 1) count

/-- `ascon_x<n>_copy_to_x1`. -/
def stateCopyToX1 (n src : Nat) : Shared β Mem := copyToX1Loop code n src (fun _ => 0) 0 5

/-- `ascon_x<n>_copy_from_x<m>`. -/
def stateCopyFrom (n m dest src : Nat) : Shared β Unit :=
  if n = m then stateRandomize code n dest src
  else (List.range 5).forM fun index => code.convert n m (dest + index) (src + index)

/-! ### Keys -/

/-- `memset` of the words of a key under `#if ASCON_MASKED_MAX_SHARES < 4`. -/
def clearKey (masked count : Nat) : Shared β Unit := if max < 4 then fillWords masked count zero else return ()

/-- `ascon_masked_key_128_init`. -/
def key128Init (masked : Nat) (key : Mem) : Shared β Unit := do
  clearKey max zero masked 2
  code.load keyShares masked key
  code.load keyShares (masked + 1) (key.view 8)

/-- `ascon_masked_key_160_init`. -/
def key160Init (masked : Nat) (key : Mem) : Shared β Unit := do
  let zeroes : Mem := fun _ => 0
  clearKey max zero masked 6
  code.load keyShares masked key
  code.load keyShares (masked + 1) (key.view 8)
  code.load32 keyShares (masked + 2) (key.view 16) zeroes
  code.load32 keyShares (masked + 3) zeroes key
  code.load keyShares (masked + 4) (key.view 4)
  code.load keyShares (masked + 5) (key.view 12)

/-- `ascon_masked_key_128_randomize_with_trng`. -/
def key128Randomize (masked : Nat) : Shared β Unit := do
  code.randomize keyShares masked masked
  code.randomize keyShares (masked + 1) (masked + 1)

/-- `ascon_masked_key_160_randomize_with_trng`, whose branches for 2, 3 and 4 shares all call
`ascon_masked_word_x2_randomize`. -/
def key160Randomize (masked : Nat) : Shared β Unit :=
  (List.range 6).forM fun index => code.randomize 2 (masked + index) (masked + index)

/-- `ascon_masked_key_128_extract`. -/
def key128Extract (masked : Nat) (mem : Mem) (key : Nat) : Shared β Mem := do
  let mem ← code.store keyShares mem key masked
  code.store keyShares mem (key + 8) (masked + 1)

/-- `ascon_masked_key_160_extract`. -/
def key160Extract (masked : Nat) (mem : Mem) (key : Nat) : Shared β Mem := do
  let mem ← code.store keyShares mem key masked
  let mem ← code.store keyShares mem (key + 8) (masked + 1)
  code.storePartial keyShares mem (key + 16) 4 (masked + 2)

end Words

/-! ### All operations -/

/-- A call of a function on masked words, states or keys, with its arguments. Words, states and keys are given by the
number of their first word. -/
inductive Operation where
  | zero (n word : Nat)
  | load (n word : Nat) (data : Mem)
  | loadPartial (n word : Nat) (data : Mem) (size : Nat)
  | load32 (n word : Nat) (data1 data2 : Mem)
  | store (n : Nat) (mem : Mem) (data word : Nat)
  | storePartial (n : Nat) (mem : Mem) (data size word : Nat)
  | randomize (n dest src : Nat)
  | xor (n dest src : Nat)
  | replace (n dest src size : Nat)
  | convert (n m dest src : Nat)
  | pad (word offset : Nat)
  | separator (word : Nat)
  | stateInit (state : Nat)
  | stateFree (state : Nat)
  | stateRandomize (n state : Nat)
  | stateCopyFromX1 (n dest : Nat) (src : Mem)
  | stateCopyToX1 (n src : Nat)
  | stateCopyFrom (n m dest src : Nat)
  | statePermute (n state firstRound : Nat) (preserve : Nat → Word)
  | key128Init (masked : Nat) (key : Mem)
  | key160Init (masked : Nat) (key : Mem)
  | key128Free (masked : Nat)
  | key160Free (masked : Nat)
  | key128Randomize (masked : Nat)
  | key160Randomize (masked : Nat)
  | key128Extract (masked : Nat) (mem : Mem) (key : Nat)
  | key160Extract (masked : Nat) (mem : Mem) (key : Nat)

/-- The code of a call. -/
def Operation.code (code : WordCode β) (permute : (n state firstRound : Nat) → (Nat → Word) → Shared β (Nat → Word))
    (max keyShares : Nat) (zero : β) : Operation → Shared β Unit
  | .zero n word => code.zero n word
  | .load n word data => code.load n word data
  | .loadPartial n word data size => code.loadPartial n word data size
  | .load32 n word data1 data2 => code.load32 n word data1 data2
  | .store n mem data word => do let _ ← code.store n mem data word
  | .storePartial n mem data size word => do let _ ← code.storePartial n mem data size word
  | .randomize n dest src => code.randomize n dest src
  | .xor n dest src => code.xor n dest src
  | .replace n dest src size => code.replace n dest src size
  | .convert n m dest src => code.convert n m dest src
  | .pad word offset => code.pad word offset
  | .separator word => code.separator word
  | .stateInit state => fillWords state 5 zero
  | .stateFree state => fillWords state 5 zero
  | .stateRandomize n state => Bounded.stateRandomize code n state state
  | .stateCopyFromX1 n dest src => Bounded.stateCopyFromX1 code n dest src
  | .stateCopyToX1 n src => do let _ ← Bounded.stateCopyToX1 code n src
  | .stateCopyFrom n m dest src => Bounded.stateCopyFrom code n m dest src
  | .statePermute n state firstRound preserve => do let _ ← permute n state firstRound preserve
  | .key128Init masked key => Bounded.key128Init code max keyShares zero masked key
  | .key160Init masked key => Bounded.key160Init code max keyShares zero masked key
  | .key128Free masked => fillWords masked 2 zero
  | .key160Free masked => fillWords masked 6 zero
  | .key128Randomize masked => Bounded.key128Randomize code keyShares masked
  | .key160Randomize masked => Bounded.key160Randomize code masked
  | .key128Extract masked mem key => do let _ ← Bounded.key128Extract code keyShares masked mem key
  | .key160Extract masked mem key => do let _ ← Bounded.key160Extract code keyShares masked mem key

/-- The masked backends in C. -/
inductive Backend where
  | c64
  | c32
  | direct
  deriving DecidableEq, Repr

/-- The code of a call of a backend. The direct one has no permutation in C. -/
def Backend.code (backend : Backend) (max keyShares : Nat) (op : Operation) :
    Σ β : Type, Shared β Unit :=
  match backend with
  | .c64 => ⟨Word, op.code (c64Code max) (c64Permute max) max keyShares 0⟩
  | .c32 => ⟨SlicedWord, op.code (c32Code max) (c32Permute max) max keyShares ⟨0#32, 0#32⟩⟩
  | .direct => ⟨Byte, op.code (directCode max) (fun _ _ _ preserve => return preserve) max keyShares 0⟩

/-- A number of shares that is compiled for a maximum. -/
structure Shares (max n : Nat) : Prop where
  lower : 2 ≤ n
  upper : n ≤ 4
  fits : n ≤ max

/-- The calls that are compiled for a backend and a maximum. -/
def Compiled (backend : Backend) (max : Nat) : Operation → Prop
  | .zero n _ | .load n _ _ | .loadPartial n _ _ _ | .load32 n _ _ _ | .store n _ _ _ | .storePartial n _ _ _ _
  | .randomize n _ _ | .xor n _ _ | .replace n _ _ _ => Shares max n
  | .convert n m _ _ => Shares max n ∧ Shares max m ∧ n ≠ m
  | .stateRandomize n _ | .stateCopyFromX1 n _ _ | .stateCopyToX1 n _ => Shares max n
  | .stateCopyFrom n m _ _ => Shares max n ∧ Shares max m
  | .statePermute n _ _ _ => Shares max n ∧ backend ≠ .direct
  | .pad _ _ | .separator _ | .stateInit _ | .stateFree _ | .key128Init _ _ | .key160Init _ _ | .key128Free _
  | .key160Free _ | .key128Randomize _ | .key160Randomize _ | .key128Extract _ _ _ | .key160Extract _ _ _ => True

/-- `ASCON_MASKED_KEY_SHARES`, clamped to `ASCON_MASKED_MAX_SHARES`. -/
def clampShares (max keyShares : Nat) : Nat := if max < keyShares then max else keyShares

end AsconSuite.Bounded
