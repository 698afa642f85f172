/-
Module: AsconSuite.Core.State
Layer: Model
Purpose: The permutation state of the 64-bit sliced backend: the byte access functions of
  `core/ascon-sliced64.c` and the absorb, squeeze, encrypt and decrypt macros of `core/ascon-util-snp.h`.
Imports: AsconSuite.Core.Util
Trusted boundary: the byte order of the host; `byteForOffset` is what `ASCON_C64_BYTE_FOR_OFFSET` reads on
  both of them
Main exports: Five, AsconState, asconAddBytes, asconOverwriteBytes, asconExtractBytes,
  asconExtractAndOverwriteBytes, asconEncrypt16, asconDecrypt16, asconEncryptPartial, asconDecryptPartial
-/
import AsconSuite.Core.Util

namespace AsconSuite

open ByteWord ByteMemory

/-- An array of five values. -/
structure Five (α : Type*) where
  w0 : α
  w1 : α
  w2 : α
  w3 : α
  w4 : α
deriving DecidableEq

namespace Five

variable {α : Type*}

/-- Element `i`. -/
def get (s : Five α) : Nat → α
  | 0 => s.w0
  | 1 => s.w1
  | 2 => s.w2
  | 3 => s.w3
  | _ => s.w4

/-- Assign element `i`. -/
def set (s : Five α) (i : Nat) (a : α) : Five α :=
  match i with
  | 0 => { s with w0 := a }
  | 1 => { s with w1 := a }
  | 2 => { s with w2 := a }
  | 3 => { s with w3 := a }
  | _ => { s with w4 := a }

/-- Update element `i`. -/
def modify (s : Five α) (i : Nat) (f : α → α) : Five α := s.set i (f (s.get i))

theorem ext_get {s t : Five α} (same : ∀ i < 5, s.get i = t.get i) : s = t := by
  cases s
  cases t
  simpa [get] using And.intro (same 0 (by omega)) (And.intro (same 1 (by omega))
    (And.intro (same 2 (by omega)) (And.intro (same 3 (by omega)) (same 4 (by omega)))))

theorem get_set (s : Five α) (a : α) {i j : Nat} (hi : i < 5) (hj : j < 5) :
    (s.set i a).get j = if j = i then a else s.get j := by
  interval_cases i <;> interval_cases j <;> rfl

theorem get_modify (s : Five α) (f : α → α) {i j : Nat} (hi : i < 5) (hj : j < 5) :
    (s.modify i f).get j = if j = i then f (s.get i) else s.get j :=
  get_set s _ hi hj

end Five

/-- `ascon_state_t`, seen as its words `S`. -/
abbrev AsconState := Five Word

/-- Read through `ASCON_C64_BYTE_FOR_OFFSET`. -/
def byteForOffset (state : AsconState) (offset : Nat) : Byte :=
  byteOf (state.get (offset / 8)) (offset % 8)

/-- Assign through `ASCON_C64_BYTE_FOR_OFFSET`. -/
def setByteForOffset (state : AsconState) (offset : Nat) (b : Byte) : AsconState :=
  state.modify (offset / 8) fun w => setByteOf w (offset % 8) b

/-- `ascon_init`. -/
def asconInit : AsconState := ⟨0, 0, 0, 0, 0⟩

/-- `ascon_add_bytes`. -/
def asconAddBytes (state : AsconState) (data : Mem) (offset : Nat) : (size : Nat) → AsconState
  | 0 => state
  | size + 1 =>
      if offset < 40 then
        asconAddBytes (setByteForOffset state offset (byteForOffset state offset ^^^ data 0))
          (data.view 1) (offset + 1) size
      else state

/-- `ascon_overwrite_bytes`. -/
def asconOverwriteBytes (state : AsconState) (data : Mem) (offset : Nat) :
    (size : Nat) → AsconState
  | 0 => state
  | size + 1 =>
      if offset < 40 then
        asconOverwriteBytes (setByteForOffset state offset (data 0)) (data.view 1) (offset + 1) size
      else state

/-- `ascon_overwrite_with_zeroes`. -/
def asconOverwriteWithZeroes (state : AsconState) (offset : Nat) : (size : Nat) → AsconState
  | 0 => state
  | size + 1 =>
      if offset < 40 then
        asconOverwriteWithZeroes (setByteForOffset state offset 0) (offset + 1) size
      else state

/-- `ascon_extract_bytes`. -/
def asconExtractBytes (state : AsconState) (mem : Mem) (data offset : Nat) : (size : Nat) → Mem
  | 0 => mem
  | size + 1 =>
      if offset < 40 then
        asconExtractBytes state (mem.store data (byteForOffset state offset)) (data + 1) (offset + 1)
          size
      else mem

/-- `ascon_extract_and_add_bytes`. -/
def asconExtractAndAddBytes (state : AsconState) (mem : Mem) (input output offset : Nat) :
    (size : Nat) → Mem
  | 0 => mem
  | size + 1 =>
      if offset < 40 then
        asconExtractAndAddBytes state
          (mem.store output (mem input ^^^ byteForOffset state offset)) (input + 1) (output + 1)
          (offset + 1) size
      else mem

/-- `ascon_extract_and_overwrite_bytes`. -/
def asconExtractAndOverwriteBytes (state : AsconState) (mem : Mem) (input output offset : Nat) :
    (size : Nat) → AsconState × Mem
  | 0 => (state, mem)
  | size + 1 =>
      if offset < 40 then
        let inByte := mem input
        asconExtractAndOverwriteBytes (setByteForOffset state offset inByte)
          (mem.store output (inByte ^^^ byteForOffset state offset)) (input + 1) (output + 1)
          (offset + 1) size
      else (state, mem)

/-! ### Macros of `ascon-util-snp.h` -/

/-- `ascon_separator`. -/
def asconSeparator (state : AsconState) : AsconState :=
  state.modify 4 (· ^^^ 0x01)

/-- `ascon_pad`. -/
def asconPad (state : AsconState) (offset : Nat) : AsconState :=
  state.modify (offset / 8) (· ^^^ ((0x8000000000000000 : Word) >>> (offset % 8 * 8)))

/-- `ascon_absorb_8`. -/
def asconAbsorb8 (state : AsconState) (data : Mem) (offset : Nat) : AsconState :=
  state.modify (offset / 8) (· ^^^ beLoadWord64 data)

/-- `ascon_absorb_16`. -/
def asconAbsorb16 (state : AsconState) (data : Mem) (offset : Nat) : AsconState :=
  (state.modify (offset / 8) (· ^^^ beLoadWord64 data)).modify (offset / 8 + 1)
    (· ^^^ beLoadWord64 (data.view 8))

/-- `ascon_absorb_partial`. -/
def asconAbsorbPartial (state : AsconState) (data : Mem) (offset count : Nat) : AsconState :=
  asconAddBytes state data offset count

/-- `ascon_squeeze_8`. -/
def asconSqueeze8 (state : AsconState) (mem : Mem) (data offset : Nat) : Mem :=
  beStoreWord64 mem data (state.get (offset / 8))

/-- `ascon_squeeze_16`. -/
def asconSqueeze16 (state : AsconState) (mem : Mem) (data offset : Nat) : Mem :=
  beStoreWord64 (beStoreWord64 mem data (state.get (offset / 8))) (data + 8)
    (state.get (offset / 8 + 1))

/-- `ascon_squeeze_partial`. -/
def asconSqueezePartial (state : AsconState) (mem : Mem) (data offset count : Nat) : Mem :=
  asconExtractBytes state mem data offset count

/-- `ascon_encrypt_8`. -/
def asconEncrypt8 (state : AsconState) (mem : Mem) (dest src offset : Nat) : AsconState × Mem :=
  let state := state.modify (offset / 8) (· ^^^ beLoadWord64 (mem.view src))
  (state, beStoreWord64 mem dest (state.get (offset / 8)))

/-- `ascon_encrypt_16`. -/
def asconEncrypt16 (state : AsconState) (mem : Mem) (dest src offset : Nat) : AsconState × Mem :=
  let state := state.modify (offset / 8) (· ^^^ beLoadWord64 (mem.view src))
  let state := state.modify (offset / 8 + 1) (· ^^^ beLoadWord64 (mem.view (src + 8)))
  let mem := beStoreWord64 mem dest (state.get (offset / 8))
  (state, beStoreWord64 mem (dest + 8) (state.get (offset / 8 + 1)))

/-- `ascon_encrypt_partial`. -/
def asconEncryptPartial (state : AsconState) (mem : Mem) (dest src offset count : Nat) :
    AsconState × Mem :=
  let state := asconAddBytes state (mem.view src) offset count
  (state, asconExtractBytes state mem dest offset count)

/-- `ascon_decrypt_8`. -/
def asconDecrypt8 (state : AsconState) (mem : Mem) (dest src offset : Nat) : AsconState × Mem :=
  let word := beLoadWord64 (mem.view src)
  (state.set (offset / 8) word, beStoreWord64 mem dest (word ^^^ state.get (offset / 8)))

/-- `ascon_decrypt_16`. -/
def asconDecrypt16 (state : AsconState) (mem : Mem) (dest src offset : Nat) : AsconState × Mem :=
  let word := beLoadWord64 (mem.view src)
  let mem := beStoreWord64 mem dest (word ^^^ state.get (offset / 8))
  let state := state.set (offset / 8) word
  let word := beLoadWord64 (mem.view (src + 8))
  (state.set (offset / 8 + 1) word,
    beStoreWord64 mem (dest + 8) (word ^^^ state.get (offset / 8 + 1)))

/-- `ascon_decrypt_partial`. -/
def asconDecryptPartial (state : AsconState) (mem : Mem) (dest src offset count : Nat) :
    AsconState × Mem :=
  asconExtractAndOverwriteBytes state mem src dest offset count

end AsconSuite
