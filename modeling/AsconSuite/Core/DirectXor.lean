/-
Module: AsconSuite.Core.DirectXor
Layer: Model
Purpose: The permutation state of the backend that keeps forty bytes in order: the byte functions of
  `core/ascon-direct-xor.c`, the block macros of `core/ascon-util.h` they are used with, and the macros
  that `core/ascon-util-snp.h` defines for this backend.
Imports: AsconSuite.Base.ByteMemory
Trusted boundary: the block macros write behind the state when a range exceeds forty bytes; the model
  drops such writes
Main exports: DirectXor.AsconState, DirectXor.asconAddBytes, DirectXor.asconOverwriteBytes,
  DirectXor.asconExtractBytes, DirectXor.asconExtractAndOverwriteBytes
-/
import AsconSuite.Base.ByteMemory

namespace AsconSuite.DirectXor

open ByteWord ByteMemory

/-- `ascon_state_t`, seen as its bytes `B`. -/
abbrev AsconState := Vector Byte 40

/-- Read `B[offset]`. -/
def byteAt (state : AsconState) (offset : Nat) : Byte := state[offset]?.getD 0

/-- Assign `B[offset]`. -/
def setByteAt (state : AsconState) (offset : Nat) (b : Byte) : AsconState :=
  state.setIfInBounds offset b

/-- `ascon_add_bytes`. -/
def asconAddBytes (state : AsconState) (data : Mem) (offset : Nat) : (size : Nat) → AsconState
  | 0 => state
  | size + 1 =>
      if offset < 40 then
        asconAddBytes (setByteAt state offset (byteAt state offset ^^^ data 0)) (data.view 1)
          (offset + 1) size
      else state

/-- `ascon_overwrite_bytes`. -/
def asconOverwriteBytes (state : AsconState) (data : Mem) (offset : Nat) :
    (size : Nat) → AsconState
  | 0 => state
  | size + 1 =>
      if offset < 40 then
        asconOverwriteBytes (setByteAt state offset (data 0)) (data.view 1) (offset + 1) size
      else state

/-- `ascon_overwrite_with_zeroes`. -/
def asconOverwriteWithZeroes (state : AsconState) (offset : Nat) : (size : Nat) → AsconState
  | 0 => state
  | size + 1 =>
      if offset < 40 then
        asconOverwriteWithZeroes (setByteAt state offset 0) (offset + 1) size
      else state

/-- `ascon_extract_bytes`. -/
def asconExtractBytes (state : AsconState) (mem : Mem) (data offset : Nat) : (size : Nat) → Mem
  | 0 => mem
  | size + 1 =>
      if offset < 40 then
        asconExtractBytes state (mem.store data (byteAt state offset)) (data + 1) (offset + 1) size
      else mem

/-- `ascon_extract_and_add_bytes`. -/
def asconExtractAndAddBytes (state : AsconState) (mem : Mem) (input output offset : Nat) :
    (size : Nat) → Mem
  | 0 => mem
  | size + 1 =>
      if offset < 40 then
        asconExtractAndAddBytes state (mem.store output (mem input ^^^ byteAt state offset))
          (input + 1) (output + 1) (offset + 1) size
      else mem

/-- `ascon_extract_and_overwrite_bytes`. -/
def asconExtractAndOverwriteBytes (state : AsconState) (mem : Mem) (input output offset : Nat) :
    (size : Nat) → AsconState × Mem
  | 0 => (state, mem)
  | size + 1 =>
      if offset < 40 then
        let inByte := mem input
        asconExtractAndOverwriteBytes (setByteAt state offset inByte)
          (mem.store output (inByte ^^^ byteAt state offset)) (input + 1) (output + 1) (offset + 1)
          size
      else (state, mem)

/-! ### Block macros of `ascon-util.h`, with the state as the block `dest` -/

/-- `lw_xor_block`. -/
def lwXorBlock (state : AsconState) (dest : Nat) (src : Mem) : (len : Nat) → AsconState
  | 0 => state
  | len + 1 =>
      lwXorBlock (setByteAt state dest (byteAt state dest ^^^ src 0)) (dest + 1) (src.view 1) len

/-- `lw_xor_block_2_dest`. -/
def lwXorBlock2Dest (state : AsconState) (mem : Mem) (dest2 dest src : Nat) :
    (len : Nat) → AsconState × Mem
  | 0 => (state, mem)
  | len + 1 =>
      let sum := byteAt state dest ^^^ mem src
      lwXorBlock2Dest (setByteAt state dest sum) (mem.store dest2 sum) (dest2 + 1) (dest + 1)
        (src + 1) len

/-- `lw_xor_block_swap`. -/
def lwXorBlockSwap (state : AsconState) (mem : Mem) (dest2 dest src : Nat) :
    (len : Nat) → AsconState × Mem
  | 0 => (state, mem)
  | len + 1 =>
      let temp := mem src
      lwXorBlockSwap (setByteAt state dest temp) (mem.store dest2 (byteAt state dest ^^^ temp))
        (dest2 + 1) (dest + 1) (src + 1) len

/-- `memcpy` from the state. -/
def memcpyOut (state : AsconState) (mem : Mem) (data offset len : Nat) : Mem :=
  mem.write data (Mem.read (byteAt state) offset len)

/-! ### Macros of `ascon-util-snp.h` -/

/-- `ascon_separator`. -/
def asconSeparator (state : AsconState) : AsconState :=
  setByteAt state 39 (byteAt state 39 ^^^ 0x01)

/-- `ascon_pad`. -/
def asconPad (state : AsconState) (offset : Nat) : AsconState :=
  setByteAt state offset (byteAt state offset ^^^ 0x80)

/-- `ascon_absorb_8`. -/
def asconAbsorb8 (state : AsconState) (data : Mem) (offset : Nat) : AsconState :=
  lwXorBlock state offset data 8

/-- `ascon_absorb_16`. -/
def asconAbsorb16 (state : AsconState) (data : Mem) (offset : Nat) : AsconState :=
  lwXorBlock state offset data 16

/-- `ascon_absorb_partial`. -/
def asconAbsorbPartial (state : AsconState) (data : Mem) (offset count : Nat) : AsconState :=
  lwXorBlock state offset data count

/-- `ascon_squeeze_8`. -/
def asconSqueeze8 (state : AsconState) (mem : Mem) (data offset : Nat) : Mem :=
  memcpyOut state mem data offset 8

/-- `ascon_squeeze_16`. -/
def asconSqueeze16 (state : AsconState) (mem : Mem) (data offset : Nat) : Mem :=
  memcpyOut state mem data offset 16

/-- `ascon_squeeze_partial`. -/
def asconSqueezePartial (state : AsconState) (mem : Mem) (data offset count : Nat) : Mem :=
  memcpyOut state mem data offset count

/-- `ascon_encrypt_8`. -/
def asconEncrypt8 (state : AsconState) (mem : Mem) (dest src offset : Nat) : AsconState × Mem :=
  lwXorBlock2Dest state mem dest offset src 8

/-- `ascon_encrypt_16`. -/
def asconEncrypt16 (state : AsconState) (mem : Mem) (dest src offset : Nat) : AsconState × Mem :=
  lwXorBlock2Dest state mem dest offset src 16

/-- `ascon_encrypt_partial`. -/
def asconEncryptPartial (state : AsconState) (mem : Mem) (dest src offset count : Nat) :
    AsconState × Mem :=
  lwXorBlock2Dest state mem dest offset src count

/-- `ascon_decrypt_8`. -/
def asconDecrypt8 (state : AsconState) (mem : Mem) (dest src offset : Nat) : AsconState × Mem :=
  lwXorBlockSwap state mem dest offset src 8

/-- `ascon_decrypt_16`. -/
def asconDecrypt16 (state : AsconState) (mem : Mem) (dest src offset : Nat) : AsconState × Mem :=
  lwXorBlockSwap state mem dest offset src 16

/-- `ascon_decrypt_partial`. -/
def asconDecryptPartial (state : AsconState) (mem : Mem) (dest src offset count : Nat) :
    AsconState × Mem :=
  lwXorBlockSwap state mem dest offset src count

end AsconSuite.DirectXor
