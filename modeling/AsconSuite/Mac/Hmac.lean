/-
Module: AsconSuite.Mac.Hmac
Layer: Model
Purpose: The HMAC template `mac/ascon-hmac-common.h`, and the two hash functions that `mac/ascon-hmac.c` and
  `mac/ascon-hmaca.c` configure it with.
Imports: AsconSuite.Hash.Xof
Trusted boundary: the key and the input do not overlap the output; the cleaning of local variables is left out
Main exports: HashFunctions, XofVariant.hash, hmacAbsorbKey, hmac, hmacInit, hmacReinit, hmacUpdate,
  hmacFinalize
-/
import AsconSuite.Hash.Xof

namespace AsconSuite

open ByteWord ByteMemory

/-- `HMAC_HASH_INIT`, which is `HMAC_HASH_REINIT` too, `HMAC_HASH_UPDATE` and `HMAC_HASH_FINALIZE`. -/
structure HashFunctions where
  init : XofState
  update : XofState → Mem → Nat → XofState
  finalize : XofState → Mem → Nat → XofState × Mem

/-- The functions of `hash/ascon-hash.c` and of `hash/ascon-hasha.c`. -/
def XofVariant.hash : XofVariant → HashFunctions
  | xof =>
      { init := asconHashInit
        update := asconXofAbsorb
        finalize := fun state mem out => asconXofSqueeze state mem out asconHashSize }
  | xofa =>
      { init := asconHashaInit
        update := asconXofaAbsorb
        finalize := fun state mem out => asconXofaSqueeze state mem out asconHashSize }

/-- `HMAC_BLOCK_SIZE`. -/
def hmacBlockSize : Nat := 64

/-- `HMAC_IPAD`. -/
def hmacIpad : Byte := 0x36

/-- `HMAC_OPAD`. -/
def hmacOpad : Byte := 0x5C

/-- The `_xor_pad` function. The input is another buffer, or the output itself. -/
def hmacXorPad (mem : Mem) (out : Nat) (input : Mem) (pad : Byte) : (size : Nat) → Mem
  | 0 => mem
  | size + 1 => hmacXorPad (mem.store out (input 0 ^^^ pad)) (out + 1) (input.view 1) pad size

section

variable (h : HashFunctions)

/-- `while (posn < keylen)` of `_absorb_key`. -/
def hmacKeyChunks (state : XofState) (temp key : Mem) (keylen : Nat) (pad : Byte) (posn : Nat) :
    XofState × Nat :=
  if posn < keylen then
    let len := min (keylen - posn) asconHashSize
    let temp := hmacXorPad temp 0 (key.view posn) pad len
    hmacKeyChunks (h.update state temp len) temp key keylen pad (posn + len)
  else (state, posn)
termination_by keylen - posn
decreasing_by
  have positive : 0 < asconHashSize := by decide
  omega

/-- `while (posn < HMAC_BLOCK_SIZE)` of `_absorb_key`. -/
def hmacPadBlock (state : XofState) (temp : Mem) (posn : Nat) : XofState :=
  if posn < hmacBlockSize then
    let len := min (hmacBlockSize - posn) asconHashSize
    hmacPadBlock (h.update state temp len) temp (posn + len)
  else state
termination_by hmacBlockSize - posn
decreasing_by
  have positive : 0 < asconHashSize := by decide
  omega

/-- The `_absorb_key` function. -/
def hmacAbsorbKey (state : XofState) (key : Mem) (keylen : Nat) (pad : Byte) : XofState :=
  let temp : Mem := fun _ => 0
  let (state, posn) :=
    if keylen ≤ hmacBlockSize then hmacKeyChunks h state temp key keylen pad 0
    else
      let state := h.update state key keylen
      let (_, temp) := h.finalize state temp 0
      let state := h.init
      let temp := hmacXorPad temp 0 temp pad asconHashSize
      (h.update state temp asconHashSize, asconHashSize)
  hmacPadBlock h state (tablePtr (List.replicate asconHashSize pad)) posn

/-- The `_init` function. -/
def hmacInit (key : Mem) (keylen : Nat) : XofState := hmacAbsorbKey h h.init key keylen hmacIpad

/-- The `_reinit` function, which starts from no part of the old state. -/
def hmacReinit (_state : XofState) (key : Mem) (keylen : Nat) : XofState :=
  hmacAbsorbKey h h.init key keylen hmacIpad

/-- The `_update` function. -/
def hmacUpdate (state : XofState) (input : Mem) (inlen : Nat) : XofState := h.update state input inlen

/-- The `_finalize` function: the state, and the memory with the code at `out`. -/
def hmacFinalize (state : XofState) (key : Mem) (keylen : Nat) (mem : Mem) (out : Nat) :
    XofState × Mem :=
  let (_, temp) := h.finalize state (fun _ => 0) 0
  let state := h.init
  let state := hmacAbsorbKey h state key keylen hmacOpad
  let state := h.update state temp asconHashSize
  h.finalize state mem out

/-- The function of one call: the memory with the code at `out`. -/
def hmac (mem : Mem) (out : Nat) (key : Mem) (keylen : Nat) (input : Mem) (inlen : Nat) : Mem :=
  let state := h.init
  let state := hmacAbsorbKey h state key keylen hmacIpad
  let state := h.update state input inlen
  (hmacFinalize h state key keylen mem out).2

end

/-- `ascon_hmac`. -/
def asconHmac := hmac XofVariant.xof.hash

/-- `ascon_hmaca`. -/
def asconHmaca := hmac XofVariant.xofa.hash

end AsconSuite
