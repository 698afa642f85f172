/-
Module: AsconSuite.Kdf.Hkdf
Layer: Model
Purpose: The HKDF template `kdf/ascon-hkdf-common.h`, which `kdf/ascon-hkdf.c` and `kdf/ascon-hkdfa.c` configure
  with the two HMAC functions.
Imports: AsconSuite.Mac.Hmac
Trusted boundary: key, salt and info do not overlap the output; the cleaning of local variables is left out
Main exports: HkdfState, hkdfExtract, hkdfExpand, hkdf, asconHkdf, asconHkdfa
-/
import AsconSuite.Mac.Hmac

namespace AsconSuite

open ByteWord ByteMemory

/-- `HKDF_HMAC_SIZE`. -/
def hkdfHmacSize : Nat := 32

/-- `HKDF_STATE`. -/
structure HkdfState where
  prk : Mem
  out : Mem
  counter : BitVec 8
  posn : Nat

section

variable (h : HashFunctions)

/-- The `_extract` function. -/
def hkdfExtract (state : HkdfState) (key : Mem) (keylen : Nat) (salt : Mem) (saltlen : Nat) : HkdfState :=
  let hmac := hmacInit h salt saltlen
  let hmac := hmacUpdate h hmac key keylen
  let (_, prk) := hmacFinalize h hmac salt saltlen state.prk 0
  { state with prk := prk, counter := 1, posn := hkdfHmacSize }

/-- The next block of data, with the counter behind it. -/
def hkdfNextBlock (state : HkdfState) (info : Mem) (infolen : Nat) : HkdfState :=
  let hmac := hmacInit h state.prk hkdfHmacSize
  let hmac := if state.counter ≠ 1 then hmacUpdate h hmac state.out hkdfHmacSize else hmac
  let hmac := hmacUpdate h hmac info infolen
  let hmac := hmacUpdate h hmac (tablePtr [state.counter]) 1
  let (_, out) := hmacFinalize h hmac state.prk hkdfHmacSize state.out 0
  { state with out := out, counter := state.counter + 1 }

/-- `while (outlen > 0)` of the `_expand` function. -/
def hkdfExpandBlocks (state : HkdfState) (info : Mem) (infolen : Nat) (mem : Mem) (out outlen : Nat) :
    Int × HkdfState × Mem :=
  if 0 < outlen then
    if state.counter = 0 then (-1, state, mem.write out (List.replicate outlen 0))
    else
      let state := hkdfNextBlock h state info infolen
      let len := min hkdfHmacSize outlen
      let mem := mem.write out (state.out.read 0 len)
      hkdfExpandBlocks { state with posn := len } info infolen mem (out + len) (outlen - len)
  else (0, state, mem)
termination_by outlen
decreasing_by
  have positive : 0 < hkdfHmacSize := by decide
  omega

/-- The `_expand` function: the result, the state, and the memory with the data at `out`. -/
def hkdfExpand (state : HkdfState) (info : Mem) (infolen : Nat) (mem : Mem) (out outlen : Nat) :
    Int × HkdfState × Mem :=
  let len := min (hkdfHmacSize - state.posn) outlen
  let mem := mem.write out (state.out.read state.posn len)
  let state := { state with posn := state.posn + len }
  hkdfExpandBlocks h state info infolen mem (out + len) (outlen - len)

/-- The function of one call. The local state holds `state` before it is set. -/
def hkdf (state : HkdfState) (mem : Mem) (out outlen : Nat) (key : Mem) (keylen : Nat) (salt : Mem)
    (saltlen : Nat) (info : Mem) (infolen : Nat) : Int × Mem :=
  if hkdfHmacSize * 255 < outlen then (-1, mem)
  else
    let state := hkdfExtract h state key keylen salt saltlen
    let (_, _, mem) := hkdfExpand h state info infolen mem out outlen
    (0, mem)

end

/-- `ascon_hkdf`. -/
def asconHkdf := hkdf XofVariant.xof.hash

/-- `ascon_hkdfa`. -/
def asconHkdfa := hkdf XofVariant.xofa.hash

/-! ### Calls of one object -/

/-- A call of the `_expand` function, on the memory it finds. -/
structure ExpandCall where
  mem : Mem
  out : Nat
  outlen : Nat

/-- The state after some calls with the same info. -/
def hkdfExpands (h : HashFunctions) (state : HkdfState) (info : Mem) (infolen : Nat)
    (calls : List ExpandCall) : HkdfState :=
  calls.foldl (fun state call => (hkdfExpand h state info infolen call.mem call.out call.outlen).2.1) state

/-- How many bytes some calls ask for. -/
def ExpandCall.asked : List ExpandCall → Nat
  | [] => 0
  | call :: calls => call.outlen + asked calls

end AsconSuite
