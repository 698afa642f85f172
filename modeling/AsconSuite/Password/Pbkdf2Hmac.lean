/-
Module: AsconSuite.Password.Pbkdf2Hmac
Layer: Model
Purpose: `password/ascon-pbkdf2-hmac.c`: PBKDF2 with ASCON-HMAC as its PRF.
Imports: AsconSuite.Mac.Hmac, AsconSuite.Password.Pbkdf2
Trusted boundary: password and salt do not overlap the output
Main exports: asconPbkdf2HmacF, asconPbkdf2Hmac
-/
import AsconSuite.Mac.Hmac
import AsconSuite.Password.Pbkdf2

namespace AsconSuite

open ByteWord ByteMemory

/-- `ASCON_HMAC_SIZE`. -/
def asconHmacSize : Nat := asconHashSize

/-- `ascon_hmac_init`. -/
def asconHmacInit := hmacInit XofVariant.xof.hash

/-- `ascon_hmac_reinit`. -/
def asconHmacReinit := hmacReinit XofVariant.xof.hash

/-- `ascon_hmac_update`. -/
def asconHmacUpdate := hmacUpdate XofVariant.xof.hash

/-- `ascon_hmac_finalize`. -/
def asconHmacFinalize := hmacFinalize XofVariant.xof.hash

/-- `while (count > 2)` of `ascon_pbkdf2_hmac_f`, for `count - 2` iterations. -/
def asconPbkdf2HmacRounds (state : XofState) (mem : Mem) (t : Nat) (u password : Mem) (passwordlen : Nat) :
    (count : Nat) → Mem
  | 0 => mem
  | count + 1 =>
      let state := asconHmacReinit state password passwordlen
      let state := asconHmacUpdate state u asconHmacSize
      let (state, u) := asconHmacFinalize state password passwordlen u 0
      asconPbkdf2HmacRounds state (lwXorBlock mem t u asconHmacSize) t u password passwordlen count

/-- `ascon_pbkdf2_hmac_f`: the memory with the block at `t`. -/
def asconPbkdf2HmacF (mem : Mem) (t : Nat) (password : Mem) (passwordlen : Nat) (salt : Mem)
    (saltlen count blocknum : Nat) : Mem :=
  let b := beStoreWord32 (fun _ => 0) 0 (BitVec.ofNat 32 blocknum)
  let state := asconHmacInit password passwordlen
  let state := asconHmacUpdate state salt saltlen
  let state := asconHmacUpdate state b 4
  let (state, mem) := asconHmacFinalize state password passwordlen mem t
  if 1 < count then
    let state := asconHmacReinit state password passwordlen
    let state := asconHmacUpdate state (mem.view t) asconHmacSize
    let (state, u) := asconHmacFinalize state password passwordlen (fun _ => 0) 0
    asconPbkdf2HmacRounds state (lwXorBlock mem t u asconHmacSize) t u password passwordlen (count - 2)
  else mem

/-- The loop of `ascon_pbkdf2_hmac` over the blocks of the output. -/
def asconPbkdf2HmacBlocks (mem : Mem) (out outlen : Nat) (password : Mem) (passwordlen : Nat) (salt : Mem)
    (saltlen count blocknum : Nat) : Mem :=
  if asconHmacSize ≤ outlen then
    asconPbkdf2HmacBlocks (asconPbkdf2HmacF mem out password passwordlen salt saltlen count blocknum)
      (out + asconHmacSize) (outlen - asconHmacSize) password passwordlen salt saltlen count (blocknum + 1)
  else if 0 < outlen then
    let t := asconPbkdf2HmacF (fun _ => 0) 0 password passwordlen salt saltlen count blocknum
    mem.write out (t.read 0 outlen)
  else mem
termination_by outlen
decreasing_by
  have positive : 0 < asconHmacSize := by decide
  omega

/-- `ascon_pbkdf2_hmac`: the memory with the key at `out`. -/
def asconPbkdf2Hmac (mem : Mem) (out outlen : Nat) (password : Mem) (passwordlen : Nat) (salt : Mem)
    (saltlen count : Nat) : Mem :=
  asconPbkdf2HmacBlocks mem out outlen password passwordlen salt saltlen count 1

end AsconSuite
