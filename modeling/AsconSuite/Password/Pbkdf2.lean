/-
Module: AsconSuite.Password.Pbkdf2
Layer: Model
Purpose: `password/ascon-pbkdf2.c`: PBKDF2 with a customized extendable-output function as its PRF.
Imports: AsconSuite.Hash.Xof
Trusted boundary: password and salt do not overlap the output
Main exports: asconPbkdf2F, asconPbkdf2
-/
import AsconSuite.Hash.Xof

namespace AsconSuite

open ByteWord ByteMemory

/-- `ASCON_PBKDF2_SIZE`. -/
def asconPbkdf2Size : Nat := 32

/-- The characters of `"PBKDF2"`. -/
def pbkdf2Name : List Byte := [0x50, 0x42, 0x4B, 0x44, 0x46, 0x32]

/-- `lw_xor_block`, where the source is a local block. -/
def lwXorBlock (mem : Mem) (dest : Nat) (src : Mem) : (len : Nat) → Mem
  | 0 => mem
  | len + 1 => lwXorBlock (mem.store dest (mem dest ^^^ src 0)) (dest + 1) (src.view 1) len

/-- `while (count > 2)` of `ascon_pbkdf2_f`, for `count - 2` iterations. -/
def asconPbkdf2Rounds (state : XofState) (mem : Mem) (t : Nat) (u : Mem) : (count : Nat) → Mem
  | 0 => mem
  | count + 1 =>
      let state2 := asconXofAbsorb state u asconPbkdf2Size
      let (_, u) := asconXofSqueeze state2 u 0 asconPbkdf2Size
      asconPbkdf2Rounds state (lwXorBlock mem t u asconPbkdf2Size) t u count

/-- `ascon_pbkdf2_f`: the memory with the block at `t`. -/
def asconPbkdf2F (state : XofState) (mem : Mem) (t : Nat) (salt : Mem) (saltlen count blocknum : Nat) :
    Mem :=
  let b := beStoreWord32 (fun _ => 0) 0 (BitVec.ofNat 32 blocknum)
  let state2 := asconXofAbsorb state salt saltlen
  let state2 := asconXofAbsorb state2 b 4
  let (_, mem) := asconXofSqueeze state2 mem t asconPbkdf2Size
  if 1 < count then
    let state2 := asconXofAbsorb state (mem.view t) asconPbkdf2Size
    let (_, u) := asconXofSqueeze state2 (fun _ => 0) 0 asconPbkdf2Size
    asconPbkdf2Rounds state (lwXorBlock mem t u asconPbkdf2Size) t u (count - 2)
  else mem

/-- The loop of `ascon_pbkdf2` over the blocks of the output. -/
def asconPbkdf2Blocks (state : XofState) (mem : Mem) (out outlen : Nat) (salt : Mem)
    (saltlen count blocknum : Nat) : Mem :=
  if asconPbkdf2Size ≤ outlen then
    asconPbkdf2Blocks state (asconPbkdf2F state mem out salt saltlen count blocknum)
      (out + asconPbkdf2Size) (outlen - asconPbkdf2Size) salt saltlen count (blocknum + 1)
  else if 0 < outlen then
    let t := asconPbkdf2F state (fun _ => 0) 0 salt saltlen count blocknum
    mem.write out (t.read 0 outlen)
  else mem
termination_by outlen
decreasing_by
  have positive : 0 < asconPbkdf2Size := by decide
  omega

/-- `ascon_pbkdf2`: the memory with the key at `out`. -/
def asconPbkdf2 (mem : Mem) (out outlen : Nat) (password : Mem) (passwordlen : Nat) (salt : Mem)
    (saltlen count : Nat) : Mem :=
  let state := asconXofInitCustom (some pbkdf2Name) password passwordlen asconPbkdf2Size
  asconPbkdf2Blocks state mem out outlen salt saltlen count 1

end AsconSuite
