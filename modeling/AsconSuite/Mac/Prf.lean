/-
Module: AsconSuite.Mac.Prf
Layer: Model
Purpose: The functions of `mac/ascon-prf.c` for inputs and outputs of any length.
Imports: AsconSuite.Hash.Xof
Trusted boundary: none
Main exports: PrfState, asconPrfFixedInit, asconPrfAbsorb, asconPrfSqueeze, asconPrf, asconPrfFixed, asconMac
-/
import AsconSuite.Hash.Xof

namespace AsconSuite

open ByteWord ByteMemory

/-- `ASCON_PRF_RATE_IN`. -/
def asconPrfRateIn : Nat := 32

/-- `ASCON_PRF_RATE_OUT`. -/
def asconPrfRateOut : Nat := 16

/-- `ASCON_PRF_KEY_SIZE`. -/
def asconPrfKeySize : Nat := 16

/-- `ASCON_MAC_TAG_SIZE`. -/
def asconMacTagSize : Nat := 16

/-- `ascon_prf_state_t`, which has the fields of `ascon_xof_state_t`. -/
abbrev PrfState := XofState

/-- `ascon_prf_fixed_init`. -/
def asconPrfFixedInit (key : Mem) (outlen : Nat) : PrfState :=
  let iv := tablePtr [0x80, 0x80, 0x8c, 0x00, 0x00, 0x00, 0x00, 0x00]
  let outlen := xofOutputLength outlen
  let iv := beStoreWord32 iv 4 (BitVec.ofNat 32 (outlen * 8))
  let state := asconOverwriteBytes asconInit iv 0 8
  let state := asconOverwriteBytes state key 8 asconPrfKeySize
  ⟨asconPermute state 0, 0, false⟩

/-- `ascon_prf_init`. -/
def asconPrfInit (key : Mem) : PrfState := asconPrfFixedInit key 0

/-- The full blocks and the block left over at the end of `ascon_prf_absorb`. -/
def asconPrfAbsorbBlocks (state : AsconState) (input : Mem) (inlen : Nat) : PrfState :=
  let (state, input, inlen) := absorbLoop asconPrfRateIn
    (fun state input =>
      asconPermute (asconAbsorb16 (asconAbsorb16 state input 0) (input.view 16) 16) 0) state input inlen
  let temp := inlen
  let state := if 0 < temp then asconAbsorbPartial state input 0 temp else state
  ⟨state, temp, false⟩

/-- `ascon_prf_absorb`. -/
def asconPrfAbsorb (prf : PrfState) (input : Mem) (inlen : Nat) : PrfState :=
  let prf := if prf.mode then ⟨asconPermute prf.state 0, 0, false⟩ else prf
  if prf.count ≠ 0 then
    let temp := asconPrfRateIn - prf.count
    if inlen < temp then
      { prf with
        state := asconAbsorbPartial prf.state input prf.count inlen
        count := prf.count + inlen }
    else
      let state := asconAbsorbPartial prf.state input prf.count temp
      asconPrfAbsorbBlocks (asconPermute state 0) (input.view temp) (inlen - temp)
  else asconPrfAbsorbBlocks prf.state input inlen

/-- The full blocks and the block left over at the end of `ascon_prf_squeeze`. -/
def asconPrfSqueezeBlocks (state : AsconState) (mem : Mem) (out outlen : Nat) : PrfState × Mem :=
  if asconPrfRateOut ≤ outlen then
    let state := asconPermute state 0
    asconPrfSqueezeBlocks state (asconSqueeze16 state mem out 0) (out + asconPrfRateOut)
      (outlen - asconPrfRateOut)
  else if 0 < outlen then
    let state := asconPermute state 0
    (⟨state, outlen, true⟩, asconSqueezePartial state mem out 0 outlen)
  else (⟨state, 0, true⟩, mem)
termination_by outlen
decreasing_by
  have positive : 0 < asconPrfRateOut := by decide
  omega

/-- `ascon_prf_squeeze`. -/
def asconPrfSqueeze (prf : PrfState) (mem : Mem) (out outlen : Nat) : PrfState × Mem :=
  let prf := if prf.mode then prf else ⟨asconSeparator (asconPad prf.state prf.count), 0, true⟩
  if prf.count ≠ 0 then
    let temp := asconPrfRateOut - prf.count
    if outlen < temp then
      ({ prf with count := prf.count + outlen },
        asconSqueezePartial prf.state mem out prf.count outlen)
    else
      asconPrfSqueezeBlocks prf.state (asconSqueezePartial prf.state mem out prf.count temp)
        (out + temp) (outlen - temp)
  else asconPrfSqueezeBlocks prf.state mem out outlen

/-! ### Functions of one call -/

/-- `ascon_prf`: the memory with the output at `out`. -/
def asconPrf (mem : Mem) (out outlen : Nat) (input : Mem) (inlen : Nat) (key : Mem) : Mem :=
  (asconPrfSqueeze (asconPrfAbsorb (asconPrfFixedInit key 0) input inlen) mem out outlen).2

/-- `ascon_prf_fixed`. -/
def asconPrfFixed (mem : Mem) (out outlen : Nat) (input : Mem) (inlen : Nat) (key : Mem) : Mem :=
  (asconPrfSqueeze (asconPrfAbsorb (asconPrfFixedInit key outlen) input inlen) mem out outlen).2

/-- `ascon_mac`. -/
def asconMac (mem : Mem) (tag : Nat) (input : Mem) (inlen : Nat) (key : Mem) : Mem :=
  (asconPrfSqueeze (asconPrfAbsorb (asconPrfFixedInit key asconMacTagSize) input inlen) mem tag
    asconMacTagSize).2

/-! ### Calls of one object -/

/-- A call on an object. -/
inductive PrfCall where
  | absorb (call : AbsorbCall)
  | squeeze (call : SqueezeCall)

/-- One call: the object after it, and the bytes in the output buffer after it. -/
def prfCall (prf : PrfState) : PrfCall → PrfState × List Byte
  | .absorb ⟨input, inlen⟩ => (asconPrfAbsorb prf input inlen, [])
  | .squeeze ⟨mem, out, outlen⟩ =>
      let (prf, mem) := asconPrfSqueeze prf mem out outlen
      (prf, mem.read out outlen)

end AsconSuite
