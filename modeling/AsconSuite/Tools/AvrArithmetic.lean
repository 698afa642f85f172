/-
Module: AsconSuite.Tools.AvrArithmetic
Layer: Model
Purpose: The additions and subtractions of `tools/genavr/code.cpp` and `tools/genavr/code.h`, and the comparisons of
  two registers. `sub` and the comparison with an immediate value are in `AvrCode`.
Imports: AsconSuite.Tools.AvrCode
Trusted boundary: none
Main exports: Avr.add, Avr.adc, Avr.sbc, Avr.addImm, Avr.adcImm, Avr.sbcImm, Avr.inc, Avr.dec, Avr.neg, Avr.compare,
  Avr.compareAndSet
-/
import AsconSuite.Tools.AvrCode

namespace AsconSuite.Avr

open ByteWord

/-! ### Addition -/

/-- `Code::adc` for two registers, which is also the rest of `Code::add` behind the first byte. -/
def adc : (reg1 reg2 : Reg) → Build Unit
  | [], _ => return
  | r1 :: rest1, r2 :: rest2 => do
      tworeg .adc r1 r2
      adc rest1 rest2
  | r1 :: rest1, [] => do
      let code ← get
      if !code.hasFlag tempR1 then tworeg .adc r1 zeroRegNumber
      else
        let highReg ← immtemp 0
        tworeg .adc r1 highReg
      adc rest1 []

/-- `Code::add` for two registers. -/
def add : (reg1 reg2 : Reg) → Build Unit
  | _, [] => return
  | [], _ => return
  | r1 :: rest1, r2 :: rest2 => do
      tworeg .add r1 r2
      adc rest1 rest2

/-- The loop of `Code::add` for an immediate value. -/
def addImmLoop (size : Nat) : (reg1 : Reg) → (value : Nat) → (haveCarry : Bool) → Build Unit
  | [], _, _ => return
  | reg :: rest, value, haveCarry => do
      let code ← get
      let bvalue := value % 256
      if bvalue = 0 then
        if haveCarry then
          if !code.hasFlag tempR1 then tworeg .adc reg zeroRegNumber
          else
            let highReg ← immtemp 0
            tworeg .adc reg highReg
        addImmLoop size rest (value >>> 8) haveCarry
      else
        if bvalue = 1 ∧ !haveCarry ∧ size = 1 then onereg .inc reg
        else if !haveCarry ∧ size = 1 ∧ 16 ≤ reg then immreg .subi reg (256 - bvalue)
        else
          let highReg ← immtemp bvalue
          tworeg (if haveCarry then .adc else .add) reg highReg
        addImmLoop size rest (value >>> 8) true

/-- `Code::add` for an immediate value. -/
def addImm (reg1 : Reg) (value : Nat) (carryIn : Bool) : Build Unit := addImmLoop reg1.size reg1 value carryIn

/-- `Code::adc` for an immediate value. -/
def adcImm (reg1 : Reg) (value : Nat) : Build Unit := addImm reg1 value true

/-- `Code::inc`. -/
def inc (reg : Reg) : Build Unit := addImm reg 1 false

/-! ### Subtraction -/

/-- `Code::sbc` for two registers, which is also the rest of `Code::sub` behind the first byte. -/
def sbc (reg1 reg2 : Reg) : Build Unit := sbcBytes reg1 reg2

/-- `Code::sbc` for an immediate value. It calls `add`. -/
def sbcImm (reg1 : Reg) (value : Nat) : Build Unit := addImm reg1 value true

/-- `Code::dec`. -/
def dec (reg : Reg) : Build Unit := subImm reg 1 false

/-- `Code::neg`. -/
def neg (reg : Reg) : Build Unit := do
  if reg.size = 1 then onereg .neg (reg.reg 0)
  else
    lognot reg
    addImm reg 1 false

/-! ### Comparison -/

/-- The loops of `Code::compare` behind the first instruction: bytes that one register does not have are zero. -/
def compareRest (zeroReg : Nat) : (reg1 reg2 : Reg) → Build Unit
  | [], [] => return
  | r1 :: rest1, r2 :: rest2 => do
      tworeg .cpc r1 r2
      compareRest zeroReg rest1 rest2
  | r1 :: rest1, [] => do
      tworeg .cpc r1 zeroReg
      compareRest zeroReg rest1 []
  | [], r2 :: rest2 => do
      tworeg .cpc zeroReg r2
      compareRest zeroReg [] rest2

/-- The loops of `Code::compare`. -/
def compareBytes (zeroReg : Nat) : (reg1 reg2 : Reg) → Build Unit
  | [], [] => return
  | r1 :: rest1, r2 :: rest2 => do
      tworeg .cp r1 r2
      compareRest zeroReg rest1 rest2
  | r1 :: rest1, [] => do
      tworeg .cp r1 zeroReg
      compareRest zeroReg rest1 []
  | [], r2 :: rest2 => do
      tworeg .cp zeroReg r2
      compareRest zeroReg [] rest2

/-- `Code::compare` for two registers. -/
def compare (reg1 reg2 : Reg) : Build Unit := do
  let code ← get
  let minsize := min reg1.size reg2.size
  let zeroReg ←
    if code.hasFlag tempR1 ∧ (minsize < reg1.size ∨ minsize < reg2.size) then do
      let temp ← allocateReg 1
      zeroreg (temp.reg 0)
      releaseReg temp
      pure (temp.reg 0)
    else pure zeroRegNumber
  compareBytes zeroReg reg1 reg2

/-- `Code::zeroreg_no_cc`. -/
def zeroregNoCc (reg : Nat) : Build Unit := do
  let code ← get
  if !code.hasFlag tempR1 then tworeg .mov reg zeroRegNumber
  else if 16 ≤ reg then immreg .ldi reg 0
  else
    let highReg ← immtemp 0
    tworeg .mov reg highReg

/-- `Reg::reg`, which throws where there is no such byte. -/
def regAt (reg : Reg) (index : Nat) : Build Nat :=
  match reg[index]? with
  | some r => return r
  | none => throw "vector::at"

/-- The end of `Code::compare_and_set`: make the result from the carry. -/
def setResult (regout : Reg) (set : Nat) : Build Unit := do
  let out ← regAt regout 0
  if set = 0 then
    zeroregNoCc out
    tworeg .sbc out out
    regout.tail.forM fun r => tworeg .mov r out
  else if set = 1 then
    zeroregNoCc out
    onereg .rol out
    let highReg ← immtemp 0x01
    tworeg .eor out highReg
    regout.tail.forM zeroreg
  else
    zeroregNoCc out
    onereg .rol out
    onereg .dec out
    regout.tail.forM fun r => tworeg .mov r out

/-- The part of `Code::compare_and_set` that makes the carry. Every turn of its loop reads the first bytes. -/
def setCarry (reg1 reg2 : Reg) : Build Unit := do
  let temp ← allocateReg 1
  let temp2 ← tempreg
  tworeg .mov temp2 (reg1.reg 0)
  tworeg .eor temp2 (reg2.reg 0)
  (List.range (reg1.size - 1)).forM fun _ => do
    tworeg .mov (temp.reg 0) (reg1.reg 0)
    tworeg .eor (temp.reg 0) (reg2.reg 0)
    tworeg .or temp2 (temp.reg 0)
  zeroreg (temp.reg 0)
  tworeg .sub (temp.reg 0) temp2
  releaseReg temp

/-- `Code::compare_and_set`. -/
def compareAndSet (regout reg1 reg2 : Reg) (set : Nat) : Build Unit := do
  if reg1.size ≠ reg2.size then throw "registers must be the same size"
  else if reg1.size = 0 then throw "cannot compare empty registers"
  else
    setCarry reg1 reg2
    setResult regout (set % 256)

end AsconSuite.Avr
