/-
Module: AsconSuite.Tools.AvrSwap
Layer: Model
Purpose: `swap` and `swapmove` of `tools/genavr/code.cpp`, with the members that only they need: the logical AND with an
  immediate value and the allocation that prefers high registers.
Imports: AsconSuite.Tools.AvrShifts
Trusted boundary: the mask, a 64-bit number in the source, is a number
Main exports: Avr.logandImm, Avr.allocateRegPreferHigh, Avr.swap, Avr.swapmoveSteps, Avr.swapmove
-/
import AsconSuite.Tools.AvrShifts

namespace AsconSuite.Avr

/-! ### Logical AND with an immediate value -/

/-- One byte of `Code::logand` for an immediate value. -/
def logandByte (reg bvalue : Nat) : Build Unit :=
  if bvalue = 0 then zeroreg reg
  else if bvalue = 0xFF then return
  else andImm reg bvalue

/-- `Code::logand` for an immediate value. -/
def logandImm : (reg1 : Reg) → (value : Nat) → Build Unit
  | [], _ => return
  | reg :: rest, value => do
      logandByte reg (value % 256)
      logandImm rest (value >>> 8)

/-! ### High registers where there are some -/

/-- `Code::allocateRegPreferHigh`. -/
def allocateRegPreferHigh (size : Nat) : Build Reg := do
  let temp ← allocateRegInternal size true true
  if temp.size < size then
    releaseReg temp
    allocateReg size
  else return temp

/-! ### Swaps -/

/-- One byte of `Code::swap`. -/
def swapByte (r1 r2 : Nat) : Build Unit := do
  let code ← get
  if code.hasFlag tempR0 then
    tworeg .eor r1 r2
    tworeg .eor r2 r1
    tworeg .eor r1 r2
  else
    tworeg .mov tempRegNumber r1
    tworeg .mov r1 r2
    tworeg .mov r2 tempRegNumber

/-- `Code::swap`. -/
def swap (reg1 reg2 : Reg) : Build Unit := (reg1.zip reg2).forM fun (r1, r2) => swapByte r1 r2

/-- The calls of `Code::swapmove` that do a full swap and move, on all bytes or on the upper two of four. -/
def swapmoveSteps (t reg1 reg2 : Reg) (mask shift : Nat) : Build Unit := do
  move t reg1 false
  lsr t shift
  logxor t reg2
  logandImm t mask
  logxor reg2 t
  lsl t shift
  logxor reg1 t

/-- The calls of `Code::swapmove` for a mask of the lower two of four bytes. -/
def swapmoveLow (t reg1 reg2 : Reg) (mask shift : Nat) : Build Unit := do
  move t reg1 false
  lsr t shift
  logxor (t.part 0 2) (reg2.part 0 2)
  logandImm (t.part 0 2) mask
  logxor reg2 (t.part 0 2)
  moveImm (t.part 2 2) 0
  lsl t shift
  logxor reg1 t

/-- The cases of `Code::swapmove` that use a temporary register. -/
def swapmoveThrough (t reg1 reg2 : Reg) (mask shift : Nat) : Build Unit :=
  if reg1.size = 4 ∧ mask &&& 0x0000FFFF = 0 then
    swapmoveSteps (t.part 0 2) (reg1.part 2 2) (reg2.part 2 2) (mask >>> 16) shift
  else if reg1.size = 4 ∧ mask &&& 0xFFFF0000 = 0 then swapmoveLow t reg1 reg2 mask shift
  else swapmoveSteps t reg1 reg2 mask shift

/-- `Code::swapmove` for two registers. An empty `temp` is none. -/
def swapmove (reg1 reg2 : Reg) (mask shift : Nat) (temp : Reg) : Build Unit := do
  if reg1.size ≠ reg2.size then throw "swapmove registers must be the same size"
  else if mask = 0xFF ∧ shift = sizeMinus reg1 1 * 8 % 2 ^ 32 then
    swap (reg1.part (sizeMinus reg1 1) 1) (reg2.part 0 1)
  else if mask = 0xFFFF ∧ shift = 16 ∧ reg1.size = 4 then swap (reg1.part 2 2) (reg2.part 0 2)
  else if temp.size = 0 then
    let t ← allocateRegPreferHigh reg1.size
    swapmoveThrough t reg1 reg2 mask shift
    releaseReg t
  else swapmoveThrough temp reg1 reg2 mask shift

/-- `Code::swapmove` for one register. -/
def swapmoveOne (reg : Reg) (mask shift : Nat) (temp : Reg) : Build Unit := swapmove reg reg mask shift temp

end AsconSuite.Avr
