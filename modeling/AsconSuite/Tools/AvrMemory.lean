/-
Module: AsconSuite.Tools.AvrMemory
Layer: Model
Purpose: The members of `Code` in `tools/genavr/code.h` and `tools/genavr/code.cpp` that access memory behind the
  pointers X, Y and Z: the long loads and stores, the exclusive or with memory in both directions, and zeroing.
Imports: AsconSuite.Tools.AvrCode
Trusted boundary: offsets and counts are numbers; sums of them that the source cuts down to 32 bits are not reached
Main exports: Avr.ldxLong, Avr.stxLong, Avr.ldXor, Avr.ldXorIn, Avr.stZero
-/
import AsconSuite.Tools.AvrCode

namespace AsconSuite.Avr

/-- `Code::ldx_long`. -/
def ldxLong (reg : Reg) (offset : Nat) : Build Unit := ldStLong reg .ldX offset

/-- `Code::ldy_long`. -/
def ldyLong (reg : Reg) (offset : Nat) : Build Unit := ldStLong reg .ldY offset

/-- `Code::ldz_long`. -/
def ldzLong (reg : Reg) (offset : Nat) : Build Unit := ldStLong reg .ldZ offset

/-- `Code::stx_long`. -/
def stxLong (reg : Reg) (offset : Nat) : Build Unit := ldStLong reg .stX offset

/-- `Code::sty_long`. -/
def styLong (reg : Reg) (offset : Nat) : Build Unit := ldStLong reg .stY offset

/-- `Code::stz_long`. -/
def stzLong (reg : Reg) (offset : Nat) : Build Unit := ldStLong reg .stZ offset

/-- The load of a byte of `Code::ld_xor`, and its exclusive or into a register. -/
def ldXorByte (type : InsnType) (temp reg offset : Nat) : Build Unit := do
  memory type temp offset
  tworeg .eor reg temp

/-- `Code::ld_xor`. -/
def ldXor (reg : Reg) (type : InsnType) (offset : Nat) : Build Unit := do
  let temp ← tempreg
  let back : Int := -((offset + reg.size - 1 : Nat) : Int)
  if reg.size = 0 then return
  else if offset + reg.size ≤ 64 then
    (List.range reg.size).forM fun index => ldXorByte type temp (reg.reg index) (offset + index)
  else
    let pointer := if type = .ldY then 28 else 30
    addPtr pointer offset
    (List.range (reg.size - 1)).forM fun index => ldXorByte type temp (reg.reg index) postInc
    ldXorByte type temp (reg.reg (reg.size - 1)) 0
    addPtr pointer back

/-- `Code::ldy_xor`. -/
def ldyXor (reg : Reg) (offset : Nat) : Build Unit := ldXor reg .ldY offset

/-- `Code::ldz_xor`. -/
def ldzXor (reg : Reg) (offset : Nat) : Build Unit := ldXor reg .ldZ offset

/-- The exclusive or of a register into a byte of memory in `Code::ld_xor_in`. The load never moves the pointer. -/
def ldXorInByte (type : InsnType) (temp reg loadOffset storeOffset : Nat) : Build Unit := do
  memory type temp loadOffset
  tworeg .eor temp reg
  if type = .ldY then memory .stY temp storeOffset else memory .stZ temp storeOffset

/-- `Code::ld_xor_in`. -/
def ldXorIn (reg : Reg) (type : InsnType) (offset : Nat) : Build Unit := do
  let temp ← tempreg
  let back : Int := -((offset + reg.size - 1 : Nat) : Int)
  if reg.size = 0 then return
  else if offset + reg.size ≤ 64 then
    (List.range reg.size).forM fun index =>
      ldXorInByte type temp (reg.reg index) (offset + index) (offset + index)
  else
    let pointer := if type = .ldY then 28 else 30
    addPtr pointer offset
    (List.range (reg.size - 1)).forM fun index => ldXorInByte type temp (reg.reg index) 0 postInc
    ldXorInByte type temp (reg.reg (reg.size - 1)) 0 0
    addPtr pointer back

/-- `Code::ldy_xor_in`. -/
def ldyXorIn (reg : Reg) (offset : Nat) : Build Unit := ldXorIn reg .ldY offset

/-- `Code::ldz_xor_in`. -/
def ldzXorIn (reg : Reg) (offset : Nat) : Build Unit := ldXorIn reg .ldZ offset

/-- The register that `Code::st_zero` stores: it is released in the end, when it was allocated. -/
def stZeroReg : Build Reg := do
  let code ← get
  if code.hasFlag tempR1 then
    let zero ← allocateReg 1
    tworeg .eor (zero.reg 0) (zero.reg 0)
    return zero
  else return [zeroRegNumber]

/-- `Code::st_zero`. -/
def stZero (type : InsnType) (offset count : Nat) : Build Unit := do
  let zero ← stZeroReg
  if type = .stX ∨ 64 < offset + count then
    let pointer := if type = .stX then 26 else if type = .stY then 28 else 30
    addPtr pointer offset
    (List.range count).forM fun _ => memory type (zero.reg 0) postInc
    addPtr pointer (-((offset + count : Nat) : Int))
  else (List.range count).forM fun index => memory type (zero.reg 0) (offset + index)
  releaseReg zero

/-- `Code::stx_zero`. -/
def stxZero (offset count : Nat) : Build Unit := stZero .stX offset count

/-- `Code::sty_zero`. -/
def styZero (offset count : Nat) : Build Unit := stZero .stY offset count

/-- `Code::stz_zero`. -/
def stzZero (offset count : Nat) : Build Unit := stZero .stZ offset count

end AsconSuite.Avr
