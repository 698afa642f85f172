/-
Module: AsconSuite.Tools.AvrShifts
Layer: Model
Purpose: The shifts of `tools/genavr/code.cpp`: `lsl`, `lsr` and `asr`, the shifts by bytes that they call, and
  `moveHighFirst`.
Imports: AsconSuite.Tools.AvrCode
Trusted boundary: none
Main exports: Avr.moveHighFirst, Avr.lslBytes, Avr.lsrBytes, Avr.lsl, Avr.lsr, Avr.asr
-/
import AsconSuite.Tools.AvrCode

namespace AsconSuite.Avr

open ByteWord

/-! ### Arguments of type `unsigned char` -/

/-- The constructor of `Reg` for a part of another one, whose arguments are converted to `unsigned char`. -/
def Reg.part (reg : Reg) (offset count : Nat) : Reg := reg.subset (offset % 256) (count % 256)

/-- `reg.size() - count` for an unsigned `count`. -/
def sizeMinus (reg : Reg) (count : Nat) : Nat := (reg.size + 2 ^ 32 - count) % 2 ^ 32

/-! ### Moves from the high byte down -/

/-- `sameReg`. No index is negative here. -/
def sameReg (reg1 : Reg) (index1 : Nat) (reg2 : Reg) (index2 : Nat) : Bool :=
  decide (index1 < reg1.size) && decide (index2 < reg2.size) && reg1.reg index1 == reg2.reg index2

/-- `noOverlap`. -/
def noOverlap (reg1 reg2 : Reg) (index : Nat) : Bool :=
  !sameReg reg1 index reg2 index && !sameReg reg1 index reg2 (index + 1) &&
    !sameReg reg1 (index + 1) reg2 index && !sameReg reg1 (index + 1) reg2 (index + 1)

/-- The loop of `Code::moveHighFirst`, with the number of bytes that are still to be moved. A pair of registers is
moved when there are two of them. -/
def moveHighLoop (reg1 reg2 : Reg) : (left : Nat) → Build Unit
  | 0 => return
  | 1 =>
      if reg1.reg 0 = reg2.reg 0 then return
      else tworeg .mov (reg1.reg 0) (reg2.reg 0)
  | index + 2 => do
      let code ← get
      if reg1.reg (index + 1) = reg2.reg (index + 1) then moveHighLoop reg1 reg2 (index + 1)
      else if isRegPair reg1 index && isRegPair reg2 index && noOverlap reg1 reg2 index &&
          code.hasFlag moveWord then
        tworeg .movw (reg1.reg index) (reg2.reg index)
        moveHighLoop reg1 reg2 index
      else if isRevRegPair reg1 index && isRevRegPair reg2 index && noOverlap reg1 reg2 index &&
          code.hasFlag moveWord then
        tworeg .movw (reg1.reg (index + 1)) (reg2.reg (index + 1))
        moveHighLoop reg1 reg2 index
      else
        tworeg .mov (reg1.reg (index + 1)) (reg2.reg (index + 1))
        moveHighLoop reg1 reg2 (index + 1)

/-- `Code::moveHighFirst`. -/
def moveHighFirst (reg1 reg2 : Reg) : Build Unit := moveHighLoop reg1 reg2 (min reg1.size reg2.size)

/-! ### Shifts by bytes -/

/-- `Code::lsl_bytes`. -/
def lslBytes (reg : Reg) (count : Nat) : Build Unit := do
  if count = 0 ∨ reg.size = 0 then return
  else if reg.size ≤ count then moveImm reg 0
  else
    moveHighFirst (reg.part count (sizeMinus reg count)) (reg.part 0 (sizeMinus reg count))
    moveImm (reg.part 0 count) 0

/-- `Code::lsr_bytes`. -/
def lsrBytes (reg : Reg) (count : Nat) : Build Unit := do
  if count = 0 ∨ reg.size = 0 then return
  else if reg.size ≤ count then moveImm reg 0
  else
    move (reg.part 0 (sizeMinus reg count)) (reg.part count (sizeMinus reg count)) false
    moveImm (reg.part (sizeMinus reg count) count) 0

/-! ### Shifts by bits -/

/-- `Code::lsl` by one bit, several times. -/
def shiftLeftBy (reg : Reg) : (bits : Nat) → Build Unit
  | 0 => return
  | bits + 1 => do
      shiftLeft reg
      shiftLeftBy reg bits

/-- `Code::lsr` by one bit, several times. -/
def shiftRightBy (reg : Reg) : (bits : Nat) → Build Unit
  | 0 => return
  | bits + 1 => do
      shiftRight reg
      shiftRightBy reg bits

/-- Keep the bits of one byte that are set in a mask. -/
def andImm (reg mask : Nat) : Build Unit := do
  if 16 ≤ reg then immreg .andi reg mask
  else
    let highReg ← immtemp mask
    tworeg .and reg highReg

/-- `Code::lsl`. -/
def lsl (reg : Reg) (bits : Nat) : Build Unit := do
  if bits = 0 ∨ reg.size = 0 then return
  else if bits = 1 then shiftLeft reg
  else if bits % 8 = 0 then lslBytes reg (bits / 8)
  else if bits = 4 ∧ reg.size = 1 then
    onereg .swap (reg.reg 0)
    andImm (reg.reg 0) 0xF0
  else
    let byBits ← if bits % 8 ≤ 4 then pure true else do
      let found ← haveTempreg
      pure (!found)
    if byBits then
      lslBytes reg (bits / 8)
      shiftLeftBy reg (bits % 8)
    else
      let count := bits / 8
      let tempReg ← tempreg
      zeroreg tempReg
      let temp := tempReg :: reg.part 0 (sizeMinus reg count)
      shiftRightBy temp (8 - bits % 8)
      moveHighFirst (reg.part count (sizeMinus reg count)) (Reg.part temp 0 (sizeMinus reg count))
      moveImm (reg.part 0 count) 0

/-- `Code::lsr`. -/
def lsr (reg : Reg) (bits : Nat) : Build Unit := do
  if bits = 0 ∨ reg.size = 0 then return
  else if bits = 1 then shiftRight reg
  else if bits % 8 = 0 then lsrBytes reg (bits / 8)
  else if bits = 4 ∧ reg.size = 1 then
    onereg .swap (reg.reg 0)
    andImm (reg.reg 0) 0x0F
  else
    let byBits ← if bits % 8 ≤ 4 then pure true else do
      let found ← haveTempreg
      pure (!found)
    if byBits then
      lsrBytes reg (bits / 8)
      shiftRightBy reg (bits % 8)
    else
      let count := bits / 8
      let tempReg ← tempreg
      zeroreg tempReg
      let temp := reg.part count (sizeMinus reg count) ++ [tempReg]
      shiftLeftBy temp (8 - bits % 8)
      move (reg.part 0 (sizeMinus reg count)) (Reg.part temp 1 (sizeMinus reg count)) false
      moveImm (reg.part (sizeMinus reg count) count) 0

/-- The single bits of `Code::lsl` go through the function itself, as in the source. -/
theorem lsl_one (reg : Reg) : lsl reg 1 = shiftLeft reg := by
  cases reg with
  | nil => rfl
  | cons low rest => rfl

/-- The single bits of `Code::lsr` go through the function itself, as in the source. -/
theorem lsr_one (reg : Reg) : lsr reg 1 = shiftRight reg := by
  cases reg with
  | nil => rfl
  | cons low rest => rfl

/-- `Code::asr`. -/
def asr (reg : Reg) : Build Unit :=
  match reg.reversed with
  | [] => return
  | high :: rest => do
      onereg .asr high
      rest.forM (onereg .ror)

end AsconSuite.Avr
