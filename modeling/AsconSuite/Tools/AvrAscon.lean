/-
Module: AsconSuite.Tools.AvrAscon
Layer: Model
Purpose: The generator of the permutation, `tools/genavr/algorithm_ascon.cpp`.
Imports: AsconSuite.Tools.AvrCode
Trusted boundary: none
Main exports: Avr.asconSubstitute, Avr.asconDiffuse, Avr.genAsconPermutation
-/
import AsconSuite.Tools.AvrCode

namespace AsconSuite.Avr

/-- `ASCON_BYTE`. -/
def asconByte (word byte : Nat) : Nat := word * 8 + 7 - byte

/-- `ASCON_WORD`. -/
def asconWord (word : Nat) : Nat := word * 8

/-- `ascon_substitute`. -/
def asconSubstitute (offset : Nat) (x2 x4 : Reg) : Build Unit := do
  let x0 ← allocateReg 1
  let x1 ← allocateReg 1
  let x3 ← allocateReg 1
  ldz x0 (asconByte 0 offset)
  ldz x1 (asconByte 1 offset)
  ldz x3 (asconByte 3 offset)
  let t0 ← allocateReg 1
  let t1 ← allocateReg 1
  let t2 ← allocateReg 1
  move t0 x1 false
  move t1 x0 false
  move t2 x3 false
  logxor t0 x2
  logxor t1 x4
  logxor t2 x4
  lognot x4
  logor x4 x3
  logxor x4 t0
  logxor x3 x1
  logor x3 t0
  logxor x3 t1
  logxor x2 t1
  logor x2 x1
  logxor x2 t2
  lognot t1
  logand x1 t1
  logxor x1 t2
  logor x0 t2
  logxor x0 t0
  stz x0 (asconByte 3 offset)
  stz x1 (asconByte 4 offset)
  stz x3 (asconByte 1 offset)
  stz x4 (asconByte 2 offset)
  releaseReg x0
  releaseReg x1
  releaseReg x3
  releaseReg t0
  releaseReg t1
  releaseReg t2

/-- `ascon_diffuse`. -/
def asconDiffuse (x : Reg) (word shift1 shift2 : Nat) : Build Unit := do
  let t ← allocateReg 8
  if word ≠ 0 then ldz x.reversed (asconWord word)
  move t x false
  ror t shift1
  logxor t x
  ror x shift2
  logxor x t
  if word ≠ 2 ∧ word ≠ 4 then stz x.reversed (asconWord word)
  releaseReg t

/-- The part of `gen_ascon_permutation` that stands before the loop: the registers of the round constant, of `x2` and
of `x4`. -/
def genPreamble : Build (Reg × Reg × Reg) := do
  let round ← prologuePermutationWithCount 0
  modify fun code => code.setFlag noLocals
  let temp ← allocateHighReg 1
  moveImm temp 0x0F
  sub temp round
  onereg .swap (temp.reg 0)
  logor round temp
  releaseReg temp
  let x2 ← allocateReg 8
  let x4 ← allocateReg 8
  ldz x2.reversed (asconWord 2)
  ldz x4.reversed (asconWord 4)
  return (round, x2, x4)

/-- The substitution layer of a round, with the round constant. -/
def genSubstitution (round x2 x4 : Reg) : Build Unit := do
  logxor x2 round
  (List.range 8).forM fun index => asconSubstitute index (x2.subset index 1) (x4.subset index 1)

/-- `gen_ascon_permutation`. -/
def genAsconPermutation : Build Unit := do
  let (round, x2, x4) ← genPreamble
  let topLabel ← label 0
  genSubstitution round x2 x4
  asconDiffuse x2 0 19 28
  asconDiffuse x4 1 61 39
  asconDiffuse x2 2 1 6
  asconDiffuse x4 3 10 17
  asconDiffuse x4 4 7 41
  subImm round 0x0F false
  let _ ← compareAndLoop round 0x3C topLabel
  stz x2.reversed (asconWord 2)
  stz x4.reversed (asconWord 4)

end AsconSuite.Avr
