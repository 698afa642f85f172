/-
Module: AsconSuite.Tools.AvrInterpret
Layer: Model
Purpose: The interpreter of AVR instructions, `tools/genavr/interpret.cpp`.
Imports: AsconSuite.Base.ByteMemory, AsconSuite.Tools.AvrCode
Trusted boundary: what the printing instructions write to the terminal is left out
Main exports: Avr.AVRState, Avr.AVRState.ptr, Avr.execInsn, Avr.execLoop, Avr.permutationStart, Avr.execPermutation
-/
import AsconSuite.Base.ByteMemory
import AsconSuite.Tools.AvrCode

namespace AsconSuite.Avr

open ByteWord ByteMemory

/-- `MEM_SIZE`. -/
def memSize : Nat := 4096

/-- `AVRState`. Registers 32 and 33 are the stack pointer. -/
structure AVRState where
  r : Nat → Byte
  c : Bool
  z : Bool
  t : Bool
  memory : Mem
  pc : Nat
  sbox : List Byte
  sboxOffset : Nat

namespace AVRState

/-- Assign a register. -/
def setReg (s : AVRState) (reg : Nat) (b : Byte) : AVRState := { s with r := fun i => if i = reg then b else s.r i }

/-- `AVRState::pair`. -/
def pair (s : AVRState) (reg : Nat) : Nat := (s.r (reg + 1)).toNat * 256 + (s.r reg).toNat

/-- `AVRState::setPair`. -/
def setPair (s : AVRState) (reg value : Nat) : AVRState :=
  (s.setReg reg (BitVec.ofNat 8 value)).setReg (reg + 1) (BitVec.ofNat 8 (value / 256))

/-- The constructor of `AVRState`. -/
def new : AVRState :=
  setPair
    { r := fun i => if i = 1 then 0x00#8 else 0x55#8, c := false, z := false, t := false, memory := fun _ => 0xAA#8
      pc := 0, sbox := [], sboxOffset := 0 }
    32 memSize

/-- `AVRState::ptr`: the address, and the state with the pointer register as it is afterwards. -/
def ptr (s : AVRState) (reg offset : Nat) : Except String (Nat × AVRState) :=
  let address := s.pair reg
  if offset = preDec then
    if address = 0 ∨ memSize < address then throw "invalid memory address"
    else return (address - 1, s.setPair reg (address - 1))
  else if offset = postInc then
    if memSize ≤ address then throw "invalid memory address"
    else return (address, s.setPair reg (address + 1))
  else if memSize ≤ address + offset then throw "invalid memory address"
  else return (address + offset, s)

/-- Read the byte behind a pointer register. -/
def load (s : AVRState) (reg offset : Nat) : Except String (Byte × AVRState) := do
  let (address, s) ← s.ptr reg offset
  return (s.memory address, s)

/-- Write the byte behind a pointer register. -/
def store (s : AVRState) (reg offset : Nat) (b : Byte) : Except String AVRState := do
  let (address, s) ← s.ptr reg offset
  return { s with memory := s.memory.store address b }

/-- `AVRState::push16`. -/
def push16 (s : AVRState) (value : Nat) : Except String AVRState := do
  let s ← s.store 32 preDec (BitVec.ofNat 8 (value / 256))
  s.store 32 preDec (BitVec.ofNat 8 value)

/-- Assign a register and the zero flag of the byte in it. -/
def setRegZ (s : AVRState) (reg : Nat) (b : Byte) : AVRState := { s.setReg reg b with z := b == 0#8 }

/-- The result of an addition: the byte, its zero flag and the carry. -/
def setSum (s : AVRState) (reg sum : Nat) : AVRState :=
  { s.setRegZ reg (BitVec.ofNat 8 sum) with c := decide (0x0100 ≤ sum) }

/-- The flags of a comparison. -/
def setCompared (s : AVRState) (cmp : Int) : AVRState := { s with c := decide (cmp < 0), z := cmp == 0 }

/-- The result of a subtraction. The zero flag is that of the number before it is cut down to a byte. -/
def setDifference (s : AVRState) (reg : Nat) (result : Int) : AVRState :=
  (s.setCompared result).setReg reg (BitVec.ofInt 8 result)

/-- The stored carry as a number. -/
def carry (s : AVRState) : Nat := s.c.toNat

end AVRState

/-- Set the program counter to a label. -/
def AVRState.goto (s : AVRState) (code : Code) (ref : Nat) : Except String AVRState := do
  let offset ← code.getLabel ref
  return { s with pc := offset }

/-- Assign a register the byte behind a pointer register. -/
def AVRState.loadTo (s : AVRState) (reg pointer offset : Nat) : Except String AVRState := do
  let (b, s) ← s.load pointer offset
  return s.setReg reg b

/-- `Sbox::lookup`. -/
def sboxLookup (sbox : List Byte) (value : Nat) : Except String Byte :=
  match sbox[value]? with
  | some b => return b
  | none => throw "invalid S-box lookup"

/-- `exec_insn`. -/
def execInsn (s : AVRState) (code : Code) (insn : Insn) : Except String AVRState :=
  let r1 := s.r insn.reg1
  let r2 := s.r insn.reg2
  match insn.type with
  | .adc => return s.setSum insn.reg1 (r1.toNat + s.carry + r2.toNat)
  | .add => return s.setSum insn.reg1 (r1.toNat + r2.toNat)
  | .adiw =>
      let temp := s.pair insn.reg1 + insn.value
      return { s.setPair insn.reg1 temp with c := decide (0x10000 ≤ temp), z := temp % 0x10000 == 0 }
  | .and => return s.setRegZ insn.reg1 (r1 &&& r2)
  | .andi => return s.setRegZ insn.reg1 (r1 &&& BitVec.ofNat 8 insn.value)
  | .asr => return { s.setRegZ insn.reg1 (r1.sshiftRight 1) with c := r1.getLsbD 0 }
  | .bld =>
      let bit := 1#8 <<< insn.value
      return s.setReg insn.reg1 ((r1 &&& ~~~bit) ||| (if s.t then bit else 0#8))
  | .bst => return { s with t := r1 &&& (1#8 <<< insn.value) != 0#8 }
  | .brcc => if !s.c then s.goto code insn.label else return s
  | .brcs => if s.c then s.goto code insn.label else return s
  | .breq => if s.z then s.goto code insn.label else return s
  | .brne => if !s.z then s.goto code insn.label else return s
  | .call => do
      let s ← s.push16 s.pc
      s.goto code insn.label
  | .com => return s.setRegZ insn.reg1 (r1 ^^^ 0xFF#8)
  | .cp => return s.setCompared (r1.toNat - r2.toNat : Int)
  | .cpc => return s.setCompared (r1.toNat - r2.toNat - s.carry : Int)
  | .cpi => return s.setCompared (r1.toNat - insn.value : Int)
  | .cpse => return if r1 = r2 then { s with pc := s.pc + 1 } else s
  | .dec => return s.setRegZ insn.reg1 (r1 - 1#8)
  | .eor => return s.setRegZ insn.reg1 (r1 ^^^ r2)
  | .inc => return s.setRegZ insn.reg1 (r1 + 1#8)
  | .jmp => s.goto code insn.label
  | .label => return s
  | .ldX => s.loadTo insn.reg1 26 insn.offset
  | .ldY => s.loadTo insn.reg1 28 insn.offset
  | .ldZ => s.loadTo insn.reg1 30 insn.offset
  | .ldi => return s.setReg insn.reg1 (BitVec.ofNat 8 insn.value)
  | .lpmSbox => do
      let b ← sboxLookup s.sbox (r2.toNat + s.sboxOffset)
      return s.setReg insn.reg1 b
  | .lpmSetup => do
      let sbox ← code.sboxGet insn.value
      ({ s with sbox := sbox, sboxOffset := 0 }.setPair 30 0xBE00).store 32 preDec 0xBA#8
  | .lpmSwitch => do
      let sbox ← code.sboxGet insn.value
      return { s with sbox := sbox, sboxOffset := 0 }.setPair 30 0xBE00
  | .lpmAdjust => return { s with sboxOffset := r1.toNat * 256 }
  | .lpmClean => do
      let (b, s) ← s.load 32 postInc
      if b ≠ 0xBA#8 then throw "RAMPZ stacking error" else return s
  | .lsl => return { s.setRegZ insn.reg1 (r1 <<< 1) with c := r1.getLsbD 7 }
  | .lsr => return { s.setRegZ insn.reg1 (r1 >>> 1) with c := r1.getLsbD 0 }
  | .mov => return s.setReg insn.reg1 r2
  | .movw => return (s.setReg insn.reg1 r2).setReg (insn.reg1 + 1) (s.r (insn.reg2 + 1))
  | .neg => return { s.setRegZ insn.reg1 (-r1) with c := r1 != 0#8 }
  | .nop => return s
  | .or => return s.setRegZ insn.reg1 (r1 ||| r2)
  | .ori => return s.setRegZ insn.reg1 (r1 ||| BitVec.ofNat 8 insn.value)
  | .pop => s.loadTo insn.reg1 32 postInc
  | .push => s.store 32 preDec r1
  | .print => return s
  | .printch => return s
  | .println => return s
  | .ret => do
      let (low, s) ← s.load 32 postInc
      let (high, s) ← s.load 32 postInc
      return { s with pc := low.toNat ||| (high.toNat <<< 8) }
  | .rol => return { s.setRegZ insn.reg1 ((r1 <<< 1) ||| BitVec.ofNat 8 s.carry) with c := r1.getLsbD 7 }
  | .ror => return { s.setRegZ insn.reg1 ((r1 >>> 1) ||| (BitVec.ofNat 8 s.carry <<< 7)) with c := r1.getLsbD 0 }
  | .sbc => return s.setDifference insn.reg1 (r1.toNat - r2.toNat - s.carry : Int)
  | .sub => return s.setDifference insn.reg1 (r1.toNat - r2.toNat : Int)
  | .sbci => return s.setDifference insn.reg1 (r1.toNat - insn.value - s.carry : Int)
  | .subi => return s.setDifference insn.reg1 (r1.toNat - insn.value : Int)
  | .sbiw =>
      let pair := s.pair insn.reg1
      -- The borrow sets every bit above the word, and nothing else sets one of them.
      let temp := (pair + 0x10000 - insn.value) % 0x10000
      return { s.setPair insn.reg1 temp with c := decide (pair < insn.value), z := temp == 0 }
  | .stX => s.store 26 insn.offset r1
  | .stY => s.store 28 insn.offset r1
  | .stZ => s.store 30 insn.offset r1
  | .swap => return s.setReg insn.reg1 ((r1 <<< 4) ||| (r1 >>> 4))

/-- The loop of the functions that execute code. `none` is a loop that has not ended after `fuel` instructions. -/
def execLoop (code : Code) : (fuel : Nat) → AVRState → Option (Except String AVRState)
  | 0, _ => none
  | fuel + 1, s =>
      if s.pc = code.insns.length then some (return s)
      else
        match code.insns[s.pc]? with
        | none => some (throw "program counter out of range")
        | some insn =>
            match execInsn { s with pc := s.pc + 1 } code insn with
            | .ok s => execLoop code fuel s
            | .error e => some (throw e)

/-- The address of the first buffer that `AVRState::alloc_buffer` hands out. -/
def firstBuffer : Nat := 0x01F2

/-- The frame pointer of the functions that execute code, below the return address. -/
def framePointer (s : AVRState) (code : Code) : Nat := s.pair 32 - code.localsSize - 1

/-- The registers and the memory at the start of `Code::exec_permutation`, and the frame pointer. -/
def permutationStart (code : Code) (state : List Byte) (count arg2 arg3 arg4 : Nat) :
    Except String (AVRState × Nat) := do
  let s := AVRState.new
  let s := { s with memory := s.memory.write firstBuffer state }
  let s := s.setPair 30 firstBuffer
  let s ← s.push16 0xFFFF
  let fp := framePointer s code
  let s := s.setPair 28 fp
  let s := s.setPair 32 fp
  return ((((s.setPair 22 count).setPair 20 arg2).setPair 18 arg3).setPair 16 arg4, fp)

/-- The end of `Code::exec_permutation`: its checks, and the state that it copies back. -/
def permutationEnd (code : Code) (fp : Nat) (s : AVRState) (stateLen : Nat) : Except String (List Byte) :=
  if s.r 1 ≠ 0x00#8 ∧ !code.hasFlag tempR1 then throw "r1 is non-zero at the end of the code"
  else if s.pair 32 ≠ fp then throw "stack size is incorrect on code exit"
  else return s.memory.read firstBuffer stateLen

/-- `Code::exec_permutation`. -/
def execPermutation (code : Code) (fuel : Nat) (state : List Byte) (count arg2 arg3 arg4 : Nat) :
    Option (Except String (List Byte)) :=
  match permutationStart code state count arg2 arg3 arg4 with
  | .error e => some (throw e)
  | .ok (start, fp) =>
      (execLoop code fuel start).map fun result => do
        let final ← result
        permutationEnd code fp final state.length

end AsconSuite.Avr
