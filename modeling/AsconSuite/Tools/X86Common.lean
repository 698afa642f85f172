/-
Module: AsconSuite.Tools.X86Common
Layer: Model
Purpose: The emitters of `tools/genx86/x86_common.c`, the programs that call them, and the machine that the emitted
  instructions run on.
Imports: AsconSuite.Base.ByteMemory, AsconSuite.Tools.RegAlloc
Trusted boundary: what the opcodes other than `mov`, `add` and `sub` do with their operands is a parameter
Main exports: Allocator.binop, Allocator.move, Allocator.moveImm, Allocator.addImm, RegOp, Allocator.step, Opcodes,
  Machine, Machine.exec, idealStep
-/
import AsconSuite.Base.ByteMemory
import AsconSuite.Tools.RegAlloc

namespace AsconSuite

open ByteWord ByteMemory

namespace Allocator

/-! ### Emitters -/

/-- `binop`. -/
def binop (a : Allocator) (name : String) (reg1 reg2 : Nat) : Except String Allocator := do
  let a ← a.live reg1
  let a ← a.live reg2
  let real1 ← a.getReal reg1
  let real2 ← a.getReal reg2
  let insn : Insn :=
    { opcode := name, hasImm := false, load := false, store := false
      dest := real1, src1 := real1, src2 := some real2, imm := 0 }
  return (a.addInsn insn).dirty reg1

/-- `unop`. -/
def unop (a : Allocator) (name : String) (reg : Nat) : Except String Allocator := do
  let a ← a.live reg
  let real ← a.getReal reg
  let insn : Insn :=
    { opcode := name, hasImm := false, load := false, store := false
      dest := real, src1 := real, src2 := none, imm := 0 }
  return (a.addInsn insn).dirty reg

/-- The instruction on a register and an immediate value. -/
def immediate (opcode real : String) (imm : Int) : Insn :=
  { opcode := opcode, hasImm := true, load := false, store := false
    dest := real, src1 := real, src2 := none, imm := imm }

/-- A change of a register by an immediate value. -/
def changeImm (opcode : String) (a : Allocator) (dest : Nat) (imm : Int) : Except String Allocator := do
  let a ← a.live dest
  let real ← a.getReal dest
  return (a.addInsn (immediate opcode real imm)).dirty dest

/-- `ror`. -/
def ror (a : Allocator) (dest : Nat) (shift : BitVec 32) : Except String Allocator :=
  changeImm "ror" a dest shift.toInt

/-- `shl`. -/
def shl (a : Allocator) (dest : Nat) (shift : BitVec 32) : Except String Allocator :=
  changeImm "shl" a dest shift.toInt

/-- `shr`. -/
def shr (a : Allocator) (dest : Nat) (shift : BitVec 32) : Except String Allocator :=
  changeImm "shr" a dest shift.toInt

/-- `xor_rc`. -/
def xorRc (a : Allocator) (reg : Nat) (rc : BitVec 32) : Except String Allocator :=
  changeImm "xor" a reg rc.toInt

/-- A register for a value that is still to come. -/
def liveUnloaded (a : Allocator) (dest : Nat) : Except String Allocator :=
  if (a.regs dest).isTemp then a.acquire dest
  else do
    let (_, reserved) ← a.liveNoload dest
    return reserved

/-- `move`. -/
def move (a : Allocator) (dest src : Nat) : Except String Allocator := do
  let a ← a.liveUnloaded dest
  let a ← a.live src
  let realDest ← a.getReal dest
  let realSrc ← a.getReal src
  let insn : Insn :=
    { opcode := "mov", hasImm := false, load := false, store := false
      dest := realDest, src1 := realSrc, src2 := some realSrc, imm := 0 }
  return (a.addInsn insn).dirty dest

/-- An immediate value for a register that is not loaded. -/
def setImm (opcode : String) (a : Allocator) (dest : Nat) (imm : Int) : Except String Allocator := do
  let a ← a.liveUnloaded dest
  let real ← a.getReal dest
  return (a.addInsn (immediate opcode real imm)).dirty dest

/-- `move_imm`. -/
def moveImm (a : Allocator) (dest : Nat) (value : BitVec 64) : Except String Allocator :=
  setImm "mov" a dest value.toInt

/-- `add_imm`. -/
def addImm (a : Allocator) (reg : Nat) (value : BitVec 32) : Except String Allocator :=
  setImm (if value.slt 0 then "sub" else "add") a reg (if value.slt 0 then (-value).toInt else value.toInt)

end Allocator

/-! ### Programs -/

/-- The calls of a generator after it has allocated its logical registers, which are numbered in that order. -/
inductive RegOp where
  | live (reg : Nat)
  | binop (name : String) (reg1 reg2 : Nat)
  | unop (name : String) (reg : Nat)
  | ror (dest : Nat) (shift : BitVec 32)
  | shl (dest : Nat) (shift : BitVec 32)
  | shr (dest : Nat) (shift : BitVec 32)
  | xorRc (reg : Nat) (rc : BitVec 32)
  | move (dest src : Nat)
  | moveImm (dest : Nat) (value : BitVec 64)
  | addImm (reg : Nat) (value : BitVec 32)
  | spill (reg : Nat)
  | acquire (reg : Nat)
  | release (reg : Nat)
  | pin (reg : Nat)
  | unpin (reg : Nat)
  deriving DecidableEq

/-- One call. An error stops the generator. -/
def Allocator.step (a : Allocator) : RegOp → Except String Allocator
  | .live reg => a.live reg
  | .binop name reg1 reg2 => a.binop name reg1 reg2
  | .unop name reg => a.unop name reg
  | .ror dest shift => a.ror dest shift
  | .shl dest shift => a.shl dest shift
  | .shr dest shift => a.shr dest shift
  | .xorRc reg rc => a.xorRc reg rc
  | .move dest src => a.move dest src
  | .moveImm dest value => a.moveImm dest value
  | .addImm reg value => a.addImm reg value
  | .spill reg => a.spill reg
  | .acquire reg => a.acquire reg
  | .release reg => a.release reg
  | .pin reg => .ok (a.pin reg)
  | .unpin reg => .ok (a.unpin reg)

/-- A logical register as it is declared at the start. -/
inductive RegDecl where
  | state (name : String) (offset : Nat)
  | stack (name : String) (offset : Nat)
  | temp (name : String)
  deriving DecidableEq

/-- The call that allocates it. -/
def Allocator.declare (a : Allocator) : RegDecl → Except String Allocator
  | .state name offset => a.allocState name offset
  | .stack name offset => a.allocStack name offset
  | .temp name => a.allocTemp name

/-! ### The machine -/

/-- What the opcodes do: the new value of the destination from its old value and the other operand. -/
structure Opcodes (n : Nat) where
  binary : String → BitVec (8 * n) → BitVec (8 * n) → BitVec (8 * n)
  unary : String → BitVec (8 * n) → BitVec (8 * n)
  mov : ∀ x y, binary "mov" x y = y
  add : ∀ x y, binary "add" x y = x + y
  sub : ∀ x y, binary "sub" x y = x - y

/-- A machine with registers of `n` bytes, the size of a word. -/
structure Machine (n : Nat) where
  regs : String → BitVec (8 * n)
  mem : Mem

namespace Machine

variable {n : Nat}

/-- The number that some bytes stand for in little-endian order. -/
def littleEndian : List Byte → Nat
  | [] => 0
  | b :: bytes => b.toNat + 256 * littleEndian bytes

/-- The first bytes of a number in that order. -/
def littleBytes : (count : Nat) → (number : Nat) → List Byte
  | 0, _ => []
  | count + 1, number => BitVec.ofNat 8 number :: littleBytes count (number / 256)

/-- The word at an address. -/
def word (mem : Mem) (p : Nat) : BitVec (8 * n) := BitVec.ofNat (8 * n) (littleEndian (mem.read p n))

/-- `imm(ptr)`. -/
def address (m : Machine n) (ptr : String) (imm : Int) : Nat := ((m.regs ptr).toNat + imm).toNat

/-- One instruction, in the form that `flush_pipeline` writes it out in. -/
def exec (ops : Opcodes n) (m : Machine n) (insn : Insn) : Machine n :=
  if insn.load then
    let loaded := word m.mem (m.address insn.src1 insn.imm)
    { m with regs := Function.update m.regs insn.dest (ops.binary insn.opcode (m.regs insn.dest) loaded) }
  else if insn.store then
    let p := m.address insn.dest insn.imm
    { m with mem := m.mem.write p (littleBytes n (ops.binary insn.opcode (word m.mem p) (m.regs insn.src1)).toNat) }
  else if insn.hasImm then
    let imm := BitVec.ofInt (8 * n) insn.imm
    { m with regs := Function.update m.regs insn.dest (ops.binary insn.opcode (m.regs insn.dest) imm) }
  else
    match insn.src2 with
    | some src2 =>
        { m with
          regs := Function.update m.regs insn.dest (ops.binary insn.opcode (m.regs insn.dest) (m.regs src2)) }
    | none => { m with regs := Function.update m.regs insn.dest (ops.unary insn.opcode (m.regs insn.dest)) }

/-- The emitted instructions, one after the other. -/
def run (ops : Opcodes n) (m : Machine n) (insns : List Insn) : Machine n := insns.foldl (exec ops) m

end Machine

/-! ### The ideal machine -/

/-- A change of one logical register that has a value. -/
def changeValue {n : Nat} (value : Nat → Option (BitVec (8 * n))) (reg : Nat)
    (change : BitVec (8 * n) → BitVec (8 * n)) : Option (Nat → Option (BitVec (8 * n))) := do
  let old ← value reg
  return Function.update value reg (some (change old))

/-- The calls on a machine with a register for each logical register. A temporary has no value until it is written
and after it is released, and a call that reads it then has no result. A word is never released: the generator stops
there. -/
def idealStep {n : Nat} (ops : Opcodes n) (value : Nat → Option (BitVec (8 * n))) :
    RegOp → Option (Nat → Option (BitVec (8 * n)))
  | .binop name reg1 reg2 => do
      let other ← value reg2
      changeValue value reg1 fun old => ops.binary name old other
  | .unop name reg => changeValue value reg (ops.unary name)
  | .ror dest shift => changeValue value dest fun old => ops.binary "ror" old (BitVec.ofInt (8 * n) shift.toInt)
  | .shl dest shift => changeValue value dest fun old => ops.binary "shl" old (BitVec.ofInt (8 * n) shift.toInt)
  | .shr dest shift => changeValue value dest fun old => ops.binary "shr" old (BitVec.ofInt (8 * n) shift.toInt)
  | .xorRc reg rc => changeValue value reg fun old => ops.binary "xor" old (BitVec.ofInt (8 * n) rc.toInt)
  | .move dest src => do
      let other ← value src
      return Function.update value dest (some other)
  | .moveImm dest imm => some (Function.update value dest (some (BitVec.ofInt (8 * n) imm.toInt)))
  | .addImm reg imm => changeValue value reg fun old => old + BitVec.ofInt (8 * n) imm.toInt
  | .release reg => some (Function.update value reg none)
  | .live _ | .spill _ | .acquire _ | .pin _ | .unpin _ => some value

/-! ### Start -/

/-- The opcodes that the generators use. -/
def x86Opcodes (n : Nat) : Opcodes n where
  binary := fun opcode x y =>
    match opcode with
    | "mov" => y
    | "add" => x + y
    | "sub" => x - y
    | "xor" => x ^^^ y
    | "and" => x &&& y
    | "or" => x ||| y
    | "ror" => x.rotateRight (y.toNat % (8 * n))
    | "shl" => x <<< (y.toNat % (8 * n))
    | "shr" => x >>> (y.toNat % (8 * n))
    | _ => x
  unary := fun opcode x =>
    match opcode with
    | "not" => ~~~x
    | "bswap" => BitVec.ofNat (8 * n) (Machine.littleEndian (Machine.littleBytes n x.toNat).reverse)
    | _ => x
  mov := fun _ _ => rfl
  add := fun _ _ => rfl
  sub := fun _ _ => rfl

/-- The slot of a declared word. -/
def RegDecl.home (stateReg stackReg : String) : RegDecl → Option (String × Nat)
  | .state _ offset => some (stateReg, offset)
  | .stack _ offset => some (stackReg, offset)
  | .temp _ => none

/-- What a generator starts from. No register is listed twice, the pointers are not in the list, and each word has
memory of its own. -/
structure X86Setup (n : Nat) where
  regList : List String
  nodup : regList.Nodup
  bounded : regList.length ≤ maxMachineRegs
  stateReg : String
  stackReg : String
  statePointer : stateReg ∉ regList
  stackPointer : stackReg ∉ regList
  decls : List RegDecl
  machine : Machine n
  apart : ∀ (i j : Nat) (s t : String × Nat), i ≠ j →
    (decls[i]?).bind (RegDecl.home stateReg stackReg) = some s →
    (decls[j]?).bind (RegDecl.home stateReg stackReg) = some t →
      machine.address s.1 s.2 + n ≤ machine.address t.1 t.2 ∨ machine.address t.1 t.2 + n ≤ machine.address s.1 s.2

namespace X86Setup

variable {n : Nat} (setup : X86Setup n)

/-- The slot of a logical register. -/
def home (i : Nat) : Option (String × Nat) := (setup.decls[i]?).bind (RegDecl.home setup.stateReg setup.stackReg)

/-- The allocator when every logical register is declared. -/
def declared (age : BitVec 64) : Except String Allocator :=
  setup.decls.foldlM Allocator.declare (Allocator.start setup.regList setup.stateReg setup.stackReg age)

/-- The values at the start: the words have what their slots hold, and the temporaries have none. -/
def values (i : Nat) : Option (BitVec (8 * n)) :=
  (setup.home i).map fun slot => Machine.word setup.machine.mem (setup.machine.address slot.1 slot.2)

end X86Setup

end AsconSuite
