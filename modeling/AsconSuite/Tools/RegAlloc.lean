/-
Module: AsconSuite.Tools.RegAlloc
Layer: Model
Purpose: The register allocator of `tools/common/reg_alloc.c`, which the generators of assembly code share, and the
  instruction list of `tools/genx86/x86_common.c` that it writes its loads and stores to.
Imports: Mathlib.Logic.Function.Basic
Trusted boundary: none
Main exports: Insn, Reg, Allocator, Allocator.liveNoload, Allocator.live, Allocator.spill, Allocator.acquire,
  Allocator.release, Allocator.getReal
-/
import Mathlib.Logic.Function.Basic

namespace AsconSuite

/-! ### Instructions -/

/-- `insn_t`. The flags for the size of the operands are the same in every instruction of a run and are left out, and
so are the requests to move an instruction. -/
structure Insn where
  opcode : String
  /-- `INSN_HAS_IMM`, `INSN_LOAD` and `INSN_STORE`. -/
  hasImm : Bool
  load : Bool
  store : Bool
  dest : String
  src1 : String
  src2 : Option String
  imm : Int
  deriving DecidableEq

/-! ### Logical registers -/

/-- `reg_t`. An offset of -1 is `none`. -/
structure Reg where
  name : String
  realReg : Option String
  stateOffset : Option Nat
  stackOffset : Option Nat
  isTemp : Bool
  isDirty : Bool
  pinned : Bool
  age : BitVec 64

/-- The slot of a word: the pointer register and the offset. -/
def Reg.home (reg : Reg) (stateReg stackReg : String) : Option (String × Nat) :=
  match reg.stateOffset with
  | some offset => some (stateReg, offset)
  | none => reg.stackOffset.map fun offset => (stackReg, offset)

/-- An entry of `regs` that is not in use. -/
def Reg.unused : Reg := ⟨"", none, none, none, false, false, false, 0⟩

/-- The static variables of the allocator, and the pipeline. A pipeline that is full is written out, which does not
change the order of the instructions. -/
structure Allocator where
  regList : List String
  allocated : Nat → Bool
  stateReg : String
  stackReg : String
  regs : Nat → Reg
  numRegs : Nat
  age : BitVec 64
  insns : List Insn

/-- `MAX_MACHINE_REGS`. -/
def maxMachineRegs : Nat := 64

/-- `MAX_ALLOC_REGS`. -/
def maxAllocRegs : Nat := 256

namespace Allocator

/-- `add_insn`. -/
def addInsn (a : Allocator) (insn : Insn) : Allocator := { a with insns := a.insns ++ [insn] }

/-- `load_machine`. -/
def loadMachine (a : Allocator) (reg ptr : String) (offset : Nat) : Allocator :=
  a.addInsn
    { opcode := "mov", hasImm := true, load := true, store := false
      dest := reg, src1 := ptr, src2 := none, imm := offset }

/-- `store_machine`. -/
def storeMachine (a : Allocator) (reg ptr : String) (offset : Nat) : Allocator :=
  a.addInsn
    { opcode := "mov", hasImm := true, load := false, store := true
      dest := ptr, src1 := reg, src2 := none, imm := offset }

/-! ### Assignments to a logical register -/

def modify (a : Allocator) (i : Nat) (change : Reg → Reg) : Allocator :=
  { a with regs := Function.update a.regs i (change (a.regs i)) }

/-- `reg->real_reg = real_reg`. -/
def setRealReg (a : Allocator) (i : Nat) (realReg : Option String) : Allocator :=
  a.modify i fun reg => { reg with realReg := realReg }

/-- `reg->is_dirty = is_dirty`. -/
def setDirty (a : Allocator) (i : Nat) (isDirty : Bool) : Allocator :=
  a.modify i fun reg => { reg with isDirty := isDirty }

/-- `reg->age = age++`. -/
def touch (a : Allocator) (i : Nat) : Allocator :=
  { a.modify i fun reg => { reg with age := a.age } with age := a.age + 1 }

/-- `dirty`. -/
def dirty (a : Allocator) (i : Nat) : Allocator := (a.setDirty i true).touch i

/-- `pin`. -/
def pin (a : Allocator) (i : Nat) : Allocator := a.modify i fun reg => { reg with pinned := true }

/-- `unpin`. -/
def unpin (a : Allocator) (i : Nat) : Allocator := a.modify i fun reg => { reg with pinned := false }

/-! ### Machine registers -/

/-- `try_allocate_reg`. -/
def tryAllocateReg (a : Allocator) : Option (String × Allocator) :=
  match (List.range a.regList.length).find? fun index => !a.allocated index with
  | some index =>
      (a.regList[index]?).map fun reg => (reg, { a with allocated := Function.update a.allocated index true })
  | none => none

/-- `allocate_reg`. -/
def allocateReg (a : Allocator) (name : String) : Except String (String × Allocator) :=
  match a.tryAllocateReg with
  | some allocation => .ok allocation
  | none => .error ("allocate_reg: cannot allocate a register for " ++ name)

/-- `release_reg`. -/
def releaseReg (a : Allocator) (name realReg : String) : Except String Allocator :=
  match a.regList.findIdx? (· == realReg) with
  | some index =>
      if a.allocated index then .ok { a with allocated := Function.update a.allocated index false }
      else .error ("release_reg: " ++ name ++ " is already released")
  | none => .error ("release_reg: " ++ realReg ++ " is not a valid register name")

/-! ### Moving words -/

/-- Where a word is stored when it is not live. -/
def home (a : Allocator) (i : Nat) : Option (String × Nat) := (a.regs i).home a.stateReg a.stackReg

/-- `spill`. -/
def spill (a : Allocator) (i : Nat) : Except String Allocator :=
  match a.home i with
  | none => .error ("spill: nowhere to spill the value for " ++ (a.regs i).name ++ " to")
  | some (ptr, offset) =>
      if (a.regs i).pinned then .ok (a.touch i)
      else
        match (a.regs i).realReg with
        | none => .ok (a.setDirty i false)
        | some realReg => do
            let stored := if (a.regs i).isDirty then a.storeMachine realReg ptr offset else a
            let released ← stored.releaseReg (a.regs i).name realReg
            return (released.setRealReg i none).setDirty i false

/-- The search for the oldest word in a register that can be given up. -/
def oldest (a : Allocator) : BitVec 64 × Option Nat :=
  (List.range a.numRegs).foldl (fun best index =>
    let reg := a.regs index
    if reg.realReg = none then best
    else if reg.pinned then best
    else if reg.isTemp then best
    else if reg.age < best.1 then (reg.age, some index)
    else best) (BitVec.allOnes 64, none)

/-- `reclaim`. -/
def reclaim (a : Allocator) : Except String Allocator :=
  match a.oldest.2 with
  | some index => a.spill index
  | none => .ok a

/-- A machine register for a logical one, after another one has been reclaimed when they have run out. -/
def allocateOrReclaim (a : Allocator) (name : String) : Except String (String × Allocator) :=
  match a.tryAllocateReg with
  | some allocation => .ok allocation
  | none => do
      let reclaimed ← a.reclaim
      reclaimed.allocateReg name

/-- `live_noload`. The result says whether a register has been allocated. -/
def liveNoload (a : Allocator) (i : Nat) : Except String (Bool × Allocator) :=
  match (a.regs i).realReg with
  | some _ => .ok (false, a.touch i)
  | none =>
      match a.home i with
      | none => .error ("live: nowhere to load the value for " ++ (a.regs i).name ++ " from")
      | some _ => do
          let (realReg, allocated) ← a.allocateOrReclaim (a.regs i).name
          return (true, (allocated.setRealReg i (some realReg)).touch i)

/-- `get_real`. -/
def getReal (a : Allocator) (i : Nat) : Except String String :=
  match (a.regs i).realReg with
  | some realReg => .ok realReg
  | none => .error ("get_real: " ++ (a.regs i).name ++ " is not allocated to a register")

/-- `live`. -/
def live (a : Allocator) (i : Nat) : Except String Allocator := do
  let (loads, reserved) ← a.liveNoload i
  if loads then
    let loaded :=
      match reserved.home i, (reserved.regs i).realReg with
      | some (ptr, offset), some realReg => reserved.loadMachine realReg ptr offset
      | _, _ => reserved  -- `liveNoload` has stopped without a place to load from.
    return (loaded.setDirty i false).touch i
  else return reserved.touch i

/-- `acquire`. -/
def acquire (a : Allocator) (i : Nat) : Except String Allocator :=
  if (a.regs i).isTemp then
    match (a.regs i).realReg with
    | some _ => .ok ((a.setDirty i true).touch i)
    | none => do
        let (realReg, allocated) ← a.allocateOrReclaim (a.regs i).name
        return ((allocated.setRealReg i (some realReg)).setDirty i true).touch i
  else .error ("acquire: " ++ (a.regs i).name ++ " is not a temporary")

/-- A temporary is moved back in age, so that it becomes more likely to be allocated next. -/
def retire (a : Allocator) (i : Nat) : Allocator := a.modify i fun reg => { reg with age := a.age - 8 }

/-- `release`. -/
def release (a : Allocator) (i : Nat) : Except String Allocator :=
  if (a.regs i).isTemp then
    match (a.regs i).realReg with
    | some realReg => do
        let freed ← a.releaseReg (a.regs i).name realReg
        return (freed.setRealReg i none).retire i
    | none => .ok (a.retire i)
  else .error ("release: " ++ (a.regs i).name ++ " is not a temporary")

/-! ### Setting up -/

/-- `start_allocator`. `age` is the counter as an earlier run has left it. -/
def start (regList : List String) (stateReg stackReg : String) (age : BitVec 64) : Allocator where
  regList := regList
  allocated := fun _ => false
  stateReg := stateReg
  stackReg := stackReg
  regs := fun _ => Reg.unused
  numRegs := 0
  age := age
  insns := []

/-- One of the `alloc_` functions, with its name for the error text. -/
def allocLogical (a : Allocator) (function : String) (reg : Reg) : Except String Allocator :=
  if maxAllocRegs ≤ a.numRegs then .error (function ++ ": too many logical registers")
  else .ok
    { a with
      regs := Function.update a.regs a.numRegs { reg with age := a.age }
      numRegs := a.numRegs + 1
      age := a.age + 1 }

/-- `alloc_state`. -/
def allocState (a : Allocator) (name : String) (offset : Nat) : Except String Allocator :=
  a.allocLogical "alloc_state" { Reg.unused with name := name, stateOffset := some offset }

/-- `alloc_stack`. -/
def allocStack (a : Allocator) (name : String) (offset : Nat) : Except String Allocator :=
  a.allocLogical "alloc_stack" { Reg.unused with name := name, stackOffset := some offset }

/-- `alloc_temp`. -/
def allocTemp (a : Allocator) (name : String) : Except String Allocator :=
  a.allocLogical "alloc_temp" { Reg.unused with name := name, isTemp := true }

end Allocator

end AsconSuite
