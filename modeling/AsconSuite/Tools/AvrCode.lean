/-
Module: AsconSuite.Tools.AvrCode
Layer: Model
Purpose: The code builder of `tools/genavr/code.h` and `tools/genavr/code.cpp`: the instructions of the AVR, the
  allocation of registers, and the members of `Code` that the generator of the permutation calls.
Imports: AsconSuite.Base.ByteWord
Trusted boundary: `unsigned char` arguments are numbers, reduced where the source converts to them
Main exports: Avr.InsnType, Avr.Insn, Avr.Reg, Avr.Code, Avr.Build, Avr.allocateReg, Avr.move, Avr.logxor, Avr.ldz,
  Avr.stz, Avr.rol, Avr.ror, Avr.label, Avr.compareAndLoop, Avr.prologuePermutationWithCount
-/
import AsconSuite.Base.ByteWord

namespace AsconSuite.Avr

open ByteWord

/-! ### Instructions -/

/-- `Insn::Type`. -/
inductive InsnType where
  | adc | add | adiw | and | andi | asr | bld | bst | brcc | brcs | breq | brne | call | com | cp | cpc | cpi | cpse
  | dec | eor | inc | jmp | label | ldX | ldY | ldZ | ldi | lpmSbox | lpmSetup | lpmSwitch | lpmAdjust | lpmClean
  | lsl | lsr | mov | movw | neg | nop | or | ori | pop | push | print | printch | println | ret | rol | ror | sbc
  | sub | sbci | subi | sbiw | stX | stY | stZ | swap
  deriving DecidableEq, Repr

/-- `Insn`. `value` and `offset` are the second register, `label` is the first one. -/
structure Insn where
  type : InsnType
  reg1 : Nat
  reg2 : Nat
  deriving DecidableEq, Repr

/-- `PRE_DEC`. -/
def preDec : Nat := 0xFE

/-- `POST_INC`. -/
def postInc : Nat := 0xFF

namespace Insn

/-- `Insn::value`. -/
def value (insn : Insn) : Nat := insn.reg2

/-- `Insn::label`. -/
def label (insn : Insn) : Nat := insn.reg1

/-- `Insn::offset`. -/
def offset (insn : Insn) : Nat := insn.reg2

/-- `Insn::reg1` with a type. -/
def ofReg1 (type : InsnType) (reg : Nat) : Except String Insn :=
  if 32 ≤ reg then throw "invalid register number" else return ⟨type, reg, 0⟩

/-- `Insn::reg2` with a type. -/
def ofReg2 (type : InsnType) (reg1 reg2 : Nat) : Except String Insn :=
  if 32 ≤ reg1 ∨ 32 ≤ reg2 then throw "invalid register number"
  else if type = .movw ∧ (reg1 % 2 ≠ 0 ∨ reg2 % 2 ≠ 0) then throw "not an even register number"
  else return ⟨type, reg1, reg2⟩

/-- `Insn::imm`. -/
def ofImm (type : InsnType) (reg value : Nat) : Except String Insn :=
  if reg < 16 ∨ 32 ≤ reg then throw "not a high register"
  else if (type = .adiw ∨ type = .sbiw) ∧ reg ≠ 24 ∧ reg ≠ 26 ∧ reg ≠ 28 ∧ reg ≠ 30 then
    throw "invalid register for word immediate"
  else return ⟨type, reg, value⟩

/-- `Insn::branch`. -/
def ofBranch (type : InsnType) (ref : Nat) : Insn := ⟨type, ref, 0⟩

/-- `Insn::memory`. -/
def ofMemory (type : InsnType) (reg offset : Nat) : Except String Insn :=
  if offset ≠ preDec ∧ offset ≠ postInc then
    if type = .ldX ∨ type = .stX then
      if offset ≠ 0 then throw "invalid X pointer offset" else return ⟨type, reg, offset⟩
    else if 64 ≤ offset then throw "invalid Y or Z pointer offset"
    else return ⟨type, reg, offset⟩
  else return ⟨type, reg, offset⟩

end Insn

/-! ### Registers of several bytes -/

/-- `Reg`: the numbers of the registers that hold the bytes, low byte first. -/
abbrev Reg := List Nat

namespace Reg

/-- `Reg::size`. -/
def size (reg : Reg) : Nat := reg.length

/-- `Reg::reg`. -/
def reg (r : Reg) (index : Nat) : Nat := r.getD index 0

/-- The constructor of `Reg` for `count` registers of another one from `offset` on, which wraps around. -/
def subset (other : Reg) (offset count : Nat) : Reg :=
  if other.size ≤ offset then []
  else
    let count := if count = 0xFF then other.size - offset else min count other.size
    (List.range count).map fun i => other.reg ((offset + i) % other.size)

/-- `Reg::reversed`. -/
def reversed (reg : Reg) : Reg := reg.reverse

end Reg

/-- `TEMP_REG`. -/
def tempRegNumber : Nat := 0

/-- `ZERO_REG`. -/
def zeroRegNumber : Nat := 1

/-! ### The code block -/

/-- `Code`. What only the output of the code reads, such as the name of the function and the set of the registers that
were used, is left out. -/
structure Code where
  insns : List Insn
  labels : List Int
  regOrder : List Nat
  allocated : BitVec 32
  immRegs : BitVec 32
  flags : BitVec 32
  immValues : Nat → Nat
  immCount : Nat
  localsSize : Nat
  sboxes : List (Nat × List Byte)

/-- `Code::MoveWord`. -/
def moveWord : BitVec 32 := 0x0001#32

/-- `Code::TempX`. -/
def tempX : BitVec 32 := 0x0002#32

/-- `Code::TempY`. -/
def tempY : BitVec 32 := 0x0004#32

/-- `Code::TempZ`. -/
def tempZ : BitVec 32 := 0x0008#32

/-- `Code::NoLocals`. -/
def noLocals : BitVec 32 := 0x0020#32

/-- `Code::TempR0`. -/
def tempR0 : BitVec 32 := 0x0040#32

/-- `Code::TempR1`. -/
def tempR1 : BitVec 32 := 0x0080#32

namespace Code

/-- `Code::hasFlag`. -/
def hasFlag (code : Code) (flag : BitVec 32) : Bool := code.flags &&& flag == flag

/-- `Code::resetRegs`. -/
def resetRegs (code : Code) : Code :=
  { code with
    regOrder := [18, 19, 20, 21, 22, 23] ++
      (if code.hasFlag tempX then [26, 27] else []) ++
      (if code.hasFlag tempY then [28, 29] else []) ++
      (if code.hasFlag tempZ then [30, 31] else []) ++
      [2, 3, 4, 5, 6, 7, 8, 9, 10, 11, 12, 13, 14, 15] ++
      [24, 25, 16, 17] ++
      (if code.hasFlag tempR1 then [1] else []) ++
      (if code.hasFlag tempR0 then [0] else []) }

/-- The constructor of `Code`, which clears it. -/
def new : Code :=
  resetRegs
    { insns := [], labels := [], regOrder := [], allocated := 0#32, immRegs := 0#32, flags := moveWord
      immValues := fun _ => 0, immCount := 0, localsSize := 0, sboxes := [] }

/-- `Code::setFlag`. -/
def setFlag (code : Code) (flag : BitVec 32) : Code := resetRegs { code with flags := code.flags ||| flag }

/-- `Code::getLabel`. -/
def getLabel (code : Code) (ref : Nat) : Except String Nat :=
  if ref < 1 ∨ code.labels.length < ref then throw "invalid label reference"
  else
    match code.labels.getD (ref - 1) (-1) with
    | .ofNat offset => return offset
    | .negSucc _ => throw "label is not set"

/-- `Code::sbox_get`. -/
def sboxGet (code : Code) (num : Nat) : Except String (List Byte) :=
  match code.sboxes.lookup num with
  | some sbox => return sbox
  | none => throw "map::at"

end Code

/-- A member of `Code` that may throw. -/
abbrev Build := StateT Code (Except String)

/-! ### Single instructions -/

/-- Append an instruction. -/
def pushInsn (insn : Insn) : Build Unit := modify fun code => { code with insns := code.insns ++ [insn] }

/-- Append an instruction that its constructor may refuse. -/
def pushChecked (insn : Except String Insn) : Build Unit := do
  let insn ← insn
  pushInsn insn

/-- `Code::branch`. The result is the reference that the caller has from then on. -/
def branch (type : InsnType) (ref : Nat) : Build Nat := do
  modify fun code => { code with immRegs := 0#32, immCount := 0 }
  let code ← get
  if ref = 0 then
    let offset : Int := if type = .label then code.insns.length else -1
    set { code with labels := code.labels ++ [offset] }
    let ref := (code.labels.length + 1) % 256
    pushInsn (Insn.ofBranch type ref)
    return ref
  else if type = .label then
    if code.labels.length < ref then throw "invalid label reference"
    else if code.labels.getD (ref - 1) (-1) ≠ -1 then throw "label specified multiple times"
    else
      set { code with labels := code.labels.set (ref - 1) code.insns.length }
      pushInsn (Insn.ofBranch type ref)
      return ref
  else if code.labels.length < ref then throw "invalid label reference"
  else
    pushInsn (Insn.ofBranch type ref)
    return ref

/-- `Code::label`. -/
def label (ref : Nat) : Build Nat := branch .label ref

/-- `Code::jmp`. -/
def jmp (ref : Nat) : Build Nat := branch .jmp ref

/-- `Code::brne`. -/
def brne (ref : Nat) : Build Nat := branch .brne ref

/-- `Code::onereg`. -/
def onereg (type : InsnType) (reg : Nat) : Build Unit := pushChecked (Insn.ofReg1 type reg)

/-- `Code::tworeg`. -/
def tworeg (type : InsnType) (reg1 reg2 : Nat) : Build Unit := pushChecked (Insn.ofReg2 type reg1 reg2)

/-- `Code::bitop`. -/
def bitop (type : InsnType) (reg bit : Nat) : Build Unit := pushChecked (Insn.ofReg2 type reg bit)

/-- `Code::immreg`. -/
def immreg (type : InsnType) (reg value : Nat) : Build Unit := pushChecked (Insn.ofImm type reg (value % 256))

/-- `Code::memory`. -/
def memory (type : InsnType) (reg offset : Nat) : Build Unit := pushChecked (Insn.ofMemory type reg (offset % 256))

/-! ### Allocation of registers -/

/-- Is a register in a set of registers? -/
def inRegs (regs : BitVec 32) (reg : Nat) : Bool := regs.getLsbD reg

/-- The bit of a register. -/
def regBit (reg : Nat) : BitVec 32 := 1#32 <<< reg

/-- `Code::releaseReg`. -/
def releaseReg (reg : Reg) : Build Unit :=
  modify fun code => { code with allocated := reg.foldl (fun regs r => regs &&& ~~~regBit r) code.allocated }

/-- `Code::allocateSpare`. No free register is `none`. -/
def allocateSpare (high : Bool) : Build (Option Nat) := do
  let code ← get
  match code.regOrder.find? fun reg => !inRegs code.allocated reg && !(high && decide (reg < 16)) with
  | none => return none
  | some reg =>
      set { code with
        allocated := code.allocated ||| regBit reg
        immRegs := code.immRegs &&& ~~~regBit reg }
      return some reg

/-- `Code::allocateSparePair`. No free pair is `none`. -/
def allocateSparePair (high : Bool) : Build (Option Nat) := do
  let code ← get
  let pairs := code.regOrder.zip code.regOrder.tail
  let free := pairs.find? fun (reg1, reg2) =>
    reg1 % 2 == 0 && reg2 == reg1 + 1 && !inRegs code.allocated reg1 && !inRegs code.allocated reg2 &&
      !(high && decide (reg1 < 16))
  match free with
  | none => return none
  | some (reg1, reg2) =>
      set { code with
        allocated := code.allocated ||| (regBit reg1 ||| regBit reg2)
        immRegs := code.immRegs &&& ~~~(regBit reg1 ||| regBit reg2) }
      return some reg1

/-- The loop of `Code::allocateRegInternal`. Each of its turns finds a register or ends it; `turns` bounds the turns
that are left. -/
def allocateRegLoop (high optional : Bool) : (turns size : Nat) → (result : Reg) → Build Reg
  | 0, _, result => return result
  | turns + 1, size, result => do
      if size = 0 then return result
      let pair ← if result.size % 2 = 0 ∧ 2 ≤ size then allocateSparePair high else pure none
      match pair with
      | some reg => allocateRegLoop high optional turns (size - 2) (result ++ [reg, reg + 1])
      | none =>
          match ← allocateSpare high with
          | some reg => allocateRegLoop high optional turns (size - 1) (result ++ [reg])
          | none => if optional then return result else throw "too many registers in use"

/-- `Code::allocateRegInternal`. -/
def allocateRegInternal (size : Nat) (high optional : Bool) : Build Reg := allocateRegLoop high optional size size []

/-- `Code::allocateReg`. -/
def allocateReg (size : Nat) : Build Reg := allocateRegInternal size false false

/-- `Code::allocateHighReg`. -/
def allocateHighReg (size : Nat) : Build Reg := allocateRegInternal size true false

/-- `Code::allocateOptionalReg`. -/
def allocateOptionalReg (size : Nat) : Build Reg := allocateRegInternal size false true

/-- Load an immediate value into a register of `Code::immtemp`. -/
def setImmtemp (reg value : Nat) : Build Nat := do
  modify fun code => { code with
    immRegs := code.immRegs ||| regBit reg
    immValues := fun i => if i = reg - 16 then value else code.immValues i }
  immreg .ldi reg value
  return reg

/-- The registers that `Code::immtemp` goes through. -/
def highRegs : List Nat := (List.range 16).map (16 + ·)

/-- `Code::immtemp`. -/
def immtemp (value : Nat) : Build Nat := do
  let code ← get
  let holder := highRegs.find? fun index =>
    inRegs code.immRegs index && code.immValues (index - 16) == value
  match holder with
  | some index => return index
  | none =>
      let reused := if 4 ≤ code.immCount then highRegs.find? (inRegs code.immRegs) else none
      match reused with
      | some index => setImmtemp index value
      | none =>
          let fresh := highRegs.reverse.find? fun index =>
            code.regOrder.contains index && !inRegs code.allocated index && !inRegs code.immRegs index
          match fresh with
          | some index => setImmtemp index value
          | none =>
              match ← allocateSpare true with
              | none => throw "too many registers in use"
              | some reg =>
                  modify fun code => { code with allocated := code.allocated &&& ~~~regBit reg }
                  setImmtemp reg value

/-- `Code::tempreg`. -/
def tempreg : Build Nat := do
  let code ← get
  if !code.hasFlag tempR0 || !inRegs code.allocated tempRegNumber then return tempRegNumber
  else
    let reg ← allocateReg 1
    releaseReg reg
    return reg.reg 0

/-- `Code::have_tempreg`. -/
def haveTempreg : Build Bool := do
  let code ← get
  if !code.hasFlag tempR0 || !inRegs code.allocated tempRegNumber then return true
  else
    let reg ← allocateOptionalReg 1
    releaseReg reg
    return reg.size != 0

/-! ### Memory -/

/-- `Code::add_ptr`. -/
def addPtr (reg : Nat) (offset : Int) : Build Unit := do
  let code ← get
  if offset = 0 then return
  else if 0 < offset ∧ offset ≤ 63 ∧ code.hasFlag moveWord then immreg .adiw reg offset.toNat
  else if offset < 0 ∧ -63 ≤ offset ∧ code.hasFlag moveWord then immreg .sbiw reg (-offset).toNat
  else
    let back := -offset
    let low := (back % 256).toNat
    let high := (back / 256 % 256).toNat
    if low ≠ 0 then
      immreg .subi reg low
      if high ≠ 0 ∨ code.hasFlag tempR1 then immreg .sbci (reg + 1) high
      else tworeg .sbc (reg + 1) zeroRegNumber
    else immreg .subi (reg + 1) high

/-- The accesses of `Code::ld_st_long` behind a pointer that was moved to the first byte. -/
def ldStMoved (reg : Reg) (type : InsnType) : Build Unit := do
  (List.range (reg.size - 1)).forM fun index => memory type (reg.reg index) postInc
  memory type (reg.reg (reg.size - 1)) 0

/-- `Code::ld_st_long`. -/
def ldStLong (reg : Reg) (type : InsnType) (offset : Nat) : Build Unit := do
  let back : Int := -((offset + reg.size - 1 : Nat) : Int)
  if reg.size = 0 then return
  else if type = .ldX ∧ (offset ≠ 0 ∨ 1 < reg.size) then
    addPtr 26 offset
    ldStMoved reg type
    addPtr 26 back
  else if offset + reg.size ≤ 64 then
    (List.range reg.size).forM fun index => memory type (reg.reg index) (offset + index)
  else
    let pointer := if type = .ldY ∨ type = .stY then 28 else 30
    addPtr pointer offset
    ldStMoved reg type
    addPtr pointer back

/-- `Code::ld_st`. -/
def ldSt (reg : Reg) (type : InsnType) (offset : Nat) : Build Unit :=
  if offset = preDec then reg.reverse.forM fun r => memory type r preDec
  else if offset = postInc then reg.forM fun r => memory type r postInc
  else ldStLong reg type offset

/-- `Code::ldz`. -/
def ldz (reg : Reg) (offset : Nat) : Build Unit := ldSt reg .ldZ (offset % 256)

/-- `Code::stz`. -/
def stz (reg : Reg) (offset : Nat) : Build Unit := ldSt reg .stZ (offset % 256)

/-! ### Moves -/

/-- `Code::zeroreg` with its default argument. -/
def zeroreg (reg : Nat) : Build Unit := do
  let code ← get
  if !code.hasFlag tempR1 then tworeg .mov reg zeroRegNumber
  else if 16 ≤ reg then immreg .ldi reg 0
  else tworeg .eor reg reg

/-- `isRegPair`. -/
def isRegPair (reg : Reg) (index : Nat) : Bool :=
  decide (index + 1 < reg.size) && reg.reg index % 2 == 0 && reg.reg (index + 1) == reg.reg index + 1

/-- `isRevRegPair`. -/
def isRevRegPair (reg : Reg) (index : Nat) : Bool :=
  decide (index + 1 < reg.size) && reg.reg index % 2 != 0 && reg.reg (index + 1) == reg.reg index - 1

/-- The loop of `Code::move` for the bytes that both registers have. `turns` bounds the turns that are left. -/
def moveLoop (reg1 reg2 : Reg) (minsize : Nat) : (turns index : Nat) → Build Nat
  | 0, index => return index
  | turns + 1, index => do
      let code ← get
      if minsize ≤ index then return index
      else if reg1.reg index = reg2.reg index then moveLoop reg1 reg2 minsize turns (index + 1)
      else if isRegPair reg1 index && isRegPair reg2 index && code.hasFlag moveWord then
        tworeg .movw (reg1.reg index) (reg2.reg index)
        moveLoop reg1 reg2 minsize turns (index + 2)
      else if isRevRegPair reg1 index && isRevRegPair reg2 index && code.hasFlag moveWord then
        tworeg .movw (reg1.reg index - 1) (reg2.reg index - 1)
        moveLoop reg1 reg2 minsize turns (index + 2)
      else
        tworeg .mov (reg1.reg index) (reg2.reg index)
        moveLoop reg1 reg2 minsize turns (index + 1)

/-- `Code::move` for two registers. -/
def move (reg1 reg2 : Reg) (zeroFill : Bool) : Build Unit := do
  let minsize := min reg1.size reg2.size
  let index ← moveLoop reg1 reg2 minsize minsize 0
  if zeroFill then (reg1.drop index).forM zeroreg

/-- `Code::move` for an immediate value. -/
def moveImm : (reg1 : Reg) → (value : Nat) → Build Unit
  | [], _ => return
  | reg :: rest, value => do
      let code ← get
      let bvalue := value % 256
      if bvalue = 0 ∧ !code.hasFlag tempR1 then tworeg .mov reg zeroRegNumber
      else if 16 ≤ reg then immreg .ldi reg bvalue
      else
        let highReg ← immtemp bvalue
        tworeg .mov reg highReg
      moveImm rest (value >>> 8)

/-! ### Logical operations -/

/-- Apply an instruction to the bytes that two registers have in common. -/
def bytewise (type : InsnType) (reg1 reg2 : Reg) : Build Unit :=
  (reg1.zip reg2).forM fun (r1, r2) => tworeg type r1 r2

/-- `Code::logand` for two registers. -/
def logand (reg1 reg2 : Reg) : Build Unit := do
  bytewise .and reg1 reg2
  (reg1.drop reg2.size).forM zeroreg

/-- `Code::logor` for two registers. -/
def logor (reg1 reg2 : Reg) : Build Unit := bytewise .or reg1 reg2

/-- `Code::logxor` for two registers. -/
def logxor (reg1 reg2 : Reg) : Build Unit := bytewise .eor reg1 reg2

/-- `Code::lognot` for one register. -/
def lognot (reg : Reg) : Build Unit := reg.forM (onereg .com)

/-! ### Subtraction and comparison -/

/-- The bytes of `Code::sub` behind the first one. -/
def sbcBytes : (reg1 reg2 : Reg) → Build Unit
  | [], _ => return
  | r1 :: rest1, r2 :: rest2 => do
      tworeg .sbc r1 r2
      sbcBytes rest1 rest2
  | r1 :: rest1, [] => do
      let code ← get
      if !code.hasFlag tempR1 then tworeg .sbc r1 zeroRegNumber
      else
        let highReg ← immtemp 0
        tworeg .sbc r1 highReg
      sbcBytes rest1 []

/-- `Code::sub` for two registers. -/
def sub : (reg1 reg2 : Reg) → Build Unit
  | _, [] => return
  | [], _ => return
  | r1 :: rest1, r2 :: rest2 => do
      tworeg .sub r1 r2
      sbcBytes rest1 rest2

/-- The loop of `Code::sub` for an immediate value. -/
def subImmLoop (size : Nat) : (reg1 : Reg) → (value : Nat) → (haveCarry : Bool) → Build Unit
  | [], _, _ => return
  | reg :: rest, value, haveCarry => do
      let code ← get
      let bvalue := value % 256
      if bvalue = 0 then
        if haveCarry then
          if !code.hasFlag tempR1 then tworeg .sbc reg zeroRegNumber
          else
            let highReg ← immtemp 0
            tworeg .sbc reg highReg
        subImmLoop size rest (value >>> 8) haveCarry
      else
        if bvalue = 1 ∧ !haveCarry ∧ size = 1 then onereg .dec reg
        else if 16 ≤ reg then immreg (if haveCarry then .sbci else .subi) reg bvalue
        else
          let highReg ← immtemp bvalue
          tworeg (if haveCarry then .sbc else .sub) reg highReg
        subImmLoop size rest (value >>> 8) true

/-- `Code::sub` for an immediate value. -/
def subImm (reg1 : Reg) (value : Nat) (carryIn : Bool) : Build Unit := subImmLoop reg1.size reg1 value carryIn

/-- The bytes of `Code::compare` behind the first one. -/
def compareImmRest : (reg1 : Reg) → (value : Nat) → Build Unit
  | [], _ => return
  | reg :: rest, value => do
      let code ← get
      let bvalue := value % 256
      if bvalue = 0 ∧ !code.hasFlag tempR1 then tworeg .cpc reg zeroRegNumber
      else
        let highReg ← immtemp bvalue
        tworeg .cpc reg highReg
      compareImmRest rest (value >>> 8)

/-- `Code::compare` for an immediate value. -/
def compareImm : (reg1 : Reg) → (value : Nat) → Build Unit
  | [], _ => return
  | reg :: rest, value => do
      let code ← get
      let bvalue := value % 256
      if bvalue = 0 ∧ !code.hasFlag tempR1 then tworeg .cp reg zeroRegNumber
      else if 16 ≤ reg then immreg .cpi reg bvalue
      else
        let highReg ← immtemp bvalue
        tworeg .cp reg highReg
      compareImmRest rest (value >>> 8)

/-- `Code::compare_and_loop`. -/
def compareAndLoop (reg1 : Reg) (value : Nat) (ref : Nat) : Build Nat := do
  if reg1.size = 1 then
    let code ← get
    let closeBy ← if ref = 0 then pure false else do
      let offset ← code.getLabel ref
      pure (decide (code.insns.length - offset ≤ 50))
    if value = 0 ∧ closeBy ∧ !code.hasFlag tempR1 then
      tworeg .cp (reg1.reg 0) zeroRegNumber
      brne ref
    else if 16 ≤ reg1.reg 0 ∧ closeBy then
      immreg .cpi (reg1.reg 0) value
      brne ref
    else if value = 0 ∧ !code.hasFlag tempR1 then
      tworeg .cpse (reg1.reg 0) zeroRegNumber
      jmp ref
    else
      let highReg ← immtemp (value % 256)
      tworeg .cpse (reg1.reg 0) highReg
      jmp ref
  else
    compareImm reg1 value
    brne ref

/-! ### Rotations -/

/-- Keep a byte in a temporary register or on the stack. -/
def saveByte (temp : Option Nat) (reg : Nat) : Build Unit :=
  match temp with
  | some temp => tworeg .mov temp reg
  | none => onereg .push reg

/-- Take a byte back from where `saveByte` keeps it. -/
def restoreByte (temp : Option Nat) (reg : Nat) : Build Unit :=
  match temp with
  | some temp => tworeg .mov reg temp
  | none => onereg .pop reg

/-- The temporary registers for a rotation by `count` bytes, as many as there are. -/
def rotationTemps (count : Nat) : Build Reg := do
  let code ← get
  if !code.hasFlag tempR0 then
    let temp ← allocateOptionalReg (count - 1)
    return temp ++ [tempRegNumber]
  else allocateOptionalReg count

/-- The temporary register for a rotation in strips. -/
def stripTemp : Build (Option Nat) := do
  if ← haveTempreg then
    let temp ← tempreg
    return some temp
  else return none

/-- `Code::rol_bytes` for at most half of the bytes. -/
def rolBytesHalf (reg : Reg) (count : Nat) : Build Unit := do
  if reg.size % count = 0 then
    let stripLen := reg.size / count
    let temp ← stripTemp
    (List.range count).forM fun strip => do
      saveByte temp (reg.reg ((strip + (stripLen - 1) * count) % reg.size))
      (List.range (stripLen - 1)).reverse.forM fun posn =>
        tworeg .mov (reg.reg ((strip + (posn + 1) * count) % reg.size))
          (reg.reg ((strip + posn * count) % reg.size))
      restoreByte temp (reg.reg strip)
  else
    let temp ← rotationTemps count
    (List.range count).forM fun index => saveByte temp[index]? (reg.reg (reg.size - count + index))
    (List.range (reg.size - count)).reverse.forM fun index =>
      tworeg .mov (reg.reg (index + count)) (reg.reg index)
    (List.range count).reverse.forM fun index => restoreByte temp[index]? (reg.reg index)
    releaseReg temp

/-- `Code::ror_bytes` for at most half of the bytes. -/
def rorBytesHalf (reg : Reg) (count : Nat) : Build Unit := do
  if reg.size % count = 0 then
    let stripLen := reg.size / count
    let temp ← stripTemp
    (List.range count).forM fun strip => do
      saveByte temp (reg.reg strip)
      (List.range (stripLen - 1)).forM fun posn =>
        tworeg .mov (reg.reg ((strip + posn * count) % reg.size))
          (reg.reg ((strip + (posn + 1) * count) % reg.size))
      restoreByte temp (reg.reg ((strip + (stripLen - 1) * count) % reg.size))
  else
    let temp ← rotationTemps count
    (List.range count).forM fun index => saveByte temp[index]? (reg.reg index)
    (List.range (reg.size - count)).forM fun index => tworeg .mov (reg.reg index) (reg.reg (index + count))
    (List.range count).reverse.forM fun index => restoreByte temp[index]? (reg.reg (reg.size - count + index))
    releaseReg temp

/-- `Code::rol_bytes`. More than half of the bytes go the other way. -/
def rolBytes (reg : Reg) (count : Nat) : Build Unit :=
  if reg.size = 0 then return
  else if count % reg.size = 0 then return
  else if reg.size / 2 < count % reg.size then rorBytesHalf reg (reg.size - count % reg.size)
  else rolBytesHalf reg (count % reg.size)

/-- `Code::ror_bytes`. More than half of the bytes go the other way. -/
def rorBytes (reg : Reg) (count : Nat) : Build Unit :=
  if reg.size = 0 then return
  else if count % reg.size = 0 then return
  else if reg.size / 2 < count % reg.size then rolBytesHalf reg (reg.size - count % reg.size)
  else rorBytesHalf reg (count % reg.size)

/-- A rotation by more than half of the bytes is the call of the other function that the source makes. -/
theorem rolBytes_of_half_lt {reg : Reg} {count : Nat} (far : reg.size / 2 < count % reg.size) :
    rolBytes reg count = rorBytes reg (reg.size - count % reg.size) := by
  rcases Nat.eq_zero_or_pos reg.size with empty | some_byte
  · rw [rolBytes, rorBytes, if_pos empty, if_pos empty]
  · have below := Nat.mod_lt count some_byte
    have rest : (reg.size - count % reg.size) % reg.size = reg.size - count % reg.size :=
      Nat.mod_eq_of_lt (by omega)
    rw [rolBytes, rorBytes, if_neg (by omega), if_neg (by omega), if_pos far, if_neg (by omega), rest,
      if_neg (by omega), if_neg (by omega)]

/-- The other direction. -/
theorem rorBytes_of_half_lt {reg : Reg} {count : Nat} (far : reg.size / 2 < count % reg.size) :
    rorBytes reg count = rolBytes reg (reg.size - count % reg.size) := by
  rcases Nat.eq_zero_or_pos reg.size with empty | some_byte
  · rw [rolBytes, rorBytes, if_pos empty, if_pos empty]
  · have below := Nat.mod_lt count some_byte
    have rest : (reg.size - count % reg.size) % reg.size = reg.size - count % reg.size :=
      Nat.mod_eq_of_lt (by omega)
    rw [rorBytes, rolBytes, if_neg (by omega), if_neg (by omega), if_pos far, if_neg (by omega), rest,
      if_neg (by omega), if_neg (by omega)]

/-- Shift the bytes left by one bit, the carry bit going from byte to byte. -/
def shiftLeft : Reg → Build Unit
  | [] => return
  | low :: rest => do
      onereg .lsl low
      rest.forM (onereg .rol)

/-- Shift the bytes right by one bit, the carry bit going from byte to byte. -/
def shiftRight (reg : Reg) : Build Unit :=
  match reg.reversed with
  | [] => return
  | high :: rest => do
      onereg .lsr high
      rest.forM (onereg .ror)

/-- `Code::rol` for one bit. -/
def rolBit (reg : Reg) : Build Unit := do
  let code ← get
  if !code.hasFlag tempR1 then
    shiftLeft reg
    tworeg .adc (reg.reg 0) zeroRegNumber
  else
    bitop .bst (reg.reg (reg.size - 1)) 7
    shiftLeft reg
    bitop .bld (reg.reg 0) 0

/-- `Code::ror` for one bit. -/
def rorBit (reg : Reg) : Build Unit := do
  bitop .bst (reg.reg 0) 0
  shiftRight reg
  bitop .bld (reg.reg (reg.size - 1)) 7

/-- The end of `Code::rol` for two to four bits. -/
def rolBits (reg : Reg) : (bits : Nat) → Build Unit
  | 0 => return
  | bits + 1 => do
      rolBit reg
      rolBits reg bits

/-- `Code::ror` bit by bit. -/
def rorBitByBit (reg : Reg) : (bits : Nat) → Build Unit
  | 0 => return
  | bits + 1 => do
      rorBit reg
      rorBitByBit reg bits

/-- The bits that `Code::ror` shifts out, kept in a register. -/
def rorInto (reg : Reg) (tempReg : Nat) : (bits : Nat) → Build Unit
  | 0 => return
  | bits + 1 => do
      shiftRight reg
      onereg .ror tempReg
      rorInto reg tempReg bits

/-- The end of `Code::ror` for two to four bits. -/
def rorBits (reg : Reg) (bits : Nat) : Build Unit := do
  if ← haveTempreg then
    let tempReg ← tempreg
    zeroreg tempReg
    rorInto reg tempReg bits
    tworeg .or (reg.reg (reg.size - 1)) tempReg
  else rorBitByBit reg bits

/-- `Code::rol` for at most four bits. -/
def rolFew (reg : Reg) (bits : Nat) : Build Unit :=
  if bits = 0 ∨ reg.size = 0 then return
  else if bits = 1 then rolBit reg
  else if bits = 4 ∧ reg.size = 1 then onereg .swap (reg.reg 0)
  else rolBits reg bits

/-- `Code::ror` for at most four bits. -/
def rorFew (reg : Reg) (bits : Nat) : Build Unit :=
  if bits = 0 ∨ reg.size = 0 then return
  else if bits = 1 then rorBit reg
  else if bits = 4 ∧ reg.size = 1 then onereg .swap (reg.reg 0)
  else rorBits reg bits

/-- `Code::rol`. Five to seven bits go the other way. -/
def rol (reg : Reg) (bits : Nat) : Build Unit := do
  if bits = 0 ∨ reg.size = 0 then return
  else if bits = 1 then rolBit reg
  else if bits % 8 = 0 then rolBytes reg (bits / 8)
  else if bits = 4 ∧ reg.size = 1 then onereg .swap (reg.reg 0)
  else if bits % 8 ≤ 4 then
    rolBytes reg (bits / 8)
    rolBits reg (bits % 8)
  else
    rolBytes reg (bits / 8 + 1)
    rorFew reg (8 - bits % 8)

/-- `Code::ror`. Five to seven bits go the other way. -/
def ror (reg : Reg) (bits : Nat) : Build Unit := do
  if bits = 0 ∨ reg.size = 0 then return
  else if bits = 1 then rorBit reg
  else if bits % 8 = 0 then rorBytes reg (bits / 8)
  else if bits = 4 ∧ reg.size = 1 then onereg .swap (reg.reg 0)
  else if bits % 8 ≤ 4 then
    rorBytes reg (bits / 8)
    rorBits reg (bits % 8)
  else
    rorBytes reg (bits / 8 + 1)
    rolFew reg (8 - bits % 8)

/-- The few bits of `Code::rol` go through the function itself, as in the source. -/
theorem rolFew_eq_rol (reg : Reg) {bits : Nat} (few : bits ≤ 4) : rolFew reg bits = rol reg bits := by
  have none : ∀ reg : Reg, rolBytes reg 0 = (return : Build Unit) := fun reg => by
    rw [rolBytes, Nat.zero_mod, if_pos rfl, ite_self]
  have small : bits < 8 := by omega
  rw [rolFew, rol, Nat.mod_eq_of_lt small, Nat.div_eq_of_lt small, none, pure_bind]
  split
  · rfl
  · rw [if_neg (by omega : ¬ bits = 0)]

/-- The few bits of `Code::ror` go through the function itself, as in the source. -/
theorem rorFew_eq_ror (reg : Reg) {bits : Nat} (few : bits ≤ 4) : rorFew reg bits = ror reg bits := by
  have none : ∀ reg : Reg, rorBytes reg 0 = (return : Build Unit) := fun reg => by
    rw [rorBytes, Nat.zero_mod, if_pos rfl, ite_self]
  have small : bits < 8 := by omega
  rw [rorFew, ror, Nat.mod_eq_of_lt small, Nat.div_eq_of_lt small, none, pure_bind]
  split
  · rfl
  · rw [if_neg (by omega : ¬ bits = 0)]

/-! ### Prologue -/

/-- `Code::prologue_permutation`. -/
def prologuePermutation (sizeLocals : Nat) : Build Unit :=
  modify fun code => { code with localsSize := sizeLocals }.setFlag tempX

/-- `Code::prologue_permutation_with_count`. -/
def prologuePermutationWithCount (sizeLocals : Nat) : Build Reg := do
  prologuePermutation sizeLocals
  modify fun code => { code with allocated := code.allocated ||| regBit 22 }
  return [22]

end AsconSuite.Avr
