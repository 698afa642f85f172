/-
Module: AsconSuite.Tools.AvrSession
Layer: Model
Purpose: The members of `Code` in `tools/genavr/code.cpp` that hand out registers of the caller's choice, arguments and
  return values, and sequences of calls of the members that a generator is made of.
Imports: AsconSuite.Tools.AvrInterpret
Trusted boundary: `emit` stands for any instruction that a member for arithmetic or logical operations emits
Main exports: Avr.PrologueType, Avr.allocateExplicitReg, Avr.arg, Avr.returnValue, Avr.Call, Avr.Session, Avr.Runs
-/
import AsconSuite.Tools.AvrInterpret

namespace AsconSuite.Avr

/-! ### Explicit registers -/

/-- `Code::PrologueType`. -/
inductive PrologueType where
  | encryptBlock | encryptBlockKey2 | keySetup | keySetupReversed | permutation | permutationMasked | tinyJAMBU
  deriving DecidableEq, Repr

/-- `Code::allocateExplicitReg`, and `Code::explicitReg`. -/
def allocateExplicitReg : (firstReg size : Nat) → Build Reg
  | _, 0 => return []
  | firstReg, size + 1 => do
      let code ← get
      if inRegs code.allocated firstReg then throw "arg/return register already in use"
      else
        set { code with allocated := code.allocated ||| regBit firstReg }
        let rest ← allocateExplicitReg (firstReg + 1) size
        return firstReg :: rest

/-- `rounded_size` of `Code::arg` and `Code::return_value`. -/
def roundedSize (size : Nat) : Nat := (size + 1) / 2 * 2

/-- The registers below `r26` that `Code::arg` leaves to the parameters of a prologue. -/
def parameterSize (type : PrologueType) (code : Code) : Nat :=
  match type with
  | .encryptBlock | .encryptBlockKey2 | .permutationMasked => 6
  | .keySetup | .keySetupReversed => 4
  | .permutation => if inRegs code.allocated 22 then 4 else 2
  | .tinyJAMBU => 8

/-- `first_reg` of `Code::arg`, as an `unsigned char`. -/
def argRegister (type : PrologueType) (code : Code) (size : Nat) : Nat :=
  ((26 - parameterSize type code - roundedSize size : Int) % 256).toNat

/-- `Code::arg`. -/
def arg (type : PrologueType) (size : Nat) : Build Reg := do
  let code ← get
  allocateExplicitReg (argRegister type code size) size

/-- `first_reg` of `Code::return_value`, as an `unsigned char`. -/
def returnRegister (size : Nat) : Nat := ((26 - roundedSize size : Int) % 256).toNat

/-- `Code::return_value`. -/
def returnValue (size : Nat) : Build Reg := allocateExplicitReg (returnRegister size) size

/-- `Code::ret`. -/
def ret : Build Unit := do
  modify fun code => { code with immRegs := 0#32, immCount := 0 }
  pushInsn ⟨.ret, 0, 0⟩

/-- The end of `Code::compare_and_loop` for a loop that is far away: a comparison that skips a jump. -/
def compareSkip (reg1 reg2 ref : Nat) : Build Nat := do
  tworeg .cpse reg1 reg2
  jmp ref

/-! ### Sequences of calls -/

/-- A call of a member of `Code`. What the members for arithmetic and logical operations do is a sequence of `immtemp`,
`haveTempreg`, `tempreg` and `emit`. -/
inductive Call where
  | allocateReg (size : Nat) (high optional : Bool)
  | releaseReg (reg : Reg)
  | explicitReg (firstReg size : Nat)
  | arg (type : PrologueType) (size : Nat)
  | returnValue (size : Nat)
  | branch (type : InsnType) (ref : Nat)
  | compareSkip (reg1 reg2 ref : Nat)
  | ret
  | emit (insn : Insn)
  | immtemp (value : Nat)
  | tempreg
  | haveTempreg

/-- The code builder, and the registers that `Code::tempreg` has returned, and `Code::immtemp` has not since. -/
structure Session where
  code : Code
  temps : List Nat

/-- What a call does with the builder, and the temporary registers that may be used then. -/
def Call.build (temps : List Nat) : Call → Build (List Nat)
  | .allocateReg size high optional => do
      let _ ← allocateRegInternal size high optional
      return temps
  | .releaseReg reg => do
      Avr.releaseReg reg
      return temps
  | .explicitReg firstReg size => do
      let _ ← allocateExplicitReg firstReg size
      return temps
  | .arg type size => do
      let _ ← Avr.arg type size
      return temps
  | .returnValue size => do
      let _ ← Avr.returnValue size
      return temps
  | .branch type ref => do
      let _ ← Avr.branch type ref
      return temps
  | .compareSkip reg1 reg2 ref => do
      let _ ← Avr.compareSkip reg1 reg2 ref
      return temps
  | .ret => do
      Avr.ret
      return temps
  | .emit insn => do
      pushInsn insn
      return temps
  | .immtemp value => do
      let reg ← Avr.immtemp value
      return temps.filter (· ≠ reg)
  | .tempreg => do
      let reg ← Avr.tempreg
      return reg :: temps
  | .haveTempreg => do
      let _ ← Avr.haveTempreg
      return temps

/-- The instructions that do not run on to the next one. -/
def InsnType.control : InsnType → Bool
  | .brcc | .brcs | .breq | .brne | .call | .cpse | .jmp | .label | .ret => true
  | _ => false

/-- The types that `Code::branch` is called with. -/
def InsnType.isBranch : InsnType → Bool
  | .brcc | .brcs | .breq | .brne | .call | .jmp | .label => true
  | _ => false

/-- The registers that an instruction writes. -/
def Insn.writes (insn : Insn) : List Nat :=
  match insn.type with
  | .adiw | .sbiw | .movw => [insn.reg1, insn.reg1 + 1]
  | .ldX => [insn.reg1, 26, 27]
  | .ldY => [insn.reg1, 28, 29]
  | .ldZ => [insn.reg1, 30, 31]
  | .stX => [26, 27]
  | .stY => [28, 29]
  | .stZ | .lpmSetup | .lpmSwitch => [30, 31]
  | .bst | .cp | .cpc | .cpi | .lpmAdjust | .lpmClean | .nop | .print | .printch | .println | .push => []
  | .brcc | .brcs | .breq | .brne | .call | .cpse | .jmp | .label | .ret => []
  | _ => [insn.reg1]

/-- A register that code may be told to write: it is allocated, it is a temporary one, or it is in no pool. -/
def Session.Given (s : Session) (r : Nat) : Prop :=
  inRegs s.code.allocated r = true ∨ r ∈ s.temps ∨ r ∉ s.code.regOrder

/-- The calls of a generator: instructions write the registers that they were given, and branches are branches. -/
def Session.Allows (s : Session) : Call → Prop
  | .emit insn => insn.type.control = false ∧ ∀ r ∈ insn.writes, s.Given r
  | .branch type _ => type.isBranch = true
  | _ => True

/-- A sequence of calls, each of which meets a condition on the builder before it. -/
inductive Runs (meets : Code → Call → Prop) : Session → List Call → Session → Prop where
  | nil (s : Session) : Runs meets s [] s
  | cons {s s₁ s' : Session} {call : Call} {calls : List Call} (allowed : s.Allows call) (condition : meets s.code call)
      (built : (call.build s.temps).run s.code = .ok (s₁.temps, s₁.code)) (rest : Runs meets s₁ calls s') :
      Runs meets s (call :: calls) s'

/-- A builder that has emitted nothing yet. -/
structure Code.Fresh (code : Code) : Prop where
  insns : code.insns = []
  labels : code.labels = []
  immRegs : code.immRegs = 0#32
  order : code.regOrder = code.resetRegs.regOrder

/-! ### Paths through the emitted code -/

/-- What the interpreter does for an instruction of some code, where subroutines return behind a call. -/
def Code.Follows (code : Code) (insn : Insn) (s s' : AVRState) : Prop :=
  execInsn { s with pc := s.pc + 1 } code insn = .ok s' ∧
    (insn.type = .ret → ∃ i call, s'.pc = i + 1 ∧ code.insns[i]? = some call ∧ call.type = .call)

end AsconSuite.Avr
