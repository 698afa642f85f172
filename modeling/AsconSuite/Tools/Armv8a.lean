/-
Module: AsconSuite.Tools.Armv8a
Layer: Model
Purpose: The generator of the permutation for 64-bit ARM, `tools/genarm/ascon_armv8a_64.c`, and the part of the
  processor that its instructions use.
Imports: AsconSuite.Base.Assembly, AsconSuite.Tools.NativeState
Trusted boundary: the AArch64 instructions do what `exec` says
Main exports: Armv8a.Register, Armv8a.Insn, Armv8a.genSbox, Armv8a.genRound, Armv8a.genPermute,
  Armv8a.genBackendFree, Armv8a.Machine, Armv8a.exec
-/
import AsconSuite.Base.Assembly
import AsconSuite.Tools.NativeState

namespace AsconSuite.Armv8a

open ByteWord ByteMemory
open Assembly (Line Flow blocks)

/-- The general registers. -/
inductive Register where
  | x0 | x1 | x2 | x3 | x4 | x5 | x6 | x7 | x8 | x9 | x10 | x11 | x12 | x13 | x14 | x15
  | x16 | x17 | x18 | x19 | x20 | x21 | x22 | x23 | x24 | x25 | x26 | x27 | x28 | x29 | x30 | sp
deriving DecidableEq

open Register

/-! ### The emitted code -/

/-- The instructions that the generator emits. -/
inductive Insn where
  | mov (rd rs : Register)
  | mvn (rd rs : Register)
  | eor (rd rs1 rs2 : Register)
  | bic (rd rs1 rs2 : Register)
  | eorRor (rd rs1 rs2 : Register) (shift : Nat)
  | ror (rd rs : Register) (shift : Nat)
  | ldrConst (rd : Register) (value : Word)
  | clear (rd : Register)
  | ldp (rd1 rd2 base : Register) (offset : Nat)
  | ldr (rd base : Register) (offset : Nat)
  | stp (rs1 rs2 base : Register) (offset : Nat)
  | str (rs base : Register) (offset : Nat)
  | andW (rd rs : Register) (imm : Nat)
  | cmpW (rs : Register) (imm : Nat)
  | beq (label : Nat)
  | b (label : Nat)
  | ret

/-- `reg_names`. -/
structure RegNames where
  x0 : Register
  x1 : Register
  x2 : Register
  x3 : Register
  x4 : Register
  t0 : Register
  t1 : Register
  t2 : Register
  t3 : Register
  t4 : Register
  t5 : Register

/-- `binop` for `"eor"`. -/
def binop (reg1 reg2 : Register) : Insn := .eor reg1 reg1 reg2

/-- `bic`: `dest = ~src1 & src2`. -/
def bic (dest src1 src2 : Register) : Insn := .bic dest src2 src1

/-- `gen_sbox`. -/
def genSbox (regs : RegNames) : List Insn :=
  [ -- x0 ^= x4;   x4 ^= x3;   x2 ^= x1;   t1 = x0;   t0 = (~x0) & x1;
    binop regs.x0 regs.x4, binop regs.x4 regs.x3, binop regs.x2 regs.x1, .mov regs.t1 regs.x0,
    bic regs.t0 regs.x0 regs.x1,
    -- x0 ^= (~x1) & x2;   x1 ^= (~x2) & x3;
    bic regs.t2 regs.x1 regs.x2, binop regs.x0 regs.t2, bic regs.t3 regs.x2 regs.x3, binop regs.x1 regs.t3,
    -- x3 ^= (~x4) & t1;   x2 ^= (~x3) & x4;   x4 ^= t0;
    bic regs.t4 regs.x4 regs.t1, binop regs.x3 regs.t4, bic regs.t5 regs.x3 regs.x4, binop regs.x2 regs.t5,
    binop regs.x4 regs.t0,
    -- x1 ^= x0;   x0 ^= x4;   x3 ^= x2;
    binop regs.x1 regs.x0, binop regs.x0 regs.x4, binop regs.x3 regs.x2]

/-- The value of the round constant in `gen_round`: `~((0x0F - round) << 4 | round)`. -/
def roundValue (round : Nat) : Word := ~~~BitVec.ofNat 64 (((0x0F - round) <<< 4) ||| round)

/-- The linear diffusion layer in `gen_round`. -/
def genLinear (regs : RegNames) : List Insn :=
  [.ror regs.t0 regs.x0 19, .ror regs.t1 regs.x1 61, .ror regs.t2 regs.x2 1, .ror regs.t3 regs.x3 10,
    .ror regs.t4 regs.x4 7,
    .eorRor regs.x0 regs.x0 regs.x0 28, .eorRor regs.x1 regs.x1 regs.x1 39, .eorRor regs.x2 regs.x2 regs.x2 6,
    .eorRor regs.x3 regs.x3 regs.x3 17, .eorRor regs.x4 regs.x4 regs.x4 41,
    .eor regs.x0 regs.x0 regs.t0, .eor regs.x1 regs.x1 regs.t1, .eor regs.x2 regs.x2 regs.t2,
    .eor regs.x3 regs.x3 regs.t3, .eor regs.x4 regs.x4 regs.t4]

/-- `gen_round`. -/
def genRound (regs : RegNames) (round : Nat) : List Insn :=
  .ldrConst regs.t5 (roundValue round) :: .eor regs.x2 regs.x2 regs.t5 :: (genSbox regs ++ genLinear regs)

/-- The registers of `gen_permute`. -/
def permuteRegs : RegNames where
  x0 := x2
  x1 := x3
  x2 := x4
  x3 := x5
  x4 := x6
  t0 := x1
  t1 := x7
  t2 := x9
  t3 := x10
  t4 := x11
  t5 := x12

/-- The load of the state, and of the first round out of the byte that is passed. -/
def genLoad (regs : RegNames) : List Insn :=
  [.ldp regs.x0 regs.x1 x0 0, .ldp regs.x2 regs.x3 x0 16, .ldr regs.x4 x0 32, .mvn regs.x2 regs.x2, .andW x1 x1 255]

/-- The test for one value of the first round. -/
def genTest (round : Nat) : List Insn := [.cmpW x1 round, .beq round]

/-- The jump to the first round: 6, 0 and 4 are tried first, and every other value goes to the end. -/
def genDispatch : List Insn :=
  genTest 6 ++ (genTest 0 ++ (genTest 4 ++
    ((((List.range' 1 11).reverse.filter fun round => !(round == 0 || round == 4 || round == 6)).flatMap
      genTest) ++ [.b 12])))

/-- The store of the state. -/
def genStore (regs : RegNames) : List Insn :=
  [.mvn regs.x2 regs.x2, .stp regs.x0 regs.x1 x0 0, .stp regs.x2 regs.x3 x0 16, .str regs.x4 x0 32]

/-- `gen_permute`, with the `ret` of `function_footer`. -/
def genPermute : List (Line Insn) :=
  (genLoad permuteRegs ++ genDispatch).map .insn ++
    (blocks (genRound permuteRegs) 0 12 ++
      .label 12 :: ((genStore permuteRegs).map .insn ++ [.insn .ret]))

/-- `gen_backend_free`, with the `ret` of `function_footer`. -/
def genBackendFree : List (Line Insn) :=
  ([x1, x2, x3, x4, x5, x6, x7, x9, x10, x11, x12, x13, x14, x15].map Insn.clear).map .insn ++ [.insn .ret]

/-! ### The processor -/

/-- The registers, the flag `Z` and the memory. -/
structure Machine where
  regs : Register → Word
  zero : Bool
  mem : Mem

/-- The machine after a register is written. -/
def Machine.set (m : Machine) (r : Register) (w : Word) : Machine := { m with regs := Function.update m.regs r w }

/-- The address of an access. -/
def Machine.address (m : Machine) (base : Register) (offset : Nat) : Nat :=
  (m.regs base + BitVec.ofNat 64 offset).toNat

/-- One instruction. The forms on `w` registers read the lower half, and clear the upper half of what they write. -/
def exec : Insn → Machine → Flow Machine
  | .mov rd rs, m => .next (m.set rd (m.regs rs))
  | .mvn rd rs, m => .next (m.set rd (~~~m.regs rs))
  | .eor rd rs1 rs2, m => .next (m.set rd (m.regs rs1 ^^^ m.regs rs2))
  | .bic rd rs1 rs2, m => .next (m.set rd (m.regs rs1 &&& ~~~m.regs rs2))
  | .eorRor rd rs1 rs2 shift, m => .next (m.set rd (m.regs rs1 ^^^ (m.regs rs2).rotateRight shift))
  | .ror rd rs shift, m => .next (m.set rd ((m.regs rs).rotateRight shift))
  | .ldrConst rd value, m => .next (m.set rd value)
  | .clear rd, m => .next (m.set rd 0)
  | .ldp rd1 rd2 base offset, m =>
      .next ((m.set rd1 (nativeWord m.mem (m.address base offset))).set rd2
        (nativeWord m.mem (m.address base (offset + 8))))
  | .ldr rd base offset, m => .next (m.set rd (nativeWord m.mem (m.address base offset)))
  | .stp rs1 rs2 base offset, m =>
      .next { m with
        mem := storeWord (storeWord m.mem (m.address base offset) (m.regs rs1)) (m.address base (offset + 8))
          (m.regs rs2) }
  | .str rs base offset, m => .next { m with mem := storeWord m.mem (m.address base offset) (m.regs rs) }
  | .andW rd rs imm, m => .next (m.set rd (((m.regs rs).setWidth 32 &&& BitVec.ofNat 32 imm).setWidth 64))
  | .cmpW rs imm, m => .next { m with zero := (m.regs rs).setWidth 32 == BitVec.ofNat 32 imm }
  | .beq label, m => if m.zero then .jump label m else .next m
  | .b label, m => .jump label m
  | .ret, m => .done m

end AsconSuite.Armv8a
