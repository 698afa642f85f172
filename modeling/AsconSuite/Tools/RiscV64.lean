/-
Module: AsconSuite.Tools.RiscV64
Layer: Model
Purpose: The generator of the permutation for 64-bit RISC-V, `tools/genriscv/ascon_riscv64.c`, and the part of the
  processor that its instructions use.
Imports: AsconSuite.Base.Assembly, AsconSuite.Tools.NativeState
Trusted boundary: the RV64I instructions do what `exec` says
Main exports: RiscV64.Register, RiscV64.Insn, RiscV64.genSbox, RiscV64.genRound, RiscV64.genPermute,
  RiscV64.genBackendFree, RiscV64.Machine, RiscV64.exec
-/
import AsconSuite.Base.Assembly
import AsconSuite.Tools.NativeState

namespace AsconSuite.RiscV64

open ByteWord ByteMemory
open Assembly (Line Flow blocks)

/-- The registers, under their names in the calling convention. -/
inductive Register where
  | x0 | ra | sp | gp | tp
  | t0 | t1 | t2 | t3 | t4 | t5 | t6
  | a0 | a1 | a2 | a3 | a4 | a5 | a6 | a7
  | s0 | s1 | s2 | s3 | s4 | s5 | s6 | s7 | s8 | s9 | s10 | s11
deriving DecidableEq

open Register

/-! ### The emitted code -/

/-- The operators of `binop` and of the instructions that are written out. -/
inductive Op where
  | xor
  | and
  | or

/-- The instructions that the generator emits. -/
inductive Insn where
  | ld (rd : Register) (offset : Nat) (base : Register)
  | sd (rs : Register) (offset : Nat) (base : Register)
  | li (rd : Register) (imm : Int)
  | not (rd rs : Register)
  | binary (op : Op) (rd rs1 rs2 : Register)
  | xori (rd rs : Register) (imm : Int)
  | srli (rd rs : Register) (shift : Nat)
  | slli (rd rs : Register) (shift : Nat)
  | beq (rs1 rs2 : Register) (label : Nat)
  | j (label : Nat)
  | ret

/-- `reg_names`. -/
structure RegNames where
  x0 : Register
  x1 : Register
  x2 : Register
  x3 : Register
  x4 : Register
  t0 : Register
  t1 : Register
  t2 : Register
  t3 : Register
  t4 : Register
  t5 : Register
  t6 : Register
  t7 : Register

/-- `binop`. -/
def binop (name : Op) (reg1 reg2 : Register) : Insn := .binary name reg1 reg1 reg2

/-- `gen_sbox`. -/
def genSbox (regs : RegNames) : List Insn :=
  [ -- x0 ^= x4;   x4 ^= x3;   x2 ^= x1;
    binop .xor regs.x0 regs.x4, binop .xor regs.x2 regs.x1, binop .xor regs.x4 regs.x3,
    -- t0 = ~x0;   t1 = ~x1;   t2 = ~x2;   t3 = ~x3;   t4 = ~x4;
    .not regs.t0 regs.x0, .not regs.t1 regs.x1, .not regs.t2 regs.x2, .not regs.t3 regs.x3, .not regs.t4 regs.x4,
    -- t0 &= x1;   t1 &= x2;   t2 &= x3;   t3 &= x4;   t4 &= x0;
    binop .and regs.t0 regs.x1, binop .and regs.t1 regs.x2, binop .and regs.t2 regs.x3, binop .and regs.t3 regs.x4,
    binop .and regs.t4 regs.x0,
    -- x0 ^= t1;   x1 ^= t2;   x2 ^= t3;   x3 ^= t4;   x4 ^= t0;
    binop .xor regs.x0 regs.t1, binop .xor regs.x1 regs.t2, binop .xor regs.x2 regs.t3, binop .xor regs.x3 regs.t4,
    binop .xor regs.x4 regs.t0,
    -- x1 ^= x0;   x0 ^= x4;   x3 ^= x2;
    binop .xor regs.x1 regs.x0, binop .xor regs.x3 regs.x2, binop .xor regs.x0 regs.x4]

/-- The diffusion of two words in `gen_round`, which takes all temporaries. -/
def genDiffusePair (regs : RegNames) (x : Register) (r s : Nat) (y : Register) (r' s' : Nat) : List Insn :=
  [.srli regs.t0 x r, .slli regs.t1 x (64 - r), .srli regs.t2 x s, .slli regs.t3 x (64 - s),
    .srli regs.t4 y r', .slli regs.t5 y (64 - r'), .srli regs.t6 y s', .slli regs.t7 y (64 - s'),
    .binary .or regs.t0 regs.t0 regs.t1, .binary .or regs.t2 regs.t2 regs.t3, .binary .or regs.t4 regs.t4 regs.t5,
    .binary .or regs.t6 regs.t6 regs.t7,
    .binary .xor x x regs.t0, .binary .xor y y regs.t4, .binary .xor x x regs.t2, .binary .xor y y regs.t6]

/-- The diffusion of one word. -/
def genDiffuse (regs : RegNames) (x : Register) (r s : Nat) : List Insn :=
  [.srli regs.t0 x r, .slli regs.t1 x (64 - r), .srli regs.t2 x s, .slli regs.t3 x (64 - s),
    .binary .or regs.t0 regs.t0 regs.t1, .binary .or regs.t2 regs.t2 regs.t3,
    .binary .xor x x regs.t0, .binary .xor x x regs.t2]

/-- The immediate of the round constant: `~((int)(((0x0F - round) << 4) | round))`. -/
def roundImmediate (round : Nat) : Int := -(((((0x0F - round) <<< 4) ||| round : Nat) : Int) + 1)

/-- `gen_round`. -/
def genRound (regs : RegNames) (round : Nat) : List Insn :=
  .xori regs.x2 regs.x2 (roundImmediate round) :: (genSbox regs ++ (genDiffusePair regs regs.x0 19 28 regs.x1 61 39 ++
    (genDiffusePair regs regs.x2 1 6 regs.x3 10 17 ++ genDiffuse regs regs.x4 7 41)))

/-- The registers of `gen_permute`. -/
def permuteRegs : RegNames where
  x0 := a2
  x1 := a3
  x2 := a4
  x3 := a5
  x4 := a6
  t0 := t1
  t1 := t2
  t2 := t3
  t3 := t4
  t4 := t5
  t5 := t6
  t6 := a1
  t7 := a7

/-- The test for one value of the first round. -/
def genTest (regs : RegNames) (firstRound : Register) (round : Nat) : List Insn :=
  [.li regs.t0 round, .beq firstRound regs.t0 round]

/-- The load of the state. -/
def genLoad (regs : RegNames) : List Insn :=
  [.ld regs.x0 0 a0, .ld regs.x1 8 a0, .ld regs.x2 16 a0, .ld regs.x3 24 a0, .ld regs.x4 32 a0,
    .not regs.x2 regs.x2]

/-- The jump to the first round: 6, 0 and 4 are tried first, and every other value goes to the end. -/
def genDispatch (regs : RegNames) (firstRound : Register) : List Insn :=
  genTest regs firstRound 6 ++ (.beq firstRound x0 0 :: (genTest regs firstRound 4 ++
    ((((List.range' 1 11).reverse.filter fun round => !(round == 0 || round == 4 || round == 6)).flatMap
      (genTest regs firstRound)) ++ [.j 12])))

/-- The store of the state. -/
def genStore (regs : RegNames) : List Insn :=
  [.not regs.x2 regs.x2, .sd regs.x0 0 a0, .sd regs.x1 8 a0, .sd regs.x2 16 a0, .sd regs.x3 24 a0, .sd regs.x4 32 a0]

/-- `gen_permute`, with the `ret` of `function_footer`. -/
def genPermute : List (Line Insn) :=
  (genLoad permuteRegs ++ genDispatch permuteRegs a1).map .insn ++
    (blocks (genRound permuteRegs) 0 12 ++
      .label 12 :: ((genStore permuteRegs).map .insn ++ [.insn .ret]))

/-- `gen_backend_free`, with the `ret` of `function_footer`. -/
def genBackendFree : List (Line Insn) :=
  ([a1, a2, a3, a4, a5, a6, a7, t1, t2, t3, t4, t5, t6].map fun reg => Insn.li reg 0).map .insn ++ [.insn .ret]

/-! ### The processor -/

/-- The registers and the memory. -/
structure Machine where
  regs : Register → Word
  mem : Mem

/-- The value of a register; `x0` is zero. -/
def Machine.get (m : Machine) (r : Register) : Word := if r = x0 then 0 else m.regs r

/-- The machine after a register is written; `x0` stays zero. -/
def Machine.set (m : Machine) (r : Register) (w : Word) : Machine := { m with regs := Function.update m.regs r w }

/-- The address of an access. -/
def Machine.address (m : Machine) (offset : Nat) (base : Register) : Nat := (m.get base + BitVec.ofNat 64 offset).toNat

/-- What an operator does. -/
def Op.apply : Op → Word → Word → Word
  | xor, x, y => x ^^^ y
  | and, x, y => x &&& y
  | or, x, y => x ||| y

/-- One instruction. -/
def exec : Insn → Machine → Flow Machine
  | .ld rd offset base, m => .next (m.set rd (nativeWord m.mem (m.address offset base)))
  | .sd rs offset base, m => .next { m with mem := storeWord m.mem (m.address offset base) (m.get rs) }
  | .li rd imm, m => .next (m.set rd (BitVec.ofInt 64 imm))
  | .not rd rs, m => .next (m.set rd (~~~m.get rs))
  | .binary op rd rs1 rs2, m => .next (m.set rd (op.apply (m.get rs1) (m.get rs2)))
  | .xori rd rs imm, m => .next (m.set rd (m.get rs ^^^ BitVec.ofInt 64 imm))
  | .srli rd rs shift, m => .next (m.set rd (m.get rs >>> shift))
  | .slli rd rs shift, m => .next (m.set rd (m.get rs <<< shift))
  | .beq rs1 rs2 label, m => if m.get rs1 = m.get rs2 then .jump label m else .next m
  | .j label, m => .jump label m
  | .ret, m => .done m

end AsconSuite.RiscV64
