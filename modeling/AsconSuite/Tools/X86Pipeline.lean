/-
Module: AsconSuite.Tools.X86Pipeline
Layer: Model
Purpose: The list of pending instructions of `tools/genx86/x86_common.c`: `add_insn`, `reschedule` and
  `flush_pipeline`, which applies the requests to move instructions and writes all of them out.
Imports: Mathlib.Algebra.Ring.Int.Defs, Mathlib.Algebra.Ring.Nat
Trusted boundary: `none` is undefined behaviour of the source, and pointers to the texts of an instruction are texts
Main exports: X86.Insn, X86.Pipeline, X86.addInsn, X86.reschedule, X86.memmoveInsns, X86.rescheduleAt,
  X86.rescheduleLoop, X86.flushPipeline
-/
import Mathlib.Algebra.Ring.Int.Defs
import Mathlib.Algebra.Ring.Nat

namespace AsconSuite.X86

/-! ### Instructions -/

/-- `INSN_HAS_IMM`. -/
def insnHasImm : BitVec 32 := 0x0001#32

/-- `INSN_SUFFIX_LONG`. -/
def insnSuffixLong : BitVec 32 := 0x0002#32

/-- `INSN_SUFFIX_QUAD`. -/
def insnSuffixQuad : BitVec 32 := 0x0004#32

/-- `INSN_SUFFIX_WORD`. -/
def insnSuffixWord : BitVec 32 := 0x0008#32

/-- `INSN_SUFFIX_BYTE`. -/
def insnSuffixByte : BitVec 32 := 0x0010#32

/-- `INSN_LOAD`. -/
def insnLoad : BitVec 32 := 0x0020#32

/-- `INSN_STORE`. -/
def insnStore : BitVec 32 := 0x0040#32

/-- `insn_t`. -/
structure Insn where
  opcode : String
  flags : BitVec 32
  dest : String
  src1 : String
  src2 : Option String
  imm : BitVec 64
  reschedule : BitVec 32
  deriving DecidableEq, Repr

/-- The offset by which an instruction is to be moved. -/
def Insn.offset (insn : Insn) : Int := insn.reschedule.toInt

/-- The instruction with its request done. -/
def Insn.done (insn : Insn) : Insn := { insn with reschedule := 0#32 }

/-- `MAX_INSNS`. -/
def maxInsns : Nat := 5000

/-- `sizeof(insn_t)`, with pointers of eight bytes. -/
def sizeofInsn : Nat := 56

/-- `insns` and `num_insns`. -/
structure Pipeline where
  insns : List Insn
  bounded : insns.length ≤ maxInsns

/-- No pending instructions. -/
def Pipeline.empty : Pipeline := ⟨[], Nat.zero_le maxInsns⟩

/-! ### Text -/

/-- `%lld`. -/
def decimal (x : BitVec 64) : String := toString x.toInt

/-- `flush_load`. -/
def flushLoad (intelSyntax : Bool) (insn : Insn) : String :=
  if intelSyntax then
    match insn.src2 with
    | some src2 => insn.dest ++ ", [" ++ insn.src1 ++ " + " ++ src2 ++ "]\n"
    | none =>
        if insn.imm ≠ 0 then insn.dest ++ ", [" ++ insn.src1 ++ " + " ++ decimal insn.imm ++ "]\n"
        else insn.dest ++ ", [" ++ insn.src1 ++ "]\n"
  else
    match insn.src2 with
    | some src2 => "(" ++ insn.src1 ++ "," ++ src2 ++ "), " ++ insn.dest ++ "\n"
    | none =>
        if insn.imm ≠ 0 then decimal insn.imm ++ "(" ++ insn.src1 ++ "), " ++ insn.dest ++ "\n"
        else "(" ++ insn.src1 ++ "), " ++ insn.dest ++ "\n"

/-- `flush_store`. -/
def flushStore (intelSyntax : Bool) (insn : Insn) : String :=
  if intelSyntax then
    if insn.imm ≠ 0 then "[" ++ insn.dest ++ " + " ++ decimal insn.imm ++ "], " ++ insn.src1 ++ "\n"
    else "[" ++ insn.dest ++ "], " ++ insn.src1 ++ "\n"
  else if insn.imm ≠ 0 then insn.src1 ++ ", " ++ decimal insn.imm ++ "(" ++ insn.dest ++ ")\n"
  else insn.src1 ++ ", (" ++ insn.dest ++ ")\n"

/-- `flush_immediate`. -/
def flushImmediate (intelSyntax : Bool) (insn : Insn) : String :=
  if intelSyntax then insn.dest ++ ", " ++ decimal insn.imm ++ "\n"
  else "$" ++ decimal insn.imm ++ ", " ++ insn.dest ++ "\n"

/-- `flush_binary`, with the second source. -/
def flushBinary (intelSyntax : Bool) (insn : Insn) (src2 : String) : String :=
  if intelSyntax then insn.dest ++ ", " ++ src2 ++ "\n" else src2 ++ ", " ++ insn.dest ++ "\n"

/-- `flush_unary`. -/
def flushUnary (insn : Insn) : String := insn.dest ++ "\n"

/-- The suffix of an opcode. -/
def suffix (flags : BitVec 32) : String :=
  if flags &&& insnSuffixLong ≠ 0 then "l"
  else if flags &&& insnSuffixQuad ≠ 0 then "q"
  else if flags &&& insnSuffixWord ≠ 0 then "w"
  else if flags &&& insnSuffixByte ≠ 0 then "b"
  else ""

/-- The line of an instruction. -/
def writeInsn (intelSyntax : Bool) (insn : Insn) : String :=
  "\t" ++ insn.opcode ++ suffix insn.flags ++ "\t" ++
    (if insn.flags &&& insnLoad ≠ 0 then flushLoad intelSyntax insn
    else if insn.flags &&& insnStore ≠ 0 then flushStore intelSyntax insn
    else if insn.flags &&& insnHasImm ≠ 0 then flushImmediate intelSyntax insn
    else
      match insn.src2 with
      | some src2 => flushBinary intelSyntax insn src2
      | none => flushUnary insn)

/-! ### The requests -/

/-- `offset * sizeof(insn_t)`, where the offset is converted to `size_t`. -/
def sliceBytes (offset : Int) : Nat := (offset % 2 ^ 64).toNat * sizeofInsn % 2 ^ 64

/-- `memmove` inside `insns`. Bytes beyond the array are undefined behaviour. -/
def memmoveInsns (insns : List Insn) (dest src bytes : Nat) : Option (List Insn) :=
  if maxInsns * sizeofInsn < dest * sizeofInsn + bytes ∨ maxInsns * sizeofInsn < src * sizeofInsn + bytes then none
  else
    let count := bytes / sizeofInsn
    some (insns.take dest ++ (insns.drop src).take count ++ insns.drop (dest + count))

/-- One turn of the first loop of `flush_pipeline`. The overflow of `index + offset` is undefined behaviour. -/
def rescheduleAt (insns : List Insn) (index : Nat) : Option (List Insn) :=
  match insns[index]? with
  | none => some insns
  | some insn =>
      let offset := insn.offset
      if offset = 0 then some insns
      else if (2 : Int) ^ 31 ≤ index + offset then none
      else if 0 < offset ∧ index + offset < insns.length then do
        let moved ← memmoveInsns insns index (index + 1) (sliceBytes offset)
        return moved.set (index + offset).toNat insn.done
      else if offset < 0 ∧ 0 ≤ index + offset then do
        let moved ← memmoveInsns insns (index + offset + 1).toNat (index + offset).toNat (sliceBytes offset)
        return moved.set (index + offset).toNat insn.done
      else some insns

/-- The first loop of `flush_pipeline`, with the number of its turns that are left. -/
def rescheduleLoop : (left index : Nat) → List Insn → Option (List Insn)
  | 0, _, insns => some insns
  | left + 1, index, insns => do
      let insns ← rescheduleAt insns index
      rescheduleLoop left (index + 1) insns

/-- The instructions in the order in which `flush_pipeline` writes them. -/
def rescheduled (p : Pipeline) : Option (List Insn) := rescheduleLoop p.insns.length 0 p.insns

/-- `flush_pipeline`: the lines that it writes and the list behind it. -/
def flushPipeline (intelSyntax : Bool) (p : Pipeline) : Option (List String × Pipeline) := do
  let insns ← rescheduled p
  return (insns.map (writeInsn intelSyntax), Pipeline.empty)

/-- Append an instruction where there is room. -/
def Pipeline.push (p : Pipeline) (room : p.insns.length < maxInsns) (insn : Insn) : Pipeline where
  insns := p.insns ++ [insn]
  bounded := by
    rw [List.length_append, List.length_singleton]
    exact room

/-- `add_insn`. A full list is written first. -/
def addInsn (intelSyntax : Bool) (p : Pipeline) (insn : Insn) : Option (List String × Pipeline) :=
  if room : p.insns.length < maxInsns then some ([], p.push room insn)
  else do
    let (text, _) ← flushPipeline intelSyntax p
    return (text, Pipeline.empty.push (by decide) insn)

/-- `reschedule`. -/
def reschedule (p : Pipeline) (offset : BitVec 32) : Pipeline where
  insns := p.insns.modify (p.insns.length - 1) fun insn => { insn with reschedule := offset }
  bounded := by
    rw [List.length_modify]
    exact p.bounded

end AsconSuite.X86
