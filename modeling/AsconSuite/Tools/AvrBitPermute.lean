/-
Module: AsconSuite.Tools.AvrBitPermute
Layer: Model
Purpose: `bit_get`, `bit_put` and `bit_permute` of `tools/genavr/code.cpp`.
Imports: AsconSuite.Base.CycleMoves, AsconSuite.Tools.AvrCode
Trusted boundary: reads beyond the arrays of `bit_permute` are undefined behaviour, which `none` stands for
Main exports: Avr.bitGet, Avr.bitPut, Avr.invertPermutation, Avr.cycleLoop, Avr.permuteScan, Avr.bitPermute
-/
import AsconSuite.Base.CycleMoves
import AsconSuite.Tools.AvrCode

namespace AsconSuite.Avr

open ByteWord
open CycleMoves (Move)

/-- `Code::bit_get`. -/
def bitGet (reg : Reg) (bit : Nat) : Build Unit := bitop .bst (reg.reg (bit / 8)) (bit % 8)

/-- `Code::bit_put`. -/
def bitPut (reg : Reg) (bit : Nat) : Build Unit := bitop .bld (reg.reg (bit / 8)) (bit % 8)

/-- The loop of `Code::bit_permute` that inverts a permutation of this size: the index, the entries from there on and
`P` so far. -/
def invertLoop (size : Nat) : (index : Nat) → (perm : List Nat) → (P : List Nat) → Except String (List Nat)
  | _, [], P => return P
  | index, dest :: perm, P =>
      if size ≤ dest ∨ P.getD dest 0xFF ≠ 0xFF then throw "invalid permutation data"
      else invertLoop size (index + 1) perm (P.set dest index)

/-- `P` of `Code::bit_permute`. -/
def invertPermutation (perm : List Nat) (inverse : Bool) : Except String (List Nat) :=
  if inverse then return perm else invertLoop perm.length 0 perm (List.replicate perm.length 0xFF)

/-- The rest of a cycle of `Code::bit_permute`: the moves, the last bit of the cycle and the bits that are done then.
Each turn finishes a bit or ends the loop; `turns` bounds the turns that are left. -/
def cycleLoop (P : List Nat) : (turns prev next : Nat) → (done : List Bool) → Option (List Move × Nat × List Bool)
  | 0, prev, _, done => some ([], prev, done)
  | turns + 1, prev, next, done =>
      match done[next]?, P[next]? with
      | some true, _ => some ([], prev, done)
      | some false, some after => do
          let (moves, last, done) ← cycleLoop P turns next after (done.set next true)
          return (.copy next prev :: moves, last, done)
      | _, _ => none

/-- The scan of `Code::bit_permute` for the cycles: the indexes that are left. -/
def permuteScan (P : List Nat) : (indexes : List Nat) → (done : List Bool) → Option (List Move)
  | [], _ => some []
  | index :: indexes, done =>
      let src := P.getD index 0
      if index = src then permuteScan P indexes (done.set index true)
      else if done.getD index false then permuteScan P indexes done
      else do
        let (moves, last, done) ← cycleLoop P P.length index src (done.set index true)
        let rest ← permuteScan P indexes done
        return .save index :: moves ++ .restore last :: rest

/-- The instructions of a move of `Code::bit_permute`. -/
def emitMove (reg : Reg) (temp : Nat) : Move → Build Unit
  | .save bit => do
      bitGet reg bit
      bitop .bld temp 0
  | .copy src dest => do
      bitGet reg src
      bitPut reg dest
  | .restore bit => do
      bitop .bst temp 0
      bitPut reg bit

/-- `Code::bit_permute`. -/
def bitPermute (reg : Reg) (perm : List Byte) (inverse : Bool) : Build (Option Unit) := do
  if reg.size * 8 < perm.length ∨ 240 < perm.length then throw "invalid permutation size"
  else
    let P ← invertPermutation (perm.map BitVec.toNat) inverse
    let temp ← tempreg
    match permuteScan P (List.range perm.length) (List.replicate perm.length false) with
    | none => return none
    | some moves =>
        moves.forM (emitMove reg temp)
        return some ()

end AsconSuite.Avr
