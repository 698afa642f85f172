/-
Module: AsconSuite.Proofs.HashStream
Layer: Proofs
Purpose: A hash object, or an object that goes on from a state with data in it already, computes a function of the
  bytes it is given, however these are cut.
Imports: AsconSuite.Mac.Hmac, AsconSuite.Proofs.XofStream
Trusted boundary: none
Main exports: HashFunctions.Computes, XofVariant.functionsFrom, XofVariant.functionsFrom_computes,
  XofVariant.hashBytes, XofVariant.hash_computes
-/
import AsconSuite.Mac.Hmac
import AsconSuite.Proofs.XofStream

namespace AsconSuite

open ByteWord ByteMemory
open Transducer (Step run)

/-- The object after some data. -/
def HashFunctions.absorbed (h : HashFunctions) (data : List Byte) : XofState :=
  h.update h.init (tablePtr data) data.length

/-- What the functions make of some data given at once. -/
def HashFunctions.digest (h : HashFunctions) (data : List Byte) : List Byte :=
  Mem.read (h.finalize (h.absorbed data) (fun _ => 0) 0).2 0 asconHashSize

/-- The functions compute a function of all the data they were given. -/
structure HashFunctions.Computes (h : HashFunctions) (hash : List Byte → List Byte) : Prop where
  length_hash : ∀ data, (hash data).length = asconHashSize
  absorbed_nil : h.absorbed [] = h.init
  update : ∀ data input inlen,
    h.update (h.absorbed data) input inlen = h.absorbed (data ++ input.read 0 inlen)
  finalize : ∀ data mem out, (h.finalize (h.absorbed data) mem out).2 = mem.write out (hash data)

namespace XofVariant

variable (v : XofVariant)

/-- The hash functions, which start from a given state. -/
def functionsFrom (init : XofState) : HashFunctions := { v.hash with init := init }

section

variable {init : XofState} (inside : init.count < 8) (absorbing : init.mode = false)

/-- The state of the machine after some data. -/
def hashed (init : XofState) (data : List Byte) : AsconState × Nat :=
  (run v.sponge.absorb (init.state, init.count) data).1

include inside in
theorem hashed_position_lt (data : List Byte) : (v.hashed init data).2 < 8 := by
  cases v with
  | xof => exact (asconDuplex .eight 0).run_position_lt absorbMix inside data
  | xofa => exact (asconDuplex .eight 4).run_position_lt absorbMix inside data

include inside in
/-- Absorption of more data. -/
theorem update_hashed (data : List Byte) (input : Mem) (inlen : Nat) :
    v.hash.update (.absorbing (v.hashed init data)) input inlen =
      .absorbing (v.hashed init (data ++ input.read 0 inlen)) := by
  have position : (XofState.absorbing (v.hashed init data)).count < 8 := v.hashed_position_lt inside data
  have joined : v.hashed init (data ++ input.read 0 inlen) =
      (run v.sponge.absorb (v.hashed init data) (input.read 0 inlen)).1 := by
    rw [hashed, Transducer.run_append]
    rfl
  rw [joined]
  cases v with
  | xof => exact xofAbsorb_eq_run 0 position input inlen
  | xofa => exact xofAbsorb_eq_run 4 position input inlen

include inside absorbing

theorem absorbed_eq_hashed (data : List Byte) :
    (v.functionsFrom init).absorbed data = .absorbing (v.hashed init data) := by
  have fresh : init = .absorbing (v.hashed init []) := by
    rw [hashed, Transducer.run_nil, XofState.absorbing, ← absorbing]
  have bytes : (tablePtr data).read 0 data.length = data := read_getD data
  have updated := v.update_hashed inside [] (tablePtr data) data.length
  rw [← fresh, bytes, List.nil_append] at updated
  exact updated

omit absorbing in
/-- The output is squeezed from the state behind the data. -/
theorem finalize_eq_run (data : List Byte) (mem : Mem) (out : Nat) :
    (v.hash.finalize (.absorbing (v.hashed init data)) mem out).2 =
      mem.write out (run v.sponge.squeeze (v.sponge.toSqueeze (v.hashed init data))
        (List.replicate asconHashSize ())).2 := by
  have position : (XofState.absorbing (v.hashed init data)).count < 8 := v.hashed_position_lt inside data
  cases v with
  | xof => exact congrArg Prod.snd (asconXofSqueeze_eq_run position mem out asconHashSize)
  | xofa => exact congrArg Prod.snd (asconXofaSqueeze_eq_run position mem out asconHashSize)

theorem digest_eq_run (data : List Byte) :
    (v.functionsFrom init).digest data =
      (run v.sponge.squeeze (v.sponge.toSqueeze (v.hashed init data)) (List.replicate asconHashSize ())).2 := by
  have bytes := read_write_same (fun _ => 0) 0 (run v.sponge.squeeze
    (v.sponge.toSqueeze (v.hashed init data)) (List.replicate asconHashSize ())).2
  rw [Transducer.length_run, List.length_replicate, ← v.finalize_eq_run inside] at bytes
  rw [HashFunctions.digest, v.absorbed_eq_hashed inside absorbing]
  exact bytes

/-- The digest does not depend on the memory it is written to. -/
theorem finalize_hashed (data : List Byte) (mem : Mem) (out : Nat) :
    (v.hash.finalize (.absorbing (v.hashed init data)) mem out).2 =
      mem.write out ((v.functionsFrom init).digest data) := by
  rw [v.digest_eq_run inside absorbing, v.finalize_eq_run inside]

end

theorem functionsFrom_computes {init : XofState} (inside : init.count < 8) (absorbing : init.mode = false) :
    (v.functionsFrom init).Computes (v.functionsFrom init).digest where
  length_hash := fun _ => length_read _ _ _
  absorbed_nil := by
    rw [v.absorbed_eq_hashed inside absorbing, hashed, Transducer.run_nil, XofState.absorbing, ← absorbing]
    rfl
  update := fun data input inlen => by
    rw [v.absorbed_eq_hashed inside absorbing, v.absorbed_eq_hashed inside absorbing,
      ← v.update_hashed inside]
    rfl
  finalize := fun data mem out => by
    rw [v.absorbed_eq_hashed inside absorbing, ← v.finalize_hashed inside absorbing]
    rfl

/-- What the hash function of one call makes of some data. -/
def hashBytes : List Byte → List Byte := v.hash.digest

theorem hash_computes : v.hash.Computes v.hashBytes := by
  cases v with
  | xof => exact xof.functionsFrom_computes (Nat.zero_lt_succ 7) rfl
  | xofa => exact xofa.functionsFrom_computes (Nat.zero_lt_succ 7) rfl

end XofVariant

end AsconSuite
