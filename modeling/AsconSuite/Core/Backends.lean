/-
Module: AsconSuite.Core.Backends
Layer: Model
Purpose: The byte access that every backend offers to the modes of the library, as one record, the record
  of each of the three C backends, and calls of these functions on a state and a memory.
Imports: AsconSuite.Core.Sliced32, AsconSuite.Core.DirectXor
Trusted boundary: none
Main exports: StateAccess, sliced32Access, sliced64Access, directAccess, AccessCall,
  AccessCall.run, AccessCall.Valid, AccessCall.start, AccessCall.length
-/
import AsconSuite.Core.Sliced32
import AsconSuite.Core.DirectXor

namespace AsconSuite

open ByteMemory

/-- The byte functions of a backend and the rate accessors built on them. -/
structure StateAccess (σ : Type) where
  addBytes : σ → (data : Mem) → (offset size : Nat) → σ
  overwriteBytes : σ → (data : Mem) → (offset size : Nat) → σ
  overwriteWithZeroes : σ → (offset size : Nat) → σ
  extractBytes : σ → (mem : Mem) → (data offset size : Nat) → Mem
  extractAndAddBytes : σ → (mem : Mem) → (input output offset size : Nat) → Mem
  extractAndOverwriteBytes : σ → (mem : Mem) → (input output offset size : Nat) → σ × Mem
  separator : σ → σ
  pad : σ → (offset : Nat) → σ
  absorb8 : σ → (data : Mem) → (offset : Nat) → σ
  absorb16 : σ → (data : Mem) → (offset : Nat) → σ
  absorbPartial : σ → (data : Mem) → (offset count : Nat) → σ
  squeeze8 : σ → (mem : Mem) → (data offset : Nat) → Mem
  squeeze16 : σ → (mem : Mem) → (data offset : Nat) → Mem
  squeezePartial : σ → (mem : Mem) → (data offset count : Nat) → Mem
  encrypt8 : σ → (mem : Mem) → (dest src offset : Nat) → σ × Mem
  encrypt16 : σ → (mem : Mem) → (dest src offset : Nat) → σ × Mem
  encryptPartial : σ → (mem : Mem) → (dest src offset count : Nat) → σ × Mem
  decrypt8 : σ → (mem : Mem) → (dest src offset : Nat) → σ × Mem
  decrypt16 : σ → (mem : Mem) → (dest src offset : Nat) → σ × Mem
  decryptPartial : σ → (mem : Mem) → (dest src offset count : Nat) → σ × Mem

/-- The 32-bit bit-sliced backend. -/
def sliced32Access : StateAccess Sliced32.AsconState where
  addBytes := Sliced32.asconAddBytes
  overwriteBytes := Sliced32.asconOverwriteBytes
  overwriteWithZeroes := Sliced32.asconOverwriteWithZeroes
  extractBytes := Sliced32.asconExtractBytes
  extractAndAddBytes := Sliced32.asconExtractAndAddBytes
  extractAndOverwriteBytes := Sliced32.asconExtractAndOverwriteBytes
  separator := Sliced32.asconSeparator
  pad := Sliced32.asconPad
  absorb8 := Sliced32.asconAbsorb8
  absorb16 := Sliced32.asconAbsorb16
  absorbPartial := Sliced32.asconAbsorbPartial
  squeeze8 := Sliced32.asconSqueeze8
  squeeze16 := Sliced32.asconSqueeze16
  squeezePartial := Sliced32.asconSqueezePartial
  encrypt8 := Sliced32.asconEncrypt8
  encrypt16 := Sliced32.asconEncrypt16
  encryptPartial := Sliced32.asconEncryptPartial
  decrypt8 := Sliced32.asconDecrypt8
  decrypt16 := Sliced32.asconDecrypt16
  decryptPartial := Sliced32.asconDecryptPartial

/-- The 64-bit backend. -/
def sliced64Access : StateAccess AsconState where
  addBytes := asconAddBytes
  overwriteBytes := asconOverwriteBytes
  overwriteWithZeroes := asconOverwriteWithZeroes
  extractBytes := asconExtractBytes
  extractAndAddBytes := asconExtractAndAddBytes
  extractAndOverwriteBytes := asconExtractAndOverwriteBytes
  separator := asconSeparator
  pad := asconPad
  absorb8 := asconAbsorb8
  absorb16 := asconAbsorb16
  absorbPartial := asconAbsorbPartial
  squeeze8 := asconSqueeze8
  squeeze16 := asconSqueeze16
  squeezePartial := asconSqueezePartial
  encrypt8 := asconEncrypt8
  encrypt16 := asconEncrypt16
  encryptPartial := asconEncryptPartial
  decrypt8 := asconDecrypt8
  decrypt16 := asconDecrypt16
  decryptPartial := asconDecryptPartial

/-- The backend that keeps forty bytes in order. -/
def directAccess : StateAccess DirectXor.AsconState where
  addBytes := DirectXor.asconAddBytes
  overwriteBytes := DirectXor.asconOverwriteBytes
  overwriteWithZeroes := DirectXor.asconOverwriteWithZeroes
  extractBytes := DirectXor.asconExtractBytes
  extractAndAddBytes := DirectXor.asconExtractAndAddBytes
  extractAndOverwriteBytes := DirectXor.asconExtractAndOverwriteBytes
  separator := DirectXor.asconSeparator
  pad := DirectXor.asconPad
  absorb8 := DirectXor.asconAbsorb8
  absorb16 := DirectXor.asconAbsorb16
  absorbPartial := DirectXor.asconAbsorbPartial
  squeeze8 := DirectXor.asconSqueeze8
  squeeze16 := DirectXor.asconSqueeze16
  squeezePartial := DirectXor.asconSqueezePartial
  encrypt8 := DirectXor.asconEncrypt8
  encrypt16 := DirectXor.asconEncrypt16
  encryptPartial := DirectXor.asconEncryptPartial
  decrypt8 := DirectXor.asconDecrypt8
  decrypt16 := DirectXor.asconDecrypt16
  decryptPartial := DirectXor.asconDecryptPartial

/-- A call of one of the functions, with its pointers into a memory. -/
inductive AccessCall where
  | addBytes (data offset size : Nat)
  | overwriteBytes (data offset size : Nat)
  | overwriteWithZeroes (offset size : Nat)
  | extractBytes (data offset size : Nat)
  | extractAndAddBytes (input output offset size : Nat)
  | extractAndOverwriteBytes (input output offset size : Nat)
  | separator
  | pad (offset : Nat)
  | absorb8 (data offset : Nat)
  | absorb16 (data offset : Nat)
  | absorbPartial (data offset count : Nat)
  | squeeze8 (data offset : Nat)
  | squeeze16 (data offset : Nat)
  | squeezePartial (data offset count : Nat)
  | encrypt8 (dest src offset : Nat)
  | encrypt16 (dest src offset : Nat)
  | encryptPartial (dest src offset count : Nat)
  | decrypt8 (dest src offset : Nat)
  | decrypt16 (dest src offset : Nat)
  | decryptPartial (dest src offset count : Nat)

namespace AccessCall

variable {σ : Type}

/-- Make a call on a backend: the new state and the new memory. -/
def run (access : StateAccess σ) (s : σ) (mem : Mem) : AccessCall → σ × Mem
  | addBytes data offset size => (access.addBytes s (mem.view data) offset size, mem)
  | overwriteBytes data offset size => (access.overwriteBytes s (mem.view data) offset size, mem)
  | overwriteWithZeroes offset size => (access.overwriteWithZeroes s offset size, mem)
  | extractBytes data offset size => (s, access.extractBytes s mem data offset size)
  | extractAndAddBytes input output offset size =>
      (s, access.extractAndAddBytes s mem input output offset size)
  | extractAndOverwriteBytes input output offset size =>
      access.extractAndOverwriteBytes s mem input output offset size
  | separator => (access.separator s, mem)
  | pad offset => (access.pad s offset, mem)
  | absorb8 data offset => (access.absorb8 s (mem.view data) offset, mem)
  | absorb16 data offset => (access.absorb16 s (mem.view data) offset, mem)
  | absorbPartial data offset count => (access.absorbPartial s (mem.view data) offset count, mem)
  | squeeze8 data offset => (s, access.squeeze8 s mem data offset)
  | squeeze16 data offset => (s, access.squeeze16 s mem data offset)
  | squeezePartial data offset count => (s, access.squeezePartial s mem data offset count)
  | encrypt8 dest src offset => access.encrypt8 s mem dest src offset
  | encrypt16 dest src offset => access.encrypt16 s mem dest src offset
  | encryptPartial dest src offset count => access.encryptPartial s mem dest src offset count
  | decrypt8 dest src offset => access.decrypt8 s mem dest src offset
  | decrypt16 dest src offset => access.decrypt16 s mem dest src offset
  | decryptPartial dest src offset count => access.decryptPartial s mem dest src offset count

/-- Make calls one after the other. -/
def runAll (access : StateAccess σ) : List AccessCall → σ × Mem → σ × Mem
  | [], (s, mem) => (s, mem)
  | call :: calls, (s, mem) => runAll access calls (run access s mem call)

/-- The first byte of the state that a call is about. -/
def start : AccessCall → Nat
  | addBytes _ offset _ | overwriteBytes _ offset _ | overwriteWithZeroes offset _
  | extractBytes _ offset _ | extractAndAddBytes _ _ offset _
  | extractAndOverwriteBytes _ _ offset _ | pad offset | absorb8 _ offset | absorb16 _ offset
  | absorbPartial _ offset _ | squeeze8 _ offset | squeeze16 _ offset | squeezePartial _ offset _
  | encrypt8 _ _ offset | encrypt16 _ _ offset | encryptPartial _ _ offset _
  | decrypt8 _ _ offset | decrypt16 _ _ offset | decryptPartial _ _ offset _ => offset
  | separator => 39

/-- The number of bytes of the state that a call is about. -/
def length : AccessCall → Nat
  | addBytes _ _ size | overwriteBytes _ _ size | overwriteWithZeroes _ size
  | extractBytes _ _ size | extractAndAddBytes _ _ _ size | extractAndOverwriteBytes _ _ _ size
  | absorbPartial _ _ size | squeezePartial _ _ size | encryptPartial _ _ _ size
  | decryptPartial _ _ _ size => size
  | separator | pad _ => 1
  | absorb8 _ _ | squeeze8 _ _ | encrypt8 _ _ _ | decrypt8 _ _ _ => 8
  | absorb16 _ _ | squeeze16 _ _ | encrypt16 _ _ _ | decrypt16 _ _ _ => 16

/-- The output range of a call is its input range or does not meet it. -/
def SeparateBuffers : AccessCall → Prop
  | extractAndAddBytes input output _ size | extractAndOverwriteBytes input output _ size =>
      SameOrApart output input size
  | encrypt8 dest src _ | decrypt8 dest src _ => SameOrApart dest src 8
  | encrypt16 dest src _ | decrypt16 dest src _ => SameOrApart dest src 16
  | encryptPartial dest src _ count | decryptPartial dest src _ count => SameOrApart dest src count
  | _ => True

/-- The calls that move whole words of eight or sixteen bytes. -/
def Wordwise : AccessCall → Prop
  | absorb8 _ _ | absorb16 _ _ | squeeze8 _ _ | squeeze16 _ _ | encrypt8 _ _ _ | encrypt16 _ _ _
  | decrypt8 _ _ _ | decrypt16 _ _ _ => True
  | _ => False

/-- The calls that a backend can be asked for: inside the state, with separate buffers, and at a word
boundary when whole words are moved. -/
structure Valid (call : AccessCall) : Prop where
  fits : call.start + call.length ≤ 40
  buffers : call.SeparateBuffers
  aligned : call.Wordwise → call.start % 8 = 0

end AccessCall

end AsconSuite
