/-
Module: AsconSuite.Tools.NativeState
Layer: Model
Purpose: The state of the permutation in the memory of a little-endian 64-bit processor, as the back ends with
  `ASCON_BACKEND_SLICED64` keep it: five words in host byte order.
Imports: AsconSuite.Core.Permute, AsconSuite.Tools.X86Common
Trusted boundary: the processor is little-endian
Main exports: nativeWord, storeWord, loadState, storeState
-/
import AsconSuite.Core.Permute
import AsconSuite.Tools.X86Common

namespace AsconSuite

open ByteWord ByteMemory

/-- The word at an address. -/
def nativeWord (mem : Mem) (p : Nat) : Word := (Machine.word mem p : BitVec (8 * 8))

/-- The memory with a word at an address. -/
def storeWord (mem : Mem) (p : Nat) (w : Word) : Mem := mem.write p (Machine.littleBytes 8 w.toNat)

/-- The state at an address. -/
def loadState (mem : Mem) (p : Nat) : AsconState :=
  ⟨nativeWord mem p, nativeWord mem (p + 8), nativeWord mem (p + 16), nativeWord mem (p + 24), nativeWord mem (p + 32)⟩

/-- The memory with a state at an address. -/
def storeState (mem : Mem) (p : Nat) (x : AsconState) : Mem :=
  storeWord (storeWord (storeWord (storeWord (storeWord mem p x.w0) (p + 8) x.w1) (p + 16) x.w2) (p + 24) x.w3)
    (p + 32) x.w4

end AsconSuite
