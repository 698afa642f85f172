/-
Module: AsconSuite.Kdf.Kdf
Layer: Model
Purpose: `kdf/ascon-kdf.c` and `kdf/ascon-kdfa.c`: key derivation by a customized extendable-output function that
  absorbs the key.
Imports: AsconSuite.Hash.Xof
Trusted boundary: none
Main exports: asconKdfInit, asconKdf, asconKdfaInit, asconKdfa
-/
import AsconSuite.Hash.Xof

namespace AsconSuite

open ByteWord ByteMemory

/-- The characters of `"KDF"`. -/
def kdfName : List Byte := [0x4b, 0x44, 0x46]

/-- `ascon_kdf_init`. -/
def asconKdfInit (key : Mem) (keylen : Nat) (custom : Mem) (customlen outlen : Nat) : XofState :=
  asconXofAbsorb (asconXofInitCustom (some kdfName) custom customlen outlen) key keylen

/-- `ascon_kdf_reinit`: an object that is freed first is set up in the same way. -/
def asconKdfReinit (_state : XofState) := asconKdfInit

/-- `ascon_kdf_squeeze`. -/
def asconKdfSqueeze := asconXofSqueeze

/-- `ascon_kdf`: the memory with the derived bytes at `out`. -/
def asconKdf (mem : Mem) (out outlen : Nat) (key : Mem) (keylen : Nat) (custom : Mem) (customlen : Nat) : Mem :=
  (asconXofSqueeze (asconKdfInit key keylen custom customlen outlen) mem out outlen).2

/-- `ascon_kdfa_init`. -/
def asconKdfaInit (key : Mem) (keylen : Nat) (custom : Mem) (customlen outlen : Nat) : XofState :=
  asconXofaAbsorb (asconXofaInitCustom (some kdfName) custom customlen outlen) key keylen

/-- `ascon_kdfa_reinit`: an object that is freed first is set up in the same way. -/
def asconKdfaReinit (_state : XofState) := asconKdfaInit

/-- `ascon_kdfa_squeeze`. -/
def asconKdfaSqueeze := asconXofaSqueeze

/-- `ascon_kdfa`: the memory with the derived bytes at `out`. -/
def asconKdfa (mem : Mem) (out outlen : Nat) (key : Mem) (keylen : Nat) (custom : Mem) (customlen : Nat) : Mem :=
  (asconXofaSqueeze (asconKdfaInit key keylen custom customlen outlen) mem out outlen).2

end AsconSuite
