/-
Module: AsconSuite.Mac.Kmac
Layer: Model
Purpose: `ascon_kmac_init` of `mac/ascon-kmac.c`, and the tables of precomputed initial states in
  `hash/ascon-xof.c`, `hash/ascon-hash.c` and `mac/ascon-kmac.c`, with the form that each backend copies.
Imports: AsconSuite.Core.DirectXor, AsconSuite.Core.Sliced32, AsconSuite.Hash.Xof
Trusted boundary: none
Main exports: InitialTable, asconXofTable, asconHashTable, asconKmacTable, asconKmacInit, asconKmac
-/
import AsconSuite.Core.DirectXor
import AsconSuite.Core.Sliced32
import AsconSuite.Hash.Xof

namespace AsconSuite

open ByteWord ByteMemory

/-! ### Tables -/

/-- The array `iv` of an initialization function, as each backend has it: the words `S`, the words `W` and the
bytes `B` of its state. -/
structure InitialTable where
  sliced64 : AsconState
  sliced32 : Sliced32.AsconState
  bytes : DirectXor.AsconState

/-- The table of `ascon_xof_init`. -/
def asconXofTable : InitialTable where
  sliced64 := asconXofInit.state
  sliced32 := ⟨⟨0x7e351ae6, 0xc7578281⟩, ⟨0x1d238220, 0x70045f44⟩, ⟨0xa13e3f04, 0x5dd5ab52⟩,
    ⟨0xc30c1db2, 0x3e378142⟩, ⟨0xb624d656, 0x3735189d⟩⟩
  bytes := #v[
    0xb5, 0x7e, 0x27, 0x3b, 0x81, 0x4c, 0xd4, 0x16,
    0x2b, 0x51, 0x04, 0x25, 0x62, 0xae, 0x24, 0x20,
    0x66, 0xa3, 0xa7, 0x76, 0x8d, 0xdf, 0x22, 0x18,
    0x5a, 0xad, 0x0a, 0x7a, 0x81, 0x53, 0x65, 0x0c,
    0x4f, 0x3e, 0x0e, 0x32, 0x53, 0x94, 0x93, 0xb6]

/-- The table of `ascon_hash_init`, which `ascon_xof_init_fixed` repeats for outputs of 32 bytes. -/
def asconHashTable : InitialTable where
  sliced64 := asconHashInit.state
  sliced32 := ⟨⟨0xa540dbc7, 0xf9afb5c6⟩, ⟨0x1445a340, 0xbd249301⟩, ⟨0x604d4fc8, 0xcb9ba8b5⟩,
    ⟨0x94514c98, 0x12a4eede⟩, ⟨0x6339f398, 0x4bca84c0⟩⟩
  bytes := #v[
    0xee, 0x93, 0x98, 0xaa, 0xdb, 0x67, 0xf0, 0x3d,
    0x8b, 0xb2, 0x18, 0x31, 0xc6, 0x0f, 0x10, 0x02,
    0xb4, 0x8a, 0x92, 0xdb, 0x98, 0xd5, 0xda, 0x62,
    0x43, 0x18, 0x99, 0x21, 0xb8, 0xf8, 0xe3, 0xe8,
    0x34, 0x8f, 0xa5, 0xc9, 0xd5, 0x25, 0xe1, 0x40]

/-- The table of `ascon_kmac_init_precomputed`. -/
def asconKmacTable : InitialTable where
  sliced64 := ⟨0x7a09132495dfa176, 0x1b19e04f31cc4cae, 0x64ba72afaa61d2b1, 0xd2964e09a5169084,
    0x05bc6c865abe514b⟩
  sliced32 := ⟨⟨0xc1527f1e, 0x72148bc5⟩, ⟨0x558b5aa2, 0x32c34a2f⟩, ⟨0xa4c309c5, 0x4f5ff49c⟩,
    ⟨0xc6a13642, 0x9932c188⟩, ⟨0x36a2c6d9, 0x0e693f03⟩⟩
  bytes := #v[
    0x7a, 0x09, 0x13, 0x24, 0x95, 0xdf, 0xa1, 0x76,
    0x1b, 0x19, 0xe0, 0x4f, 0x31, 0xcc, 0x4c, 0xae,
    0x64, 0xba, 0x72, 0xaf, 0xaa, 0x61, 0xd2, 0xb1,
    0xd2, 0x96, 0x4e, 0x09, 0xa5, 0x16, 0x90, 0x84,
    0x05, 0xbc, 0x6c, 0x86, 0x5a, 0xbe, 0x51, 0x4b]

/-! ### Functions -/

/-- `ASCON_KMAC_SIZE`. -/
def asconKmacSize : Nat := asconHashSize

/-- The characters of `"KMAC"`. -/
def kmacName : List Byte := [0x4b, 0x4d, 0x41, 0x43]

/-- `ascon_kmac_init_precomputed` of the 64-bit sliced backend. -/
def asconKmacInitPrecomputed : XofState := ⟨asconKmacTable.sliced64, 0, false⟩

/-- `ascon_kmac_init`. -/
def asconKmacInit (key : Mem) (keylen : Nat) (custom : Mem) (customlen outlen : Nat) : XofState :=
  let state :=
    if outlen = asconKmacSize then asconXofAbsorbCustom asconKmacInitPrecomputed custom customlen
    else asconXofInitCustom (some kmacName) custom customlen outlen
  asconXofAbsorb state key keylen

/-- `ascon_kmac`: the memory with the tag at `out`. -/
def asconKmac (key : Mem) (keylen : Nat) (input : Mem) (inlen : Nat) (custom : Mem) (customlen : Nat)
    (mem : Mem) (out outlen : Nat) : Mem :=
  let state := asconKmacInit key keylen custom customlen outlen
  (asconXofSqueeze (asconXofAbsorb state input inlen) mem out outlen).2

end AsconSuite
