/-
Module: AsconSuite.Mac.Kmaca
Layer: Model
Purpose: `mac/ascon-kmaca.c`, the streaming functions of `mac/ascon-kmac.c`, and the tables of precomputed initial
  states in `hash/ascon-xofa.c`, `hash/ascon-hasha.c` and `mac/ascon-kmaca.c`, with the form that each backend copies.
Imports: AsconSuite.Mac.Kmac
Trusted boundary: none
Main exports: asconXofaTable, asconHashaTable, asconKmacaTable, asconKmacaInit, asconKmaca
-/
import AsconSuite.Mac.Kmac

namespace AsconSuite

open ByteWord ByteMemory

/-! ### Tables -/

/-- The table of `ascon_xofa_init`. -/
def asconXofaTable : InitialTable where
  sliced64 := asconXofaInit.state
  sliced32 := ⟨⟨0xa4b87d44, 0x0846d7a5⟩, ⟨0xb3a2dbf4, 0xaa6f1005⟩, ⟨0xf713e811, 0xdc451146⟩,
    ⟨0x2839e30d, 0x468cb253⟩, ⟨0x09e96977, 0xeb2d4297⟩⟩
  bytes := #v[
    0x44, 0x90, 0x65, 0x68, 0xb7, 0x7b, 0x98, 0x32,
    0xcd, 0x8d, 0x6c, 0xae, 0x53, 0x45, 0x55, 0x32,
    0xf7, 0xb5, 0x21, 0x27, 0x56, 0x42, 0x21, 0x29,
    0x24, 0x68, 0x85, 0xe1, 0xde, 0x0d, 0x22, 0x5b,
    0xa8, 0xcb, 0x5c, 0xe3, 0x34, 0x49, 0x97, 0x3f]

/-- The table of `ascon_hasha_init`, which `ascon_xofa_init_fixed` repeats for outputs of 32 bytes. -/
def asconHashaTable : InitialTable where
  sliced64 := asconHashaInit.state
  sliced32 := ⟨⟨0x1b16eb02, 0x0108e46d⟩, ⟨0xd29083f3, 0x5b9b8efd⟩, ⟨0x2891ae4a, 0x7ad66562⟩,
    ⟨0xee3bfc7f, 0x9dc27156⟩, ⟨0x16801633, 0xc61d5fa9⟩⟩
  bytes := #v[
    0x01, 0x47, 0x01, 0x94, 0xfc, 0x65, 0x28, 0xa6,
    0x73, 0x8e, 0xc3, 0x8a, 0xc0, 0xad, 0xff, 0xa7,
    0x2e, 0xc8, 0xe3, 0x29, 0x6c, 0x76, 0x38, 0x4c,
    0xd6, 0xf6, 0xa5, 0x4d, 0x7f, 0x52, 0x37, 0x7d,
    0xa1, 0x3c, 0x42, 0xa2, 0x23, 0xbe, 0x8d, 0x87]

/-- The table of `ascon_kmaca_init_precomputed`. -/
def asconKmacaTable : InitialTable where
  sliced64 := ⟨0x47d45e034222e472, 0xed0da2bb5580c30a, 0xedceed89ce04c765, 0xffe052a5533eaa30,
    0xc8be4956f967f91a⟩
  sliced32 := ⟨⟨0xbee180ac, 0x183115c5⟩, ⟨0xb305f090, 0xe2df0893⟩, ⟨0xbab1a2bb, 0xebeab094⟩,
    ⟨0xf8c3d604, 0xfc1c17f4⟩, ⟨0x869edbd4, 0xaf21e5e3⟩⟩
  bytes := #v[
    0x47, 0xd4, 0x5e, 0x03, 0x42, 0x22, 0xe4, 0x72,
    0xed, 0x0d, 0xa2, 0xbb, 0x55, 0x80, 0xc3, 0x0a,
    0xed, 0xce, 0xed, 0x89, 0xce, 0x04, 0xc7, 0x65,
    0xff, 0xe0, 0x52, 0xa5, 0x53, 0x3e, 0xaa, 0x30,
    0xc8, 0xbe, 0x49, 0x56, 0xf9, 0x67, 0xf9, 0x1a]

/-! ### ASCON-KMAC -/

/-- `ascon_kmac_reinit`: the old object is freed. -/
def asconKmacReinit (_state : XofState) := asconKmacInit

/-- `ascon_kmac_absorb`. -/
def asconKmacAbsorb := asconXofAbsorb

/-- `ascon_kmac_squeeze`. -/
def asconKmacSqueeze := asconXofSqueeze

/-! ### ASCON-KMACA -/

/-- `ASCON_KMACA_SIZE`, which is `ASCON_HASHA_SIZE`. -/
def asconKmacaSize : Nat := 32

/-- `ascon_kmaca_init_precomputed` of the 64-bit sliced backend. -/
def asconKmacaInitPrecomputed : XofState := ⟨asconKmacaTable.sliced64, 0, false⟩

/-- `ascon_kmaca_init`. -/
def asconKmacaInit (key : Mem) (keylen : Nat) (custom : Mem) (customlen outlen : Nat) : XofState :=
  let state :=
    if outlen = asconKmacaSize then asconXofaAbsorbCustom asconKmacaInitPrecomputed custom customlen
    else asconXofaInitCustom (some kmacName) custom customlen outlen
  asconXofaAbsorb state key keylen

/-- `ascon_kmaca_reinit`: the old object is freed. -/
def asconKmacaReinit (_state : XofState) := asconKmacaInit

/-- `ascon_kmaca_absorb`. -/
def asconKmacaAbsorb := asconXofaAbsorb

/-- `ascon_kmaca_squeeze`. -/
def asconKmacaSqueeze := asconXofaSqueeze

/-- `ascon_kmaca`: the memory with the tag at `out`. -/
def asconKmaca (key : Mem) (keylen : Nat) (input : Mem) (inlen : Nat) (custom : Mem) (customlen : Nat)
    (mem : Mem) (out outlen : Nat) : Mem :=
  let state := asconKmacaInit key keylen custom customlen outlen
  (asconXofaSqueeze (asconXofaAbsorb state input inlen) mem out outlen).2

end AsconSuite
