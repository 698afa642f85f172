/-
Module: AsconSuite.Apps.AsconEcb
Layer: Model
Purpose: The tweakable block cipher of `examples/block-cipher/ascon-ecb.c`, which is built from the permutation.
Imports: AsconSuite.Aead.OneShot
Trusted boundary: none
Main exports: asconEcbDouble, asconEcbInit, EcbRun, asconEcbEncrypt, asconEcbDecrypt
-/
import AsconSuite.Aead.OneShot

namespace AsconSuite

open ByteWord ByteMemory

/-- `RC`, of which a build keeps as many as it has rounds. -/
def ecbConstants : List (List Byte) := [
  [0x42, 0x8a, 0x2f, 0x98], [0x71, 0x37, 0x44, 0x91], [0xb5, 0xc0, 0xfb, 0xcf], [0xe9, 0xb5, 0xdb, 0xa5],
  [0x39, 0x56, 0xc2, 0x5b], [0x59, 0xf1, 0x11, 0xf1], [0x92, 0x3f, 0x82, 0xa4], [0xab, 0x1c, 0x5e, 0xd5],
  [0xd8, 0x07, 0xaa, 0x98], [0x12, 0x83, 0x5b, 0x01], [0x24, 0x31, 0x85, 0xbe], [0x55, 0x0c, 0x7d, 0xc3],
  [0x72, 0xbe, 0x5d, 0x74], [0x80, 0xde, 0xb1, 0xfe], [0x9b, 0xdc, 0x06, 0xa7], [0xc1, 0x9b, 0xf1, 0x74],
  [0xe4, 0x9b, 0x69, 0xc1], [0xef, 0xbe, 0x47, 0x86], [0x0f, 0xc1, 0x9d, 0xc6], [0x24, 0x0c, 0xa1, 0xcc],
  [0x2d, 0xe9, 0x2c, 0x6f], [0x4a, 0x74, 0x84, 0xaa], [0x5c, 0xb0, 0xa9, 0xdc], [0x76, 0xf9, 0x88, 0xda],
  [0x98, 0x3e, 0x51, 0x52], [0xa8, 0x31, 0xc6, 0x6d], [0xb0, 0x03, 0x27, 0xc8], [0xbf, 0x59, 0x7f, 0xc7],
  [0xc6, 0xe0, 0x0b, 0xf3], [0xd5, 0xa7, 0x91, 0x47], [0x06, 0xca, 0x63, 0x51], [0x14, 0x29, 0x29, 0x67],
  [0x27, 0xb7, 0x0a, 0x85], [0x2e, 0x1b, 0x21, 0x38], [0x4d, 0x2c, 0x6d, 0xfc], [0x53, 0x38, 0x0d, 0x13],
  [0x65, 0x0a, 0x73, 0x54], [0x76, 0x6a, 0x0a, 0xbb], [0x81, 0xc2, 0xc9, 0x2e], [0x92, 0x72, 0x2c, 0x85],
  [0xa2, 0xbf, 0xe8, 0xa1], [0xa8, 0x1a, 0x66, 0x4b], [0xc2, 0x4b, 0x8b, 0x70], [0xc7, 0x6c, 0x51, 0xa3],
  [0xd1, 0x92, 0xe8, 0x19], [0xd6, 0x99, 0x06, 0x24], [0xf4, 0x0e, 0x35, 0x85], [0x10, 0x6a, 0xa0, 0x70],
  [0x19, 0xa4, 0xc1, 0x16], [0x1e, 0x37, 0x6c, 0x08], [0x27, 0x48, 0x77, 0x4c], [0x34, 0xb0, 0xbc, 0xb5],
  [0x39, 0x1c, 0x0c, 0xb3], [0x4e, 0xd8, 0xaa, 0x4a], [0x5b, 0x9c, 0xca, 0x4f], [0x68, 0x2e, 0x6f, 0xf3],
  [0x74, 0x8f, 0x82, 0xee], [0x78, 0xa5, 0x63, 0x6f], [0x84, 0xc8, 0x78, 0x14], [0x8c, 0xc7, 0x02, 0x08],
  [0x90, 0xbe, 0xff, 0xfa], [0xa4, 0x50, 0x6c, 0xeb], [0xbe, 0xf9, 0xa3, 0xf7], [0xc6, 0x71, 0x78, 0xf2]]

/-- `ascon_ecb_double`. -/
def asconEcbDouble (input : Mem) : Mem := fun index =>
  let mask := (input 0).sshiftRight 7
  if index < 15 then (input index <<< 1) ||| (input (index + 1) >>> 7)
  else if index = 15 then (input 15 <<< 1) ^^^ (mask &&& 0x87)
  else 0

/-- `ascon_ecb_init`: the keys `ks->k` of the rounds. -/
def asconEcbInit (key : Mem) : (round : Nat) → Mem
  | 0 => key
  | round + 1 => asconEcbDouble (asconEcbInit key round)

/-- The state, and the halves under `L` and `R`. -/
structure EcbRun where
  state : AsconState
  left : List Byte
  right : List Byte

/-- The part of a round that fills the state and permutes it. `ASCON_ECB_PERMUTE_ROUNDS` is 6. -/
def ecbPermuted (ks : Nat → Mem) (tweak : Option Mem) (state : AsconState) (right : List Byte) (round : Nat) :
    AsconState :=
  let state := asconOverwriteBytes state (tablePtr right) 0 8
  let state := asconOverwriteBytes state (ks round) 8 16
  let state :=
    match tweak with
    | some tweak => asconOverwriteBytes state tweak 24 12
    | none => asconOverwriteWithZeroes state 24 12
  let state := asconOverwriteBytes state (tablePtr (ecbConstants.getD round [])) 36 4
  asconPermute state 6

/-- One round, with the swap of the halves at its end. -/
def ecbRound (ks : Nat → Mem) (tweak : Option Mem) (run : EcbRun) (round : Nat) : EcbRun :=
  let state := ecbPermuted ks tweak run.state run.right round
  let block := (asconExtractBytes state (tablePtr []) 0 0 8).read 0 8
  ⟨state, run.right, run.left.zipWith (· ^^^ ·) block⟩

/-- The body that the two functions share, with the numbers of the rounds in their order. The halves change places
back behind the last round. -/
def ecbCrypt (rounds : List Nat) (ks : Nat → Mem) (tweak : Option Mem) (mem : Mem) (out : Nat) (input : Mem) : Mem :=
  let run := rounds.foldl (ecbRound ks tweak) ⟨asconInit, input.read 0 8, input.read 8 8⟩
  (mem.write out run.right).write (out + 8) run.left

/-- `ascon_ecb_encrypt` of a build with `rounds` rounds: the memory with the ciphertext at `c`. -/
def asconEcbEncrypt (rounds : Nat) (ks : Nat → Mem) (tweak : Option Mem) (mem : Mem) (c : Nat) (m : Mem) : Mem :=
  ecbCrypt (List.range rounds) ks tweak mem c m

/-- `ascon_ecb_decrypt` of a build with `rounds` rounds: the memory with the plaintext at `m`. -/
def asconEcbDecrypt (rounds : Nat) (ks : Nat → Mem) (tweak : Option Mem) (mem : Mem) (m : Nat) (c : Mem) : Mem :=
  ecbCrypt (List.range rounds).reverse ks tweak mem m c

end AsconSuite
