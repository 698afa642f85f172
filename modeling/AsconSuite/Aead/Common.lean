/-
Module: AsconSuite.Aead.Common
Layer: Model
Purpose: `aead/ascon-aead-common.c`: the tag check, the absorption of associated data, and the loops that
  encrypt and decrypt a message of any length, continuing a partial block where the last call left it.
Imports: AsconSuite.Core.Permute
Trusted boundary: lengths and addresses are natural numbers; no buffer reaches the end of the address space
Main exports: asconAeadCheckTag, Rate, blockLoop, asconAeadAbsorb8, asconAeadAbsorb16, asconAeadEncrypt8,
  asconAeadEncrypt16, asconAeadDecrypt8, asconAeadDecrypt16
-/
import AsconSuite.Core.Permute

namespace AsconSuite

open ByteWord ByteMemory

/-! ### Tag check -/

/-- The first loop of `ascon_aead_check_tag`: the bits in which two tags differ, added to `accum`. -/
def tagAccum (accum : BitVec 32) (tag1 tag2 : Mem) : (size : Nat) → BitVec 32
  | 0 => accum
  | size + 1 =>
      tagAccum (accum ||| (tag1 0 ^^^ tag2 0).setWidth 32) (tag1.view 1) (tag2.view 1) size

/-- The second loop of `ascon_aead_check_tag`: mask every byte of the plaintext. -/
def maskPlaintext (mem : Mem) (plaintext : Nat) (accum : BitVec 32) : (plaintextLen : Nat) → Mem
  | 0 => mem
  | plaintextLen + 1 =>
      maskPlaintext (mem.store plaintext (mem plaintext &&& accum.setWidth 8)) (plaintext + 1) accum
        plaintextLen

/-- `ascon_aead_check_tag`: the memory with the plaintext kept or destroyed, and 0 or -1. -/
def asconAeadCheckTag (mem : Mem) (plaintext plaintextLen : Nat) (tag1 tag2 : Mem) (size : Nat) :
    Mem × Int :=
  let accum := (tagAccum 0 tag1 tag2 size - 1).sshiftRight 8
  (maskPlaintext mem plaintext accum plaintextLen, (~~~accum).toInt)

/-! ### Loops over blocks -/

/-- The two rates, in the names of the functions that use them. -/
inductive Rate where
  | eight
  | sixteen
deriving DecidableEq

namespace Rate

/-- The number of bytes in a block. -/
def size : Rate → Nat
  | eight => 8
  | sixteen => 16

/-- `ascon_absorb_8` or `ascon_absorb_16` at offset 0. -/
def absorbBlock (rate : Rate) (state : AsconState) (data : Mem) : AsconState :=
  match rate with
  | eight => asconAbsorb8 state data 0
  | sixteen => asconAbsorb16 state data 0

/-- `ascon_encrypt_8` or `ascon_encrypt_16` at offset 0. -/
def encryptBlock (rate : Rate) (state : AsconState) (mem : Mem) (dest src : Nat) :
    AsconState × Mem :=
  match rate with
  | eight => asconEncrypt8 state mem dest src 0
  | sixteen => asconEncrypt16 state mem dest src 0

/-- `ascon_decrypt_8` or `ascon_decrypt_16` at offset 0. -/
def decryptBlock (rate : Rate) (state : AsconState) (mem : Mem) (dest src : Nat) :
    AsconState × Mem :=
  match rate with
  | eight => asconDecrypt8 state mem dest src 0
  | sixteen => asconDecrypt16 state mem dest src 0

end Rate

/-- The variables of a loop that moves through a source and a destination buffer. -/
structure Progress (σ : Type*) where
  state : σ
  mem : Mem
  dest : Nat
  src : Nat
  len : Nat

/-- `while (len >= rate)`: `block`, then both pointers move on. The permutation belongs to `block`. -/
def blockLoop {σ : Type*} (rate : Nat) (block : σ → Mem → Nat → Nat → σ × Mem)
    (p : Progress σ) : Progress σ :=
  if 0 < rate ∧ rate ≤ p.len then
    let next := block p.state p.mem p.dest p.src
    blockLoop rate block ⟨next.1, next.2, p.dest + rate, p.src + rate, p.len - rate⟩
  else p
termination_by p.len

/-- The same loop over data that is only read; the data and length left over are returned too. -/
def absorbLoop {σ : Type*} (rate : Nat) (block : σ → Mem → σ) (state : σ) (data : Mem) (len : Nat) :
    σ × Mem × Nat :=
  if 0 < rate ∧ rate ≤ len then
    absorbLoop rate block (block state data) (data.view rate) (len - rate)
  else (state, data, len)
termination_by len

/-- The loops that permute in front of every block and add the block to the data: `xorBlock state mem dest
src len` writes the sum of `len` bytes. -/
def keystreamLoop (rate firstRound : Nat) (xorBlock : AsconState → Mem → Nat → Nat → Nat → Mem)
    (state : AsconState) (mem : Mem) (dest src len : Nat) : AsconState × Mem :=
  if 0 < rate ∧ rate ≤ len then
    let state := asconPermute state firstRound
    keystreamLoop rate firstRound xorBlock state (xorBlock state mem dest src rate) (dest + rate)
      (src + rate) (len - rate)
  else if 0 < len then
    let state := asconPermute state firstRound
    (state, xorBlock state mem dest src len)
  else (state, mem)
termination_by len

/-- The body that `ascon_aead_absorb_8` and `ascon_aead_absorb_16` share. -/
def aeadAbsorb (rate : Rate) (state : AsconState) (data : Mem) (len firstRound : Nat)
    (lastPermute : Bool) : AsconState :=
  let (state, data, len) := absorbLoop rate.size
    (fun state data => asconPermute (rate.absorbBlock state data) firstRound) state data len
  let state := if 0 < len then asconAbsorbPartial state data 0 len else state
  let state := asconPad state len
  if lastPermute then asconPermute state firstRound else state

/-- `ascon_aead_absorb_8`. -/
def asconAeadAbsorb8 := aeadAbsorb .eight

/-- `ascon_aead_absorb_16`. -/
def asconAeadAbsorb16 := aeadAbsorb .sixteen

/-- The full blocks and the block left over at the end of the encrypt and decrypt functions. -/
def cryptBlocks (rate : Rate) (block : AsconState → Mem → Nat → Nat → AsconState × Mem)
    (partialBlock : AsconState → Mem → Nat → Nat → Nat → Nat → AsconState × Mem)
    (state : AsconState) (mem : Mem) (dest src len firstRound : Nat) : AsconState × Mem × Nat :=
  let p := blockLoop rate.size
    (fun state mem dest src =>
      let next := block state mem dest src
      (asconPermute next.1 firstRound, next.2))
    ⟨state, mem, dest, src, len⟩
  let next := if 0 < p.len then partialBlock p.state p.mem p.dest p.src 0 p.len
    else (p.state, p.mem)
  (next.1, next.2, p.len)

/-- The body that the encrypt and decrypt functions share: the state, the memory, and the length of the
partial block for the next call. -/
def aeadCrypt (rate : Rate) (block : AsconState → Mem → Nat → Nat → AsconState × Mem)
    (partialBlock : AsconState → Mem → Nat → Nat → Nat → Nat → AsconState × Mem)
    (state : AsconState) (mem : Mem) (dest src len firstRound partialLen : Nat) :
    AsconState × Mem × Nat :=
  if partialLen ≠ 0 then
    let temp := rate.size - partialLen
    if len < temp then
      let next := partialBlock state mem dest src partialLen len
      (next.1, next.2, partialLen + len)
    else
      let next := partialBlock state mem dest src partialLen temp
      cryptBlocks rate block partialBlock (asconPermute next.1 firstRound) next.2 (dest + temp)
        (src + temp) (len - temp) firstRound
  else cryptBlocks rate block partialBlock state mem dest src len firstRound

/-- `ascon_aead_encrypt_8`. -/
def asconAeadEncrypt8 :=
  aeadCrypt .eight (Rate.encryptBlock .eight) asconEncryptPartial

/-- `ascon_aead_encrypt_16`. -/
def asconAeadEncrypt16 :=
  aeadCrypt .sixteen (Rate.encryptBlock .sixteen) asconEncryptPartial

/-- `ascon_aead_decrypt_8`. -/
def asconAeadDecrypt8 :=
  aeadCrypt .eight (Rate.decryptBlock .eight) asconDecryptPartial

/-- `ascon_aead_decrypt_16`. -/
def asconAeadDecrypt16 :=
  aeadCrypt .sixteen (Rate.decryptBlock .sixteen) asconDecryptPartial

end AsconSuite
