/-
Module: AsconSuite.Aead.OneShot
Layer: Model
Purpose: The one-shot encrypt and decrypt functions of ASCON-128, ASCON-128a and ASCON-80pq. The three
  source files differ in what `AeadVariant` lists; the order of the steps is the same.
Imports: AsconSuite.Aead.Common
Trusted boundary: key, nonce and associated data do not overlap the buffer that is written
Main exports: AeadVariant, ascon128AeadEncrypt, ascon128aAeadEncrypt, ascon80pqAeadEncrypt, and their
  decrypt functions
-/
import AsconSuite.Aead.Common

namespace AsconSuite

open ByteWord ByteMemory

/-- The bytes of a constant table as a pointer. -/
def tablePtr (table : List Byte) : Mem := fun i => table.getD i 0

/-- `ASCON128_IV`. -/
def ascon128Iv : List Byte := [0x80, 0x40, 0x0c, 0x06, 0x00, 0x00, 0x00, 0x00]

/-- `ASCON128a_IV`. -/
def ascon128aIv : List Byte := [0x80, 0x80, 0x0c, 0x08, 0x00, 0x00, 0x00, 0x00]

/-- `ASCON80PQ_IV`. -/
def ascon80pqIv : List Byte := [0xa0, 0x40, 0x0c, 0x06]

/-- `ASCON128_KEY_SIZE`. -/
def ascon128KeySize : Nat := 16

/-- `ASCON128_NONCE_SIZE`. -/
def ascon128NonceSize : Nat := 16

/-- `ASCON80PQ_KEY_SIZE`. -/
def ascon80pqKeySize : Nat := 20

/-- `ASCON80PQ_NONCE_SIZE`. -/
def ascon80pqNonceSize : Nat := 16

/-- `ASCON128_TAG_SIZE` and `ASCON80PQ_TAG_SIZE`. -/
def asconTagSize : Nat := 16

/-- The three AEAD algorithms. -/
inductive AeadVariant where
  | ascon128
  | ascon128a
  | ascon80pq
deriving DecidableEq

namespace AeadVariant

/-- The size of the key. -/
def keySize : AeadVariant → Nat
  | ascon128 => ascon128KeySize
  | ascon128a => ascon128KeySize
  | ascon80pq => ascon80pqKeySize

/-- Which of the block functions the algorithm calls. -/
def rate : AeadVariant → Rate
  | ascon128 => .eight
  | ascon128a => .sixteen
  | ascon80pq => .eight

/-- The first round of the permutation between blocks. -/
def firstRound : AeadVariant → Nat
  | ascon128 => 6
  | ascon128a => 4
  | ascon80pq => 6

/-- Place the initialization vector, the key and the nonce. -/
def load (v : AeadVariant) (state : AsconState) (npub k : Mem) : AsconState :=
  match v with
  | ascon128 =>
      let state := asconOverwriteBytes state (tablePtr ascon128Iv) 0 8
      let state := asconOverwriteBytes state k 8 ascon128KeySize
      asconOverwriteBytes state npub 24 ascon128NonceSize
  | ascon128a =>
      let state := asconOverwriteBytes state (tablePtr ascon128aIv) 0 8
      let state := asconOverwriteBytes state k 8 ascon128KeySize
      asconOverwriteBytes state npub 24 ascon128NonceSize
  | ascon80pq =>
      let state := asconOverwriteBytes state (tablePtr ascon80pqIv) 0 4
      let state := asconOverwriteBytes state k 4 ascon80pqKeySize
      asconOverwriteBytes state npub 24 ascon80pqNonceSize

/-- Absorb the key again after the first permutation. -/
def absorbKey (v : AeadVariant) (state : AsconState) (k : Mem) : AsconState :=
  match v with
  | ascon128 => asconAbsorb16 state k 24
  | ascon128a => asconAbsorb16 state k 24
  | ascon80pq => asconAbsorbPartial state k 20 ascon80pqKeySize

/-- Absorb the associated data, when there is any. -/
def absorbData (v : AeadVariant) (state : AsconState) (ad : Mem) (adlen : Nat) : AsconState :=
  match v with
  | ascon128 => if 0 < adlen then asconAeadAbsorb8 state ad adlen 6 true else state
  | ascon128a => if 0 < adlen then asconAeadAbsorb16 state ad adlen 4 true else state
  | ascon80pq => if 0 < adlen then asconAeadAbsorb8 state ad adlen 6 true else state

/-- Encrypt a message, or a part of one. -/
def encryptMessage (v : AeadVariant) (state : AsconState) (mem : Mem)
    (dest src len partialLen : Nat) : AsconState × Mem × Nat :=
  match v with
  | ascon128 => asconAeadEncrypt8 state mem dest src len 6 partialLen
  | ascon128a => asconAeadEncrypt16 state mem dest src len 4 partialLen
  | ascon80pq => asconAeadEncrypt8 state mem dest src len 6 partialLen

/-- Decrypt a message, or a part of one. -/
def decryptMessage (v : AeadVariant) (state : AsconState) (mem : Mem)
    (dest src len partialLen : Nat) : AsconState × Mem × Nat :=
  match v with
  | ascon128 => asconAeadDecrypt8 state mem dest src len 6 partialLen
  | ascon128a => asconAeadDecrypt16 state mem dest src len 4 partialLen
  | ascon80pq => asconAeadDecrypt8 state mem dest src len 6 partialLen

/-- Absorb the key around the last permutation. -/
def finalize (v : AeadVariant) (state : AsconState) (k : Mem) : AsconState :=
  match v with
  | ascon128 => asconAbsorb16 (asconPermute (asconAbsorb16 state k 8) 0) k 24
  | ascon128a => asconAbsorb16 (asconPermute (asconAbsorb16 state k 16) 0) k 24
  | ascon80pq =>
      asconAbsorb16 (asconPermute (asconAbsorbPartial state k 8 ascon80pqKeySize) 0) (k.view 4) 24

/-- Write the tag behind the ciphertext. -/
def squeezeTag (v : AeadVariant) (state : AsconState) (mem : Mem) (tag : Nat) : Mem :=
  match v with
  | ascon128 => asconSqueezePartial state mem tag 24 asconTagSize
  | ascon128a => asconSqueezePartial state mem tag 24 asconTagSize
  | ascon80pq => asconSqueeze16 state mem tag 24

/-- From placing the key and the nonce to the separator in front of the payload. -/
def startFrom (v : AeadVariant) (state : AsconState) (ad : Mem) (adlen : Nat) (npub k : Mem) :
    AsconState :=
  let state := v.load state npub k
  let state := asconPermute state 0
  let state := v.absorbKey state k
  let state := v.absorbData state ad adlen
  asconSeparator state

/-- The same from the fresh state of the one-shot functions. -/
def start (v : AeadVariant) (ad : Mem) (adlen : Nat) (npub k : Mem) : AsconState :=
  v.startFrom asconInit ad adlen npub k

end AeadVariant

/-- The bytes that `ascon_squeeze_16` writes into a local tag buffer. -/
def tagBuffer (state : AsconState) : Mem := asconSqueeze16 state (fun _ => 0) 0 24

/-- The body of the three encrypt functions: the memory and `*clen`. -/
def aeadEncrypt (v : AeadVariant) (mem : Mem) (c m mlen : Nat) (ad : Mem) (adlen : Nat)
    (npub k : Mem) : Mem × Nat :=
  let clen := mlen + asconTagSize
  let state := v.start ad adlen npub k
  let (state, mem, partialLen) := v.encryptMessage state mem c m mlen 0
  let state := asconPad state partialLen
  let state := v.finalize state k
  (v.squeezeTag state mem (c + mlen), clen)

/-- What a decrypt function leaves behind; `mlen` is `none` where `*mlen` is not assigned. -/
structure AeadDecrypted where
  mem : Mem
  mlen : Option Nat
  result : Int

/-- The body of the three decrypt functions. -/
def aeadDecrypt (v : AeadVariant) (mem : Mem) (m c clen : Nat) (ad : Mem) (adlen : Nat)
    (npub k : Mem) : AeadDecrypted :=
  if clen < asconTagSize then ⟨mem, none, -1⟩
  else
    let mlen := clen - asconTagSize
    let state := v.start ad adlen npub k
    let (state, mem, partialLen) := v.decryptMessage state mem m c mlen 0
    let state := asconPad state partialLen
    let state := v.finalize state k
    let tag := tagBuffer state
    let (mem, result) := asconAeadCheckTag mem m mlen tag (mem.view (c + mlen)) asconTagSize
    ⟨mem, some mlen, result⟩

/-- `ascon128_aead_encrypt`. -/
def ascon128AeadEncrypt := aeadEncrypt .ascon128

/-- `ascon128_aead_decrypt`. -/
def ascon128AeadDecrypt := aeadDecrypt .ascon128

/-- `ascon128a_aead_encrypt`. -/
def ascon128aAeadEncrypt := aeadEncrypt .ascon128a

/-- `ascon128a_aead_decrypt`. -/
def ascon128aAeadDecrypt := aeadDecrypt .ascon128a

/-- `ascon80pq_aead_encrypt`. -/
def ascon80pqAeadEncrypt := aeadEncrypt .ascon80pq

/-- `ascon80pq_aead_decrypt`. -/
def ascon80pqAeadDecrypt := aeadDecrypt .ascon80pq

end AsconSuite
