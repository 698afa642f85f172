/-
Module: AsconSuite.Aead.Siv
Layer: Model
Purpose: `siv/ascon-siv-128.c`, `siv/ascon-siv-128a.c` and `siv/ascon-siv-80pq.c`: the message is
  authenticated first, and the tag is the nonce of its encryption. The three files differ in what
  `AeadVariant` lists and in their initialization vectors.
Imports: AsconSuite.Aead.OneShot
Trusted boundary: key, nonce and associated data do not overlap the buffer that is written
Main exports: sivEncrypt, sivDecrypt, ascon128SivEncrypt, ascon128aSivEncrypt, ascon80pqSivEncrypt, and their
  decrypt functions
-/
import AsconSuite.Aead.OneShot

namespace AsconSuite

open ByteWord ByteMemory

/-- `lw_xor_block_2_src`, where the first source is a local block. -/
def lwXorBlock2Src (mem : Mem) (dest : Nat) (src1 : Mem) (src2 : Nat) : (len : Nat) → Mem
  | 0 => mem
  | len + 1 =>
      lwXorBlock2Src (mem.store dest (src1 0 ^^^ mem src2)) (dest + 1) (src1.view 1) (src2 + 1) len

/-- `ascon_squeeze_8` or `ascon_squeeze_16` at offset 0 into a local block. -/
def Rate.squeezeBlock (rate : Rate) (state : AsconState) : Mem :=
  match rate with
  | eight => asconSqueeze8 state (fun _ => 0) 0 0
  | sixteen => asconSqueeze16 state (fun _ => 0) 0 0

/-- The body of `ascon_siv_encrypt_8`, `ascon_siv_encrypt_16` and `ascon_siv_encrypt_8_80pq`. -/
def asconSivCrypt (rate : Rate) (state : AsconState) (mem : Mem) (dest src len firstRound : Nat) :
    AsconState × Mem :=
  keystreamLoop rate.size firstRound
    (fun state mem dest src len => lwXorBlock2Src mem dest (rate.squeezeBlock state) src len)
    state mem dest src len

namespace AeadVariant

/-- `ASCON128_IV1` and its siblings, for the authentication phase. -/
def sivIv1 : AeadVariant → List Byte
  | ascon128 => [0x81, 0x40, 0x0c, 0x06, 0x00, 0x00, 0x00, 0x00]
  | ascon128a => [0x81, 0x80, 0x0c, 0x08, 0x00, 0x00, 0x00, 0x00]
  | ascon80pq => [0xa1, 0x40, 0x0c, 0x06]

/-- `ASCON128_IV2` and its siblings, for the encryption phase. -/
def sivIv2 : AeadVariant → List Byte
  | ascon128 => [0x82, 0x40, 0x0c, 0x06, 0x00, 0x00, 0x00, 0x00]
  | ascon128a => [0x82, 0x80, 0x0c, 0x08, 0x00, 0x00, 0x00, 0x00]
  | ascon80pq => [0xa2, 0x40, 0x0c, 0x06]

/-- `ascon128_siv_init`, `ascon128a_siv_init` and `ascon80pq_siv_init`. -/
def sivInit (v : AeadVariant) (npub k : Mem) (iv : List Byte) : AsconState :=
  let state := asconInit
  let state :=
    match v with
    | ascon128 =>
        let state := asconOverwriteBytes state (tablePtr iv) 0 8
        let state := asconOverwriteBytes state k 8 ascon128KeySize
        asconOverwriteBytes state npub 24 ascon128NonceSize
    | ascon128a =>
        let state := asconOverwriteBytes state (tablePtr iv) 0 8
        let state := asconOverwriteBytes state k 8 ascon128KeySize
        asconOverwriteBytes state npub 24 ascon128NonceSize
    | ascon80pq =>
        let state := asconOverwriteBytes state (tablePtr iv) 0 4
        let state := asconOverwriteBytes state k 4 ascon80pqKeySize
        asconOverwriteBytes state npub 24 ascon80pqNonceSize
  v.absorbKey (asconPermute state 0) k

/-- Absorb the plaintext in the authentication phase. -/
def sivAbsorbMessage (v : AeadVariant) (state : AsconState) (m : Mem) (mlen : Nat) : AsconState :=
  match v with
  | ascon128 => asconAeadAbsorb8 state m mlen 6 false
  | ascon128a => asconAeadAbsorb16 state m mlen 4 false
  | ascon80pq => asconAeadAbsorb8 state m mlen 6 false

/-- Encrypt or decrypt in the encryption phase. -/
def sivCrypt (v : AeadVariant) (state : AsconState) (mem : Mem) (dest src len : Nat) :
    AsconState × Mem :=
  match v with
  | ascon128 => asconSivCrypt .eight state mem dest src len 6
  | ascon128a => asconSivCrypt .sixteen state mem dest src len 4
  | ascon80pq => asconSivCrypt .eight state mem dest src len 6

/-- The authentication phase up to the tag. -/
def sivAuthenticate (v : AeadVariant) (m : Mem) (mlen : Nat) (ad : Mem) (adlen : Nat) (npub k : Mem) :
    AsconState :=
  let state := v.sivInit npub k v.sivIv1
  let state := v.absorbData state ad adlen
  let state := asconSeparator state
  let state := v.sivAbsorbMessage state m mlen
  v.finalize state k

end AeadVariant

/-- The body of the three encrypt functions: the memory and `*clen`. The message is read again after the
tag has been written. -/
def sivEncrypt (v : AeadVariant) (mem : Mem) (c m mlen : Nat) (ad : Mem) (adlen : Nat)
    (npub k : Mem) : Mem × Nat :=
  let clen := mlen + asconTagSize
  let state := v.sivAuthenticate (mem.view m) mlen ad adlen npub k
  let mem := asconSqueeze16 state mem (c + mlen) 24
  let state := v.sivInit (mem.view (c + mlen)) k v.sivIv2
  let (_, mem) := v.sivCrypt state mem c m mlen
  (mem, clen)

/-- The body of the three decrypt functions. -/
def sivDecrypt (v : AeadVariant) (mem : Mem) (m c clen : Nat) (ad : Mem) (adlen : Nat)
    (npub k : Mem) : AeadDecrypted :=
  if clen < asconTagSize then ⟨mem, none, -1⟩
  else
    let clen := clen - asconTagSize
    let state := v.sivInit (mem.view (c + clen)) k v.sivIv2
    let (_, mem) := v.sivCrypt state mem m c clen
    let state := v.sivAuthenticate (mem.view m) clen ad adlen npub k
    let tag := tagBuffer state
    let (mem, result) := asconAeadCheckTag mem m clen tag (mem.view (c + clen)) asconTagSize
    ⟨mem, some clen, result⟩

/-- `ascon128_siv_encrypt`. -/
def ascon128SivEncrypt := sivEncrypt .ascon128

/-- `ascon128_siv_decrypt`. -/
def ascon128SivDecrypt := sivDecrypt .ascon128

/-- `ascon128a_siv_encrypt`. -/
def ascon128aSivEncrypt := sivEncrypt .ascon128a

/-- `ascon128a_siv_decrypt`. -/
def ascon128aSivDecrypt := sivDecrypt .ascon128a

/-- `ascon80pq_siv_encrypt`. -/
def ascon80pqSivEncrypt := sivEncrypt .ascon80pq

/-- `ascon80pq_siv_decrypt`. -/
def ascon80pqSivDecrypt := sivDecrypt .ascon80pq

end AsconSuite
