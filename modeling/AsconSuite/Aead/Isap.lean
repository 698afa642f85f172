/-
Module: AsconSuite.Aead.Isap
Layer: Model
Purpose: `isap/ascon-isap-common.h`: encryption under a nonce-dependent session key, and a MAC over the
  associated data and the ciphertext. The header is instantiated with the macros that `IsapParams` lists.
Imports: AsconSuite.Aead.OneShot
Trusted boundary: the pre-computed key, the nonce and the associated data do not overlap the buffer that is
  written
Main exports: IsapParams, IsapKey, IsapParams.aeadInit, IsapParams.aeadEncrypt, IsapParams.aeadDecrypt,
  isapLoadKey, isapSaveKey, IsapCall
-/
import AsconSuite.Aead.OneShot

namespace AsconSuite

open ByteWord ByteMemory

/-! ### Parameters -/

/-- The macros that differ between the instances of the header. The others have one value in all of them. -/
structure IsapParams where
  keySize : Nat
  sH : Nat
  sE : Nat
  sB : Nat
  sK : Nat
  keySize_eq : keySize = 16 ∨ keySize = 20
  rounds_le : sH ≤ 12 ∧ sE ≤ 12 ∧ sB ≤ 12 ∧ sK ≤ 12

/-- `isap/ascon-isap-128.c`. -/
def ascon128Isap : IsapParams := ⟨16, 12, 12, 12, 12, by decide, by decide⟩

/-- `isap/ascon-isap-128a.c`. -/
def ascon128aIsap : IsapParams := ⟨16, 12, 6, 1, 12, by decide, by decide⟩

/-- `isap/ascon-isap-80pq.c`. -/
def ascon80pqIsap : IsapParams := ⟨20, 12, 12, 12, 12, by decide, by decide⟩

/-- `ISAP_NONCE_SIZE`. -/
def isapNonceSize : Nat := 16

/-- `ISAP_STATE_SIZE`. -/
def isapStateSize : Nat := 40

/-- `ISAP_RATE`. -/
def isapRate : Nat := 8

/-- `ISAP_KEY_STATE`: the two pre-computed states. -/
structure IsapKey where
  ke : AsconState
  ka : AsconState
deriving DecidableEq

/-- `ISAP_ADD_BIT` on the 64-bit backend. -/
def isapAddBit (state : AsconState) (value : Byte) (bit : Nat) : AsconState :=
  state.modify 0 (· ^^^ ((value.setWidth 64 <<< (56 + bit)) &&& 0x8000000000000000#64))

namespace IsapParams

variable (p : IsapParams)

/-- The bytes that are given of an initialization vector; those behind them are zero. -/
def iv (label : Byte) : List Byte :=
  [label, BitVec.ofNat 8 (p.keySize * 8), BitVec.ofNat 8 (isapRate * 8), 1, BitVec.ofNat 8 p.sH,
    BitVec.ofNat 8 p.sB, BitVec.ofNat 8 p.sE, BitVec.ofNat 8 p.sK]

/-- `_IV_A`. -/
def ivA : Mem := tablePtr (p.iv 0x01)

/-- `_IV_KA`. -/
def ivKA : Mem := tablePtr (p.iv 0x02)

/-- `_IV_KE`. -/
def ivKE : Mem := tablePtr (p.iv 0x03)

/-! ### The passes -/

/-- The loop of `_rekey` over all bits but the last. -/
def rekeyLoop (state : AsconState) (data : Mem) (bit : Nat) : (remaining : Nat) → AsconState
  | 0 => state
  | remaining + 1 =>
      rekeyLoop (asconPermute (isapAddBit state (data (bit / 8)) (bit % 8)) (12 - p.sB)) data (bit + 1)
        remaining

/-- `_rekey`. -/
def rekey (pk : AsconState) (data : Mem) (dataLen : Nat) : AsconState :=
  let numBits := dataLen * 8 - 1
  let state := p.rekeyLoop pk data 0 numBits
  asconPermute (isapAddBit state (data (numBits / 8)) (numBits % 8)) (12 - p.sK)

/-- `_encrypt`. -/
def encrypt (pk : IsapKey) (npub : Mem) (mem : Mem) (c m mlen : Nat) : AsconState × Mem :=
  let state := p.rekey pk.ke npub isapNonceSize
  let state := asconOverwriteBytes state npub (isapStateSize - isapNonceSize) isapNonceSize
  keystreamLoop isapRate (12 - p.sE)
    (fun state mem c m len => asconExtractAndAddBytes state mem m c 0 len) state mem c m mlen

/-- The loop of `_mac` over the associated data or the ciphertext, with the padding behind it. -/
def absorb (state : AsconState) (data : Mem) (len : Nat) : AsconState :=
  let (state, data, len) := absorbLoop isapRate
    (fun state data => asconPermute (asconAddBytes state data 0 isapRate) (12 - p.sH)) state data len
  let state := if len ≠ 0 then asconAddBytes state data 0 len else state
  asconPermute (asconPad state len) (12 - p.sH)

/-- `_mac` up to the last permutation. A key of the size of a tag lets the buffer of the tag hold the
bytes that re-key the state; a longer one needs a buffer of its own. -/
def macState (state : AsconState) (pk : IsapKey) (npub ad : Mem) (adlen : Nat) (c : Mem)
    (clen : Nat) (mem : Mem) (tag : Nat) : AsconState × Mem :=
  let state := asconOverwriteBytes state npub 0 isapNonceSize
  let state := asconOverwriteBytes state p.ivA isapNonceSize (isapStateSize - isapNonceSize)
  let state := asconPermute state (12 - p.sH)
  let state := p.absorb state ad adlen
  let state := asconSeparator state
  let state := p.absorb state c clen
  let preserve := asconExtractBytes state (fun _ => 0) 0 p.keySize (isapStateSize - p.keySize)
  let (state, mem) :=
    if p.keySize = asconTagSize then
      let mem := asconExtractBytes state mem tag 0 asconTagSize
      (p.rekey pk.ka (mem.view tag) asconTagSize, mem)
    else
      let k := asconExtractBytes state (fun _ => 0) 0 0 p.keySize
      (p.rekey pk.ka k p.keySize, mem)
  let state := asconOverwriteBytes state preserve p.keySize (isapStateSize - p.keySize)
  (asconPermute state (12 - p.sH), mem)

/-- `_mac`: the state and the memory with the tag in it. The ciphertext is read before the tag is
written. -/
def mac (state : AsconState) (pk : IsapKey) (npub ad : Mem) (adlen : Nat) (c : Mem) (clen : Nat)
    (mem : Mem) (tag : Nat) : AsconState × Mem :=
  let (state, mem) := p.macState state pk npub ad adlen c clen mem tag
  (state, asconExtractBytes state mem tag 0 asconTagSize)

/-! ### The interface -/

/-- One half of `_aead_init`. -/
def expandKey (k iv : Mem) : AsconState :=
  let state := asconInit
  let state := asconOverwriteBytes state k 0 p.keySize
  let state := asconOverwriteBytes state iv p.keySize (isapStateSize - p.keySize)
  asconPermute state (12 - p.sK)

/-- `_aead_init`. -/
def aeadInit (k : Mem) : IsapKey := ⟨p.expandKey k p.ivKE, p.expandKey k p.ivKA⟩

/-- `_aead_encrypt`: the memory and `*clen`. -/
def aeadEncrypt (mem : Mem) (c m mlen : Nat) (ad : Mem) (adlen : Nat) (npub : Mem) (pk : IsapKey) :
    Mem × Nat :=
  let clen := mlen + asconTagSize
  let (state, mem) := p.encrypt pk npub mem c m mlen
  let (_, mem) := p.mac state pk npub ad adlen (mem.view c) mlen mem (c + mlen)
  (mem, clen)

/-- `_aead_decrypt`. -/
def aeadDecrypt (mem : Mem) (m c clen : Nat) (ad : Mem) (adlen : Nat) (npub : Mem) (pk : IsapKey) :
    AeadDecrypted :=
  if clen < asconTagSize then ⟨mem, none, -1⟩
  else
    let mlen := clen - asconTagSize
    let (_, tag) := p.mac asconInit pk npub ad adlen (mem.view c) mlen (fun _ => 0) 0
    let (_, mem) := p.encrypt pk npub mem m c mlen
    let (mem, result) := asconAeadCheckTag mem m mlen tag (mem.view (c + mlen)) asconTagSize
    ⟨mem, some mlen, result⟩

end IsapParams

/-- `_aead_load_key`. -/
def isapLoadKey (k : Mem) : IsapKey :=
  ⟨asconOverwriteBytes asconInit k 0 isapStateSize,
    asconOverwriteBytes asconInit (k.view isapStateSize) 0 isapStateSize⟩

/-- `_aead_save_key`. `ascon_acquire` and `ascon_release` do nothing on this backend. -/
def isapSaveKey (pk : IsapKey) (mem : Mem) (k : Nat) : Mem :=
  let mem := asconExtractBytes pk.ke mem k 0 isapStateSize
  asconExtractBytes pk.ka mem (k + isapStateSize) 0 isapStateSize

/-! ### A key object in memory -/

/-- The size of `ISAP_KEY_STATE`. -/
def isapObjectSize : Nat := 2 * isapStateSize

/-- A call that is given a pointer to a key object, with the addresses of its other buffers. -/
inductive IsapCall where
  | encrypt (c m mlen : Nat) (ad : Mem) (adlen : Nat) (npub : Mem)
  | decrypt (m c clen : Nat) (ad : Mem) (adlen : Nat) (npub : Mem)
  | saveKey (k : Nat)

/-- The memory after a call. `object` is the compiler's layout of the key object at `pk`. -/
def IsapCall.run (p : IsapParams) (object : List Byte → IsapKey) (pk : Nat) (mem : Mem) :
    IsapCall → Mem
  | encrypt c m mlen ad adlen npub =>
      (p.aeadEncrypt mem c m mlen ad adlen npub (object (mem.read pk isapObjectSize))).1
  | decrypt m c clen ad adlen npub =>
      (p.aeadDecrypt mem m c clen ad adlen npub (object (mem.read pk isapObjectSize))).mem
  | saveKey k => isapSaveKey (object (mem.read pk isapObjectSize)) mem k

end AsconSuite
