/-
Module: AsconSuite.Secure.Comum
Layer: Model
Purpose: What sender and receiver of AsconSecure share, `AsconSecureComum.cpp` with the constants of
  `AsconSecure.h` and `AsconSecureInterno.h`.
Imports: AsconSuite.Aead.OneShot, AsconSuite.Hash.Xof
Trusted boundary: addresses are natural numbers, so no buffer wraps around the end of the address space
Main exports: AsconSecureStatus, Key, NoncePrefix, Counter, writeCounterBE, readCounterBE, rangesOverlap,
  buildNonce, keyFingerprint
-/
import AsconSuite.Aead.OneShot
import AsconSuite.Hash.Xof

namespace AsconSuite

open ByteWord ByteMemory

/-- `ASCON_SECURE_KEY_BYTES`. -/
abbrev secureKeyBytes : Nat := 16

/-- `ASCON_SECURE_PREFIX_BYTES`. -/
abbrev securePrefixBytes : Nat := 12

/-- `ASCON_SECURE_COUNTER_BYTES`. -/
abbrev secureCounterBytes : Nat := 4

/-- `ASCON_SECURE_TAG_BYTES`. -/
abbrev secureTagBytes : Nat := 16

/-- `ASCON_SECURE_OVERHEAD`. -/
abbrev secureOverhead : Nat := secureCounterBytes + secureTagBytes

/-- `ASCON_SECURE_MAX_PAYLOAD`. -/
abbrev secureMaxPayload : Nat := 200

/-- `ASCON_SECURE_MAX_PACKET`. -/
abbrev secureMaxPacket : Nat := secureMaxPayload + secureOverhead

/-- `uint32_t`. -/
abbrev Counter := BitVec 32

/-- `COUNTER_WINDOW`. -/
def counterWindow : Counter := 32

/-- `COUNTER_LIMIT`. -/
def counterLimit : Counter := 0xFFFFF000

/-- `MAX_PEERS`. -/
abbrev maxPeers : Nat := 8

/-- `AsconSecureStatus`. -/
inductive AsconSecureStatus where
  | ok
  | errNotReady
  | errBuffer
  | errAuth
  | errReplay
  | errNvs
  | errRng
  | errExhausted
  | errPeer
  | errFull
  | errNotProvisioned
  | empty
deriving DecidableEq

/-- `uint8_t key[ASCON_SECURE_KEY_BYTES]`. -/
abbrev Key := Vector Byte secureKeyBytes

/-- `uint8_t prefix[ASCON_SECURE_PREFIX_BYTES]`. -/
abbrev NoncePrefix := Vector Byte securePrefixBytes

/-- An array as a pointer. -/
def arrayPtr {n : Nat} (bytes : Vector Byte n) : Mem := tablePtr bytes.toList

/-- `writeCounterBE`. -/
def writeCounterBE (mem : Mem) (out : Nat) (value : Counter) : Mem :=
  mem.write out [(value >>> 24).setWidth 8, (value >>> 16).setWidth 8, (value >>> 8).setWidth 8,
    value.setWidth 8]

/-- `readCounterBE`. -/
def readCounterBE (input : Mem) : Counter :=
  ((input 0).setWidth 32 <<< 24) ||| ((input 1).setWidth 32 <<< 16) |||
    ((input 2).setWidth 32 <<< 8) ||| (input 3).setWidth 32

/-- `rangesOverlap`. -/
def rangesOverlap (a aLength b bLength : Nat) : Bool :=
  if aLength = 0 ∨ bLength = 0 then false
  else decide (a < b + bLength) && decide (b < a + aLength)

/-- `buildNonce`, which fills a local buffer. -/
def buildNonce (noncePrefix : NoncePrefix) (counter : Counter) : Mem :=
  writeCounterBE (Mem.write (fun _ => 0) 0 noncePrefix.toList) securePrefixBytes counter

/-- `keyFingerprint`: the first eight bytes of the hash of key and prefix. -/
def keyFingerprint (key : Key) (noncePrefix : NoncePrefix) : List Byte :=
  let material := Mem.write (Mem.write (fun _ => 0) 0 key.toList) secureKeyBytes noncePrefix.toList
  let digest := asconHash (fun _ => 0) 0 material (secureKeyBytes + securePrefixBytes)
  digest.read 0 8

end AsconSuite
