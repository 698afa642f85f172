/-
Module: AsconSuite.Cpp.Aead
Layer: Model
Purpose: The classes of `cplusplus/ascon-aead-cpp.cpp`, `cplusplus/ascon-siv-cpp.cpp`,
  `cplusplus/ascon-isap-cpp.cpp` and `cplusplus/ascon-aead-masked-cpp.cpp`. The classes of a file differ in the
  sizes and the functions that their definitions list.
Imports: AsconSuite.Aead.Incremental, AsconSuite.Aead.Isap, AsconSuite.Aead.Masked, AsconSuite.Aead.Siv
Trusted boundary: a null pointer is `none`, and reading through it has no result
Main exports: AeadClass, AeadObject, aeadClass, sivClass, isapClass, maskedClass, AeadObject.encrypt,
  AeadObject.decrypt, AeadObject.encryptArray, AeadObject.decryptArray
-/
import AsconSuite.Aead.Incremental
import AsconSuite.Aead.Isap
import AsconSuite.Aead.Masked
import AsconSuite.Aead.Siv

namespace AsconSuite

open ByteWord ByteMemory

/-! ### Classes -/

/-- The methods of a subclass of `aead` that its own file defines, for the type of its stored key. -/
structure AeadClass (κ : Type) where
  keySize : Nat
  /-- The key of the default constructor. -/
  defaultKey : κ
  /-- The key of the constructor that is given `key_size()` bytes, in the storage it finds. -/
  keyConstructor : (storage : Mem) → (key : Option Mem) → Option κ
  setKey : κ → (key : Option Mem) → (len : Nat) → Option (Bool × κ)
  encrypt : Mem → (c m len : Nat) → (ad : Mem) → (adlen : Nat) → (nonce : Mem) → κ → Mem × Nat
  decrypt : Mem → (m c len : Nat) → (ad : Mem) → (adlen : Nat) → (nonce : Mem) → κ → AeadDecrypted

/-- The classes that store the bytes of the key. `copied` is the number of bytes that the constructor takes of the
key. -/
def rawKeyClass (keySize copied : Nat)
    (encrypt : Mem → Nat → Nat → Nat → Mem → Nat → Mem → Mem → Mem × Nat)
    (decrypt : Mem → Nat → Nat → Nat → Mem → Nat → Mem → Mem → AeadDecrypted) : AeadClass (List Byte) where
  keySize := keySize
  defaultKey := List.replicate keySize 0
  keyConstructor := fun storage key =>
    let front :=
      match key with
      | some key => key.read 0 copied
      | none => List.replicate copied 0
    some (front ++ storage.read copied (keySize - copied))
  setKey := fun old key len =>
    match if len = keySize then key else none with
    | some key => some (true, key.read 0 keySize)
    | none => if len = 0 then some (true, List.replicate keySize 0) else some (false, old)
  encrypt := fun mem c m len ad adlen nonce key => encrypt mem c m len ad adlen nonce (tablePtr key)
  decrypt := fun mem m c len ad adlen nonce key => decrypt mem m c len ad adlen nonce (tablePtr key)

/-- `aead128`. -/
def aead128 := rawKeyClass ascon128KeySize ascon128KeySize ascon128AeadEncrypt ascon128AeadDecrypt

/-- `aead128a`. -/
def aead128a := rawKeyClass ascon128KeySize ascon128KeySize ascon128aAeadEncrypt ascon128aAeadDecrypt

/-- `aead80pq`. -/
def aead80pq := rawKeyClass ascon80pqKeySize ascon128KeySize ascon80pqAeadEncrypt ascon80pqAeadDecrypt

/-- `siv128`. -/
def siv128 := rawKeyClass ascon128KeySize ascon128KeySize ascon128SivEncrypt ascon128SivDecrypt

/-- `siv128a`. -/
def siv128a := rawKeyClass ascon128KeySize ascon128KeySize ascon128aSivEncrypt ascon128aSivDecrypt

/-- `siv80pq`. -/
def siv80pq := rawKeyClass ascon80pqKeySize ascon128KeySize ascon80pqSivEncrypt ascon80pqSivDecrypt

/-- `zero_key`. -/
def zeroKey : Mem := fun _ => 0

/-- `ASCON_ISAP_SAVED_KEY_SIZE`. -/
def asconIsapSavedKeySize : Nat := 80

/-- The constructor of an ISAP class that is given a key and its length. -/
def isapConstructor (p : IsapParams) (key : Option Mem) (len : Nat) : Option IsapKey :=
  if len = p.keySize then key.map p.aeadInit
  else if len = asconIsapSavedKeySize then key.map isapLoadKey
  else some (p.aeadInit zeroKey)

/-- The classes that store the pre-computed key of ISAP. A key of length zero is read through the pointer that came
with it. -/
def isapKeyClass (p : IsapParams) : AeadClass IsapKey where
  keySize := p.keySize
  defaultKey := p.aeadInit zeroKey
  keyConstructor := fun _ key => isapConstructor p key p.keySize
  setKey := fun old key len =>
    match key with
    | some key =>
        if len = p.keySize then some (true, p.aeadInit key)
        else if len = asconIsapSavedKeySize then some (true, isapLoadKey key)
        else if len = 0 then some (true, p.aeadInit key)
        else some (false, old)
    | none => if len = 0 then none else some (false, old)
  encrypt := p.aeadEncrypt
  decrypt := p.aeadDecrypt

/-- `isap128`. -/
def isap128 := isapKeyClass ascon128Isap

/-- `isap128a`. -/
def isap128a := isapKeyClass ascon128aIsap

/-- `isap80pq`. -/
def isap80pq := isapKeyClass ascon80pqIsap

/-- The outputs of the generator for a key, and the local variables of a masked call. -/
structure MaskedNoise where
  trng : Trng
  locals : MaskedRun

/-- The classes that store a masked key. -/
def maskedKeyClass (keySize : Nat) (init : Mem → Trng → MaskedKey)
    (encrypt : MaskedRun → Mem → Nat → Nat → Nat → Mem → Nat → Mem → MaskedKey → Mem × Nat)
    (decrypt : MaskedRun → Mem → Nat → Nat → Nat → Mem → Nat → Mem → MaskedKey → AeadDecrypted)
    (noise : MaskedNoise) : AeadClass MaskedKey where
  keySize := keySize
  defaultKey := fun _ _ => 0
  keyConstructor := fun _ key => some (init (key.getD zeroKey) noise.trng)
  setKey := fun old key len =>
    match if len = keySize then key else none with
    | some key => some (true, init key noise.trng)
    | none => if len = 0 then some (true, init zeroKey noise.trng) else some (false, old)
  encrypt := encrypt noise.locals
  decrypt := decrypt noise.locals

section

variable (cfg : MaskedConfig)

/-- `aead128_masked`. -/
def aead128Masked := maskedKeyClass ascon128KeySize (asconMaskedKey128Init cfg.keyShares)
  (ascon128MaskedAeadEncrypt cfg) (ascon128MaskedAeadDecrypt cfg)

/-- `aead128a_masked`. -/
def aead128aMasked := maskedKeyClass ascon128KeySize (asconMaskedKey128Init cfg.keyShares)
  (ascon128aMaskedAeadEncrypt cfg) (ascon128aMaskedAeadDecrypt cfg)

/-- `aead80pq_masked`. -/
def aead80pqMasked := maskedKeyClass ascon80pqKeySize (asconMaskedKey160Init cfg.keyShares)
  (ascon80pqMaskedAeadEncrypt cfg) (ascon80pqMaskedAeadDecrypt cfg)

end

/-! ### The classes of a file -/

/-- The classes of `ascon-aead-cpp.cpp`. -/
def aeadClass : AeadVariant → AeadClass (List Byte)
  | .ascon128 => aead128
  | .ascon128a => aead128a
  | .ascon80pq => aead80pq

/-- The classes of `ascon-siv-cpp.cpp`. -/
def sivClass : AeadVariant → AeadClass (List Byte)
  | .ascon128 => siv128
  | .ascon128a => siv128a
  | .ascon80pq => siv80pq

/-- The classes of `ascon-isap-cpp.cpp`. -/
def isapClass : AeadVariant → AeadClass IsapKey
  | .ascon128 => isap128
  | .ascon128a => isap128a
  | .ascon80pq => isap80pq

/-- The classes of `ascon-aead-masked-cpp.cpp`. -/
def maskedClass (cfg : MaskedConfig) : AeadVariant → MaskedNoise → AeadClass MaskedKey
  | .ascon128 => aead128Masked cfg
  | .ascon128a => aead128aMasked cfg
  | .ascon80pq => aead80pqMasked cfg

/-! ### Methods that all classes share -/

/-- `ascon_aead_set_counter`. -/
def asconAeadSetCounter (npub : Mem) (n : Word) : Mem := beStoreWord64 (beStoreWord64 npub 0 0) 8 n

/-- An object of a class: its key and the sixteen bytes of its nonce. -/
structure AeadObject (κ : Type) where
  key : κ
  nonce : List Byte

/-- The object of the default constructor and those of the key constructor start with a nonce of zeroes. -/
def AeadObject.ofKey {κ : Type} (key : κ) : AeadObject κ := ⟨key, List.replicate ascon128NonceSize 0⟩

namespace AeadObject

variable {κ : Type} (cls : AeadClass κ) (object : AeadObject κ)

/-- The `set_nonce` methods. -/
def setNonce (nonce : Mem) (len : Nat) : AeadObject κ :=
  { object with
    nonce :=
      if ascon128NonceSize ≤ len then nonce.read 0 ascon128NonceSize
      else List.replicate (ascon128NonceSize - len) 0 ++ nonce.read 0 len }

/-- The `set_counter` methods. -/
def setCounter (n : Word) : AeadObject κ :=
  { object with nonce := (asconAeadSetCounter (tablePtr object.nonce) n).read 0 ascon128NonceSize }

/-- `ascon_aead_increment_nonce` on the nonce of the object. -/
def incrementNonce : AeadObject κ :=
  { object with nonce := (asconAeadIncrementNonce (tablePtr object.nonce)).read 0 ascon128NonceSize }

/-- The `do_encrypt` methods: the object, the result and the memory. -/
def encrypt (mem : Mem) (c m len : Nat) (ad : Mem) (adlen : Nat) : AeadObject κ × Int × Mem :=
  let (mem, clen) := cls.encrypt mem c m len ad adlen (tablePtr object.nonce) object.key
  (object.incrementNonce, toInt clen, mem)

/-- The `do_decrypt` methods. -/
def decrypt (mem : Mem) (m c len : Nat) (ad : Mem) (adlen : Nat) : AeadObject κ × Int × Mem :=
  let done := cls.decrypt mem m c len ad adlen (tablePtr object.nonce) object.key
  if 0 ≤ done.result then (object.incrementNonce, toInt (done.mlen.getD 0), done.mem)
  else (object, -1, done.mem)

/-- `aead::encrypt` on byte arrays: the object and the ciphertext. The array of the ciphertext lies in front of the
message. The method without associated data passes none. -/
def encryptArray (c m ad : List Byte) : AeadObject κ × List Byte :=
  let len := m.length
  let c := c.takeD (len + asconTagSize) 0
  let (object, _, mem) :=
    object.encrypt cls (tablePtr (c ++ m)) 0 c.length len (tablePtr ad) ad.length
  (object, mem.read 0 c.length)

/-- `aead::decrypt` on byte arrays: the object, the result and the message. -/
def decryptArray (m c ad : List Byte) : AeadObject κ × Bool × List Byte :=
  let len := c.length
  let tlen := asconTagSize
  if len < tlen then (object, false, [])
  else
    let m := m.takeD (len - tlen) 0
    let (object, result, mem) :=
      object.decrypt cls (tablePtr (m ++ c)) 0 m.length len (tablePtr ad) ad.length
    if result < 0 then (object, false, []) else (object, true, mem.read 0 m.length)

/-! ### Calls of one object -/

end AeadObject

/-- A call between buffers that coincide or are apart. -/
inductive AeadCall where
  | setNonce (nonce : Mem) (len : Nat)
  | setCounter (n : Word)
  | encrypt (mem : Mem) (c m len : Nat) (ad : Mem) (adlen : Nat) (ranges : SameOrApart c m len)
  | decrypt (mem : Mem) (m c len : Nat) (ad : Mem) (adlen : Nat)
      (ranges : SameOrApart m c (len - asconTagSize))

/-- The object after a call, and the result and the memory of the calls that have one. -/
def AeadObject.call {κ : Type} (cls : AeadClass κ) (object : AeadObject κ) :
    AeadCall → AeadObject κ × Option (Int × Mem)
  | .setNonce nonce len => (object.setNonce nonce len, none)
  | .setCounter n => (object.setCounter n, none)
  | .encrypt mem c m len ad adlen _ =>
      let done := object.encrypt cls mem c m len ad adlen
      (done.1, some done.2)
  | .decrypt mem m c len ad adlen _ =>
      let done := object.decrypt cls mem m c len ad adlen
      (done.1, some done.2)

end AsconSuite
