/-
Module: AsconSuite.Proofs.SealedCalls
Layer: Proofs
Purpose: Encrypt and decrypt functions between buffers that implement a sealed cipher are exact inverses: what
  was encrypted decrypts, and nothing else does.
Imports: AsconSuite.Proofs.AeadStream, AsconSuite.Base.SealedCipher
Trusted boundary: none
Main exports: SealedCalls, SealedCalls.Implements, SealedCalls.ExactInverse,
  SealedCalls.Implements.exactInverse, aeadCalls, aeadCalls_implements
-/
import AsconSuite.Proofs.AeadStream
import AsconSuite.Base.SealedCipher

namespace AsconSuite

open ByteWord ByteMemory
open Transducer (run)

/-- A list read from memory and the bytes behind its address are the same data. -/
theorem tablePtr_read (mem : Mem) (p : Nat) {n i : Nat} (hi : i < n) :
    tablePtr (mem.read p n) i = mem.view p i :=
  getD_read mem p hi

/-- An encrypt and a decrypt function, with the key, the nonce and the associated data given. -/
structure SealedCalls where
  encrypt : Mem → (c m mlen : Nat) → Mem × Nat
  decrypt : Mem → (m c clen : Nat) → AeadDecrypted

namespace SealedCalls

/-- What the encrypt function makes of a byte string that is alone in memory, in place. -/
def encryptedBytes (calls : SealedCalls) (message : List Byte) : List Byte :=
  let done := calls.encrypt (tablePtr message) 0 0 message.length
  done.1.read 0 done.2

/-- The functions do in memory what a cipher does to lists of bytes. -/
structure Implements (calls : SealedCalls) (cipher : SealedCipher Byte) : Prop where
  tagSize : cipher.tagSize = asconTagSize
  encrypt_eq : ∀ (mem : Mem) {c m mlen : Nat}, PlaintextRange m c (mlen + asconTagSize) →
    calls.encrypt mem c m mlen =
      (mem.write c (cipher.sealMessage (mem.read m mlen)), mlen + asconTagSize)
  decrypt_of_lt : ∀ (mem : Mem) (m c : Nat) {clen : Nat}, clen < asconTagSize →
    calls.decrypt mem m c clen = ⟨mem, none, -1⟩
  decrypt_eq : ∀ (mem : Mem) {m c mlen : Nat}, PlaintextRange m c (mlen + asconTagSize) →
    calls.decrypt mem m c (mlen + asconTagSize) =
      match cipher.reveal (mem.read c mlen) (mem.read (c + mlen) asconTagSize) with
      | some message => ⟨mem.write m message, some mlen, 0⟩
      | none => ⟨mem.write m (List.replicate mlen 0), some mlen, -1⟩

/-- Decrypting what was encrypted returns 0 with the message and its length. Conversely decryption
returns 0 exactly when the string is the encryption of the plaintext it wrote; otherwise it returns -1,
and a plaintext whose tag failed is all zeroes. Buffers may coincide. -/
structure ExactInverse (calls : SealedCalls) : Prop where
  round_trip : ∀ (mem : Mem) (c m mlen m' : Nat), PlaintextRange m c (mlen + asconTagSize) →
    PlaintextRange m' c (mlen + asconTagSize) →
    let e := calls.encrypt mem c m mlen
    let d := calls.decrypt e.1 m' c e.2
    e.2 = mlen + asconTagSize ∧
    e.1.read c e.2 = calls.encryptedBytes (mem.read m mlen) ∧
    d.result = 0 ∧ d.mlen = some mlen ∧ d.mem.read m' mlen = mem.read m mlen
  accepts_iff : ∀ (mem : Mem) (m c clen : Nat), PlaintextRange m c clen →
    ((calls.decrypt mem m c clen).result = 0 ↔ asconTagSize ≤ clen ∧
      mem.read c clen =
        calls.encryptedBytes ((calls.decrypt mem m c clen).mem.read m (clen - asconTagSize)))
  rejects : ∀ (mem : Mem) (m c clen : Nat), PlaintextRange m c clen →
    (calls.decrypt mem m c clen).result ≠ 0 → (calls.decrypt mem m c clen).result = -1
  clears : ∀ (mem : Mem) (m c clen : Nat), PlaintextRange m c clen → asconTagSize ≤ clen →
    (calls.decrypt mem m c clen).result = -1 →
    ∀ i < clen - asconTagSize, (calls.decrypt mem m c clen).mem (m + i) = 0

namespace Implements

variable {calls : SealedCalls} {cipher : SealedCipher Byte} (implements : calls.Implements cipher)

include implements

theorem encryptedBytes_eq_sealMessage (message : List Byte) :
    calls.encryptedBytes message = cipher.sealMessage message := by
  have bytes : (tablePtr message).read 0 message.length = message := read_getD message
  have len := cipher.length_sealMessage message
  rw [implements.tagSize] at len
  rw [encryptedBytes, implements.encrypt_eq _ (Or.inl rfl), bytes, ← len]
  exact read_write_same _ _ _

/-- What the encrypt function leaves in its output buffer. -/
theorem read_encrypt (mem : Mem) {c m mlen : Nat} (ranges : PlaintextRange m c (mlen + asconTagSize)) :
    (calls.encrypt mem c m mlen).1.read c (mlen + asconTagSize) =
      cipher.sealMessage (mem.read m mlen) := by
  have len := cipher.length_sealMessage (mem.read m mlen)
  rw [length_read, implements.tagSize] at len
  rw [implements.encrypt_eq mem ranges, ← len]
  exact read_write_same _ _ _

/-- A sealed message decrypts. -/
theorem decrypt_of_sealMessage (mem : Mem) {m c clen : Nat} (ranges : PlaintextRange m c clen)
    {message : List Byte} (sealed : mem.read c clen = cipher.sealMessage message) :
    calls.decrypt mem m c clen = ⟨mem.write m message, some message.length, 0⟩ := by
  have len := congrArg List.length sealed
  rw [length_read, cipher.length_sealMessage, implements.tagSize] at len
  subst len
  rw [read_add] at sealed
  have revealed := (cipher.reveal_iff_sealMessage
    (by rw [length_read, implements.tagSize])).2 sealed
  rw [implements.decrypt_eq mem ranges, revealed]

/-- A string of at least a tag is a sealed message and decrypts, or it is none and is rejected. -/
theorem decrypt_cases (mem : Mem) {m c clen : Nat} (long : asconTagSize ≤ clen)
    (ranges : PlaintextRange m c clen) :
    (∃ message, message.length = clen - asconTagSize ∧
      mem.read c clen = cipher.sealMessage message ∧
      calls.decrypt mem m c clen = ⟨mem.write m message, some (clen - asconTagSize), 0⟩) ∨
    ((∀ message, mem.read c clen ≠ cipher.sealMessage message) ∧
      calls.decrypt mem m c clen =
        ⟨mem.write m (List.replicate (clen - asconTagSize) 0), some (clen - asconTagSize), -1⟩) := by
  by_cases sealed : ∃ message, mem.read c clen = cipher.sealMessage message
  · obtain ⟨message, sealed⟩ := sealed
    have len := congrArg List.length sealed
    rw [length_read, cipher.length_sealMessage, implements.tagSize] at len
    have decrypted := implements.decrypt_of_sealMessage mem ranges sealed
    have same : message.length = clen - asconTagSize := by omega
    rw [same] at decrypted
    exact Or.inl ⟨message, same, sealed, decrypted⟩
  · have forged : ∀ message, mem.read c clen ≠ cipher.sealMessage message :=
      fun message equal => sealed ⟨message, equal⟩
    refine Or.inr ⟨forged, ?_⟩
    obtain ⟨mlen, rfl⟩ := Nat.exists_eq_add_of_le' long
    have hidden : cipher.reveal (mem.read c mlen) (mem.read (c + mlen) asconTagSize) = none := by
      refine Option.eq_none_iff_forall_ne_some.2 fun message revealed => ?_
      rw [cipher.reveal_iff_sealMessage (by rw [length_read, implements.tagSize]),
        ← read_add] at revealed
      exact forged message revealed
    rw [implements.decrypt_eq mem ranges, hidden, Nat.add_sub_cancel]

theorem exactInverse : calls.ExactInverse := by
  have minus_one : (-1 : Int) ≠ 0 := by decide
  constructor
  · intro mem c m mlen m' ranges ranges'
    have written := implements.read_encrypt mem ranges
    have length_eq : (calls.encrypt mem c m mlen).2 = mlen + asconTagSize := by
      rw [implements.encrypt_eq mem ranges]
    have returned := read_write_same (calls.encrypt mem c m mlen).1 m' (mem.read m mlen)
    rw [length_read] at returned
    simp only
    rw [length_eq, implements.decrypt_of_sealMessage _ ranges' written, length_read,
      implements.encryptedBytes_eq_sealMessage]
    exact ⟨rfl, written, rfl, rfl, returned⟩
  · intro mem m c clen ranges
    rcases Nat.lt_or_ge clen asconTagSize with short | long
    · rw [implements.decrypt_of_lt mem m c short]
      exact ⟨fun zero => absurd zero minus_one, fun ⟨long, _⟩ => absurd short (by omega)⟩
    · rcases implements.decrypt_cases mem long ranges with
        ⟨message, len, sealed, decrypted⟩ | ⟨forged, decrypted⟩
      · have output := read_write_same mem m message
        rw [len] at output
        rw [decrypted, output, implements.encryptedBytes_eq_sealMessage]
        exact ⟨fun _ => ⟨long, sealed⟩, fun _ => rfl⟩
      · rw [decrypted, implements.encryptedBytes_eq_sealMessage]
        exact ⟨fun zero => absurd zero minus_one, fun ⟨_, sealed⟩ => absurd sealed (forged _)⟩
  · intro mem m c clen ranges failed
    rcases Nat.lt_or_ge clen asconTagSize with short | long
    · rw [implements.decrypt_of_lt mem m c short]
    · rcases implements.decrypt_cases mem long ranges with ⟨_, -, -, decrypted⟩ | ⟨-, rejected⟩
      · rw [decrypted] at failed
        exact absurd rfl failed
      · rw [rejected]
  · intro mem m c clen ranges long failed i hi
    rcases implements.decrypt_cases mem long ranges with ⟨_, -, -, decrypted⟩ | ⟨-, rejected⟩
    · rw [decrypted] at failed
      exact absurd failed.symm minus_one
    · have inside : i < (List.replicate (clen - asconTagSize) (0 : Byte)).length := by
        rwa [List.length_replicate]
      have byte := write_apply_of_lt mem m _ inside
      rw [List.getD_eq_getElem _ _ inside, List.getElem_replicate] at byte
      rw [rejected]
      exact byte

end Implements

end SealedCalls

/-! ### The AEAD functions -/

/-- The functions of `aead/` for one message. -/
def aeadCalls (v : AeadVariant) (ad : Mem) (adlen : Nat) (npub k : Mem) : SealedCalls where
  encrypt := fun mem c m mlen => aeadEncrypt v mem c m mlen ad adlen npub k
  decrypt := fun mem m c clen => aeadDecrypt v mem m c clen ad adlen npub k

theorem aeadCalls_implements (v : AeadVariant) (ad : Mem) (adlen : Nat) (npub k : Mem) :
    (aeadCalls v ad adlen npub k).Implements
      ((aeadStream v k).cipher (v.start ad adlen npub k, 0)) where
  tagSize := rfl
  encrypt_eq := fun mem c m mlen ranges => by
    have apart : SameOrApart c m mlen := by
      unfold PlaintextRange at ranges
      unfold SameOrApart
      omega
    exact aeadEncrypt_eq v mem ad adlen npub k apart
  decrypt_of_lt := fun mem m c _ short => aeadDecrypt_of_lt v mem m c ad adlen npub k short
  decrypt_eq := fun mem m c mlen ranges => by
    have decrypted := aeadDecrypt_eq v mem ad adlen npub k (Nat.le_add_left asconTagSize mlen) ranges
    have opened := (aeadStream v k).openMessage_append (v.start ad adlen npub k, 0) (mem.read c mlen)
      (mem.read (c + mlen) asconTagSize) (length_read _ _ _)
    rw [Nat.add_sub_cancel, read_add, opened] at decrypted
    exact decrypted

end AsconSuite
