/-
Module: AsconSuite.Proofs.AeadInverse
Layer: Proofs
Purpose: One-shot encryption and decryption are exact inverses, on the same buffer and between two buffers.
Imports: AsconSuite.Proofs.AeadStream, AsconSuite.Proofs.InputBytes
Trusted boundary: none
Main exports: encryptedBytes, aeadEncrypt_aeadDecrypt_inverse
-/
import AsconSuite.Proofs.AeadStream
import AsconSuite.Proofs.InputBytes

namespace AsconSuite

open ByteWord ByteMemory

/-- What the encrypt function makes of a byte string that is alone in memory, in place. -/
def encryptedBytes (v : AeadVariant) (ad : Mem) (adlen : Nat) (npub k : Mem)
    (message : List Byte) : List Byte :=
  let done := aeadEncrypt v (tablePtr message) 0 0 message.length ad adlen npub k
  done.1.read 0 done.2

section

variable (v : AeadVariant) (ad : Mem) (adlen : Nat) (npub k : Mem)

theorem encryptedBytes_eq_sealMessage (message : List Byte) :
    encryptedBytes v ad adlen npub k message =
      (aeadStream v k).sealMessage (v.start ad adlen npub k, 0) message := by
  have bytes : (tablePtr message).read 0 message.length = message := read_getD message
  have len := (aeadStream v k).length_sealMessage (v.start ad adlen npub k, 0) message
  rw [encryptedBytes, aeadEncrypt_eq v _ ad adlen npub k (Or.inl rfl)]
  simp only
  rw [bytes]
  exact (congrArg _ len.symm).trans (read_write_same _ _ _)

@[simp] theorem length_encryptedBytes (message : List Byte) :
    (encryptedBytes v ad adlen npub k message).length = message.length + asconTagSize := by
  rw [encryptedBytes_eq_sealMessage, SealedStream.length_sealMessage]
  rfl

/-- The encrypted bytes depend on the bytes of the associated data and of the fields only. -/
theorem encryptedBytes_congr {ad ad' : Mem} {adlen : Nat} {npub npub' k k' : Mem}
    (data : ∀ i < adlen, ad i = ad' i) (nonce : ∀ i < 16, npub i = npub' i)
    (key : ∀ i < v.keySize, k i = k' i) (message : List Byte) :
    encryptedBytes v ad adlen npub k message = encryptedBytes v ad' adlen npub' k' message := by
  have start : v.start ad adlen npub k = v.start ad' adlen npub' k' :=
    v.startFrom_congr asconInit asconInit data nonce key
  have tag (st : AsconState × Nat) : (aeadStream v k).tag st = (aeadStream v k').tag st := by
    simp only [aeadStream, v.finalize_congr _ key]
  rw [encryptedBytes_eq_sealMessage, encryptedBytes_eq_sealMessage, start,
    SealedStream.sealMessage, SealedStream.sealMessage, tag]
  rfl

/-- In any buffers the encrypt function writes the encrypted bytes of the message and nothing else. -/
theorem aeadEncrypt_eq_write (mem : Mem) {c m mlen : Nat} (ranges : SameOrApart c m mlen) :
    aeadEncrypt v mem c m mlen ad adlen npub k =
      (mem.write c (encryptedBytes v ad adlen npub k (mem.read m mlen)), mlen + asconTagSize) := by
  rw [encryptedBytes_eq_sealMessage, aeadEncrypt_eq v mem ad adlen npub k ranges]

theorem read_aeadEncrypt (mem : Mem) {c m mlen : Nat} (ranges : SameOrApart c m mlen) :
    (aeadEncrypt v mem c m mlen ad adlen npub k).1.read c (mlen + asconTagSize) =
      encryptedBytes v ad adlen npub k (mem.read m mlen) := by
  have len := length_encryptedBytes v ad adlen npub k (mem.read m mlen)
  rw [length_read] at len
  rw [aeadEncrypt_eq_write v ad adlen npub k mem ranges, ← len]
  exact read_write_same _ _ _

/-- Encrypted bytes decrypt to the message they were made of. -/
theorem aeadDecrypt_of_encryptedBytes (mem : Mem) {m c clen : Nat} (ranges : PlaintextRange m c clen)
    {message : List Byte} (encrypted : mem.read c clen = encryptedBytes v ad adlen npub k message) :
    aeadDecrypt v mem m c clen ad adlen npub k =
      ⟨mem.write m message, some message.length, 0⟩ := by
  have len := congrArg List.length encrypted
  rw [length_read, length_encryptedBytes] at len
  subst len
  rw [aeadDecrypt_eq v mem ad adlen npub k (by omega) ranges, encrypted,
    encryptedBytes_eq_sealMessage, SealedStream.openMessage_sealMessage, Nat.add_sub_cancel]

/-- The two outcomes of a decryption of at least a tag. -/
theorem aeadDecrypt_cases (mem : Mem) {m c clen : Nat} (long : asconTagSize ≤ clen)
    (ranges : PlaintextRange m c clen) :
    (∃ message, message.length = clen - asconTagSize ∧
      mem.read c clen = encryptedBytes v ad adlen npub k message ∧
      aeadDecrypt v mem m c clen ad adlen npub k =
        ⟨mem.write m message, some (clen - asconTagSize), 0⟩) ∨
    ((∀ message, mem.read c clen ≠ encryptedBytes v ad adlen npub k message) ∧
      aeadDecrypt v mem m c clen ad adlen npub k =
        ⟨mem.write m (List.replicate (clen - asconTagSize) 0), some (clen - asconTagSize), -1⟩) := by
  have decrypted := aeadDecrypt_eq v mem ad adlen npub k long ranges
  cases opened : (aeadStream v k).openMessage (v.start ad adlen npub k, 0) (mem.read c clen) with
  | some message =>
      obtain ⟨mlen, rfl⟩ := Nat.exists_eq_add_of_le' long
      rw [opened] at decrypted
      have sealed := opened
      rw [read_add, (aeadStream v k).openMessage_eq_some_iff _ _ (mem.read (c + mlen) asconTagSize)
        (length_read _ _ _), ← read_add, ← encryptedBytes_eq_sealMessage] at sealed
      have len := congrArg List.length sealed
      rw [length_read, length_encryptedBytes] at len
      exact Or.inl ⟨message, by omega, sealed, decrypted⟩
  | none =>
      rw [opened] at decrypted
      refine Or.inr ⟨fun message encrypted => ?_, decrypted⟩
      rw [encrypted, encryptedBytes_eq_sealMessage, SealedStream.openMessage_sealMessage] at opened
      cases opened

end

/-- Decrypting what was encrypted returns 0 with the message and its length. Conversely decryption
returns 0 exactly when the string is the encryption of the plaintext it wrote; otherwise it returns -1,
and a plaintext whose tag failed is all zeroes. -/
theorem aead_encrypt_decrypt_inverse (v : AeadVariant) (ad : Mem) (adlen : Nat) (npub k : Mem) :
    (∀ (mem : Mem) (c m mlen m' : Nat), SameOrApart c m mlen →
      PlaintextRange m' c (mlen + asconTagSize) →
      let e := aeadEncrypt v mem c m mlen ad adlen npub k
      let d := aeadDecrypt v e.1 m' c e.2 ad adlen npub k
      e.2 = mlen + asconTagSize ∧
      e.1.read c e.2 = encryptedBytes v ad adlen npub k (mem.read m mlen) ∧
      d.result = 0 ∧ d.mlen = some mlen ∧ d.mem.read m' mlen = mem.read m mlen) ∧
    (∀ (mem : Mem) (m c clen : Nat), PlaintextRange m c clen →
      let d := aeadDecrypt v mem m c clen ad adlen npub k
      (d.result = 0 ↔ asconTagSize ≤ clen ∧
        mem.read c clen = encryptedBytes v ad adlen npub k (d.mem.read m (clen - asconTagSize))) ∧
      (d.result ≠ 0 → d.result = -1) ∧
      (asconTagSize ≤ clen → d.result = -1 →
        ∀ i < clen - asconTagSize, d.mem (m + i) = 0)) := by
  constructor
  · intro mem c m mlen m' ranges ranges'
    have written := read_aeadEncrypt v ad adlen npub k mem ranges
    have length_eq : (aeadEncrypt v mem c m mlen ad adlen npub k).2 = mlen + asconTagSize := by
      rw [aeadEncrypt_eq_write v ad adlen npub k mem ranges]
    simp only
    rw [length_eq, aeadDecrypt_of_encryptedBytes v ad adlen npub k _ ranges' written, length_read]
    refine ⟨rfl, written, rfl, rfl, ?_⟩
    have returned := read_write_same (aeadEncrypt v mem c m mlen ad adlen npub k).1 m'
      (mem.read m mlen)
    rwa [length_read] at returned
  · intro mem m c clen ranges
    have minus_one : (-1 : Int) ≠ 0 := by decide
    simp only
    rcases Nat.lt_or_ge clen asconTagSize with short | long
    · rw [aeadDecrypt_of_lt v mem m c ad adlen npub k short]
      exact ⟨⟨fun zero => absurd zero minus_one, fun ⟨long, _⟩ => absurd short (by omega)⟩,
        fun _ => rfl, fun long => absurd short (by omega)⟩
    · rcases aeadDecrypt_cases v ad adlen npub k mem long ranges with
        ⟨message, len, encrypted, decrypted⟩ | ⟨forged, decrypted⟩
      · have output := read_write_same mem m message
        rw [len] at output
        rw [decrypted, output]
        exact ⟨⟨fun _ => ⟨long, encrypted⟩, fun _ => rfl⟩, fun nonzero => absurd rfl nonzero,
          fun _ failed => absurd failed.symm minus_one⟩
      · rw [decrypted]
        have inside (i : Nat) (hi : i < clen - asconTagSize) :
            i < (List.replicate (clen - asconTagSize) (0 : Byte)).length := by
          rwa [List.length_replicate]
        refine ⟨⟨fun zero => absurd zero minus_one,
          fun ⟨_, encrypted⟩ => absurd encrypted (forged _)⟩, fun _ => rfl, fun _ _ i hi => ?_⟩
        have byte := write_apply_of_lt mem m _ (inside i hi)
        rw [List.getD_eq_getElem _ _ (inside i hi), List.getElem_replicate] at byte
        exact byte

/-- A message of five bytes encrypted and decrypted in place, and a forged string of twenty zeroes. -/
theorem aead_encrypt_decrypt_inverse_inPlace :
    (aeadDecrypt .ascon128a
      (aeadEncrypt .ascon128a (fun i => BitVec.ofNat 8 i) 0 0 5 (fun _ => 0) 0 (fun _ => 0)
        (fun _ => 0)).1 0 0
      (aeadEncrypt .ascon128a (fun i => BitVec.ofNat 8 i) 0 0 5 (fun _ => 0) 0 (fun _ => 0)
        (fun _ => 0)).2 (fun _ => 0) 0 (fun _ => 0) (fun _ => 0)).mem.read 0 5 = [0, 1, 2, 3, 4] ∧
    ((aeadDecrypt .ascon128a (fun _ => 0) 0 0 20 (fun _ => 0) 0 (fun _ => 0) (fun _ => 0)).result ≠ 0 →
      (aeadDecrypt .ascon128a (fun _ => 0) 0 0 20 (fun _ => 0) 0 (fun _ => 0)
        (fun _ => 0)).result = -1) := by
  have inverse := aead_encrypt_decrypt_inverse .ascon128a (fun _ => 0) 0 (fun _ => 0) (fun _ => 0)
  have returned := (inverse.1 (fun i => BitVec.ofNat 8 i) 0 0 5 0 (Or.inl rfl) (Or.inl rfl)).2.2.2.2
  exact ⟨returned.trans (by decide),
    (inverse.2 (fun _ => 0) 0 0 20 (Or.inl rfl)).2.1⟩

end AsconSuite
