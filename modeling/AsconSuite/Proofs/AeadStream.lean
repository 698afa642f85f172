/-
Module: AsconSuite.Proofs.AeadStream
Layer: Proofs
Purpose: The one-shot functions refine a sealed stream. Encryption writes the sealed message; decryption
  writes what the string opens to, or zeroes, and its result says which.
Imports: AsconSuite.Proofs.MessageLoops, AsconSuite.Aead.OneShot, AsconSuite.Base.SealedStream
Trusted boundary: none
Main exports: aeadStream, asconAeadCheckTag_eq, aeadEncrypt_eq, aeadDecrypt_eq, PlaintextRange
-/
import AsconSuite.Proofs.MessageLoops
import AsconSuite.Aead.OneShot
import AsconSuite.Base.SealedStream

namespace AsconSuite

open ByteWord ByteMemory
open Transducer (run)

/-! ### Tag check -/

/-- The accumulator is a byte, and it is zero when it was and the tags agree. -/
theorem tagAccum_eq (accum : Byte) (tag1 tag2 : Mem) (size : Nat) :
    ∃ diff : Byte, tagAccum (accum.setWidth 32) tag1 tag2 size = diff.setWidth 32 ∧
      (diff = 0 ↔ accum = 0 ∧ tag1.read 0 size = tag2.read 0 size) := by
  induction size generalizing accum tag1 tag2 with
  | zero => exact ⟨accum, rfl, by simp⟩
  | succ size ih =>
      obtain ⟨diff, accum_eq, zero_iff⟩ := ih (accum ||| (tag1 0 ^^^ tag2 0)) (tag1.view 1) (tag2.view 1)
      have first : accum ||| (tag1 0 ^^^ tag2 0) = 0 ↔ accum = 0 ∧ tag1 0 = tag2 0 :=
        BitVec.or_eq_zero_iff.trans (and_congr_right' BitVec.xor_eq_zero_iff)
      refine ⟨diff, ?_, ?_⟩
      · rw [tagAccum, ← accum_eq, BitVec.setWidth_or]
      · rw [zero_iff, first, read_view, read_view, read_succ, read_succ, List.cons.injEq, and_assoc,
          Nat.add_comm 0 1]

/-- The shift turns a difference into a mask of zeroes, and no difference into a mask of ones. -/
theorem sshiftRight_pred_setWidth (diff : Byte) :
    (diff.setWidth 32 - 1 : BitVec 32).sshiftRight 8 =
      if diff = 0 then BitVec.allOnes 32 else 0 := by
  revert diff
  decide

theorem maskPlaintext_allOnes (mem : Mem) (plaintext len : Nat) :
    maskPlaintext mem plaintext (BitVec.allOnes 32) len = mem := by
  induction len generalizing mem plaintext with
  | zero => rfl
  | succ len ih =>
      rw [maskPlaintext, ih]
      funext a
      rw [Mem.store]
      split
      · next here => rw [here, show (BitVec.allOnes 32).setWidth 8 = BitVec.allOnes 8 by decide,
          BitVec.and_allOnes]
      · rfl

theorem maskPlaintext_zero (mem : Mem) (plaintext len : Nat) :
    maskPlaintext mem plaintext 0 len = mem.write plaintext (List.replicate len 0) := by
  induction len generalizing mem plaintext with
  | zero => rw [maskPlaintext, List.replicate_zero, write_nil]
  | succ len ih =>
      rw [maskPlaintext, ih, List.replicate_succ, ← write_cons]
      simp

/-- The tag check keeps the plaintext and returns 0, or clears the plaintext and returns -1. -/
theorem asconAeadCheckTag_eq (mem : Mem) (plaintext plaintextLen : Nat) (tag1 tag2 : Mem)
    (size : Nat) :
    asconAeadCheckTag mem plaintext plaintextLen tag1 tag2 size =
      if tag1.read 0 size = tag2.read 0 size then (mem, 0)
      else (mem.write plaintext (List.replicate plaintextLen 0), -1) := by
  obtain ⟨diff, accum_eq, zero_iff⟩ := tagAccum_eq 0 tag1 tag2 size
  rw [show (0 : Byte).setWidth 32 = 0 from rfl] at accum_eq
  rw [asconAeadCheckTag, accum_eq, sshiftRight_pred_setWidth]
  by_cases agree : tag1.read 0 size = tag2.read 0 size
  · rw [if_pos agree, if_pos (zero_iff.2 ⟨rfl, agree⟩), maskPlaintext_allOnes]
    rfl
  · rw [if_neg agree, if_neg (fun zero => agree (zero_iff.1 zero).2), maskPlaintext_zero]
    rfl

/-! ### The stream of an algorithm -/

/-- The algorithm as a sealed stream, from the separator on. -/
def aeadStream (v : AeadVariant) (k : Mem) : SealedStream (AsconState × Nat) Byte Byte where
  enc := (asconDuplex v.rate v.firstRound).step encMix
  dec := (asconDuplex v.rate v.firstRound).step decMix
  dec_enc := (asconDuplex v.rate v.firstRound).step_inverts encMix decMix_encMix
  enc_dec := (asconDuplex v.rate v.firstRound).step_inverts decMix encMix_decMix
  tag := fun st => (tagBuffer (v.finalize (asconPad st.1 st.2) k)).read 0 asconTagSize
  tagSize := asconTagSize
  length_tag := fun _ => length_read _ _ _

theorem AeadVariant.encryptMessage_eq_messageRun (v : AeadVariant) (s : AsconState) (mem : Mem)
    {dest src len partialLen : Nat} (inside : partialLen < v.rate.size)
    (ranges : SameOrApart dest src len) :
    v.encryptMessage s mem dest src len partialLen =
      messageRun encMix v.rate v.firstRound s mem dest src len partialLen := by
  have loop := aeadCrypt_eq_messageRun (encryptBlock_eq_combine v.rate)
    (fun s mem dest src offset count fits _ =>
      asconEncryptPartial_eq_combine s mem dest src fits) v.firstRound s mem inside ranges
  cases v <;> exact loop

theorem AeadVariant.decryptMessage_eq_messageRun (v : AeadVariant) (s : AsconState) (mem : Mem)
    {dest src len partialLen : Nat} (inside : partialLen < v.rate.size)
    (ranges : SameOrApart dest src len) :
    v.decryptMessage s mem dest src len partialLen =
      messageRun decMix v.rate v.firstRound s mem dest src len partialLen := by
  have loop := aeadCrypt_eq_messageRun (decryptBlock_eq_combine v.rate)
    (fun s mem dest src offset count fits ranges =>
      asconDecryptPartial_eq_combine s mem fits ranges) v.firstRound s mem inside ranges
  cases v <;> exact loop

theorem asconSqueeze16_eq_write (s : AsconState) (mem : Mem) (dest : Nat) :
    asconSqueeze16 s mem dest 24 = mem.write dest (Mem.read (byteForOffset s) 24 16) := by
  rw [asconSqueeze16, beStoreWord64, beStoreWord64, beBytes64_eq, beBytes64_eq]
  exact write_append mem dest _ _

theorem read_tagBuffer (s : AsconState) :
    (tagBuffer s).read 0 asconTagSize = Mem.read (byteForOffset s) 24 16 := by
  rw [tagBuffer, asconSqueeze16_eq_write]
  exact read_write_same _ _ _

/-- Both ways of squeezing the tag write the same sixteen bytes. -/
theorem AeadVariant.squeezeTag_eq_write (v : AeadVariant) (s : AsconState) (mem : Mem) (tag : Nat) :
    v.squeezeTag s mem tag = mem.write tag ((tagBuffer s).read 0 asconTagSize) := by
  rw [read_tagBuffer]
  have fits : 24 + asconTagSize ≤ 40 := by decide
  cases v with
  | ascon128 => exact asconExtractBytes_eq_write s mem tag fits
  | ascon128a => exact asconExtractBytes_eq_write s mem tag fits
  | ascon80pq => exact asconSqueeze16_eq_write s mem tag

/-! ### The one-shot functions -/

/-- Encryption writes the sealed message and reports its length. -/
theorem aeadEncrypt_eq (v : AeadVariant) (mem : Mem) {c m mlen : Nat} (ad : Mem) (adlen : Nat)
    (npub k : Mem) (ranges : SameOrApart c m mlen) :
    aeadEncrypt v mem c m mlen ad adlen npub k =
      (mem.write c
        ((aeadStream v k).sealMessage (v.start ad adlen npub k, 0) (mem.read m mlen)),
        mlen + asconTagSize) := by
  have joined := write_append mem c
    (run (aeadStream v k).enc (v.start ad adlen npub k, 0) (mem.read m mlen)).2
    ((aeadStream v k).tag
      (run (aeadStream v k).enc (v.start ad adlen npub k, 0) (mem.read m mlen)).1)
  rw [Transducer.length_run, length_read] at joined
  rw [aeadEncrypt]
  simp only
  rw [v.encryptMessage_eq_messageRun _ _ v.rate.size_pos ranges, v.squeezeTag_eq_write,
    SealedStream.sealMessage, ← joined]
  rfl

/-- Where the plaintext of a decryption may go: on the ciphertext itself, or apart from it and from
the tag behind it. -/
def PlaintextRange (m c clen : Nat) : Prop :=
  m = c ∨ m + (clen - asconTagSize) ≤ c ∨ c + clen ≤ m

instance (m c clen : Nat) : Decidable (PlaintextRange m c clen) := by
  unfold PlaintextRange
  infer_instance

theorem PlaintextRange.sameOrApart {m c clen : Nat} (ranges : PlaintextRange m c clen) :
    SameOrApart m c (clen - asconTagSize) := by
  unfold PlaintextRange at ranges
  unfold SameOrApart
  omega

/-- The tag check at the end of a decryption: the tag behind the ciphertext is compared where the
plaintext has not been written, and a plaintext that fails is cleared. -/
theorem PlaintextRange.checkTag_eq {m c mlen : Nat} (ranges : PlaintextRange m c (mlen + asconTagSize))
    (mem : Mem) {plain : List Byte} (len : plain.length = mlen) (tag : Mem) :
    asconAeadCheckTag (mem.write m plain) m mlen tag ((mem.write m plain).view (c + mlen)) asconTagSize =
      if tag.read 0 asconTagSize = mem.read (c + mlen) asconTagSize then (mem.write m plain, 0)
      else (mem.write m (List.replicate mlen 0), -1) := by
  have tag_kept : ((mem.write m plain).view (c + mlen)).read 0 asconTagSize =
      mem.read (c + mlen) asconTagSize := by
    rw [read_view]
    refine read_write_apart _ _ _ ?_
    unfold PlaintextRange at ranges
    omega
  have cleared : (mem.write m plain).write m (List.replicate mlen 0) =
      mem.write m (List.replicate mlen 0) :=
    write_write _ _ (by rw [len, List.length_replicate])
  rw [asconAeadCheckTag_eq, tag_kept, cleared]

/-- A string too short to hold a tag is rejected before anything is assigned. -/
theorem aeadDecrypt_of_lt (v : AeadVariant) (mem : Mem) (m c : Nat) {clen : Nat} (ad : Mem)
    (adlen : Nat) (npub k : Mem) (short : clen < asconTagSize) :
    aeadDecrypt v mem m c clen ad adlen npub k = ⟨mem, none, -1⟩ := by
  rw [aeadDecrypt, if_pos short]

/-- Decryption writes what the string opens to, or clears the buffer. -/
theorem aeadDecrypt_eq (v : AeadVariant) (mem : Mem) {m c clen : Nat} (ad : Mem) (adlen : Nat)
    (npub k : Mem) (long : asconTagSize ≤ clen) (ranges : PlaintextRange m c clen) :
    aeadDecrypt v mem m c clen ad adlen npub k =
      match (aeadStream v k).openMessage (v.start ad adlen npub k, 0) (mem.read c clen) with
      | some message => ⟨mem.write m message, some (clen - asconTagSize), 0⟩
      | none =>
          ⟨mem.write m (List.replicate (clen - asconTagSize) 0), some (clen - asconTagSize), -1⟩ := by
  obtain ⟨mlen, rfl⟩ := Nat.exists_eq_add_of_le' long
  have apart := ranges.sameOrApart
  rw [Nat.add_sub_cancel] at apart ⊢
  obtain ⟨⟨⟨last, pos⟩, plain⟩, done⟩ : ∃ ended,
      run (aeadStream v k).dec (v.start ad adlen npub k, 0) (mem.read c mlen) = ended := ⟨_, rfl⟩
  have plain_len : plain.length = mlen := by
    have len := Transducer.length_run (aeadStream v k).dec (v.start ad adlen npub k, 0)
      (mem.read c mlen)
    rwa [done, length_read] at len
  have decrypted : v.decryptMessage (v.start ad adlen npub k) mem m c mlen 0 =
      (last, mem.write m plain, pos) :=
    (v.decryptMessage_eq_messageRun _ _ v.rate.size_pos apart).trans
      (congrArg (fun ended : (AsconState × Nat) × List Byte =>
        (ended.1.1, mem.write m ended.2, ended.1.2)) done)
  rw [aeadDecrypt, if_neg (by omega), Nat.add_sub_cancel, read_add,
    (aeadStream v k).openMessage_append _ _ (mem.read (c + mlen) asconTagSize)
      (length_read _ _ _), done]
  simp only [decrypted]
  rw [ranges.checkTag_eq mem plain_len]
  have tag_eq : (tagBuffer (v.finalize (asconPad last pos) k)).read 0 asconTagSize =
      (aeadStream v k).tag (last, pos) := rfl
  rw [tag_eq]
  by_cases agree : (aeadStream v k).tag (last, pos) = mem.read (c + mlen) asconTagSize
  · rw [if_pos agree, if_pos agree]
  · rw [if_neg agree, if_neg agree]

end AsconSuite
