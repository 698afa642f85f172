/-
Module: AsconSuite.Proofs.SivInverse
Layer: Proofs
Purpose: The SIV functions implement a cipher whose tag is the initialization vector of its encryption, so they
  are exact inverses of each other.
Imports: AsconSuite.Aead.Siv, AsconSuite.Proofs.Keystream, AsconSuite.Proofs.SealedCalls,
  AsconSuite.Proofs.InputBytes
Trusted boundary: none
Main exports: sivCipher, sivCalls, sivCalls_implements, siv_encrypt_decrypt_inverse
-/
import AsconSuite.Aead.Siv
import AsconSuite.Proofs.Keystream
import AsconSuite.Proofs.SealedCalls
import AsconSuite.Proofs.InputBytes

namespace AsconSuite

open ByteWord ByteMemory

/-! ### The encryption phase -/

/-- A squeezed block holds the first bytes of the state. -/
theorem squeezeBlock_apply (rate : Rate) (s : AsconState) {j : Nat} (hj : j < rate.size) :
    rate.squeezeBlock s j = byteForOffset s j := by
  have written : rate.squeezeBlock s =
      Mem.write (fun _ => 0) 0 (Mem.read (byteForOffset s) 0 rate.size) := by
    cases rate with
    | eight =>
        rw [← asconExtractBytes_eq_write s _ 0 (by decide)]
        exact asconSqueeze8_eq_extractBytes s _ 0 rfl (by decide)
    | sixteen =>
        rw [← asconExtractBytes_eq_write s _ 0 (by decide)]
        exact asconSqueeze16_eq_extractBytes s _ 0 rfl (by decide)
  have byte := write_apply_of_lt (fun _ => 0) 0 (Mem.read (byteForOffset s) 0 rate.size)
    (show j < _ by rwa [length_read])
  rw [getD_read _ _ hj, Nat.zero_add] at byte
  rw [written]
  exact byte

/-- Adding a block of bytes of the state to some data. -/
theorem lwXorBlock2Src_eq_combine (s : AsconState) (mem : Mem) {dest src offset len : Nat} {block : Mem}
    (bytes : ∀ j < len, block j = byteForOffset s (offset + j)) (fits : offset + len ≤ 40)
    (ranges : SameOrApart dest src len) :
    lwXorBlock2Src mem dest block src len = (combine keystreamMix s mem dest src offset len).2 := by
  induction len generalizing mem dest src offset block with
  | zero => rw [lwXorBlock2Src, combine, read_zero, Cells.fill_nil, write_nil]
  | succ len ih =>
      have first := bytes 0 (by omega)
      have behind := ranges
      rw [Nat.add_comm len 1] at behind
      rw [lwXorBlock2Src, first, Nat.add_zero, combine_keystreamMix_succ s mem fits ranges]
      refine ih _ (fun j hj => ?_) (by omega) behind.back
      rw [view_apply, bytes (1 + j) (by omega), Nat.add_assoc]

theorem asconSivCrypt_eq_write (rate : Rate) (s : AsconState) (mem : Mem) {dest src len : Nat}
    (firstRound : Nat) (ranges : SameOrApart dest src len) :
    (asconSivCrypt rate s mem dest src len firstRound).2 =
      mem.write dest (keystream rate firstRound s (mem.read src len)) := by
  have small := rate.size_le
  refine keystreamLoop_eq_write (fun s mem dest src len fits ranges => ?_) firstRound s mem ranges
  refine lwXorBlock2Src_eq_combine s mem (fun j hj => ?_) (by omega) ranges
  rw [squeezeBlock_apply rate s (by omega), Nat.zero_add]

namespace AeadVariant

variable (v : AeadVariant)

theorem sivCrypt_eq_write (s : AsconState) (mem : Mem) {dest src len : Nat}
    (ranges : SameOrApart dest src len) :
    (v.sivCrypt s mem dest src len).2 =
      mem.write dest (keystream v.rate v.firstRound s (mem.read src len)) := by
  cases v with
  | ascon128 => exact asconSivCrypt_eq_write .eight s mem 6 ranges
  | ascon128a => exact asconSivCrypt_eq_write .sixteen s mem 4 ranges
  | ascon80pq => exact asconSivCrypt_eq_write .eight s mem 6 ranges

/-! ### What the functions read -/

theorem sivInit_congr {npub npub' : Mem} (k : Mem) (iv : List Byte)
    (nonce : ∀ i < 16, npub i = npub' i) : v.sivInit npub k iv = v.sivInit npub' k iv := by
  have key (size : Nat) : ∀ i < size, k i = k i := fun _ _ => rfl
  cases v with
  | ascon128 =>
      have loaded := overwriteAll_congr asconInit asconInit (tablePtr iv) 8 rfl nonce (key 16)
      exact congrArg (fun state => absorbKey ascon128 (asconPermute state 0) k) loaded
  | ascon128a =>
      have loaded := overwriteAll_congr asconInit asconInit (tablePtr iv) 8 rfl nonce (key 16)
      exact congrArg (fun state => absorbKey ascon128a (asconPermute state 0) k) loaded
  | ascon80pq =>
      have loaded := overwriteAll_congr asconInit asconInit (tablePtr iv) 4 rfl nonce (key 20)
      exact congrArg (fun state => absorbKey ascon80pq (asconPermute state 0) k) loaded

theorem sivAuthenticate_congr {m m' : Mem} {mlen : Nat} (ad : Mem) (adlen : Nat) (npub k : Mem)
    (message : ∀ i < mlen, m i = m' i) :
    v.sivAuthenticate m mlen ad adlen npub k = v.sivAuthenticate m' mlen ad adlen npub k := by
  have absorbed (s : AsconState) : v.sivAbsorbMessage s m mlen = v.sivAbsorbMessage s m' mlen := by
    cases v with
    | ascon128 => exact aeadAbsorb_congr .eight s 6 false message
    | ascon128a => exact aeadAbsorb_congr .sixteen s 4 false message
    | ascon80pq => exact aeadAbsorb_congr .eight s 6 false message
  rw [sivAuthenticate, sivAuthenticate, absorbed]

end AeadVariant

/-! ### The cipher -/

section

variable (v : AeadVariant) (ad : Mem) (adlen : Nat) (npub k : Mem)

/-- The tag of a message. -/
def sivTag (message : List Byte) : List Byte :=
  (tagBuffer (v.sivAuthenticate (tablePtr message) message.length ad adlen npub k)).read 0 asconTagSize

/-- A message with the key stream of a tag added. -/
def sivBody (tag message : List Byte) : List Byte :=
  keystream v.rate v.firstRound (v.sivInit (tablePtr tag) k v.sivIv2) message

/-- The algorithm as a cipher. -/
def sivCipher : SealedCipher Byte :=
  .syntheticIv asconTagSize (sivTag v ad adlen npub k) (sivBody v k)
    (fun _ => length_read _ _ _) (fun _ _ => length_keystream _ _ _ _)
    fun _ _ => keystream_keystream _ _ _ _

/-- The functions of `siv/` for one message. -/
def sivCalls : SealedCalls where
  encrypt := fun mem c m mlen => sivEncrypt v mem c m mlen ad adlen npub k
  decrypt := fun mem m c clen => sivDecrypt v mem m c clen ad adlen npub k

variable {v ad adlen npub k}

theorem sivTag_read (mem : Mem) (m mlen : Nat) :
    sivTag v ad adlen npub k (mem.read m mlen) =
      Mem.read (byteForOffset (v.sivAuthenticate (mem.view m) mlen ad adlen npub k)) 24 16 := by
  rw [sivTag, read_tagBuffer, length_read,
    v.sivAuthenticate_congr ad adlen npub k fun i hi => tablePtr_read mem m hi]

theorem sivInit_read (mem : Mem) (tag : Nat) (iv : List Byte) :
    v.sivInit (tablePtr (mem.read tag asconTagSize)) k iv = v.sivInit (mem.view tag) k iv :=
  v.sivInit_congr k iv fun _ hi => tablePtr_read mem tag hi

end

theorem sivEncrypt_eq (v : AeadVariant) (mem : Mem) {c m mlen : Nat} (ad : Mem) (adlen : Nat)
    (npub k : Mem) (ranges : PlaintextRange m c (mlen + asconTagSize)) :
    sivEncrypt v mem c m mlen ad adlen npub k =
      (mem.write c ((sivCipher v ad adlen npub k).sealMessage (mem.read m mlen)),
        mlen + asconTagSize) := by
  obtain ⟨tag, tag_eq⟩ : ∃ tag, sivTag v ad adlen npub k (mem.read m mlen) = tag := ⟨_, rfl⟩
  have tag_len : tag.length = asconTagSize := by
    rw [← tag_eq]
    exact length_read _ _ _
  have tagged : asconSqueeze16 (v.sivAuthenticate (mem.view m) mlen ad adlen npub k) mem (c + mlen) 24 =
      mem.write (c + mlen) tag := by
    rw [asconSqueeze16_eq_write, ← sivTag_read, tag_eq]
  have nonce : v.sivInit ((mem.write (c + mlen) tag).view (c + mlen)) k v.sivIv2 =
      v.sivInit (tablePtr tag) k v.sivIv2 := by
    rw [← sivInit_read, ← tag_len, read_write_same]
  -- the tag is behind the place of the ciphertext, so the message is still there for the second pass.
  have kept : (mem.write (c + mlen) tag).read m mlen = mem.read m mlen := by
    refine read_write_apart _ _ _ ?_
    unfold PlaintextRange at ranges
    omega
  have apart : SameOrApart c m mlen := by
    unfold PlaintextRange at ranges
    unfold SameOrApart
    omega
  have body_len : (sivBody v k tag (mem.read m mlen)).length = mlen := by
    rw [sivBody, length_keystream, length_read]
  have joined := write_behind_write mem c (sivBody v k tag (mem.read m mlen)) tag
  rw [body_len] at joined
  rw [sivEncrypt]
  simp only
  rw [tagged, nonce, v.sivCrypt_eq_write _ _ apart, kept]
  refine congrArg (·, mlen + asconTagSize) (joined.trans ?_)
  rw [← tag_eq]
  rfl

theorem sivDecrypt_eq (v : AeadVariant) (mem : Mem) {m c mlen : Nat} (ad : Mem) (adlen : Nat)
    (npub k : Mem) (ranges : PlaintextRange m c (mlen + asconTagSize)) :
    sivDecrypt v mem m c (mlen + asconTagSize) ad adlen npub k =
      match (sivCipher v ad adlen npub k).reveal (mem.read c mlen) (mem.read (c + mlen) asconTagSize) with
      | some message => ⟨mem.write m message, some mlen, 0⟩
      | none => ⟨mem.write m (List.replicate mlen 0), some mlen, -1⟩ := by
  have apart := ranges.sameOrApart
  rw [Nat.add_sub_cancel] at apart
  obtain ⟨plain, plain_eq⟩ : ∃ plain,
      sivBody v k (mem.read (c + mlen) asconTagSize) (mem.read c mlen) = plain := ⟨_, rfl⟩
  have plain_len : plain.length = mlen := by
    rw [← plain_eq, sivBody, length_keystream, length_read]
  have decrypted : (v.sivCrypt (v.sivInit (mem.view (c + mlen)) k v.sivIv2) mem m c mlen).2 =
      mem.write m plain := by
    rw [v.sivCrypt_eq_write _ _ apart, ← plain_eq, sivBody, sivInit_read]
  have written := read_write_same mem m plain
  rw [plain_len] at written
  have tag_eq : (tagBuffer (v.sivAuthenticate ((mem.write m plain).view m) mlen ad adlen npub k)).read 0
      asconTagSize = sivTag v ad adlen npub k plain := by
    rw [← written, sivTag_read, written]
    exact read_tagBuffer _
  have revealed : (sivCipher v ad adlen npub k).reveal (mem.read c mlen)
      (mem.read (c + mlen) asconTagSize) =
        if sivTag v ad adlen npub k plain = mem.read (c + mlen) asconTagSize then some plain else none := by
    rw [← plain_eq]
    rfl
  rw [sivDecrypt, if_neg (by omega), Nat.add_sub_cancel, revealed]
  simp only
  rw [decrypted, ranges.checkTag_eq mem plain_len, tag_eq]
  by_cases agree : sivTag v ad adlen npub k plain = mem.read (c + mlen) asconTagSize
  · rw [if_pos agree, if_pos agree]
  · rw [if_neg agree, if_neg agree]

/-- Decryption depends on the bytes of the associated data only. -/
theorem sivDecrypt_congr (v : AeadVariant) (mem : Mem) (m c clen : Nat) {ad ad' : Mem} {adlen : Nat}
    (data : ∀ i < adlen, ad i = ad' i) (npub k : Mem) :
    sivDecrypt v mem m c clen ad adlen npub k = sivDecrypt v mem m c clen ad' adlen npub k := by
  have authenticated (message : Mem) (mlen : Nat) :
      v.sivAuthenticate message mlen ad adlen npub k = v.sivAuthenticate message mlen ad' adlen npub k := by
    rw [AeadVariant.sivAuthenticate, AeadVariant.sivAuthenticate, v.absorbData_congr _ data]
  simp only [sivDecrypt, authenticated]

theorem sivCalls_implements (v : AeadVariant) (ad : Mem) (adlen : Nat) (npub k : Mem) :
    (sivCalls v ad adlen npub k).Implements (sivCipher v ad adlen npub k) where
  tagSize := rfl
  encrypt_eq := fun mem _ _ _ ranges => sivEncrypt_eq v mem ad adlen npub k ranges
  decrypt_of_lt := fun mem m c _ short => by
    rw [sivCalls]
    simp only
    rw [sivDecrypt, if_pos short]
  decrypt_eq := fun mem _ _ _ ranges => sivDecrypt_eq v mem ad adlen npub k ranges

/-- SIV decryption undoes SIV encryption and accepts nothing else, in place and between two buffers. -/
theorem siv_encrypt_decrypt_inverse (v : AeadVariant) (ad : Mem) (adlen : Nat) (npub k : Mem) :
    (sivCalls v ad adlen npub k).ExactInverse :=
  (sivCalls_implements v ad adlen npub k).exactInverse

/-- Three bytes are encrypted in place and decrypted to another place. -/
theorem siv_encrypt_decrypt_inverse_threeBytes :
    let calls := sivCalls .ascon128a (fun _ => 1) 2 (fun _ => 2) (fun _ => 3)
    let e := calls.encrypt (fun _ => 4) 100 100 3
    (calls.decrypt e.1 50 100 e.2).result = 0 ∧
      (calls.decrypt e.1 50 100 e.2).mem.read 50 3 = [4, 4, 4] := by
  have trip := (siv_encrypt_decrypt_inverse .ascon128a (fun _ => 1) 2 (fun _ => 2) (fun _ => 3)).round_trip
    (fun _ => 4) 100 100 3 50 (by decide) (by decide)
  exact ⟨trip.2.2.1, trip.2.2.2.2⟩

end AsconSuite
