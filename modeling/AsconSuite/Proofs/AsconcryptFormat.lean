/-
Module: AsconSuite.Proofs.AsconcryptFormat
Layer: Proofs
Purpose: The file format of asconcrypt as lists of bytes: the header, the SIV block under the key of the
  password, and the payload under the key in the SIV block.
Imports: AsconSuite.Apps.Asconcrypt, AsconSuite.Proofs.SivInverse, AsconSuite.Proofs.XofStream
Trusted boundary: none
Main exports: asconcryptHeader, asconcryptSiv, asconcryptPayload, encryptedFile, sivBlockKey_congr
-/
import AsconSuite.Apps.Asconcrypt
import AsconSuite.Proofs.SivInverse
import AsconSuite.Proofs.XofStream

namespace AsconSuite

open ByteWord ByteMemory

/-! ### Memories that hold a list of bytes -/

theorem write_zeroes_eq_tablePtr (bytes : List Byte) : Mem.write (fun _ => 0) 0 bytes = tablePtr bytes := by
  funext a
  by_cases inside : a < bytes.length
  · rw [write_apply, if_pos ⟨Nat.zero_le a, by omega⟩, tablePtr, Nat.sub_zero]
  · rw [write_apply, if_neg (by omega), tablePtr, List.getD_eq_default _ _ (by omega)]

theorem view_tablePtr (bytes : List Byte) (p : Nat) :
    Mem.view (tablePtr bytes) p = tablePtr (bytes.drop p) := by
  funext i
  rw [view_apply, tablePtr, tablePtr, List.getD_eq_getElem?_getD, List.getD_eq_getElem?_getD,
    List.getElem?_drop]

theorem read_tablePtr {bytes : List Byte} {p n : Nat} (within : p + n ≤ bytes.length) :
    Mem.read (tablePtr bytes) p n = (bytes.drop p).take n := by
  apply List.ext_getElem?
  intro i
  rw [getElem?_read]
  by_cases inside : i < n
  · rw [if_pos inside, List.getElem?_take_of_lt inside, List.getElem?_drop, tablePtr,
      List.getD_eq_getElem _ _ (by omega), List.getElem?_eq_getElem (by omega)]
  · rw [if_neg inside, List.getElem?_eq_none (by rw [List.length_take]; omega)]

/-! ### The key of the SIV block -/

theorem asconXofAbsorb_congr {xof : XofState} (inside : xof.count < 8) {input input' : Mem} {inlen : Nat}
    (same : ∀ i < inlen, input i = input' i) :
    asconXofAbsorb xof input inlen = asconXofAbsorb xof input' inlen := by
  have bytes : input.read 0 inlen = input'.read 0 inlen :=
    read_congr fun i hi => by rw [Nat.zero_add]; exact same i hi
  rw [asconXofAbsorb, xofAbsorb_eq_run 0 inside, xofAbsorb_eq_run 0 inside, bytes]

theorem asconPbkdf2Blocks_congr {state : XofState} (inside : state.count < 8) {salt salt' : Mem}
    {saltlen : Nat} (same : ∀ i < saltlen, salt i = salt' i) (mem : Mem) (out outlen count blocknum : Nat) :
    asconPbkdf2Blocks state mem out outlen salt saltlen count blocknum =
      asconPbkdf2Blocks state mem out outlen salt' saltlen count blocknum := by
  have block (mem : Mem) (t blocknum : Nat) : asconPbkdf2F state mem t salt saltlen count blocknum =
      asconPbkdf2F state mem t salt' saltlen count blocknum := by
    rw [asconPbkdf2F, asconPbkdf2F, asconXofAbsorb_congr inside same]
  induction outlen using Nat.strongRecOn generalizing mem out blocknum with
  | ind outlen ih =>
    have positive : 0 < asconPbkdf2Size := by decide
    rw [asconPbkdf2Blocks.eq_def state mem out outlen salt, asconPbkdf2Blocks.eq_def state mem out outlen salt',
      block, block]
    split
    · exact ih _ (by omega) _ _ _
    · rfl

/-- The key of the SIV block depends on the bytes of the salt only. -/
theorem sivBlockKey_congr (password : List Byte) {salt salt' : Mem} (same : ∀ i < 16, salt i = salt' i) :
    sivBlockKey password salt = sivBlockKey password salt' := by
  have inside : (asconXofInitCustom (some pbkdf2Name) (tablePtr password) password.length
      asconPbkdf2Size).count < 8 := by
    have start := XofVariant.xof.start_count
      (.initCustom (some pbkdf2Name) (tablePtr password) password.length asconPbkdf2Size)
    exact start.symm ▸ (by decide : 0 < 8)
  exact asconPbkdf2Blocks_congr inside same _ _ _ _ _

/-! ### The format -/

section

variable (password : List Byte) (salt keyNonce : List Byte)

/-- The header of a file. -/
def asconcryptHeader : List Byte := asconcryptMagic ++ [0, 1] ++ salt

/-- The SIV functions under the key of the password, with the header as associated data. -/
def asconcryptSivCalls : SealedCalls :=
  let kn := sivBlockKey password (tablePtr salt)
  sivCalls .ascon80pq (tablePtr (asconcryptHeader salt)) asconcryptHeaderSize (kn.view 20) kn

/-- The SIV block of a file. -/
def asconcryptSiv : List Byte := (asconcryptSivCalls password salt).encryptedBytes keyNonce

/-- The AEAD functions under the key and the nonce in the SIV block, with the block as associated data. -/
def asconcryptPayloadCalls : SealedCalls :=
  aeadCalls .ascon80pq (tablePtr (asconcryptSiv password salt keyNonce)) asconcryptSivSize
    (tablePtr (keyNonce.drop 20)) (tablePtr (keyNonce.take 20))

/-- The encrypted contents and their tag. -/
def asconcryptPayload (contents : List Byte) : List Byte :=
  (asconcryptPayloadCalls password salt keyNonce).encryptedBytes contents

/-- A file that `encrypt_file` writes. -/
def encryptedFile (contents : List Byte) : List Byte :=
  asconcryptHeader salt ++ asconcryptSiv password salt keyNonce ++
    asconcryptPayload password salt keyNonce contents

/-! ### The parts of a file -/

theorem length_asconcryptHeader {salt : List Byte} (salt_len : salt.length = 16) :
    (asconcryptHeader salt).length = asconcryptHeaderSize := by
  rw [asconcryptHeader, List.length_append, salt_len]
  rfl

/-- The SIV functions of a file as a cipher. -/
def asconcryptSivCipher : SealedCipher Byte :=
  let kn := sivBlockKey password (tablePtr salt)
  sivCipher .ascon80pq (tablePtr (asconcryptHeader salt)) asconcryptHeaderSize (kn.view 20) kn

theorem asconcryptSivCalls_implements :
    (asconcryptSivCalls password salt).Implements (asconcryptSivCipher password salt) :=
  sivCalls_implements _ _ _ _ _

theorem length_asconcryptSiv {keyNonce : List Byte} (kn_len : keyNonce.length = 36) :
    (asconcryptSiv password salt keyNonce).length = asconcryptSivSize := by
  rw [asconcryptSiv, (asconcryptSivCalls_implements password salt).encryptedBytes_eq_sealMessage,
    SealedCipher.length_sealMessage, kn_len]
  rfl

/-- The state in front of the payload. -/
def payloadStart : AsconState :=
  AeadVariant.ascon80pq.start (tablePtr (asconcryptSiv password salt keyNonce)) asconcryptSivSize
    (tablePtr (keyNonce.drop 20)) (tablePtr (keyNonce.take 20))

/-- The payload functions of a file as a cipher. -/
def asconcryptPayloadCipher : SealedCipher Byte :=
  (aeadStream .ascon80pq (tablePtr (keyNonce.take 20))).cipher (payloadStart password salt keyNonce, 0)

theorem asconcryptPayloadCalls_implements :
    (asconcryptPayloadCalls password salt keyNonce).Implements
      (asconcryptPayloadCipher password salt keyNonce) :=
  aeadCalls_implements _ _ _ _ _

theorem asconcryptPayload_eq_sealMessage (contents : List Byte) :
    asconcryptPayload password salt keyNonce contents =
      (asconcryptPayloadCipher password salt keyNonce).sealMessage contents :=
  (asconcryptPayloadCalls_implements password salt keyNonce).encryptedBytes_eq_sealMessage contents

end

/-- A payload state that has been initialized and started. -/
theorem startPayload_eq (npub k siv : Mem) :
    let state := ascon80pqAeadStart (ascon80pqAeadInit localAeadState (some npub) (some k)) siv
      asconcryptSivSize
    state.state = AeadVariant.ascon80pq.start siv asconcryptSivSize (tablePtr (npub.read 0 16))
        (tablePtr (k.read 0 20)) ∧
      state.key = tablePtr (k.read 0 20) ∧ state.posn = 0 := by
  rw [← write_zeroes_eq_tablePtr, ← write_zeroes_eq_tablePtr]
  exact ⟨rfl, rfl, rfl⟩

end AsconSuite
