/-
Module: AsconSuite.Base.SealedCipher
Layer: Base (library)
Purpose: Ciphers that turn a message into a body of the same length and a tag. The body and the tag reveal a
  message exactly when closing that message gives them. Three ways to build one: a stream with a tag at its
  end, a tag that is the initialization vector of the encryption, and a tag of the encrypted body.
Imports: AsconSuite.Base.SealedStream
Trusted boundary: none
Main exports: SealedCipher, SealedCipher.sealMessage, SealedCipher.reveal_of_sealMessage, SealedStream.cipher,
  SealedCipher.syntheticIv, SealedCipher.encryptThenMac
-/
import AsconSuite.Base.SealedStream

open Transducer (run)

/-- A message and what a cipher makes of it. -/
structure SealedCipher (β : Type*) where
  tagSize : Nat
  /-- The body and the tag for a message. -/
  close : List β → List β × List β
  /-- The message for a body and a tag. -/
  reveal : List β → List β → Option (List β)
  length_body : ∀ message, (close message).1.length = message.length
  length_tag : ∀ message, (close message).2.length = tagSize
  reveal_eq_some_iff : ∀ {body tag message},
    reveal body tag = some message ↔ close message = (body, tag)

namespace SealedCipher

variable {β : Type*} (cipher : SealedCipher β)

/-- The body followed by the tag. -/
def sealMessage (message : List β) : List β := (cipher.close message).1 ++ (cipher.close message).2

@[simp] theorem length_sealMessage (message : List β) :
    (cipher.sealMessage message).length = message.length + cipher.tagSize := by
  rw [sealMessage, List.length_append, cipher.length_body, cipher.length_tag]

/-- A body and a tag reveal a message exactly when they are that message sealed. -/
theorem reveal_iff_sealMessage {body tag message : List β} (len : tag.length = cipher.tagSize) :
    cipher.reveal body tag = some message ↔ body ++ tag = cipher.sealMessage message := by
  rw [cipher.reveal_eq_some_iff, sealMessage]
  constructor
  · intro closed
    rw [closed]
  · intro sealed
    obtain ⟨body_eq, tag_eq⟩ := List.append_inj' sealed (by rw [len, cipher.length_tag])
    rw [body_eq, tag_eq]

section

variable [DecidableEq β] (tagSize : Nat)

/-- The tag of the message is the initialization vector of its encryption. -/
def syntheticIv (mac : List β → List β) (crypt : List β → List β → List β)
    (length_mac : ∀ message, (mac message).length = tagSize)
    (length_crypt : ∀ iv message, (crypt iv message).length = message.length)
    (crypt_crypt : ∀ iv message, crypt iv (crypt iv message) = message) : SealedCipher β where
  tagSize := tagSize
  close := fun message => (crypt (mac message) message, mac message)
  reveal := fun body tag => if mac (crypt tag body) = tag then some (crypt tag body) else none
  length_body := fun message => length_crypt _ message
  length_tag := length_mac
  reveal_eq_some_iff := by
    intro body tag message
    rw [Option.ite_none_right_eq_some, Option.some_inj, Prod.mk.injEq]
    constructor
    · rintro ⟨tag_eq, rfl⟩
      rw [tag_eq, crypt_crypt]
      exact ⟨rfl, rfl⟩
    · rintro ⟨rfl, rfl⟩
      rw [crypt_crypt]
      exact ⟨rfl, rfl⟩

/-- The tag is computed from the encrypted body. -/
def encryptThenMac (crypt mac : List β → List β) (length_mac : ∀ body, (mac body).length = tagSize)
    (length_crypt : ∀ message, (crypt message).length = message.length)
    (crypt_crypt : ∀ message, crypt (crypt message) = message) : SealedCipher β where
  tagSize := tagSize
  close := fun message => (crypt message, mac (crypt message))
  reveal := fun body tag => if mac body = tag then some (crypt body) else none
  length_body := length_crypt
  length_tag := fun _ => length_mac _
  reveal_eq_some_iff := by
    intro body tag message
    rw [Option.ite_none_right_eq_some, Option.some_inj, Prod.mk.injEq]
    constructor
    · rintro ⟨rfl, rfl⟩
      rw [crypt_crypt]
      exact ⟨rfl, rfl⟩
    · rintro ⟨rfl, rfl⟩
      rw [crypt_crypt]
      exact ⟨rfl, rfl⟩

end

end SealedCipher

/-- A sealed stream from a fixed state. -/
def SealedStream.cipher {σ β : Type*} [DecidableEq β] (stream : SealedStream σ β β) (s : σ) :
    SealedCipher β where
  tagSize := stream.tagSize
  close := fun message => ((run stream.enc s message).2, stream.tag (run stream.enc s message).1)
  reveal := fun body tag =>
    if stream.tag (run stream.dec s body).1 = tag then some (run stream.dec s body).2 else none
  length_body := fun message => Transducer.length_run _ _ message
  length_tag := fun _ => stream.length_tag _
  reveal_eq_some_iff := by
    intro body tag message
    rw [Option.ite_none_right_eq_some, Option.some_inj, Prod.mk.injEq]
    constructor
    · rintro ⟨tag_eq, rfl⟩
      rw [Transducer.run_inverse stream.enc_dec]
      exact ⟨rfl, tag_eq⟩
    · rintro ⟨rfl, rfl⟩
      rw [Transducer.run_inverse stream.dec_enc]
      exact ⟨rfl, rfl⟩
