/-
Module: AsconSuite.Base.SealedStream
Layer: Base (library)
Purpose: A stream cipher that ends with a tag computed from its last state. `sealMessage` and `openMessage` over lists of
  symbols are inverse to each other: what was sealed opens to the message, and whatever opens was sealed.
Imports: AsconSuite.Base.Transducer
Trusted boundary: none
Main exports: SealedStream, SealedStream.sealMessage, SealedStream.openMessage, openMessage_sealMessage, openMessage_eq_some_iff
-/
import AsconSuite.Base.Transducer

open Transducer (Step run Inverts)

/-- Two machines that undo each other, and a tag of fixed length read off the last state. -/
structure SealedStream (σ α β : Type*) where
  enc : Step σ α β
  dec : Step σ β α
  dec_enc : Inverts dec enc
  enc_dec : Inverts enc dec
  tag : σ → List β
  tagSize : Nat
  length_tag : ∀ s, (tag s).length = tagSize

namespace SealedStream

variable {σ α β : Type*} (stream : SealedStream σ α β)

/-- The encrypted message followed by the tag. -/
def sealMessage (s : σ) (message : List α) : List β :=
  (run stream.enc s message).2 ++ stream.tag (run stream.enc s message).1

/-- Decrypt all but the tag and compare the tag. -/
def openMessage [DecidableEq β] (s : σ) (sealed : List β) : Option (List α) :=
  let body := sealed.take (sealed.length - stream.tagSize)
  if stream.tag (run stream.dec s body).1 = sealed.drop (sealed.length - stream.tagSize) then
    some (run stream.dec s body).2
  else none

@[simp] theorem length_sealMessage (s : σ) (message : List α) :
    (stream.sealMessage s message).length = message.length + stream.tagSize := by
  rw [sealMessage, List.length_append, Transducer.length_run, stream.length_tag]

/-- What the two machines make of a body and a tag of the right length. -/
theorem openMessage_append [DecidableEq β] (s : σ) (body tag : List β) (len : tag.length = stream.tagSize) :
    stream.openMessage s (body ++ tag) =
      if stream.tag (run stream.dec s body).1 = tag then some (run stream.dec s body).2
      else none := by
  have split : (body ++ tag).length - stream.tagSize = body.length := by
    rw [List.length_append, len, Nat.add_sub_cancel]
  rw [openMessage, split, List.take_left, List.drop_left]

/-- Opening undoes sealing. -/
theorem openMessage_sealMessage [DecidableEq β] (s : σ) (message : List α) :
    stream.openMessage s (stream.sealMessage s message) = some message := by
  rw [sealMessage, openMessage_append _ _ _ _ (stream.length_tag _),
    Transducer.run_inverse stream.dec_enc, if_pos rfl]

/-- A string opens to a message exactly when it is that message sealed. -/
theorem openMessage_eq_some_iff [DecidableEq β] (s : σ) (body tag : List β)
    (len : tag.length = stream.tagSize) (message : List α) :
    stream.openMessage s (body ++ tag) = some message ↔ body ++ tag = stream.sealMessage s message := by
  constructor
  · intro opened
    rw [openMessage_append _ _ _ _ len, Option.ite_none_right_eq_some, Option.some_inj] at opened
    obtain ⟨tag_eq, rfl⟩ := opened
    rw [sealMessage, Transducer.run_inverse stream.enc_dec, tag_eq]
  · intro sealed
    rw [sealed, openMessage_sealMessage]

end SealedStream
