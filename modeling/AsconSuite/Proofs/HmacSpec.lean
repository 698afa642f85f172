/-
Module: AsconSuite.Proofs.HmacSpec
Layer: Proofs
Purpose: The HMAC template over functions that compute a hash is HMAC.
Imports: AsconSuite.Base.KeyDerivation, AsconSuite.Proofs.HashStream
Trusted boundary: none
Main exports: hmacAbsorbed, hmacInit_eq, hmacUpdates_eq, hmacFinalize_eq, hmac_follows_rfc2104
-/
import AsconSuite.Base.KeyDerivation
import AsconSuite.Proofs.HashStream

namespace AsconSuite

open ByteWord ByteMemory

/-! ### The key -/

theorem hmacXorPad_eq_write (mem : Mem) (out : Nat) (input : Mem) (pad : Byte) (size : Nat) :
    hmacXorPad mem out input pad size = mem.write out ((input.read 0 size).map (· ^^^ pad)) := by
  induction size generalizing mem out input with
  | zero => exact (write_nil mem out).symm
  | succ size ih =>
      rw [hmacXorPad, ih, read_view, read_succ, List.map_cons, write_cons]

section

variable {h : HashFunctions} {hash : List Byte → List Byte} (computes : h.Computes hash)

include computes

/-- The key is masked and absorbed piece by piece. -/
theorem hmacKeyChunks_eq (data : List Byte) (temp key : Mem) (pad : Byte) (posn rest : Nat) :
    hmacKeyChunks h (h.absorbed data) temp key (posn + rest) pad posn =
      (h.absorbed (data ++ ((key.read posn rest).map (· ^^^ pad))), posn + rest) := by
  induction rest using Nat.strongRecOn generalizing data temp posn with
  | ind rest ih =>
    rw [hmacKeyChunks]
    rcases Nat.eq_zero_or_pos rest with rfl | some_key
    · rw [if_neg (by omega), read_zero, List.map_nil, List.append_nil, Nat.add_zero]
    · rw [if_pos (by omega), Nat.add_sub_cancel_left]
      have positive : 0 < asconHashSize := by decide
      obtain ⟨len, len_eq⟩ : ∃ len, min rest asconHashSize = len := ⟨_, rfl⟩
      obtain ⟨later, rfl⟩ := Nat.exists_eq_add_of_le (show len ≤ rest by omega)
      have masked : (hmacXorPad temp 0 (key.view posn) pad len).read 0 len =
          (key.read posn len).map (· ^^^ pad) := by
        rw [hmacXorPad_eq_write, read_view, Nat.add_zero]
        exact read_write_of_length (by rw [List.length_map, length_read])
      simp only [len_eq]
      rw [← Nat.add_assoc, computes.update, masked, ih later (by omega), read_add, List.map_append,
        List.append_assoc]

/-- The rest of the block is absorbed piece by piece. -/
theorem hmacPadBlock_eq (data : List Byte) {temp : Mem} {pad : Byte}
    (filled : ∀ i < asconHashSize, temp i = pad) {posn rest : Nat} (ends : posn + rest = hmacBlockSize) :
    hmacPadBlock h (h.absorbed data) temp posn = h.absorbed (data ++ List.replicate rest pad) := by
  induction rest using Nat.strongRecOn generalizing data posn with
  | ind rest ih =>
    rw [hmacPadBlock]
    rcases Nat.eq_zero_or_pos rest with rfl | some_room
    · rw [if_neg (by omega), List.replicate_zero, List.append_nil]
    · have positive : 0 < asconHashSize := by decide
      obtain ⟨len, len_eq⟩ : ∃ len, min (hmacBlockSize - posn) asconHashSize = len := ⟨_, rfl⟩
      obtain ⟨later, rfl⟩ := Nat.exists_eq_add_of_le (show len ≤ rest by omega)
      have padding : temp.read 0 len = List.replicate len pad := by
        refine List.ext_getElem? fun i => ?_
        rw [getElem?_read, List.getElem?_replicate, Nat.zero_add]
        split
        · rw [filled i (by omega)]
        · rfl
      rw [if_pos (by omega)]
      simp only [len_eq]
      rw [computes.update, padding, ih later (by omega) _ (by omega), List.append_assoc,
        List.replicate_append_replicate]

/-- The key is absorbed as a masked block. -/
theorem hmacAbsorbKey_eq (key : Mem) (keylen : Nat) (pad : Byte) :
    hmacAbsorbKey h h.init key keylen pad =
      h.absorbed ((KeyDerivation.keyBlock hash hmacBlockSize (key.read 0 keylen)).map (· ^^^ pad)) := by
  have filled : ∀ i < asconHashSize, tablePtr (List.replicate asconHashSize pad) i = pad := by
    intro i hi
    rw [tablePtr, List.getD_eq_getElem?_getD, List.getElem?_replicate, if_pos hi]
    rfl
  rw [hmacAbsorbKey]
  rcases Nat.lt_or_ge hmacBlockSize keylen with long | fits
  · have digest : ((h.finalize (h.update h.init key keylen) (fun _ => 0) 0).2).read 0 asconHashSize =
        hash (key.read 0 keylen) := by
      rw [← computes.absorbed_nil, computes.update, computes.finalize, List.nil_append]
      exact read_write_of_length (computes.length_hash _)
    have masked := hmacXorPad_eq_write (h.finalize (h.update h.init key keylen) (fun _ => 0) 0).2 0
      (h.finalize (h.update h.init key keylen) (fun _ => 0) 0).2 pad asconHashSize
    rw [digest] at masked
    simp only [if_neg (show ¬ keylen ≤ hmacBlockSize by omega), masked]
    have masked_len : ((hash (key.read 0 keylen)).map (· ^^^ pad)).length = asconHashSize := by
      rw [List.length_map, computes.length_hash]
    rw [← computes.absorbed_nil, computes.update, read_write_of_length masked_len, List.nil_append,
      hmacPadBlock_eq computes _ filled (by decide : asconHashSize + 32 = hmacBlockSize),
      KeyDerivation.map_keyBlock_of_lt _ _ (by rw [length_read]; exact long), computes.length_hash]
    rfl
  · have chunks := hmacKeyChunks_eq computes [] (fun _ => 0) key pad 0 keylen
    rw [Nat.zero_add, computes.absorbed_nil, List.nil_append] at chunks
    simp only [if_pos fits, chunks]
    rw [hmacPadBlock_eq computes _ filled (Nat.add_sub_cancel' fits),
      KeyDerivation.map_keyBlock_of_le _ _ (by rw [length_read]; exact fits), length_read]

/-! ### The code -/

/-- The inner hash in the middle of a message. -/
def hmacAbsorbed (h : HashFunctions) (hash : List Byte → List Byte) (key message : List Byte) : XofState :=
  h.absorbed ((KeyDerivation.keyBlock hash hmacBlockSize key).map (· ^^^ hmacIpad) ++ message)

theorem hmacInit_eq (key : Mem) (keylen : Nat) :
    hmacInit h key keylen = hmacAbsorbed h hash (key.read 0 keylen) [] := by
  rw [hmacInit, hmacAbsorbKey_eq computes, hmacAbsorbed, List.append_nil]

theorem hmacUpdate_eq (key message : List Byte) (input : Mem) (inlen : Nat) :
    hmacUpdate h (hmacAbsorbed h hash key message) input inlen =
      hmacAbsorbed h hash key (message ++ input.read 0 inlen) := by
  rw [hmacUpdate, hmacAbsorbed, computes.update, hmacAbsorbed, List.append_assoc]

theorem hmacUpdates_eq (key message : List Byte) (chunks : List AbsorbCall) :
    chunks.foldl (fun state c => hmacUpdate h state c.input c.inlen) (hmacAbsorbed h hash key message) =
      hmacAbsorbed h hash key (message ++ (chunks.map AbsorbCall.data).flatten) := by
  induction chunks generalizing message with
  | nil => rw [List.map_nil, List.flatten_nil, List.append_nil, List.foldl_nil]
  | cons chunk chunks ih =>
      rw [List.foldl_cons, hmacUpdate_eq computes, ih, List.map_cons, List.flatten_cons, List.append_assoc]
      rfl

/-- The code at the end of a message. -/
theorem hmacFinalize_eq (key : Mem) (keylen : Nat) (message : List Byte) (mem : Mem) (out : Nat) :
    (hmacFinalize h (hmacAbsorbed h hash (key.read 0 keylen) message) key keylen mem out).2 =
      mem.write out
        (KeyDerivation.hmac hash hmacBlockSize hmacIpad hmacOpad (key.read 0 keylen) message) := by
  rw [hmacFinalize, hmacAbsorbed]
  simp only [hmacAbsorbKey_eq computes, computes.finalize, computes.update]
  rw [read_write_of_length (computes.length_hash _)]
  rfl

theorem hmac_eq (mem : Mem) (out : Nat) (key : Mem) (keylen : Nat) (input : Mem) (inlen : Nat) :
    hmac h mem out key keylen input inlen =
      mem.write out (KeyDerivation.hmac hash hmacBlockSize hmacIpad hmacOpad (key.read 0 keylen)
        (input.read 0 inlen)) := by
  have begun := hmacInit_eq computes key keylen
  have absorbed := hmacUpdate_eq computes (key.read 0 keylen) [] input inlen
  rw [← begun, List.nil_append] at absorbed
  have finished := hmacFinalize_eq computes key keylen (input.read 0 inlen) mem out
  rw [← absorbed] at finished
  exact finished

end

/-- The HMAC functions over both hash functions: for every key, message and cut of the message they give the code
of RFC 2104, and `reinit` with any key makes any object a fresh one. -/
theorem hmac_follows_rfc2104 (v : XofVariant) (key : Mem) (keylen : Nat) (mem : Mem) (out : Nat) :
    (∀ chunks : List AbsorbCall,
      (hmacFinalize v.hash
        (chunks.foldl (fun state c => hmacUpdate v.hash state c.input c.inlen) (hmacInit v.hash key keylen))
        key keylen mem out).2 =
      mem.write out (KeyDerivation.hmac v.hashBytes hmacBlockSize hmacIpad hmacOpad (key.read 0 keylen)
        (chunks.map AbsorbCall.data).flatten)) ∧
    (∀ input inlen, hmac v.hash mem out key keylen input inlen =
      mem.write out (KeyDerivation.hmac v.hashBytes hmacBlockSize hmacIpad hmacOpad (key.read 0 keylen)
        (input.read 0 inlen))) ∧
    (∀ state : XofState, hmacReinit v.hash state key keylen = hmacInit v.hash key keylen) ∧
    (∀ data : List Byte, (v.hashBytes data).length = asconHashSize) := by
  have computes := v.hash_computes
  refine ⟨?_, hmac_eq computes mem out key keylen, fun _ => rfl, computes.length_hash⟩
  intro chunks
  rw [hmacInit_eq computes, hmacUpdates_eq computes, List.nil_append, hmacFinalize_eq computes]

end AsconSuite
