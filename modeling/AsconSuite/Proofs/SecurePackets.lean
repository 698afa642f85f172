/-
Module: AsconSuite.Proofs.SecurePackets
Layer: Proofs
Purpose: The bytes of a packet. The sender leaves the counter followed by the encrypted payload, wherever the
  payload was; the receiver opens such bytes and gets the payload.
Imports: AsconSuite.Proofs.AeadInverse, AsconSuite.Proofs.SenderRules, AsconSuite.Secure.Receptor
Trusted boundary: none
Main exports: packetBytes, read_sealPacket, openPacket_packetBytes, readCounterBE_of_read
-/
import AsconSuite.Proofs.AeadInverse
import AsconSuite.Proofs.SenderRules
import AsconSuite.Secure.Receptor

namespace AsconSuite

open ByteWord ByteMemory CrashLogic

/-- The four bytes of a counter. -/
def counterBytes (counter : Counter) : List Byte :=
  [(counter >>> 24).setWidth 8, (counter >>> 16).setWidth 8, (counter >>> 8).setWidth 8,
    counter.setWidth 8]

/-- The bytes of a packet. -/
def packetBytes (key : Key) (noncePrefix : NoncePrefix) (counter : Counter) (header : Mem)
    (headerLength : Nat) (message : List Byte) : List Byte :=
  counterBytes counter ++ encryptedBytes .ascon128a header headerLength
    (buildNonce noncePrefix counter) (arrayPtr key) message

theorem length_packetBytes (key : Key) (noncePrefix : NoncePrefix) (counter : Counter)
    (header : Mem) (headerLength : Nat) (message : List Byte) :
    (packetBytes key noncePrefix counter header headerLength message).length =
      message.length + secureOverhead := by
  rw [packetBytes, List.length_append, length_encryptedBytes]
  change 4 + (message.length + 16) = message.length + 20
  omega

/-- A packet depends on the bytes of the header only. -/
theorem packetBytes_congr (key : Key) (noncePrefix : NoncePrefix) (counter : Counter)
    {header header' : Mem} {headerLength : Nat} (same : ∀ i < headerLength, header i = header' i)
    (message : List Byte) :
    packetBytes key noncePrefix counter header headerLength message =
      packetBytes key noncePrefix counter header' headerLength message := by
  rw [packetBytes, packetBytes,
    encryptedBytes_congr .ascon128a same (fun _ _ => rfl) (fun _ _ => rfl)]

/-- Ranges that `rangesOverlap` finds apart. -/
theorem apart_of_rangesOverlap {a aLength b bLength : Nat}
    (apart : rangesOverlap a aLength b bLength = false) (hb : 0 < bLength) :
    aLength = 0 ∨ a + aLength ≤ b ∨ b + bLength ≤ a := by
  rw [rangesOverlap] at apart
  split at apart
  · omega
  · simp only [Bool.and_eq_false_iff, decide_eq_false_iff_not] at apart
    omega

/-- The packet that `sealPacket` leaves, for a header apart from it. -/
theorem read_sealPacket (key : Key) (noncePrefix : NoncePrefix) (counter : Counter) (mem : Mem)
    (payload payloadLength header headerLength packet : Nat)
    (apart : headerLength = 0 ∨ header + headerLength ≤ packet ∨
      packet + (payloadLength + secureOverhead) ≤ header) :
    (sealPacket key noncePrefix counter mem payload payloadLength header headerLength packet).1.read
        packet (payloadLength + secureOverhead) =
      packetBytes key noncePrefix counter (mem.view header) headerLength
        (mem.read payload payloadLength) := by
  have moved : (mem.write (packet + secureCounterBytes) (mem.read payload payloadLength)).read
      (packet + secureCounterBytes) payloadLength = mem.read payload payloadLength := by
    have same := read_write_same mem (packet + secureCounterBytes) (mem.read payload payloadLength)
    rwa [length_read] at same
  have sameHeader : ∀ i < headerLength,
      ((mem.write (packet + secureCounterBytes) (mem.read payload payloadLength)).view header) i =
        (mem.view header) i := by
    intro i inside
    apply write_apply_outside
    rw [length_read]
    change header + i < packet + 4 ∨ packet + 4 + payloadLength ≤ header + i
    change _ ∨ _ ∨ packet + (payloadLength + 20) ≤ header at apart
    omega
  have encrypted := read_aeadEncrypt .ascon128a
    ((mem.write (packet + secureCounterBytes) (mem.read payload payloadLength)).view header)
    headerLength (buildNonce noncePrefix counter) (arrayPtr key)
    (mem.write (packet + secureCounterBytes) (mem.read payload payloadLength))
    (Or.inl rfl : SameOrApart (packet + secureCounterBytes) (packet + secureCounterBytes)
      payloadLength)
  rw [moved, encryptedBytes_congr .ascon128a sameHeader (fun _ _ => rfl) (fun _ _ => rfl)]
    at encrypted
  have total : payloadLength + secureOverhead = 4 + (payloadLength + asconTagSize) := by
    change payloadLength + 20 = 4 + (payloadLength + 16)
    omega
  rw [total, read_add]
  apply congrArg₂
  · exact read_write_same _ packet (counterBytes counter)
  · exact (read_write_apart _ packet (counterBytes counter) (Or.inr (Nat.le_refl _))).trans encrypted

theorem snd_sealPacket (key : Key) (noncePrefix : NoncePrefix) (counter : Counter) (mem : Mem)
    (payload payloadLength header headerLength packet : Nat) :
    secureCounterBytes + (sealPacket key noncePrefix counter mem payload payloadLength header
      headerLength packet).2 = payloadLength + secureOverhead := by
  simp only [sealPacket, ascon128aAeadEncrypt]
  rw [aeadEncrypt_eq_write .ascon128a _ _ _ _ _ (Or.inl rfl)]
  change 4 + (payloadLength + 16) = payloadLength + 20
  omega

/-- The counter is in the first four bytes of a packet. -/
theorem readCounterBE_of_read {mem : Mem} {packet : Nat} {key : Key} {noncePrefix : NoncePrefix}
    {counter : Counter} {header : Mem} {headerLength : Nat} {message : List Byte}
    (bytes : mem.read packet (message.length + secureOverhead) =
      packetBytes key noncePrefix counter header headerLength message) :
    readCounterBE (mem.view packet) = counter := by
  have total : message.length + secureOverhead = 4 + (message.length + 16) := by
    change message.length + 20 = _
    omega
  rw [total, read_add, packetBytes] at bytes
  have first : mem.read packet 4 = counterBytes counter := (List.append_inj bytes rfl).1
  have stored : ∀ i < 4, mem (packet + i) = (counterBytes counter).getD i 0 := by
    intro i inside
    rw [← first, getD_read mem packet inside]
  simp only [readCounterBE, view_apply, stored 0 (by decide), stored 1 (by decide),
    stored 2 (by decide), stored 3 (by decide)]
  exact or_bytes counter

/-- A packet with these bytes is opened, by a peer with the same key and prefix and with the same header. -/
theorem openPacket_packetBytes {peer : Peer} {mem : Mem} {packet header : Nat} {counter : Counter}
    {header' : Mem} {headerLength : Nat} {message : List Byte}
    (bytes : mem.read packet (message.length + secureOverhead) =
      packetBytes peer.key peer.noncePrefix counter header' headerLength message)
    (sameHeader : ∀ i < headerLength, mem (header + i) = header' i)
    (fits : message.length ≤ secureMaxPayload) :
    openPacket peer mem packet (message.length + secureOverhead) header headerLength =
      some message := by
  have sameCounter := readCounterBE_of_read bytes
  have total : message.length + secureOverhead = 4 + (message.length + 16) := by
    change message.length + 20 = _
    omega
  have cipherLength : message.length + secureOverhead - secureCounterBytes =
      message.length + asconTagSize := by
    change message.length + 20 - 4 = message.length + 16
    omega
  rw [total, read_add, packetBytes] at bytes
  have cipher := (List.append_inj bytes rfl).2
  have inScratch : Mem.read (fun a => if a < secureMaxPayload then 0
      else mem (packet + secureCounterBytes + (a - secureMaxPayload))) secureMaxPayload
        (message.length + asconTagSize) = mem.read (packet + 4) (message.length + 16) := by
    apply read_congr
    intro i inside
    rw [if_neg (by omega), Nat.add_sub_cancel_left]
  have ranges : PlaintextRange 0 secureMaxPayload (message.length + asconTagSize) := by
    refine Or.inr (Or.inl ?_)
    rw [Nat.zero_add, Nat.add_sub_cancel]
    exact fits
  have sameHeader' : ∀ i < headerLength, (mem.view header) i = header' i := sameHeader
  rw [cipher, ← encryptedBytes_congr .ascon128a sameHeader' (fun _ _ => rfl) (fun _ _ => rfl)]
    at inScratch
  simp only [openPacket, ascon128aAeadDecrypt, cipherLength, sameCounter]
  rw [aeadDecrypt_of_encryptedBytes .ascon128a _ _ _ _ _ ranges inScratch]
  simp only [lt_self_iff_false, if_false, Option.getD_some]
  rw [read_write_same]

end AsconSuite
