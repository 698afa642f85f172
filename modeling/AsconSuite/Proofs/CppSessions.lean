/-
Module: AsconSuite.Proofs.CppSessions
Layer: Proofs
Purpose: Two objects of one C++ class with the same key and the same starting nonce stay in step: what the one
  encrypts in turn the other decrypts in turn, and calls that fail leave no trace.
Imports: AsconSuite.Cpp.Aead, AsconSuite.Proofs.IsapInverse, AsconSuite.Proofs.NonceNumber,
  AsconSuite.Proofs.SivInverse
Trusted boundary: none
Main exports: classCalls, AeadClass.Sealed, encryptArray_eq, decryptArray_of_sealed, decryptArray_of_forged,
  ArrayCall, accepted, cpp_sessions_stay_in_step
-/
import Mathlib.Data.List.TakeDrop
import AsconSuite.Cpp.Aead
import AsconSuite.Proofs.IsapInverse
import AsconSuite.Proofs.NonceNumber
import AsconSuite.Proofs.SivInverse

namespace AsconSuite

open ByteWord ByteMemory BigEndian
open Transducer (run)

/-! ### The classes are sealed ciphers -/

/-- The functions that a class calls for one message. -/
def classCalls {κ : Type} (cls : AeadClass κ) (ad : Mem) (adlen : Nat) (npub : Mem) (key : κ) : SealedCalls where
  encrypt := fun mem c m mlen => cls.encrypt mem c m mlen ad adlen npub key
  decrypt := fun mem m c clen => cls.decrypt mem m c clen ad adlen npub key

/-- What a class does with messages, for every key, nonce and associated data. -/
structure AeadClass.Sealed {κ : Type} (cls : AeadClass κ) where
  cipher : (ad : Mem) → (adlen : Nat) → (npub : Mem) → κ → SealedCipher Byte
  implements : ∀ ad adlen npub key, (classCalls cls ad adlen npub key).Implements (cipher ad adlen npub key)

def aeadClass_sealed (v : AeadVariant) : (aeadClass v).Sealed where
  cipher := fun ad adlen npub key =>
    (aeadStream v (tablePtr key)).cipher (v.start ad adlen npub (tablePtr key), 0)
  implements := fun ad adlen npub key => by
    have calls : classCalls (aeadClass v) ad adlen npub key = aeadCalls v ad adlen npub (tablePtr key) := by
      cases v <;> rfl
    rw [calls]
    exact aeadCalls_implements v ad adlen npub (tablePtr key)

def sivClass_sealed (v : AeadVariant) : (sivClass v).Sealed where
  cipher := fun ad adlen npub key => sivCipher v ad adlen npub (tablePtr key)
  implements := fun ad adlen npub key => by
    have calls : classCalls (sivClass v) ad adlen npub key = sivCalls v ad adlen npub (tablePtr key) := by
      cases v <;> rfl
    rw [calls]
    exact sivCalls_implements v ad adlen npub (tablePtr key)

/-- The parameters of an ISAP class. -/
def isapParams : AeadVariant → IsapParams
  | .ascon128 => ascon128Isap
  | .ascon128a => ascon128aIsap
  | .ascon80pq => ascon80pqIsap

def isapClass_sealed (v : AeadVariant) : (isapClass v).Sealed where
  cipher := fun ad adlen npub key => isapCipher (isapParams v) ad adlen npub key
  implements := fun ad adlen npub key => by
    have calls : classCalls (isapClass v) ad adlen npub key = isapCalls (isapParams v) ad adlen npub key := by
      cases v <;> rfl
    rw [calls]
    exact isapCalls_implements (isapParams v) ad adlen npub key

/-! ### Byte arrays in memory -/

/-- The second one. -/
theorem read_tablePtr_back (front back : List Byte) :
    (tablePtr (front ++ back)).read front.length back.length = back := by
  have both : (tablePtr (front ++ back)).read 0 (front ++ back).length = front ++ back := read_getD _
  rw [List.length_append, read_add, Nat.zero_add] at both
  exact (List.append_inj both (length_read _ _ _)).2

section

variable {κ : Type} {cls : AeadClass κ} (sealed : cls.Sealed) (object : AeadObject κ)

/-- The cipher that the object uses for its next message. -/
def AeadClass.Sealed.next (ad : List Byte) : SealedCipher Byte :=
  sealed.cipher (tablePtr ad) ad.length (tablePtr object.nonce) object.key

theorem AeadClass.Sealed.implements_next (ad : List Byte) :
    (classCalls cls (tablePtr ad) ad.length (tablePtr object.nonce) object.key).Implements
      (sealed.next object ad) := sealed.implements _ _ _ _

theorem AeadClass.Sealed.length_next (ad m : List Byte) :
    ((sealed.next object ad).sealMessage m).length = m.length + asconTagSize := by
  rw [SealedCipher.length_sealMessage, (sealed.implements_next object ad).tagSize]

/-- Encryption gives the sealed message and moves on to the next nonce. -/
theorem encryptArray_eq (buffer m ad : List Byte) :
    object.encryptArray cls buffer m ad = (object.incrementNonce, (sealed.next object ad).sealMessage m) := by
  obtain ⟨c, c_eq⟩ : ∃ c, buffer.takeD (m.length + asconTagSize) 0 = c := ⟨_, rfl⟩
  have length_c : c.length = m.length + asconTagSize := by rw [← c_eq, List.takeD_length]
  have message : (tablePtr (c ++ m)).read c.length m.length = m := read_tablePtr_back c m
  have encrypted := (sealed.implements_next object ad).encrypt_eq (tablePtr (c ++ m))
    (show PlaintextRange c.length 0 (m.length + asconTagSize) from Or.inr (Or.inr (by omega)))
  rw [message] at encrypted
  have call : cls.encrypt (tablePtr (c ++ m)) 0 c.length m.length (tablePtr ad) ad.length
      (tablePtr object.nonce) object.key =
        (Mem.write (tablePtr (c ++ m)) 0 ((sealed.next object ad).sealMessage m), m.length + asconTagSize) :=
    encrypted
  rw [AeadObject.encryptArray, c_eq, AeadObject.encrypt]
  simp only [call]
  rw [length_c, read_write_of_length (sealed.length_next object ad m)]

/-- A string is a sealed message for the object, or it is none. -/
def AeadClass.Sealed.Seals (c ad : List Byte) : Prop := ∃ m, c = (sealed.next object ad).sealMessage m

/-- The memory in which an array is decrypted. -/
theorem decryptArray_call {c : List Byte} (long : asconTagSize ≤ c.length) (buffer ad : List Byte) :
    object.decryptArray cls buffer c ad =
      let m := buffer.takeD (c.length - asconTagSize) 0
      let done := object.decrypt cls (tablePtr (m ++ c)) 0 m.length c.length (tablePtr ad) ad.length
      if done.2.1 < 0 then (done.1, false, []) else (done.1, true, done.2.2.read 0 m.length) := by
  rw [AeadObject.decryptArray, if_neg (Nat.not_lt_of_le long)]

/-- A sealed message comes back when its length is an `int`. -/
theorem decryptArray_of_sealed (buffer m ad : List Byte) :
    object.decryptArray cls buffer ((sealed.next object ad).sealMessage m) ad =
      (object.incrementNonce, if toInt m.length < 0 then (false, []) else (true, m)) := by
  obtain ⟨c, c_eq⟩ : ∃ c, (sealed.next object ad).sealMessage m = c := ⟨_, rfl⟩
  have length_c : c.length = m.length + asconTagSize := by rw [← c_eq, sealed.length_next]
  obtain ⟨out, out_eq⟩ : ∃ out, buffer.takeD (c.length - asconTagSize) 0 = out := ⟨_, rfl⟩
  have length_out : out.length = m.length := by
    rw [← out_eq, List.takeD_length, length_c, Nat.add_sub_cancel]
  have string : (tablePtr (out ++ c)).read out.length c.length = (sealed.next object ad).sealMessage m := by
    rw [read_tablePtr_back, c_eq]
  have decrypted := (sealed.implements_next object ad).decrypt_of_sealMessage (tablePtr (out ++ c))
    (show PlaintextRange 0 out.length c.length from Or.inr (Or.inl (by omega))) string
  have call : cls.decrypt (tablePtr (out ++ c)) 0 out.length c.length (tablePtr ad) ad.length
      (tablePtr object.nonce) object.key = ⟨Mem.write (tablePtr (out ++ c)) 0 m, some m.length, 0⟩ := decrypted
  have done : object.decrypt cls (tablePtr (out ++ c)) 0 out.length c.length (tablePtr ad) ad.length =
      (object.incrementNonce, toInt m.length, Mem.write (tablePtr (out ++ c)) 0 m) := by
    rw [AeadObject.decrypt]
    simp only [call, if_pos (Int.le_refl 0), Option.getD_some]
  rw [c_eq, decryptArray_call object (by omega), out_eq]
  simp only [done]
  by_cases negative : toInt m.length < 0
  · simp only [if_pos negative]
  · simp only [if_neg negative]
    rw [length_out, read_write_of_length rfl]

/-- Any other string leaves the object as it is. -/
theorem decryptArray_of_forged {c ad : List Byte} (forged : ¬ sealed.Seals object c ad) (buffer : List Byte) :
    object.decryptArray cls buffer c ad = (object, false, []) := by
  rcases Nat.lt_or_ge c.length asconTagSize with short | long
  · rw [AeadObject.decryptArray, if_pos short]
  · obtain ⟨out, out_eq⟩ : ∃ out, buffer.takeD (c.length - asconTagSize) 0 = out := ⟨_, rfl⟩
    have length_out : out.length = c.length - asconTagSize := by rw [← out_eq, List.takeD_length]
    have string : (tablePtr (out ++ c)).read out.length c.length = c := read_tablePtr_back out c
    have ranges : PlaintextRange 0 out.length c.length := Or.inr (Or.inl (by omega))
    rcases (sealed.implements_next object ad).decrypt_cases (tablePtr (out ++ c)) long ranges with
      ⟨m, -, sealed_eq, -⟩ | ⟨-, rejected⟩
    · rw [string] at sealed_eq
      exact absurd ⟨m, sealed_eq⟩ forged
    · have call : cls.decrypt (tablePtr (out ++ c)) 0 out.length c.length (tablePtr ad) ad.length
          (tablePtr object.nonce) object.key =
            ⟨Mem.write (tablePtr (out ++ c)) 0 (List.replicate (c.length - asconTagSize) 0),
              some (c.length - asconTagSize), -1⟩ := rejected
      have negative : ¬ (0 : Int) ≤ -1 := by decide
      have failed : (-1 : Int) < 0 := by decide
      have done : object.decrypt cls (tablePtr (out ++ c)) 0 out.length c.length (tablePtr ad) ad.length =
          (object, -1, Mem.write (tablePtr (out ++ c)) 0 (List.replicate (c.length - asconTagSize) 0)) := by
        rw [AeadObject.decrypt]
        simp only [call, if_neg negative]
      rw [decryptArray_call object long, out_eq]
      simp only [done, if_pos failed]

include sealed in
/-- The same between buffers, where the result is the length as an `int`. -/
theorem decrypt_encrypt_buffers (mem : Mem) {c m m' len : Nat} (ad : Mem) (adlen : Nat)
    (ranges : PlaintextRange m c (len + asconTagSize)) (ranges' : PlaintextRange m' c (len + asconTagSize)) :
    let sent := object.encrypt cls mem c m len ad adlen
    let received := object.decrypt cls sent.2.2 m' c (len + asconTagSize) ad adlen
    sent.1 = object.incrementNonce ∧ received.1 = object.incrementNonce ∧
      received.2.2.read m' len = mem.read m len ∧
      sent.2.1 = toInt (len + asconTagSize) ∧ received.2.1 = toInt len := by
  have inverse := (sealed.implements ad adlen (tablePtr object.nonce) object.key).exactInverse.round_trip mem c m
    len m' ranges ranges'
  obtain ⟨length_eq, -, result, mlen, message⟩ := inverse
  have encrypted : (cls.encrypt mem c m len ad adlen (tablePtr object.nonce) object.key).2 = len + asconTagSize :=
    length_eq
  rw [length_eq] at result mlen message
  have success : object.decrypt cls (object.encrypt cls mem c m len ad adlen).2.2 m' c (len + asconTagSize) ad
      adlen = (object.incrementNonce, toInt len,
        (cls.decrypt (cls.encrypt mem c m len ad adlen (tablePtr object.nonce) object.key).1 m' c
          (len + asconTagSize) ad adlen (tablePtr object.nonce) object.key).mem) := by
    rw [AeadObject.decrypt]
    refine (if_pos (Int.le_of_eq result.symm)).trans ?_
    exact congrArg (fun mlen => (object.incrementNonce, toInt (Option.getD mlen 0), _)) mlen
  intro sent received
  refine ⟨rfl, congrArg Prod.fst success, ?_, congrArg toInt encrypted, congrArg (·.2.1) success⟩
  exact (congrArg (fun done => Mem.read done.2.2 m' len) success).trans message

end

/-! ### Nonces -/

/-- The nonce moves by one modulo 2^128. -/
theorem numberOf_incrementNonce {κ : Type} (object : AeadObject κ) :
    numberOf (tablePtr object.incrementNonce.nonce) 16 = (numberOf (tablePtr object.nonce) 16 + 1) % 2 ^ 128 := by
  rw [← numberOf_asconAeadIncrementNonce]
  refine numberOf_congr fun i hi => ?_
  exact (tablePtr_read _ 0 hi).trans (congrArg _ (Nat.zero_add i))

/-- How a starting nonce is given. -/
inductive NonceStart where
  | setNonce (nonce : Mem) (len : Nat)
  | setCounter (n : Word)

def NonceStart.apply {κ : Type} (start : NonceStart) (object : AeadObject κ) : AeadObject κ :=
  match start with
  | setNonce nonce len => object.setNonce nonce len
  | setCounter n => object.setCounter n

/-- Nothing of the old nonce is left. -/
theorem NonceStart.apply_eq {κ : Type} (start : NonceStart) (key : κ) (old old' : List Byte) :
    start.apply ⟨key, old⟩ = start.apply ⟨key, old'⟩ := by
  cases start with
  | setNonce nonce len => rfl
  | setCounter n =>
      have bytes (npub : Mem) : (asconAeadSetCounter npub n).read 0 16 = beBytes64 0 ++ beBytes64 n := by
        have joined := write_append npub 0 (beBytes64 0) (beBytes64 n)
        rw [asconAeadSetCounter, beStoreWord64, beStoreWord64]
        refine (congrArg (fun mem => Mem.read mem 0 16) joined).trans ?_
        exact read_write_of_length rfl
      rw [NonceStart.apply, NonceStart.apply, AeadObject.setCounter, AeadObject.setCounter]
      exact congrArg _ ((bytes _).trans (bytes _).symm)

/-! ### Runs -/

/-- A length that `(int)` keeps from being negative. -/
def Fits (len : Nat) : Prop := len % 2 ^ 32 < 2 ^ 31

instance (len : Nat) : Decidable (Fits len) := inferInstanceAs (Decidable (len % 2 ^ 32 < 2 ^ 31))

theorem toInt_neg_iff (len : Nat) : toInt len < 0 ↔ ¬ Fits len := by
  rw [toInt, BitVec.toInt_eq_toNat_cond, BitVec.toNat_ofNat, Fits]
  split <;> omega

/-- The arrays of one call: the old content of the output, the input and the associated data. -/
structure ArrayCall where
  buffer : List Byte
  input : List Byte
  ad : List Byte

section

variable {κ : Type} (cls : AeadClass κ)

def AeadObject.encryptCall (object : AeadObject κ) (call : ArrayCall) : AeadObject κ × List Byte :=
  object.encryptArray cls call.buffer call.input call.ad

def AeadObject.decryptCall (object : AeadObject κ) (call : ArrayCall) : AeadObject κ × Bool × List Byte :=
  object.decryptArray cls call.buffer call.input call.ad

/-- A string that the object gives for no message. -/
def AeadObject.Forged (object : AeadObject κ) (call : ArrayCall) : Prop :=
  ∀ buffer message, (object.encryptArray cls buffer message call.ad).2 ≠ call.input

/-- What reaches the receiver around one message: strings that it rejects, and then the ciphertext. -/
structure Round where
  sent : ArrayCall
  others : List ArrayCall
  buffer : List Byte

/-- One round, from a sender and a receiver: the answers to the other strings and to the ciphertext. -/
def Round.deliver (parties : AeadObject κ × AeadObject κ) (round : Round) :
    (AeadObject κ × AeadObject κ) × List (Bool × List Byte) × (Bool × List Byte) :=
  let (sender, c) := parties.1.encryptCall cls round.sent
  let (receiver, rejected) := run (AeadObject.decryptCall cls) parties.2 round.others
  let (receiver, opened) := receiver.decryptCall cls ⟨round.buffer, c, round.sent.ad⟩
  ((sender, receiver), rejected, opened)

/-- The lengths of the messages of a round fit. Other strings may have any length. -/
structure Round.Fits (object : AeadObject κ) (round : Round) : Prop where
  sent : AsconSuite.Fits round.sent.input.length
  others : ∀ call ∈ round.others, AsconSuite.Fits (call.input.length - asconTagSize) ∨ object.Forged cls call

end

section

variable {κ : Type} {cls : AeadClass κ} (sealed : cls.Sealed)

include sealed

/-- A string whose message fits, if it has one, is rejected without a trace or accepted with the next nonce. -/
theorem decryptCall_cases (object : AeadObject κ) (call : ArrayCall)
    (fits : Fits (call.input.length - asconTagSize) ∨ object.Forged cls call) :
    object.decryptCall cls call = (object, false, []) ∨
      ∃ m, object.decryptCall cls call = (object.incrementNonce, true, m) := by
  by_cases seals : sealed.Seals object call.input call.ad
  · obtain ⟨m, input_eq⟩ := seals
    have length_m : call.input.length - asconTagSize = m.length := by
      rw [input_eq, sealed.length_next, Nat.add_sub_cancel]
    rcases fits with fits | forged
    · rw [length_m] at fits
      refine Or.inr ⟨m, ?_⟩
      rw [AeadObject.decryptCall, input_eq, decryptArray_of_sealed, if_neg]
      rw [toInt_neg_iff]
      exact not_not_intro fits
    · exact absurd (congrArg Prod.snd (encryptArray_eq sealed object [] m call.ad))
        fun sent => forged [] m (sent.trans input_eq.symm)
  · exact Or.inl (decryptArray_of_forged sealed object seals call.buffer)

/-- Strings that are all rejected leave the object as it is. -/
theorem run_decryptCall_of_rejected (object : AeadObject κ) (calls : List ArrayCall)
    (fits : ∀ call ∈ calls, Fits (call.input.length - asconTagSize) ∨ object.Forged cls call)
    (rejected : ∀ answer ∈ (run (AeadObject.decryptCall cls) object calls).2, answer.1 = false) :
    (run (AeadObject.decryptCall cls) object calls).1 = object ∧
      ∀ answer ∈ (run (AeadObject.decryptCall cls) object calls).2, answer = (false, []) := by
  induction calls with
  | nil => exact ⟨rfl, nofun⟩
  | cons call calls ih =>
      rw [Transducer.run_cons] at rejected ⊢
      have first := rejected _ List.mem_cons_self
      rcases decryptCall_cases sealed object call (fits call List.mem_cons_self) with failed | ⟨m, accepted⟩
      · rw [failed] at rejected ⊢
        have later := ih (fun call' listed => fits call' (List.mem_cons_of_mem _ listed))
          fun answer listed => rejected answer (List.mem_cons_of_mem _ listed)
        refine ⟨later.1, fun answer listed => ?_⟩
        rcases List.mem_cons.mp listed with rfl | listed
        · rfl
        · exact later.2 answer listed
      · rw [accepted] at first
        nomatch first

/-- One round between objects that are alike. -/
theorem deliver_of_rejected (object : AeadObject κ) (round : Round) (fits : round.Fits cls object)
    (rejected : ∀ answer ∈ (round.deliver cls (object, object)).2.1, answer.1 = false) :
    (round.deliver cls (object, object)).1 = (object.incrementNonce, object.incrementNonce) ∧
      (∀ answer ∈ (round.deliver cls (object, object)).2.1, answer = (false, [])) ∧
      (round.deliver cls (object, object)).2.2 = (true, round.sent.input) := by
  have others := run_decryptCall_of_rejected sealed object round.others fits.others rejected
  have sent : object.encryptCall cls round.sent =
      (object.incrementNonce, (sealed.next object round.sent.ad).sealMessage round.sent.input) :=
    encryptArray_eq sealed object _ _ _
  have opened : object.decryptCall cls
      ⟨round.buffer, (sealed.next object round.sent.ad).sealMessage round.sent.input, round.sent.ad⟩ =
        (object.incrementNonce, true, round.sent.input) := by
    have done := decryptArray_of_sealed sealed object round.buffer round.sent.input round.sent.ad
    rw [if_neg (by rw [toInt_neg_iff]; exact not_not_intro fits.sent)] at done
    exact done
  have parties : (round.deliver cls (object, object)).1 = (object.incrementNonce, object.incrementNonce) := by
    rw [Round.deliver]
    simp only [sent, others.1, opened]
  have answer : (round.deliver cls (object, object)).2.2 = (true, round.sent.input) := by
    rw [Round.deliver]
    simp only [sent, others.1, opened]
  exact ⟨parties, others.2, answer⟩

/-- A whole session between objects that are alike. -/
theorem run_deliver_of_rejected (object : AeadObject κ) (rounds : List Round)
    (fits : ∀ (i : Nat) (round : Round), rounds[i]? = some round →
      round.Fits cls (AeadObject.incrementNonce^[i] object))
    (rejected : ∀ answers ∈ (run (fun parties round => Round.deliver cls parties round) (object, object) rounds).2,
      ∀ answer ∈ answers.1, answer.1 = false) :
    let done := run (fun parties round => Round.deliver cls parties round) (object, object) rounds
    done.1.1 = done.1.2 ∧ (∀ answers ∈ done.2, ∀ answer ∈ answers.1, answer = (false, [])) ∧
      done.2.map Prod.snd = rounds.map fun round => (true, round.sent.input) := by
  induction rounds generalizing object with
  | nil => exact ⟨rfl, nofun, rfl⟩
  | cons round rounds ih =>
      rw [Transducer.run_cons] at rejected ⊢
      obtain ⟨parties, others, opened⟩ := deliver_of_rejected sealed object round
        (fits 0 round rfl) (rejected _ List.mem_cons_self)
      rw [parties] at rejected ⊢
      obtain ⟨same, later, messages⟩ := ih object.incrementNonce
        (fun i round' later => fits (i + 1) round' later)
        fun answers listed => rejected answers (List.mem_cons_of_mem _ listed)
      refine ⟨same, fun answers listed => ?_, ?_⟩
      · rcases List.mem_cons.mp listed with rfl | listed
        · exact others
        · exact later answers listed
      · rw [List.map_cons, List.map_cons, opened]
        exact congrArg _ messages

end

/-! ### The classes -/

/-- The object after a message: the same key, and the next nonce as a number. -/
structure AeadObject.MovedOn {κ : Type} (object after : AeadObject κ) : Prop where
  key : after.key = object.key
  nonce : numberOf (tablePtr after.nonce) 16 = (numberOf (tablePtr object.nonce) 16 + 1) % 2 ^ 128

theorem movedOn_incrementNonce {κ : Type} (object : AeadObject κ) : object.MovedOn object.incrementNonce :=
  ⟨rfl, numberOf_incrementNonce object⟩

/-- What the sessions of a class do. The byte arrays recover a message exactly when its length fits; between buffers
the message always comes back, with its length as an `int` for a result. -/
structure SessionsInStep {κ : Type} (cls : AeadClass κ) : Prop where
  encrypts : ∀ (object : AeadObject κ) (call : ArrayCall),
    object.MovedOn (object.encryptCall cls call).1
  decrypts : ∀ (object : AeadObject κ) (call : ArrayCall),
    Fits (call.input.length - asconTagSize) ∨ object.Forged cls call →
    object.decryptCall cls call = (object, false, []) ∨
      (object.MovedOn (object.decryptCall cls call).1 ∧ (object.decryptCall cls call).2.1 = true)
  sessions : ∀ (key : κ) (start : NonceStart) (old old' : List Byte) (rounds : List Round),
    (∀ (i : Nat) (round : Round), rounds[i]? = some round →
      round.Fits cls (AeadObject.incrementNonce^[i] (start.apply ⟨key, old⟩))) →
    let done := run (fun parties round => Round.deliver cls parties round)
      (start.apply ⟨key, old⟩, start.apply ⟨key, old'⟩) rounds
    (∀ answers ∈ done.2, ∀ answer ∈ answers.1, answer.1 = false) →
    done.1.1 = done.1.2 ∧ (∀ answers ∈ done.2, ∀ answer ∈ answers.1, answer = (false, [])) ∧
      done.2.map Prod.snd = rounds.map fun round => (true, round.sent.input)
  recovers_iff : ∀ (object : AeadObject κ) (buffer buffer' m ad : List Byte),
    (object.decryptArray cls buffer' (object.encryptArray cls buffer m ad).2 ad).2 = (true, m) ↔ Fits m.length
  buffers : ∀ (object : AeadObject κ) (mem : Mem) (c m m' len : Nat) (ad : Mem) (adlen : Nat),
    PlaintextRange m c (len + asconTagSize) → PlaintextRange m' c (len + asconTagSize) →
    let sent := object.encrypt cls mem c m len ad adlen
    let received := object.decrypt cls sent.2.2 m' c (len + asconTagSize) ad adlen
    object.MovedOn sent.1 ∧ received.1 = sent.1 ∧ received.2.2.read m' len = mem.read m len ∧
      received.2.1 = toInt len
  rejects : ∀ (object : AeadObject κ) (mem : Mem) (m c len : Nat) (ad : Mem) (adlen : Nat),
    (cls.decrypt mem m c len ad adlen (tablePtr object.nonce) object.key).result < 0 →
    (object.decrypt cls mem m c len ad adlen).1 = object ∧ (object.decrypt cls mem m c len ad adlen).2.1 = -1

section

variable {κ : Type} {cls : AeadClass κ} (sealed : cls.Sealed)

include sealed

/-- The ciphertext of an object, decrypted with the same key and nonce. -/
theorem decryptArray_encryptArray (object : AeadObject κ) (buffer buffer' m ad : List Byte) :
    object.decryptArray cls buffer' (object.encryptArray cls buffer m ad).2 ad =
      (object.incrementNonce, if toInt m.length < 0 then (false, []) else (true, m)) := by
  rw [encryptArray_eq sealed]
  exact decryptArray_of_sealed sealed object buffer' m ad

theorem recovers_iff_fits (object : AeadObject κ) (buffer buffer' m ad : List Byte) :
    (object.decryptArray cls buffer' (object.encryptArray cls buffer m ad).2 ad).2 = (true, m) ↔
      Fits m.length := by
  rw [decryptArray_encryptArray sealed]
  by_cases fits : Fits m.length
  · rw [if_neg (by rw [toInt_neg_iff]; exact not_not_intro fits)]
    exact iff_of_true rfl fits
  · rw [if_pos ((toInt_neg_iff _).mpr fits)]
    exact iff_of_false nofun fits

theorem sessionsInStep : SessionsInStep cls where
  encrypts := fun object call => by
    rw [AeadObject.encryptCall, encryptArray_eq sealed]
    exact movedOn_incrementNonce object
  decrypts := fun object call fits => by
    rcases decryptCall_cases sealed object call fits with failed | ⟨m, accepted⟩
    · exact Or.inl failed
    · rw [accepted]
      exact Or.inr ⟨movedOn_incrementNonce object, rfl⟩
  sessions := fun key start old old' rounds fits => by
    rw [start.apply_eq key old' old]
    exact run_deliver_of_rejected sealed _ rounds fits
  recovers_iff := recovers_iff_fits sealed
  buffers := fun object mem c m m' len ad adlen ranges ranges' => by
    obtain ⟨sent, received, message, -, result⟩ :=
      decrypt_encrypt_buffers sealed object mem ad adlen ranges ranges'
    intro sent' received'
    refine ⟨?_, received.trans sent.symm, message, result⟩
    rw [sent]
    exact movedOn_incrementNonce object
  rejects := fun object mem m c len ad adlen failed => by
    rw [AeadObject.decrypt]
    simp only [if_neg (Int.not_le.mpr failed)]
    exact ⟨trivial, trivial⟩

end

/-- All nine classes keep the two parties in step as long as the length of every message fits, and the byte arrays
recover exactly the messages whose length does. -/
theorem cpp_sessions_stay_in_step (v : AeadVariant) :
    SessionsInStep (aeadClass v) ∧ SessionsInStep (sivClass v) ∧ SessionsInStep (isapClass v) :=
  ⟨sessionsInStep (aeadClass_sealed v), sessionsInStep (sivClass_sealed v), sessionsInStep (isapClass_sealed v)⟩

/-- Two messages, the first of them behind a string that is too short. -/
def twoRounds : List Round := [⟨⟨[], [1, 2], [3]⟩, [⟨[], [4, 5, 6], []⟩], []⟩, ⟨⟨[], [7], []⟩, [], []⟩]

theorem cpp_sessions_stay_in_step_twoRounds :
    let done := run (fun parties round => Round.deliver aead128 parties round)
      ((NonceStart.setCounter 5).apply ⟨List.replicate 16 0, [1]⟩,
        (NonceStart.setCounter 5).apply ⟨List.replicate 16 0, [2]⟩) twoRounds
    done.1.1 = done.1.2 ∧ done.2.map Prod.snd = [(true, [1, 2]), (true, [7])] := by
  have fits : ∀ (i : Nat) (round : Round), twoRounds[i]? = some round → round.Fits aead128
      (AeadObject.incrementNonce^[i] ((NonceStart.setCounter 5).apply ⟨List.replicate 16 0, [1]⟩)) := by
    intro i round found
    rcases i with _ | _ | i
    · cases found
      refine ⟨by decide, fun call member => ?_⟩
      rw [List.mem_singleton.1 member]
      exact Or.inl (by decide)
    · cases found
      exact ⟨by decide, nofun⟩
    · cases found
  have session := (cpp_sessions_stay_in_step .ascon128).1.sessions (List.replicate 16 0) (.setCounter 5) [1] [2]
    twoRounds fits
  have short : ∀ answers ∈ (run (fun parties round => Round.deliver aead128 parties round)
      ((NonceStart.setCounter 5).apply ⟨List.replicate 16 0, [1]⟩,
        (NonceStart.setCounter 5).apply ⟨List.replicate 16 0, [2]⟩) twoRounds).2,
      ∀ answer ∈ answers.1, answer.1 = false := by
    intro answers member answer listed
    rcases List.mem_cons.1 member with rfl | member
    · rw [List.mem_singleton.1 listed]
      rfl
    · rw [List.mem_singleton.1 member] at listed
      cases listed
  obtain ⟨same, -, messages⟩ := session short
  exact ⟨same, messages⟩

/-- A message of 2^31 zeroes is encrypted by one object and not recovered by another one, which moves on to the next
nonce all the same. -/
theorem cpp_session_loses_message :
    let object : AeadObject (List Byte) := .ofKey (List.replicate 16 0)
    let message : List Byte := List.replicate (2 ^ 31) 0
    let received := object.decryptArray aead128 [] (object.encryptArray aead128 [] message []).2 []
    received.2 ≠ (true, message) ∧ received.2.1 = false ∧ received.1 = object.incrementNonce := by
  intro object message received
  have length_message : message.length = 2 ^ 31 := List.length_replicate
  have negative : toInt message.length < 0 := by
    rw [length_message]
    decide
  have answer : received = (object.incrementNonce, (false, [])) := by
    have done := decryptArray_encryptArray (aeadClass_sealed .ascon128) object [] [] message []
    rw [if_pos negative] at done
    exact done
  clear_value received
  rw [answer]
  exact ⟨nofun, rfl, rfl⟩

end AsconSuite
