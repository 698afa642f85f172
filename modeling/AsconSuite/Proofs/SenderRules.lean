/-
Module: AsconSuite.Proofs.SenderRules
Layer: Proofs
Purpose: What the sender's functions can do. Each rule lists the outcomes of one function, and a property of
  the function follows from checking them.
Imports: AsconSuite.Proofs.InputBytes, AsconSuite.Proofs.NvsRules, AsconSuite.Secure.Emissor
Trusted boundary: none
Main exports: WrapArgs.Admissible, wp_loadSenderState, wp_takeCounter, wp_asconSecureWrap, readCounterBE_sealPacket,
  SenderRam.CanEmit, asconSecureWrap_succeeds
-/
import AsconSuite.Proofs.InputBytes
import AsconSuite.Proofs.NvsRules
import AsconSuite.Secure.Emissor

namespace AsconSuite

open ByteWord ByteMemory CrashLogic

/-! ### Counters -/

/-- A reservation below the limit does not overflow. -/
theorem toNat_add_counterWindow {counter : Counter} (below : counter < counterLimit) :
    (counter + counterWindow).toNat = counter.toNat + 32 := by
  have limit : counter.toNat < 0xFFFFF000 := below
  rw [BitVec.toNat_add, Nat.mod_eq_of_lt]
  · rfl
  · exact Nat.lt_trans (Nat.add_lt_add_right limit 32) (by decide)

/-- The next counter below the limit does not overflow. -/
theorem toNat_add_one {counter : Counter} (below : counter < counterLimit) :
    (counter + 1).toNat = counter.toNat + 1 := by
  have limit : counter.toNat < 0xFFFFF000 := below
  rw [BitVec.toNat_add, Nat.mod_eq_of_lt]
  · rfl
  · exact Nat.lt_trans (Nat.succ_lt_succ limit) (by decide)

theorem lt_add_counterWindow {counter : Counter} (below : counter < counterLimit) :
    counter < counter + counterWindow := by
  rw [BitVec.lt_def, toNat_add_counterWindow below]
  exact Nat.lt_add_of_pos_right (by decide)

/-- Eight bits of a value, at their place. -/
theorem getLsbD_byte (value : Counter) (place : Nat) {bit : Nat} (inside : bit < 32) :
    (((value >>> place).setWidth 8).setWidth 32 <<< place).getLsbD bit =
      (decide (place ≤ bit ∧ bit < place + 8) && value.getLsbD bit) := by
  rw [BitVec.getLsbD_shiftLeft, BitVec.getLsbD_setWidth, BitVec.getLsbD_setWidth,
    BitVec.getLsbD_ushiftRight]
  by_cases before : bit < place
  · have outside : ¬ (place ≤ bit ∧ bit < place + 8) := by omega
    simp [before, outside]
  · have position : place + (bit - place) = bit := by omega
    have within : bit - place < 32 := by omega
    have same : (bit - place < 8) ↔ (place ≤ bit ∧ bit < place + 8) := by omega
    simp [inside, before, position, within, same]

/-- A value is put together again from its four bytes. -/
theorem or_bytes (value : Counter) :
    (((value >>> 24).setWidth 8).setWidth 32 <<< 24) |||
      (((value >>> 16).setWidth 8).setWidth 32 <<< 16) |||
      (((value >>> 8).setWidth 8).setWidth 32 <<< 8) ||| (value.setWidth 8).setWidth 32 = value := by
  apply BitVec.eq_of_getLsbD_eq
  intro bit inside
  have lowest : ((value.setWidth 8).setWidth 32).getLsbD bit =
      (decide (0 ≤ bit ∧ bit < 0 + 8) && value.getLsbD bit) := by
    simpa using getLsbD_byte value 0 inside
  rw [BitVec.getLsbD_or, BitVec.getLsbD_or, BitVec.getLsbD_or, getLsbD_byte value 24 inside,
    getLsbD_byte value 16 inside, getLsbD_byte value 8 inside, lowest]
  cases value.getLsbD bit with
  | false => simp only [Bool.and_false, Bool.or_false]
  | true =>
      simp only [Bool.and_true, Bool.or_eq_true, decide_eq_true_eq]
      omega

/-- The counter is read back from its four bytes. -/
theorem readCounterBE_writeCounterBE (mem : Mem) (out : Nat) (value : Counter) :
    readCounterBE ((writeCounterBE mem out value).view out) = value := by
  have stored : ∀ i < 4, (writeCounterBE mem out value) (out + i) =
      [(value >>> 24).setWidth 8, (value >>> 16).setWidth 8, (value >>> 8).setWidth 8,
        value.setWidth 8].getD i 0 := fun i inside => write_apply_of_lt _ _ _ inside
  simp only [readCounterBE, view_apply, stored 0 (by decide), stored 1 (by decide),
    stored 2 (by decide), stored 3 (by decide)]
  exact or_bytes value

/-- A packet carries the counter that it was built from. -/
theorem readCounterBE_sealPacket (key : Key) (noncePrefix : NoncePrefix) (counter : Counter)
    (mem : Mem) (payload payloadLength header headerLength packet : Nat) :
    readCounterBE ((sealPacket key noncePrefix counter mem payload payloadLength header headerLength
      packet).1.view packet) = counter :=
  readCounterBE_writeCounterBE _ _ _

/-! ### Taking a counter -/

section Rules

variable {ram : SenderRam} {store : SenderStore} {script : List NvsReply}
  {lost : SenderStore → Prop}

/-- The storage after `reserveCounters` has written to it. -/
def SenderStore.withReservation (store : SenderStore) (counter : Counter) : SenderStore :=
  { store with reservedEntry := some (counter + counterWindow) }

/-- The outcomes of `reserveCounters` when the reservation is used up. -/
theorem wp_reserveCounters {post : AsconSecureStatus → SenderRam → SenderStore → List NvsReply → Prop}
    (below : ram.senderCounter < counterLimit) (consumed : ram.senderReserved ≤ ram.senderCounter)
    (cut : lost store) (refused : ∀ rest, post .errNvs ram store rest)
    (unreported : ∀ rest, post .errNvs ram (store.withReservation ram.senderCounter) rest)
    (written : ∀ rest, post .ok
      { ram with senderReserved := ram.senderCounter + counterWindow }
      (store.withReservation ram.senderCounter) rest) :
    wp reserveCounters post lost ram store script := by
  simp only [reserveCounters, wp_bind]
  apply wp_nvsBegin cut
  · exact refused
  intro rest _
  simp only [Bool.not_true, Bool.false_eq_true, if_false, wp_bind, wp_getRam]
  apply wp_nvsPut cut
  · exact refused
  · exact unreported
  intro rest _
  simp only [Bool.not_true, Bool.false_eq_true, if_false, wp_bind, wp_modifyRam, wp_pure]
  have greater : ram.senderReserved < ram.senderCounter + counterWindow :=
    Nat.lt_of_le_of_lt consumed (lt_add_counterWindow below)
  rw [if_pos greater]
  exact written rest

/-- The outcomes of `loadSenderState`: the sender is not ready, or it starts from what is stored. -/
theorem wp_loadSenderState {post : AsconSecureStatus → SenderRam → SenderStore → List NvsReply → Prop}
    (cut : lost store)
    (failed : ∀ status, status ≠ .ok → ∀ ram', ram'.senderReady = false →
      ∀ rest, post status ram' store rest)
    (loaded : ∀ key noncePrefix reserved rest, store.keyEntry = some key →
      store.prefixEntry = some noncePrefix → store.reservedEntry = some reserved →
      counterWindow ≤ reserved → post .ok ⟨true, key, noncePrefix, reserved, reserved⟩ store rest) :
    wp loadSenderState post lost ram store script := by
  simp only [loadSenderState, wp_bind, wp_modifyRam]
  apply wp_nvsBegin cut
  · exact failed .errNvs (by decide) _ rfl
  intro rest _
  simp only [Bool.not_true, Bool.false_eq_true, if_false, wp_bind]
  apply wp_nvsIsKey cut
  · exact fun _ rest _ _ => failed .errNotProvisioned (by decide) _ rfl rest
  intro rest _ _
  simp only [Bool.not_true, Bool.false_eq_true, if_false, wp_bind]
  apply wp_nvsGetBytes cut
  · exact failed .errNvs (by decide) _ rfl
  intro key rest _ keyHeld
  simp only [wp_bind, wp_modifyRam]
  apply wp_nvsGetBytes cut
  · exact failed .errNvs (by decide) _ rfl
  intro noncePrefix rest _ prefixHeld
  simp only [wp_bind, wp_modifyRam]
  apply wp_nvsGetUInt cut
  · exact fun _ rest _ _ => failed .errNvs (by decide) _ rfl rest
  intro reserved rest _ stored
  by_cases refused : reserved < counterWindow
  · rw [if_pos refused]
    exact failed .errNvs (by decide) _ rfl rest
  · rw [if_neg refused]
    exact loaded key noncePrefix reserved rest keyHeld prefixHeld stored (BitVec.not_lt.1 refused)

/-- The outcomes of `takeCounter`. -/
theorem wp_takeCounter
    {post : Except AsconSecureStatus Counter → SenderRam → SenderStore → List NvsReply → Prop}
    (cut : lost store)
    (exhausted : counterLimit ≤ ram.senderCounter → post (.error .errExhausted) ram store script)
    (refused : ram.senderCounter < counterLimit → ram.senderReserved ≤ ram.senderCounter →
      ∀ rest, post (.error .errNvs) ram store rest)
    (unreported : ram.senderCounter < counterLimit → ram.senderReserved ≤ ram.senderCounter →
      ∀ rest, post (.error .errNvs) ram (store.withReservation ram.senderCounter) rest)
    (renewed : ram.senderCounter < counterLimit → ram.senderReserved ≤ ram.senderCounter →
      ∀ rest, post (.ok ram.senderCounter)
        { ram with
          senderCounter := ram.senderCounter + 1
          senderReserved := ram.senderCounter + counterWindow }
        (store.withReservation ram.senderCounter) rest)
    (available : ram.senderCounter < counterLimit → ram.senderCounter < ram.senderReserved →
      post (.ok ram.senderCounter) { ram with senderCounter := ram.senderCounter + 1 } store
        script) :
    wp takeCounter post lost ram store script := by
  simp only [takeCounter, wp_bind, wp_getRam]
  by_cases limit : counterLimit ≤ ram.senderCounter
  · rw [if_pos limit]
    exact exhausted limit
  have below : ram.senderCounter < counterLimit := BitVec.not_le.1 limit
  rw [if_neg limit]
  by_cases consumed : ram.senderReserved ≤ ram.senderCounter
  · rw [if_pos consumed, wp_bind]
    apply wp_reserveCounters below consumed cut
    · exact refused below consumed
    · exact unreported below consumed
    intro rest
    have remaining : ¬ ram.senderCounter + counterWindow ≤ ram.senderCounter :=
      BitVec.not_le.2 (lt_add_counterWindow below)
    simp only [ne_eq, not_true, if_false, allocateCounter, wp_bind, wp_getRam, if_neg limit,
      if_neg remaining, wp_modifyRam, wp_pure]
    exact renewed below consumed rest
  · rw [if_neg consumed]
    simp only [wp_bind, wp_pure, ne_eq, not_true, if_false, allocateCounter, wp_getRam,
      if_neg limit, if_neg consumed, wp_modifyRam]
    exact available below (BitVec.not_le.1 consumed)

/-! ### Wrapping -/

/-- What `asconSecureWrap` checks before it takes a counter. -/
structure WrapArgs.Admissible (args : WrapArgs) (payload packet : Nat) : Prop where
  payloadGiven : args.payload = some payload
  packetGiven : args.packet = some packet
  lengthGiven : args.packetLengthGiven = true
  headerGiven : args.header = none → args.headerLength = 0
  payloadFits : args.payloadLength ≤ secureMaxPayload
  packetFits : args.payloadLength + secureOverhead ≤ args.packetCapacity
  headerApart : rangesOverlap (args.header.getD 0) args.headerLength packet args.packetCapacity = false

/-- The packet that `asconSecureWrap` builds from a counter. -/
def wrapPacket (args : WrapArgs) (mem : Mem) (payload packet : Nat) (ram : SenderRam)
    (counter : Counter) : WrapResult :=
  let (mem, cipherLength) := sealPacket ram.senderKey ram.senderPrefix counter mem payload
    args.payloadLength (args.header.getD 0) args.headerLength packet
  ⟨.ok, mem, some (secureCounterBytes + cipherLength)⟩

/-- The outcomes of `asconSecureWrap`: it refuses, or it goes on to take a counter. -/
theorem wp_asconSecureWrap {args : WrapArgs} {mem : Mem}
    {post : WrapResult → SenderRam → SenderStore → List NvsReply → Prop}
    (refused : ∀ status, status ≠ .ok →
      post ⟨status, mem, if args.packetLengthGiven then some 0 else none⟩ ram store script)
    (goesOn : ram.senderReady = true → ∀ payload packet, args.Admissible payload packet →
      wp takeCounter (fun outcome ram store rest =>
        match outcome with
        | .error status => post ⟨status, mem, some 0⟩ ram store rest
        | .ok counter => post (wrapPacket args mem payload packet ram counter) ram store rest)
        lost ram store script) :
    wp (asconSecureWrap args mem) post lost ram store script := by
  simp only [asconSecureWrap, wp_bind, wp_getRam]
  cases ready : ram.senderReady with
  | false => exact refused .errNotReady (by decide)
  | true =>
      simp only [Bool.not_true, Bool.false_eq_true, if_false]
      split
      · rename_i payload packet payloadGiven packetGiven lengthGiven
        by_cases headerMissing : args.header = none ∧ 0 < args.headerLength
        · rw [if_pos headerMissing]
          exact refused .errBuffer (by decide)
        rw [if_neg headerMissing]
        by_cases tooLong : secureMaxPayload < args.payloadLength ∨
            args.packetCapacity < args.payloadLength + secureOverhead
        · rw [if_pos tooLong]
          exact refused .errBuffer (by decide)
        rw [if_neg tooLong]
        cases overlap : rangesOverlap (args.header.getD 0) args.headerLength packet
            args.packetCapacity with
        | true => exact refused .errBuffer (by decide)
        | false =>
            have admissible : args.Admissible payload packet := {
              payloadGiven, packetGiven, lengthGiven
              headerGiven := fun missing => Nat.eq_zero_of_not_pos fun positive =>
                headerMissing ⟨missing, positive⟩
              payloadFits := Nat.not_lt.1 fun long => tooLong (Or.inl long)
              packetFits := Nat.not_lt.1 fun short => tooLong (Or.inr short)
              headerApart := overlap }
            simp only [Bool.false_eq_true, if_false, wp_bind]
            refine wp_mono (goesOn ready payload packet admissible) ?_ fun _ => id
            intro outcome ram store rest holds
            cases outcome with
            | error status =>
                simpa only [lengthGiven, if_true, wp_pure] using holds
            | ok counter => exact holds
      · exact refused .errBuffer (by decide)

/-! ### Senders in working order -/

/-- A sender that can still emit: it is ready and has counters left. -/
structure SenderRam.CanEmit (ram : SenderRam) : Prop where
  ready : ram.senderReady = true
  countersLeft : ram.senderCounter < counterLimit

/-- With working storage a counter is taken, from a new reservation when the old one is used up. -/
theorem takeCounter_succeeds (below : ram.senderCounter < counterLimit) (rest : List NvsReply) :
    wp takeCounter (fun outcome ram' _ _ => outcome = .ok ram.senderCounter ∧
        ram'.senderKey = ram.senderKey ∧ ram'.senderPrefix = ram.senderPrefix)
      (fun _ => False) ram store (.ok :: .ok :: rest) := by
  have limit : ¬ counterLimit ≤ ram.senderCounter := BitVec.not_le.2 below
  simp only [takeCounter, wp_bind, wp_getRam, if_neg limit]
  by_cases consumed : ram.senderReserved ≤ ram.senderCounter
  · have greater : ram.senderReserved < ram.senderCounter + counterWindow :=
      Nat.lt_of_le_of_lt consumed (lt_add_counterWindow below)
    have remaining : ¬ ram.senderCounter + counterWindow ≤ ram.senderCounter :=
      BitVec.not_le.2 (lt_add_counterWindow below)
    rw [if_pos consumed]
    simp only [reserveCounters, nvsBegin, putReserved, nvsPut, putOutcome, wp_bind, wp_ask_cons, decide_true,
      Bool.not_true, Bool.false_eq_true, if_false, wp_getRam, wp_modifyRam, if_pos greater, wp_pure, ne_eq,
      not_true_eq_false, allocateCounter, if_neg limit, if_neg remaining]
    exact ⟨trivial, trivial, trivial⟩
  · rw [if_neg consumed]
    simp only [wp_pure, ne_eq, not_true_eq_false, if_false, allocateCounter, wp_bind, wp_getRam, if_neg limit,
      if_neg consumed, wp_modifyRam]
    exact ⟨trivial, trivial, trivial⟩

/-- With working storage, a sender that can still emit builds the packet of arguments that pass the checks. -/
theorem asconSecureWrap_succeeds {args : WrapArgs} {mem : Mem} {payload packet : Nat} (canEmit : ram.CanEmit)
    (admissible : args.Admissible payload packet) (rest : List NvsReply) :
    wp (asconSecureWrap args mem)
      (fun result _ _ _ => result = wrapPacket args mem payload packet ram ram.senderCounter)
      (fun _ => False) ram store (.ok :: .ok :: rest) := by
  have header : ¬ (args.header = none ∧ 0 < args.headerLength) := fun ⟨missing, positive⟩ =>
    absurd (admissible.headerGiven missing) (Nat.ne_of_gt positive)
  have fits : ¬ (secureMaxPayload < args.payloadLength ∨ args.packetCapacity < args.payloadLength + secureOverhead) :=
    not_or.2 ⟨Nat.not_lt.2 admissible.payloadFits, Nat.not_lt.2 admissible.packetFits⟩
  simp only [asconSecureWrap, wp_bind, wp_getRam, canEmit.ready, admissible.payloadGiven, admissible.packetGiven,
    admissible.lengthGiven, Bool.not_true, Bool.false_eq_true, if_false, if_neg header, if_neg fits,
    admissible.headerApart]
  refine wp_mono (takeCounter_succeeds canEmit.countersLeft rest) ?_ fun _ => id
  rintro _ ram' store' rest' ⟨rfl, sameKey, samePrefix⟩
  simp only [wp_bind, wp_getRam, wp_pure, wrapPacket, sameKey, samePrefix]

end Rules

end AsconSuite
