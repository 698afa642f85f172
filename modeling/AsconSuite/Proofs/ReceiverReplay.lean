/-
Module: AsconSuite.Proofs.ReceiverReplay
Layer: Proofs
Purpose: Runs of a receiver. While reads of the storage succeed, no packet is delivered twice. A read that fails
  without being noticed makes `asconSecureAddPeer` forget a counter, and then a packet can be delivered again.
Imports: AsconSuite.Proofs.ReceiverRuns, AsconSuite.Proofs.SecureRoundTrip
Trusted boundary: none
Main exports: receiver_never_replays, addPeerSafe_iff, addPeer_reads_back, addPeer_forgets_counter
-/
import AsconSuite.Proofs.ReceiverRuns
import AsconSuite.Proofs.SecureRoundTrip

namespace AsconSuite

open ByteWord ByteMemory CrashLogic

/-! ### A receiver and a packet -/

/-- A credential. -/
def sampleCredential : Credential := ⟨Vector.replicate _ 7, Vector.replicate _ 9⟩

/-- A packet of it, with the counter 5 and three bytes of payload. -/
def samplePacket : List Byte :=
  packetBytes sampleCredential.key sampleCredential.noncePrefix 5 (fun _ => 0) 0 [1, 2, 3]

/-- Switching the receiver on and registering the credential. -/
def registerSample (replies : List NvsReply) : List ReceiverEvent :=
  [.call .begin [.ok], .call (.addPeer 3 (some sampleCredential.key)
    (some sampleCredential.noncePrefix)) replies]

/-- The packet arrives. -/
def receiveSample : ReceiverEvent :=
  .call (.unwrap ⟨3, some 0, 23, none, 0, some 100, 3, true⟩ (Mem.write (fun _ => 0) 0 samplePacket))
    [.ok, .ok]

/-- The packet as it was delivered. -/
def sampleDelivery : Delivery := ⟨sampleCredential, 3, 5, samplePacket⟩

/-- The receiver with the credential as its only peer. -/
def sampleRam (hasAccepted : Bool) (lastAccepted : Counter) : ReceiverRam :=
  ReceiverRam.register ⟨true, fun _ => .zero⟩ 0 3 sampleCredential.key sampleCredential.noncePrefix
    hasAccepted lastAccepted

theorem peerSlot_zero (peerId : Byte) : peerSlot (fun _ => Peer.zero) peerId = some 0 := rfl

/-- The credential is registered without a counter, when none is found. -/
theorem addSample_unread {store : ReceiverStore} {reply : NvsReply}
    (unread : ¬ (reply = .ok ∧ (store sampleCredential.counterKey).isSome = true))
    (rest : List NvsReply) :
    asconSecureAddPeer 3 (some sampleCredential.key) (some sampleCredential.noncePrefix)
        ⟨true, fun _ => .zero⟩ store (.ok :: reply :: rest) =
      .returned .ok (sampleRam false 0) store rest := by
  rw [asconSecureAddPeer_eq rfl (peerSlot_zero 3)]
  exact if_neg unread

/-- The receiver is switched on and registers the credential. -/
theorem after_registerSample (store : ReceiverStore) (delivered : List Delivery)
    (replies : List NvsReply) {ram : ReceiverRam} {store' : ReceiverStore} {rest : List NvsReply}
    (registered : asconSecureAddPeer 3 (some sampleCredential.key) (some sampleCredential.noncePrefix)
      ⟨true, fun _ => .zero⟩ store replies = .returned .ok ram store' rest) (before : ReceiverRam) :
    receiverNode.after ⟨before, store, delivered⟩ (registerSample replies) =
      ⟨ram, store', delivered⟩ := by
  have switchedOn : receiverNode.step ⟨before, store, delivered⟩ (.call .begin [.ok]) =
      ⟨⟨true, fun _ => .zero⟩, store, delivered ++ []⟩ :=
    Node.step_of_returned receiverNode (silently_returned rfl)
  have added : receiverNode.step ⟨⟨true, fun _ => .zero⟩, store, delivered⟩
      (.call (.addPeer 3 (some sampleCredential.key) (some sampleCredential.noncePrefix)) replies) =
        ⟨ram, store', delivered ++ []⟩ :=
    Node.step_of_returned receiverNode (silently_returned registered)
  rw [List.append_nil] at switchedOn added
  rw [registerSample, Node.after, Runs.after_cons, switchedOn, Runs.after_cons, added, Runs.after_nil]

/-- The packet is delivered when the peer has not accepted anything yet. -/
theorem step_receiveSample (lastAccepted : Counter) (store : ReceiverStore) (delivered : List Delivery) :
    receiverNode.step ⟨sampleRam false lastAccepted, store, delivered⟩ receiveSample =
      ⟨(sampleRam false lastAccepted).accept sampleCredential.fingerprint 5,
        Function.update store sampleCredential.counterKey (some 5), delivered ++ [sampleDelivery]⟩ := by
  have slot : (sampleRam false lastAccepted).peers 0 = ⟨true, 3, sampleCredential.key,
      sampleCredential.noncePrefix, sampleCredential.fingerprint, false, lastAccepted⟩ :=
    peers_register_self _ _ _ _ _ _ _
  have bytes := read_write_same (fun _ => 0) 0 samplePacket
  have length : samplePacket.length = 23 := length_packetBytes _ _ _ _ _ _
  have knows : KnowsPeer (sampleRam false lastAccepted) 3 0 sampleCredential := {
    ready := rfl
    peerFound := findPeer_update (peerSlot_zero 3) rfl rfl
    sameKey := congrArg Peer.key slot
    samePrefix := congrArg Peer.noncePrefix slot }
  have receives : UnwrapArgs.Receives ⟨3, some 0, 23, none, 0, some 100, 3, true⟩
      (Mem.write (fun _ => 0) 0 samplePacket) (sampleRam false lastAccepted) 0 sampleCredential
      samplePacket (Mem.read (fun _ => 0) 0 0) 0 100 := {
    knows := knows
    packetGiven := rfl
    packetLength := length.symm
    packetSame := bytes
    headerGiven := fun _ => rfl
    headerLength := rfl
    headerSame := rfl
    payloadGiven := rfl
    lengthGiven := rfl
    roomLeft := by
      rw [length]
      exact Nat.le_refl _ }
  have unwrapped := asconSecureUnwrap_receives (by decide) receives store []
  have fresh : ¬ (((sampleRam false lastAccepted).peers 0).hasAccepted = true ∧
      (5 : Counter) ≤ ((sampleRam false lastAccepted).peers 0).lastAccepted) := by
    rw [congrArg Peer.hasAccepted slot]
    exact fun replay => Bool.false_ne_true replay.1
  have fingerprint : ((sampleRam false lastAccepted).peers 0).fingerprint =
      sampleCredential.fingerprint := congrArg Peer.fingerprint slot
  have delivery : (⟨((sampleRam false lastAccepted).peers 0).credential, 3,
      readCounterBE ((Mem.write (fun _ => 0) 0 samplePacket).view 0),
      (Mem.write (fun _ => 0) 0 samplePacket).read 0 23⟩ : Delivery) = sampleDelivery := by
    rw [length] at bytes
    have counter : readCounterBE ((Mem.write (fun _ => 0) 0 samplePacket).view 0) = 5 := by
      have same : (Mem.write (fun _ => 0) 0 samplePacket).read 0
          (([1, 2, 3] : List Byte).length + secureOverhead) = packetBytes sampleCredential.key
            sampleCredential.noncePrefix 5 (fun _ => 0) 0 [1, 2, 3] := bytes
      exact readCounterBE_of_read same
    rw [slot, counter, bytes]
    rfl
  rw [if_neg fresh, fingerprint] at unwrapped
  have delivers : receiverNode.program
      (.unwrap ⟨3, some 0, 23, none, 0, some 100, 3, true⟩ (Mem.write (fun _ => 0) 0 samplePacket))
      (sampleRam false lastAccepted) store [.ok, .ok] =
        .returned [sampleDelivery] ((sampleRam false lastAccepted).accept sampleCredential.fingerprint 5)
          (Function.update store sampleCredential.counterKey (some 5)) [] := by
    apply eq_of_wp
    change wp (asconSecureUnwrap _ _ >>= _) _ _ _ _ _
    rw [wp_bind, wp, unwrapped]
    apply deliveredPackets_accept knows.peerFound rfl
    exact congrArg (fun given => Ended.returned [given] _ _ _) delivery
  exact Node.step_of_returned receiverNode delivers

/-- Two deliveries of the packet. -/
theorem not_noReplay_twice {world : ReceiverWorld} (twice : world.log = [sampleDelivery, sampleDelivery]) :
    ¬ NoReplay world := by
  intro holds
  have increasing := holds.increasing
  rw [twice] at increasing
  have first := List.rel_of_pairwise_cons increasing List.mem_cons_self
  exact absurd (first rfl) (BitVec.lt_irrefl _)

/-! ### Reads that succeed -/

/-- Over any run of a receiver whose reads of the storage succeed, with failing `begin` and `put` and losses of
power, the counters delivered under a credential increase, no packet is delivered twice, and the counters kept
in the storage and in the table are not below those delivered. -/
theorem receiver_never_replays (store : ReceiverStore) (events : List ReceiverEvent)
    (reads : ∀ event ∈ events, ReadsSucceed event)
    (distinct : DistinctFingerprints (registeredCredentials events)) :
    NoReplay (receiverNode.after (receiverStart store) events) := by
  have readsBack : receiverNode.Along ReadsBack (receiverStart store) events :=
    Runs.along_of_forall fun world event member => readsBack_of_readsSucceed (reads event member) world
  exact (receiverAfter_invariant store readsBack distinct rfl).noReplay distinct

/-- One credential, registered twice. -/
theorem distinctFingerprints_sample :
    DistinctFingerprints [sampleCredential, sampleCredential] := by
  have own : ∀ c ∈ [sampleCredential, sampleCredential], c = sampleCredential := by
    intro c member
    rcases List.mem_cons.1 member with same | member
    · exact same
    · exact List.mem_singleton.1 member
  intro c first d second _
  rw [own c first, own d second]

/-- The packet arrives. -/
theorem after_firstDelivery :
    receiverNode.after (receiverStart fun _ => none) (registerSample [.ok, .ok] ++ [receiveSample]) =
      ⟨(sampleRam false 0).accept sampleCredential.fingerprint 5,
        Function.update (fun _ => none) sampleCredential.counterKey (some 5), [sampleDelivery]⟩ := by
  have unread : ¬ ((NvsReply.ok : NvsReply) = .ok ∧
      ((fun _ => none : ReceiverStore) sampleCredential.counterKey).isSome = true) :=
    fun present => Bool.false_ne_true present.2
  have registered := after_registerSample (fun _ => none) [] [.ok, .ok] (addSample_unread unread [])
    .initial
  rw [Node.after_append, receiverStart, registered]
  exact step_receiveSample 0 _ []

/-- All reads of the two registrations answer. -/
theorem readsSucceed_reboot :
    ∀ event ∈ registerSample [.ok, .ok] ++ [receiveSample] ++ [.powerLoss] ++
      registerSample [.ok, .ok, .ok] ++ [receiveSample], ReadsSucceed event := by
  intro event member
  simp only [registerSample, receiveSample, List.cons_append, List.nil_append, List.mem_cons,
    List.not_mem_nil, or_false] at member
  rcases member with rfl | rfl | rfl | rfl | rfl | rfl | rfl
  · exact trivial
  · exact fun reply => List.eq_of_mem_singleton
  · exact trivial
  · exact trivial
  · exact trivial
  · intro reply inside
    simpa using inside
  · exact trivial

/-- The packet arrives, the receiver reboots, and the packet arrives again. -/
theorem receiver_never_replays_reboot :
    (receiverNode.after (receiverStart fun _ => none)
      (registerSample [.ok, .ok] ++ [receiveSample])).log = [sampleDelivery] ∧
    NoReplay (receiverNode.after (receiverStart fun _ => none)
      (registerSample [.ok, .ok] ++ [receiveSample] ++ [.powerLoss] ++
        registerSample [.ok, .ok, .ok] ++ [receiveSample])) := by
  constructor
  · rw [after_firstDelivery]
  · exact receiver_never_replays _ _ readsSucceed_reboot distinctFingerprints_sample

/-! ### Reads that fail -/

/-- A call of `asconSecureAddPeer` fails and registers nothing, or the peer that it registers has at least the
counter that is stored for it. -/
def AddPeerSafe (world : ReceiverWorld) : ReceiverEvent → Prop
  | .call (.addPeer peerId key noncePrefix) script =>
      match asconSecureAddPeer peerId key noncePrefix world.ram world.store script with
      | .returned status ram _ _ =>
          if status = .ok then
            ∀ credential : Credential, key = some credential.key →
              noncePrefix = some credential.noncePrefix →
              ∀ stored, world.store credential.counterKey = some stored →
                ∃ slot, findPeer ram.peers peerId = some slot ∧
                  (ram.peers slot).credential = credential ∧
                  (ram.peers slot).hasAccepted = true ∧ stored ≤ (ram.peers slot).lastAccepted
          else ram = world.ram
      | .powerLost _ => True
  | _ => True

/-- A call that reads a stored counter back is safe. -/
theorem addPeerSafe_of_readsBack {world : ReceiverWorld} {peerId : Byte} {key : Option Key}
    {noncePrefix : Option NoncePrefix} {script : List NvsReply}
    (readsBack : ReadsBack world (.call (.addPeer peerId key noncePrefix) script)) :
    AddPeerSafe world (.call (.addPeer peerId key noncePrefix) script) := by
  have outcome : wp (asconSecureAddPeer peerId key noncePrefix)
      (fun status ram _ _ =>
        if status = .ok then
          ∀ credential : Credential, key = some credential.key →
            noncePrefix = some credential.noncePrefix →
            ∀ stored, world.store credential.counterKey = some stored →
              ∃ slot, findPeer ram.peers peerId = some slot ∧
                (ram.peers slot).credential = credential ∧
                (ram.peers slot).hasAccepted = true ∧ stored ≤ (ram.peers slot).lastAccepted
        else ram = world.ram) (fun _ => True) world.ram world.store script := by
    apply wp_asconSecureAddPeer trivial
    · intro status failed rest
      rw [if_neg failed]
    · intro key' noncePrefix' slot sameKey samePrefix ready place reply rest replies notStored
      rw [if_pos rfl]
      rintro ⟨key'', noncePrefix''⟩ ownKey ownPrefix stored held
      obtain rfl : key' = key'' := Option.some.inj (sameKey.symm.trans ownKey)
      obtain rfl : noncePrefix' = noncePrefix'' := Option.some.inj (samePrefix.symm.trans ownPrefix)
      subst sameKey samePrefix
      have replied := readsBack ready (Option.isSome_iff_exists.2 ⟨slot, place⟩) stored held
      rw [replies] at replied
      have absent := notStored replied.1
      rw [Credential.counterKey, Credential.fingerprint, absent] at held
      contradiction
    · intro key' noncePrefix' slot sameKey samePrefix ready place stored reply rest replies held
      rw [if_pos rfl]
      rintro ⟨key'', noncePrefix''⟩ ownKey ownPrefix stored' held'
      obtain rfl : key' = key'' := Option.some.inj (sameKey.symm.trans ownKey)
      obtain rfl : noncePrefix' = noncePrefix'' := Option.some.inj (samePrefix.symm.trans ownPrefix)
      subst sameKey samePrefix
      have replied := readsBack ready (Option.isSome_iff_exists.2 ⟨slot, place⟩) stored' held'
      rw [replies] at replied
      obtain rfl : stored = stored' := Option.some.inj (held.symm.trans held')
      refine ⟨slot, ?_, ?_⟩
      · exact findPeer_update place rfl rfl
      · rw [peers_register_self]
        exact ⟨rfl, rfl, readBack_of_replies replied⟩
  rw [AddPeerSafe]
  cases ended : asconSecureAddPeer peerId key noncePrefix world.ram world.store script with
  | returned status ram store rest => exact wp_returned outcome ended
  | powerLost store => exact trivial

/-- A safe call reads a stored counter back. -/
theorem readsBack_of_addPeerSafe {world : ReceiverWorld} {peerId : Byte} {key : Key}
    {noncePrefix : NoncePrefix} {script : List NvsReply}
    (safe : AddPeerSafe world (.call (.addPeer peerId (some key) (some noncePrefix)) script)) :
    ReadsBack world (.call (.addPeer peerId (some key) (some noncePrefix)) script) := by
  intro ready isPlace stored held
  obtain ⟨slot, place⟩ := Option.isSome_iff_exists.1 isPlace
  have found : ∀ hasAccepted lastAccepted, findPeer (world.ram.register slot peerId key noncePrefix
      hasAccepted lastAccepted).peers peerId = some slot :=
    fun _ _ => findPeer_update place rfl rfl
  rcases script with _ | ⟨first, _ | ⟨present, rest⟩⟩
  · exact trivial
  · cases first <;> exact trivial
  · cases first with
    | ok =>
        have isStored : (world.store (counterKeyFor (keyFingerprint key noncePrefix))).isSome = true :=
          Option.isSome_iff_exists.2 ⟨stored, held⟩
        rw [AddPeerSafe, asconSecureAddPeer_eq ready place] at safe
        by_cases success : present = .ok
        · refine ⟨success, ?_⟩
          rw [if_pos ⟨success, isStored⟩] at safe
          cases rest with
          | nil => exact trivial
          | cons value rest =>
              obtain ⟨slot', found', _, _, atMost⟩ := safe ⟨key, noncePrefix⟩ rfl rfl stored held
              obtain rfl : slot = slot' := Option.some.inj ((found _ _).symm.trans found')
              rw [peers_register_self] at atMost
              by_cases read : value = .ok
              · exact Or.inl read
              · rw [if_neg read] at atMost
                exact Or.inr (BitVec.eq_of_toNat_eq (Nat.le_zero.1 atMost))
        · -- the entry is there but is not seen: the peer has accepted nothing
          rw [if_neg fun seen => success seen.1] at safe
          obtain ⟨slot', found', _, hasAccepted, _⟩ := safe ⟨key, noncePrefix⟩ rfl rfl stored held
          obtain rfl : slot = slot' := Option.some.inj ((found _ _).symm.trans found')
          rw [peers_register_self] at hasAccepted
          contradiction
    | _ => exact trivial

/-- Adding a peer is safe exactly when a stored counter is read back. -/
theorem addPeerSafe_iff (world : ReceiverWorld) (event : ReceiverEvent) :
    AddPeerSafe world event ↔ ReadsBack world event := by
  cases event with
  | powerLoss => exact Iff.rfl
  | call call script =>
      cases call with
      | begin => exact Iff.rfl
      | unwrap args mem => exact Iff.rfl
      | addPeer peerId key noncePrefix =>
          constructor
          · intro safe
            cases key with
            | none => exact trivial
            | some key =>
                cases noncePrefix with
                | none => exact trivial
                | some noncePrefix => exact readsBack_of_addPeerSafe safe
          · exact addPeerSafe_of_readsBack

/-- In every run whose calls of `asconSecureAddPeer` read a stored counter back, every such call is safe, and
no packet is delivered twice. A single call is safe exactly when it reads a stored counter back. -/
theorem addPeer_reads_back (store : ReceiverStore) (events : List ReceiverEvent)
    (readsBack : receiverNode.Along ReadsBack (receiverStart store) events) :
    receiverNode.Along AddPeerSafe (receiverStart store) events ∧
      (DistinctFingerprints (registeredCredentials events) →
        NoReplay (receiverNode.after (receiverStart store) events)) ∧
      ∀ world event, AddPeerSafe world event ↔ ReadsBack world event := by
  refine ⟨?_, ?_, addPeerSafe_iff⟩
  · exact Runs.Along.imp (fun world event => (addPeerSafe_iff world event).2) readsBack
  · intro distinct
    exact (receiverAfter_invariant store readsBack distinct rfl).noReplay distinct

/-- The receiver reboots and reads the counter 5 of the packet back. -/
theorem addPeer_reads_back_reboot :
    (receiverNode.after (receiverStart fun _ => none)
      (registerSample [.ok, .ok] ++ [receiveSample])).store sampleCredential.counterKey = some 5 ∧
    receiverNode.Along AddPeerSafe (receiverStart fun _ => none)
      (registerSample [.ok, .ok] ++ [receiveSample] ++ [.powerLoss] ++
        registerSample [.ok, .ok, .ok] ++ [receiveSample]) ∧
    NoReplay (receiverNode.after (receiverStart fun _ => none)
      (registerSample [.ok, .ok] ++ [receiveSample] ++ [.powerLoss] ++
        registerSample [.ok, .ok, .ok] ++ [receiveSample])) := by
  have readsBack : receiverNode.Along ReadsBack (receiverStart fun _ => none)
      (registerSample [.ok, .ok] ++ [receiveSample] ++ [.powerLoss] ++
        registerSample [.ok, .ok, .ok] ++ [receiveSample]) :=
    Runs.along_of_forall fun world event member =>
      readsBack_of_readsSucceed (readsSucceed_reboot event member) world
  have safe := addPeer_reads_back _ _ readsBack
  refine ⟨?_, safe.1, safe.2.1 distinctFingerprints_sample⟩
  rw [after_firstDelivery]
  dsimp only
  rw [Function.update_self]

/-- The packet arrives, the receiver reboots, `nvs.isKey` fails in `asconSecureAddPeer`, and the packet arrives
again. -/
def forgottenCounter : List ReceiverEvent :=
  registerSample [.ok, .ok] ++ [receiveSample] ++ [.powerLoss] ++ registerSample [.ok, .fail] ++
    [receiveSample]

theorem addPeer_forgets_counter :
    DistinctFingerprints (registeredCredentials forgottenCounter) ∧
    (receiverNode.after (receiverStart fun _ => none) forgottenCounter).log =
      [sampleDelivery, sampleDelivery] ∧
    ¬ NoReplay (receiverNode.after (receiverStart fun _ => none) forgottenCounter) ∧
    ¬ receiverNode.Along AddPeerSafe (receiverStart fun _ => none) forgottenCounter := by
  have unread : ¬ (NvsReply.fail = .ok ∧ ((Function.update (fun _ => none)
      sampleCredential.counterKey (some 5) : ReceiverStore) sampleCredential.counterKey).isSome = true) :=
    fun seen => nomatch seen.1
  have registered := after_registerSample (Function.update (fun _ => none)
    sampleCredential.counterKey (some 5)) [sampleDelivery] [.ok, .fail] (addSample_unread unread []) .initial
  have twice : (receiverNode.after (receiverStart fun _ => none) forgottenCounter).log =
      [sampleDelivery, sampleDelivery] := by
    have lost : ∀ world : ReceiverWorld, receiverNode.after world [.powerLoss] =
        ⟨.initial, world.store, world.log⟩ := fun _ => rfl
    rw [forgottenCounter, Node.after_append, Node.after_append, Node.after_append, after_firstDelivery,
      lost, registered, Node.after_singleton, step_receiveSample]
    rfl
  refine ⟨distinctFingerprints_sample, twice, not_noReplay_twice twice, ?_⟩
  intro safe
  have readsBack : receiverNode.Along ReadsBack (receiverStart fun _ => none) forgottenCounter :=
    Runs.Along.imp (fun world event => (addPeerSafe_iff world event).1) safe
  have holds := receiverAfter_invariant _ readsBack distinctFingerprints_sample rfl
  exact not_noReplay_twice twice (holds.noReplay distinctFingerprints_sample)

end AsconSuite
