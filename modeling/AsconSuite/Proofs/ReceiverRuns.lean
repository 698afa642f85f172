/-
Module: AsconSuite.Proofs.ReceiverRuns
Layer: Proofs
Purpose: The invariant of the receiver. It ties the counters in the table of peers, the counters in the storage
  and the packets delivered so far, and every call keeps it, also when the power is lost inside of it.
Imports: AsconSuite.Base.Ledger, AsconSuite.Proofs.ReceiverRules, AsconSuite.Secure.ReceiverNode
Trusted boundary: none
Main exports: counterKeyFor_injective, ReceiverInvariant, receiverAfter_invariant, NoReplay
-/
import AsconSuite.Base.Ledger
import AsconSuite.Proofs.ReceiverRules
import AsconSuite.Secure.ReceiverNode

namespace AsconSuite

open ByteWord ByteMemory CrashLogic Ledger

/-! ### Names of counters -/

theorem hexDigit_injective {m n : Byte} (hm : m.toNat < 16) (hn : n.toNat < 16)
    (same : hexDigit m = hexDigit n) : m = n := by
  have digits : ∀ i < 16, ∀ j < 16,
      ['0', '1', '2', '3', '4', '5', '6', '7', '8', '9', 'a', 'b', 'c', 'd', 'e', 'f'].getD i '0' =
        ['0', '1', '2', '3', '4', '5', '6', '7', '8', '9', 'a', 'b', 'c', 'd', 'e', 'f'].getD j '0' →
      i = j := by
    decide
  exact BitVec.eq_of_toNat_eq (digits m.toNat hm n.toNat hn same)

theorem hexByte_injective {b c : Byte} (same : hexByte b = hexByte c) : b = c := by
  simp only [hexByte, List.cons.injEq, and_true] at same
  have high : ∀ x : Byte, (x >>> 4).toNat = x.toNat / 16 := fun x => by
    rw [BitVec.toNat_ushiftRight, Nat.shiftRight_eq_div_pow]
  have low : ∀ x : Byte, (x &&& 0x0F).toNat = x.toNat % 16 := fun x => by
    rw [BitVec.toNat_and]
    exact Nat.and_two_pow_sub_one_eq_mod x.toNat 4
  have sameHigh := congrArg BitVec.toNat (hexDigit_injective (by rw [high]; omega) (by rw [high]; omega)
    same.1)
  have sameLow := congrArg BitVec.toNat (hexDigit_injective (by rw [low]; omega) (by rw [low]; omega)
    same.2)
  rw [high, high] at sameHigh
  rw [low, low] at sameLow
  exact BitVec.eq_of_toNat_eq (by omega)

theorem flatMap_hexByte_injective {bytes other : List Byte}
    (same : bytes.flatMap hexByte = other.flatMap hexByte) : bytes = other := by
  induction bytes generalizing other with
  | nil =>
      cases other with
      | nil => rfl
      | cons c other => simp [hexByte] at same
  | cons b bytes ih =>
      cases other with
      | nil => simp [hexByte] at same
      | cons c other =>
          rw [List.flatMap_cons, List.flatMap_cons] at same
          obtain ⟨first, others⟩ := List.append_inj same rfl
          rw [hexByte_injective first, ih others]

/-- The name of a counter tells the first seven bytes of the fingerprint. -/
theorem counterKeyFor_injective {fingerprint other : List Byte}
    (same : counterKeyFor fingerprint = counterKeyFor other) :
    fingerprint.take 7 = other.take 7 :=
  flatMap_hexByte_injective (List.cons.inj same).2

/-- The bytes of a packet carry its counter. -/
theorem readCounterBE_read (mem : Mem) (packet : Nat) {length : Nat} (long : 4 ≤ length) :
    readCounterBE (tablePtr (mem.read packet length)) = readCounterBE (mem.view packet) := by
  have same : ∀ i < 4, tablePtr (mem.read packet length) i = mem (packet + i) :=
    fun i inside => getD_read mem packet (Nat.lt_of_lt_of_le inside long)
  simp only [readCounterBE, view_apply, same 0 (by decide), same 1 (by decide), same 2 (by decide),
    same 3 (by decide)]

/-! ### The invariant -/

/-- The invariant of the receiver, for the credentials that a run registers. -/
structure ReceiverInvariant (credentials : List Credential) (ram : ReceiverRam)
    (store : ReceiverStore) (delivered : List Delivery) : Prop where
  ascending : Ascending Delivery.credential Delivery.number delivered
  deliveredKnown : ∀ delivery ∈ delivered, delivery.credential ∈ credentials
  carried : ∀ delivery ∈ delivered, readCounterBE (tablePtr delivery.packet) = delivery.counter
  peersKnown : ∀ slot, (ram.peers slot).used = true → (ram.peers slot).credential ∈ credentials
  fingerprints : ∀ slot, (ram.peers slot).used = true →
    (ram.peers slot).fingerprint = (ram.peers slot).credential.fingerprint
  stored : ∀ delivery ∈ delivered, ∃ counter,
    store delivery.credential.counterKey = some counter ∧ delivery.counter ≤ counter
  accepted : ∀ slot, (ram.peers slot).used = true → ∀ delivery ∈ delivered,
    delivery.credential = (ram.peers slot).credential →
      (ram.peers slot).hasAccepted = true ∧ delivery.counter ≤ (ram.peers slot).lastAccepted

namespace ReceiverInvariant

variable {credentials : List Credential} {ram : ReceiverRam} {store : ReceiverStore}
  {delivered : List Delivery}

/-- A table without peers. -/
theorem noPeers (holds : ReceiverInvariant credentials ram store delivered) (ready : Bool) :
    ReceiverInvariant credentials ⟨ready, fun _ => .zero⟩ store delivered where
  ascending := holds.ascending
  deliveredKnown := holds.deliveredKnown
  carried := holds.carried
  peersKnown _ used := nomatch used
  fingerprints _ used := nomatch used
  stored := holds.stored
  accepted _ used := nomatch used

/-- A peer is registered with a counter that is not below what is stored. -/
theorem register (holds : ReceiverInvariant credentials ram store delivered) (slot : Fin maxPeers)
    (peerId : Byte) {key : Key} {noncePrefix : NoncePrefix}
    (known : (⟨key, noncePrefix⟩ : Credential) ∈ credentials) {hasAccepted : Bool}
    {lastAccepted : Counter}
    (readBack : ∀ stored, store (Credential.counterKey ⟨key, noncePrefix⟩) = some stored →
      hasAccepted = true ∧ stored ≤ lastAccepted) :
    ReceiverInvariant credentials
      (ram.register slot peerId key noncePrefix hasAccepted lastAccepted) store delivered where
  ascending := holds.ascending
  deliveredKnown := holds.deliveredKnown
  carried := holds.carried
  peersKnown other used := by
    by_cases own : other = slot
    · rw [own, peers_register_self]
      exact known
    · rw [peers_register_of_ne own] at used ⊢
      exact holds.peersKnown other used
  fingerprints other used := by
    by_cases own : other = slot
    · rw [own, peers_register_self]
      rfl
    · rw [peers_register_of_ne own] at used ⊢
      exact holds.fingerprints other used
  stored := holds.stored
  accepted other used delivery member same := by
    by_cases own : other = slot
    · rw [own, peers_register_self] at same ⊢
      obtain ⟨counter, held, atLeast⟩ := holds.stored delivery member
      rw [same] at held
      obtain ⟨isAccepted, atMost⟩ := readBack counter held
      exact ⟨isAccepted, Nat.le_trans atLeast atMost⟩
    · rw [peers_register_of_ne own] at used same ⊢
      exact holds.accepted other used delivery member same

/-- A counter above those delivered under its credential reaches the storage. -/
theorem persist (holds : ReceiverInvariant credentials ram store delivered)
    (distinct : DistinctFingerprints credentials) {credential : Credential}
    (known : credential ∈ credentials) {counter : Counter}
    (above : ∀ delivery ∈ delivered, delivery.credential = credential → delivery.counter ≤ counter) :
    ReceiverInvariant credentials ram
      (Function.update store credential.counterKey (some counter)) delivered where
  ascending := holds.ascending
  deliveredKnown := holds.deliveredKnown
  carried := holds.carried
  peersKnown := holds.peersKnown
  fingerprints := holds.fingerprints
  stored delivery member := by
    by_cases own : delivery.credential = credential
    · refine ⟨counter, ?_, above delivery member own⟩
      rw [own, Function.update_self]
    · have differentKey : delivery.credential.counterKey ≠ credential.counterKey := fun same =>
        own (distinct _ (holds.deliveredKnown delivery member) _ known (counterKeyFor_injective same))
      rw [Function.update_of_ne differentKey]
      exact holds.stored delivery member
  accepted := holds.accepted

/-- A packet is delivered whose counter is stored and above those delivered under its credential. -/
theorem deliver (holds : ReceiverInvariant credentials ram store delivered)
    (distinct : DistinctFingerprints credentials) (delivery : Delivery)
    (known : delivery.credential ∈ credentials)
    (carried : readCounterBE (tablePtr delivery.packet) = delivery.counter)
    (stored : store delivery.credential.counterKey = some delivery.counter)
    (above : ∀ earlier ∈ delivered, earlier.credential = delivery.credential →
      earlier.counter < delivery.counter) :
    ReceiverInvariant credentials (ram.accept delivery.credential.fingerprint delivery.counter) store
      (delivered ++ [delivery]) where
  ascending := ascending_append holds.ascending above
  deliveredKnown other member := by
    rcases List.mem_append.1 member with old | new
    · exact holds.deliveredKnown other old
    · rw [List.mem_singleton.1 new]
      exact known
  carried other member := by
    rcases List.mem_append.1 member with old | new
    · exact holds.carried other old
    · rw [List.mem_singleton.1 new]
      exact carried
  peersKnown slot used := by
    rcases peers_accept ram delivery.credential.fingerprint delivery.counter slot with
      ⟨usedBefore, _, moved⟩ | ⟨_, stayed⟩
    · rw [moved]
      exact holds.peersKnown slot usedBefore
    · rw [stayed] at used ⊢
      exact holds.peersKnown slot used
  fingerprints slot used := by
    rcases peers_accept ram delivery.credential.fingerprint delivery.counter slot with
      ⟨usedBefore, _, moved⟩ | ⟨_, stayed⟩
    · rw [moved]
      exact holds.fingerprints slot usedBefore
    · rw [stayed] at used ⊢
      exact holds.fingerprints slot used
  stored other member := by
    rcases List.mem_append.1 member with old | new
    · exact holds.stored other old
    · rw [List.mem_singleton.1 new]
      exact ⟨delivery.counter, stored, BitVec.le_refl _⟩
  accepted slot used other member same := by
    rcases peers_accept ram delivery.credential.fingerprint delivery.counter slot with
      ⟨usedBefore, sameFingerprint, moved⟩ | ⟨notMoved, stayed⟩
    · -- the peer has the credential of the packet, whose counter is the greatest
      rw [moved] at same ⊢
      refine ⟨rfl, ?_⟩
      rw [holds.fingerprints slot usedBefore] at sameFingerprint
      have own : (ram.peers slot).credential = delivery.credential :=
        distinct _ (holds.peersKnown slot usedBefore) _ known (congrArg (List.take 7) sameFingerprint)
      rcases List.mem_append.1 member with old | new
      · exact Nat.le_of_lt (above other old (same.trans own))
      · rw [List.mem_singleton.1 new]
        exact BitVec.le_refl _
    · rw [stayed] at used same ⊢
      rcases List.mem_append.1 member with old | new
      · exact holds.accepted slot used other old same
      · rw [List.mem_singleton.1 new] at same
        refine absurd ⟨used, ?_⟩ notMoved
        rw [holds.fingerprints slot used, same]

end ReceiverInvariant

/-! ### Calls -/

section Calls

variable {credentials : List Credential} {ram : ReceiverRam} {store : ReceiverStore}
  {delivered : List Delivery} {script : List NvsReply}

/-- What a loss of power has to leave. -/
abbrev ReceiverOff (credentials : List Credential) (delivered : List Delivery)
    (store : ReceiverStore) : Prop :=
  ReceiverInvariant credentials .initial store delivered

/-- A counter that the replies read back is not below the stored one. -/
theorem readBack_of_replies {stored : Counter} {reply : NvsReply} {rest : List NvsReply}
    (readsBack : RepliesReadBack stored (.ok :: .ok :: reply :: rest)) :
    stored ≤ if reply = .ok then stored else 0 := by
  rcases readsBack.2 with success | zero
  · rw [if_pos success]
    exact BitVec.le_refl _
  · rw [zero, ite_self]
    exact BitVec.le_refl _

theorem asconSecureAddPeer_keeps (holds : ReceiverInvariant credentials ram store delivered)
    {peerId : Byte} {key : Option Key} {noncePrefix : Option NoncePrefix}
    (known : ∀ key' noncePrefix', key = some key' → noncePrefix = some noncePrefix' →
      (⟨key', noncePrefix'⟩ : Credential) ∈ credentials)
    (readsBack : ReadsBack ⟨ram, store, delivered⟩ (.call (.addPeer peerId key noncePrefix) script)) :
    wp (asconSecureAddPeer peerId key noncePrefix)
      (fun _ ram store _ => ReceiverInvariant credentials ram store delivered)
      (ReceiverOff credentials delivered) ram store script := by
  apply wp_asconSecureAddPeer (holds.noPeers false)
  · exact fun _ _ _ => holds
  · intro key' noncePrefix' slot sameKey samePrefix ready place reply rest replies notStored
    subst sameKey samePrefix
    apply holds.register slot peerId (known _ _ rfl rfl)
    intro stored held
    have success := readsBack ready (Option.isSome_iff_exists.2 ⟨slot, place⟩) stored held
    rw [replies] at success
    have absent := notStored success.1
    rw [Credential.counterKey, Credential.fingerprint, absent] at held
    contradiction
  · intro key' noncePrefix' slot sameKey samePrefix ready place stored reply rest replies held
    subst sameKey samePrefix
    apply holds.register slot peerId (known _ _ rfl rfl)
    intro stored' held'
    have replied := readsBack ready (Option.isSome_iff_exists.2 ⟨slot, place⟩) stored' held'
    rw [replies] at replied
    have same : stored = stored' := Option.some.inj (held.symm.trans held')
    rw [same]
    exact ⟨rfl, readBack_of_replies replied⟩

/-- A call that fails delivers nothing. -/
theorem deliveredPackets_failed (holds : ReceiverInvariant credentials ram store delivered)
    {status : AsconSecureStatus} (failed : status ≠ .ok) (args : UnwrapArgs) (mem mem' : Mem)
    (payloadLength : Option Nat) :
    wp (deliveredPackets args mem ⟨status, mem', payloadLength⟩)
      (fun given ram store _ => ReceiverInvariant credentials ram store (delivered ++ given))
      (ReceiverOff credentials delivered) ram store script := by
  simp only [deliveredPackets, wp_bind, wp_getRam, ne_eq, failed, not_false_eq_true, if_true, wp_pure,
    List.append_nil]
  exact holds

/-- A call that succeeds delivers the packet of the peer that was found. -/
theorem deliveredPackets_accept {args : UnwrapArgs} {mem : Mem} {slot : Fin maxPeers} {packet : Nat}
    (peerFound : findPeer ram.peers args.peerId = some slot) (packetGiven : args.packet = some packet)
    {fingerprint : List Byte} {counter : Counter} {mem' : Mem} {payloadLength : Option Nat}
    {post : List Delivery → ReceiverRam → ReceiverStore → List NvsReply → Prop}
    {lost : ReceiverStore → Prop}
    (holds : post [⟨(ram.peers slot).credential, args.peerId, readCounterBE (mem.view packet),
      mem.read packet args.packetLength⟩] (ram.accept fingerprint counter) store script) :
    wp (deliveredPackets args mem ⟨.ok, mem', payloadLength⟩) post lost
      (ram.accept fingerprint counter) store script := by
  have sameCredential : ((ram.accept fingerprint counter).peers slot).credential =
      (ram.peers slot).credential := by
    rcases peers_accept ram fingerprint counter slot with ⟨_, _, moved⟩ | ⟨_, stayed⟩
    · rw [moved]
      rfl
    · rw [stayed]
  simp only [deliveredPackets, wp_bind, wp_getRam, ne_eq, not_true_eq_false, if_false,
    findPeer_accept, peerFound, packetGiven, wp_pure, sameCredential]
  exact holds

theorem asconSecureUnwrap_keeps (holds : ReceiverInvariant credentials ram store delivered)
    (distinct : DistinctFingerprints credentials) (args : UnwrapArgs) (mem : Mem) :
    wp (ReceiverCall.program (.unwrap args mem))
      (fun given ram store _ => ReceiverInvariant credentials ram store (delivered ++ given))
      (ReceiverOff credentials delivered) ram store script := by
  simp only [ReceiverCall.program, wp_bind]
  apply wp_asconSecureUnwrap
  · intro status failed _
    exact deliveredPackets_failed holds failed args mem _ _
  intro packet payload slot message opens fresh
  obtain ⟨used, sameId⟩ := of_findPeer opens.peerFound
  have known := holds.peersKnown slot used
  have above : ∀ delivery ∈ delivered, delivery.credential = (ram.peers slot).credential →
      delivery.counter < readCounterBE (mem.view packet) := by
    intro delivery member own
    obtain ⟨hasAccepted, atMost⟩ := holds.accepted slot used delivery member own
    refine Nat.lt_of_le_of_lt atMost (BitVec.not_le.1 fun replayed => fresh ⟨hasAccepted, replayed⟩)
  have atMost : ∀ delivery ∈ delivered, delivery.credential = (ram.peers slot).credential →
      delivery.counter ≤ readCounterBE (mem.view packet) :=
    fun delivery member own => Nat.le_of_lt (above delivery member own)
  have persisted := holds.persist distinct known atMost
  rw [holds.fingerprints slot used]
  have failed : ∀ store', ReceiverInvariant credentials ram store' delivered → ∀ rest,
      wp (deliveredPackets args mem ⟨.errNvs, mem, some 0⟩)
        (fun given ram store _ => ReceiverInvariant credentials ram store (delivered ++ given))
        (ReceiverOff credentials delivered) ram store' rest :=
    fun _ holds' _ => deliveredPackets_failed holds' (by decide) args mem mem _
  apply wp_persistCounter (holds.noPeers false)
  · exact failed store holds
  · exact failed _ persisted
  intro rest _
  apply deliveredPackets_accept opens.peerFound opens.packetGiven
  have held : Function.update store (ram.peers slot).credential.counterKey
      (some (readCounterBE (mem.view packet))) (ram.peers slot).credential.counterKey =
        some (readCounterBE (mem.view packet)) := Function.update_self _ _ _
  exact persisted.deliver distinct ⟨(ram.peers slot).credential, args.peerId,
    readCounterBE (mem.view packet), mem.read packet args.packetLength⟩ known
    (readCounterBE_read mem packet (Nat.le_trans (by decide) opens.packetLong)) held above

end Calls

/-! ### Runs -/

/-- Every call keeps the invariant, when stored counters are read back. -/
theorem ReceiverCall.preserves {credentials : List Credential}
    (distinct : DistinctFingerprints credentials) {world : ReceiverWorld} {call : ReceiverCall}
    {script : List NvsReply} (holds : ReceiverInvariant credentials world.ram world.store world.log)
    (readsBack : ReadsBack world (.call call script))
    (known : ∀ credential ∈ registeredCredentials [.call call script], credential ∈ credentials) :
    receiverNode.Preserves (ReceiverInvariant credentials) call world script := by
  cases call with
  | begin =>
      apply Node.preserves_silently rfl
      exact wp_asconSecureReceiverBegin (holds.noPeers false) fun _ ready _ => holds.noPeers ready
  | addPeer peerId key noncePrefix =>
      apply Node.preserves_silently rfl
      refine asconSecureAddPeer_keeps holds ?_ readsBack
      rintro key' noncePrefix' rfl rfl
      exact known ⟨key', noncePrefix'⟩ (List.mem_singleton_self _)
  | unwrap args mem => exact asconSecureUnwrap_keeps holds distinct args mem

/-- The invariant holds after every run that reads stored counters back. -/
theorem receiverAfter_invariant (store : ReceiverStore) {events : List ReceiverEvent}
    (readsBack : receiverNode.Along ReadsBack (receiverStart store) events)
    (distinct : DistinctFingerprints (registeredCredentials events)) {world : ReceiverWorld}
    (reached : receiverNode.after (receiverStart store) events = world) :
    ReceiverInvariant (registeredCredentials events) world.ram world.store world.log := by
  have known : receiverNode.Along (fun _ event => ∀ credential ∈ registeredCredentials [event],
      credential ∈ registeredCredentials events) (receiverStart store) events := by
    apply Runs.along_of_forall
    intro _ event member credential registered
    obtain ⟨same, inSame, registers⟩ := List.mem_filterMap.1 registered
    rw [List.mem_singleton.1 inSame] at registers
    exact List.mem_filterMap.2 ⟨event, member, registers⟩
  have start : ReceiverInvariant (registeredCredentials events) (receiverStart store).ram
      (receiverStart store).store (receiverStart store).log := {
    ascending := ascending_nil
    deliveredKnown := fun _ member => absurd member List.not_mem_nil
    carried := fun _ member => absurd member List.not_mem_nil
    peersKnown := fun _ used => nomatch used
    fingerprints := fun _ used => nomatch used
    stored := fun _ member => absurd member List.not_mem_nil
    accepted := fun _ used => nomatch used }
  rw [← reached]
  refine Node.invariant_after ?_ ?_ start (Runs.Along.and readsBack known)
  · intro world call script holds condition
    exact ReceiverCall.preserves distinct holds condition.1 condition.2
  · intro ram store log holds
    exact holds.noPeers false

/-- What the packets delivered in a run have in common with the counters kept. -/
structure NoReplay (world : ReceiverWorld) : Prop where
  increasing : world.log.Pairwise fun early late => early.credential = late.credential →
    early.counter < late.counter
  once : world.log.Pairwise fun early late => early.credential = late.credential →
    early.packet ≠ late.packet
  persisted : ∀ delivery ∈ world.log, ∃ counter,
    world.store delivery.credential.counterKey = some counter ∧ delivery.counter ≤ counter
  accepted : ∀ delivery ∈ world.log, ∀ slot, (world.ram.peers slot).used = true →
    (world.ram.peers slot).fingerprint = delivery.credential.fingerprint →
      (world.ram.peers slot).hasAccepted = true ∧
        delivery.counter ≤ (world.ram.peers slot).lastAccepted

theorem ReceiverInvariant.noReplay {credentials : List Credential}
    (distinct : DistinctFingerprints credentials) {world : ReceiverWorld}
    (holds : ReceiverInvariant credentials world.ram world.store world.log) : NoReplay world where
  increasing := holds.ascending
  once := by
    refine List.Pairwise.imp_of_mem ?_ holds.ascending
    intro early late earlyMember lateMember increasing own samePacket
    have less : early.counter < late.counter := increasing own
    rw [← holds.carried early earlyMember, ← holds.carried late lateMember, samePacket] at less
    exact absurd less (BitVec.lt_irrefl _)
  persisted := holds.stored
  accepted delivery member slot used sameFingerprint := by
    rw [holds.fingerprints slot used] at sameFingerprint
    have own := distinct _ (holds.peersKnown slot used) _ (holds.deliveredKnown delivery member)
      (congrArg (List.take 7) sameFingerprint)
    exact holds.accepted slot used delivery member own.symm

/-- Reads that succeed read a stored counter back. -/
theorem readsBack_of_readsSucceed {event : ReceiverEvent} (succeed : ReadsSucceed event)
    (world : ReceiverWorld) : ReadsBack world event := by
  cases event with
  | powerLoss => exact trivial
  | call call script =>
      cases call with
      | begin => exact trivial
      | unwrap args mem => exact trivial
      | addPeer peerId key noncePrefix =>
          cases key with
          | none => exact trivial
          | some key =>
              cases noncePrefix with
              | none => exact trivial
              | some noncePrefix =>
                  intro _ _ stored _
                  rcases script with _ | ⟨first, _ | ⟨present, rest⟩⟩
                  · exact trivial
                  · cases first <;> exact trivial
                  · cases first with
                    | ok =>
                        refine ⟨succeed present List.mem_cons_self, ?_⟩
                        cases rest with
                        | nil => exact trivial
                        | cons value rest =>
                            exact Or.inl (succeed value (List.mem_cons_of_mem _ List.mem_cons_self))
                    | _ => exact trivial

end AsconSuite
