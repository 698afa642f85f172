/-
Module: AsconSuite.Proofs.FreshPackets
Layer: Proofs
Purpose: A packet is refused as a replay only for a reason: the counter that a peer or the storage holds comes from
  a packet that was opened before, or from the storage as it was at the start.
Imports: AsconSuite.Proofs.ChannelRuns
Trusted boundary: none
Main exports: Explained, HearingInvariant, hearingAfter_invariant, channel_delivers_fresh
-/
import AsconSuite.Proofs.ChannelRuns

namespace AsconSuite

open ByteWord ByteMemory CrashLogic

/-- The counter is not above one that the storage held at the start, or that was opened under the credential. -/
def Explained (initial : ReceiverStore) (heard : List MessageNonce) (credential : Credential)
    (counter : Counter) : Prop :=
  (∃ stored, initial credential.counterKey = some stored ∧ counter ≤ stored) ∨
    ∃ nonce ∈ heard, nonce.credential = credential ∧ counter ≤ nonce.counter

section

variable {initial : ReceiverStore} {heard : List MessageNonce} {credential : Credential} {counter : Counter}

theorem Explained.append (explained : Explained initial heard credential counter) (given : List MessageNonce) :
    Explained initial (heard ++ given) credential counter := by
  rcases explained with stored | ⟨nonce, member, same, atMost⟩
  · exact Or.inl stored
  · exact Or.inr ⟨nonce, List.mem_append_left _ member, same, atMost⟩

theorem Explained.mono {smaller : Counter} (explained : Explained initial heard credential counter)
    (atMost : smaller ≤ counter) : Explained initial heard credential smaller := by
  rcases explained with ⟨stored, held, below⟩ | ⟨nonce, member, same, below⟩
  · exact Or.inl ⟨stored, held, BitVec.le_trans atMost below⟩
  · exact Or.inr ⟨nonce, member, same, BitVec.le_trans atMost below⟩

theorem explained_last (initial : ReceiverStore) (heard : List MessageNonce) (credential : Credential)
    (counter : Counter) : Explained initial (heard ++ [⟨credential, counter⟩]) credential counter :=
  Or.inr ⟨⟨credential, counter⟩, List.mem_append_right _ (List.mem_singleton_self _), rfl, BitVec.le_refl _⟩

end

/-- Every counter of a peer and of the storage is explained. -/
structure HearingInvariant (initial : ReceiverStore) (credentials : List Credential) (ram : ReceiverRam)
    (store : ReceiverStore) (heard : List MessageNonce) : Prop where
  peersKnown : ∀ slot, (ram.peers slot).used = true → (ram.peers slot).credential ∈ credentials
  fingerprints : ∀ slot, (ram.peers slot).used = true →
    (ram.peers slot).fingerprint = (ram.peers slot).credential.fingerprint
  stored : ∀ credential ∈ credentials, ∀ counter, store credential.counterKey = some counter →
    Explained initial heard credential counter
  accepted : ∀ slot, (ram.peers slot).used = true → (ram.peers slot).hasAccepted = true →
    Explained initial heard (ram.peers slot).credential (ram.peers slot).lastAccepted

namespace HearingInvariant

variable {initial : ReceiverStore} {credentials : List Credential} {ram : ReceiverRam} {store : ReceiverStore}
  {heard : List MessageNonce}

/-- A table without peers. -/
theorem noPeers (holds : HearingInvariant initial credentials ram store heard) (ready : Bool) :
    HearingInvariant initial credentials ⟨ready, fun _ => .zero⟩ store heard where
  peersKnown _ used := absurd used Bool.false_ne_true
  fingerprints _ used := absurd used Bool.false_ne_true
  stored := holds.stored
  accepted _ used := absurd used Bool.false_ne_true

/-- More was opened. -/
theorem append (holds : HearingInvariant initial credentials ram store heard) (given : List MessageNonce) :
    HearingInvariant initial credentials ram store (heard ++ given) where
  peersKnown := holds.peersKnown
  fingerprints := holds.fingerprints
  stored credential known counter held := (holds.stored credential known counter held).append given
  accepted slot used has := (holds.accepted slot used has).append given

/-- A peer is registered with a counter that is not above what is stored. -/
theorem register (holds : HearingInvariant initial credentials ram store heard) (slot : Fin maxPeers)
    (peerId : Byte) {key : Key} {noncePrefix : NoncePrefix}
    (known : (⟨key, noncePrefix⟩ : Credential) ∈ credentials) {hasAccepted : Bool} {lastAccepted : Counter}
    (explained : hasAccepted = true → Explained initial heard ⟨key, noncePrefix⟩ lastAccepted) :
    HearingInvariant initial credentials
      (ram.register slot peerId key noncePrefix hasAccepted lastAccepted) store heard where
  peersKnown other used := by
    by_cases own : other = slot
    · rw [own, peers_register_self]
      exact known
    · rw [peers_register_of_ne own] at used ⊢
      exact holds.peersKnown other used
  fingerprints other used := by
    by_cases own : other = slot
    · rw [own, peers_register_self]
      rfl
    · rw [peers_register_of_ne own] at used ⊢
      exact holds.fingerprints other used
  stored := holds.stored
  accepted other used has := by
    by_cases own : other = slot
    · rw [own, peers_register_self] at has ⊢
      exact explained has
    · rw [peers_register_of_ne own] at used has ⊢
      exact holds.accepted other used has

/-- A counter that is explained reaches the storage. -/
theorem persist (holds : HearingInvariant initial credentials ram store heard)
    (distinct : DistinctFingerprints credentials) {credential : Credential} (known : credential ∈ credentials)
    {counter : Counter} (explained : Explained initial heard credential counter) :
    HearingInvariant initial credentials ram (Function.update store credential.counterKey (some counter)) heard where
  peersKnown := holds.peersKnown
  fingerprints := holds.fingerprints
  stored other otherKnown held stored := by
    by_cases own : other = credential
    · rw [own, Function.update_self] at stored
      rw [own, ← Option.some.inj stored]
      exact explained
    · have differentKey : other.counterKey ≠ credential.counterKey := fun same =>
        own (distinct _ otherKnown _ known (counterKeyFor_injective same))
      rw [Function.update_of_ne differentKey] at stored
      exact holds.stored other otherKnown held stored
  accepted := holds.accepted

/-- The peers of a credential accept a counter that is explained. -/
theorem accept (holds : HearingInvariant initial credentials ram store heard)
    (distinct : DistinctFingerprints credentials) {credential : Credential} (known : credential ∈ credentials)
    {counter : Counter} (explained : Explained initial heard credential counter) :
    HearingInvariant initial credentials (ram.accept credential.fingerprint counter) store heard where
  peersKnown slot used := by
    rcases peers_accept ram credential.fingerprint counter slot with ⟨usedBefore, _, moved⟩ | ⟨_, stayed⟩
    · rw [moved]
      exact holds.peersKnown slot usedBefore
    · rw [stayed] at used ⊢
      exact holds.peersKnown slot used
  fingerprints slot used := by
    rcases peers_accept ram credential.fingerprint counter slot with ⟨usedBefore, _, moved⟩ | ⟨_, stayed⟩
    · rw [moved]
      exact holds.fingerprints slot usedBefore
    · rw [stayed] at used ⊢
      exact holds.fingerprints slot used
  stored := holds.stored
  accepted slot used has := by
    rcases peers_accept ram credential.fingerprint counter slot with
      ⟨usedBefore, sameFingerprint, moved⟩ | ⟨_, stayed⟩
    · rw [holds.fingerprints slot usedBefore] at sameFingerprint
      have own : (ram.peers slot).credential = credential :=
        distinct _ (holds.peersKnown slot usedBefore) _ known (congrArg (List.take 7) sameFingerprint)
      rw [moved]
      change Explained initial heard (ram.peers slot).credential counter
      rwa [own]
    · rw [stayed] at used has ⊢
      exact holds.accepted slot used has

end HearingInvariant

/-! ### Calls -/

section Calls

variable {initial : ReceiverStore} {credentials : List Credential} {ram : ReceiverRam} {store : ReceiverStore}
  {heard : List MessageNonce} {script : List NvsReply}

theorem asconSecureAddPeer_hears (holds : HearingInvariant initial credentials ram store heard)
    {peerId : Byte} {key : Option Key} {noncePrefix : Option NoncePrefix}
    (known : ∀ key' noncePrefix', key = some key' → noncePrefix = some noncePrefix' →
      (⟨key', noncePrefix'⟩ : Credential) ∈ credentials) :
    wp (asconSecureAddPeer peerId key noncePrefix)
      (fun _ ram store _ => HearingInvariant initial credentials ram store heard)
      (fun store => HearingInvariant initial credentials .initial store heard) ram store script := by
  apply wp_asconSecureAddPeer (holds.noPeers false)
  · exact fun _ _ _ => holds
  · intro key' noncePrefix' slot sameKey samePrefix _ _ _ _ _ _
    exact holds.register slot peerId (known _ _ sameKey samePrefix) fun no => absurd no Bool.false_ne_true
  · intro key' noncePrefix' slot sameKey samePrefix _ _ stored reply _ _ held
    apply holds.register slot peerId (known _ _ sameKey samePrefix)
    intro _
    -- a failed read answers zero, which is not above the stored counter
    have explained := holds.stored _ (known _ _ sameKey samePrefix) stored held
    by_cases success : reply = .ok
    · rw [if_pos success]
      exact explained
    · rw [if_neg success]
      exact explained.mono (Nat.zero_le _)

/-- What a call hears keeps the invariant. -/
theorem heardNonces_hears (holds : HearingInvariant initial credentials ram store heard) (args : UnwrapArgs)
    (mem : Mem) (result : UnwrapResult) :
    wp (heardNonces args mem result)
      (fun given ram store _ => HearingInvariant initial credentials ram store (heard ++ given))
      (fun store => HearingInvariant initial credentials .initial store heard) ram store script := by
  simp only [heardNonces, wp_bind, wp_getRam]
  by_cases opened : result.status = .ok ∨ result.status = .errReplay ∨ result.status = .errNvs
  · rw [if_pos opened]
    cases findPeer ram.peers args.peerId with
    | none => exact holds.append []
    | some slot => exact holds.append _
  · rw [if_neg opened]
    exact holds.append []

/-- A packet that was opened is heard. -/
theorem heardNonces_opened {args : UnwrapArgs} {mem : Mem} {packet : Nat} {slot : Fin maxPeers}
    {result : UnwrapResult} {post : List MessageNonce → ReceiverRam → ReceiverStore → List NvsReply → Prop}
    {lost : ReceiverStore → Prop} (opened : result.status = .ok ∨ result.status = .errReplay ∨ result.status = .errNvs)
    (peerFound : findPeer ram.peers args.peerId = some slot) (packetGiven : args.packet = some packet)
    (holds : post [⟨(ram.peers slot).credential, readCounterBE (mem.view packet)⟩] ram store script) :
    wp (heardNonces args mem result) post lost ram store script := by
  simp only [heardNonces, wp_bind, wp_getRam, if_pos opened, peerFound, packetGiven, Option.getD_some, wp_pure]
  exact holds

theorem asconSecureUnwrap_hears (holds : HearingInvariant initial credentials ram store heard)
    (distinct : DistinctFingerprints credentials) (args : UnwrapArgs) (mem : Mem) :
    wp (hearingNode.program (.unwrap args mem))
      (fun given ram store _ => HearingInvariant initial credentials ram store (heard ++ given))
      (fun store => HearingInvariant initial credentials .initial store heard) ram store script := by
  simp only [hearingNode, wp_bind]
  apply wp_asconSecureUnwrap
  · intro status _ _
    exact heardNonces_hears holds args mem _
  intro packet payload slot message opens _
  obtain ⟨used, _⟩ := of_findPeer opens.peerFound
  have known := holds.peersKnown slot used
  have heardNow := holds.append [⟨(ram.peers slot).credential, readCounterBE (mem.view packet)⟩]
  have explained := explained_last initial heard (ram.peers slot).credential (readCounterBE (mem.view packet))
  have persisted := heardNow.persist distinct known explained
  rw [holds.fingerprints slot used]
  apply wp_persistCounter (holds.noPeers false)
  · intro rest
    exact heardNonces_opened (Or.inr (Or.inr rfl)) opens.peerFound opens.packetGiven heardNow
  · intro rest
    exact heardNonces_opened (Or.inr (Or.inr rfl)) opens.peerFound opens.packetGiven persisted
  intro rest _
  have accepted := persisted.accept distinct known explained
  have sameCredential : ((ram.accept (ram.peers slot).credential.fingerprint
      (readCounterBE (mem.view packet))).peers slot).credential = (ram.peers slot).credential := by
    rcases peers_accept ram (ram.peers slot).credential.fingerprint (readCounterBE (mem.view packet)) slot with
      ⟨_, _, moved⟩ | ⟨_, stayed⟩
    · rw [moved]
      rfl
    · rw [stayed]
  refine heardNonces_opened (Or.inl rfl) ((findPeer_accept _ _ _ _).trans opens.peerFound) opens.packetGiven ?_
  rw [sameCredential]
  exact accepted

end Calls

/-! ### Runs -/

/-- The invariant holds after every run, whatever the storage answers. -/
theorem hearingAfter_invariant (initial : ReceiverStore) {events : List ReceiverEvent}
    (distinct : DistinctFingerprints (registeredCredentials events))
    {world : World ReceiverRam ReceiverStore MessageNonce}
    (reached : hearingNode.after ⟨.initial, initial, []⟩ events = world) :
    HearingInvariant initial (registeredCredentials events) world.ram world.store world.log := by
  have known : hearingNode.Along (fun _ event => ∀ credential ∈ registeredCredentials [event],
      credential ∈ registeredCredentials events) ⟨.initial, initial, []⟩ events := by
    apply Runs.along_of_forall
    intro _ event member credential registered
    obtain ⟨same, inSame, registers⟩ := List.mem_filterMap.1 registered
    rw [List.mem_singleton.1 inSame] at registers
    exact List.mem_filterMap.2 ⟨event, member, registers⟩
  have start : HearingInvariant initial (registeredCredentials events) .initial initial [] := {
    peersKnown := fun _ used => absurd used Bool.false_ne_true
    fingerprints := fun _ used => absurd used Bool.false_ne_true
    stored := fun _ _ counter held => Or.inl ⟨counter, held, BitVec.le_refl _⟩
    accepted := fun _ used => absurd used Bool.false_ne_true }
  rw [← reached]
  refine Node.invariant_after ?_ (fun _ _ _ holds => holds.noPeers false) start known
  intro world call script holds registers
  cases call with
  | begin =>
      apply Node.preserves_silently rfl
      exact wp_asconSecureReceiverBegin (holds.noPeers false) fun _ ready _ => holds.noPeers ready
  | addPeer peerId key noncePrefix =>
      apply Node.preserves_silently rfl
      apply asconSecureAddPeer_hears holds
      rintro key' noncePrefix' rfl rfl
      exact registers ⟨key', noncePrefix'⟩ (List.mem_singleton_self _)
  | unwrap args mem => exact asconSecureUnwrap_hears holds distinct args mem

/-- What is logged about a call is read from memory only. -/
theorem arrivedMessages_forget (args : UnwrapArgs) (mem : Mem) (result : UnwrapResult) :
    (arrivedMessages args mem result >>= fun _ => pure PUnit.unit) = (pure PUnit.unit : ReceiverProgram PUnit) := by
  funext ram store script
  apply eq_of_wp
  simp only [arrivedMessages, wp_bind, wp_getRam]
  by_cases failed : result.status ≠ .ok
  · rw [if_pos failed]
    rfl
  · rw [if_neg failed]
    cases findPeer ram.peers args.peerId with
    | none => rfl
    | some slot =>
        cases args.packet with
        | none => rfl
        | some packet => rfl

theorem heardNonces_forget (args : UnwrapArgs) (mem : Mem) (result : UnwrapResult) :
    (heardNonces args mem result >>= fun _ => pure PUnit.unit) = (pure PUnit.unit : ReceiverProgram PUnit) := by
  funext ram store script
  apply eq_of_wp
  simp only [heardNonces, wp_bind, wp_getRam]
  by_cases opened : result.status = .ok ∨ result.status = .errReplay ∨ result.status = .errNvs
  · rw [if_pos opened]
    cases findPeer ram.peers args.peerId with
    | none => rfl
    | some slot => rfl
  · rw [if_neg opened]
    rfl

/-- What arrives and what is heard are two logs of the same calls. -/
theorem receivingNode_sameCalls : Node.SameCalls receivingNode hearingNode := by
  refine ⟨rfl, ?_⟩
  intro call
  cases call with
  | begin => exact (silently_forget _).trans (silently_forget _).symm
  | addPeer peerId key noncePrefix => exact (silently_forget _).trans (silently_forget _).symm
  | unwrap args mem =>
      simp only [receivingNode, hearingNode, bind_assoc, arrivedMessages_forget, heardNonces_forget]

/-- The packets that the receiver has opened so far in a run, delivered or not. -/
def heardSoFar {ι : Type*} (counters : ReceiverStore) (events : List (ChannelEvent ι)) : List MessageNonce :=
  (hearingNode.after ⟨.initial, counters, []⟩ (events.filterMap ChannelEvent.received)).log

/-- A message that was sent, and that comes before any later one of its credential, is delivered: after any run,
with any packets on the network and any number of losses of power and failures of the storage, a receiver that is
ready, knows the credential and is handed the message delivers it when its storage works, unless it has opened a
packet of the credential with that counter or a later one, or has had such a counter in its storage from the start.
The registered credentials must differ in the seven bytes of the fingerprint that name a counter: two that share
them share the stored counter. -/
theorem channel_delivers_fresh {ι : Type*} [DecidableEq ι] (keyEntry : ι → Option Key)
    (prefixEntry : ι → Option NoncePrefix) (reservedEntry : ι → Option Counter) (counters : ReceiverStore)
    (events : List (ChannelEvent ι)) {channel : Channel ι}
    (reached : Runs.after Channel.step (.start keyEntry prefixEntry reservedEntry counters) events = channel)
    (fingerprints : DistinctFingerprints (registeredCredentials (events.filterMap ChannelEvent.received)))
    {node : ι} {message : Message} (sent : message ∈ (channel.senders node).log) {args : UnwrapArgs} {mem : Mem}
    {slot : Fin maxPeers} {packetAt payloadAt : Nat}
    (receives : args.Receives mem channel.receiver.ram slot message.credential message.packet message.header
      packetAt payloadAt)
    (notStored : ∀ stored, counters message.credential.counterKey = some stored → stored < message.counter)
    (notHeard : ∀ nonce ∈ heardSoFar counters events, nonce.credential = message.credential →
      nonce.counter < message.counter)
    (rest : List NvsReply) :
    (channel.step (.receiver (.call (.unwrap args mem) (.ok :: .ok :: rest)))).arrivals =
      channel.arrivals ++ [message] := by
  have sealed : message.Sealed := by
    have seals := Channel.seals_after keyEntry prefixEntry reservedEntry counters events
    rw [reached] at seals
    exact seals node message sent
  have own : channel.receiver =
      receivingNode.after (Channel.start keyEntry prefixEntry reservedEntry counters).receiver
        (events.filterMap ChannelEvent.received) := by
    rw [← reached]
    exact Runs.after_component Channel.receiver_component
  -- the receiver is in the state in which the node that logs what it hears is
  obtain ⟨world, heard⟩ : ∃ world, hearingNode.after ⟨.initial, counters, []⟩
      (events.filterMap ChannelEvent.received) = world := ⟨_, rfl⟩
  have sameRam : channel.receiver.ram = world.ram := by
    rw [own, ← heard]
    exact (Node.after_sameCalls receivingNode_sameCalls rfl rfl _).1
  have holds := hearingAfter_invariant counters fingerprints heard
  rw [← sameRam] at holds
  rw [heardSoFar, heard] at notHeard
  have sameCredential : (channel.receiver.ram.peers slot).credential = message.credential := by
    rw [Peer.credential, receives.knows.sameKey, receives.knows.samePrefix]
  have fresh : ¬ ((channel.receiver.ram.peers slot).hasAccepted = true ∧
      message.counter ≤ (channel.receiver.ram.peers slot).lastAccepted) := by
    rintro ⟨has, atMost⟩
    obtain ⟨used, _⟩ := of_findPeer receives.knows.peerFound
    have explained := (holds.accepted slot used has).mono atMost
    rw [sameCredential] at explained
    rcases explained with ⟨stored, held, above⟩ | ⟨nonce, member, same, above⟩
    · exact absurd (notStored stored held) (BitVec.not_lt.2 above)
    · exact absurd (notHeard nonce member same) (BitVec.not_lt.2 above)
  have carry : args.Carry mem channel.receiver.ram message := {
    packet := by
      rw [receives.packetGiven, receives.packetLength]
      exact receives.packetSame
    header := by
      rw [receives.headerLength]
      exact receives.headerSame
    addressed := by
      intro other found
      rw [receives.knows.peerFound] at found
      rw [← Option.some.inj found]
      exact sameCredential }
  have sameCounter : readCounterBE (mem.view packetAt) = message.counter := by
    have same := receives.packetSame
    rw [sealed.packet, length_packetBytes] at same
    exact readCounterBE_of_read same
  have header : message.header = (tablePtr message.header).read 0 args.headerLength := by
    rw [receives.headerLength]
    exact (read_getD message.header).symm
  have unwraps : args.Receives mem channel.receiver.ram slot message.credential
      (packetBytes message.credential.key message.credential.noncePrefix message.counter (tablePtr message.header)
        args.headerLength message.payload)
      ((tablePtr message.header).read 0 args.headerLength) packetAt payloadAt := by
    have packet := sealed.packet
    rw [← receives.headerLength] at packet
    rw [← packet, ← header]
    exact receives
  have unwrapped := asconSecureUnwrap_receives sealed.fits unwraps channel.receiver.store rest
  rw [if_neg fresh] at unwrapped
  have delivered : receivingNode.program (.unwrap args mem) channel.receiver.ram channel.receiver.store
      (.ok :: .ok :: rest) = .returned [⟨args.peerId, message⟩]
        (channel.receiver.ram.accept (channel.receiver.ram.peers slot).fingerprint message.counter)
        (Function.update channel.receiver.store (counterKeyFor (channel.receiver.ram.peers slot).fingerprint)
          (some message.counter)) rest := by
    apply eq_of_wp
    simp only [receivingNode, wp_bind]
    rw [wp, unwrapped]
    exact arrivedMessages_accept carry receives.knows.peerFound receives.packetGiven receives.payloadGiven
      sameCounter rfl
  rw [Channel.step, Channel.arrivals, Node.step_of_returned _ delivered, List.map_append]
  rfl

/-- Each of two messages is delivered by a receiver that has heard nothing. -/
theorem channel_delivers_fresh_sample :
    let channel := Runs.after Channel.step
      (.start (fun _ => none) (fun _ => none) (fun _ => none) fun _ => none) sampleReady
    ∀ message ∈ sampleSent,
      (channel.step (.receiver (.call (.unwrap (handOver message) (carrying message)) [.ok, .ok]))).arrivals =
        channel.arrivals ++ [message] := by
  intro channel message member
  have sent : ∀ message ∈ sampleSent, message ∈ (channel.senders false).log := by decide +kernel
  have ready : channel.receiver.ram.receiverReady = true ∧
      findPeer channel.receiver.ram.peers 3 = some 0 := by decide +kernel
  have bytes : ∀ message ∈ sampleSent, (channel.receiver.ram.peers 0).key = message.credential.key ∧
      (channel.receiver.ram.peers 0).noncePrefix = message.credential.noncePrefix ∧
      (carrying message).read 300 message.packet.length = message.packet ∧
      (carrying message).read 0 message.header.length = message.header ∧ message.packet.length ≤ 220 := by
    decide +kernel
  obtain ⟨sameKey, samePrefix, packetSame, headerSame, roomLeft⟩ := bytes message member
  have receives : (handOver message).Receives (carrying message) channel.receiver.ram 0 message.credential
      message.packet message.header 300 600 := {
    knows := ⟨ready.1, ready.2, sameKey, samePrefix⟩
    packetGiven := rfl
    packetLength := rfl
    packetSame := packetSame
    headerGiven := fun none => absurd none (Option.some_ne_none 0)
    headerLength := rfl
    headerSame := headerSame
    payloadGiven := rfl
    lengthGiven := rfl
    roomLeft := roomLeft }
  have silence : heardSoFar (fun _ => none) sampleReady = [] := by decide +kernel
  refine channel_delivers_fresh (fun _ => none) (fun _ => none) (fun _ => none) (fun _ => none) sampleReady rfl
    (by decide +kernel) (sent message member) receives
    (fun _ held => absurd held.symm (Option.some_ne_none _)) ?_ []
  rw [silence]
  exact fun _ heard => absurd heard List.not_mem_nil

end AsconSuite
