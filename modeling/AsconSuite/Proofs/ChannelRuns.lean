/-
Module: AsconSuite.Proofs.ChannelRuns
Layer: Proofs
Purpose: What senders, network and receiver give together: a message is delivered as it was sent, at most once, and
  the messages of a credential arrive in the order in which they were sent.
Imports: AsconSuite.Proofs.ReceiverRuns, AsconSuite.Proofs.SecureRoundTrip, AsconSuite.Proofs.SenderRuns,
  AsconSuite.Secure.Channel
Trusted boundary: none
Main exports: Message.Sealed, Channel.Seals, Channel.Honest, channel_delivers_in_order
-/
import AsconSuite.Proofs.ReceiverRuns
import AsconSuite.Proofs.SecureRoundTrip
import AsconSuite.Proofs.SenderRuns
import AsconSuite.Secure.Channel

namespace AsconSuite

open ByteWord ByteMemory CrashLogic Ledger
open Program (getRam)

/-! ### The nodes and their logs -/

/-- The nonce that a message uses. -/
def Message.nonce (message : Message) : MessageNonce := ⟨message.credential, message.counter⟩

/-- The delivery of an arrival. -/
def Arrival.delivery (arrival : Arrival) : Delivery :=
  ⟨arrival.message.credential, arrival.peerId, arrival.message.counter, arrival.message.packet⟩

/-- The nonces that a sender logs are those of its messages. -/
theorem senderNode_coarser : Node.Coarser senderNode sendingNode Message.nonce := by
  refine ⟨rfl, ?_⟩
  intro call
  cases call with
  | provision => exact (silently_map _ _).symm
  | begin => exact (silently_map _ _).symm
  | factoryReset => exact (silently_map _ _).symm
  | wrap args mem =>
      simp only [senderNode, sendingNode, SenderCall.program, bind_assoc]
      refine congrArg _ (funext fun result => ?_)
      simp only [emittedNonces, sentMessages, bind_assoc]
      refine congrArg _ (funext fun ram => ?_)
      by_cases ok : result.status = .ok
      · rw [if_pos ok, if_pos ok]
        rfl
      · rw [if_neg ok, if_neg ok]
        rfl

/-- The deliveries that a receiver logs are those of its arrivals. -/
theorem receiverNode_coarser : Node.Coarser receiverNode receivingNode Arrival.delivery := by
  refine ⟨rfl, ?_⟩
  intro call
  cases call with
  | begin => exact (silently_map _ _).symm
  | addPeer peerId key noncePrefix => exact (silently_map _ _).symm
  | unwrap args mem =>
      simp only [receiverNode, receivingNode, ReceiverCall.program, bind_assoc]
      refine congrArg _ (funext fun result => ?_)
      simp only [deliveredPackets, arrivedMessages, bind_assoc]
      refine congrArg _ (funext fun ram => ?_)
      by_cases failed : result.status ≠ .ok
      · rw [if_pos failed, if_pos failed]
        rfl
      · rw [if_neg failed, if_neg failed]
        cases findPeer ram.peers args.peerId with
        | none => rfl
        | some slot =>
            cases args.packet with
            | none => rfl
            | some packet => rfl

/-! ### Messages as they are sent -/

/-- The packet is what a sender makes of the rest of the message. -/
structure Message.Sealed (message : Message) : Prop where
  fits : message.payload.length ≤ secureMaxPayload
  packet : message.packet = packetBytes message.credential.key message.credential.noncePrefix message.counter
    (tablePtr message.header) message.header.length message.payload

/-- A successful call of `asconSecureWrap` builds its packet under the credential in memory. -/
theorem asconSecureWrap_builds (args : WrapArgs) (mem : Mem) {ram : SenderRam} {store : SenderStore}
    {script : List NvsReply} :
    wp (asconSecureWrap args mem)
      (fun result ram _ _ => result.status = .ok → ∃ payload packet counter,
        args.Admissible payload packet ∧ result = wrapPacket args mem payload packet ram counter)
      (fun _ => True) ram store script := by
  apply wp_asconSecureWrap
  · intro status failed succeeded
    exact absurd succeeded failed
  intro ready payload packet admissible
  apply wp_takeCounter trivial
  · exact fun _ => nofun
  · exact fun _ _ _ => nofun
  · exact fun _ _ _ => nofun
  · exact fun _ _ _ _ => ⟨payload, packet, _, admissible, rfl⟩
  · exact fun _ _ _ => ⟨payload, packet, _, admissible, rfl⟩

/-- What is logged about a packet that was built. -/
theorem sealed_wrapPacket {args : WrapArgs} {payload packet : Nat} (admissible : args.Admissible payload packet)
    (mem : Mem) (ram : SenderRam) (counter : Counter) :
    Message.Sealed {
      credential := ram.credential
      counter := readCounterBE ((wrapPacket args mem payload packet ram counter).mem.view packet)
      header := mem.read (args.header.getD 0) args.headerLength
      payload := mem.read payload args.payloadLength
      packet := (wrapPacket args mem payload packet ram counter).mem.read packet
        (args.payloadLength + secureOverhead) } where
  fits := by
    rw [length_read]
    exact admissible.payloadFits
  packet := by
    have sameCounter : readCounterBE ((wrapPacket args mem payload packet ram counter).mem.view packet) = counter :=
      readCounterBE_sealPacket _ _ _ _ _ _ _ _ _
    rw [read_wrapPacket admissible mem ram counter, sameCounter]
    change _ = packetBytes ram.senderKey ram.senderPrefix counter
      (tablePtr (mem.read (args.header.getD 0) args.headerLength))
      (mem.read (args.header.getD 0) args.headerLength).length _
    rw [length_read]
    exact packetBytes_congr _ _ _ (fun i inside => (getD_read mem _ inside).symm) _

/-- A sender logs sealed messages only. -/
theorem sendingNode_preserves_sealed (call : SenderCall) (world : World SenderRam SenderStore Message)
    (script : List NvsReply) (sealed : ∀ message ∈ world.log, message.Sealed) :
    sendingNode.Preserves (fun _ _ log => ∀ message ∈ log, message.Sealed) call world script := by
  cases call with
  | provision => exact Node.preserves_silently rfl (wp_of_forall (fun _ _ _ _ => sealed) fun _ => sealed)
  | begin => exact Node.preserves_silently rfl (wp_of_forall (fun _ _ _ _ => sealed) fun _ => sealed)
  | factoryReset => exact Node.preserves_silently rfl (wp_of_forall (fun _ _ _ _ => sealed) fun _ => sealed)
  | wrap args mem =>
      rw [Node.Preserves]
      simp only [sendingNode, wp_bind]
      refine wp_mono (asconSecureWrap_builds args mem) ?_ fun _ _ => sealed
      intro result ram store rest builds
      simp only [sentMessages, wp_bind, wp_getRam]
      by_cases ok : result.status = .ok
      · obtain ⟨payload, packet, counter, admissible, same⟩ := builds ok
        rw [if_pos ok, wp_pure]
        intro message member
        rcases List.mem_append.1 member with old | new
        · exact sealed message old
        · rw [List.mem_singleton.1 new, same, admissible.payloadGiven, admissible.packetGiven,
            packetLength_wrapPacket]
          exact sealed_wrapPacket admissible mem ram counter
      · rw [if_neg ok, wp_pure, List.append_nil]
        exact sealed

/-! ### Messages as they arrive -/

/-- A call that is handed a sealed message and finds the tag right recovers its counter and its payload. -/
theorem opened_of_carry {args : UnwrapArgs} {mem : Mem} {ram : ReceiverRam} {message : Message}
    (sealed : message.Sealed) (carry : args.Carry mem ram message) {packet payload : Nat} {slot : Fin maxPeers}
    {opened : List Byte} (opens : args.Opens mem ram packet payload slot opened) :
    readCounterBE (mem.view packet) = message.counter ∧ opened = message.payload := by
  have sameCredential : (ram.peers slot).credential = message.credential := carry.addressed slot opens.peerFound
  have sameKey : (ram.peers slot).key = message.credential.key := congrArg Credential.key sameCredential
  have samePrefix : (ram.peers slot).noncePrefix = message.credential.noncePrefix :=
    congrArg Credential.noncePrefix sameCredential
  have packetSame : mem.read packet args.packetLength = message.packet := by
    have same := carry.packet
    rwa [opens.packetGiven] at same
  have packetLength : args.packetLength = message.payload.length + secureOverhead := by
    rw [← length_read mem packet args.packetLength, packetSame, sealed.packet, length_packetBytes]
  have headerLength : args.headerLength = message.header.length := by
    rw [← carry.header, length_read]
  have sameHeader : ∀ i < args.headerLength, mem (args.header.getD 0 + i) = tablePtr message.header i := by
    intro i inside
    rw [← carry.header]
    exact (getD_read mem _ inside).symm
  rw [packetLength, sealed.packet, ← headerLength, ← sameKey, ← samePrefix] at packetSame
  refine ⟨readCounterBE_of_read packetSame, ?_⟩
  have recovers := openPacket_packetBytes packetSame sameHeader sealed.fits
  rw [← packetLength, opens.opened] at recovers
  exact Option.some.inj recovers

/-- A call that has accepted a message that it was handed delivers it. -/
theorem arrivedMessages_accept {args : UnwrapArgs} {mem : Mem} {ram : ReceiverRam} {message : Message}
    (carry : args.Carry mem ram message) {packet payload : Nat} {slot : Fin maxPeers}
    (peerFound : findPeer ram.peers args.peerId = some slot) (packetGiven : args.packet = some packet)
    (payloadGiven : args.payload = some payload) (sameCounter : readCounterBE (mem.view packet) = message.counter)
    {fingerprint : List Byte} {counter : Counter} {store : ReceiverStore} {script : List NvsReply}
    {post : List Arrival → ReceiverRam → ReceiverStore → List NvsReply → Prop} {lost : ReceiverStore → Prop}
    (holds : post [⟨args.peerId, message⟩] (ram.accept fingerprint counter) store script) :
    wp (arrivedMessages args mem ⟨.ok, mem.write payload message.payload, some message.payload.length⟩) post lost
      (ram.accept fingerprint counter) store script := by
  have sameCredential : ((ram.accept fingerprint counter).peers slot).credential = message.credential := by
    rw [← carry.addressed slot peerFound]
    rcases peers_accept ram fingerprint counter slot with ⟨_, _, moved⟩ | ⟨_, stayed⟩
    · rw [moved]
      rfl
    · rw [stayed]
  have packetSame : mem.read packet args.packetLength = message.packet := by
    have same := carry.packet
    rwa [packetGiven] at same
  simp only [arrivedMessages, wp_bind, wp_getRam, ne_eq, not_true_eq_false, if_false, findPeer_accept, peerFound,
    packetGiven, payloadGiven, wp_pure, Option.getD_some, sameCredential, sameCounter, carry.header, packetSame,
    read_write_same]
  exact holds

/-- What a receiver delivers of a sealed message that it is handed is that message. -/
theorem arrived_of_carry {args : UnwrapArgs} {mem : Mem} {ram : ReceiverRam} {message : Message}
    (sealed : message.Sealed) (carry : args.Carry mem ram message) {store : ReceiverStore}
    {script : List NvsReply} :
    wp (receivingNode.program (.unwrap args mem))
      (fun given _ _ _ => ∀ arrival ∈ given, arrival.message = message) (fun _ => True) ram store script := by
  simp only [receivingNode, wp_bind]
  apply wp_asconSecureUnwrap
  · intro status failed _
    simp only [arrivedMessages, wp_bind, wp_getRam, ne_eq, failed, not_false_eq_true, if_true, wp_pure]
    exact fun _ member => absurd member List.not_mem_nil
  intro packet payload slot opened opens _
  have failed (store' : ReceiverStore) (rest : List NvsReply) :
      wp (arrivedMessages args mem ⟨.errNvs, mem, some 0⟩)
        (fun given _ _ _ => ∀ arrival ∈ given, arrival.message = message) (fun _ => True) ram store' rest := by
    simp only [arrivedMessages, wp_bind, wp_getRam, ne_eq, reduceCtorEq, not_false_eq_true, if_true, wp_pure]
    exact fun _ member => absurd member List.not_mem_nil
  apply wp_persistCounter trivial
  · exact failed store
  · exact failed (Function.update store (counterKeyFor (ram.peers slot).fingerprint)
      (some (readCounterBE (mem.view packet))))
  intro rest _
  obtain ⟨sameCounter, samePayload⟩ := opened_of_carry sealed carry opens
  rw [if_pos rfl, samePayload]
  refine arrivedMessages_accept carry opens.peerFound opens.packetGiven opens.payloadGiven sameCounter ?_
  intro arrival member
  rw [List.mem_singleton.1 member]

/-! ### Runs -/

namespace Channel

variable {ι : Type*} [DecidableEq ι]

/-- The senders have logged sealed messages only. -/
def Seals (channel : Channel ι) : Prop := ∀ node, ∀ message ∈ (channel.senders node).log, message.Sealed

/-- The sealed messages of the senders are the only ones that were delivered. -/
structure Honest (channel : Channel ι) : Prop where
  sealed : channel.Seals
  sent : ∀ arrival ∈ channel.receiver.log, ∃ node, arrival.message ∈ (channel.senders node).log

/-- All that the receiver has logged was sent. -/
def Sent (channel : Channel ι) (_ : ReceiverRam) (_ : ReceiverStore) (log : List Arrival) : Prop :=
  ∀ arrival ∈ log, ∃ node, arrival.message ∈ (channel.senders node).log

theorem senders_step_self (channel : Channel ι) (node : ι) (event : SenderEvent) :
    (channel.step (.sender node event)).senders node = sendingNode.step (channel.senders node) event :=
  Function.update_self _ _ _

theorem senders_step_of_ne (channel : Channel ι) {node other : ι} (different : other ≠ node) (event : SenderEvent) :
    (channel.step (.sender node event)).senders other = channel.senders other :=
  Function.update_of_ne different _ _

/-- One event of any node leaves all messages sealed, whatever the network carries. -/
theorem Seals.step {channel : Channel ι} (sealed : channel.Seals) (event : ChannelEvent ι) :
    (channel.step event).Seals := by
  cases event with
  | receiver event => exact sealed
  | sender node event =>
      intro other message member
      by_cases different : other = node
      · subst different
        rw [senders_step_self] at member
        cases event with
        | powerLoss => exact sealed other message member
        | call call script =>
            have kept := sendingNode_preserves_sealed call (channel.senders other) script (sealed other)
            exact Node.inv_step_call kept message member
      · rw [senders_step_of_ne channel different] at member
        exact sealed other message member

/-- One event of any node keeps the channel honest. -/
theorem Honest.step {channel : Channel ι} (honest : channel.Honest) {event : ChannelEvent ι}
    (carries : channel.Carries event) : (channel.step event).Honest := by
  refine ⟨honest.sealed.step event, ?_⟩
  cases event with
  | sender node event =>
      intro arrival member
      obtain ⟨other, sent⟩ := honest.sent arrival member
      refine ⟨other, ?_⟩
      by_cases different : other = node
      · subst different
        obtain ⟨given, grown⟩ := sendingNode.log_step (channel.senders other) event
        rw [senders_step_self, grown]
        exact List.mem_append_left _ sent
      · rw [senders_step_of_ne channel different]
        exact sent
  | receiver event =>
      cases event with
      | powerLoss => exact honest.sent
      | call call script =>
          have silent {program : ReceiverProgram AsconSecureStatus}
              (isSilent : receivingNode.program call = program.silently) :
              receivingNode.Preserves channel.Sent call channel.receiver script :=
            Node.preserves_silently isSilent (wp_of_forall (fun _ _ _ _ => honest.sent) fun _ => honest.sent)
          have kept : receivingNode.Preserves channel.Sent call channel.receiver script := by
            cases call with
            | begin => exact silent rfl
            | addPeer peerId key noncePrefix => exact silent rfl
            | unwrap args mem =>
                obtain ⟨node, message, sent, carry⟩ := carries
                refine wp_mono (arrived_of_carry (honest.sealed node message sent) carry) ?_ fun _ _ => honest.sent
                intro given _ _ _ arrived arrival member
                rcases List.mem_append.1 member with old | new
                · exact honest.sent arrival old
                · rw [arrived arrival new]
                  exact ⟨node, sent⟩
          exact Node.inv_step_call kept

/-- After every run all messages are sealed. -/
theorem seals_after (keyEntry : ι → Option Key) (prefixEntry : ι → Option NoncePrefix)
    (reservedEntry : ι → Option Counter) (counters : ReceiverStore) (events : List (ChannelEvent ι)) :
    (Runs.after step (start keyEntry prefixEntry reservedEntry counters) events).Seals := by
  have along : Runs.Along step (fun _ _ => True) (start keyEntry prefixEntry reservedEntry counters) events :=
    Runs.along_of_forall fun _ _ _ => trivial
  exact Runs.invariant_after Channel.Seals (fun _ event sealed _ => sealed.step event)
    (fun _ _ member => absurd member List.not_mem_nil) along

omit [DecidableEq ι] in
theorem honest_start (keyEntry : ι → Option Key) (prefixEntry : ι → Option NoncePrefix)
    (reservedEntry : ι → Option Counter) (counters : ReceiverStore) :
    (start keyEntry prefixEntry reservedEntry counters).Honest where
  sealed _ _ member := absurd member List.not_mem_nil
  sent _ member := absurd member List.not_mem_nil

/-- A sender takes the steps of its own events. -/
theorem sender_component (node : ι) :
    Runs.Component step sendingNode.step (fun channel => channel.senders node) (ChannelEvent.sentBy node) := by
  intro channel event
  cases event with
  | receiver event => rfl
  | sender other event =>
      by_cases same : other = node
      · subst same
        rw [ChannelEvent.sentBy, if_pos rfl]
        exact Function.update_self _ _ _
      · rw [ChannelEvent.sentBy, if_neg same]
        exact Function.update_of_ne (Ne.symm same) _ _

/-- The receiver takes the steps of its own events. -/
theorem receiver_component :
    Runs.Component step receivingNode.step (receiver : Channel ι → _) ChannelEvent.received := by
  intro channel event
  cases event with
  | sender node event => rfl
  | receiver event => rfl

end Channel

section

variable {ι : Type*} [DecidableEq ι] {keyEntry : ι → Option Key} {prefixEntry : ι → Option NoncePrefix}
  {reservedEntry : ι → Option Counter} {counters : ReceiverStore} {events : List (ChannelEvent ι)}
  {channel : Channel ι}

/-- What a sender has logged, as long as it has drawn no prefix twice. -/
theorem sender_log_ascending
    (reached : Runs.after Channel.step (.start keyEntry prefixEntry reservedEntry counters) events = channel)
    {node : ι} (distinct : (channel.senders node).store.drawnPrefixes.Nodup) :
    Ascending Message.credential Message.number (channel.senders node).log ∧
      ∀ message ∈ (channel.senders node).log,
        message.credential.noncePrefix ∈ (channel.senders node).store.drawnPrefixes := by
  have own : channel.senders node =
      sendingNode.after ((Channel.start keyEntry prefixEntry reservedEntry counters).senders node)
        (events.filterMap (ChannelEvent.sentBy node)) := by
    rw [← reached]
    exact Runs.after_component (Channel.sender_component node)
  have coarse := Node.after_mapLog senderNode_coarser
    ((Channel.start keyEntry prefixEntry reservedEntry counters).senders node)
    (events.filterMap (ChannelEvent.sentBy node))
  rw [← own] at coarse
  have safe : SenderInvariant (channel.senders node).ram (channel.senders node).store
      ((channel.senders node).log.map Message.nonce) :=
    senderAfter_safe (keyEntry node) (prefixEntry node) (reservedEntry node)
      (events.filterMap (ChannelEvent.sentBy node)) coarse distinct
  refine ⟨List.pairwise_map.1 safe.ascending, ?_⟩
  intro message member
  exact safe.usedDrawn message.nonce (List.mem_map_of_mem member)

/-- What the receiver has delivered. -/
theorem arrivals_ascending
    (reached : Runs.after Channel.step (.start keyEntry prefixEntry reservedEntry counters) events = channel)
    (succeed : ∀ event ∈ events.filterMap ChannelEvent.received, ReadsSucceed event)
    (fingerprints : DistinctFingerprints (registeredCredentials (events.filterMap ChannelEvent.received))) :
    Ascending Message.credential Message.number channel.arrivals := by
  have own : channel.receiver =
      receivingNode.after (Channel.start keyEntry prefixEntry reservedEntry counters).receiver
        (events.filterMap ChannelEvent.received) := by
    rw [← reached]
    exact Runs.after_component Channel.receiver_component
  have coarse := Node.after_mapLog receiverNode_coarser
    (Channel.start keyEntry prefixEntry reservedEntry counters).receiver (events.filterMap ChannelEvent.received)
  rw [← own] at coarse
  have readsBack : receiverNode.Along ReadsBack (receiverStart counters) (events.filterMap ChannelEvent.received) :=
    Runs.along_of_forall fun world event member => readsBack_of_readsSucceed (succeed event member) world
  have holds := receiverAfter_invariant counters readsBack fingerprints coarse
  have ascending : Ascending Delivery.credential Delivery.number
      (channel.receiver.log.map Arrival.delivery) := holds.ascending
  exact List.pairwise_map.2 (List.pairwise_map.1 ascending)

end

/-- Over any run of any number of senders and a receiver, with losses of power and with failing storage, and with
a network that loses, repeats, delays and reorders packets: what is delivered was sent, header and payload
included; nothing is delivered twice; and the messages of a credential are delivered in the order in which its
sender has sent them. The reads with which `asconSecureAddPeer` looks for a stored counter must succeed, as
`addPeer_forgets_counter` shows; the registered credentials must differ in the seven bytes of the fingerprint that
name a counter; and no nonce prefix may be drawn twice, by one sender or by two. -/
theorem channel_delivers_in_order {ι : Type*} [DecidableEq ι] (keyEntry : ι → Option Key)
    (prefixEntry : ι → Option NoncePrefix) (reservedEntry : ι → Option Counter) (counters : ReceiverStore)
    (events : List (ChannelEvent ι)) {channel : Channel ι}
    (reached : Runs.after Channel.step (.start keyEntry prefixEntry reservedEntry counters) events = channel)
    (carries : Runs.Along Channel.step Channel.Carries (.start keyEntry prefixEntry reservedEntry counters) events)
    (succeed : ∀ event ∈ events.filterMap ChannelEvent.received, ReadsSucceed event)
    (fingerprints : DistinctFingerprints (registeredCredentials (events.filterMap ChannelEvent.received)))
    (distinct : ∀ node, (channel.senders node).store.drawnPrefixes.Nodup)
    (apart : ∀ node other, node ≠ other → (channel.senders node).store.drawnPrefixes.Disjoint
      (channel.senders other).store.drawnPrefixes) :
    channel.arrivals.Nodup ∧
      (∀ message ∈ channel.arrivals, ∃ node, message ∈ (channel.senders node).log) ∧
      ∀ node credential, credential.noncePrefix ∈ (channel.senders node).store.drawnPrefixes →
        (channel.arrivals.filter (·.credential = credential)).Sublist
          ((channel.senders node).log.filter (·.credential = credential)) := by
  have honest : channel.Honest := by
    rw [← reached]
    exact Runs.invariant_after Channel.Honest (fun _ _ honest carries => honest.step carries)
      (Channel.honest_start keyEntry prefixEntry reservedEntry counters) carries
  have sent : ∀ message ∈ channel.arrivals, ∃ node, message ∈ (channel.senders node).log := by
    intro message member
    obtain ⟨arrival, delivered, same⟩ := List.mem_map.1 member
    rw [← same]
    exact honest.sent arrival delivered
  have ascending := arrivals_ascending reached succeed fingerprints
  refine ⟨ascending_nodup ascending, sent, ?_⟩
  intro node credential drawn
  refine ascending.sublist_of_subset (sender_log_ascending reached (distinct node)).1 ?_
  intro message member own
  obtain ⟨other, logged⟩ := sent message member
  by_cases same : other = node
  · rwa [same] at logged
  · have usedDrawn := (sender_log_ascending reached (distinct other)).2 message logged
    rw [own] at usedDrawn
    exact absurd drawn (apart other node same usedDrawn)

/-- A sender is provisioned and sends a message of five bytes and one of three. -/
def sampleSender : List SenderEvent :=
  let send (length : Nat) := Event.call (.wrap ⟨some 0, length, none, 0, some 300, 220, true⟩ fun _ => 1) [.ok, .ok]
  [.call .provision [.ok, .ok, .drawn (Vector.replicate _ 7) (Vector.replicate _ 9), .ok, .ok, .ok, .ok, .ok, .ok,
      .ok, .ok],
    send 5, send 3]

/-- The messages that it sends. -/
def sampleSent : List Message := (sendingNode.after ⟨.initial, ⟨none, none, none, []⟩, []⟩ sampleSender).log

/-- Memory with a header at its start and a packet behind it. -/
def carrying (message : Message) : Mem :=
  fun a => if a < 300 then message.header.getD a 0 else message.packet.getD (a - 300) 0

/-- A call that is handed a message. -/
def handOver (message : Message) : UnwrapArgs :=
  ⟨3, some 300, message.packet.length, some 0, message.header.length, some 600, 200, true⟩

/-- The sender sends, and the receiver gets ready. The other sender stays off. -/
def sampleReady : List (ChannelEvent Bool) :=
  sampleSender.map (.sender false) ++
    [.receiver (.call .begin [.ok]),
      .receiver (.call (.addPeer 3 (some (Vector.replicate _ 7)) (some (Vector.replicate _ 9))) [.ok, .ok, .ok])]

/-- The receiver is handed the second message, the first one, and both again. -/
def sampleChannel : List (ChannelEvent Bool) :=
  sampleReady ++ (sampleSent.reverse ++ sampleSent).map fun message =>
    .receiver (.call (.unwrap (handOver message) (carrying message)) [.ok, .ok])

theorem channel_delivers_in_order_sample :
    let channel := Runs.after Channel.step
      (.start (fun _ => none) (fun _ => none) (fun _ => none) fun _ => none) sampleChannel
    (channel.senders false).log.length = 2 ∧ channel.arrivals.length = 1 ∧
      (channel.arrivals.filter (·.credential = ⟨Vector.replicate _ 7, Vector.replicate _ 9⟩)).Sublist
        ((channel.senders false).log.filter (·.credential = ⟨Vector.replicate _ 7, Vector.replicate _ 9⟩)) := by
  intro channel
  have off : (channel.senders true).store.drawnPrefixes = [] := by decide +kernel
  have apart : ∀ node other, node ≠ other → (channel.senders node).store.drawnPrefixes.Disjoint
      (channel.senders other).store.drawnPrefixes := by
    intro node other different
    cases node with
    | true =>
        rw [off]
        exact List.disjoint_nil_left _
    | false =>
        cases other with
        | true =>
            rw [off]
            exact List.disjoint_nil_right _
        | false => exact absurd rfl different
  have delivers := channel_delivers_in_order (fun _ => none) (fun _ => none) (fun _ => none) (fun _ => none)
    sampleChannel rfl (by decide +kernel) (by decide +kernel) (by decide +kernel) (by decide +kernel) apart
  refine ⟨by decide +kernel, by decide +kernel, delivers.2.2 false _ ?_⟩
  decide +kernel

end AsconSuite
