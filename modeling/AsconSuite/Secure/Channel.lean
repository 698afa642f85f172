/-
Module: AsconSuite.Secure.Channel
Layer: Model
Purpose: Any number of senders and a receiver, with a network between them that loses, repeats, delays and
  reorders what is sent. The calls of the nodes and their losses of power come in any order.
Imports: AsconSuite.Secure.ReceiverNode, Mathlib's Fintype
Trusted boundary: the network forges nothing, and a packet is unwrapped under a peer with the credential that it
  was wrapped with (`Channel.Carries`)
Main exports: Message, Arrival, sendingNode, receivingNode, Channel, Channel.step, Channel.Carries, Channel.start
-/
import AsconSuite.Secure.ReceiverNode
import Mathlib.Data.Fintype.Basic

namespace AsconSuite

open ByteWord ByteMemory CrashLogic
open Program (getRam)

/-- A packet together with what it was made of. -/
structure Message where
  credential : Credential
  counter : Counter
  header : List Byte
  payload : List Byte
  packet : List Byte
deriving DecidableEq

/-- The message counter as a number. -/
def Message.number (message : Message) : Nat := message.counter.toNat

/-- A message that was delivered, and under which identifier. -/
structure Arrival where
  peerId : Byte
  message : Message
deriving DecidableEq

/-- The message of a successful `asconSecureWrap`, with the header and the payload that it was called with. -/
def sentMessages (args : WrapArgs) (mem : Mem) (result : WrapResult) : SenderProgram (List Message) := do
  let ram ← getRam
  if result.status = .ok then
    return [{
      credential := ram.credential
      counter := readCounterBE (result.mem.view (args.packet.getD 0))
      header := mem.read (args.header.getD 0) args.headerLength
      payload := mem.read (args.payload.getD 0) args.payloadLength
      packet := result.mem.read (args.packet.getD 0) (result.packetLength.getD 0) }]
  return []

/-- A sender that logs its messages. -/
def sendingNode : Node NvsReply SenderRam SenderStore SenderCall Message where
  powerOn := .initial
  program
    | .provision => asconSecureProvision.silently
    | .begin => asconSecureBegin.silently
    | .factoryReset => asconSecureFactoryReset.silently
    | .wrap args mem => do
      let result ← asconSecureWrap args mem
      sentMessages args mem result

/-- The message of a successful `asconSecureUnwrap`, with the payload that it has left to the caller. -/
def arrivedMessages (args : UnwrapArgs) (mem : Mem) (result : UnwrapResult) : ReceiverProgram (List Arrival) := do
  let ram ← getRam
  if result.status ≠ .ok then
    return []
  match findPeer ram.peers args.peerId, args.packet with
  | some slot, some packet =>
    return [⟨args.peerId, {
      credential := (ram.peers slot).credential
      counter := readCounterBE (mem.view packet)
      header := mem.read (args.header.getD 0) args.headerLength
      payload := result.mem.read (args.payload.getD 0) (result.payloadLength.getD 0)
      packet := mem.read packet args.packetLength }⟩]
  | _, _ => return []

/-- A receiver that logs the messages that it delivers. -/
def receivingNode : Node NvsReply ReceiverRam ReceiverStore ReceiverCall Arrival where
  powerOn := .initial
  program
    | .begin => asconSecureReceiverBegin.silently
    | .addPeer peerId key noncePrefix => (asconSecureAddPeer peerId key noncePrefix).silently
    | .unwrap args mem => do
      let result ← asconSecureUnwrap args mem
      arrivedMessages args mem result

/-- The call is handed the bytes of the message, under an identifier that belongs to its credential if to
anyone. -/
structure UnwrapArgs.Carry (args : UnwrapArgs) (mem : Mem) (ram : ReceiverRam)
    (message : Message) : Prop where
  packet : mem.read (args.packet.getD 0) args.packetLength = message.packet
  header : mem.read (args.header.getD 0) args.headerLength = message.header
  addressed : ∀ slot, findPeer ram.peers args.peerId = some slot →
    (ram.peers slot).credential = message.credential

instance (args : UnwrapArgs) (mem : Mem) (ram : ReceiverRam) (message : Message) :
    Decidable (args.Carry mem ram message) :=
  decidable_of_iff (mem.read (args.packet.getD 0) args.packetLength = message.packet ∧
      mem.read (args.header.getD 0) args.headerLength = message.header ∧
      ∀ slot, findPeer ram.peers args.peerId = some slot → (ram.peers slot).credential = message.credential)
    ⟨fun holds => ⟨holds.1, holds.2.1, holds.2.2⟩, fun carry => ⟨carry.packet, carry.header, carry.addressed⟩⟩

/-- The nodes, with their storage, and the logs of what they have sent and delivered. -/
structure Channel (ι : Type*) where
  senders : ι → World SenderRam SenderStore Message
  receiver : World ReceiverRam ReceiverStore Arrival

/-- An event of one of the nodes. -/
inductive ChannelEvent (ι : Type*) where
  | sender (node : ι) (event : SenderEvent)
  | receiver (event : ReceiverEvent)

namespace ChannelEvent

variable {ι : Type*}

/-- What a sender sees of an event. -/
def sentBy [DecidableEq ι] (node : ι) : ChannelEvent ι → Option SenderEvent
  | sender other event => if other = node then some event else none
  | receiver _ => none

/-- What the receiver sees of an event. -/
def received : ChannelEvent ι → Option ReceiverEvent
  | sender _ _ => none
  | receiver event => some event

end ChannelEvent

namespace Channel

variable {ι : Type*}

/-- One event. -/
def step [DecidableEq ι] (channel : Channel ι) : ChannelEvent ι → Channel ι
  | .sender node event =>
      { channel with
        senders := Function.update channel.senders node (sendingNode.step (channel.senders node) event) }
  | .receiver event => { channel with receiver := receivingNode.step channel.receiver event }

/-- The nodes are switched on with this storage. -/
def start (keyEntry : ι → Option Key) (prefixEntry : ι → Option NoncePrefix) (reservedEntry : ι → Option Counter)
    (counters : ReceiverStore) : Channel ι where
  senders node :=
    ⟨.initial, ⟨keyEntry node, prefixEntry node, reservedEntry node, (prefixEntry node).toList⟩, []⟩
  receiver := ⟨.initial, counters, []⟩

/-- The network hands the receiver only what one of the senders has sent: any message, at any later time, any
number of times. -/
def Carries (channel : Channel ι) : ChannelEvent ι → Prop
  | .receiver (.call (.unwrap args mem) _) =>
      ∃ node, ∃ message ∈ (channel.senders node).log, args.Carry mem channel.receiver.ram message
  | _ => True

/-- A run can be tested for what the network carries. -/
instance [Fintype ι] (channel : Channel ι) : ∀ event, Decidable (channel.Carries event)
  | .receiver (.call (.unwrap args mem) _) =>
      inferInstanceAs (Decidable (∃ node, ∃ message ∈ (channel.senders node).log,
        args.Carry mem channel.receiver.ram message))
  | .receiver (.call .begin _) => .isTrue trivial
  | .receiver (.call (.addPeer ..) _) => .isTrue trivial
  | .receiver .powerLoss => .isTrue trivial
  | .sender .. => .isTrue trivial

/-- The messages delivered. -/
def arrivals (channel : Channel ι) : List Message := channel.receiver.log.map Arrival.message

end Channel

end AsconSuite
