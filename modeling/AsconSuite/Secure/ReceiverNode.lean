/-
Module: AsconSuite.Secure.ReceiverNode
Layer: Model
Purpose: The node that receives: any sequence of the receiver's calls with losses of power, and the log of the
  packets it delivers.
Imports: AsconSuite.Base.CrashNode, AsconSuite.Secure.Receptor, AsconSuite.Secure.SenderNode
Trusted boundary: none
Main exports: Delivery, ReceiverCall, receiverNode, hearingNode, ReceiverWorld, receiverStart, registeredCredentials,
  ReadsSucceed, ReadsBack
-/
import AsconSuite.Base.CrashNode
import AsconSuite.Secure.Receptor
import AsconSuite.Secure.SenderNode

namespace AsconSuite

open ByteWord ByteMemory CrashLogic
open Program (getRam)

/-- The credential of a peer. -/
def Peer.credential (peer : Peer) : Credential := ⟨peer.key, peer.noncePrefix⟩

/-- The fingerprint of a credential. -/
def Credential.fingerprint (credential : Credential) : List Byte :=
  keyFingerprint credential.key credential.noncePrefix

/-- The name under which the storage keeps the counter of a credential. -/
def Credential.counterKey (credential : Credential) : List Char :=
  counterKeyFor credential.fingerprint

/-- A packet that was delivered: who it came from, under which identifier, and its bytes. -/
structure Delivery where
  credential : Credential
  peerId : Byte
  counter : Counter
  packet : List Byte
deriving DecidableEq

/-- The message counter as a number. -/
def Delivery.number (delivery : Delivery) : Nat := delivery.counter.toNat

/-- The calls of a receiver. -/
inductive ReceiverCall where
  | begin
  | addPeer (peerId : Byte) (key : Option Key) (noncePrefix : Option NoncePrefix)
  | unwrap (args : UnwrapArgs) (mem : Mem)

/-- The packet that a successful `asconSecureUnwrap` has delivered. -/
def deliveredPackets (args : UnwrapArgs) (mem : Mem) (result : UnwrapResult) :
    ReceiverProgram (List Delivery) := do
  let ram ← getRam
  if result.status ≠ .ok then
    return []
  match findPeer ram.peers args.peerId, args.packet with
  | some slot, some packet =>
    return [⟨(ram.peers slot).credential, args.peerId, readCounterBE (mem.view packet),
      mem.read packet args.packetLength⟩]
  | _, _ => return []

/-- A call, with the packets that it delivers. -/
def ReceiverCall.program : ReceiverCall → ReceiverProgram (List Delivery)
  | .begin => asconSecureReceiverBegin.silently
  | .addPeer peerId key noncePrefix => (asconSecureAddPeer peerId key noncePrefix).silently
  | .unwrap args mem => do
    let result ← asconSecureUnwrap args mem
    deliveredPackets args mem result

/-- The receiver as a node. -/
def receiverNode : Node NvsReply ReceiverRam ReceiverStore ReceiverCall Delivery where
  powerOn := .initial
  program := ReceiverCall.program

/-- The nonce of a packet that was opened: it was delivered, refused as a replay, or its counter could not be
persisted. -/
def heardNonces (args : UnwrapArgs) (mem : Mem) (result : UnwrapResult) : ReceiverProgram (List MessageNonce) := do
  let ram ← getRam
  if result.status = .ok ∨ result.status = .errReplay ∨ result.status = .errNvs then
    match findPeer ram.peers args.peerId with
    | some slot => return [⟨(ram.peers slot).credential, readCounterBE (mem.view (args.packet.getD 0))⟩]
    | none => return []
  return []

/-- A receiver that logs what it has opened, delivered or not. -/
def hearingNode : Node NvsReply ReceiverRam ReceiverStore ReceiverCall MessageNonce where
  powerOn := .initial
  program
    | .begin => asconSecureReceiverBegin.silently
    | .addPeer peerId key noncePrefix => (asconSecureAddPeer peerId key noncePrefix).silently
    | .unwrap args mem => do
      let result ← asconSecureUnwrap args mem
      heardNonces args mem result

/-- Memory, storage and the packets delivered so far. -/
abbrev ReceiverWorld := World ReceiverRam ReceiverStore Delivery

/-- One event of a receiver. -/
abbrev ReceiverEvent := Event NvsReply ReceiverCall

/-- A receiver that is switched on with this storage. -/
def receiverStart (store : ReceiverStore) : ReceiverWorld := ⟨.initial, store, []⟩

/-- The credentials that the calls of a run register. -/
def registeredCredentials (events : List ReceiverEvent) : List Credential :=
  events.filterMap fun event =>
    match event with
    | .call (.addPeer _ (some key) (some noncePrefix)) _ => some ⟨key, noncePrefix⟩
    | _ => none

/-- The seven bytes of the fingerprint that name a counter tell the credentials apart. -/
def DistinctFingerprints (credentials : List Credential) : Prop :=
  ∀ c ∈ credentials, ∀ d ∈ credentials, c.fingerprint.take 7 = d.fingerprint.take 7 → c = d

instance (credentials : List Credential) : Decidable (DistinctFingerprints credentials) :=
  inferInstanceAs (Decidable (∀ c ∈ credentials, ∀ d ∈ credentials,
    c.fingerprint.take 7 = d.fingerprint.take 7 → c = d))

/-- The reads of the storage succeed: in `asconSecureAddPeer` they come behind `nvs.begin`. -/
def ReadsSucceed : ReceiverEvent → Prop
  | .call (.addPeer ..) script => ∀ reply ∈ script.drop 1, reply = .ok
  | _ => True

instance : ∀ event, Decidable (ReadsSucceed event)
  | .call (.addPeer ..) script => inferInstanceAs (Decidable (∀ reply ∈ script.drop 1, reply = .ok))
  | .call .begin _ => .isTrue trivial
  | .call (.unwrap ..) _ => .isTrue trivial
  | .powerLoss => .isTrue trivial

/-- The replies to `nvs.isKey` and `nvs.getUInt` with which a stored counter is read back. -/
def RepliesReadBack (stored : Counter) : List NvsReply → Prop
  | .ok :: present :: rest => present = .ok ∧
      match rest with
      | [] => True
      | value :: _ => value = .ok ∨ stored = 0
  | _ => True

/-- A call of `asconSecureAddPeer` that gets to the registration reads back a counter that is stored. -/
def ReadsBack (world : ReceiverWorld) : ReceiverEvent → Prop
  | .call (.addPeer peerId (some key) (some noncePrefix)) script =>
      world.ram.receiverReady = true →
        ((findPeer world.ram.peers peerId).or (freePeer world.ram.peers)).isSome = true →
          ∀ stored, world.store (Credential.counterKey ⟨key, noncePrefix⟩) = some stored →
            RepliesReadBack stored script
  | _ => True

end AsconSuite
