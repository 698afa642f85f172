/-
Module: AsconSuite.Secure.Receptor
Layer: Model
Purpose: The receiver, `AsconSecureReceptor.cpp`: the table of peers, and the acceptance of packets.
Imports: AsconSuite.Secure.Nvs
Trusted boundary: the local buffer of `asconSecureUnwrap` does not overlap the caller's; log output is left
  out
Main exports: Peer, ReceiverRam, ReceiverStore, findPeer, counterKeyFor, asconSecureReceiverBegin,
  asconSecureAddPeer, asconSecureUnwrap
-/
import AsconSuite.Secure.Nvs

namespace AsconSuite

open ByteWord ByteMemory CrashLogic
open Program (getRam modifyRam)

/-- `Peer`. -/
structure Peer where
  used : Bool
  id : Byte
  key : Key
  noncePrefix : NoncePrefix
  fingerprint : List Byte
  hasAccepted : Bool
  lastAccepted : Counter
deriving DecidableEq

/-- A peer of zeroes. -/
def Peer.zero : Peer where
  used := false
  id := 0
  key := Vector.replicate _ 0
  noncePrefix := Vector.replicate _ 0
  fingerprint := List.replicate 8 0
  hasAccepted := false
  lastAccepted := 0

/-- The variables of the receiver. -/
structure ReceiverRam where
  receiverReady : Bool
  peers : Fin maxPeers → Peer

/-- The variables as they are when the program starts. -/
def ReceiverRam.initial : ReceiverRam where
  receiverReady := false
  peers := fun _ => .zero

/-- The receiver's entries in the storage, the namespace `ascon-rx`: an accepted counter under each counter
key. -/
abbrev ReceiverStore := List Char → Option Counter

/-- A program of the receiver. -/
abbrev ReceiverProgram := Program NvsReply ReceiverRam ReceiverStore

/-- `findPeer`. -/
def findPeer (peers : Fin maxPeers → Peer) (peerId : Byte) : Option (Fin maxPeers) :=
  (List.finRange maxPeers).find? fun i => (peers i).used && decide ((peers i).id = peerId)

/-- The first place of the table that is not in use. -/
def freePeer (peers : Fin maxPeers → Peer) : Option (Fin maxPeers) :=
  (List.finRange maxPeers).find? fun i => !(peers i).used

/-- The character of four bits, `digits`. -/
def hexDigit (nibble : Byte) : Char :=
  ['0', '1', '2', '3', '4', '5', '6', '7', '8', '9', 'a', 'b', 'c', 'd', 'e', 'f'].getD nibble.toNat '0'

/-- The two digits of a byte. -/
def hexByte (b : Byte) : List Char := [hexDigit (b >>> 4), hexDigit (b &&& 0x0F)]

/-- `counterKeyFor`, of the first seven bytes of the fingerprint. -/
def counterKeyFor (fingerprint : List Byte) : List Char :=
  'c' :: (fingerprint.take 7).flatMap hexByte

/-- `receiverBeginImpl`. -/
def receiverBeginImpl : ReceiverProgram AsconSecureStatus := do
  modifyRam fun ram => { ram with peers := fun _ => .zero }
  if !(← nvsBegin) then
    modifyRam fun ram => { ram with receiverReady := false }
    return .errNvs
  modifyRam fun ram => { ram with receiverReady := true }
  return .ok

/-- `asconSecureReceiverBegin`. -/
def asconSecureReceiverBegin : ReceiverProgram AsconSecureStatus := receiverBeginImpl

/-- `nvs.isKey(counterKey)`. -/
def hasCounter (counterKey : List Char) : ReceiverProgram Bool :=
  nvsIsKey fun store => (store counterKey).isSome

/-- `nvs.getUInt(counterKey, 0)`. -/
def getCounter (counterKey : List Char) : ReceiverProgram Counter :=
  nvsGetUInt (fun store => store counterKey) 0

/-- `nvs.putUInt(counterKey, counter)`. -/
def putCounter (counterKey : List Char) (counter : Counter) : ReceiverProgram Bool :=
  nvsPut fun store => Function.update store counterKey (some counter)

/-- `addPeerImpl`. -/
def addPeerImpl (peerId : Byte) (key : Option Key) (noncePrefix : Option NoncePrefix) :
    ReceiverProgram AsconSecureStatus := do
  let ram ← getRam
  if !ram.receiverReady then
    return .errNotReady
  match key, noncePrefix with
  | some key, some noncePrefix =>
    let fingerprint := keyFingerprint key noncePrefix
    match (findPeer ram.peers peerId).or (freePeer ram.peers) with
    | none => return .errFull
    | some peer =>
      let counterKey := counterKeyFor fingerprint
      if !(← nvsBegin) then
        return .errNvs
      let hasAccepted ← hasCounter counterKey
      let lastAccepted ← if hasAccepted then getCounter counterKey else pure 0
      modifyRam fun ram =>
        { ram with
          peers := Function.update ram.peers peer
            ⟨true, peerId, key, noncePrefix, fingerprint, hasAccepted, lastAccepted⟩ }
      return .ok
  | _, _ => return .errBuffer

/-- `asconSecureAddPeer`. -/
def asconSecureAddPeer := addPeerImpl

/-- The arguments of `asconSecureUnwrap`. A pointer is `none` when it is `NULL`. -/
structure UnwrapArgs where
  peerId : Byte
  packet : Option Nat
  packetLength : Nat
  header : Option Nat
  headerLength : Nat
  payload : Option Nat
  payloadCapacity : Nat
  payloadLengthGiven : Bool

/-- What `asconSecureUnwrap` leaves behind: the status, the memory and `*payloadLength`. -/
structure UnwrapResult where
  status : AsconSecureStatus
  mem : Mem
  payloadLength : Option Nat

/-- The decryption in `asconSecureUnwrap`, into the local buffer `scratch`: the bytes recovered, if the tag
is right. The buffer is at address 0 of a memory of its own, and the ciphertext behind it. -/
def openPacket (peer : Peer) (mem : Mem) (packet packetLength header headerLength : Nat) :
    Option (List Byte) :=
  let cipherLength := packetLength - secureCounterBytes
  let counter := readCounterBE (mem.view packet)
  let nonce := buildNonce peer.noncePrefix counter
  let scratch : Mem := fun a =>
    if a < secureMaxPayload then 0 else mem (packet + secureCounterBytes + (a - secureMaxPayload))
  let opened := ascon128aAeadDecrypt scratch 0 secureMaxPayload cipherLength (mem.view header)
    headerLength nonce (arrayPtr peer.key)
  if opened.result < 0 then none else some (opened.mem.read 0 (opened.mlen.getD 0))

/-- The last loop of `asconSecureUnwrap`: all entries with the same key move on together. -/
def acceptCounter (peers : Fin maxPeers → Peer) (fingerprint : List Byte) (counter : Counter) :
    Fin maxPeers → Peer := fun i =>
  if (peers i).used ∧ (peers i).fingerprint = fingerprint then
    { peers i with hasAccepted := true, lastAccepted := counter }
  else peers i

/-- `persisted` in `asconSecureUnwrap`. -/
def persistCounter (counterKey : List Char) (counter : Counter) : ReceiverProgram Bool := do
  if !(← nvsBegin) then
    return false
  putCounter counterKey counter

/-- `asconSecureUnwrap`. -/
def asconSecureUnwrap (args : UnwrapArgs) (mem : Mem) : ReceiverProgram UnwrapResult := do
  let payloadLength := if args.payloadLengthGiven then some 0 else none
  let ram ← getRam
  if !ram.receiverReady then
    return ⟨.errNotReady, mem, payloadLength⟩
  match args.packet, args.payload, args.payloadLengthGiven with
  | some packet, some payload, true =>
    if args.header = none ∧ 0 < args.headerLength then
      return ⟨.errBuffer, mem, payloadLength⟩
    match findPeer ram.peers args.peerId with
    | none => return ⟨.errPeer, mem, payloadLength⟩
    | some i =>
      let peer := ram.peers i
      if args.packetLength < secureOverhead ∨
          secureMaxPayload < args.packetLength - secureOverhead then
        return ⟨.errBuffer, mem, payloadLength⟩
      let plainLength := args.packetLength - secureOverhead
      if args.payloadCapacity < plainLength then
        return ⟨.errBuffer, mem, payloadLength⟩
      let counter := readCounterBE (mem.view packet)
      match openPacket peer mem packet args.packetLength (args.header.getD 0) args.headerLength with
      | none => return ⟨.errAuth, mem, payloadLength⟩
      | some scratch =>
        if peer.hasAccepted ∧ counter ≤ peer.lastAccepted then
          return ⟨.errReplay, mem, payloadLength⟩
        if !(← persistCounter (counterKeyFor peer.fingerprint) counter) then
          return ⟨.errNvs, mem, payloadLength⟩
        modifyRam fun ram =>
          { ram with peers := acceptCounter ram.peers peer.fingerprint counter }
        return ⟨.ok, mem.write payload scratch, some scratch.length⟩
  | _, _, _ => return ⟨.errBuffer, mem, payloadLength⟩

end AsconSuite
