/-
Module: AsconSuite.Secure.Emissor
Layer: Model
Purpose: The sender, `AsconSecureEmissor.cpp`. The calls are those of one task; every critical section is a
  step of the program.
Imports: AsconSuite.Secure.Nvs
Trusted boundary: a read that fails leaves its buffer as it was; log output is left out
Main exports: SenderStore, SenderRam, loadSenderState, reserveCounters, asconSecureBegin, takeCounter,
  asconSecureWrap
-/
import AsconSuite.Secure.Nvs

namespace AsconSuite

open ByteWord ByteMemory CrashLogic

/-- The sender's entries in the storage, `k`, `p` and `ctr` of the namespace `ascon-sec`, and the nonce
prefixes that the random number generator has given so far. -/
structure SenderStore where
  keyEntry : Option Key
  prefixEntry : Option NoncePrefix
  reservedEntry : Option Counter
  drawnPrefixes : List NoncePrefix
deriving DecidableEq

/-- The variables of the sender. -/
structure SenderRam where
  senderReady : Bool
  senderKey : Key
  senderPrefix : NoncePrefix
  senderCounter : Counter
  senderReserved : Counter
deriving DecidableEq

/-- The variables as they are when the program starts. -/
def SenderRam.initial : SenderRam where
  senderReady := false
  senderKey := Vector.replicate _ 0
  senderPrefix := Vector.replicate _ 0
  senderCounter := 0
  senderReserved := 0

/-- A program of the sender. -/
abbrev SenderProgram := Program NvsReply SenderRam SenderStore

open Program (getRam modifyRam)

/-- `nvs.putUInt(NVS_RESERVED, value)`. -/
def putReserved (value : Counter) : SenderProgram Bool :=
  nvsPut fun store => { store with reservedEntry := some value }

/-- `loadSenderState`. -/
def loadSenderState : SenderProgram AsconSecureStatus := do
  modifyRam fun ram => { ram with senderReady := false }
  if !(← nvsBegin) then
    return .errNvs
  if !(← nvsIsKey fun store => store.keyEntry.isSome) then
    return .errNotProvisioned
  match ← nvsGetBytes fun store => store.keyEntry with
  | none => return .errNvs
  | some key =>
    modifyRam fun ram => { ram with senderKey := key }
    match ← nvsGetBytes fun store => store.prefixEntry with
    | none => return .errNvs
    | some noncePrefix =>
      modifyRam fun ram => { ram with senderPrefix := noncePrefix }
      let reserved ← nvsGetUInt (fun store => store.reservedEntry) 0
      if reserved < counterWindow then
        modifyRam fun ram =>
          { ram with senderKey := Vector.replicate _ 0, senderPrefix := Vector.replicate _ 0 }
        return .errNvs
      modifyRam fun ram =>
        { ram with senderCounter := reserved, senderReserved := reserved, senderReady := true }
      return .ok

/-- `asconSecureBegin`. -/
def asconSecureBegin : SenderProgram AsconSecureStatus := loadSenderState

/-- `reserveCounters`. -/
def reserveCounters : SenderProgram AsconSecureStatus := do
  if !(← nvsBegin) then
    return .errNvs
  let ram ← getRam
  let reservation := ram.senderCounter + counterWindow
  if !(← putReserved reservation) then
    return .errNvs
  modifyRam fun ram =>
    if ram.senderReserved < reservation then { ram with senderReserved := reservation } else ram
  return .ok

/-- The last critical section of `asconSecureWrap`: check again, and take the counter. -/
def allocateCounter : SenderProgram (Except AsconSecureStatus Counter) := do
  let ram ← getRam
  if counterLimit ≤ ram.senderCounter then
    return .error .errExhausted
  if ram.senderReserved ≤ ram.senderCounter then
    return .error .errNvs
  modifyRam fun ram => { ram with senderCounter := ram.senderCounter + 1 }
  return .ok ram.senderCounter

/-- The part of `asconSecureWrap` that decides on a counter. -/
def takeCounter : SenderProgram (Except AsconSecureStatus Counter) := do
  let ram ← getRam
  let exhausted := counterLimit ≤ ram.senderCounter
  let needsReservation := ram.senderReserved ≤ ram.senderCounter
  if exhausted then
    return .error .errExhausted
  let status ← if needsReservation then reserveCounters else pure .ok
  if status ≠ .ok then
    return .error status
  allocateCounter

/-- The arguments of `asconSecureWrap`. A pointer is `none` when it is `NULL`. -/
structure WrapArgs where
  payload : Option Nat
  payloadLength : Nat
  header : Option Nat
  headerLength : Nat
  packet : Option Nat
  packetCapacity : Nat
  packetLengthGiven : Bool

/-- What `asconSecureWrap` leaves behind: the status, the memory and `*packetLength`. -/
structure WrapResult where
  status : AsconSecureStatus
  mem : Mem
  packetLength : Option Nat

/-- The end of `asconSecureWrap`: the payload is moved to its place in the packet and encrypted there, and
the counter is written in front of it. The result is the memory and `cipherLength`. -/
def sealPacket (key : Key) (noncePrefix : NoncePrefix) (counter : Counter) (mem : Mem)
    (payload payloadLength header headerLength packet : Nat) : Mem × Nat :=
  let nonce := buildNonce noncePrefix counter
  let cipherStart := packet + secureCounterBytes
  let mem := mem.write cipherStart (mem.read payload payloadLength)
  let (mem, cipherLength) := ascon128aAeadEncrypt mem cipherStart cipherStart payloadLength
    (mem.view header) headerLength nonce (arrayPtr key)
  (writeCounterBE mem packet counter, cipherLength)

/-- `asconSecureWrap`. -/
def asconSecureWrap (args : WrapArgs) (mem : Mem) : SenderProgram WrapResult := do
  let packetLength := if args.packetLengthGiven then some 0 else none
  let ram ← getRam
  if !ram.senderReady then
    return ⟨.errNotReady, mem, packetLength⟩
  match args.payload, args.packet, args.packetLengthGiven with
  | some payload, some packet, true =>
    if args.header = none ∧ 0 < args.headerLength then
      return ⟨.errBuffer, mem, packetLength⟩
    if secureMaxPayload < args.payloadLength ∨
        args.packetCapacity < args.payloadLength + secureOverhead then
      return ⟨.errBuffer, mem, packetLength⟩
    let header := args.header.getD 0
    if rangesOverlap header args.headerLength packet args.packetCapacity then
      return ⟨.errBuffer, mem, packetLength⟩
    match ← takeCounter with
    | .error status => return ⟨status, mem, packetLength⟩
    | .ok counter =>
      let ram ← getRam
      let (mem, cipherLength) := sealPacket ram.senderKey ram.senderPrefix counter mem payload
        args.payloadLength header args.headerLength packet
      return ⟨.ok, mem, some (secureCounterBytes + cipherLength)⟩
  | _, _, _ => return ⟨.errBuffer, mem, packetLength⟩

end AsconSuite
