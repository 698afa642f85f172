/-
Module: AsconSuite.Secure.Atalhos
Layer: Model
Purpose: The shortcuts `asconSecurePack` and `asconSecureOpen`, `AsconSecureAtalhos.cpp`. The local variable
  `result` has an address like every buffer.
Imports: AsconSuite.Secure.Emissor, AsconSuite.Secure.Receptor
Trusted boundary: log output is left out
Main exports: AsconBytes, emptyResult, asconSecurePack, CString, asconSecurePackText, asconSecureOpen
-/
import AsconSuite.Secure.Emissor
import AsconSuite.Secure.Receptor

namespace AsconSuite

open ByteWord ByteMemory CrashLogic

/-- `AsconBytes`, with its array `data` of `ASCON_SECURE_MAX_PACKET` bytes. -/
structure AsconBytes where
  data : List Byte
  length : Nat
  status : AsconSecureStatus
deriving DecidableEq

/-- `emptyResult`. -/
def emptyResult (status : AsconSecureStatus) : AsconBytes where
  data := List.replicate secureMaxPacket 0
  length := 0
  status := status

/-- `asconSecurePack` of a payload with its length, where the local `result.data` is at address `data`. -/
def asconSecurePack (mem : Mem) (data : Nat) (payload : Option Nat) (payloadLength : Nat) :
    SenderProgram AsconBytes := do
  let mem := mem.write data (List.replicate secureMaxPacket 0)
  let result ← asconSecureWrap
    { payload := payload, payloadLength := payloadLength, header := none, headerLength := 0,
      packet := some data, packetCapacity := secureMaxPacket, packetLengthGiven := true } mem
  if result.status ≠ .ok then
    return emptyResult result.status
  return ⟨result.mem.read data secureMaxPacket, result.packetLength.getD 0, result.status⟩

/-- A text that ends in a byte of zero: `length` is what `strlen` returns. -/
structure CString (mem : Mem) where
  start : Nat
  length : Nat
  nonzero : ∀ i < length, mem (start + i) ≠ 0
  terminated : mem (start + length) = 0

/-- `asconSecurePack` of a text. -/
def asconSecurePackText (mem : Mem) (data : Nat) (text : Option (CString mem)) :
    SenderProgram AsconBytes :=
  match text with
  | none => return emptyResult .errBuffer
  | some text => asconSecurePack mem data (some text.start) text.length

/-- `asconSecureOpen`, where the local `result.data` is at address `data`. -/
def asconSecureOpen (mem : Mem) (data : Nat) (peerId : Byte) (packet : Option Nat)
    (packetLength : Nat) : ReceiverProgram AsconBytes := do
  if packetLength = 0 then
    return emptyResult .empty
  let mem := mem.write data (List.replicate secureMaxPacket 0)
  let result ← asconSecureUnwrap
    { peerId := peerId, packet := packet, packetLength := packetLength, header := none,
      headerLength := 0, payload := some data, payloadCapacity := secureMaxPayload,
      payloadLengthGiven := true } mem
  if result.status ≠ .ok then
    return emptyResult result.status
  return ⟨result.mem.read data secureMaxPacket, result.payloadLength.getD 0, result.status⟩

end AsconSuite
