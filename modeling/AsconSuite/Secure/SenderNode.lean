/-
Module: AsconSuite.Secure.SenderNode
Layer: Model
Purpose: The node that sends: any sequence of the sender's calls with losses of power, and the log of the
  nonces that its packets use.
Imports: AsconSuite.Base.CrashNode, AsconSuite.Secure.Provisionamento
Trusted boundary: one task at a time
Main exports: Credential, MessageNonce, SenderCall, senderNode, SenderWorld, senderStart
-/
import AsconSuite.Base.CrashNode
import AsconSuite.Secure.Provisionamento

namespace AsconSuite

open ByteWord ByteMemory CrashLogic
open Program (getRam)

/-- The key and the nonce prefix of a sender. -/
structure Credential where
  key : Key
  noncePrefix : NoncePrefix
deriving DecidableEq

/-- What makes the encryption of a message unique. -/
structure MessageNonce where
  credential : Credential
  counter : Counter
deriving DecidableEq

/-- The message counter as a number. -/
def MessageNonce.number (nonce : MessageNonce) : Nat := nonce.counter.toNat

/-- The credential in use. -/
def SenderRam.credential (ram : SenderRam) : Credential := ⟨ram.senderKey, ram.senderPrefix⟩

/-- The storage holds this credential. -/
def SenderStore.Holds (store : SenderStore) (credential : Credential) : Prop :=
  store.keyEntry = some credential.key ∧ store.prefixEntry = some credential.noncePrefix

/-- The calls of a sender. -/
inductive SenderCall where
  | provision
  | begin
  | factoryReset
  | wrap (args : WrapArgs) (mem : Mem)

/-- The nonce of the packet that a successful `asconSecureWrap` has left in memory. A packet carries its
counter in front. -/
def emittedNonces (args : WrapArgs) (result : WrapResult) : SenderProgram (List MessageNonce) := do
  let ram ← getRam
  if result.status = .ok then
    return [⟨ram.credential, readCounterBE (result.mem.view (args.packet.getD 0))⟩]
  return []

/-- A call, with the nonces that its packet uses. -/
def SenderCall.program : SenderCall → SenderProgram (List MessageNonce)
  | .provision => asconSecureProvision.silently
  | .begin => asconSecureBegin.silently
  | .factoryReset => asconSecureFactoryReset.silently
  | .wrap args mem => do
    let result ← asconSecureWrap args mem
    emittedNonces args result

/-- The sender as a node. -/
def senderNode : Node NvsReply SenderRam SenderStore SenderCall MessageNonce where
  powerOn := .initial
  program := SenderCall.program

/-- Memory, storage and the nonces used so far. -/
abbrev SenderWorld := World SenderRam SenderStore MessageNonce

/-- One event of a sender. -/
abbrev SenderEvent := Event NvsReply SenderCall

/-- A node that is switched on with this storage. A prefix found there counts as drawn. -/
def senderStart (keyEntry : Option Key) (prefixEntry : Option NoncePrefix)
    (reservedEntry : Option Counter) : SenderWorld :=
  ⟨.initial, ⟨keyEntry, prefixEntry, reservedEntry, prefixEntry.toList⟩, []⟩

end AsconSuite
