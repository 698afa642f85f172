/-
Module: AsconSuite.Secure.Provisionamento
Layer: Model
Purpose: Provisioning and factory reset of the sender, `AsconSecureProvisionamento.cpp`.
Imports: AsconSuite.Secure.Emissor
Trusted boundary: the material the random number generator gives; printing is left out
Main exports: randomBytes, asconSecureProvision, asconSecureFactoryReset
-/
import AsconSuite.Secure.Emissor

namespace AsconSuite

open CrashLogic
open Program (modifyRam)

/-- `randomBytes` for a key and a nonce prefix. -/
def randomBytes : SenderProgram (Option (Key × NoncePrefix)) :=
  Program.ask fun reply store =>
    match reply with
    | .drawn key noncePrefix =>
        (some (key, noncePrefix),
          { store with drawnPrefixes := store.drawnPrefixes ++ [noncePrefix] })
    | _ => (none, store)

/-- `nvs.putBytes(NVS_PREFIX, ..)`. -/
def putPrefix (noncePrefix : NoncePrefix) : SenderProgram Bool :=
  nvsPut fun store => { store with prefixEntry := some noncePrefix }

/-- `nvs.putBytes(NVS_KEY, ..)`. -/
def putKey (key : Key) : SenderProgram Bool :=
  nvsPut fun store => { store with keyEntry := some key }

/-- `nvs.clear()`. -/
def nvsClear : SenderProgram Bool :=
  Program.ask fun reply store =>
    match reply with
    | .ok => (true, { store with keyEntry := none, prefixEntry := none, reservedEntry := none })
    | .failCleared keyKept prefixKept reservedKept =>
        (false, { store with
          keyEntry := if keyKept then store.keyEntry else none
          prefixEntry := if prefixKept then store.prefixEntry else none
          reservedEntry := if reservedKept then store.reservedEntry else none })
    | _ => (false, store)

/-- The chain of `&&` in `provisionImpl`: the key is written last and marks a complete provisioning. -/
def writeMaterial (key : Key) (noncePrefix : NoncePrefix) : SenderProgram Bool := do
  if !(← putPrefix noncePrefix) then
    return false
  if !(← putReserved counterWindow) then
    return false
  putKey key

/-- `provisionImpl`. -/
def provisionImpl : SenderProgram AsconSecureStatus := do
  if !(← nvsBegin) then
    return .errNvs
  if !(← nvsIsKey fun store => store.keyEntry.isSome) then
    match ← randomBytes with
    | none => return .errRng
    | some (key, noncePrefix) =>
      if !(← writeMaterial key noncePrefix) then
        return .errNvs
      loadSenderState
  else
    loadSenderState

/-- `asconSecureProvision`. -/
def asconSecureProvision : SenderProgram AsconSecureStatus := provisionImpl

/-- `factoryResetImpl`. -/
def factoryResetImpl : SenderProgram AsconSecureStatus := do
  if !(← nvsBegin) then
    return .errNvs
  if !(← nvsClear) then
    return .errNvs
  modifyRam fun _ => .initial
  return .ok

/-- `asconSecureFactoryReset`. -/
def asconSecureFactoryReset : SenderProgram AsconSecureStatus := factoryResetImpl

end AsconSuite
