/-
Module: AsconSuite.Secure.Nvs
Layer: Model
Purpose: The non-volatile storage that `Preferences` gives access to. Each operation takes its outcome from a
  reply of the flash. A `put` that reports an error may have written all the same.
Imports: AsconSuite.Base.CrashLogic, AsconSuite.Secure.Comum
Trusted boundary: a `put` that reports success is durable, and a `get` that reports success returns what is
  stored
Main exports: NvsReply, nvsBegin, nvsIsKey, nvsGetBytes, nvsGetUInt, putOutcome, nvsPut
-/
import AsconSuite.Base.CrashLogic
import AsconSuite.Secure.Comum

namespace AsconSuite

open CrashLogic

/-- What the flash, or the random number generator, answers to one operation. A reply that does not suit the
operation counts as `fail`. -/
inductive NvsReply where
  /-- The operation succeeds. -/
  | ok
  /-- The operation reports an error and has no effect. -/
  | fail
  /-- A `put` reports an error, but the new value is stored. -/
  | failWritten
  /-- A `clear` reports an error and has removed some of the entries: those marked `true` are still there. -/
  | failCleared (keyKept prefixKept reservedKept : Bool)
  /-- The generator gives the material of a key and a nonce prefix. -/
  | drawn (key : Key) (noncePrefix : NoncePrefix)
deriving DecidableEq

variable {R S β : Type}

/-- `Preferences::begin`. -/
def nvsBegin : Program NvsReply R S Bool :=
  Program.ask fun reply store => (decide (reply = .ok), store)

/-- `Preferences::isKey`, which answers `false` when the entry cannot be read. -/
def nvsIsKey (present : S → Bool) : Program NvsReply R S Bool :=
  Program.ask fun reply store => (decide (reply = .ok) && present store, store)

/-- `Preferences::getBytes`: the entry, when all of its bytes were read. -/
def nvsGetBytes (entry : S → Option β) : Program NvsReply R S (Option β) :=
  Program.ask fun reply store => (if reply = .ok then entry store else none, store)

/-- `Preferences::getUInt` with its default value. -/
def nvsGetUInt (entry : S → Option Counter) (defaultValue : Counter) :
    Program NvsReply R S Counter :=
  Program.ask fun reply store =>
    (if reply = .ok then (entry store).getD defaultValue else defaultValue, store)

/-- What a `put` reports and what it leaves, for each reply. -/
def putOutcome (write : S → S) (reply : NvsReply) (store : S) : Bool × S :=
  match reply with
  | .ok => (true, write store)
  | .failWritten => (false, write store)
  | _ => (false, store)

/-- `Preferences::putBytes` and `Preferences::putUInt`: whether the whole value was reported written. -/
def nvsPut (write : S → S) : Program NvsReply R S Bool :=
  Program.ask (putOutcome write)

end AsconSuite
