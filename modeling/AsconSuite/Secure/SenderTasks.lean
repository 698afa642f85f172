/-
Module: AsconSuite.Secure.SenderTasks
Layer: Model
Purpose: Several tasks that call `asconSecureWrap` on one node. Every critical section and every operation of
  the storage is one atomic step; the steps of different calls come in any order.
Imports: AsconSuite.Secure.SenderNode, Mathlib's finite types
Trusted boundary: a task calls `asconSecureWrap` with arguments that pass its checks; what a call does after its
  last critical section touches nothing that the tasks share
Main exports: TaskPoint, TaskWorld, taskStep, TaskEvent, tasksStep, tasksAfter,
  KeepsReservations
-/
import AsconSuite.Secure.SenderNode
import Mathlib.Data.Fintype.Defs

namespace AsconSuite

open CrashLogic

/-- Where a task is in `asconSecureWrap` and in `reserveCounters`. -/
inductive TaskPoint where
  /-- Outside, in front of the next call. -/
  | outside
  /-- In front of `nvs.begin`. -/
  | reserveBegin
  /-- In front of the critical section that computes the reservation. -/
  | reserveCompute
  /-- In front of `nvs.putUInt`. -/
  | reservePut (reservation : Counter)
  /-- In front of the critical section that takes the reservation over into memory. -/
  | reserveMerge (reservation : Counter)
  /-- In front of the critical section that takes the counter. -/
  | allocate
deriving DecidableEq

/-- What the tasks share, where each of them is, and the nonces used so far. -/
structure TaskWorld (τ : Type) where
  ram : SenderRam
  store : SenderStore
  points : τ → TaskPoint
  log : List MessageNonce

variable {τ : Type} [DecidableEq τ]

/-- The task goes on to a point. -/
def TaskWorld.goTo (world : TaskWorld τ) (task : τ) (point : TaskPoint) : TaskWorld τ :=
  { world with points := Function.update world.points task point }

/-- The next atomic step of a task. The reply is that of the storage, where the step needs one. A counter is
logged when it is taken. -/
def taskStep (world : TaskWorld τ) (task : τ) (reply : NvsReply) : TaskWorld τ :=
  match world.points task with
  | .outside =>
      if !world.ram.senderReady then world
      else if counterLimit ≤ world.ram.senderCounter then world
      else if world.ram.senderReserved ≤ world.ram.senderCounter then world.goTo task .reserveBegin
      else world.goTo task .allocate
  | .reserveBegin =>
      if reply = .ok then world.goTo task .reserveCompute else world.goTo task .outside
  | .reserveCompute =>
      world.goTo task (.reservePut (world.ram.senderCounter + counterWindow))
  | .reservePut reservation =>
      let (written, store) := putOutcome
        (fun store => { store with reservedEntry := some reservation }) reply world.store
      { world with store }.goTo task (if written then .reserveMerge reservation else .outside)
  | .reserveMerge reservation =>
      let ram := if world.ram.senderReserved < reservation then
        { world.ram with senderReserved := reservation } else world.ram
      { world with ram }.goTo task .allocate
  | .allocate =>
      if counterLimit ≤ world.ram.senderCounter ∨
          world.ram.senderReserved ≤ world.ram.senderCounter then
        world.goTo task .outside
      else
        { world with
          ram := { world.ram with senderCounter := world.ram.senderCounter + 1 }
          log := world.log ++ [MessageNonce.mk world.ram.credential world.ram.senderCounter] }.goTo task
            .outside

/-- A step of a task, or a loss of power, after which one task calls `asconSecureBegin`. -/
inductive TaskEvent (τ : Type) where
  | step (task : τ) (reply : NvsReply)
  | reboot (script : List NvsReply)

/-- One event of the node. -/
def tasksStep (world : TaskWorld τ) : TaskEvent τ → TaskWorld τ
  | .step task reply => taskStep world task reply
  | .reboot script =>
      match asconSecureBegin .initial world.store script with
      | .returned _ ram store _ => ⟨ram, store, fun _ => .outside, world.log⟩
      | .powerLost store => ⟨.initial, store, fun _ => .outside, world.log⟩

/-- The node before it is switched on for the first time. -/
def tasksOff (store : SenderStore) : TaskWorld τ := ⟨.initial, store, fun _ => .outside, []⟩

/-- The world after a run. -/
def tasksAfter (store : SenderStore) (events : List (TaskEvent τ)) : TaskWorld τ :=
  Runs.after tasksStep (tasksOff store) events

/-- A reservation that the task has written and not yet taken over into memory is at most the bound. -/
def TaskPoint.unmergedAtMost (bound : Counter) : TaskPoint → Bool
  | .reserveMerge unmerged => decide (unmerged ≤ bound)
  | _ => true

/-- A task at this point does not write a reservation to the storage that is below the one in memory, or
below one that another task has written and not yet taken over into memory. From `counterLimit` on it may. -/
def TaskWorld.PutKeeps (world : TaskWorld τ) (reply : NvsReply) : TaskPoint → Prop
  | .reservePut reservation => reply = .ok ∨ reply = .failWritten →
      counterLimit ≤ reservation ∨ (world.ram.senderReserved ≤ reservation ∧
        ∀ other, (world.points other).unmergedAtMost reservation = true)
  | _ => True

instance [Fintype τ] (world : TaskWorld τ) (reply : NvsReply) :
    ∀ point, Decidable (world.PutKeeps reply point)
  | .reservePut reservation => inferInstanceAs (Decidable (reply = .ok ∨ reply = .failWritten →
      counterLimit ≤ reservation ∨ (world.ram.senderReserved ≤ reservation ∧
        ∀ other, (world.points other).unmergedAtMost reservation = true)))
  | .outside | .reserveBegin | .reserveCompute | .reserveMerge _ | .allocate => .isTrue trivial

/-- An event after which every reservation in use is still stored. -/
def KeepsReservations (world : TaskWorld τ) : TaskEvent τ → Prop
  | .step task reply => world.PutKeeps reply (world.points task)
  | .reboot _ => True

instance [Fintype τ] (world : TaskWorld τ) : ∀ event, Decidable (KeepsReservations world event)
  | .step task reply => inferInstanceAs (Decidable (world.PutKeeps reply (world.points task)))
  | .reboot _ => .isTrue trivial

end AsconSuite
