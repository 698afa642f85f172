/-
Module: AsconSuite.Base.CrashNode
Layer: Base (library)
Purpose: A node that runs one program after another over volatile memory and durable storage, with a loss of
  power inside of a program or between two, and a log of what its programs have given away.
Imports: AsconSuite.Base.CrashLogic, AsconSuite.Base.Runs
Trusted boundary: none
Main exports: World, Event, Node, Node.step, Node.after, Node.invariant_after, Node.after_mapLog
-/
import AsconSuite.Base.CrashLogic
import AsconSuite.Base.Runs

namespace CrashLogic

universe u

/-- Volatile memory, durable storage, and the log of a run. -/
structure World (R S ε : Type*) where
  ram : R
  store : S
  log : List ε

/-- The world with a log that says less about its entries. -/
def World.mapLog {R S ε δ : Type*} (less : ε → δ) (world : World R S ε) : World R S δ :=
  ⟨world.ram, world.store, world.log.map less⟩

/-- A call with the replies of its storage operations, or a loss of power between two calls. -/
inductive Event (ρ κ : Type*) where
  | call (name : κ) (script : List ρ)
  | powerLoss

/-- A node: its memory after power-on, and for each call a program that returns what the call gives away. -/
structure Node (ρ R S κ : Type*) (ε : Type u) where
  powerOn : R
  program : κ → Program ρ R S (List ε)

/-- A call that gives nothing away. -/
def Program.silently {ρ R S : Type*} {α ε : Type u} (program : Program ρ R S α) :
    Program ρ R S (List ε) := do
  let _ ← program
  return []

theorem silently_returned {ρ R S : Type*} {α ε : Type u} {program : Program ρ R S α} {ram ram' : R}
    {store store' : S} {script rest : List ρ} {value : α}
    (ended : program ram store script = .returned value ram' store' rest) :
    (program.silently : Program ρ R S (List ε)) ram store script = .returned [] ram' store' rest := by
  apply eq_of_wp
  rw [Program.silently, wp_bind, wp, ended]
  rfl

theorem silently_map {ρ R S : Type*} {α ε δ : Type u} (program : Program ρ R S α) (less : ε → δ) :
    ((program.silently : Program ρ R S (List ε)) >>= fun given => pure (given.map less)) = program.silently := by
  rw [Program.silently, Program.silently, bind_assoc]
  rfl

theorem silently_forget {ρ R S : Type*} {α ε : Type u} (program : Program ρ R S α) :
    ((program.silently : Program ρ R S (List ε)) >>= fun _ => pure PUnit.unit) =
      program >>= fun _ => (pure PUnit.unit : Program ρ R S PUnit.{u + 1}) := by
  rw [Program.silently, bind_assoc]
  rfl

namespace Node

variable {ρ R S κ : Type*} {ε : Type u} (node : Node ρ R S κ ε)

/-- One event. A call whose power is lost gives nothing away. -/
def step (world : World R S ε) : Event ρ κ → World R S ε
  | .call name script =>
      match node.program name world.ram world.store script with
      | .returned given ram store _ => ⟨ram, store, world.log ++ given⟩
      | .powerLost store => ⟨node.powerOn, store, world.log⟩
  | .powerLoss => { world with ram := node.powerOn }

theorem step_of_returned {world : World R S ε} {name : κ} {script rest : List ρ} {given : List ε}
    {ram : R} {store : S}
    (ended : node.program name world.ram world.store script = .returned given ram store rest) :
    node.step world (.call name script) = ⟨ram, store, world.log ++ given⟩ := by
  rw [step, ended]

/-- A log only grows. -/
theorem log_step (world : World R S ε) (event : Event ρ κ) :
    ∃ given, (node.step world event).log = world.log ++ given := by
  cases event with
  | powerLoss => exact ⟨[], (List.append_nil _).symm⟩
  | call name script =>
      rw [Node.step]
      cases node.program name world.ram world.store script with
      | returned given ram store rest => exact ⟨given, rfl⟩
      | powerLost store => exact ⟨[], (List.append_nil _).symm⟩

/-- The world after a run. -/
def after (world : World R S ε) (events : List (Event ρ κ)) : World R S ε :=
  Runs.after node.step world events

theorem after_append (world : World R S ε) (earlier later : List (Event ρ κ)) :
    node.after world (earlier ++ later) = node.after (node.after world earlier) later :=
  Runs.after_append earlier later

theorem after_singleton (world : World R S ε) (event : Event ρ κ) :
    node.after world [event] = node.step world event := rfl

/-- Every event of the run meets the condition. -/
def Along (condition : World R S ε → Event ρ κ → Prop) (world : World R S ε)
    (events : List (Event ρ κ)) : Prop :=
  Runs.Along node.step condition world events

variable {node} {inv : R → S → List ε → Prop} {condition : World R S ε → Event ρ κ → Prop}

/-- What a call has to establish for the invariant. -/
def Preserves (node : Node ρ R S κ ε) (inv : R → S → List ε → Prop) (name : κ) (world : World R S ε)
    (script : List ρ) : Prop :=
  wp (node.program name) (fun given ram store _ => inv ram store (world.log ++ given))
    (fun store => inv node.powerOn store world.log) world.ram world.store script

/-- A call that gives nothing away is verified for the log as it is. -/
theorem preserves_silently {α : Type u} {program : Program ρ R S α} {name : κ}
    {world : World R S ε} {script : List ρ} (silent : node.program name = program.silently)
    (verified : wp program (fun _ ram store _ => inv ram store world.log)
      (fun store => inv node.powerOn store world.log) world.ram world.store script) :
    node.Preserves inv name world script := by
  rw [Preserves, silent, Program.silently, wp_bind]
  refine wp_mono verified ?_ fun _ => id
  intro _ ram store rest holds
  rw [wp_pure, List.append_nil]
  exact holds

/-- A verified call keeps the invariant. -/
theorem inv_step_call {world : World R S ε} {name : κ} {script : List ρ}
    (verified : node.Preserves inv name world script) :
    inv (node.step world (.call name script)).ram (node.step world (.call name script)).store
      (node.step world (.call name script)).log := by
  cases ended : node.program name world.ram world.store script with
  | returned given ram store rest =>
      have kept := wp_returned verified ended
      simpa only [step, ended] using kept
  | powerLost store =>
      have kept := wp_powerLost verified ended
      simpa only [step, ended] using kept

/-- An invariant that every call keeps, and that survives a loss of power, holds after every run. -/
theorem invariant_after {world : World R S ε} {events : List (Event ρ κ)}
    (calls : ∀ world name script, inv world.ram world.store world.log →
      condition world (.call name script) → node.Preserves inv name world script)
    (loss : ∀ ram store log, inv ram store log → inv node.powerOn store log)
    (start : inv world.ram world.store world.log) (along : node.Along condition world events) :
    inv (node.after world events).ram (node.after world events).store
      (node.after world events).log := by
  refine Runs.invariant_after (fun world => inv world.ram world.store world.log) ?_ start along
  intro world event holds meets
  cases event with
  | call name script => exact inv_step_call (calls world name script holds meets)
  | powerLoss => exact loss _ _ _ holds

/-! ### Logs that say less -/

/-- The node that runs the same calls and logs less about them. -/
def Coarser {δ : Type u} (coarse : Node ρ R S κ δ) (node : Node ρ R S κ ε) (less : ε → δ) : Prop :=
  coarse.powerOn = node.powerOn ∧
    ∀ name, coarse.program name = node.program name >>= fun given => pure (given.map less)

theorem step_mapLog {δ : Type u} {coarse : Node ρ R S κ δ} {node : Node ρ R S κ ε} {less : ε → δ}
    (coarser : Coarser coarse node less) (world : World R S ε) (event : Event ρ κ) :
    coarse.step (world.mapLog less) event = (node.step world event).mapLog less := by
  cases event with
  | powerLoss =>
      rw [step, step, coarser.1]
      rfl
  | call name script =>
      have bound : coarse.program name world.ram world.store script =
          Program.bind (node.program name) (fun given => pure (given.map less)) world.ram world.store script := by
        rw [coarser.2]
        rfl
      rw [step, step]
      change (match coarse.program name world.ram world.store script with
        | .returned given ram store _ => (⟨ram, store, world.log.map less ++ given⟩ : World R S δ)
        | .powerLost store => ⟨coarse.powerOn, store, world.log.map less⟩) = _
      rw [bound, Program.bind, coarser.1]
      cases node.program name world.ram world.store script with
      | returned given ram store rest =>
          rw [World.mapLog, List.map_append]
          rfl
      | powerLost store => rfl

theorem after_mapLog {δ : Type u} {coarse : Node ρ R S κ δ} {node : Node ρ R S κ ε} {less : ε → δ}
    (coarser : Coarser coarse node less) (world : World R S ε) (events : List (Event ρ κ)) :
    coarse.after (world.mapLog less) events = (node.after world events).mapLog less := by
  induction events generalizing world with
  | nil => rfl
  | cons event events ih =>
      rw [after, Runs.after_cons, step_mapLog coarser]
      exact ih (node.step world event)

/-- Two nodes run the same calls, whatever they log about them. -/
def SameCalls {δ : Type u} (node : Node ρ R S κ ε) (other : Node ρ R S κ δ) : Prop :=
  node.powerOn = other.powerOn ∧
    ∀ name, (node.program name >>= fun _ => pure PUnit.unit) = (other.program name >>= fun _ => pure PUnit.unit)

theorem step_sameCalls {δ : Type u} {node : Node ρ R S κ ε} {other : Node ρ R S κ δ} (same : SameCalls node other)
    {world : World R S ε} {world' : World R S δ} (ram : world.ram = world'.ram) (store : world.store = world'.store)
    (event : Event ρ κ) : (node.step world event).ram = (other.step world' event).ram ∧
      (node.step world event).store = (other.step world' event).store := by
  cases event with
  | powerLoss => exact ⟨same.1, store⟩
  | call name script =>
      have ends := congrFun (congrFun (congrFun (same.2 name) world'.ram) world'.store) script
      change Program.bind (node.program name) (fun _ => Program.pure PUnit.unit) _ _ _ =
        Program.bind (other.program name) (fun _ => Program.pure PUnit.unit) _ _ _ at ends
      rw [Program.bind, Program.bind] at ends
      rw [step, step, ram, store]
      cases ended : node.program name world'.ram world'.store script with
      | returned given ram' store' rest =>
          cases ended' : other.program name world'.ram world'.store script with
          | returned given' ram'' store'' rest' =>
              rw [ended, ended'] at ends
              injection ends with _ sameRam sameStore
              exact ⟨sameRam, sameStore⟩
          | powerLost store'' =>
              rw [ended, ended'] at ends
              contradiction
      | powerLost store' =>
          cases ended' : other.program name world'.ram world'.store script with
          | returned given' ram'' store'' rest' =>
              rw [ended, ended'] at ends
              contradiction
          | powerLost store'' =>
              rw [ended, ended'] at ends
              injection ends with sameStore
              exact ⟨same.1, sameStore⟩

theorem after_sameCalls {δ : Type u} {node : Node ρ R S κ ε} {other : Node ρ R S κ δ} (same : SameCalls node other)
    {world : World R S ε} {world' : World R S δ} (ram : world.ram = world'.ram) (store : world.store = world'.store)
    (events : List (Event ρ κ)) : (node.after world events).ram = (other.after world' events).ram ∧
      (node.after world events).store = (other.after world' events).store := by
  induction events generalizing world world' with
  | nil => exact ⟨ram, store⟩
  | cons event events ih =>
      obtain ⟨sameRam, sameStore⟩ := step_sameCalls same ram store event
      exact ih sameRam sameStore

end Node

end CrashLogic
