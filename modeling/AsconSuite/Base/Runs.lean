/-
Module: AsconSuite.Base.Runs
Layer: Base (library)
Purpose: Runs of a state machine over a list of events, runs whose every step meets a condition, and the
  induction that carries an invariant through such a run.
Imports: Mathlib's Type* elaborator
Trusted boundary: none
Main exports: after, Along, after_append, along_append, invariant_after, along_of_forall, after_component
-/
import Mathlib.Tactic.TypeStar

namespace Runs

variable {σ ε : Type*} (step : σ → ε → σ)

/-- The state after a run. -/
def after (state : σ) (events : List ε) : σ := events.foldl step state

/-- Every step of the run, together with the state in front of it, meets the condition. -/
def Along (condition : σ → ε → Prop) : σ → List ε → Prop
  | _, [] => True
  | state, event :: events => condition state event ∧ Along condition (step state event) events

/-- A run can be tested for a condition that can be tested. -/
instance Along.decidable (condition : σ → ε → Prop) [∀ state event, Decidable (condition state event)] :
    ∀ state events, Decidable (Along step condition state events)
  | _, [] => .isTrue trivial
  | state, event :: events =>
      have := Along.decidable condition (step state event) events
      inferInstanceAs (Decidable (condition state event ∧ _))

variable {step} {condition : σ → ε → Prop} {state : σ} {events : List ε}

@[simp] theorem after_nil : after step state [] = state := rfl

@[simp] theorem after_cons (event : ε) :
    after step state (event :: events) = after step (step state event) events := rfl

theorem after_append (earlier later : List ε) :
    after step state (earlier ++ later) = after step (after step state earlier) later :=
  List.foldl_append

/-- A condition that holds of every step whatever the state is holds along every run. -/
theorem along_of_forall (holds : ∀ state, ∀ event ∈ events, condition state event) :
    Along step condition state events := by
  induction events generalizing state with
  | nil => exact trivial
  | cons event events ih =>
      refine ⟨holds state event List.mem_cons_self, ih ?_⟩
      intro state event member
      exact holds state event (List.mem_cons_of_mem _ member)

/-- A condition that follows from another one along a run. -/
theorem Along.imp {other : σ → ε → Prop}
    (follows : ∀ state event, condition state event → other state event)
    (along : Along step condition state events) : Along step other state events := by
  induction events generalizing state with
  | nil => exact trivial
  | cons event events ih => exact ⟨follows _ _ along.1, ih along.2⟩

/-- Two conditions along a run. -/
theorem Along.and {other : σ → ε → Prop} (first : Along step condition state events)
    (second : Along step other state events) :
    Along step (fun state event => condition state event ∧ other state event) state events := by
  induction events generalizing state with
  | nil => exact trivial
  | cons event events ih => exact ⟨⟨first.1, second.1⟩, ih first.2 second.2⟩

/-- An invariant that every step meeting the condition preserves holds at the end of the run. -/
theorem invariant_after (inv : σ → Prop) (preserved : ∀ state event, inv state →
      condition state event → inv (step state event)) (start : inv state) (along : Along step condition state events) :
    inv (after step state events) := by
  induction events generalizing state with
  | nil => exact start
  | cons event events ih =>
      obtain ⟨first, others⟩ := along
      exact ih (preserved state event start first) others

/-! ### Components -/

section

variable {σ' ε' : Type*} {step' : σ' → ε' → σ'} {part : σ → σ'} {visible : ε → Option ε'}

/-- A part of the state that takes the steps of a machine of its own, for the events that it sees. -/
def Component (step : σ → ε → σ) (step' : σ' → ε' → σ') (part : σ → σ') (visible : ε → Option ε') : Prop :=
  ∀ state event, part (step state event) = ((visible event).map (step' (part state))).getD (part state)

/-- The run of a component is the run of the events that it sees. -/
theorem after_component (component : Component step step' part visible) :
    part (after step state events) = after step' (part state) (events.filterMap visible) := by
  induction events generalizing state with
  | nil => rfl
  | cons event events ih =>
      rw [after_cons, ih, component]
      cases sees : visible event with
      | none =>
          rw [List.filterMap_cons_none sees]
          rfl
      | some event' =>
          rw [List.filterMap_cons_some sees]
          rfl

end

end Runs
