/-
Module: AsconSuite.Base.CrashLogic
Layer: Base (library)
Purpose: Programs with volatile memory and durable storage, whose power may fail at every storage operation.
  What the storage answers is a script of replies; when the script runs out, the power is lost. Programs
  are verified through weakest preconditions with two postconditions, one for the return and one for the
  durable state that a power loss leaves.
Imports: Mathlib's Type* elaborator
Trusted boundary: none
Main exports: Ended, Program, Program.ask, Program.getRam, Program.modifyRam, wp, wp_bind, wp_ask, wp_mono
-/
import Mathlib.Tactic.TypeStar

namespace CrashLogic

universe u

/-- How a program ended: it returned, with what is left of the script, or the power was lost. -/
inductive Ended (ρ R S α : Type*) where
  | returned (value : α) (ram : R) (store : S) (rest : List ρ)
  | powerLost (store : S)

/-- The durable state at the end. -/
def Ended.store {ρ R S α : Type*} : Ended ρ R S α → S
  | returned _ _ store _ => store
  | powerLost store => store

/-- A program over volatile memory `R` and durable storage `S`, with replies `ρ` of the storage. -/
def Program (ρ R S α : Type*) := R → S → List ρ → Ended ρ R S α

namespace Program

variable {ρ R S : Type*} {α β : Type u}

/-- Return a value. -/
protected def pure (value : α) : Program ρ R S α := fun ram store script =>
  .returned value ram store script

/-- Run one program and then another, unless the power is lost in the first one. -/
protected def bind (first : Program ρ R S α) (next : α → Program ρ R S β) : Program ρ R S β :=
  fun ram store script =>
    match first ram store script with
    | .returned value ram store rest => next value ram store rest
    | .powerLost store => .powerLost store

instance : Monad (Program ρ R S) where
  pure := Program.pure
  bind := Program.bind

instance : LawfulMonad (Program ρ R S) := LawfulMonad.mk' (Program ρ R S)
  (fun program => by
    funext ram store script
    change Program.bind program (fun value => Program.pure (id value)) ram store script = _
    rw [Program.bind]
    cases program ram store script <;> rfl)
  (fun _ _ => rfl)
  (fun first second third => by
    funext ram store script
    change Program.bind (Program.bind first second) third ram store script =
      Program.bind first (fun value => Program.bind (second value) third) ram store script
    rw [Program.bind, Program.bind, Program.bind]
    cases first ram store script <;> rfl)

/-- Read the volatile memory. -/
def getRam {R : Type u} : Program ρ R S R := fun ram store script => .returned ram ram store script

/-- Update the volatile memory. -/
def modifyRam (update : R → R) : Program ρ R S PUnit.{u + 1} := fun ram store script =>
  .returned ⟨⟩ (update ram) store script

/-- An operation of the storage, which takes the next reply of the script. -/
def ask (operation : ρ → S → α × S) : Program ρ R S α := fun ram store script =>
  match script with
  | [] => .powerLost store
  | reply :: rest => .returned (operation reply store).1 ram (operation reply store).2 rest

end Program

open Program

variable {ρ R S : Type*} {α β : Type u}

/-- The weakest precondition of a program: `post` holds when it returns, and `lost` holds of the durable
state when the power is lost on the way. -/
def wp (program : Program ρ R S α) (post : α → R → S → List ρ → Prop) (lost : S → Prop) (ram : R)
    (store : S) (script : List ρ) : Prop :=
  match program ram store script with
  | .returned value ram store rest => post value ram store rest
  | .powerLost store => lost store

section

variable {post post' : α → R → S → List ρ → Prop} {lost lost' : S → Prop} {ram : R} {store : S}
  {script : List ρ}

@[simp] theorem wp_pure (value : α) :
    wp (pure value : Program ρ R S α) post lost ram store script ↔ post value ram store script :=
  Iff.rfl

@[simp] theorem wp_bind {post : β → R → S → List ρ → Prop} (first : Program ρ R S α)
    (next : α → Program ρ R S β) :
    wp (first >>= next) post lost ram store script ↔
      wp first (fun value => wp (next value) post lost) lost ram store script := by
  have unfolded : (first >>= next) ram store script =
      match first ram store script with
      | .returned value ram store rest => next value ram store rest
      | .powerLost store => .powerLost store := rfl
  rw [wp, wp, unfolded]
  cases first ram store script with
  | returned value ram store rest => exact Iff.rfl
  | powerLost store => exact Iff.rfl

@[simp] theorem wp_getRam {R : Type u} {post : R → R → S → List ρ → Prop} {ram : R} :
    wp getRam post lost ram store script ↔ post ram ram store script :=
  Iff.rfl

@[simp] theorem wp_modifyRam {post : PUnit.{u + 1} → R → S → List ρ → Prop} (update : R → R) :
    wp (modifyRam update) post lost ram store script ↔ post ⟨⟩ (update ram) store script :=
  Iff.rfl

theorem wp_ask_cons (operation : ρ → S → α × S) (reply : ρ) (rest : List ρ) :
    wp (ask operation) post lost ram store (reply :: rest) ↔
      post (operation reply store).1 ram (operation reply store).2 rest :=
  Iff.rfl

/-- An operation is verified for the loss of power in front of it and for every reply. -/
theorem wp_ask {operation : ρ → S → α × S} (cut : lost store)
    (answered : ∀ reply rest, script = reply :: rest →
      post (operation reply store).1 ram (operation reply store).2 rest) :
    wp (ask operation) post lost ram store script := by
  cases script with
  | nil => exact cut
  | cons reply rest => exact answered reply rest rfl

/-- A weaker postcondition is easier to meet. -/
theorem wp_mono {program : Program ρ R S α} (holds : wp program post lost ram store script)
    (weaker : ∀ value ram store rest, post value ram store rest → post' value ram store rest)
    (weakerLost : ∀ store, lost store → lost' store) : wp program post' lost' ram store script := by
  rw [wp] at holds ⊢
  cases ended : program ram store script with
  | returned value ram store rest =>
      rw [ended] at holds
      exact weaker _ _ _ _ holds
  | powerLost store =>
      rw [ended] at holds
      exact weakerLost _ holds

/-- What a verified program returns. -/
theorem wp_returned {program : Program ρ R S α} (holds : wp program post lost ram store script)
    {value : α} {ram' : R} {store' : S} {rest : List ρ}
    (ended : program ram store script = .returned value ram' store' rest) :
    post value ram' store' rest := by
  rw [wp, ended] at holds
  exact holds

/-- What holds at every end is verified. -/
theorem wp_of_forall {program : Program ρ R S α} (returns : ∀ value ram store rest, post value ram store rest)
    (loses : ∀ store, lost store) : wp program post lost ram store script := by
  rw [wp]
  split
  · exact returns _ _ _ _
  · exact loses _

/-- A program that is verified without any loss of power returns. -/
theorem exists_returned {program : Program ρ R S α}
    (holds : wp program post (fun _ => False) ram store script) :
    ∃ value ram' store' rest, program ram store script = .returned value ram' store' rest ∧
      post value ram' store' rest := by
  rw [wp] at holds
  cases ended : program ram store script with
  | returned value ram' store' rest =>
      rw [ended] at holds
      exact ⟨value, ram', store', rest, rfl, holds⟩
  | powerLost store' =>
      rw [ended] at holds
      exact holds.elim

/-- A program that is verified for one end only ends so. -/
theorem eq_of_wp {program : Program ρ R S α} {ended : Ended ρ R S α}
    (holds : wp program (fun value ram store rest => .returned value ram store rest = ended)
      (fun store => .powerLost store = ended) ram store script) :
    program ram store script = ended := by
  rw [wp] at holds
  cases done : program ram store script with
  | returned value ram' store' rest => rwa [done] at holds
  | powerLost store' => rwa [done] at holds

/-- What a verified program leaves when the power is lost. -/
theorem wp_powerLost {program : Program ρ R S α} (holds : wp program post lost ram store script)
    {store' : S} (ended : program ram store script = .powerLost store') : lost store' := by
  rw [wp, ended] at holds
  exact holds

end

end CrashLogic
