/-
Module: AsconSuite.Base.Feistel
Layer: Base (library)
Purpose: Feistel networks: one half is changed by a function of the other and of a round key, and the halves change
  places. The rounds in reverse order, on halves that have changed places, undo the rounds.
Imports: Mathlib's Type* elaborator
Trusted boundary: none
Main exports: Feistel, Feistel.round, Feistel.rounds, Feistel.Undoes, Feistel.rounds_reverse
-/
import Mathlib.Tactic.TypeStar

/-- How a half is changed by what the round function makes of the other half. -/
structure Feistel (α β : Type*) where
  mix : α → α → α
  function : β → α → α

namespace Feistel

variable {α β : Type*} (network : Feistel α β)

/-- One round: the left half is changed, and the halves change places. -/
def round (halves : α × α) (key : β) : α × α :=
  (halves.2, network.mix halves.1 (network.function key halves.2))

/-- Some rounds, one after the other. -/
def rounds (halves : α × α) (keys : List β) : α × α := keys.foldl network.round halves

/-- On halves of the right form, a change that is made twice is no change. -/
structure Undoes (Form : α → Prop) : Prop where
  keeps : ∀ left right key, Form left → Form right → Form (network.mix left (network.function key right))
  cancels : ∀ left right key, Form left → Form right →
    network.mix (network.mix left (network.function key right)) (network.function key right) = left

variable {network} {Form : α → Prop} (undoes : network.Undoes Form)

include undoes

theorem round_form (halves : α × α) (form : Form halves.1 ∧ Form halves.2) (key : β) :
    Form (network.round halves key).1 ∧ Form (network.round halves key).2 :=
  ⟨form.2, undoes.keeps halves.1 halves.2 key form.1 form.2⟩

theorem rounds_form (halves : α × α) (form : Form halves.1 ∧ Form halves.2) (keys : List β) :
    Form (network.rounds halves keys).1 ∧ Form (network.rounds halves keys).2 := by
  induction keys generalizing halves with
  | nil => exact form
  | cons key keys ih => exact ih (network.round halves key) (round_form undoes halves form key)

/-- The round that is done last is undone first. -/
theorem round_swap (halves : α × α) (form : Form halves.1 ∧ Form halves.2) (key : β) :
    network.round (network.round halves key).swap key = halves.swap := by
  obtain ⟨left, right⟩ := halves
  exact Prod.ext rfl (undoes.cancels left right key form.1 form.2)

/-- The rounds in reverse order undo the rounds. -/
theorem rounds_reverse (halves : α × α) (form : Form halves.1 ∧ Form halves.2) (keys : List β) :
    network.rounds (network.rounds halves keys).swap keys.reverse = halves.swap := by
  induction keys generalizing halves with
  | nil => rfl
  | cons key keys ih =>
      have inner := ih (network.round halves key) (round_form undoes halves form key)
      rw [rounds, rounds] at inner
      rw [rounds, rounds, List.foldl_cons, List.reverse_cons, List.foldl_append, inner]
      exact round_swap undoes halves form key

end Feistel
