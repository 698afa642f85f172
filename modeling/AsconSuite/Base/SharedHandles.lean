/-
Module: AsconSuite.Base.SharedHandles
Layer: Base (library)
Purpose: Handles on cells that count them. A list of handles, each null or the address of a cell, and one more handle
  that is held apart while it is moved; the count of every cell is the number of its handles.
Imports: Mathlib's Type* elaborator
Trusted boundary: none
Main exports: SharedHandles.Counted, SharedHandles.Counted.hold, SharedHandles.Counted.append,
  SharedHandles.Counted.set, SharedHandles.Counted.unique, SharedHandles.Counted.another,
  SharedHandles.map_set_of_same
-/
import Mathlib.Tactic.TypeStar

namespace SharedHandles

/-- Every count is the number of handles on the cell, with the one that is held. -/
def Counted (refs : Nat → Nat) (held : Option Nat) (handles : List (Option Nat)) : Prop :=
  ∀ a, refs a = handles.count (some a) + if held = some a then 1 else 0

section

variable {refs : Nat → Nat} {held : Option Nat} {handles : List (Option Nat)}

/-- Take one more handle on a cell. -/
theorem Counted.hold (counted : Counted refs none handles) (p : Option Nat) :
    Counted (fun a => refs a + if p = some a then 1 else 0) p handles := by
  intro a
  show refs a + _ = _
  rw [counted a, if_neg (nofun : ¬ none = some a), Nat.add_zero]

/-- The handle that is held becomes the last one. -/
theorem Counted.append (counted : Counted refs held handles) : Counted refs none (handles ++ [held]) := by
  intro a
  rw [counted a, List.count_append, List.count_singleton, if_neg (nofun : ¬ none = some a), Nat.add_zero]
  by_cases here : held = some a
  · rw [if_pos here, here, if_pos (beq_self_eq_true _)]
  · rw [if_neg here, if_neg (fun equal => here (eq_of_beq equal))]

/-- The handle that is held takes the place of another one, which is released. -/
theorem Counted.set (counted : Counted refs held handles) {i : Nat} {old : Option Nat}
    (place : handles[i]? = some old) :
    Counted (fun a => refs a - if old = some a then 1 else 0) none (handles.set i held) := by
  intro a
  show refs a - _ = _
  obtain ⟨inside, old_eq⟩ := List.getElem?_eq_some_iff.mp place
  have listed : old ∈ handles := List.mem_of_getElem? place
  have positive : old = some a → 0 < handles.count (some a) := fun equal =>
    List.count_pos_iff.mpr (equal ▸ listed)
  rw [counted a, List.count_set inside, old_eq, if_neg (nofun : ¬ none = some a), Nat.add_zero]
  simp only [beq_iff_eq]
  by_cases released : old = some a
  · have some_handle := positive released
    rw [if_pos released]
    omega
  · rw [if_neg released, Nat.sub_zero]
    rfl

/-- A cell with a handle has a count. -/
theorem Counted.pos (counted : Counted refs held handles) {i a : Nat} (place : handles[i]? = some (some a)) :
    0 < refs a := by
  have some_handle := List.count_pos_iff.mpr (List.mem_of_getElem? place)
  rw [counted a]
  omega

/-- With one handle gone, the count of its cell is the number of the others. -/
theorem Counted.count_others (counted : Counted refs none handles) {i a : Nat}
    (place : handles[i]? = some (some a)) : (handles.set i none).count (some a) = refs a - 1 := by
  have left : refs a - (if some a = some a then 1 else 0) = (handles.set i none).count (some a) +
    if none = some a then 1 else 0 := counted.set place a
  rw [if_pos rfl, if_neg (nofun : ¬ none = some a), Nat.add_zero] at left
  exact left.symm

/-- A cell with one handle is at one place only. -/
theorem Counted.unique (counted : Counted refs none handles) {i j a : Nat} (single : refs a = 1)
    (place : handles[i]? = some (some a)) (other : handles[j]? = some (some a)) : j = i := by
  refine Decidable.byContradiction fun apart => ?_
  have kept : (handles.set i none)[j]? = some (some a) := by
    rw [List.getElem?_set_ne (Ne.symm apart)]
    exact other
  have some_handle := List.count_pos_iff.mpr (List.mem_of_getElem? kept)
  rw [counted.count_others place, single] at some_handle
  exact absurd some_handle (Nat.lt_irrefl 0)

/-- A cell with more than one handle is at another place too. -/
theorem Counted.another (counted : Counted refs none handles) {i a : Nat} (shared : 1 < refs a)
    (place : handles[i]? = some (some a)) : ∃ j, j ≠ i ∧ handles[j]? = some (some a) := by
  have positive : 0 < (handles.set i none).count (some a) := by
    rw [counted.count_others place]
    exact Nat.sub_pos_of_lt shared
  obtain ⟨j, listed⟩ := List.getElem?_of_mem (List.count_pos_iff.mp positive)
  have apart : j ≠ i := by
    rintro rfl
    have inside := (List.getElem?_eq_some_iff.mp place).1
    rw [List.getElem?_set_self inside] at listed
    cases listed
  rw [List.getElem?_set_ne (Ne.symm apart)] at listed
  exact ⟨j, apart, listed⟩

end

/-- What is seen through the handles, when what the others see stays. -/
theorem map_set_of_same {β : Type*} {handles : List (Option Nat)} {view after : Option Nat → β} {i : Nat}
    {new : Option Nat} (same : ∀ j p, j ≠ i → handles[j]? = some p → after p = view p) :
    (handles.set i new).map after = (handles.map view).set i (after new) := by
  refine List.ext_getElem? fun j => ?_
  rw [List.getElem?_map, List.getElem?_set, List.getElem?_set, List.length_map, List.getElem?_map]
  by_cases here : i = j
  · rw [if_pos here, if_pos here]
    split <;> rfl
  · rw [if_neg here, if_neg here]
    cases place : handles[j]? with
    | none => rfl
    | some p => exact congrArg some (same j p (Ne.symm here) place)

end SharedHandles
