/-
Module: AsconSuite.Base.RegisterCache
Layer: Base (library)
Purpose: Items that live in registers for a while. An item may have a slot of its own, to which it is written back
  when it is dirty and leaves its register. The values of the items stay the same whatever is moved.
Imports: Mathlib.Data.Set.Insert
Trusted boundary: none
Main exports: RegisterCache.Cache, RegisterCache.Holds, RegisterCache.Holds.writeBack, RegisterCache.Holds.drop,
  RegisterCache.Holds.reserve, RegisterCache.Holds.fill, RegisterCache.Holds.reserveTemp, RegisterCache.Holds.mark,
  RegisterCache.Holds.write, RegisterCache.Holds.release
-/
import Mathlib.Data.Set.Insert

namespace RegisterCache

/-- The register of each item, which of them are dirty, and what the registers and the slots hold. -/
@[ext] structure Cache (ι ρ α : Type) where
  place : ι → Option ρ
  dirty : ι → Bool
  regs : ρ → α
  slots : ι → Option α

/-- No register is held by two items. -/
def Exclusive {ι ρ : Type} (place : ι → Option ρ) : Prop :=
  ∀ i j r, place i = some r → place j = some r → i = j

/-- The items have these values, where they have one. The register of a pending item has not been filled yet. -/
structure Holds {ι ρ α : Type} (c : Cache ι ρ α) (value : ι → Option α) (pending : Set ι) : Prop where
  exclusive : Exclusive c.place
  cached : ∀ i r v, c.place i = some r → i ∉ pending → value i = some v → c.regs r = v
  stored : ∀ i s v, c.slots i = some s → c.place i = none ∨ c.dirty i = false → value i = some v → s = v
  homeless : ∀ i, c.slots i = none → c.place i = none → value i = none
  idle : ∀ i s, c.slots i = some s → c.place i = none ∨ i ∈ pending → c.dirty i = false

/-- An item moves to a register that no other item holds, or to none. -/
theorem Exclusive.move {ι ρ : Type} [DecidableEq ι] {place : ι → Option ρ} (exclusive : Exclusive place) {i : ι}
    {target : Option ρ} (free : ∀ r, target = some r → ∀ j, place j ≠ some r) :
    Exclusive (Function.update place i target) := by
  intro j k r first second
  by_cases here : j = i
  · by_cases there : k = i
    · rw [here, there]
    · rw [here, Function.update_self] at first
      rw [Function.update_of_ne there] at second
      exact absurd second (free r first k)
  · rw [Function.update_of_ne here] at first
    by_cases there : k = i
    · rw [there, Function.update_self] at second
      exact absurd first (free r second j)
    · rw [Function.update_of_ne there] at second
      exact exclusive j k r first second

section

variable {ι ρ α : Type} [DecidableEq ι] {c : Cache ι ρ α} {value : ι → Option α} {pending : Set ι} {i : ι} {r : ρ}
  {s v : α}

/-- Write a dirty item back to its slot. -/
theorem Holds.writeBack (holds : Holds c value pending) (placed : c.place i = some r) (home : c.slots i = some s)
    (unsaved : c.dirty i = true) :
    Holds { c with slots := Function.update c.slots i (some (c.regs r)), dirty := Function.update c.dirty i false }
      value pending := by
  have filled : i ∉ pending := by
    intro waiting
    rw [holds.idle i s home (Or.inr waiting)] at unsaved
    cases unsaved
  refine ⟨holds.exclusive, holds.cached, ?_, ?_, ?_⟩
  · intro j t w slot settled valued
    by_cases here : j = i
    · subst here
      simp only [Function.update_self, Option.some.injEq] at slot
      rw [← slot]
      exact holds.cached j r w placed filled valued
    · simp only [Function.update_of_ne here] at slot settled
      exact holds.stored j t w slot settled valued
  · intro j slot off
    by_cases here : j = i
    · subst here
      rw [placed] at off
      cases off
    · simp only [Function.update_of_ne here] at slot
      exact holds.homeless j slot off
  · intro j t slot off
    by_cases here : j = i
    · subst here
      exact Function.update_self ..
    · simp only [Function.update_of_ne here] at slot ⊢
      exact holds.idle j t slot off

/-- Give the register of a clean item up. -/
theorem Holds.drop (holds : Holds c value pending) (home : c.slots i = some s) (saved : c.dirty i = false) :
    Holds { c with place := Function.update c.place i none } value pending := by
  refine ⟨holds.exclusive.move nofun, ?_, ?_, ?_, ?_⟩
  · intro j t w placed filled valued
    by_cases here : j = i
    · rw [here] at placed
      simp only [Function.update_self] at placed
      cases placed
    · simp only [Function.update_of_ne here] at placed
      exact holds.cached j t w placed filled valued
  · intro j t w slot settled valued
    by_cases here : j = i
    · subst here
      exact holds.stored j t w slot (Or.inr saved) valued
    · simp only [Function.update_of_ne here] at settled
      exact holds.stored j t w slot settled valued
  · intro j slot off
    by_cases here : j = i
    · rw [here, home] at slot
      cases slot
    · simp only [Function.update_of_ne here] at off
      exact holds.homeless j slot off
  · intro j t slot off
    by_cases here : j = i
    · rw [here]
      exact saved
    · simp only [Function.update_of_ne here] at off
      exact holds.idle j t slot off

/-- Give an item a register that is not filled yet. -/
theorem Holds.reserve (holds : Holds c value pending) (off : c.place i = none) (home : c.slots i = some s)
    (free : ∀ j, c.place j ≠ some r) :
    Holds { c with place := Function.update c.place i (some r) } value (insert i pending) := by
  have saved := holds.idle i s home (Or.inl off)
  refine ⟨holds.exclusive.move fun t equal => (Option.some.inj equal) ▸ free, ?_, ?_, ?_, ?_⟩
  · intro j t w placed filled valued
    have apart : j ≠ i := fun here => filled (Or.inl here)
    simp only [Function.update_of_ne apart] at placed
    exact holds.cached j t w placed (fun waiting => filled (Or.inr waiting)) valued
  · intro j t w slot settled valued
    by_cases here : j = i
    · subst here
      exact holds.stored j t w slot (Or.inl off) valued
    · simp only [Function.update_of_ne here] at settled
      exact holds.stored j t w slot settled valued
  · intro j slot none_left
    by_cases here : j = i
    · rw [here, home] at slot
      cases slot
    · simp only [Function.update_of_ne here] at none_left
      exact holds.homeless j slot none_left
  · intro j t slot settled
    by_cases here : j = i
    · rw [here]
      exact saved
    · simp only [Function.update_of_ne here] at settled
      exact holds.idle j t slot (settled.imp_right fun waiting => waiting.resolve_left here)

/-- Give an item without a slot a register. -/
theorem Holds.reserveTemp (holds : Holds c value pending) (off : c.place i = none) (homeless : c.slots i = none)
    (free : ∀ j, c.place j ≠ some r) :
    Holds { c with place := Function.update c.place i (some r) } value pending := by
  refine ⟨holds.exclusive.move fun t equal => (Option.some.inj equal) ▸ free, ?_, ?_, ?_, ?_⟩
  · intro j t w placed filled valued
    by_cases here : j = i
    · rw [here, holds.homeless i homeless off] at valued
      cases valued
    · simp only [Function.update_of_ne here] at placed
      exact holds.cached j t w placed filled valued
  · intro j t w slot settled valued
    by_cases here : j = i
    · rw [here, homeless] at slot
      cases slot
    · simp only [Function.update_of_ne here] at settled
      exact holds.stored j t w slot settled valued
  · intro j slot none_left
    by_cases here : j = i
    · rw [here]
      exact holds.homeless i homeless off
    · simp only [Function.update_of_ne here] at none_left
      exact holds.homeless j slot none_left
  · intro j t slot settled
    by_cases here : j = i
    · rw [here, homeless] at slot
      cases slot
    · simp only [Function.update_of_ne here] at settled
      exact holds.idle j t slot settled

/-- An item without a slot may be called dirty or clean. -/
theorem Holds.mark (holds : Holds c value pending) (homeless : c.slots i = none) (d : Bool) :
    Holds { c with dirty := Function.update c.dirty i d } value pending := by
  have apart : ∀ j t, c.slots j = some t → j ≠ i := by
    rintro j t slot rfl
    rw [homeless] at slot
    cases slot
  refine ⟨holds.exclusive, holds.cached, ?_, holds.homeless, ?_⟩
  · intro j t w slot settled valued
    simp only [Function.update_of_ne (apart j t slot)] at settled
    exact holds.stored j t w slot settled valued
  · intro j t slot settled
    simp only [Function.update_of_ne (apart j t slot)]
    exact holds.idle j t slot settled

/-- Load a clean item from its slot. -/
theorem Holds.fill [DecidableEq ρ] (holds : Holds c value pending) (placed : c.place i = some r)
    (home : c.slots i = some s) (saved : c.dirty i = false) :
    Holds { c with regs := Function.update c.regs r s } value (pending \ {i}) := by
  refine ⟨holds.exclusive, ?_, holds.stored, holds.homeless, ?_⟩
  · intro j t w there filled valued
    by_cases here : j = i
    · subst here
      obtain rfl : r = t := Option.some.inj (placed.symm.trans there)
      simp only [Function.update_self]
      exact holds.stored j s w home (Or.inr saved) valued
    · have apart : t ≠ r := by
        rintro rfl
        exact here (holds.exclusive j i t there placed)
      simp only [Function.update_of_ne apart]
      exact holds.cached j t w there (fun waiting => filled ⟨waiting, here⟩) valued
  · intro j t slot settled
    exact holds.idle j t slot (settled.imp_right fun waiting => waiting.1)

/-- Write an item that has a register. -/
theorem Holds.write [DecidableEq ρ] (holds : Holds c value pending) (placed : c.place i = some r) (v : α) :
    Holds { c with regs := Function.update c.regs r v, dirty := Function.update c.dirty i true }
      (Function.update value i (some v)) (pending \ {i}) := by
  refine ⟨holds.exclusive, ?_, ?_, ?_, ?_⟩
  · intro j t w there filled valued
    by_cases here : j = i
    · subst here
      obtain rfl : r = t := Option.some.inj (placed.symm.trans there)
      rw [Function.update_self] at valued
      simp only [Function.update_self]
      exact Option.some.inj valued
    · have apart : t ≠ r := by
        rintro rfl
        exact here (holds.exclusive j i t there placed)
      rw [Function.update_of_ne here] at valued
      simp only [Function.update_of_ne apart]
      exact holds.cached j t w there (fun waiting => filled ⟨waiting, here⟩) valued
  · intro j t w slot settled valued
    by_cases here : j = i
    · subst here
      simp only [Function.update_self, placed] at settled
      rcases settled with off | saved
      · cases off
      · cases saved
    · rw [Function.update_of_ne here] at valued
      simp only [Function.update_of_ne here] at settled
      exact holds.stored j t w slot settled valued
  · intro j slot off
    have apart : j ≠ i := by
      rintro rfl
      rw [placed] at off
      cases off
    rw [Function.update_of_ne apart]
    exact holds.homeless j slot off
  · intro j t slot settled
    have apart : j ≠ i := by
      rintro rfl
      rcases settled with off | waiting
      · rw [placed] at off
        cases off
      · exact waiting.2 rfl
    simp only [Function.update_of_ne apart]
    exact holds.idle j t slot (settled.imp_right fun waiting => waiting.1)

/-- Give the register of an item without a slot up, with its value. -/
theorem Holds.release (holds : Holds c value pending) (homeless : c.slots i = none) :
    Holds { c with place := Function.update c.place i none } (Function.update value i none) pending := by
  refine ⟨holds.exclusive.move nofun, ?_, ?_, ?_, ?_⟩
  · intro j t w placed filled valued
    have apart : j ≠ i := by
      rintro rfl
      rw [Function.update_self] at valued
      cases valued
    rw [Function.update_of_ne apart] at valued
    simp only [Function.update_of_ne apart] at placed
    exact holds.cached j t w placed filled valued
  · intro j t w slot settled valued
    have apart : j ≠ i := by
      rintro rfl
      rw [Function.update_self] at valued
      cases valued
    rw [Function.update_of_ne apart] at valued
    simp only [Function.update_of_ne apart] at settled
    exact holds.stored j t w slot settled valued
  · intro j slot off
    by_cases here : j = i
    · rw [here, Function.update_self]
    · rw [Function.update_of_ne here]
      simp only [Function.update_of_ne here] at off
      exact holds.homeless j slot off
  · intro j t slot settled
    by_cases here : j = i
    · rw [here, homeless] at slot
      cases slot
    · simp only [Function.update_of_ne here] at settled
      exact holds.idle j t slot settled

end

end RegisterCache
