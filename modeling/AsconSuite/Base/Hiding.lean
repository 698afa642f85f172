/-
Module: AsconSuite.Base.Hiding
Layer: Base (library)
Purpose: Encodings of a secret of which only a part is seen. The part tells nothing when the encodings of any two secrets
  correspond one to one in a way that cannot be seen; then every view comes from as many encodings of one secret as of
  the other. An invertible computation on the encodings takes this from its outputs to its inputs.
Imports: Mathlib's subtype equivalences and cardinalities
Trusted boundary: none
Main exports: Hides, hides_of_move, Hides.comap, Hides.card_eq
-/
import Mathlib.Logic.Equiv.Basic
import Mathlib.SetTheory.Cardinal.Finite

namespace Hiding

variable {ι κ S T V : Type*}

/-- The encodings of any two secrets correspond one to one, and two that correspond look the same. -/
def Hides (secret : ι → S) (seen : ι → V) : Prop :=
  ∀ s s', ∃ σ : {i // secret i = s} ≃ {i // secret i = s'}, ∀ i, seen (σ i) = seen i

variable {secret : ι → S} {seen : ι → V}

/-- Encodings that can be moved from any secret to any other, and back, without it being seen. -/
theorem hides_of_move (move : S → S → ι → ι) (moves : ∀ s s' i, secret i = s → secret (move s s' i) = s')
    (back : ∀ s s' i, secret i = s → move s' s (move s s' i) = i)
    (same : ∀ s s' i, secret i = s → seen (move s s' i) = seen i) : Hides secret seen := by
  intro s s'
  exact ⟨{
    toFun i := ⟨move s s' i, moves s s' i i.2⟩
    invFun i := ⟨move s' s i, moves s' s i i.2⟩
    left_inv i := Subtype.ext (back s s' i i.2)
    right_inv i := Subtype.ext (back s' s i i.2) }, fun i => same s s' i i.2⟩

/-- What an invertible computation leaves to see of its outputs hides its inputs, if the secrets behind them go into
one another one to one. -/
theorem Hides.comap {secret' : κ → T} {seen' : κ → V} (hides : Hides secret' seen') {f : ι → κ}
    (invertible : f.Bijective) {code : S → T} (distinct : code.Injective)
    (codes : ∀ i, secret' (f i) = code (secret i)) : Hides secret (seen' ∘ f) := by
  intro s s'
  have fiber (s : S) (i : ι) : secret i = s ↔ secret' (f i) = code s := by
    rw [codes]
    exact distinct.eq_iff.symm
  obtain ⟨σ, same⟩ := hides (code s) (code s')
  let along (s : S) : {i // secret i = s} ≃ {k // secret' k = code s} :=
    (Equiv.ofBijective f invertible).subtypeEquiv (fiber s)
  refine ⟨(along s).trans (σ.trans (along s').symm), fun i => ?_⟩
  have there : f ((along s').symm (σ (along s i))) = σ (along s i) :=
    congrArg Subtype.val ((along s').apply_symm_apply (σ (along s i)))
  change seen' (f ((along s').symm (σ (along s i)))) = seen' (f i)
  rw [there, same]
  rfl

/-- Every view comes from as many encodings of one secret as of any other. -/
theorem Hides.card_eq (hides : Hides secret seen) (s s' : S) (v : V) :
    Nat.card {i // secret i = s ∧ seen i = v} = Nat.card {i // secret i = s' ∧ seen i = v} := by
  obtain ⟨σ, same⟩ := hides s s'
  have views : {i : {i // secret i = s} // seen i = v} ≃ {i : {i // secret i = s'} // seen i = v} :=
    σ.subtypeEquiv fun i => by rw [same]
  have first := Equiv.subtypeSubtypeEquivSubtypeInter (fun i => secret i = s) fun i => seen i = v
  have second := Equiv.subtypeSubtypeEquivSubtypeInter (fun i => secret i = s') fun i => seen i = v
  exact Nat.card_congr (first.symm.trans (views.trans second))

end Hiding
