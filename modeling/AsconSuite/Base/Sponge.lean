/-
Module: AsconSuite.Base.Sponge
Layer: Base (library)
Purpose: Objects that absorb and squeeze by turns. The symbols of one phase may be cut into any calls: the
  object and what it puts out depend on the contents of the phases only. A squeezing duplex may permute
  as soon as its rate is used up, or when the first cell of the next block is asked for.
Imports: AsconSuite.Base.Duplex
Trusted boundary: none
Main exports: Duplex.lazyStep, Duplex.run_lazy_eq_fill, Duplex.run_lazy_eq_fill_permute,
  Duplex.lazyStep_inverts, Sponge, Sponge.call, SpongePhase, Sponge.phase_eq_call
-/
import AsconSuite.Base.Duplex

open Transducer (Step run)

namespace Duplex

variable {σ α β γ : Type*} (duplex : Duplex σ β) (mix : Mix α β γ)

/-- The step of a duplex that permutes in front of the first cell of a block. -/
def lazyStep : Step (σ × Nat) α γ := fun st a =>
  let s := if st.2 = 0 then duplex.permute st.1 else st.1
  let mixed := mix (duplex.get s st.2) a
  ((duplex.set s st.2 mixed.1, (st.2 + 1) % duplex.rate), mixed.2)

/-- Inside a block there is no permutation. -/
theorem run_lazy_eq_fill (s : σ) {pos : Nat} (as : List α) (inside : 0 < pos)
    (fits : pos + as.length ≤ duplex.rate) (started : pos < duplex.rate) :
    run (duplex.lazyStep mix) (s, pos) as =
      (((duplex.fill mix s pos as).1, (pos + as.length) % duplex.rate),
        (duplex.fill mix s pos as).2) := by
  induction as generalizing s pos with
  | nil =>
      rw [List.length_nil, Nat.add_zero, Nat.mod_eq_of_lt started]
      rfl
  | cons a as ih =>
      rw [List.length_cons] at fits
      have next : duplex.lazyStep mix (s, pos) a =
          ((duplex.set s pos (mix (duplex.get s pos) a).1, (pos + 1) % duplex.rate),
            (mix (duplex.get s pos) a).2) := by
        simp only [lazyStep, if_neg (show ¬pos = 0 by omega)]
      rw [Transducer.run_cons, next, Cells.fill_cons, List.length_cons]
      rcases as with _ | ⟨b, bs⟩
      · rfl
      · rw [List.length_cons] at fits
        rw [Nat.mod_eq_of_lt (show pos + 1 < duplex.rate by omega),
          ih _ (by omega) (by rw [List.length_cons]; omega) (by omega), Nat.add_right_comm,
          Nat.add_assoc]

/-- The first cell of a block comes after a permutation. -/
theorem run_lazy_eq_fill_permute (s : σ) {as : List α} (nonempty : as ≠ [])
    (fits : as.length ≤ duplex.rate) :
    run (duplex.lazyStep mix) (s, 0) as =
      (((duplex.fill mix (duplex.permute s) 0 as).1, as.length % duplex.rate),
        (duplex.fill mix (duplex.permute s) 0 as).2) := by
  obtain ⟨a, as, rfl⟩ := List.exists_cons_of_ne_nil nonempty
  rw [List.length_cons] at fits
  have first : duplex.lazyStep mix (s, 0) a =
      ((duplex.set (duplex.permute s) 0 (mix (duplex.get (duplex.permute s) 0) a).1,
        (0 + 1) % duplex.rate), (mix (duplex.get (duplex.permute s) 0) a).2) := by
    simp only [lazyStep, if_pos]
  rw [Transducer.run_cons, first, Cells.fill_cons, List.length_cons]
  rcases as with _ | ⟨b, bs⟩
  · rfl
  · rw [List.length_cons] at fits
    rw [Nat.mod_eq_of_lt (show 0 + 1 < duplex.rate by omega),
      duplex.run_lazy_eq_fill mix _ _ (by omega) (by rw [List.length_cons]; omega) (by omega),
      Nat.add_comm (0 + 1)]

/-- Mixing functions that undo each other cell by cell give machines that undo each other. -/
theorem lazyStep_inverts {unmix : Mix γ β α} (undo : ∀ x a, unmix x (mix x a).2 = ((mix x a).1, a)) :
    Transducer.Inverts (duplex.lazyStep unmix) (duplex.lazyStep mix) := by
  intro st a
  simp only [lazyStep, undo]

/-- The position stays inside the rate. -/
theorem run_lazy_position_lt {s : σ} {pos : Nat} (inside : pos < duplex.rate) (as : List α) :
    (run (duplex.lazyStep mix) (s, pos) as).1.2 < duplex.rate :=
  Transducer.run_preserves (I := fun st : σ × Nat => st.2 < duplex.rate)
    (fun _ _ _ => Nat.mod_lt _ duplex.rate_pos) inside as

end Duplex

/-! ### Absorbing and squeezing by turns -/

/-- An object that absorbs symbols and squeezes symbols, and what it does when it turns from one to the
other. -/
structure Sponge (σ α γ : Type*) where
  toAbsorb : σ → σ
  toSqueeze : σ → σ
  absorb : Step σ α Unit
  squeeze : Step σ Unit γ

/-- What one call or one phase brings in or asks for. -/
inductive SpongeInput (α : Type*) where
  | absorb (data : List α)
  | squeeze (len : Nat)

/-- At least one call, all of them in one direction. -/
inductive SpongePhase (α : Type*) where
  | absorb (first : List α) (rest : List (List α))
  | squeeze (first : Nat) (rest : List Nat)

namespace SpongePhase

variable {α : Type*}

/-- The calls of a phase. -/
def calls : SpongePhase α → List (SpongeInput α)
  | absorb first rest => .absorb first :: rest.map .absorb
  | squeeze first rest => .squeeze first :: rest.map .squeeze

/-- A phase as a single call. -/
def content : SpongePhase α → SpongeInput α
  | absorb first rest => .absorb (first ++ rest.flatten)
  | squeeze first rest => .squeeze (rest.foldl (· + ·) first)

end SpongePhase

namespace Sponge

variable {σ α γ : Type*} (sponge : Sponge σ α γ)

/-- One call. The flag says that the last call squeezed. -/
def call : Step (σ × Bool) (SpongeInput α) (List γ)
  | (s, squeezing), .absorb data =>
      (((run sponge.absorb (if squeezing then sponge.toAbsorb s else s) data).1, false), [])
  | (s, squeezing), .squeeze len =>
      let done := run sponge.squeeze (if squeezing then s else sponge.toSqueeze s)
        (List.replicate len ())
      ((done.1, true), done.2)

/-- The calls of one phase, and all they put out. -/
def phase (st : σ × Bool) (p : SpongePhase α) : (σ × Bool) × List γ :=
  ((run sponge.call st p.calls).1, (run sponge.call st p.calls).2.flatten)

theorem absorb_absorb (st : σ × Bool) (data more : List α) :
    sponge.call (sponge.call st (.absorb data)).1 (.absorb more) =
      sponge.call st (.absorb (data ++ more)) := by
  obtain ⟨s, squeezing⟩ := st
  simp only [call, Bool.false_eq_true, if_false]
  rw [Transducer.run_append]

theorem squeeze_squeeze (st : σ × Bool) (len more : Nat) :
    sponge.call st (.squeeze (len + more)) =
      ((sponge.call (sponge.call st (.squeeze len)).1 (.squeeze more)).1,
        (sponge.call st (.squeeze len)).2 ++
          (sponge.call (sponge.call st (.squeeze len)).1 (.squeeze more)).2) := by
  obtain ⟨s, squeezing⟩ := st
  simp only [call, if_true]
  rw [← List.replicate_append_replicate, Transducer.run_append]

/-- A phase does what a single call with its content does. -/
theorem phase_eq_call (st : σ × Bool) (p : SpongePhase α) :
    sponge.phase st p = sponge.call st p.content := by
  cases p with
  | absorb first rest =>
      induction rest generalizing st first with
      | nil =>
          rw [SpongePhase.content, List.flatten_nil, List.append_nil]
          rfl
      | cons next rest ih =>
          have merged := ih st (first ++ next)
          rw [SpongePhase.content, List.append_assoc] at merged
          rw [SpongePhase.content, List.flatten_cons, ← merged, phase, phase, SpongePhase.calls,
            SpongePhase.calls, List.map_cons, Transducer.run_cons, Transducer.run_cons,
            Transducer.run_cons, absorb_absorb]
          rfl
  | squeeze first rest =>
      induction rest generalizing st first with
      | nil => exact Prod.ext rfl (List.append_nil _)
      | cons next rest ih =>
          have merged := ih st (first + next)
          rw [SpongePhase.content] at merged
          rw [SpongePhase.content, List.foldl_cons, ← merged, phase, phase, SpongePhase.calls,
            SpongePhase.calls, List.map_cons, Transducer.run_cons, Transducer.run_cons,
            Transducer.run_cons, squeeze_squeeze, List.flatten_cons, List.flatten_cons,
            List.flatten_cons, List.append_assoc]

/-- The contents of the phases decide the object and what each phase puts out. -/
theorem run_phase_eq_run_call (st : σ × Bool) (phases : List (SpongePhase α)) :
    run sponge.phase st phases = run sponge.call st (phases.map SpongePhase.content) := by
  induction phases generalizing st with
  | nil => rfl
  | cons p phases ih =>
      rw [List.map_cons, Transducer.run_cons, Transducer.run_cons, phase_eq_call, ih]

end Sponge
