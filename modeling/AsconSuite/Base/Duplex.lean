/-
Module: AsconSuite.Base.Duplex
Layer: Base (library)
Purpose: States made of addressable cells, and the duplex construction over them: a position inside the
  rate, one cell combined with one input symbol at every step, a permutation whenever the rate is full.
  `fill` combines a stretch of cells without permuting. It is what block-wise code does between two
  permutations, and `run_eq_fill` and `run_eq_permute_fill` join the two.
Imports: AsconSuite.Base.Transducer
Trusted boundary: none
Main exports: Cells, Mix, Cells.fill, Cells.fill_eq, Duplex, Duplex.step, run_eq_fill,
  run_eq_permute_fill, run_position_lt, step_inverts
-/
import AsconSuite.Base.Transducer

open Transducer (Step run Inverts)

/-- A state seen as `size` cells, with the laws that make a cell readable and writable on its own. -/
structure Cells (σ β : Type*) where
  /-- The number of cells. -/
  size : Nat
  /-- Read a cell. -/
  get : σ → Nat → β
  /-- Write a cell. -/
  set : σ → Nat → β → σ
  /-- Nothing but the cells makes up a state. -/
  ext : ∀ {s t : σ}, (∀ o < size, get s o = get t o) → s = t
  /-- A write changes one cell. -/
  get_set : ∀ (s : σ) (o : Nat) (b : β) {k : Nat}, o < size → k < size →
    get (set s o b) k = if k = o then b else get s k

/-- How a cell and an input symbol give the new cell and an output symbol. -/
abbrev Mix (α β γ : Type*) := β → α → β × γ

namespace Cells

variable {σ α β γ : Type*} (cells : Cells σ β) (mix : Mix α β γ)

/-- Combine consecutive cells from position `o` on with a list of symbols. -/
def fill : σ → Nat → List α → σ × List γ
  | s, _, [] => (s, [])
  | s, o, a :: as =>
      let mixed := mix (cells.get s o) a
      let rest := fill (cells.set s o mixed.1) (o + 1) as
      (rest.1, mixed.2 :: rest.2)

@[simp] theorem fill_nil (s : σ) (o : Nat) : cells.fill mix s o [] = (s, []) := rfl

theorem fill_cons (s : σ) (o : Nat) (a : α) (as : List α) :
    cells.fill mix s o (a :: as) =
      ((cells.fill mix (cells.set s o (mix (cells.get s o) a).1) (o + 1) as).1,
        (mix (cells.get s o) a).2 ::
          (cells.fill mix (cells.set s o (mix (cells.get s o) a).1) (o + 1) as).2) := rfl

/-- Filling from one list and then from another fills from both. -/
theorem fill_append (s : σ) (o : Nat) (as bs : List α) :
    cells.fill mix s o (as ++ bs) =
      ((cells.fill mix (cells.fill mix s o as).1 (o + as.length) bs).1,
        (cells.fill mix s o as).2 ++
          (cells.fill mix (cells.fill mix s o as).1 (o + as.length) bs).2) := by
  induction as generalizing s o with
  | nil => rfl
  | cons a as ih =>
      rw [List.cons_append, fill_cons, fill_cons, ih, List.cons_append, List.length_cons,
        Nat.add_right_comm, Nat.add_assoc o]

@[simp] theorem length_fill (s : σ) (o : Nat) (as : List α) :
    (cells.fill mix s o as).2.length = as.length := by
  induction as generalizing s o with
  | nil => rfl
  | cons a as ih => rw [fill_cons, List.length_cons, List.length_cons, ih]

theorem set_get_self (s : σ) {o : Nat} (ho : o < cells.size) : cells.set s o (cells.get s o) = s := by
  refine cells.ext fun k hk => ?_
  rw [cells.get_set s o _ ho hk]
  split
  · next here => rw [here]
  · rfl

/-- A mix that keeps every cell keeps the state. -/
theorem fill_fst_of_keeps {mix : Mix α β γ} (keeps : ∀ x a, (mix x a).1 = x) (s : σ) {o : Nat}
    {as : List α} (fits : o + as.length ≤ cells.size) : (cells.fill mix s o as).1 = s := by
  induction as generalizing o with
  | nil => rfl
  | cons a as ih =>
      rw [List.length_cons] at fits
      rw [fill_cons, keeps, cells.set_get_self s (by omega)]
      exact ih (by omega)

/-- What `fill` does to the cells and what it writes, given cell by cell, determines it. -/
theorem fill_eq {s t : σ} {o : Nat} {as : List α} {w : List γ} (fits : o + as.length ≤ cells.size)
    (inside : ∀ i a, as[i]? = some a → cells.get t (o + i) = (mix (cells.get s (o + i)) a).1)
    (outside : ∀ k < cells.size, k < o ∨ o + as.length ≤ k → cells.get t k = cells.get s k)
    (written : w.length = as.length)
    (output : ∀ i a, as[i]? = some a → w[i]? = some (mix (cells.get s (o + i)) a).2) :
    cells.fill mix s o as = (t, w) := by
  induction as generalizing s o w with
  | nil =>
      rw [List.length_nil] at written
      rw [List.eq_nil_of_length_eq_zero written, fill_nil]
      refine Prod.ext (cells.ext fun k hk => ?_) rfl
      exact (outside k hk (by simp only [List.length_nil]; omega)).symm
  | cons a as ih =>
      rw [List.length_cons] at fits written
      obtain ⟨first, rest, rfl⟩ := List.exists_cons_of_length_eq_add_one written
      have head := output 0 a rfl
      rw [List.getElem?_cons_zero, Option.some_inj, Nat.add_zero] at head
      have headCell := inside 0 a rfl
      rw [Nat.add_zero] at headCell
      -- the cells behind the first one are the same before and after the first step.
      have later (k : Nat) (hk : k < cells.size) (ne : k ≠ o) :
          cells.get (cells.set s o (mix (cells.get s o) a).1) k = cells.get s k := by
        rw [cells.get_set s o _ (by omega) hk, if_neg ne]
      have behind := ih (s := cells.set s o (mix (cells.get s o) a).1) (o := o + 1) (w := rest)
        (by omega)
        (fun i a' at_i => by
          have within := (List.getElem?_eq_some_iff.1 at_i).1
          rw [later _ (by omega) (by omega), Nat.add_right_comm, Nat.add_assoc]
          exact inside (i + 1) a' at_i)
        (fun k hk away => by
          by_cases first : k = o
          · rw [first, cells.get_set s o _ (by omega) (by omega), if_pos rfl, headCell]
          · rw [later k hk first]
            exact outside k hk (by rw [List.length_cons]; omega))
        (by simpa using written)
        (fun i a' at_i => by
          have within := (List.getElem?_eq_some_iff.1 at_i).1
          rw [later _ (by omega) (by omega), Nat.add_right_comm, Nat.add_assoc]
          exact output (i + 1) a' at_i)
      rw [fill_cons, behind, head]

end Cells

/-- A duplex: cells, a rate of at most all of them, and a permutation of the state. -/
structure Duplex (σ β : Type*) extends Cells σ β where
  /-- The number of cells combined with input between two permutations. -/
  rate : Nat
  rate_pos : 0 < rate
  rate_le : rate ≤ size
  /-- The permutation. -/
  permute : σ → σ

namespace Duplex

variable {σ α β γ : Type*} (duplex : Duplex σ β) (mix : Mix α β γ)

/-- The next position; a full rate is permuted at once. -/
def advance (s : σ) (pos : Nat) : σ × Nat :=
  if pos + 1 < duplex.rate then (s, pos + 1) else (duplex.permute s, 0)

/-- Combine the cell at the current position with one symbol. -/
def step : Step (σ × Nat) α γ := fun st a =>
  let mixed := mix (duplex.get st.1 st.2) a
  (duplex.advance (duplex.set st.1 st.2 mixed.1) st.2, mixed.2)

/-- Input that leaves the rate unfilled causes no permutation. -/
theorem run_eq_fill (s : σ) (pos : Nat) (as : List α) (room : pos + as.length < duplex.rate) :
    run (duplex.step mix) (s, pos) as =
      (((duplex.fill mix s pos as).1, pos + as.length), (duplex.fill mix s pos as).2) := by
  induction as generalizing s pos with
  | nil => rfl
  | cons a as ih =>
      rw [List.length_cons] at room
      have next : duplex.step mix (s, pos) a =
          ((duplex.set s pos (mix (duplex.get s pos) a).1, pos + 1), (mix (duplex.get s pos) a).2) := by
        rw [step, advance, if_pos (by omega)]
      rw [Transducer.run_cons, next, ih _ _ (by omega), Cells.fill_cons, List.length_cons,
        Nat.add_right_comm, Nat.add_assoc]

/-- Input that fills the rate exactly causes one permutation, at its end. -/
theorem run_eq_permute_fill (s : σ) (pos : Nat) (as : List α) (nonempty : as ≠ [])
    (full : pos + as.length = duplex.rate) :
    run (duplex.step mix) (s, pos) as =
      ((duplex.permute (duplex.fill mix s pos as).1, 0), (duplex.fill mix s pos as).2) := by
  induction as generalizing s pos with
  | nil => exact absurd rfl nonempty
  | cons a as ih =>
      rw [List.length_cons] at full
      rw [Transducer.run_cons, Cells.fill_cons]
      rcases as with _ | ⟨b, bs⟩
      · have last : duplex.step mix (s, pos) a =
            ((duplex.permute (duplex.set s pos (mix (duplex.get s pos) a).1), 0),
              (mix (duplex.get s pos) a).2) := by
          rw [step, advance, if_neg (by simp only [List.length_nil] at full; omega)]
        rw [last]
        rfl
      · have next : duplex.step mix (s, pos) a =
            ((duplex.set s pos (mix (duplex.get s pos) a).1, pos + 1),
              (mix (duplex.get s pos) a).2) := by
          rw [step, advance, if_pos (by rw [List.length_cons] at full; omega)]
        rw [next, ih _ _ (List.cons_ne_nil b bs) (by omega)]

/-- The position stays inside the rate. -/
theorem run_position_lt {s : σ} {pos : Nat} (inside : pos < duplex.rate) (as : List α) :
    (run (duplex.step mix) (s, pos) as).1.2 < duplex.rate := by
  refine Transducer.run_preserves (I := fun st : σ × Nat => st.2 < duplex.rate) ?_ inside as
  intro st a holds
  have positive := duplex.rate_pos
  rw [step, advance]
  split
  · assumption
  · exact positive

/-- Mixing functions that undo each other cell by cell give duplex machines that undo each other. -/
theorem step_inverts {unmix : Mix γ β α} (undo : ∀ x a, unmix x (mix x a).2 = ((mix x a).1, a)) :
    Inverts (duplex.step unmix) (duplex.step mix) := by
  intro st a
  simp only [step, undo]

end Duplex
