/-
Module: AsconSuite.Base.CycleMoves
Layer: Library
Purpose: Cells that are permuted in place, cycle by cycle, with one spare cell: the moves, what holds between two cycles
  and inside of one, and what each move keeps of it.
Imports: none
Trusted boundary: none (fully proved)
Main exports: CycleMoves.Move, CycleMoves.run, CycleMoves.Between, CycleMoves.Inside, CycleMoves.Between.save,
  CycleMoves.Inside.copy, CycleMoves.Inside.restore
-/

namespace CycleMoves

/-- A move: a cell is saved to the spare cell, one is copied to another one, or one is given what was saved. -/
inductive Move where
  | save (cell : Nat)
  | copy (src dest : Nat)
  | restore (cell : Nat)
  deriving DecidableEq, Repr

/-- The cells, and the spare one. -/
structure Cells (α : Type) where
  cell : Nat → α
  spare : α

variable {α : Type}

/-- Assign a cell. -/
def Cells.assign (cells : Cells α) (i : Nat) (x : α) : Cells α :=
  { cells with cell := fun j => if j = i then x else cells.cell j }

/-- Do a move. -/
def Move.apply (cells : Cells α) : Move → Cells α
  | save i => { cells with spare := cells.cell i }
  | copy src dest => cells.assign dest (cells.cell src)
  | restore i => cells.assign i cells.spare

/-- Do moves one after the other. -/
def run (cells : Cells α) (moves : List Move) : Cells α := moves.foldl Move.apply cells

theorem run_append (cells : Cells α) (first second : List Move) :
    run cells (first ++ second) = run (run cells first) second := List.foldl_append

/-! ### Between two cycles and inside of one -/

section Cycles

variable {P : Nat → Nat} {size : Nat} {start now : Cells α} {done : Nat → Prop}

/-- The cells below a size are permuted: no two of them come from the same one. -/
structure Permutes (P : Nat → Nat) (size : Nat) : Prop where
  bound : ∀ i < size, P i < size
  inj : ∀ i < size, ∀ j < size, P i = P j → i = j

/-- Between two cycles the cells that are done are whole cycles. -/
structure Between (P : Nat → Nat) (size : Nat) (start : Cells α) (done : Nat → Prop) (now : Cells α) : Prop where
  closed : ∀ i < size, done i ↔ done (P i)
  moved : ∀ i, done i → now.cell i = start.cell (P i)
  left : ∀ i, ¬done i → now.cell i = start.cell i

/-- Inside of a cycle that began with one cell, `prev` is done but has not got its value, and the value of the first
cell is saved. -/
structure Inside (P : Nat → Nat) (size : Nat) (start : Cells α) (done : Nat → Prop) (first prev : Nat) (now : Cells α) :
    Prop where
  bound : prev < size
  isDone : done prev
  forward : ∀ i < size, done i → done (P i) ∨ i = prev
  backward : ∀ i < size, done (P i) → (done i ∧ i ≠ prev) ∨ P i = first
  moved : ∀ i, done i → i ≠ prev → now.cell i = start.cell (P i)
  left : ∀ i, ¬done i ∨ i = prev → now.cell i = start.cell i
  saved : now.spare = start.cell first

/-- Nothing is done. -/
theorem Between.begin (start : Cells α) : Between P size start (fun _ => False) start where
  closed := fun _ _ => Iff.rfl
  moved := fun _ none => none.elim
  left := fun _ _ => rfl

/-- A cell that keeps its value is done. -/
theorem Between.fixed (permutes : Permutes P size) (between : Between P size start done now) {i : Nat} (bound : i < size)
    (fixed : P i = i) : Between P size start (fun j => done j ∨ j = i) now where
  closed := by
    intro j inside
    constructor
    · rintro (isDone | rfl)
      · exact Or.inl ((between.closed j inside).1 isDone)
      · exact Or.inr fixed
    · rintro (isDone | same)
      · exact Or.inl ((between.closed j inside).2 isDone)
      · exact Or.inr (permutes.inj j inside i bound (same.trans fixed.symm))
  moved := by
    rintro j (isDone | rfl)
    · exact between.moved j isDone
    · by_cases isDone : done j
      · exact between.moved j isDone
      · rw [between.left j isDone, fixed]
  left := fun j notDone => between.left j fun isDone => notDone (Or.inl isDone)

/-- A cycle begins: its first cell is saved. -/
theorem Between.save (between : Between P size start done now) {i : Nat} (bound : i < size) (fresh : ¬done i) :
    Inside P size start (fun j => done j ∨ j = i) i i (Move.apply now (.save i)) where
  bound := bound
  isDone := Or.inr rfl
  forward := by
    rintro j inside (isDone | rfl)
    · exact Or.inl (Or.inl ((between.closed j inside).1 isDone))
    · exact Or.inr rfl
  backward := by
    rintro j inside (isDone | same)
    · have before := (between.closed j inside).2 isDone
      exact Or.inl ⟨Or.inl before, fun same => fresh (same ▸ before)⟩
    · exact Or.inr same
  moved := by
    rintro j (isDone | same) other
    · exact between.moved j isDone
    · exact absurd same other
  left := by
    rintro j (notDone | rfl)
    · exact between.left j fun isDone => notDone (Or.inl isDone)
    · exact between.left j fresh
  saved := between.left i fresh

/-- A cycle goes on: a cell gets the value of the next one, which is not done yet. -/
theorem Inside.copy (permutes : Permutes P size) {first prev : Nat} (inside : Inside P size start done first prev now)
    (fresh : ¬done (P prev)) :
    Inside P size start (fun j => done j ∨ j = P prev) first (P prev) (Move.apply now (.copy (P prev) prev)) where
  bound := permutes.bound prev inside.bound
  isDone := Or.inr rfl
  forward := by
    rintro j lower (isDone | rfl)
    · rcases inside.forward j lower isDone with next | rfl
      · exact Or.inl (Or.inl next)
      · exact Or.inl (Or.inr rfl)
    · exact Or.inr rfl
  backward := by
    rintro j lower (isDone | same)
    · rcases inside.backward j lower isDone with ⟨before, _⟩ | isFirst
      · exact Or.inl ⟨Or.inl before, fun same => fresh (same ▸ before)⟩
      · exact Or.inr isFirst
    · obtain rfl := permutes.inj j lower prev inside.bound same
      exact Or.inl ⟨Or.inl inside.isDone, fun same => fresh (same ▸ inside.isDone)⟩
  moved := by
    intro j isDone other
    have before : done j := isDone.resolve_right other
    by_cases isPrev : j = prev
    · subst isPrev
      exact (if_pos rfl).trans (inside.left (P j) (Or.inl fresh))
    · exact (if_neg isPrev).trans (inside.moved j before isPrev)
  left := by
    intro j kind
    have notPrev : j ≠ prev := by
      rintro rfl
      rcases kind with notDone | same
      · exact notDone (Or.inl inside.isDone)
      · exact fresh (same ▸ inside.isDone)
    refine (if_neg notPrev).trans (inside.left j (Or.inl ?_))
    rcases kind with notDone | rfl
    · exact fun isDone => notDone (Or.inl isDone)
    · exact fresh
  saved := inside.saved

/-- A cycle ends: the next cell is the first one, and the last one gets what was saved. -/
theorem Inside.restore (permutes : Permutes P size) {first prev : Nat} (inside : Inside P size start done first prev now)
    (around : done (P prev)) : Between P size start done (Move.apply now (.restore prev)) where
  closed := by
    have isFirst : P prev = first :=
      (inside.backward prev inside.bound around).resolve_left fun before => before.2 rfl
    intro j lower
    constructor
    · intro isDone
      rcases inside.forward j lower isDone with next | rfl
      · exact next
      · exact around
    · intro isDone
      rcases inside.backward j lower isDone with ⟨before, _⟩ | same
      · exact before
      · exact (permutes.inj j lower prev inside.bound (same.trans isFirst.symm)) ▸ inside.isDone
  moved := by
    have isFirst : P prev = first :=
      (inside.backward prev inside.bound around).resolve_left fun before => before.2 rfl
    intro j isDone
    by_cases isPrev : j = prev
    · subst isPrev
      rw [isFirst]
      exact (if_pos rfl).trans inside.saved
    · exact (if_neg isPrev).trans (inside.moved j isDone isPrev)
  left := by
    intro j notDone
    have notPrev : j ≠ prev := fun same => notDone (same ▸ inside.isDone)
    exact (if_neg notPrev).trans (inside.left j (Or.inl notDone))

end Cycles

end CycleMoves
