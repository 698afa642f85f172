/-
Module: AsconSuite.Base.Transducer
Layer: Base (library)
Purpose: Machines that read one symbol and write one symbol at every step. What a machine writes for a
  list of symbols does not depend on how the list is cut into calls, and a machine that inverts another
  one step by step inverts it on every list.
Imports: Mathlib's Type* elaborator
Trusted boundary: none
Main exports: Step, run, run_append, run_inverse, run_preserves,
  run_congr, run_simulates, run_getElem?, pieces, pieceSizes, flatten_pieces
-/
import Mathlib.Tactic.TypeStar

namespace Transducer

/-- One step of a machine: the state and one input symbol give the next state and one output symbol. -/
abbrev Step (σ α β : Type*) := σ → α → σ × β

variable {σ α β : Type*}

/-- Feed a list of symbols to a machine. -/
def run (step : Step σ α β) : σ → List α → σ × List β
  | s, [] => (s, [])
  | s, a :: as =>
      let next := step s a
      let rest := run step next.1 as
      (rest.1, next.2 :: rest.2)

@[simp] theorem run_nil (step : Step σ α β) (s : σ) : run step s [] = (s, []) := rfl

theorem run_cons (step : Step σ α β) (s : σ) (a : α) (as : List α) :
    run step s (a :: as) =
      ((run step (step s a).1 as).1, (step s a).2 :: (run step (step s a).1 as).2) := rfl

@[simp] theorem length_run (step : Step σ α β) (s : σ) (as : List α) :
    (run step s as).2.length = as.length := by
  induction as generalizing s with
  | nil => rfl
  | cons a as ih => rw [run_cons, List.length_cons, List.length_cons, ih]

/-- Running over two lists in a row is running over their concatenation. -/
theorem run_append (step : Step σ α β) (s : σ) (as bs : List α) :
    run step s (as ++ bs) =
      ((run step (run step s as).1 bs).1,
        (run step s as).2 ++ (run step (run step s as).1 bs).2) := by
  induction as generalizing s with
  | nil => rfl
  | cons a as ih => rw [List.cons_append, run_cons, run_cons, ih, List.cons_append]

theorem run_map {α' : Type*} (step : Step σ α β) (f : α' → α) (s : σ) (as : List α') :
    run step s (as.map f) = run (fun s a => step s (f a)) s as := by
  induction as generalizing s with
  | nil => rfl
  | cons a as ih => rw [List.map_cons, run_cons, run_cons, ih]

/-- What one step preserves, a run preserves. -/
theorem run_preserves {step : Step σ α β} {I : σ → Prop}
    (preserved : ∀ s a, I s → I (step s a).1) {s : σ} (holds : I s) (as : List α) :
    I (run step s as).1 := by
  induction as generalizing s with
  | nil => exact holds
  | cons a as ih => exact ih (preserved s a holds)

/-- Machines that agree on the states of an invariant run alike from them. -/
theorem run_congr {step other : Step σ α β} {I : σ → Prop} (agree : ∀ s a, I s → step s a = other s a)
    (preserved : ∀ s a, I s → I (other s a).1) {s : σ} (holds : I s) (as : List α) :
    run step s as = run other s as := by
  induction as generalizing s with
  | nil => rfl
  | cons a as ih => rw [run_cons, run_cons, agree s a holds, ih (preserved s a holds)]

/-- Machines whose states stay related and whose steps write the same write the same over a list. -/
theorem run_simulates {τ α' : Type*} {step : Step σ α β} {other : Step τ α' β} {R : σ → τ → Prop}
    {translate : α → α'}
    (simulates : ∀ s t a, R s t → R (step s a).1 (other t (translate a)).1 ∧
      (step s a).2 = (other t (translate a)).2)
    {s : σ} {t : τ} (related : R s t) (as : List α) :
    R (run step s as).1 (run other t (as.map translate)).1 ∧
      (run step s as).2 = (run other t (as.map translate)).2 := by
  induction as generalizing s t with
  | nil => exact ⟨related, rfl⟩
  | cons a as ih =>
      obtain ⟨related', written⟩ := simulates s t a related
      obtain ⟨final, rest⟩ := ih related'
      rw [List.map_cons, run_cons, run_cons, written, rest]
      exact ⟨final, rfl⟩

/-- What holds of every step from the states of an indexed invariant holds at every place of a run. -/
theorem run_getElem? {step : Step σ α β} {I : Nat → σ → Prop} {P : Nat → α → β → Prop}
    (stepwise : ∀ i s a, I i s → I (i + 1) (step s a).1 ∧ P i a (step s a).2) {i : Nat} {s : σ}
    (holds : I i s) (as : List α) {j : Nat} {a : α} (at_j : as[j]? = some a) :
    ∃ b, (run step s as).2[j]? = some b ∧ P (i + j) a b := by
  induction as generalizing i s j with
  | nil => cases at_j
  | cons first as ih =>
      obtain ⟨next, here⟩ := stepwise i s first holds
      cases j with
      | zero =>
          rw [List.getElem?_cons_zero, Option.some_inj] at at_j
          subst at_j
          exact ⟨_, rfl, here⟩
      | succ j =>
          obtain ⟨b, found, agrees⟩ := ih next at_j
          exact ⟨b, found, by rwa [Nat.add_right_comm, Nat.add_assoc] at agrees⟩

/-! ### Inverse machines -/

/-- `dec` undoes `enc`: on what `enc` writes it makes the same move and writes what `enc` read. -/
def Inverts (dec : Step σ β α) (enc : Step σ α β) : Prop :=
  ∀ s a, dec s (enc s a).2 = ((enc s a).1, a)

theorem run_inverse {enc : Step σ α β} {dec : Step σ β α} (inverts : Inverts dec enc)
    (s : σ) (as : List α) : run dec s (run enc s as).2 = ((run enc s as).1, as) := by
  induction as generalizing s with
  | nil => rfl
  | cons a as ih => rw [run_cons, run_cons, inverts s a, ih]

/-! ### Cutting a list into pieces -/

/-- Pieces of `n` symbols; the last one may be shorter. -/
def pieces (n : Nat) (as : List α) : List (List α) :=
  if 0 < n ∧ 0 < as.length then as.take n :: pieces n (as.drop n) else []
termination_by as.length
decreasing_by
  rw [List.length_drop]
  omega

/-- The sizes of the pieces. -/
def pieceSizes (n len : Nat) : List Nat :=
  if 0 < n ∧ 0 < len then min n len :: pieceSizes n (len - n) else []
termination_by len

@[simp] theorem pieces_nil (n : Nat) : pieces n ([] : List α) = [] := by
  rw [pieces, if_neg (by simp)]

/-- A list of at most one piece. -/
theorem pieces_of_le {n : Nat} {as : List α} (some_symbol : 0 < as.length) (fits : as.length ≤ n) :
    pieces n as = [as] := by
  rw [pieces, if_pos ⟨by omega, some_symbol⟩, List.take_of_length_le fits, List.drop_of_length_le fits,
    pieces_nil]

/-- The first piece and the pieces behind it. -/
theorem pieces_append {n : Nat} (positive : 0 < n) {front : List α} (len : front.length = n)
    (back : List α) : pieces n (front ++ back) = front :: pieces n back := by
  rw [pieces, if_pos ⟨positive, by rw [List.length_append]; omega⟩, List.take_left' len,
    List.drop_left' len]

theorem flatten_pieces {n : Nat} (positive : 0 < n) (as : List α) : (pieces n as).flatten = as := by
  induction as using pieces.induct n with
  | case1 as _ ih =>
      rw [pieces, if_pos (by assumption), List.flatten_cons, ih, List.take_append_drop]
  | case2 as small =>
      rw [pieces, if_neg small, List.flatten_nil]
      exact (List.eq_nil_of_length_eq_zero (by omega)).symm

theorem map_length_pieces (n : Nat) (as : List α) :
    (pieces n as).map List.length = pieceSizes n as.length := by
  induction as using pieces.induct n with
  | case1 as _ ih =>
      rw [pieces, pieceSizes, if_pos (by assumption), if_pos (by assumption), List.map_cons, ih,
        List.length_take, List.length_drop]
  | case2 as small => rw [pieces, pieceSizes, if_neg small, if_neg small, List.map_nil]

/-- No piece is empty. -/
theorem length_pos_of_mem_pieces {n : Nat} {as piece : List α} (mem : piece ∈ pieces n as) :
    0 < piece.length := by
  induction as using pieces.induct n with
  | case1 as some_symbol ih =>
      rw [pieces, if_pos some_symbol, List.mem_cons] at mem
      rcases mem with rfl | behind
      · rw [List.length_take]
        omega
      · exact ih behind
  | case2 as small =>
      rw [pieces, if_neg small] at mem
      exact absurd mem List.not_mem_nil

end Transducer
