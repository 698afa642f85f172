/-
Module: AsconSuite.Base.Assembly
Layer: Base (library)
Purpose: Assembly text with numbered labels. A place in the text is what is left of it; a jump goes to the text from
  the label on. The rules take a run through a straight piece, over a jump, and down a chain of labelled blocks each
  of which falls through to the next.
Imports: Mathlib's Type* elaborator
Trusted boundary: none
Main exports: Line, Flow, fromLabel, run, through, Ends, Ends.through, Ends.jump, blocks, fromLabel_blocks, Ends.blocks
-/
import Mathlib.Tactic.TypeStar

namespace Assembly

/-- A line of the text. -/
inductive Line (ι : Type*) where
  | label (number : Nat)
  | insn (insn : ι)

/-- What an instruction does: it goes on with the next line, it goes on at a label, or the routine returns. -/
inductive Flow (σ : Type*) where
  | next (state : σ)
  | jump (label : Nat) (state : σ)
  | done (state : σ)

variable {ι σ : Type*}

/-- The line is this label. -/
def Line.isLabel (number : Nat) : Line ι → Bool
  | .label other => other == number
  | .insn _ => false

/-- The text from the label on. -/
def fromLabel (text : List (Line ι)) (number : Nat) : List (Line ι) :=
  text.dropWhile fun line => !line.isLabel number

/-- Run the text from a place on, until the routine returns. -/
def run (exec : ι → σ → Flow σ) (text : List (Line ι)) : (fuel : Nat) → (rest : List (Line ι)) → σ → Option σ
  | 0, _, _ => none
  | _ + 1, [], _ => none
  | fuel + 1, .label _ :: rest, s => run exec text fuel rest s
  | fuel + 1, .insn insn :: rest, s =>
      match exec insn s with
      | .next s' => run exec text fuel rest s'
      | .jump number s' => run exec text fuel (fromLabel text number) s'
      | .done s' => some s'

/-- Run a piece of code that only goes on with the next line. -/
def through (exec : ι → σ → Flow σ) : List ι → σ → Option σ
  | [], s => some s
  | insn :: rest, s =>
      match exec insn s with
      | .next s' => through exec rest s'
      | _ => none

/-- From some fuel on, the routine returns in this state. -/
def Ends (exec : ι → σ → Flow σ) (text rest : List (Line ι)) (s final : σ) : Prop :=
  ∃ least, ∀ fuel, least ≤ fuel → run exec text fuel rest s = some final

section Rules

variable {exec : ι → σ → Flow σ} {text rest : List (Line ι)} {s s' final : σ}

theorem Ends.label (ends : Ends exec text rest s final) (number : Nat) :
    Ends exec text (.label number :: rest) s final := by
  obtain ⟨least, enough⟩ := ends
  refine ⟨least + 1, fun fuel more => ?_⟩
  obtain ⟨fuel, rfl⟩ := Nat.exists_eq_succ_of_ne_zero (Nat.ne_of_gt (Nat.lt_of_lt_of_le (Nat.succ_pos least) more))
  exact enough fuel (Nat.le_of_succ_le_succ more)

theorem Ends.next {insn : ι} (step : exec insn s = .next s') (ends : Ends exec text rest s' final) :
    Ends exec text (.insn insn :: rest) s final := by
  obtain ⟨least, enough⟩ := ends
  refine ⟨least + 1, fun fuel more => ?_⟩
  obtain ⟨fuel, rfl⟩ := Nat.exists_eq_succ_of_ne_zero (Nat.ne_of_gt (Nat.lt_of_lt_of_le (Nat.succ_pos least) more))
  rw [run, step]
  exact enough fuel (Nat.le_of_succ_le_succ more)

theorem Ends.jump {insn : ι} {number : Nat} (step : exec insn s = .jump number s')
    (ends : Ends exec text (fromLabel text number) s' final) : Ends exec text (.insn insn :: rest) s final := by
  obtain ⟨least, enough⟩ := ends
  refine ⟨least + 1, fun fuel more => ?_⟩
  obtain ⟨fuel, rfl⟩ := Nat.exists_eq_succ_of_ne_zero (Nat.ne_of_gt (Nat.lt_of_lt_of_le (Nat.succ_pos least) more))
  rw [run, step]
  exact enough fuel (Nat.le_of_succ_le_succ more)

theorem Ends.done {insn : ι} (step : exec insn s = .done final) : Ends exec text (.insn insn :: rest) s final := by
  refine ⟨1, fun fuel more => ?_⟩
  obtain ⟨fuel, rfl⟩ := Nat.exists_eq_succ_of_ne_zero (Nat.ne_of_gt more)
  rw [run, step]

theorem through_append (front back : List ι) (s : σ) :
    through exec (front ++ back) s = (through exec front s).bind (through exec back) := by
  induction front generalizing s with
  | nil => rfl
  | cons insn front ih =>
      rw [List.cons_append, through, through]
      cases exec insn s with
      | next s' => exact ih s'
      | jump number s' => rfl
      | done s' => rfl

/-- What each instruction of a straight piece keeps, the piece keeps. -/
theorem through_keeps_of_each {Keeps : σ → σ → Prop} (refl : ∀ s, Keeps s s)
    (trans : ∀ {s s' s''}, Keeps s s' → Keeps s' s'' → Keeps s s'') {piece : List ι}
    (each : ∀ insn ∈ piece, ∀ {s s'}, exec insn s = .next s' → Keeps s s')
    (passes : through exec piece s = some s') : Keeps s s' := by
  induction piece generalizing s with
  | nil =>
      cases passes
      exact refl _
  | cons insn piece ih =>
      rw [through] at passes
      cases step : exec insn s with
      | next s₁ =>
          rw [step] at passes
          exact trans (each insn List.mem_cons_self step)
            (ih (fun other inPiece => each other (List.mem_cons_of_mem insn inPiece)) passes)
      | jump number s₁ =>
          rw [step] at passes
          contradiction
      | done s₁ =>
          rw [step] at passes
          contradiction

/-- A run goes through a straight piece. -/
theorem Ends.through {piece : List ι} (passes : through exec piece s = some s')
    (ends : Ends exec text rest s' final) : Ends exec text (piece.map .insn ++ rest) s final := by
  induction piece generalizing s with
  | nil =>
      cases passes
      exact ends
  | cons insn piece ih =>
      rw [Assembly.through] at passes
      cases step : exec insn s with
      | next s₁ =>
          rw [step] at passes
          exact Ends.next step (ih passes)
      | jump number s₁ =>
          rw [step] at passes
          contradiction
      | done s₁ =>
          rw [step] at passes
          contradiction

end Rules

/-! ### Blocks -/

/-- Labelled blocks, with their numbers in order. -/
def blocks (body : Nat → List ι) (first count : Nat) : List (Line ι) :=
  (List.range' first count).flatMap fun number => .label number :: (body number).map .insn

theorem blocks_succ (body : Nat → List ι) (first count : Nat) : blocks body first (count + 1) =
    .label first :: ((body first).map .insn ++ blocks body (first + 1) count) := by
  rw [blocks, List.range'_succ, List.flatMap_cons]
  rfl

theorem isLabel_insns (number : Nat) (insns : List ι) :
    ∀ line ∈ insns.map Line.insn, (!line.isLabel number) = true := by
  intro line member
  obtain ⟨insn, _, rfl⟩ := List.mem_map.1 member
  rfl

/-- A label in front of which there is no label is found. -/
theorem fromLabel_front {front : List ι} (number : Nat) (rest : List (Line ι)) :
    fromLabel (front.map .insn ++ .label number :: rest) number = .label number :: rest := by
  have here : (Line.label number : Line ι).isLabel number = true := beq_self_eq_true number
  rw [fromLabel, List.dropWhile_append_of_pos (isLabel_insns number front), List.dropWhile_cons_of_neg]
  rw [here]
  exact Bool.false_ne_true

/-- The blocks from a label on are found, behind code without labels. -/
theorem fromLabel_blocks (front : List ι) (body : Nat → List ι) (first skipped count : Nat) (back : List (Line ι)) :
    fromLabel (front.map .insn ++ (blocks body first (skipped + count) ++ .label (first + skipped + count) :: back))
      (first + skipped) = blocks body (first + skipped) count ++ .label (first + skipped + count) :: back := by
  induction skipped generalizing first front with
  | zero =>
      cases count with
      | zero =>
          rw [blocks, blocks]
          exact fromLabel_front _ _
      | succ count =>
          rw [Nat.zero_add, Nat.add_zero, blocks_succ, List.cons_append]
          exact fromLabel_front _ _
  | succ skipped ih =>
      have other : (!(Line.label first : Line ι).isLabel (first + (skipped + 1))) = true := by
        rw [Bool.not_eq_true']
        exact beq_eq_false_iff_ne.2 (Nat.ne_of_lt (Nat.lt_add_of_pos_right (Nat.succ_pos skipped)))
      have rest := ih (body first) (first + 1)
      rw [Nat.add_right_comm first 1 skipped, Nat.add_assoc first skipped 1] at rest
      rw [Nat.add_right_comm skipped 1 count, blocks_succ, fromLabel,
        List.dropWhile_append_of_pos (isLabel_insns _ front), List.cons_append,
        List.dropWhile_cons_of_pos (p := fun line : Line ι => !line.isLabel (first + (skipped + 1))) other,
        List.append_assoc]
      exact rest

/-- A run goes down a chain of blocks. -/
theorem Ends.blocks {exec : ι → σ → Flow σ} {text back : List (Line ι)} {body : Nat → List ι} {first count : Nat}
    {holds : Nat → σ → Prop} {result : σ → Prop}
    (each : ∀ number s, first ≤ number → number < first + count → holds number s →
      ∃ s', Assembly.through exec (body number) s = some s' ∧ holds (number + 1) s')
    (ends : ∀ s, holds (first + count) s → ∃ final, Ends exec text back s final ∧ result final) {s : σ}
    (start : holds first s) : ∃ final, Ends exec text (Assembly.blocks body first count ++ back) s final ∧ result final := by
  induction count generalizing first s with
  | zero => exact ends s start
  | succ count ih =>
      obtain ⟨s', passes, next⟩ := each first s (Nat.le_refl _) (Nat.lt_add_of_pos_right (Nat.succ_pos count)) start
      have total : first + 1 + count = first + (count + 1) := by omega
      obtain ⟨final, done, holds'⟩ := ih
        (fun number s from_ below => each number s (Nat.le_of_succ_le from_) (total ▸ below)) (total ▸ ends) next
      refine ⟨final, ?_, holds'⟩
      rw [blocks_succ, List.cons_append, List.append_assoc]
      exact Ends.label (Ends.through passes done) first

end Assembly
