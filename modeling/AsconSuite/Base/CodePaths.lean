/-
Module: AsconSuite.Base.CodePaths
Layer: Library
Purpose: Paths through code with jumps: what an instruction of a straight piece of code establishes, and the rest of the
  piece keeps, holds wherever a path is in that piece.
Imports: none
Trusted boundary: none (fully proved)
Main exports: CodePaths.Path, CodePaths.Wired, CodePaths.Piece, CodePaths.Piece.holds, CodePaths.Piece.holds_next
-/

namespace CodePaths

section Paths

variable {ι σ : Type} (place : σ → Nat) (exec : ι → σ → σ → Prop) (code : List ι)

/-- The states that a machine reaches in some code from its beginning on. -/
inductive Path : σ → Prop where
  | start {s : σ} (first : place s = 0) : Path s
  | step {s s' : σ} {insn : ι} (path : Path s) (here : code[place s]? = some insn) (done : exec insn s s') : Path s'

/-- How the places of instructions hang together: a plain one is followed by the next, and any other leads to an entry
or behind one that is not plain. -/
structure Wired (plain entry : ι → Prop) : Prop where
  apart : ∀ insn, entry insn → ¬plain insn
  next : ∀ s s' insn, code[place s]? = some insn → plain insn → exec insn s s' → place s' = place s + 1
  leads : ∀ s s' insn, code[place s]? = some insn → ¬plain insn → exec insn s s' →
    (∃ i other, place s' = i + 1 ∧ code[i]? = some other ∧ ¬plain other) ∨
      ∃ other, code[place s']? = some other ∧ entry other

/-- A straight piece of code that begins with an instruction that establishes something and goes on with instructions
that keep it. -/
structure Piece (plain : ι → Prop) (P : σ → Prop) (front : List ι) (insn : ι) (back : List ι) : Prop where
  parts : ∃ rest, code = front ++ insn :: (back ++ rest)
  plain : ∀ i ∈ insn :: back, plain i
  sets : ∀ s s', exec insn s s' → P s'
  keeps : ∀ i ∈ back, ∀ s s', exec i s s' → P s → P s'

end Paths

namespace Piece

variable {ι σ : Type} {place : σ → Nat} {exec : ι → σ → σ → Prop} {code : List ι} {plain entry : ι → Prop}
  {P : σ → Prop} {front : List ι} {insn : ι} {back : List ι}

theorem here (piece : Piece exec code plain P front insn back) : code[front.length]? = some insn := by
  obtain ⟨rest, parts⟩ := piece.parts
  rw [parts, List.getElem?_append_right (Nat.le_refl _), Nat.sub_self, List.getElem?_cons_zero]

/-- The instructions of the piece behind the first one. -/
theorem mem_back (piece : Piece exec code plain P front insn back) {k : Nat} (behind : front.length < k)
    (before : k ≤ front.length + back.length) {i : ι} (found : code[k]? = some i) : i ∈ back := by
  obtain ⟨rest, parts⟩ := piece.parts
  have index : k - front.length = k - front.length - 1 + 1 := by omega
  rw [parts, List.getElem?_append_right (Nat.le_of_lt behind), index, List.getElem?_cons_succ,
    List.getElem?_append_left (by omega)] at found
  exact List.mem_of_getElem? found

theorem plain_at (piece : Piece exec code plain P front insn back) {k : Nat} (behind : front.length ≤ k)
    (before : k ≤ front.length + back.length) {i : ι} (found : code[k]? = some i) : plain i := by
  rcases Nat.eq_or_lt_of_le behind with rfl | later
  · rw [piece.here] at found
    exact piece.plain i (Option.some.inj found ▸ List.mem_cons_self)
  · exact piece.plain i (List.mem_cons_of_mem insn (piece.mem_back later before found))

/-- One step from inside of the piece. -/
theorem step (piece : Piece exec code plain P front insn back) {s s' : σ} {i : ι} (behind : front.length ≤ place s)
    (before : place s ≤ front.length + back.length) (found : code[place s]? = some i) (done : exec i s s')
    (holds : front.length < place s → P s) : P s' := by
  rcases Nat.eq_or_lt_of_le behind with same | later
  · rw [← same, piece.here] at found
    exact piece.sets s s' (Option.some.inj found ▸ done)
  · exact piece.keeps i (piece.mem_back later before found) s s' done (holds later)

/-- What the piece establishes holds in every state of a path that is inside of it or at its end, unless the path got
there through an entry at its end. -/
theorem holds (piece : Piece exec code plain P front insn back) (wired : Wired place exec code plain entry) {s : σ}
    (path : Path place exec code s) (behind : front.length < place s) (before : place s ≤ front.length + back.length + 1)
    (noEntry : ∀ i, code[place s]? = some i → ¬entry i) : P s := by
  induction path with
  | start first => exact absurd behind (by omega)
  | @step s s' i path found done ih =>
      by_cases isPlain : plain i
      · have next := wired.next s s' i found isPlain done
        refine piece.step (by omega) (by omega) found done fun later => ih later (by omega) fun other there isEntry => ?_
        rw [found] at there
        exact wired.apart other isEntry (Option.some.inj there ▸ isPlain)
      · -- Nothing else leads into the piece.
        rcases wired.leads s s' i found isPlain done with ⟨k, other, next, there, control⟩ | ⟨other, there, isEntry⟩
        · exact absurd (piece.plain_at (by omega) (by omega) there) control
        · exact absurd isEntry (noEntry other there)

/-- What the piece establishes holds wherever its last instruction leads. -/
theorem holds_next (piece : Piece exec code plain P front insn back) (wired : Wired place exec code plain entry) {s s' : σ}
    {i : ι} (path : Path place exec code s) (last : place s = front.length + back.length)
    (found : code[place s]? = some i) (done : exec i s s') : P s' := by
  have isPlain : plain i := piece.plain_at (by omega) (by omega) found
  refine piece.step (by omega) (by omega) found done fun later => piece.holds wired path later (by omega) ?_
  intro other there isEntry
  rw [found] at there
  exact wired.apart other isEntry (Option.some.inj there ▸ isPlain)

end Piece

end CodePaths
