/-
Module: AsconSuite.Proofs.UnrolledRounds
Layer: Proofs
Purpose: Routines whose rounds are twelve labelled blocks, with a chain of tests in front that jumps to the first one.
  What the generators for different processors have in common is proved here once, for any instructions.
Imports: AsconSuite.Base.Assembly, AsconSuite.Core.Permute
Trusted boundary: none
Main exports: permuteRounds_min, UnrolledRounds, UnrolledRounds.enter, UnrolledRounds.Tests, UnrolledRounds.permutes
-/
import AsconSuite.Base.Assembly
import AsconSuite.Core.Permute

namespace AsconSuite

open ByteWord
open Assembly (Line Flow Ends blocks through fromLabel fromLabel_blocks)

/-! ### The loop of the permutation -/

theorem permuteRounds_step (x : AsconState) {round : Nat} (isRound : round < 12) :
    permuteRounds x round = permuteRounds (permuteRound x round) (round + 1) := by
  rw [permuteRounds, if_pos isRound]

theorem permuteRounds_end (x : AsconState) {round : Nat} (last : 12 ≤ round) : permuteRounds x round = x := by
  rw [permuteRounds, if_neg (Nat.not_lt.2 last)]

/-- Every first round from 12 on is the end. -/
theorem permuteRounds_min (x : AsconState) (round : Nat) : permuteRounds x (min round 12) = permuteRounds x round := by
  by_cases isRound : round ≤ 12
  · rw [Nat.min_eq_left isRound]
  · have large : 12 ≤ round := Nat.le_of_not_le isRound
    rw [Nat.min_eq_right large, permuteRounds_end x (Nat.le_refl 12), permuteRounds_end x large]

/-! ### Blocks of rounds -/

/-- The code of a routine around its rounds, the registers with the words of the state, and what the code of a round
keeps. -/
structure UnrolledRounds (ι σ : Type*) where
  exec : ι → σ → Flow σ
  front : List ι
  body : Nat → List ι
  back : List (Line ι)
  words : σ → AsconState
  Keeps : σ → σ → Prop
  refl : ∀ m, Keeps m m
  trans : ∀ {m m' m''}, Keeps m m' → Keeps m' m'' → Keeps m m''
  round : ∀ m round, round < 12 → ∃ m', through exec (body round) m = some m' ∧ Keeps m m' ∧
    words m' = permuteRound (words m) round

namespace UnrolledRounds

variable {ι σ : Type*} (code : UnrolledRounds ι σ)

/-- The text of the routine. -/
def text : List (Line ι) := code.front.map .insn ++ (blocks code.body 0 12 ++ .label 12 :: code.back)

/-- From the label of a round on, or from the last one, the rounds that are left are run, and then the end of the
routine. -/
theorem enter {round : Nat} (isRound : round ≤ 12) {m : σ} {Q : σ → Prop}
    (ends : ∀ m', code.Keeps m m' → code.words m' = permuteRounds (code.words m) round →
      ∃ final, Ends code.exec code.text code.back m' final ∧ Q final) :
    ∃ final, Ends code.exec code.text (fromLabel code.text round) m final ∧ Q final := by
  have each : ∀ number m₁, round ≤ number → number < round + (12 - round) →
      (code.Keeps m m₁ ∧ permuteRounds (code.words m₁) number = permuteRounds (code.words m) round) →
      ∃ m₂, through code.exec (code.body number) m₁ = some m₂ ∧ code.Keeps m m₂ ∧
        permuteRounds (code.words m₂) (number + 1) = permuteRounds (code.words m) round := by
    rintro number m₁ _ below ⟨keeps, left⟩
    have isRound' : number < 12 := by omega
    obtain ⟨m₂, passes, keeps', words⟩ := code.round m₁ number isRound'
    refine ⟨m₂, passes, code.trans keeps keeps', ?_⟩
    rw [words, ← permuteRounds_step _ isRound', left]
  have last : ∀ m₁, (code.Keeps m m₁ ∧
      permuteRounds (code.words m₁) (round + (12 - round)) = permuteRounds (code.words m) round) →
      ∃ final, Ends code.exec code.text (.label 12 :: code.back) m₁ final ∧ Q final := by
    rintro m₁ ⟨keeps, left⟩
    rw [Nat.add_sub_cancel' isRound, permuteRounds_end _ (Nat.le_refl 12)] at left
    obtain ⟨final, done, holds⟩ := ends m₁ keeps left
    exact ⟨final, done.label 12, holds⟩
  have found := fromLabel_blocks code.front code.body 0 round (12 - round) code.back
  rw [Nat.zero_add, Nat.add_sub_cancel' isRound] at found
  rw [text, found]
  exact Ends.blocks each last ⟨code.refl m, rfl⟩

/-! ### Tests for the first round -/

section Tests

variable (waiting : σ → Prop) (first : Nat)

/-- The code jumps to the label if this is the first round, and goes on behind it otherwise. -/
def Tests (insns : List ι) (round : Nat) : Prop :=
  ∀ m rest, waiting m → ∃ m', waiting m' ∧ ∀ final,
    (first = round → Ends code.exec code.text (fromLabel code.text round) m' final →
      Ends code.exec code.text (insns.map .insn ++ rest) m final) ∧
    (first ≠ round → Ends code.exec code.text rest m' final →
      Ends code.exec code.text (insns.map .insn ++ rest) m final)

variable {waiting first} {code}

/-- A chain of tests leads to the label of the first round, or behind the chain. -/
theorem ends_tests {test : Nat → List ι} {rounds : List Nat} {rest : List (Line ι)} {Q : σ → Prop}
    (tests : ∀ round ∈ rounds, code.Tests waiting first (test round) round)
    (entry : first ∈ rounds → ∀ m, waiting m →
      ∃ final, Ends code.exec code.text (fromLabel code.text first) m final ∧ Q final)
    (behind : first ∉ rounds → ∀ m, waiting m → ∃ final, Ends code.exec code.text rest m final ∧ Q final)
    {m : σ} (waits : waiting m) :
    ∃ final, Ends code.exec code.text ((rounds.flatMap test).map .insn ++ rest) m final ∧ Q final := by
  induction rounds generalizing m with
  | nil => exact behind List.not_mem_nil m waits
  | cons round rounds ih =>
      obtain ⟨m', waits', leads⟩ := tests round List.mem_cons_self m
        ((rounds.flatMap test).map .insn ++ rest) waits
      rw [List.flatMap_cons, List.map_append, List.append_assoc]
      by_cases same : first = round
      · obtain ⟨final, done, holds⟩ := entry (same ▸ List.mem_cons_self) m' waits'
        rw [same] at done
        exact ⟨final, (leads final).1 same done, holds⟩
      · obtain ⟨final, done, holds⟩ := ih (fun other member => tests other (List.mem_cons_of_mem _ member))
          (fun member => entry (List.mem_cons_of_mem _ member))
          (fun absent => behind fun member => (List.mem_cons.1 member).elim same absent) waits'
        exact ⟨final, (leads final).2 same done, holds⟩

/-- The order in which the generators try the first rounds: 6, 0 and 4, and then the others from above. -/
def order : List Nat :=
  [6, 0, 4] ++ (List.range' 1 11).reverse.filter fun round => !(round == 0 || round == 4 || round == 6)

theorem mem_order {round : Nat} : round ∈ order ↔ round < 12 := by
  have bounded : ∀ round ∈ order, round < 12 := by decide
  have every : ∀ round < 12, round ∈ order := by decide
  exact ⟨bounded round, every round⟩

/-- The tests for all rounds and the jump to the end behind them. -/
theorem dispatch {test : Nat → List ι} {leave : ι} {rest : List (Line ι)} {Q : σ → Prop}
    (tests : ∀ round, round < 12 → code.Tests waiting first (test round) round)
    (leaves : ∀ m, code.exec leave m = .jump 12 m)
    (entry : ∀ m, waiting m →
      ∃ final, Ends code.exec code.text (fromLabel code.text (min first 12)) m final ∧ Q final)
    {m : σ} (waits : waiting m) :
    ∃ final, Ends code.exec code.text ((order.flatMap test).map .insn ++ (.insn leave :: rest)) m final ∧ Q final := by
  refine ends_tests (fun round member => tests round (mem_order.1 member)) ?_ ?_ waits
  · intro member m₁ waits₁
    have own := entry m₁ waits₁
    rwa [Nat.min_eq_left (Nat.le_of_lt (mem_order.1 member))] at own
  · intro absent m₁ waits₁
    have large : 12 ≤ first := Nat.not_lt.1 fun below => absent (mem_order.2 below)
    obtain ⟨final, done, holds⟩ := entry m₁ waits₁
    rw [Nat.min_eq_right large] at done
    exact ⟨final, Ends.jump (leaves m₁) done, holds⟩

/-- A routine that loads the state, looks for the first round and runs the rounds from there on. -/
theorem permutes {load : List ι} {test : Nat → List ι} {leave : ι}
    (parts : code.front = load ++ (order.flatMap test ++ [leave])) {m m₁ : σ}
    (loads : through code.exec load m = some m₁) (waits : waiting m₁)
    (unchanged : ∀ m', waiting m' → code.Keeps m₁ m' ∧ code.words m' = code.words m₁)
    (tests : ∀ round, round < 12 → code.Tests waiting first (test round) round)
    (leaves : ∀ m, code.exec leave m = .jump 12 m) {Q : σ → Prop}
    (ends : ∀ m', code.Keeps m₁ m' → code.words m' = permuteRounds (code.words m₁) first →
      ∃ final, Ends code.exec code.text code.back m' final ∧ Q final) :
    ∃ final, Ends code.exec code.text code.text m final ∧ Q final := by
  have entry : ∀ m', waiting m' →
      ∃ final, Ends code.exec code.text (fromLabel code.text (min first 12)) m' final ∧ Q final := by
    intro m' waits'
    obtain ⟨keeps, words⟩ := unchanged m' waits'
    refine code.enter (Nat.min_le_right first 12) fun m₂ keeps' words' => ?_
    rw [words, permuteRounds_min] at words'
    exact ends m₂ (code.trans keeps keeps') words'
  obtain ⟨final, done, holds⟩ := dispatch tests leaves entry waits
  refine ⟨final, ?_, holds⟩
  have text : code.text = load.map .insn ++ ((order.flatMap test).map .insn ++
      (.insn leave :: (blocks code.body 0 12 ++ .label 12 :: code.back))) := by
    rw [UnrolledRounds.text, parts, List.map_append, List.map_append, List.append_assoc, List.append_assoc]
    rfl
  have from_ : Ends code.exec code.text (load.map .insn ++ ((order.flatMap test).map .insn ++
      (.insn leave :: (blocks code.body 0 12 ++ .label 12 :: code.back)))) m final := Ends.through loads done
  rwa [← text] at from_

end Tests

end UnrolledRounds

end AsconSuite
