/-
Module: AsconSuite.Proofs.TrngMixer
Layer: Proofs
Purpose: Over every run of the mixer, the random words that it hands out lie in order in the rates of the states that
  it goes through, so that no part of a state is handed out twice.
Imports: AsconSuite.Base.Transducer, AsconSuite.Random.TrngMixer
Trusted boundary: none
Main exports: MixerBackend.Advances, MixerBackend.rateWords, trngCall_reads, trng_mixer_hands_out_once
-/
import AsconSuite.Base.Transducer
import AsconSuite.Random.TrngMixer

namespace AsconSuite

open ByteWord ByteMemory
open Transducer (run run_cons)

namespace MixerBackend

variable {σ : Type} (backend : MixerBackend σ)

/-- The state in which a seed is added, with its rate cleared, before it is permuted. -/
def seeded (prng : σ) (seed : Mem) : σ :=
  backend.access.overwriteWithZeroes
    (backend.access.addBytes prng seed (40 - asconSystemSeedSize) asconSystemSeedSize) 0 8

/-- How a state follows from the last one: six rounds for more output, twelve behind a new seed. -/
inductive Advances : σ → σ → Prop
  | output (prng : σ) : Advances prng (backend.permute prng 6)
  | seed (prng : σ) (seed : Mem) : Advances prng (backend.permute (backend.seeded prng seed) 0)

/-- The words in the rate of a state. -/
def rateWords (prng : σ) : List (BitVec 32) := [backend.word prng 0, backend.word prng 1]

/-- A chain of states that starts behind a given one. -/
def Chain : σ → List σ → Prop
  | _, [] => True
  | prng, next :: more => backend.Advances prng next ∧ Chain next more

/-- The last state of such a chain. -/
def last : σ → List σ → σ
  | prng, [] => prng
  | _, next :: more => last next more

end MixerBackend

section

variable {σ : Type} {backend : MixerBackend σ}

/-- The halves of a word of 64 bits. -/
theorem halves_of_append (high low : BitVec 32) :
    [(high ++ low).setWidth 32, ((high ++ low) >>> 32).setWidth 32] = [low, high] := by
  have lower : (high ++ low).setWidth 32 = low := by
    ext i inside
    simp only [BitVec.getElem_setWidth, BitVec.getLsbD_append, inside]
    exact BitVec.getLsbD_eq_getElem inside
  have upper : ((high ++ low) >>> 32).setWidth 32 = high := by
    ext i inside
    simp only [BitVec.getElem_setWidth, BitVec.getLsbD_ushiftRight, BitVec.getLsbD_append,
      Nat.not_lt_of_le (Nat.le_add_right 32 i), Nat.add_sub_cancel_left]
    exact BitVec.getLsbD_eq_getElem inside
  rw [lower, upper]

/-- The mixer with some words of its rate handed out. -/
def TrngState.handedOut (state : TrngState σ) (count : Nat) : Prop := state.posn = 4 * count ∧ count ≤ 2

theorem asconTrngGenerate32_inside (prng : σ) {count : Nat} (room : count < 2) :
    asconTrngGenerate32 backend ⟨4 * count, prng⟩ = (⟨4 * (count + 1), prng⟩, backend.word prng count) := by
  have fits : ¬asconTrngMixerRate < 4 * count + 4 := by
    rw [asconTrngMixerRate]
    omega
  rw [asconTrngGenerate32]
  simp only [if_neg fits, Nat.mul_add, Nat.mul_one, Nat.mul_div_cancel_left count (Nat.zero_lt_succ 3)]

theorem asconTrngGenerate32_full (prng : σ) : asconTrngGenerate32 backend ⟨4 * 2, prng⟩ =
    (⟨4 * 1, backend.permute prng 6⟩, backend.word (backend.permute prng 6) 0) := by
  rw [asconTrngGenerate32]
  simp only [if_pos (show asconTrngMixerRate < 4 * 2 + 4 by decide)]

/-- A word of 64 bits is the whole rate, of a new state if a word of the old one is handed out. -/
theorem asconTrngGenerate64_eq (prng : σ) {count : Nat} (inside : count ≤ 2) :
    asconTrngGenerate64 backend ⟨4 * count, prng⟩ =
      let prng := if count = 0 then prng else backend.permute prng 6
      (⟨4 * 2, prng⟩, backend.word prng 1 ++ backend.word prng 0) := by
  rw [asconTrngGenerate64]
  rcases Nat.eq_zero_or_pos count with rfl | used
  · simp only [if_neg (show ¬(asconTrngMixerRate < 4 * 0 + 8 ∨ 4 * 0 % 8 ≠ 0) by decide), if_pos]
  · have leaves : asconTrngMixerRate < 4 * count + 8 ∨ 4 * count % 8 ≠ 0 := by
      rw [asconTrngMixerRate]
      omega
    simp only [if_pos leaves, if_neg (Nat.ne_of_gt used)]

/-- One call hands out the next words of the rate, or the first ones of the next state. -/
theorem trngCall_reads {state : TrngState σ} {count : Nat} (handed : state.handedOut count) (trng : List TrngAnswer)
    (call : TrngCall) :
    ∃ count', (trngCall backend (state, trng) call).1.1.handedOut count' ∧
      ((trngCall backend (state, trng) call).1.1.prng = state.prng ∧
          (backend.rateWords state.prng).drop count =
            (trngCall backend (state, trng) call).2 ++ (backend.rateWords state.prng).drop count' ∨
        backend.Advances state.prng (trngCall backend (state, trng) call).1.1.prng ∧
          (trngCall backend (state, trng) call).2 =
            (backend.rateWords (trngCall backend (state, trng) call).1.1.prng).take count') := by
  obtain ⟨posn, prng⟩ := state
  obtain ⟨rfl, inside⟩ := handed
  cases call with
  | generate32 =>
      rcases Nat.lt_or_ge count 2 with room | full
      · rw [trngCall, asconTrngGenerate32_inside prng room]
        have next : (backend.rateWords prng).drop count =
            [backend.word prng count] ++ (backend.rateWords prng).drop (count + 1) := by
          have which : count = 0 ∨ count = 1 := by omega
          rcases which with rfl | rfl
          · rfl
          · rfl
        exact ⟨count + 1, ⟨rfl, room⟩, Or.inl ⟨rfl, next⟩⟩
      · obtain rfl : count = 2 := Nat.le_antisymm inside full
        rw [trngCall, asconTrngGenerate32_full]
        exact ⟨1, ⟨rfl, by decide⟩, Or.inr ⟨.output prng, rfl⟩⟩
  | generate64 =>
      rw [trngCall, asconTrngGenerate64_eq prng inside]
      simp only [halves_of_append]
      rcases Nat.eq_zero_or_pos count with rfl | used
      · exact ⟨2, ⟨rfl, Nat.le_refl 2⟩, Or.inl ⟨rfl, rfl⟩⟩
      · simp only [if_neg (Nat.ne_of_gt used)]
        exact ⟨2, ⟨rfl, Nat.le_refl 2⟩, Or.inr ⟨.output prng, rfl⟩⟩
  | reseed => exact ⟨0, ⟨rfl, by decide⟩, Or.inr ⟨.seed prng _, rfl⟩⟩

/-- A run from a state of which some words are handed out. -/
theorem trngRun_reads {state : TrngState σ} {count : Nat} (handed : state.handedOut count) (trng : List TrngAnswer)
    (calls : List TrngCall) :
    ∃ states count', backend.Chain state.prng states ∧
      (run (trngCall backend) (state, trng) calls).1.1.prng = MixerBackend.last state.prng states ∧
      (run (trngCall backend) (state, trng) calls).1.1.handedOut count' ∧
      (run (trngCall backend) (state, trng) calls).2.flatten.Sublist
        ((backend.rateWords state.prng).drop count ++ states.flatMap backend.rateWords) := by
  induction calls generalizing state count trng with
  | nil => exact ⟨[], count, trivial, rfl, handed, List.nil_sublist _⟩
  | cons call calls ih =>
      obtain ⟨count₁, handed₁, reads⟩ := trngCall_reads handed trng call
      obtain ⟨states, count', chain, prng, handed', words⟩ := ih handed₁
        (trngCall backend (state, trng) call).1.2
      rw [run_cons, List.flatten_cons]
      rcases reads with ⟨same, rest⟩ | ⟨advances, output⟩
      · rw [same] at chain prng words
        refine ⟨states, count', chain, prng, handed', ?_⟩
        rw [rest, List.append_assoc]
        exact words.append_left _
      · -- what is left of the old rate is not handed out.
        refine ⟨_ :: states, count', ⟨advances, chain⟩, prng, handed', ?_⟩
        rw [output, List.flatMap_cons]
        have joined := words.append_left (List.take count₁
          (backend.rateWords (trngCall backend (state, trng) call).1.1.prng))
        rw [← List.append_assoc, List.take_append_drop] at joined
        exact joined.trans (List.sublist_append_right _ _)

end

/-- From initialization on, whatever the random number source answers, the words that all calls hand out are a
sublist of the rates of the states that the mixer goes through, one after the other; between calls zero, one or two
words of the rate of the last state are handed out. -/
theorem trng_mixer_hands_out_once {σ : Type} (backend : MixerBackend σ) (trng : List TrngAnswer)
    (calls : List TrngCall) :
    let start := asconTrngInit backend trng
    let done := run (trngCall backend) (start.1, start.2.2) calls
    ∃ states, backend.Chain start.1.prng states ∧ done.1.1.prng = MixerBackend.last start.1.prng states ∧
      (done.1.1.posn = 0 ∨ done.1.1.posn = 4 ∨ done.1.1.posn = 8) ∧
      done.2.flatten.Sublist ((start.1.prng :: states).flatMap backend.rateWords) := by
  have started : (asconTrngInit backend trng).1.handedOut 0 := ⟨rfl, Nat.zero_le 2⟩
  obtain ⟨states, count, chain, prng, ⟨posn, inside⟩, words⟩ :=
    @trngRun_reads σ backend _ _ started (asconTrngInit backend trng).2.2 calls
  exact ⟨states, chain, prng, by omega, words⟩

end AsconSuite
