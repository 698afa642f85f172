/-
Module: AsconSuite.Proofs.MaskedBijection
Layer: Proofs
Purpose: Going back through the masked permutations. The words behind the shares are known from the output, since the
  permutation of the words is one to one; with them the middle of the S-box of two or of four shares can be solved for
  the shares, one word after the other. With three shares it cannot: there are two inputs with the same output.
Imports: AsconSuite.Proofs.MaskedPermute, AsconSuite.Proofs.PermuteInverse
Trusted boundary: none
Main exports: SameShares, Chi, maskedSbox_same, maskedRounds_same, maskedPermute_same
-/
import AsconSuite.Proofs.MaskedPermute
import AsconSuite.Proofs.PermuteInverse

namespace AsconSuite

open ByteWord RotatedSharing
open RotationSums (diffuse_bijective)

/-! ### Words with the same shares -/

/-- The first `n` shares are the same. -/
def SameShares (n : Nat) (x y : MaskedWord) : Prop := ∀ i < n, x i = y i

/-- The first `n` shares of all words are the same. -/
structure SameState (n : Nat) (x y : MaskedState) : Prop where
  w0 : SameShares n x.w0 y.w0
  w1 : SameShares n x.w1 y.w1
  w2 : SameShares n x.w2 y.w2
  w3 : SameShares n x.w3 y.w3
  w4 : SameShares n x.w4 y.w4

variable {n : Nat} {x y z x' y' z' : MaskedWord}

theorem SameShares.of_xor_right (same : SameShares n y y')
    (sum : SameShares n (maskedWordXor n x y) (maskedWordXor n x' y')) : SameShares n x x' := by
  intro i below
  have share := sum i below
  rw [maskedWordXor, maskedWordXor, if_pos below, if_pos below, same i below] at share
  exact (BitVec.xor_left_inj _).1 share

theorem SameShares.of_addFirst {c : Word} (same : SameShares n (x.addFirst c) (x'.addFirst c)) :
    SameShares n x x' := by
  intro i below
  have share := same i below
  rw [MaskedWord.addFirst, MaskedWord.addFirst] at share
  by_cases first : i = 0
  · rw [if_pos first, if_pos first] at share
    rw [first]
    exact (BitVec.xor_left_inj _).1 share
  · rwa [if_neg first, if_neg first] at share

theorem SameShares.of_invertFirst (same : SameShares n (invertFirst x) (invertFirst x')) : SameShares n x x' := by
  intro i below
  have share := same i below
  rw [invertFirst, invertFirst] at share
  by_cases first : i = 0
  · rw [if_pos first, if_pos first] at share
    rw [first]
    exact BitVec.not_inj.1 share
  · rwa [if_neg first, if_neg first] at share

theorem SameShares.of_maskedDiffuse {r s : Nat} (hr : r < 64) (hs : s < 64)
    (same : SameShares n (maskedDiffuse n x r s) (maskedDiffuse n x' r s)) : SameShares n x x' := by
  intro i below
  have share := same i below
  rw [maskedDiffuse, maskedDiffuse, if_pos below, if_pos below, rightRotate64_eq_rotateRight _ hr,
    rightRotate64_eq_rotateRight _ hs, rightRotate64_eq_rotateRight _ hr, rightRotate64_eq_rotateRight _ hs] at share
  exact (diffuse_bijective (k := 6) rfl r s).injective share

theorem SameState.of_maskedLinear {s t : MaskedState} (same : SameState n (maskedLinear n s) (maskedLinear n t)) :
    SameState n s t where
  w0 := same.w0.of_maskedDiffuse (by decide) (by decide)
  w1 := same.w1.of_maskedDiffuse (by decide) (by decide)
  w2 := same.w2.of_maskedDiffuse (by decide) (by decide)
  w3 := same.w3.of_maskedDiffuse (by decide) (by decide)
  w4 := same.w4.of_maskedDiffuse (by decide) (by decide)

theorem SameShares.unmaskWord (small : n ≤ 6) (same : SameShares n x x') : unmaskWord n x = unmaskWord n x' :=
  unmaskWord_congr small same

theorem SameState.unmaskState {s t : MaskedState} (small : n ≤ 6) (same : SameState n s t) :
    unmaskState n s = unmaskState n t := by
  rw [AsconSuite.unmaskState, AsconSuite.unmaskState, same.w0.unmaskWord small, same.w1.unmaskWord small,
    same.w2.unmaskWord small, same.w3.unmaskWord small, same.w4.unmaskWord small]

/-- A rotation can be turned back. -/
theorem rotateRight_inj {w : Nat} {v u : BitVec w} {r : Nat} (same : v.rotateRight r = u.rotateRight r) : v = u := by
  apply BitVec.eq_of_getLsbD_eq
  intro i below
  have turned (v : BitVec w) : (v.rotateRight r).rotateRight (w - r % w) = v := by
    have inside := Nat.mod_lt r (Nat.lt_of_le_of_lt (Nat.zero_le i) below)
    have whole : r + (w - r % w) = 0 + w * (r / w + 1) := by
      have parts := Nat.div_add_mod r w
      rw [Nat.mul_add, Nat.mul_one]
      omega
    rw [rotateRight_rotateRight, whole, rotateRight_add_mul, rotateRight_of_zero]
  rw [← turned v, ← turned u, same]

/-- The last share is known from the others and the word behind them. -/
theorem SameShares.of_unmaskWord (small : n ≤ 6) (others : ∀ i < n - 1, x i = x' i)
    (same : AsconSuite.unmaskWord n x = AsconSuite.unmaskWord n x') : SameShares n x x' := by
  intro i below
  obtain ⟨last, rfl⟩ := Nat.exists_eq_add_of_lt (Nat.lt_of_le_of_lt (Nat.zero_le i) below)
  rw [Nat.zero_add] at below small same others
  rcases Nat.lt_or_ge i last with inner | outer
  · exact others i inner
  · have isLast : i = last := by omega
    rw [unmaskWord_eq_unmask small, unmaskWord_eq_unmask small, unmask, unmask, xorRange_succ, xorRange_succ,
      xorRange_congr fun j inside => by rw [others j inside], BitVec.xor_right_inj] at same
    rw [isLast]
    exact rotateRight_inj same

/-! ### The substitution layer -/

/-- A product that is added can be taken away when its factors are known. -/
def Cancels (n : Nat) (andNotXor : MaskedWord → MaskedWord → MaskedWord → MaskedWord) : Prop :=
  ∀ {x x' y y' z z' : MaskedWord}, SameShares n y y' → SameShares n z z' →
    SameShares n (andNotXor x y z) (andNotXor x' y' z') → SameShares n x x'

/-- The middle of the layer can be solved for the shares when the words behind them and the shares of `x4` are
known. -/
def Chi (n : Nat) (andNotXor : MaskedWord → MaskedWord → MaskedWord → MaskedWord) : Prop :=
  ∀ s t : MaskedState, unmaskState n s = unmaskState n t → SameShares n s.w4 t.w4 →
    SameShares n (andNotXor s.w0 s.w1 s.w2) (andNotXor t.w0 t.w1 t.w2) →
    SameShares n (andNotXor s.w1 s.w2 s.w3) (andNotXor t.w1 t.w2 t.w3) →
    SameShares n (andNotXor s.w2 s.w3 s.w4) (andNotXor t.w2 t.w3 t.w4) →
    SameShares n (andNotXor s.w3 s.w4 s.w0) (andNotXor t.w3 t.w4 t.w0) → SameState n s t

/-- With two shares a product needs the shares of its first factor. -/
theorem andNotXorX2_cancel (same : SameShares 2 y y') (word : unmaskWord 2 z = unmaskWord 2 z')
    (sum : SameShares 2 (andNotXorX2 x y z) (andNotXorX2 x' y' z')) : SameShares 2 x x' := by
  intro i below
  have share := sum i below
  have factor : invertFirst y i = invertFirst y' i := by
    rw [invertFirst, invertFirst, same 0 (by decide), same i below]
  rw [andNotXorX2_share _ _ _ below, andNotXorX2_share _ _ _ below, factor, word] at share
  exact (BitVec.xor_left_inj _).1 share

/-- With four shares a product needs the shares of its second factor. -/
theorem andNotXorX4_cancel (word : unmaskWord 4 y = unmaskWord 4 y') (same : SameShares 4 z z')
    (sum : SameShares 4 (andNotXorX4 x y z) (andNotXorX4 x' y' z')) : SameShares 4 x x' := by
  intro i below
  have share := sum i below
  rw [andNotXorX4_share _ _ _ below, andNotXorX4_share _ _ _ below, same i below, word] at share
  exact (BitVec.xor_left_inj _).1 share

theorem cancels_two : Cancels 2 andNotXorX2 := fun first second sum =>
  andNotXorX2_cancel first (second.unmaskWord (by decide)) sum

theorem cancels_four : Cancels 4 andNotXorX4 := fun first second sum =>
  andNotXorX4_cancel (first.unmaskWord (by decide)) second sum

/-- Two shares: `x3` follows from `x4`, then `x2`, `x1` and `x0`, each from the one before. -/
theorem chi_two : Chi 2 andNotXorX2 := by
  intro s t words same4 sum0 sum1 sum2 sum3
  simp only [unmaskState, Five.mk.injEq] at words
  obtain ⟨word0, word1, word2, word3, word4⟩ := words
  have same3 := andNotXorX2_cancel same4 word0 sum3
  have same2 := andNotXorX2_cancel same3 word4 sum2
  have same1 := andNotXorX2_cancel same2 word3 sum1
  have same0 := andNotXorX2_cancel same1 word2 sum0
  exact ⟨same0, same1, same2, same3, same4⟩

/-- Four shares: `x2` follows from `x4`, `x0` from `x2`, `x3` from `x0` and `x1` from `x3`. -/
theorem chi_four : Chi 4 andNotXorX4 := by
  intro s t words same4 sum0 sum1 sum2 sum3
  simp only [unmaskState, Five.mk.injEq] at words
  obtain ⟨word0, word1, word2, word3, word4⟩ := words
  have same2 := andNotXorX4_cancel word3 same4 sum2
  have same0 := andNotXorX4_cancel word1 same2 sum0
  have same3 := andNotXorX4_cancel word4 same0 sum3
  have same1 := andNotXorX4_cancel word2 same3 sum1
  exact ⟨same0, same1, same2, same3, same4⟩

section

variable {andNotXor : MaskedWord → MaskedWord → MaskedWord → MaskedWord}

/-- The state behind the first additions of the layer. -/
def sboxStart (n : Nat) (s : MaskedState) : MaskedState :=
  ⟨maskedWordXor n s.w0 s.w4, s.w1, maskedWordXor n s.w2 s.w1, s.w3, maskedWordXor n s.w4 s.w3⟩

/-- The random shares behind the layer. -/
theorem maskedSbox_random (s : MaskedState) (preserve : Nat → Word) : (maskedSbox n andNotXor s preserve).2 =
    andNotXor (preservedShares n preserve) (sboxStart n s).w0 (sboxStart n s).w1 := rfl

/-- The words behind the layer, from those in front of its last additions. -/
theorem maskedSbox_words (s : MaskedState) (preserve : Nat → Word) :
    let b := sboxStart n s
    let m0 := andNotXor b.w0 b.w1 b.w2
    let m2 := andNotXor b.w2 b.w3 b.w4
    let m4 := maskedWordXor n b.w4 (maskedSbox n andNotXor s preserve).2
    (maskedSbox n andNotXor s preserve).1 = ⟨maskedWordXor n m0 m4, maskedWordXor n (andNotXor b.w1 b.w2 b.w3) m0, m2,
      maskedWordXor n (andNotXor b.w3 b.w4 b.w0) m2, m4⟩ := rfl

theorem SameState.of_sboxStart {s t : MaskedState} (same : SameState n (sboxStart n s) (sboxStart n t)) :
    SameState n s t := by
  have same1 : SameShares n s.w1 t.w1 := same.w1
  have same3 : SameShares n s.w3 t.w3 := same.w3
  have same4 : SameShares n s.w4 t.w4 := same3.of_xor_right same.w4
  exact ⟨same4.of_xor_right same.w0, same1, same1.of_xor_right same.w2, same3, same4⟩

variable (some_share : 0 < n) (small : n ≤ 6) (product : AndNotXor n andNotXor) (cancels : Cancels n andNotXor)
  (chi : Chi n andNotXor)

include some_share small product cancels chi

/-- The layer can be gone back from the state and the random shares that are kept. -/
theorem maskedSbox_same {s t : MaskedState} {p q : Nat → Word}
    (same : SameState n (maskedSbox n andNotXor s p).1 (maskedSbox n andNotXor t q).1)
    (kept : ∀ i < n - 1, (maskedSbox n andNotXor s p).2 i = (maskedSbox n andNotXor t q).2 i) :
    SameState n s t ∧ ∀ i < n - 1, p i = q i := by
  -- the words behind the shares, first of the state and then of the random shares
  have words : unmaskState n s = unmaskState n t := by
    apply permuteSbox_injective
    rw [← unmaskState_maskedSbox some_share small product s p, ← unmaskState_maskedSbox some_share small product t q,
      same.unmaskState small]
  have begun : unmaskState n (sboxStart n s) = unmaskState n (sboxStart n t) := by
    simp only [unmaskState, Five.mk.injEq] at words
    obtain ⟨word0, word1, word2, word3, word4⟩ := words
    simp only [unmaskState, sboxStart, unmaskWord_maskedWordXor small, word0, word1, word2, word3, word4]
  have random : SameShares n (maskedSbox n andNotXor s p).2 (maskedSbox n andNotXor t q).2 := by
    refine SameShares.of_unmaskWord small kept ?_
    simp only [unmaskState, Five.mk.injEq] at begun
    rw [maskedSbox_random, maskedSbox_random, product, product, unmaskWord_preservedShares some_share small,
      unmaskWord_preservedShares some_share small, begun.1, begun.2.1]
  -- the shares in front of the last additions
  rw [maskedSbox_words, maskedSbox_words] at same
  have last4 := same.w4
  have last2 := same.w2
  have last0 := last4.of_xor_right same.w0
  have last1 := last0.of_xor_right same.w1
  have last3 := last2.of_xor_right same.w3
  have start : SameState n (sboxStart n s) (sboxStart n t) :=
    chi _ _ begun (random.of_xor_right last4) last0 last1 last2 last3
  refine ⟨start.of_sboxStart, fun i below => ?_⟩
  rw [maskedSbox_random, maskedSbox_random] at random
  have share := cancels start.w0 start.w1 random i (by omega)
  rwa [preservedShares, preservedShares, if_neg (by omega), if_neg (by omega)] at share

/-! ### Rounds -/

omit some_share small product cancels chi in
theorem rotatePreserved_inj {a b : MaskedWord} {i : Nat} (same : rotatePreserved a i = rotatePreserved b i) :
    a i = b i := by
  have turned {v w : Word} {r : Nat} (small : r < 64) (equal : rightRotate64 v r = rightRotate64 w r) : v = w := by
    rw [rightRotate64_eq_rotateRight _ small, rightRotate64_eq_rotateRight _ small] at equal
    exact rotateRight_inj equal
  rcases i with _ | _ | _ | i
  · exact turned (by decide) same
  · exact turned (by decide) same
  · exact turned (by decide) same
  · exact same

/-- The rounds can be gone back. -/
theorem maskedRounds_same (firstRound : Nat) {s t : MaskedState} {p q : Nat → Word}
    (same : SameState n (maskedRounds n andNotXor s firstRound p).1 (maskedRounds n andNotXor t firstRound q).1)
    (kept : ∀ i < n - 1, (maskedRounds n andNotXor s firstRound p).2 i = (maskedRounds n andNotXor t firstRound q).2 i) :
    SameState n s t ∧ ∀ i < n - 1, p i = q i := by
  by_cases isRound : firstRound < 12
  · rw [maskedRounds, if_pos isRound, maskedRounds.eq_def n andNotXor t, if_pos isRound] at same kept
    obtain ⟨later, random⟩ := maskedRounds_same (firstRound + 1) same kept
    obtain ⟨added, preserved⟩ := maskedSbox_same some_share small product cancels chi later.of_maskedLinear
      fun i below => rotatePreserved_inj (random i below)
    exact ⟨⟨added.w0, added.w1, added.w2.of_addFirst, added.w3, added.w4⟩, preserved⟩
  · rw [maskedRounds, if_neg isRound, maskedRounds.eq_def n andNotXor t, if_neg isRound] at same kept
    exact ⟨same, kept⟩
termination_by 12 - firstRound

/-- The permutation can be gone back. -/
theorem maskedPermute_same (firstRound : Nat) {s t : MaskedState} {p q : Nat → Word}
    (same : SameState n (maskedPermute n andNotXor s firstRound p).1 (maskedPermute n andNotXor t firstRound q).1)
    (kept : ∀ i < n - 1, (maskedPermute n andNotXor s firstRound p).2 i =
      (maskedPermute n andNotXor t firstRound q).2 i) : SameState n s t ∧ ∀ i < n - 1, p i = q i := by
  have rounds : SameState n (maskedRounds n andNotXor { s with w2 := invertFirst s.w2 } firstRound p).1
      (maskedRounds n andNotXor { t with w2 := invertFirst t.w2 } firstRound q).1 :=
    ⟨same.w0, same.w1, same.w2.of_invertFirst, same.w3, same.w4⟩
  obtain ⟨inverted, preserved⟩ := maskedRounds_same some_share small product cancels chi firstRound rounds
    fun i below => by
      have word := kept i below
      simp only [maskedPermute, if_pos below] at word
      exact word
  exact ⟨⟨inverted.w0, inverted.w1, inverted.w2.of_invertFirst, inverted.w3, inverted.w4⟩, preserved⟩

end

end AsconSuite
