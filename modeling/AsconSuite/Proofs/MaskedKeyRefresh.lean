/-
Module: AsconSuite.Proofs.MaskedKeyRefresh
Layer: Proofs
Purpose: What the refresh of a masked key can reach. The words behind the shares stay, and every sharing of them is
  reached when the functions for the configured number of shares are called; those for two shares leave the others
  as they are.
Imports: AsconSuite.Aead.Masked, AsconSuite.Proofs.MaskedBytes
Trusted boundary: none
Main exports: unmaskWord_maskedWordRandomize_of_le, exists_maskedWordRandomize, randomizeKeyWords_apply,
  exists_randomizeKeyWords, MaskedKeySize, RefreshComplete, masked_key_refresh_complete_iff
-/
import AsconSuite.Aead.Masked
import AsconSuite.Proofs.MaskedBytes

namespace AsconSuite

open ByteWord ByteMemory RotatedSharing

/-! ### One word -/

theorem skip_skip (trng : Trng) (m n : Nat) : (trng.skip m).skip n = trng.skip (m + n) := by
  funext i
  exact congrArg trng (Nat.add_assoc m n i).symm

/-- The random shares are the library's sharing of zero. -/
theorem randomShares_eq_blind {n : Nat} (small : n ≤ 6) (random : Nat → Word) :
    randomShares n random = blind 11 n random := by
  funext i
  rw [randomShares, blind]
  by_cases first : i = 0
  · rw [if_pos first, if_pos first]
  · by_cases share : i < n
    · rw [if_neg first, if_neg first, if_pos share, if_pos share, rotateShare_eq (by omega), Nat.sub_zero]
    · rw [if_neg first, if_neg first, if_neg share, if_neg share]
      rfl

theorem maskedWordRandomize_apply (n : Nat) (word : MaskedWord) (trng : Trng) (i : Nat) :
    (maskedWordRandomize n word trng).1 i =
      if i < n then word i ^^^ randomShares n trng i else word i := rfl

/-- The sum of `m` random shares and a word is a sharing of the word. -/
theorem unmaskWord_maskedWordRandomize_of_le {m n : Nat} (some_share : 0 < m) (le : m ≤ n) (small : n ≤ 6)
    (word : MaskedWord) (trng : Trng) :
    unmaskWord n (maskedWordRandomize m word trng).1 = unmaskWord n word := by
  have shares : unmask 53 n (maskedWordRandomize m word trng).1 =
      unmask 53 n fun i => word i ^^^ if i < m then randomShares m trng i else 0#64 :=
    unmask_congr fun i _ => by
      rw [maskedWordRandomize_apply]
      by_cases share : i < m
      · rw [if_pos share, if_pos share]
      · rw [if_neg share, if_neg share, BitVec.xor_zero]
  rw [unmaskWord_eq_unmask small, unmaskWord_eq_unmask small, shares, unmask_xor, unmask_extend le,
    randomShares_eq_blind (Nat.le_trans le small), unmask_blind rfl some_share, BitVec.xor_zero]

/-- A word with `n` shares becomes any other sharing of itself. -/
theorem exists_maskedWordRandomize {n : Nat} (some_share : 0 < n) (small : n ≤ 6) {word other : MaskedWord}
    (same : unmaskWord n other = unmaskWord n word) :
    ∃ trng : Trng, ∀ share < n, (maskedWordRandomize n word trng).1 share = other share := by
  have zero : unmask 53 n (fun i => word i ^^^ other i) = 0#64 := by
    rw [unmask_xor, ← unmaskWord_eq_unmask small, ← unmaskWord_eq_unmask small, same, BitVec.xor_self]
  obtain ⟨random, made⟩ := exists_blind (show 11 + 53 = 64 from rfl) some_share zero
  refine ⟨random, fun share hi => ?_⟩
  rw [maskedWordRandomize_apply, if_pos hi, randomShares_eq_blind small, made share hi,
    ← BitVec.xor_assoc, BitVec.xor_self, BitVec.zero_xor]

/-- The refresh of a word uses one random word less than there are shares. -/
theorem maskedWordRandomize_congr {n : Nat} (word : MaskedWord) {trng random : Trng}
    (same : ∀ i < n - 1, trng i = random i) :
    (maskedWordRandomize n word trng).1 = (maskedWordRandomize n word random).1 := by
  have shares (i : Nat) : randomShares n trng i = randomShares n random i := by
    rw [randomShares, randomShares, xorRange_congr same]
    by_cases share : i ≠ 0 ∧ i < n
    · rw [if_neg share.1, if_neg share.1, if_pos share.2, if_pos share.2, same (i - 1) (by omega)]
    · by_cases first : i = 0
      · rw [if_pos first, if_pos first]
      · rw [if_neg first, if_neg first, if_neg (fun hi => share ⟨first, hi⟩),
          if_neg (fun hi => share ⟨first, hi⟩)]
  funext i
  rw [maskedWordRandomize_apply, maskedWordRandomize_apply, shares]

/-! ### The words of a key -/

/-- Each word is refreshed with random words of its own. -/
theorem randomizeKeyWords_apply (n : Nat) (masked : MaskedKey) (trng : Trng) (index words i : Nat) :
    (randomizeKeyWords n masked trng index words).1 i =
      if index ≤ i ∧ i < index + words then
        (maskedWordRandomize n (masked i) (trng.skip ((i - index) * (n - 1)))).1
      else masked i := by
  induction words generalizing masked trng index with
  | zero => rw [randomizeKeyWords, if_neg (by omega)]
  | succ words ih =>
      rw [randomizeKeyWords, ih]
      rcases Nat.lt_trichotomy i index with before | here | behind
      · rw [if_neg (by omega), if_neg (by omega), if_neg (by omega)]
      · subst here
        rw [if_neg (by omega), if_pos rfl, if_pos (by omega), Nat.sub_self, Nat.zero_mul]
        exact congrArg (fun t => (maskedWordRandomize n (masked i) t).1)
          (funext fun k => congrArg trng (Nat.zero_add k).symm)
      · obtain ⟨later, rfl⟩ := Nat.exists_eq_add_of_lt behind
        have skipped : (maskedWordRandomize n (masked index) trng).2 = trng.skip (n - 1) := rfl
        have turn : index + later + 1 - index = (index + later + 1 - (index + 1)) + 1 := by omega
        rw [if_neg (show ¬ index + later + 1 = index by omega), skipped, skip_skip, turn, Nat.succ_mul,
          Nat.add_comm (n - 1)]
        by_cases inside : later < words
        · rw [if_pos (by omega), if_pos (by omega)]
        · rw [if_neg (by omega), if_neg (by omega)]

/-- All the words together become any other sharings of themselves. -/
theorem exists_randomizeKeyWords {n : Nat} (shares : 2 ≤ n) (small : n ≤ 6) (words : Nat) {masked other : MaskedKey}
    (same : ∀ i < words, unmaskWord n (other i) = unmaskWord n (masked i)) :
    ∃ trng : Trng, ∀ i < words, ∀ share < n,
      (randomizeKeyWords n masked trng 0 words).1 i share = other i share := by
  have each (i : Nat) : ∃ random : Trng, i < words → ∀ share < n,
      (maskedWordRandomize n (masked i) random).1 share = other i share := by
    by_cases hi : i < words
    · obtain ⟨random, made⟩ := exists_maskedWordRandomize (Nat.lt_of_lt_of_le Nat.zero_lt_two shares) small
        (same i hi)
      exact ⟨random, fun _ => made⟩
    · exact ⟨fun _ => 0, fun inside => absurd inside hi⟩
  choose random made using each
  -- the random words of the keys one behind the other.
  refine ⟨fun k => random (k / (n - 1)) (k % (n - 1)), fun i hi share hs => ?_⟩
  rw [randomizeKeyWords_apply, if_pos (by omega), ← made i hi share hs, Nat.sub_zero]
  refine congrFun (maskedWordRandomize_congr (masked i) fun k hk => ?_) share
  have place : (i * (n - 1) + k) / (n - 1) = i := by
    rw [Nat.mul_comm, Nat.mul_add_div (Nat.zero_lt_of_lt hk), Nat.div_eq_of_lt hk, Nat.add_zero]
  have offset : (i * (n - 1) + k) % (n - 1) = k := by
    rw [Nat.mul_comm, Nat.mul_add_mod, Nat.mod_eq_of_lt hk]
  rw [Trng.skip, place, offset]

/-! ### The keys -/

/-- The two masked keys. -/
inductive MaskedKeySize where
  | key128
  | key160
deriving DecidableEq

namespace MaskedKeySize

/-- The number of words in the array `k`. -/
def words : MaskedKeySize → Nat
  | key128 => 2
  | key160 => 6

def randomizeWithTrng : MaskedKeySize → Nat → MaskedKey → Trng → MaskedKey × Trng
  | key128 => asconMaskedKey128RandomizeWithTrng
  | key160 => asconMaskedKey160RandomizeWithTrng

def extract : MaskedKeySize → Nat → MaskedKey → Mem → Nat → Mem
  | key128 => asconMaskedKey128Extract
  | key160 => asconMaskedKey160Extract

/-- How many shares the refresh of a key gives random words to. -/
def refreshed : MaskedKeySize → Nat → Nat
  | key128, n => n
  | key160, _ => 2

theorem randomizeWithTrng_eq (size : MaskedKeySize) (n : Nat) (masked : MaskedKey) (trng : Trng) :
    size.randomizeWithTrng n masked trng = randomizeKeyWords (size.refreshed n) masked trng 0 size.words := by
  cases size with
  | key128 => rfl
  | key160 =>
      have branches : asconMaskedKey160RandomizeWithTrng n masked trng = randomizeKeyWords 2 masked trng 0 6 := by
        unfold asconMaskedKey160RandomizeWithTrng
        split <;> rfl
      exact branches

end MaskedKeySize

section

variable (size : MaskedKeySize) {n : Nat} (configured : 2 ≤ n ∧ n ≤ 4)

include configured

/-- The words behind the shares stay, for all keys and numbers of shares. -/
theorem unmaskWord_randomizeWithTrng (masked : MaskedKey) (trng : Trng) (i : Nat) :
    unmaskWord n ((size.randomizeWithTrng n masked trng).1 i) = unmaskWord n (masked i) := by
  have range : 0 < size.refreshed n ∧ size.refreshed n ≤ n := by
    cases size with
    | key128 => exact ⟨Nat.lt_of_lt_of_le Nat.zero_lt_two configured.1, Nat.le_refl n⟩
    | key160 => exact ⟨Nat.zero_lt_two, configured.1⟩
  rw [size.randomizeWithTrng_eq, randomizeKeyWords_apply]
  split
  · exact unmaskWord_maskedWordRandomize_of_le range.1 range.2 (by omega) _ _
  · rfl

/-- So does the key that is extracted. -/
theorem extract_randomizeWithTrng (masked : MaskedKey) (trng : Trng) (mem : Mem) (key : Nat) :
    size.extract n (size.randomizeWithTrng n masked trng).1 mem key = size.extract n masked mem key := by
  have kept := unmaskWord_randomizeWithTrng size configured masked trng
  cases size with
  | key128 =>
      rw [MaskedKeySize.extract, asconMaskedKey128Extract, asconMaskedKey128Extract]
      simp only [maskedWordStore_eq, kept]
  | key160 =>
      have short : 4 < 8 := by decide
      rw [MaskedKeySize.extract, asconMaskedKey160Extract, asconMaskedKey160Extract]
      simp only [maskedWordStore_eq, maskedWordStorePartial_eq_write n _ _ short, kept]

end

/-- The refresh of a key with `n` shares keeps its words, reaches every sharing of them, and reaches the same ones
from every sharing of them. -/
structure RefreshComplete (size : MaskedKeySize) (n : Nat) (masked : MaskedKey) : Prop where
  keeps : ∀ trng : Trng, ∀ i < size.words,
    unmaskWord n ((size.randomizeWithTrng n masked trng).1 i) = unmaskWord n (masked i)
  reaches : ∀ other : MaskedKey, (∀ i < size.words, unmaskWord n (other i) = unmaskWord n (masked i)) →
    ∃ trng : Trng, ∀ i < size.words, ∀ share < n,
      (size.randomizeWithTrng n masked trng).1 i share = other i share
  forgets : ∀ old : MaskedKey, (∀ i < size.words, unmaskWord n (old i) = unmaskWord n (masked i)) →
    ∀ trng : Trng, ∃ random : Trng, ∀ i < size.words, ∀ share < n,
      (size.randomizeWithTrng n masked random).1 i share = (size.randomizeWithTrng n old trng).1 i share

/-- When all the shares are given random words, the refresh is complete. -/
theorem refreshComplete_of_refreshed {size : MaskedKeySize} {n : Nat} (configured : 2 ≤ n ∧ n ≤ 4)
    (all : size.refreshed n = n) (masked : MaskedKey) : RefreshComplete size n masked := by
  have reaches (other : MaskedKey)
      (same : ∀ i < size.words, unmaskWord n (other i) = unmaskWord n (masked i)) :
      ∃ trng : Trng, ∀ i < size.words, ∀ share < n,
        (size.randomizeWithTrng n masked trng).1 i share = other i share := by
    obtain ⟨trng, made⟩ := exists_randomizeKeyWords configured.1 (by omega) size.words same
    refine ⟨trng, fun i hi share hs => ?_⟩
    rw [size.randomizeWithTrng_eq, all]
    exact made i hi share hs
  refine ⟨fun trng i _ => unmaskWord_randomizeWithTrng size configured masked trng i, reaches, ?_⟩
  intro old same trng
  refine reaches _ fun i hi => ?_
  rw [unmaskWord_randomizeWithTrng size configured, same i hi]

/-- A share beyond the second one of a 160-bit key never changes, so that the key it is added to is not reached. -/
theorem not_reaches_of_third_share {n : Nat} (configured : 2 ≤ n ∧ n ≤ 4) (third : 2 < n) (masked : MaskedKey) :
    ¬ RefreshComplete .key160 n masked := by
  intro complete
  -- one bit of share 2 of the first word flipped, and the same bit of the word in share 0.
  let flipped : MaskedWord := fun i =>
    if i = 0 then masked 0 0 ^^^ 0#64 ^^^ (1#64).rotateRight (53 * 2)
    else masked 0 i ^^^ if i = 2 then 1#64 else 0#64
  have shares : unmask 53 n flipped = unmask 53 n (masked 0) := by
    have parts := @unmask_addFirst 64 53 n (Nat.lt_trans Nat.zero_lt_two third)
      (fun i => masked 0 i ^^^ if i = 2 then 1#64 else 0#64) ((1#64).rotateRight (53 * 2))
    rw [unmask_xor, unmask_single third] at parts
    refine parts.trans ?_
    rw [BitVec.xor_assoc, BitVec.xor_self, BitVec.xor_zero]
  have same : ∀ i < MaskedKeySize.key160.words,
      unmaskWord n ((fun i => if i = 0 then flipped else masked i) i) = unmaskWord n (masked i) := by
    intro i _
    rw [unmaskWord_eq_unmask (by omega), unmaskWord_eq_unmask (by omega)]
    by_cases first : i = 0
    · simp only [if_pos first]
      rw [shares, first]
    · simp only [if_neg first]
  obtain ⟨trng, made⟩ := complete.reaches _ same
  have unchanged := made 0 (by decide) 2 third
  rw [MaskedKeySize.randomizeWithTrng_eq, randomizeKeyWords_apply, if_pos ⟨Nat.le_refl 0, by decide⟩,
    MaskedKeySize.refreshed, maskedWordRandomize_apply, if_neg (Nat.lt_irrefl 2)] at unchanged
  have bit := congrArg (masked 0 2 ^^^ ·) unchanged
  rw [BitVec.xor_self] at bit
  have other : masked 0 2 ^^^ flipped 2 = 1#64 := by
    show masked 0 2 ^^^ (masked 0 2 ^^^ 1#64) = 1#64
    rw [← BitVec.xor_assoc, BitVec.xor_self, BitVec.zero_xor]
  exact absurd (bit.trans other) (by decide)

/-- The refresh is complete exactly for the 128-bit key and for two shares. -/
theorem masked_key_refresh_complete_iff (cfg : MaskedConfig) (size : MaskedKeySize) (masked : MaskedKey) :
    RefreshComplete size cfg.keyShares masked ↔ size = .key128 ∨ cfg.keyShares = 2 := by
  constructor
  · intro complete
    cases size with
    | key128 => exact Or.inl rfl
    | key160 =>
        refine Or.inr (Nat.le_antisymm (Nat.le_of_not_lt fun third => ?_) cfg.keyShares_range.1)
        exact not_reaches_of_third_share cfg.keyShares_range third masked complete
  · rintro (rfl | two)
    · exact refreshComplete_of_refreshed cfg.keyShares_range rfl masked
    · refine refreshComplete_of_refreshed cfg.keyShares_range ?_ masked
      cases size with
      | key128 => rfl
      | key160 => exact two.symm

/-- A 160-bit key of zeroes with three shares is not refreshed. -/
theorem masked_key_refresh_incomplete : ¬ RefreshComplete .key160 3 fun _ _ => 0 :=
  not_reaches_of_third_share ⟨by decide, by decide⟩ (by decide) _

end AsconSuite
