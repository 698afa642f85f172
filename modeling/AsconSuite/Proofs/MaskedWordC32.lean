/-
Module: AsconSuite.Proofs.MaskedWordC32
Layer: Proofs
Purpose: What the masked word functions of the 32-bit backend do to the word behind the shares. A combined
  share is a word rotated right by ten steps for each share in front of it, so the words combined from a
  masked word are a rotated sharing and the laws of such sharings apply.
Imports: AsconSuite.Masking.WordC32, AsconSuite.Proofs.SlicedBytes, AsconSuite.Proofs.MaskedBytes
Trusted boundary: none
Main exports: MaskedC32.unmaskWord, MaskedC32.unmaskWord_maskedWordLoad32,
  MaskedC32.unmaskWord_maskedWordLoadPartial, MaskedC32.maskedWordStore_eq,
  MaskedC32.maskedWordStorePartial_eq_write, MaskedC32.unmaskWord_maskedWordReplace
-/
import AsconSuite.Masking.WordC32
import AsconSuite.Proofs.SlicedBytes
import AsconSuite.Proofs.MaskedBytes

namespace AsconSuite.MaskedC32

open ByteWord ByteMemory RotatedSharing
open Sliced32

/-- The word behind `n` shares. -/
def unmaskWord (n : Nat) (word : MaskedWord) : Word :=
  unmask 54 n fun i => combineWord (word i)

/-! ### Combined shares -/

theorem combineWord_zero : combineWord ⟨0#32, 0#32⟩ = 0#64 := by decide

theorem combineWord_addRange (n : Nat) (f : Nat → SlicedWord) :
    combineWord (addRange n f) = xorRange n fun k => combineWord (f k) := by
  induction n with
  | zero => exact combineWord_zero
  | succ n ih => rw [addRange, combineWord_addSliced, ih, xorRange_succ]

theorem combineWord_rotateShare {i j : Nat} (small : i - j ≤ 5) (x : SlicedWord) :
    combineWord (rotateShare i j x) = (combineWord x).rotateRight (10 * (i - j)) := by
  rw [rotateShare, rightRotate_eq_rotateRight _ (by omega), rightRotate_eq_rotateRight _ (by omega),
    combineWord_rotateRight, ← Nat.mul_assoc]

theorem combineWord_unrotateShare {i j : Nat} (above : j < i) (small : i - j ≤ 5) (x : SlicedWord) :
    combineWord (unrotateShare i j x) = (combineWord x).rotateRight (54 * (i - j)) := by
  obtain ⟨k, hk⟩ := Nat.exists_eq_add_of_lt above
  have turns : 54 * (i - j) = 2 * (32 - 5 * (i - j)) + 64 * (i - j - 1) := by omega
  rw [unrotateShare, rightRotate_eq_rotateRight _ (by omega), rightRotate_eq_rotateRight _ (by omega),
    combineWord_rotateRight, turns, rotateRight_add_mul]

/-- A share rotated into place and turned back is the word itself. -/
theorem rotateRight_rotateRight_share (x : Word) (i : Nat) :
    (x.rotateRight (10 * i)).rotateRight (54 * i) = x := by
  have full : 10 * i + 54 * i = 0 + 64 * i := by omega
  rw [rotateRight_rotateRight, full, rotateRight_add_mul, rotateRight_of_zero]

/-- The combined random shares blind a rotated sharing. -/
theorem combineWord_randomShares {n : Nat} (small : n ≤ 6) (random : Nat → SlicedWord) {i : Nat} :
    combineWord (randomShares n random i) = blind 10 n (fun k => combineWord (random k)) i := by
  rw [randomShares, blind]
  by_cases first : i = 0
  · rw [if_pos first, if_pos first, combineWord_addRange]
  · rw [if_neg first, if_neg first]
    by_cases inside : i < n
    · rw [if_pos inside, if_pos inside, combineWord_rotateShare (by omega), Nat.sub_zero]
    · rw [if_neg inside, if_neg inside, combineWord_zero]

/-- The shares as the load functions leave them: a word and its random mask in the first two, and further
random words added to the first. -/
theorem unmask_loaded {n : Nat} (two_shares : 2 ≤ n) (masked random : Word) (more : Nat → Word) :
    (unmask 54 n fun i =>
        if i = 0 then masked ^^^ xorRange (n - 2) more
        else if i = 1 then random.rotateRight 10
        else (more (i - 2)).rotateRight (10 * i)) = masked ^^^ random := by
  obtain ⟨m, rfl⟩ := Nat.exists_eq_add_of_le two_shares
  have rest : (xorRange m fun i => ((if 1 + (1 + i) = 0 then masked ^^^ xorRange (2 + m - 2) more
        else if 1 + (1 + i) = 1 then random.rotateRight 10
        else (more (1 + (1 + i) - 2)).rotateRight (10 * (1 + (1 + i)))).rotateRight
          (54 * (1 + (1 + i))))) = xorRange m more :=
    xorRange_congr fun i _ => by
      rw [if_neg (by omega), if_neg (by omega), rotateRight_rotateRight_share,
        show 1 + (1 + i) - 2 = i by omega]
  rw [unmask, show 2 + m = m + 1 + 1 by omega, xorRange_succ_first, xorRange_succ_first]
  rw [show m + 1 + 1 = 2 + m by omega, rest, if_pos rfl, if_neg (by omega), if_pos (by omega),
    Nat.mul_zero, rotateRight_of_zero, Nat.add_zero, Nat.mul_one]
  have back := rotateRight_rotateRight_share random 1
  rw [Nat.mul_one, Nat.mul_one] at back
  rw [back, Nat.add_sub_cancel_left, BitVec.xor_assoc, xor_left_comm (xorRange m more),
    BitVec.xor_self, BitVec.xor_zero]

/-- Turning the random word of the load steps before them is turning what they make of it. -/
theorem loadPartialSteps_rotateRight (masked random : Word) (r : Nat) (data : Mem) (size : Nat) :
    loadPartialSteps masked (random.rotateRight r) data size =
      ((loadPartialSteps masked random data size).1,
        (loadPartialSteps masked random data size).2.rotateRight r) := by
  have turn (x : Word) {bits : Nat} (hb : bits < 64) :
      rightRotate64 (x.rotateRight r) bits = (rightRotate64 x bits).rotateRight r := by
    rw [rightRotate64_eq_rotateRight _ hb, rightRotate64_eq_rotateRight _ hb, rotateRight_rotateRight,
      rotateRight_rotateRight, Nat.add_comm]
  simp only [loadPartialSteps]
  by_cases four : 4 ≤ size
  · simp only [if_pos four]
    by_cases two : 2 ≤ size - 4
    · simp only [if_pos two]
      split <;> simp only [turn _ (show 32 < 64 by omega), turn _ (show 16 < 64 by omega),
        turn _ (show 8 < 64 by omega)]
    · simp only [if_neg two]
      split <;> simp only [turn _ (show 32 < 64 by omega), turn _ (show 8 < 64 by omega)]
  · simp only [if_neg four]
    by_cases two : 2 ≤ size
    · simp only [if_pos two]
      split <;> simp only [turn _ (show 16 < 64 by omega), turn _ (show 8 < 64 by omega)]
    · simp only [if_neg two]
      split <;> simp only [turn _ (show 8 < 64 by omega)]

/-- The load steps leave a sharing of the loaded bytes. -/
theorem loadPartialSteps_xor (random : Word) (data : Mem) {size : Nat} (short : size < 8) :
    (loadPartialSteps random random data size).1 ^^^ (loadPartialSteps random random data size).2 =
      firstBytes size data := by
  have back (x : Word) : (x.rotateRight 11).rotateRight 53 = x :=
    AsconSuite.rotateRight_rotateRight_share x 1
  obtain ⟨-, shared⟩ := placed_loadPartialSteps data short
    (show random ^^^ (random.rotateRight 11).rotateRight 53 = 0#64 by rw [back, BitVec.xor_self])
  rw [loadPartialSteps_rotateRight, back, Nat.sub_zero, view_zero] at shared
  exact shared

/-- Two halves that were masked before they were separated, and their mask. -/
theorem combineWord_maskedHalves (high low : BitVec 32) (random : SlicedWord) :
    combineWord (sliceHalves (asconSeparate (random.even ^^^ high))
        (asconSeparate (random.odd ^^^ low))) ^^^
      combineWord (sliceHalves (asconSeparate random.even) (asconSeparate random.odd)) =
      (high.setWidth 64 <<< 32) ||| low.setWidth 64 := by
  rw [asconSeparate_xor, asconSeparate_xor, sliceHalves_xor, combineWord_addSliced,
    combineWord_sliceHalves high, BitVec.xor_comm, ← BitVec.xor_assoc, BitVec.xor_self,
    BitVec.zero_xor]

section

variable {n : Nat} (small : n ≤ 6) (two_shares : 2 ≤ n)

include small two_shares

/-! ### Loading -/

theorem unmaskWord_maskedWordLoad32 (data1 data2 : Mem) (trng : Trng) :
    unmaskWord n (maskedWordLoad32 n data1 data2 trng).1 =
      ((beLoadWord32 data1).setWidth 64 <<< 32) ||| (beLoadWord32 data2).setWidth 64 := by
  have unmasked := combineWord_maskedHalves (beLoadWord32 data1) (beLoadWord32 data2)
    (randomPair trng 0)
  rw [maskedWordLoad32, ← unmasked]
  generalize sliceHalves (asconSeparate ((randomPair trng 0).even ^^^ beLoadWord32 data1))
    (asconSeparate ((randomPair trng 0).odd ^^^ beLoadWord32 data2)) = masked
  generalize sliceHalves (asconSeparate (randomPair trng 0).even)
    (asconSeparate (randomPair trng 0).odd) = random
  rw [← unmask_loaded two_shares (combineWord masked) (combineWord random)
    fun k => (combineWord (randomPair trng (k + 1))).rotateRight (54 * (k + 2)), unmaskWord]
  generalize randomPair trng = pair
  have turned : ∀ k < n - 2, combineWord (unrotateShare (k + 2) 0 (pair (k + 1))) =
      (combineWord (pair (k + 1))).rotateRight (54 * (k + 2)) := fun k hk => by
    rw [combineWord_unrotateShare (by omega) (by omega), Nat.sub_zero]
  refine unmask_congr fun i hi => ?_
  dsimp only
  by_cases first : i = 0
  · rw [if_pos first, if_pos first, combineWord_addSliced, combineWord_addRange, xorRange_congr turned]
  · rw [if_neg first, if_neg first]
    by_cases second : i = 1
    · rw [if_pos second, if_pos second, combineWord_rotateShare (by omega)]
    · have full : 54 * (i - 2 + 2) + 10 * i = 0 + 64 * i := by omega
      have pred : i - 1 = i - 2 + 1 := by omega
      rw [if_neg second, if_neg second, if_pos hi, rotateRight_rotateRight, full,
        rotateRight_add_mul, rotateRight_of_zero, pred]

theorem unmaskWord_maskedWordLoad (data : Mem) (trng : Trng) :
    unmaskWord n (maskedWordLoad n data trng).1 = beLoadWord64 data := by
  rw [maskedWordLoad, unmaskWord_maskedWordLoad32 small two_shares, ← combineWord_sliceHalves]
  exact (congrArg combineWord (sliceData_eq_sliceWord data)).trans (combineWord_sliceWord _)

theorem unmaskWord_maskedWordLoadPartial (data : Mem) {size : Nat} (short : size < 8) (trng : Trng) :
    unmaskWord n (maskedWordLoadPartial n data size trng).1 = firstBytes size data := by
  have shared := loadPartialSteps_xor (trng 0) data short
  rw [maskedWordLoadPartial]
  generalize loadPartialSteps (trng 0) (trng 0) data size = steps at shared ⊢
  obtain ⟨masked, random⟩ := steps
  dsimp only at shared ⊢
  rw [← shared, ← unmask_loaded two_shares masked random
    fun k => combineWord (randomPair (trng.skip 1) k), unmaskWord]
  generalize randomPair (trng.skip 1) = pair
  refine unmask_congr fun i hi => ?_
  by_cases first : i = 0
  · rw [if_pos first, if_pos first, combineWord_addSliced, combineWord_addRange, combineWord_sliceWord]
  · rw [if_neg first, if_neg first]
    by_cases second : i = 1
    · rw [if_pos second, if_pos second, combineWord_rotateShare (by omega), combineWord_sliceWord]
    · rw [if_neg second, if_neg second, if_pos hi, combineWord_rotateShare (by omega), Nat.sub_zero]

end

/-! ### Storing -/

/-- The first share and the others are the word behind the shares. -/
theorem combineWord_otherShares {n : Nat} (some_share : 0 < n) (small : n ≤ 6) (word : MaskedWord) :
    combineWord (word 0) ^^^ combineWord (otherShares n word) = unmaskWord n word := by
  obtain ⟨m, rfl⟩ := Nat.exists_eq_add_of_lt some_share
  rw [Nat.zero_add] at small ⊢
  have turned : ∀ k < m, combineWord (unrotateShare (k + 1) 0 (word (k + 1))) =
      (combineWord (word (1 + k))).rotateRight (54 * (1 + k)) := fun k hk => by
    rw [combineWord_unrotateShare (by omega) (by omega), Nat.sub_zero, Nat.add_comm k 1]
  rw [unmaskWord, unmask, xorRange_succ_first, Nat.mul_zero, rotateRight_of_zero, otherShares,
    combineWord_addRange, Nat.add_sub_cancel, xorRange_congr turned]

theorem maskedWordStore_eq {n : Nat} (some_share : 0 < n) (small : n ≤ 6) (mem : Mem) (data : Nat)
    (word : MaskedWord) :
    maskedWordStore n mem data word = beStoreWord64 mem data (unmaskWord n word) := by
  rw [← combineWord_otherShares some_share small, ← storeHalves_eq, BitVec.ushiftRight_xor_distrib,
    BitVec.setWidth_xor, BitVec.setWidth_xor]
  simp only [setWidth_combineWord_ushiftRight, setWidth_combineWord, maskedWordStore]

theorem maskedWordStorePartial_eq_write {n : Nat} (some_share : 0 < n) (small : n ≤ 6) (mem : Mem)
    (data : Nat) {size : Nat} (short : size < 8) (word : MaskedWord) :
    maskedWordStorePartial n mem data size word =
      mem.write data (Mem.read (byteOf (unmaskWord n word)) 0 size) := by
  rw [maskedWordStorePartial, storePartialSteps_eq_write _ _ _ short, ← combineWord_otherShares
    some_share small, xorRange_succ, xorRange_succ, xorRange_zero, BitVec.zero_xor]
  rfl

/-! ### Replacing -/

/-- The mask for share `i`, in both halves, is the mask of the word rotated with the share. -/
theorem combineWord_shareMask (mask : BitVec 32) (i : Nat) :
    combineWord ⟨shareMask mask i, shareMask mask i⟩ =
      (combineWord ⟨mask, mask⟩).rotateRight (10 * i) := by
  induction i with
  | zero => rw [shareMask, Nat.mul_zero, rotateRight_of_zero]
  | succ i ih =>
      have turns : 10 * i + 2 * 5 = 10 * (i + 1) := by omega
      rw [shareMask, rightRotate_eq_rotateRight _ (by omega), combineWord_rotateRight
        ⟨shareMask mask i, shareMask mask i⟩, ih, rotateRight_rotateRight, turns]

theorem shareMask_not (mask : BitVec 32) (i : Nat) : shareMask (~~~mask) i = ~~~shareMask mask i := by
  induction i with
  | zero => rfl
  | succ i ih =>
      rw [shareMask, ih, shareMask, rightRotate_eq_rotateRight _ (by omega),
        rightRotate_eq_rotateRight _ (by omega), rotateRight_not]

/-- The mask in both halves is the mask of twice as many bits. -/
theorem combineWord_mask : ∀ size < 8,
    combineWord ⟨(~~~0#32) >>> (size * 4), (~~~0#32) >>> (size * 4)⟩ = (~~~0#64) >>> (size * 8) := by
  decide

theorem combineWord_allOnes : combineWord ⟨BitVec.allOnes 32, BitVec.allOnes 32⟩ = BitVec.allOnes 64 := by
  decide

theorem combineWord_not (x : SlicedWord) :
    combineWord ⟨~~~x.even, ~~~x.odd⟩ = ~~~combineWord x := by
  have inverted : (⟨~~~x.even, ~~~x.odd⟩ : SlicedWord) =
      addSliced x ⟨BitVec.allOnes 32, BitVec.allOnes 32⟩ := by
    rw [addSliced, BitVec.xor_allOnes, BitVec.xor_allOnes]
  rw [inverted, combineWord_addSliced, combineWord_allOnes, BitVec.xor_allOnes]

/-- A share replaced in part. -/
theorem combineWord_replaced (dest src mask : SlicedWord) :
    combineWord ⟨(dest.even &&& mask.even) ||| (src.even &&& ~~~mask.even),
        (dest.odd &&& mask.odd) ||| (src.odd &&& ~~~mask.odd)⟩ =
      (combineWord dest &&& combineWord mask) ^^^ (combineWord src &&& ~~~combineWord mask) := by
  rw [and_or_and_not, and_or_and_not]
  have sum := combineWord_addSliced ⟨dest.even &&& mask.even, dest.odd &&& mask.odd⟩
    ⟨src.even &&& ~~~mask.even, src.odd &&& ~~~mask.odd⟩
  rw [addSliced] at sum
  rw [sum, combineWord_and dest mask, combineWord_and src ⟨~~~mask.even, ~~~mask.odd⟩,
    combineWord_not mask]

theorem unmaskWord_maskedWordReplace {n : Nat} (dest src : MaskedWord) {size : Nat} (short : size < 8) :
    unmaskWord n (maskedWordReplace n dest src size) =
      (unmaskWord n dest &&& (~~~0#64) >>> (size * 8)) ^^^
        (unmaskWord n src &&& ~~~((~~~0#64) >>> (size * 8))) := by
  rw [unmaskWord, unmaskWord, unmaskWord, ← unmask_and_const (show 10 + 54 = 64 by omega),
    ← unmask_and_const (show 10 + 54 = 64 by omega), ← unmask_xor, ← combineWord_mask size short]
  generalize hmask : (~~~0#32) >>> (size * 4) = mask
  refine unmask_congr fun i hi => ?_
  simp only [maskedWordReplace, hmask, if_pos hi, shareMask_not]
  rw [combineWord_replaced (dest i) (src i) ⟨shareMask mask i, shareMask mask i⟩,
    combineWord_shareMask, rotateRight_not]

/-! ### Operations on the shares -/

theorem unmaskWord_maskedWordXor (n : Nat) (dest src : MaskedWord) :
    unmaskWord n (maskedWordXor n dest src) = unmaskWord n dest ^^^ unmaskWord n src := by
  rw [unmaskWord, unmaskWord, unmaskWord, ← unmask_xor]
  refine unmask_congr fun i hi => ?_
  rw [maskedWordXor, if_pos hi, combineWord_addSliced]

theorem combineWord_padding : ∀ offset < 8,
    combineWord ⟨0#32, 0x80000000#32 >>> (offset * 4)⟩ = 0x8000000000000000#64 >>> (offset * 8) := by
  decide

section

variable {n : Nat} (some_share : 0 < n)

include some_share

/-- Adding to share 0 adds to the word. -/
theorem unmaskWord_addFirst (word : MaskedWord) (x : SlicedWord) :
    (unmaskWord n fun i => if i = 0 then addSliced (word 0) x else word i) =
      unmaskWord n word ^^^ combineWord x := by
  rw [unmaskWord, unmaskWord, ← unmask_addFirst some_share]
  refine unmask_congr fun i _ => ?_
  by_cases first : i = 0
  · rw [if_pos first, if_pos first, combineWord_addSliced]
  · rw [if_neg first, if_neg first]

theorem unmaskWord_maskedWordPad (word : MaskedWord) {offset : Nat} (inside : offset < 8) :
    unmaskWord n (maskedWordPad word offset) =
      unmaskWord n word ^^^ 0x8000000000000000#64 >>> (offset * 8) := by
  rw [← combineWord_padding offset inside, ← unmaskWord_addFirst some_share]
  congr 1
  funext i
  rw [maskedWordPad, addSliced, BitVec.xor_zero]

theorem unmaskWord_maskedWordSeparator (word : MaskedWord) :
    unmaskWord n (maskedWordSeparator word) = unmaskWord n word ^^^ 1#64 := by
  have one : combineWord ⟨1#32, 0#32⟩ = 1#64 := by decide
  rw [← one, ← unmaskWord_addFirst some_share]
  congr 1
  funext i
  rw [maskedWordSeparator, addSliced, BitVec.xor_zero]

/-! ### Random shares and conversions -/

variable (small : n ≤ 6)

include small

/-- The shares made of random pairs are a sharing of zero. -/
theorem unmaskWord_randomShares (random : Nat → SlicedWord) :
    unmaskWord n (randomShares n random) = 0#64 := by
  rw [← unmask_blind (show 10 + 54 = 64 by omega) some_share fun k => combineWord (random k)]
  exact unmask_congr fun i _ => combineWord_randomShares small random

theorem unmaskWord_maskedWordRandomize (src : MaskedWord) (trng : Trng) :
    unmaskWord n (maskedWordRandomize n src trng).1 = unmaskWord n src := by
  have shares : unmaskWord n (maskedWordRandomize n src trng).1 =
      unmaskWord n src ^^^ unmaskWord n (randomShares n (randomPair trng)) := by
    rw [unmaskWord, unmaskWord, unmaskWord, ← unmask_xor]
    refine unmask_congr fun i hi => ?_
    simp only [maskedWordRandomize, if_pos hi, combineWord_addSliced]
  rw [shares, unmaskWord_randomShares some_share small, BitVec.xor_zero]

/-- More shares for the same word. -/
theorem unmaskWord_maskedWordWiden {m : Nat} (le : m ≤ n) (src : MaskedWord) (trng : Trng) :
    unmaskWord n (maskedWordWiden n m src trng).1 = unmaskWord m src := by
  have shares : unmaskWord n (maskedWordWiden n m src trng).1 =
      unmaskWord n (randomShares n (randomPair trng)) ^^^
        unmask 54 n fun i => if i < m then combineWord (src i) else 0#64 := by
    rw [unmaskWord, unmaskWord, ← unmask_xor]
    refine unmask_congr fun i _ => ?_
    simp only [maskedWordWiden]
    by_cases kept : i < m
    · rw [if_pos kept, if_pos kept, combineWord_addSliced]
    · rw [if_neg kept, if_neg kept, BitVec.xor_zero]
  rw [shares, unmaskWord_randomShares some_share small, unmask_extend le, BitVec.zero_xor, unmaskWord]

end

/-- A share in the position of another one, turned back. -/
theorem rotateRight_unrotateShare {i j : Nat} (below : j < i) (small : i ≤ 5) (x : SlicedWord) :
    (combineWord (unrotateShare i j x)).rotateRight (54 * j) = (combineWord x).rotateRight (54 * i) := by
  have turns : 54 * (i - j) + 54 * j = 54 * i := by rw [← Nat.mul_add, Nat.sub_add_cancel below.le]
  rw [combineWord_unrotateShare below (by omega), rotateRight_rotateRight, turns]

theorem rotateRight_rotateShare {i : Nat} (small : i ≤ 5) (x : SlicedWord) :
    (combineWord (rotateShare i 0 x)).rotateRight (54 * i) = combineWord x := by
  rw [combineWord_rotateShare (by omega), Nat.sub_zero, rotateRight_rotateRight_share]

theorem unmaskWord_maskedWordX2FromX3 (src : MaskedWord) (trng : Trng) :
    unmaskWord 2 (maskedWordX2FromX3 src trng).1 = unmaskWord 3 src := by
  simp only [unmaskWord, unmask, xorRange_succ, xorRange_zero, BitVec.zero_xor, maskedWordX2FromX3,
    Nat.mul_zero, rotateRight_of_zero, rotateRight_xor, combineWord_addSliced,
    rotateRight_rotateShare (show 1 ≤ 5 by omega),
    rotateRight_unrotateShare (show 1 < 2 by omega) (by omega)]
  simp only [BitVec.xor_assoc, xor_xor_cancel]

theorem unmaskWord_maskedWordX2FromX4 (src : MaskedWord) (trng : Trng) :
    unmaskWord 2 (maskedWordX2FromX4 src trng).1 = unmaskWord 4 src := by
  have second := rotateRight_unrotateShare (show 0 < 2 by omega) (by omega) (src 2)
  rw [Nat.mul_zero, rotateRight_of_zero] at second
  simp only [unmaskWord, unmask, xorRange_succ, xorRange_zero, BitVec.zero_xor, maskedWordX2FromX4,
    Nat.mul_zero, rotateRight_of_zero, rotateRight_xor, combineWord_addSliced,
    rotateRight_rotateShare (show 1 ≤ 5 by omega),
    rotateRight_unrotateShare (show 1 < 3 by omega) (by omega), second]
  rw [xor_gather_two]

theorem unmaskWord_maskedWordX3FromX4 (src : MaskedWord) (trng : Trng) :
    unmaskWord 3 (maskedWordX3FromX4 src trng).1 = unmaskWord 4 src := by
  have third := rotateRight_unrotateShare (show 0 < 3 by omega) (by omega) (src 3)
  rw [Nat.mul_zero, rotateRight_of_zero] at third
  simp only [unmaskWord, unmask, xorRange_succ, xorRange_zero, BitVec.zero_xor, maskedWordX3FromX4,
    Nat.mul_zero, rotateRight_of_zero, rotateRight_xor, combineWord_addSliced,
    rotateRight_rotateShare (show 1 ≤ 5 by omega), rotateRight_rotateShare (show 2 ≤ 5 by omega), third]
  rw [xor_gather_three]

end AsconSuite.MaskedC32
