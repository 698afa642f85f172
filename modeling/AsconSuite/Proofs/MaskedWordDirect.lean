/-
Module: AsconSuite.Proofs.MaskedWordDirect
Layer: Proofs
Purpose: What the masked word functions of the direct backend do to the word behind the shares. The shares
  are not rotated, so every byte of the word is the sum of the bytes in its place.
Imports: AsconSuite.Masking.WordDirect, AsconSuite.Proofs.SlicedBytes, AsconSuite.Proofs.MaskedBytes
Trusted boundary: none
Main exports: MaskedDirect.unmaskWord, MaskedDirect.sumByte_maskedSum, MaskedDirect.maskedWordStore_eq,
  MaskedDirect.maskedWordStorePartial_eq_write, MaskedDirect.sumByte_maskedWordWiden
-/
import AsconSuite.Masking.WordDirect
import AsconSuite.Proofs.SlicedBytes
import AsconSuite.Proofs.MaskedBytes

namespace AsconSuite.MaskedDirect

open ByteWord ByteMemory RotatedSharing

/-- The word behind `n` shares. -/
def unmaskWord (n : Nat) (word : MaskedWord) : Word := beLoadWord64 (sumByte n word)

theorem byteOf_unmaskWord (n : Nat) (word : MaskedWord) {j : Nat} (hj : j < 8) :
    byteOf (unmaskWord n word) j = sumByte n word j := by
  rw [unmaskWord, byteOf_beLoadWord64 _ hj]

theorem unmaskWord_eq {n : Nat} {word : MaskedWord} {x : Word}
    (bytes : ∀ j < 8, sumByte n word j = byteOf x j) : unmaskWord n word = x :=
  byteOf_ext fun j hj => by rw [byteOf_unmaskWord _ _ hj, bytes j hj]

/-- A conversion that keeps every sum of bytes keeps the word. -/
theorem unmaskWord_of_sumByte {n m : Nat} {convert : MaskedWord → Trng → MaskedWord × Trng}
    (bytes : ∀ src trng j, sumByte n (convert src trng).1 j = sumByte m src j) (src : MaskedWord)
    (trng : Trng) : unmaskWord n (convert src trng).1 = unmaskWord m src :=
  unmaskWord_eq fun j hj => by rw [bytes, byteOf_unmaskWord _ _ hj]

/-! ### Sums of bytes

A sum of bytes is a sharing whose shares are turned by nothing. -/

theorem sumByte_eq_unmask (n : Nat) (word : MaskedWord) (j : Nat) :
    sumByte n word j = unmask 0 n fun i => word i j :=
  xorRange_congr fun i _ => by rw [Nat.zero_mul, rotateRight_of_zero]

/-- The random bytes in place `j` blind a sharing. -/
theorem blind_randomByte (n : Nat) (trng : Trng) (j i : Nat) :
    blind 8 n (fun k => randomByte (trng k) j) i =
      if i = 0 then xorRange (n - 1) fun k => randomByte (trng k) j
      else if i < n then randomByte (trng (i - 1)) j
      else 0#8 := by
  have full : (randomByte (trng (i - 1)) j).rotateRight (8 * i) = randomByte (trng (i - 1)) j := by
    have turns := rotateRight_add_mul (randomByte (trng (i - 1)) j) 0 i
    rwa [Nat.zero_add, rotateRight_of_zero] at turns
  rw [blind, full]

section

variable {n : Nat} (some_share : 0 < n)

include some_share

theorem sumByte_maskedSum (data : Nat → Byte) (trng : Trng) (j : Nat) :
    sumByte n (maskedSum n data trng) j = data j := by
  rw [sumByte_eq_unmask]
  have shares : (unmask 0 n fun i => maskedSum n data trng i j) =
      unmask 0 n fun i => if i = 0 then blind 8 n (fun k => randomByte (trng k) j) 0 ^^^ data j
        else blind 8 n (fun k => randomByte (trng k) j) i :=
    unmask_congr fun i _ => by
      rw [maskedSum, blind_randomByte, blind_randomByte, if_pos rfl, BitVec.xor_comm (data j)]
      by_cases first : i = 0
      · rw [if_pos first, if_pos first]
      · rw [if_neg first, if_neg first, if_neg first]
  rw [shares, unmask_addFirst some_share, unmask_blind (show 8 + 0 = 8 by rfl) some_share,
    BitVec.zero_xor]

theorem sumByte_maskedWordRandomize (src : MaskedWord) (trng : Trng) (j : Nat) :
    sumByte n (maskedWordRandomize n src trng).1 j = sumByte n src j := by
  rw [sumByte_eq_unmask, sumByte_eq_unmask]
  have shares : (unmask 0 n fun i => (maskedWordRandomize n src trng).1 i j) =
      unmask 0 n fun i => src i j ^^^ blind 8 n (fun k => randomByte (trng k) j) i :=
    unmask_congr fun i hi => by
      simp only [maskedWordRandomize, blind_randomByte]
      by_cases first : i = 0
      · rw [if_pos first, if_pos first, first]
      · rw [if_neg first, if_neg first, if_pos hi, if_pos hi]
  rw [shares, unmask_xor, unmask_blind (show 8 + 0 = 8 by rfl) some_share, BitVec.xor_zero]

theorem sumByte_maskedWordWiden {m : Nat} (some_source : 0 < m) (le : m ≤ n) (src : MaskedWord)
    (trng : Trng) (j : Nat) :
    sumByte n (maskedWordWiden n m src trng).1 j = sumByte m src j := by
  rw [sumByte_eq_unmask, sumByte_eq_unmask]
  have shares : (unmask 0 n fun i => (maskedWordWiden n m src trng).1 i j) =
      unmask 0 n fun i => blind 8 n (fun k => randomByte (trng k) j) i ^^^
        if i < m then src i j else 0#8 :=
    unmask_congr fun i hi => by
      simp only [maskedWordWiden, blind_randomByte]
      by_cases first : i = 0
      · rw [if_pos first, if_pos first, first, if_pos some_source, BitVec.xor_comm]
      · rw [if_neg first, if_neg first, if_pos hi]
        by_cases kept : i < m
        · rw [if_pos kept, if_pos kept]
        · rw [if_neg kept, if_neg kept, BitVec.xor_zero]
  rw [shares, unmask_xor, unmask_blind (show 8 + 0 = 8 by rfl) some_share, unmask_extend le,
    BitVec.zero_xor]

/-- A byte added to a byte of share 0 is added to that byte of the word. -/
theorem sumByte_addFirst (word : MaskedWord) (place : Nat) (b : Byte) (j : Nat) :
    sumByte n (fun i index => if i = 0 ∧ index = place then word 0 place ^^^ b else word i index) j =
      sumByte n word j ^^^ if j = place then b else 0#8 := by
  rw [sumByte_eq_unmask, sumByte_eq_unmask, ← unmask_addFirst some_share]
  refine unmask_congr fun i _ => ?_
  by_cases first : i = 0
  · by_cases here : j = place
    · rw [if_pos ⟨first, here⟩, if_pos first, if_pos here, here]
    · rw [if_neg fun both => here both.2, if_pos first, if_neg here, first, BitVec.xor_zero]
  · rw [if_neg fun both => first both.1, if_neg first]

end

theorem sumByte_maskedWordXor (n : Nat) (dest src : MaskedWord) (j : Nat) :
    sumByte n (maskedWordXor n dest src) j = sumByte n dest j ^^^ sumByte n src j := by
  rw [sumByte, sumByte, sumByte, ← xorRange_xor]
  exact xorRange_congr fun i hi => if_pos hi

theorem sumByte_maskedWordReplace (n : Nat) (dest src : MaskedWord) (size j : Nat) :
    sumByte n (maskedWordReplace n dest src size) j =
      if j < size then sumByte n src j else sumByte n dest j := by
  by_cases inside : j < size
  · rw [if_pos inside]
    exact xorRange_congr fun i hi => if_pos ⟨hi, inside⟩
  · rw [if_neg inside]
    exact xorRange_congr fun i _ => if_neg fun both => inside both.2

theorem sumByte_maskedWordX2FromX3 (src : MaskedWord) (trng : Trng) (j : Nat) :
    sumByte 2 (maskedWordX2FromX3 src trng).1 j = sumByte 3 src j := by
  simp only [sumByte, xorRange_succ, xorRange_zero, BitVec.zero_xor, maskedWordX2FromX3]
  rw [BitVec.xor_assoc (randomByte (trng 0) j) (src 1 j), BitVec.xor_assoc, xor_xor_cancel,
    BitVec.xor_assoc]

theorem sumByte_maskedWordX2FromX4 (src : MaskedWord) (trng : Trng) (j : Nat) :
    sumByte 2 (maskedWordX2FromX4 src trng).1 j = sumByte 4 src j := by
  simp only [sumByte, xorRange_succ, xorRange_zero, BitVec.zero_xor, maskedWordX2FromX4]
  rw [xor_gather_two]

theorem sumByte_maskedWordX3FromX4 (src : MaskedWord) (trng : Trng) (j : Nat) :
    sumByte 3 (maskedWordX3FromX4 src trng).1 j = sumByte 4 src j := by
  simp only [sumByte, xorRange_succ, xorRange_zero, BitVec.zero_xor, maskedWordX3FromX4]
  rw [BitVec.xor_assoc (randomByte (trng 0) j) (src 0 j), BitVec.xor_comm (src 0 j),
    ← BitVec.xor_assoc (randomByte (trng 0) j), xor_gather_three]

/-! ### Storing -/

theorem maskedWordStorePartial_eq_write (n : Nat) (mem : Mem) (data : Nat) {size : Nat}
    (short : size ≤ 8) (word : MaskedWord) :
    maskedWordStorePartial n mem data size word =
      mem.write data (Mem.read (byteOf (unmaskWord n word)) 0 size) := by
  have same : Mem.read (byteOf (unmaskWord n word)) 0 size = Mem.read (sumByte n word) 0 size :=
    read_congr fun i hi => byteOf_unmaskWord n word (by omega)
  rw [maskedWordStorePartial, same]

theorem maskedWordStore_eq (n : Nat) (mem : Mem) (data : Nat) (word : MaskedWord) :
    maskedWordStore n mem data word = beStoreWord64 mem data (unmaskWord n word) := by
  rw [maskedWordStore, maskedWordStorePartial_eq_write n mem data (Nat.le_refl 8), beStoreWord64,
    beBytes64_eq_read]

end AsconSuite.MaskedDirect
