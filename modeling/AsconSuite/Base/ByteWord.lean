/-
Module: AsconSuite.Base.ByteWord
Layer: Base (library)
Purpose: 64-bit words seen as eight bytes in big-endian order. Byte `j` of a word is the byte a
  big-endian store writes at offset `j`; every fact about loads, stores and unaligned byte accesses is
  stated through it, so that word-level code is compared byte by byte and never bit by bit.
Imports: one Mathlib tactic
Trusted boundary: none
Main exports: Byte, Word, byteOf, setByteOf, byteOf_ext, byteOf_setByteOf, wordOfBytes
-/
import Mathlib.Tactic.IntervalCases

namespace ByteWord

/-- An octet. -/
abbrev Byte := BitVec 8

/-- A 64-bit machine word. -/
abbrev Word := BitVec 64

/-- Byte `j` of a word, most significant byte first. -/
def byteOf (w : Word) (j : Nat) : Byte := w.extractLsb' (8 * (7 - j)) 8

/-- The word with byte `j` replaced. -/
def setByteOf (w : Word) (j : Nat) (b : Byte) : Word :=
  (w &&& ~~~((255 : Byte).setWidth 64 <<< (8 * (7 - j)))) ||| (b.setWidth 64 <<< (8 * (7 - j)))

/-- Words with the same eight bytes are equal. -/
theorem byteOf_ext {x y : Word} (same : ∀ j < 8, byteOf x j = byteOf y j) : x = y := by
  apply BitVec.eq_of_getLsbD_eq
  intro i hi
  have bit := congrArg (fun b => b.getLsbD (i % 8)) (same (7 - i / 8) (by omega))
  simp only [byteOf, BitVec.getLsbD_extractLsb', Nat.mod_lt i (by omega : 8 > 0), decide_true,
    Bool.true_and] at bit
  rwa [show 8 * (7 - (7 - i / 8)) + i % 8 = i by omega] at bit

/-! ### Bytes of bitwise operations -/

@[simp] theorem byteOf_xor (x y : Word) (j : Nat) :
    byteOf (x ^^^ y) j = byteOf x j ^^^ byteOf y j :=
  BitVec.extractLsb'_xor

@[simp] theorem byteOf_or (x y : Word) (j : Nat) :
    byteOf (x ||| y) j = byteOf x j ||| byteOf y j :=
  BitVec.extractLsb'_or

@[simp] theorem byteOf_and (x y : Word) (j : Nat) :
    byteOf (x &&& y) j = byteOf x j &&& byteOf y j :=
  BitVec.extractLsb'_and

theorem byteOf_not (x : Word) {j : Nat} (hj : j < 8) : byteOf (~~~x) j = ~~~byteOf x j := by
  apply BitVec.eq_of_getLsbD_eq
  intro i hi
  simp only [byteOf, BitVec.getLsbD_extractLsb', BitVec.getLsbD_not, hi, decide_true, Bool.true_and]
  rw [decide_eq_true (by omega), Bool.true_and]

@[simp] theorem byteOf_zero (j : Nat) : byteOf 0 j = 0 :=
  BitVec.extractLsb'_zero

/-- A byte shifted to position `k` is byte `k` of the result, and the other bytes are zero. -/
theorem byteOf_shifted (b : Byte) {j k : Nat} (hj : j < 8) (hk : k < 8) :
    byteOf (b.setWidth 64 <<< (8 * (7 - k))) j = if j = k then b else 0 := by
  apply BitVec.eq_of_getLsbD_eq
  intro i hi
  by_cases h : j = k
  · subst h
    rw [if_pos rfl, byteOf, BitVec.getLsbD_extractLsb', BitVec.getLsbD_shiftLeft,
      BitVec.getLsbD_setWidth]
    simp only [hi, decide_true, Bool.true_and, Nat.add_sub_cancel_left]
    rw [decide_eq_true (by omega), decide_eq_false (by omega), decide_eq_true (by omega)]
    simp
  · rw [if_neg h, byteOf, BitVec.getLsbD_extractLsb', BitVec.getLsbD_shiftLeft,
      BitVec.getLsbD_setWidth]
    by_cases lower : 8 * (7 - j) + i < 8 * (7 - k)
    · simp [lower]
    · -- above position `k` the shifted byte has run out of bits.
      rw [BitVec.getLsbD_of_ge b _ (by omega)]
      simp

/-- Replacing byte `k` changes that byte and no other. -/
theorem byteOf_setByteOf (w : Word) (b : Byte) {j k : Nat} (hj : j < 8) (hk : k < 8) :
    byteOf (setByteOf w k b) j = if j = k then b else byteOf w j := by
  rw [setByteOf, byteOf_or, byteOf_and, byteOf_not _ hj, byteOf_shifted _ hj hk,
    byteOf_shifted _ hj hk]
  split
  · rw [show ~~~(255 : Byte) = 0 from rfl]
    simp
  · rw [show ~~~(0 : Byte) = BitVec.allOnes 8 from rfl, BitVec.and_allOnes]
    simp

/-! ### Words made of bytes -/

/-- The word whose byte `j` is `p j`. -/
def wordOfBytes (p : Nat → Byte) : Word :=
  ((p 0).setWidth 64 <<< 56) ||| ((p 1).setWidth 64 <<< 48) ||| ((p 2).setWidth 64 <<< 40) |||
    ((p 3).setWidth 64 <<< 32) ||| ((p 4).setWidth 64 <<< 24) ||| ((p 5).setWidth 64 <<< 16) |||
    ((p 6).setWidth 64 <<< 8) ||| (p 7).setWidth 64

@[simp] theorem byteOf_wordOfBytes (p : Nat → Byte) {j : Nat} (hj : j < 8) :
    byteOf (wordOfBytes p) j = p j := by
  have placed (k : Nat) (hk : k < 8) := byteOf_shifted (p k) hj hk
  have last : (p 7).setWidth 64 = (p 7).setWidth 64 <<< (8 * (7 - 7)) := by simp
  rw [wordOfBytes, last]
  simp only [byteOf_or]
  rw [placed 0 (by omega), placed 1 (by omega), placed 2 (by omega), placed 3 (by omega),
    placed 4 (by omega), placed 5 (by omega), placed 6 (by omega), placed 7 (by omega)]
  interval_cases j <;> simp

/-- A byte is the truncation of the word shifted right by the bits below it. -/
theorem setWidth_ushiftRight_eq_byteOf (w : Word) (j : Nat) :
    (w >>> (8 * (7 - j))).setWidth 8 = byteOf w j := by
  apply BitVec.eq_of_getLsbD_eq
  intro i hi
  simp [byteOf, hi]

end ByteWord
