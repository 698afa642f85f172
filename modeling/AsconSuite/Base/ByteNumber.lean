/-
Module: AsconSuite.Base.ByteNumber
Layer: Library
Purpose: Numbers as lists of bytes, low byte first: the number of a list, and how arithmetic that goes from byte to byte
  with a carry or a borrow adds up to arithmetic on the numbers.
Imports: AsconSuite.Base.ByteWord, three Mathlib modules
Trusted boundary: none
Main exports: ByteNumber.number, ByteNumber.number_lt, ByteNumber.number_append, ByteNumber.number_inj,
  ByteNumber.xor_parts, ByteNumber.and_parts, ByteNumber.carry_step, ByteNumber.ofInt_eq_ofInt_iff,
  ByteNumber.setWidth_ofNat_of_lt
-/
import AsconSuite.Base.ByteWord
import Mathlib.Data.Int.ModEq
import Mathlib.Tactic.Linarith
import Mathlib.Tactic.Ring

namespace ByteNumber

open ByteWord

/-- The number of a list of bytes, low byte first. -/
def number : List Byte → Nat
  | [] => 0
  | b :: rest => b.toNat + 256 * number rest

@[simp] theorem number_nil : number [] = 0 := rfl

@[simp] theorem number_cons (b : Byte) (rest : List Byte) : number (b :: rest) = b.toNat + 256 * number rest := rfl

theorem number_lt (bytes : List Byte) : number bytes < 256 ^ bytes.length := by
  induction bytes with
  | nil => exact Nat.zero_lt_one
  | cons b rest ih =>
      have small := b.isLt
      rw [number_cons, List.length_cons, Nat.pow_succ]
      omega

theorem number_append (low high : List Byte) : number (low ++ high) = number low + 256 ^ low.length * number high := by
  induction low with
  | nil => rw [List.nil_append, number_nil, Nat.zero_add, List.length_nil, Nat.pow_zero, Nat.one_mul]
  | cons b rest ih =>
      rw [List.cons_append, number_cons, number_cons, ih, List.length_cons, Nat.pow_succ, Nat.mul_add, Nat.add_assoc,
        ← Nat.mul_assoc, Nat.mul_comm (256 ^ rest.length)]

/-- Lists of the same length with the same number are equal. -/
theorem number_inj {bytes other : List Byte} (sameLength : bytes.length = other.length)
    (sameNumber : number bytes = number other) : bytes = other := by
  induction bytes generalizing other with
  | nil => exact (List.length_eq_zero_iff.1 sameLength.symm).symm
  | cons b rest ih =>
      cases other with
      | nil => exact nomatch sameLength
      | cons b' rest' =>
          have small := b.isLt
          have small' := b'.isLt
          rw [number_cons, number_cons] at sameNumber
          have first : b = b' := BitVec.eq_of_toNat_eq (by omega)
          rw [first, ih (Nat.succ.inj sameLength) (by omega)]

theorem number_replicate_zero (count : Nat) : number (List.replicate count 0#8) = 0 := by
  induction count with
  | zero => rfl
  | succ count ih => rw [List.replicate_succ, number_cons, ih]; rfl

/-! ### Bits -/

/-- The bits of a low and of a high part do not meet. -/
theorem xor_parts {k low low' : Nat} (small : low < 2 ^ k) (small' : low' < 2 ^ k) (high high' : Nat) :
    (low + 2 ^ k * high) ^^^ (low' + 2 ^ k * high') = (low ^^^ low') + 2 ^ k * (high ^^^ high') := by
  apply Nat.eq_of_testBit_eq
  intro i
  rw [Nat.testBit_xor, Nat.add_comm low, Nat.add_comm low', Nat.add_comm (low ^^^ low'),
    Nat.testBit_two_pow_mul_add _ small, Nat.testBit_two_pow_mul_add _ small',
    Nat.testBit_two_pow_mul_add _ (Nat.xor_lt_two_pow small small')]
  split
  · rw [Nat.testBit_xor]
  · rw [Nat.testBit_xor]

theorem and_parts {k low low' : Nat} (small : low < 2 ^ k) (small' : low' < 2 ^ k) (high high' : Nat) :
    (low + 2 ^ k * high) &&& (low' + 2 ^ k * high') = (low &&& low') + 2 ^ k * (high &&& high') := by
  apply Nat.eq_of_testBit_eq
  intro i
  rw [Nat.testBit_and, Nat.add_comm low, Nat.add_comm low', Nat.add_comm (low &&& low'),
    Nat.testBit_two_pow_mul_add _ small, Nat.testBit_two_pow_mul_add _ small',
    Nat.testBit_two_pow_mul_add _ (Nat.and_lt_two_pow low small')]
  split
  · rw [Nat.testBit_and]
  · rw [Nat.testBit_and]

/-! ### Carries -/

/-- One byte of a sum, whose carry goes into the sum of the other bytes. A borrow is a negative carry. -/
theorem carry_step {b b' x carry carry' rest rest' others : Int} {count : Nat}
    (first : b' + 256 * carry' = b + x + carry)
    (others_sum : rest' ≡ rest + others + carry' [ZMOD 256 ^ count]) :
    b' + 256 * rest' ≡ b + 256 * rest + (x + 256 * others) + carry [ZMOD 256 ^ (count + 1)] := by
  obtain ⟨k, difference⟩ := Int.modEq_iff_dvd.1 others_sum
  refine Int.modEq_iff_dvd.2 ⟨k, ?_⟩
  calc b + 256 * rest + (x + 256 * others) + carry - (b' + 256 * rest')
      = 256 * (rest + others + carry' - rest') := by linarith
    _ = 256 * (256 ^ count * k) := by rw [difference]
    _ = 256 ^ (count + 1) * k := by ring

/-- Words are equal when their numbers agree modulo the size of the word. -/
theorem ofInt_eq_ofInt_iff {count : Nat} {x y : Int} :
    BitVec.ofInt (8 * count) x = BitVec.ofInt (8 * count) y ↔ x ≡ y [ZMOD 256 ^ count] := by
  have size : ((2 ^ (8 * count) : Nat) : Int) = 256 ^ count := by
    rw [Nat.pow_mul, Nat.cast_pow]
    rfl
  have positive : (0 : Int) < 256 ^ count := by positivity
  constructor
  · intro same
    have numbers := congrArg BitVec.toNat same
    rw [BitVec.toNat_ofInt, BitVec.toNat_ofInt, size] at numbers
    have low := Int.emod_nonneg x positive.ne'
    have low' := Int.emod_nonneg y positive.ne'
    rw [Int.ModEq, ← Int.toNat_of_nonneg low, ← Int.toNat_of_nonneg low', numbers]
  · intro same
    apply BitVec.eq_of_toNat_eq
    rw [BitVec.toNat_ofInt, BitVec.toNat_ofInt, size]
    exact congrArg Int.toNat same

/-- A number and its word cut down or filled up with zeros. -/
theorem setWidth_ofNat_of_lt {count other x : Nat} (small : x < 256 ^ other) :
    (BitVec.ofNat (8 * other) x).setWidth (8 * count) = BitVec.ofNat (8 * count) x := by
  have below : x < 2 ^ (8 * other) := by
    rw [Nat.pow_mul]
    exact small
  apply BitVec.eq_of_toNat_eq
  rw [BitVec.toNat_setWidth, BitVec.toNat_ofNat, BitVec.toNat_ofNat, Nat.mod_eq_of_lt below]

end ByteNumber
