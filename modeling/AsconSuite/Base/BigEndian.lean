/-
Module: AsconSuite.Base.BigEndian
Layer: Base (library)
Purpose: Numbers stored in big-endian order. `numberOf` reads the first bytes behind a pointer as a number,
  `bytesOf` is the pointer to a number, and each undoes the other up to the size of the field.
Imports: AsconSuite.Base.ByteMemory
Trusted boundary: none
Main exports: numberOf, bytesOf, numberOf_lt, numberOf_injective, numberOf_bytesOf
-/
import AsconSuite.Base.ByteMemory

namespace BigEndian

open ByteWord (Byte)
open ByteMemory

/-- The number whose `size` big-endian digits are the first bytes behind `p`. -/
def numberOf (p : Mem) : (size : Nat) → Nat
  | 0 => 0
  | size + 1 => numberOf p size * 256 + (p size).toNat

/-- The pointer to the `size` big-endian digits of a number; larger numbers are truncated. -/
def bytesOf (number size : Nat) : Mem := fun i => BitVec.ofNat 8 (number / 256 ^ (size - 1 - i))

@[simp] theorem numberOf_zero (p : Mem) : numberOf p 0 = 0 := rfl

theorem numberOf_succ (p : Mem) (size : Nat) :
    numberOf p (size + 1) = numberOf p size * 256 + (p size).toNat := rfl

theorem numberOf_lt (p : Mem) (size : Nat) : numberOf p size < 256 ^ size := by
  induction size with
  | zero => simp
  | succ size ih =>
      have digit := (p size).isLt
      rw [numberOf_succ, Nat.pow_succ]
      omega

/-- Only the bytes of the field count. -/
theorem numberOf_congr {p q : Mem} {size : Nat} (same : ∀ i < size, p i = q i) :
    numberOf p size = numberOf q size := by
  induction size with
  | zero => rfl
  | succ size ih =>
      rw [numberOf_succ, numberOf_succ, ih fun i hi => same i (by omega), same size (by omega)]

/-- Fields with the same number have the same bytes. -/
theorem numberOf_injective {p q : Mem} {size : Nat} (same : numberOf p size = numberOf q size)
    {i : Nat} (hi : i < size) : p i = q i := by
  induction size with
  | zero => omega
  | succ size ih =>
      have digitP := (p size).isLt
      have digitQ := (q size).isLt
      rw [numberOf_succ, numberOf_succ] at same
      rcases Nat.lt_or_ge i size with front | last
      · exact ih (by omega) front
      · rw [show i = size by omega]
        exact BitVec.eq_of_toNat_eq (by omega)

/-- A number behind the pointer to its digits is the number itself, up to the size of the field. -/
theorem numberOf_bytesOf (number size : Nat) :
    numberOf (bytesOf number size) size = number % 256 ^ size := by
  induction size generalizing number with
  | zero => simp [Nat.mod_one]
  | succ size ih =>
      have front : numberOf (bytesOf number (size + 1)) size = number / 256 % 256 ^ size := by
        rw [← ih (number / 256)]
        refine numberOf_congr fun i hi => ?_
        rw [bytesOf, bytesOf, Nat.div_div_eq_div_mul, ← Nat.pow_succ',
          show (size - 1 - i).succ = size + 1 - 1 - i by omega]
      have last : (bytesOf number (size + 1) size).toNat = number % 256 := by
        rw [bytesOf, BitVec.toNat_ofNat]
        simp
      rw [numberOf_succ, front, last, Nat.pow_succ', Nat.mod_mul, Nat.mul_comm, Nat.add_comm]

end BigEndian
