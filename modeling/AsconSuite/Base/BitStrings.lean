/-
Module: AsconSuite.Base.BitStrings
Layer: Library
Purpose: Words and lists of bytes as lists of bits, low bit first. Shifts and rotations of words are then `take`, `drop`
  and `rotate` of lists, and what goes through a carry from byte to byte is an equation between two lists.
Imports: AsconSuite.Base.ByteNumber, AsconSuite.Base.RotatedSharing, one Mathlib module
Trusted boundary: none
Main exports: BitStrings.wordBits, BitStrings.wordBits_inj, BitStrings.wordBits_rotateRight,
  BitStrings.wordBits_rotateLeft, BitStrings.wordBits_shiftLeft, BitStrings.wordBits_ushiftRight,
  BitStrings.byteBits, BitStrings.bits, BitStrings.wordBits_number, BitStrings.bits_rotate
-/
import AsconSuite.Base.ByteNumber
import AsconSuite.Base.RotatedSharing
import Mathlib.Data.List.Rotate

namespace BitStrings

open ByteWord ByteNumber

/-! ### Words -/

/-- The bits of a word, low bit first. -/
def wordBits {w : Nat} (x : BitVec w) : List Bool := (List.range w).map x.getLsbD

@[simp] theorem length_wordBits {w : Nat} (x : BitVec w) : (wordBits x).length = w := by
  rw [wordBits, List.length_map, List.length_range]

theorem getElem?_wordBits {w : Nat} (x : BitVec w) {i : Nat} (small : i < w) :
    (wordBits x)[i]? = some (x.getLsbD i) := by
  rw [wordBits, List.getElem?_map, List.getElem?_range small]
  rfl

/-- The highest bit of a word is the last one. -/
theorem getLast?_wordBits {w : Nat} (x : BitVec w) (some_bit : 0 < w) : (wordBits x).getLast? = some x.msb := by
  rw [List.getLast?_eq_getElem?, length_wordBits, getElem?_wordBits x (by omega), BitVec.msb_eq_getLsbD_last]

theorem wordBits_inj {w : Nat} {x y : BitVec w} (same : wordBits x = wordBits y) : x = y := by
  apply BitVec.eq_of_getLsbD_eq
  intro i small
  have bit := congrArg (fun l => l[i]?) same
  simp only [getElem?_wordBits _ small] at bit
  exact Option.some.inj bit

/-- Lists of bits are equal when they have the same length and the same bits. -/
theorem eq_wordBits {w : Nat} {l : List Bool} {x : BitVec w} (length : l.length = w)
    (same : ∀ i < w, l[i]? = some (x.getLsbD i)) : l = wordBits x := by
  apply List.ext_getElem?
  intro i
  by_cases small : i < w
  · rw [same i small, getElem?_wordBits x small]
  · rw [List.getElem?_eq_none (by omega), List.getElem?_eq_none (by rw [length_wordBits]; omega)]

theorem wordBits_rotateRight {w : Nat} (x : BitVec w) (count : Nat) :
    wordBits (x.rotateRight count) = (wordBits x).rotate count := by
  refine (eq_wordBits (by rw [List.length_rotate, length_wordBits]) fun i small => ?_).symm
  have place := Nat.mod_lt (i + count) (Nat.zero_lt_of_lt small)
  rw [List.getElem?_rotate (by rw [length_wordBits]; exact small), length_wordBits, getElem?_wordBits x place,
    RotatedSharing.getLsbD_rotateRight_eq_mod x count small]

/-- A rotation to the left that is rotated back. -/
theorem wordBits_rotateLeft {w : Nat} (x : BitVec w) (count : Nat) :
    (wordBits (x.rotateLeft count)).rotate count = wordBits x := by
  refine eq_wordBits (by rw [List.length_rotate, length_wordBits]) fun i small => ?_
  have some_bit := Nat.zero_lt_of_lt small
  have place := Nat.mod_lt (i + count) some_bit
  rw [List.getElem?_rotate (by rw [length_wordBits]; exact small), length_wordBits, getElem?_wordBits _ place,
    BitVec.getLsbD_rotateLeft, ← Nat.add_mod_mod i count]
  have smallCount := Nat.mod_lt count some_bit
  generalize count % w = count at smallCount
  congr 1
  by_cases low : i + count < w
  · rw [Nat.mod_eq_of_lt low, decide_eq_false (by omega), cond_false, decide_eq_true low, Bool.true_and,
      Nat.add_sub_cancel]
  · rw [Nat.mod_eq_sub_mod (by omega), Nat.mod_eq_of_lt (by omega), decide_eq_true (by omega), cond_true]
    congr 1
    omega

theorem wordBits_shiftLeft {w : Nat} (x : BitVec w) (count : Nat) :
    wordBits (x <<< count) = (List.replicate count false ++ wordBits x).take w := by
  refine (eq_wordBits ?_ fun i small => ?_).symm
  · rw [List.length_take, List.length_append, List.length_replicate, length_wordBits]
    omega
  · rw [List.getElem?_take_of_lt small, BitVec.getLsbD_shiftLeft, decide_eq_true small, Bool.true_and]
    by_cases low : i < count
    · rw [List.getElem?_append_left (by rw [List.length_replicate]; exact low), List.getElem?_replicate_of_lt low,
        decide_eq_true low, Bool.not_true, Bool.false_and]
    · rw [List.getElem?_append_right (by rw [List.length_replicate]; omega), List.length_replicate,
        getElem?_wordBits x (by omega), decide_eq_false low, Bool.not_false, Bool.true_and]

/-- The bits behind those of a word that are all the same. -/
theorem getElem?_wordBits_append {w count : Nat} (x : BitVec w) (fill : Bool) {i : Nat} (small : i < w + count) :
    (wordBits x ++ List.replicate count fill)[i]? = some (if i < w then x.getLsbD i else fill) := by
  by_cases low : i < w
  · rw [List.getElem?_append_left (by rw [length_wordBits]; exact low), getElem?_wordBits x low, if_pos low]
  · rw [List.getElem?_append_right (by rw [length_wordBits]; omega), length_wordBits,
      List.getElem?_replicate_of_lt (by omega), if_neg low]

theorem wordBits_ushiftRight {w : Nat} (x : BitVec w) (count : Nat) :
    wordBits (x >>> count) = (wordBits x ++ List.replicate count false).drop count := by
  refine (eq_wordBits ?_ fun i small => ?_).symm
  · rw [List.length_drop, List.length_append, List.length_replicate, length_wordBits]
    omega
  · rw [List.getElem?_drop, getElem?_wordBits_append x false (by omega), BitVec.getLsbD_ushiftRight]
    split
    · rfl
    · rw [BitVec.getLsbD_of_ge x (count + i) (by omega)]

theorem wordBits_sshiftRight {w : Nat} (x : BitVec w) (count : Nat) :
    wordBits (x.sshiftRight count) = (wordBits x ++ List.replicate count x.msb).drop count := by
  refine (eq_wordBits ?_ fun i small => ?_).symm
  · rw [List.length_drop, List.length_append, List.length_replicate, length_wordBits]
    omega
  · rw [List.getElem?_drop, getElem?_wordBits_append x x.msb (by omega), BitVec.getLsbD_sshiftRight,
      decide_eq_false (by omega), Bool.not_false, Bool.true_and]

/-! ### Bytes -/

/-- The bits of a list of bytes, low byte first. -/
def bits (bytes : List Byte) : List Bool := bytes.flatMap wordBits

@[simp] theorem bits_nil : bits [] = [] := rfl

@[simp] theorem bits_cons (b : Byte) (rest : List Byte) : bits (b :: rest) = wordBits b ++ bits rest := List.flatMap_cons

@[simp] theorem bits_append (low high : List Byte) : bits (low ++ high) = bits low ++ bits high := List.flatMap_append

@[simp] theorem length_bits (bytes : List Byte) : (bits bytes).length = 8 * bytes.length := by
  induction bytes with
  | nil => rfl
  | cons b rest ih =>
      rw [bits_cons, List.length_append, length_wordBits, ih, List.length_cons]
      omega

theorem bits_replicate_zero (count : Nat) : bits (List.replicate count 0#8) = List.replicate (8 * count) false := by
  induction count with
  | zero => rfl
  | succ count ih =>
      have byte : wordBits 0#8 = List.replicate 8 false := rfl
      rw [List.replicate_succ, bits_cons, ih, byte, List.replicate_append_replicate, Nat.mul_add, Nat.add_comm]

/-- The bits of the number of a list of bytes. -/
theorem wordBits_number (bytes : List Byte) :
    wordBits (BitVec.ofNat (8 * bytes.length) (number bytes)) = bits bytes := by
  refine (eq_wordBits (length_bits bytes) fun i small => ?_).symm
  rw [BitVec.getLsbD_ofNat, decide_eq_true small, Bool.true_and]
  induction bytes generalizing i with
  | nil => exact absurd small (Nat.not_lt_zero i)
  | cons b rest ih =>
      have size : (256 : Nat) = 2 ^ 8 := rfl
      rw [bits_cons, number_cons, size, Nat.add_comm, Nat.testBit_two_pow_mul_add _ b.isLt]
      by_cases low : i < 8
      · rw [List.getElem?_append_left (by rw [length_wordBits]; exact low), getElem?_wordBits b low, if_pos low]
        rfl
      · rw [List.length_cons] at small
        rw [List.getElem?_append_right (by rw [length_wordBits]; omega), length_wordBits, ih (i - 8) (by omega),
          if_neg low]

/-- A rotation of the bytes is a rotation of the bits. -/
theorem bits_rotate (bytes : List Byte) (count : Nat) : bits (bytes.rotate count) = (bits bytes).rotate (8 * count) := by
  rcases Nat.eq_zero_or_pos bytes.length with empty | some_byte
  · rw [List.length_eq_zero_iff.1 empty, List.rotate_nil, bits_nil, List.rotate_nil]
  · have le := Nat.le_of_lt (Nat.mod_lt count some_byte)
    have low : (bits (bytes.take (count % bytes.length))).length = 8 * (count % bytes.length) := by
      rw [length_bits, List.length_take, Nat.min_eq_left le]
    rw [← List.rotate_mod bytes, ← List.rotate_mod (bits bytes), length_bits, Nat.mul_mod_mul_left,
      List.rotate_eq_drop_append_take le, bits_append, ← low]
    calc bits (bytes.drop (count % bytes.length)) ++ bits (bytes.take (count % bytes.length))
        = (bits (bytes.take (count % bytes.length)) ++ bits (bytes.drop (count % bytes.length))).rotate
            (bits (bytes.take (count % bytes.length))).length := (List.rotate_append_length_eq _ _).symm
      _ = _ := by rw [← bits_append, List.take_append_drop]

/-! ### Bits that are joined -/

theorem or_replicate_false (l : List Bool) : List.zipWith or l (List.replicate l.length false) = l := by
  induction l with
  | nil => rfl
  | cons bit rest ih => rw [List.length_cons, List.replicate_succ, List.zipWith_cons_cons, ih, Bool.or_false]

theorem replicate_false_or (l : List Bool) : List.zipWith or (List.replicate l.length false) l = l := by
  induction l with
  | nil => rfl
  | cons bit rest ih => rw [List.length_cons, List.replicate_succ, List.zipWith_cons_cons, ih, Bool.false_or]

/-- The low bits of one list and the high bits of another one. -/
theorem zipWith_or_zeros (low high : List Bool) :
    List.zipWith or (low ++ List.replicate high.length false) (List.replicate low.length false ++ high) =
      low ++ high := by
  rw [List.zipWith_append (List.length_replicate).symm, or_replicate_false, replicate_false_or]

/-! ### Single bytes -/

/-- The bits of a byte, one by one. -/
theorem wordBits_byte (b : Byte) : wordBits b =
    [b.getLsbD 0, b.getLsbD 1, b.getLsbD 2, b.getLsbD 3, b.getLsbD 4, b.getLsbD 5, b.getLsbD 6, b.getLsbD 7] := rfl

/-- A shift to the left with a bit that comes in at the low end. -/
theorem wordBits_shiftIn (b : Byte) (bit : Bool) :
    wordBits ((b <<< 1) ||| BitVec.ofNat 8 bit.toNat) ++ [b.getLsbD 7] = bit :: wordBits b := by
  cases bit with
  | false => simp [wordBits_byte]
  | true => simp [wordBits_byte]

/-- A shift to the right with a bit that comes in at the high end. -/
theorem wordBits_shiftDown (b : Byte) (bit : Bool) :
    b.getLsbD 0 :: wordBits ((b >>> 1) ||| (BitVec.ofNat 8 bit.toNat <<< 7)) = wordBits b ++ [bit] := by
  cases bit with
  | false => simp [wordBits_byte]
  | true => simp [wordBits_byte]

theorem wordBits_swap (b : Byte) : wordBits ((b <<< 4) ||| (b >>> 4)) = (wordBits b).rotate 4 := by
  simp [wordBits_byte]

theorem wordBits_or (b b' : Byte) : wordBits (b ||| b') = List.zipWith or (wordBits b) (wordBits b') := by
  simp [wordBits_byte]

/-- A bit that is added where there is none. -/
theorem wordBits_addLow {b : Byte} (bit : Bool) (clear : b.getLsbD 0 = false) :
    wordBits (BitVec.ofNat 8 (b.toNat + bit.toNat)) = bit :: (wordBits b).tail := by
  cases bit with
  | false =>
      rw [Bool.toNat_false, Nat.add_zero, BitVec.ofNat_toNat, BitVec.setWidth_eq, ← clear]
      rfl
  | true =>
      have none : b &&& 1#8 = 0#8 := by
        apply BitVec.eq_of_getLsbD_eq
        intro i small
        rw [BitVec.getLsbD_and, BitVec.getLsbD_one, BitVec.getLsbD_zero]
        by_cases first : i = 0
        · rw [first, clear, Bool.false_and]
        · rw [decide_eq_false first, Bool.and_false, Bool.and_false]
      have sum : BitVec.ofNat 8 (b.toNat + true.toNat) = b ||| 1#8 := by
        rw [← BitVec.add_eq_or_of_and_eq_zero b 1#8 none, BitVec.ofNat_add, BitVec.ofNat_toNat, BitVec.setWidth_eq]
        rfl
      rw [sum]
      simp [wordBits_byte]

/-- A low bit that is written. -/
theorem wordBits_setLow (b : Byte) (bit : Bool) :
    wordBits ((b &&& ~~~(1#8 <<< 0)) ||| (if bit then 1#8 <<< 0 else 0#8)) = bit :: (wordBits b).tail := by
  cases bit with
  | false => simp [wordBits_byte]
  | true => simp [wordBits_byte]

/-- A high bit that is written. -/
theorem wordBits_setHigh (b : Byte) (bit : Bool) :
    wordBits ((b &&& ~~~(1#8 <<< 7)) ||| (if bit then 1#8 <<< 7 else 0#8)) = (wordBits b).dropLast ++ [bit] := by
  cases bit with
  | false => simp [wordBits_byte]
  | true => simp [wordBits_byte]

/-- A single bit that is read. -/
theorem and_bit_ne_zero (b : Byte) {i : Nat} (small : i < 8) : (b &&& (1#8 <<< i) != 0#8) = b.getLsbD i := by
  rw [← BitVec.twoPow_eq, BitVec.and_twoPow]
  cases b.getLsbD i with
  | false => rfl
  | true =>
      rw [if_pos rfl, bne_iff_ne]
      intro zero
      have bit := congrArg (BitVec.getLsbD · i) zero
      simp only [BitVec.getLsbD_twoPow, BitVec.getLsbD_zero, decide_eq_true small] at bit
      exact absurd bit (by simp)

end BitStrings
