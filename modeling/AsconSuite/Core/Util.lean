/-
Module: AsconSuite.Core.Util
Layer: Model
Purpose: The load, store and rotate macros of `core/ascon-util.h`. A pointer to data that is only read is
  the function from an index to the byte behind it; a pointer that is written is an address.
Imports: AsconSuite.Base.ByteMemory
Trusted boundary: none
Main exports: beLoadWord64, beStoreWord64, beLoadWord32, beStoreWord32, rightRotate, rightRotate64,
  leftRotate64, byteOf_beLoadWord64
-/
import AsconSuite.Base.ByteMemory

namespace AsconSuite

open ByteWord ByteMemory

/-- `(int)`, the conversion of a size. -/
def toInt (size : Nat) : Int := (BitVec.ofNat 32 size).toInt

/-- `be_load_word64`. -/
def beLoadWord64 (ptr : Mem) : Word :=
  ((ptr 0).setWidth 64 <<< 56) ||| ((ptr 1).setWidth 64 <<< 48) |||
    ((ptr 2).setWidth 64 <<< 40) ||| ((ptr 3).setWidth 64 <<< 32) |||
    ((ptr 4).setWidth 64 <<< 24) ||| ((ptr 5).setWidth 64 <<< 16) |||
    ((ptr 6).setWidth 64 <<< 8) ||| (ptr 7).setWidth 64

/-- The bytes of a 64-bit word in the order `be_store_word64` writes them. -/
def beBytes64 (x : Word) : List Byte :=
  [(x >>> 56).setWidth 8, (x >>> 48).setWidth 8, (x >>> 40).setWidth 8, (x >>> 32).setWidth 8,
    (x >>> 24).setWidth 8, (x >>> 16).setWidth 8, (x >>> 8).setWidth 8, x.setWidth 8]

/-- `be_store_word64`. -/
def beStoreWord64 (mem : Mem) (ptr : Nat) (x : Word) : Mem :=
  mem.write ptr (beBytes64 x)

/-- `be_load_word32`. -/
def beLoadWord32 (ptr : Mem) : BitVec 32 :=
  ((ptr 0).setWidth 32 <<< 24) ||| ((ptr 1).setWidth 32 <<< 16) |||
    ((ptr 2).setWidth 32 <<< 8) ||| (ptr 3).setWidth 32

/-- `be_load_word16`. -/
def beLoadWord16 (ptr : Mem) : BitVec 16 :=
  ((ptr 0).setWidth 16 <<< 8) ||| (ptr 1).setWidth 16

/-- `be_store_word32`. -/
def beStoreWord32 (mem : Mem) (ptr : Nat) (x : BitVec 32) : Mem :=
  mem.write ptr [(x >>> 24).setWidth 8, (x >>> 16).setWidth 8, (x >>> 8).setWidth 8, x.setWidth 8]

/-- `be_store_word16`. -/
def beStoreWord16 (mem : Mem) (ptr : Nat) (x : BitVec 16) : Mem :=
  mem.write ptr [(x >>> 8).setWidth 8, x.setWidth 8]

/-- `rightRotate`, the rotation of 32-bit words. -/
def rightRotate (a : BitVec 32) (bits : Nat) : BitVec 32 :=
  (a >>> bits) ||| (a <<< (32 - bits))

/-- `rightRotate_64`. -/
def rightRotate64 (a : Word) (bits : Nat) : Word :=
  (a >>> bits) ||| (a <<< (64 - bits))

/-- `leftRotate_64`. -/
def leftRotate64 (a : Word) (bits : Nat) : Word :=
  (a <<< bits) ||| (a >>> (64 - bits))

/-! ### Words and their bytes -/

/-- Byte `j` of a loaded word is the byte at index `j`. -/
@[simp] theorem byteOf_beLoadWord64 (ptr : Mem) {j : Nat} (hj : j < 8) :
    byteOf (beLoadWord64 ptr) j = ptr j :=
  byteOf_wordOfBytes ptr hj

@[simp] theorem length_beBytes64 (x : Word) : (beBytes64 x).length = 8 := rfl

theorem beBytes64_eq (x : Word) : beBytes64 x =
    [byteOf x 0, byteOf x 1, byteOf x 2, byteOf x 3, byteOf x 4, byteOf x 5, byteOf x 6,
      byteOf x 7] := by
  simp only [beBytes64, ← setWidth_ushiftRight_eq_byteOf]
  rw [Nat.sub_self, Nat.mul_zero, BitVec.ushiftRight_zero]

theorem beBytes64_eq_read (x : Word) : beBytes64 x = Mem.read (byteOf x) 0 8 :=
  beBytes64_eq x

/-- The byte stored at index `j` is byte `j` of the word. -/
theorem getElem?_beBytes64 (x : Word) {j : Nat} (hj : j < 8) :
    (beBytes64 x)[j]? = some (byteOf x j) := by
  rw [beBytes64_eq]
  interval_cases j <;> rfl

/-- Loading at an address reads the word written there. -/
theorem beBytes64_beLoadWord64 (mem : Mem) (p : Nat) :
    beBytes64 (beLoadWord64 (mem.view p)) = mem.read p 8 := by
  apply List.ext_getElem?
  intro j
  rcases Nat.lt_or_ge j 8 with within | beyond
  · rw [getElem?_beBytes64 _ within, byteOf_beLoadWord64 _ within, getElem?_read, if_pos within,
      view_apply]
  · rw [List.getElem?_eq_none (by simpa using beyond), List.getElem?_eq_none (by simpa using beyond)]

/-- The right rotation of the source is the rotation of bit vectors. -/
theorem rightRotate64_eq_rotateRight (a : Word) {bits : Nat} (small : bits < 64) :
    rightRotate64 a bits = a.rotateRight bits := by
  rw [rightRotate64, BitVec.rotateRight_def, Nat.mod_eq_of_lt small]

theorem rightRotate_eq_rotateRight (a : BitVec 32) {bits : Nat} (small : bits < 32) :
    rightRotate a bits = a.rotateRight bits := by
  rw [rightRotate, BitVec.rotateRight_def, Nat.mod_eq_of_lt small]

end AsconSuite
