/-
Module: AsconSuite.Proofs.StateRanges
Layer: Proofs
Purpose: Ranges of state bytes. The byte functions of the 64-bit backend may be cut at any byte, each word
  macro is the byte function of its range, and no function touches a byte outside its range.
Imports: AsconSuite.Proofs.StateBytes
Trusted boundary: none
Main exports: asconAddBytes_add, byteForOffset_asconOverwriteBytes, asconExtractAndAddBytes_add,
  asconAbsorb16_eq_addBytes, asconSqueeze16_eq_extractBytes, asconEncrypt16_eq_bytewise,
  asconDecrypt16_eq_bytewise
-/
import AsconSuite.Proofs.StateBytes

namespace AsconSuite

open ByteWord ByteMemory

/-! ### Cutting a range in two -/

theorem asconAddBytes_add (s : AsconState) (data : Mem) {offset m n : Nat}
    (fits : offset + (m + n) ≤ 40) :
    asconAddBytes s data offset (m + n) =
      asconAddBytes (asconAddBytes s data offset m) (data.view m) (offset + m) n := by
  induction m generalizing s data offset with
  | zero => rw [Nat.zero_add, asconAddBytes, view_zero, Nat.add_zero]
  | succ m ih =>
      rw [Nat.add_right_comm, asconAddBytes, if_pos (by omega), ih _ _ (by omega), asconAddBytes,
        if_pos (by omega), view_view, Nat.add_assoc, Nat.add_comm 1 m]

theorem asconOverwriteBytes_add (s : AsconState) (data : Mem) {offset m n : Nat}
    (fits : offset + (m + n) ≤ 40) :
    asconOverwriteBytes s data offset (m + n) =
      asconOverwriteBytes (asconOverwriteBytes s data offset m) (data.view m) (offset + m) n := by
  induction m generalizing s data offset with
  | zero => rw [Nat.zero_add, asconOverwriteBytes, view_zero, Nat.add_zero]
  | succ m ih =>
      rw [Nat.add_right_comm, asconOverwriteBytes, if_pos (by omega), ih _ _ (by omega),
        asconOverwriteBytes, if_pos (by omega), view_view, Nat.add_assoc, Nat.add_comm 1 m]

/-- Overwriting with zeroes is overwriting with a buffer of zeroes. -/
theorem asconOverwriteWithZeroes_eq (s : AsconState) (offset size : Nat) :
    asconOverwriteWithZeroes s offset size = asconOverwriteBytes s (fun _ => 0) offset size := by
  induction size generalizing s offset with
  | zero => rfl
  | succ size ih =>
      rw [asconOverwriteWithZeroes, asconOverwriteBytes, ih]
      rfl

theorem asconExtractBytes_add (s : AsconState) (mem : Mem) (dest : Nat) {offset m n : Nat}
    (fits : offset + (m + n) ≤ 40) :
    asconExtractBytes s mem dest offset (m + n) =
      asconExtractBytes s (asconExtractBytes s mem dest offset m) (dest + m) (offset + m) n := by
  induction m generalizing mem dest offset with
  | zero => rw [Nat.zero_add, asconExtractBytes, Nat.add_zero, Nat.add_zero]
  | succ m ih =>
      rw [Nat.add_right_comm, asconExtractBytes, if_pos (by omega), ih _ _ (by omega),
        asconExtractBytes, if_pos (by omega), Nat.add_assoc, Nat.add_assoc, Nat.add_comm 1 m]

theorem asconExtractAndAddBytes_add (s : AsconState) (mem : Mem) (input output : Nat)
    {offset m n : Nat} (fits : offset + (m + n) ≤ 40) :
    asconExtractAndAddBytes s mem input output offset (m + n) =
      asconExtractAndAddBytes s (asconExtractAndAddBytes s mem input output offset m) (input + m)
        (output + m) (offset + m) n := by
  induction m generalizing mem input output offset with
  | zero => rw [Nat.zero_add, asconExtractAndAddBytes, Nat.add_zero, Nat.add_zero, Nat.add_zero]
  | succ m ih =>
      rw [Nat.add_right_comm, asconExtractAndAddBytes, if_pos (by omega), ih _ _ _ (by omega),
        asconExtractAndAddBytes, if_pos (by omega), Nat.add_assoc, Nat.add_assoc, Nat.add_assoc,
        Nat.add_comm 1 m]

theorem asconExtractAndOverwriteBytes_add (s : AsconState) (mem : Mem) (input output : Nat)
    {offset m n : Nat} (fits : offset + (m + n) ≤ 40) :
    asconExtractAndOverwriteBytes s mem input output offset (m + n) =
      asconExtractAndOverwriteBytes (asconExtractAndOverwriteBytes s mem input output offset m).1
        (asconExtractAndOverwriteBytes s mem input output offset m).2 (input + m) (output + m)
        (offset + m) n := by
  induction m generalizing s mem input output offset with
  | zero => rw [Nat.zero_add, asconExtractAndOverwriteBytes, Nat.add_zero, Nat.add_zero, Nat.add_zero]
  | succ m ih =>
      rw [Nat.add_right_comm, asconExtractAndOverwriteBytes, if_pos (by omega)]
      simp only
      rw [ih _ _ _ _ (by omega), asconExtractAndOverwriteBytes, if_pos (by omega)]
      simp only [Nat.add_assoc, Nat.add_comm 1 m]

/-- `ascon_extract_and_add_bytes` writes what `ascon_extract_and_overwrite_bytes` writes: a byte that the
latter has replaced is not read again. -/
theorem asconExtractAndAddBytes_eq_overwrite (s t : AsconState) (mem : Mem) (input output : Nat)
    {offset size : Nat} (fits : offset + size ≤ 40)
    (ahead : ∀ k < 40, offset ≤ k → byteForOffset t k = byteForOffset s k) :
    asconExtractAndAddBytes s mem input output offset size =
      (asconExtractAndOverwriteBytes t mem input output offset size).2 := by
  induction size generalizing t mem input output offset with
  | zero => rfl
  | succ size ih =>
      rw [asconExtractAndAddBytes, if_pos (by omega), asconExtractAndOverwriteBytes,
        if_pos (by omega), ahead offset (by omega) (by omega)]
      refine ih _ _ _ _ (by omega) fun k hk beyond => ?_
      rw [byteForOffset_setByteForOffset _ _ _ (by omega) hk, if_neg (by omega),
        ahead k hk (by omega)]

/-! ### The bytes of the new state -/

/-- `ascon_overwrite_bytes` replaces the bytes of the range. -/
theorem byteForOffset_asconOverwriteBytes (s : AsconState) (data : Mem) {offset size k : Nat}
    (fits : offset + size ≤ 40) (hk : k < 40) :
    byteForOffset (asconOverwriteBytes s data offset size) k =
      if offset ≤ k ∧ k < offset + size then data (k - offset) else byteForOffset s k := by
  induction size generalizing s data offset with
  | zero => rw [asconOverwriteBytes, if_neg (by omega)]
  | succ size ih =>
      rw [asconOverwriteBytes, if_pos (by omega), ih _ _ (by omega)]
      simp only [byteForOffset_setByteForOffset s offset _ (by omega : offset < 40) hk]
      rcases Nat.lt_trichotomy k offset with before | here | behind
      · rw [if_neg (by omega), if_neg (by omega), if_neg (by omega)]
      · rw [if_neg (by omega), if_pos here, if_pos (by omega), here, Nat.sub_self]
      · rw [if_neg (by omega : ¬ k = offset)]
        by_cases inside : k < offset + 1 + size
        · rw [if_pos ⟨by omega, inside⟩, if_pos (by omega), view_apply]
          congr 1
          omega
        · rw [if_neg (by omega), if_neg (by omega)]

/-- What is left in the state by a combination, outside its range. -/
theorem byteForOffset_combine_outside (mix : Mix Byte Byte Byte) (s : AsconState) (mem : Mem)
    (dest src : Nat) {offset n k : Nat} (fits : offset + n ≤ 40) (hk : k < 40)
    (outside : k < offset ∨ offset + n ≤ k) :
    byteForOffset (combine mix s mem dest src offset n).1 k = byteForOffset s k := by
  induction n generalizing s mem dest src offset with
  | zero => rfl
  | succ n ih =>
      have rest := ih (asconCells.set s offset (mix (asconCells.get s offset) (mem src)).1) mem dest
        (src + 1) (show offset + 1 + n ≤ 40 by omega) (by omega)
      rw [asconCells_set, byteForOffset_setByteForOffset _ _ _ (by omega) hk,
        if_neg (by omega)] at rest
      rw [← rest]
      rfl

/-! ### The word macros of the 64-bit backend -/

theorem asconAbsorb8_eq_addBytes (s : AsconState) (data : Mem) {offset : Nat}
    (aligned : offset % 8 = 0) (fits : offset + 8 ≤ 40) :
    asconAbsorb8 s data offset = asconAddBytes s data offset 8 := by
  apply eq_of_byteForOffset_eq
  intro k hk
  rw [asconAbsorb8, byteForOffset_modify _ _ (by omega) hk, byteForOffset_asconAddBytes _ _ fits hk]
  by_cases inside : k / 8 = offset / 8
  · rw [if_pos inside, if_pos (by omega), byteOf_xor, byteOf_beLoadWord64 _ (by omega), ← inside,
      byteForOffset, show k % 8 = k - offset by omega]
  · rw [if_neg inside, if_neg (by omega)]

theorem asconAbsorb16_eq_addBytes (s : AsconState) (data : Mem) {offset : Nat}
    (aligned : offset % 8 = 0) (fits : offset + 16 ≤ 40) :
    asconAbsorb16 s data offset = asconAddBytes s data offset 16 := by
  have second := asconAbsorb8_eq_addBytes (asconAbsorb8 s data offset) (data.view 8)
    (show (offset + 8) % 8 = 0 by omega) (by omega)
  rw [asconAbsorb8_eq_addBytes s data aligned (by omega),
    ← asconAddBytes_add s data (m := 8) (n := 8) (by omega)] at second
  rw [← second, ← asconAbsorb8_eq_addBytes s data aligned (by omega), asconAbsorb16, asconAbsorb8,
    asconAbsorb8, show (offset + 8) / 8 = offset / 8 + 1 by omega]

theorem asconSqueeze8_eq_extractBytes (s : AsconState) (mem : Mem) (data : Nat) {offset : Nat}
    (aligned : offset % 8 = 0) (fits : offset + 8 ≤ 40) :
    asconSqueeze8 s mem data offset = asconExtractBytes s mem data offset 8 := by
  rw [asconExtractBytes_eq_write _ _ _ fits, asconSqueeze8, beStoreWord64]
  congr 1
  apply List.ext_getElem?
  intro j
  rw [getElem?_read]
  rcases Nat.lt_or_ge j 8 with within | beyond
  · rw [getElem?_beBytes64 _ within, if_pos within, byteForOffset,
      show (offset + j) / 8 = offset / 8 by omega, show (offset + j) % 8 = j by omega]
  · rw [List.getElem?_eq_none (by simpa using beyond), if_neg (by omega)]

theorem asconSqueeze16_eq_extractBytes (s : AsconState) (mem : Mem) (data : Nat) {offset : Nat}
    (aligned : offset % 8 = 0) (fits : offset + 16 ≤ 40) :
    asconSqueeze16 s mem data offset = asconExtractBytes s mem data offset 16 := by
  rw [asconExtractBytes_add s mem data (m := 8) (n := 8) (by omega),
    ← asconSqueeze8_eq_extractBytes s mem data aligned (by omega),
    ← asconSqueeze8_eq_extractBytes s _ _ (by omega) (by omega), asconSqueeze16, asconSqueeze8,
    asconSqueeze8, show (offset + 8) / 8 = offset / 8 + 1 by omega]

theorem asconEncrypt8_eq_bytewise (s : AsconState) (mem : Mem) (dest src : Nat) {offset : Nat}
    (aligned : offset % 8 = 0) (fits : offset + 8 ≤ 40) :
    asconEncrypt8 s mem dest src offset = asconEncryptPartial s mem dest src offset 8 := by
  rw [asconEncrypt8_eq_combine s mem dest src aligned fits,
    asconEncryptPartial_eq_combine s mem dest src fits]

theorem asconEncrypt16_eq_bytewise (s : AsconState) (mem : Mem) {dest src offset : Nat}
    (aligned : offset % 8 = 0) (fits : offset + 16 ≤ 40) (ranges : SameOrApart dest src 16) :
    asconEncrypt16 s mem dest src offset = asconEncryptPartial s mem dest src offset 16 := by
  rw [asconEncrypt16_eq_combine s mem aligned fits ranges,
    asconEncryptPartial_eq_combine s mem dest src fits]

theorem asconDecrypt8_eq_bytewise (s : AsconState) (mem : Mem) {dest src offset : Nat}
    (aligned : offset % 8 = 0) (fits : offset + 8 ≤ 40) (ranges : SameOrApart dest src 8) :
    asconDecrypt8 s mem dest src offset = asconDecryptPartial s mem dest src offset 8 := by
  rw [asconDecrypt8_eq_combine s mem dest src aligned fits,
    asconDecryptPartial_eq_combine s mem fits ranges]

theorem asconDecrypt16_eq_bytewise (s : AsconState) (mem : Mem) {dest src offset : Nat}
    (aligned : offset % 8 = 0) (fits : offset + 16 ≤ 40) (ranges : SameOrApart dest src 16) :
    asconDecrypt16 s mem dest src offset = asconDecryptPartial s mem dest src offset 16 := by
  rw [asconDecrypt16_eq_combine s mem aligned fits ranges,
    asconDecryptPartial_eq_combine s mem fits ranges]

end AsconSuite
