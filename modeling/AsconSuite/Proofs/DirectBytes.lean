/-
Module: AsconSuite.Proofs.DirectBytes
Layer: Proofs
Purpose: The forty bytes of the direct backend are the bytes of the word state in order, and its byte
  functions and block macros compute on them what the 64-bit backend computes on words.
Imports: AsconSuite.Core.DirectXor, AsconSuite.Proofs.StateRanges
Trusted boundary: none
Main exports: wordBytes, wordBytes_asconAddBytes, wordBytes_asconEncryptPartial,
  wordBytes_asconDecryptPartial
-/
import AsconSuite.Core.DirectXor
import AsconSuite.Proofs.StateRanges

namespace AsconSuite

open ByteWord ByteMemory

/-- A word state in byte order. -/
def wordBytes (s : AsconState) : DirectXor.AsconState := Vector.ofFn fun i => byteForOffset s i

/-- The words of forty bytes. -/
def bytesWords (b : DirectXor.AsconState) : AsconState :=
  let word (i : Nat) := beLoadWord64 (Mem.view (DirectXor.byteAt b) (8 * i))
  ⟨word 0, word 1, word 2, word 3, word 4⟩

theorem byteAt_wordBytes (s : AsconState) {o : Nat} (ho : o < 40) :
    DirectXor.byteAt (wordBytes s) o = byteForOffset s o := by
  simp [DirectXor.byteAt, wordBytes, ho]

theorem DirectXor.byteAt_setByteAt (b : DirectXor.AsconState) (x : Byte) {o k : Nat} (ho : o < 40) :
    DirectXor.byteAt (DirectXor.setByteAt b o x) k = if k = o then x else DirectXor.byteAt b k := by
  rw [DirectXor.byteAt, DirectXor.setByteAt, Vector.getElem?_setIfInBounds]
  by_cases same : k = o
  · rw [if_pos same.symm, if_pos ho, if_pos same, Option.getD_some]
  · rw [if_neg (Ne.symm same), if_neg same, DirectXor.byteAt]

/-- States of forty bytes are equal when their bytes are. -/
theorem DirectXor.eq_of_byteAt_eq {b c : DirectXor.AsconState}
    (same : ∀ o < 40, DirectXor.byteAt b o = DirectXor.byteAt c o) : b = c := by
  apply Vector.ext
  intro o ho
  simpa [DirectXor.byteAt, ho] using same o ho

theorem wordBytes_setByteForOffset (s : AsconState) (x : Byte) {o : Nat} (ho : o < 40) :
    wordBytes (setByteForOffset s o x) = DirectXor.setByteAt (wordBytes s) o x := by
  apply DirectXor.eq_of_byteAt_eq
  intro k hk
  rw [byteAt_wordBytes _ hk, byteForOffset_setByteForOffset s o x ho hk,
    DirectXor.byteAt_setByteAt _ _ ho, byteAt_wordBytes _ hk]

theorem wordBytes_bytesWords (b : DirectXor.AsconState) : wordBytes (bytesWords b) = b := by
  apply DirectXor.eq_of_byteAt_eq
  intro o ho
  have word : (bytesWords b).get (o / 8) =
      beLoadWord64 (Mem.view (DirectXor.byteAt b) (8 * (o / 8))) := by
    have small : o / 8 < 5 := by omega
    generalize o / 8 = i at small
    interval_cases i <;> rfl
  rw [byteAt_wordBytes _ ho, byteForOffset, word, byteOf_beLoadWord64 _ (by omega), view_apply,
    Nat.div_add_mod]

theorem bytesWords_wordBytes (s : AsconState) : bytesWords (wordBytes s) = s := by
  apply eq_of_byteForOffset_eq
  intro o ho
  rw [← byteAt_wordBytes _ ho, wordBytes_bytesWords, byteAt_wordBytes _ ho]

/-! ### Byte functions -/

variable (s : AsconState)

theorem wordBytes_asconAddBytes (data : Mem) (offset size : Nat) :
    wordBytes (asconAddBytes s data offset size) =
      DirectXor.asconAddBytes (wordBytes s) data offset size := by
  induction size generalizing s data offset with
  | zero => rfl
  | succ size ih =>
      rw [asconAddBytes, DirectXor.asconAddBytes]
      by_cases inside : offset < 40
      · rw [if_pos inside, if_pos inside, ih, wordBytes_setByteForOffset _ _ inside,
          byteAt_wordBytes _ inside]
      · rw [if_neg inside, if_neg inside]

theorem wordBytes_asconOverwriteBytes (data : Mem) (offset size : Nat) :
    wordBytes (asconOverwriteBytes s data offset size) =
      DirectXor.asconOverwriteBytes (wordBytes s) data offset size := by
  induction size generalizing s data offset with
  | zero => rfl
  | succ size ih =>
      rw [asconOverwriteBytes, DirectXor.asconOverwriteBytes]
      by_cases inside : offset < 40
      · rw [if_pos inside, if_pos inside, ih, wordBytes_setByteForOffset _ _ inside]
      · rw [if_neg inside, if_neg inside]

theorem wordBytes_asconOverwriteWithZeroes (offset size : Nat) :
    wordBytes (asconOverwriteWithZeroes s offset size) =
      DirectXor.asconOverwriteWithZeroes (wordBytes s) offset size := by
  induction size generalizing s offset with
  | zero => rfl
  | succ size ih =>
      rw [asconOverwriteWithZeroes, DirectXor.asconOverwriteWithZeroes]
      by_cases inside : offset < 40
      · rw [if_pos inside, if_pos inside, ih, wordBytes_setByteForOffset _ _ inside]
      · rw [if_neg inside, if_neg inside]

theorem directXor_asconExtractBytes (mem : Mem) (data offset size : Nat) :
    asconExtractBytes s mem data offset size =
      DirectXor.asconExtractBytes (wordBytes s) mem data offset size := by
  induction size generalizing mem data offset with
  | zero => rfl
  | succ size ih =>
      rw [asconExtractBytes, DirectXor.asconExtractBytes]
      by_cases inside : offset < 40
      · rw [if_pos inside, if_pos inside, ih, byteAt_wordBytes _ inside]
      · rw [if_neg inside, if_neg inside]

theorem directXor_asconExtractAndAddBytes (mem : Mem) (input output offset size : Nat) :
    asconExtractAndAddBytes s mem input output offset size =
      DirectXor.asconExtractAndAddBytes (wordBytes s) mem input output offset size := by
  induction size generalizing mem input output offset with
  | zero => rfl
  | succ size ih =>
      rw [asconExtractAndAddBytes, DirectXor.asconExtractAndAddBytes]
      by_cases inside : offset < 40
      · rw [if_pos inside, if_pos inside, ih, byteAt_wordBytes _ inside]
      · rw [if_neg inside, if_neg inside]

theorem wordBytes_asconExtractAndOverwriteBytes (mem : Mem) (input output offset size : Nat) :
    (wordBytes (asconExtractAndOverwriteBytes s mem input output offset size).1,
        (asconExtractAndOverwriteBytes s mem input output offset size).2) =
      DirectXor.asconExtractAndOverwriteBytes (wordBytes s) mem input output offset size := by
  induction size generalizing s mem input output offset with
  | zero => rfl
  | succ size ih =>
      rw [asconExtractAndOverwriteBytes, DirectXor.asconExtractAndOverwriteBytes]
      by_cases inside : offset < 40
      · simp only [if_pos inside]
        rw [ih, wordBytes_setByteForOffset _ _ inside, byteAt_wordBytes _ inside]
      · rw [if_neg inside, if_neg inside]

/-! ### Block macros -/

theorem wordBytes_eq_lwXorBlock (data : Mem) {offset size : Nat} (fits : offset + size ≤ 40) :
    wordBytes (asconAddBytes s data offset size) =
      DirectXor.lwXorBlock (wordBytes s) offset data size := by
  induction size generalizing s data offset with
  | zero => rfl
  | succ size ih =>
      rw [asconAddBytes, if_pos (by omega), DirectXor.lwXorBlock, ih _ _ (by omega),
        wordBytes_setByteForOffset _ _ (by omega), byteAt_wordBytes _ (by omega)]

theorem extractBytes_eq_memcpyOut (mem : Mem) (data : Nat) {offset size : Nat}
    (fits : offset + size ≤ 40) :
    asconExtractBytes s mem data offset size =
      DirectXor.memcpyOut (wordBytes s) mem data offset size := by
  rw [asconExtractBytes_eq_write _ _ _ fits, DirectXor.memcpyOut]
  congr 1
  exact read_congr fun i hi => (byteAt_wordBytes s (by omega)).symm

/-- Encryption of a block, byte after byte. -/
theorem wordBytes_asconEncryptPartial (mem : Mem) {dest src offset size : Nat}
    (fits : offset + size ≤ 40) (ranges : SameOrApart dest src size) :
    (wordBytes (asconEncryptPartial s mem dest src offset size).1,
        (asconEncryptPartial s mem dest src offset size).2) =
      DirectXor.lwXorBlock2Dest (wordBytes s) mem dest offset src size := by
  rw [asconEncryptPartial_eq_combine _ _ _ _ fits]
  induction size generalizing s mem dest src offset with
  | zero => rw [combine, read_zero, Cells.fill_nil, write_nil, DirectXor.lwXorBlock2Dest]
  | succ size ih =>
      rw [Nat.add_comm size 1] at ranges
      have rest := ranges.read_rest mem [byteForOffset s offset ^^^ mem src] rfl
      rw [← store_eq_write] at rest
      have tail := ih (setByteForOffset s offset (byteForOffset s offset ^^^ mem src))
        (mem.store dest (byteForOffset s offset ^^^ mem src)) (show offset + 1 + size ≤ 40 by omega)
        ranges.back
      rw [wordBytes_setByteForOffset _ _ (by omega), combine, rest] at tail
      rw [DirectXor.lwXorBlock2Dest, byteAt_wordBytes _ (by omega), ← tail, combine, read_succ,
        Cells.fill_cons, ← write_cons]
      rfl

/-- Decryption of a block, byte after byte. -/
theorem wordBytes_asconDecryptPartial (mem : Mem) (dest src : Nat) {offset size : Nat}
    (fits : offset + size ≤ 40) :
    (wordBytes (asconDecryptPartial s mem dest src offset size).1,
        (asconDecryptPartial s mem dest src offset size).2) =
      DirectXor.lwXorBlockSwap (wordBytes s) mem dest offset src size := by
  unfold asconDecryptPartial
  induction size generalizing s mem dest src offset with
  | zero => rfl
  | succ size ih =>
      rw [asconExtractAndOverwriteBytes, if_pos (by omega), DirectXor.lwXorBlockSwap,
        byteAt_wordBytes _ (by omega), BitVec.xor_comm (byteForOffset s offset),
        ← wordBytes_setByteForOffset _ _ (by omega)]
      exact ih _ _ _ _ (by omega)

/-! ### Word accessors -/

section Words

variable (mem : Mem) {dest src offset : Nat}

theorem wordBytes_asconAbsorb8 (data : Mem) (aligned : offset % 8 = 0) (fits : offset + 8 ≤ 40) :
    wordBytes (asconAbsorb8 s data offset) = DirectXor.asconAbsorb8 (wordBytes s) data offset := by
  rw [asconAbsorb8_eq_addBytes _ _ aligned fits, wordBytes_eq_lwXorBlock _ _ fits,
    DirectXor.asconAbsorb8]

theorem wordBytes_asconAbsorb16 (data : Mem) (aligned : offset % 8 = 0) (fits : offset + 16 ≤ 40) :
    wordBytes (asconAbsorb16 s data offset) = DirectXor.asconAbsorb16 (wordBytes s) data offset := by
  rw [asconAbsorb16_eq_addBytes _ _ aligned fits, wordBytes_eq_lwXorBlock _ _ fits,
    DirectXor.asconAbsorb16]

theorem directXor_asconSqueeze8 (data : Nat) (aligned : offset % 8 = 0) (fits : offset + 8 ≤ 40) :
    asconSqueeze8 s mem data offset = DirectXor.asconSqueeze8 (wordBytes s) mem data offset := by
  rw [asconSqueeze8_eq_extractBytes _ _ _ aligned fits, extractBytes_eq_memcpyOut _ _ _ fits,
    DirectXor.asconSqueeze8]

theorem directXor_asconSqueeze16 (data : Nat) (aligned : offset % 8 = 0) (fits : offset + 16 ≤ 40) :
    asconSqueeze16 s mem data offset = DirectXor.asconSqueeze16 (wordBytes s) mem data offset := by
  rw [asconSqueeze16_eq_extractBytes _ _ _ aligned fits, extractBytes_eq_memcpyOut _ _ _ fits,
    DirectXor.asconSqueeze16]

theorem wordBytes_asconEncrypt8 (aligned : offset % 8 = 0) (fits : offset + 8 ≤ 40)
    (ranges : SameOrApart dest src 8) :
    Prod.map wordBytes id (asconEncrypt8 s mem dest src offset) =
      DirectXor.asconEncrypt8 (wordBytes s) mem dest src offset := by
  rw [asconEncrypt8_eq_bytewise _ _ _ _ aligned fits, DirectXor.asconEncrypt8,
    ← wordBytes_asconEncryptPartial s mem fits ranges, Prod.map, id]

theorem wordBytes_asconEncrypt16 (aligned : offset % 8 = 0) (fits : offset + 16 ≤ 40)
    (ranges : SameOrApart dest src 16) :
    Prod.map wordBytes id (asconEncrypt16 s mem dest src offset) =
      DirectXor.asconEncrypt16 (wordBytes s) mem dest src offset := by
  rw [asconEncrypt16_eq_bytewise _ _ aligned fits ranges, DirectXor.asconEncrypt16,
    ← wordBytes_asconEncryptPartial s mem fits ranges, Prod.map, id]

theorem wordBytes_asconDecrypt8 (aligned : offset % 8 = 0) (fits : offset + 8 ≤ 40)
    (ranges : SameOrApart dest src 8) :
    Prod.map wordBytes id (asconDecrypt8 s mem dest src offset) =
      DirectXor.asconDecrypt8 (wordBytes s) mem dest src offset := by
  rw [asconDecrypt8_eq_bytewise _ _ aligned fits ranges, DirectXor.asconDecrypt8,
    ← wordBytes_asconDecryptPartial s mem dest src fits, Prod.map, id]

theorem wordBytes_asconDecrypt16 (aligned : offset % 8 = 0) (fits : offset + 16 ≤ 40)
    (ranges : SameOrApart dest src 16) :
    Prod.map wordBytes id (asconDecrypt16 s mem dest src offset) =
      DirectXor.asconDecrypt16 (wordBytes s) mem dest src offset := by
  rw [asconDecrypt16_eq_bytewise _ _ aligned fits ranges, DirectXor.asconDecrypt16,
    ← wordBytes_asconDecryptPartial s mem dest src fits, Prod.map, id]

end Words

end AsconSuite
