/-
Module: AsconSuite.Proofs.SlicedBytes
Layer: Proofs
Purpose: The byte functions of the bit-sliced backend compute those of the 64-bit backend on the combined
  words. The frame of head, whole words and tail is handled once, by a rule that asks for each part what
  it does to the bytes of one word.
Imports: AsconSuite.Proofs.SlicedWords, AsconSuite.Proofs.StateRanges
Trusted boundary: none
Main exports: Sliced32.byteRange_rule, Sliced32.ofSliced_asconAddBytes,
  Sliced32.ofSliced_asconOverwriteBytes, Sliced32.ofSliced_asconOverwriteWithZeroes,
  Sliced32.asconExtractBytes_eq, Sliced32.asconExtractAndAddBytes_eq,
  Sliced32.ofSliced_asconExtractAndOverwriteBytes
-/
import AsconSuite.Proofs.SlicedWords
import AsconSuite.Proofs.StateRanges

namespace AsconSuite.Sliced32

open ByteWord ByteMemory

/-! ### The words of a sliced state -/

theorem ofSliced_get (s : AsconState) (i : Nat) : (ofSliced s).get i = combineWord (s.get i) := by
  rcases i with _ | _ | _ | _ | i <;> rfl

theorem ofSliced_set (s : AsconState) (w : SlicedWord) (i : Nat) :
    ofSliced (s.set i w) = (ofSliced s).set i (combineWord w) := by
  rcases i with _ | _ | _ | _ | i <;> rfl

theorem asconSqueezeWord64_eq (s : AsconState) (i : Nat) :
    asconSqueezeWord64 s i = (ofSliced s).get i :=
  (ofSliced_get s i).symm

theorem ofSliced_asconSetWord64 (s : AsconState) (value : Word) (i : Nat) :
    ofSliced (asconSetWord64 s value i) = (ofSliced s).set i value := by
  rw [asconSetWord64, ofSliced_set, combineWord_sliceWord]

theorem ofSliced_asconAbsorbWord64 (s : AsconState) (value : Word) (i : Nat) :
    ofSliced (asconAbsorbWord64 s value i) = (ofSliced s).modify i (· ^^^ value) := by
  rw [asconAbsorbWord64, Five.modify, ofSliced_set, combineWord_addSliced, combineWord_sliceWord,
    ← ofSliced_get, Five.modify]

theorem beLoadWord64_high (data : Mem) :
    ((beLoadWord64 data) >>> 32).setWidth 32 = beLoadWord32 data := by
  apply BitVec.eq_of_getLsbD_eq
  intro i hi
  simp only [beLoadWord64, beLoadWord32, BitVec.getLsbD_setWidth, BitVec.getLsbD_ushiftRight,
    BitVec.getLsbD_or, BitVec.getLsbD_shiftLeft]
  interval_cases i <;> simp

theorem beLoadWord64_low (data : Mem) :
    (beLoadWord64 data).setWidth 32 = beLoadWord32 (data.view 4) := by
  apply BitVec.eq_of_getLsbD_eq
  intro i hi
  simp only [beLoadWord64, beLoadWord32, BitVec.getLsbD_setWidth, BitVec.getLsbD_or,
    BitVec.getLsbD_shiftLeft, view_apply]
  interval_cases i <;> simp

/-- The two halves loaded separately are the halves of the loaded word. -/
theorem sliceData_eq_sliceWord (data : Mem) : sliceData data = sliceWord (beLoadWord64 data) := by
  rw [sliceData, sliceWord, beLoadWord64_high, beLoadWord64_low]

theorem ofSliced_asconAbsorbSliced (s : AsconState) (data : Mem) (i : Nat) :
    ofSliced (asconAbsorbSliced s data i) = (ofSliced s).modify i (· ^^^ beLoadWord64 data) := by
  rw [asconAbsorbSliced, sliceData_eq_sliceWord]
  exact ofSliced_asconAbsorbWord64 s (beLoadWord64 data) i

theorem ofSliced_asconSetSliced (s : AsconState) (data : Mem) (i : Nat) :
    ofSliced (asconSetSliced s data i) = (ofSliced s).set i (beLoadWord64 data) := by
  rw [asconSetSliced, sliceData_eq_sliceWord]
  exact ofSliced_asconSetWord64 s (beLoadWord64 data) i

/-- A byte of the upper half of a word. -/
theorem byte_of_high (x : Word) {k : Nat} (within : k + 8 ≤ 32) :
    (((x >>> 32).setWidth 32) >>> k).setWidth 8 = (x >>> (32 + k)).setWidth 8 := by
  apply BitVec.eq_of_getLsbD_eq
  intro i hi
  simp only [BitVec.getLsbD_setWidth, BitVec.getLsbD_ushiftRight, Nat.add_assoc]
  rw [decide_eq_true (by omega : k + i < 32), Bool.true_and]

/-- A byte of the lower half of a word. -/
theorem byte_of_low (x : Word) {k : Nat} (within : k + 8 ≤ 32) :
    ((x.setWidth 32) >>> k).setWidth 8 = (x >>> k).setWidth 8 := by
  apply BitVec.eq_of_getLsbD_eq
  intro i hi
  simp only [BitVec.getLsbD_setWidth, BitVec.getLsbD_ushiftRight]
  rw [decide_eq_true (by omega : k + i < 32), Bool.true_and]

/-- Storing the halves of a word is storing the word. -/
theorem storeHalves_eq (mem : Mem) (data : Nat) (x : Word) :
    storeHalves mem data ((x >>> 32).setWidth 32) (x.setWidth 32) = beStoreWord64 mem data x := by
  have low0 : (x.setWidth 32).setWidth 8 = x.setWidth 8 := by
    have shifted := byte_of_low x (k := 0) (by omega)
    rwa [BitVec.ushiftRight_zero, BitVec.ushiftRight_zero] at shifted
  have high0 : ((x >>> 32).setWidth 32).setWidth 8 = (x >>> 32).setWidth 8 := by
    have shifted := byte_of_high x (k := 0) (by omega)
    rwa [BitVec.ushiftRight_zero] at shifted
  simp only [storeHalves, beStoreWord32, beStoreWord64, beBytes64]
  rw [byte_of_high x (k := 24) (by omega), byte_of_high x (k := 16) (by omega),
    byte_of_high x (k := 8) (by omega), high0, byte_of_low x (k := 24) (by omega),
    byte_of_low x (k := 16) (by omega), byte_of_low x (k := 8) (by omega), low0]
  exact write_append mem data _ _

theorem storeHalves_combine (mem : Mem) (data : Nat) (w : SlicedWord) :
    storeHalves mem data (asconCombine (slicedHigh w)) (asconCombine (slicedLow w)) =
      beStoreWord64 mem data (combineWord w) := by
  rw [← storeHalves_eq, setWidth_combineWord_ushiftRight, setWidth_combineWord]

theorem asconSqueezeSliced_eq (s : AsconState) (mem : Mem) (data i : Nat) :
    asconSqueezeSliced s mem data i = beStoreWord64 mem data ((ofSliced s).get i) := by
  rw [asconSqueezeSliced, storeHalves_combine, ofSliced_get]

/-- The sum of separated input halves with a stored pair, combined, is the sum of the words. -/
theorem storeHalves_sum (s : AsconState) (mem : Mem) (m i : Nat) (input : Mem) :
    storeHalves mem m
      (asconCombine (asconSeparate (beLoadWord32 input) ^^^ slicedHigh (s.get i)))
      (asconCombine (asconSeparate (beLoadWord32 (input.view 4)) ^^^ slicedLow (s.get i))) =
      beStoreWord64 mem m (beLoadWord64 input ^^^ (ofSliced s).get i) := by
  rw [← storeHalves_eq, BitVec.ushiftRight_xor_distrib, BitVec.setWidth_xor, BitVec.setWidth_xor,
    beLoadWord64_high, beLoadWord64_low, ofSliced_get, setWidth_combineWord_ushiftRight,
    setWidth_combineWord, asconCombine_xor, asconCombine_xor, asconCombine_asconSeparate,
    asconCombine_asconSeparate]

theorem asconDecryptSlicedNoInsert_eq (s : AsconState) (mem : Mem) (m c i : Nat) :
    asconDecryptSlicedNoInsert s mem m c i =
      beStoreWord64 mem m (beLoadWord64 (mem.view c) ^^^ (ofSliced s).get i) := by
  rw [← storeHalves_sum, view_view, asconDecryptSlicedNoInsert]

/-- `ascon_decrypt_sliced` is the word macro of the 64-bit backend. -/
theorem asconDecryptSliced_eq (s : AsconState) (mem : Mem) (m c offset : Nat) :
    (ofSliced (asconDecryptSliced s mem m c (offset / 8)).1,
        (asconDecryptSliced s mem m c (offset / 8)).2) =
      AsconSuite.asconDecrypt8 (ofSliced s) mem m c offset := by
  have state : ofSliced (asconDecryptSliced s mem m c (offset / 8)).1 =
      (ofSliced s).set (offset / 8) (beLoadWord64 (mem.view c)) := by
    rw [← ofSliced_asconSetSliced, asconSetSliced, sliceData, view_view, asconDecryptSliced]
  have output : (asconDecryptSliced s mem m c (offset / 8)).2 =
      beStoreWord64 mem m (beLoadWord64 (mem.view c) ^^^ (ofSliced s).get (offset / 8)) := by
    rw [← storeHalves_sum, view_view, asconDecryptSliced]
  rw [state, output, AsconSuite.asconDecrypt8]

/-- `ascon_encrypt_sliced` is the word macro of the 64-bit backend. -/
theorem asconEncryptSliced_eq (s : AsconState) (mem : Mem) (c m offset : Nat) :
    (ofSliced (asconEncryptSliced s mem c m (offset / 8)).1,
        (asconEncryptSliced s mem c m (offset / 8)).2) =
      AsconSuite.asconEncrypt8 (ofSliced s) mem c m offset := by
  have state := ofSliced_asconAbsorbSliced s (mem.view m) (offset / 8)
  have output := asconSqueezeSliced_eq (asconAbsorbSliced s (mem.view m) (offset / 8)) mem c
    (offset / 8)
  rw [AsconSuite.asconEncrypt8, ← state, ← output]
  rfl

/-! ### Bytes of one word -/

/-- The bytes that `orBytes` puts into a word of zeroes. -/
theorem byteOf_orBytes (value : Word) (data : Mem) {start size j : Nat} (fits : start + size ≤ 8)
    (hj : j < 8) :
    byteOf (orBytes value data ((7 - start) * 8) size) j =
      if start ≤ j ∧ j < start + size then byteOf value j ||| data (j - start)
      else byteOf value j := by
  induction size generalizing value data start with
  | zero => rw [orBytes, if_neg (by omega)]
  | succ size ih =>
      rw [orBytes, show (7 - start) * 8 - 8 = (7 - (start + 1)) * 8 by omega, ih _ _ (by omega),
        byteOf_or, Nat.mul_comm, byteOf_shifted _ hj (by omega)]
      rcases Nat.lt_trichotomy j start with before | here | behind
      · rw [if_neg (by omega), if_neg (by omega), if_neg (by omega), BitVec.ofNat_eq_ofNat,
          BitVec.or_zero]
      · rw [if_neg (by omega), if_pos here, if_pos (by omega), here, Nat.sub_self]
      · rw [if_neg (by omega : ¬ j = start), BitVec.ofNat_eq_ofNat, BitVec.or_zero]
        by_cases inside : j < start + 1 + size
        · rw [if_pos ⟨by omega, inside⟩, if_pos (by omega), view_apply]
          congr 2
          omega
        · rw [if_neg (by omega), if_neg (by omega)]

theorem set_set (s : AsconSuite.AsconState) (i : Nat) (v w : Word) :
    (s.set i v).set i w = s.set i w := by
  rcases i with _ | _ | _ | _ | i <;> rfl

theorem get_set_self (s : AsconSuite.AsconState) (i : Nat) (v : Word) : (s.set i v).get i = v := by
  rcases i with _ | _ | _ | _ | i <;> rfl

theorem set_get_self (s : AsconSuite.AsconState) (i : Nat) : s.set i (s.get i) = s := by
  rcases i with _ | _ | _ | _ | i <;> rfl

/-- The assignment of one byte that the loops over a word make. -/
theorem replace_eq_setByteOf (value : Word) (b : Byte) {start : Nat} :
    (value &&& ~~~(0xFF#64 <<< ((7 - start) * 8))) ||| (b.setWidth 64 <<< ((7 - start) * 8)) =
      setByteOf value start b := by
  rw [setByteOf, Nat.mul_comm]
  rfl

/-- A byte of a word of the state. -/
theorem byteForOffset_word (s : AsconSuite.AsconState) {offset : Nat} :
    byteForOffset s offset =
      ((s.get (offset / 8)) >>> ((7 - offset % 8) * 8)).setWidth 8 := by
  rw [Nat.mul_comm, setWidth_ushiftRight_eq_byteOf, byteForOffset]

section Word

variable {offset size : Nat} (s : AsconSuite.AsconState)

/-- The position in the word after one byte. -/
theorem next_byte (inWord : offset % 8 + (size + 1) ≤ 8) :
    size = 0 ∨ ((offset + 1) / 8 = offset / 8 ∧ (offset + 1) % 8 = offset % 8 + 1 ∧
      (7 - offset % 8) * 8 - 8 = (7 - (offset + 1) % 8) * 8) := by
  omega

/-- Adding bytes within one word. -/
theorem modify_orBytes (data : Mem) (inWord : offset % 8 + size ≤ 8) (fits : offset + size ≤ 40)
    (inState : offset / 8 < 5) :
    s.modify (offset / 8) (· ^^^ orBytes 0#64 data ((7 - offset % 8) * 8) size) =
      AsconSuite.asconAddBytes s data offset size := by
  apply eq_of_byteForOffset_eq
  intro k hk
  rw [byteForOffset_modify _ _ inState hk, byteForOffset_asconAddBytes _ _ fits hk]
  by_cases here : k / 8 = offset / 8
  · rw [if_pos here, byteOf_xor, byteOf_orBytes _ _ inWord (by omega), ← here]
    by_cases inside : offset ≤ k ∧ k < offset + size
    · rw [if_pos (by omega), if_pos inside, show k % 8 - offset % 8 = k - offset by omega,
        show byteOf 0#64 (k % 8) = 0 from byteOf_zero _, BitVec.ofNat_eq_ofNat, BitVec.zero_or,
        byteForOffset]
    · rw [if_neg (by omega), if_neg inside, show byteOf 0#64 (k % 8) = 0 from byteOf_zero _,
        BitVec.ofNat_eq_ofNat, BitVec.xor_zero, byteForOffset]
  · rw [if_neg here, if_neg (by omega)]

/-- Replacing bytes within one word. -/
theorem set_replaceBytes (data : Mem) (inWord : offset % 8 + size ≤ 8) (inState : offset / 8 < 5) :
    s.set (offset / 8) (replaceBytes (s.get (offset / 8)) data ((7 - offset % 8) * 8) size) =
      AsconSuite.asconOverwriteBytes s data offset size := by
  induction size generalizing s data offset with
  | zero => rw [replaceBytes, set_get_self, AsconSuite.asconOverwriteBytes]
  | succ size ih =>
      rw [AsconSuite.asconOverwriteBytes, if_pos (by omega), replaceBytes, replace_eq_setByteOf]
      rcases next_byte inWord with rfl | ⟨word, _, shift⟩
      · rfl
      · have rest := ih (setByteForOffset s offset (data 0)) (data.view 1)
          (show (offset + 1) % 8 + size ≤ 8 by omega) (by omega)
        rw [word, ← shift, setByteForOffset, Five.modify, get_set_self, set_set] at rest
        exact rest

/-- Replacing a whole word. -/
theorem set_wholeWord (data : Mem) (aligned : offset % 8 = 0) (fits : offset + 8 ≤ 40) :
    s.set (offset / 8) (beLoadWord64 data) = AsconSuite.asconOverwriteBytes s data offset 8 := by
  apply eq_of_byteForOffset_eq
  intro k hk
  rw [byteForOffset_asconOverwriteBytes _ _ fits hk, byteForOffset,
    Five.get_set _ _ (by omega) (by omega)]
  by_cases here : k / 8 = offset / 8
  · rw [if_pos here, if_pos (by omega), byteOf_beLoadWord64 _ (by omega),
      show k % 8 = k - offset by omega]
  · rw [if_neg here, if_neg (by omega), byteForOffset]

/-- Writing bytes of one word. -/
theorem writeBytes_eq (mem : Mem) (data : Nat) (inWord : offset % 8 + size ≤ 8)
    (inState : offset / 8 < 5) :
    writeBytes (s.get (offset / 8)) mem data ((7 - offset % 8) * 8) size =
      AsconSuite.asconExtractBytes s mem data offset size := by
  induction size generalizing mem data offset with
  | zero => rfl
  | succ size ih =>
      rw [AsconSuite.asconExtractBytes, if_pos (by omega), writeBytes, ← byteForOffset_word]
      rcases next_byte inWord with rfl | ⟨word, _, shift⟩
      · rfl
      · rw [← ih _ _ (by omega) (by omega), word, shift]

/-- Writing sums with bytes of one word. -/
theorem writeSums_eq (mem : Mem) (input output : Nat) (inWord : offset % 8 + size ≤ 8)
    (inState : offset / 8 < 5) :
    writeSums (s.get (offset / 8)) mem input output ((7 - offset % 8) * 8) size =
      AsconSuite.asconExtractAndAddBytes s mem input output offset size := by
  induction size generalizing mem input output offset with
  | zero => rfl
  | succ size ih =>
      rw [AsconSuite.asconExtractAndAddBytes, if_pos (by omega), writeSums, ← byteForOffset_word]
      rcases next_byte inWord with rfl | ⟨word, _, shift⟩
      · rfl
      · rw [← ih _ _ _ (by omega) (by omega), word, shift]

/-- Exchanging bytes of one word. -/
theorem swapBytes_eq (mem : Mem) (input output : Nat) (inWord : offset % 8 + size ≤ 8)
    (inState : offset / 8 < 5) :
    (s.set (offset / 8)
        (swapBytes (s.get (offset / 8)) mem input output ((7 - offset % 8) * 8) size).1,
      (swapBytes (s.get (offset / 8)) mem input output ((7 - offset % 8) * 8) size).2) =
      AsconSuite.asconExtractAndOverwriteBytes s mem input output offset size := by
  induction size generalizing s mem input output offset with
  | zero => rw [swapBytes, set_get_self, AsconSuite.asconExtractAndOverwriteBytes]
  | succ size ih =>
      rw [AsconSuite.asconExtractAndOverwriteBytes, if_pos (by omega), swapBytes]
      simp only [replace_eq_setByteOf, ← byteForOffset_word]
      rcases next_byte inWord with rfl | ⟨word, _, shift⟩
      · rfl
      · have rest := ih (setByteForOffset s offset (mem input))
          (mem.store output (mem input ^^^ byteForOffset s offset)) (input + 1) (output + 1)
          (show (offset + 1) % 8 + size ≤ 8 by omega) (by omega)
        rw [word, ← shift] at rest
        rw [← rest, setByteForOffset, Five.modify, get_set_self, set_set]

/-- The mask of the bytes above position `ofs` and the mask of the bytes from `ofs + posn` on. -/
theorem byteOf_zeroMasks : ∀ ofs < 8, ∀ posn < 9 - ofs, ∀ j < 8,
    byteOf (~~~0#64 <<< ((8 - ofs) * 8)) j = (if j < ofs then 255#8 else 0#8) ∧
      byteOf ((1#64 <<< ((8 - ofs - posn) * 8)) - 1#64) j =
        (if ofs + posn ≤ j then 255#8 else 0#8) := by
  decide +kernel

/-- The mask of the bytes behind the first `size`. -/
theorem byteOf_tailMask : ∀ size < 8, ∀ j < 8,
    byteOf (~~~0#64 >>> (size * 8)) j = (if j < size then 0#8 else 255#8) := by
  decide +kernel

theorem and_allOnes_byte (b : Byte) : b &&& 255#8 = b := by
  rw [show 255#8 = BitVec.allOnes 8 from rfl, BitVec.and_allOnes]

/-- Clearing bytes within one word, as the source does before a word boundary. -/
theorem set_zeroHead (inWord : offset % 8 + size ≤ 8) (fits : offset + size ≤ 40)
    (inState : offset / 8 < 5) :
    s.set (offset / 8)
        ((s.get (offset / 8) &&& (~~~0#64 <<< ((8 - offset % 8) * 8))) |||
          (s.get (offset / 8) &&& ((1#64 <<< ((8 - offset % 8 - size) * 8)) - 1#64))) =
      AsconSuite.asconOverwriteWithZeroes s offset size := by
  rw [asconOverwriteWithZeroes_eq]
  apply eq_of_byteForOffset_eq
  intro k hk
  have masks := byteOf_zeroMasks (offset % 8) (by omega) size (by omega) (k % 8) (by omega)
  rw [byteForOffset_asconOverwriteBytes _ _ fits hk, byteForOffset, Five.get_set _ _ inState (by omega)]
  by_cases here : k / 8 = offset / 8
  · rw [if_pos here, byteOf_or, byteOf_and, byteOf_and, masks.1, masks.2, ← here]
    rcases Nat.lt_or_ge k offset with before | behind
    · rw [if_pos (by omega), if_neg (by omega), if_neg (by omega), and_allOnes_byte,
        BitVec.and_zero, BitVec.or_zero, byteForOffset]
    · rw [if_neg (by omega), BitVec.and_zero, BitVec.zero_or]
      by_cases inside : k < offset + size
      · rw [if_neg (by omega), if_pos ⟨behind, inside⟩, BitVec.and_zero]
        rfl
      · rw [if_pos (by omega), if_neg (by omega), and_allOnes_byte, byteForOffset]
  · rw [if_neg here, if_neg (by omega), byteForOffset]

/-- Clearing the first bytes of a word. -/
theorem set_zeroTail (aligned : offset % 8 = 0) (inWord : size < 8) (fits : offset + size ≤ 40)
    (inState : offset / 8 < 5) :
    s.set (offset / 8) (s.get (offset / 8) &&& (~~~0#64 >>> (size * 8))) =
      AsconSuite.asconOverwriteWithZeroes s offset size := by
  rw [asconOverwriteWithZeroes_eq]
  apply eq_of_byteForOffset_eq
  intro k hk
  have mask := byteOf_tailMask size inWord (k % 8) (by omega)
  rw [byteForOffset_asconOverwriteBytes _ _ fits hk, byteForOffset, Five.get_set _ _ inState (by omega)]
  by_cases here : k / 8 = offset / 8
  · rw [if_pos here, byteOf_and, mask, ← here]
    by_cases inside : k < offset + size
    · rw [if_pos (by omega), if_pos (by omega), BitVec.and_zero]
      rfl
    · rw [if_neg (by omega), if_neg (by omega), and_allOnes_byte, byteForOffset]
  · rw [if_neg here, if_neg (by omega), byteForOffset]

end Word

/-! ### Whole ranges -/

section Rule

variable {σ : Type*} {R : Nat → σ → Prop} {offset size : Nat} {whole : σ → Nat → Nat → σ}
  {tail : σ → Nat → Nat → Nat → σ}

/-- Whole words and a tail establish what each of them establishes for its own bytes. -/
theorem wholeWords_rule {s : σ} {posn rest : Nat} (start : R posn s)
    (aligned : (offset + posn) % 8 = 0 ∨ rest = 0) (total : posn + rest = size)
    (wholeStep : ∀ s posn, R posn s → (offset + posn) % 8 = 0 → posn + 8 ≤ size →
      R (posn + 8) (whole s posn (offset + posn)))
    (tailStep : ∀ s posn count, R posn s → (offset + posn) % 8 = 0 → 0 < count → count < 8 →
      posn + count = size → R size (tail s posn (offset + posn) count)) :
    R size (wholeWords whole tail s posn (offset + posn) rest) := by
  induction rest using Nat.strong_induction_on generalizing s posn with
  | _ rest ih =>
      rw [wholeWords]
      by_cases long : 8 ≤ rest
      · rw [if_pos long, Nat.add_assoc]
        exact ih (rest - 8) (by omega) (wholeStep s posn start (by omega) (by omega)) (by omega)
          (by omega)
      · rw [if_neg long]
        by_cases positive : 0 < rest
        · rw [if_pos positive]
          exact tailStep s posn rest start (by omega) positive (by omega) total
        · rw [if_neg positive]
          rwa [show posn = size by omega] at start

/-- A byte function establishes what its head, its whole words and its tail establish. -/
theorem byteRange_rule {head : σ → Nat → Nat → σ} {s : σ} (start : R 0 s)
    (headStep : ∀ count, offset % 8 ≠ 0 → offset % 8 + count ≤ 8 → count ≤ size →
      R count (head s offset count))
    (wholeStep : ∀ s posn, R posn s → (offset + posn) % 8 = 0 → posn + 8 ≤ size →
      R (posn + 8) (whole s posn (offset + posn)))
    (tailStep : ∀ s posn count, R posn s → (offset + posn) % 8 = 0 → 0 < count → count < 8 →
      posn + count = size → R size (tail s posn (offset + posn) count)) :
    R size (byteRange whole tail head s offset size) := by
  rw [byteRange]
  split
  next unaligned =>
    exact wholeWords_rule (headStep _ unaligned (by omega) (by omega)) (by omega) (by omega) wholeStep
      tailStep
  next =>
    have words := wholeWords_rule start (show (offset + 0) % 8 = 0 ∨ size = 0 by omega) (by omega)
      wholeStep tailStep
    rwa [Nat.add_zero] at words

end Rule

variable (s : AsconState) {offset size : Nat}

/-- `ascon_add_bytes` of both backends. -/
theorem ofSliced_asconAddBytes (data : Mem) (fits : offset + size ≤ 40) :
    ofSliced (asconAddBytes s data offset size) =
      AsconSuite.asconAddBytes (ofSliced s) data offset size := by
  refine byteRange_rule (R := fun n t => ofSliced t =
    AsconSuite.asconAddBytes (ofSliced s) data offset n) rfl ?_ ?_ ?_
  · intro count unaligned inWord _
    rw [ofSliced_asconAbsorbWord64, modify_orBytes _ _ inWord (by omega) (by omega)]
  · intro t posn before aligned room
    rw [ofSliced_asconAbsorbSliced, before, asconAddBytes_add _ _ (by omega),
      ← asconAbsorb8_eq_addBytes _ _ aligned (by omega), AsconSuite.asconAbsorb8]
  · intro t posn count before aligned positive short total
    have word := modify_orBytes (AsconSuite.asconAddBytes (ofSliced s) data offset posn)
      (data.view posn) (show (offset + posn) % 8 + count ≤ 8 by omega) (by omega) (by omega)
    rw [aligned] at word
    rw [ofSliced_asconAbsorbWord64, before, ← total, asconAddBytes_add _ _ (by omega), ← word]

/-- `ascon_overwrite_bytes` of both backends. -/
theorem ofSliced_asconOverwriteBytes (data : Mem) (fits : offset + size ≤ 40) :
    ofSliced (asconOverwriteBytes s data offset size) =
      AsconSuite.asconOverwriteBytes (ofSliced s) data offset size := by
  refine byteRange_rule (R := fun n t => ofSliced t =
    AsconSuite.asconOverwriteBytes (ofSliced s) data offset n) rfl ?_ ?_ ?_
  · intro count unaligned inWord _
    rw [ofSliced_asconSetWord64, asconSqueezeWord64_eq, set_replaceBytes _ _ inWord (by omega)]
  · intro t posn before aligned room
    have word := set_wholeWord (ofSliced t) (data.view posn) aligned (by omega)
    rw [ofSliced_asconSetSliced, word, before, ← asconOverwriteBytes_add _ _ (by omega)]
  · intro t posn count before aligned positive short total
    have word := set_replaceBytes (ofSliced t) (data.view posn)
      (show (offset + posn) % 8 + count ≤ 8 by omega) (by omega)
    rw [aligned] at word
    rw [ofSliced_asconSetWord64, asconSqueezeWord64_eq, word, before, ← total,
      asconOverwriteBytes_add _ _ (by omega)]

/-- `ascon_overwrite_with_zeroes` of both backends. -/
theorem ofSliced_asconOverwriteWithZeroes (fits : offset + size ≤ 40) :
    ofSliced (asconOverwriteWithZeroes s offset size) =
      AsconSuite.asconOverwriteWithZeroes (ofSliced s) offset size := by
  have zeroes (t : AsconSuite.AsconState) {o m n : Nat} (fits : o + (m + n) ≤ 40) :
      AsconSuite.asconOverwriteWithZeroes t o (m + n) =
        AsconSuite.asconOverwriteWithZeroes (AsconSuite.asconOverwriteWithZeroes t o m) (o + m) n := by
    simp only [asconOverwriteWithZeroes_eq, asconOverwriteBytes_add t _ fits]
    rfl
  refine byteRange_rule (R := fun n t => ofSliced t =
    AsconSuite.asconOverwriteWithZeroes (ofSliced s) offset n) rfl ?_ ?_ ?_
  · intro count unaligned inWord _
    rw [ofSliced_asconSetWord64, asconSqueezeWord64_eq, set_zeroHead _ inWord (by omega) (by omega)]
  · intro t posn before aligned room
    have word := set_wholeWord (ofSliced t) (fun _ => 0) aligned (by omega)
    have cleared : combineWord ⟨0#32, 0#32⟩ = beLoadWord64 fun _ => 0 := by decide
    rw [ofSliced_set, cleared, word, ← asconOverwriteWithZeroes_eq, before, ← zeroes _ (by omega)]
  · intro t posn count before aligned positive short total
    rw [ofSliced_asconSetWord64, asconSqueezeWord64_eq,
      set_zeroTail _ aligned short (by omega) (by omega), before, ← zeroes _ (by omega), total]

/-- `ascon_extract_bytes` of both backends. -/
theorem asconExtractBytes_eq (mem : Mem) (data : Nat) (fits : offset + size ≤ 40) :
    asconExtractBytes s mem data offset size =
      AsconSuite.asconExtractBytes (ofSliced s) mem data offset size := by
  refine byteRange_rule (R := fun n m => m =
    AsconSuite.asconExtractBytes (ofSliced s) mem data offset n) rfl ?_ ?_ ?_
  · intro count unaligned inWord _
    rw [asconSqueezeWord64_eq, writeBytes_eq _ _ _ inWord (by omega)]
  · intro m posn before aligned room
    rw [asconSqueezeSliced_eq, before, asconExtractBytes_add _ _ _ (by omega),
      ← asconSqueeze8_eq_extractBytes _ _ _ aligned (by omega), AsconSuite.asconSqueeze8]
  · intro m posn count before aligned positive short total
    have word := writeBytes_eq (ofSliced s) m (data + posn)
      (show (offset + posn) % 8 + count ≤ 8 by omega) (by omega)
    rw [aligned] at word
    rw [asconSqueezeWord64_eq, word, before, ← total, asconExtractBytes_add _ _ _ (by omega)]

/-- `ascon_extract_and_add_bytes` of both backends. -/
theorem asconExtractAndAddBytes_eq (mem : Mem) {input output : Nat} (fits : offset + size ≤ 40)
    (ranges : SameOrApart output input size) :
    asconExtractAndAddBytes s mem input output offset size =
      AsconSuite.asconExtractAndAddBytes (ofSliced s) mem input output offset size := by
  refine byteRange_rule (R := fun n m => m =
    AsconSuite.asconExtractAndAddBytes (ofSliced s) mem input output offset n) rfl ?_ ?_ ?_
  · intro count unaligned inWord _
    rw [asconSqueezeWord64_eq, writeSums_eq _ _ _ _ inWord (by omega)]
  · intro m posn before aligned room
    have word := asconDecrypt8_eq_bytewise (ofSliced s) m aligned (by omega) (ranges.piece room)
    rw [asconDecryptSlicedNoInsert_eq, asconExtractAndAddBytes_add _ _ _ _ (by omega), ← before,
      asconExtractAndAddBytes_eq_overwrite _ _ m _ _ (by omega) fun _ _ _ => rfl]
    exact congrArg Prod.snd word
  · intro m posn count before aligned positive short total
    have word := writeSums_eq (ofSliced s) m (input + posn) (output + posn)
      (show (offset + posn) % 8 + count ≤ 8 by omega) (by omega)
    rw [aligned] at word
    rw [asconSqueezeWord64_eq, word, before, ← total, asconExtractAndAddBytes_add _ _ _ _ (by omega)]

/-- `ascon_extract_and_overwrite_bytes` of both backends. -/
theorem ofSliced_asconExtractAndOverwriteBytes (mem : Mem) {input output : Nat}
    (fits : offset + size ≤ 40) (ranges : SameOrApart output input size) :
    (ofSliced (asconExtractAndOverwriteBytes s mem input output offset size).1,
        (asconExtractAndOverwriteBytes s mem input output offset size).2) =
      AsconSuite.asconExtractAndOverwriteBytes (ofSliced s) mem input output offset size := by
  refine byteRange_rule (R := fun n (t : AsconState × Mem) => (ofSliced t.1, t.2) =
    AsconSuite.asconExtractAndOverwriteBytes (ofSliced s) mem input output offset n) rfl ?_ ?_ ?_
  · intro count unaligned inWord _
    simp only
    rw [ofSliced_asconSetWord64, asconSqueezeWord64_eq, swapBytes_eq _ _ _ _ inWord (by omega)]
  · rintro ⟨t, m⟩ posn before aligned room
    have word := asconDecrypt8_eq_bytewise (ofSliced t) m aligned (by omega) (ranges.piece room)
    rw [asconExtractAndOverwriteBytes_add _ _ _ _ (by omega), ← before]
    exact (asconDecryptSliced_eq t m (output + posn) (input + posn) (offset + posn)).trans word
  · rintro ⟨t, m⟩ posn count before aligned positive short total
    have word := swapBytes_eq (ofSliced t) m (input + posn) (output + posn)
      (show (offset + posn) % 8 + count ≤ 8 by omega) (by omega)
    rw [aligned] at word
    rw [← total, asconExtractAndOverwriteBytes_add _ _ _ _ (by omega), ← before, ← word]
    simp only
    rw [ofSliced_asconSetWord64, asconSqueezeWord64_eq]

end AsconSuite.Sliced32
