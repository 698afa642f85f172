/-
Module: AsconSuite.Proofs.StateBytes
Layer: Proofs
Purpose: The state as forty cells of one byte. Every word-wise and byte-wise access of the backend is
  `combine`, one combination of consecutive state bytes with consecutive input bytes, whether input and
  output are the same buffer or two separate ones.
Imports: AsconSuite.Core.State, AsconSuite.Base.Duplex
Trusted boundary: none
Main exports: asconCells, combine, encMix, decMix, asconEncrypt16_eq_combine, asconDecrypt16_eq_combine,
  asconEncryptPartial_eq_combine, asconDecryptPartial_eq_combine, asconExtractBytes_eq_write
-/
import AsconSuite.Core.State
import AsconSuite.Base.Duplex

namespace AsconSuite

open ByteWord ByteMemory

/-! ### Single bytes of the state -/

theorem byteForOffset_setByteForOffset (s : AsconState) (o : Nat) (b : Byte) {k : Nat} (ho : o < 40)
    (hk : k < 40) :
    byteForOffset (setByteForOffset s o b) k = if k = o then b else byteForOffset s k := by
  rw [byteForOffset, setByteForOffset, Five.get_modify _ _ (by omega) (by omega)]
  by_cases word : k / 8 = o / 8
  · rw [if_pos word, byteOf_setByteOf _ _ (by omega) (by omega)]
    by_cases same : k = o
    · rw [if_pos same, if_pos (by rw [same])]
    · rw [if_neg same, if_neg (by omega), ← word, byteForOffset]
  · rw [if_neg word, if_neg (by intro same; exact word (by rw [same])), byteForOffset]

/-- A state is determined by its bytes. -/
theorem eq_of_byteForOffset_eq {s t : AsconState}
    (same : ∀ o < 40, byteForOffset s o = byteForOffset t o) : s = t := by
  refine Five.ext_get fun i hi => byteOf_ext fun j hj => ?_
  have byte := same (8 * i + j) (by omega)
  rwa [byteForOffset, byteForOffset, show (8 * i + j) / 8 = i by omega,
    show (8 * i + j) % 8 = j by omega] at byte

/-- The state as forty cells. -/
def asconCells : Cells AsconState Byte where
  size := 40
  get := byteForOffset
  set := setByteForOffset
  ext := eq_of_byteForOffset_eq
  get_set := fun s o b _ ho hk => byteForOffset_setByteForOffset s o b ho hk

@[simp] theorem asconCells_size : asconCells.size = 40 := rfl

@[simp] theorem asconCells_get : asconCells.get = byteForOffset := rfl

@[simp] theorem asconCells_set : asconCells.set = setByteForOffset := rfl

/-- The bytes of a word that has been updated in place. -/
theorem byteForOffset_modify (s : AsconState) (f : Word → Word) {i k : Nat} (hi : i < 5)
    (hk : k < 40) :
    byteForOffset (s.modify i f) k =
      if k / 8 = i then byteOf (f (s.get i)) (k % 8) else byteForOffset s k := by
  rw [byteForOffset, Five.get_modify _ _ hi (by omega)]
  split <;> rfl

/-! ### Combining state bytes with input bytes -/

/-- Encryption of a byte: the sum of plaintext and state is kept and written. -/
def encMix : Mix Byte Byte Byte := fun x b => (x ^^^ b, x ^^^ b)

/-- Decryption of a byte: the ciphertext is kept and its sum with the state is written. -/
def decMix : Mix Byte Byte Byte := fun x b => (b, b ^^^ x)

theorem decMix_encMix (x b : Byte) : decMix x (encMix x b).2 = ((encMix x b).1, b) := by
  simp only [decMix, encMix, BitVec.xor_comm x b, BitVec.xor_assoc, BitVec.xor_self, BitVec.xor_zero]

theorem encMix_decMix (x b : Byte) : encMix x (decMix x b).2 = ((decMix x b).1, b) := by
  simp only [decMix, encMix, BitVec.xor_comm b x, ← BitVec.xor_assoc, BitVec.xor_self, BitVec.zero_xor]

/-- Combine `n` state bytes from `offset` on with the `n` bytes at `src` and write the result at
`dest`. -/
def combine (mix : Mix Byte Byte Byte) (s : AsconState) (mem : Mem) (dest src offset n : Nat) :
    AsconState × Mem :=
  ((asconCells.fill mix s offset (mem.read src n)).1,
    mem.write dest (asconCells.fill mix s offset (mem.read src n)).2)

/-- A result given byte by byte is the result of `combine`. -/
theorem eq_combine {mix : Mix Byte Byte Byte} {s t : AsconState} {mem : Mem}
    {dest src offset n : Nat} {w : List Byte} (fits : offset + n ≤ 40)
    (inside : ∀ i < n, byteForOffset t (offset + i) =
      (mix (byteForOffset s (offset + i)) (mem (src + i))).1)
    (outside : ∀ k < 40, k < offset ∨ offset + n ≤ k → byteForOffset t k = byteForOffset s k)
    (written : w.length = n)
    (output : ∀ i < n, w[i]? = some (mix (byteForOffset s (offset + i)) (mem (src + i))).2) :
    (t, mem.write dest w) = combine mix s mem dest src offset n := by
  have filled : asconCells.fill mix s offset (mem.read src n) = (t, w) := by
    refine Cells.fill_eq _ _ (by simpa using fits) ?_ ?_ (by simpa using written) ?_
    · intro i b at_i
      rw [getElem?_read, Option.ite_none_right_eq_some, Option.some_inj] at at_i
      rw [← at_i.2]
      exact inside i at_i.1
    · intro k hk away
      exact outside k hk (by simpa using away)
    · intro i b at_i
      rw [getElem?_read, Option.ite_none_right_eq_some, Option.some_inj] at at_i
      rw [← at_i.2]
      exact output i at_i.1
  rw [combine, filled]

/-- A combination may be cut in two when the output does not run into the input that is left. -/
theorem combine_add (mix : Mix Byte Byte Byte) (s : AsconState) (mem : Mem)
    {dest src : Nat} (offset : Nat) {m n : Nat} (ranges : SameOrApart dest src (m + n)) :
    combine mix s mem dest src offset (m + n) =
      combine mix (combine mix s mem dest src offset m).1 (combine mix s mem dest src offset m).2
        (dest + m) (src + m) (offset + m) n := by
  have rest := ranges.read_rest mem (asconCells.fill mix s offset (mem.read src m)).2 (by simp)
  have joined := write_append mem dest (asconCells.fill mix s offset (mem.read src m)).2
    (asconCells.fill mix (asconCells.fill mix s offset (mem.read src m)).1 (offset + m)
      (mem.read (src + m) n)).2
  rw [Cells.length_fill, length_read] at joined
  simp only [combine]
  rw [rest, joined, read_add, Cells.fill_append, length_read]

/-! ### Word-wise accesses -/

/-- Two words encrypted at once are two words encrypted in turn. -/
theorem asconEncrypt16_eq_encrypt8 (s : AsconState) (mem : Mem) {dest src offset : Nat}
    (fits : offset + 16 ≤ 40) (ranges : SameOrApart dest src (8 + 8)) :
    asconEncrypt16 s mem dest src offset =
      asconEncrypt8 (asconEncrypt8 s mem dest src offset).1 (asconEncrypt8 s mem dest src offset).2
        (dest + 8) (src + 8) (offset + 8) := by
  have next : (offset + 8) / 8 = offset / 8 + 1 := by omega
  have here {s : AsconState} {f : Word → Word} :
      (s.modify (offset / 8 + 1) f).get (offset / 8) = s.get (offset / 8) := by
    rw [Five.get_modify _ _ (by omega) (by omega), if_neg (by omega)]
  -- the second word is read before the first one is stored in the source.
  have unread (x : Word) :
      beLoadWord64 ((beStoreWord64 mem dest x).view (src + 8)) =
        beLoadWord64 (mem.view (src + 8)) := by
    refine byteOf_ext fun j hj => ?_
    rw [byteOf_beLoadWord64 _ hj, byteOf_beLoadWord64 _ hj]
    exact eq_of_read_eq (ranges.read_rest mem _ (length_beBytes64 x)) hj
  simp only [asconEncrypt16, asconEncrypt8, next, here, unread]

theorem asconEncrypt8_eq_combine (s : AsconState) (mem : Mem) (dest src : Nat) {offset : Nat}
    (aligned : offset % 8 = 0) (fits : offset + 8 ≤ 40) :
    asconEncrypt8 s mem dest src offset = combine encMix s mem dest src offset 8 := by
  refine eq_combine fits ?_ ?_ (length_beBytes64 _) ?_
  · intro i hi
    rw [byteForOffset_modify _ _ (by omega) (by omega), if_pos (by omega), byteOf_xor,
      show (offset + i) % 8 = i by omega, byteOf_beLoadWord64 _ hi, byteForOffset,
      show (offset + i) / 8 = offset / 8 by omega, show (offset + i) % 8 = i by omega]
    rfl
  · intro k hk away
    rw [byteForOffset_modify _ _ (by omega) hk, if_neg (by omega)]
  · intro i hi
    rw [getElem?_beBytes64 _ hi, Five.get_modify _ _ (by omega) (by omega), if_pos rfl, byteOf_xor,
      byteOf_beLoadWord64 _ hi, byteForOffset, show (offset + i) / 8 = offset / 8 by omega,
      show (offset + i) % 8 = i by omega]
    rfl

theorem asconEncrypt16_eq_combine (s : AsconState) (mem : Mem) {dest src offset : Nat}
    (aligned : offset % 8 = 0) (fits : offset + 16 ≤ 40) (ranges : SameOrApart dest src (8 + 8)) :
    asconEncrypt16 s mem dest src offset = combine encMix s mem dest src offset 16 := by
  rw [asconEncrypt16_eq_encrypt8 s mem fits ranges,
    asconEncrypt8_eq_combine s mem dest src aligned (by omega),
    asconEncrypt8_eq_combine _ _ _ _ (by omega) (by omega)]
  exact (combine_add encMix s mem offset ranges).symm

theorem asconDecrypt8_eq_combine (s : AsconState) (mem : Mem) (dest src : Nat) {offset : Nat}
    (aligned : offset % 8 = 0) (fits : offset + 8 ≤ 40) :
    asconDecrypt8 s mem dest src offset = combine decMix s mem dest src offset 8 := by
  refine eq_combine (s := s) fits ?_ ?_ (length_beBytes64 _) ?_
  · intro i hi
    have word := byteForOffset_modify s (fun _ => beLoadWord64 (mem.view src)) (i := offset / 8)
      (k := offset + i) (by omega) (by omega)
    rw [if_pos (by omega), show (offset + i) % 8 = i by omega, byteOf_beLoadWord64 _ hi] at word
    exact word
  · intro k hk away
    have word := byteForOffset_modify s (fun _ => beLoadWord64 (mem.view src)) (i := offset / 8)
      (by omega) hk
    rw [if_neg (by omega)] at word
    exact word
  · intro i hi
    rw [getElem?_beBytes64 _ hi, byteOf_xor, byteOf_beLoadWord64 _ hi, byteForOffset,
      show (offset + i) / 8 = offset / 8 by omega, show (offset + i) % 8 = i by omega]
    rfl

/-- Two words decrypted at once are two words decrypted in turn. -/
theorem asconDecrypt16_eq_decrypt8 (s : AsconState) (mem : Mem) (dest src offset : Nat) :
    asconDecrypt16 s mem dest src offset =
      asconDecrypt8 (asconDecrypt8 s mem dest src offset).1 (asconDecrypt8 s mem dest src offset).2
        (dest + 8) (src + 8) (offset + 8) := by
  simp only [asconDecrypt16, asconDecrypt8, show (offset + 8) / 8 = offset / 8 + 1 by omega]

theorem asconDecrypt16_eq_combine (s : AsconState) (mem : Mem) {dest src offset : Nat}
    (aligned : offset % 8 = 0) (fits : offset + 16 ≤ 40) (ranges : SameOrApart dest src (8 + 8)) :
    asconDecrypt16 s mem dest src offset = combine decMix s mem dest src offset 16 := by
  rw [asconDecrypt16_eq_decrypt8, asconDecrypt8_eq_combine s mem dest src aligned (by omega),
    asconDecrypt8_eq_combine _ _ _ _ (by omega) (by omega)]
  exact (combine_add decMix s mem offset ranges).symm

/-! ### Byte-wise accesses -/

/-- `ascon_add_bytes` adds its data to the bytes of the range. -/
theorem byteForOffset_asconAddBytes (s : AsconState) (data : Mem) {offset size k : Nat}
    (fits : offset + size ≤ 40) (hk : k < 40) :
    byteForOffset (asconAddBytes s data offset size) k =
      if offset ≤ k ∧ k < offset + size then byteForOffset s k ^^^ data (k - offset)
      else byteForOffset s k := by
  induction size generalizing s data offset with
  | zero => rw [asconAddBytes, if_neg (by omega)]
  | succ size ih =>
      rw [asconAddBytes, if_pos (by omega), ih _ _ (by omega)]
      simp only [byteForOffset_setByteForOffset s offset _ (by omega : offset < 40) hk]
      rcases Nat.lt_trichotomy k offset with before | here | behind
      · rw [if_neg (by omega), if_neg (by omega), if_neg (by omega)]
      · rw [if_neg (by omega), if_pos here, if_pos (by omega), here, Nat.sub_self]
      · rw [if_neg (by omega : ¬ k = offset)]
        by_cases inside : k < offset + 1 + size
        · rw [if_pos ⟨by omega, inside⟩, if_pos (by omega), view_apply]
          congr 2
          omega
        · rw [if_neg (by omega), if_neg (by omega)]

/-- `ascon_extract_bytes` writes the bytes of the range. -/
theorem asconExtractBytes_eq_write (s : AsconState) (mem : Mem) (dest : Nat) {offset size : Nat}
    (fits : offset + size ≤ 40) :
    asconExtractBytes s mem dest offset size =
      mem.write dest (Mem.read (byteForOffset s) offset size) := by
  induction size generalizing mem dest offset with
  | zero => rw [asconExtractBytes, read_zero, write_nil]
  | succ size ih =>
      rw [asconExtractBytes, if_pos (by omega), ih _ _ (by omega), read_succ, write_cons]

theorem asconEncryptPartial_eq_combine (s : AsconState) (mem : Mem) (dest src : Nat)
    {offset count : Nat} (fits : offset + count ≤ 40) :
    asconEncryptPartial s mem dest src offset count =
      combine encMix s mem dest src offset count := by
  rw [asconEncryptPartial, asconExtractBytes_eq_write _ _ _ fits]
  have added (i : Nat) (hi : i < count) :
      byteForOffset (asconAddBytes s (mem.view src) offset count) (offset + i) =
        byteForOffset s (offset + i) ^^^ mem (src + i) := by
    rw [byteForOffset_asconAddBytes _ _ fits (by omega), if_pos (by omega), view_apply,
      Nat.add_sub_cancel_left]
  refine eq_combine fits added ?_ (length_read _ _ _) ?_
  · intro k hk away
    rw [byteForOffset_asconAddBytes _ _ fits hk, if_neg (by omega)]
  · intro i hi
    rw [getElem?_read, if_pos hi, added i hi]
    rfl

theorem asconDecryptPartial_eq_combine (s : AsconState) (mem : Mem) {dest src offset count : Nat}
    (fits : offset + count ≤ 40) (ranges : SameOrApart dest src count) :
    asconDecryptPartial s mem dest src offset count =
      combine decMix s mem dest src offset count := by
  unfold asconDecryptPartial
  induction count generalizing s mem dest src offset with
  | zero => rw [asconExtractAndOverwriteBytes, combine, read_zero, Cells.fill_nil, write_nil]
  | succ count ih =>
      rw [Nat.add_comm count 1] at ranges
      have rest := ranges.read_rest mem [mem src ^^^ byteForOffset s offset] rfl
      rw [← store_eq_write] at rest
      rw [asconExtractAndOverwriteBytes, if_pos (by omega)]
      simp only
      rw [ih _ _ (by omega) ranges.back, combine, combine, rest, read_succ, Cells.fill_cons, write_cons]
      rfl

end AsconSuite
