/-
Module: AsconSuite.Proofs.MaskedBytes
Layer: Proofs
Purpose: How masked words are loaded, stored, replaced and converted. Loading shares out the word made of
  the bytes of the data, storing writes the bytes of the word behind the shares, and conversions between
  share counts leave that word alone, whatever the generator gives.
Imports: AsconSuite.Proofs.MaskedPermute, AsconSuite.Masking.State
Trusted boundary: none
Main exports: firstBytes, unmaskWord_maskedWordLoad, unmaskWord_maskedWordLoadPartial,
  maskedWordStorePartial_eq_write, unmaskWord_maskedWordReplace, unmaskWord_maskedWordWiden,
  unmaskState_maskedCopyFromX1, maskedCopyToX1_eq_unmaskState
-/
import AsconSuite.Proofs.MaskedPermute
import AsconSuite.Masking.State

namespace AsconSuite

open ByteWord ByteMemory RotatedSharing

/-! ### Words made of some bytes -/

/-- The word that starts with the `size` bytes at `data` and goes on with zeroes. -/
def firstBytes (size : Nat) (data : Mem) : Word :=
  beLoadWord64 fun j => if j < size then data j else 0

/-- The word of zeroes that ends with the `size` bytes at `data`. -/
def lastBytes (size : Nat) (data : Mem) : Word :=
  beLoadWord64 fun j => if 8 - size ≤ j then data (j - (8 - size)) else 0

theorem byteOf_firstBytes (size : Nat) (data : Mem) {j : Nat} (hj : j < 8) :
    byteOf (firstBytes size data) j = if j < size then data j else 0 := by
  rw [firstBytes, byteOf_beLoadWord64 _ hj]

theorem byteOf_lastBytes (size : Nat) (data : Mem) {j : Nat} (hj : j < 8) :
    byteOf (lastBytes size data) j = if 8 - size ≤ j then data (j - (8 - size)) else 0 := by
  rw [lastBytes, byteOf_beLoadWord64 _ hj]

theorem firstBytes_zero (data : Mem) : firstBytes 0 data = 0 :=
  byteOf_ext fun j hj => by rw [byteOf_firstBytes _ _ hj, if_neg (by omega), byteOf_zero]

/-- A rotation by whole bytes moves the bytes of a word around. -/
theorem byteOf_rotateRight (x : Word) {size j : Nat} (hsize : size < 8) (hj : j < 8) :
    byteOf (x.rotateRight (8 * size)) j = byteOf x (if j < size then 8 - size + j else j - size) := by
  apply BitVec.eq_of_getLsbD_eq
  intro i hi
  rw [byteOf, byteOf, BitVec.getLsbD_extractLsb', BitVec.getLsbD_extractLsb',
    getLsbD_rotateRight_eq_mod _ _ (by omega)]
  congr 2
  split <;> omega

/-- A narrow word made of bytes and widened is made of the same bytes. -/
theorem setWidth_shiftLeft_setWidth (b : Byte) {w s : Nat} (fits : s + 8 ≤ w) (_ : w ≤ 64) :
    (b.setWidth w <<< s).setWidth 64 = b.setWidth 64 <<< s := by
  apply BitVec.eq_of_getLsbD_eq
  intro i hi
  simp only [BitVec.getLsbD_setWidth, BitVec.getLsbD_shiftLeft, hi, decide_true, Bool.true_and]
  by_cases inside : i < w
  · rw [decide_eq_true inside, decide_eq_true (show i - s < w by omega), decide_eq_true
      (show i - s < 64 by omega)]
    rfl
  · rw [BitVec.getLsbD_of_ge b (i - s) (by omega)]
    simp

theorem lastBytes_four (data : Mem) : (beLoadWord32 data).setWidth 64 = lastBytes 4 data := by
  have last : (data 3).setWidth 32 = (data 3).setWidth 32 <<< 0 := by simp
  have placed {s : Nat} (b : Byte) (fits : s + 8 ≤ 32) :=
    setWidth_shiftLeft_setWidth b fits (by omega)
  rw [beLoadWord32, last]
  simp only [BitVec.setWidth_or]
  rw [placed _ (by omega), placed _ (by omega), placed _ (by omega), placed _ (by omega)]
  simp [lastBytes, beLoadWord64]

theorem lastBytes_two (data : Mem) : (beLoadWord16 data).setWidth 64 = lastBytes 2 data := by
  have last : (data 1).setWidth 16 = (data 1).setWidth 16 <<< 0 := by simp
  have placed {s : Nat} (b : Byte) (fits : s + 8 ≤ 16) :=
    setWidth_shiftLeft_setWidth b fits (by omega)
  rw [beLoadWord16, last, BitVec.setWidth_or, placed _ (by omega), placed _ (by omega)]
  simp [lastBytes, beLoadWord64]

theorem lastBytes_one (data : Mem) : (data 0).setWidth 64 = lastBytes 1 data := by
  simp [lastBytes, beLoadWord64]

/-- Bytes added at the end of a word and rotated to its front. -/
theorem firstBytes_add (data : Mem) {front back : Nat} (positive : 0 < front)
    (fits : front + back < 8) :
    (firstBytes back (data.view front) ^^^ lastBytes front data).rotateRight (8 * front) =
      firstBytes (front + back) data := by
  refine byteOf_ext fun j hj => ?_
  rw [byteOf_rotateRight _ (by omega) hj, byteOf_xor, byteOf_firstBytes _ _ (by split <;> omega),
    byteOf_lastBytes _ _ (by split <;> omega), byteOf_firstBytes _ _ hj]
  rcases Nat.lt_or_ge j front with inFront | behind
  · rw [if_pos inFront, if_neg (by omega), if_pos (by omega), if_pos (by omega), BitVec.ofNat_eq_ofNat,
      BitVec.zero_xor, Nat.add_sub_cancel_left]
  · rw [if_neg (show ¬ j < front by omega), if_neg (show ¬ 8 - front ≤ j - front by omega),
      BitVec.ofNat_eq_ofNat, BitVec.xor_zero]
    by_cases inBack : j - front < back
    · rw [if_pos inBack, if_pos (by omega), view_apply]
      congr 1
      omega
    · rw [if_neg inBack, if_neg (by omega)]

/-! ### Loading -/

/-- The two words of `ascon_masked_word_x<n>_load_partial` while `rest` bytes are still to be read: together
they are a sharing of the bytes behind these. -/
def Placed (data : Mem) (size : Nat) (masked random : Word) (rest : Nat) : Prop :=
  rest ≤ size ∧
    masked ^^^ random.rotateRight 53 = firstBytes (size - rest) (data.view rest)

theorem placed_step {data : Mem} {size : Nat} (short : size < 8) {masked random : Word} {rest : Nat}
    (placed : Placed data size masked random rest) {count : Nat} (positive : 0 < count)
    (enough : count ≤ rest) {chunk : Word} (bytes : chunk = lastBytes count (data.view (rest - count))) :
    Placed data size (rightRotate64 (masked ^^^ chunk) (8 * count)) (rightRotate64 random (8 * count))
      (rest - count) := by
  obtain ⟨within, shared⟩ := placed
  have behind : (data.view (rest - count)).view count = data.view rest := by
    rw [view_view, Nat.sub_add_cancel enough]
  refine ⟨by omega, ?_⟩
  rw [rightRotate64_eq_rotateRight _ (by omega), rightRotate64_eq_rotateRight _ (by omega),
    rotateRight_rotateRight, Nat.add_comm _ 53, ← rotateRight_rotateRight, ← rotateRight_xor,
    BitVec.xor_assoc, BitVec.xor_comm chunk, ← BitVec.xor_assoc, shared, bytes, ← behind,
    firstBytes_add _ positive (by omega)]
  congr 1
  omega

theorem placed_loadPartialSteps (data : Mem) {size : Nat} (short : size < 8) {masked random : Word}
    (shared : masked ^^^ random.rotateRight 53 = 0#64) :
    Placed data size (loadPartialSteps masked random data size).1
      (loadPartialSteps masked random data size).2 0 := by
  have start : Placed data size masked random size := by
    refine ⟨Nat.le_refl _, ?_⟩
    rw [shared, Nat.sub_self, firstBytes_zero]
    rfl
  have afterFour : ∃ m r rest, (if 4 ≤ size then
        (rightRotate64 (masked ^^^ (beLoadWord32 (data.view (size - 4))).setWidth 64) 32,
          rightRotate64 random 32, size - 4)
      else (masked, random, size)) = (m, r, rest) ∧ Placed data size m r rest ∧ rest < 4 := by
    split
    · next four =>
        exact ⟨_, _, _, rfl, placed_step short start (show 0 < 4 by omega) four (lastBytes_four _),
          by omega⟩
    · exact ⟨_, _, _, rfl, start, by omega⟩
  obtain ⟨m, r, rest, four, placed, small⟩ := afterFour
  have afterTwo : ∃ m' r' rest', (if 2 ≤ rest then
        (rightRotate64 (m ^^^ (beLoadWord16 (data.view (rest - 2))).setWidth 64) 16,
          rightRotate64 r 16, rest - 2)
      else (m, r, rest)) = (m', r', rest') ∧ Placed data size m' r' rest' ∧ rest' < 2 := by
    split
    · next two =>
        exact ⟨_, _, _, rfl, placed_step short placed (show 0 < 2 by omega) two (lastBytes_two _),
          by omega⟩
    · exact ⟨_, _, _, rfl, placed, by omega⟩
  obtain ⟨m', r', rest', two, placed', small'⟩ := afterTwo
  rw [loadPartialSteps, four]
  simp only [two]
  split
  · next one =>
      obtain rfl : rest' = 1 := by omega
      exact placed_step short placed' (show 0 < 1 by omega) one (lastBytes_one _)
  · obtain rfl : rest' = 0 := by omega
    exact placed'

section

variable {n : Nat} (some_share : 0 < n) (small : n ≤ 6)

include some_share small

/-- Loading a word shares it out. -/
theorem unmaskWord_maskedWordLoad (data : Mem) (trng : Trng) :
    unmaskWord n (maskedWordLoad n data trng).1 = beLoadWord64 data := by
  rw [maskedWordLoad, unmaskWord_addFirst some_share small, unmaskWord_randomShares some_share small]
  exact BitVec.zero_xor

/-- Loading the last bytes of some data shares out the word that starts with them. -/
theorem unmaskWord_maskedWordLoadPartial (two_shares : 2 ≤ n) (data : Mem) {size : Nat}
    (short : size < 8) (trng : Trng) :
    unmaskWord n (maskedWordLoadPartial n data size trng).1 = firstBytes size data := by
  have turned : (rotateShare 1 0 (trng 0)).rotateRight 53 = trng 0 := by
    rw [rotateShare_eq (by omega)]
    exact rotateRight_rotateRight_share (trng 0) 1
  obtain ⟨-, shared⟩ := placed_loadPartialSteps data short
    (show trng 0 ^^^ (rotateShare 1 0 (trng 0)).rotateRight 53 = 0#64 by rw [turned, BitVec.xor_self])
  rw [maskedWordLoadPartial]
  generalize loadPartialSteps (trng 0) (rotateShare 1 0 (trng 0)) data size = steps at shared ⊢
  obtain ⟨masked, random⟩ := steps
  simp only at shared ⊢
  -- the shares are random ones, but for a word added to share 0 and another one to share 1.
  have shares : (unmask 53 n fun i =>
        if i = 0 then masked ^^^ xorRange (n - 2) (trng.skip 1)
        else if i = 1 then random
        else if i < n then rotateShare i 0 (trng (i - 1))
        else 0) =
      unmask 53 n fun i => randomShares n trng i ^^^
        ((if i = 0 then masked ^^^ trng 0 else 0#64) ^^^
          (if i = 1 then random ^^^ rotateShare 1 0 (trng 0) else 0#64)) := by
    refine unmask_congr fun i hi => ?_
    rcases i with _ | _ | i
    · have all : xorRange (n - 1) trng = trng 0 ^^^ xorRange (n - 2) (trng.skip 1) := by
        rw [show n - 1 = n - 2 + 1 by omega, xorRange_succ_first]
        rfl
      rw [if_pos rfl, if_pos rfl, if_neg (by omega), BitVec.xor_zero, randomShares, if_pos rfl, all,
        BitVec.xor_comm masked (trng 0), BitVec.xor_comm (trng 0 ^^^ _),
        BitVec.xor_comm (trng 0) masked, BitVec.xor_assoc, ← BitVec.xor_assoc (trng 0),
        BitVec.xor_self, BitVec.zero_xor]
    · rw [if_neg (by omega), if_pos rfl, if_neg (by omega), if_pos rfl, BitVec.zero_xor, randomShares,
        if_neg (by omega), if_pos (by omega), BitVec.xor_comm random, ← BitVec.xor_assoc,
        BitVec.xor_self, BitVec.zero_xor]
    · rw [if_neg (by omega), if_neg (by omega), if_pos hi, if_neg (by omega), if_neg (by omega),
        BitVec.xor_zero, BitVec.xor_zero, randomShares, if_neg (by omega), if_pos hi]
  have random_zero := unmaskWord_randomShares some_share small trng
  rw [unmaskWord_eq_unmask small] at random_zero
  rw [unmaskWord_eq_unmask small, shares, unmask_xor, unmask_xor, random_zero, unmask_single some_share,
    unmask_single (show 1 < n by omega), Nat.mul_zero, rotateRight_of_zero, Nat.mul_one,
    rotateRight_xor, turned, BitVec.ofNat_eq_ofNat, BitVec.zero_xor,
    BitVec.xor_comm (random.rotateRight 53), BitVec.xor_assoc, ← BitVec.xor_assoc (trng 0),
    BitVec.xor_self, BitVec.zero_xor, shared, Nat.sub_zero]
  rw [show data.view 0 = data from funext fun i => congrArg data (Nat.zero_add i)]

end

/-! ### Storing -/

/-- Storing writes the word behind the shares. -/
theorem maskedWordStore_eq (n : Nat) (mem : Mem) (data : Nat) (word : MaskedWord) :
    maskedWordStore n mem data word = beStoreWord64 mem data (unmaskWord n word) := rfl

theorem leftRotate64_eq_rotateRight (x : Word) {bits : Nat} (positive : 0 < bits) (small : bits < 64) :
    leftRotate64 x bits = x.rotateRight (64 - bits) := by
  rw [← rightRotate64_eq_rotateRight x (by omega), leftRotate64, rightRotate64,
    show 64 - (64 - bits) = bits by omega, BitVec.or_comm]

/-- Rotating every share of a sum rotates the sum. -/
theorem xorRange_leftRotate64 (n : Nat) (masked : Nat → Word) {bits : Nat} (positive : 0 < bits)
    (small : bits < 64) :
    (xorRange n fun i => leftRotate64 (masked i) bits) = leftRotate64 (xorRange n masked) bits := by
  simp only [leftRotate64_eq_rotateRight _ positive small]
  exact (map_xorRange (fun x => x.rotateRight (64 - bits)) (rotateRight_zero _)
    (fun x y => rotateRight_xor x y _) n masked).symm

theorem byteOf_leftRotate64 (x : Word) {size j : Nat} (positive : 0 < size) (hsize : size < 8)
    (hj : j < 8) : byteOf (leftRotate64 x (8 * size)) j = byteOf x ((j + size) % 8) := by
  rw [leftRotate64_eq_rotateRight x (by omega) (by omega), show 64 - 8 * size = 8 * (8 - size) by omega,
    byteOf_rotateRight x (by omega) hj]
  congr 1
  split <;> omega

theorem beStoreWord32_setWidth (mem : Mem) (ptr : Nat) (x : Word) :
    beStoreWord32 mem ptr (x.setWidth 32) = mem.write ptr (Mem.read (byteOf x) 4 4) := by
  have byte (j : Nat) (hj : 8 * (7 - j) + 8 ≤ 32) :
      ((x.setWidth 32) >>> (8 * (7 - j))).setWidth 8 = byteOf x j := by
    rw [← setWidth_ushiftRight_eq_byteOf]
    apply BitVec.eq_of_getLsbD_eq
    intro i hi
    simp [show 8 * (7 - j) + i < 32 by omega]
  rw [beStoreWord32, read_succ, read_succ, read_succ, read_succ, read_zero, ← byte 4 (by omega),
    ← byte 5 (by omega), ← byte 6 (by omega), ← byte 7 (by omega)]
  rfl

theorem beStoreWord16_setWidth (mem : Mem) (ptr : Nat) (x : Word) :
    beStoreWord16 mem ptr (x.setWidth 16) = mem.write ptr (Mem.read (byteOf x) 6 2) := by
  have byte (j : Nat) (hj : 8 * (7 - j) + 8 ≤ 16) :
      ((x.setWidth 16) >>> (8 * (7 - j))).setWidth 8 = byteOf x j := by
    rw [← setWidth_ushiftRight_eq_byteOf]
    apply BitVec.eq_of_getLsbD_eq
    intro i hi
    simp [show 8 * (7 - j) + i < 16 by omega]
  rw [beStoreWord16, read_succ, read_succ, read_zero, ← byte 6 (by omega), ← byte 7 (by omega)]
  rfl

theorem store_setWidth (mem : Mem) (ptr : Nat) (x : Word) :
    mem.store ptr (x.setWidth 8) = mem.write ptr (Mem.read (byteOf x) 7 1) := by
  rw [store_eq_write, read_succ, read_zero, ← setWidth_ushiftRight_eq_byteOf]
  rfl

/-- The variables of `ascon_masked_word_x<n>_store_partial` while `rest` bytes are still to be written at
`data`: the bytes in front of these are written, and the next ones are at the front of the word. -/
def Stored (whole : Word) (start : Mem) (base size : Nat) (mem : Mem) (data rest : Nat) (word : Word) :
    Prop :=
  ∃ done, done + rest = size ∧ data = base + done ∧
    mem = start.write base (Mem.read (byteOf whole) 0 done) ∧
    ∀ j < 8, byteOf word j = byteOf whole ((j + done) % 8)

theorem stored_step {whole : Word} {start : Mem} {base size : Nat} (short : size < 8) {mem : Mem}
    {data rest : Nat} {word : Word} (stored : Stored whole start base size mem data rest word)
    {count : Nat} (positive : 0 < count) (enough : count ≤ rest) :
    Stored whole start base size
      (mem.write data (Mem.read (byteOf (leftRotate64 word (8 * count))) (8 - count) count))
      (data + count) (rest - count) (leftRotate64 word (8 * count)) := by
  obtain ⟨done, total, rfl, rfl, bytes⟩ := stored
  have turned (j : Nat) (hj : j < 8) : byteOf (leftRotate64 word (8 * count)) j =
      byteOf whole ((j + (done + count)) % 8) := by
    rw [byteOf_leftRotate64 word positive (by omega) hj, bytes _ (Nat.mod_lt _ (by omega))]
    congr 1
    omega
  have next : Mem.read (byteOf (leftRotate64 word (8 * count))) (8 - count) count =
      Mem.read (byteOf whole) (0 + done) count := by
    refine read_congr fun i hi => ?_
    rw [turned _ (by omega)]
    congr 1
    omega
  have joined := write_append start base (Mem.read (byteOf whole) 0 done)
    (Mem.read (byteOf whole) (0 + done) count)
  rw [length_read, ← read_add] at joined
  exact ⟨done + count, by omega, by omega, by rw [next, joined], turned⟩

/-- The steps write the first bytes of the sum of the shares. -/
theorem storePartialSteps_eq_write (n : Nat) (mem : Mem) (data : Nat) {size : Nat} (short : size < 8)
    (shares : Nat → Word) :
    storePartialSteps n mem data size shares =
      mem.write data (Mem.read (byteOf (xorRange n shares)) 0 size) := by
  have start : Stored (xorRange n shares) mem data size mem data size (xorRange n shares) := by
    refine ⟨0, by omega, rfl, by rw [read_zero, write_nil], fun j hj => ?_⟩
    rw [Nat.add_zero, Nat.mod_eq_of_lt hj]
  generalize whole_eq : xorRange n shares = whole at start ⊢
  have afterFour : ∃ mem' data' rest shares', (if 4 ≤ size then
        let masked := fun i => leftRotate64 (shares i) 32
        (beStoreWord32 mem data ((xorRange n masked).setWidth 32), data + 4, size - 4, masked)
      else (mem, data, size, shares)) = (mem', data', rest, shares') ∧
      Stored whole mem data size mem' data' rest (xorRange n shares') ∧ rest < 4 := by
    rw [← whole_eq] at start
    rw [← whole_eq]
    split
    · next four =>
        have stored := stored_step short start (show 0 < 4 by omega) four
        rw [← xorRange_leftRotate64 n shares (by omega) (by omega), ← beStoreWord32_setWidth] at stored
        exact ⟨_, _, _, _, rfl, stored, by omega⟩
    · exact ⟨_, _, _, _, rfl, start, by omega⟩
  obtain ⟨mem', data', rest, shares', four, stored, small⟩ := afterFour
  have afterTwo : ∃ mem'' data'' rest' shares'', (if 2 ≤ rest then
        let masked := fun i => leftRotate64 (shares' i) 16
        (beStoreWord16 mem' data' ((xorRange n masked).setWidth 16), data' + 2, rest - 2, masked)
      else (mem', data', rest, shares')) = (mem'', data'', rest', shares'') ∧
      Stored whole mem data size mem'' data'' rest' (xorRange n shares'') ∧ rest' < 2 := by
    split
    · next two =>
        have stored := stored_step short stored (show 0 < 2 by omega) two
        rw [← xorRange_leftRotate64 n shares' (by omega) (by omega), ← beStoreWord16_setWidth] at stored
        exact ⟨_, _, _, _, rfl, stored, by omega⟩
    · exact ⟨_, _, _, _, rfl, stored, by omega⟩
  obtain ⟨mem'', data'', rest', shares'', two, stored', small'⟩ := afterTwo
  rw [storePartialSteps, four]
  simp only [two]
  split
  · next one =>
      have stored := stored_step short stored' (show 0 < 1 by omega) one
      rw [← xorRange_leftRotate64 n shares'' (by omega) (by omega), ← store_setWidth] at stored
      obtain ⟨done, total, -, written, -⟩ := stored
      obtain rfl : done = size := by omega
      exact written
  · obtain ⟨done, total, -, written, -⟩ := stored'
    obtain rfl : done = size := by omega
    exact written

/-- Storing a part of a word writes its first bytes. -/
theorem maskedWordStorePartial_eq_write (n : Nat) (mem : Mem) (data : Nat) {size : Nat}
    (short : size < 8) (word : MaskedWord) :
    maskedWordStorePartial n mem data size word =
      mem.write data (Mem.read (byteOf (unmaskWord n word)) 0 size) :=
  storePartialSteps_eq_write n mem data short (shareValue word)

/-! ### Replacing -/

/-- Masking keeps the first bytes of one word and the rest of another one. -/
theorem byteOf_replaced (dest src : Word) (size : Nat) {j : Nat} (hj : j < 8) :
    byteOf ((dest &&& (~~~(0 : Word)) >>> (size * 8)) ^^^
        (src &&& ~~~((~~~(0 : Word)) >>> (size * 8)))) j =
      if j < size then byteOf src j else byteOf dest j := by
  have mask : byteOf ((~~~(0 : Word)) >>> (size * 8)) j =
      if j < size then 0#8 else BitVec.allOnes 8 := by
    apply BitVec.eq_of_getLsbD_eq
    intro i hi
    rw [byteOf, BitVec.getLsbD_extractLsb', BitVec.getLsbD_ushiftRight, BitVec.getLsbD_not,
      decide_eq_true hi, Bool.true_and, BitVec.ofNat_eq_ofNat, BitVec.getLsbD_zero, Bool.not_false,
      Bool.and_true]
    by_cases inside : j < size
    · rw [if_pos inside, decide_eq_false (by omega), BitVec.getLsbD_zero]
    · rw [if_neg inside, decide_eq_true (by omega), BitVec.getLsbD_allOnes, decide_eq_true hi]
  rw [byteOf_xor, byteOf_and, byteOf_and, byteOf_not _ hj, mask]
  split
  · rw [BitVec.and_zero, BitVec.zero_xor, BitVec.not_zero, BitVec.and_allOnes]
  · rw [BitVec.not_allOnes, BitVec.and_zero, BitVec.xor_zero, BitVec.and_allOnes]

section

variable {n : Nat} (small : n ≤ 6)

include small

/-- Replacing puts the first bytes of one word in front of the rest of another. -/
theorem unmaskWord_maskedWordReplace (dest src : MaskedWord) (size : Nat) :
    unmaskWord n (maskedWordReplace n dest src size) =
      (unmaskWord n dest &&& (~~~(0 : Word)) >>> (size * 8)) ^^^
        (unmaskWord n src &&& ~~~((~~~(0 : Word)) >>> (size * 8))) := by
  rw [← unmaskWord_and small, ← unmaskWord_and small, unmaskWord_eq_unmask small,
    unmaskWord_eq_unmask small, unmaskWord_eq_unmask small, ← unmask_xor]
  refine unmask_congr fun i hi => ?_
  simp only [maskedWordReplace, if_pos hi]
  split
  · next first => rw [first, Nat.mul_zero, rotateRight_of_zero, rotateRight_of_zero, and_or_and_not]
  · rw [rotateShare_eq (by omega), rotateShare_eq (by omega), Nat.sub_zero, rotateRight_not,
      and_or_and_not]

/-- The bytes of a word that has been replaced in part. -/
theorem byteOf_maskedWordReplace (dest src : MaskedWord) (size : Nat) {j : Nat} (hj : j < 8) :
    byteOf (unmaskWord n (maskedWordReplace n dest src size)) j =
      if j < size then byteOf (unmaskWord n src) j else byteOf (unmaskWord n dest) j := by
  rw [unmaskWord_maskedWordReplace small, byteOf_replaced _ _ _ hj]

end

/-! ### Conversions -/

section

variable {n : Nat} (some_share : 0 < n) (small : n ≤ 6)

include some_share small

theorem unmaskWord_maskedWordRandomize (src : MaskedWord) (trng : Trng) :
    unmaskWord n (maskedWordRandomize n src trng).1 = unmaskWord n src := by
  have random_zero := unmaskWord_randomShares some_share small trng
  rw [unmaskWord_eq_unmask small] at random_zero
  have shares : unmask 53 n (maskedWordRandomize n src trng).1 =
      unmask 53 n fun i => src i ^^^ randomShares n trng i :=
    unmask_congr fun i hi => if_pos hi
  rw [unmaskWord_eq_unmask small, unmaskWord_eq_unmask small, shares, unmask_xor, random_zero]
  exact BitVec.xor_zero

/-- More shares for the same word. -/
theorem unmaskWord_maskedWordWiden {m : Nat} (le : m ≤ n) (src : MaskedWord) (trng : Trng) :
    unmaskWord n (maskedWordWiden n m src trng).1 = unmaskWord m src := by
  have random_zero := unmaskWord_randomShares some_share small trng
  rw [unmaskWord_eq_unmask small] at random_zero
  have shares : unmask 53 n (maskedWordWiden n m src trng).1 =
      unmask 53 n fun i => randomShares n trng i ^^^ if i < m then src i else 0#64 :=
    unmask_congr fun i _ => by
      simp only [maskedWordWiden]
      by_cases kept : i < m
      · rw [if_pos kept, if_pos kept]
      · rw [if_neg kept, if_neg kept, BitVec.xor_zero]
  rw [unmaskWord_eq_unmask small, unmaskWord_eq_unmask (by omega), shares, unmask_xor, random_zero,
    unmask_extend le]
  exact BitVec.zero_xor

end

/-! The narrowing conversions add the shares that go to those that stay. A random word that is added to
two of these cancels. -/

/-- A share in the position of another one, turned back. -/
theorem rotateRight_unrotateShare {i j : Nat} (below : j < i) (small : i ≤ 5) (x : Word) :
    (unrotateShare i j x).rotateRight (53 * j) = x.rotateRight (53 * i) := by
  have turns : 53 * (i - j) + 53 * j = 53 * i := by rw [← Nat.mul_add, Nat.sub_add_cancel below.le]
  rw [unrotateShare_eq below (by omega), rotateRight_rotateRight, turns]

theorem rotateRight_rotateShare {i : Nat} (small : i ≤ 5) (x : Word) :
    (rotateShare i 0 x).rotateRight (53 * i) = x := by
  rw [rotateShare_eq (by omega), Nat.sub_zero, rotateRight_rotateRight_share]

theorem unmaskWord_maskedWordX2FromX3 (src : MaskedWord) (trng : Trng) :
    unmaskWord 2 (maskedWordX2FromX3 src trng).1 = unmaskWord 3 src := by
  rw [unmaskWord_eq_unmask (by omega), unmaskWord_eq_unmask (by omega)]
  simp only [unmask, xorRange_succ, xorRange_zero, BitVec.zero_xor, maskedWordX2FromX3, Nat.mul_zero,
    rotateRight_of_zero, rotateRight_xor, rotateRight_rotateShare (show 1 ≤ 5 by omega),
    rotateRight_unrotateShare (show 1 < 2 by omega) (by omega)]
  simp only [BitVec.xor_assoc, xor_xor_cancel]

theorem unmaskWord_maskedWordX2FromX4 (src : MaskedWord) (trng : Trng) :
    unmaskWord 2 (maskedWordX2FromX4 src trng).1 = unmaskWord 4 src := by
  have second := rotateRight_unrotateShare (show 0 < 2 by omega) (by omega) (src 2)
  rw [Nat.mul_zero, rotateRight_of_zero] at second
  rw [unmaskWord_eq_unmask (by omega), unmaskWord_eq_unmask (by omega)]
  simp only [unmask, xorRange_succ, xorRange_zero, BitVec.zero_xor, maskedWordX2FromX4, Nat.mul_zero,
    rotateRight_of_zero, rotateRight_xor, rotateRight_rotateShare (show 1 ≤ 5 by omega),
    rotateRight_unrotateShare (show 1 < 3 by omega) (by omega), second]
  simp only [BitVec.xor_assoc]
  rw [← BitVec.xor_assoc (src 0) ((src 2).rotateRight (53 * 2)), xor_xor_cancel, BitVec.xor_assoc,
    xor_left_comm ((src 2).rotateRight (53 * 2))]

theorem unmaskWord_maskedWordX3FromX4 (src : MaskedWord) (trng : Trng) :
    unmaskWord 3 (maskedWordX3FromX4 src trng).1 = unmaskWord 4 src := by
  have third := rotateRight_unrotateShare (show 0 < 3 by omega) (by omega) (src 3)
  rw [Nat.mul_zero, rotateRight_of_zero] at third
  rw [unmaskWord_eq_unmask (by omega), unmaskWord_eq_unmask (by omega)]
  simp only [unmask, xorRange_succ, xorRange_zero, BitVec.zero_xor, maskedWordX3FromX4, Nat.mul_zero,
    rotateRight_of_zero, rotateRight_xor, rotateRight_rotateShare (show 1 ≤ 5 by omega),
    rotateRight_rotateShare (show 2 ≤ 5 by omega), third]
  simp only [BitVec.xor_assoc]
  rw [xor_left_comm (trng 0) (trng 1), ← BitVec.xor_assoc (src 0) ((src 3).rotateRight (53 * 3)),
    xor_xor_cancel, ← BitVec.xor_assoc (src 0 ^^^ (src 3).rotateRight (53 * 3)), xor_xor_cancel]
  simp only [BitVec.xor_assoc]
  rw [xor_left_comm ((src 3).rotateRight (53 * 3)), BitVec.xor_comm ((src 3).rotateRight (53 * 3))]

/-! ### Conversions of whole states -/

theorem unmaskState_get (n : Nat) (state : MaskedState) (i : Nat) :
    (unmaskState n state).get i = unmaskWord n (state.get i) := by
  rcases i with _ | _ | _ | _ | i <;> rfl

/-- A conversion word by word. -/
theorem unmaskState_forEachWord {n : Nat} {step : Nat → Trng → MaskedWord × Trng} {state : AsconState}
    (words : ∀ i trng, unmaskWord n (step i trng).1 = state.get i) (trng : Trng) :
    unmaskState n (forEachWord step trng).1 = state := by
  refine Five.ext_get fun i hi => ?_
  rw [unmaskState_get]
  interval_cases i <;> exact words _ _

section

variable {n : Nat} (some_share : 0 < n) (small : n ≤ 6)

include some_share small

theorem unmaskState_maskedRandomize (state : MaskedState) (trng : Trng) :
    unmaskState n (maskedRandomize n state trng).1 = unmaskState n state :=
  unmaskState_forEachWord (fun i trng => by
    rw [unmaskWord_maskedWordRandomize some_share small, unmaskState_get]) trng

theorem unmaskState_maskedCopyWiden {m : Nat} (le : m ≤ n) (src : MaskedState) (trng : Trng) :
    unmaskState n (maskedCopyWiden n m src trng).1 = unmaskState m src :=
  unmaskState_forEachWord (fun i trng => by
    rw [unmaskWord_maskedWordWiden some_share small le, unmaskState_get]) trng

/-- Masking a plain state. -/
theorem unmaskState_maskedCopyFromX1 (src : AsconState) (trng : Trng) :
    unmaskState n (maskedCopyFromX1 n src trng).1 = src := by
  refine unmaskState_forEachWord (fun i trng => ?_) trng
  rw [unmaskWord_maskedWordLoad some_share small, asconSqueeze8, Nat.mul_div_cancel i (by omega)]
  refine byteOf_ext fun j hj => ?_
  have stored := write_apply_of_lt (fun _ => 0) 0 (beBytes64 (src.get i)) (by simpa using hj)
  rw [List.getD_eq_getElem?_getD, getElem?_beBytes64 _ hj, Option.getD_some, Nat.zero_add] at stored
  rw [byteOf_beLoadWord64 _ hj]
  exact stored

end

theorem unmaskState_asconX2CopyFromX3 (src : MaskedState) (trng : Trng) :
    unmaskState 2 (asconX2CopyFromX3 src trng).1 = unmaskState 3 src :=
  unmaskState_forEachWord (fun i trng => by
    rw [unmaskWord_maskedWordX2FromX3, unmaskState_get]) trng

theorem unmaskState_asconX2CopyFromX4 (src : MaskedState) (trng : Trng) :
    unmaskState 2 (asconX2CopyFromX4 src trng).1 = unmaskState 4 src :=
  unmaskState_forEachWord (fun i trng => by
    rw [unmaskWord_maskedWordX2FromX4, unmaskState_get]) trng

theorem unmaskState_asconX3CopyFromX4 (src : MaskedState) (trng : Trng) :
    unmaskState 3 (asconX3CopyFromX4 src trng).1 = unmaskState 4 src :=
  unmaskState_forEachWord (fun i trng => by
    rw [unmaskWord_maskedWordX3FromX4, unmaskState_get]) trng

end AsconSuite
