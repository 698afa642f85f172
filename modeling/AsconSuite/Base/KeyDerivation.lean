/-
Module: AsconSuite.Base.KeyDerivation
Layer: Base (library)
Purpose: Message authentication and key derivation from a hash function or a pseudorandom function on lists of
  bytes, in the words of the standards: HMAC (RFC 2104), the output stream of HKDF (RFC 5869) and PBKDF2
  (RFC 8018).
Imports: AsconSuite.Base.ByteWord, Mathlib's List.takeD lemmas
Trusted boundary: none
Main exports: KeyDerivation.hmac, KeyDerivation.blockStream, KeyDerivation.hkdfBlock, KeyDerivation.hkdfOutput,
  KeyDerivation.pbkdf2F, KeyDerivation.pbkdf2, KeyDerivation.pbkdf2_take
-/
import Mathlib.Data.List.TakeDrop
import AsconSuite.Base.ByteWord

namespace KeyDerivation

open ByteWord

/-! ### HMAC -/

section

variable (hash : List Byte → List Byte) (blockSize : Nat)

/-- The key as a block: padded with zeroes, and hashed first when it is longer than a block. -/
def keyBlock (key : List Byte) : List Byte :=
  let key := if blockSize < key.length then hash key else key
  key ++ List.replicate (blockSize - key.length) 0

/-- `H((K' xor opad) || H((K' xor ipad) || message))`. -/
def hmac (ipad opad : Byte) (key message : List Byte) : List Byte :=
  let block := keyBlock hash blockSize key
  hash (block.map (· ^^^ opad) ++ hash (block.map (· ^^^ ipad) ++ message))

theorem map_xor_zeroes (n : Nat) (pad : Byte) :
    (List.replicate n (0 : Byte)).map (· ^^^ pad) = List.replicate n pad := by
  rw [List.map_replicate]
  exact congrArg _ BitVec.zero_xor

/-- The padding of a masked key is the mask. -/
theorem map_keyBlock_of_le {key : List Byte} (fits : key.length ≤ blockSize) (pad : Byte) :
    (keyBlock hash blockSize key).map (· ^^^ pad) =
      key.map (· ^^^ pad) ++ List.replicate (blockSize - key.length) pad := by
  rw [keyBlock, if_neg (by omega), List.map_append, map_xor_zeroes]

theorem map_keyBlock_of_lt {key : List Byte} (long : blockSize < key.length) (pad : Byte) :
    (keyBlock hash blockSize key).map (· ^^^ pad) =
      (hash key).map (· ^^^ pad) ++ List.replicate (blockSize - (hash key).length) pad := by
  rw [keyBlock, if_pos long, List.map_append, map_xor_zeroes]

end

/-! ### Streams of blocks -/

/-- The blocks number `first` to `first + n - 1`, one behind the other. -/
def blocks (block : Nat → List Byte) (first n : Nat) : List Byte :=
  ((List.range' first n).map block).flatten

/-- The first `len` bytes of the blocks from number `first` on. -/
def blockStream (size : Nat) (block : Nat → List Byte) (first len : Nat) : List Byte :=
  (blocks block first ((len + size - 1) / size)).take len

section

variable {size : Nat} {block : Nat → List Byte}

theorem blocks_succ (block : Nat → List Byte) (first n : Nat) :
    blocks block first (n + 1) = block first ++ blocks block (first + 1) n := by
  rw [blocks, List.range'_succ, List.map_cons, List.flatten_cons, blocks]

theorem blocks_add (block : Nat → List Byte) (first m n : Nat) :
    blocks block first (m + n) = blocks block first m ++ blocks block (first + m) n := by
  induction m generalizing first with
  | zero => simp [blocks]
  | succ m ih =>
      rw [Nat.add_right_comm, blocks_succ, blocks_succ, ih, List.append_assoc, Nat.add_assoc,
        Nat.add_comm 1 m]

theorem length_blocks_from {first : Nat} (length_block : ∀ i, first ≤ i → (block i).length = size) (n : Nat) :
    (blocks block first n).length = n * size := by
  induction n generalizing first with
  | zero => rw [blocks, List.range'_zero, List.map_nil, List.flatten_nil, List.length_nil, Nat.zero_mul]
  | succ n ih =>
      rw [blocks_succ, List.length_append, length_block first (Nat.le_refl first),
        ih fun i le => length_block i (Nat.le_of_succ_le le), Nat.succ_mul, Nat.add_comm]

theorem length_blocks (length_block : ∀ i, (block i).length = size) (first n : Nat) :
    (blocks block first n).length = n * size := length_blocks_from (fun i _ => length_block i) n

/-- The bytes up to `len` need no block behind them. -/
theorem blockStream_eq_take (positive : 0 < size) (length_block : ∀ i, (block i).length = size)
    (first : Nat) {len n : Nat} (enough : len ≤ n * size) :
    blockStream size block first len = (blocks block first n).take len := by
  have needed : (len + size - 1) / size ≤ n := by
    refine Nat.le_of_lt_succ (Nat.div_lt_of_lt_mul ?_)
    rw [Nat.mul_succ, Nat.mul_comm]
    omega
  have covers : len ≤ (len + size - 1) / size * size := by
    have division := Nat.div_add_mod (len + size - 1) size
    have remainder := Nat.mod_lt (len + size - 1) positive
    rw [Nat.mul_comm] at division
    omega
  obtain ⟨later, rfl⟩ := Nat.exists_eq_add_of_le needed
  rw [blocks_add, List.take_append_of_le_length (by rw [length_blocks length_block]; exact covers),
    blockStream]

@[simp] theorem blockStream_zero (size : Nat) (block : Nat → List Byte) (first : Nat) :
    blockStream size block first 0 = [] := List.take_zero

/-- At most one block. -/
theorem blockStream_of_le (length_block : ∀ i, (block i).length = size) (first : Nat) {len : Nat}
    (positive : 0 < size) (short : len ≤ size) :
    blockStream size block first len = (block first).take len := by
  have single : blocks block first 1 = block first := by
    rw [blocks_succ, blocks, List.range'_zero, List.map_nil, List.flatten_nil, List.append_nil]
  rw [blockStream_eq_take positive length_block first (n := 1) (by omega), single]

/-- The first block and the stream behind it. -/
theorem blockStream_add (positive : 0 < size) (length_block : ∀ i, (block i).length = size)
    (first len : Nat) :
    blockStream size block first (size + len) =
      block first ++ blockStream size block (first + 1) len := by
  have covers : len ≤ len * size := Nat.le_mul_of_pos_right len positive
  rw [blockStream_eq_take positive length_block first (n := len + 1) (by rw [Nat.succ_mul]; omega),
    blocks_succ, blockStream_eq_take positive length_block (first + 1) covers, List.take_append,
    List.take_of_length_le (by rw [length_block]; omega), length_block, Nat.add_sub_cancel_left]

/-- A shorter piece of a stream is the start of a longer one. -/
theorem blockStream_take (positive : 0 < size) (length_block : ∀ i, (block i).length = size)
    (first : Nat) {len more : Nat} (le : len ≤ more) :
    (blockStream size block first more).take len = blockStream size block first len := by
  have covers : more ≤ more * size := Nat.le_mul_of_pos_right more positive
  rw [blockStream_eq_take positive length_block first covers,
    blockStream_eq_take positive length_block first (Nat.le_trans le covers), List.take_take,
    Nat.min_eq_left le]

end

/-! ### HKDF -/

section

variable (prf : List Byte → List Byte) (info : List Byte)

/-- `T(0)` is empty, and each later block is the function of the one in front of it, the info and the number. -/
def hkdfBlock : (i : Nat) → List Byte
  | 0 => []
  | i + 1 => prf (hkdfBlock i ++ info ++ [BitVec.ofNat 8 (i + 1)])

/-- `T(1) || T(2) || ... || T(255)`. -/
def hkdfOutput : List Byte := blocks (hkdfBlock prf info) 1 255

theorem length_hkdfBlock {size : Nat} (length_prf : ∀ x, (prf x).length = size) (i : Nat) (numbered : 1 ≤ i) :
    (hkdfBlock prf info i).length = size := by
  obtain ⟨i, rfl⟩ := Nat.exists_eq_add_of_le' numbered
  exact length_prf _

theorem length_hkdfOutput {size : Nat} (length_prf : ∀ x, (prf x).length = size) :
    (hkdfOutput prf info).length = 255 * size :=
  length_blocks_from (length_hkdfBlock prf info length_prf) 255

end

/-- A piece that goes on behind a block. -/
theorem takeD_append (front back : List Byte) (n : Nat) (b : Byte) :
    (front ++ back).takeD (front.length + n) b = front ++ back.takeD n b := by
  induction front with
  | nil => rw [List.nil_append, List.nil_append, List.length_nil, Nat.zero_add]
  | cons a front ih =>
      rw [List.cons_append, List.length_cons, Nat.add_right_comm, List.takeD, List.headD_cons, List.tail_cons, ih,
        List.cons_append]

/-! ### PBKDF2 -/

/-- Byte strings of the same length added. -/
def xorBytes (a b : List Byte) : List Byte := List.zipWith (· ^^^ ·) a b

@[simp] theorem length_xorBytes (a b : List Byte) :
    (xorBytes a b).length = min a.length b.length := List.length_zipWith

/-- `INT (i)`: four octets, the most significant first. -/
def int32 (i : Nat) : List Byte :=
  [BitVec.ofNat 8 (i / 2 ^ 24), BitVec.ofNat 8 (i / 2 ^ 16), BitVec.ofNat 8 (i / 2 ^ 8), BitVec.ofNat 8 i]

section

variable (prf : List Byte → List Byte)

/-- `U_1` is given, and each later one is the function of the one in front of it. -/
def pbkdf2U (first : List Byte) : (j : Nat) → List Byte
  | 0 => first
  | j + 1 => prf (pbkdf2U first j)

/-- `F (P, S, c, i) = U_1 xor ... xor U_c`. -/
def pbkdf2F (salt : List Byte) (count i : Nat) : List Byte :=
  let u := pbkdf2U prf (prf (salt ++ int32 i))
  ((List.range (count - 1)).map fun j => u (j + 1)).foldl xorBytes (u 0)

/-- The derived key: the blocks `F` numbered from one, cut to its length. -/
def pbkdf2 (size : Nat) (salt : List Byte) (count len : Nat) : List Byte :=
  blockStream size (pbkdf2F prf salt count) 1 len

/-- A running sum: `t` is added to the functions of `u`, of the function of `u`, and so on. -/
def xorChain : (t u : List Byte) → (n : Nat) → List Byte
  | t, _, 0 => t
  | t, u, n + 1 => xorChain (xorBytes t (prf u)) (prf u) n

theorem pbkdf2U_succ (first : List Byte) (j : Nat) :
    pbkdf2U prf first (j + 1) = pbkdf2U prf (prf first) j := by
  induction j with
  | zero => rfl
  | succ j ih => rw [pbkdf2U, ih, pbkdf2U]

theorem xorChain_eq (t u : List Byte) (n : Nat) :
    xorChain prf t u n =
      ((List.range n).map fun j => pbkdf2U prf u (j + 1)).foldl xorBytes t := by
  induction n generalizing t u with
  | zero => rfl
  | succ n ih =>
      rw [xorChain, ih, List.range_succ_eq_map, List.map_cons, List.map_map, List.foldl_cons]
      congr 1
      exact List.map_congr_left fun j _ => (pbkdf2U_succ prf u (j + 1)).symm

theorem pbkdf2F_eq_xorChain (salt : List Byte) (count i : Nat) :
    pbkdf2F prf salt count i =
      xorChain prf (prf (salt ++ int32 i)) (prf (salt ++ int32 i)) (count - 1) := by
  rw [xorChain_eq]
  rfl

theorem length_pbkdf2F {size : Nat} (length_prf : ∀ x, (prf x).length = size) (salt : List Byte)
    (count i : Nat) : (pbkdf2F prf salt count i).length = size := by
  have chain (t u : List Byte) (n : Nat) (len : t.length = size) :
      (xorChain prf t u n).length = size := by
    induction n generalizing t u with
    | zero => exact len
    | succ n ih =>
        refine ih _ _ ?_
        rw [length_xorBytes, len, length_prf, Nat.min_self]
  rw [pbkdf2F_eq_xorChain]
  exact chain _ _ _ (length_prf _)

/-- A count of zero is a count of one. -/
theorem pbkdf2_zero (size : Nat) (salt : List Byte) (len : Nat) :
    pbkdf2 prf size salt 0 len = pbkdf2 prf size salt 1 len := rfl

/-- A shorter key is the start of a longer one. -/
theorem pbkdf2_take {size : Nat} (positive : 0 < size) (length_prf : ∀ x, (prf x).length = size)
    (salt : List Byte) (count : Nat) {len more : Nat} (le : len ≤ more) :
    (pbkdf2 prf size salt count more).take len = pbkdf2 prf size salt count len :=
  blockStream_take positive (length_pbkdf2F prf length_prf salt count) 1 le

end

end KeyDerivation
