/-
Module: AsconSuite.Proofs.Keystream
Layer: Proofs
Purpose: The loops that permute in front of every block and add the block to the data are runs of the lazy
  duplex over the bytes of the data. Such a run undoes itself.
Imports: AsconSuite.Base.Sponge, AsconSuite.Proofs.MessageLoops
Trusted boundary: none
Main exports: keystreamMix, keystream, keystream_keystream, keystreamLoop_eq_write,
  asconExtractAndAddBytes_eq_combine
-/
import AsconSuite.Base.Sponge
import AsconSuite.Proofs.MessageLoops

namespace AsconSuite

open ByteWord ByteMemory
open Transducer (Step run)

/-- A byte of the state is added to a byte of the data and stays as it is. -/
def keystreamMix : Mix Byte Byte Byte := fun x b => (x, x ^^^ b)

theorem keystreamMix_keystreamMix (x b : Byte) :
    keystreamMix x (keystreamMix x b).2 = ((keystreamMix x b).1, b) := by
  rw [keystreamMix, keystreamMix, ← BitVec.xor_assoc, BitVec.xor_self, BitVec.zero_xor]

/-- The machine that adds the key stream. -/
abbrev keystreamStep (rate : Rate) (firstRound : Nat) : Step (AsconState × Nat) Byte Byte :=
  (asconDuplex rate firstRound).lazyStep keystreamMix

/-- Some bytes with the key stream from a state added to them. -/
def keystream (rate : Rate) (firstRound : Nat) (s : AsconState) (bytes : List Byte) : List Byte :=
  (run (keystreamStep rate firstRound) (s, 0) bytes).2

section

variable (rate : Rate) (firstRound : Nat)

@[simp] theorem length_keystream (s : AsconState) (bytes : List Byte) :
    (keystream rate firstRound s bytes).length = bytes.length :=
  Transducer.length_run _ _ _

/-- Adding the key stream twice adds nothing. -/
theorem keystream_keystream (s : AsconState) (bytes : List Byte) :
    keystream rate firstRound s (keystream rate firstRound s bytes) = bytes := by
  have inverts := (asconDuplex rate firstRound).lazyStep_inverts keystreamMix keystreamMix_keystreamMix
  exact congrArg Prod.snd (Transducer.run_inverse inverts (s, 0) bytes)

/-- The bytes of one block, or of the last one. -/
theorem keystream_block (s : AsconState) (mem : Mem) (src : Nat) {len : Nat} (some_data : 0 < len)
    (fits : len ≤ rate.size) :
    run (keystreamStep rate firstRound) (s, 0) (mem.read src len) =
      ((asconPermute s firstRound, len % rate.size),
        (asconCells.fill keystreamMix (asconPermute s firstRound) 0 (mem.read src len)).2) := by
  have small := rate.size_le
  have nonempty : mem.read src len ≠ [] := List.ne_nil_of_length_pos (by simpa using some_data)
  have filled := (asconDuplex rate firstRound).run_lazy_eq_fill_permute keystreamMix s nonempty
    (by rw [length_read]; exact fits)
  have kept : (asconCells.fill keystreamMix (asconPermute s firstRound) 0 (mem.read src len)).1 =
      asconPermute s firstRound :=
    asconCells.fill_fst_of_keeps (fun _ _ => rfl) _ (by rw [length_read, asconCells_size]; omega)
  rw [keystreamStep, filled, length_read]
  exact congrArg (fun t => ((t, len % rate.size), _)) kept

end

/-! ### Blocks of the key stream -/

/-- One byte of a block and the bytes behind it. -/
theorem combine_keystreamMix_succ (s : AsconState) (mem : Mem) {dest src offset n : Nat}
    (fits : offset + (n + 1) ≤ 40) (ranges : SameOrApart dest src (n + 1)) :
    (combine keystreamMix s mem dest src offset (n + 1)).2 =
      (combine keystreamMix s (mem.store dest (byteForOffset s offset ^^^ mem src)) (dest + 1) (src + 1)
        (offset + 1) n).2 := by
  rw [Nat.add_comm n 1] at ranges
  have rest := ranges.read_rest mem [byteForOffset s offset ^^^ mem src] rfl
  have kept := asconCells.set_get_self s (show offset < 40 by omega)
  rw [← store_eq_write] at rest
  rw [combine, combine, rest, read_succ, Cells.fill_cons, write_cons]
  simp only [keystreamMix, asconCells_get] at kept ⊢
  rw [kept]

theorem asconExtractAndAddBytes_eq_combine (s : AsconState) (mem : Mem) {input output offset size : Nat}
    (fits : offset + size ≤ 40) (ranges : SameOrApart output input size) :
    asconExtractAndAddBytes s mem input output offset size =
      (combine keystreamMix s mem output input offset size).2 := by
  induction size generalizing mem input output offset with
  | zero => rw [asconExtractAndAddBytes, combine, read_zero, Cells.fill_nil, write_nil]
  | succ size ih =>
      have behind := ranges
      rw [Nat.add_comm size 1] at behind
      rw [asconExtractAndAddBytes, if_pos (by omega), ih _ (by omega) behind.back,
        combine_keystreamMix_succ s mem fits ranges, BitVec.xor_comm]

/-! ### The loop -/

section

variable {rate : Rate} {xorBlock : AsconState → Mem → Nat → Nat → Nat → Mem}
  (xorBlock_eq : ∀ s mem dest src len, len ≤ rate.size → SameOrApart dest src len →
    xorBlock s mem dest src len = (combine keystreamMix s mem dest src 0 len).2)
  (firstRound : Nat)

include xorBlock_eq

/-- The loop writes the sum of the data and the key stream. -/
theorem keystreamLoop_eq_write (s : AsconState) (mem : Mem) {dest src len : Nat}
    (ranges : SameOrApart dest src len) :
    (keystreamLoop rate.size firstRound xorBlock s mem dest src len).2 =
      mem.write dest (keystream rate firstRound s (mem.read src len)) := by
  have positive := rate.size_pos
  induction len using Nat.strongRecOn generalizing s mem dest src with
  | ind len ih =>
    rw [keystreamLoop]
    rcases Nat.lt_or_ge len rate.size with short | long
    · rw [if_neg (by omega)]
      split
      · next some_data =>
          rw [keystream, keystream_block rate firstRound s mem src some_data short.le]
          exact xorBlock_eq _ _ _ _ _ short.le ranges
      · rw [show len = 0 by omega, keystream, read_zero, Transducer.run_nil, write_nil]
    · obtain ⟨rest, rfl⟩ := Nat.exists_eq_add_of_le long
      have first := keystream_block rate firstRound s mem src positive (Nat.le_refl rate.size)
      rw [Nat.mod_self] at first
      have block := asconCells.length_fill keystreamMix (asconPermute s firstRound) 0
        (mem.read src rate.size)
      rw [length_read] at block
      rw [if_pos ⟨positive, long⟩]
      simp only
      rw [xorBlock_eq _ _ _ _ _ (Nat.le_refl _) ranges.front, Nat.add_sub_cancel_left,
        ih rest (by omega) _ _ ranges.back, combine, ranges.read_rest mem _ block, keystream, keystream,
        read_add, Transducer.run_append, first]
      have joined := write_append mem dest
        (asconCells.fill keystreamMix (asconPermute s firstRound) 0 (mem.read src rate.size)).2
        (run (keystreamStep rate firstRound) (asconPermute s firstRound, 0)
          (mem.read (src + rate.size) rest)).2
      rw [block] at joined
      exact joined

end

end AsconSuite
