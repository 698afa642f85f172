/-
Module: AsconSuite.Proofs.MessageLoops
Layer: Proofs
Purpose: The encrypt and decrypt loops are the duplex machine run over the bytes of the message. The
  partial block carried in from the last call, the full blocks and the tail are three stretches of one run.
Imports: AsconSuite.Proofs.StateBytes, AsconSuite.Aead.Common
Trusted boundary: none
Main exports: asconDuplex, messageRun, messageRun_add, aeadCrypt_eq_messageRun,
  encryptBlock_eq_combine, decryptBlock_eq_combine
-/
import AsconSuite.Proofs.StateBytes
import AsconSuite.Aead.Common

namespace AsconSuite

open ByteWord ByteMemory
open Transducer (run)

/-- The duplex of one rate and one choice of rounds. -/
def asconDuplex (rate : Rate) (firstRound : Nat) : Duplex AsconState Byte where
  toCells := asconCells
  rate := rate.size
  rate_pos := by cases rate <;> decide
  rate_le := by cases rate <;> decide
  permute := fun state => asconPermute state firstRound

@[simp] theorem asconDuplex_rate (rate : Rate) (firstRound : Nat) :
    (asconDuplex rate firstRound).rate = rate.size := rfl

theorem Rate.size_pos (rate : Rate) : 0 < rate.size := by cases rate <;> decide

theorem Rate.size_le (rate : Rate) : rate.size ≤ 16 := by cases rate <;> decide

/-- Run the duplex over the `len` bytes at `src` and write what it puts out at `dest`: the state, the
memory and the position reached. -/
def messageRun (mix : Mix Byte Byte Byte) (rate : Rate) (firstRound : Nat) (s : AsconState)
    (mem : Mem) (dest src len pos : Nat) : AsconState × Mem × Nat :=
  let done := run ((asconDuplex rate firstRound).step mix) (s, pos) (mem.read src len)
  (done.1.1, mem.write dest done.2, done.1.2)

section

variable (mix : Mix Byte Byte Byte) (rate : Rate) (firstRound : Nat)

/-- A run may be cut in two when the output does not run into the input that is left. -/
theorem messageRun_add (s : AsconState) (mem : Mem) {dest src m n : Nat} (pos : Nat)
    (ranges : SameOrApart dest src (m + n)) :
    messageRun mix rate firstRound s mem dest src (m + n) pos =
      messageRun mix rate firstRound (messageRun mix rate firstRound s mem dest src m pos).1
        (messageRun mix rate firstRound s mem dest src m pos).2.1 (dest + m) (src + m) n
        (messageRun mix rate firstRound s mem dest src m pos).2.2 := by
  let machine := (asconDuplex rate firstRound).step mix
  have rest := ranges.read_rest mem (run machine (s, pos) (mem.read src m)).2 (by simp)
  have joined := write_append mem dest (run machine (s, pos) (mem.read src m)).2
    (run machine (run machine (s, pos) (mem.read src m)).1 (mem.read (src + m) n)).2
  rw [Transducer.length_run, length_read] at joined
  simp only [messageRun]
  rw [rest, joined, read_add, Transducer.run_append]

theorem messageRun_zero (s : AsconState) (mem : Mem) (dest src pos : Nat) :
    messageRun mix rate firstRound s mem dest src 0 pos = (s, mem, pos) := by
  simp [messageRun]

/-- Input that leaves the block unfilled. -/
theorem messageRun_of_lt (s : AsconState) (mem : Mem) (dest src : Nat) {len pos : Nat}
    (room : pos + len < rate.size) :
    messageRun mix rate firstRound s mem dest src len pos =
      ((combine mix s mem dest src pos len).1, (combine mix s mem dest src pos len).2,
        pos + len) := by
  have filled := (asconDuplex rate firstRound).run_eq_fill mix s pos (mem.read src len)
    (by simpa using room)
  rw [messageRun, filled, length_read]
  rfl

/-- Input that fills the block exactly. -/
theorem messageRun_of_eq (s : AsconState) (mem : Mem) (dest src : Nat) {len pos : Nat}
    (some_input : 0 < len) (full : pos + len = rate.size) :
    messageRun mix rate firstRound s mem dest src len pos =
      (asconPermute (combine mix s mem dest src pos len).1 firstRound,
        (combine mix s mem dest src pos len).2, 0) := by
  have nonempty : mem.read src len ≠ [] := List.ne_nil_of_length_pos (by simpa using some_input)
  have filled := (asconDuplex rate firstRound).run_eq_permute_fill mix s pos (mem.read src len)
    nonempty (by simpa using full)
  rw [messageRun, filled]
  rfl

end

/-! ### The loops -/

/-- One turn of the block loop. -/
theorem blockLoop_of_le {σ : Type*} {rate : Nat} (positive : 0 < rate)
    (block : σ → Mem → Nat → Nat → σ × Mem) {p : Progress σ} (long : rate ≤ p.len) :
    blockLoop rate block p =
      blockLoop rate block ⟨(block p.state p.mem p.dest p.src).1,
        (block p.state p.mem p.dest p.src).2, p.dest + rate, p.src + rate, p.len - rate⟩ := by
  conv_lhs => rw [blockLoop, if_pos ⟨positive, long⟩]

/-- The block loop stops at the first incomplete block. -/
theorem blockLoop_of_lt {σ : Type*} {rate : Nat} (block : σ → Mem → Nat → Nat → σ × Mem)
    {p : Progress σ} (short : p.len < rate) : blockLoop rate block p = p := by
  rw [blockLoop, if_neg (by omega)]

/-- Absorption of data that does not fill a block. -/
theorem aeadAbsorb_of_lt (rate : Rate) (s : AsconState) (data : Mem) {len : Nat} (firstRound : Nat)
    (lastPermute : Bool) (short : len < rate.size) :
    aeadAbsorb rate s data len firstRound lastPermute =
      let last := asconPad (if 0 < len then asconAbsorbPartial s data 0 len else s) len
      if lastPermute then asconPermute last firstRound else last := by
  rw [aeadAbsorb, absorbLoop, if_neg (by omega)]

/-- Absorption of a full block and of the data behind it. -/
theorem aeadAbsorb_of_le (rate : Rate) (s : AsconState) (data : Mem) {len : Nat} (firstRound : Nat)
    (lastPermute : Bool) (long : rate.size ≤ len) :
    aeadAbsorb rate s data len firstRound lastPermute =
      aeadAbsorb rate (asconPermute (rate.absorbBlock s data) firstRound) (data.view rate.size)
        (len - rate.size) firstRound lastPermute := by
  rw [aeadAbsorb, absorbLoop, if_pos ⟨rate.size_pos, long⟩]
  rfl

section

variable {mix : Mix Byte Byte Byte} {rate : Rate}
  {block : AsconState → Mem → Nat → Nat → AsconState × Mem}
  {partialBlock : AsconState → Mem → Nat → Nat → Nat → Nat → AsconState × Mem}
  (block_eq : ∀ s mem dest src, SameOrApart dest src rate.size →
    block s mem dest src = combine mix s mem dest src 0 rate.size)
  (partialBlock_eq : ∀ s mem dest src offset count, offset + count ≤ 40 →
    SameOrApart dest src count →
    partialBlock s mem dest src offset count = combine mix s mem dest src offset count)
  (firstRound : Nat)

theorem cryptBlocks_of_lt (s : AsconState) (mem : Mem) (dest src : Nat) {len : Nat}
    (short : len < rate.size) :
    cryptBlocks rate block partialBlock s mem dest src len firstRound =
      if 0 < len then
        ((partialBlock s mem dest src 0 len).1, (partialBlock s mem dest src 0 len).2, len)
      else (s, mem, len) := by
  rw [cryptBlocks, blockLoop_of_lt _ short]
  simp only
  split <;> rfl

theorem cryptBlocks_of_le (s : AsconState) (mem : Mem) (dest src : Nat) {len : Nat}
    (long : rate.size ≤ len) :
    cryptBlocks rate block partialBlock s mem dest src len firstRound =
      cryptBlocks rate block partialBlock (asconPermute (block s mem dest src).1 firstRound)
        (block s mem dest src).2 (dest + rate.size) (src + rate.size) (len - rate.size)
        firstRound := by
  rw [cryptBlocks, blockLoop_of_le rate.size_pos _ long]
  rfl

include block_eq partialBlock_eq

/-- The full blocks and the tail are a run from the start of a block. -/
theorem cryptBlocks_eq_messageRun (s : AsconState) (mem : Mem) {dest src len : Nat}
    (ranges : SameOrApart dest src len) :
    cryptBlocks rate block partialBlock s mem dest src len firstRound =
      messageRun mix rate firstRound s mem dest src len 0 := by
  have positive := rate.size_pos
  have small := rate.size_le
  induction len using Nat.strongRecOn generalizing s mem dest src with
  | ind len ih =>
    rcases Nat.lt_or_ge len rate.size with short | long
    · rw [cryptBlocks_of_lt _ _ _ _ _ short]
      split
      · rw [partialBlock_eq _ _ _ _ _ _ (by omega) ranges,
          messageRun_of_lt _ _ _ _ _ _ _ (by omega), Nat.zero_add]
      · rw [show len = 0 by omega, messageRun_zero]
    · obtain ⟨rest, rfl⟩ := Nat.exists_eq_add_of_le long
      rw [cryptBlocks_of_le _ _ _ _ _ long, Nat.add_sub_cancel_left,
        ih rest (by omega) _ _ ranges.back, block_eq _ _ _ _ ranges.front,
        messageRun_add _ _ _ _ _ _ ranges, messageRun_of_eq _ _ _ _ _ _ _ positive (by omega)]

/-- A whole call is a run from the position the last call left. -/
theorem aeadCrypt_eq_messageRun (s : AsconState) (mem : Mem) {dest src len partialLen : Nat}
    (inside : partialLen < rate.size) (ranges : SameOrApart dest src len) :
    aeadCrypt rate block partialBlock s mem dest src len firstRound partialLen =
      messageRun mix rate firstRound s mem dest src len partialLen := by
  have small := rate.size_le
  rw [aeadCrypt]
  split
  · simp only
    split
    · rw [partialBlock_eq _ _ _ _ _ _ (by omega) ranges,
        messageRun_of_lt _ _ _ _ _ _ _ (by omega)]
    · -- the carried block is completed, and the rest starts on a block edge.
      obtain ⟨rest, rfl⟩ := Nat.exists_eq_add_of_le
        (show rate.size - partialLen ≤ len by omega)
      rw [Nat.add_sub_cancel_left,
        cryptBlocks_eq_messageRun block_eq partialBlock_eq _ _ _ ranges.back,
        partialBlock_eq _ _ _ _ _ _ (by omega) ranges.front,
        messageRun_add _ _ _ _ _ _ ranges,
        messageRun_of_eq _ _ _ s _ _ _ (show 0 < rate.size - partialLen by omega) (by omega)]
  · rw [cryptBlocks_eq_messageRun block_eq partialBlock_eq _ _ _ ranges,
      show partialLen = 0 by omega]

end

/-! ### The block functions -/

theorem encryptBlock_eq_combine (rate : Rate) (s : AsconState) (mem : Mem) (dest src : Nat)
    (ranges : SameOrApart dest src rate.size) :
    rate.encryptBlock s mem dest src = combine encMix s mem dest src 0 rate.size := by
  cases rate with
  | eight => exact asconEncrypt8_eq_combine s mem dest src rfl (by decide)
  | sixteen => exact asconEncrypt16_eq_combine s mem rfl (by decide) ranges

theorem decryptBlock_eq_combine (rate : Rate) (s : AsconState) (mem : Mem) (dest src : Nat)
    (ranges : SameOrApart dest src rate.size) :
    rate.decryptBlock s mem dest src = combine decMix s mem dest src 0 rate.size := by
  cases rate with
  | eight => exact asconDecrypt8_eq_combine s mem dest src rfl (by decide)
  | sixteen => exact asconDecrypt16_eq_combine s mem rfl (by decide) ranges

end AsconSuite
