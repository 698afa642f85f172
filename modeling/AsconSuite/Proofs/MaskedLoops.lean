/-
Module: AsconSuite.Proofs.MaskedLoops
Layer: Proofs
Purpose: The masked absorb, encrypt and decrypt functions simulate the unmasked ones. Each step of a masked
  run is a step of the state behind its shares, and the loops over blocks and the branches for the end of
  the data carry this to data of any length.
Imports: AsconSuite.Proofs.MaskedBytes, AsconSuite.Proofs.MessageLoops, AsconSuite.Proofs.StateRanges,
  AsconSuite.Aead.Masked
Trusted boundary: none
Main exports: MaskedRun.unmask, unmask_maskedAbsorb, unmask_maskedCrypt, unmask_maskedEncrypt,
  unmask_maskedDecrypt
-/
import AsconSuite.Proofs.MaskedBytes
import AsconSuite.Proofs.MessageLoops
import AsconSuite.Proofs.StateRanges
import AsconSuite.Aead.Masked

namespace AsconSuite

open ByteWord ByteMemory

/-- The state behind the shares of a run. -/
def MaskedRun.unmask (n : Nat) (run : MaskedRun) : AsconState := unmaskState n run.state

/-- The two halves of an equation between pairs. -/
theorem halves_of_mk_eq {α β : Type*} {a : α} {b : β} {p : α × β} (eq : (a, b) = p) :
    a = p.1 ∧ b = p.2 :=
  ⟨congrArg Prod.fst eq, congrArg Prod.snd eq⟩

/-! ### Adding words to a state -/

theorem firstBytes_eight (data : Mem) : firstBytes 8 data = beLoadWord64 data :=
  byteOf_ext fun j hj => by rw [byteOf_firstBytes _ _ hj, if_pos hj, byteOf_beLoadWord64 _ hj]

/-- Adding a word made of some bytes to a word of the state adds the bytes to it. -/
theorem modify_firstBytes (s : AsconState) {i size : Nat} (hi : i < 5) (le : size ≤ 8) (data : Mem) :
    s.modify i (· ^^^ firstBytes size data) = asconAddBytes s data (8 * i) size := by
  refine eq_of_byteForOffset_eq fun o ho => ?_
  rw [byteForOffset_modify s _ hi ho, byteForOffset_asconAddBytes s data (by omega) ho, byteOf_xor,
    byteOf_firstBytes _ _ (by omega)]
  by_cases here : o / 8 = i
  · rw [if_pos here, ← here, byteForOffset]
    by_cases inside : o % 8 < size
    · rw [if_pos inside, if_pos (by omega), show o - 8 * (o / 8) = o % 8 by omega]
    · rw [if_neg inside, if_neg (by omega), BitVec.ofNat_eq_ofNat, BitVec.xor_zero]
  · rw [if_neg here, if_neg (by omega)]

theorem modify_beLoadWord64 (s : AsconState) {i : Nat} (hi : i < 5) (data : Mem) :
    s.modify i (· ^^^ beLoadWord64 data) = asconAddBytes s data (8 * i) 8 := by
  rw [← firstBytes_eight, modify_firstBytes s hi (by omega)]

/-! ### Steps of a run -/

theorem unmaskState_set (n : Nat) (state : MaskedState) (i : Nat) (word : MaskedWord) :
    unmaskState n (state.set i word) = (unmaskState n state).set i (unmaskWord n word) := by
  rcases i with _ | _ | _ | _ | i <;> rfl

/-- What a function does to the word behind the shares, it does to the state behind them. -/
theorem unmaskState_modify {n : Nat} {f : MaskedWord → MaskedWord} {g : Word → Word}
    (word : ∀ x, unmaskWord n (f x) = g (unmaskWord n x)) (state : MaskedState) (i : Nat) :
    unmaskState n (state.modify i f) = (unmaskState n state).modify i g := by
  rw [Five.modify, Five.modify, unmaskState_set, word, unmaskState_get]

section

variable {n : Nat} (two_shares : 2 ≤ n) (four_shares : n ≤ 4) (run : MaskedRun)

include two_shares four_shares

theorem unmask_addData (i : Nat) (data : Mem) :
    (run.addData n i data).unmask n = (run.unmask n).modify i (· ^^^ beLoadWord64 data) :=
  unmaskState_modify (fun x => by
    rw [unmaskWord_maskedWordXor (by omega), unmaskWord_maskedWordLoad (by omega) (by omega)]) _ _

theorem unmask_addPartial (i : Nat) (data : Mem) {len : Nat} (short : len < 8) :
    (run.addPartial n i data len).unmask n = (run.unmask n).modify i (· ^^^ firstBytes len data) :=
  unmaskState_modify (fun x => by
    rw [unmaskWord_maskedWordXor (by omega),
      unmaskWord_maskedWordLoadPartial (by omega) (by omega) two_shares data short]) _ _

theorem unmask_addKey (i : Nat) (word : MaskedWord) :
    (run.addKey n i word).unmask n = (run.unmask n).modify i (· ^^^ unmaskWord n word) :=
  unmaskState_modify (fun x => unmaskWord_maskedWordXor (by omega) x word) _ _

theorem unmask_permute (firstRound : Nat) :
    (run.permute n firstRound).unmask n = asconPermute (run.unmask n) firstRound := by
  have which : n = 2 ∨ n = 3 ∨ n = 4 := by omega
  rcases which with rfl | rfl | rfl
  · exact unmaskState_maskedPermute (by omega) (by omega) unmaskWord_andNotXorX2 _ _ _
  · exact unmaskState_maskedPermute (by omega) (by omega) unmaskWord_andNotXorX3 _ _ _
  · exact unmaskState_maskedPermute (by omega) (by omega) unmaskWord_andNotXorX4 _ _ _

theorem unmask_pad (i : Nat) {offset : Nat} (short : offset < 8) :
    (run.pad i offset).unmask n = asconPad (run.unmask n) (8 * i + offset) := by
  rw [asconPad, show (8 * i + offset) / 8 = i by omega, show (8 * i + offset) % 8 = offset by omega]
  exact unmaskState_modify (fun x => unmaskWord_addFirst (by omega) (by omega) x _) _ _

/-- A word that a decryption adds the ciphertext to. -/
theorem unmaskWord_addData {i : Nat} (hi : i < 5) (data : Mem) :
    unmaskWord n ((run.addData n i data).state.get i) =
      (run.unmask n).get i ^^^ beLoadWord64 data := by
  rw [← unmaskState_get]
  have word := congrArg (Five.get · i) (unmask_addData two_shares four_shares run i data)
  rw [Five.get_modify _ _ hi hi, if_pos rfl] at word
  exact word

theorem unmaskWord_addPartial {i : Nat} (hi : i < 5) (data : Mem) {len : Nat} (short : len < 8) :
    unmaskWord n ((run.addPartial n i data len).state.get i) =
      (run.unmask n).get i ^^^ firstBytes len data := by
  rw [← unmaskState_get]
  have word := congrArg (Five.get · i) (unmask_addPartial two_shares four_shares run i data short)
  rw [Five.get_modify _ _ hi hi, if_pos rfl] at word
  exact word

/-- A word is decrypted as `ascon_decrypt_8` decrypts it. -/
theorem unmask_decryptWord {i : Nat} (hi : i < 5) (mem : Mem) (dest src : Nat) :
    ((run.decryptWord n i mem dest src).1.unmask n, (run.decryptWord n i mem dest src).2) =
      asconDecrypt8 (run.unmask n) mem dest src (8 * i) := by
  have loaded := unmaskWord_maskedWordLoad (show 0 < n by omega) (by omega) (mem.view src) run.trng
  have again (s : MaskedState) (x y : MaskedWord) : (s.set i x).set i y = s.set i y := by
    rcases i with _ | _ | _ | _ | i <;> rfl
  have state : (run.decryptWord n i mem dest src).1.unmask n =
      (run.unmask n).set i (beLoadWord64 (mem.view src)) := by
    rw [← loaded, MaskedRun.unmask, MaskedRun.unmask, MaskedRun.decryptWord, ← unmaskState_set]
    simp only [Five.modify, again]
  have output : (run.decryptWord n i mem dest src).2 =
      beStoreWord64 mem dest (beLoadWord64 (mem.view src) ^^^ (run.unmask n).get i) := by
    rw [BitVec.xor_comm, ← unmaskWord_addData two_shares four_shares run hi, ← maskedWordStore_eq]
    rfl
  rw [asconDecrypt8, show 8 * i / 8 = i by omega, state, output]

/-! ### The end of the data -/

/-- The last bytes of a plaintext are combined with the state as any bytes are. -/
theorem unmask_maskedEncryptTail {i : Nat} (hi : i < 5) (mem : Mem) (dest src : Nat) {len : Nat}
    (short : len < 8) :
    ((maskedEncryptTail n run i mem dest src len).1.unmask n,
        (maskedEncryptTail n run i mem dest src len).2) =
      combine encMix (run.unmask n) mem dest src (8 * i) len := by
  have tail : ((maskedEncryptTail n run i mem dest src len).1.unmask n,
      (maskedEncryptTail n run i mem dest src len).2) =
      (asconAddBytes (run.unmask n) (mem.view src) (8 * i) len,
        mem.write dest (Mem.read (byteOf ((run.unmask n).get i ^^^ firstBytes len (mem.view src))) 0
          len)) := by
    rw [maskedEncryptTail]
    split
    · simp only
      rw [unmask_addPartial two_shares four_shares run i _ short, modify_firstBytes _ hi short.le,
        maskedWordStorePartial_eq_write _ _ _ short,
        unmaskWord_addPartial two_shares four_shares run hi _ short]
    · obtain rfl : len = 0 := by omega
      rw [asconAddBytes, read_zero, write_nil]
  have added (j : Nat) (hj : j < len) :
      byteForOffset (asconAddBytes (run.unmask n) (mem.view src) (8 * i) len) (8 * i + j) =
        byteForOffset (run.unmask n) (8 * i + j) ^^^ mem (src + j) := by
    rw [byteForOffset_asconAddBytes _ _ (by omega) (by omega), if_pos (by omega), view_apply,
      Nat.add_sub_cancel_left]
  rw [tail]
  refine eq_combine (by omega) added ?_ (length_read _ _ _) ?_
  · intro k hk away
    rw [byteForOffset_asconAddBytes _ _ (by omega) hk, if_neg (by omega)]
  · intro j hj
    rw [getElem?_read, if_pos hj, byteOf_xor, byteOf_firstBytes _ _ (by omega), if_pos (by omega),
      Nat.zero_add, view_apply, byteForOffset, show (8 * i + j) / 8 = i by omega,
      show (8 * i + j) % 8 = j by omega]
    rfl

/-- So are the last bytes of a ciphertext. -/
theorem unmask_maskedDecryptTail {i : Nat} (hi : i < 5) (mem : Mem) (dest src : Nat) {len : Nat}
    (short : len < 8) :
    ((maskedDecryptTail n run i mem dest src len).1.unmask n,
        (maskedDecryptTail n run i mem dest src len).2) =
      combine decMix (run.unmask n) mem dest src (8 * i) len := by
  by_cases some_bytes : 0 < len
  · have written : (maskedDecryptTail n run i mem dest src len).2 = mem.write dest
        (Mem.read (byteOf ((run.unmask n).get i ^^^ firstBytes len (mem.view src))) 0 len) := by
      rw [maskedDecryptTail, if_pos some_bytes,
        ← unmaskWord_addPartial two_shares four_shares run hi _ short,
        ← maskedWordStorePartial_eq_write _ _ _ short]
      rfl
    have loaded := unmaskWord_maskedWordLoadPartial (show 0 < n by omega) (by omega) two_shares
      (mem.view src) short run.trng
    -- the bytes of the ciphertext take the place of those they were added to.
    have replaced {k : Nat} (hk : k < 40) :
        byteForOffset ((maskedDecryptTail n run i mem dest src len).1.unmask n) k =
          if k / 8 = i ∧ k % 8 < len then mem (src + k % 8) else byteForOffset (run.unmask n) k := by
      rw [maskedDecryptTail, if_pos some_bytes, byteForOffset, MaskedRun.unmask, unmaskState_get]
      have whole := Five.get_modify (run.addPartial n i (mem.view src) len).state
        (maskedWordReplace n · (maskedWordLoadPartial n (mem.view src) len run.trng).1 len) hi
        (show k / 8 < 5 by omega)
      have word := congrArg (unmaskWord n) whole
      refine (congrArg (byteOf · (k % 8)) word).trans ?_
      by_cases here : k / 8 = i
      · rw [if_pos here, byteOf_maskedWordReplace (by omega) _ _ _ (by omega), loaded,
          unmaskWord_addPartial two_shares four_shares run hi _ short, byteOf_xor,
          byteOf_firstBytes _ _ (by omega)]
        by_cases inside : k % 8 < len
        · rw [if_pos inside, if_pos inside, if_pos ⟨here, inside⟩, view_apply]
        · rw [if_neg inside, if_neg inside, if_neg (fun both => inside both.2), byteForOffset, here,
            BitVec.ofNat_eq_ofNat, BitVec.xor_zero]
      · rw [if_neg here, if_neg (fun both => here both.1), ← unmaskState_get]
        have elsewhere := congrArg (Five.get · (k / 8))
          (unmask_addPartial two_shares four_shares run i (mem.view src) short)
        rw [Five.get_modify _ _ hi (by omega), if_neg here] at elsewhere
        rw [byteForOffset, ← elsewhere]
        rfl
    rw [written]
    refine eq_combine (by omega) ?_ ?_ (length_read _ _ _) ?_
    · intro j hj
      rw [replaced (by omega), if_pos (by omega), show (8 * i + j) % 8 = j by omega]
      rfl
    · intro k hk away
      rw [replaced hk, if_neg (by omega)]
    · intro j hj
      rw [getElem?_read, if_pos hj, byteOf_xor, byteOf_firstBytes _ _ (by omega), if_pos (by omega),
        Nat.zero_add, view_apply, byteForOffset, show (8 * i + j) / 8 = i by omega,
        show (8 * i + j) % 8 = j by omega, BitVec.xor_comm]
      rfl
  · obtain rfl : len = 0 := by omega
    rw [maskedDecryptTail, if_neg some_bytes, combine, read_zero, Cells.fill_nil, write_nil]

/-! ### Full blocks -/

theorem unmask_maskedAbsorbBlock (rate : Rate) (firstRound : Nat) (data : Mem) :
    (maskedAbsorbBlock n rate firstRound run data).unmask n =
      asconPermute (rate.absorbBlock (run.unmask n) data) firstRound := by
  cases rate with
  | eight =>
      rw [maskedAbsorbBlock, unmask_permute two_shares four_shares,
        unmask_addData two_shares four_shares]
      rfl
  | sixteen =>
      rw [maskedAbsorbBlock, unmask_permute two_shares four_shares,
        unmask_addData two_shares four_shares, unmask_addData two_shares four_shares]
      rfl

theorem unmask_maskedEncryptBlock (rate : Rate) (mem : Mem) (dest src : Nat)
    (ranges : SameOrApart dest src rate.size) :
    ((maskedEncryptBlock n rate run mem dest src).1.unmask n,
        (maskedEncryptBlock n rate run mem dest src).2) =
      combine encMix (run.unmask n) mem dest src 0 rate.size := by
  rw [← encryptBlock_eq_combine rate _ _ _ _ ranges]
  cases rate with
  | eight =>
      simp only [maskedEncryptBlock, Rate.encryptBlock, asconEncrypt8, maskedWordStore_eq,
        ← unmaskState_get]
      rw [← MaskedRun.unmask, unmask_addData two_shares four_shares]
  | sixteen =>
      simp only [maskedEncryptBlock, Rate.encryptBlock, asconEncrypt16, maskedWordStore_eq,
        ← unmaskState_get]
      rw [← MaskedRun.unmask, unmask_addData two_shares four_shares,
        unmask_addData two_shares four_shares]

theorem unmask_maskedDecryptBlock (rate : Rate) (mem : Mem) (dest src : Nat)
    (ranges : SameOrApart dest src rate.size) :
    ((maskedDecryptBlock n rate run mem dest src).1.unmask n,
        (maskedDecryptBlock n rate run mem dest src).2) =
      combine decMix (run.unmask n) mem dest src 0 rate.size := by
  rw [← decryptBlock_eq_combine rate _ _ _ _ ranges]
  cases rate with
  | eight => exact unmask_decryptWord two_shares four_shares run (show 0 < 5 by omega) mem dest src
  | sixteen =>
      obtain ⟨state, memory⟩ := halves_of_mk_eq
        (unmask_decryptWord two_shares four_shares run (show 0 < 5 by omega) mem dest src)
      have second := unmask_decryptWord two_shares four_shares (run.decryptWord n 0 mem dest src).1
        (show 1 < 5 by omega) (run.decryptWord n 0 mem dest src).2 (dest + 8) (src + 8)
      refine second.trans ?_
      rw [state, memory]
      rfl

/-! ### Data of any length -/

/-- Absorption of data that does not fill a word. -/
theorem unmask_maskedAbsorbTail {i : Nat} (hi : i < 5) (data : Mem) {len : Nat} (short : len < 8) :
    (maskedAbsorbTail n run i data len).unmask n =
      asconPad (asconAddBytes (run.unmask n) data (8 * i) len) (8 * i + len) := by
  rw [maskedAbsorbTail, unmask_pad two_shares four_shares _ _ short]
  split
  · rw [unmask_addPartial two_shares four_shares _ _ _ short, modify_firstBytes _ hi short.le]
  · obtain rfl : len = 0 := by omega
    rfl

/-- Masked absorption is absorption with a permutation at the end. -/
theorem unmask_maskedAbsorb (rate : Rate) (data : Mem) (len firstRound : Nat) :
    (maskedAbsorb n rate run data len firstRound).unmask n =
      aeadAbsorb rate (run.unmask n) data len firstRound true := by
  have positive := rate.size_pos
  induction len using Nat.strongRecOn generalizing run data with
  | ind len ih =>
    rcases Nat.lt_or_ge len rate.size with short | long
    · have plain : (if 0 < len then asconAbsorbPartial (run.unmask n) data 0 len else run.unmask n) =
          asconAddBytes (run.unmask n) data 0 len := by
        split
        · rfl
        · obtain rfl : len = 0 := by omega
          rfl
      rw [maskedAbsorb, absorbLoop, if_neg (by omega), aeadAbsorb_of_lt _ _ _ _ _ short, plain]
      simp only
      rw [unmask_permute two_shares four_shares, if_pos trivial]
      congr 1
      split
      · next second =>
          -- the first word is filled by a whole load, and the rest goes to the second word.
          obtain ⟨rest, rfl⟩ := Nat.exists_eq_add_of_le second.2
          rw [second.1] at short
          have small : rest < 8 := by
            have size : Rate.sixteen.size = 16 := rfl
            omega
          rw [Nat.add_sub_cancel_left,
            unmask_maskedAbsorbTail two_shares four_shares _ (by omega) _ small,
            unmask_addData two_shares four_shares, modify_beLoadWord64 _ (by omega)]
          exact congrArg (asconPad · (8 + rest))
            (asconAddBytes_add (run.unmask n) data (show 0 + (8 + rest) ≤ 40 by omega)).symm
      · next first =>
          have small : len < 8 := by
            cases rate with
            | eight => exact short
            | sixteen =>
                rw [not_and] at first
                exact Nat.lt_of_not_le (first rfl)
          rw [unmask_maskedAbsorbTail two_shares four_shares _ (by omega) _ small]
          simp only [Nat.mul_zero, Nat.zero_add]
    · have step : maskedAbsorb n rate run data len firstRound =
          maskedAbsorb n rate (maskedAbsorbBlock n rate firstRound run data) (data.view rate.size)
            (len - rate.size) firstRound := by
        rw [maskedAbsorb, absorbLoop, if_pos ⟨positive, long⟩]
        rfl
      rw [step, ih (len - rate.size) (by omega), unmask_maskedAbsorbBlock two_shares four_shares,
        aeadAbsorb_of_le _ _ _ _ _ long]

end

section

variable {n : Nat} (two_shares : 2 ≤ n) (four_shares : n ≤ 4)
  {mix : Mix Byte Byte Byte} {rate : Rate} (firstRound : Nat)
  {block : Rate → MaskedRun → Mem → Nat → Nat → MaskedRun × Mem}
  {tail : MaskedRun → Nat → Mem → Nat → Nat → Nat → MaskedRun × Mem}
  (block_eq : ∀ (run : MaskedRun) (rate : Rate) mem dest src, SameOrApart dest src rate.size →
    ((block rate run mem dest src).1.unmask n, (block rate run mem dest src).2) =
      combine mix (run.unmask n) mem dest src 0 rate.size)
  (tail_eq : ∀ (run : MaskedRun) (i : Nat) mem dest src len, i < 5 → len < 8 →
    ((tail run i mem dest src len).1.unmask n, (tail run i mem dest src len).2) =
      combine mix (run.unmask n) mem dest src (8 * i) len)

/-- A run over a message from the start of a block, with the padding behind it. -/
def paddedRun (mix : Mix Byte Byte Byte) (rate : Rate) (firstRound : Nat) (s : AsconState) (mem : Mem)
    (dest src len : Nat) : AsconState × Mem :=
  let done := messageRun mix rate firstRound s mem dest src len 0
  (asconPad done.1 done.2.2, done.2.1)

theorem maskedCrypt_of_le (run : MaskedRun) (mem : Mem) (dest src : Nat) {len : Nat}
    (long : rate.size ≤ len) :
    maskedCrypt n rate block tail run mem dest src len firstRound =
      maskedCrypt n rate block tail ((block rate run mem dest src).1.permute n firstRound)
        (block rate run mem dest src).2 (dest + rate.size) (src + rate.size) (len - rate.size)
        firstRound := by
  rw [maskedCrypt, blockLoop_of_le rate.size_pos _ long]
  rfl

include two_shares four_shares block_eq tail_eq

/-- A remainder of less than a block is combined with the state and padded. -/
theorem unmask_maskedCrypt_of_lt (run : MaskedRun) (mem : Mem) {dest src len : Nat}
    (short : len < rate.size) (ranges : SameOrApart dest src len) :
    ((maskedCrypt n rate block tail run mem dest src len firstRound).1.unmask n,
        (maskedCrypt n rate block tail run mem dest src len firstRound).2) =
      (asconPad (combine mix (run.unmask n) mem dest src 0 len).1 len,
        (combine mix (run.unmask n) mem dest src 0 len).2) := by
  rw [maskedCrypt, blockLoop_of_lt _ short]
  simp only
  split
  · next second =>
      -- the first word is a block of the rate of eight, and the rest goes to the second word.
      obtain ⟨rest, rfl⟩ := Nat.exists_eq_add_of_le second.2
      have small : rest < 8 := by
        rw [second.1] at short
        have size : Rate.sixteen.size = 16 := rfl
        omega
      obtain ⟨state, memory⟩ := halves_of_mk_eq (block_eq run .eight mem dest src ranges.front)
      obtain ⟨lastState, lastMemory⟩ := halves_of_mk_eq
        (tail_eq (block .eight run mem dest src).1 1 (block .eight run mem dest src).2 (dest + 8)
          (src + 8) rest (by omega) small)
      have joined := combine_add mix (run.unmask n) mem 0 ranges
      rw [Nat.add_sub_cancel_left, unmask_pad two_shares four_shares _ _ small, joined, lastState,
        lastMemory, state, memory]
      rfl
  · next first =>
      have small : len < 8 := by
        cases rate with
        | eight => exact short
        | sixteen =>
            rw [not_and] at first
            exact Nat.lt_of_not_le (first rfl)
      obtain ⟨state, memory⟩ := halves_of_mk_eq (tail_eq run 0 mem dest src len (by omega) small)
      rw [unmask_pad two_shares four_shares _ _ small, state, memory, Nat.mul_zero, Nat.zero_add]

/-- The masked loops are the run of the duplex over the message, with the padding behind it. -/
theorem unmask_maskedCrypt (run : MaskedRun) (mem : Mem) {dest src len : Nat}
    (ranges : SameOrApart dest src len) :
    ((maskedCrypt n rate block tail run mem dest src len firstRound).1.unmask n,
        (maskedCrypt n rate block tail run mem dest src len firstRound).2) =
      paddedRun mix rate firstRound (run.unmask n) mem dest src len := by
  have positive := rate.size_pos
  induction len using Nat.strongRecOn generalizing run mem dest src with
  | ind len ih =>
    rcases Nat.lt_or_ge len rate.size with short | long
    · rw [unmask_maskedCrypt_of_lt two_shares four_shares firstRound block_eq tail_eq run mem short
        ranges, paddedRun, messageRun_of_lt _ _ _ _ _ _ _ (by omega), Nat.zero_add]
    · obtain ⟨rest, rfl⟩ := Nat.exists_eq_add_of_le long
      obtain ⟨state, memory⟩ := halves_of_mk_eq (block_eq run rate mem dest src ranges.front)
      rw [maskedCrypt_of_le _ _ _ _ _ long, Nat.add_sub_cancel_left,
        ih rest (by omega) _ _ ranges.back, unmask_permute two_shares four_shares, state, memory,
        paddedRun, paddedRun, messageRun_add _ _ _ _ _ _ ranges, messageRun_of_eq _ _ _ _ _ _ _ positive (by omega)]

end

/-- `ascon_masked_aead_encrypt_8` and `ascon_masked_aead_encrypt_16`. -/
theorem unmask_maskedEncrypt {n : Nat} (two_shares : 2 ≤ n) (four_shares : n ≤ 4) (rate : Rate)
    (run : MaskedRun) (mem : Mem) {dest src len : Nat} (firstRound : Nat)
    (ranges : SameOrApart dest src len) :
    ((maskedEncrypt n rate run mem dest src len firstRound).1.unmask n,
        (maskedEncrypt n rate run mem dest src len firstRound).2) =
      paddedRun encMix rate firstRound (run.unmask n) mem dest src len :=
  unmask_maskedCrypt two_shares four_shares firstRound
    (unmask_maskedEncryptBlock two_shares four_shares)
    (fun run _ mem dest src _ hi short =>
      unmask_maskedEncryptTail two_shares four_shares run hi mem dest src short) run mem ranges

/-- `ascon_masked_aead_decrypt_8` and `ascon_masked_aead_decrypt_16`. -/
theorem unmask_maskedDecrypt {n : Nat} (two_shares : 2 ≤ n) (four_shares : n ≤ 4) (rate : Rate)
    (run : MaskedRun) (mem : Mem) {dest src len : Nat} (firstRound : Nat)
    (ranges : SameOrApart dest src len) :
    ((maskedDecrypt n rate run mem dest src len firstRound).1.unmask n,
        (maskedDecrypt n rate run mem dest src len firstRound).2) =
      paddedRun decMix rate firstRound (run.unmask n) mem dest src len :=
  unmask_maskedCrypt two_shares four_shares firstRound
    (unmask_maskedDecryptBlock two_shares four_shares)
    (fun run _ mem dest src _ hi short =>
      unmask_maskedDecryptTail two_shares four_shares run hi mem dest src short) run mem ranges

end AsconSuite
