/-
Module: AsconSuite.Proofs.MaskedAead
Layer: Proofs
Purpose: The masked AEAD algorithms compute what the unmasked ones compute, for every configuration of key
  shares and data shares, every sharing of the key and every output of the generator.
Imports: AsconSuite.Proofs.MaskedLoops, AsconSuite.Proofs.AeadStream, AsconSuite.Proofs.InputBytes
Trusted boundary: none
Main exports: MaskedKeyOf, maskedKeyOf128, maskedKeyOf160, unmask_maskedAeadInit, maskedAeadFinalize_eq,
  masked_aead_eq_unmasked
-/
import AsconSuite.Proofs.MaskedLoops
import AsconSuite.Proofs.AeadStream
import AsconSuite.Proofs.InputBytes

namespace AsconSuite

open ByteWord ByteMemory RotatedSharing

/-! ### Sharings of a key -/

/-- The number of words in the masked key of an algorithm. -/
def AeadVariant.keyWords : AeadVariant → Nat
  | ascon128 => 2
  | ascon128a => 2
  | ascon80pq => 6

/-- The words behind a masked key. ASCON-80pq has its key aligned to the end of word 2 of the state, and
to the start of word 1. -/
def AeadVariant.keyWord (v : AeadVariant) (k : Mem) (i : Nat) : Word :=
  match v, i with
  | ascon80pq, 2 => firstBytes 4 (k.view 16)
  | ascon80pq, 3 => lastBytes 4 k
  | ascon80pq, 4 => beLoadWord64 (k.view 4)
  | ascon80pq, 5 => beLoadWord64 (k.view 12)
  | _, 0 => beLoadWord64 k
  | _, _ => beLoadWord64 (k.view 8)

/-- A sharing of the key at `k` with `n` shares. -/
structure MaskedKeyOf (n : Nat) (v : AeadVariant) (k : Mem) where
  words : MaskedKey
  sharing : ∀ i < v.keyWords, unmaskWord n (words i) = v.keyWord k i

section

variable {n : Nat} (some_share : 0 < n) (small : n ≤ 6)

include some_share small

/-- `load_32` shares out the word of the two halves. -/
theorem unmaskWord_maskedWordLoad32 (data1 data2 : Mem) (trng : Trng) :
    unmaskWord n (maskedWordLoad32 n data1 data2 trng).1 =
      ((beLoadWord32 data1).setWidth 64 <<< 32) ^^^ (beLoadWord32 data2).setWidth 64 := by
  rw [maskedWordLoad32, unmaskWord_addFirst some_share small, unmaskWord_addFirst some_share small,
    unmaskWord_randomShares some_share small]
  exact congrArg (· ^^^ _) BitVec.zero_xor

end

theorem byteOf_shiftLeft (x : Word) {size j : Nat} (hj : j < 8) :
    byteOf (x <<< (8 * size)) j = if j + size < 8 then byteOf x (j + size) else 0 := by
  apply BitVec.eq_of_getLsbD_eq
  intro i hi
  rw [byteOf, BitVec.getLsbD_extractLsb', BitVec.getLsbD_shiftLeft, decide_eq_true hi, Bool.true_and,
    decide_eq_true (show 8 * (7 - j) + i < 64 by omega), Bool.true_and]
  by_cases inside : j + size < 8
  · rw [if_pos inside, byteOf, BitVec.getLsbD_extractLsb', decide_eq_true hi, Bool.true_and,
      decide_eq_false (by omega), Bool.not_false, Bool.true_and,
      show 8 * (7 - j) + i - 8 * size = 8 * (7 - (j + size)) + i by omega]
  · rw [if_neg inside, decide_eq_true (by omega), Bool.not_true, Bool.false_and]
    exact BitVec.getLsbD_zero.symm

/-- Four bytes moved to the front of a word. -/
theorem shiftLeft_lastBytes (data : Mem) : lastBytes 4 data <<< 32 = firstBytes 4 data := by
  refine byteOf_ext fun j hj => ?_
  rw [show 32 = 8 * 4 by rfl, byteOf_shiftLeft _ hj, byteOf_firstBytes _ _ hj]
  by_cases inFront : j < 4
  · rw [if_pos (by omega), if_pos inFront, byteOf_lastBytes _ _ (by omega), if_pos (by omega),
      show j + 4 - (8 - 4) = j by omega]
  · rw [if_neg (by omega), if_neg inFront]

/-- `ascon_masked_key_128_init` makes a sharing of the key. -/
def maskedKeyOf128 {n : Nat} (some_share : 0 < n) (small : n ≤ 6) (v : AeadVariant)
    (plain : v = .ascon128 ∨ v = .ascon128a) (k : Mem) (trng : Trng) : MaskedKeyOf n v k where
  words := asconMaskedKey128Init n k trng
  sharing := by
    intro i hi
    have first := unmaskWord_maskedWordLoad some_share small k trng
    have second := unmaskWord_maskedWordLoad some_share small (k.view 8) (maskedWordLoad n k trng).2
    rcases plain with rfl | rfl <;> rcases i with _ | _ | i
    · exact first
    · exact second
    · exact absurd hi (by rw [AeadVariant.keyWords]; omega)
    · exact first
    · exact second
    · exact absurd hi (by rw [AeadVariant.keyWords]; omega)

/-- `ascon_masked_key_160_init` makes a sharing of the key. -/
def maskedKeyOf160 {n : Nat} (some_share : 0 < n) (small : n ≤ 6) (k : Mem) (trng : Trng) :
    MaskedKeyOf n .ascon80pq k where
  words := asconMaskedKey160Init n k trng
  sharing := by
    have zeroes : lastBytes 4 (fun _ => (0 : Byte)) = 0#64 := by decide
    have word (data : Mem) (trng : Trng) := unmaskWord_maskedWordLoad some_share small data trng
    have front (trng : Trng) := unmaskWord_maskedWordLoad32 some_share small (k.view 16) (fun _ => 0) trng
    have back (trng : Trng) := unmaskWord_maskedWordLoad32 some_share small (fun _ => 0) k trng
    simp only [lastBytes_four, zeroes, shiftLeft_lastBytes, BitVec.xor_zero] at front
    simp only [lastBytes_four, zeroes, BitVec.zero_shiftLeft, BitVec.zero_xor] at back
    intro i hi
    rcases i with _ | _ | _ | _ | _ | _ | i
    · exact word _ _
    · exact word _ _
    · exact front _
    · exact back _
    · exact word _ _
    · exact word _ _
    · exact absurd hi (by rw [AeadVariant.keyWords]; omega)

/-! ### Initialization -/

/-- Words loaded one after the other from the bytes of a row. -/
theorem words_loadedBytes (iv : Mem) {ivSize : Nat} (le : ivSize ≤ 8) (k npub : Mem) :
    beLoadWord64 ((loadedBytes iv ivSize k npub).view 8) = beLoadWord64 (k.view (8 - ivSize)) ∧
      beLoadWord64 ((loadedBytes iv ivSize k npub).view 16) = beLoadWord64 (k.view (16 - ivSize)) ∧
      beLoadWord64 ((loadedBytes iv ivSize k npub).view 24) = beLoadWord64 npub ∧
      beLoadWord64 ((loadedBytes iv ivSize k npub).view 32) = beLoadWord64 (npub.view 8) := by
  refine ⟨?_, ?_, ?_, ?_⟩
  · refine beLoadWord64_congr fun i hi => ?_
    rw [view_apply, view_apply, loadedBytes, if_neg (by omega), if_pos (by omega)]
    congr 1
    omega
  · refine beLoadWord64_congr fun i hi => ?_
    rw [view_apply, view_apply, loadedBytes, if_neg (by omega), if_pos (by omega)]
    congr 1
    omega
  · refine beLoadWord64_congr fun i hi => ?_
    rw [view_apply, loadedBytes, if_neg (by omega), if_neg (by omega), Nat.add_sub_cancel_left]
  · refine beLoadWord64_congr fun i hi => ?_
    rw [view_apply, view_apply, loadedBytes, if_neg (by omega), if_neg (by omega)]
    congr 1
    omega

theorem view_zero (data : Mem) : data.view 0 = data :=
  funext fun i => congrArg data (Nat.zero_add i)

/-- Adding the key in front of the first permutation completes the loaded state. -/
theorem unmask_loadKey {n : Nat} (two_shares : 2 ≤ n) (four_shares : n ≤ 4) (v : AeadVariant)
    {k : Mem} (mk : MaskedKeyOf n v k) (run : MaskedRun) (npub : Mem)
    (zeroes : run.unmask n = asconInit) :
    ((((run.addData n 0 (tablePtr v.maskedIv)).loadKey n v mk.words).addData n 3 npub).addData n 4
        (npub.view 8)).unmask n = v.load asconInit npub k := by
  have key := mk.sharing
  -- with an initialization vector of eight bytes the key is aligned to the words of the state.
  have aligned (iv : List Byte) :
      (⟨beLoadWord64 (tablePtr iv), beLoadWord64 k, beLoadWord64 (k.view 8), beLoadWord64 npub,
        beLoadWord64 (npub.view 8)⟩ : AsconState) = wordsOf (loadedBytes (tablePtr iv) 8 k npub) := by
    obtain ⟨w1, w2, w3, w4⟩ := words_loadedBytes (tablePtr iv) (Nat.le_refl 8) k npub
    have w0 : beLoadWord64 (loadedBytes (tablePtr iv) 8 k npub) = beLoadWord64 (tablePtr iv) :=
      beLoadWord64_congr fun i hi => if_pos hi
    rw [wordsOf, w0, w1, w2, w3, w4, Nat.sub_self, view_zero]
  cases v with
  | ascon128 =>
      have k0 : unmaskWord n (mk.words 0) = beLoadWord64 k := key 0 (by decide)
      have k1 : unmaskWord n (mk.words 1) = beLoadWord64 (k.view 8) := key 1 (by decide)
      refine Eq.trans ?_ ((aligned ascon128Iv).trans
        (overwriteAll_eq_wordsOf asconInit _ (show 8 + 16 = 24 by rfl) npub k).symm)
      simp only [MaskedRun.loadKey, unmask_addData two_shares four_shares,
        unmask_addKey two_shares four_shares, zeroes, k0, k1, asconInit, Five.modify, Five.set, Five.get,
        BitVec.ofNat_eq_ofNat, BitVec.zero_xor]
      rfl
  | ascon128a =>
      have k0 : unmaskWord n (mk.words 0) = beLoadWord64 k := key 0 (by decide)
      have k1 : unmaskWord n (mk.words 1) = beLoadWord64 (k.view 8) := key 1 (by decide)
      refine Eq.trans ?_ ((aligned ascon128aIv).trans
        (overwriteAll_eq_wordsOf asconInit _ (show 8 + 16 = 24 by rfl) npub k).symm)
      simp only [MaskedRun.loadKey, unmask_addData two_shares four_shares,
        unmask_addKey two_shares four_shares, zeroes, k0, k1, asconInit, Five.modify, Five.set, Five.get,
        BitVec.ofNat_eq_ofNat, BitVec.zero_xor]
      rfl
  | ascon80pq =>
      have k3 : unmaskWord n (mk.words 3) = lastBytes 4 k := key 3 (by decide)
      have k4 : unmaskWord n (mk.words 4) = beLoadWord64 (k.view 4) := key 4 (by decide)
      have k5 : unmaskWord n (mk.words 5) = beLoadWord64 (k.view 12) := key 5 (by decide)
      obtain ⟨w1, w2, w3, w4⟩ :=
        words_loadedBytes (tablePtr ascon80pqIv) (show 4 ≤ 8 by omega) k npub
      -- the first word is half initialization vector and half key.
      have w0 : beLoadWord64 (loadedBytes (tablePtr ascon80pqIv) 4 k npub) =
          beLoadWord64 (tablePtr (AeadVariant.maskedIv .ascon80pq)) ^^^ lastBytes 4 k := by
        refine byteOf_ext fun j hj => ?_
        rw [byteOf_xor, byteOf_beLoadWord64 _ hj, byteOf_beLoadWord64 _ hj, byteOf_lastBytes _ _ hj,
          loadedBytes]
        by_cases front : j < 4
        · rw [if_pos front, if_neg (by omega), BitVec.ofNat_eq_ofNat, BitVec.xor_zero]
          interval_cases j <;> rfl
        · have rest : tablePtr (AeadVariant.maskedIv .ascon80pq) j = 0#8 := by
            have least : 4 ≤ j := by omega
            interval_cases j <;> rfl
          rw [if_neg front, if_pos (by omega), if_pos (by omega), rest, BitVec.zero_xor]
      refine Eq.trans ?_
        (overwriteAll_eq_wordsOf asconInit _ (show 4 + 20 = 24 by rfl) npub k).symm
      rw [wordsOf, w0, w1, w2, w3, w4]
      simp only [MaskedRun.loadKey, unmask_addData two_shares four_shares,
        unmask_addKey two_shares four_shares, zeroes, k3, k4, k5, asconInit, Five.modify, Five.set,
        Five.get, BitVec.ofNat_eq_ofNat, BitVec.zero_xor]

/-- Adding the end of some data to the end of a word. -/
theorem modify_lastBytes (s : AsconState) {i size : Nat} (hi : i < 5) (le : size ≤ 8) (data : Mem) :
    s.modify i (· ^^^ lastBytes size data) = asconAddBytes s data (8 * i + (8 - size)) size := by
  refine eq_of_byteForOffset_eq fun o ho => ?_
  rw [byteForOffset_modify s _ hi ho, byteForOffset_asconAddBytes s data (by omega) ho, byteOf_xor,
    byteOf_lastBytes _ _ (by omega)]
  by_cases here : o / 8 = i
  · rw [if_pos here, ← here, byteForOffset]
    by_cases inside : 8 - size ≤ o % 8
    · rw [if_pos inside, if_pos (by omega),
        show o - (8 * (o / 8) + (8 - size)) = o % 8 - (8 - size) by omega]
    · rw [if_neg inside, if_neg (by omega), BitVec.ofNat_eq_ofNat, BitVec.xor_zero]
  · rw [if_neg here, if_neg (by omega)]

section

variable {n : Nat} (two_shares : 2 ≤ n) (four_shares : n ≤ 4) (v : AeadVariant) {k : Mem}
  (mk : MaskedKeyOf n v k) (run : MaskedRun)

include two_shares four_shares

theorem unmask_absorbKey :
    (run.absorbKey n v mk.words).unmask n = v.absorbKey (run.unmask n) k := by
  have key := mk.sharing
  cases v with
  | ascon128 =>
      have k0 : unmaskWord n (mk.words 0) = beLoadWord64 k := key 0 (by decide)
      have k1 : unmaskWord n (mk.words 1) = beLoadWord64 (k.view 8) := key 1 (by decide)
      rw [MaskedRun.absorbKey, unmask_addKey two_shares four_shares,
        unmask_addKey two_shares four_shares, k0, k1]
      rfl
  | ascon128a =>
      have k0 : unmaskWord n (mk.words 0) = beLoadWord64 k := key 0 (by decide)
      have k1 : unmaskWord n (mk.words 1) = beLoadWord64 (k.view 8) := key 1 (by decide)
      rw [MaskedRun.absorbKey, unmask_addKey two_shares four_shares,
        unmask_addKey two_shares four_shares, k0, k1]
      rfl
  | ascon80pq =>
      have k3 : unmaskWord n (mk.words 3) = lastBytes 4 k := key 3 (by decide)
      have k4 : unmaskWord n (mk.words 4) = beLoadWord64 (k.view 4) := key 4 (by decide)
      have k5 : unmaskWord n (mk.words 5) = beLoadWord64 (k.view 12) := key 5 (by decide)
      have front := (asconAddBytes_add (run.unmask n) k (show 20 + (4 + 16) ≤ 40 by omega)).symm
      have back := asconAddBytes_add (asconAddBytes (run.unmask n) k 20 4) (k.view 4)
        (show 24 + (8 + 8) ≤ 40 by omega)
      rw [view_view] at back
      rw [MaskedRun.absorbKey, unmask_addKey two_shares four_shares,
        unmask_addKey two_shares four_shares, unmask_addKey two_shares four_shares, k3, k4, k5,
        modify_lastBytes _ (by omega) (by omega), modify_beLoadWord64 _ (by omega),
        modify_beLoadWord64 _ (by omega)]
      exact back.symm.trans front

/-- The masked finalization is the unmasked one. -/
theorem unmask_finalizeKey :
    (run.finalizeKey n v mk.words).unmask n = v.finalize (run.unmask n) k := by
  have key := mk.sharing
  cases v with
  | ascon128 =>
      have k0 : unmaskWord n (mk.words 0) = beLoadWord64 k := key 0 (by decide)
      have k1 : unmaskWord n (mk.words 1) = beLoadWord64 (k.view 8) := key 1 (by decide)
      simp only [MaskedRun.finalizeKey, unmask_addKey two_shares four_shares,
        unmask_permute two_shares four_shares, k0, k1]
      rfl
  | ascon128a =>
      have k0 : unmaskWord n (mk.words 0) = beLoadWord64 k := key 0 (by decide)
      have k1 : unmaskWord n (mk.words 1) = beLoadWord64 (k.view 8) := key 1 (by decide)
      simp only [MaskedRun.finalizeKey, unmask_addKey two_shares four_shares,
        unmask_permute two_shares four_shares, k0, k1]
      rfl
  | ascon80pq =>
      have k0 : unmaskWord n (mk.words 0) = beLoadWord64 k := key 0 (by decide)
      have k1 : unmaskWord n (mk.words 1) = beLoadWord64 (k.view 8) := key 1 (by decide)
      have k2 : unmaskWord n (mk.words 2) = firstBytes 4 (k.view 16) := key 2 (by decide)
      have k4 : unmaskWord n (mk.words 4) = beLoadWord64 (k.view 4) := key 4 (by decide)
      have k5 : unmaskWord n (mk.words 5) = beLoadWord64 (k.view 12) := key 5 (by decide)
      have front := (asconAddBytes_add (run.unmask n) k (show 8 + (8 + 12) ≤ 40 by omega)).symm
      have back := asconAddBytes_add (asconAddBytes (run.unmask n) k 8 8) (k.view 8)
        (show 16 + (8 + 4) ≤ 40 by omega)
      rw [view_view] at back
      have absorbed : asconAbsorbPartial (run.unmask n) k 8 ascon80pqKeySize =
          (((run.unmask n).modify 1 (· ^^^ beLoadWord64 k)).modify 2
            (· ^^^ beLoadWord64 (k.view 8))).modify 3 (· ^^^ firstBytes 4 (k.view 16)) := by
        rw [modify_firstBytes _ (by omega) (by omega), modify_beLoadWord64 _ (by omega),
          modify_beLoadWord64 _ (by omega)]
        exact (back.symm.trans front).symm
      rw [AeadVariant.finalize, absorbed]
      simp only [MaskedRun.finalizeKey, unmask_addKey two_shares four_shares,
        unmask_permute two_shares four_shares, k0, k1, k2, k4, k5]
      rfl

/-- Masked initialization leads to the state in front of the associated data. -/
theorem unmask_maskedAeadInit (npub : Mem) :
    (maskedAeadInit n v run npub mk.words).unmask n =
      v.absorbKey (asconPermute (v.load asconInit npub k) 0) k := by
  have zeroes : unmaskState n maskedStateInit = asconInit := by
    have word : unmaskWord n (fun _ => 0) = 0 := by
      rw [unmaskWord_eq_unmask (by omega)]
      exact (unmask_map (fun _ => 0#64) rfl (fun _ _ => BitVec.xor_self.symm)
        (fun _ r => rotateRight_zero r) fun _ => 0#64)
    rw [unmaskState, maskedStateInit, word]
    rfl
  have randomized (run : MaskedRun) :
      (run.convert (maskedRandomize n maskedStateInit)).unmask n = asconInit :=
    (unmaskState_maskedRandomize (by omega) (by omega) maskedStateInit run.trng).trans zeroes
  rw [maskedAeadInit]
  rw [unmask_absorbKey two_shares four_shares, unmask_permute two_shares four_shares,
    unmask_loadKey two_shares four_shares v mk _ npub (randomized _)]

/-- Masked finalization writes the tag. -/
theorem maskedAeadFinalize_eq (mem : Mem) (tag : Nat) :
    maskedAeadFinalize n v run mk.words mem tag =
      mem.write tag ((tagBuffer (v.finalize (run.unmask n) k)).read 0 asconTagSize) := by
  rw [read_tagBuffer, ← asconSqueeze16_eq_write, ← unmask_finalizeKey two_shares four_shares v mk,
    maskedAeadFinalize, asconSqueeze16]
  simp only [maskedWordStore_eq, ← unmaskState_get]
  rfl

end

/-! ### The payload -/

/-- The plain state of a state with `n` shares. -/
theorem maskedCopyToX1_eq (n : Nat) (src : MaskedState) :
    maskedCopyToX1 n src = unmaskState n src := by
  have copied (dest : AsconState) {i : Nat} (hi : i < 5) :
      asconOverwriteBytes dest (maskedWordStore n (fun _ => 0) 0 (src.get i)) (i * 8) 8 =
        dest.set i (unmaskWord n (src.get i)) := by
    refine eq_of_byteForOffset_eq fun o ho => ?_
    rw [byteForOffset_asconOverwriteBytes _ _ (by omega) ho, maskedWordStore_eq, beStoreWord64,
      byteForOffset, byteForOffset, Five.get_set _ _ hi (by omega)]
    by_cases here : o / 8 = i
    · rw [if_pos here, if_pos (by omega)]
      have stored := write_apply_of_lt (fun _ => 0) 0 (beBytes64 (unmaskWord n (src.get i)))
        (show o - i * 8 < 8 by omega)
      rw [Nat.zero_add, List.getD_eq_getElem?_getD, getElem?_beBytes64 _ (by omega),
        Option.getD_some] at stored
      rw [stored, show o - i * 8 = o % 8 by omega]
    · rw [if_neg here, if_neg (by omega)]
  rw [maskedCopyToX1]
  simp only [copied _ (show 0 < 5 by omega), copied _ (show 1 < 5 by omega),
    copied _ (show 2 < 5 by omega), copied _ (show 3 < 5 by omega), copied _ (show 4 < 5 by omega)]
  rfl

/-- What the payload makes of the state behind the initialization. -/
def plainPayload (mix : Mix Byte Byte Byte) (v : AeadVariant) (s : AsconState) (mem : Mem)
    (dest src len : Nat) (ad : Mem) (adlen : Nat) : AsconState × Mem :=
  paddedRun mix v.rate v.firstRound (asconSeparator (v.absorbData s ad adlen)) mem dest src len

section

variable (cfg : MaskedConfig) (v : AeadVariant) {mix : Mix Byte Byte Byte} (run : MaskedRun)
  (mem : Mem) {dest src len : Nat} (ad : Mem) (adlen : Nat)

/-- The payload with one data share. -/
theorem unmask_maskedPayloadX1
    {crypt : AsconState → Mem → Nat → Nat → Nat → Nat → AsconState × Mem × Nat}
    (crypt_eq : ∀ s, crypt s mem dest src len 0 =
      messageRun mix v.rate v.firstRound s mem dest src len 0) :
    ((maskedPayloadX1 cfg.keyShares v crypt run mem dest src len ad adlen).1.unmask cfg.keyShares,
        (maskedPayloadX1 cfg.keyShares v crypt run mem dest src len ad adlen).2) =
      plainPayload mix v (run.unmask cfg.keyShares) mem dest src len ad adlen := by
  have range := cfg.keyShares_range
  have back (state : AsconState) (trng : Trng) := unmaskState_maskedCopyFromX1
    (show 0 < cfg.keyShares by omega) (by omega) state trng
  rw [maskedPayloadX1, maskedCopyToX1_eq]
  simp only [crypt_eq]
  rw [plainPayload, MaskedRun.unmask, MaskedRun.convert]
  simp only [back]
  rfl

/-- Converting to data shares and back leaves the state behind the shares alone. -/
theorem unmask_copyKeyTo (several : 2 ≤ cfg.dataShares) :
    (run.copyKeyTo cfg.keyShares cfg.dataShares).unmask cfg.dataShares =
      run.unmask cfg.keyShares := by
  obtain ⟨keyShares, dataShares, ⟨keyLeast, keyMost⟩, dataLeast, dataMost⟩ := cfg
  simp only at several ⊢
  interval_cases keyShares <;> interval_cases dataShares
  · rfl
  · exact unmaskState_asconX2CopyFromX3 run.state run.trng
  · rfl
  · exact unmaskState_asconX2CopyFromX4 run.state run.trng
  · exact unmaskState_asconX3CopyFromX4 run.state run.trng
  · rfl

theorem unmask_copyKeyFrom :
    (run.copyKeyFrom cfg.keyShares cfg.dataShares).unmask cfg.keyShares =
      run.unmask cfg.dataShares := by
  have range := cfg.keyShares_range
  have dataRange := cfg.dataShares_range
  rw [MaskedRun.copyKeyFrom]
  split
  · next same =>
      rw [same]
      exact unmaskState_maskedRandomize (by omega) (by omega) run.state run.trng
  · exact unmaskState_maskedCopyWiden (by omega) (by omega) dataRange.2 run.state run.trng

/-- The payload with two data shares or more. -/
theorem unmask_maskedPayload (several : 2 ≤ cfg.dataShares)
    {crypt : MaskedRun → Mem → Nat → Nat → Nat → Nat → MaskedRun × Mem}
    (crypt_eq : ∀ run, ((crypt run mem dest src len v.firstRound).1.unmask cfg.dataShares,
        (crypt run mem dest src len v.firstRound).2) =
      paddedRun mix v.rate v.firstRound (run.unmask cfg.dataShares) mem dest src len) :
    ((maskedPayload cfg.keyShares cfg.dataShares v crypt run mem dest src len ad adlen).1.unmask
          cfg.keyShares,
        (maskedPayload cfg.keyShares cfg.dataShares v crypt run mem dest src len ad adlen).2) =
      plainPayload mix v (run.unmask cfg.keyShares) mem dest src len ad adlen := by
  have few : cfg.dataShares ≤ 4 := by
    have range := cfg.keyShares_range
    have dataRange := cfg.dataShares_range
    omega
  have start_eq := unmask_copyKeyTo cfg run several
  have separated (run : MaskedRun) :
      ({ run with state := run.state.modify 4 maskedWordSeparator } : MaskedRun).unmask
        cfg.dataShares = asconSeparator (run.unmask cfg.dataShares) :=
    unmaskState_modify (fun x => unmaskWord_addFirst (by omega) (by omega) x 1) run.state 4
  rw [maskedPayload, plainPayload]
  generalize run.copyKeyTo cfg.keyShares cfg.dataShares = start at start_eq ⊢
  have absorbed : (if 0 < adlen then maskedAbsorb cfg.dataShares v.rate start ad adlen v.firstRound
      else start).unmask cfg.dataShares = v.absorbData (run.unmask cfg.keyShares) ad adlen := by
    rw [← start_eq]
    split
    · next some_data =>
        rw [unmask_maskedAbsorb several few]
        cases v <;> exact (if_pos some_data).symm
    · next no_data => cases v <;> exact (if_neg no_data).symm
  generalize (if 0 < adlen then maskedAbsorb cfg.dataShares v.rate start ad adlen v.firstRound
    else start) = loaded at absorbed ⊢
  have crypted := crypt_eq { loaded with state := loaded.state.modify 4 maskedWordSeparator }
  rw [separated, absorbed] at crypted
  rw [← crypted]
  simp only [unmask_copyKeyFrom]
  rfl

end

/-! ### The algorithms -/

section

variable (cfg : MaskedConfig) (v : AeadVariant) {k : Mem} (mk : MaskedKeyOf cfg.keyShares v k)
  (locals : MaskedRun) (mem : Mem) (ad : Mem) (adlen : Nat) (npub : Mem)

/-- The masked encrypt functions do what the unmasked ones do to the memory. -/
theorem maskedAeadEncrypt_eq {c m mlen : Nat} (ranges : SameOrApart c m mlen) :
    maskedAeadEncrypt cfg v locals mem c m mlen ad adlen npub mk.words =
      aeadEncrypt v mem c m mlen ad adlen npub k := by
  have range := cfg.keyShares_range
  have dataRange := cfg.dataShares_range
  have start := unmask_maskedAeadInit range.1 range.2 v mk locals npub
  generalize initialized : maskedAeadInit cfg.keyShares v locals npub mk.words = run at start
  have plain : plainPayload encMix v (run.unmask cfg.keyShares) mem c m mlen ad adlen =
      (asconPad (v.encryptMessage (v.start ad adlen npub k) mem c m mlen 0).1
          (v.encryptMessage (v.start ad adlen npub k) mem c m mlen 0).2.2,
        (v.encryptMessage (v.start ad adlen npub k) mem c m mlen 0).2.1) := by
    rw [start, v.encryptMessage_eq_messageRun _ _ v.rate.size_pos ranges]
    rfl
  rw [maskedAeadEncrypt, aeadEncrypt, initialized]
  simp only [maskedAeadFinalize_eq range.1 range.2, v.squeezeTag_eq_write]
  by_cases one : cfg.dataShares = 1
  · obtain ⟨state, memory⟩ := halves_of_mk_eq ((unmask_maskedPayloadX1 cfg v run mem ad adlen
      fun s => v.encryptMessage_eq_messageRun s mem v.rate.size_pos ranges).trans plain)
    rw [if_pos one, state, memory]
  · obtain ⟨state, memory⟩ := halves_of_mk_eq ((unmask_maskedPayload cfg v run mem ad adlen
      (by omega) fun run => unmask_maskedEncrypt (by omega) (by omega) v.rate run mem v.firstRound
        ranges).trans plain)
    rw [if_neg one, state, memory]

/-- The masked decrypt functions do what the unmasked ones do, and return the same result. -/
theorem maskedAeadDecrypt_eq {m c clen : Nat} (ranges : SameOrApart m c (clen - asconTagSize)) :
    maskedAeadDecrypt cfg v locals mem m c clen ad adlen npub mk.words =
      aeadDecrypt v mem m c clen ad adlen npub k := by
  have range := cfg.keyShares_range
  have dataRange := cfg.dataShares_range
  have start := unmask_maskedAeadInit range.1 range.2 v mk locals npub
  generalize initialized : maskedAeadInit cfg.keyShares v locals npub mk.words = run at start
  have plain : plainPayload decMix v (run.unmask cfg.keyShares) mem m c (clen - asconTagSize) ad
      adlen =
      (asconPad (v.decryptMessage (v.start ad adlen npub k) mem m c (clen - asconTagSize) 0).1
          (v.decryptMessage (v.start ad adlen npub k) mem m c (clen - asconTagSize) 0).2.2,
        (v.decryptMessage (v.start ad adlen npub k) mem m c (clen - asconTagSize) 0).2.1) := by
    rw [start, v.decryptMessage_eq_messageRun _ _ v.rate.size_pos ranges]
    rfl
  -- the tag check sees the sixteen bytes of the tag only.
  have check (mem : Mem) (s : AsconState) (tag2 : Mem) :
      asconAeadCheckTag mem m (clen - asconTagSize)
          (Mem.write (fun _ => 0) 0 ((tagBuffer s).read 0 asconTagSize)) tag2 asconTagSize =
        asconAeadCheckTag mem m (clen - asconTagSize) (tagBuffer s) tag2 asconTagSize := by
    rw [asconAeadCheckTag_eq, asconAeadCheckTag_eq]
    have kept : (Mem.write (fun _ => 0) 0 ((tagBuffer s).read 0 asconTagSize)).read 0 asconTagSize =
        (tagBuffer s).read 0 asconTagSize := read_write_same _ _ _
    rw [kept]
  rw [maskedAeadDecrypt, aeadDecrypt, initialized]
  simp only [maskedAeadFinalize_eq range.1 range.2, check]
  by_cases one : cfg.dataShares = 1
  · obtain ⟨state, memory⟩ := halves_of_mk_eq ((unmask_maskedPayloadX1 cfg v run mem ad adlen
      fun s => v.decryptMessage_eq_messageRun s mem v.rate.size_pos ranges).trans plain)
    rw [if_pos one, state, memory]
  · obtain ⟨state, memory⟩ := halves_of_mk_eq ((unmask_maskedPayload cfg v run mem ad adlen
      (by omega) fun run => unmask_maskedDecrypt (by omega) (by omega) v.rate run mem v.firstRound
        ranges).trans plain)
    rw [if_neg one, state, memory]

/-- For every configuration, every sharing of the key and every output of the generator, masked encryption
leaves the memory and the length that unmasked encryption leaves, and masked decryption the memory, the
length and the result of unmasked decryption. -/
theorem masked_aead_eq_unmasked :
    (∀ c m mlen, SameOrApart c m mlen →
      maskedAeadEncrypt cfg v locals mem c m mlen ad adlen npub mk.words =
        aeadEncrypt v mem c m mlen ad adlen npub k) ∧
    (∀ m c clen, SameOrApart m c (clen - asconTagSize) →
      maskedAeadDecrypt cfg v locals mem m c clen ad adlen npub mk.words =
        aeadDecrypt v mem m c clen ad adlen npub k) :=
  ⟨fun _ _ _ ranges => maskedAeadEncrypt_eq cfg v mk locals mem ad adlen npub ranges,
    fun _ _ _ ranges => maskedAeadDecrypt_eq cfg v mk locals mem ad adlen npub ranges⟩

end

/-- The standard configuration on a key shared out by the key setup: five bytes encrypted in place, and a
string of twenty bytes decrypted in place. -/
theorem masked_aead_eq_unmasked_inPlace :
    maskedAeadEncrypt .standard .ascon80pq ⟨maskedStateInit, fun _ => 0, fun _ => 7⟩
          (fun i => BitVec.ofNat 8 i) 0 0 5 (fun _ => 1) 3 (fun _ => 2)
          (maskedKeyOf160 (show 0 < MaskedConfig.standard.keyShares by decide) (by decide)
            (fun i => BitVec.ofNat 8 i) fun _ => 9).words =
        aeadEncrypt .ascon80pq (fun i => BitVec.ofNat 8 i) 0 0 5 (fun _ => 1) 3 (fun _ => 2)
          (fun i => BitVec.ofNat 8 i) ∧
      maskedAeadDecrypt .standard .ascon80pq ⟨maskedStateInit, fun _ => 0, fun _ => 7⟩
          (fun i => BitVec.ofNat 8 i) 0 0 20 (fun _ => 1) 3 (fun _ => 2)
          (maskedKeyOf160 (show 0 < MaskedConfig.standard.keyShares by decide) (by decide)
            (fun i => BitVec.ofNat 8 i) fun _ => 9).words =
        aeadDecrypt .ascon80pq (fun i => BitVec.ofNat 8 i) 0 0 20 (fun _ => 1) 3 (fun _ => 2)
          (fun i => BitVec.ofNat 8 i) := by
  have equal := masked_aead_eq_unmasked .standard .ascon80pq
    (maskedKeyOf160 (show 0 < MaskedConfig.standard.keyShares by decide) (by decide)
      (fun i => BitVec.ofNat 8 i) fun _ => 9)
    ⟨maskedStateInit, fun _ => 0, fun _ => 7⟩ (fun i => BitVec.ofNat 8 i) (fun _ => 1) 3 fun _ => 2
  exact ⟨equal.1 0 0 5 (Or.inl rfl), equal.2 0 0 20 (Or.inl rfl)⟩

end AsconSuite
