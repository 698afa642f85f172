/-
Module: AsconSuite.Proofs.MaskedWords
Layer: Proofs
Purpose: Every masked word function of the three backends does, to the word behind the shares, what the
  plain function does. What is written back after a load are the bytes that were loaded.
Imports: AsconSuite.Masking.Backends, AsconSuite.Proofs.MaskedWordC32, AsconSuite.Proofs.MaskedWordDirect
Trusted boundary: none
Main exports: CommutesWithUnmasking, RoundTrips, CommutesWithUnmasking.roundTrips,
  masked_words_commute_with_unmasking
-/
import AsconSuite.Masking.Backends
import AsconSuite.Proofs.MaskedWordC32
import AsconSuite.Proofs.MaskedWordDirect

namespace AsconSuite

open ByteWord ByteMemory RotatedSharing

/-! ### What masked words should do -/

/-- The numbers of shares the library is written for. -/
def ShareCount (n : Nat) : Prop := 2 ≤ n ∧ n ≤ 4

/-- A word whose first `size` bytes are taken from another one. -/
def replaceFirst (size : Nat) (dest src : Word) : Word :=
  beLoadWord64 fun j => if j < size then byteOf src j else byteOf dest j

/-- The conversion from `m` shares to `n` shares keeps the word behind the shares. -/
def KeepsWord {μ : Type} (words : MaskedWords μ) (unmask : Nat → μ → Word) (n m : Nat) : Prop :=
  ∀ src trng, unmask n (words.convert n m src trng).1 = unmask m src

/-- Each function yields a sharing of what the plain function yields on the words behind its operands. -/
structure CommutesWithUnmasking {μ : Type} (words : MaskedWords μ) (unmask : Nat → μ → Word) : Prop where
  zero : ∀ {n}, ShareCount n → ∀ trng, unmask n (words.zero n trng).1 = 0#64
  load : ∀ {n}, ShareCount n → ∀ data trng, unmask n (words.load n data trng).1 = beLoadWord64 data
  loadPartial : ∀ {n}, ShareCount n → ∀ data {size}, size < 8 → ∀ trng,
    unmask n (words.loadPartial n data size trng).1 = firstBytes size data
  load32 : ∀ {n}, ShareCount n → ∀ data1 data2 trng,
    unmask n (words.load32 n data1 data2 trng).1 =
      ((beLoadWord32 data1).setWidth 64 <<< 32) ||| (beLoadWord32 data2).setWidth 64
  store : ∀ {n}, ShareCount n → ∀ mem data word,
    words.store n mem data word = beStoreWord64 mem data (unmask n word)
  storePartial : ∀ {n}, ShareCount n → ∀ mem data {size}, size < 8 → ∀ word,
    words.storePartial n mem data size word = mem.write data ((beBytes64 (unmask n word)).take size)
  randomize : ∀ {n}, ShareCount n → ∀ src trng,
    unmask n (words.randomize n src trng).1 = unmask n src
  xor : ∀ {n}, ShareCount n → ∀ dest src,
    unmask n (words.xor n dest src) = unmask n dest ^^^ unmask n src
  replace : ∀ {n}, ShareCount n → ∀ dest src {size}, size < 8 →
    unmask n (words.replace n dest src size) = replaceFirst size (unmask n dest) (unmask n src)
  convert : ∀ {n m}, ShareCount n → ShareCount m → n ≠ m → KeepsWord words unmask n m
  pad : ∀ {n}, ShareCount n → ∀ word {offset}, offset < 8 →
    unmask n (words.pad word offset) = unmask n word ^^^ 0x8000000000000000#64 >>> (offset * 8)
  separator : ∀ {n}, ShareCount n → ∀ word, unmask n (words.separator word) = unmask n word ^^^ 1#64

/-- Storing what was loaded writes the bytes that were loaded. -/
structure RoundTrips {μ : Type} (words : MaskedWords μ) : Prop where
  store_load : ∀ {n}, ShareCount n → ∀ mem p data trng,
    words.store n mem p (words.load n data trng).1 = mem.write p (data.read 0 8)
  storePartial_loadPartial : ∀ {n}, ShareCount n → ∀ mem p data {size}, size < 8 → ∀ trng,
    words.storePartial n mem p size (words.loadPartial n data size trng).1 =
      mem.write p (data.read 0 size)

theorem CommutesWithUnmasking.roundTrips {μ : Type} {words : MaskedWords μ} {unmask : Nat → μ → Word}
    (commutes : CommutesWithUnmasking words unmask) : RoundTrips words where
  store_load := fun shares mem p data trng => by
    have loaded := beBytes64_beLoadWord64 data 0
    rw [view_zero] at loaded
    rw [commutes.store shares, commutes.load shares, beStoreWord64, loaded]
  storePartial_loadPartial := fun shares mem p data size short trng => by
    rw [commutes.storePartial shares mem p short, commutes.loadPartial shares data short,
      beBytes64_eq_read, take_read _ _ (by omega)]
    congr 1
    refine read_congr fun i hi => ?_
    rw [byteOf_firstBytes _ _ (by omega), if_pos (by omega)]

/-! ### The word functions of each backend -/

section

variable {n size : Nat}

theorem take_beBytes64 (x : Word) (short : size < 8) :
    (beBytes64 x).take size = Mem.read (byteOf x) 0 size := by
  rw [beBytes64_eq_read, take_read _ _ (by omega)]

theorem replaceFirst_eq (dest src : Word) (size : Nat) :
    (dest &&& (~~~0#64) >>> (size * 8)) ^^^ (src &&& ~~~((~~~0#64) >>> (size * 8))) =
      replaceFirst size dest src :=
  byteOf_ext fun j hj => by
    rw [replaceFirst, byteOf_beLoadWord64 _ hj]
    exact byteOf_replaced dest src size hj

/-- Two halves of a word have no bit in common. -/
theorem shiftLeft_xor_setWidth (high low : BitVec 32) :
    (high.setWidth 64 <<< 32) ^^^ low.setWidth 64 = (high.setWidth 64 <<< 32) ||| low.setWidth 64 := by
  apply BitVec.eq_of_getLsbD_eq
  intro i hi
  rw [BitVec.getLsbD_xor, BitVec.getLsbD_or, BitVec.getLsbD_shiftLeft]
  by_cases lower : i < 32
  · rw [decide_eq_true lower, Bool.not_true, Bool.and_false, Bool.false_and, Bool.false_xor,
      Bool.false_or]
  · have zero : (low.setWidth 64).getLsbD i = false := by
      rw [BitVec.getLsbD_setWidth, BitVec.getLsbD_of_ge low i (by omega), Bool.and_false]
    rw [zero, Bool.xor_false, Bool.or_false]

/-- A word loaded in two halves. -/
theorem beLoadWord64_halves (data1 data2 : Mem) :
    (beLoadWord64 fun j => if j < 4 then data1 j else data2 (j - 4)) =
      ((beLoadWord32 data1).setWidth 64 <<< 32) ||| (beLoadWord32 data2).setWidth 64 := by
  rw [← Sliced32.combineWord_sliceHalves, ← Sliced32.combineWord_sliceWord (beLoadWord64 _),
    ← Sliced32.sliceData_eq_sliceWord]
  rfl

/-- The six conversions between different numbers of shares. -/
theorem forall_conversions {P : Nat → Nat → Prop} (x3_x2 : P 3 2) (x4_x2 : P 4 2) (x4_x3 : P 4 3)
    (x2_x3 : P 2 3) (x2_x4 : P 2 4) (x3_x4 : P 3 4) {n m : Nat} (counts : ShareCount n)
    (counts' : ShareCount m) (different : n ≠ m) : P n m := by
  obtain ⟨two, four⟩ := counts
  obtain ⟨two', four'⟩ := counts'
  have some_count : n = 2 ∨ n = 3 ∨ n = 4 := by omega
  have some_count' : m = 2 ∨ m = 3 ∨ m = 4 := by omega
  rcases some_count with rfl | rfl | rfl
  · rcases some_count' with rfl | rfl | rfl
    · exact absurd rfl different
    · exact x2_x3
    · exact x2_x4
  · rcases some_count' with rfl | rfl | rfl
    · exact x3_x2
    · exact absurd rfl different
    · exact x3_x4
  · rcases some_count' with rfl | rfl | rfl
    · exact x4_x2
    · exact x4_x3
    · exact absurd rfl different

/-- The padding bit and the separator bit are in one byte of the word. -/
theorem byteOf_padding : ∀ offset < 8, ∀ j < 8,
    byteOf (0x8000000000000000#64 >>> (offset * 8)) j = if j = offset then 0x80#8 else 0#8 := by
  decide

theorem byteOf_separator : ∀ j < 8, byteOf 1#64 j = if j = 7 then 1#8 else 0#8 := by
  decide

end

theorem maskedWords64_commute : CommutesWithUnmasking maskedWords64 unmaskWord where
  zero := fun ⟨two, four⟩ trng => unmaskWord_randomShares (by omega) (by omega) trng
  load := fun ⟨two, four⟩ data trng => unmaskWord_maskedWordLoad (by omega) (by omega) data trng
  loadPartial := fun ⟨two, four⟩ data _ short trng =>
    unmaskWord_maskedWordLoadPartial (by omega) (by omega) two data short trng
  load32 := fun {n} ⟨two, four⟩ data1 data2 trng => by
    have zero := unmaskWord_randomShares (show 0 < n by omega) (by omega) trng
    rw [← shiftLeft_xor_setWidth]
    calc unmaskWord n (maskedWordLoad32 n data1 data2 trng).1
        = unmaskWord n (randomShares n trng) ^^^ (beLoadWord32 data1).setWidth 64 <<< 32 ^^^
            (beLoadWord32 data2).setWidth 64 := by
          rw [maskedWordLoad32, unmaskWord_addFirst (by omega) (by omega),
            unmaskWord_addFirst (by omega) (by omega)]
      _ = _ := by rw [zero, BitVec.ofNat_eq_ofNat, BitVec.zero_xor]
  store := fun _ mem data word => maskedWordStore_eq _ mem data word
  storePartial := fun _ mem data _ short word => by
    rw [take_beBytes64 _ short]
    exact maskedWordStorePartial_eq_write _ mem data short word
  randomize := fun ⟨two, four⟩ src trng =>
    unmaskWord_maskedWordRandomize (by omega) (by omega) src trng
  xor := fun ⟨two, four⟩ dest src => unmaskWord_maskedWordXor (by omega) dest src
  replace := fun ⟨two, four⟩ dest src size _ => by
    rw [← replaceFirst_eq _ _ size]
    exact unmaskWord_maskedWordReplace (by omega) dest src size
  convert := forall_conversions
    (fun src trng => unmaskWord_maskedWordWiden (by omega) (by omega) (by omega) src trng)
    (fun src trng => unmaskWord_maskedWordWiden (by omega) (by omega) (by omega) src trng)
    (fun src trng => unmaskWord_maskedWordWiden (by omega) (by omega) (by omega) src trng)
    unmaskWord_maskedWordX2FromX3 unmaskWord_maskedWordX2FromX4 unmaskWord_maskedWordX3FromX4
  pad := fun ⟨two, four⟩ word _ _ => unmaskWord_addFirst (by omega) (by omega) word _
  separator := fun ⟨two, four⟩ word => unmaskWord_addFirst (by omega) (by omega) word 1

theorem maskedWords32_commute : CommutesWithUnmasking maskedWords32 MaskedC32.unmaskWord where
  zero := fun ⟨two, four⟩ trng =>
    MaskedC32.unmaskWord_randomShares (by omega) (by omega) (MaskedC32.randomPair trng)
  load := fun ⟨two, four⟩ data trng => MaskedC32.unmaskWord_maskedWordLoad (by omega) two data trng
  loadPartial := fun ⟨two, four⟩ data _ short trng =>
    MaskedC32.unmaskWord_maskedWordLoadPartial (by omega) two data short trng
  load32 := fun ⟨two, four⟩ data1 data2 trng =>
    MaskedC32.unmaskWord_maskedWordLoad32 (by omega) two data1 data2 trng
  store := fun ⟨two, four⟩ mem data word =>
    MaskedC32.maskedWordStore_eq (by omega) (by omega) mem data word
  storePartial := fun ⟨two, four⟩ mem data _ short word => by
    rw [take_beBytes64 _ short]
    exact MaskedC32.maskedWordStorePartial_eq_write (by omega) (by omega) mem data short word
  randomize := fun ⟨two, four⟩ src trng =>
    MaskedC32.unmaskWord_maskedWordRandomize (by omega) (by omega) src trng
  xor := fun _ dest src => MaskedC32.unmaskWord_maskedWordXor _ dest src
  replace := fun _ dest src size short => by
    rw [← replaceFirst_eq _ _ size]
    exact MaskedC32.unmaskWord_maskedWordReplace dest src short
  convert := forall_conversions
    (fun src trng => MaskedC32.unmaskWord_maskedWordWiden (by omega) (by omega) (by omega) src trng)
    (fun src trng => MaskedC32.unmaskWord_maskedWordWiden (by omega) (by omega) (by omega) src trng)
    (fun src trng => MaskedC32.unmaskWord_maskedWordWiden (by omega) (by omega) (by omega) src trng)
    MaskedC32.unmaskWord_maskedWordX2FromX3 MaskedC32.unmaskWord_maskedWordX2FromX4
    MaskedC32.unmaskWord_maskedWordX3FromX4
  pad := fun ⟨two, four⟩ word _ inside =>
    MaskedC32.unmaskWord_maskedWordPad (by omega) word inside
  separator := fun ⟨two, four⟩ word => MaskedC32.unmaskWord_maskedWordSeparator (by omega) word

theorem maskedWordsDirect_commute : CommutesWithUnmasking maskedWordsDirect MaskedDirect.unmaskWord where
  zero := fun ⟨two, four⟩ trng => MaskedDirect.unmaskWord_eq fun j _ => by
    rw [← BitVec.ofNat_eq_ofNat, byteOf_zero]
    exact MaskedDirect.sumByte_maskedSum (by omega) (fun _ => 0#8) trng j
  load := fun ⟨two, four⟩ data trng => MaskedDirect.unmaskWord_eq fun j hj => by
    rw [byteOf_beLoadWord64 _ hj]
    exact MaskedDirect.sumByte_maskedSum (by omega) data trng j
  loadPartial := fun ⟨two, four⟩ data size _ trng => MaskedDirect.unmaskWord_eq fun j hj => by
    rw [byteOf_firstBytes _ _ hj]
    exact MaskedDirect.sumByte_maskedSum (by omega) (fun j => if j < size then data j else 0#8) trng j
  load32 := fun ⟨two, four⟩ data1 data2 trng => MaskedDirect.unmaskWord_eq fun j hj => by
    rw [← beLoadWord64_halves, byteOf_beLoadWord64 _ hj]
    exact MaskedDirect.sumByte_maskedSum (by omega)
      (fun j => if j < 4 then data1 j else data2 (j - 4)) trng j
  store := fun _ mem data word => MaskedDirect.maskedWordStore_eq _ mem data word
  storePartial := fun _ mem data _ short word => by
    rw [take_beBytes64 _ short]
    exact MaskedDirect.maskedWordStorePartial_eq_write _ mem data short.le word
  randomize := fun ⟨two, four⟩ src trng => MaskedDirect.unmaskWord_eq fun j hj => by
    rw [MaskedDirect.byteOf_unmaskWord _ _ hj]
    exact MaskedDirect.sumByte_maskedWordRandomize (by omega) src trng j
  xor := fun _ dest src => MaskedDirect.unmaskWord_eq fun j hj => by
    rw [byteOf_xor, MaskedDirect.byteOf_unmaskWord _ _ hj, MaskedDirect.byteOf_unmaskWord _ _ hj]
    exact MaskedDirect.sumByte_maskedWordXor _ dest src j
  replace := fun {n} _ dest src size _ => MaskedDirect.unmaskWord_eq fun j hj => by
    rw [replaceFirst, byteOf_beLoadWord64 _ hj, MaskedDirect.byteOf_unmaskWord n dest hj,
      MaskedDirect.byteOf_unmaskWord n src hj]
    exact MaskedDirect.sumByte_maskedWordReplace n dest src size j
  convert := forall_conversions
    (MaskedDirect.unmaskWord_of_sumByte fun src trng j =>
      MaskedDirect.sumByte_maskedWordWiden (by omega) (by omega) (by omega) src trng j)
    (MaskedDirect.unmaskWord_of_sumByte fun src trng j =>
      MaskedDirect.sumByte_maskedWordWiden (by omega) (by omega) (by omega) src trng j)
    (MaskedDirect.unmaskWord_of_sumByte fun src trng j =>
      MaskedDirect.sumByte_maskedWordWiden (by omega) (by omega) (by omega) src trng j)
    (MaskedDirect.unmaskWord_of_sumByte MaskedDirect.sumByte_maskedWordX2FromX3)
    (MaskedDirect.unmaskWord_of_sumByte MaskedDirect.sumByte_maskedWordX2FromX4)
    (MaskedDirect.unmaskWord_of_sumByte MaskedDirect.sumByte_maskedWordX3FromX4)
  pad := fun {n} ⟨two, four⟩ word offset inside => MaskedDirect.unmaskWord_eq fun j hj => by
    rw [byteOf_xor, MaskedDirect.byteOf_unmaskWord n word hj, byteOf_padding offset inside j hj]
    exact MaskedDirect.sumByte_addFirst (by omega) word offset 0x80#8 j
  separator := fun {n} ⟨two, four⟩ word => MaskedDirect.unmaskWord_eq fun j hj => by
    rw [byteOf_xor, MaskedDirect.byteOf_unmaskWord n word hj, byteOf_separator j hj]
    exact MaskedDirect.sumByte_addFirst (by omega) word 7 1#8 j

/-- In each of the three backends every masked word function is the plain function behind the shares,
and loading and storing give back the bytes. -/
theorem masked_words_commute_with_unmasking :
    (CommutesWithUnmasking maskedWords64 unmaskWord ∧ RoundTrips maskedWords64) ∧
    (CommutesWithUnmasking maskedWords32 MaskedC32.unmaskWord ∧ RoundTrips maskedWords32) ∧
    (CommutesWithUnmasking maskedWordsDirect MaskedDirect.unmaskWord ∧ RoundTrips maskedWordsDirect) :=
  ⟨⟨maskedWords64_commute, maskedWords64_commute.roundTrips⟩,
    ⟨maskedWords32_commute, maskedWords32_commute.roundTrips⟩,
    ⟨maskedWordsDirect_commute, maskedWordsDirect_commute.roundTrips⟩⟩

end AsconSuite
