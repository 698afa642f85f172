/-
Module: AsconSuite.Proofs.InputBytes
Layer: Proofs
Purpose: Which bytes the AEAD functions read behind the pointers they are given. The state in front of the
  payload depends on the bytes of the associated data and of the key and nonce fields, and on nothing else.
Imports: AsconSuite.Proofs.MessageLoops, AsconSuite.Proofs.StateRanges, AsconSuite.Aead.OneShot
Trusted boundary: none
Main exports: overwriteAll_eq_wordsOf, aeadAbsorb_congr, startFrom_congr, finalize_congr
-/
import AsconSuite.Proofs.MessageLoops
import AsconSuite.Proofs.StateRanges
import AsconSuite.Aead.OneShot

namespace AsconSuite

open ByteWord ByteMemory

theorem beLoadWord64_congr {p q : Mem} (same : ∀ i < 8, p i = q i) :
    beLoadWord64 p = beLoadWord64 q :=
  byteOf_ext fun j hj => by rw [byteOf_beLoadWord64 p hj, byteOf_beLoadWord64 q hj, same j hj]

theorem asconAbsorb16_congr (s : AsconState) {p q : Mem} (offset : Nat)
    (same : ∀ i < 16, p i = q i) : asconAbsorb16 s p offset = asconAbsorb16 s q offset := by
  have first : beLoadWord64 p = beLoadWord64 q :=
    beLoadWord64_congr fun i hi => same i (by omega)
  have second : beLoadWord64 (p.view 8) = beLoadWord64 (q.view 8) :=
    beLoadWord64_congr fun i hi => same (8 + i) (by omega)
  rw [asconAbsorb16, asconAbsorb16, first, second]

theorem asconAddBytes_congr (s : AsconState) {p q : Mem} (offset : Nat) {size : Nat}
    (same : ∀ i < size, p i = q i) : asconAddBytes s p offset size = asconAddBytes s q offset size := by
  induction size generalizing s p q offset with
  | zero => rfl
  | succ size ih =>
      rw [asconAddBytes, asconAddBytes, same 0 (by omega),
        ih (p := p.view 1) (q := q.view 1) _ _ fun i hi => same (1 + i) (by omega)]

/-- The state whose words are loaded one behind the other. -/
def wordsOf (data : Mem) : AsconState :=
  ⟨beLoadWord64 data, beLoadWord64 (data.view 8), beLoadWord64 (data.view 16),
    beLoadWord64 (data.view 24), beLoadWord64 (data.view 32)⟩

theorem byteForOffset_wordsOf (data : Mem) {o : Nat} (ho : o < 40) :
    byteForOffset (wordsOf data) o = data o := by
  have word (i : Nat) (hi : i < 5) : (wordsOf data).get i = beLoadWord64 (data.view (8 * i)) := by
    have start : data.view 0 = data := funext fun j => congrArg data (Nat.zero_add j)
    interval_cases i
    · rw [Nat.mul_zero, start]
      rfl
    all_goals rfl
  rw [byteForOffset, word _ (by omega), byteOf_beLoadWord64 _ (by omega), view_apply]
  congr 1
  omega

/-- The bytes of the initialization vector, the key and the nonce in a row. -/
def loadedBytes (iv : Mem) (ivSize : Nat) (k npub : Mem) : Mem := fun o =>
  if o < ivSize then iv o else if o < 24 then k (o - ivSize) else npub (o - 24)

/-- Three overwrites that cover the whole state. -/
theorem overwriteAll_eq_wordsOf (s : AsconState) (iv : Mem) {ivSize keySize : Nat}
    (covered : ivSize + keySize = 24) (npub k : Mem) :
    asconOverwriteBytes (asconOverwriteBytes (asconOverwriteBytes s iv 0 ivSize) k ivSize keySize)
        npub 24 16 = wordsOf (loadedBytes iv ivSize k npub) := by
  refine eq_of_byteForOffset_eq fun o ho => ?_
  rw [byteForOffset_wordsOf _ ho, loadedBytes,
    byteForOffset_asconOverwriteBytes _ _ (show 24 + 16 ≤ 40 by omega) ho,
    byteForOffset_asconOverwriteBytes _ _ (show ivSize + keySize ≤ 40 by omega) ho,
    byteForOffset_asconOverwriteBytes _ _ (show 0 + ivSize ≤ 40 by omega) ho]
  by_cases inNonce : 24 ≤ o
  · rw [if_pos ⟨inNonce, by omega⟩, if_neg (by omega), if_neg (by omega)]
  · by_cases inKey : ivSize ≤ o
    · rw [if_neg (by omega), if_pos (by omega), if_neg (by omega), if_pos (by omega)]
    · rw [if_neg (by omega), if_neg (by omega), if_pos (by omega), if_pos (by omega), Nat.sub_zero]

/-- Three overwrites that cover the whole state leave nothing of it. -/
theorem overwriteAll_congr (s t : AsconState) (iv : Mem) (ivSize : Nat) {keySize : Nat}
    (covered : ivSize + keySize = 24) {npub npub' k k' : Mem} (nonce : ∀ i < 16, npub i = npub' i)
    (key : ∀ i < keySize, k i = k' i) :
    asconOverwriteBytes (asconOverwriteBytes (asconOverwriteBytes s iv 0 ivSize) k ivSize keySize)
        npub 24 16 =
      asconOverwriteBytes (asconOverwriteBytes (asconOverwriteBytes t iv 0 ivSize) k' ivSize keySize)
        npub' 24 16 := by
  rw [overwriteAll_eq_wordsOf s iv covered, overwriteAll_eq_wordsOf t iv covered]
  refine eq_of_byteForOffset_eq fun o ho => ?_
  rw [byteForOffset_wordsOf _ ho, byteForOffset_wordsOf _ ho, loadedBytes, loadedBytes]
  split
  · rfl
  · split
    · exact key _ (by omega)
    · exact nonce _ (by omega)

/-- Placing the initialization vector, the key and the nonce covers the whole state. -/
theorem AeadVariant.load_congr (v : AeadVariant) (s t : AsconState) {npub npub' k k' : Mem}
    (nonce : ∀ i < 16, npub i = npub' i) (key : ∀ i < v.keySize, k i = k' i) :
    v.load s npub k = v.load t npub' k' := by
  cases v with
  | ascon128 => exact overwriteAll_congr s t (tablePtr ascon128Iv) 8 rfl nonce key
  | ascon128a => exact overwriteAll_congr s t (tablePtr ascon128aIv) 8 rfl nonce key
  | ascon80pq => exact overwriteAll_congr s t (tablePtr ascon80pqIv) 4 rfl nonce key

theorem AeadVariant.absorbKey_congr (v : AeadVariant) (s : AsconState) {k k' : Mem}
    (key : ∀ i < v.keySize, k i = k' i) : v.absorbKey s k = v.absorbKey s k' := by
  cases v with
  | ascon128 => exact asconAbsorb16_congr s 24 key
  | ascon128a => exact asconAbsorb16_congr s 24 key
  | ascon80pq =>
      have bytes : ∀ i < ascon80pqKeySize, k i = k' i := key
      rw [absorbKey, absorbKey, asconAbsorbPartial, asconAbsorbPartial,
        asconAddBytes_congr s 20 bytes]

theorem Rate.absorbBlock_congr (rate : Rate) (s : AsconState) {p q : Mem}
    (same : ∀ i < rate.size, p i = q i) : rate.absorbBlock s p = rate.absorbBlock s q := by
  cases rate with
  | eight => rw [absorbBlock, absorbBlock, asconAbsorb8, asconAbsorb8, beLoadWord64_congr same]
  | sixteen => exact asconAbsorb16_congr s 0 same

/-- Absorption depends on the bytes of the data only. -/
theorem aeadAbsorb_congr (rate : Rate) (s : AsconState) {p q : Mem} {len : Nat} (firstRound : Nat)
    (lastPermute : Bool) (same : ∀ i < len, p i = q i) :
    aeadAbsorb rate s p len firstRound lastPermute =
      aeadAbsorb rate s q len firstRound lastPermute := by
  have positive := rate.size_pos
  induction len using Nat.strongRecOn generalizing s p q with
  | ind len ih =>
    rcases Nat.lt_or_ge len rate.size with short | long
    · rw [aeadAbsorb_of_lt _ _ _ _ _ short, aeadAbsorb_of_lt _ _ _ _ _ short]
      simp only [asconAbsorbPartial, asconAddBytes_congr s 0 same]
    · rw [aeadAbsorb_of_le _ _ _ _ _ long, aeadAbsorb_of_le _ _ _ _ _ long,
        rate.absorbBlock_congr s fun i hi => same i (by omega)]
      exact ih (len - rate.size) (by omega) _ fun i hi => same (rate.size + i) (by omega)

theorem AeadVariant.absorbData_congr (v : AeadVariant) (s : AsconState) {ad ad' : Mem} {adlen : Nat}
    (data : ∀ i < adlen, ad i = ad' i) : v.absorbData s ad adlen = v.absorbData s ad' adlen := by
  cases v <;> simp only [absorbData, asconAeadAbsorb8, asconAeadAbsorb16, aeadAbsorb_congr _ _ _ _ data]

/-- The state in front of the payload depends on the bytes of the data and of the fields only. -/
theorem AeadVariant.startFrom_congr (v : AeadVariant) (s t : AsconState) {ad ad' : Mem} {adlen : Nat}
    {npub npub' k k' : Mem} (data : ∀ i < adlen, ad i = ad' i) (nonce : ∀ i < 16, npub i = npub' i)
    (key : ∀ i < v.keySize, k i = k' i) :
    v.startFrom s ad adlen npub k = v.startFrom t ad' adlen npub' k' := by
  simp only [startFrom, v.load_congr s t nonce key, v.absorbKey_congr _ key,
    v.absorbData_congr _ data]

/-- The last state depends on the bytes of the key field only. -/
theorem AeadVariant.finalize_congr (v : AeadVariant) (s : AsconState) {k k' : Mem}
    (key : ∀ i < v.keySize, k i = k' i) : v.finalize s k = v.finalize s k' := by
  cases v with
  | ascon128 => rw [finalize, finalize, asconAbsorb16_congr _ _ key, asconAbsorb16_congr _ _ key]
  | ascon128a => rw [finalize, finalize, asconAbsorb16_congr _ _ key, asconAbsorb16_congr _ _ key]
  | ascon80pq =>
      have bytes : ∀ i < ascon80pqKeySize, k i = k' i := key
      have behind : ∀ i < 16, k.view 4 i = k'.view 4 i := fun i hi =>
        bytes (4 + i) (by rw [ascon80pqKeySize]; omega)
      rw [finalize, finalize, asconAbsorbPartial, asconAbsorbPartial,
        asconAddBytes_congr s 8 bytes, asconAbsorb16_congr _ _ behind]

end AsconSuite
