/-
Module: AsconSuite.Proofs.BackendAgreement
Layer: Proofs
Purpose: The three backends give the same bytes. Every byte function and rate accessor of the bit-sliced and
  of the 64-bit backend is, in byte order, that of the direct backend, and none of them changes a byte
  outside its range. The word accessors ask for an offset on a word boundary.
Imports: AsconSuite.Core.Backends, AsconSuite.Proofs.SlicedBytes, AsconSuite.Proofs.DirectBytes
Trusted boundary: none
Main exports: StateAccess.Implements, StateAccess.KeepsOutside, backends_agree,
  unaligned_absorb_differs
-/
import AsconSuite.Core.Backends
import AsconSuite.Proofs.SlicedBytes
import AsconSuite.Proofs.DirectBytes

namespace AsconSuite

open ByteWord ByteMemory

/-! ### Implementations of one interface -/

namespace StateAccess

variable {σ τ υ : Type}

/-- Every valid call on a backend is that call on another one, under a conversion of the state. -/
def Implements (access : StateAccess σ) (reference : StateAccess τ) (convert : σ → τ) : Prop :=
  ∀ call : AccessCall, call.Valid → ∀ (s : σ) (mem : Mem),
    Prod.map convert id (call.run access s mem) = call.run reference (convert s) mem

/-- No valid call on a backend changes a byte outside its range. -/
def KeepsOutside (access : StateAccess σ) (byte : σ → Nat → Byte) : Prop :=
  ∀ call : AccessCall, call.Valid → ∀ (s : σ) (mem : Mem) (k : Nat), k < 40 →
    k < call.start ∨ call.start + call.length ≤ k →
    byte (call.run access s mem).1 k = byte s k

theorem Implements.trans {first : StateAccess σ} {second : StateAccess τ} {third : StateAccess υ}
    {f : σ → τ} {g : τ → υ} (lower : Implements first second f) (upper : Implements second third g) :
    Implements first third (g ∘ f) := by
  intro call valid s mem
  rw [Function.comp_apply, ← upper call valid, ← lower call valid]
  rfl

/-- Any sequence of valid calls has the same effect on a backend and on the one it implements. -/
theorem Implements.runAll {access : StateAccess σ} {reference : StateAccess τ} {convert : σ → τ}
    (implements : Implements access reference convert) {calls : List AccessCall}
    (valid : ∀ call ∈ calls, call.Valid) (st : σ × Mem) :
    Prod.map convert id (AccessCall.runAll access calls st) =
      AccessCall.runAll reference calls (Prod.map convert id st) := by
  induction calls generalizing st with
  | nil => rfl
  | cons call calls ih =>
      have first := implements call (valid call List.mem_cons_self) st.1 st.2
      rw [AccessCall.runAll, ih fun later at_later => valid later (List.mem_cons_of_mem _ at_later),
        first]
      rfl

/-- A backend whose states are all converted keeps what the backend that implements it keeps. -/
theorem Implements.keepsOutside_of_onto {access : StateAccess σ} {reference : StateAccess τ}
    {convert : σ → τ} {byte : σ → Nat → Byte} {byte' : τ → Nat → Byte}
    (implements : Implements access reference convert) (keeps : KeepsOutside access byte)
    (onto : Function.Surjective convert) (same : ∀ s, ∀ k < 40, byte' (convert s) k = byte s k) :
    KeepsOutside reference byte' := by
  intro call valid t mem k hk outside
  obtain ⟨s, rfl⟩ := onto t
  have kept := keeps call valid s mem k hk outside
  rw [← same _ k hk, ← same _ k hk] at kept
  rw [← implements call valid]
  exact kept

end StateAccess

/-! ### The bit-sliced backend -/

namespace Sliced32

theorem ofSliced_asconSeparator (s : AsconState) :
    ofSliced (asconSeparator s) = AsconSuite.asconSeparator (ofSliced s) := by
  have one : sliceWord 1#64 = ⟨1#32, 0#32⟩ := by decide
  have added := ofSliced_asconAbsorbWord64 s 1#64 4
  rw [asconAbsorbWord64, one] at added
  simp only [addSliced, BitVec.xor_zero] at added
  exact added

theorem ofSliced_asconPad (s : AsconState) (offset : Nat) :
    ofSliced (asconPad s offset) = AsconSuite.asconPad (ofSliced s) offset := by
  have padding : ∀ j < 8, sliceWord ((0x8000000000000000 : Word) >>> (j * 8)) =
      ⟨0#32, 0x80000000#32 >>> (j * 4)⟩ := by decide
  have added := ofSliced_asconAbsorbWord64 s
    ((0x8000000000000000 : Word) >>> (offset % 8 * 8)) (offset / 8)
  rw [asconAbsorbWord64, padding _ (Nat.mod_lt _ (by omega))] at added
  simp only [addSliced, BitVec.xor_zero] at added
  exact added

/-- Two words in turn, as the macros for sixteen bytes take them. -/
theorem next_word {offset : Nat} : offset / 8 + 1 = (offset + 8) / 8 := by
  omega

theorem ofSliced_asconEncrypt16 (s : AsconState) (mem : Mem) {dest src offset : Nat}
    (fits : offset + 16 ≤ 40) (ranges : SameOrApart dest src 16) :
    Prod.map ofSliced id (asconEncrypt16 s mem dest src offset) =
      AsconSuite.asconEncrypt16 (ofSliced s) mem dest src offset := by
  have first := asconEncryptSliced_eq s mem dest src offset
  have second := asconEncryptSliced_eq (asconEncryptSliced s mem dest src (offset / 8)).1
    (asconEncryptSliced s mem dest src (offset / 8)).2 (dest + 8) (src + 8) (offset + 8)
  rw [asconEncrypt16_eq_encrypt8 _ _ fits ranges, ← first, ← second, ← next_word]
  rfl

theorem ofSliced_asconDecrypt16 (s : AsconState) (mem : Mem) {dest src offset : Nat} :
    Prod.map ofSliced id (asconDecrypt16 s mem dest src offset) =
      AsconSuite.asconDecrypt16 (ofSliced s) mem dest src offset := by
  have first := asconDecryptSliced_eq s mem dest src offset
  have second := asconDecryptSliced_eq (asconDecryptSliced s mem dest src (offset / 8)).1
    (asconDecryptSliced s mem dest src (offset / 8)).2 (dest + 8) (src + 8) (offset + 8)
  rw [asconDecrypt16_eq_decrypt8, ← first, ← second, ← next_word]
  rfl

/-- The bit-sliced backend implements the 64-bit backend. -/
theorem implements_sliced64 : sliced32Access.Implements sliced64Access ofSliced := by
  intro call valid s mem
  have fits := valid.fits
  have buffers := valid.buffers
  have aligned := valid.aligned
  cases call with
  | addBytes data offset size => exact Prod.ext (ofSliced_asconAddBytes s _ fits) rfl
  | overwriteBytes data offset size => exact Prod.ext (ofSliced_asconOverwriteBytes s _ fits) rfl
  | overwriteWithZeroes offset size =>
      exact Prod.ext (ofSliced_asconOverwriteWithZeroes s fits) rfl
  | extractBytes data offset size => exact Prod.ext rfl (asconExtractBytes_eq s mem data fits)
  | extractAndAddBytes input output offset size =>
      exact Prod.ext rfl (asconExtractAndAddBytes_eq s mem fits buffers)
  | extractAndOverwriteBytes input output offset size =>
      exact ofSliced_asconExtractAndOverwriteBytes s mem fits buffers
  | separator => exact Prod.ext (ofSliced_asconSeparator s) rfl
  | pad offset => exact Prod.ext (ofSliced_asconPad s offset) rfl
  | absorb8 data offset => exact Prod.ext (ofSliced_asconAbsorbSliced s _ _) rfl
  | absorb16 data offset =>
      refine Prod.ext ?_ rfl
      have first := ofSliced_asconAbsorbSliced s (mem.view data) (offset / 8)
      have second := ofSliced_asconAbsorbSliced (asconAbsorbSliced s (mem.view data) (offset / 8))
        ((mem.view data).view 8) (offset / 8 + 1)
      rw [first] at second
      exact second
  | absorbPartial data offset count => exact Prod.ext (ofSliced_asconAddBytes s _ fits) rfl
  | squeeze8 data offset => exact Prod.ext rfl (asconSqueezeSliced_eq s mem data _)
  | squeeze16 data offset =>
      have first := asconSqueezeSliced_eq s mem data (offset / 8)
      have second := asconSqueezeSliced_eq s (asconSqueezeSliced s mem data (offset / 8)) (data + 8)
        (offset / 8 + 1)
      exact Prod.ext rfl (second.trans (congrArg (beStoreWord64 · (data + 8) _) first))
  | squeezePartial data offset count => exact Prod.ext rfl (asconExtractBytes_eq s mem data fits)
  | encrypt8 dest src offset => exact asconEncryptSliced_eq s mem dest src offset
  | encrypt16 dest src offset => exact ofSliced_asconEncrypt16 s mem fits buffers
  | encryptPartial dest src offset count =>
      replace fits : offset + count ≤ 40 := fits
      have added := ofSliced_asconAddBytes s (mem.view src) fits
      have extracted := asconExtractBytes_eq (asconAddBytes s (mem.view src) offset count) mem dest fits
      rw [added] at extracted
      exact Prod.ext added extracted
  | decrypt8 dest src offset => exact asconDecryptSliced_eq s mem dest src offset
  | decrypt16 dest src offset => exact ofSliced_asconDecrypt16 s mem
  | decryptPartial dest src offset count =>
      exact ofSliced_asconExtractAndOverwriteBytes s mem fits buffers

end Sliced32

/-! ### The direct backend -/

theorem wordBytes_asconSeparator (s : AsconState) :
    wordBytes (asconSeparator s) = DirectXor.asconSeparator (wordBytes s) := by
  have one : ∀ j < 8, byteOf (0x01 : Word) j = if j = 7 then 0x01 else 0 := by decide
  apply DirectXor.eq_of_byteAt_eq
  intro k hk
  rw [DirectXor.asconSeparator, DirectXor.byteAt_setByteAt _ _ (by omega), byteAt_wordBytes _ hk,
    byteAt_wordBytes _ hk, byteAt_wordBytes _ (by omega), asconSeparator,
    byteForOffset_modify _ _ (by omega) hk]
  by_cases last : k / 8 = 4
  · rw [if_pos last, byteOf_xor, one _ (by omega), ← last]
    by_cases here : k = 39
    · rw [if_pos (by omega), if_pos here, here, byteForOffset]
    · rw [if_neg (by omega), if_neg here, BitVec.ofNat_eq_ofNat, BitVec.xor_zero, byteForOffset]
  · rw [if_neg last, if_neg (by omega)]

theorem wordBytes_asconPad (s : AsconState) {offset : Nat} (fits : offset < 40) :
    wordBytes (asconPad s offset) = DirectXor.asconPad (wordBytes s) offset := by
  have padding : ∀ i < 8, ∀ j < 8, byteOf ((0x8000000000000000 : Word) >>> (i * 8)) j =
      if j = i then 0x80 else 0 := by decide
  apply DirectXor.eq_of_byteAt_eq
  intro k hk
  rw [DirectXor.asconPad, DirectXor.byteAt_setByteAt _ _ fits, byteAt_wordBytes _ hk,
    byteAt_wordBytes _ hk, byteAt_wordBytes _ fits, asconPad, byteForOffset_modify _ _ (by omega) hk]
  by_cases word : k / 8 = offset / 8
  · rw [if_pos word, byteOf_xor, padding _ (by omega) _ (by omega), ← word]
    by_cases here : k = offset
    · rw [if_pos (by omega), if_pos here, here, byteForOffset]
    · rw [if_neg (by omega), if_neg here, BitVec.ofNat_eq_ofNat, BitVec.xor_zero, byteForOffset]
  · rw [if_neg word, if_neg (by omega)]

/-- The 64-bit backend implements the direct backend. -/
theorem sliced64_implements_direct : sliced64Access.Implements directAccess wordBytes := by
  intro call valid s mem
  have fits := valid.fits
  have buffers := valid.buffers
  have aligned := valid.aligned
  cases call with
  | addBytes data offset size => exact Prod.ext (wordBytes_asconAddBytes s _ offset size) rfl
  | overwriteBytes data offset size =>
      exact Prod.ext (wordBytes_asconOverwriteBytes s _ offset size) rfl
  | overwriteWithZeroes offset size =>
      exact Prod.ext (wordBytes_asconOverwriteWithZeroes s offset size) rfl
  | extractBytes data offset size =>
      exact Prod.ext rfl (directXor_asconExtractBytes s mem data offset size)
  | extractAndAddBytes input output offset size =>
      exact Prod.ext rfl (directXor_asconExtractAndAddBytes s mem input output offset size)
  | extractAndOverwriteBytes input output offset size =>
      exact wordBytes_asconExtractAndOverwriteBytes s mem input output offset size
  | separator => exact Prod.ext (wordBytes_asconSeparator s) rfl
  | pad offset => exact Prod.ext (wordBytes_asconPad s fits) rfl
  | absorb8 data offset =>
      exact Prod.ext (wordBytes_asconAbsorb8 s _ (aligned trivial) fits) rfl
  | absorb16 data offset =>
      exact Prod.ext (wordBytes_asconAbsorb16 s _ (aligned trivial) fits) rfl
  | absorbPartial data offset count => exact Prod.ext (wordBytes_eq_lwXorBlock s _ fits) rfl
  | squeeze8 data offset =>
      exact Prod.ext rfl (directXor_asconSqueeze8 s mem data (aligned trivial) fits)
  | squeeze16 data offset =>
      exact Prod.ext rfl (directXor_asconSqueeze16 s mem data (aligned trivial) fits)
  | squeezePartial data offset count =>
      exact Prod.ext rfl (extractBytes_eq_memcpyOut s mem data fits)
  | encrypt8 dest src offset => exact wordBytes_asconEncrypt8 s mem (aligned trivial) fits buffers
  | encrypt16 dest src offset => exact wordBytes_asconEncrypt16 s mem (aligned trivial) fits buffers
  | encryptPartial dest src offset count => exact wordBytes_asconEncryptPartial s mem fits buffers
  | decrypt8 dest src offset => exact wordBytes_asconDecrypt8 s mem (aligned trivial) fits buffers
  | decrypt16 dest src offset => exact wordBytes_asconDecrypt16 s mem (aligned trivial) fits buffers
  | decryptPartial dest src offset count =>
      exact wordBytes_asconDecryptPartial s mem dest src fits

/-! ### Bytes outside the range -/

/-- The 64-bit backend leaves the bytes outside the range alone. -/
theorem sliced64_keepsOutside : sliced64Access.KeepsOutside byteForOffset := by
  intro call valid s mem k hk outside
  have fits := valid.fits
  have buffers := valid.buffers
  have aligned := valid.aligned
  have added (data : Mem) {offset size : Nat} (fits : offset + size ≤ 40)
      (outside : k < offset ∨ offset + size ≤ k) :
      byteForOffset (asconAddBytes s data offset size) k = byteForOffset s k := by
    rw [byteForOffset_asconAddBytes _ _ fits hk, if_neg (by omega)]
  have replaced (data : Mem) {offset size : Nat} (fits : offset + size ≤ 40)
      (outside : k < offset ∨ offset + size ≤ k) :
      byteForOffset (asconOverwriteBytes s data offset size) k = byteForOffset s k := by
    rw [byteForOffset_asconOverwriteBytes _ _ fits hk, if_neg (by omega)]
  have mixed (mix : Mix Byte Byte Byte) {dest src offset n : Nat} {after : AsconState × Mem}
      (fits : offset + n ≤ 40) (outside : k < offset ∨ offset + n ≤ k)
      (eq : after = combine mix s mem dest src offset n) :
      byteForOffset after.1 k = byteForOffset s k := by
    rw [eq, byteForOffset_combine_outside mix s mem dest src fits hk outside]
  cases call with
  | addBytes data offset size => exact added _ fits outside
  | overwriteBytes data offset size => exact replaced _ fits outside
  | overwriteWithZeroes offset size =>
      exact (congrArg (byteForOffset · k) (asconOverwriteWithZeroes_eq s offset size)).trans
        (replaced _ fits outside)
  | extractBytes data offset size => rfl
  | extractAndAddBytes input output offset size => rfl
  | extractAndOverwriteBytes input output offset size =>
      exact mixed decMix fits outside (asconDecryptPartial_eq_combine s mem fits buffers)
  | separator =>
      have untouched : ¬ k = 39 := by
        rcases outside with before | behind
        · exact Nat.ne_of_lt before
        · exact absurd hk (Nat.not_lt.2 behind)
      have kept := congrArg (DirectXor.byteAt · k) (wordBytes_asconSeparator s)
      simp only [DirectXor.asconSeparator, byteAt_wordBytes _ hk] at kept
      rw [DirectXor.byteAt_setByteAt _ _ (by omega), if_neg untouched, byteAt_wordBytes _ hk] at kept
      exact kept
  | pad offset =>
      have untouched : ¬ k = offset := by
        rcases outside with before | behind
        · exact Nat.ne_of_lt before
        · exact Nat.ne_of_gt behind
      replace fits : offset < 40 := fits
      have kept := congrArg (DirectXor.byteAt · k) (wordBytes_asconPad s fits)
      simp only [DirectXor.asconPad, byteAt_wordBytes _ hk] at kept
      rw [DirectXor.byteAt_setByteAt _ _ fits, if_neg untouched, byteAt_wordBytes _ hk] at kept
      exact kept
  | absorb8 data offset =>
      exact (congrArg (byteForOffset · k) (asconAbsorb8_eq_addBytes s _ (aligned trivial) fits)).trans
        (added _ fits outside)
  | absorb16 data offset =>
      exact (congrArg (byteForOffset · k)
        (asconAbsorb16_eq_addBytes s _ (aligned trivial) fits)).trans (added _ fits outside)
  | absorbPartial data offset count => exact added _ fits outside
  | squeeze8 data offset => rfl
  | squeeze16 data offset => rfl
  | squeezePartial data offset count => rfl
  | encrypt8 dest src offset =>
      exact mixed encMix fits outside (asconEncrypt8_eq_combine s mem dest src (aligned trivial) fits)
  | encrypt16 dest src offset =>
      exact mixed encMix fits outside
        (asconEncrypt16_eq_combine s mem (aligned trivial) fits buffers)
  | encryptPartial dest src offset count =>
      exact mixed encMix fits outside (asconEncryptPartial_eq_combine s mem dest src fits)
  | decrypt8 dest src offset =>
      exact mixed decMix fits outside (asconDecrypt8_eq_combine s mem dest src (aligned trivial) fits)
  | decrypt16 dest src offset =>
      exact mixed decMix fits outside
        (asconDecrypt16_eq_combine s mem (aligned trivial) fits buffers)
  | decryptPartial dest src offset count =>
      exact mixed decMix fits outside (asconDecryptPartial_eq_combine s mem fits buffers)

/-- The bytes of the direct backend outside the range are left alone. -/
theorem direct_keepsOutside : directAccess.KeepsOutside DirectXor.byteAt :=
  sliced64_implements_direct.keepsOutside_of_onto sliced64_keepsOutside
    (fun b => ⟨bytesWords b, wordBytes_bytesWords b⟩) fun s _ hk => byteAt_wordBytes s hk

/-! ### Agreement -/

/-- A bit-sliced state in byte order. -/
def slicedBytes (s : Sliced32.AsconState) : DirectXor.AsconState :=
  wordBytes (Sliced32.ofSliced s)

/-- The three backends agree. Any valid call has the same effect on the bytes of the state and on the
memory in the bit-sliced, the 64-bit and the direct backend, and leaves the state bytes outside its range
alone. Both conversions to byte order lose nothing. -/
theorem backends_agree (call : AccessCall) (valid : call.Valid) :
    (∀ (s : Sliced32.AsconState) (mem : Mem),
      Prod.map slicedBytes id (call.run sliced32Access s mem) =
        call.run directAccess (slicedBytes s) mem) ∧
    (∀ (s : AsconState) (mem : Mem),
      Prod.map wordBytes id (call.run sliced64Access s mem) =
        call.run directAccess (wordBytes s) mem) ∧
    (∀ (b : DirectXor.AsconState) (mem : Mem) (k : Nat), k < 40 →
      k < call.start ∨ call.start + call.length ≤ k →
      DirectXor.byteAt (call.run directAccess b mem).1 k = DirectXor.byteAt b k) ∧
    Function.Bijective slicedBytes ∧ Function.Bijective wordBytes := by
  have words : Function.Bijective wordBytes :=
    ⟨Function.LeftInverse.injective bytesWords_wordBytes,
      Function.RightInverse.surjective wordBytes_bytesWords⟩
  refine ⟨?_, ?_, ?_, ?_, words⟩
  · exact (Sliced32.implements_sliced64.trans sliced64_implements_direct) call valid
  · exact sliced64_implements_direct call valid
  · exact direct_keepsOutside call valid
  · exact words.comp ⟨Function.LeftInverse.injective Sliced32.toSliced_ofSliced,
      Function.RightInverse.surjective Sliced32.ofSliced_toSliced⟩

/-- Eleven bytes in place from byte 5 of the state on, across a word boundary. -/
theorem backends_agree_acrossWords :
    (AccessCall.encryptPartial 100 100 5 11).Valid ∧
      Prod.map slicedBytes id
        ((AccessCall.encryptPartial 100 100 5 11).run sliced32Access (Sliced32.toSliced asconInit)
          fun a => BitVec.ofNat 8 a) =
        (AccessCall.encryptPartial 100 100 5 11).run directAccess
          (slicedBytes (Sliced32.toSliced asconInit)) fun a => BitVec.ofNat 8 a := by
  have valid : (AccessCall.encryptPartial 100 100 5 11).Valid :=
    ⟨by decide, Or.inl rfl, fun wordwise => wordwise.elim⟩
  exact ⟨valid, (backends_agree _ valid).1 _ _⟩

/-- Away from a word boundary the macro for eight bytes takes the word around the offset in the backends
made of words, and the bytes from the offset on in the direct backend. -/
theorem unaligned_absorb_differs :
    wordBytes (asconAbsorb8 asconInit (fun _ => 1#8) 4) ≠
        DirectXor.asconAbsorb8 (wordBytes asconInit) (fun _ => 1#8) 4 ∧
      slicedBytes (Sliced32.asconAbsorb8 (Sliced32.toSliced asconInit) (fun _ => 1#8) 4) ≠
        DirectXor.asconAbsorb8 (slicedBytes (Sliced32.toSliced asconInit)) (fun _ => 1#8) 4 := by
  decide +kernel

end AsconSuite
