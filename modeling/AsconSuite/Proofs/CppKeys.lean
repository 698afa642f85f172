/-
Module: AsconSuite.Proofs.CppKeys
Layer: Proofs
Purpose: How the keys of the C++ classes are set: which classes make the same object from a key in both ways, and
  which take a key of length zero for the key of zeroes.
Imports: AsconSuite.Cpp.Aead, AsconSuite.Proofs.InitialStates, AsconSuite.Proofs.MaskedAead,
  AsconSuite.Proofs.SealedCalls, AsconSuite.Proofs.SivInverse
Trusted boundary: none
Main exports: answers, BehaveAlike, SameKeys.behaveAlike, ConstructorUniform, ZeroKeyUniform, FailureKeeps,
  CppClass, cpp_key_setting_iff
-/
import AsconSuite.Cpp.Aead
import AsconSuite.Proofs.InitialStates
import AsconSuite.Proofs.MaskedAead
import AsconSuite.Proofs.SealedCalls
import AsconSuite.Proofs.SivInverse

namespace AsconSuite

open ByteWord ByteMemory
open Transducer (run)

/-! ### Behaviour -/

section

variable {κ ν : Type}

/-- What an object answers to some calls, each with the noise it meets. -/
def answers (cls : ν → AeadClass κ) (object : AeadObject κ) (calls : List (AeadCall × ν)) :
    List (Option (Int × Mem)) :=
  (run (fun object call => object.call (cls call.2) call.1) object calls).2

/-- Two objects give the same answers to the same calls, whatever noise each of them meets. -/
def BehaveAlike (cls : ν → AeadClass κ) (a b : AeadObject κ) : Prop :=
  ∀ calls : List (AeadCall × ν × ν),
    answers cls a (calls.map fun call => (call.1, call.2.1)) =
      answers cls b (calls.map fun call => (call.1, call.2.2))

/-- Keys that encrypt and decrypt alike, whatever the noise. -/
structure SameKeys (cls : ν → AeadClass κ) (key other : κ) : Prop where
  encrypt : ∀ n n' mem c m len ad adlen nonce, SameOrApart c m len →
    (cls n).encrypt mem c m len ad adlen nonce key = (cls n').encrypt mem c m len ad adlen nonce other
  decrypt : ∀ n n' mem m c len ad adlen nonce, SameOrApart m c (len - asconTagSize) →
    (cls n).decrypt mem m c len ad adlen nonce key = (cls n').decrypt mem m c len ad adlen nonce other

/-- One call leaves the keys and moves both nonces alike. -/
theorem SameKeys.call {cls : ν → AeadClass κ} {key other : κ} (same : SameKeys cls key other)
    (nonce : List Byte) (call : AeadCall) (n n' : ν) :
    ∃ after : List Byte,
      (AeadObject.call (cls n) ⟨key, nonce⟩ call).1 = ⟨key, after⟩ ∧
      (AeadObject.call (cls n') ⟨other, nonce⟩ call).1 = ⟨other, after⟩ ∧
      (AeadObject.call (cls n) ⟨key, nonce⟩ call).2 = (AeadObject.call (cls n') ⟨other, nonce⟩ call).2 := by
  cases call with
  | setNonce new len => exact ⟨_, rfl, rfl, rfl⟩
  | setCounter counter => exact ⟨_, rfl, rfl, rfl⟩
  | encrypt mem c m len ad adlen ranges =>
      have equal := same.encrypt n n' mem c m len ad adlen (tablePtr nonce) ranges
      refine ⟨(asconAeadIncrementNonce (tablePtr nonce)).read 0 ascon128NonceSize, rfl, rfl, ?_⟩
      rw [AeadObject.call, AeadObject.call, AeadObject.encrypt, AeadObject.encrypt]
      simp only [equal]
  | decrypt mem m c len ad adlen ranges =>
      have equal := same.decrypt n n' mem m c len ad adlen (tablePtr nonce) ranges
      rw [AeadObject.call, AeadObject.call, AeadObject.decrypt, AeadObject.decrypt]
      simp only [equal]
      split
      · exact ⟨_, rfl, rfl, rfl⟩
      · exact ⟨nonce, rfl, rfl, rfl⟩

/-- Such keys make objects that behave alike. -/
theorem SameKeys.behaveAlike {cls : ν → AeadClass κ} {key other : κ} (same : SameKeys cls key other)
    (nonce : List Byte) : BehaveAlike cls ⟨key, nonce⟩ ⟨other, nonce⟩ := by
  intro calls
  rw [answers, answers]
  induction calls generalizing nonce with
  | nil => rfl
  | cons call calls ih =>
      obtain ⟨after, left, right, answer⟩ := same.call nonce call.1 call.2.1 call.2.2
      rw [List.map_cons, List.map_cons, Transducer.run_cons, Transducer.run_cons, left, right, answer, ih after]

/-! ### What setting a key should do -/

variable (cls : ν → AeadClass κ)

/-- The key constructor makes the object that the default constructor and `set_key` make. -/
def ConstructorUniform : Prop :=
  ∀ (storage key : Mem) (n n' : ν), ∃ built set : κ,
    (cls n).keyConstructor storage (some key) = some built ∧
    (cls n').setKey (cls n').defaultKey (some key) (cls n').keySize = some (true, set) ∧
    BehaveAlike cls (.ofKey built) (.ofKey set)

/-- A length of zero sets the key of zeroes, whatever pointer comes with it. -/
def ZeroKeyUniform : Prop :=
  ∀ (old : κ) (pointer : Option Mem) (n n' : ν), ∃ set zero : κ,
    (cls n).setKey old pointer 0 = some (true, set) ∧
    (cls n').setKey old (some zeroKey) (cls n').keySize = some (true, zero) ∧
    ∀ nonce : List Byte, BehaveAlike cls ⟨set, nonce⟩ ⟨zero, nonce⟩

/-- A key that is not set leaves the old one. -/
def FailureKeeps : Prop :=
  ∀ (old after : κ) (pointer : Option Mem) (len : Nat) (n : ν),
    (cls n).setKey old pointer len = some (false, after) → after = old

end

/-- All three. -/
structure KeySettingUniform {κ ν : Type} (cls : ν → AeadClass κ) : Prop where
  constructor : ConstructorUniform cls
  zeroKey : ZeroKeyUniform cls
  failure : FailureKeeps cls

/-! ### The classes that store the bytes -/

section

variable {keySize copied : Nat}
  {encrypt : Mem → Nat → Nat → Nat → Mem → Nat → Mem → Mem → Mem × Nat}
  {decrypt : Mem → Nat → Nat → Nat → Mem → Nat → Mem → Mem → AeadDecrypted}

/-- The same key is alike without noise. -/
theorem sameKeys_refl {κ : Type} (cls : AeadClass κ) (key : κ) : SameKeys (fun _ : Unit => cls) key key :=
  ⟨fun _ _ _ _ _ _ _ _ _ _ => rfl, fun _ _ _ _ _ _ _ _ _ _ => rfl⟩

theorem rawKeyClass_constructor :
    ConstructorUniform (fun _ : Unit => rawKeyClass keySize keySize encrypt decrypt) := by
  intro storage key n n'
  refine ⟨_, key.read 0 keySize, rfl, ?_, ?_⟩
  · rw [rawKeyClass]
    simp only [if_pos]
  · rw [Nat.sub_self, read_zero, List.append_nil]
    exact (sameKeys_refl _ _).behaveAlike _

theorem rawKeyClass_zeroKey (some_key : 0 < keySize) :
    ZeroKeyUniform (fun _ : Unit => rawKeyClass keySize copied encrypt decrypt) := by
  intro old pointer n n'
  have zeroes : zeroKey.read 0 keySize = List.replicate keySize 0 := by
    refine List.ext_getElem? fun i => ?_
    rw [getElem?_read, List.getElem?_replicate]
    rfl
  refine ⟨List.replicate keySize 0, zeroKey.read 0 keySize, ?_, ?_, fun nonce => ?_⟩
  · rw [rawKeyClass]
    simp only [if_neg (Nat.ne_of_lt some_key), if_pos]
  · rw [rawKeyClass]
    simp only [if_pos]
  · rw [zeroes]
    exact (sameKeys_refl _ _).behaveAlike _

theorem rawKeyClass_failure :
    FailureKeeps (fun _ : Unit => rawKeyClass keySize copied encrypt decrypt) := by
  intro old after pointer len n failed
  rw [rawKeyClass] at failed
  simp only at failed
  split at failed
  · nomatch failed
  · split at failed
    · nomatch failed
    · exact (congrArg Prod.snd (Option.some.inj failed)).symm

end

/-! ### The classes that store a pre-computed key -/

section

variable (p : IsapParams)

theorem isapKeyClass_constructor : ConstructorUniform (fun _ : Unit => isapKeyClass p) := by
  intro storage key n n'
  refine ⟨p.aeadInit key, p.aeadInit key, ?_, ?_, (sameKeys_refl _ _).behaveAlike _⟩
  · rw [isapKeyClass]
    simp only [isapConstructor, if_pos, Option.map_some]
  · rw [isapKeyClass]
    simp only [if_pos]

/-- A length of zero with a null pointer has no result. -/
theorem isapKeyClass_not_zeroKey : ¬ ZeroKeyUniform (fun _ : Unit => isapKeyClass p) := by
  intro uniform
  obtain ⟨_, _, set_eq, _⟩ := uniform (p.aeadInit zeroKey) none () ()
  nomatch set_eq

theorem isapKeyClass_failure : FailureKeeps (fun _ : Unit => isapKeyClass p) := by
  intro old after pointer len n failed
  rw [isapKeyClass] at failed
  cases pointer with
  | none =>
      simp only at failed
      split at failed
      · nomatch failed
      · exact (congrArg Prod.snd (Option.some.inj failed)).symm
  | some key =>
      simp only at failed
      split at failed
      · nomatch failed
      · split at failed
        · nomatch failed
        · split at failed
          · nomatch failed
          · exact (congrArg Prod.snd (Option.some.inj failed)).symm

end

/-! ### The classes that store a masked key -/

section

variable (cfg : MaskedConfig) (v : AeadVariant)

/-- Sharings of one key are alike, whatever the noise of the calls. -/
theorem maskedClass_same {k : Mem} (a b : MaskedKeyOf cfg.keyShares v k) :
    SameKeys (maskedClass cfg v) a.words b.words where
  encrypt := fun n n' mem c m len ad adlen nonce ranges => by
    have left := maskedAeadEncrypt_eq cfg v a n.locals mem ad adlen nonce ranges
    have right := maskedAeadEncrypt_eq cfg v b n'.locals mem ad adlen nonce ranges
    cases v <;> exact left.trans right.symm
  decrypt := fun n n' mem m c len ad adlen nonce ranges => by
    have left := maskedAeadDecrypt_eq cfg v a n.locals mem ad adlen nonce ranges
    have right := maskedAeadDecrypt_eq cfg v b n'.locals mem ad adlen nonce ranges
    cases v <;> exact left.trans right.symm

theorem keyShares_pos : 0 < cfg.keyShares := Nat.lt_of_lt_of_le Nat.zero_lt_two cfg.keyShares_range.1

theorem keyShares_le_six : cfg.keyShares ≤ 6 := Nat.le_trans cfg.keyShares_range.2 (by decide)

/-- `init` of a class, as a sharing of the key. -/
def maskedKeyOf (k : Mem) (trng : Trng) : MaskedKeyOf cfg.keyShares v k :=
  match v with
  | .ascon128 => maskedKeyOf128 (keyShares_pos cfg) (keyShares_le_six cfg) .ascon128 (Or.inl rfl) k trng
  | .ascon128a => maskedKeyOf128 (keyShares_pos cfg) (keyShares_le_six cfg) .ascon128a (Or.inr rfl) k trng
  | .ascon80pq => maskedKeyOf160 (keyShares_pos cfg) (keyShares_le_six cfg) k trng

theorem maskedClass_constructor : ConstructorUniform (maskedClass cfg v) := by
  intro storage key n n'
  refine ⟨(maskedKeyOf cfg v key n.trng).words, (maskedKeyOf cfg v key n'.trng).words, ?_, ?_,
    (maskedClass_same cfg v _ _).behaveAlike _⟩
  · cases v <;> rfl
  · cases v <;> rfl

theorem maskedClass_zeroKey : ZeroKeyUniform (maskedClass cfg v) := by
  intro old pointer n n'
  refine ⟨(maskedKeyOf cfg v zeroKey n.trng).words, (maskedKeyOf cfg v zeroKey n'.trng).words, ?_, ?_,
    (maskedClass_same cfg v _ _).behaveAlike⟩
  · cases v <;> rfl
  · cases v <;> rfl

theorem maskedClass_failure : FailureKeeps (maskedClass cfg v) := by
  have all (keySize : Nat) (init : Mem → Trng → MaskedKey)
      (encrypt : MaskedRun → Mem → Nat → Nat → Nat → Mem → Nat → Mem → MaskedKey → Mem × Nat)
      (decrypt : MaskedRun → Mem → Nat → Nat → Nat → Mem → Nat → Mem → MaskedKey → AeadDecrypted) :
      FailureKeeps (maskedKeyClass keySize init encrypt decrypt) := by
    intro old after pointer len n failed
    rw [maskedKeyClass] at failed
    simp only at failed
    split at failed
    · nomatch failed
    · split at failed
      · nomatch failed
      · exact (congrArg Prod.snd (Option.some.inj failed)).symm
  cases v with
  | ascon128 => exact all _ _ _ _
  | ascon128a => exact all _ _ _ _
  | ascon80pq => exact all _ _ _ _

end

/-! ### The constructors that take sixteen bytes of twenty -/

/-- An encryption of nothing under a nonce of zeroes tells two keys apart. -/
theorem not_behaveAlike_of_encrypt {κ : Type} {cls : AeadClass κ} {key other : κ}
    (different : (cls.encrypt zeroKey 0 0 0 zeroKey 0 (tablePtr (List.replicate ascon128NonceSize 0)) key).1 ≠
      (cls.encrypt zeroKey 0 0 0 zeroKey 0 (tablePtr (List.replicate ascon128NonceSize 0)) other).1) :
    ¬ BehaveAlike (fun _ : Unit => cls) (.ofKey key) (.ofKey other) := by
  intro alike
  have answer := alike [(.encrypt zeroKey 0 0 0 zeroKey 0 (Or.inl rfl), (), ())]
  have memories := congrArg (List.map (Option.map Prod.snd)) answer
  exact different (Option.some.inj (List.head_eq_of_cons_eq memories))

/-- The constructor leaves the last four bytes of the key as it finds them. -/
theorem rawKeyClass_not_constructor {encrypt : Mem → Nat → Nat → Nat → Mem → Nat → Mem → Mem → Mem × Nat}
    {decrypt : Mem → Nat → Nat → Nat → Mem → Nat → Mem → Mem → AeadDecrypted}
    (different : (encrypt zeroKey 0 0 0 zeroKey 0 (tablePtr (List.replicate ascon128NonceSize 0))
        (tablePtr (List.replicate 16 0 ++ List.replicate 4 0xff))).1 ≠
      (encrypt zeroKey 0 0 0 zeroKey 0 (tablePtr (List.replicate ascon128NonceSize 0))
        (tablePtr (List.replicate 20 0))).1) :
    ¬ ConstructorUniform
      (fun _ : Unit => rawKeyClass ascon80pqKeySize ascon128KeySize encrypt decrypt) := by
  intro uniform
  obtain ⟨built, set, built_eq, set_eq, alike⟩ := uniform (fun _ => 0xff) zeroKey () ()
  have built_key : List.replicate 16 0 ++ List.replicate 4 0xff = built := Option.some.inj built_eq
  have set_key : List.replicate 20 0 = set := congrArg Prod.snd (Option.some.inj set_eq)
  subst built_key set_key
  exact not_behaveAlike_of_encrypt different alike

/-- The state of ASCON-80pq in front of an empty message without associated data. -/
theorem ascon80pq_start_zero (npub k ad : Mem) :
    AeadVariant.ascon80pq.start ad 0 npub k =
      asconSeparator (asconAbsorbPartial (asconPermute (AeadVariant.ascon80pq.load asconInit npub k) 0) k 20 20) := by
  rw [AeadVariant.start, AeadVariant.startFrom]
  simp only [AeadVariant.absorbKey, AeadVariant.absorbData, if_neg (Nat.lt_irrefl 0), ascon80pqKeySize]

theorem aead80pq_not_constructor : ¬ ConstructorUniform (fun _ : Unit => aead80pq) := by
  refine rawKeyClass_not_constructor fun same => ?_
  have tag (k : Mem) :
      (ascon80pqAeadEncrypt zeroKey 0 0 0 zeroKey 0 (tablePtr (List.replicate ascon128NonceSize 0)) k).1.read 0 16 =
        (aeadStream .ascon80pq k).tag
          (AeadVariant.ascon80pq.start zeroKey 0 (tablePtr (List.replicate ascon128NonceSize 0)) k, 0) :=
    (aeadCalls_implements .ascon80pq zeroKey 0 (tablePtr (List.replicate ascon128NonceSize 0)) k).read_encrypt zeroKey
      (Or.inl rfl)
  have tags := congrArg (fun mem => Mem.read mem 0 16) same
  simp only [tag] at tags
  rw [ascon80pq_start_zero, ascon80pq_start_zero, asconPermute_zero, asconPermute_zero] at tags
  simp only [aeadStream, AeadVariant.finalize] at tags
  rw [asconPermute_zero, asconPermute_zero] at tags
  revert tags
  decide +kernel

/-- The tag of an empty message without associated data. -/
theorem sivTag_nil (npub k : Mem) :
    sivTag .ascon80pq zeroKey 0 npub k [] =
      Mem.read (byteForOffset (AeadVariant.ascon80pq.finalize (asconPad (asconSeparator
        (AeadVariant.ascon80pq.absorbKey (asconPermute (asconOverwriteBytes (asconOverwriteBytes
          (asconOverwriteBytes asconInit (tablePtr AeadVariant.ascon80pq.sivIv1) 0 4) k 4 20) npub 24 16) 0) k)) 0)
            k)) 24 16 := by
  have nothing (s : AsconState) (data : Mem) : asconAeadAbsorb8 s data 0 6 false = asconPad s 0 := by
    rw [asconAeadAbsorb8, aeadAbsorb, absorbLoop, if_neg (by decide)]
    rfl
  rw [sivTag, read_tagBuffer, AeadVariant.sivAuthenticate]
  simp only [AeadVariant.sivInit, AeadVariant.sivAbsorbMessage, List.length_nil, nothing, AeadVariant.absorbData,
    if_neg (Nat.lt_irrefl 0), ascon80pqKeySize, ascon80pqNonceSize]

theorem siv80pq_not_constructor : ¬ ConstructorUniform (fun _ : Unit => siv80pq) := by
  refine rawKeyClass_not_constructor fun same => ?_
  have tag (k : Mem) :
      (ascon80pqSivEncrypt zeroKey 0 0 0 zeroKey 0 (tablePtr (List.replicate ascon128NonceSize 0)) k).1.read 0 16 =
        sivTag .ascon80pq zeroKey 0 (tablePtr (List.replicate ascon128NonceSize 0)) k [] := by
    have sealed : (ascon80pqSivEncrypt zeroKey 0 0 0 zeroKey 0 (tablePtr (List.replicate ascon128NonceSize 0))
        k).1.read 0 16 = (sivCipher .ascon80pq zeroKey 0 (tablePtr (List.replicate ascon128NonceSize 0))
          k).sealMessage [] :=
      (sivCalls_implements .ascon80pq zeroKey 0 (tablePtr (List.replicate ascon128NonceSize 0))
        k).read_encrypt zeroKey (Or.inl rfl)
    have no_body : sivBody .ascon80pq k (sivTag .ascon80pq zeroKey 0
        (tablePtr (List.replicate ascon128NonceSize 0)) k []) [] = [] :=
      List.eq_nil_of_length_eq_zero (length_keystream _ _ _ _)
    refine sealed.trans ?_
    rw [SealedCipher.sealMessage]
    exact congrArg (· ++ _) no_body
  have tags := congrArg (fun mem => Mem.read mem 0 16) same
  simp only [tag] at tags
  rw [sivTag_nil, sivTag_nil, asconPermute_zero, asconPermute_zero] at tags
  simp only [AeadVariant.finalize] at tags
  rw [asconPermute_zero, asconPermute_zero] at tags
  revert tags
  decide +kernel

/-! ### All classes -/

/-- The classes of the four files. -/
inductive CppClass where
  | aead (v : AeadVariant)
  | siv (v : AeadVariant)
  | isap (v : AeadVariant)
  | masked (v : AeadVariant)

/-- A property of the class, with the noise it meets. -/
def CppClass.Holds (property : ∀ {κ ν : Type}, (ν → AeadClass κ) → Prop) (cfg : MaskedConfig) :
    CppClass → Prop
  | aead v => property fun _ : Unit => aeadClass v
  | siv v => property fun _ : Unit => sivClass v
  | isap v => property fun _ : Unit => isapClass v
  | masked v => property (maskedClass cfg v)

section

variable (cfg : MaskedConfig) (c : CppClass)

theorem constructorUniform_iff :
    c.Holds @ConstructorUniform cfg ↔ c ≠ .aead .ascon80pq ∧ c ≠ .siv .ascon80pq := by
  cases c with
  | aead v =>
      cases v with
      | ascon128 => exact iff_of_true rawKeyClass_constructor ⟨nofun, nofun⟩
      | ascon128a => exact iff_of_true rawKeyClass_constructor ⟨nofun, nofun⟩
      | ascon80pq => exact iff_of_false aead80pq_not_constructor fun excluded => excluded.1 rfl
  | siv v =>
      cases v with
      | ascon128 => exact iff_of_true rawKeyClass_constructor ⟨nofun, nofun⟩
      | ascon128a => exact iff_of_true rawKeyClass_constructor ⟨nofun, nofun⟩
      | ascon80pq => exact iff_of_false siv80pq_not_constructor fun excluded => excluded.2 rfl
  | isap v =>
      cases v with
      | ascon128 => exact iff_of_true (isapKeyClass_constructor _) ⟨nofun, nofun⟩
      | ascon128a => exact iff_of_true (isapKeyClass_constructor _) ⟨nofun, nofun⟩
      | ascon80pq => exact iff_of_true (isapKeyClass_constructor _) ⟨nofun, nofun⟩
  | masked v => exact iff_of_true (maskedClass_constructor cfg v) ⟨nofun, nofun⟩

theorem zeroKeyUniform_iff : c.Holds @ZeroKeyUniform cfg ↔ ∀ v, c ≠ .isap v := by
  have positive : 0 < 16 ∧ 0 < 20 := by decide
  cases c with
  | aead v =>
      cases v with
      | ascon128 => exact iff_of_true (rawKeyClass_zeroKey positive.1) nofun
      | ascon128a => exact iff_of_true (rawKeyClass_zeroKey positive.1) nofun
      | ascon80pq => exact iff_of_true (rawKeyClass_zeroKey positive.2) nofun
  | siv v =>
      cases v with
      | ascon128 => exact iff_of_true (rawKeyClass_zeroKey positive.1) nofun
      | ascon128a => exact iff_of_true (rawKeyClass_zeroKey positive.1) nofun
      | ascon80pq => exact iff_of_true (rawKeyClass_zeroKey positive.2) nofun
  | isap v =>
      refine iff_of_false ?_ fun excluded => excluded v rfl
      cases v with
      | ascon128 => exact isapKeyClass_not_zeroKey _
      | ascon128a => exact isapKeyClass_not_zeroKey _
      | ascon80pq => exact isapKeyClass_not_zeroKey _
  | masked v => exact iff_of_true (maskedClass_zeroKey cfg v) nofun

theorem failureKeeps : c.Holds @FailureKeeps cfg := by
  cases c with
  | aead v =>
      cases v with
      | ascon128 => exact rawKeyClass_failure
      | ascon128a => exact rawKeyClass_failure
      | ascon80pq => exact rawKeyClass_failure
  | siv v =>
      cases v with
      | ascon128 => exact rawKeyClass_failure
      | ascon128a => exact rawKeyClass_failure
      | ascon80pq => exact rawKeyClass_failure
  | isap v =>
      cases v with
      | ascon128 => exact isapKeyClass_failure _
      | ascon128a => exact isapKeyClass_failure _
      | ascon80pq => exact isapKeyClass_failure _
  | masked v => exact maskedClass_failure cfg v

/-- A class sets its keys uniformly when it has all three properties. -/
theorem keySettingUniform_iff :
    c.Holds @KeySettingUniform cfg ↔
      c.Holds @ConstructorUniform cfg ∧ c.Holds @ZeroKeyUniform cfg ∧ c.Holds @FailureKeeps cfg := by
  have parts {κ ν : Type} (cls : ν → AeadClass κ) :
      KeySettingUniform cls ↔ ConstructorUniform cls ∧ ZeroKeyUniform cls ∧ FailureKeeps cls :=
    ⟨fun all => ⟨all.constructor, all.zeroKey, all.failure⟩, fun ⟨constructor, zeroKey, failure⟩ =>
      ⟨constructor, zeroKey, failure⟩⟩
  cases c with
  | aead v => exact parts _
  | siv v => exact parts _
  | isap v => exact parts _
  | masked v => exact parts _

end

/-- The key constructor agrees with `set_key` in all classes but two, a length of zero sets the key of zeroes in all
classes but those of ISAP, and no class changes the key when it returns false. -/
theorem cpp_key_setting_iff (cfg : MaskedConfig) (c : CppClass) :
    (c.Holds @KeySettingUniform cfg ↔
      c ≠ .aead .ascon80pq ∧ c ≠ .siv .ascon80pq ∧ ∀ v, c ≠ .isap v) ∧
    (c.Holds @ConstructorUniform cfg ↔ c ≠ .aead .ascon80pq ∧ c ≠ .siv .ascon80pq) ∧
    (c.Holds @ZeroKeyUniform cfg ↔ ∀ v, c ≠ .isap v) ∧
    c.Holds @FailureKeeps cfg := by
  refine ⟨?_, constructorUniform_iff cfg c, zeroKeyUniform_iff cfg c, failureKeeps cfg c⟩
  rw [keySettingUniform_iff, constructorUniform_iff, zeroKeyUniform_iff]
  constructor
  · rintro ⟨⟨aead, siv⟩, isap, _⟩
    exact ⟨aead, siv, isap⟩
  · rintro ⟨aead, siv, isap⟩
    exact ⟨⟨aead, siv⟩, isap, failureKeeps cfg c⟩

/-- The constructor of `aead80pq` on a key of zeroes in storage that held ones, and `set_key` of `isap128` with a null
pointer and a length of zero. -/
theorem cpp_key_setting_fails :
    ¬ KeySettingUniform (fun _ : Unit => aead80pq) ∧ ¬ KeySettingUniform (fun _ : Unit => isap128) :=
  ⟨fun all => aead80pq_not_constructor all.constructor, fun all =>
    isapKeyClass_not_zeroKey _ all.zeroKey⟩

end AsconSuite
