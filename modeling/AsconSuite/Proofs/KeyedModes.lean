/-
Module: AsconSuite.Proofs.KeyedModes
Layer: Proofs
Purpose: ASCON-KMAC, ASCON-KMACA, ASCON-KDF and ASCON-KDFA are the customized extendable-output functions of the
  key followed by the message, for every output length and every way to cut the calls; the precomputed initial
  states of the ASCON-XOFA family are those of the general construction.
Imports: AsconSuite.Kdf.Kdf, AsconSuite.Mac.Kmaca, AsconSuite.Proofs.InitialStates, AsconSuite.Proofs.XofStream
Trusted boundary: none
Main exports: XofVariant.customized, XofVariant.derive, KeyedMode, keyed_modes_are_customized_xofs
-/
import AsconSuite.Kdf.Kdf
import AsconSuite.Mac.Kmaca
import AsconSuite.Proofs.InitialStates
import AsconSuite.Proofs.XofStream

namespace AsconSuite

open ByteWord ByteMemory
open Transducer (run)

/-! ### The general construction on byte strings -/

namespace XofVariant

/-- The first round of the permutation between blocks. -/
def firstRound : XofVariant → Nat
  | xof => 0
  | xofa => 4

/-- The first word in front of a name, without the length of the output. -/
def nameWord : XofVariant → Word
  | xof => 0x00400c0000000000
  | xofa => 0x00400c0400000000

/-- The state behind a function name of at most 32 characters. -/
def named (v : XofVariant) (name : List Byte) (outlen : Nat) : AsconState :=
  asconPermute
    (asconOverwriteBytes (asconOverwriteBytes asconInit (tablePtr name) 8 asconHashSize)
      (xofBlock v.nameWord (xofOutputLength outlen)) 0 8) 0

/-- The machine behind a name and a customization string. An empty string leaves no block of its own. -/
def customized (v : XofVariant) (name : List Byte) (outlen : Nat) (custom : List Byte) : AsconState × Nat :=
  if custom = [] then (v.named name outlen, 0)
  else
    let absorbed := (run (xofAbsorbStep v.firstRound) (v.named name outlen, 0) custom).1
    (asconSeparator (asconPermute (asconPad absorbed.1 absorbed.2) v.firstRound), 0)

/-- The first bytes that the customized function puts out for some data. -/
def derive (v : XofVariant) (name : List Byte) (outlen : Nat) (custom data : List Byte) (len : Nat) : List Byte :=
  (v.sponge.call (v.sponge.call (v.customized name outlen custom, false) (.absorb data)).1 (.squeeze len)).2

end XofVariant

theorem xofAbsorbCustom_eq_customized (v : XofVariant) (name : List Byte) (outlen : Nat) (custom : Mem)
    (customlen : Nat) :
    xofAbsorbCustom v.firstRound ⟨v.named name outlen, 0, false⟩ custom customlen =
      .absorbing (v.customized name outlen (custom.read 0 customlen)) := by
  rw [xofAbsorbCustom, XofVariant.customized]
  rcases Nat.eq_zero_or_pos customlen with rfl | some_custom
  · rfl
  · have nonempty : custom.read 0 customlen ≠ [] := List.ne_nil_of_length_pos (by simpa using some_custom)
    rw [if_pos some_custom, if_neg nonempty, xofAbsorb_eq_run v.firstRound (Nat.zero_lt_succ 7)]
    rfl

theorem XofVariant.customized_stands (v : XofVariant) (name : List Byte) (outlen : Nat) (custom : List Byte) :
    (XofState.absorbing (v.customized name outlen custom)).Stands (v.customized name outlen custom, false) := by
  refine ⟨?_, rfl⟩
  rw [XofVariant.customized]
  split
  · exact Nat.zero_lt_succ 7
  · exact Nat.zero_lt_succ 7

/-- Initialization with a short name and a customization string. -/
theorem XofVariant.start_initCustom (v : XofVariant) {name : List Byte} (short : name.length ≤ asconHashSize)
    (custom : Mem) (customlen outlen : Nat) :
    v.start (.initCustom (some name) custom customlen outlen) =
      .absorbing (v.customized name outlen (custom.read 0 customlen)) := by
  rw [← xofAbsorbCustom_eq_customized]
  cases v with
  | xof =>
      rw [XofVariant.start, asconXofInitCustom, xofInitCustom]
      simp only [Option.getD_some, if_pos short]
      rfl
  | xofa =>
      rw [XofVariant.start, asconXofaInitCustom, xofInitCustom]
      simp only [Option.getD_some, if_pos short]
      rfl

/-- A squeeze call writes what the sponge puts out. -/
theorem XofVariant.squeeze_writes (v : XofVariant) {xof : XofState} {st : (AsconState × Nat) × Bool}
    (stands : xof.Stands st) (mem : Mem) (out outlen : Nat) :
    (v.squeeze xof mem out outlen).2 = mem.write out (v.sponge.call st (.squeeze outlen)).2 := by
  obtain ⟨inside, rfl⟩ := stands
  cases v with
  | xof => exact congrArg Prod.snd (asconXofSqueeze_eq_run inside mem out outlen)
  | xofa => exact congrArg Prod.snd (asconXofaSqueeze_eq_run inside mem out outlen)

/-! ### The precomputed states of the ASCON-XOFA family -/

theorem asconXofaTable_same : asconXofaTable.SameState := ⟨by decide +kernel, by decide +kernel⟩

theorem asconHashaTable_same : asconHashaTable.SameState := ⟨by decide +kernel, by decide +kernel⟩

theorem asconKmacaTable_same : asconKmacaTable.SameState := ⟨by decide +kernel, by decide +kernel⟩

theorem named_xofa : XofVariant.xofa.named [] 0 = asconXofaTable.sliced64 := by
  rw [XofVariant.named, asconPermute_zero]
  decide +kernel

theorem named_hasha : XofVariant.xofa.named [] 32 = asconHashaTable.sliced64 := by
  rw [XofVariant.named, asconPermute_zero]
  decide +kernel

theorem named_kmaca : XofVariant.xofa.named kmacName asconKmacaSize = asconKmacaTable.sliced64 := by
  rw [XofVariant.named, asconPermute_zero]
  decide +kernel

theorem named_kmac : XofVariant.xof.named kmacName asconKmacSize = asconKmacTable.sliced64 := by
  rw [← initialState_kmac]
  rfl

/-- `ascon_xofa_init_fixed` computes the state of an object without a name, or takes it from a table. -/
theorem asconXofaInitFixed_eq (outlen : Nat) :
    asconXofaInitFixed outlen = .absorbing (XofVariant.xofa.customized [] outlen []) := by
  have nameless : asconOverwriteBytes asconInit (tablePtr []) 8 asconHashSize = asconInit := by
    decide +kernel
  rw [asconXofaInitFixed, xofInitFixed, XofVariant.customized, if_pos rfl]
  by_cases none_given : xofOutputLength outlen = 0
  · have general : XofVariant.xofa.named [] outlen = asconXofaTable.sliced64 := by
      rw [← named_xofa, XofVariant.named, none_given]
      rfl
    rw [general]
    simp only [none_given]
    rfl
  · by_cases standard : xofOutputLength outlen = 32
    · have general : XofVariant.xofa.named [] outlen = asconHashaTable.sliced64 := by
        rw [← named_hasha, XofVariant.named, standard]
        rfl
      rw [general]
      simp only [standard]
      rfl
    · simp only [if_neg none_given, if_neg standard, XofVariant.named, nameless]
      rfl

/-- The short cuts of the ASCON-XOFA family lead to the states of the general path, and the backends agree on them. -/
theorem xofa_initial_states_agree :
    (∀ outlen functionName custom, functionName = none ∨ functionName = some [] →
      asconXofaInitFixed outlen = asconXofaInitCustom functionName custom 0 outlen) ∧
    (∀ outlen, outlen = 0 ∨ 2 ^ 29 ≤ outlen → asconXofaInitFixed outlen = asconXofaInit) ∧
    asconXofaInitFixed 32 = asconHashaInit ∧
    asconXofaTable.SameState ∧ asconHashaTable.SameState ∧ asconKmacaTable.SameState := by
  refine ⟨?_, ?_, rfl, asconXofaTable_same, asconHashaTable_same, asconKmacaTable_same⟩
  · intro outlen functionName custom nameless
    have same : asconXofaInitCustom functionName custom 0 outlen = asconXofaInitCustom (some []) custom 0 outlen := by
      rcases nameless with rfl | rfl
      · rfl
      · rfl
    have general := @XofVariant.start_initCustom .xofa [] (Nat.zero_le _) custom 0 outlen
    rw [same, asconXofaInitFixed_eq]
    exact general.symm
  · intro outlen any_length
    have effective : xofOutputLength outlen = 0 := by
      rw [xofOutputLength]
      split <;> omega
    rw [asconXofaInitFixed, xofInitFixed, effective]
    rfl

/-! ### Modes -/

/-- The functions that key an extendable-output function with a name of their own. -/
inductive KeyedMode where
  | kmac
  | kmaca
  | kdf
  | kdfa
deriving DecidableEq

namespace KeyedMode

def variant : KeyedMode → XofVariant
  | kmac | kdf => .xof
  | kmaca | kdfa => .xofa

def name : KeyedMode → List Byte
  | kmac | kmaca => kmacName
  | kdf | kdfa => kdfName

/-- The initialization function of a mode. -/
def init : KeyedMode → Mem → Nat → Mem → Nat → Nat → XofState
  | kmac => asconKmacInit
  | kmaca => asconKmacaInit
  | kdf => asconKdfInit
  | kdfa => asconKdfaInit

theorem name_short (mode : KeyedMode) : mode.name.length ≤ asconHashSize := by
  cases mode <;> decide

/-- An initialized object has absorbed the key behind the name and the customization string. -/
theorem init_eq (mode : KeyedMode) (key : Mem) (keylen : Nat) (custom : Mem) (customlen outlen : Nat) :
    mode.init key keylen custom customlen outlen =
      mode.variant.absorb (.absorbing (mode.variant.customized mode.name outlen (custom.read 0 customlen)))
        key keylen := by
  have general (v : XofVariant) {name : List Byte} (short : name.length ≤ asconHashSize) :=
    v.start_initCustom short custom customlen outlen
  cases mode with
  | kmac =>
      rw [init, asconKmacInit]
      split
      · next standard =>
          rw [standard, asconXofAbsorbCustom, asconKmacInitPrecomputed, ← named_kmac]
          exact congrArg (asconXofAbsorb · key keylen)
            (xofAbsorbCustom_eq_customized .xof kmacName asconKmacSize custom customlen)
      · exact congrArg (asconXofAbsorb · key keylen) (general .xof (name_short kmac))
  | kmaca =>
      rw [init, asconKmacaInit]
      split
      · next standard =>
          rw [standard, asconXofaAbsorbCustom, asconKmacaInitPrecomputed, ← named_kmaca]
          exact congrArg (asconXofaAbsorb · key keylen)
            (xofAbsorbCustom_eq_customized .xofa kmacName asconKmacaSize custom customlen)
      · exact congrArg (asconXofaAbsorb · key keylen) (general .xofa (name_short kmaca))
  | kdf => exact congrArg (asconXofAbsorb · key keylen) (general .xof (name_short kdf))
  | kdfa => exact congrArg (asconXofaAbsorb · key keylen) (general .xofa (name_short kdfa))

/-- An initialized object stands for the sponge that has absorbed the key. -/
theorem init_stands (mode : KeyedMode) (key : Mem) (keylen : Nat) (custom : Mem) (customlen outlen : Nat) :
    (mode.init key keylen custom customlen outlen).Stands
      (mode.variant.sponge.call (mode.variant.customized mode.name outlen (custom.read 0 customlen), false)
        (.absorb (key.read 0 keylen))).1 := by
  rw [init_eq]
  exact (mode.variant.absorb_refines
    (mode.variant.customized_stands mode.name outlen (custom.read 0 customlen)) ⟨key, keylen⟩).1

/-- One absorb call and one squeeze call behind the initialization. -/
theorem oneShot_eq (mode : KeyedMode) (key : Mem) (keylen : Nat) (input : Mem) (inlen : Nat) (custom : Mem)
    (customlen outlen : Nat) (mem : Mem) (out : Nat) :
    (mode.variant.squeeze (mode.variant.absorb (mode.init key keylen custom customlen outlen) input inlen) mem out
        outlen).2 =
      mem.write out (mode.variant.derive mode.name outlen (custom.read 0 customlen)
        (key.read 0 keylen ++ input.read 0 inlen) outlen) := by
  have keyed := mode.init_stands key keylen custom customlen outlen
  have absorbed := (mode.variant.absorb_refines keyed ⟨input, inlen⟩).1
  rw [AbsorbCall.data, Sponge.absorb_absorb] at absorbed
  exact mode.variant.squeeze_writes absorbed mem out outlen

end KeyedMode
/-- The object and the output of each phase are those of the customized function that has absorbed the key, for
every cut of the phases into calls, and the functions in one call write the bytes of the key followed by the
message. -/
theorem keyed_modes_are_customized_xofs :
    (∀ (mode : KeyedMode) (key : Mem) (keylen : Nat) (custom : Mem) (customlen outlen : Nat) (phases : List XofPhase),
      let start := (mode.variant.customized mode.name outlen (custom.read 0 customlen), false)
      let keyed := mode.variant.runPhases (mode.init key keylen custom customlen outlen) phases
      let sponge := run mode.variant.sponge.call start
        (.absorb (key.read 0 keylen) :: phases.map XofPhase.content)
      keyed.1 = .ofSponge sponge.1 ∧ [] :: keyed.2 = sponge.2) ∧
    ∀ (key : Mem) (keylen : Nat) (input : Mem) (inlen : Nat) (custom : Mem) (customlen : Nat) (mem : Mem)
      (out outlen : Nat),
      let keyAndInput := key.read 0 keylen ++ input.read 0 inlen
      let custom' := custom.read 0 customlen
      asconKmac key keylen input inlen custom customlen mem out outlen =
          mem.write out (XofVariant.xof.derive kmacName outlen custom' keyAndInput outlen) ∧
        asconKmaca key keylen input inlen custom customlen mem out outlen =
          mem.write out (XofVariant.xofa.derive kmacName outlen custom' keyAndInput outlen) ∧
        asconKdf mem out outlen key keylen custom customlen =
          mem.write out (XofVariant.xof.derive kdfName outlen custom' (key.read 0 keylen) outlen) ∧
        asconKdfa mem out outlen key keylen custom customlen =
          mem.write out (XofVariant.xofa.derive kdfName outlen custom' (key.read 0 keylen) outlen) := by
  refine ⟨fun mode key keylen custom customlen outlen phases => ?_,
    fun key keylen input inlen custom customlen mem out outlen => ⟨?_, ?_, ?_, ?_⟩⟩
  · have keyed := mode.init_stands key keylen custom customlen outlen
    obtain ⟨object, output⟩ := mode.variant.runPhases_refines keyed phases
    exact ⟨object.eq_ofSponge, congrArg ([] :: ·) output⟩
  · exact KeyedMode.kmac.oneShot_eq key keylen input inlen custom customlen outlen mem out
  · exact KeyedMode.kmaca.oneShot_eq key keylen input inlen custom customlen outlen mem out
  · have keyed := KeyedMode.kdf.init_stands key keylen custom customlen outlen
    exact XofVariant.xof.squeeze_writes keyed mem out outlen
  · have keyed := KeyedMode.kdfa.init_stands key keylen custom customlen outlen
    exact XofVariant.xofa.squeeze_writes keyed mem out outlen

end AsconSuite
