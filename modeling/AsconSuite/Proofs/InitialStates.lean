/-
Module: AsconSuite.Proofs.InitialStates
Layer: Proofs
Purpose: The precomputed initial states are those that the general construction computes, for every output
  length, and the three forms of each table are one state.
Imports: AsconSuite.Mac.Kmac, AsconSuite.Proofs.DirectBytes, AsconSuite.Proofs.SlicedWords
Trusted boundary: none
Main exports: InitialTable.SameState, asconXofInitCustom_of_short, initial_states_agree
-/
import AsconSuite.Mac.Kmac
import AsconSuite.Proofs.DirectBytes
import AsconSuite.Proofs.SlicedWords

namespace AsconSuite

open ByteWord ByteMemory

/-! ### The general construction -/

/-- All twelve rounds, in their order. -/
theorem asconPermute_zero (s : AsconState) :
    asconPermute s 0 =
      let x := [0, 1, 2, 3, 4, 5, 6, 7, 8, 9, 10, 11].foldl permuteRound { s with w2 := ~~~s.w2 }
      { x with w2 := ~~~x.w2 } := by
  simp [asconPermute, permuteRounds]

/-- The state in front of the customization string, for a name that is not hashed. -/
def initialState (name : List Byte) (outlen : Nat) : AsconState :=
  asconPermute
    (asconOverwriteBytes (asconOverwriteBytes asconInit (tablePtr name) 8 asconHashSize)
      (xofBlock 0x00400c0000000000#64 outlen) 0 8) 0

theorem asconXofInitCustom_of_short (functionName : Option (List Byte)) (custom : Mem)
    (customlen outlen : Nat) (short : (functionName.getD []).length ≤ asconHashSize) :
    asconXofInitCustom functionName custom customlen outlen =
      asconXofAbsorbCustom ⟨initialState (functionName.getD []) (xofOutputLength outlen), 0, false⟩ custom
        customlen := by
  rw [asconXofInitCustom, xofInitCustom]
  simp only [if_pos short]
  rfl

/-- An empty customization string adds nothing. -/
theorem asconXofAbsorbCustom_zero (xof : XofState) (custom : Mem) :
    asconXofAbsorbCustom xof custom 0 = xof := rfl

/-! ### The tables -/

theorem initialState_xof : initialState [] 0 = asconXofTable.sliced64 := by
  rw [initialState, asconPermute_zero]
  decide +kernel

theorem initialState_hash : initialState [] 32 = asconHashTable.sliced64 := by
  rw [initialState, asconPermute_zero]
  decide +kernel

theorem initialState_kmac : initialState kmacName 32 = asconKmacTable.sliced64 := by
  rw [initialState, asconPermute_zero]
  decide +kernel

/-- The forms of a table for the three backends stand for the same words. -/
structure InitialTable.SameState (table : InitialTable) : Prop where
  sliced32 : Sliced32.ofSliced table.sliced32 = table.sliced64
  bytes : bytesWords table.bytes = table.sliced64

theorem asconXofTable_same : asconXofTable.SameState := ⟨by decide +kernel, by decide +kernel⟩

theorem asconHashTable_same : asconHashTable.SameState := ⟨by decide +kernel, by decide +kernel⟩

theorem asconKmacTable_same : asconKmacTable.SameState := ⟨by decide +kernel, by decide +kernel⟩

/-! ### Initialization -/

/-- `ascon_xof_init_fixed` computes the state of an object without a name, or takes it from a table. -/
theorem asconXofInitFixed_eq (outlen : Nat) :
    asconXofInitFixed outlen = ⟨initialState [] (xofOutputLength outlen), 0, false⟩ := by
  have nameless : asconOverwriteBytes asconInit (tablePtr []) 8 asconHashSize = asconInit := by
    decide +kernel
  rw [asconXofInitFixed, xofInitFixed]
  by_cases none_given : xofOutputLength outlen = 0
  · simp only [none_given, initialState_xof]
    rfl
  · simp only [if_neg none_given]
    by_cases standard : xofOutputLength outlen = 32
    · simp only [standard, initialState_hash]
      rfl
    · simp only [if_neg standard, initialState, nameless]

theorem asconKmacInit_standard (key : Mem) (keylen : Nat) (custom : Mem) (customlen : Nat) :
    asconKmacInit key keylen custom customlen asconKmacSize =
      asconXofAbsorb (asconXofInitCustom (some kmacName) custom customlen asconKmacSize) key keylen := by
  have short : ((some kmacName).getD []).length ≤ asconHashSize := by decide
  have length_eq : xofOutputLength asconKmacSize = 32 := by decide
  have precomputed : (⟨initialState ((some kmacName).getD []) 32, 0, false⟩ : XofState) =
      asconKmacInitPrecomputed := by
    rw [Option.getD_some, initialState_kmac]
    rfl
  rw [asconXofInitCustom_of_short _ custom customlen _ short, length_eq, precomputed, asconKmacInit,
    if_pos rfl]

/-- The short cuts of the initialization functions lead to the states of the general path, and the backends
agree on them. -/
theorem initial_states_agree :
    (∀ outlen functionName custom, functionName = none ∨ functionName = some [] →
      asconXofInitFixed outlen = asconXofInitCustom functionName custom 0 outlen) ∧
    (∀ outlen, outlen = 0 ∨ 2 ^ 29 ≤ outlen → asconXofInitFixed outlen = asconXofInit) ∧
    asconXofInitFixed asconHashSize = asconHashInit ∧
    (∀ key keylen custom customlen input inlen,
      asconKmacInit key keylen custom customlen asconKmacSize =
        asconXofAbsorb (asconXofInitCustom (some kmacName) custom customlen asconKmacSize) key keylen ∧
      asconXofAbsorb (asconKmacInit key keylen custom customlen asconKmacSize) input inlen =
        asconXofAbsorb (asconXofAbsorb
          (asconXofInitCustom (some kmacName) custom customlen asconKmacSize) key keylen) input inlen) ∧
    asconXofTable.SameState ∧ asconHashTable.SameState ∧ asconKmacTable.SameState := by
  refine ⟨?_, ?_, rfl, ?_, asconXofTable_same, asconHashTable_same, asconKmacTable_same⟩
  · intro outlen functionName custom nameless
    have empty : functionName.getD [] = [] := by
      rcases nameless with rfl | rfl
      · rfl
      · rfl
    have short : (functionName.getD []).length ≤ asconHashSize := by
      rw [empty]
      exact Nat.zero_le _
    rw [asconXofInitFixed_eq, asconXofInitCustom_of_short functionName custom 0 outlen short, empty,
      asconXofAbsorbCustom_zero]
  · intro outlen any_length
    have effective : xofOutputLength outlen = 0 := by
      rw [xofOutputLength]
      split <;> omega
    rw [asconXofInitFixed_eq, effective, initialState_xof]
    rfl
  · intro key keylen custom customlen input inlen
    rw [asconKmacInit_standard]
    exact ⟨rfl, rfl⟩

end AsconSuite
