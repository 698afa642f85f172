/-
Module: AsconSuite.Proofs.NativeState
Layer: Proofs
Purpose: A state that is stored in host byte order is loaded again, and its forty bytes are all that was written. The
  loop of the permutation, one round at a time.
Imports: AsconSuite.Proofs.RegAllocCache, AsconSuite.Tools.NativeState
Trusted boundary: none
Main exports: loadState_storeState, storeState_apart
-/
import AsconSuite.Proofs.RegAllocCache
import AsconSuite.Tools.NativeState

namespace AsconSuite

open ByteWord ByteMemory

theorem nativeWord_storeWord (mem : Mem) (p : Nat) (w : Word) : nativeWord (storeWord mem p w) p = w :=
  Machine.word_write (n := 8) mem p w

theorem nativeWord_storeWord_apart (mem : Mem) {p q : Nat} (w : Word) (apart : q + 8 ≤ p ∨ p + 8 ≤ q) :
    nativeWord (storeWord mem p w) q = nativeWord mem q :=
  Machine.word_write_apart (n := 8) mem w apart

theorem storeWord_apart (mem : Mem) {p a : Nat} (w : Word) (apart : a < p ∨ p + 8 ≤ a) :
    storeWord mem p w a = mem a := by
  apply write_apply_outside
  rwa [Machine.length_littleBytes]

/-- A state that was stored is loaded. -/
theorem loadState_storeState (mem : Mem) (p : Nat) (x : AsconState) : loadState (storeState mem p x) p = x := by
  have below (mem : Mem) {i j : Nat} (w : Word) (later : i + 8 ≤ j) :
      nativeWord (storeWord mem (p + j) w) (p + i) = nativeWord mem (p + i) :=
    nativeWord_storeWord_apart mem w (Or.inl (by omega))
  have first (mem : Mem) {j : Nat} (w : Word) (later : 8 ≤ j) :
      nativeWord (storeWord mem (p + j) w) p = nativeWord mem p :=
    nativeWord_storeWord_apart mem w (Or.inl (by omega))
  rw [loadState, storeState, first _ _ (by decide), first _ _ (by decide), first _ _ (by decide),
    first _ _ (by decide), nativeWord_storeWord, below _ _ (by decide), below _ _ (by decide), below _ _ (by decide),
    nativeWord_storeWord, below _ _ (by decide), below _ _ (by decide), nativeWord_storeWord, below _ _ (by decide),
    nativeWord_storeWord, nativeWord_storeWord]

/-- What is not one of the forty bytes stays. -/
theorem storeState_apart (mem : Mem) {p a : Nat} (x : AsconState) (apart : a < p ∨ p + 40 ≤ a) :
    storeState mem p x a = mem a := by
  rw [storeState, storeWord_apart _ _ (by omega), storeWord_apart _ _ (by omega), storeWord_apart _ _ (by omega),
    storeWord_apart _ _ (by omega), storeWord_apart _ _ (by omega)]

end AsconSuite
