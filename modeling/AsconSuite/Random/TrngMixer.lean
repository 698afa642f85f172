/-
Module: AsconSuite.Random.TrngMixer
Layer: Model
Purpose: `random/ascon-trng-mixer.c`, which expands a seed of the system's random number source by the permutation
  where random words are not to be had directly.
Imports: AsconSuite.Core.Backends, AsconSuite.Core.PermuteC32, AsconSuite.Random.Prng
Trusted boundary: the processor is little-endian; behind its last answer the random number source fails
Main exports: MixerBackend, TrngState, asconTrngInit, asconTrngGenerate32, asconTrngGenerate64, asconTrngReseed,
  TrngCall, trngCall
-/
import AsconSuite.Core.Backends
import AsconSuite.Core.PermuteC32
import AsconSuite.Random.Prng

namespace AsconSuite

open ByteWord ByteMemory

/-- What the mixer takes from a backend. -/
structure MixerBackend (σ : Type) where
  access : StateAccess σ
  init : σ
  permute : σ → (firstRound : Nat) → σ
  /-- `prng.W[index]`, or the same four bytes from `ascon_extract_bytes`. -/
  word : σ → (index : Nat) → BitVec 32

/-- The 64-bit sliced backend. -/
def sliced64Mixer : MixerBackend AsconState where
  access := sliced64Access
  init := asconInit
  permute := asconPermute
  word := fun s index => ((s.get (index / 2)) >>> (32 * (index % 2))).setWidth 32

/-- The 32-bit bit-sliced backend. -/
def sliced32Mixer : MixerBackend Sliced32.AsconState where
  access := sliced32Access
  init := ⟨⟨0, 0⟩, ⟨0, 0⟩, ⟨0, 0⟩, ⟨0, 0⟩, ⟨0, 0⟩⟩
  permute := Sliced32.asconPermute
  word := fun s index => if index % 2 = 0 then (s.get (index / 2)).even else (s.get (index / 2)).odd

/-- A backend that keeps the state as bytes, with its permutation. -/
def directMixer (permute : DirectXor.AsconState → Nat → DirectXor.AsconState) : MixerBackend DirectXor.AsconState where
  access := directAccess
  init := #v[
    0, 0, 0, 0, 0, 0, 0, 0, 0, 0, 0, 0, 0, 0, 0, 0, 0, 0, 0, 0,
    0, 0, 0, 0, 0, 0, 0, 0, 0, 0, 0, 0, 0, 0, 0, 0, 0, 0, 0, 0]
  permute := permute
  word := fun s index =>
    let mem := directAccess.extractBytes s (fun _ => 0) 0 (4 * index) 4
    mem 3 ++ mem 2 ++ mem 1 ++ mem 0

/-- `ASCON_TRNG_MIXER_RATE`. -/
def asconTrngMixerRate : Nat := 8

/-- `ascon_trng_state_t`. -/
structure TrngState (σ : Type) where
  posn : Nat
  prng : σ

section

variable {σ : Type} (backend : MixerBackend σ)

/-- `ascon_trng_init`: the state, its result and the answers to come. -/
def asconTrngInit (trng : List TrngAnswer) : TrngState σ × Nat × List TrngAnswer :=
  let (answer, trng) := asconTrngGenerate trng
  let prng := backend.access.overwriteBytes backend.init answer.seed (40 - asconSystemSeedSize) asconSystemSeedSize
  (⟨0, backend.permute prng 0⟩, answer.ok, trng)

/-- `ascon_trng_generate_32`. -/
def asconTrngGenerate32 (state : TrngState σ) : TrngState σ × BitVec 32 :=
  let state :=
    if asconTrngMixerRate < state.posn + 4 then ⟨0, backend.permute state.prng 6⟩ else state
  ({ state with posn := state.posn + 4 }, backend.word state.prng (state.posn / 4))

/-- `ascon_trng_generate_64`. -/
def asconTrngGenerate64 (state : TrngState σ) : TrngState σ × BitVec 64 :=
  let state :=
    if asconTrngMixerRate < state.posn + 8 ∨ state.posn % 8 ≠ 0 then ⟨0, backend.permute state.prng 6⟩ else state
  let index := state.posn / 8
  ({ state with posn := state.posn + 8 },
    backend.word state.prng (2 * index + 1) ++ backend.word state.prng (2 * index))

/-- `ascon_trng_reseed`: the state, its result and the answers to come. -/
def asconTrngReseed (state : TrngState σ) (trng : List TrngAnswer) : TrngState σ × Nat × List TrngAnswer :=
  let (answer, trng) := asconTrngGenerate trng
  let prng := backend.access.addBytes state.prng answer.seed (40 - asconSystemSeedSize) asconSystemSeedSize
  let prng := backend.access.overwriteWithZeroes prng 0 8
  (⟨0, backend.permute prng 0⟩, answer.ok, trng)

/-- A call on an initialized mixer. -/
inductive TrngCall where
  | generate32
  | generate64
  | reseed
deriving DecidableEq

/-- One call: the mixer after it, and the words that it hands out, in the order in which they lie in the state. -/
def trngCall (run : TrngState σ × List TrngAnswer) : TrngCall → (TrngState σ × List TrngAnswer) × List (BitVec 32)
  | .generate32 =>
      let (state, x) := asconTrngGenerate32 backend run.1
      ((state, run.2), [x])
  | .generate64 =>
      let (state, x) := asconTrngGenerate64 backend run.1
      ((state, run.2), [x.setWidth 32, (x >>> 32).setWidth 32])
  | .reseed =>
      let (state, _, trng) := asconTrngReseed backend run.1 run.2
      ((state, trng), [])

end

end AsconSuite
