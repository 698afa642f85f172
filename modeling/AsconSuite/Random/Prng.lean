/-
Module: AsconSuite.Random.Prng
Layer: Model
Purpose: `random/ascon-prng.c`. The answers of the system's random number source are data, and what the
  functions make of the generator is written down as a list of events.
Imports: AsconSuite.Hash.Xof
Trusted boundary: the state pointer is not null; behind its last answer the random number source fails
Main exports: RandomState, RandomEvent, RandomRun, asconRandomInit, asconRandomFetch, asconRandomReseed,
  asconRandomFeed, asconRandomSaveSeed, asconRandomLoadSeed, RandomCall, randomCall
-/
import AsconSuite.Hash.Xof

namespace AsconSuite

open ByteWord ByteMemory

/-- `ASCON_RANDOM_RESEED_LIMIT`. -/
def asconRandomReseedLimit : Nat := 16384

/-- `ASCON_SYSTEM_SEED_SIZE`. -/
def asconSystemSeedSize : Nat := 32

/-- `ASCON_RANDOM_SAVED_SEED_SIZE`. -/
def asconRandomSavedSeedSize : Nat := 32

/-- `ascon_random_state_t`. -/
structure RandomState where
  xof : XofState
  counter : BitVec 32
  reserved : BitVec 32

/-! ### Surroundings -/

/-- What `ascon_trng_generate` returns, and the seed buffer after it. -/
structure TrngAnswer where
  ok : Nat
  seed : Mem

/-- `ascon_trng_generate`. -/
def asconTrngGenerate (trng : List TrngAnswer) : TrngAnswer × List TrngAnswer :=
  (trng.headD ⟨0, fun _ => 0⟩, trng.tail)

/-- An `ascon_storage_t` during one call: its sizes, what its `read` function returns and leaves in the seed
buffer, and what its `write` function returns. -/
structure RandomStorage where
  size : Nat
  eraseSize : Nat
  readResult : Int
  seed : Mem
  written : Int

/-- What happens to a generator, with the bytes that it takes in or gives out. -/
inductive RandomEvent where
  | init (seed : List Byte)
  | reseed (seed : List Byte)
  | feed (entropy : List Byte)
  | squeeze (output : List Byte)
  | store (seed : List Byte) (erase : Bool)

/-- A generator, the answers of the random number source to come, and the events so far. -/
structure RandomRun where
  state : RandomState
  trng : List TrngAnswer
  events : List RandomEvent

/-! ### Functions -/

/-- The loop of `ascon_random_rekey`. -/
def rekeyBlocks (state : AsconState) : (blocks : Nat) → AsconState
  | 0 => state
  | blocks + 1 =>
      rekeyBlocks (asconPermute (asconOverwriteWithZeroes state 0 asconXofRate) 0) blocks

/-- `ascon_random_rekey`. -/
def asconRandomRekey (state : RandomState) : RandomState :=
  let xof := asconXofPad state.xof
  { state with
    xof := { xof with state := rekeyBlocks xof.state ((40 - asconXofRate) / asconXofRate) } }

/-- The characters of `"SpongePRNG"`. -/
def spongePrngName : List Byte := [0x53, 0x70, 0x6f, 0x6e, 0x67, 0x65, 0x50, 0x52, 0x4e, 0x47]

/-- `ascon_random_init`. -/
def asconRandomInit (run : RandomRun) : RandomRun × Nat :=
  let state : RandomState :=
    ⟨asconXofInitCustom (some spongePrngName) (fun _ => 0) 0 0, 0, 0⟩
  let (answer, trng) := asconTrngGenerate run.trng
  let state := { state with xof := asconXofAbsorb state.xof answer.seed asconSystemSeedSize }
  (⟨asconRandomRekey state, trng, run.events ++ [.init (answer.seed.read 0 asconSystemSeedSize)]⟩, answer.ok)

/-- `ascon_random_reseed`. -/
def asconRandomReseed (run : RandomRun) : RandomRun × Nat :=
  let (answer, trng) := asconTrngGenerate run.trng
  let state := { run.state with xof := asconXofAbsorb run.state.xof answer.seed asconSystemSeedSize }
  let state := { state with counter := 0 }
  (⟨asconRandomRekey state, trng, run.events ++ [.reseed (answer.seed.read 0 asconSystemSeedSize)]⟩, answer.ok)

/-- `ascon_random_fetch`. -/
def asconRandomFetch (run : RandomRun) (mem : Mem) (out outlen : Nat) : RandomRun × Mem :=
  let run :=
    if asconRandomReseedLimit ≤ run.state.counter.toNat then (asconRandomReseed run).1 else run
  let (xof, mem) := asconXofSqueeze run.state.xof mem out outlen
  let counter :=
    if outlen < asconRandomReseedLimit then run.state.counter + BitVec.ofNat 32 outlen
    else BitVec.ofNat 32 asconRandomReseedLimit
  let state := { run.state with xof := xof, counter := counter }
  ({ run with
    state := asconRandomRekey state
    events := run.events ++ [.squeeze (mem.read out outlen)] }, mem)

/-- `ascon_random_feed`. -/
def asconRandomFeed (run : RandomRun) (entropy : Mem) (size : Nat) : RandomRun :=
  let xof := asconXofPad (asconXofAbsorb run.state.xof entropy size)
  { run with
    state := asconRandomRekey { run.state with xof := xof }
    events := run.events ++ [.feed (entropy.read 0 size)] }

/-- The part of the seed functions that fetches a seed and writes it to storage. -/
def fetchAndStore (run : RandomRun) (storage : RandomStorage) (seed : Mem) : RandomRun :=
  let (run, seed) := asconRandomFetch run seed 0 asconRandomSavedSeedSize
  { run with
    events := run.events ++
      [.store (seed.read 0 asconRandomSavedSeedSize) (decide (storage.eraseSize ≠ 0))] }

/-- `ascon_random_save_seed`. -/
def asconRandomSaveSeed (run : RandomRun) (storage : Option RandomStorage) : RandomRun × Int :=
  match storage with
  | none => (run, -1)
  | some storage =>
      if storage.size < asconRandomSavedSeedSize then (run, -1)
      else
        (fetchAndStore run storage fun _ => 0,
          if storage.written = asconRandomSavedSeedSize then 1 else 0)

/-- `ascon_random_load_seed`. -/
def asconRandomLoadSeed (run : RandomRun) (storage : Option RandomStorage) : RandomRun × Int :=
  match storage with
  | none => (run, -1)
  | some storage =>
      if storage.size < asconRandomSavedSeedSize then (run, -1)
      else
        let run :=
          if storage.readResult = asconRandomSavedSeedSize then
            asconRandomFeed run storage.seed asconRandomSavedSeedSize
          else run
        (fetchAndStore (asconRandomReseed run).1 storage storage.seed,
          if storage.readResult = asconRandomSavedSeedSize then 1 else 0)

/-! ### Calls of one generator -/

/-- A call on a generator. -/
inductive RandomCall where
  | init
  | fetch (mem : Mem) (out outlen : Nat)
  | feed (entropy : Mem) (size : Nat)
  | reseed
  | saveSeed (storage : Option RandomStorage)
  | loadSeed (storage : Option RandomStorage)

/-- The generator after a call. -/
def randomCall (run : RandomRun) : RandomCall → RandomRun
  | .init => (asconRandomInit run).1
  | .fetch mem out outlen => (asconRandomFetch run mem out outlen).1
  | .feed entropy size => asconRandomFeed run entropy size
  | .reseed => (asconRandomReseed run).1
  | .saveSeed storage => (asconRandomSaveSeed run storage).1
  | .loadSeed storage => (asconRandomLoadSeed run storage).1

end AsconSuite
