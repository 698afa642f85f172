/-
Module: AsconSuite.Proofs.SeedStorage
Layer: Proofs
Purpose: What the seed functions of the random number generator report about storage, against what `ascon/random.h`
  says they report, and what the storage holds afterwards.
Imports: AsconSuite.Random.Prng
Trusted boundary: a write that reports a number of bytes has written that many, as `ascon/storage.h` says
Main exports: SeedSaved, SeedLoaded, SaveAsDocumented, LoadAsDocumented, asconRandomSaveSeed_result,
  asconRandomLoadSeed_result, seed_storage_results_iff
-/
import AsconSuite.Random.Prng

namespace AsconSuite

open ByteWord ByteMemory

/-! ### Storage -/

/-- There is a region, and a seed fits in it. -/
def SeedFits (storage : Option RandomStorage) : Prop :=
  ∃ region, storage = some region ∧ asconRandomSavedSeedSize ≤ region.size

/-- The whole seed was written to a region that it fits in. -/
def SeedSaved (storage : Option RandomStorage) : Prop :=
  ∃ region, storage = some region ∧ asconRandomSavedSeedSize ≤ region.size ∧
    region.written = asconRandomSavedSeedSize

/-- The whole seed was read from a region that it fits in. -/
def SeedLoaded (storage : Option RandomStorage) : Prop :=
  ∃ region, storage = some region ∧ asconRandomSavedSeedSize ≤ region.size ∧
    region.readResult = asconRandomSavedSeedSize

/-- The bytes of a region after one event, of which a store writes as many as it reports. -/
def RandomEvent.regionAfter (written : Int) (region : Mem) : RandomEvent → Mem
  | .store seed _ => region.write 0 (seed.take written.toNat)
  | _ => region

/-- The bytes of a region after a call. -/
def regionAfter (written : Int) (region : Mem) (before after : RandomRun) : Mem :=
  (after.events.drop before.events.length).foldl (RandomEvent.regionAfter written) region

/-- The seed that the random number source gives next. -/
def trngSeed (run : RandomRun) : List Byte := (asconTrngGenerate run.trng).1.seed.read 0 asconSystemSeedSize

/-- The seed that the generator makes next. -/
def nextSeed (run : RandomRun) (buffer : Mem) : List Byte :=
  (asconRandomFetch run buffer 0 asconRandomSavedSeedSize).2.read 0 asconRandomSavedSeedSize

/-! ### What the header promises -/

/-- The documented result of `ascon_random_save_seed`. -/
structure SaveAsDocumented (run : RandomRun) (storage : Option RandomStorage) : Prop where
  saved : (asconRandomSaveSeed run storage).2 = 0 ↔ SeedSaved storage
  failed : ¬ SeedSaved storage → (asconRandomSaveSeed run storage).2 = -1

/-- The generator at the point where `ascon_random_load_seed` makes the new seed. -/
def loadedRun (run : RandomRun) (region : RandomStorage) : RandomRun :=
  (asconRandomReseed
    (if region.readResult = asconRandomSavedSeedSize then
      asconRandomFeed run region.seed asconRandomSavedSeedSize
    else run)).1

/-- The documented result of `ascon_random_load_seed`. -/
structure LoadAsDocumented (run : RandomRun) (storage : Option RandomStorage) : Prop where
  loaded : (asconRandomLoadSeed run storage).2 = 0 ↔ SeedLoaded storage
  failed : ¬ SeedLoaded storage → (asconRandomLoadSeed run storage).2 = -1
  replaced : (asconRandomLoadSeed run storage).2 = 0 → ∀ region, storage = some region →
    ∀ content : Mem,
      (regionAfter region.written content run (asconRandomLoadSeed run storage).1).read 0 asconRandomSavedSeedSize =
        nextSeed (loadedRun run region) region.seed

/-! ### What the functions do -/

/-- `ascon_random_save_seed` reports a truth value once the region is large enough. -/
theorem asconRandomSaveSeed_result (run : RandomRun) (region : RandomStorage) :
    (asconRandomSaveSeed run (some region)).2 =
      if region.size < asconRandomSavedSeedSize then -1
      else if region.written = asconRandomSavedSeedSize then 1 else 0 := by
  rw [asconRandomSaveSeed]
  by_cases small : region.size < asconRandomSavedSeedSize
  · rw [if_pos small, if_pos small]
  · rw [if_neg small, if_neg small]

/-- And so does `ascon_random_load_seed`, whatever becomes of the write. -/
theorem asconRandomLoadSeed_result (run : RandomRun) (region : RandomStorage) :
    (asconRandomLoadSeed run (some region)).2 =
      if region.size < asconRandomSavedSeedSize then -1
      else if region.readResult = asconRandomSavedSeedSize then 1 else 0 := by
  rw [asconRandomLoadSeed]
  by_cases small : region.size < asconRandomSavedSeedSize
  · rw [if_pos small, if_pos small]
  · rw [if_neg small, if_neg small]

theorem regionAfter_of_events {written : Int} {content : Mem} {before after : RandomRun} {new : List RandomEvent}
    (events : after.events = before.events ++ new) :
    regionAfter written content before after = new.foldl (RandomEvent.regionAfter written) content := by
  rw [regionAfter, events, List.drop_left]

/-- A seed is stored behind the events of its fetch. -/
theorem fetchAndStore_events (run : RandomRun) (region : RandomStorage) (buffer : Mem) :
    (fetchAndStore run region buffer).events =
      run.events ++ ((if asconRandomReseedLimit ≤ run.state.counter.toNat then [.reseed (trngSeed run)] else []) ++
        [.squeeze (nextSeed run buffer), .store (nextSeed run buffer) (decide (region.eraseSize ≠ 0))]) := by
  rw [fetchAndStore, nextSeed, asconRandomFetch]
  by_cases reached : asconRandomReseedLimit ≤ run.state.counter.toNat
  · simp only [if_pos reached, asconRandomReseed, trngSeed, List.append_assoc, List.cons_append, List.nil_append]
  · simp only [if_neg reached, List.append_assoc, List.cons_append, List.nil_append]

theorem loadedRun_events (run : RandomRun) (region : RandomStorage) :
    (loadedRun run region).events = run.events ++
      ((if region.readResult = asconRandomSavedSeedSize then [.feed (region.seed.read 0 asconRandomSavedSeedSize)]
        else []) ++ [.reseed (trngSeed run)]) := by
  rw [loadedRun]
  split
  · exact List.append_assoc _ _ _
  · rfl

/-- What a region holds after `ascon_random_load_seed`: as much of a new seed as the write put there. -/
theorem regionAfter_asconRandomLoadSeed (run : RandomRun) {region : RandomStorage}
    (fits : asconRandomSavedSeedSize ≤ region.size) (content : Mem) :
    regionAfter region.written content run (asconRandomLoadSeed run (some region)).1 =
      content.write 0 ((nextSeed (loadedRun run region) region.seed).take region.written.toNat) := by
  have events : (asconRandomLoadSeed run (some region)).1.events =
      (fetchAndStore (loadedRun run region) region region.seed).events := by
    rw [asconRandomLoadSeed, if_neg (Nat.not_lt_of_le fits)]
    rfl
  rw [fetchAndStore_events, loadedRun_events, List.append_assoc] at events
  rw [regionAfter_of_events events]
  split
  · rfl
  · rfl

/-- A whole write leaves the new seed in the region. -/
theorem read_regionAfter_asconRandomLoadSeed (run : RandomRun) {region : RandomStorage}
    (fits : asconRandomSavedSeedSize ≤ region.size) (whole : region.written = asconRandomSavedSeedSize)
    (content : Mem) :
    (regionAfter region.written content run (asconRandomLoadSeed run (some region)).1).read 0 asconRandomSavedSeedSize =
      nextSeed (loadedRun run region) region.seed := by
  have length_eq : (nextSeed (loadedRun run region) region.seed).length = asconRandomSavedSeedSize := by
    rw [nextSeed, length_read]
  rw [regionAfter_asconRandomLoadSeed run fits, whole, Int.toNat_natCast, ← length_eq, List.take_length,
    read_write_same]

/-- A write that is lost leaves the old seed, and the load reports what the read said all the same. -/
theorem asconRandomLoadSeed_of_lost_write (run : RandomRun) {region : RandomStorage}
    (fits : asconRandomSavedSeedSize ≤ region.size) (lost : region.written ≤ 0) (content : Mem) :
    regionAfter region.written content run (asconRandomLoadSeed run (some region)).1 = content ∧
      (asconRandomLoadSeed run (some region)).2 =
        if region.readResult = asconRandomSavedSeedSize then 1 else 0 := by
  constructor
  · rw [regionAfter_asconRandomLoadSeed run fits, Int.toNat_of_nonpos lost, List.take_zero]
    exact write_nil content 0
  · rw [asconRandomLoadSeed_result, if_neg (Nat.not_lt_of_le fits)]

/-! ### When the results are as documented -/

theorem seedFits_of_saved {storage : Option RandomStorage} (saved : SeedSaved storage) : SeedFits storage := by
  obtain ⟨region, rfl, fits, -⟩ := saved
  exact ⟨region, rfl, fits⟩

theorem seedFits_of_loaded {storage : Option RandomStorage} (loaded : SeedLoaded storage) : SeedFits storage := by
  obtain ⟨region, rfl, fits, -⟩ := loaded
  exact ⟨region, rfl, fits⟩

theorem asconRandomSaveSeed_of_not_fits {storage : Option RandomStorage} (unfit : ¬ SeedFits storage)
    (run : RandomRun) : (asconRandomSaveSeed run storage).2 = -1 := by
  cases storage with
  | none => rfl
  | some region =>
      have small : region.size < asconRandomSavedSeedSize :=
        Nat.lt_of_not_le fun fits => unfit ⟨region, rfl, fits⟩
      rw [asconRandomSaveSeed_result, if_pos small]

theorem asconRandomLoadSeed_of_not_fits {storage : Option RandomStorage} (unfit : ¬ SeedFits storage)
    (run : RandomRun) : (asconRandomLoadSeed run storage).2 = -1 := by
  cases storage with
  | none => rfl
  | some region =>
      have small : region.size < asconRandomSavedSeedSize :=
        Nat.lt_of_not_le fun fits => unfit ⟨region, rfl, fits⟩
      rw [asconRandomLoadSeed_result, if_pos small]

/-- Once a seed fits, success is reported as 1 and failure as 0. -/
theorem saveAsDocumented_iff (run : RandomRun) (storage : Option RandomStorage) :
    SaveAsDocumented run storage ↔ ¬ SeedFits storage := by
  constructor
  · rintro documented ⟨region, rfl, fits⟩
    have result := asconRandomSaveSeed_result run region
    rw [if_neg (Nat.not_lt_of_le fits)] at result
    by_cases whole : region.written = asconRandomSavedSeedSize
    · rw [if_pos whole, documented.saved.2 ⟨region, rfl, fits, whole⟩] at result
      exact absurd result (by decide)
    · rw [if_neg whole] at result
      obtain ⟨_, same, -, written⟩ := documented.saved.1 result
      rw [← Option.some.inj same] at written
      exact whole written
  · intro unfit
    have result := asconRandomSaveSeed_of_not_fits unfit run
    constructor
    · rw [result]
      exact ⟨fun zero => absurd zero (by decide), fun saved => absurd (seedFits_of_saved saved) unfit⟩
    · exact fun _ => result

theorem loadAsDocumented_iff (run : RandomRun) (storage : Option RandomStorage) :
    LoadAsDocumented run storage ↔ ¬ SeedFits storage := by
  constructor
  · rintro documented ⟨region, rfl, fits⟩
    have result := asconRandomLoadSeed_result run region
    rw [if_neg (Nat.not_lt_of_le fits)] at result
    by_cases whole : region.readResult = asconRandomSavedSeedSize
    · rw [if_pos whole, documented.loaded.2 ⟨region, rfl, fits, whole⟩] at result
      exact absurd result (by decide)
    · rw [if_neg whole] at result
      obtain ⟨_, same, -, read⟩ := documented.loaded.1 result
      rw [← Option.some.inj same] at read
      exact whole read
  · intro unfit
    have result := asconRandomLoadSeed_of_not_fits unfit run
    have nonzero : (asconRandomLoadSeed run storage).2 ≠ 0 := by
      rw [result]
      decide
    constructor
    · exact ⟨fun zero => absurd zero nonzero, fun loaded => absurd (seedFits_of_loaded loaded) unfit⟩
    · exact fun _ => result
    · exact fun zero => absurd zero nonzero

/-- The seed functions report what the header says about storage exactly when no seed fits in it. -/
theorem seed_storage_results_iff (run : RandomRun) (storage : Option RandomStorage) :
    (SaveAsDocumented run storage ∧ LoadAsDocumented run storage) ↔ ¬ SeedFits storage := by
  rw [saveAsDocumented_iff, loadAsDocumented_iff, and_self]

/-- A region that takes and gives every byte: a saved seed is reported as 1, and so is a loaded one. -/
theorem seed_storage_success_is_not_zero :
    ¬ ∀ (run : RandomRun) (storage : Option RandomStorage),
      SaveAsDocumented run storage ∧ LoadAsDocumented run storage := by
  intro documented
  let region : RandomStorage := ⟨32, 0, 32, fun _ => 0, 32⟩
  let run : RandomRun := ⟨⟨⟨asconInit, 0, false⟩, 0, 0⟩, [], []⟩
  have saved := asconRandomSaveSeed_result run region
  rw [(documented run (some region)).1.saved.2 ⟨region, rfl, Nat.le_refl _, rfl⟩] at saved
  exact absurd saved (by decide)

end AsconSuite
