/-
Module: AsconSuite.Proofs.PrngReseed
Layer: Proofs
Purpose: The discipline of the random number generator: between calls its sponge absorbs at the edge of a block,
  its counter is the output since the last seed until the limit is reached, and no output is squeezed
  behind the limit.
Imports: AsconSuite.Proofs.PrngReplay
Trusted boundary: none
Main exports: outputSinceReseed, RandomRun.Disciplined, randomCall_disciplined, prng_reseed_discipline
-/
import AsconSuite.Proofs.PrngReplay

namespace AsconSuite

open ByteWord ByteMemory

/-! ### The sponge between calls -/

/-- An object that absorbs, at the edge of a block. -/
structure XofState.Aligned (xof : XofState) : Prop where
  mode : xof.mode = false
  count : xof.count = 0

theorem asconXofPad_aligned (xof : XofState) : (asconXofPad xof).Aligned := by
  obtain ⟨s, count, mode⟩ := xof
  cases mode with
  | true =>
      rw [asconXofPad_of_squeezing]
      exact ⟨rfl, rfl⟩
  | false =>
      rw [asconXofPad, xofPad]
      simp only [Bool.false_eq_true, if_false]
      split
      · exact ⟨rfl, rfl⟩
      · next edge => exact ⟨rfl, not_not.1 edge⟩

theorem asconRandomRekey_aligned (state : RandomState) : (asconRandomRekey state).xof.Aligned where
  mode := (asconXofPad_aligned state.xof).mode
  count := (asconXofPad_aligned state.xof).count

@[simp] theorem asconRandomRekey_counter (state : RandomState) :
    (asconRandomRekey state).counter = state.counter := rfl

/-! ### Output since the last seed -/

/-- The output since the last seed behind an event. -/
def RandomEvent.outputAfter (output : Nat) : RandomEvent → Nat
  | .init _ => 0
  | .reseed _ => 0
  | .feed _ => output
  | .squeeze bytes => output + bytes.length
  | .store _ _ => output

/-- The number of bytes squeezed since the last reseed or initialization. -/
def outputSinceReseed (events : List RandomEvent) : Nat := events.foldl RandomEvent.outputAfter 0

theorem outputSinceReseed_snoc (events : List RandomEvent) (event : RandomEvent) :
    outputSinceReseed (events ++ [event]) = event.outputAfter (outputSinceReseed events) := by
  rw [outputSinceReseed, List.foldl_append]
  rfl

/-- Every squeeze comes with less output than the limit in front of it. -/
def SqueezesInLimit (events : List RandomEvent) : Prop :=
  EachSqueeze (fun before _ => outputSinceReseed before < asconRandomReseedLimit) events

/-! ### The discipline -/

/-- What holds of a generator between two calls. -/
structure RandomRun.Disciplined (run : RandomRun) : Prop where
  aligned : run.state.xof.Aligned
  counter_lt : run.state.counter.toNat < 2 * asconRandomReseedLimit
  counter_eq : run.state.counter.toNat < asconRandomReseedLimit →
    run.state.counter.toNat = outputSinceReseed run.events
  limit_le : asconRandomReseedLimit ≤ run.state.counter.toNat →
    asconRandomReseedLimit ≤ outputSinceReseed run.events
  squeezes : SqueezesInLimit run.events

/-- The counter reaches the limit when the output does. -/
theorem RandomRun.Disciplined.limit_iff {run : RandomRun} (disciplined : run.Disciplined) :
    asconRandomReseedLimit ≤ run.state.counter.toNat ↔
      asconRandomReseedLimit ≤ outputSinceReseed run.events := by
  refine ⟨disciplined.limit_le, fun reached => ?_⟩
  by_contra below
  have same := disciplined.counter_eq (Nat.lt_of_not_le below)
  omega

/-- A seed starts a count at zero, whatever the state was. -/
theorem disciplined_of_seed {run : RandomRun} (aligned : run.state.xof.Aligned)
    (counter : run.state.counter = 0) {events : List RandomEvent} (squeezes : SqueezesInLimit events)
    {event : RandomEvent} {seed : List Byte} (isSeed : event = .init seed ∨ event = .reseed seed)
    (log : run.events = events ++ [event]) : run.Disciplined := by
  have zero : outputSinceReseed run.events = 0 := by
    rw [log, outputSinceReseed_snoc]
    rcases isSeed with rfl | rfl
    · rfl
    · rfl
  have counter_zero : run.state.counter.toNat = 0 := by
    rw [counter]
    rfl
  constructor
  · exact aligned
  · rw [counter_zero]
    decide
  · intro _
    rw [counter_zero, zero]
  · intro reached
    rw [counter_zero] at reached
    exact absurd reached (by decide)
  · rw [log]
    refine squeezes.snoc fun output same => ?_
    rcases isSeed with rfl | rfl
    · cases same
    · cases same

theorem asconRandomInit_disciplined (run : RandomRun) (squeezes : SqueezesInLimit run.events) :
    (asconRandomInit run).1.Disciplined :=
  disciplined_of_seed (asconRandomRekey_aligned _) rfl squeezes (Or.inl rfl) rfl

theorem asconRandomReseed_disciplined (run : RandomRun) (squeezes : SqueezesInLimit run.events) :
    (asconRandomReseed run).1.Disciplined :=
  disciplined_of_seed (asconRandomRekey_aligned _) rfl squeezes (Or.inr rfl) rfl

/-- An event without output. -/
theorem RandomRun.Disciplined.snoc {run next : RandomRun} (disciplined : run.Disciplined) (aligned : next.state.xof.Aligned)
    (counter : next.state.counter = run.state.counter) {event : RandomEvent} (log : next.events = run.events ++ [event])
    (noOutput : ∀ output, event.outputAfter output = output) (noSqueeze : ∀ output, event ≠ .squeeze output) :
    next.Disciplined := by
  have same : outputSinceReseed next.events = outputSinceReseed run.events := by
    rw [log, outputSinceReseed_snoc, noOutput]
  constructor
  · exact aligned
  · rw [counter]
    exact disciplined.counter_lt
  · rw [counter, same]
    exact disciplined.counter_eq
  · rw [counter, same]
    exact disciplined.limit_le
  · rw [log]
    exact disciplined.squeezes.snoc fun output isSqueeze => absurd isSqueeze (noSqueeze output)

theorem asconRandomFeed_disciplined {run : RandomRun} (disciplined : run.Disciplined) (entropy : Mem)
    (size : Nat) : (asconRandomFeed run entropy size).Disciplined :=
  disciplined.snoc (asconRandomRekey_aligned _) rfl rfl (fun _ => rfl) (fun _ => RandomEvent.noConfusion)

theorem fetchStart_disciplined {run : RandomRun} (disciplined : run.Disciplined) :
    (fetchStart run).Disciplined ∧ (fetchStart run).state.counter.toNat < asconRandomReseedLimit := by
  rw [fetchStart]
  split
  · exact ⟨asconRandomReseed_disciplined run disciplined.squeezes, (by decide : 0 < asconRandomReseedLimit)⟩
  · next below => exact ⟨disciplined, Nat.lt_of_not_le below⟩

/-- The addition to the counter does not overflow. -/
theorem asconRandomFetch_counter {run : RandomRun} (disciplined : run.Disciplined) (mem : Mem)
    (out outlen : Nat) :
    (asconRandomFetch run mem out outlen).1.state.counter.toNat =
      if outlen < asconRandomReseedLimit then (fetchStart run).state.counter.toNat + outlen
      else asconRandomReseedLimit := by
  have below := (fetchStart_disciplined disciplined).2
  have counter : (asconRandomFetch run mem out outlen).1.state.counter =
      if outlen < asconRandomReseedLimit then (fetchStart run).state.counter + BitVec.ofNat 32 outlen
      else BitVec.ofNat 32 asconRandomReseedLimit := rfl
  rw [counter]
  rw [asconRandomReseedLimit] at below ⊢
  split
  · rw [BitVec.toNat_add, BitVec.toNat_ofNat]
    omega
  · rfl

theorem asconRandomFetch_disciplined {run : RandomRun} (disciplined : run.Disciplined) (mem : Mem)
    (out outlen : Nat) : (asconRandomFetch run mem out outlen).1.Disciplined := by
  obtain ⟨start, below⟩ := fetchStart_disciplined disciplined
  have same := start.counter_eq below
  have counter := asconRandomFetch_counter disciplined mem out outlen
  have events := asconRandomFetch_events run mem out outlen
  have output : outputSinceReseed (asconRandomFetch run mem out outlen).1.events =
      outputSinceReseed (fetchStart run).events + outlen := by
    rw [events, outputSinceReseed_snoc, RandomEvent.outputAfter, length_read]
  constructor
  · exact asconRandomRekey_aligned _
  · rw [counter]
    split <;> omega
  · rw [counter, output]
    split
    · omega
    · exact fun lt => absurd lt (Nat.lt_irrefl _)
  · rw [counter, output]
    split <;> omega
  · rw [events]
    exact start.squeezes.snoc fun _ _ => by omega

theorem fetchAndStore_disciplined {run : RandomRun} (disciplined : run.Disciplined)
    (storage : RandomStorage) (seed : Mem) : (fetchAndStore run storage seed).Disciplined := by
  have fetched := asconRandomFetch_disciplined disciplined seed 0 asconRandomSavedSeedSize
  exact fetched.snoc fetched.aligned rfl rfl (fun _ => rfl) (fun _ => RandomEvent.noConfusion)

/-- Every call keeps the discipline. -/
theorem randomCall_disciplined {run : RandomRun} (disciplined : run.Disciplined) (call : RandomCall) :
    (randomCall run call).Disciplined := by
  cases call with
  | init => exact asconRandomInit_disciplined run disciplined.squeezes
  | fetch mem out outlen => exact asconRandomFetch_disciplined disciplined mem out outlen
  | feed entropy size => exact asconRandomFeed_disciplined disciplined entropy size
  | reseed => exact asconRandomReseed_disciplined run disciplined.squeezes
  | saveSeed storage =>
      cases storage with
      | none => exact disciplined
      | some storage =>
          rw [randomCall, asconRandomSaveSeed]
          split
          · exact disciplined
          · exact fetchAndStore_disciplined disciplined storage _
  | loadSeed storage =>
      cases storage with
      | none => exact disciplined
      | some storage =>
          rw [randomCall, asconRandomLoadSeed]
          split
          · exact disciplined
          · refine fetchAndStore_disciplined (asconRandomReseed_disciplined _ ?_) storage _
            split
            · exact (asconRandomFeed_disciplined disciplined _ _).squeezes
            · exact disciplined.squeezes

theorem randomCalls_disciplined {run : RandomRun} (disciplined : run.Disciplined)
    (calls : List RandomCall) : (calls.foldl randomCall run).Disciplined := by
  induction calls generalizing run with
  | nil => exact disciplined
  | cons call calls ih => exact ih (randomCall_disciplined disciplined call)

/-- After any calls on an initialized generator its sponge absorbs at the edge of a block and its counter has not
overflowed. The log is what happened: the state is the one that it leads to, all output is what the sponge squeezed at
its place, and came in the limit, and the seeds are the answers of the random number source in their order. The next
fetch writes only its output, and when the limit is reached it first absorbs the next answer as a seed. -/
theorem prng_reseed_discipline (state : RandomState) (trng : List TrngAnswer) (calls : List RandomCall) :
    let run := calls.foldl randomCall (asconRandomInit ⟨state, trng, []⟩).1
    run.state.xof.mode = false ∧ run.state.xof.count = 0 ∧
    run.state.counter.toNat < 2 * asconRandomReseedLimit ∧
    run.state.xof.state = replayed run.events ∧
    seedsDrawn run.events = (List.range (seedsDrawn run.events).length).map (seedAt trng) ∧
    (∀ before output after, run.events = before ++ .squeeze output :: after →
      outputSinceReseed before < asconRandomReseedLimit ∧
        output = squeezedFrom (replayed before) output.length) ∧
    ∀ mem out outlen,
      let (next, mem') := asconRandomFetch run mem out outlen
      let reached := asconRandomReseedLimit ≤ outputSinceReseed run.events
      let before := run.events ++ if reached then [.reseed (seedAt trng (seedsDrawn run.events).length)] else []
      let output := squeezedFrom (replayed before) outlen
      next.events = before ++ [.squeeze output] ∧
      next.state.xof.state = replayed next.events ∧
      mem' = mem.write out output ∧
      next.state.counter.toNat =
        if outlen < asconRandomReseedLimit then
          (if reached then 0 else outputSinceReseed run.events) + outlen
        else asconRandomReseedLimit := by
  intro run
  have disciplined : run.Disciplined :=
    randomCalls_disciplined (asconRandomInit_disciplined ⟨state, trng, []⟩ (eachSqueeze_nil _)) calls
  have initialized : (asconRandomInit ⟨state, trng, []⟩).1.Follows trng := asconRandomInit_follows (logs_nil trng)
  have follows : run.Follows trng := randomCalls_follows initialized calls
  clear_value run
  refine ⟨disciplined.aligned.mode, disciplined.aligned.count, disciplined.counter_lt, congrArg XofState.state follows.xof,
    follows.logs.seeds, ?_, ?_⟩
  · exact fun before output after split =>
      ⟨disciplined.squeezes before output after split, follows.logs.outputs before output after split⟩
  intro mem out outlen
  have start : (fetchStart run).events = run.events ++
      (if asconRandomReseedLimit ≤ outputSinceReseed run.events then
        [.reseed (seedAt trng (seedsDrawn run.events).length)] else []) := by
    rw [fetchStart]
    by_cases limit : asconRandomReseedLimit ≤ outputSinceReseed run.events
    · rw [if_pos (disciplined.limit_iff.2 limit), if_pos limit, ← follows.logs.next]
      rfl
    · rw [if_neg fun reached => limit (disciplined.limit_iff.1 reached), if_neg limit, List.append_nil]
  have events := asconRandomFetch_events run mem out outlen
  rw [read_asconRandomFetch follows, start] at events
  have written := asconRandomFetch_mem follows mem out outlen
  rw [start] at written
  have counter := asconRandomFetch_counter disciplined mem out outlen
  refine ⟨events, congrArg XofState.state (asconRandomFetch_follows follows mem out outlen).xof, written, ?_⟩
  rw [fetchStart] at counter
  by_cases limit : asconRandomReseedLimit ≤ outputSinceReseed run.events
  · rw [if_pos (disciplined.limit_iff.2 limit)] at counter
    rw [if_pos limit]
    exact counter
  · have below : ¬ asconRandomReseedLimit ≤ run.state.counter.toNat :=
      fun reached => limit (disciplined.limit_iff.1 reached)
    rw [if_neg below] at counter
    rw [if_neg limit, ← disciplined.counter_eq (Nat.lt_of_not_le below)]
    exact counter

end AsconSuite
