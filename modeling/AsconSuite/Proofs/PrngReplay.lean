/-
Module: AsconSuite.Proofs.PrngReplay
Layer: Proofs
Purpose: What the log of a random number generator says is what happened: the state of the generator follows from the
  seeds and the entropy in the log, every output in it is what the sponge of that state squeezes, and the seeds are
  the answers of the system's random number source, one after the other.
Imports: AsconSuite.Proofs.StateRanges, AsconSuite.Proofs.XofStream, AsconSuite.Random.Prng
Trusted boundary: none
Main exports: replayed, squeezedFrom, RandomRun.Follows, randomCall_follows
-/
import AsconSuite.Proofs.StateRanges
import AsconSuite.Proofs.XofStream
import AsconSuite.Random.Prng

namespace AsconSuite

open ByteWord ByteMemory

/-! ### The generator as a sponge -/

/-- A sponge between two calls: it absorbs, and its block is empty. -/
def atEdge (s : AsconState) : (AsconState × Nat) × Bool := ((s, 0), false)

/-- The end of a call: a block that was begun is permuted, and so is a sponge that has squeezed. -/
def toEdge (st : (AsconState × Nat) × Bool) : AsconState :=
  if st.2 = true ∨ st.1.2 ≠ 0 then asconPermute st.1.1 0 else st.1.1

/-- The state is not to be found from what comes behind it: the rate is cleared, and permuted into, as often as the
capacity has blocks. -/
def forgotten : AsconState → AsconState := (fun s => asconPermute { s with w0 := 0 } 0)^[4]

/-- The state behind the bytes of a seed. -/
def absorbedFrom (s : AsconState) (data : List Byte) : AsconState :=
  forgotten (toEdge (XofVariant.xof.sponge.call (atEdge s) (.absorb data)).1)

/-- The bytes that come out of a state. -/
def squeezedFrom (s : AsconState) (len : Nat) : List Byte :=
  (XofVariant.xof.sponge.call (atEdge s) (.squeeze len)).2

/-- The state of the sponge with the name of the generator. -/
def spongePrngStart : AsconState := (asconXofInitCustom (some spongePrngName) (fun _ => 0) 0 0).state

/-- What an event makes of the state. -/
def RandomEvent.stateAfter (s : AsconState) : RandomEvent → AsconState
  | .init seed => absorbedFrom spongePrngStart seed
  | .reseed seed => absorbedFrom s seed
  | .feed entropy => absorbedFrom s entropy
  | .squeeze output => forgotten (toEdge (XofVariant.xof.sponge.call (atEdge s) (.squeeze output.length)).1)
  | .store _ _ => s

/-- The state that a log leads to. -/
def replayed (events : List RandomEvent) : AsconState := events.foldl RandomEvent.stateAfter asconInit

theorem replayed_snoc (events : List RandomEvent) (event : RandomEvent) :
    replayed (events ++ [event]) = event.stateAfter (replayed events) := by
  rw [replayed, List.foldl_append]
  rfl

/-! ### The functions on the sponge -/

/-- The first word is all zeroes. -/
theorem asconOverwriteWithZeroes_rate (s : AsconState) :
    asconOverwriteWithZeroes s 0 asconXofRate = { s with w0 := 0 } := by
  rw [asconOverwriteWithZeroes_eq]
  refine eq_of_byteForOffset_eq fun o inside => ?_
  rw [byteForOffset_asconOverwriteBytes _ _ (by decide) inside]
  change _ = byteForOffset (s.modify 0 fun _ => 0) o
  rw [byteForOffset_modify s _ (by decide) inside]
  rw [asconXofRate]
  by_cases first : o / 8 = 0
  · rw [if_pos (by omega), if_pos first]
    exact (byteOf_zero _).symm
  · rw [if_neg (by omega), if_neg first]

theorem rekeyBlocks_eq (s : AsconState) (blocks : Nat) :
    rekeyBlocks s blocks = (fun s : AsconState => asconPermute { s with w0 := 0 } 0)^[blocks] s := by
  induction blocks generalizing s with
  | zero => rfl
  | succ blocks ih => rw [rekeyBlocks, ih, asconOverwriteWithZeroes_rate, Function.iterate_succ_apply]

/-- Turning back to absorbing is a permutation. -/
theorem asconXofPad_of_squeezing (s : AsconState) (count : Nat) :
    asconXofPad ⟨s, count, true⟩ = ⟨asconPermute s 0, 0, false⟩ := by
  have nothing : xofAbsorbBlocks 0 (asconPermute s 0) (tablePtr []) 0 = ⟨asconPermute s 0, 0, false⟩ := by
    rw [xofAbsorbBlocks, absorbLoop, if_neg (by decide)]
    rfl
  exact nothing

/-- Padding takes a sponge to the edge of a block. -/
theorem asconXofPad_ofSponge (st : (AsconState × Nat) × Bool) :
    asconXofPad (.ofSponge st) = ⟨toEdge st, 0, false⟩ := by
  obtain ⟨⟨s, count⟩, squeezing⟩ := st
  cases squeezing with
  | true =>
      rw [toEdge, if_pos (Or.inl rfl)]
      exact asconXofPad_of_squeezing s count
  | false =>
      by_cases edge : count = 0
      · subst edge
        rfl
      · rw [toEdge, if_pos (Or.inr edge)]
        exact if_pos edge

theorem asconRandomRekey_ofSponge {state : RandomState} {s : (AsconState × Nat) × Bool}
    (same : state.xof = .ofSponge s) :
    (asconRandomRekey state).xof = ⟨forgotten (toEdge s), 0, false⟩ := by
  rw [asconRandomRekey, same, asconXofPad_ofSponge]
  exact congrArg (XofState.mk · 0 false) (rekeyBlocks_eq _ _)

theorem asconXofAbsorb_atEdge (s : AsconState) (input : Mem) (inlen : Nat) :
    asconXofAbsorb ⟨s, 0, false⟩ input inlen =
      .ofSponge (XofVariant.xof.sponge.call (atEdge s) (.absorb (input.read 0 inlen))).1 := by
  have inside : (⟨s, 0, false⟩ : XofState).count < 8 := Nat.zero_lt_succ 7
  exact xofAbsorb_eq_run 0 inside input inlen

theorem asconXofSqueeze_atEdge (s : AsconState) (mem : Mem) (out outlen : Nat) :
    asconXofSqueeze ⟨s, 0, false⟩ mem out outlen =
      (.ofSponge (XofVariant.xof.sponge.call (atEdge s) (.squeeze outlen)).1,
        mem.write out (squeezedFrom s outlen)) := by
  have inside : (⟨s, 0, false⟩ : XofState).count < 8 := Nat.zero_lt_succ 7
  exact asconXofSqueeze_eq_run inside mem out outlen

theorem length_squeezedFrom (s : AsconState) (len : Nat) : (squeezedFrom s len).length = len := by
  have length_eq := Transducer.length_run XofVariant.xof.sponge.squeeze (XofVariant.xof.sponge.toSqueeze (s, 0))
    (List.replicate len ())
  rwa [List.length_replicate] at length_eq

/-! ### Logs -/

/-- What is true of every squeeze in a log, with the log in front of it. -/
def EachSqueeze (holds : List RandomEvent → List Byte → Prop) (events : List RandomEvent) : Prop :=
  ∀ before output after, events = before ++ .squeeze output :: after → holds before output

theorem eachSqueeze_nil (holds : List RandomEvent → List Byte → Prop) : EachSqueeze holds [] := by
  intro before output after split
  exact absurd split.symm (List.append_ne_nil_of_right_ne_nil before (List.cons_ne_nil _ after))

theorem EachSqueeze.snoc {holds : List RandomEvent → List Byte → Prop} {events : List RandomEvent}
    (each : EachSqueeze holds events) {event : RandomEvent}
    (next : ∀ output, event = .squeeze output → holds events output) :
    EachSqueeze holds (events ++ [event]) := by
  intro before output after split
  rcases List.eq_nil_or_concat after with rfl | ⟨after', last, rfl⟩
  · obtain ⟨rfl, same⟩ := List.append_inj' split rfl
    exact next output (List.cons.inj same).1
  · rw [List.concat_eq_append, ← List.cons_append, ← List.append_assoc] at split
    exact each before output after' (List.append_inj' split rfl).1

/-- The seed of an event that draws one. -/
def RandomEvent.drawn : RandomEvent → Option (List Byte)
  | .init seed => some seed
  | .reseed seed => some seed
  | _ => none

/-- The seeds in a log. -/
def seedsDrawn (events : List RandomEvent) : List (List Byte) := events.filterMap RandomEvent.drawn

/-- The bytes that the random number source gives at its `i`-th call. -/
def seedAt (trng : List TrngAnswer) (i : Nat) : List Byte :=
  (trng.getD i ⟨0, fun _ => 0⟩).seed.read 0 asconSystemSeedSize

/-- A log of squeezed output and of seeds, and what is left of the answers of the random number source. -/
structure Logs (trng : List TrngAnswer) (events : List RandomEvent) (left : List TrngAnswer) : Prop where
  outputs : EachSqueeze (fun before output => output = squeezedFrom (replayed before) output.length) events
  seeds : seedsDrawn events = (List.range (seedsDrawn events).length).map (seedAt trng)
  left_eq : left = trng.drop (seedsDrawn events).length

section

variable {trng left : List TrngAnswer} {events : List RandomEvent}

theorem seedsDrawn_snoc (events : List RandomEvent) (event : RandomEvent) :
    seedsDrawn (events ++ [event]) = seedsDrawn events ++ event.drawn.toList := by
  rw [seedsDrawn, List.filterMap_append]
  cases drawn : event.drawn with
  | none => rw [List.filterMap_cons_none drawn]; rfl
  | some seed => rw [List.filterMap_cons_some drawn]; rfl

theorem logs_nil (trng : List TrngAnswer) : Logs trng [] trng where
  outputs := eachSqueeze_nil _
  seeds := rfl
  left_eq := rfl

/-- An event that draws no seed. -/
theorem Logs.snoc (logs : Logs trng events left) {event : RandomEvent} (noSeed : event.drawn = none)
    (output : ∀ output, event = .squeeze output → output = squeezedFrom (replayed events) output.length) :
    Logs trng (events ++ [event]) left := by
  have same : seedsDrawn (events ++ [event]) = seedsDrawn events := by
    rw [seedsDrawn_snoc, noSeed]
    exact List.append_nil _
  constructor
  · exact logs.outputs.snoc output
  · rw [same]
    exact logs.seeds
  · rw [same]
    exact logs.left_eq

/-- The next answer of the random number source. -/
theorem Logs.next (logs : Logs trng events left) :
    (asconTrngGenerate left).1.seed.read 0 asconSystemSeedSize = seedAt trng (seedsDrawn events).length := by
  rw [logs.left_eq, seedAt, List.getD_eq_getElem?_getD, ← List.head?_drop, ← List.headD_eq_head?_getD]
  rfl

/-- An event that draws the next seed. -/
theorem Logs.draw (logs : Logs trng events left) {event : RandomEvent}
    (seed : event.drawn = some ((asconTrngGenerate left).1.seed.read 0 asconSystemSeedSize)) :
    Logs trng (events ++ [event]) (asconTrngGenerate left).2 := by
  have same : seedsDrawn (events ++ [event]) =
      seedsDrawn events ++ [seedAt trng (seedsDrawn events).length] := by
    rw [seedsDrawn_snoc, seed, logs.next]
    rfl
  constructor
  · refine logs.outputs.snoc ?_
    rintro output rfl
    cases seed
  · rw [same, List.length_append, List.length_singleton, List.range_succ, List.map_append, ← logs.seeds]
    rfl
  · rw [same, List.length_append, List.length_singleton, ← List.tail_drop, ← logs.left_eq]
    rfl

end

/-! ### Calls -/

/-- The state of a generator is what its log leads to, and the log is right. -/
structure RandomRun.Follows (run : RandomRun) (trng : List TrngAnswer) : Prop where
  xof : run.state.xof = ⟨replayed run.events, 0, false⟩
  logs : Logs trng run.events run.trng

section

variable {run : RandomRun} {trng : List TrngAnswer}

/-- A generator that has absorbed bytes and was rekeyed. -/
theorem xof_of_absorb {state : RandomState} {s : AsconState} {input : Mem} {inlen : Nat}
    (same : state.xof = asconXofAbsorb ⟨s, 0, false⟩ input inlen) :
    (asconRandomRekey state).xof = ⟨absorbedFrom s (input.read 0 inlen), 0, false⟩ :=
  asconRandomRekey_ofSponge (same.trans (asconXofAbsorb_atEdge s input inlen))

theorem asconRandomInit_follows (logs : Logs trng run.events run.trng) :
    (asconRandomInit run).1.Follows trng where
  xof := by
    have start : asconXofInitCustom (some spongePrngName) (fun _ => 0) 0 0 = ⟨spongePrngStart, 0, false⟩ := rfl
    change (asconRandomRekey _).xof = ⟨replayed (run.events ++ [_]), 0, false⟩
    rw [replayed_snoc, start]
    exact xof_of_absorb rfl
  logs := logs.draw rfl

theorem asconRandomReseed_follows (follows : run.Follows trng) : (asconRandomReseed run).1.Follows trng where
  xof := by
    change (asconRandomRekey _).xof = ⟨replayed (run.events ++ [_]), 0, false⟩
    rw [replayed_snoc, follows.xof]
    exact xof_of_absorb rfl
  logs := follows.logs.draw rfl

theorem asconRandomFeed_follows (follows : run.Follows trng) (entropy : Mem) (size : Nat) :
    (asconRandomFeed run entropy size).Follows trng where
  xof := by
    change (asconRandomRekey _).xof = ⟨replayed (run.events ++ [_]), 0, false⟩
    rw [replayed_snoc, follows.xof, asconXofAbsorb_atEdge, asconXofPad_ofSponge]
    -- the second padding finds the block empty.
    exact asconRandomRekey_ofSponge (s := atEdge _) rfl
  logs := follows.logs.snoc rfl nofun

/-- The generator that `ascon_random_fetch` squeezes: reseeded when the limit is reached. -/
def fetchStart (run : RandomRun) : RandomRun :=
  if asconRandomReseedLimit ≤ run.state.counter.toNat then (asconRandomReseed run).1 else run

theorem fetchStart_follows (follows : run.Follows trng) : (fetchStart run).Follows trng := by
  rw [fetchStart]
  split
  · exact asconRandomReseed_follows follows
  · exact follows

/-- What a fetch writes to memory. -/
theorem asconRandomFetch_mem (follows : run.Follows trng) (mem : Mem) (out outlen : Nat) :
    (asconRandomFetch run mem out outlen).2 =
      mem.write out (squeezedFrom (replayed (fetchStart run).events) outlen) := by
  change (asconXofSqueeze (fetchStart run).state.xof mem out outlen).2 = _
  rw [(fetchStart_follows follows).xof, asconXofSqueeze_atEdge]

theorem read_asconRandomFetch (follows : run.Follows trng) (mem : Mem) (out outlen : Nat) :
    (asconRandomFetch run mem out outlen).2.read out outlen =
      squeezedFrom (replayed (fetchStart run).events) outlen := by
  rw [asconRandomFetch_mem follows]
  exact read_write_of_length (length_squeezedFrom _ _)

theorem asconRandomFetch_events (run : RandomRun) (mem : Mem) (out outlen : Nat) :
    (asconRandomFetch run mem out outlen).1.events =
      (fetchStart run).events ++ [.squeeze ((asconRandomFetch run mem out outlen).2.read out outlen)] := rfl

theorem asconRandomFetch_follows (follows : run.Follows trng) (mem : Mem) (out outlen : Nat) :
    (asconRandomFetch run mem out outlen).1.Follows trng := by
  have start := fetchStart_follows follows
  have events := asconRandomFetch_events run mem out outlen
  rw [read_asconRandomFetch follows] at events
  constructor
  · have squeezed := asconXofSqueeze_atEdge (replayed (fetchStart run).events) mem out outlen
    rw [← start.xof] at squeezed
    rw [events, replayed_snoc, RandomEvent.stateAfter, length_squeezedFrom]
    exact asconRandomRekey_ofSponge (congrArg Prod.fst squeezed)
  · rw [events]
    refine start.logs.snoc rfl ?_
    rintro output same
    cases same
    rw [length_squeezedFrom]

theorem fetchAndStore_follows (follows : run.Follows trng) (storage : RandomStorage) (seed : Mem) :
    (fetchAndStore run storage seed).Follows trng := by
  have fetched := asconRandomFetch_follows follows seed 0 asconRandomSavedSeedSize
  constructor
  · change _ = XofState.mk (replayed (_ ++ [_])) 0 false
    rw [replayed_snoc]
    exact fetched.xof
  · exact fetched.logs.snoc rfl nofun

/-- Every call keeps the log right. -/
theorem randomCall_follows (follows : run.Follows trng) (call : RandomCall) : (randomCall run call).Follows trng := by
  cases call with
  | init => exact asconRandomInit_follows follows.logs
  | fetch mem out outlen => exact asconRandomFetch_follows follows mem out outlen
  | feed entropy size => exact asconRandomFeed_follows follows entropy size
  | reseed => exact asconRandomReseed_follows follows
  | saveSeed storage =>
      cases storage with
      | none => exact follows
      | some storage =>
          rw [randomCall, asconRandomSaveSeed]
          split
          · exact follows
          · exact fetchAndStore_follows follows storage _
  | loadSeed storage =>
      cases storage with
      | none => exact follows
      | some storage =>
          rw [randomCall, asconRandomLoadSeed]
          split
          · exact follows
          · refine fetchAndStore_follows (asconRandomReseed_follows ?_) storage _
            split
            · exact asconRandomFeed_follows follows _ _
            · exact follows

theorem randomCalls_follows (follows : run.Follows trng) (calls : List RandomCall) :
    (calls.foldl randomCall run).Follows trng := by
  induction calls generalizing run with
  | nil => exact follows
  | cons call calls ih => exact ih (randomCall_follows follows call)

end

end AsconSuite
