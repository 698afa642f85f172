/-
Module: AsconSuite.Proofs.XofStream
Layer: Proofs
Purpose: The absorb and squeeze functions of both extendable-output functions are runs of the duplex, one
  byte at a time, so an object is a sponge: the cuts between the calls of a phase leave no trace.
Imports: AsconSuite.Proofs.SpongePhases
Trusted boundary: none
Main exports: xofAbsorb_eq_run, asconXofSqueeze_eq_run, asconXofaSqueeze_eq_run, XofVariant.sponge,
  XofVariant.call_refines, xof_streaming_independent_of_chunking
-/
import AsconSuite.Proofs.SpongePhases

namespace AsconSuite

open ByteWord ByteMemory
open Transducer (Step run)

/-! ### Absorbing is a run -/

/-- The machine that absorbs. -/
abbrev xofAbsorbStep (firstRound : Nat) : Step (AsconState × Nat) Byte Unit :=
  (asconDuplex .eight firstRound).step absorbMix

theorem xofAbsorbBlocks_eq_run (firstRound : Nat) (s : AsconState) (input : Mem) (inlen : Nat) :
    xofAbsorbBlocks firstRound s input inlen =
      .absorbing (run (xofAbsorbStep firstRound) (s, 0) (input.read 0 inlen)).1 := by
  have block_eq (s : AsconState) (data : Mem) :
      asconPermute (asconAbsorb8 s data 0) firstRound =
        asconPermute (asconAbsorbPartial s data 0 8) firstRound := by
    rw [asconAbsorb8_eq_addBytes s data rfl (by omega), asconAbsorbPartial]
  have loop := absorbLoop_eq_run (asconDuplex .eight firstRound) rfl s block_eq input inlen
  rw [← loop]
  rfl

/-- Absorption runs on from the position of the last call, behind the permutation that ends a squeezing
phase. -/
theorem xofAbsorb_eq_run (firstRound : Nat) {xof : XofState} (inside : xof.count < 8) (input : Mem)
    (inlen : Nat) :
    xofAbsorb firstRound xof input inlen =
      .absorbing (run (xofAbsorbStep firstRound)
        (if xof.mode then (asconPermute xof.state 0, 0) else (xof.state, xof.count))
        (input.read 0 inlen)).1 := by
  obtain ⟨s, count, mode⟩ := xof
  cases mode with
  | true => exact xofAbsorbBlocks_eq_run _ _ _ _
  | false =>
      exact absorbCarry_eq_run (asconDuplex .eight firstRound) rfl s
        (xofAbsorbBlocks_eq_run firstRound) inside input inlen

/-! ### Squeezing is a run -/

/-- The machine that squeezes ASCON-XOF: it permutes in front of a block. -/
abbrev xofSqueezeStep : Step (AsconState × Nat) Unit Byte :=
  (asconDuplex .eight 0).lazyStep squeezeMix

/-- The machine that squeezes ASCON-XOFA: it permutes behind a block. -/
abbrev xofaSqueezeStep : Step (AsconState × Nat) Unit Byte :=
  (asconDuplex .eight 4).step squeezeMix

section

variable (s : AsconState) {pos len : Nat}

theorem xofa_run_of_lt (room : pos + len < 8) :
    run xofaSqueezeStep (s, pos) (List.replicate len ()) =
      ((s, pos + len), (asconCells.fill squeezeMix s pos (List.replicate len ())).2) := by
  have filled := (asconDuplex .eight 4).run_eq_fill squeezeMix s pos (List.replicate len ())
    (by rw [List.length_replicate]; exact room)
  rw [xofaSqueezeStep, filled, List.length_replicate]
  exact congrArg (fun t => ((t, pos + len), _)) (fill_squeezeMix_fst s len (by omega))

theorem xofa_run_of_eq (some_output : 0 < len) (full : pos + len = 8) :
    run xofaSqueezeStep (s, pos) (List.replicate len ()) =
      ((asconPermute s 4, 0), (asconCells.fill squeezeMix s pos (List.replicate len ())).2) := by
  have nonempty : List.replicate len () ≠ [] := List.ne_nil_of_length_pos (by simpa using some_output)
  have filled := (asconDuplex .eight 4).run_eq_permute_fill squeezeMix s pos (List.replicate len ())
    nonempty (by rw [List.length_replicate]; exact full)
  rw [xofaSqueezeStep, filled]
  exact congrArg (fun t => ((asconPermute t 4, 0), _)) (fill_squeezeMix_fst s len (by omega))

end

theorem asconXofSqueezeBlocks_eq_run (s : AsconState) (mem : Mem) (out outlen : Nat) :
    asconXofSqueezeBlocks s mem out outlen = squeezeRun xofSqueezeStep (s, 0) mem out outlen := by
  refine squeezeBlocks_eq_run (asconDuplex .eight 0) rfl s (fun s mem out outlen => ?_) mem out outlen
  have block := asconSqueeze8_eq_extractBytes (asconPermute s 0) mem out (rfl : 0 % 8 = 0) (by omega)
  rw [asconXofSqueezeBlocks]
  simp only [block]
  rfl

theorem asconXofaSqueezeBlocks_eq_run (s : AsconState) (mem : Mem) (out outlen : Nat) :
    asconXofaSqueezeBlocks s mem out outlen = squeezeRun xofaSqueezeStep (s, 0) mem out outlen := by
  induction outlen using Nat.strongRecOn generalizing s mem out with
  | ind outlen ih =>
    rw [asconXofaSqueezeBlocks]
    rcases Nat.lt_or_ge outlen 8 with short | long
    · rw [if_neg (by rw [asconXofRate]; omega)]
      split
      · next some_output =>
          rw [squeezeRun, xofa_run_of_lt s (by omega), Nat.zero_add,
            asconSqueezePartial_eq_write _ _ _ (by omega)]
          rfl
      · rw [show outlen = 0 by omega, squeezeRun, List.replicate_zero, Transducer.run_nil, write_nil]
        rfl
    · obtain ⟨rest, rfl⟩ := Nat.exists_eq_add_of_le long
      rw [if_pos (show asconXofRate ≤ 8 + rest from long),
        squeezeRun_add (xofa_run_of_eq s (show 0 < 8 by omega) (Nat.zero_add 8))]
      simp only [asconXofRate, Nat.add_sub_cancel_left]
      rw [ih rest (by omega), asconSqueeze8_eq_write]

/-- Squeezing runs on from the position of the last call, behind the padding that ends an absorbing
phase. -/
theorem asconXofSqueeze_eq_run {xof : XofState} (inside : xof.count < 8) (mem : Mem)
    (out outlen : Nat) :
    asconXofSqueeze xof mem out outlen =
      squeezeRun xofSqueezeStep
        (if xof.mode then (xof.state, xof.count) else (asconPad xof.state xof.count, 0)) mem out
        outlen := by
  obtain ⟨s, count, mode⟩ := xof
  cases mode with
  | false => exact asconXofSqueezeBlocks_eq_run _ _ _ _
  | true =>
      exact squeezeCarry_eq_run (asconDuplex .eight 0) rfl s asconXofSqueezeBlocks_eq_run inside mem out outlen

theorem asconXofaSqueeze_eq_run {xof : XofState} (inside : xof.count < 8) (mem : Mem)
    (out outlen : Nat) :
    asconXofaSqueeze xof mem out outlen =
      squeezeRun xofaSqueezeStep
        (if xof.mode then (xof.state, xof.count)
          else (asconPermute (asconPad xof.state xof.count) 0, 0)) mem out outlen := by
  obtain ⟨s, count, mode⟩ := xof
  cases mode with
  | false => exact asconXofaSqueezeBlocks_eq_run _ _ _ _
  | true =>
      simp only [asconXofaSqueeze, if_true, asconXofRate] at inside ⊢
      split
      · split
        · rw [squeezeRun, xofa_run_of_lt s (by omega), asconSqueezePartial_eq_write _ _ _ (by omega)]
          rfl
        · obtain ⟨rest, rfl⟩ := Nat.exists_eq_add_of_le (show 8 - count ≤ outlen by omega)
          have first := xofa_run_of_eq s (show 0 < 8 - count by omega)
            (show count + (8 - count) = 8 by omega)
          rw [Nat.add_sub_cancel_left, asconXofaSqueezeBlocks_eq_run, squeezeRun_add first,
            asconSqueezePartial_eq_write _ _ _ (by omega)]
      · rw [asconXofaSqueezeBlocks_eq_run, show count = 0 by omega]

/-! ### The object is a sponge -/

namespace XofVariant

/-- The two machines of a variant, and the steps between its phases. -/
def sponge : XofVariant → Sponge (AsconState × Nat) Byte Byte
  | xof =>
      { toAbsorb := fun st => (asconPermute st.1 0, 0)
        toSqueeze := fun st => (asconPad st.1 st.2, 0)
        absorb := xofAbsorbStep 0
        squeeze := xofSqueezeStep }
  | xofa =>
      { toAbsorb := fun st => (asconPermute st.1 0, 0)
        toSqueeze := fun st => (asconPermute (asconPad st.1 st.2) 0, 0)
        absorb := xofAbsorbStep 4
        squeeze := xofaSqueezeStep }

/-- The position of a machine stays inside the block. -/
theorem sponge_call_position_lt (v : XofVariant) (s : AsconState) {count : Nat} (squeezing : Bool)
    (inside : count < 8) (input : SpongeInput Byte) :
    (v.sponge.call ((s, count), squeezing) input).1.1.2 < 8 := by
  cases input with
  | absorb data =>
      have start : (if squeezing then v.sponge.toAbsorb (s, count) else (s, count)).2 < 8 := by
        cases squeezing with
        | true => cases v <;> exact Nat.zero_lt_succ 7
        | false => exact inside
      cases v with
      | xof => exact (asconDuplex .eight 0).run_position_lt absorbMix start data
      | xofa => exact (asconDuplex .eight 4).run_position_lt absorbMix start data
  | squeeze len =>
      have start : (if squeezing then (s, count) else v.sponge.toSqueeze (s, count)).2 < 8 := by
        cases squeezing with
        | true => exact inside
        | false => cases v <;> exact Nat.zero_lt_succ 7
      cases v with
      | xof => exact (asconDuplex .eight 0).run_lazy_position_lt squeezeMix start _
      | xofa => exact (asconDuplex .eight 4).run_position_lt squeezeMix start _

end XofVariant

/-- An object and the state of the machine it stands for. -/
def XofState.Stands (xof : XofState) (st : (AsconState × Nat) × Bool) : Prop :=
  xof.count < 8 ∧ st = ((xof.state, xof.count), xof.mode)

/-- The object that stands for a state of the machine. -/
def XofState.ofSponge (st : (AsconState × Nat) × Bool) : XofState := ⟨st.1.1, st.1.2, st.2⟩

theorem XofState.Stands.eq_ofSponge {xof : XofState} {st : (AsconState × Nat) × Bool}
    (stands : xof.Stands st) : xof = .ofSponge st := by
  obtain ⟨-, rfl⟩ := stands
  rfl

namespace XofVariant

section

variable (v : XofVariant) {xof : XofState} {st : (AsconState × Nat) × Bool} (stands : xof.Stands st)

include stands

theorem absorb_refines (c : AbsorbCall) :
    (v.call xof (.absorb c)).1.Stands (v.sponge.call st (.absorb c.data)).1 ∧
      (v.call xof (.absorb c)).2 = (v.sponge.call st (.absorb c.data)).2 := by
  obtain ⟨inside, rfl⟩ := stands
  have position := v.sponge_call_position_lt xof.state xof.mode inside
    (.absorb c.data)
  refine ⟨?_, rfl⟩
  cases v with
  | xof =>
      have absorbed := xofAbsorb_eq_run 0 inside c.input c.inlen
      exact (congrArg (XofState.Stands · _) absorbed).mpr ⟨position, rfl⟩
  | xofa =>
      have absorbed := xofAbsorb_eq_run 4 inside c.input c.inlen
      exact (congrArg (XofState.Stands · _) absorbed).mpr ⟨position, rfl⟩

theorem squeeze_refines (c : SqueezeCall) :
    (v.call xof (.squeeze c)).1.Stands (v.sponge.call st (.squeeze c.outlen)).1 ∧
      (v.call xof (.squeeze c)).2 = (v.sponge.call st (.squeeze c.outlen)).2 := by
  obtain ⟨inside, rfl⟩ := stands
  have position := v.sponge_call_position_lt xof.state xof.mode inside
    (.squeeze c.outlen)
  cases v with
  | xof =>
      have squeezed := asconXofSqueeze_eq_run inside c.mem c.out c.outlen
      have bytes := squeezeRun_read xofSqueezeStep
        (if xof.mode then (xof.state, xof.count) else (asconPad xof.state xof.count, 0)) c.mem c.out
        c.outlen
      rw [← squeezed] at bytes
      exact ⟨(congrArg (fun done => XofState.Stands done.1 _) squeezed).mpr ⟨position, rfl⟩, bytes⟩
  | xofa =>
      have squeezed := asconXofaSqueeze_eq_run inside c.mem c.out c.outlen
      have bytes := squeezeRun_read xofaSqueezeStep
        (if xof.mode then (xof.state, xof.count)
          else (asconPermute (asconPad xof.state xof.count) 0, 0)) c.mem c.out c.outlen
      rw [← squeezed] at bytes
      exact ⟨(congrArg (fun done => XofState.Stands done.1 _) squeezed).mpr ⟨position, rfl⟩, bytes⟩

end

end XofVariant

/-! ### Phases -/

namespace XofVariant

variable (v : XofVariant)

/-- A sequence of calls. -/
def runCalls : XofState → List XofCall → XofState × List (List Byte) := run v.call

/-- The object after a phase, and all the output of its calls. -/
def runPhase (xof : XofState) (phase : XofPhase) : XofState × List Byte :=
  ((v.runCalls xof phase.calls).1, (v.runCalls xof phase.calls).2.flatten)

/-- The object after some phases, and the output of each. -/
def runPhases : XofState → List XofPhase → XofState × List (List Byte) := run v.runPhase

/-- The two functions of a variant. -/
def object : SpongeObject XofState where
  absorb := fun xof c => (v.call xof (.absorb c)).1
  squeeze := fun xof c => v.call xof (.squeeze c)

theorem object_refines : v.object.Refines v.sponge XofState.Stands where
  absorb := fun stands c => (v.absorb_refines stands c).1
  squeeze := fun stands c => v.squeeze_refines stands c

theorem runPhase_eq_object (xof : XofState) (phase : XofPhase) :
    v.runPhase xof phase = v.object.runPhase xof phase := by
  cases phase with
  | absorb first rest =>
      have calls : (XofPhase.absorb first rest).calls = (first :: rest).map .absorb := rfl
      rw [runPhase, runCalls, calls, Transducer.run_map]
      rfl
  | squeeze first rest =>
      have calls : (XofPhase.squeeze first rest).calls = (first :: rest).map .squeeze := rfl
      rw [runPhase, runCalls, calls, Transducer.run_map]
      rfl

/-- Running phases is running the sponge on their contents. -/
theorem runPhases_refines {xof : XofState} {st : (AsconState × Nat) × Bool} (stands : xof.Stands st)
    (phases : List XofPhase) :
    (v.runPhases xof phases).1.Stands (run v.sponge.call st (phases.map XofPhase.content)).1 ∧
      (v.runPhases xof phases).2 = (run v.sponge.call st (phases.map XofPhase.content)).2 := by
  have same : v.runPhases xof phases = v.object.runPhases xof phases :=
    congrArg (fun step => run step xof phases) (funext fun xof => funext fun phase =>
      v.runPhase_eq_object xof phase)
  rw [same]
  exact v.object_refines.runPhases stands phases

/-! ### The count -/

theorem pad_count_lt {xof : XofState} (inside : xof.count < 8) : (v.pad xof).count < 8 := by
  have padded (firstRound : Nat) : (xofPad firstRound xof).count < 8 := by
    rw [xofPad]
    split
    · rw [xofAbsorb_eq_run firstRound inside]
      have begins : (if xof.mode then (asconPermute xof.state 0, 0) else (xof.state, xof.count)).2 < 8 := by
        cases xof.mode with
        | true => exact Nat.zero_lt_succ 7
        | false => exact inside
      exact (asconDuplex .eight firstRound).run_position_lt absorbMix begins _
    · split
      · exact Nat.zero_lt_succ 7
      · exact inside
  cases v with
  | xof => exact padded 0
  | xofa => exact padded 4

theorem call_count_lt {xof : XofState} (inside : xof.count < 8) (c : XofCall) :
    (v.call xof c).1.count < 8 := by
  have stands : xof.Stands ((xof.state, xof.count), xof.mode) := ⟨inside, rfl⟩
  cases c with
  | absorb c => exact (v.absorb_refines stands c).1.1
  | squeeze c => exact (v.squeeze_refines stands c).1.1
  | pad => exact v.pad_count_lt inside

/-- An object starts on a block edge. -/
theorem start_count (start : XofStart) : (v.start start).count = 0 := by
  have fixed (init hashInit : XofState) (hi : init.count = 0) (hh : hashInit.count = 0) (word : Word)
      (outlen : Nat) : (xofInitFixed init hashInit word outlen).count = 0 := by
    rw [xofInitFixed]
    split
    · exact hi
    · split
      · exact hh
      · rfl
  have custom (firstRound : Nat) (xof : XofState) (h : xof.count = 0) (custom : Mem) (len : Nat) :
      (xofAbsorbCustom firstRound xof custom len).count = 0 := by
    rw [xofAbsorbCustom]
    split
    · rfl
    · exact h
  cases v <;> cases start with
  | init => rfl
  | initFixed outlen => exact fixed _ _ rfl rfl _ outlen
  | initCustom => exact custom _ _ rfl _ _

end XofVariant

/-- From every initial state, the object and the output of each phase depend on the contents of the phases
only, and the count stays below the rate after any calls. -/
theorem xof_streaming_independent_of_chunking (v : XofVariant) (start : XofStart) :
    (∃ f : List (SpongeInput Byte) → XofState × List (List Byte), ∀ phases : List XofPhase,
      v.runPhases (v.start start) phases = f (phases.map XofPhase.content)) ∧
    ∀ calls : List XofCall, (v.runCalls (v.start start) calls).1.count < asconXofRate := by
  have zero := v.start_count start
  have stands : (v.start start).Stands
      (((v.start start).state, (v.start start).count), (v.start start).mode) :=
    ⟨by omega, rfl⟩
  constructor
  · refine ⟨fun contents =>
      Prod.map XofState.ofSponge id (run v.sponge.call
        (((v.start start).state, (v.start start).count), (v.start start).mode) contents),
      fun phases => ?_⟩
    obtain ⟨object, output⟩ := v.runPhases_refines stands phases
    exact Prod.ext object.eq_ofSponge output
  · intro calls
    exact Transducer.run_preserves (I := fun xof : XofState => xof.count < 8)
      (fun xof c inside => v.call_count_lt inside c) (by omega) calls

end AsconSuite
