/-
Module: AsconSuite.Proofs.PrfStream
Layer: Proofs
Purpose: An ASCON-Prf object is a sponge that absorbs at one rate and squeezes at another. The cuts between the
  calls of a phase leave no trace, and the functions of one call are two phases.
Imports: AsconSuite.Mac.Prf, AsconSuite.Proofs.SpongePhases
Trusted boundary: none
Main exports: prfSponge, prfObject_refines, prf_streaming_independent_of_chunking
-/
import AsconSuite.Mac.Prf
import AsconSuite.Proofs.SpongePhases

namespace AsconSuite

open ByteWord ByteMemory
open Transducer (Step run)

/-! ### The calls are runs -/

/-- The duplex that absorbs. -/
def prfDuplexIn : Duplex AsconState Byte where
  toCells := asconCells
  rate := asconPrfRateIn
  rate_pos := by decide
  rate_le := by decide
  permute := fun state => asconPermute state 0

/-- The duplex that squeezes. -/
def prfDuplexOut : Duplex AsconState Byte where
  toCells := asconCells
  rate := asconPrfRateOut
  rate_pos := by decide
  rate_le := by decide
  permute := fun state => asconPermute state 0

/-- Two halves of a block are a block. -/
theorem asconAbsorb32_eq_absorbPartial (s : AsconState) (data : Mem) :
    asconAbsorb16 (asconAbsorb16 s data 0) (data.view 16) 16 =
      asconAbsorbPartial s data 0 asconPrfRateIn := by
  rw [asconAbsorb16_eq_addBytes s data (by decide : 0 % 8 = 0) (by omega),
    asconAbsorb16_eq_addBytes _ _ (by decide : 16 % 8 = 0) (by omega), asconAbsorbPartial, asconPrfRateIn,
    asconAddBytes_add s data (m := 16) (n := 16) (by omega)]

theorem asconPrfAbsorbBlocks_eq_run (s : AsconState) (input : Mem) (inlen : Nat) :
    asconPrfAbsorbBlocks s input inlen =
      .absorbing (run (prfDuplexIn.step absorbMix) (s, 0) (input.read 0 inlen)).1 := by
  have block_eq (s : AsconState) (data : Mem) :
      asconPermute (asconAbsorb16 (asconAbsorb16 s data 0) (data.view 16) 16) 0 =
        asconPermute (asconAbsorbPartial s data 0 asconPrfRateIn) 0 := by
    rw [asconAbsorb32_eq_absorbPartial]
  have loop := absorbLoop_eq_run prfDuplexIn rfl s block_eq input inlen
  rw [← loop]
  rfl

/-- The position is inside the block of the direction. -/
def PrfState.Inside (prf : PrfState) : Prop :=
  prf.count < if prf.mode then asconPrfRateOut else asconPrfRateIn

theorem asconPrfAbsorb_eq_run {prf : PrfState} (inside : PrfState.Inside prf) (input : Mem) (inlen : Nat) :
    asconPrfAbsorb prf input inlen =
      .absorbing (run (prfDuplexIn.step absorbMix)
        (if prf.mode then (asconPermute prf.state 0, 0) else (prf.state, prf.count))
        (input.read 0 inlen)).1 := by
  obtain ⟨s, count, mode⟩ := prf
  cases mode with
  | true => exact asconPrfAbsorbBlocks_eq_run _ _ _
  | false => exact absorbCarry_eq_run prfDuplexIn rfl s asconPrfAbsorbBlocks_eq_run inside input inlen

theorem asconPrfSqueezeBlocks_eq_run (s : AsconState) (mem : Mem) (out outlen : Nat) :
    asconPrfSqueezeBlocks s mem out outlen =
      squeezeRun (prfDuplexOut.lazyStep squeezeMix) (s, 0) mem out outlen := by
  refine squeezeBlocks_eq_run prfDuplexOut rfl s (fun s mem out outlen => ?_) mem out outlen
  have block := asconSqueeze16_eq_extractBytes (asconPermute s 0) mem out (rfl : 0 % 8 = 0) (by omega)
  rw [asconPrfSqueezeBlocks]
  simp only [block]
  rfl

theorem asconPrfSqueeze_eq_run {prf : PrfState} (inside : PrfState.Inside prf) (mem : Mem)
    (out outlen : Nat) :
    asconPrfSqueeze prf mem out outlen =
      squeezeRun (prfDuplexOut.lazyStep squeezeMix)
        (if prf.mode then (prf.state, prf.count)
          else (asconSeparator (asconPad prf.state prf.count), 0)) mem out outlen := by
  obtain ⟨s, count, mode⟩ := prf
  cases mode with
  | false => exact asconPrfSqueezeBlocks_eq_run _ _ _ _
  | true =>
      exact squeezeCarry_eq_run prfDuplexOut rfl s asconPrfSqueezeBlocks_eq_run inside mem out outlen

/-! ### The object is a sponge -/

/-- The two machines, and the steps between the phases. -/
def prfSponge : Sponge (AsconState × Nat) Byte Byte where
  toAbsorb := fun st => (asconPermute st.1 0, 0)
  toSqueeze := fun st => (asconSeparator (asconPad st.1 st.2), 0)
  absorb := prfDuplexIn.step absorbMix
  squeeze := prfDuplexOut.lazyStep squeezeMix

/-- An object and the state of the machine it stands for. -/
def PrfState.Stands (prf : PrfState) (st : (AsconState × Nat) × Bool) : Prop :=
  PrfState.Inside prf ∧ st = ((prf.state, prf.count), prf.mode)

/-- The two functions of an object. -/
def prfObject : SpongeObject PrfState where
  absorb := fun prf c => (prfCall prf (.absorb c)).1
  squeeze := fun prf c => prfCall prf (.squeeze c)

theorem prfObject_refines : prfObject.Refines prfSponge PrfState.Stands where
  absorb := by
    rintro prf st ⟨inside, rfl⟩ c
    have begins : (if prf.mode then (asconPermute prf.state 0, 0) else (prf.state, prf.count)).2 <
        prfDuplexIn.rate := by
      rw [PrfState.Inside] at inside
      cases mode : prf.mode with
      | true => exact prfDuplexIn.rate_pos
      | false =>
          rw [mode] at inside
          exact inside
    have absorbed := asconPrfAbsorb_eq_run inside c.input c.inlen
    exact (congrArg (PrfState.Stands · _) absorbed).mpr
      ⟨prfDuplexIn.run_position_lt absorbMix begins c.data, rfl⟩
  squeeze := by
    rintro prf st ⟨inside, rfl⟩ c
    have begins : (if prf.mode then (prf.state, prf.count)
        else (asconSeparator (asconPad prf.state prf.count), 0)).2 < prfDuplexOut.rate := by
      rw [PrfState.Inside] at inside
      cases mode : prf.mode with
      | false => exact prfDuplexOut.rate_pos
      | true =>
          rw [mode] at inside
          exact inside
    have squeezed := asconPrfSqueeze_eq_run inside c.mem c.out c.outlen
    have bytes := squeezeRun_read (prfDuplexOut.lazyStep squeezeMix)
      (if prf.mode then (prf.state, prf.count)
        else (asconSeparator (asconPad prf.state prf.count), 0)) c.mem c.out c.outlen
    rw [← squeezed] at bytes
    have object := congrArg Prod.fst squeezed
    refine ⟨(congrArg (PrfState.Stands · _) object).mpr ⟨?_, rfl⟩, bytes⟩
    exact prfDuplexOut.run_lazy_position_lt squeezeMix begins (List.replicate c.outlen ())

/-- An object that has been initialized. -/
theorem asconPrfFixedInit_stands (key : Mem) (outlen : Nat) :
    PrfState.Stands (asconPrfFixedInit key outlen)
      (((asconPrfFixedInit key outlen).state, 0), false) :=
  ⟨(by decide : 0 < asconPrfRateIn), rfl⟩

theorem prfCall_inside {prf : PrfState} (inside : PrfState.Inside prf) (call : PrfCall) :
    PrfState.Inside (prfCall prf call).1 := by
  have stands : PrfState.Stands prf ((prf.state, prf.count), prf.mode) := ⟨inside, rfl⟩
  cases call with
  | absorb c => exact (prfObject_refines.absorb stands c).1
  | squeeze c => exact (prfObject_refines.squeeze stands c).1.1

/-! ### Phases -/

/-- The object that stands for a state of the machine. -/
theorem PrfState.Stands.eq_ofSponge {prf : PrfState} {st : (AsconState × Nat) × Bool}
    (stands : PrfState.Stands prf st) : prf = ⟨st.1.1, st.1.2, st.2⟩ := by
  obtain ⟨-, rfl⟩ := stands
  rfl

/-- What an object does in some phases, from their contents. -/
def prfPhases (key : Mem) (outlen : Nat) (contents : List (SpongeInput Byte)) :
    PrfState × List (List Byte) :=
  let done := run prfSponge.call (((asconPrfFixedInit key outlen).state, 0), false) contents
  (⟨done.1.1.1, done.1.1.2, done.1.2⟩, done.2)

theorem runPhases_eq_prfPhases (key : Mem) (outlen : Nat) (phases : List XofPhase) :
    prfObject.runPhases (asconPrfFixedInit key outlen) phases =
      prfPhases key outlen (phases.map XofPhase.content) := by
  obtain ⟨stands, output⟩ := prfObject_refines.runPhases (asconPrfFixedInit_stands key outlen) phases
  exact Prod.ext stands.eq_ofSponge output

/-- The functions of one call put out what two phases with the same contents put out. -/
theorem runPhases_eq_oneShot (key : Mem) (param : Nat) {absorbing squeezing : XofPhase} (input : Mem)
    (inlen : Nat) (mem : Mem) (out len : Nat) (data : absorbing.content = .absorb (input.read 0 inlen))
    (asked : squeezing.content = .squeeze len) :
    (prfObject.runPhases (asconPrfFixedInit key param) [absorbing, squeezing]).2 =
      [[], ((asconPrfSqueeze (asconPrfAbsorb (asconPrfFixedInit key param) input inlen) mem out
        len).2).read out len] := by
  have single := runPhases_eq_prfPhases key param
    [.absorb ⟨input, inlen⟩ [], .squeeze ⟨mem, out, len⟩ []]
  have same : [absorbing, squeezing].map XofPhase.content =
      [XofPhase.absorb ⟨input, inlen⟩ [], .squeeze ⟨mem, out, len⟩ []].map XofPhase.content := by
    rw [List.map_cons, List.map_cons, List.map_nil, data, asked]
    simp only [List.map_cons, List.map_nil, XofPhase.content, XofPhase.chunks, SpongePhase.content,
      List.flatten_nil, List.append_nil, List.foldl_nil, AbsorbCall.data]
  rw [runPhases_eq_prfPhases, same, ← single]
  simp only [SpongeObject.runPhases, Transducer.run_cons, Transducer.run_nil, SpongeObject.runPhase,
    List.flatten_cons, List.flatten_nil, List.append_nil]
  rfl

/-- For every key and length parameter the object and the output of each phase depend on the contents of the
phases only, the count stays below the rate of the direction, and the functions of one call are a single
absorbing and a single squeezing phase. -/
theorem prf_streaming_independent_of_chunking (key : Mem) (outlen : Nat) :
    (∃ f : List (SpongeInput Byte) → PrfState × List (List Byte), ∀ phases : List XofPhase,
      prfObject.runPhases (asconPrfFixedInit key outlen) phases = f (phases.map XofPhase.content)) ∧
    (∀ calls : List PrfCall,
      let prf := (run prfCall (asconPrfFixedInit key outlen) calls).1
      prf.count < if prf.mode then asconPrfRateOut else asconPrfRateIn) ∧
    (∀ (absorbing squeezing : XofPhase) (input : Mem) (inlen : Nat) (mem : Mem) (out len : Nat),
      absorbing.content = .absorb (input.read 0 inlen) → squeezing.content = .squeeze len →
      (prfObject.runPhases (asconPrfInit key) [absorbing, squeezing]).2 =
        [[], (asconPrf mem out len input inlen key).read out len] ∧
      (prfObject.runPhases (asconPrfFixedInit key len) [absorbing, squeezing]).2 =
        [[], (asconPrfFixed mem out len input inlen key).read out len] ∧
      (len = asconMacTagSize →
        (prfObject.runPhases (asconPrfFixedInit key asconMacTagSize) [absorbing, squeezing]).2 =
          [[], (asconMac mem out input inlen key).read out asconMacTagSize])) := by
  refine ⟨⟨prfPhases key outlen, runPhases_eq_prfPhases key outlen⟩, ?_, ?_⟩
  · intro calls
    exact Transducer.run_preserves (I := PrfState.Inside) (fun prf c inside => prfCall_inside inside c)
      (asconPrfFixedInit_stands key outlen).1 calls
  · intro absorbing squeezing input inlen mem out len data asked
    have oneShot (param : Nat) := runPhases_eq_oneShot key param input inlen mem out len data asked
    refine ⟨oneShot 0, oneShot len, ?_⟩
    rintro rfl
    exact oneShot asconMacTagSize

end AsconSuite
