/-
Module: AsconSuite.Proofs.SpongePhases
Layer: Proofs
Purpose: What the streaming objects of the library share: loops over blocks of any rate that absorb or squeeze
  are runs of a duplex, one byte at a time, and an object whose calls are such runs does in each phase
  what a sponge does with the contents of the phase.
Imports: AsconSuite.Hash.Xof, AsconSuite.Base.Sponge, AsconSuite.Proofs.StateRanges,
  AsconSuite.Proofs.MessageLoops
Trusted boundary: none
Main exports: absorbMix, squeezeMix, absorbLoop_eq_run, absorbCarry_eq_run, squeezeRun, squeezeBlocks_eq_run,
  squeezeCarry_eq_run, XofPhase, SpongeObject, SpongeObject.Refines.runPhases
-/
import AsconSuite.Hash.Xof
import AsconSuite.Base.Sponge
import AsconSuite.Proofs.StateRanges
import AsconSuite.Proofs.MessageLoops

namespace AsconSuite

open ByteWord ByteMemory
open Transducer (Step run)

/-! ### Bytes absorbed and squeezed -/

/-- A byte absorbed is added to a byte of the state. -/
def absorbMix : Mix Byte Byte Unit := fun x b => (x ^^^ b, ())

/-- A byte squeezed stays in the state. -/
def squeezeMix : Mix Unit Byte Byte := fun x _ => (x, x)

theorem asconAbsorbPartial_eq_fill (s : AsconState) (data : Mem) {offset count : Nat}
    (fits : offset + count ≤ 40) :
    asconAbsorbPartial s data offset count = (asconCells.fill absorbMix s offset (data.read 0 count)).1 := by
  have filled : asconCells.fill absorbMix s offset (data.read 0 count) =
      (asconAddBytes s data offset count, List.replicate count ()) := by
    refine Cells.fill_eq _ _ (by simpa using fits) ?_ ?_ (by simp) ?_
    · intro i b at_i
      rw [getElem?_read, Option.ite_none_right_eq_some, Option.some_inj, Nat.zero_add] at at_i
      rw [asconCells_get, byteForOffset_asconAddBytes _ _ fits (by omega), if_pos (by omega),
        Nat.add_sub_cancel_left, at_i.2]
      rfl
    · intro k hk away
      rw [length_read] at away
      rw [asconCells_get, byteForOffset_asconAddBytes _ _ fits hk, if_neg (by omega)]
    · intro i b at_i
      rw [getElem?_read, Option.ite_none_right_eq_some] at at_i
      rw [List.getElem?_replicate, if_pos at_i.1]
  rw [filled, asconAbsorbPartial]

theorem fill_squeezeMix (s : AsconState) {offset : Nat} (count : Nat) (fits : offset + count ≤ 40) :
    asconCells.fill squeezeMix s offset (List.replicate count ()) =
      (s, Mem.read (byteForOffset s) offset count) := by
  refine Cells.fill_eq _ _ (by simpa using fits) ?_ (fun _ _ _ => rfl) (by simp) ?_
  · intro i a _
    rfl
  · intro i a at_i
    rw [List.getElem?_replicate, Option.ite_none_right_eq_some] at at_i
    rw [getElem?_read, if_pos at_i.1]
    rfl

theorem fill_squeezeMix_fst (s : AsconState) {offset : Nat} (count : Nat) (fits : offset + count ≤ 40) :
    (asconCells.fill squeezeMix s offset (List.replicate count ())).1 = s :=
  asconCells.fill_fst_of_keeps (fun _ _ => rfl) s (by rw [List.length_replicate]; exact fits)

theorem asconSqueezePartial_eq_write (s : AsconState) (mem : Mem) (data : Nat) {offset count : Nat}
    (fits : offset + count ≤ 40) :
    asconSqueezePartial s mem data offset count =
      mem.write data (asconCells.fill squeezeMix s offset (List.replicate count ())).2 := by
  rw [fill_squeezeMix s count fits]
  exact asconExtractBytes_eq_write s mem data fits

theorem asconSqueeze8_eq_write (s : AsconState) (mem : Mem) (data : Nat) :
    asconSqueeze8 s mem data 0 =
      mem.write data (asconCells.fill squeezeMix s 0 (List.replicate 8 ())).2 := by
  rw [asconSqueeze8_eq_extractBytes s mem data rfl (by omega),
    ← asconSqueezePartial_eq_write s mem data (by omega), asconSqueezePartial]

/-- An object in its absorbing phase. -/
def XofState.absorbing (st : AsconState × Nat) : XofState := ⟨st.1, st.2, false⟩

/-- An object in its squeezing phase. -/
def XofState.squeezing (st : AsconState × Nat) : XofState := ⟨st.1, st.2, true⟩

/-- The bytes behind the first ones of some data are the first bytes behind them. -/
theorem read_zero_add (data : Mem) (m n : Nat) :
    data.read 0 (m + n) = data.read 0 m ++ (data.view m).read 0 n := by
  rw [read_add, read_view, Nat.zero_add, Nat.add_zero]

/-! ### Absorbing is a run -/

section

variable (duplex : Duplex AsconState Byte) (cells : duplex.toCells = asconCells) (s : AsconState)

include cells

theorem duplex_rate_le : duplex.rate ≤ 40 := by
  have fits := duplex.rate_le
  rwa [cells] at fits

theorem absorb_run_of_lt (data : Mem) {pos len : Nat} (room : pos + len < duplex.rate) :
    (run (duplex.step absorbMix) (s, pos) (data.read 0 len)).1 =
      (asconAbsorbPartial s data pos len, pos + len) := by
  have fits := duplex_rate_le duplex cells
  rw [Duplex.run_eq_fill _ _ _ _ _ (by rw [length_read]; exact room), length_read, cells,
    asconAbsorbPartial_eq_fill _ _ (by omega)]

theorem absorb_run_of_eq (data : Mem) {pos len : Nat} (some_input : 0 < len)
    (full : pos + len = duplex.rate) :
    (run (duplex.step absorbMix) (s, pos) (data.read 0 len)).1 =
      (duplex.permute (asconAbsorbPartial s data pos len), 0) := by
  have fits := duplex_rate_le duplex cells
  have nonempty : data.read 0 len ≠ [] := List.ne_nil_of_length_pos (by simpa using some_input)
  rw [Duplex.run_eq_permute_fill _ _ _ _ _ nonempty (by rw [length_read]; exact full), cells,
    asconAbsorbPartial_eq_fill _ _ (by omega)]

/-- The loop over full blocks and the bytes left over behind it. -/
theorem absorbLoop_eq_run {block : AsconState → Mem → AsconState}
    (block_eq : ∀ s data, block s data = duplex.permute (asconAbsorbPartial s data 0 duplex.rate))
    (input : Mem) (inlen : Nat) :
    let done := absorbLoop duplex.rate block s input inlen
    (if 0 < done.2.2 then asconAbsorbPartial done.1 done.2.1 0 done.2.2 else done.1, done.2.2) =
      (run (duplex.step absorbMix) (s, 0) (input.read 0 inlen)).1 := by
  have positive := duplex.rate_pos
  induction inlen using Nat.strongRecOn generalizing s input with
  | ind inlen ih =>
    rcases Nat.lt_or_ge inlen duplex.rate with short | long
    · rw [absorbLoop, if_neg (by omega), absorb_run_of_lt duplex cells _ _ (by omega), Nat.zero_add]
      simp only
      split
      · rfl
      · rw [show inlen = 0 by omega]
        rfl
    · obtain ⟨rest, rfl⟩ := Nat.exists_eq_add_of_le long
      rw [absorbLoop, if_pos ⟨positive, long⟩, Nat.add_sub_cancel_left]
      refine (ih rest (by omega) (block s input) (input.view duplex.rate)).trans ?_
      rw [read_zero_add, Transducer.run_append,
        absorb_run_of_eq duplex cells s input positive (Nat.zero_add _), block_eq]

/-- The block left over by the last call is completed first. -/
theorem absorbCarry_eq_run {blocks : AsconState → Mem → Nat → XofState}
    (blocks_eq : ∀ s input inlen, blocks s input inlen =
      .absorbing (run (duplex.step absorbMix) (s, 0) (input.read 0 inlen)).1)
    {count : Nat} (inside : count < duplex.rate) (input : Mem) (inlen : Nat) :
    (if count ≠ 0 then
      if inlen < duplex.rate - count then
        ⟨asconAbsorbPartial s input count inlen, count + inlen, false⟩
      else
        blocks (duplex.permute (asconAbsorbPartial s input count (duplex.rate - count)))
          (input.view (duplex.rate - count)) (inlen - (duplex.rate - count))
    else blocks s input inlen) =
      XofState.absorbing (run (duplex.step absorbMix) (s, count) (input.read 0 inlen)).1 := by
  split
  · split
    · rw [absorb_run_of_lt duplex cells _ _ (by omega)]
      rfl
    · -- the rest starts on the edge of a block.
      obtain ⟨rest, rfl⟩ := Nat.exists_eq_add_of_le (show duplex.rate - count ≤ inlen by omega)
      rw [Nat.add_sub_cancel_left, blocks_eq, read_zero_add, Transducer.run_append,
        absorb_run_of_eq duplex cells _ _ (show 0 < duplex.rate - count by omega) (by omega)]
  · next edge =>
      rw [blocks_eq, show count = 0 by omega]

end

/-! ### Squeezing is a run -/

/-- What a run squeezes, written to memory. -/
def squeezeRun (step : Step (AsconState × Nat) Unit Byte) (st : AsconState × Nat) (mem : Mem)
    (out outlen : Nat) : XofState × Mem :=
  let done := run step st (List.replicate outlen ())
  (.squeezing done.1, mem.write out done.2)

/-- A run goes on behind what it has squeezed. -/
theorem squeezeRun_add {step : Step (AsconState × Nat) Unit Byte} {st next : AsconState × Nat}
    {bytes : List Byte} {m : Nat} (first : run step st (List.replicate m ()) = (next, bytes))
    (mem : Mem) (out n : Nat) :
    squeezeRun step st mem out (m + n) = squeezeRun step next (mem.write out bytes) (out + m) n := by
  have len : bytes.length = m := by
    have total := Transducer.length_run step st (List.replicate m ())
    rwa [first, List.length_replicate] at total
  have joined := write_append mem out bytes (run step next (List.replicate n ())).2
  rw [len] at joined
  simp only [squeezeRun]
  rw [joined, ← List.replicate_append_replicate, Transducer.run_append, first]

/-- The bytes in the output buffer of a squeeze call are the ones its run puts out. -/
theorem squeezeRun_read (step : Step (AsconState × Nat) Unit Byte) (st : AsconState × Nat) (mem : Mem)
    (out outlen : Nat) :
    (squeezeRun step st mem out outlen).2.read out outlen =
      (run step st (List.replicate outlen ())).2 := by
  have written := read_write_same mem out (run step st (List.replicate outlen ())).2
  rwa [Transducer.length_run, List.length_replicate] at written

section

variable (duplex : Duplex AsconState Byte) (cells : duplex.toCells = asconCells) (s : AsconState)

include cells

theorem squeeze_run_inside {pos len : Nat} (inside : 0 < pos) (started : pos < duplex.rate)
    (fits : pos + len ≤ duplex.rate) :
    run (duplex.lazyStep squeezeMix) (s, pos) (List.replicate len ()) =
      ((s, (pos + len) % duplex.rate),
        (asconCells.fill squeezeMix s pos (List.replicate len ())).2) := by
  have within := duplex_rate_le duplex cells
  have filled := duplex.run_lazy_eq_fill squeezeMix s (List.replicate len ()) inside
    (by rw [List.length_replicate]; exact fits) started
  rw [filled, List.length_replicate, cells, fill_squeezeMix_fst s len (by omega)]

theorem squeeze_run_block {len : Nat} (some_output : 0 < len) (fits : len ≤ duplex.rate) :
    run (duplex.lazyStep squeezeMix) (s, 0) (List.replicate len ()) =
      ((duplex.permute s, len % duplex.rate),
        (asconCells.fill squeezeMix (duplex.permute s) 0 (List.replicate len ())).2) := by
  have within := duplex_rate_le duplex cells
  have nonempty : List.replicate len () ≠ [] := List.ne_nil_of_length_pos (by simpa using some_output)
  have filled := duplex.run_lazy_eq_fill_permute squeezeMix s nonempty
    (by rw [List.length_replicate]; exact fits)
  rw [filled, List.length_replicate, cells, fill_squeezeMix_fst _ len (by omega)]

/-- A loop that permutes in front of every block, and in front of the bytes left over. -/
theorem squeezeBlocks_eq_run {blocks : AsconState → Mem → Nat → Nat → XofState × Mem}
    (blocks_eq : ∀ s mem out outlen, blocks s mem out outlen =
      if duplex.rate ≤ outlen then
        blocks (duplex.permute s) (asconSqueezePartial (duplex.permute s) mem out 0 duplex.rate)
          (out + duplex.rate) (outlen - duplex.rate)
      else if 0 < outlen then
        (⟨duplex.permute s, outlen, true⟩, asconSqueezePartial (duplex.permute s) mem out 0 outlen)
      else (⟨s, 0, true⟩, mem))
    (mem : Mem) (out outlen : Nat) :
    blocks s mem out outlen = squeezeRun (duplex.lazyStep squeezeMix) (s, 0) mem out outlen := by
  have positive := duplex.rate_pos
  have within := duplex_rate_le duplex cells
  induction outlen using Nat.strongRecOn generalizing s mem out with
  | ind outlen ih =>
    rw [blocks_eq]
    rcases Nat.lt_or_ge outlen duplex.rate with short | long
    · rw [if_neg (by omega)]
      split
      · next some_output =>
          rw [squeezeRun, squeeze_run_block duplex cells s some_output (by omega), Nat.mod_eq_of_lt short,
            asconSqueezePartial_eq_write _ _ _ (by omega)]
          rfl
      · rw [show outlen = 0 by omega, squeezeRun, List.replicate_zero, Transducer.run_nil, write_nil]
        rfl
    · obtain ⟨rest, rfl⟩ := Nat.exists_eq_add_of_le long
      have first := squeeze_run_block duplex cells s positive (Nat.le_refl duplex.rate)
      rw [Nat.mod_self] at first
      rw [if_pos long, Nat.add_sub_cancel_left, ih rest (by omega), squeezeRun_add first,
        asconSqueezePartial_eq_write _ _ _ (by omega)]

/-- The block left over by the last call is squeezed to its end first. -/
theorem squeezeCarry_eq_run {blocks : AsconState → Mem → Nat → Nat → XofState × Mem}
    (blocks_eq : ∀ s mem out outlen, blocks s mem out outlen =
      squeezeRun (duplex.lazyStep squeezeMix) (s, 0) mem out outlen)
    {count : Nat} (inside : count < duplex.rate) (mem : Mem) (out outlen : Nat) :
    (if count ≠ 0 then
      if outlen < duplex.rate - count then
        (⟨s, count + outlen, true⟩, asconSqueezePartial s mem out count outlen)
      else
        blocks s (asconSqueezePartial s mem out count (duplex.rate - count)) (out + (duplex.rate - count))
          (outlen - (duplex.rate - count))
    else blocks s mem out outlen) =
      squeezeRun (duplex.lazyStep squeezeMix) (s, count) mem out outlen := by
  have within := duplex_rate_le duplex cells
  split
  · split
    · rw [squeezeRun, squeeze_run_inside duplex cells s (by omega) inside (by omega),
        Nat.mod_eq_of_lt (by omega), asconSqueezePartial_eq_write _ _ _ (by omega)]
      rfl
    · obtain ⟨rest, rfl⟩ := Nat.exists_eq_add_of_le (show duplex.rate - count ≤ outlen by omega)
      have full : (count + (duplex.rate - count)) % duplex.rate = 0 := by
        rw [Nat.add_sub_cancel' inside.le, Nat.mod_self]
      have first := squeeze_run_inside duplex cells s (show 0 < count by omega) inside
        (show count + (duplex.rate - count) ≤ duplex.rate by omega)
      rw [full] at first
      rw [Nat.add_sub_cancel_left, blocks_eq, squeezeRun_add first,
        asconSqueezePartial_eq_write _ _ _ (by omega)]
  · rw [blocks_eq, show count = 0 by omega]

end

/-! ### Phases -/

/-- What a call of an absorb function brings in. -/
def AbsorbCall.data (call : AbsorbCall) : List Byte := call.input.read 0 call.inlen

/-- The calls of one phase, of which there is at least one. -/
inductive XofPhase where
  | absorb (first : AbsorbCall) (rest : List AbsorbCall)
  | squeeze (first : SqueezeCall) (rest : List SqueezeCall)

namespace XofPhase

def calls : XofPhase → List XofCall
  | absorb first rest => .absorb first :: rest.map .absorb
  | squeeze first rest => .squeeze first :: rest.map .squeeze

/-- What the calls of a phase bring in or ask for, call by call. -/
def chunks : XofPhase → SpongePhase Byte
  | absorb first rest => .absorb first.data (rest.map AbsorbCall.data)
  | squeeze first rest => .squeeze first.outlen (rest.map SqueezeCall.outlen)

/-- The data of an absorbing phase, or the length of what is squeezed. -/
def content (phase : XofPhase) : SpongeInput Byte := phase.chunks.content

end XofPhase

/-- An object with an absorb and a squeeze function. -/
structure SpongeObject (ω : Type*) where
  absorb : ω → AbsorbCall → ω
  squeeze : ω → SqueezeCall → ω × List Byte

namespace SpongeObject

variable {ω : Type*} (object : SpongeObject ω)

/-- One call, and the bytes in the output buffer after it. -/
def absorbCall (state : ω) (c : AbsorbCall) : ω × List Byte := (object.absorb state c, [])

/-- The object after a phase, and all the output of its calls. -/
def runPhase (state : ω) : XofPhase → ω × List Byte
  | .absorb first rest =>
      let done := run object.absorbCall state (first :: rest)
      (done.1, done.2.flatten)
  | .squeeze first rest =>
      let done := run object.squeeze state (first :: rest)
      (done.1, done.2.flatten)

/-- The object after some phases, and the output of each. -/
def runPhases : ω → List XofPhase → ω × List (List Byte) := run object.runPhase

/-- The calls of an object do what the calls of a sponge do. -/
structure Refines (sponge : Sponge (AsconState × Nat) Byte Byte)
    (Stands : ω → (AsconState × Nat) × Bool → Prop) : Prop where
  absorb : ∀ {state st}, Stands state st → ∀ c : AbsorbCall,
    Stands (object.absorb state c) (sponge.call st (.absorb c.data)).1
  squeeze : ∀ {state st}, Stands state st → ∀ c : SqueezeCall,
    Stands (object.squeeze state c).1 (sponge.call st (.squeeze c.outlen)).1 ∧
      (object.squeeze state c).2 = (sponge.call st (.squeeze c.outlen)).2

namespace Refines

variable {object} {sponge : Sponge (AsconState × Nat) Byte Byte}
  {Stands : ω → (AsconState × Nat) × Bool → Prop} (refines : object.Refines sponge Stands) {state : ω}
  {st : (AsconState × Nat) × Bool}

include refines

theorem runPhase (stands : Stands state st) (phase : XofPhase) :
    Stands (object.runPhase state phase).1 (sponge.phase st phase.chunks).1 ∧
      (object.runPhase state phase).2 = (sponge.phase st phase.chunks).2 := by
  cases phase with
  | absorb first rest =>
      obtain ⟨stands', output⟩ := Transducer.run_simulates
        (fun state st c (stands : Stands state st) =>
          (⟨refines.absorb stands c, rfl⟩ : Stands (object.absorbCall state c).1
            (sponge.call st (.absorb c.data)).1 ∧ _)) stands (first :: rest)
      have inputs : (XofPhase.absorb first rest).chunks.calls =
          (first :: rest).map fun c => .absorb c.data := by
        rw [XofPhase.chunks, SpongePhase.calls, List.map_map, List.map_cons]
        rfl
      rw [SpongeObject.runPhase, Sponge.phase, inputs, output]
      exact ⟨stands', rfl⟩
  | squeeze first rest =>
      obtain ⟨stands', output⟩ := Transducer.run_simulates
        (fun state st c (stands : Stands state st) => refines.squeeze stands c) stands (first :: rest)
      have inputs : (XofPhase.squeeze first rest).chunks.calls =
          (first :: rest).map fun c => .squeeze c.outlen := by
        rw [XofPhase.chunks, SpongePhase.calls, List.map_map, List.map_cons]
        rfl
      rw [SpongeObject.runPhase, Sponge.phase, inputs, output]
      exact ⟨stands', rfl⟩

/-- Running phases is running the sponge on their contents. -/
theorem runPhases (stands : Stands state st) (phases : List XofPhase) :
    Stands (object.runPhases state phases).1 (run sponge.call st (phases.map XofPhase.content)).1 ∧
      (object.runPhases state phases).2 = (run sponge.call st (phases.map XofPhase.content)).2 := by
  have ran := Transducer.run_simulates
    (fun state st phase (stands : Stands state st) => refines.runPhase stands phase) stands phases
  rw [sponge.run_phase_eq_run_call, List.map_map] at ran
  exact ran

end Refines

end SpongeObject

end AsconSuite
