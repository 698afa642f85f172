/-
Module: AsconSuite.Proofs.FileLoops
Layer: Proofs
Purpose: The loops of `encrypt_file` and `decrypt_file` are one run over the bytes of the file, cut into blocks
  for writing. They succeed exactly when no read fails, the file is not too long and no block is refused.
Imports: AsconSuite.Apps.Asconcrypt, AsconSuite.Proofs.FileTransfer, AsconSuite.Proofs.IncrementalAead
Trusted boundary: none
Main exports: LoopDone, fileLoop_done, encryptLoop_done, decryptLoop_done
-/
import AsconSuite.Apps.Asconcrypt
import AsconSuite.Proofs.FileTransfer
import AsconSuite.Proofs.IncrementalAead

namespace AsconSuite

open ByteWord ByteMemory
open Transducer (run pieces pieceSizes)

/-- A block function is a run over the bytes it is given, in place. -/
def BlockRuns (mix : Mix Byte Byte Byte)
    (block : AeadState → Mem → Nat → Nat → Nat → AeadState × Mem) : Prop :=
  ∀ (state : AeadState) (mem : Mem) (len : Nat), state.Inside .ascon80pq →
    let ended := run ((asconDuplex .eight 6).step mix) (state.state, state.posn) (mem.read 0 len)
    block state mem 0 0 len =
      ({ state with state := ended.1.1, posn := ended.1.2 }, mem.write 0 ended.2)

theorem encryptBlock_runs : BlockRuns encMix ascon80pqAeadEncryptBlock := by
  intro state mem len inside
  rw [ascon80pqAeadEncryptBlock, aeadEncryptBlock,
    AeadVariant.encryptMessage_eq_messageRun _ _ _ inside (Or.inl rfl)]
  rfl

theorem decryptBlock_runs : BlockRuns decMix ascon80pqAeadDecryptBlock := by
  intro state mem len inside
  rw [ascon80pqAeadDecryptBlock, aeadDecryptBlock,
    AeadVariant.decryptMessage_eq_messageRun _ _ _ inside (Or.inl rfl)]
  rfl

/-! ### One pass -/

namespace FileLoop

/-- The bytes ahead and those that have not been read. -/
def whole (ahead : Nat) (loop : FileLoop) : List Byte := loop.data.read 0 ahead ++ loop.input.rest

theorem length_whole (ahead : Nat) (loop : FileLoop) :
    (loop.whole ahead).length = ahead + loop.input.rest.length := by
  rw [whole, List.length_append, length_read]

/-- The run over the first bytes of the whole. -/
def ended (mix : Mix Byte Byte Byte) (ahead : Nat) (loop : FileLoop) (len : Nat) :
    (AsconState × Nat) × List Byte :=
  run ((asconDuplex .eight 6).step mix) (loop.state.state, loop.state.posn) ((loop.whole ahead).take len)

@[simp] theorem ended_zero (mix : Mix Byte Byte Byte) (ahead : Nat) (loop : FileLoop) :
    loop.ended mix ahead 0 = ((loop.state.state, loop.state.posn), []) := by
  rw [ended, List.take_zero, Transducer.run_nil]

theorem ended_inside (mix : Mix Byte Byte Byte) (ahead : Nat) (loop : FileLoop) (len : Nat)
    (inside : loop.state.Inside .ascon80pq) : (loop.ended mix ahead len).1.2 < 8 :=
  (asconDuplex .eight 6).run_position_lt mix inside ((loop.whole ahead).take len)

/-- The loop variables behind a pass over `len` bytes. -/
structure PassDone (mix : Mix Byte Byte Byte) (size ahead len : Nat) (loop next : FileLoop) : Prop where
  exitVal_eq : next.exitVal = loop.exitVal
  size_eq : next.size = loop.size + len
  state_eq : next.state =
    { loop.state with
      state := (loop.ended mix ahead len).1.1
      posn := (loop.ended mix ahead len).1.2 }
  input_eq : next.input = ⟨loop.input.rest.drop size, loop.input.answers.tail⟩
  output_eq : next.output = (safeFileWrite loop.output (loop.ended mix ahead len).2).file
  whole_eq : next.whole ahead = (loop.whole ahead).drop len

/-- A pass and what comes behind it are one run. -/
theorem PassDone.ended_add {mix : Mix Byte Byte Byte} {size ahead len : Nat} {loop next : FileLoop}
    (pass : PassDone mix size ahead len loop next) (m : Nat) :
    loop.ended mix ahead (len + m) =
      ((next.ended mix ahead m).1, (loop.ended mix ahead len).2 ++ (next.ended mix ahead m).2) := by
  have position : (next.state.state, next.state.posn) = (loop.ended mix ahead len).1 := by
    rw [pass.state_eq]
  rw [ended, List.take_add, Transducer.run_append, ended, position, pass.whole_eq]
  rfl

section

variable {mix : Mix Byte Byte Byte} {size ahead : Nat}
  {block : AeadState → Mem → Nat → Nat → Nat → AeadState × Mem} {keep : Nat → Mem → Mem}
  (block_runs : BlockRuns mix block)
  (keep_eq : ∀ len data, (keep len data).read 0 ahead = data.read len ahead)

include block_runs keep_eq

/-- A pass that reads some bytes and finds the file not too long. -/
theorem fileLoop_pass (loop : FileLoop) (inside : loop.state.Inside .ascon80pq) {len : Nat}
    (reads : loop.input.readFails size = false) (len_eq : min size loop.input.rest.length = len)
    (some_data : 0 < len) (fits : loop.size + len ≤ asconMaxFileSize) :
    ∃ next, PassDone mix size ahead len loop next ∧
      fileLoop size ahead block keep loop =
        if (safeFileWrite loop.output (loop.ended mix ahead len).2).result = 0 then
          { next with exitVal := 0 }
        else if len < size then next
        else fileLoop size ahead block keep next := by
  obtain ⟨data, data_eq⟩ : ∃ data, loop.data.write ahead (loop.input.rest.take size) = data := ⟨_, rfl⟩
  have piece_len : (loop.input.rest.take size).length = len := by rw [List.length_take, len_eq]
  have filled : loop.whole ahead = data.read 0 len ++ (data.read len ahead ++ loop.input.rest.drop size) := by
    have ahead_kept : data.read 0 ahead = loop.data.read 0 ahead := by
      rw [← data_eq]
      exact read_write_apart _ _ _ (by omega)
    have piece_read : data.read ahead len = loop.input.rest.take size := by
      rw [← data_eq, ← piece_len]
      exact read_write_same _ _ _
    have two_ways := read_add data 0 ahead len
    rw [Nat.add_comm ahead len, read_add, Nat.zero_add, Nat.zero_add, ahead_kept, piece_read] at two_ways
    rw [← List.append_assoc, two_ways, List.append_assoc, List.take_append_drop, whole]
  have taken : (loop.whole ahead).take len = data.read 0 len := by
    rw [filled, List.take_left' (length_read _ _ _)]
  have rest_whole : (loop.whole ahead).drop len = data.read len ahead ++ loop.input.rest.drop size := by
    rw [filled, List.drop_left' (length_read _ _ _)]
  have output_len : (loop.ended mix ahead len).2.length = len := by
    rw [ended, Transducer.length_run, taken, length_read]
  have ran := block_runs loop.state data len inside
  rw [← taken] at ran
  have written := read_write_same data 0 (loop.ended mix ahead len).2
  rw [output_len] at written
  have ahead_next := keep_eq len (data.write 0 (loop.ended mix ahead len).2)
  rw [read_write_apart _ _ _ (by omega)] at ahead_next
  have ran : block loop.state data 0 0 len =
      ({ loop.state with
          state := (loop.ended mix ahead len).1.1
          posn := (loop.ended mix ahead len).1.2 }, data.write 0 (loop.ended mix ahead len).2) := ran
  refine ⟨{ loop with
    state := (block loop.state data 0 0 len).1
    data := keep len (block loop.state data 0 0 len).2
    size := loop.size + len
    input := ⟨loop.input.rest.drop size, loop.input.answers.tail⟩
    output := (safeFileWrite loop.output ((block loop.state data 0 0 len).2.read 0 len)).file },
    ⟨rfl, rfl, ?_, rfl, ?_, ?_⟩, ?_⟩
  · rw [ran]
  · rw [ran, written]
  · rw [whole, ran, ahead_next, rest_whole]
  · rw [fileLoop, safeFileRead_eq loop.data ahead reads, data_eq, len_eq]
    simp only [Int.toNat_natCast]
    rw [if_neg (by omega), if_neg (by omega), if_neg (by omega), ran, written]

end

/-- The end of a loop over a file. It goes through exactly when no read fails, the file is not too long and
no block is refused. Then the bytes ahead and those of the file, but for as many as were ahead, have been
processed and written. -/
structure Done (mix : Mix Byte Byte Byte) (size ahead : Nat) (loop done : FileLoop) : Prop where
  exitVal_cases : done.exitVal = 0 ∨ done.exitVal = 1
  exitVal_iff : done.exitVal = 1 ↔
    readable size loop.input.answers loop.input.rest.length = true ∧
      loop.size + loop.input.rest.length ≤ asconMaxFileSize ∧
      (writeBlocks loop.output
        (pieces size (loop.ended mix ahead loop.input.rest.length).2)).1 = true
  filename_eq : done.output.filename = loop.output.filename
  success : done.exitVal = 1 →
    done.output = (writeBlocks loop.output
        (pieces size (loop.ended mix ahead loop.input.rest.length).2)).2 ∧
      done.state =
        { loop.state with
          state := (loop.ended mix ahead loop.input.rest.length).1.1
          posn := (loop.ended mix ahead loop.input.rest.length).1.2 } ∧
      done.data.read 0 ahead = (loop.whole ahead).drop loop.input.rest.length

/-- The first block and those behind it. -/
theorem PassDone.pieces_ended {mix : Mix Byte Byte Byte} {size ahead len : Nat} {loop next : FileLoop}
    (pass : PassDone mix size ahead len loop next) (len_eq : min size loop.input.rest.length = len)
    (some_data : 0 < len) :
    pieces size (loop.ended mix ahead loop.input.rest.length).2 =
      (loop.ended mix ahead len).2 :: pieces size (next.ended mix ahead next.input.rest.length).2 := by
  have front : (loop.ended mix ahead len).2.length = len := by
    rw [ended, Transducer.length_run, List.length_take, length_whole]
    omega
  have total : loop.input.rest.length = len + next.input.rest.length := by
    rw [pass.input_eq, List.length_drop]
    omega
  rw [total, pass.ended_add]
  simp only
  rcases Nat.lt_or_ge len size with short | full
  · have nothing : (next.ended mix ahead next.input.rest.length).2 = [] := by
      refine List.eq_nil_of_length_eq_zero ?_
      rw [ended, Transducer.length_run, List.length_take]
      omega
    rw [nothing, List.append_nil, Transducer.pieces_nil, Transducer.pieces_of_le (by omega) (by omega)]
  · exact Transducer.pieces_append (by omega) (by omega) _

/-- A loop that meets the end of the file in its first pass. -/
theorem Done.of_empty {mix : Mix Byte Byte Byte} {size ahead : Nat} {loop done : FileLoop}
    (running : loop.exitVal = 1) (small : loop.size ≤ asconMaxFileSize)
    (empty : loop.input.rest = []) (reads : readable size loop.input.answers 0 = true)
    (done_eq : done = { loop with input := done.input }) : Done mix size ahead loop done := by
  have nothing : (loop.ended mix ahead loop.input.rest.length) =
      ((loop.state.state, loop.state.posn), []) := by
    rw [empty, List.length_nil, ended_zero]
  have through : done.exitVal = 1 := by rw [done_eq, running]
  refine ⟨Or.inr through, ⟨fun _ => ?_, fun _ => through⟩, by rw [done_eq], fun _ => ⟨?_, ?_, ?_⟩⟩
  · rw [nothing, Transducer.pieces_nil, empty]
    exact ⟨reads, small, rfl⟩
  · rw [nothing, Transducer.pieces_nil, done_eq]
    rfl
  · rw [nothing, done_eq]
  · rw [done_eq, whole, empty, List.append_nil, List.length_nil, List.drop_zero]

/-- A loop whose first pass meets the end of the file. -/
theorem Done.of_last {mix : Mix Byte Byte Byte} {size ahead len : Nat} {loop next : FileLoop}
    (pass : PassDone mix size ahead len loop next) (len_eq : min size loop.input.rest.length = len)
    (some_data : 0 < len) (short : len < size) (reads : loop.input.readFails size = false)
    (fits : loop.size + len ≤ asconMaxFileSize) (running : loop.exitVal = 1)
    (accepts : (safeFileWrite loop.output (loop.ended mix ahead len).2).result ≠ 0) :
    Done mix size ahead loop next := by
  have total : loop.input.rest.length = len := by omega
  have ended_file : next.input.rest = [] := by
    rw [pass.input_eq]
    exact List.drop_of_length_le (by omega)
  have blocks := pass.pieces_ended len_eq some_data
  have through : next.exitVal = 1 := by rw [pass.exitVal_eq, running]
  have wrote : writeBlocks loop.output (pieces size (loop.ended mix ahead loop.input.rest.length).2) =
      (true, next.output) := by
    rw [blocks, ended_file, List.length_nil, ended_zero, Transducer.pieces_nil, writeBlocks,
      if_neg accepts, pass.output_eq]
    rfl
  refine ⟨Or.inr through, ⟨fun _ => ?_, fun _ => through⟩, ?_, fun _ => ⟨?_, ?_, ?_⟩⟩
  · rw [wrote]
    exact ⟨readable_of_lt (by omega) reads, by omega, rfl⟩
  · rw [pass.output_eq, safeFileWrite_file]
  · rw [wrote]
  · rw [pass.state_eq, total]
  · rw [total, ← pass.whole_eq, whole, ended_file, List.append_nil]

/-- A loop whose first pass is followed by others. -/
theorem Done.of_next {mix : Mix Byte Byte Byte} {size ahead len : Nat} {loop next done : FileLoop}
    (pass : PassDone mix size ahead len loop next) (len_eq : min size loop.input.rest.length = len)
    (some_data : 0 < len) (full : ¬ len < size) (reads : loop.input.readFails size = false)
    (accepts : (safeFileWrite loop.output (loop.ended mix ahead len).2).result ≠ 0)
    (behind : Done mix size ahead next done) : Done mix size ahead loop done := by
  have total : loop.input.rest.length = len + next.input.rest.length := by
    rw [pass.input_eq, List.length_drop]
    omega
  have size_eq : size = len := by omega
  have answers : next.input.answers = loop.input.answers.tail := by rw [pass.input_eq]
  have reading : readable size loop.input.answers loop.input.rest.length =
      readable size next.input.answers next.input.rest.length := by
    rw [InputFile.readFails, total, size_eq] at reads
    rw [total, size_eq, answers]
    exact readable_add some_data _ reads
  have blocks := pass.pieces_ended len_eq some_data
  have wrote : writeBlocks loop.output (pieces size (loop.ended mix ahead loop.input.rest.length).2) =
      writeBlocks next.output (pieces size (next.ended mix ahead next.input.rest.length).2) := by
    rw [blocks, writeBlocks, if_neg accepts, pass.output_eq]
  have sizes : loop.size + loop.input.rest.length = next.size + next.input.rest.length := by
    rw [pass.size_eq, total]
    omega
  refine ⟨behind.exitVal_cases, ?_, ?_, fun one => ?_⟩
  · rw [reading, sizes, wrote]
    exact behind.exitVal_iff
  · rw [behind.filename_eq, pass.output_eq, safeFileWrite_file]
  · obtain ⟨output_eq, state_eq, data_eq⟩ := behind.success one
    refine ⟨by rw [wrote, output_eq], ?_, ?_⟩
    · rw [state_eq, total, pass.ended_add, pass.state_eq]
    · rw [data_eq, pass.whole_eq, List.drop_drop, total]

/-- A loop that fails in its first pass. -/
theorem Done.of_failure {mix : Mix Byte Byte Byte} {size ahead : Nat} {loop done : FileLoop}
    (failed : done.exitVal = 0) (filename_eq : done.output.filename = loop.output.filename)
    (cause : ¬ (readable size loop.input.answers loop.input.rest.length = true ∧
      loop.size + loop.input.rest.length ≤ asconMaxFileSize ∧
      (writeBlocks loop.output
        (pieces size (loop.ended mix ahead loop.input.rest.length).2)).1 = true)) :
    Done mix size ahead loop done where
  exitVal_cases := Or.inl failed
  exitVal_iff := ⟨fun one => absurd (failed.symm.trans one) (by decide), fun holds => absurd holds cause⟩
  filename_eq := filename_eq
  success := fun one => absurd (failed.symm.trans one) (by decide)

section

variable {mix : Mix Byte Byte Byte} {size ahead : Nat}
  {block : AeadState → Mem → Nat → Nat → Nat → AeadState × Mem} {keep : Nat → Mem → Mem}
  (block_runs : BlockRuns mix block)
  (keep_eq : ∀ len data, (keep len data).read 0 ahead = data.read len ahead)
  (positive : 0 < size)

include block_runs keep_eq positive

theorem fileLoop_done (loop : FileLoop) (running : loop.exitVal = 1)
    (inside : loop.state.Inside .ascon80pq) (small : loop.size ≤ asconMaxFileSize) :
    Done mix size ahead loop (fileLoop size ahead block keep loop) := by
  obtain ⟨total, total_eq⟩ : ∃ total, loop.input.rest.length = total := ⟨_, rfl⟩
  induction total using Nat.strongRecOn generalizing loop with
  | ind total ih =>
    cases reads : loop.input.readFails size with
    | true =>
        have result := safeFileRead_of_readFails loop.data ahead reads
        have failed : (fileLoop size ahead block keep loop).exitVal = 0 ∧
            (fileLoop size ahead block keep loop).output.filename = loop.output.filename := by
          rw [fileLoop]
          simp only
          rw [if_pos (by omega)]
          exact ⟨rfl, rfl⟩
        refine .of_failure failed.1 failed.2 fun holds => ?_
        have unread := holds.1
        rw [readable, Bool.and_eq_true, Bool.not_eq_true'] at unread
        exact absurd (reads.symm.trans unread.1) (by decide)
    | false =>
        rcases Nat.eq_zero_or_pos (min size loop.input.rest.length) with no_data | some_data
        · have empty : loop.input.rest = [] := List.eq_nil_of_length_eq_zero (by omega)
          have looped : fileLoop size ahead block keep loop =
              { loop with input := ⟨loop.input.rest.drop size, loop.input.answers.tail⟩ } := by
            rw [fileLoop, safeFileRead_eq loop.data ahead reads]
            simp only [Int.toNat_natCast]
            rw [if_neg (by omega), if_pos no_data, empty, List.take_nil, write_nil]
          rw [looped]
          refine .of_empty running small empty (readable_of_lt positive ?_) rfl
          rw [InputFile.readFails, empty] at reads
          exact reads
        · by_cases fits : loop.size + min size loop.input.rest.length ≤ asconMaxFileSize
          · obtain ⟨next, pass, looped⟩ :=
              fileLoop_pass block_runs keep_eq loop inside reads rfl some_data fits
            obtain ⟨len, len_eq⟩ : ∃ len, min size loop.input.rest.length = len := ⟨_, rfl⟩
            rw [len_eq] at pass looped some_data fits
            rw [looped]
            by_cases zero : (safeFileWrite loop.output (loop.ended mix ahead len).2).result = 0
            · rw [if_pos zero]
              refine .of_failure rfl ?_ fun holds => ?_
              · simp only
                rw [pass.output_eq, safeFileWrite_file]
              · have passes := holds.2.2
                rw [pass.pieces_ended len_eq some_data, writeBlocks, if_pos zero] at passes
                exact absurd passes Bool.false_ne_true
            · rw [if_neg zero]
              by_cases short : len < size
              · rw [if_pos short]
                exact .of_last pass len_eq some_data short reads fits running zero
              · rw [if_neg short]
                refine .of_next pass len_eq some_data short reads zero
                  (ih next.input.rest.length ?_ next ?_ ?_ ?_ rfl)
                · rw [pass.input_eq, List.length_drop]
                  omega
                · rw [pass.exitVal_eq, running]
                · rw [pass.state_eq]
                  exact loop.ended_inside mix ahead len inside
                · rw [pass.size_eq]
                  exact fits
          · have failed : (fileLoop size ahead block keep loop).exitVal = 0 ∧
                (fileLoop size ahead block keep loop).output.filename = loop.output.filename := by
              rw [fileLoop, safeFileRead_eq loop.data ahead reads]
              simp only [Int.toNat_natCast]
              rw [if_neg (by omega), if_neg (by omega), if_pos (by omega)]
              exact ⟨rfl, rfl⟩
            exact .of_failure failed.1 failed.2 fun holds => fits (by omega)

end

end FileLoop

theorem encryptLoop_done (buffer : FileBuffer) (loop : FileLoop) (running : loop.exitVal = 1)
    (inside : loop.state.Inside .ascon80pq) (small : loop.size ≤ asconMaxFileSize) :
    loop.Done encMix buffer.size 0 (encryptLoop buffer loop) := by
  have positive := buffer.large
  exact FileLoop.fileLoop_done encryptBlock_runs (fun _ _ => rfl) (by omega) loop running inside small

theorem decryptLoop_done (buffer : FileBuffer) (loop : FileLoop) (running : loop.exitVal = 1)
    (inside : loop.state.Inside .ascon80pq) (small : loop.size ≤ asconMaxFileSize) :
    loop.Done decMix (buffer.size - 16) 16 (decryptLoop buffer loop) := by
  have positive := buffer.large
  have moved (len : Nat) (data : Mem) : (data.write 0 (data.read len 16)).read 0 16 = data.read len 16 := by
    have written := read_write_same data 0 (data.read len 16)
    rwa [length_read] at written
  exact FileLoop.fileLoop_done decryptBlock_runs moved (by omega) loop running inside small

end AsconSuite
