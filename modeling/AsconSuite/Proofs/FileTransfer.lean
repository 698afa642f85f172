/-
Module: AsconSuite.Proofs.FileTransfer
Layer: Proofs
Purpose: What `safe_file_read` and `safe_file_write` do for any answers of the system. A read fails or takes all
  it can; a write puts a part of its block into the file, and its result is zero exactly when the system
  refuses the first byte.
Imports: AsconSuite.Apps.FileOps, AsconSuite.Base.Transducer
Trusted boundary: none
Main exports: readFails, safeFileRead_eq, accepted, refused, safeFileWrite_eq, writeBlocks, writeBlocks_iff
-/
import AsconSuite.Apps.FileOps
import AsconSuite.Base.Transducer

namespace AsconSuite

open ByteWord ByteMemory

/-! ### Reading -/

/-- The answers make a call fail when there are that many bytes to read. -/
def readFails : List ReadAnswer → (available : Nat) → Bool
  | [], _ => false
  | .failed :: _, _ => true
  | .interrupted :: answers, available => readFails answers available
  | .bytes most :: answers, available =>
      if available = 0 then false else readFails answers (available - (most + 1))

theorem safeFileReadLoop_of_readFails (rest : List Byte) (data : Mem) (d len result : Nat)
    {answers : List ReadAnswer} (fails : readFails answers (min len rest.length) = true) :
    (safeFileReadLoop rest data d len result answers).1 = -1 := by
  induction answers generalizing rest data d len result with
  | nil => exact absurd fails (by simp [readFails])
  | cons answer answers ih =>
      cases answer with
      | failed => rfl
      | interrupted => exact ih rest data d len result fails
      | bytes most =>
          rw [readFails] at fails
          split at fails
          · exact absurd fails (by decide)
          · next some_data =>
              rw [safeFileReadLoop]
              simp only [List.length_take]
              rw [if_neg (by omega)]
              refine ih _ _ _ _ _ ?_
              rw [List.length_drop,
                show min (len - min (min len (most + 1)) rest.length)
                    (rest.length - min (min len (most + 1)) rest.length) =
                  min len rest.length - (most + 1) by omega]
              exact fails

/-- A call that does not fail takes all the bytes it was asked for and that there are. -/
theorem safeFileReadLoop_eq (rest : List Byte) (data : Mem) (d len result : Nat)
    {answers : List ReadAnswer} (reads : readFails answers (min len rest.length) = false) :
    safeFileReadLoop rest data d len result answers =
      (((result + min len rest.length : Nat) : Int), data.write d (rest.take len), rest.drop len) := by
  induction answers generalizing rest data d len result with
  | nil =>
      rw [safeFileReadLoop, List.length_take]
      rfl
  | cons answer answers ih =>
      cases answer with
      | failed => exact absurd reads (by simp [readFails])
      | interrupted => exact ih rest data d len result reads
      | bytes most =>
          rw [readFails] at reads
          rw [safeFileReadLoop]
          have temp_len : (rest.take (min len (most + 1))).length =
              min (min len (most + 1)) rest.length := List.length_take
          by_cases no_data : min len rest.length = 0
          · have all : rest.take len = [] ∧ rest.drop len = rest := by
              rcases Nat.eq_zero_or_pos len with rfl | some_len
              · exact ⟨List.take_zero, List.drop_zero⟩
              · have nothing : rest = [] := List.eq_nil_of_length_eq_zero (by omega)
                rw [nothing]
                exact ⟨List.take_nil, List.drop_nil⟩
            rw [if_pos (by omega), no_data, all.1, all.2, write_nil, Nat.add_zero]
          · rw [if_neg no_data] at reads
            generalize piece_eq : rest.take (min len (most + 1)) = piece at temp_len ⊢
            have front : piece = rest.take piece.length := by
              rw [← piece_eq, List.length_take]
              exact List.take_eq_take_iff.2 (by omega)
            have joined := List.take_add (i := piece.length) (j := len - piece.length) (l := rest)
            rw [← front, Nat.add_sub_cancel' (by omega)] at joined
            have rest_reads : readFails answers (min (len - piece.length) (rest.drop piece.length).length) =
                false := by
              rw [List.length_drop, ← reads]
              congr 1
              omega
            rw [if_neg (by omega), ih _ _ _ _ _ rest_reads, write_append, List.drop_drop, joined,
              List.length_drop, Nat.add_sub_cancel' (by omega)]
            congr 2
            omega

/-- The answers to the next call fail. -/
def InputFile.readFails (file : InputFile) (len : Nat) : Bool :=
  AsconSuite.readFails (file.answers.headD []) (min len file.rest.length)

theorem safeFileRead_of_readFails {file : InputFile} (data : Mem) (d : Nat) {len : Nat}
    (fails : file.readFails len = true) : (safeFileRead file data d len).result = -1 :=
  safeFileReadLoop_of_readFails file.rest data d len 0 fails

theorem safeFileRead_eq {file : InputFile} (data : Mem) (d : Nat) {len : Nat}
    (reads : file.readFails len = false) :
    safeFileRead file data d len =
      ⟨(min len file.rest.length : Nat), data.write d (file.rest.take len),
        ⟨file.rest.drop len, file.answers.tail⟩⟩ := by
  rw [safeFileRead, safeFileReadLoop_eq _ _ _ _ _ reads, Nat.zero_add]

/-- No call in a row of calls for `n` bytes fails, up to the one that meets the end of the file. -/
def readable (n : Nat) (answers : List (List ReadAnswer)) (len : Nat) : Bool :=
  !readFails (answers.headD []) (min n len) &&
    (if 0 < n ∧ n ≤ len then readable n answers.tail (len - n) else true)
termination_by len

theorem readable_of_lt {n : Nat} {answers : List (List ReadAnswer)} {len : Nat} (short : len < n)
    (reads : readFails (answers.headD []) (min n len) = false) : readable n answers len = true := by
  rw [readable, reads, if_neg (by omega)]
  rfl

theorem readable_add {n : Nat} (positive : 0 < n) {answers : List (List ReadAnswer)} (len : Nat)
    (reads : readFails (answers.headD []) (min n (n + len)) = false) :
    readable n answers (n + len) = readable n answers.tail len := by
  rw [readable, reads, if_pos ⟨positive, Nat.le_add_right n len⟩, Nat.add_sub_cancel_left]
  rfl

/-! ### Writing -/

/-- The number of bytes that the answers let a call of `safe_file_write` put into the file. -/
def accepted : List WriteAnswer → (len : Nat) → Nat
  | [], len => len
  | .failed :: _, _ => 0
  | .interrupted :: answers, len => accepted answers len
  | .bytes most :: answers, len =>
      if min most len = 0 then 0 else min most len + accepted answers (len - min most len)

/-- The first byte of a block is refused without an error: `write` returns zero. -/
def refused : List WriteAnswer → Bool
  | .interrupted :: answers => refused answers
  | .bytes 0 :: _ => true
  | _ => false

theorem accepted_le (answers : List WriteAnswer) (len : Nat) : accepted answers len ≤ len := by
  induction answers generalizing len with
  | nil => exact Nat.le_refl _
  | cons answer answers ih =>
      cases answer with
      | failed => exact Nat.zero_le _
      | interrupted => exact ih len
      | bytes most =>
          have behind := ih (len - min most len)
          rw [accepted]
          split <;> omega

/-- A refused block is not written. -/
theorem accepted_of_refused {answers : List WriteAnswer} (refuses : refused answers = true) (len : Nat) :
    accepted answers len = 0 := by
  induction answers with
  | nil => exact absurd refuses (by decide)
  | cons answer answers ih =>
      cases answer with
      | failed => rfl
      | interrupted => exact ih refuses
      | bytes most =>
          cases most with
          | zero => rw [accepted, if_pos (Nat.zero_min _)]
          | succ most => exact absurd refuses (by simp [refused])

theorem safeFileWriteLoop_written (written data : List Byte) (result : Nat) (answers : List WriteAnswer) :
    (safeFileWriteLoop written data result answers).2 =
      written ++ data.take (accepted answers data.length) := by
  induction answers generalizing written data result with
  | nil => rw [safeFileWriteLoop, accepted, List.take_length]
  | cons answer answers ih =>
      cases answer with
      | failed => rw [safeFileWriteLoop, accepted, List.take_zero, List.append_nil]
      | interrupted => exact ih written data result
      | bytes most =>
          rw [safeFileWriteLoop, accepted]
          by_cases nothing : min most data.length = 0
          · rw [if_pos (by rwa [List.length_take]), if_pos nothing, List.take_zero, List.append_nil]
          · rw [if_neg (by rwa [List.length_take]), if_neg nothing, ih, List.length_take, List.length_drop,
              List.append_assoc, List.take_add, ← List.take_eq_take_min]

/-- The result is zero exactly when the first byte is refused. -/
theorem safeFileWriteLoop_result (written : List Byte) {data : List Byte} (some_data : 0 < data.length)
    (answers : List WriteAnswer) :
    (safeFileWriteLoop written data 0 answers).1 = 0 ↔ refused answers = true := by
  have later (written data : List Byte) (result : Nat) (answers : List WriteAnswer) (moved : 0 < result) :
      (safeFileWriteLoop written data result answers).1 ≠ 0 := by
    induction answers generalizing written data result with
    | nil =>
        rw [safeFileWriteLoop]
        simp only
        omega
    | cons answer answers ih =>
        cases answer with
        | failed => exact (by decide : (-1 : Int) ≠ 0)
        | interrupted => exact ih written data result moved
        | bytes most =>
            rw [safeFileWriteLoop]
            split
            · simp only
              omega
            · exact ih _ _ _ (by omega)
  induction answers with
  | nil =>
      simp only [safeFileWriteLoop, refused]
      constructor
      · intro zero
        omega
      · exact fun refuses => absurd refuses (by decide)
  | cons answer answers ih =>
      cases answer with
      | failed => simp [safeFileWriteLoop, refused]
      | interrupted => exact ih
      | bytes most =>
          rw [safeFileWriteLoop]
          cases most with
          | zero => simp [refused]
          | succ most =>
              have piece : 0 < (data.take (most + 1)).length := by
                rw [List.length_take]
                omega
              rw [if_neg (by omega)]
              exact ⟨fun zero => absurd zero (later _ _ _ _ (by omega)),
                fun refuses => absurd refuses (by simp [refused])⟩

theorem safeFileWrite_file (file : OutputFile) (data : List Byte) :
    (safeFileWrite file data).file =
      { file with
        written := file.written ++ data.take (accepted (file.answers.headD []) data.length)
        answers := file.answers.tail } := by
  rw [safeFileWrite]
  simp only [safeFileWriteLoop_written]

theorem safeFileWrite_result (file : OutputFile) {data : List Byte} (some_data : 0 < data.length) :
    (safeFileWrite file data).result = 0 ↔ refused (file.answers.headD []) = true :=
  safeFileWriteLoop_result file.written some_data _

/-! ### Blocks in a row -/

/-- Write blocks as the callers do: up to the first one for which `safe_file_write` returns zero. -/
def writeBlocks (file : OutputFile) : List (List Byte) → Bool × OutputFile
  | [] => (true, file)
  | block :: blocks =>
      let write := safeFileWrite file block
      if write.result = 0 then (false, write.file) else writeBlocks write.file blocks

theorem writeBlocks_append (file : OutputFile) (front back : List (List Byte)) :
    writeBlocks file (front ++ back) =
      if (writeBlocks file front).1 then writeBlocks (writeBlocks file front).2 back
      else writeBlocks file front := by
  induction front generalizing file with
  | nil => rfl
  | cons block blocks ih =>
      rw [List.cons_append, writeBlocks, writeBlocks]
      by_cases zero : (safeFileWrite file block).result = 0
      · rw [if_pos zero, if_pos zero]
        rfl
      · rw [if_neg zero, if_neg zero, ih]

/-- The answers refuse none of the blocks of these sizes. -/
def noneRefused : List (List WriteAnswer) → (sizes : List Nat) → Bool
  | _, [] => true
  | answers, _ :: sizes => !refused (answers.headD []) && noneRefused answers.tail sizes

/-- The answers let all the bytes of the blocks of these sizes into the file. -/
def allAccepted : List (List WriteAnswer) → (sizes : List Nat) → Bool
  | _, [] => true
  | answers, size :: sizes =>
      accepted (answers.headD []) size == size && allAccepted answers.tail sizes

/-- Blocks with at least one byte each. -/
def NonemptyBlocks (blocks : List (List Byte)) : Prop := ∀ block ∈ blocks, 0 < block.length

theorem NonemptyBlocks.tail {block : List Byte} {blocks : List (List Byte)}
    (nonempty : NonemptyBlocks (block :: blocks)) : NonemptyBlocks blocks :=
  fun later behind => nonempty later (List.mem_cons_of_mem block behind)

theorem writeBlocks_cons_of_accepts (file : OutputFile) {block : List Byte} (blocks : List (List Byte))
    (some_data : 0 < block.length) (accepts : refused (file.answers.headD []) = false) :
    writeBlocks file (block :: blocks) =
      writeBlocks { file with
        written := file.written ++ block.take (accepted (file.answers.headD []) block.length)
        answers := file.answers.tail } blocks := by
  have nonzero : ¬ (safeFileWrite file block).result = 0 := by
    rw [safeFileWrite_result file some_data, accepts]
    decide
  rw [writeBlocks, if_neg nonzero, safeFileWrite_file]

theorem writeBlocks_fst (file : OutputFile) {blocks : List (List Byte)} (nonempty : NonemptyBlocks blocks) :
    (writeBlocks file blocks).1 = noneRefused file.answers (blocks.map List.length) := by
  induction blocks generalizing file with
  | nil => rfl
  | cons block blocks ih =>
      have some_data := nonempty block List.mem_cons_self
      rw [List.map_cons, noneRefused]
      cases refuses : refused (file.answers.headD []) with
      | true =>
          rw [writeBlocks, if_pos ((safeFileWrite_result file some_data).2 refuses)]
          rfl
      | false =>
          rw [writeBlocks_cons_of_accepts file blocks some_data refuses, ih _ nonempty.tail]
          rfl

/-- A block that is accepted as a whole is not refused. -/
theorem noneRefused_of_allAccepted {answers : List (List WriteAnswer)} {blocks : List (List Byte)}
    (nonempty : NonemptyBlocks blocks) (whole : allAccepted answers (blocks.map List.length) = true) :
    noneRefused answers (blocks.map List.length) = true := by
  induction blocks generalizing answers with
  | nil => rfl
  | cons block blocks ih =>
      rw [List.map_cons, allAccepted, Bool.and_eq_true, beq_iff_eq] at whole
      have some_data := nonempty block List.mem_cons_self
      rw [List.map_cons, noneRefused, ih nonempty.tail whole.2, Bool.and_true]
      cases refuses : refused (answers.headD []) with
      | true =>
          have nothing := accepted_of_refused refuses block.length
          omega
      | false => rfl

/-- Blocks that are accepted as a whole are in the file. -/
theorem writeBlocks_written (file : OutputFile) {blocks : List (List Byte)}
    (nonempty : NonemptyBlocks blocks)
    (whole : allAccepted file.answers (blocks.map List.length) = true) :
    (writeBlocks file blocks).2.written = file.written ++ blocks.flatten := by
  induction blocks generalizing file with
  | nil => exact (List.append_nil _).symm
  | cons block blocks ih =>
      have some_data := nonempty block List.mem_cons_self
      have passes := noneRefused_of_allAccepted nonempty whole
      rw [List.map_cons, noneRefused, Bool.and_eq_true, Bool.not_eq_true'] at passes
      rw [List.map_cons, allAccepted, Bool.and_eq_true, beq_iff_eq] at whole
      rw [writeBlocks_cons_of_accepts file blocks some_data passes.1, ih _ nonempty.tail whole.2, whole.1,
        List.take_length, List.flatten_cons, List.append_assoc]

theorem writeBlocks_length_le (file : OutputFile) (blocks : List (List Byte)) :
    (writeBlocks file blocks).2.written.length ≤ file.written.length + blocks.flatten.length := by
  induction blocks generalizing file with
  | nil => exact Nat.le_add_right _ _
  | cons block blocks ih =>
      have front := accepted_le (file.answers.headD []) block.length
      have written : (safeFileWrite file block).file.written.length ≤ file.written.length + block.length := by
        rw [safeFileWrite_file]
        simp only [List.length_append, List.length_take]
        omega
      rw [writeBlocks, List.flatten_cons, List.length_append]
      split
      · simp only
        omega
      · have behind := ih (safeFileWrite file block).file
        omega

/-- Blocks that are not all accepted as a whole leave bytes out of the file. -/
theorem writeBlocks_length_lt (file : OutputFile) {blocks : List (List Byte)}
    (nonempty : NonemptyBlocks blocks) (cut : allAccepted file.answers (blocks.map List.length) = false)
    (passes : noneRefused file.answers (blocks.map List.length) = true) :
    (writeBlocks file blocks).2.written.length < file.written.length + blocks.flatten.length := by
  induction blocks generalizing file with
  | nil => exact absurd cut (by simp [allAccepted])
  | cons block blocks ih =>
      have some_data := nonempty block List.mem_cons_self
      have front := accepted_le (file.answers.headD []) block.length
      rw [List.map_cons, noneRefused, Bool.and_eq_true, Bool.not_eq_true'] at passes
      rw [List.map_cons, allAccepted, Bool.and_eq_false_iff, beq_eq_false_iff_ne] at cut
      rw [writeBlocks_cons_of_accepts file blocks some_data passes.1, List.flatten_cons, List.length_append]
      rcases cut with here | later
      · refine Nat.lt_of_le_of_lt (writeBlocks_length_le _ blocks) ?_
        simp only [List.length_append, List.length_take]
        omega
      · refine Nat.lt_of_lt_of_le (ih _ nonempty.tail later passes.2) ?_
        simp only [List.length_append, List.length_take]
        omega

/-- Writing changes neither the name of the file nor that it exists. -/
theorem writeBlocks_keeps (file : OutputFile) (blocks : List (List Byte)) :
    (writeBlocks file blocks).2.filename = file.filename ∧
      (writeBlocks file blocks).2.deleted = file.deleted := by
  induction blocks generalizing file with
  | nil => exact ⟨rfl, rfl⟩
  | cons block blocks ih =>
      have kept : (safeFileWrite file block).file.filename = file.filename ∧
          (safeFileWrite file block).file.deleted = file.deleted := by
        rw [safeFileWrite_file]
        exact ⟨rfl, rfl⟩
      have later := ih (safeFileWrite file block).file
      rw [writeBlocks]
      split
      · exact kept
      · exact ⟨later.1.trans kept.1, later.2.trans kept.2⟩

end AsconSuite
