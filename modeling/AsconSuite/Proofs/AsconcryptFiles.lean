/-
Module: AsconSuite.Proofs.AsconcryptFiles
Layer: Proofs
Purpose: When `encrypt_file` and `decrypt_file` succeed, and what is in the output then, for any answers of the
  system. From this: decryption undoes encryption and accepts nothing else, and exactly which answers make a
  run report success over an incomplete output.
Imports: AsconSuite.Proofs.FileLoops, AsconSuite.Proofs.AsconcryptFormat
Trusted boundary: none
Main exports: FileRun.Ends, encryptFile_ends, decryptFile_ends
-/
import AsconSuite.Proofs.FileLoops
import AsconSuite.Proofs.AsconcryptFormat

namespace AsconSuite

open ByteWord ByteMemory
open Transducer (run pieces pieceSizes)

/-- A run succeeds exactly when `through` holds, and then leaves `output`. A run that fails leaves no file. -/
structure FileRun.Ends (run : FileRun) (filename : String) (through : Prop) (output : OutputFile) :
    Prop where
  exitVal_cases : run.exitVal = 0 ∨ run.exitVal = 1
  exitVal_iff : run.exitVal = 1 ↔ through
  success : run.exitVal = 1 → run.output = some output
  failure : run.exitVal = 0 → ∀ out, run.output = some out →
    out.filename = filename ∧ (filename ≠ "-" → out.deleted = true)

theorem FileRun.Ends.of_cleanup {filename : String} {through : Prop} {output : OutputFile}
    (fails : ¬ through) (last : OutputFile) (filename_eq : last.filename = filename) :
    (fileCleanup 0 last).Ends filename through output where
  exitVal_cases := Or.inl rfl
  exitVal_iff := ⟨fun one => absurd one (by decide : (0 : Nat) ≠ 1), fun holds => absurd holds fails⟩
  success := fun one => absurd one (by decide : (0 : Nat) ≠ 1)
  failure := by
    rintro - out same
    rw [fileCleanup, if_pos rfl, Option.some_inj] at same
    rw [← same, safeFileDelete]
    split
    · exact ⟨filename_eq, fun _ => rfl⟩
    · next standard => exact ⟨filename_eq, fun named => absurd (filename_eq ▸ named) standard⟩

theorem FileRun.Ends.of_success {filename : String} {through : Prop} {output : OutputFile}
    (holds : through) : (fileCleanup 1 output).Ends filename through output where
  exitVal_cases := Or.inr rfl
  exitVal_iff := ⟨fun _ => holds, fun _ => rfl⟩
  success := fun _ => rfl
  failure := fun zero => absurd zero (by decide : (1 : Nat) ≠ 0)

/-- A condition in other words. -/
theorem FileRun.Ends.congr {run : FileRun} {filename : String} {through through' : Prop}
    {output : OutputFile} (ends : run.Ends filename through output) (same : through ↔ through') :
    run.Ends filename through' output where
  exitVal_cases := ends.exitVal_cases
  exitVal_iff := ends.exitVal_iff.trans same
  success := ends.success
  failure := ends.failure

/-- A run whose condition fails leaves no output to speak of. -/
theorem FileRun.Ends.of_not {run : FileRun} {filename : String} {through : Prop} {output : OutputFile}
    (ends : run.Ends filename through output) (fails : ¬ through) (other : OutputFile) :
    run.Ends filename False other where
  exitVal_cases := ends.exitVal_cases
  exitVal_iff := ⟨fun one => fails (ends.exitVal_iff.1 one), False.elim⟩
  success := fun one => absurd (ends.exitVal_iff.1 one) fails
  failure := ends.failure

/-! ### Encryption -/

/-- The blocks that `encrypt_file` writes. -/
def encryptBlocks (buffer : FileBuffer) (password salt keyNonce contents : List Byte) :
    List (List Byte) :=
  let sealed := (asconcryptPayloadCipher password salt keyNonce).close contents
  [asconcryptHeader salt, asconcryptSiv password salt keyNonce] ++ (pieces buffer.size sealed.1 ++ [sealed.2])

theorem flatten_encryptBlocks (buffer : FileBuffer) (password salt keyNonce contents : List Byte) :
    (encryptBlocks buffer password salt keyNonce contents).flatten =
      encryptedFile password salt keyNonce contents := by
  have positive := buffer.large
  rw [encryptBlocks, encryptedFile, asconcryptPayload_eq_sealMessage, SealedCipher.sealMessage]
  simp only [List.flatten_append, List.flatten_cons, List.flatten_nil, List.append_nil, List.append_assoc]
  rw [Transducer.flatten_pieces (by omega)]

theorem read_tablePtr_all {bytes : List Byte} {n : Nat} (len : bytes.length = n) :
    Mem.read (tablePtr bytes) 0 n = bytes := by
  subst len
  exact read_getD bytes

/-- Two blocks at the start of a run, as `exit_val` and the file behind them. -/
theorem writeBlocks_two (output : OutputFile) (first second : List Byte) :
    (if (safeFileWrite output first).result = 0 then (0, (safeFileWrite output first).file)
      else
        (if (safeFileWrite (safeFileWrite output first).file second).result = 0 then 0 else 1,
          (safeFileWrite (safeFileWrite output first).file second).file)) =
      ((if (writeBlocks output [first, second]).1 then 1 else 0 : Nat),
        (writeBlocks output [first, second]).2) := by
  rw [writeBlocks, writeBlocks, writeBlocks]
  by_cases zero : (safeFileWrite output first).result = 0
  · rw [if_pos zero, if_pos zero]
    rfl
  · rw [if_neg zero, if_neg zero]
    by_cases zero' : (safeFileWrite (safeFileWrite output first).file second).result = 0
    · rw [if_pos zero', if_pos zero']
      rfl
    · rw [if_neg zero', if_neg zero']
      rfl

/-- The last block of a run. -/
theorem writeBlocks_one (output : OutputFile) (block : List Byte) :
    writeBlocks output [block] =
      (!decide ((safeFileWrite output block).result = 0), (safeFileWrite output block).file) := by
  rw [writeBlocks, writeBlocks]
  by_cases zero : (safeFileWrite output block).result = 0
  · rw [if_pos zero, decide_eq_true zero]
    rfl
  · rw [if_neg zero, decide_eq_false zero]
    rfl

/-- What the run makes of the payload. -/
theorem encryptBody_ends (buffer : FileBuffer) (password : List Byte) {salt keyNonce : List Byte}
    (salt_len : salt.length = 16) (kn_len : keyNonce.length = 36) (input : InputFile) (output : OutputFile) :
    let blocks := encryptBlocks buffer password salt keyNonce input.rest
    (encryptBody buffer (tablePtr (asconcryptHeader salt)) (tablePtr keyNonce)
        (tablePtr (asconcryptSiv password salt keyNonce)) input output).Ends output.filename
      (readable buffer.size input.answers input.rest.length = true ∧ input.rest.length ≤ asconMaxFileSize ∧
        (writeBlocks output blocks).1 = true)
      (writeBlocks output blocks).2 := by
  intro blocks
  have header_bytes := read_tablePtr_all (length_asconcryptHeader salt_len)
  have siv_bytes := read_tablePtr_all (length_asconcryptSiv password salt kn_len)
  have nonce_bytes : (Mem.view (tablePtr keyNonce) 20).read 0 16 = keyNonce.drop 20 := by
    rw [view_tablePtr]
    exact read_tablePtr_all (by rw [List.length_drop, kn_len])
  have key_bytes : Mem.read (tablePtr keyNonce) 0 20 = keyNonce.take 20 := by
    rw [read_tablePtr (by omega), List.drop_zero]
  obtain ⟨state_eq, key_eq, posn_eq⟩ := startPayload_eq (Mem.view (tablePtr keyNonce) 20)
    (tablePtr keyNonce) (tablePtr (asconcryptSiv password salt keyNonce))
  rw [nonce_bytes, key_bytes] at state_eq
  rw [key_bytes] at key_eq
  rw [encryptBody]
  simp only [header_bytes, siv_bytes, writeBlocks_two]
  generalize ascon80pqAeadStart (ascon80pqAeadInit localAeadState (some (Mem.view (tablePtr keyNonce) 20))
    (some (tablePtr keyNonce))) (tablePtr (asconcryptSiv password salt keyNonce)) asconcryptSivSize =
      state at *
  have joined := writeBlocks_append output [asconcryptHeader salt, asconcryptSiv password salt keyNonce]
    (pieces buffer.size ((asconcryptPayloadCipher password salt keyNonce).close input.rest).1 ++
      [((asconcryptPayloadCipher password salt keyNonce).close input.rest).2])
  have named := (writeBlocks_keeps output
    [asconcryptHeader salt, asconcryptSiv password salt keyNonce]).1
  generalize writeBlocks output [asconcryptHeader salt, asconcryptSiv password salt keyNonce] = first at *
  obtain ⟨opened, output'⟩ := first
  have blocks_eq : writeBlocks output blocks = _ := joined
  rw [blocks_eq]
  cases opened with
  | false =>
      simp only [Bool.false_eq_true, if_false, if_true]
      exact .of_cleanup (fun holds => holds.2.2) output' named
  | true =>
      simp only [if_true, Nat.one_ne_zero, if_false]
      have inside : state.Inside .ascon80pq := by
        rw [AeadState.Inside, posn_eq]
        decide
      have done := encryptLoop_done buffer ⟨1, state, fun _ => 0, 0, input, output'⟩ rfl inside
        (Nat.zero_le _)
      have ended : FileLoop.ended encMix 0 ⟨1, state, fun _ => 0, 0, input, output'⟩ input.rest.length =
          run (aeadStream .ascon80pq (tablePtr (keyNonce.take 20))).enc
            (payloadStart password salt keyNonce, 0) input.rest := by
        rw [FileLoop.ended, FileLoop.whole, read_zero, List.nil_append, List.take_length]
        simp only [state_eq, posn_eq]
        rfl
      have body : ((asconcryptPayloadCipher password salt keyNonce).close input.rest).1 =
          (FileLoop.ended encMix 0 ⟨1, state, fun _ => 0, 0, input, output'⟩ input.rest.length).2 := by
        rw [ended]
        rfl
      rw [writeBlocks_append, body]
      generalize encryptLoop buffer ⟨1, state, fun _ => 0, 0, input, output'⟩ = loop at *
      generalize blocks_wrote : writeBlocks output' (pieces buffer.size (FileLoop.ended encMix 0
        ⟨1, state, fun _ => 0, 0, input, output'⟩ input.rest.length).2) = wrote
      have through := done.exitVal_iff
      simp only [Nat.zero_add, blocks_wrote] at through
      rcases done.exitVal_cases with zero | one
      · rw [if_pos zero]
        refine .of_cleanup (fun holds => ?_) loop.output (done.filename_eq.trans named)
        have passes : wrote.1 = true := by
          by_contra stops
          rw [if_neg stops] at holds
          exact stops holds.2.2
        have one := through.2 ⟨holds.1, holds.2.1, passes⟩
        exact absurd (zero.symm.trans one) (by decide)
      · obtain ⟨reads, fits, passes⟩ := through.1 one
        obtain ⟨output_eq, state_eq', -⟩ := done.success one
        have tag_bytes : (ascon80pqAeadEncryptFinalize loop.state loop.data 0).2.read 0 ascon80pqTagSize =
            ((asconcryptPayloadCipher password salt keyNonce).close input.rest).2 := by
          rw [ascon80pqAeadEncryptFinalize, aeadEncryptFinalize, state_eq', ended]
          simp only [key_eq]
          rw [AeadVariant.squeezeTag_eq_write]
          exact read_write_same _ _ _
        simp only [blocks_wrote] at output_eq
        rw [if_neg (by omega), tag_bytes, output_eq, if_pos passes, writeBlocks_one, one]
        by_cases refuses : (safeFileWrite wrote.2
            ((asconcryptPayloadCipher password salt keyNonce).close input.rest).2).result = 0
        · rw [if_pos refuses]
          refine .of_cleanup (fun holds => ?_) _ ?_
          · rw [decide_eq_true refuses] at holds
            exact absurd holds.2.2 Bool.false_ne_true
          · rw [safeFileWrite_file, ← blocks_wrote]
            exact (writeBlocks_keeps _ _).1.trans named
        · rw [if_neg refuses]
          exact .of_success ⟨reads, fits, by rw [decide_eq_false refuses]; rfl⟩

/-- The header that `encrypt_file` formats. -/
theorem formatHeader_eq (salt : List Byte) :
    (((Mem.write (fun _ => 0) 0 asconcryptMagic).store 10 0).store 11 1).write 12 salt =
      tablePtr (asconcryptHeader salt) := by
  have magic := write_append (fun _ => 0) 0 asconcryptMagic [0, 1]
  have all := write_append (fun _ => 0) 0 (asconcryptMagic ++ [0, 1]) salt
  rw [← magic, ← write_cons] at all
  rw [← write_zeroes_eq_tablePtr, asconcryptHeader, ← all]
  simp only [store_eq_write]
  rfl

/-- The SIV block that `encrypt_file` makes of the key and the nonce. -/
theorem encryptSiv_eq (password salt : List Byte) {keyNonce : List Byte} (kn_len : keyNonce.length = 36) :
    let kn := sivBlockKey password (tablePtr salt)
    (ascon80pqSivEncrypt (tablePtr keyNonce) 0 0 36 (tablePtr (asconcryptHeader salt)) asconcryptHeaderSize
      (kn.view 20) kn).1 = tablePtr (asconcryptSiv password salt keyNonce) := by
  intro kn
  have implements := asconcryptSivCalls_implements password salt
  have longer : keyNonce.length ≤ (asconcryptSiv password salt keyNonce).length := by
    rw [length_asconcryptSiv password salt kn_len, kn_len]
    decide
  have encrypted := implements.encrypt_eq (tablePtr keyNonce)
    (Or.inl rfl : PlaintextRange 0 0 (36 + asconTagSize))
  rw [read_tablePtr_all kn_len, ← implements.encryptedBytes_eq_sealMessage] at encrypted
  refine (congrArg Prod.fst encrypted).trans ?_
  exact (congrArg (fun mem : Mem => mem.write 0 (asconcryptSiv password salt keyNonce))
    (write_zeroes_eq_tablePtr keyNonce).symm).trans
      ((write_write_of_le _ 0 longer).trans (write_zeroes_eq_tablePtr _))

theorem encryptFile_ends (buffer : FileBuffer) (password : List Byte) (files : FileCalls)
    {reads : List (List ReadAnswer)} {writes : List (List WriteAnswer)} (random : RandomFields)
    (opened : files.reads = some reads) (created : files.writes = some writes) :
    let output : OutputFile := ⟨files.filename, [], writes, false⟩
    let blocks := encryptBlocks buffer password (random.salt.read 0 16) (random.keyNonce.read 0 36)
      files.contents
    (encryptFile buffer password files (some random)).Ends files.filename
      (readable buffer.size reads files.contents.length = true ∧
        files.contents.length ≤ asconMaxFileSize ∧ (writeBlocks output blocks).1 = true)
      (writeBlocks output blocks).2 := by
  intro output blocks
  have kn_len : (random.keyNonce.read 0 36).length = 36 := length_read _ _ _
  have salt_len : (random.salt.read 0 16).length = 16 := length_read _ _ _
  have salt_view : Mem.view (tablePtr (asconcryptHeader (random.salt.read 0 16))) 12 =
      tablePtr (random.salt.read 0 16) := by
    rw [view_tablePtr]
    rfl
  have read : safeFileOpenRead files = some ⟨files.contents, reads⟩ := by
    rw [safeFileOpenRead, opened, Option.map_some]
  have create : safeFileOpenWrite files = some output := by
    rw [safeFileOpenWrite, created, Option.map_some]
  simp only [encryptFile, read, create, formatHeader_eq, salt_view]
  rw [write_zeroes_eq_tablePtr, encryptSiv_eq password _ kn_len]
  exact encryptBody_ends buffer password salt_len kn_len ⟨files.contents, reads⟩ output

/-! ### Decryption -/

/-- The plaintext that the loop of `decrypt_file` makes of the bytes behind the SIV block. -/
def decryptedPayload (password salt keyNonce sealed : List Byte) : List Byte :=
  (run (aeadStream .ascon80pq (tablePtr (keyNonce.take 20))).dec (payloadStart password salt keyNonce, 0)
    (sealed.take (sealed.length - 16))).2

/-- The bytes behind the SIV block are those of some plaintext. -/
def GoodPayload (password salt keyNonce sealed : List Byte) : Prop :=
  16 ≤ sealed.length ∧
    sealed = asconcryptPayload password salt keyNonce (decryptedPayload password salt keyNonce sealed)

/-- The last sixteen bytes are the tag of those in front of them. -/
theorem goodPayload_iff (password salt keyNonce : List Byte) {sealed : List Byte}
    (long : 16 ≤ sealed.length) :
    GoodPayload password salt keyNonce sealed ↔
      (aeadStream .ascon80pq (tablePtr (keyNonce.take 20))).tag
        (run (aeadStream .ascon80pq (tablePtr (keyNonce.take 20))).dec
          (payloadStart password salt keyNonce, 0) (sealed.take (sealed.length - 16))).1 =
        sealed.drop (sealed.length - 16) := by
  have tag_len : (sealed.drop (sealed.length - 16)).length = asconTagSize := by
    rw [List.length_drop]
    exact Nat.sub_sub_self long
  have revealed : (asconcryptPayloadCipher password salt keyNonce).reveal
      (sealed.take (sealed.length - 16)) (sealed.drop (sealed.length - 16)) =
        some (decryptedPayload password salt keyNonce sealed) ↔ _ :=
    (asconcryptPayloadCipher password salt keyNonce).reveal_iff_sealMessage tag_len
  rw [List.take_append_drop, ← asconcryptPayload_eq_sealMessage] at revealed
  rw [GoodPayload, ← revealed]
  by_cases agree : (aeadStream .ascon80pq (tablePtr (keyNonce.take 20))).tag
      (run (aeadStream .ascon80pq (tablePtr (keyNonce.take 20))).dec
        (payloadStart password salt keyNonce, 0) (sealed.take (sealed.length - 16))).1 =
      sealed.drop (sealed.length - 16)
  · exact ⟨fun _ => agree, fun _ => ⟨long, if_pos agree⟩⟩
  · refine ⟨fun good => ?_, fun same => absurd same agree⟩
    have hidden : (asconcryptPayloadCipher password salt keyNonce).reveal
        (sealed.take (sealed.length - 16)) (sealed.drop (sealed.length - 16)) = none := if_neg agree
    rw [hidden] at good
    cases good.2

/-- The result of `decrypt_finalize`. -/
theorem decryptFinalize_result (v : AeadVariant) (state : AeadState) (mem tag : Mem) :
    (aeadDecryptFinalize v state mem tag).2 =
      if (aeadStream v state.key).tag (state.state, state.posn) = tag.read 0 asconTagSize then 0 else -1 := by
  have tag_eq : (tagBuffer (v.finalize (asconPad state.state state.posn) state.key)).read 0 asconTagSize =
      (aeadStream v state.key).tag (state.state, state.posn) := rfl
  rw [aeadDecryptFinalize, asconAeadCheckTag_eq, tag_eq]
  split <;> rfl

/-- What the part behind the SIV block makes of a file that is long enough. -/
theorem decryptBody_ends (buffer : FileBuffer) (password salt : List Byte) {keyNonce : List Byte}
    {header : Mem} (nonce : (header.view 48).read 0 16 = keyNonce.drop 20)
    (key : (header.view 28).read 0 20 = keyNonce.take 20) (input : InputFile) (output : OutputFile)
    (reads : input.readFails 16 = false) (long : 16 ≤ input.rest.length) :
    let blocks := pieces (buffer.size - 16) (decryptedPayload password salt keyNonce input.rest)
    (decryptBody buffer header (tablePtr (asconcryptSiv password salt keyNonce)) input output).Ends
      output.filename
      (GoodPayload password salt keyNonce input.rest ∧
        readable (buffer.size - 16) input.answers.tail (input.rest.length - 16) = true ∧
        input.rest.length - 16 ≤ asconMaxFileSize ∧ (writeBlocks output blocks).1 = true)
      (writeBlocks output blocks).2 := by
  intro blocks
  obtain ⟨state_eq, key_eq, posn_eq⟩ := startPayload_eq (header.view 48) (header.view 28)
    (tablePtr (asconcryptSiv password salt keyNonce))
  rw [nonce, key] at state_eq
  rw [key] at key_eq
  have first : safeFileRead input (fun _ => 0) 0 16 =
      ⟨16, Mem.write (fun _ => 0) 0 (input.rest.take 16), ⟨input.rest.drop 16, input.answers.tail⟩⟩ := by
    rw [safeFileRead_eq _ 0 reads, Nat.min_eq_left long]
    rfl
  rw [decryptBody]
  simp only [first]
  generalize ascon80pqAeadStart (ascon80pqAeadInit localAeadState (some (header.view 48))
    (some (header.view 28))) (tablePtr (asconcryptSiv password salt keyNonce)) asconcryptSivSize =
      state at *
  have inside : state.Inside .ascon80pq := by
    rw [AeadState.Inside, posn_eq]
    decide
  obtain ⟨begin, begin_eq⟩ : ∃ begin : FileLoop, ⟨1, state, Mem.write (fun _ => 0) 0 (input.rest.take 16), 0,
    ⟨input.rest.drop 16, input.answers.tail⟩, output⟩ = begin := ⟨_, rfl⟩
  have done := decryptLoop_done buffer begin (by rw [← begin_eq]) (by rw [← begin_eq]; exact inside)
    (by rw [← begin_eq]; exact Nat.zero_le _)
  have left : begin.input.rest.length = input.rest.length - 16 := by
    rw [← begin_eq, List.length_drop]
  have whole : begin.whole 16 = input.rest := by
    have ahead := read_write_same (fun _ => 0) 0 (input.rest.take 16)
    rw [List.length_take, Nat.min_eq_left long] at ahead
    rw [FileLoop.whole, ← begin_eq, ahead, List.take_append_drop]
  have ended : begin.ended decMix 16 begin.input.rest.length =
      run (aeadStream .ascon80pq (tablePtr (keyNonce.take 20))).dec (payloadStart password salt keyNonce, 0)
        (input.rest.take (input.rest.length - 16)) := by
    rw [FileLoop.ended, whole, left, ← begin_eq]
    simp only [state_eq, posn_eq]
    rfl
  have through := done.exitVal_iff
  have size_eq : begin.size = 0 := by rw [← begin_eq]
  have answers_eq : begin.input.answers = input.answers.tail := by rw [← begin_eq]
  have output_eq : begin.output = output := by rw [← begin_eq]
  have blocks_eq : pieces (buffer.size - 16) (begin.ended decMix 16 begin.input.rest.length).2 = blocks := by
    rw [ended]
    rfl
  rw [blocks_eq, left, size_eq, answers_eq, output_eq, Nat.zero_add] at through
  rw [begin_eq, if_neg (by omega)]
  generalize decryptLoop buffer begin = loop at *
  rcases done.exitVal_cases with zero | one
  · rw [if_neg (by omega), zero]
    refine .of_cleanup (fun holds => ?_) loop.output (done.filename_eq.trans (congrArg _ output_eq))
    exact absurd (zero.symm.trans (through.2 holds.2)) (by decide)
  · obtain ⟨loop_output, loop_state, loop_data⟩ := done.success one
    rw [blocks_eq, output_eq] at loop_output
    have begin_key : begin.state.key = tablePtr (keyNonce.take 20) := by rw [← begin_eq, key_eq]
    rw [whole, left] at loop_data
    have result : (ascon80pqAeadDecryptFinalize loop.state loop.data loop.data).2 =
        if (aeadStream .ascon80pq (tablePtr (keyNonce.take 20))).tag
          (run (aeadStream .ascon80pq (tablePtr (keyNonce.take 20))).dec (payloadStart password salt keyNonce, 0)
            (input.rest.take (input.rest.length - 16))).1 = input.rest.drop (input.rest.length - 16)
        then 0 else -1 := by
      rw [ascon80pqAeadDecryptFinalize, decryptFinalize_result, loop_state, ended]
      simp only [begin_key]
      rw [show loop.data.read 0 asconTagSize = _ from loop_data]
    rw [result, one]
    by_cases good : GoodPayload password salt keyNonce input.rest
    · rw [if_pos ((goodPayload_iff password salt keyNonce long).1 good), if_neg (by simp), loop_output]
      exact .of_success ⟨good, through.1 one⟩
    · rw [if_neg (fun same => good ((goodPayload_iff password salt keyNonce long).2 same)),
        if_pos ⟨by decide, by decide⟩]
      exact .of_cleanup (fun holds => good holds.1) loop.output
        (done.filename_eq.trans (congrArg _ output_eq))

/-- The first eighty bytes of a file are a header and the SIV block of a key and a nonce. -/
structure GoodHeader (password contents salt keyNonce : List Byte) : Prop where
  salt_len : salt.length = 16
  kn_len : keyNonce.length = 36
  bytes : contents.take asconcryptFullSize =
    asconcryptHeader salt ++ asconcryptSiv password salt keyNonce

/-- The SIV block in the bytes of a header is decrypted under the key of the password. -/
theorem decryptSiv_eq (password : List Byte) {salt : List Byte} (salt_len : salt.length = 16)
    (sivBytes : List Byte) :
    let header := tablePtr (asconcryptHeader salt ++ sivBytes)
    let kn := sivBlockKey password (header.view 12)
    ascon80pqSivDecrypt header 28 28 asconcryptSivSize header asconcryptHeaderSize (kn.view 20) kn =
      (asconcryptSivCalls password salt).decrypt header 28 28 asconcryptSivSize := by
  intro header kn
  have header_len := length_asconcryptHeader salt_len
  have kn_eq : kn = sivBlockKey password (tablePtr salt) := by
    refine sivBlockKey_congr password fun i hi => ?_
    rw [show header = tablePtr (asconcryptHeader salt ++ sivBytes) from rfl, view_tablePtr]
    exact List.getD_append salt sivBytes 0 i (by omega)
  have data : ∀ i < asconcryptHeaderSize, header i = tablePtr (asconcryptHeader salt) i :=
    fun i hi => List.getD_append _ sivBytes 0 i (by omega)
  rw [kn_eq]
  exact sivDecrypt_congr .ascon80pq _ _ _ _ data _ _

section

variable (buffer : FileBuffer) (password : List Byte) (files : FileCalls) {reads : List (List ReadAnswer)}
  {writes : List (List WriteAnswer)} (opened : files.reads = some reads)
  (created : files.writes = some writes)

include opened created

/-- A file that begins with a header and its SIV block. -/
theorem decryptFile_of_goodHeader {salt keyNonce : List Byte}
    (good : GoodHeader password files.contents salt keyNonce)
    (first : readFails (reads.headD []) (min asconcryptFullSize files.contents.length) = false) :
    ∃ header : Mem, (header.view 48).read 0 16 = keyNonce.drop 20 ∧
      (header.view 28).read 0 20 = keyNonce.take 20 ∧
      decryptFile buffer password files =
        decryptBody buffer header (tablePtr (asconcryptSiv password salt keyNonce))
          ⟨files.contents.drop asconcryptFullSize, reads.tail⟩ ⟨files.filename, [], writes, false⟩ := by
  obtain ⟨salt_len, kn_len, bytes⟩ := good
  have header_len : (asconcryptHeader salt).length = 28 := length_asconcryptHeader salt_len
  have siv_len : (asconcryptSiv password salt keyNonce).length = 52 :=
    length_asconcryptSiv password salt kn_len
  have total := congrArg List.length bytes
  rw [List.length_take, List.length_append, header_len, siv_len] at total
  have opened' : safeFileOpenRead files = some ⟨files.contents, reads⟩ := by
    rw [safeFileOpenRead, opened, Option.map_some]
  have created' : safeFileOpenWrite files = some ⟨files.filename, [], writes, false⟩ := by
    rw [safeFileOpenWrite, created, Option.map_some]
  obtain ⟨header, header_eq⟩ : ∃ header,
    tablePtr (asconcryptHeader salt ++ asconcryptSiv password salt keyNonce) = header := ⟨_, rfl⟩
  have read : safeFileRead ⟨files.contents, reads⟩ (fun _ => 0) 0 asconcryptFullSize =
      ⟨asconcryptFullSize, header, ⟨files.contents.drop asconcryptFullSize, reads.tail⟩⟩ := by
    have unfailing : InputFile.readFails ⟨files.contents, reads⟩ asconcryptFullSize = false := first
    rw [safeFileRead_eq _ 0 unfailing, total, bytes, write_zeroes_eq_tablePtr, header_eq]
    rfl
  have check : ¬ (header.read 0 10 ≠ asconcryptMagic ∨ header 10 ≠ 0 ∨ header 11 ≠ 1) := by
    rw [← header_eq]
    simp only [not_or, not_not]
    exact ⟨rfl, rfl, rfl⟩
  have sivBytes : header.read 28 52 = asconcryptSiv password salt keyNonce := by
    rw [← header_eq, read_tablePtr (by rw [List.length_append]; omega),
      List.drop_left' header_len, List.take_of_length_le siv_len.le]
  have implements := asconcryptSivCalls_implements password salt
  have decrypted := implements.decrypt_of_sealMessage header (Or.inl rfl)
    (sivBytes.trans (implements.encryptedBytes_eq_sealMessage keyNonce))
  have siv := decryptSiv_eq password salt_len (asconcryptSiv password salt keyNonce)
  simp only [header_eq] at siv
  have siv := siv.trans decrypted
  have copy : header.view 28 = tablePtr (asconcryptSiv password salt keyNonce) := by
    rw [← header_eq, view_tablePtr, List.drop_left' header_len]
  have fields := read_write_same header 28 keyNonce
  rw [kn_len, show 36 = 20 + 16 from rfl, read_add] at fields
  have lengths : ((header.write 28 keyNonce).read 28 20).length = 20 := length_read _ _ _
  have nonce := congrArg (List.drop 20) fields
  rw [List.drop_left' lengths] at nonce
  have key := congrArg (List.take 20) fields
  rw [List.take_left' lengths] at key
  refine ⟨header.write 28 keyNonce, ?_, ?_, ?_⟩
  · rw [read_view]
    exact nonce
  · rw [read_view]
    exact key
  · simp only [decryptFile, opened', created', read]
    rw [if_neg (by decide), if_neg check, siv, copy, if_neg (not_not.2 rfl)]

/-- Any other file is rejected, as is one whose first bytes cannot be read. -/
theorem decryptFile_of_not_goodHeader (output : OutputFile)
    (bad : readFails (reads.headD []) (min asconcryptFullSize files.contents.length) = true ∨
      ∀ salt keyNonce, ¬ GoodHeader password files.contents salt keyNonce) :
    (decryptFile buffer password files).Ends files.filename False output := by
  have opened' : safeFileOpenRead files = some ⟨files.contents, reads⟩ := by
    rw [safeFileOpenRead, opened, Option.map_some]
  have created' : safeFileOpenWrite files = some ⟨files.filename, [], writes, false⟩ := by
    rw [safeFileOpenWrite, created, Option.map_some]
  have cleanup : (fileCleanup 0 ⟨files.filename, [], writes, false⟩).Ends files.filename False output :=
    .of_cleanup id _ rfl
  simp only [decryptFile, opened', created']
  by_cases read80 : (safeFileRead ⟨files.contents, reads⟩ (fun _ => 0) 0 asconcryptFullSize).result =
      asconcryptFullSize
  · rw [if_neg (not_not.2 read80)]
    have unfailing : InputFile.readFails ⟨files.contents, reads⟩ asconcryptFullSize = false := by
      cases fails : InputFile.readFails ⟨files.contents, reads⟩ asconcryptFullSize with
      | false => rfl
      | true =>
          rw [safeFileRead_of_readFails _ _ fails] at read80
          exact absurd read80 (by decide)
    have bad := bad.resolve_left (fun fails => absurd (fails.symm.trans unfailing) (by decide))
    have read := safeFileRead_eq (fun _ => 0) 0 unfailing
    rw [write_zeroes_eq_tablePtr] at read
    have long : min asconcryptFullSize files.contents.length = asconcryptFullSize := by
      rw [read] at read80
      exact Int.ofNat_inj.1 read80
    rw [read]
    simp only
    obtain ⟨raw, raw_eq⟩ : ∃ raw, files.contents.take asconcryptFullSize = raw := ⟨_, rfl⟩
    have raw_len : raw.length = 80 := by
      rw [← raw_eq, List.length_take]
      exact long
    rw [raw_eq]
    by_cases check : Mem.read (tablePtr raw) 0 10 ≠ asconcryptMagic ∨ tablePtr raw 10 ≠ 0 ∨ tablePtr raw 11 ≠ 1
    · rw [if_pos check]
      exact cleanup
    · rw [if_neg check]
      simp only [not_or, not_not] at check
      have salt_len : ((raw.drop 12).take 16).length = 16 := by
        rw [List.length_take, List.length_drop]
        omega
      have front : raw.take 12 = asconcryptMagic ++ [0, 1] := by
        have bytes := read_add (tablePtr raw) 0 10 2
        rw [read_tablePtr (by omega), List.drop_zero, check.1, read_succ, read_succ, check.2.1, check.2.2] at bytes
        exact bytes
      have parts : raw = asconcryptHeader ((raw.drop 12).take 16) ++ raw.drop 28 := by
        have salted : raw.take 28 = raw.take 12 ++ (raw.drop 12).take 16 :=
          List.take_add (i := 12) (j := 16)
        rw [asconcryptHeader, ← front, ← salted, List.take_append_drop]
      have siv := decryptSiv_eq password salt_len (raw.drop 28)
      simp only [← parts] at siv
      rw [siv]
      have implements := asconcryptSivCalls_implements password ((raw.drop 12).take 16)
      rcases implements.decrypt_cases (tablePtr raw) (by decide : asconTagSize ≤ asconcryptSivSize)
          (Or.inl rfl : PlaintextRange 28 28 asconcryptSivSize) with
        ⟨message, len, sealed, decrypted⟩ | ⟨-, decrypted⟩
      · rw [read_tablePtr (by rw [raw_len]; decide), List.take_of_length_le (by rw [List.length_drop, raw_len]; decide),
          ← implements.encryptedBytes_eq_sealMessage] at sealed
        refine absurd ⟨salt_len, len, ?_⟩ (bad ((raw.drop 12).take 16) message)
        rw [raw_eq, asconcryptSiv, ← sealed]
        exact parts
      · rw [decrypted]
        exact cleanup
  · rw [if_pos read80]
    exact cleanup

end

/-- A file that has no sixteen bytes behind the SIV block, or none that can be read. -/
theorem decryptBody_of_short (buffer : FileBuffer) (header sivCopy : Mem) (input : InputFile)
    (output other : OutputFile) (short : input.readFails 16 = true ∨ input.rest.length < 16) :
    (decryptBody buffer header sivCopy input output).Ends output.filename False other := by
  have result : (safeFileRead input (fun _ => 0) 0 16).result ≠ 16 := by
    cases fails : input.readFails 16 with
    | true =>
        rw [safeFileRead_of_readFails _ _ fails]
        decide
    | false =>
        have few := short.resolve_left (by rw [fails]; decide)
        rw [safeFileRead_eq _ 0 fails]
        simp only
        omega
  rw [decryptBody]
  simp only
  rw [if_pos result]
  exact .of_cleanup id output rfl

/-- The file that `encrypt_file` writes for some contents, under this password. -/
def IsEncryptedFile (password file contents : List Byte) : Prop :=
  ∃ salt keyNonce : List Byte, salt.length = 16 ∧ keyNonce.length = 36 ∧
    file = encryptedFile password salt keyNonce contents

/-- No read fails in a decryption of a file of this length. -/
def decryptReadable (buffer : FileBuffer) (reads : List (List ReadAnswer)) (len : Nat) : Bool :=
  !readFails (reads.headD []) (min asconcryptFullSize len) &&
    !readFails (reads.tail.headD []) (min 16 (len - asconcryptFullSize)) &&
    readable (buffer.size - 16) reads.tail.tail (len - asconcryptFullSize - 16)

/-- The payload of a file is good, and decrypts to the contents. -/
theorem decryptedPayload_asconcryptPayload (password salt keyNonce contents : List Byte) :
    GoodPayload password salt keyNonce (asconcryptPayload password salt keyNonce contents) ∧
      decryptedPayload password salt keyNonce (asconcryptPayload password salt keyNonce contents) = contents := by
  obtain ⟨sealed, sealed_eq⟩ : ∃ sealed, asconcryptPayload password salt keyNonce contents = sealed := ⟨_, rfl⟩
  have closed := asconcryptPayload_eq_sealMessage password salt keyNonce contents
  have sealed_len := congrArg List.length closed
  rw [SealedCipher.length_sealMessage, sealed_eq] at sealed_len
  have sizes : sealed.length = contents.length + 16 := sealed_len
  have tag_len : (sealed.drop (sealed.length - 16)).length = asconTagSize := by
    rw [List.length_drop]
    exact Nat.sub_sub_self (by omega)
  have revealed : (asconcryptPayloadCipher password salt keyNonce).reveal
      (sealed.take (sealed.length - 16)) (sealed.drop (sealed.length - 16)) = some contents :=
    ((asconcryptPayloadCipher password salt keyNonce).reveal_iff_sealMessage tag_len).2
      (by rw [List.take_append_drop, ← sealed_eq, closed])
  have decrypted : decryptedPayload password salt keyNonce sealed = contents := by
    have shown : (if (aeadStream .ascon80pq (tablePtr (keyNonce.take 20))).tag
        (run (aeadStream .ascon80pq (tablePtr (keyNonce.take 20))).dec
          (payloadStart password salt keyNonce, 0) (sealed.take (sealed.length - 16))).1 =
        sealed.drop (sealed.length - 16) then some (decryptedPayload password salt keyNonce sealed)
        else none) = some contents := revealed
    rw [Option.ite_none_right_eq_some, Option.some_inj] at shown
    exact shown.2
  rw [sealed_eq]
  exact ⟨⟨by omega, by rw [decrypted, sealed_eq]⟩, decrypted⟩

/-- A file is an encrypted one exactly when its header and its payload are good. -/
theorem encryptedFile_parts {password file contents salt keyNonce : List Byte} (salt_len : salt.length = 16)
    (kn_len : keyNonce.length = 36) (file_eq : file = encryptedFile password salt keyNonce contents) :
    GoodHeader password file salt keyNonce ∧
      file.drop asconcryptFullSize = asconcryptPayload password salt keyNonce contents := by
  have front : (asconcryptHeader salt ++ asconcryptSiv password salt keyNonce).length = asconcryptFullSize := by
    rw [List.length_append, length_asconcryptHeader salt_len, length_asconcryptSiv password salt kn_len]
    rfl
  rw [file_eq, encryptedFile]
  exact ⟨⟨salt_len, kn_len, List.take_left' front⟩, List.drop_left' front⟩

section

variable (buffer : FileBuffer) (password : List Byte) (files : FileCalls) {reads : List (List ReadAnswer)}
  {writes : List (List WriteAnswer)} (opened : files.reads = some reads)
  (created : files.writes = some writes)

include opened created

/-- Decryption of an encrypted file. -/
theorem decryptFile_ends {contents : List Byte} (file : IsEncryptedFile password files.contents contents) :
    let output : OutputFile := ⟨files.filename, [], writes, false⟩
    let blocks := pieces (buffer.size - 16) contents
    (decryptFile buffer password files).Ends files.filename
      (decryptReadable buffer reads files.contents.length = true ∧
        contents.length ≤ asconMaxFileSize ∧ (writeBlocks output blocks).1 = true)
      (writeBlocks output blocks).2 := by
  intro output blocks
  obtain ⟨salt, keyNonce, salt_len, kn_len, file_eq⟩ := file
  obtain ⟨goodHeader, behind⟩ := encryptedFile_parts salt_len kn_len file_eq
  obtain ⟨goodPayload, decrypted⟩ := decryptedPayload_asconcryptPayload password salt keyNonce contents
  have payload_len : files.contents.length - asconcryptFullSize = contents.length + 16 := by
    rw [← List.length_drop, behind, asconcryptPayload_eq_sealMessage, SealedCipher.length_sealMessage]
    rfl
  rw [decryptReadable, payload_len, Nat.add_sub_cancel]
  cases first : readFails (reads.headD []) (min asconcryptFullSize files.contents.length) with
  | true =>
      refine (decryptFile_of_not_goodHeader buffer password files opened created _ (Or.inl first)).congr
        ⟨False.elim, fun holds => absurd holds.1 (by simp)⟩
  | false =>
      obtain ⟨header, nonce, key, body⟩ :=
        decryptFile_of_goodHeader buffer password files opened created goodHeader first
      rw [body]
      obtain ⟨input, input_eq⟩ : ∃ input : InputFile,
        ⟨files.contents.drop asconcryptFullSize, reads.tail⟩ = input := ⟨_, rfl⟩
      have rest : input.rest = asconcryptPayload password salt keyNonce contents := by
        rw [← input_eq, behind]
      have rest_len : input.rest.length = contents.length + 16 := by
        rw [← input_eq, List.length_drop, payload_len]
      have second_eq : readFails (reads.tail.headD []) (min 16 (contents.length + 16)) =
          input.readFails 16 := by
        rw [← rest_len, ← input_eq]
        rfl
      rw [second_eq, input_eq]
      cases second : input.readFails 16 with
      | true =>
          exact (decryptBody_of_short buffer header _ input output _ (Or.inl second)).congr
            ⟨False.elim, fun holds => absurd holds.1 (by simp)⟩
      | false =>
          have ends := decryptBody_ends buffer password salt nonce key input output second (by omega)
          rw [rest_len, Nat.add_sub_cancel, rest, decrypted] at ends
          refine ends.congr ⟨fun holds => ⟨?_, holds.2.2⟩, fun holds => ⟨goodPayload, ?_, holds.2⟩⟩
          · rw [← input_eq] at holds
            rw [holds.2.1]
            rfl
          · rw [Bool.and_eq_true] at holds
            rw [← input_eq]
            exact holds.1.2

/-- Decryption of any other file fails. -/
theorem decryptFile_rejects (output : OutputFile)
    (forged : ∀ contents, ¬ IsEncryptedFile password files.contents contents) :
    (decryptFile buffer password files).Ends files.filename False output := by
  cases first : readFails (reads.headD []) (min asconcryptFullSize files.contents.length) with
  | true => exact decryptFile_of_not_goodHeader buffer password files opened created _ (Or.inl first)
  | false =>
      by_cases good : ∃ salt keyNonce, GoodHeader password files.contents salt keyNonce
      · obtain ⟨salt, keyNonce, good⟩ := good
        obtain ⟨header, nonce, key, body⟩ :=
          decryptFile_of_goodHeader buffer password files opened created good first
        rw [body]
        by_cases short : InputFile.readFails ⟨files.contents.drop asconcryptFullSize, reads.tail⟩ 16 = true ∨
            (files.contents.drop asconcryptFullSize).length < 16
        · exact decryptBody_of_short buffer header _ _ _ _ short
        · rw [not_or, Bool.not_eq_true, not_lt] at short
          refine (decryptBody_ends buffer password salt nonce key _ ⟨files.filename, [], writes, false⟩
            short.1 short.2).of_not (fun holds => ?_) output
          refine forged (decryptedPayload password salt keyNonce (files.contents.drop asconcryptFullSize))
            ⟨salt, keyNonce, good.salt_len, good.kn_len, ?_⟩
          rw [encryptedFile, ← good.bytes, ← holds.1.2, List.take_append_drop]
      · exact decryptFile_of_not_goodHeader buffer password files opened created _
          (Or.inr fun salt keyNonce holds => good ⟨salt, keyNonce, holds⟩)

end

end AsconSuite
