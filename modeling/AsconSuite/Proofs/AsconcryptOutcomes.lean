/-
Module: AsconSuite.Proofs.AsconcryptOutcomes
Layer: Proofs
Purpose: What the runs of asconcrypt promise. Decryption undoes encryption and accepts nothing else. A run that
  reports success has written a complete output, unless `safe_file_write` was stopped in a block without
  returning zero, which its callers do not see.
Imports: AsconSuite.Proofs.AsconcryptFiles
Trusted boundary: none
Main exports: FileRun.Complete, encryptFile_complete_iff, decryptFile_complete_iff, asconcrypt_round_trip,
  asconcrypt_complete_iff
-/
import AsconSuite.Proofs.AsconcryptFiles

namespace AsconSuite

open ByteWord ByteMemory
open Transducer (pieces pieceSizes)

/-! ### Sizes of the blocks -/

/-- The sizes of the blocks that `encrypt_file` writes for contents of this length. -/
def encryptSizes (buffer : FileBuffer) (len : Nat) : List Nat :=
  [asconcryptHeaderSize, asconcryptSivSize] ++ (pieceSizes buffer.size len ++ [ascon80pqTagSize])

/-- The sizes of the blocks that `decrypt_file` writes for contents of this length. -/
def decryptSizes (buffer : FileBuffer) (len : Nat) : List Nat := pieceSizes (buffer.size - 16) len

theorem map_length_encryptBlocks (buffer : FileBuffer) (password : List Byte) {salt keyNonce : List Byte}
    (salt_len : salt.length = 16) (kn_len : keyNonce.length = 36) (contents : List Byte) :
    (encryptBlocks buffer password salt keyNonce contents).map List.length =
      encryptSizes buffer contents.length := by
  have body_len := (asconcryptPayloadCipher password salt keyNonce).length_body contents
  have tag_len := (asconcryptPayloadCipher password salt keyNonce).length_tag contents
  simp only [encryptBlocks, encryptSizes, List.map_append, List.map_cons, List.map_nil,
    Transducer.map_length_pieces, body_len, tag_len, length_asconcryptHeader salt_len,
    length_asconcryptSiv password salt kn_len]
  rfl

theorem nonempty_encryptBlocks (buffer : FileBuffer) (password : List Byte) {salt keyNonce : List Byte}
    (salt_len : salt.length = 16) (kn_len : keyNonce.length = 36) (contents : List Byte) :
    NonemptyBlocks (encryptBlocks buffer password salt keyNonce contents) := by
  have tag_len : ((asconcryptPayloadCipher password salt keyNonce).close contents).2.length = 16 :=
    (asconcryptPayloadCipher password salt keyNonce).length_tag contents
  intro block mem
  simp only [encryptBlocks, List.mem_append, List.mem_cons, List.not_mem_nil, or_false] at mem
  rcases mem with (rfl | rfl) | piece | rfl
  · rw [length_asconcryptHeader salt_len]
    decide
  · rw [length_asconcryptSiv password salt kn_len]
    decide
  · exact Transducer.length_pos_of_mem_pieces piece
  · omega

theorem nonempty_pieces (n : Nat) (contents : List Byte) : NonemptyBlocks (pieces n contents) :=
  fun _ mem => Transducer.length_pos_of_mem_pieces mem

/-- A file is ninety-six bytes longer than its contents. -/
theorem IsEncryptedFile.length_eq {password file contents : List Byte}
    (encrypted : IsEncryptedFile password file contents) : file.length = contents.length + 96 := by
  obtain ⟨salt, keyNonce, salt_len, kn_len, rfl⟩ := encrypted
  have tag_len : (asconcryptPayloadCipher password salt keyNonce).tagSize = 16 := rfl
  rw [encryptedFile, asconcryptPayload_eq_sealMessage, List.length_append, List.length_append,
    length_asconcryptHeader salt_len, length_asconcryptSiv password salt kn_len,
    SealedCipher.length_sealMessage, tag_len, asconcryptHeaderSize, asconcryptSivSize]
  omega

/-! ### Round trips -/

/-- The system opens both files of an encryption, fails no read and writes every byte it is given. -/
structure EncryptFaultless (buffer : FileBuffer) (files : FileCalls) (reads : List (List ReadAnswer))
    (writes : List (List WriteAnswer)) : Prop where
  opened : files.reads = some reads
  created : files.writes = some writes
  readable : readable buffer.size reads files.contents.length = true
  accepted : allAccepted writes (encryptSizes buffer files.contents.length) = true

/-- The same for the decryption of a file. -/
structure DecryptFaultless (buffer : FileBuffer) (files : FileCalls) (reads : List (List ReadAnswer))
    (writes : List (List WriteAnswer)) : Prop where
  opened : files.reads = some reads
  created : files.writes = some writes
  readable : decryptReadable buffer reads files.contents.length = true
  accepted : allAccepted writes (decryptSizes buffer (files.contents.length - 96)) = true

/-- A file with the right magic and version, whose SIV block decrypts under the key of the password, and whose
last sixteen bytes are the tag of what is between them and the SIV block. -/
structure AuthenticFile (password file salt keyNonce contents : List Byte) : Prop where
  magic : file.take 12 = asconcryptMagic ++ [0, 1]
  salt_eq : salt = (file.drop 12).take 16
  siv_result : ((asconcryptSivCalls password salt).decrypt (tablePtr file) 28 28 asconcryptSivSize).result = 0
  siv_message :
    ((asconcryptSivCalls password salt).decrypt (tablePtr file) 28 28 asconcryptSivSize).mem.read 28 36 = keyNonce
  siv_block : asconcryptSiv password salt keyNonce = (file.drop 28).take asconcryptSivSize
  payload_result : ((asconcryptPayloadCalls password salt keyNonce).decrypt (tablePtr file) 80 80
    (file.length - 80)).result = 0
  file_eq : file = encryptedFile password salt keyNonce contents

theorem IsEncryptedFile.authentic {password file contents : List Byte}
    (encrypted : IsEncryptedFile password file contents) :
    ∃ salt keyNonce, AuthenticFile password file salt keyNonce contents := by
  have file_len := encrypted.length_eq
  obtain ⟨salt, keyNonce, salt_len, kn_len, file_eq⟩ := encrypted
  have header_len : (asconcryptHeader salt).length = 28 := length_asconcryptHeader salt_len
  have siv_len : (asconcryptSiv password salt keyNonce).length = 52 :=
    length_asconcryptSiv password salt kn_len
  have siv_bytes : (file.drop 28).take 52 = asconcryptSiv password salt keyNonce := by
    rw [file_eq, encryptedFile, List.append_assoc, List.drop_left' header_len, List.take_left' siv_len]
  have payload_bytes : file.drop 80 = asconcryptPayload password salt keyNonce contents := by
    rw [file_eq, encryptedFile]
    exact List.drop_left' (by rw [List.length_append, header_len, siv_len])
  have siv := asconcryptSivCalls_implements password salt
  have payload := asconcryptPayloadCalls_implements password salt keyNonce
  have siv_sealed : (tablePtr file).read 28 asconcryptSivSize =
      (asconcryptSivCipher password salt).sealMessage keyNonce := by
    rw [asconcryptSivSize, read_tablePtr (by omega), siv_bytes, asconcryptSiv,
      siv.encryptedBytes_eq_sealMessage]
  have payload_sealed : (tablePtr file).read 80 (file.length - 80) =
      (asconcryptPayloadCipher password salt keyNonce).sealMessage contents := by
    rw [read_tablePtr (by omega), ← List.length_drop, List.take_length, payload_bytes,
      asconcryptPayload_eq_sealMessage]
  have siv_decrypted := siv.decrypt_of_sealMessage (tablePtr file) (Or.inl rfl) siv_sealed
  have payload_decrypted := payload.decrypt_of_sealMessage (tablePtr file) (Or.inl rfl) payload_sealed
  have magic_len : (asconcryptMagic ++ [0, 1]).length = 12 := rfl
  refine ⟨salt, keyNonce, ?_, ?_, ?_, ?_, siv_bytes.symm, ?_, file_eq⟩
  · rw [file_eq, encryptedFile, asconcryptHeader, List.append_assoc, List.append_assoc,
      List.take_left' magic_len]
  · rw [file_eq, encryptedFile, asconcryptHeader, List.append_assoc, List.append_assoc,
      List.drop_left' magic_len, List.take_left' salt_len]
  · rw [siv_decrypted]
  · rw [siv_decrypted, ← kn_len]
    exact read_write_same _ _ _
  · rw [payload_decrypted]

theorem encryptFile_faultless {buffer : FileBuffer} (password : List Byte) {files : FileCalls}
    {reads : List (List ReadAnswer)} {writes : List (List WriteAnswer)} (random : RandomFields)
    (faultless : EncryptFaultless buffer files reads writes)
    (fits : files.contents.length ≤ asconMaxFileSize) :
    (encryptFile buffer password files (some random)).exitVal = 1 ∧
      ∃ encrypted, (encryptFile buffer password files (some random)).output = some encrypted ∧
        encrypted.deleted = false ∧ IsEncryptedFile password encrypted.written files.contents := by
  have salt_len : (random.salt.read 0 16).length = 16 := length_read _ _ _
  have kn_len : (random.keyNonce.read 0 36).length = 36 := length_read _ _ _
  have ends := encryptFile_ends buffer password files random faultless.opened faultless.created
  have sizes := map_length_encryptBlocks buffer password salt_len kn_len files.contents
  have nonempty := nonempty_encryptBlocks buffer password salt_len kn_len files.contents
  have whole : allAccepted writes ((encryptBlocks buffer password (random.salt.read 0 16)
      (random.keyNonce.read 0 36) files.contents).map List.length) = true := by
    rw [sizes]
    exact faultless.accepted
  have passes := noneRefused_of_allAccepted nonempty whole
  have succeeds := ends.exitVal_iff.2
    ⟨faultless.readable, fits, (writeBlocks_fst _ nonempty).trans passes⟩
  refine ⟨succeeds, _, ends.success succeeds, (writeBlocks_keeps _ _).2, random.salt.read 0 16,
    random.keyNonce.read 0 36, salt_len, kn_len, ?_⟩
  rw [writeBlocks_written _ nonempty whole, flatten_encryptBlocks]
  rfl

/-- What the blocks of a decryption are cut from has the length that is left of the file. -/
theorem decryptSizes_eq (buffer : FileBuffer) {password file contents : List Byte}
    (encrypted : IsEncryptedFile password file contents) :
    (pieces (buffer.size - 16) contents).map List.length = decryptSizes buffer (file.length - 96) := by
  rw [encrypted.length_eq, Nat.add_sub_cancel, decryptSizes]
  exact Transducer.map_length_pieces _ _

/-- A decryption that succeeds has written the contents, when the system took every byte that it was given. -/
theorem decryptFile_of_accepted {buffer : FileBuffer} {password : List Byte} {files : FileCalls}
    {reads : List (List ReadAnswer)} {writes : List (List WriteAnswer)} {contents : List Byte}
    (opened : files.reads = some reads) (created : files.writes = some writes)
    (encrypted : IsEncryptedFile password files.contents contents)
    (accepted : allAccepted writes (decryptSizes buffer (files.contents.length - 96)) = true)
    (succeeds : (decryptFile buffer password files).exitVal = 1) :
    ∃ decrypted, (decryptFile buffer password files).output = some decrypted ∧
      decrypted.deleted = false ∧ decrypted.written = contents := by
  have large := buffer.large
  have ends := decryptFile_ends buffer password files opened created encrypted
  have nonempty := nonempty_pieces (buffer.size - 16) contents
  rw [← decryptSizes_eq buffer encrypted] at accepted
  refine ⟨_, ends.success succeeds, (writeBlocks_keeps _ _).2, ?_⟩
  rw [writeBlocks_written _ nonempty accepted, Transducer.flatten_pieces (by omega)]
  rfl

theorem decryptFile_faultless {buffer : FileBuffer} {password : List Byte} {files : FileCalls}
    {reads : List (List ReadAnswer)} {writes : List (List WriteAnswer)} {contents : List Byte}
    (encrypted : IsEncryptedFile password files.contents contents)
    (faultless : DecryptFaultless buffer files reads writes)
    (fits : contents.length ≤ asconMaxFileSize) :
    (decryptFile buffer password files).exitVal = 1 ∧
      ∃ decrypted, (decryptFile buffer password files).output = some decrypted ∧
        decrypted.deleted = false ∧ decrypted.written = contents := by
  have ends := decryptFile_ends buffer password files faultless.opened faultless.created encrypted
  have nonempty := nonempty_pieces (buffer.size - 16) contents
  have whole := faultless.accepted
  rw [← decryptSizes_eq buffer encrypted] at whole
  have passes := noneRefused_of_allAccepted nonempty whole
  have succeeds := ends.exitVal_iff.2
    ⟨faultless.readable, fits, (writeBlocks_fst _ nonempty).trans passes⟩
  exact ⟨succeeds, decryptFile_of_accepted faultless.opened faultless.created encrypted faultless.accepted succeeds⟩

/-- A run that could not open both of its files. -/
theorem encryptFile_of_unopened (buffer : FileBuffer) (password : List Byte) {files : FileCalls}
    (random : Option RandomFields) (unopened : files.reads = none ∨ files.writes = none) :
    encryptFile buffer password files random = ⟨0, none⟩ := by
  cases opened : files.reads with
  | none => simp only [encryptFile, safeFileOpenRead, opened, Option.map_none]
  | some reads =>
      have closed := unopened.resolve_left (by rw [opened]; exact Option.some_ne_none reads)
      simp only [encryptFile, safeFileOpenRead, safeFileOpenWrite, opened, closed, Option.map_none,
        Option.map_some]

theorem decryptFile_of_unopened (buffer : FileBuffer) (password : List Byte) {files : FileCalls}
    (unopened : files.reads = none ∨ files.writes = none) :
    decryptFile buffer password files = ⟨0, none⟩ := by
  cases opened : files.reads with
  | none => simp only [decryptFile, safeFileOpenRead, opened, Option.map_none]
  | some reads =>
      have closed := unopened.resolve_left (by rw [opened]; exact Option.some_ne_none reads)
      simp only [decryptFile, safeFileOpenRead, safeFileOpenWrite, opened, closed, Option.map_none,
        Option.map_some]

/-- The files are opened, or they are not. -/
theorem FileCalls.opened_cases (files : FileCalls) :
    (files.reads = none ∨ files.writes = none) ∨
      ∃ reads writes, files.reads = some reads ∧ files.writes = some writes := by
  cases opened : files.reads with
  | none => exact Or.inl (Or.inl rfl)
  | some reads =>
      cases created : files.writes with
      | none => exact Or.inl (Or.inr rfl)
      | some writes => exact Or.inr ⟨reads, writes, rfl, rfl⟩

/-- `decrypt_file` recovers the contents of a file that `encrypt_file` has written without an error, whatever
pieces the system reads and writes in. It reports success for nothing else, and has written what was encrypted when
the system took every byte. -/
theorem asconcrypt_round_trip (buffer : FileBuffer) (password : List Byte) :
    (∀ files random reads writes, EncryptFaultless buffer files reads writes →
      files.contents.length ≤ asconMaxFileSize →
      (encryptFile buffer password files (some random)).exitVal = 1 ∧
      ∃ encrypted, (encryptFile buffer password files (some random)).output = some encrypted ∧
        encrypted.deleted = false ∧
        ∀ buffer' files' reads' writes', files'.contents = encrypted.written →
          DecryptFaultless buffer' files' reads' writes' →
          (decryptFile buffer' password files').exitVal = 1 ∧
          ∃ decrypted, (decryptFile buffer' password files').output = some decrypted ∧
            decrypted.deleted = false ∧ decrypted.written = files.contents) ∧
    (∀ files, (decryptFile buffer password files).exitVal ≠ 0 →
      ∃ salt keyNonce contents, AuthenticFile password files.contents salt keyNonce contents ∧
        ∀ writes, files.writes = some writes →
          allAccepted writes (decryptSizes buffer (files.contents.length - 96)) = true →
            ∃ decrypted, (decryptFile buffer password files).output = some decrypted ∧
              decrypted.deleted = false ∧ decrypted.written = contents) := by
  constructor
  · intro files random reads writes faultless fits
    obtain ⟨succeeds, encrypted, output_eq, kept, file_eq⟩ :=
      encryptFile_faultless password random faultless fits
    refine ⟨succeeds, encrypted, output_eq, kept, ?_⟩
    intro buffer' files' reads' writes' same faultless'
    rw [← same] at file_eq
    exact decryptFile_faultless file_eq faultless' fits
  · intro files succeeds
    rcases files.opened_cases with unopened | ⟨reads, writes, opened, created⟩
    · rw [decryptFile_of_unopened buffer password unopened] at succeeds
      exact absurd rfl succeeds
    by_cases known : ∃ contents, IsEncryptedFile password files.contents contents
    · obtain ⟨contents, encrypted⟩ := known
      obtain ⟨salt, keyNonce, authentic⟩ := encrypted.authentic
      refine ⟨salt, keyNonce, contents, authentic, ?_⟩
      intro writes' created' accepted
      have ends := decryptFile_ends buffer password files opened created encrypted
      exact decryptFile_of_accepted opened created' encrypted accepted (ends.exitVal_cases.resolve_left succeeds)
    · have ends := decryptFile_rejects buffer password files opened created ⟨"", [], [], false⟩
        (fun contents encrypted => known ⟨contents, encrypted⟩)
      exact (ends.exitVal_iff.1 (ends.exitVal_cases.resolve_left succeeds)).elim

/-- A file of three bytes, read and written in pieces. -/
def threeBytes : FileCalls :=
  ⟨[1, 2, 3], some [[.bytes 0, .interrupted]], "encrypted", some [[.bytes 5, .interrupted]]⟩

theorem encryptFaultless_threeBytes : EncryptFaultless ⟨256, Nat.le_refl 256⟩ threeBytes
    [[.bytes 0, .interrupted]] [[.bytes 5, .interrupted]] where
  opened := rfl
  created := rfl
  readable := readable_of_lt (by decide) rfl
  accepted := by
    have sizes : encryptSizes ⟨256, Nat.le_refl 256⟩ threeBytes.contents.length = [28, 52, 3, 16] := by
      change encryptSizes ⟨256, Nat.le_refl 256⟩ 3 = _
      rw [encryptSizes, pieceSizes, if_pos (by decide), pieceSizes, if_neg (by decide)]
      rfl
    rw [sizes]
    rfl

/-- Decryption with a larger buffer. -/
theorem decryptFaultless_threeBytes {file : List Byte} (length : file.length = 99) :
    DecryptFaultless ⟨300, by decide⟩ ⟨file, some [[.bytes 10]], "decrypted", some [[.bytes 1]]⟩
      [[.bytes 10]] [[.bytes 1]] where
  opened := rfl
  created := rfl
  readable := by
    have rest : readable 284 [] 3 = true := readable_of_lt (by decide) rfl
    change decryptReadable _ _ file.length = true
    rw [length, decryptReadable]
    exact congrArg (_ && ·) rest
  accepted := by
    have sizes : decryptSizes ⟨300, by decide⟩ 3 = [3] := by
      rw [decryptSizes, pieceSizes, if_pos (by decide), pieceSizes, if_neg (by decide)]
      rfl
    change allAccepted _ (decryptSizes _ (file.length - 96)) = true
    rw [length, sizes]
    rfl

theorem asconcrypt_round_trip_threeBytes :
    ∃ encrypted, (encryptFile ⟨256, Nat.le_refl 256⟩ [0x70] threeBytes (some ⟨fun _ => 0, fun _ => 1⟩)).output =
        some encrypted ∧
      ∃ decrypted, (decryptFile ⟨300, by decide⟩ [0x70]
          ⟨encrypted.written, some [[.bytes 10]], "decrypted", some [[.bytes 1]]⟩).output = some decrypted ∧
        decrypted.written = [1, 2, 3] ∧ ∃ salt keyNonce, AuthenticFile [0x70] encrypted.written salt keyNonce [1, 2, 3] := by
  obtain ⟨-, encrypted, output_eq, -, back⟩ := (asconcrypt_round_trip ⟨256, Nat.le_refl 256⟩ [0x70]).1 threeBytes
    ⟨fun _ => 0, fun _ => 1⟩ _ _ encryptFaultless_threeBytes (by decide)
  obtain ⟨-, encrypted', output_eq', -, isEncrypted⟩ := encryptFile_faultless [0x70] ⟨fun _ => 0, fun _ => 1⟩
    encryptFaultless_threeBytes (by decide)
  obtain rfl : encrypted = encrypted' := Option.some.inj (output_eq.symm.trans output_eq')
  obtain ⟨succeeds, decrypted, opened, -, written⟩ := back ⟨300, by decide⟩
    ⟨encrypted.written, some [[.bytes 10]], "decrypted", some [[.bytes 1]]⟩ _ _ rfl
    (decryptFaultless_threeBytes isEncrypted.length_eq)
  obtain ⟨salt, keyNonce, contents, authentic, recovered⟩ := (asconcrypt_round_trip ⟨300, by decide⟩ [0x70]).2
    ⟨encrypted.written, some [[.bytes 10]], "decrypted", some [[.bytes 1]]⟩ (by rw [succeeds]; decide)
  obtain ⟨decrypted', opened', -, written'⟩ := recovered _ rfl (decryptFaultless_threeBytes isEncrypted.length_eq).accepted
  obtain rfl : decrypted = decrypted' := Option.some.inj (opened.symm.trans opened')
  have same : contents = [1, 2, 3] := written'.symm.trans written
  exact ⟨encrypted, output_eq, decrypted, opened, written, salt, keyNonce, same ▸ authentic⟩

/-! ### Complete outputs -/

/-- A run that succeeds has read all of its input, and its output is as it was meant to be. A run that fails
leaves no file. -/
structure FileRun.Complete (run : FileRun) (readThrough : Prop) (meant : List Byte → Prop) : Prop where
  success : run.exitVal ≠ 0 → readThrough ∧
    ∃ out, run.output = some out ∧ out.deleted = false ∧ meant out.written
  failure : run.exitVal = 0 → ∀ out, run.output = some out → out.filename ≠ "-" → out.deleted = true

/-- A run that fails, whatever it was meant to write. -/
theorem FileRun.Ends.complete {run : FileRun} {filename : String} {output : OutputFile}
    (ends : run.Ends filename False output) (readThrough : Prop) (meant : List Byte → Prop) :
    run.Complete readThrough meant where
  success := fun nonzero => (ends.exitVal_iff.1 (ends.exitVal_cases.resolve_left nonzero)).elim
  failure := by
    intro zero out output_eq named
    obtain ⟨filename_eq, gone⟩ := ends.failure zero out output_eq
    exact gone (filename_eq ▸ named)

/-- A run that writes blocks is complete unless one of them is cut and none is refused. -/
theorem FileRun.Ends.complete_iff {run : FileRun} {filename : String} {writes : List (List WriteAnswer)}
    {blocks : List (List Byte)} {through readThrough : Prop} {meant : List Byte → Prop}
    (nonempty : NonemptyBlocks blocks)
    (ends : run.Ends filename (through ∧ (writeBlocks ⟨filename, [], writes, false⟩ blocks).1 = true)
      (writeBlocks ⟨filename, [], writes, false⟩ blocks).2)
    (reads : through → readThrough) (whole : meant blocks.flatten)
    (len : ∀ written, meant written → written.length = blocks.flatten.length) :
    run.Complete readThrough meant ↔
      (through → noneRefused writes (blocks.map List.length) = true →
        allAccepted writes (blocks.map List.length) = true) := by
  rw [writeBlocks_fst _ nonempty] at ends
  constructor
  · intro complete holds passes
    have one := ends.exitVal_iff.2 ⟨holds, passes⟩
    obtain ⟨-, out, output_eq, -, written⟩ := complete.success (by omega)
    rw [ends.success one, Option.some_inj] at output_eq
    have length_eq := len out.written written
    rw [← output_eq] at length_eq
    cases accepts : allAccepted writes (blocks.map List.length) with
    | true => rfl
    | false =>
        have shorter := writeBlocks_length_lt ⟨filename, [], writes, false⟩ nonempty accepts passes
        rw [length_eq, List.length_nil] at shorter
        omega
  · intro condition
    constructor
    · intro nonzero
      have one := ends.exitVal_cases.resolve_left nonzero
      obtain ⟨holds, passes⟩ := ends.exitVal_iff.1 one
      refine ⟨reads holds, _, ends.success one, (writeBlocks_keeps _ _).2, ?_⟩
      rw [writeBlocks_written _ nonempty (condition holds passes), List.nil_append]
      exact whole
    · intro zero out output_eq named
      obtain ⟨filename_eq, gone⟩ := ends.failure zero out output_eq
      exact gone (filename_eq ▸ named)

/-- An encryption reads the whole input and writes the header, the SIV block and the payload. -/
def EncryptComplete (buffer : FileBuffer) (password : List Byte) (files : FileCalls)
    (random : Option RandomFields) : Prop :=
  (encryptFile buffer password files random).Complete
    (∀ reads, files.reads = some reads → readable buffer.size reads files.contents.length = true)
    fun written => ∃ fields, random = some fields ∧ written =
      encryptedFile password (fields.salt.read 0 16) (fields.keyNonce.read 0 36) files.contents

/-- A decryption reads the whole input, which is the encryption of what it writes. -/
def DecryptComplete (buffer : FileBuffer) (password : List Byte) (files : FileCalls) : Prop :=
  (decryptFile buffer password files).Complete
    (∀ reads, files.reads = some reads → decryptReadable buffer reads files.contents.length = true)
    fun written => IsEncryptedFile password files.contents written

/-- In an encryption that nothing else stops, a block that the system does not refuse to begin is written to its
end. -/
def EncryptWritesWhole (buffer : FileBuffer) (files : FileCalls) (random : Option RandomFields) : Prop :=
  ∀ reads writes, files.reads = some reads → files.writes = some writes → random ≠ none →
    readable buffer.size reads files.contents.length = true → files.contents.length ≤ asconMaxFileSize →
    noneRefused writes (encryptSizes buffer files.contents.length) = true →
    allAccepted writes (encryptSizes buffer files.contents.length) = true

/-- The same for a decryption. -/
def DecryptWritesWhole (buffer : FileBuffer) (password : List Byte) (files : FileCalls) : Prop :=
  ∀ reads writes contents, files.reads = some reads → files.writes = some writes →
    IsEncryptedFile password files.contents contents →
    decryptReadable buffer reads files.contents.length = true → contents.length ≤ asconMaxFileSize →
    noneRefused writes (decryptSizes buffer contents.length) = true →
    allAccepted writes (decryptSizes buffer contents.length) = true

/-- A run without one of its files reports failure and leaves nothing. -/
theorem FileRun.complete_of_unopened (readThrough : Prop) (meant : List Byte → Prop) :
    (⟨0, none⟩ : FileRun).Complete readThrough meant where
  success := fun nonzero => absurd rfl nonzero
  failure := fun _ _ output_eq => nomatch output_eq

/-- Where a file was not opened there are no answers to meet a condition. -/
theorem FileCalls.not_opened {files : FileCalls} (unopened : files.reads = none ∨ files.writes = none)
    {reads : List (List ReadAnswer)} {writes : List (List WriteAnswer)} (opened : files.reads = some reads)
    (created : files.writes = some writes) : False := by
  rcases unopened with no_reads | no_writes
  · rw [no_reads] at opened
    cases opened
  · rw [no_writes] at created
    cases created

theorem encryptFile_complete_iff (buffer : FileBuffer) (password : List Byte) (files : FileCalls)
    (random : Option RandomFields) :
    EncryptComplete buffer password files random ↔ EncryptWritesWhole buffer files random := by
  rcases files.opened_cases with unopened | ⟨reads, writes, opened, created⟩
  · rw [EncryptComplete, encryptFile_of_unopened buffer password random unopened]
    exact ⟨fun _ _ _ opened created => (FileCalls.not_opened unopened opened created).elim,
      fun _ => FileRun.complete_of_unopened _ _⟩
  cases random with
  | none =>
      have run_eq : encryptFile buffer password files none =
          fileCleanup 0 ⟨files.filename, [], writes, false⟩ := by
        simp only [encryptFile, safeFileOpenRead, safeFileOpenWrite, opened, created, Option.map_some]
      have ends : (fileCleanup 0 ⟨files.filename, [], writes, false⟩).Ends files.filename False
          ⟨files.filename, [], writes, false⟩ := .of_cleanup id _ rfl
      rw [EncryptComplete, run_eq]
      exact ⟨fun _ _ _ _ _ some_random => absurd rfl some_random, fun _ => ends.complete _ _⟩
  | some fields =>
      have salt_len : (fields.salt.read 0 16).length = 16 := length_read _ _ _
      have kn_len : (fields.keyNonce.read 0 36).length = 36 := length_read _ _ _
      have ends := (encryptFile_ends buffer password files fields opened created).congr and_assoc.symm
      have sizes := map_length_encryptBlocks buffer password salt_len kn_len files.contents
      have flat := flatten_encryptBlocks buffer password (fields.salt.read 0 16)
        (fields.keyNonce.read 0 36) files.contents
      have nonempty := nonempty_encryptBlocks buffer password salt_len kn_len files.contents
      refine (ends.complete_iff nonempty ?_ ⟨fields, rfl, flat⟩ ?_).trans ?_
      · intro holds reads' opened'
        cases opened.symm.trans opened'
        exact holds.1
      · rintro written ⟨random, same, rfl⟩
        cases same
        rw [flat]
      · rw [sizes]
        constructor
        · intro whole reads' writes' opened' created' _ read fits passes
          cases opened.symm.trans opened'
          cases created.symm.trans created'
          exact whole ⟨read, fits⟩ passes
        · intro whole holds
          exact whole reads writes opened created (Option.some_ne_none fields) holds.1 holds.2

theorem decryptFile_complete_iff (buffer : FileBuffer) (password : List Byte) (files : FileCalls) :
    DecryptComplete buffer password files ↔ DecryptWritesWhole buffer password files := by
  have large := buffer.large
  rcases files.opened_cases with unopened | ⟨reads, writes, opened, created⟩
  · rw [DecryptComplete, decryptFile_of_unopened buffer password unopened]
    exact ⟨fun _ _ _ _ opened created => (FileCalls.not_opened unopened opened created).elim,
      fun _ => FileRun.complete_of_unopened _ _⟩
  by_cases known : ∃ contents, IsEncryptedFile password files.contents contents
  · obtain ⟨contents, encrypted⟩ := known
    have ends := (decryptFile_ends buffer password files opened created encrypted).congr and_assoc.symm
    have flat := Transducer.flatten_pieces (n := buffer.size - 16) (by omega) contents
    have nonempty := nonempty_pieces (buffer.size - 16) contents
    have length_eq (contents' : List Byte) (encrypted' : IsEncryptedFile password files.contents contents') :
        contents'.length = contents.length :=
      Nat.add_right_cancel (encrypted'.length_eq.symm.trans encrypted.length_eq)
    refine (ends.complete_iff nonempty ?_ (by rw [flat]; exact encrypted) ?_).trans ?_
    · intro holds reads' opened'
      cases opened.symm.trans opened'
      exact holds.1
    · rw [flat]
      exact length_eq
    · rw [Transducer.map_length_pieces]
      constructor
      · intro whole reads' writes' contents' opened' created' encrypted' read fits passes
        cases opened.symm.trans opened'
        cases created.symm.trans created'
        rw [length_eq contents' encrypted'] at fits passes ⊢
        exact whole ⟨read, fits⟩ passes
      · intro whole holds
        exact whole reads writes contents opened created encrypted holds.1 holds.2
  · have ends := decryptFile_rejects buffer password files opened created
      ⟨files.filename, [], writes, false⟩ (fun contents encrypted => known ⟨contents, encrypted⟩)
    exact ⟨fun _ _ _ contents _ _ encrypted => (known ⟨contents, encrypted⟩).elim,
      fun _ => ends.complete _ _⟩

/-- Both functions keep their promise exactly when no block is cut behind its first byte, or by an error: in
these cases `safe_file_write` does not return zero. -/
theorem asconcrypt_complete_iff (buffer : FileBuffer) (password : List Byte) (files : FileCalls)
    (random : Option RandomFields) :
    (EncryptComplete buffer password files random ↔ EncryptWritesWhole buffer files random) ∧
      (DecryptComplete buffer password files ↔ DecryptWritesWhole buffer password files) :=
  ⟨encryptFile_complete_iff buffer password files random, decryptFile_complete_iff buffer password files⟩

/-- A full disk: every write of the header, the SIV block and the tag fails, and the run reports success. -/
theorem asconcrypt_complete_fails :
    ¬ EncryptComplete ⟨256, Nat.le_refl 256⟩ [] ⟨[], some [], "out", some [[.failed], [.failed], [.failed]]⟩
      (some ⟨fun _ => 0, fun _ => 0⟩) := by
  rw [encryptFile_complete_iff]
  intro whole
  have sizes : encryptSizes ⟨256, Nat.le_refl 256⟩ 0 = [28, 52, 16] := by
    rw [encryptSizes, ← List.length_nil (α := Byte), ← Transducer.map_length_pieces, Transducer.pieces_nil]
    rfl
  have read : readable 256 [] 0 = true := readable_of_lt (by decide) rfl
  have accepts := whole [] [[.failed], [.failed], [.failed]] rfl rfl (Option.some_ne_none _) read
    (Nat.zero_le _)
  simp only [List.length_nil, sizes] at accepts
  exact absurd (accepts (by decide)) (by decide)

end AsconSuite
