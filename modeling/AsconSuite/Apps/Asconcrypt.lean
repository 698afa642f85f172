/-
Module: AsconSuite.Apps.Asconcrypt
Layer: Model
Purpose: `encrypt_file` and `decrypt_file` of `apps/asconcrypt/asconcrypt.c`. A structure of the file format is
  the memory of its fields, which are arrays of bytes with nothing between them.
Imports: AsconSuite.Aead.Incremental, AsconSuite.Aead.Siv, AsconSuite.Apps.FileOps,
  AsconSuite.Password.Pbkdf2
Trusted boundary: input and output are two files; messages to standard error and the cleaning of local
  variables are left out
Main exports: FileBuffer, RandomFields, FileRun, encryptFile, decryptFile
-/
import AsconSuite.Aead.Incremental
import AsconSuite.Aead.Siv
import AsconSuite.Apps.FileOps
import AsconSuite.Password.Pbkdf2

namespace AsconSuite

open ByteWord ByteMemory

/-- `ASCON_BUFSIZ`, which is `BUFSIZ` of the C library: at least 256. -/
structure FileBuffer where
  size : Nat
  large : 256 ≤ size

/-- `ASCON_MAX_FILE_SIZE`. -/
def asconMaxFileSize : Nat := 1024 * 1024 * 1024 * 1024

/-- `ASCON_PBKDF2_ROUNDS`. -/
def asconPbkdf2CryptRounds : Nat := 8192

/-- `ASCON80PQ_TAG_SIZE`. -/
def ascon80pqTagSize : Nat := 16

/-! ### The file format -/

/-- The characters of `"ASCONcrypt"`. -/
def asconcryptMagic : List Byte := [0x41, 0x53, 0x43, 0x4F, 0x4E, 0x63, 0x72, 0x79, 0x70, 0x74]

/-- `sizeof(struct asconcrypt_header)`: `magic` at 0, `version` at 10, `salt` at 12. -/
def asconcryptHeaderSize : Nat := 28

/-- `sizeof(struct asconcrypt_siv_block)`: `key` at 0, `nonce` at 20, `tag` at 36. -/
def asconcryptSivSize : Nat := 52

/-- `sizeof(struct asconcrypt_full_header)`: `header` at 0, `siv` at 28. -/
def asconcryptFullSize : Nat := 80

/-- What `ascon_random` returns for the salt, and for the key and the nonce of the payload. -/
structure RandomFields where
  salt : Mem
  keyNonce : Mem

/-- A local variable of type `ascon80pq_state_t` in front of its initialization. -/
def localAeadState : AeadState := ⟨asconInit, fun _ => 0, fun _ => 0, 0⟩

/-- The call of `ascon_pbkdf2` for the key and the nonce of the SIV block. -/
def sivBlockKey (password : List Byte) (salt : Mem) : Mem :=
  asconPbkdf2 (fun _ => 0) 0 36 (tablePtr password) password.length salt 16 asconPbkdf2CryptRounds

/-- What a run returns, and the output file when it was opened. -/
structure FileRun where
  exitVal : Nat
  output : Option OutputFile

/-- The end of both functions: a run that failed deletes its output. -/
def fileCleanup (exitVal : Nat) (output : OutputFile) : FileRun :=
  ⟨exitVal, some (if exitVal = 0 then safeFileDelete output else output)⟩

/-- The variables of the loops. -/
structure FileLoop where
  exitVal : Nat
  state : AeadState
  data : Mem
  size : Nat
  input : InputFile
  output : OutputFile

/-- The loop that `encrypt_file` and `decrypt_file` share: `len` bytes are read behind the first `ahead` bytes
of the buffer, `len` bytes at its start are processed and written, and `keep` prepares the buffer for the next
pass. -/
def fileLoop (size ahead : Nat) (block : AeadState → Mem → Nat → Nat → Nat → AeadState × Mem)
    (keep : Nat → Mem → Mem) (loop : FileLoop) : FileLoop :=
  let read := safeFileRead loop.input loop.data ahead size
  let len := read.result.toNat
  let loop := { loop with data := read.data, input := read.file }
  if read.result < 0 then { loop with exitVal := 0 }
  else if len = 0 then loop
  else
    let loop := { loop with size := loop.size + len }
    if asconMaxFileSize < loop.size then { loop with exitVal := 0 }
    else
      let done := block loop.state loop.data 0 0 len
      let write := safeFileWrite loop.output (done.2.read 0 len)
      let loop := { loop with state := done.1, data := keep len done.2, output := write.file }
      if write.result = 0 then { loop with exitVal := 0 }
      else if len < size then loop
      else fileLoop size ahead block keep loop
termination_by loop.input.rest.length
decreasing_by
  exact safeFileRead_length_lt (Nat.pos_of_ne_zero ‹_›)

/-! ### Encryption -/

/-- The loop of `encrypt_file`. -/
def encryptLoop (buffer : FileBuffer) : FileLoop → FileLoop :=
  fileLoop buffer.size 0 ascon80pqAeadEncryptBlock fun _ data => data

/-- The part of `encrypt_file` that writes the output, behind the encryption of the SIV block. -/
def encryptBody (buffer : FileBuffer) (header sivCopy siv : Mem) (input : InputFile)
    (output : OutputFile) : FileRun :=
  let write := safeFileWrite output (header.read 0 asconcryptHeaderSize)
  let (exitVal, output) :=
    if write.result = 0 then (0, write.file)
    else
      let write := safeFileWrite write.file (siv.read 0 asconcryptSivSize)
      (if write.result = 0 then 0 else 1, write.file)
  let state := ascon80pqAeadInit localAeadState (some (sivCopy.view 20)) (some sivCopy)
  let state := ascon80pqAeadStart state siv asconcryptSivSize
  let loop : FileLoop := ⟨exitVal, state, fun _ => 0, 0, input, output⟩
  let loop := if exitVal = 0 then loop else encryptLoop buffer loop
  let (_, data) := ascon80pqAeadEncryptFinalize loop.state loop.data 0
  if loop.exitVal = 0 then fileCleanup 0 loop.output
  else
    let write := safeFileWrite loop.output (data.read 0 ascon80pqTagSize)
    fileCleanup (if write.result = 0 then 0 else loop.exitVal) write.file

/-- `encrypt_file`. Random data that could not be had is `none`. -/
def encryptFile (buffer : FileBuffer) (password : List Byte) (files : FileCalls)
    (random : Option RandomFields) : FileRun :=
  match safeFileOpenRead files, safeFileOpenWrite files, random with
  | none, _, _ => ⟨0, none⟩
  | some _, none, _ => ⟨0, none⟩
  | some _, some output, none => fileCleanup 0 output
  | some input, some output, some random =>
      let header : Mem := fun _ => 0
      let header := header.write 0 asconcryptMagic
      let header := (header.store 10 0).store 11 1
      let header := header.write 12 (random.salt.read 0 16)
      let sivCopy : Mem := fun _ => 0
      let sivCopy := sivCopy.write 0 (random.keyNonce.read 0 36)
      let kn := sivBlockKey password (header.view 12)
      let (siv, _) := ascon80pqSivEncrypt sivCopy 0 0 36 header asconcryptHeaderSize (kn.view 20) kn
      encryptBody buffer header sivCopy siv input output

/-! ### Decryption -/

/-- The loop of `decrypt_file`. The first sixteen bytes of the buffer are those that may be the tag. -/
def decryptLoop (buffer : FileBuffer) : FileLoop → FileLoop :=
  fileLoop (buffer.size - 16) 16 ascon80pqAeadDecryptBlock fun len data => data.write 0 (data.read len 16)

/-- The part of `decrypt_file` behind the decryption of the SIV block. -/
def decryptBody (buffer : FileBuffer) (header sivCopy : Mem) (input : InputFile)
    (output : OutputFile) : FileRun :=
  let read := safeFileRead input (fun _ => 0) 0 16
  if read.result ≠ 16 then fileCleanup 0 output
  else
    let state := ascon80pqAeadInit localAeadState (some (header.view 48)) (some (header.view 28))
    let state := ascon80pqAeadStart state sivCopy asconcryptSivSize
    let loop := decryptLoop buffer ⟨1, state, read.data, 0, read.file, output⟩
    let (_, result) := ascon80pqAeadDecryptFinalize loop.state loop.data loop.data
    if result ≠ 0 ∧ loop.exitVal ≠ 0 then fileCleanup 0 loop.output
    else fileCleanup loop.exitVal loop.output

/-- `decrypt_file`. -/
def decryptFile (buffer : FileBuffer) (password : List Byte) (files : FileCalls) : FileRun :=
  match safeFileOpenRead files, safeFileOpenWrite files with
  | none, _ => ⟨0, none⟩
  | some _, none => ⟨0, none⟩
  | some input, some output =>
      let read := safeFileRead input (fun _ => 0) 0 asconcryptFullSize
      let header := read.data
      if read.result ≠ asconcryptFullSize then fileCleanup 0 output
      else if header.read 0 10 ≠ asconcryptMagic ∨ header 10 ≠ 0 ∨ header 11 ≠ 1 then
        fileCleanup 0 output
      else
        let kn := sivBlockKey password (header.view 12)
        let sivCopy := header.view 28
        let siv := ascon80pqSivDecrypt header 28 28 asconcryptSivSize header asconcryptHeaderSize
          (kn.view 20) kn
        if siv.result ≠ 0 then fileCleanup 0 output
        else decryptBody buffer siv.mem sivCopy read.file output

end AsconSuite
