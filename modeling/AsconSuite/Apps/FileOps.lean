/-
Module: AsconSuite.Apps.FileOps
Layer: Model
Purpose: `apps/asconcrypt/fileops.c` with POSIX file descriptors. What the operating system answers to
  `read` and `write` is data: a list of answers for every call of `safe_file_read` and `safe_file_write`,
  behind which the system does what it was asked to do.
Imports: AsconSuite.Base.ByteMemory
Trusted boundary: a call that the system interrupts forever never returns and is not modelled; `close` and
  `unlink` succeed; bytes that `write` accepted are in the file
Main exports: ReadAnswer, WriteAnswer, InputFile, OutputFile, safeFileRead, safeFileWrite, safeFileDelete
-/
import AsconSuite.Base.ByteMemory

namespace AsconSuite

open ByteWord ByteMemory

/-! ### Reading -/

/-- What `read` does when it is called: it returns at most `most + 1` bytes, and none at the end of the file
only, it is interrupted (`EINTR` or `EAGAIN`), or it fails. -/
inductive ReadAnswer where
  | bytes (most : Nat)
  | interrupted
  | failed
deriving DecidableEq

/-- A `SAFEFILE` that is open for reading: the bytes not read yet, and the answers to the next calls. -/
structure InputFile where
  rest : List Byte
  answers : List (List ReadAnswer)

/-- What `safe_file_read` returns and changes. -/
structure FileRead where
  result : Int
  data : Mem
  file : InputFile

/-- The loop of `safe_file_read`. Behind the last answer `read` returns all that is left to return, and then
nothing. -/
def safeFileReadLoop (rest : List Byte) (data : Mem) (d len result : Nat) :
    List ReadAnswer → Int × Mem × List Byte
  | [] =>
      let temp := rest.take len
      (result + temp.length, data.write d temp, rest.drop len)
  | .failed :: _ => (-1, data, rest)
  | .interrupted :: answers => safeFileReadLoop rest data d len result answers
  | .bytes most :: answers =>
      let temp := rest.take (min len (most + 1))
      if temp.length = 0 then (result, data, rest)
      else
        safeFileReadLoop (rest.drop temp.length) (data.write d temp) (d + temp.length)
          (len - temp.length) (result + temp.length) answers

/-- `safe_file_read`. -/
def safeFileRead (file : InputFile) (data : Mem) (d len : Nat) : FileRead :=
  let (result, data, rest) :=
    safeFileReadLoop file.rest data d len 0 (file.answers.headD [])
  ⟨result, data, ⟨rest, file.answers.tail⟩⟩

/-- A call that does not fail takes what it returns from the file. -/
theorem safeFileReadLoop_length (rest : List Byte) (data : Mem) (d len result : Nat)
    (answers : List ReadAnswer) :
    0 ≤ (safeFileReadLoop rest data d len result answers).1 →
      (safeFileReadLoop rest data d len result answers).1 +
        (safeFileReadLoop rest data d len result answers).2.2.length = result + rest.length := by
  induction answers generalizing rest data d len result with
  | nil =>
      intro _
      simp only [safeFileReadLoop, List.length_take, List.length_drop]
      omega
  | cons answer answers ih =>
      cases answer with
      | failed => exact fun returned => absurd returned (by simp [safeFileReadLoop])
      | interrupted => exact ih rest data d len result
      | bytes most =>
          rw [safeFileReadLoop]
          split
          · exact fun _ => rfl
          · intro returned
            have rest_le : (rest.take (min len (most + 1))).length ≤ rest.length := by
              rw [List.length_take]
              omega
            rw [ih _ _ _ _ _ returned, List.length_drop]
            omega

theorem safeFileRead_length_lt {file : InputFile} {data : Mem} {d len : Nat}
    (some_data : 0 < (safeFileRead file data d len).result.toNat) :
    (safeFileRead file data d len).file.rest.length < file.rest.length := by
  have total := safeFileReadLoop_length file.rest data d len 0 (file.answers.headD [])
  rw [safeFileRead] at some_data ⊢
  generalize safeFileReadLoop file.rest data d len 0 (file.answers.headD []) = done at some_data total ⊢
  obtain ⟨result, data', rest⟩ := done
  simp only at some_data total ⊢
  omega

/-! ### Writing -/

/-- What `write` does when it is called: it takes at most `most` bytes, it is interrupted, or it fails. -/
inductive WriteAnswer where
  | bytes (most : Nat)
  | interrupted
  | failed
deriving DecidableEq

/-- A `SAFEFILE` that is open for writing: the bytes in the file, and the answers to the next calls. -/
structure OutputFile where
  filename : String
  written : List Byte
  answers : List (List WriteAnswer)
  deleted : Bool

/-- What `safe_file_write` returns and changes. -/
structure FileWrite where
  result : Int
  file : OutputFile

/-- The loop of `safe_file_write`: the result and the bytes in the file. -/
def safeFileWriteLoop (written data : List Byte) (result : Nat) : List WriteAnswer → Int × List Byte
  | [] => (result + data.length, written ++ data)
  | .failed :: _ => (-1, written)
  | .interrupted :: answers => safeFileWriteLoop written data result answers
  | .bytes most :: answers =>
      let temp := data.take most
      if temp.length = 0 then (result, written)
      else
        safeFileWriteLoop (written ++ temp) (data.drop temp.length) (result + temp.length) answers

/-- `safe_file_write`. -/
def safeFileWrite (file : OutputFile) (data : List Byte) : FileWrite :=
  let (result, written) := safeFileWriteLoop file.written data 0 (file.answers.headD [])
  ⟨result, { file with written := written, answers := file.answers.tail }⟩

/-- `safe_file_delete`. Standard output stays. -/
def safeFileDelete (file : OutputFile) : OutputFile :=
  if file.filename ≠ "-" then { file with deleted := true } else file

/-! ### Opening -/

/-- The input and the output file of a run, with the answers to its calls; `none` where `open` fails. -/
structure FileCalls where
  contents : List Byte
  reads : Option (List (List ReadAnswer))
  filename : String
  writes : Option (List (List WriteAnswer))

/-- `safe_file_open_read`. -/
def safeFileOpenRead (files : FileCalls) : Option InputFile :=
  files.reads.map fun answers => ⟨files.contents, answers⟩

/-- `safe_file_open_write`. The file is created, or cut to no bytes. -/
def safeFileOpenWrite (files : FileCalls) : Option OutputFile :=
  files.writes.map fun answers => ⟨files.filename, [], answers, false⟩

end AsconSuite
