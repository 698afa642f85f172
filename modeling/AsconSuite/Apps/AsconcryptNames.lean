/-
Module: AsconSuite.Apps.AsconcryptNames
Layer: Model
Purpose: The file names of `apps/asconcrypt/asconcrypt.c`: the test for encrypted files, the names of output files and
  the detection of the direction in `main`.
Imports: AsconSuite.Apps.Asconcrypt
Trusted boundary: none
Main exports: FileName, NameAccess, isEncryptedFilename, stripSuffix, addSuffix, outputName,
  detectMode
-/
import AsconSuite.Apps.Asconcrypt

namespace AsconSuite

open ByteWord ByteMemory

/-! ### Names and accesses -/

/-- A file name as an argument of the program: `length` is what `strlen` returns. -/
structure FileName where
  text : Mem
  length : Nat
  ends : text length = 0
  inside : ∀ i < length, text i ≠ 0
  isSize : length < 2 ^ 64

/-- The characters of a name. -/
def FileName.chars (name : FileName) : List Byte := name.text.read 0 name.length

/-- The buffer for a derived name, `temp_filename`. Its size is an `int`. -/
structure NameBuffer extends FileBuffer where
  isInt : size < 2 ^ 31

/-- What the helpers read of the name and write to the buffer, from an index on. -/
inductive NameAccess where
  | readName (start count : Nat)
  | writeTemp (start count : Nat)

/-- The indices of an access are those of the name, its terminating zero included, or of the buffer. -/
def NameAccess.InBounds (name : FileName) (size : Nat) : NameAccess → Prop
  | .readName start count => start + count ≤ name.length + 1
  | .writeTemp start count => start + count ≤ size

/-- The characters of `".ascon"`. -/
def asconSuffix : List Byte := [0x2E, 0x61, 0x73, 0x63, 0x6F, 0x6E]

/-- The characters of `".decrypted"`. -/
def decryptedSuffix : List Byte := [0x2E, 0x64, 0x65, 0x63, 0x72, 0x79, 0x70, 0x74, 0x65, 0x64]

/-! ### Helpers -/

/-- `is_encrypted_filename`. -/
def isEncryptedFilename (name : FileName) : Bool × List NameAccess :=
  let len := name.length
  if 6 ≤ len then
    (name.text.read (len - 6) 6 == asconSuffix, [.readName 0 (len + 1), .readName (len - 6) 6])
  else (true, [.readName 0 (len + 1)])

/-- `strip_suffix`, in the arithmetic of `size_t`. The first result is the contents of the buffer. -/
def stripSuffix (size : Nat) (temp : Mem) (name : FileName) : Mem × List NameAccess :=
  let len := (name.length + 2 ^ 64 - 6) % 2 ^ 64
  let len := if size ≤ len then size else len
  ((temp.write 0 (name.text.read 0 len)).store len 0,
    [.readName 0 (name.length + 1), .readName 0 len, .writeTemp 0 len, .writeTemp len 1])

/-- `add_suffix`, with what `snprintf` makes of a text that is too long. -/
def addSuffix (size : Nat) (temp : Mem) (name : FileName) (suffix : List Byte) : Mem × List NameAccess :=
  let text := (name.chars ++ suffix).take (size - 1)
  ((temp.write 0 text).store text.length 0,
    [.readName 0 (name.length + 1), .writeTemp 0 (text.length + 1)])

/-- `strcmp(name, "-") == 0`. -/
def FileName.isStandardInput (name : FileName) : Bool := name.chars == [0x2D]

/-- The output name that `main` uses for a file when no name is given: standard output, or what is in the buffer. -/
def outputName (size : Nat) (temp : Mem) (decrypt : Bool) (name : FileName) : Option Mem × List NameAccess :=
  let compared : List NameAccess := [.readName 0 (min (name.length + 1) 2)]
  if name.isStandardInput then (none, compared)
  else if decrypt then
    let (encrypted, accesses) := isEncryptedFilename name
    if encrypted then
      let (temp, more) := stripSuffix size temp name
      (some temp, compared ++ accesses ++ more)
    else
      let (temp, more) := addSuffix size temp name decryptedSuffix
      (some temp, compared ++ accesses ++ more)
  else
    let (temp, more) := addSuffix size temp name asconSuffix
    (some temp, compared ++ more)

/-! ### Direction -/

/-- `opt_mode`. -/
inductive CryptMode where
  | decrypt
  | encrypt
  | detect
  deriving DecidableEq

/-- One turn of the loop over the names in `MODE_DETECT`: the mode, and the flag for a mixture. -/
def detectStep (mode : CryptMode × Bool) (name : FileName) : CryptMode × Bool :=
  if (isEncryptedFilename name).1 then
    if mode.1 = .encrypt then (mode.1, true) else (.decrypt, mode.2)
  else
    if mode.1 = .decrypt then (mode.1, true) else (.encrypt, mode.2)

/-- The direction that `main` finds for its file names, or none when it refuses a mixture of them. -/
def detectMode (names : List FileName) : Option CryptMode :=
  let (mode, mixture) := names.foldl detectStep (.detect, false)
  if mixture then none else some mode

end AsconSuite
