/-
Module: AsconSuite.Apps.Asconsum
Layer: Model
Purpose: `hash_file` and `check_file` of `apps/asconsum/asconsum.c`. Characters are bytes; a line or a name is the list
  of its characters in front of the terminating zero. A file is what its reads deliver: its bytes up to the end or to
  a read error. Files do not change during a run, but standard input is read from where the last read left it.
Imports: AsconSuite.Apps.Asconcrypt, AsconSuite.Core.Hex, AsconSuite.Mac.Hmac, Mathlib.Data.List.DropRight
Trusted boundary: messages to standard error and the report that `check_file` prints for every source are left out; a
  read error in the sums file ends it
Main exports: Source, Sources, Algorithm, hashFile, fgetsLines, trimLine, parseLine, checkText,
  checkLine, checkFile
-/
import AsconSuite.Apps.Asconcrypt
import AsconSuite.Core.Hex
import AsconSuite.Mac.Hmac
import Mathlib.Data.List.DropRight

namespace AsconSuite

open ByteWord ByteMemory

/-- `ASCON_LINESIZ`. -/
def asconLineSize : Nat := 1024

/-- An open `FILE`: the bytes that are still read from it, and whether its end is a read error. -/
structure Source where
  bytes : List Byte
  failed : Bool
deriving DecidableEq

/-- What the program can open. `named` is what `fopen` returns for a name. -/
structure Sources where
  named : List Byte → Option Source
  standardInput : Source

/-- `"-"`. -/
def dashName : List Byte := [0x2D]

/-- `stdin` for the name `-`, and the result of `fopen` for all others. -/
def Sources.opened (sources : Sources) (name : List Byte) : Option Source :=
  if name = dashName then some sources.standardInput else sources.named name

/-- The sources after one of them was read to its end. A file that is opened again is read from its start, but nothing
is left on standard input, and its error indicator stays. -/
def Sources.consumed (sources : Sources) (name : List Byte) : Sources :=
  if name = dashName then { sources with standardInput := { sources.standardInput with bytes := [] } } else sources

/-! ### Hashing -/

/-- The selected algorithm. -/
inductive Algorithm where
  | hash
  | hasha
  | xof
  | xofa
deriving DecidableEq

/-- The functions that are called to initialize, to absorb and to get the output of 32 bytes. -/
def Algorithm.functions : Algorithm → HashFunctions
  | hash => XofVariant.xof.hash
  | hasha => XofVariant.xofa.hash
  | xof => { XofVariant.xof.hash with init := asconXofInit }
  | xofa => { XofVariant.xofa.hash with init := asconXofaInit }

section

variable (buffer : FileBuffer) (h : HashFunctions)

/-- The loop over the full buffers that `fread` returns, and the call for the rest. -/
def hashLoop (state : XofState) (temp : Mem) (rest : List Byte) : XofState :=
  let chunk := rest.take buffer.size
  let temp := temp.write 0 chunk
  if chunk.length = buffer.size then hashLoop (h.update state temp chunk.length) temp (rest.drop buffer.size)
  else if 0 < chunk.length then h.update state temp chunk.length
  else state
termination_by rest.length
decreasing_by
  have large := buffer.large
  rename_i full
  rw [List.length_take] at full
  rw [List.length_drop]
  omega

/-- The body that the functions for the four algorithms share: whether the file could be read, and the digest at the
start of `hash`. -/
def hashOpened (file : Source) (temp hash : Mem) : Bool × Mem :=
  let state := hashLoop buffer h h.init temp file.bytes
  (!file.failed, (h.finalize state hash 0).2)

end

/-- `ascon_hash_file`. -/
def asconHashFile (buffer : FileBuffer) := hashOpened buffer Algorithm.hash.functions

/-- `ascon_hasha_file`. -/
def asconHashaFile (buffer : FileBuffer) := hashOpened buffer Algorithm.hasha.functions

/-- `ascon_xof_file`. -/
def asconXofFile (buffer : FileBuffer) := hashOpened buffer Algorithm.xof.functions

/-- `ascon_xofa_file`. -/
def asconXofaFile (buffer : FileBuffer) := hashOpened buffer Algorithm.xofa.functions

/-- The choice between the four functions. -/
def hashWith (buffer : FileBuffer) (algorithm : Algorithm) (file : Source) (temp hash : Mem) : Bool × Mem :=
  if algorithm = .hasha then asconHashaFile buffer file temp hash
  else if algorithm = .xof then asconXofFile buffer file temp hash
  else if algorithm = .xofa then asconXofaFile buffer file temp hash
  else asconHashFile buffer file temp hash

/-- `hash_file`: the line that is printed, or none. -/
def hashFile (buffer : FileBuffer) (algorithm : Algorithm) (sources : Sources) (filename : List Byte) :
    Option (List Byte) :=
  match sources.opened filename with
  | none => none
  | some file =>
      let (ok, hash) := hashWith buffer algorithm file (fun _ => 0) (fun _ => 0)
      if ok then some ((hash.read 0 asconHashSize).flatMap (hexPair false) ++ [0x20, 0x20] ++ filename ++ [0x0A])
      else none

/-! ### Lines -/

/-- The line that `fgets` has so far, and what follows it. A line ends behind a line feed and where the buffer is full. -/
def fgetsFrom (line : List Byte) : List Byte → List (List Byte)
  | [] => if line = [] then [] else [line]
  | ch :: rest =>
      if ch = 0x0A ∨ line.length + 2 = asconLineSize then (line ++ [ch]) :: fgetsFrom [] rest
      else fgetsFrom (line ++ [ch]) rest

/-- What the calls of `fgets` read, one after the other. -/
def fgetsLines (bytes : List Byte) : List (List Byte) := fgetsFrom [] bytes

/-- The end of a line: line feed or carriage return. -/
def isLineEnd (ch : Byte) : Bool := ch == 0x0A || ch == 0x0D

/-- The line without the characters at its end. `strlen` does not look behind a zero. -/
def trimLine (line : List Byte) : List Byte := (line.takeWhile (· != 0)).rdropWhile isLineEnd

/-- `to_hex_digit`, none for -1. -/
def toHexDigit : Byte → Option Nat := hexValue

/-- The loop over the pairs of digits: the rest of the line, and the number of bytes stored. Behind the last character
of the line there is a zero, which is no digit. -/
def parseHash : List Byte → (hashlen : Nat) → (hash : Mem) → List Byte × Nat × Mem
  | ch1 :: ch2 :: rest, hashlen, hash =>
      if hashlen < asconHashSize then
        match toHexDigit ch1, toHexDigit ch2 with
        | some hex1, some hex2 =>
            parseHash rest (hashlen + 1) (hash.store hashlen (BitVec.ofNat 8 (hex1 * 16 + hex2)))
        | _, _ => (ch1 :: ch2 :: rest, hashlen, hash)
      else (ch1 :: ch2 :: rest, hashlen, hash)
  | line, hashlen, hash => (line, hashlen, hash)

/-- The part of `check_file` that parses a line: the hash as it is left behind, and the name if the line is well
formed. -/
def parseLine (line : List Byte) (hash : Mem) : Mem × Option (List Byte) :=
  let (line, hashlen, hash) := parseHash line 0 hash
  if line.headD 0 ≠ 0x20 ∨ hashlen ≠ asconHashSize then (hash, none)
  else
    let line := line.dropWhile (· == 0x20)
    if line = [] then (hash, none) else (hash, some line)

/-! ### Checking -/

/-- The variables of `check_file`. The counters are of type `int`. -/
structure CheckState where
  hash : Mem
  hash2 : Mem
  found : Bool
  formatErrors : BitVec 32
  mismatchErrors : BitVec 32
  readErrors : BitVec 32
  sources : Sources

/-- One turn of the loop for a line that is not empty. -/
def checkText (buffer : FileBuffer) (algorithm : Algorithm) (filename : List Byte) (check : CheckState)
    (line : List Byte) : CheckState :=
  let (hash, parsed) := parseLine line check.hash
  let check := { check with hash := hash }
  match parsed with
  | none => { check with formatErrors := check.formatErrors + 1 }
  | some checkFilename =>
      let check := { check with found := true }
      if checkFilename = dashName ∧ filename = dashName then
        { check with formatErrors := check.formatErrors + 1 }
      else
        let (fileOk, hash2) :=
          match check.sources.opened checkFilename with
          | none => (false, check.hash2)
          | some file2 => hashWith buffer algorithm file2 (fun _ => 0) check.hash2
        let check := { check with hash2 := hash2, sources := check.sources.consumed checkFilename }
        if fileOk && check.hash.read 0 asconHashSize == check.hash2.read 0 asconHashSize then check
        else if fileOk then { check with mismatchErrors := check.mismatchErrors + 1 }
        else { check with readErrors := check.readErrors + 1 }

/-- One turn of the loop over the lines. Empty lines are ignored. -/
def checkLine (buffer : FileBuffer) (algorithm : Algorithm) (filename : List Byte) (check : CheckState)
    (line : List Byte) : CheckState :=
  let line := trimLine line
  if line = [] then check else checkText buffer algorithm filename check line

/-- `check_file`. -/
def checkFile (buffer : FileBuffer) (algorithm : Algorithm) (sources : Sources) (filename : List Byte) : Bool :=
  match sources.opened filename with
  | none => false
  | some file =>
      let check : CheckState := ⟨fun _ => 0, fun _ => 0, false, 0, 0, 0, sources⟩
      let check := (fgetsLines file.bytes).foldl (checkLine buffer algorithm filename) check
      check.found && check.formatErrors == 0 && check.mismatchErrors == 0 && check.readErrors == 0

end AsconSuite
