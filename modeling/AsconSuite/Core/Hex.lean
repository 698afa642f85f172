/-
Module: AsconSuite.Core.Hex
Layer: Model
Purpose: The conversions between bytes and hexadecimal strings, `core/ascon-hex.c`, and the function of
  `ascon/utility.h` that gives the decoded bytes as an array.
Imports: AsconSuite.Core.Util
Trusted boundary: none
Main exports: asconBytesToHex, hexValue, isHexSpace, asconBytesFromHex, bytesFromHex
-/
import AsconSuite.Core.Util

namespace AsconSuite

open ByteWord ByteMemory

/-- `hex_chars`: `hex_upper` or `hex_lower` at a digit. -/
def hexChar (upperCase : Bool) (digit : Nat) : Byte :=
  if digit < 10 then BitVec.ofNat 8 (0x30 + digit)
  else BitVec.ofNat 8 ((if upperCase then 0x41 else 0x61) + (digit - 10))

/-- The two characters of a byte. -/
def hexPair (upperCase : Bool) (ch : Byte) : List Byte :=
  [hexChar upperCase (ch.toNat / 16), hexChar upperCase (ch.toNat % 16)]

/-- `ascon_bytes_to_hex`. -/
def asconBytesToHex (mem : Mem) (out outlen : Nat) (input : List Byte) (upperCase : Bool) : Mem × Int :=
  if outlen < input.length * 2 + 1 then
    (if 0 < outlen then mem.store out 0 else mem, -1)
  else
    let chars := input.flatMap (hexPair upperCase)
    ((mem.write out chars).store (out + chars.length) 0, toInt chars.length)

/-- The value of a character that is a digit. -/
def hexValue (ch : Byte) : Option Nat :=
  if 0x30 ≤ ch.toNat ∧ ch.toNat ≤ 0x39 then some (ch.toNat - 0x30)
  else if 0x61 ≤ ch.toNat ∧ ch.toNat ≤ 0x66 then some (ch.toNat - 0x61 + 10)
  else if 0x41 ≤ ch.toNat ∧ ch.toNat ≤ 0x46 then some (ch.toNat - 0x41 + 10)
  else none

/-- The characters that are skipped: space, tab, carriage return, line feed, form feed and vertical tab. -/
def isHexSpace (ch : Byte) : Bool :=
  ch == 0x20#8 || ch == 0x09#8 || ch == 0x0D#8 || ch == 0x0A#8 || ch == 0x0C#8 || ch == 0x0B#8

/-- The loop of `ascon_bytes_from_hex`. `value` is the first digit of a byte, moved to its place, when `nibble` is set.
The result is the final value of `posn`, or none for -1. -/
def fromHexLoop (out outlen : Nat) : (input : List Byte) → (posn value : Nat) → (nibble : Bool) → Mem → Mem × Option Nat
  | [], posn, _, nibble, mem => if nibble then (mem, none) else (mem, some posn)
  | ch :: rest, posn, value, nibble, mem =>
      match hexValue ch with
      | some digit =>
          if nibble then
            if outlen ≤ posn then (mem, none)
            else
              fromHexLoop out outlen rest (posn + 1) value false
                (mem.store (out + posn) (BitVec.ofNat 8 (value ||| digit)))
          else fromHexLoop out outlen rest posn (digit <<< 4) true mem
      | none => if isHexSpace ch then fromHexLoop out outlen rest posn value nibble mem else (mem, none)

/-- `ascon_bytes_from_hex`. -/
def asconBytesFromHex (mem : Mem) (out outlen : Nat) (input : List Byte) : Mem × Int :=
  match fromHexLoop out outlen input 0 0 false mem with
  | (mem, some posn) => (mem, toInt posn)
  | (mem, none) => (mem, -1)

/-- `ascon::bytes_from_hex`, the same text in the builds with and without the standard library. The array is made with
half as many bytes as the string has characters, all zero. -/
def bytesFromHex (str : List Byte) : List Byte :=
  let vec := Mem.write (fun _ => 0) 0 (List.replicate (str.length / 2) 0)
  let (vec, result) := asconBytesFromHex vec 0 (str.length / 2) str
  if result ≠ -1 then vec.read 0 (str.length / 2) else []

end AsconSuite
