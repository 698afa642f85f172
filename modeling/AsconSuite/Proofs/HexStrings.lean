/-
Module: AsconSuite.Proofs.HexStrings
Layer: Proofs
Purpose: The grammar of hexadecimal strings, what `ascon_bytes_from_hex` accepts of it, and the arrays that the C++
  function makes of accepted strings.
Imports: AsconSuite.Core.Hex
Trusted boundary: none
Main exports: HexString, spelled, fromHexLoop_of_good, fromHexLoop_none, fromHexLoop_frame, hex_decoding_iff,
  cpp_hex_decoding_iff
-/
import AsconSuite.Core.Hex

namespace AsconSuite

open ByteWord ByteMemory

/-! ### The grammar -/

/-- The values of the digits of a string, in order. -/
def hexDigits (input : List Byte) : List Nat := input.filterMap hexValue

/-- The bytes that digits spell, two digits a byte. -/
def spelledBy : List Nat → List Byte
  | high :: low :: rest => BitVec.ofNat 8 (16 * high + low) :: spelledBy rest
  | _ => []

/-- The bytes that the digits of a string spell. -/
def spelled (input : List Byte) : List Byte := spelledBy (hexDigits input)

/-- Digits and white space only, with two digits for each of `count` bytes. -/
structure HexString (input : List Byte) (count : Nat) : Prop where
  chars : ∀ ch ∈ input, (hexValue ch).isSome = true ∨ isHexSpace ch = true
  digits : (hexDigits input).length = 2 * count

theorem HexString.count_unique {input : List Byte} {m n : Nat} (first : HexString input m) (second : HexString input n) :
    m = n := by
  have same := first.digits.symm.trans second.digits
  omega

theorem hexDigits_cons_digit {ch : Byte} {digit : Nat} (value : hexValue ch = some digit) (rest : List Byte) :
    hexDigits (ch :: rest) = digit :: hexDigits rest := List.filterMap_cons_some value

theorem hexDigits_cons_other {ch : Byte} (other : hexValue ch = none) (rest : List Byte) :
    hexDigits (ch :: rest) = hexDigits rest := List.filterMap_cons_none other

theorem hexValue_lt {ch : Byte} {digit : Nat} (value : hexValue ch = some digit) : digit < 16 := by
  rw [hexValue] at value
  split at value
  · cases value
    omega
  · split at value
    · cases value
      omega
    · split at value
      · cases value
        omega
      · exact nomatch value

theorem length_spelledBy (digits : List Nat) : (spelledBy digits).length = digits.length / 2 := by
  induction digits using spelledBy.induct with
  | case1 high low rest ih =>
      rw [spelledBy, List.length_cons, List.length_cons, List.length_cons, ih]
      omega
  | case2 digits short =>
      rcases digits with _ | ⟨a, _ | ⟨b, rest⟩⟩
      · rfl
      · exact (Nat.div_eq_of_lt (Nat.lt_succ_self 1)).symm
      · exact absurd rfl (short a b rest)

/-- A digit moved to the front of a byte and a second one beside it. -/
theorem nibbles_or {high low : Nat} (lt : low < 16) : high <<< 4 ||| low = 16 * high + low := by
  rw [Nat.shiftLeft_eq, Nat.mul_comm, ← Nat.two_pow_add_eq_or_of_lt lt]

/-! ### The loop -/

/-- The digit that waits for its second half. -/
def waiting (nibble : Bool) (value : Nat) : List Nat := if nibble then [value >>> 4] else []

/-- What the loop still accepts: the digits that come complete the byte that waits, and the bytes fit. -/
structure Acceptable (input : List Byte) (value : Nat) (nibble : Bool) (room : Nat) : Prop where
  chars : ∀ ch ∈ input, (hexValue ch).isSome = true ∨ isHexSpace ch = true
  even : (waiting nibble value ++ hexDigits input).length % 2 = 0
  fits : (waiting nibble value ++ hexDigits input).length / 2 ≤ room

variable {out outlen : Nat} {input : List Byte} {posn value digit room : Nat} {nibble : Bool} {ch : Byte}

theorem waiting_nil (value : Nat) : waiting false value ++ hexDigits [] = [] := rfl

theorem spelledBy_nil : spelledBy [] = [] := rfl

theorem waiting_digit (digit : Nat) : waiting true (digit <<< 4) = [digit] := by
  rw [waiting, if_pos rfl, Nat.shiftLeft_shiftRight]

/-- A character that is skipped changes nothing. -/
theorem acceptable_space (other : hexValue ch = none) (space : isHexSpace ch = true) :
    Acceptable (ch :: input) value nibble room ↔ Acceptable input value nibble room := by
  constructor
  · rintro ⟨chars, even, fits⟩
    rw [hexDigits_cons_other other] at even fits
    exact ⟨fun c hc => chars c (List.mem_cons_of_mem ch hc), even, fits⟩
  · rintro ⟨chars, even, fits⟩
    refine ⟨?_, ?_, ?_⟩
    · rintro c (_ | ⟨_, hc⟩)
      · exact Or.inr space
      · exact chars c hc
    · rw [hexDigits_cons_other other]
      exact even
    · rw [hexDigits_cons_other other]
      exact fits

theorem acceptable_chars (isDigit : hexValue ch = some digit)
    (chars : ∀ ch ∈ input, (hexValue ch).isSome = true ∨ isHexSpace ch = true) :
    ∀ c ∈ ch :: input, (hexValue c).isSome = true ∨ isHexSpace c = true := by
  rintro c (_ | ⟨_, hc⟩)
  · rw [isDigit]
    exact Or.inl rfl
  · exact chars c hc

/-- The first digit of a byte waits. -/
theorem acceptable_first (isDigit : hexValue ch = some digit) :
    Acceptable (ch :: input) value false room ↔ Acceptable input (digit <<< 4) true room := by
  constructor
  · rintro ⟨chars, even, fits⟩
    rw [hexDigits_cons_digit isDigit] at even fits
    refine ⟨fun c hc => chars c (List.mem_cons_of_mem ch hc), ?_, ?_⟩
    · rw [waiting_digit]
      exact even
    · rw [waiting_digit]
      exact fits
  · rintro ⟨chars, even, fits⟩
    rw [waiting_digit] at even fits
    refine ⟨acceptable_chars isDigit chars, ?_, ?_⟩
    · rw [hexDigits_cons_digit isDigit]
      exact even
    · rw [hexDigits_cons_digit isDigit]
      exact fits

/-- The second one takes up the room of a byte. -/
theorem acceptable_second (isDigit : hexValue ch = some digit) :
    Acceptable (ch :: input) value true room ↔ 0 < room ∧ Acceptable input value false (room - 1) := by
  have two : (waiting true value ++ hexDigits (ch :: input)).length =
      (waiting false value ++ hexDigits input).length + 2 := by
    rw [hexDigits_cons_digit isDigit]
    rfl
  constructor
  · rintro ⟨chars, even, fits⟩
    rw [two] at even fits
    refine ⟨by omega, fun c hc => chars c (List.mem_cons_of_mem ch hc), by omega, by omega⟩
  · rintro ⟨some_room, chars, even, fits⟩
    refine ⟨acceptable_chars isDigit chars, ?_, ?_⟩
    · rw [two]
      omega
    · rw [two]
      omega

/-- On an acceptable string the loop writes the bytes that are spelled, one behind the other. -/
theorem fromHexLoop_of_acceptable (acceptable : Acceptable input value nibble (outlen - posn))
    (aligned : value = (value >>> 4) <<< 4) (mem : Mem) :
    fromHexLoop out outlen input posn value nibble mem =
      (mem.write (out + posn) (spelledBy (waiting nibble value ++ hexDigits input)),
        some (posn + (waiting nibble value ++ hexDigits input).length / 2)) := by
  induction input generalizing posn value nibble mem with
  | nil =>
      cases nibble with
      | false =>
          rw [waiting_nil, fromHexLoop, spelledBy_nil, write_nil, List.length_nil, Nat.zero_div, Nat.add_zero]
          rfl
      | true => exact nomatch acceptable.even
  | cons ch rest ih =>
      cases isDigit : hexValue ch with
      | none =>
          have space : isHexSpace ch = true := by
            rcases acceptable.chars ch List.mem_cons_self with digit | space
            · rw [isDigit] at digit
              exact nomatch digit
            · exact space
          rw [fromHexLoop, isDigit]
          simp only [if_pos space]
          rw [ih ((acceptable_space isDigit space).1 acceptable) aligned, hexDigits_cons_other isDigit]
      | some digit =>
          rw [fromHexLoop, isDigit, hexDigits_cons_digit isDigit]
          cases nibble with
          | false =>
              have moved : digit <<< 4 = ((digit <<< 4) >>> 4) <<< 4 := by rw [Nat.shiftLeft_shiftRight]
              simp only [Bool.false_eq_true, if_false]
              rw [ih ((acceptable_first isDigit).1 acceptable) moved, waiting_digit]
              rfl
          | true =>
              obtain ⟨room, later⟩ := (acceptable_second isDigit).1 acceptable
              have inside : ¬ outlen ≤ posn := fun full => by omega
              have byte : value ||| digit = 16 * (value >>> 4) + digit := by
                rw [← nibbles_or (hexValue_lt isDigit), ← aligned]
              rw [Nat.sub_sub] at later
              simp only [if_true, if_neg inside]
              rw [ih later aligned, ← Nat.add_assoc, byte]
              have joined : spelledBy (waiting true value ++ digit :: hexDigits rest) =
                  BitVec.ofNat 8 (16 * (value >>> 4) + digit) :: spelledBy (hexDigits rest) := rfl
              rw [joined, write_cons]
              refine Prod.ext rfl (congrArg some ?_)
              show posn + 1 + (hexDigits rest).length / 2 = posn + ((hexDigits rest).length + 2) / 2
              omega

/-- On every other string it returns -1. -/
theorem fromHexLoop_eq_none (refused : ¬ Acceptable input value nibble (outlen - posn)) (mem : Mem) :
    (fromHexLoop out outlen input posn value nibble mem).2 = none := by
  induction input generalizing posn value nibble mem with
  | nil =>
      cases nibble with
      | false =>
          refine absurd ⟨nofun, rfl, ?_⟩ refused
          rw [waiting_nil]
          exact Nat.zero_le _
      | true => rfl
  | cons ch rest ih =>
      cases isDigit : hexValue ch with
      | none =>
          rw [fromHexLoop, isDigit]
          by_cases space : isHexSpace ch = true
          · simp only [if_pos space]
            exact ih (fun acceptable => refused ((acceptable_space isDigit space).2 acceptable)) mem
          · simp only [if_neg space]
      | some digit =>
          rw [fromHexLoop, isDigit]
          cases nibble with
          | false => exact ih (fun acceptable => refused ((acceptable_first isDigit).2 acceptable)) mem
          | true =>
              by_cases full : outlen ≤ posn
              · simp only [if_true, if_pos full]
              · simp only [if_true, if_neg full]
                refine ih (fun acceptable => refused ((acceptable_second isDigit).2 ⟨by omega, ?_⟩)) _
                rw [Nat.sub_sub]
                exact acceptable

/-- No string makes the loop write outside the output. -/
theorem fromHexLoop_frame (mem : Mem) {a : Nat} (outside : a < out ∨ out + outlen ≤ a) :
    (fromHexLoop out outlen input posn value nibble mem).1 a = mem a := by
  induction input generalizing posn value nibble mem with
  | nil => cases nibble <;> rfl
  | cons ch rest ih =>
      rw [fromHexLoop]
      cases hexValue ch with
      | none =>
          by_cases space : isHexSpace ch = true
          · simp only [if_pos space]
            exact ih mem
          · simp only [if_neg space]
      | some digit =>
          cases nibble with
          | false => exact ih mem
          | true =>
              by_cases full : outlen ≤ posn
              · simp only [if_true, if_pos full]
              · simp only [if_true, if_neg full]
                rw [ih]
                exact if_neg fun here => by omega

/-! ### The function -/

theorem acceptable_iff (input : List Byte) (outlen : Nat) :
    Acceptable input 0 false outlen ↔ ∃ n, HexString input n ∧ n ≤ outlen := by
  constructor
  · rintro ⟨chars, even, fits⟩
    rw [waiting, if_neg Bool.false_ne_true, List.nil_append] at even fits
    exact ⟨(hexDigits input).length / 2, ⟨chars, by omega⟩, fits⟩
  · rintro ⟨n, ⟨chars, digits⟩, fits⟩
    refine ⟨chars, ?_, ?_⟩
    · rw [waiting, if_neg Bool.false_ne_true, List.nil_append]
      omega
    · rw [waiting, if_neg Bool.false_ne_true, List.nil_append]
      omega

theorem length_spelled {input : List Byte} {n : Nat} (hex : HexString input n) : (spelled input).length = n := by
  rw [spelled, length_spelledBy, hex.digits]
  omega

/-- A hexadecimal string whose bytes fit is decoded. -/
theorem asconBytesFromHex_of_hexString {input : List Byte} {n : Nat} (hex : HexString input n) {outlen : Nat}
    (fits : n ≤ outlen) (mem : Mem) (out : Nat) :
    asconBytesFromHex mem out outlen input = (mem.write out (spelled input), toInt n) := by
  have acceptable := (acceptable_iff input outlen).2 ⟨n, hex, fits⟩
  have run := @fromHexLoop_of_acceptable out outlen input 0 0 false acceptable rfl mem
  have count : (hexDigits input).length / 2 = n := by
    rw [hex.digits]
    omega
  rw [waiting, if_neg Bool.false_ne_true, List.nil_append, count, Nat.add_zero, Nat.zero_add] at run
  rw [asconBytesFromHex, run]
  rfl

/-- Any other string is refused. -/
theorem asconBytesFromHex_of_refused {input : List Byte} {outlen : Nat}
    (refused : ¬ ∃ n, HexString input n ∧ n ≤ outlen) (mem : Mem) (out : Nat) :
    (asconBytesFromHex mem out outlen input).2 = -1 := by
  have none := @fromHexLoop_eq_none out outlen input 0 0 false
    (fun acceptable => refused ((acceptable_iff input outlen).1 acceptable)) mem
  rw [asconBytesFromHex]
  split
  next ran =>
    rw [ran] at none
    exact nomatch none
  next => rfl

theorem asconBytesFromHex_frame (mem : Mem) (out outlen : Nat) (input : List Byte) {a : Nat}
    (outside : a < out ∨ out + outlen ≤ a) : (asconBytesFromHex mem out outlen input).1 a = mem a := by
  have kept := @fromHexLoop_frame out outlen input 0 0 false mem a outside
  rw [asconBytesFromHex]
  split
  next ran =>
    rw [ran] at kept
    exact kept
  next ran =>
    rw [ran] at kept
    exact kept

/-! ### Round trip -/

theorem hexValue_hexChar : ∀ (upperCase : Bool), ∀ digit < 16, hexValue (hexChar upperCase digit) = some digit := by
  decide

theorem hexDigits_hexPairs (upperCase : Bool) (bytes : List Byte) :
    hexDigits (bytes.flatMap (hexPair upperCase)) = bytes.flatMap fun b => [b.toNat / 16, b.toNat % 16] := by
  induction bytes with
  | nil => rfl
  | cons b bytes ih =>
      have high := hexValue_hexChar upperCase (b.toNat / 16) (Nat.div_lt_of_lt_mul b.isLt)
      have low := hexValue_hexChar upperCase (b.toNat % 16) (Nat.mod_lt _ (by decide))
      rw [List.flatMap_cons, List.flatMap_cons, hexPair, List.cons_append, List.cons_append, List.nil_append,
        hexDigits_cons_digit high, hexDigits_cons_digit low, ih]
      rfl

theorem spelledBy_nibbles (bytes : List Byte) :
    spelledBy (bytes.flatMap fun b => [b.toNat / 16, b.toNat % 16]) = bytes := by
  induction bytes with
  | nil => rfl
  | cons b bytes ih =>
      rw [List.flatMap_cons, List.cons_append, List.cons_append, List.nil_append, spelledBy, ih, Nat.div_add_mod,
        BitVec.ofNat_toNat, BitVec.setWidth_eq]

theorem length_flatMap_pairs {α : Type} {pair : Byte → List α} (two : ∀ b, (pair b).length = 2) (bytes : List Byte) :
    (bytes.flatMap pair).length = 2 * bytes.length := by
  induction bytes with
  | nil => rfl
  | cons b bytes ih =>
      rw [List.flatMap_cons, List.length_append, ih, two, List.length_cons]
      omega

theorem spelled_hexPairs (upperCase : Bool) (bytes : List Byte) :
    spelled (bytes.flatMap (hexPair upperCase)) = bytes := by
  rw [spelled, hexDigits_hexPairs, spelledBy_nibbles]

theorem isSome_hexValue_of_mem_hexPairs {upperCase : Bool} {bytes : List Byte} {ch : Byte}
    (member : ch ∈ bytes.flatMap (hexPair upperCase)) : (hexValue ch).isSome = true := by
  obtain ⟨b, -, here⟩ := List.mem_flatMap.1 member
  rcases List.mem_cons.1 here with rfl | last
  · rw [hexValue_hexChar upperCase _ (Nat.div_lt_of_lt_mul b.isLt)]
    rfl
  · rw [List.mem_singleton.1 last, hexValue_hexChar upperCase _ (Nat.mod_lt _ (by decide))]
    rfl

theorem hexString_hexPairs (upperCase : Bool) (bytes : List Byte) :
    HexString (bytes.flatMap (hexPair upperCase)) bytes.length := by
  constructor
  · exact fun ch member => Or.inl (isSome_hexValue_of_mem_hexPairs member)
  · rw [hexDigits_hexPairs, length_flatMap_pairs fun _ => rfl]

/-! ### What the header promises -/

/-- The documented behaviour of `ascon_bytes_from_hex` on one string. -/
structure DecodesAsDocumented (mem : Mem) (out outlen : Nat) (input : List Byte) : Prop where
  count : ∀ n : Nat, (asconBytesFromHex mem out outlen input).2 = n ↔ HexString input n ∧ n ≤ outlen
  bytes : ∀ n : Nat, HexString input n → n ≤ outlen →
    (asconBytesFromHex mem out outlen input).1.read out n = spelled input
  refused : (¬ ∃ n, HexString input n ∧ n ≤ outlen) → (asconBytesFromHex mem out outlen input).2 = -1
  inside : ∀ a, a < out ∨ out + outlen ≤ a → (asconBytesFromHex mem out outlen input).1 a = mem a

/-- The number of decoded bytes is one that `int` has. -/
def CountIsInt (input : List Byte) (outlen : Nat) : Prop := ∀ n, HexString input n → n ≤ outlen → n < 2 ^ 31

/-- A byte string comes back from the string that `ascon_bytes_to_hex` makes of it. -/
def HexRoundTrip (bytes : List Byte) (upperCase : Bool) : Prop :=
  ∀ (mem : Mem) (text textlen out outlen : Nat), bytes.length * 2 + 1 ≤ textlen → bytes.length ≤ outlen →
    let encoded := (asconBytesToHex mem text textlen bytes upperCase).1
    let decoded := asconBytesFromHex encoded out outlen (encoded.read text (bytes.length * 2))
    decoded.1.read out bytes.length = bytes ∧ (bytes.length < 2 ^ 31 → decoded.2 = bytes.length)

theorem toInt_of_lt {size : Nat} (small : size < 2 ^ 31) : toInt size = size := by
  rw [toInt, BitVec.toInt_eq_toNat_cond, BitVec.toNat_ofNat, Nat.mod_eq_of_lt (by omega)]
  exact if_pos (by omega)

theorem toInt_lt (size : Nat) : toInt size < 2 ^ 31 := by
  rw [toInt, BitVec.toInt_eq_toNat_cond, BitVec.toNat_ofNat]
  split <;> omega

theorem hexRoundTrip (bytes : List Byte) (upperCase : Bool) : HexRoundTrip bytes upperCase := by
  intro mem text textlen out outlen room fits encoded decoded
  have length_eq : (bytes.flatMap (hexPair upperCase)).length = bytes.length * 2 := by
    rw [length_flatMap_pairs fun _ => rfl, Nat.mul_comm]
  have written : encoded.read text (bytes.length * 2) = bytes.flatMap (hexPair upperCase) := by
    have stored : encoded =
        (mem.write text (bytes.flatMap (hexPair upperCase))).write (text + bytes.length * 2) [0] := by
      rw [← length_eq, ← store_eq_write]
      exact congrArg Prod.fst (if_neg (Nat.not_lt_of_le room))
    rw [stored, read_write_apart _ _ _ (Or.inl (Nat.le_refl _)), read_write_of_length length_eq]
  have answer : decoded = (encoded.write out bytes, toInt bytes.length) := by
    have done := asconBytesFromHex_of_hexString (hexString_hexPairs upperCase bytes) fits encoded out
    rw [spelled_hexPairs] at done
    rw [← done, ← written]
  rw [answer]
  exact ⟨read_write_same encoded out bytes, toInt_of_lt⟩

theorem decodesAsDocumented_iff (mem : Mem) (out outlen : Nat) (input : List Byte) :
    DecodesAsDocumented mem out outlen input ↔ CountIsInt input outlen := by
  constructor
  · intro documented n hex fits
    have count := (documented.count n).2 ⟨hex, fits⟩
    rw [asconBytesFromHex_of_hexString hex fits] at count
    have bound : toInt n < 2 ^ 31 := toInt_lt n
    have same : toInt n = n := count
    omega
  · intro small
    refine ⟨fun n => ?_, fun n hex fits => ?_, fun refused => asconBytesFromHex_of_refused refused mem out,
      fun a outside => asconBytesFromHex_frame mem out outlen input outside⟩
    · by_cases accepted : ∃ m, HexString input m ∧ m ≤ outlen
      · obtain ⟨m, hex, fits⟩ := accepted
        rw [asconBytesFromHex_of_hexString hex fits, toInt_of_lt (small m hex fits)]
        constructor
        · intro same
          rw [← Int.ofNat.inj same]
          exact ⟨hex, fits⟩
        · intro other
          rw [hex.count_unique other.1]
      · rw [asconBytesFromHex_of_refused accepted]
        exact ⟨fun same => absurd same (by omega), fun other => absurd ⟨n, other⟩ accepted⟩
    · rw [asconBytesFromHex_of_hexString hex fits]
      exact read_write_of_length (length_spelled hex)

/-- Decoding accepts exactly the grammar, says how many bytes there are and writes them and nothing else, exactly when
their number is one that `int` has; and every byte string comes back. -/
theorem hex_decoding_iff (mem : Mem) (out outlen : Nat) (input bytes : List Byte) (upperCase : Bool) :
    (DecodesAsDocumented mem out outlen input ↔ CountIsInt input outlen) ∧ HexRoundTrip bytes upperCase :=
  ⟨decodesAsDocumented_iff mem out outlen input, hexRoundTrip bytes upperCase⟩

theorem hexString_replicate_zero (n : Nat) : HexString (List.replicate (2 * n) 0x30#8) n where
  chars := fun ch member => by
    rw [List.eq_of_mem_replicate member]
    exact Or.inl rfl
  digits := by
    rw [hexDigits, List.filterMap_replicate_of_some (show hexValue 0x30#8 = some 0 from rfl), List.length_replicate]

/-- A string of 2^32 zeroes is decoded, and the number of bytes is reported as a negative one. -/
theorem hex_decoding_count_overflows :
    let input := List.replicate (2 * 2 ^ 31) 0x30#8
    (asconBytesFromHex (fun _ => 0) 0 (2 ^ 31) input).2 = -2 ^ 31 ∧
      ¬ DecodesAsDocumented (fun _ => 0) 0 (2 ^ 31) input := by
  intro input
  have hex : HexString input (2 ^ 31) := hexString_replicate_zero (2 ^ 31)
  constructor
  · rw [asconBytesFromHex_of_hexString hex (Nat.le_refl _)]
    decide
  · intro documented
    have small := (decodesAsDocumented_iff _ _ _ _).1 documented (2 ^ 31) hex (Nat.le_refl _)
    exact absurd small (Nat.lt_irrefl _)

/-! ### Arrays -/

theorem hexValue_of_space {ch : Byte} (space : isHexSpace ch = true) : hexValue ch = none := by
  simp only [isHexSpace, Bool.or_eq_true, beq_iff_eq] at space
  rcases space with ((((rfl | rfl) | rfl) | rfl) | rfl) | rfl <;> rfl

/-- The number of characters of a string that are skipped. -/
def spaces (str : List Byte) : Nat := str.countP isHexSpace

/-- Every character of a hexadecimal string is one of its digits or is skipped. -/
theorem HexString.length_eq {str : List Byte} {n : Nat} (hex : HexString str n) : str.length = 2 * n + spaces str := by
  obtain ⟨chars, digits⟩ := hex
  rw [← digits, spaces]
  clear digits
  induction str with
  | nil => rfl
  | cons ch rest ih =>
      have length_rest := ih fun c hc => chars c (List.mem_cons_of_mem ch hc)
      rw [List.length_cons]
      by_cases space : isHexSpace ch = true
      · rw [hexDigits_cons_other (hexValue_of_space space), List.countP_cons_of_pos space]
        omega
      · obtain ⟨digit, value⟩ := Option.isSome_iff_exists.1 ((chars ch List.mem_cons_self).resolve_right space)
        rw [hexDigits_cons_digit value, List.countP_cons_of_neg space, List.length_cons]
        omega

theorem read_eq_replicate {mem : Mem} (zero : ∀ a, mem a = 0) (p n : Nat) : mem.read p n = List.replicate n 0 := by
  induction n generalizing p with
  | zero => rfl
  | succ n ih => rw [read_succ, zero, ih, List.replicate_succ]

/-- An array as it is made. -/
theorem write_zeroes_apply (n a : Nat) : Mem.write (fun _ => (0 : Byte)) 0 (List.replicate n 0) a = 0 := by
  rw [write_apply]
  split
  · rw [List.getD_eq_getElem?_getD, List.getElem?_replicate]
    split <;> rfl
  · rfl

/-- What the array holds for a hexadecimal string: its bytes, and a zero for every two characters that are skipped. -/
theorem bytesFromHex_of_hexString {str : List Byte} {n : Nat} (hex : HexString str n) :
    bytesFromHex str = if toInt n ≠ -1 then spelled str ++ List.replicate (spaces str / 2) 0 else [] := by
  have size : str.length / 2 = n + spaces str / 2 := by
    rw [hex.length_eq]
    omega
  have fits : n ≤ str.length / 2 := by
    rw [size]
    exact Nat.le_add_right n _
  have front : 0 + (spelled str).length ≤ n := by
    rw [length_spelled hex, Nat.zero_add]
  have array : ((Mem.write (fun _ => (0 : Byte)) 0 (List.replicate (str.length / 2) 0)).write 0 (spelled str)).read 0
      (str.length / 2) = spelled str ++ List.replicate (spaces str / 2) 0 := by
    rw [size, read_add, Nat.zero_add, read_write_of_length (length_spelled hex),
      read_write_apart _ _ _ (Or.inr front), read_eq_replicate (write_zeroes_apply _)]
  rw [bytesFromHex, asconBytesFromHex_of_hexString hex fits, ← array]

theorem bytesFromHex_of_refused {str : List Byte} (refused : ¬ ∃ n, HexString str n) : bytesFromHex str = [] := by
  have answer := @asconBytesFromHex_of_refused str (str.length / 2) (fun ⟨n, hex, _⟩ => refused ⟨n, hex⟩)
  rw [bytesFromHex]
  split
  next ran =>
    have result := answer (Mem.write (fun _ => 0) 0 (List.replicate (str.length / 2) 0)) 0
    rw [ran] at result
    exact if_neg fun other => other result

/-- `ascon_bytes_from_hex` takes the string, for an output with a byte for every two of its characters. -/
def AcceptedHex (str : List Byte) : Prop := ∃ n, HexString str n ∧ toInt n ≠ -1

theorem acceptedHex_iff (mem : Mem) (out : Nat) (str : List Byte) :
    AcceptedHex str ↔ (asconBytesFromHex mem out (str.length / 2) str).2 ≠ -1 := by
  constructor
  · rintro ⟨n, hex, other⟩
    have fits : n ≤ str.length / 2 := by
      rw [hex.length_eq]
      omega
    rw [asconBytesFromHex_of_hexString hex fits]
    exact other
  · intro other
    by_cases hexString : ∃ n, HexString str n ∧ n ≤ str.length / 2
    · obtain ⟨n, hex, fits⟩ := hexString
      rw [asconBytesFromHex_of_hexString hex fits] at other
      exact ⟨n, hex, other⟩
    · exact absurd (asconBytesFromHex_of_refused hexString mem out) other

/-- The array has the decoded bytes of an accepted string and is empty for any other one. -/
structure ArrayAsDocumented (str : List Byte) : Prop where
  accepted : AcceptedHex str → bytesFromHex str = spelled str
  refused : ¬ AcceptedHex str → bytesFromHex str = []

/-- An accepted string has at most one character that is skipped. -/
def AtMostOneSpace (str : List Byte) : Prop := AcceptedHex str → spaces str ≤ 1

theorem arrayAsDocumented_iff (str : List Byte) : ArrayAsDocumented str ↔ AtMostOneSpace str := by
  constructor
  · rintro documented ⟨n, hex, other⟩
    have array := documented.accepted ⟨n, hex, other⟩
    rw [bytesFromHex_of_hexString hex, if_pos other] at array
    have length_eq := congrArg List.length array
    rw [List.length_append, List.length_replicate] at length_eq
    omega
  · intro few
    constructor
    · rintro ⟨n, hex, other⟩
      have none : spaces str / 2 = 0 := Nat.div_eq_of_lt (Nat.lt_succ_of_le (few ⟨n, hex, other⟩))
      rw [bytesFromHex_of_hexString hex, if_pos other, none, List.replicate_zero, List.append_nil]
    · intro refused
      by_cases hexString : ∃ n, HexString str n
      · obtain ⟨n, hex⟩ := hexString
        rw [bytesFromHex_of_hexString hex]
        exact if_neg fun other => refused ⟨n, hex, other⟩
      · exact bytesFromHex_of_refused hexString

/-- Two strings that differ only in characters that are skipped. -/
def SameButSpaces (str other : List Byte) : Prop :=
  str.filter (fun ch => !isHexSpace ch) = other.filter fun ch => !isHexSpace ch

theorem hexDigits_filter (str : List Byte) : hexDigits (str.filter fun ch => !isHexSpace ch) = hexDigits str := by
  induction str with
  | nil => rfl
  | cons ch rest ih =>
      by_cases space : isHexSpace ch = true
      · rw [List.filter_cons_of_neg (by simp [space]), ih, hexDigits_cons_other (hexValue_of_space space)]
      · rw [List.filter_cons_of_pos (by simp [space]), hexDigits, List.filterMap_cons, hexDigits, List.filterMap_cons]
        rw [hexDigits, hexDigits] at ih
        rw [ih]

theorem hexString_filter_iff (str : List Byte) (n : Nat) :
    HexString (str.filter fun ch => !isHexSpace ch) n ↔ HexString str n := by
  constructor
  · rintro ⟨chars, digits⟩
    rw [hexDigits_filter] at digits
    refine ⟨fun ch member => ?_, digits⟩
    by_cases space : isHexSpace ch = true
    · exact Or.inr space
    · exact chars ch (List.mem_filter.2 ⟨member, by simp [space]⟩)
  · rintro ⟨chars, digits⟩
    rw [← hexDigits_filter] at digits
    exact ⟨fun ch member => chars ch (List.mem_filter.1 member).1, digits⟩

theorem SameButSpaces.hexString_iff {str other : List Byte} (same : SameButSpaces str other) (n : Nat) :
    HexString str n ↔ HexString other n := by
  rw [← hexString_filter_iff str, ← hexString_filter_iff other, same]

theorem SameButSpaces.spelled_eq {str other : List Byte} (same : SameButSpaces str other) :
    spelled str = spelled other := by
  rw [spelled, spelled, ← hexDigits_filter str, ← hexDigits_filter other, same]

/-- Two strings are decoded to arrays as documented, and to equal ones when they differ only in white space. -/
structure ArraysAsDocumented (str other : List Byte) : Prop where
  first : ArrayAsDocumented str
  second : ArrayAsDocumented other
  same : SameButSpaces str other → bytesFromHex str = bytesFromHex other

/-- The C++ function gives the decoded bytes of two strings exactly when neither of them has two characters that are
skipped. -/
theorem cpp_hex_decoding_iff (str other : List Byte) :
    ArraysAsDocumented str other ↔ AtMostOneSpace str ∧ AtMostOneSpace other := by
  rw [← arrayAsDocumented_iff, ← arrayAsDocumented_iff]
  constructor
  · exact fun documented => ⟨documented.first, documented.second⟩
  · rintro ⟨first, second⟩
    refine ⟨first, second, fun same => ?_⟩
    have accepted_iff : AcceptedHex str ↔ AcceptedHex other :=
      exists_congr fun n => and_congr_left fun _ => same.hexString_iff n
    by_cases accepted : AcceptedHex str
    · rw [first.accepted accepted, second.accepted (accepted_iff.1 accepted), same.spelled_eq]
    · rw [first.refused accepted, second.refused fun other => accepted (accepted_iff.2 other)]

/-- `"a b "` gives the byte 0xab and a zero behind it, where `"ab"` gives the byte alone. -/
theorem cpp_hex_decoding_keeps_spaces :
    bytesFromHex [0x61#8, 0x20#8, 0x62#8, 0x20#8] = [0xab#8, 0#8] ∧ bytesFromHex [0x61#8, 0x62#8] = [0xab#8] ∧
      ¬ ArraysAsDocumented [0x61#8, 0x20#8, 0x62#8, 0x20#8] [0x61#8, 0x62#8] := by
  have spaced : bytesFromHex [0x61#8, 0x20#8, 0x62#8, 0x20#8] = [0xab#8, 0#8] := by decide
  have plain : bytesFromHex [0x61#8, 0x62#8] = [0xab#8] := by decide
  refine ⟨spaced, plain, fun documented => ?_⟩
  have same := documented.same (show SameButSpaces _ _ by rw [SameButSpaces]; decide)
  rw [spaced, plain] at same
  exact absurd same (by decide)

end AsconSuite
