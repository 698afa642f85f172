/-
Module: AsconSuite.Proofs.AsconsumLines
Layer: Proofs
Purpose: The lines of a sums file: how they come out of the buffer of `fgets`, which of them are well formed, and how
  the line that `hash_file` prints is parsed.
Imports: AsconSuite.Apps.Asconsum, AsconSuite.Proofs.HexStrings
Trusted boundary: none
Main exports: sumsTexts, LinesFit, texts_fgetsLines, SumsLine, parseLine_of_sumsLine, sumsLine_of_parseLine,
  sumsLine_unique
-/
import AsconSuite.Apps.Asconsum
import AsconSuite.Proofs.HexStrings

namespace AsconSuite

open ByteWord ByteMemory

/-! ### Lines and texts -/

/-- The lines of a file without the carriage returns at their ends. -/
def sumsTexts (bytes : List Byte) : List (List Byte) :=
  (bytes.splitOn 0x0A).map fun line => line.rdropWhile (· == 0x0D)

/-- The lines have room in the buffer beside the terminating zero. -/
def LinesFit (bytes : List Byte) : Prop := ∀ line ∈ bytes.splitOn 0x0A, line.length + 1 ≤ asconLineSize

/-- What is left of some lines when the empty ones are ignored. -/
def texts (lines : List (List Byte)) : List (List Byte) := (lines.map trimLine).filter (· ≠ [])

variable {line rest bytes : List Byte} {lines : List (List Byte)}

theorem texts_cons (line : List Byte) (lines : List (List Byte)) :
    texts (line :: lines) = if trimLine line = [] then texts lines else trimLine line :: texts lines := by
  by_cases empty : trimLine line = []
  · rw [if_pos empty, texts, List.map_cons, List.filter_cons_of_neg (by simp [empty]), texts]
  · rw [if_neg empty, texts, List.map_cons, List.filter_cons_of_pos (by simp [empty]), texts]

theorem trimLine_of_noZero (noZero : (0 : Byte) ∉ line) : trimLine line = line.rdropWhile isLineEnd := by
  rw [trimLine, List.takeWhile_eq_self_iff.2]
  intro ch member
  exact bne_iff_ne.2 fun same => noZero (same ▸ member)

theorem trimLine_lineFeed (noZero : (0 : Byte) ∉ line) : trimLine (line ++ [0x0A]) = trimLine line := by
  have noZero' : (0 : Byte) ∉ line ++ [0x0A] := by
    rw [List.mem_append, List.mem_singleton]
    exact fun either => either.elim noZero (by decide)
  rw [trimLine_of_noZero noZero, trimLine_of_noZero noZero', List.rdropWhile_concat_pos _ _ _ rfl]

/-- Without line feeds only carriage returns are removed. -/
theorem rdropWhile_isLineEnd (noFeed : (0x0A : Byte) ∉ line) :
    line.rdropWhile isLineEnd = line.rdropWhile (· == 0x0D) := by
  induction line using List.reverseRecOn with
  | nil => rfl
  | append_singleton front ch ih =>
      have apart : ch ≠ 0x0A := fun same => noFeed (List.mem_append_right _ (same ▸ List.mem_singleton_self _))
      have same : isLineEnd ch = (ch == 0x0D) := by
        rw [isLineEnd, beq_false_of_ne apart, Bool.false_or]
      rw [List.rdropWhile_concat, List.rdropWhile_concat, same]
      split
      · exact ih fun member => noFeed (List.mem_append_left _ member)
      · rfl

/-- The first line of a file begins with what stands in front of the first line feed. -/
theorem splitOn_append (noFeed : (0x0A : Byte) ∉ line) (rest : List Byte) :
    ∃ first others, (line ++ rest).splitOn 0x0A = (line ++ first) :: others := by
  induction line with
  | nil =>
      cases parts : rest.splitOn 0x0A with
      | nil => exact absurd parts (List.splitOn_ne_nil _ _)
      | cons first others => exact ⟨first, others, parts⟩
  | cons ch line ih =>
      obtain ⟨first, others, parts⟩ := ih fun member => noFeed (List.mem_cons_of_mem ch member)
      have apart : (ch == 0x0A) = false := beq_false_of_ne fun same => noFeed (same ▸ List.mem_cons_self)
      refine ⟨first, others, ?_⟩
      rw [List.cons_append, List.splitOn_cons_eq_if_modifyHead, apart, if_neg Bool.false_ne_true, parts]
      rfl

/-- The line that is read and what follows it make the same texts as the lines of the file. -/
theorem texts_fgetsFrom (room : line.length + 2 ≤ asconLineSize) (noFeed : (0x0A : Byte) ∉ line)
    (noZero : (0 : Byte) ∉ line ++ rest) (fit : LinesFit (line ++ rest)) :
    texts (fgetsFrom line rest) = texts ((line ++ rest).splitOn 0x0A) := by
  induction rest generalizing line with
  | nil =>
      rw [fgetsFrom, List.append_nil, List.splitOn_eq_singleton noFeed]
      split
      next empty => rw [empty]; rfl
      next => rfl
  | cons ch rest ih =>
      have lineNoZero : (0 : Byte) ∉ line := fun member => noZero (List.mem_append_left _ member)
      have restNoZero : (0 : Byte) ∉ rest := fun member =>
        noZero (List.mem_append_right _ (List.mem_cons_of_mem ch member))
      have joined : line ++ ch :: rest = line ++ [ch] ++ rest := by rw [List.append_assoc, List.singleton_append]
      rw [fgetsFrom]
      by_cases feed : ch = 0x0A
      · subst feed
        have split : (line ++ 0x0A :: rest).splitOn 0x0A = line :: rest.splitOn 0x0A :=
          List.splitOn_append_cons_self_of_not_mem noFeed rest
        have restFit : LinesFit rest := by
          intro other member
          exact fit other (by rw [split]; exact List.mem_cons_of_mem line member)
        rw [if_pos (Or.inl rfl), split, texts_cons, texts_cons, trimLine_lineFeed lineNoZero,
          ih (by decide) List.not_mem_nil (by rwa [List.nil_append]) (by rwa [List.nil_append]), List.nil_append]
      · have longer : (0x0A : Byte) ∉ line ++ [ch] := by
          rw [List.mem_append, List.mem_singleton]
          exact fun either => either.elim noFeed (Ne.symm feed)
        by_cases full : line.length + 2 = asconLineSize
        · rw [if_pos (Or.inr full), texts_cons, joined]
          -- a line that fills the buffer ends here, and its line feed is read as an empty line
          rcases rest with _ | ⟨next, rest⟩
          · rw [List.append_nil, List.splitOn_eq_singleton longer, texts_cons]
            rfl
          · by_cases nextFeed : next = 0x0A
            · subst nextFeed
              have split : (line ++ [ch] ++ 0x0A :: rest).splitOn 0x0A = (line ++ [ch]) :: rest.splitOn 0x0A :=
                List.splitOn_append_cons_self_of_not_mem longer rest
              have parts : (0x0A :: rest).splitOn 0x0A = [] :: rest.splitOn 0x0A :=
                List.splitOn_append_cons_self_of_not_mem List.not_mem_nil rest
              have restFit : LinesFit (0x0A :: rest) := by
                intro other member
                rw [parts] at member
                rcases List.mem_cons.1 member with rfl | member
                · decide
                · exact fit other (by rw [joined, split]; exact List.mem_cons_of_mem _ member)
              rw [ih (by decide) List.not_mem_nil (by rwa [List.nil_append]) (by rwa [List.nil_append]),
                List.nil_append, parts, split, texts_cons, texts_cons]
              rfl
            · -- a longer line does not fit
              have longest : (0x0A : Byte) ∉ line ++ [ch] ++ [next] := by
                rw [List.mem_append, List.mem_singleton]
                exact fun either => either.elim longer (Ne.symm nextFeed)
              obtain ⟨first, others, parts⟩ := splitOn_append longest rest
              rw [List.append_assoc, List.singleton_append, ← joined] at parts
              have tooLong := fit _ (by rw [parts]; exact List.mem_cons_self)
              simp only [List.length_append, List.length_singleton] at tooLong
              omega
        · rw [if_neg (not_or.2 ⟨feed, full⟩), joined]
          refine ih ?_ longer (by rwa [← joined]) (by rwa [← joined])
          rw [List.length_append, List.length_singleton]
          omega

/-- A line has no line feed, and its characters are those of the file. -/
theorem mem_splitOn {bytes : List Byte} :
    ∀ line ∈ bytes.splitOn 0x0A, (0x0A : Byte) ∉ line ∧ ∀ ch ∈ line, ch ∈ bytes := by
  induction bytes with
  | nil =>
      intro line member
      rw [List.splitOn_nil, List.mem_singleton] at member
      subst member
      exact ⟨List.not_mem_nil, fun ch member => member⟩
  | cons ch rest ih =>
      intro line member
      rw [List.splitOn_cons_eq_if_modifyHead] at member
      by_cases feed : ch = 0x0A
      · rw [if_pos (beq_iff_eq.2 feed)] at member
        rcases List.mem_cons.1 member with rfl | member
        · exact ⟨List.not_mem_nil, fun ch member => nomatch member⟩
        · exact ⟨(ih line member).1, fun c hc => List.mem_cons_of_mem ch ((ih line member).2 c hc)⟩
      · rw [if_neg fun same => feed (beq_iff_eq.1 same)] at member
        cases parts : rest.splitOn 0x0A with
        | nil => exact absurd parts (List.splitOn_ne_nil _ _)
        | cons first others =>
            rw [parts] at ih member
            rcases List.mem_cons.1 member with rfl | member
            · obtain ⟨noFeed, inside⟩ := ih first List.mem_cons_self
              refine ⟨fun member => ?_, fun c hc => ?_⟩
              · rcases List.mem_cons.1 member with same | member
                · exact feed same.symm
                · exact noFeed member
              · rcases List.mem_cons.1 hc with rfl | hc
                · exact List.mem_cons_self
                · exact List.mem_cons_of_mem ch (inside c hc)
            · obtain ⟨noFeed, inside⟩ := ih line (List.mem_cons_of_mem first member)
              exact ⟨noFeed, fun c hc => List.mem_cons_of_mem ch (inside c hc)⟩

/-- The calls of `fgets` find the texts of the file, apart from empty ones. -/
theorem texts_fgetsLines (noZero : (0 : Byte) ∉ bytes) (fit : LinesFit bytes) :
    texts (fgetsLines bytes) = (sumsTexts bytes).filter (· ≠ []) := by
  have read : texts (fgetsFrom [] bytes) = texts (bytes.splitOn 0x0A) :=
    texts_fgetsFrom (by decide) List.not_mem_nil noZero fit
  rw [fgetsLines, read, texts, sumsTexts]
  congr 1
  refine List.map_congr_left fun line member => ?_
  obtain ⟨noFeed, inside⟩ := mem_splitOn line member
  rw [trimLine_of_noZero fun zero => noZero (inside 0 zero), rdropWhile_isLineEnd noFeed]

/-! ### Well-formed lines -/

/-- A line is 64 digits that spell a hash, at least one space, and a name. -/
structure SumsLine (text hash name : List Byte) : Prop where
  parts : ∃ digits spaces, text = digits ++ List.replicate (spaces + 1) 0x20 ++ name ∧
    digits.length = 2 * asconHashSize ∧ (∀ ch ∈ digits, (hexValue ch).isSome = true) ∧ spelled digits = hash
  named : name ≠ []
  noSpace : ∀ rest, name ≠ 0x20 :: rest

/-- Digits up to the size of the hash are taken, and what they spell is stored. -/
theorem parseHash_digits {digits : List Byte} (count : Nat) (pairs : digits.length = 2 * count)
    (areDigits : ∀ ch ∈ digits, (hexValue ch).isSome = true) {hashlen : Nat} (fits : hashlen + count = asconHashSize)
    (rest : List Byte) (hash : Mem) :
    parseHash (digits ++ rest) hashlen hash = (rest, asconHashSize, hash.write hashlen (spelled digits)) := by
  induction count generalizing digits hashlen hash with
  | zero =>
      have none : digits = [] := List.eq_nil_of_length_eq_zero pairs
      subst none
      rw [Nat.add_zero] at fits
      rw [fits, List.nil_append]
      have nothing : spelled [] = [] := rfl
      have stop : ¬asconHashSize < asconHashSize := Nat.lt_irrefl _
      rw [nothing, write_nil]
      rcases rest with _ | ⟨ch1, _ | ⟨ch2, rest⟩⟩
      · rfl
      · rfl
      · rw [parseHash, if_neg stop]
  | succ count ih =>
      rcases digits with _ | ⟨ch1, _ | ⟨ch2, digits⟩⟩
      · exact nomatch pairs
      · simp only [List.length_cons, List.length_nil] at pairs
        omega
      · obtain ⟨hex1, value1⟩ := Option.isSome_iff_exists.1 (areDigits ch1 List.mem_cons_self)
        obtain ⟨hex2, value2⟩ := Option.isSome_iff_exists.1
          (areDigits ch2 (List.mem_cons_of_mem ch1 List.mem_cons_self))
        have pairs' : digits.length = 2 * count := by
          simp only [List.length_cons] at pairs
          omega
        have spells : spelled (ch1 :: ch2 :: digits) = BitVec.ofNat 8 (hex1 * 16 + hex2) :: spelled digits := by
          rw [spelled, hexDigits_cons_digit value1, hexDigits_cons_digit value2, spelledBy, Nat.mul_comm, spelled]
        have room : hashlen < asconHashSize := by omega
        have areDigits' : ∀ ch ∈ digits, (hexValue ch).isSome = true := fun ch member =>
          areDigits ch (List.mem_cons_of_mem ch1 (List.mem_cons_of_mem ch2 member))
        rw [List.cons_append, List.cons_append, parseHash, if_pos room, toHexDigit, value1, value2]
        simp only
        rw [ih pairs' areDigits' (by omega), spells, write_cons]

/-- The pairs of digits that were taken, and where the loop stopped. -/
theorem parseHash_taken (line : List Byte) (hashlen : Nat) (hash : Mem) :
    ∃ digits count, line = digits ++ (parseHash line hashlen hash).1 ∧ digits.length = 2 * count ∧
      (∀ ch ∈ digits, (hexValue ch).isSome = true) ∧
      (parseHash line hashlen hash).2.1 = hashlen + count ∧
      (parseHash line hashlen hash).2.2 = hash.write hashlen (spelled digits) := by
  fun_induction parseHash line hashlen hash with
  | case1 ch1 ch2 rest hashlen hash room hex1 hex2 value2 value1 ih =>
      obtain ⟨digits, count, line_eq, pairs, areDigits, taken, stored⟩ := ih
      refine ⟨ch1 :: ch2 :: digits, count + 1, ?_, ?_, ?_, ?_, ?_⟩
      · rw [List.cons_append, List.cons_append, ← line_eq]
      · rw [List.length_cons, List.length_cons, pairs]
        omega
      · rintro ch (_ | ⟨_, _ | ⟨_, member⟩⟩)
        · exact Option.isSome_iff_exists.2 ⟨hex1, value1⟩
        · exact Option.isSome_iff_exists.2 ⟨hex2, value2⟩
        · exact areDigits ch member
      · rw [taken]
        omega
      · have spells : spelled (ch1 :: ch2 :: digits) = BitVec.ofNat 8 (hex1 * 16 + hex2) :: spelled digits := by
          rw [spelled, hexDigits_cons_digit value1, hexDigits_cons_digit value2, spelledBy, Nat.mul_comm, spelled]
        rw [stored, spells, write_cons]
  | case2 | case3 | case4 =>
      exact ⟨[], 0, rfl, rfl, fun _ member => absurd member List.not_mem_nil, rfl, (write_nil _ _).symm⟩

variable {text name digest : List Byte}

theorem dropWhile_spaces (spaces : Nat) (noSpace : ∀ rest, name ≠ 0x20 :: rest) :
    (List.replicate spaces 0x20 ++ name).dropWhile (· == 0x20) = name := by
  induction spaces with
  | zero =>
      cases name with
      | nil => rfl
      | cons ch rest =>
          have apart : (ch == 0x20) = false := beq_false_of_ne fun same => noSpace rest (by rw [same])
          rw [List.replicate_zero, List.nil_append, List.dropWhile_cons, apart]
          rfl
  | succ spaces ih => exact ih

/-- A line that is well formed is parsed to its parts. -/
theorem parseLine_of_sumsLine (isLine : SumsLine text digest name) (hash : Mem) :
    parseLine text hash = (hash.write 0 digest, some name) := by
  obtain ⟨digits, spaces, rfl, pairs, areDigits, rfl⟩ := isLine.parts
  have parsed := parseHash_digits asconHashSize pairs areDigits (Nat.zero_add _)
    (List.replicate (spaces + 1) 0x20 ++ name) hash
  have space : (List.replicate (spaces + 1) 0x20 ++ name).headD 0 = 0x20 := rfl
  rw [parseLine, List.append_assoc, parsed]
  simp only [space, dropWhile_spaces (spaces + 1) isLine.noSpace, ne_eq, not_true_eq_false, or_self, if_false,
    isLine.named]

theorem length_spelled_digits {digits : List Byte} (pairs : digits.length = 2 * asconHashSize)
    (areDigits : ∀ ch ∈ digits, (hexValue ch).isSome = true) : (spelled digits).length = asconHashSize := by
  have all : (hexDigits digits).length = digits.length := by
    clear pairs
    induction digits with
    | nil => rfl
    | cons ch rest ih =>
        obtain ⟨digit, value⟩ := Option.isSome_iff_exists.1 (areDigits ch List.mem_cons_self)
        rw [hexDigits_cons_digit value, List.length_cons, List.length_cons,
          ih fun ch member => areDigits ch (List.mem_cons_of_mem _ member)]
  rw [spelled, length_spelledBy, all, pairs, Nat.mul_div_cancel_left _ (Nat.zero_lt_succ 1)]

theorem SumsLine.length_hash (isLine : SumsLine text digest name) : digest.length = asconHashSize := by
  obtain ⟨digits, _, _, pairs, areDigits, rfl⟩ := isLine.parts
  exact length_spelled_digits pairs areDigits

/-- A line that is parsed is well formed. -/
theorem sumsLine_of_parseLine {hash : Mem} (parsed : (parseLine text hash).2 = some name) :
    ∃ digest, SumsLine text digest name := by
  obtain ⟨digits, count, line_eq, pairs, areDigits, taken, -⟩ := parseHash_taken text 0 hash
  rw [parseLine] at parsed
  generalize parseHash text 0 hash = result at line_eq taken parsed
  obtain ⟨line, hashlen, hash'⟩ := result
  simp only at line_eq taken parsed
  by_cases malformed : line.headD 0 ≠ 0x20 ∨ hashlen ≠ asconHashSize
  · rw [if_pos malformed] at parsed
    exact nomatch parsed
  · rw [if_neg malformed] at parsed
    obtain ⟨space, whole⟩ := not_or.1 malformed
    simp only [ne_eq, not_not] at space whole
    by_cases empty : line.dropWhile (· == 0x20) = []
    · rw [if_pos empty] at parsed
      exact nomatch parsed
    · rw [if_neg empty] at parsed
      have isName : line.dropWhile (· == 0x20) = name := Option.some.inj parsed
      rcases line with _ | ⟨first, line⟩
      · exact absurd space (by decide)
      · have first_eq : first = 0x20 := space
        have spaces : (first :: line).takeWhile (· == 0x20) =
            List.replicate ((line.takeWhile (· == 0x20)).length + 1) 0x20 := by
          refine List.eq_replicate_iff.2 ⟨?_, fun ch member => ?_⟩
          · rw [first_eq, List.takeWhile_cons]
            rfl
          · exact eq_of_beq (List.mem_takeWhile_imp (p := (· == (0x20 : Byte))) member)
        refine ⟨spelled digits, ⟨digits, (line.takeWhile (· == 0x20)).length, ?_, by omega, areDigits, rfl⟩,
          isName ▸ empty, ?_⟩
        · rw [← spaces, ← isName, List.append_assoc, List.takeWhile_append_dropWhile]
          exact line_eq
        · intro rest starts
          have notSpace := List.head_dropWhile_not (· == (0x20 : Byte)) empty
          simp only [isName, starts, List.head_cons] at notSpace
          exact absurd notSpace (by decide)

theorem sumsLine_unique {digest' name' : List Byte} (first : SumsLine text digest name)
    (second : SumsLine text digest' name') : digest = digest' ∧ name = name' := by
  have parsed := (parseLine_of_sumsLine first fun _ => 0).symm.trans (parseLine_of_sumsLine second fun _ => 0)
  obtain ⟨hash, names⟩ := Prod.mk.inj parsed
  have length := first.length_hash.trans second.length_hash.symm
  refine ⟨?_, Option.some.inj names⟩
  rw [← read_write_same (fun _ => 0) 0 digest, hash, length, read_write_same]

theorem SumsLine.text_ne_nil (isLine : SumsLine text digest name) : text ≠ [] := by
  obtain ⟨digits, spaces, rfl, -⟩ := isLine.parts
  exact fun empty => isLine.named (List.append_eq_nil_iff.1 empty).2

end AsconSuite
