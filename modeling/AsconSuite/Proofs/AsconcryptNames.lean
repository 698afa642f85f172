/-
Module: AsconSuite.Proofs.AsconcryptNames
Layer: Proofs
Purpose: The file names of asconcrypt: which names count as encrypted, whether a name comes back from encryption and
  decryption, which indices the helpers use and which direction is found for a list of names.
Imports: AsconSuite.Apps.AsconcryptNames
Trusted boundary: none
Main exports: EndsInAscon, NameAsDocumented, DirectionAsDocumented, nameAsDocumented_iff, directionAsDocumented_iff,
  asconcrypt_names_iff
-/
import AsconSuite.Apps.AsconcryptNames

namespace AsconSuite

open ByteWord ByteMemory

/-- The name ends in `.ascon`. -/
def EndsInAscon (name : FileName) : Prop := ∃ front, name.chars = front ++ asconSuffix

/-- A text that ends in a byte of zero. -/
def HoldsText (temp : Mem) (chars : List Byte) : Prop :=
  temp.read 0 chars.length = chars ∧ temp chars.length = 0

/-! ### Encrypted names -/

theorem length_chars (name : FileName) : name.chars.length = name.length := length_read name.text 0 name.length

theorem six_le_of_endsInAscon {name : FileName} (ends : EndsInAscon name) : 6 ≤ name.length := by
  obtain ⟨front, chars⟩ := ends
  rw [← length_chars, chars, List.length_append]
  exact Nat.le_add_left 6 front.length

/-- The last six characters are compared. -/
theorem endsInAscon_iff {name : FileName} (long : 6 ≤ name.length) :
    EndsInAscon name ↔ name.text.read (name.length - 6) 6 = asconSuffix := by
  have split : name.chars = name.text.read 0 (name.length - 6) ++ name.text.read (name.length - 6) 6 := by
    rw [FileName.chars, ← Nat.sub_add_cancel long, read_add, Nat.zero_add, Nat.add_sub_cancel]
  constructor
  · rintro ⟨front, chars⟩
    rw [split] at chars
    exact (List.append_inj' chars (length_read _ _ _)).2
  · intro last
    exact ⟨_, split.trans (by rw [last])⟩

theorem isEncryptedFilename_of_long {name : FileName} (long : 6 ≤ name.length) :
    (isEncryptedFilename name).1 = true ↔ EndsInAscon name := by
  rw [isEncryptedFilename, if_pos long, endsInAscon_iff long, beq_iff_eq]

theorem isEncryptedFilename_of_short {name : FileName} (short : name.length < 6) :
    (isEncryptedFilename name).1 = true := by
  rw [isEncryptedFilename, if_neg (Nat.not_le_of_lt short)]

/-- A short name counts as encrypted though it does not end in `.ascon`. -/
theorem isEncryptedFilename_iff (name : FileName) :
    ((isEncryptedFilename name).1 = true ↔ EndsInAscon name) ↔ 6 ≤ name.length := by
  constructor
  · intro same
    by_contra short
    exact short (six_le_of_endsInAscon (same.1 (isEncryptedFilename_of_short (Nat.lt_of_not_le short))))
  · exact isEncryptedFilename_of_long

/-! ### Accesses -/

variable {name : FileName} {size : Nat}

theorem isEncryptedFilename_inBounds (name : FileName) (size : Nat) :
    ∀ access ∈ (isEncryptedFilename name).2, access.InBounds name size := by
  intro access member
  rw [isEncryptedFilename] at member
  split at member
  next long =>
    rcases List.mem_cons.1 member with rfl | last
    · exact Nat.le_of_eq (Nat.zero_add _)
    · rw [List.mem_singleton.1 last, NameAccess.InBounds]
      omega
  next =>
    rw [List.mem_singleton.1 member]
    exact Nat.le_of_eq (Nat.zero_add _)

theorem addSuffix_inBounds (some_room : 0 < size) (temp : Mem) (name : FileName) (suffix : List Byte) :
    ∀ access ∈ (addSuffix size temp name suffix).2, access.InBounds name size := by
  intro access member
  rcases List.mem_cons.1 member with rfl | last
  · exact Nat.le_of_eq (Nat.zero_add _)
  · rw [List.mem_singleton.1 last, NameAccess.InBounds, List.length_take]
    omega

/-- The length that `strip_suffix` takes for a name. -/
def strippedLength (size : Nat) (name : FileName) : Nat :=
  let len := (name.length + 2 ^ 64 - 6) % 2 ^ 64
  if size ≤ len then size else len

theorem stripSuffix_inBounds_iff (temp : Mem) :
    (∀ access ∈ (stripSuffix size temp name).2, access.InBounds name size) ↔
      strippedLength size name ≤ name.length + 1 ∧ strippedLength size name + 1 ≤ size := by
  have accesses : (stripSuffix size temp name).2 =
      [.readName 0 (name.length + 1), .readName 0 (strippedLength size name),
        .writeTemp 0 (strippedLength size name), .writeTemp (strippedLength size name) 1] := rfl
  rw [accesses]
  simp only [List.forall_mem_cons, NameAccess.InBounds, Nat.zero_add, Nat.le_refl, true_and, List.not_mem_nil,
    false_implies, implies_true, and_true]
  omega

/-- A name that is too short wraps around, and one that is too long loses a byte behind the buffer. -/
theorem strippedLength_fits_iff (small : size < 2 ^ 31) :
    (strippedLength size name ≤ name.length + 1 ∧ strippedLength size name + 1 ≤ size) ↔
      6 ≤ name.length ∧ name.length < size + 6 := by
  have isSize := name.isSize
  rw [strippedLength]
  by_cases long : 6 ≤ name.length
  · have wrapped : (name.length + 2 ^ 64 - 6) % 2 ^ 64 = name.length - 6 := by omega
    simp only [wrapped]
    split <;> omega
  · have wrapped : (name.length + 2 ^ 64 - 6) % 2 ^ 64 = name.length + 2 ^ 64 - 6 := by omega
    simp only [wrapped]
    split <;> omega

theorem strippedLength_of_fits (long : 6 ≤ name.length) (fits : name.length < size + 6) :
    strippedLength size name = name.length - 6 := by
  have isSize := name.isSize
  have wrapped : (name.length + 2 ^ 64 - 6) % 2 ^ 64 = name.length - 6 := by omega
  simp only [strippedLength, wrapped]
  exact if_neg (by omega)

/-! ### Texts in the buffer -/

theorem holdsText_store (temp : Mem) (chars : List Byte) :
    HoldsText ((temp.write 0 chars).store chars.length 0) chars := by
  constructor
  · rw [store_eq_write, read_write_apart _ _ _ (Or.inl (Nat.le_of_eq (Nat.zero_add _))), read_write_same]
  · exact if_pos rfl

/-- A suffix that fits is added whole. -/
theorem addSuffix_of_fits {suffix : List Byte} (fits : name.length + suffix.length < size) (temp : Mem) :
    (addSuffix size temp name suffix).1 =
      (temp.write 0 (name.chars ++ suffix)).store (name.chars ++ suffix).length 0 := by
  have whole : (name.chars ++ suffix).take (size - 1) = name.chars ++ suffix := by
    refine List.take_of_length_le ?_
    rw [List.length_append, length_chars]
    omega
  simp only [addSuffix, whole]

theorem ne_zero_of_mem_chars {b : Byte} (member : b ∈ name.chars) : b ≠ 0 := by
  obtain ⟨i, lt, rfl⟩ := List.mem_iff_getElem.1 member
  have place : i < name.length := by
    rw [← length_chars]
    exact lt
  have byte := getD_read name.text 0 place
  rw [← FileName.chars, List.getD_eq_getElem _ _ lt, Nat.zero_add] at byte
  rw [byte]
  exact name.inside i place

/-- The name that encryption derives, as a name that is given to the program again. -/
def encryptedFileName (name : FileName) (temp : Mem) (isSize : name.length + 6 < 2 ^ 64) : FileName where
  text := (temp.write 0 (name.chars ++ asconSuffix)).store (name.chars ++ asconSuffix).length 0
  length := (name.chars ++ asconSuffix).length
  ends := (holdsText_store temp (name.chars ++ asconSuffix)).2
  inside := by
    intro i lt
    have byte := getD_read ((temp.write 0 (name.chars ++ asconSuffix)).store (name.chars ++ asconSuffix).length 0) 0 lt
    rw [(holdsText_store temp (name.chars ++ asconSuffix)).1, List.getD_eq_getElem _ _ lt, Nat.zero_add] at byte
    rw [← byte]
    rcases List.mem_append.1 (List.getElem_mem lt) with front | suffix
    · exact ne_zero_of_mem_chars front
    · exact (by decide : ∀ b ∈ asconSuffix, b ≠ 0) _ suffix
  isSize := by
    rw [List.length_append, length_chars]
    exact isSize

/-- Decryption derives the original name from the name that encryption derives. -/
theorem outputName_comes_back (temp : Mem) (fits : name.length + 6 < size) (small : size < 2 ^ 31)
    (isFile : name.isStandardInput = false) :
    ∃ derived : FileName, (outputName size temp false name).1 = some derived.text ∧
      ∀ other, ∃ restored, (outputName size other true derived).1 = some restored ∧
        HoldsText restored name.chars := by
  let derived := encryptedFileName name temp (by omega)
  have chars : derived.chars = name.chars ++ asconSuffix := (holdsText_store temp _).1
  have length_eq : derived.length = name.length + 6 := by
    rw [← length_chars, chars, List.length_append, length_chars]
    rfl
  have made : (addSuffix size temp name asconSuffix).1 = derived.text := addSuffix_of_fits fits temp
  have long : 6 ≤ derived.length := by
    rw [length_eq]
    exact Nat.le_add_left 6 _
  have encrypted : (isEncryptedFilename derived).1 = true :=
    (isEncryptedFilename_of_long long).2 ⟨name.chars, chars⟩
  have notStdin : derived.isStandardInput = false := by
    rw [FileName.isStandardInput, beq_eq_false_iff_ne]
    intro same
    have short := congrArg List.length same
    rw [length_chars] at short
    rw [short] at long
    exact absurd long (by decide)
  have stripped : strippedLength size derived = name.length := by
    rw [strippedLength_of_fits long (by omega), length_eq, Nat.add_sub_cancel]
  have front : derived.text.read 0 name.length = name.chars := by
    have whole : derived.text.read 0 derived.length = name.chars ++ asconSuffix := chars
    rw [length_eq, read_add] at whole
    exact (List.append_inj whole (by rw [length_read, length_chars])).1
  refine ⟨derived, ?_, fun other => ⟨(stripSuffix size other derived).1, ?_, ?_⟩⟩
  · rw [outputName, isFile, ← made]
    rfl
  · rw [outputName, notStdin]
    simp only [Bool.false_eq_true, if_false, if_true, encrypted]
  · have buffer : (stripSuffix size other derived).1 =
        (other.write 0 (derived.text.read 0 (strippedLength size derived))).store (strippedLength size derived) 0 := rfl
    have restored := holdsText_store other name.chars
    rw [length_chars] at restored
    rw [buffer, stripped, front]
    exact restored

/-! ### Direction -/

/-- The direction for a file by itself. -/
def modeOf (encrypted : Bool) : CryptMode := if encrypted then .decrypt else .encrypt

/-- Once there is a direction, a name of the other kind makes a mixture. -/
theorem detectStep_modeOf (encrypted mixture : Bool) (name : FileName) :
    detectStep (modeOf encrypted, mixture) name =
      (modeOf encrypted, mixture || (isEncryptedFilename name).1 != encrypted) := by
  rw [detectStep]
  cases (isEncryptedFilename name).1 <;> cases encrypted <;> simp [modeOf]

theorem foldl_detectStep (encrypted : Bool) (names : List FileName) (mixture : Bool) :
    names.foldl detectStep (modeOf encrypted, mixture) =
      (modeOf encrypted, mixture || names.any fun name => (isEncryptedFilename name).1 != encrypted) := by
  induction names generalizing mixture with
  | nil => rw [List.foldl_nil, List.any_nil, Bool.or_false]
  | cons name rest ih => rw [List.foldl_cons, detectStep_modeOf, ih, List.any_cons, Bool.or_assoc]

/-- The first name decides, and all others have to agree. -/
theorem detectMode_cons (first : FileName) (rest : List FileName) :
    detectMode (first :: rest) =
      if rest.all fun name => (isEncryptedFilename name).1 == (isEncryptedFilename first).1
      then some (modeOf (isEncryptedFilename first).1) else none := by
  have start : detectStep (.detect, false) first = (modeOf (isEncryptedFilename first).1, false) := by
    rw [detectStep]
    cases (isEncryptedFilename first).1 <;> rfl
  rw [detectMode, List.foldl_cons, start, foldl_detectStep, Bool.false_or, List.all_eq_not_any_not]
  change (if (rest.any fun name => (isEncryptedFilename name).1 != (isEncryptedFilename first).1) = true
    then none else _) = _
  by_cases differs : (rest.any fun name => (isEncryptedFilename name).1 != (isEncryptedFilename first).1) = true
  · rw [if_pos differs, if_neg]
    exact fun agree => Bool.false_ne_true ((congrArg (!·) differs).symm.trans agree)
  · rw [if_neg differs, if_pos]
    exact congrArg (!·) (Bool.eq_false_iff.2 differs)

/-- A direction is found when all names are of its kind. -/
theorem detectMode_eq_some_iff (first : FileName) (rest : List FileName) (encrypted : Bool) :
    detectMode (first :: rest) = some (modeOf encrypted) ↔
      ∀ name ∈ first :: rest, (isEncryptedFilename name).1 = encrypted := by
  have injective : ∀ a b, modeOf a = modeOf b → a = b := by decide
  rw [detectMode_cons]
  constructor
  · intro found
    split at found
    next agree =>
      have kind := injective _ _ (Option.some.inj found)
      rintro name (_ | ⟨_, member⟩)
      · exact kind
      · exact (beq_iff_eq.1 (List.all_eq_true.1 agree name member)).trans kind
    next => nomatch found
  · intro all
    have kind := all first List.mem_cons_self
    rw [kind, if_pos]
    exact List.all_eq_true.2 fun name member => beq_iff_eq.2 (all name (List.mem_cons_of_mem first member))

theorem isEncryptedFilename_eq_true_iff (name : FileName) :
    (isEncryptedFilename name).1 = true ↔ EndsInAscon name ∨ name.length < 6 := by
  by_cases long : 6 ≤ name.length
  · rw [isEncryptedFilename_of_long long, or_iff_left (Nat.not_lt_of_le long)]
  · exact iff_of_true (isEncryptedFilename_of_short (Nat.lt_of_not_le long)) (Or.inr (Nat.lt_of_not_le long))

theorem isEncryptedFilename_eq_false_iff (name : FileName) :
    (isEncryptedFilename name).1 = false ↔ ¬EndsInAscon name ∧ 6 ≤ name.length := by
  rw [← Bool.not_eq_true, isEncryptedFilename_eq_true_iff, not_or, Nat.not_lt]

/-! ### Names as documented -/

/-- What is expected of one name: it is told by its suffix, it comes back from encryption and decryption when it fits
the buffer, and all indices are inside of it and of the buffer. -/
structure NameAsDocumented (buffer : NameBuffer) (temp : Mem) (name : FileName) : Prop where
  encrypted : (isEncryptedFilename name).1 = true ↔ EndsInAscon name
  comesBack : name.length + 6 < buffer.size → name.isStandardInput = false →
    ∃ derived : FileName, (outputName buffer.size temp false name).1 = some derived.text ∧
      ∀ other, ∃ restored, (outputName buffer.size other true derived).1 = some restored ∧
        HoldsText restored name.chars
  inBounds : ∀ decrypt, ∀ access ∈ (outputName buffer.size temp decrypt name).2, access.InBounds name buffer.size

/-- What is expected of the names on the command line when no direction is given: they are decrypted when all of them
end in `.ascon`, encrypted when none of them does, and refused otherwise. -/
structure DirectionAsDocumented (names : List FileName) : Prop where
  decrypts : detectMode names = some .decrypt ↔ ∀ name ∈ names, EndsInAscon name
  encrypts : detectMode names = some .encrypt ↔ ∀ name ∈ names, ¬EndsInAscon name
  refuses : detectMode names = none ↔ (∃ name ∈ names, EndsInAscon name) ∧ ∃ name ∈ names, ¬EndsInAscon name

theorem outputName_inBounds_iff (buffer : NameBuffer) (temp : Mem) (long : 6 ≤ name.length) :
    (∀ decrypt, ∀ access ∈ (outputName buffer.size temp decrypt name).2, access.InBounds name buffer.size) ↔
      (EndsInAscon name → name.length < buffer.size + 6) := by
  have compared : ∀ access ∈ [NameAccess.readName 0 (min (name.length + 1) 2)],
      access.InBounds name buffer.size := by
    intro access member
    rw [List.mem_singleton.1 member, NameAccess.InBounds, Nat.zero_add]
    exact Nat.min_le_left _ _
  constructor
  · intro inside ends
    have encrypted := (isEncryptedFilename_of_long long).2 ends
    have isFile : name.isStandardInput = false := by
      rw [FileName.isStandardInput, beq_eq_false_iff_ne]
      intro same
      have short := congrArg List.length same
      rw [length_chars] at short
      rw [short] at long
      exact absurd long (by decide)
    refine ((strippedLength_fits_iff buffer.isInt).1 ((stripSuffix_inBounds_iff temp).1 ?_)).2
    intro access member
    refine inside true access ?_
    rw [outputName, isFile]
    simp only [Bool.false_eq_true, if_false, if_true, encrypted]
    exact List.mem_append_right _ member
  · intro fits decrypt access member
    rw [outputName] at member
    split at member
    next => exact compared access member
    next =>
      split at member
      next =>
        simp only at member
        split at member
        next encrypted =>
          rcases List.mem_append.1 member with before | stripped
          · rcases List.mem_append.1 before with first | test
            · exact compared access first
            · exact isEncryptedFilename_inBounds name buffer.size access test
          · have ends := (isEncryptedFilename_of_long long).1 encrypted
            exact (stripSuffix_inBounds_iff temp).2
              ((strippedLength_fits_iff buffer.isInt).2 ⟨long, fits ends⟩) access stripped
        next =>
          rcases List.mem_append.1 member with before | added
          · rcases List.mem_append.1 before with first | test
            · exact compared access first
            · exact isEncryptedFilename_inBounds name buffer.size access test
          · exact addSuffix_inBounds (Nat.lt_of_lt_of_le (by decide) buffer.large) temp name decryptedSuffix access added
      next =>
        rcases List.mem_append.1 member with first | added
        · exact compared access first
        · exact addSuffix_inBounds (Nat.lt_of_lt_of_le (by decide) buffer.large) temp name asconSuffix access added

theorem nameAsDocumented_iff (buffer : NameBuffer) (temp : Mem) (name : FileName) :
    NameAsDocumented buffer temp name ↔
      6 ≤ name.length ∧ (EndsInAscon name → name.length < buffer.size + 6) := by
  constructor
  · intro documented
    have long := (isEncryptedFilename_iff name).1 documented.encrypted
    exact ⟨long, (outputName_inBounds_iff buffer temp long).1 documented.inBounds⟩
  · rintro ⟨long, fits⟩
    exact {
      encrypted := isEncryptedFilename_of_long long
      comesBack := fun fits isFile => outputName_comes_back temp fits buffer.isInt isFile
      inBounds := (outputName_inBounds_iff buffer temp long).2 fits }

/-- Short names change the direction, except where a longer name without the suffix stands beside a name that has it. -/
theorem directionAsDocumented_iff (first : FileName) (rest : List FileName) :
    DirectionAsDocumented (first :: rest) ↔
      (∀ name ∈ first :: rest, 6 ≤ name.length) ∨
        ((∃ name ∈ first :: rest, EndsInAscon name) ∧
          ∃ name ∈ first :: rest, 6 ≤ name.length ∧ ¬EndsInAscon name) := by
  have decrypts := detectMode_eq_some_iff first rest true
  have encrypts := detectMode_eq_some_iff first rest false
  simp only [modeOf, if_true, Bool.false_eq_true, if_false, isEncryptedFilename_eq_true_iff,
    isEncryptedFilename_eq_false_iff] at decrypts encrypts
  constructor
  · intro documented
    by_contra neither
    obtain ⟨someShort, noMixture⟩ := not_or.1 neither
    obtain ⟨short, shortMember, isShort⟩ : ∃ name ∈ first :: rest, name.length < 6 := by
      by_contra none
      exact someShort fun name member => Nat.le_of_not_lt fun lt => none ⟨name, member, lt⟩
    have shortPlain : ¬EndsInAscon short := fun ends =>
      absurd (six_le_of_endsInAscon ends) (Nat.not_le_of_lt isShort)
    by_cases someEnds : ∃ name ∈ first :: rest, EndsInAscon name
    · -- no longer name lacks the suffix, so all names count as encrypted
      have all : ∀ name ∈ first :: rest, EndsInAscon name ∨ name.length < 6 := by
        intro name member
        by_contra other
        obtain ⟨plain, long⟩ := not_or.1 other
        exact noMixture ⟨someEnds, name, member, Nat.le_of_not_lt long, plain⟩
      exact shortPlain (documented.decrypts.1 (decrypts.2 all) short shortMember)
    · have none : ∀ name ∈ first :: rest, ¬EndsInAscon name := fun name member ends =>
        someEnds ⟨name, member, ends⟩
      have long := (encrypts.1 (documented.encrypts.2 none) short shortMember).2
      exact absurd long (Nat.not_le_of_lt isShort)
  · intro condition
    have decrypts' : detectMode (first :: rest) = some .decrypt ↔ ∀ name ∈ first :: rest, EndsInAscon name := by
      rw [decrypts]
      refine ⟨fun all => ?_, fun all name member => Or.inl (all name member)⟩
      rcases condition with long | ⟨-, plain, member, long, notEnds⟩
      · exact fun name member => (all name member).resolve_right (Nat.not_lt_of_le (long name member))
      · exact absurd ((all plain member).resolve_right (Nat.not_lt_of_le long)) notEnds
    have encrypts' : detectMode (first :: rest) = some .encrypt ↔ ∀ name ∈ first :: rest, ¬EndsInAscon name := by
      rw [encrypts]
      refine ⟨fun all name member => (all name member).1, fun all name member => ⟨all name member, ?_⟩⟩
      rcases condition with long | ⟨⟨ending, member', ends⟩, -⟩
      · exact long name member
      · exact absurd ends (all ending member')
    refine ⟨decrypts', encrypts', ?_⟩
    have found : detectMode (first :: rest) = none ↔
        detectMode (first :: rest) ≠ some .decrypt ∧ detectMode (first :: rest) ≠ some .encrypt := by
      rw [detectMode_cons]
      split
      next => cases (isEncryptedFilename first).1 <;> simp [modeOf]
      next => simp
    rw [found, ne_eq, ne_eq, decrypts', encrypts', and_comm]
    push Not
    rfl

/-- The names of asconcrypt are as documented where no name is shorter than the suffix and no encrypted name is
longer than the buffer by more than the suffix without its end. -/
theorem asconcrypt_names_iff (buffer : NameBuffer) (temp : Mem) (name first : FileName) (rest : List FileName) :
    (NameAsDocumented buffer temp name ↔
      6 ≤ name.length ∧ (EndsInAscon name → name.length < buffer.size + 6)) ∧
    (DirectionAsDocumented (first :: rest) ↔
      (∀ name ∈ first :: rest, 6 ≤ name.length) ∨
        ((∃ name ∈ first :: rest, EndsInAscon name) ∧
          ∃ name ∈ first :: rest, 6 ≤ name.length ∧ ¬EndsInAscon name)) :=
  ⟨nameAsDocumented_iff buffer temp name, directionAsDocumented_iff first rest⟩

/-- The name of standard input. -/
def standardInput : FileName where
  text := fun i => if i = 0 then 0x2D else 0
  length := 1
  ends := rfl
  inside := by
    intro i lt
    rw [Nat.lt_one_iff.1 lt]
    decide
  isSize := by decide

/-- Standard input counts as encrypted, and is decrypted when no direction is given. -/
theorem standard_input_is_decrypted :
    ¬((∀ buffer temp name, NameAsDocumented buffer temp name) ∧
      ∀ first rest, DirectionAsDocumented (first :: rest)) := by
  rintro ⟨-, direction⟩
  have found : detectMode [standardInput] = some .decrypt := by decide
  have ends := (direction standardInput []).decrypts.1 found standardInput List.mem_cons_self
  exact absurd (six_le_of_endsInAscon ends) (by decide)

end AsconSuite
