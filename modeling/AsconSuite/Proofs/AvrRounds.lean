/-
Module: AsconSuite.Proofs.AvrRounds
Layer: Proofs
Purpose: The layers of a round as the AVR code computes them, on words: the S-box on the eight columns of bytes, and the
  linear layer word by word.
Imports: AsconSuite.Proofs.AvrSubstitution, AsconSuite.Proofs.AvrSwapmove, AsconSuite.Proofs.InputBytes
Trusted boundary: none (fully proved)
Main exports: Avr.regWord, Avr.memWord, Avr.Slices, Avr.wp_genSubstitution, Avr.wp_asconDiffuse, Avr.wp_genRound
-/
import AsconSuite.Proofs.AvrSubstitution
import AsconSuite.Proofs.AvrSwapmove
import AsconSuite.Proofs.InputBytes

namespace AsconSuite.Avr

open ByteWord ByteMemory ByteNumber BitStrings
open Emit (Target)
open Emit.Target

variable {code code' : Code} {s s' : AVRState} {Q : Unit → Code → AVRState → Prop}

/-! ### Words -/

theorem number_div_mod (bytes : List Byte) (i : Nat) : number bytes / 256 ^ i % 256 = (bytes.getD i 0#8).toNat := by
  induction bytes generalizing i with
  | nil => rw [number_nil, Nat.zero_div]; rfl
  | cons b rest ih =>
      have small := b.isLt
      rw [number_cons]
      cases i with
      | zero =>
          rw [Nat.pow_zero, Nat.div_one, List.getD_cons_zero]
          omega
      | succ i =>
          have behind : (b.toNat + 256 * number rest) / 256 = number rest := by omega
          rw [Nat.pow_succ, Nat.mul_comm (256 ^ i), ← Nat.div_div_eq_div_mul, behind, List.getD_cons_succ, ih]

/-- The word in eight registers, low byte first. -/
def regWord (s : AVRState) (reg : Reg) : Word := BitVec.ofNat 64 (regNat s reg)

/-- A word of the state behind `base`, in big-endian order. -/
def memWord (s : AVRState) (base word : Nat) : Word := beLoadWord64 (s.memory.view (base + asconWord word))

theorem regNat_lt_word (s : AVRState) {reg : Reg} (size : reg.length = 8) : regNat s reg < 2 ^ 64 := by
  have small := regNat_lt s reg
  rwa [size] at small

theorem toNat_regWord (s : AVRState) {reg : Reg} (size : reg.length = 8) : (regWord s reg).toNat = regNat s reg := by
  rw [regWord, BitVec.toNat_ofNat, Nat.mod_eq_of_lt (regNat_lt_word s size)]

theorem byteOf_regWord (s : AVRState) {reg : Reg} (size : reg.length = 8) {i : Nat} (isByte : i < 8) :
    byteOf (regWord s reg) (7 - i) = s.r (reg.reg i) := by
  apply BitVec.eq_of_toNat_eq
  have place : 8 * (7 - (7 - i)) = 8 * i := by omega
  have inside : i < (reg.map s.r).length := by rwa [List.length_map, size]
  rw [byteOf, BitVec.extractLsb'_toNat, toNat_regWord s size, place, Nat.shiftRight_eq_div_pow, Nat.pow_mul]
  refine (number_div_mod (reg.map s.r) i).trans ?_
  rw [List.getD_eq_getElem _ _ inside, List.getElem_map, Reg.reg_eq_getElem]

theorem byteOf_memWord (s : AVRState) (base word : Nat) {i : Nat} (isByte : i < 8) :
    byteOf (memWord s base word) (7 - i) = s.memory (base + asconByte word i) := by
  have address : base + asconWord word + (7 - i) = base + asconByte word i := by
    rw [asconWord, asconByte]
    omega
  rw [memWord, byteOf_beLoadWord64 _ (by omega), view_apply, address]

/-- Words with the same bytes, counted from the low byte. -/
theorem word_ext {x y : Word} (same : ∀ i < 8, byteOf x (7 - i) = byteOf y (7 - i)) : x = y := by
  refine byteOf_ext fun j isByte => ?_
  have byte := same (7 - j) (by omega)
  have back : 7 - (7 - j) = j := by omega
  rwa [back] at byte

theorem wordBits_regWord (s : AVRState) {reg : Reg} (size : reg.length = 8) : wordBits (regWord s reg) = regBits s reg := by
  have bits := wordBits_regValue s reg
  rw [regValue, size] at bits
  exact bits

theorem regWord_congr {reg : Reg} (same : ∀ r ∈ reg, s'.r r = s.r r) : regWord s' reg = regWord s reg :=
  congrArg (BitVec.ofNat 64) (regNat_congr same)

theorem regWord_rotated {reg : Reg} {bits : Nat} (size : reg.length = 8) (rotated : BitsRight reg bits s s') :
    regWord s' reg = (regWord s reg).rotateRight bits := by
  apply wordBits_inj
  rw [wordBits_rotateRight, wordBits_regWord s' size, wordBits_regWord s size]
  exact rotated

theorem regWord_xor {reg other : Reg} (xored : regNat s' reg = regNat s reg ^^^ regNat s other) :
    regWord s' reg = regWord s reg ^^^ regWord s other := by
  rw [regWord, xored, BitVec.ofNat_xor]
  rfl

/-- The byte of a word of the S-box is the S-box of the bytes. -/
theorem byteOf_substituted (x : Five Word) {i : Nat} (isByte : i < 8) :
    (⟨byteOf (substituted x).w0 (7 - i), byteOf (substituted x).w1 (7 - i), byteOf (substituted x).w2 (7 - i),
      byteOf (substituted x).w3 (7 - i), byteOf (substituted x).w4 (7 - i)⟩ : Five Byte) =
    substituted ⟨byteOf x.w0 (7 - i), byteOf x.w1 (7 - i), byteOf x.w2 (7 - i), byteOf x.w3 (7 - i),
      byteOf x.w4 (7 - i)⟩ := by
  have lower : 7 - i < 8 := by omega
  simp only [substituted, byteOf_xor, byteOf_or, byteOf_and, byteOf_not _ lower]

/-! ### The registers of two words -/

/-- The registers of `x2` and `x4`. -/
structure Slices (x2 x4 : Reg) (code : Code) : Prop where
  nodup : (x2 ++ x4).Nodup
  owned : Owned code (x2 ++ x4)
  low : Low (x2 ++ x4)
  size2 : x2.length = 8
  size4 : x4.length = 8

theorem Slices.kept {x2 x4 : Reg} {written : List Nat} (slices : Slices x2 x4 code) (kept : Kept written code s code' s') :
    Slices x2 x4 code' := ⟨slices.nodup, slices.owned.kept kept, slices.low, slices.size2, slices.size4⟩

theorem Reg.subset_one {reg : Reg} {i : Nat} (inside : i < reg.length) : Reg.subset reg i 1 = [reg.reg i] := by
  have size : reg.size = reg.length := rfl
  have one : min 1 reg.length = 1 := by omega
  rw [Reg.subset, size, if_neg (by omega), if_neg (by decide), one]
  have index : (i + 0) % reg.length = i := by rw [Nat.add_zero, Nat.mod_eq_of_lt inside]
  dsimp only
  rw [List.range_one, List.map_singleton, index]

/-- The machine behind the round constant: the words of the state, with `x2` and `x4` in registers. -/
def roundInput (s : AVRState) (base : Nat) (x2 x4 : Reg) : AsconState :=
  ⟨memWord s base 0, memWord s base 1, regWord s x2, memWord s base 3, regWord s x4⟩

/-- The words behind the S-box: the first one is in the registers of `x2`. -/
def sboxOutput (s : AVRState) (base : Nat) (x2 : Reg) : AsconState :=
  ⟨regWord s x2, memWord s base 1, memWord s base 2, memWord s base 3, memWord s base 4⟩

/-- The bytes of a column of the state. -/
def inputColumn (s : AVRState) (base : Nat) (x2 x4 : Reg) (i : Nat) : Five Byte :=
  column s base i (x2.reg i) (x4.reg i)

/-- The bytes of a column behind the S-box. -/
def outputColumn (s : AVRState) (base : Nat) (x2 : Reg) (i : Nat) : Five Byte :=
  ⟨s.r (x2.reg i), s.memory (base + asconByte 1 i), s.memory (base + asconByte 2 i), s.memory (base + asconByte 3 i),
    s.memory (base + asconByte 4 i)⟩

theorem asconByte_inj {word word' i j : Nat} (isByte : i < 8) (isByte' : j < 8)
    (same : asconByte word i = asconByte word' j) : word = word' ∧ i = j := by
  rw [asconByte, asconByte] at same
  omega

/-- A register of one of the words is none of the others. -/
theorem Slices.apart {x2 x4 : Reg} (slices : Slices x2 x4 code) {i j : Nat} (inside : i < 8) (inside' : j < 8)
    (other : i ≠ j) : (x2.reg i ≠ x2.reg j ∧ x2.reg i ≠ x4.reg j) ∧ x4.reg i ≠ x2.reg j ∧ x4.reg i ≠ x4.reg j := by
  obtain ⟨nodup2, nodup4, disjoint⟩ := List.nodup_append.1 slices.nodup
  have mem2 {k : Nat} (below : k < 8) : x2.reg k ∈ x2 := Reg.reg_mem (by rwa [slices.size2])
  have mem4 {k : Nat} (below : k < 8) : x4.reg k ∈ x4 := Reg.reg_mem (by rwa [slices.size4])
  refine ⟨⟨?_, ?_⟩, ?_, ?_⟩
  · exact Reg.reg_ne nodup2 (by rwa [slices.size2]) (by rwa [slices.size2]) other
  · exact disjoint _ (mem2 inside) _ (mem4 inside')
  · exact (disjoint _ (mem2 inside') _ (mem4 inside)).symm
  · exact Reg.reg_ne nodup4 (by rwa [slices.size4]) (by rwa [slices.size4]) other

/-- One column goes through the S-box, and the others stay. -/
theorem wp_oneColumn {base : Nat} {x2 x4 : Reg} {i : Nat} (slices : Slices x2 x4 code) (stage : Stage base code s)
    (isByte : i < 8) :
    target.wp (asconSubstitute i (x2.subset i 1) (x4.subset i 1)) (fun _ code' s' =>
      Kept (x2 ++ x4) code s code' s' ∧ Stage base code' s' ∧
      outputColumn s' base x2 i = substituted (inputColumn s base x2 x4 i) ∧
      ∀ j < 8, j ≠ i → outputColumn s' base x2 j = outputColumn s base x2 j ∧
        inputColumn s' base x2 x4 j = inputColumn s base x2 x4 j) code s := by
  have inside2 : i < x2.length := by rwa [slices.size2]
  have inside4 : i < x4.length := by rwa [slices.size4]
  have mem2 : x2.reg i ∈ x2 ++ x4 := List.mem_append_left x4 (Reg.reg_mem inside2)
  have mem4 : x4.reg i ∈ x2 ++ x4 := List.mem_append_right x2 (Reg.reg_mem inside4)
  have other : x2.reg i ≠ x4.reg i :=
    (List.nodup_append.1 slices.nodup).2.2 _ (Reg.reg_mem inside2) _ (Reg.reg_mem inside4)
  rw [Reg.subset_one inside2, Reg.subset_one inside4]
  refine wp_mono (wp_asconSubstitute isByte stage (slices.owned _ mem2) (slices.owned _ mem4) other (slices.low _ mem2)
    (slices.low _ mem4)) ?_
  rintro _ code' s' ⟨kept, stage', value, memory⟩
  rw [← store_eq_write, ← store_eq_write, ← store_eq_write, ← store_eq_write] at memory
  have stored (word j : Nat) (isByte' : j < 8) : s'.memory (base + asconByte word j) =
      if word = 2 ∧ j = i then (substituted (inputColumn s base x2 x4 i)).w2
      else if word = 1 ∧ j = i then (substituted (inputColumn s base x2 x4 i)).w1
      else if word = 4 ∧ j = i then (substituted (inputColumn s base x2 x4 i)).w4
      else if word = 3 ∧ j = i then (substituted (inputColumn s base x2 x4 i)).w3
      else s.memory (base + asconByte word j) := by
    have place (word' : Nat) : base + asconByte word j = base + asconByte word' i ↔ word = word' ∧ j = i := by
      rw [Nat.add_left_cancel_iff]
      constructor
      · exact asconByte_inj isByte' isByte
      · rintro ⟨rfl, rfl⟩
        rfl
    rw [memory]
    simp only [Mem.store, place]
    rfl
  have untouched (word j : Nat) (isByte' : j < 8) (different : j ≠ i) :
      s'.memory (base + asconByte word j) = s.memory (base + asconByte word j) := by
    rw [stored word j isByte', if_neg fun same => different same.2, if_neg fun same => different same.2,
      if_neg fun same => different same.2, if_neg fun same => different same.2]
  have same2 (j : Nat) (isByte' : j < 8) (different : j ≠ i) : s'.r (x2.reg j) = s.r (x2.reg j) := by
    have inside : j < x2.length := by rwa [slices.size2]
    refine kept.others _ (Or.inl (slices.owned _ (List.mem_append_left x4 (Reg.reg_mem inside)))) fun member => ?_
    obtain ⟨⟨apart2, apart4⟩, -⟩ := slices.apart isByte' isByte different
    rcases List.mem_cons.1 member with same | last
    · exact apart2 same
    · exact apart4 (List.mem_singleton.1 last)
  have same4 (j : Nat) (isByte' : j < 8) (different : j ≠ i) : s'.r (x4.reg j) = s.r (x4.reg j) := by
    have inside : j < x4.length := by rwa [slices.size4]
    refine kept.others _ (Or.inl (slices.owned _ (List.mem_append_right x2 (Reg.reg_mem inside)))) fun member => ?_
    obtain ⟨-, apart2, apart4⟩ := slices.apart isByte' isByte different
    rcases List.mem_cons.1 member with same | last
    · exact apart2 same
    · exact apart4 (List.mem_singleton.1 last)
  refine ⟨kept.mono fun r member => ?_, stage', ?_, fun j isByte' different => ⟨?_, ?_⟩⟩
  · rcases List.mem_cons.1 member with rfl | last
    · exact mem2
    · rw [List.mem_singleton.1 last]
      exact mem4
  · rw [outputColumn, value, stored 1 i isByte, stored 2 i isByte, stored 3 i isByte, stored 4 i isByte]
    simp [inputColumn]
  · rw [outputColumn, outputColumn, same2 j isByte' different, untouched 1 j isByte' different,
      untouched 2 j isByte' different, untouched 3 j isByte' different, untouched 4 j isByte' different]
  · rw [inputColumn, inputColumn, column, column, same2 j isByte' different, same4 j isByte' different,
      untouched 0 j isByte' different, untouched 1 j isByte' different, untouched 3 j isByte' different]

/-- All columns go through the S-box. -/
theorem wp_columns {base : Nat} {x2 x4 : Reg} (slices : Slices x2 x4 code) (stage : Stage base code s) :
    target.wp ((List.range 8).forM fun index => asconSubstitute index (x2.subset index 1) (x4.subset index 1))
      (fun _ code' s' => Kept (x2 ++ x4) code s code' s' ∧ Stage base code' s' ∧
        ∀ i < 8, outputColumn s' base x2 i = substituted (inputColumn s base x2 x4 i)) code s := by
  refine wp_mono (wp_forM (fun done code' s' => Kept (x2 ++ x4) code s code' s' ∧ Stage base code' s' ∧
    ∀ i < 8, (i ∈ done → outputColumn s' base x2 i = substituted (inputColumn s base x2 x4 i)) ∧
      (i ∉ done → inputColumn s' base x2 x4 i = inputColumn s base x2 x4 i)) ?_ ?_) ?_
  · exact ⟨Kept.refl stage.ready, stage, fun i _ => ⟨fun member => absurd member List.not_mem_nil, fun _ => rfl⟩⟩
  · rintro done index rest parts code₁ s₁ ⟨kept₁, stage₁, columns⟩
    have isByte : index < 8 := by
      rw [← List.mem_range, parts]
      exact List.mem_append_right done List.mem_cons_self
    have fresh : index ∉ done := by
      have nodup : (List.range 8).Nodup := List.nodup_range
      rw [parts] at nodup
      exact fun member => (List.nodup_append.1 nodup).2.2 index member index List.mem_cons_self rfl
    refine wp_mono (wp_oneColumn (slices.kept kept₁) stage₁ isByte) ?_
    rintro _ code₂ s₂ ⟨kept₂, stage₂, result, others⟩
    refine ⟨kept₁.trans slices.owned.bytes kept₂, stage₂, fun i isByte' => ?_⟩
    obtain ⟨finished, waiting⟩ := columns i isByte'
    by_cases here : i = index
    · subst here
      refine ⟨fun _ => ?_, fun notDone => absurd (List.mem_append_right done (List.mem_singleton_self i)) notDone⟩
      rw [result, waiting fresh]
    · obtain ⟨output, input⟩ := others i isByte' here
      refine ⟨fun member => ?_, fun notDone => ?_⟩
      · rcases List.mem_append.1 member with before | last
        · rw [output, finished before]
        · exact absurd (List.mem_singleton.1 last) here
      · rw [input, waiting fun member => notDone (List.mem_append_left [index] member)]
  · rintro _ code' s' ⟨kept, stage', columns⟩
    exact ⟨kept, stage', fun i isByte => (columns i isByte).1 (List.mem_range.2 isByte)⟩

/-- Columns of bytes are columns of words. -/
theorem sboxOutput_eq {base : Nat} {x2 x4 : Reg} (slices : Slices x2 x4 code)
    (columns : ∀ i < 8, outputColumn s' base x2 i = substituted (inputColumn s base x2 x4 i)) :
    sboxOutput s' base x2 = substituted (roundInput s base x2 x4) := by
  have bytes (i : Nat) (isByte : i < 8) : outputColumn s' base x2 i =
      ⟨byteOf (substituted (roundInput s base x2 x4)).w0 (7 - i), byteOf (substituted (roundInput s base x2 x4)).w1 (7 - i),
        byteOf (substituted (roundInput s base x2 x4)).w2 (7 - i), byteOf (substituted (roundInput s base x2 x4)).w3 (7 - i),
        byteOf (substituted (roundInput s base x2 x4)).w4 (7 - i)⟩ := by
    rw [byteOf_substituted _ isByte, columns i isByte, inputColumn, column, roundInput,
      byteOf_memWord s base 0 isByte, byteOf_memWord s base 1 isByte, byteOf_memWord s base 3 isByte,
      byteOf_regWord s slices.size2 isByte, byteOf_regWord s slices.size4 isByte]
  generalize substituted (roundInput s base x2 x4) = result at bytes
  obtain ⟨y0, y1, y2, y3, y4⟩ := result
  rw [sboxOutput, Five.mk.injEq]
  refine ⟨?_, ?_, ?_, ?_, ?_⟩
  · refine word_ext fun i isByte => ?_
    rw [byteOf_regWord s' slices.size2 isByte]
    exact congrArg Five.w0 (bytes i isByte)
  · refine word_ext fun i isByte => ?_
    rw [byteOf_memWord s' base 1 isByte]
    exact congrArg Five.w1 (bytes i isByte)
  · refine word_ext fun i isByte => ?_
    rw [byteOf_memWord s' base 2 isByte]
    exact congrArg Five.w2 (bytes i isByte)
  · refine word_ext fun i isByte => ?_
    rw [byteOf_memWord s' base 3 isByte]
    exact congrArg Five.w3 (bytes i isByte)
  · refine word_ext fun i isByte => ?_
    rw [byteOf_memWord s' base 4 isByte]
    exact congrArg Five.w4 (bytes i isByte)

theorem memWord_congr (same : s'.memory = s.memory) (base word : Nat) : memWord s' base word = memWord s base word := by
  rw [memWord, memWord, same]

/-- The substitution layer, with the round constant. -/
theorem wp_genSubstitution {base round : Nat} {x2 x4 : Reg} (slices : Slices x2 x4 code) (stage : Stage base code s)
    (apart : round ∉ x2 ++ x4) :
    target.wp (genSubstitution [round] x2 x4) (fun _ code' s' => Kept (x2 ++ x4) code s code' s' ∧ Stage base code' s' ∧
      sboxOutput s' base x2 = substituted { roundInput s base x2 x4 with
        w2 := regWord s x2 ^^^ BitVec.ofNat 64 (s.r round).toNat }) code s := by
  obtain ⟨nodup2, -, disjoint⟩ := List.nodup_append.1 slices.nodup
  have one : ([round] : Reg).length ≤ x2.length := by
    rw [slices.size2]
    exact (by decide : 1 ≤ 8)
  refine wp_bind (wp_mono (wp_logxor nodup2 (fun r member isRound => ?_) one) ?_)
  · rw [List.mem_singleton.1 isRound] at member
    exact apart (List.mem_append_left x4 member)
  rintro _ code₁ s₁ ⟨exact₁, xored⟩
  have same4 : regWord s₁ x4 = regWord s x4 := regWord_congr fun r member =>
    exact₁.others r fun isX2 => disjoint r isX2 r member rfl
  have exact₁ : Exact (x2 ++ x4) code s code₁ s₁ := exact₁.mono fun r member => List.mem_append_left x4 member
  have kept₁ := exact₁.owned slices.owned stage.ready
  have stage₁ := stage.kept kept₁ slices.owned.bytes (exact₁.pointer slices.low)
  refine wp_mono (wp_columns (slices.kept kept₁) stage₁) ?_
  rintro _ code' s' ⟨kept', stage', columns⟩
  refine ⟨kept₁.trans slices.owned.bytes kept', stage', ?_⟩
  have memory := exact₁.memory
  rw [sboxOutput_eq slices columns, roundInput, roundInput, memWord_congr memory, memWord_congr memory,
    memWord_congr memory, same4, regWord_xor xored]
  rfl

/-! ### Words of the state -/

theorem Reg.reg_reversed {reg : Reg} (size : reg.length = 8) {i : Nat} (isByte : i < 8) :
    Reg.reg reg.reversed (7 - i) = reg.reg i := by
  have inside : i < reg.length := by omega
  have inside' : 7 - i < reg.reverse.length := by
    rw [List.length_reverse]
    omega
  rw [Reg.reversed, Reg.reg_eq_getElem inside', Reg.reg_eq_getElem inside, List.getElem_reverse]
  congr 1
  omega

/-- A word in registers that the caller owns. -/
structure WordReg (x : Reg) (code : Code) : Prop where
  nodup : x.Nodup
  owned : Owned code x
  low : Low x
  size : x.length = 8

theorem WordReg.kept {x : Reg} {written : List Nat} (word : WordReg x code) (kept : Kept written code s code' s') :
    WordReg x code' := ⟨word.nodup, word.owned.kept kept, word.low, word.size⟩

theorem WordReg.reversed {x : Reg} (word : WordReg x code) : WordReg x.reversed code where
  nodup := List.nodup_reverse.2 word.nodup
  owned := fun r member => word.owned r (List.mem_reverse.1 member)
  low := fun r member => word.low r (List.mem_reverse.1 member)
  size := (List.length_reverse).trans word.size

/-- The words of the state are as they were. -/
def SameWords (base : Nat) (s s' : AVRState) : Prop := ∀ word < 5, memWord s' base word = memWord s base word

theorem memWord_eq {base word : Nat} (same : ∀ i < 8, s'.memory (base + asconByte word i) = s.memory (base + asconByte word i)) :
    memWord s' base word = memWord s base word := by
  refine word_ext fun i isByte => ?_
  rw [byteOf_memWord s' base word isByte, byteOf_memWord s base word isByte, same i isByte]

/-- Few bytes were pushed. -/
theorem Stage.sameWords {base count : Nat} (stage : Stage base code s) (below : BelowZ count s s') (few : count ≤ 8) :
    SameWords base s s' := by
  refine fun word isWord => memWord_eq fun i isByte => below.memory _ ?_
  have inside := asconByte_lt isWord isByte
  have room := stage.room
  omega

/-- A word is loaded. -/
theorem Stage.wp_loadWord {base word : Nat} {x : Reg} (stage : Stage base code s) (isX : WordReg x code)
    (isWord : word < 5) :
    target.wp (ldz x.reversed (asconWord word)) (fun _ code' s' => Exact x code s code' s' ∧
      regWord s' x = memWord s base word) code s := by
  have isBack := isX.reversed
  have near : asconWord word + 8 ≤ 40 := by
    rw [asconWord]
    omega
  have some_byte : 0 < x.reversed.length := by
    rw [isBack.size]
    exact Nat.zero_lt_succ 7
  have nearBy : asconWord word + x.reversed.length ≤ 64 := by
    rw [isBack.size]
    omega
  have fits : s.pair 30 + asconWord word + x.reversed.length ≤ memSize := by
    rw [isBack.size, Nat.add_assoc]
    exact stage.inside near
  refine wp_mono (wp_ldzNear isBack.nodup isBack.low some_byte nearBy fits) ?_
  rintro _ code' s' ⟨exact, values⟩
  refine ⟨exact.mono fun r member => List.mem_reverse.1 member, word_ext fun i isByte => ?_⟩
  have inside : 7 - i < x.reversed.length := by
    rw [isBack.size]
    omega
  have value := values (7 - i) inside
  have address : base + asconWord word + (7 - i) = base + asconByte word i := by
    rw [asconWord, asconByte]
    omega
  rw [byteOf_regWord s' isX.size isByte, byteOf_memWord s base word isByte, ← Reg.reg_reversed isX.size isByte, value,
    stage.pointer, address]

/-- A word is stored. -/
theorem Stage.wp_storeWord {base word : Nat} {x : Reg} (stage : Stage base code s) (isX : WordReg x code)
    (isWord : word < 5) :
    target.wp (stz x.reversed (asconWord word)) (fun _ code' s' => Kept [] code s code' s' ∧ Stage base code' s' ∧
      s'.r = s.r ∧ memWord s' base word = regWord s x ∧
      ∀ other < 5, other ≠ word → memWord s' base other = memWord s base other) code s := by
  have isBack := isX.reversed
  have near : asconWord word + 8 ≤ 40 := by
    rw [asconWord]
    omega
  have some_byte : 0 < x.reversed.length := by
    rw [isBack.size]
    exact Nat.zero_lt_succ 7
  have nearBy : asconWord word + x.reversed.length ≤ 64 := by
    rw [isBack.size]
    omega
  have fits : s.pair 30 + asconWord word + x.reversed.length ≤ memSize := by
    rw [isBack.size, Nat.add_assoc]
    exact stage.inside near
  refine wp_mono (wp_stzNear isBack.nodup isBack.low some_byte nearBy fits) ?_
  rintro _ code' s' stored
  rw [stage.pointer] at stored
  have length : (x.reversed.map s.r).length = 8 := by rw [List.length_map, isBack.size]
  have room := stage.room
  have kept := stored.kept stage.ready (by omega)
  refine ⟨kept, stage.kept kept (fun _ member => absurd member List.not_mem_nil) (stored.pair 30), stored.regs, ?_, ?_⟩
  · refine word_ext fun i isByte => ?_
    have address : base + asconByte word i = base + asconWord word + (7 - i) := by
      rw [asconWord, asconByte]
      omega
    have inside : 7 - i < (x.reversed.map s.r).length := by omega
    rw [byteOf_memWord s' base word isByte, byteOf_regWord s isX.size isByte, address, stored.memory,
      write_apply_of_lt _ _ _ inside, List.getD_eq_getElem _ _ inside, List.getElem_map,
      ← Reg.reg_reversed isX.size isByte, Reg.reg_eq_getElem]
  · refine fun other isOther different => memWord_eq fun i isByte => ?_
    rw [stored.memory, write_apply_outside]
    rw [length, asconByte, asconWord]
    omega

/-- A word is copied. -/
theorem Stage.wp_copyWord {base : Nat} {t x : Reg} (stage : Stage base code s) (isT : WordReg t code)
    (size : x.length = 8) (apart : ∀ r ∈ t, r ∉ x) :
    target.wp (move t x false) (fun _ code' s' => Kept t code s code' s' ∧ Stage base code' s' ∧
      regWord s' t = regWord s x ∧ SameWords base s s') code s := by
  refine wp_mono (wp_calm (wp_moveApart (isT.size.trans size.symm) isT.nodup isT.owned.bytes apart) (calm_move x isT.low)
    stage.pool) ?_
  rintro _ code' s' ⟨⟨within, copied⟩, -, below⟩
  have kept : Kept t code s code' s' :=
    within.kept (fun r member => stage.ready.writable (isT.owned r member)) (fun _ member _ => member) stage.ready
  exact ⟨kept, stage.kept kept isT.owned.bytes below.pair, congrArg (BitVec.ofNat 64) copied,
    stage.sameWords below (Nat.zero_le 8)⟩

/-- A word is rotated. -/
theorem Stage.wp_rotateWord {base bits : Nat} {x : Reg} (stage : Stage base code s) (isX : WordReg x code) :
    target.wp (ror x bits) (fun _ code' s' => Kept x code s code' s' ∧ Stage base code' s' ∧
      regWord s' x = (regWord s x).rotateRight bits ∧ SameWords base s s') code s := by
  refine wp_mono (wp_calm (wp_ror stage.ready isX.nodup isX.owned) (calm_ror isX.low bits) stage.pool) ?_
  rintro _ code' s' ⟨⟨kept, rotated⟩, -, below⟩
  exact ⟨kept, stage.kept kept isX.owned.bytes below.pair, regWord_rotated isX.size rotated,
    stage.sameWords below (Nat.le_of_eq isX.size)⟩

/-- A word is added to another one. -/
theorem Stage.wp_addWord {base : Nat} {x y : Reg} (stage : Stage base code s) (isX : WordReg x code)
    (size : y.length = 8) (apart : ∀ r ∈ x, r ∉ y) :
    target.wp (logxor x y) (fun _ code' s' => Kept x code s code' s' ∧ Stage base code' s' ∧
      regWord s' x = regWord s x ^^^ regWord s y ∧ SameWords base s s') code s := by
  refine wp_mono (wp_logxor isX.nodup apart (Nat.le_of_eq (size.trans isX.size.symm))) ?_
  rintro _ code' s' ⟨exact, xored⟩
  have kept := exact.owned isX.owned stage.ready
  exact ⟨kept, stage.kept kept isX.owned.bytes (exact.pointer isX.low), regWord_xor xored,
    fun word _ => memWord_congr exact.memory base word⟩

/-- The linear layer of one word. -/
def diffused (x : Word) (shift1 shift2 : Nat) : Word := x ^^^ (x.rotateRight shift1 ^^^ x.rotateRight shift2)

/-- What `ascon_diffuse` does behind the load: the word is diffused with a copy of it. -/
theorem Stage.wp_diffuseWord {base shift1 shift2 : Nat} {t x : Reg} (stage : Stage base code s) (isT : WordReg t code)
    (isX : WordReg x code) (apart : ∀ r ∈ t, r ∉ x) :
    target.wp (do
      move t x false
      ror t shift1
      logxor t x
      ror x shift2
      logxor x t) (fun _ code' s' => Kept (x ++ t) code s code' s' ∧ Stage base code' s' ∧
        regWord s' x = diffused (regWord s x) shift1 shift2 ∧ SameWords base s s') code s := by
  have apart' : ∀ r ∈ x, r ∉ t := fun r member isT => apart r isT member
  have inT {r : Nat} (member : r ∈ t) : r ∈ x ++ t := List.mem_append_right x member
  have inX {r : Nat} (member : r ∈ x) : r ∈ x ++ t := List.mem_append_left t member
  have bytes : Bytes (x ++ t) := fun r member =>
    (List.mem_append.1 member).elim (isX.owned.bytes r) (isT.owned.bytes r)
  -- The copy is rotated, and the word is added to it.
  refine wp_bind (wp_mono (stage.wp_copyWord isT isX.size apart) ?_)
  rintro _ code₁ s₁ ⟨kept₁, stage₁, copied, words₁⟩
  have keptX₁ : regWord s₁ x = regWord s x := congrArg (BitVec.ofNat 64) (regNat_kept isX.owned kept₁ apart')
  refine wp_bind (wp_mono (stage₁.wp_rotateWord (isT.kept kept₁)) ?_)
  rintro _ code₂ s₂ ⟨kept₂, stage₂, rotated, words₂⟩
  have kept₂ := kept₁.trans isT.owned.bytes kept₂
  have keptX₂ : regWord s₂ x = regWord s x := congrArg (BitVec.ofNat 64) (regNat_kept isX.owned kept₂ apart')
  refine wp_bind (wp_mono (stage₂.wp_addWord (isT.kept kept₂) isX.size apart) ?_)
  rintro _ code₃ s₃ ⟨kept₃, stage₃, added, words₃⟩
  have kept₃ := kept₂.trans isT.owned.bytes kept₃
  have keptX₃ : regWord s₃ x = regWord s x := congrArg (BitVec.ofNat 64) (regNat_kept isX.owned kept₃ apart')
  -- The word is rotated, and the copy is added to it.
  refine wp_bind (wp_mono (stage₃.wp_rotateWord (isX.kept kept₃)) ?_)
  rintro _ code₄ s₄ ⟨kept₄, stage₄, rotated', words₄⟩
  have keptT : regWord s₄ t = regWord s₃ t :=
    congrArg (BitVec.ofNat 64) (regNat_kept (isT.kept kept₃).owned kept₄ apart)
  have kept₄ := (kept₃.mono fun _ => inT).trans bytes (kept₄.mono fun _ => inX)
  refine wp_mono (stage₄.wp_addWord (isX.kept kept₄) isT.size apart') ?_
  rintro _ code₅ s₅ ⟨kept₅, stage₅, added', words₅⟩
  refine ⟨kept₄.trans bytes (kept₅.mono fun _ => inX), stage₅, ?_, fun word isWord => ?_⟩
  · rw [added', rotated', keptT, keptX₃, added, rotated, copied, keptX₂, diffused]
    ac_rfl
  · rw [words₅ word isWord, words₄ word isWord, words₃ word isWord, words₂ word isWord, words₁ word isWord]

/-- The parts of `ascon_diffuse`. -/
theorem asconDiffuse_eq (x : Reg) (word shift1 shift2 : Nat) : asconDiffuse x word shift1 shift2 = (do
    let t ← allocateReg 8
    (if word ≠ 0 then ldz x.reversed (asconWord word) else pure ())
    (do
      move t x false
      ror t shift1
      logxor t x
      ror x shift2
      logxor x t)
    (if word ≠ 2 ∧ word ≠ 4 then stz x.reversed (asconWord word) else pure ())
    releaseReg t) := by
  unfold asconDiffuse
  refine congrArg _ (funext fun t => ?_)
  split
  all_goals
    split
    all_goals simp only [bind_assoc, pure_bind]

theorem wp_asconDiffuse {base word shift1 shift2 : Nat} {x : Reg} (isWord : word < 5) (stage : Stage base code s)
    (isX : WordReg x code) :
    target.wp (asconDiffuse x word shift1 shift2) (fun _ code' s' => Kept x code s code' s' ∧ Stage base code' s' ∧
      regWord s' x = diffused (if word ≠ 0 then memWord s base word else regWord s x) shift1 shift2 ∧
      (word ≠ 2 ∧ word ≠ 4 → memWord s' base word = regWord s' x) ∧
      ∀ other < 5, other ≠ word → memWord s' base other = memWord s base other) code s := by
  refine wp_congr (asconDiffuse_eq x word shift1 shift2) ?_
  refine wp_bind (wp_allocateReg stage.ready.toConventions fun t code₁ eight took => ?_)
  have stage₁ := stage.took took
  have isT : WordReg t code₁ := {
    nodup := took.nodup
    owned := fun r member => (took.allocated r).2 (Or.inr member)
    low := fun r member => stage.pool r (took.free r member).2
    size := eight }
  have isX₁ : WordReg x code₁ :=
    ⟨isX.nodup, fun r member => (took.allocated r).2 (Or.inl (isX.owned r member)), isX.low, isX.size⟩
  have apart : ∀ r ∈ t, r ∉ x := fun r member isX' => (took.free r member).1 (isX.owned r isX')
  have bytes : Bytes (x ++ t) := fun r member =>
    (List.mem_append.1 member).elim (isX.owned.bytes r) (isT.owned.bytes r)
  have inX : ∀ r ∈ x, r ∈ x ++ t := fun r member => List.mem_append_left t member
  -- The word is loaded, unless it is the one in the registers.
  have loads : target.wp (if word ≠ 0 then ldz x.reversed (asconWord word) else pure ()) (fun _ code' s' =>
      Exact x code₁ s code' s' ∧ regWord s' x = if word ≠ 0 then memWord s base word else regWord s x) code₁ s := by
    refine wp_ite (fun behind => ?_) fun first => ?_
    · rw [if_pos behind]
      exact stage₁.wp_loadWord isX₁ isWord
    · rw [if_neg first]
      exact wp_pure ⟨Exact.refl x code₁ s, rfl⟩
  refine wp_bind (wp_mono loads ?_)
  rintro _ code₂ s₂ ⟨exact₂, loaded⟩
  have kept₂ := exact₂.owned isX₁.owned stage₁.ready
  have stage₂ := stage₁.kept kept₂ isX.owned.bytes (exact₂.pointer isX.low)
  refine wp_bind (wp_mono (stage₂.wp_diffuseWord (isT.kept kept₂) (isX₁.kept kept₂) apart) ?_)
  rintro _ code₃ s₃ ⟨kept₃, stage₃, result, words₃⟩
  have kept₃ := (kept₂.mono inX).trans bytes kept₃
  rw [loaded] at result
  have words₃ : SameWords base s s₃ := fun other isOther =>
    (words₃ other isOther).trans (memWord_congr exact₂.memory base other)
  -- It is stored, unless it stays in the registers.
  have stores : target.wp (if word ≠ 2 ∧ word ≠ 4 then stz x.reversed (asconWord word) else pure ()) (fun _ code' s' =>
      Kept [] code₃ s₃ code' s' ∧ Stage base code' s' ∧ s'.r = s₃.r ∧
      (word ≠ 2 ∧ word ≠ 4 → memWord s' base word = regWord s₃ x) ∧
      ∀ other < 5, other ≠ word → memWord s' base other = memWord s₃ base other) code₃ s₃ := by
    refine wp_ite (fun _ => ?_) fun stays => ?_
    · refine wp_mono (stage₃.wp_storeWord (isX₁.kept kept₃) isWord) ?_
      rintro _ code' s' ⟨kept', stage', regs, stored, others⟩
      exact ⟨kept', stage', regs, fun _ => stored, others⟩
    · exact wp_pure ⟨Kept.refl stage₃.ready, stage₃, rfl, fun goes => absurd goes stays, fun _ _ _ => rfl⟩
  refine wp_bind (wp_mono stores ?_)
  rintro _ code₄ s₄ ⟨kept₄, stage₄, regs, stored, others⟩
  have kept₄ := kept₃.trans bytes (kept₄.mono fun _ member => absurd member List.not_mem_nil)
  have sameX : regWord s₄ x = regWord s₃ x := regWord_congr fun r _ => congrFun regs r
  refine wp_releaseReg x took stage.ready kept₄ fun code' kept _ => ⟨kept, ?_, ?_, ?_, fun other isOther different => ?_⟩
  · exact stage.kept kept isX.owned.bytes (stage₄.pointer.trans stage.pointer.symm)
  · rw [sameX, result]
  · rw [sameX]
    exact stored
  · rw [others other isOther different, words₃ other isOther]

/-! ### Rounds -/

theorem Slices.word2 {x2 x4 : Reg} (slices : Slices x2 x4 code) : WordReg x2 code where
  nodup := (List.nodup_append.1 slices.nodup).1
  owned := fun r member => slices.owned r (List.mem_append_left x4 member)
  low := fun r member => slices.low r (List.mem_append_left x4 member)
  size := slices.size2

theorem Slices.word4 {x2 x4 : Reg} (slices : Slices x2 x4 code) : WordReg x4 code where
  nodup := (List.nodup_append.1 slices.nodup).2.1
  owned := fun r member => slices.owned r (List.mem_append_right x2 member)
  low := fun r member => slices.low r (List.mem_append_right x2 member)
  size := slices.size4

theorem permuteLinear_eq (x : AsconState) : permuteLinear x =
    ⟨diffused x.w0 19 28, diffused x.w1 61 39, diffused x.w2 1 6, diffused x.w3 10 17, diffused x.w4 7 41⟩ := by
  rw [permuteLinear]
  simp (disch := decide) only [diffused, rightRotate64_eq_rotateRight]

/-- A round that leaves `x2` as it is. -/
def plainRound (x : AsconState) (constant : Byte) : AsconState :=
  permuteLinear (substituted { x with w2 := x.w2 ^^^ BitVec.ofNat 64 constant.toNat })

/-- The five calls of `ascon_diffuse` behind the S-box. -/
theorem wp_genLinear {base : Nat} {x2 x4 : Reg} (slices : Slices x2 x4 code) (stage : Stage base code s) :
    target.wp (do
      asconDiffuse x2 0 19 28
      asconDiffuse x4 1 61 39
      asconDiffuse x2 2 1 6
      asconDiffuse x4 3 10 17
      asconDiffuse x4 4 7 41) (fun _ code' s' => Kept (x2 ++ x4) code s code' s' ∧ Stage base code' s' ∧
        roundInput s' base x2 x4 = permuteLinear (sboxOutput s base x2)) code s := by
  have in2 : ∀ r ∈ x2, r ∈ x2 ++ x4 := fun r member => List.mem_append_left x4 member
  have in4 : ∀ r ∈ x4, r ∈ x2 ++ x4 := fun r member => List.mem_append_right x2 member
  have bytes := slices.owned.bytes
  have apart : ∀ r ∈ x2, r ∉ x4 := fun r member isX4 => (List.nodup_append.1 slices.nodup).2.2 r member r isX4 rfl
  refine wp_bind (wp_mono (wp_asconDiffuse (by decide) stage slices.word2) ?_)
  rintro _ code₁ s₁ ⟨kept₁, stage₁, result0, stored0, others₁⟩
  have kept₁ := kept₁.mono in2
  refine wp_bind (wp_mono (wp_asconDiffuse (by decide) stage₁ (slices.kept kept₁).word4) ?_)
  rintro _ code₂ s₂ ⟨kept₂, stage₂, result1, stored1, others₂⟩
  have kept₂ := kept₁.trans bytes (kept₂.mono in4)
  refine wp_bind (wp_mono (wp_asconDiffuse (by decide) stage₂ (slices.kept kept₂).word2) ?_)
  rintro _ code₃ s₃ ⟨kept₃, stage₃, result2, -, others₃⟩
  have kept₃ := kept₂.trans bytes (kept₃.mono in2)
  refine wp_bind (wp_mono (wp_asconDiffuse (by decide) stage₃ (slices.kept kept₃).word4) ?_)
  rintro _ code₄ s₄ ⟨kept₄, stage₄, result3, stored3, others₄⟩
  have same₄ : regWord s₄ x2 = regWord s₃ x2 :=
    congrArg (BitVec.ofNat 64) (regNat_kept (slices.kept kept₃).word2.owned kept₄ apart)
  have kept₄ := kept₃.trans bytes (kept₄.mono in4)
  refine wp_mono (wp_asconDiffuse (by decide) stage₄ (slices.kept kept₄).word4) ?_
  rintro _ code₅ s₅ ⟨kept₅, stage₅, result4, -, others₅⟩
  have same₅ : regWord s₅ x2 = regWord s₄ x2 :=
    congrArg (BitVec.ofNat 64) (regNat_kept (slices.kept kept₄).word2.owned kept₅ apart)
  refine ⟨kept₄.trans bytes (kept₅.mono in4), stage₅, ?_⟩
  have word0 : memWord s₅ base 0 = diffused (regWord s x2) 19 28 := by
    rw [others₅ 0 (by decide) (by decide), others₄ 0 (by decide) (by decide), others₃ 0 (by decide) (by decide),
      others₂ 0 (by decide) (by decide), stored0 ⟨by decide, by decide⟩, result0]
    rfl
  have word1 : memWord s₅ base 1 = diffused (memWord s base 1) 61 39 := by
    rw [others₅ 1 (by decide) (by decide), others₄ 1 (by decide) (by decide), others₃ 1 (by decide) (by decide),
      stored1 ⟨by decide, by decide⟩, result1, if_pos (by decide), others₁ 1 (by decide) (by decide)]
  have word2 : regWord s₅ x2 = diffused (memWord s base 2) 1 6 := by
    rw [same₅, same₄, result2, if_pos (by decide), others₂ 2 (by decide) (by decide), others₁ 2 (by decide) (by decide)]
  have word3 : memWord s₅ base 3 = diffused (memWord s base 3) 10 17 := by
    rw [others₅ 3 (by decide) (by decide), stored3 ⟨by decide, by decide⟩, result3, if_pos (by decide),
      others₃ 3 (by decide) (by decide), others₂ 3 (by decide) (by decide), others₁ 3 (by decide) (by decide)]
  have word4 : regWord s₅ x4 = diffused (memWord s base 4) 7 41 := by
    rw [result4, if_pos (by decide), others₄ 4 (by decide) (by decide), others₃ 4 (by decide) (by decide),
      others₂ 4 (by decide) (by decide), others₁ 4 (by decide) (by decide)]
  rw [permuteLinear_eq, roundInput, word0, word1, word2, word3, word4]
  rfl

/-- The code of one round. -/
theorem wp_genRound {base round : Nat} {x2 x4 : Reg} (slices : Slices x2 x4 code) (stage : Stage base code s)
    (apart : round ∉ x2 ++ x4) :
    target.wp (do
      genSubstitution [round] x2 x4
      asconDiffuse x2 0 19 28
      asconDiffuse x4 1 61 39
      asconDiffuse x2 2 1 6
      asconDiffuse x4 3 10 17
      asconDiffuse x4 4 7 41) (fun _ code' s' => Kept (x2 ++ x4) code s code' s' ∧ Stage base code' s' ∧
        roundInput s' base x2 x4 = plainRound (roundInput s base x2 x4) (s.r round)) code s := by
  refine wp_bind (wp_mono (wp_genSubstitution slices stage apart) ?_)
  rintro _ code₁ s₁ ⟨kept₁, stage₁, columns⟩
  refine wp_mono (wp_genLinear (slices.kept kept₁) stage₁) ?_
  rintro _ code' s' ⟨kept', stage', words⟩
  refine ⟨kept₁.trans slices.owned.bytes kept', stage', ?_⟩
  rw [words, columns]
  rfl

/-- The C backend keeps `x2` inverted. -/
def invertX2 (x : AsconState) : AsconState := { x with w2 := ~~~x.w2 }

/-- The round constant of the AVR code, in one byte. -/
def roundByte (round : Nat) : Byte := BitVec.ofNat 8 (((0x0F - round) <<< 4) ||| round)

theorem roundConstant_eq {round : Nat} (isRound : round < 12) :
    roundConstant round = ~~~BitVec.ofNat 64 (roundByte round).toNat := by
  have all : ∀ round < 12, roundConstant round = ~~~BitVec.ofNat 64 (roundByte round).toNat := by decide
  exact all round isRound

theorem not_xor_not {w : Nat} (x y : BitVec w) : ~~~x ^^^ ~~~y = x ^^^ y := by
  rw [← BitVec.not_xor_left, ← BitVec.not_xor_right, BitVec.not_not]

theorem diffused_not (x : Word) (shift1 shift2 : Nat) : diffused (~~~x) shift1 shift2 = ~~~diffused x shift1 shift2 := by
  rw [diffused, diffused, RotatedSharing.rotateRight_not, RotatedSharing.rotateRight_not, not_xor_not, BitVec.not_xor_left]

/-- A round of the C backend is a plain one on inverted words. -/
theorem permuteRound_invertX2 (x : AsconState) {round : Nat} (isRound : round < 12) :
    permuteRound (invertX2 x) round = invertX2 (plainRound x (roundByte round)) := by
  have constant : ~~~x.w2 ^^^ roundConstant round = x.w2 ^^^ BitVec.ofNat 64 (roundByte round).toNat := by
    rw [roundConstant_eq isRound, not_xor_not]
  rw [permuteRound, permuteSbox_eq, permuteLinear_eq, invertX2, plainRound, permuteLinear_eq, invertX2]
  dsimp only
  rw [constant, diffused_not]

/-- Plain rounds, from a first one on. -/
def plainRounds (x : AsconState) (firstRound count : Nat) : AsconState :=
  (List.range' firstRound count).foldl (fun x round => plainRound x (roundByte round)) x

theorem plainRounds_zero (x : AsconState) (firstRound : Nat) : plainRounds x firstRound 0 = x := rfl

theorem plainRounds_succ (x : AsconState) (firstRound count : Nat) :
    plainRounds x firstRound (count + 1) = plainRounds (plainRound x (roundByte firstRound)) (firstRound + 1) count := by
  rw [plainRounds, List.range'_succ, List.foldl_cons, plainRounds]

theorem permuteRounds_invertX2 (x : AsconState) {firstRound count : Nat} (last : firstRound + count = 12) :
    permuteRounds (invertX2 x) firstRound = invertX2 (plainRounds x firstRound count) := by
  induction count generalizing x firstRound with
  | zero =>
      rw [permuteRounds, if_neg (by omega), plainRounds_zero]
  | succ count ih =>
      rw [permuteRounds, if_pos (by omega), permuteRound_invertX2 x (by omega), ih _ (by omega), plainRounds_succ]

theorem asconPermute_eq_plainRounds (x : AsconState) {firstRound count : Nat} (last : firstRound + count = 12) :
    asconPermute x firstRound = plainRounds x firstRound count := by
  have back : invertX2 (invertX2 (plainRounds x firstRound count)) = plainRounds x firstRound count := by
    rw [invertX2, invertX2, BitVec.not_not]
  exact (congrArg invertX2 (permuteRounds_invertX2 x last)).trans back

end AsconSuite.Avr
