/-
Module: AsconSuite.Proofs.AvrBitShifts
Layer: Proofs
Purpose: The shifts by bits, where the carry goes from byte to byte, and what `lsl`, `lsr` and `asr` leave in a
  register.
Imports: AsconSuite.Base.BitStrings, AsconSuite.Proofs.AvrMoves, one Mathlib module
Trusted boundary: none
Main exports: Avr.regBits, Avr.wp_shiftLeft, Avr.wp_shiftRight, Avr.wp_shiftLeftBy, Avr.wp_shiftRightBy
-/
import AsconSuite.Base.BitStrings
import AsconSuite.Proofs.AvrMoves
import Mathlib.Data.List.Perm.Subperm

namespace AsconSuite.Avr

open ByteWord ByteMemory ByteNumber BitStrings
open Emit (Target)
open Emit.Target

variable {code code' : Code} {s s' : AVRState} {Q : Unit → Code → AVRState → Prop}

/-! ### Bits in registers -/

/-- The bits in a register, low bit first. -/
def regBits (s : AVRState) (reg : Reg) : List Bool := bits (reg.map s.r)

@[simp] theorem length_regBits (s : AVRState) (reg : Reg) : (regBits s reg).length = 8 * reg.length := by
  rw [regBits, length_bits, List.length_map]

theorem regBits_cons (s : AVRState) (r : Nat) (rest : Reg) :
    regBits s (r :: rest) = wordBits (s.r r) ++ regBits s rest := rfl

theorem regBits_append (s : AVRState) (low high : Reg) : regBits s (low ++ high) = regBits s low ++ regBits s high := by
  rw [regBits, regBits, regBits, List.map_append, bits_append]

theorem regBits_congr {reg : Reg} (same : ∀ r ∈ reg, s'.r r = s.r r) : regBits s' reg = regBits s reg :=
  congrArg bits (List.map_congr_left same)

/-- The bits of the word in a register. -/
theorem wordBits_regValue (s : AVRState) (reg : Reg) : wordBits (regValue s reg) = regBits s reg := by
  have number := wordBits_number (reg.map s.r)
  rw [List.length_map] at number
  exact number

/-! ### One bit -/

/-- The bits go up, one comes in at the low end and one goes out into the carry. -/
def Left (reg : Reg) (bit : Bool) (s s' : AVRState) : Prop := regBits s' reg ++ [s'.c] = bit :: regBits s reg

/-- The bits go down, one comes in at the high end and one goes out into the carry. -/
def Right (reg : Reg) (bit : Bool) (s s' : AVRState) : Prop := s'.c :: regBits s' reg = regBits s reg ++ [bit]

theorem Left.cons {r : Nat} {rest : Reg} {bit : Bool} {s₁ : AVRState} (apart : r ∉ rest) {code₁ : Code}
    (first : Exact [r] code s code₁ s₁) (kept : s'.r r = s₁.r r)
    (low : wordBits (s₁.r r) ++ [s₁.c] = bit :: wordBits (s.r r)) (high : Left rest s₁.c s₁ s') :
    Left (r :: rest) bit s s' := by
  have same : regBits s₁ rest = regBits s rest := regBits_congr fun r' member => first.others r' fun single => by
    rw [List.mem_singleton.1 single] at member
    exact apart member
  rw [Left, regBits_cons, regBits_cons, kept, List.append_assoc, high, same, ← List.cons_append, ← low,
    List.append_assoc, List.singleton_append]

theorem Right.append {r : Nat} {rest : Reg} {bit : Bool} {s₁ : AVRState} (apart : r ∉ rest) {code₁ : Code}
    (first : Exact [r] code s code₁ s₁) (kept : s'.r r = s₁.r r)
    (high : s₁.c :: wordBits (s₁.r r) = wordBits (s.r r) ++ [bit]) (low : Right rest s₁.c s₁ s') :
    Right (rest ++ [r]) bit s s' := by
  have single (s : AVRState) : regBits s [r] = wordBits (s.r r) := List.append_nil _
  have same : regBits s₁ rest = regBits s rest := regBits_congr fun r' member => first.others r' fun single => by
    rw [List.mem_singleton.1 single] at member
    exact apart member
  rw [Right, regBits_append, regBits_append, single, single, kept, ← List.cons_append, low, same,
    List.append_assoc, List.append_assoc, List.singleton_append, high]

/-- What an instruction does that shifts one byte. -/
structure ShiftsByte (type : InsnType) (left : Bool) (bit : AVRState → Nat → Bool) : Prop where
  step : ∀ (s : AVRState) (r : Nat), ∃ b c z, stepInsn s ⟨type, r, 0⟩ = .ok { s.setReg r b with c := c, z := z } ∧
    if left then wordBits b ++ [c] = bit s r :: wordBits (s.r r) else c :: wordBits b = wordBits (s.r r) ++ [bit s r]

theorem wp_shiftByte {type : InsnType} {left : Bool} {bit : AVRState → Nat → Bool} (shifts : ShiftsByte type left bit)
    {r : Nat} (holds : ∀ code' s', Exact [r] code s code' s' → s'.t = s.t →
      (if left then wordBits (s'.r r) ++ [s'.c] = bit s r :: wordBits (s.r r)
        else s'.c :: wordBits (s'.r r) = wordBits (s.r r) ++ [bit s r]) → Q () code' s') :
    target.wp (onereg type r) Q code s := by
  obtain ⟨b, c, z, stepped, shifted⟩ := shifts.step s r
  refine wp_onereg fun _ => ⟨_, stepped, holds _ _ (exact_pushed code _ rfl rfl) rfl ?_⟩
  have written : ({ s.setReg r b with c := c, z := z } : AVRState).r r = b := s.setReg_self r b
  rw [written]
  exact shifted

theorem shiftsByte_lsl : ShiftsByte .lsl true fun _ _ => false where
  step := fun s r => ⟨_, _, _, rfl, by
    have shifted := wordBits_shiftIn (s.r r) false
    rwa [Bool.toNat_false, BitVec.or_zero] at shifted⟩

theorem shiftsByte_rol : ShiftsByte .rol true fun s _ => s.c where
  step := fun s r => ⟨_, _, _, rfl, wordBits_shiftIn (s.r r) s.c⟩

theorem shiftsByte_lsr : ShiftsByte .lsr false fun _ _ => false where
  step := fun s r => ⟨_, _, _, rfl, by
    have shifted := wordBits_shiftDown (s.r r) false
    rwa [Bool.toNat_false, BitVec.zero_shiftLeft, BitVec.or_zero] at shifted⟩

theorem shiftsByte_ror : ShiftsByte .ror false fun s _ => s.c where
  step := fun s r => ⟨_, _, _, rfl, wordBits_shiftDown (s.r r) s.c⟩

theorem shiftsByte_asr : ShiftsByte .asr false fun s r => (s.r r).msb where
  step := fun s r => ⟨_, _, _, rfl, by
    have shifted := wordBits_sshiftRight (s.r r) 1
    have first : wordBits (s.r r) ++ List.replicate 1 (s.r r).msb =
        (s.r r).getLsbD 0 :: (wordBits (s.r r) ++ List.replicate 1 (s.r r).msb).drop 1 := rfl
    rw [if_neg Bool.false_ne_true, shifted]
    exact first.symm⟩

/-! ### Several bytes -/

/-- The carry goes through the bytes, from the low one up. -/
theorem wp_leftChain {reg : Reg} (nodup : reg.Nodup) :
    target.wp (reg.forM (onereg .rol))
      (fun _ code' s' => Exact reg code s code' s' ∧ s'.t = s.t ∧ Left reg s.c s s') code s := by
  induction reg generalizing code s with
  | nil => exact wp_pure ⟨Exact.refl [] code s, rfl, rfl⟩
  | cons r rest ih =>
      obtain ⟨apart, nodup⟩ := List.nodup_cons.1 nodup
      refine wp_bind (wp_shiftByte shiftsByte_rol fun code₁ s₁ exact₁ sameT low => ?_)
      refine wp_mono (ih nodup) ?_
      rintro _ code' s' ⟨exact', sameT', high⟩
      refine ⟨?_, sameT'.trans sameT, Left.cons apart exact₁ (exact'.others r apart) low high⟩
      exact ((Exact.refl (r :: rest) code s).step exact₁ List.mem_cons_self).trans
        (exact'.mono fun _ member => List.mem_cons_of_mem r member)

/-- The carry goes through the bytes, from the high one down. -/
theorem wp_rightChain {downward : List Nat} (nodup : downward.Nodup) :
    target.wp (downward.forM (onereg .ror))
      (fun _ code' s' => Exact downward code s code' s' ∧ s'.t = s.t ∧ Right downward.reverse s.c s s') code s := by
  induction downward generalizing code s with
  | nil => exact wp_pure ⟨Exact.refl [] code s, rfl, rfl⟩
  | cons r rest ih =>
      obtain ⟨apart, nodup⟩ := List.nodup_cons.1 nodup
      refine wp_bind (wp_shiftByte shiftsByte_ror fun code₁ s₁ exact₁ sameT high => ?_)
      refine wp_mono (ih nodup) ?_
      rintro _ code' s' ⟨exact', sameT', low⟩
      refine ⟨?_, sameT'.trans sameT, ?_⟩
      · exact ((Exact.refl (r :: rest) code s).step exact₁ List.mem_cons_self).trans
          (exact'.mono fun _ member => List.mem_cons_of_mem r member)
      · rw [List.reverse_cons]
        exact Right.append (fun member => apart (List.mem_reverse.1 member)) exact₁ (exact'.others r apart) high low

theorem wp_shiftLeft {reg : Reg} (nodup : reg.Nodup) (some_byte : reg ≠ []) :
    target.wp (shiftLeft reg)
      (fun _ code' s' => Exact reg code s code' s' ∧ s'.t = s.t ∧ Left reg false s s') code s := by
  cases reg with
  | nil => exact absurd rfl some_byte
  | cons r rest =>
      obtain ⟨apart, nodup⟩ := List.nodup_cons.1 nodup
      refine wp_bind (wp_shiftByte shiftsByte_lsl fun code₁ s₁ exact₁ sameT low => ?_)
      refine wp_mono (wp_leftChain nodup) ?_
      rintro _ code' s' ⟨exact', sameT', high⟩
      refine ⟨?_, sameT'.trans sameT, Left.cons apart exact₁ (exact'.others r apart) low high⟩
      exact ((Exact.refl (r :: rest) code s).step exact₁ List.mem_cons_self).trans
        (exact'.mono fun _ member => List.mem_cons_of_mem r member)

/-- A shift of the high byte, and the carry goes down from it. -/
theorem wp_shiftDown {type : InsnType} {bit : AVRState → Nat → Bool} (shifts : ShiftsByte type false bit) {high : Nat}
    {low : List Nat} (nodup : (low ++ [high]).Nodup) :
    target.wp (onereg type high >>= fun _ => low.reverse.forM (onereg .ror))
      (fun _ code' s' => Exact (low ++ [high]) code s code' s' ∧ s'.t = s.t ∧
        Right (low ++ [high]) (bit s high) s s') code s := by
  obtain ⟨rest, rfl⟩ : ∃ rest, low = List.reverse rest := ⟨low.reverse, (List.reverse_reverse low).symm⟩
  rw [List.reverse_reverse]
  have reversed : rest.reverse ++ [high] = (high :: rest).reverse := List.reverse_cons.symm
  obtain ⟨apart, nodupRest⟩ := List.nodup_cons.1 (List.nodup_reverse.1 (reversed ▸ nodup))
  have member {r : Nat} (isRest : r ∈ rest) : r ∈ rest.reverse ++ [high] :=
    List.mem_append_left _ (List.mem_reverse.2 isRest)
  refine wp_bind (wp_shiftByte shifts fun code₁ s₁ exact₁ sameT shifted => ?_)
  refine wp_mono (wp_rightChain nodupRest) ?_
  rintro _ code' s' ⟨exact', sameT', low⟩
  refine ⟨?_, sameT'.trans sameT, ?_⟩
  · exact ((Exact.refl _ code s).step exact₁ (List.mem_append_right _ List.mem_cons_self)).trans
      (exact'.mono fun _ isRest => member isRest)
  · exact Right.append (fun isRest => apart (List.mem_reverse.1 isRest)) exact₁ (exact'.others high apart) shifted low

theorem wp_shiftRight {reg : Reg} (nodup : reg.Nodup) (some_byte : reg ≠ []) :
    target.wp (shiftRight reg)
      (fun _ code' s' => Exact reg code s code' s' ∧ s'.t = s.t ∧ Right reg false s s') code s := by
  obtain ⟨low, high, rfl⟩ := (List.eq_nil_or_concat' reg).resolve_left some_byte
  have reversed : Reg.reversed (low ++ [high]) = high :: low.reverse := List.reverse_concat' low high
  rw [shiftRight, reversed]
  exact wp_shiftDown shiftsByte_lsr nodup

/-! ### Several bits -/

theorem Left.shifted {reg : Reg} {bit : Bool} (left : Left reg bit s s') :
    regBits s' reg = (bit :: regBits s reg).take (8 * reg.length) := by
  rw [← left, List.take_append_of_le_length (Nat.le_of_eq (length_regBits s' reg).symm)]
  exact (List.take_of_length_le (Nat.le_of_eq (length_regBits s' reg))).symm

theorem Right.shifted {reg : Reg} {bit : Bool} (right : Right reg bit s s') :
    regBits s' reg = (regBits s reg ++ [bit]).drop 1 := congrArg (List.drop 1) right

theorem wp_shiftLeftBy {reg : Reg} (bits : Nat) (nodup : reg.Nodup) (some_byte : reg ≠ []) :
    target.wp (shiftLeftBy reg bits) (fun _ code' s' => Exact reg code s code' s' ∧
      regBits s' reg = (List.replicate bits false ++ regBits s reg).take (8 * reg.length)) code s := by
  induction bits generalizing code s with
  | zero =>
      refine wp_pure ⟨Exact.refl reg code s, ?_⟩
      exact (List.take_of_length_le (Nat.le_of_eq (length_regBits s reg))).symm
  | succ bits ih =>
      refine wp_bind (wp_mono (wp_shiftLeft nodup some_byte) ?_)
      rintro _ code₁ s₁ ⟨exact₁, -, left⟩
      refine wp_mono ih ?_
      rintro _ code' s' ⟨exact', shifted⟩
      refine ⟨exact₁.trans exact', ?_⟩
      rw [shifted, left.shifted, List.replicate_succ', List.append_assoc, List.singleton_append, List.take_append,
        List.take_append, List.take_take, Nat.min_eq_left (Nat.sub_le _ _)]

theorem wp_shiftRightBy {reg : Reg} (bits : Nat) (nodup : reg.Nodup) (some_byte : reg ≠ []) :
    target.wp (shiftRightBy reg bits) (fun _ code' s' => Exact reg code s code' s' ∧
      regBits s' reg = (regBits s reg ++ List.replicate bits false).drop bits) code s := by
  induction bits generalizing code s with
  | zero => exact wp_pure ⟨Exact.refl reg code s, (List.append_nil _).symm⟩
  | succ bits ih =>
      refine wp_bind (wp_mono (wp_shiftRight nodup some_byte) ?_)
      rintro _ code₁ s₁ ⟨exact₁, -, right⟩
      refine wp_mono ih ?_
      rintro _ code' s' ⟨exact', shifted⟩
      refine ⟨exact₁.trans exact', ?_⟩
      have some_bit : 1 ≤ (regBits s reg ++ [false]).length := by
        rw [List.length_append]
        exact Nat.le_add_left 1 _
      rw [shifted, right.shifted, ← List.drop_append_of_le_length some_bit, List.drop_drop, List.append_assoc,
        List.singleton_append, ← List.replicate_succ, Nat.add_comm 1 bits]

/-! ### Zeros and parts of registers -/

/-- Every byte of a register is set to zero. -/
theorem wp_moveZero {reg : Reg} (ready : Ready code s) (owned : Owned code reg) :
    target.wp (moveImm reg 0) (fun _ code' s' => Kept reg code s code' s' ∧ ∀ r ∈ reg, s'.r r = 0#8) code s := by
  induction reg generalizing code s with
  | nil => exact wp_pure ⟨Kept.refl ready, fun _ member => nomatch member⟩
  | cons r rest ih =>
      have ownedByte := owned r List.mem_cons_self
      have behind {code₁ : Code} {s₁ : AVRState} (first : Kept [r] code s code₁ s₁) (zero : s₁.r r = 0#8) :
          target.wp (moveImm rest 0)
            (fun _ code' s' => Kept (r :: rest) code s code' s' ∧ ∀ r' ∈ r :: rest, s'.r r' = 0#8) code₁ s₁ := by
        have owned₁ : Owned code₁ rest := fun r' member => by
          rw [first.allocated]
          exact owned r' (List.mem_cons_of_mem r member)
        refine wp_mono (ih first.ready owned₁) ?_
        rintro _ code' s' ⟨kept, zeros⟩
        refine ⟨?_, fun r' member => ?_⟩
        · refine (first.mono fun r' member => ?_).trans owned.bytes (kept.mono fun _ => List.mem_cons_of_mem r)
          rw [List.mem_singleton.1 member]
          exact List.mem_cons_self
        · by_cases isRest : r' ∈ rest
          · exact zeros r' isRest
          · have same := (List.mem_cons.1 member).resolve_right isRest
            subst same
            rw [kept.others r' (Or.inl (by rw [first.allocated]; exact ownedByte)) isRest]
            exact zero
      refine wp_bind (wp_get (wp_ite (fun noTemp => ?_) fun _ => wp_ite (fun _ => ?_) fun _ => ?_))
      · refine wp_bind (wp_tworeg fun _ _ _ => ⟨s.setReg r (s.r 1), rfl, behind ?_ ?_⟩)
        · exact kept_pushed _ _ ready ownedByte rfl rfl
        · rw [AVRState.setReg_self]
          obtain ⟨-, noTemp⟩ := noTemp
          rw [Bool.not_eq_true'] at noTemp
          exact ready.zero noTemp
      · refine wp_bind (wp_immreg fun _ _ => ⟨s.setReg r 0#8, rfl, behind ?_ (s.setReg_self r _)⟩)
        exact kept_pushed _ _ ready ownedByte rfl rfl
      · refine wp_bind (wp_immtemp ready fun highReg code₁ s₁ _ _ kept _ loaded => wp_bind ?_)
        have owned₁ : inRegs code₁.allocated r = true := by
          rw [kept.allocated]
          exact ownedByte
        refine wp_tworeg fun _ _ _ => ⟨s₁.setReg r (s₁.r highReg), rfl, behind ?_ ?_⟩
        · have byte : Bytes [r] := fun r' member => by
            rw [List.mem_singleton.1 member]
            exact lt_of_inRegs ownedByte
          exact (kept.mono fun _ member => nomatch member).trans byte (kept_pushed _ _ kept.ready owned₁ rfl rfl)
        · rw [AVRState.setReg_self, loaded]

/-- Distinct bytes are few. -/
theorem Bytes.length_le {reg : Reg} (bytes : Bytes reg) (nodup : reg.Nodup) : reg.length ≤ 32 := by
  have sub : reg ⊆ List.range 32 := fun r member => List.mem_range.2 (bytes r member)
  have le := (List.subperm_of_subset nodup sub).length_le
  rwa [List.length_range] at le

theorem Reg.subset_eq {reg : Reg} {offset count : Nat} (inside : offset + count ≤ reg.length)
    (small : reg.length < 0xFF) : reg.subset offset count = (reg.drop offset).take count := by
  have length : ((reg.drop offset).take count).length = count := by
    rw [List.length_take, List.length_drop]
    omega
  rw [Reg.subset, Reg.size]
  split
  · have none : count = 0 := by omega
    rw [none, List.take_zero]
  · have count_eq : (if count = 0xFF then reg.length - offset else min count reg.length) = count := by
      rw [if_neg (by omega)]
      omega
    simp only [count_eq]
    apply List.ext_getElem
    · rw [List.length_map, List.length_range, length]
    · intro i inside' _
      rw [List.length_map, List.length_range] at inside'
      rw [List.getElem_map, List.getElem_range, List.getElem_take, List.getElem_drop, Nat.mod_eq_of_lt (by omega),
        Reg.reg_eq_getElem]

/-- A part of a register that is inside it. -/
theorem Reg.part_eq {reg : Reg} {offset count first size : Nat} (isFirst : offset % 256 = first)
    (isSize : count % 256 = size) (inside : first + size ≤ reg.length) (few : reg.length ≤ 33) :
    reg.part offset count = (reg.drop first).take size := by
  rw [Reg.part, isFirst, isSize, Reg.subset_eq inside (by omega)]

theorem Reg.part_low {reg : Reg} {count size : Nat} (isSize : count % 256 = size) (inside : size ≤ reg.length)
    (few : reg.length ≤ 33) : reg.part 0 count = reg.take size :=
  Reg.part_eq rfl isSize (by omega) few

theorem Reg.part_high {reg : Reg} {offset count first : Nat} (isFirst : offset % 256 = first)
    (isSize : count % 256 = reg.length - first) (inside : first ≤ reg.length) (few : reg.length ≤ 33) :
    reg.part offset count = reg.drop first := by
  rw [Reg.part_eq isFirst isSize (by omega) few, List.take_of_length_le (by rw [List.length_drop])]

theorem regBits_take (s : AVRState) (reg : Reg) (count : Nat) :
    regBits s (reg.take count) = (regBits s reg).take (8 * count) := by
  rcases Nat.le_total count reg.length with le | le
  · have parts := regBits_append s (reg.take count) (reg.drop count)
    have length : (regBits s (reg.take count)).length = 8 * count := by
      rw [length_regBits, List.length_take, Nat.min_eq_left le]
    rw [List.take_append_drop] at parts
    rw [parts, ← length, List.take_left]
  · rw [List.take_of_length_le le, List.take_of_length_le]
    rw [length_regBits]
    omega

theorem regBits_drop (s : AVRState) (reg : Reg) (count : Nat) :
    regBits s (reg.drop count) = (regBits s reg).drop (8 * count) := by
  rcases Nat.le_total count reg.length with le | le
  · have parts := regBits_append s (reg.take count) (reg.drop count)
    have length : (regBits s (reg.take count)).length = 8 * count := by
      rw [length_regBits, List.length_take, Nat.min_eq_left le]
    rw [List.take_append_drop] at parts
    rw [parts, ← length, List.drop_left]
  · rw [List.drop_of_length_le le, List.drop_of_length_le]
    · rfl
    · rw [length_regBits]
      omega

theorem regBits_zero {reg : Reg} (zeros : ∀ r ∈ reg, s.r r = 0#8) :
    regBits s reg = List.replicate (8 * reg.length) false := by
  rw [regBits, List.map_congr_left zeros, List.map_const', bits_replicate_zero]

/-- The low bytes are set to zero. -/
theorem wp_fillLow {reg : Reg} (count : Nat) (ready : Ready code s) (nodup : reg.Nodup) (owned : Owned code reg) :
    target.wp (moveImm (reg.take count) 0) (fun _ code' s' => Kept reg code s code' s' ∧
      regBits s' reg = List.replicate (8 * min count reg.length) false ++ regBits s (reg.drop count)) code s := by
  have ownedLow : Owned code (reg.take count) := fun r member => owned r (List.mem_of_mem_take member)
  have apart := List.disjoint_take_drop nodup (Nat.le_refl count)
  refine wp_mono (wp_moveZero ready ownedLow) ?_
  rintro _ code' s' ⟨kept, zeros⟩
  have same : regBits s' (reg.drop count) = regBits s (reg.drop count) := regBits_congr fun r member =>
    kept.others r (Or.inl (owned r (List.mem_of_mem_drop member))) fun low => apart low member
  refine ⟨kept.mono fun r => List.mem_of_mem_take, ?_⟩
  calc regBits s' reg = regBits s' (reg.take count) ++ regBits s' (reg.drop count) := by
        rw [← regBits_append, List.take_append_drop]
    _ = _ := by rw [regBits_zero zeros, List.length_take, same]

/-- The high bytes are set to zero. -/
theorem wp_fillHigh {reg : Reg} (count : Nat) (ready : Ready code s) (nodup : reg.Nodup) (owned : Owned code reg) :
    target.wp (moveImm (reg.drop count) 0) (fun _ code' s' => Kept reg code s code' s' ∧
      regBits s' reg = regBits s (reg.take count) ++ List.replicate (8 * (reg.length - count)) false) code s := by
  have ownedHigh : Owned code (reg.drop count) := fun r member => owned r (List.mem_of_mem_drop member)
  have apart := List.disjoint_take_drop nodup (Nat.le_refl count)
  refine wp_mono (wp_moveZero ready ownedHigh) ?_
  rintro _ code' s' ⟨kept, zeros⟩
  have same : regBits s' (reg.take count) = regBits s (reg.take count) := regBits_congr fun r member =>
    kept.others r (Or.inl (owned r (List.mem_of_mem_take member))) fun high => apart member high
  refine ⟨kept.mono fun r => List.mem_of_mem_drop, ?_⟩
  calc regBits s' reg = regBits s' (reg.take count) ++ regBits s' (reg.drop count) := by
        rw [← regBits_append, List.take_append_drop]
    _ = _ := by rw [regBits_zero zeros, List.length_drop, same]

/-! ### Shifts by bytes -/

/-- Shifted to the left: zeros come in at the low end. -/
def ShiftedLeft (reg : Reg) (count : Nat) (s s' : AVRState) : Prop :=
  regBits s' reg = (List.replicate count false ++ regBits s reg).take (8 * reg.length)

/-- Shifted to the right: zeros come in at the high end. -/
def ShiftedRight (reg : Reg) (count : Nat) (s s' : AVRState) : Prop :=
  regBits s' reg = (regBits s reg ++ List.replicate count false).drop count

theorem ShiftedLeft.value {reg : Reg} {count : Nat} (shifted : ShiftedLeft reg count s s') :
    regValue s' reg = regValue s reg <<< count := by
  apply wordBits_inj
  rw [wordBits_shiftLeft, wordBits_regValue, wordBits_regValue]
  exact shifted

theorem ShiftedRight.value {reg : Reg} {count : Nat} (shifted : ShiftedRight reg count s s') :
    regValue s' reg = regValue s reg >>> count := by
  apply wordBits_inj
  rw [wordBits_ushiftRight, wordBits_regValue, wordBits_regValue]
  exact shifted

/-- Zeros at the low end that stay. -/
theorem take_zeros {count room : Nat} {l : List Bool} (le : count ≤ room) :
    (List.replicate count false ++ l).take room = List.replicate count false ++ l.take (room - count) := by
  rw [List.take_append, List.length_replicate, List.take_replicate, Nat.min_eq_right le]

/-- Everything is shifted away. -/
theorem shiftedLeft_zero {reg : Reg} {count : Nat} (far : 8 * reg.length ≤ count) (zeros : ∀ r ∈ reg, s'.r r = 0#8) :
    ShiftedLeft reg count s s' := by
  rw [ShiftedLeft, regBits_zero zeros, List.take_append_of_le_length (by rw [List.length_replicate]; exact far),
    List.take_replicate, Nat.min_eq_left far]

theorem shiftedRight_zero {reg : Reg} {count : Nat} (far : 8 * reg.length ≤ count) (zeros : ∀ r ∈ reg, s'.r r = 0#8) :
    ShiftedRight reg count s s' := by
  rw [ShiftedRight, regBits_zero zeros, List.drop_append, List.drop_of_length_le (by rw [length_regBits]; exact far),
    List.nil_append, length_regBits, List.drop_replicate]
  congr 1
  omega

/-- The number of the bytes that stay in a register, as an `unsigned char`. -/
theorem sizeMinus_mod {reg : Reg} {count : Nat} (bound : count < 2 ^ 32) (few : reg.length ≤ 32)
    (le : count % 256 ≤ reg.length) : sizeMinus reg count % 256 = reg.length - count % 256 := by
  rw [sizeMinus, Reg.size]
  omega

theorem wp_lslBytes {reg : Reg} (count : Nat) (ready : Ready code s) (nodup : reg.Nodup) (owned : Owned code reg) :
    target.wp (lslBytes reg count)
      (fun _ code' s' => Kept reg code s code' s' ∧ ShiftedLeft reg (8 * count) s s') code s := by
  have few := owned.bytes.length_le nodup
  refine wp_ite (fun nothing => wp_pure ⟨Kept.refl ready, ?_⟩) fun _ => wp_ite (fun far => ?_) fun near => ?_
  · rcases nothing with rfl | empty
    · exact (List.take_of_length_le (Nat.le_of_eq (length_regBits s reg))).symm
    · rw [List.length_eq_zero_iff.1 empty]
      exact shiftedLeft_zero (Nat.zero_le _) fun r member => nomatch member
  · refine wp_mono (wp_moveZero ready owned) ?_
    rintro _ code' s' ⟨kept, zeros⟩
    exact ⟨kept, shiftedLeft_zero (Nat.mul_le_mul_left 8 far) zeros⟩
  · rw [Reg.size, Nat.not_le] at near
    have small : count % 256 = count := Nat.mod_eq_of_lt (by omega)
    have rest : sizeMinus reg count % 256 = reg.length - count := by
      rw [sizeMinus_mod (by omega) few (by omega), small]
    have high : reg.part count (sizeMinus reg count) = reg.drop count := Reg.part_high small rest (by omega) (by omega)
    have low : reg.part 0 (sizeMinus reg count) = reg.take (reg.length - count) :=
      Reg.part_low rest (by omega) (by omega)
    have fill : reg.part 0 count = reg.take count := Reg.part_low small (by omega) (by omega)
    rw [high, low, fill]
    refine wp_bind (wp_mono (wp_moveUp nodup owned.bytes (Nat.le_of_lt near)) ?_)
    rintro _ code₁ s₁ ⟨within, moved⟩
    have ownedHigh : ∀ r ∈ reg.drop count, inRegs code.allocated r = true :=
      fun r member => owned r (List.mem_of_mem_drop member)
    have kept₁ : Kept reg code s code₁ s₁ :=
      within.kept (fun r member => ready.writable (ownedHigh r member)) (fun r member _ => List.mem_of_mem_drop member)
        ready
    refine wp_mono (wp_fillLow count kept₁.ready nodup (owned.kept kept₁)) ?_
    rintro _ code' s' ⟨kept, filled⟩
    refine ⟨kept₁.trans owned.bytes kept, ?_⟩
    have copied : regBits s₁ (reg.drop count) = regBits s (reg.take (reg.length - count)) := congrArg bits moved
    rw [ShiftedLeft, take_zeros (Nat.mul_le_mul_left 8 (Nat.le_of_lt near)), ← Nat.mul_sub, filled, copied,
      regBits_take, Nat.min_eq_left (Nat.le_of_lt near)]

theorem wp_lsrBytes {reg : Reg} (count : Nat) (ready : Ready code s) (nodup : reg.Nodup) (owned : Owned code reg) :
    target.wp (lsrBytes reg count)
      (fun _ code' s' => Kept reg code s code' s' ∧ ShiftedRight reg (8 * count) s s') code s := by
  have few := owned.bytes.length_le nodup
  refine wp_ite (fun nothing => wp_pure ⟨Kept.refl ready, ?_⟩) fun _ => wp_ite (fun far => ?_) fun near => ?_
  · rcases nothing with rfl | empty
    · exact (List.append_nil _).symm
    · rw [List.length_eq_zero_iff.1 empty]
      exact shiftedRight_zero (Nat.zero_le _) fun r member => nomatch member
  · refine wp_mono (wp_moveZero ready owned) ?_
    rintro _ code' s' ⟨kept, zeros⟩
    exact ⟨kept, shiftedRight_zero (Nat.mul_le_mul_left 8 far) zeros⟩
  · rw [Reg.size, Nat.not_le] at near
    have small : count % 256 = count := Nat.mod_eq_of_lt (by omega)
    have rest : sizeMinus reg count % 256 = reg.length - count := by
      rw [sizeMinus_mod (by omega) few (by omega), small]
    have high : reg.part count (sizeMinus reg count) = reg.drop count := Reg.part_high small rest (by omega) (by omega)
    have low : reg.part 0 (sizeMinus reg count) = reg.take (reg.length - count) :=
      Reg.part_low rest (by omega) (by omega)
    have fill : reg.part (sizeMinus reg count) count = reg.drop (reg.length - count) :=
      Reg.part_high rest (by omega) (by omega) (by omega)
    rw [high, low, fill]
    refine wp_bind (wp_mono (wp_moveDown nodup owned.bytes (Nat.le_of_lt near)) ?_)
    rintro _ code₁ s₁ ⟨within, moved⟩
    have ownedLow : ∀ r ∈ reg.take (reg.length - count), inRegs code.allocated r = true :=
      fun r member => owned r (List.mem_of_mem_take member)
    have kept₁ : Kept reg code s code₁ s₁ :=
      within.kept (fun r member => ready.writable (ownedLow r member)) (fun r member _ => List.mem_of_mem_take member)
        ready
    refine wp_mono (wp_fillHigh (reg.length - count) kept₁.ready nodup (owned.kept kept₁)) ?_
    rintro _ code' s' ⟨kept, filled⟩
    refine ⟨kept₁.trans owned.bytes kept, ?_⟩
    have copied : regBits s₁ (reg.take (reg.length - count)) = regBits s (reg.drop count) := congrArg bits moved
    have zeros : 8 * (reg.length - (reg.length - count)) = 8 * count := by omega
    rw [ShiftedRight, filled, copied, regBits_drop, zeros, List.drop_append_of_le_length]
    rw [length_regBits]
    omega

/-! ### Bits that go the other way -/

/-- Bits that go up by some bits are bits that go down by the others of a byte, and up by the byte. -/
theorem take_drop_zeros {k b count : Nat} {R : List Bool} (isByte : k + b = 8) (le : count ≤ R.length) :
    ((List.replicate 8 false ++ R.take count ++ List.replicate k false).drop k).take count =
      (List.replicate b false ++ R).take count := by
  have zeros : List.replicate 8 false = List.replicate k false ++ List.replicate b false := by
    rw [List.replicate_append_replicate, isByte]
  have dropped : (List.replicate 8 false ++ R.take count ++ List.replicate k false).drop k =
      List.replicate b false ++ R.take count ++ List.replicate k false := by
    rw [zeros, List.append_assoc, List.append_assoc, List.drop_left' List.length_replicate, List.append_assoc]
  have long : count ≤ (List.replicate b false ++ R.take count).length := by
    rw [List.length_append, List.length_take]
    omega
  rw [dropped, List.take_append_of_le_length long, List.take_append, List.take_append, List.take_take,
    Nat.min_eq_left (Nat.sub_le _ _)]

/-- Bits that go down by some bits are bits that go up by the others of a byte, and down by the byte. -/
theorem drop_take_zeros {k b : Nat} {R : List Bool} (isByte : k + b = 8) :
    ((List.replicate k false ++ (R ++ List.replicate 8 false)).take (8 + R.length)).drop 8 =
      (R ++ List.replicate b false).drop b := by
  have zeros : List.replicate 8 false = List.replicate b false ++ List.replicate k false := by
    rw [List.replicate_append_replicate, Nat.add_comm, isByte]
  have taken : (List.replicate k false ++ (R ++ List.replicate 8 false)).take (8 + R.length) =
      List.replicate k false ++ (R ++ List.replicate b false) := by
    rw [zeros, ← List.append_assoc, ← List.append_assoc, List.append_assoc _ _ (List.replicate b false)]
    refine List.take_left' ?_
    rw [List.length_append, List.length_append, List.length_replicate, List.length_replicate]
    omega
  have split : 8 = (List.replicate k false).length + b := by rw [List.length_replicate, isByte]
  rw [taken, split, List.drop_append, List.drop_of_length_le (Nat.le_add_right _ b), List.nil_append,
    Nat.add_sub_cancel_left]

/-- A spare register is none of those that the caller owns. -/
theorem Spare.apart {r : Nat} {reg : Reg} (spare : Spare code r) (owned : Owned code reg) : r ∉ reg :=
  fun member => spare.free (owned r member)

/-- Writes to a register and to a spare one. -/
theorem Within.keptSpare {r : Nat} {reg : Reg} (within : Within (r :: reg) code s code' s') (spare : Spare code r)
    (ready : Ready code s) (owned : Owned code reg) : Kept reg code s code' s' := by
  refine within.kept (fun r' member => ?_) (fun r' member allocated => ?_) ready
  · rcases List.mem_cons.1 member with rfl | isReg
    · exact spare.toWritable
    · exact ready.writable (owned r' isReg)
  · rcases List.mem_cons.1 member with rfl | isReg
    · exact absurd allocated spare.free
    · exact isReg

theorem Exact.withinMono {written more : List Nat} (exact : Exact written code s code' s')
    (sub : ∀ r ∈ written, r ∈ more) : Within more code s code' s' := (exact.mono sub).within

/-- The shift to the left through a spare byte at the low end: the bits go down, and one byte up. -/
theorem wp_lslThrough {reg : Reg} {temp count k b : Nat} (ready : Ready code s) (nodup : reg.Nodup)
    (owned : Owned code reg) (spare : Spare code temp) (le : count ≤ reg.length) (isByte : k + b = 8) :
    target.wp (do
      zeroreg temp
      shiftRightBy (temp :: reg.take (reg.length - count)) k
      moveHighFirst (reg.drop count) ((temp :: reg.take (reg.length - count)).take (reg.length - count))
      moveImm (reg.take count) 0)
      (fun _ code' s' => Kept reg code s code' s' ∧ ShiftedLeft reg (8 * count + b) s s') code s := by
  have apart := spare.apart owned
  have nodupAll : (temp :: reg).Nodup := List.nodup_cons.2 ⟨apart, nodup⟩
  have bytesAll : Bytes (temp :: reg) := fun r member => by
    rcases List.mem_cons.1 member with rfl | isReg
    · exact spare.bound
    · exact owned.bytes r isReg
  have sub : (temp :: reg.take (reg.length - count)).Sublist (temp :: reg) :=
    (List.take_sublist _ reg).cons_cons temp
  refine wp_bind (wp_zeroreg ready fun code₁ s₁ exact₁ zero _ _ => ?_)
  refine wp_bind (wp_mono (wp_shiftRightBy k (nodupAll.sublist sub) (List.cons_ne_nil _ _)) ?_)
  rintro _ code₂ s₂ ⟨exact₂, shifted⟩
  have dest : reg.drop count = (temp :: reg).drop (count + 1) := rfl
  have source : (temp :: reg.take (reg.length - count)).take (reg.length - count) =
      (temp :: reg).take ((temp :: reg).length - (count + 1)) := by
    rw [← List.take_succ_cons, List.take_take, Nat.min_eq_left (Nat.le_succ _), List.length_cons, Nat.add_sub_add_right]
  rw [dest, source]
  refine wp_bind (wp_mono (wp_moveUp nodupAll bytesAll (Nat.succ_le_succ le)) ?_)
  rintro _ code₃ s₃ ⟨within₃, moved⟩
  have within : Within (temp :: reg) code s code₃ s₃ :=
    ((exact₁.withinMono fun r member => List.mem_singleton.1 member ▸ List.mem_cons_self).trans bytesAll
      (exact₂.withinMono fun r member => sub.subset member)).trans bytesAll (within₃.mono fun r => List.mem_of_mem_drop)
  have kept := within.keptSpare spare ready owned
  refine wp_mono (wp_fillLow count kept.ready nodup (owned.kept kept)) ?_
  rintro _ code' s' ⟨kept', filled⟩
  refine ⟨kept.trans owned.bytes kept', ?_⟩
  -- The bits of the low bytes with those of the spare byte below them.
  have before : regBits s₁ (temp :: reg.take (reg.length - count)) =
      List.replicate 8 false ++ (regBits s reg).take (8 * (reg.length - count)) := by
    have same : regBits s₁ (reg.take (reg.length - count)) = regBits s (reg.take (reg.length - count)) :=
      regBits_congr fun r member => exact₁.others r fun single => by
        rw [List.mem_singleton.1 single] at member
        exact apart (List.mem_of_mem_take member)
    rw [regBits_cons, zero, same, regBits_take]
    rfl
  have copied : regBits s₃ (reg.drop count) =
      (List.replicate b false ++ regBits s reg).take (8 * (reg.length - count)) := by
    have moved' : regBits s₃ (reg.drop count) =
        regBits s₂ ((temp :: reg.take (reg.length - count)).take (reg.length - count)) := by
      rw [source]
      exact congrArg bits moved
    rw [moved', regBits_take, shifted, before]
    exact take_drop_zeros isByte (by rw [length_regBits]; omega)
  rw [ShiftedLeft, ← List.replicate_append_replicate, List.append_assoc, take_zeros (Nat.mul_le_mul_left 8 le),
    ← Nat.mul_sub, filled, copied, Nat.min_eq_left le]

/-- The shift to the right through a spare byte at the high end: the bits go up, and one byte down. -/
theorem wp_lsrThrough {reg : Reg} {temp count k b : Nat} (ready : Ready code s) (nodup : reg.Nodup)
    (owned : Owned code reg) (spare : Spare code temp) (le : count ≤ reg.length) (isByte : k + b = 8) :
    target.wp (do
      zeroreg temp
      shiftLeftBy (reg.drop count ++ [temp]) k
      move (reg.take (reg.length - count)) ((reg.drop count ++ [temp]).drop 1) false
      moveImm (reg.drop (reg.length - count)) 0)
      (fun _ code' s' => Kept reg code s code' s' ∧ ShiftedRight reg (8 * count + b) s s') code s := by
  have apart := spare.apart owned
  have nodupAll : (reg ++ [temp]).Nodup := List.nodup_append.2 ⟨nodup, List.nodup_singleton temp, fun r member r' single => by
    rw [List.mem_singleton.1 single]
    exact fun same => apart (same ▸ member)⟩
  have isOne {r : Nat} : r ∈ reg ++ [temp] → r ∈ temp :: reg := fun member => by
    rcases List.mem_append.1 member with isReg | single
    · exact List.mem_cons_of_mem temp isReg
    · exact List.mem_singleton.1 single ▸ List.mem_cons_self
  have bytesAll : Bytes (temp :: reg) := fun r member => by
    rcases List.mem_cons.1 member with rfl | isReg
    · exact spare.bound
    · exact owned.bytes r isReg
  have sub : (reg.drop count ++ [temp]).Sublist (reg ++ [temp]) := (List.drop_sublist _ reg).append_right [temp]
  have some_byte : reg.drop count ++ [temp] ≠ [] := List.append_ne_nil_of_right_ne_nil _ (List.cons_ne_nil _ _)
  refine wp_bind (wp_zeroreg ready fun code₁ s₁ exact₁ zero _ _ => ?_)
  refine wp_bind (wp_mono (wp_shiftLeftBy k (nodupAll.sublist sub) some_byte) ?_)
  rintro _ code₂ s₂ ⟨exact₂, shifted⟩
  have dest : reg.take (reg.length - count) = (reg ++ [temp]).take ((reg ++ [temp]).length - (count + 1)) := by
    rw [List.length_append, List.length_singleton, Nat.add_sub_add_right, List.take_append_of_le_length (Nat.sub_le _ _)]
  have source : (reg.drop count ++ [temp]).drop 1 = (reg ++ [temp]).drop (count + 1) := by
    rw [← List.drop_append_of_le_length le, List.drop_drop]
  rw [dest, source]
  have enough : count + 1 ≤ (reg ++ [temp]).length := by
    rw [List.length_append]
    exact Nat.succ_le_succ le
  refine wp_bind (wp_mono (wp_moveDown nodupAll (fun r member => bytesAll r (isOne member)) enough) ?_)
  rintro _ code₃ s₃ ⟨within₃, moved⟩
  have within : Within (temp :: reg) code s code₃ s₃ :=
    ((exact₁.withinMono fun r member => List.mem_singleton.1 member ▸ List.mem_cons_self).trans bytesAll
      (exact₂.withinMono fun r member => isOne (sub.subset member))).trans bytesAll
      (within₃.mono fun r member => isOne (List.mem_of_mem_take member))
  have kept := within.keptSpare spare ready owned
  refine wp_mono (wp_fillHigh (reg.length - count) kept.ready nodup (owned.kept kept)) ?_
  rintro _ code' s' ⟨kept', filled⟩
  refine ⟨kept.trans owned.bytes kept', ?_⟩
  -- The bits of the high bytes with those of the spare byte above them.
  have before : regBits s₁ (reg.drop count ++ [temp]) = (regBits s reg).drop (8 * count) ++ List.replicate 8 false := by
    have same : regBits s₁ (reg.drop count) = regBits s (reg.drop count) :=
      regBits_congr fun r member => exact₁.others r fun single => by
        rw [List.mem_singleton.1 single] at member
        exact apart (List.mem_of_mem_drop member)
    rw [regBits_append, same, regBits_drop, regBits_cons, zero]
    rfl
  have copied : regBits s₃ (reg.take (reg.length - count)) =
      ((regBits s reg).drop (8 * count) ++ List.replicate b false).drop b := by
    have moved' : regBits s₃ (reg.take (reg.length - count)) = regBits s₂ ((reg.drop count ++ [temp]).drop 1) := by
      rw [source, dest]
      exact congrArg bits moved
    have length : 8 * (reg.drop count ++ [temp]).length = 8 + ((regBits s reg).drop (8 * count)).length := by
      rw [List.length_append, List.length_drop, List.length_drop, length_regBits, List.length_singleton]
      omega
    rw [moved', regBits_drop, shifted, before, length]
    exact drop_take_zeros isByte
  have zeros : 8 * (reg.length - (reg.length - count)) = 8 * count := by omega
  have first : 8 * count ≤ (regBits s reg).length := by
    rw [length_regBits]
    omega
  have second : b ≤ ((regBits s reg).drop (8 * count) ++ List.replicate b false).length := by
    rw [List.length_append, List.length_replicate]
    exact Nat.le_add_left b _
  rw [ShiftedRight, filled, copied, zeros, ← List.drop_append_of_le_length second, List.append_assoc,
    List.replicate_append_replicate, Nat.add_comm b, ← List.drop_drop, List.drop_append_of_le_length first]

/-! ### All of `lsl` -/

/-- Only the bits of a mask are kept. -/
theorem wp_andImm {r mask : Nat} (ready : Ready code s) (owned : inRegs code.allocated r = true) :
    target.wp (andImm r mask)
      (fun _ code' s' => Kept [r] code s code' s' ∧ s'.r r = s.r r &&& BitVec.ofNat 8 mask) code s := by
  refine wp_ite (fun _ => ?_) fun _ => ?_
  · refine wp_immreg fun _ _ => ⟨s.setRegZ r (s.r r &&& BitVec.ofNat 8 (mask % 256)), rfl, ?_⟩
    refine ⟨kept_pushed _ _ ready owned rfl rfl, ?_⟩
    rw [← ofNat_mod_byte mask]
    exact s.setReg_self r _
  · refine wp_bind (wp_immtemp ready fun highReg code₁ s₁ _ _ kept _ loaded => ?_)
    have owned₁ : inRegs code₁.allocated r = true := by
      rw [kept.allocated]
      exact owned
    have byte : Bytes [r] := fun r' member => by
      rw [List.mem_singleton.1 member]
      exact lt_of_inRegs owned
    refine wp_tworeg fun _ _ _ => ⟨s₁.setRegZ r (s₁.r r &&& s₁.r highReg), rfl, ?_⟩
    refine ⟨(kept.mono fun _ member => nomatch member).trans byte (kept_pushed _ _ kept.ready owned₁ rfl rfl), ?_⟩
    rw [← kept.others r (Or.inl owned) List.not_mem_nil, ← loaded]
    exact s₁.setReg_self r _

/-- The nibbles change places and one of them is kept. -/
theorem wp_swapAnd {r mask : Nat} (ready : Ready code s) (owned : inRegs code.allocated r = true) :
    target.wp (do
      onereg .swap r
      andImm r mask)
      (fun _ code' s' => Kept [r] code s code' s' ∧
        s'.r r = ((s.r r <<< 4) ||| (s.r r >>> 4)) &&& BitVec.ofNat 8 mask) code s := by
  refine wp_bind (wp_onereg fun _ => ⟨s.setReg r ((s.r r <<< 4) ||| (s.r r >>> 4)), rfl, ?_⟩)
  have kept₁ : Kept [r] code s (code.pushed ⟨.swap, r, 0⟩) (s.setReg r ((s.r r <<< 4) ||| (s.r r >>> 4))) :=
    kept_pushed _ _ ready owned rfl rfl
  have byte : Bytes [r] := fun r' member => by
    rw [List.mem_singleton.1 member]
    exact lt_of_inRegs owned
  refine wp_mono (wp_andImm kept₁.ready owned) ?_
  rintro _ code' s' ⟨kept, masked⟩
  refine ⟨kept₁.trans byte kept, ?_⟩
  rw [masked, AVRState.setReg_self]

/-- By how many bits `lsl` shifts. With a spare register and five to seven bits it cuts the number of bytes down to an
`unsigned char`. -/
def lslDistance (code : Code) (bits : Nat) : Nat :=
  if 5 ≤ bits % 8 ∧ hasSpare code = true then 8 * (bits / 8 % 256) + bits % 8 else bits

theorem Reg.part_all {reg : Reg} {count : Nat} (all : reg.length ≤ count % 256) : reg.part 0 count = reg := by
  rw [Reg.part, Reg.subset, Reg.size]
  split
  · exact (List.length_eq_zero_iff.1 (by omega)).symm
  · have count_eq : (if count % 256 = 0xFF then reg.length - 0 % 256 else min (count % 256) reg.length) = reg.length := by
      split
      · rfl
      · exact Nat.min_eq_right all
    simp only [count_eq]
    apply List.ext_getElem
    · rw [List.length_map, List.length_range]
    · intro i _ inside
      rw [List.getElem_map, List.getElem_range, Nat.zero_mod, Nat.zero_add, Nat.mod_eq_of_lt inside,
        Reg.reg_eq_getElem inside]

theorem Reg.part_none {reg : Reg} {offset : Nat} (count : Nat) (behind : reg.length ≤ offset % 256) :
    reg.part offset count = [] := if_pos behind

/-- Bit by bit, or through a spare register. -/
theorem wp_byBits {bits : Nat} {rest : Bool → Build Unit} (ready : Ready code s)
    (few : bits % 8 ≤ 4 ∨ hasSpare code = false → ∀ code', Kept [] code s code' s → target.wp (rest true) Q code' s)
    (many : 5 ≤ bits % 8 ∧ hasSpare code = true → ∀ code', Kept [] code s code' s →
      target.wp (rest false) Q code' s) :
    target.wp (if bits % 8 ≤ 4 then pure true >>= rest else do
      let found ← haveTempreg
      pure (!found) >>= rest) Q code s := by
  refine wp_ite (fun le => wp_bind (wp_pure (few (Or.inl le) code (Kept.refl ready)))) fun gt => ?_
  refine wp_bind (wp_haveTempreg ready fun code' kept => wp_bind (wp_pure ?_))
  cases found : hasSpare code with
  | false => exact few (Or.inr found) code' kept
  | true => exact many ⟨Nat.lt_of_not_le gt, found⟩ code' kept

/-- The number of the bytes that stay, when more than all of them go. -/
theorem sizeMinus_around {reg : Reg} {count : Nat} (bound : count < 2 ^ 32) (few : reg.length ≤ 32)
    (gt : reg.length < count % 256) : reg.length ≤ sizeMinus reg count % 256 := by
  rw [sizeMinus, Reg.size]
  omega

theorem moveHighFirst_nil (reg : Reg) : moveHighFirst [] reg = pure () := by
  have none : min (Reg.size []) reg.size = 0 := Nat.zero_min _
  rw [moveHighFirst, none]
  rfl

theorem wp_lsl {reg : Reg} {bits : Nat} (bound : bits < 2 ^ 32) (ready : Ready code s) (nodup : reg.Nodup)
    (owned : Owned code reg) :
    target.wp (lsl reg bits)
      (fun _ code' s' => Kept reg code s code' s' ∧ ShiftedLeft reg (lslDistance code bits) s s') code s := by
  have exactly (few : bits % 8 ≤ 4) : lslDistance code bits = bits := if_neg (by omega)
  have byBytes : 8 * (bits / 8) + bits % 8 = bits := Nat.div_add_mod bits 8
  refine wp_ite (fun nothing => wp_pure ⟨Kept.refl ready, ?_⟩) fun some_bits => wp_ite (fun one => ?_) fun _ =>
    wp_ite (fun isBytes => ?_) fun _ => wp_ite (fun nibble => ?_) fun _ => ?_
  · rcases nothing with rfl | empty
    · exact (List.take_of_length_le (Nat.le_of_eq (length_regBits s reg))).symm
    · rw [List.length_eq_zero_iff.1 empty]
      exact shiftedLeft_zero (Nat.zero_le _) fun r member => absurd member List.not_mem_nil
  · refine wp_mono (wp_shiftLeft nodup fun empty => some_bits (Or.inr (congrArg List.length empty))) ?_
    rintro _ code' s' ⟨exact, -, left⟩
    refine ⟨exact.owned owned ready, ?_⟩
    rw [exactly (by omega), one]
    exact left.shifted
  · refine wp_mono (wp_lslBytes (bits / 8) ready nodup owned) ?_
    rintro _ code' s' ⟨kept, shifted⟩
    refine ⟨kept, ?_⟩
    rw [exactly (by omega), ← byBytes, isBytes]
    exact shifted
  · obtain ⟨rfl, single⟩ := nibble
    obtain ⟨r, rfl⟩ := List.length_eq_one_iff.1 single
    refine wp_mono (wp_swapAnd ready (owned r List.mem_cons_self)) ?_
    rintro _ code' s' ⟨kept, masked⟩
    have byte : s'.r r = s.r r <<< 4 := by
      rw [Reg.reg, List.getD_cons_zero] at masked
      rw [masked]
      apply wordBits_inj
      simp [wordBits_byte]
    refine ⟨kept, ?_⟩
    rw [exactly (by omega), ShiftedLeft, regBits_cons, regBits_cons, byte, wordBits_shiftLeft]
    rfl
  · have none {r : Nat} (member : r ∈ ([] : List Nat)) : r ∈ reg := absurd member List.not_mem_nil
    refine wp_byBits ready (fun few code₁ kept₁ => ?_) fun many code₁ kept₁ => ?_
    · have exactly' : lslDistance code bits = bits % 8 + 8 * (bits / 8) := by
        rw [lslDistance, if_neg, Nat.mod_add_div]
        rintro ⟨gt, found⟩
        rcases few with le | notFound
        · omega
        · rw [found] at notFound
          cases notFound
      have kept₁ := kept₁.mono fun _ => none
      refine wp_ite (fun _ => ?_) fun no => absurd rfl no
      refine wp_bind (wp_mono (wp_lslBytes (bits / 8) kept₁.ready nodup (owned.kept kept₁)) ?_)
      rintro _ code₂ s₂ ⟨kept₂, bytes⟩
      have kept₂ := kept₁.trans owned.bytes kept₂
      refine wp_mono (wp_shiftLeftBy (bits % 8) nodup fun empty => some_bits (Or.inr (congrArg List.length empty))) ?_
      rintro _ code' s' ⟨exact, shifted⟩
      refine ⟨kept₂.trans owned.bytes (exact.owned (owned.kept kept₂) kept₂.ready), ?_⟩
      rw [exactly', ShiftedLeft, shifted, bytes, ← List.replicate_append_replicate, List.append_assoc, List.take_append,
        List.take_take, Nat.min_eq_left (Nat.sub_le _ _), ← List.take_append]
    · have distance : lslDistance code bits = 8 * (bits / 8 % 256) + bits % 8 := if_pos many
      have few := owned.bytes.length_le nodup
      have kept₁ := kept₁.mono fun _ => none
      refine wp_ite (fun no => absurd no Bool.false_ne_true) fun _ => ?_
      refine wp_bind (wp_tempreg kept₁.ready fun temp code₂ spare kept₂ => ?_)
      have kept₂ := kept₁.trans owned.bytes (kept₂.mono fun _ => none)
      have owned₂ := owned.kept kept₂
      rw [distance]
      by_cases le : bits / 8 % 256 ≤ reg.length
      · have rest := sizeMinus_mod (by omega) few le
        have low : reg.part 0 (sizeMinus reg (bits / 8)) = reg.take (reg.length - bits / 8 % 256) :=
          Reg.part_low rest (by omega) (by omega)
        have high : reg.part (bits / 8) (sizeMinus reg (bits / 8)) = reg.drop (bits / 8 % 256) :=
          Reg.part_high rfl rest le (by omega)
        have fill : reg.part 0 (bits / 8) = reg.take (bits / 8 % 256) := Reg.part_low rfl le (by omega)
        have length : (temp :: reg.take (reg.length - bits / 8 % 256)).length = reg.length - bits / 8 % 256 + 1 := by
          rw [List.length_cons, List.length_take, Nat.min_eq_left (Nat.sub_le _ _)]
        have source : Reg.part (temp :: reg.take (reg.length - bits / 8 % 256)) 0 (sizeMinus reg (bits / 8)) =
            (temp :: reg.take (reg.length - bits / 8 % 256)).take (reg.length - bits / 8 % 256) :=
          Reg.part_low rest (by rw [length]; omega) (by rw [length]; omega)
        dsimp only
        rw [low, high, fill, source]
        refine wp_mono (wp_lslThrough (b := bits % 8) kept₂.ready nodup owned₂ spare le (by omega)) ?_
        rintro _ code' s' ⟨kept, shifted⟩
        exact ⟨kept₂.trans owned.bytes kept, shifted⟩
      · have far := Nat.lt_of_not_le le
        have low : reg.part 0 (sizeMinus reg (bits / 8)) = reg :=
          Reg.part_all (sizeMinus_around (by omega) few far)
        have high : reg.part (bits / 8) (sizeMinus reg (bits / 8)) = [] := Reg.part_none _ (Nat.le_of_lt far)
        have fill : reg.part 0 (bits / 8) = reg := Reg.part_all (Nat.le_of_lt far)
        have nodupAll : (temp :: reg).Nodup := List.nodup_cons.2 ⟨spare.apart owned₂, nodup⟩
        dsimp only
        rw [low, high, fill, moveHighFirst_nil, pure_bind]
        refine wp_bind (wp_zeroreg kept₂.ready fun code₃ s₃ exact₃ _ _ _ => ?_)
        refine wp_bind (wp_mono (wp_shiftRightBy _ nodupAll (List.cons_ne_nil _ _)) ?_)
        rintro _ code₄ s₄ ⟨exact₄, -⟩
        have exact₄ := ((Exact.refl (temp :: reg) code₂ s).step exact₃ List.mem_cons_self).trans exact₄
        have kept₄ := kept₂.trans owned.bytes (exact₄.within.keptSpare spare kept₂.ready owned₂)
        refine wp_mono (wp_moveZero kept₄.ready (owned.kept kept₄)) ?_
        rintro _ code' s' ⟨kept, zeros⟩
        exact ⟨kept₄.trans owned.bytes kept, shiftedLeft_zero (by omega) zeros⟩

/-! ### All of `lsr` -/

/-- By how many bits `lsr` shifts. With a spare register and five to seven bits it cuts the number of bytes down to an
`unsigned char`, and shifts by none at all where that is more than the bytes of the register. -/
def lsrDistance (code : Code) (reg : Reg) (bits : Nat) : Nat :=
  if 5 ≤ bits % 8 ∧ hasSpare code = true then
    if reg.length < bits / 8 % 256 then 0 else 8 * (bits / 8 % 256) + bits % 8
  else bits

theorem move_nil (reg : Reg) : move reg [] false = pure () := by
  have none : min reg.size (Reg.size []) = 0 := Nat.min_zero _
  rw [move, none]
  rfl

theorem wp_lsr {reg : Reg} {bits : Nat} (bound : bits < 2 ^ 32) (ready : Ready code s) (nodup : reg.Nodup)
    (owned : Owned code reg) :
    target.wp (lsr reg bits)
      (fun _ code' s' => Kept reg code s code' s' ∧ ShiftedRight reg (lsrDistance code reg bits) s s') code s := by
  have exactly (few : bits % 8 ≤ 4) : lsrDistance code reg bits = bits := if_neg (by omega)
  have byBytes : 8 * (bits / 8) + bits % 8 = bits := Nat.div_add_mod bits 8
  refine wp_ite (fun nothing => wp_pure ⟨Kept.refl ready, ?_⟩) fun some_bits => wp_ite (fun one => ?_) fun _ =>
    wp_ite (fun isBytes => ?_) fun _ => wp_ite (fun nibble => ?_) fun _ => ?_
  · rcases nothing with rfl | empty
    · exact (List.append_nil _).symm
    · rw [List.length_eq_zero_iff.1 empty]
      exact shiftedRight_zero (Nat.zero_le _) fun r member => absurd member List.not_mem_nil
  · refine wp_mono (wp_shiftRight nodup fun empty => some_bits (Or.inr (congrArg List.length empty))) ?_
    rintro _ code' s' ⟨exact, -, right⟩
    refine ⟨exact.owned owned ready, ?_⟩
    rw [exactly (by omega), one]
    exact right.shifted
  · refine wp_mono (wp_lsrBytes (bits / 8) ready nodup owned) ?_
    rintro _ code' s' ⟨kept, shifted⟩
    refine ⟨kept, ?_⟩
    rw [exactly (by omega), ← byBytes, isBytes]
    exact shifted
  · obtain ⟨rfl, single⟩ := nibble
    obtain ⟨r, rfl⟩ := List.length_eq_one_iff.1 single
    refine wp_mono (wp_swapAnd ready (owned r List.mem_cons_self)) ?_
    rintro _ code' s' ⟨kept, masked⟩
    have byte : s'.r r = s.r r >>> 4 := by
      rw [Reg.reg, List.getD_cons_zero] at masked
      rw [masked]
      apply wordBits_inj
      simp [wordBits_byte]
    refine ⟨kept, ?_⟩
    rw [exactly (by omega), ShiftedRight, regBits_cons, regBits_cons, byte, wordBits_ushiftRight]
    rfl
  · have none {r : Nat} (member : r ∈ ([] : List Nat)) : r ∈ reg := absurd member List.not_mem_nil
    refine wp_byBits ready (fun few code₁ kept₁ => ?_) fun many code₁ kept₁ => ?_
    · have exactly' : lsrDistance code reg bits = 8 * (bits / 8) + bits % 8 := by
        rw [lsrDistance, if_neg, byBytes]
        rintro ⟨gt, found⟩
        rcases few with le | notFound
        · omega
        · rw [found] at notFound
          cases notFound
      have kept₁ := kept₁.mono fun _ => none
      refine wp_ite (fun _ => ?_) fun no => absurd rfl no
      refine wp_bind (wp_mono (wp_lsrBytes (bits / 8) kept₁.ready nodup (owned.kept kept₁)) ?_)
      rintro _ code₂ s₂ ⟨kept₂, bytes⟩
      have kept₂ := kept₁.trans owned.bytes kept₂
      refine wp_mono (wp_shiftRightBy (bits % 8) nodup fun empty => some_bits (Or.inr (congrArg List.length empty))) ?_
      rintro _ code' s' ⟨exact, shifted⟩
      refine ⟨kept₂.trans owned.bytes (exact.owned (owned.kept kept₂) kept₂.ready), ?_⟩
      have long : 8 * (bits / 8) ≤ (regBits s reg ++ List.replicate (8 * (bits / 8)) false).length := by
        rw [List.length_append, List.length_replicate]
        exact Nat.le_add_left _ _
      rw [exactly', ShiftedRight, shifted, bytes, ← List.drop_append_of_le_length long, List.drop_drop,
        List.append_assoc, List.replicate_append_replicate]
    · have few := owned.bytes.length_le nodup
      have kept₁ := kept₁.mono fun _ => none
      refine wp_ite (fun no => absurd no Bool.false_ne_true) fun _ => ?_
      refine wp_bind (wp_tempreg kept₁.ready fun temp code₂ spare kept₂ => ?_)
      have kept₂ := kept₁.trans owned.bytes (kept₂.mono fun _ => none)
      have owned₂ := owned.kept kept₂
      rw [lsrDistance, if_pos many]
      by_cases le : bits / 8 % 256 ≤ reg.length
      · rw [if_neg (Nat.not_lt_of_le le)]
        have rest := sizeMinus_mod (by omega) few le
        have low : reg.part 0 (sizeMinus reg (bits / 8)) = reg.take (reg.length - bits / 8 % 256) :=
          Reg.part_low rest (by omega) (by omega)
        have high : reg.part (bits / 8) (sizeMinus reg (bits / 8)) = reg.drop (bits / 8 % 256) :=
          Reg.part_high rfl rest le (by omega)
        have fill : reg.part (sizeMinus reg (bits / 8)) (bits / 8) = reg.drop (reg.length - bits / 8 % 256) :=
          Reg.part_high rest (by omega) (by omega) (by omega)
        have length : (reg.drop (bits / 8 % 256) ++ [temp]).length = reg.length - bits / 8 % 256 + 1 := by
          rw [List.length_append, List.length_drop, List.length_singleton]
        have source : Reg.part (reg.drop (bits / 8 % 256) ++ [temp]) 1 (sizeMinus reg (bits / 8)) =
            (reg.drop (bits / 8 % 256) ++ [temp]).drop 1 :=
          Reg.part_high rfl (by rw [length, rest]; omega) (by rw [length]; omega) (by rw [length]; omega)
        dsimp only
        rw [low, high, fill, source]
        refine wp_mono (wp_lsrThrough (b := bits % 8) kept₂.ready nodup owned₂ spare le (by omega)) ?_
        rintro _ code' s' ⟨kept, shifted⟩
        exact ⟨kept₂.trans owned.bytes kept, shifted⟩
      · -- No byte of the register is read or written.
        have far := Nat.lt_of_not_le le
        rw [if_pos far]
        have low : reg.part 0 (sizeMinus reg (bits / 8)) = reg :=
          Reg.part_all (sizeMinus_around (by omega) few far)
        have high : reg.part (bits / 8) (sizeMinus reg (bits / 8)) = [] := Reg.part_none _ (Nat.le_of_lt far)
        have fill : reg.part (sizeMinus reg (bits / 8)) (bits / 8) = [] :=
          Reg.part_none _ (sizeMinus_around (by omega) few far)
        have source : Reg.part [temp] 1 (sizeMinus reg (bits / 8)) = [] := Reg.part_none _ (Nat.le_refl 1)
        dsimp only
        rw [low, high, fill, List.nil_append, source, move_nil, pure_bind]
        refine wp_bind (wp_zeroreg kept₂.ready fun code₃ s₃ exact₃ _ _ _ => ?_)
        refine wp_bind (wp_mono (wp_shiftLeftBy _ (List.nodup_singleton temp) (List.cons_ne_nil _ _)) ?_)
        rintro _ code₄ s₄ ⟨exact₄, -⟩
        have exact₄ := exact₃.trans exact₄
        have kept₄ : Kept [] code₂ s code₄ s₄ := exact₄.within.keptSpare spare kept₂.ready fun _ member => absurd member List.not_mem_nil
        refine wp_pure ⟨kept₂.trans owned.bytes (kept₄.mono fun _ => none), ?_⟩
        have same : regBits s₄ reg = regBits s reg :=
          regBits_congr fun r member => kept₄.others r (Or.inl (owned₂ r member)) List.not_mem_nil
        rw [ShiftedRight, same]
        exact (List.append_nil _).symm

/-! ### All of `asr` -/

theorem wp_asr {reg : Reg} (ready : Ready code s) (nodup : reg.Nodup) (owned : Owned code reg) :
    target.wp (asr reg)
      (fun _ code' s' => Kept reg code s code' s' ∧ regValue s' reg = (regValue s reg).sshiftRight 1) code s := by
  rcases List.eq_nil_or_concat' reg with rfl | ⟨low, high, rfl⟩
  · exact wp_pure ⟨Kept.refl ready, wordBits_inj rfl⟩
  · have reversed : Reg.reversed (low ++ [high]) = high :: low.reverse := List.reverse_concat' low high
    rw [asr, reversed]
    refine wp_mono (wp_shiftDown shiftsByte_asr nodup) ?_
    rintro _ code' s' ⟨exact, -, right⟩
    refine ⟨exact.owned owned ready, wordBits_inj ?_⟩
    have sign : (regValue s (low ++ [high])).msb = (s.r high).msb := by
      have last := getLast?_wordBits (regValue s (low ++ [high])) (by rw [List.length_append, List.length_singleton]; omega)
      have single : regBits s [high] = wordBits (s.r high) := List.append_nil _
      rw [wordBits_regValue, regBits_append, single, List.getLast?_append, getLast?_wordBits (s.r high) (by decide)] at last
      exact (Option.some.inj last).symm
    rw [wordBits_sshiftRight, wordBits_regValue, wordBits_regValue, sign]
    exact right.shifted

end AsconSuite.Avr
