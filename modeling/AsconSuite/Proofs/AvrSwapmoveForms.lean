/-
Module: AsconSuite.Proofs.AvrSwapmoveForms
Layer: Proofs
Purpose: Every form of `swapmove` against its documentation: the special forms for bytes and halves, the temporary register
  that it allocates, and exactly the inputs for which the documented result is left.
Imports: AsconSuite.Proofs.AvrSwapmove, AsconSuite.Proofs.AvrSums
Trusted boundary: none (fully proved)
Main exports: Avr.SwapmoveMeets, Avr.wp_swapmove, Avr.swapmove_leaves_result_iff
-/
import AsconSuite.Proofs.AvrSwapmove
import AsconSuite.Proofs.AvrSums

namespace AsconSuite.Avr

open ByteWord ByteMemory ByteNumber BitStrings
open Emit (Target)
open Emit.Target

variable {code code' : Code} {s s' : AVRState}

/-! ### The sequences of calls -/

theorem swapmoveSteps_eq {t reg1 reg2 : Reg} (size2 : reg2.length = t.length) (mask shift : Nat) :
    swapmoveSteps t reg1 reg2 mask shift = swapmoveFront t.length t reg1 reg2 mask shift := by
  have all : t.drop t.length = [] := List.drop_length
  have none : moveImm [] 0 = pure () := rfl
  rw [swapmoveFront, all, none, ← size2, List.take_length, size2, List.take_length]
  simp only [pure_bind]
  rfl

theorem swapmoveLow_eq {t reg1 reg2 : Reg} (size : t.length = 4) (size2 : reg2.length = 4) (mask shift : Nat) :
    swapmoveLow t reg1 reg2 mask shift = swapmoveFront 2 t reg1 reg2 mask shift := by
  have lowT : t.part 0 2 = t.take 2 := Reg.part_low rfl (by omega) (by omega)
  have low2 : reg2.part 0 2 = reg2.take 2 := Reg.part_low rfl (by omega) (by omega)
  have highT : t.part 2 2 = t.drop 2 := Reg.part_high rfl (by omega) (by omega) (by omega)
  rw [swapmoveLow, swapmoveFront, lowT, low2, highT]

/-- The front of a swap and move leaves the documented result where no shift goes too far, or where that does no
harm. -/
theorem swapmoveFront_iff {count : Nat} {t reg1 reg2 : Reg} {mask shift : Nat} (le : count ≤ t.length)
    (below : mask < 2 ^ (8 * count)) (bound : shift < 2 ^ 32) (ready : Ready code s)
    (operands : SwapOperands code t reg1 reg2) :
    target.wp (swapmoveFront count t reg1 reg2 mask shift) (fun _ code' s' =>
      Kept (t ++ (reg1 ++ reg2)) code s code' s' ∧
      (Swapmoved reg1 reg2
        (swapmoveBits (regNat s reg1) (regNat s reg2) mask shift)
        (swapmoveBits (regNat s reg1) (regNat s reg2) mask shift <<< shift % 2 ^ (8 * t.length)) s s' ↔
        (Overshoots (hasSpare code) t.length shift →
          Harmless reg1 reg2 (regNat s reg1) (regNat s reg2) mask t.length shift))) code s := by
  refine wp_mono (wp_swapmoveFront le below bound ready operands) ?_
  rintro _ code' s' ⟨kept, moved⟩
  refine ⟨kept, moved.iff.trans (changes_iff (operands.ownedT.bytes.length_le operands.nodupT) ?_)⟩
  have small := regNat_lt s reg1
  rwa [operands.size1, pow_bytes] at small

/-- The low bytes that a swap and move by the sequence leaves out. -/
def skipped (size mask : Nat) : Nat := if size = 4 ∧ mask &&& 0x0000FFFF = 0 then 2 else 0

/-- The inputs for which the sequence leaves the documented result. -/
def ThroughMeets (spare : Bool) (reg1 reg2 : Reg) (x1 x2 mask shift : Nat) : Prop :=
  Overshoots spare (reg1.length - skipped reg1.length mask) shift →
    Harmless reg1 reg2 (x1 >>> (8 * skipped reg1.length mask)) (x2 >>> (8 * skipped reg1.length mask))
      (mask >>> (8 * skipped reg1.length mask)) (reg1.length - skipped reg1.length mask) shift

theorem throughMeets_all {spare : Bool} {reg1 reg2 : Reg} {x1 x2 mask shift : Nat}
    (all : ¬(reg1.length = 4 ∧ mask &&& 0x0000FFFF = 0)) :
    ThroughMeets spare reg1 reg2 x1 x2 mask shift ↔
      (Overshoots spare reg1.length shift → Harmless reg1 reg2 x1 x2 mask reg1.length shift) := by
  rw [ThroughMeets, skipped, if_neg all]
  rfl

/-- Bits above the low ones, which move with them. -/
theorem shiftLeft_mod_upper (x count shift size : Nat) :
    (x <<< count) <<< shift % 2 ^ (count + size) = (x <<< shift % 2 ^ size) <<< count := by
  simp only [Nat.shiftLeft_eq]
  rw [Nat.mul_right_comm, Nat.pow_add, Nat.mul_comm _ (2 ^ count), Nat.mul_mod_mul_left, Nat.mul_comm (2 ^ count)]

/-- The calls for the upper two of four bytes. -/
theorem wp_swapmoveUpper {t reg1 reg2 : Reg} {mask shift : Nat} (size : reg1.length = 4)
    (upper : mask &&& 0x0000FFFF = 0) (below : mask < 2 ^ 32) (bound : shift < 2 ^ 32) (ready : Ready code s)
    (operands : SwapOperands code t reg1 reg2) :
    target.wp (swapmoveSteps (t.part 0 2) (reg1.part 2 2) (reg2.part 2 2) (mask >>> 16) shift) (fun _ code' s' =>
      Kept (t ++ (reg1 ++ reg2)) code s code' s' ∧
      (Swapmoved reg1 reg2
        (swapmoveBits (regNat s reg1) (regNat s reg2) mask shift)
        (swapmoveBits (regNat s reg1) (regNat s reg2) mask shift <<< shift % 2 ^ (8 * reg1.length)) s s' ↔
        ThroughMeets (hasSpare code) reg1 reg2 (regNat s reg1) (regNat s reg2) mask shift)) code s := by
  obtain ⟨nodupT, nodup1, nodup2, ownedT, owned1, owned2, size1, size2, apart1, apart2, regs⟩ := operands
  have sizeT : t.length = 4 := by rw [← size1, size]
  have size2' : reg2.length = 4 := by rw [size2, sizeT]
  have lengthT : (t.take 2).length = 2 := by rw [List.length_take, sizeT]; rfl
  have length1 : (reg1.drop 2).length = 2 := by rw [List.length_drop, size]
  have length2 : (reg2.drop 2).length = 2 := by rw [List.length_drop, size2']
  have inT {r : Nat} (member : r ∈ t.take 2) : r ∈ t := List.mem_of_mem_take member
  have in1 {r : Nat} (member : r ∈ reg1.drop 2) : r ∈ reg1 := List.mem_of_mem_drop member
  have in2 {r : Nat} (member : r ∈ reg2.drop 2) : r ∈ reg2 := List.mem_of_mem_drop member
  have partT : t.part 0 2 = t.take 2 := Reg.part_low rfl (by omega) (by omega)
  have part1 : reg1.part 2 2 = reg1.drop 2 := Reg.part_high rfl (by omega) (by omega) (by omega)
  have part2 : reg2.part 2 2 = reg2.drop 2 := Reg.part_high rfl (by omega) (by omega) (by omega)
  rw [partT, part1, part2]
  have halves : SwapOperands code (t.take 2) (reg1.drop 2) (reg2.drop 2) := {
    nodupT := nodupT.sublist (List.take_sublist 2 t)
    nodup1 := nodup1.sublist (List.drop_sublist 2 reg1)
    nodup2 := nodup2.sublist (List.drop_sublist 2 reg2)
    ownedT := fun r member => ownedT r (inT member)
    owned1 := fun r member => owned1 r (in1 member)
    owned2 := fun r member => owned2 r (in2 member)
    size1 := length1.trans lengthT.symm
    size2 := length2.trans lengthT.symm
    apart1 := fun r isT is1 => apart1 r (inT isT) (in1 is1)
    apart2 := fun r isT is2 => apart2 r (inT isT) (in2 is2)
    regs := regs.imp (congrArg (List.drop 2)) fun disjoint r is1 is2 => disjoint r (in1 is1) (in2 is2) }
  have low : mask % 2 ^ 16 = 0 := by rw [← upper, ← Nat.and_two_pow_sub_one_eq_mod]
  have small : mask >>> 16 < 2 ^ (8 * (t.take 2).length) := by
    rw [lengthT, Nat.shiftRight_eq_div_pow]
    exact Nat.div_lt_of_lt_mul below
  refine wp_congr (swapmoveSteps_eq (length2.trans lengthT.symm) _ _) (wp_mono
    (wp_swapmoveFront (Nat.le_refl _) small bound ready halves) ?_)
  rintro _ code' s' ⟨kept, moved⟩
  -- The low bytes are not written.
  have notWritten {reg : Reg} (owned : Owned code reg) (apartT : ∀ r ∈ t, r ∉ reg)
      (not1 : ∀ r ∈ reg.take 2, r ∉ reg1.drop 2) (not2 : ∀ r ∈ reg.take 2, r ∉ reg2.drop 2) :
      regNat s' (reg.take 2) = regNat s (reg.take 2) := by
    refine regNat_kept (fun r member => owned r (List.mem_of_mem_take member)) kept fun r member written => ?_
    rcases List.mem_append.1 written with isT | other
    · exact apartT r (inT isT) (List.mem_of_mem_take member)
    · exact (List.mem_append.1 other).elim (not1 r member) (not2 r member)
  have apartSelf {reg : Reg} (nodup : reg.Nodup) : ∀ r ∈ reg.take 2, r ∉ reg.drop 2 := fun r isLow isHigh =>
    List.disjoint_take_drop nodup (Nat.le_refl 2) isLow isHigh
  have low1 : regNat s' (reg1.take 2) = regNat s (reg1.take 2) := by
    refine notWritten owned1 apart1 (apartSelf nodup1) fun r isLow isHigh => ?_
    rcases regs with rfl | disjoint
    · exact apartSelf nodup1 r isLow isHigh
    · exact disjoint r (List.mem_of_mem_take isLow) (in2 isHigh)
  have low2 : regNat s' (reg2.take 2) = regNat s (reg2.take 2) := by
    refine notWritten owned2 apart2 (fun r isLow isHigh => ?_) (apartSelf nodup2)
    rcases regs with rfl | disjoint
    · exact apartSelf nodup1 r isLow isHigh
    · exact disjoint r (in1 isHigh) (List.mem_of_mem_take isLow)
  refine ⟨kept.mono fun r member => ?_, ?_⟩
  · rcases List.mem_append.1 member with isT | other
    · exact List.mem_append_left _ (inT isT)
    · refine List.mem_append_right _ ?_
      exact (List.mem_append.1 other).elim (fun is1 => List.mem_append_left _ (in1 is1))
        fun is2 => List.mem_append_right _ (in2 is2)
  -- The documented change is that of the upper halves.
  have whole := moved.upper (by omega) (size.trans size2'.symm) regs low1 low2
  have smallHigh : regNat s (reg1.drop 2) < 2 ^ (8 * (t.take 2).length) := by
    have lt := regNat_lt s (reg1.drop 2)
    rw [length1, pow_bytes] at lt
    rw [lengthT]
    exact lt
  have same := @changes_iff code (t.take 2) reg1 reg2 _ (regNat s (reg2.drop 2)) (mask >>> 16) shift (by omega) smallHigh
  have skip : skipped reg1.length mask = 2 := if_pos ⟨size, upper⟩
  have total : 8 * 4 = 16 + 8 * 2 := rfl
  rw [whole.iff, swapmoveBits_upper low, ThroughMeets, skip, size, total, shiftLeft_mod_upper,
    ← regNat_drop s reg1 (by omega : 2 ≤ reg1.length), ← regNat_drop s reg2 (by omega : 2 ≤ reg2.length)]
  rw [lengthT] at same ⊢
  simp only [← Nat.shiftLeft_xor_distrib, shiftLeft_inj]
  exact same

theorem lt_of_upper_zero {mask : Nat} (below : mask < 2 ^ 32) (lower : mask &&& 0xFFFF0000 = 0) : mask < 2 ^ 16 := by
  have upper : (0xFFFF0000 : Nat) = (2 ^ 16 - 1) <<< 16 := rfl
  refine Nat.lt_pow_two_of_testBit mask fun i high => ?_
  rcases Nat.lt_or_ge i 32 with lt | ge
  · have bit := congrArg (Nat.testBit · i) lower
    simp only [Nat.testBit_and, Nat.zero_testBit] at bit
    rw [upper, Nat.testBit_shiftLeft, Nat.testBit_two_pow_sub_one, decide_eq_true (by omega), decide_eq_true (by omega),
      Bool.and_true, Bool.and_true] at bit
    exact bit
  · exact Nat.testBit_lt_two_pow (Nat.lt_of_lt_of_le below (Nat.pow_le_pow_right Nat.two_pos ge))

/-- The calls with a temporary register leave the documented result where no shift goes too far, or where that does no
harm. -/
theorem wp_swapmoveThrough {t reg1 reg2 : Reg} {mask shift : Nat} (below : mask < 2 ^ (8 * reg1.length))
    (bound : shift < 2 ^ 32) (ready : Ready code s) (operands : SwapOperands code t reg1 reg2) :
    target.wp (swapmoveThrough t reg1 reg2 mask shift) (fun _ code' s' =>
      Kept (t ++ (reg1 ++ reg2)) code s code' s' ∧
      (Swapmoved reg1 reg2
        (swapmoveBits (regNat s reg1) (regNat s reg2) mask shift)
        (swapmoveBits (regNat s reg1) (regNat s reg2) mask shift <<< shift % 2 ^ (8 * reg1.length)) s s' ↔
        ThroughMeets (hasSpare code) reg1 reg2 (regNat s reg1) (regNat s reg2) mask shift)) code s := by
  have size1 := operands.size1
  have size2 := operands.size2
  refine wp_ite (fun upper => ?_) fun notUpper => ?_
  · have below : mask < 2 ^ 32 := by
      rw [show reg1.length = 4 from upper.1] at below
      exact below
    exact wp_swapmoveUpper upper.1 upper.2 below bound ready operands
  · simp only [throughMeets_all notUpper, size1]
    rw [size1] at below
    refine wp_ite (fun lower => ?_) fun _ => ?_
    · have size : t.length = 4 := size1.symm.trans lower.1
      rw [size] at below
      refine wp_congr (swapmoveLow_eq size (size2.trans size) mask shift) ?_
      exact swapmoveFront_iff (by omega) (lt_of_upper_zero below lower.2) bound ready operands
    · refine wp_congr (swapmoveSteps_eq size2 mask shift) ?_
      exact swapmoveFront_iff (Nat.le_refl _) below bound ready operands

/-! ### The temporary register -/

/-- A register that prefers high registers is taken as any other one. Nothing is written. -/
theorem wp_allocateRegPreferHigh {size : Nat} {P : Reg → Code → AVRState → Prop} (ready : Ready code s)
    (found : ∀ temps code₁ code₂, temps.length = size → Kept [] code s code₁ s → Took temps code₁ code₂ →
      P temps code₂ s) :
    target.wp (allocateRegPreferHigh size) P code s := by
  refine wp_bind (wp_allocateRegLoop size size [] (fun r member => (ready.mem_regOrder member).1) ?_)
  intro temps code₁ le _ took
  refine wp_ite (fun few => ?_) fun enough => ?_
  · refine wp_bind (wp_releaseReg [] took ready (Kept.refl (took.ready ready)) fun code₂ kept _ => ?_)
    exact wp_allocateReg kept.ready.toConventions fun temps' code₃ all took' =>
      found temps' code₂ code₃ all kept took'
  · exact wp_pure (found temps code code₁ (Nat.le_antisymm le (Nat.le_of_not_lt enough)) (Kept.refl ready) took)

/-- No register is allocated twice, and `r0` may be when its flag is set. -/
theorem resetRegs_nodup : ∀ x y z one zero : Bool, ([18, 19, 20, 21, 22, 23] ++
      (if x then [26, 27] else []) ++ (if y then [28, 29] else []) ++ (if z then [30, 31] else []) ++
      [2, 3, 4, 5, 6, 7, 8, 9, 10, 11, 12, 13, 14, 15] ++ [24, 25, 16, 17] ++
      (if one then [1] else []) ++ (if zero then [0] else [])).Nodup := by
  decide

theorem Conventions.nodup_regOrder (conventions : Conventions code) : code.regOrder.Nodup := by
  rw [conventions.order]
  exact resetRegs_nodup _ _ _ _ _

theorem Conventions.r0_mem_regOrder (conventions : Conventions code) (temp : code.hasFlag tempR0 = true) :
    0 ∈ code.regOrder := by
  have last : 0 ∈ if code.hasFlag tempR0 then [0] else [] := by
    rw [if_pos temp]
    exact List.mem_cons_self
  rw [conventions.order]
  exact List.mem_append_right _ last

/-- The registers that may still be allocated. -/
def freeRegs (code : Code) : List Nat := code.regOrder.filter fun reg => !inRegs code.allocated reg

theorem mem_freeRegs {r : Nat} : r ∈ freeRegs code ↔ r ∈ code.regOrder ∧ inRegs code.allocated r = false := by
  rw [freeRegs, List.mem_filter, Bool.not_eq_true']

/-- Where `r0` may be allocated, a register is a spare one only when it is free. -/
theorem hasSpare_eq (conventions : Conventions code) :
    hasSpare code = (!code.hasFlag tempR0 || decide (0 < (freeRegs code).length)) := by
  rw [hasSpare, Bool.eq_iff_iff]
  simp only [Bool.or_eq_true, Bool.not_eq_true', List.any_eq_true, decide_eq_true_eq, List.length_pos_iff_exists_mem,
    mem_freeRegs]
  constructor
  · rintro ((none | unused) | free)
    · exact Or.inl none
    · cases temp : code.hasFlag tempR0 with
      | false => exact Or.inl rfl
      | true => exact Or.inr ⟨0, conventions.r0_mem_regOrder temp, unused⟩
    · exact Or.inr free
  · exact Or.imp_left Or.inl

/-- The free registers when some are taken. -/
theorem Took.length_freeRegs {temps : Reg} (took : Took temps code code') (conventions : Conventions code) :
    (freeRegs code').length + temps.length = (freeRegs code).length := by
  have split : (freeRegs code).Perm (freeRegs code' ++ temps) := by
    refine (List.perm_ext_iff_of_nodup (conventions.nodup_regOrder.filter _) (List.nodup_append.2
      ⟨(took.regOrder ▸ conventions.nodup_regOrder).filter _, took.nodup, ?_⟩)).2 fun r => ?_
    · rintro r free _ member rfl
      have taken := (took.allocated r).2 (Or.inr member)
      rw [(mem_freeRegs.1 free).2] at taken
      exact absurd taken Bool.false_ne_true
    · rw [← freeRegs, List.mem_append, mem_freeRegs, mem_freeRegs, took.regOrder, ← Bool.not_eq_true, ← Bool.not_eq_true,
        took.allocated, not_or]
      constructor
      · rintro ⟨inOrder, free⟩
        by_cases member : r ∈ temps
        · exact Or.inr member
        · exact Or.inl ⟨inOrder, free, member⟩
      · rintro (⟨inOrder, free, -⟩ | member)
        · exact ⟨inOrder, free⟩
        · exact ⟨(took.free r member).2, (took.free r member).1⟩
  rw [split.length_eq, List.length_append]

/-! ### All forms -/

/-- What the arguments of `swapmove` must be: bytes that are allocated, and a temporary register, if there is one, of the
same size that has none of them. -/
structure SwapArguments (code : Code) (temp reg1 reg2 : Reg) : Prop where
  nodup1 : reg1.Nodup
  nodup2 : reg2.Nodup
  owned1 : Owned code reg1
  owned2 : Owned code reg2
  sameSize : reg1.length = reg2.length
  regs : SameOrDisjoint reg1 reg2
  temporary : temp = [] ∨ temp.length = reg1.length ∧ temp.Nodup ∧ Owned code temp ∧
    (∀ r ∈ temp, r ∉ reg1) ∧ ∀ r ∈ temp, r ∉ reg2

/-- The arguments with a temporary register that was allocated for them. -/
theorem SwapArguments.operands {t reg1 reg2 temp : Reg} (arguments : SwapArguments code temp reg1 reg2)
    (length : t.length = reg1.length) (took : Took t code code') : SwapOperands code' t reg1 reg2 where
  nodupT := took.nodup
  nodup1 := arguments.nodup1
  nodup2 := arguments.nodup2
  ownedT := fun r member => (took.allocated r).2 (Or.inr member)
  owned1 := fun r member => (took.allocated r).2 (Or.inl (arguments.owned1 r member))
  owned2 := fun r member => (took.allocated r).2 (Or.inl (arguments.owned2 r member))
  size1 := length.symm
  size2 := arguments.sameSize.symm.trans length.symm
  apart1 := fun r member is1 => (took.free r member).1 (arguments.owned1 r is1)
  apart2 := fun r member is2 => (took.free r member).1 (arguments.owned2 r is2)
  regs := arguments.regs

/-- Is there a register beside the temporary one that a shift may use? -/
def spareBeside (code : Code) (temp : Reg) (size : Nat) : Bool :=
  !code.hasFlag tempR0 || decide ((if temp = [] then size else 0) < (freeRegs code).length)

/-- The inputs for which the code of `swapmove` leaves the documented result. One byte must not be swapped with itself
where `r0` may be allocated, and no shift may go too far. -/
def SwapmoveMeets (code : Code) (temp reg1 reg2 : Reg) (x1 x2 mask shift : Nat) : Prop :=
  (reg1 = reg2 → reg1.length = 1 → mask = 0xFF → shift = 0 → code.hasFlag tempR0 = true → x1 = 0) ∧
  ThroughMeets (spareBeside code temp reg1.length) reg1 reg2 x1 x2 mask shift

theorem throughMeets_bytes {spare : Bool} {reg1 reg2 : Reg} {x1 x2 mask shift : Nat} (bytes : shift % 8 = 0) :
    ThroughMeets spare reg1 reg2 x1 x2 mask shift := fun far => by
  have many := far.1
  omega

/-- The swap of the high byte with the low one. -/
theorem wp_swapmoveByte {temp reg1 reg2 : Reg} {mask shift : Nat} (below : mask < 2 ^ (8 * reg1.length))
    (isByte : mask = 0xFF ∧ shift = sizeMinus reg1 1 * 8 % 2 ^ 32) (ready : Ready code s)
    (arguments : SwapArguments code temp reg1 reg2) :
    target.wp (swap (reg1.part (sizeMinus reg1 1) 1) (reg2.part 0 1)) (fun _ code' s' =>
      Kept (reg1 ++ reg2) code s code' s' ∧
      (Swapmoved reg1 reg2
        (swapmoveBits (regNat s reg1) (regNat s reg2) mask shift)
        (swapmoveBits (regNat s reg1) (regNat s reg2) mask shift <<< shift % 2 ^ (8 * reg1.length)) s s' ↔
        SwapmoveMeets code temp reg1 reg2 (regNat s reg1) (regNat s reg2) mask shift)) code s := by
  obtain ⟨nodup1, nodup2, owned1, owned2, sameSize, regs, -⟩ := arguments
  have few := owned1.bytes.length_le nodup1
  obtain ⟨rfl, isShift⟩ := isByte
  have some_byte : 1 ≤ reg1.length := by
    refine Nat.one_le_iff_ne_zero.2 fun none => ?_
    rw [none] at below
    exact absurd below (by decide)
  have last : sizeMinus reg1 1 = reg1.length - 1 := by
    rw [sizeMinus, Reg.size]
    omega
  have shift_eq : shift = 8 * (reg1.length - 1) := by
    rw [isShift, last]
    omega
  have high : reg1.part (sizeMinus reg1 1) 1 = reg1.drop (reg1.length - 1) :=
    Reg.part_high (by omega) (by omega) (by omega) (by omega)
  have low : reg2.part 0 1 = reg2.take 1 := Reg.part_low rfl (by omega) (by omega)
  have meets : SwapmoveMeets code temp reg1 reg2 (regNat s reg1) (regNat s reg2) 0xFF shift ↔
      (reg1 = reg2 → reg1.length = 1 → code.hasFlag tempR0 = true → regNat s reg1 = 0) := by
    refine (and_iff_left (throughMeets_bytes (by omega))).trans ⟨fun holds same one => ?_, fun holds same one _ _ => ?_⟩
    · exact holds same one rfl (by omega)
    · exact holds same one
  rw [high, low, meets]
  by_cases twice : reg1 = reg2 ∧ reg1.length = 1
  · obtain ⟨rfl, one⟩ := twice
    obtain ⟨r, rfl⟩ := List.length_eq_one_iff.1 one
    refine wp_bind (wp_mono (wp_swapByte ready (owned1 r List.mem_cons_self) (owned1 r List.mem_cons_self)) ?_)
    rintro _ code' s' ⟨kept, -, same⟩
    refine wp_pure ⟨kept, ?_⟩
    have unchanged : swapmoveBits (regNat s [r]) (regNat s [r]) 0xFF shift = 0 := by
      rw [shift_eq, one, swapmoveBits, Nat.sub_self, Nat.mul_zero, Nat.shiftRight_zero, Nat.xor_self, Nat.zero_and]
    have result : Swapmoved [r] [r] 0 0 s s' ↔ regNat s' [r] = regNat s [r] := by
      constructor
      · intro moved
        have value := moved.same rfl
        rwa [Nat.xor_zero, Nat.xor_zero] at value
      · intro value
        refine ⟨fun _ => ?_, fun other => absurd rfl other⟩
        rw [value, Nat.xor_zero, Nat.xor_zero]
    rw [unchanged, Nat.zero_shiftLeft, Nat.zero_mod, result, regNat_cons, regNat_cons, same rfl]
    cases temp : code.hasFlag tempR0 with
    | false => exact iff_of_true rfl fun _ _ isTemp => absurd isTemp Bool.false_ne_true
    | true => exact ⟨fun value _ _ _ => value.symm, fun zero => (zero rfl rfl rfl).symm⟩
  · refine wp_mono (wp_swapHalves some_byte sameSize (fun same => ?_) ready nodup1 nodup2 owned1 owned2 regs) ?_
    · have more : reg1.length ≠ 1 := fun one => twice ⟨same, one⟩
      omega
    · rintro _ code' s' ⟨kept, moved⟩
      rw [shift_eq]
      exact ⟨kept, iff_of_true moved fun same one => absurd ⟨same, one⟩ twice⟩

/-- Every form of `swapmove` leaves the documented result where the inputs are as they must be. -/
theorem wp_swapmove {temp reg1 reg2 : Reg} {mask shift : Nat} (below : mask < 2 ^ (8 * reg1.length))
    (bound : shift < 2 ^ 32) (ready : Ready code s) (arguments : SwapArguments code temp reg1 reg2) :
    target.wp (swapmove reg1 reg2 mask shift temp) (fun _ code' s' =>
      Kept (temp ++ (reg1 ++ reg2)) code s code' s' ∧
      (Swapmoved reg1 reg2
        (swapmoveBits (regNat s reg1) (regNat s reg2) mask shift)
        (swapmoveBits (regNat s reg1) (regNat s reg2) mask shift <<< shift % 2 ^ (8 * reg1.length)) s s' ↔
        SwapmoveMeets code temp reg1 reg2 (regNat s reg1) (regNat s reg2) mask shift)) code s := by
  refine wp_ite (fun _ => wp_throw) fun _ => wp_ite (fun isByte => ?_) fun notByte => wp_ite (fun isHalf => ?_) fun _ => ?_
  · refine wp_mono (wp_swapmoveByte below isByte ready arguments) ?_
    rintro _ code' s' ⟨kept, holds⟩
    exact ⟨kept.mono fun _ => List.mem_append_right _, holds⟩
  · obtain ⟨rfl, rfl, size⟩ := isHalf
    have size1 : reg1.length = 4 := size
    have size2 : reg2.length = 4 := arguments.sameSize.symm.trans size1
    have high : reg1.part 2 2 = reg1.drop (reg1.length - 2) := by
      rw [size1]
      exact Reg.part_high rfl (by omega) (by omega) (by omega)
    have low : reg2.part 0 2 = reg2.take 2 := Reg.part_low rfl (by omega) (by omega)
    rw [high, low]
    refine wp_mono (wp_swapHalves (by omega) arguments.sameSize (fun _ => by omega) ready arguments.nodup1
      arguments.nodup2 arguments.owned1 arguments.owned2 arguments.regs) ?_
    rintro _ code' s' ⟨kept, moved⟩
    refine ⟨kept.mono fun _ => List.mem_append_right _, iff_of_true ?_ ⟨?_, throughMeets_bytes rfl⟩⟩
    · rw [size1] at moved ⊢
      exact moved
    · exact fun _ one => absurd (size1.symm.trans one) (by decide)
  · have notTwice : reg1 = reg2 → reg1.length = 1 → mask = 0xFF → shift = 0 → code.hasFlag tempR0 = true →
        regNat s reg1 = 0 := by
      intro _ one isMask none
      refine absurd ⟨isMask, ?_⟩ notByte
      rw [none, sizeMinus, Reg.size, one]
      rfl
    rw [SwapmoveMeets, and_iff_right notTwice]
    refine wp_ite (fun none => ?_) fun some_byte => ?_
    · have empty : temp = [] := List.length_eq_zero_iff.1 none
      refine wp_bind (wp_allocateRegPreferHigh ready fun t code₁ code₂ isSize kept₁ took => ?_)
      have length : t.length = reg1.length := isSize
      have arguments₁ : SwapArguments code₁ temp reg1 reg2 :=
        { arguments with
          owned1 := arguments.owned1.kept kept₁
          owned2 := arguments.owned2.kept kept₁
          temporary := Or.inl empty }
      refine wp_bind (wp_mono (wp_swapmoveThrough below bound (took.ready kept₁.ready)
        (arguments₁.operands length took)) ?_)
      rintro _ code₃ s₃ ⟨kept₃, holds⟩
      refine wp_releaseReg (reg1 ++ reg2) took kept₁.ready (kept₃.mono fun r member => ?_) fun code' kept' _ => ?_
      · exact (List.mem_append.1 member).elim (List.mem_append_right _) (List.mem_append_left _)
      · have bytes : Bytes (reg1 ++ reg2) := fun r member =>
          (List.mem_append.1 member).elim (arguments.owned1.bytes r) (arguments.owned2.bytes r)
        have all := (kept₁.mono fun _ member => absurd member List.not_mem_nil).trans bytes kept'
        refine ⟨all.mono fun _ => List.mem_append_right _, ?_⟩
        have spare : hasSpare code₂ = spareBeside code temp reg1.length := by
          have count := took.length_freeRegs kept₁.ready.toConventions
          have before : freeRegs code₁ = freeRegs code := by
            rw [freeRegs, freeRegs, kept₁.allocated, kept₁.ready.order, ready.order,
              resetRegs_regOrder_congr kept₁.flags]
          rw [hasSpare_eq (took.ready kept₁.ready).toConventions, took.hasFlag, kept₁.hasFlag, spareBeside, if_pos empty,
            ← before, ← count, length]
          congr 1
          exact decide_eq_decide.2 (by omega)
        rw [← spare]
        exact holds
    · have notEmpty : temp ≠ [] := fun empty => some_byte (List.length_eq_zero_iff.2 empty)
      obtain ⟨length, nodup, owned, apart1, apart2⟩ := arguments.temporary.resolve_left notEmpty
      refine wp_mono (wp_swapmoveThrough below bound ready {
        nodupT := nodup
        nodup1 := arguments.nodup1
        nodup2 := arguments.nodup2
        ownedT := owned
        owned1 := arguments.owned1
        owned2 := arguments.owned2
        size1 := length.symm
        size2 := arguments.sameSize.symm.trans length.symm
        apart1 := apart1
        apart2 := apart2
        regs := arguments.regs }) ?_
      rintro _ code' s' ⟨kept, holds⟩
      rw [spareBeside, if_neg notEmpty, ← hasSpare_eq ready.toConventions]
      exact ⟨kept, holds⟩

/-- `t = (reg2 ^ (reg1 >> shift)) & mask; reg2 ^= t; reg1 ^= (t << shift);` -/
def DoesSwapmove (reg1 reg2 : Reg) (mask shift : Nat) (s s' : AVRState) : Prop :=
  Swapmoved reg1 reg2 (swapmoveBits (regNat s reg1) (regNat s reg2) mask shift)
    (swapmoveBits (regNat s reg1) (regNat s reg2) mask shift <<< shift % 2 ^ (8 * reg1.length)) s s'

/-- The code of `swapmove` leaves every other register that is allocated, the stack pointer and memory above it. It leaves
the documented result too, but for a byte that is swapped with itself by XOR, and for shifts by at least all bytes of the
temporary register and five to seven bits where these leave bits behind. -/
theorem swapmove_leaves_result_iff {temp reg1 reg2 : Reg} {mask shift : Nat}
    (emitted : (swapmove reg1 reg2 mask shift temp).run code = .ok ((), code')) (below : mask < 2 ^ (8 * reg1.length))
    (bound : shift < 2 ^ 32) (ready : Ready code s) (arguments : SwapArguments code temp reg1 reg2) :
    ∃ seg s', code'.insns = code.insns ++ seg ∧ RunsTo seg s s' ∧
      (∀ r, inRegs code.allocated r = true → r ∉ temp ++ (reg1 ++ reg2) → s'.r r = s.r r) ∧ s'.pair 32 = s.pair 32 ∧
      (∀ a, s.pair 32 ≤ a → s'.memory a = s.memory a) ∧
      (DoesSwapmove reg1 reg2 mask shift s s' ↔
        SwapmoveMeets code temp reg1 reg2 (regNat s reg1) (regNat s reg2) mask shift) := by
  obtain ⟨seg, s', parts, runs, kept, holds⟩ := runsTo_of_wp (wp_swapmove below bound ready arguments) emitted
  have bytes : Bytes (temp ++ (reg1 ++ reg2)) := by
    intro r member
    rcases List.mem_append.1 member with isTemp | other
    · rcases arguments.temporary with rfl | ⟨-, -, owned, -⟩
      · exact absurd isTemp List.not_mem_nil
      · exact owned.bytes r isTemp
    · exact (List.mem_append.1 other).elim (arguments.owned1.bytes r) (arguments.owned2.bytes r)
  exact ⟨seg, s', parts, runs, fun r allocated other => kept.others r (Or.inl allocated) other, kept.pair bytes,
    kept.memory, holds⟩

/-- The halves of the bytes of two registers. -/
theorem swapmove_leaves_result_iff_nibbles :
    ∃ code', (swapmove [18, 19] [20, 21] 0x0F0F 4 []).run fourRegisters = .ok ((), code') ∧
      ∃ seg s', code'.insns = fourRegisters.insns ++ seg ∧ RunsTo seg AVRState.new s' ∧
        (∀ r, inRegs fourRegisters.allocated r = true → r ∉ ([] ++ ([18, 19] ++ [20, 21]) : Reg) →
          s'.r r = AVRState.new.r r) ∧
        s'.pair 32 = AVRState.new.pair 32 ∧
        (∀ a, AVRState.new.pair 32 ≤ a → s'.memory a = AVRState.new.memory a) ∧
        (DoesSwapmove [18, 19] [20, 21] 0x0F0F 4 AVRState.new s' ↔ SwapmoveMeets fourRegisters [] [18, 19] [20, 21]
          (regNat AVRState.new [18, 19]) (regNat AVRState.new [20, 21]) 0x0F0F 4) :=
  ⟨_, rfl, swapmove_leaves_result_iff rfl (by decide) (by decide) ready_fourRegisters ⟨by decide, by decide,
    owned_fourRegisters_low, owned_fourRegisters_high, rfl, Or.inr (by decide), Or.inl rfl⟩⟩

/-- The upper half of a word does not stay behind when it is shifted out, and one byte that is swapped with itself
becomes zero. -/
theorem swapmove_by_twentyNine_leaves_half :
    (∃ code', (swapmove [18, 19, 20, 21] [22, 23, 2, 3] 0xFFFF0000 29 []).run
        { Code.new with allocated := 0x00FC000C#32 } = .ok ((), code') ∧
      (execLoop code' 40 AVRState.new).map (fun final => final.map (regNat · [22, 23, 2, 3])) =
        some (.ok 0x55555555) ∧
      regNat AVRState.new [22, 23, 2, 3] ^^^ swapmoveBits (regNat AVRState.new [18, 19, 20, 21])
        (regNat AVRState.new [22, 23, 2, 3]) 0xFFFF0000 29 = 0x00005555) ∧
    ∃ code', (swapmoveOne [18] 0xFF 0 []).run (twoRegisters.setFlag tempR0) = .ok ((), code') ∧
      (execLoop code' 8 AVRState.new).map (fun final => final.map (regNat · [18])) = some (.ok 0) ∧
      regNat AVRState.new [18] = 0x55 ∧
      swapmoveBits (regNat AVRState.new [18]) (regNat AVRState.new [18]) 0xFF 0 = 0 :=
  ⟨⟨_, rfl, by decide +kernel, by decide +kernel⟩, _, rfl, by decide +kernel, by decide +kernel, by decide +kernel⟩

end AsconSuite.Avr
