/-
Module: AsconSuite.Proofs.AvrSums
Layer: Proofs
Purpose: The numbers in registers, and the code of the additions and subtractions: which of them leave the sum or the
  difference that they are for.
Imports: AsconSuite.Base.ByteNumber, AsconSuite.Proofs.AvrRegisters, AsconSuite.Tools.AvrArithmetic
Trusted boundary: none
Main exports: Avr.regNat, Avr.regValue
-/
import AsconSuite.Base.ByteNumber
import AsconSuite.Proofs.AvrRegisters
import AsconSuite.Tools.AvrArithmetic

namespace AsconSuite.Avr

open ByteWord ByteMemory ByteNumber
open Emit (Target)
open Emit.Target

variable {code code' : Code} {s s' : AVRState} {Q : Unit → Code → AVRState → Prop}

/-! ### Numbers in registers -/

/-- The number in a register, low byte first. -/
def regNat (s : AVRState) (reg : Reg) : Nat := number (reg.map s.r)

/-- The number in a register as a word of its size. -/
def regValue (s : AVRState) (reg : Reg) : BitVec (8 * reg.length) := BitVec.ofNat (8 * reg.length) (regNat s reg)

theorem regNat_cons (s : AVRState) (r : Nat) (rest : Reg) :
    regNat s (r :: rest) = (s.r r).toNat + 256 * regNat s rest := rfl

theorem regNat_congr {reg : Reg} (same : ∀ r ∈ reg, s'.r r = s.r r) : regNat s' reg = regNat s reg :=
  congrArg number (List.map_congr_left same)

theorem regNat_lt (s : AVRState) (reg : Reg) : regNat s reg < 256 ^ reg.length := by
  have small := number_lt (reg.map s.r)
  rwa [List.length_map] at small

/-- The bytes of a register belong to the caller. -/
def Owned (code : Code) (reg : Reg) : Prop := ∀ r ∈ reg, inRegs code.allocated r = true

theorem Owned.kept {reg : Reg} {written : List Nat} (owned : Owned code reg) (kept : Kept written code s code' s') :
    Owned code' reg := fun r member => by
  rw [kept.allocated]
  exact owned r member

theorem regNat_kept {reg : Reg} {written : List Nat} (owned : Owned code reg) (kept : Kept written code s code' s')
    (apart : ∀ r ∈ reg, r ∉ written) : regNat s' reg = regNat s reg :=
  regNat_congr fun r member => kept.others r (Or.inl (owned r member)) (apart r member)

/-- A byte that is written is none of those behind the low one of another register. -/
theorem regNat_behind {r r' : Nat} {rest : Reg} (owned : Owned code (r' :: rest)) (kept : Kept [r] code s code' s')
    (apart : r ∉ rest) : regNat s' rest = regNat s rest := by
  refine regNat_kept (fun r member => owned r (List.mem_cons_of_mem r' member)) kept fun r member same => ?_
  rw [List.mem_singleton.1 same] at member
  exact apart member

theorem Owned.bytes {reg : Reg} (owned : Owned code reg) : Bytes reg := fun r member => lt_of_inRegs (owned r member)

/-! ### Single bytes -/

theorem AVRState.setSum_eq (s : AVRState) (reg sum : Nat) (small : sum < 512) :
    ((s.setSum reg sum).r reg).toNat + 256 * (s.setSum reg sum).carry = sum := by
  have byte : (s.setSum reg sum).r reg = BitVec.ofNat 8 sum := s.setReg_self reg _
  have carry : (s.setSum reg sum).carry = if 256 ≤ sum then 1 else 0 := by
    rw [AVRState.carry, AVRState.setSum]
    by_cases carries : 256 ≤ sum
    · rw [if_pos carries, decide_eq_true carries]; rfl
    · rw [if_neg carries, decide_eq_false carries]; rfl
  rw [byte, carry, BitVec.toNat_ofNat]
  split
  · omega
  · omega

theorem AVRState.setDifference_eq (s : AVRState) (reg : Nat) (result : Int) (low : -256 ≤ result) (high : result < 256) :
    (((s.setDifference reg result).r reg).toNat : Int) - 256 * (s.setDifference reg result).carry = result := by
  have byte : (s.setDifference reg result).r reg = BitVec.ofInt 8 result := AVRState.setReg_self _ reg _
  have carry : (s.setDifference reg result).carry = if result < 0 then 1 else 0 := by
    rw [AVRState.carry, AVRState.setDifference, AVRState.setCompared]
    by_cases under : result < 0
    · rw [if_pos under]; exact congrArg Bool.toNat (decide_eq_true under)
    · rw [if_neg under]; exact congrArg Bool.toNat (decide_eq_false under)
  rw [byte, carry, BitVec.toNat_ofInt]
  split
  · omega
  · omega

/-- The instructions that add or subtract a register, with the carry or without it. -/
def sumType (sub withCarry : Bool) : InsnType :=
  match sub, withCarry with
  | false, true => .adc
  | false, false => .add
  | true, true => .sbc
  | true, false => .sub

/-- A difference is a sum with a negative number and a negative carry. -/
def sumSign (sub : Bool) : Int := if sub then -1 else 1

/-- The carry that goes into a sum. -/
def carryIn (s : AVRState) (withCarry : Bool) : Int := if withCarry then s.carry else 0

/-- A byte and the carry are the sum of the byte before, of a number and of the carry that goes in. -/
def ByteSum (sub withCarry : Bool) (reg : Nat) (x : Int) (s s' : AVRState) : Prop :=
  ((s'.r reg).toNat : Int) + 256 * (sumSign sub * s'.carry) =
    (s.r reg).toNat + sumSign sub * x + sumSign sub * carryIn s withCarry

theorem AVRState.carry_le (s : AVRState) : s.carry ≤ 1 := Bool.toNat_le s.c

theorem stepInsn_sum (sub withCarry : Bool) (s : AVRState) (r1 r2 : Nat) :
    ∃ s' b, stepInsn s ⟨sumType sub withCarry, r1, r2⟩ = .ok s' ∧ s'.r = (s.setReg r1 b).r ∧
      s'.memory = s.memory ∧ ByteSum sub withCarry r1 (s.r r2).toNat s s' := by
  have small1 := (s.r r1).isLt
  have small2 := (s.r r2).isLt
  have smallCarry := s.carry_le
  cases sub with
  | false =>
      cases withCarry with
      | false =>
          have sum := s.setSum_eq r1 ((s.r r1).toNat + (s.r r2).toNat) (by omega)
          refine ⟨_, _, rfl, rfl, rfl, ?_⟩
          simp only [ByteSum, sumSign, carryIn, Bool.false_eq_true, if_false]
          omega
      | true =>
          have sum := s.setSum_eq r1 ((s.r r1).toNat + s.carry + (s.r r2).toNat) (by omega)
          refine ⟨_, _, rfl, rfl, rfl, ?_⟩
          simp only [ByteSum, sumSign, carryIn, Bool.false_eq_true, if_false, if_true]
          omega
  | true =>
      cases withCarry with
      | false =>
          have difference := s.setDifference_eq r1 ((s.r r1).toNat - (s.r r2).toNat) (by omega) (by omega)
          refine ⟨_, _, rfl, rfl, rfl, ?_⟩
          simp only [ByteSum, sumSign, carryIn, Bool.false_eq_true, if_false, if_true]
          omega
      | true =>
          have difference := s.setDifference_eq r1 ((s.r r1).toNat - (s.r r2).toNat - s.carry) (by omega)
            (by omega)
          refine ⟨_, _, rfl, rfl, rfl, ?_⟩
          simp only [ByteSum, sumSign, carryIn, if_true]
          omega

/-- One instruction that adds or subtracts a register. -/
theorem wp_sumReg (sub withCarry : Bool) {r1 r2 : Nat} (ready : Ready code s) (owned : inRegs code.allocated r1 = true)
    (holds : ∀ code' s', Kept [r1] code s code' s' → ByteSum sub withCarry r1 (s.r r2).toNat s s' → Q () code' s') :
    target.wp (tworeg (sumType sub withCarry) r1 r2) Q code s := by
  obtain ⟨s', b, stepped, regs, memory, sum⟩ := stepInsn_sum sub withCarry s r1 r2
  exact wp_tworeg fun _ _ _ => ⟨s', stepped, holds _ _ (kept_pushed _ b ready owned regs memory) sum⟩

/-- An instruction that adds or subtracts an immediate value from a temporary register. -/
theorem wp_sumImm (sub withCarry : Bool) {r1 value : Nat} {cont : Unit → Build Unit} (ready : Ready code s)
    (owned : inRegs code.allocated r1 = true)
    (holds : ∀ code' s', Kept [r1] code s code' s' → ByteSum sub withCarry r1 (value % 256 : Nat) s s' →
      target.wp (cont ()) Q code' s') :
    target.wp (immtemp value >>= fun highReg => tworeg (sumType sub withCarry) r1 highReg >>= cont) Q code s := by
  refine wp_bind (wp_immtemp ready fun highReg code₁ s₁ _ _ kept status loaded => ?_)
  have owned₁ : inRegs code₁.allocated r1 = true := by
    rw [kept.allocated]
    exact owned
  refine wp_bind (wp_sumReg _ _ kept.ready owned₁ fun code' s' kept' sum => holds code' s' ?_ ?_)
  · have byte : Bytes [r1] := fun r member => by
      rw [List.mem_singleton.1 member]
      exact lt_of_inRegs owned
    exact (kept.mono fun _ member => nomatch member).trans byte kept'
  · have same : s₁.r r1 = s.r r1 := kept.others r1 (Or.inl owned) List.not_mem_nil
    have carry : carryIn s₁ withCarry = carryIn s withCarry := by
      rw [carryIn, carryIn, AVRState.carry, AVRState.carry, status.c]
    rw [ByteSum, loaded, same, carry, BitVec.toNat_ofNat] at sum
    exact sum

/-- The carry is added to a byte or subtracted from it. -/
theorem wp_sumZero (sub : Bool) {r1 : Nat} {cont : Unit → Build Unit} (ready : Ready code s)
    (owned : inRegs code.allocated r1 = true)
    (holds : ∀ code' s', Kept [r1] code s code' s' → ByteSum sub true r1 0 s s' → target.wp (cont ()) Q code' s') :
    target.wp (if !code.hasFlag tempR1 then tworeg (sumType sub true) r1 zeroRegNumber >>= cont
      else immtemp 0 >>= fun highReg => tworeg (sumType sub true) r1 highReg >>= cont) Q code s := by
  refine wp_ite (fun noTemp => ?_) fun _ => wp_sumImm sub true ready owned holds
  rw [Bool.not_eq_true'] at noTemp
  refine wp_bind (wp_sumReg _ _ ready owned fun code' s' kept sum => holds code' s' kept ?_)
  have zero : s.r zeroRegNumber = 0#8 := ready.zero noTemp
  rw [zero] at sum
  exact sum

/-! ### Sums of registers -/

/-- The code adds a number to a register and keeps the rest. -/
structure Adds (reg : Reg) (x : Int) (code : Code) (s : AVRState) (code' : Code) (s' : AVRState) : Prop where
  kept : Kept reg code s code' s'
  sum : (regNat s' reg : Int) ≡ regNat s reg + x [ZMOD 256 ^ reg.length]

theorem Adds.congr {reg : Reg} {x y : Int} (adds : Adds reg x code s code' s') (same : x = y) :
    Adds reg y code s code' s' := same ▸ adds

/-- The sum of the low byte, whose carry goes into the sum of the others. -/
theorem Adds.cons {r : Nat} {rest : Reg} {x y carry : Int} {code₁ : Code} {s₁ : AVRState} (apart : r ∉ rest)
    (owned : Owned code (r :: rest)) (kept : Kept [r] code s code₁ s₁)
    (first : ((s₁.r r).toNat : Int) + 256 * carry = (s.r r).toNat + x)
    (others : Adds rest (y + carry) code₁ s₁ code' s') : Adds (r :: rest) (x + 256 * y) code s code' s' where
  kept := by
    have bytes : Bytes (r :: rest) := owned.bytes
    refine (kept.mono fun r' member => ?_).trans bytes (others.kept.mono fun r' member => List.mem_cons_of_mem r member)
    rw [List.mem_singleton.1 member]
    exact List.mem_cons_self
  sum := by
    have before : regNat s₁ rest = regNat s rest := regNat_behind owned kept apart
    have after : s'.r r = s₁.r r := by
      refine others.kept.others r (Or.inl ?_) apart
      rw [kept.allocated]
      exact owned r List.mem_cons_self
    have sum := others.sum
    rw [before, ← add_assoc] at sum
    have step := carry_step (first.trans (add_zero _).symm) sum
    rw [add_zero] at step
    rw [regNat_cons, regNat_cons, after, List.length_cons, Nat.cast_add, Nat.cast_add, Nat.cast_mul, Nat.cast_mul]
    exact step

/-- The same for an instruction that adds or subtracts. -/
theorem Adds.ofByte {sub withCarry : Bool} {r : Nat} {rest : Reg} {x y : Int} {code₁ : Code} {s₁ : AVRState}
    (apart : r ∉ rest) (owned : Owned code (r :: rest)) (kept : Kept [r] code s code₁ s₁)
    (sum : ByteSum sub withCarry r x s s₁)
    (others : Adds rest (sumSign sub * y + sumSign sub * s₁.carry) code₁ s₁ code' s') :
    Adds (r :: rest) (sumSign sub * (x + 256 * y) + sumSign sub * carryIn s withCarry) code s code' s' := by
  rw [ByteSum, add_assoc] at sum
  exact (Adds.cons apart owned kept sum others).congr (by ring)

/-- The bytes of an operand that are read behind a byte that was written are other bytes. -/
def Unclobbered : (reg1 reg2 : Reg) → Prop
  | r1 :: rest1, _ :: rest2 => r1 ∉ rest2 ∧ Unclobbered rest1 rest2
  | _, _ => True

theorem unclobbered_self {reg : Reg} (nodup : reg.Nodup) : Unclobbered reg reg := by
  induction reg with
  | nil => trivial
  | cons r rest ih => exact ⟨(List.nodup_cons.1 nodup).1, ih (List.nodup_cons.1 nodup).2⟩

theorem unclobbered_disjoint {reg1 reg2 : Reg} (disjoint : ∀ r ∈ reg1, r ∉ reg2) : Unclobbered reg1 reg2 := by
  induction reg1 generalizing reg2 with
  | nil => trivial
  | cons r1 rest1 ih =>
      cases reg2 with
      | nil => trivial
      | cons r2 rest2 =>
          refine ⟨fun member => disjoint r1 List.mem_cons_self (List.mem_cons_of_mem r2 member), ih ?_⟩
          exact fun r member member' => disjoint r (List.mem_cons_of_mem r1 member) (List.mem_cons_of_mem r2 member')

/-- `adc` and `sbc` of two registers, which differ in their instruction. -/
def carryBytes (sub : Bool) : (reg1 reg2 : Reg) → Build Unit
  | [], _ => return
  | r1 :: rest1, r2 :: rest2 => do
      tworeg (sumType sub true) r1 r2
      carryBytes sub rest1 rest2
  | r1 :: rest1, [] => do
      let code ← get
      if !code.hasFlag tempR1 then tworeg (sumType sub true) r1 zeroRegNumber
      else
        let highReg ← immtemp 0
        tworeg (sumType sub true) r1 highReg
      carryBytes sub rest1 []

theorem adc_eq_carryBytes (reg1 reg2 : Reg) : adc reg1 reg2 = carryBytes false reg1 reg2 := by
  induction reg1 generalizing reg2 with
  | nil => rfl
  | cons r1 rest1 ih =>
      cases reg2 with
      | nil => rw [adc, carryBytes, ih]; rfl
      | cons r2 rest2 => rw [adc, carryBytes, ih]; rfl

theorem sbcBytes_eq_carryBytes (reg1 reg2 : Reg) : sbcBytes reg1 reg2 = carryBytes true reg1 reg2 := by
  induction reg1 generalizing reg2 with
  | nil => rfl
  | cons r1 rest1 ih =>
      cases reg2 with
      | nil => rw [sbcBytes, carryBytes, ih]; rfl
      | cons r2 rest2 => rw [sbcBytes, carryBytes, ih]; rfl

theorem Adds.nil (ready : Ready code s) (x : Int) : Adds [] x code s code s where
  kept := Kept.refl ready
  sum := Int.modEq_one

theorem Owned.behind {r : Nat} {rest : Reg} (owned : Owned code (r :: rest)) : Owned code rest :=
  fun r' member => owned r' (List.mem_cons_of_mem r member)

/-- The parts of a register behind its low byte, once that byte is written. -/
theorem Owned.tail {r : Nat} {rest : Reg} {written : List Nat} (owned : Owned code (r :: rest))
    (kept : Kept written code s code' s') : Owned code' rest := owned.behind.kept kept

theorem wp_carryBytes (sub : Bool) {reg1 reg2 : Reg} (ready : Ready code s) (nodup : reg1.Nodup)
    (owned1 : Owned code reg1) (owned2 : Owned code reg2) (unclobbered : Unclobbered reg1 reg2) :
    target.wp (carryBytes sub reg1 reg2)
      (fun _ => Adds reg1 (sumSign sub * regNat s reg2 + sumSign sub * s.carry) code s) code s := by
  induction reg1 generalizing reg2 code s with
  | nil => exact wp_pure (Adds.nil ready _)
  | cons r1 rest1 ih =>
      obtain ⟨apart, nodup⟩ := List.nodup_cons.1 nodup
      have ownedByte := owned1 r1 List.mem_cons_self
      cases reg2 with
      | nil =>
          refine wp_bind (wp_get (wp_sumZero sub ready ownedByte fun code₁ s₁ kept sum => ?_))
          refine wp_mono (ih kept.ready nodup (owned1.tail kept) (fun _ member => nomatch member) ?_) ?_
          · cases rest1 <;> trivial
          · intro _ code' s' others
            have adds := Adds.ofByte (y := regNat s₁ []) apart owned1 kept sum others
            exact adds
      | cons r2 rest2 =>
          refine wp_bind (wp_sumReg _ _ ready ownedByte fun code₁ s₁ kept sum => ?_)
          refine wp_mono (ih kept.ready nodup (owned1.tail kept) (owned2.tail kept) unclobbered.2) ?_
          intro _ code' s' others
          have adds := Adds.ofByte apart owned1 kept sum others
          rw [regNat_behind owned2 kept unclobbered.1] at adds
          rw [regNat_cons, Nat.cast_add, Nat.cast_mul]
          exact adds

/-- `add` and `sub` of two registers, which differ in their instructions. -/
def sumBytes (sub : Bool) : (reg1 reg2 : Reg) → Build Unit
  | _, [] => return
  | [], _ => return
  | r1 :: rest1, r2 :: rest2 => do
      tworeg (sumType sub false) r1 r2
      carryBytes sub rest1 rest2

theorem add_eq_sumBytes (reg1 reg2 : Reg) : add reg1 reg2 = sumBytes false reg1 reg2 := by
  cases reg2 with
  | nil => rw [add, sumBytes]
  | cons r2 rest2 =>
      cases reg1 with
      | nil => rfl
      | cons r1 rest1 => rw [add, sumBytes, adc_eq_carryBytes]; rfl

theorem sub_eq_sumBytes (reg1 reg2 : Reg) : sub reg1 reg2 = sumBytes true reg1 reg2 := by
  cases reg2 with
  | nil => rw [sub, sumBytes]
  | cons r2 rest2 =>
      cases reg1 with
      | nil => rfl
      | cons r1 rest1 => rw [sub, sumBytes, sbcBytes_eq_carryBytes]; rfl

theorem Adds.refl {reg : Reg} (ready : Ready code s) : Adds reg 0 code s code s where
  kept := Kept.refl ready
  sum := by rw [add_zero]

theorem wp_sumBytes (sub : Bool) {reg1 reg2 : Reg} (ready : Ready code s) (nodup : reg1.Nodup)
    (owned1 : Owned code reg1) (owned2 : Owned code reg2) (unclobbered : Unclobbered reg1 reg2) :
    target.wp (sumBytes sub reg1 reg2) (fun _ => Adds reg1 (sumSign sub * regNat s reg2) code s) code s := by
  cases reg2 with
  | nil =>
      rw [sumBytes]
      exact wp_pure ((Adds.refl ready).congr (mul_zero _).symm)
  | cons r2 rest2 =>
      cases reg1 with
      | nil => exact wp_pure (Adds.nil ready _)
      | cons r1 rest1 =>
          obtain ⟨apart, nodup⟩ := List.nodup_cons.1 nodup
          refine wp_bind (wp_sumReg _ _ ready (owned1 r1 List.mem_cons_self) fun code₁ s₁ kept sum => ?_)
          refine wp_mono (wp_carryBytes sub kept.ready nodup (owned1.tail kept) (owned2.tail kept) unclobbered.2) ?_
          intro _ code' s' others
          have adds := Adds.ofByte apart owned1 kept sum others
          rw [regNat_behind owned2 kept unclobbered.1] at adds
          rw [regNat_cons, Nat.cast_add, Nat.cast_mul]
          exact adds.congr ((congrArg _ (mul_zero _)).trans (add_zero _))

/-! ### Immediate values -/

/-- A register of one byte. -/
theorem Adds.single {r : Nat} {x : Int} (kept : Kept [r] code s code' s')
    (byte : ((s'.r r).toNat : Int) ≡ (s.r r).toNat + x [ZMOD 256]) : Adds [r] x code s code' s' where
  kept := kept
  sum := byte

/-- A zero byte is left out as long as there is no carry. -/
theorem Adds.skip {r : Nat} {rest : Reg} {sub : Bool} {y : Int} (ready : Ready code s) (apart : r ∉ rest)
    (owned : Owned code (r :: rest)) (others : Adds rest (sumSign sub * y + sumSign sub * carryIn s false) code s code' s') :
    Adds (r :: rest) (sumSign sub * (0 + 256 * y) + sumSign sub * carryIn s false) code s code' s' := by
  have none : carryIn s false = 0 := rfl
  rw [none, mul_zero] at others
  have first : ((s.r r).toNat : Int) + 256 * 0 = (s.r r).toNat + 0 := by rw [mul_zero]
  have adds := Adds.cons apart owned (Kept.refl ready) first others
  rw [none]
  exact adds.congr (by ring)

theorem value_split (value : Nat) : (value : Int) = (value % 256 : Nat) + 256 * (value >>> 8 : Nat) := by
  rw [Nat.shiftRight_eq_div_pow]
  omega

/-- A register of one byte after an instruction that does not look at the carry. -/
theorem Adds.only {r : Nat} {rest : Reg} {size : Nat} {sub haveCarry : Bool} {value : Nat} {b : Byte} (insn : Insn)
    (s' : AVRState) (ready : Ready code s) (owned : Owned code (r :: rest)) (isSingle : size = 1)
    (single : size = 1 → (r :: rest).length ≤ 1) (noCarry : haveCarry = false)
    (regs : s'.r = (s.setReg r b).r) (memory : s'.memory = s.memory)
    (byte : (b.toNat : Int) ≡ (s.r r).toNat + sumSign sub * (value % 256 : Nat) [ZMOD 256]) :
    rest = [] ∧ Adds (r :: rest) (sumSign sub * value + sumSign sub * carryIn s haveCarry) code s (code.pushed insn) s' := by
  have alone : rest = [] := List.length_eq_zero_iff.1 (Nat.le_zero.1 (Nat.le_of_succ_le_succ (single isSingle)))
  subst alone noCarry
  refine ⟨rfl, Adds.single (kept_pushed insn b ready (owned r List.mem_cons_self) regs memory) ?_⟩
  · have written : s'.r r = b := by
      rw [regs]
      exact s.setReg_self r b
    have none : carryIn s false = 0 := rfl
    rw [written, none, mul_zero, add_zero, value_split value, mul_add, ← add_assoc]
    refine byte.trans ?_
    refine (Int.modEq_iff_dvd.2 ⟨sumSign sub * (value >>> 8 : Nat), ?_⟩)
    ring

theorem toNat_ofInt_modEq (x : Int) : ((BitVec.ofInt 8 x).toNat : Int) ≡ x [ZMOD 256] := by
  rw [BitVec.toNat_ofInt, Int.ModEq]
  omega

theorem toNat_add_one_modEq (b : Byte) : ((b + 1#8).toNat : Int) ≡ b.toNat + 1 [ZMOD 256] := by
  have one : (1#8).toNat = 1 := rfl
  rw [BitVec.toNat_add, one, Int.ModEq]
  omega

theorem toNat_sub_one_modEq (b : Byte) : ((b - 1#8).toNat : Int) ≡ b.toNat - 1 [ZMOD 256] := by
  have one : (1#8).toNat = 1 := rfl
  rw [BitVec.toNat_sub, one, Int.ModEq]
  omega

theorem wp_addImmLoop {size value : Nat} {haveCarry : Bool} {reg : Reg} (ready : Ready code s) (nodup : reg.Nodup)
    (owned : Owned code reg) (single : size = 1 → reg.length ≤ 1) :
    target.wp (addImmLoop size reg value haveCarry)
      (fun _ => Adds reg (sumSign false * value + sumSign false * carryIn s haveCarry) code s) code s := by
  induction reg generalizing value haveCarry code s with
  | nil => exact wp_pure (Adds.nil ready _)
  | cons r rest ih =>
      obtain ⟨apart, nodup⟩ := List.nodup_cons.1 nodup
      have ownedByte := owned r List.mem_cons_self
      have singleRest (isSingle : size = 1) : rest.length ≤ 1 := Nat.le_of_succ_le (single isSingle)
      -- The bytes behind one that was written, which leaves a carry.
      have behind {code₁ : Code} {s₁ : AVRState} (kept : Kept [r] code s code₁ s₁)
          (sum : ByteSum false haveCarry r (value % 256 : Nat) s s₁) :
          target.wp (addImmLoop size rest (value >>> 8) true)
            (fun _ => Adds (r :: rest) (sumSign false * value + sumSign false * carryIn s haveCarry) code s) code₁ s₁ := by
        refine wp_mono (ih kept.ready nodup (owned.tail kept) singleRest) fun _ code' s' others => ?_
        rw [value_split value]
        exact Adds.ofByte apart owned kept sum others
      refine wp_bind (wp_get ?_)
      dsimp only
      refine wp_ite (fun zero => wp_ite (fun carries => ?_) fun noCarry => ?_) fun some_bit => ?_
      · subst carries
        rw [zero] at behind
        exact wp_sumZero false ready ownedByte fun code₁ s₁ kept sum => behind kept sum
      · rw [Bool.not_eq_true] at noCarry
        subst noCarry
        refine wp_mono (ih ready nodup owned.behind singleRest) ?_
        intro _ code' s' others
        rw [value_split value, zero]
        exact Adds.skip ready apart owned others
      · refine wp_ite (fun increment => ?_) fun _ => wp_ite (fun immediate => ?_) fun _ => ?_
        · obtain ⟨one, noCarry, isSingle⟩ := increment
          rw [Bool.not_eq_true'] at noCarry
          refine wp_bind (wp_onereg fun _ => ⟨s.setRegZ r (s.r r + 1#8), rfl, ?_⟩)
          have byte : ((s.r r + 1#8).toNat : Int) ≡ (s.r r).toNat + sumSign false * (value % 256 : Nat) [ZMOD 256] := by
            rw [one]
            exact toNat_add_one_modEq (s.r r)
          obtain ⟨alone, adds⟩ := Adds.only ⟨.inc, r, 0⟩ (s.setRegZ r (s.r r + 1#8)) ready owned isSingle single
            noCarry rfl rfl byte
          subst alone
          exact wp_pure adds
        · obtain ⟨noCarry, isSingle, high⟩ := immediate
          rw [Bool.not_eq_true'] at noCarry
          let difference : Int := (s.r r).toNat - ((256 - value % 256) % 256 : Nat)
          refine wp_bind (wp_immreg fun _ _ => ⟨s.setDifference r difference, rfl, ?_⟩)
          have byte : ((BitVec.ofInt 8 difference).toNat : Int) ≡
              (s.r r).toNat + sumSign false * (value % 256 : Nat) [ZMOD 256] := by
            refine (toNat_ofInt_modEq difference).trans ?_
            have isDifference : difference = (s.r r).toNat - ((256 - value % 256) % 256 : Nat) := rfl
            have sign : sumSign false = 1 := rfl
            rw [isDifference, sign, Int.ModEq]
            omega
          obtain ⟨alone, adds⟩ := Adds.only ⟨.subi, r, (256 - value % 256) % 256⟩
            (s.setDifference r difference) ready owned isSingle single noCarry rfl rfl byte
          subst alone
          exact wp_pure adds
        · cases haveCarry with
          | false => 
            refine wp_sumImm false false ready ownedByte fun code₁ s₁ kept sum => ?_
            rw [Nat.mod_mod] at sum
            exact behind kept sum
          | true => 
            refine wp_sumImm false true ready ownedByte fun code₁ s₁ kept sum => ?_
            rw [Nat.mod_mod] at sum
            exact behind kept sum

/-- An instruction that subtracts an immediate value from a high register. -/
theorem wp_subImmediate (withCarry : Bool) {r value : Nat} (ready : Ready code s)
    (owned : inRegs code.allocated r = true)
    (holds : ∀ code' s', Kept [r] code s code' s' → ByteSum true withCarry r (value % 256 : Nat) s s' → Q () code' s') :
    target.wp (immreg (if withCarry then .sbci else .subi) r value) Q code s := by
  have small := (s.r r).isLt
  have smallCarry := s.carry_le
  have smallValue : value % 256 < 256 := Nat.mod_lt value (by decide)
  have kept (insn : Insn) (result : Int) : Kept [r] code s (code.pushed insn) (s.setDifference r result) :=
    kept_pushed insn (BitVec.ofInt 8 result) ready owned rfl rfl
  cases withCarry with
  | false =>
      have difference := s.setDifference_eq r ((s.r r).toNat - (value % 256 : Nat)) (by omega) (by omega)
      refine wp_immreg fun _ _ => ⟨s.setDifference r ((s.r r).toNat - (value % 256 : Nat)), rfl, ?_⟩
      refine holds _ _ (kept _ _) ?_
      simp only [ByteSum, sumSign, carryIn, Bool.false_eq_true, if_false, if_true]
      omega
  | true =>
      have difference := s.setDifference_eq r ((s.r r).toNat - (value % 256 : Nat) - s.carry) (by omega)
        (by omega)
      refine wp_immreg fun _ _ => ⟨s.setDifference r ((s.r r).toNat - (value % 256 : Nat) - s.carry), rfl, ?_⟩
      refine holds _ _ (kept _ _) ?_
      simp only [ByteSum, sumSign, carryIn, if_true]
      omega

theorem wp_subImmLoop {size value : Nat} {haveCarry : Bool} {reg : Reg} (ready : Ready code s) (nodup : reg.Nodup)
    (owned : Owned code reg) (single : size = 1 → reg.length ≤ 1) :
    target.wp (subImmLoop size reg value haveCarry)
      (fun _ => Adds reg (sumSign true * value + sumSign true * carryIn s haveCarry) code s) code s := by
  induction reg generalizing value haveCarry code s with
  | nil => exact wp_pure (Adds.nil ready _)
  | cons r rest ih =>
      obtain ⟨apart, nodup⟩ := List.nodup_cons.1 nodup
      have ownedByte := owned r List.mem_cons_self
      have singleRest (isSingle : size = 1) : rest.length ≤ 1 := Nat.le_of_succ_le (single isSingle)
      -- The bytes behind one that was written, which leaves a borrow.
      have behind {code₁ : Code} {s₁ : AVRState} (kept : Kept [r] code s code₁ s₁)
          (sum : ByteSum true haveCarry r (value % 256 : Nat) s s₁) :
          target.wp (subImmLoop size rest (value >>> 8) true)
            (fun _ => Adds (r :: rest) (sumSign true * value + sumSign true * carryIn s haveCarry) code s) code₁ s₁ := by
        refine wp_mono (ih kept.ready nodup (owned.tail kept) singleRest) fun _ code' s' others => ?_
        rw [value_split value]
        exact Adds.ofByte apart owned kept sum others
      refine wp_bind (wp_get ?_)
      dsimp only
      refine wp_ite (fun zero => wp_ite (fun carries => ?_) fun noCarry => ?_) fun some_bit => ?_
      · subst carries
        rw [zero] at behind
        exact wp_sumZero true ready ownedByte fun code₁ s₁ kept sum => behind kept sum
      · rw [Bool.not_eq_true] at noCarry
        subst noCarry
        refine wp_mono (ih ready nodup owned.behind singleRest) ?_
        intro _ code' s' others
        rw [value_split value, zero]
        exact Adds.skip ready apart owned others
      · refine wp_ite (fun decrement => ?_) fun _ => wp_ite (fun _ => ?_) fun _ => ?_
        · obtain ⟨one, noCarry, isSingle⟩ := decrement
          rw [Bool.not_eq_true'] at noCarry
          refine wp_bind (wp_onereg fun _ => ⟨s.setRegZ r (s.r r - 1#8), rfl, ?_⟩)
          have byte : ((s.r r - 1#8).toNat : Int) ≡ (s.r r).toNat + sumSign true * (value % 256 : Nat) [ZMOD 256] := by
            rw [one]
            exact toNat_sub_one_modEq (s.r r)
          obtain ⟨alone, adds⟩ := Adds.only ⟨.dec, r, 0⟩ (s.setRegZ r (s.r r - 1#8)) ready owned isSingle single
            noCarry rfl rfl byte
          subst alone
          exact wp_pure adds
        · refine wp_bind (wp_subImmediate haveCarry ready ownedByte fun code₁ s₁ kept sum => ?_)
          rw [Nat.mod_mod] at sum
          exact behind kept sum
        · cases haveCarry with
          | false =>
              refine wp_sumImm true false ready ownedByte fun code₁ s₁ kept sum => ?_
              rw [Nat.mod_mod] at sum
              exact behind kept sum
          | true =>
              refine wp_sumImm true true ready ownedByte fun code₁ s₁ kept sum => ?_
              rw [Nat.mod_mod] at sum
              exact behind kept sum

/-! ### Negation -/

theorem Adds.trans {reg : Reg} {x y : Int} {code₁ : Code} {s₁ : AVRState} (bytes : Bytes reg)
    (first : Adds reg x code s code₁ s₁) (second : Adds reg y code₁ s₁ code' s') : Adds reg (x + y) code s code' s' where
  kept := first.kept.trans bytes second.kept
  sum := by
    rw [← add_assoc]
    exact second.sum.trans (first.sum.add_right y)

/-- The complement of a number is the largest number of its size less that number. -/
theorem wp_lognot {reg : Reg} (ready : Ready code s) (nodup : reg.Nodup) (owned : Owned code reg) :
    target.wp (lognot reg) (fun _ => Adds reg (256 ^ reg.length - 1 - 2 * regNat s reg) code s) code s := by
  induction reg generalizing code s with
  | nil => exact wp_pure (Adds.nil ready _)
  | cons r rest ih =>
      obtain ⟨apart, nodup⟩ := List.nodup_cons.1 nodup
      refine wp_bind (wp_onereg fun _ => ⟨s.setRegZ r (s.r r ^^^ 0xFF#8), rfl, ?_⟩)
      have kept : Kept [r] code s (code.pushed ⟨.com, r, 0⟩) (s.setRegZ r (s.r r ^^^ 0xFF#8)) :=
        kept_pushed _ _ ready (owned r List.mem_cons_self) rfl rfl
      have byte : ((s.setRegZ r (s.r r ^^^ 0xFF#8)).r r).toNat = 255 - (s.r r).toNat := by
        have written : (s.setRegZ r (s.r r ^^^ 0xFF#8)).r r = s.r r ^^^ 0xFF#8 := s.setReg_self r _
        have ones : s.r r ^^^ 0xFF#8 = ~~~s.r r := BitVec.xor_allOnes
        rw [written, ones, BitVec.toNat_not]
      have small := (s.r r).isLt
      refine wp_mono (ih kept.ready nodup (owned.tail kept)) fun _ code' s' others => ?_
      rw [regNat_behind owned kept apart] at others
      have first : (((s.setRegZ r (s.r r ^^^ 0xFF#8)).r r).toNat : Int) + 256 * 0 =
          (s.r r).toNat + (255 - 2 * (s.r r).toNat) := by
        omega
      refine (Adds.cons apart owned kept first (others.congr (add_zero _).symm)).congr ?_
      rw [regNat_cons, List.length_cons]
      push_cast
      ring

theorem wp_neg {reg : Reg} (ready : Ready code s) (nodup : reg.Nodup) (owned : Owned code reg) :
    target.wp (neg reg) (fun _ => Adds reg (-2 * regNat s reg) code s) code s := by
  refine wp_ite (fun single => ?_) fun several => ?_
  · obtain ⟨r, rfl⟩ := List.length_eq_one_iff.1 single
    refine wp_onereg fun _ => ⟨{ s.setRegZ r (-(s.r r)) with c := s.r r != 0#8 }, rfl, ?_⟩
    refine Adds.single (kept_pushed _ (-(s.r r)) ready (owned r List.mem_cons_self) rfl rfl) ?_
    · have written : ({ s.setRegZ r (-(s.r r)) with c := s.r r != 0#8 } : AVRState).r r = -(s.r r) := s.setReg_self r _
      have number : regNat s [r] = (s.r r).toNat := by rw [regNat_cons]; rfl
      rw [written, number, BitVec.toNat_neg, Int.ModEq]
      omega
  · refine wp_bind (wp_mono (wp_lognot ready nodup owned) fun _ code₁ s₁ complement => ?_)
    have owned₁ : Owned code₁ reg := owned.kept complement.kept
    refine wp_mono (wp_addImmLoop complement.kept.ready nodup owned₁ fun single => absurd single several) ?_
    intro _ code' s' one
    have negated := complement.trans owned.bytes one
    refine ⟨negated.kept, negated.sum.trans (Int.modEq_iff_dvd.2 ⟨-1, ?_⟩)⟩
    have sign : sumSign false = 1 := rfl
    have none : carryIn s₁ false = 0 := rfl
    rw [sign, none]
    push_cast
    ring

/-! ### The operations -/

/-- The additions and subtractions of the builder, with their operands. -/
inductive Operation where
  | add (other : Reg) | adc (other : Reg) | sub (other : Reg) | sbc (other : Reg)
  | addImm (value : Nat) | adcImm (value : Nat) | subImm (value : Nat) | sbcImm (value : Nat)
  | inc | dec | neg

namespace Operation

/-- The code of an operation. -/
def emit : Operation → Reg → Build Unit
  | add other, reg => Avr.add reg other
  | adc other, reg => Avr.adc reg other
  | sub other, reg => Avr.sub reg other
  | sbc other, reg => Avr.sbc reg other
  | addImm value, reg => Avr.addImm reg value false
  | adcImm value, reg => Avr.adcImm reg value
  | subImm value, reg => Avr.subImm reg value false
  | sbcImm value, reg => Avr.sbcImm reg value
  | inc, reg => Avr.inc reg
  | dec, reg => Avr.dec reg
  | neg, reg => Avr.neg reg

/-- The register that an operation has as its operand. -/
def operand : Operation → Reg
  | add other | adc other | sub other | sbc other => other
  | _ => []

/-- What the operation is to leave in a register. -/
def result (s : AVRState) (reg : Reg) : Operation → BitVec (8 * reg.length)
  | add other => regValue s reg + (regValue s other).setWidth _
  | adc other => regValue s reg + (regValue s other).setWidth _ + BitVec.ofNat _ s.carry
  | sub other => regValue s reg - (regValue s other).setWidth _
  | sbc other => regValue s reg - (regValue s other).setWidth _ - BitVec.ofNat _ s.carry
  | addImm value => regValue s reg + BitVec.ofNat _ value
  | adcImm value => regValue s reg + BitVec.ofNat _ value + BitVec.ofNat _ s.carry
  | subImm value => regValue s reg - BitVec.ofNat _ value
  | sbcImm value => regValue s reg - BitVec.ofNat _ value - BitVec.ofNat _ s.carry
  | inc => regValue s reg + 1
  | dec => regValue s reg - 1
  | neg => -regValue s reg

/-- The number that the code of an operation adds to the register. -/
def added (s : AVRState) (reg : Reg) : Operation → Int
  | add other => sumSign false * regNat s other
  | adc other => sumSign false * regNat s other + sumSign false * s.carry
  | sub other => sumSign true * regNat s other
  | sbc other => sumSign true * regNat s other + sumSign true * s.carry
  | addImm value => sumSign false * value + sumSign false * carryIn s false
  | adcImm value | sbcImm value => sumSign false * value + sumSign false * carryIn s true
  | subImm value => sumSign true * value + sumSign true * carryIn s false
  | inc => sumSign false * (1 : Nat) + sumSign false * carryIn s false
  | dec => sumSign true * (1 : Nat) + sumSign true * carryIn s false
  | neg => -2 * regNat s reg

/-- The operation finds its operands as the caller has them: the other register is the same one or does not overlap. -/
structure Operands (op : Operation) (code : Code) (reg : Reg) : Prop where
  nodup : reg.Nodup
  owned : Owned code reg
  other : Owned code op.operand
  apart : op.operand = reg ∨ ∀ r ∈ reg, r ∉ op.operand

theorem Operands.unclobbered {op : Operation} {reg : Reg} (operands : op.Operands code reg) :
    Unclobbered reg op.operand := by
  rcases operands.apart with same | disjoint
  · rw [same]
    exact unclobbered_self operands.nodup
  · exact unclobbered_disjoint disjoint

theorem wp_emit {op : Operation} {reg : Reg} (ready : Ready code s) (operands : op.Operands code reg) :
    target.wp (op.emit reg) (fun _ => Adds reg (op.added s reg) code s) code s := by
  have nodup := operands.nodup
  have owned := operands.owned
  have single : reg.size = 1 → reg.length ≤ 1 := fun one => Nat.le_of_eq one
  cases op with
  | add other =>
      rw [emit, add_eq_sumBytes]
      exact wp_sumBytes false ready nodup owned operands.other operands.unclobbered
  | adc other =>
      rw [emit, adc_eq_carryBytes]
      exact wp_carryBytes false ready nodup owned operands.other operands.unclobbered
  | sub other =>
      rw [emit, sub_eq_sumBytes]
      exact wp_sumBytes true ready nodup owned operands.other operands.unclobbered
  | sbc other =>
      rw [emit, Avr.sbc, sbcBytes_eq_carryBytes]
      exact wp_carryBytes true ready nodup owned operands.other operands.unclobbered
  | addImm value | adcImm value | sbcImm value | inc => exact wp_addImmLoop ready nodup owned single
  | subImm value | dec => exact wp_subImmLoop ready nodup owned single
  | neg => exact wp_neg ready nodup owned

end Operation

theorem Adds.value {reg : Reg} {x : Int} (adds : Adds reg x code s code' s') :
    regValue s' reg = regValue s reg + BitVec.ofInt _ x := by
  rw [regValue, regValue, ← BitVec.ofInt_natCast, ← BitVec.ofInt_natCast, ← BitVec.ofInt_add]
  exact ofInt_eq_ofInt_iff.2 adds.sum

theorem setWidth_regValue (s : AVRState) (other : Reg) (count : Nat) :
    (regValue s other).setWidth (8 * count) = BitVec.ofNat (8 * count) (regNat s other) :=
  setWidth_ofNat_of_lt (regNat_lt s other)

namespace Operation

/-- When the code of an operation leaves its result: always, but for the subtraction of an immediate value with carry,
which is done by an addition. -/
def meets (s : AVRState) (reg : Reg) : Operation → Prop
  | sbcImm value => 2 * (value + s.carry) % 256 ^ reg.length = 0
  | _ => True

/-- An addition in the place of a subtraction is right when twice the operand goes round. -/
theorem added_eq_subtracted_iff {count : Nat} {x y : Nat} :
    BitVec.ofInt (8 * count) (x + y : Int) = BitVec.ofInt (8 * count) (x - y : Int) ↔ 2 * y % 256 ^ count = 0 := by
  have difference : (x - y : Int) - (x + y) = -((2 * y : Nat) : Int) := by
    push_cast
    ring
  have size : (256 : Int) ^ count = ((256 ^ count : Nat) : Int) := (Nat.cast_pow 256 count).symm
  rw [ofInt_eq_ofInt_iff, Int.modEq_iff_dvd, difference, Int.dvd_neg, size, Int.natCast_dvd_natCast,
    Nat.dvd_iff_mod_eq_zero]

theorem value_eq_result_iff (op : Operation) {reg : Reg} (adds : Adds reg (op.added s reg) code s code' s') :
    regValue s' reg = op.result s reg ↔ op.meets s reg := by
  have plus : sumSign false = 1 := rfl
  have minus : sumSign true = -1 := rfl
  have none : carryIn s false = 0 := rfl
  have some_carry : carryIn s true = s.carry := rfl
  have before : regValue s reg = BitVec.ofInt _ (regNat s reg) := (BitVec.ofInt_natCast _ _).symm
  rw [adds.value]
  cases op with
  | sbcImm value =>
      have sum : BitVec.ofInt (8 * reg.length) (added s reg (sbcImm value)) =
          BitVec.ofInt _ ((value + s.carry : Nat) : Int) := by
        simp only [added, plus, some_carry, one_mul, Nat.cast_add]
      have result_eq : result s reg (sbcImm value) =
          BitVec.ofInt _ (regNat s reg - ((value + s.carry : Nat) : Int)) := by
        rw [result, before, Int.sub_eq_add_neg, Nat.cast_add, Int.neg_add, BitVec.ofInt_add, BitVec.ofInt_add, BitVec.ofInt_neg,
          BitVec.ofInt_neg, BitVec.ofInt_natCast, BitVec.ofInt_natCast, BitVec.ofInt_natCast, BitVec.sub_eq_add_neg,
          BitVec.sub_eq_add_neg, BitVec.add_assoc]
      rw [sum, result_eq, before, ← BitVec.ofInt_add]
      exact added_eq_subtracted_iff
  | neg =>
      refine iff_of_true ?_ trivial
      rw [before, added, result, before, ← BitVec.ofInt_add, ← BitVec.ofInt_neg]
      exact congrArg _ (by ring)
  | inc =>
      refine iff_of_true ?_ trivial
      rw [added, result, plus, none, mul_zero, add_zero, one_mul, BitVec.ofInt_natCast]
      rfl
  | dec =>
      refine iff_of_true ?_ trivial
      rw [added, result, minus, none, mul_zero, add_zero, neg_mul, one_mul, BitVec.ofInt_neg, BitVec.ofInt_natCast,
        BitVec.sub_eq_add_neg]
      rfl
  | _ =>
      refine iff_of_true ?_ trivial
      simp only [added, result, plus, minus, none, some_carry, one_mul, neg_mul, mul_zero, add_zero,
        setWidth_regValue, BitVec.ofInt_add, BitVec.ofInt_neg, BitVec.ofInt_natCast, BitVec.sub_eq_add_neg,
        BitVec.add_assoc]

end Operation

/-- The code of every addition and subtraction leaves its result and every other register that is allocated, but for
the subtraction of an immediate value with carry: `sbc` calls `add`. -/
theorem operation_leaves_result_iff {op : Operation} {reg : Reg} (emitted : (op.emit reg).run code = .ok ((), code'))
    (ready : Ready code s) (operands : op.Operands code reg) :
    ∃ seg s', code'.insns = code.insns ++ seg ∧ RunsTo seg s s' ∧
      (∀ r, inRegs code.allocated r = true → r ∉ reg → s'.r r = s.r r) ∧
      (regValue s' reg = op.result s reg ↔ op.meets s reg) := by
  obtain ⟨seg, s', parts, runs, adds⟩ := runsTo_of_wp (Operation.wp_emit ready operands) emitted
  exact ⟨seg, s', parts, runs, fun r allocated other => adds.kept.others r (Or.inl allocated) other,
    Operation.value_eq_result_iff op adds⟩

/-- A builder with some registers allocated, but not `r0` and `r1`, and the machine as it starts. -/
theorem ready_allocated {allocated : BitVec 32} (r0 : inRegs allocated 0 = false) (r1 : inRegs allocated 1 = false) :
    Ready { Code.new with allocated := allocated } AVRState.new where
  order := rfl
  r0 := fun _ => r0
  r1 := fun _ => r1
  imm := fun r isImm => absurd isImm (noImm_new r)
  zero := fun _ => rfl
  loaded := fun r isImm => absurd isImm (noImm_new r)
  stack := by decide

/-- A builder with two registers allocated. -/
def twoRegisters : Code := { Code.new with allocated := regBit 18 ||| regBit 19 }

/-- A builder with four registers allocated. -/
def fourRegisters : Code := { Code.new with allocated := regBit 18 ||| regBit 19 ||| regBit 20 ||| regBit 21 }

theorem ready_twoRegisters : Ready twoRegisters AVRState.new := ready_allocated (by decide) (by decide)

theorem ready_fourRegisters : Ready fourRegisters AVRState.new := ready_allocated (by decide) (by decide)

theorem owned_twoRegisters : Owned twoRegisters [18, 19] := by
  rw [Owned]
  decide

theorem owned_fourRegisters_low : Owned fourRegisters [18, 19] := by
  rw [Owned]
  decide

theorem owned_fourRegisters_high : Owned fourRegisters [20, 21] := by
  rw [Owned]
  decide

/-- One less than a register of two bytes. -/
theorem operation_leaves_result_iff_dec :
    ∃ code', ((Operation.dec).emit [18, 19]).run twoRegisters = .ok ((), code') ∧
      ∃ seg s', code'.insns = twoRegisters.insns ++ seg ∧ RunsTo seg AVRState.new s' ∧
        (∀ r, inRegs twoRegisters.allocated r = true → r ∉ [18, 19] → s'.r r = AVRState.new.r r) ∧
        (regValue s' [18, 19] = (Operation.dec).result AVRState.new [18, 19] ↔
          (Operation.dec).meets AVRState.new [18, 19]) := by
  refine ⟨_, rfl, operation_leaves_result_iff rfl ready_twoRegisters ⟨by decide, owned_twoRegisters, ?_, ?_⟩⟩
  · exact fun r member => nomatch member
  · exact Or.inr fun r _ => List.not_mem_nil

/-- The subtraction of one with no carry adds one. -/
theorem sbc_of_immediate_adds :
    ∃ code', ((Operation.sbcImm 1).emit [18]).run twoRegisters = .ok ((), code') ∧
      (execLoop code' 3 AVRState.new).map (fun final => final.map (regNat · [18])) = some (.ok 0x56) ∧
      ((Operation.sbcImm 1).result AVRState.new [18]).toNat = 0x54 :=
  ⟨_, rfl, by decide, by decide⟩

end AsconSuite.Avr
