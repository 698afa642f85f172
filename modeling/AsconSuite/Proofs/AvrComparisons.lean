/-
Module: AsconSuite.Proofs.AvrComparisons
Layer: Proofs
Purpose: What the comparisons leave in the flags, and for which values the branches behind them go the way that they
  should.
Imports: AsconSuite.Proofs.AvrSums
Trusted boundary: none
Main exports: Avr.Compared, Avr.wp_compare, Avr.wp_compareImm
-/
import AsconSuite.Proofs.AvrSums

namespace AsconSuite.Avr

open ByteWord ByteMemory ByteNumber
open Emit (Target)
open Emit.Target

variable {code code' : Code} {s s' : AVRState} {Q : Unit → Code → AVRState → Prop}

/-! ### The flags of a comparison -/

/-- The flags behind the comparison of so many bytes whose numbers differ by `x`. The carry tells the order. The zero
flag is that of the last step alone, which sees the high bytes and the borrow of the others. -/
structure Compared (count : Nat) (x : Int) (s s' : AVRState) : Prop where
  c : 0 < count → s'.c = decide (x < 0)
  z : 0 < count → s'.z = decide (0 ≤ x ∧ x < 256 ^ (count - 1))
  stale : count = 0 → s'.c = s.c ∧ s'.z = s.z

/-- The flags before the comparison of some bytes do not matter. -/
theorem Compared.of_pos {count : Nat} {x : Int} {s₁ : AVRState} (compared : Compared count x s₁ s')
    (some_byte : 0 < count) (s : AVRState) : Compared count x s s' :=
  ⟨compared.c, compared.z, fun empty => absurd empty some_byte.ne'⟩

/-- The first step of a comparison, and what the steps for the other bytes make of its borrow. -/
theorem Compared.step {count : Nat} {d y : Int} {s₁ : AVRState} (low : -256 ≤ d) (high : d < 256)
    (first : s₁.c = decide (d < 0) ∧ s₁.z = decide (d = 0)) (alone : count = 0 → y = 0)
    (others : Compared count (y - s₁.carry) s₁ s') : Compared (count + 1) (d + 256 * y) s s' := by
  have carry : (s₁.carry : Int) = if d < 0 then 1 else 0 := by
    rw [AVRState.carry, first.1]
    by_cases under : d < 0
    · rw [decide_eq_true under, if_pos under]; rfl
    · rw [decide_eq_false under, if_neg under]; rfl
  rcases Nat.eq_zero_or_pos count with empty | some_byte
  · have zero := alone empty
    obtain ⟨sameC, sameZ⟩ := others.stale empty
    subst empty zero
    refine ⟨fun _ => ?_, fun _ => ?_, fun impossible => absurd impossible (Nat.succ_ne_zero 0)⟩
    · rw [sameC, first.1, mul_zero, add_zero]
    · rw [sameZ, first.2, decide_eq_decide, mul_zero, add_zero, Nat.add_sub_cancel, pow_zero]
      omega
  · refine ⟨fun _ => ?_, fun _ => ?_, fun impossible => absurd impossible (Nat.succ_ne_zero count)⟩
    · rw [others.c some_byte, decide_eq_decide, carry]
      split
      · omega
      · omega
    · have size : (256 : Int) ^ count = 256 * 256 ^ (count - 1) := by
        rw [← pow_succ', Nat.sub_add_cancel some_byte]
      rw [others.z some_byte, decide_eq_decide, carry, Nat.add_sub_cancel, size]
      generalize (256 : Int) ^ (count - 1) = high_part
      split
      · omega
      · omega

theorem Compared.nothing (s : AVRState) (x : Int) : Compared 0 x s s :=
  ⟨fun some_byte => absurd some_byte (Nat.lt_irrefl 0), fun some_byte => absurd some_byte (Nat.lt_irrefl 0),
    fun _ => ⟨rfl, rfl⟩⟩

/-- The code writes no register and no memory. -/
abbrev Reads (code : Code) (s : AVRState) (code' : Code) (s' : AVRState) : Prop := Exact [] code s code' s'

theorem reads_pushed (code : Code) (insn : Insn) (regs : s'.r = s.r) (memory : s'.memory = s.memory) :
    Reads code s (code.pushed insn) s' :=
  ⟨sameAlloc_pushed code insn, fun r _ => congrFun regs r, memory⟩

theorem kept_of_reads (reads : Reads code s code' s') (ready : Ready code s) : Kept [] code s code' s' :=
  reads.kept (fun _ member => nomatch member) (fun _ member => nomatch member) ready

/-- The flags behind the comparison of a byte with a number, with the borrow of the byte before or without it. -/
def ByteCompared (withCarry : Bool) (r : Nat) (x : Int) (s s' : AVRState) : Prop :=
  s'.c = decide ((s.r r).toNat - x - carryIn s withCarry < 0) ∧
    s'.z = decide ((s.r r).toNat - x - carryIn s withCarry = 0)

/-- One compare instruction. -/
theorem wp_compareByte {withCarry : Bool} {r1 r2 : Nat}
    (holds : ∀ code' s', Reads code s code' s' → ByteCompared withCarry r1 (s.r r2).toNat s s' → Q () code' s') :
    target.wp (tworeg (if withCarry then .cpc else .cp) r1 r2) Q code s := by
  cases withCarry with
  | false =>
      refine wp_tworeg fun _ _ _ => ⟨s.setCompared ((s.r r1).toNat - (s.r r2).toNat), rfl, ?_⟩
      refine holds _ _ (reads_pushed code _ rfl rfl) ?_
      have none : carryIn s false = 0 := rfl
      rw [ByteCompared, none, sub_zero]
      exact ⟨rfl, rfl⟩
  | true =>
      refine wp_tworeg fun _ _ _ => ⟨s.setCompared ((s.r r1).toNat - (s.r r2).toNat - s.carry), rfl, ?_⟩
      exact holds _ _ (reads_pushed code _ rfl rfl) ⟨rfl, rfl⟩

/-- The comparison of a byte and that of what stands behind it are the comparison of the whole. -/
theorem Compared.ofByte {withCarry : Bool} {r count total : Nat} {x y z : Int} {s₁ : AVRState}
    (flags : ByteCompared withCarry r x s s₁) (low : 0 ≤ x) (high : x < 256) (isTotal : total = count + 1)
    (isDifference : z = (s.r r).toNat - x - carryIn s withCarry + 256 * y) (alone : count = 0 → y = 0)
    (others : Compared count (y - s₁.carry) s₁ s') : Compared total z s s' := by
  have small := (s.r r).isLt
  have smallCarry := s.carry_le
  have bounds : 0 ≤ carryIn s withCarry ∧ carryIn s withCarry ≤ 1 := by
    rw [carryIn]
    split
    · omega
    · omega
  rw [isTotal, isDifference]
  exact Compared.step (by omega) (by omega) flags alone others

/-! ### Two registers -/

theorem regNat_reads {reg : Reg} (reads : Reads code s code' s') : regNat s' reg = regNat s reg :=
  regNat_congr fun r _ => reads.others r List.not_mem_nil

/-- A register without bytes is zero. -/
theorem regNat_of_length {reg : Reg} (s : AVRState) (empty : reg.length = 0) : regNat s reg = 0 := by
  rw [List.length_eq_zero_iff.1 empty]
  rfl

/-- The low byte of a register, or a register that is zero where there is none. -/
theorem regNat_head (s : AVRState) (zeroReg : Nat) (reg : Reg) (zero : reg = [] → s.r zeroReg = 0#8) :
    regNat s reg = (s.r (reg.headD zeroReg)).toNat + 256 * regNat s reg.tail := by
  cases reg with
  | nil => rw [List.headD_nil, zero rfl]; rfl
  | cons r rest => rfl

theorem compareRest_head {zeroReg : Nat} {reg1 reg2 : Reg} (some_byte : 0 < max reg1.length reg2.length) :
    compareRest zeroReg reg1 reg2 = (do
      tworeg .cpc (reg1.headD zeroReg) (reg2.headD zeroReg)
      compareRest zeroReg reg1.tail reg2.tail) := by
  cases reg1 with
  | nil =>
      cases reg2 with
      | nil => exact absurd some_byte (Nat.lt_irrefl 0)
      | cons r2 rest2 => rw [compareRest]; rfl
  | cons r1 rest1 =>
      cases reg2 with
      | nil => rw [compareRest]; rfl
      | cons r2 rest2 => rw [compareRest]; rfl

theorem compareBytes_head {zeroReg : Nat} {reg1 reg2 : Reg} (some_byte : 0 < max reg1.length reg2.length) :
    compareBytes zeroReg reg1 reg2 = (do
      tworeg .cp (reg1.headD zeroReg) (reg2.headD zeroReg)
      compareRest zeroReg reg1.tail reg2.tail) := by
  cases reg1 with
  | nil =>
      cases reg2 with
      | nil => exact absurd some_byte (Nat.lt_irrefl 0)
      | cons r2 rest2 => rfl
  | cons r1 rest1 =>
      cases reg2 with
      | nil => rfl
      | cons r2 rest2 => rfl

/-- The comparison of registers from the comparison of what stands behind their low bytes. -/
theorem wp_compareHead (withCarry : Bool) {zeroReg : Nat} {reg1 reg2 : Reg}
    (some_byte : 0 < max reg1.length reg2.length) (zero : reg1.length ≠ reg2.length → s.r zeroReg = 0#8)
    (others : ∀ code₁ s₁, (reg1.tail.length ≠ reg2.tail.length → s₁.r zeroReg = 0#8) →
      target.wp (compareRest zeroReg reg1.tail reg2.tail) (fun _ code' s' => Reads code₁ s₁ code' s' ∧
        Compared (max reg1.tail.length reg2.tail.length) (regNat s₁ reg1.tail - regNat s₁ reg2.tail - s₁.carry) s₁ s')
        code₁ s₁) :
    target.wp (do
      tworeg (if withCarry then .cpc else .cp) (reg1.headD zeroReg) (reg2.headD zeroReg)
      compareRest zeroReg reg1.tail reg2.tail)
      (fun _ code' s' => Reads code s code' s' ∧
        Compared (max reg1.length reg2.length) (regNat s reg1 - regNat s reg2 - carryIn s withCarry) s s') code s := by
  have lengths : reg1.tail.length = reg1.length - 1 ∧ reg2.tail.length = reg2.length - 1 :=
    ⟨List.length_tail, List.length_tail⟩
  refine wp_bind (wp_compareByte fun code₁ s₁ reads flags => ?_)
  have rest := others code₁ s₁ fun differ => by
    rw [reads.others zeroReg List.not_mem_nil]
    exact zero (by omega)
  rw [regNat_reads reads, regNat_reads reads] at rest
  refine wp_mono rest ?_
  rintro _ code' s' ⟨reads', compared⟩
  have small := (s.r (reg2.headD zeroReg)).isLt
  refine ⟨reads.trans reads', Compared.ofByte flags (by omega) (by omega) (by omega) ?_ (fun empty => ?_) compared⟩
  · rw [regNat_head s zeroReg reg1, regNat_head s zeroReg reg2]
    · push_cast
      ring
    · intro none
      have length := List.length_eq_zero_iff.2 none
      exact zero (by omega)
    · intro none
      have length := List.length_eq_zero_iff.2 none
      exact zero (by omega)
  · rw [List.length_eq_zero_iff.1 (by omega : reg1.tail.length = 0),
      List.length_eq_zero_iff.1 (by omega : reg2.tail.length = 0)]
    exact sub_self _

theorem wp_compareRest {zeroReg count : Nat} {reg1 reg2 : Reg} (isCount : max reg1.length reg2.length = count)
    (zero : reg1.length ≠ reg2.length → s.r zeroReg = 0#8) :
    target.wp (compareRest zeroReg reg1 reg2)
      (fun _ code' s' => Reads code s code' s' ∧
        Compared (max reg1.length reg2.length) (regNat s reg1 - regNat s reg2 - s.carry) s s') code s := by
  induction count generalizing reg1 reg2 code s with
  | zero =>
      obtain rfl : reg1 = [] := List.length_eq_zero_iff.1 (by omega)
      obtain rfl : reg2 = [] := List.length_eq_zero_iff.1 (by omega)
      rw [compareRest]
      exact wp_pure ⟨Exact.refl [] code s, Compared.nothing s _⟩
  | succ count ih =>
      have some_byte : 0 < max reg1.length reg2.length := by omega
      rw [compareRest_head some_byte]
      refine wp_compareHead true some_byte zero fun code₁ s₁ zero₁ => ih ?_ zero₁
      rw [List.length_tail, List.length_tail]
      omega

/-- The bytes of a comparison. The first instruction takes no borrow, the others are those of `compareRest`. -/
theorem wp_compareBytes {zeroReg : Nat} {reg1 reg2 : Reg} (zero : reg1.length ≠ reg2.length → s.r zeroReg = 0#8) :
    target.wp (compareBytes zeroReg reg1 reg2)
      (fun _ code' s' => Reads code s code' s' ∧
        Compared (max reg1.length reg2.length) (regNat s reg1 - regNat s reg2) s s') code s := by
  rcases Nat.eq_zero_or_pos (max reg1.length reg2.length) with empty | some_byte
  · obtain rfl : reg1 = [] := List.length_eq_zero_iff.1 (by omega)
    obtain rfl : reg2 = [] := List.length_eq_zero_iff.1 (by omega)
    exact wp_pure ⟨Exact.refl [] code s, Compared.nothing s _⟩
  · rw [compareBytes_head some_byte]
    have none : (regNat s reg1 - regNat s reg2 : Int) = regNat s reg1 - regNat s reg2 - carryIn s false :=
      (sub_zero _).symm
    rw [none]
    exact wp_compareHead false some_byte zero fun code₁ s₁ zero₁ => wp_compareRest rfl zero₁

theorem wp_compare {reg1 reg2 : Reg} (ready : Ready code s) (owned1 : Owned code reg1) (owned2 : Owned code reg2) :
    target.wp (compare reg1 reg2)
      (fun _ code' s' => Kept [] code s code' s' ∧
        Compared (max reg1.length reg2.length) (regNat s reg1 - regNat s reg2) s s') code s := by
  refine wp_bind (wp_get ?_)
  dsimp only
  refine wp_ite (fun temporary => ?_) fun constant => ?_
  · refine wp_bind (wp_allocateReg ready.toConventions fun temps code₁ one took => ?_)
    obtain ⟨temp, rfl⟩ := List.length_eq_one_iff.1 one
    have ready₁ := took.ready ready
    refine wp_bind (wp_zeroreg ready₁ fun code₂ s₂ exact zero _ _ => ?_)
    have kept₂ : Kept ([] ++ [temp]) code₁ s code₂ s₂ :=
      exact.kept (fun r member => took.writable ready member) (fun r member _ => member) ready₁
    refine wp_bind (wp_releaseReg [] took ready kept₂ fun code₃ kept₃ _ => wp_bind (wp_pure ?_))
    refine wp_mono (wp_compareBytes fun _ => zero) ?_
    rintro _ code' s' ⟨reads, compared⟩
    rw [regNat_kept owned1 kept₃ fun _ _ => List.not_mem_nil, regNat_kept owned2 kept₃ fun _ _ => List.not_mem_nil]
      at compared
    have some_byte : 0 < max reg1.length reg2.length := by
      have differ := temporary.2
      simp only [Reg.size] at differ
      omega
    refine ⟨kept₃.trans (fun _ member => nomatch member) ?_, compared.of_pos some_byte s⟩
    exact kept_of_reads reads kept₃.ready
  · refine wp_bind (wp_pure ?_)
    refine wp_mono (wp_compareBytes (fun differ => ?_)) ?_
    · refine ready.zero (Bool.eq_false_iff.2 fun temp => constant ⟨temp, ?_⟩)
      simp only [Reg.size]
      omega
    · rintro _ code' s' ⟨reads, compared⟩
      exact ⟨kept_of_reads reads ready, compared⟩

/-! ### A register and an immediate value -/

/-- A compare instruction with an immediate value from a temporary register. -/
theorem wp_compareTemp (withCarry : Bool) {r value : Nat} {cont : Unit → Build Unit} (ready : Ready code s)
    (owned : inRegs code.allocated r = true)
    (holds : ∀ code' s', Kept [] code s code' s' → ByteCompared withCarry r (value % 256 : Nat) s s' →
      target.wp (cont ()) Q code' s') :
    target.wp (immtemp value >>= fun highReg => tworeg (if withCarry then .cpc else .cp) r highReg >>= cont) Q code s := by
  refine wp_bind (wp_immtemp ready fun highReg code₁ s₁ _ _ kept status loaded => ?_)
  refine wp_bind (wp_compareByte fun code' s' reads flags => ?_)
  have same : s₁.r r = s.r r := kept.others r (Or.inl owned) List.not_mem_nil
  have carry : carryIn s₁ withCarry = carryIn s withCarry := by
    rw [carryIn, carryIn, AVRState.carry, AVRState.carry, status.c]
  rw [ByteCompared, loaded, same, carry, BitVec.toNat_ofNat] at flags
  refine holds code' s' (kept.trans (fun _ member => absurd member List.not_mem_nil) ?_) flags
  exact kept_of_reads reads kept.ready

/-- A compare instruction with zero. -/
theorem wp_compareZero (withCarry : Bool) {r : Nat} (ready : Ready code s) (noTemp : code.hasFlag tempR1 = false)
    (holds : ∀ code' s', Kept [] code s code' s' → ByteCompared withCarry r 0 s s' → Q () code' s') :
    target.wp (tworeg (if withCarry then .cpc else .cp) r zeroRegNumber) Q code s := by
  refine wp_compareByte fun code' s' reads flags => ?_
  have zero : s.r zeroRegNumber = 0#8 := ready.zero noTemp
  rw [zero] at flags
  exact holds code' s' (kept_of_reads reads ready) flags

/-- A compare instruction of a high register with an immediate value. -/
theorem wp_compareHigh {r value : Nat} (ready : Ready code s)
    (holds : ∀ code' s', Kept [] code s code' s' → ByteCompared false r (value % 256 : Nat) s s' → Q () code' s') :
    target.wp (immreg .cpi r value) Q code s := by
  refine wp_immreg fun _ _ => ⟨s.setCompared ((s.r r).toNat - (value % 256 : Nat)), rfl, ?_⟩
  have none : carryIn s false = 0 := rfl
  refine holds _ _ ?_ ?_
  · exact kept_of_reads (reads_pushed code ⟨.cpi, r, value % 256⟩ rfl rfl) ready
  · rw [ByteCompared, none, sub_zero]
    exact ⟨rfl, rfl⟩

/-- The low byte of a number that is cut down, and the others. -/
theorem mod_pow_succ (value count : Nat) :
    value % 256 ^ (count + 1) = value % 256 + 256 * ((value >>> 8) % 256 ^ count) := by
  rw [Nat.pow_succ', Nat.mod_mul, Nat.shiftRight_eq_div_pow]

/-- The comparison of a byte with that of an immediate value, before the other bytes are compared. -/
theorem wp_compareImmHead {withCarry : Bool} {r value : Nat} {rest : Reg} {code₁ : Code} {s₁ : AVRState}
    (owned : Owned code (r :: rest)) (kept : Kept [] code s code₁ s₁)
    (flags : ByteCompared withCarry r (value % 256 : Nat) s s₁)
    (others : target.wp (compareImmRest rest (value >>> 8)) (fun _ code' s' => Kept [] code₁ s₁ code' s' ∧
      Compared rest.length (regNat s₁ rest - ((value >>> 8) % 256 ^ rest.length : Nat) - s₁.carry) s₁ s') code₁ s₁) :
    target.wp (compareImmRest rest (value >>> 8)) (fun _ code' s' => Kept [] code s code' s' ∧
      Compared (r :: rest).length
        (regNat s (r :: rest) - (value % 256 ^ (r :: rest).length : Nat) - carryIn s withCarry) s s') code₁ s₁ := by
  rw [regNat_kept owned.behind kept fun _ _ => List.not_mem_nil] at others
  refine wp_mono others ?_
  rintro _ code' s' ⟨kept', compared⟩
  have small := Nat.mod_lt value (by decide : 256 > 0)
  refine ⟨kept.trans (fun _ member => nomatch member) kept', ?_⟩
  refine Compared.ofByte flags (by omega) (by omega) List.length_cons ?_ (fun empty => ?_) compared
  · rw [regNat_cons, List.length_cons, mod_pow_succ]
    push_cast
    ring
  · rw [List.length_eq_zero_iff.1 empty, List.length_nil, pow_zero, Nat.mod_one]
    exact sub_self _

theorem wp_compareImmRest {value : Nat} {reg : Reg} (ready : Ready code s) (owned : Owned code reg) :
    target.wp (compareImmRest reg value) (fun _ code' s' => Kept [] code s code' s' ∧
      Compared reg.length (regNat s reg - (value % 256 ^ reg.length : Nat) - s.carry) s s') code s := by
  induction reg generalizing value code s with
  | nil => exact wp_pure ⟨Kept.refl ready, Compared.nothing s _⟩
  | cons r rest ih =>
      have ownedByte := owned r List.mem_cons_self
      refine wp_bind (wp_get ?_)
      dsimp only
      refine wp_ite (fun zero => ?_) fun _ => ?_
      · obtain ⟨zero, noTemp⟩ := zero
        rw [Bool.not_eq_true'] at noTemp
        refine wp_bind (wp_compareZero true ready noTemp fun code₁ s₁ kept flags => ?_)
        have flags' : ByteCompared true r (value % 256 : Nat) s s₁ := by
          rw [zero]
          exact flags
        exact wp_compareImmHead owned kept flags' (ih kept.ready (owned.tail kept))
      · refine wp_compareTemp true ready ownedByte fun code₁ s₁ kept flags => ?_
        rw [Nat.mod_mod] at flags
        exact wp_compareImmHead owned kept flags (ih kept.ready (owned.tail kept))

theorem wp_compareImm {value : Nat} {reg : Reg} (ready : Ready code s) (owned : Owned code reg) :
    target.wp (compareImm reg value) (fun _ code' s' => Kept [] code s code' s' ∧
      Compared reg.length (regNat s reg - (value % 256 ^ reg.length : Nat)) s s') code s := by
  cases reg with
  | nil => exact wp_pure ⟨Kept.refl ready, Compared.nothing s _⟩
  | cons r rest =>
      have ownedByte := owned r List.mem_cons_self
      have behind {code₁ : Code} {s₁ : AVRState} (kept : Kept [] code s code₁ s₁)
          (flags : ByteCompared false r (value % 256 : Nat) s s₁) :=
        wp_compareImmHead owned kept flags (wp_compareImmRest kept.ready (owned.tail kept))
      have none : carryIn s false = 0 := rfl
      rw [none, sub_zero] at behind
      refine wp_bind (wp_get ?_)
      dsimp only
      refine wp_ite (fun zero => ?_) fun _ => wp_ite (fun _ => ?_) fun _ => ?_
      · obtain ⟨zero, noTemp⟩ := zero
        rw [Bool.not_eq_true'] at noTemp
        refine wp_bind (wp_compareZero false ready noTemp fun code₁ s₁ kept flags => behind kept ?_)
        rw [zero]
        exact flags
      · refine wp_bind (wp_compareHigh ready fun code₁ s₁ kept flags => ?_)
        rw [Nat.mod_mod] at flags
        exact behind kept flags
      · refine wp_compareTemp false ready ownedByte fun code₁ s₁ kept flags => ?_
        rw [Nat.mod_mod] at flags
        exact behind kept flags

end AsconSuite.Avr
