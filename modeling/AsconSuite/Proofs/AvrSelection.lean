/-
Module: AsconSuite.Proofs.AvrSelection
Layer: Proofs
Purpose: `compare_and_set`: what the emitted code leaves in its output register, and for which values that is what the
  function is documented to leave.
Imports: AsconSuite.Proofs.AvrComparisons
Trusted boundary: none
Main exports: Avr.wp_setCarry, Avr.wp_setResult, Avr.documentedResult, Avr.compareAndSet_leaves_result_iff
-/
import AsconSuite.Proofs.AvrComparisons

namespace AsconSuite.Avr

open ByteWord ByteMemory ByteNumber
open Emit (Target)
open Emit.Target

variable {code code' : Code} {s s' : AVRState} {Q : Unit → Code → AVRState → Prop}

/-! ### The carry -/

/-- Zero in a register, with the flags as they were. -/
theorem wp_zeroregNoCc {reg : Nat} (ready : Ready code s) (owned : inRegs code.allocated reg = true)
    (holds : ∀ code' s', Kept [reg] code s code' s' → s'.r reg = 0#8 → SameStatus s s' → Q () code' s') :
    target.wp (zeroregNoCc reg) Q code s := by
  refine wp_bind (wp_get (wp_ite (fun noTemp => ?_) fun _ => wp_ite (fun _ => ?_) fun _ => ?_))
  · rw [Bool.not_eq_true'] at noTemp
    refine wp_tworeg fun _ _ _ => ⟨s.setReg reg (s.r 1), rfl, ?_⟩
    refine holds _ _ (kept_pushed _ (s.r 1) ready owned rfl rfl) ?_ ⟨rfl, rfl, rfl⟩
    rw [AVRState.setReg_self]
    exact ready.zero noTemp
  · refine wp_immreg fun _ _ => ⟨s.setReg reg 0#8, rfl, ?_⟩
    exact holds _ _ (kept_pushed _ 0#8 ready owned rfl rfl) (s.setReg_self reg _) ⟨rfl, rfl, rfl⟩
  · refine wp_bind (wp_immtemp ready fun highReg code₁ s₁ _ _ kept status loaded => ?_)
    have owned₁ : inRegs code₁.allocated reg = true := by
      rw [kept.allocated]
      exact owned
    refine wp_tworeg fun _ _ _ => ⟨s₁.setReg reg (s₁.r highReg), rfl, ?_⟩
    have byte : Bytes [reg] := fun r member => by
      rw [List.mem_singleton.1 member]
      exact lt_of_inRegs owned
    refine holds _ _ ?_ ?_ ⟨status.c, status.z, status.t⟩
    · exact (kept.mono fun _ member => nomatch member).trans byte (kept_pushed _ _ kept.ready owned₁ rfl rfl)
    · rw [AVRState.setReg_self, loaded]

/-- The difference of the low bytes becomes the carry. The turns of the loop read the same bytes again and again. -/
theorem wp_setCarry {reg1 reg2 : Reg} (ready : Ready code s) (owned1 : inRegs code.allocated (reg1.reg 0) = true)
    (owned2 : inRegs code.allocated (reg2.reg 0) = true)
    (holds : ∀ code' s', Kept [] code s code' s' → s'.c = decide (s.r (reg1.reg 0) ≠ s.r (reg2.reg 0)) →
      Q () code' s') :
    target.wp (setCarry reg1 reg2) Q code s := by
  refine wp_bind (wp_allocateReg ready.toConventions fun temps code₁ one took => ?_)
  obtain ⟨temp, rfl⟩ := List.length_eq_one_iff.1 one
  have ready₁ := took.ready ready
  refine wp_bind (wp_tempreg ready₁ fun temp2 code₂ spare kept₂ => ?_)
  have takenTemp : inRegs code₁.allocated temp = true := (took.allocated temp).2 (Or.inr List.mem_cons_self)
  have freeTemp2 : ¬inRegs code₁.allocated temp2 = true := by
    rw [← kept₂.allocated]
    exact spare.free
  have apart {r : Nat} (owned : inRegs code.allocated r = true) : r ∉ [temp, temp2] := by
    intro member
    rcases List.mem_cons.1 member with rfl | last
    · exact (took.free r List.mem_cons_self).1 owned
    · rw [List.mem_singleton.1 last] at owned
      exact freeTemp2 ((took.allocated temp2).2 (Or.inl owned))
  have distinct : temp2 ≠ temp := fun same => freeTemp2 (same ▸ takenTemp)
  have memTemp : temp ∈ [temp, temp2] := List.mem_cons_self
  have memTemp2 : temp2 ∈ [temp, temp2] := List.mem_cons_of_mem temp List.mem_cons_self
  -- The low byte of the first register, then the difference of the low bytes.
  refine wp_bind (wp_mov fun code₃ s₃ exact₃ moved _ => ?_)
  refine wp_bind (wp_eor fun code₄ s₄ exact₄ differ _ => ?_)
  have low2 : s₃.r (reg2.reg 0) = s.r (reg2.reg 0) := exact₃.others _ fun member =>
    apart owned2 (List.mem_cons_of_mem temp member)
  rw [moved, low2] at differ
  have exact₄' : Exact [temp, temp2] code₂ s code₄ s₄ :=
    ((Exact.refl [temp, temp2] code₂ s).step exact₃ memTemp2).step exact₄ memTemp2
  -- Every turn of the loop finds the difference of the low bytes again.
  let I : List Nat → Code → AVRState → Prop := fun _ code' s' =>
    Exact [temp, temp2] code₂ s code' s' ∧ s'.r temp2 = s.r (reg1.reg 0) ^^^ s.r (reg2.reg 0)
  refine wp_bind (wp_mono (wp_forM I ⟨exact₄', differ⟩ ?_) ?_)
  · rintro done turn rest _ code' s' ⟨exact, inv⟩
    refine wp_bind (wp_mov fun code₅ s₅ exact₅ moved₅ _ => ?_)
    refine wp_bind (wp_eor fun code₆ s₆ exact₆ differ₆ _ => ?_)
    refine wp_or fun code₇ s₇ exact₇ joined => ⟨((exact.step exact₅ memTemp).step exact₆ memTemp).step exact₇ memTemp2, ?_⟩
    have low1 : s'.r (reg1.reg 0) = s.r (reg1.reg 0) := exact.others _ (apart owned1)
    have low2 : s₅.r (reg2.reg 0) = s.r (reg2.reg 0) := (exact.step exact₅ memTemp).others _ (apart owned2)
    have kept : s₆.r temp2 = s'.r temp2 := by
      rw [exact₆.others temp2 fun member => distinct (List.mem_singleton.1 member),
        exact₅.others temp2 fun member => distinct (List.mem_singleton.1 member)]
    rw [joined, kept, inv, differ₆, moved₅, low1, low2]
    exact BitVec.or_self
  · rintro _ code₅ s₅ ⟨exact₅, inv⟩
    have writable : ∀ r ∈ [temp, temp2], Writable code₂ r := by
      intro r member
      rcases List.mem_cons.1 member with rfl | last
      · refine kept₂.ready.writable ?_
        rw [kept₂.allocated]
        exact takenTemp
      · rw [List.mem_singleton.1 last]
        exact spare.toWritable
    refine wp_bind (wp_zeroreg (exact₅.ready writable kept₂.ready) fun code₆ s₆ (exact₆ : Exact [temp] code₅ s₅ code₆ s₆)
      (zero : s₆.r temp = 0#8) _ _ => ?_)
    have same : s₆.r temp2 = s.r (reg1.reg 0) ^^^ s.r (reg2.reg 0) := by
      rw [exact₆.others temp2 fun member => distinct (List.mem_singleton.1 member), inv]
    refine wp_bind (wp_tworeg fun _ _ _ => ⟨s₆.setDifference temp ((s₆.r temp).toNat - (s₆.r temp2).toNat), rfl, ?_⟩)
    have exact₇ : Exact [temp, temp2] code₂ s (code₆.pushed ⟨.sub, temp, temp2⟩)
        (s₆.setDifference temp ((s₆.r temp).toNat - (s₆.r temp2).toNat)) :=
      (exact₅.step exact₆ memTemp).step (exact_pushed code₆ _ rfl rfl) memTemp
    have onlyTemp : ∀ r ∈ [temp, temp2], inRegs code₂.allocated r = true → r ∈ ([] ++ [temp] : List Nat) := by
      intro r member taken
      rcases List.mem_cons.1 member with rfl | last
      · exact List.mem_cons_self
      · rw [List.mem_singleton.1 last] at taken
        exact absurd taken spare.free
    have kept₇ := exact₇.kept writable onlyTemp kept₂.ready
    have bytes : Bytes ([] ++ [temp]) := fun r member => by
      rw [List.mem_singleton.1 member]
      exact lt_of_inRegs takenTemp
    refine wp_releaseReg [] took ready ((kept₂.mono fun _ member => nomatch member).trans bytes kept₇) ?_
    intro code' kept _
    refine holds code' _ kept ?_
    have difference : (s₆.setDifference temp ((s₆.r temp).toNat - (s₆.r temp2).toNat)).c =
        decide (((s₆.r temp).toNat - (s₆.r temp2).toNat : Int) < 0) := rfl
    have isZero : (s₆.r temp).toNat = 0 := congrArg BitVec.toNat zero
    have some_bit : s.r (reg1.reg 0) ≠ s.r (reg2.reg 0) ↔ 0 < (s₆.r temp2).toNat := by
      rw [same, Ne, ← BitVec.xor_eq_zero_iff, ← BitVec.toNat_inj, Nat.pos_iff_ne_zero]
      rfl
    rw [difference, isZero, decide_eq_decide, some_bit]
    omega

/-! ### The result -/

/-- The documented result: `0` is for zero when the registers are equal, `1` is for one when they are equal, and
anything else is for bytes of ones when they are equal. -/
def documentedResult (set : Nat) (equal : Prop) [Decidable equal] (count : Nat) : BitVec (8 * count) :=
  if set = 0 then (if equal then 0 else BitVec.allOnes _)
  else if set = 1 then (if equal then 1 else 0)
  else (if equal then BitVec.allOnes _ else 0)

/-- The bytes of a register are copies of the low one. -/
theorem wp_spread {out : Nat} {rest : Reg} {b : Byte} (ready : Ready code s) (owned : Owned code (out :: rest))
    (apart : out ∉ rest) (low : s.r out = b)
    (holds : ∀ code' s', Kept rest code s code' s' → s'.r out = b → (∀ r ∈ rest, s'.r r = b) → Q () code' s') :
    target.wp (rest.forM fun r => tworeg .mov r out) Q code s := by
  let I : List Nat → Code → AVRState → Prop := fun done code' s' =>
    Exact rest code s code' s' ∧ ∀ r ∈ done, s'.r r = b
  refine wp_mono (wp_forM I ⟨Exact.refl rest code s, fun _ member => nomatch member⟩ ?_) ?_
  · rintro done r more parts code₁ s₁ ⟨exact, copied⟩
    have member : r ∈ rest := by
      rw [parts]
      exact List.mem_append_right done List.mem_cons_self
    refine wp_mov fun code₂ s₂ exact₂ moved _ => ⟨exact.step exact₂ member, fun r' member' => ?_⟩
    have source : s₁.r out = b := (exact.others out apart).trans low
    by_cases same : r' = r
    · rw [same, moved, source]
    · rw [exact₂.others r' fun single => same (List.mem_singleton.1 single)]
      exact copied r' ((List.mem_append.1 member').resolve_right fun single => same (List.mem_singleton.1 single))
  · rintro _ code' s' ⟨exact, copied⟩
    exact holds code' s' (exact.owned owned.behind ready) ((exact.others out apart).trans low) copied

/-- The number of bytes of ones. -/
theorem number_replicate_ones (count : Nat) : number (List.replicate count 0xFF#8) + 1 = 256 ^ count := by
  induction count with
  | zero => rfl
  | succ count ih =>
      have ones : (0xFF#8).toNat = 255 := rfl
      rw [List.replicate_succ, number_cons, ones, Nat.pow_succ]
      omega

/-- A register whose bytes are all zero, or all ones. -/
theorem regValue_of_bytes {reg : Reg} {ones : Bool} (same : ∀ r ∈ reg, s.r r = if ones then 0xFF#8 else 0#8) :
    regValue s reg = if ones then BitVec.allOnes _ else 0 := by
  rw [regValue, regNat, List.map_congr_left same, List.map_const']
  cases ones with
  | false => exact congrArg _ (number_replicate_zero reg.length)
  | true =>
      have number := number_replicate_ones reg.length
      rw [if_pos rfl, if_pos rfl]
      apply BitVec.eq_of_toNat_eq
      rw [BitVec.toNat_ofNat, BitVec.toNat_allOnes, Nat.pow_mul]
      have size : (2 ^ 8) ^ reg.length = 256 ^ reg.length := rfl
      rw [size, Nat.mod_eq_of_lt (by omega)]
      omega

/-- Every byte of a register is set to zero. -/
theorem wp_zeroAll {out : Nat} {rest : Reg} (ready : Ready code s) (owned : Owned code (out :: rest)) (apart : out ∉ rest)
    (holds : ∀ code' s', Kept rest code s code' s' → s'.r out = s.r out → (∀ r ∈ rest, s'.r r = 0#8) → Q () code' s') :
    target.wp (rest.forM zeroreg) Q code s := by
  let I : List Nat → Code → AVRState → Prop := fun done code' s' =>
    Exact rest code s code' s' ∧ ∀ r ∈ done, s'.r r = 0#8
  refine wp_mono (wp_forM I ⟨Exact.refl rest code s, fun _ member => nomatch member⟩ ?_) ?_
  · rintro done r more parts code₁ s₁ ⟨exact, cleared⟩
    have member : r ∈ rest := by
      rw [parts]
      exact List.mem_append_right done List.mem_cons_self
    have ready₁ := exact.ready (fun r member => ready.writable (owned.behind r member)) ready
    refine wp_zeroreg ready₁ fun code₂ s₂ exact₂ zero _ _ => ⟨exact.step exact₂ member, fun r' member' => ?_⟩
    by_cases same : r' = r
    · rw [same, zero]
    · rw [exact₂.others r' fun single => same (List.mem_singleton.1 single)]
      exact cleared r' ((List.mem_append.1 member').resolve_right fun single => same (List.mem_singleton.1 single))
  · rintro _ code' s' ⟨exact, cleared⟩
    exact holds code' s' (exact.owned owned.behind ready) (exact.others out apart) cleared

/-- The low byte of the output register and the bytes behind it. -/
theorem Kept.cons {out : Nat} {rest : Reg} {code₁ : Code} {s₁ : AVRState} (owned : Owned code (out :: rest))
    (first : Kept [out] code s code₁ s₁) (others : Kept rest code₁ s₁ code' s') : Kept (out :: rest) code s code' s' := by
  refine (first.mono fun r member => ?_).trans owned.bytes (others.mono fun r member => List.mem_cons_of_mem out member)
  rw [List.mem_singleton.1 member]
  exact List.mem_cons_self

/-- The carry in the lowest bit of a byte. -/
theorem wp_rolZero {out : Nat} (ready : Ready code s) (owned : inRegs code.allocated out = true) (zero : s.r out = 0#8)
    (holds : ∀ code' s', Kept [out] code s code' s' → s'.r out = BitVec.ofNat 8 s.carry → Q () code' s') :
    target.wp (onereg .rol out) Q code s := by
  refine wp_onereg fun _ => ⟨_, rfl, holds _ _ (kept_pushed _ _ ready owned rfl rfl) ?_⟩
  refine (s.setReg_self out _).trans ?_
  rw [zero]
  exact BitVec.zero_or

/-- The result of `compare_and_set` is the documented one for the carry, which is clear for equal bytes. -/
theorem wp_setResult {regout : Reg} {set : Nat} (ready : Ready code s) (nodup : regout.Nodup)
    (owned : Owned code regout) :
    target.wp (setResult regout set) (fun _ code' s' => Kept regout code s code' s' ∧ regout ≠ [] ∧
      regValue s' regout = documentedResult set (s.c = false) regout.length) code s := by
  cases regout with
  | nil => exact wp_bind wp_throw
  | cons out rest =>
      obtain ⟨apart, _⟩ := List.nodup_cons.1 nodup
      have ownedOut := owned out List.mem_cons_self
      have byteOut : Bytes [out] := fun r member => by
        rw [List.mem_singleton.1 member]
        exact lt_of_inRegs ownedOut
      -- Copies of a low byte of zeros or of ones.
      have spread (ones : Bool) {code₁ : Code} {s₁ : AVRState} (kept₁ : Kept [out] code s code₁ s₁)
          (low : s₁.r out = if ones then 0xFF#8 else 0#8)
          (documented : documentedResult set (s.c = false) (out :: rest).length =
            if ones then BitVec.allOnes _ else 0) :
          target.wp (rest.forM fun r => tworeg .mov r out) (fun _ code' s' => Kept (out :: rest) code s code' s' ∧
            out :: rest ≠ [] ∧ regValue s' (out :: rest) = documentedResult set (s.c = false) (out :: rest).length)
            code₁ s₁ := by
        refine wp_spread kept₁.ready (owned.kept kept₁) apart low fun code' s' kept' low' copies => ?_
        refine ⟨kept₁.cons owned kept', List.cons_ne_nil out rest, ?_⟩
        rw [documented]
        refine regValue_of_bytes fun r member => ?_
        rcases List.mem_cons.1 member with rfl | behind
        · exact low'
        · exact copies r behind
      refine wp_bind (wp_pure ?_)
      refine wp_ite (fun zero => ?_) fun notZero => wp_ite (fun one => ?_) fun notOne => ?_
      · refine wp_bind (wp_zeroregNoCc ready ownedOut fun code₁ s₁ kept₁ isZero status => ?_)
        have owned₁ : inRegs code₁.allocated out = true := (owned.kept kept₁) out List.mem_cons_self
        refine wp_bind (wp_sumReg true true kept₁.ready owned₁ fun code₂ s₂ kept₂ sum => ?_)
        refine spread s.c (kept₁.trans byteOut kept₂) ?_ ?_
        · have none : (0#8).toNat = 0 := rfl
          have small := (s₂.r out).isLt
          have isCarry : s₁.carry = s.carry := congrArg Bool.toNat status.c
          simp only [ByteSum, sumSign, carryIn, if_true, isZero, isCarry, none] at sum
          apply BitVec.eq_of_toNat_eq
          cases carry : s.c with
          | false =>
              have noCarry : s.carry = 0 := congrArg Bool.toNat carry
              exact (by omega : (s₂.r out).toNat = 0)
          | true =>
              have someCarry : s.carry = 1 := congrArg Bool.toNat carry
              exact (by omega : (s₂.r out).toNat = 255)
        · rw [documentedResult, if_pos zero]
          cases s.c <;> rfl
      · refine wp_bind (wp_zeroregNoCc ready ownedOut fun code₁ s₁ kept₁ isZero status => ?_)
        have owned₁ : inRegs code₁.allocated out = true := (owned.kept kept₁) out List.mem_cons_self
        refine wp_bind (wp_rolZero kept₁.ready owned₁ isZero fun code₂ s₂ kept₂ carry => ?_)
        refine wp_bind (wp_immtemp kept₂.ready fun highReg code₃ s₃ _ _ kept₃ _ loaded => ?_)
        have kept₃' : Kept [out] code s code₃ s₃ :=
          (kept₁.trans byteOut kept₂).trans byteOut (kept₃.mono fun _ member => absurd member List.not_mem_nil)
        refine wp_bind (wp_eor fun code₄ s₄ exact₄ flipped _ => ?_)
        have owned₃ : Owned code₃ (out :: rest) := owned.kept kept₃'
        have kept₄ : Kept [out] code s code₄ s₄ := kept₃'.trans byteOut (exact₄.owned (fun r member => by
          rw [List.mem_singleton.1 member]
          exact owned₃ out List.mem_cons_self) kept₃'.ready)
        have same : s₃.r out = s₂.r out := kept₃.others out (Or.inl (kept₂.allocated ▸ owned₁)) List.not_mem_nil
        rw [same, carry, loaded] at flipped
        refine wp_zeroAll kept₄.ready (owned.kept kept₄) apart fun code' s' kept' low
          (zeros : ∀ r ∈ rest, s'.r r = 0#8) => ?_
        refine ⟨kept₄.cons owned kept', List.cons_ne_nil out rest, ?_⟩
        have highBytes : number (rest.map s'.r) = 0 := by
          rw [List.map_congr_left zeros, List.map_const', number_replicate_zero]
        have isNumber : regNat s' (out :: rest) = (BitVec.ofNat 8 s₁.carry ^^^ BitVec.ofNat 8 1).toNat := by
          rw [regNat_cons, regNat, highBytes, low, flipped]
          rfl
        have isCarry : s₁.carry = s.carry := congrArg Bool.toNat status.c
        rw [regValue, isNumber, isCarry, AVRState.carry, documentedResult, if_neg notZero, if_pos one]
        cases s.c <;> rfl
      · refine wp_bind (wp_zeroregNoCc ready ownedOut fun code₁ s₁ kept₁ isZero status => ?_)
        have owned₁ : inRegs code₁.allocated out = true := (owned.kept kept₁) out List.mem_cons_self
        refine wp_bind (wp_rolZero kept₁.ready owned₁ isZero fun code₂ s₂ kept₂ carry => ?_)
        have owned₂ : inRegs code₂.allocated out = true := kept₂.allocated ▸ owned₁
        refine wp_bind (wp_onereg fun _ => ⟨s₂.setRegZ out (s₂.r out - 1#8), rfl, ?_⟩)
        have kept₃ : Kept [out] code₂ s₂ (code₂.pushed ⟨.dec, out, 0⟩) (s₂.setRegZ out (s₂.r out - 1#8)) :=
          kept_pushed _ _ kept₂.ready owned₂ rfl rfl
        refine spread (!s.c) ((kept₁.trans byteOut kept₂).trans byteOut kept₃) ?_ ?_
        · have isCarry : s₁.carry = s.carry := congrArg Bool.toNat status.c
          refine (s₂.setReg_self out _).trans ?_
          rw [carry, isCarry, AVRState.carry]
          cases s.c <;> rfl
        · rw [documentedResult, if_neg notZero, if_neg notOne]
          cases s.c <;> rfl

/-! ### The whole function -/

theorem documentedResult_congr {set count : Nat} {p q : Prop} [Decidable p] [Decidable q] (same : p ↔ q) :
    documentedResult set p count = documentedResult set q count := by
  simp only [documentedResult, same]

theorem documentedResult_ne (set : Nat) {count : Nat} (some_byte : 0 < count) :
    documentedResult set True count ≠ documentedResult set False count := by
  have width : 0 < 8 * count := by omega
  have ones : BitVec.allOnes (8 * count) ≠ 0 := fun same => by
    have bit := congrArg (fun x => x.getLsbD 0) same
    simp [width] at bit
  have one : (1 : BitVec (8 * count)) ≠ 0 := fun same => by
    have bit := congrArg (fun x => x.getLsbD 0) same
    simp [width] at bit
  simp only [documentedResult, if_true, if_false]
  split
  · exact ones.symm
  · split
    · exact one
    · exact ones

/-- Different answers have different results. -/
theorem documentedResult_eq_iff {set count : Nat} {p q : Prop} [Decidable p] [Decidable q] (some_byte : 0 < count) :
    documentedResult set p count = documentedResult set q count ↔ (p ↔ q) := by
  refine ⟨fun same => ?_, documentedResult_congr⟩
  have differ := documentedResult_ne set some_byte
  by_cases isP : p
  · by_cases isQ : q
    · exact iff_of_true isP isQ
    · rw [documentedResult_congr (iff_true_intro isP), documentedResult_congr (iff_false_intro isQ)] at same
      exact absurd same differ
  · by_cases isQ : q
    · rw [documentedResult_congr (iff_false_intro isP), documentedResult_congr (iff_true_intro isQ)] at same
      exact absurd same.symm differ
    · exact iff_of_false isP isQ

theorem wp_compareAndSet {regout reg1 reg2 : Reg} {set : Nat} (ready : Ready code s) (nodup : regout.Nodup)
    (owned : Owned code regout) (owned1 : Owned code reg1) (owned2 : Owned code reg2) :
    target.wp (compareAndSet regout reg1 reg2 set) (fun _ code' s' => Kept regout code s code' s' ∧
      reg1.length = reg2.length ∧ 0 < reg1.length ∧ 0 < regout.length ∧
      regValue s' regout = documentedResult (set % 256) (s.r (reg1.reg 0) = s.r (reg2.reg 0)) regout.length) code s := by
  refine wp_ite (fun _ => wp_throw) fun sameSize => wp_ite (fun _ => wp_throw) fun some_byte => ?_
  have sameLength : reg1.length = reg2.length := not_not.1 sameSize
  have positive : 0 < reg1.length := Nat.pos_of_ne_zero some_byte
  have first {reg : Reg} (owned : Owned code reg) (some_byte : 0 < reg.length) :
      inRegs code.allocated (reg.reg 0) = true := by
    cases reg with
    | nil => exact absurd some_byte (Nat.lt_irrefl 0)
    | cons r rest => exact owned r List.mem_cons_self
  refine wp_bind (wp_setCarry ready (first owned1 positive) (first owned2 (sameLength ▸ positive)) ?_)
  intro code₁ s₁ kept₁ carry
  refine wp_mono (wp_setResult kept₁.ready nodup (owned.kept kept₁)) ?_
  rintro _ code' s' ⟨kept', some_out, result⟩
  refine ⟨(kept₁.mono fun _ member => nomatch member).trans owned.bytes kept', sameLength, positive,
    List.length_pos_iff.2 some_out, ?_⟩
  rw [result]
  refine documentedResult_congr ?_
  rw [carry, decide_eq_false_iff_not, not_not]

/-- `compare_and_set` leaves the documented result when the low bytes tell whether the registers are equal: the loop
over the other bytes reads the low ones. -/
theorem compareAndSet_leaves_result_iff {regout reg1 reg2 : Reg} {set : Nat} (ready : Ready code s)
    (nodup : regout.Nodup) (owned : Owned code regout) (owned1 : Owned code reg1) (owned2 : Owned code reg2)
    (emitted : (compareAndSet regout reg1 reg2 set).run code = .ok ((), code')) :
    ∃ seg s', code'.insns = code.insns ++ seg ∧ RunsTo seg s s' ∧
      (∀ r, inRegs code.allocated r = true → r ∉ regout → s'.r r = s.r r) ∧
      (regValue s' regout = documentedResult (set % 256) (regNat s reg1 = regNat s reg2) regout.length ↔
        (s.r (reg1.reg 0) ≠ s.r (reg2.reg 0) ∨ regNat s reg1 = regNat s reg2)) := by
  obtain ⟨seg, s', parts, runs, kept, sameLength, some_byte, some_out, result⟩ :=
    runsTo_of_wp (wp_compareAndSet ready nodup owned owned1 owned2) emitted
  refine ⟨seg, s', parts, runs, fun r allocated other => kept.others r (Or.inl allocated) other, ?_⟩
  have whole : regNat s reg1 = regNat s reg2 → s.r (reg1.reg 0) = s.r (reg2.reg 0) := by
    intro same
    have bytes : reg1.map s.r = reg2.map s.r := by
      refine number_inj ?_ same
      rw [List.length_map, List.length_map, sameLength]
    cases reg1 with
    | nil => exact absurd some_byte (Nat.lt_irrefl 0)
    | cons r1 rest1 =>
        cases reg2 with
        | nil => exact nomatch sameLength
        | cons r2 rest2 => exact (List.cons.inj bytes).1
  rw [result, documentedResult_eq_iff some_out]
  constructor
  · intro right
    by_cases low : s.r (reg1.reg 0) = s.r (reg2.reg 0)
    · exact Or.inr (right.1 low)
    · exact Or.inl low
  · rintro (differ | same)
    · exact iff_of_false differ fun same => differ (whole same)
    · exact iff_of_true (whole same) same

/-- Two registers of two bytes, and one of them for the result. -/
theorem compareAndSet_leaves_result_iff_bytes :
    ∃ code', (compareAndSet [18, 19] [18, 19] [20, 21] 1).run fourRegisters = .ok ((), code') ∧
      ∃ seg s', code'.insns = fourRegisters.insns ++ seg ∧ RunsTo seg AVRState.new s' ∧
        (∀ r, inRegs fourRegisters.allocated r = true → r ∉ [18, 19] → s'.r r = AVRState.new.r r) ∧
        (regValue s' [18, 19] = documentedResult (1 % 256)
          (regNat AVRState.new [18, 19] = regNat AVRState.new [20, 21]) ([18, 19] : Reg).length ↔
          (AVRState.new.r (Reg.reg [18, 19] 0) ≠ AVRState.new.r (Reg.reg [20, 21] 0) ∨
            regNat AVRState.new [18, 19] = regNat AVRState.new [20, 21])) :=
  ⟨_, rfl, compareAndSet_leaves_result_iff ready_fourRegisters (by decide) owned_fourRegisters_low owned_fourRegisters_low
    owned_fourRegisters_high rfl⟩

/-- Registers that differ in their high bytes are taken for equal ones. -/
theorem compareAndSet_reads_low_bytes :
    ∃ code', (compareAndSet [18] [18, 19] [20, 21] 1).run fourRegisters = .ok ((), code') ∧
      regNat (AVRState.new.setReg 21 0x00#8) [18, 19] ≠ regNat (AVRState.new.setReg 21 0x00#8) [20, 21] ∧
      (execLoop code' 20 (AVRState.new.setReg 21 0x00#8)).map (fun final => final.map (regNat · [18])) =
        some (.ok 1) :=
  ⟨_, rfl, by decide, by decide⟩

end AsconSuite.Avr
