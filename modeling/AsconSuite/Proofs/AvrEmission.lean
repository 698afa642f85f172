/-
Module: AsconSuite.Proofs.AvrEmission
Layer: Proofs
Purpose: The interpreter as the target of the code builder: emitted code runs where it is, and what the single
  instructions ask for.
Imports: AsconSuite.Base.EmitLogic, AsconSuite.Tools.AvrInterpret
Trusted boundary: none
Main exports: Avr.target, Avr.execLoop_of_run, Avr.RunsTo, Avr.runsTo_of_wp, Avr.wp_tworeg, Avr.wp_onereg, Avr.wp_immreg
-/
import AsconSuite.Base.EmitLogic
import AsconSuite.Tools.AvrInterpret

namespace AsconSuite.Avr

open ByteWord ByteMemory
open Emit (Target)
open Emit.Target

/-! ### Straight-line code -/

/-- The instruction runs on to the next one and knows neither the code it is in nor an S-box. -/
def InsnType.straight : InsnType → Bool
  | .brcc | .brcs | .breq | .brne | .call | .cpse | .jmp | .ret => false
  | .lpmSbox | .lpmSetup | .lpmSwitch | .lpmAdjust | .lpmClean => false
  | _ => true

/-- What the interpreter does for an instruction that runs on to the next one. -/
def stepInsn (s : AVRState) (insn : Insn) : Except String AVRState :=
  if insn.type.straight then execInsn s Code.new insn else throw "not a straight instruction"

/-- The builder and the interpreter. -/
def target : Target Code Insn AVRState String where
  code := Code.insns
  step := stepInsn

/-- Set the program counter. -/
def AVRState.at (s : AVRState) (pc : Nat) : AVRState := { s with pc := pc }

theorem ptr_at (s : AVRState) (pc reg offset : Nat) :
    (s.at pc).ptr reg offset = (s.ptr reg offset).map fun p => (p.1, p.2.at pc) := by
  have same : (s.at pc).pair reg = s.pair reg := rfl
  simp only [AVRState.ptr, same]
  split
  · split <;> rfl
  · split
    · split <;> rfl
    · split <;> rfl

theorem loadTo_at (s : AVRState) (pc reg pointer offset : Nat) :
    (s.at pc).loadTo reg pointer offset = (s.loadTo reg pointer offset).map (·.at pc) := by
  rw [AVRState.loadTo, AVRState.loadTo, AVRState.load, AVRState.load, ptr_at]
  cases s.ptr pointer offset <;> rfl

theorem store_at (s : AVRState) (pc reg offset : Nat) (b : Byte) :
    (s.at pc).store reg offset b = (s.store reg offset b).map (·.at pc) := by
  rw [AVRState.store, AVRState.store, ptr_at]
  cases s.ptr reg offset <;> rfl

/-- The program counter does not matter for such an instruction. -/
theorem execInsn_at {insn : Insn} (straight : insn.type.straight = true) (s : AVRState) (code : Code) (pc : Nat) :
    execInsn (s.at pc) code insn = (stepInsn s insn).map (·.at pc) := by
  obtain ⟨type, reg1, reg2⟩ := insn
  rw [stepInsn, if_pos straight]
  cases type with
  | ldX | ldY | ldZ | pop => exact loadTo_at s pc _ _ _
  | stX | stY | stZ | push => exact store_at s pc _ _ _
  | brcc | brcs | breq | brne | call | cpse | jmp | ret => exact nomatch straight
  | lpmSbox | lpmSetup | lpmSwitch | lpmAdjust | lpmClean => exact nomatch straight
  | _ => rfl

theorem stepInsn_eq_ok {s s' : AVRState} {insn : Insn} (stepped : stepInsn s insn = .ok s') :
    insn.type.straight = true := by
  by_contra control
  rw [stepInsn, if_neg control] at stepped
  exact nomatch stepped

/-- Emitted instructions run where they are in the code. -/
theorem execLoop_of_run {code : Code} {front seg back : List Insn} (parts : code.insns = front ++ seg ++ back)
    {s s' : AVRState} (ran : target.run seg s = .ok s') (fuel : Nat) :
    execLoop code (seg.length + fuel) (s.at front.length) =
      execLoop code fuel (s'.at (front.length + seg.length)) := by
  induction seg generalizing front s with
  | nil =>
      cases ran
      rw [List.length_nil, Nat.zero_add, Nat.add_zero]
  | cons insn seg ih =>
      rw [run] at ran
      cases stepped : stepInsn s insn with
      | error e =>
          change (stepInsn s insn).bind (target.run seg) = .ok s' at ran
          rw [stepped] at ran
          cases ran
      | ok next =>
          change (stepInsn s insn).bind (target.run seg) = .ok s' at ran
          rw [stepped] at ran
          have inside : front.length < code.insns.length := by
            rw [parts, List.length_append, List.length_append, List.length_cons]
            omega
          have here : code.insns[front.length]? = some insn := by
            rw [parts, List.append_assoc, List.getElem?_append_right (Nat.le_refl _), Nat.sub_self]
            rfl
          have parts' : code.insns = front ++ [insn] ++ seg ++ back := by
            rw [parts, List.append_assoc front [insn], List.singleton_append]
          have fuel_eq : (insn :: seg).length + fuel = (seg.length + fuel) + 1 := by
            rw [List.length_cons]
            omega
          have executed : execInsn { s.at front.length with pc := (s.at front.length).pc + 1 } code insn =
              .ok (next.at (front.length + 1)) := by
            have moved := execInsn_at (stepInsn_eq_ok stepped) s code (front.length + 1)
            rw [stepped] at moved
            exact moved
          have rest := ih parts' ran
          rw [List.length_append, List.length_singleton] at rest
          have notEnd : ¬(s.at front.length).pc = code.insns.length := Nat.ne_of_lt inside
          have place : code.insns[(s.at front.length).pc]? = some insn := here
          rw [fuel_eq, execLoop, if_neg notEnd, place]
          simp only [executed]
          rw [rest, List.length_cons]
          congr 2
          omega

/-- Where these instructions stand in some code, the interpreter goes on behind them from another state. -/
def RunsTo (seg : List Insn) (s s' : AVRState) : Prop :=
  ∀ (whole : Code) (front back : List Insn), whole.insns = front ++ seg ++ back → ∀ fuel : Nat,
    execLoop whole (seg.length + fuel) (s.at front.length) =
      execLoop whole fuel (s'.at (front.length + seg.length))

/-- What the weakest precondition says is about the interpreter. -/
theorem runsTo_of_wp {α : Type} {m : Build α} {P : α → Code → AVRState → Prop} {code code' : Code} {s : AVRState}
    {a : α} (spec : target.wp m P code s) (ran : m.run code = .ok (a, code')) :
    ∃ seg s', code'.insns = code.insns ++ seg ∧ RunsTo seg s s' ∧ P a code' s' := by
  obtain ⟨seg, s', emitted, reached, holds⟩ := spec a code' ran
  exact ⟨seg, s', emitted, fun whole front back parts fuel => execLoop_of_run parts reached fuel, holds⟩

/-! ### Registers of the machine -/

theorem AVRState.setReg_self (s : AVRState) (reg : Nat) (b : Byte) : (s.setReg reg b).r reg = b := if_pos rfl

theorem AVRState.setReg_other (s : AVRState) {r reg : Nat} (b : Byte) (other : r ≠ reg) :
    (s.setReg reg b).r r = s.r r := if_neg other

/-- A byte does not see what an `unsigned char` cuts off. -/
theorem ofNat_mod_byte (value : Nat) : BitVec.ofNat 8 (value % 256) = BitVec.ofNat 8 value := by
  apply BitVec.eq_of_toNat_eq
  rw [BitVec.toNat_ofNat, BitVec.toNat_ofNat]
  exact Nat.mod_mod value 256

/-! ### Single instructions -/

/-- The builder behind one more instruction. -/
def Code.pushed (code : Code) (insn : Insn) : Code := { code with insns := code.insns ++ [insn] }

variable {code code' : Code} {s s' : AVRState} {Q : Unit → Code → AVRState → Prop}

theorem wp_pushInsn {insn : Insn} (stepped : stepInsn s insn = .ok s') (holds : Q () (code.pushed insn) s') :
    target.wp (pushInsn insn) Q code s := wp_emit rfl stepped holds

theorem wp_pushChecked {insn : Except String Insn}
    (holds : ∀ i, insn = .ok i → ∃ s', stepInsn s i = .ok s' ∧ Q () (code.pushed i) s') :
    target.wp (pushChecked insn) Q code s := by
  refine wp_bind (wp_lift fun i made => ?_)
  obtain ⟨s', stepped, holds⟩ := holds i made
  exact wp_pushInsn stepped holds

theorem wp_tworeg {type : InsnType} {reg1 reg2 : Nat}
    (holds : reg1 < 32 → reg2 < 32 → (type = .movw → reg1 % 2 = 0 ∧ reg2 % 2 = 0) →
      ∃ s', stepInsn s ⟨type, reg1, reg2⟩ = .ok s' ∧ Q () (code.pushed ⟨type, reg1, reg2⟩) s') :
    target.wp (tworeg type reg1 reg2) Q code s := by
  refine wp_pushChecked fun i made => ?_
  rw [Insn.ofReg2] at made
  split at made
  next => exact nomatch made
  next bounds =>
    split at made
    next => exact nomatch made
    next even =>
      cases made
      obtain ⟨bound1, bound2⟩ := not_or.1 bounds
      refine holds (Nat.lt_of_not_le bound1) (Nat.lt_of_not_le bound2) fun isMovw => ?_
      obtain ⟨even1, even2⟩ := not_or.1 fun odd => even ⟨isMovw, odd⟩
      exact ⟨not_not.1 even1, not_not.1 even2⟩

theorem wp_onereg {type : InsnType} {reg : Nat}
    (holds : reg < 32 → ∃ s', stepInsn s ⟨type, reg, 0⟩ = .ok s' ∧ Q () (code.pushed ⟨type, reg, 0⟩) s') :
    target.wp (onereg type reg) Q code s := by
  refine wp_pushChecked fun i made => ?_
  rw [Insn.ofReg1] at made
  split at made
  next => exact nomatch made
  next bound =>
    cases made
    exact holds (Nat.lt_of_not_le bound)

theorem wp_immreg {type : InsnType} {reg value : Nat}
    (holds : 16 ≤ reg → reg < 32 → ∃ s', stepInsn s ⟨type, reg, value % 256⟩ = .ok s' ∧
      Q () (code.pushed ⟨type, reg, value % 256⟩) s') :
    target.wp (immreg type reg value) Q code s := by
  refine wp_pushChecked fun i made => ?_
  rw [Insn.ofImm] at made
  split at made
  next => exact nomatch made
  next bounds =>
    split at made
    next => exact nomatch made
    next =>
      cases made
      exact holds (by omega) (by omega)

end AsconSuite.Avr
