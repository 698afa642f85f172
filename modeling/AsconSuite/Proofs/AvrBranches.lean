/-
Module: AsconSuite.Proofs.AvrBranches
Layer: Proofs
Purpose: Branches behind comparisons: for which values they go the way that they should, and when the loop of
  `compare_and_loop` goes back.
Imports: AsconSuite.Proofs.AvrComparisons
Trusted boundary: none
Main exports: Avr.Branch, Avr.execLoop_branch, Avr.LoopsBack, Avr.comparisons_branch_iff
-/
import AsconSuite.Proofs.AvrComparisons

namespace AsconSuite.Avr

open ByteWord ByteMemory ByteNumber
open Emit (Target run_bind_eq_ok)
open Emit.Target

variable {code code' : Code} {s s' : AVRState}

/-! ### Branches in the interpreter -/

/-- One instruction of the loop of the interpreter. -/
theorem execLoop_step {whole : Code} {pc : Nat} {insn : Insn} (place : whole.insns[pc]? = some insn)
    (stepped : execInsn (s.at (pc + 1)) whole insn = .ok s') (fuel : Nat) :
    execLoop whole (fuel + 1) (s.at pc) = execLoop whole fuel s' := by
  have notEnd : ¬(s.at pc).pc = whole.insns.length := Nat.ne_of_lt (List.getElem?_eq_some_iff.1 place).1
  have here : whole.insns[(s.at pc).pc]? = some insn := place
  have executed : execInsn { s.at pc with pc := (s.at pc).pc + 1 } whole insn = .ok s' := stepped
  rw [execLoop, if_neg notEnd, here]
  simp only [executed]

/-- The branches that look at the flags. -/
inductive Branch where
  | breq | brne | brcs | brcc

namespace Branch

/-- The instruction. -/
def type : Branch → InsnType
  | breq => .breq
  | brne => .brne
  | brcs => .brcs
  | brcc => .brcc

/-- The flags for which the interpreter takes the branch. -/
def taken (s : AVRState) : Branch → Bool
  | breq => s.z
  | brne => !s.z
  | brcs => s.c
  | brcc => !s.c

/-- The numbers for which the branch is to be taken behind their comparison. -/
def due (a b : Nat) : Branch → Prop
  | breq => a = b
  | brne => a ≠ b
  | brcs => a < b
  | brcc => ¬a < b

end Branch

theorem goto_label {whole : Code} {ref offset : Nat} (label : whole.getLabel ref = .ok offset) (s : AVRState) (pc : Nat) :
    (s.at pc).goto whole ref = .ok (s.at offset) := by
  rw [AVRState.goto, label]
  rfl

theorem execLoop_branch {whole : Code} {pc ref offset : Nat} (branch : Branch)
    (place : whole.insns[pc]? = some ⟨branch.type, ref, 0⟩) (label : whole.getLabel ref = .ok offset) (s : AVRState)
    (fuel : Nat) :
    execLoop whole (fuel + 1) (s.at pc) = execLoop whole fuel (s.at (if branch.taken s then offset else pc + 1)) := by
  have executed : execInsn (s.at (pc + 1)) whole ⟨branch.type, ref, 0⟩ =
      if branch.taken s then (s.at (pc + 1)).goto whole ref else .ok (s.at (pc + 1)) := by
    cases branch <;> rfl
  refine execLoop_step place ?_ fuel
  rw [executed]
  split
  · exact goto_label label s _
  · rfl

/-- A branch that stands behind emitted code is taken as the flags say that the code leaves. -/
theorem RunsTo.branch {seg : List Insn} (runs : RunsTo seg s s') (branch : Branch) {whole : Code}
    {front back : List Insn} {ref offset : Nat} (parts : whole.insns = front ++ seg ++ ⟨branch.type, ref, 0⟩ :: back)
    (label : whole.getLabel ref = .ok offset) (fuel : Nat) :
    execLoop whole (seg.length + 1 + fuel) (s.at front.length) =
      execLoop whole fuel (s'.at (if branch.taken s' then offset else front.length + seg.length + 1)) := by
  have place : whole.insns[front.length + seg.length]? = some ⟨branch.type, ref, 0⟩ := by
    rw [parts, ← List.length_append, List.getElem?_append_right (Nat.le_refl _), Nat.sub_self]
    rfl
  rw [Nat.add_assoc, runs whole front _ parts (1 + fuel), Nat.add_comm 1 fuel]
  exact execLoop_branch branch place label s' fuel

/-! ### What the builder appends -/

/-- A branch is appended with the reference of its label. -/
theorem insns_branch {type : InsnType} {ref ref' : Nat} (notLabel : type ≠ .label)
    (ran : (branch type ref).run code = .ok (ref', code')) : code'.insns = code.insns ++ [⟨type, ref', 0⟩] := by
  obtain ⟨_, code₁, cleared, ran⟩ := run_bind_eq_ok ran
  cases cleared
  obtain ⟨_, code₂, got, ran⟩ := run_bind_eq_ok ran
  cases got
  dsimp only at ran
  split at ran
  · cases ran
    rfl
  · split at ran
    · exact nomatch ran
    · cases ran
      rfl

theorem insns_tworeg {type : InsnType} {r1 r2 : Nat} {u : Unit}
    (ran : (tworeg type r1 r2).run code = .ok (u, code')) : code' = code.pushed ⟨type, r1, r2⟩ := by
  obtain ⟨insn, code₁, made, pushed⟩ := run_bind_eq_ok ran
  rw [Insn.ofReg2] at made
  split at made
  · cases made
  · split at made
    · cases made
    · cases made
      cases pushed
      rfl

/-! ### Loops -/

/-- Code that stands somewhere goes back to its label, or on to what stands behind it. -/
def LoopsBack (seg : List Insn) (ref : Nat) (s : AVRState) (taken : Bool) : Prop :=
  ∃ (steps : Nat) (s' : AVRState), ∀ (whole : Code) (front back : List Insn) (offset : Nat), whole.insns = front ++ seg ++ back →
    whole.getLabel ref = .ok offset → ∀ fuel : Nat,
      execLoop whole (steps + fuel) (s.at front.length) =
        execLoop whole fuel (s'.at (if taken then offset else front.length + seg.length))

/-- A comparison with `brne` behind it. -/
theorem loopsBack_brne {m : Build Unit} {P : Unit → Code → AVRState → Prop} {ref ref' : Nat}
    (spec : target.wp m P code s) (ran : (m >>= fun _ => brne ref).run code = .ok (ref', code')) :
    ∃ seg s₁ code₁, code'.insns = code.insns ++ seg ∧ P () code₁ s₁ ∧ LoopsBack seg ref' s (!s₁.z) := by
  obtain ⟨u, code₁, first, last⟩ := run_bind_eq_ok ran
  obtain ⟨seg, s₁, parts, runs, holds⟩ := runsTo_of_wp spec first
  refine ⟨seg ++ [⟨.brne, ref', 0⟩], s₁, code₁, ?_, holds, seg.length + 1, s₁, ?_⟩
  · rw [insns_branch (by decide : InsnType.brne ≠ .label) last, parts, List.append_assoc]
  · intro whole front back offset parts' label fuel
    have parts₁ : whole.insns = front ++ seg ++ (⟨.brne, ref', 0⟩ :: back) := by
      rw [parts', ← List.append_assoc, List.append_assoc (front ++ seg), List.singleton_append]
    rw [runs.branch .brne parts₁ label fuel, List.length_append, List.length_singleton, Nat.add_assoc]
    rfl

/-- A comparison that skips the jump behind it when the bytes are equal. -/
theorem loopsBack_cpse {m : Build Nat} {P : Nat → Code → AVRState → Prop} {r ref ref' : Nat}
    (spec : target.wp m P code s)
    (ran : (m >>= fun other => tworeg .cpse r other >>= fun _ => jmp ref).run code = .ok (ref', code')) :
    ∃ seg s₁ code₁ other, code'.insns = code.insns ++ seg ∧ P other code₁ s₁ ∧
      LoopsBack seg ref' s (decide (s₁.r r ≠ s₁.r other)) := by
  obtain ⟨other, code₁, first, ran⟩ := run_bind_eq_ok ran
  obtain ⟨u, code₂, compared, last⟩ := run_bind_eq_ok ran
  obtain ⟨seg, s₁, parts, runs, holds⟩ := runsTo_of_wp spec first
  have appended : code'.insns = code.insns ++ (seg ++ [⟨.cpse, r, other⟩, ⟨.jmp, ref', 0⟩]) := by
    rw [insns_branch (by decide : InsnType.jmp ≠ .label) last, insns_tworeg compared, Code.pushed, parts]
    simp only [List.append_assoc, List.cons_append, List.nil_append]
  refine ⟨_, s₁, code₁, other, appended, holds, ?_⟩
  -- The jump takes one step more than the skip.
  refine ⟨seg.length + (if s₁.r r = s₁.r other then 1 else 2), s₁, ?_⟩
  intro whole front back offset parts' label fuel
  have parts₁ : whole.insns = front ++ seg ++ (⟨.cpse, r, other⟩ :: ⟨.jmp, ref', 0⟩ :: back) := by
    rw [parts']
    simp only [List.append_assoc, List.cons_append, List.nil_append]
  have behind (k : Nat) : whole.insns[front.length + seg.length + k]? =
      (⟨.cpse, r, other⟩ :: ⟨.jmp, ref', 0⟩ :: back)[k]? := by
    rw [parts₁, ← List.length_append, List.getElem?_append_right (Nat.le_add_right _ _), Nat.add_sub_cancel_left]
  have length : (seg ++ [⟨.cpse, r, other⟩, ⟨.jmp, ref', 0⟩] : List Insn).length = seg.length + 2 := List.length_append
  rw [Nat.add_assoc, runs whole front _ parts₁, length]
  by_cases equal : s₁.r r = s₁.r other
  · have skipped : execInsn (s₁.at (front.length + seg.length + 0 + 1)) whole ⟨.cpse, r, other⟩ =
        .ok (s₁.at (front.length + (seg.length + 2))) := congrArg Except.ok (if_pos equal)
    rw [if_pos equal, Nat.add_comm 1 fuel, decide_eq_false (not_not.2 equal)]
    exact execLoop_step (behind 0) skipped fuel
  · have goesOn : execInsn (s₁.at (front.length + seg.length + 0 + 1)) whole ⟨.cpse, r, other⟩ =
        .ok (s₁.at (front.length + seg.length + 1)) := congrArg Except.ok (if_neg equal)
    have jumped : execInsn (s₁.at (front.length + seg.length + 1 + 1)) whole ⟨.jmp, ref', 0⟩ = .ok (s₁.at offset) :=
      goto_label label s₁ _
    rw [if_neg equal, Nat.add_comm 2 fuel, decide_eq_true equal]
    exact (execLoop_step (behind 0) goesOn (fuel + 1)).trans (execLoop_step (behind 1) jumped fuel)

/-! ### Comparisons and the branches behind them -/

/-- What a register is compared with. -/
inductive Operand where
  | reg (other : Reg)
  | imm (value : Nat)

namespace Operand

/-- The code of the comparison. -/
def emit (reg : Reg) : Operand → Build Unit
  | .reg other => compare reg other
  | .imm value => compareImm reg value

/-- The number that the register is compared with. -/
def number (s : AVRState) : Operand → Nat
  | .reg other => regNat s other
  | .imm value => value

/-- The other register belongs to the caller. -/
def owned (code : Code) : Operand → Prop
  | .reg other => Owned code other
  | .imm _ => True

/-- When the branches behind a comparison of two registers go the right way: the first number is not larger by less
than one in the high byte, which alone decides about the zero flag. Without bytes the flags are the old ones. -/
def meetsReg (s : AVRState) (reg other : Reg) : Prop :=
  if reg.length = 0 ∧ other.length = 0 then s.z = true ∧ s.c = false
  else regNat s other < regNat s reg →
    regNat s other + 256 ^ (max reg.length other.length - 1) ≤ regNat s reg

/-- The same for an immediate value, of which the code uses as many bytes as the register has. -/
def meetsImm (s : AVRState) (reg : Reg) (value : Nat) : Prop :=
  if reg.length = 0 then (s.z = true ↔ value = 0) ∧ (s.c = true ↔ 0 < value)
  else if value < 256 ^ reg.length then value < regNat s reg → value + 256 ^ (reg.length - 1) ≤ regNat s reg
  else regNat s reg < value % 256 ^ reg.length

/-- When the branches behind a comparison go the right way. -/
def meets (s : AVRState) (reg : Reg) : Operand → Prop
  | .reg other => meetsReg s reg other
  | .imm value => meetsImm s reg value

end Operand

/-- The branches go the right way when both flags are those of the numbers. -/
theorem taken_iff_due_iff {a b : Nat} :
    (∀ branch : Branch, branch.taken s = true ↔ branch.due a b) ↔ (s.z = true ↔ a = b) ∧ (s.c = true ↔ a < b) := by
  constructor
  · exact fun right => ⟨right .breq, right .brcs⟩
  · rintro ⟨z, c⟩ branch
    cases branch with
    | breq => exact z
    | brne => rw [Branch.taken, Branch.due, Bool.not_eq_true', ← Bool.not_eq_true, z]
    | brcs => exact c
    | brcc => rw [Branch.taken, Branch.due, Bool.not_eq_true', ← Bool.not_eq_true, c]

theorem Compared.right_iff {count a b : Nat} (compared : Compared count (a - b : Int) s s') (some_byte : 0 < count) :
    ((s'.z = true ↔ a = b) ∧ (s'.c = true ↔ a < b)) ↔ (b < a → b + 256 ^ (count - 1) ≤ a) := by
  have positive : 0 < 256 ^ (count - 1) := Nat.pow_pos (by decide)
  have size : (256 : Int) ^ (count - 1) = ((256 ^ (count - 1) : Nat) : Int) := (Nat.cast_pow 256 _).symm
  rw [compared.z some_byte, compared.c some_byte, decide_eq_true_eq, decide_eq_true_eq, size]
  generalize 256 ^ (count - 1) = high_part at *
  omega

theorem meetsReg_iff {reg other : Reg}
    (compared : Compared (max reg.length other.length) (regNat s reg - regNat s other) s s') :
    ((s'.z = true ↔ regNat s reg = regNat s other) ∧ (s'.c = true ↔ regNat s reg < regNat s other)) ↔
      Operand.meetsReg s reg other := by
  rw [Operand.meetsReg]
  split
  next empty =>
    obtain ⟨c, z⟩ := compared.stale (by omega)
    rw [regNat_of_length s empty.1, regNat_of_length s empty.2, c, z]
    simp
  next => exact compared.right_iff (by omega)

theorem meetsImm_iff {reg : Reg} {value : Nat}
    (compared : Compared reg.length (regNat s reg - (value % 256 ^ reg.length : Nat)) s s') :
    ((s'.z = true ↔ regNat s reg = value) ∧ (s'.c = true ↔ regNat s reg < value)) ↔
      Operand.meetsImm s reg value := by
  have below := regNat_lt s reg
  rw [Operand.meetsImm]
  split
  next empty =>
    obtain ⟨c, z⟩ := compared.stale empty
    rw [regNat_of_length s empty, c, z, @eq_comm Nat 0]
  next some_byte =>
    split
    next small =>
      rw [Nat.mod_eq_of_lt small] at compared
      exact compared.right_iff (Nat.pos_of_ne_zero some_byte)
    next large =>
      -- The register is below the value, so the borrow must say so.
      rw [compared.z (Nat.pos_of_ne_zero some_byte), compared.c (Nat.pos_of_ne_zero some_byte), decide_eq_true_eq,
        decide_eq_true_eq]
      omega

/-- When the loop of `compare_and_loop` goes back for the right values. One byte is compared alone, and of several bytes
the high one decides. -/
def loopMeets (s : AVRState) (reg : Reg) (value : Nat) : Prop :=
  if reg.length = 0 then s.z = true ↔ value = 0
  else if reg.length = 1 then value < 256 ∨ regNat s reg ≠ value % 256
  else if value < 256 ^ reg.length then value < regNat s reg → value + 256 ^ (reg.length - 1) ≤ regNat s reg
  else regNat s reg < value % 256 ^ reg.length ∨
    value % 256 ^ reg.length + 256 ^ (reg.length - 1) ≤ regNat s reg

/-- The loop of several bytes, or of none. -/
theorem loopMeets_iff {reg : Reg} {value : Nat} (several : reg.length ≠ 1)
    (compared : Compared reg.length (regNat s reg - (value % 256 ^ reg.length : Nat)) s s') :
    ((!s'.z) = true ↔ regNat s reg ≠ value) ↔ loopMeets s reg value := by
  have below := regNat_lt s reg
  rw [Bool.not_eq_true', ← Bool.not_eq_true, not_iff_not, loopMeets]
  split
  next empty =>
    rw [regNat_of_length s empty, (compared.stale empty).2, @eq_comm Nat 0]
  next some_byte =>
    rw [compared.z (Nat.pos_of_ne_zero some_byte), decide_eq_true_eq]
    have positive : 0 < 256 ^ (reg.length - 1) := Nat.pow_pos (by decide)
    have size : (256 : Int) ^ (reg.length - 1) = ((256 ^ (reg.length - 1) : Nat) : Int) := (Nat.cast_pow 256 _).symm
    rw [size]
    generalize 256 ^ (reg.length - 1) = high_part at *
    split
    next small =>
      rw [Nat.mod_eq_of_lt small]
      omega
    next large => omega

/-- The loop of one byte. -/
theorem loopMeets_single {r value : Nat} :
    ((s.r r).toNat ≠ value % 256 ↔ (s.r r).toNat ≠ value) ↔ loopMeets s [r] value := by
  have small := (s.r r).isLt
  have number : regNat s [r] = (s.r r).toNat := by rw [regNat_cons]; rfl
  have length : ([r] : Reg).length = 1 := List.length_singleton
  rw [loopMeets, length, if_neg Nat.one_ne_zero, if_pos rfl, number]
  omega

/-- The part of `compare_and_loop` for one byte that knows whether the label is close by. -/
def compareSingle (noTemp closeBy : Bool) (r value ref : Nat) : Build Nat := do
  if value = 0 ∧ closeBy ∧ noTemp then
    tworeg .cp r zeroRegNumber
    brne ref
  else if 16 ≤ r ∧ closeBy then
    immreg .cpi r value
    brne ref
  else if value = 0 ∧ noTemp then
    tworeg .cpse r zeroRegNumber
    jmp ref
  else
    let highReg ← immtemp (value % 256)
    tworeg .cpse r highReg
    jmp ref

theorem loopsBack_compareSingle {closeBy : Bool} {r value ref ref' : Nat} (ready : Ready code s)
    (owned : inRegs code.allocated r = true)
    (emitted : (compareSingle (!code.hasFlag tempR1) closeBy r value ref).run code = .ok (ref', code')) :
    ∃ seg taken, code'.insns = code.insns ++ seg ∧ LoopsBack seg ref' s taken ∧
      (taken = true ↔ (s.r r).toNat ≠ value % 256) := by
  have small := (s.r r).isLt
  have none : carryIn s false = 0 := rfl
  rw [compareSingle] at emitted
  split at emitted
  next near =>
    obtain ⟨zero, _, noTemp⟩ := near
    rw [Bool.not_eq_true'] at noTemp
    have spec : target.wp (tworeg .cp r zeroRegNumber) (fun _ _ s₁ => ByteCompared false r 0 s s₁) code s :=
      wp_compareZero false ready noTemp fun _ _ _ flags => flags
    obtain ⟨seg, s₁, code₁, parts, flags, loops⟩ := loopsBack_brne spec emitted
    refine ⟨seg, !s₁.z, parts, loops, ?_⟩
    rw [Bool.not_eq_true', flags.2, none, decide_eq_false_iff_not, zero]
    omega
  next =>
    split at emitted
    next near =>
      have spec : target.wp (immreg .cpi r value) (fun _ _ s₁ => ByteCompared false r (value % 256 : Nat) s s₁) code s :=
        wp_compareHigh ready fun _ _ _ flags => flags
      obtain ⟨seg, s₁, code₁, parts, flags, loops⟩ := loopsBack_brne spec emitted
      refine ⟨seg, !s₁.z, parts, loops, ?_⟩
      rw [Bool.not_eq_true', flags.2, none, decide_eq_false_iff_not]
      omega
    next =>
      split at emitted
      next zero =>
        obtain ⟨zero, noTemp⟩ := zero
        rw [Bool.not_eq_true'] at noTemp
        have spec : target.wp (pure zeroRegNumber : Build Nat) (fun other _ s₁ => s₁.r r = s.r r ∧ s₁.r other = 0#8)
            code s := wp_pure ⟨rfl, ready.zero noTemp⟩
        obtain ⟨seg, s₁, code₁, other, parts, ⟨same, holds⟩, loops⟩ := loopsBack_cpse spec emitted
        refine ⟨seg, _, parts, loops, ?_⟩
        rw [decide_eq_true_eq, same, holds, zero, Ne, ← BitVec.toNat_inj]
        rfl
      next =>
        have spec : target.wp (immtemp (value % 256))
            (fun other _ s₁ => s₁.r r = s.r r ∧ s₁.r other = BitVec.ofNat 8 (value % 256)) code s :=
          wp_immtemp ready fun _ _ _ _ _ kept _ loaded => ⟨kept.others r (Or.inl owned) List.not_mem_nil, loaded⟩
        obtain ⟨seg, s₁, code₁, other, parts, ⟨same, holds⟩, loops⟩ := loopsBack_cpse spec emitted
        refine ⟨seg, _, parts, loops, ?_⟩
        rw [decide_eq_true_eq, same, holds, Ne, ← BitVec.toNat_inj, BitVec.toNat_ofNat, Nat.mod_mod]

/-- `compare_and_loop` goes back or on. -/
theorem loopsBack_compareAndLoop {reg : Reg} {value ref ref' : Nat} (ready : Ready code s) (owned : Owned code reg)
    (emitted : (compareAndLoop reg value ref).run code = .ok (ref', code')) :
    ∃ seg taken, code'.insns = code.insns ++ seg ∧ LoopsBack seg ref' s taken ∧
      ((taken = true ↔ regNat s reg ≠ value) ↔ loopMeets s reg value) := by
  rw [compareAndLoop] at emitted
  split at emitted
  next single =>
    obtain ⟨r, rfl⟩ := List.length_eq_one_iff.1 single
    have owned_byte := owned r List.mem_cons_self
    obtain ⟨_, code₁, got, emitted⟩ := run_bind_eq_ok emitted
    cases got
    have single_case (closeBy : Bool)
        (emitted : (compareSingle (!code.hasFlag tempR1) closeBy r value ref).run code = .ok (ref', code')) :
        ∃ seg taken, code'.insns = code.insns ++ seg ∧ LoopsBack seg ref' s taken ∧
          ((taken = true ↔ regNat s [r] ≠ value) ↔ loopMeets s [r] value) := by
      obtain ⟨seg, taken, parts, loops, right⟩ := loopsBack_compareSingle ready owned_byte emitted
      have number : regNat s [r] = (s.r r).toNat := by rw [regNat_cons]; rfl
      refine ⟨seg, taken, parts, loops, ?_⟩
      rw [right, number]
      exact loopMeets_single
    dsimp only at emitted
    split at emitted
    · exact single_case false emitted
    · obtain ⟨offset, code₁, placed, emitted⟩ := run_bind_eq_ok emitted
      cases label : code.getLabel ref with
      | error e =>
          rw [label] at placed
          exact nomatch placed
      | ok offset' =>
          rw [label] at placed
          cases placed
          exact single_case _ emitted
  next several =>
    obtain ⟨seg, s₁, code₁, parts, ⟨_, compared⟩, loops⟩ := loopsBack_brne (wp_compareImm ready owned) emitted
    exact ⟨seg, !s₁.z, parts, loops, loopMeets_iff several compared⟩

theorem runsTo_compare {reg : Reg} {operand : Operand} (ready : Ready code s) (owned : Owned code reg)
    (other : operand.owned code) (emitted : (operand.emit reg).run code = .ok ((), code')) :
    ∃ seg s', code'.insns = code.insns ++ seg ∧ RunsTo seg s s' ∧
      (((s'.z = true ↔ regNat s reg = operand.number s) ∧ (s'.c = true ↔ regNat s reg < operand.number s)) ↔
        operand.meets s reg) := by
  cases operand with
  | reg other_reg =>
      obtain ⟨seg, s', parts, runs, _, compared⟩ := runsTo_of_wp (wp_compare ready owned other) emitted
      exact ⟨seg, s', parts, runs, meetsReg_iff compared⟩
  | imm value =>
      obtain ⟨seg, s', parts, runs, _, compared⟩ := runsTo_of_wp (wp_compareImm ready owned) emitted
      exact ⟨seg, s', parts, runs, meetsImm_iff compared⟩

/-- The branches behind the comparison of a register with another one or with an immediate value, and the loop of
`compare_and_loop`: which values send them the right way. -/
theorem comparisons_branch_iff {reg : Reg} (ready : Ready code s) (owned : Owned code reg) :
    (∀ (operand : Operand) (code' : Code), operand.owned code → (operand.emit reg).run code = .ok ((), code') →
      ∃ seg s', code'.insns = code.insns ++ seg ∧
        (∀ (branch : Branch) (whole : Code) (front back : List Insn) (ref offset : Nat),
          whole.insns = front ++ seg ++ ⟨branch.type, ref, 0⟩ :: back → whole.getLabel ref = .ok offset →
          ∀ fuel : Nat, execLoop whole (seg.length + 1 + fuel) (s.at front.length) =
            execLoop whole fuel (s'.at (if branch.taken s' then offset else front.length + seg.length + 1))) ∧
        ((∀ branch : Branch, branch.taken s' = true ↔ branch.due (regNat s reg) (operand.number s)) ↔
          operand.meets s reg)) ∧
    ∀ (value ref ref' : Nat) (code' : Code), (compareAndLoop reg value ref).run code = .ok (ref', code') →
      ∃ seg taken, code'.insns = code.insns ++ seg ∧ LoopsBack seg ref' s taken ∧
        ((taken = true ↔ regNat s reg ≠ value) ↔ loopMeets s reg value) := by
  constructor
  · intro operand code' other emitted
    obtain ⟨seg, s', parts, runs, right⟩ := runsTo_compare ready owned other emitted
    refine ⟨seg, s', parts, ?_, taken_iff_due_iff.trans right⟩
    intro branch whole front back ref offset parts' label fuel
    exact runs.branch branch parts' label fuel
  · intro value ref ref' code' emitted
    exact loopsBack_compareAndLoop ready owned emitted

/-- A register of two bytes with an immediate value. -/
theorem comparisons_branch_iff_immediate :
    ∃ code', ((Operand.imm 0x5554).emit [18, 19]).run twoRegisters = .ok ((), code') ∧
      ∃ seg s', code'.insns = twoRegisters.insns ++ seg ∧
        ((∀ branch : Branch, branch.taken s' = true ↔ branch.due (regNat AVRState.new [18, 19]) 0x5554) ↔
          Operand.meetsImm AVRState.new [18, 19] 0x5554) := by
  refine ⟨_, rfl, ?_⟩
  obtain ⟨seg, s', parts, _, right⟩ :=
    (comparisons_branch_iff ready_twoRegisters owned_twoRegisters).1 (.imm 0x5554) _ trivial rfl
  exact ⟨seg, s', parts, right⟩

/-- A loop until a register is `0x5554` ends while the register is `0x5555`: the high bytes are equal. -/
theorem loop_ends_before_value :
    ∃ code', (label 0 >>= compareAndLoop [18, 19] 0x5554).run twoRegisters = .ok (1, code') ∧
      code'.getLabel 1 = .ok 0 ∧
      (execLoop code' 6 AVRState.new).map (fun final => final.map (regNat · [18, 19])) = some (.ok 0x5555) :=
  ⟨_, rfl, rfl, by decide⟩

end AsconSuite.Avr
