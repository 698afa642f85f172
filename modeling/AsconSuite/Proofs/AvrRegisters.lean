/-
Module: AsconSuite.Proofs.AvrRegisters
Layer: Proofs
Purpose: The conventions between the allocation of registers and the machine, what a piece of code leaves as it was, and
  temporary registers.
Imports: AsconSuite.Proofs.AvrEmission, one Mathlib module
Trusted boundary: none
Main exports: Avr.Conventions, Avr.Ready, Avr.Exact, Avr.Within, Avr.Kept, Avr.Took, Avr.wp_allocateReg, Avr.wp_immtemp,
  Avr.wp_tempreg, Avr.wp_haveTempreg, Avr.wp_zeroreg, Avr.wp_mov
-/
import AsconSuite.Proofs.AvrEmission
import Mathlib.Data.List.Nodup

namespace AsconSuite.Avr

open ByteWord ByteMemory
open Emit (Target)
open Emit.Target

variable {code code' : Code} {s s' : AVRState}

/-! ### Sets of registers -/

theorem inRegs_of_ge {regs : BitVec 32} {r : Nat} (large : 32 ≤ r) : inRegs regs r = false :=
  BitVec.getLsbD_of_ge regs r large

theorem lt_of_inRegs {regs : BitVec 32} {r : Nat} (member : inRegs regs r = true) : r < 32 := by
  by_contra large
  rw [inRegs_of_ge (Nat.le_of_not_lt large)] at member
  exact nomatch member

theorem inRegs_regBit {reg : Nat} (bound : reg < 32) (r : Nat) : inRegs (regBit reg) r = true ↔ r = reg := by
  constructor
  · intro member
    have lt := lt_of_inRegs member
    rw [inRegs, regBit, BitVec.getLsbD_shiftLeft, BitVec.getLsbD_one] at member
    simp only [Bool.and_eq_true, Bool.not_eq_true', decide_eq_false_iff_not, decide_eq_true_eq] at member
    omega
  · rintro rfl
    rw [inRegs, regBit, BitVec.getLsbD_shiftLeft, BitVec.getLsbD_one, Nat.sub_self]
    simp [bound]

theorem inRegs_or (regs other : BitVec 32) (r : Nat) :
    inRegs (regs ||| other) r = true ↔ inRegs regs r = true ∨ inRegs other r = true := by
  rw [inRegs, BitVec.getLsbD_or, Bool.or_eq_true]
  rfl

theorem inRegs_and_not (regs other : BitVec 32) (r : Nat) :
    inRegs (regs &&& ~~~other) r = true ↔ inRegs regs r = true ∧ inRegs other r = false := by
  by_cases bound : r < 32
  · rw [inRegs, BitVec.getLsbD_and, BitVec.getLsbD_not, decide_eq_true bound, Bool.true_and, Bool.and_eq_true,
      Bool.not_eq_true']
    rfl
  · rw [inRegs_of_ge (Nat.le_of_not_lt bound), inRegs_of_ge (Nat.le_of_not_lt bound)]
    simp

/-- Sets with the same registers are equal. -/
theorem regs_ext {regs other : BitVec 32} (same : ∀ r, inRegs regs r = true ↔ inRegs other r = true) : regs = other :=
  BitVec.eq_of_getLsbD_eq fun r _ => Bool.eq_iff_iff.2 (same r)

/-! ### Conventions -/

/-- What the emitters keep of the allocation state: the registers that may be allocated are those of the flags, `r0` and
`r1` are not allocated unless a flag says so, and registers with immediate values are high and are not allocated.
`allocateExplicitReg` breaks it, when it is asked for `r0` or `r1` or for a register with an immediate value. -/
structure Conventions (code : Code) : Prop where
  order : code.regOrder = code.resetRegs.regOrder
  r0 : code.hasFlag tempR0 = false → inRegs code.allocated 0 = false
  r1 : code.hasFlag tempR1 = false → inRegs code.allocated 1 = false
  imm : ∀ r, inRegs code.immRegs r = true → 16 ≤ r ∧ inRegs code.allocated r = false

theorem noImm_new (r : Nat) : ¬inRegs Code.new.immRegs r = true := by
  have none : inRegs Code.new.immRegs r = false := BitVec.getLsbD_zero
  rw [none]
  exact Bool.false_ne_true

/-- An empty code block starts with the conventions. -/
theorem conventions_new : Conventions Code.new where
  order := rfl
  r0 := fun _ => rfl
  r1 := fun _ => rfl
  imm := fun r isImm => absurd isImm (noImm_new r)

/-- What holds of the machine when it runs code behind the code so far: `r1` is zero, the registers with immediate
values hold them, and the stack has room for the bytes of any register. -/
structure Ready (code : Code) (s : AVRState) : Prop extends Conventions code where
  zero : code.hasFlag tempR1 = false → s.r 1 = 0#8
  loaded : ∀ r, inRegs code.immRegs r = true → s.r r = BitVec.ofNat 8 (code.immValues (r - 16))
  stack : 32 ≤ s.pair 32 ∧ s.pair 32 ≤ memSize

/-- A register that code may write without a break of the conventions. -/
structure Writable (code : Code) (r : Nat) : Prop where
  bound : r < 32
  notImm : inRegs code.immRegs r = false
  notZero : code.hasFlag tempR1 = false → r ≠ 1

theorem Conventions.writable {r : Nat} (conventions : Conventions code) (allocated : inRegs code.allocated r = true) :
    Writable code r where
  bound := lt_of_inRegs allocated
  notImm := by
    by_contra isImm
    rw [Bool.not_eq_false] at isImm
    rw [(conventions.imm r isImm).2] at allocated
    exact nomatch allocated
  notZero := by
    rintro noTemp rfl
    rw [conventions.r1 noTemp] at allocated
    exact nomatch allocated

/-- The builder without its code: what decides about the instructions that come next. -/
structure SameAlloc (code code' : Code) : Prop where
  flags : code'.flags = code.flags
  allocated : code'.allocated = code.allocated
  regOrder : code'.regOrder = code.regOrder
  immRegs : code'.immRegs = code.immRegs
  immValues : code'.immValues = code.immValues

theorem SameAlloc.refl (code : Code) : SameAlloc code code := ⟨rfl, rfl, rfl, rfl, rfl⟩

theorem SameAlloc.trans {code'' : Code} (first : SameAlloc code code') (second : SameAlloc code' code'') :
    SameAlloc code code'' :=
  ⟨second.flags.trans first.flags, second.allocated.trans first.allocated, second.regOrder.trans first.regOrder,
    second.immRegs.trans first.immRegs, second.immValues.trans first.immValues⟩

theorem sameAlloc_pushed (code : Code) (insn : Insn) : SameAlloc code (code.pushed insn) := ⟨rfl, rfl, rfl, rfl, rfl⟩

theorem SameAlloc.hasFlag (same : SameAlloc code code') (flag : BitVec 32) : code'.hasFlag flag = code.hasFlag flag := by
  rw [Code.hasFlag, Code.hasFlag, same.flags]

theorem SameAlloc.writable (same : SameAlloc code code') {r : Nat} (writable : Writable code r) : Writable code' r where
  bound := writable.bound
  notImm := by
    rw [same.immRegs]
    exact writable.notImm
  notZero := by
    rw [same.hasFlag]
    exact writable.notZero

theorem resetRegs_regOrder_congr (same : code'.flags = code.flags) :
    code'.resetRegs.regOrder = code.resetRegs.regOrder := by
  obtain ⟨_, _, _, _, _, flags, _, _, _, _⟩ := code
  obtain ⟨_, _, _, _, _, flags', _, _, _, _⟩ := code'
  cases same
  rfl

/-- The code writes only the registers in a list, and neither memory nor the allocation. -/
structure Exact (written : List Nat) (code : Code) (s : AVRState) (code' : Code) (s' : AVRState) : Prop where
  alloc : SameAlloc code code'
  others : ∀ r, r ∉ written → s'.r r = s.r r
  memory : s'.memory = s.memory

theorem Exact.refl (written : List Nat) (code : Code) (s : AVRState) : Exact written code s code s :=
  ⟨SameAlloc.refl code, fun _ _ => rfl, rfl⟩

theorem Exact.trans {written : List Nat} {code'' : Code} {s'' : AVRState} (first : Exact written code s code' s')
    (second : Exact written code' s' code'' s'') : Exact written code s code'' s'' :=
  ⟨first.alloc.trans second.alloc, fun r other => (second.others r other).trans (first.others r other),
    second.memory.trans first.memory⟩

theorem Exact.mono {written more : List Nat} (exact : Exact written code s code' s')
    (sub : ∀ r ∈ written, r ∈ more) : Exact more code s code' s' :=
  ⟨exact.alloc, fun r other => exact.others r fun member => other (sub r member), exact.memory⟩

/-- A step that writes a register of the list. -/
theorem Exact.step {written : List Nat} {code'' : Code} {s'' : AVRState} {r : Nat}
    (first : Exact written code s code' s') (second : Exact [r] code' s' code'' s'') (member : r ∈ written) :
    Exact written code s code'' s'' :=
  first.trans (second.mono fun _ single => List.mem_singleton.1 single ▸ member)

/-- The code writes only the registers in a list and memory below the stack pointer, and not the allocation. -/
structure Within (written : List Nat) (code : Code) (s : AVRState) (code' : Code) (s' : AVRState) : Prop where
  alloc : SameAlloc code code'
  others : ∀ r, r ∉ written → s'.r r = s.r r
  memory : ∀ a, s.pair 32 ≤ a → s'.memory a = s.memory a

theorem Exact.within {written : List Nat} (exact : Exact written code s code' s') : Within written code s code' s' :=
  ⟨exact.alloc, exact.others, fun a _ => congrFun exact.memory a⟩

theorem Within.pair {written : List Nat} (within : Within written code s code' s') (below : ∀ r ∈ written, r < 32) :
    s'.pair 32 = s.pair 32 := by
  rw [AVRState.pair, AVRState.pair, within.others 32 fun member => absurd (below 32 member) (Nat.lt_irrefl 32),
    within.others (32 + 1) fun member => absurd (below _ member) (by decide)]

theorem Within.ready {written : List Nat} (within : Within written code s code' s')
    (writable : ∀ r ∈ written, Writable code r) (ready : Ready code s) : Ready code' s' where
  order := by
    rw [within.alloc.regOrder, ready.order, resetRegs_regOrder_congr within.alloc.flags]
  r0 := by
    rw [within.alloc.hasFlag, within.alloc.allocated]
    exact ready.r0
  r1 := by
    rw [within.alloc.hasFlag, within.alloc.allocated]
    exact ready.r1
  imm := by
    rw [within.alloc.immRegs, within.alloc.allocated]
    exact ready.imm
  zero := by
    rw [within.alloc.hasFlag]
    intro noTemp
    rw [within.others 1 fun member => (writable 1 member).notZero noTemp rfl]
    exact ready.zero noTemp
  loaded := by
    intro r isImm
    rw [within.alloc.immRegs] at isImm
    have other : r ∉ written := fun member => by
      rw [(writable r member).notImm] at isImm
      exact nomatch isImm
    rw [within.others r other, within.alloc.immValues]
    exact ready.loaded r isImm
  stack := by
    rw [within.pair fun r member => (writable r member).bound]
    exact ready.stack

theorem Exact.ready {written : List Nat} (exact : Exact written code s code' s')
    (writable : ∀ r ∈ written, Writable code r) (ready : Ready code s) : Ready code' s' :=
  exact.within.ready writable ready

/-- What a piece of code leaves that writes the registers in a list: temporary registers and the stack below its
pointer may have changed too. -/
structure Kept (written : List Nat) (code : Code) (s : AVRState) (code' : Code) (s' : AVRState) : Prop where
  flags : code'.flags = code.flags
  allocated : code'.allocated = code.allocated
  ready : Ready code' s'
  others : ∀ r, inRegs code.allocated r = true ∨ r = 32 ∨ r = 33 → r ∉ written → s'.r r = s.r r
  memory : ∀ a, s.pair 32 ≤ a → s'.memory a = s.memory a

theorem Kept.refl {written : List Nat} (ready : Ready code s) : Kept written code s code s :=
  ⟨rfl, rfl, ready, fun _ _ _ => rfl, fun _ _ => rfl⟩

theorem Kept.hasFlag {written : List Nat} (kept : Kept written code s code' s') (flag : BitVec 32) :
    code'.hasFlag flag = code.hasFlag flag := by
  rw [Code.hasFlag, Code.hasFlag, kept.flags]

/-- The registers that are written are byte registers. -/
def Bytes (written : List Nat) : Prop := ∀ r ∈ written, r < 32

theorem Kept.pair {written : List Nat} (kept : Kept written code s code' s') (bytes : Bytes written) :
    s'.pair 32 = s.pair 32 := by
  rw [AVRState.pair, AVRState.pair,
    kept.others 32 (Or.inr (Or.inl rfl)) fun member => absurd (bytes 32 member) (Nat.lt_irrefl 32),
    kept.others (32 + 1) (Or.inr (Or.inr rfl)) fun member => absurd (bytes _ member) (by decide)]

theorem Kept.trans {written : List Nat} {code'' : Code} {s'' : AVRState} (bytes : Bytes written)
    (first : Kept written code s code' s') (second : Kept written code' s' code'' s'') :
    Kept written code s code'' s'' where
  flags := second.flags.trans first.flags
  allocated := second.allocated.trans first.allocated
  ready := second.ready
  others := by
    intro r kind other
    rw [← first.others r kind other]
    rw [← first.allocated] at kind
    exact second.others r kind other
  memory := by
    intro a above
    rw [← first.memory a above]
    refine second.memory a ?_
    rw [first.pair bytes]
    exact above

theorem Kept.mono {written more : List Nat} (kept : Kept written code s code' s') (sub : ∀ r ∈ written, r ∈ more) :
    Kept more code s code' s' :=
  ⟨kept.flags, kept.allocated, kept.ready, fun r kind other => kept.others r kind fun member => other (sub r member),
    kept.memory⟩

/-- What is written beyond the list is not allocated. -/
theorem Within.kept {written all : List Nat} (within : Within all code s code' s')
    (writable : ∀ r ∈ all, Writable code r) (sub : ∀ r ∈ all, inRegs code.allocated r = true → r ∈ written)
    (ready : Ready code s) : Kept written code s code' s' where
  flags := within.alloc.flags
  allocated := within.alloc.allocated
  ready := within.ready writable ready
  others := by
    rintro r (allocated | rfl | rfl) other
    · exact within.others r fun member => other (sub r member allocated)
    · exact within.others 32 fun member => absurd (writable 32 member).bound (Nat.lt_irrefl 32)
    · exact within.others 33 fun member => absurd (writable 33 member).bound (by decide)
  memory := within.memory

theorem Exact.kept {written all : List Nat} (exact : Exact all code s code' s')
    (writable : ∀ r ∈ all, Writable code r) (sub : ∀ r ∈ all, inRegs code.allocated r = true → r ∈ written)
    (ready : Ready code s) : Kept written code s code' s' := exact.within.kept writable sub ready

/-- One instruction that writes one register. -/
theorem exact_pushed {reg : Nat} (code : Code) (insn : Insn) {b : Byte} (regs : s'.r = (s.setReg reg b).r)
    (memory : s'.memory = s.memory) : Exact [reg] code s (code.pushed insn) s' where
  alloc := sameAlloc_pushed code insn
  others := fun r other => by
    rw [regs]
    exact s.setReg_other b fun same => other (List.mem_singleton.2 same)
  memory := memory

/-- Registers that the caller owns may be written. -/
theorem Exact.owned {written : List Nat} (exact : Exact written code s code' s')
    (owned : ∀ r ∈ written, inRegs code.allocated r = true) (ready : Ready code s) : Kept written code s code' s' :=
  exact.kept (fun r member => ready.writable (owned r member)) (fun _ member _ => member) ready

/-- One instruction that writes one register that the caller owns. -/
theorem kept_pushed {reg : Nat} (insn : Insn) (b : Byte) (ready : Ready code s)
    (owned : inRegs code.allocated reg = true) (regs : s'.r = (s.setReg reg b).r) (memory : s'.memory = s.memory) :
    Kept [reg] code s (code.pushed insn) s' := by
  refine (exact_pushed code insn regs memory).owned (fun r member => ?_) ready
  rw [List.mem_singleton.1 member]
  exact owned

/-! ### Registers that are allocated -/

/-- Every register that may be allocated is a byte register, and `r0` and `r1` may when their flags are set. -/
theorem resetRegs_mem : ∀ x y z one zero : Bool, ∀ r ∈ [18, 19, 20, 21, 22, 23] ++
      (if x then [26, 27] else []) ++ (if y then [28, 29] else []) ++ (if z then [30, 31] else []) ++
      [2, 3, 4, 5, 6, 7, 8, 9, 10, 11, 12, 13, 14, 15] ++ [24, 25, 16, 17] ++
      (if one then [1] else []) ++ (if zero then [0] else []),
    r < 32 ∧ (zero = false → r ≠ 0) ∧ (one = false → r ≠ 1) := by
  decide

theorem Conventions.mem_regOrder (conventions : Conventions code) {r : Nat} (member : r ∈ code.regOrder) :
    r < 32 ∧ (code.hasFlag tempR0 = false → r ≠ 0) ∧ (code.hasFlag tempR1 = false → r ≠ 1) := by
  rw [conventions.order] at member
  exact resetRegs_mem _ _ _ _ _ r member

/-- The registers that an allocation found: they were free, and now they are taken and hold no immediate values. -/
structure Took (temps : Reg) (code code' : Code) : Prop where
  insns : code'.insns = code.insns
  flags : code'.flags = code.flags
  regOrder : code'.regOrder = code.regOrder
  immValues : code'.immValues = code.immValues
  allocated : ∀ r, inRegs code'.allocated r = true ↔ inRegs code.allocated r = true ∨ r ∈ temps
  immRegs : ∀ r, inRegs code'.immRegs r = true ↔ inRegs code.immRegs r = true ∧ r ∉ temps
  nodup : temps.Nodup
  free : ∀ r ∈ temps, ¬inRegs code.allocated r = true ∧ r ∈ code.regOrder

theorem Took.hasFlag {temps : Reg} (took : Took temps code code') (flag : BitVec 32) :
    code'.hasFlag flag = code.hasFlag flag := by
  rw [Code.hasFlag, Code.hasFlag, took.flags]

theorem Took.refl (code : Code) : Took [] code code where
  insns := rfl
  flags := rfl
  regOrder := rfl
  immValues := rfl
  allocated := fun _ => (or_iff_left List.not_mem_nil).symm
  immRegs := fun _ => (and_iff_left List.not_mem_nil).symm
  nodup := List.nodup_nil
  free := fun _ member => nomatch member

/-- More registers are taken. -/
theorem Took.append {temps : Reg} (took : Took temps code code') (more : Reg) (nodup : more.Nodup)
    (free : ∀ r ∈ more, ¬inRegs code'.allocated r = true ∧ r ∈ code'.regOrder) {bits : BitVec 32}
    (isMore : ∀ r, inRegs bits r = true ↔ r ∈ more) :
    Took (temps ++ more) code
      { code' with allocated := code'.allocated ||| bits, immRegs := code'.immRegs &&& ~~~bits } where
  insns := took.insns
  flags := took.flags
  regOrder := took.regOrder
  immValues := took.immValues
  allocated := by
    intro r
    rw [inRegs_or, took.allocated r, isMore r, List.mem_append, or_assoc]
  immRegs := by
    intro r
    rw [inRegs_and_not, took.immRegs r, ← Bool.not_eq_true, isMore r, List.mem_append, not_or, and_assoc]
  nodup := by
    refine List.nodup_append.2 ⟨took.nodup, nodup, ?_⟩
    rintro r member other member' rfl
    exact (free r member').1 ((took.allocated r).2 (Or.inr member))
  free := by
    intro r member
    rcases List.mem_append.1 member with first | last
    · exact took.free r first
    · obtain ⟨isFree, inOrder⟩ := free r last
      rw [took.regOrder] at inOrder
      exact ⟨fun taken => isFree ((took.allocated r).2 (Or.inl taken)), inOrder⟩

variable {α : Type} {R : α → Code → AVRState → Prop}

theorem wp_allocateSpare {high : Bool} {P : Option Nat → Code → AVRState → Prop}
    (bytes : ∀ r ∈ code.regOrder, r < 32)
    (none_free : (∀ r ∈ code.regOrder, inRegs code.allocated r = false → high = true ∧ r < 16) → P none code s)
    (found : ∀ reg code', Took [reg] code code' → P (some reg) code' s) :
    target.wp (allocateSpare high) P code s := by
  refine wp_bind (wp_get ?_)
  split
  next nowhere =>
    refine wp_pure (none_free fun r inOrder free => ?_)
    have taken := List.find?_eq_none.1 nowhere r inOrder
    rw [free, Bool.not_false, Bool.true_and, Bool.not_eq_true', Bool.not_eq_false, Bool.and_eq_true,
      decide_eq_true_eq] at taken
    exact taken
  next reg place =>
    have inOrder := List.mem_of_find?_eq_some place
    have free := List.find?_some place
    rw [Bool.and_eq_true, Bool.not_eq_true'] at free
    refine wp_bind (wp_set rfl (wp_pure (found reg _ ?_)))
    refine (Took.refl code).append [reg] (List.nodup_singleton reg) ?_ fun r => ?_
    · intro r member
      rw [List.mem_singleton.1 member]
      exact ⟨Bool.eq_false_iff.1 free.1, inOrder⟩
    · rw [inRegs_regBit (bytes reg inOrder), List.mem_singleton]

theorem wp_allocateSparePair {high : Bool} {P : Option Nat → Code → AVRState → Prop}
    (bytes : ∀ r ∈ code.regOrder, r < 32) (none_free : P none code s)
    (found : ∀ reg code', Took [reg, reg + 1] code code' → P (some reg) code' s) :
    target.wp (allocateSparePair high) P code s := by
  refine wp_bind (wp_get ?_)
  dsimp only
  split
  next => exact wp_pure none_free
  next reg1 reg2 place =>
    have inOrder := List.of_mem_zip (List.mem_of_find?_eq_some place)
    have free := List.find?_some place
    simp only [Bool.and_eq_true, Bool.not_eq_true', beq_iff_eq] at free
    obtain ⟨⟨⟨⟨-, rfl⟩, free1⟩, free2⟩, -⟩ := free
    have bound1 := bytes _ inOrder.1
    have bound2 := bytes _ (List.mem_of_mem_tail inOrder.2)
    refine wp_bind (wp_set rfl (wp_pure (found reg1 _ ?_)))
    refine (Took.refl code).append [reg1, reg1 + 1] ?_ ?_ fun r => ?_
    · simp
    · intro r member
      rcases List.mem_cons.1 member with rfl | last
      · exact ⟨Bool.eq_false_iff.1 free1, inOrder.1⟩
      · rw [List.mem_singleton.1 last]
        exact ⟨Bool.eq_false_iff.1 free2, List.mem_of_mem_tail inOrder.2⟩
    · rw [inRegs_or, inRegs_regBit bound1, inRegs_regBit bound2, List.mem_cons, List.mem_singleton]

theorem Took.trans {temps more : Reg} {code'' : Code} (took : Took temps code code') (rest : Took more code' code'') :
    Took (temps ++ more) code code'' where
  insns := rest.insns.trans took.insns
  flags := rest.flags.trans took.flags
  regOrder := rest.regOrder.trans took.regOrder
  immValues := rest.immValues.trans took.immValues
  allocated := by
    intro r
    rw [rest.allocated r, took.allocated r, List.mem_append, or_assoc]
  immRegs := by
    intro r
    rw [rest.immRegs r, took.immRegs r, List.mem_append, not_or, and_assoc]
  nodup := by
    refine List.nodup_append.2 ⟨took.nodup, rest.nodup, ?_⟩
    rintro r member other member' rfl
    exact (rest.free r member').1 ((took.allocated r).2 (Or.inr member))
  free := by
    intro r member
    rcases List.mem_append.1 member with first | last
    · exact took.free r first
    · obtain ⟨isFree, inOrder⟩ := rest.free r last
      rw [took.regOrder] at inOrder
      exact ⟨fun taken => isFree ((took.allocated r).2 (Or.inl taken)), inOrder⟩

/-- The registers that are found so far, and those of the rest of the loop. -/
theorem wp_allocateRegLoop {high optional : Bool} {P : Reg → Code → AVRState → Prop} (turns size : Nat) (result : Reg)
    (bytes : ∀ r ∈ code.regOrder, r < 32)
    (found : ∀ temps code', temps.length ≤ size → (optional = false → size ≤ turns → temps.length = size) →
      Took temps code code' → P (result ++ temps) code' s) :
    target.wp (allocateRegLoop high optional turns size result) P code s := by
  induction turns generalizing size result code with
  | zero =>
      refine wp_pure ?_
      have nothing := found [] code (Nat.zero_le size) (fun _ none => (Nat.le_zero.1 none).symm) (Took.refl code)
      rwa [List.append_nil] at nothing
  | succ turns ih =>
      have later {size' : Nat} {more : Reg} {code' : Code} (took : Took more code code')
          (smaller : size' + more.length = size) (some_reg : 0 < more.length) :
          target.wp (allocateRegLoop high optional turns size' (result ++ more)) P code' s := by
        refine ih size' (result ++ more) (fun r member => bytes r (took.regOrder ▸ member)) ?_
        intro temps code'' le all took'
        rw [List.append_assoc]
        refine found (more ++ temps) code'' ?_ ?_ (took.trans took')
        · rw [List.length_append]
          omega
        · intro required enough
          rw [List.length_append, all required (by omega)]
          omega
      have single (some_size : ¬size = 0) {rest : Option Nat → Build Reg}
          (last : rest none = if optional then return result else throw "too many registers in use")
          (another : ∀ reg, rest (some reg) = allocateRegLoop high optional turns (size - 1) (result ++ [reg])) :
          target.wp (allocateSpare high >>= rest) P code s := by
        refine wp_bind (wp_allocateSpare bytes (fun _ => wp_congr last ?_) fun reg code' took => wp_congr (another reg) ?_)
        · refine wp_ite (fun isOptional => wp_pure ?_) fun _ => wp_throw
          have nothing := found [] code (Nat.zero_le size) (fun required => by
            rw [isOptional] at required
            exact nomatch required) (Took.refl code)
          rwa [List.append_nil] at nothing
        · exact later took (by rw [List.length_singleton]; omega) Nat.zero_lt_one
      rw [allocateRegLoop]
      refine wp_ite (fun empty => wp_pure ?_) fun some_size => ?_
      · have nothing := found [] code (Nat.zero_le size) (fun _ _ => empty.symm) (Took.refl code)
        rwa [List.append_nil] at nothing
      · refine wp_ite (fun pair => ?_) fun _ => wp_bind (wp_pure (single some_size rfl fun _ => rfl))
        refine wp_bind (wp_allocateSparePair bytes (single some_size rfl fun _ => rfl) fun reg code' took => ?_)
        refine later took ?_ Nat.zero_lt_two
        have two : [reg, reg + 1].length = 2 := rfl
        omega

theorem wp_allocateReg {size : Nat} {P : Reg → Code → AVRState → Prop} (conventions : Conventions code)
    (found : ∀ temps code', temps.length = size → Took temps code code' → P temps code' s) :
    target.wp (allocateReg size) P code s := by
  refine wp_allocateRegLoop size size [] (fun r member => (conventions.mem_regOrder member).1) ?_
  intro temps code' _ all took
  exact found temps code' (all rfl (Nat.le_refl size)) took

theorem wp_allocateOptionalReg {size : Nat} {P : Reg → Code → AVRState → Prop} (conventions : Conventions code)
    (found : ∀ temps code', temps.length ≤ size → Took temps code code' → P temps code' s) :
    target.wp (allocateOptionalReg size) P code s := by
  refine wp_allocateRegLoop size size [] (fun r member => (conventions.mem_regOrder member).1) ?_
  intro temps code' le _ took
  exact found temps code' le took

/-- Taking registers keeps the conventions. -/
theorem Took.ready {temps : Reg} (took : Took temps code code') (ready : Ready code s) : Ready code' s where
  order := by
    rw [took.regOrder, ready.order, resetRegs_regOrder_congr took.flags]
  r0 := by
    intro noTemp
    rw [Code.hasFlag, took.flags] at noTemp
    refine Bool.eq_false_iff.2 fun taken => ?_
    rcases (took.allocated 0).1 taken with before | member
    · rw [ready.r0 noTemp] at before
      exact nomatch before
    · exact (ready.mem_regOrder (took.free 0 member).2).2.1 noTemp rfl
  r1 := by
    intro noTemp
    rw [Code.hasFlag, took.flags] at noTemp
    refine Bool.eq_false_iff.2 fun taken => ?_
    rcases (took.allocated 1).1 taken with before | member
    · rw [ready.r1 noTemp] at before
      exact nomatch before
    · exact (ready.mem_regOrder (took.free 1 member).2).2.2 noTemp rfl
  imm := by
    intro r isImm
    obtain ⟨before, other⟩ := (took.immRegs r).1 isImm
    obtain ⟨high, free⟩ := ready.imm r before
    refine ⟨high, Bool.eq_false_iff.2 fun taken => ?_⟩
    rcases (took.allocated r).1 taken with allocated | member
    · rw [free] at allocated
      exact nomatch allocated
    · exact other member
  zero := by
    rw [Code.hasFlag, took.flags]
    exact ready.zero
  loaded := by
    intro r isImm
    rw [took.immValues]
    exact ready.loaded r ((took.immRegs r).1 isImm).1
  stack := ready.stack

/-- Registers that were taken may be written. -/
theorem Took.writable {temps : Reg} (took : Took temps code code') (ready : Ready code s) {r : Nat}
    (member : r ∈ temps) : Writable code' r :=
  (took.ready ready).writable ((took.allocated r).2 (Or.inr member))

/-- The registers that are left when some are released. -/
theorem inRegs_release (reg : Reg) (regs : BitVec 32) (bytes : ∀ r ∈ reg, r < 32) (r : Nat) :
    inRegs (reg.foldl (fun regs r => regs &&& ~~~regBit r) regs) r = true ↔ inRegs regs r = true ∧ r ∉ reg := by
  induction reg generalizing regs with
  | nil => exact (and_iff_left List.not_mem_nil).symm
  | cons first rest ih =>
      rw [List.foldl_cons, ih _ fun r member => bytes r (List.mem_cons_of_mem first member), inRegs_and_not,
        ← Bool.not_eq_true, inRegs_regBit (bytes first List.mem_cons_self), List.mem_cons, not_or, and_assoc]

/-- A piece of code that takes registers, writes them beside those in a list, and releases them in the end. -/
theorem wp_releaseReg {temps : Reg} (written : Reg) {code₀ : Code} {s₀ : AVRState} (took : Took temps code₀ code)
    {code₁ : Code} {s₁ : AVRState} (ready : Ready code₀ s₀) (kept : Kept (written ++ temps) code s₀ code₁ s₁)
    (holds : ∀ code', Kept written code₀ s₀ code' s₁ → code'.immRegs = code₁.immRegs → Q () code' s₁) :
    target.wp (releaseReg temps) Q code₁ s₁ := by
  refine wp_modify rfl (holds _ ?_ rfl)
  have bytes : ∀ r ∈ temps, r < 32 := fun r member => (ready.mem_regOrder (took.free r member).2).1
  have back : temps.foldl (fun regs r => regs &&& ~~~regBit r) code₁.allocated = code₀.allocated := by
    refine regs_ext fun r => ?_
    rw [inRegs_release temps _ bytes, kept.allocated, took.allocated]
    constructor
    · rintro ⟨before | member, other⟩
      · exact before
      · exact absurd member other
    · exact fun before => ⟨Or.inl before, fun member => (took.free r member).1 before⟩
  have less {r : Nat} (free : inRegs code₁.allocated r = false) : inRegs code₀.allocated r = false := by
    refine Bool.eq_false_iff.2 fun before => ?_
    rw [kept.allocated, (took.allocated r).2 (Or.inl before)] at free
    exact nomatch free
  exact {
    flags := kept.flags.trans took.flags
    allocated := back
    ready := {
      order := kept.ready.order
      r0 := fun noTemp => by
        rw [back]
        exact less (kept.ready.r0 noTemp)
      r1 := fun noTemp => by
        rw [back]
        exact less (kept.ready.r1 noTemp)
      imm := fun r isImm => by
        rw [back]
        exact ⟨(kept.ready.imm r isImm).1, less (kept.ready.imm r isImm).2⟩
      zero := kept.ready.zero
      loaded := kept.ready.loaded
      stack := kept.ready.stack }
    others := by
      rintro r kind other
      refine kept.others r (kind.imp_left fun before => (took.allocated r).2 (Or.inl before)) fun member => ?_
      rcases List.mem_append.1 member with first | last
      · exact other first
      · rcases kind with before | rfl | rfl
        · exact (took.free r last).1 before
        · exact absurd (bytes 32 last) (Nat.lt_irrefl 32)
        · exact absurd (bytes 33 last) (by decide)
    memory := kept.memory }

/-! ### Temporary registers -/

/-- A register that code may use between two calls: it may be written and nobody has allocated it. -/
structure Spare (code : Code) (r : Nat) : Prop extends Writable code r where
  free : ¬inRegs code.allocated r = true

theorem spare_tempRegNumber (conventions : Conventions code)
    (free : (!code.hasFlag tempR0 || !inRegs code.allocated tempRegNumber) = true) : Spare code tempRegNumber where
  bound := by decide
  notImm := Bool.eq_false_iff.2 fun isImm => absurd (conventions.imm _ isImm).1 (by decide)
  notZero := fun _ => by decide
  free := by
    rw [Bool.or_eq_true, Bool.not_eq_true', Bool.not_eq_true'] at free
    rcases free with noTemp | unused
    · exact Bool.eq_false_iff.1 (conventions.r0 noTemp)
    · exact Bool.eq_false_iff.1 unused

/-- A register that was free for a moment is a spare one when it is released. -/
theorem Took.spare {reg : Nat} {code'' : Code} (took : Took [reg] code code') (ready : Ready code s)
    (released : Kept [] code s code'' s) (imm : code''.immRegs = code'.immRegs) : Spare code'' reg where
  bound := (took.writable ready List.mem_cons_self).bound
  notImm := by
    rw [imm]
    exact (took.writable ready List.mem_cons_self).notImm
  notZero := by
    intro noTemp
    rw [released.hasFlag, ← took.hasFlag] at noTemp
    exact (took.writable ready List.mem_cons_self).notZero noTemp
  free := by
    rw [released.allocated]
    exact (took.free reg List.mem_cons_self).1

theorem wp_tempreg {P : Nat → Code → AVRState → Prop} (ready : Ready code s)
    (holds : ∀ r code', Spare code' r → Kept [] code s code' s → P r code' s) :
    target.wp tempreg P code s := by
  refine wp_bind (wp_get (wp_ite (fun free => ?_) fun _ => ?_))
  · exact wp_pure (holds tempRegNumber code (spare_tempRegNumber ready.toConventions free) (Kept.refl ready))
  · refine wp_bind (wp_allocateReg ready.toConventions fun temps code' one took => ?_)
    obtain ⟨reg, rfl⟩ := List.length_eq_one_iff.1 one
    refine wp_bind (wp_releaseReg [] took ready (Kept.refl (took.ready ready)) fun code'' kept imm => ?_)
    exact wp_pure (holds reg code'' (took.spare ready kept imm) kept)

/-- `Code::have_tempreg` finds a register. -/
def hasSpare (code : Code) : Bool :=
  !code.hasFlag tempR0 || !inRegs code.allocated tempRegNumber ||
    code.regOrder.any fun reg => !inRegs code.allocated reg

theorem wp_haveTempreg {P : Bool → Code → AVRState → Prop} (ready : Ready code s)
    (holds : ∀ code', Kept [] code s code' s → P (hasSpare code) code' s) :
    target.wp haveTempreg P code s := by
  have bytes : ∀ r ∈ code.regOrder, r < 32 := fun r member => (ready.mem_regOrder member).1
  refine wp_bind (wp_get (wp_ite (fun free => ?_) fun used => ?_))
  · rw [hasSpare, free, Bool.true_or] at holds
    exact wp_pure (holds code (Kept.refl ready))
  · rw [hasSpare, Bool.eq_false_iff.2 used, Bool.false_or] at holds
    have found : target.wp (allocateOptionalReg 1) (fun temps code' s' => s' = s ∧ Took temps code code' ∧
        (temps.size != 0) = code.regOrder.any fun reg => !inRegs code.allocated reg) code s := by
      refine wp_bind (wp_pure (wp_bind (wp_allocateSpare bytes (fun nowhere => ?_) fun reg code' took => ?_)))
      · refine wp_pure ⟨rfl, Took.refl code, (List.any_eq_false.2 fun r inOrder free => ?_).symm⟩
        rw [Bool.not_eq_true'] at free
        exact nomatch (nowhere r inOrder free).1
      · refine wp_pure ⟨rfl, took, (List.any_eq_true.2 ⟨reg, ?_, ?_⟩).symm⟩
        · exact (took.free reg List.mem_cons_self).2
        · rw [Bool.not_eq_true']
          exact Bool.eq_false_iff.2 (took.free reg List.mem_cons_self).1
    refine wp_bind (wp_mono found ?_)
    rintro temps code' _ ⟨rfl, took, found⟩
    refine wp_bind (wp_releaseReg [] took ready (Kept.refl (took.ready ready)) fun code'' kept _ => wp_pure ?_)
    rw [found]
    exact holds code'' kept

/-! ### Immediate values and zero -/

/-- The flags of the machine are as they were. -/
structure SameStatus (s s' : AVRState) : Prop where
  c : s'.c = s.c
  z : s'.z = s.z
  t : s'.t = s.t

/-- A register that nobody has allocated is loaded with an immediate value, and is known to hold it from then on. -/
theorem wp_setImmtemp {reg value : Nat} {P : Nat → Code → AVRState → Prop} (ready : Ready code s)
    (free : ¬inRegs code.allocated reg = true)
    (holds : ∀ code' s', 16 ≤ reg → Kept [] code s code' s' → SameStatus s s' → s'.r reg = BitVec.ofNat 8 value →
      P reg code' s') :
    target.wp (setImmtemp reg value) P code s := by
  refine wp_bind (wp_modify rfl (wp_bind (wp_immreg fun high bound =>
    ⟨s.setReg reg (BitVec.ofNat 8 (value % 256)), rfl, wp_pure ?_⟩)))
  have isImm (r : Nat) : inRegs (code.immRegs ||| regBit reg) r = true ↔ inRegs code.immRegs r = true ∨ r = reg := by
    rw [inRegs_or, inRegs_regBit bound]
  have pair : (s.setReg reg (BitVec.ofNat 8 (value % 256))).pair 32 = s.pair 32 := by
    rw [AVRState.pair, AVRState.pair, s.setReg_other _ (by omega : 32 ≠ reg), s.setReg_other _ (by omega : 32 + 1 ≠ reg)]
  refine holds _ _ high ?_ ⟨rfl, rfl, rfl⟩ ?_
  · exact {
      flags := rfl
      allocated := rfl
      ready := {
        order := ready.order
        r0 := ready.r0
        r1 := ready.r1
        imm := fun r member => by
          rcases (isImm r).1 member with before | rfl
          · exact ready.imm r before
          · exact ⟨high, Bool.eq_false_iff.2 free⟩
        zero := fun noTemp => by
          rw [s.setReg_other _ (by omega : 1 ≠ reg)]
          exact ready.zero noTemp
        loaded := fun r member => by
          by_cases same : r = reg
          · subst same
            rw [AVRState.setReg_self, ofNat_mod_byte]
            exact congrArg _ (if_pos rfl).symm
          · have before := ((isImm r).1 member).resolve_right same
            have high' := (ready.imm r before).1
            rw [s.setReg_other _ same, ready.loaded r before]
            exact congrArg _ (if_neg (by omega)).symm
        stack := by
          rw [pair]
          exact ready.stack }
      others := fun r kind _ => by
        refine s.setReg_other _ ?_
        rintro rfl
        rcases kind with allocated | rfl | rfl
        · exact free allocated
        · exact absurd bound (Nat.lt_irrefl 32)
        · exact absurd bound (by decide)
      memory := fun _ _ => rfl }
  · rw [AVRState.setReg_self, ofNat_mod_byte]

theorem wp_immtemp {value : Nat} {P : Nat → Code → AVRState → Prop} (ready : Ready code s)
    (holds : ∀ reg code' s', 16 ≤ reg → ¬inRegs code.allocated reg = true → Kept [] code s code' s' →
      SameStatus s s' → s'.r reg = BitVec.ofNat 8 value → P reg code' s') :
    target.wp (immtemp value) P code s := by
  refine wp_bind (wp_get ?_)
  generalize place : highRegs.find? (fun index =>
    inRegs code.immRegs index && code.immValues (index - 16) == value) = holder
  generalize again : (if 4 ≤ code.immCount then highRegs.find? (inRegs code.immRegs) else none) = reused
  cases holder with
  | some index =>
      have holds_value := List.find?_some place
      rw [Bool.and_eq_true, beq_iff_eq] at holds_value
      obtain ⟨high, free⟩ := ready.imm index holds_value.1
      refine wp_pure (holds index code s high (Bool.eq_false_iff.1 free) (Kept.refl ready) ⟨rfl, rfl, rfl⟩ ?_)
      rw [ready.loaded index holds_value.1, holds_value.2]
  | none =>
      cases reused with
      | some index =>
          have isImm : inRegs code.immRegs index = true := by
            split at again
            · exact List.find?_some again
            · exact nomatch again
          have free := Bool.eq_false_iff.1 (ready.imm index isImm).2
          exact wp_setImmtemp ready free fun code' s' high kept status loaded =>
            holds index code' s' high free kept status loaded
      | none =>
          dsimp only
          split
          next index fresh =>
            have free := List.find?_some fresh
            rw [Bool.and_eq_true, Bool.and_eq_true, Bool.not_eq_true', Bool.not_eq_true'] at free
            have free := Bool.eq_false_iff.1 free.1.2
            exact wp_setImmtemp ready free fun code' s' high kept status loaded =>
              holds index code' s' high free kept status loaded
          next =>
            have bytes : ∀ r ∈ code.regOrder, r < 32 := fun r member => (ready.mem_regOrder member).1
            refine wp_bind (wp_allocateSpare bytes (fun _ => wp_throw) fun reg code₁ took => wp_bind ?_)
            refine wp_releaseReg [] took ready (Kept.refl (took.ready ready)) fun code₂ kept _ => ?_
            have free := (took.free reg List.mem_cons_self).1
            have free' := free
            rw [← kept.allocated] at free'
            refine wp_setImmtemp kept.ready free' fun code' s' high kept' status loaded => ?_
            exact holds reg code' s' high free (kept.trans (fun _ member => nomatch member) kept') status loaded

/-- A register is set to zero. -/
theorem wp_zeroreg {reg : Nat} (ready : Ready code s)
    (holds : ∀ code' s', Exact [reg] code s code' s' → s'.r reg = 0#8 → s'.c = s.c → s'.t = s.t → Q () code' s') :
    target.wp (zeroreg reg) Q code s := by
  refine wp_bind (wp_get (wp_ite (fun noTemp => ?_) fun _ => wp_ite (fun _ => ?_) fun _ => ?_))
  · rw [Bool.not_eq_true'] at noTemp
    refine wp_tworeg fun _ _ _ => ⟨s.setReg reg (s.r 1), rfl, ?_⟩
    refine holds _ _ (exact_pushed code _ rfl rfl) ?_ rfl rfl
    rw [AVRState.setReg_self]
    exact ready.zero noTemp
  · refine wp_immreg fun _ _ => ⟨_, rfl, ?_⟩
    refine holds _ _ (exact_pushed code _ rfl rfl) ?_ rfl rfl
    exact s.setReg_self reg _
  · refine wp_tworeg fun _ _ _ => ⟨_, rfl, ?_⟩
    refine holds _ _ (exact_pushed code _ rfl rfl) ?_ rfl rfl
    exact (s.setReg_self reg _).trans BitVec.xor_self

/-! ### Moves and logical instructions -/

theorem wp_mov {r1 r2 : Nat}
    (holds : ∀ code' s', Exact [r1] code s code' s' → s'.r r1 = s.r r2 → SameStatus s s' → Q () code' s') :
    target.wp (tworeg .mov r1 r2) Q code s :=
  wp_tworeg fun _ _ _ => ⟨s.setReg r1 (s.r r2), rfl,
    holds _ _ (exact_pushed code _ rfl rfl) (s.setReg_self r1 _) ⟨rfl, rfl, rfl⟩⟩

theorem wp_eor {r1 r2 : Nat}
    (holds : ∀ code' s', Exact [r1] code s code' s' → s'.r r1 = s.r r1 ^^^ s.r r2 → s'.c = s.c → Q () code' s') :
    target.wp (tworeg .eor r1 r2) Q code s :=
  wp_tworeg fun _ _ _ => ⟨s.setRegZ r1 (s.r r1 ^^^ s.r r2), rfl,
    holds _ _ (exact_pushed code _ rfl rfl) (s.setReg_self r1 _) rfl⟩

theorem wp_or {r1 r2 : Nat}
    (holds : ∀ code' s', Exact [r1] code s code' s' → s'.r r1 = s.r r1 ||| s.r r2 → Q () code' s') :
    target.wp (tworeg .or r1 r2) Q code s :=
  wp_tworeg fun _ _ _ => ⟨s.setRegZ r1 (s.r r1 ||| s.r r2), rfl,
    holds _ _ (exact_pushed code _ rfl rfl) (s.setReg_self r1 _)⟩

end AsconSuite.Avr
