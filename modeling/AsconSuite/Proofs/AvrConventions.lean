/-
Module: AsconSuite.Proofs.AvrConventions
Layer: Proofs
Purpose: The conventions of the allocation state hold behind every run of calls that ask neither for a register that
  holds an immediate value nor for `r0` or `r1` without its flag.
Imports: AsconSuite.Proofs.AvrImmediates
Trusted boundary: none (fully proved)
Main exports: Avr.Allots, Avr.Call.allots, Avr.AsksWithin, Avr.Runs.conventions, Avr.conventions_of_runs
-/
import AsconSuite.Proofs.AvrImmediates

namespace AsconSuite.Avr

open Emit.Target

variable {code code' : Code}

/-! ### Registers that are allotted -/

/-- What a call does to the allocation state: it takes registers from the pool, and those that it was asked for. -/
structure Allots (asked : List Nat) (code code' : Code) : Prop where
  flags : code'.flags = code.flags
  regOrder : code'.regOrder = code.regOrder
  allocated : ∀ r, inRegs code'.allocated r = true →
    inRegs code.allocated r = true ∨ r ∈ code.regOrder ∨ r ∈ asked

namespace Allots

variable {asked : List Nat}

theorem refl (code : Code) : Allots asked code code := ⟨rfl, rfl, fun _ => Or.inl⟩

theorem trans {code'' : Code} (first : Allots asked code code') (second : Allots asked code' code'') :
    Allots asked code code'' where
  flags := second.flags.trans first.flags
  regOrder := second.regOrder.trans first.regOrder
  allocated r taken := by
    rcases second.allocated r taken with before | found
    · exact first.allocated r before
    · exact Or.inr (first.regOrder ▸ found)

theorem mono {more : List Nat} (allots : Allots asked code code') (sub : ∀ r ∈ asked, r ∈ more) :
    Allots more code code' where
  flags := allots.flags
  regOrder := allots.regOrder
  allocated r taken := (allots.allocated r taken).imp_right (Or.imp_right (sub r))

/-- No register is taken. -/
theorem of_less (flags : code'.flags = code.flags) (regOrder : code'.regOrder = code.regOrder)
    (less : ∀ r, inRegs code'.allocated r = true → inRegs code.allocated r = true) : Allots asked code code' :=
  ⟨flags, regOrder, fun r taken => Or.inl (less r taken)⟩

/-- A register that is neither in the pool nor asked for stays free. -/
theorem free {r : Nat} (allots : Allots asked code code') (before : inRegs code.allocated r = false)
    (notPool : r ∉ code.regOrder) (notAsked : r ∉ asked) : inRegs code'.allocated r = false := by
  refine Bool.eq_false_iff.2 fun taken => ?_
  rcases allots.allocated r taken with already | inPool | isAsked
  · exact absurd already (Bool.eq_false_iff.1 before)
  · exact notPool inPool
  · exact notAsked isAsked

end Allots

theorem allots_allocateSpare (asked : List Nat) (high : Bool) :
    builder.wp (allocateSpare high) (fun _ code' _ => Allots asked code code') code () := by
  refine wp_bind (wp_get ?_)
  split
  next => exact wp_pure (Allots.refl code)
  next reg place =>
    refine wp_bind (wp_set rfl (wp_pure ⟨rfl, rfl, fun r taken => ?_⟩))
    rcases (inRegs_or _ _ r).1 taken with before | new
    · exact Or.inl before
    · rw [inRegs_regBit_of new]
      exact Or.inr (Or.inl (List.mem_of_find?_eq_some place))

theorem allots_allocateSparePair (asked : List Nat) (high : Bool) :
    builder.wp (allocateSparePair high) (fun _ code' _ => Allots asked code code') code () := by
  refine wp_bind (wp_get ?_)
  dsimp only
  split
  next => exact wp_pure (Allots.refl code)
  next reg1 reg2 place =>
    obtain ⟨first, second⟩ := List.of_mem_zip (List.mem_of_find?_eq_some place)
    refine wp_bind (wp_set rfl (wp_pure ⟨rfl, rfl, fun r taken => ?_⟩))
    rcases (inRegs_or _ _ r).1 taken with before | new
    · exact Or.inl before
    · refine Or.inr (Or.inl ?_)
      rcases (inRegs_or _ _ r).1 new with isFirst | isSecond
      · rwa [inRegs_regBit_of isFirst]
      · rw [inRegs_regBit_of isSecond]
        exact List.mem_of_mem_tail second

theorem allots_allocateRegLoop (asked : List Nat) (high optional : Bool) (turns size : Nat) (result : Reg) :
    builder.wp (allocateRegLoop high optional turns size result) (fun _ code' _ => Allots asked code code') code () :=
  related_allocateRegLoop Allots.refl (fun _ _ _ => Allots.trans) (fun _ => allots_allocateSpare _ high)
    (fun _ => allots_allocateSparePair _ high) optional turns size result

theorem allots_releaseReg (asked : List Nat) (reg : Reg) :
    builder.wp (releaseReg reg) (fun _ code' _ => Allots asked code code') code () :=
  wp_modify rfl (Allots.of_less rfl rfl (inRegs_release_of reg code.allocated))

theorem allots_allocateExplicitReg (firstReg size : Nat) :
    builder.wp (allocateExplicitReg firstReg size) (fun _ code' _ => Allots (fromReg firstReg size) code code')
      code () := by
  induction size generalizing firstReg code with
  | zero => exact wp_pure (Allots.refl code)
  | succ size ih =>
      refine wp_bind (wp_get (wp_ite (fun _ => wp_throw) fun _ => wp_bind (wp_set rfl (wp_bind ?_))))
      refine wp_mono (ih (firstReg + 1)) fun rest code' _ others => wp_pure ?_
      rw [fromReg_succ]
      have first : Allots (firstReg :: fromReg (firstReg + 1) size) code
          { code with allocated := code.allocated ||| regBit firstReg } := by
        refine ⟨rfl, rfl, fun r taken => ?_⟩
        rcases (inRegs_or _ _ r).1 taken with before | new
        · exact Or.inl before
        · rw [inRegs_regBit_of new]
          exact Or.inr (Or.inr List.mem_cons_self)
      exact first.trans (others.mono fun r => List.mem_cons_of_mem firstReg)

theorem allots_branch (asked : List Nat) (type : InsnType) (ref : Nat) :
    builder.wp (branch type ref) (fun _ code' _ => Allots asked code code') code () := by
  have same {code' : Code} (flags : code'.flags = code.flags) (regOrder : code'.regOrder = code.regOrder)
      (allocated : code'.allocated = code.allocated) : Allots asked code code' :=
    Allots.of_less flags regOrder fun r => by rw [allocated]; exact id
  refine wp_bind (wp_modify rfl (wp_bind (wp_get ?_)))
  dsimp only
  refine wp_ite (fun _ => ?_) fun _ => wp_ite (fun _ => ?_) fun _ => ?_
  · exact wp_bind (wp_set rfl (wp_bind (wp_modify rfl (wp_pure (same rfl rfl rfl)))))
  · refine wp_ite (fun _ => wp_throw) fun _ => wp_ite (fun _ => wp_throw) fun _ => ?_
    exact wp_bind (wp_set rfl (wp_bind (wp_modify rfl (wp_pure (same rfl rfl rfl)))))
  · exact wp_ite (fun _ => wp_throw) fun _ => wp_bind (wp_modify rfl (wp_pure (same rfl rfl rfl)))

theorem allots_compareSkip (asked : List Nat) (reg1 reg2 ref : Nat) :
    builder.wp (compareSkip reg1 reg2 ref) (fun _ code' _ => Allots asked code code') code () := by
  refine wp_bind (wp_bind (wp_lift fun insn _ => wp_modify rfl ?_))
  have pushed : Allots asked code (code.pushed insn) := Allots.of_less rfl rfl fun _ => id
  exact wp_mono (allots_branch _ .jmp ref) fun _ _ _ branched => pushed.trans branched

theorem allots_setImmtemp (asked : List Nat) (reg value : Nat) :
    builder.wp (setImmtemp reg value) (fun _ code' _ => Allots asked code code') code () :=
  wp_bind (wp_modify rfl (wp_bind (wp_bind (wp_lift fun _ _ => wp_modify rfl (wp_pure
    (Allots.of_less rfl rfl fun _ => id))))))

theorem allots_immtemp (asked : List Nat) (value : Nat) :
    builder.wp (immtemp value) (fun _ code' _ => Allots asked code code') code () := by
  refine wp_bind (wp_get ?_)
  dsimp only
  split
  · exact wp_pure (Allots.refl code)
  split
  · exact allots_setImmtemp _ _ value
  split
  · exact allots_setImmtemp _ _ value
  refine wp_bind (wp_mono (allots_allocateSpare asked true) fun found code₁ _ first => ?_)
  cases found with
  | none => exact wp_throw
  | some reg =>
      have released : Allots asked code₁ { code₁ with allocated := code₁.allocated &&& ~~~regBit reg } :=
        Allots.of_less rfl rfl fun r taken => ((inRegs_and_not _ _ r).1 taken).1
      exact wp_bind (wp_modify rfl (wp_mono (allots_setImmtemp _ reg value) fun _ _ _ second =>
        (first.trans released).trans second))

/-- A register is taken and released again. -/
theorem allots_spareReg {α : Type} (asked : List Nat) (optional : Bool) (result : Reg → α) :
    builder.wp (do
      let reg ← allocateRegInternal 1 false optional
      releaseReg reg
      return result reg) (fun _ code' _ => Allots asked code code') code () := by
  refine wp_bind (wp_mono (allots_allocateRegLoop asked false optional 1 1 []) fun reg _ _ first => ?_)
  exact wp_bind (wp_mono (allots_releaseReg _ reg) fun _ _ _ second => wp_pure (first.trans second))

theorem allots_tempreg (asked : List Nat) : builder.wp tempreg (fun _ code' _ => Allots asked code code') code () :=
  wp_bind (wp_get (wp_ite (fun _ => wp_pure (Allots.refl code)) fun _ => allots_spareReg _ false fun reg => reg.reg 0))

theorem allots_haveTempreg (asked : List Nat) : builder.wp haveTempreg (fun _ code' _ => Allots asked code code') code () :=
  wp_bind (wp_get (wp_ite (fun _ => wp_pure (Allots.refl code)) fun _ => allots_spareReg _ true fun reg => reg.size != 0))

/-! ### Calls and runs -/

/-- Every call takes registers from the pool, and those of the caller's choice. -/
theorem Call.allots (call : Call) (temps : List Nat) :
    builder.wp (call.build temps) (fun _ code' _ => Allots (call.explicit code) code code') code () := by
  cases call with
  | allocateReg size high optional =>
      exact wp_bind (wp_mono (allots_allocateRegLoop _ high optional size size []) fun _ _ _ allots => wp_pure allots)
  | releaseReg reg => exact wp_bind (wp_mono (allots_releaseReg _ reg) fun _ _ _ allots => wp_pure allots)
  | explicitReg firstReg size =>
      exact wp_bind (wp_mono (allots_allocateExplicitReg firstReg size) fun _ _ _ allots => wp_pure allots)
  | arg type size =>
      exact wp_bind (wp_bind (wp_get (wp_mono (allots_allocateExplicitReg _ size) fun _ _ _ allots => wp_pure allots)))
  | returnValue size =>
      exact wp_bind (wp_mono (allots_allocateExplicitReg _ size) fun _ _ _ allots => wp_pure allots)
  | branch type ref => exact wp_bind (wp_mono (allots_branch _ type ref) fun _ _ _ allots => wp_pure allots)
  | compareSkip reg1 reg2 ref =>
      exact wp_bind (wp_mono (allots_compareSkip _ reg1 reg2 ref) fun _ _ _ allots => wp_pure allots)
  | ret => exact wp_bind (wp_bind (wp_modify rfl (wp_modify rfl (wp_pure (Allots.of_less rfl rfl fun _ => id)))))
  | emit insn => exact wp_bind (wp_modify rfl (wp_pure (Allots.of_less rfl rfl fun _ => id)))
  | immtemp value => exact wp_bind (wp_mono (allots_immtemp _ value) fun _ _ _ allots => wp_pure allots)
  | tempreg => exact wp_bind (wp_mono (allots_tempreg _) fun _ _ _ allots => wp_pure allots)
  | haveTempreg => exact wp_bind (wp_mono (allots_haveTempreg _) fun _ _ _ allots => wp_pure allots)

/-- A call asks for no register that holds an immediate value, and for `r0` and `r1` only with their flags. -/
structure AsksWithin (code : Code) (call : Call) : Prop where
  leaves : LeavesImmediates code call
  r0 : 0 ∈ call.explicit code → code.hasFlag tempR0 = true
  r1 : 1 ∈ call.explicit code → code.hasFlag tempR1 = true

/-- The conventions, behind a call that allots registers and leaves the immediate values free. -/
theorem Conventions.next {asked temps : List Nat} (conventions : Conventions code) (allots : Allots asked code code')
    (r0 : 0 ∈ asked → code.hasFlag tempR0 = true) (r1 : 1 ∈ asked → code.hasFlag tempR1 = true)
    (cached : Cached code' temps) : Conventions code' := by
  have hasFlag (flag : BitVec 32) : code'.hasFlag flag = code.hasFlag flag := by
    rw [Code.hasFlag, Code.hasFlag, allots.flags]
  constructor
  · rw [allots.regOrder, conventions.order]
    simp only [Code.resetRegs, hasFlag]
  · intro noFlag
    rw [hasFlag] at noFlag
    exact allots.free (conventions.r0 noFlag) (fun inPool => (conventions.mem_regOrder inPool).2.1 noFlag rfl)
      fun isAsked => Bool.eq_false_iff.1 noFlag (r0 isAsked)
  · intro noFlag
    rw [hasFlag] at noFlag
    exact allots.free (conventions.r1 noFlag) (fun inPool => (conventions.mem_regOrder inPool).2.2 noFlag rfl)
      fun isAsked => Bool.eq_false_iff.1 noFlag (r1 isAsked)
  · intro r isImm
    obtain ⟨high, free, -, -⟩ := cached.free r isImm
    exact ⟨high, free⟩

/-- A run keeps the conventions, and the immediate values with them. -/
theorem Runs.conventions {s s' : Session} {calls : List Call} (runs : Runs AsksWithin s calls s')
    (cached : Cached s.code s.temps) (conventions : Conventions s.code) :
    Cached s'.code s'.temps ∧ Conventions s'.code := by
  induction runs with
  | nil s => exact ⟨cached, conventions⟩
  | cons allowed asks built rest ih =>
      have cached' := of_wp (Call.cached allowed asks.leaves cached) built
      have allots := of_wp (Call.allots _ _) built
      exact ih cached' (conventions.next allots asks.r0 asks.r1 cached')

/-- The conventions hold behind every such run from an empty code block. -/
theorem conventions_of_runs {s : Session} {calls : List Call} (runs : Runs AsksWithin ⟨Code.new, []⟩ calls s) :
    Conventions s.code := by
  have pool : ∀ r ∈ Code.new.regOrder, r < 32 := fun r member => (conventions_new.mem_regOrder member).1
  exact (runs.conventions (cached_of_flushed pool rfl []) conventions_new).2

/-- A return value in a register with an immediate value breaks them. -/
theorem not_conventions_loadedBefore : ¬Conventions loadedBefore := by
  intro conventions
  have free := (conventions.imm 25 (by decide)).2
  exact absurd free (by decide)

end AsconSuite.Avr
