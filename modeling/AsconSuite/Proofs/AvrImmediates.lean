/-
Module: AsconSuite.Proofs.AvrImmediates
Layer: Proofs
Purpose: The immediate values that `immtemp` keeps in registers: as long as no register that holds one is handed out as an
  argument, a return value or an explicit register, what `immtemp` returns is free and holds its value wherever the code
  gets there; and the calls after which it does not.
Imports: AsconSuite.Proofs.AvrPaths
Trusted boundary: none (fully proved)
Main exports: Avr.HandsOut, Avr.Grows, Avr.Cached, Avr.Call.cached, Avr.immtemp_holds
-/
import AsconSuite.Proofs.AvrPaths

namespace AsconSuite.Avr

open ByteWord ByteMemory
open Emit (Target run_bind_eq_ok)
open Emit.Target

/-! ### The builder alone -/

/-- A target without a machine, for what the members of `Code` do to the builder. -/
def builder : Target Code Insn Unit String where
  code := fun _ => []
  step := fun s _ => .ok s

theorem of_wp {α : Type} {m : Build α} {P : α → Code → Unit → Prop} {code code' : Code} {a : α}
    (spec : builder.wp m P code ()) (ran : m.run code = .ok (a, code')) : P a code' () := by
  obtain ⟨seg, s', parts, _, holds⟩ := spec a code' ran
  exact holds

variable {code code' : Code}

/-! ### Registers that are handed out -/

/-- What handing out and releasing registers does to the builder: no register that is handed out is one of those that hold
an immediate value. -/
structure HandsOut (code code' : Code) : Prop where
  insns : code'.insns = code.insns
  labels : code'.labels = code.labels
  regOrder : code'.regOrder = code.regOrder
  immValues : code'.immValues = code.immValues
  immRegs : ∀ r, inRegs code'.immRegs r = true → inRegs code.immRegs r = true
  allocated : ∀ r, inRegs code'.allocated r = true → inRegs code.allocated r = true ∨ inRegs code'.immRegs r = false

namespace HandsOut

theorem refl (code : Code) : HandsOut code code := ⟨rfl, rfl, rfl, rfl, fun _ => id, fun _ => Or.inl⟩

theorem trans {code'' : Code} (first : HandsOut code code') (second : HandsOut code' code'') : HandsOut code code'' where
  insns := second.insns.trans first.insns
  labels := second.labels.trans first.labels
  regOrder := second.regOrder.trans first.regOrder
  immValues := second.immValues.trans first.immValues
  immRegs r isImm := first.immRegs r (second.immRegs r isImm)
  allocated r taken := by
    rcases second.allocated r taken with before | other
    · rcases first.allocated r before with first' | other
      · exact Or.inl first'
      · -- What was forgotten stays forgotten.
        refine Or.inr (Bool.eq_false_iff.2 fun isImm => ?_)
        rw [second.immRegs r isImm] at other
        exact nomatch other
    · exact Or.inr other

/-- Registers are taken and forgotten at the same time. -/
theorem take (code : Code) (regs : BitVec 32) :
    HandsOut code { code with allocated := code.allocated ||| regs, immRegs := code.immRegs &&& ~~~regs } where
  insns := rfl
  labels := rfl
  regOrder := rfl
  immValues := rfl
  immRegs r isImm := ((inRegs_and_not _ _ r).1 isImm).1
  allocated r taken := by
    rcases (inRegs_or _ _ r).1 taken with before | member
    · exact Or.inl before
    · refine Or.inr (Bool.eq_false_iff.2 fun isImm => ?_)
      rw [((inRegs_and_not _ _ r).1 isImm).2] at member
      exact nomatch member

/-- Registers are released. -/
theorem release (code : Code) (regs : BitVec 32) (less : ∀ r, inRegs regs r = true → inRegs code.allocated r = true) :
    HandsOut code { code with allocated := regs } :=
  ⟨rfl, rfl, rfl, rfl, fun _ => id, fun r taken => Or.inl (less r taken)⟩

end HandsOut

theorem handsOut_allocateSpare (high : Bool) :
    builder.wp (allocateSpare high) (fun found code' _ => HandsOut code code' ∧ ∀ reg, found = some reg →
      reg ∈ code.regOrder ∧ (high = true → 16 ≤ reg)) code () := by
  refine wp_bind (wp_get ?_)
  split
  next => exact wp_pure ⟨HandsOut.refl code, fun reg found => nomatch found⟩
  next reg place =>
    refine wp_bind (wp_set rfl (wp_pure ⟨HandsOut.take code (regBit reg), ?_⟩))
    intro reg' same
    cases same
    refine ⟨List.mem_of_find?_eq_some place, fun isHigh => ?_⟩
    have fits := List.find?_some place
    rw [isHigh, Bool.true_and, Bool.and_eq_true, Bool.not_eq_true', Bool.not_eq_true', decide_eq_false_iff_not] at fits
    exact Nat.le_of_not_lt fits.2

theorem handsOut_allocateSparePair (high : Bool) :
    builder.wp (allocateSparePair high) (fun _ code' _ => HandsOut code code') code () := by
  refine wp_bind (wp_get ?_)
  dsimp only
  split
  next => exact wp_pure (HandsOut.refl code)
  next reg1 reg2 place => exact wp_bind (wp_set rfl (wp_pure (HandsOut.take code (regBit reg1 ||| regBit reg2))))

/-- What holds between the builders around one search for a register holds around the whole loop. -/
theorem related_allocateRegLoop {R : Code → Code → Prop} {high : Bool} (refl : ∀ code, R code code)
    (trans : ∀ code code' code'', R code code' → R code' code'' → R code code'')
    (spare : ∀ code, builder.wp (allocateSpare high) (fun _ code' _ => R code code') code ())
    (pair : ∀ code, builder.wp (allocateSparePair high) (fun _ code' _ => R code code') code ())
    (optional : Bool) (turns size : Nat) (result : Reg) :
    builder.wp (allocateRegLoop high optional turns size result) (fun _ code' _ => R code code') code () := by
  induction turns generalizing size result code with
  | zero => exact wp_pure (refl code)
  | succ turns ih =>
      have later {size' : Nat} {result' : Reg} {code₁ : Code} (first : R code code₁) :
          builder.wp (allocateRegLoop high optional turns size' result') (fun _ code' _ => R code code') code₁ () :=
        wp_mono (ih size' result') fun _ _ _ rest => trans _ _ _ first rest
      have single {code₁ : Code} {rest : Option Nat → Build Reg} (first : R code code₁)
          (last : rest none = if optional then return result else throw "too many registers in use")
          (another : ∀ reg, rest (some reg) = allocateRegLoop high optional turns (size - 1) (result ++ [reg])) :
          builder.wp (allocateSpare high >>= rest) (fun _ code' _ => R code code') code₁ () := by
        refine wp_bind (wp_mono (spare code₁) ?_)
        intro found code₂ _ second
        have both := trans _ _ _ first second
        cases found with
        | none => exact wp_congr last (wp_ite (fun _ => wp_pure both) fun _ => wp_throw)
        | some reg => exact wp_congr (another reg) (later both)
      rw [allocateRegLoop]
      refine wp_ite (fun _ => wp_pure (refl code)) fun _ => ?_
      refine wp_ite (fun _ => ?_) fun _ => wp_bind (wp_pure (single (refl code) rfl fun _ => rfl))
      refine wp_bind (wp_mono (pair code) ?_)
      intro found code₁ _ first
      cases found with
      | none => exact single first rfl fun _ => rfl
      | some reg => exact later first

theorem handsOut_allocateRegLoop (high optional : Bool) (turns size : Nat) (result : Reg) :
    builder.wp (allocateRegLoop high optional turns size result) (fun _ code' _ => HandsOut code code') code () :=
  related_allocateRegLoop HandsOut.refl (fun _ _ _ => HandsOut.trans)
    (fun _ => wp_mono (handsOut_allocateSpare high) fun _ _ _ spare => spare.1)
    (fun _ => handsOut_allocateSparePair high) optional turns size result

theorem inRegs_release_of (reg : Reg) (regs : BitVec 32) (r : Nat)
    (member : inRegs (reg.foldl (fun regs r => regs &&& ~~~regBit r) regs) r = true) : inRegs regs r = true := by
  induction reg generalizing regs with
  | nil => exact member
  | cons first rest ih => exact ((inRegs_and_not _ _ r).1 (ih _ member)).1

theorem handsOut_releaseReg (reg : Reg) :
    builder.wp (releaseReg reg) (fun _ code' _ => HandsOut code code') code () :=
  wp_modify rfl (HandsOut.release code _ (inRegs_release_of reg code.allocated))

/-! ### What a call does to the code -/

/-- What a call does to the code, whether immediate values are kept or not. -/
structure Grows (code code' : Code) : Prop where
  appended : ∃ more, code'.insns = code.insns ++ more ∧ Skips more
  marked : Marked code.labels code.insns → Marked code'.labels code'.insns

namespace Grows

theorem of_same (insns : code'.insns = code.insns) (labels : code'.labels = code.labels) : Grows code code' where
  appended := ⟨[], by rw [insns, List.append_nil], fun i _ found => nomatch found⟩
  marked := by
    rw [insns, labels]
    exact id

theorem refl (code : Code) : Grows code code := of_same rfl rfl

theorem trans {code'' : Code} (first : Grows code code') (second : Grows code' code'') : Grows code code'' where
  appended := by
    obtain ⟨front, parts, skips⟩ := first.appended
    obtain ⟨back, parts', skips'⟩ := second.appended
    exact ⟨front ++ back, by rw [parts', parts, List.append_assoc], skips_append skips skips'⟩
  marked marked := second.marked (first.marked marked)

/-- An instruction is appended that skips nothing. -/
theorem pushed {insn : Insn} (insns : code'.insns = code.insns ++ [insn]) (labels : code'.labels = code.labels)
    (other : insn.type ≠ .cpse) : Grows code code' where
  appended := ⟨[insn], insns, skips_single other⟩
  marked marked := by
    rw [insns, labels]
    exact marked.append [insn]

end Grows

theorem HandsOut.grows (handsOut : HandsOut code code') : Grows code code' := Grows.of_same handsOut.insns handsOut.labels

/-- The registers from some number on. -/
def fromReg (firstReg size : Nat) : List Nat := (List.range size).map (firstReg + ·)

theorem inRegs_regBit_of {reg r : Nat} (member : inRegs (regBit reg) r = true) : r = reg := by
  by_cases bound : reg < 32
  · exact (inRegs_regBit bound r).1 member
  · rw [inRegs, regBit, BitVec.getLsbD_shiftLeft] at member
    simp only [Bool.and_eq_true, Bool.not_eq_true', decide_eq_true_eq, decide_eq_false_iff_not] at member
    omega

theorem fromReg_succ (firstReg size : Nat) : fromReg firstReg (size + 1) = firstReg :: fromReg (firstReg + 1) size := by
  rw [fromReg, List.range_succ_eq_map, List.map_cons, List.map_map]
  refine congrArg _ (List.map_congr_left fun i _ => ?_)
  exact Nat.add_right_comm firstReg i 1

/-- Registers of the caller's choice are handed out, but not forgotten. -/
theorem handsOut_allocateExplicitReg (firstReg size : Nat) :
    builder.wp (allocateExplicitReg firstReg size) (fun _ code' _ => Grows code code' ∧
      ((∀ r ∈ fromReg firstReg size, inRegs code.immRegs r = false) → HandsOut code code')) code () := by
  induction size generalizing firstReg code with
  | zero => exact wp_pure ⟨Grows.refl code, fun _ => HandsOut.refl code⟩
  | succ size ih =>
      have member (r : Nat) : r = firstReg ∨ r ∈ fromReg (firstReg + 1) size → r ∈ fromReg firstReg (size + 1) := by
        rw [fromReg_succ, List.mem_cons]
        exact id
      refine wp_bind (wp_get (wp_ite (fun _ => wp_throw) fun _ => wp_bind (wp_set rfl (wp_bind ?_))))
      refine wp_mono (ih (firstReg + 1)) fun rest code' _ ⟨grows, others⟩ => wp_pure ⟨?_, fun apart => ?_⟩
      · exact ⟨grows.appended, grows.marked⟩
      · have first : HandsOut code { code with allocated := code.allocated ||| regBit firstReg } := by
          refine ⟨rfl, rfl, rfl, rfl, fun _ => id, fun r taken => ?_⟩
          rcases (inRegs_or _ _ r).1 taken with before | new
          · exact Or.inl before
          · exact Or.inr (apart r (member r (Or.inl (inRegs_regBit_of new))))
        exact first.trans (others fun r later => apart r (member r (Or.inr later)))

/-- What a branch does to the builder. -/
structure Branched (type : InsnType) (code code' : Code) : Prop where
  insns : ∃ ref, code'.insns = code.insns ++ [⟨type, ref, 0⟩]
  labels : ∀ offset : Nat, (offset : Int) ∈ code'.labels →
    (offset : Int) ∈ code.labels ∨ (offset = code.insns.length ∧ type = .label)
  regOrder : code'.regOrder = code.regOrder
  immRegs : code'.immRegs = 0#32

theorem branched_branch (type : InsnType) (ref : Nat) :
    builder.wp (branch type ref) (fun _ code' _ => Branched type code code') code () := by
  refine wp_bind (wp_modify rfl (wp_bind (wp_get ?_)))
  dsimp only
  refine wp_ite (fun _ => ?_) fun _ => wp_ite (fun isLabel => ?_) fun _ => ?_
  · refine wp_bind (wp_set rfl (wp_bind (wp_modify rfl (wp_pure ⟨⟨_, rfl⟩, fun offset member => ?_, rfl, rfl⟩))))
    rcases List.mem_append.1 member with before | new
    · exact Or.inl before
    · rw [List.mem_singleton] at new
      split at new
      · exact Or.inr ⟨Int.ofNat.inj new, ‹_›⟩
      · exact nomatch new
  · refine wp_ite (fun _ => wp_throw) fun _ => wp_ite (fun _ => wp_throw) fun _ => ?_
    refine wp_bind (wp_set rfl (wp_bind (wp_modify rfl (wp_pure ⟨⟨_, rfl⟩, fun offset member => ?_, rfl, rfl⟩))))
    rcases List.mem_or_eq_of_mem_set member with before | new
    · exact Or.inl before
    · exact Or.inr ⟨Int.ofNat.inj new, isLabel⟩
  · refine wp_ite (fun _ => wp_throw) fun _ => wp_bind (wp_modify rfl (wp_pure ?_))
    exact ⟨⟨_, rfl⟩, fun offset => Or.inl, rfl, rfl⟩

theorem Branched.marked {type : InsnType} (branched : Branched type code code') (marked : Marked code.labels code.insns) :
    Marked code'.labels code'.insns := by
  obtain ⟨ref, insns⟩ := branched.insns
  rw [insns]
  intro offset member
  rcases branched.labels offset member with before | ⟨rfl, rfl⟩
  · exact marked.append _ offset before
  · refine ⟨⟨.label, ref, 0⟩, ?_, rfl⟩
    rw [List.getElem?_append_right (Nat.le_refl _), Nat.sub_self, List.getElem?_cons_zero]

theorem Branched.grows {type : InsnType} (branched : Branched type code code') (other : type ≠ .cpse) :
    Grows code code' where
  appended := by
    obtain ⟨ref, insns⟩ := branched.insns
    exact ⟨_, insns, skips_single other⟩
  marked := branched.marked

/-- A comparison with the jump that it skips. -/
theorem grows_compareSkip (reg1 reg2 ref : Nat) :
    builder.wp (compareSkip reg1 reg2 ref)
      (fun _ code' _ => Grows code code' ∧ code'.regOrder = code.regOrder ∧ code'.immRegs = 0#32) code () := by
  refine wp_bind (wp_bind (wp_lift fun insn made => wp_modify rfl ?_))
  have skip : insn = ⟨.cpse, reg1, reg2⟩ := by
    rw [Insn.ofReg2] at made
    split at made
    · cases made
    · rw [if_neg (fun wrong => absurd wrong.1 (by decide))] at made
      exact (Except.ok.inj made).symm
  refine wp_mono (branched_branch .jmp ref) fun _ code' _ branched => ⟨⟨?_, fun marked => ?_⟩, branched.regOrder, branched.immRegs⟩
  · obtain ⟨ref', insns⟩ := branched.insns
    refine ⟨[insn, ⟨.jmp, ref', 0⟩], insns.trans (List.append_assoc ..), ?_⟩
    intro i other found isSkip
    cases i with
    | zero => exact ⟨⟨.jmp, ref', 0⟩, rfl, rfl⟩
    | succ i =>
        cases i with
        | zero =>
            cases found
            cases isSkip
        | succ i => cases found
  · exact branched.marked (marked.append [insn])

/-! ### Immediate values in registers -/

/-- An instruction has loaded a value into a register, and no instruction behind it writes the register or leads
elsewhere. -/
def Loaded (insns : List Insn) (r value : Nat) : Prop :=
  ∃ front back, insns = front ++ ⟨.ldi, r, value % 256⟩ :: back ∧
    ∀ insn ∈ back, insn.type.control = false ∧ r ∉ insn.writes

theorem Loaded.snoc {insns : List Insn} {r value : Nat} (loaded : Loaded insns r value) {insn : Insn}
    (plain : insn.type.control = false) (other : r ∉ insn.writes) : Loaded (insns ++ [insn]) r value := by
  obtain ⟨front, back, parts, quiet⟩ := loaded
  refine ⟨front, back ++ [insn], by rw [parts, List.append_assoc, List.cons_append], fun insn' member => ?_⟩
  rcases List.mem_append.1 member with before | new
  · exact quiet insn' before
  · rw [List.mem_singleton.1 new]
    exact ⟨plain, other⟩

/-- The registers that hold immediate values are free, nothing may write them, and the code has loaded them. -/
structure Cached (code : Code) (temps : List Nat) : Prop where
  pool : ∀ r ∈ code.regOrder, r < 32
  free : ∀ r, inRegs code.immRegs r = true →
    16 ≤ r ∧ inRegs code.allocated r = false ∧ r ∉ temps ∧ r ∈ code.regOrder
  loaded : ∀ r, inRegs code.immRegs r = true → Loaded code.insns r (code.immValues (r - 16))

theorem Cached.fewer {temps fewer : List Nat} (cached : Cached code temps) (sub : ∀ r, r ∈ fewer → r ∈ temps) :
    Cached code fewer where
  pool := cached.pool
  free r isImm := by
    obtain ⟨high, free, notTemp, member⟩ := cached.free r isImm
    exact ⟨high, free, fun isTemp => notTemp (sub r isTemp), member⟩
  loaded := cached.loaded

/-- Nothing is kept. -/
theorem cached_of_flushed (pool : ∀ r ∈ code.regOrder, r < 32) (flushed : code.immRegs = 0#32) (temps : List Nat) :
    Cached code temps := by
  have none : ∀ r, ¬inRegs code.immRegs r = true := by
    intro r isImm
    rw [flushed, inRegs, BitVec.getLsbD_zero] at isImm
    cases isImm
  exact ⟨pool, fun r isImm => absurd isImm (none r), fun r isImm => absurd isImm (none r)⟩

theorem HandsOut.cached {temps : List Nat} (handsOut : HandsOut code code') (cached : Cached code temps) :
    Cached code' temps where
  pool := handsOut.regOrder ▸ cached.pool
  free r isImm := by
    obtain ⟨high, free, notTemp, member⟩ := cached.free r (handsOut.immRegs r isImm)
    refine ⟨high, Bool.eq_false_iff.2 fun taken => ?_, notTemp, handsOut.regOrder ▸ member⟩
    rcases handsOut.allocated r taken with before | other
    · rw [free] at before
      exact nomatch before
    · rw [isImm] at other
      exact nomatch other
  loaded r isImm := by
    rw [handsOut.insns, handsOut.immValues]
    exact cached.loaded r (handsOut.immRegs r isImm)

/-- An instruction writes what it was given. -/
theorem Cached.emit {s : Session} (cached : Cached s.code s.temps) {insn : Insn} (plain : insn.type.control = false)
    (given : ∀ r ∈ insn.writes, s.Given r) : Cached (s.code.pushed insn) s.temps where
  pool := cached.pool
  free := cached.free
  loaded r isImm := by
    obtain ⟨_, free, notTemp, member⟩ := cached.free r isImm
    refine (cached.loaded r isImm).snoc plain fun written => ?_
    rcases given r written with taken | isTemp | outside
    · rw [free] at taken
      exact nomatch taken
    · exact notTemp isTemp
    · exact outside member

/-- A register holds a value for `immtemp`. -/
def Holds (code : Code) (reg value : Nat) : Prop := inRegs code.immRegs reg = true ∧ code.immValues (reg - 16) = value

/-- A free register is loaded. -/
theorem cached_setImmtemp (reg value : Nat) (temps : List Nat) :
    builder.wp (setImmtemp reg value) (fun reg' code' _ => Grows code code' ∧
      (Cached code temps → reg ∈ code.regOrder → inRegs code.allocated reg = false →
        Cached code' (temps.filter (· ≠ reg')) ∧ Holds code' reg' value)) code () := by
  refine wp_bind (wp_modify rfl (wp_bind (wp_bind (wp_lift fun insn made => wp_modify rfl (wp_pure ?_)))))
  rw [Insn.ofImm] at made
  split at made
  · cases made
  rename_i bounds
  rw [if_neg (fun wrong => wrong.1.elim (absurd · (by decide)) (absurd · (by decide)))] at made
  cases made
  refine ⟨Grows.pushed rfl rfl (by decide : InsnType.ldi ≠ .cpse), fun cached member free => ?_⟩
  have bound : reg < 32 := cached.pool reg member
  have isImm (r : Nat) : inRegs (code.immRegs ||| regBit reg) r = true ↔ inRegs code.immRegs r = true ∨ r = reg := by
    rw [inRegs_or, inRegs_regBit bound]
  refine ⟨⟨cached.pool, fun r imm => ?_, fun r imm => ?_⟩, (isImm reg).2 (Or.inr rfl), if_pos rfl⟩
  · rw [List.mem_filter, not_and, decide_eq_true_eq, not_not]
    rcases (isImm r).1 imm with before | rfl
    · obtain ⟨high, free', notTemp, member'⟩ := cached.free r before
      exact ⟨high, free', fun isTemp => absurd isTemp notTemp, member'⟩
    · exact ⟨by omega, free, fun _ => rfl, member⟩
  · by_cases same : r = reg
    · subst same
      refine ⟨code.insns, [], ?_, List.forall_mem_nil _⟩
      dsimp only
      rw [if_pos rfl]
    · have before := ((isImm r).1 imm).resolve_right same
      have high := (cached.free r before).1
      have kept : Loaded (code.insns ++ [⟨.ldi, reg, value % 256⟩]) r (code.immValues (r - 16)) :=
        (cached.loaded r before).snoc rfl fun written => same (List.mem_singleton.1 written)
      dsimp only
      rw [if_neg (by omega)]
      exact kept

theorem cached_immtemp (value : Nat) (temps : List Nat) :
    builder.wp (immtemp value) (fun reg code' _ => Grows code code' ∧
      (Cached code temps → Cached code' (temps.filter (· ≠ reg)) ∧ Holds code' reg value)) code () := by
  refine wp_bind (wp_get ?_)
  generalize place : highRegs.find? (fun index =>
    inRegs code.immRegs index && code.immValues (index - 16) == value) = holder
  generalize again : (if 4 ≤ code.immCount then highRegs.find? (inRegs code.immRegs) else none) = reused
  cases holder with
  | some index =>
      have found := List.find?_some place
      rw [Bool.and_eq_true, beq_iff_eq] at found
      exact wp_pure ⟨Grows.refl code, fun cached => ⟨cached.fewer fun r => List.mem_of_mem_filter, found⟩⟩
  | none =>
      cases reused with
      | some index =>
          have isImm : inRegs code.immRegs index = true := by
            split at again
            · exact List.find?_some again
            · exact nomatch again
          refine wp_mono (cached_setImmtemp index value temps) fun reg code' _ ⟨grows, next⟩ => ⟨grows, fun cached => ?_⟩
          obtain ⟨_, free, _, member⟩ := cached.free index isImm
          exact next cached member free
      | none =>
          dsimp only
          split
          next index fresh =>
            have found := List.find?_some fresh
            rw [Bool.and_eq_true, Bool.and_eq_true, Bool.not_eq_true', List.contains_iff_mem] at found
            exact wp_mono (cached_setImmtemp index value temps) fun reg code' _ ⟨grows, next⟩ =>
              ⟨grows, fun cached => next cached found.1.1 found.1.2⟩
          next =>
            refine wp_bind (wp_mono (handsOut_allocateSpare true) ?_)
            rintro found code₁ _ ⟨handsOut, inPool⟩
            cases found with
            | none => exact wp_throw
            | some reg =>
                -- The register is handed out, and released again.
                refine wp_bind (wp_modify rfl (wp_mono (cached_setImmtemp reg value temps) ?_))
                rintro reg' code' _ ⟨grows, next⟩
                have member := (inPool reg rfl).1
                have less : ∀ r, inRegs (code₁.allocated &&& ~~~regBit reg) r = true → inRegs code₁.allocated r = true :=
                  fun r taken => ((inRegs_and_not _ _ r).1 taken).1
                have both := handsOut.trans (HandsOut.release code₁ _ less)
                refine ⟨both.grows.trans grows, fun cached => ?_⟩
                refine next (both.cached cached) (handsOut.regOrder ▸ member) ?_
                refine Bool.eq_false_iff.2 fun taken => ?_
                have other := ((inRegs_and_not _ _ reg).1 taken).2
                rw [(inRegs_regBit (cached.pool reg member) reg).2 rfl] at other
                exact nomatch other

/-- The temporary register holds no immediate value. -/
theorem handsOut_tempreg (temps : List Nat) :
    builder.wp tempreg (fun reg code' _ => HandsOut code code' ∧
      (Cached code temps → inRegs code'.immRegs reg = false)) code () := by
  intro reg code' ran
  refine ⟨[], (), rfl, rfl, ?_⟩
  rw [tempreg_run] at ran
  split at ran
  · cases ran
    refine ⟨HandsOut.refl code, fun cached => Bool.eq_false_iff.2 fun isImm => ?_⟩
    exact absurd (cached.free _ isImm).1 (by decide)
  · generalize place : firstFree code = found at ran
    cases found with
    | none => exact nomatch ran
    | some t =>
        cases ran
        have less : ∀ r, inRegs ((taken code reg).allocated &&& ~~~regBit reg) r = true →
            inRegs (taken code reg).allocated r = true := fun r taken => ((inRegs_and_not _ _ r).1 taken).1
        refine ⟨(HandsOut.take code (regBit reg)).trans (HandsOut.release _ _ less), fun cached => ?_⟩
        refine Bool.eq_false_iff.2 fun isImm => ?_
        have other := ((inRegs_and_not _ _ reg).1 isImm).2
        rw [(inRegs_regBit (cached.pool reg (List.mem_of_find?_eq_some place)) reg).2 rfl] at other
        exact nomatch other

theorem handsOut_haveTempreg : builder.wp haveTempreg (fun _ code' _ => HandsOut code code') code () := by
  refine wp_bind (wp_get (wp_ite (fun _ => wp_pure (HandsOut.refl code)) fun _ => ?_))
  refine wp_bind (wp_mono (handsOut_allocateRegLoop false true 1 1 []) fun reg code₁ _ first => ?_)
  exact wp_bind (wp_mono (handsOut_releaseReg reg) fun _ _ _ second => wp_pure (first.trans second))

/-! ### Calls and runs -/

/-- The registers that a call hands out because the caller, an argument or a return value asks for them. -/
def Call.explicit (code : Code) : Call → List Nat
  | .explicitReg firstReg size => fromReg firstReg size
  | .arg type size => fromReg (argRegister type code size) size
  | .returnValue size => fromReg (returnRegister size) size
  | _ => []

/-- A call hands out no register of the caller's choice that holds an immediate value. -/
def LeavesImmediates (code : Code) (call : Call) : Prop := ∀ r ∈ call.explicit code, inRegs code.immRegs r = false

/-- What every call does to the code. -/
theorem Call.grows {s : Session} {call : Call} (allowed : s.Allows call) :
    builder.wp (call.build s.temps) (fun _ code' _ => Grows s.code code') s.code () := by
  cases call with
  | allocateReg size high optional =>
      exact wp_bind (wp_mono (handsOut_allocateRegLoop high optional size size []) fun _ _ _ handsOut =>
        wp_pure handsOut.grows)
  | releaseReg reg =>
      exact wp_bind (wp_mono (handsOut_releaseReg reg) fun _ _ _ handsOut => wp_pure handsOut.grows)
  | explicitReg firstReg size => exact wp_bind (wp_mono (handsOut_allocateExplicitReg firstReg size) fun _ _ _ result => wp_pure result.1)
  | arg type size => exact wp_bind (wp_bind (wp_get (wp_mono (handsOut_allocateExplicitReg _ size) fun _ _ _ result => wp_pure result.1)))
  | returnValue size => exact wp_bind (wp_mono (handsOut_allocateExplicitReg _ size) fun _ _ _ result => wp_pure result.1)
  | branch type ref =>
      have other : type ≠ .cpse := by
        rintro rfl
        exact nomatch allowed
      exact wp_bind (wp_mono (branched_branch type ref) fun _ _ _ branched => wp_pure (branched.grows other))
  | compareSkip reg1 reg2 ref =>
      exact wp_bind (wp_mono (grows_compareSkip reg1 reg2 ref) fun _ _ _ result => wp_pure result.1)
  | ret =>
      refine wp_bind (wp_bind (wp_modify rfl (wp_modify rfl (wp_pure ?_))))
      exact Grows.pushed rfl rfl (by decide : InsnType.ret ≠ .cpse)
  | emit insn =>
      refine wp_bind (wp_modify rfl (wp_pure (Grows.pushed rfl rfl fun isSkip => ?_)))
      exact nomatch (allowed.1.symm.trans (congrArg InsnType.control isSkip))
  | immtemp value => exact wp_bind (wp_mono (cached_immtemp value s.temps) fun _ _ _ result => wp_pure result.1)
  | tempreg => exact wp_bind (wp_mono (handsOut_tempreg s.temps) fun _ _ _ result => wp_pure result.1.grows)
  | haveTempreg => exact wp_bind (wp_mono handsOut_haveTempreg fun _ _ _ handsOut => wp_pure handsOut.grows)

/-- What a call keeps that hands out no register that holds an immediate value. -/
theorem Call.cached {s : Session} {call : Call} (allowed : s.Allows call) (leaves : LeavesImmediates s.code call)
    (cached : Cached s.code s.temps) :
    builder.wp (call.build s.temps) (fun temps code' _ => Cached code' temps) s.code () := by
  cases call with
  | allocateReg size high optional =>
      exact wp_bind (wp_mono (handsOut_allocateRegLoop high optional size size []) fun _ _ _ handsOut =>
        wp_pure (handsOut.cached cached))
  | releaseReg reg =>
      exact wp_bind (wp_mono (handsOut_releaseReg reg) fun _ _ _ handsOut => wp_pure (handsOut.cached cached))
  | explicitReg firstReg size =>
      exact wp_bind (wp_mono (handsOut_allocateExplicitReg firstReg size) fun _ _ _ result =>
        wp_pure ((result.2 leaves).cached cached))
  | arg type size =>
      exact wp_bind (wp_bind (wp_get (wp_mono (handsOut_allocateExplicitReg _ size) fun _ _ _ result =>
        wp_pure ((result.2 leaves).cached cached))))
  | returnValue size =>
      exact wp_bind (wp_mono (handsOut_allocateExplicitReg _ size) fun _ _ _ result =>
        wp_pure ((result.2 leaves).cached cached))
  | branch type ref =>
      refine wp_bind (wp_mono (branched_branch type ref) fun _ _ _ branched => wp_pure ?_)
      exact cached_of_flushed (branched.regOrder ▸ cached.pool) branched.immRegs _
  | compareSkip reg1 reg2 ref =>
      refine wp_bind (wp_mono (grows_compareSkip reg1 reg2 ref) fun _ _ _ ⟨_, order, flushed⟩ => wp_pure ?_)
      exact cached_of_flushed (order ▸ cached.pool) flushed _
  | ret =>
      refine wp_bind (wp_bind (wp_modify rfl (wp_modify rfl (wp_pure ?_))))
      refine cached_of_flushed ?_ rfl s.temps
      exact cached.pool
  | emit insn => exact wp_bind (wp_modify rfl (wp_pure (cached.emit allowed.1 allowed.2)))
  | immtemp value =>
      exact wp_bind (wp_mono (cached_immtemp value s.temps) fun _ _ _ result =>
        wp_pure (result.2 cached).1)
  | tempreg =>
      refine wp_bind (wp_mono (handsOut_tempreg s.temps) fun reg _ _ ⟨handsOut, other⟩ => wp_pure ?_)
      have cached' := handsOut.cached cached
      refine ⟨cached'.pool, fun r isImm => ?_, cached'.loaded⟩
      obtain ⟨high, free, notTemp, member⟩ := cached'.free r isImm
      refine ⟨high, free, fun isTemp => ?_, member⟩
      rcases List.mem_cons.1 isTemp with rfl | before
      · rw [other cached] at isImm
        exact nomatch isImm
      · exact notTemp before
  | haveTempreg =>
      exact wp_bind (wp_mono handsOut_haveTempreg fun _ _ _ handsOut => wp_pure (handsOut.cached cached))

/-- A run adds to the code. -/
theorem Runs.grows {meets : Code → Call → Prop} {s s' : Session} {calls : List Call} (runs : Runs meets s calls s') :
    Grows s.code s'.code := by
  induction runs with
  | nil s => exact Grows.refl s.code
  | cons allowed condition built rest ih => exact (of_wp (Call.grows allowed) built).trans ih

/-- A run that hands out no register that holds an immediate value keeps them all. -/
theorem Runs.cached {s s' : Session} {calls : List Call} (runs : Runs LeavesImmediates s calls s')
    (cached : Cached s.code s.temps) : Cached s'.code s'.temps := by
  induction runs with
  | nil s => exact cached
  | cons allowed leaves built rest ih => exact ih (of_wp (Call.cached allowed leaves cached) built)

/-- Where every jump in the code of a builder leads. -/
theorem Grows.wired (grows : Grows code code') (empty : code.insns = []) (noLabel : code.labels = []) :
    CodePaths.Wired AVRState.pc code'.Follows code'.insns (fun insn => insn.type.control = false)
      (fun insn => insn.type = .label) := by
  obtain ⟨more, parts, skips⟩ := grows.appended
  refine Avr.wired (by rwa [parts, empty]) (grows.marked ?_)
  rw [noLabel]
  exact fun offset member => nomatch member

/-! ### Where `immtemp` may be relied on -/

/-- A register holds a value on every path through some code that gets to a place: behind the instruction in front of
it, and in every other way unless a label stands there. -/
structure HoldsAt (code : Code) (place reg : Nat) (b : Byte) : Prop where
  behind : ∀ s s' insn, CodePaths.Path AVRState.pc code.Follows code.insns s → s.pc + 1 = place →
    code.insns[s.pc]? = some insn → code.Follows insn s s' → s'.r reg = b
  there : ∀ s, CodePaths.Path AVRState.pc code.Follows code.insns s → s.pc = place →
    (∀ insn, code.insns[place]? = some insn → insn.type ≠ .label) → s.r reg = b

theorem Loaded.holdsAt {insns more : List Insn} {reg value : Nat} (loaded : Loaded insns reg value) (bound : reg < 32)
    (parts : code.insns = insns ++ more)
    (wired : CodePaths.Wired AVRState.pc code.Follows code.insns (fun insn => insn.type.control = false)
      (fun insn => insn.type = .label)) : HoldsAt code insns.length reg (BitVec.ofNat 8 value) := by
  obtain ⟨front, back, whole, quiet⟩ := loaded
  have piece : CodePaths.Piece code.Follows code.insns (fun insn => insn.type.control = false)
      (fun s => s.r reg = BitVec.ofNat 8 value) front ⟨.ldi, reg, value % 256⟩ back := {
    parts := ⟨more, by rw [parts, whole, List.append_assoc, List.cons_append]⟩
    plain := by
      intro insn member
      rcases List.mem_cons.1 member with rfl | later
      · rfl
      · exact (quiet insn later).1
    sets := by
      rintro s s' ⟨done, _⟩
      cases done
      rw [← ofNat_mod_byte value]
      exact if_pos rfl
    keeps := fun insn member s s' done holds =>
      ((execInsn_keeps (quiet insn member).1 done.1).others reg bound (quiet insn member).2).trans holds }
  have length : insns.length = front.length + back.length + 1 := by
    rw [whole, List.length_append, List.length_cons, Nat.add_assoc]
  constructor
  · intro s s' insn path before found done
    exact piece.holds_next wired path (by omega) found done
  · intro s path place noLabel
    exact piece.holds wired path (by omega) (by omega) fun insn found => noLabel insn (place ▸ found)

/-- What `immtemp` returns is not allocated, and it holds the value on every path through the code that gets there. -/
theorem immtemp_holds {start code' : Code} {calls later : List Call} {s final : Session} {value reg : Nat} {temps : List Nat}
    (fresh : start.Fresh) (runs : Runs LeavesImmediates ⟨start, []⟩ calls s)
    (returned : (immtemp value).run s.code = .ok (reg, code'))
    (goesOn : Runs (fun _ _ => True) ⟨code', temps⟩ later final) :
    inRegs code'.allocated reg = false ∧ HoldsAt final.code code'.insns.length reg (BitVec.ofNat 8 value) := by
  have pool : ∀ r ∈ start.regOrder, r < 32 := by
    intro r member
    rw [fresh.order] at member
    exact (resetRegs_mem _ _ _ _ _ r member).1
  have cached := runs.cached (cached_of_flushed pool fresh.immRegs [])
  obtain ⟨grows, keeps⟩ := of_wp (cached_immtemp value s.temps) returned
  obtain ⟨cached', isImm, isValue⟩ := keeps cached
  obtain ⟨_, free, _, member⟩ := cached'.free reg isImm
  refine ⟨free, ?_⟩
  obtain ⟨more, parts, _⟩ := goesOn.grows.appended
  have loaded := cached'.loaded reg isImm
  rw [isValue] at loaded
  refine loaded.holdsAt (cached'.pool reg member) parts ?_
  exact ((runs.grows.trans grows).trans goesOn.grows).wired fresh.insns fresh.labels

theorem fresh_new : Code.new.Fresh := ⟨rfl, rfl, rfl, rfl⟩

/-- A builder that has handed out `r24` and `r25` as the return value, and then has loaded `5`. -/
def loadedBehind : Code :=
  { Code.new with
    insns := [⟨.ldi, 23, 5⟩]
    allocated := 0#32 ||| regBit 24 ||| regBit 25
    immRegs := 0#32 ||| regBit 23
    immValues := fun i => if i = 7 then 5 else 0 }

/-- The value is used again, behind an instruction that changes the return value. -/
theorem immtemp_holds_returnValue : inRegs (loadedBehind.pushed ⟨.eor, 24, 23⟩).allocated 23 = false ∧
    HoldsAt (loadedBehind.pushed ⟨.eor, 24, 23⟩) 2 23 (BitVec.ofNat 8 5) := by
  have given : ∀ r ∈ [24], (⟨loadedBehind, []⟩ : Session).Given r := by
    intro r member
    rw [List.mem_singleton.1 member]
    exact Or.inl (by decide)
  have last : Runs LeavesImmediates ⟨loadedBehind, []⟩ [.emit ⟨.eor, 24, 23⟩] ⟨loadedBehind.pushed ⟨.eor, 24, 23⟩, []⟩ :=
    Runs.cons ⟨rfl, given⟩ (List.forall_mem_nil _) rfl (Runs.nil _)
  have runs : Runs LeavesImmediates ⟨Code.new, []⟩ [.returnValue 2, .immtemp 5, .emit ⟨.eor, 24, 23⟩]
      ⟨loadedBehind.pushed ⟨.eor, 24, 23⟩, []⟩ := by
    have middle : Runs LeavesImmediates ⟨{ Code.new with allocated := loadedBehind.allocated }, []⟩
        [.immtemp 5, .emit ⟨.eor, 24, 23⟩] ⟨loadedBehind.pushed ⟨.eor, 24, 23⟩, []⟩ :=
      Runs.cons trivial (List.forall_mem_nil _) rfl last
    exact Runs.cons trivial (by decide : ∀ r ∈ [24, 25], inRegs Code.new.immRegs r = false) rfl middle
  have returned : (immtemp 5).run (loadedBehind.pushed ⟨.eor, 24, 23⟩) = .ok (23, loadedBehind.pushed ⟨.eor, 24, 23⟩) := rfl
  exact immtemp_holds fresh_new runs returned (Runs.nil ⟨_, []⟩)

/-- A builder that has loaded `5` into `r25`, and then has handed out the register as the return value and loaded `7`. -/
def loadedBefore : Code :=
  { Code.new with
    insns := [⟨.ldi, 25, 5⟩, ⟨.ldi, 25, 7⟩]
    allocated := 0#32 ||| regBit 24 ||| regBit 25
    immRegs := 0#32 ||| regBit 25
    immValues := fun i => if i = 9 then 5 else 0 }

/-- A return value does not forget the immediate value in its register: `immtemp` returns the register of the caller, and
it holds another value there. -/
theorem returnValue_keeps_immediate :
    Code.new.Fresh ∧
    Runs (fun _ _ => True) ⟨Code.new, []⟩ [.immtemp 5, .returnValue 2, .emit ⟨.ldi, 25, 7⟩] ⟨loadedBefore, []⟩ ∧
    (immtemp 5).run loadedBefore = .ok (25, loadedBefore) ∧ inRegs loadedBefore.allocated 25 = true ∧
    ¬HoldsAt loadedBefore loadedBefore.insns.length 25 (BitVec.ofNat 8 5) := by
  refine ⟨fresh_new, ?_, rfl, by decide, fun holds => ?_⟩
  · have given : ∀ r ∈ [25], (⟨{ loadedBefore with insns := [⟨.ldi, 25, 5⟩] }, []⟩ : Session).Given r := by
      intro r member
      rw [List.mem_singleton.1 member]
      exact Or.inl (by decide)
    have last : Runs (fun _ _ => True) ⟨{ loadedBefore with insns := [⟨.ldi, 25, 5⟩] }, []⟩ [.emit ⟨.ldi, 25, 7⟩]
        ⟨loadedBefore, []⟩ := Runs.cons ⟨rfl, given⟩ trivial rfl (Runs.nil _)
    have middle : Runs (fun _ _ => True)
        ⟨{ loadedBefore with insns := [⟨.ldi, 25, 5⟩], allocated := 0#32 }, []⟩ [.returnValue 2, .emit ⟨.ldi, 25, 7⟩]
        ⟨loadedBefore, []⟩ := Runs.cons trivial trivial rfl last
    exact Runs.cons trivial trivial rfl middle
  · have path : CodePaths.Path AVRState.pc loadedBefore.Follows loadedBefore.insns
        { (AVRState.new.setReg 25 0x05#8).setReg 25 0x07#8 with pc := 2 } := by
      have first : CodePaths.Path AVRState.pc loadedBefore.Follows loadedBefore.insns
          { AVRState.new.setReg 25 0x05#8 with pc := 1 } :=
        CodePaths.Path.step (@CodePaths.Path.start _ _ _ _ _ AVRState.new rfl) rfl ⟨rfl, nofun⟩
      exact CodePaths.Path.step first rfl ⟨rfl, nofun⟩
    have wrong := holds.there _ path rfl fun insn found => nomatch found
    exact absurd wrong (by decide)

end AsconSuite.Avr
