/-
Module: AsconSuite.Proofs.AvrPaths
Layer: Proofs
Purpose: What an instruction of the AVR leaves as it is, and how the paths through emitted code go: to the next
  instruction, to a label, or behind a branch.
Imports: AsconSuite.Base.CodePaths, AsconSuite.Proofs.AvrMemoryAccess, AsconSuite.Tools.AvrSession
Trusted boundary: none (fully proved)
Main exports: Avr.execInsn_keeps, Avr.Skips, Avr.Marked, Avr.wired
-/
import AsconSuite.Base.CodePaths
import AsconSuite.Proofs.AvrMemoryAccess
import AsconSuite.Tools.AvrSession

namespace AsconSuite.Avr

open ByteWord ByteMemory
open Emit (bind_eq_ok)

variable {code code' : Code} {s s' : AVRState}

/-! ### What an instruction leaves as it is -/

/-- The registers but for some, and the program counter, are as they were. -/
structure Keeps (written : List Nat) (s s' : AVRState) : Prop where
  others : ∀ r, r < 32 → r ∉ written → s'.r r = s.r r
  pc : s'.pc = s.pc

namespace Keeps

theorem refl (written : List Nat) (s : AVRState) : Keeps written s s := ⟨fun _ _ _ => rfl, rfl⟩

theorem trans {written more : List Nat} {s'' : AVRState} (first : Keeps written s s') (second : Keeps more s' s'') :
    Keeps (written ++ more) s s'' where
  others r bound other := by
    rw [List.mem_append, not_or] at other
    rw [second.others r bound other.2, first.others r bound other.1]
  pc := second.pc.trans first.pc

theorem mono {written more : List Nat} (keeps : Keeps written s s') (sub : ∀ r ∈ written, r < 32 → r ∈ more) :
    Keeps more s s' where
  others r bound other := keeps.others r bound fun member => other (sub r member bound)
  pc := keeps.pc

/-- An instruction that changes one register, flags and memory. -/
theorem one {reg : Nat} {b : Byte} (regs : s'.r = (s.setReg reg b).r) (pc : s'.pc = s.pc) : Keeps [reg] s s' where
  others r _ other := by
    rw [regs]
    exact s.setReg_other b fun same => other (List.mem_singleton.2 same)
  pc := pc

/-- An instruction that changes flags and memory. -/
theorem none (regs : s'.r = s.r) (pc : s'.pc = s.pc) : Keeps [] s s' where
  others r _ _ := congrFun regs r
  pc := pc

/-- An instruction that changes two registers side by side. -/
theorem two {reg reg' : Nat} {b b' : Byte} (regs : s'.r = ((s.setReg reg b).setReg reg' b').r) (pc : s'.pc = s.pc) :
    Keeps [reg, reg'] s s' where
  others r _ other := by
    rw [List.mem_cons, List.mem_singleton, not_or] at other
    rw [regs, (s.setReg reg b).setReg_other b' other.2, s.setReg_other b other.1]
  pc := pc

end Keeps

theorem ptr_keeps {p offset address : Nat} (read : s.ptr p offset = .ok (address, s')) : Keeps [p, p + 1] s s' := by
  rw [AVRState.ptr] at read
  split at read
  · split at read
    · cases read
    · cases read
      exact Keeps.two rfl rfl
  · split at read
    · split at read
      · cases read
      · cases read
        exact Keeps.two rfl rfl
    · split at read
      · cases read
      · cases read
        exact Keeps.refl _ _

theorem load_keeps {p offset : Nat} {b : Byte} (read : s.load p offset = .ok (b, s')) : Keeps [p, p + 1] s s' := by
  obtain ⟨⟨address, s₁⟩, found, rest⟩ := bind_eq_ok read
  cases rest
  exact ptr_keeps found

theorem store_keeps {p offset : Nat} {b : Byte} (written : s.store p offset b = .ok s') : Keeps [p, p + 1] s s' := by
  obtain ⟨⟨address, s₁⟩, found, rest⟩ := bind_eq_ok written
  cases rest
  exact ⟨(ptr_keeps found).others, (ptr_keeps found).pc⟩

theorem loadTo_keeps {reg p offset : Nat} (read : s.loadTo reg p offset = .ok s') : Keeps [reg, p, p + 1] s s' := by
  obtain ⟨⟨b, s₁⟩, loaded, rest⟩ := bind_eq_ok read
  cases rest
  refine ((load_keeps loaded).trans (Keeps.one rfl rfl)).mono fun r member _ => ?_
  rcases List.mem_append.1 member with pointer | target
  · exact List.mem_cons_of_mem reg pointer
  · exact List.mem_cons.2 (Or.inl (List.mem_singleton.1 target))

/-- The stack pointer is no register of the AVR. -/
theorem Keeps.withoutStack {written : List Nat} (keeps : Keeps (written ++ [32, 33]) s s') : Keeps written s s' := by
  refine keeps.mono fun r member bound => ?_
  rcases List.mem_append.1 member with member | stack
  · exact member
  · rcases List.mem_cons.1 stack with rfl | stack
    · exact absurd bound (by decide)
    · rw [List.mem_singleton.1 stack] at bound
      exact absurd bound (by decide)

/-- An instruction that runs on to the next one keeps the registers that it does not write. -/
theorem execInsn_keeps {insn : Insn} (plain : insn.type.control = false) (done : execInsn s code insn = .ok s') :
    Keeps insn.writes s s' := by
  obtain ⟨type, reg1, reg2⟩ := insn
  cases type with
  | brcc | brcs | breq | brne | call | cpse | jmp | label | ret => exact nomatch plain
  | adc | add | and | andi | asr | bld | com | dec | eor | inc | ldi | lsl | lsr | mov | neg | or | ori | rol | ror
  | sbc | sub | sbci | subi | swap =>
      cases done
      exact Keeps.one rfl rfl
  | adiw | sbiw | movw =>
      cases done
      exact Keeps.two rfl rfl
  | bst | cp | cpc | cpi | nop | print | printch | println | lpmAdjust =>
      cases done
      exact Keeps.none rfl rfl
  | ldX | ldY | ldZ => exact loadTo_keeps done
  | stX | stY | stZ => exact store_keeps done
  | pop => exact Keeps.withoutStack (loadTo_keeps done)
  | push => exact Keeps.withoutStack (store_keeps done)
  | lpmSbox =>
      obtain ⟨b, looked, rest⟩ := bind_eq_ok done
      cases rest
      exact Keeps.one rfl rfl
  | lpmSwitch =>
      obtain ⟨sbox, found, rest⟩ := bind_eq_ok done
      cases rest
      exact Keeps.two rfl rfl
  | lpmSetup =>
      obtain ⟨sbox, found, rest⟩ := bind_eq_ok done
      have pointer : Keeps [30, 31] s ({ s with sbox := sbox, sboxOffset := 0 }.setPair 30 0xBE00) := Keeps.two rfl rfl
      exact Keeps.withoutStack (pointer.trans (store_keeps rest))
  | lpmClean =>
      obtain ⟨⟨b, s₁⟩, loaded, rest⟩ := bind_eq_ok done
      dsimp only at rest
      split at rest
      · exact nomatch rest
      · cases rest
        exact Keeps.withoutStack (load_keeps loaded)

/-! ### The places of the code -/

/-- A comparison that may skip an instruction stands before a jump. -/
def Skips (insns : List Insn) : Prop :=
  ∀ i insn, insns[i]? = some insn → insn.type = .cpse → ∃ jump, insns[i + 1]? = some jump ∧ jump.type = .jmp

/-- The labels that were set stand where they say. -/
def Marked (labels : List Int) (insns : List Insn) : Prop :=
  ∀ offset : Nat, (offset : Int) ∈ labels → ∃ insn, insns[offset]? = some insn ∧ insn.type = .label

theorem skips_append {insns more : List Insn} (front : Skips insns) (back : Skips more) : Skips (insns ++ more) := by
  intro i insn found skip
  rcases Nat.lt_or_ge i insns.length with inside | behind
  · rw [List.getElem?_append_left inside] at found
    obtain ⟨jump, next, isJump⟩ := front i insn found skip
    exact ⟨jump, by rw [List.getElem?_append_left (List.getElem?_eq_some_iff.1 next).1, next], isJump⟩
  · rw [List.getElem?_append_right behind] at found
    obtain ⟨jump, next, isJump⟩ := back _ insn found skip
    refine ⟨jump, ?_, isJump⟩
    rw [List.getElem?_append_right (Nat.le_succ_of_le behind), Nat.succ_sub behind, next]

theorem skips_single {insn : Insn} (other : insn.type ≠ .cpse) : Skips [insn] := by
  intro i insn' found skip
  cases i with
  | zero =>
      cases found
      exact absurd skip other
  | succ i => exact nomatch found

theorem Marked.append {labels : List Int} {insns : List Insn} (marked : Marked labels insns) (more : List Insn) :
    Marked labels (insns ++ more) := by
  intro offset member
  obtain ⟨insn, found, isLabel⟩ := marked offset member
  exact ⟨insn, by rw [List.getElem?_append_left (List.getElem?_eq_some_iff.1 found).1, found], isLabel⟩

theorem getLabel_mem {ref offset : Nat} (found : code.getLabel ref = .ok offset) : (offset : Int) ∈ code.labels := by
  rw [Code.getLabel] at found
  split at found
  · exact nomatch found
  · rename_i valid
    have inside : ref - 1 < code.labels.length := by omega
    have member : code.labels[ref - 1] ∈ code.labels := List.getElem_mem inside
    rw [List.getD_eq_getElem _ _ inside] at found
    revert found member
    cases code.labels[ref - 1] with
    | ofNat i =>
        intro found member
        cases found
        exact member
    | negSucc i => exact fun found => nomatch found

theorem goto_pc {ref : Nat} (went : s.goto code ref = .ok s') : (s'.pc : Int) ∈ code.labels := by
  obtain ⟨offset, found, rest⟩ := bind_eq_ok went
  cases rest
  exact getLabel_mem found

/-- A branch goes on, or to a label. -/
theorem branch_pc {taken : Bool} {ref : Nat} (went : (if taken then s.goto code ref else return s) = .ok s') :
    s'.pc = s.pc ∨ (s'.pc : Int) ∈ code.labels := by
  cases taken with
  | false =>
      cases went
      exact Or.inl rfl
  | true => exact Or.inr (goto_pc went)

/-- An instruction that does not run on goes behind itself, behind a jump, behind a call, or to a label. -/
theorem execInsn_leads {insn : Insn} (control : insn.type.control = true) (done : execInsn s code insn = .ok s') :
    s'.pc = s.pc ∨ (insn.type = .cpse ∧ s'.pc = s.pc + 1) ∨ insn.type = .ret ∨ (s'.pc : Int) ∈ code.labels := by
  obtain ⟨type, reg1, reg2⟩ := insn
  cases type
  case brcc | brcs | breq | brne =>
    rcases branch_pc done with same | label
    · exact Or.inl same
    · exact Or.inr (Or.inr (Or.inr label))
  case jmp => exact Or.inr (Or.inr (Or.inr (goto_pc done)))
  case call =>
    obtain ⟨s₁, pushed, went⟩ := bind_eq_ok done
    exact Or.inr (Or.inr (Or.inr (goto_pc went)))
  case ret => exact Or.inr (Or.inr (Or.inl rfl))
  case label =>
    cases done
    exact Or.inl rfl
  case cpse =>
    have skipped : (if s.r reg1 = s.r reg2 then { s with pc := s.pc + 1 } else s) = s' := Except.ok.inj done
    split at skipped
    · exact Or.inr (Or.inl ⟨rfl, skipped ▸ rfl⟩)
    · exact Or.inl (skipped ▸ rfl)
  all_goals exact nomatch control

/-- Where every jump leads: straight pieces of code are entered at their beginning, or at a label. -/
theorem wired (skips : Skips code.insns) (marked : Marked code.labels code.insns) :
    CodePaths.Wired AVRState.pc code.Follows code.insns (fun insn => insn.type.control = false)
      (fun insn => insn.type = .label) where
  apart insn isLabel := by
    rw [isLabel]
    decide
  next s s' insn _ plain done := (execInsn_keeps plain done.1).pc
  leads s s' insn here control done := by
    rw [Bool.not_eq_false] at control
    rcases execInsn_leads control done.1 with same | ⟨skip, next⟩ | isRet | label
    · refine Or.inl ⟨s.pc, insn, same, here, ?_⟩
      rw [control]
      decide
    · obtain ⟨jump, there, isJump⟩ := skips s.pc insn here skip
      refine Or.inl ⟨s.pc + 1, jump, next, there, ?_⟩
      rw [isJump]
      decide
    · obtain ⟨i, call, back, there, isCall⟩ := done.2 isRet
      refine Or.inl ⟨i, call, back, there, ?_⟩
      rw [isCall]
      decide
    · exact Or.inr (marked _ label)

end AsconSuite.Avr
