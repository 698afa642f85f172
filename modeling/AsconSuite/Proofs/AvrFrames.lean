/-
Module: AsconSuite.Proofs.AvrFrames
Layer: Proofs
Purpose: What moves and rotations leave: the Z pointer, and memory but for a few bytes below the stack pointer. A second
  machine for the builder watches the registers that are written and counts what is pushed.
Imports: AsconSuite.Proofs.AvrBitRotations
Trusted boundary: none (fully proved)
Main exports: Avr.watcher, Avr.BelowZ, Avr.Calm, Avr.wp_calm, Avr.calm_move, Avr.calm_ror
-/
import AsconSuite.Proofs.AvrBitRotations

namespace AsconSuite.Avr

open ByteWord ByteMemory
open Emit (Target)
open Emit.Target

variable {code code' : Code} {s s' : AVRState}

/-! ### The machine that watches -/

/-- The instruction writes its first register, or it writes to the stack. -/
def InsnType.calm : InsnType → Bool
  | .mov | .movw | .ldi | .lsl | .lsr | .rol | .ror | .adc | .or | .eor | .swap | .bst | .bld | .push | .pop => true
  | _ => false

/-- Only registers below Z are written. -/
def Insn.belowZ (insn : Insn) : Prop :=
  insn.type.calm = true ∧ insn.reg1 < 30 ∧ (insn.type = .movw → insn.reg1 % 2 = 0)

instance (insn : Insn) : Decidable insn.belowZ := inferInstanceAs (Decidable (_ ∧ _ ∧ _))

/-- A machine that counts the bytes that are pushed, and that knows no other instructions. -/
def watcher : Target Code Insn Nat String where
  code := Code.insns
  step := fun count insn =>
    if insn.belowZ then .ok (if insn.type = .push then count + 1 else count) else .error "not a register below Z"

/-- Z is left, and so is memory but for the bytes that were pushed below the stack pointer. -/
structure BelowZ (count : Nat) (s s' : AVRState) : Prop where
  low : s'.r 30 = s.r 30
  high : s'.r 31 = s.r 31
  stack : s.pair 32 ≤ s'.pair 32 + count
  memory : ∀ a, a + count < s.pair 32 → s'.memory a = s.memory a

theorem BelowZ.refl (s : AVRState) : BelowZ 0 s s := ⟨rfl, rfl, Nat.le_add_right _ 0, fun _ _ => rfl⟩

theorem BelowZ.trans {count more : Nat} {s'' : AVRState} (first : BelowZ count s s') (second : BelowZ more s' s'') :
    BelowZ (count + more) s s'' where
  low := second.low.trans first.low
  high := second.high.trans first.high
  stack := by
    have less := first.stack
    have less' := second.stack
    omega
  memory := by
    intro a below
    have less := first.stack
    rw [second.memory a (by omega), first.memory a (by omega)]

theorem BelowZ.mono {count more : Nat} (below : BelowZ count s s') (le : count ≤ more) : BelowZ more s s' where
  low := below.low
  high := below.high
  stack := Nat.le_trans below.stack (Nat.add_le_add_left le _)
  memory := fun a lt => below.memory a (Nat.lt_of_le_of_lt (Nat.add_le_add_left le a) lt)

theorem BelowZ.pair {count : Nat} (below : BelowZ count s s') : s'.pair 30 = s.pair 30 := by
  rw [AVRState.pair, AVRState.pair, below.low, below.high]

/-- Registers below Z were written, and nothing else. -/
theorem belowZ_of_regs (others : ∀ r, 30 ≤ r → s'.r r = s.r r) (memory : s'.memory = s.memory) : BelowZ 0 s s' where
  low := others 30 (Nat.le_refl 30)
  high := others 31 (by decide)
  stack := by
    have same : s'.pair 32 = s.pair 32 := by
      rw [AVRState.pair, AVRState.pair, others 32 (by decide), others (32 + 1) (by decide)]
    rw [same]
    exact Nat.le_add_right _ 0
  memory := fun a _ => congrFun memory a

theorem belowZ_setReg {reg : Nat} {b : Byte} (lower : reg < 30) (regs : s'.r = (s.setReg reg b).r)
    (memory : s'.memory = s.memory) : BelowZ 0 s s' :=
  belowZ_of_regs (fun r ge => by rw [regs, s.setReg_other b (by omega)]) memory

/-- One instruction. -/
theorem belowZ_step {insn : Insn} {count count' : Nat} (stepped : stepInsn s insn = .ok s')
    (watched : watcher.step count insn = .ok count') :
    ∃ pushed, count' = count + pushed ∧ BelowZ pushed s s' := by
  obtain ⟨type, reg1, reg2⟩ := insn
  dsimp only [watcher] at watched
  split at watched
  case isFalse => cases watched
  case isTrue calm =>
    obtain ⟨isCalm, lower, even⟩ := calm
    dsimp only at isCalm lower even
    rw [stepInsn, if_pos (stepInsn_eq_ok stepped)] at stepped
    cases type with
    | mov | ldi | lsl | lsr | rol | ror | adc | or | eor | swap | bld =>
        cases watched
        cases stepped
        exact ⟨0, rfl, belowZ_setReg lower rfl rfl⟩
    | bst =>
        cases watched
        cases stepped
        exact ⟨0, rfl, belowZ_of_regs (fun _ _ => rfl) rfl⟩
    | movw =>
        cases watched
        cases stepped
        have isEven : reg1 % 2 = 0 := even rfl
        refine ⟨0, rfl, belowZ_of_regs (fun r ge => ?_) rfl⟩
        have notLow : r ≠ reg1 := by omega
        have notHigh : r ≠ reg1 + 1 := by omega
        exact (AVRState.setReg_other _ _ notHigh).trans (AVRState.setReg_other _ _ notLow)
    | push =>
        cases watched
        dsimp only [execInsn] at stepped
        rw [AVRState.store, AVRState.ptr] at stepped
        dsimp only at stepped
        rw [if_pos rfl] at stepped
        split at stepped
        case isTrue => cases stepped
        case isFalse inside =>
          cases stepped
          obtain ⟨some_byte, le⟩ := not_or.1 inside
          rw [memSize] at le
          have small : s.pair 32 - 1 < 65536 := by omega
          refine ⟨1, rfl, ?_, ?_, ?_, ?_⟩
          · exact setPair_other s (s.pair 32 - 1) (r := 30) (by decide) (by decide)
          · exact setPair_other s (s.pair 32 - 1) (r := 31) (by decide) (by decide)
          · show s.pair 32 ≤ (s.setPair 32 (s.pair 32 - 1)).pair 32 + 1
            rw [pair_setPair s small]
            omega
          · intro a below
            exact if_neg (by omega)
    | pop =>
        cases watched
        dsimp only [execInsn] at stepped
        rw [AVRState.loadTo, AVRState.load, AVRState.ptr] at stepped
        dsimp only at stepped
        rw [if_neg (by decide), if_pos rfl] at stepped
        split at stepped
        case isTrue => cases stepped
        case isFalse inside =>
          cases stepped
          rw [memSize] at inside
          have small : s.pair 32 + 1 < 65536 := by omega
          -- The byte that was popped is none of the registers from `r30` on.
          obtain ⟨b, popped⟩ : ∃ b, b = s.memory (s.pair 32) := ⟨_, rfl⟩
          have others (r : Nat) (ge : 30 ≤ r) :
              ((s.setPair 32 (s.pair 32 + 1)).setReg reg1 b).r r = (s.setPair 32 (s.pair 32 + 1)).r r :=
            AVRState.setReg_other _ _ (by omega)
          have pointer : ((s.setPair 32 (s.pair 32 + 1)).setReg reg1 b).pair 32 = s.pair 32 + 1 := by
            rw [AVRState.pair, others 32 (by decide), others (32 + 1) (by decide), ← AVRState.pair, pair_setPair s small]
          rw [popped] at others pointer
          refine ⟨0, rfl, ?_, ?_, ?_, fun _ _ => rfl⟩
          · exact (others 30 (by decide)).trans (setPair_other s _ (by decide) (by decide))
          · exact (others 31 (by decide)).trans (setPair_other s _ (by decide) (by decide))
          · show s.pair 32 ≤ ((s.setPair 32 (s.pair 32 + 1)).setReg reg1 (s.memory (s.pair 32))).pair 32 + 0
            rw [pointer]
            exact Nat.le_succ _
    | _ => exact absurd isCalm (by decide)

/-- A run of instructions that the watching machine knows. -/
theorem belowZ_run {seg : List Insn} {count count' : Nat} (reached : target.run seg s = .ok s')
    (watched : watcher.run seg count = .ok count') : ∃ pushed, count' = count + pushed ∧ BelowZ pushed s s' := by
  induction seg generalizing s count with
  | nil =>
      cases reached
      cases watched
      exact ⟨0, rfl, BelowZ.refl _⟩
  | cons insn rest ih =>
      rw [run] at reached watched
      obtain ⟨s₁, stepped, reached⟩ := Emit.bind_eq_ok reached
      obtain ⟨count₁, watchedOne, watched⟩ := Emit.bind_eq_ok watched
      obtain ⟨pushed, rfl, first⟩ := belowZ_step stepped watchedOne
      obtain ⟨more, rfl, second⟩ := ih reached watched
      exact ⟨pushed + more, Nat.add_assoc _ _ _, first.trans second⟩

/-! ### Instructions that are made -/

theorem ofReg1_eq_ok {type : InsnType} {reg : Nat} {insn : Insn} (made : Insn.ofReg1 type reg = .ok insn) :
    insn = ⟨type, reg, 0⟩ := by
  rw [Insn.ofReg1] at made
  split at made
  next => cases made
  next =>
    cases made
    rfl

theorem ofReg2_eq_ok {type : InsnType} {reg1 reg2 : Nat} {insn : Insn} (made : Insn.ofReg2 type reg1 reg2 = .ok insn) :
    insn = ⟨type, reg1, reg2⟩ ∧ (type = .movw → reg1 % 2 = 0) := by
  rw [Insn.ofReg2] at made
  split at made
  next => cases made
  next =>
    split at made
    next => cases made
    next even =>
      cases made
      exact ⟨rfl, fun isMovw => not_not.1 fun odd => even ⟨isMovw, Or.inl odd⟩⟩

theorem ofImm_eq_ok {type : InsnType} {reg value : Nat} {insn : Insn} (made : Insn.ofImm type reg value = .ok insn) :
    insn = ⟨type, reg, value⟩ := by
  rw [Insn.ofImm] at made
  split at made
  next => cases made
  next =>
    split at made
    next => cases made
    next =>
      cases made
      rfl

/-! ### Builders that keep calm -/

/-- Only registers below Z may be allocated. -/
def LowPool (code : Code) : Prop := ∀ r ∈ code.regOrder, r < 30

variable {α β κ : Type}

/-- Whatever is emitted writes registers below Z only and pushes at most `count` bytes, and the result is as it must
be. -/
def Calm (m : Build α) (count : Nat) (R : α → Prop) : Prop :=
  ∀ code n, LowPool code → watcher.wp m (fun a code' n' => n' ≤ n + count ∧ LowPool code' ∧ R a) code n

namespace Calm

variable {m : Build α} {count : Nat} {R : α → Prop}

theorem mono {more : Nat} {R' : α → Prop} (calm : Calm m count R) (le : count ≤ more) (weaker : ∀ a, R a → R' a) :
    Calm m more R' := fun code n pool => wp_mono (calm code n pool) fun a _ _ ⟨few, pool', holds⟩ =>
  ⟨Nat.le_trans few (Nat.add_le_add_left le n), pool', weaker a holds⟩

theorem pure {a : α} (holds : R a) : Calm (pure a) 0 R := fun _ n pool => wp_pure ⟨Nat.le_add_right n 0, pool, holds⟩

theorem bind {f : α → Build β} {more : Nat} {R' : β → Prop} (first : Calm m count R)
    (second : ∀ a, R a → Calm (f a) more R') : Calm (m >>= f) (count + more) R' := by
  intro code n pool
  refine wp_bind (wp_mono (first code n pool) fun a code₁ n₁ ⟨few, pool₁, holds⟩ => ?_)
  refine wp_mono (second a holds code₁ n₁ pool₁) fun b code₂ n₂ ⟨few', pool₂, holds'⟩ => ⟨?_, pool₂, holds'⟩
  omega

/-- Calls that push nothing. -/
theorem andThen {f : α → Build β} {R' : β → Prop} (first : Calm m 0 R) (second : ∀ a, R a → Calm (f a) count R') :
    Calm (m >>= f) count R' := (Nat.zero_add count) ▸ first.bind second

/-- Calls that push nothing, behind others. -/
theorem before {f : α → Build β} {R' : β → Prop} (first : Calm m count R) (second : ∀ a, R a → Calm (f a) 0 R') :
    Calm (m >>= f) count R' := first.bind second

theorem ite {c : Prop} [Decidable c] {m' : Build α} (first : c → Calm m count R) (second : ¬c → Calm m' count R) :
    Calm (if c then m else m') count R := fun code n pool =>
  wp_ite (fun holds => first holds code n pool) fun fails => second fails code n pool

theorem throw {e : String} : Calm (throw e) count R := fun _ _ _ => wp_throw

theorem get : Calm (get : Build Code) 0 LowPool := fun _ n pool => wp_get ⟨Nat.le_add_right n 0, pool, pool⟩

/-- A change of the builder that emits nothing and keeps the order of the registers. -/
theorem modify {f : Code → Code} (insns : ∀ code, (f code).insns = code.insns)
    (order : ∀ code, (f code).regOrder = code.regOrder) : Calm (modify f) 0 fun _ => True := by
  intro code n pool
  refine wp_modify (insns code) ⟨Nat.le_add_right n 0, fun r member => pool r ?_, trivial⟩
  rw [← order code]
  exact member

theorem forM {l : List κ} {f : κ → Build PUnit} (each : ∀ x ∈ l, Calm (f x) count fun _ => True) :
    Calm (l.forM f) (l.length * count) fun _ => True := by
  induction l with
  | nil => exact (pure trivial).mono (Nat.zero_le _) fun _ => id
  | cons x rest ih =>
      have turns : (x :: rest).length * count = count + rest.length * count := by
        rw [List.length_cons, Nat.succ_mul, Nat.add_comm]
      rw [turns]
      exact (each x List.mem_cons_self).bind fun _ _ => ih fun y member => each y (List.mem_cons_of_mem x member)

/-- A loop that pushes nothing. -/
theorem forM_zero {l : List κ} {f : κ → Build PUnit} (each : ∀ x ∈ l, Calm (f x) 0 fun _ => True) :
    Calm (l.forM f) 0 fun _ => True := forM each

/-! ### Single instructions -/

theorem pushChecked {insn : Except String Insn} (known : ∀ i, insn = .ok i → i.belowZ) (few : ∀ i, insn = .ok i →
    i.type = .push → 1 ≤ count) : Calm (pushChecked insn) count fun _ => True := by
  intro code n pool
  refine wp_bind (wp_lift fun i made => wp_emit rfl (if_pos (known i made)) ⟨?_, pool, trivial⟩)
  split
  next isPush => exact Nat.add_le_add_left (few i made isPush) n
  next => exact Nat.le_add_right n count

theorem tworeg {type : InsnType} {reg1 reg2 : Nat} (isCalm : type.calm = true) (notPush : type ≠ .push)
    (lower : reg1 < 30) : Calm (tworeg type reg1 reg2) 0 fun _ => True := by
  refine pushChecked (fun i made => ?_) fun i made isPush => ?_
  · obtain ⟨rfl, even⟩ := ofReg2_eq_ok made
    exact ⟨isCalm, lower, even⟩
  · obtain ⟨rfl, -⟩ := ofReg2_eq_ok made
    exact absurd isPush notPush

theorem onereg {type : InsnType} {reg : Nat} (isCalm : type.calm = true) (lower : reg < 30)
    (few : type = .push → 1 ≤ count) (notMovw : type ≠ .movw) : Calm (onereg type reg) count fun _ => True := by
  refine pushChecked (fun i made => ?_) fun i made isPush => ?_
  · rw [ofReg1_eq_ok made]
    exact ⟨isCalm, lower, fun isMovw => absurd isMovw notMovw⟩
  · rw [ofReg1_eq_ok made] at isPush
    exact few isPush

theorem immreg {type : InsnType} {reg value : Nat} (isCalm : type.calm = true) (lower : reg < 30)
    (notPush : type ≠ .push) (notMovw : type ≠ .movw) : Calm (immreg type reg value) 0 fun _ => True := by
  refine pushChecked (fun i made => ?_) fun i made isPush => ?_
  · rw [ofImm_eq_ok made]
    exact ⟨isCalm, lower, fun isMovw => absurd isMovw notMovw⟩
  · rw [ofImm_eq_ok made] at isPush
    exact absurd isPush notPush

end Calm

/-! ### Allocation -/

/-- Registers below Z. -/
def Low (reg : List Nat) : Prop := ∀ r ∈ reg, r < 30

theorem Low.reg {reg : Reg} (low : Low reg) (i : Nat) : reg.reg i < 30 := by
  rw [Reg.reg]
  rcases Nat.lt_or_ge i reg.length with inside | outside
  · rw [List.getD_eq_getElem _ _ inside]
    exact low _ (List.getElem_mem inside)
  · rw [List.getD_eq_default _ _ outside]
    decide

theorem Low.append {reg more : List Nat} (low : Low reg) (low' : Low more) : Low (reg ++ more) := fun r member =>
  (List.mem_append.1 member).elim (low r) (low' r)

theorem calm_allocateSpare (high : Bool) : Calm (allocateSpare high) 0 fun reg => Low reg.toList := by
  intro code n pool
  refine wp_bind (wp_get ?_)
  split
  next => exact wp_pure ⟨Nat.le_add_right n 0, pool, fun _ member => absurd member List.not_mem_nil⟩
  next reg place =>
    refine wp_bind (wp_set rfl (wp_pure ⟨Nat.le_add_right n 0, pool, fun r member => ?_⟩))
    rw [List.mem_singleton.1 member]
    exact pool reg (List.mem_of_find?_eq_some place)

theorem calm_allocateSparePair (high : Bool) :
    Calm (allocateSparePair high) 0 fun reg => ∀ r ∈ reg.toList, Low [r, r + 1] := by
  intro code n pool
  refine wp_bind (wp_get ?_)
  dsimp only
  split
  next => exact wp_pure ⟨Nat.le_add_right n 0, pool, fun _ member => absurd member List.not_mem_nil⟩
  next reg1 reg2 place =>
    have inOrder := List.of_mem_zip (List.mem_of_find?_eq_some place)
    have free := List.find?_some place
    simp only [Bool.and_eq_true, beq_iff_eq] at free
    obtain ⟨⟨⟨⟨-, rfl⟩, -⟩, -⟩, -⟩ := free
    refine wp_bind (wp_set rfl (wp_pure ⟨Nat.le_add_right n 0, pool, fun r member => ?_⟩))
    rw [List.mem_singleton.1 member]
    intro r' pair
    rcases List.mem_cons.1 pair with rfl | last
    · exact pool r' inOrder.1
    · exact List.mem_singleton.1 last ▸ pool _ (List.mem_of_mem_tail inOrder.2)

theorem calm_allocateRegLoop (high optional : Bool) (turns size : Nat) {result : Reg} (low : Low result) :
    Calm (allocateRegLoop high optional turns size result) 0 Low := by
  induction turns generalizing size result with
  | zero => exact Calm.pure low
  | succ turns ih =>
      have single (size : Nat) {rest : Option Nat → Build Reg}
          (last : rest none = if optional then return result else throw "too many registers in use")
          (another : ∀ reg, rest (some reg) = allocateRegLoop high optional turns size (result ++ [reg])) :
          Calm (allocateSpare high >>= rest) 0 Low := by
        refine (calm_allocateSpare high).andThen fun reg found => ?_
        cases reg with
        | none =>
            rw [last]
            exact Calm.ite (fun _ => Calm.pure low) fun _ => Calm.throw
        | some reg =>
            rw [another]
            exact ih size (low.append found)
      rw [allocateRegLoop]
      refine Calm.ite (fun _ => Calm.pure low) fun _ => ?_
      refine Calm.ite (fun _ => ?_) fun _ => ?_
      · refine (calm_allocateSparePair high).andThen fun reg found => ?_
        cases reg with
        | none => exact single (size - 1) rfl fun _ => rfl
        | some reg => exact ih (size - 2) (low.append (found reg List.mem_cons_self))
      · have none : Calm (pure none : Build (Option Nat)) 0 fun reg => reg = none := Calm.pure rfl
        refine none.andThen fun reg isNone => ?_
        subst isNone
        exact single (size - 1) rfl fun _ => rfl

theorem calm_releaseReg (reg : Reg) : Calm (releaseReg reg) 0 fun _ => True :=
  Calm.modify (fun _ => rfl) fun _ => rfl

theorem calm_haveTempreg : Calm haveTempreg 0 fun _ => True := by
  refine Calm.get.andThen fun code _ => Calm.ite (fun _ => Calm.pure trivial) fun _ => ?_
  refine (calm_allocateRegLoop false true 1 1 fun _ member => absurd member List.not_mem_nil).andThen fun reg _ => ?_
  exact (calm_releaseReg reg).andThen fun _ _ => Calm.pure trivial

theorem calm_tempreg : Calm tempreg 0 fun r => r < 30 := by
  refine Calm.get.andThen fun code _ => Calm.ite (fun _ => Calm.pure (by decide)) fun _ => ?_
  refine (calm_allocateRegLoop false false 1 1 fun _ member => absurd member List.not_mem_nil).andThen fun reg low => ?_
  exact (calm_releaseReg reg).andThen fun _ _ => Calm.pure (low.reg 0)

/-! ### Rotations by bytes -/

theorem calm_saveByte {temp : Option Nat} (reg : Nat) (low : Low temp.toList) (lower : reg < 30) :
    Calm (saveByte temp reg) 1 fun _ => True := by
  cases temp with
  | none => exact Calm.onereg rfl lower (fun _ => Nat.le_refl 1) (by decide)
  | some temp =>
      have lowTemp : temp < 30 := low temp List.mem_cons_self
      exact (Calm.tworeg rfl (by decide) lowTemp).mono (Nat.zero_le 1) fun _ => id

theorem calm_restoreByte (temp : Option Nat) {reg : Nat} (lower : reg < 30) :
    Calm (restoreByte temp reg) 0 fun _ => True := by
  cases temp with
  | none => exact Calm.onereg rfl lower (fun isPush => absurd isPush (by decide)) (by decide)
  | some temp => exact Calm.tworeg rfl (by decide) lower

theorem calm_rotationTemps (count : Nat) : Calm (rotationTemps count) 0 Low := by
  have none : Low [] := fun _ member => absurd member List.not_mem_nil
  refine Calm.get.andThen fun code _ => Calm.ite (fun _ => ?_) fun _ => calm_allocateRegLoop false true _ _ none
  refine (calm_allocateRegLoop false true _ _ none).andThen fun temp low => Calm.pure (low.append fun r member => ?_)
  rw [List.mem_singleton.1 member]
  decide

theorem calm_stripTemp : Calm stripTemp 0 fun temp => Low temp.toList := by
  refine calm_haveTempreg.andThen fun found _ => Calm.ite (fun _ => ?_) fun _ => ?_
  · refine calm_tempreg.andThen fun temp lower => Calm.pure fun r member => ?_
    rw [List.mem_singleton.1 member]
    exact lower
  · exact Calm.pure fun _ member => absurd member List.not_mem_nil

/-- One of several temporary registers, if there are as many. -/
theorem low_getElem? {temps : Reg} (low : Low temps) (i : Nat) : Low temps[i]?.toList := by
  intro r member
  rw [Option.mem_toList] at member
  exact low r (List.mem_of_getElem? member)

theorem calm_mov {reg1 : Nat} (reg2 : Nat) (lower : reg1 < 30) : Calm (tworeg .mov reg1 reg2) 0 fun _ => True :=
  Calm.tworeg rfl (by decide) lower

/-- Some bytes are saved, others are moved, and the saved ones are restored. -/
theorem calm_turn {saved moved restored : List Nat} {temp temp' : Nat → Option Nat} {kept moves source dest : Nat → Nat}
    {rest : Build Unit} (low : ∀ i ∈ saved, Low (temp i).toList) (lowKept : ∀ i ∈ saved, kept i < 30)
    (lowMoves : ∀ i ∈ moved, moves i < 30) (lowDest : ∀ i ∈ restored, dest i < 30) (calm : Calm rest 0 fun _ => True) :
    Calm (do
      saved.forM fun i => saveByte (temp i) (kept i)
      moved.forM fun i => tworeg .mov (moves i) (source i)
      restored.forM fun i => restoreByte (temp' i) (dest i)
      rest) saved.length fun _ => True := by
  have saves : Calm (saved.forM fun i => saveByte (temp i) (kept i)) saved.length fun _ => True :=
    (Calm.forM fun i member => calm_saveByte (kept i) (low i member) (lowKept i member)).mono
      (Nat.le_of_eq (Nat.mul_one _)) fun _ => id
  refine saves.before fun _ _ => ?_
  refine (Calm.forM_zero fun i member => calm_mov _ (lowMoves i member)).andThen fun _ _ => ?_
  exact (Calm.forM_zero fun i member => calm_restoreByte _ (lowDest i member)).andThen fun _ _ => calm

theorem calm_rolBytesHalf {reg : Reg} {count : Nat} (low : Low reg) : Calm (rolBytesHalf reg count) count fun _ => True := by
  refine Calm.ite (fun _ => ?_) fun _ => ?_
  · refine calm_stripTemp.andThen fun temp lowTemp => ?_
    have strips : Calm ((List.range count).forM fun strip => do
        saveByte temp (reg.reg ((strip + (reg.size / count - 1) * count) % reg.size))
        (List.range (reg.size / count - 1)).reverse.forM fun posn =>
          tworeg .mov (reg.reg ((strip + (posn + 1) * count) % reg.size)) (reg.reg ((strip + posn * count) % reg.size))
        restoreByte temp (reg.reg strip)) ((List.range count).length * 1) fun _ => True := by
      refine Calm.forM fun strip _ => ?_
      refine (calm_saveByte _ lowTemp (low.reg _)).before fun _ _ => ?_
      refine (Calm.forM_zero fun posn _ => calm_mov _ (low.reg _)).andThen fun _ _ => ?_
      exact calm_restoreByte _ (low.reg _)
    refine strips.mono ?_ fun _ => id
    rw [List.length_range, Nat.mul_one]
  · refine (calm_rotationTemps count).andThen fun temps lowTemps => ?_
    refine (calm_turn (fun i _ => low_getElem? lowTemps i) (fun i _ => low.reg _) (fun i _ => low.reg _)
      (fun i _ => low.reg _) (calm_releaseReg temps)).mono ?_ fun _ => id
    rw [List.length_range]

theorem calm_rorBytesHalf {reg : Reg} {count : Nat} (low : Low reg) : Calm (rorBytesHalf reg count) count fun _ => True := by
  refine Calm.ite (fun _ => ?_) fun _ => ?_
  · refine calm_stripTemp.andThen fun temp lowTemp => ?_
    have strips : Calm ((List.range count).forM fun strip => do
        saveByte temp (reg.reg strip)
        (List.range (reg.size / count - 1)).forM fun posn =>
          tworeg .mov (reg.reg ((strip + posn * count) % reg.size)) (reg.reg ((strip + (posn + 1) * count) % reg.size))
        restoreByte temp (reg.reg ((strip + (reg.size / count - 1) * count) % reg.size)))
        ((List.range count).length * 1) fun _ => True := by
      refine Calm.forM fun strip _ => ?_
      refine (calm_saveByte _ lowTemp (low.reg _)).before fun _ _ => ?_
      refine (Calm.forM_zero fun posn _ => calm_mov _ (low.reg _)).andThen fun _ _ => ?_
      exact calm_restoreByte _ (low.reg _)
    refine strips.mono ?_ fun _ => id
    rw [List.length_range, Nat.mul_one]
  · refine (calm_rotationTemps count).andThen fun temps lowTemps => ?_
    refine (calm_turn (fun i _ => low_getElem? lowTemps i) (fun i _ => low.reg _) (fun i _ => low.reg _)
      (fun i _ => low.reg _) (calm_releaseReg temps)).mono ?_ fun _ => id
    rw [List.length_range]

theorem calm_rorBytes {reg : Reg} {count : Nat} (low : Low reg) : Calm (rorBytes reg count) reg.length fun _ => True := by
  have none : Calm (return : Build Unit) reg.length fun _ => True :=
    (Calm.pure trivial).mono (Nat.zero_le _) fun _ => id
  refine Calm.ite (fun _ => none) fun some_byte => Calm.ite (fun _ => none) fun _ => Calm.ite (fun _ => ?_) fun _ => ?_
  · exact (calm_rolBytesHalf low).mono (Nat.sub_le _ _) fun _ => id
  · exact (calm_rorBytesHalf low).mono (Nat.le_of_lt (Nat.mod_lt _ (Nat.pos_of_ne_zero some_byte))) fun _ => id

/-! ### Rotations by bits -/

theorem calm_oneregs {type : InsnType} {reg : Reg} (isCalm : type.calm = true) (notPush : type ≠ .push)
    (notMovw : type ≠ .movw) (low : Low reg) : Calm (reg.forM (onereg type)) 0 fun _ => True :=
  Calm.forM_zero fun r member => Calm.onereg isCalm (low r member) (fun isPush => absurd isPush notPush) notMovw

theorem calm_shiftLeft {reg : Reg} (low : Low reg) : Calm (shiftLeft reg) 0 fun _ => True := by
  cases reg with
  | nil => exact Calm.pure trivial
  | cons r rest =>
      refine (Calm.onereg rfl (low r List.mem_cons_self) (fun isPush => absurd isPush (by decide)) (by decide)).andThen
        fun _ _ => ?_
      exact calm_oneregs rfl (by decide) (by decide) fun r' member => low r' (List.mem_cons_of_mem r member)

theorem calm_shiftRight {reg : Reg} (low : Low reg) : Calm (shiftRight reg) 0 fun _ => True := by
  have lowBack : Low reg.reversed := fun r member => low r (List.mem_reverse.1 member)
  rw [shiftRight]
  split
  next => exact Calm.pure trivial
  next high rest parts =>
    rw [parts] at lowBack
    refine (Calm.onereg rfl (lowBack high List.mem_cons_self) (fun isPush => absurd isPush (by decide))
      (by decide)).andThen fun _ _ => ?_
    exact calm_oneregs rfl (by decide) (by decide) fun r' member => lowBack r' (List.mem_cons_of_mem high member)

theorem calm_rolBit {reg : Reg} (low : Low reg) : Calm (rolBit reg) 0 fun _ => True := by
  refine Calm.get.andThen fun code _ => Calm.ite (fun _ => ?_) fun _ => ?_
  · exact (calm_shiftLeft low).andThen fun _ _ => Calm.tworeg rfl (by decide) (low.reg 0)
  · refine (Calm.tworeg rfl (by decide) (low.reg _)).andThen fun _ _ => (calm_shiftLeft low).andThen fun _ _ => ?_
    exact Calm.tworeg rfl (by decide) (low.reg 0)

theorem calm_rorBit {reg : Reg} (low : Low reg) : Calm (rorBit reg) 0 fun _ => True := by
  refine (Calm.tworeg rfl (by decide) (low.reg 0)).andThen fun _ _ => (calm_shiftRight low).andThen fun _ _ => ?_
  exact Calm.tworeg rfl (by decide) (low.reg _)

theorem calm_rolBits {reg : Reg} (low : Low reg) (bits : Nat) : Calm (rolBits reg bits) 0 fun _ => True := by
  induction bits with
  | zero => exact Calm.pure trivial
  | succ bits ih => exact (calm_rolBit low).andThen fun _ _ => ih

theorem calm_rorBitByBit {reg : Reg} (low : Low reg) (bits : Nat) : Calm (rorBitByBit reg bits) 0 fun _ => True := by
  induction bits with
  | zero => exact Calm.pure trivial
  | succ bits ih => exact (calm_rorBit low).andThen fun _ _ => ih

theorem calm_rorInto {reg : Reg} (low : Low reg) {temp : Nat} (lower : temp < 30) (bits : Nat) :
    Calm (rorInto reg temp bits) 0 fun _ => True := by
  induction bits with
  | zero => exact Calm.pure trivial
  | succ bits ih =>
      refine (calm_shiftRight low).andThen fun _ _ => ?_
      exact (Calm.onereg rfl lower (fun isPush => absurd isPush (by decide)) (by decide)).andThen fun _ _ => ih

theorem calm_zeroreg {reg : Nat} (lower : reg < 30) : Calm (zeroreg reg) 0 fun _ => True := by
  refine Calm.get.andThen fun code _ => Calm.ite (fun _ => calm_mov _ lower) fun _ => Calm.ite (fun _ => ?_) fun _ => ?_
  · exact Calm.immreg rfl lower (by decide) (by decide)
  · exact Calm.tworeg rfl (by decide) lower

theorem calm_rorBits {reg : Reg} (low : Low reg) (bits : Nat) : Calm (rorBits reg bits) 0 fun _ => True := by
  refine calm_haveTempreg.andThen fun found _ => Calm.ite (fun _ => ?_) fun _ => calm_rorBitByBit low bits
  refine calm_tempreg.andThen fun temp lower => (calm_zeroreg lower).andThen fun _ _ => ?_
  exact (calm_rorInto low lower bits).andThen fun _ _ => Calm.tworeg rfl (by decide) (low.reg _)

theorem calm_swap {reg : Nat} (lower : reg < 30) : Calm (onereg .swap reg) 0 fun _ => True :=
  Calm.onereg rfl lower (fun isPush => absurd isPush (by decide)) (by decide)

theorem calm_rolFew {reg : Reg} (low : Low reg) (bits : Nat) : Calm (rolFew reg bits) 0 fun _ => True :=
  Calm.ite (fun _ => Calm.pure trivial) fun _ => Calm.ite (fun _ => calm_rolBit low) fun _ =>
    Calm.ite (fun _ => calm_swap (low.reg 0)) fun _ => calm_rolBits low bits

/-- A rotation pushes at most as many bytes as it rotates. -/
theorem calm_ror {reg : Reg} (low : Low reg) (bits : Nat) : Calm (ror reg bits) reg.length fun _ => True := by
  have free {m : Build Unit} (calm : Calm m 0 fun _ => True) : Calm m reg.length fun _ => True :=
    calm.mono (Nat.zero_le _) fun _ => id
  refine Calm.ite (fun _ => free (Calm.pure trivial)) fun _ => Calm.ite (fun _ => free (calm_rorBit low)) fun _ =>
    Calm.ite (fun _ => calm_rorBytes low) fun _ => Calm.ite (fun _ => free (calm_swap (low.reg 0))) fun _ =>
      Calm.ite (fun _ => ?_) fun _ => ?_
  · exact (calm_rorBytes low).before fun _ _ => calm_rorBits low _
  · exact (calm_rorBytes low).before fun _ _ => calm_rolFew low _

/-! ### Moves -/

theorem calm_moveLoop {reg1 reg2 : Reg} (low : Low reg1) (minsize turns index : Nat) :
    Calm (moveLoop reg1 reg2 minsize turns index) 0 fun _ => True := by
  induction turns generalizing index with
  | zero => exact Calm.pure trivial
  | succ turns ih =>
      have lowBefore : reg1.reg index - 1 < 30 := Nat.lt_of_le_of_lt (Nat.sub_le _ 1) (low.reg index)
      refine Calm.get.andThen fun code _ => Calm.ite (fun _ => Calm.pure trivial) fun _ => Calm.ite (fun _ => ih _) fun _ =>
        Calm.ite (fun _ => ?_) fun _ => Calm.ite (fun _ => ?_) fun _ => ?_
      · exact (Calm.tworeg rfl (by decide) (low.reg index)).andThen fun _ _ => ih _
      · exact (Calm.tworeg rfl (by decide) lowBefore).andThen fun _ _ => ih _
      · exact (calm_mov _ (low.reg index)).andThen fun _ _ => ih _

/-- A move without a fill. -/
theorem calm_move {reg1 : Reg} (reg2 : Reg) (low : Low reg1) : Calm (move reg1 reg2 false) 0 fun _ => True :=
  (calm_moveLoop low _ _ 0).andThen fun _ _ => Calm.pure trivial

/-! ### Both machines -/

/-- What is proved of the machine holds together with what the watching machine says. -/
theorem wp_calm {m : Build α} {count : Nat} {R : α → Prop} {Q : α → Code → AVRState → Prop} (spec : target.wp m Q code s)
    (calm : Calm m count R) (pool : LowPool code) :
    target.wp m (fun a code' s' => Q a code' s' ∧ LowPool code' ∧ BelowZ count s s') code s := by
  have same : watcher.code = target.code := rfl
  refine wp_mono (wp_both same spec (calm code 0 pool)) ?_
  rintro a code' s' ⟨holds, seg, n', reached, watched, few, pool', -⟩
  obtain ⟨pushed, rfl, below⟩ := belowZ_run reached watched
  exact ⟨holds, pool', below.mono (by omega)⟩

end AsconSuite.Avr
