/-
Module: AsconSuite.Proofs.AvrPermutationLoop
Layer: Proofs
Purpose: The generated AVR permutation in the interpreter: the code before the loop, one turn of the loop, all turns, and
  the state that is copied back.
Imports: AsconSuite.Proofs.AvrBranches, AsconSuite.Proofs.AvrRounds
Trusted boundary: none (fully proved)
Main exports: Avr.wp_genPreamble, Avr.wp_genBody, Avr.Layout, Avr.Parts, Avr.genAsconPermutation_permutes,
  Avr.execLoop_add, Avr.execPermutation_eq_asconPermute
-/
import AsconSuite.Proofs.AvrBranches
import AsconSuite.Proofs.AvrRounds

namespace AsconSuite.Avr

open ByteWord ByteMemory ByteNumber
open Emit (Target run_bind_eq_ok)
open Emit.Target

variable {code code' : Code} {s s' : AVRState} {Q : Unit → Code → AVRState → Prop}

/-! ### The code before the loop -/

/-- The machine at the start: the number of the first round is in `r22`, and Z points to the state. -/
structure Starts (base first : Nat) (s : AVRState) : Prop where
  zero : s.r 1 = 0#8
  round : s.r 22 = BitVec.ofNat 8 first
  pointer : s.pair 30 = base
  room : base + 48 ≤ s.pair 32
  stack : s.pair 32 ≤ memSize

/-- The words of the state in memory. -/
def memWords (s : AVRState) (base : Nat) : AsconState :=
  ⟨memWord s base 0, memWord s base 1, memWord s base 2, memWord s base 3, memWord s base 4⟩

/-- The builder behind the prologue. -/
def prologueCode : Code := { Code.new.setFlag tempX with allocated := regBit 22 }.setFlag noLocals

theorem Starts.stage {base first : Nat} (starts : Starts base first s) : Stage base prologueCode s where
  ready := {
    order := rfl
    r0 := fun _ => rfl
    r1 := fun _ => rfl
    imm := fun r isImm => absurd isImm (noImm_new r)
    zero := fun _ => starts.zero
    loaded := fun r isImm => absurd isImm (noImm_new r)
    stack := ⟨by have room := starts.room; omega, starts.stack⟩ }
  pool := by
    rw [LowPool]
    decide
  pointer := starts.pointer
  room := starts.room

/-- The nibbles of the first round constant. -/
theorem roundByte_eq {first : Nat} (isRound : first < 12) {b : Byte} (value : b = BitVec.ofInt 8 (0x0F - first)) :
    BitVec.ofNat 8 first ||| ((b <<< 4) ||| (b >>> 4)) = roundByte first := by
  have all : ∀ first < 12, BitVec.ofNat 8 first ||| ((BitVec.ofInt 8 (0x0F - (first : Int)) <<< 4) |||
      (BitVec.ofInt 8 (0x0F - (first : Int)) >>> 4)) = roundByte first := by
    decide
  rw [value]
  exact all first isRound

/-- `r18` is the first high register that is free. -/
theorem allocateHighReg_prologueCode : (allocateHighReg 1).run prologueCode = .ok ([18], taken prologueCode 18) := rfl

theorem took_prologueCode : Took [18] prologueCode (taken prologueCode 18) := by
  refine (Took.refl prologueCode).append [18] (List.nodup_singleton 18) (fun r member => ?_) fun r => ?_
  · rw [List.mem_singleton.1 member]
    exact ⟨by decide, by decide⟩
  · rw [inRegs_regBit (by decide), List.mem_singleton]

theorem wp_ldi {r value : Nat} (holds : ∀ code' s', Exact [r] code s code' s' → s'.r r = BitVec.ofNat 8 value → Q () code' s') :
    target.wp (immreg .ldi r value) Q code s := by
  refine wp_immreg fun _ _ => ⟨s.setReg r (BitVec.ofNat 8 (value % 256)), rfl, holds _ _ (exact_pushed code _ rfl rfl) ?_⟩
  rw [AVRState.setReg_self, ofNat_mod_byte]

theorem wp_subByte {r1 r2 : Nat} (holds : ∀ code' s', Exact [r1] code s code' s' →
      s'.r r1 = BitVec.ofInt 8 ((s.r r1).toNat - (s.r r2).toNat) → Q () code' s') :
    target.wp (tworeg .sub r1 r2) Q code s :=
  wp_tworeg fun _ _ _ => ⟨s.setDifference r1 ((s.r r1).toNat - (s.r r2).toNat), rfl,
    holds _ _ (exact_pushed code _ rfl rfl) (AVRState.setReg_self _ r1 _)⟩

theorem wp_turnNibbles {r : Nat} (holds : ∀ code' s', Exact [r] code s code' s' →
      s'.r r = (s.r r <<< 4) ||| (s.r r >>> 4) → Q () code' s') :
    target.wp (onereg .swap r) Q code s :=
  wp_onereg fun _ => ⟨s.setReg r ((s.r r <<< 4) ||| (s.r r >>> 4)), rfl,
    holds _ _ (exact_pushed code _ rfl rfl) (s.setReg_self r _)⟩

/-- The round constant is put together from two nibbles. -/
theorem wp_roundConstant {base first : Nat} (starts : Starts base first s) (isRound : first < 12)
    {P : Unit → Code → AVRState → Prop}
    (holds : ∀ code' s', Kept [22] prologueCode s code' s' → Stage base code' s' → s'.r 22 = roundByte first →
      s'.memory = s.memory → P () code' s') :
    target.wp (do
      let temp ← allocateHighReg 1
      moveImm temp 0x0F
      sub temp [22]
      onereg .swap (temp.reg 0)
      logor [22] temp
      releaseReg temp) P prologueCode s := by
  have stage := starts.stage
  have took := took_prologueCode
  refine wp_bind (wp_of_run allocateHighReg_prologueCode (List.append_nil _).symm ?_)
  have load : target.wp (moveImm [18] 0x0F) (fun _ code' s' => Exact [18, 22] (taken prologueCode 18) s code' s' ∧
      s'.r 18 = 0x0F#8 ∧ s'.r 22 = s.r 22) (taken prologueCode 18) s := by
    refine wp_bind (wp_get (wp_ite (fun zero => absurd zero.1 (by decide)) fun _ => ?_))
    refine wp_ite (fun _ => wp_bind (wp_ldi fun code₁ s₁ exact₁ loaded => wp_pure ⟨?_, loaded, ?_⟩)) fun low =>
      absurd (by decide) low
    · exact exact₁.mono fun r member => List.mem_singleton.1 member ▸ List.mem_cons_self
    · exact exact₁.others 22 (by decide)
  refine wp_bind (wp_mono load ?_)
  rintro _ code₁ s₁ ⟨exact₁, nibble, same₁⟩
  refine wp_bind (wp_bind (wp_subByte fun code₂ s₂ exact₂ difference => wp_pure ?_))
  have same₂ : s₂.r 22 = s.r 22 := (exact₂.others 22 (by decide)).trans same₁
  refine wp_bind (wp_turnNibbles fun code₃ s₃ exact₃ turned => ?_)
  have turned : s₃.r 18 = (s₂.r 18 <<< 4) ||| (s₂.r 18 >>> 4) := turned
  have same₃ : s₃.r 22 = s.r 22 := (exact₃.others 22 (by decide)).trans same₂
  refine wp_bind (wp_bind (wp_or fun code₄ s₄ exact₄ joined => wp_pure ?_))
  have exact₄ := ((exact₁.step exact₂ List.mem_cons_self).step exact₃ List.mem_cons_self).step exact₄
    (List.mem_cons_of_mem 18 List.mem_cons_self)
  have owned : Owned (taken prologueCode 18) [18, 22] := by
    rw [Owned]
    decide
  have kept₄ := exact₄.owned owned (took.ready stage.ready)
  have value : s₄.r 22 = roundByte first := by
    have small : (s.r 22).toNat = first := by
      rw [starts.round, BitVec.toNat_ofNat, Nat.mod_eq_of_lt (by omega)]
    rw [joined, same₃, turned, starts.round]
    refine roundByte_eq isRound ?_
    rw [difference, nibble, same₁, small]
    rfl
  refine wp_releaseReg [22] took stage.ready (kept₄.mono fun r member => ?_) fun code₅ kept₅ _ => ?_
  · rcases List.mem_cons.1 member with rfl | last
    · exact List.mem_cons_of_mem 22 List.mem_cons_self
    · rw [List.mem_singleton.1 last]
      exact List.mem_cons_self
  have bytes : Bytes [22] := fun r member => by
    rw [List.mem_singleton.1 member]
    decide
  have low : Low [18, 22] := by
    rw [Low]
    decide
  exact holds code₅ s₄ kept₅ (stage.kept kept₅ bytes (exact₄.pointer low)) value exact₄.memory

/-- The parts of the code before the loop. -/
theorem genPreamble_eq : genPreamble = (do
    let round ← prologuePermutationWithCount 0
    modify fun code => code.setFlag noLocals
    (do
      let temp ← allocateHighReg 1
      moveImm temp 0x0F
      sub temp round
      onereg .swap (temp.reg 0)
      logor round temp
      releaseReg temp)
    let x2 ← allocateReg 8
    let x4 ← allocateReg 8
    ldz x2.reversed (asconWord 2)
    ldz x4.reversed (asconWord 4)
    return (round, x2, x4)) := by
  unfold genPreamble
  simp only [bind_assoc]

/-- In front of the loop: the first round constant is in `r22`, and `x2` and `x4` are in registers. -/
structure AtLoop (base : Nat) (x2 x4 : Reg) (code : Code) (s : AVRState) : Prop where
  stage : Stage base code s
  slices : Slices x2 x4 code
  ownedRound : inRegs code.allocated 22 = true
  apart : 22 ∉ x2 ++ x4

theorem wp_genPreamble {base first : Nat} (starts : Starts base first s) (isRound : first < 12) :
    target.wp genPreamble (fun regs code' s' => regs.1 = [22] ∧ AtLoop base regs.2.1 regs.2.2 code' s' ∧
      s'.r 22 = roundByte first ∧ roundInput s' base regs.2.1 regs.2.2 = memWords s base ∧
      s'.pair 32 = s.pair 32) Code.new s := by
  refine wp_congr genPreamble_eq ?_
  have prologue : (prologuePermutationWithCount 0).run Code.new =
      .ok ([22], { Code.new.setFlag tempX with allocated := regBit 22 }) := rfl
  refine wp_bind (wp_of_run prologue rfl (wp_bind (wp_modify rfl ?_)))
  refine wp_bind (wp_roundConstant starts isRound fun code₁ s₁ kept₁ stage₁ constant memory₁ => ?_)
  have bytes22 : Bytes [22] := fun r member => by
    rw [List.mem_singleton.1 member]
    decide
  have owned22 : inRegs code₁.allocated 22 = true := by
    rw [kept₁.allocated]
    rfl
  -- The registers of `x2` and `x4`.
  refine wp_bind (wp_allocateReg stage₁.ready.toConventions fun x2 code₂ size2 took2 => ?_)
  have stage₂ := stage₁.took took2
  refine wp_bind (wp_allocateReg stage₂.ready.toConventions fun x4 code₃ size4 took4 => ?_)
  have stage₃ := stage₂.took took4
  have took := took2.trans took4
  have slices₃ : Slices x2 x4 code₃ := {
    nodup := took.nodup
    owned := fun r member => (took.allocated r).2 (Or.inr member)
    low := fun r member => stage₁.pool r (took.free r member).2
    size2 := size2
    size4 := size4 }
  have apart : 22 ∉ x2 ++ x4 := fun member => (took.free 22 member).1 owned22
  -- They are loaded.
  refine wp_bind (wp_mono (stage₃.wp_loadWord slices₃.word2 (by decide)) ?_)
  rintro _ code₄ s₄ ⟨exact₄, loaded2⟩
  have exact₄ : Exact (x2 ++ x4) code₃ s₁ code₄ s₄ := exact₄.mono fun r member => List.mem_append_left x4 member
  have kept₄ := exact₄.owned slices₃.owned stage₃.ready
  have stage₄ := stage₃.kept kept₄ slices₃.owned.bytes (exact₄.pointer slices₃.low)
  refine wp_bind (wp_mono (stage₄.wp_loadWord (slices₃.kept kept₄).word4 (by decide)) ?_)
  rintro _ code₅ s₅ ⟨exact₅, loaded4⟩
  have same2 : regWord s₅ x2 = regWord s₄ x2 := regWord_congr fun r member =>
    exact₅.others r fun isX4 => (List.nodup_append.1 took.nodup).2.2 r member r isX4 rfl
  have exact₅ := exact₄.trans (exact₅.mono fun r member => List.mem_append_right x2 member)
  have kept₅ := exact₅.owned slices₃.owned stage₃.ready
  have stage₅ := stage₃.kept kept₅ slices₃.owned.bytes (exact₅.pointer slices₃.low)
  refine wp_pure ⟨rfl, ⟨stage₅, slices₃.kept kept₅, ?_, apart⟩, ?_, ?_, ?_⟩
  · rw [kept₅.allocated]
    exact (took.allocated 22).2 (Or.inl owned22)
  · rw [exact₅.others 22 apart, constant]
  · have memory₅ : s₅.memory = s.memory := exact₅.memory.trans memory₁
    rw [roundInput, memWords, memWord_congr memory₅, memWord_congr memory₅, memWord_congr memory₅, same2, loaded2,
      loaded4, memWord_congr memory₁, memWord_congr (exact₄.memory.trans memory₁)]
  · rw [kept₅.pair slices₃.owned.bytes, kept₁.pair bytes22]

/-! ### One turn -/

/-- The code between the label and the comparison. -/
def genBody (round x2 x4 : Reg) : Build Unit := do
  genSubstitution round x2 x4
  asconDiffuse x2 0 19 28
  asconDiffuse x4 1 61 39
  asconDiffuse x2 2 1 6
  asconDiffuse x4 3 10 17
  asconDiffuse x4 4 7 41
  subImm round 0x0F false

theorem wp_subi {r value : Nat} (holds : ∀ code' s', Exact [r] code s code' s' →
      s'.r r = BitVec.ofInt 8 ((s.r r).toNat - (value % 256 : Nat)) → Q () code' s') :
    target.wp (immreg .subi r value) Q code s :=
  wp_immreg fun _ _ => ⟨s.setDifference r ((s.r r).toNat - (value % 256 : Nat)), rfl,
    holds _ _ (exact_pushed code _ rfl rfl) (AVRState.setReg_self _ r _)⟩

theorem roundByte_succ {round : Nat} (isRound : round < 12) :
    BitVec.ofInt 8 ((roundByte round).toNat - (0x0F % 256 % 256 : Nat)) = roundByte (round + 1) := by
  have all : ∀ round < 12, BitVec.ofInt 8 ((roundByte round).toNat - (0x0F % 256 % 256 : Nat)) = roundByte (round + 1) := by
    decide
  exact all round isRound

/-- One round, and the next round constant. -/
theorem wp_genBody {base round : Nat} {x2 x4 : Reg} (atLoop : AtLoop base x2 x4 code s) (isRound : round < 12)
    (constant : s.r 22 = roundByte round) :
    target.wp (genBody [22] x2 x4) (fun _ code' s' => Kept (22 :: (x2 ++ x4)) code s code' s' ∧
      AtLoop base x2 x4 code' s' ∧ s'.r 22 = roundByte (round + 1) ∧
      roundInput s' base x2 x4 = plainRound (roundInput s base x2 x4) (roundByte round)) code s := by
  obtain ⟨stage, slices, owned22, apart⟩ := atLoop
  have parts : genBody [22] x2 x4 = (do
      genSubstitution [22] x2 x4
      asconDiffuse x2 0 19 28
      asconDiffuse x4 1 61 39
      asconDiffuse x2 2 1 6
      asconDiffuse x4 3 10 17
      asconDiffuse x4 4 7 41) >>= fun _ => subImm [22] 0x0F false := by
    unfold genBody
    simp only [bind_assoc]
  refine wp_congr parts (wp_bind (wp_mono (wp_genRound slices stage apart) ?_))
  rintro _ code₁ s₁ ⟨kept₁, stage₁, words⟩
  have same22 : s₁.r 22 = s.r 22 := kept₁.others 22 (Or.inl owned22) apart
  have owned₁ : inRegs code₁.allocated 22 = true := by
    rw [kept₁.allocated]
    exact owned22
  refine wp_bind (wp_get (wp_ite (fun zero => absurd zero (by decide)) fun _ => ?_))
  refine wp_ite (fun one => absurd one.1 (by decide)) fun _ => wp_ite (fun _ => ?_) fun low => absurd (by decide) low
  refine wp_bind (wp_subi fun code₂ s₂ exact₂ next => wp_pure ?_)
  have own : Owned code₁ [22] := fun r member => List.mem_singleton.1 member ▸ owned₁
  have low : Low [22] := by
    rw [Low]
    decide
  have kept₂ := exact₂.owned own stage₁.ready
  have all : ∀ r ∈ 22 :: (x2 ++ x4), r < 32 := by
    intro r member
    rcases List.mem_cons.1 member with rfl | later
    · decide
    · exact slices.owned.bytes r later
  refine ⟨(kept₁.mono fun r member => List.mem_cons_of_mem 22 member).trans all
    (kept₂.mono fun r member => List.mem_singleton.1 member ▸ List.mem_cons_self), ⟨?_, ?_, ?_, apart⟩, ?_, ?_⟩
  · exact stage₁.kept kept₂ own.bytes (exact₂.pointer low)
  · exact (slices.kept kept₁).kept kept₂
  · rw [kept₂.allocated]
    exact owned₁
  · rw [next, same22, constant, roundByte_succ isRound]
  · have others (r : Nat) (member : r ∈ x2 ++ x4) : s₂.r r = s₁.r r := exact₂.others r fun is22 => by
      rw [List.mem_singleton.1 is22] at member
      exact apart member
    have same2 : regWord s₂ x2 = regWord s₁ x2 := regWord_congr fun r member => others r (List.mem_append_left x4 member)
    have same4 : regWord s₂ x4 = regWord s₁ x4 := regWord_congr fun r member => others r (List.mem_append_right x2 member)
    rw [← constant, ← words, roundInput, roundInput, memWord_congr exact₂.memory, memWord_congr exact₂.memory,
      memWord_congr exact₂.memory, same2, same4]

/-! ### The way back -/

/-- Only flags and the register of the comparison were written. -/
structure ComparedOnly (s s' : AVRState) : Prop where
  others : ∀ r, r ≠ 25 → s'.r r = s.r r
  memory : s'.memory = s.memory

/-- The builder behind a label or a jump: it knows no immediate values any more. -/
structure Jumped (code code' : Code) : Prop where
  flags : code'.flags = code.flags
  allocated : code'.allocated = code.allocated
  regOrder : code'.regOrder = code.regOrder
  immRegs : code'.immRegs = 0#32

theorem AtLoop.jump {base : Nat} {x2 x4 : Reg} (atLoop : AtLoop base x2 x4 code s) (jumped : Jumped code code')
    (scratch : ComparedOnly s s') (apart25 : 25 ∉ x2 ++ x4) :
    AtLoop base x2 x4 code' s' ∧ roundInput s' base x2 x4 = roundInput s base x2 x4 := by
  obtain ⟨⟨ready, pool, pointer, room⟩, slices, owned22, apart⟩ := atLoop
  have noImm (r : Nat) : ¬inRegs code'.immRegs r = true := by
    rw [jumped.immRegs]
    exact noImm_new r
  have hasFlag (flag : BitVec 32) : code'.hasFlag flag = code.hasFlag flag := by
    rw [Code.hasFlag, Code.hasFlag, jumped.flags]
  have stack : s'.pair 32 = s.pair 32 := by
    rw [AVRState.pair, AVRState.pair, scratch.others 32 (by decide), scratch.others (32 + 1) (by decide)]
  have z : s'.pair 30 = s.pair 30 := by
    rw [AVRState.pair, AVRState.pair, scratch.others 30 (by decide), scratch.others (30 + 1) (by decide)]
  have others (r : Nat) (member : r ∈ x2 ++ x4) : s'.r r = s.r r := scratch.others r fun is25 => by
    rw [is25] at member
    exact apart25 member
  refine ⟨⟨⟨?_, ?_, ?_, ?_⟩, ⟨slices.nodup, ?_, slices.low, slices.size2, slices.size4⟩, ?_, apart⟩, ?_⟩
  · exact {
      order := by
        rw [jumped.regOrder, ready.order, resetRegs_regOrder_congr jumped.flags]
      r0 := by
        rw [hasFlag, jumped.allocated]
        exact ready.r0
      r1 := by
        rw [hasFlag, jumped.allocated]
        exact ready.r1
      imm := fun r isImm => absurd isImm (noImm r)
      zero := by
        rw [hasFlag, scratch.others 1 (by decide)]
        exact ready.zero
      loaded := fun r isImm => absurd isImm (noImm r)
      stack := by
        rw [stack]
        exact ready.stack }
  · rw [LowPool, jumped.regOrder]
    exact pool
  · rw [z, pointer]
  · rw [stack]
    exact room
  · rw [Owned, jumped.allocated]
    exact slices.owned
  · rw [jumped.allocated]
    exact owned22
  · have same2 : regWord s' x2 = regWord s x2 := regWord_congr fun r member => others r (List.mem_append_left x4 member)
    have same4 : regWord s' x4 = regWord s x4 := regWord_congr fun r member => others r (List.mem_append_right x2 member)
    rw [roundInput, roundInput, memWord_congr scratch.memory, memWord_congr scratch.memory, memWord_congr scratch.memory,
      same2, same4]

/-- The instructions of `compare_and_loop`, for a loop that is short or long. -/
def loopInsns (closeBy : Bool) : List Insn :=
  if closeBy then [⟨.cpi, 22, 0x3C⟩, ⟨.brne, 1, 0⟩] else [⟨.ldi, 25, 0x3C⟩, ⟨.cpse, 22, 25⟩, ⟨.jmp, 1, 0⟩]

/-- They go back until the constant behind the last round is reached. -/
theorem loopInsns_exec (closeBy : Bool) {whole : Code} {front back : List Insn} {offset : Nat}
    (parts : whole.insns = front ++ loopInsns closeBy ++ back) (label : whole.getLabel 1 = .ok offset) (s : AVRState) :
    ∃ steps s', ComparedOnly s s' ∧ ∀ fuel, execLoop whole (steps + fuel) (s.at front.length) =
      execLoop whole fuel (s'.at (if s.r 22 = 0x3C#8 then front.length + (loopInsns closeBy).length else offset)) := by
  cases closeBy with
  | true =>
      obtain ⟨s₁, is₁⟩ : ∃ s₁, s₁ = s.setCompared ((s.r 22).toNat - 0x3C : Int) := ⟨_, rfl⟩
      have runs : RunsTo [⟨.cpi, 22, 0x3C⟩] s s₁ := fun whole front back parts fuel =>
        execLoop_of_run parts (congrArg Except.ok is₁.symm) fuel
      have parts₁ : whole.insns = front ++ [⟨.cpi, 22, 0x3C⟩] ++ ⟨Branch.brne.type, 1, 0⟩ :: back := by
        rw [parts]
        simp only [loopInsns, List.append_assoc, List.cons_append, List.nil_append, if_true]
        rfl
      refine ⟨2, s₁, ⟨fun r _ => congrFun ((congrArg AVRState.r is₁).trans rfl) r, (congrArg AVRState.memory is₁).trans rfl⟩, fun fuel => ?_⟩
      refine (runs.branch .brne parts₁ label fuel).trans ?_
      by_cases equal : s.r 22 = 0x3C#8
      · have zero : s₁.z = true := by
          rw [is₁, AVRState.setCompared, equal]
          rfl
        rw [Branch.taken, zero, if_pos equal]
        rfl
      · have nonzero : s₁.z = false := by
          have different : (s.r 22).toNat ≠ 0x3C := fun same => equal (BitVec.eq_of_toNat_eq same)
          rw [is₁, AVRState.setCompared]
          exact beq_false_of_ne (by omega)
        rw [Branch.taken, nonzero, if_neg equal]
        rfl
  | false =>
      have runs : RunsTo [⟨.ldi, 25, 0x3C⟩] s (s.setReg 25 0x3C#8) := fun whole front back parts fuel =>
        execLoop_of_run parts rfl fuel
      have parts₁ : whole.insns = front ++ [⟨.ldi, 25, 0x3C⟩] ++ (⟨.cpse, 22, 25⟩ :: ⟨.jmp, 1, 0⟩ :: back) := by
        rw [parts]
        simp [loopInsns]
      have behind (k : Nat) : whole.insns[front.length + 1 + k]? = (⟨.cpse, 22, 25⟩ :: ⟨.jmp, 1, 0⟩ :: back)[k]? := by
        have length : (front ++ [(⟨.ldi, 25, 0x3C⟩ : Insn)]).length = front.length + 1 := List.length_append
        rw [parts₁, ← length, List.getElem?_append_right (Nat.le_add_right _ _), Nat.add_sub_cancel_left]
      have same22 : (s.setReg 25 0x3C#8).r 22 = s.r 22 := s.setReg_other _ (by decide)
      have loaded : (s.setReg 25 0x3C#8).r 25 = 0x3C#8 := s.setReg_self 25 _
      refine ⟨1 + (if s.r 22 = 0x3C#8 then 1 else 2), s.setReg 25 0x3C#8,
        ⟨fun r other => s.setReg_other _ other, rfl⟩, fun fuel => ?_⟩
      have first := runs whole front _ parts₁ ((if s.r 22 = 0x3C#8 then 1 else 2) + fuel)
      rw [Nat.add_assoc]
      refine first.trans ?_
      -- The jump takes one step more than the skip.
      by_cases equal : s.r 22 = 0x3C#8
      · have skipped : execInsn ((s.setReg 25 0x3C#8).at (front.length + 1 + 0 + 1)) whole ⟨.cpse, 22, 25⟩ =
            .ok ((s.setReg 25 0x3C#8).at (front.length + 3)) := by
          refine congrArg Except.ok (if_pos ?_)
          exact same22.trans (equal.trans loaded.symm)
        rw [if_pos equal, if_pos equal, Nat.add_comm 1 fuel]
        exact execLoop_step (behind 0) skipped fuel
      · have goesOn : execInsn ((s.setReg 25 0x3C#8).at (front.length + 1 + 0 + 1)) whole ⟨.cpse, 22, 25⟩ =
            .ok ((s.setReg 25 0x3C#8).at (front.length + 1 + 1)) := by
          refine congrArg Except.ok (if_neg fun same => equal ?_)
          exact same22.symm.trans (same.trans loaded)
        have jumped : execInsn ((s.setReg 25 0x3C#8).at (front.length + 1 + 1 + 1)) whole ⟨.jmp, 1, 0⟩ =
            .ok ((s.setReg 25 0x3C#8).at offset) := goto_label label _ _
        rw [if_neg equal, if_neg equal, Nat.add_comm 2 fuel]
        exact (execLoop_step (behind 0) goesOn (fuel + 1)).trans (execLoop_step (behind 1) jumped fuel)

/-! ### The generator -/

/-- The code behind the loop. -/
def genStores (x2 x4 : Reg) : Build Unit := do
  stz x2.reversed (asconWord 2)
  stz x4.reversed (asconWord 4)

theorem genAsconPermutation_eq : genAsconPermutation = (do
    let (round, x2, x4) ← genPreamble
    let topLabel ← label 0
    genBody round x2 x4
    let _ ← compareAndLoop round 0x3C topLabel
    genStores x2 x4) := by
  unfold genAsconPermutation genBody genStores
  simp only [bind_assoc]

/-- What the builder knows, but for the instructions and the immediate values in registers. -/
structure Settings where
  labels : List Int
  regOrder : List Nat
  allocated : BitVec 32
  immRegs : BitVec 32
  flags : BitVec 32
  immCount : Nat
  localsSize : Nat
  deriving DecidableEq

def Code.settings (code : Code) : Settings :=
  ⟨code.labels, code.regOrder, code.allocated, code.immRegs, code.flags, code.immCount, code.localsSize⟩

/-- The registers of `x2` and `x4`. -/
def x2Regs : Reg := [18, 19, 20, 21, 26, 27, 2, 3]

def x4Regs : Reg := [4, 5, 6, 7, 8, 9, 10, 11]

/-- What the builder knows in front of the comparison. -/
def loopSettings : Settings where
  labels := [20]
  regOrder := [18, 19, 20, 21, 22, 23, 26, 27, 2, 3, 4, 5, 6, 7, 8, 9, 10, 11, 12, 13, 14, 15, 24, 25, 16, 17]
  allocated := 0x0C7C0FFC#32
  immRegs := 0#32
  flags := 0x23#32
  immCount := 0
  localsSize := 0

theorem genPreamble_settings : (genPreamble.run Code.new).map (fun p => (p.1, p.2.insns.length, p.2.settings)) =
    .ok (([22], x2Regs, x4Regs), 20, { loopSettings with labels := [] }) := by
  decide +kernel

/-- The part of the generator in front of the comparison. -/
def genUpToLoop : Build Nat := do
  let (round, x2, x4) ← genPreamble
  let topLabel ← label 0
  genBody round x2 x4
  return topLabel

theorem genUpToLoop_settings : (genUpToLoop.run Code.new).map (fun p => (p.1, p.2.settings)) = .ok (1, loopSettings) := by
  decide +kernel

/-- The builder in front of the comparison, with any instructions. -/
def loopCode (insns : List Insn) (immValues : Nat → Nat) (sboxes : List (Nat × List Byte)) : Code :=
  ⟨insns, [20], loopSettings.regOrder, 0x0C7C0FFC#32, 0#32, 0x23#32, immValues, 0, 0, sboxes⟩

/-- No register holds the value yet, and `r25` is the last high one that is free. -/
theorem immtemp_loopCode (insns : List Insn) (immValues : Nat → Nat) (sboxes : List (Nat × List Byte)) :
    (immtemp (0x3C % 256)).run (loopCode insns immValues sboxes) =
      .ok (25, { loopCode (insns ++ [⟨.ldi, 25, 0x3C⟩]) (fun i => if i = 25 - 16 then 0x3C % 256 else immValues i) sboxes
        with immRegs := 0#32 ||| regBit 25 }) := by
  have none : highRegs.find? (fun index => inRegs (0#32) index && immValues (index - 16) == (0x3C % 256)) = none := by
    simp [highRegs, inRegs]
  unfold immtemp loopCode
  simp only [StateT.run_bind, StateT.run_get, pure_bind]
  rw [none]
  rfl

/-- The comparison, for any instructions in front of it. -/
theorem compareAndLoop_run {code : Code} (settings : code.settings = loopSettings) :
    ∃ closeBy code', (compareAndLoop [22] 0x3C 1).run code = .ok (1, code') ∧
      code'.insns = code.insns ++ loopInsns closeBy ∧ code'.settings = loopSettings := by
  obtain ⟨insns, labels, regOrder, allocated, immRegs, flags, immValues, immCount, localsSize, sboxes⟩ := code
  cases settings
  -- The distance to the label decides whether the jump is short.
  obtain ⟨closeBy, isNear⟩ : ∃ closeBy, closeBy = decide (insns.length - 20 ≤ 50) := ⟨_, rfl⟩
  refine ⟨closeBy, ?_⟩
  have single : (compareAndLoop [22] 0x3C 1).run (loopCode insns immValues sboxes) =
      (compareSingle true closeBy 22 0x3C 1).run (loopCode insns immValues sboxes) := by
    rw [isNear]
    rfl
  cases closeBy with
  | true =>
      refine ⟨loopCode ((insns ++ [⟨.cpi, 22, 0x3C⟩]) ++ [⟨.brne, 1, 0⟩]) immValues sboxes, single.trans rfl, ?_, rfl⟩
      exact List.append_assoc insns _ _
  | false =>
      refine ⟨loopCode (((insns ++ [⟨.ldi, 25, 0x3C⟩]) ++ [⟨.cpse, 22, 25⟩]) ++ [⟨.jmp, 1, 0⟩])
        (fun i => if i = 25 - 16 then 0x3C % 256 else immValues i) sboxes, single.trans ?_, ?_, rfl⟩
      · have parts : compareSingle true false 22 0x3C 1 =
            (do
              let highReg ← immtemp (0x3C % 256)
              tworeg .cpse 22 highReg
              jmp 1) := rfl
        rw [parts, StateT.run_bind, immtemp_loopCode]
        rfl
      · rw [List.append_assoc, List.append_assoc]
        rfl

theorem genStores_run {code : Code} (settings : code.settings = loopSettings) :
    ∃ code', (genStores x2Regs x4Regs).run code = .ok ((), code') ∧ code'.settings = loopSettings := by
  exact ⟨_, rfl, settings⟩

theorem jumped_of_settings {code code' : Code} (settings : code.settings = loopSettings)
    (settings' : code'.settings = loopSettings) : Jumped code code' where
  flags := (congrArg Settings.flags settings').trans (congrArg Settings.flags settings).symm
  allocated := (congrArg Settings.allocated settings').trans (congrArg Settings.allocated settings).symm
  regOrder := (congrArg Settings.regOrder settings').trans (congrArg Settings.regOrder settings).symm
  immRegs := congrArg Settings.immRegs settings'

theorem run_bind_ok {α β : Type} {m : Build α} {f : α → Build β} {a : α} (ran : m.run code = .ok (a, code')) :
    (m >>= f).run code = (f a).run code' := by
  rw [StateT.run_bind, ran]
  rfl

/-- The builder behind the parts of the permutation. -/
structure Parts (c₁ c₂ c₃ c₄ code : Code) (closeBy : Bool) : Prop where
  preamble : genPreamble.run Code.new = .ok (([22], x2Regs, x4Regs), c₁)
  length : c₁.insns.length = 20
  labelled : c₂.insns = c₁.insns ++ [⟨.label, 1, 0⟩]
  atTop : Jumped c₁ c₂
  body : (genBody [22] x2Regs x4Regs).run c₂ = .ok ((), c₃)
  back : Jumped c₃ c₂
  compared : c₄.insns = c₃.insns ++ loopInsns closeBy
  on : Jumped c₂ c₄
  settings₄ : c₄.settings = loopSettings
  stores : (genStores x2Regs x4Regs).run c₄ = .ok ((), code)
  settings : code.settings = loopSettings
  built : genAsconPermutation.run Code.new = .ok ((), code)

theorem genAsconPermutation_parts : ∃ c₁ c₂ c₃ c₄ code closeBy, Parts c₁ c₂ c₃ c₄ code closeBy := by
  -- The code in front of the comparison, as it was computed.
  have known := genPreamble_settings
  cases preamble : genPreamble.run Code.new with
  | error e =>
      rw [preamble] at known
      cases known
  | ok result =>
      obtain ⟨regs, c₁⟩ := result
      rw [preamble] at known
      obtain ⟨isRegs, known⟩ := Prod.mk.inj (Except.ok.inj known)
      obtain ⟨length, settings₁⟩ := Prod.mk.inj known
      dsimp only at isRegs length settings₁
      subst isRegs
      -- The label stands behind twenty instructions.
      obtain ⟨c₂, top, labelled, settings₂⟩ : ∃ c₂, (label 0).run c₁ = .ok (1, c₂) ∧
          c₂.insns = c₁.insns ++ [⟨.label, 1, 0⟩] ∧ c₂.settings = loopSettings := by
        obtain ⟨insns, labels, regOrder, allocated, immRegs, flags, immValues, immCount, localsSize, sboxes⟩ := c₁
        cases settings₁
        refine ⟨{ loopCode (insns ++ [⟨.label, 1, 0⟩]) immValues sboxes with labels := [(insns.length : Int)] }, rfl, rfl, ?_⟩
        have length : insns.length = 20 := length
        rw [length]
        rfl
      have atTop : Jumped c₁ c₂ := {
        flags := (congrArg Settings.flags settings₂).trans (congrArg Settings.flags settings₁).symm
        allocated := (congrArg Settings.allocated settings₂).trans (congrArg Settings.allocated settings₁).symm
        regOrder := (congrArg Settings.regOrder settings₂).trans (congrArg Settings.regOrder settings₁).symm
        immRegs := congrArg Settings.immRegs settings₂ }
      have upTo : genUpToLoop.run Code.new = (genBody [22] x2Regs x4Regs >>= fun _ => pure 1).run c₂ :=
        (run_bind_ok preamble).trans (run_bind_ok top)
      have known := genUpToLoop_settings
      rw [upTo, StateT.run_bind] at known
      cases body : (genBody [22] x2Regs x4Regs).run c₂ with
      | error e =>
          rw [body] at known
          cases known
      | ok result =>
          obtain ⟨⟨⟩, c₃⟩ := result
          rw [body] at known
          have settings₃ : c₃.settings = loopSettings := (Prod.mk.inj (Except.ok.inj known)).2
          obtain ⟨closeBy, c₄, comparison, compared, settings₄⟩ := compareAndLoop_run settings₃
          obtain ⟨code, stores, settings⟩ := genStores_run settings₄
          refine ⟨c₁, c₂, c₃, c₄, code, closeBy, preamble, length, labelled, atTop, body,
            jumped_of_settings settings₃ settings₂, compared, jumped_of_settings settings₂ settings₄, settings₄, stores, settings, ?_⟩
          rw [genAsconPermutation_eq]
          exact (run_bind_ok preamble).trans ((run_bind_ok top).trans ((run_bind_ok body).trans
            ((run_bind_ok comparison).trans stores)))

/-! ### All turns -/

/-- The code of the whole function: the loop stands between its label and the comparison. -/
structure Layout (c₂ c₃ whole : Code) (closeBy : Bool) (front seg back : List Insn) : Prop where
  parts : whole.insns = front ++ (⟨.label, 1, 0⟩ :: (seg ++ loopInsns closeBy)) ++ back
  label : whole.getLabel 1 = .ok front.length
  body : (genBody [22] x2Regs x4Regs).run c₂ = .ok ((), c₃)
  emitted : c₃.insns = c₂.insns ++ seg
  back : Jumped c₃ c₂

/-- The instruction behind the loop. -/
def behindLoop (front seg : List Insn) (closeBy : Bool) : Nat :=
  front.length + 1 + seg.length + (loopInsns closeBy).length

theorem roundByte_eq_last {round : Nat} (isRound : round < 12) : roundByte (round + 1) = 0x3C#8 ↔ round = 11 := by
  have all : ∀ round < 12, roundByte (round + 1) = 0x3C#8 ↔ round = 11 := by decide
  exact all round isRound

theorem apart25_words : 25 ∉ x2Regs ++ x4Regs := by decide

/-- One turn of the loop. -/
theorem Layout.turn {base round : Nat} {c₂ c₃ whole : Code} {closeBy : Bool} {front seg back : List Insn}
    (layout : Layout c₂ c₃ whole closeBy front seg back) (atLoop : AtLoop base x2Regs x4Regs c₂ s) (isRound : round < 12)
    (constant : s.r 22 = roundByte round) :
    ∃ steps s', AtLoop base x2Regs x4Regs c₂ s' ∧ s'.r 22 = roundByte (round + 1) ∧ s'.pair 32 = s.pair 32 ∧
      roundInput s' base x2Regs x4Regs = plainRound (roundInput s base x2Regs x4Regs) (roundByte round) ∧
      ∀ fuel, execLoop whole (steps + fuel) (s.at front.length) =
        execLoop whole fuel (s'.at (if round = 11 then behindLoop front seg closeBy else front.length)) := by
  obtain ⟨seg', s₁, emitted, runs, kept, atLoop₁, next, words⟩ :=
    runsTo_of_wp (wp_genBody atLoop isRound constant) layout.body
  obtain rfl : seg = seg' := List.append_cancel_left (layout.emitted.symm.trans emitted)
  -- The label, the round and the comparison.
  have labelled : whole.insns[front.length]? = some ⟨.label, 1, 0⟩ := by
    rw [layout.parts, List.append_assoc, List.getElem?_append_right (Nat.le_refl _), Nat.sub_self]
    rfl
  have parts₁ : whole.insns = (front ++ [⟨.label, 1, 0⟩]) ++ seg ++ (loopInsns closeBy ++ back) := by
    rw [layout.parts]
    simp only [List.append_assoc, List.cons_append, List.nil_append]
  have parts₂ : whole.insns = (front ++ [⟨.label, 1, 0⟩] ++ seg) ++ loopInsns closeBy ++ back := by
    rw [parts₁]
    simp only [List.append_assoc]
  have length₁ : (front ++ [(⟨.label, 1, 0⟩ : Insn)]).length = front.length + 1 := List.length_append
  have length₂ : (front ++ [(⟨.label, 1, 0⟩ : Insn)] ++ seg).length = front.length + 1 + seg.length := by
    rw [List.length_append, length₁]
  obtain ⟨steps, s', compared, exec⟩ := loopInsns_exec closeBy parts₂ layout.label s₁
  obtain ⟨atLoop', words'⟩ := atLoop₁.jump layout.back compared apart25_words
  have bytes : Bytes (22 :: (x2Regs ++ x4Regs)) := by
    rw [Bytes]
    decide
  refine ⟨1 + (seg.length + steps), s', atLoop', ?_, ?_, words'.trans words, fun fuel => ?_⟩
  · rw [compared.others 22 (by decide), next]
  · rw [AVRState.pair, compared.others 32 (by decide), compared.others (32 + 1) (by decide), ← AVRState.pair,
      kept.pair bytes]
  · have first : execLoop whole (seg.length + (steps + fuel) + 1) (s.at front.length) =
        execLoop whole (seg.length + (steps + fuel)) (s.at (front.length + 1)) := execLoop_step labelled rfl _
    have second := runs whole _ _ parts₁ (steps + fuel)
    have third := exec fuel
    have fuels : 1 + (seg.length + steps) + fuel = seg.length + (steps + fuel) + 1 := by omega
    rw [length₁] at second
    rw [length₂, next] at third
    rw [fuels, first, second, third, behindLoop]
    simp only [roundByte_eq_last isRound]

/-- All turns, from the first round on. -/
theorem Layout.turns {base round count : Nat} {c₂ c₃ whole : Code} {closeBy : Bool} {front seg back : List Insn}
    (layout : Layout c₂ c₃ whole closeBy front seg back) (atLoop : AtLoop base x2Regs x4Regs c₂ s)
    (last : round + (count + 1) = 12) (constant : s.r 22 = roundByte round) :
    ∃ steps s', AtLoop base x2Regs x4Regs c₂ s' ∧ s'.pair 32 = s.pair 32 ∧
      roundInput s' base x2Regs x4Regs = plainRounds (roundInput s base x2Regs x4Regs) round (count + 1) ∧
      ∀ fuel, execLoop whole (steps + fuel) (s.at front.length) =
        execLoop whole fuel (s'.at (behindLoop front seg closeBy)) := by
  induction count generalizing round s with
  | zero =>
      obtain ⟨steps, s', atLoop', -, stack, words, exec⟩ := layout.turn atLoop (by omega) constant
      refine ⟨steps, s', atLoop', stack, ?_, fun fuel => ?_⟩
      · rw [words, plainRounds_succ, plainRounds_zero]
      · rw [exec fuel, if_pos (by omega)]
  | succ count ih =>
      obtain ⟨steps, s₁, atLoop₁, next, stack₁, words₁, exec₁⟩ := layout.turn atLoop (by omega) constant
      obtain ⟨more, s', atLoop', stack', words', exec'⟩ := ih atLoop₁ (by omega) next
      refine ⟨steps + more, s', atLoop', stack'.trans stack₁, ?_, fun fuel => ?_⟩
      · rw [words', words₁, plainRounds_succ _ round]
      · rw [Nat.add_assoc, exec₁, if_neg (by omega), exec']

/-! ### The whole function -/

/-- The words in registers go back to memory. -/
theorem wp_genStores {base : Nat} {x2 x4 : Reg} (atLoop : AtLoop base x2 x4 code s) :
    target.wp (genStores x2 x4) (fun _ _ s' => memWords s' base = roundInput s base x2 x4 ∧ s'.r = s.r) code s := by
  obtain ⟨stage, slices, -, -⟩ := atLoop
  refine wp_bind (wp_mono (stage.wp_storeWord slices.word2 (by decide)) ?_)
  rintro _ code₁ s₁ ⟨kept₁, stage₁, regs₁, stored2, others₁⟩
  refine wp_mono (stage₁.wp_storeWord (slices.kept kept₁).word4 (by decide)) ?_
  rintro _ code₂ s₂ ⟨-, -, regs₂, stored4, others₂⟩
  have same4 : regWord s₁ x4 = regWord s x4 := regWord_congr fun r _ => congrFun regs₁ r
  refine ⟨?_, regs₂.trans regs₁⟩
  rw [memWords, roundInput, stored4, same4, others₂ 0 (by decide) (by decide), others₂ 1 (by decide) (by decide),
    others₂ 2 (by decide) (by decide), others₂ 3 (by decide) (by decide), others₁ 0 (by decide) (by decide),
    others₁ 1 (by decide) (by decide), others₁ 3 (by decide) (by decide), stored2]

/-- At the end of the code. -/
theorem execLoop_end (whole : Code) (s : AVRState) (fuel : Nat) :
    execLoop whole (fuel + 1) (s.at whole.insns.length) = some (.ok (s.at whole.insns.length)) := by
  rw [execLoop, if_pos]
  · rfl
  · rfl

theorem AVRState.at_pc (s : AVRState) (pc : Nat) (here : s.pc = pc) : s.at pc = s := by
  rw [AVRState.at, ← here]

/-- The generated code permutes the state behind Z. -/
theorem Parts.exec {base first : Nat} {c₁ c₂ c₃ c₄ code : Code} {closeBy : Bool} (parts : Parts c₁ c₂ c₃ c₄ code closeBy)
    (starts : Starts base first s) (isRound : first < 12) (atStart : s.pc = 0) :
    ∃ steps final, memWords final base = asconPermute (memWords s base) first ∧ final.r 1 = 0#8 ∧
      final.pair 32 = s.pair 32 ∧ ∀ fuel, execLoop code (steps + fuel + 1) s = some (.ok final) := by
  obtain ⟨segP, s₁, emittedP, runsP, -, atLoop₁, constant, words₁, stack₁⟩ :=
    runsTo_of_wp (wp_genPreamble starts isRound) parts.preamble
  dsimp only at atLoop₁ words₁
  have emittedP : c₁.insns = segP := emittedP.trans (List.nil_append segP)
  have none : ComparedOnly s₁ s₁ := ⟨fun _ _ => rfl, rfl⟩
  obtain ⟨atLoop₁, -⟩ := atLoop₁.jump parts.atTop none apart25_words
  -- What the body and the stores append is where it must be.
  obtain ⟨seg, -, emitted, -⟩ := runsTo_of_wp (wp_genBody atLoop₁ isRound constant) parts.body
  have top : c₂.insns.length = 21 := by rw [parts.labelled, List.length_append, parts.length]; rfl
  obtain ⟨segS, -, appended, -⟩ := runsTo_of_wp (wp_genStores (atLoop₁.jump parts.on none apart25_words).1) parts.stores
  have whole : code.insns = segP ++ (⟨.label, 1, 0⟩ :: (seg ++ loopInsns closeBy)) ++ segS := by
    rw [appended, parts.compared, emitted, parts.labelled, emittedP]
    simp only [List.append_assoc, List.cons_append, List.nil_append]
  have layout : Layout c₂ c₃ code closeBy segP seg segS := {
    parts := whole
    label := by
      have labels : code.labels = [20] := congrArg Settings.labels parts.settings
      rw [Code.getLabel, labels, ← emittedP, parts.length]
      rfl
    body := parts.body
    emitted := emitted
    back := parts.back }
  have last : first + (11 - first + 1) = 12 := by omega
  obtain ⟨steps, s₂, atLoop₂, stack₂, words₂, exec₂⟩ := layout.turns atLoop₁ last constant
  obtain ⟨atLoop₂, same₂⟩ := atLoop₂.jump parts.on (⟨fun _ _ => rfl, rfl⟩ : ComparedOnly s₂ s₂) apart25_words
  obtain ⟨segS', s₃, appended', runsS, words₃, regs₃⟩ := runsTo_of_wp (wp_genStores atLoop₂) parts.stores
  obtain rfl : segS = segS' := List.append_cancel_left (appended.symm.trans appended')
  refine ⟨segP.length + steps + segS.length, s₃.at code.insns.length, ?_, ?_, ?_, fun fuel => ?_⟩
  · have same : memWords (s₃.at code.insns.length) base = memWords s₃ base := rfl
    rw [same, words₃, words₂, words₁, asconPermute_eq_plainRounds _ last]
  · have zero := atLoop₂.stage.ready.zero
    have r1 : (s₃.at code.insns.length).r 1 = s₂.r 1 := congrFun regs₃ 1
    rw [r1]
    refine zero ?_
    have flags : c₄.flags = 0x23#32 := congrArg Settings.flags parts.settings₄
    rw [Code.hasFlag, flags]
    rfl
  · have pair : (s₃.at code.insns.length).pair 32 = s₂.pair 32 := by
      rw [AVRState.pair, AVRState.pair]
      exact congrArg (fun r => (r 33).toNat * 256 + (r 32).toNat) regs₃
    rw [pair, stack₂, stack₁]
  · have partsP : code.insns = [] ++ segP ++ (⟨.label, 1, 0⟩ :: (seg ++ loopInsns closeBy) ++ segS) := by
      rw [whole]
      simp only [List.append_assoc, List.nil_append]
    have partsS : code.insns = (segP ++ (⟨.label, 1, 0⟩ :: (seg ++ loopInsns closeBy))) ++ segS ++ [] := by
      rw [whole, List.append_nil]
    have behind : (segP ++ ((⟨.label, 1, 0⟩ : Insn) :: (seg ++ loopInsns closeBy))).length = behindLoop segP seg closeBy := by
      rw [behindLoop, List.length_append, List.length_cons, List.length_append]
      omega
    have first := runsP code [] _ partsP (steps + (segS.length + (fuel + 1)))
    rw [List.length_nil, Nat.zero_add, s.at_pc 0 atStart] at first
    have second := exec₂ (segS.length + (fuel + 1))
    have third := runsS code _ [] partsS (fuel + 1)
    have atEnd : behindLoop segP seg closeBy + segS.length = code.insns.length := by
      rw [whole, List.length_append, behind]
    rw [behind, atEnd] at third
    have fuels : segP.length + steps + segS.length + fuel + 1 = segP.length + (steps + (segS.length + (fuel + 1))) := by
      omega
    rw [fuels, first, second, third]
    exact execLoop_end code s₃ fuel

/-! ### The interpreter at the start -/

/-- A byte is pushed. -/
theorem store_push {s : AVRState} (b : Byte) (some_byte : 0 < s.pair 32) (inside : s.pair 32 ≤ memSize) :
    s.store 32 preDec b = .ok { s.setPair 32 (s.pair 32 - 1) with memory := s.memory.store (s.pair 32 - 1) b } := by
  have noError : ¬(s.pair 32 = 0 ∨ memSize < s.pair 32) := by omega
  rw [AVRState.store, AVRState.ptr]
  dsimp only
  rw [if_pos rfl, if_neg noError]
  rfl

theorem AVRState.pair_setPair_other (s : AVRState) {p q : Nat} (value : Nat) (below : q + 1 ≠ p) (same : q ≠ p)
    (above : q ≠ p + 1) : (s.setPair p value).pair q = s.pair q := by
  rw [AVRState.pair, AVRState.pair, s.setPair_other value same above,
    s.setPair_other value below fun next => same (Nat.succ.inj next)]

theorem AVRState.pair_memory (s : AVRState) (memory : Mem) (p : Nat) : ({ s with memory := memory }).pair p = s.pair p := rfl

/-- The machine that `exec_permutation` starts. -/
theorem permutationStart_eq_ok {code : Code} {state : List Byte} (first arg2 arg3 arg4 : Nat)
    (noLocals : code.localsSize = 0) (length : state.length = 40) :
    ∃ s fp, permutationStart code state first arg2 arg3 arg4 = .ok (s, fp) ∧ Starts firstBuffer first s ∧
      s.pair 32 = fp ∧ s.pc = 0 ∧ ∀ i < 40, s.memory (firstBuffer + i) = state.getD i 0#8 := by
  obtain ⟨s₀, is₀⟩ : ∃ s₀, s₀ = ({ AVRState.new with memory := AVRState.new.memory.write firstBuffer state }).setPair 30
    firstBuffer := ⟨_, rfl⟩
  have stack₀ : s₀.pair 32 = 4096 := by
    rw [is₀, AVRState.pair_setPair_other _ _ (by decide) (by decide) (by decide), AVRState.pair_memory, AVRState.new,
      pair_setPair _ (by decide), memSize]
  -- The return address is pushed.
  obtain ⟨s₁, is₁⟩ : ∃ s₁, s₁ = { s₀.setPair 32 4095 with memory := s₀.memory.store 4095 (BitVec.ofNat 8 (0xFFFF / 256)) } :=
    ⟨_, rfl⟩
  have stack₁ : s₁.pair 32 = 4095 := by
    rw [is₁, AVRState.pair_memory, pair_setPair s₀ (by decide)]
  obtain ⟨s₂, is₂⟩ : ∃ s₂, s₂ = { s₁.setPair 32 4094 with memory := s₁.memory.store 4094 (BitVec.ofNat 8 0xFFFF) } :=
    ⟨_, rfl⟩
  have stack₂ : s₂.pair 32 = 4094 := by
    rw [is₂, AVRState.pair_memory, pair_setPair s₁ (by decide)]
  have pushedHigh : s₀.store 32 preDec (BitVec.ofNat 8 (0xFFFF / 256)) = .ok s₁ := by
    rw [store_push _ (by rw [stack₀]; decide) (by rw [stack₀, memSize]), stack₀, is₁]
  have pushedLow : s₁.store 32 preDec (BitVec.ofNat 8 0xFFFF) = .ok s₂ := by
    rw [store_push _ (by rw [stack₁]; decide) (by rw [stack₁, memSize]; decide), stack₁, is₂]
  have pushed : s₀.push16 0xFFFF = .ok s₂ := by
    rw [AVRState.push16, pushedHigh]
    exact pushedLow
  have frame : framePointer s₂ code = 0x0FFD := by
    rw [framePointer, stack₂, noLocals]
  obtain ⟨s, isStart⟩ : ∃ s, s = ((((((s₂.setPair 28 0x0FFD).setPair 32 0x0FFD).setPair 22 first).setPair 20 arg2).setPair 18
    arg3).setPair 16 arg4) := ⟨_, rfl⟩
  have started : permutationStart code state first arg2 arg3 arg4 = .ok (s, 0x0FFD) := by
    rw [permutationStart]
    dsimp only
    rw [← is₀, pushed]
    dsimp only [bind, Except.bind]
    rw [frame, isStart]
    rfl
  have pairs (p : Nat) (kind : p = 30 ∨ p = 32) : s.pair p = ((s₂.setPair 28 0x0FFD).setPair 32 0x0FFD).pair p := by
    rw [isStart]
    rcases kind with rfl | rfl
    all_goals
      simp (disch := decide) only [AVRState.pair_setPair_other]
  have stack : s.pair 32 = 0x0FFD := (pairs 32 (Or.inr rfl)).trans (pair_setPair _ (by decide))
  refine ⟨s, 0x0FFD, started, ⟨?_, ?_, ?_, ?_, ?_⟩, stack, ?_, fun i inside => ?_⟩
  · rw [isStart, is₂, is₁, is₀, AVRState.new]
    simp (disch := decide) only [AVRState.setPair_other]
    rfl
  · rw [isStart]
    simp (disch := decide) only [AVRState.setPair_other]
    rw [AVRState.setPair, AVRState.setReg_other _ _ (by decide), AVRState.setReg_self]
  · have buffer : firstBuffer % 65536 = firstBuffer := by decide
    rw [pairs 30 (Or.inl rfl), is₂, is₁, is₀]
    simp (disch := decide) only [AVRState.pair_setPair_other, AVRState.pair_memory]
    rw [AVRState.pair_setPair, buffer]
  · rw [stack, firstBuffer]
    decide
  · rw [stack, memSize]
    decide
  · rw [isStart, is₂, is₁, is₀]
    rfl
  · have memory : s.memory = ((AVRState.new.memory.write firstBuffer state).store 4095 (BitVec.ofNat 8 (0xFFFF / 256))).store
        4094 (BitVec.ofNat 8 0xFFFF) := by
      rw [isStart, is₂, is₁, is₀]
      rfl
    have below : firstBuffer + 40 ≤ 4094 := by decide
    rw [memory, Mem.store, if_neg (by omega), Mem.store, if_neg (by omega), write_apply_of_lt _ _ _ (by rwa [length])]
    rfl

theorem memWords_eq (s : AVRState) (base : Nat) : memWords s base = wordsOf (s.memory.view base) := by
  rw [memWords, wordsOf, view_view, view_view, view_view, view_view]
  rfl

theorem wordsOf_congr {data other : Mem} (same : ∀ i < 40, data i = other i) : wordsOf data = wordsOf other :=
  eq_of_byteForOffset_eq fun o inside => by
    rw [byteForOffset_wordsOf data inside, byteForOffset_wordsOf other inside, same o inside]

/-- The bytes of the state in memory. -/
theorem read_memWords (s : AVRState) (base : Nat) :
    s.memory.read base 40 = (List.range 40).map (byteForOffset (memWords s base)) := by
  apply List.ext_getElem?
  intro i
  rw [getElem?_read, List.getElem?_map, memWords_eq]
  by_cases inside : i < 40
  · rw [if_pos inside, List.getElem?_range inside, Option.map_some, byteForOffset_wordsOf _ inside, view_apply]
  · rw [if_neg inside, List.getElem?_eq_none (by rw [List.length_range]; omega), Option.map_none]

/-- A run of the generated code on a state. -/
theorem Parts.permutes {c₁ c₂ c₃ c₄ code : Code} {closeBy : Bool} (parts : Parts c₁ c₂ c₃ c₄ code closeBy)
    {state : List Byte} (length : state.length = 40) {first : Nat} (arg2 arg3 arg4 : Nat) (isRound : first ≤ 11) :
    ∃ steps, ∀ fuel, steps ≤ fuel →
      (∃ start fp final, permutationStart code state first arg2 arg3 arg4 = .ok (start, fp) ∧
        execLoop code fuel start = some (.ok final) ∧ start.pair 32 = fp ∧ final.pair 32 = fp ∧ start.r 1 = 0#8 ∧
        final.r 1 = 0#8) ∧
      execPermutation code fuel state first arg2 arg3 arg4 = some (.ok ((List.range 40).map
        (byteForOffset (asconPermute (wordsOf fun i => state.getD i 0#8) first)))) := by
  have noLocals : code.localsSize = 0 := congrArg Settings.localsSize parts.settings
  obtain ⟨start, fp, started, starts, stack, atStart, bytes⟩ := permutationStart_eq_ok first arg2 arg3 arg4 noLocals length
  obtain ⟨steps, final, words, r1, stack', exec⟩ := parts.exec starts (Nat.lt_succ_of_le isRound) atStart
  have input : memWords start firstBuffer = wordsOf fun i => state.getD i 0#8 := by
    rw [memWords_eq]
    exact wordsOf_congr bytes
  rw [input] at words
  refine ⟨steps + 1, fun fuel enough => ?_⟩
  obtain ⟨more, rfl⟩ := Nat.exists_eq_add_of_le enough
  have ran : execLoop code (steps + 1 + more) start = some (.ok final) := by
    rw [Nat.add_right_comm]
    exact exec more
  have finished : permutationEnd code fp final state.length = .ok (final.memory.read firstBuffer 40) := by
    rw [permutationEnd, if_neg (fun nonzero => nonzero.1 r1), if_neg (fun moved => moved (stack'.trans stack)), length]
    rfl
  have executed : execPermutation code (steps + 1 + more) state first arg2 arg3 arg4 =
      some (permutationEnd code fp final state.length) := by
    unfold execPermutation
    rw [started]
    simp only [ran]
    simp only [Option.map_some, bind, Except.bind]
  refine ⟨⟨start, fp, final, started, ran, stack, stack'.trans stack, starts.zero, r1⟩, ?_⟩
  rw [executed, finished, read_memWords, words]

/-- The generated AVR code computes the permutation of the C backend, for every state and every first round. -/
theorem genAsconPermutation_permutes (state : List Byte) (length : state.length = 40) (first arg2 arg3 arg4 : Nat)
    (isRound : first ≤ 11) :
    ∃ code, genAsconPermutation.run Code.new = .ok ((), code) ∧ ∃ steps, ∀ fuel, steps ≤ fuel →
      (∃ start fp final, permutationStart code state first arg2 arg3 arg4 = .ok (start, fp) ∧
        execLoop code fuel start = some (.ok final) ∧ start.pair 32 = fp ∧ final.pair 32 = fp ∧ start.r 1 = 0#8 ∧
        final.r 1 = 0#8) ∧
      execPermutation code fuel state first arg2 arg3 arg4 = some (.ok ((List.range 40).map
        (byteForOffset (asconPermute (wordsOf fun i => state.getD i 0#8) first)))) := by
  obtain ⟨c₁, c₂, c₃, c₄, code, closeBy, parts⟩ := genAsconPermutation_parts
  exact ⟨code, parts.built, parts.permutes length arg2 arg3 arg4 isRound⟩

/-- The state of zeros with all twelve rounds. -/
theorem genAsconPermutation_permutes_zeros :
    ∃ code, genAsconPermutation.run Code.new = .ok ((), code) ∧ ∃ steps, ∀ fuel, steps ≤ fuel →
      (∃ start fp final, permutationStart code (List.replicate 40 0#8) 0 0 0 0 = .ok (start, fp) ∧
        execLoop code fuel start = some (.ok final) ∧ start.pair 32 = fp ∧ final.pair 32 = fp ∧ start.r 1 = 0#8 ∧
        final.r 1 = 0#8) ∧
      execPermutation code fuel (List.replicate 40 0#8) 0 0 0 0 = some (.ok ((List.range 40).map
        (byteForOffset (asconPermute (wordsOf fun i => (List.replicate 40 0#8).getD i 0#8) 0)))) :=
  genAsconPermutation_permutes (List.replicate 40 0#8) List.length_replicate 0 0 0 0 (Nat.zero_le 11)

/-! ### Every end of a run -/

/-- A loop that has ended ends in the same way when it may run longer. -/
theorem execLoop_add (code : Code) {fuel : Nat} {s : AVRState} {result : Except String AVRState}
    (ended : execLoop code fuel s = some result) (more : Nat) : execLoop code (fuel + more) s = some result := by
  induction fuel generalizing s with
  | zero => exact nomatch ended
  | succ fuel ih =>
      rw [Nat.add_right_comm, execLoop]
      rw [execLoop] at ended
      by_cases last : s.pc = code.insns.length
      · rw [if_pos last] at ended ⊢
        exact ended
      · rw [if_neg last] at ended ⊢
        cases found : code.insns[s.pc]? with
        | none =>
            simp only [found] at ended ⊢
            exact ended
        | some insn =>
            cases stepped : execInsn { s with pc := s.pc + 1 } code insn with
            | error e =>
                simp only [found, stepped] at ended ⊢
                exact ended
            | ok s' =>
                simp only [found, stepped] at ended ⊢
                exact ih ended

theorem execPermutation_add {code : Code} {fuel : Nat} {state : List Byte} {count arg2 arg3 arg4 : Nat}
    {result : Except String (List Byte)} (ended : execPermutation code fuel state count arg2 arg3 arg4 = some result)
    (more : Nat) : execPermutation code (fuel + more) state count arg2 arg3 arg4 = some result := by
  unfold execPermutation at ended ⊢
  cases started : permutationStart code state count arg2 arg3 arg4 with
  | error e =>
      rw [started] at ended
      exact ended
  | ok begun =>
      obtain ⟨start, fp⟩ := begun
      rw [started] at ended
      obtain ⟨looped, ran, same⟩ := Option.map_eq_some_iff.1 ended
      exact Option.map_eq_some_iff.2 ⟨looped, execLoop_add code ran more, same⟩

/-- One instruction list serves all states and first rounds. The interpreter ends on it with the stack pointer and `r1`
as they were, and however long it may run, the only result that it can give is what the C backend computes. -/
theorem execPermutation_eq_asconPermute :
    ∃ code, genAsconPermutation.run Code.new = .ok ((), code) ∧
      ∀ (state : List Byte) (first arg2 arg3 arg4 : Nat), state.length = 40 → first ≤ 11 →
        (∃ fuel start fp final, permutationStart code state first arg2 arg3 arg4 = .ok (start, fp) ∧
          execLoop code fuel start = some (.ok final) ∧ final.pair 32 = start.pair 32 ∧ final.r 1 = start.r 1) ∧
        (∃ fuel, (execPermutation code fuel state first arg2 arg3 arg4).isSome = true) ∧
        ∀ fuel result, execPermutation code fuel state first arg2 arg3 arg4 = some result →
          result = .ok ((List.range 40).map
            (byteForOffset (asconPermute (wordsOf fun i => state.getD i 0#8) first))) := by
  obtain ⟨c₁, c₂, c₃, c₄, code, closeBy, parts⟩ := genAsconPermutation_parts
  refine ⟨code, parts.built, fun state first arg2 arg3 arg4 length isRound => ?_⟩
  obtain ⟨steps, permutes⟩ := parts.permutes length arg2 arg3 arg4 isRound
  obtain ⟨⟨start, fp, final, started, ran, stack, stack', zero, zero'⟩, executed⟩ := permutes steps (Nat.le_refl steps)
  refine ⟨⟨steps, start, fp, final, started, ran, stack'.trans stack.symm, zero'.trans zero.symm⟩,
    ⟨steps, Option.isSome_iff_exists.2 ⟨_, executed⟩⟩, fun fuel result ended => ?_⟩
  -- A run that has ended goes on to the fuel that is known to be enough.
  have both := execPermutation_add ended steps
  rw [(permutes (fuel + steps) (Nat.le_add_left steps fuel)).2] at both
  exact (Option.some.inj both).symm

/-- The state of zeros from the seventh round on. -/
theorem execPermutation_eq_asconPermute_zeros :
    ∃ code, genAsconPermutation.run Code.new = .ok ((), code) ∧
      ∃ fuel, execPermutation code fuel (List.replicate 40 0#8) 6 0 0 0 = some (.ok ((List.range 40).map
        (byteForOffset (asconPermute (wordsOf fun i => (List.replicate 40 0#8).getD i 0#8) 6)))) := by
  obtain ⟨code, built, computes⟩ := execPermutation_eq_asconPermute
  obtain ⟨-, ⟨fuel, some_result⟩, only⟩ := computes (List.replicate 40 0#8) 6 0 0 0 List.length_replicate (by decide)
  obtain ⟨result, ended⟩ := Option.isSome_iff_exists.1 some_result
  exact ⟨code, built, fuel, ended.trans (congrArg some (only fuel result ended))⟩

end AsconSuite.Avr
