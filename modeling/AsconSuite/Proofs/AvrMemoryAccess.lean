/-
Module: AsconSuite.Proofs.AvrMemoryAccess
Layer: Proofs
Purpose: The code that accesses memory behind X, Y and Z transfers the bytes from an offset on, and leaves the pointers,
  the other registers and the other bytes of memory; and the one store that does not.
Imports: AsconSuite.Proofs.AvrSums, AsconSuite.Tools.AvrMemory
Trusted boundary: none (fully proved)
Main exports: Avr.Pool, Avr.Held, Avr.tempreg_run, Avr.wp_addPtr, Avr.Accessed
-/
import AsconSuite.Proofs.AvrSums
import AsconSuite.Tools.AvrMemory

namespace AsconSuite.Avr

open ByteWord ByteMemory
open Emit
open Emit.Target

variable {code code' : Code} {s s' : AVRState} {Q : Unit → Code → AVRState → Prop}

/-! ### Registers that nobody hands out -/

/-- The registers that may be allocated are those of the flags, and `r0` and `r1` are not allocated unless a flag says
so. -/
structure Pool (code : Code) : Prop where
  order : code.regOrder = code.resetRegs.regOrder
  r0 : code.hasFlag tempR0 = false → inRegs code.allocated 0 = false
  r1 : code.hasFlag tempR1 = false → inRegs code.allocated 1 = false

theorem Pool.mem_regOrder (pool : Pool code) {r : Nat} (member : r ∈ code.regOrder) :
    r < 32 ∧ (code.hasFlag tempR0 = false → r ≠ 0) ∧ (code.hasFlag tempR1 = false → r ≠ 1) := by
  rw [pool.order] at member
  exact resetRegs_mem _ _ _ _ _ r member

/-- A register that is allocated, or that belongs to a pointer that is in use: it is no temporary register. -/
def Held (code : Code) (r : Nat) : Prop :=
  inRegs code.allocated r = true ∨ (26 ≤ r ∧ r < 32 ∧ r ∉ code.regOrder)

theorem Held.lt {r : Nat} (held : Held code r) : r < 32 := by
  rcases held with allocated | ⟨_, lt, _⟩
  · exact lt_of_inRegs allocated
  · exact lt

/-- What decides which registers are handed out is as it was. -/
structure SamePool (code code' : Code) : Prop where
  flags : code'.flags = code.flags
  allocated : code'.allocated = code.allocated
  regOrder : code'.regOrder = code.regOrder

theorem SamePool.refl (code : Code) : SamePool code code := ⟨rfl, rfl, rfl⟩

theorem SamePool.trans {code'' : Code} (first : SamePool code code') (second : SamePool code' code'') :
    SamePool code code'' :=
  ⟨second.flags.trans first.flags, second.allocated.trans first.allocated, second.regOrder.trans first.regOrder⟩

theorem SameAlloc.pool (same : SameAlloc code code') : SamePool code code' :=
  ⟨same.flags, same.allocated, same.regOrder⟩

theorem SamePool.hasFlag (same : SamePool code code') (flag : BitVec 32) : code'.hasFlag flag = code.hasFlag flag := by
  rw [Code.hasFlag, Code.hasFlag, same.flags]

/-! ### Temporary registers -/

/-- The first register that may be allocated and is free. -/
def firstFree (code : Code) : Option Nat := code.regOrder.find? fun reg => !inRegs code.allocated reg

/-- The builder with one more register taken. -/
def taken (code : Code) (reg : Nat) : Code :=
  { code with
    allocated := code.allocated ||| regBit reg
    immRegs := code.immRegs &&& ~~~regBit reg }

/-- The builder with a register released. -/
def released (code : Code) (reg : Nat) : Code := { code with allocated := code.allocated &&& ~~~regBit reg }

theorem allocateSpare_run : (allocateSpare false).run code =
    .ok (firstFree code, (firstFree code).elim code (taken code)) := by
  have same : (code.regOrder.find? fun reg => !inRegs code.allocated reg && !(false && decide (reg < 16))) =
      firstFree code := by
    simp only [Bool.false_and, Bool.not_false, Bool.and_true]
    rfl
  unfold allocateSpare
  rw [StateT.run_bind, StateT.run_get]
  simp only [pure_bind]
  rw [same]
  cases firstFree code with
  | none => rfl
  | some reg => rfl

theorem allocateReg_one_run : (allocateReg 1).run code =
    (firstFree code).elim (.error "too many registers in use") fun reg => .ok ([reg], taken code reg) := by
  have unfolded : (allocateReg 1).run code = ((allocateSpare false).run code).bind fun p =>
      p.1.elim (.error "too many registers in use") fun reg => .ok ([reg], p.2) := by
    unfold allocateReg allocateRegInternal allocateRegLoop
    rw [if_neg Nat.one_ne_zero]
    dsimp only
    rw [if_neg (by decide), pure_bind, StateT.run_bind]
    refine congrArg _ (funext fun p => ?_)
    obtain ⟨_ | reg, code'⟩ := p
    · rfl
    · rfl
  rw [unfolded, allocateSpare_run]
  cases firstFree code with
  | none => rfl
  | some reg => rfl

theorem tempreg_run : tempreg.run code =
    if !code.hasFlag tempR0 || !inRegs code.allocated tempRegNumber then .ok (tempRegNumber, code)
    else (firstFree code).elim (.error "too many registers in use") fun reg => .ok (reg, released (taken code reg) reg) := by
  unfold tempreg
  rw [StateT.run_bind, StateT.run_get]
  simp only [pure_bind]
  by_cases free : (!code.hasFlag tempR0 || !inRegs code.allocated tempRegNumber) = true
  · rw [if_pos free, if_pos free]
    rfl
  · rw [if_neg free, if_neg free, StateT.run_bind, allocateReg_one_run]
    cases firstFree code with
    | none => rfl
    | some reg => rfl

/-- A register that code may use as it likes. -/
structure Scratch (code : Code) (t : Nat) : Prop where
  bound : t < 32
  notHeld : ¬Held code t
  notZero : code.hasFlag tempR1 = false → t ≠ 1

theorem firstFree_scratch (pool : Pool code) {t : Nat} (found : firstFree code = some t) : Scratch code t := by
  have member := List.mem_of_find?_eq_some found
  have free := List.find?_some found
  rw [Bool.not_eq_true'] at free
  obtain ⟨bound, -, notZero⟩ := pool.mem_regOrder member
  refine ⟨bound, ?_, notZero⟩
  rintro (allocated | ⟨_, _, outside⟩)
  · rw [free] at allocated
    exact nomatch allocated
  · exact outside member

theorem firstFree_isSome : (firstFree code).isSome = code.regOrder.any fun reg => !inRegs code.allocated reg :=
  List.isSome_find?

/-- The register that was taken and released is as it was. -/
theorem samePool_released {t : Nat} (pool : Pool code) (found : firstFree code = some t) :
    SamePool code (released (taken code t) t) where
  flags := rfl
  allocated := by
    have member := List.mem_of_find?_eq_some found
    have free := List.find?_some found
    rw [Bool.not_eq_true'] at free
    have bound := (pool.mem_regOrder member).1
    refine regs_ext fun r => ?_
    show inRegs ((code.allocated ||| regBit t) &&& ~~~regBit t) r = true ↔ _
    rw [inRegs_and_not, inRegs_or, ← Bool.not_eq_true, inRegs_regBit bound]
    constructor
    · rintro ⟨allocated | same, other⟩
      · exact allocated
      · exact absurd same other
    · intro allocated
      refine ⟨Or.inl allocated, ?_⟩
      rintro rfl
      rw [free] at allocated
      exact nomatch allocated
  regOrder := rfl

/-- Where there is a spare register, `tempreg` finds one. -/
theorem tempreg_spare (pool : Pool code) (spare : hasSpare code = true) :
    ∃ t code', tempreg.run code = .ok (t, code') ∧ code'.insns = code.insns ∧ SamePool code code' ∧ Scratch code t := by
  rw [tempreg_run]
  by_cases free : (!code.hasFlag tempR0 || !inRegs code.allocated tempRegNumber) = true
  · rw [if_pos free]
    refine ⟨_, code, rfl, rfl, SamePool.refl code, ⟨by decide, ?_, fun _ => by decide⟩⟩
    rintro (allocated | ⟨high, _⟩)
    · rw [Bool.or_eq_true, Bool.not_eq_true', Bool.not_eq_true'] at free
      rcases free with noFlag | notTaken
      · rw [tempRegNumber, pool.r0 noFlag] at allocated
        exact nomatch allocated
      · rw [notTaken] at allocated
        exact nomatch allocated
    · exact absurd high (by decide)
  · rw [if_neg free]
    rw [hasSpare, Bool.eq_false_iff.2 free, Bool.false_or, ← firstFree_isSome, Option.isSome_iff_exists] at spare
    obtain ⟨t, found⟩ := spare
    rw [found]
    exact ⟨t, _, rfl, rfl, samePool_released pool found, firstFree_scratch pool found⟩

/-- Where there is none, it throws. -/
theorem tempreg_noSpare (none : ¬hasSpare code = true) : tempreg.run code = .error "too many registers in use" := by
  rw [hasSpare, Bool.or_eq_true, not_or, ← firstFree_isSome, Option.not_isSome_iff_eq_none] at none
  rw [tempreg_run, if_neg none.1, none.2]
  rfl

/-! ### Pointers -/

theorem AVRState.setPair_other (s : AVRState) {p r : Nat} (value : Nat) (low : r ≠ p) (high : r ≠ p + 1) :
    (s.setPair p value).r r = s.r r := by
  rw [AVRState.setPair, AVRState.setReg_other _ _ high, AVRState.setReg_other _ _ low]

theorem AVRState.pair_setPair (s : AVRState) (p value : Nat) : (s.setPair p value).pair p = value % 65536 := by
  have low : (s.setPair p value).r p = BitVec.ofNat 8 value := by
    rw [AVRState.setPair, AVRState.setReg_other _ _ (by omega), AVRState.setReg_self]
  have high : (s.setPair p value).r (p + 1) = BitVec.ofNat 8 (value / 256) := by
    rw [AVRState.setPair, AVRState.setReg_self]
  rw [AVRState.pair, low, high, BitVec.toNat_ofNat, BitVec.toNat_ofNat]
  omega

theorem AVRState.pair_congr {p : Nat} (low : s'.r p = s.r p) (high : s'.r (p + 1) = s.r (p + 1)) :
    s'.pair p = s.pair p := by
  rw [AVRState.pair, AVRState.pair, low, high]

/-- A pointer determines the bytes of its registers. -/
theorem AVRState.pair_inj {p : Nat} (same : s'.pair p = s.pair p) : s'.r p = s.r p ∧ s'.r (p + 1) = s.r (p + 1) := by
  rw [AVRState.pair, AVRState.pair] at same
  have low := (s.r p).isLt
  have low' := (s'.r p).isLt
  constructor
  · apply BitVec.eq_of_toNat_eq
    omega
  · apply BitVec.eq_of_toNat_eq
    omega

/-- The first register of X, Y or Z. -/
def IsPointer (p : Nat) : Prop := p = 26 ∨ p = 28 ∨ p = 30

/-- The machine keeps zero in `r1` unless a flag makes it a temporary register. -/
def Zeroed (code : Code) (s : AVRState) : Prop := code.hasFlag tempR1 = false → s.r 1 = 0#8

/-- A pointer moves by an offset, and nothing else changes. -/
structure PointerMoved (p : Nat) (offset : Int) (s s' : AVRState) : Prop where
  pair : (s'.pair p : Int) = (s.pair p + offset) % 65536
  others : ∀ r, r ≠ p → r ≠ p + 1 → s'.r r = s.r r
  memory : s'.memory = s.memory

theorem pointerMoved_setPair (s : AVRState) (p value : Nat) (offset : Int)
    (same : (value : Int) % 65536 = (s.pair p + offset) % 65536) (regs : s'.r = (s.setPair p value).r)
    (memory : s'.memory = s.memory) : PointerMoved p offset s s' where
  pair := by
    rw [AVRState.pair_congr (congrFun regs p) (congrFun regs (p + 1)), AVRState.pair_setPair, ← same]
    rfl
  others := fun r low high => by rw [regs, s.setPair_other value low high]
  memory := memory

theorem AVRState.setDifference_other (s : AVRState) {r reg : Nat} (result : Int) (other : r ≠ reg) :
    (s.setDifference reg result).r r = s.r r := s.setReg_other _ other

/-- The carry of a difference of bytes goes into the difference of the next ones. -/
theorem pointerMoved_bytes {s₁ : AVRState} {p low high : Nat} {offset : Int} (lowByte : low < 256) (highByte : high < 256)
    (back : (low + 256 * high : Int) % 65536 = (-offset) % 65536)
    (first : s₁ = s.setDifference p ((s.r p).toNat - low)) :
    PointerMoved p offset s (s₁.setDifference (p + 1) ((s₁.r (p + 1)).toNat - high - s₁.carry)) where
  pair := by
    have bound := (s.r p).isLt
    have bound' := (s₁.r (p + 1)).isLt
    have carried := s₁.carry_le
    have lowEq := s.setDifference_eq p ((s.r p).toNat - low) (by omega) (by omega)
    rw [← first] at lowEq
    have highEq := s₁.setDifference_eq (p + 1) ((s₁.r (p + 1)).toNat - high - s₁.carry) (by omega) (by omega)
    have kept := s₁.setDifference_other ((s₁.r (p + 1)).toNat - high - s₁.carry) (Nat.ne_of_lt (Nat.lt_succ_self p))
    have before : s₁.r (p + 1) = s.r (p + 1) := by
      rw [first, AVRState.setDifference_other _ _ (Nat.succ_ne_self p)]
    rw [before] at highEq kept
    rw [AVRState.pair, AVRState.pair, before, kept]
    have byte := ((s₁.setDifference (p + 1) ((s.r (p + 1)).toNat - high - s₁.carry)).r (p + 1)).isLt
    have byte' := (s₁.r p).isLt
    push_cast
    omega
  others := fun r notLow notHigh => by
    rw [AVRState.setDifference_other _ _ notHigh, first, AVRState.setDifference_other _ _ notLow]
  memory := by rw [first]; rfl

theorem pointerMoved_highByte (s : AVRState) {p high : Nat} {offset : Int} (highByte : high < 256)
    (back : (256 * high : Int) % 65536 = (-offset) % 65536) :
    PointerMoved p offset s (s.setDifference (p + 1) ((s.r (p + 1)).toNat - high)) where
  pair := by
    have bound := (s.r p).isLt
    have bound' := (s.r (p + 1)).isLt
    have first := s.setDifference_eq (p + 1) ((s.r (p + 1)).toNat - high) (by omega) (by omega)
    have kept := s.setDifference_other ((s.r (p + 1)).toNat - high) (Nat.ne_of_lt (Nat.lt_succ_self p))
    have byte := (s.setDifference (p + 1) ((s.r (p + 1)).toNat - high)).r (p + 1) |>.isLt
    rw [AVRState.pair, AVRState.pair, kept]
    push_cast
    omega
  others := fun r _ notHigh => by rw [AVRState.setDifference_other _ _ notHigh]
  memory := rfl

theorem wp_addPtr {p : Nat} (pointer : IsPointer p) (offset : Int) (zeroed : Zeroed code s) :
    target.wp (addPtr p offset) (fun _ code' s' => SameAlloc code code' ∧ PointerMoved p offset s s') code s := by
  have small : p < 256 := by rcases pointer with rfl | rfl | rfl <;> decide
  refine wp_bind (wp_get (wp_ite (fun zero => ?_) fun moves => wp_ite (fun near => ?_) fun far =>
    wp_ite (fun near => ?_) fun far' => ?_))
  · refine wp_pure ⟨SameAlloc.refl code, ?_, fun _ _ _ => rfl, rfl⟩
    have bound := (s.r p).isLt
    have bound' := (s.r (p + 1)).isLt
    rw [zero, AVRState.pair]
    omega
  · refine wp_immreg fun _ _ => ⟨_, rfl, sameAlloc_pushed _ _, ?_⟩
    refine pointerMoved_setPair s p (s.pair p + offset.toNat % 256) offset ?_ rfl rfl
    push_cast
    omega
  · refine wp_immreg fun _ _ => ⟨_, rfl, sameAlloc_pushed _ _, ?_⟩
    refine pointerMoved_setPair s p ((s.pair p + 0x10000 - (-offset).toNat % 256) % 0x10000) offset ?_ rfl rfl
    omega
  · have lowByte : (-offset % 256).toNat < 256 := by omega
    have highByte : (-offset / 256 % 256).toNat < 256 := by omega
    have back : ((-offset % 256).toNat + 256 * (-offset / 256 % 256).toNat : Int) % 65536 = (-offset) % 65536 := by
      omega
    dsimp only
    rw [← Nat.mod_eq_of_lt lowByte, ← Nat.mod_eq_of_lt highByte] at back
    refine wp_ite (fun some_low => ?_) fun no_low => ?_
    · have alloc (second : Insn) : SameAlloc code ((code.pushed ⟨.subi, p, (-offset % 256).toNat % 256⟩).pushed second) :=
        (sameAlloc_pushed code _).trans (sameAlloc_pushed _ second)
      have lowByte' := Nat.mod_lt (-offset % 256).toNat (by decide : 0 < 256)
      have highByte' := Nat.mod_lt (-offset / 256 % 256).toNat (by decide : 0 < 256)
      obtain ⟨s₁, first⟩ : ∃ s₁, s₁ = s.setDifference p ((s.r p).toNat - ((-offset % 256).toNat % 256 : Nat)) := ⟨_, rfl⟩
      have moved := pointerMoved_bytes lowByte' highByte' back first
      refine wp_bind (wp_immreg fun _ _ => ⟨s₁, by rw [first]; rfl, ?_⟩)
      refine wp_ite (fun _ => wp_immreg fun _ _ => ⟨_, rfl, alloc _, moved⟩) fun noHigh => ?_
      -- The high byte is zero, and so is the register that is subtracted in its place.
      rw [not_or, not_not] at noHigh
      obtain ⟨noHigh, noTemp⟩ := noHigh
      have zero : (s₁.r 1).toNat = (-offset / 256 % 256).toNat % 256 := by
        rw [first, AVRState.setDifference_other _ _ (by rcases pointer with rfl | rfl | rfl <;> decide),
          zeroed (Bool.eq_false_iff.2 noTemp), noHigh]
        rfl
      rw [← zero] at moved
      exact wp_tworeg fun _ _ _ => ⟨_, rfl, alloc _, moved⟩
    · have highOnly : (256 * ((-offset / 256 % 256).toNat % 256 : Nat) : Int) % 65536 = (-offset) % 65536 := by
        rw [Nat.mod_eq_of_lt highByte]
        omega
      have moved := pointerMoved_highByte (p := p) s (Nat.mod_lt (-offset / 256 % 256).toNat (by decide : 0 < 256)) highOnly
      exact wp_immreg fun _ _ => ⟨_, rfl, sameAlloc_pushed _ _, moved⟩

/-! ### Loads and stores of one byte -/

namespace AVRState

/-- The address behind a pointer. -/
def place (s : AVRState) (p offset : Nat) : Nat := if offset = postInc then s.pair p else s.pair p + offset

/-- The pointer behind an access. -/
def moved (s : AVRState) (p offset : Nat) : AVRState := if offset = postInc then s.setPair p (s.pair p + 1) else s

theorem moved_memory (s : AVRState) (p offset : Nat) : (s.moved p offset).memory = s.memory := by
  rw [moved]
  split <;> rfl

theorem moved_other (s : AVRState) {p r : Nat} (offset : Nat) (low : r ≠ p) (high : r ≠ p + 1) :
    (s.moved p offset).r r = s.r r := by
  rw [moved]
  split
  · exact s.setPair_other _ low high
  · rfl

theorem ptr_eq {s : AVRState} {p offset : Nat} (mode : offset < 64 ∨ offset = postInc)
    (inside : s.place p offset < memSize) : s.ptr p offset = .ok (s.place p offset, s.moved p offset) := by
  rcases mode with near | rfl
  · have notPre : offset ≠ preDec := fun same => absurd near (by rw [same]; decide)
    have notPost : offset ≠ postInc := fun same => absurd near (by rw [same]; decide)
    rw [place, if_neg notPost] at inside
    rw [ptr, if_neg notPre, if_neg notPost, if_neg (Nat.not_le.2 inside), place, moved, if_neg notPost, if_neg notPost]
    rfl
  · rw [place, if_pos rfl] at inside
    rw [ptr, if_neg (by decide), if_pos rfl, if_neg (Nat.not_le.2 inside), place, moved, if_pos rfl, if_pos rfl]
    rfl

end AVRState

theorem wp_memory {type : InsnType} {reg offset : Nat} (mode : offset < 64 ∨ offset = postInc)
    (holds : ∃ s', stepInsn s ⟨type, reg, offset⟩ = .ok s' ∧ Q () (code.pushed ⟨type, reg, offset⟩) s') :
    target.wp (memory type reg offset) Q code s := by
  have byte : offset % 256 = offset := by
    rcases mode with near | rfl
    · exact Nat.mod_eq_of_lt (by omega)
    · rfl
  refine wp_pushChecked fun i made => ?_
  rw [byte, Insn.ofMemory] at made
  have result : i = ⟨type, reg, offset⟩ := by
    split at made
    · split at made
      · split at made
        · exact nomatch made
        · cases made; rfl
      · split at made
        · exact nomatch made
        · cases made; rfl
    · cases made; rfl
  rw [result]
  exact holds

/-- A load, and the first register of its pointer. -/
def Loads (type : InsnType) (p : Nat) : Prop := (type = .ldX ∧ p = 26) ∨ (type = .ldY ∧ p = 28) ∨ (type = .ldZ ∧ p = 30)

/-- A store, and the first register of its pointer. -/
def Stores (type : InsnType) (p : Nat) : Prop := (type = .stX ∧ p = 26) ∨ (type = .stY ∧ p = 28) ∨ (type = .stZ ∧ p = 30)

theorem Loads.pointer {type : InsnType} {p : Nat} (loads : Loads type p) : IsPointer p := by
  rcases loads with ⟨_, rfl⟩ | ⟨_, rfl⟩ | ⟨_, rfl⟩
  · exact Or.inl rfl
  · exact Or.inr (Or.inl rfl)
  · exact Or.inr (Or.inr rfl)

theorem Stores.pointer {type : InsnType} {p : Nat} (stores : Stores type p) : IsPointer p := by
  rcases stores with ⟨_, rfl⟩ | ⟨_, rfl⟩ | ⟨_, rfl⟩
  · exact Or.inl rfl
  · exact Or.inr (Or.inl rfl)
  · exact Or.inr (Or.inr rfl)

theorem wp_load {type : InsnType} {p reg offset : Nat} (loads : Loads type p) (mode : offset < 64 ∨ offset = postInc)
    (inside : s.place p offset < memSize)
    (holds : ∀ code', SameAlloc code code' →
      Q () code' ((s.moved p offset).setReg reg (s.memory (s.place p offset)))) :
    target.wp (memory type reg offset) Q code s := by
  refine wp_memory mode ⟨_, ?_, holds _ (sameAlloc_pushed code _)⟩
  have loaded : s.loadTo reg p offset = .ok ((s.moved p offset).setReg reg (s.memory (s.place p offset))) := by
    rw [AVRState.loadTo, AVRState.load, AVRState.ptr_eq mode inside, ← s.moved_memory p offset]
    rfl
  rcases loads with ⟨rfl, rfl⟩ | ⟨rfl, rfl⟩ | ⟨rfl, rfl⟩
  · exact loaded
  · exact loaded
  · exact loaded

theorem wp_store {type : InsnType} {p reg offset : Nat} (stores : Stores type p) (mode : offset < 64 ∨ offset = postInc)
    (inside : s.place p offset < memSize)
    (holds : ∀ code', SameAlloc code code' →
      Q () code' { s.moved p offset with memory := s.memory.store (s.place p offset) (s.r reg) }) :
    target.wp (memory type reg offset) Q code s := by
  refine wp_memory mode ⟨_, ?_, holds _ (sameAlloc_pushed code _)⟩
  have stored : s.store p offset (s.r reg) =
      .ok { s.moved p offset with memory := s.memory.store (s.place p offset) (s.r reg) } := by
    rw [AVRState.store, AVRState.ptr_eq mode inside, ← s.moved_memory p offset]
    rfl
  rcases stores with ⟨rfl, rfl⟩ | ⟨rfl, rfl⟩ | ⟨rfl, rfl⟩
  · exact stored
  · exact stored
  · exact stored

/-! ### Accesses byte by byte -/

/-- What an access makes of a byte of a register and of a byte of memory. -/
structure Transfer where
  onReg : Byte → Byte → Byte
  onMem : Byte → Byte → Byte

namespace Transfer

/-- A load. -/
def load : Transfer := ⟨fun _ m => m, fun _ m => m⟩

/-- A store. -/
def store : Transfer := ⟨fun r _ => r, fun r _ => r⟩

/-- An exclusive or of memory into the register. -/
def xor : Transfer := ⟨fun r m => r ^^^ m, fun _ m => m⟩

/-- An exclusive or of the register into memory. -/
def xorIn : Transfer := ⟨fun r _ => r, fun r m => m ^^^ r⟩

end Transfer

/-- The bytes of a register and those of memory from an address on were accessed. Beside them only the scratch
registers may have changed. -/
structure Accessed (transfer : Transfer) (scratch : List Nat) (reg : Reg) (address : Nat) (s s' : AVRState) : Prop where
  regs : ∀ i < reg.length, s'.r (reg.reg i) = transfer.onReg (s.r (reg.reg i)) (s.memory (address + i))
  memory : ∀ i < reg.length, s'.memory (address + i) = transfer.onMem (s.r (reg.reg i)) (s.memory (address + i))
  outside : ∀ a, a < address ∨ address + reg.length ≤ a → s'.memory a = s.memory a
  others : ∀ r, r ∉ reg → r ∉ scratch → s'.r r = s.r r

namespace Accessed

variable {transfer : Transfer} {scratch : List Nat} {reg more : Reg} {address : Nat} {s'' : AVRState}

theorem nil (transfer : Transfer) (scratch : List Nat) (address : Nat) (s : AVRState) :
    Accessed transfer scratch [] address s s where
  regs := fun _ inside => nomatch inside
  memory := fun _ inside => nomatch inside
  outside := fun _ _ => rfl
  others := fun _ _ _ => rfl

/-- Registers may repeat where the access leaves them. -/
def Separate (transfer : Transfer) (reg more : Reg) : Prop := (∀ r ∈ reg, r ∉ more) ∨ ∀ b m, transfer.onReg b m = b

theorem keeps (accessed : Accessed transfer scratch reg address s s') (leaves : ∀ b m, transfer.onReg b m = b) {r : Nat}
    (apart : r ∉ scratch) : s'.r r = s.r r := by
  by_cases member : r ∈ reg
  · obtain ⟨i, inside, rfl⟩ := List.getElem_of_mem member
    have value := accessed.regs i inside
    rwa [leaves, Reg.reg, List.getD_eq_getElem _ _ inside] at value
  · exact accessed.others r member apart

theorem reg_mem {i : Nat} (inside : i < reg.length) : reg.reg i ∈ reg := by
  rw [Reg.reg, List.getD_eq_getElem _ _ inside]
  exact List.getElem_mem inside

theorem reg_behind (reg more : Reg) (j : Nat) : Reg.reg (reg ++ more) (reg.length + j) = more.reg j := by
  rw [Reg.reg, List.getD_append_right _ _ _ _ (Nat.le_add_right _ _), Nat.add_sub_cancel_left, Reg.reg]

/-- A register that is not among those of the access, or that the access leaves. -/
theorem untouched (accessed : Accessed transfer scratch reg address s s') {r : Nat}
    (apart : r ∉ reg ∨ ∀ b m, transfer.onReg b m = b) (outScratch : r ∉ scratch) : s'.r r = s.r r := by
  rcases apart with other | leaves
  · exact accessed.others r other outScratch
  · exact accessed.keeps leaves outScratch

/-- One access behind the other. -/
theorem append (first : Accessed transfer scratch reg address s s')
    (second : Accessed transfer scratch more (address + reg.length) s' s'') (separate : Separate transfer reg more)
    (apart : ∀ r ∈ reg ++ more, r ∉ scratch) : Accessed transfer scratch (reg ++ more) address s s'' where
  regs := by
    intro i inside
    rw [List.length_append] at inside
    by_cases front : i < reg.length
    · have place : (reg ++ more).reg i = reg.reg i := List.getD_append _ _ _ _ front
      have later : s''.r (reg.reg i) = s'.r (reg.reg i) :=
        second.untouched (separate.imp (fun disjoint => disjoint _ (reg_mem front)) id)
          (apart _ (List.mem_append_left more (reg_mem front)))
      rw [place, later, first.regs i front]
    · obtain ⟨j, rfl⟩ := Nat.exists_eq_add_of_le (Nat.not_lt.1 front)
      have inMore : j < more.length := by omega
      have before : s'.r (more.reg j) = s.r (more.reg j) :=
        first.untouched (separate.imp (fun disjoint inReg => disjoint _ inReg (reg_mem inMore)) id)
          (apart _ (List.mem_append_right reg (reg_mem inMore)))
      rw [reg_behind, second.regs j inMore, before, first.outside _ (Or.inr (Nat.le_add_right _ j)), Nat.add_assoc]
  memory := by
    intro i inside
    rw [List.length_append] at inside
    by_cases front : i < reg.length
    · have place : (reg ++ more).reg i = reg.reg i := List.getD_append _ _ _ _ front
      rw [place, second.outside _ (Or.inl (Nat.add_lt_add_left front address)), first.memory i front]
    · obtain ⟨j, rfl⟩ := Nat.exists_eq_add_of_le (Nat.not_lt.1 front)
      have inMore : j < more.length := by omega
      have before : s'.r (more.reg j) = s.r (more.reg j) :=
        first.untouched (separate.imp (fun disjoint inReg => disjoint _ inReg (reg_mem inMore)) id)
          (apart _ (List.mem_append_right reg (reg_mem inMore)))
      rw [reg_behind, ← Nat.add_assoc, second.memory j inMore, before,
        first.outside _ (Or.inr (Nat.le_add_right _ j))]
  outside := by
    intro a beyond
    rw [List.length_append] at beyond
    rw [second.outside a (by omega), first.outside a (by omega)]
  others := by
    intro r notIn outScratch
    rw [List.mem_append, not_or] at notIn
    rw [second.others r notIn.2 outScratch, first.others r notIn.1 outScratch]

/-- Where the pointer goes before and behind an access does not matter for the bytes. -/
theorem ofMoved {p : Nat} {there back : Int} {s₁ s₂ : AVRState} (low : p ∈ scratch) (high : p + 1 ∈ scratch)
    (before : PointerMoved p there s s₁) (accessed : Accessed transfer scratch reg address s₁ s₂)
    (behind : PointerMoved p back s₂ s') (apart : ∀ r ∈ reg, r ∉ scratch) :
    Accessed transfer scratch reg address s s' := by
  have other {r : Nat} (outScratch : r ∉ scratch) : r ≠ p ∧ r ≠ p + 1 :=
    ⟨fun same => outScratch (same ▸ low), fun same => outScratch (same ▸ high)⟩
  have start {r : Nat} (outScratch : r ∉ scratch) : s₁.r r = s.r r :=
    before.others r (other outScratch).1 (other outScratch).2
  have last {r : Nat} (outScratch : r ∉ scratch) : s'.r r = s₂.r r :=
    behind.others r (other outScratch).1 (other outScratch).2
  refine ⟨?_, ?_, ?_, ?_⟩
  · intro i inside
    have outScratch := apart _ (reg_mem inside)
    rw [last outScratch, accessed.regs i inside, start outScratch, before.memory]
  · intro i inside
    rw [behind.memory, accessed.memory i inside, start (apart _ (reg_mem inside)), before.memory]
  · intro a beyond
    rw [behind.memory, accessed.outside a beyond, before.memory]
  · intro r notIn outScratch
    rw [last outScratch, accessed.others r notIn outScratch, start outScratch]

end Accessed

/-- The code of one byte: it takes a register and the offset from the pointer, which it may move behind the byte. -/
def Accesses (transfer : Transfer) (p : Nat) (temps : List Nat) (body : Nat → Nat → Build Unit) : Prop :=
  ∀ (code : Code) (s : AVRState) (r offset : Nat), (offset < 64 ∨ offset = postInc) → s.place p offset < memSize →
    r ∉ p :: (p + 1) :: temps →
    target.wp (body r offset) (fun _ code' s' => SameAlloc code code' ∧
      Accessed transfer (p :: (p + 1) :: temps) [r] (s.place p offset) s s' ∧
      s'.pair p = (s.moved p offset).pair p) code s

section Loops

variable {transfer : Transfer} {p : Nat} {temps : List Nat} {body : Nat → Nat → Build Unit} {reg : Reg}

theorem take_succ_reg {i : Nat} (inside : i < reg.length) : reg.take (i + 1) = reg.take i ++ [reg.reg i] := by
  rw [List.take_succ_eq_append_getElem inside, Reg.reg, List.getD_eq_getElem _ _ inside]

/-- One byte more. -/
theorem Accessed.snoc {scratch : List Nat} {address i : Nat} {s₁ : AVRState}
    (accessed : Accessed transfer scratch (reg.take i) address s s₁)
    (one : Accessed transfer scratch [reg.reg i] (address + i) s₁ s') (inReg : i < reg.length)
    (separate : reg.Nodup ∨ ∀ b m, transfer.onReg b m = b) (apart : ∀ r ∈ reg, r ∉ scratch) :
    Accessed transfer scratch (reg.take (i + 1)) address s s' := by
  have length : (reg.take i).length = i := List.length_take_of_le (Nat.le_of_lt inReg)
  rw [take_succ_reg inReg]
  refine accessed.append ?_ ?_ fun r member => apart r ?_
  · rw [length]
    exact one
  · refine separate.imp (fun nodup r member single => ?_) id
    rw [List.mem_singleton.1 single] at member
    obtain ⟨j, before, same⟩ := List.getElem_of_mem member
    rw [length] at before
    rw [List.getElem_take, Reg.reg, List.getD_eq_getElem _ _ inReg] at same
    exact absurd ((nodup.getElem_inj_iff).1 same) (Nat.ne_of_lt before)
  · rw [← take_succ_reg inReg] at member
    exact List.mem_of_mem_take member

/-- A loop over the first bytes. `base` is where the pointer is before each byte. -/
theorem wp_accessLoop (accesses : Accesses transfer p temps body) {count : Nat} (address : Nat) (offset base : Nat → Nat)
    (fits : count ≤ reg.length) (mode : ∀ i < count, offset i < 64 ∨ offset i = postInc)
    (start : s.pair p = base 0)
    (turn : ∀ i < count, ∀ s₁ : AVRState, s₁.pair p = base i →
      s₁.place p (offset i) = address + i ∧ (s₁.moved p (offset i)).pair p = base (i + 1))
    (inside : address + count ≤ memSize) (separate : reg.Nodup ∨ ∀ b m, transfer.onReg b m = b)
    (apart : ∀ r ∈ reg, r ∉ p :: (p + 1) :: temps) :
    target.wp ((List.range count).forM fun i => body (reg.reg i) (offset i)) (fun _ code' s' =>
      SameAlloc code code' ∧ Accessed transfer (p :: (p + 1) :: temps) (reg.take count) address s s' ∧
      s'.pair p = base count) code s := by
  have whole : (List.range count).length = count := List.length_range
  refine wp_mono (wp_forM (fun done code' s' => SameAlloc code code' ∧
    Accessed transfer (p :: (p + 1) :: temps) (reg.take done.length) address s s' ∧ s'.pair p = base done.length)
    ⟨SameAlloc.refl code, Accessed.nil _ _ _ _, start⟩ ?_) ?_
  · intro done i rest parts code₁ s₁ holds
    obtain ⟨alloc, accessed, there⟩ := holds
    have lengths := congrArg List.length parts
    rw [whole, List.length_append, List.length_cons] at lengths
    have lower : done.length < count := by omega
    have here : i = done.length := by
      have element := congrArg (fun l => l[done.length]?) parts
      rw [List.getElem?_append_right (Nat.le_refl _), Nat.sub_self, List.getElem?_range lower] at element
      exact (Option.some.inj element).symm
    subst here
    obtain ⟨place, next⟩ := turn done.length lower s₁ there
    have inReg : done.length < reg.length := Nat.lt_of_lt_of_le lower fits
    have outScratch := apart _ (Accessed.reg_mem inReg)
    refine wp_mono (accesses code₁ s₁ _ _ (mode _ lower) (by omega) outScratch) ?_
    rintro _ code' s' ⟨alloc', one, pointer⟩
    rw [place] at one
    rw [List.length_append, List.length_singleton]
    exact ⟨alloc.trans alloc', accessed.snoc one inReg separate apart, pointer.trans next⟩
  · intro _ code' s' holds
    rwa [whole] at holds

/-- Small offsets are displacements of the pointer. -/
theorem wp_near (accesses : Accesses transfer p temps body) {offset : Nat} (near : offset + reg.length ≤ 64)
    (inside : s.pair p + offset + reg.length ≤ memSize) (separate : reg.Nodup ∨ ∀ b m, transfer.onReg b m = b)
    (apart : ∀ r ∈ reg, r ∉ p :: (p + 1) :: temps) :
    target.wp ((List.range reg.length).forM fun i => body (reg.reg i) (offset + i)) (fun _ code' s' =>
      SameAlloc code code' ∧ Accessed transfer (p :: (p + 1) :: temps) reg (s.pair p + offset) s s' ∧
      s'.pair p = s.pair p) code s := by
  refine wp_mono (wp_accessLoop accesses (s.pair p + offset) (fun i => offset + i) (fun _ => s.pair p) (Nat.le_refl _)
    (fun i lower => Or.inl (by omega)) rfl ?_ inside separate apart) ?_
  · intro i lower s₁ there
    have notPost : offset + i ≠ postInc := fun same => absurd same (by rw [postInc]; omega)
    rw [AVRState.place, AVRState.moved, if_neg notPost, if_neg notPost, there]
    exact ⟨(Nat.add_assoc _ _ _).symm, rfl⟩
  · intro _ code' s' holds
    rwa [List.take_length] at holds

/-- The pointer goes along with the bytes. -/
theorem wp_increments (accesses : Accesses transfer p temps body) {count : Nat} (fits : count ≤ reg.length)
    (inside : s.pair p + count ≤ memSize) (separate : reg.Nodup ∨ ∀ b m, transfer.onReg b m = b)
    (apart : ∀ r ∈ reg, r ∉ p :: (p + 1) :: temps) :
    target.wp ((List.range count).forM fun i => body (reg.reg i) postInc) (fun _ code' s' =>
      SameAlloc code code' ∧ Accessed transfer (p :: (p + 1) :: temps) (reg.take count) (s.pair p) s s' ∧
      s'.pair p = s.pair p + count) code s := by
  refine wp_accessLoop accesses (s.pair p) (fun _ => postInc) (fun i => s.pair p + i) fits (fun _ _ => Or.inr rfl)
    (Nat.add_zero _).symm ?_ inside separate apart
  intro i lower s₁ there
  have small : memSize < 65536 := by decide
  rw [AVRState.place, AVRState.moved, if_pos rfl, if_pos rfl, AVRState.pair_setPair, there,
    Nat.mod_eq_of_lt (by omega)]
  exact ⟨rfl, Nat.add_assoc _ _ _⟩

/-- The pointer goes along with the bytes up to the last one. -/
theorem wp_incrementsLast (accesses : Accesses transfer p temps body) (some_byte : 0 < reg.length)
    (inside : s.pair p + reg.length ≤ memSize) (separate : reg.Nodup ∨ ∀ b m, transfer.onReg b m = b)
    (apart : ∀ r ∈ reg, r ∉ p :: (p + 1) :: temps) :
    target.wp ((List.range (reg.length - 1)).forM (fun i => body (reg.reg i) postInc) >>= fun _ =>
        body (reg.reg (reg.length - 1)) 0) (fun _ code' s' =>
      SameAlloc code code' ∧ Accessed transfer (p :: (p + 1) :: temps) reg (s.pair p) s s' ∧
      s'.pair p = s.pair p + (reg.length - 1)) code s := by
  refine wp_bind (wp_mono (wp_increments accesses (Nat.sub_le _ 1) (by omega) separate apart) ?_)
  rintro _ code₁ s₁ ⟨alloc, accessed, there⟩
  have inReg : reg.length - 1 < reg.length := by omega
  have notPost : 0 ≠ postInc := by decide
  have place : s₁.place p 0 = s.pair p + (reg.length - 1) := by
    rw [AVRState.place, if_neg notPost, there, Nat.add_zero]
  refine wp_mono (accesses code₁ s₁ _ 0 (Or.inl (by decide)) (by omega) (apart _ (Accessed.reg_mem inReg))) ?_
  rintro _ code' s' ⟨alloc', one, pointer⟩
  rw [place] at one
  rw [AVRState.moved, if_neg notPost, there] at pointer
  have whole := accessed.snoc one inReg separate apart
  rw [Nat.sub_add_cancel some_byte, List.take_length] at whole
  exact ⟨alloc.trans alloc', whole, pointer⟩

/-- An access between a move of the pointer and the move back. -/
theorem wp_around {m : Build Unit} (offset passed : Nat) (pointer : IsPointer p) (zeroed : Zeroed code s)
    (keepsZero : code.hasFlag tempR1 = false → (1 ∉ reg ∨ ∀ b m, transfer.onReg b m = b) ∧ 1 ∉ temps)
    (inside : s.pair p + offset + passed < 65536) (apart : ∀ r ∈ reg, r ∉ p :: (p + 1) :: temps)
    (middle : ∀ code₁ s₁, s₁.pair p = s.pair p + offset → target.wp m (fun _ code' s' => SameAlloc code₁ code' ∧
      Accessed transfer (p :: (p + 1) :: temps) reg (s₁.pair p) s₁ s' ∧ s'.pair p = s₁.pair p + passed) code₁ s₁) :
    target.wp (addPtr p offset >>= fun _ => m >>= fun _ => addPtr p (-((offset + passed : Nat) : Int)))
      (fun _ code' s' => SameAlloc code code' ∧
        Accessed transfer (p :: (p + 1) :: temps) reg (s.pair p + offset) s s' ∧ s'.pair p = s.pair p) code s := by
  refine wp_bind (wp_mono (wp_addPtr pointer offset zeroed) ?_)
  rintro _ code₁ s₁ ⟨alloc₁, before⟩
  have there : s₁.pair p = s.pair p + offset := by
    have moved := before.pair
    omega
  refine wp_bind (wp_mono (middle code₁ s₁ there) ?_)
  rintro _ code₂ s₂ ⟨alloc₂, accessed, behind⟩
  have zeroed₂ : Zeroed code₂ s₂ := by
    intro noTemp
    rw [alloc₂.hasFlag, alloc₁.hasFlag] at noTemp
    obtain ⟨left, notTemp⟩ := keepsZero noTemp
    have notPointer : 1 ≠ p ∧ 1 ≠ p + 1 := by
      rcases pointer with rfl | rfl | rfl
      · decide
      · decide
      · decide
    have outScratch : 1 ∉ p :: (p + 1) :: temps := by
      rintro (_ | ⟨_, _ | ⟨_, member⟩⟩)
      · exact notPointer.1 rfl
      · exact notPointer.2 rfl
      · exact notTemp member
    rw [accessed.untouched left outScratch, before.others 1 notPointer.1 notPointer.2, zeroed noTemp]
  refine wp_mono (wp_addPtr pointer _ zeroed₂) ?_
  rintro _ code' s' ⟨alloc', after⟩
  refine ⟨(alloc₁.trans alloc₂).trans alloc', ?_, ?_⟩
  · rw [← there]
    exact Accessed.ofMoved List.mem_cons_self (List.mem_cons_of_mem _ List.mem_cons_self) before accessed after apart
  · have back := after.pair
    omega

end Loops

/-! ### The code of one byte -/

section OneByte

variable {type : InsnType} {p temp : Nat}

/-- Facts about one byte. -/
theorem Accessed.single {transfer : Transfer} {scratch : List Nat} {r address : Nat}
    (reg : s'.r r = transfer.onReg (s.r r) (s.memory address))
    (memory : s'.memory = s.memory.store address (transfer.onMem (s.r r) (s.memory address)))
    (others : ∀ r', r' ≠ r → r' ∉ scratch → s'.r r' = s.r r') : Accessed transfer scratch [r] address s s' where
  regs := by
    intro i inside
    obtain rfl : i = 0 := Nat.lt_one_iff.1 inside
    exact reg
  memory := by
    intro i inside
    obtain rfl : i = 0 := Nat.lt_one_iff.1 inside
    rw [memory]
    exact if_pos rfl
  outside := by
    intro a beyond
    rw [List.length_singleton] at beyond
    rw [memory]
    exact if_neg (by omega)
  others := fun r' notIn outScratch => others r' (fun same => notIn (List.mem_singleton.2 same)) outScratch

theorem store_same (mem : Mem) (address : Nat) : mem.store address (mem address) = mem := by
  funext a
  rw [Mem.store]
  split
  next same => rw [same]
  next => rfl

theorem accesses_load (loads : Loads type p) : Accesses .load p [] (memory type) := by
  intro code s r offset mode inside apart
  refine wp_load loads mode inside fun code' alloc => ⟨alloc, Accessed.single ?_ ?_ ?_, ?_⟩
  · exact AVRState.setReg_self _ r _
  · exact (s.moved_memory p offset).trans (store_same s.memory _).symm
  · intro r' other outScratch
    rw [AVRState.setReg_other _ _ other, AVRState.moved_other]
    · exact fun same => outScratch (same ▸ List.mem_cons_self)
    · exact fun same => outScratch (same ▸ List.mem_cons_of_mem _ List.mem_cons_self)
  · refine AVRState.pair_congr (AVRState.setReg_other _ _ ?_) (AVRState.setReg_other _ _ ?_)
    · exact fun same => apart (same ▸ List.mem_cons_self)
    · exact fun same => apart (same ▸ List.mem_cons_of_mem _ List.mem_cons_self)

theorem accesses_store (stores : Stores type p) : Accesses .store p [] (memory type) := by
  intro code s r offset mode inside apart
  have other {r' : Nat} (outScratch : r' ∉ [p, p + 1]) : (s.moved p offset).r r' = s.r r' := by
    rw [AVRState.moved_other]
    · exact fun same => outScratch (same ▸ List.mem_cons_self)
    · exact fun same => outScratch (same ▸ List.mem_cons_of_mem _ List.mem_cons_self)
  exact wp_store stores mode inside fun code' alloc =>
    ⟨alloc, Accessed.single (other apart) rfl fun r' _ outScratch => other outScratch, rfl⟩

/-- A temporary register that is not part of the pointer. -/
structure Apart (temp p : Nat) : Prop where
  low : temp ≠ p
  high : temp ≠ p + 1

theorem Apart.pair (apart : Apart temp p) (s : AVRState) (b : Byte) : (s.setReg temp b).pair p = s.pair p :=
  AVRState.pair_congr (s.setReg_other b apart.low.symm) (s.setReg_other b apart.high.symm)

theorem accesses_xor (loads : Loads type p) (free : Apart temp p) :
    Accesses .xor p [temp] (ldXorByte type temp) := by
  intro code s r offset mode inside apart
  have notTemp : r ≠ temp := fun same => apart (same ▸ List.mem_cons_of_mem _ (List.mem_cons_of_mem _ List.mem_cons_self))
  have notLow : r ≠ p := fun same => apart (same ▸ List.mem_cons_self)
  have notHigh : r ≠ p + 1 := fun same => apart (same ▸ List.mem_cons_of_mem _ List.mem_cons_self)
  refine wp_bind (wp_load loads mode inside fun code₁ alloc₁ => wp_eor fun code' s' exact value _ => ?_)
  refine ⟨alloc₁.trans exact.alloc, Accessed.single ?_ ?_ ?_, ?_⟩
  · rw [value, AVRState.setReg_self, AVRState.setReg_other _ _ notTemp, s.moved_other offset notLow notHigh]
    rfl
  · rw [exact.memory]
    exact (s.moved_memory p offset).trans (store_same s.memory _).symm
  · intro r' other outScratch
    rw [exact.others r' fun same => other (List.mem_singleton.1 same), AVRState.setReg_other, AVRState.moved_other]
    · exact fun same => outScratch (same ▸ List.mem_cons_self)
    · exact fun same => outScratch (same ▸ List.mem_cons_of_mem _ List.mem_cons_self)
    · exact fun same => outScratch (same ▸ List.mem_cons_of_mem _ (List.mem_cons_of_mem _ List.mem_cons_self))
  · rw [AVRState.pair_congr (exact.others p fun same => notLow (List.mem_singleton.1 same).symm)
      (exact.others (p + 1) fun same => notHigh (List.mem_singleton.1 same).symm), free.pair]

theorem accesses_xorIn (loads : (type = .ldY ∧ p = 28) ∨ (type = .ldZ ∧ p = 30)) (free : Apart temp p) :
    Accesses .xorIn p [temp] fun r offset => ldXorInByte type temp r (if offset = postInc then 0 else offset) offset := by
  intro code s r offset mode inside apart
  have notTemp : r ≠ temp := fun same => apart (same ▸ List.mem_cons_of_mem _ (List.mem_cons_of_mem _ List.mem_cons_self))
  -- The load is behind the same address, and leaves the pointer.
  have loadMode : (if offset = postInc then 0 else offset) < 64 ∨ (if offset = postInc then 0 else offset) = postInc := by
    split
    · exact Or.inl (by decide)
    · exact mode
  have still : s.moved p (if offset = postInc then 0 else offset) = s := by
    split
    · rfl
    next notPost => exact if_neg notPost
  have same : s.place p (if offset = postInc then 0 else offset) = s.place p offset := by
    split
    next post => rw [post, AVRState.place, AVRState.place, if_neg (by decide), if_pos rfl, Nat.add_zero]
    next => rfl
  refine wp_bind (wp_load (loads.elim (fun y => Or.inr (Or.inl y)) fun z => Or.inr (Or.inr z)) loadMode
    (by rw [same]; exact inside) fun code₁ alloc₁ => wp_bind (wp_eor fun code₂ s₂ exact value _ => ?_))
  rw [still, same] at exact value
  rw [AVRState.setReg_self, AVRState.setReg_other _ _ notTemp] at value
  have pointer : s₂.pair p = s.pair p := by
    rw [AVRState.pair_congr (exact.others p fun isTemp => free.low (List.mem_singleton.1 isTemp).symm)
      (exact.others (p + 1) fun isTemp => free.high (List.mem_singleton.1 isTemp).symm), free.pair]
  have place : s₂.place p offset = s.place p offset := by rw [AVRState.place, AVRState.place, pointer]
  have kept {r' : Nat} (outScratch : r' ∉ p :: (p + 1) :: [temp]) : (s₂.moved p offset).r r' = s.r r' := by
    have isTemp : r' ≠ temp :=
      fun same => outScratch (same ▸ List.mem_cons_of_mem _ (List.mem_cons_of_mem _ List.mem_cons_self))
    rw [AVRState.moved_other, exact.others r' fun same => isTemp (List.mem_singleton.1 same),
      AVRState.setReg_other _ _ isTemp]
    · exact fun same => outScratch (same ▸ List.mem_cons_self)
    · exact fun same => outScratch (same ▸ List.mem_cons_of_mem _ List.mem_cons_self)
  have stored {store : InsnType} (stores : Stores store p) : target.wp (memory store temp offset) (fun _ code' s' =>
      SameAlloc code code' ∧ Accessed .xorIn (p :: (p + 1) :: [temp]) [r] (s.place p offset) s s' ∧
      s'.pair p = (s.moved p offset).pair p) code₂ s₂ := by
    refine wp_store stores mode (by rw [place]; exact inside) fun code' alloc' => ⟨(alloc₁.trans exact.alloc).trans alloc', ?_, ?_⟩
    · refine Accessed.single (kept apart) ?_ fun r' _ outScratch => kept outScratch
      show s₂.memory.store (s₂.place p offset) (s₂.r temp) = _
      rw [exact.memory, place, value]
      rfl
    · show (s₂.moved p offset).pair p = _
      rw [AVRState.moved, AVRState.moved]
      split
      · rw [AVRState.pair_setPair, AVRState.pair_setPair, pointer]
      · exact pointer
  rcases loads with ⟨rfl, rfl⟩ | ⟨rfl, rfl⟩
  · exact stored (Or.inr (Or.inl ⟨rfl, rfl⟩))
  · exact stored (Or.inr (Or.inr ⟨rfl, rfl⟩))

end OneByte

end AsconSuite.Avr
