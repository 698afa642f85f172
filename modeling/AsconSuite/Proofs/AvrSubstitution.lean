/-
Module: AsconSuite.Proofs.AvrSubstitution
Layer: Proofs
Purpose: The code of the S-box for one column of bytes: loads and stores near Z, and calls on single bytes as a list of
  operations on named slots.
Imports: AsconSuite.Core.Permute, AsconSuite.Proofs.AvrFrames, AsconSuite.Proofs.AvrMemoryAccess, AsconSuite.Tools.AvrAscon
Trusted boundary: none (fully proved)
Main exports: Avr.wp_ldzNear, Avr.wp_stzNear, Avr.SlotOp, Avr.substituted, Avr.Stage,
  Avr.wp_asconSubstitute
-/
import AsconSuite.Core.Permute
import AsconSuite.Proofs.AvrFrames
import AsconSuite.Proofs.AvrMemoryAccess
import AsconSuite.Tools.AvrAscon

namespace AsconSuite.Avr

open ByteWord ByteMemory
open Emit (Target)
open Emit.Target

variable {code code' : Code} {s s' : AVRState} {Q : Unit → Code → AVRState → Prop}

/-! ### Loads and stores near Z -/

/-- A load or a store of bytes that a displacement from Z reaches. -/
theorem ldSt_near {reg : Reg} {type : InsnType} {offset : Nat} (notX : type ≠ .ldX) (some_byte : 0 < reg.length)
    (near : offset + reg.length ≤ 64) : ldSt reg type offset =
      (List.range reg.length).forM fun index => memory type (reg.reg index) (offset + index) := by
  have notPre : offset ≠ preDec := by
    rw [preDec]
    omega
  have notPost : offset ≠ postInc := by
    rw [postInc]
    omega
  have size : reg.size = reg.length := rfl
  rw [ldSt, if_neg notPre, if_neg notPost, ldStLong]
  dsimp only
  rw [if_neg (by omega), if_neg fun isX => notX isX.1, if_pos (by omega)]
  rfl

/-- Registers below Z are none of its two registers. -/
theorem Low.apart {reg : Reg} (low : Low reg) : ∀ r ∈ reg, r ∉ [30, 31] := by
  intro r member pointer
  have lower := low r member
  rcases List.mem_cons.1 pointer with rfl | last
  · exact absurd lower (Nat.lt_irrefl 30)
  · rw [List.mem_singleton.1 last] at lower
    exact absurd lower (by decide)

/-- An access behind Z that puts Z back. -/
theorem Accessed.others_back {transfer : Transfer} {reg : Reg} {address : Nat}
    (accessed : Accessed transfer [30, 31] reg address s s') (pointer : s'.pair 30 = s.pair 30) {r : Nat}
    (other : r ∉ reg) : s'.r r = s.r r := by
  obtain ⟨low, high⟩ := AVRState.pair_inj pointer
  by_cases isPointer : r ∈ [30, 31]
  · rcases List.mem_cons.1 isPointer with rfl | last
    · exact low
    · rw [List.mem_singleton.1 last]
      exact high
  · exact accessed.others r other isPointer

/-- The bytes behind Z are loaded. -/
theorem wp_ldzNear {reg : Reg} {offset : Nat} (nodup : reg.Nodup) (low : Low reg) (some_byte : 0 < reg.length)
    (near : offset + reg.length ≤ 64) (inside : s.pair 30 + offset + reg.length ≤ memSize) :
    target.wp (ldz reg offset) (fun _ code' s' => Exact reg code s code' s' ∧
      ∀ i < reg.length, s'.r (reg.reg i) = s.memory (s.pair 30 + offset + i)) code s := by
  have small : offset % 256 = offset := Nat.mod_eq_of_lt (by omega)
  rw [ldz, small]
  refine wp_congr (ldSt_near (by decide) some_byte near) ?_
  refine wp_mono (wp_near (accesses_load (Or.inr (Or.inr ⟨rfl, rfl⟩))) near inside (Or.inl nodup) low.apart) ?_
  rintro _ code' s' ⟨alloc, accessed, pointer⟩
  refine ⟨⟨alloc, fun r other => accessed.others_back pointer other, funext fun a => ?_⟩, accessed.regs⟩
  by_cases behind : s.pair 30 + offset ≤ a ∧ a < s.pair 30 + offset + reg.length
  · obtain ⟨i, rfl⟩ := Nat.exists_eq_add_of_le behind.1
    exact accessed.memory i (by omega)
  · exact accessed.outside a (by omega)

/-- The code writes bytes of memory, and no register. -/
structure Stored (address : Nat) (bytes : List Byte) (code : Code) (s : AVRState) (code' : Code) (s' : AVRState) : Prop where
  alloc : SameAlloc code code'
  regs : s'.r = s.r
  memory : s'.memory = s.memory.write address bytes

/-- The bytes behind Z are stored. -/
theorem wp_stzNear {reg : Reg} {offset : Nat} (nodup : reg.Nodup) (low : Low reg) (some_byte : 0 < reg.length)
    (near : offset + reg.length ≤ 64) (inside : s.pair 30 + offset + reg.length ≤ memSize) :
    target.wp (stz reg offset) (fun _ => Stored (s.pair 30 + offset) (reg.map s.r) code s) code s := by
  have small : offset % 256 = offset := Nat.mod_eq_of_lt (by omega)
  rw [stz, small]
  refine wp_congr (ldSt_near (by decide) some_byte near) ?_
  refine wp_mono (wp_near (accesses_store (Or.inr (Or.inr ⟨rfl, rfl⟩))) near inside (Or.inl nodup) low.apart) ?_
  rintro _ code' s' ⟨alloc, accessed, pointer⟩
  refine ⟨alloc, funext fun r => ?_, funext fun a => ?_⟩
  · by_cases member : r ∈ reg
    · exact accessed.keeps (fun _ _ => rfl) (low.apart r member)
    · exact accessed.others_back pointer member
  · by_cases behind : s.pair 30 + offset ≤ a ∧ a < s.pair 30 + offset + reg.length
    · obtain ⟨i, rfl⟩ := Nat.exists_eq_add_of_le behind.1
      have inReg : i < reg.length := by omega
      have inBytes : i < (reg.map s.r).length := by rwa [List.length_map]
      have value : s'.memory (s.pair 30 + offset + i) = s.r (reg.reg i) := accessed.memory i inReg
      rw [value, write_apply_of_lt _ _ _ inBytes, List.getD_eq_getElem _ _ inBytes, List.getElem_map,
        Reg.reg_eq_getElem inReg]
    · rw [accessed.outside a (by omega), write_apply_outside _ _ _ (by rw [List.length_map]; omega)]

/-! ### Calls on single bytes -/

/-- A call of the builder on single bytes, which are named by slots. -/
inductive SlotOp (n : Nat) where
  | move (i j : Fin n)
  | xor (i j : Fin n)
  | or (i j : Fin n)
  | and (i j : Fin n)
  | not (i : Fin n)

namespace SlotOp

variable {n : Nat}

/-- The call, where the registers of the slots are given. -/
def emit (regs : Fin n → Nat) : SlotOp n → Build Unit
  | move i j => Avr.move [regs i] [regs j] false
  | xor i j => logxor [regs i] [regs j]
  | or i j => logor [regs i] [regs j]
  | and i j => logand [regs i] [regs j]
  | not i => lognot [regs i]

/-- What the call does to the bytes in the slots. -/
def eval (bytes : Fin n → Byte) : SlotOp n → Fin n → Byte
  | move i j => Function.update bytes i (bytes j)
  | xor i j => Function.update bytes i (bytes i ^^^ bytes j)
  | or i j => Function.update bytes i (bytes i ||| bytes j)
  | and i j => Function.update bytes i (bytes i &&& bytes j)
  | not i => Function.update bytes i (~~~bytes i)

/-- No byte is moved to itself. -/
def proper : SlotOp n → Prop
  | move i j => i ≠ j
  | _ => True

end SlotOp

/-- The registers of the slots hold these bytes. -/
def Slots {n : Nat} (regs : Fin n → Nat) (bytes : Fin n → Byte) (s : AVRState) : Prop := ∀ i, s.r (regs i) = bytes i

/-- One slot is written. -/
theorem Slots.update {n : Nat} {regs : Fin n → Nat} {bytes : Fin n → Byte} (slots : Slots regs bytes s)
    (inj : Function.Injective regs) {i : Fin n} (exact : Exact [regs i] code s code' s') {b : Byte}
    (written : s'.r (regs i) = b) : Slots regs (Function.update bytes i b) s' := by
  intro j
  by_cases same : j = i
  · rw [same, Function.update_self, written]
  · rw [Function.update_of_ne same, ← slots j]
    exact exact.others _ fun member => same (inj (List.mem_singleton.1 member))

/-- One byte is moved. -/
theorem wp_moveByte {r1 r2 : Nat} (other : r1 ≠ r2)
    (holds : ∀ code' s', Exact [r1] code s code' s' → s'.r r1 = s.r r2 → Q () code' s') :
    target.wp (move [r1] [r2] false) Q code s := by
  have size : min (Reg.size [r1]) (Reg.size [r2]) = 1 := rfl
  rw [move, size]
  refine wp_bind ?_
  rw [moveLoop]
  refine wp_bind (wp_get (wp_ite (fun done => absurd done (by decide)) fun _ => ?_))
  refine wp_ite (fun same => absurd same other) fun _ => wp_ite (fun pair => ?_) fun _ => wp_ite (fun pair => ?_) fun _ => ?_
  · exact absurd pair Bool.false_ne_true
  · exact absurd pair Bool.false_ne_true
  · exact wp_bind (wp_mov fun code' s' exact value _ => wp_pure (wp_pure (holds code' s' exact value)))

theorem wp_slotOp {n : Nat} {regs : Fin n → Nat} {bytes : Fin n → Byte} {op : SlotOp n} (proper : op.proper)
    (slots : Slots regs bytes s) (inj : Function.Injective regs) :
    target.wp (op.emit regs) (fun _ code' s' => Exact (List.ofFn regs) code s code' s' ∧ Slots regs (op.eval bytes) s')
      code s := by
  have inRegs (i : Fin n) : ∀ r ∈ [regs i], r ∈ List.ofFn regs := fun r member =>
    List.mem_ofFn.2 ⟨i, (List.mem_singleton.1 member).symm⟩
  have written {i : Fin n} {b : Byte} {code' : Code} {s' : AVRState} (exact : Exact [regs i] code s code' s')
      (value : s'.r (regs i) = b) : Exact (List.ofFn regs) code s code' s' ∧ Slots regs (Function.update bytes i b) s' :=
    ⟨exact.mono (inRegs i), slots.update inj exact value⟩
  cases op with
  | move i j =>
      refine wp_moveByte (fun same => proper (inj same)) fun code' s' exact value => written exact ?_
      rw [value, slots j]
  | xor i j =>
      refine wp_congr (bind_pure _) (wp_eor fun code' s' exact value _ => written exact ?_)
      rw [value, slots i, slots j]
  | or i j =>
      refine wp_congr (bind_pure _) (wp_or fun code' s' exact value => written exact ?_)
      rw [value, slots i, slots j]
  | and i j =>
      refine wp_congr (bind_pure _) (wp_bind (wp_tworeg fun _ _ _ => ⟨s.setRegZ (regs i) (s.r (regs i) &&& s.r (regs j)), rfl,
        wp_pure (written (exact_pushed code _ rfl rfl) ?_)⟩))
      rw [← slots i, ← slots j]
      exact s.setReg_self _ _
  | not i =>
      refine wp_congr (bind_pure _) (wp_onereg fun _ => ⟨s.setRegZ (regs i) (s.r (regs i) ^^^ 0xFF#8), rfl,
        written (exact_pushed code _ rfl rfl) ?_⟩)
      rw [← slots i, ← BitVec.xor_allOnes]
      exact s.setReg_self _ _

/-- Calls one after the other. -/
theorem wp_slotOps {n : Nat} {regs : Fin n → Nat} {bytes : Fin n → Byte} {ops : List (SlotOp n)}
    (proper : ∀ op ∈ ops, op.proper) (slots : Slots regs bytes s) (inj : Function.Injective regs) :
    target.wp (ops.forM (SlotOp.emit regs)) (fun _ code' s' => Exact (List.ofFn regs) code s code' s' ∧
      Slots regs (ops.foldl SlotOp.eval bytes) s') code s := by
  induction ops generalizing bytes code s with
  | nil => exact wp_pure ⟨Exact.refl _ code s, slots⟩
  | cons op rest ih =>
      refine wp_bind (wp_mono (wp_slotOp (proper op List.mem_cons_self) slots inj) ?_)
      rintro _ code₁ s₁ ⟨exact₁, slots₁⟩
      refine wp_mono (ih (fun op' member => proper op' (List.mem_cons_of_mem op member)) slots₁) ?_
      rintro _ code' s' ⟨exact', slots'⟩
      exact ⟨exact₁.trans exact', slots'⟩

/-- Memory below the stack pointer was written. -/
theorem Stored.kept {address : Nat} {bytes : List Byte} (stored : Stored address bytes code s code' s')
    (ready : Ready code s) (below : address + bytes.length ≤ s.pair 32) : Kept [] code s code' s' := by
  have within : Within [] code s code' s' := {
    alloc := stored.alloc
    others := fun r _ => congrFun stored.regs r
    memory := fun a above => by rw [stored.memory, write_apply_outside _ _ _ (Or.inr (Nat.le_trans below above))] }
  exact within.kept (fun _ member => absurd member List.not_mem_nil) (fun _ member _ => member) ready

theorem Stored.pair {address : Nat} {bytes : List Byte} (stored : Stored address bytes code s code' s') (p : Nat) :
    s'.pair p = s.pair p := by
  rw [AVRState.pair, AVRState.pair, stored.regs]

/-- Z, when only other registers are written. -/
theorem Exact.pointer {written : List Nat} (exact : Exact written code s code' s') (low : Low written) :
    s'.pair 30 = s.pair 30 := by
  have high : ∀ r, 30 ≤ r → s'.r r = s.r r := fun r ge =>
    exact.others r fun member => absurd (low r member) (Nat.not_lt.2 ge)
  exact AVRState.pair_congr (high 30 (Nat.le_refl 30)) (high 31 (by decide))

/-! ### The S-box of the source -/

/-- What the calls of `ascon_substitute` compute, in the places where the results belong. -/
def substituted {w : Nat} (x : Five (BitVec w)) : Five (BitVec w) where
  w0 := ((x.w2 ^^^ (x.w0 ^^^ x.w4)) ||| x.w1) ^^^ (x.w3 ^^^ x.w4)
  w1 := ((x.w3 ^^^ x.w1) ||| (x.w1 ^^^ x.w2)) ^^^ (x.w0 ^^^ x.w4)
  w2 := (~~~x.w4 ||| x.w3) ^^^ (x.w1 ^^^ x.w2)
  w3 := (x.w0 ||| (x.w3 ^^^ x.w4)) ^^^ (x.w1 ^^^ x.w2)
  w4 := (x.w1 &&& ~~~(x.w0 ^^^ x.w4)) ^^^ (x.w3 ^^^ x.w4)

/-- Numerals below 8 without a search for what they rest on. -/
theorem someSlots : NeZero 8 := ⟨by decide⟩

attribute [local instance] someSlots in
/-- The slots are `t0`, `t1`, `t2`, `x0`, `x1`, `x3`, `x2` and `x4`. -/
def sboxOps : List (SlotOp 8) :=
  [.move 0 4, .move 1 3, .move 2 5, .xor 0 6, .xor 1 7, .xor 2 7, .not 7, .or 7 5, .xor 7 0, .xor 5 4, .or 5 0, .xor 5 1,
    .xor 6 1, .or 6 4, .xor 6 2, .not 1, .and 4 1, .xor 4 2, .or 3 2, .xor 3 0]

theorem sboxOps_proper : ∀ op ∈ sboxOps, op.proper := by
  intro op member
  simp only [sboxOps, List.mem_cons, List.not_mem_nil, or_false] at member
  rcases member with rfl | rfl | rfl | rfl | rfl | rfl | rfl | rfl | rfl | rfl | rfl | rfl | rfl | rfl | rfl | rfl |
    rfl | rfl | rfl | rfl
  all_goals simp [SlotOp.proper]

/-- The calls leave the columns of the S-box in the slots of `x2`, `x3`, `x4`, `x0` and `x1`. -/
theorem foldl_sboxOps (bytes : Fin 8 → Byte) :
    (⟨sboxOps.foldl SlotOp.eval bytes 6, sboxOps.foldl SlotOp.eval bytes 5, sboxOps.foldl SlotOp.eval bytes 7,
      sboxOps.foldl SlotOp.eval bytes 3, sboxOps.foldl SlotOp.eval bytes 4⟩ : Five Byte) =
      substituted ⟨bytes 3, bytes 4, bytes 6, bytes 5, bytes 7⟩ := by
  simp [sboxOps, SlotOp.eval, Function.update, substituted]

/-- The S-box of the C backend leaves `x2` inverted. -/
theorem permuteSbox_eq (x : AsconState) :
    permuteSbox x = { substituted x with w2 := ~~~(substituted x).w2 } := by
  obtain ⟨x0, x1, x2, x3, x4⟩ := x
  simp only [permuteSbox, substituted, Five.mk.injEq]
  refine ⟨?_, ?_, ?_, ?_, ?_⟩
  all_goals
    apply BitVec.eq_of_getLsbD_eq
    intro i small
    simp only [BitVec.getLsbD_xor, BitVec.getLsbD_and, BitVec.getLsbD_or, BitVec.getLsbD_not, small, decide_true,
      Bool.true_and]
    generalize x0.getLsbD i = a, x1.getLsbD i = b, x2.getLsbD i = c, x3.getLsbD i = d, x4.getLsbD i = e
    revert a b c d e
    decide

/-- The registers are released in another order. -/
theorem release_eq (a b c d e f : Nat) :
    (do
      releaseReg [a]
      releaseReg [b]
      releaseReg [c]
      releaseReg [d]
      releaseReg [e]
      releaseReg [f]) = (do
      releaseReg [d, e, f]
      releaseReg [a, b, c]) := by
  funext code
  have same : code.allocated &&& ~~~regBit a &&& ~~~regBit b &&& ~~~regBit c &&& ~~~regBit d &&& ~~~regBit e &&&
      ~~~regBit f = code.allocated &&& ~~~regBit d &&& ~~~regBit e &&& ~~~regBit f &&& ~~~regBit a &&& ~~~regBit b &&&
        ~~~regBit c := by
    ac_rfl
  exact congrArg (fun regs => (.ok ((), { code with allocated := regs }) : Except String (Unit × Code))) same

/-! ### One column -/

/-- The machine in front of code that works on a state of 40 bytes behind Z. There is room for eight bytes between the
state and the stack pointer. -/
structure Stage (base : Nat) (code : Code) (s : AVRState) : Prop where
  ready : Ready code s
  pool : LowPool code
  pointer : s.pair 30 = base
  room : base + 48 ≤ s.pair 32

/-- Registers that were taken are none of those that were owned before. -/
theorem Took.nodup_append {temps reg : Reg} (took : Took temps code code') (nodup : reg.Nodup) (owned : Owned code reg) :
    (temps ++ reg).Nodup := by
  refine List.nodup_append.2 ⟨took.nodup, nodup, ?_⟩
  rintro r member r' member' rfl
  exact (took.free r member).1 (owned r member')

theorem Took.owned_append {temps reg : Reg} (took : Took temps code code') (owned : Owned code reg) :
    Owned code' (temps ++ reg) := by
  intro r member
  rcases List.mem_append.1 member with isTaken | before
  · exact (took.allocated r).2 (Or.inr isTaken)
  · exact (took.allocated r).2 (Or.inl (owned r before))

theorem Kept.regOrder {written : List Nat} (kept : Kept written code s code' s') (ready : Ready code s) :
    code'.regOrder = code.regOrder := by
  rw [kept.ready.order, ready.order, resetRegs_regOrder_congr kept.flags]

/-- Behind code that leaves Z. -/
theorem Stage.kept {base : Nat} {written : List Nat} (stage : Stage base code s) (kept : Kept written code s code' s')
    (bytes : Bytes written) (pointer : s'.pair 30 = s.pair 30) : Stage base code' s' where
  ready := kept.ready
  pool := by
    rw [LowPool, kept.regOrder stage.ready]
    exact stage.pool
  pointer := pointer.trans stage.pointer
  room := by
    rw [kept.pair bytes]
    exact stage.room

/-- Behind an allocation. -/
theorem Stage.took {base : Nat} {temps : Reg} (stage : Stage base code s) (took : Took temps code code') :
    Stage base code' s where
  ready := took.ready stage.ready
  pool := by
    rw [LowPool, took.regOrder]
    exact stage.pool
  pointer := stage.pointer
  room := stage.room

theorem Stage.inside {base offset : Nat} (stage : Stage base code s) (le : offset ≤ 40) :
    s.pair 30 + offset ≤ memSize := by
  have top := stage.ready.stack.2
  have room := stage.room
  rw [stage.pointer]
  omega

/-- One byte is loaded from the state. -/
theorem Stage.wp_ldzByte {base r offset : Nat} (stage : Stage base code s) (lower : r < 30) (inside : offset < 40)
    (holds : ∀ code' s', Exact [r] code s code' s' → s'.r r = s.memory (base + offset) → Q () code' s') :
    target.wp (ldz [r] offset) Q code s := by
  have low : Low [r] := fun r' member => List.mem_singleton.1 member ▸ lower
  have near : offset + 1 ≤ 64 := by omega
  have fits : s.pair 30 + offset + 1 ≤ memSize := by
    rw [Nat.add_assoc]
    exact stage.inside (Nat.succ_le_of_lt inside)
  refine wp_mono (wp_ldzNear (List.nodup_singleton r) low Nat.zero_lt_one near fits) ?_
  rintro _ code' s' ⟨exact, value⟩
  refine holds code' s' exact ?_
  have first := value 0 Nat.zero_lt_one
  rw [stage.pointer] at first
  exact first

/-- One byte is stored into the state. -/
theorem Stage.wp_stzByte {base r offset : Nat} (stage : Stage base code s) (lower : r < 30) (inside : offset < 40)
    (holds : ∀ code' s', Stored (base + offset) [s.r r] code s code' s' → Stage base code' s' → Kept [] code s code' s' →
      Q () code' s') :
    target.wp (stz [r] offset) Q code s := by
  have low : Low [r] := fun r' member => List.mem_singleton.1 member ▸ lower
  have near : offset + 1 ≤ 64 := by omega
  have fits : s.pair 30 + offset + 1 ≤ memSize := by
    rw [Nat.add_assoc]
    exact stage.inside (Nat.succ_le_of_lt inside)
  refine wp_mono (wp_stzNear (List.nodup_singleton r) low Nat.zero_lt_one near fits) ?_
  rintro _ code' s' stored
  rw [stage.pointer] at stored
  have room := stage.room
  have below : base + offset + 1 ≤ s.pair 32 := by omega
  have kept := stored.kept stage.ready below
  exact holds code' s' stored (stage.kept kept (fun _ member => absurd member List.not_mem_nil) (stored.pair 30)) kept

/-- The column of bytes at an offset, with `x2` and `x4` in registers. -/
def column (s : AVRState) (base offset r2 r4 : Nat) : Five Byte :=
  ⟨s.memory (base + asconByte 0 offset), s.memory (base + asconByte 1 offset), s.r r2,
    s.memory (base + asconByte 3 offset), s.r r4⟩

theorem asconByte_lt {word byte : Nat} (isWord : word < 5) (isByte : byte < 8) : asconByte word byte < 40 := by
  rw [asconByte]
  omega

/-- Three registers of one byte each. -/
theorem Stage.wp_threeRegs {base : Nat} {rest : Reg → Reg → Reg → Build Unit} (stage : Stage base code s)
    (holds : ∀ a b c code', Took [a, b, c] code code' → Stage base code' s → Low [a, b, c] →
      target.wp (rest [a] [b] [c]) Q code' s) :
    target.wp (do
      let x ← allocateReg 1
      let y ← allocateReg 1
      let z ← allocateReg 1
      rest x y z) Q code s := by
  refine wp_bind (wp_allocateReg stage.ready.toConventions fun x code₁ one₁ took₁ => ?_)
  obtain ⟨a, rfl⟩ := List.length_eq_one_iff.1 one₁
  refine wp_bind (wp_allocateReg (stage.took took₁).ready.toConventions fun y code₂ one₂ took₂ => ?_)
  obtain ⟨b, rfl⟩ := List.length_eq_one_iff.1 one₂
  have two := took₁.trans took₂
  refine wp_bind (wp_allocateReg (stage.took two).ready.toConventions fun z code₃ one₃ took₃ => ?_)
  obtain ⟨c, rfl⟩ := List.length_eq_one_iff.1 one₃
  have three : Took [a, b, c] code code₃ := two.trans took₃
  exact holds a b c code₃ three (stage.took three) fun r member => stage.pool r (three.free r member).2

/-- The bytes of `x0`, `x1` and `x3` are loaded. -/
theorem Stage.wp_loadColumn {base offset a b c : Nat} {rest : Build Unit} (isByte : offset < 8)
    (stage : Stage base code s) (low : Low [a, b, c]) (owned : Owned code [a, b, c]) (nodup : [a, b, c].Nodup)
    (holds : ∀ code' s', Exact [a, b, c] code s code' s' → Stage base code' s' →
      s'.r a = s.memory (base + asconByte 0 offset) → s'.r b = s.memory (base + asconByte 1 offset) →
      s'.r c = s.memory (base + asconByte 3 offset) → target.wp rest Q code' s') :
    target.wp (do
      ldz [a] (asconByte 0 offset)
      ldz [b] (asconByte 1 offset)
      ldz [c] (asconByte 3 offset)
      rest) Q code s := by
  obtain ⟨notA, notB⟩ := List.nodup_cons.1 nodup
  have notB := (List.nodup_cons.1 notB).1
  have behind {code' : Code} {s' : AVRState} (exact' : Exact [a, b, c] code s code' s') : Stage base code' s' :=
    stage.kept (exact'.owned owned stage.ready) owned.bytes (exact'.pointer low)
  refine wp_bind (stage.wp_ldzByte (low a List.mem_cons_self) (asconByte_lt (by decide) isByte)
    fun code₁ s₁ one₁ loaded0 => ?_)
  have exact₁ : Exact [a, b, c] code s code₁ s₁ := one₁.mono fun r member =>
    List.mem_singleton.1 member ▸ List.mem_cons_self
  refine wp_bind ((behind exact₁).wp_ldzByte (r := b) (low b (by simp)) (asconByte_lt (by decide) isByte)
    fun code₂ s₂ one₂ loaded1 => ?_)
  have exact₂ := exact₁.step one₂ (by simp)
  refine wp_bind ((behind exact₂).wp_ldzByte (r := c) (low c (by simp)) (asconByte_lt (by decide) isByte)
    fun code₃ s₃ one₃ loaded3 => ?_)
  have exact₃ := exact₂.step one₃ (by simp)
  refine holds code₃ s₃ exact₃ (behind exact₃) ?_ ?_ ?_
  · rw [one₃.others a (fun member => notA (by simp [List.mem_singleton.1 member])),
      one₂.others a (fun member => notA (by simp [List.mem_singleton.1 member])), loaded0]
  · rw [one₃.others b (fun member => notB (by simp [List.mem_singleton.1 member])), loaded1, exact₁.memory]
  · rw [loaded3, exact₂.memory]

/-- The S-box of the registers, in the slots of `x2`, `x3`, `x4`, `x0` and `x1`. -/
theorem wp_sboxOps {a b c d e f r2 r4 : Nat} {regs : Fin 8 → Nat} (isRegs : regs = [d, e, f, a, b, c, r2, r4].get)
    (nodup : [d, e, f, a, b, c, r2, r4].Nodup) :
    target.wp (sboxOps.forM (SlotOp.emit regs)) (fun _ code' s' => Exact [d, e, f, a, b, c, r2, r4] code s code' s' ∧
      (⟨s'.r r2, s'.r c, s'.r r4, s'.r a, s'.r b⟩ : Five Byte) =
        substituted ⟨s.r a, s.r b, s.r r2, s.r c, s.r r4⟩) code s := by
  have inj : Function.Injective regs := by
    rw [isRegs]
    exact List.nodup_iff_injective_get.1 nodup
  have ofRegs : List.ofFn regs = [d, e, f, a, b, c, r2, r4] := by
    rw [isRegs]
    rfl
  refine wp_mono (wp_slotOps sboxOps_proper (fun _ => rfl) inj) ?_
  rintro _ code' s' ⟨exact', slots⟩
  rw [ofRegs] at exact'
  have values := foldl_sboxOps fun i => s.r (regs i)
  rw [← slots 3, ← slots 4, ← slots 5, ← slots 6, ← slots 7, isRegs] at values
  exact ⟨exact', values⟩

/-- The results are stored, but for that of `x2`. -/
theorem Stage.wp_storeColumn {base offset a b c r4 : Nat} {rest : Build Unit} (isByte : offset < 8)
    (stage : Stage base code s) (low : Low [a, b, c]) (lower4 : r4 < 30)
    (holds : ∀ code' s', Kept [] code s code' s' → s'.r = s.r →
      s'.memory = (((s.memory.write (base + asconByte 3 offset) [s.r a]).write (base + asconByte 4 offset) [s.r b]).write
        (base + asconByte 1 offset) [s.r c]).write (base + asconByte 2 offset) [s.r r4] →
      target.wp rest Q code' s') :
    target.wp (do
      stz [a] (asconByte 3 offset)
      stz [b] (asconByte 4 offset)
      stz [c] (asconByte 1 offset)
      stz [r4] (asconByte 2 offset)
      rest) Q code s := by
  have none : Bytes [] := fun _ member => absurd member List.not_mem_nil
  refine wp_bind (stage.wp_stzByte (low a List.mem_cons_self) (asconByte_lt (by decide) isByte)
    fun code₁ s₁ stored₁ stage₁ kept₁ => ?_)
  refine wp_bind (stage₁.wp_stzByte (r := b) (low b (by simp)) (asconByte_lt (by decide) isByte)
    fun code₂ s₂ stored₂ stage₂ kept₂ => ?_)
  refine wp_bind (stage₂.wp_stzByte (r := c) (low c (by simp)) (asconByte_lt (by decide) isByte)
    fun code₃ s₃ stored₃ stage₃ kept₃ => ?_)
  refine wp_bind (stage₃.wp_stzByte lower4 (asconByte_lt (by decide) isByte) fun code₄ s₄ stored₄ _ kept₄ => ?_)
  refine holds code₄ s₄ (((kept₁.trans none kept₂).trans none kept₃).trans none kept₄) ?_ ?_
  · rw [stored₄.regs, stored₃.regs, stored₂.regs, stored₁.regs]
  · rw [stored₄.memory, stored₃.memory, stored₂.memory, stored₁.memory, stored₃.regs, stored₂.regs, stored₁.regs]

/-- The code of `ascon_substitute` for one column. -/
theorem wp_asconSubstitute {base offset r2 r4 : Nat} (isByte : offset < 8) (stage : Stage base code s)
    (owned2 : inRegs code.allocated r2 = true) (owned4 : inRegs code.allocated r4 = true) (other : r2 ≠ r4)
    (lower2 : r2 < 30) (lower4 : r4 < 30) :
    target.wp (asconSubstitute offset [r2] [r4]) (fun _ code' s' => Kept [r2, r4] code s code' s' ∧ Stage base code' s' ∧
      s'.r r2 = (substituted (column s base offset r2 r4)).w0 ∧
      s'.memory = (((s.memory.write (base + asconByte 3 offset) [(substituted (column s base offset r2 r4)).w3]).write
        (base + asconByte 4 offset) [(substituted (column s base offset r2 r4)).w4]).write
        (base + asconByte 1 offset) [(substituted (column s base offset r2 r4)).w1]).write
        (base + asconByte 2 offset) [(substituted (column s base offset r2 r4)).w2]) code s := by
  have ofArgs {P : Nat → Prop} (first : P r2) (second : P r4) : ∀ r ∈ [r2, r4], P r := by
    intro r member
    rcases List.mem_cons.1 member with rfl | last
    · exact first
    · rwa [List.mem_singleton.1 last]
  have ownedArgs : Owned code [r2, r4] := ofArgs owned2 owned4
  have lowArgs : Low [r2, r4] := ofArgs lower2 lower4
  have nodupArgs : [r2, r4].Nodup := by
    rw [List.nodup_cons, List.mem_singleton]
    exact ⟨other, List.nodup_singleton r4⟩
  -- The registers of `x0`, `x1` and `x3` are loaded.
  refine stage.wp_threeRegs fun a b c code₃ outer stage₃ lowOuter => ?_
  have ownedOuter : Owned code₃ [a, b, c] := fun r member => (outer.allocated r).2 (Or.inr member)
  have owned₃ : Owned code₃ [a, b, c, r2, r4] := outer.owned_append ownedArgs
  refine stage₃.wp_loadColumn isByte lowOuter ownedOuter outer.nodup
    fun code₆ s₆ exact₆ stage₆ loaded0 loaded1 loaded3 => ?_
  have kept₆ := exact₆.owned ownedOuter stage₃.ready
  have owned₆ : Owned code₆ [a, b, c, r2, r4] := owned₃.kept kept₆
  -- The registers of `t0`, `t1` and `t2`: all eight registers differ, and the caller and this function own them.
  refine stage₆.wp_threeRegs fun d e f code₉ inner stage₉ lowInner => ?_
  have nodup : [d, e, f, a, b, c, r2, r4].Nodup := inner.nodup_append (outer.nodup_append nodupArgs ownedArgs) owned₆
  have owned₉ : Owned code₉ [d, e, f, a, b, c, r2, r4] := inner.owned_append owned₆
  have low₉ : Low [d, e, f, a, b, c, r2, r4] := lowInner.append (lowOuter.append lowArgs)
  -- The S-box.
  obtain ⟨regs, isRegs⟩ : ∃ regs : Fin 8 → Nat, regs = [d, e, f, a, b, c, r2, r4].get := ⟨_, rfl⟩
  refine wp_congr (n := sboxOps.forM (SlotOp.emit regs) >>= fun _ => do
    stz [a] (asconByte 3 offset)
    stz [b] (asconByte 4 offset)
    stz [c] (asconByte 1 offset)
    stz [r4] (asconByte 2 offset)
    releaseReg [a]
    releaseReg [b]
    releaseReg [c]
    releaseReg [d]
    releaseReg [e]
    releaseReg [f]) ?_ ?_
  · have cons (op : SlotOp 8) (ops : List (SlotOp 8)) :
        (op :: ops).forM (SlotOp.emit regs) = op.emit regs >>= fun _ => ops.forM (SlotOp.emit regs) := rfl
    have nil : ([] : List (SlotOp 8)).forM (SlotOp.emit regs) = pure () := rfl
    simp only [sboxOps, cons, nil, bind_assoc, pure_bind]
    rw [isRegs]
    rfl
  refine wp_bind (wp_mono (wp_sboxOps isRegs nodup) ?_)
  rintro _ code₁₀ s₁₀ ⟨exact₁₀, values⟩
  have kept₁₀ := exact₁₀.owned owned₉ stage₉.ready
  have stage₁₀ := stage₉.kept kept₁₀ owned₉.bytes (exact₁₀.pointer low₉)
  have inputs : (⟨s₆.r a, s₆.r b, s₆.r r2, s₆.r c, s₆.r r4⟩ : Five Byte) = column s base offset r2 r4 := by
    have apart : ∀ r ∈ [r2, r4], r ∉ [a, b, c] := fun r member taken => (outer.free r taken).1 (ownedArgs r member)
    rw [loaded0, loaded1, loaded3, exact₆.others r2 (apart r2 List.mem_cons_self), exact₆.others r4 (apart r4 (by simp))]
    rfl
  rw [inputs] at values
  generalize substituted (column s base offset r2 r4) = result at values
  subst values
  -- The results are stored, and the registers are released.
  refine stage₁₀.wp_storeColumn isByte lowOuter lower4 fun code₁₄ s₁₄ stores regs₁₄ memory₁₄ => ?_
  have kept₁₄ : Kept ([a, b, c, r2, r4] ++ [d, e, f]) code₉ s₆ code₁₄ s₁₄ := by
    refine (kept₁₀.trans owned₉.bytes (stores.mono fun _ member => absurd member List.not_mem_nil)).mono ?_
    intro r member
    have member : r ∈ [d, e, f] ++ [a, b, c, r2, r4] := member
    exact List.mem_append.2 (List.mem_append.1 member).symm
  refine wp_congr (release_eq a b c d e f) (wp_bind ?_)
  refine wp_releaseReg [a, b, c, r2, r4] inner stage₆.ready kept₁₄ fun code₁₅ kept₁₅ _ => ?_
  have kept₁₅ : Kept ([r2, r4] ++ [a, b, c]) code₃ s code₁₅ s₁₄ := by
    refine ((kept₆.mono fun r member => List.mem_append_left [r2, r4] member).trans owned₃.bytes kept₁₅).mono ?_
    intro r member
    have member : r ∈ [a, b, c] ++ [r2, r4] := member
    exact List.mem_append.2 (List.mem_append.1 member).symm
  refine wp_releaseReg [r2, r4] outer stage.ready kept₁₅ fun code' kept _ => ?_
  have pointer : s₁₄.pair 30 = s.pair 30 := by
    rw [AVRState.pair, regs₁₄, ← AVRState.pair, stage₁₀.pointer, stage.pointer]
  refine ⟨kept, stage.kept kept ownedArgs.bytes pointer, ?_, ?_⟩
  · rw [regs₁₄]
  · rw [memory₁₄, exact₁₀.memory, exact₆.memory]

end AsconSuite.Avr
