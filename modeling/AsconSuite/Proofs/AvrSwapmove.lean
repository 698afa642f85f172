/-
Module: AsconSuite.Proofs.AvrSwapmove
Layer: Proofs
Purpose: The swaps, and the sequence of calls of `swapmove`: which bits change places, with the distances of the shifts
  as they are, and when these are the documented ones.
Imports: AsconSuite.Proofs.AvrBitShifts, AsconSuite.Tools.AvrSwap
Trusted boundary: none (fully proved)
Main exports: Avr.wp_logxor, Avr.wp_logandImm, Avr.wp_swap, Avr.Swapmoved, Avr.wp_swapmoveFront, Avr.changes_iff
-/
import AsconSuite.Proofs.AvrBitShifts
import AsconSuite.Tools.AvrSwap

namespace AsconSuite.Avr

open ByteWord ByteMemory ByteNumber BitStrings
open Emit (Target)
open Emit.Target

variable {code code' : Code} {s s' : AVRState}

/-! ### Logical operations on numbers -/

theorem regNat_append (s : AVRState) (low high : Reg) :
    regNat s (low ++ high) = regNat s low + 256 ^ low.length * regNat s high := by
  rw [regNat, List.map_append, number_append, List.length_map]
  rfl

/-- A register that is not written. -/
theorem Exact.regNat {reg : Reg} {written : List Nat} (exact : Exact written code s code' s')
    (apart : ∀ r ∈ reg, r ∉ written) : regNat s' reg = regNat s reg :=
  regNat_congr fun r member => exact.others r (apart r member)

/-- The bytes that two registers have in common are XOR'ed. -/
theorem wp_logxor {reg1 reg2 : Reg} (nodup : reg1.Nodup) (apart : ∀ r ∈ reg1, r ∉ reg2)
    (le : reg2.length ≤ reg1.length) :
    target.wp (logxor reg1 reg2) (fun _ code' s' => Exact reg1 code s code' s' ∧
      regNat s' reg1 = regNat s reg1 ^^^ regNat s reg2) code s := by
  induction reg1 generalizing reg2 code s with
  | nil =>
      rw [List.length_eq_zero_iff.1 (Nat.le_zero.1 le)]
      exact wp_pure ⟨Exact.refl [] code s, (Nat.xor_zero _).symm⟩
  | cons r1 rest1 ih =>
      cases reg2 with
      | nil => exact wp_pure ⟨Exact.refl _ code s, (Nat.xor_zero _).symm⟩
      | cons r2 rest2 =>
          obtain ⟨notRest, nodupRest⟩ := List.nodup_cons.1 nodup
          have notOther := apart r1 List.mem_cons_self
          refine wp_bind (wp_eor fun code₁ s₁ exact₁ xored _ => ?_)
          have apartRest : ∀ r ∈ rest1, r ∉ rest2 := fun r member isRest =>
            apart r (List.mem_cons_of_mem r1 member) (List.mem_cons_of_mem r2 isRest)
          refine wp_mono (ih nodupRest apartRest (Nat.le_of_succ_le_succ le)) ?_
          rintro _ code' s' ⟨exact', rest⟩
          refine ⟨(exact₁.mono fun r member => ?_).trans (exact'.mono fun _ => List.mem_cons_of_mem r1), ?_⟩
          · exact List.mem_singleton.1 member ▸ List.mem_cons_self
          · have first : s'.r r1 = s.r r1 ^^^ s.r r2 := (exact'.others r1 notRest).trans xored
            have same1 : regNat s₁ rest1 = regNat s rest1 :=
              exact₁.regNat fun r member single => notRest (List.mem_singleton.1 single ▸ member)
            have same2 : regNat s₁ rest2 = regNat s rest2 := exact₁.regNat fun r member single =>
              notOther (List.mem_singleton.1 single ▸ List.mem_cons_of_mem r2 member)
            rw [regNat_cons, regNat_cons, regNat_cons, rest, first, same1, same2, BitVec.toNat_xor]
            exact (xor_parts (k := 8) (s.r r1).isLt (s.r r2).isLt _ _).symm

/-- One byte is AND'ed with a value. -/
theorem wp_logandByte {r value : Nat} (ready : Ready code s) (owned : inRegs code.allocated r = true) :
    target.wp (logandByte r (value % 256)) (fun _ code' s' => Kept [r] code s code' s' ∧
      (s'.r r).toNat = (s.r r).toNat &&& (value % 256)) code s := by
  refine wp_ite (fun zero => ?_) fun _ => wp_ite (fun ones => wp_pure ⟨Kept.refl ready, ?_⟩) fun _ => ?_
  · refine wp_zeroreg ready fun code' s' exact cleared _ _ => ⟨exact.owned (fun r' member => ?_) ready, ?_⟩
    · rw [List.mem_singleton.1 member]
      exact owned
    · rw [cleared, zero, Nat.and_zero]
      rfl
  · rw [ones]
    exact (Nat.and_two_pow_sub_one_of_lt_two_pow (s.r r).isLt).symm
  · refine wp_mono (wp_andImm ready owned) fun _ code' s' ⟨kept, masked⟩ => ⟨kept, ?_⟩
    rw [masked, BitVec.toNat_and, BitVec.toNat_ofNat, Nat.mod_mod]

/-- A register is AND'ed with an immediate value. -/
theorem wp_logandImm {reg : Reg} (value : Nat) (ready : Ready code s) (nodup : reg.Nodup) (owned : Owned code reg) :
    target.wp (logandImm reg value) (fun _ code' s' => Kept reg code s code' s' ∧
      regNat s' reg = regNat s reg &&& value) code s := by
  induction reg generalizing value code s with
  | nil => exact wp_pure ⟨Kept.refl ready, (Nat.zero_and value).symm⟩
  | cons r rest ih =>
      obtain ⟨notRest, nodupRest⟩ := List.nodup_cons.1 nodup
      refine wp_bind (wp_mono (wp_logandByte ready (owned r List.mem_cons_self)) ?_)
      rintro _ code₁ s₁ ⟨kept₁, masked⟩
      refine wp_mono (ih (value >>> 8) kept₁.ready nodupRest (owned.tail kept₁)) ?_
      rintro _ code' s' ⟨kept, others⟩
      have all := (kept₁.mono fun r' member => List.mem_singleton.1 member ▸ List.mem_cons_self).trans owned.bytes
        (kept.mono fun _ => List.mem_cons_of_mem r)
      refine ⟨all, ?_⟩
      have first : s'.r r = s₁.r r := kept.others r (Or.inl ((owned.kept kept₁) r List.mem_cons_self)) notRest
      have same : regNat s₁ rest = regNat s rest := regNat_behind owned kept₁ notRest
      have split : value = value % 256 + 256 * (value >>> 8) := by
        rw [Nat.shiftRight_eq_div_pow]
        exact (Nat.mod_add_div value 256).symm
      rw [regNat_cons, regNat_cons, others, first, masked, same]
      calc _ = ((s.r r).toNat + 2 ^ 8 * regNat s rest) &&& (value % 256 + 2 ^ 8 * (value >>> 8)) :=
            (and_parts (k := 8) (s.r r).isLt (Nat.mod_lt value (by decide)) _ _).symm
        _ = _ := congrArg _ split.symm

/-- A register is copied to one that has no byte in common with it. -/
theorem wp_moveApart {reg1 reg2 : Reg} (sameLength : reg1.length = reg2.length) (nodup : reg1.Nodup)
    (bytes : Bytes reg1) (apart : ∀ r ∈ reg1, r ∉ reg2) :
    target.wp (move reg1 reg2 false) (fun _ code' s' => Within reg1 code s code' s' ∧
      regNat s' reg1 = regNat s reg2) code s := by
  have both : min (Reg.size reg1) (Reg.size reg2) = reg1.length := by
    rw [Reg.size, Reg.size, ← sameLength, Nat.min_self]
  refine wp_bind (wp_mono (wp_moveLoop _ 0 bytes ?_ (by omega)) ?_)
  · intro i j lt below
    rw [both] at below
    refine ⟨fun same => ?_, Reg.reg_ne nodup (Nat.lt_trans lt below) below (Nat.ne_of_lt lt)⟩
    rw [Reg.reg_eq_getElem (Nat.lt_trans lt below), Reg.reg_eq_getElem (sameLength ▸ below)] at same
    have isSource : reg2[j] ∈ reg2 := List.getElem_mem _
    rw [← same] at isSource
    exact apart _ (List.getElem_mem _) isSource
  · intro _ code' s' moved
    rw [both, Nat.sub_zero, ← List.range_eq_range'] at moved
    exact wp_pure ⟨moved.toWithin.mono indexPairs_dest, congrArg number (moved.map sameLength)⟩

/-! ### Shifts of numbers -/

theorem toNat_regValue (s : AVRState) (reg : Reg) : (regValue s reg).toNat = regNat s reg := by
  have small := regNat_lt s reg
  rw [regValue, BitVec.toNat_ofNat, Nat.mod_eq_of_lt]
  rwa [Nat.pow_mul]

theorem ShiftedRight.nat {reg : Reg} {count : Nat} (shifted : ShiftedRight reg count s s') :
    regNat s' reg = regNat s reg >>> count := by
  rw [← toNat_regValue, shifted.value, BitVec.toNat_ushiftRight, toNat_regValue]

theorem ShiftedLeft.nat {reg : Reg} {count : Nat} (shifted : ShiftedLeft reg count s s') :
    regNat s' reg = regNat s reg <<< count % 2 ^ (8 * reg.length) := by
  rw [← toNat_regValue, shifted.value, BitVec.toNat_shiftLeft, toNat_regValue]

/-! ### Parts of numbers -/

theorem pow_bytes (count : Nat) : 256 ^ count = 2 ^ (8 * count) := (Nat.pow_mul 2 8 count).symm

theorem regNat_parts (s : AVRState) (reg : Reg) {count : Nat} (le : count ≤ reg.length) :
    regNat s reg = regNat s (reg.take count) + 2 ^ (8 * count) * regNat s (reg.drop count) := by
  have parts := regNat_append s (reg.take count) (reg.drop count)
  rwa [List.take_append_drop, List.length_take, Nat.min_eq_left le, pow_bytes] at parts

theorem regNat_take_lt (s : AVRState) (reg : Reg) (count : Nat) : regNat s (reg.take count) < 2 ^ (8 * count) := by
  have small := regNat_lt s (reg.take count)
  rw [pow_bytes] at small
  refine Nat.lt_of_lt_of_le small (Nat.pow_le_pow_right Nat.two_pos (Nat.mul_le_mul_left 8 ?_))
  exact List.length_take_le count reg

theorem regNat_take (s : AVRState) (reg : Reg) {count : Nat} (le : count ≤ reg.length) :
    regNat s (reg.take count) = regNat s reg % 2 ^ (8 * count) := by
  rw [regNat_parts s reg le, Nat.add_mul_mod_self_left, Nat.mod_eq_of_lt (regNat_take_lt s reg count)]

theorem regNat_drop (s : AVRState) (reg : Reg) {count : Nat} (le : count ≤ reg.length) :
    regNat s (reg.drop count) = regNat s reg >>> (8 * count) := by
  rw [regNat_parts s reg le, Nat.shiftRight_eq_div_pow, Nat.add_mul_div_left _ _ (Nat.two_pow_pos _),
    Nat.div_eq_of_lt (regNat_take_lt s reg count), Nat.zero_add]

/-! ### Swaps -/

/-- Two bytes are swapped. One byte is not swapped with itself where `r0` may be allocated, but is cleared. -/
theorem wp_swapByte {r1 r2 : Nat} (ready : Ready code s) (owned1 : inRegs code.allocated r1 = true)
    (owned2 : inRegs code.allocated r2 = true) :
    target.wp (swapByte r1 r2) (fun _ code' s' => Kept [r1, r2] code s code' s' ∧
      (r1 ≠ r2 → s'.r r1 = s.r r2 ∧ s'.r r2 = s.r r1) ∧
      (r1 = r2 → s'.r r1 = if code.hasFlag tempR0 then 0#8 else s.r r1)) code s := by
  have owned : ∀ r ∈ [r1, r2], inRegs code.allocated r = true := by
    intro r member
    rcases List.mem_cons.1 member with rfl | last
    · exact owned1
    · exact List.mem_singleton.1 last ▸ owned2
  have first : r1 ∈ [r1, r2] := List.mem_cons_self
  have second : r2 ∈ [r1, r2] := List.mem_cons_of_mem r1 List.mem_cons_self
  refine wp_bind (wp_get (wp_ite (fun temp => ?_) fun noTemp => ?_))
  · refine wp_bind (wp_eor fun code₁ s₁ exact₁ one _ => wp_bind (wp_eor fun code₂ s₂ exact₂ two _ =>
      wp_eor fun code₃ s₃ exact₃ three _ => ?_))
    have all := ((exact₁.mono fun r single => List.mem_singleton.1 single ▸ first).step exact₂ second).step exact₃ first
    refine ⟨all.owned owned ready, fun other => ?_, fun same => ?_⟩
    · have kept1 : s₂.r r1 = s₁.r r1 := exact₂.others r1 fun single => other (List.mem_singleton.1 single)
      have kept2 : s₁.r r2 = s.r r2 := exact₁.others r2 fun single => other (List.mem_singleton.1 single).symm
      have kept3 : s₃.r r2 = s₂.r r2 := exact₃.others r2 fun single => other (List.mem_singleton.1 single).symm
      have swapped : s₂.r r2 = s.r r1 := by
        rw [two, kept2, one, BitVec.xor_comm (s.r r1), ← BitVec.xor_assoc, BitVec.xor_self, BitVec.zero_xor]
      refine ⟨?_, kept3.trans swapped⟩
      rw [three, kept1, swapped, one, BitVec.xor_comm (s.r r1), BitVec.xor_assoc, BitVec.xor_self, BitVec.xor_zero]
    · subst same
      rw [if_pos temp, three, BitVec.xor_self]
  · have noFlag : code.hasFlag tempR0 = false := Bool.eq_false_iff.2 noTemp
    have isOther {r : Nat} (member : inRegs code.allocated r = true) : r ≠ tempRegNumber := by
      rintro rfl
      rw [tempRegNumber, ready.r0 noFlag] at member
      exact nomatch member
    refine wp_bind (wp_mov fun code₁ s₁ exact₁ one _ => wp_bind (wp_mov fun code₂ s₂ exact₂ two _ =>
      wp_mov fun code₃ s₃ exact₃ three _ => ?_))
    have start : Exact (tempRegNumber :: [r1, r2]) code s code₁ s₁ :=
      exact₁.mono fun r single => List.mem_singleton.1 single ▸ List.mem_cons_self
    have all := (start.step exact₂ (List.mem_cons_of_mem _ first)).step exact₃ (List.mem_cons_of_mem _ second)
    have spare := spare_tempRegNumber ready.toConventions (by rw [noFlag]; rfl)
    have temp₂ : s₂.r tempRegNumber = s.r r1 := by
      rw [exact₂.others _ fun single => isOther owned1 (List.mem_singleton.1 single).symm, one]
    refine ⟨all.within.keptSpare spare ready owned, fun other => ⟨?_, three.trans temp₂⟩, fun same => ?_⟩
    · rw [exact₃.others r1 fun single => other (List.mem_singleton.1 single), two,
        exact₁.others r2 fun single => isOther owned2 (List.mem_singleton.1 single)]
    · subst same
      rw [if_neg noTemp, three, temp₂]

/-- Two registers that have no byte in common are swapped. -/
theorem wp_swap {reg1 reg2 : Reg} (sameLength : reg1.length = reg2.length) (ready : Ready code s)
    (nodup1 : reg1.Nodup) (nodup2 : reg2.Nodup) (owned1 : Owned code reg1) (owned2 : Owned code reg2)
    (apart : ∀ r ∈ reg1, r ∉ reg2) :
    target.wp (swap reg1 reg2) (fun _ code' s' => Kept (reg1 ++ reg2) code s code' s' ∧
      regNat s' reg1 = regNat s reg2 ∧ regNat s' reg2 = regNat s reg1) code s := by
  induction reg1 generalizing reg2 code s with
  | nil =>
      rw [List.length_eq_zero_iff.1 sameLength.symm]
      exact wp_pure ⟨Kept.refl ready, rfl, rfl⟩
  | cons r1 rest1 ih =>
      cases reg2 with
      | nil => exact absurd sameLength (by simp)
      | cons r2 rest2 =>
          obtain ⟨notRest1, nodupRest1⟩ := List.nodup_cons.1 nodup1
          obtain ⟨notRest2, nodupRest2⟩ := List.nodup_cons.1 nodup2
          have notOther := apart r1 List.mem_cons_self
          have other : r1 ≠ r2 := fun same => notOther (same ▸ List.mem_cons_self)
          have notRest12 : r1 ∉ rest2 := fun member => notOther (List.mem_cons_of_mem r2 member)
          have notRest21 : r2 ∉ rest1 := fun member =>
            apart r2 (List.mem_cons_of_mem r1 member) List.mem_cons_self
          refine wp_bind (wp_mono (wp_swapByte ready (owned1 r1 List.mem_cons_self) (owned2 r2 List.mem_cons_self)) ?_)
          rintro _ code₁ s₁ ⟨kept₁, swapped, -⟩
          obtain ⟨first, second⟩ := swapped other
          have bytes : Bytes (r1 :: rest1 ++ r2 :: rest2) := fun r member =>
            (List.mem_append.1 member).elim (owned1.bytes r) (owned2.bytes r)
          have ownedRest1 : Owned code rest1 := owned1.behind
          have ownedRest2 : Owned code rest2 := owned2.behind
          refine wp_mono (ih (Nat.succ.inj sameLength) kept₁.ready nodupRest1 nodupRest2 (ownedRest1.kept kept₁)
            (ownedRest2.kept kept₁) fun r member isRest =>
              apart r (List.mem_cons_of_mem r1 member) (List.mem_cons_of_mem r2 isRest)) ?_
          rintro _ code' s' ⟨kept, rest⟩
          have all : Kept (r1 :: rest1 ++ r2 :: rest2) code s code' s' := by
            refine (kept₁.mono fun r member => ?_).trans bytes (kept.mono fun r member => ?_)
            · rcases List.mem_cons.1 member with rfl | last
              · exact List.mem_append_left _ List.mem_cons_self
              · exact List.mem_append_right _ (List.mem_singleton.1 last ▸ List.mem_cons_self)
            · rcases List.mem_append.1 member with isFirst | isSecond
              · exact List.mem_append_left _ (List.mem_cons_of_mem r1 isFirst)
              · exact List.mem_append_right _ (List.mem_cons_of_mem r2 isSecond)
          have same1 : regNat s₁ rest1 = regNat s rest1 := regNat_kept ownedRest1 kept₁ fun r member pair => by
            rcases List.mem_cons.1 pair with rfl | last
            · exact notRest1 member
            · exact notRest21 (List.mem_singleton.1 last ▸ member)
          have same2 : regNat s₁ rest2 = regNat s rest2 := regNat_kept ownedRest2 kept₁ fun r member pair => by
            rcases List.mem_cons.1 pair with rfl | last
            · exact notRest12 member
            · exact notRest2 (List.mem_singleton.1 last ▸ member)
          have still1 : s'.r r1 = s.r r2 := by
            rw [← first]
            exact kept.others r1 (Or.inl ((owned1.kept kept₁) r1 List.mem_cons_self)) fun member =>
              (List.mem_append.1 member).elim notRest1 notRest12
          have still2 : s'.r r2 = s.r r1 := by
            rw [← second]
            exact kept.others r2 (Or.inl ((owned2.kept kept₁) r2 List.mem_cons_self)) fun member =>
              (List.mem_append.1 member).elim notRest21 notRest2
          rw [regNat_cons, regNat_cons, regNat_cons, regNat_cons, rest.1, rest.2, same1, same2, still1, still2]
          exact ⟨all, rfl, rfl⟩

/-! ### The documented result -/

/-- The bits that change places: `t` of the documentation. -/
def swapmoveBits (x1 x2 mask shift : Nat) : Nat := (x2 ^^^ (x1 >>> shift)) &&& mask

/-- `reg2 ^= t; reg1 ^= moved;`, where the registers may be the same. -/
structure Swapmoved (reg1 reg2 : Reg) (t moved : Nat) (s s' : AVRState) : Prop where
  same : reg1 = reg2 → regNat s' reg1 = regNat s reg1 ^^^ t ^^^ moved
  apart : reg1 ≠ reg2 → regNat s' reg1 = regNat s reg1 ^^^ moved ∧ regNat s' reg2 = regNat s reg2 ^^^ t

/-- Registers that are the same, or that have no byte in common. -/
def SameOrDisjoint (reg1 reg2 : Reg) : Prop := reg1 = reg2 ∨ ∀ r ∈ reg1, r ∉ reg2

theorem SameOrDisjoint.disjoint {reg1 reg2 : Reg} (regs : SameOrDisjoint reg1 reg2) (other : reg1 ≠ reg2) :
    ∀ r ∈ reg1, r ∉ reg2 := regs.resolve_left other

/-! ### The full sequence -/

theorem hasSpare_congr (flags : code'.flags = code.flags) (allocated : code'.allocated = code.allocated)
    (regOrder : code'.regOrder = code.regOrder) : hasSpare code' = hasSpare code := by
  rw [hasSpare, hasSpare, Code.hasFlag, Code.hasFlag, flags, allocated, regOrder]

theorem Kept.hasSpare {written : List Nat} (kept : Kept written code s code' s') (ready : Ready code s) :
    hasSpare code' = hasSpare code := by
  refine hasSpare_congr kept.flags kept.allocated ?_
  rw [kept.ready.order, ready.order, resetRegs_regOrder_congr kept.flags]

theorem Kept.lslDistance {written : List Nat} (kept : Kept written code s code' s') (ready : Ready code s) (bits : Nat) :
    lslDistance code' bits = lslDistance code bits := by
  rw [Avr.lslDistance, Avr.lslDistance, kept.hasSpare ready]

theorem Kept.lsrDistance {written : List Nat} (kept : Kept written code s code' s') (ready : Ready code s) (reg : Reg)
    (bits : Nat) : lsrDistance code' reg bits = lsrDistance code reg bits := by
  rw [Avr.lsrDistance, Avr.lsrDistance, kept.hasSpare ready]

/-- What the registers of a swap and move must be: the temporary one has no byte in common with the others. -/
structure SwapOperands (code : Code) (t reg1 reg2 : Reg) : Prop where
  nodupT : t.Nodup
  nodup1 : reg1.Nodup
  nodup2 : reg2.Nodup
  ownedT : Owned code t
  owned1 : Owned code reg1
  owned2 : Owned code reg2
  size1 : reg1.length = t.length
  size2 : reg2.length = t.length
  apart1 : ∀ r ∈ t, r ∉ reg1
  apart2 : ∀ r ∈ t, r ∉ reg2
  regs : SameOrDisjoint reg1 reg2

/-- The calls of a swap and move where only the lower bytes of the temporary register are masked. With all bytes these
are the full sequence. -/
def swapmoveFront (count : Nat) (t reg1 reg2 : Reg) (mask shift : Nat) : Build Unit := do
  move t reg1 false
  lsr t shift
  logxor (t.take count) (reg2.take count)
  logandImm (t.take count) mask
  logxor reg2 (t.take count)
  moveImm (t.drop count) 0
  lsl t shift
  logxor reg1 t

/-- The bits that do change places, with the distances of the shifts as they are. -/
theorem wp_swapmoveFront {count : Nat} {t reg1 reg2 : Reg} {mask shift : Nat} (le : count ≤ t.length)
    (below : mask < 2 ^ (8 * count)) (bound : shift < 2 ^ 32) (ready : Ready code s)
    (operands : SwapOperands code t reg1 reg2) :
    target.wp (swapmoveFront count t reg1 reg2 mask shift) (fun _ code' s' =>
      Kept (t ++ (reg1 ++ reg2)) code s code' s' ∧
      Swapmoved reg1 reg2
        (swapmoveBits (regNat s reg1) (regNat s reg2) mask (lsrDistance code t shift))
        (swapmoveBits (regNat s reg1) (regNat s reg2) mask (lsrDistance code t shift) <<< lslDistance code shift %
          2 ^ (8 * t.length)) s s') code s := by
  obtain ⟨nodupT, nodup1, nodup2, ownedT, owned1, owned2, size1, size2, apart1, apart2, regs⟩ := operands
  have inT {r : Nat} (member : r ∈ t) : r ∈ t ++ (reg1 ++ reg2) := List.mem_append_left _ member
  have in1 {r : Nat} (member : r ∈ reg1) : r ∈ t ++ (reg1 ++ reg2) :=
    List.mem_append_right _ (List.mem_append_left _ member)
  have in2 {r : Nat} (member : r ∈ reg2) : r ∈ t ++ (reg1 ++ reg2) :=
    List.mem_append_right _ (List.mem_append_right _ member)
  have owned : Owned code (t ++ (reg1 ++ reg2)) := by
    intro r member
    rcases List.mem_append.1 member with isT | other
    · exact ownedT r isT
    · exact (List.mem_append.1 other).elim (owned1 r) (owned2 r)
  have bytes := owned.bytes
  have apartT1 : ∀ r ∈ reg1, r ∉ t := fun r member isT => apart1 r isT member
  have apartT2 : ∀ r ∈ reg2, r ∉ t := fun r member isT => apart2 r isT member
  have inTake {r : Nat} (member : r ∈ t.take count) : r ∈ t := List.mem_of_mem_take member
  have lengthTake : (t.take count).length = count := by rw [List.length_take, Nat.min_eq_left le]
  -- The copy, shifted to the right.
  refine wp_bind (wp_mono (wp_moveApart size1.symm nodupT ownedT.bytes apart1) ?_)
  rintro _ code₁ s₁ ⟨within₁, copied⟩
  have kept₁ : Kept t code s code₁ s₁ :=
    within₁.kept (fun r member => ready.writable (ownedT r member)) (fun _ member _ => member) ready
  refine wp_bind (wp_mono (wp_lsr bound kept₁.ready nodupT (ownedT.kept kept₁)) ?_)
  rintro _ code₂ s₂ ⟨kept₂, shifted⟩
  have right := shifted.nat
  rw [copied, kept₁.lsrDistance ready] at right
  have kept₂ := kept₁.trans ownedT.bytes kept₂
  -- The bits that change places.
  refine wp_bind (wp_mono (wp_logxor (nodupT.sublist (List.take_sublist count t))
    (fun r member isOther => apart2 r (inTake member) (List.mem_of_mem_take isOther)) ?_) ?_)
  · rw [List.length_take, List.length_take, size2]
  rintro _ code₃ s₃ ⟨exact₃, xored⟩
  have kept₃ := kept₂.trans ownedT.bytes ((exact₃.mono fun _ => inTake).owned (ownedT.kept kept₂) kept₂.ready)
  refine wp_bind (wp_mono (wp_logandImm mask kept₃.ready (nodupT.sublist (List.take_sublist count t))
    fun r member => (ownedT.kept kept₃) r (inTake member)) ?_)
  rintro _ code₄ s₄ ⟨kept₄, masked⟩
  have kept₄ := kept₃.trans ownedT.bytes (kept₄.mono fun _ => inTake)
  have bits : regNat s₄ (t.take count) =
      swapmoveBits (regNat s reg1) (regNat s reg2) mask (lsrDistance code t shift) := by
    have same2 : regNat s₂ reg2 = regNat s reg2 := regNat_kept owned2 kept₂ apartT2
    rw [masked, xored, regNat_take s₂ t le, right, regNat_take s₂ reg2 (size2 ▸ le), same2, swapmoveBits]
    apply Nat.eq_of_testBit_eq
    intro i
    rcases Nat.lt_or_ge i (8 * count) with low | high
    · simp only [Nat.testBit_and, Nat.testBit_xor, Nat.testBit_mod_two_pow, low, decide_true, Bool.true_and]
      rw [Bool.xor_comm]
    · rw [Nat.testBit_and, Nat.testBit_and,
        Nat.testBit_lt_two_pow (Nat.lt_of_lt_of_le below (Nat.pow_le_pow_right Nat.two_pos high)), Bool.and_false,
        Bool.and_false]
  generalize swapmoveBits (regNat s reg1) (regNat s reg2) mask (lsrDistance code t shift) = moving at bits ⊢
  -- They are changed in the second register.
  refine wp_bind (wp_mono (wp_logxor nodup2 (fun r member isT => apart2 r (inTake isT) member) ?_) ?_)
  · rw [lengthTake, size2]
    exact le
  rintro _ code₅ s₅ ⟨exact₅, second⟩
  have kept₅' := exact₅.owned (owned2.kept kept₄) kept₄.ready
  have kept₅ := (kept₄.mono fun _ => inT).trans bytes (kept₅'.mono fun _ => in2)
  have second : regNat s₅ reg2 = regNat s reg2 ^^^ moving := by
    rw [second, bits, regNat_kept owned2 kept₄ apartT2]
  -- They are shifted to the left, with zeros beside them.
  refine wp_bind (wp_mono (wp_moveZero kept₅.ready fun r member => (ownedT.kept kept₅) r (List.mem_of_mem_drop member)) ?_)
  rintro _ code₆ s₆ ⟨kept₆, zeros⟩
  have kept₆' := kept₅.trans bytes (kept₆.mono fun _ member => inT (List.mem_of_mem_drop member))
  have whole : regNat s₆ t = moving := by
    have low : regNat s₆ (t.take count) = moving := by
      rw [← bits, ← exact₅.regNat fun r member isSecond => apart2 r (inTake member) isSecond]
      refine regNat_kept (fun r member => (ownedT.kept kept₅) r (inTake member)) kept₆ fun r member isHigh => ?_
      exact (List.disjoint_take_drop nodupT (Nat.le_refl count)) member isHigh
    have high : regNat s₆ (t.drop count) = 0 := by
      rw [regNat, List.map_congr_left zeros, List.map_const', number_replicate_zero]
    rw [regNat_parts s₆ t le, low, high, Nat.mul_zero, Nat.add_zero]
  refine wp_bind (wp_mono (wp_lsl bound kept₆'.ready nodupT (ownedT.kept kept₆')) ?_)
  rintro _ code₇ s₇ ⟨kept₇, shifted'⟩
  have left := shifted'.nat
  rw [whole, kept₆'.lslDistance ready] at left
  have kept₇' := kept₆'.trans bytes (kept₇.mono fun _ => inT)
  have same (reg : Reg) (owned : Owned code reg) (apart : ∀ r ∈ reg, r ∉ t) : regNat s₇ reg = regNat s₅ reg := by
    rw [regNat_kept (owned.kept kept₆') kept₇ apart,
      regNat_kept (owned.kept kept₅) kept₆ fun r member isHigh => apart r member (List.mem_of_mem_drop isHigh)]
  -- They are changed in the first register.
  refine wp_mono (wp_logxor nodup1 apartT1 (Nat.le_of_eq size1.symm)) ?_
  rintro _ code' s' ⟨exact', first⟩
  have kept' := kept₇'.trans bytes ((exact'.owned (owned1.kept kept₇') kept₇'.ready).mono fun _ => in1)
  rw [left, same reg1 owned1 apartT1] at first
  refine ⟨kept', fun isSame => ?_, fun other => ⟨?_, ?_⟩⟩
  · rw [first, isSame, second]
  · have before : regNat s₅ reg1 = regNat s reg1 := by
      rw [exact₅.regNat (regs.disjoint other), regNat_kept owned1 kept₄ apartT1]
    rw [first, before]
  · rw [exact'.regNat fun r isSecond isFirst => regs.disjoint other r isFirst isSecond, same reg2 owned2 apartT2, second]

/-! ### The same registers, another result -/

theorem xor_inj {x a b : Nat} (same : x ^^^ a = x ^^^ b) : a = b := by
  have both := congrArg (x ^^^ ·) same
  rwa [← Nat.xor_assoc, ← Nat.xor_assoc, Nat.xor_self, Nat.zero_xor, Nat.zero_xor] at both

/-- Two results are the same where the bits that change are. -/
theorem Swapmoved.iff {reg1 reg2 : Reg} {t moved t' moved' : Nat} (swapmoved : Swapmoved reg1 reg2 t moved s s') :
    Swapmoved reg1 reg2 t' moved' s s' ↔
      (reg1 = reg2 → t ^^^ moved = t' ^^^ moved') ∧ (reg1 ≠ reg2 → t = t' ∧ moved = moved') := by
  constructor
  · intro other
    refine ⟨fun same => ?_, fun apart => ⟨?_, ?_⟩⟩
    · have both := (swapmoved.same same).symm.trans (other.same same)
      rw [Nat.xor_assoc, Nat.xor_assoc] at both
      exact xor_inj both
    · exact xor_inj ((swapmoved.apart apart).2.symm.trans (other.apart apart).2)
    · exact xor_inj ((swapmoved.apart apart).1.symm.trans (other.apart apart).1)
  · rintro ⟨same, apart⟩
    refine ⟨fun isSame => ?_, fun isApart => ?_⟩
    · rw [swapmoved.same isSame, Nat.xor_assoc, Nat.xor_assoc, same isSame]
    · obtain ⟨rfl, rfl⟩ := apart isApart
      exact swapmoved.apart isApart

/-! ### Halves -/

/-- The high bytes of one register and the low bytes of another one are swapped. -/
theorem wp_swapHalves {reg1 reg2 : Reg} {count : Nat} (le : count ≤ reg1.length) (sameSize : reg1.length = reg2.length)
    (room : reg1 = reg2 → 2 * count ≤ reg1.length) (ready : Ready code s) (nodup1 : reg1.Nodup) (nodup2 : reg2.Nodup)
    (owned1 : Owned code reg1) (owned2 : Owned code reg2) (regs : SameOrDisjoint reg1 reg2) :
    target.wp (swap (reg1.drop (reg1.length - count)) (reg2.take count)) (fun _ code' s' =>
      Kept (reg1 ++ reg2) code s code' s' ∧
      Swapmoved reg1 reg2
        (swapmoveBits (regNat s reg1) (regNat s reg2) (2 ^ (8 * count) - 1) (8 * (reg1.length - count)))
        (swapmoveBits (regNat s reg1) (regNat s reg2) (2 ^ (8 * count) - 1) (8 * (reg1.length - count)) <<<
          (8 * (reg1.length - count)) % 2 ^ (8 * reg1.length)) s s') code s := by
  generalize front : reg1.length - count = k
  have length : reg1.length = k + count := by omega
  have lengthHigh : (reg1.drop k).length = count := by rw [List.length_drop]; omega
  have lengthLow : (reg2.take count).length = count := by rw [List.length_take]; omega
  have ownedHigh : Owned code (reg1.drop k) := fun r member => owned1 r (List.mem_of_mem_drop member)
  have ownedLow : Owned code (reg2.take count) := fun r member => owned2 r (List.mem_of_mem_take member)
  have apart : ∀ r ∈ reg1.drop k, r ∉ reg2.take count := by
    intro r high low
    rcases regs with rfl | disjoint
    · have inside : count ≤ k := by have := room rfl; omega
      exact List.disjoint_take_drop nodup1 inside low high
    · exact disjoint r (List.mem_of_mem_drop high) (List.mem_of_mem_take low)
  refine wp_mono (wp_swap (lengthHigh.trans lengthLow.symm) ready (nodup1.sublist (List.drop_sublist k reg1))
    (nodup2.sublist (List.take_sublist count reg2)) ownedHigh ownedLow apart) ?_
  rintro _ code' s' ⟨kept, first, second⟩
  refine ⟨kept.mono fun r member => ?_, ?_⟩
  · rcases List.mem_append.1 member with high | low
    · exact List.mem_append_left _ (List.mem_of_mem_drop high)
    · exact List.mem_append_right _ (List.mem_of_mem_take low)
  -- The bits that change places are the XOR of the two halves.
  have small1 : regNat s (reg1.drop k) < 2 ^ (8 * count) := by
    have small := regNat_lt s (reg1.drop k)
    rwa [lengthHigh, pow_bytes] at small
  have small2 := regNat_take_lt s reg2 count
  have parts1 := regNat_parts s reg1 (show k ≤ reg1.length by omega)
  have parts2 := regNat_parts s reg2 (show count ≤ reg2.length by omega)
  have bits : swapmoveBits (regNat s reg1) (regNat s reg2) (2 ^ (8 * count) - 1) (8 * k) =
      regNat s (reg2.take count) ^^^ regNat s (reg1.drop k) := by
    rw [swapmoveBits, ← regNat_drop s reg1 (show k ≤ reg1.length by omega), Nat.and_two_pow_sub_one_eq_mod,
      Nat.xor_mod_two_pow, ← regNat_take s reg2 (show count ≤ reg2.length by omega), Nat.mod_eq_of_lt small1]
  have moved : (regNat s (reg2.take count) ^^^ regNat s (reg1.drop k)) <<< (8 * k) % 2 ^ (8 * reg1.length) =
      0 + 2 ^ (8 * k) * (regNat s (reg2.take count) ^^^ regNat s (reg1.drop k)) := by
    rw [Nat.zero_add, length, Nat.mul_add, Nat.pow_add, Nat.shiftLeft_eq, Nat.mul_comm _ (2 ^ (8 * k)),
      Nat.mul_mod_mul_left, Nat.mod_eq_of_lt (Nat.xor_lt_two_pow small2 small1)]
  have none : 0 < 2 ^ (8 * k) := Nat.two_pow_pos _
  rw [bits, moved]
  generalize upper : regNat s (reg1.drop k) = high at *
  generalize regNat s (reg2.take count) = low at *
  have undo : low ^^^ (low ^^^ high) = high := by rw [← Nat.xor_assoc, Nat.xor_self, Nat.zero_xor]
  have undo' : high ^^^ (low ^^^ high) = low := by rw [Nat.xor_comm low, ← Nat.xor_assoc, Nat.xor_self, Nat.zero_xor]
  have second' : regNat s reg2 ^^^ (low ^^^ high) = high + 2 ^ (8 * count) * regNat s (reg2.drop count) := by
    have zero : low ^^^ high = (low ^^^ high) + 2 ^ (8 * count) * 0 := by rw [Nat.mul_zero, Nat.add_zero]
    rw [parts2, zero, xor_parts small2 (Nat.xor_lt_two_pow small2 small1), undo, Nat.xor_zero]
  have sameLow : ∀ {regs : Reg}, Owned code regs → (∀ r ∈ regs, r ∉ reg1.drop k) → (∀ r ∈ regs, r ∉ reg2.take count) →
      regNat s' regs = regNat s regs := fun owned notHigh notLow => regNat_kept owned kept fun r member written =>
    (List.mem_append.1 written).elim (notHigh r member) (notLow r member)
  constructor
  · -- One register: the bytes between the halves stay.
    rintro rfl
    have inside : count ≤ k := by have := room rfl; omega
    have middle : k - count ≤ (reg1.drop count).length := by rw [List.length_drop]; omega
    have again : (reg1.drop count).drop (k - count) = reg1.drop k := by rw [List.drop_drop]; congr 1; omega
    have between : regNat s' ((reg1.drop count).take (k - count)) = regNat s ((reg1.drop count).take (k - count)) := by
      refine sameLow (fun r member => owned1 r (List.mem_of_mem_drop (List.mem_of_mem_take member))) ?_ ?_
      · intro r member isHigh
        rw [← again] at isHigh
        exact List.disjoint_take_drop (nodup1.sublist (List.drop_sublist count reg1)) (Nat.le_refl _) member isHigh
      · exact fun r member isLow =>
          List.disjoint_take_drop nodup1 (Nat.le_refl _) isLow (List.mem_of_mem_take member)
    have rest := regNat_parts s (reg1.drop count) middle
    have rest' := regNat_parts s' (reg1.drop count) middle
    rw [again, upper] at rest
    rw [again] at rest'
    have smallMiddle := regNat_take_lt s (reg1.drop count) (k - count)
    have factor : 2 ^ (8 * k) = 2 ^ (8 * count) * 2 ^ (8 * (k - count)) := by
      rw [← Nat.pow_add]
      congr 1
      omega
    have inner := xor_parts smallMiddle (Nat.two_pow_pos (8 * (k - count))) high (low ^^^ high)
    have outer := xor_parts small1 (Nat.two_pow_pos (8 * count)) (regNat s (reg1.drop count))
      (0 + 2 ^ (8 * (k - count)) * (low ^^^ high))
    rw [regNat_parts s' reg1 (by omega : count ≤ reg1.length), second, rest', between, first, second', factor,
      Nat.mul_assoc]
    rw [Nat.xor_zero, undo'] at inner
    rw [rest, inner, Nat.xor_zero, Nat.zero_add, Nat.zero_add] at outer
    rw [rest, Nat.zero_add]
    exact outer.symm
  · intro other
    have disjoint := regs.disjoint other
    constructor
    · have front : regNat s' (reg1.take k) = regNat s (reg1.take k) := by
        refine sameLow (fun r member => owned1 r (List.mem_of_mem_take member)) ?_ ?_
        · exact fun r member isHigh => List.disjoint_take_drop nodup1 (Nat.le_refl _) member isHigh
        · exact fun r member isLow => disjoint r (List.mem_of_mem_take member) (List.mem_of_mem_take isLow)
      rw [regNat_parts s' reg1 (by omega : k ≤ reg1.length), front, first, parts1,
        xor_parts (regNat_take_lt s reg1 k) none, undo', Nat.xor_zero]
    · have back : regNat s' (reg2.drop count) = regNat s (reg2.drop count) := by
        refine sameLow (fun r member => owned2 r (List.mem_of_mem_drop member)) ?_ ?_
        · exact fun r member isHigh => disjoint r (List.mem_of_mem_drop isHigh) (List.mem_of_mem_drop member)
        · exact fun r member isLow => List.disjoint_take_drop nodup2 (Nat.le_refl _) isLow member
      rw [regNat_parts s' reg2 (by omega : count ≤ reg2.length), second, back, second']

/-! ### Shifts by too few bits -/

/-- A shift of a register by all of its bytes and more, where a spare register is used that does not shift that far. -/
def Overshoots (spare : Bool) (size shift : Nat) : Prop := 5 ≤ shift % 8 ∧ spare = true ∧ size ≤ shift / 8

/-- How far such a shift to the left goes. -/
def cutLeft (shift : Nat) : Nat := 8 * (shift / 8 % 256) + shift % 8

/-- How far such a shift to the right goes. -/
def cutRight (size shift : Nat) : Nat := if size < shift / 8 % 256 then 0 else cutLeft shift

/-- Numbers for which the shifts do no harm: every bit that they leave is zero. In one register they may also undo each
other. -/
structure Harmless (reg1 reg2 : Reg) (x1 x2 mask size shift : Nat) : Prop where
  same : reg1 = reg2 → (x1 >>> cutRight size shift) &&& mask =
    swapmoveBits x1 x2 mask (cutRight size shift) <<< cutLeft shift % 2 ^ (8 * size)
  apart : reg1 ≠ reg2 → (x1 >>> cutRight size shift) &&& mask = 0 ∧
    (x2 &&& mask) <<< cutLeft shift % 2 ^ (8 * size) = 0

theorem shiftLeft_mod_zero (x : Nat) {size shift : Nat} (far : size ≤ shift) : x <<< shift % 2 ^ size = 0 := by
  obtain ⟨more, rfl⟩ := Nat.exists_eq_add_of_le far
  rw [Nat.shiftLeft_eq, Nat.pow_add, Nat.mul_left_comm, Nat.mul_mod_right]

/-- With the distances of the shifts as they are, the bits that change are the documented ones where no shift goes too
far, or where that does no harm. -/
theorem changes_iff {t reg1 reg2 : Reg} {x1 x2 mask shift : Nat} (few : t.length ≤ 32)
    (small : x1 < 2 ^ (8 * t.length)) :
    ((reg1 = reg2 →
        swapmoveBits x1 x2 mask (lsrDistance code t shift) ^^^
          (swapmoveBits x1 x2 mask (lsrDistance code t shift) <<< lslDistance code shift % 2 ^ (8 * t.length)) =
        swapmoveBits x1 x2 mask shift ^^^ (swapmoveBits x1 x2 mask shift <<< shift % 2 ^ (8 * t.length))) ∧
      (reg1 ≠ reg2 →
        swapmoveBits x1 x2 mask (lsrDistance code t shift) = swapmoveBits x1 x2 mask shift ∧
        swapmoveBits x1 x2 mask (lsrDistance code t shift) <<< lslDistance code shift % 2 ^ (8 * t.length) =
          swapmoveBits x1 x2 mask shift <<< shift % 2 ^ (8 * t.length))) ↔
      (Overshoots (hasSpare code) t.length shift → Harmless reg1 reg2 x1 x2 mask t.length shift) := by
  by_cases far : Overshoots (hasSpare code) t.length shift
  · have right : lsrDistance code t shift = cutRight t.length shift := if_pos ⟨far.1, far.2.1⟩
    have left : lslDistance code shift = cutLeft shift := if_pos ⟨far.1, far.2.1⟩
    have le : 8 * t.length ≤ shift := by
      have size := far.2.2
      omega
    have gone : x1 >>> shift = 0 := by
      rw [Nat.shiftRight_eq_div_pow, Nat.div_eq_of_lt]
      exact Nat.lt_of_lt_of_le small (Nat.pow_le_pow_right Nat.two_pos le)
    have bits : swapmoveBits x1 x2 mask shift = x2 &&& mask := by rw [swapmoveBits, gone, Nat.xor_zero]
    have bits' : swapmoveBits x1 x2 mask (cutRight t.length shift) =
        (x2 &&& mask) ^^^ ((x1 >>> cutRight t.length shift) &&& mask) := by
      rw [swapmoveBits, Nat.and_xor_distrib_right]
    rw [right, left, bits, shiftLeft_mod_zero _ le, Nat.xor_zero]
    constructor
    · rintro ⟨same, apart⟩ -
      refine ⟨fun isSame => ?_, fun isApart => ?_⟩
      · have both := same isSame
        generalize swapmoveBits x1 x2 mask (cutRight t.length shift) <<< cutLeft shift % 2 ^ (8 * t.length) = moved at both ⊢
        rw [bits', Nat.xor_assoc] at both
        have zero : (x1 >>> cutRight t.length shift) &&& mask ^^^ moved = 0 :=
          xor_inj (both.trans (Nat.xor_zero _).symm)
        exact (xor_inj (zero.trans (Nat.xor_self _).symm)).symm
      · obtain ⟨first, second⟩ := apart isApart
        rw [first] at second
        rw [bits'] at first
        exact ⟨xor_inj (first.trans (Nat.xor_zero _).symm), second⟩
    · intro harmless
      obtain ⟨same, apart⟩ := harmless far
      refine ⟨fun isSame => ?_, fun isApart => ?_⟩
      · rw [← same isSame, bits', Nat.xor_assoc, Nat.xor_self, Nat.xor_zero]
      · obtain ⟨first, second⟩ := apart isApart
        rw [bits', first, Nat.xor_zero]
        exact ⟨rfl, second⟩
  · have near : 5 ≤ shift % 8 ∧ hasSpare code = true → shift / 8 < t.length := by
      rintro ⟨many, spare⟩
      exact Nat.lt_of_not_le fun le => far ⟨many, spare, le⟩
    have left : lslDistance code shift = shift := by
      rw [lslDistance]
      split
      · have := near ‹_›
        omega
      · rfl
    have right : lsrDistance code t shift = shift := by
      rw [lsrDistance]
      split
      · have := near ‹_›
        rw [if_neg (by omega)]
        omega
      · rfl
    rw [right, left]
    exact iff_of_true ⟨fun _ => rfl, fun _ => ⟨rfl, rfl⟩⟩ fun tooFar => absurd tooFar far

/-! ### The upper bytes only -/

/-- A swap and move of the upper bytes changes upper bits. -/
theorem Swapmoved.upper {reg1 reg2 : Reg} {count t moved : Nat} (inside : count < reg1.length)
    (sameSize : reg1.length = reg2.length) (regs : SameOrDisjoint reg1 reg2)
    (low1 : regNat s' (reg1.take count) = regNat s (reg1.take count))
    (low2 : regNat s' (reg2.take count) = regNat s (reg2.take count))
    (high : Swapmoved (reg1.drop count) (reg2.drop count) t moved s s') :
    Swapmoved reg1 reg2 (t <<< (8 * count)) (moved <<< (8 * count)) s s' := by
  have parts (x : Nat) : x <<< (8 * count) = 0 + 2 ^ (8 * count) * x := by
    rw [Nat.zero_add, Nat.shiftLeft_eq, Nat.mul_comm]
  have none : 0 < 2 ^ (8 * count) := Nat.two_pow_pos _
  have changed (reg : Reg) (le : count ≤ reg.length) (x : Nat) : regNat s reg ^^^ (x <<< (8 * count)) =
      regNat s (reg.take count) + 2 ^ (8 * count) * (regNat s (reg.drop count) ^^^ x) := by
    rw [regNat_parts s reg le, parts, xor_parts (regNat_take_lt s reg count) none, Nat.xor_zero]
  constructor
  · rintro rfl
    rw [Nat.xor_assoc, ← Nat.shiftLeft_xor_distrib, changed reg1 (Nat.le_of_lt inside),
      regNat_parts s' reg1 (Nat.le_of_lt inside), low1, high.same rfl, Nat.xor_assoc]
  · intro other
    have otherHigh : reg1.drop count ≠ reg2.drop count := by
      intro same
      have some_byte : 0 < (reg1.drop count).length := by
        rw [List.length_drop]
        omega
      obtain ⟨r, member⟩ := List.exists_mem_of_length_pos some_byte
      exact regs.disjoint other r (List.mem_of_mem_drop member) (List.mem_of_mem_drop (same ▸ member))
    obtain ⟨first, second⟩ := high.apart otherHigh
    have le2 : count ≤ reg2.length := by omega
    rw [changed reg1 (Nat.le_of_lt inside), changed reg2 le2, regNat_parts s' reg1 (Nat.le_of_lt inside),
      regNat_parts s' reg2 le2, low1, low2, first, second]
    exact ⟨rfl, rfl⟩

/-- The bits that change places where the mask has upper bits only. -/
theorem swapmoveBits_upper {x1 x2 mask count : Nat} (upper : mask % 2 ^ count = 0) (shift : Nat) :
    swapmoveBits x1 x2 mask shift =
      swapmoveBits (x1 >>> count) (x2 >>> count) (mask >>> count) shift <<< count := by
  apply Nat.eq_of_testBit_eq
  intro i
  have low : i < count → mask.testBit i = false := by
    intro lt
    have bit := Nat.testBit_mod_two_pow mask count i
    rw [upper, Nat.zero_testBit, decide_eq_true lt, Bool.true_and] at bit
    exact bit.symm
  rw [swapmoveBits, swapmoveBits, Nat.testBit_shiftLeft, Nat.testBit_and, Nat.testBit_and, Nat.testBit_xor,
    Nat.testBit_xor]
  simp only [Nat.testBit_shiftRight]
  rcases Nat.lt_or_ge i count with lt | ge
  · rw [low lt, Bool.and_false, decide_eq_false (by omega), Bool.false_and]
  · rw [decide_eq_true ge, Bool.true_and, Nat.add_sub_cancel' ge]
    have place : count + (shift + (i - count)) = shift + i := by omega
    rw [place]

theorem shiftLeft_inj {count a b : Nat} : a <<< count = b <<< count ↔ a = b := by
  rw [Nat.shiftLeft_eq, Nat.shiftLeft_eq]
  exact Nat.mul_left_inj (Nat.two_pow_pos count).ne'

end AsconSuite.Avr
