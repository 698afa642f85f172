/-
Module: AsconSuite.Proofs.AvrBitRotations
Layer: Proofs
Purpose: The rotations by single bits, and what the code of every shift and rotation leaves in its register.
Imports: AsconSuite.Proofs.AvrRotations
Trusted boundary: none
Main exports: Avr.wp_rolBit, Avr.wp_rorBit, Avr.wp_rol, Avr.wp_ror, Avr.Shift, Avr.shift_leaves_result_iff
-/
import AsconSuite.Proofs.AvrRotations

namespace AsconSuite.Avr

open ByteWord ByteMemory ByteNumber BitStrings
open Emit (Target)
open Emit.Target

variable {code code' : Code} {s s' : AVRState} {Q : Unit → Code → AVRState → Prop}

/-! ### Rotated bits -/

/-- The bits of a register are rotated to the left. -/
def BitsLeft (reg : Reg) (count : Nat) (s s' : AVRState) : Prop := (regBits s' reg).rotate count = regBits s reg

/-- The bits of a register are rotated to the right. -/
def BitsRight (reg : Reg) (count : Nat) (s s' : AVRState) : Prop := regBits s' reg = (regBits s reg).rotate count

theorem BitsLeft.value {reg : Reg} {count : Nat} (rotated : BitsLeft reg count s s') :
    regValue s' reg = (regValue s reg).rotateLeft count := by
  apply wordBits_inj
  apply List.rotate_injective count
  dsimp only
  rw [wordBits_rotateLeft, wordBits_regValue, wordBits_regValue]
  exact rotated

theorem BitsRight.value {reg : Reg} {count : Nat} (rotated : BitsRight reg count s s') :
    regValue s' reg = (regValue s reg).rotateRight count := by
  apply wordBits_inj
  rw [wordBits_rotateRight, wordBits_regValue, wordBits_regValue]
  exact rotated

theorem BitsLeft.trans {reg : Reg} {count more : Nat} {s₁ : AVRState} (first : BitsLeft reg count s s₁)
    (second : BitsLeft reg more s₁ s') : BitsLeft reg (count + more) s s' := by
  rw [BitsLeft, Nat.add_comm, ← List.rotate_rotate, second, first]

theorem BitsRight.trans {reg : Reg} {count more : Nat} {s₁ : AVRState} (first : BitsRight reg count s s₁)
    (second : BitsRight reg more s₁ s') : BitsRight reg (count + more) s s' := by
  rw [BitsRight, ← List.rotate_rotate, second, first]

theorem RotatedLeft.bits {reg : Reg} {count : Nat} (rotated : RotatedLeft reg count s s') :
    BitsLeft reg (8 * count) s s' := by
  rw [BitsLeft, regBits, ← bits_rotate, rotated]
  rfl

theorem RotatedRight.bits {reg : Reg} {count : Nat} (rotated : RotatedRight reg count s s') :
    BitsRight reg (8 * count) s s' := by
  rw [BitsRight, regBits, rotated, bits_rotate]
  rfl

/-! ### One bit -/

theorem regBits_eq_cons (s : AVRState) (r : Nat) (rest : Reg) :
    regBits s (r :: rest) = (s.r r).getLsbD 0 :: (regBits s (r :: rest)).tail := rfl

/-- The bits of a register whose low byte has another low bit. -/
theorem regBits_setLow {r : Nat} {rest : Reg} {bit : Bool} (apart : r ∉ rest)
    (others : ∀ r', r' ∉ [r] → s'.r r' = s.r r') (low : wordBits (s'.r r) = bit :: (wordBits (s.r r)).tail) :
    regBits s' (r :: rest) = bit :: (regBits s (r :: rest)).tail := by
  have same : regBits s' rest = regBits s rest := regBits_congr fun r' member => others r' fun single => by
    rw [List.mem_singleton.1 single] at member
    exact apart member
  rw [regBits_cons, regBits_cons, low, same]
  rfl

/-- The bit that went out of a register at its high end comes in at its low end. -/
theorem Left.rotated {reg : Reg} {s₁ : AVRState} (left : Left reg false s s₁)
    (carried : regBits s' reg = s₁.c :: (regBits s₁ reg).tail) (some_byte : reg ≠ []) : BitsLeft reg 1 s s' := by
  cases reg with
  | nil => exact absurd rfl some_byte
  | cons r rest =>
      rw [Left, regBits_eq_cons s₁, List.cons_append] at left
      rw [BitsLeft, carried, List.rotate_cons_succ, List.rotate_zero]
      exact (List.cons.inj left).2

theorem reg_last (low : Reg) (high : Nat) : Reg.reg (low ++ [high]) (Reg.size (low ++ [high]) - 1) = high := by
  rw [Reg.size, List.length_append, List.length_singleton, Nat.add_sub_cancel, Reg.reg, List.getD_eq_getElem?_getD,
    List.getElem?_append_right (Nat.le_refl _), Nat.sub_self]
  rfl

/-- The last bit of a register. -/
theorem getLast?_regBits (s : AVRState) {reg : Reg} (some_byte : reg ≠ []) :
    (regBits s reg).getLast? = some ((s.r (reg.reg (reg.size - 1))).getLsbD 7) := by
  obtain ⟨low, high, rfl⟩ := (List.eq_nil_or_concat' reg).resolve_left some_byte
  have single : regBits s [high] = wordBits (s.r high) := List.append_nil _
  rw [reg_last, regBits_append, single, List.getLast?_append, getLast?_wordBits (s.r high) (by decide),
    BitVec.msb_eq_getLsbD_last]
  rfl

theorem wp_bst {r i : Nat} (small : i < 8)
    (holds : ∀ code' s', Exact [] code s code' s' → s'.t = (s.r r).getLsbD i → Q () code' s') :
    target.wp (bitop .bst r i) Q code s :=
  wp_tworeg fun _ _ _ => ⟨{ s with t := s.r r &&& (1#8 <<< i) != 0#8 }, rfl,
    holds _ _ ⟨sameAlloc_pushed code _, fun _ _ => rfl, rfl⟩ (and_bit_ne_zero (s.r r) small)⟩

theorem wp_bld {r i : Nat}
    (holds : ∀ code' s', Exact [r] code s code' s' →
      s'.r r = (s.r r &&& ~~~(1#8 <<< i)) ||| (if s.t then 1#8 <<< i else 0#8) → Q () code' s') :
    target.wp (bitop .bld r i) Q code s :=
  wp_tworeg fun _ _ _ => ⟨s.setReg r ((s.r r &&& ~~~(1#8 <<< i)) ||| (if s.t then 1#8 <<< i else 0#8)), rfl,
    holds _ _ (exact_pushed code _ rfl rfl) (s.setReg_self r _)⟩

theorem wp_rolBit {reg : Reg} (ready : Ready code s) (nodup : reg.Nodup) (owned : Owned code reg) (some_byte : reg ≠ []) :
    target.wp (rolBit reg) (fun _ code' s' => Kept reg code s code' s' ∧ BitsLeft reg 1 s s') code s := by
  obtain ⟨low, rest, rfl⟩ := List.exists_cons_of_ne_nil some_byte
  obtain ⟨apart, _⟩ := List.nodup_cons.1 nodup
  refine wp_bind (wp_get (wp_ite (fun noTemp => ?_) fun _ => ?_))
  · rw [Bool.not_eq_true'] at noTemp
    refine wp_bind (wp_mono (wp_shiftLeft nodup some_byte) ?_)
    rintro _ code₁ s₁ ⟨exact₁, -, left⟩
    have notZero : 1 ∉ low :: rest := fun member => by
      have taken := owned 1 member
      rw [ready.r1 noTemp] at taken
      cases taken
    have zero : s₁.r 1 = 0#8 := (exact₁.others 1 notZero).trans (ready.zero noTemp)
    refine wp_tworeg fun _ _ _ => ⟨s₁.setSum low ((s₁.r low).toNat + s₁.carry + (s₁.r 1).toNat), rfl, ?_⟩
    have exact₂ : Exact [low] code₁ s₁ (code₁.pushed ⟨.adc, low, 1⟩)
        (s₁.setSum low ((s₁.r low).toNat + s₁.carry + (s₁.r 1).toNat)) := exact_pushed code₁ _ rfl rfl
    refine ⟨(exact₁.step exact₂ List.mem_cons_self).owned owned ready, left.rotated (regBits_setLow apart (fun r' other => ?_) ?_) some_byte⟩
    · exact s₁.setReg_other _ fun same => other (List.mem_singleton.2 same)
    · have clear : (s₁.r low).getLsbD 0 = false := by
        rw [Left, regBits_eq_cons s₁] at left
        exact (List.cons.inj left).1
      have written : (s₁.setSum low ((s₁.r low).toNat + s₁.carry + (s₁.r 1).toNat)).r low =
          BitVec.ofNat 8 ((s₁.r low).toNat + s₁.c.toNat) := by
        rw [zero]
        exact s₁.setReg_self low _
      rw [written]
      exact wordBits_addLow s₁.c clear
  · refine wp_bind (wp_bst (by decide) fun code₁ s₁ exact₁ highest => ?_)
    have same : regBits s₁ (low :: rest) = regBits s (low :: rest) :=
      regBits_congr fun r _ => exact₁.others r List.not_mem_nil
    refine wp_bind (wp_mono (wp_shiftLeft nodup some_byte) ?_)
    rintro _ code₂ s₂ ⟨exact₂, sameT, left⟩
    have carried : s₂.t = s₂.c := by
      have last := congrArg List.getLast? left
      rw [List.getLast?_append, List.getLast?_singleton, List.getLast?_cons, same, getLast?_regBits s some_byte] at last
      rw [sameT, highest]
      exact (Option.some.inj last).symm
    refine wp_bld fun code₃ s₃ exact₃ written => ?_
    have exact₁ : Exact (low :: rest) code s code₁ s₁ := exact₁.mono fun _ member => absurd member List.not_mem_nil
    refine ⟨((exact₁.trans exact₂).step exact₃ List.mem_cons_self).owned owned ready, ?_⟩
    rw [Left, same] at left
    refine Left.rotated left (regBits_setLow apart exact₃.others ?_) some_byte
    have written : s₃.r low = (s₂.r low &&& ~~~(1#8 <<< 0)) ||| (if s₂.t then 1#8 <<< 0 else 0#8) := written
    rw [written, carried]
    exact wordBits_setLow (s₂.r low) s₂.c

theorem wp_rorBit {reg : Reg} (ready : Ready code s) (nodup : reg.Nodup) (owned : Owned code reg) (some_byte : reg ≠ []) :
    target.wp (rorBit reg) (fun _ code' s' => Kept reg code s code' s' ∧ BitsRight reg 1 s s') code s := by
  refine wp_bind (wp_bst (by decide) fun code₁ s₁ exact₁ lowest => ?_)
  have same : regBits s₁ reg = regBits s reg := regBits_congr fun r _ => exact₁.others r List.not_mem_nil
  refine wp_bind (wp_mono (wp_shiftRight nodup some_byte) ?_)
  rintro _ code₂ s₂ ⟨exact₂, sameT, right⟩
  refine wp_bld fun code₃ s₃ exact₃ written => ?_
  -- The lowest bit and those above it.
  have first : regBits s reg = s₂.t :: (regBits s reg).tail := by
    rw [sameT, lowest]
    cases reg with
    | nil => exact absurd rfl some_byte
    | cons r rest => exact regBits_eq_cons s r rest
  have above : regBits s₂ reg = (regBits s reg).tail ++ [false] := by
    rw [Right, same, first, List.cons_append] at right
    exact (List.cons.inj right).2
  obtain ⟨low, high, rfl⟩ := (List.eq_nil_or_concat' reg).resolve_left some_byte
  obtain ⟨_, _, apart⟩ := List.nodup_append.1 nodup
  rw [reg_last] at exact₃ written
  have single (s : AVRState) : regBits s [high] = wordBits (s.r high) := List.append_nil _
  have same₃ : regBits s₃ low = regBits s₂ low := regBits_congr fun r member => exact₃.others r fun isHigh =>
    apart r member high List.mem_cons_self (List.mem_singleton.1 isHigh)
  have carried : regBits s₃ (low ++ [high]) = (regBits s₂ (low ++ [high])).dropLast ++ [s₂.t] := by
    have nonempty : wordBits (s₂.r high) ≠ [] := List.ne_nil_of_length_pos (by rw [length_wordBits]; decide)
    rw [regBits_append, regBits_append, single, single, same₃, written, wordBits_setHigh,
      List.dropLast_append_of_ne_nil nonempty, List.append_assoc]
  have exact₁ : Exact (low ++ [high]) code s code₁ s₁ := exact₁.mono fun _ member => absurd member List.not_mem_nil
  refine ⟨((exact₁.trans exact₂).step exact₃ (List.mem_append_right _ List.mem_cons_self)).owned owned ready, ?_⟩
  rw [BitsRight, carried, above, List.dropLast_concat, first, List.rotate_cons_succ, List.rotate_zero]
  rfl

/-! ### Several bits -/

theorem wp_rolBits {reg : Reg} (bits : Nat) (ready : Ready code s) (nodup : reg.Nodup) (owned : Owned code reg)
    (some_byte : reg ≠ []) :
    target.wp (rolBits reg bits) (fun _ code' s' => Kept reg code s code' s' ∧ BitsLeft reg bits s s') code s := by
  induction bits generalizing code s with
  | zero => exact wp_pure ⟨Kept.refl ready, List.rotate_zero _⟩
  | succ bits ih =>
      refine wp_bind (wp_mono (wp_rolBit ready nodup owned some_byte) ?_)
      rintro _ code₁ s₁ ⟨kept₁, rotated₁⟩
      refine wp_mono (ih kept₁.ready (owned.kept kept₁)) ?_
      rintro _ code' s' ⟨kept, rotated⟩
      refine ⟨kept₁.trans owned.bytes kept, ?_⟩
      rw [Nat.add_comm]
      exact rotated₁.trans rotated

theorem wp_rorBitByBit {reg : Reg} (bits : Nat) (ready : Ready code s) (nodup : reg.Nodup) (owned : Owned code reg)
    (some_byte : reg ≠ []) :
    target.wp (rorBitByBit reg bits) (fun _ code' s' => Kept reg code s code' s' ∧ BitsRight reg bits s s')
      code s := by
  induction bits generalizing code s with
  | zero => exact wp_pure ⟨Kept.refl ready, (List.rotate_zero _).symm⟩
  | succ bits ih =>
      refine wp_bind (wp_mono (wp_rorBit ready nodup owned some_byte) ?_)
      rintro _ code₁ s₁ ⟨kept₁, rotated₁⟩
      refine wp_mono (ih kept₁.ready (owned.kept kept₁)) ?_
      rintro _ code' s' ⟨kept, rotated⟩
      refine ⟨kept₁.trans owned.bytes kept, ?_⟩
      rw [Nat.add_comm]
      exact rotated₁.trans rotated

/-- The bits that are shifted out go into a byte below the register. -/
theorem rorInto_eq {reg : Reg} (tempReg : Nat) (some_byte : reg ≠ []) (bits : Nat) :
    rorInto reg tempReg bits = shiftRightBy (tempReg :: reg) bits := by
  obtain ⟨low, high, rfl⟩ := (List.eq_nil_or_concat' reg).resolve_left some_byte
  have reversed : Reg.reversed (low ++ [high]) = high :: low.reverse := List.reverse_concat' low high
  have reversedAll : Reg.reversed (tempReg :: (low ++ [high])) = high :: (low.reverse ++ [tempReg]) := by
    rw [Reg.reversed, List.reverse_cons, List.reverse_concat', List.cons_append]
  have step : (do
      shiftRight (low ++ [high])
      onereg .ror tempReg) = shiftRight (tempReg :: (low ++ [high])) := by
    rw [shiftRight, shiftRight, reversed, reversedAll]
    simp only [List.forM_eq_forM, List.forM_append, List.forM_cons, List.forM_nil, bind_assoc, bind_pure_unit]
  induction bits with
  | zero => rfl
  | succ bits ih =>
      rw [rorInto, shiftRightBy, ← ih, ← step]
      simp only [bind_assoc]

/-- The bits that a byte below has taken in are put back at the high end. -/
theorem rotated_of_joined {L below low top joined : List Bool} {k m : Nat} (few : k ≤ 8)
    (size : L.length = m + 8) (lowSize : low.length = m) (belowSize : below.length = 8)
    (shifted : below ++ (low ++ top) = (List.replicate 8 false ++ L ++ List.replicate k false).drop k)
    (or : joined = List.zipWith or top below) : low ++ joined = L.rotate k := by
  have zeros : List.replicate 8 false = List.replicate k false ++ List.replicate (8 - k) false := by
    rw [List.replicate_append_replicate, Nat.add_sub_cancel' few]
  have parts : (List.replicate 8 false ++ L ++ List.replicate k false).drop k =
      (List.replicate (8 - k) false ++ L.take k) ++ (L.drop k ++ List.replicate k false) := by
    rw [zeros, List.append_assoc, List.append_assoc, List.drop_left' List.length_replicate, List.append_assoc,
      ← List.append_assoc (L.take k), List.take_append_drop]
  have takeSize : (L.take k).length = k := by
    rw [List.length_take]
    omega
  rw [parts] at shifted
  obtain ⟨isBelow, isReg⟩ := List.append_inj shifted (by
    rw [belowSize, List.length_append, List.length_replicate, takeSize]
    omega)
  -- The high byte is the end of the bits above and zeros.
  have topPart : top = (L.drop k).drop m ++ List.replicate k false := by
    have high := congrArg (List.drop m) isReg
    rwa [List.drop_left' lowSize, List.drop_append_of_le_length (by rw [List.length_drop]; omega)] at high
  have lowPart : low = (L.drop k).take m := by
    have first := congrArg (List.take m) isReg
    rwa [List.take_left' lowSize, List.take_append_of_le_length (by rw [List.length_drop]; omega)] at first
  have topSize : ((L.drop k).drop m).length = 8 - k := by
    rw [List.length_drop, List.length_drop]
    omega
  have both := zipWith_or_zeros ((L.drop k).drop m) (L.take k)
  rw [takeSize, topSize] at both
  rw [or, topPart, isBelow, both, lowPart, ← List.append_assoc, List.take_append_drop,
    List.rotate_eq_drop_append_take (by omega)]

theorem wp_rorBits {reg : Reg} {bits : Nat} (few : bits ≤ 8) (ready : Ready code s) (nodup : reg.Nodup)
    (owned : Owned code reg) (some_byte : reg ≠ []) :
    target.wp (rorBits reg bits) (fun _ code' s' => Kept reg code s code' s' ∧ BitsRight reg bits s s') code s := by
  have none {r : Nat} (member : r ∈ ([] : List Nat)) : r ∈ reg := nomatch member
  refine wp_bind (wp_haveTempreg ready fun code₁ kept₁ => wp_ite (fun _ => ?_) fun _ => ?_)
  · have kept₁ := kept₁.mono fun _ => none
    refine wp_bind (wp_tempreg kept₁.ready fun temp code₂ spare kept₂ => ?_)
    have kept₂ := kept₁.trans owned.bytes (kept₂.mono fun _ => none)
    have owned₂ := owned.kept kept₂
    have apart := spare.apart owned₂
    refine wp_bind (wp_zeroreg kept₂.ready fun code₃ s₃ exact₃ zero _ _ => ?_)
    rw [rorInto_eq temp some_byte]
    refine wp_bind (wp_mono (wp_shiftRightBy bits (List.nodup_cons.2 ⟨apart, nodup⟩) (List.cons_ne_nil _ _)) ?_)
    rintro _ code₄ s₄ ⟨exact₄, shifted⟩
    refine wp_or fun code₅ s₅ exact₅ joined => ?_
    obtain ⟨low, high, rfl⟩ := (List.eq_nil_or_concat' reg).resolve_left some_byte
    rw [reg_last] at exact₅ joined
    obtain ⟨_, _, others⟩ := List.nodup_append.1 nodup
    have isHigh : high ∈ low ++ [high] := List.mem_append_right low List.mem_cons_self
    have exact := (((Exact.refl (temp :: (low ++ [high])) code₂ s).step exact₃ List.mem_cons_self).trans exact₄).step
      exact₅ (List.mem_cons_of_mem temp isHigh)
    refine ⟨kept₂.trans owned.bytes (exact.within.keptSpare spare kept₂.ready owned₂), ?_⟩
    have single (s : AVRState) : regBits s [high] = wordBits (s.r high) := List.append_nil _
    have sameLow : regBits s₅ low = regBits s₄ low := regBits_congr fun r member => exact₅.others r fun same =>
      others r member high List.mem_cons_self (List.mem_singleton.1 same)
    have before : regBits s₃ (low ++ [high]) = regBits s (low ++ [high]) := regBits_congr fun r member =>
      exact₃.others r fun same => apart (List.mem_singleton.1 same ▸ member)
    have zeros : wordBits 0#8 = List.replicate 8 false := rfl
    rw [regBits_cons, regBits_cons, before, zero, zeros, regBits_append, single] at shifted
    rw [BitsRight, regBits_append, single, sameLow]
    refine rotated_of_joined few ?_ rfl (length_wordBits _) shifted ?_
    · rw [length_regBits, length_regBits, List.length_append, List.length_singleton]
      omega
    · rw [joined, wordBits_or]
  · have kept₁ := kept₁.mono fun _ => none
    refine wp_mono (wp_rorBitByBit bits kept₁.ready nodup (owned.kept kept₁) some_byte) ?_
    rintro _ code' s' ⟨kept, rotated⟩
    exact ⟨kept₁.trans owned.bytes kept, rotated⟩

/-! ### All of `rol` and `ror` -/

/-- The nibbles of a single byte change places. -/
theorem wp_swapNibbles {r : Nat} (ready : Ready code s) (owned : inRegs code.allocated r = true) :
    target.wp (onereg .swap r)
      (fun _ code' s' => Kept [r] code s code' s' ∧ BitsRight [r] 4 s s' ∧ BitsLeft [r] 4 s s') code s := by
  refine wp_onereg fun _ => ⟨s.setReg r ((s.r r <<< 4) ||| (s.r r >>> 4)), rfl, kept_pushed _ _ ready owned rfl rfl, ?_⟩
  have single (s : AVRState) : regBits s [r] = wordBits (s.r r) := List.append_nil _
  have turned : BitsRight [r] 4 s (s.setReg r ((s.r r <<< 4) ||| (s.r r >>> 4))) := by
    rw [BitsRight, single, single, AVRState.setReg_self, wordBits_swap]
  refine ⟨turned, ?_⟩
  have whole : 4 + 4 = (regBits s [r]).length := (length_regBits s [r]).symm
  rw [BitsLeft, turned, List.rotate_rotate, whole, List.rotate_length]

theorem wp_rolFew {reg : Reg} {bits : Nat} (ready : Ready code s) (nodup : reg.Nodup) (owned : Owned code reg) :
    target.wp (rolFew reg bits) (fun _ code' s' => Kept reg code s code' s' ∧ BitsLeft reg bits s s') code s := by
  refine wp_ite (fun nothing => wp_pure ⟨Kept.refl ready, ?_⟩) fun some_bits => wp_ite (fun one => ?_) fun _ =>
    wp_ite (fun nibble => ?_) fun _ => ?_
  · rcases nothing with rfl | empty
    · exact List.rotate_zero _
    · rw [List.length_eq_zero_iff.1 empty]
      exact List.rotate_nil _
  · rw [one]
    exact wp_rolBit ready nodup owned fun empty => some_bits (Or.inr (congrArg List.length empty))
  · obtain ⟨rfl, single⟩ := nibble
    obtain ⟨r, rfl⟩ := List.length_eq_one_iff.1 single
    refine wp_mono (wp_swapNibbles ready (owned r List.mem_cons_self)) ?_
    rintro _ code' s' ⟨kept, -, rotated⟩
    exact ⟨kept, rotated⟩
  · exact wp_rolBits bits ready nodup owned fun empty => some_bits (Or.inr (congrArg List.length empty))

theorem wp_rorFew {reg : Reg} {bits : Nat} (few : bits ≤ 8) (ready : Ready code s) (nodup : reg.Nodup)
    (owned : Owned code reg) :
    target.wp (rorFew reg bits) (fun _ code' s' => Kept reg code s code' s' ∧ BitsRight reg bits s s') code s := by
  refine wp_ite (fun nothing => wp_pure ⟨Kept.refl ready, ?_⟩) fun some_bits => wp_ite (fun one => ?_) fun _ =>
    wp_ite (fun nibble => ?_) fun _ => ?_
  · rcases nothing with rfl | empty
    · exact (List.rotate_zero _).symm
    · rw [List.length_eq_zero_iff.1 empty]
      exact (List.rotate_nil _).symm
  · rw [one]
    exact wp_rorBit ready nodup owned fun empty => some_bits (Or.inr (congrArg List.length empty))
  · obtain ⟨rfl, single⟩ := nibble
    obtain ⟨r, rfl⟩ := List.length_eq_one_iff.1 single
    refine wp_mono (wp_swapNibbles ready (owned r List.mem_cons_self)) ?_
    rintro _ code' s' ⟨kept, rotated, -⟩
    exact ⟨kept, rotated⟩
  · exact wp_rorBits few ready nodup owned fun empty => some_bits (Or.inr (congrArg List.length empty))

/-- A rotation by whole bytes, and by some bits behind it. -/
theorem wp_rolBytesThen {reg : Reg} {count : Nat} {rest : Build Unit} {P : AVRState → AVRState → Prop}
    (ready : Ready code s) (nodup : reg.Nodup) (owned : Owned code reg)
    (next : ∀ code₁ s₁, Ready code₁ s₁ → Owned code₁ reg → BitsLeft reg (8 * count) s s₁ →
      target.wp rest (fun _ code' s' => Kept reg code₁ s₁ code' s' ∧ P s s') code₁ s₁) :
    target.wp (rolBytes reg count >>= fun _ => rest) (fun _ code' s' => Kept reg code s code' s' ∧ P s s') code s := by
  refine wp_bind (wp_mono (wp_rolBytes count ready nodup owned) ?_)
  rintro _ code₁ s₁ ⟨kept₁, rotated⟩
  refine wp_mono (next code₁ s₁ kept₁.ready (owned.kept kept₁) rotated.bits) ?_
  rintro _ code' s' ⟨kept, holds⟩
  exact ⟨kept₁.trans owned.bytes kept, holds⟩

theorem wp_rorBytesThen {reg : Reg} {count : Nat} {rest : Build Unit} {P : AVRState → AVRState → Prop}
    (ready : Ready code s) (nodup : reg.Nodup) (owned : Owned code reg)
    (next : ∀ code₁ s₁, Ready code₁ s₁ → Owned code₁ reg → BitsRight reg (8 * count) s s₁ →
      target.wp rest (fun _ code' s' => Kept reg code₁ s₁ code' s' ∧ P s s') code₁ s₁) :
    target.wp (rorBytes reg count >>= fun _ => rest) (fun _ code' s' => Kept reg code s code' s' ∧ P s s') code s := by
  refine wp_bind (wp_mono (wp_rorBytes count ready nodup owned) ?_)
  rintro _ code₁ s₁ ⟨kept₁, rotated⟩
  refine wp_mono (next code₁ s₁ kept₁.ready (owned.kept kept₁) rotated.bits) ?_
  rintro _ code' s' ⟨kept, holds⟩
  exact ⟨kept₁.trans owned.bytes kept, holds⟩

theorem wp_rol {reg : Reg} {bits : Nat} (ready : Ready code s) (nodup : reg.Nodup) (owned : Owned code reg) :
    target.wp (rol reg bits) (fun _ code' s' => Kept reg code s code' s' ∧ BitsLeft reg bits s s') code s := by
  have byBytes : 8 * (bits / 8) + bits % 8 = bits := Nat.div_add_mod bits 8
  refine wp_ite (fun nothing => wp_pure ⟨Kept.refl ready, ?_⟩) fun some_bits => ?_
  · rcases nothing with rfl | empty
    · exact List.rotate_zero _
    · rw [List.length_eq_zero_iff.1 empty]
      exact List.rotate_nil _
  have some_byte : reg ≠ [] := fun empty => some_bits (Or.inr (congrArg List.length empty))
  refine wp_ite (fun one => ?_) fun _ => wp_ite (fun whole => ?_) fun _ => wp_ite (fun nibble => ?_) fun _ =>
    wp_ite (fun _ => ?_) fun _ => ?_
  · rw [one]
    exact wp_rolBit ready nodup owned some_byte
  · refine wp_mono (wp_rolBytes (bits / 8) ready nodup owned) ?_
    rintro _ code' s' ⟨kept, rotated⟩
    refine ⟨kept, ?_⟩
    rw [← byBytes, whole]
    exact rotated.bits
  · obtain ⟨rfl, single⟩ := nibble
    obtain ⟨r, rfl⟩ := List.length_eq_one_iff.1 single
    refine wp_mono (wp_swapNibbles ready (owned r List.mem_cons_self)) ?_
    rintro _ code' s' ⟨kept, -, rotated⟩
    exact ⟨kept, rotated⟩
  · refine wp_rolBytesThen ready nodup owned fun code₁ s₁ ready₁ owned₁ bytes => ?_
    refine wp_mono (wp_rolBits (bits % 8) ready₁ nodup owned₁ some_byte) ?_
    rintro _ code' s' ⟨kept, rotated⟩
    refine ⟨kept, ?_⟩
    rw [← byBytes]
    exact bytes.trans rotated
  · refine wp_rolBytesThen ready nodup owned fun code₁ s₁ ready₁ owned₁ bytes => ?_
    refine wp_mono (wp_rorFew (by omega) ready₁ nodup owned₁) ?_
    rintro _ code' s' ⟨kept, rotated⟩
    -- The bits that go back make up for those that went too far.
    have around : 8 - bits % 8 + bits = 8 * (bits / 8 + 1) := by omega
    refine ⟨kept, ?_⟩
    rw [BitsLeft, rotated, List.rotate_rotate, around]
    exact bytes

theorem wp_ror {reg : Reg} {bits : Nat} (ready : Ready code s) (nodup : reg.Nodup) (owned : Owned code reg) :
    target.wp (ror reg bits) (fun _ code' s' => Kept reg code s code' s' ∧ BitsRight reg bits s s') code s := by
  have byBytes : 8 * (bits / 8) + bits % 8 = bits := Nat.div_add_mod bits 8
  refine wp_ite (fun nothing => wp_pure ⟨Kept.refl ready, ?_⟩) fun some_bits => ?_
  · rcases nothing with rfl | empty
    · exact (List.rotate_zero _).symm
    · rw [List.length_eq_zero_iff.1 empty]
      exact (List.rotate_nil _).symm
  have some_byte : reg ≠ [] := fun empty => some_bits (Or.inr (congrArg List.length empty))
  refine wp_ite (fun one => ?_) fun _ => wp_ite (fun whole => ?_) fun _ => wp_ite (fun nibble => ?_) fun _ =>
    wp_ite (fun _ => ?_) fun _ => ?_
  · rw [one]
    exact wp_rorBit ready nodup owned some_byte
  · refine wp_mono (wp_rorBytes (bits / 8) ready nodup owned) ?_
    rintro _ code' s' ⟨kept, rotated⟩
    refine ⟨kept, ?_⟩
    rw [← byBytes, whole]
    exact rotated.bits
  · obtain ⟨rfl, single⟩ := nibble
    obtain ⟨r, rfl⟩ := List.length_eq_one_iff.1 single
    refine wp_mono (wp_swapNibbles ready (owned r List.mem_cons_self)) ?_
    rintro _ code' s' ⟨kept, rotated, -⟩
    exact ⟨kept, rotated⟩
  · refine wp_rorBytesThen ready nodup owned fun code₁ s₁ ready₁ owned₁ bytes => ?_
    refine wp_mono (wp_rorBits (by omega) ready₁ nodup owned₁ some_byte) ?_
    rintro _ code' s' ⟨kept, rotated⟩
    refine ⟨kept, ?_⟩
    rw [← byBytes]
    exact bytes.trans rotated
  · refine wp_rorBytesThen ready nodup owned fun code₁ s₁ ready₁ owned₁ bytes => ?_
    refine wp_mono (wp_rolFew ready₁ nodup owned₁) ?_
    rintro _ code' s' ⟨kept, rotated⟩
    have around : bits + (8 - bits % 8) = 8 * (bits / 8 + 1) := by omega
    refine ⟨kept, List.rotate_injective (8 - bits % 8) ?_⟩
    dsimp only
    rw [rotated, List.rotate_rotate, around]
    exact bytes

/-! ### The operations -/

/-- The shifts and rotations of the builder, with their numbers of bits. -/
inductive Shift where
  | rol (bits : Nat) | ror (bits : Nat) | lsl (bits : Nat) | lsr (bits : Nat) | asr

namespace Shift

/-- The code of an operation. -/
def emit : Shift → Reg → Build Unit
  | rol bits, reg => Avr.rol reg bits
  | ror bits, reg => Avr.ror reg bits
  | lsl bits, reg => Avr.lsl reg bits
  | lsr bits, reg => Avr.lsr reg bits
  | asr, reg => Avr.asr reg

/-- The number of bits of an operation. -/
def bits : Shift → Nat
  | rol bits | ror bits | lsl bits | lsr bits => bits
  | asr => 1

/-- What the operation is to leave of a word. -/
def result {w : Nat} (x : BitVec w) : Shift → BitVec w
  | rol bits => x.rotateLeft bits
  | ror bits => x.rotateRight bits
  | lsl bits => x <<< bits
  | lsr bits => x >>> bits
  | asr => x.sshiftRight 1

/-- When the code of an operation leaves its result. Every rotation does. With a spare register, the shifts by five to
seven bits more than whole bytes cut the number of bytes down to an `unsigned char`, which is wrong when at least all
bytes are to go and some bit stays. -/
def meets (code : Code) (reg : Reg) (x : BitVec (8 * reg.length)) : Shift → Prop
  | lsl bits =>
      bits % 8 < 5 ∨ hasSpare code = false ∨ bits / 8 < reg.length ∨ x <<< (8 * (bits / 8 % 256) + bits % 8) = 0
  | lsr bits =>
      bits % 8 < 5 ∨ hasSpare code = false ∨ bits / 8 < reg.length ∨
        x >>> (if reg.length < bits / 8 % 256 then 0 else 8 * (bits / 8 % 256) + bits % 8) = 0
  | _ => True

theorem lsl_eq_iff {reg : Reg} {bits : Nat} (few : reg.length ≤ 32) (x : BitVec (8 * reg.length)) :
    x <<< lslDistance code bits = x <<< bits ↔ (lsl bits).meets code reg x := by
  rw [lslDistance, meets]
  by_cases cut : 5 ≤ bits % 8 ∧ hasSpare code = true
  · rw [if_pos cut]
    by_cases near : bits / 8 < reg.length
    · have small : bits / 8 % 256 = bits / 8 := Nat.mod_eq_of_lt (by omega)
      rw [small, Nat.div_add_mod]
      exact iff_of_true rfl (Or.inr (Or.inr (Or.inl near)))
    · have gone : x <<< bits = 0 := BitVec.shiftLeft_eq_zero (by omega)
      rw [gone, cut.2]
      simp [Nat.not_lt_of_le cut.1, near]
  · rw [if_neg cut]
    refine iff_of_true rfl ?_
    rcases not_and_or.1 cut with low | none
    · exact Or.inl (Nat.lt_of_not_le low)
    · exact Or.inr (Or.inl (Bool.eq_false_iff.2 none))

theorem lsr_eq_iff {reg : Reg} {bits : Nat} (few : reg.length ≤ 32) (x : BitVec (8 * reg.length)) :
    x >>> lsrDistance code reg bits = x >>> bits ↔ (lsr bits).meets code reg x := by
  rw [lsrDistance, meets]
  by_cases cut : 5 ≤ bits % 8 ∧ hasSpare code = true
  · rw [if_pos cut]
    by_cases near : bits / 8 < reg.length
    · have small : bits / 8 % 256 = bits / 8 := Nat.mod_eq_of_lt (by omega)
      rw [small, if_neg (by omega), Nat.div_add_mod]
      exact iff_of_true rfl (Or.inr (Or.inr (Or.inl near)))
    · have gone : x >>> bits = 0 := BitVec.ushiftRight_eq_zero (by omega)
      rw [gone, cut.2]
      simp [Nat.not_lt_of_le cut.1, near]
  · rw [if_neg cut]
    refine iff_of_true rfl ?_
    rcases not_and_or.1 cut with low | none
    · exact Or.inl (Nat.lt_of_not_le low)
    · exact Or.inr (Or.inl (Bool.eq_false_iff.2 none))

theorem wp_emit {op : Shift} {reg : Reg} (bound : op.bits < 2 ^ 32) (ready : Ready code s) (nodup : reg.Nodup)
    (owned : Owned code reg) :
    target.wp (op.emit reg) (fun _ code' s' => Kept reg code s code' s' ∧
      (regValue s' reg = op.result (regValue s reg) ↔ op.meets code reg (regValue s reg))) code s := by
  have few := owned.bytes.length_le nodup
  cases op with
  | rol bits =>
      refine wp_mono (wp_rol ready nodup owned) ?_
      rintro _ code' s' ⟨kept, rotated⟩
      exact ⟨kept, iff_of_true rotated.value trivial⟩
  | ror bits =>
      refine wp_mono (wp_ror ready nodup owned) ?_
      rintro _ code' s' ⟨kept, rotated⟩
      exact ⟨kept, iff_of_true rotated.value trivial⟩
  | lsl bits =>
      refine wp_mono (wp_lsl bound ready nodup owned) ?_
      rintro _ code' s' ⟨kept, shifted⟩
      refine ⟨kept, ?_⟩
      rw [shifted.value]
      exact lsl_eq_iff few _
  | lsr bits =>
      refine wp_mono (wp_lsr bound ready nodup owned) ?_
      rintro _ code' s' ⟨kept, shifted⟩
      refine ⟨kept, ?_⟩
      rw [shifted.value]
      exact lsr_eq_iff few _
  | asr =>
      refine wp_mono (wp_asr ready nodup owned) ?_
      rintro _ code' s' ⟨kept, value⟩
      exact ⟨kept, iff_of_true value trivial⟩

end Shift

/-- The code of every shift and rotation leaves every other register that is allocated, the stack pointer and memory
above it. It leaves its result too, but for shifts by at least all bytes and five to seven bits where a spare register
is found: these shift by too few bits. -/
theorem shift_leaves_result_iff {op : Shift} {reg : Reg} (emitted : (op.emit reg).run code = .ok ((), code'))
    (bound : op.bits < 2 ^ 32) (ready : Ready code s) (nodup : reg.Nodup) (owned : Owned code reg) :
    ∃ seg s', code'.insns = code.insns ++ seg ∧ RunsTo seg s s' ∧
      (∀ r, inRegs code.allocated r = true → r ∉ reg → s'.r r = s.r r) ∧ s'.pair 32 = s.pair 32 ∧
      (∀ a, s.pair 32 ≤ a → s'.memory a = s.memory a) ∧
      (regValue s' reg = op.result (regValue s reg) ↔ op.meets code reg (regValue s reg)) := by
  obtain ⟨seg, s', parts, runs, kept, holds⟩ := runsTo_of_wp (Shift.wp_emit bound ready nodup owned) emitted
  exact ⟨seg, s', parts, runs, fun r allocated other => kept.others r (Or.inl allocated) other,
    kept.pair owned.bytes, kept.memory, holds⟩

/-- A rotation of two bytes. -/
theorem shift_leaves_result_iff_rol :
    ∃ code', ((Shift.rol 3).emit [18, 19]).run twoRegisters = .ok ((), code') ∧
      ∃ seg s', code'.insns = twoRegisters.insns ++ seg ∧ RunsTo seg AVRState.new s' ∧
        (∀ r, inRegs twoRegisters.allocated r = true → r ∉ [18, 19] → s'.r r = AVRState.new.r r) ∧
        s'.pair 32 = AVRState.new.pair 32 ∧
        (∀ a, AVRState.new.pair 32 ≤ a → s'.memory a = AVRState.new.memory a) ∧
        (regValue s' [18, 19] = (Shift.rol 3).result (regValue AVRState.new [18, 19]) ↔
          (Shift.rol 3).meets twoRegisters [18, 19] (regValue AVRState.new [18, 19])) :=
  ⟨_, rfl, shift_leaves_result_iff rfl (by decide) ready_twoRegisters (by decide) owned_twoRegisters⟩

/-- A byte that is shifted by more bits than it has stays as it is. -/
theorem lsr_by_twentyOne_keeps_byte :
    ∃ code', ((Shift.lsr 21).emit [18]).run twoRegisters = .ok ((), code') ∧
      (execLoop code' 8 AVRState.new).map (fun final => final.map (regNat · [18])) = some (.ok 0x55) ∧
      ((Shift.lsr 21).result (regValue AVRState.new [18])).toNat = 0 :=
  ⟨_, rfl, by decide, by decide⟩

end AsconSuite.Avr
