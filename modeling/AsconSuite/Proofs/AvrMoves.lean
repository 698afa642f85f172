/-
Module: AsconSuite.Proofs.AvrMoves
Layer: Proofs
Purpose: Moves between registers that overlap. Done in the right order they are done as if all at once, also where two
  of them are one instruction.
Imports: AsconSuite.Proofs.AvrSums, AsconSuite.Tools.AvrShifts
Trusted boundary: none
Main exports: Avr.Moved, Avr.Moved.append, Avr.wp_moves, Avr.wp_moveHighFirst, Avr.wp_moveLow, Avr.wp_moveUp,
  Avr.wp_moveDown
-/
import AsconSuite.Proofs.AvrSums
import AsconSuite.Tools.AvrShifts

namespace AsconSuite.Avr

open ByteWord ByteMemory
open Emit (Target)
open Emit.Target

variable {code code' : Code} {s s' : AVRState}

/-! ### Moves at once -/

/-- Every destination holds what its source held before, and nothing else is written but some scratch registers. -/
structure Moved (pairs : List (Nat × Nat)) (scratch : List Nat) (code : Code) (s : AVRState) (code' : Code)
    (s' : AVRState) : Prop extends Within (pairs.map Prod.fst ++ scratch) code s code' s' where
  copied : ∀ p ∈ pairs, s'.r p.1 = s.r p.2

theorem Within.refl (written : List Nat) (code : Code) (s : AVRState) : Within written code s code s :=
  (Exact.refl written code s).within

theorem Within.mono {written more : List Nat} (within : Within written code s code' s')
    (sub : ∀ r ∈ written, r ∈ more) : Within more code s code' s' :=
  ⟨within.alloc, fun r other => within.others r fun member => other (sub r member), within.memory⟩

theorem Within.trans {written : List Nat} {code'' : Code} {s'' : AVRState} (bytes : Bytes written)
    (first : Within written code s code' s') (second : Within written code' s' code'' s'') :
    Within written code s code'' s'' where
  alloc := first.alloc.trans second.alloc
  others := fun r other => (second.others r other).trans (first.others r other)
  memory := fun a above => by
    rw [← first.memory a above]
    refine second.memory a ?_
    rw [first.pair bytes]
    exact above

/-- The first moves leave alone what the second ones read and write. -/
def Before (first second : List (Nat × Nat)) : Prop := ∀ p ∈ first, ∀ q ∈ second, p.1 ≠ q.2 ∧ p.1 ≠ q.1

theorem Moved.nil (scratch : List Nat) (code : Code) (s : AVRState) : Moved [] scratch code s code s :=
  ⟨Within.refl _ code s, fun _ member => nomatch member⟩

/-- A move that moves nothing. -/
theorem Moved.same (r : Nat) (code : Code) (s : AVRState) : Moved [(r, r)] [] code s code s where
  toWithin := Within.refl _ code s
  copied := fun p member => by rw [List.mem_singleton.1 member]

theorem Moved.congr {pairs others : List (Nat × Nat)} {scratch : List Nat} (moved : Moved pairs scratch code s code' s')
    (same : ∀ p, p ∈ others ↔ p ∈ pairs) : Moved others scratch code s code' s' where
  toWithin := moved.toWithin.mono fun r member => by
    rcases List.mem_append.1 member with dest | temp
    · obtain ⟨p, isPair, rfl⟩ := List.mem_map.1 dest
      exact List.mem_append_left scratch (List.mem_map_of_mem ((same p).2 isPair))
    · exact List.mem_append_right _ temp
  copied := fun p member => moved.copied p ((same p).1 member)

/-- Some moves behind others. -/
theorem Moved.append {first second : List (Nat × Nat)} {scratch : List Nat} {code'' : Code} {s'' : AVRState}
    (bytes : Bytes ((first ++ second).map Prod.fst ++ scratch)) (order : Before first second)
    (apart : ∀ p ∈ first ++ second, p.1 ∉ scratch ∧ p.2 ∉ scratch) (moved : Moved first scratch code s code' s')
    (moved' : Moved second scratch code' s' code'' s'') : Moved (first ++ second) scratch code s code'' s'' where
  toWithin := by
    refine (moved.toWithin.mono fun r member => ?_).trans bytes (moved'.toWithin.mono fun r member => ?_)
    · rw [List.map_append, List.append_assoc]
      rcases List.mem_append.1 member with dest | temp
      · exact List.mem_append_left _ dest
      · exact List.mem_append_right _ (List.mem_append_right _ temp)
    · rw [List.map_append, List.append_assoc]
      exact List.mem_append_right _ member
  copied := by
    intro p member
    obtain ⟨destApart, sourceApart⟩ := apart p member
    rcases List.mem_append.1 member with member | member
    · rw [moved'.others p.1 ?_, moved.copied p member]
      intro written
      rcases List.mem_append.1 written with dest | temp
      · obtain ⟨q, member', same⟩ := List.mem_map.1 dest
        exact (order p member q member').2 same.symm
      · exact destApart temp
    · rw [moved'.copied p member, moved.others p.2 ?_]
      intro written
      rcases List.mem_append.1 written with dest | temp
      · obtain ⟨q, member', same⟩ := List.mem_map.1 dest
        exact (order q member' p member).1 same
      · exact sourceApart temp

/-- Some moves behind others, with no scratch registers. -/
theorem Moved.step {first second : List (Nat × Nat)} {code'' : Code} {s'' : AVRState}
    (bytes : ∀ p ∈ first ++ second, p.1 < 32) (order : Before first second) (moved : Moved first [] code s code' s')
    (moved' : Moved second [] code' s' code'' s'') : Moved (first ++ second) [] code s code'' s'' := by
  refine moved.append (fun r member => ?_) order (fun p _ => ⟨List.not_mem_nil, List.not_mem_nil⟩) moved'
  rw [List.append_nil] at member
  obtain ⟨p, isPair, rfl⟩ := List.mem_map.1 member
  exact bytes p isPair

/-! ### Single moves -/

theorem moved_mov {r1 r2 : Nat} (exact : Exact [r1] code s code' s') (moved : s'.r r1 = s.r r2) :
    Moved [(r1, r2)] [] code s code' s' where
  toWithin := exact.within
  copied := fun p member => by
    rw [List.mem_singleton.1 member]
    exact moved

/-- A word is moved at once. -/
theorem wp_movw (r1 r2 : Nat) :
    target.wp (tworeg .movw r1 r2) (fun _ => Moved [(r1, r2), (r1 + 1, r2 + 1)] [] code s) code s := by
  refine wp_tworeg fun _ _ _ => ⟨(s.setReg r1 (s.r r2)).setReg (r1 + 1) (s.r (r2 + 1)), rfl, ⟨sameAlloc_pushed _ _, ?_,
    fun _ _ => rfl⟩, ?_⟩
  · intro r other
    rw [List.append_nil, List.map_cons, List.mem_cons, List.map_cons, List.mem_cons, not_or, not_or] at other
    rw [AVRState.setReg_other _ _ other.2.1, AVRState.setReg_other _ _ other.1]
  · intro p member
    rcases List.mem_cons.1 member with rfl | last
    · rw [AVRState.setReg_other _ _ (Nat.ne_of_lt (Nat.lt_succ_self r1)), AVRState.setReg_self]
    · rw [List.mem_singleton.1 last, AVRState.setReg_self]

/-- Moves byte by byte. -/
theorem wp_moves {pairs : List (Nat × Nat)} (bytes : ∀ p ∈ pairs, p.1 < 32)
    (order : pairs.Pairwise fun p q => p.1 ≠ q.2 ∧ p.1 ≠ q.1) :
    target.wp (pairs.forM fun p => tworeg .mov p.1 p.2) (fun _ => Moved pairs [] code s) code s := by
  induction pairs generalizing code s with
  | nil => exact wp_pure (Moved.nil [] code s)
  | cons p rest ih =>
      obtain ⟨head, order⟩ := List.pairwise_cons.1 order
      refine wp_bind (wp_mov fun code₁ s₁ exact moved _ => ?_)
      refine wp_mono (ih (fun q member => bytes q (List.mem_cons_of_mem p member)) order) fun _ code' s' others => ?_
      refine (moved_mov exact moved).step bytes (fun q member => ?_) others
      rw [List.mem_singleton.1 member]
      exact head

/-! ### Two registers -/

/-- The moves from one register to another one, for the bytes in a list. -/
def indexPairs (reg1 reg2 : Reg) (indexes : List Nat) : List (Nat × Nat) :=
  indexes.map fun i => (reg1.reg i, reg2.reg i)

theorem Reg.reg_lt {reg : Reg} (bytes : Bytes reg) (i : Nat) : reg.reg i < 32 := by
  rw [Reg.reg, List.getD_eq_getElem?_getD]
  cases place : reg[i]? with
  | none => exact (by decide : 0 < 32)
  | some r => exact bytes r (List.mem_of_getElem? place)

theorem indexPairs_bytes {reg1 reg2 : Reg} {indexes : List Nat} (bytes : Bytes reg1) :
    ∀ p ∈ indexPairs reg1 reg2 indexes, p.1 < 32 := by
  intro p member
  obtain ⟨i, _, rfl⟩ := List.mem_map.1 member
  exact reg1.reg_lt bytes i

/-- The moves of some bytes, and of others after them. -/
theorem Moved.indexes {reg1 reg2 : Reg} {first second all : List Nat} {code'' : Code} {s'' : AVRState}
    (bytes : Bytes reg1) (order : ∀ i ∈ first, ∀ j ∈ second, reg1.reg i ≠ reg2.reg j ∧ reg1.reg i ≠ reg1.reg j)
    (parts : ∀ i, i ∈ all ↔ i ∈ first ∨ i ∈ second) (moved : Moved (indexPairs reg1 reg2 first) [] code s code' s')
    (moved' : Moved (indexPairs reg1 reg2 second) [] code' s' code'' s'') :
    Moved (indexPairs reg1 reg2 all) [] code s code'' s'' := by
  refine (moved.step (fun p member => ?_) ?_ moved').congr fun p => ?_
  · rcases List.mem_append.1 member with isFirst | isSecond
    · exact indexPairs_bytes bytes p isFirst
    · exact indexPairs_bytes bytes p isSecond
  · intro p isFirst q isSecond
    obtain ⟨i, member, rfl⟩ := List.mem_map.1 isFirst
    obtain ⟨j, member', rfl⟩ := List.mem_map.1 isSecond
    exact order i member j member'
  · rw [List.mem_append, indexPairs, indexPairs, indexPairs, List.mem_map, List.mem_map, List.mem_map]
    simp only [parts, or_and_right, exists_or]

/-- No byte is written that a later move of the loop from the high byte down reads or writes. -/
def HighFirst (reg1 reg2 : Reg) (left : Nat) : Prop :=
  ∀ i j, i < j → j < left → reg1.reg j ≠ reg2.reg i ∧ reg1.reg j ≠ reg1.reg i

theorem wp_moveHighLoop {reg1 reg2 : Reg} {left : Nat} (bytes : Bytes reg1) (order : HighFirst reg1 reg2 left) :
    target.wp (moveHighLoop reg1 reg2 left) (fun _ => Moved (indexPairs reg1 reg2 (List.range left)) [] code s)
      code s := by
  induction left using Nat.strong_induction_on generalizing code s with
  | _ left ih =>
      -- The bytes below, behind the ones that are moved here.
      have below {index : Nat} {high : List Nat} {code₁ : Code} {s₁ : AVRState} (lt : index < left)
          (isHigh : ∀ i, i ∈ high ↔ index ≤ i ∧ i < left) (moved : Moved (indexPairs reg1 reg2 high) [] code s code₁ s₁) :
          target.wp (moveHighLoop reg1 reg2 index)
            (fun _ => Moved (indexPairs reg1 reg2 (List.range left)) [] code s) code₁ s₁ := by
        refine wp_mono (ih index lt fun i j less low => order i j less (Nat.lt_trans low lt)) fun _ code' s' rest => ?_
        refine moved.indexes bytes (fun j member i member' => ?_) (fun i => ?_) rest
        · obtain ⟨low, high⟩ := (isHigh j).1 member
          exact order i j (Nat.lt_of_lt_of_le (List.mem_range.1 member') low) high
        · rw [isHigh, List.mem_range, List.mem_range]
          omega
      match left with
      | 0 => exact wp_pure (Moved.nil [] code s)
      | 1 =>
          refine wp_ite (fun same => wp_pure ?_) fun _ => ?_
          · have pair : indexPairs reg1 reg2 (List.range 1) = [(reg1.reg 0, reg1.reg 0)] :=
              congrArg (fun r => [(reg1.reg 0, r)]) same.symm
            rw [pair]
            exact Moved.same _ code s
          · exact wp_mov fun code' s' exact moved _ => moved_mov exact moved
      | index + 2 =>
          have single : ∀ i, i ∈ [index + 1] ↔ index + 1 ≤ i ∧ i < index + 2 := fun i => by
            rw [List.mem_singleton]
            omega
          have both : ∀ i, i ∈ [index, index + 1] ↔ index ≤ i ∧ i < index + 2 := fun i => by
            rw [List.mem_cons, List.mem_singleton]
            omega
          refine wp_bind (wp_get (wp_ite (fun same => ?_) fun _ => wp_ite (fun pair => ?_) fun _ =>
            wp_ite (fun pair => ?_) fun _ => ?_))
          · refine below (Nat.lt_succ_self (index + 1)) single ?_
            have moved := Moved.same (reg1.reg (index + 1)) code s
            rw [indexPairs, List.map_singleton, ← same]
            exact moved
          · refine wp_bind (wp_mono (wp_movw _ _) fun _ code₁ s₁ moved => below (by omega) both ?_)
            simp only [isRegPair, Bool.and_eq_true, beq_iff_eq] at pair
            rw [indexPairs, List.map_cons, List.map_singleton, pair.1.1.1.2, pair.1.1.2.2]
            exact moved
          · refine wp_bind (wp_mono (wp_movw _ _) fun _ code₁ s₁ moved => below (by omega) both ?_)
            simp only [isRevRegPair, Bool.and_eq_true, beq_iff_eq, bne_iff_ne] at pair
            have first : reg1.reg (index + 1) + 1 = reg1.reg index := by omega
            have second : reg2.reg (index + 1) + 1 = reg2.reg index := by omega
            rw [first, second] at moved
            refine moved.congr fun p => ?_
            rw [indexPairs, List.map_cons, List.map_singleton, List.mem_cons, List.mem_cons, List.mem_cons, List.mem_cons,
              or_left_comm]
          · refine wp_bind (wp_mov fun code₁ s₁ exact moved _ => ?_)
            exact below (Nat.lt_succ_self (index + 1)) single (moved_mov exact moved)

/-- No byte is written that a later move of the loop from the low byte up reads or writes. -/
def LowFirst (reg1 reg2 : Reg) (size : Nat) : Prop :=
  ∀ i j, i < j → j < size → reg1.reg i ≠ reg2.reg j ∧ reg1.reg i ≠ reg1.reg j

theorem wp_moveLoop {reg1 reg2 : Reg} (turns index : Nat) (bytes : Bytes reg1)
    (order : LowFirst reg1 reg2 (min reg1.size reg2.size)) (enough : min reg1.size reg2.size ≤ index + turns) :
    target.wp (moveLoop reg1 reg2 (min reg1.size reg2.size) turns index)
      (fun _ => Moved (indexPairs reg1 reg2 (List.range' index (min reg1.size reg2.size - index))) [] code s) code s := by
  have nothing {index : Nat} (done : min reg1.size reg2.size ≤ index) :
      Moved (indexPairs reg1 reg2 (List.range' index (min reg1.size reg2.size - index))) [] code s code s := by
    rw [Nat.sub_eq_zero_of_le done]
    exact Moved.nil [] code s
  induction turns generalizing index code s with
  | zero => exact wp_pure (nothing enough)
  | succ turns ih =>
      -- The bytes above, behind the ones that are moved here.
      have above {next : Nat} {low : List Nat} {code₁ : Code} {s₁ : AVRState} (lt : index < next)
          (le : next ≤ min reg1.size reg2.size) (isLow : ∀ i, i ∈ low ↔ index ≤ i ∧ i < next)
          (moved : Moved (indexPairs reg1 reg2 low) [] code s code₁ s₁) :
          target.wp (moveLoop reg1 reg2 (min reg1.size reg2.size) turns next)
            (fun _ => Moved (indexPairs reg1 reg2 (List.range' index (min reg1.size reg2.size - index))) [] code s)
            code₁ s₁ := by
        refine wp_mono (ih next (by omega) fun done => ?_) fun _ code' s' rest => ?_
        · rw [Nat.sub_eq_zero_of_le done]
          exact Moved.nil [] _ _
        · refine moved.indexes bytes (fun i member j member' => ?_) (fun i => ?_) rest
          · have isNext := List.mem_range'_1.1 member'
            exact order i j (Nat.lt_of_lt_of_le ((isLow i).1 member).2 isNext.1) (by omega)
          · rw [isLow, List.mem_range'_1, List.mem_range'_1]
            omega
      have single : ∀ i, i ∈ [index] ↔ index ≤ i ∧ i < index + 1 := fun i => by
        rw [List.mem_singleton]
        omega
      have both : ∀ i, i ∈ [index, index + 1] ↔ index ≤ i ∧ i < index + 2 := fun i => by
        rw [List.mem_cons, List.mem_singleton]
        omega
      refine wp_bind (wp_get (wp_ite (fun done => wp_pure (nothing done)) fun more => wp_ite (fun same => ?_) fun _ =>
        wp_ite (fun pair => ?_) fun _ => wp_ite (fun pair => ?_) fun _ => ?_))
      · refine above (Nat.lt_succ_self index) (by omega) single ?_
        have moved := Moved.same (reg1.reg index) code s
        rw [indexPairs, List.map_singleton, ← same]
        exact moved
      · refine wp_bind (wp_mono (wp_movw _ _) fun _ code₁ s₁ moved => ?_)
        simp only [isRegPair, Bool.and_eq_true, decide_eq_true_eq, beq_iff_eq] at pair
        refine above (by omega : index < index + 2) (by omega) both ?_
        rw [indexPairs, List.map_cons, List.map_singleton, pair.1.1.2, pair.1.2.2]
        exact moved
      · refine wp_bind (wp_mono (wp_movw _ _) fun _ code₁ s₁ moved => ?_)
        simp only [isRevRegPair, Bool.and_eq_true, decide_eq_true_eq, beq_iff_eq, bne_iff_ne] at pair
        have first : reg1.reg index - 1 + 1 = reg1.reg index := by omega
        have second : reg2.reg index - 1 + 1 = reg2.reg index := by omega
        rw [first, second, ← pair.1.1.2, ← pair.1.2.2] at moved
        refine above (by omega : index < index + 2) (by omega) both (moved.congr fun p => ?_)
        rw [indexPairs, List.map_cons, List.map_singleton, List.mem_cons, List.mem_cons, List.mem_cons, List.mem_cons,
          or_left_comm]
      · refine wp_bind (wp_mov fun code₁ s₁ exact moved _ => ?_)
        exact above (Nat.lt_succ_self index) (by omega) single (moved_mov exact moved)

/-! ### Up and down in one register -/

theorem Reg.reg_eq_getElem {reg : Reg} {i : Nat} (inside : i < reg.length) : reg.reg i = reg[i] := by
  rw [Reg.reg, List.getD_eq_getElem?_getD, List.getElem?_eq_getElem inside, Option.getD_some]

theorem Reg.reg_drop (reg : Reg) (count i : Nat) : Reg.reg (reg.drop count) i = reg.reg (count + i) := by
  rw [Reg.reg, Reg.reg, List.getD_eq_getElem?_getD, List.getD_eq_getElem?_getD, List.getElem?_drop]

theorem Reg.reg_take (reg : Reg) {count i : Nat} (low : i < count) : Reg.reg (reg.take count) i = reg.reg i := by
  rw [Reg.reg, Reg.reg, List.getD_eq_getElem?_getD, List.getD_eq_getElem?_getD, List.getElem?_take_of_lt low]

theorem Reg.reg_ne {reg : Reg} (nodup : reg.Nodup) {i j : Nat} (first : i < reg.length) (second : j < reg.length)
    (other : i ≠ j) : reg.reg i ≠ reg.reg j := by
  rw [Reg.reg_eq_getElem first, Reg.reg_eq_getElem second]
  exact fun same => other ((List.Nodup.getElem_inj_iff nodup).1 same)

/-- The bytes of a register that were moved. -/
theorem Moved.map {reg1 reg2 : Reg} (sameLength : reg1.length = reg2.length)
    (moved : Moved (indexPairs reg1 reg2 (List.range reg1.length)) [] code s code' s') :
    reg1.map s'.r = reg2.map s.r := by
  apply List.ext_getElem
  · rw [List.length_map, List.length_map, sameLength]
  · intro i inside inside'
    rw [List.length_map] at inside inside'
    have copied := moved.copied _ (List.mem_map_of_mem (List.mem_range.2 inside))
    rw [List.getElem_map, List.getElem_map, ← Reg.reg_eq_getElem inside, ← Reg.reg_eq_getElem inside']
    exact copied

theorem indexPairs_dest {reg1 reg2 : Reg} : ∀ r ∈ (indexPairs reg1 reg2 (List.range reg1.length)).map Prod.fst ++ [],
    r ∈ reg1 := by
  intro r member
  rw [List.append_nil] at member
  obtain ⟨p, isPair, rfl⟩ := List.mem_map.1 member
  obtain ⟨i, below, rfl⟩ := List.mem_map.1 isPair
  have inside := List.mem_range.1 below
  rw [Reg.reg_eq_getElem inside]
  exact List.getElem_mem inside

/-- The bytes of a register go up. -/
theorem wp_moveUp {reg : Reg} {count : Nat} (nodup : reg.Nodup) (bytes : Bytes reg) (le : count ≤ reg.length) :
    target.wp (moveHighFirst (reg.drop count) (reg.take (reg.length - count))) (fun _ code' s' =>
      Within (reg.drop count) code s code' s' ∧ (reg.drop count).map s'.r = (reg.take (reg.length - count)).map s.r)
      code s := by
  have size : (reg.take (reg.length - count)).length = reg.length - count := by
    rw [List.length_take]
    omega
  have sameLength : (reg.drop count).length = (reg.take (reg.length - count)).length := by
    rw [size, List.length_drop]
  have both : min (Reg.size (reg.drop count)) (Reg.size (reg.take (reg.length - count))) = (reg.drop count).length := by
    rw [Reg.size, Reg.size, sameLength, Nat.min_self]
  rw [moveHighFirst, both]
  refine wp_mono (wp_moveHighLoop (fun r member => bytes r (List.mem_of_mem_drop member)) ?_) fun _ code' s' moved => ?_
  · intro i j lt below
    rw [sameLength, size] at below
    rw [Reg.reg_drop, Reg.reg_drop, Reg.reg_take reg (Nat.lt_trans lt below)]
    exact ⟨Reg.reg_ne nodup (by omega) (by omega) (by omega), Reg.reg_ne nodup (by omega) (by omega) (by omega)⟩
  · exact ⟨moved.toWithin.mono indexPairs_dest, moved.map sameLength⟩

/-- The bytes of a register go down. -/
theorem wp_moveDown {reg : Reg} {count : Nat} (nodup : reg.Nodup) (bytes : Bytes reg) (le : count ≤ reg.length) :
    target.wp (move (reg.take (reg.length - count)) (reg.drop count) false) (fun _ code' s' =>
      Within (reg.take (reg.length - count)) code s code' s' ∧
        (reg.take (reg.length - count)).map s'.r = (reg.drop count).map s.r) code s := by
  have size : (reg.take (reg.length - count)).length = reg.length - count := by
    rw [List.length_take]
    omega
  have sameLength : (reg.take (reg.length - count)).length = (reg.drop count).length := by
    rw [size, List.length_drop]
  have both : min (Reg.size (reg.take (reg.length - count))) (Reg.size (reg.drop count)) =
      (reg.take (reg.length - count)).length := by
    rw [Reg.size, Reg.size, ← sameLength, Nat.min_self]
  refine wp_bind (wp_mono (wp_moveLoop _ 0 (fun r member => bytes r (List.mem_of_mem_take member)) ?_ (by omega)) ?_)
  · intro i j lt below
    rw [both, size] at below
    rw [Reg.reg_drop, Reg.reg_take reg (Nat.lt_trans lt below), Reg.reg_take reg below]
    exact ⟨Reg.reg_ne nodup (by omega) (by omega) (by omega), Reg.reg_ne nodup (by omega) (by omega) (by omega)⟩
  · intro _ code' s' moved
    rw [both, Nat.sub_zero, ← List.range_eq_range'] at moved
    exact wp_pure ⟨moved.toWithin.mono indexPairs_dest, moved.map sameLength⟩

end AsconSuite.Avr
