/-
Module: AsconSuite.Proofs.Armv8aPermutation
Layer: Proofs
Purpose: The code that the generator for 64-bit ARM emits is the permutation of the C back end, and the function that
  clears the registers clears all that the permutation leaves in them.
Imports: AsconSuite.Proofs.NativeState, AsconSuite.Proofs.UnrolledRounds, AsconSuite.Tools.Armv8a
Trusted boundary: none
Main exports: Armv8a.through_genRound, Armv8a.armv8a_permutes
-/
import AsconSuite.Proofs.NativeState
import AsconSuite.Proofs.UnrolledRounds
import AsconSuite.Tools.Armv8a

namespace AsconSuite.Armv8a

open ByteWord ByteMemory
open Assembly (Flow Ends through through_append)
open Register

/-! ### What a piece of code keeps -/

/-- The registers that the permutation may change. -/
def scratch : List Register := [x1, x2, x3, x4, x5, x6, x7, x9, x10, x11, x12, x13, x14, x15]

/-- The instruction writes to no memory and to no register but these. -/
def Insn.modest : Insn → Bool
  | mov rd _ | mvn rd _ | eor rd _ _ | bic rd _ _ | eorRor rd _ _ _ | ror rd _ _ | ldrConst rd _ | clear rd
  | ldr rd _ _ | andW rd _ _ => decide (rd ∈ scratch)
  | ldp rd1 rd2 _ _ => decide (rd1 ∈ scratch) && decide (rd2 ∈ scratch)
  | stp _ _ _ _ | str _ _ _ => false
  | cmpW _ _ | beq _ | b _ | ret => true

/-- The memory and all but the scratch registers are as they were. -/
structure Keeps (m m' : Machine) : Prop where
  mem : m'.mem = m.mem
  regs : ∀ r, r ∉ scratch → m'.regs r = m.regs r

theorem Keeps.refl (m : Machine) : Keeps m m := ⟨rfl, fun _ _ => rfl⟩

theorem Keeps.trans {m m' m'' : Machine} (first : Keeps m m') (second : Keeps m' m'') : Keeps m m'' where
  mem := second.mem.trans first.mem
  regs r other := (second.regs r other).trans (first.regs r other)

/-- A register is written. -/
theorem keeps_set (m : Machine) {r : Register} (w : Word) (isScratch : r ∈ scratch) : Keeps m (m.set r w) where
  mem := rfl
  regs other notScratch := Function.update_of_ne (fun same : other = r => notScratch (same ▸ isScratch)) _ _

/-- One instruction that goes on with the next line. -/
theorem exec_keeps {insn : Insn} {m m' : Machine} (modest : insn.modest = true) (step : exec insn m = .next m') :
    Keeps m m' := by
  cases insn with
  | stp rs1 rs2 base offset => exact absurd modest Bool.false_ne_true
  | str rs base offset => exact absurd modest Bool.false_ne_true
  | beq label =>
      rw [exec] at step
      split at step
      · contradiction
      · cases step
        exact Keeps.refl _
  | b label => contradiction
  | ret => contradiction
  | cmpW rs imm =>
      cases step
      exact ⟨rfl, fun _ _ => rfl⟩
  | ldp rd1 rd2 base offset =>
      cases step
      obtain ⟨first, second⟩ := Bool.and_eq_true_iff.1 modest
      exact (keeps_set m _ (of_decide_eq_true first)).trans (keeps_set _ _ (of_decide_eq_true second))
  | mov rd rs =>
      cases step
      exact keeps_set m _ (of_decide_eq_true modest)
  | mvn rd rs =>
      cases step
      exact keeps_set m _ (of_decide_eq_true modest)
  | eor rd rs1 rs2 =>
      cases step
      exact keeps_set m _ (of_decide_eq_true modest)
  | bic rd rs1 rs2 =>
      cases step
      exact keeps_set m _ (of_decide_eq_true modest)
  | eorRor rd rs1 rs2 shift =>
      cases step
      exact keeps_set m _ (of_decide_eq_true modest)
  | ror rd rs shift =>
      cases step
      exact keeps_set m _ (of_decide_eq_true modest)
  | ldrConst rd value =>
      cases step
      exact keeps_set m _ (of_decide_eq_true modest)
  | clear rd =>
      cases step
      exact keeps_set m _ (of_decide_eq_true modest)
  | ldr rd base offset =>
      cases step
      exact keeps_set m _ (of_decide_eq_true modest)
  | andW rd rs imm =>
      cases step
      exact keeps_set m _ (of_decide_eq_true modest)

theorem through_keeps {insns : List Insn} {m m' : Machine} (modest : insns.all Insn.modest = true)
    (passes : through exec insns m = some m') : Keeps m m' := by
  rw [List.all_eq_true] at modest
  exact Assembly.through_keeps_of_each Keeps.refl Keeps.trans
    (fun insn inPiece => exec_keeps (modest insn inPiece)) passes

/-! ### One round -/

/-- The words of the state in registers. -/
def stateRegs (m : Machine) : AsconState := ⟨m.regs x2, m.regs x3, m.regs x4, m.regs x5, m.regs x6⟩

/-- The substitution layer in the order of the code, which takes the new `x3` for the new `x2`. -/
def sboxInPlace (x : AsconState) : AsconState :=
  let x0 := x.w0 ^^^ x.w4
  let x4 := x.w4 ^^^ x.w3
  let x2 := x.w2 ^^^ x.w1
  let t1 := x0
  let t0 := x.w1 &&& ~~~x0
  let x0 := x0 ^^^ (x2 &&& ~~~x.w1)
  let x1 := x.w1 ^^^ (x.w3 &&& ~~~x2)
  let x3 := x.w3 ^^^ (t1 &&& ~~~x4)
  let x2 := x2 ^^^ (x4 &&& ~~~x3)
  let x4 := x4 ^^^ t0
  let x1 := x1 ^^^ x0
  let x0 := x0 ^^^ x4
  let x3 := x3 ^^^ x2
  ⟨x0, x1, x2, x3, x4⟩

theorem through_genSbox (m : Machine) : ∃ m', through exec (genSbox permuteRegs) m = some m' ∧
    stateRegs m' = sboxInPlace (stateRegs m) := ⟨_, rfl, rfl⟩

/-- What was added to a word outside of a mask does not show under the mask. -/
theorem and_not_xor_masked (x y z : Word) : z &&& ~~~(x ^^^ (y &&& ~~~z)) = ~~~x &&& z := by
  ext i inside
  simp only [BitVec.getElem_and, BitVec.getElem_not, BitVec.getElem_xor]
  cases x[i] <;> cases y[i] <;> cases z[i] <;> rfl

theorem sboxInPlace_eq (x : AsconState) : sboxInPlace x = permuteSbox x := by
  rw [sboxInPlace, permuteSbox]
  simp only [and_not_xor_masked]
  simp only [BitVec.and_comm]

/-- The words with two rotations of each added, in the order of the code. -/
def linearInPlace (x : AsconState) : AsconState where
  w0 := x.w0 ^^^ x.w0.rotateRight 28 ^^^ x.w0.rotateRight 19
  w1 := x.w1 ^^^ x.w1.rotateRight 39 ^^^ x.w1.rotateRight 61
  w2 := x.w2 ^^^ x.w2.rotateRight 6 ^^^ x.w2.rotateRight 1
  w3 := x.w3 ^^^ x.w3.rotateRight 17 ^^^ x.w3.rotateRight 10
  w4 := x.w4 ^^^ x.w4.rotateRight 41 ^^^ x.w4.rotateRight 7

theorem through_genLinear (m : Machine) : ∃ m', through exec (genLinear permuteRegs) m = some m' ∧
    stateRegs m' = linearInPlace (stateRegs m) := ⟨_, rfl, rfl⟩

theorem linearInPlace_eq (x : AsconState) : linearInPlace x = permuteLinear x := by
  have rotations (w : Word) {r s : Nat} (small : r < 64) (small' : s < 64) :
      w ^^^ w.rotateRight s ^^^ w.rotateRight r = w ^^^ (rightRotate64 w r ^^^ rightRotate64 w s) := by
    rw [rightRotate64_eq_rotateRight w small, rightRotate64_eq_rotateRight w small', BitVec.xor_assoc,
      BitVec.xor_comm (w.rotateRight s)]
  rw [linearInPlace, permuteLinear, rotations x.w0 (by decide) (by decide), rotations x.w1 (by decide) (by decide),
    rotations x.w2 (by decide) (by decide), rotations x.w3 (by decide) (by decide),
    rotations x.w4 (by decide) (by decide)]

/-- The value that is added is the inverted round constant. -/
theorem roundValue_eq {round : Nat} (isRound : round < 12) : roundValue round = roundConstant round := by
  have all : ∀ round < 12, roundValue round = roundConstant round := by decide
  exact all round isRound

/-- The code of a round computes the round. -/
theorem through_genRound (m : Machine) {round : Nat} (isRound : round < 12) :
    ∃ m', through exec (genRound permuteRegs round) m = some m' ∧ Keeps m m' ∧
      stateRegs m' = permuteRound (stateRegs m) round := by
  obtain ⟨m₁, adds, constant⟩ : ∃ m₁,
      through exec [.ldrConst x12 (roundValue round), .eor x4 x4 x12] m = some m₁ ∧
      stateRegs m₁ = { stateRegs m with w2 := (stateRegs m).w2 ^^^ roundConstant round } := by
    refine ⟨_, rfl, ?_⟩
    rw [← roundValue_eq isRound]
    rfl
  obtain ⟨m₂, substitutes, sbox⟩ := through_genSbox m₁
  obtain ⟨m₃, diffuses, linear⟩ := through_genLinear m₂
  have passes : through exec (genRound permuteRegs round) m = some m₃ := by
    change through exec ([.ldrConst x12 (roundValue round), .eor x4 x4 x12] ++
      (genSbox permuteRegs ++ genLinear permuteRegs)) m = some m₃
    rw [through_append, adds, Option.bind_some, through_append, substitutes, Option.bind_some, diffuses]
  refine ⟨m₃, passes, through_keeps rfl passes, ?_⟩
  rw [linear, linearInPlace_eq, sbox, sboxInPlace_eq, constant, permuteRound]

/-! ### The ends of the routine -/

/-- The address of a word of the state. -/
theorem address_eq (m : Machine) {offset : Nat} (inside : (m.regs x0).toNat + offset < 2 ^ 64) :
    m.address x0 offset = (m.regs x0).toNat + offset := by
  have small : offset < 2 ^ 64 := by omega
  rw [Machine.address, BitVec.toNat_add, BitVec.toNat_ofNat, Nat.mod_eq_of_lt small, Nat.mod_eq_of_lt inside]

/-- The first round is the low byte of `x1`, whatever the caller leaves above it. -/
def lowByte (w : Word) : Byte := w.setWidth 8

theorem lowByte_eq (w : Word) :
    ((w.setWidth 32 &&& BitVec.ofNat 32 255).setWidth 64 : Word) = BitVec.ofNat 64 (lowByte w).toNat := by
  apply BitVec.eq_of_toNat_eq
  have masked (n : Nat) : n &&& 255 = n % 256 := Nat.and_two_pow_sub_one_eq_mod n 8
  rw [lowByte, BitVec.toNat_setWidth, BitVec.toNat_and, BitVec.toNat_setWidth, BitVec.toNat_ofNat, BitVec.toNat_ofNat,
    BitVec.toNat_setWidth, masked]
  omega

theorem through_genLoad {m : Machine} (inside : (m.regs x0).toNat + 40 ≤ 2 ^ 64) :
    ∃ m', through exec (genLoad permuteRegs) m = some m' ∧
      m'.regs x1 = BitVec.ofNat 64 (lowByte (m.regs x1)).toNat ∧
      stateRegs m' = { loadState m.mem (m.regs x0).toNat with
        w2 := ~~~(loadState m.mem (m.regs x0).toNat).w2 } := by
  have place {offset : Nat} (near : offset < 40) : m.address x0 offset = (m.regs x0).toNat + offset :=
    address_eq m (by omega)
  refine ⟨_, rfl, lowByte_eq (m.regs x1), ?_⟩
  change (⟨nativeWord m.mem (m.address x0 0), nativeWord m.mem (m.address x0 8), ~~~nativeWord m.mem (m.address x0 16),
    nativeWord m.mem (m.address x0 24), nativeWord m.mem (m.address x0 32)⟩ : AsconState) = _
  rw [place (by decide), place (by decide), place (by decide), place (by decide), place (by decide)]
  rfl

theorem through_genStore {m : Machine} (inside : (m.regs x0).toNat + 40 ≤ 2 ^ 64) :
    ∃ m', through exec (genStore permuteRegs) m = some m' ∧ (∀ r, r ≠ x4 → m'.regs r = m.regs r) ∧
      m'.mem = storeState m.mem (m.regs x0).toNat { stateRegs m with w2 := ~~~(stateRegs m).w2 } := by
  have place {offset : Nat} (near : offset < 40) : m.address x0 offset = (m.regs x0).toNat + offset :=
    address_eq m (by omega)
  refine ⟨_, rfl, fun r other => Function.update_of_ne other _ _, ?_⟩
  change storeWord (storeWord (storeWord (storeWord (storeWord m.mem (m.address x0 0) (m.regs x2)) (m.address x0 8)
    (m.regs x3)) (m.address x0 16) (~~~m.regs x4)) (m.address x0 24) (m.regs x5)) (m.address x0 32) (m.regs x6) = _
  rw [place (by decide), place (by decide), place (by decide), place (by decide), place (by decide)]
  rfl

/-! ### The routine -/

/-- The routine as code around its rounds. -/
def unrolled : UnrolledRounds Insn Machine where
  exec := exec
  front := genLoad permuteRegs ++ genDispatch
  body := genRound permuteRegs
  back := (genStore permuteRegs).map .insn ++ [.insn .ret]
  words := stateRegs
  Keeps := Keeps
  refl := Keeps.refl
  trans := Keeps.trans
  round m _ isRound := through_genRound m isRound

theorem parts_front : unrolled.front = genLoad permuteRegs ++ (UnrolledRounds.order.flatMap genTest ++ [.b 12]) := rfl

/-- The machine while the first round is looked for. -/
structure Waiting (m : Machine) (first : Nat) (m' : Machine) : Prop where
  keeps : Keeps m m'
  words : stateRegs m' = stateRegs m
  first : m'.regs x1 = BitVec.ofNat 64 first

theorem Waiting.compare {m m' : Machine} {first : Nat} (waiting : Waiting m first m') (zero : Bool) :
    Waiting m first { m' with zero := zero } where
  keeps := waiting.keeps.trans ⟨rfl, fun _ _ => rfl⟩
  words := waiting.words
  first := waiting.first

theorem tests (m : Machine) {first round : Nat} (small : first < 256) (isRound : round < 12) :
    unrolled.Tests (Waiting m first) first (genTest round) round := by
  intro m₁ rest waiting
  have low : (m₁.regs x1).setWidth 32 = BitVec.ofNat 32 first := by
    apply BitVec.eq_of_toNat_eq
    rw [waiting.first, BitVec.toNat_setWidth, BitVec.toNat_ofNat, BitVec.toNat_ofNat]
    omega
  have equal : BitVec.ofNat 32 first = BitVec.ofNat 32 round ↔ first = round := by
    refine ⟨fun same => ?_, congrArg _⟩
    have numbers := congrArg BitVec.toNat same
    rw [BitVec.toNat_ofNat, BitVec.toNat_ofNat] at numbers
    omega
  have step (zero : Bool) : exec (.beq round) { m₁ with zero := zero } =
      if zero then .jump round { m₁ with zero := zero } else .next { m₁ with zero := zero } := rfl
  refine ⟨{ m₁ with zero := (m₁.regs x1).setWidth 32 == BitVec.ofNat 32 round }, waiting.compare _,
    fun final => ⟨fun same done => ?_, fun different done => ?_⟩⟩
  · have zero : ((m₁.regs x1).setWidth 32 == BitVec.ofNat 32 round) = true := beq_iff_eq.2 (low.trans (equal.2 same))
    have jumps := step ((m₁.regs x1).setWidth 32 == BitVec.ofNat 32 round)
    rw [if_pos zero] at jumps
    exact Ends.next rfl (Ends.jump jumps done)
  · have nonzero : ¬((m₁.regs x1).setWidth 32 == BitVec.ofNat 32 round) = true :=
      fun zero => different (equal.1 (low.symm.trans (beq_iff_eq.1 zero)))
    have passes := step ((m₁.regs x1).setWidth 32 == BitVec.ofNat 32 round)
    rw [if_neg nonzero] at passes
    exact Ends.next rfl (Ends.next passes done)

/-- What the routine has to leave. -/
structure Permuted (m : Machine) (x : AsconState) (final : Machine) : Prop where
  mem : final.mem = storeState m.mem (m.regs x0).toNat x
  regs : ∀ r, r ∉ scratch → final.regs r = m.regs r

/-- The end of the routine. -/
theorem ends_back {m m' : Machine} (inside : (m.regs x0).toNat + 40 ≤ 2 ^ 64) (keeps : Keeps m m') : ∃ final,
    Ends exec unrolled.text unrolled.back m' final ∧
      Permuted m { stateRegs m' with w2 := ~~~(stateRegs m').w2 } final := by
  have pointer : m'.regs x0 = m.regs x0 := keeps.regs x0 (by decide)
  rw [← pointer] at inside
  obtain ⟨m₁, stores, regs, mem⟩ := through_genStore inside
  refine ⟨m₁, Ends.through stores (Ends.done rfl), ?_, ?_⟩
  · rw [mem, pointer, keeps.mem]
  · intro r notScratch
    have other : r ≠ x4 := fun same => notScratch (same ▸ (by decide))
    rw [regs r other, keeps.regs r notScratch]

/-- `ascon_backend_free` clears every scratch register and touches nothing else. -/
theorem genBackendFree_clears (m : Machine) : ∃ final, Ends exec genBackendFree genBackendFree m final ∧
    final.mem = m.mem ∧ ∀ r, r ∈ scratch ∧ final.regs r = 0 ∨ r ∉ scratch ∧ final.regs r = m.regs r := by
  obtain ⟨m', clears, zeroes⟩ : ∃ m', through exec (scratch.map Insn.clear) m = some m' ∧
      ∀ r ∈ scratch, m'.regs r = 0 := by
    refine ⟨_, rfl, ?_⟩
    intro r member
    simp only [scratch, List.mem_cons, List.not_mem_nil, or_false] at member
    rcases member with rfl | rfl | rfl | rfl | rfl | rfl | rfl | rfl | rfl | rfl | rfl | rfl | rfl | rfl <;> rfl
  have keeps : Keeps m m' := through_keeps rfl clears
  refine ⟨m', Ends.through clears (Ends.done rfl), keeps.mem, fun r => ?_⟩
  by_cases isScratch : r ∈ scratch
  · exact Or.inl ⟨isScratch, zeroes r isScratch⟩
  · exact Or.inr ⟨isScratch, keeps.regs r isScratch⟩

/-- The code that the generator emits is the permutation: for a state anywhere in memory and any first round in the
low byte of `x1`, the routine returns with the permuted state in its place, with nothing else in memory changed, and
with every register that the caller expects back. A first round from 12 on leaves the state as it is. A call of
`ascon_backend_free` behind it leaves each register as it was in front of both calls, or zero. -/
theorem armv8a_permutes (m : Machine) (inside : (m.regs x0).toNat + 40 ≤ 2 ^ 64) :
    ∃ final, Ends exec genPermute genPermute m final ∧
      loadState final.mem (m.regs x0).toNat =
        asconPermute (loadState m.mem (m.regs x0).toNat) (lowByte (m.regs x1)).toNat ∧
      (∀ a, a < (m.regs x0).toNat ∨ (m.regs x0).toNat + 40 ≤ a → final.mem a = m.mem a) ∧
      (∀ r ∈ [x0, x8, x16, x17, x18, x19, x20, x21, x22, x23, x24, x25, x26, x27, x28, x29, x30, sp],
        final.regs r = m.regs r) ∧
      ∃ cleared, Ends exec genBackendFree genBackendFree final cleared ∧ cleared.mem = final.mem ∧
        ∀ r, cleared.regs r = m.regs r ∨ cleared.regs r = 0 := by
  obtain ⟨m₁, loads, first, words⟩ := through_genLoad inside
  have keeps : Keeps m m₁ := through_keeps rfl loads
  have waiting : Waiting m₁ (lowByte (m.regs x1)).toNat m₁ := {
    keeps := Keeps.refl m₁
    words := rfl
    first := first }
  obtain ⟨final, done, permuted⟩ := UnrolledRounds.permutes parts_front loads waiting
    (fun _ waiting' => ⟨waiting'.keeps, waiting'.words⟩)
    (fun _ isRound => tests m₁ (lowByte (m.regs x1)).isLt isRound) (fun _ => rfl) fun m' keeps' words' => by
      have ends := ends_back inside (keeps.trans keeps')
      rw [show stateRegs m' = _ from words'] at ends
      exact ends
  have computed : ({ permuteRounds (stateRegs m₁) (lowByte (m.regs x1)).toNat with
      w2 := ~~~(permuteRounds (stateRegs m₁) (lowByte (m.regs x1)).toNat).w2 } : AsconState) =
      asconPermute (loadState m.mem (m.regs x0).toNat) (lowByte (m.regs x1)).toNat := by
    rw [asconPermute, ← words]
  obtain ⟨cleared, clears, sameMem, registers⟩ := genBackendFree_clears final
  refine ⟨final, done, ?_, ?_, ?_, cleared, clears, sameMem, ?_⟩
  · rw [permuted.mem, loadState_storeState]
    exact computed
  · intro a apart
    rw [permuted.mem, storeState_apart _ _ apart]
  · intro r member
    have notScratch : ∀ r ∈ [x0, x8, x16, x17, x18, x19, x20, x21, x22, x23, x24, x25, x26, x27, x28, x29, x30, sp],
        r ∉ scratch := by
      decide
    exact permuted.regs r (notScratch r member)
  · intro r
    rcases registers r with ⟨_, zero⟩ | ⟨notScratch, same⟩
    · exact Or.inr zero
    · exact Or.inl (same.trans (permuted.regs r notScratch))

/-- Six rounds on a state at address 1000, with more than a byte in the register of the first round. -/
theorem armv8a_permutes_six : ∃ final,
    Ends exec genPermute genPermute ⟨fun r => if r = x0 then 1000 else 0x706, false, fun _ => 7⟩ final ∧
      loadState final.mem 1000 = asconPermute (loadState (fun _ => 7) 1000) 6 := by
  obtain ⟨final, done, permuted, _⟩ := armv8a_permutes
    ⟨fun r => if r = x0 then 1000 else 0x706, false, fun _ => 7⟩ (by decide)
  exact ⟨final, done, permuted⟩

end AsconSuite.Armv8a
