/-
Module: AsconSuite.Proofs.RiscV64Permutation
Layer: Proofs
Purpose: The code that the RISC-V generator emits is the permutation of the C back end, and the function that clears
  the registers clears all that the permutation leaves in them.
Imports: AsconSuite.Proofs.NativeState, AsconSuite.Proofs.UnrolledRounds, AsconSuite.Tools.RiscV64
Trusted boundary: none
Main exports: RiscV64.through_genRound, RiscV64.riscv64_permutes
-/
import AsconSuite.Proofs.NativeState
import AsconSuite.Proofs.UnrolledRounds
import AsconSuite.Tools.RiscV64

namespace AsconSuite.RiscV64

open ByteWord ByteMemory
open Assembly (Flow Ends through through_append)
open Register

/-! ### What a piece of code keeps -/

/-- The registers that the permutation may change. -/
def scratch : List Register := [a1, a2, a3, a4, a5, a6, a7, t1, t2, t3, t4, t5, t6]

/-- The instruction writes to no memory and to no register but these. -/
def Insn.modest : Insn → Bool
  | ld rd _ _ | li rd _ | not rd _ | binary _ rd _ _ | xori rd _ _ | srli rd _ _ | slli rd _ _ => decide (rd ∈ scratch)
  | sd _ _ _ => false
  | beq _ _ _ | j _ | ret => true

/-- The memory and all but the scratch registers are as they were. -/
structure Keeps (m m' : Machine) : Prop where
  mem : m'.mem = m.mem
  regs : ∀ r, r ∉ scratch → m'.regs r = m.regs r

theorem Keeps.refl (m : Machine) : Keeps m m := ⟨rfl, fun _ _ => rfl⟩

theorem Keeps.trans {m m' m'' : Machine} (first : Keeps m m') (second : Keeps m' m'') : Keeps m m'' where
  mem := second.mem.trans first.mem
  regs r other := (second.regs r other).trans (first.regs r other)

/-- A register is written. -/
theorem keeps_set (m : Machine) {r : Register} (w : Word) (isScratch : r ∈ scratch) : Keeps m (m.set r w) where
  mem := rfl
  regs other notScratch := Function.update_of_ne (fun same : other = r => notScratch (same ▸ isScratch)) _ _

/-- One instruction that goes on with the next line. -/
theorem exec_keeps {insn : Insn} {m m' : Machine} (modest : insn.modest = true) (step : exec insn m = .next m') :
    Keeps m m' := by
  cases insn with
  | sd rs offset base => exact absurd modest Bool.false_ne_true
  | beq rs1 rs2 label =>
      rw [exec] at step
      split at step
      · contradiction
      · cases step
        exact Keeps.refl _
  | j label => contradiction
  | ret => contradiction
  | ld rd offset base =>
      cases step
      exact keeps_set m _ (of_decide_eq_true modest)
  | li rd imm =>
      cases step
      exact keeps_set m _ (of_decide_eq_true modest)
  | not rd rs =>
      cases step
      exact keeps_set m _ (of_decide_eq_true modest)
  | binary op rd rs1 rs2 =>
      cases step
      exact keeps_set m _ (of_decide_eq_true modest)
  | xori rd rs imm =>
      cases step
      exact keeps_set m _ (of_decide_eq_true modest)
  | srli rd rs shift =>
      cases step
      exact keeps_set m _ (of_decide_eq_true modest)
  | slli rd rs shift =>
      cases step
      exact keeps_set m _ (of_decide_eq_true modest)

theorem through_keeps {insns : List Insn} {m m' : Machine} (modest : insns.all Insn.modest = true)
    (passes : through exec insns m = some m') : Keeps m m' := by
  rw [List.all_eq_true] at modest
  exact Assembly.through_keeps_of_each Keeps.refl Keeps.trans
    (fun insn inPiece => exec_keeps (modest insn inPiece)) passes

/-! ### One round -/

/-- The words of the state in registers. -/
def stateRegs (m : Machine) : AsconState := ⟨m.regs a2, m.regs a3, m.regs a4, m.regs a5, m.regs a6⟩

theorem through_genSbox (m : Machine) : ∃ m', through exec (genSbox permuteRegs) m = some m' ∧
    stateRegs m' = permuteSbox (stateRegs m) := ⟨_, rfl, rfl⟩

/-- A word with two rotations of it added, in the order of the code. -/
def diffused (w : Word) (r s : Nat) : Word := w ^^^ rightRotate64 w r ^^^ rightRotate64 w s

theorem through_genDiffuse01 (m : Machine) : ∃ m', through exec (genDiffusePair permuteRegs a2 19 28 a3 61 39) m =
      some m' ∧
    stateRegs m' = { stateRegs m with
      w0 := diffused (stateRegs m).w0 19 28, w1 := diffused (stateRegs m).w1 61 39 } := ⟨_, rfl, rfl⟩

theorem through_genDiffuse23 (m : Machine) : ∃ m', through exec (genDiffusePair permuteRegs a4 1 6 a5 10 17) m =
      some m' ∧
    stateRegs m' = { stateRegs m with
      w2 := diffused (stateRegs m).w2 1 6, w3 := diffused (stateRegs m).w3 10 17 } := ⟨_, rfl, rfl⟩

theorem through_genDiffuse4 (m : Machine) : ∃ m', through exec (genDiffuse permuteRegs a6 7 41) m = some m' ∧
    stateRegs m' = { stateRegs m with w4 := diffused (stateRegs m).w4 7 41 } := ⟨_, rfl, rfl⟩

theorem permuteLinear_eq_diffused (x : AsconState) : permuteLinear x =
    ⟨diffused x.w0 19 28, diffused x.w1 61 39, diffused x.w2 1 6, diffused x.w3 10 17, diffused x.w4 7 41⟩ := by
  simp only [permuteLinear, diffused, BitVec.xor_assoc]

/-- The immediate of the round is the inverted round constant. -/
theorem ofInt_roundImmediate {round : Nat} (isRound : round < 12) :
    BitVec.ofInt 64 (roundImmediate round) = roundConstant round := by
  have all : ∀ round < 12, BitVec.ofInt 64 (roundImmediate round) = roundConstant round := by decide
  exact all round isRound

/-- The code of a round computes the round. -/
theorem through_genRound (m : Machine) {round : Nat} (isRound : round < 12) :
    ∃ m', through exec (genRound permuteRegs round) m = some m' ∧ Keeps m m' ∧
      stateRegs m' = permuteRound (stateRegs m) round := by
  obtain ⟨m₁, adds, constant⟩ : ∃ m₁, exec (.xori a4 a4 (roundImmediate round)) m = .next m₁ ∧
      stateRegs m₁ = { stateRegs m with w2 := (stateRegs m).w2 ^^^ roundConstant round } := by
    refine ⟨_, rfl, ?_⟩
    rw [← ofInt_roundImmediate isRound]
    rfl
  obtain ⟨m₂, substitutes, sbox⟩ := through_genSbox m₁
  obtain ⟨m₃, diffuses01, words01⟩ := through_genDiffuse01 m₂
  obtain ⟨m₄, diffuses23, words23⟩ := through_genDiffuse23 m₃
  obtain ⟨m₅, diffuses4, word4⟩ := through_genDiffuse4 m₄
  have passes : through exec (genRound permuteRegs round) m = some m₅ := by
    change through exec (.xori a4 a4 (roundImmediate round) :: (genSbox permuteRegs ++
      (genDiffusePair permuteRegs a2 19 28 a3 61 39 ++ (genDiffusePair permuteRegs a4 1 6 a5 10 17 ++
        genDiffuse permuteRegs a6 7 41)))) m = some m₅
    rw [through, adds]
    change through exec (genSbox permuteRegs ++ _) m₁ = some m₅
    rw [through_append, substitutes, Option.bind_some, through_append, diffuses01, Option.bind_some, through_append,
      diffuses23, Option.bind_some, diffuses4]
  refine ⟨m₅, passes, through_keeps rfl passes, ?_⟩
  rw [word4, words23, words01, sbox, constant, permuteRound, permuteLinear_eq_diffused]

/-! ### The ends of the routine -/

/-- The address of a word of the state. -/
theorem address_eq (m : Machine) {offset : Nat} (inside : (m.regs a0).toNat + offset < 2 ^ 64) :
    m.address offset a0 = (m.regs a0).toNat + offset := by
  have small : offset < 2 ^ 64 := by omega
  change (m.regs a0 + BitVec.ofNat 64 offset).toNat = _
  rw [BitVec.toNat_add, BitVec.toNat_ofNat, Nat.mod_eq_of_lt small, Nat.mod_eq_of_lt inside]

theorem through_genLoad {m : Machine} (inside : (m.regs a0).toNat + 40 ≤ 2 ^ 64) :
    ∃ m', through exec (genLoad permuteRegs) m = some m' ∧ m'.regs a1 = m.regs a1 ∧
      stateRegs m' = { loadState m.mem (m.regs a0).toNat with
        w2 := ~~~(loadState m.mem (m.regs a0).toNat).w2 } := by
  have place {offset : Nat} (near : offset < 40) : m.address offset a0 = (m.regs a0).toNat + offset :=
    address_eq m (by omega)
  refine ⟨_, rfl, rfl, ?_⟩
  change (⟨nativeWord m.mem (m.address 0 a0), nativeWord m.mem (m.address 8 a0), ~~~nativeWord m.mem (m.address 16 a0),
    nativeWord m.mem (m.address 24 a0), nativeWord m.mem (m.address 32 a0)⟩ : AsconState) = _
  rw [place (by decide), place (by decide), place (by decide), place (by decide), place (by decide)]
  rfl

theorem through_genStore {m : Machine} (inside : (m.regs a0).toNat + 40 ≤ 2 ^ 64) :
    ∃ m', through exec (genStore permuteRegs) m = some m' ∧ (∀ r, r ≠ a4 → m'.regs r = m.regs r) ∧
      m'.mem = storeState m.mem (m.regs a0).toNat { stateRegs m with w2 := ~~~(stateRegs m).w2 } := by
  have place {offset : Nat} (near : offset < 40) : m.address offset a0 = (m.regs a0).toNat + offset :=
    address_eq m (by omega)
  refine ⟨_, rfl, fun r other => Function.update_of_ne other _ _, ?_⟩
  change storeWord (storeWord (storeWord (storeWord (storeWord m.mem (m.address 0 a0) (m.regs a2)) (m.address 8 a0)
    (m.regs a3)) (m.address 16 a0) (~~~m.regs a4)) (m.address 24 a0) (m.regs a5)) (m.address 32 a0) (m.regs a6) = _
  rw [place (by decide), place (by decide), place (by decide), place (by decide), place (by decide)]
  rfl

/-! ### The routine -/

/-- The routine as code around its rounds. -/
def unrolled : UnrolledRounds Insn Machine where
  exec := exec
  front := genLoad permuteRegs ++ genDispatch permuteRegs a1
  body := genRound permuteRegs
  back := (genStore permuteRegs).map .insn ++ [.insn .ret]
  words := stateRegs
  Keeps := Keeps
  refl := Keeps.refl
  trans := Keeps.trans
  round m _ isRound := through_genRound m isRound

/-- The code that tests for one value of the first round. -/
def test (round : Nat) : List Insn :=
  if round = 0 then [.beq a1 x0 0] else genTest permuteRegs a1 round

theorem parts_front : unrolled.front = genLoad permuteRegs ++ (UnrolledRounds.order.flatMap test ++ [.j 12]) := rfl

/-- The machine while the first round is looked for. -/
structure Waiting (m : Machine) (first : Nat) (m' : Machine) : Prop where
  keeps : Keeps m m'
  words : stateRegs m' = stateRegs m
  first : m'.regs a1 = BitVec.ofNat 64 first

theorem Waiting.test {m m' : Machine} {first : Nat} (waiting : Waiting m first m') (w : Word) :
    Waiting m first (m'.set t1 w) where
  keeps := waiting.keeps.trans (keeps_set m' w (by decide))
  words := waiting.words
  first := waiting.first

theorem tests (m : Machine) {first round : Nat} (small : first < 256) (isRound : round < 12) :
    unrolled.Tests (Waiting m first) first (test round) round := by
  intro m₁ rest waiting
  have equal : BitVec.ofNat 64 first = BitVec.ofNat 64 round ↔ first = round := by
    refine ⟨fun same => ?_, congrArg _⟩
    have numbers := congrArg BitVec.toNat same
    rw [BitVec.toNat_ofNat, BitVec.toNat_ofNat] at numbers
    omega
  by_cases zero : round = 0
  · subst zero
    have step : exec (.beq a1 x0 0) m₁ = if BitVec.ofNat 64 first = BitVec.ofNat 64 0 then .jump 0 m₁ else .next m₁ := by
      rw [← waiting.first]
      rfl
    refine ⟨m₁, waiting, fun final => ⟨fun same done => ?_, fun different done => ?_⟩⟩
    · rw [if_pos (equal.2 same)] at step
      exact Ends.jump step done
    · rw [if_neg fun same => different (equal.1 same)] at step
      exact Ends.next step done
  · have step : exec (.beq a1 t1 round) (m₁.set t1 (BitVec.ofInt 64 round)) =
        if BitVec.ofNat 64 first = BitVec.ofNat 64 round then .jump round (m₁.set t1 (BitVec.ofInt 64 round))
        else .next (m₁.set t1 (BitVec.ofInt 64 round)) := by
      rw [← waiting.first]
      rfl
    refine ⟨m₁.set t1 (BitVec.ofInt 64 round), waiting.test _, fun final => ⟨fun same done => ?_, fun different done => ?_⟩⟩
    · rw [if_pos (equal.2 same)] at step
      rw [test, if_neg zero]
      exact Ends.next rfl (Ends.jump step done)
    · rw [if_neg fun same => different (equal.1 same)] at step
      rw [test, if_neg zero]
      exact Ends.next rfl (Ends.next step done)

/-- What the routine has to leave. -/
structure Permuted (m : Machine) (x : AsconState) (final : Machine) : Prop where
  mem : final.mem = storeState m.mem (m.regs a0).toNat x
  regs : ∀ r, r ∉ scratch → final.regs r = m.regs r

/-- The end of the routine. -/
theorem ends_back {m m' : Machine} (inside : (m.regs a0).toNat + 40 ≤ 2 ^ 64) (keeps : Keeps m m') : ∃ final,
    Ends exec unrolled.text unrolled.back m' final ∧
      Permuted m { stateRegs m' with w2 := ~~~(stateRegs m').w2 } final := by
  have pointer : m'.regs a0 = m.regs a0 := keeps.regs a0 (by decide)
  rw [← pointer] at inside
  obtain ⟨m₁, stores, regs, mem⟩ := through_genStore inside
  refine ⟨m₁, Ends.through stores (Ends.done rfl), ?_, ?_⟩
  · rw [mem, pointer, keeps.mem]
  · intro r notScratch
    have other : r ≠ a4 := fun same => notScratch (same ▸ (by decide))
    rw [regs r other, keeps.regs r notScratch]

/-- `ascon_backend_free` clears every scratch register and touches nothing else. -/
theorem genBackendFree_clears (m : Machine) : ∃ final, Ends exec genBackendFree genBackendFree m final ∧
    final.mem = m.mem ∧ ∀ r, r ∈ scratch ∧ final.regs r = 0 ∨ r ∉ scratch ∧ final.regs r = m.regs r := by
  obtain ⟨m', clears, zeroes⟩ : ∃ m', through exec ([a1, a2, a3, a4, a5, a6, a7, t1, t2, t3, t4, t5, t6].map
      fun reg => Insn.li reg 0) m = some m' ∧ ∀ r ∈ scratch, m'.regs r = 0 := by
    refine ⟨_, rfl, ?_⟩
    intro r member
    simp only [scratch, List.mem_cons, List.not_mem_nil, or_false] at member
    rcases member with rfl | rfl | rfl | rfl | rfl | rfl | rfl | rfl | rfl | rfl | rfl | rfl | rfl <;> rfl
  have keeps : Keeps m m' := through_keeps rfl clears
  refine ⟨m', Ends.through clears (Ends.done rfl), keeps.mem, fun r => ?_⟩
  by_cases isScratch : r ∈ scratch
  · exact Or.inl ⟨isScratch, zeroes r isScratch⟩
  · exact Or.inr ⟨isScratch, keeps.regs r isScratch⟩

/-- The code that the generator emits is the permutation: for a state anywhere in memory and any first round, the
routine returns with the permuted state in its place, with nothing else in memory changed, and with every register
that the caller expects back. A first round from 12 on leaves the state as it is. A call of `ascon_backend_free`
behind it leaves each register as it was in front of both calls, or zero. -/
theorem riscv64_permutes (m : Machine) (firstRound : Byte) (given : m.regs a1 = firstRound.setWidth 64)
    (inside : (m.regs a0).toNat + 40 ≤ 2 ^ 64) :
    ∃ final, Ends exec genPermute genPermute m final ∧
      loadState final.mem (m.regs a0).toNat =
        asconPermute (loadState m.mem (m.regs a0).toNat) firstRound.toNat ∧
      (∀ a, a < (m.regs a0).toNat ∨ (m.regs a0).toNat + 40 ≤ a → final.mem a = m.mem a) ∧
      (∀ r ∈ [x0, ra, sp, gp, tp, a0, s0, s1, s2, s3, s4, s5, s6, s7, s8, s9, s10, s11], final.regs r = m.regs r) ∧
      ∃ cleared, Ends exec genBackendFree genBackendFree final cleared ∧ cleared.mem = final.mem ∧
        ∀ r, cleared.regs r = m.regs r ∨ cleared.regs r = 0 := by
  obtain ⟨m₁, loads, first, words⟩ := through_genLoad inside
  have keeps : Keeps m m₁ := through_keeps rfl loads
  have waiting : Waiting m₁ firstRound.toNat m₁ := {
    keeps := Keeps.refl m₁
    words := rfl
    first := by rw [first, given, BitVec.ofNat_toNat] }
  obtain ⟨final, done, permuted⟩ := UnrolledRounds.permutes parts_front loads waiting
    (fun _ waiting' => ⟨waiting'.keeps, waiting'.words⟩) (fun _ isRound => tests m₁ firstRound.isLt isRound)
    (fun _ => rfl) fun m' keeps' words' => by
      have ends := ends_back inside (keeps.trans keeps')
      rw [show stateRegs m' = _ from words'] at ends
      exact ends
  have computed : ({ permuteRounds (stateRegs m₁) firstRound.toNat with
      w2 := ~~~(permuteRounds (stateRegs m₁) firstRound.toNat).w2 } : AsconState) =
      asconPermute (loadState m.mem (m.regs a0).toNat) firstRound.toNat := by
    rw [asconPermute, ← words]
  obtain ⟨cleared, clears, sameMem, registers⟩ := genBackendFree_clears final
  refine ⟨final, done, ?_, ?_, ?_, cleared, clears, sameMem, ?_⟩
  · rw [permuted.mem, loadState_storeState]
    exact computed
  · intro a apart
    rw [permuted.mem, storeState_apart _ _ apart]
  · intro r member
    have notScratch : ∀ r ∈ [x0, ra, sp, gp, tp, a0, s0, s1, s2, s3, s4, s5, s6, s7, s8, s9, s10, s11], r ∉ scratch := by
      decide
    exact permuted.regs r (notScratch r member)
  · intro r
    rcases registers r with ⟨_, zero⟩ | ⟨notScratch, same⟩
    · exact Or.inr zero
    · exact Or.inl (same.trans (permuted.regs r notScratch))

/-- Six rounds on a state at address 1000. -/
theorem riscv64_permutes_six : ∃ final,
    Ends exec genPermute genPermute ⟨fun r => if r = a0 then 1000 else 6, fun _ => 7⟩ final ∧
      loadState final.mem 1000 = asconPermute (loadState (fun _ => 7) 1000) 6 := by
  obtain ⟨final, done, permuted, _⟩ := riscv64_permutes ⟨fun r => if r = a0 then 1000 else 6, fun _ => 7⟩ 6 rfl
    (by decide)
  exact ⟨final, done, permuted⟩

end AsconSuite.RiscV64
