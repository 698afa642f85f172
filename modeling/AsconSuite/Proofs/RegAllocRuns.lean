/-
Module: AsconSuite.Proofs.RegAllocRuns
Layer: Proofs
Purpose: The instructions that the x86 generator emits for a list of calls give every logical register the value it
  has on the ideal machine, as long as no call reads a word that it has not loaded.
Imports: AsconSuite.Proofs.RegAllocCache
Trusted boundary: none
Main exports: Allocator.Realizes, Allocator.Loads, Allocator.Follows, sim_step, x86_registers_keep_values
-/
import AsconSuite.Proofs.RegAllocCache

namespace AsconSuite

open ByteWord ByteMemory RegisterCache
open Emit (bind_eq_ok)

namespace Allocator

variable {n : Nat} {ops : Opcodes n} {m0 : Machine n} {a b : Allocator} {value next : Nat → Option (BitVec (8 * n))}
  {i : Nat} {r : String} {v x y : BitVec (8 * n)}

/-! ### Emitters -/

/-- The machine register of a logical register has its value. -/
theorem regs_eq {pending : Set Nat} (sim : Sim ops m0 a value pending) (real : (a.regs i).realReg = some r)
    (filled : i ∉ pending) (valued : value i = some v) : (a.machine ops m0).regs r = v :=
  sim.holds.cached i r v real filled valued

theorem sim_live_settled (sim : Sim ops m0 a value ∅) (done : a.live i = .ok b) : Sim ops m0 b value ∅ := by
  obtain ⟨waiting, fewer, kept⟩ := sim_live sim done
  rw [Set.subset_empty_iff.mp fewer] at kept
  exact kept

/-- A write after which nothing is pending. -/
theorem sim_write_settled {pending : Set Nat} (fewer : pending ⊆ {i}) (sim : Sim ops m0 a value pending)
    (real : (a.regs i).realReg = some r) {insn : Insn} (executed : (a.machine ops m0).exec ops insn =
      { a.machine ops m0 with regs := Function.update (a.machine ops m0).regs r v }) :
    Sim ops m0 ((a.addInsn insn).dirty i) (Function.update value i (some v)) ∅ := by
  have written := sim_write sim real executed
  rw [Set.sdiff_eq_empty.mpr fewer] at written
  exact written

theorem sim_binop {name : String} {reg1 reg2 : Nat} (sim : Sim ops m0 a value ∅) (first : value reg1 = some x)
    (second : value reg2 = some y) (done : a.binop name reg1 reg2 = .ok b) :
    Sim ops m0 b (Function.update value reg1 (some (ops.binary name x y))) ∅ := by
  obtain ⟨c, live1, rest⟩ := bind_eq_ok done
  obtain ⟨d, live2, rest⟩ := bind_eq_ok rest
  obtain ⟨real1, got1, rest⟩ := bind_eq_ok rest
  obtain ⟨real2, got2, equal⟩ := bind_eq_ok rest
  have kept := sim_live_settled (sim_live_settled sim live1) live2
  rw [← Except.ok.inj equal]
  refine sim_write_settled (Set.empty_subset _) kept (getReal_eq got1) ?_
  rw [Machine.exec]
  simp only [regs_eq kept (getReal_eq got1) (Set.notMem_empty _) first,
    regs_eq kept (getReal_eq got2) (Set.notMem_empty _) second]
  rfl

theorem sim_unop {name : String} (sim : Sim ops m0 a value ∅) (valued : value i = some x)
    (done : a.unop name i = .ok b) : Sim ops m0 b (Function.update value i (some (ops.unary name x))) ∅ := by
  obtain ⟨c, live, rest⟩ := bind_eq_ok done
  obtain ⟨real, got, equal⟩ := bind_eq_ok rest
  have kept := sim_live_settled sim live
  rw [← Except.ok.inj equal]
  refine sim_write_settled (Set.empty_subset _) kept (getReal_eq got) ?_
  rw [Machine.exec]
  simp only [regs_eq kept (getReal_eq got) (Set.notMem_empty _) valued]
  rfl

theorem exec_immediate (m : Machine n) (opcode : String) (imm : Int) :
    m.exec ops (immediate opcode r imm) =
      { m with regs := Function.update m.regs r (ops.binary opcode (m.regs r) (BitVec.ofInt (8 * n) imm)) } := rfl

theorem sim_changeImm {opcode : String} {imm : Int} (sim : Sim ops m0 a value ∅) (valued : value i = some x)
    (done : changeImm opcode a i imm = .ok b) :
    Sim ops m0 b (Function.update value i (some (ops.binary opcode x (BitVec.ofInt (8 * n) imm)))) ∅ := by
  obtain ⟨c, live, rest⟩ := bind_eq_ok done
  obtain ⟨real, got, equal⟩ := bind_eq_ok rest
  have kept := sim_live_settled sim live
  rw [← Except.ok.inj equal]
  refine sim_write_settled (Set.empty_subset _) kept (getReal_eq got) ?_
  rw [exec_immediate, regs_eq kept (getReal_eq got) (Set.notMem_empty _) valued]

/-- The destination of a move may be pending. It is not when it is a temporary or was in a register before. -/
theorem sim_liveUnloaded (sim : Sim ops m0 a value ∅) (done : a.liveUnloaded i = .ok b) :
    ∃ pending : Set Nat, pending ⊆ {i} ∧ Sim ops m0 b value pending ∧
      ((a.regs i).isTemp = true ∨ (a.regs i).realReg ≠ none → pending = ∅) := by
  rw [liveUnloaded] at done
  by_cases temp : (a.regs i).isTemp = true
  · rw [if_pos temp] at done
    exact ⟨∅, Set.empty_subset _, sim_acquire sim done, fun _ => rfl⟩
  · rw [if_neg temp] at done
    obtain ⟨result, found, equal⟩ := bind_eq_ok done
    rw [← Except.ok.inj equal]
    rcases sim_liveNoload sim found with ⟨_, kept⟩ | ⟨_, off, kept, _, _⟩
    · exact ⟨∅, Set.empty_subset _, kept, fun _ => rfl⟩
    · refine ⟨insert i ∅, fun j waiting => waiting.resolve_right (Set.notMem_empty j), kept, fun there => ?_⟩
      rcases there with isTemp | placed
      · exact absurd isTemp temp
      · exact absurd off placed

theorem sim_move {dest src : Nat} (sim : Sim ops m0 a value ∅) (valued : value src = some x)
    (loads : dest = src → (a.regs dest).isTemp = true ∨ (a.regs dest).realReg ≠ none)
    (done : a.move dest src = .ok b) : Sim ops m0 b (Function.update value dest (some x)) ∅ := by
  obtain ⟨c, reserved, rest⟩ := bind_eq_ok done
  obtain ⟨d, live, rest⟩ := bind_eq_ok rest
  obtain ⟨realDest, gotDest, rest⟩ := bind_eq_ok rest
  obtain ⟨realSrc, gotSrc, equal⟩ := bind_eq_ok rest
  obtain ⟨pending, only, kept, settled⟩ := sim_liveUnloaded sim reserved
  obtain ⟨waiting, fewer, kept⟩ := sim_live kept live
  -- the source is not the destination, or nothing is pending.
  have filled : src ∉ waiting := by
    intro unfilled
    by_cases same : dest = src
    · have none_left := settled (loads same)
      exact absurd (fewer unfilled) (none_left ▸ Set.notMem_empty src)
    · exact same (only (fewer unfilled)).symm
  rw [← Except.ok.inj equal]
  refine sim_write_settled (fewer.trans only) kept (getReal_eq gotDest) ?_
  rw [Machine.exec]
  simp only [ops.mov, regs_eq kept (getReal_eq gotSrc) filled valued]
  rfl

theorem sim_setImm {opcode : String} {imm : Int} (sim : Sim ops m0 a value ∅)
    (gives : ∀ old, (((a.regs i).isTemp = true ∨ (a.regs i).realReg ≠ none) → ∀ w, value i = some w → old = w) →
      ops.binary opcode old (BitVec.ofInt (8 * n) imm) = v)
    (done : setImm opcode a i imm = .ok b) : Sim ops m0 b (Function.update value i (some v)) ∅ := by
  obtain ⟨c, reserved, rest⟩ := bind_eq_ok done
  obtain ⟨real, got, equal⟩ := bind_eq_ok rest
  obtain ⟨pending, only, kept, settled⟩ := sim_liveUnloaded sim reserved
  rw [← Except.ok.inj equal]
  refine sim_write_settled only kept (getReal_eq got) ?_
  rw [exec_immediate, gives ((c.machine ops m0).regs real)]
  intro there w valued
  have filled : i ∉ pending := settled there ▸ Set.notMem_empty i
  exact regs_eq kept (getReal_eq got) filled valued

theorem sim_moveImm {imm : BitVec 64} (sim : Sim ops m0 a value ∅) (done : a.moveImm i imm = .ok b) :
    Sim ops m0 b (Function.update value i (some (BitVec.ofInt (8 * n) imm.toInt))) ∅ :=
  sim_setImm sim (fun _ _ => ops.mov _ _) done

/-- Adding a number and subtracting its opposite are the same, unless the opposite is no `int`. -/
theorem binary_addImm (old : BitVec (8 * n)) {imm : BitVec 32} (opposite : imm ≠ BitVec.intMin 32) :
    ops.binary (if imm.slt 0 then "sub" else "add") old
      (BitVec.ofInt (8 * n) (if imm.slt 0 then (-imm).toInt else imm.toInt)) =
        old + BitVec.ofInt (8 * n) imm.toInt := by
  by_cases negative : imm.slt 0 = true
  · rw [if_pos negative, if_pos negative, ops.sub, BitVec.toInt_neg_of_ne_intMin opposite, BitVec.ofInt_neg,
      BitVec.sub_eq_add_neg, BitVec.neg_neg]
  · rw [if_neg negative, if_neg negative, ops.add]

theorem sim_addImm {imm : BitVec 32} (sim : Sim ops m0 a value ∅) (valued : value i = some x)
    (loads : (a.regs i).isTemp = true ∨ (a.regs i).realReg ≠ none) (opposite : imm ≠ BitVec.intMin 32)
    (done : a.addImm i imm = .ok b) :
    Sim ops m0 b (Function.update value i (some (x + BitVec.ofInt (8 * n) imm.toInt))) ∅ := by
  refine sim_setImm sim (fun old same => ?_) done
  rw [binary_addImm old opposite, same loads x valued]

/-! ### Programs -/

/-- The call does not read a word that it reserves a register for: `add_imm` finds its word in a register, and so
does a `move` of a word to itself. The number that is added has an opposite. -/
def Loads (a : Allocator) : RegOp → Prop
  | .addImm reg imm =>
      ((a.regs reg).isTemp = true ∨ (a.regs reg).realReg ≠ none) ∧ imm ≠ BitVec.intMin 32
  | .move dest src => dest = src → (a.regs dest).isTemp = true ∨ (a.regs dest).realReg ≠ none
  | _ => True

/-- Every call of a program up to the one that stops the generator does. -/
def LoadsAlong (a : Allocator) : List RegOp → Prop
  | [] => True
  | op :: rest => a.Loads op ∧ ∀ b, a.step op = .ok b → b.LoadsAlong rest

/-- What the emitted instructions leave behind. -/
structure Realizes (ops : Opcodes n) (m0 : Machine n) (a : Allocator) (value : Nat → Option (BitVec (8 * n))) :
    Prop where
  registers : ∀ i r v, (a.regs i).realReg = some r → value i = some v → (a.machine ops m0).regs r = v
  slots : ∀ i v, (a.regs i).realReg = none → value i = some v →
    ∃ slot, a.home i = some slot ∧ Machine.word (a.machine ops m0).mem (m0.address slot.1 slot.2) = v
  exclusive : ∀ i j r, (a.regs i).realReg = some r → (a.regs j).realReg = some r → i = j

/-- At every point of a program whose calls have a result on the ideal machine, up to the one that stops the
generator, the emitted instructions leave the values of the ideal machine behind. -/
def Follows (ops : Opcodes n) (m0 : Machine n) (a : Allocator) (value : Nat → Option (BitVec (8 * n))) :
    List RegOp → Prop
  | [] => a.Realizes ops m0 value
  | op :: rest => a.Realizes ops m0 value ∧
      ∀ next b, idealStep ops value op = some next → a.step op = .ok b → b.Follows ops m0 next rest

theorem realizes_of_sim (sim : Sim ops m0 a value ∅) : a.Realizes ops m0 value where
  registers := fun i r v real valued => regs_eq sim real (Set.notMem_empty i) valued
  slots := by
    intro i v off valued
    cases word : a.home i with
    | none =>
        rw [sim.holds.homeless i (slots_homeless word _) off] at valued
        cases valued
    | some slot => exact ⟨slot, rfl, sim.holds.stored i _ v (slots_home word _) (Or.inl off) valued⟩
  exclusive := sim.holds.exclusive

theorem changeValue_eq {change : BitVec (8 * n) → BitVec (8 * n)} (defined : changeValue value i change = some next) :
    ∃ x, value i = some x ∧ next = Function.update value i (some (change x)) := by
  obtain ⟨x, valued, equal⟩ := Option.bind_eq_some_iff.mp defined
  exact ⟨x, valued, (Option.some.inj equal).symm⟩

/-- One call. -/
theorem sim_step {op : RegOp} (sim : Sim ops m0 a value ∅) (loads : a.Loads op)
    (defined : idealStep ops value op = some next) (done : a.step op = .ok b) : Sim ops m0 b next ∅ := by
  cases op with
  | live reg =>
      obtain rfl := Option.some.inj defined
      exact sim_live_settled sim done
  | binop name reg1 reg2 =>
      obtain ⟨y, second, rest⟩ := Option.bind_eq_some_iff.mp defined
      obtain ⟨x, first, rfl⟩ := changeValue_eq rest
      exact sim_binop sim first second done
  | unop name reg =>
      obtain ⟨x, valued, rfl⟩ := changeValue_eq defined
      exact sim_unop sim valued done
  | ror dest shift =>
      obtain ⟨x, valued, rfl⟩ := changeValue_eq defined
      exact sim_changeImm sim valued done
  | shl dest shift =>
      obtain ⟨x, valued, rfl⟩ := changeValue_eq defined
      exact sim_changeImm sim valued done
  | shr dest shift =>
      obtain ⟨x, valued, rfl⟩ := changeValue_eq defined
      exact sim_changeImm sim valued done
  | xorRc reg rc =>
      obtain ⟨x, valued, rfl⟩ := changeValue_eq defined
      exact sim_changeImm sim valued done
  | move dest src =>
      obtain ⟨x, valued, equal⟩ := Option.bind_eq_some_iff.mp defined
      obtain rfl := Option.some.inj equal
      exact sim_move sim valued loads done
  | moveImm dest imm =>
      obtain rfl := Option.some.inj defined
      exact sim_moveImm sim done
  | addImm reg imm =>
      obtain ⟨x, valued, rfl⟩ := changeValue_eq defined
      exact sim_addImm sim valued loads.1 loads.2 done
  | spill reg =>
      obtain rfl := Option.some.inj defined
      exact sim_spill sim done
  | acquire reg =>
      obtain rfl := Option.some.inj defined
      exact sim_acquire sim done
  | release reg =>
      obtain rfl := Option.some.inj defined
      exact (sim_release sim done).2
  | pin reg =>
      obtain rfl := Option.some.inj defined
      exact Except.ok.inj done ▸ sim_pin sim reg
  | unpin reg =>
      obtain rfl := Option.some.inj defined
      exact Except.ok.inj done ▸ sim_unpin sim reg

/-- A program. -/
theorem follows_of_sim (sim : Sim ops m0 a value ∅) {program : List RegOp} (loads : a.LoadsAlong program) :
    a.Follows ops m0 value program := by
  induction program generalizing a value with
  | nil => exact realizes_of_sim sim
  | cons op rest ih =>
      refine ⟨realizes_of_sim sim, fun next b defined done => ?_⟩
      exact ih (sim_step sim loads.1 defined done) (loads.2 b done)

/-! ### Start -/

/-- The logical registers that are declared so far: none of them is in a machine register. -/
structure Declared (setup : X86Setup n) (count : Nat) (a : Allocator) : Prop where
  regList : a.regList = setup.regList
  stateReg : a.stateReg = setup.stateReg
  stackReg : a.stackReg = setup.stackReg
  insns : a.insns = []
  numRegs : a.numRegs = count
  realReg : ∀ i, (a.regs i).realReg = none
  isDirty : ∀ i, (a.regs i).isDirty = false
  home : ∀ i, a.home i = if i < count then setup.home i else none
  temps : ∀ i, (a.regs i).isTemp = true → a.home i = none

theorem allocLogical_eq {function : String} {reg : Reg} (done : a.allocLogical function reg = .ok b) :
    b = { a with
      regs := Function.update a.regs a.numRegs { reg with age := a.age }
      numRegs := a.numRegs + 1
      age := a.age + 1 } := by
  rw [allocLogical] at done
  split at done
  · cases done
  · exact (Except.ok.inj done).symm

/-- One declaration. -/
theorem declared_step {setup : X86Setup n} {count : Nat} {d : RegDecl} (declared : Declared setup count a)
    (next : setup.decls[count]? = some d) (done : a.declare d = .ok b) : Declared setup (count + 1) b := by
  -- what the three kinds of logical registers have in common.
  obtain ⟨function, reg, allocated, real, dirty, word, temp⟩ : ∃ function reg,
      a.allocLogical function reg = .ok b ∧ reg.realReg = none ∧ reg.isDirty = false ∧
        reg.home setup.stateReg setup.stackReg = d.home setup.stateReg setup.stackReg ∧
        (reg.isTemp = true → d.home setup.stateReg setup.stackReg = none) := by
    cases d with
    | state name offset => exact ⟨_, _, done, rfl, rfl, rfl, nofun⟩
    | stack name offset => exact ⟨_, _, done, rfl, rfl, rfl, nofun⟩
    | temp name => exact ⟨_, _, done, rfl, rfl, rfl, fun _ => rfl⟩
  have home_count : setup.home count = d.home setup.stateReg setup.stackReg := by
    rw [X86Setup.home, next]
    rfl
  obtain rfl := allocLogical_eq allocated
  have grown : ∀ j, Function.update a.regs a.numRegs { reg with age := a.age } j =
      if j = count then { reg with age := a.age } else a.regs j := by
    intro j
    rw [declared.numRegs]
    exact Function.update_apply ..
  have home_self : ∀ j, j = count →
      home { a with
        regs := Function.update a.regs a.numRegs { reg with age := a.age }
        numRegs := a.numRegs + 1
        age := a.age + 1 } j = setup.home j := by
    intro j here
    rw [here, home_count, ← word]
    simp only [home, grown, if_pos, declared.stateReg, declared.stackReg, Reg.home]
  have home_other : ∀ j, j ≠ count →
      home { a with
        regs := Function.update a.regs a.numRegs { reg with age := a.age }
        numRegs := a.numRegs + 1
        age := a.age + 1 } j = a.home j := by
    intro j apart
    simp only [home, grown, if_neg apart]
  refine ⟨declared.regList, declared.stateReg, declared.stackReg, declared.insns, ?_, ?_, ?_, ?_, ?_⟩
  · exact congrArg (· + 1) declared.numRegs
  · intro j
    show (Function.update a.regs a.numRegs _ j).realReg = none
    rw [grown]
    split
    · exact real
    · exact declared.realReg j
  · intro j
    show (Function.update a.regs a.numRegs _ j).isDirty = false
    rw [grown]
    split
    · exact dirty
    · exact declared.isDirty j
  · intro j
    by_cases here : j = count
    · rw [home_self j here, if_pos (by omega)]
    · rw [home_other j here, declared.home j]
      by_cases before : j < count
      · rw [if_pos before, if_pos (by omega)]
      · rw [if_neg before, if_neg (by omega)]
  · intro j isTemp
    by_cases here : j = count
    · have temporary : (Function.update a.regs a.numRegs { reg with age := a.age } j).isTemp = true := isTemp
      rw [grown, if_pos here] at temporary
      rw [home_self j here, here, home_count]
      exact temp temporary
    · have temporary : (Function.update a.regs a.numRegs { reg with age := a.age } j).isTemp = true := isTemp
      rw [grown, if_neg here] at temporary
      rw [home_other j here]
      exact declared.temps j temporary

/-- The declarations, from a point on. -/
theorem declared_fold {setup : X86Setup n} {front rest : List RegDecl} (split : setup.decls = front ++ rest)
    (declared : Declared setup front.length a) (done : rest.foldlM declare a = .ok b) :
    Declared setup setup.decls.length b := by
  induction rest generalizing front a with
  | nil =>
      rw [split, List.append_nil]
      rw [← Except.ok.inj done]
      exact declared
  | cons d rest ih =>
      obtain ⟨c, first, later⟩ := bind_eq_ok done
      have next : setup.decls[front.length]? = some d := by
        rw [split, List.getElem?_append_right (Nat.le_refl _), Nat.sub_self]
        rfl
      have step := declared_step declared next first
      have split' : setup.decls = (front ++ [d]) ++ rest := by
        rw [split, List.append_assoc]
        rfl
      exact ih split' (by rw [List.length_append]; exact step) later

theorem declared_of_setup (setup : X86Setup n) {age : BitVec 64} (done : setup.declared age = .ok a) :
    Declared setup setup.decls.length a := by
  have start : Declared setup 0 (Allocator.start setup.regList setup.stateReg setup.stackReg age) := by
    refine ⟨rfl, rfl, rfl, rfl, rfl, fun _ => rfl, fun _ => rfl, fun j => ?_, nofun⟩
    rw [if_neg (Nat.not_lt_zero j)]
    rfl
  exact declared_fold (List.nil_append _).symm start done

theorem home_of_setup (setup : X86Setup n) {age : BitVec 64} (done : setup.declared age = .ok a) :
    a.home = setup.home := by
  funext j
  rw [(declared_of_setup setup done).home j]
  by_cases inside : j < setup.decls.length
  · rw [if_pos inside]
  · rw [if_neg inside, X86Setup.home, List.getElem?_eq_none (Nat.le_of_not_lt inside)]
    rfl

theorem sim_start (ops : Opcodes n) (setup : X86Setup n) {age : BitVec 64} (done : setup.declared age = .ok a) :
    Sim ops setup.machine a setup.values ∅ := by
  have declared := declared_of_setup setup done
  have home_eq := home_of_setup setup done
  have machine_eq : a.machine ops setup.machine = setup.machine := by
    rw [machine, declared.insns]
    rfl
  have off : ∀ i, (view setup.machine a (a.machine ops setup.machine)).place i = none := declared.realReg
  refine ⟨⟨?_, ?_, ?_, ?_, declared.temps⟩, ⟨?_, ?_, ?_, ?_, ?_⟩, ?_, ?_⟩
  · rw [declared.regList]
    exact setup.nodup
  · rw [declared.regList, declared.stateReg]
    exact setup.statePointer
  · rw [declared.regList, declared.stackReg]
    exact setup.stackPointer
  · rw [home_eq]
    exact setup.apart
  · intro i j r placed
    rw [off i] at placed
    cases placed
  · intro i r w placed
    rw [off i] at placed
    cases placed
  · intro i s w slot _ valued
    rw [machine_eq] at slot
    simp only [view, home_eq] at slot
    exact Option.some.inj (slot.symm.trans valued)
  · intro i slot _
    rw [machine_eq] at slot
    simp only [view, home_eq] at slot
    exact slot
  · intro i s _ _
    exact declared.isDirty i
  · intro i r placed
    rw [declared.realReg i] at placed
    cases placed
  · intro ptr _
    rw [machine_eq]

end Allocator

/-- Register allocation keeps the values of a program, as long as no call reads a word that it only reserves a
register for. -/
theorem x86_registers_keep_values {n : Nat} (ops : Opcodes n) (setup : X86Setup n) (age : BitVec 64)
    (program : List RegOp) : ∀ a, setup.declared age = .ok a → a.LoadsAlong program →
      a.Follows ops setup.machine setup.values program :=
  fun _ declared loads => Allocator.follows_of_sim (Allocator.sim_start ops setup declared) loads

/-- Two words of a state at address zero and one machine register, which holds a number at the start. -/
def twoWords (held : BitVec 64) : X86Setup 8 where
  regList := ["rax"]
  nodup := by decide
  bounded := by decide
  stateReg := "rdi"
  stackReg := "rsp"
  statePointer := by decide
  stackPointer := by decide
  decls := [.state "x0" 0, .state "x1" 8]
  machine := ⟨fun r => if r = "rax" then held else 0, fun _ => 0⟩
  apart := by
    rintro (_ | _ | i) (_ | _ | j) s t apart first second
    · exact absurd rfl apart
    · rw [← Option.some.inj first, ← Option.some.inj second]
      exact Or.inl (Nat.le_refl 8)
    · cases second
    · rw [← Option.some.inj first, ← Option.some.inj second]
      exact Or.inr (Nat.le_refl 8)
    · exact absurd rfl apart
    · cases second
    · cases first
    · cases first
    · cases first

/-- The words take turns in the register. -/
theorem x86_two_words_keep_values : ∃ a, (twoWords 5).declared 0 = .ok a ∧
    a.Follows (x86Opcodes 8) (twoWords 5).machine (twoWords 5).values
      [.moveImm 0 7, .addImm 0 1, .moveImm 1 6, .live 0] := by
  refine ⟨_, rfl, x86_registers_keep_values _ (twoWords 5) 0 _ _ rfl ⟨trivial, fun b done => ?_⟩⟩
  obtain rfl := Except.ok.inj done
  refine ⟨⟨Or.inr nofun, by decide⟩, fun c _ => ⟨trivial, fun d _ => ⟨trivial, fun _ _ => trivial⟩⟩⟩

/-- `add_imm` of a word that is in no register adds to what the register happens to hold. -/
theorem x86_add_imm_does_not_load : ¬ ∀ a, (twoWords 5).declared 0 = .ok a →
    a.Follows (x86Opcodes 8) (twoWords 5).machine (twoWords 5).values [.addImm 0 1] := by
  intro follows
  have added := (follows _ rfl).2 _ _ rfl rfl
  have held : (6 : BitVec 64) = 1 := added.registers 0 "rax" 1 rfl rfl
  exact absurd held (by decide)

end AsconSuite
