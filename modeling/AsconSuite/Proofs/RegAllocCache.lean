/-
Module: AsconSuite.Proofs.RegAllocCache
Layer: Proofs
Purpose: The register allocator as a cache of words: what its functions do to the machine registers that the logical
  registers hold, and to the words in memory once the emitted instructions have run.
Imports: AsconSuite.Base.EmitLogic, AsconSuite.Base.RegisterCache, AsconSuite.Tools.X86Common
Trusted boundary: none
Main exports: Allocator.view, Allocator.Layout, Allocator.Sim, sim_spill, sim_allocateOrReclaim, sim_liveNoload,
  sim_live, sim_acquire, sim_release, sim_write
-/
import AsconSuite.Base.EmitLogic
import AsconSuite.Base.RegisterCache
import AsconSuite.Tools.X86Common

namespace AsconSuite

open ByteWord ByteMemory RegisterCache
open Emit (bind_eq_ok)

/-! ### Words in memory -/

namespace Machine

theorem length_littleBytes (count number : Nat) : (littleBytes count number).length = count := by
  induction count generalizing number with
  | zero => rfl
  | succ count ih => rw [littleBytes, List.length_cons, ih]

theorem littleEndian_littleBytes (count number : Nat) :
    littleEndian (littleBytes count number) = number % 256 ^ count := by
  induction count generalizing number with
  | zero => rw [Nat.pow_zero, Nat.mod_one]; rfl
  | succ count ih =>
      have byte_eq : (BitVec.ofNat 8 number).toNat = number % 256 := BitVec.toNat_ofNat number 8
      rw [littleBytes, littleEndian, ih, byte_eq, Nat.pow_succ', Nat.mod_mul]

variable {n : Nat}

theorem word_write (mem : Mem) (p : Nat) (w : BitVec (8 * n)) :
    word (mem.write p (littleBytes n w.toNat)) p = w := by
  have bound : w.toNat < 256 ^ n := by
    have lt := w.isLt
    rw [Nat.pow_mul] at lt
    exact lt
  rw [word, read_write_of_length (length_littleBytes n _), littleEndian_littleBytes, Nat.mod_eq_of_lt bound,
    BitVec.ofNat_toNat, BitVec.setWidth_eq]

theorem word_write_apart (mem : Mem) {p q : Nat} (w : BitVec (8 * n)) (apart : q + n ≤ p ∨ p + n ≤ q) :
    (word (mem.write p (littleBytes n w.toNat)) q : BitVec (8 * n)) = word mem q := by
  rw [word, word, read_write_apart]
  rw [length_littleBytes]
  exact apart

end Machine

/-! ### The cache -/

namespace Allocator

variable {n : Nat}

/-- The allocator and the machine as a cache. The slots are where the pointers of `m0` say. -/
def view (m0 : Machine n) (a : Allocator) (m : Machine n) : Cache Nat String (BitVec (8 * n)) where
  place := fun i => (a.regs i).realReg
  dirty := fun i => (a.regs i).isDirty
  regs := m.regs
  slots := fun i => (a.home i).map fun slot => Machine.word m.mem (m0.address slot.1 slot.2)

/-- The machine after the instructions that have been emitted. -/
def machine (ops : Opcodes n) (m0 : Machine n) (a : Allocator) : Machine n := Machine.run ops m0 a.insns

/-- What stays the same from call to call: no machine register is listed twice, the pointers are not in the list,
and no two words have a byte in common. -/
structure Layout (m0 : Machine n) (a : Allocator) : Prop where
  nodup : a.regList.Nodup
  statePointer : a.stateReg ∉ a.regList
  stackPointer : a.stackReg ∉ a.regList
  apart : ∀ i j s t, i ≠ j → a.home i = some s → a.home j = some t →
    m0.address s.1 s.2 + n ≤ m0.address t.1 t.2 ∨ m0.address t.1 t.2 + n ≤ m0.address s.1 s.2
  temps : ∀ i, (a.regs i).isTemp = true → a.home i = none

/-- The logical registers have these values. -/
structure Sim (ops : Opcodes n) (m0 : Machine n) (a : Allocator) (value : Nat → Option (BitVec (8 * n)))
    (pending : Set Nat) : Prop where
  layout : a.Layout m0
  holds : Holds (view m0 a (a.machine ops m0)) value pending
  listed : ∀ i r, (a.regs i).realReg = some r → ∃ k : Nat, a.regList[k]? = some r ∧ a.allocated k = true
  pointers : ∀ ptr, ptr = a.stateReg ∨ ptr = a.stackReg → (a.machine ops m0).regs ptr = m0.regs ptr

/-- Two allocators with the same registers, words and temporaries. -/
structure SameLayout (a b : Allocator) : Prop where
  regList : b.regList = a.regList
  stateReg : b.stateReg = a.stateReg
  stackReg : b.stackReg = a.stackReg
  home : b.home = a.home
  isTemp : ∀ i, (b.regs i).isTemp = (a.regs i).isTemp

theorem Layout.of_same {m0 : Machine n} {a b : Allocator} (layout : a.Layout m0) (same : SameLayout a b) :
    b.Layout m0 where
  nodup := same.regList ▸ layout.nodup
  statePointer := same.regList ▸ same.stateReg ▸ layout.statePointer
  stackPointer := same.regList ▸ same.stackReg ▸ layout.stackPointer
  apart := same.home ▸ layout.apart
  temps := fun i temp => by
    rw [same.home]
    exact layout.temps i (same.isTemp i ▸ temp)

/-! ### Assignments -/

theorem modify_same (a : Allocator) (i : Nat) (change : Reg → Reg) : (a.modify i change).regs i = change (a.regs i) :=
  Function.update_self ..

theorem modify_other (a : Allocator) {i j : Nat} (change : Reg → Reg) (apart : j ≠ i) :
    (a.modify i change).regs j = a.regs j := Function.update_of_ne apart ..

/-- A field that a change leaves alone. -/
theorem modify_field {β : Type} (field : Reg → β) (a : Allocator) (i : Nat) (change : Reg → Reg)
    (keeps : ∀ reg, field (change reg) = field reg) (j : Nat) :
    field ((a.modify i change).regs j) = field (a.regs j) := by
  by_cases here : j = i
  · rw [here, modify_same, keeps]
  · rw [modify_other a change here]

/-- A field that a change sets. -/
theorem modify_set {β : Type} (field : Reg → β) (a : Allocator) (i : Nat) {change : Reg → Reg} {x : β}
    (sets : ∀ reg, field (change reg) = x) :
    (fun j => field ((a.modify i change).regs j)) = Function.update (fun j => field (a.regs j)) i x := by
  funext j
  by_cases here : j = i
  · rw [here, modify_same, sets, Function.update_self]
  · rw [modify_other a change here, Function.update_of_ne here]

theorem sameLayout_modify (a : Allocator) (i : Nat) {change : Reg → Reg}
    (state : ∀ reg, (change reg).stateOffset = reg.stateOffset)
    (stack : ∀ reg, (change reg).stackOffset = reg.stackOffset)
    (temp : ∀ reg, (change reg).isTemp = reg.isTemp) : SameLayout a (a.modify i change) where
  regList := rfl
  stateReg := rfl
  stackReg := rfl
  home := by
    funext j
    rw [home, home, Reg.home, Reg.home, modify_field Reg.stateOffset a i change state j, modify_field Reg.stackOffset a i change stack j]
    rfl
  isTemp := modify_field Reg.isTemp a i change temp

theorem sameLayout_setRealReg (a : Allocator) (i : Nat) (r : Option String) : SameLayout a (a.setRealReg i r) :=
  sameLayout_modify a i (fun _ => rfl) (fun _ => rfl) fun _ => rfl

theorem sameLayout_setDirty (a : Allocator) (i : Nat) (d : Bool) : SameLayout a (a.setDirty i d) :=
  sameLayout_modify a i (fun _ => rfl) (fun _ => rfl) fun _ => rfl

theorem setDirty_realReg (a : Allocator) (i : Nat) (d : Bool) (j : Nat) :
    ((a.setDirty i d).regs j).realReg = (a.regs j).realReg :=
  modify_field Reg.realReg a i (fun reg => { reg with isDirty := d }) (fun _ => rfl) j

theorem setRealReg_isDirty (a : Allocator) (i : Nat) (r : Option String) (j : Nat) :
    ((a.setRealReg i r).regs j).isDirty = (a.regs j).isDirty :=
  modify_field Reg.isDirty a i (fun reg => { reg with realReg := r }) (fun _ => rfl) j

theorem setRealReg_self (a : Allocator) (i : Nat) (r : Option String) : ((a.setRealReg i r).regs i).realReg = r := by
  rw [setRealReg, modify_same]

/-- The two assignments may come in either order. -/
theorem setDirty_setRealReg (a : Allocator) (i : Nat) (d : Bool) (r : Option String) :
    (a.setRealReg i r).setDirty i d = (a.setDirty i d).setRealReg i r := by
  simp only [setRealReg, setDirty, modify, Function.update_self, Function.update_idem]

theorem view_setRealReg (m0 : Machine n) (a : Allocator) (m : Machine n) (i : Nat) (r : Option String) :
    view m0 (a.setRealReg i r) m =
      { view m0 a m with place := Function.update (view m0 a m).place i r } := by
  have place : (view m0 (a.setRealReg i r) m).place = Function.update (view m0 a m).place i r :=
    modify_set Reg.realReg a i fun _ => rfl
  have dirty : (view m0 (a.setRealReg i r) m).dirty = (view m0 a m).dirty :=
    funext (setRealReg_isDirty a i r)
  have slots : (view m0 (a.setRealReg i r) m).slots = (view m0 a m).slots := by
    simp only [view, (sameLayout_setRealReg a i r).home]
  exact Cache.ext place dirty rfl slots

theorem view_setDirty (m0 : Machine n) (a : Allocator) (m : Machine n) (i : Nat) (d : Bool) :
    view m0 (a.setDirty i d) m =
      { view m0 a m with dirty := Function.update (view m0 a m).dirty i d } := by
  have place : (view m0 (a.setDirty i d) m).place = (view m0 a m).place :=
    funext (setDirty_realReg a i d)
  have dirty : (view m0 (a.setDirty i d) m).dirty = Function.update (view m0 a m).dirty i d :=
    modify_set Reg.isDirty a i fun _ => rfl
  have slots : (view m0 (a.setDirty i d) m).slots = (view m0 a m).slots := by
    simp only [view, (sameLayout_setDirty a i d).home]
  exact Cache.ext place dirty rfl slots

section

variable {ops : Opcodes n} {m0 : Machine n} {a b : Allocator} {value : Nat → Option (BitVec (8 * n))}
  {pending : Set Nat} {i : Nat} {r : String}

/-- A change of what the cache does not see. -/
theorem sim_modify (sim : Sim ops m0 a value pending) (i : Nat) (change : Reg → Reg)
    (real : ∀ reg, (change reg).realReg = reg.realReg) (dirty : ∀ reg, (change reg).isDirty = reg.isDirty)
    (state : ∀ reg, (change reg).stateOffset = reg.stateOffset)
    (stack : ∀ reg, (change reg).stackOffset = reg.stackOffset)
    (temp : ∀ reg, (change reg).isTemp = reg.isTemp) : Sim ops m0 (a.modify i change) value pending := by
  have same := sameLayout_modify a i state stack temp
  have unseen : view m0 (a.modify i change) (a.machine ops m0) = view m0 a (a.machine ops m0) := by
    have place := modify_field Reg.realReg a i change real
    have unsaved := modify_field Reg.isDirty a i change dirty
    simp only [view, place, unsaved, same.home]
  refine ⟨sim.layout.of_same same, ?_, ?_, sim.pointers⟩
  · show Holds (view m0 (a.modify i change) (a.machine ops m0)) value pending
    rw [unseen]
    exact sim.holds
  · intro j t placed
    rw [modify_field Reg.realReg a i change real j] at placed
    exact sim.listed j t placed

/-- The counter is not seen. -/
theorem sim_age (sim : Sim ops m0 a value pending) (age : BitVec 64) :
    Sim ops m0 { a with age := age } value pending :=
  ⟨⟨sim.layout.nodup, sim.layout.statePointer, sim.layout.stackPointer, sim.layout.apart, sim.layout.temps⟩,
    sim.holds, sim.listed, sim.pointers⟩

theorem sim_touch (sim : Sim ops m0 a value pending) (i : Nat) : Sim ops m0 (a.touch i) value pending :=
  sim_age (sim_modify sim i (fun reg => { reg with age := a.age }) (fun _ => rfl) (fun _ => rfl) (fun _ => rfl) (fun _ => rfl) fun _ => rfl) _

theorem sim_pin (sim : Sim ops m0 a value pending) (i : Nat) : Sim ops m0 (a.pin i) value pending :=
  sim_modify sim i _ (fun _ => rfl) (fun _ => rfl) (fun _ => rfl) (fun _ => rfl) fun _ => rfl

theorem sim_unpin (sim : Sim ops m0 a value pending) (i : Nat) : Sim ops m0 (a.unpin i) value pending :=
  sim_modify sim i _ (fun _ => rfl) (fun _ => rfl) (fun _ => rfl) (fun _ => rfl) fun _ => rfl

/-! ### Machine registers -/

theorem tryAllocateReg_eq {allocation : String × Allocator} (done : a.tryAllocateReg = some allocation) :
    ∃ k : Nat, a.regList[k]? = some allocation.1 ∧ a.allocated k = false ∧
      allocation.2 = { a with allocated := Function.update a.allocated k true } := by
  rw [tryAllocateReg] at done
  cases found : (List.range a.regList.length).find? fun index => !a.allocated index with
  | none =>
      rw [found] at done
      cases done
  | some k =>
      rw [found] at done
      obtain ⟨reg, listed, equal⟩ := Option.map_eq_some_iff.mp done
      have unused : (!a.allocated k) = true := List.find?_some (p := fun index => !a.allocated index) found
      rw [← equal]
      exact ⟨k, listed, Bool.not_eq_true' _ |>.mp unused, rfl⟩

theorem releaseReg_eq {name : String} (done : a.releaseReg name r = .ok b) :
    ∃ k : Nat, a.regList[k]? = some r ∧ b = { a with allocated := Function.update a.allocated k false } := by
  rw [releaseReg] at done
  cases found : a.regList.findIdx? (· == r) with
  | none =>
      rw [found] at done
      cases done
  | some k =>
      rw [found] at done
      obtain ⟨inside, equal, _⟩ := List.findIdx?_eq_some_iff_getElem.mp found
      have listed : a.regList[k]? = some r := by
        rw [List.getElem?_eq_getElem inside, eq_of_beq equal]
      by_cases used : a.allocated k = true
      · simp only [used, if_true] at done
        exact ⟨k, listed, (Except.ok.inj done).symm⟩
      · simp only [used] at done
        cases done

/-- A machine register is at one place of the list. -/
theorem index_unique (layout : a.Layout m0) {j k : Nat} (first : a.regList[j]? = some r)
    (second : a.regList[k]? = some r) : j = k := by
  obtain ⟨inside, rfl⟩ := List.getElem?_eq_some_iff.mp first
  exact (List.getElem?_inj inside layout.nodup).mp (first.trans second.symm)

/-- A machine register that is not allocated is held by no logical register. -/
theorem free_of_not_allocated (sim : Sim ops m0 a value pending) {k : Nat} (listed : a.regList[k]? = some r)
    (unused : a.allocated k = false) (j : Nat) : (a.regs j).realReg ≠ some r := by
  intro placed
  obtain ⟨l, same, used⟩ := sim.listed j r placed
  rw [index_unique sim.layout same listed, unused] at used
  cases used

/-- A logical register takes a machine register that is not allocated. -/
theorem sim_place {waiting : Set Nat} (sim : Sim ops m0 a value pending) {k : Nat} (listed : a.regList[k]? = some r)
    (holds : Holds { view m0 a (a.machine ops m0) with
      place := Function.update (view m0 a (a.machine ops m0)).place i (some r) } value waiting) :
    Sim ops m0 ({ a with allocated := Function.update a.allocated k true }.setRealReg i (some r)) value waiting := by
  have same : SameLayout a ({ a with allocated := Function.update a.allocated k true }.setRealReg i (some r)) :=
    ⟨rfl, rfl, rfl, (sameLayout_setRealReg _ i _).home, (sameLayout_setRealReg _ i _).isTemp⟩
  refine ⟨sim.layout.of_same same, ?_, ?_, sim.pointers⟩
  · show Holds (view m0 (setRealReg _ i (some r)) (a.machine ops m0)) value waiting
    rw [view_setRealReg]
    exact holds
  · intro j t placed
    show ∃ l : Nat, a.regList[l]? = some t ∧ Function.update a.allocated k true l = true
    by_cases here : j = i
    · rw [here, setRealReg, modify_same] at placed
      rw [← Option.some.inj placed]
      exact ⟨k, listed, Function.update_self ..⟩
    · rw [setRealReg, modify_other _ _ here] at placed
      obtain ⟨l, found, used⟩ := sim.listed j t placed
      refine ⟨l, found, ?_⟩
      by_cases equal : l = k
      · rw [equal, Function.update_self]
      · rw [Function.update_of_ne equal]
        exact used

/-- A logical register gives its machine register back. -/
theorem sim_displace {after : Nat → Option (BitVec (8 * n))} (sim : Sim ops m0 a value pending)
    (placed : (a.regs i).realReg = some r) {k : Nat} (listed : a.regList[k]? = some r)
    (holds : Holds { view m0 a (a.machine ops m0) with
      place := Function.update (view m0 a (a.machine ops m0)).place i none } after pending) :
    Sim ops m0 ({ a with allocated := Function.update a.allocated k false }.setRealReg i none) after pending := by
  have same : SameLayout a ({ a with allocated := Function.update a.allocated k false }.setRealReg i none) :=
    ⟨rfl, rfl, rfl, (sameLayout_setRealReg _ i _).home, (sameLayout_setRealReg _ i _).isTemp⟩
  refine ⟨sim.layout.of_same same, ?_, ?_, sim.pointers⟩
  · show Holds (view m0 (setRealReg _ i none) (a.machine ops m0)) after pending
    rw [view_setRealReg]
    exact holds
  · intro j t placed'
    show ∃ l : Nat, a.regList[l]? = some t ∧ Function.update a.allocated k false l = true
    have apart : j ≠ i := by
      rintro rfl
      rw [setRealReg, modify_same] at placed'
      cases placed'
    rw [setRealReg, modify_other _ _ apart] at placed'
    obtain ⟨l, found, used⟩ := sim.listed j t placed'
    refine ⟨l, found, ?_⟩
    rw [Function.update_of_ne, used]
    -- the register at `k` is held by `i` only.
    rintro rfl
    obtain rfl : t = r := Option.some.inj (found.symm.trans listed)
    exact apart (sim.holds.exclusive j i t placed' placed)

/-! ### Instructions -/

theorem machine_addInsn (insn : Insn) : (a.addInsn insn).machine ops m0 = (a.machine ops m0).exec ops insn := by
  rw [machine, machine, addInsn, Machine.run, Machine.run, List.foldl_append]
  rfl

/-- The pointers are where they were. -/
theorem address_home (sim : Sim ops m0 a value pending) {slot : String × Nat} (word : a.home i = some slot) :
    (a.machine ops m0).address slot.1 slot.2 = m0.address slot.1 slot.2 := by
  have pointer : slot.1 = a.stateReg ∨ slot.1 = a.stackReg := by
    rw [home, Reg.home] at word
    cases state : (a.regs i).stateOffset with
    | some offset =>
        rw [state] at word
        exact Or.inl (congrArg Prod.fst (Option.some.inj word)).symm
    | none =>
        rw [state] at word
        obtain ⟨offset, _, equal⟩ := Option.map_eq_some_iff.mp word
        exact Or.inr (congrArg Prod.fst equal).symm
  rw [Machine.address, Machine.address, sim.pointers slot.1 pointer]

/-- A register in use is no pointer. -/
theorem pointers_update (sim : Sim ops m0 a value pending) (placed : (a.regs i).realReg = some r)
    (v : BitVec (8 * n)) (ptr : String) (pointer : ptr = a.stateReg ∨ ptr = a.stackReg) :
    Function.update (a.machine ops m0).regs r v ptr = m0.regs ptr := by
  obtain ⟨k, listed, _⟩ := sim.listed i r placed
  have member := List.mem_of_getElem? listed
  have apart : ptr ≠ r := by
    rintro rfl
    rcases pointer with rfl | rfl
    · exact sim.layout.statePointer member
    · exact sim.layout.stackPointer member
  rw [Function.update_of_ne apart]
  exact sim.pointers ptr pointer

/-- An instruction, after which a logical register is dirty or clean. -/
theorem sim_exec {after : Nat → Option (BitVec (8 * n))} {waiting : Set Nat} (sim : Sim ops m0 a value pending)
    {insn : Insn} {m : Machine n} {d : Bool} (executed : (a.machine ops m0).exec ops insn = m)
    (holds : Holds { view m0 a m with dirty := Function.update (view m0 a m).dirty i d } after waiting)
    (pointers : ∀ ptr, ptr = a.stateReg ∨ ptr = a.stackReg → m.regs ptr = m0.regs ptr) :
    Sim ops m0 ((a.addInsn insn).setDirty i d) after waiting := by
  have machine_eq : ((a.addInsn insn).setDirty i d).machine ops m0 = m :=
    (machine_addInsn insn).trans executed
  have same : SameLayout a ((a.addInsn insn).setDirty i d) :=
    ⟨rfl, rfl, rfl, (sameLayout_setDirty _ i d).home, (sameLayout_setDirty _ i d).isTemp⟩
  refine ⟨sim.layout.of_same same, ?_, ?_, ?_⟩
  · rw [machine_eq, view_setDirty]
    exact holds
  · intro j t placed
    exact sim.listed j t ((setDirty_realReg (a.addInsn insn) i d j).symm.trans placed)
  · rw [machine_eq]
    exact pointers

/-- A slot of a word, as the cache sees it. -/
theorem slots_home {slot : String × Nat} (word : a.home i = some slot) (m : Machine n) :
    (view m0 a m).slots i = some (Machine.word m.mem (m0.address slot.1 slot.2)) := by
  simp only [view, word, Option.map_some]

/-- A word is loaded. -/
theorem sim_load (sim : Sim ops m0 a value pending) (placed : (a.regs i).realReg = some r) {slot : String × Nat}
    (word : a.home i = some slot) (saved : (a.regs i).isDirty = false) :
    Sim ops m0 ((a.loadMachine r slot.1 slot.2).setDirty i false) value (pending \ {i}) := by
  refine sim_exec (m := { a.machine ops m0 with
    regs := Function.update (a.machine ops m0).regs r
      (Machine.word (a.machine ops m0).mem (m0.address slot.1 slot.2)) }) sim ?_ ?_ ?_
  · rw [Machine.exec]
    simp only [if_true, ops.mov, address_home sim word]
  · have filled := sim.holds.fill placed (slots_home word _) saved
    have clean : Function.update (view m0 a (a.machine ops m0)).dirty i false =
        (view m0 a (a.machine ops m0)).dirty := by
      rw [← saved]
      exact Function.update_eq_self i _
    rw [← clean] at filled
    exact filled
  · exact pointers_update sim placed _

/-- A word is stored. -/
theorem sim_store (sim : Sim ops m0 a value pending) (placed : (a.regs i).realReg = some r) {slot : String × Nat}
    (word : a.home i = some slot) (unsaved : (a.regs i).isDirty = true) :
    Sim ops m0 ((a.storeMachine r slot.1 slot.2).setDirty i false) value pending := by
  refine sim_exec (m := { a.machine ops m0 with
    mem := (a.machine ops m0).mem.write (m0.address slot.1 slot.2)
      (Machine.littleBytes n ((a.machine ops m0).regs r).toNat) }) sim ?_ ?_ sim.pointers
  · rw [Machine.exec]
    simp only [if_true, ops.mov, address_home sim word]
    rfl
  · have stored := sim.holds.writeBack placed (slots_home word _) unsaved
    have slots : (view m0 a { a.machine ops m0 with
        mem := (a.machine ops m0).mem.write (m0.address slot.1 slot.2)
          (Machine.littleBytes n ((a.machine ops m0).regs r).toNat) }).slots =
        Function.update (view m0 a (a.machine ops m0)).slots i (some ((a.machine ops m0).regs r)) := by
      funext j
      by_cases here : j = i
      · rw [here, Function.update_self, slots_home word, Machine.word_write]
      · rw [Function.update_of_ne here]
        cases other : a.home j with
        | none => simp only [view, other, Option.map_none]
        | some t =>
            rw [slots_home other, slots_home other,
              Machine.word_write_apart _ _ (sim.layout.apart j i t slot here other word)]
    have same : { view m0 a { a.machine ops m0 with
        mem := (a.machine ops m0).mem.write (m0.address slot.1 slot.2)
          (Machine.littleBytes n ((a.machine ops m0).regs r).toNat) } with
        dirty := Function.update (view m0 a (a.machine ops m0)).dirty i false } =
        { view m0 a (a.machine ops m0) with
          slots := Function.update (view m0 a (a.machine ops m0)).slots i (some ((a.machine ops m0).regs r))
          dirty := Function.update (view m0 a (a.machine ops m0)).dirty i false } := Cache.ext rfl rfl rfl slots
    exact same.symm ▸ stored

/-- A logical register is written. -/
theorem sim_write (sim : Sim ops m0 a value pending) (placed : (a.regs i).realReg = some r) {insn : Insn}
    {v : BitVec (8 * n)} (executed : (a.machine ops m0).exec ops insn =
      { a.machine ops m0 with regs := Function.update (a.machine ops m0).regs r v }) :
    Sim ops m0 ((a.addInsn insn).dirty i) (Function.update value i (some v)) (pending \ {i}) :=
  sim_touch (sim_exec sim executed (sim.holds.write placed v) (pointers_update sim placed v)) i

/-! ### Functions of the allocator -/

/-- A word that is stored, or was never changed, leaves its register. -/
theorem sim_leave (sim : Sim ops m0 a value pending) (placed : (a.regs i).realReg = some r)
    {slot : String × Nat} (word : a.home i = some slot) (saved : (a.regs i).isDirty = false) {k : Nat}
    (listed : a.regList[k]? = some r) :
    Sim ops m0 ({ a with allocated := Function.update a.allocated k false }.setRealReg i none) value pending :=
  sim_displace sim placed listed (sim.holds.drop (slots_home word _) saved)

theorem setDirty_same {d : Bool} (same : (a.regs i).isDirty = d) : a.setDirty i d = a := by
  rw [← same, setDirty, modify]
  exact congrArg (fun regs => { a with regs := regs }) (Function.update_eq_self i a.regs)

theorem sim_spill (sim : Sim ops m0 a value pending) (done : a.spill i = .ok b) : Sim ops m0 b value pending := by
  rw [spill] at done
  cases word : a.home i with
  | none =>
      rw [word] at done
      cases done
  | some slot =>
      simp only [word] at done
      by_cases pinned : (a.regs i).pinned = true
      · rw [if_pos pinned] at done
        rw [← Except.ok.inj done]
        exact sim_touch sim i
      · rw [if_neg pinned] at done
        cases real : (a.regs i).realReg with
        | none =>
            simp only [real] at done
            have saved : (a.regs i).isDirty = false := sim.holds.idle i _ (slots_home word _) (Or.inl real)
            rw [← Except.ok.inj done, setDirty_same saved]
            exact sim
        | some r =>
            simp only [real] at done
            obtain ⟨released, freed, equal⟩ := bind_eq_ok done
            obtain ⟨k, listed, released_eq⟩ := releaseReg_eq freed
            rw [← Except.ok.inj equal, released_eq, setDirty_setRealReg]
            cases unsaved : (a.regs i).isDirty with
            | true =>
                rw [unsaved] at listed
                have stored := sim_store sim real word unsaved
                have saved : (((a.storeMachine r slot.1 slot.2).setDirty i false).regs i).isDirty = false := by
                  rw [setDirty, modify_same]
                exact sim_leave stored ((setDirty_realReg _ i false i).trans real)
                  ((congrFun (sameLayout_setDirty _ i false).home i).trans word) saved listed
            | false =>
                rw [unsaved] at listed
                have left := sim_leave sim real word unsaved listed
                have same : setDirty { a with allocated := Function.update a.allocated k false } i false =
                    { a with allocated := Function.update a.allocated k false } := setDirty_same unsaved
                rw [← same] at left
                exact left

/-- What spilling leaves alone: a logical register that holds no machine register does not get one. -/
structure Frame (a b : Allocator) : Prop where
  same : SameLayout a b
  idle : ∀ j, (a.regs j).realReg = none → (b.regs j).realReg = none

theorem Frame.refl (a : Allocator) : Frame a a := ⟨⟨rfl, rfl, rfl, rfl, fun _ => rfl⟩, fun _ off => off⟩

theorem Frame.trans {a b c : Allocator} (first : Frame a b) (second : Frame b c) : Frame a c where
  same :=
    { regList := second.same.regList.trans first.same.regList
      stateReg := second.same.stateReg.trans first.same.stateReg
      stackReg := second.same.stackReg.trans first.same.stackReg
      home := second.same.home.trans first.same.home
      isTemp := fun j => (second.same.isTemp j).trans (first.same.isTemp j) }
  idle := fun j off => second.idle j (first.idle j off)

theorem frame_setDirty (a : Allocator) (i : Nat) (d : Bool) : Frame a (a.setDirty i d) :=
  ⟨sameLayout_setDirty a i d, fun j off => (setDirty_realReg a i d j).trans off⟩

theorem frame_setRealReg_none (a : Allocator) (i : Nat) : Frame a (a.setRealReg i none) := by
  refine ⟨sameLayout_setRealReg a i none, fun j off => ?_⟩
  by_cases here : j = i
  · rw [here, setRealReg_self]
  · rw [setRealReg, modify_other a _ here]
    exact off

theorem touch_realReg (a : Allocator) (i j : Nat) : ((a.touch i).regs j).realReg = (a.regs j).realReg :=
  modify_field Reg.realReg a i (fun reg => { reg with age := a.age }) (fun _ => rfl) j

theorem frame_touch (a : Allocator) (i : Nat) : Frame a (a.touch i) := by
  have same : SameLayout a (a.modify i fun reg => { reg with age := a.age }) :=
    sameLayout_modify a i (fun _ => rfl) (fun _ => rfl) fun _ => rfl
  exact ⟨⟨rfl, rfl, rfl, same.home, same.isTemp⟩, fun j off => (touch_realReg a i j).trans off⟩

theorem frame_spill (done : a.spill i = .ok b) : Frame a b := by
  rw [spill] at done
  cases word : a.home i with
  | none =>
      rw [word] at done
      cases done
  | some slot =>
      simp only [word] at done
      by_cases pinned : (a.regs i).pinned = true
      · rw [if_pos pinned] at done
        rw [← Except.ok.inj done]
        exact frame_touch a i
      · rw [if_neg pinned] at done
        cases real : (a.regs i).realReg with
        | none =>
            simp only [real] at done
            rw [← Except.ok.inj done]
            exact frame_setDirty a i false
        | some r =>
            simp only [real] at done
            obtain ⟨released, freed, equal⟩ := bind_eq_ok done
            obtain ⟨k, _, released_eq⟩ := releaseReg_eq freed
            rw [← Except.ok.inj equal]
            have free : Frame a released := by
              rw [released_eq]
              split <;> exact ⟨⟨rfl, rfl, rfl, rfl, fun _ => rfl⟩, fun _ off => off⟩
            exact (free.trans (frame_setRealReg_none released i)).trans (frame_setDirty _ i false)

theorem frame_reclaim (done : a.reclaim = .ok b) : Frame a b := by
  rw [reclaim] at done
  cases found : a.oldest.2 with
  | some index =>
      rw [found] at done
      exact frame_spill done
  | none =>
      rw [found] at done
      exact Except.ok.inj done ▸ Frame.refl a

theorem sim_reclaim (sim : Sim ops m0 a value pending) (done : a.reclaim = .ok b) : Sim ops m0 b value pending := by
  rw [reclaim] at done
  cases found : a.oldest.2 with
  | some index =>
      rw [found] at done
      exact sim_spill sim done
  | none =>
      rw [found] at done
      exact Except.ok.inj done ▸ sim

/-- A machine register that no logical register holds. -/
theorem sim_allocateOrReclaim {name : String} {allocation : String × Allocator} (sim : Sim ops m0 a value pending)
    (done : a.allocateOrReclaim name = .ok allocation) :
    ∃ (c : Allocator) (k : Nat), Sim ops m0 c value pending ∧ Frame a c ∧ c.regList[k]? = some allocation.1 ∧
      c.allocated k = false ∧ allocation.2 = { c with allocated := Function.update c.allocated k true } := by
  rw [allocateOrReclaim] at done
  cases first : a.tryAllocateReg with
  | some found =>
      rw [first] at done
      obtain rfl : found = allocation := Except.ok.inj done
      obtain ⟨k, listed, unused, equal⟩ := tryAllocateReg_eq first
      exact ⟨a, k, sim, Frame.refl a, listed, unused, equal⟩
  | none =>
      rw [first] at done
      obtain ⟨c, reclaimed, again⟩ := bind_eq_ok done
      rw [allocateReg] at again
      cases second : c.tryAllocateReg with
      | some found =>
          rw [second] at again
          obtain rfl : found = allocation := Except.ok.inj again
          obtain ⟨k, listed, unused, equal⟩ := tryAllocateReg_eq second
          exact ⟨c, k, sim_reclaim sim reclaimed, frame_reclaim reclaimed, listed, unused, equal⟩
      | none =>
          rw [second] at again
          cases again

/-- A word that is made live without being loaded is pending. -/
theorem sim_liveNoload {result : Bool × Allocator} (sim : Sim ops m0 a value pending)
    (done : a.liveNoload i = .ok result) :
    (result.1 = false ∧ Sim ops m0 result.2 value pending) ∨
      (result.1 = true ∧ (a.regs i).realReg = none ∧ Sim ops m0 result.2 value (insert i pending) ∧
        (∃ slot, result.2.home i = some slot) ∧ ∃ r, (result.2.regs i).realReg = some r) := by
  rw [liveNoload] at done
  cases real : (a.regs i).realReg with
  | some r =>
      simp only [real] at done
      rw [← Except.ok.inj done]
      exact Or.inl ⟨rfl, sim_touch sim i⟩
  | none =>
      cases word : a.home i with
      | none =>
          simp only [real, word] at done
          cases done
      | some slot =>
          simp only [real, word] at done
          obtain ⟨allocation, found, equal⟩ := bind_eq_ok done
          obtain ⟨c, k, kept, frame, listed, unused, allocated_eq⟩ := sim_allocateOrReclaim sim found
          rw [← Except.ok.inj equal]
          have off : (c.regs i).realReg = none := frame.idle i real
          have still : c.home i = some slot := (congrFun frame.same.home i).trans word
          have reserved := kept.holds.reserve off (slots_home still _) (free_of_not_allocated kept listed unused)
          have placed := sim_place kept listed reserved
          rw [allocated_eq]
          right
          refine ⟨rfl, rfl, sim_touch placed i, ⟨slot, ?_⟩, allocation.1, ?_⟩
          · rw [(frame_touch _ i).same.home, (sameLayout_setRealReg _ i _).home]
            exact still
          · rw [touch_realReg, setRealReg_self]

/-- A word that is made live is loaded. -/
theorem sim_live (sim : Sim ops m0 a value pending) (done : a.live i = .ok b) :
    ∃ waiting ⊆ pending, Sim ops m0 b value waiting := by
  obtain ⟨⟨loads, reserved⟩, found, rest⟩ := bind_eq_ok done
  rcases sim_liveNoload sim found with ⟨there, kept⟩ | ⟨loaded, _, kept, ⟨slot, word⟩, r, real⟩
  · simp only at there kept
    simp only [there] at rest
    rw [← Except.ok.inj rest]
    exact ⟨pending, subset_rfl, sim_touch kept i⟩
  · simp only at loaded kept word real
    simp only [loaded, if_true, word, real] at rest
    rw [← Except.ok.inj rest]
    have saved : (reserved.regs i).isDirty = false :=
      kept.holds.idle i _ (slots_home word _) (Or.inr (Set.mem_insert i pending))
    refine ⟨insert i pending \ {i}, ?_, sim_touch (sim_load kept real word saved) i⟩
    intro j waiting
    exact waiting.1.resolve_left waiting.2

theorem slots_homeless (word : a.home i = none) (m : Machine n) : (view m0 a m).slots i = none := by
  simp only [view, word, Option.map_none]

theorem sim_setDirty_temp (sim : Sim ops m0 a value pending) (homeless : a.home i = none) (d : Bool) :
    Sim ops m0 (a.setDirty i d) value pending := by
  refine ⟨sim.layout.of_same (sameLayout_setDirty a i d), ?_, ?_, sim.pointers⟩
  · show Holds (view m0 (a.setDirty i d) (a.machine ops m0)) value pending
    rw [view_setDirty]
    exact sim.holds.mark (slots_homeless homeless _) d
  · intro j t placed
    exact sim.listed j t ((setDirty_realReg a i d j).symm.trans placed)

/-- A temporary gets a register when it has none. -/
theorem sim_acquire (sim : Sim ops m0 a value pending) (done : a.acquire i = .ok b) :
    Sim ops m0 b value pending := by
  rw [acquire] at done
  by_cases temp : (a.regs i).isTemp = true
  · rw [if_pos temp] at done
    have homeless := sim.layout.temps i temp
    cases real : (a.regs i).realReg with
    | some r =>
        simp only [real] at done
        rw [← Except.ok.inj done]
        exact sim_touch (sim_setDirty_temp sim homeless true) i
    | none =>
        simp only [real] at done
        obtain ⟨allocation, found, equal⟩ := bind_eq_ok done
        obtain ⟨c, k, kept, frame, listed, unused, allocated_eq⟩ := sim_allocateOrReclaim sim found
        have still : c.home i = none := (congrFun frame.same.home i).trans homeless
        have reserved := kept.holds.reserveTemp (frame.idle i real) (slots_homeless still _)
          (free_of_not_allocated kept listed unused)
        have placed := sim_place kept listed reserved
        rw [← Except.ok.inj equal, allocated_eq]
        exact sim_touch (sim_setDirty_temp placed ((congrFun (sameLayout_setRealReg _ i _).home i).trans still) true) i
  · rw [if_neg temp] at done
    cases done

theorem sim_retire (sim : Sim ops m0 a value pending) (i : Nat) : Sim ops m0 (a.retire i) value pending :=
  sim_modify sim i _ (fun _ => rfl) (fun _ => rfl) (fun _ => rfl) (fun _ => rfl) fun _ => rfl

theorem sim_release (sim : Sim ops m0 a value pending) (done : a.release i = .ok b) :
    (a.regs i).isTemp = true ∧ Sim ops m0 b (Function.update value i none) pending := by
  rw [release] at done
  by_cases temp : (a.regs i).isTemp = true
  · rw [if_pos temp] at done
    refine ⟨temp, ?_⟩
    have homeless : (view m0 a (a.machine ops m0)).slots i = none := slots_homeless (sim.layout.temps i temp) _
    cases real : (a.regs i).realReg with
    | some r =>
        simp only [real] at done
        obtain ⟨freed, gone, equal⟩ := bind_eq_ok done
        obtain ⟨k, listed, freed_eq⟩ := releaseReg_eq gone
        rw [← Except.ok.inj equal, freed_eq]
        exact sim_retire (sim_displace sim real listed (sim.holds.release homeless)) i
    | none =>
        simp only [real] at done
        have unset : value i = none := sim.holds.homeless i homeless real
        rw [← Except.ok.inj done, ← unset, Function.update_eq_self]
        exact sim_retire sim i
  · rw [if_neg temp] at done
    cases done

theorem getReal_eq (done : a.getReal i = .ok r) : (a.regs i).realReg = some r := by
  rw [getReal] at done
  cases real : (a.regs i).realReg with
  | none =>
      rw [real] at done
      cases done
  | some t =>
      rw [real] at done
      rw [Except.ok.inj done]

end

end Allocator

end AsconSuite
