/-
Module: AsconSuite.Proofs.AvrMemoryOperations
Layer: Proofs
Purpose: Every operation of the code builder on memory behind X, Y and Z succeeds and transfers its bytes exactly when it
  is not a store behind X beyond the byte under the pointer and finds the temporary register that it needs.
Imports: AsconSuite.Proofs.AvrMemoryAccess
Trusted boundary: none (fully proved)
Main exports: Avr.Transfers, Avr.wp_ldStLong, Avr.wp_ldXor, Avr.wp_ldXorIn, Avr.wp_stZero, Avr.Access,
  Avr.access_transfers_iff
-/
import AsconSuite.Proofs.AvrMemoryAccess

namespace AsconSuite.Avr

open ByteWord ByteMemory
open Emit
open Emit.Target

variable {code code' : Code} {s s' : AVRState}

/-! ### Bytes that are transferred -/

/-- Zeroing of memory. -/
def Transfer.zero : Transfer := ⟨fun r _ => r, fun _ _ => 0#8⟩

/-- What an access does: the bytes of its register and those of memory from an address on are as the transfer says,
every register that somebody holds is as it was, and so is every other byte of memory. -/
structure Transfers (transfer : Transfer) (code : Code) (reg : Reg) (size address : Nat) (s s' : AVRState) : Prop where
  regs : ∀ i < reg.length, s'.r (reg.reg i) = transfer.onReg (s.r (reg.reg i)) (s.memory (address + i))
  memory : ∀ i < size, s'.memory (address + i) = transfer.onMem (s.r (reg.reg i)) (s.memory (address + i))
  outside : ∀ a, a < address ∨ address + size ≤ a → s'.memory a = s.memory a
  others : ∀ r, Held code r ∨ r = 32 ∨ r = 33 → r ∉ reg → s'.r r = s.r r

/-- An access whose pointer is back where it was, and whose temporary registers are nobody's. -/
theorem Accessed.transfers {transfer : Transfer} {p : Nat} {temps : List Nat} {reg : Reg} {address : Nat}
    (accessed : Accessed transfer (p :: (p + 1) :: temps) reg address s s') (pointer : s'.pair p = s.pair p)
    (free : ∀ t ∈ temps, Scratch code t) : Transfers transfer code reg reg.length address s s' where
  regs := accessed.regs
  memory := accessed.memory
  outside := accessed.outside
  others := by
    intro r kind notIn
    obtain ⟨low, high⟩ := AVRState.pair_inj pointer
    by_cases isLow : r = p
    · rw [isLow, low]
    · by_cases isHigh : r = p + 1
      · rw [isHigh, high]
      · refine accessed.others r notIn ?_
        rintro (_ | ⟨_, _ | ⟨_, member⟩⟩)
        · exact isLow rfl
        · exact isHigh rfl
        · have scratch := free r member
          rcases kind with held | rfl | rfl
          · exact scratch.notHeld held
          · exact absurd scratch.bound (by decide)
          · exact absurd scratch.bound (by decide)

/-- A register that an access may be given: somebody holds it, and it is no part of the pointer. -/
structure Given (code : Code) (p : Nat) (reg : Reg) : Prop where
  nodup : reg.Nodup
  held : ∀ r ∈ reg, Held code r
  notLow : p ∉ reg
  notHigh : p + 1 ∉ reg

theorem Given.apart {p : Nat} {reg : Reg} (given : Given code p reg) {temps : List Nat}
    (free : ∀ t ∈ temps, Scratch code t) : ∀ r ∈ reg, r ∉ p :: (p + 1) :: temps := by
  rintro r member (_ | ⟨_, _ | ⟨_, isTemp⟩⟩)
  · exact given.notLow member
  · exact given.notHigh member
  · exact (free r isTemp).notHeld (given.held r member)

/-- Nobody is given `r1` while it holds zero. -/
theorem Given.notZero {p : Nat} {reg : Reg} (pool : Pool code) (given : Given code p reg)
    (noTemp : code.hasFlag tempR1 = false) : 1 ∉ reg := by
  intro member
  rcases given.held 1 member with allocated | ⟨high, _⟩
  · rw [pool.r1 noTemp] at allocated
    exact nomatch allocated
  · exact absurd high (by decide)

/-! ### Long loads and stores -/

/-- Which pointer `ld_st_long` moves, where it moves one. -/
def Matches (type : InsnType) (p : Nat) (far : Prop) : Prop :=
  (type = .ldX ∧ p = 26) ∨ ((type = .ldY ∨ type = .stY) ∧ p = 28) ∨ ((type = .ldZ ∨ type = .stZ) ∧ p = 30) ∨
    (type = .stX ∧ p = 26 ∧ ¬far)

theorem wp_ldStLong {transfer : Transfer} {type : InsnType} {p : Nat} {reg : Reg} {offset : Nat} (pool : Pool code)
    (isPointer : IsPointer p) (accesses : Accesses transfer p [] (memory type))
    (pointer : Matches type p (0 < reg.length ∧ 64 < offset + reg.length)) (zeroed : Zeroed code s) (given : Given code p reg)
    (inside : s.pair p + offset + reg.length ≤ memSize) :
    target.wp (ldStLong reg type offset) (fun _ code' s' => SamePool code code' ∧
      Transfers transfer code reg reg.length (s.pair p + offset) s s') code s := by
  have apart : ∀ r ∈ reg, r ∉ [p, p + 1] := given.apart fun _ member => nomatch member
  have small : memSize < 65536 := by decide
  have finish : ∀ code' s', SameAlloc code code' ∧ Accessed transfer (p :: (p + 1) :: []) reg (s.pair p + offset) s s' ∧
      s'.pair p = s.pair p → SamePool code code' ∧ Transfers transfer code reg reg.length (s.pair p + offset) s s' := by
    rintro code' s' ⟨alloc, accessed, back⟩
    exact ⟨alloc.pool, accessed.transfers back fun _ member => nomatch member⟩
  refine wp_ite (fun empty => ?_) fun some_byte => ?_
  · obtain rfl := List.length_eq_zero_iff.1 empty
    exact wp_pure (finish code s ⟨SameAlloc.refl code, Accessed.nil _ _ _ _, rfl⟩)
  · have some_byte : 0 < reg.length := Nat.pos_of_ne_zero some_byte
    have far : target.wp (addPtr p offset >>= fun _ => ldStMoved reg type >>= fun _ =>
        addPtr p (-((offset + reg.length - 1 : Nat) : Int))) (fun _ code' s' => SameAlloc code code' ∧
          Accessed transfer (p :: (p + 1) :: []) reg (s.pair p + offset) s s' ∧ s'.pair p = s.pair p) code s := by
      have sum : offset + reg.length - 1 = offset + (reg.length - 1) := by omega
      rw [sum]
      refine wp_around offset (reg.length - 1) isPointer zeroed
        (fun noTemp => ⟨Or.inl (given.notZero pool noTemp), fun member => nomatch member⟩) (by omega) apart ?_
      intro code₁ s₁ there
      exact wp_incrementsLast accesses some_byte (by omega) (Or.inl given.nodup) apart
    refine wp_ite (fun isX => ?_) fun notX => wp_ite (fun near => ?_) fun notNear => ?_
    · have p26 : p = 26 := by
        rcases pointer with ⟨_, rfl⟩ | ⟨type', _⟩ | ⟨type', _⟩ | ⟨type', _⟩
        · rfl
        · rcases type' with rfl | rfl <;> exact nomatch isX.1
        · rcases type' with rfl | rfl <;> exact nomatch isX.1
        · subst type'
          exact nomatch isX.1
      subst p26
      exact wp_mono far fun _ => finish
    · exact wp_mono (wp_near accesses near inside (Or.inl given.nodup) apart) fun _ => finish
    · have same : (if type = .ldY ∨ type = .stY then 28 else 30) = p := by
        rcases pointer with ⟨rfl, _⟩ | ⟨type', rfl⟩ | ⟨type', rfl⟩ | ⟨_, _, notFar⟩
        · refine absurd ⟨rfl, ?_⟩ notX
          have size : reg.size = reg.length := rfl
          omega
        · exact if_pos type'
        · rcases type' with rfl | rfl <;> rfl
        · exact absurd ⟨some_byte, Nat.not_le.1 notNear⟩ notFar
      rw [same]
      exact wp_mono far fun _ => finish

/-! ### Exclusive or -/

/-- A temporary register is not part of a pointer that is in use. -/
theorem Scratch.apart {p t : Nat} (scratch : Scratch code t) (low : Held code p) (high : Held code (p + 1)) : Apart t p :=
  ⟨fun same => scratch.notHeld (same ▸ low), fun same => scratch.notHeld (same ▸ high)⟩

theorem SamePool.held (same : SamePool code code') (r : Nat) : Held code' r ↔ Held code r := by
  rw [Held, Held, same.allocated, same.regOrder]

theorem SamePool.scratch (same : SamePool code code') {t : Nat} (scratch : Scratch code t) : Scratch code' t where
  bound := scratch.bound
  notHeld := fun held => scratch.notHeld ((same.held t).1 held)
  notZero := by
    rw [same.hasFlag]
    exact scratch.notZero

theorem SamePool.zeroed (same : SamePool code code') (zeroed : Zeroed code s) : Zeroed code' s := by
  rw [Zeroed, same.hasFlag]
  exact zeroed

theorem SamePool.pool (same : SamePool code code') (pool : Pool code) : Pool code' where
  order := by rw [same.regOrder, pool.order, resetRegs_regOrder_congr same.flags]
  r0 := by
    rw [same.hasFlag, same.allocated]
    exact pool.r0
  r1 := by
    rw [same.hasFlag, same.allocated]
    exact pool.r1

theorem SamePool.given (same : SamePool code code') {p : Nat} {reg : Reg} (given : Given code p reg) :
    Given code' p reg :=
  ⟨given.nodup, fun r member => (same.held r).2 (given.held r member), given.notLow, given.notHigh⟩

theorem Transfers.congr {transfer : Transfer} {reg : Reg} {size address : Nat}
    (transfers : Transfers transfer code' reg size address s s') (same : ∀ r, Held code' r ↔ Held code r) :
    Transfers transfer code reg size address s s' :=
  ⟨transfers.regs, transfers.memory, transfers.outside,
    fun r kind => transfers.others r (kind.imp (same r).2 id)⟩

/-- The accesses of `ld_xor` and `ld_xor_in` with a temporary register: they differ only in the code of a byte. -/
theorem wp_xorBytes {transfer : Transfer} {p t : Nat} {reg : Reg} {offset : Nat} {body : Nat → Nat → Build Unit}
    (pool : Pool code) (isPointer : IsPointer p) (scratch : Scratch code t)
    (accesses : Accesses transfer p [t] body) (zeroed : Zeroed code s) (given : Given code p reg)
    (inside : s.pair p + offset + reg.length ≤ memSize) :
    target.wp (if reg.size = 0 then pure ()
      else if offset + reg.size ≤ 64 then
        (List.range reg.size).forM fun index => body (reg.reg index) (offset + index)
      else
        addPtr p offset >>= fun _ => ((List.range (reg.size - 1)).forM fun index => body (reg.reg index) postInc) >>=
          fun _ => body (reg.reg (reg.size - 1)) 0 >>= fun _ => addPtr p (-((offset + reg.size - 1 : Nat) : Int)))
      (fun _ code' s' => SamePool code code' ∧ Transfers transfer code reg reg.length (s.pair p + offset) s s')
      code s := by
  have free : ∀ t' ∈ [t], Scratch code t' := fun t' member => List.mem_singleton.1 member ▸ scratch
  have apart := given.apart free
  have small : memSize < 65536 := by decide
  have finish : ∀ code' s', SameAlloc code code' ∧ Accessed transfer (p :: (p + 1) :: [t]) reg (s.pair p + offset) s s' ∧
      s'.pair p = s.pair p → SamePool code code' ∧ Transfers transfer code reg reg.length (s.pair p + offset) s s' := by
    rintro code' s' ⟨alloc, accessed, back⟩
    exact ⟨alloc.pool, accessed.transfers back free⟩
  refine wp_ite (fun empty => ?_) fun some_byte => wp_ite (fun near => ?_) fun far => ?_
  · obtain rfl := List.length_eq_zero_iff.1 empty
    exact wp_pure (finish code s ⟨SameAlloc.refl code, Accessed.nil _ _ _ _, rfl⟩)
  · exact wp_mono (wp_near accesses near inside (Or.inl given.nodup) apart) fun _ => finish
  · have some_byte : 0 < reg.length := Nat.pos_of_ne_zero some_byte
    have sum : offset + reg.size - 1 = offset + (reg.length - 1) := Nat.add_sub_assoc some_byte offset
    have notTemp (noTemp : code.hasFlag tempR1 = false) : 1 ∉ [t] := fun member =>
      scratch.notZero noTemp (List.mem_singleton.1 member).symm
    have around := wp_around offset (reg.length - 1) isPointer zeroed
      (fun noTemp => ⟨Or.inl (given.notZero pool noTemp), notTemp noTemp⟩) (by omega) apart
      fun code₁ s₁ there => wp_incrementsLast accesses some_byte (by omega) (Or.inl given.nodup) apart
    rw [sum]
    refine wp_congr ?_ (wp_mono around fun _ => finish)
    simp only [bind_assoc]
    rfl

theorem wp_ldXor {type : InsnType} {p : Nat} {reg : Reg} {offset : Nat} (pool : Pool code)
    (loads : (type = .ldY ∧ p = 28) ∨ (type = .ldZ ∧ p = 30)) (low : Held code p) (high : Held code (p + 1))
    (spare : hasSpare code = true) (zeroed : Zeroed code s) (given : Given code p reg)
    (inside : s.pair p + offset + reg.length ≤ memSize) :
    target.wp (ldXor reg type offset) (fun _ code' s' => SamePool code code' ∧
      Transfers .xor code reg reg.length (s.pair p + offset) s s') code s := by
  obtain ⟨t, code₁, ran, insns, same, scratch⟩ := tempreg_spare pool spare
  have free := scratch.apart low high
  have isPointer : IsPointer p := Or.inr (loads.imp And.right And.right)
  have accesses : Accesses .xor p [t] (ldXorByte type t) :=
    accesses_xor (loads.elim (fun y => Or.inr (Or.inl y)) fun z => Or.inr (Or.inr z)) free
  have place : (if type = .ldY then 28 else 30) = p := by
    rcases loads with ⟨rfl, rfl⟩ | ⟨rfl, rfl⟩
    · rfl
    · rfl
  refine wp_bind (wp_of_run ran insns ?_)
  have bytes := wp_xorBytes (same.pool pool) isPointer (same.scratch scratch) accesses (same.zeroed zeroed)
    (same.given given) inside
  rw [← place] at bytes ⊢
  refine wp_mono bytes ?_
  rintro _ code' s' ⟨same', transfers⟩
  exact ⟨same.trans same', transfers.congr same.held⟩

theorem wp_ldXorIn {type : InsnType} {p : Nat} {reg : Reg} {offset : Nat} (pool : Pool code)
    (loads : (type = .ldY ∧ p = 28) ∨ (type = .ldZ ∧ p = 30)) (low : Held code p) (high : Held code (p + 1))
    (spare : hasSpare code = true) (zeroed : Zeroed code s) (given : Given code p reg)
    (inside : s.pair p + offset + reg.length ≤ memSize) :
    target.wp (ldXorIn reg type offset) (fun _ code' s' => SamePool code code' ∧
      Transfers .xorIn code reg reg.length (s.pair p + offset) s s') code s := by
  obtain ⟨t, code₁, ran, insns, same, scratch⟩ := tempreg_spare pool spare
  have free := scratch.apart low high
  have isPointer : IsPointer p := Or.inr (loads.imp And.right And.right)
  have place : (if type = .ldY then 28 else 30) = p := by
    rcases loads with ⟨rfl, rfl⟩ | ⟨rfl, rfl⟩
    · rfl
    · rfl
  refine wp_bind (wp_of_run ran insns ?_)
  have bytes := wp_xorBytes (same.pool pool) isPointer (same.scratch scratch) (accesses_xorIn loads free)
    (same.zeroed zeroed) (same.given given) inside
  rw [← place] at bytes ⊢
  refine wp_congr ?_ (wp_mono bytes ?_)
  · dsimp only
    refine if_congr Iff.rfl rfl ?_
    by_cases near : offset + reg.size ≤ 64
    · rw [if_pos near, if_pos near]
      refine forM_congr fun i member => ?_
      have lower := List.mem_range.1 member
      rw [if_neg fun post : offset + i = postInc => absurd post (by rw [postInc]; omega)]
    · rw [if_neg near, if_neg near]
      rfl
  · rintro _ code' s' ⟨same', transfers⟩
    exact ⟨same.trans same', transfers.congr same.held⟩

/-! ### Zeroing -/

theorem replicate_reg {count z i : Nat} (lower : i < count) : Reg.reg (List.replicate count z) i = z := by
  rw [Reg.reg, List.getD_eq_getElem _ _ (by rwa [List.length_replicate]), List.getElem_replicate]

/-- The stores of `st_zero`. -/
def zeroBytes (type : InsnType) (z offset count : Nat) : Build Unit :=
  if type = .stX ∨ 64 < offset + count then do
    let pointer := if type = .stX then 26 else if type = .stY then 28 else 30
    addPtr pointer offset
    (List.range count).forM fun _ => memory type z postInc
    addPtr pointer (-((offset + count : Nat) : Int))
  else (List.range count).forM fun index => memory type z (offset + index)

theorem stZero_eq (type : InsnType) (offset count : Nat) : stZero type offset count =
    stZeroReg >>= fun zero => zeroBytes type (zero.reg 0) offset count >>= fun _ => releaseReg zero := by
  unfold stZero zeroBytes
  refine congrArg _ (funext fun zero => ?_)
  split
  · simp only [bind_assoc]
  · rfl

/-- Stores of one register to several bytes. -/
theorem wp_zeroBytes {type : InsnType} {p z offset count : Nat} (stores : Stores type p) (zeroed : Zeroed code s)
    (low : z ≠ p) (high : z ≠ p + 1) (inside : s.pair p + offset + count ≤ memSize) :
    target.wp (zeroBytes type z offset count)
      (fun _ code' s' => SameAlloc code code' ∧
        Accessed .store (p :: (p + 1) :: []) (List.replicate count z) (s.pair p + offset) s s' ∧
        s'.pair p = s.pair p) code s := by
  have length : (List.replicate count z).length = count := List.length_replicate
  have leaves : ∀ b m, Transfer.store.onReg b m = b := fun _ _ => rfl
  have apart : ∀ r ∈ List.replicate count z, r ∉ p :: (p + 1) :: [] := by
    intro r member
    rw [List.eq_of_mem_replicate member]
    rintro (_ | ⟨_, _ | ⟨_, none⟩⟩)
    · exact low rfl
    · exact high rfl
    · exact nomatch none
  have place : (if type = .stX then 26 else if type = .stY then 28 else 30) = p := by
    rcases stores with ⟨rfl, rfl⟩ | ⟨rfl, rfl⟩ | ⟨rfl, rfl⟩
    · rfl
    · rfl
    · rfl
  have small : memSize < 65536 := by decide
  unfold zeroBytes
  rw [place]
  refine wp_ite (fun far => ?_) fun near => ?_
  · refine wp_around offset count stores.pointer zeroed (fun _ => ⟨Or.inr leaves, fun member => nomatch member⟩)
      (by omega) apart ?_
    intro code₁ s₁ there
    have fits : s₁.pair p + count ≤ memSize := by omega
    have same : ∀ i ∈ List.range count, memory type z postInc =
        memory type (Reg.reg (List.replicate count z) i) postInc := by
      intro i member
      rw [replicate_reg (List.mem_range.1 member)]
    refine wp_congr (forM_congr same) (wp_mono (wp_increments (accesses_store stores) (Nat.le_of_eq length.symm) fits
      (Or.inr leaves) apart) ?_)
    intro _ code' s' holds
    rwa [List.take_of_length_le (Nat.le_of_eq length)] at holds
  · have near : offset + (List.replicate count z).length ≤ 64 := by omega
    have fits : s.pair p + offset + (List.replicate count z).length ≤ memSize := by omega
    have same : ∀ i ∈ List.range count, memory type z (offset + i) =
        memory type (Reg.reg (List.replicate count z) i) (offset + i) := by
      intro i member
      rw [replicate_reg (List.mem_range.1 member)]
    refine wp_congr (forM_congr same) ?_
    have bytes : target.wp ((List.range (List.replicate count z).length).forM fun i =>
        memory type (Reg.reg (List.replicate count z) i) (offset + i)) _ code s :=
      wp_near (accesses_store stores) near fits (Or.inr leaves) apart
    rw [length] at bytes
    exact bytes

/-- The register that is stored holds zero, and nobody holds it. -/
structure ZeroReg (code : Code) (s : AVRState) (z : Nat) (code' : Code) (s' : AVRState) : Prop where
  flags : code'.flags = code.flags
  regOrder : code'.regOrder = code.regOrder
  freed : code'.allocated &&& ~~~regBit z = code.allocated
  bound : z < 32
  notHeld : ¬Held code z
  value : s'.r z = 0#8
  zeroed : Zeroed code' s'
  others : ∀ r, r ≠ z → s'.r r = s.r r
  memory : s'.memory = s.memory

/-- There is a register for zeroing. -/
def hasZeroReg (code : Code) : Bool :=
  !code.hasFlag tempR1 || code.regOrder.any fun reg => !inRegs code.allocated reg

theorem wp_stZeroReg {P : Reg → Code → AVRState → Prop} (pool : Pool code) (spare : hasZeroReg code = true)
    (zeroed : Zeroed code s) (holds : ∀ z code' s', ZeroReg code s z code' s' → P [z] code' s') :
    target.wp stZeroReg P code s := by
  refine wp_bind (wp_get (wp_ite (fun temp => ?_) fun noTemp => ?_))
  · rw [hasZeroReg, temp, Bool.not_true, Bool.false_or, ← firstFree_isSome, Option.isSome_iff_exists] at spare
    obtain ⟨t, found⟩ := spare
    have scratch := firstFree_scratch pool found
    have same := samePool_released pool found
    have ran : (allocateReg 1).run code = .ok ([t], taken code t) := by
      rw [allocateReg_one_run, found]
      rfl
    refine wp_bind (wp_of_run ran rfl (wp_bind (wp_eor fun code' s' exact value _ => wp_pure (holds t code' s' ?_))))
    exact {
      flags := exact.alloc.flags
      regOrder := exact.alloc.regOrder
      freed := by
        rw [exact.alloc.allocated]
        exact same.allocated
      bound := scratch.bound
      notHeld := scratch.notHeld
      value := value.trans BitVec.xor_self
      zeroed := fun noTemp => by
        rw [exact.alloc.hasFlag] at noTemp
        exact nomatch temp.symm.trans noTemp
      others := fun r other => exact.others r fun member => other (List.mem_singleton.1 member)
      memory := exact.memory }
  · have noTemp := Bool.eq_false_iff.2 noTemp
    have free := pool.r1 noTemp
    refine wp_pure (holds 1 code s ?_)
    exact {
      flags := rfl
      regOrder := rfl
      freed := by
        refine regs_ext fun r => ?_
        rw [inRegs_and_not, ← Bool.not_eq_true, inRegs_regBit (by decide)]
        refine and_iff_left_of_imp ?_
        rintro allocated rfl
        rw [free] at allocated
        exact nomatch allocated
      bound := by decide
      notHeld := by
        rintro (allocated | ⟨high, _⟩)
        · rw [free] at allocated
          exact nomatch allocated
        · exact absurd high (by decide)
      value := zeroed noTemp
      zeroed := zeroed
      others := fun _ _ => rfl
      memory := rfl }

theorem wp_stZero {type : InsnType} {p offset count : Nat} (pool : Pool code) (stores : Stores type p)
    (low : Held code p) (high : Held code (p + 1)) (spare : hasZeroReg code = true) (zeroed : Zeroed code s)
    (inside : s.pair p + offset + count ≤ memSize) :
    target.wp (stZero type offset count) (fun _ code' s' => SamePool code code' ∧
      Transfers .zero code [] count (s.pair p + offset) s s') code s := by
  rw [stZero_eq]
  refine wp_bind (wp_stZeroReg pool spare zeroed fun z code₁ s₁ isZero => ?_)
  have notLow : z ≠ p := fun same => isZero.notHeld (same ▸ low)
  have notHigh : z ≠ p + 1 := fun same => isZero.notHeld (same ▸ high)
  have there : s₁.pair p = s.pair p := AVRState.pair_congr (isZero.others p notLow.symm) (isZero.others _ notHigh.symm)
  have fits : s₁.pair p + offset + count ≤ memSize := by omega
  refine wp_bind (wp_mono (wp_zeroBytes stores isZero.zeroed notLow notHigh fits) ?_)
  rintro _ code₂ s₂ ⟨alloc, accessed, back⟩
  rw [there] at accessed back
  have leaves : ∀ b m, Transfer.store.onReg b m = b := fun _ _ => rfl
  refine wp_modify rfl ⟨?_, ?_⟩
  · refine ⟨alloc.flags.trans isZero.flags, ?_, alloc.regOrder.trans isZero.regOrder⟩
    show code₂.allocated &&& ~~~regBit z = code.allocated
    rw [alloc.allocated, isZero.freed]
  · refine ⟨fun i none => absurd none (Nat.not_lt_zero i), ?_, ?_, ?_⟩
    · intro i lower
      have stored := accessed.memory i (by rwa [List.length_replicate])
      rw [replicate_reg lower] at stored
      exact stored.trans isZero.value
    · intro a beyond
      rw [accessed.outside a (by rwa [List.length_replicate]), isZero.memory]
    · intro r kind _
      obtain ⟨same, same'⟩ := AVRState.pair_inj (back.trans there.symm)
      have other : r ≠ z := by
        rintro rfl
        rcases kind with held | rfl | rfl
        · exact isZero.notHeld held
        · exact absurd isZero.bound (by decide)
        · exact absurd isZero.bound (by decide)
      rw [← isZero.others r other]
      by_cases isLow : r = p
      · rw [isLow, same]
      · by_cases isHigh : r = p + 1
        · rw [isHigh, same']
        · refine accessed.keeps leaves ?_
          rintro (_ | ⟨_, _ | ⟨_, none⟩⟩)
          · exact isLow rfl
          · exact isHigh rfl
          · exact nomatch none

/-! ### Generation -/

/-- What keeps the flags and the registers that are handed out. -/
theorem generates_pushChecked {insn : Except String Insn} {i : Insn} (made : insn = .ok i) :
    Generates (pushChecked insn) (fun _ code' => SameAlloc code code') code :=
  generates_bind (generates_lift made (generates_modify (sameAlloc_pushed code i)))

theorem generates_immreg {type : InsnType} {r value : Nat} (high : 16 ≤ r) (low : r < 32)
    (word : ¬((type = .adiw ∨ type = .sbiw) ∧ r ≠ 24 ∧ r ≠ 26 ∧ r ≠ 28 ∧ r ≠ 30)) :
    Generates (immreg type r value) (fun _ code' => SameAlloc code code') code := by
  have made : Insn.ofImm type r (value % 256) = .ok ⟨type, r, value % 256⟩ := by
    rw [Insn.ofImm, if_neg (by omega), if_neg word]
    rfl
  exact generates_pushChecked made

theorem generates_tworeg {type : InsnType} {r1 r2 : Nat} (first : r1 < 32) (second : r2 < 32) (notMovw : type ≠ .movw) :
    Generates (tworeg type r1 r2) (fun _ code' => SameAlloc code code') code := by
  have made : Insn.ofReg2 type r1 r2 = .ok ⟨type, r1, r2⟩ := by
    rw [Insn.ofReg2, if_neg (by omega), if_neg fun movw => notMovw movw.1]
    rfl
  exact generates_pushChecked made

/-- An offset that an instruction can hold. -/
def Encodes (type : InsnType) (offset : Nat) : Prop :=
  offset = postInc ∨ (offset < 64 ∧ (type = .ldX ∨ type = .stX → offset = 0))

theorem generates_memory {type : InsnType} {r offset : Nat} (encodes : Encodes type offset) :
    Generates (memory type r offset) (fun _ code' => SameAlloc code code') code := by
  have made : Insn.ofMemory type r (offset % 256) = .ok ⟨type, r, offset % 256⟩ := by
    rcases encodes with rfl | ⟨near, onlyZero⟩
    · rfl
    · rw [Insn.ofMemory, Nat.mod_eq_of_lt (by omega)]
      split
      · split
        next isX => rw [if_neg (not_not.2 (onlyZero isX))]; rfl
        next => rw [if_neg (by omega)]; rfl
      · rfl
  exact generates_pushChecked made

theorem generates_addPtr {p : Nat} (pointer : IsPointer p) (offset : Int) :
    Generates (addPtr p offset) (fun _ code' => SameAlloc code code') code := by
  have high : 16 ≤ p := by rcases pointer with rfl | rfl | rfl <;> decide
  have low : p + 1 < 32 := by rcases pointer with rfl | rfl | rfl <;> decide
  have word (type : InsnType) : ¬((type = .adiw ∨ type = .sbiw) ∧ p ≠ 24 ∧ p ≠ 26 ∧ p ≠ 28 ∧ p ≠ 30) := by
    rintro ⟨_, _, not26, not28, not30⟩
    rcases pointer with same | same | same
    · exact not26 same
    · exact not28 same
    · exact not30 same
  refine generates_bind (generates_get ?_)
  refine generates_ite (fun _ => generates_pure (SameAlloc.refl code)) fun _ => ?_
  refine generates_ite (fun _ => generates_immreg high (by omega) (word _)) fun _ => ?_
  refine generates_ite (fun _ => generates_immreg high (by omega) (word _)) fun _ => ?_
  refine generates_ite (fun _ => ?_) fun _ => generates_immreg (by omega) low (by simp)
  refine generates_bind (generates_mono (generates_immreg high (by omega) (word _)) ?_)
  intro _ code₁ alloc₁
  refine generates_ite (fun _ => ?_) fun _ => ?_
  · exact generates_mono (generates_immreg (by omega) low (by simp)) fun _ _ => alloc₁.trans
  · exact generates_mono (generates_tworeg low (by decide) (by simp)) fun _ _ => alloc₁.trans

/-- A loop whose turns keep the flags and the registers that are handed out. -/
theorem generates_turns {κ : Type} {l : List κ} {f : κ → Build Unit}
    (turn : ∀ x ∈ l, ∀ g, Generates (f x) (fun _ code' => SameAlloc g code') g) :
    Generates (l.forM f) (fun _ code' => SameAlloc code code') code :=
  generates_forM (SameAlloc code) (SameAlloc.refl code) fun x member g same =>
    generates_mono (turn x member g) fun _ _ => same.trans

/-- One generator behind another one. -/
theorem generates_then {m : Build Unit} {f : Unit → Build Unit}
    (first : Generates m (fun _ code' => SameAlloc code code') code)
    (second : ∀ code₁, SameAlloc code code₁ → Generates (f ()) (fun _ code' => SameAlloc code₁ code') code₁) :
    Generates (m >>= f) (fun _ code' => SameAlloc code code') code :=
  generates_bind (generates_mono first fun _ code₁ same =>
    generates_mono (second code₁ same) fun _ _ => same.trans)

theorem generates_ldStLong {type : InsnType} {reg : Reg} {offset : Nat}
    (reachable : type = .stX → reg.length = 0 ∨ (offset = 0 ∧ reg.length = 1) ∨ 64 < offset + reg.length) :
    Generates (ldStLong reg type offset) (fun _ code' => SameAlloc code code') code := by
  have moved {p : Nat} (pointer : IsPointer p) (back : Int) : Generates (addPtr p offset >>= fun _ =>
      ldStMoved reg type >>= fun _ => addPtr p back) (fun _ code' => SameAlloc code code') code := by
    refine generates_then (generates_addPtr pointer offset) fun code₁ _ => generates_then ?_ fun code₂ _ =>
      generates_addPtr pointer back
    exact generates_then (generates_turns fun _ _ _ => generates_memory (Or.inl rfl)) fun _ _ =>
      generates_memory (Or.inr ⟨by decide, fun _ => rfl⟩)
  refine generates_ite (fun _ => generates_pure (SameAlloc.refl code)) fun some_byte => ?_
  refine generates_ite (fun _ => moved (Or.inl rfl) _) fun notX => generates_ite (fun near => ?_) fun far => ?_
  · refine generates_turns fun i member _ => generates_memory (Or.inr ⟨?_, ?_⟩)
    · have lower := List.mem_range.1 member
      have size : reg.size = reg.length := rfl
      omega
    · have lower := List.mem_range.1 member
      have size : reg.size = reg.length := rfl
      rintro (isLoad | isStore)
      · have still : ¬(offset ≠ 0 ∨ 1 < reg.size) := fun moves => notX ⟨isLoad, moves⟩
        omega
      · have still := reachable isStore
        omega
  · dsimp only
    split
    · exact moved (Or.inr (Or.inl rfl)) _
    · exact moved (Or.inr (Or.inr rfl)) _

/-- A generator that leaves what decides about registers, with any result. -/
theorem generates_bytes (code : Code) {p : Nat} {reg : Reg} {offset : Nat} {byte last : Nat → Build Unit}
    {near : Nat → Build Unit} (pointer : IsPointer p) (back : Int)
    (bytes : ∀ i < reg.length, ∀ g, Generates (byte i) (fun _ code' => SameAlloc g code') g)
    (lasts : ∀ i < reg.length, ∀ g, Generates (last i) (fun _ code' => SameAlloc g code') g)
    (nears : offset + reg.length ≤ 64 → ∀ i < reg.length, ∀ g, Generates (near i) (fun _ code' => SameAlloc g code') g) :
    Generates (if reg.size = 0 then pure ()
      else if offset + reg.size ≤ 64 then (List.range reg.size).forM near
      else
        addPtr p offset >>= fun _ => (List.range (reg.size - 1)).forM byte >>= fun _ => last (reg.size - 1) >>= fun _ =>
          addPtr p back) (fun _ code' => SameAlloc code code') code := by
  refine generates_ite (fun _ => generates_pure (SameAlloc.refl code)) fun some_byte => generates_ite (fun fits => ?_) fun _ => ?_
  · exact generates_turns fun i member => nears fits i (List.mem_range.1 member)
  · have inside : reg.size - 1 < reg.length := Nat.sub_lt (Nat.pos_of_ne_zero some_byte) Nat.one_pos
    refine generates_then (generates_addPtr pointer offset) fun _ _ => generates_then ?_ fun _ _ =>
      generates_then (lasts _ inside _) fun _ _ => generates_addPtr pointer back
    exact generates_turns fun i member => bytes i (Nat.lt_trans (List.mem_range.1 member) inside)

theorem generates_ldXor {type : InsnType} {reg : Reg} {offset : Nat} (pool : Pool code)
    (isLoad : type = .ldY ∨ type = .ldZ) (spare : hasSpare code = true) (bytes : Bytes reg) :
    Generates (ldXor reg type offset) (fun _ _ => True) code := by
  obtain ⟨t, code₁, ran, _, _, scratch⟩ := tempreg_spare pool spare
  have notX : ¬(type = .ldX ∨ type = .stX) := by
    rcases isLoad with rfl | rfl
    · simp
    · simp
  have byte (o : Nat) (encodes : Encodes type o) (i : Nat) (inside : i < reg.length) (g : Code) :
      Generates (ldXorByte type t (reg.reg i) o) (fun _ code' => SameAlloc g code') g :=
    generates_then (generates_memory encodes) fun _ _ =>
      generates_tworeg (bytes _ (Accessed.reg_mem inside)) scratch.bound (by simp)
  have pointer : IsPointer (if type = .ldY then 28 else 30) := by
    split
    · exact Or.inr (Or.inl rfl)
    · exact Or.inr (Or.inr rfl)
  refine generates_bind ⟨t, code₁, ran, ?_⟩
  have all := generates_bytes code₁ pointer (-((offset + reg.size - 1 : Nat) : Int)) (byte postInc (Or.inl rfl))
    (byte 0 (Or.inr ⟨by decide, fun isX => absurd isX notX⟩)) fun (fits : offset + reg.length ≤ 64) i inside =>
      byte (offset + i) (Or.inr ⟨by omega, fun isX => absurd isX notX⟩) i inside
  exact generates_mono all fun _ _ _ => trivial

theorem generates_ldXorIn {type : InsnType} {reg : Reg} {offset : Nat} (pool : Pool code)
    (isLoad : type = .ldY ∨ type = .ldZ) (spare : hasSpare code = true) (bytes : Bytes reg) :
    Generates (ldXorIn reg type offset) (fun _ _ => True) code := by
  obtain ⟨t, code₁, ran, _, _, scratch⟩ := tempreg_spare pool spare
  have notX : ¬(type = .ldX ∨ type = .stX) := by
    rcases isLoad with rfl | rfl
    · simp
    · simp
  have byte (o o' : Nat) (encodes : o < 64) (encodes' : o' = postInc ∨ o' < 64) (i : Nat) (inside : i < reg.length)
      (g : Code) : Generates (ldXorInByte type t (reg.reg i) o o') (fun _ code' => SameAlloc g code') g := by
    refine generates_then (generates_memory (Or.inr ⟨encodes, fun isX => absurd isX notX⟩)) fun _ _ => generates_then
      (generates_tworeg scratch.bound (bytes _ (Accessed.reg_mem inside)) (by simp)) fun _ _ => ?_
    refine generates_ite (fun _ => ?_) fun _ => ?_
    · exact generates_memory (encodes'.imp id fun near => ⟨near, by simp⟩)
    · exact generates_memory (encodes'.imp id fun near => ⟨near, by simp⟩)
  have pointer : IsPointer (if type = .ldY then 28 else 30) := by
    split
    · exact Or.inr (Or.inl rfl)
    · exact Or.inr (Or.inr rfl)
  refine generates_bind ⟨t, code₁, ran, ?_⟩
  have all := generates_bytes code₁ pointer (-((offset + reg.size - 1 : Nat) : Int)) (byte 0 postInc (by decide) (Or.inl rfl))
    (byte 0 0 (by decide) (Or.inr (by decide))) fun (fits : offset + reg.length ≤ 64) i inside =>
      byte (offset + i) (offset + i) (by omega) (Or.inr (by omega)) i inside
  exact generates_mono all fun _ _ _ => trivial

theorem generates_stZero {type : InsnType} {offset count : Nat} (pool : Pool code)
    (isStore : type = .stX ∨ type = .stY ∨ type = .stZ) (spare : hasZeroReg code = true) :
    Generates (stZero type offset count) (fun _ _ => True) code := by
  rw [stZero_eq]
  have reg : Generates stZeroReg (fun _ _ => True) code := by
    refine generates_bind (generates_get (generates_ite (fun temp => ?_) fun _ => generates_pure trivial))
    rw [hasZeroReg, temp, Bool.not_true, Bool.false_or, ← firstFree_isSome, Option.isSome_iff_exists] at spare
    obtain ⟨t, found⟩ := spare
    have bound := (firstFree_scratch pool found).bound
    refine generates_bind ⟨[t], taken code t, by rw [allocateReg_one_run, found]; rfl, ?_⟩
    exact generates_bind (generates_mono (generates_tworeg bound bound (by simp)) fun _ _ _ => generates_pure trivial)
  have pointer : IsPointer (if type = .stX then 26 else if type = .stY then 28 else 30) := by
    rcases isStore with rfl | rfl | rfl
    · exact Or.inl rfl
    · exact Or.inr (Or.inl rfl)
    · exact Or.inr (Or.inr rfl)
  have bytes (z : Nat) (code₁ : Code) :
      Generates (zeroBytes type z offset count) (fun _ code' => SameAlloc code₁ code') code₁ := by
    refine generates_ite (fun _ => ?_) fun near => ?_
    · exact generates_then (generates_addPtr pointer _) fun _ _ => generates_then
        (generates_turns fun _ _ _ => generates_memory (Or.inl rfl)) fun _ _ => generates_addPtr pointer _
    · refine generates_turns fun i member _ => generates_memory (Or.inr ⟨?_, ?_⟩)
      · have lower := List.mem_range.1 member
        omega
      · rintro (rfl | isX)
        · rcases isStore with none | none | none <;> exact nomatch none
        · exact absurd (Or.inl isX) near
  exact generates_bind (generates_mono reg fun zero code₁ _ => generates_bind (generates_mono (bytes _ code₁)
    fun _ _ _ => generates_modify trivial))

/-! ### What goes wrong behind X -/

/-- A store behind X that needs a displacement cannot be generated. -/
theorem fails_stxLong {reg : Reg} {offset : Nat} (near : offset + reg.length ≤ 64)
    (beyond : ¬(reg.length = 0 ∨ (offset = 0 ∧ reg.length = 1))) : Fails (stxLong reg offset) code := by
  have some_byte : reg.size ≠ 0 := fun empty => beyond (Or.inl empty)
  have fits : offset + reg.size ≤ 64 := near
  have size : reg.size = reg.length := rfl
  unfold stxLong ldStLong
  dsimp only
  rw [if_neg some_byte, if_neg (by simp), if_pos fits]
  have last : reg.size - 1 ∈ List.range reg.size := List.mem_range.2 (by omega)
  refine fails_forM last fun g => ?_
  have refused : Insn.ofMemory .stX (reg.reg (reg.size - 1)) ((offset + (reg.size - 1)) % 256) =
      .error "invalid X pointer offset" := by
    have displaced : offset + (reg.size - 1) ≠ preDec ∧ offset + (reg.size - 1) ≠ postInc := by
      unfold preDec postInc
      omega
    rw [Nat.mod_eq_of_lt (by omega), Insn.ofMemory, if_pos displaced, if_pos (Or.inr rfl), if_pos (by omega)]
    rfl
  unfold memory pushChecked
  rw [refused]
  exact fails_of_error rfl

/-- Far behind X, the bytes are stored from X on, and Z is moved in place of X. -/
theorem wp_stxLong_far {reg : Reg} {offset : Nat} (some_byte : 0 < reg.length) (far : 64 < offset + reg.length)
    (zeroed : Zeroed code s) (given : Given code 26 reg) (notZero : code.hasFlag tempR1 = false → 1 ∉ reg)
    (inside : s.pair 26 + reg.length ≤ memSize) :
    target.wp (stxLong reg offset) (fun _ _ s' => s'.pair 26 = s.pair 26 + (reg.length - 1) ∧
      ∀ a, s.pair 26 + reg.length ≤ a → s'.memory a = s.memory a) code s := by
  have apart : ∀ r ∈ reg, r ∉ [26, 26 + 1] := given.apart fun _ member => nomatch member
  refine wp_ite (fun empty => absurd empty (Nat.ne_of_gt some_byte)) fun _ => wp_ite (fun isX => nomatch isX.1) fun _ =>
    wp_ite (fun near => absurd near (Nat.not_le.2 far)) fun _ => ?_
  have isZ : IsPointer 30 := Or.inr (Or.inr rfl)
  refine wp_bind (wp_mono (wp_addPtr isZ _ zeroed) ?_)
  rintro _ code₁ s₁ ⟨alloc₁, before⟩
  have there : s₁.pair 26 = s.pair 26 :=
    AVRState.pair_congr (before.others 26 (by decide) (by decide)) (before.others 27 (by decide) (by decide))
  have stores : Stores .stX 26 := Or.inl ⟨rfl, rfl⟩
  refine wp_bind (wp_mono (wp_incrementsLast (accesses_store stores) some_byte (by omega) (Or.inl given.nodup) apart) ?_)
  rintro _ code₂ s₂ ⟨alloc₂, accessed, moved⟩
  have zeroed₂ : Zeroed code₂ s₂ := by
    intro noTemp
    rw [alloc₂.hasFlag, alloc₁.hasFlag] at noTemp
    rw [accessed.others 1 (notZero noTemp) (by decide), before.others 1 (by decide) (by decide), zeroed noTemp]
  refine wp_mono (wp_addPtr isZ _ zeroed₂) ?_
  rintro _ code' s' ⟨_, after⟩
  constructor
  · rw [← there, ← moved]
    exact AVRState.pair_congr (after.others 26 (by decide) (by decide)) (after.others 27 (by decide) (by decide))
  · intro a beyond
    rw [after.memory, accessed.outside a (Or.inr (by omega)), before.memory]

/-! ### All operations -/

/-- Code runs in one way only. -/
theorem RunsTo.unique {seg : List Insn} {s₁ s₂ : AVRState} (first : RunsTo seg s s₁) (second : RunsTo seg s s₂) :
    s₁.r = s₂.r ∧ s₁.memory = s₂.memory := by
  obtain ⟨whole, insns⟩ : ∃ whole : Code, whole.insns = seg := ⟨{ Code.new with insns := seg }, rfl⟩
  have parts : whole.insns = [] ++ seg ++ [] := by rw [insns, List.append_nil, List.nil_append]
  have ends (final : AVRState) : execLoop whole 1 (final.at (([] : List Insn).length + seg.length)) =
      some (.ok (final.at (([] : List Insn).length + seg.length))) := by
    have last : (final.at (([] : List Insn).length + seg.length)).pc = whole.insns.length := by
      rw [insns]
      exact Nat.zero_add seg.length
    rw [execLoop, if_pos last]
    rfl
  have ran := first whole [] [] parts 1
  rw [second whole [] [] parts 1, ends, ends] at ran
  have same := Except.ok.inj (Option.some.inj ran)
  exact ⟨(congrArg AVRState.r same).symm, (congrArg AVRState.memory same).symm⟩

/-- An operation on memory behind a pointer, without its offset. -/
inductive Access where
  | ldxLong (reg : Reg)
  | ldyLong (reg : Reg)
  | ldzLong (reg : Reg)
  | stxLong (reg : Reg)
  | styLong (reg : Reg)
  | stzLong (reg : Reg)
  | ldyXor (reg : Reg)
  | ldzXor (reg : Reg)
  | ldyXorIn (reg : Reg)
  | ldzXorIn (reg : Reg)
  | stxZero (count : Nat)
  | styZero (count : Nat)
  | stzZero (count : Nat)

namespace Access

/-- The member of `Code` for an operation. -/
def emit (offset : Nat) : Access → Build Unit
  | ldxLong reg => Avr.ldxLong reg offset
  | ldyLong reg => Avr.ldyLong reg offset
  | ldzLong reg => Avr.ldzLong reg offset
  | stxLong reg => Avr.stxLong reg offset
  | styLong reg => Avr.styLong reg offset
  | stzLong reg => Avr.stzLong reg offset
  | ldyXor reg => Avr.ldyXor reg offset
  | ldzXor reg => Avr.ldzXor reg offset
  | ldyXorIn reg => Avr.ldyXorIn reg offset
  | ldzXorIn reg => Avr.ldzXorIn reg offset
  | stxZero count => Avr.stxZero offset count
  | styZero count => Avr.styZero offset count
  | stzZero count => Avr.stzZero offset count

/-- The first register of the pointer. -/
def pointer : Access → Nat
  | ldxLong _ | stxLong _ | stxZero _ => 26
  | ldyLong _ | styLong _ | ldyXor _ | ldyXorIn _ | styZero _ => 28
  | ldzLong _ | stzLong _ | ldzXor _ | ldzXorIn _ | stzZero _ => 30

/-- The register of an operation. -/
def reg : Access → Reg
  | ldxLong reg | ldyLong reg | ldzLong reg | stxLong reg | styLong reg | stzLong reg => reg
  | ldyXor reg | ldzXor reg | ldyXorIn reg | ldzXorIn reg => reg
  | stxZero _ | styZero _ | stzZero _ => []

/-- The number of bytes of memory. -/
def size : Access → Nat
  | stxZero count | styZero count | stzZero count => count
  | op => op.reg.length

/-- What an operation is to do with each byte. -/
def transfer : Access → Transfer
  | ldxLong _ | ldyLong _ | ldzLong _ => .load
  | stxLong _ | styLong _ | stzLong _ => .store
  | ldyXor _ | ldzXor _ => .xor
  | ldyXorIn _ | ldzXorIn _ => .xorIn
  | stxZero _ | styZero _ | stzZero _ => .zero

/-- When an operation is generated and does what it is to do: the store behind X needs no move of X, and there is a
temporary register where one is needed. -/
def meets (code : Code) (offset : Nat) : Access → Prop
  | stxLong reg => reg.length = 0 ∨ (offset = 0 ∧ reg.length = 1)
  | ldyXor _ | ldzXor _ | ldyXorIn _ | ldzXorIn _ => hasSpare code = true
  | stxZero _ | styZero _ | stzZero _ => hasZeroReg code = true
  | _ => True

end Access

/-- What the claim about an operation says of it: it is generated, and wherever its bytes are inside memory, its code
transfers them and leaves the rest. -/
def Access.Right (code : Code) (offset : Nat) (op : Access) : Prop :=
  ∃ seg code', (op.emit offset).run code = .ok ((), code') ∧ code'.insns = code.insns ++ seg ∧
    ∀ s, Zeroed code s → s.pair op.pointer + offset + op.size ≤ memSize →
      ∃ s', RunsTo seg s s' ∧ Transfers op.transfer code op.reg op.size (s.pair op.pointer + offset) s s'

/-- An operation that is generated, and whose code does what it is to do when the builder succeeds. -/
theorem Access.right_of_wp {op : Access} {offset : Nat} {P : Code → Prop}
    (generates : Generates (op.emit offset) (fun _ => P) code)
    (transfers : ∀ s, Zeroed code s → s.pair op.pointer + offset + op.size ≤ memSize →
      target.wp (op.emit offset) (fun _ code' s' => SamePool code code' ∧
        Transfers op.transfer code op.reg op.size (s.pair op.pointer + offset) s s') code s)
    (somewhere : ∃ s : AVRState, Zeroed code s ∧ s.pair op.pointer + offset + op.size ≤ memSize) :
    op.Right code offset := by
  obtain ⟨_, code', ran, _⟩ := generates
  obtain ⟨s₀, zeroed₀, inside₀⟩ := somewhere
  obtain ⟨seg, _, parts, _⟩ := runsTo_of_wp (transfers s₀ zeroed₀ inside₀) ran
  refine ⟨seg, code', ran, parts, fun s zeroed inside => ?_⟩
  obtain ⟨seg', s', parts', runs, _, holds⟩ := runsTo_of_wp (transfers s zeroed inside) ran
  rw [parts, List.append_cancel_left_eq] at parts'
  exact ⟨s', parts' ▸ runs, holds⟩

/-- A machine with a pointer at zero, other registers at `0xFF` and no bytes in memory. -/
def pointerAtZero (code : Code) (p : Nat) : AVRState :=
  { AVRState.new with
    r := fun i => if i = p ∨ i = p + 1 ∨ (i = 1 ∧ code.hasFlag tempR1 = false) then 0x00#8 else 0xFF#8
    memory := fun _ => 0x00#8 }

theorem pointerAtZero_zeroed (code : Code) (p : Nat) : Zeroed code (pointerAtZero code p) :=
  fun noTemp => if_pos (Or.inr (Or.inr ⟨rfl, noTemp⟩))

theorem pointerAtZero_pair (code : Code) (p : Nat) : (pointerAtZero code p).pair p = 0 := by
  have low : (pointerAtZero code p).r p = 0x00#8 := if_pos (Or.inl rfl)
  have high : (pointerAtZero code p).r (p + 1) = 0x00#8 := if_pos (Or.inr (Or.inl rfl))
  rw [AVRState.pair, low, high]
  rfl

theorem Access.isPointer (op : Access) : IsPointer op.pointer := by
  cases op with
  | ldxLong | stxLong | stxZero => exact Or.inl rfl
  | ldyLong | styLong | ldyXor | ldyXorIn | styZero => exact Or.inr (Or.inl rfl)
  | ldzLong | stzLong | ldzXor | ldzXorIn | stzZero => exact Or.inr (Or.inr rfl)

/-- Where the condition holds, the operation does what it is to do. -/
theorem Access.right_of_meets {op : Access} {offset : Nat} (pool : Pool code) (given : Given code op.pointer op.reg)
    (low : Held code op.pointer) (high : Held code (op.pointer + 1)) (inside : offset + op.size ≤ memSize)
    (meets : op.meets code offset) : op.Right code offset := by
  have bytes : Bytes op.reg := fun r member => (given.held r member).lt
  have somewhere : ∃ s : AVRState, Zeroed code s ∧ s.pair op.pointer + offset + op.size ≤ memSize := by
    refine ⟨pointerAtZero code op.pointer, pointerAtZero_zeroed code _, ?_⟩
    rw [pointerAtZero_pair, Nat.zero_add]
    exact inside
  have notStore {type : InsnType} {reg : Reg} (other : type ≠ .stX) :
      type = .stX → reg.length = 0 ∨ (offset = 0 ∧ reg.length = 1) ∨ 64 < offset + reg.length := fun same => absurd same other
  cases op with
  | ldxLong reg =>
      exact right_of_wp (generates_ldStLong (notStore (by simp))) (fun s zeroed fits =>
        wp_ldStLong pool (Or.inl rfl) (accesses_load (Or.inl ⟨rfl, rfl⟩)) (Or.inl ⟨rfl, rfl⟩) zeroed given fits) somewhere
  | ldyLong reg =>
      exact right_of_wp (generates_ldStLong (notStore (by simp))) (fun s zeroed fits =>
        wp_ldStLong pool (Or.inr (Or.inl rfl)) (accesses_load (Or.inr (Or.inl ⟨rfl, rfl⟩)))
          (Or.inr (Or.inl ⟨Or.inl rfl, rfl⟩)) zeroed given fits) somewhere
  | ldzLong reg =>
      exact right_of_wp (generates_ldStLong (notStore (by simp))) (fun s zeroed fits =>
        wp_ldStLong pool (Or.inr (Or.inr rfl)) (accesses_load (Or.inr (Or.inr ⟨rfl, rfl⟩)))
          (Or.inr (Or.inr (Or.inl ⟨Or.inl rfl, rfl⟩))) zeroed given fits) somewhere
  | stxLong reg =>
      have few : ¬(0 < reg.length ∧ 64 < offset + reg.length) := by
        rintro ⟨some_byte, far⟩
        rcases meets with empty | ⟨rfl, single⟩
        · omega
        · omega
      exact right_of_wp (generates_ldStLong fun _ => meets.imp id Or.inl) (fun s zeroed fits =>
        wp_ldStLong pool (Or.inl rfl) (accesses_store (Or.inl ⟨rfl, rfl⟩))
          (Or.inr (Or.inr (Or.inr ⟨rfl, rfl, few⟩))) zeroed given fits) somewhere
  | styLong reg =>
      exact right_of_wp (generates_ldStLong (notStore (by simp))) (fun s zeroed fits =>
        wp_ldStLong pool (Or.inr (Or.inl rfl)) (accesses_store (Or.inr (Or.inl ⟨rfl, rfl⟩)))
          (Or.inr (Or.inl ⟨Or.inr rfl, rfl⟩)) zeroed given fits) somewhere
  | stzLong reg =>
      exact right_of_wp (generates_ldStLong (notStore (by simp))) (fun s zeroed fits =>
        wp_ldStLong pool (Or.inr (Or.inr rfl)) (accesses_store (Or.inr (Or.inr ⟨rfl, rfl⟩)))
          (Or.inr (Or.inr (Or.inl ⟨Or.inr rfl, rfl⟩))) zeroed given fits) somewhere
  | ldyXor reg =>
      exact right_of_wp (generates_ldXor pool (Or.inl rfl) meets bytes) (fun s zeroed fits =>
        wp_ldXor pool (Or.inl ⟨rfl, rfl⟩) low high meets zeroed given fits) somewhere
  | ldzXor reg =>
      exact right_of_wp (generates_ldXor pool (Or.inr rfl) meets bytes) (fun s zeroed fits =>
        wp_ldXor pool (Or.inr ⟨rfl, rfl⟩) low high meets zeroed given fits) somewhere
  | ldyXorIn reg =>
      exact right_of_wp (generates_ldXorIn pool (Or.inl rfl) meets bytes) (fun s zeroed fits =>
        wp_ldXorIn pool (Or.inl ⟨rfl, rfl⟩) low high meets zeroed given fits) somewhere
  | ldzXorIn reg =>
      exact right_of_wp (generates_ldXorIn pool (Or.inr rfl) meets bytes) (fun s zeroed fits =>
        wp_ldXorIn pool (Or.inr ⟨rfl, rfl⟩) low high meets zeroed given fits) somewhere
  | stxZero count =>
      exact right_of_wp (generates_stZero pool (Or.inl rfl) meets) (fun s zeroed fits =>
        wp_stZero pool (Or.inl ⟨rfl, rfl⟩) low high meets zeroed fits) somewhere
  | styZero count =>
      exact right_of_wp (generates_stZero pool (Or.inr (Or.inl rfl)) meets) (fun s zeroed fits =>
        wp_stZero pool (Or.inr (Or.inl ⟨rfl, rfl⟩)) low high meets zeroed fits) somewhere
  | stzZero count =>
      exact right_of_wp (generates_stZero pool (Or.inr (Or.inr rfl)) meets) (fun s zeroed fits =>
        wp_stZero pool (Or.inr (Or.inr ⟨rfl, rfl⟩)) low high meets zeroed fits) somewhere

/-- A store behind X that is to move X is not generated, or does something else. -/
theorem Access.stxLong_wrong {reg : Reg} {offset : Nat} (pool : Pool code) (given : Given code 26 reg)
    (low : Held code 26) (high : Held code 27) (inside : offset + reg.length ≤ memSize) (right : (Access.stxLong reg).Right code offset) :
    reg.length = 0 ∨ (offset = 0 ∧ reg.length = 1) := by
  apply Classical.byContradiction
  intro beyond
  obtain ⟨seg, code', ran, parts, transfers⟩ := right
  by_cases near : offset + reg.length ≤ 64
  · exact fails_stxLong near beyond () code' ran
  · have far := Nat.not_le.1 near
    have some_byte : 0 < reg.length := Nat.pos_of_ne_zero fun empty => beyond (Or.inl empty)
    have zeroed := pointerAtZero_zeroed code 26
    have start := pointerAtZero_pair code 26
    have room : (pointerAtZero code 26).pair 26 + reg.length ≤ memSize := by omega
    obtain ⟨s', runs, holds⟩ := transfers (pointerAtZero code 26) zeroed (by
      show (pointerAtZero code 26).pair 26 + offset + reg.length ≤ memSize
      omega)
    obtain ⟨seg', s₂, parts', runs', moved, kept⟩ :=
      runsTo_of_wp (wp_stxLong_far some_byte far zeroed given (given.notZero pool) room) ran
    rw [parts, List.append_cancel_left_eq] at parts'
    obtain ⟨sameRegs, sameMemory⟩ := runs.unique (parts' ▸ runs')
    rw [start, Nat.zero_add] at moved kept
    by_cases single : reg.length = 1
    · -- The byte at the offset is not written.
      have member := Accessed.reg_mem some_byte
      have full : (pointerAtZero code 26).r (reg.reg 0) = 0xFF#8 := by
        refine if_neg ?_
        rintro (isLow | isHigh | ⟨isOne, noTemp⟩)
        · exact given.notLow (isLow ▸ member)
        · exact given.notHigh (isHigh ▸ member)
        · exact given.notZero pool noTemp (isOne ▸ member)
      have stored : s'.memory ((pointerAtZero code 26).pair 26 + offset + 0) = (pointerAtZero code 26).r (reg.reg 0) :=
        holds.memory 0 some_byte
      rw [start, Nat.zero_add, Nat.add_zero, full, sameMemory, kept offset (by omega)] at stored
      exact absurd stored (by decide : (0x00#8 : Byte) ≠ 0xFF#8)
    · -- X is not where it was.
      have back : s'.pair 26 = (pointerAtZero code 26).pair 26 :=
        AVRState.pair_congr (holds.others 26 (Or.inl low) given.notLow) (holds.others 27 (Or.inl high) given.notHigh)
      have same : s'.pair 26 = s₂.pair 26 := AVRState.pair_congr (congrFun sameRegs 26) (congrFun sameRegs 27)
      rw [same, moved, start] at back
      omega

theorem Access.meets_of_right {op : Access} {offset : Nat} (pool : Pool code) (given : Given code op.pointer op.reg)
    (low : Held code op.pointer) (high : Held code (op.pointer + 1)) (inside : offset + op.size ≤ memSize)
    (right : op.Right code offset) : op.meets code offset := by
  have noTemp {f : Nat → Build Unit} (none : ¬hasSpare code = true) : Fails (tempreg >>= f) code :=
    fails_bind fun t code' ran => by
      rw [tempreg_noSpare none] at ran
      exact nomatch ran
  have noZero {f : Reg → Build Unit} (none : ¬hasZeroReg code = true) : Fails (stZeroReg >>= f) code := by
    rw [hasZeroReg, Bool.or_eq_true, not_or, ← firstFree_isSome, Option.not_isSome_iff_eq_none, Bool.not_eq_true',
      Bool.not_eq_false] at none
    refine fails_bind fun zero code' ran => ?_
    unfold stZeroReg at ran
    rw [StateT.run_bind, StateT.run_get] at ran
    simp only [pure_bind] at ran
    rw [if_pos none.1, StateT.run_bind, allocateReg_one_run, none.2] at ran
    exact nomatch ran
  have ⟨seg, code', ran, _⟩ := right
  cases op with
  | ldxLong | ldyLong | ldzLong | styLong | stzLong => trivial
  | stxLong reg => exact stxLong_wrong pool given low high inside right
  | ldyXor | ldzXor | ldyXorIn | ldzXorIn => exact Classical.byContradiction fun none => noTemp none () code' ran
  | stxZero | styZero | stzZero => exact Classical.byContradiction fun none => noZero none () code' ran

/-- An operation on memory behind a pointer that is in use, with a register that somebody holds, is generated and
transfers exactly its bytes, if and only if it is not `stx_long` beyond the byte under X and finds its temporary
register. -/
theorem access_transfers_iff {op : Access} {offset : Nat} (pool : Pool code) (given : Given code op.pointer op.reg)
    (low : Held code op.pointer) (high : Held code (op.pointer + 1)) (inside : offset + op.size ≤ memSize) :
    op.Right code offset ↔ op.meets code offset :=
  ⟨Access.meets_of_right pool given low high inside, Access.right_of_meets pool given low high inside⟩

theorem pool_twoRegisters : Pool twoRegisters := ⟨rfl, fun _ => rfl, fun _ => rfl⟩

/-- Two registers that are loaded from behind Z, far from it. -/
theorem access_transfers_iff_ldz :
    (Access.ldzLong [18, 19]).Right twoRegisters 100 ↔ (Access.ldzLong [18, 19]).meets twoRegisters 100 := by
  refine access_transfers_iff pool_twoRegisters ⟨by decide, ?_, by decide, by decide⟩ ?_ ?_ (by decide)
  · intro r member
    refine Or.inl ?_
    rcases List.mem_cons.1 member with rfl | last
    · decide
    · rw [List.mem_singleton.1 last]
      decide
  · exact Or.inr ⟨by decide, by decide, by decide⟩
  · exact Or.inr ⟨by decide, by decide, by decide⟩

/-- A store of two registers behind X is not generated, and one of two registers at an offset of 100 is stored at X
itself, which it leaves one byte further. -/
theorem stxLong_misses :
    (stxLong [18, 19] 0).run twoRegisters = .error "invalid X pointer offset" ∧
      ∃ code', (stxLong [18, 19] 100).run twoRegisters = .ok ((), code') ∧
        (execLoop code' 8 (pointerAtZero twoRegisters 26)).map (fun final => final.map fun s =>
          (s.memory.read 0 2, s.memory.read 100 2, s.pair 26)) = some (.ok ([0xFF#8, 0xFF#8], [0x00#8, 0x00#8], 1)) :=
  ⟨rfl, _, rfl, by decide +kernel⟩

end AsconSuite.Avr
