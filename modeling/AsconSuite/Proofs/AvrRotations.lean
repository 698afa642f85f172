/-
Module: AsconSuite.Proofs.AvrRotations
Layer: Proofs
Purpose: The rotations: bytes that are kept in temporary registers or on the stack while others are moved, the strips of
  `rol_bytes` and `ror_bytes`, and what `rol` and `ror` leave in a register.
Imports: AsconSuite.Proofs.AvrBitShifts
Trusted boundary: none
Main exports: Avr.bracket, Avr.wp_bracket
-/
import AsconSuite.Proofs.AvrBitShifts

namespace AsconSuite.Avr

open ByteWord ByteMemory ByteNumber BitStrings
open Emit (Target)
open Emit.Target

variable {code code' : Code} {s s' : AVRState} {Q : Unit → Code → AVRState → Prop}

/-! ### The stack -/

theorem pair_setPair (s : AVRState) {value : Nat} (small : value < 65536) : (s.setPair 32 value).pair 32 = value := by
  have low : (s.setPair 32 value).r 32 = BitVec.ofNat 8 value := by
    rw [AVRState.setPair, AVRState.setReg_other _ _ (by decide), AVRState.setReg_self]
  have high : (s.setPair 32 value).r (32 + 1) = BitVec.ofNat 8 (value / 256) := AVRState.setReg_self _ _ _
  rw [AVRState.pair, low, high, BitVec.toNat_ofNat, BitVec.toNat_ofNat]
  omega

theorem setPair_other (s : AVRState) (value : Nat) {r : Nat} (low : r ≠ 32) (high : r ≠ 33) :
    (s.setPair 32 value).r r = s.r r := by
  rw [AVRState.setPair, AVRState.setReg_other _ _ high, AVRState.setReg_other _ _ low]

/-- The bytes of the stack pointer are those of its number. -/
theorem pointer_of_pair (same : s'.pair 32 = s.pair 32) {r : Nat} (pointer : r = 32 ∨ r = 33) : s'.r r = s.r r := by
  rw [AVRState.pair, AVRState.pair] at same
  have low := (s.r 32).isLt
  have low' := (s'.r 32).isLt
  rcases pointer with rfl | rfl
  · exact BitVec.eq_of_toNat_eq (by omega)
  · have isHigh : (32 + 1 : Nat) = 33 := rfl
    rw [isHigh] at same
    exact BitVec.eq_of_toNat_eq (by omega)

/-- What a push or a pop leaves as it was. -/
structure MovesPointer (written : List Nat) (code : Code) (s : AVRState) (code' : Code) (s' : AVRState) : Prop where
  alloc : SameAlloc code code'
  others : ∀ r, r ≠ 32 → r ≠ 33 → r ∉ written → s'.r r = s.r r

theorem wp_push {r : Nat} (room : 0 < s.pair 32) (inside : s.pair 32 ≤ memSize)
    (holds : ∀ code' s', MovesPointer [] code s code' s' → s'.pair 32 = s.pair 32 - 1 →
      s'.memory = s.memory.store (s.pair 32 - 1) (s.r r) → Q () code' s') : target.wp (onereg .push r) Q code s := by
  refine wp_onereg fun _ => ?_
  have pointer : s.ptr 32 preDec = .ok (s.pair 32 - 1, s.setPair 32 (s.pair 32 - 1)) := by
    rw [AVRState.ptr, if_pos rfl, if_neg (by omega)]
    rfl
  have stored : stepInsn s ⟨.push, r, 0⟩ = .ok { s.setPair 32 (s.pair 32 - 1) with
      memory := s.memory.store (s.pair 32 - 1) (s.r r) } := by
    have unfolded : stepInsn s ⟨.push, r, 0⟩ = s.store 32 preDec (s.r r) := rfl
    rw [unfolded, AVRState.store, pointer]
    rfl
  have size : memSize = 4096 := rfl
  refine ⟨_, stored, holds _ _ ⟨sameAlloc_pushed _ _, fun r' low high _ => setPair_other s _ low high⟩ ?_ rfl⟩
  exact pair_setPair s (by omega)

theorem wp_pop {r : Nat} (inside : s.pair 32 < memSize)
    (holds : ∀ code' s', MovesPointer [r] code s code' s' → s'.r r = s.memory (s.pair 32) →
      s'.pair 32 = s.pair 32 + 1 → s'.memory = s.memory → Q () code' s') : target.wp (onereg .pop r) Q code s := by
  refine wp_onereg fun byte => ?_
  have pointer : s.ptr 32 postInc = .ok (s.pair 32, s.setPair 32 (s.pair 32 + 1)) := by
    rw [AVRState.ptr, if_neg (by decide), if_pos rfl, if_neg (by omega)]
    rfl
  have loaded : stepInsn s ⟨.pop, r, 0⟩ = .ok ((s.setPair 32 (s.pair 32 + 1)).setReg r (s.memory (s.pair 32))) := by
    have unfolded : stepInsn s ⟨.pop, r, 0⟩ = s.loadTo r 32 postInc := rfl
    rw [unfolded, AVRState.loadTo, AVRState.load, pointer]
    rfl
  have size : memSize = 4096 := rfl
  refine ⟨_, loaded, holds _ _ ⟨sameAlloc_pushed _ _, fun r' low high other => ?_⟩ (AVRState.setReg_self _ r _) ?_ rfl⟩
  · rw [AVRState.setReg_other _ _ fun same => other (List.mem_singleton.2 same), setPair_other s _ low high]
  · have moved := pair_setPair s (by omega : s.pair 32 + 1 < 65536)
    rw [AVRState.pair] at moved ⊢
    rw [AVRState.setReg_other _ _ (by omega), AVRState.setReg_other _ _ (by omega)]
    exact moved

/-! ### Bytes that are kept aside -/

/-- A byte that is kept aside: in a temporary register or on the stack, where it comes from and where it goes to. -/
abbrev Kept.Item := Option Nat × Nat × Nat

/-- Some bytes are kept aside around a piece of code. -/
def bracket (body : Build Unit) : List Kept.Item → Build Unit
  | [] => body
  | item :: rest => do
      saveByte item.1 item.2.1
      bracket body rest
      restoreByte item.1 item.2.2

/-- All bytes are saved first, and taken back in the opposite order. -/
theorem bracket_eq (body : Build Unit) (items : List Kept.Item) :
    (do
      items.forM fun item => saveByte item.1 item.2.1
      body
      items.reverse.forM fun item => restoreByte item.1 item.2.2) = bracket body items := by
  induction items with
  | nil => exact bind_pure body
  | cons item rest ih =>
      rw [bracket, ← ih, List.reverse_cons]
      simp only [List.forM_eq_forM, List.forM_append, List.forM_cons, List.forM_nil, bind_assoc, bind_pure_unit]

/-- The move of a byte that is kept aside. -/
def Kept.pairOf (item : Kept.Item) : Nat × Nat := (item.2.2, item.2.1)

/-- The temporary registers of a bracket hold nothing that the moves read or write. -/
structure Bracketed (items : List Kept.Item) (pairs : List (Nat × Nat)) : Prop where
  dests : ((items.map Kept.pairOf ++ pairs).map Prod.fst).Nodup
  temps : (items.filterMap Prod.fst).Nodup
  apart : ∀ t ∈ items.filterMap Prod.fst, ∀ p ∈ items.map Kept.pairOf ++ pairs, t ≠ p.1 ∧ t ≠ p.2
  bytes : ∀ p ∈ items.map Kept.pairOf ++ pairs, p.1 < 32 ∧ p.2 < 32
  tempBytes : ∀ t ∈ items.filterMap Prod.fst, t < 32

theorem Bracketed.written {items : List Kept.Item} {pairs : List (Nat × Nat)} (bracketed : Bracketed items pairs) :
    Bytes ((items.map Kept.pairOf ++ pairs).map Prod.fst ++ items.filterMap Prod.fst) := by
  intro r member
  rcases List.mem_append.1 member with isDest | isTemp
  · obtain ⟨p, isPair, rfl⟩ := List.mem_map.1 isDest
    exact (bracketed.bytes p isPair).1
  · exact bracketed.tempBytes r isTemp

theorem wp_bracket {items : List Kept.Item} {pairs : List (Nat × Nat)} {body : Build Unit}
    (moves : ∀ code s, target.wp body (fun _ => Moved pairs [] code s) code s) (bracketed : Bracketed items pairs)
    (room : items.length ≤ s.pair 32) (inside : s.pair 32 ≤ memSize) :
    target.wp (bracket body items)
      (fun _ => Moved (items.map Kept.pairOf ++ pairs) (items.filterMap Prod.fst) code s) code s := by
  induction items generalizing code s with
  | nil => exact moves code s
  | cons item rest ih =>
      obtain ⟨temp, source, dest⟩ := item
      have member {p : Nat × Nat} (isRest : p ∈ rest.map Kept.pairOf ++ pairs) :
          p ∈ ((temp, source, dest) :: rest).map Kept.pairOf ++ pairs := List.mem_cons_of_mem _ isRest
      have first : (dest, source) ∈ ((temp, source, dest) :: rest).map Kept.pairOf ++ pairs := List.mem_cons_self
      obtain ⟨fresh, dests⟩ := List.nodup_cons.1 bracketed.dests
      have other {p : Nat × Nat} (isRest : p ∈ rest.map Kept.pairOf ++ pairs) : p.1 ≠ dest := fun same =>
        fresh (List.mem_map.2 ⟨p, isRest, same⟩)
      rw [List.length_cons] at room
      cases temp with
      | some t =>
          obtain ⟨apartTemp, temps⟩ := List.nodup_cons.1 bracketed.temps
          have isTemp {t' : Nat} (isRest : t' ∈ rest.filterMap Prod.fst) :
              t' ∈ ((some t, source, dest) :: rest).filterMap Prod.fst := List.mem_cons_of_mem t isRest
          have rest_bracketed : Bracketed rest pairs :=
            ⟨dests, temps, fun t' isRest p isPair => bracketed.apart t' (isTemp isRest) p (member isPair),
              fun p isPair => bracketed.bytes p (member isPair), fun t' isRest => bracketed.tempBytes t' (isTemp isRest)⟩
          have apart := bracketed.apart t List.mem_cons_self
          have byte := bracketed.tempBytes t List.mem_cons_self
          refine wp_bind (wp_mov fun code₁ s₁ exact₁ saved _ => ?_)
          have pointer₁ : s₁.pair 32 = s.pair 32 := exact₁.within.pair fun r single => by
            rw [List.mem_singleton.1 single]
            exact byte
          refine wp_bind (wp_mono (ih rest_bracketed (by omega) (by omega)) fun _ code₂ s₂ moved => ?_)
          refine wp_mov fun code₃ s₃ exact₃ restored _ => ⟨?_, ?_⟩
          · have written := bracketed.written
            refine ((exact₁.withinMono fun r single => ?_).trans written (moved.toWithin.mono fun r isWritten => ?_)).trans
              written (exact₃.withinMono fun r single => ?_)
            · rw [List.mem_singleton.1 single]
              exact List.mem_append_right _ List.mem_cons_self
            · rcases List.mem_append.1 isWritten with isDest | isOther
              · exact List.mem_append_left _ (List.mem_cons_of_mem dest isDest)
              · exact List.mem_append_right _ (isTemp isOther)
            · rw [List.mem_singleton.1 single]
              exact List.mem_append_left _ List.mem_cons_self
          · intro p isPair
            rcases List.mem_cons.1 isPair with rfl | isRest
            · have kept : s₂.r t = s₁.r t := moved.others t fun written => by
                rcases List.mem_append.1 written with isDest | isOther
                · obtain ⟨p, isRest, same⟩ := List.mem_map.1 isDest
                  exact (apart p (member isRest)).1 same.symm
                · exact apartTemp isOther
              exact (restored.trans kept).trans saved
            · rw [exact₃.others p.1 fun single => other isRest (List.mem_singleton.1 single), moved.copied p isRest]
              exact exact₁.others p.2 fun single => (apart p isPair).2 (List.mem_singleton.1 single).symm
      | none =>
          have rest_bracketed : Bracketed rest pairs :=
            ⟨dests, bracketed.temps, fun t' isRest p isPair => bracketed.apart t' isRest p (member isPair),
              fun p isPair => bracketed.bytes p (member isPair), bracketed.tempBytes⟩
          have byte {p : Nat × Nat} (isPair : p ∈ ((none, source, dest) :: rest).map Kept.pairOf ++ pairs) :=
            bracketed.bytes p isPair
          refine wp_bind (wp_push (by omega) inside fun code₁ s₁ moves₁ pointer₁ stored => ?_)
          refine wp_bind (wp_mono (ih rest_bracketed (by omega) (by omega)) fun _ code₂ s₂ moved => ?_)
          have pointer₂ : s₂.pair 32 = s₁.pair 32 := moved.pair rest_bracketed.written
          refine wp_pop (by omega) fun code₃ s₃ moves₃ loaded pointer₃ same₃ => ?_
          have pointer : s₃.pair 32 = s.pair 32 := by omega
          have kept_byte : s₂.memory (s₂.pair 32) = s.r source := by
            rw [moved.memory _ (Nat.le_of_eq pointer₂.symm), pointer₂, pointer₁, stored]
            exact if_pos rfl
          refine ⟨⟨(moves₁.alloc.trans moved.alloc).trans moves₃.alloc, fun r unwritten => ?_, fun a above => ?_⟩,
            fun p isPair => ?_⟩
          · by_cases isPointer : r = 32 ∨ r = 33
            · exact pointer_of_pair pointer isPointer
            · obtain ⟨low, high⟩ := not_or.1 isPointer
              rw [moves₃.others r low high, moved.others r, moves₁.others r low high List.not_mem_nil]
              · intro isWritten
                rcases List.mem_append.1 isWritten with isDest | isOther
                · exact unwritten (List.mem_append_left _ (List.mem_cons_of_mem dest isDest))
                · exact unwritten (List.mem_append_right _ isOther)
              · intro single
                rw [List.mem_singleton.1 single] at unwritten
                exact unwritten (List.mem_append_left _ List.mem_cons_self)
          · rw [same₃, moved.memory a (by omega), stored]
            exact if_neg (by omega)
          · obtain ⟨low, high⟩ := byte isPair
            rcases List.mem_cons.1 isPair with rfl | isRest
            · exact loaded.trans kept_byte
            · rw [moves₃.others p.1 (by omega) (by omega) fun single => other isRest (List.mem_singleton.1 single),
                moved.copied p isRest]
              exact moves₁.others p.2 (by omega) (by omega) List.not_mem_nil

/-! ### Bytes of one register that go around -/

/-- Where the bytes of a register come from and where they go: some are kept aside, the others are moved in an order in
which no byte is written that is read or written later. -/
structure Turn (size kept : Nat) (source dest : Nat → Nat) (order : List Nat) (moveSource moveDest : Nat → Nat) :
    Prop where
  inside : ∀ i < kept, source i < size ∧ dest i < size
  moveInside : ∀ j ∈ order, moveSource j < size ∧ moveDest j < size
  distinct : ∀ i < kept, ∀ i' < kept, dest i = dest i' → i = i'
  apart : ∀ i < kept, ∀ j ∈ order, dest i ≠ moveDest j
  ordered : order.Pairwise fun j j' => moveDest j ≠ moveSource j' ∧ moveDest j ≠ moveDest j'

/-- The temporary registers that a rotation finds are distinct byte registers apart from the register itself. -/
structure Temps (temps reg : Reg) : Prop where
  nodup : temps.Nodup
  apart : ∀ t ∈ temps, t ∉ reg
  bytes : Bytes temps

/-- The moves of a turn. -/
def turnPairs (reg : Reg) (kept : Nat) (source dest : Nat → Nat) (order : List Nat) (moveSource moveDest : Nat → Nat) :
    List (Nat × Nat) :=
  (List.range kept).map (fun i => (reg.reg (dest i), reg.reg (source i))) ++
    order.map fun j => (reg.reg (moveDest j), reg.reg (moveSource j))

theorem Reg.reg_mem {reg : Reg} {i : Nat} (inside : i < reg.length) : reg.reg i ∈ reg := by
  rw [Reg.reg_eq_getElem inside]
  exact List.getElem_mem inside

variable {size kept : Nat} {source dest moveSource moveDest : Nat → Nat} {order : List Nat}

theorem Turn.mem {reg : Reg} (turn : Turn reg.length kept source dest order moveSource moveDest) :
    ∀ p ∈ turnPairs reg kept source dest order moveSource moveDest, p.1 ∈ reg ∧ p.2 ∈ reg := by
  intro p member
  rcases List.mem_append.1 member with isKept | isMove
  · obtain ⟨i, below, rfl⟩ := List.mem_map.1 isKept
    obtain ⟨source, dest⟩ := turn.inside i (List.mem_range.1 below)
    exact ⟨Reg.reg_mem dest, Reg.reg_mem source⟩
  · obtain ⟨j, inOrder, rfl⟩ := List.mem_map.1 isMove
    obtain ⟨source, dest⟩ := turn.moveInside j inOrder
    exact ⟨Reg.reg_mem dest, Reg.reg_mem source⟩

theorem filterMap_range_getElem? (temps : Reg) (count : Nat) :
    (List.range count).filterMap (fun i => temps[i]?) = temps.take count := by
  induction count with
  | zero => rfl
  | succ count ih =>
      rw [List.range_succ, List.filterMap_append, ih, List.take_add_one, List.filterMap_cons]
      cases temps[count]? <;> rfl

theorem wp_turn {reg temps : Reg} (code : Code) (turn : Turn reg.length kept source dest order moveSource moveDest)
    (isTemps : Temps temps reg) (nodup : reg.Nodup) (bytes : Bytes reg) (room : kept ≤ s.pair 32)
    (inside : s.pair 32 ≤ memSize) :
    target.wp (do
      (List.range kept).forM fun i => saveByte temps[i]? (reg.reg (source i))
      order.forM fun j => tworeg .mov (reg.reg (moveDest j)) (reg.reg (moveSource j))
      (List.range kept).reverse.forM fun i => restoreByte temps[i]? (reg.reg (dest i)))
      (fun _ => Moved (turnPairs reg kept source dest order moveSource moveDest) temps code s) code s := by
  let items : List Kept.Item := (List.range kept).map fun i => (temps[i]?, reg.reg (source i), reg.reg (dest i))
  let moves : List (Nat × Nat) := order.map fun j => (reg.reg (moveDest j), reg.reg (moveSource j))
  have pairs : items.map Kept.pairOf ++ moves = turnPairs reg kept source dest order moveSource moveDest := by
    rw [List.map_map]
    rfl
  have used : items.filterMap Prod.fst = temps.take kept := by
    rw [List.filterMap_map, ← filterMap_range_getElem?]
    rfl
  have program : (do
      (List.range kept).forM fun i => saveByte temps[i]? (reg.reg (source i))
      order.forM fun j => tworeg .mov (reg.reg (moveDest j)) (reg.reg (moveSource j))
      (List.range kept).reverse.forM fun i => restoreByte temps[i]? (reg.reg (dest i))) =
      bracket (moves.forM fun p => tworeg .mov p.1 p.2) items := by
    rw [← bracket_eq]
    simp only [items, moves, ← List.map_reverse, List.forM_eq_forM, List.forM_map]
  have dests : ((items.map Kept.pairOf ++ moves).map Prod.fst).Nodup := by
    have keptDests : (items.map Kept.pairOf).map Prod.fst = (List.range kept).map fun i => reg.reg (dest i) := by
      rw [List.map_map, List.map_map]
      rfl
    have moveDests : moves.map Prod.fst = order.map fun j => reg.reg (moveDest j) := by
      rw [List.map_map]
      rfl
    rw [List.map_append, keptDests, moveDests]
    refine List.nodup_append.2 ⟨?_, ?_, ?_⟩
    · refine List.Nodup.map_on (fun i member i' member' same => ?_) List.nodup_range
      have below := List.mem_range.1 member
      have below' := List.mem_range.1 member'
      by_contra other
      exact Reg.reg_ne nodup (turn.inside i below).2 (turn.inside i' below').2
        (fun same => other (turn.distinct i below i' below' same)) same
    · refine List.pairwise_map.2 (turn.ordered.imp_of_mem fun {j j'} member member' order => ?_)
      exact Reg.reg_ne nodup (turn.moveInside j member).2 (turn.moveInside j' member').2 order.2
    · rintro r isKept r' isMove rfl
      obtain ⟨i, member, rfl⟩ := List.mem_map.1 isKept
      obtain ⟨j, inOrder, same⟩ := List.mem_map.1 isMove
      have below := List.mem_range.1 member
      exact Reg.reg_ne nodup (turn.inside i below).2 (turn.moveInside j inOrder).2 (turn.apart i below j inOrder)
        same.symm
  have mem_temps {t : Nat} (member : t ∈ items.filterMap Prod.fst) : t ∈ temps := by
    rw [used] at member
    exact List.mem_of_mem_take member
  have bracketed : Bracketed items moves := by
    refine ⟨dests, ?_, fun t member p isPair => ?_, fun p isPair => ?_, fun t member => ?_⟩
    · rw [used]
      exact isTemps.nodup.sublist (List.take_sublist kept temps)
    · rw [pairs] at isPair
      have apart := isTemps.apart t (mem_temps member)
      exact ⟨fun same => apart (same ▸ (turn.mem p isPair).1), fun same => apart (same ▸ (turn.mem p isPair).2)⟩
    · rw [pairs] at isPair
      exact ⟨bytes p.1 (turn.mem p isPair).1, bytes p.2 (turn.mem p isPair).2⟩
    · exact isTemps.bytes t (mem_temps member)
  have length : items.length = kept := by rw [List.length_map, List.length_range]
  rw [program]
  refine wp_mono (wp_bracket (fun code s => wp_moves ?_ ?_) bracketed (by omega) inside) fun _ code' s' moved => ?_
  · exact fun p isPair => (bracketed.bytes p (List.mem_append_right _ isPair)).1
  · refine List.pairwise_map.2 (turn.ordered.imp_of_mem fun {j j'} member member' order => ?_)
    obtain ⟨source, dest⟩ := turn.moveInside j member
    obtain ⟨source', dest'⟩ := turn.moveInside j' member'
    exact ⟨Reg.reg_ne nodup dest source' order.1, Reg.reg_ne nodup dest dest' order.2⟩
  · rw [pairs] at moved
    refine ⟨moved.toWithin.mono fun r member => ?_, moved.copied⟩
    rcases List.mem_append.1 member with isDest | isTemp
    · exact List.mem_append_left _ isDest
    · exact List.mem_append_right _ (mem_temps isTemp)

/-! ### Rotations by bytes -/

/-- The bytes of a register were rotated to the left when every byte has gone up. -/
theorem Moved.rotated_left {reg : Reg} {count : Nat} {pairs : List (Nat × Nat)} {scratch : List Nat}
    (moved : Moved pairs scratch code s code' s')
    (all : ∀ i < reg.length, (reg.reg ((i + count) % reg.length), reg.reg i) ∈ pairs) :
    (reg.map s'.r).rotate count = reg.map s.r := by
  apply List.ext_getElem
  · rw [List.length_rotate, List.length_map, List.length_map]
  · intro i inside' inside
    rw [List.length_map] at inside
    have copied := moved.copied _ (all i inside)
    have place := Nat.mod_lt (i + count) (Nat.zero_lt_of_lt inside)
    rw [List.getElem_rotate, List.getElem_map, List.getElem_map, ← Reg.reg_eq_getElem inside]
    simp only [List.length_map]
    rw [← Reg.reg_eq_getElem place]
    exact copied

/-- The bytes of a register were rotated to the right when every byte has gone down. -/
theorem Moved.rotated_right {reg : Reg} {count : Nat} {pairs : List (Nat × Nat)} {scratch : List Nat}
    (moved : Moved pairs scratch code s code' s')
    (all : ∀ i < reg.length, (reg.reg i, reg.reg ((i + count) % reg.length)) ∈ pairs) :
    reg.map s'.r = (reg.map s.r).rotate count := by
  apply List.ext_getElem
  · rw [List.length_rotate, List.length_map, List.length_map]
  · intro i inside inside'
    rw [List.length_map] at inside
    have copied := moved.copied _ (all i inside)
    have place := Nat.mod_lt (i + count) (Nat.zero_lt_of_lt inside)
    rw [List.getElem_rotate, List.getElem_map, List.getElem_map, ← Reg.reg_eq_getElem inside]
    simp only [List.length_map]
    rw [← Reg.reg_eq_getElem place]
    exact copied

/-- The turn of `rol_bytes`: the high bytes are kept aside and the others go up. -/
theorem turn_rol {size count : Nat} (le : count ≤ size) :
    Turn size count (size - count + ·) (·) (List.range (size - count)).reverse (·) (· + count) where
  inside := fun i below => ⟨by omega, by omega⟩
  moveInside := fun j member => by
    have below := List.mem_range.1 (List.mem_reverse.1 member)
    exact ⟨by omega, by omega⟩
  distinct := fun i _ i' _ same => same
  apart := fun i below j _ => by omega
  ordered := List.pairwise_reverse.2 (List.pairwise_lt_range.imp fun less => ⟨by omega, by omega⟩)

/-- The turn of `ror_bytes`: the low bytes are kept aside and the others go down. -/
theorem turn_ror {size count : Nat} (le : count ≤ size) :
    Turn size count (·) (size - count + ·) (List.range (size - count)) (· + count) (·) where
  inside := fun i below => ⟨by omega, by omega⟩
  moveInside := fun j member => by
    have below := List.mem_range.1 member
    exact ⟨by omega, by omega⟩
  distinct := fun i _ i' _ same => by omega
  apart := fun i below j member => by
    have below := List.mem_range.1 member
    omega
  ordered := List.pairwise_lt_range.imp fun less => ⟨by omega, by omega⟩

/-- The moves of a rotation to the left. -/
def rolPairs (reg : Reg) (count : Nat) : List (Nat × Nat) :=
  turnPairs reg count (reg.length - count + ·) (·) (List.range (reg.length - count)).reverse (·) (· + count)

/-- The moves of a rotation to the right. -/
def rorPairs (reg : Reg) (count : Nat) : List (Nat × Nat) :=
  turnPairs reg count (·) (reg.length - count + ·) (List.range (reg.length - count)) (· + count) (·)

theorem mem_rolPairs {reg : Reg} {count i : Nat} (le : count ≤ reg.length) (inside : i < reg.length) :
    (reg.reg ((i + count) % reg.length), reg.reg i) ∈ rolPairs reg count := by
  by_cases low : i < reg.length - count
  · refine List.mem_append_right _ (List.mem_map.2 ⟨i, List.mem_reverse.2 (List.mem_range.2 low), ?_⟩)
    rw [Nat.mod_eq_of_lt (by omega)]
  · refine List.mem_append_left _ (List.mem_map.2 ⟨i - (reg.length - count), List.mem_range.2 (by omega), ?_⟩)
    have source : reg.length - count + (i - (reg.length - count)) = i := by omega
    have dest : (i + count) % reg.length = i - (reg.length - count) := by
      rw [Nat.mod_eq_sub_mod (by omega), Nat.mod_eq_of_lt (by omega)]
      omega
    dsimp only
    rw [source, dest]

theorem mem_rorPairs {reg : Reg} {count i : Nat} (le : count ≤ reg.length) (inside : i < reg.length) :
    (reg.reg i, reg.reg ((i + count) % reg.length)) ∈ rorPairs reg count := by
  by_cases low : i < reg.length - count
  · refine List.mem_append_right _ (List.mem_map.2 ⟨i, List.mem_range.2 low, ?_⟩)
    rw [Nat.mod_eq_of_lt (by omega)]
  · refine List.mem_append_left _ (List.mem_map.2 ⟨i - (reg.length - count), List.mem_range.2 (by omega), ?_⟩)
    have dest : reg.length - count + (i - (reg.length - count)) = i := by omega
    have source : (i + count) % reg.length = i - (reg.length - count) := by
      rw [Nat.mod_eq_sub_mod (by omega), Nat.mod_eq_of_lt (by omega)]
      omega
    dsimp only
    rw [source, dest]

/-! ### Strips -/

/-- The bytes of one strip. -/
def stripOf (reg : Reg) (count strip : Nat) : Reg :=
  (List.range (reg.length / count)).map fun posn => reg.reg (strip + posn * count)

@[simp] theorem length_stripOf (reg : Reg) (count strip : Nat) : (stripOf reg count strip).length = reg.length / count := by
  rw [stripOf, List.length_map, List.length_range]

theorem reg_stripOf {reg : Reg} {count strip posn : Nat} (below : posn < reg.length / count) :
    Reg.reg (stripOf reg count strip) posn = reg.reg (strip + posn * count) := by
  rw [Reg.reg_eq_getElem (by rw [length_stripOf]; exact below)]
  simp only [stripOf, List.getElem_map, List.getElem_range]

/-- A position of a strip is inside the register. -/
theorem strip_inside {reg : Reg} {count strip posn : Nat} (isStrip : strip < count) (below : posn < reg.length / count) :
    strip + posn * count < reg.length := by
  have next : (posn + 1) * count ≤ reg.length / count * count := Nat.mul_le_mul_right count below
  have le := Nat.div_mul_le_self reg.length count
  rw [Nat.add_mul, Nat.one_mul] at next
  omega

theorem mem_stripOf {reg : Reg} {count strip r : Nat} (isStrip : strip < count) (member : r ∈ stripOf reg count strip) :
    r ∈ reg := by
  obtain ⟨posn, below, rfl⟩ := List.mem_map.1 member
  exact Reg.reg_mem (strip_inside isStrip (List.mem_range.1 below))

/-- Positions of strips are different unless the strips and the positions in them are the same. -/
theorem strip_inj {count strip strip' posn posn' : Nat} (isStrip : strip < count) (isStrip' : strip' < count)
    (same : strip + posn * count = strip' + posn' * count) : strip = strip' ∧ posn = posn' := by
  have some_strip := Nat.zero_lt_of_lt isStrip
  have rest := congrArg (· % count) same
  have quotient := congrArg (· / count) same
  simp only [Nat.add_mul_mod_self_right, Nat.mod_eq_of_lt isStrip, Nat.mod_eq_of_lt isStrip'] at rest
  simp only [Nat.add_mul_div_right _ _ some_strip, Nat.div_eq_of_lt isStrip, Nat.div_eq_of_lt isStrip',
    Nat.zero_add] at quotient
  exact ⟨rest, quotient⟩

theorem nodup_stripOf {reg : Reg} {count strip : Nat} (nodup : reg.Nodup) (isStrip : strip < count) :
    (stripOf reg count strip).Nodup := by
  refine List.Nodup.map_on (fun posn member posn' member' same => ?_) List.nodup_range
  by_contra other
  exact Reg.reg_ne nodup (strip_inside isStrip (List.mem_range.1 member)) (strip_inside isStrip (List.mem_range.1 member'))
    (fun same => other (strip_inj isStrip isStrip same).2) same

theorem disjoint_stripOf {reg : Reg} {count strip strip' r r' : Nat} (nodup : reg.Nodup) (isStrip : strip < count)
    (isStrip' : strip' < count) (other : strip ≠ strip') (member : r ∈ stripOf reg count strip)
    (member' : r' ∈ stripOf reg count strip') : r ≠ r' := by
  obtain ⟨posn, below, rfl⟩ := List.mem_map.1 member
  obtain ⟨posn', below', rfl⟩ := List.mem_map.1 member'
  exact Reg.reg_ne nodup (strip_inside isStrip (List.mem_range.1 below)) (strip_inside isStrip' (List.mem_range.1 below'))
    fun same => other (strip_inj isStrip isStrip' same).1

/-- The strips are moved one after the other, each as a turn of its own. -/
theorem wp_strips {reg temps : Reg} {count : Nat} (pairs : Nat → List (Nat × Nat)) {program : Nat → Build Unit}
    (nodup : reg.Nodup) (bytes : Bytes reg) (isTemps : Temps temps reg) (inside : s.pair 32 ≤ memSize)
    (room : 0 < s.pair 32)
    (mem : ∀ strip < count, ∀ p ∈ pairs strip, p.1 ∈ stripOf reg count strip ∧ p.2 ∈ stripOf reg count strip)
    (turn : ∀ strip < count, ∀ code s, s.pair 32 ≤ memSize → 0 < s.pair 32 →
      target.wp (program strip) (fun _ => Moved (pairs strip) temps code s) code s) :
    target.wp ((List.range count).forM program)
      (fun _ => Moved ((List.range count).flatMap pairs) temps code s) code s := by
  have member {strip : Nat} {p : Nat × Nat} (isStrip : strip < count) (isPair : p ∈ pairs strip) :
      p.1 ∈ reg ∧ p.2 ∈ reg :=
    ⟨mem_stripOf isStrip (mem strip isStrip p isPair).1, mem_stripOf isStrip (mem strip isStrip p isPair).2⟩
  have written {strips : List Nat} (sub : ∀ strip ∈ strips, strip < count) :
      Bytes ((strips.flatMap pairs).map Prod.fst ++ temps) := by
    intro r isWritten
    rcases List.mem_append.1 isWritten with isDest | isTemp
    · obtain ⟨p, isPair, rfl⟩ := List.mem_map.1 isDest
      obtain ⟨strip, isStrip, isPair⟩ := List.mem_flatMap.1 isPair
      exact bytes p.1 (member (sub strip isStrip) isPair).1
    · exact isTemps.bytes r isTemp
  refine wp_forM (fun done => Moved (done.flatMap pairs) temps code s) (Moved.nil temps code s) ?_
  intro done strip rest parts code₁ s₁ moved
  have all : (done ++ strip :: rest).Nodup := parts ▸ List.nodup_range
  have below {strip' : Nat} (isDone : strip' ∈ done ++ [strip]) : strip' < count := by
    refine List.mem_range.1 (parts ▸ ?_)
    rcases List.mem_append.1 isDone with before | single
    · exact List.mem_append_left _ before
    · rw [List.mem_singleton.1 single]
      exact List.mem_append_right _ List.mem_cons_self
  have isStrip : strip < count := below (List.mem_append_right _ List.mem_cons_self)
  have pointer : s₁.pair 32 = s.pair 32 :=
    moved.pair (written fun strip' isDone => below (List.mem_append_left _ isDone))
  refine wp_mono (turn strip isStrip code₁ s₁ (by omega) (by omega)) fun _ code' s' moved' => ?_
  have flat : (done ++ [strip]).flatMap pairs = done.flatMap pairs ++ pairs strip := by
    rw [List.flatMap_append, List.flatMap_singleton]
  have isWritten : Bytes (((done ++ [strip]).flatMap pairs).map Prod.fst ++ temps) := written fun strip' => below
  rw [flat] at isWritten ⊢
  refine moved.append isWritten ?_ ?_ moved'
  · intro p isDone q isPair
    obtain ⟨strip', isDone, isPair'⟩ := List.mem_flatMap.1 isDone
    have isStrip' := below (List.mem_append_left _ isDone)
    have other : strip' ≠ strip := by
      rintro rfl
      exact (List.nodup_append.1 all).2.2 strip' isDone strip' List.mem_cons_self rfl
    have dest := (mem strip' isStrip' p isPair').1
    have others := mem strip isStrip q isPair
    exact ⟨disjoint_stripOf nodup isStrip' isStrip other dest others.2,
      disjoint_stripOf nodup isStrip' isStrip other dest others.1⟩
  · intro p isPair
    rw [← flat] at isPair
    obtain ⟨strip', isDone, isPair⟩ := List.mem_flatMap.1 isPair
    obtain ⟨dest, source⟩ := member (below isDone) isPair
    exact ⟨fun isTemp => isTemps.apart _ isTemp dest, fun isTemp => isTemps.apart _ isTemp source⟩

theorem forM_range_one (f : Nat → Build Unit) : (List.range 1).forM f = f 0 := bind_pure (f 0)

theorem toList_getElem?_zero (temp : Option Nat) : temp.toList[0]? = temp := by
  cases temp <;> rfl

/-- A strip of `rol_bytes` is a rotation by one of the bytes in the strip. -/
theorem rolStrip_eq {reg : Reg} {count strip : Nat} (temp : Option Nat) (some_byte : 0 < reg.length / count)
    (isStrip : strip < count) :
    (do
      saveByte temp (reg.reg ((strip + (reg.length / count - 1) * count) % reg.length))
      (List.range (reg.length / count - 1)).reverse.forM fun posn =>
        tworeg .mov (reg.reg ((strip + (posn + 1) * count) % reg.length))
          (reg.reg ((strip + posn * count) % reg.length))
      restoreByte temp (reg.reg strip)) =
    (do
      (List.range 1).forM fun i =>
        saveByte temp.toList[i]? (Reg.reg (stripOf reg count strip) ((stripOf reg count strip).length - 1 + i))
      (List.range ((stripOf reg count strip).length - 1)).reverse.forM fun j =>
        tworeg .mov (Reg.reg (stripOf reg count strip) (j + 1)) (Reg.reg (stripOf reg count strip) j)
      (List.range 1).reverse.forM fun i => restoreByte temp.toList[i]? (Reg.reg (stripOf reg count strip) i)) := by
  have single : (List.range 1).reverse = List.range 1 := rfl
  have place {posn : Nat} (below : posn < reg.length / count) :
      reg.reg ((strip + posn * count) % reg.length) = Reg.reg (stripOf reg count strip) posn := by
    rw [reg_stripOf below, Nat.mod_eq_of_lt (strip_inside isStrip below)]
  have first : reg.reg strip = Reg.reg (stripOf reg count strip) 0 := by
    rw [reg_stripOf some_byte, Nat.zero_mul, Nat.add_zero]
  rw [single, forM_range_one, forM_range_one, toList_getElem?_zero, length_stripOf, Nat.add_zero,
    place (by omega : reg.length / count - 1 < reg.length / count), first]
  congr 1
  funext _
  congr 1
  refine Emit.forM_congr fun posn member => ?_
  have below := List.mem_range.1 (List.mem_reverse.1 member)
  rw [place (by omega : posn + 1 < reg.length / count), place (by omega : posn < reg.length / count)]

/-- A strip of `ror_bytes` is a rotation by one of the bytes in the strip. -/
theorem rorStrip_eq {reg : Reg} {count strip : Nat} (temp : Option Nat) (some_byte : 0 < reg.length / count)
    (isStrip : strip < count) :
    (do
      saveByte temp (reg.reg strip)
      (List.range (reg.length / count - 1)).forM fun posn =>
        tworeg .mov (reg.reg ((strip + posn * count) % reg.length))
          (reg.reg ((strip + (posn + 1) * count) % reg.length))
      restoreByte temp (reg.reg ((strip + (reg.length / count - 1) * count) % reg.length))) =
    (do
      (List.range 1).forM fun i => saveByte temp.toList[i]? (Reg.reg (stripOf reg count strip) i)
      (List.range ((stripOf reg count strip).length - 1)).forM fun j =>
        tworeg .mov (Reg.reg (stripOf reg count strip) j) (Reg.reg (stripOf reg count strip) (j + 1))
      (List.range 1).reverse.forM fun i =>
        restoreByte temp.toList[i]?
          (Reg.reg (stripOf reg count strip) ((stripOf reg count strip).length - 1 + i))) := by
  have single : (List.range 1).reverse = List.range 1 := rfl
  have place {posn : Nat} (below : posn < reg.length / count) :
      reg.reg ((strip + posn * count) % reg.length) = Reg.reg (stripOf reg count strip) posn := by
    rw [reg_stripOf below, Nat.mod_eq_of_lt (strip_inside isStrip below)]
  have first : reg.reg strip = Reg.reg (stripOf reg count strip) 0 := by
    rw [reg_stripOf some_byte, Nat.zero_mul, Nat.add_zero]
  rw [single, forM_range_one, forM_range_one, toList_getElem?_zero, length_stripOf, Nat.add_zero,
    place (by omega : reg.length / count - 1 < reg.length / count), first]
  congr 1
  funext _
  congr 1
  refine Emit.forM_congr fun posn member => ?_
  have below := List.mem_range.1 member
  rw [place (by omega : posn + 1 < reg.length / count), place (by omega : posn < reg.length / count)]

/-- A position of a strip, one further around. -/
theorem strip_next {reg : Reg} {count i : Nat} (some_strip : 0 < count) (divides : reg.length % count = 0)
    (inside : i < reg.length) :
    (i + count) % reg.length = i % count + (i / count + 1) % (reg.length / count) * count := by
  have whole : reg.length / count * count = reg.length := Nat.div_mul_cancel (Nat.dvd_of_mod_eq_zero divides)
  have parts := Nat.mod_add_div' i count
  have isStrip := Nat.mod_lt i some_strip
  have below : i / count < reg.length / count := Nat.div_lt_div_of_lt_of_dvd (Nat.dvd_of_mod_eq_zero divides) inside
  have next : i + count = i % count + (i / count + 1) * count := by
    rw [Nat.add_mul, Nat.one_mul]
    omega
  by_cases last : i / count + 1 = reg.length / count
  · rw [last, Nat.mod_self, Nat.zero_mul, Nat.add_zero, next, last, whole, Nat.add_mod_right]
    exact Nat.mod_eq_of_lt (Nat.lt_of_le_of_lt (Nat.mod_le i count) inside)
  · rw [Nat.mod_eq_of_lt (by omega : i / count + 1 < reg.length / count), next]
    exact Nat.mod_eq_of_lt (strip_inside isStrip (by omega))

/-! ### Temporary registers of the rotations -/

theorem wp_stripTemp {P : Option Nat → Code → AVRState → Prop} (ready : Ready code s)
    (holds : ∀ temp code', (∀ t ∈ temp.toList, Spare code' t) → Kept [] code s code' s → P temp code' s) :
    target.wp stripTemp P code s := by
  refine wp_bind (wp_haveTempreg ready fun code₁ kept₁ => wp_ite (fun _ => ?_) fun _ => ?_)
  · refine wp_bind (wp_tempreg kept₁.ready fun temp code₂ spare kept₂ => wp_pure (holds (some temp) code₂ ?_ ?_))
    · intro t member
      rw [List.mem_singleton.1 member]
      exact spare
    · exact kept₁.trans (fun _ member => nomatch member) kept₂
  · exact wp_pure (holds none code₁ (fun _ member => nomatch member) kept₁)

/-- The temporary registers that a rotation found: those that it took, and `r0` where that is nobody's. -/
structure Found (temps found : Reg) (code code' : Code) : Prop where
  took : Took found code code'
  temps : temps = found ∨ temps = found ++ [tempRegNumber] ∧ tempRegNumber ∉ found ∧ Spare code' tempRegNumber

theorem wp_rotationTemps {count : Nat} {P : Reg → Code → AVRState → Prop} (ready : Ready code s)
    (holds : ∀ temps found code', Found temps found code code' → P temps code' s) :
    target.wp (rotationTemps count) P code s := by
  refine wp_bind (wp_get (wp_ite (fun noTemp => ?_) fun _ => ?_))
  · rw [Bool.not_eq_true'] at noTemp
    refine wp_bind (wp_allocateOptionalReg ready.toConventions fun found code' _ took => ?_)
    refine wp_pure (holds _ found code' ⟨took, Or.inr ⟨rfl, fun member => ?_, ?_⟩⟩)
    · exact (ready.mem_regOrder (took.free _ member).2).2.1 noTemp rfl
    · refine spare_tempRegNumber (took.ready ready).toConventions ?_
      rw [took.hasFlag, noTemp]
      rfl
  · exact wp_allocateOptionalReg ready.toConventions fun found code' _ took => holds found found code' ⟨took, Or.inl rfl⟩

theorem Found.isTemps {temps found reg : Reg} (isFound : Found temps found code code') (ready : Ready code s)
    (owned : Owned code reg) : Temps temps reg := by
  have took := isFound.took
  have apart : ∀ t ∈ found, t ∉ reg := fun t member isReg => (took.free t member).1 (owned t isReg)
  have bytes : Bytes found := fun t member => (ready.mem_regOrder (took.free t member).2).1
  rcases isFound.temps with rfl | ⟨rfl, other, spare⟩
  · exact ⟨took.nodup, apart, bytes⟩
  · refine ⟨List.nodup_append.2 ⟨took.nodup, List.nodup_singleton _, fun t member t' single same => ?_⟩, fun t member => ?_,
      fun t member => ?_⟩
    · rw [List.mem_singleton.1 single] at same
      exact other (same ▸ member)
    · rcases List.mem_append.1 member with isFound | single
      · exact apart t isFound
      · rw [List.mem_singleton.1 single]
        exact fun isReg => spare.free ((took.allocated _).2 (Or.inl (owned _ isReg)))
    · rcases List.mem_append.1 member with isFound | single
      · exact bytes t isFound
      · rw [List.mem_singleton.1 single]
        exact spare.bound

/-- To release a register that is not allocated changes nothing. -/
theorem wp_releaseReg_free {found : Reg} {r : Nat} (bound : r < 32) (free : inRegs code.allocated r = false)
    (released : target.wp (releaseReg found) Q code s) (bytes : Bytes found) :
    target.wp (releaseReg (found ++ [r])) Q code s := by
  have same : (found ++ [r]).foldl (fun regs r => regs &&& ~~~regBit r) code.allocated =
      found.foldl (fun regs r => regs &&& ~~~regBit r) code.allocated := by
    rw [List.foldl_append, List.foldl_cons, List.foldl_nil]
    refine regs_ext fun r' => ?_
    rw [inRegs_and_not, and_iff_left_of_imp]
    intro isLeft
    rw [inRegs_release found _ bytes] at isLeft
    refine Bool.eq_false_iff.2 fun single => ?_
    rw [(inRegs_regBit bound r').1 single, free] at isLeft
    exact nomatch isLeft.1
  have program : (releaseReg (found ++ [r])).run code = (releaseReg found).run code :=
    congrArg (fun regs => (Except.ok ((), { code with allocated := regs }) : Except String (Unit × Code))) same
  intro a code' ran
  rw [program] at ran
  exact released a code' ran

/-- A turn with the temporary registers that were found, which are released behind it. -/
theorem Found.wp_release {temps found reg : Reg} {pairs : List (Nat × Nat)} {code₁ : Code} {s₁ : AVRState}
    (isFound : Found temps found code code') (ready : Ready code s) (owned : Owned code reg)
    (mem : ∀ p ∈ pairs, p.1 ∈ reg) (moved : Moved pairs temps code' s code₁ s₁)
    (holds : ∀ code'', Kept reg code s code'' s₁ → Q () code'' s₁) :
    target.wp (releaseReg temps) Q code₁ s₁ := by
  have took := isFound.took
  have ready' := took.ready ready
  have owned' {r : Nat} (member : r ∈ reg) : inRegs code'.allocated r = true :=
    (took.allocated r).2 (Or.inl (owned r member))
  have dest {r : Nat} (member : r ∈ pairs.map Prod.fst) : r ∈ reg := by
    obtain ⟨p, isPair, rfl⟩ := List.mem_map.1 member
    exact mem p isPair
  have isTemp {t : Nat} (member : t ∈ temps) : t ∈ found ∨ Spare code' t := by
    rcases isFound.temps with rfl | ⟨rfl, _, spare⟩
    · exact Or.inl member
    · refine (List.mem_append.1 member).imp_right fun single => ?_
      rw [List.mem_singleton.1 single]
      exact spare
  have kept : Kept (reg ++ found) code' s code₁ s₁ := by
    refine moved.toWithin.kept (fun r member => ?_) (fun r member allocated => ?_) ready'
    · rcases List.mem_append.1 member with isDest | member
      · exact ready'.writable (owned' (dest isDest))
      · exact (isTemp member).elim (took.writable ready) fun spare => spare.toWritable
    · rcases List.mem_append.1 member with isDest | member
      · exact List.mem_append_left _ (dest isDest)
      · exact (isTemp member).elim (List.mem_append_right _) fun spare => absurd allocated spare.free
  have released : target.wp (releaseReg found) Q code₁ s₁ :=
    wp_releaseReg reg took ready kept fun code'' kept _ => holds code'' kept
  rcases isFound.temps with rfl | ⟨rfl, _, spare⟩
  · exact released
  · refine wp_releaseReg_free spare.bound ?_ released fun t member => (ready.mem_regOrder (took.free t member).2).1
    rw [kept.allocated]
    exact Bool.eq_false_iff.2 spare.free

/-! ### `rol_bytes` and `ror_bytes` -/

theorem Temps.ofSpare {temp : Option Nat} {reg : Reg} (spare : ∀ t ∈ temp.toList, Spare code t)
    (owned : Owned code reg) : Temps temp.toList reg where
  nodup := by
    cases temp with
    | none => exact List.nodup_nil
    | some t => exact List.nodup_singleton t
  apart := fun t member => (spare t member).apart owned
  bytes := fun t member => (spare t member).bound

/-- Moves in a register with spare registers as scratch. -/
theorem Moved.keptSpares {reg temps : Reg} {pairs : List (Nat × Nat)} (moved : Moved pairs temps code s code' s')
    (mem : ∀ p ∈ pairs, p.1 ∈ reg) (spare : ∀ t ∈ temps, Spare code t) (ready : Ready code s) (owned : Owned code reg) :
    Kept reg code s code' s' := by
  have dest {r : Nat} (member : r ∈ pairs.map Prod.fst) : r ∈ reg := by
    obtain ⟨p, isPair, rfl⟩ := List.mem_map.1 member
    exact mem p isPair
  refine moved.toWithin.kept (fun r member => ?_) (fun r member allocated => ?_) ready
  · rcases List.mem_append.1 member with isDest | isTemp
    · exact ready.writable (owned r (dest isDest))
    · exact (spare r isTemp).toWritable
  · rcases List.mem_append.1 member with isDest | isTemp
    · exact dest isDest
    · exact absurd allocated (spare r isTemp).free

theorem Temps.less {temps reg other : Reg} (isTemps : Temps temps reg) (sub : ∀ r ∈ other, r ∈ reg) :
    Temps temps other := ⟨isTemps.nodup, fun t member isOther => isTemps.apart t member (sub t isOther), isTemps.bytes⟩

/-- Something behind a turn. -/
theorem bind_turn (save moves restore rest : Build Unit) :
    (do
      save
      moves
      restore
      rest) = ((do
      save
      moves
      restore) >>= fun _ => rest) := by
  simp only [bind_assoc]

theorem wp_rolBytesHalf {reg : Reg} {count : Nat} (some_byte : 0 < count) (le : count ≤ reg.length)
    (ready : Ready code s) (nodup : reg.Nodup) (owned : Owned code reg) :
    target.wp (rolBytesHalf reg count) (fun _ code' s' => Kept reg code s code' s' ∧
      (reg.map s'.r).rotate count = reg.map s.r) code s := by
  have few := owned.bytes.length_le nodup
  obtain ⟨room, inside⟩ := ready.stack
  refine wp_ite (fun divides => ?_) fun _ => ?_
  · have some_strip : 0 < reg.length / count := Nat.div_pos le some_byte
    refine wp_bind (wp_stripTemp ready fun temp code₁ spare kept₁ => ?_)
    have owned₁ := owned.kept kept₁
    have isTemps := Temps.ofSpare spare owned₁
    let pairs : Nat → List (Nat × Nat) := fun strip => rolPairs (stripOf reg count strip) 1
    have inStrip (strip : Nat) : 1 ≤ (stripOf reg count strip).length := by
      rw [length_stripOf]
      exact some_strip
    have mem : ∀ strip < count, ∀ p ∈ pairs strip, p.1 ∈ stripOf reg count strip ∧ p.2 ∈ stripOf reg count strip :=
      fun strip _ => (turn_rol (inStrip strip)).mem
    refine wp_mono (wp_strips pairs nodup owned.bytes isTemps inside (by omega) mem ?_) ?_
    · intro strip isStrip code s inside room
      refine wp_congr (rolStrip_eq temp some_strip isStrip) ?_
      exact wp_turn code (turn_rol (inStrip strip)) (isTemps.less fun r => mem_stripOf isStrip) (nodup_stripOf nodup isStrip)
        (fun r member => owned.bytes r (mem_stripOf isStrip member)) room inside
    · intro _ code' s' moved
      refine ⟨?_, moved.rotated_left fun i below => ?_⟩
      · refine (kept₁.mono fun _ member => nomatch member).trans owned.bytes (moved.keptSpares ?_ spare kept₁.ready owned₁)
        intro p isPair
        obtain ⟨strip, isStrip, isPair⟩ := List.mem_flatMap.1 isPair
        have isStrip := List.mem_range.1 isStrip
        exact mem_stripOf isStrip (mem strip isStrip p isPair).1
      · have isStrip := Nat.mod_lt i some_byte
        have posn : i / count < reg.length / count :=
          Nat.div_lt_div_of_lt_of_dvd (Nat.dvd_of_mod_eq_zero divides) below
        refine List.mem_flatMap.2 ⟨i % count, List.mem_range.2 isStrip, ?_⟩
        have isPair := mem_rolPairs (inStrip (i % count)) (by rw [length_stripOf]; exact posn)
        rw [length_stripOf, reg_stripOf (Nat.mod_lt _ some_strip), reg_stripOf posn, ← strip_next some_byte divides below,
          Nat.mod_add_div'] at isPair
        exact isPair
  · refine wp_bind (wp_rotationTemps ready fun temps found code₁ isFound => ?_)
    have turned := wp_turn code₁ (turn_rol le) (isFound.isTemps ready owned) nodup owned.bytes (by omega) inside
    refine wp_congr (bind_turn _ _ _ _) (wp_bind (wp_mono turned fun _ code₂ s₂ moved => ?_))
    refine isFound.wp_release ready owned (fun p isPair => ((turn_rol le).mem p isPair).1) moved fun code'' kept => ?_
    exact ⟨kept, moved.rotated_left fun i below => mem_rolPairs le below⟩

theorem wp_rorBytesHalf {reg : Reg} {count : Nat} (some_byte : 0 < count) (le : count ≤ reg.length)
    (ready : Ready code s) (nodup : reg.Nodup) (owned : Owned code reg) :
    target.wp (rorBytesHalf reg count) (fun _ code' s' => Kept reg code s code' s' ∧
      reg.map s'.r = (reg.map s.r).rotate count) code s := by
  have few := owned.bytes.length_le nodup
  obtain ⟨room, inside⟩ := ready.stack
  refine wp_ite (fun divides => ?_) fun _ => ?_
  · have some_strip : 0 < reg.length / count := Nat.div_pos le some_byte
    refine wp_bind (wp_stripTemp ready fun temp code₁ spare kept₁ => ?_)
    have owned₁ := owned.kept kept₁
    have isTemps := Temps.ofSpare spare owned₁
    let pairs : Nat → List (Nat × Nat) := fun strip => rorPairs (stripOf reg count strip) 1
    have inStrip (strip : Nat) : 1 ≤ (stripOf reg count strip).length := by
      rw [length_stripOf]
      exact some_strip
    have mem : ∀ strip < count, ∀ p ∈ pairs strip, p.1 ∈ stripOf reg count strip ∧ p.2 ∈ stripOf reg count strip :=
      fun strip _ => (turn_ror (inStrip strip)).mem
    refine wp_mono (wp_strips pairs nodup owned.bytes isTemps inside (by omega) mem ?_) ?_
    · intro strip isStrip code s inside room
      refine wp_congr (rorStrip_eq temp some_strip isStrip) ?_
      exact wp_turn code (turn_ror (inStrip strip)) (isTemps.less fun r => mem_stripOf isStrip) (nodup_stripOf nodup isStrip)
        (fun r member => owned.bytes r (mem_stripOf isStrip member)) room inside
    · intro _ code' s' moved
      refine ⟨?_, moved.rotated_right fun i below => ?_⟩
      · refine (kept₁.mono fun _ member => nomatch member).trans owned.bytes (moved.keptSpares ?_ spare kept₁.ready owned₁)
        intro p isPair
        obtain ⟨strip, isStrip, isPair⟩ := List.mem_flatMap.1 isPair
        have isStrip := List.mem_range.1 isStrip
        exact mem_stripOf isStrip (mem strip isStrip p isPair).1
      · have isStrip := Nat.mod_lt i some_byte
        have posn : i / count < reg.length / count :=
          Nat.div_lt_div_of_lt_of_dvd (Nat.dvd_of_mod_eq_zero divides) below
        refine List.mem_flatMap.2 ⟨i % count, List.mem_range.2 isStrip, ?_⟩
        have isPair := mem_rorPairs (inStrip (i % count)) (by rw [length_stripOf]; exact posn)
        rw [length_stripOf, reg_stripOf (Nat.mod_lt _ some_strip), reg_stripOf posn, ← strip_next some_byte divides below,
          Nat.mod_add_div'] at isPair
        exact isPair
  · refine wp_bind (wp_rotationTemps ready fun temps found code₁ isFound => ?_)
    have turned := wp_turn code₁ (turn_ror le) (isFound.isTemps ready owned) nodup owned.bytes (by omega) inside
    refine wp_congr (bind_turn _ _ _ _) (wp_bind (wp_mono turned fun _ code₂ s₂ moved => ?_))
    refine isFound.wp_release ready owned (fun p isPair => ((turn_ror le).mem p isPair).1) moved fun code'' kept => ?_
    exact ⟨kept, moved.rotated_right fun i below => mem_rorPairs le below⟩

/-- The bytes of a register are rotated to the left. -/
def RotatedLeft (reg : Reg) (count : Nat) (s s' : AVRState) : Prop := (reg.map s'.r).rotate count = reg.map s.r

/-- The bytes of a register are rotated to the right. -/
def RotatedRight (reg : Reg) (count : Nat) (s s' : AVRState) : Prop := reg.map s'.r = (reg.map s.r).rotate count

/-- More than half of the bytes go the other way. -/
theorem RotatedRight.left {reg : Reg} {count : Nat} (le : count ≤ reg.length)
    (rotated : RotatedRight reg (reg.length - count) s s') : RotatedLeft reg count s s' := by
  have length : (reg.map s.r).length = reg.length := List.length_map ..
  rw [RotatedLeft, rotated, List.rotate_rotate, Nat.sub_add_cancel le, ← length, List.rotate_length]

theorem RotatedLeft.right {reg : Reg} {count : Nat} (le : count ≤ reg.length)
    (rotated : RotatedLeft reg (reg.length - count) s s') : RotatedRight reg count s s' := by
  have length : (reg.map s'.r).length = reg.length := List.length_map ..
  rw [RotatedRight, ← rotated, List.rotate_rotate, Nat.sub_add_cancel le, ← length, List.rotate_length]

theorem wp_rolBytes {reg : Reg} (count : Nat) (ready : Ready code s) (nodup : reg.Nodup) (owned : Owned code reg) :
    target.wp (rolBytes reg count) (fun _ code' s' => Kept reg code s code' s' ∧ RotatedLeft reg count s s') code s := by
  have around {s' : AVRState} (rotated : RotatedLeft reg (count % reg.length) s s') : RotatedLeft reg count s s' := by
    have length : (reg.map s'.r).length = reg.length := List.length_map ..
    rw [RotatedLeft, ← List.rotate_mod, length]
    exact rotated
  have still : RotatedLeft reg 0 s s := List.rotate_zero _
  refine wp_ite (fun empty => wp_pure ⟨Kept.refl ready, ?_⟩) fun some_byte => wp_ite (fun none => ?_) fun some_step =>
    wp_ite (fun far => ?_) fun _ => ?_
  · rw [List.length_eq_zero_iff.1 empty]
    exact List.rotate_nil _
  · refine wp_pure ⟨Kept.refl ready, around ?_⟩
    rw [Reg.size] at none
    rw [none]
    exact still
  · rw [Reg.size] at some_byte some_step far ⊢
    have below := Nat.mod_lt count (Nat.pos_of_ne_zero some_byte)
    refine wp_mono (wp_rorBytesHalf (by omega) (by omega) ready nodup owned) ?_
    rintro _ code' s' ⟨kept, rotated⟩
    exact ⟨kept, around (RotatedRight.left (Nat.le_of_lt below) rotated)⟩
  · rw [Reg.size] at some_byte some_step ⊢
    have below := Nat.mod_lt count (Nat.pos_of_ne_zero some_byte)
    refine wp_mono (wp_rolBytesHalf (Nat.pos_of_ne_zero some_step) (Nat.le_of_lt below) ready nodup owned) ?_
    rintro _ code' s' ⟨kept, rotated⟩
    exact ⟨kept, around rotated⟩

theorem wp_rorBytes {reg : Reg} (count : Nat) (ready : Ready code s) (nodup : reg.Nodup) (owned : Owned code reg) :
    target.wp (rorBytes reg count) (fun _ code' s' => Kept reg code s code' s' ∧ RotatedRight reg count s s')
      code s := by
  have around {s' : AVRState} (rotated : RotatedRight reg (count % reg.length) s s') : RotatedRight reg count s s' := by
    have length : (reg.map s.r).length = reg.length := List.length_map ..
    rw [RotatedRight, ← List.rotate_mod, length]
    exact rotated
  have still : RotatedRight reg 0 s s := (List.rotate_zero _).symm
  refine wp_ite (fun empty => wp_pure ⟨Kept.refl ready, ?_⟩) fun some_byte => wp_ite (fun none => ?_) fun some_step =>
    wp_ite (fun far => ?_) fun _ => ?_
  · rw [List.length_eq_zero_iff.1 empty]
    exact (List.rotate_nil _).symm
  · refine wp_pure ⟨Kept.refl ready, around ?_⟩
    rw [Reg.size] at none
    rw [none]
    exact still
  · rw [Reg.size] at some_byte some_step far ⊢
    have below := Nat.mod_lt count (Nat.pos_of_ne_zero some_byte)
    refine wp_mono (wp_rolBytesHalf (by omega) (by omega) ready nodup owned) ?_
    rintro _ code' s' ⟨kept, rotated⟩
    exact ⟨kept, around (RotatedLeft.right (Nat.le_of_lt below) rotated)⟩
  · rw [Reg.size] at some_byte some_step ⊢
    have below := Nat.mod_lt count (Nat.pos_of_ne_zero some_byte)
    refine wp_mono (wp_rorBytesHalf (Nat.pos_of_ne_zero some_step) (Nat.le_of_lt below) ready nodup owned) ?_
    rintro _ code' s' ⟨kept, rotated⟩
    exact ⟨kept, around rotated⟩

end AsconSuite.Avr
