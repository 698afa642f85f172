/-
Module: AsconSuite.Proofs.X86Scheduling
Layer: Proofs
Purpose: The requests to move instructions that `flush_pipeline` of `tools/genx86/x86_common.c` applies: which
  lists of pending instructions are scheduled as they ask.
Imports: AsconSuite.Base.MoveRequests, AsconSuite.Tools.X86Pipeline
Trusted boundary: none (fully proved)
Main exports: X86.Scheduled, X86.Undisturbed, X86.rescheduleAt_orderly, X86.flush_schedules_iff
-/
import AsconSuite.Base.MoveRequests
import AsconSuite.Tools.X86Pipeline
import Mathlib.Tactic.Push

namespace AsconSuite.X86

open MoveRequests

/-! ### What scheduling is for -/

/-- The requests of a list of pending instructions are applied: each is done in the order of its moment or points out
of the list, every instruction is written exactly once, and those without a request keep their order. -/
structure Scheduled (insns out : List Insn) : Prop where
  applied : Relation.ReflTransGen (Applies Insn.offset Insn.done) insns out
  settled : Settled Insn.offset out
  once : (out.map Insn.done).Perm (insns.map Insn.done)
  written : ∀ intelSyntax, (out.map (writeInsn intelSyntax)).Perm (insns.map (writeInsn intelSyntax))
  order : (insns.filter (·.offset = 0)).Sublist out

/-- The request at an index can be computed, and if it stays inside the list, it points behind. -/
def Orderly (insns : List Insn) (index : Nat) : Prop :=
  ∀ insn, insns[index]? = some insn → insn.offset ≠ 0 →
    (index : Int) + insn.offset < 2 ^ 31 ∧ (StaysInside insns.length index insn.offset → 0 < insn.offset)

/-- If the instruction at an index is moved, the one behind it, which takes its place, has no request that stays
inside the list from there. -/
def Unfollowed (insns : List Insn) (index : Nat) : Prop :=
  ∀ insn, insns[index]? = some insn → insn.offset ≠ 0 → StaysInside insns.length index insn.offset →
    ∀ next, insns[index + 1]? = some next → next.offset ≠ 0 → ¬ StaysInside insns.length index next.offset

/-- The request at an index is orderly and loses no other one. -/
def Undisturbed (insns : List Insn) (index : Nat) : Prop := Orderly insns index ∧ Unfollowed insns index

/-! ### Requests -/

theorem Insn.done_done (insn : Insn) : insn.done.done = insn.done := rfl

/-- Requests done keep every instruction. -/
theorem Scheduled.of_applied {insns out : List Insn}
    (applied : Relation.ReflTransGen (Applies Insn.offset Insn.done) insns out) (settled : Settled Insn.offset out) :
    Scheduled insns out where
  applied := applied
  settled := settled
  once := Applies.once Insn.done_done applied
  written := by
    intro intelSyntax
    have lines := (Applies.once Insn.done_done applied).map (writeInsn intelSyntax)
    rw [List.map_map, List.map_map] at lines
    exact lines
  order := Applies.order applied

theorem sliceBytes_forward {passed : List Insn} (bounded : passed.length ≤ maxInsns) :
    sliceBytes passed.length = passed.length * sizeofInsn := by
  unfold sliceBytes sizeofInsn
  unfold maxInsns at bounded
  have low : (((passed.length : Int) % 2 ^ 64).toNat) = passed.length := by omega
  rw [low]
  omega

/-- The slice of an instruction that moves to the front has a length beyond the array. -/
theorem sliceBytes_backward {offset : Int} (low : -(maxInsns : Int) ≤ offset) (high : offset < 0) :
    maxInsns * sizeofInsn < sliceBytes offset := by
  unfold maxInsns at low
  have wrapped : (offset % 2 ^ 64).toNat * 56 = 2 ^ 64 - 56 * (-offset).toNat + 55 * 2 ^ 64 := by omega
  unfold sliceBytes sizeofInsn maxInsns
  rw [wrapped, Nat.add_mul_mod_self_right, Nat.mod_eq_of_lt (by omega)]
  omega

/-! ### One turn -/

/-- What an instruction passes on its way behind is moved one place to the front, and its last one is still there. -/
theorem memmoveInsns_forward (front : List Insn) (insn : Insn) (passed back : List Insn) (some_passed : passed ≠ [])
    (bounded : (front ++ insn :: (passed ++ back)).length ≤ maxInsns) :
    ∃ last, memmoveInsns (front ++ insn :: (passed ++ back)) front.length (front.length + 1)
      (sliceBytes passed.length) = some (front ++ (passed ++ last :: back)) := by
  have length : (front ++ insn :: (passed ++ back)).length = front.length + 1 + passed.length + back.length := by
    simp only [List.length_append, List.length_cons]
    omega
  rw [length] at bounded
  have fits : ¬ (maxInsns * sizeofInsn < front.length * sizeofInsn + passed.length * sizeofInsn ∨
      maxInsns * sizeofInsn < (front.length + 1) * sizeofInsn + passed.length * sizeofInsn) := by
    unfold sizeofInsn
    omega
  have count : passed.length * sizeofInsn / sizeofInsn = passed.length := Nat.mul_div_cancel _ (by decide)
  have slice : (front ++ insn :: (passed ++ back)).drop (front.length + 1) = passed ++ back := by
    rw [← List.drop_drop, List.drop_left, List.drop_succ_cons, List.drop_zero]
  obtain ⟨init, last, ends⟩ := List.eq_nil_or_concat passed |>.resolve_left some_passed
  rw [List.concat_eq_append] at ends
  have rest : (front ++ insn :: (passed ++ back)).drop (front.length + passed.length) = last :: back := by
    rw [← List.drop_drop, List.drop_left, ends, List.length_append, List.length_singleton, List.drop_succ_cons,
      List.append_assoc, List.drop_left]
    rfl
  refine ⟨last, ?_⟩
  unfold memmoveInsns
  rw [sliceBytes_forward (by omega), if_neg fits]
  simp only [count, rest]
  rw [List.take_left, slice, List.take_left, List.append_assoc]

/-- A request that points behind is done as it asks. -/
theorem rescheduleAt_forward (front : List Insn) (insn : Insn) (passed back : List Insn)
    (asked : insn.offset = passed.length) (some_passed : passed ≠ [])
    (bounded : (front ++ insn :: (passed ++ back)).length ≤ maxInsns)
    (small : (front.length : Int) + insn.offset < 2 ^ 31) :
    rescheduleAt (front ++ insn :: (passed ++ back)) front.length =
      some (front ++ (passed ++ insn.done :: back)) := by
  have here : (front ++ insn :: (passed ++ back))[front.length]? = some insn := by simp
  have asked_some : insn.offset ≠ 0 := asked_ne_zero (by omega) some_passed
  have inside : 0 < insn.offset ∧
      (front.length : Int) + insn.offset < (front ++ insn :: (passed ++ back)).length := by
    rw [← List.length_pos_iff] at some_passed
    simp only [List.length_append, List.length_cons]
    omega
  have target : ((front.length : Int) + insn.offset).toNat = front.length + passed.length := by omega
  obtain ⟨last, moved⟩ := memmoveInsns_forward front insn passed back some_passed bounded
  have behind : (front ++ (passed ++ last :: back)).set (front.length + passed.length) insn.done =
      front ++ (passed ++ insn.done :: back) := by
    rw [← List.append_assoc, ← List.length_append, List.set_append_right _ _ (Nat.le_refl _), Nat.sub_self,
      List.set_cons_zero, List.append_assoc]
  unfold rescheduleAt
  rw [here]
  simp only [if_neg asked_some, if_neg (Int.not_le.mpr small), if_pos inside, target]
  rw [asked, moved]
  exact congrArg some behind

/-- A turn whose request is orderly does it. -/
theorem rescheduleAt_orderly {insns : List Insn} {index : Nat} (bounded : insns.length ≤ maxInsns)
    (orderly : Orderly insns index) :
    rescheduleAt insns index = some (serve Insn.offset Insn.done insns index) := by
  cases here : insns[index]? with
  | none =>
      unfold rescheduleAt serve
      rw [here]
  | some insn =>
      by_cases asked : insn.offset = 0
      · have idle : ¬ (insn.offset ≠ 0 ∧ StaysInside insns.length index insn.offset) := fun h => h.1 asked
        unfold rescheduleAt serve
        rw [here]
        simp only [if_pos asked, if_neg idle]
      · obtain ⟨small, positive⟩ := orderly insn here asked
        by_cases inside : StaysInside insns.length index insn.offset
        · obtain ⟨front, passed, back, rfl, rfl, length, some_passed⟩ :=
            forward_parts here inside (positive inside)
          rw [rescheduleAt_forward front insn passed back length.symm some_passed bounded small,
            serve_forward Insn.offset Insn.done front insn passed back length.symm some_passed]
        · have front : ¬ (0 < insn.offset ∧ (index : Int) + insn.offset < insns.length) := by
            rintro ⟨positive, high⟩
            exact inside ⟨by omega, high⟩
          have back : ¬ (insn.offset < 0 ∧ 0 ≤ (index : Int) + insn.offset) := by
            rintro ⟨negative, low⟩
            obtain ⟨lower, _⟩ := List.getElem?_eq_some_iff.mp here
            exact inside ⟨low, by omega⟩
          have idle : ¬ (insn.offset ≠ 0 ∧ StaysInside insns.length index insn.offset) := fun h => inside h.2
          unfold rescheduleAt serve
          rw [here]
          simp only [if_neg asked, if_neg (Int.not_le.mpr small), if_neg front, if_neg back, if_neg idle]

/-- A turn whose request is not orderly is undefined behaviour. -/
theorem rescheduleAt_disorderly {insns : List Insn} {index : Nat} (bounded : insns.length ≤ maxInsns)
    (disorderly : ¬ Orderly insns index) : rescheduleAt insns index = none := by
  unfold Orderly at disorderly
  push Not at disorderly
  obtain ⟨insn, here, asked, wrong⟩ := disorderly
  obtain ⟨lower, _⟩ := List.getElem?_eq_some_iff.mp here
  unfold rescheduleAt
  rw [here]
  by_cases small : (index : Int) + insn.offset < 2 ^ 31
  · obtain ⟨⟨low, high⟩, negative⟩ := wrong small
    have below : insn.offset < 0 := by omega
    have front : ¬ (0 < insn.offset ∧ (index : Int) + insn.offset < insns.length) := by omega
    have long := sliceBytes_backward (by omega) below
    have beyond : memmoveInsns insns ((index : Int) + insn.offset + 1).toNat ((index : Int) + insn.offset).toNat
        (sliceBytes insn.offset) = none := by
      unfold memmoveInsns
      rw [if_pos]
      left
      omega
    simp only [if_neg asked, if_neg (Int.not_le.mpr small), if_neg front, if_pos (And.intro below low), beyond]
    rfl
  · simp only [if_neg asked, if_pos (Int.not_lt.mp small)]

/-! ### All turns -/

/-- An orderly request leaves what stands before it. -/
theorem serve_keeps_front {insns : List Insn} {index : Nat} (orderly : Orderly insns index) {place : Nat}
    (before : place < index) : (serve Insn.offset Insn.done insns index)[place]? = insns[place]? := by
  cases here : insns[index]? with
  | none =>
      unfold serve
      rw [here]
  | some insn =>
      by_cases asked : insn.offset ≠ 0 ∧ StaysInside insns.length index insn.offset
      · obtain ⟨some_offset, inside⟩ := asked
        have forward := (orderly insn here some_offset).2 inside
        obtain ⟨front, passed, back, rfl, rfl, length, some_passed⟩ := forward_parts here inside forward
        rw [serve_forward Insn.offset Insn.done front insn passed back length.symm some_passed,
          List.getElem?_append_left before, List.getElem?_append_left before]
      · unfold serve
        rw [here]
        simp only [if_neg asked]

/-- Behind an instruction that is moved its place holds the one that stood behind it. -/
theorem serve_takes_place {insns : List Insn} {index : Nat} (orderly : Orderly insns index) {insn : Insn}
    (here : insns[index]? = some insn) (asked : insn.offset ≠ 0)
    (inside : StaysInside insns.length index insn.offset) :
    (serve Insn.offset Insn.done insns index)[index]? = insns[index + 1]? := by
  have forward := (orderly insn here asked).2 inside
  obtain ⟨front, passed, back, rfl, rfl, length, some_passed⟩ := forward_parts here inside forward
  rw [serve_forward Insn.offset Insn.done front insn passed back length.symm some_passed]
  cases passed with
  | nil => exact absurd rfl some_passed
  | cons next passed =>
      rw [List.getElem?_append_right (Nat.le_refl _), List.getElem?_append_right (Nat.le_succ _), Nat.sub_self,
        Nat.succ_sub (Nat.le_refl _), Nat.sub_self]
      rfl

/-- Turns that go on leave what stands before them. -/
theorem rescheduleLoop_keeps_front {left : Nat} : ∀ {index : Nat} {insns out : List Insn},
    insns.length ≤ maxInsns → rescheduleLoop left index insns = some out →
    out.length = insns.length ∧ ∀ place < index, out[place]? = insns[place]? := by
  induction left with
  | zero =>
      intro index insns out _ done
      cases done
      exact ⟨rfl, fun _ _ => rfl⟩
  | succ left ih =>
      intro index insns out bounded done
      by_cases orderly : Orderly insns index
      · unfold rescheduleLoop at done
        rw [rescheduleAt_orderly bounded orderly] at done
        have length := serve_length Insn.offset Insn.done insns index
        obtain ⟨same, front⟩ := ih (by omega) done
        refine ⟨by omega, ?_⟩
        intro place before
        rw [front place (by omega), serve_keeps_front orderly before]
      · unfold rescheduleLoop at done
        rw [rescheduleAt_disorderly bounded orderly] at done
        cases done

/-- Turns whose requests are orderly do them one after another. -/
theorem rescheduleLoop_served {insns : List Insn} (bounded : insns.length ≤ maxInsns) (count left : Nat)
    (orderly : ∀ index < count, Orderly (served Insn.offset Insn.done insns index) index) :
    rescheduleLoop (count + left) 0 insns =
      rescheduleLoop left count (served Insn.offset Insn.done insns count) := by
  induction count generalizing left with
  | zero => rw [Nat.zero_add, served]
  | succ count ih =>
      have length := served_length Insn.offset Insn.done insns count
      have before := ih (left + 1) (fun index lower => orderly index (by omega))
      rw [Nat.add_assoc, Nat.add_comm 1 left, before]
      conv => lhs; unfold rescheduleLoop
      rw [rescheduleAt_orderly (by omega) (orderly count (Nat.lt_succ_self count))]
      rfl

/-- Up to a place no request is left that stays inside the list. -/
def SettledBefore (insns : List Insn) (count : Nat) : Prop :=
  ∀ place < count, ∀ insn, insns[place]? = some insn → insn.offset ≠ 0 →
    ¬ StaysInside insns.length place insn.offset

/-- An undisturbed turn settles its place. -/
theorem SettledBefore.step {insns : List Insn} {index : Nat} (settled : SettledBefore insns index)
    (calm : Undisturbed insns index) :
    SettledBefore (serve Insn.offset Insn.done insns index) (index + 1) := by
  obtain ⟨orderly, unfollowed⟩ := calm
  intro place lower insn found asked
  rw [serve_length]
  rcases Nat.lt_succ_iff_lt_or_eq.mp lower with before | rfl
  · rw [serve_keeps_front orderly before] at found
    exact settled place before insn found asked
  · cases here : insns[place]? with
    | none =>
        unfold serve at found
        rw [here] at found
        cases here.symm.trans found
    | some moved =>
        by_cases stays : moved.offset ≠ 0 ∧ StaysInside insns.length place moved.offset
        · rw [serve_takes_place orderly here stays.1 stays.2] at found
          exact unfollowed moved here stays.1 stays.2 insn found asked
        · unfold serve at found
          rw [here] at found
          simp only [if_neg stays] at found
          cases here.symm.trans found
          intro inside
          exact stays ⟨asked, inside⟩

/-- Undisturbed turns settle every place that they reach. -/
theorem settledBefore_served {insns : List Insn} (count : Nat)
    (calm : ∀ index < count, Undisturbed (served Insn.offset Insn.done insns index) index) :
    SettledBefore (served Insn.offset Insn.done insns count) count := by
  induction count with
  | zero =>
      intro place lower
      exact absurd lower (Nat.not_lt_zero place)
  | succ count ih =>
      have before := ih fun index lower => calm index (Nat.lt_succ_of_lt lower)
      exact before.step (calm count (Nat.lt_succ_self count))

/-- The first turn that is disturbed leaves a request undone, or its behaviour is undefined. -/
theorem rescheduled_disturbed {p : Pipeline} {index : Nat} (lower : index < p.insns.length)
    (calm : ∀ before < index, Undisturbed (served Insn.offset Insn.done p.insns before) before)
    (disturbed : ¬ Undisturbed (served Insn.offset Insn.done p.insns index) index) {out : List Insn}
    (done : rescheduled p = some out) : ¬ Settled Insn.offset out := by
  have bounded := p.bounded
  have length := served_length Insn.offset Insn.done p.insns index
  obtain ⟨left, left_eq⟩ : ∃ left, p.insns.length = index + (left + 1) := ⟨p.insns.length - index - 1, by omega⟩
  unfold rescheduled at done
  rw [left_eq, rescheduleLoop_served bounded index _ fun before earlier => (calm before earlier).1] at done
  unfold rescheduleLoop at done
  by_cases orderly : Orderly (served Insn.offset Insn.done p.insns index) index
  · rw [rescheduleAt_orderly (by omega) orderly] at done
    have followed : ¬ Unfollowed (served Insn.offset Insn.done p.insns index) index :=
      fun unfollowed => disturbed ⟨orderly, unfollowed⟩
    unfold Unfollowed at followed
    push Not at followed
    obtain ⟨insn, here, asked, inside, next, behind, left_over, stays⟩ := followed
    have kept := serve_length Insn.offset Insn.done (served Insn.offset Insn.done p.insns index) index
    obtain ⟨same, front⟩ := rescheduleLoop_keeps_front (by omega) done
    have place := front index (Nat.lt_succ_self index)
    rw [serve_takes_place orderly here asked inside, behind] at place
    intro settled
    apply settled index next place left_over
    rw [same, kept]
    exact stays
  · rw [rescheduleAt_disorderly (by omega) orderly] at done
    cases done

/-- `flush_pipeline` writes every pending instruction once, moves each by its request and empties the list if and only
if, at every index of its scan, the request of the instruction there (in the order that the requests before it have
left) does not overflow, does not point to the front where it stays inside the list, and does not move the
instruction away from one behind it with a request that stays inside the list from the same place. -/
theorem flush_schedules_iff (intelSyntax : Bool) (p : Pipeline) :
    (∃ out, rescheduled p = some out ∧
        flushPipeline intelSyntax p = some (out.map (writeInsn intelSyntax), Pipeline.empty) ∧
        Scheduled p.insns out) ↔
      ∀ index < p.insns.length, Undisturbed (served Insn.offset Insn.done p.insns index) index := by
  constructor
  · rintro ⟨out, done, _, scheduled⟩
    intro index lower
    induction index using Nat.strongRecOn with
    | ind index ih =>
        apply Classical.byContradiction
        intro disturbed
        exact rescheduled_disturbed lower (fun before earlier => ih before earlier (by omega)) disturbed done
          scheduled.settled
  · intro calm
    have done : rescheduled p = some (served Insn.offset Insn.done p.insns p.insns.length) := by
      unfold rescheduled
      have turns := rescheduleLoop_served p.bounded p.insns.length 0 fun index lower => (calm index lower).1
      rw [Nat.add_zero] at turns
      exact turns
    refine ⟨_, done, ?_, ?_⟩
    · unfold flushPipeline
      rw [done]
      rfl
    · refine Scheduled.of_applied (served_applies Insn.offset Insn.done p.insns p.insns.length) ?_
      intro place insn found asked
      have lower : place < p.insns.length := by
        rw [← served_length Insn.offset Insn.done p.insns p.insns.length]
        exact (List.getElem?_eq_some_iff.mp found).1
      exact settledBefore_served p.insns.length calm place lower insn found asked

/-- A move of a register. -/
def moveInsn (dest src : String) (offset : BitVec 32) : Insn := ⟨"mov", 0, dest, src, some src, 0, offset⟩

/-- Three moves, of which the first two are to go one place behind. -/
def twoRequests : Pipeline where
  insns := [moveInsn "%rax" "%rdi" 1, moveInsn "%rcx" "%rsi" 1, moveInsn "%rdx" "%r8" 0]
  bounded := by decide

/-- The request of the second move is lost: the first one passes it, and the scan goes on behind both. -/
theorem flush_loses_request :
    ¬ ∃ out, rescheduled twoRequests = some out ∧
      flushPipeline false twoRequests = some (out.map (writeInsn false), Pipeline.empty) ∧
      Scheduled twoRequests.insns out := by
  rintro ⟨out, done, _, scheduled⟩
  have kept : rescheduled twoRequests =
      some [moveInsn "%rcx" "%rsi" 1, moveInsn "%rax" "%rdi" 0, moveInsn "%rdx" "%r8" 0] := by decide
  rw [kept] at done
  cases done
  exact scheduled.settled 0 (moveInsn "%rcx" "%rsi" 1) rfl (by decide) (by decide)

end AsconSuite.X86
