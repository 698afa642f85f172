/-
Module: AsconSuite.Base.MoveRequests
Layer: Library
Purpose: Lists whose items may ask to be moved by a number of places: one request done in the current order, the
  requests done place after place, and what every order of doing them keeps.
Imports: Mathlib (reflexive and transitive closures)
Trusted boundary: none (fully proved)
Main exports: StaysInside, Applies, Applies.once, Applies.order, serve, served, serve_forward, served_applies
-/
import Mathlib.Logic.Relation

namespace MoveRequests

/-- A move by `offset` from `place` ends inside a list of this length. -/
def StaysInside (size place : Nat) (offset : Int) : Prop := 0 ≤ place + offset ∧ place + offset < size

instance (size place : Nat) (offset : Int) : Decidable (StaysInside size place offset) :=
  inferInstanceAs (Decidable (_ ∧ _))

section Requests

variable {α : Type} (request : α → Int) (clear : α → α)

/-- One request is done: an item that asks to be moved passes exactly so many others, and its request is cleared. -/
inductive Applies : List α → List α → Prop
  | forward (front : List α) (x : α) (passed back : List α) (asked : request x = passed.length)
      (some : passed ≠ []) : Applies (front ++ x :: (passed ++ back)) (front ++ (passed ++ clear x :: back))
  | backward (front passed : List α) (x : α) (back : List α) (asked : request x = -passed.length)
      (some : passed ≠ []) : Applies (front ++ (passed ++ x :: back)) (front ++ clear x :: (passed ++ back))

/-- No request that is left stays inside the list. -/
def Settled (l : List α) : Prop :=
  ∀ place x, l[place]? = some x → request x ≠ 0 → ¬ StaysInside l.length place (request x)

variable {request clear} {l l' : List α}

/-! ### What doing requests keeps -/

/-- An item that is moved has a request. -/
theorem asked_ne_zero {passed : List α} {x : α} (asked : (request x).natAbs = passed.length) (some : passed ≠ []) :
    request x ≠ 0 := by
  intro zero
  apply some
  rw [← List.length_eq_zero_iff, ← asked, zero, Int.natAbs_zero]

theorem filter_asked {x : α} (asked : request x ≠ 0) (l : List α) :
    (x :: l).filter (request · = 0) = l.filter (request · = 0) :=
  List.filter_cons_of_neg (by rwa [decide_eq_true_iff])

theorem Applies.length_eq (h : Applies request clear l l') : l'.length = l.length := by
  cases h with
  | forward front x passed back asked some =>
      simp only [List.length_append, List.length_cons]
      omega
  | backward front passed x back asked some =>
      simp only [List.length_append, List.length_cons]
      omega

/-- Requests apart, the items are the same ones, each as often as before. -/
theorem Applies.perm (idem : ∀ x, clear (clear x) = clear x) (h : Applies request clear l l') :
    (l'.map clear).Perm (l.map clear) := by
  cases h with
  | forward front x passed back asked some =>
      simp only [List.map_append, List.map_cons, idem]
      exact List.perm_middle.append_left _
  | backward front passed x back asked some =>
      simp only [List.map_append, List.map_cons, idem]
      exact List.perm_middle.symm.append_left _

/-- The items without a request keep their order. -/
theorem Applies.sublist (h : Applies request clear l l') :
    (l.filter (request · = 0)).Sublist (l'.filter (request · = 0)) := by
  cases h with
  | forward front x passed back asked some =>
      rw [List.filter_append, List.filter_append, filter_asked (asked_ne_zero (by omega) some),
        List.filter_append, List.filter_append]
      exact (((List.sublist_cons_self (clear x) back).filter _).append_left _).append_left _
  | backward front passed x back asked some =>
      rw [List.filter_append, List.filter_append, List.filter_append, filter_asked (asked_ne_zero (by omega) some),
        ← List.filter_append]
      exact ((List.sublist_cons_self (clear x) (passed ++ back)).filter _).append_left _

theorem Applies.chain_length (h : Relation.ReflTransGen (Applies request clear) l l') : l'.length = l.length := by
  induction h with
  | refl => rfl
  | tail _ step ih => rw [step.length_eq, ih]

/-- Every order of doing requests keeps every item. -/
theorem Applies.once (idem : ∀ x, clear (clear x) = clear x)
    (h : Relation.ReflTransGen (Applies request clear) l l') : (l'.map clear).Perm (l.map clear) := by
  induction h with
  | refl => exact List.Perm.refl _
  | tail _ step ih => exact (step.perm idem).trans ih

/-- Every order of doing requests keeps the order of the items without one. -/
theorem Applies.order (h : Relation.ReflTransGen (Applies request clear) l l') :
    (l.filter (request · = 0)).Sublist l' := by
  have kept : (l.filter (request · = 0)).Sublist (l'.filter (request · = 0)) := by
    induction h with
    | refl => exact List.Sublist.refl _
    | tail _ step ih => exact ih.trans step.sublist
  exact kept.trans List.filter_sublist

/-! ### Place after place -/

variable (request clear)

/-- The request of the item at a place is done, if it stays inside the list. -/
def serve (l : List α) (place : Nat) : List α :=
  match l[place]? with
  | none => l
  | some x =>
      if request x ≠ 0 ∧ StaysInside l.length place (request x) then
        (l.eraseIdx place).insertIdx (place + request x).toNat (clear x)
      else l

/-- The list after the requests at its first places, each done in the order that the one before has left. -/
def served (l : List α) : Nat → List α
  | 0 => l
  | place + 1 => serve request clear (served l place) place

variable {request clear}

theorem insertIdx_behind (front l : List α) (k : Nat) (x : α) :
    (front ++ l).insertIdx (front.length + k) x = front ++ l.insertIdx k x := by
  induction front with
  | nil => rw [List.length_nil, Nat.zero_add, List.nil_append, List.nil_append]
  | cons y front ih =>
      rw [List.length_cons, Nat.add_right_comm, List.cons_append, List.insertIdx_succ_cons, ih, List.cons_append]

/-- The parts of a list from a place on. -/
theorem parts_of_getElem? {place : Nat} {x : α} (at_place : l[place]? = some x) :
    l = l.take place ++ x :: l.drop (place + 1) := by
  obtain ⟨inside, rfl⟩ := List.getElem?_eq_some_iff.mp at_place
  rw [← List.drop_eq_getElem_cons inside, List.take_append_drop]

/-- The items that an item passes on its way behind. -/
theorem forward_parts {place : Nat} {x : α} {offset : Int} (at_place : l[place]? = some x)
    (inside : StaysInside l.length place offset) (forward : 0 < offset) :
    ∃ front passed back, l = front ++ x :: (passed ++ back) ∧ front.length = place ∧
      (passed.length : Int) = offset ∧ passed ≠ [] := by
  obtain ⟨low, high⟩ := inside
  have length : ((l.drop (place + 1)).take offset.toNat).length = offset.toNat := by
    rw [List.length_take, List.length_drop]
    omega
  refine ⟨l.take place, (l.drop (place + 1)).take offset.toNat, (l.drop (place + 1)).drop offset.toNat, ?_, ?_, ?_, ?_⟩
  · rw [List.take_append_drop]
    exact parts_of_getElem? at_place
  · rw [List.length_take]
    omega
  · rw [length]
    omega
  · rw [← List.length_pos_iff, length]
    omega

/-- The items that an item passes on its way to the front. -/
theorem backward_parts {place : Nat} {x : α} {offset : Int} (at_place : l[place]? = some x)
    (inside : StaysInside l.length place offset) (backward : offset < 0) :
    ∃ front passed back, l = front ++ (passed ++ x :: back) ∧ front.length + passed.length = place ∧
      (passed.length : Int) = -offset ∧ passed ≠ [] := by
  obtain ⟨low, high⟩ := inside
  obtain ⟨lower, _⟩ := List.getElem?_eq_some_iff.mp at_place
  have front_length : ((l.take place).take (place + offset).toNat).length = (place + offset).toNat := by
    rw [List.length_take, List.length_take]
    omega
  have length : ((l.take place).drop (place + offset).toNat).length = (-offset).toNat := by
    rw [List.length_drop, List.length_take]
    omega
  refine ⟨(l.take place).take (place + offset).toNat, (l.take place).drop (place + offset).toNat,
    l.drop (place + 1), ?_, ?_, ?_, ?_⟩
  · rw [← List.append_assoc, List.take_append_drop]
    exact parts_of_getElem? at_place
  · rw [front_length, length]
    omega
  · rw [length]
    omega
  · rw [← List.length_pos_iff, length]
    omega

theorem eraseIdx_parts (front back : List α) (x : α) :
    (front ++ x :: back).eraseIdx front.length = front ++ back := by
  rw [List.eraseIdx_append_of_length_le (Nat.le_refl _), Nat.sub_self, List.eraseIdx_cons_zero]

variable (request clear)

/-- A request that points behind is done by moving what is passed to the front. -/
theorem serve_forward (front : List α) (x : α) (passed back : List α) (asked : request x = passed.length)
    (some : passed ≠ []) :
    serve request clear (front ++ x :: (passed ++ back)) front.length = front ++ (passed ++ clear x :: back) := by
  have here : (front ++ x :: (passed ++ back))[front.length]? = Option.some x := by simp
  have stays : request x ≠ 0 ∧ StaysInside (front ++ x :: (passed ++ back)).length front.length (request x) := by
    refine ⟨asked_ne_zero (by omega) some, ?_, ?_⟩
    · omega
    · simp only [List.length_append, List.length_cons]
      omega
  have target : ((front.length : Int) + request x).toNat = front.length + passed.length := by omega
  unfold serve
  rw [here]
  simp only [if_pos stays, target]
  rw [eraseIdx_parts, insertIdx_behind]
  have behind := insertIdx_behind passed back 0 (clear x)
  rw [Nat.add_zero, List.insertIdx_zero] at behind
  rw [behind]

/-- A request that points to the front is done by moving what is passed behind. -/
theorem serve_backward (front passed : List α) (x : α) (back : List α) (asked : request x = -passed.length)
    (some : passed ≠ []) :
    serve request clear (front ++ (passed ++ x :: back)) (front.length + passed.length) =
      front ++ clear x :: (passed ++ back) := by
  have here : (front ++ (passed ++ x :: back))[front.length + passed.length]? = Option.some x := by
    rw [← List.append_assoc, ← List.length_append]
    simp
  have stays : request x ≠ 0 ∧ StaysInside (front ++ (passed ++ x :: back)).length
      (front.length + passed.length) (request x) := by
    refine ⟨asked_ne_zero (by omega) some, ?_, ?_⟩
    · push_cast
      omega
    · simp only [List.length_append, List.length_cons]
      push_cast
      omega
  have target : (((front.length + passed.length : Nat) : Int) + request x).toNat = front.length + 0 := by
    push_cast
    omega
  unfold serve
  rw [here]
  simp only [if_pos stays, target]
  rw [← List.append_assoc, ← List.length_append, eraseIdx_parts, List.append_assoc, insertIdx_behind,
    List.insertIdx_zero]

/-- Doing the request at a place is doing one request, or none. -/
theorem serve_applies (l : List α) (place : Nat) :
    Relation.ReflTransGen (Applies request clear) l (serve request clear l place) := by
  cases at_place : l[place]? with
  | none =>
      unfold serve
      rw [at_place]
  | some x =>
      by_cases stays : request x ≠ 0 ∧ StaysInside l.length place (request x)
      · obtain ⟨asked, inside⟩ := stays
        by_cases forward : 0 < request x
        · obtain ⟨front, passed, back, rfl, rfl, length, some⟩ := forward_parts at_place inside forward
          rw [serve_forward request clear front x passed back length.symm some]
          exact Relation.ReflTransGen.single (.forward front x passed back length.symm some)
        · obtain ⟨front, passed, back, rfl, rfl, length, some⟩ := backward_parts at_place inside (by omega)
          rw [serve_backward request clear front passed x back (by omega) some]
          exact Relation.ReflTransGen.single (.backward front passed x back (by omega) some)
      · unfold serve
        rw [at_place]
        simp only [if_neg stays]
        exact Relation.ReflTransGen.refl

theorem serve_length (l : List α) (place : Nat) : (serve request clear l place).length = l.length :=
  Applies.chain_length (serve_applies request clear l place)

/-- Place after place, requests are only done as they ask. -/
theorem served_applies (l : List α) (count : Nat) :
    Relation.ReflTransGen (Applies request clear) l (served request clear l count) := by
  induction count with
  | zero => exact Relation.ReflTransGen.refl
  | succ place ih => exact ih.trans (serve_applies request clear _ place)

theorem served_length (l : List α) (count : Nat) : (served request clear l count).length = l.length :=
  Applies.chain_length (served_applies request clear l count)

end Requests

end MoveRequests
