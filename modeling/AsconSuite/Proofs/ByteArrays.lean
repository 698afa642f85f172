/-
Module: AsconSuite.Proofs.ByteArrays
Layer: Proofs
Purpose: Objects of `byte_array` against plain vectors. Every method keeps the counts and changes one vector, apart
  from a `resize` that does not detach.
Imports: AsconSuite.Base.KeyDerivation, AsconSuite.Base.SharedHandles, AsconSuite.Cpp.ByteArray
Trusted boundary: none
Main exports: ArrayHeap.Holds, ArrayHeap.Owned, holds_detach, ArrayHeap.Matches, byte_arrays_are_values_iff
-/
import AsconSuite.Base.KeyDerivation
import AsconSuite.Base.SharedHandles
import AsconSuite.Cpp.ByteArray

namespace AsconSuite

open ByteWord ByteMemory SharedHandles

/-! ### The heap and the vectors -/

/-- The objects hold the vectors, and each buffer counts the objects on it and a pointer that is held. -/
structure ArrayHeap.Holds (h : ArrayHeap) (held : Option Nat) (plain : List (List Byte)) : Prop where
  counted : Counted (fun a => (h.cells a).ref) held h.objects
  fresh : ∀ a, h.next ≤ a → (h.cells a).ref = 0
  bounded : ∀ a, (h.cells a).size ≤ (h.cells a).capacity
  sized : ∀ a, (h.cells a).size ≤ maxSize
  contents : h.objects.map h.contents = plain

/-- The object has a buffer of its own with room for this many bytes. -/
def ArrayHeap.Owned (h : ArrayHeap) (i room : Nat) : Prop :=
  ∃ a, h.objects[i]? = some (some a) ∧ (h.cells a).ref = 1 ∧ room ≤ (h.cells a).capacity

theorem le_capacityOf {x : Nat} (le : x ≤ maxSize + 1) : x ≤ capacityOf x := by
  have bound : x ≤ 2 ^ 63 := le
  rw [capacityOf, Nat.mod_eq_of_lt (by omega)]
  omega

/-- An element that is written over itself. -/
theorem set_eq_self {α : Type} {list : List α} {i : Nat} {x : α} (place : list[i]? = some x) :
    list.set i x = list := by
  obtain ⟨inside, rfl⟩ := List.getElem?_eq_some_iff.mp place
  exact List.set_getElem_self inside

section

variable {h : ArrayHeap} {held : Option Nat} {plain : List (List Byte)} {i a : Nat} {p : Option Nat}
  {change : ByteArrayPrivate → ByteArrayPrivate}

theorem update_cell (h : ArrayHeap) (a : Nat) (change : ByteArrayPrivate → ByteArrayPrivate) :
    (h.update a change).cells a = change (h.cells a) := if_pos rfl

theorem update_other {b : Nat} (apart : b ≠ a) : (h.update a change).cells b = h.cells b := if_neg apart

theorem contents_update_other (apart : p ≠ some a) : (h.update a change).contents p = h.contents p := by
  cases p with
  | none => rfl
  | some b =>
      have other : b ≠ a := fun equal => apart (congrArg some equal)
      simp only [ArrayHeap.contents, update_other other]

theorem recount_cell (h : ArrayHeap) (count : Nat → Nat) (q : Option Nat) (b : Nat) :
    (h.recount count q).cells b =
      if q = some b then { h.cells b with ref := count (h.cells b).ref } else h.cells b := by
  cases q with
  | none => rfl
  | some a =>
      by_cases here : b = a
      · rw [here, if_pos rfl, ArrayHeap.recount, update_cell]
      · rw [if_neg fun equal => here (Option.some.inj equal).symm, ArrayHeap.recount, update_other here]

theorem recount_objects (h : ArrayHeap) (count : Nat → Nat) (q : Option Nat) :
    (h.recount count q).objects = h.objects := by
  cases q <;> rfl

theorem recount_next (h : ArrayHeap) (count : Nat → Nat) (q : Option Nat) :
    (h.recount count q).next = h.next := by
  cases q <;> rfl

/-- A count is not seen. -/
theorem recount_rest (h : ArrayHeap) (count : Nat → Nat) (q : Option Nat) (b : Nat) :
    ((h.recount count q).cells b).size = (h.cells b).size ∧
      ((h.recount count q).cells b).capacity = (h.cells b).capacity ∧
      ((h.recount count q).cells b).data = (h.cells b).data := by
  rw [recount_cell]
  split <;> exact ⟨rfl, rfl, rfl⟩

theorem recount_contents (h : ArrayHeap) (count : Nat → Nat) (q : Option Nat) :
    (h.recount count q).contents = h.contents := by
  funext p
  cases p with
  | none => rfl
  | some b =>
      obtain ⟨size_eq, _, data_eq⟩ := recount_rest h count q b
      simp only [ArrayHeap.contents, size_eq, data_eq]

theorem addRef_ref (h : ArrayHeap) (q : Option Nat) (b : Nat) :
    ((h.addRef q).cells b).ref = (h.cells b).ref + if q = some b then 1 else 0 := by
  rw [ArrayHeap.addRef, recount_cell]
  split <;> rfl

theorem release_ref (h : ArrayHeap) (q : Option Nat) (b : Nat) :
    ((h.release q).cells b).ref = (h.cells b).ref - if q = some b then 1 else 0 := by
  rw [ArrayHeap.release, recount_cell]
  split <;> rfl

/-! ### Single steps of a method -/

theorem holds_getElem? (holds : h.Holds held plain) (i : Nat) : plain[i]? = (h.objects[i]?).map h.contents := by
  rw [← holds.contents, List.getElem?_map]

theorem holds_length (holds : h.Holds held plain) : plain.length = h.objects.length := by
  rw [← holds.contents, List.length_map]

/-- A buffer that has not been made yet is in no object. -/
theorem holds_unused (holds : h.Holds held plain) {b : Nat} (later : h.next ≤ b) :
    some b ∉ h.objects ∧ held ≠ some b := by
  have none_left : 0 = h.objects.count (some b) + if held = some b then 1 else 0 := by
    rw [← holds.counted b]
    exact (holds.fresh b later).symm
  constructor
  · intro listed
    have some_handle := List.count_pos_iff.mpr listed
    omega
  · intro equal
    rw [if_pos equal] at none_left
    omega

/-- Other counts do not change what the objects hold. -/
theorem holds_recount {other : Option Nat} (holds : h.Holds held plain) (count : Nat → Nat) (q : Option Nat)
    (counted : Counted (fun b => ((h.recount count q).cells b).ref) other h.objects)
    (fresh : ∀ b, h.next ≤ b → other ≠ some b) : (h.recount count q).Holds other plain where
  counted := by
    rw [recount_objects]
    exact counted
  fresh := by
    intro b later
    rw [recount_next] at later
    have none_left := counted b
    rw [List.count_eq_zero.mpr (holds_unused holds later).1, if_neg (fresh b later)] at none_left
    exact none_left
  bounded := by
    intro b
    obtain ⟨size_eq, capacity_eq, _⟩ := recount_rest h count q b
    rw [size_eq, capacity_eq]
    exact holds.bounded b
  sized := by
    intro b
    rw [(recount_rest h count q b).1]
    exact holds.sized b
  contents := by
    rw [recount_contents, recount_objects]
    exact holds.contents

/-- One more pointer on a buffer that is in use. -/
theorem holds_addRef (holds : h.Holds none plain) (place : h.objects[i]? = some p) :
    (h.addRef p).Holds p plain := by
  refine holds_recount holds _ p ?_ fun b later => ?_
  · have counted := holds.counted.hold p
    simp only [← addRef_ref] at counted
    exact counted
  · rintro rfl
    exact (holds_unused holds later).1 (List.mem_of_getElem? place)

/-- The pointer that is held becomes a new object. -/
theorem holds_construct (holds : h.Holds held plain) :
    (h.construct held).Holds none (plain ++ [h.contents held]) where
  counted := holds.counted.append
  fresh := holds.fresh
  bounded := holds.bounded
  sized := holds.sized
  contents := by
    rw [ArrayHeap.construct, List.map_append, ← holds.contents]
    rfl

/-- The pointer that is held takes the place of the one in an object. -/
theorem holds_retarget (holds : h.Holds held plain) (place : h.objects[i]? = some p) :
    ((h.release p).setPointer i held).Holds none (plain.set i (h.contents held)) := by
  have counted := holds.counted.set place
  simp only [← release_ref] at counted
  exact {
    counted := by
      rw [ArrayHeap.setPointer, ArrayHeap.release, recount_objects]
      exact counted
    fresh := by
      intro b later
      have dead := holds.fresh b (recount_next h _ p ▸ later)
      show ((h.release p).cells b).ref = 0
      rw [release_ref, dead, Nat.zero_sub]
    bounded := by
      intro b
      obtain ⟨size_eq, capacity_eq, _⟩ := recount_rest h (· - 1) p b
      show ((h.release p).cells b).size ≤ ((h.release p).cells b).capacity
      rw [ArrayHeap.release, size_eq, capacity_eq]
      exact holds.bounded b
    sized := by
      intro b
      show ((h.release p).cells b).size ≤ maxSize
      rw [ArrayHeap.release, (recount_rest h (· - 1) p b).1]
      exact holds.sized b
    contents := by
      show ((h.release p).objects.set i held).map (h.release p).contents = _
      rw [ArrayHeap.release, recount_contents, recount_objects, List.map_set, holds.contents] }

theorem newPrivate_cell (h : ArrayHeap) (room : Nat) :
    (h.newPrivate room).1.cells h.next = ⟨1, 0, room, (h.cells h.next).data⟩ := if_pos rfl

theorem newPrivate_other (h : ArrayHeap) (room : Nat) {b : Nat} (apart : b ≠ h.next) :
    (h.newPrivate room).1.cells b = h.cells b := if_neg apart

/-- A new buffer is held. -/
theorem holds_newPrivate (holds : h.Holds none plain) (room : Nat) :
    (h.newPrivate room).1.Holds (some h.next) plain := by
  have unused := holds_unused holds (Nat.le_refl h.next)
  exact {
    counted := by
      intro b
      show ((h.newPrivate room).1.cells b).ref = h.objects.count (some b) + if some h.next = some b then 1 else 0
      by_cases here : b = h.next
      · rw [here, newPrivate_cell, if_pos rfl, List.count_eq_zero.mpr unused.1]
      · rw [newPrivate_other h room here, if_neg fun equal => here (Option.some.inj equal).symm]
        exact holds.counted b
    fresh := by
      intro b later
      have passed : h.next + 1 ≤ b := later
      rw [newPrivate_other h room (by omega)]
      exact holds.fresh b (by omega)
    bounded := by
      intro b
      by_cases here : b = h.next
      · rw [here, newPrivate_cell]
        exact Nat.zero_le room
      · rw [newPrivate_other h room here]
        exact holds.bounded b
    sized := by
      intro b
      by_cases here : b = h.next
      · rw [here, newPrivate_cell]
        exact Nat.zero_le maxSize
      · rw [newPrivate_other h room here]
        exact holds.sized b
    contents := by
      rw [← holds.contents]
      refine List.map_congr_left fun q listed => ?_
      cases q with
      | none => rfl
      | some b =>
          have apart : b ≠ h.next := by
            rintro rfl
            exact unused.1 listed
          simp only [ArrayHeap.contents, newPrivate_other h room apart] }

/-- A change of a buffer, as the objects on it see it. -/
theorem holds_update (holds : h.Holds held plain) (ref_eq : (change (h.cells a)).ref = (h.cells a).ref)
    (bounded : (change (h.cells a)).size ≤ (change (h.cells a)).capacity)
    (sized : (change (h.cells a)).size ≤ maxSize) :
    (h.update a change).Holds held (h.objects.map (h.update a change).contents) := by
  have same_refs : ∀ b, ((h.update a change).cells b).ref = (h.cells b).ref := by
    intro b
    by_cases here : b = a
    · rw [here, update_cell, ref_eq]
    · rw [update_other here]
  exact {
    counted := fun b => (same_refs b).trans (holds.counted b)
    fresh := fun b later => (same_refs b).trans (holds.fresh b later)
    bounded := by
      intro b
      by_cases here : b = a
      · rw [here, update_cell]
        exact bounded
      · rw [update_other here]
        exact holds.bounded b
    sized := by
      intro b
      by_cases here : b = a
      · rw [here, update_cell]
        exact sized
      · rw [update_other here]
        exact holds.sized b
    contents := rfl }

/-- A change of a buffer that no object is on yet. -/
theorem holds_update_held (holds : h.Holds (some a) plain) (single : (h.cells a).ref = 1)
    (ref_eq : (change (h.cells a)).ref = 1) (bounded : (change (h.cells a)).size ≤ (change (h.cells a)).capacity)
    (sized : (change (h.cells a)).size ≤ maxSize) : (h.update a change).Holds (some a) plain := by
  have updated := holds_update holds (ref_eq.trans single.symm) bounded sized
  have unlisted : some a ∉ h.objects := by
    intro listed
    have some_handle := List.count_pos_iff.mpr listed
    have counted : (h.cells a).ref = h.objects.count (some a) + if some a = some a then 1 else 0 := holds.counted a
    rw [single, if_pos rfl] at counted
    omega
  have unseen : h.objects.map (h.update a change).contents = plain := by
    rw [← holds.contents]
    exact List.map_congr_left fun q listed => contents_update_other fun equal => unlisted (equal ▸ listed)
  rw [unseen] at updated
  exact updated

/-- A change of the buffer of one object. -/
theorem holds_update_own (holds : h.Holds none plain) (place : h.objects[i]? = some (some a))
    (single : (h.cells a).ref = 1) (ref_eq : (change (h.cells a)).ref = 1)
    (bounded : (change (h.cells a)).size ≤ (change (h.cells a)).capacity)
    (sized : (change (h.cells a)).size ≤ maxSize) :
    (h.update a change).Holds none
      (plain.set i ((change (h.cells a)).data.read 0 (change (h.cells a)).size)) := by
  have updated := holds_update holds (ref_eq.trans single.symm) bounded sized
  have seen : h.objects.map (h.update a change).contents =
      plain.set i ((change (h.cells a)).data.read 0 (change (h.cells a)).size) := by
    have others : ∀ j q, j ≠ i → h.objects[j]? = some q →
        (h.update a change).contents q = h.contents q := by
      intro j q apart other
      refine contents_update_other ?_
      rintro rfl
      exact apart (holds.counted.unique single place other)
    have same : (h.objects.set i (some a)).map (h.update a change).contents =
        (h.objects.map h.contents).set i ((h.update a change).contents (some a)) := map_set_of_same others
    rw [set_eq_self place, holds.contents] at same
    simp only [ArrayHeap.contents, update_cell] at same
    exact same
  rw [seen] at updated
  exact updated

/-! ### The methods -/

theorem pointer_eq (place : h.objects[i]? = some p) : h.pointer i = p := by
  rw [ArrayHeap.pointer, place]
  rfl

/-- The pointer that is held takes the place of one with the same bytes. -/
theorem holds_replace (holds : h.Holds held plain) (place : h.objects[i]? = some p)
    (same : plain[i]? = some (h.contents held)) : ((h.release p).setPointer i held).Holds none plain := by
  have retargeted := holds_retarget holds place
  rw [set_eq_self same] at retargeted
  exact retargeted

/-- An object that is given a buffer which only the holder has. -/
theorem owned_replace {room : Nat} (inside : i < h.objects.length) (apart : p ≠ some a)
    (single : (h.cells a).ref = 1) (le : room ≤ (h.cells a).capacity) :
    ((h.release p).setPointer i (some a)).Owned i room := by
  refine ⟨a, ?_, ?_, ?_⟩
  · rw [ArrayHeap.setPointer, ArrayHeap.release, recount_objects]
    exact List.getElem?_set_self inside
  · show ((h.release p).cells a).ref = 1
    rw [release_ref, single, if_neg apart]
  · show room ≤ ((h.release p).cells a).capacity
    rw [ArrayHeap.release, (recount_rest h (· - 1) p a).2.1]
    exact le

/-- The capacity that a copy is given. -/
theorem le_roundedCapacity {x : Nat} (le : x ≤ maxSize + 1) :
    max x 1 ≤ capacityOf (if x = 0 then 1 else x) := by
  by_cases zero : x = 0
  · rw [zero]
    decide
  · rw [if_neg zero, Nat.max_eq_left (Nat.pos_of_ne_zero zero)]
    exact le_capacityOf le

/-- The new buffer of a copy. -/
def detachedCopy (h : ArrayHeap) (capacity : Nat) (a : Nat) : ArrayHeap :=
  (h.newPrivate (capacityOf (if capacity = 0 then 1 else capacity))).1.update h.next fun cell =>
    { cell with
      size := (h.cells a).size
      data := cell.data.write 0 ((h.cells a).data.read 0 (h.cells a).size) }

theorem detach_of_none (null : h.pointer i = none) (room : Nat) :
    h.detach i room =
      ((h.newPrivate (capacityOf (if room = 0 then 1 else room))).1.release none).setPointer i (some h.next) := by
  simp only [ArrayHeap.detach, null]
  rfl

theorem detach_of_some (pointed : h.pointer i = some a) (room : Nat) :
    h.detach i room =
      ((detachedCopy h (if room < (h.cells a).size then (h.cells a).size else room) a).release
        (some a)).setPointer i (some h.next) := by
  simp only [ArrayHeap.detach, pointed]
  rfl

theorem detachedCopy_cell (h : ArrayHeap) (capacity a : Nat) :
    (detachedCopy h capacity a).cells h.next =
      ⟨1, (h.cells a).size, capacityOf (if capacity = 0 then 1 else capacity),
        (h.cells h.next).data.write 0 ((h.cells a).data.read 0 (h.cells a).size)⟩ := by
  rw [detachedCopy, update_cell, newPrivate_cell]

/-- The copy is held, and nothing else has changed. -/
theorem holds_detachedCopy (holds : h.Holds none plain) {capacity : Nat} (a : Nat)
    (size_le : (h.cells a).size ≤ capacity) (le : capacity ≤ maxSize + 1) :
    (detachedCopy h capacity a).Holds (some h.next) plain := by
  refine holds_update_held (holds_newPrivate holds _) ?_ ?_ ?_ ?_
  · rw [newPrivate_cell]
  · rw [newPrivate_cell]
  · rw [newPrivate_cell]
    exact Nat.le_trans size_le (Nat.le_trans (Nat.le_max_left _ _) (le_roundedCapacity le))
  · exact holds.sized a

/-- A detached object holds what it held, in a buffer of its own. -/
theorem holds_detach (holds : h.Holds none plain) (inside : i < h.objects.length) {room : Nat}
    (le : room ≤ maxSize + 1) : (h.detach i room).Holds none plain ∧ (h.detach i room).Owned i (max room 1) := by
  obtain ⟨p, place⟩ : ∃ p, h.objects[i]? = some p := ⟨_, List.getElem?_eq_getElem inside⟩
  have listed : plain[i]? = some (h.contents p) := by
    rw [holds_getElem? holds, place]
    rfl
  have apart : p ≠ some h.next := by
    rintro rfl
    exact (holds_unused holds (Nat.le_refl h.next)).1 (List.mem_of_getElem? place)
  cases p with
  | none =>
      rw [detach_of_none (pointer_eq place)]
      constructor
      · refine holds_replace (holds_newPrivate holds _) place ?_
        rw [listed, ArrayHeap.contents, ArrayHeap.contents, newPrivate_cell]
        rfl
      · refine owned_replace inside apart ?_ ?_
        · rw [newPrivate_cell]
        · rw [newPrivate_cell]
          exact le_roundedCapacity le
  | some a =>
      rw [detach_of_some (pointer_eq place)]
      obtain ⟨wanted, wanted_eq⟩ :
          ∃ wanted, (if room < (h.cells a).size then (h.cells a).size else room) = wanted := ⟨_, rfl⟩
      have size_le := holds.sized a
      have bounds : room ≤ wanted ∧ (h.cells a).size ≤ wanted ∧ wanted ≤ maxSize + 1 := by
        rw [← wanted_eq]
        split <;> omega
      obtain ⟨room_le, fits, wanted_le⟩ := bounds
      rw [wanted_eq]
      constructor
      · refine holds_replace (holds_detachedCopy holds a fits wanted_le) place ?_
        rw [listed, ArrayHeap.contents, ArrayHeap.contents, detachedCopy_cell,
          read_write_of_length (length_read _ _ _)]
      · refine owned_replace inside apart ?_ ?_
        · rw [detachedCopy_cell]
        · rw [detachedCopy_cell]
          exact Nat.le_trans (max_le_max_right 1 room_le) (le_roundedCapacity wanted_le)

/-- What a method makes of a buffer of its own that holds some bytes. -/
def Makes (room : Nat) (edit : ByteArrayPrivate → ByteArrayPrivate) (bytes new : List Byte) : Prop :=
  ∀ cell : ByteArrayPrivate, cell.ref = 1 → room ≤ cell.capacity → cell.size ≤ cell.capacity →
    cell.size = bytes.length → cell.data.read 0 cell.size = bytes →
      (edit cell).ref = 1 ∧ (edit cell).size ≤ (edit cell).capacity ∧ (edit cell).size = new.length ∧
        (edit cell).data.read 0 new.length = new

/-- A method changes the buffer of its object when the object has a buffer of its own. -/
theorem holds_edit (holds : h.Holds none plain) {room : Nat} (own : h.Owned i room) {bytes new : List Byte}
    (listed : plain[i]? = some bytes) {edit : ByteArrayPrivate → ByteArrayPrivate}
    (makes : Makes room edit bytes new) (sized : new.length ≤ maxSize) :
    ∃ a, h.pointer i = some a ∧ (h.update a edit).Holds none (plain.set i new) := by
  obtain ⟨a, place, single, room_le⟩ := own
  have bytes_eq : (h.cells a).data.read 0 (h.cells a).size = bytes := by
    have contents_eq := holds_getElem? holds i
    rw [listed, place] at contents_eq
    exact (Option.some.inj contents_eq).symm
  have size_eq : (h.cells a).size = bytes.length := by
    rw [← bytes_eq, length_read]
  obtain ⟨ref_eq, bounded, length_eq, read_eq⟩ :=
    makes (h.cells a) single room_le (holds.bounded a) size_eq bytes_eq
  have updated := holds_update_own holds place single ref_eq bounded (length_eq ▸ sized)
  rw [length_eq, read_eq] at updated
  exact ⟨a, pointer_eq place, updated⟩

theorem read_store (mem : Mem) {n pos : Nat} (value : Byte) :
    (mem.store pos value).read 0 n = (mem.read 0 n).set pos value := by
  refine List.ext_getElem? fun j => ?_
  rw [List.getElem?_set, length_read, getElem?_read, getElem?_read, Nat.zero_add]
  by_cases here : pos = j
  · rw [here, if_pos rfl, Mem.store, if_pos rfl]
  · rw [if_neg here, Mem.store, if_neg (Ne.symm here)]

theorem makes_store (room pos : Nat) (value : Byte) (bytes : List Byte) :
    Makes room (fun cell => { cell with data := cell.data.store pos value }) bytes (bytes.set pos value) := by
  intro cell single _ bounded size_eq bytes_eq
  refine ⟨single, bounded, ?_, ?_⟩
  · rw [List.length_set]
    exact size_eq
  · rw [List.length_set, ← size_eq, ← bytes_eq]
    exact read_store cell.data value

/-- Bytes that are written behind a range prolong it. -/
theorem read_write_behind (mem : Mem) (n : Nat) (back : List Byte) :
    (mem.write n back).read 0 (n + back.length) = mem.read 0 n ++ back := by
  rw [read_add, read_write_apart mem n back (Or.inl (Nat.le_of_eq (Nat.zero_add n))), Nat.zero_add,
    read_write_same]

/-- `resize` in a buffer that is large enough. -/
theorem makes_resize (size : Nat) (bytes : List Byte) :
    Makes size (fun cell =>
      { cell with
        size := size
        data := if cell.size < size then cell.data.write cell.size (List.replicate (size - cell.size) 0)
          else cell.data }) bytes (bytes.takeD size 0) := by
  intro cell single fits _ size_eq bytes_eq
  refine ⟨single, fits, (List.takeD_length ..).symm, ?_⟩
  rw [List.takeD_length]
  by_cases longer : cell.size < size
  · obtain ⟨n, size_split⟩ := Nat.exists_eq_add_of_le (Nat.le_of_lt longer)
    have prolonged := read_write_behind cell.data cell.size (List.replicate n 0)
    rw [List.length_replicate, ← size_split, bytes_eq] at prolonged
    have padded := KeyDerivation.takeD_append bytes [] n (0 : Byte)
    rw [List.append_nil, ← size_eq, ← size_split, List.takeD_nil] at padded
    have count : size - cell.size = n := by omega
    simp only [if_pos longer, count]
    rw [prolonged, padded]
  · have shorter : size ≤ cell.size := Nat.le_of_not_lt longer
    simp only [if_neg longer]
    rw [List.takeD_eq_take 0 (size_eq ▸ shorter), ← bytes_eq, take_read cell.data 0 shorter]

/-- `push_back` in a buffer that is large enough. -/
theorem makes_append (value : Byte) (bytes : List Byte) :
    Makes (bytes.length + 1) (fun cell =>
      { cell with size := cell.size + 1, data := cell.data.store cell.size value }) bytes (bytes ++ [value]) := by
  intro cell single fits _ size_eq bytes_eq
  rw [← size_eq] at fits
  have length_eq : (bytes ++ [value]).length = cell.size + 1 := by
    rw [List.length_append, size_eq]
    rfl
  refine ⟨single, fits, length_eq.symm, ?_⟩
  have prolonged := read_write_behind cell.data cell.size [value]
  rw [bytes_eq, ← store_eq_write] at prolonged
  rw [length_eq]
  exact prolonged

/-- `pop_back`. -/
theorem makes_dropLast (room : Nat) (bytes : List Byte) :
    Makes room (fun cell => { cell with size := cell.size - 1 }) bytes bytes.dropLast := by
  intro cell single _ bounded size_eq bytes_eq
  refine ⟨single, Nat.le_trans (Nat.sub_le _ 1) bounded, ?_, ?_⟩
  · rw [List.length_dropLast, ← size_eq]
  · rw [List.dropLast_eq_take, List.length_take_of_le (Nat.sub_le _ 1), ← bytes_eq,
      take_read cell.data 0 (length_read .. ▸ Nat.sub_le _ 1)]

/-! ### Operations -/

/-- An object with no buffer, or an object that shares none, has its own one. -/
theorem owned_of_single (holds : h.Holds none plain) (place : h.objects[i]? = some (some a))
    (single : ¬ 1 < (h.cells a).ref) : h.Owned i (h.cells a).capacity :=
  ⟨a, place, Nat.le_antisymm (Nat.le_of_not_lt single) (holds.counted.pos place), Nat.le_refl _⟩

theorem ArrayHeap.Owned.mono {room less : Nat} (le : less ≤ room) (own : h.Owned i room) : h.Owned i less := by
  obtain ⟨a, place, single, fits⟩ := own
  exact ⟨a, place, single, Nat.le_trans le fits⟩

/-- An object that exists, with its pointer and what it holds. -/
theorem holds_place (holds : h.Holds none plain) {bytes : List Byte} (listed : plain[i]? = some bytes) :
    ∃ p, h.objects[i]? = some p ∧ h.pointer i = p ∧ h.contents p = bytes := by
  have contents_eq := holds_getElem? holds i
  rw [listed] at contents_eq
  cases place : h.objects[i]? with
  | none =>
      rw [place] at contents_eq
      cases contents_eq
  | some p =>
      rw [place] at contents_eq
      exact ⟨p, rfl, pointer_eq place, (Option.some.inj contents_eq).symm⟩

theorem holds_inside (holds : h.Holds none plain) {bytes : List Byte} (listed : plain[i]? = some bytes) :
    i < h.objects.length := by
  rw [← holds_length holds]
  exact (List.getElem?_eq_some_iff.mp listed).1

theorem holds_sized (holds : h.Holds none plain) {bytes : List Byte} (listed : plain[i]? = some bytes) :
    bytes.length ≤ maxSize := by
  obtain ⟨p, _, _, bytes_eq⟩ := holds_place holds listed
  rw [← bytes_eq]
  cases p with
  | none => exact Nat.zero_le maxSize
  | some a =>
      rw [ArrayHeap.contents, length_read]
      exact holds.sized a

theorem holds_index (holds : h.Holds none plain) {bytes : List Byte} (listed : plain[i]? = some bytes) :
    (h.index i).Holds none plain ∧ (h.index i).Owned i (max 0 1) :=
  holds_detach holds (holds_inside holds listed) (Nat.zero_le _)

theorem holds_data (holds : h.Holds none plain) {bytes : List Byte} (listed : plain[i]? = some bytes) {pos : Nat}
    (within : pos < bytes.length) : (h.data i).Holds none plain ∧ ∃ room, (h.data i).Owned i room := by
  obtain ⟨p, place, pointed, bytes_eq⟩ := holds_place holds listed
  cases p with
  | none =>
      rw [← bytes_eq] at within
      exact absurd within (Nat.not_lt_zero pos)
  | some a =>
      simp only [ArrayHeap.data, pointed]
      by_cases shared : 1 < (h.cells a).ref
      · rw [if_pos shared]
        obtain ⟨detached, own⟩ := holds_detach holds (holds_inside holds listed) (Nat.zero_le (maxSize + 1))
        exact ⟨detached, _, own⟩
      · rw [if_neg shared]
        exact ⟨holds, _, owned_of_single holds place shared⟩

/-- A write through a pointer into the bytes. -/
theorem holds_poke (holds : h.Holds none plain) {room : Nat} (own : h.Owned i room) {bytes : List Byte}
    (listed : plain[i]? = some bytes) (pos : Nat) (value : Byte) :
    (h.poke i pos value).Holds none (plain.set i (bytes.set pos value)) := by
  have sized : (bytes.set pos value).length ≤ maxSize := by
    rw [List.length_set]
    exact holds_sized holds listed
  obtain ⟨a, pointed, updated⟩ := holds_edit holds own listed (makes_store room pos value bytes) sized
  simp only [ArrayHeap.poke, pointed]
  exact updated

theorem holds_reserve (holds : h.Holds none plain) {bytes : List Byte} (listed : plain[i]? = some bytes)
    {size : Nat} (le : size ≤ maxSize) : (h.reserve i size).Holds none plain := by
  have detached := (holds_detach holds (holds_inside holds listed) (Nat.le_succ_of_le le)).1
  rw [ArrayHeap.reserve]
  split
  · split
    · exact detached
    · exact holds
  · exact detached

/-- A `resize` of a buffer that other objects are on, which is large enough and has another size. -/
def ArrayHeap.ResizesShared (h : ArrayHeap) (i size : Nat) : Prop :=
  ∃ a, h.pointer i = some a ∧ 1 < (h.cells a).ref ∧ size ≤ (h.cells a).capacity ∧ size ≠ (h.cells a).size

/-- In every other case the buffer is the object's own, or it has the size already. -/
theorem reserve_owned (holds : h.Holds none plain) {bytes : List Byte} (listed : plain[i]? = some bytes)
    {size : Nat} (le : size ≤ maxSize) (detaches : ¬ h.ResizesShared i size) :
    (h.reserve i size).Owned i size ∨
      h.reserve i size = h ∧ ∃ a, h.pointer i = some a ∧ size = (h.cells a).size := by
  have detached := (holds_detach holds (holds_inside holds listed) (Nat.le_succ_of_le le)).2.mono
    (Nat.le_max_left size 1)
  obtain ⟨p, place, pointed, _⟩ := holds_place holds listed
  cases p with
  | none =>
      left
      simp only [ArrayHeap.reserve, pointed]
      exact detached
  | some a =>
      simp only [ArrayHeap.reserve, pointed]
      by_cases small : (h.cells a).capacity < size
      · rw [if_pos small]
        exact Or.inl detached
      · rw [if_neg small]
        have fits := Nat.le_of_not_lt small
        by_cases shared : 1 < (h.cells a).ref
        · right
          refine ⟨rfl, a, rfl, Decidable.byContradiction fun other => detaches ⟨a, pointed, shared, fits, other⟩⟩
        · exact Or.inl ((owned_of_single holds place shared).mono fits)

theorem holds_resize (holds : h.Holds none plain) {bytes : List Byte} (listed : plain[i]? = some bytes)
    {size : Nat} (le : size ≤ maxSize) (detaches : ¬ h.ResizesShared i size) :
    (h.resize i size).Holds none (plain.set i (bytes.takeD size 0)) := by
  rcases reserve_owned holds listed le detaches with own | ⟨unchanged, a, pointed, size_eq⟩
  · have sized : (bytes.takeD size 0).length ≤ maxSize := by
      rw [List.takeD_length]
      exact le
    obtain ⟨a, pointed, updated⟩ :=
      holds_edit (holds_reserve holds listed le) own listed (makes_resize size bytes) sized
    simp only [ArrayHeap.resize, pointed]
    exact updated
  · -- the buffer is written over with what it holds.
    obtain ⟨p, place, pointer_eq', bytes_eq⟩ := holds_place holds listed
    rw [pointed] at pointer_eq'
    rw [← pointer_eq', ArrayHeap.contents] at bytes_eq
    have length_eq : bytes.length = size := by
      rw [← bytes_eq, length_read, size_eq]
    have same_bytes : bytes.takeD size 0 = bytes := by
      rw [List.takeD_eq_take 0 (Nat.le_of_eq length_eq.symm), ← length_eq, List.take_length]
    have same_heap : h.resize i size = h := by
      simp only [ArrayHeap.resize, unchanged, pointed]
      rw [ArrayHeap.update]
      congr
      funext b
      by_cases here : b = a
      · rw [here, if_pos rfl, if_neg (Nat.not_lt_of_le (Nat.le_of_eq size_eq)), size_eq]
      · rw [if_neg here]
    rw [same_heap, same_bytes, set_eq_self listed]
    exact holds

theorem holds_pushBack (holds : h.Holds none plain) {bytes : List Byte} (listed : plain[i]? = some bytes)
    (lt : bytes.length < maxSize) (value : Byte) :
    (h.pushBack i value).Holds none (plain.set i (bytes ++ [value])) := by
  have inside := holds_inside holds listed
  have sized : (bytes ++ [value]).length ≤ maxSize := by
    rw [List.length_append]
    exact lt
  obtain ⟨p, place, pointed, bytes_eq⟩ := holds_place holds listed
  rw [ArrayHeap.pushBack, pointed]
  -- the three ways to a buffer of its own.
  have own : ∀ detached : ArrayHeap, detached.Holds none plain → detached.Owned i (bytes.length + 1) →
      ∃ b, detached.pointer i = some b ∧
        (detached.update b fun cell =>
          { cell with size := cell.size + 1, data := cell.data.store cell.size value }).Holds none
            (plain.set i (bytes ++ [value])) := by
    intro detached kept own
    obtain ⟨b, pointed, updated⟩ := holds_edit kept own listed (makes_append value bytes) sized
    exact ⟨b, pointed, updated⟩
  cases p with
  | none =>
      obtain ⟨kept, owned⟩ := holds_detach holds inside (Nat.zero_le (maxSize + 1))
      rw [← bytes_eq] at own
      rw [← bytes_eq]
      obtain ⟨b, pointed, updated⟩ := own _ kept owned
      simp only [pointed]
      exact updated
  | some a =>
      have size_eq : (h.cells a).size = bytes.length := by
        rw [← bytes_eq, ArrayHeap.contents, length_read]
      by_cases full : (h.cells a).capacity ≤ (h.cells a).size ∨ 1 < (h.cells a).ref
      · have room_le : (h.cells a).size + 1 ≤ maxSize + 1 := Nat.succ_le_succ (holds.sized a)
        obtain ⟨kept, owned⟩ := holds_detach holds inside room_le
        have enough : bytes.length + 1 ≤ max ((h.cells a).size + 1) 1 := by
          rw [size_eq]
          exact Nat.le_max_left _ 1
        obtain ⟨b, pointed, updated⟩ := own _ kept (owned.mono enough)
        simp only [if_pos full, pointed]
        exact updated
      · obtain ⟨room, single⟩ := not_or.mp full
        have enough : bytes.length + 1 ≤ (h.cells a).capacity := by
          rw [← size_eq]
          exact Nat.lt_of_not_le room
        obtain ⟨b, pointed, updated⟩ := own h holds ((owned_of_single holds place single).mono enough)
        simp only [if_neg full, pointed]
        exact updated

theorem holds_popBack (holds : h.Holds none plain) {bytes : List Byte} (listed : plain[i]? = some bytes) :
    (h.popBack i).Holds none (plain.set i bytes.dropLast) := by
  obtain ⟨p, place, pointed, bytes_eq⟩ := holds_place holds listed
  have of_nil : bytes = [] → h.Holds none (plain.set i bytes.dropLast) := by
    rintro rfl
    rw [List.dropLast_nil, set_eq_self listed]
    exact holds
  rw [ArrayHeap.popBack, pointed]
  cases p with
  | none => exact of_nil bytes_eq.symm
  | some a =>
      simp only []
      split
      next =>
        obtain ⟨kept, owned⟩ := holds_detach holds (holds_inside holds listed) (Nat.zero_le (maxSize + 1))
        have sized : bytes.dropLast.length ≤ maxSize := by
          rw [List.length_dropLast]
          exact Nat.le_trans (Nat.sub_le _ 1) (holds_sized holds listed)
        obtain ⟨b, pointed, updated⟩ := holds_edit kept owned listed (makes_dropLast _ bytes) sized
        simp only [pointed]
        exact updated
      next empty =>
        have size_eq : (h.cells a).size = 0 := Nat.eq_zero_of_not_pos empty
        rw [ArrayHeap.contents, size_eq, read_zero] at bytes_eq
        exact of_nil bytes_eq.symm

/-- The object lets its buffer go. -/
theorem holds_clear (holds : h.Holds none plain) {bytes : List Byte} (listed : plain[i]? = some bytes) :
    (h.clear i).Holds none (plain.set i []) := by
  obtain ⟨p, place, pointed, _⟩ := holds_place holds listed
  rw [ArrayHeap.clear, pointed]
  exact holds_retarget holds place

theorem holds_assign (holds : h.Holds none plain) {other : Nat} {old bytes : List Byte}
    (listed : plain[i]? = some old) (source : plain[other]? = some bytes) :
    (h.assign i other).Holds none (plain.set i bytes) := by
  obtain ⟨p, place, pointed, old_eq⟩ := holds_place holds listed
  obtain ⟨q, other_place, other_pointed, bytes_eq⟩ := holds_place holds source
  rw [ArrayHeap.assign, pointed, other_pointed]
  split
  next =>
    have held := holds_addRef holds other_place
    have moved := holds_retarget (p := p) (i := i) held (by
      rw [ArrayHeap.addRef, recount_objects]
      exact place)
    rw [ArrayHeap.addRef, recount_contents, bytes_eq] at moved
    exact moved
  next same =>
    have equal : p = q := Decidable.byContradiction same
    rw [set_eq_self (by rw [listed, ← old_eq, equal, bytes_eq])]
    exact holds

theorem holds_copyConstruct (holds : h.Holds none plain) {other : Nat} {bytes : List Byte}
    (source : plain[other]? = some bytes) : (h.copyConstruct other).Holds none (plain ++ [bytes]) := by
  obtain ⟨q, place, pointed, bytes_eq⟩ := holds_place holds source
  have constructed := holds_construct (holds_addRef holds place)
  rw [ArrayHeap.addRef, recount_contents, bytes_eq] at constructed
  rw [ArrayHeap.copyConstruct, pointed]
  exact constructed

theorem holds_constructSize (holds : h.Holds none plain) {size : Nat} (le : size ≤ maxSize) (value : Byte) :
    (h.constructSize size value).Holds none (plain ++ [List.replicate size value]) := by
  have room_eq : (if size = 0 then capacityOf 1 else capacityOf size) =
      capacityOf (if size = 0 then 1 else size) := by
    split <;> rfl
  have fits : size ≤ capacityOf (if size = 0 then 1 else size) :=
    Nat.le_trans (Nat.le_max_left size 1) (le_roundedCapacity (Nat.le_succ_of_le le))
  rw [← room_eq] at fits
  obtain ⟨room, room_def⟩ : ∃ room, (if size = 0 then capacityOf 1 else capacityOf size) = room := ⟨_, rfl⟩
  rw [room_def] at fits
  have cell_eq := newPrivate_cell h room
  have filled : ((h.newPrivate room).1.update h.next fun cell =>
      { cell with size := size, data := cell.data.write 0 (List.replicate size value) }).Holds
        (some h.next) plain := by
    refine holds_update_held (holds_newPrivate holds room) ?_ ?_ ?_ le
    · rw [cell_eq]
    · rw [cell_eq]
    · rw [cell_eq]
      exact fits
  have constructed := holds_construct filled
  rw [ArrayHeap.contents, update_cell, read_write_of_length (List.length_replicate ..)] at constructed
  rw [ArrayHeap.constructSize, room_def]
  exact constructed

/-! ### Programs -/

/-- A `resize` that changes other objects. -/
def ArrayHeap.ResizesOthers (h : ArrayHeap) : ArrayOp → Prop
  | .resize i size => h.ResizesShared i size
  | _ => False

/-- One operation. -/
theorem holds_step (holds : h.Holds none plain) {op : ArrayOp} {next : List (List Byte)}
    (defined : plainStep plain op = some next) (detaches : ¬ h.ResizesOthers op) : (h.step op).Holds none next := by
  cases op with
  | construct =>
      obtain rfl := Option.some.inj defined
      exact holds_construct holds
  | constructSize size value =>
      obtain ⟨le, equal⟩ := Option.ite_none_right_eq_some.mp defined
      obtain rfl := Option.some.inj equal
      exact holds_constructSize holds le value
  | copyConstruct other =>
      obtain ⟨bytes, source, equal⟩ := Option.bind_eq_some_iff.mp defined
      obtain rfl := Option.some.inj equal
      exact holds_copyConstruct holds source
  | destroy i =>
      obtain ⟨bytes, listed, equal⟩ := Option.bind_eq_some_iff.mp defined
      obtain rfl := Option.some.inj equal
      exact holds_clear holds listed
  | assign i other =>
      obtain ⟨old, listed, rest⟩ := Option.bind_eq_some_iff.mp defined
      obtain ⟨bytes, source, equal⟩ := Option.bind_eq_some_iff.mp rest
      obtain rfl := Option.some.inj equal
      exact holds_assign holds listed source
  | get i pos =>
      obtain ⟨bytes, listed, rest⟩ := Option.bind_eq_some_iff.mp defined
      obtain ⟨_, equal⟩ := Option.ite_none_right_eq_some.mp rest
      obtain rfl := Option.some.inj equal
      exact (holds_index holds listed).1
  | set i pos value =>
      obtain ⟨bytes, listed, rest⟩ := Option.bind_eq_some_iff.mp defined
      obtain ⟨_, equal⟩ := Option.ite_none_right_eq_some.mp rest
      obtain rfl := Option.some.inj equal
      obtain ⟨detached, own⟩ := holds_index holds listed
      exact holds_poke detached own listed pos value
  | dataSet i pos value =>
      obtain ⟨bytes, listed, rest⟩ := Option.bind_eq_some_iff.mp defined
      obtain ⟨within, equal⟩ := Option.ite_none_right_eq_some.mp rest
      obtain rfl := Option.some.inj equal
      obtain ⟨detached, room, own⟩ := holds_data holds listed within
      exact holds_poke detached own listed pos value
  | reserve i size =>
      obtain ⟨bytes, listed, rest⟩ := Option.bind_eq_some_iff.mp defined
      obtain ⟨le, equal⟩ := Option.ite_none_right_eq_some.mp rest
      obtain rfl := Option.some.inj equal
      exact holds_reserve holds listed le
  | resize i size =>
      obtain ⟨bytes, listed, rest⟩ := Option.bind_eq_some_iff.mp defined
      obtain ⟨le, equal⟩ := Option.ite_none_right_eq_some.mp rest
      obtain rfl := Option.some.inj equal
      exact holds_resize holds listed le detaches
  | clear i =>
      obtain ⟨bytes, listed, equal⟩ := Option.bind_eq_some_iff.mp defined
      obtain rfl := Option.some.inj equal
      exact holds_clear holds listed
  | pushBack i value =>
      obtain ⟨bytes, listed, rest⟩ := Option.bind_eq_some_iff.mp defined
      obtain ⟨lt, equal⟩ := Option.ite_none_right_eq_some.mp rest
      obtain rfl := Option.some.inj equal
      exact holds_pushBack holds listed lt value
  | popBack i =>
      obtain ⟨bytes, listed, equal⟩ := Option.bind_eq_some_iff.mp defined
      obtain rfl := Option.some.inj equal
      exact holds_popBack holds listed

/-- The objects hold the vectors, every buffer is large enough for them and counts the objects on it. -/
structure ArrayHeap.Matches (h : ArrayHeap) (plain : List (List Byte)) : Prop where
  contents : h.objects.map h.contents = plain
  counted : ∀ a, (h.cells a).ref = h.objects.count (some a)
  bounded : ∀ a, (h.cells a).size ≤ (h.cells a).capacity

theorem matches_of_holds (holds : h.Holds none plain) : h.Matches plain :=
  ⟨holds.contents, holds.counted, holds.bounded⟩

/-- A `resize` of a shared buffer gives every object on it the new size. -/
theorem not_matches_of_resizesOthers (holds : h.Holds none plain) {op : ArrayOp} {next : List (List Byte)}
    (defined : plainStep plain op = some next) (shared : h.ResizesOthers op) : ¬ (h.step op).Matches next := by
  cases op with
  | resize i size =>
      obtain ⟨bytes, listed, rest⟩ := Option.bind_eq_some_iff.mp defined
      obtain ⟨_, equal⟩ := Option.ite_none_right_eq_some.mp rest
      obtain rfl := Option.some.inj equal
      obtain ⟨a, pointed, several, fits, apart⟩ := shared
      obtain ⟨p, place, pointer_eq', _⟩ := holds_place holds listed
      obtain rfl : some a = p := pointed.symm.trans pointer_eq'
      obtain ⟨j, elsewhere, other⟩ := holds.counted.another several place
      have unchanged : h.reserve i size = h := by
        simp only [ArrayHeap.reserve, pointed]
        exact if_neg (Nat.not_lt_of_le fits)
      intro same
      -- the vector of the other object keeps its length, and the object has another one.
      have seen := congrArg (fun plain => (plain[j]?).map List.length) same.contents
      have kept : plain[j]? = some (h.contents (some a)) := by
        rw [holds_getElem? holds, other]
        rfl
      simp only [ArrayHeap.step, ArrayHeap.resize, unchanged, pointed, List.getElem?_map] at seen
      rw [List.getElem?_set_ne (Ne.symm elsewhere), kept, ArrayHeap.update] at seen
      simp only [other, Option.map_some, ArrayHeap.contents, length_read, if_pos] at seen
      exact apart (Option.some.inj seen)
  | _ => exact absurd shared (fun false => false)

end

/-- At every point of a program whose operations have a result on plain vectors, the objects hold the vectors. -/
def ArrayHeap.Follows (h : ArrayHeap) (plain : List (List Byte)) : List ArrayOp → Prop
  | [] => h.Matches plain
  | op :: ops => h.Matches plain ∧ ∀ next, plainStep plain op = some next → (h.step op).Follows next ops

/-- No operation of the program resizes other objects, as far as the operations have a result on plain vectors. -/
def ArrayHeap.ResizesAlone (h : ArrayHeap) (plain : List (List Byte)) : List ArrayOp → Prop
  | [] => True
  | op :: ops =>
      ∀ next, plainStep plain op = some next → ¬ h.ResizesOthers op ∧ (h.step op).ResizesAlone next ops

theorem follows_start {h : ArrayHeap} {plain : List (List Byte)} {ops : List ArrayOp}
    (follows : h.Follows plain ops) : h.Matches plain := by
  cases ops with
  | nil => exact follows
  | cons op ops => exact follows.1

theorem follows_iff {h : ArrayHeap} {plain : List (List Byte)} (holds : h.Holds none plain)
    (ops : List ArrayOp) : h.Follows plain ops ↔ h.ResizesAlone plain ops := by
  induction ops generalizing h plain with
  | nil => exact ⟨fun _ => trivial, fun _ => matches_of_holds holds⟩
  | cons op ops ih =>
      constructor
      · intro follows next defined
        have later := follows.2 next defined
        have alone : ¬ h.ResizesOthers op := fun shared =>
          not_matches_of_resizesOthers holds defined shared (follows_start later)
        exact ⟨alone, (ih (holds_step holds defined alone)).mp later⟩
      · intro alone
        refine ⟨matches_of_holds holds, fun next defined => ?_⟩
        obtain ⟨detaches, later⟩ := alone next defined
        exact (ih (holds_step holds defined detaches)).mpr later

theorem holds_start (storage : Nat → Mem) : (ArrayHeap.start storage).Holds none [] where
  counted := fun _ => rfl
  fresh := fun _ _ => rfl
  bounded := fun _ => Nat.le_refl 0
  sized := fun _ => Nat.zero_le maxSize
  contents := rfl

/-- The objects of a program are plain vectors as long as no `resize` finds its object on a shared buffer that is
large enough and has another size, and from such a `resize` on they are not. -/
theorem byte_arrays_are_values_iff (storage : Nat → Mem) (ops : List ArrayOp) :
    (ArrayHeap.start storage).Follows [] ops ↔ (ArrayHeap.start storage).ResizesAlone [] ops :=
  follows_iff (holds_start storage) ops

/-- A copy that is made shorter makes the array shorter that it was copied from. -/
theorem byte_array_resize_changes_copy :
    ¬ (ArrayHeap.start fun _ _ => 0).Follows []
      [.constructSize 5 7, .copyConstruct 0, .resize 1 3] := by
  intro follows
  have constructed := follows.2 [[7, 7, 7, 7, 7]] (by decide)
  have copied := constructed.2 [[7, 7, 7, 7, 7], [7, 7, 7, 7, 7]] (by decide)
  have resized : ArrayHeap.Matches _ [[7, 7, 7, 7, 7], [7, 7, 7]] := copied.2 _ (by decide)
  exact absurd resized.contents (by decide +kernel)

end AsconSuite
