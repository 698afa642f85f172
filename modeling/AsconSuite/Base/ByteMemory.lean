/-
Module: AsconSuite.Base.ByteMemory
Layer: Base (library)
Purpose: A flat byte memory with range reads and range writes. Routines that take pointers are modelled
  over it, so that what happens when an input range and an output range coincide or overlap is a fact
  about reads and writes and not an assumption of the model.
Imports: AsconSuite.Base.ByteWord, Mathlib's List.getD lemmas
Trusted boundary: none
Main exports: Mem, Mem.view, Mem.read, Mem.write, SameOrApart, read_write_same, read_write_apart,
  write_append
-/
import Mathlib.Data.List.GetD
import AsconSuite.Base.ByteWord

namespace ByteMemory

open ByteWord (Byte)

/-- A memory: one byte for every address. -/
abbrev Mem := Nat → Byte

/-- The bytes seen through a pointer: index `i` is the byte at `p + i`. -/
def Mem.view (mem : Mem) (p : Nat) : Mem := fun i => mem (p + i)

@[simp] theorem view_apply (mem : Mem) (p i : Nat) : mem.view p i = mem (p + i) := rfl

@[simp] theorem view_zero (mem : Mem) : mem.view 0 = mem := by
  funext i
  rw [view_apply, Nat.zero_add]

theorem view_view (mem : Mem) (p q : Nat) : (mem.view p).view q = mem.view (p + q) := by
  funext i
  simp [Mem.view, Nat.add_assoc]

/-- The `n` bytes starting at address `p`. -/
def Mem.read (mem : Mem) : Nat → Nat → List Byte
  | _, 0 => []
  | p, n + 1 => mem p :: Mem.read mem (p + 1) n

/-- Store a list of bytes at address `p`. -/
def Mem.write (mem : Mem) (p : Nat) (bytes : List Byte) : Mem := fun a =>
  if p ≤ a ∧ a < p + bytes.length then bytes.getD (a - p) 0 else mem a

/-- Store one byte. -/
def Mem.store (mem : Mem) (p : Nat) (b : Byte) : Mem := fun a => if a = p then b else mem a

/-! ### Reading -/

@[simp] theorem read_zero (mem : Mem) (p : Nat) : mem.read p 0 = [] := rfl

theorem read_succ (mem : Mem) (p n : Nat) : mem.read p (n + 1) = mem p :: mem.read (p + 1) n := rfl

@[simp] theorem length_read (mem : Mem) (p n : Nat) : (mem.read p n).length = n := by
  induction n generalizing p with
  | zero => rfl
  | succ n ih => simp [read_succ, ih]

theorem getD_read (mem : Mem) (p : Nat) {n i : Nat} (hi : i < n) :
    (mem.read p n).getD i 0 = mem (p + i) := by
  induction n generalizing p i with
  | zero => omega
  | succ n ih =>
      cases i with
      | zero => rfl
      | succ i =>
          rw [read_succ, List.getD_cons_succ, ih (p + 1) (by omega)]
          congr 1
          omega

theorem getElem?_read (mem : Mem) (p n i : Nat) :
    (mem.read p n)[i]? = if i < n then some (mem (p + i)) else none := by
  induction n generalizing p i with
  | zero => simp
  | succ n ih =>
      cases i with
      | zero => simp [read_succ]
      | succ i => simp [read_succ, ih, Nat.add_assoc, Nat.add_comm 1 i]

theorem read_add (mem : Mem) (p m n : Nat) :
    mem.read p (m + n) = mem.read p m ++ mem.read (p + m) n := by
  induction m generalizing p with
  | zero => simp
  | succ m ih =>
      rw [Nat.add_right_comm, read_succ, read_succ, ih, List.cons_append]
      congr 3
      omega

theorem take_read (mem : Mem) (p : Nat) {m n : Nat} (le : m ≤ n) :
    (mem.read p n).take m = mem.read p m := by
  obtain ⟨rest, rfl⟩ := Nat.exists_eq_add_of_le le
  rw [read_add, List.take_left' (length_read mem p m)]

theorem drop_read (mem : Mem) (p : Nat) {m n : Nat} (le : m ≤ n) :
    (mem.read p n).drop m = mem.read (p + m) (n - m) := by
  obtain ⟨rest, rfl⟩ := Nat.exists_eq_add_of_le le
  rw [read_add, List.drop_left' (length_read mem p m), Nat.add_sub_cancel_left]

/-- Reads agree exactly when the memories agree on the range. -/
theorem read_congr {mem other : Mem} {p q n : Nat}
    (same : ∀ i < n, mem (p + i) = other (q + i)) : mem.read p n = other.read q n := by
  induction n generalizing p q with
  | zero => rfl
  | succ n ih =>
      rw [read_succ, read_succ, ← Nat.add_zero p, same 0 (by omega), Nat.add_zero]
      congr 1
      refine ih fun i hi => ?_
      simpa [Nat.add_assoc, Nat.add_comm 1 i] using same (i + 1) (by omega)

theorem eq_of_read_eq {mem other : Mem} {p q n : Nat} (same : mem.read p n = other.read q n)
    {i : Nat} (hi : i < n) : mem (p + i) = other (q + i) := by
  rw [← getD_read mem p hi, same, getD_read other q hi]

theorem read_view (mem : Mem) (p q n : Nat) : (mem.view p).read q n = mem.read (p + q) n :=
  read_congr fun i _ => by simp [Nat.add_assoc]

/-- Every list of bytes is what some pointer sees. -/
theorem read_getD (bytes : List Byte) :
    Mem.read (fun i => bytes.getD i 0) 0 bytes.length = bytes := by
  apply List.ext_getElem (by simp)
  intro i hi hi'
  have byte := getD_read (fun i => bytes.getD i 0) 0 hi'
  rw [List.getD_eq_getElem _ _ hi] at byte
  simpa [hi'] using byte

/-! ### Writing -/

theorem write_apply (mem : Mem) (p : Nat) (bytes : List Byte) (a : Nat) :
    mem.write p bytes a =
      if p ≤ a ∧ a < p + bytes.length then bytes.getD (a - p) 0 else mem a := rfl

theorem write_apply_of_lt (mem : Mem) (p : Nat) (bytes : List Byte) {i : Nat}
    (hi : i < bytes.length) : mem.write p bytes (p + i) = bytes.getD i 0 := by
  rw [write_apply, if_pos (by omega), Nat.add_sub_cancel_left]

/-- A write leaves every byte outside its range alone. -/
theorem write_apply_outside (mem : Mem) (p : Nat) (bytes : List Byte) {a : Nat}
    (outside : a < p ∨ p + bytes.length ≤ a) : mem.write p bytes a = mem a := by
  rw [write_apply, if_neg (by omega)]

@[simp] theorem write_nil (mem : Mem) (p : Nat) : mem.write p [] = mem := by
  funext a
  rw [write_apply, if_neg (by simp)]

theorem store_eq_write (mem : Mem) (p : Nat) (b : Byte) : mem.store p b = mem.write p [b] := by
  funext a
  by_cases here : a = p
  · subst here
    simp [Mem.store, write_apply]
  · rw [write_apply_outside _ _ _ (by simp; omega), Mem.store, if_neg here]

/-- Two writes, one behind the other, are one write. -/
theorem write_append (mem : Mem) (p : Nat) (front back : List Byte) :
    (mem.write p front).write (p + front.length) back = mem.write p (front ++ back) := by
  funext a
  rcases Nat.lt_or_ge a p with before | after
  · rw [write_apply_outside _ _ _ (by omega), write_apply_outside _ _ _ (by omega),
      write_apply_outside _ _ _ (by omega)]
  · obtain ⟨i, rfl⟩ := Nat.exists_eq_add_of_le after
    rcases Nat.lt_or_ge i front.length with inFront | inBack
    · rw [write_apply_outside _ _ _ (by omega), write_apply_of_lt _ _ _ inFront,
        write_apply_of_lt _ _ _ (by simp; omega), List.getD_append _ _ _ _ inFront]
    · obtain ⟨k, rfl⟩ := Nat.exists_eq_add_of_le inBack
      rcases Nat.lt_or_ge k back.length with within | beyond
      · rw [← Nat.add_assoc, write_apply_of_lt _ _ _ within, Nat.add_assoc,
          write_apply_of_lt _ _ _ (by simp; omega), List.getD_append_right _ _ _ _ inBack,
          Nat.add_sub_cancel_left]
      · rw [write_apply_outside _ _ _ (by omega), write_apply_outside _ _ _ (by omega),
          write_apply_outside _ _ _ (by simp; omega)]

/-- The two writes may come in the other order. -/
theorem write_behind_write (mem : Mem) (p : Nat) (front back : List Byte) :
    (mem.write (p + front.length) back).write p front = mem.write p (front ++ back) := by
  rw [← write_append]
  funext a
  by_cases inFront : p ≤ a ∧ a < p + front.length
  · rw [write_apply_outside _ (p + front.length) _ (by omega), write_apply, write_apply _ p, if_pos inFront,
      if_pos inFront]
  · rw [write_apply_outside _ p _ (by omega), write_apply, write_apply _ _ back,
      write_apply_outside mem p front (by omega)]

/-- A second write to the same address hides a first one that is no longer. -/
theorem write_write_of_le (mem : Mem) (p : Nat) {bytes other : List Byte}
    (len : bytes.length ≤ other.length) : (mem.write p bytes).write p other = mem.write p other := by
  funext a
  by_cases inside : p ≤ a ∧ a < p + other.length
  · rw [write_apply _ p other, if_pos inside, write_apply, if_pos inside]
  · rw [write_apply_outside _ _ _ (by omega), write_apply_outside _ _ _ (by omega),
      write_apply_outside _ _ _ (by omega)]

/-- A second write to the same range hides the first. -/
theorem write_write (mem : Mem) (p : Nat) {bytes other : List Byte}
    (len : bytes.length = other.length) : (mem.write p bytes).write p other = mem.write p other :=
  write_write_of_le mem p len.le

theorem write_cons (mem : Mem) (p : Nat) (b : Byte) (bytes : List Byte) :
    (mem.store p b).write (p + 1) bytes = mem.write p (b :: bytes) := by
  have joined := write_append mem p [b] bytes
  rwa [List.length_singleton, List.singleton_append, ← store_eq_write] at joined

theorem read_write_same (mem : Mem) (p : Nat) (bytes : List Byte) :
    (mem.write p bytes).read p bytes.length = bytes := by
  refine Eq.trans (read_congr (q := 0) fun i hi => ?_) (read_getD bytes)
  rw [write_apply_of_lt _ _ _ hi, Nat.zero_add]

theorem read_write_of_length {mem : Mem} {p n : Nat} {bytes : List Byte} (len : bytes.length = n) :
    (mem.write p bytes).read p n = bytes := by
  subst len
  exact read_write_same mem p bytes

/-- A read apart from the written range sees the old memory. -/
theorem read_write_apart (mem : Mem) (p : Nat) (bytes : List Byte) {q n : Nat}
    (apart : q + n ≤ p ∨ p + bytes.length ≤ q) :
    (mem.write p bytes).read q n = mem.read q n :=
  read_congr fun i hi => write_apply_outside _ _ _ (by omega)

/-! ### Input and output ranges of one call -/

/-- The output range `[dest, dest + len)` is the input range itself or does not meet it. -/
def SameOrApart (dest src len : Nat) : Prop :=
  dest = src ∨ dest + len ≤ src ∨ src + len ≤ dest

instance (dest src len : Nat) : Decidable (SameOrApart dest src len) := by
  unfold SameOrApart
  infer_instance

theorem SameOrApart.front {dest src m n : Nat} (ranges : SameOrApart dest src (m + n)) :
    SameOrApart dest src m := by
  unfold SameOrApart at *
  omega

theorem SameOrApart.back {dest src m n : Nat} (ranges : SameOrApart dest src (m + n)) :
    SameOrApart (dest + m) (src + m) n := by
  unfold SameOrApart at *
  omega

/-- A piece of the two ranges at the same distance from their starts. -/
theorem SameOrApart.piece {dest src len m n : Nat} (ranges : SameOrApart dest src len)
    (within : m + n ≤ len) : SameOrApart (dest + m) (src + m) n := by
  unfold SameOrApart at *
  omega

/-- Writing the first `m` bytes of the output leaves the rest of the input as it was. -/
theorem SameOrApart.read_rest {dest src m n : Nat} (ranges : SameOrApart dest src (m + n))
    (mem : Mem) (bytes : List Byte) (len : bytes.length = m) :
    (mem.write dest bytes).read (src + m) n = mem.read (src + m) n := by
  unfold SameOrApart at ranges
  refine read_congr fun i hi => write_apply_outside _ _ _ ?_
  omega

end ByteMemory
