/-
Module: AsconSuite.Cpp.ByteArray
Layer: Model
Purpose: The class `byte_array` of `ascon/utility.h` and `cplusplus/ascon-byte-array.cpp` in a build without the
  standard template library. Objects share a private buffer that counts them until one of them is written.
Imports: AsconSuite.Base.ByteMemory, Mathlib.Data.List.TakeDrop
Trusted boundary: `new` finds storage that nothing else uses
Main exports: ByteArrayPrivate, ArrayHeap, ArrayHeap.detach, ArrayHeap.resize, ArrayOp, ArrayHeap.step, plainStep
-/
import Mathlib.Data.List.TakeDrop
import AsconSuite.Base.ByteMemory

namespace AsconSuite

open ByteWord ByteMemory

/-! ### Private buffers -/

/-- `byte_array_private`. A buffer whose count has come down to zero is deleted. -/
structure ByteArrayPrivate where
  ref : Nat
  size : Nat
  capacity : Nat
  data : Mem

/-- The private buffers, and the pointer `p` of each object in the order of their construction. -/
structure ArrayHeap where
  cells : Nat → ByteArrayPrivate
  /-- Where the next buffer goes. -/
  next : Nat
  objects : List (Option Nat)

/-- `CAPACITY`, in the arithmetic of `size_t`. -/
def capacityOf (x : Nat) : Nat := (x + 15) % 2 ^ 64 / 16 * 16

namespace ArrayHeap

/-- A program that has no objects yet. `storage` is what the bytes of a buffer hold before it is used. -/
def start (storage : Nat → Mem) : ArrayHeap where
  cells := fun a => ⟨0, 0, 0, storage a⟩
  next := 0
  objects := []

/-- The pointer of an object. -/
def pointer (h : ArrayHeap) (i : Nat) : Option Nat := (h.objects[i]?).join

/-- The bytes that an object with this pointer holds. -/
def contents (h : ArrayHeap) : Option Nat → List Byte
  | none => []
  | some a => (h.cells a).data.read 0 (h.cells a).size

def update (h : ArrayHeap) (a : Nat) (change : ByteArrayPrivate → ByteArrayPrivate) : ArrayHeap :=
  { h with cells := fun b => if b = a then change (h.cells a) else h.cells b }

/-- `new byte_array_private(reserve)`. -/
def newPrivate (h : ArrayHeap) (reserve : Nat) : ArrayHeap × Nat :=
  ({ h.update h.next fun cell => ⟨1, 0, reserve, cell.data⟩ with next := h.next + 1 }, h.next)

/-- A new count in the buffer that a pointer is on. -/
def recount (h : ArrayHeap) (count : Nat → Nat) : Option Nat → ArrayHeap
  | none => h
  | some a => h.update a fun cell => { cell with ref := count cell.ref }

/-- `if (p) ++(p->ref)`. -/
def addRef (h : ArrayHeap) (p : Option Nat) : ArrayHeap := h.recount (· + 1) p

/-- `if (p && (--(p->ref)) == 0) delete p`. -/
def release (h : ArrayHeap) (p : Option Nat) : ArrayHeap := h.recount (· - 1) p

/-- `p = np` in an object. -/
def setPointer (h : ArrayHeap) (i : Nat) (p : Option Nat) : ArrayHeap :=
  { h with objects := h.objects.set i p }

/-- A constructor that is given its pointer. -/
def construct (h : ArrayHeap) (p : Option Nat) : ArrayHeap := { h with objects := h.objects ++ [p] }

/-! ### The methods -/

/-- `byte_array::detach`. -/
def detach (h : ArrayHeap) (i : Nat) (capacity : Nat) : ArrayHeap :=
  let p := h.pointer i
  let capacity :=
    match p with
    | some a => if capacity < (h.cells a).size then (h.cells a).size else capacity
    | none => capacity
  let capacity := if capacity = 0 then 1 else capacity
  let (fresh, np) := h.newPrivate (capacityOf capacity)
  let copied :=
    match p with
    | some a => fresh.update np fun cell =>
        { cell with
          size := (h.cells a).size
          data := cell.data.write 0 ((h.cells a).data.read 0 (h.cells a).size) }
    | none => fresh
  (copied.release p).setPointer i (some np)

/-- `byte_array::byte_array(size, value)`. -/
def constructSize (h : ArrayHeap) (size : Nat) (value : Byte) : ArrayHeap :=
  let (fresh, p) := h.newPrivate (if size = 0 then capacityOf 1 else capacityOf size)
  let filled := fresh.update p fun cell =>
    { cell with size := size, data := cell.data.write 0 (List.replicate size value) }
  filled.construct (some p)

/-- `byte_array::byte_array(other)`. -/
def copyConstruct (h : ArrayHeap) (other : Nat) : ArrayHeap :=
  (h.addRef (h.pointer other)).construct (h.pointer other)

/-- `byte_array::operator=`. -/
def assign (h : ArrayHeap) (i other : Nat) : ArrayHeap :=
  if h.pointer i ≠ h.pointer other then
    ((h.addRef (h.pointer other)).release (h.pointer i)).setPointer i (h.pointer other)
  else h

/-- `byte_array::clear`, and the destructor. -/
def clear (h : ArrayHeap) (i : Nat) : ArrayHeap := (h.release (h.pointer i)).setPointer i none

/-- `*q = value` for a pointer into the bytes of an object. -/
def poke (h : ArrayHeap) (i pos : Nat) (value : Byte) : ArrayHeap :=
  match h.pointer i with
  | some a => h.update a fun cell => { cell with data := cell.data.store pos value }
  | none => h

/-- `byte_array::operator[]`, which gives a pointer into the bytes; the constant form is the same. -/
def index (h : ArrayHeap) (i : Nat) : ArrayHeap := h.detach i 0

/-- `byte_array::data`. -/
def data (h : ArrayHeap) (i : Nat) : ArrayHeap :=
  match h.pointer i with
  | some a => if 1 < (h.cells a).ref then h.detach i 0 else h
  | none => h

/-- `byte_array::reserve`. -/
def reserve (h : ArrayHeap) (i size : Nat) : ArrayHeap :=
  match h.pointer i with
  | some a => if (h.cells a).capacity < size then h.detach i size else h
  | none => h.detach i size

/-- `byte_array::resize`. -/
def resize (h : ArrayHeap) (i size : Nat) : ArrayHeap :=
  let reserved := h.reserve i size
  match reserved.pointer i with
  | some a => reserved.update a fun cell =>
      { cell with
        size := size
        data := if cell.size < size then cell.data.write cell.size (List.replicate (size - cell.size) 0)
          else cell.data }
  | none => reserved

/-- `byte_array::push_back`. -/
def pushBack (h : ArrayHeap) (i : Nat) (value : Byte) : ArrayHeap :=
  let detached :=
    match h.pointer i with
    | some a =>
        if (h.cells a).capacity ≤ (h.cells a).size ∨ 1 < (h.cells a).ref then h.detach i ((h.cells a).size + 1)
        else h
    | none => h.detach i 0
  match detached.pointer i with
  | some a => detached.update a fun cell =>
      { cell with size := cell.size + 1, data := cell.data.store cell.size value }
  | none => detached

/-- `byte_array::pop_back`. -/
def popBack (h : ArrayHeap) (i : Nat) : ArrayHeap :=
  match h.pointer i with
  | some a =>
      if 0 < (h.cells a).size then
        let detached := h.detach i 0
        match detached.pointer i with
        | some b => detached.update b fun cell => { cell with size := cell.size - 1 }
        | none => detached
      else h
  | none => h

/-! ### Comparison -/

/-- `memcmp`. The language fixes no more than the sign of its result. -/
def memcmp (p q : Mem) : (count : Nat) → Int
  | 0 => 0
  | count + 1 => if p 0 ≠ q 0 then ((p 0).toNat : Int) - (q 0).toNat else memcmp (p.view 1) (q.view 1) count

/-- `byte_array::cmp` for the pointers of two objects. -/
def cmp (h : ArrayHeap) (p other : Option Nat) : Int :=
  if p = other then 0
  else
    match p, other with
    | none, none => 0
    | none, some b => if 0 < (h.cells b).size then 1 else 0
    | some a, none => if 0 < (h.cells a).size then -1 else 0
    | some a, some b =>
        let size :=
          if (h.cells b).size < (h.cells a).size then (h.cells b).size else (h.cells a).size
        let result := memcmp (h.cells a).data (h.cells b).data size
        if result ≠ 0 then result
        else if size < (h.cells a).size then 1
        else if size < (h.cells b).size then -1
        else 0

/-- `byte_array::operator==`. -/
def eq (h : ArrayHeap) (p other : Option Nat) : Bool := h.cmp p other == 0

/-- `byte_array::operator!=`. -/
def ne (h : ArrayHeap) (p other : Option Nat) : Bool := h.cmp p other != 0

/-- `byte_array::operator<`. -/
def lt (h : ArrayHeap) (p other : Option Nat) : Bool := decide (h.cmp p other < 0)

/-- `byte_array::operator<=`. -/
def le (h : ArrayHeap) (p other : Option Nat) : Bool := decide (h.cmp p other ≤ 0)

/-- `byte_array::operator>`. -/
def gt (h : ArrayHeap) (p other : Option Nat) : Bool := decide (h.cmp p other > 0)

/-- `byte_array::operator>=`. -/
def ge (h : ArrayHeap) (p other : Option Nat) : Bool := decide (h.cmp p other ≥ 0)

end ArrayHeap

/-! ### Programs -/

/-- The operations on the objects, which are numbered in the order of their construction. An object that is
destroyed keeps its number. -/
inductive ArrayOp where
  | construct
  | constructSize (size : Nat) (value : Byte)
  | copyConstruct (other : Nat)
  | destroy (i : Nat)
  | assign (i other : Nat)
  /-- An element is read through either form of `operator[]`. -/
  | get (i pos : Nat)
  /-- `a[pos] = value`. -/
  | set (i pos : Nat) (value : Byte)
  /-- `a.data()[pos] = value`. -/
  | dataSet (i pos : Nat) (value : Byte)
  | reserve (i size : Nat)
  | resize (i size : Nat)
  | clear (i : Nat)
  | pushBack (i : Nat) (value : Byte)
  | popBack (i : Nat)
  deriving DecidableEq

/-- What an operation does. -/
def ArrayHeap.step (h : ArrayHeap) : ArrayOp → ArrayHeap
  | .construct => h.construct none
  | .constructSize size value => h.constructSize size value
  | .copyConstruct other => h.copyConstruct other
  | .destroy i => h.clear i
  | .assign i other => h.assign i other
  | .get i _ => h.index i
  | .set i pos value => (h.index i).poke i pos value
  | .dataSet i pos value => (h.data i).poke i pos value
  | .reserve i size => h.reserve i size
  | .resize i size => h.resize i size
  | .clear i => h.clear i
  | .pushBack i value => h.pushBack i value
  | .popBack i => h.popBack i

/-- `max_size()` of a vector of bytes: no object is larger. -/
def maxSize : Nat := 2 ^ 63 - 1

/-- The operation on plain vectors, none of which knows another one. There is no result when the object does not
exist, when the position is not one of its elements and when the size is above `maxSize`. -/
def plainStep (plain : List (List Byte)) : ArrayOp → Option (List (List Byte))
  | .construct => some (plain ++ [[]])
  | .constructSize size value => if size ≤ maxSize then some (plain ++ [List.replicate size value]) else none
  | .copyConstruct other => do
      let bytes ← plain[other]?
      some (plain ++ [bytes])
  | .destroy i => do
      let _ ← plain[i]?
      some (plain.set i [])
  | .assign i other => do
      let _ ← plain[i]?
      let bytes ← plain[other]?
      some (plain.set i bytes)
  | .get i pos => do
      let bytes ← plain[i]?
      if pos < bytes.length then some plain else none
  | .set i pos value => do
      let bytes ← plain[i]?
      if pos < bytes.length then some (plain.set i (bytes.set pos value)) else none
  | .dataSet i pos value => do
      let bytes ← plain[i]?
      if pos < bytes.length then some (plain.set i (bytes.set pos value)) else none
  | .reserve i size => do
      let _ ← plain[i]?
      if size ≤ maxSize then some plain else none
  | .resize i size => do
      let bytes ← plain[i]?
      if size ≤ maxSize then some (plain.set i (bytes.takeD size 0)) else none
  | .clear i => do
      let _ ← plain[i]?
      some (plain.set i [])
  | .pushBack i value => do
      let bytes ← plain[i]?
      if bytes.length < maxSize then some (plain.set i (bytes ++ [value])) else none
  | .popBack i => do
      let bytes ← plain[i]?
      some (plain.set i bytes.dropLast)

end AsconSuite
