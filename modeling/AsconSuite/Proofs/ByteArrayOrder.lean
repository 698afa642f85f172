/-
Module: AsconSuite.Proofs.ByteArrayOrder
Layer: Proofs
Purpose: The comparison of `byte_array` objects against the lexicographic order of their contents.
Imports: AsconSuite.Cpp.ByteArray
Trusted boundary: none
Main exports: ComparesAs, ArrayHeap.Ordered, ArrayHeap.NullBesideBytes, cmp_compares_iff, byte_arrays_ordered_iff
-/
import AsconSuite.Cpp.ByteArray

namespace AsconSuite

open ByteWord ByteMemory

/-! ### Signs -/

/-- A number whose sign tells how two strings of bytes stand to each other in lexicographic order. -/
structure ComparesAs (result : Int) (x y : List Byte) : Prop where
  before : result < 0 ↔ x < y
  same : result = 0 ↔ x = y
  behind : 0 < result ↔ y < x

theorem byte_sub_neg_iff (a b : Byte) : (a.toNat - b.toNat : Int) < 0 ↔ a < b := by
  rw [BitVec.lt_def]
  omega

theorem byte_ne_of_lt {a b : Byte} (lt : a < b) : a ≠ b := by
  rintro rfl
  exact absurd lt (Nat.lt_irrefl _)

/-- A first byte that differs decides. -/
theorem comparesAs_of_head_ne {a b : Byte} (differ : a ≠ b) (x y : List Byte) :
    ComparesAs (a.toNat - b.toNat) (a :: x) (b :: y) where
  before := by
    rw [byte_sub_neg_iff, List.cons_lt_cons_iff]
    exact ⟨Or.inl, fun order => order.resolve_right fun same => differ same.1⟩
  same := by
    constructor
    · intro zero
      exact absurd (BitVec.eq_of_toNat_eq (by omega)) differ
    · intro same
      exact absurd (List.cons.inj same).1 differ
  behind := by
    rw [List.cons_lt_cons_iff, BitVec.lt_def]
    constructor
    · intro positive
      exact Or.inl (by omega)
    · rintro (order | ⟨same, -⟩)
      · omega
      · exact absurd same.symm differ

/-- A first byte that both have leaves the decision to the rest. -/
theorem ComparesAs.cons {result : Int} {x y : List Byte} (compares : ComparesAs result x y) (a : Byte) :
    ComparesAs result (a :: x) (a :: y) where
  before := by
    rw [compares.before, List.cons_lt_cons_iff]
    exact ⟨fun order => Or.inr ⟨rfl, order⟩, fun order =>
      (order.resolve_left fun lt => byte_ne_of_lt lt rfl).2⟩
  same := by
    rw [compares.same]
    exact ⟨fun same => by rw [same], fun same => (List.cons.inj same).2⟩
  behind := by
    rw [compares.behind, List.cons_lt_cons_iff]
    exact ⟨fun order => Or.inr ⟨rfl, order⟩, fun order =>
      (order.resolve_left fun lt => byte_ne_of_lt lt rfl).2⟩

theorem comparesAs_refl (x : List Byte) : ComparesAs 0 x x where
  before := ⟨fun lt => absurd lt (by decide), fun lt => absurd lt (List.lt_irrefl x)⟩
  same := ⟨fun _ => rfl, fun _ => rfl⟩
  behind := ⟨fun lt => absurd lt (by decide), fun lt => absurd lt (List.lt_irrefl x)⟩

theorem comparesAs_nil_cons (b : Byte) (y : List Byte) : ComparesAs (-1) [] (b :: y) where
  before := ⟨fun _ => List.nil_lt_cons b y, fun _ => by decide⟩
  same := ⟨fun zero => absurd zero (by decide), fun same => nomatch same⟩
  behind := ⟨fun lt => absurd lt (by decide), fun lt => absurd lt (List.not_lt_nil _)⟩

theorem comparesAs_cons_nil (a : Byte) (x : List Byte) : ComparesAs 1 (a :: x) [] where
  before := ⟨fun lt => absurd lt (by decide), fun lt => absurd lt (List.not_lt_nil _)⟩
  same := ⟨fun zero => absurd zero (by decide), fun same => nomatch same⟩
  behind := ⟨fun _ => List.nil_lt_cons a x, fun _ => by decide⟩

/-! ### Two buffers -/

namespace ArrayHeap

/-- The part of `byte_array::cmp` for two buffers. -/
def cmpBuffers (p q : Mem) (m n : Nat) : Int :=
  let size := if n < m then n else m
  let result := memcmp p q size
  if result ≠ 0 then result else if size < m then 1 else if size < n then -1 else 0

theorem cmpBuffers_succ (p q : Mem) (m n : Nat) :
    cmpBuffers p q (m + 1) (n + 1) =
      if p 0 ≠ q 0 then ((p 0).toNat : Int) - (q 0).toNat else cmpBuffers (p.view 1) (q.view 1) m n := by
  have shorter : (if n + 1 < m + 1 then n + 1 else m + 1) = (if n < m then n else m) + 1 := by
    split
    · rw [if_pos (by omega)]
    · rw [if_neg (by omega)]
  simp only [cmpBuffers, shorter]
  by_cases differ : p 0 ≠ q 0
  · have nonzero : ((p 0).toNat - (q 0).toNat : Int) ≠ 0 := fun zero =>
      differ (BitVec.eq_of_toNat_eq (by omega))
    simp only [memcmp, if_pos differ, if_pos nonzero]
  · simp only [memcmp, if_neg differ, Nat.add_lt_add_iff_right]

/-- Equal prefixes are decided by the length. -/
theorem cmpBuffers_compares (p q : Mem) (m n : Nat) : ComparesAs (cmpBuffers p q m n) (p.read 0 m) (q.read 0 n) := by
  induction m generalizing p q n with
  | zero =>
      cases n with
      | zero => exact comparesAs_refl []
      | succ n => exact comparesAs_nil_cons (q 0) (q.read 1 n)
  | succ m ih =>
      cases n with
      | zero => exact comparesAs_cons_nil (p 0) (p.read 1 m)
      | succ n =>
          rw [cmpBuffers_succ, read_succ, read_succ]
          by_cases differ : p 0 ≠ q 0
          · rw [if_pos differ]
            exact comparesAs_of_head_ne differ _ _
          · rw [if_neg differ, ← not_not.1 differ]
            have rest := ih (p.view 1) (q.view 1) n
            rw [read_view, read_view] at rest
            exact rest.cons (p 0)

/-! ### Objects -/

/-- One of two objects has no buffer, and the other one holds bytes. -/
def NullBesideBytes (h : ArrayHeap) (p q : Option Nat) : Prop :=
  (p = none ∧ h.contents q ≠ []) ∨ (q = none ∧ h.contents p ≠ [])

theorem contents_eq_nil_iff (h : ArrayHeap) (a : Nat) : h.contents (some a) = [] ↔ ¬ 0 < (h.cells a).size := by
  rw [contents, ← List.length_eq_zero_iff, length_read]
  omega

/-- `byte_array::cmp` tells the order of the contents unless one object is null and the other one holds bytes: there
the sign is the wrong way round. -/
theorem cmp_compares_iff (h : ArrayHeap) (p q : Option Nat) :
    ComparesAs (h.cmp p q) (h.contents p) (h.contents q) ↔ ¬ h.NullBesideBytes p q := by
  by_cases same : p = q
  · subst same
    rw [cmp.eq_def, if_pos rfl]
    refine ⟨fun _ => ?_, fun _ => comparesAs_refl _⟩
    rintro (⟨rfl, bytes⟩ | ⟨rfl, bytes⟩)
    · exact bytes rfl
    · exact bytes rfl
  · rw [cmp.eq_def, if_neg same]
    rcases p with _ | a <;> rcases q with _ | b
    · exact absurd rfl same
    · by_cases bytes : 0 < (h.cells b).size
      · have nonempty : h.contents (some b) ≠ [] := fun empty => (contents_eq_nil_iff h b).1 empty bytes
        simp only [if_pos bytes]
        refine ⟨fun compares => ?_, fun fine => absurd (Or.inl ⟨rfl, nonempty⟩) fine⟩
        exact absurd (compares.behind.1 (by decide)) (List.not_lt_nil _)
      · have empty := (contents_eq_nil_iff h b).2 bytes
        simp only [if_neg bytes]
        rw [empty]
        refine ⟨fun _ => ?_, fun _ => comparesAs_refl []⟩
        rintro (⟨-, nonempty⟩ | ⟨null, -⟩)
        · exact nonempty empty
        · exact nomatch null
    · by_cases bytes : 0 < (h.cells a).size
      · have nonempty : h.contents (some a) ≠ [] := fun empty => (contents_eq_nil_iff h a).1 empty bytes
        simp only [if_pos bytes]
        refine ⟨fun compares => ?_, fun fine => absurd (Or.inr ⟨rfl, nonempty⟩) fine⟩
        exact absurd (compares.before.1 (by decide)) (List.not_lt_nil _)
      · have empty := (contents_eq_nil_iff h a).2 bytes
        simp only [if_neg bytes]
        rw [empty]
        refine ⟨fun _ => ?_, fun _ => comparesAs_refl []⟩
        rintro (⟨null, -⟩ | ⟨-, nonempty⟩)
        · exact nomatch null
        · exact nonempty empty
    · refine ⟨fun _ => ?_, fun _ => cmpBuffers_compares _ _ _ _⟩
      rintro (⟨null, -⟩ | ⟨null, -⟩)
      · exact nomatch null
      · exact nomatch null

/-! ### The operators -/

/-- The six operators on two objects tell how their contents stand in lexicographic order. -/
structure OperatorsAgree (h : ArrayHeap) (p q : Option Nat) : Prop where
  cmp : ComparesAs (h.cmp p q) (h.contents p) (h.contents q)
  eq : h.eq p q = true ↔ h.contents p = h.contents q
  ne : h.ne p q = true ↔ h.contents p ≠ h.contents q
  lt : h.lt p q = true ↔ h.contents p < h.contents q
  le : h.le p q = true ↔ h.contents p ≤ h.contents q
  gt : h.gt p q = true ↔ h.contents q < h.contents p
  ge : h.ge p q = true ↔ h.contents q ≤ h.contents p

theorem operatorsAgree_of_compares {h : ArrayHeap} {p q : Option Nat}
    (compares : ComparesAs (h.cmp p q) (h.contents p) (h.contents q)) : h.OperatorsAgree p q where
  cmp := compares
  eq := by rw [ArrayHeap.eq, beq_iff_eq, compares.same]
  ne := by rw [ArrayHeap.ne, bne_iff_ne, Ne, compares.same]
  lt := by rw [ArrayHeap.lt, decide_eq_true_iff, compares.before]
  le := by rw [ArrayHeap.le, decide_eq_true_iff, ← List.not_lt, ← compares.behind, Int.not_lt]
  gt := by rw [ArrayHeap.gt, decide_eq_true_iff, gt_iff_lt, compares.behind]
  ge := by rw [ArrayHeap.ge, decide_eq_true_iff, ge_iff_le, ← List.not_lt, ← compares.before, Int.not_lt]

/-- The operators on some objects are those of one total order: that of their contents. -/
structure Ordered (h : ArrayHeap) (objects : List (Option Nat)) : Prop where
  agree : ∀ p ∈ objects, ∀ q ∈ objects, h.OperatorsAgree p q
  antisymm : ∀ p ∈ objects, ∀ q ∈ objects, h.le p q = true → h.le q p = true → h.eq p q = true
  trans : ∀ p ∈ objects, ∀ q ∈ objects, ∀ r ∈ objects, h.le p q = true → h.le q r = true → h.le p r = true
  total : ∀ p ∈ objects, ∀ q ∈ objects, h.le p q = true ∨ h.le q p = true

theorem not_nullBesideBytes_of_agree {h : ArrayHeap} {p q : Option Nat} (agree : h.OperatorsAgree p q) :
    ¬ h.NullBesideBytes p q := (cmp_compares_iff h p q).1 agree.cmp

/-- The comparison operators are those of the lexicographic order, and so of one total order, on any objects among
which there is no null object beside one that holds bytes; and on no others. -/
theorem byte_arrays_ordered_iff (h : ArrayHeap) (objects : List (Option Nat)) :
    h.Ordered objects ↔ ∀ p ∈ objects, ∀ q ∈ objects, ¬ h.NullBesideBytes p q := by
  constructor
  · exact fun ordered p hp q hq => not_nullBesideBytes_of_agree (ordered.agree p hp q hq)
  · intro fine
    have agree : ∀ p ∈ objects, ∀ q ∈ objects, h.OperatorsAgree p q := fun p hp q hq =>
      operatorsAgree_of_compares ((cmp_compares_iff h p q).2 (fine p hp q hq))
    refine ⟨agree, ?_, ?_, ?_⟩
    · intro p hp q hq first second
      rw [(agree p hp q hq).eq]
      exact List.le_antisymm ((agree p hp q hq).le.1 first) ((agree q hq p hp).le.1 second)
    · intro p hp q hq r hr first second
      rw [(agree p hp r hr).le]
      exact List.le_trans ((agree p hp q hq).le.1 first) ((agree q hq r hr).le.1 second)
    · intro p hp q hq
      rw [(agree p hp q hq).le, (agree q hq p hp).le]
      exact List.le_total _ _

/-- A null object is equal to one whose buffer is empty, which comes before one with a byte, which comes before the
null object. -/
theorem byte_array_order_has_cycle :
    ∃ (h : ArrayHeap) (empty byte : Nat),
      h.eq none (some empty) = true ∧ h.lt (some empty) (some byte) = true ∧ h.lt (some byte) none = true ∧
        ¬ h.Ordered [none, some empty, some byte] := by
  let h : ArrayHeap := ⟨fun a => ⟨1, a, 16, fun _ => 0⟩, 2, [none, some 0, some 1]⟩
  refine ⟨h, 0, 1, by decide, by decide, by decide, fun ordered => ?_⟩
  have below := (ordered.agree (some 1) (by decide) none (by decide)).lt.1 (by decide)
  exact List.not_lt_nil _ below

end ArrayHeap

end AsconSuite
