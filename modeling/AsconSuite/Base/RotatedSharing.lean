/-
Module: AsconSuite.Base.RotatedSharing
Layer: Base (library)
Purpose: Boolean sharings of a word whose share `i` is stored rotated right by `i` steps. The secret is the
  sum of the shares turned back. Rotation commutes with the bitwise operations, so maps applied share by
  share act on the secret.
Imports: two Mathlib tactics
Trusted boundary: none
Main exports: xorRange, unmask, rotateRight_xor, rotateRight_and, rotateRight_not, rotateRight_rotateRight,
  unmask_congr, unmask_xor, unmask_and_const, unmask_single, unmask_addFirst, blind, unmask_blind,
  exists_blind, map_xorRange
-/
import Mathlib.Tactic.TypeStar
import Mathlib.Tactic.Ring

namespace RotatedSharing

variable {w : Nat}

/-! ### Rotations -/

/-- Bit `i` of a rotated word. -/
theorem getLsbD_rotateRight_eq_mod (x : BitVec w) (r : Nat) {i : Nat} (hi : i < w) :
    (x.rotateRight r).getLsbD i = x.getLsbD ((i + r) % w) := by
  have small := Nat.mod_lt r (by omega : 0 < w)
  rw [BitVec.getLsbD_rotateRight, ← Nat.add_mod_mod]
  generalize r % w = r at small
  by_cases below : i < w - r
  · rw [decide_eq_true below, cond_true, Nat.mod_eq_of_lt (by omega), Nat.add_comm]
  · rw [decide_eq_false below, cond_false, decide_eq_true hi, Bool.true_and,
      Nat.mod_eq_sub_mod (by omega), Nat.mod_eq_of_lt (by omega)]
    congr 1
    omega

theorem rotateRight_xor (x y : BitVec w) (r : Nat) :
    (x ^^^ y).rotateRight r = x.rotateRight r ^^^ y.rotateRight r := by
  apply BitVec.eq_of_getLsbD_eq
  intro i hi
  rw [getLsbD_rotateRight_eq_mod _ _ hi, BitVec.getLsbD_xor, BitVec.getLsbD_xor,
    getLsbD_rotateRight_eq_mod _ _ hi, getLsbD_rotateRight_eq_mod _ _ hi]

theorem rotateRight_and (x y : BitVec w) (r : Nat) :
    (x &&& y).rotateRight r = x.rotateRight r &&& y.rotateRight r := by
  apply BitVec.eq_of_getLsbD_eq
  intro i hi
  rw [getLsbD_rotateRight_eq_mod _ _ hi, BitVec.getLsbD_and, BitVec.getLsbD_and,
    getLsbD_rotateRight_eq_mod _ _ hi, getLsbD_rotateRight_eq_mod _ _ hi]

theorem rotateRight_not (x : BitVec w) (r : Nat) : (~~~x).rotateRight r = ~~~x.rotateRight r := by
  apply BitVec.eq_of_getLsbD_eq
  intro i hi
  rw [getLsbD_rotateRight_eq_mod _ _ hi, BitVec.getLsbD_not, BitVec.getLsbD_not,
    getLsbD_rotateRight_eq_mod _ _ hi, decide_eq_true (Nat.mod_lt _ (by omega)), decide_eq_true hi]

theorem rotateRight_zero (r : Nat) : (0#w).rotateRight r = 0#w := by
  have twice := rotateRight_xor (0#w) 0#w r
  rwa [BitVec.xor_self, BitVec.xor_self] at twice

/-- Rotations add up. -/
theorem rotateRight_rotateRight (x : BitVec w) (r s : Nat) :
    (x.rotateRight r).rotateRight s = x.rotateRight (r + s) := by
  apply BitVec.eq_of_getLsbD_eq
  intro i hi
  rw [getLsbD_rotateRight_eq_mod _ _ hi, getLsbD_rotateRight_eq_mod _ _ (Nat.mod_lt _ (by omega)),
    getLsbD_rotateRight_eq_mod _ _ hi, Nat.mod_add_mod]
  congr 2
  omega

/-- Full turns do nothing. -/
theorem rotateRight_add_mul (x : BitVec w) (r k : Nat) :
    x.rotateRight (r + w * k) = x.rotateRight r := by
  apply BitVec.eq_of_getLsbD_eq
  intro i hi
  rw [getLsbD_rotateRight_eq_mod _ _ hi, getLsbD_rotateRight_eq_mod _ _ hi, ← Nat.add_assoc,
    Nat.add_mul_mod_self_left]

theorem rotateRight_of_zero (x : BitVec w) : x.rotateRight 0 = x := by
  apply BitVec.eq_of_getLsbD_eq
  intro i hi
  rw [getLsbD_rotateRight_eq_mod _ _ hi, Nat.add_zero, Nat.mod_eq_of_lt hi]

/-! ### Sums of words -/

theorem xor_left_comm (x y z : BitVec w) : x ^^^ (y ^^^ z) = y ^^^ (x ^^^ z) := by
  rw [← BitVec.xor_assoc, BitVec.xor_comm x y, BitVec.xor_assoc]

/-- Products distribute over sums. -/
theorem xor_and_distrib (x y z : BitVec w) : (x ^^^ y) &&& z = (x &&& z) ^^^ (y &&& z) := by
  apply BitVec.eq_of_getLsbD_eq
  intro i _
  simp only [BitVec.getLsbD_and, BitVec.getLsbD_xor]
  cases x.getLsbD i <;> cases y.getLsbD i <;> cases z.getLsbD i <;> rfl

theorem and_xor_distrib (x y z : BitVec w) : x &&& (y ^^^ z) = (x &&& y) ^^^ (x &&& z) := by
  rw [BitVec.and_comm, xor_and_distrib, BitVec.and_comm y, BitVec.and_comm z]

/-- Parts of two words under a mask and beside it have no bit in common. -/
theorem and_or_and_not (x y m : BitVec w) :
    (x &&& m) ||| (y &&& ~~~m) = (x &&& m) ^^^ (y &&& ~~~m) := by
  apply BitVec.eq_of_getLsbD_eq
  intro k hk
  simp only [BitVec.getLsbD_xor, BitVec.getLsbD_and, BitVec.getLsbD_or, BitVec.getLsbD_not, hk,
    decide_true, Bool.true_and]
  cases x.getLsbD k <;> cases y.getLsbD k <;> cases m.getLsbD k <;> rfl

/-- A word added to two parts of a sum cancels. -/
theorem xor_xor_cancel (t x y : BitVec w) : t ^^^ (x ^^^ (t ^^^ y)) = x ^^^ y := by
  rw [xor_left_comm t x, ← BitVec.xor_assoc t t, BitVec.xor_self, BitVec.zero_xor]

/-- Four words gathered in two, each with the same word added. -/
theorem xor_gather_two (t a b c d : BitVec w) :
    (t ^^^ a ^^^ c) ^^^ (t ^^^ b ^^^ d) = a ^^^ b ^^^ c ^^^ d := by
  rw [BitVec.xor_assoc t a c, BitVec.xor_assoc t b d, BitVec.xor_assoc t, xor_xor_cancel,
    BitVec.xor_assoc a c, xor_left_comm c b, ← BitVec.xor_assoc a b, BitVec.xor_assoc (a ^^^ b)]

/-- Four words gathered in three, with two words each added to the first of these and to another one. -/
theorem xor_gather_three (t u a b c d : BitVec w) :
    (t ^^^ u ^^^ a ^^^ d) ^^^ (t ^^^ b) ^^^ (u ^^^ c) = a ^^^ b ^^^ c ^^^ d := by
  have first : (t ^^^ u ^^^ a ^^^ d) ^^^ (t ^^^ b) = u ^^^ (a ^^^ d ^^^ b) := by
    rw [BitVec.xor_assoc t u, BitVec.xor_assoc t, BitVec.xor_assoc t, xor_xor_cancel,
      BitVec.xor_assoc u, BitVec.xor_assoc u]
  rw [first, BitVec.xor_assoc u, xor_xor_cancel, BitVec.xor_assoc a d b, BitVec.xor_comm d b,
    ← BitVec.xor_assoc a b d, BitVec.xor_assoc (a ^^^ b) d c, BitVec.xor_comm d c,
    ← BitVec.xor_assoc (a ^^^ b)]

/-- The sum of the first `n` words of a sequence. -/
def xorRange : (n : Nat) → (Nat → BitVec w) → BitVec w
  | 0, _ => 0#w
  | n + 1, f => xorRange n f ^^^ f n

@[simp] theorem xorRange_zero (f : Nat → BitVec w) : xorRange 0 f = 0#w := rfl

theorem xorRange_succ (n : Nat) (f : Nat → BitVec w) : xorRange (n + 1) f = xorRange n f ^^^ f n := rfl

/-- The first word of a sum. -/
theorem xorRange_succ_first (n : Nat) (f : Nat → BitVec w) :
    xorRange (n + 1) f = f 0 ^^^ xorRange n fun i => f (1 + i) := by
  induction n with
  | zero => rw [xorRange_succ, xorRange_zero, xorRange_zero, BitVec.zero_xor, BitVec.xor_zero]
  | succ n ih => rw [xorRange_succ, ih, xorRange_succ, BitVec.xor_assoc, Nat.add_comm 1 n]

theorem xorRange_congr {n : Nat} {f g : Nat → BitVec w} (same : ∀ i < n, f i = g i) :
    xorRange n f = xorRange n g := by
  induction n with
  | zero => rfl
  | succ n ih => rw [xorRange_succ, xorRange_succ, ih fun i hi => same i (by omega), same n (by omega)]

/-- A map that respects zero and sums may be applied to each word. -/
theorem map_xorRange (f : BitVec w → BitVec w) (zero : f 0#w = 0#w)
    (add : ∀ x y, f (x ^^^ y) = f x ^^^ f y) (n : Nat) (g : Nat → BitVec w) :
    f (xorRange n g) = xorRange n fun i => f (g i) := by
  induction n with
  | zero => exact zero
  | succ n ih => rw [xorRange_succ, add, ih, xorRange_succ]

theorem xorRange_xor (n : Nat) (f g : Nat → BitVec w) :
    (xorRange n fun i => f i ^^^ g i) = xorRange n f ^^^ xorRange n g := by
  induction n with
  | zero => rw [xorRange_zero, xorRange_zero, xorRange_zero, BitVec.xor_self]
  | succ n ih =>
      rw [xorRange_succ, xorRange_succ, xorRange_succ, ih, BitVec.xor_assoc, BitVec.xor_assoc,
        xor_left_comm (xorRange n g)]

/-- A sum of words followed by the words themselves cancels. -/
theorem xorRange_sum_first {n : Nat} (some_share : 0 < n) (random : Nat → BitVec w) :
    (xorRange n fun i => if i = 0 then xorRange (n - 1) random else random (i - 1)) = 0#w := by
  obtain ⟨last, rfl⟩ := Nat.exists_eq_add_of_lt some_share
  have rest : (xorRange last fun i => if 1 + i = 0 then xorRange last random else random (1 + i - 1)) =
      xorRange last random :=
    xorRange_congr fun i _ => by rw [if_neg (by omega), Nat.add_sub_cancel_left]
  rw [Nat.zero_add, xorRange_succ_first, if_pos rfl, Nat.add_sub_cancel, rest, BitVec.xor_self]

/-- A sequence of zeroes but for one place. -/
theorem xorRange_single {n i : Nat} (hi : i < n) (x : BitVec w) :
    (xorRange n fun j => if j = i then x else 0#w) = x := by
  induction n with
  | zero => omega
  | succ n ih =>
      rw [xorRange_succ]
      rcases Nat.lt_or_ge i n with before | last
      · rw [ih before, if_neg (by omega), BitVec.xor_zero]
      · have zeroes : (xorRange n fun j => if j = i then x else 0#w) = xorRange n fun _ => 0#w :=
          xorRange_congr fun j hj => if_neg (by omega)
        have none : (xorRange n fun _ => 0#w) = 0#w :=
          (map_xorRange (fun _ => 0#w) rfl (fun _ _ => BitVec.xor_self.symm) n fun _ => 0#w).symm
        rw [zeroes, none, if_pos (by omega), BitVec.zero_xor]

/-! ### Sharings -/

/-- The secret of a sharing with `n` shares, where turning share `i` back is a rotation by `back * i`. -/
def unmask (back n : Nat) (shares : Nat → BitVec w) : BitVec w :=
  xorRange n fun i => (shares i).rotateRight (back * i)

variable {back n : Nat}

theorem unmask_congr {f g : Nat → BitVec w} (same : ∀ i < n, f i = g i) :
    unmask back n f = unmask back n g :=
  xorRange_congr fun i hi => by rw [same i hi]

/-- Adding two sharings adds the secrets. -/
theorem unmask_xor (f g : Nat → BitVec w) :
    (unmask back n fun i => f i ^^^ g i) = unmask back n f ^^^ unmask back n g := by
  rw [unmask, unmask, unmask, ← xorRange_xor]
  exact xorRange_congr fun i _ => rotateRight_xor _ _ _

/-- An additive map that commutes with rotations may be applied share by share. -/
theorem unmask_map (f : BitVec w → BitVec w) (zero : f 0#w = 0#w)
    (add : ∀ x y, f (x ^^^ y) = f x ^^^ f y)
    (turn : ∀ x r, (f x).rotateRight r = f (x.rotateRight r)) (shares : Nat → BitVec w) :
    (unmask back n fun i => f (shares i)) = f (unmask back n shares) := by
  rw [unmask, unmask, map_xorRange f zero add]
  exact xorRange_congr fun i _ => turn _ _

/-- Rotating every share rotates the secret. -/
theorem unmask_rotateRight (shares : Nat → BitVec w) (r : Nat) :
    (unmask back n fun i => (shares i).rotateRight r) = (unmask back n shares).rotateRight r :=
  unmask_map (fun x => x.rotateRight r) (rotateRight_zero r) (fun x y => rotateRight_xor x y r)
    (fun x s => by rw [rotateRight_rotateRight, rotateRight_rotateRight, Nat.add_comm]) shares

/-- A word in one share alone is that word turned back. -/
theorem unmask_single {i : Nat} (hi : i < n) (x : BitVec w) :
    (unmask back n fun j => if j = i then x else 0#w) = x.rotateRight (back * i) := by
  refine Eq.trans (xorRange_congr fun j _ => ?_) (xorRange_single hi (x.rotateRight (back * i)))
  by_cases here : j = i
  · simp only [if_pos here]
    rw [here]
  · simp only [if_neg here]
    exact rotateRight_zero _

/-- Shares of zero behind the others add nothing. -/
theorem unmask_extend {m : Nat} (le : m ≤ n) (shares : Nat → BitVec w) :
    (unmask back n fun i => if i < m then shares i else 0#w) = unmask back m shares := by
  obtain ⟨more, rfl⟩ := Nat.exists_eq_add_of_le le
  induction more with
  | zero => exact unmask_congr fun i hi => if_pos hi
  | succ more ih =>
      have none := rotateRight_zero (w := w) (back * (m + more))
      rw [unmask, ← Nat.add_assoc, xorRange_succ, if_neg (by omega), none, BitVec.xor_zero]
      exact ih (by omega)

/-- Adding a word to share 0 adds it to the secret. -/
theorem unmask_addFirst (some_share : 0 < n) (shares : Nat → BitVec w) (x : BitVec w) :
    (unmask back n fun i => if i = 0 then shares 0 ^^^ x else shares i) =
      unmask back n shares ^^^ x := by
  have cut : (unmask back n fun i => if i = 0 then shares 0 ^^^ x else shares i) =
      unmask back n fun i => shares i ^^^ if i = 0 then x else 0#w :=
    unmask_congr fun i _ => by
      by_cases first : i = 0
      · rw [if_pos first, if_pos first, first]
      · rw [if_neg first, if_neg first, BitVec.xor_zero]
  rw [cut, unmask_xor, unmask_single some_share, Nat.mul_zero, rotateRight_of_zero]

/-- The sharing of zero made of `n - 1` random words: their sum, and each of them rotated into its
place. -/
def blind (forth n : Nat) (random : Nat → BitVec w) : Nat → BitVec w := fun i =>
  if i = 0 then xorRange (n - 1) random
  else if i < n then (random (i - 1)).rotateRight (forth * i)
  else 0#w

theorem unmask_blind {forth : Nat} (turns : forth + back = w) (some_share : 0 < n)
    (random : Nat → BitVec w) : unmask back n (blind forth n random) = 0#w := by
  refine Eq.trans (xorRange_congr fun i hi => ?_) (xorRange_sum_first some_share random)
  by_cases first : i = 0
  · rw [blind, if_pos first, if_pos first, first, Nat.mul_zero, rotateRight_of_zero]
  · have full : forth * i + back * i = 0 + w * i := by rw [← Nat.add_mul, turns, Nat.zero_add]
    rw [blind, if_neg first, if_pos hi, if_neg first, rotateRight_rotateRight, full,
      rotateRight_add_mul, rotateRight_of_zero]

/-- Every sharing of zero is made of some random words. -/
theorem exists_blind {forth : Nat} (turns : forth + back = w) (some_share : 0 < n) {shares : Nat → BitVec w}
    (zero : unmask back n shares = 0#w) :
    ∃ random : Nat → BitVec w, ∀ i < n, blind forth n random i = shares i := by
  obtain ⟨last, rfl⟩ := Nat.exists_eq_add_of_lt some_share
  rw [Nat.zero_add] at zero ⊢
  refine ⟨fun i => (shares (1 + i)).rotateRight (back * (1 + i)), fun i hi => ?_⟩
  rw [unmask, xorRange_succ_first, Nat.mul_zero, rotateRight_of_zero] at zero
  rcases i with _ | i
  · rw [blind, if_pos rfl, Nat.add_sub_cancel]
    exact (BitVec.xor_eq_zero_iff.mp zero).symm
  · have full : back * (1 + i) + forth * (i + 1) = 0 + w * (i + 1) := by
      rw [Nat.add_comm 1 i, ← Nat.add_mul, Nat.add_comm back, turns, Nat.zero_add]
    rw [blind, if_neg (Nat.succ_ne_zero i), if_pos hi, Nat.add_sub_cancel, rotateRight_rotateRight, full,
      rotateRight_add_mul, rotateRight_of_zero, Nat.add_comm 1 i]

/-- Multiplying each share by a constant rotated along with it multiplies the secret. -/
theorem unmask_and_const {forth : Nat} (turns : forth + back = w) (c : BitVec w)
    (shares : Nat → BitVec w) :
    (unmask back n fun i => shares i &&& c.rotateRight (forth * i)) = unmask back n shares &&& c := by
  have product := map_xorRange (fun x => x &&& c) BitVec.zero_and
    (fun x y => xor_and_distrib x y c) n fun i => (shares i).rotateRight (back * i)
  rw [unmask, unmask, product]
  refine xorRange_congr fun i _ => ?_
  have full : forth * i + back * i = 0 + w * i := by rw [← Nat.add_mul, turns, Nat.zero_add]
  rw [rotateRight_and, rotateRight_rotateRight, full, rotateRight_add_mul, rotateRight_of_zero]

end RotatedSharing
