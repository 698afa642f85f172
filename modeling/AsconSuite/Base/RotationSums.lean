/-
Module: AsconSuite.Base.RotationSums
Layer: Base (library)
Purpose: A word with two rotations of it added. Applied twice it is the same map with both distances doubled, since
  what is added twice goes away; so on words of 2 ^ k bits it comes back to the start after 2 ^ k turns, and is
  invertible for any distances.
Imports: AsconSuite.Base.RotatedSharing, Mathlib's iterates
Trusted boundary: none
Main exports: diffuse, diffuse_diffuse, iterate_diffuse, diffuse_bijective
-/
import AsconSuite.Base.RotatedSharing
import Mathlib.Logic.Function.Iterate

namespace RotationSums

open RotatedSharing

variable {w : Nat}

/-- A word with two rotations of it added. -/
def diffuse (r s : Nat) (x : BitVec w) : BitVec w := x ^^^ (x.rotateRight r ^^^ x.rotateRight s)

theorem xor_cancel_mixed (x a b c d e : BitVec w) :
    (x ^^^ (a ^^^ b)) ^^^ ((a ^^^ (c ^^^ d)) ^^^ (b ^^^ (d ^^^ e))) = x ^^^ (c ^^^ e) := by
  apply BitVec.eq_of_getLsbD_eq
  intro i _
  simp only [BitVec.getLsbD_xor]
  cases a.getLsbD i <;> cases b.getLsbD i <;> cases d.getLsbD i <;> simp

/-- Twice is once with both distances doubled. -/
theorem diffuse_diffuse (r s : Nat) (x : BitVec w) : diffuse r s (diffuse r s x) = diffuse (2 * r) (2 * s) x := by
  have mixed : (x.rotateRight s).rotateRight r = (x.rotateRight r).rotateRight s := by
    rw [rotateRight_rotateRight, rotateRight_rotateRight, Nat.add_comm]
  rw [diffuse, diffuse, rotateRight_xor, rotateRight_xor, rotateRight_xor, rotateRight_xor, mixed, xor_cancel_mixed,
    rotateRight_rotateRight, rotateRight_rotateRight, ← Nat.two_mul, ← Nat.two_mul, diffuse]

/-- A power of two of turns is one turn with both distances multiplied by it. -/
theorem iterate_diffuse (r s k : Nat) :
    (diffuse r s : BitVec w → BitVec w)^[2 ^ k] = diffuse (2 ^ k * r) (2 ^ k * s) := by
  induction k with
  | zero => rw [Nat.pow_zero, Function.iterate_one, Nat.one_mul, Nat.one_mul]
  | succ k ih =>
      funext x
      rw [Nat.pow_succ, Function.iterate_mul, ih]
      change diffuse (2 ^ k * r) (2 ^ k * s) (diffuse (2 ^ k * r) (2 ^ k * s) x) = _
      rw [diffuse_diffuse, ← Nat.mul_assoc, ← Nat.mul_assoc, Nat.mul_comm 2]

/-- On words of 2 ^ k bits the map comes back to the start. -/
theorem iterate_diffuse_eq_id {k : Nat} (size : w = 2 ^ k) (r s : Nat) :
    (diffuse r s : BitVec w → BitVec w)^[2 ^ k] = id := by
  funext x
  have turns (d : Nat) : x.rotateRight (2 ^ k * d) = x := by
    have full := rotateRight_add_mul x 0 d
    rw [Nat.zero_add, rotateRight_of_zero] at full
    rwa [← size]
  rw [iterate_diffuse, diffuse, turns, turns, BitVec.xor_self, BitVec.xor_zero]
  rfl

/-- A map that comes back to the start is invertible. -/
theorem bijective_of_iterate_eq_id {α : Type*} {f : α → α} {n : Nat} (turns : f^[n + 1] = id) : f.Bijective := by
  refine Function.bijective_iff_has_inverse.2 ⟨f^[n], fun x => ?_, fun x => ?_⟩
  · rw [← Function.iterate_succ_apply, turns, id]
  · rw [← Function.iterate_succ_apply' f, turns, id]

theorem diffuse_bijective {k : Nat} (size : w = 2 ^ k) (r s : Nat) :
    (diffuse r s : BitVec w → BitVec w).Bijective := by
  obtain ⟨n, count⟩ := Nat.exists_eq_succ_of_ne_zero (Nat.ne_of_gt (Nat.two_pow_pos k))
  exact bijective_of_iterate_eq_id (n := n) (by rw [← Nat.succ_eq_add_one, ← count, iterate_diffuse_eq_id size])

end RotationSums
