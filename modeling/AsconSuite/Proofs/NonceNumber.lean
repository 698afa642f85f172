/-
Module: AsconSuite.Proofs.NonceNumber
Layer: Proofs
Purpose: The nonce increment adds one to the nonce read as a big-endian number, and packet `i` of a session
  is handled under the starting nonce plus `i`.
Imports: AsconSuite.Aead.Incremental, AsconSuite.Base.BigEndian
Trusted boundary: none
Main exports: numberOf_asconAeadIncrementNonce, packetNonce, packetNonce_succ
-/
import AsconSuite.Aead.Incremental
import AsconSuite.Base.BigEndian

namespace AsconSuite

open ByteWord ByteMemory BigEndian

theorem incrementNonceLoop_outside (npub : Mem) (carry : BitVec 16) {index i : Nat}
    (behind : index ≤ i) : incrementNonceLoop npub carry index i = npub i := by
  induction index generalizing npub carry with
  | zero => rfl
  | succ index ih =>
      rw [incrementNonceLoop, ih _ _ (by omega), Mem.store, if_neg (by omega)]

/-- The loop adds the carry to the number in front of `index`, and drops what runs over. -/
theorem numberOf_incrementNonceLoop (npub : Mem) (carry : BitVec 16) (index : Nat)
    (small : carry.toNat ≤ 1) :
    numberOf (incrementNonceLoop npub carry index) index =
      (numberOf npub index + carry.toNat) % 256 ^ index := by
  induction index generalizing npub carry with
  | zero => simp [Nat.mod_one]
  | succ index ih =>
      have digit := (npub index).isLt
      have sum : (carry + (npub index).setWidth 16).toNat = carry.toNat + (npub index).toNat := by
        rw [BitVec.toNat_add, BitVec.toNat_setWidth, Nat.mod_eq_of_lt (by omega : _ < 2 ^ 16),
          Nat.mod_eq_of_lt (by omega)]
      have next : ((carry + (npub index).setWidth 16) >>> 8).toNat =
          (carry.toNat + (npub index).toNat) / 256 := by
        rw [BitVec.toNat_ushiftRight, sum, Nat.shiftRight_eq_div_pow]
      have kept : numberOf (npub.store index ((carry + (npub index).setWidth 16).setWidth 8)) index =
          numberOf npub index :=
        numberOf_congr fun i hi => by rw [Mem.store, if_neg (by omega)]
      have last : (npub.store index ((carry + (npub index).setWidth 16).setWidth 8) index).toNat =
          (carry.toNat + (npub index).toNat) % 256 := by
        rw [Mem.store, if_pos rfl, BitVec.toNat_setWidth, sum]
      rw [incrementNonceLoop, numberOf_succ, incrementNonceLoop_outside _ _ (Nat.le_refl index),
        ih _ _ (by rw [next]; omega), kept, last, next, numberOf_succ, Nat.pow_succ', Nat.mod_mul]
      have carried : (numberOf npub index * 256 + (npub index).toNat + carry.toNat) / 256 =
          numberOf npub index + (carry.toNat + (npub index).toNat) / 256 := by
        omega
      have digit_eq : (numberOf npub index * 256 + (npub index).toNat + carry.toNat) % 256 =
          (carry.toNat + (npub index).toNat) % 256 := by
        omega
      rw [carried, digit_eq, Nat.mul_comm 256, Nat.add_comm]

/-- `ascon_aead_increment_nonce` adds one modulo 2^128. -/
theorem numberOf_asconAeadIncrementNonce (npub : Mem) :
    numberOf (asconAeadIncrementNonce npub) 16 = (numberOf npub 16 + 1) % 2 ^ 128 :=
  numberOf_incrementNonceLoop npub 1 16 (by decide)

/-- The nonce of packet `i`: the starting nonce plus `i` modulo 2^128, in big-endian order. -/
def packetNonce (npub : Mem) (i : Nat) : Mem := bytesOf ((numberOf npub 16 + i) % 2 ^ 128) 16

theorem packetNonce_succ {npub nonce : Mem} {i : Nat}
    (agrees : ∀ j < 16, nonce j = packetNonce npub i j) :
    ∀ j < 16, asconAeadIncrementNonce nonce j = packetNonce npub (i + 1) j := by
  have number : numberOf nonce 16 = (numberOf npub 16 + i) % 2 ^ 128 := by
    rw [numberOf_congr agrees, packetNonce, numberOf_bytesOf]
    exact Nat.mod_eq_of_lt (Nat.mod_lt _ (by decide))
  have next : numberOf (asconAeadIncrementNonce nonce) 16 =
      numberOf (packetNonce npub (i + 1)) 16 := by
    rw [numberOf_asconAeadIncrementNonce, number, packetNonce, numberOf_bytesOf, Nat.mod_add_mod,
      Nat.add_assoc]
    exact (Nat.mod_eq_of_lt (Nat.mod_lt _ (by decide))).symm
  exact fun j hj => numberOf_injective next hj

theorem packetNonce_zero (npub : Mem) : ∀ j < 16, npub j = packetNonce npub 0 j := by
  have number : numberOf npub 16 = numberOf (packetNonce npub 0) 16 := by
    have small : numberOf npub 16 < 2 ^ 128 := numberOf_lt npub 16
    rw [packetNonce, numberOf_bytesOf, Nat.add_zero, Nat.mod_eq_of_lt small]
    exact (Nat.mod_eq_of_lt small).symm
  exact fun j hj => numberOf_injective number hj

end AsconSuite
