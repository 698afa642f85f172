/-
Module: AsconSuite.Proofs.EcbInverse
Layer: Proofs
Purpose: The block cipher built from the permutation is a Feistel network whose rounds do not see the state of the
  rounds before them, so that decryption and encryption undo each other.
Imports: AsconSuite.Apps.AsconEcb, AsconSuite.Base.Feistel, AsconSuite.Proofs.StateRanges
Trusted boundary: none
Main exports: ecbPermuted_fresh, ecbNetwork, ecb_round_trip
-/
import AsconSuite.Apps.AsconEcb
import AsconSuite.Base.Feistel
import AsconSuite.Proofs.StateRanges

namespace AsconSuite

open ByteWord ByteMemory

section

variable (ks : Nat → Mem) (tweak : Option Mem)

/-- A round overwrites all forty bytes of the state. -/
theorem ecbPermuted_fresh (s t : AsconState) (right : List Byte) (round : Nat) :
    ecbPermuted ks tweak s right round = ecbPermuted ks tweak t right round := by
  -- a tweak that is not given is a tweak of zeroes.
  have filled (data : Mem) : asconOverwriteBytes (asconOverwriteBytes (asconOverwriteBytes (asconOverwriteBytes s
        (tablePtr right) 0 8) (ks round) 8 16) data 24 12) (tablePtr (ecbConstants.getD round [])) 36 4 =
      asconOverwriteBytes (asconOverwriteBytes (asconOverwriteBytes (asconOverwriteBytes t
        (tablePtr right) 0 8) (ks round) 8 16) data 24 12) (tablePtr (ecbConstants.getD round [])) 36 4 := by
    refine eq_of_byteForOffset_eq fun o inside => ?_
    simp (disch := first | decide | exact inside) only [byteForOffset_asconOverwriteBytes]
    split
    · rfl
    · split
      · rfl
      · split
        · rfl
        · split
          · rfl
          · omega
  cases tweak with
  | some tweak => exact congrArg (asconPermute · 6) (filled tweak)
  | none =>
      simp only [ecbPermuted, asconOverwriteWithZeroes_eq]
      exact congrArg (asconPermute · 6) (filled fun _ => 0)

/-- The cipher as a network of halves of eight bytes, with the numbers of the rounds for keys. -/
def ecbNetwork : Feistel (List Byte) Nat where
  mix := fun left block => left.zipWith (· ^^^ ·) block
  function := fun round right =>
    (asconExtractBytes (ecbPermuted ks tweak asconInit right round) (tablePtr []) 0 0 8).read 0 8

theorem xor_xor_bytes {left block : List Byte} (same : left.length = block.length) :
    (left.zipWith (· ^^^ ·) block).zipWith (· ^^^ ·) block = left := by
  refine List.ext_getElem ?_ fun i first second => ?_
  · rw [List.length_zipWith, List.length_zipWith, same, Nat.min_self, Nat.min_self]
  · rw [List.getElem_zipWith, List.getElem_zipWith, BitVec.xor_assoc, BitVec.xor_self, BitVec.xor_zero]

theorem ecbNetwork_undoes : (ecbNetwork ks tweak).Undoes fun half => half.length = 8 where
  keeps left right round isHalf _ := by
    have block : ((ecbNetwork ks tweak).function round right).length = 8 := length_read _ _ _
    change (left.zipWith (· ^^^ ·) ((ecbNetwork ks tweak).function round right)).length = 8
    rw [List.length_zipWith, isHalf, block, Nat.min_self]
  cancels left right round isHalf _ := xor_xor_bytes (isHalf.trans (length_read _ _ _).symm)

/-- The rounds of the code are the rounds of the network, whatever state they find. -/
theorem foldl_ecbRound (rounds : List Nat) (run : EcbRun) :
    ((rounds.foldl (ecbRound ks tweak) run).left, (rounds.foldl (ecbRound ks tweak) run).right) =
      (ecbNetwork ks tweak).rounds (run.left, run.right) rounds := by
  induction rounds generalizing run with
  | nil => rfl
  | cons round rounds ih =>
      have fresh := ecbPermuted_fresh ks tweak run.state asconInit run.right round
      have step : ((ecbRound ks tweak run round).left, (ecbRound ks tweak run round).right) =
          (ecbNetwork ks tweak).round (run.left, run.right) round := by
        rw [ecbRound]
        simp only [fresh]
        rfl
      rw [List.foldl_cons, ih, step]
      rfl

/-- What the function writes, half by half. -/
theorem ecbCrypt_eq (rounds : List Nat) (mem : Mem) (out : Nat) (input : Mem) :
    ecbCrypt rounds ks tweak mem out input =
      let halves := (ecbNetwork ks tweak).rounds (input.read 0 8, input.read 8 8) rounds
      (mem.write out halves.2).write (out + 8) halves.1 := by
  have halves := foldl_ecbRound ks tweak rounds ⟨asconInit, input.read 0 8, input.read 8 8⟩
  rw [ecbCrypt, ← halves]

/-- The two halves of a block, read back. -/
theorem read_halves (mem : Mem) (p : Nat) {first second : List Byte} (firstLen : first.length = 8)
    (secondLen : second.length = 8) :
    ((mem.write p first).write (p + 8) second).read p 8 = first ∧
      ((mem.write p first).write (p + 8) second).read (p + 8) 8 = second := by
  refine ⟨?_, read_write_of_length secondLen⟩
  rw [read_write_apart _ _ _ (Or.inl (Nat.le_refl _))]
  exact read_write_of_length firstLen

theorem halves_form (input : Mem) : (input.read 0 8).length = 8 ∧ (input.read 8 8).length = 8 :=
  ⟨length_read _ _ _, length_read _ _ _⟩

/-- The rounds in reverse order, on the block where it was written, give the block that was read. -/
theorem ecbCrypt_reverse (rounds : List Nat) (mem mem' : Mem) (out out' : Nat) (input : Mem) :
    (ecbCrypt rounds.reverse ks tweak mem' out' ((ecbCrypt rounds ks tweak mem out input).view out)).read out' 16 =
      input.read 0 16 := by
  have undoes := ecbNetwork_undoes ks tweak
  have form := halves_form input
  obtain ⟨leftForm, rightForm⟩ := Feistel.rounds_form undoes (input.read 0 8, input.read 8 8) form rounds
  have back := Feistel.rounds_reverse undoes (input.read 0 8, input.read 8 8) form rounds
  rw [ecbCrypt_eq ks tweak rounds mem out input]
  generalize (ecbNetwork ks tweak).rounds (input.read 0 8, input.read 8 8) rounds = halves
    at leftForm rightForm back ⊢
  obtain ⟨left, right⟩ := halves
  -- the halves are written the other way round, which is the change of places that the reverse rounds start from.
  obtain ⟨readRight, readLeft⟩ := read_halves mem out rightForm leftForm
  have swapped : ((((mem.write out right).write (out + 8) left).view out).read 0 8,
      (((mem.write out right).write (out + 8) left).view out).read 8 8) = (left, right).swap := by
    rw [read_view, read_view]
    exact Prod.ext readRight readLeft
  obtain ⟨first, second⟩ := read_halves mem' out' form.1 form.2
  rw [ecbCrypt_eq]
  change ((mem'.write out' ((ecbNetwork ks tweak).rounds (_, _) rounds.reverse).2).write (out' + 8)
    ((ecbNetwork ks tweak).rounds (_, _) rounds.reverse).1).read out' (8 + 8) = input.read 0 (8 + 8)
  rw [swapped, back, read_add, read_add]
  exact congrArg₂ _ first second

end

/-- For every number of rounds, key and tweak, or no tweak, decryption of the ciphertext gives the plaintext and
encryption of what decryption gives is the ciphertext, with the buffers anywhere, also in place; both functions write
to sixteen bytes only. -/
theorem ecb_round_trip (rounds : Nat) (key : Mem) (tweak : Option Mem) :
    let ks := asconEcbInit key
    (∀ (m mem mem' : Mem) (c p : Nat),
      (asconEcbDecrypt rounds ks tweak mem' p ((asconEcbEncrypt rounds ks tweak mem c m).view c)).read p 16 =
        m.read 0 16) ∧
    (∀ (c mem mem' : Mem) (m p : Nat),
      (asconEcbEncrypt rounds ks tweak mem' p ((asconEcbDecrypt rounds ks tweak mem m c).view m)).read p 16 =
        c.read 0 16) ∧
    ∀ (input mem : Mem) (out a : Nat), a < out ∨ out + 16 ≤ a →
      asconEcbEncrypt rounds ks tweak mem out input a = mem a ∧
        asconEcbDecrypt rounds ks tweak mem out input a = mem a := by
  intro ks
  refine ⟨fun m mem mem' c p => ?_, fun c mem mem' m p => ?_, fun input mem out a apart => ?_⟩
  · exact ecbCrypt_reverse ks tweak (List.range rounds) mem mem' c p m
  · have back := ecbCrypt_reverse ks tweak (List.range rounds).reverse mem mem' m p c
    rw [List.reverse_reverse] at back
    exact back
  · have outside (order : List Nat) : ecbCrypt order ks tweak mem out input a = mem a := by
      obtain ⟨leftForm, rightForm⟩ := Feistel.rounds_form (ecbNetwork_undoes ks tweak)
        (input.read 0 8, input.read 8 8) (halves_form input) order
      rw [ecbCrypt_eq]
      change ((mem.write out _).write (out + 8) _) a = mem a
      rw [write_apply_outside _ _ _ (by rw [leftForm]; omega), write_apply_outside _ _ _ (by rw [rightForm]; omega)]
    exact ⟨outside _, outside _⟩

end AsconSuite
