/-
Module: AsconSuite.Proofs.Pbkdf2Spec
Layer: Proofs
Purpose: Both implementations of PBKDF2 compute the derived key of RFC 8018, each with its own pseudorandom
  function.
Imports: AsconSuite.Password.Pbkdf2Hmac, AsconSuite.Proofs.HmacSpec
Trusted boundary: none
Main exports: chainRounds_eq_F, outputBlocks_eq, cxofPrf, hmacPrf, pbkdf2_follows_rfc8018
-/
import AsconSuite.Password.Pbkdf2Hmac
import AsconSuite.Proofs.HmacSpec

namespace AsconSuite

open ByteWord ByteMemory
open KeyDerivation (xorBytes xorChain blockStream int32)

/-! ### Blocks in memory -/

/-- `lw_xor_block` adds a block to the memory. -/
theorem lwXorBlock_eq_write (mem : Mem) (dest : Nat) (src : Mem) (len : Nat) :
    lwXorBlock mem dest src len = mem.write dest (xorBytes (mem.read dest len) (src.read 0 len)) := by
  induction len generalizing mem dest src with
  | zero => exact (write_nil mem dest).symm
  | succ len ih =>
      have later : Mem.read (mem.store dest (mem dest ^^^ src 0)) (dest + 1) len = mem.read (dest + 1) len := by
        rw [store_eq_write]
        exact read_write_apart _ _ _ (by simp)
      rw [lwXorBlock, ih, later, read_view, read_succ, read_succ, xorBytes, xorBytes, List.zipWith_cons_cons,
        write_cons]

/-- The block number as it is stored. -/
theorem read_blocknum (i : Nat) :
    (beStoreWord32 (fun _ => 0) 0 (BitVec.ofNat 32 i)).read 0 4 = int32 i := by
  have octet (shift : Nat) (high : 2 ^ 32 = 2 ^ shift * 2 ^ (24 - shift) * 2 ^ 8) :
      ((BitVec.ofNat 32 i) >>> shift).setWidth 8 = BitVec.ofNat 8 (i / 2 ^ shift) := by
    apply BitVec.eq_of_toNat_eq
    rw [BitVec.toNat_setWidth, BitVec.toNat_ushiftRight, BitVec.toNat_ofNat, BitVec.toNat_ofNat,
      Nat.shiftRight_eq_div_pow, high, Nat.mul_assoc, Nat.mod_mul_right_div_self, Nat.mod_mul_left_mod]
  have lowest : (BitVec.ofNat 32 i).setWidth 8 = BitVec.ofNat 8 i := BitVec.setWidth_ofNat_of_le (by decide) i
  rw [beStoreWord32, octet 24 rfl, octet 16 rfl, octet 8 rfl, lowest]
  exact read_write_of_length rfl

/-! ### Rounds -/

/-- The rounds of both functions `F`: `next` computes a `U` in the place of the one in front of it. -/
def chainRounds (next : Mem → Mem) (mem : Mem) (t : Nat) (u : Mem) : (count : Nat) → Mem
  | 0 => mem
  | count + 1 => chainRounds next (lwXorBlock mem t (next u) asconHashSize) t (next u) count

/-- A block that was written to the memory, behind more rounds. -/
theorem chainRounds_eq {prf : List Byte → List Byte} {next : Mem → Mem}
    (next_eq : ∀ u : Mem, (next u).read 0 asconHashSize = prf (u.read 0 asconHashSize))
    (mem : Mem) (t : Nat) {block : List Byte} (length_block : block.length = asconHashSize) (u : Mem)
    (count : Nat) :
    chainRounds next (mem.write t block) t u count =
      mem.write t (xorChain prf block (u.read 0 asconHashSize) count) := by
  induction count generalizing block u with
  | zero => rfl
  | succ count ih =>
      have here : (mem.write t block).read t asconHashSize = block := read_write_of_length length_block
      have length_sum : (xorBytes block ((next u).read 0 asconHashSize)).length = asconHashSize := by
        rw [KeyDerivation.length_xorBytes, length_block, length_read, Nat.min_self]
      rw [chainRounds, lwXorBlock_eq_write, here, write_write _ _ (length_block.trans length_sum.symm),
        ih length_sum, next_eq, xorChain]

/-- The first two rounds, which are made apart, and the others. -/
theorem chainRounds_eq_F {prf : List Byte → List Byte} (length_prf : ∀ x, (prf x).length = asconHashSize)
    {next : Mem → Mem}
    (next_eq : ∀ u : Mem, (next u).read 0 asconHashSize = prf (u.read 0 asconHashSize))
    (mem : Mem) (t : Nat) (salt : List Byte) (count i : Nat) {second : Mem}
    (second_eq : second.read 0 asconHashSize = prf (prf (salt ++ int32 i))) :
    (if 1 < count then
        chainRounds next (lwXorBlock (mem.write t (prf (salt ++ int32 i))) t second asconHashSize) t second
          (count - 2)
      else mem.write t (prf (salt ++ int32 i))) =
      mem.write t (KeyDerivation.pbkdf2F prf salt count i) := by
  rw [KeyDerivation.pbkdf2F_eq_xorChain]
  have length_first := length_prf (salt ++ int32 i)
  have here : (mem.write t (prf (salt ++ int32 i))).read t asconHashSize = prf (salt ++ int32 i) :=
    read_write_of_length length_first
  have length_sum : (xorBytes (prf (salt ++ int32 i)) (second.read 0 asconHashSize)).length = asconHashSize := by
    rw [KeyDerivation.length_xorBytes, length_first, length_read, Nat.min_self]
  rcases Nat.lt_or_ge 1 count with more | single
  · obtain ⟨later, rfl⟩ := Nat.exists_eq_add_of_le' more
    rw [if_pos more, lwXorBlock_eq_write, here, write_write _ _ (length_first.trans length_sum.symm),
      chainRounds_eq next_eq mem t length_sum, second_eq]
    rfl
  · have none_left : count - 1 = 0 := by omega
    rw [if_neg (show ¬ 1 < count by omega), none_left, xorChain]

/-! ### Blocks of output -/

/-- A loop that writes full blocks at their places and the last one through a local block. -/
theorem outputBlocks_eq {blocks : Mem → Nat → Nat → Nat → Mem} {f : Mem → Nat → Nat → Mem}
    {block : Nat → List Byte} (length_block : ∀ i, (block i).length = asconHashSize)
    (f_eq : ∀ mem t i, f mem t i = mem.write t (block i))
    (blocks_eq : ∀ mem out outlen i, blocks mem out outlen i =
      if asconHashSize ≤ outlen then blocks (f mem out i) (out + asconHashSize) (outlen - asconHashSize) (i + 1)
      else if 0 < outlen then mem.write out ((f (fun _ => 0) 0 i).read 0 outlen) else mem)
    (mem : Mem) (out outlen i : Nat) :
    blocks mem out outlen i = mem.write out (blockStream asconHashSize block i outlen) := by
  have positive : 0 < asconHashSize := by decide
  induction outlen using Nat.strongRecOn generalizing mem out i with
  | ind outlen ih =>
    rw [blocks_eq]
    rcases Nat.lt_or_ge outlen asconHashSize with last | full
    · rw [if_neg (by omega), KeyDerivation.blockStream_of_le length_block i positive (Nat.le_of_lt last)]
      rcases Nat.eq_zero_or_pos outlen with rfl | some_output
      · rw [if_neg (Nat.lt_irrefl 0), List.take_zero, write_nil]
      · have bytes : ((f (fun _ => 0) 0 i).read 0 asconHashSize) = block i := by
          rw [f_eq]
          exact read_write_of_length (length_block i)
        rw [if_pos some_output, ← take_read _ _ (Nat.le_of_lt last), bytes]
    · obtain ⟨later, rfl⟩ := Nat.exists_eq_add_of_le full
      rw [if_pos full, Nat.add_sub_cancel_left, ih later (by omega), f_eq,
        KeyDerivation.blockStream_add positive length_block, ← write_append, length_block]

/-! ### The customized extendable-output function -/

/-- The pseudorandom function of `ascon_pbkdf2`: a customized state that absorbs data and squeezes a block. -/
def cxofPrf (password : Mem) (passwordlen : Nat) : List Byte → List Byte :=
  (XofVariant.xof.functionsFrom
    (asconXofInitCustom (some pbkdf2Name) password passwordlen asconPbkdf2Size)).digest

/-- A customized state is ready to absorb. -/
theorem asconXofInitCustom_mode (functionName : Option (List Byte)) (custom : Mem) (customlen outlen : Nat) :
    (asconXofInitCustom functionName custom customlen outlen).mode = false := by
  rw [asconXofInitCustom, xofInitCustom]
  generalize asconPermute _ 0 = s
  rw [asconXofAbsorbCustom, xofAbsorbCustom]
  split
  · rw [xofAbsorb_eq_run 0 (Nat.zero_lt_succ 7)]
    rfl
  · rfl

theorem cxofPrf_computes (password : Mem) (passwordlen : Nat) :
    (XofVariant.xof.functionsFrom
      (asconXofInitCustom (some pbkdf2Name) password passwordlen asconPbkdf2Size)).Computes
      (cxofPrf password passwordlen) := by
  refine XofVariant.xof.functionsFrom_computes ?_ (asconXofInitCustom_mode _ _ _ _)
  have start := XofVariant.xof.start_count (.initCustom (some pbkdf2Name) password passwordlen asconPbkdf2Size)
  exact Nat.lt_of_le_of_lt (Nat.le_of_eq start) (Nat.zero_lt_succ 7)

section

variable {state : XofState} {prf : List Byte → List Byte}
  (computes : (XofVariant.xof.functionsFrom state).Computes prf)

include computes

/-- One call of the function on a copy of the state. -/
theorem cxof_call (input : Mem) (inlen : Nat) (mem : Mem) (out : Nat) :
    (asconXofSqueeze (asconXofAbsorb state input inlen) mem out asconPbkdf2Size).2 =
      mem.write out (prf (input.read 0 inlen)) := by
  have absorbed := computes.update [] input inlen
  rw [computes.absorbed_nil, List.nil_append] at absorbed
  have squeezed := computes.finalize (input.read 0 inlen) mem out
  rw [← absorbed] at squeezed
  exact squeezed

theorem asconPbkdf2F_eq (mem : Mem) (t : Nat) (salt : Mem) (saltlen count i : Nat) :
    asconPbkdf2F state mem t salt saltlen count i =
      mem.write t (KeyDerivation.pbkdf2F prf (salt.read 0 saltlen) count i) := by
  have length_prf : ∀ x, (prf x).length = asconHashSize := computes.length_hash
  have rounds (mem u : Mem) (n : Nat) :
      asconPbkdf2Rounds state mem t u n =
        chainRounds (fun u => (asconXofSqueeze (asconXofAbsorb state u asconPbkdf2Size) u 0 asconPbkdf2Size).2)
          mem t u n := by
    induction n generalizing mem u with
    | zero => rfl
    | succ n ih => exact ih _ _
  have one_call (input mem : Mem) :
      Mem.read (asconXofSqueeze (asconXofAbsorb state input asconPbkdf2Size) mem 0 asconPbkdf2Size).2 0
        asconHashSize = prf (input.read 0 asconHashSize) := by
    rw [cxof_call computes]
    exact read_write_of_length (length_prf _)
  have first : (asconXofSqueeze (asconXofAbsorb (asconXofAbsorb state salt saltlen)
      (beStoreWord32 (fun _ => 0) 0 (BitVec.ofNat 32 i)) 4) mem t asconPbkdf2Size).2 =
        mem.write t (prf (salt.read 0 saltlen ++ int32 i)) := by
    have salted := computes.update [] salt saltlen
    have numbered := computes.update (salt.read 0 saltlen) (beStoreWord32 (fun _ => 0) 0 (BitVec.ofNat 32 i)) 4
    rw [computes.absorbed_nil, List.nil_append] at salted
    rw [← salted, read_blocknum] at numbered
    have squeezed := computes.finalize (salt.read 0 saltlen ++ int32 i) mem t
    rw [← numbered] at squeezed
    exact squeezed
  have here : ((mem.write t (prf (salt.read 0 saltlen ++ int32 i))).view t).read 0 asconHashSize =
      prf (salt.read 0 saltlen ++ int32 i) := by
    rw [read_view]
    exact read_write_of_length (length_prf _)
  have second := one_call ((mem.write t (prf (salt.read 0 saltlen ++ int32 i))).view t) (fun _ => 0)
  rw [here] at second
  rw [← chainRounds_eq_F length_prf (fun u => one_call u u) mem t (salt.read 0 saltlen) count i second,
    asconPbkdf2F]
  simp only [first, rounds]
  rfl

end

/-! ### HMAC -/

/-- The pseudorandom function of `ascon_pbkdf2_hmac`. -/
def hmacPrf (password : Mem) (passwordlen : Nat) : List Byte → List Byte :=
  KeyDerivation.hmac XofVariant.xof.hashBytes hmacBlockSize hmacIpad hmacOpad (password.read 0 passwordlen)

theorem length_hmacPrf (password : Mem) (passwordlen : Nat) (data : List Byte) :
    (hmacPrf password passwordlen data).length = asconHashSize := XofVariant.xof.hash_computes.length_hash _

section

variable (password : Mem) (passwordlen : Nat)

/-- A code over the bytes of one update. -/
theorem hmac_call (input : Mem) (inlen : Nat) (mem : Mem) (out : Nat) :
    (asconHmacFinalize (asconHmacUpdate (asconHmacInit password passwordlen) input inlen) password
      passwordlen mem out).2 = mem.write out (hmacPrf password passwordlen (input.read 0 inlen)) := by
  have computes := XofVariant.xof.hash_computes
  rw [asconHmacInit, asconHmacUpdate, asconHmacFinalize, hmacInit_eq computes, hmacUpdate_eq computes,
    hmacFinalize_eq computes, List.nil_append, hmacPrf]

theorem asconPbkdf2HmacF_eq (mem : Mem) (t : Nat) (salt : Mem) (saltlen count i : Nat) :
    asconPbkdf2HmacF mem t password passwordlen salt saltlen count i =
      mem.write t (KeyDerivation.pbkdf2F (hmacPrf password passwordlen) (salt.read 0 saltlen) count i) := by
  have computes := XofVariant.xof.hash_computes
  have length_prf := length_hmacPrf password passwordlen
  have rounds (state : XofState) (mem u : Mem) (n : Nat) :
      asconPbkdf2HmacRounds state mem t u password passwordlen n =
        chainRounds (fun u => (asconHmacFinalize (asconHmacUpdate (asconHmacInit password passwordlen) u
          asconHmacSize) password passwordlen u 0).2) mem t u n := by
    induction n generalizing state mem u with
    | zero => rfl
    | succ n ih => exact ih _ _ _
  have one_call (input mem : Mem) :
      Mem.read (asconHmacFinalize (asconHmacUpdate (asconHmacInit password passwordlen) input asconHmacSize)
        password passwordlen mem 0).2 0 asconHashSize =
          hmacPrf password passwordlen (input.read 0 asconHashSize) := by
    rw [hmac_call]
    exact read_write_of_length (length_prf _)
  have first : (asconHmacFinalize (asconHmacUpdate (asconHmacUpdate (asconHmacInit password passwordlen) salt
      saltlen) (beStoreWord32 (fun _ => 0) 0 (BitVec.ofNat 32 i)) 4) password passwordlen mem t).2 =
        mem.write t (hmacPrf password passwordlen (salt.read 0 saltlen ++ int32 i)) := by
    rw [asconHmacInit, asconHmacUpdate, asconHmacFinalize, hmacInit_eq computes, hmacUpdate_eq computes,
      hmacUpdate_eq computes, hmacFinalize_eq computes, List.nil_append, read_blocknum, hmacPrf]
  have here : ((mem.write t (hmacPrf password passwordlen (salt.read 0 saltlen ++ int32 i))).view t).read 0
      asconHashSize = hmacPrf password passwordlen (salt.read 0 saltlen ++ int32 i) := by
    rw [read_view]
    exact read_write_of_length (length_prf _)
  have second := one_call
    ((mem.write t (hmacPrf password passwordlen (salt.read 0 saltlen ++ int32 i))).view t) (fun _ => 0)
  rw [here] at second
  rw [← chainRounds_eq_F length_prf (fun u => one_call u u) mem t (salt.read 0 saltlen) count i second,
    asconPbkdf2HmacF]
  simp only [first, rounds]
  rfl

end

/-! ### The derived keys -/

theorem asconPbkdf2_eq (mem : Mem) (out outlen : Nat) (password : Mem) (passwordlen : Nat) (salt : Mem)
    (saltlen count : Nat) :
    asconPbkdf2 mem out outlen password passwordlen salt saltlen count =
      mem.write out (KeyDerivation.pbkdf2 (cxofPrf password passwordlen) asconPbkdf2Size
        (salt.read 0 saltlen) count outlen) := by
  have computes := cxofPrf_computes password passwordlen
  rw [asconPbkdf2, KeyDerivation.pbkdf2]
  generalize asconXofInitCustom (some pbkdf2Name) password passwordlen asconPbkdf2Size = state at computes ⊢
  refine @outputBlocks_eq (fun mem out outlen i =>
    asconPbkdf2Blocks state mem out outlen salt saltlen count i) _ _
    (KeyDerivation.length_pbkdf2F _ computes.length_hash (salt.read 0 saltlen) count)
    (fun mem t i => asconPbkdf2F_eq computes mem t salt saltlen count i) ?_ mem out outlen 1
  intro mem out outlen i
  rw [asconPbkdf2Blocks]
  rfl

theorem asconPbkdf2Hmac_eq (mem : Mem) (out outlen : Nat) (password : Mem) (passwordlen : Nat) (salt : Mem)
    (saltlen count : Nat) :
    asconPbkdf2Hmac mem out outlen password passwordlen salt saltlen count =
      mem.write out (KeyDerivation.pbkdf2 (hmacPrf password passwordlen) asconHmacSize
        (salt.read 0 saltlen) count outlen) := by
  refine @outputBlocks_eq (fun mem out outlen i =>
    asconPbkdf2HmacBlocks mem out outlen password passwordlen salt saltlen count i) _ _
    (KeyDerivation.length_pbkdf2F _ (length_hmacPrf password passwordlen) (salt.read 0 saltlen) count)
    (fun mem t i => asconPbkdf2HmacF_eq password passwordlen mem t salt saltlen count i) ?_ mem out outlen 1
  intro mem out outlen i
  rw [asconPbkdf2HmacBlocks]
  rfl

/-- Both functions derive the key of RFC 8018, each with its own pseudorandom function of blocks; a count of zero
is a count of one, and the key of a shorter length is the start of a longer one. -/
theorem pbkdf2_follows_rfc8018 (password : Mem) (passwordlen : Nat) (salt : Mem) (saltlen : Nat) :
    (∀ mem out outlen count,
      asconPbkdf2 mem out outlen password passwordlen salt saltlen count =
        mem.write out (KeyDerivation.pbkdf2 (cxofPrf password passwordlen) asconPbkdf2Size
          (salt.read 0 saltlen) count outlen) ∧
      asconPbkdf2Hmac mem out outlen password passwordlen salt saltlen count =
        mem.write out (KeyDerivation.pbkdf2 (hmacPrf password passwordlen) asconHmacSize
          (salt.read 0 saltlen) count outlen)) ∧
    (∀ prf ∈ [cxofPrf password passwordlen, hmacPrf password passwordlen],
      (∀ data, (prf data).length = asconPbkdf2Size) ∧
      (∀ outlen, KeyDerivation.pbkdf2 prf asconPbkdf2Size (salt.read 0 saltlen) 0 outlen =
        KeyDerivation.pbkdf2 prf asconPbkdf2Size (salt.read 0 saltlen) 1 outlen) ∧
      ∀ count shorter outlen, shorter ≤ outlen →
        (KeyDerivation.pbkdf2 prf asconPbkdf2Size (salt.read 0 saltlen) count outlen).take shorter =
          KeyDerivation.pbkdf2 prf asconPbkdf2Size (salt.read 0 saltlen) count shorter) := by
  refine ⟨fun mem out outlen count => ⟨asconPbkdf2_eq _ _ _ _ _ _ _ _, asconPbkdf2Hmac_eq _ _ _ _ _ _ _ _⟩, ?_⟩
  have both (prf : List Byte → List Byte)
      (listed : prf ∈ [cxofPrf password passwordlen, hmacPrf password passwordlen]) (data : List Byte) :
      (prf data).length = asconPbkdf2Size := by
    rcases List.mem_cons.mp listed with rfl | listed
    · exact (cxofPrf_computes password passwordlen).length_hash data
    · rw [List.mem_singleton.mp listed]
      exact length_hmacPrf password passwordlen data
  intro prf listed
  exact ⟨both prf listed, fun outlen => KeyDerivation.pbkdf2_zero prf _ _ outlen, fun count _ _ le =>
    KeyDerivation.pbkdf2_take prf (by decide) (both prf listed) _ count le⟩

end AsconSuite
