/-
Module: AsconSuite.Proofs.HkdfStream
Layer: Proofs
Purpose: The expand function gives the output of HKDF piece by piece, up to its last block, and zeroes behind it.
Imports: AsconSuite.Kdf.Hkdf, AsconSuite.Proofs.HmacSpec
Trusted boundary: none
Main exports: HkdfState.Left, hkdfExpandBlocks_eq, hkdfExpand_eq, hkdfExpands_left, hkdf_expand_is_a_stream
-/
import AsconSuite.Kdf.Hkdf
import AsconSuite.Proofs.HmacSpec

namespace AsconSuite

open ByteWord ByteMemory
open KeyDerivation (hkdfBlock hkdfOutput blocks)

/-- The pseudorandom function: the HMAC of a variant under a key. -/
def XofVariant.hmacBytes (v : XofVariant) (key message : List Byte) : List Byte :=
  KeyDerivation.hmac v.hashBytes hmacBlockSize hmacIpad hmacOpad key message

theorem XofVariant.length_hmacBytes (v : XofVariant) (key message : List Byte) :
    (v.hmacBytes key message).length = hkdfHmacSize := v.hash_computes.length_hash _

/-! ### What is left of the output -/

section

variable (v : XofVariant) (key info : List Byte)

/-- The state after `n` blocks. -/
structure HkdfState.At (state : HkdfState) (n : Nat) : Prop where
  prk : state.prk.read 0 hkdfHmacSize = key
  numbered : n ≤ 255
  counter : state.counter = BitVec.ofNat 8 (n + 1)
  posn : state.posn ≤ hkdfHmacSize
  out : 0 < n → state.out.read 0 hkdfHmacSize = hkdfBlock (v.hmacBytes key) info n

/-- The blocks behind the first `n`. -/
def laterBlocks (n : Nat) : List Byte := blocks (hkdfBlock (v.hmacBytes key) info) (n + 1) (255 - n)

/-- The bytes the state has still to give: the rest of its block and the later blocks. -/
def HkdfState.Left (state : HkdfState) (rest : List Byte) : Prop :=
  ∃ n, state.At v key info n ∧
    rest = state.out.read state.posn (hkdfHmacSize - state.posn) ++ laterBlocks v key info n

end

section

variable {v : XofVariant} {key info : List Byte}

/-- The counter has come round when no block is left. -/
theorem HkdfState.At.counter_eq_zero {state : HkdfState} {n : Nat} (at_n : state.At v key info n) :
    state.counter = 0 ↔ n = 255 := by
  rw [at_n.counter]
  have numbered := at_n.numbered
  constructor
  · intro wrapped
    have value : (n + 1) % 2 ^ 8 = 0 := by
      rw [← BitVec.toNat_ofNat, wrapped]
      rfl
    omega
  · rintro rfl
    rfl

theorem HkdfState.At.counter_eq_one {state : HkdfState} {n : Nat} (at_n : state.At v key info n) :
    state.counter = 1 ↔ n = 0 := by
  rw [at_n.counter]
  have numbered := at_n.numbered
  constructor
  · intro first
    have value : (n + 1) % 2 ^ 8 = 1 := by
      rw [← BitVec.toNat_ofNat, first]
      rfl
    omega
  · rintro rfl
    rfl

variable {infoPtr : Mem} {infolen : Nat} (info_eq : infoPtr.read 0 infolen = info)

include info_eq

/-- The next block is the one of the standard. -/
theorem hkdfNextBlock_eq {state : HkdfState} {n : Nat} (at_n : state.At v key info n) :
    ∃ out : Mem, hkdfNextBlock v.hash state infoPtr infolen =
        { state with out := out, counter := BitVec.ofNat 8 (n + 1 + 1) } ∧
      out.read 0 hkdfHmacSize = hkdfBlock (v.hmacBytes key) info (n + 1) := by
  have computes := v.hash_computes
  have counter : (tablePtr [state.counter]).read 0 1 = [BitVec.ofNat 8 (n + 1)] := by
    rw [at_n.counter]
    rfl
  have chained : (if state.counter ≠ 1 then
        hmacUpdate v.hash (hmacInit v.hash state.prk hkdfHmacSize) state.out hkdfHmacSize
      else hmacInit v.hash state.prk hkdfHmacSize) =
      hmacAbsorbed v.hash v.hashBytes (state.prk.read 0 hkdfHmacSize)
        (hkdfBlock (v.hmacBytes key) info n) := by
    rw [hmacInit_eq computes]
    rcases Nat.eq_zero_or_pos n with first | later
    · rw [if_neg (not_not_intro (at_n.counter_eq_one.mpr first)), first]
      rfl
    · rw [if_pos (fun one => Nat.ne_of_gt later (at_n.counter_eq_one.mp one)), hmacUpdate_eq computes,
        at_n.out later, List.nil_append]
  refine ⟨state.out.write 0 (hkdfBlock (v.hmacBytes key) info (n + 1)), ?_,
    read_write_of_length (v.length_hmacBytes _ _)⟩
  have counted : state.counter + 1 = BitVec.ofNat 8 (n + 1 + 1) := by
    rw [at_n.counter]
    exact (BitVec.ofNat_add (n + 1) 1).symm
  rw [hkdfNextBlock]
  simp only [chained]
  rw [hmacUpdate_eq computes, hmacUpdate_eq computes, hmacFinalize_eq computes, counter, counted, info_eq,
    at_n.prk]
  rfl

omit info_eq in
/-- The later blocks in front of the last one. -/
theorem laterBlocks_of_lt {n : Nat} (more : n < 255) :
    laterBlocks v key info n =
      hkdfBlock (v.hmacBytes key) info (n + 1) ++ laterBlocks v key info (n + 1) := by
  obtain ⟨left, left_eq⟩ := Nat.exists_eq_add_of_lt more
  rw [laterBlocks, laterBlocks, show 255 - n = left + 1 by omega, show 255 - (n + 1) = left by omega,
    KeyDerivation.blocks_succ]

/-- The result of a call that is asked for so many bytes, with so many left. -/
def expandResult (left outlen : Nat) : Int := if outlen ≤ left then 0 else -1

/-- From a block edge the loop gives the later blocks, and zeroes behind the last one. -/
theorem hkdfExpandBlocks_eq {state : HkdfState} {n : Nat} (at_n : state.At v key info n)
    (edge : state.posn = hkdfHmacSize) (mem : Mem) (out outlen : Nat) :
    ∃ after : HkdfState, hkdfExpandBlocks v.hash state infoPtr infolen mem out outlen =
        (expandResult (laterBlocks v key info n).length outlen, after,
          mem.write out ((laterBlocks v key info n).takeD outlen 0)) ∧
      after.Left v key info ((laterBlocks v key info n).drop outlen) := by
  have positive : 0 < hkdfHmacSize := by decide
  induction outlen using Nat.strongRecOn generalizing state n mem out with
  | ind outlen ih =>
    rw [hkdfExpandBlocks]
    rcases Nat.eq_zero_or_pos outlen with rfl | some_output
    · refine ⟨state, ?_, n, at_n, ?_⟩
      · rw [if_neg (Nat.lt_irrefl 0), List.takeD_zero, write_nil, expandResult, if_pos (Nat.zero_le _)]
      · rw [edge, Nat.sub_self, read_zero, List.nil_append, List.drop_zero]
    rw [if_pos some_output]
    rcases Nat.lt_or_ge n 255 with more | done
    · obtain ⟨block, next_eq, block_eq⟩ := hkdfNextBlock_eq info_eq at_n
      have length_block : (hkdfBlock (v.hmacBytes key) info (n + 1)).length = hkdfHmacSize :=
        v.length_hmacBytes _ _
      have at_next (posn : Nat) (inside : posn ≤ hkdfHmacSize) :
          HkdfState.At v key info
            { state with out := block, counter := BitVec.ofNat 8 (n + 1 + 1), posn := posn } (n + 1) :=
        { prk := at_n.prk
          numbered := more
          counter := rfl
          posn := inside
          out := fun _ => block_eq }
      rw [if_neg (fun zero => Nat.ne_of_lt more (at_n.counter_eq_zero.mp zero)), laterBlocks_of_lt more]
      simp only [next_eq]
      rcases Nat.lt_or_ge outlen hkdfHmacSize with short | full
      · refine ⟨{ state with out := block, counter := BitVec.ofNat 8 (n + 1 + 1), posn := outlen }, ?_, n + 1,
          at_next outlen (Nat.le_of_lt short), ?_⟩
        · rw [Nat.min_eq_right (Nat.le_of_lt short), Nat.sub_self, hkdfExpandBlocks, if_neg (Nat.lt_irrefl 0),
            ← take_read _ _ (Nat.le_of_lt short), block_eq, List.takeD_eq_take, expandResult,
            List.take_append_of_le_length (by omega), if_pos]
          all_goals
            rw [List.length_append, length_block]
            omega
        · rw [List.drop_append_of_le_length (by omega), ← block_eq, drop_read _ _ (Nat.le_of_lt short),
            Nat.zero_add]
      · obtain ⟨later, rfl⟩ := Nat.exists_eq_add_of_le full
        rw [Nat.min_eq_left full, Nat.add_sub_cancel_left, block_eq]
        obtain ⟨after, run_eq, left⟩ := ih later (by omega) (at_next hkdfHmacSize (Nat.le_refl _)) rfl
          (mem.write out (hkdfBlock (v.hmacBytes key) info (n + 1))) (out + hkdfHmacSize)
        have taken := KeyDerivation.takeD_append (hkdfBlock (v.hmacBytes key) info (n + 1))
          (laterBlocks v key info (n + 1)) later 0
        have dropped : (hkdfBlock (v.hmacBytes key) info (n + 1) ++ laterBlocks v key info (n + 1)).drop
            ((hkdfBlock (v.hmacBytes key) info (n + 1)).length + later) =
              (laterBlocks v key info (n + 1)).drop later := List.drop_length_add_append later
        have joined := write_append mem out (hkdfBlock (v.hmacBytes key) info (n + 1))
          ((laterBlocks v key info (n + 1)).takeD later 0)
        rw [length_block] at taken dropped joined
        refine ⟨after, ?_, ?_⟩
        · rw [run_eq, taken, joined, List.length_append, length_block, expandResult, expandResult]
          simp only [Nat.add_le_add_iff_left]
        · rw [dropped]
          exact left
    · have last : n = 255 := Nat.le_antisymm at_n.numbered done
      subst last
      have none_left : laterBlocks v key info 255 = [] := rfl
      refine ⟨state, ?_, 255, at_n, ?_⟩
      · rw [if_pos (at_n.counter_eq_zero.mpr rfl), none_left, List.takeD_nil, expandResult, List.length_nil,
          if_neg (Nat.not_le_of_lt some_output)]
      · rw [edge, Nat.sub_self, read_zero, none_left, List.drop_nil, List.nil_append]

/-- One call takes what it is asked for from what is left, and zeroes behind that. -/
theorem hkdfExpand_eq {state : HkdfState} {rest : List Byte} (left : state.Left v key info rest) (mem : Mem)
    (out outlen : Nat) :
    ∃ after : HkdfState, hkdfExpand v.hash state infoPtr infolen mem out outlen =
        (expandResult rest.length outlen, after, mem.write out (rest.takeD outlen 0)) ∧
      after.Left v key info (rest.drop outlen) := by
  obtain ⟨n, at_n, rfl⟩ := left
  have at_posn (posn : Nat) (inside : posn ≤ hkdfHmacSize) :
      HkdfState.At v key info { state with posn := posn } n :=
    { at_n with posn := inside }
  obtain ⟨room, room_eq⟩ := Nat.exists_eq_add_of_le at_n.posn
  have length_part : (state.out.read state.posn room).length = room := length_read _ _ _
  rw [hkdfExpand, room_eq, Nat.add_sub_cancel_left]
  rcases Nat.lt_or_ge room outlen with beyond | inside
  · obtain ⟨later, rfl⟩ := Nat.exists_eq_add_of_le (Nat.le_of_lt beyond)
    rw [Nat.min_eq_left (Nat.le_of_lt beyond), Nat.add_sub_cancel_left, ← room_eq]
    obtain ⟨after, run_eq, left⟩ := hkdfExpandBlocks_eq info_eq (at_posn hkdfHmacSize (Nat.le_refl _)) rfl
      (mem.write out (state.out.read state.posn room)) (out + room) later
    have taken := KeyDerivation.takeD_append (state.out.read state.posn room) (laterBlocks v key info n) later 0
    have dropped : (state.out.read state.posn room ++ laterBlocks v key info n).drop
        ((state.out.read state.posn room).length + later) = (laterBlocks v key info n).drop later :=
      List.drop_length_add_append later
    have joined := write_append mem out (state.out.read state.posn room)
      ((laterBlocks v key info n).takeD later 0)
    rw [length_part] at taken dropped joined
    refine ⟨after, ?_, ?_⟩
    · rw [run_eq, taken, joined, List.length_append, length_part, expandResult, expandResult]
      simp only [Nat.add_le_add_iff_left]
    · rw [dropped]
      exact left
  · rw [Nat.min_eq_right inside, Nat.sub_self, hkdfExpandBlocks, if_neg (Nat.lt_irrefl 0)]
    refine ⟨{ state with posn := state.posn + outlen }, ?_, n, at_posn _ (by omega), ?_⟩
    · rw [List.takeD_eq_take, expandResult, List.take_append_of_le_length (by omega), take_read _ _ inside, if_pos]
      all_goals
        rw [List.length_append, length_part]
        omega
    · rw [List.drop_append_of_le_length (by omega), drop_read _ _ inside, room_eq, Nat.add_sub_add_left]

/-- The calls take the output piece by piece. -/
theorem hkdfExpands_left {state : HkdfState} {rest : List Byte} (left : state.Left v key info rest)
    (calls : List ExpandCall) :
    (hkdfExpands v.hash state infoPtr infolen calls).Left v key info (rest.drop (ExpandCall.asked calls)) := by
  induction calls generalizing state rest with
  | nil => exact left
  | cons call calls ih =>
      obtain ⟨after, run_eq, left_after⟩ := hkdfExpand_eq info_eq left call.mem call.out call.outlen
      have later := ih left_after
      rw [List.drop_drop] at later
      rw [hkdfExpands, List.foldl_cons, run_eq]
      exact later

end

/-! ### Extraction -/

/-- The key of the expand function. -/
def XofVariant.hkdfPrk (v : XofVariant) (key : Mem) (keylen : Nat) (salt : Mem) (saltlen : Nat) : List Byte :=
  v.hmacBytes (salt.read 0 saltlen) (key.read 0 keylen)

/-- After an extract call the whole output is left. -/
theorem hkdfExtract_left (v : XofVariant) (state : HkdfState) (key : Mem) (keylen : Nat) (salt : Mem)
    (saltlen : Nat) (info : List Byte) :
    (hkdfExtract v.hash state key keylen salt saltlen).Left v (v.hkdfPrk key keylen salt saltlen) info
      (hkdfOutput (v.hmacBytes (v.hkdfPrk key keylen salt saltlen)) info) := by
  have computes := v.hash_computes
  have extracted (hmac : XofState) (result : XofState × Mem)
      (finalized : hmacFinalize v.hash hmac salt saltlen state.prk 0 = result)
      (absorbed : hmacUpdate v.hash (hmacInit v.hash salt saltlen) key keylen = hmac) :
      hkdfExtract v.hash state key keylen salt saltlen =
        { state with prk := result.2, counter := 1, posn := hkdfHmacSize } := by
    rw [hkdfExtract]
    simp only [absorbed, finalized]
  have prk_eq : (hmacFinalize v.hash (hmacUpdate v.hash (hmacInit v.hash salt saltlen) key keylen) salt saltlen
      state.prk 0).2.read 0 hkdfHmacSize = v.hkdfPrk key keylen salt saltlen := by
    rw [hmacInit_eq computes, hmacUpdate_eq computes, hmacFinalize_eq computes, List.nil_append]
    exact read_write_of_length (v.length_hmacBytes _ _)
  rw [extracted _ _ rfl rfl]
  generalize v.hkdfPrk key keylen salt saltlen = prk at prk_eq ⊢
  refine ⟨0, ⟨prk_eq, Nat.zero_le _, rfl, Nat.le_refl _, nofun⟩, ?_⟩
  rw [Nat.sub_self, read_zero, List.nil_append, hkdfOutput, laterBlocks]

/-- After an extract call each expand call gives the next bytes of the output and zeroes behind its end, and fails
exactly when it passes the end; the function of one call gives the same bytes, and fails alone when it is asked for
more than there are. -/
theorem hkdf_expand_is_a_stream (v : XofVariant) (state : HkdfState) (key : Mem) (keylen : Nat) (salt : Mem)
    (saltlen : Nat) (info : Mem) (infolen : Nat) :
    let output := hkdfOutput (v.hmacBytes (v.hkdfPrk key keylen salt saltlen)) (info.read 0 infolen)
    output.length = 255 * 32 ∧
    (∀ (calls : List ExpandCall) (mem : Mem) (out outlen : Nat),
      let asked := ExpandCall.asked calls
      let extracted := hkdfExtract v.hash state key keylen salt saltlen
      let call := hkdfExpand v.hash (hkdfExpands v.hash extracted info infolen calls) info infolen mem out outlen
      call.2.2 = mem.write out ((output.drop asked).takeD outlen 0) ∧
      (call.1 = 0 ∨ call.1 = -1) ∧
      (0 < outlen → (call.1 = 0 ↔ asked + outlen ≤ 255 * 32)) ∧
      (255 * 32 ≤ asked → call.2.2 = mem.write out (List.replicate outlen 0))) ∧
    (∀ (mem : Mem) (out outlen : Nat),
      let once := hkdf v.hash state mem out outlen key keylen salt saltlen info infolen
      (once.1 = -1 ↔ 255 * 32 < outlen) ∧
      (outlen ≤ 255 * 32 → once.1 = 0 ∧ once.2 = mem.write out (output.take outlen) ∧
        once.2 = (hkdfExpand v.hash (hkdfExtract v.hash state key keylen salt saltlen) info infolen mem out
          outlen).2.2)) := by
  intro output
  have length_output : output.length = 255 * 32 :=
    KeyDerivation.length_hkdfOutput _ _ (v.length_hmacBytes (v.hkdfPrk key keylen salt saltlen))
  have extracted := hkdfExtract_left v state key keylen salt saltlen (info.read 0 infolen)
  refine ⟨length_output, ?_, ?_⟩
  · intro calls mem out outlen asked extracted_state call
    obtain ⟨after, call_eq, _⟩ :=
      hkdfExpand_eq rfl (hkdfExpands_left rfl extracted calls) mem out outlen
    have result : call.1 = if outlen ≤ 255 * 32 - asked then 0 else -1 := by
      rw [← length_output, ← List.length_drop]
      exact congrArg Prod.fst call_eq
    have bytes : call.2.2 = mem.write out ((output.drop asked).takeD outlen 0) :=
      congrArg (·.2.2) call_eq
    refine ⟨bytes, ?_, ?_, ?_⟩
    · rw [result]
      split
      · exact Or.inl rfl
      · exact Or.inr rfl
    · intro some_output
      rw [result]
      split
      · rename_i inside
        exact iff_of_true rfl (by omega)
      · rename_i beyond
        exact iff_of_false (by decide) (by omega)
    · intro exhausted
      rw [bytes, List.drop_of_length_le (by omega), List.takeD_nil]
  · intro mem out outlen once
    obtain ⟨after, call_eq, _⟩ := hkdfExpand_eq rfl extracted mem out outlen
    have once_eq : once = if hkdfHmacSize * 255 < outlen then (-1, mem)
        else (0, (hkdfExpand v.hash (hkdfExtract v.hash state key keylen salt saltlen) info infolen mem out
          outlen).2.2) := rfl
    have limit : hkdfHmacSize * 255 = 255 * 32 := rfl
    rw [limit] at once_eq
    rcases Nat.lt_or_ge (255 * 32) outlen with beyond | inside
    · rw [if_pos beyond] at once_eq
      rw [once_eq]
      exact ⟨iff_of_true rfl beyond, fun inside => absurd beyond (Nat.not_lt_of_le inside)⟩
    · rw [if_neg (Nat.not_lt_of_le inside)] at once_eq
      rw [once_eq]
      have succeeds : ¬ ((0 : Int) = -1) := by decide
      refine ⟨iff_of_false succeeds (Nat.not_lt_of_le inside), fun _ => ⟨rfl, ?_, rfl⟩⟩
      rw [← List.takeD_eq_take (0 : Byte) (by rw [length_output]; exact inside)]
      exact congrArg (·.2.2) call_eq

end AsconSuite
