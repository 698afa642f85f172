/-
Module: AsconSuite.Proofs.IncrementalAead
Layer: Proofs
Purpose: A series of packets handled by the incremental functions is the one-shot functions applied to each
  packet under the next nonce, however the payloads are cut into calls.
Imports: AsconSuite.Proofs.AeadInverse, AsconSuite.Proofs.NonceNumber
Trusted boundary: none
Main exports: SessionAt, AgreesWithOneShot, sessionStep_agrees, incremental_session_eq_oneShot
-/
import AsconSuite.Proofs.AeadInverse
import AsconSuite.Proofs.NonceNumber

namespace AsconSuite

open ByteWord ByteMemory BigEndian
open Transducer (run)

/-! ### Block calls -/

/-- A block call as a run of the duplex over its bytes. -/
def messageCall (mix : Mix Byte Byte Byte) (v : AeadVariant) (state : AeadState) (call : BlockCall) :
    AeadState × List Byte :=
  let done := run ((asconDuplex v.rate v.firstRound).step mix) (state.state, state.posn) call.bytes
  ({ state with state := done.1.1, posn := done.1.2 }, done.2)

/-- The position of an incremental state is inside the block. -/
def AeadState.Inside (v : AeadVariant) (state : AeadState) : Prop := state.posn < v.rate.size

theorem messageCall_inside (mix : Mix Byte Byte Byte) (v : AeadVariant) (state : AeadState)
    (call : BlockCall) (inside : state.Inside v) : (messageCall mix v state call).1.Inside v :=
  (asconDuplex v.rate v.firstRound).run_position_lt mix inside call.bytes

/-- What a call leaves in its output buffer. -/
theorem read_messageRun (mix : Mix Byte Byte Byte) (rate : Rate) (firstRound : Nat) (s : AsconState)
    (mem : Mem) (dest src len pos : Nat) :
    (messageRun mix rate firstRound s mem dest src len pos).2.1.read dest len =
      (run ((asconDuplex rate firstRound).step mix) (s, pos) (mem.read src len)).2 := by
  have written := read_write_same mem dest
    (run ((asconDuplex rate firstRound).step mix) (s, pos) (mem.read src len)).2
  rwa [Transducer.length_run, length_read] at written

theorem encryptCall_eq_messageCall (v : AeadVariant) (state : AeadState) (call : BlockCall)
    (inside : state.Inside v) : encryptCall v state call = messageCall encMix v state call := by
  rw [encryptCall, aeadEncryptBlock,
    v.encryptMessage_eq_messageRun _ _ inside call.ranges]
  simp only [read_messageRun]
  rfl

theorem decryptCall_eq_messageCall (v : AeadVariant) (state : AeadState) (call : BlockCall)
    (inside : state.Inside v) : decryptCall v state call = messageCall decMix v state call := by
  rw [decryptCall, aeadDecryptBlock,
    v.decryptMessage_eq_messageRun _ _ inside call.ranges]
  simp only [read_messageRun]
  rfl

/-- The calls of a packet are one run over the payload. -/
theorem run_messageCall (mix : Mix Byte Byte Byte) (v : AeadVariant) (state : AeadState)
    (calls : List BlockCall) :
    let done := run ((asconDuplex v.rate v.firstRound).step mix) (state.state, state.posn)
      (calls.map BlockCall.bytes).flatten
    (run (messageCall mix v) state calls).1 =
        { state with state := done.1.1, posn := done.1.2 } ∧
      (run (messageCall mix v) state calls).2.flatten = done.2 := by
  induction calls generalizing state with
  | nil => exact ⟨rfl, rfl⟩
  | cons call calls ih =>
      obtain ⟨last, output⟩ := ih (messageCall mix v state call).1
      simp only [List.map_cons, List.flatten_cons, Transducer.run_cons, Transducer.run_append]
      refine ⟨last, ?_⟩
      rw [output]
      rfl

/-! ### Packets -/

/-- The one-shot decryption of a body and a tag that are alone in memory, in place. -/
theorem aeadDecrypt_append (v : AeadVariant) (ad : Mem) (adlen : Nat) (npub k : Mem)
    (body tag : List Byte) (len : tag.length = asconTagSize) :
    let ended := run (aeadStream v k).dec (v.start ad adlen npub k, 0) body
    let mem := tablePtr (body ++ tag)
    aeadDecrypt v mem 0 0 (body ++ tag).length ad adlen npub k =
      if (aeadStream v k).tag ended.1 = tag then
        ⟨mem.write 0 ended.2, some body.length, 0⟩
      else ⟨mem.write 0 (List.replicate body.length 0), some body.length, -1⟩ := by
  intro ended mem
  have total : (body ++ tag).length = body.length + asconTagSize := by
    rw [List.length_append, len]
  have bytes : mem.read 0 (body ++ tag).length = body ++ tag := read_getD (body ++ tag)
  rw [aeadDecrypt_eq v mem ad adlen npub k (by omega) (Or.inl rfl), bytes,
    (aeadStream v k).openMessage_append _ _ _ len, total, Nat.add_sub_cancel]
  by_cases agree : (aeadStream v k).tag ended.1 = tag
  · rw [if_pos agree, if_pos agree]
  · rw [if_neg agree, if_neg agree]

/-- The bytes behind an optional pointer, as `reinit` copies them. -/
def optionalPtr : Option Mem → Mem
  | some p => p
  | none => fun _ => 0

/-- The incremental state in front of packet `i`: the key is in place and the nonce is that packet's. -/
structure SessionAt (v : AeadVariant) (npub k : Mem) (i : Nat) (state : AeadState) : Prop where
  key : ∀ j < v.keySize, state.key j = k j
  nonce : ∀ j < 16, state.nonce j = packetNonce npub i j

/-- What the one-shot functions say about one packet. -/
def AgreesWithOneShot (v : AeadVariant) (npub k : Mem) : SessionCall → SessionResult → Prop
  | .encrypt packet, .encrypted output tag =>
      output.length = packet.bytes.length ∧
        output ++ tag = encryptedBytes v packet.ad packet.adlen npub k packet.bytes
  | .decrypt packet tag, .decrypted output result =>
      let sealed := packet.bytes ++ tag.read 0 asconTagSize
      let oneShot := aeadDecrypt v (tablePtr sealed) 0 0 sealed.length packet.ad packet.adlen npub k
      result = oneShot.result ∧
        (result = 0 → output = oneShot.mem.read 0 packet.bytes.length)
  | _, _ => False

/-- A reinitialized state is in front of packet 0. -/
theorem sessionAt_aeadReinit (v : AeadVariant) (state : AeadState) (npub k : Option Mem) :
    SessionAt v (optionalPtr npub) (optionalPtr k) 0 (aeadReinit v state npub k) := by
  have copied (field source : Mem) (size i : Nat) (hi : i < size) :
      field.write 0 (source.read 0 size) i = source i := by
    have byte := write_apply_of_lt field 0 (source.read 0 size) (i := i) (by rwa [length_read])
    rwa [getD_read source 0 hi, Nat.zero_add] at byte
  have zeroed (field : Mem) (size i : Nat) (hi : i < size) :
      field.write 0 (List.replicate size 0) i = 0 := by
    have inside : i < (List.replicate size (0 : Byte)).length := by rwa [List.length_replicate]
    have byte := write_apply_of_lt field 0 _ inside
    rwa [List.getD_eq_getElem _ _ inside, List.getElem_replicate, Nat.zero_add] at byte
  constructor
  · intro j hj
    cases k with
    | some k => exact copied state.key k v.keySize j hj
    | none => exact zeroed state.key v.keySize j hj
  · intro j hj
    rw [← packetNonce_zero _ j hj]
    cases npub with
    | some npub => exact copied state.nonce npub 16 j hj
    | none => exact zeroed state.nonce 16 j hj

section

variable {v : AeadVariant} {npub k : Mem} {i : Nat} {state : AeadState}

/-- The calls of a packet started at its place in the session. -/
theorem SessionAt.packet_run (session : SessionAt v npub k i state) {mix : Mix Byte Byte Byte}
    {call : AeadState → BlockCall → AeadState × List Byte}
    (call_eq : ∀ state c, state.Inside v → call state c = messageCall mix v state c)
    (packet : PacketCall) :
    let started := aeadStart v state packet.ad packet.adlen
    let ended := run ((asconDuplex v.rate v.firstRound).step mix)
      (v.start packet.ad packet.adlen (packetNonce npub i) k, 0) packet.bytes
    (run call started packet.calls).1 = { started with state := ended.1.1, posn := ended.1.2 } ∧
      (run call started packet.calls).2.flatten = ended.2 := by
  intro started ended
  have inside : started.Inside v := v.rate.size_pos
  have fresh : started.state = v.start packet.ad packet.adlen (packetNonce npub i) k :=
    v.startFrom_congr state.state asconInit (fun _ _ => rfl) session.nonce session.key
  have calls := run_messageCall mix v started packet.calls
  rw [Transducer.run_congr call_eq (messageCall_inside mix v) inside]
  rw [show started.posn = 0 from rfl, fresh] at calls
  exact calls

/-- After a packet the session is in front of the next one. -/
theorem SessionAt.next (session : SessionAt v npub k i state) {next : AeadState}
    (key : next.key = state.key) (nonce : next.nonce = asconAeadIncrementNonce state.nonce) :
    SessionAt v npub k (i + 1) next where
  key := by rw [key]; exact session.key
  nonce := by rw [nonce]; exact packetNonce_succ session.nonce

/-- The tag of a state that holds the session's key. -/
theorem SessionAt.tag_eq (session : SessionAt v npub k i state) (s : AsconState) (posn : Nat) :
    (tagBuffer (v.finalize (asconPad s posn) state.key)).read 0 asconTagSize =
      (aeadStream v k).tag (s, posn) := by
  rw [v.finalize_congr _ session.key]
  rfl

/-- One packet of a session agrees with the one-shot functions under the nonce of that packet. -/
theorem sessionStep_agrees (call : SessionCall) (session : SessionAt v npub k i state) :
    SessionAt v npub k (i + 1) (sessionStep v state call).1 ∧
      AgreesWithOneShot v (packetNonce npub i) k call (sessionStep v state call).2 := by
  cases call with
  | encrypt packet =>
      obtain ⟨last, output⟩ := session.packet_run (encryptCall_eq_messageCall v) packet
      have squeezed (s : AsconState) (mem : Mem) :
          (v.squeezeTag s mem 0).read 0 asconTagSize = (tagBuffer s).read 0 asconTagSize := by
        rw [v.squeezeTag_eq_write]
        exact read_write_same _ _ _
      refine ⟨session.next ?_ ?_, ?_, ?_⟩
      · simp only [sessionStep, aeadEncryptFinalize, last]
        rfl
      · simp only [sessionStep, aeadEncryptFinalize, last]
        rfl
      · rw [output, Transducer.length_run]
      · simp only [aeadEncryptFinalize]
        rw [output, squeezed, last, encryptedBytes_eq_sealMessage]
        simp only
        rw [show (aeadStart v state packet.ad packet.adlen).key = state.key from rfl, session.tag_eq]
        rfl
  | decrypt packet tag =>
      obtain ⟨last, output⟩ := session.packet_run (decryptCall_eq_messageCall v) packet
      refine ⟨session.next ?_ ?_, ?_⟩
      · simp only [sessionStep, aeadDecryptFinalize, last]
        rfl
      · simp only [sessionStep, aeadDecryptFinalize, last]
        rfl
      · have oneShot := aeadDecrypt_append v packet.ad packet.adlen (packetNonce npub i) k
          packet.bytes (tag.read 0 asconTagSize) (length_read _ _ _)
        simp only [AgreesWithOneShot, sessionStep, aeadDecryptFinalize]
        rw [oneShot, asconAeadCheckTag_eq, output, last]
        simp only
        rw [show (aeadStart v state packet.ad packet.adlen).key = state.key from rfl,
          session.tag_eq]
        have same : (aeadStream v k).dec = (asconDuplex v.rate v.firstRound).step decMix := rfl
        rw [← same]
        by_cases agree : (aeadStream v k).tag (run (aeadStream v k).dec
            (v.start packet.ad packet.adlen (packetNonce npub i) k, 0) packet.bytes).1 =
              tag.read 0 asconTagSize
        · rw [if_pos agree, if_pos agree]
          refine ⟨rfl, fun _ => ?_⟩
          have returned := read_write_same (tablePtr (packet.bytes ++ tag.read 0 asconTagSize)) 0
            (run (aeadStream v k).dec
              (v.start packet.ad packet.adlen (packetNonce npub i) k, 0) packet.bytes).2
          rw [Transducer.length_run] at returned
          exact returned.symm
        · rw [if_neg agree, if_neg agree]
          exact ⟨rfl, fun zero => absurd zero (by decide)⟩

end

/-- The results of a session that starts from a reinitialized state. -/
def sessionResults (v : AeadVariant) (state : AeadState) (npub k : Option Mem)
    (calls : List SessionCall) : List SessionResult :=
  (run (sessionStep v) (aeadReinit v state npub k) calls).2

theorem sessionResults_agree (v : AeadVariant) (state : AeadState) (npub k : Option Mem)
    {calls : List SessionCall} {i : Nat} {call : SessionCall} (at_i : calls[i]? = some call) :
    ∃ result, (sessionResults v state npub k calls)[i]? = some result ∧
      AgreesWithOneShot v (packetNonce (optionalPtr npub) i) (optionalPtr k) call result := by
  obtain ⟨result, found, agrees⟩ := Transducer.run_getElem?
    (I := SessionAt v (optionalPtr npub) (optionalPtr k))
    (P := fun i => AgreesWithOneShot v (packetNonce (optionalPtr npub) i) (optionalPtr k))
    (fun i state call session => sessionStep_agrees call session)
    (sessionAt_aeadReinit v state npub k) calls at_i
  rw [Nat.zero_add] at agrees
  exact ⟨result, found, agrees⟩

/-- A packet decrypted with the output and the tag of its encryption gives the payload back. -/
theorem agreesWithOneShot_recovers {v : AeadVariant} {npub k : Mem} {packet packet' : PacketCall}
    {output tag : List Byte} {tag' : Mem} {result : SessionResult}
    (encrypted : AgreesWithOneShot v npub k (.encrypt packet) (.encrypted output tag))
    (decrypted : AgreesWithOneShot v npub k (.decrypt packet' tag') result)
    (adlen : packet'.adlen = packet.adlen) (ad : ∀ j < packet.adlen, packet'.ad j = packet.ad j)
    (body : packet'.bytes = output) (tag_eq : tag'.read 0 asconTagSize = tag) :
    result = .decrypted packet.bytes 0 := by
  obtain ⟨outputLen, sealed⟩ := encrypted
  cases result with
  | encrypted _ _ => exact decrypted.elim
  | decrypted plain code =>
      rw [← encryptedBytes_congr v ad (fun _ _ => rfl) (fun _ _ => rfl), ← body, ← tag_eq] at sealed
      have bytes : (tablePtr (packet'.bytes ++ tag'.read 0 asconTagSize)).read 0
          (packet'.bytes ++ tag'.read 0 asconTagSize).length =
            encryptedBytes v packet'.ad packet'.adlen npub k packet.bytes := by
        rw [adlen, ← sealed]
        exact read_getD _
      obtain ⟨code_eq, plain_eq⟩ := decrypted
      rw [aeadDecrypt_of_encryptedBytes v packet'.ad packet'.adlen npub k _ (Or.inl rfl) bytes]
        at code_eq plain_eq
      have returned := read_write_same
        (tablePtr (packet'.bytes ++ tag'.read 0 asconTagSize)) 0 packet.bytes
      rw [plain_eq code_eq, code_eq, show packet'.bytes.length = packet.bytes.length by
        rw [body, outputLen]]
      exact congrArg (SessionResult.decrypted · 0) returned

/-- Every packet of an incremental session is what the one-shot functions make of it under the starting
nonce plus its number, and what one session encrypted another decrypts, however the calls are cut. -/
theorem incremental_session_eq_oneShot (v : AeadVariant) (npub k : Option Mem) :
    (∀ (state : AeadState) (calls : List SessionCall) (i : Nat) (call : SessionCall),
      calls[i]? = some call →
        ∃ result, (sessionResults v state npub k calls)[i]? = some result ∧
          AgreesWithOneShot v (packetNonce (optionalPtr npub) i) (optionalPtr k) call result) ∧
    (∀ (state state' : AeadState) (calls calls' : List SessionCall) (i : Nat)
      (packet packet' : PacketCall) (output tag : List Byte) (tag' : Mem),
      calls[i]? = some (.encrypt packet) →
      (sessionResults v state npub k calls)[i]? = some (.encrypted output tag) →
      calls'[i]? = some (.decrypt packet' tag') →
      packet'.adlen = packet.adlen → (∀ j < packet.adlen, packet'.ad j = packet.ad j) →
      packet'.bytes = output → tag'.read 0 asconTagSize = tag →
        (sessionResults v state' npub k calls')[i]? = some (.decrypted packet.bytes 0)) := by
  refine ⟨fun state calls i call at_i => sessionResults_agree v state npub k at_i, ?_⟩
  intro state state' calls calls' i packet packet' output tag tag' sent result received adlen ad
    body tag_eq
  obtain ⟨_, found, encrypted⟩ := sessionResults_agree v state npub k sent
  rw [result, Option.some_inj] at found
  subst found
  obtain ⟨back, found, decrypted⟩ := sessionResults_agree v state' npub k received
  rw [found, agreesWithOneShot_recovers encrypted decrypted adlen ad body tag_eq]

/-- A packet of `first + second` bytes in two calls, the second one in place. -/
def twoCalls (mem : Mem) (first second : Nat) : PacketCall where
  ad i := BitVec.ofNat 8 i
  adlen := 3
  calls := [⟨mem, 0, first, first, Or.inr (Or.inr (Nat.le_of_eq (Nat.zero_add first)))⟩,
    ⟨mem, first, first, second, Or.inl rfl⟩]

theorem bytes_twoCalls (mem : Mem) (first second : Nat) :
    (twoCalls mem first second).bytes = mem.read 0 (first + second) := by
  rw [read_add, Nat.zero_add]
  exact congrArg (mem.read 0 first ++ ·) (List.append_nil _)

/-- Packets whose bytes count up. -/
def countedCalls (first second : Nat) : PacketCall := twoCalls (fun i => BitVec.ofNat 8 i) first second

/-- Two packets in two calls each. The second one has 21 bytes, cut behind the first 20, and comes back from a
session that cuts it behind the first 5. -/
theorem incremental_session_eq_oneShot_recut :
    ∃ output tag,
      (sessionResults .ascon128a ⟨asconInit, fun _ => 0, fun _ => 0, 0⟩ none none
        [.encrypt (countedCalls 3 7), .encrypt (countedCalls 20 1)])[1]? =
          some (.encrypted output (Mem.read tag 0 asconTagSize)) ∧
      AgreesWithOneShot .ascon128a (packetNonce (fun _ => 0) 1) (fun _ => 0)
        (.encrypt (countedCalls 20 1)) (.encrypted output (tag.read 0 asconTagSize)) ∧
      (sessionResults .ascon128a ⟨asconInit, fun _ => 1, fun _ => 1, 1⟩ none none
        [.decrypt (countedCalls 3 7) tag, .decrypt (twoCalls (tablePtr output) 5 16) tag])[1]? =
          some (.decrypted (Mem.read (fun i => BitVec.ofNat 8 i) 0 21) 0) := by
  have session := incremental_session_eq_oneShot .ascon128a none none
  have sent : ∃ output tag, (sessionResults .ascon128a ⟨asconInit, fun _ => 0, fun _ => 0, 0⟩ none none
      [.encrypt (countedCalls 3 7), .encrypt (countedCalls 20 1)])[1]? =
        some (.encrypted output (Mem.read tag 0 asconTagSize)) := ⟨_, _, rfl⟩
  obtain ⟨output, tag, sent⟩ := sent
  obtain ⟨result, found, agrees⟩ := session.1 ⟨asconInit, fun _ => 0, fun _ => 0, 0⟩
    [.encrypt (countedCalls 3 7), .encrypt (countedCalls 20 1)] 1 _ rfl
  rw [sent, Option.some_inj] at found
  subst found
  have sentBytes : (countedCalls 20 1).bytes = Mem.read (fun i => BitVec.ofNat 8 i) 0 21 := bytes_twoCalls _ _ _
  have outputLen : output.length = 21 := by
    rw [agrees.1, sentBytes, length_read]
  have body : (twoCalls (tablePtr output) 5 16).bytes = output := by
    have whole : (tablePtr output).read 0 21 = output := outputLen ▸ read_getD output
    exact (bytes_twoCalls (tablePtr output) 5 16).trans whole
  have back := session.2 ⟨asconInit, fun _ => 0, fun _ => 0, 0⟩ ⟨asconInit, fun _ => 1, fun _ => 1, 1⟩ _
    [.decrypt (countedCalls 3 7) tag, .decrypt (twoCalls (tablePtr output) 5 16) tag] 1 (countedCalls 20 1)
    (twoCalls (tablePtr output) 5 16) output _ tag rfl sent rfl rfl (fun _ _ => rfl) body rfl
  rw [sentBytes] at back
  exact ⟨output, tag, sent, agrees, back⟩

end AsconSuite
