/-
Module: AsconSuite.Proofs.SecureErrors
Layer: Proofs
Purpose: A call of the secure layer that fails leaves no trace: no length, no byte in memory, no counter.
Imports: AsconSuite.Proofs.ReceiverRules, AsconSuite.Proofs.SecurePackets, AsconSuite.Proofs.SecureRoundTrip,
  AsconSuite.Secure.Atalhos
Trusted boundary: none
Main exports: length_of_openPacket, asconSecureUnwrap_failed, asconSecureWrap_failed, secure_errors_leave_no_trace
-/
import AsconSuite.Proofs.ReceiverRules
import AsconSuite.Proofs.SecurePackets
import AsconSuite.Proofs.SecureRoundTrip
import AsconSuite.Secure.Atalhos

namespace AsconSuite

open ByteWord ByteMemory CrashLogic

/-- A packet that is opened gives as many bytes as it has beyond its overhead. -/
theorem length_of_openPacket {peer : Peer} {mem : Mem} {packet packetLength header headerLength : Nat}
    {message : List Byte} (packetLong : secureOverhead ≤ packetLength)
    (packetFits : packetLength - secureOverhead ≤ secureMaxPayload)
    (opened : openPacket peer mem packet packetLength header headerLength = some message) :
    message.length = packetLength - secureOverhead := by
  change 20 ≤ packetLength at packetLong
  change packetLength - 20 ≤ 200 at packetFits
  have long : asconTagSize ≤ packetLength - secureCounterBytes := by
    change 16 ≤ packetLength - 4
    omega
  have ranges : PlaintextRange 0 secureMaxPayload (packetLength - secureCounterBytes) := by
    change 0 = 200 ∨ 0 + (packetLength - 4 - 16) ≤ 200 ∨ 200 + (packetLength - 4) ≤ 0
    omega
  have total : packetLength - secureCounterBytes - asconTagSize = packetLength - secureOverhead := by
    change packetLength - 4 - 16 = packetLength - 20
    omega
  have length : ∀ scratch nonce, (ascon128aAeadDecrypt scratch 0 secureMaxPayload
      (packetLength - secureCounterBytes) (mem.view header) headerLength nonce
        (arrayPtr peer.key)).mlen = some (packetLength - secureOverhead) := by
    intro scratch nonce
    rw [← total]
    rcases aeadDecrypt_cases .ascon128a (mem.view header) headerLength nonce (arrayPtr peer.key)
      scratch long ranges with ⟨_, _, _, decrypted⟩ | ⟨_, decrypted⟩
    · exact congrArg AeadDecrypted.mlen decrypted
    · exact congrArg AeadDecrypted.mlen decrypted
  simp only [openPacket] at opened
  split at opened
  · contradiction
  · rw [← Option.some.inj opened, length_read, length]
    rfl

section Failures

variable {store : SenderStore} {ram : SenderRam} {script : List NvsReply}

/-- A call of `asconSecureWrap` that fails. -/
structure WrapFailed (args : WrapArgs) (mem : Mem) (ram : SenderRam) (result : WrapResult)
    (ram' : SenderRam) : Prop where
  packetLength : result.packetLength = if args.packetLengthGiven then some 0 else none
  mem : result.mem = mem
  counter : ram'.senderCounter = ram.senderCounter

theorem asconSecureWrap_failed (args : WrapArgs) (mem : Mem) :
    wp (asconSecureWrap args mem)
      (fun result ram' _ _ => result.status ≠ .ok → WrapFailed args mem ram result ram')
      (fun _ => True) ram store script := by
  apply wp_asconSecureWrap
  · intro status _ _
    exact ⟨rfl, rfl, rfl⟩
  intro ready payload packet admissible
  have failed : ∀ status ram', ram'.senderCounter = ram.senderCounter →
      WrapFailed args mem ram ⟨status, mem, some 0⟩ ram' := by
    intro status ram' same
    refine ⟨?_, rfl, same⟩
    rw [admissible.lengthGiven, if_pos rfl]
  apply wp_takeCounter trivial
  · exact fun _ _ => failed _ _ rfl
  · exact fun _ _ _ _ => failed _ _ rfl
  · exact fun _ _ _ _ => failed _ _ rfl
  · exact fun _ _ _ succeeded => absurd rfl succeeded
  · exact fun _ _ succeeded => absurd rfl succeeded

end Failures

/-- A call of `asconSecureUnwrap` that fails. -/
structure UnwrapFailed (args : UnwrapArgs) (mem : Mem) (ram : ReceiverRam) (store : ReceiverStore)
    (result : UnwrapResult) (ram' : ReceiverRam) (store' : ReceiverStore) : Prop where
  payloadLength : result.payloadLength = if args.payloadLengthGiven then some 0 else none
  mem : result.mem = mem
  peers : ram'.peers = ram.peers
  store : result.status ≠ .errNvs → store' = store

theorem asconSecureUnwrap_failed (args : UnwrapArgs) (mem : Mem) {ram : ReceiverRam}
    {store : ReceiverStore} {script : List NvsReply} :
    wp (asconSecureUnwrap args mem)
      (fun result ram' store' _ => result.status ≠ .ok →
        UnwrapFailed args mem ram store result ram' store')
      (fun _ => True) ram store script := by
  apply wp_asconSecureUnwrap
  · intro status _ _ _
    exact ⟨rfl, rfl, rfl, fun _ => rfl⟩
  intro packet payload slot message opens fresh
  have failed : ∀ store', UnwrapFailed args mem ram store ⟨.errNvs, mem, some 0⟩ ram store' := by
    intro store'
    refine ⟨?_, rfl, rfl, fun different => absurd rfl different⟩
    rw [opens.lengthGiven, if_pos rfl]
  apply wp_persistCounter trivial
  · exact fun _ _ => failed _
  · exact fun _ _ => failed _
  · exact fun _ _ succeeded => absurd rfl succeeded

/-! ### The shortcuts -/

theorem asconSecurePack_failed (mem : Mem) (data : Nat) (payload : Option Nat) (payloadLength : Nat)
    {ram : SenderRam} {store : SenderStore} {script : List NvsReply} :
    wp (asconSecurePack mem data payload payloadLength)
      (fun result _ _ _ => result.status ≠ .ok → result = emptyResult result.status)
      (fun _ => True) ram store script := by
  simp only [asconSecurePack, wp_bind]
  refine wp_mono (asconSecureWrap_failed
    ⟨payload, payloadLength, none, 0, some data, secureMaxPacket, true⟩
    (mem.write data (List.replicate secureMaxPacket 0))) ?_ fun _ => id
  intro result ram' store' rest _
  split
  · exact fun _ => rfl
  · rename_i succeeded
    exact fun failed => absurd failed succeeded

/-- What `asconSecureOpen` returns: nothing at all, or a text that ends inside its array. -/
def OpenedOrEmpty (result : AsconBytes) : Prop :=
  if result.status = .ok then
    result.length ≤ secureMaxPayload ∧ result.data[result.length]? = some 0
  else result = emptyResult result.status

theorem openedOrEmpty_emptyResult {status : AsconSecureStatus} (failed : status ≠ .ok) :
    OpenedOrEmpty (emptyResult status) := by
  have notOk : ¬ (emptyResult status).status = .ok := failed
  rw [OpenedOrEmpty, if_neg notOk]
  rfl

/-- A message in an array of zeroes ends in a zero. -/
theorem openedOrEmpty_message (mem : Mem) (data : Nat) {message : List Byte}
    (fits : message.length ≤ secureMaxPayload) :
    OpenedOrEmpty ⟨((mem.write data (List.replicate secureMaxPacket 0)).write data message).read data
      secureMaxPacket, message.length, .ok⟩ := by
  have inside : message.length < secureMaxPacket := Nat.lt_of_le_of_lt fits (by decide)
  have behind : ((mem.write data (List.replicate secureMaxPacket 0)).write data message)
      (data + message.length) = 0 := by
    rw [write_apply_outside _ _ _ (Or.inr (Nat.le_refl _)),
      write_apply_of_lt _ _ _ (by rwa [List.length_replicate]), List.getD_replicate]
    exact inside
  rw [OpenedOrEmpty, if_pos rfl]
  refine ⟨fits, ?_⟩
  change (Mem.read _ data secureMaxPacket)[message.length]? = some 0
  rw [getElem?_read, if_pos inside, behind]

theorem asconSecureOpen_result (mem : Mem) (data : Nat) (peerId : Byte) (packet : Option Nat)
    (packetLength : Nat) {ram : ReceiverRam} {store : ReceiverStore} {script : List NvsReply} :
    wp (asconSecureOpen mem data peerId packet packetLength)
      (fun result _ _ _ => OpenedOrEmpty result) (fun _ => True) ram store script := by
  by_cases nothing : packetLength = 0
  · have empty : OpenedOrEmpty (emptyResult .empty) := openedOrEmpty_emptyResult (by decide)
    rw [asconSecureOpen, if_pos nothing, wp_pure]
    exact empty
  · rw [asconSecureOpen, if_neg nothing]
    simp only [wp_bind]
    apply wp_asconSecureUnwrap
    · intro status failed _
      simp only [ne_eq, failed, not_false_eq_true, if_true, wp_pure]
      exact openedOrEmpty_emptyResult failed
    intro packet payload slot message opens _
    have len := length_of_openPacket opens.packetLong opens.packetFits opens.opened
    have fits : message.length ≤ secureMaxPayload := len ▸ opens.packetFits
    have samePlace : payload = data := (Option.some.inj opens.payloadGiven).symm
    have notPersisted : OpenedOrEmpty (emptyResult .errNvs) := openedOrEmpty_emptyResult (by decide)
    apply wp_persistCounter trivial
    · exact fun _ => notPersisted
    · exact fun _ => notPersisted
    intro rest _
    simp only [if_true, ne_eq, not_true_eq_false, if_false, wp_pure, samePlace, Option.getD_some]
    exact openedOrEmpty_message mem data fits

/-- A failing call leaves the length zero, the memory as it was and the counters as they were, and the
shortcuts return nothing at all; a text that `asconSecureOpen` returns ends inside its array. -/
theorem secure_errors_leave_no_trace :
    (∀ (args : UnwrapArgs) (mem : Mem) (ram ram' : ReceiverRam) (store store' : ReceiverStore)
      (script rest : List NvsReply) (result : UnwrapResult),
      asconSecureUnwrap args mem ram store script = .returned result ram' store' rest →
        result.status ≠ .ok →
          result.payloadLength = (if args.payloadLengthGiven then some 0 else none) ∧
            result.mem = mem ∧ ram'.peers = ram.peers ∧
            (result.status ≠ .errNvs → store' = store)) ∧
    (∀ (args : WrapArgs) (mem : Mem) (ram ram' : SenderRam) (store store' : SenderStore)
      (script rest : List NvsReply) (result : WrapResult),
      asconSecureWrap args mem ram store script = .returned result ram' store' rest →
        result.status ≠ .ok →
          result.packetLength = (if args.packetLengthGiven then some 0 else none) ∧
            result.mem = mem ∧ ram'.senderCounter = ram.senderCounter) ∧
    (∀ (mem : Mem) (data : Nat) (payload : Option Nat) (payloadLength : Nat) (ram ram' : SenderRam)
      (store store' : SenderStore) (script rest : List NvsReply) (result : AsconBytes),
      asconSecurePack mem data payload payloadLength ram store script =
          .returned result ram' store' rest →
        result.status ≠ .ok → result = emptyResult result.status) ∧
    (∀ (mem : Mem) (data : Nat) (text : Option (CString mem)) (ram ram' : SenderRam)
      (store store' : SenderStore) (script rest : List NvsReply) (result : AsconBytes),
      asconSecurePackText mem data text ram store script = .returned result ram' store' rest →
        result.status ≠ .ok → result = emptyResult result.status) ∧
    (∀ (mem : Mem) (data : Nat) (peerId : Byte) (packet : Option Nat) (packetLength : Nat)
      (ram ram' : ReceiverRam) (store store' : ReceiverStore) (script rest : List NvsReply)
      (result : AsconBytes),
      asconSecureOpen mem data peerId packet packetLength ram store script =
          .returned result ram' store' rest →
        (result.status ≠ .ok → result = emptyResult result.status) ∧
          (result.status = .ok → result.length ≤ secureMaxPayload ∧
            result.data[result.length]? = some 0)) := by
  refine ⟨?_, ?_, ?_, ?_, ?_⟩
  · intro args mem ram ram' store store' script rest result ended failed
    have traces := wp_returned (asconSecureUnwrap_failed args mem) ended failed
    exact ⟨traces.payloadLength, traces.mem, traces.peers, traces.store⟩
  · intro args mem ram ram' store store' script rest result ended failed
    have traces := wp_returned (asconSecureWrap_failed args mem) ended failed
    exact ⟨traces.packetLength, traces.mem, traces.counter⟩
  · intro mem data payload payloadLength ram ram' store store' script rest result ended
    exact wp_returned (asconSecurePack_failed mem data payload payloadLength) ended
  · intro mem data text ram ram' store store' script rest result ended
    cases text with
    | none =>
        have refused : wp (asconSecurePackText mem data none)
            (fun result _ _ _ => result.status ≠ .ok → result = emptyResult result.status)
            (fun _ => True) ram store script := fun _ => rfl
        exact wp_returned refused ended
    | some text => exact wp_returned (asconSecurePack_failed mem data _ _) ended
  · intro mem data peerId packet packetLength ram ram' store store' script rest result ended
    have outcome := wp_returned (asconSecureOpen_result mem data peerId packet packetLength) ended
    rw [OpenedOrEmpty] at outcome
    constructor
    · intro failed
      rwa [if_neg failed] at outcome
    · intro succeeded
      rwa [if_pos succeeded] at outcome

/-- Every slot of the receiver holds a peer whose counter 9 has been accepted. -/
def acceptedNine : ReceiverRam :=
  ⟨true, fun _ => ⟨true, 3, Vector.replicate _ 7, Vector.replicate _ 9, [], true, 9⟩⟩

/-- A packet with counter 5 that `sealPacket` has built for the peers of `acceptedNine`. -/
def packetFive : List Byte :=
  packetBytes (Vector.replicate _ 7) (Vector.replicate _ 9) 5 (fun _ => 0) 0 [1, 2, 3]

/-- An authentic packet is opened and then refused. -/
theorem secure_errors_leave_no_trace_replay :
    asconSecureUnwrap ⟨3, some 0, 23, none, 0, some 50, 9, true⟩ (tablePtr packetFive) acceptedNine
        (fun _ => some 9) [.ok, .ok] =
      .returned ⟨.errReplay, tablePtr packetFive, some 0⟩ acceptedNine (fun _ => some 9) [.ok, .ok] ∧
    (⟨.errReplay, tablePtr packetFive, some 0⟩ : UnwrapResult).payloadLength = some 0 ∧
      (⟨.errReplay, tablePtr packetFive, some 0⟩ : UnwrapResult).mem = tablePtr packetFive := by
  have length : packetFive.length = 23 := length_packetBytes _ _ _ _ _ _
  have held : (tablePtr packetFive).read 0 packetFive.length = packetFive := read_getD packetFive
  have receives : UnwrapArgs.Receives ⟨3, some 0, 23, none, 0, some 50, 9, true⟩ (tablePtr packetFive) acceptedNine 0
      ⟨Vector.replicate _ 7, Vector.replicate _ 9⟩ packetFive (Mem.read (fun _ => 0) 0 0) 0 50 := {
    knows := ⟨rfl, rfl, rfl, rfl⟩
    packetGiven := rfl
    packetLength := length.symm
    packetSame := held
    headerGiven := fun _ => rfl
    headerLength := rfl
    headerSame := rfl
    payloadGiven := rfl
    lengthGiven := rfl
    roomLeft := length ▸ (by decide) }
  have ended := asconSecureUnwrap_receives (by decide) receives (fun _ => some 9) []
  rw [if_pos ⟨rfl, by decide⟩] at ended
  have traces := secure_errors_leave_no_trace.1 _ _ _ _ _ _ _ _ _ ended nofun
  exact ⟨ended, traces.1, traces.2.1⟩

end AsconSuite
