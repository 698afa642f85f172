/-
Module: AsconSuite.Proofs.SecureRoundTrip
Layer: Proofs
Purpose: A packet that the sender returns is accepted by a receiver with the same key and prefix, which gives
  the payload back, unless it has accepted that counter or a later one.
Imports: AsconSuite.Proofs.ReceiverRules, AsconSuite.Proofs.SecurePackets, AsconSuite.Secure.Atalhos,
  AsconSuite.Secure.SenderNode
Trusted boundary: none
Main exports: asconSecureWrap_ok, UnwrapArgs.Receives, asconSecureUnwrap_receives, PacksAndOpens, secure_round_trip
-/
import AsconSuite.Proofs.ReceiverRules
import AsconSuite.Proofs.SecurePackets
import AsconSuite.Secure.Atalhos
import AsconSuite.Secure.SenderNode

namespace AsconSuite

open ByteWord ByteMemory CrashLogic

/-- A packet comes from `sealPacket`, with arguments that have passed the checks. -/
theorem asconSecureWrap_ok (args : WrapArgs) (mem : Mem) {ram : SenderRam} {store : SenderStore}
    {script : List NvsReply} :
    wp (asconSecureWrap args mem)
      (fun result _ _ _ => result.status = .ok → ∃ payload packet counter,
        args.Admissible payload packet ∧ result = wrapPacket args mem payload packet ram counter)
      (fun _ => True) ram store script := by
  apply wp_asconSecureWrap
  · intro status failed succeeded
    exact absurd succeeded failed
  intro ready payload packet admissible
  apply wp_takeCounter trivial
  · exact fun _ => nofun
  · exact fun _ _ _ => nofun
  · exact fun _ _ _ => nofun
  · exact fun _ _ _ _ => ⟨payload, packet, _, admissible, rfl⟩
  · exact fun _ _ _ => ⟨payload, packet, _, admissible, rfl⟩

theorem packetLength_wrapPacket (args : WrapArgs) (mem : Mem) (payload packet : Nat) (ram : SenderRam)
    (counter : Counter) : (wrapPacket args mem payload packet ram counter).packetLength =
      some (args.payloadLength + secureOverhead) :=
  congrArg some (snd_sealPacket ram.senderKey ram.senderPrefix counter mem payload args.payloadLength
    (args.header.getD 0) args.headerLength packet)

/-- The bytes of a packet that `asconSecureWrap` has built. -/
theorem read_wrapPacket {args : WrapArgs} {payload packet : Nat}
    (admissible : args.Admissible payload packet) (mem : Mem) (ram : SenderRam) (counter : Counter) :
    (wrapPacket args mem payload packet ram counter).mem.read packet
        (args.payloadLength + secureOverhead) =
      packetBytes ram.senderKey ram.senderPrefix counter (mem.view (args.header.getD 0))
        args.headerLength (mem.read payload args.payloadLength) := by
  have fits : args.payloadLength + 20 ≤ args.packetCapacity := admissible.packetFits
  have apart := apart_of_rangesOverlap admissible.headerApart
    (Nat.lt_of_lt_of_le (Nat.succ_pos _) fits)
  apply read_sealPacket
  change _ ∨ _ ∨ packet + (args.payloadLength + 20) ≤ args.header.getD 0
  omega

/-- A receiver is ready and knows the credential under this identifier. -/
structure KnowsPeer (ram : ReceiverRam) (peerId : Byte) (slot : Fin maxPeers)
    (credential : Credential) : Prop where
  ready : ram.receiverReady = true
  peerFound : findPeer ram.peers peerId = some slot
  sameKey : (ram.peers slot).key = credential.key
  samePrefix : (ram.peers slot).noncePrefix = credential.noncePrefix

/-- A receiver that knows the credential is called with a packet and a header. -/
structure UnwrapArgs.Receives (args : UnwrapArgs) (mem : Mem) (ram : ReceiverRam) (slot : Fin maxPeers)
    (credential : Credential) (packet header : List Byte) (packetAt payloadAt : Nat) : Prop where
  knows : KnowsPeer ram args.peerId slot credential
  packetGiven : args.packet = some packetAt
  packetLength : args.packetLength = packet.length
  packetSame : mem.read packetAt packet.length = packet
  headerGiven : args.header = none → args.headerLength = 0
  headerLength : args.headerLength = header.length
  headerSame : mem.read (args.header.getD 0) header.length = header
  payloadGiven : args.payload = some payloadAt
  lengthGiven : args.payloadLengthGiven = true
  roomLeft : packet.length ≤ args.payloadCapacity + secureOverhead

/-- What a receiver of a packet returns, when its storage works. -/
theorem asconSecureUnwrap_receives {args : UnwrapArgs} {mem : Mem} {ram : ReceiverRam}
    {slot : Fin maxPeers} {credential : Credential} {counter : Counter} {header : Mem}
    {message : List Byte} {packetAt payloadAt : Nat}
    (fits : message.length ≤ secureMaxPayload)
    (receives : args.Receives mem ram slot credential
      (packetBytes credential.key credential.noncePrefix counter header args.headerLength message)
      (header.read 0 args.headerLength) packetAt payloadAt)
    (store : ReceiverStore) (rest : List NvsReply) :
    asconSecureUnwrap args mem ram store (.ok :: .ok :: rest) =
      if (ram.peers slot).hasAccepted = true ∧ counter ≤ (ram.peers slot).lastAccepted then
        .returned ⟨.errReplay, mem, some 0⟩ ram store (.ok :: .ok :: rest)
      else
        .returned ⟨.ok, mem.write payloadAt message, some message.length⟩
          (ram.accept (ram.peers slot).fingerprint counter)
          (Function.update store (counterKeyFor (ram.peers slot).fingerprint) (some counter)) rest := by
  have len := length_packetBytes credential.key credential.noncePrefix counter header
    args.headerLength message
  have packetSame := receives.packetSame
  have packetLength := receives.packetLength
  have roomLeft := receives.roomLeft
  rw [len] at packetSame packetLength roomLeft
  rw [← receives.knows.sameKey, ← receives.knows.samePrefix] at packetSame
  have sameCounter := readCounterBE_of_read packetSame
  have sameHeader : ∀ i < args.headerLength, mem (args.header.getD 0 + i) = header i := by
    intro i inside
    have headerSame := receives.headerSame
    rw [length_read] at headerSame
    rw [eq_of_read_eq headerSame inside, Nat.zero_add]
  have opens : args.Opens mem ram packetAt payloadAt slot message := {
    ready := receives.knows.ready
    packetGiven := receives.packetGiven
    payloadGiven := receives.payloadGiven
    lengthGiven := receives.lengthGiven
    headerGiven := receives.headerGiven
    peerFound := receives.knows.peerFound
    packetLong := packetLength ▸ Nat.le_add_left _ _
    packetFits := by rwa [packetLength, Nat.add_sub_cancel]
    payloadFits := by
      rw [packetLength, Nat.add_sub_cancel]
      exact Nat.le_of_add_le_add_right roomLeft
    opened := by
      rw [packetLength]
      exact openPacket_packetBytes packetSame sameHeader fits }
  apply eq_of_wp
  rw [wp_asconSecureUnwrap_opens opens, sameCounter]
  split
  · rfl
  · rfl

/-! ### The shortcuts -/

/-- What `asconSecurePack` returns is a packet, for a payload apart from its local variable. -/
theorem asconSecurePack_ok (mem : Mem) {data payload payloadLength : Nat} {ram : SenderRam}
    {store : SenderStore} {script : List NvsReply}
    (apart : payload + payloadLength ≤ data ∨ data + secureMaxPacket ≤ payload) :
    wp (asconSecurePack mem data (some payload) payloadLength)
      (fun result _ _ _ => result.status = .ok →
        payloadLength ≤ secureMaxPayload ∧ result.length = payloadLength + secureOverhead ∧
        ∃ counter, result.data.take result.length = packetBytes ram.senderKey ram.senderPrefix counter
          (fun _ => 0) 0 (mem.read payload payloadLength))
      (fun _ => True) ram store script := by
  simp only [asconSecurePack, wp_bind]
  refine wp_mono (asconSecureWrap_ok
    ⟨some payload, payloadLength, none, 0, some data, secureMaxPacket, true⟩
    (mem.write data (List.replicate secureMaxPacket 0))) ?_ fun _ => id
  intro result ram' store' rest built
  split
  · rename_i failed
    exact fun succeeded => absurd succeeded failed
  rename_i succeeded
  intro _
  obtain ⟨payload', packet', counter, admissible, same⟩ := built (not_not.1 succeeded)
  have fits : payloadLength ≤ 200 := admissible.payloadFits
  have samePayload : payload = payload' := Option.some.inj admissible.payloadGiven
  have samePacket : data = packet' := Option.some.inj admissible.packetGiven
  subst samePayload samePacket
  have length : result.packetLength = some (payloadLength + secureOverhead) := by
    rw [same]
    exact packetLength_wrapPacket _ _ _ _ _ _
  have bytes := read_wrapPacket admissible (mem.write data (List.replicate secureMaxPacket 0)) ram
    counter
  have zeroes : payload + payloadLength ≤ data ∨
      data + (List.replicate secureMaxPacket (0 : Byte)).length ≤ payload := by
    rwa [List.length_replicate]
  rw [← same, read_write_apart _ _ _ zeroes] at bytes
  have inside : payloadLength + secureOverhead ≤ secureMaxPacket := Nat.add_le_add_right fits _
  have noHeader : packetBytes ram.senderKey ram.senderPrefix counter
      ((mem.write data (List.replicate secureMaxPacket 0)).view 0) 0 (mem.read payload payloadLength) =
        packetBytes ram.senderKey ram.senderPrefix counter (fun _ => 0) 0
          (mem.read payload payloadLength) :=
    packetBytes_congr _ _ _ (fun _ none => absurd none (Nat.not_lt_zero _)) _
  refine ⟨fits, by rw [length]; rfl, counter, ?_⟩
  rw [length]
  exact ((take_read _ _ inside).trans bytes).trans noHeader

/-- With working storage, a sender that can still emit packs every payload that fits. -/
theorem asconSecurePack_succeeds (mem : Mem) (data payload : Nat) {payloadLength : Nat} {ram : SenderRam}
    {store : SenderStore} (canEmit : ram.CanEmit) (fits : payloadLength ≤ secureMaxPayload) (rest : List NvsReply) :
    wp (asconSecurePack mem data (some payload) payloadLength)
      (fun packed _ _ _ => packed.status = .ok ∧ packed.data.length = secureMaxPacket)
      (fun _ => False) ram store (.ok :: .ok :: rest) := by
  have admissible : WrapArgs.Admissible ⟨some payload, payloadLength, none, 0, some data, secureMaxPacket, true⟩
      payload data := {
    payloadGiven := rfl
    packetGiven := rfl
    lengthGiven := rfl
    headerGiven := fun _ => rfl
    payloadFits := fits
    packetFits := Nat.add_le_add_right fits _
    headerApart := if_pos (Or.inl rfl) }
  simp only [asconSecurePack, wp_bind]
  refine wp_mono (asconSecureWrap_succeeds canEmit admissible rest) ?_ fun _ => id
  rintro _ ram' store' rest' rfl
  have succeeded : ¬ (wrapPacket ⟨some payload, payloadLength, none, 0, some data, secureMaxPacket, true⟩
      (mem.write data (List.replicate secureMaxPacket 0)) payload data ram ram.senderCounter).status ≠ .ok :=
    not_not.2 rfl
  rw [if_neg succeeded]
  exact ⟨rfl, length_read _ _ _⟩

/-- What `asconSecureOpen` returns for a packet apart from its local variable, when the storage works. -/
theorem asconSecureOpen_receives {mem : Mem} {data packetAt : Nat} {peerId : Byte} {ram : ReceiverRam}
    {slot : Fin maxPeers} {credential : Credential} {counter : Counter} {message : List Byte}
    (knows : KnowsPeer ram peerId slot credential) (fits : message.length ≤ secureMaxPayload)
    (packetSame : mem.read packetAt (message.length + secureOverhead) =
      packetBytes credential.key credential.noncePrefix counter (fun _ => 0) 0 message)
    (apart : packetAt + (message.length + secureOverhead) ≤ data ∨ data + secureMaxPacket ≤ packetAt)
    (store : ReceiverStore) (rest : List NvsReply) :
    ∃ opened ram' store' rest', asconSecureOpen mem data peerId (some packetAt)
        (message.length + secureOverhead) ram store (.ok :: .ok :: rest) =
          .returned opened ram' store' rest' ∧
      if (ram.peers slot).hasAccepted = true ∧ counter ≤ (ram.peers slot).lastAccepted then
        opened = emptyResult .errReplay
      else opened.status = .ok ∧ opened.length = message.length ∧
        opened.data.take opened.length = message := by
  have len := length_packetBytes credential.key credential.noncePrefix counter (fun _ => 0) 0 message
  have receives : UnwrapArgs.Receives
      ⟨peerId, some packetAt, message.length + secureOverhead, none, 0, some data, secureMaxPayload, true⟩
      (mem.write data (List.replicate secureMaxPacket 0)) ram slot credential
      (packetBytes credential.key credential.noncePrefix counter (fun _ => 0) 0 message)
      (Mem.read (fun _ => 0) 0 0) packetAt data := {
    knows := knows
    packetGiven := rfl
    packetLength := len.symm
    packetSame := by
      have zeroes : packetAt + (message.length + secureOverhead) ≤ data ∨
          data + (List.replicate secureMaxPacket (0 : Byte)).length ≤ packetAt := by
        rwa [List.length_replicate]
      rw [len, read_write_apart _ _ _ zeroes]
      exact packetSame
    headerGiven := fun _ => rfl
    headerLength := rfl
    headerSame := rfl
    payloadGiven := rfl
    lengthGiven := rfl
    roomLeft := by
      rw [len]
      exact Nat.add_le_add_right fits _ }
  have unwrapped := asconSecureUnwrap_receives fits receives store rest
  have notEmpty : ¬ message.length + secureOverhead = 0 := Nat.succ_ne_zero _
  have opened : wp (asconSecureOpen mem data peerId (some packetAt) (message.length + secureOverhead))
      (fun opened _ _ _ =>
        if (ram.peers slot).hasAccepted = true ∧ counter ≤ (ram.peers slot).lastAccepted then
          opened = emptyResult .errReplay
        else opened.status = .ok ∧ opened.length = message.length ∧
          opened.data.take opened.length = message)
      (fun _ => False) ram store (.ok :: .ok :: rest) := by
    rw [asconSecureOpen, if_neg notEmpty]
    simp only [wp_bind]
    rw [wp, unwrapped]
    by_cases replay : (ram.peers slot).hasAccepted = true ∧ counter ≤ (ram.peers slot).lastAccepted
    · rw [if_pos replay]
      exact (if_pos replay).mpr rfl
    · rw [if_neg replay]
      refine (if_neg replay).mpr ⟨rfl, rfl, ?_⟩
      have inside : message.length ≤ secureMaxPacket := Nat.le_trans fits (by decide)
      exact (take_read _ data inside).trans (read_write_same _ data message)
  exact exists_returned opened

/-- A sender in working order packs a message, and what it packs is 20 bytes longer than the message. The receiver
that knows the sender's key and prefix opens it to the message, or gives the replay error when it has accepted the
packet's counter or a later one. -/
structure PacksAndOpens (pack : SenderProgram AsconBytes) (message : List Byte) : Prop where
  packs : ∀ (ram : SenderRam) (store : SenderStore) (rest : List NvsReply), ram.CanEmit →
    message.length ≤ secureMaxPayload → ∃ packed ram' store' rest',
      pack ram store (.ok :: .ok :: rest) = .returned packed ram' store' rest' ∧ packed.status = .ok ∧
        packed.data.length = secureMaxPacket
  length : ∀ (ram ram' : SenderRam) (store store' : SenderStore) (script rest : List NvsReply) (packed : AsconBytes),
    pack ram store script = .returned packed ram' store' rest → packed.status = .ok →
      packed.length = message.length + secureOverhead
  opens : ∀ (ram ram' : SenderRam) (store store' : SenderStore) (script rest : List NvsReply) (packed : AsconBytes),
    pack ram store script = .returned packed ram' store' rest → packed.status = .ok →
      ∀ (mem : Mem) (data packetAt : Nat) (peerId : Byte) (receiver : ReceiverRam) (slot : Fin maxPeers)
        (counters : ReceiverStore) (replies : List NvsReply),
        mem.read packetAt packed.length = packed.data.take packed.length →
        packetAt + packed.length ≤ data ∨ data + secureMaxPacket ≤ packetAt →
        KnowsPeer receiver peerId slot ram.credential →
        ∃ opened receiver' counters' replies',
          asconSecureOpen mem data peerId (some packetAt) packed.length receiver counters (.ok :: .ok :: replies) =
            .returned opened receiver' counters' replies' ∧
          if (receiver.peers slot).hasAccepted = true ∧
              readCounterBE (mem.view packetAt) ≤ (receiver.peers slot).lastAccepted then
            opened = emptyResult .errReplay
          else opened.status = .ok ∧ opened.length = message.length ∧
            opened.data.take opened.length = message

/-- A payload apart from the local variable of `asconSecurePack` comes back. -/
theorem asconSecurePack_packsAndOpens (mem : Mem) {data payload payloadLength : Nat}
    (apart : payload + payloadLength ≤ data ∨ data + secureMaxPacket ≤ payload) :
    PacksAndOpens (asconSecurePack mem data (some payload) payloadLength) (mem.read payload payloadLength) where
  packs ram store rest canEmit fits := by
    rw [length_read] at fits
    exact exists_returned (asconSecurePack_succeeds mem data payload canEmit fits rest)
  length ram ram' store store' script rest packed ended succeeded := by
    rw [length_read]
    exact (wp_returned (asconSecurePack_ok mem apart) ended succeeded).2.1
  opens ram ram' store store' script rest packed ended succeeded mem' data' packetAt peerId receiver slot counters
      replies packetSame apart' knows := by
    obtain ⟨fits, length, counter, bytes⟩ := wp_returned (asconSecurePack_ok mem apart) ended succeeded
    rw [bytes, length] at packetSame
    rw [length] at apart' ⊢
    have len : (mem.read payload payloadLength).length = payloadLength := length_read _ _ _
    clear bytes ended apart
    generalize mem.read payload payloadLength = message at len packetSame ⊢
    subst len
    rw [readCounterBE_of_read packetSame]
    exact asconSecureOpen_receives knows fits packetSame apart' counters replies

/-- A receiver that knows the sender's key and prefix, and is given the bytes of the packet and of the header, returns
the payload of a packet, or the replay error when it has accepted the packet's counter or a later one. -/
theorem asconSecureWrap_unwraps {args : WrapArgs} {mem : Mem} {ram ram' : SenderRam} {store store' : SenderStore}
    {script rest : List NvsReply} {result : WrapResult}
    (ended : asconSecureWrap args mem ram store script = .returned result ram' store' rest)
    (succeeded : result.status = .ok) :
    ∃ payload packet, args.payload = some payload ∧ args.packet = some packet ∧
      result.packetLength = some (args.payloadLength + secureOverhead) ∧
      ∀ (unwrap : UnwrapArgs) (mem' : Mem) (receiver : ReceiverRam) (slot : Fin maxPeers)
        (packetAt payloadAt : Nat) (counters : ReceiverStore) (replies : List NvsReply),
        unwrap.Receives mem' receiver slot ram.credential
          (result.mem.read packet (args.payloadLength + secureOverhead))
          (mem.read (args.header.getD 0) args.headerLength) packetAt payloadAt →
        ∃ received receiver' counters' replies',
          asconSecureUnwrap unwrap mem' receiver counters (.ok :: .ok :: replies) =
            .returned received receiver' counters' replies' ∧
          if (receiver.peers slot).hasAccepted = true ∧
              readCounterBE (result.mem.view packet) ≤ (receiver.peers slot).lastAccepted then
            received.status = .errReplay
          else
            received.status = .ok ∧ received.payloadLength = some args.payloadLength ∧
              received.mem.read payloadAt args.payloadLength = mem.read payload args.payloadLength := by
  obtain ⟨payload, packet, counter, admissible, same⟩ :=
    wp_returned (asconSecureWrap_ok args mem) ended succeeded
  subst same
  refine ⟨payload, packet, admissible.payloadGiven, admissible.packetGiven,
    packetLength_wrapPacket _ _ _ _ _ _, ?_⟩
  intro unwrap mem' receiver slot packetAt payloadAt counters replies receives
  have sameCounter : readCounterBE ((wrapPacket args mem payload packet ram counter).mem.view packet) =
      counter := readCounterBE_sealPacket _ _ _ _ _ _ _ _ _
  have bytes := read_wrapPacket admissible mem ram counter
  have sameLength : unwrap.headerLength = args.headerLength :=
    receives.headerLength.trans (length_read _ _ _)
  have header : mem.read (args.header.getD 0) args.headerLength =
      (mem.view (args.header.getD 0)).read 0 unwrap.headerLength := by
    rw [read_view, sameLength, Nat.add_zero]
  rw [bytes, header, ← sameLength] at receives
  have fits : (mem.read payload args.payloadLength).length ≤ secureMaxPayload := by
    rw [length_read]
    exact admissible.payloadFits
  have received := asconSecureUnwrap_receives fits receives counters replies
  rw [sameCounter]
  by_cases replay : (receiver.peers slot).hasAccepted = true ∧
      counter ≤ (receiver.peers slot).lastAccepted
  · rw [if_pos replay] at received
    exact ⟨_, _, _, _, received, (if_pos replay).mpr rfl⟩
  · rw [if_neg replay] at received
    refine ⟨_, _, _, _, received, (if_neg replay).mpr ⟨rfl, ?_, ?_⟩⟩
    · exact congrArg some (length_read _ _ _)
    · have same := read_write_same mem' payloadAt (mem.read payload args.payloadLength)
      rwa [length_read] at same

/-- With working storage, a sender that can still emit wraps every payload that passes the checks. A packet is the
payload length plus 20 bytes. A receiver that knows the sender's key and prefix, and is given the bytes of the packet
and of the header, returns the payload, or the replay error when it has accepted the packet's counter or a later one.
So it is with `asconSecurePack`, of a payload and of a text, and `asconSecureOpen`. -/
theorem secure_round_trip :
    (∀ (args : WrapArgs) (mem : Mem) (payload packet : Nat) (ram : SenderRam) (store : SenderStore)
      (rest : List NvsReply), ram.CanEmit → args.Admissible payload packet →
        ∃ result ram' store' rest', asconSecureWrap args mem ram store (.ok :: .ok :: rest) =
          .returned result ram' store' rest' ∧ result.status = .ok) ∧
    (∀ (args : WrapArgs) (mem : Mem) (ram ram' : SenderRam) (store store' : SenderStore)
      (script rest : List NvsReply) (result : WrapResult),
      asconSecureWrap args mem ram store script = .returned result ram' store' rest →
        result.status = .ok →
          ∃ payload packet, args.payload = some payload ∧ args.packet = some packet ∧
            result.packetLength = some (args.payloadLength + secureOverhead) ∧
            ∀ (unwrap : UnwrapArgs) (mem' : Mem) (receiver : ReceiverRam) (slot : Fin maxPeers)
              (packetAt payloadAt : Nat) (counters : ReceiverStore) (replies : List NvsReply),
              unwrap.Receives mem' receiver slot ram.credential
                (result.mem.read packet (args.payloadLength + secureOverhead))
                (mem.read (args.header.getD 0) args.headerLength) packetAt payloadAt →
              ∃ received receiver' counters' replies',
                asconSecureUnwrap unwrap mem' receiver counters (.ok :: .ok :: replies) =
                  .returned received receiver' counters' replies' ∧
                if (receiver.peers slot).hasAccepted = true ∧
                    readCounterBE (result.mem.view packet) ≤ (receiver.peers slot).lastAccepted then
                  received.status = .errReplay
                else
                  received.status = .ok ∧ received.payloadLength = some args.payloadLength ∧
                    received.mem.read payloadAt args.payloadLength =
                      mem.read payload args.payloadLength) ∧
    (∀ (mem : Mem) (data payload payloadLength : Nat),
      payload + payloadLength ≤ data ∨ data + secureMaxPacket ≤ payload →
        PacksAndOpens (asconSecurePack mem data (some payload) payloadLength) (mem.read payload payloadLength)) ∧
    ∀ (mem : Mem) (data : Nat) (text : CString mem),
      text.start + text.length ≤ data ∨ data + secureMaxPacket ≤ text.start →
        PacksAndOpens (asconSecurePackText mem data (some text)) (mem.read text.start text.length) := by
  refine ⟨?_, ?_, ?_, ?_⟩
  · intro args mem payload packet ram store rest canEmit admissible
    apply exists_returned
    refine wp_mono (asconSecureWrap_succeeds canEmit admissible rest) ?_ fun _ => id
    rintro _ ram' store' rest' rfl
    rfl
  · exact fun _ _ _ _ _ _ _ _ _ ended succeeded => asconSecureWrap_unwraps ended succeeded
  · exact fun mem _ _ _ apart => asconSecurePack_packsAndOpens mem apart
  · exact fun mem _ _ apart => asconSecurePack_packsAndOpens mem apart

/-- A sender at the end of its reservation packs five bytes, and a receiver with its credential opens the packet. -/
theorem secure_round_trip_sends :
    ∃ packed ram' store' rest,
      asconSecurePack (fun _ => 1) 300 (some 0) 5 ⟨true, Vector.replicate _ 7, Vector.replicate _ 9, 64, 64⟩
          ⟨none, none, none, []⟩ [.ok, .ok] = .returned packed ram' store' rest ∧
      packed.status = .ok ∧ packed.length = 25 ∧
      ∃ opened receiver' counters' replies',
        asconSecureOpen (tablePtr (packed.data.take packed.length)) 300 3 (some 0) packed.length
            ⟨true, fun _ => ⟨true, 3, Vector.replicate _ 7, Vector.replicate _ 9, [], false, 0⟩⟩
            (fun _ => none) [.ok, .ok] = .returned opened receiver' counters' replies' ∧
        opened.status = .ok ∧ opened.data.take opened.length = [1, 1, 1, 1, 1] := by
  have trip := secure_round_trip.2.2.1 (fun _ => 1) 300 0 5 (Or.inl (by decide))
  obtain ⟨packed, ram', store', rest, ended, succeeded, room⟩ := trip.packs
    ⟨true, Vector.replicate _ 7, Vector.replicate _ 9, 64, 64⟩ ⟨none, none, none, []⟩ [] ⟨rfl, by decide⟩ (by decide)
  have length : packed.length = 25 := trip.length _ _ _ _ _ _ _ ended succeeded
  have taken : (packed.data.take packed.length).length = packed.length := by
    rw [List.length_take, room, length]
    rfl
  have packetSame : (tablePtr (packed.data.take packed.length)).read 0 packed.length =
      packed.data.take packed.length := by
    have same := read_getD (packed.data.take packed.length)
    rwa [taken] at same
  obtain ⟨opened, receiver', counters', replies', openedEnds, holds⟩ := trip.opens _ _ _ _ _ _ _ ended succeeded
    (tablePtr (packed.data.take packed.length)) 300 0 3
    ⟨true, fun _ => ⟨true, 3, Vector.replicate _ 7, Vector.replicate _ 9, [], false, 0⟩⟩ 0 (fun _ => none) []
    packetSame (Or.inl (by rw [length]; decide)) ⟨rfl, rfl, rfl, rfl⟩
  rw [if_neg (fun replay => absurd replay.1 Bool.false_ne_true)] at holds
  exact ⟨packed, ram', store', rest, ended, succeeded, length, opened, receiver', counters', replies', openedEnds,
    holds.1, holds.2.2⟩

end AsconSuite
