/-
Module: AsconSuite.Proofs.ReceiverRules
Layer: Proofs
Purpose: What the receiver's functions can do, and the lookups in its table of peers.
Imports: AsconSuite.Proofs.NvsRules, AsconSuite.Secure.Receptor
Trusted boundary: none
Main exports: findPeer_registerPeer, wp_asconSecureReceiverBegin, wp_asconSecureAddPeer, UnwrapArgs.Opens,
  wp_persistCounter, wp_asconSecureUnwrap
-/
import AsconSuite.Proofs.NvsRules
import AsconSuite.Secure.Receptor

namespace AsconSuite

open ByteWord ByteMemory CrashLogic

/-! ### The table of peers -/

/-- A peer that is found is in use and has the identifier. -/
theorem of_findPeer {peers : Fin maxPeers → Peer} {peerId : Byte} {slot : Fin maxPeers}
    (found : findPeer peers peerId = some slot) :
    (peers slot).used = true ∧ (peers slot).id = peerId := by
  have holds := List.find?_some found
  simpa only [Bool.and_eq_true, decide_eq_true_eq] using holds

/-- The only peer with an identifier is found. -/
theorem findPeer_of_unique {peers : Fin maxPeers → Peer} {peerId : Byte} {slot : Fin maxPeers}
    (used : (peers slot).used = true) (same : (peers slot).id = peerId)
    (unique : ∀ other, (peers other).used = true → (peers other).id = peerId → other = slot) :
    findPeer peers peerId = some slot := by
  cases found : findPeer peers peerId with
  | none =>
      have holds := List.find?_eq_none.1 found slot (List.mem_finRange slot)
      simp only [used, same, decide_true, Bool.and_self, not_true_eq_false] at holds
  | some other =>
      obtain ⟨otherUsed, otherSame⟩ := of_findPeer found
      rw [unique other otherUsed otherSame]

/-- The place that `addPeerImpl` gives to a peer. -/
def peerSlot (peers : Fin maxPeers → Peer) (peerId : Byte) : Option (Fin maxPeers) :=
  (findPeer peers peerId).or (freePeer peers)

/-- A peer that is registered is found again. -/
theorem findPeer_update {peers : Fin maxPeers → Peer} {peerId : Byte} {slot : Fin maxPeers}
    (place : peerSlot peers peerId = some slot) {peer : Peer} (used : peer.used = true)
    (same : peer.id = peerId) : findPeer (Function.update peers slot peer) peerId = some slot := by
  cases found : findPeer peers peerId with
  | some other =>
      -- the place was found under the identifier, so the search tests the same places as before
      rw [peerSlot, found, Option.some_or] at place
      rw [Option.some.inj place] at found
      obtain ⟨usedBefore, sameBefore⟩ := of_findPeer found
      have sameTest : (fun i => (Function.update peers slot peer i).used &&
            decide ((Function.update peers slot peer i).id = peerId)) =
          fun i => (peers i).used && decide ((peers i).id = peerId) := by
        funext i
        by_cases own : i = slot
        · rw [own, Function.update_self, used, same, usedBefore, sameBefore]
        · rw [Function.update_of_ne own]
      rw [findPeer, sameTest]
      exact found
  | none =>
      apply findPeer_of_unique
      · rw [Function.update_self]
        exact used
      · rw [Function.update_self]
        exact same
      · intro other otherUsed otherSame
        by_contra different
        rw [Function.update_of_ne different] at otherUsed otherSame
        have holds := List.find?_eq_none.1 found other (List.mem_finRange other)
        simp only [otherUsed, otherSame, decide_true, Bool.and_self, not_true_eq_false] at holds

/-! ### Registration -/

section Rules

variable {ram : ReceiverRam} {store : ReceiverStore} {script : List NvsReply}
  {lost : ReceiverStore → Prop}

theorem wp_asconSecureReceiverBegin
    {post : AsconSecureStatus → ReceiverRam → ReceiverStore → List NvsReply → Prop}
    (cut : lost store)
    (done : ∀ status ready rest, post status ⟨ready, fun _ => .zero⟩ store rest) :
    wp asconSecureReceiverBegin post lost ram store script := by
  simp only [asconSecureReceiverBegin, receiverBeginImpl, wp_bind, wp_modifyRam]
  apply wp_nvsBegin cut
  · exact done .errNvs false
  · exact fun rest _ => done .ok true rest

/-- The table with a peer registered in a place. -/
def ReceiverRam.register (ram : ReceiverRam) (slot : Fin maxPeers) (peerId : Byte) (key : Key)
    (noncePrefix : NoncePrefix) (hasAccepted : Bool) (lastAccepted : Counter) : ReceiverRam :=
  { ram with
    peers := Function.update ram.peers slot ⟨true, peerId, key, noncePrefix,
      keyFingerprint key noncePrefix, hasAccepted, lastAccepted⟩ }

theorem peers_register_self (ram : ReceiverRam) (slot : Fin maxPeers) (peerId : Byte) (key : Key)
    (noncePrefix : NoncePrefix) (hasAccepted : Bool) (lastAccepted : Counter) :
    (ram.register slot peerId key noncePrefix hasAccepted lastAccepted).peers slot =
      ⟨true, peerId, key, noncePrefix, keyFingerprint key noncePrefix, hasAccepted, lastAccepted⟩ := by
  simp only [ReceiverRam.register, Function.update_self]

theorem peers_register_of_ne {slot other : Fin maxPeers} (different : other ≠ slot)
    (ram : ReceiverRam) (peerId : Byte) (key : Key) (noncePrefix : NoncePrefix) (hasAccepted : Bool)
    (lastAccepted : Counter) :
    (ram.register slot peerId key noncePrefix hasAccepted lastAccepted).peers other =
      ram.peers other := by
  simp only [ReceiverRam.register, Function.update_of_ne different]

/-- The outcomes of `asconSecureAddPeer`: it refuses, it finds no stored counter, or it reads one. -/
theorem wp_asconSecureAddPeer {peerId : Byte} {key : Option Key} {noncePrefix : Option NoncePrefix}
    {post : AsconSecureStatus → ReceiverRam → ReceiverStore → List NvsReply → Prop}
    (cut : lost store) (refused : ∀ status, status ≠ .ok → ∀ rest, post status ram store rest)
    (unknown : ∀ key' noncePrefix' slot, key = some key' → noncePrefix = some noncePrefix' →
      ram.receiverReady = true → peerSlot ram.peers peerId = some slot →
      ∀ reply rest, script = .ok :: reply :: rest →
        (reply = .ok → store (counterKeyFor (keyFingerprint key' noncePrefix')) = none) →
        post .ok (ram.register slot peerId key' noncePrefix' false 0) store rest)
    (known : ∀ key' noncePrefix' slot, key = some key' → noncePrefix = some noncePrefix' →
      ram.receiverReady = true → peerSlot ram.peers peerId = some slot →
      ∀ stored reply rest, script = .ok :: .ok :: reply :: rest →
        store (counterKeyFor (keyFingerprint key' noncePrefix')) = some stored →
        post .ok (ram.register slot peerId key' noncePrefix' true (if reply = .ok then stored else 0))
          store rest) :
    wp (asconSecureAddPeer peerId key noncePrefix) post lost ram store script := by
  simp only [asconSecureAddPeer, addPeerImpl, wp_bind, wp_getRam]
  cases ready : ram.receiverReady with
  | false => exact refused .errNotReady (by decide) script
  | true =>
      simp only [Bool.not_true, Bool.false_eq_true, if_false]
      split
      · rename_i key' noncePrefix'
        cases place : (findPeer ram.peers peerId).or (freePeer ram.peers) with
        | none => exact refused .errFull (by decide) script
        | some slot =>
            simp only [wp_bind]
            apply wp_nvsBegin cut
            · exact refused .errNvs (by decide)
            intro replies opened
            simp only [Bool.not_true, Bool.false_eq_true, if_false, wp_bind]
            apply wp_nvsIsKey cut
            · intro reply rest answered notStored
              rw [answered] at opened
              simp only [Bool.false_eq_true, if_false, wp_bind, wp_pure, wp_modifyRam]
              refine unknown key' noncePrefix' slot rfl rfl ready place reply rest opened ?_
              intro success
              exact Option.isSome_eq_false_iff.1 (notStored success) |> Option.isNone_iff_eq_none.1
            · intro rest answered present
              rw [answered] at opened
              obtain ⟨stored, held⟩ := Option.isSome_iff_exists.1 present
              simp only [if_true, wp_bind]
              apply wp_nvsGetUInt cut
              · intro reply rest' read notHeld
                rw [read] at opened
                have failed : reply ≠ .ok := fun success => by
                  rw [notHeld success] at held
                  contradiction
                have registered := known key' noncePrefix' slot rfl rfl ready place stored reply rest'
                  opened held
                rw [if_neg failed] at registered
                exact registered
              · intro value rest' read sameEntry
                rw [read] at opened
                exact known key' noncePrefix' slot rfl rfl ready place value .ok rest' opened sameEntry
      · exact refused .errBuffer (by decide) script

/-- A call of `asconSecureAddPeer` that gets to the storage. -/
theorem asconSecureAddPeer_eq (ready : ram.receiverReady = true) {peerId : Byte} {slot : Fin maxPeers}
    (place : peerSlot ram.peers peerId = some slot) (key : Key) (noncePrefix : NoncePrefix)
    (store : ReceiverStore) (reply : NvsReply) (rest : List NvsReply) :
    asconSecureAddPeer peerId (some key) (some noncePrefix) ram store (.ok :: reply :: rest) =
      if reply = .ok ∧ (store (counterKeyFor (keyFingerprint key noncePrefix))).isSome = true then
        match rest with
        | [] => .powerLost store
        | value :: rest => .returned .ok (ram.register slot peerId key noncePrefix true
            (if value = .ok then (store (counterKeyFor (keyFingerprint key noncePrefix))).getD 0 else 0))
            store rest
      else .returned .ok (ram.register slot peerId key noncePrefix false 0) store rest := by
  rw [peerSlot] at place
  apply eq_of_wp
  simp only [asconSecureAddPeer, addPeerImpl, wp_bind, wp_getRam, ready, Bool.not_true,
    Bool.false_eq_true, if_false, place, nvsBegin, wp_ask_cons, decide_true, hasCounter, nvsIsKey]
  by_cases present : reply = .ok ∧ (store (counterKeyFor (keyFingerprint key noncePrefix))).isSome = true
  · have seen : (decide (reply = .ok) &&
        (store (counterKeyFor (keyFingerprint key noncePrefix))).isSome) = true := by
      rw [present.2, Bool.and_true, decide_eq_true present.1]
    rw [if_pos present, seen, if_pos rfl]
    cases rest with
    | nil => rfl
    | cons value rest => rfl
  · have unseen : (decide (reply = .ok) &&
        (store (counterKeyFor (keyFingerprint key noncePrefix))).isSome) = false := by
      rw [← Bool.not_eq_true, Bool.and_eq_true, decide_eq_true_eq]
      exact present
    rw [if_neg present, unseen]
    rfl

/-! ### Unwrapping -/

/-- The outcomes of `persisted`. -/
theorem wp_persistCounter {counterKey : List Char} {counter : Counter}
    {post : Bool → ReceiverRam → ReceiverStore → List NvsReply → Prop} (cut : lost store)
    (refused : ∀ rest, post false ram store rest)
    (unreported : ∀ rest, post false ram (Function.update store counterKey (some counter)) rest)
    (written : ∀ rest, script = .ok :: .ok :: rest →
      post true ram (Function.update store counterKey (some counter)) rest) :
    wp (persistCounter counterKey counter) post lost ram store script := by
  simp only [persistCounter, wp_bind]
  apply wp_nvsBegin cut
  · exact refused
  intro replies opened
  simp only [Bool.not_true, Bool.false_eq_true, if_false]
  apply wp_nvsPut cut
  · exact refused
  · exact unreported
  · intro rest reported
    rw [reported] at opened
    exact written rest opened

/-- What a call of `asconSecureUnwrap` has passed when the tag is right. -/
structure UnwrapArgs.Opens (args : UnwrapArgs) (mem : Mem) (ram : ReceiverRam) (packet payload : Nat)
    (slot : Fin maxPeers) (message : List Byte) : Prop where
  ready : ram.receiverReady = true
  packetGiven : args.packet = some packet
  payloadGiven : args.payload = some payload
  lengthGiven : args.payloadLengthGiven = true
  headerGiven : args.header = none → args.headerLength = 0
  peerFound : findPeer ram.peers args.peerId = some slot
  packetLong : secureOverhead ≤ args.packetLength
  packetFits : args.packetLength - secureOverhead ≤ secureMaxPayload
  payloadFits : args.packetLength - secureOverhead ≤ args.payloadCapacity
  opened : openPacket (ram.peers slot) mem packet args.packetLength (args.header.getD 0)
    args.headerLength = some message

/-- The receiver after it has accepted a counter for a fingerprint. -/
def ReceiverRam.accept (ram : ReceiverRam) (fingerprint : List Byte) (counter : Counter) :
    ReceiverRam :=
  { ram with peers := acceptCounter ram.peers fingerprint counter }

/-- Either a peer has the fingerprint and moves on, or it stays as it is. -/
theorem peers_accept (ram : ReceiverRam) (fingerprint : List Byte) (counter : Counter)
    (slot : Fin maxPeers) :
    ((ram.peers slot).used = true ∧ (ram.peers slot).fingerprint = fingerprint ∧
      (ram.accept fingerprint counter).peers slot =
        { ram.peers slot with hasAccepted := true, lastAccepted := counter }) ∨
    (¬ ((ram.peers slot).used = true ∧ (ram.peers slot).fingerprint = fingerprint) ∧
      (ram.accept fingerprint counter).peers slot = ram.peers slot) := by
  by_cases moves : (ram.peers slot).used = true ∧ (ram.peers slot).fingerprint = fingerprint
  · refine Or.inl ⟨moves.1, moves.2, ?_⟩
    exact if_pos moves
  · refine Or.inr ⟨moves, ?_⟩
    exact if_neg moves

/-- An accepted counter changes neither the peers nor their identifiers. -/
theorem findPeer_accept (ram : ReceiverRam) (fingerprint : List Byte) (counter : Counter)
    (peerId : Byte) : findPeer (ram.accept fingerprint counter).peers peerId = findPeer ram.peers peerId := by
  have sameTest : (fun slot => ((ram.accept fingerprint counter).peers slot).used &&
        decide (((ram.accept fingerprint counter).peers slot).id = peerId)) =
      fun slot => (ram.peers slot).used && decide ((ram.peers slot).id = peerId) := by
    funext slot
    rcases peers_accept ram fingerprint counter slot with ⟨_, _, moved⟩ | ⟨_, stayed⟩
    · rw [moved]
    · rw [stayed]
  rw [findPeer, sameTest]
  rfl

/-- The end of `asconSecureUnwrap`: the replay test, the write to the storage, and the delivery. -/
theorem wp_asconSecureUnwrap_opens {args : UnwrapArgs} {mem : Mem} {packet payload : Nat}
    {slot : Fin maxPeers} {message : List Byte}
    {post : UnwrapResult → ReceiverRam → ReceiverStore → List NvsReply → Prop}
    (opens : args.Opens mem ram packet payload slot message) :
    wp (asconSecureUnwrap args mem) post lost ram store script ↔
      if (ram.peers slot).hasAccepted = true ∧
          readCounterBE (mem.view packet) ≤ (ram.peers slot).lastAccepted then
        post ⟨.errReplay, mem, some 0⟩ ram store script
      else
        wp (persistCounter (counterKeyFor (ram.peers slot).fingerprint)
            (readCounterBE (mem.view packet)))
          (fun persisted ram' store rest =>
            if persisted then
              post ⟨.ok, mem.write payload message, some message.length⟩
                (ram'.accept (ram.peers slot).fingerprint (readCounterBE (mem.view packet))) store rest
            else post ⟨.errNvs, mem, some 0⟩ ram' store rest) lost ram store script := by
  have headerPresent : ¬ (args.header = none ∧ 0 < args.headerLength) := by
    rintro ⟨missing, positive⟩
    exact absurd (opens.headerGiven missing) (Nat.ne_of_gt positive)
  have lengthGood : ¬ (args.packetLength < secureOverhead ∨
      secureMaxPayload < args.packetLength - secureOverhead) := by
    rintro (short | long)
    · exact absurd opens.packetLong (Nat.not_le.2 short)
    · exact absurd opens.packetFits (Nat.not_le.2 long)
  have capacityGood : ¬ args.payloadCapacity < args.packetLength - secureOverhead :=
    Nat.not_lt.2 opens.payloadFits
  simp only [asconSecureUnwrap, wp_bind, wp_getRam, opens.ready, Bool.not_true, Bool.false_eq_true,
    if_false, opens.packetGiven, opens.payloadGiven, opens.lengthGiven, headerPresent,
    opens.peerFound, lengthGood, capacityGood, opens.opened, if_true]
  by_cases replay : (ram.peers slot).hasAccepted = true ∧
      readCounterBE (mem.view packet) ≤ (ram.peers slot).lastAccepted
  · rw [if_pos replay, if_pos replay, wp_pure]
  · rw [if_neg replay, if_neg replay, wp_bind]
    refine iff_of_eq (congrArg (fun delivers => wp _ delivers lost ram store script) ?_)
    funext persisted ram' store' rest
    cases persisted <;> rfl

/-- The outcomes of `asconSecureUnwrap`: it refuses, or it goes on to the write to the storage. -/
theorem wp_asconSecureUnwrap {args : UnwrapArgs} {mem : Mem}
    {post : UnwrapResult → ReceiverRam → ReceiverStore → List NvsReply → Prop}
    (refused : ∀ status, status ≠ .ok → status ≠ .errNvs →
      post ⟨status, mem, if args.payloadLengthGiven then some 0 else none⟩ ram store script)
    (goesOn : ∀ packet payload slot message, args.Opens mem ram packet payload slot message →
      ¬ ((ram.peers slot).hasAccepted = true ∧
        readCounterBE (mem.view packet) ≤ (ram.peers slot).lastAccepted) →
      wp (persistCounter (counterKeyFor (ram.peers slot).fingerprint)
          (readCounterBE (mem.view packet)))
        (fun persisted ram' store rest =>
          if persisted then
            post ⟨.ok, mem.write payload message, some message.length⟩
              (ram'.accept (ram.peers slot).fingerprint (readCounterBE (mem.view packet))) store rest
          else post ⟨.errNvs, mem, some 0⟩ ram' store rest) lost ram store script) :
    wp (asconSecureUnwrap args mem) post lost ram store script := by
  by_cases opening : ∃ packet payload slot message, args.Opens mem ram packet payload slot message
  · obtain ⟨packet, payload, slot, message, opens⟩ := opening
    rw [wp_asconSecureUnwrap_opens opens]
    split
    · have replayed := refused .errReplay (by decide) (by decide)
      rwa [opens.lengthGiven, if_pos rfl] at replayed
    · rename_i fresh
      exact goesOn packet payload slot message opens fresh
  · simp only [asconSecureUnwrap, wp_bind, wp_getRam]
    cases ready : ram.receiverReady with
    | false => exact refused .errNotReady (by decide) (by decide)
    | true =>
        simp only [Bool.not_true, Bool.false_eq_true, if_false]
        split
        · rename_i packet payload packetGiven payloadGiven lengthGiven
          by_cases headerMissing : args.header = none ∧ 0 < args.headerLength
          · rw [if_pos headerMissing]
            exact refused .errBuffer (by decide) (by decide)
          rw [if_neg headerMissing]
          cases peerFound : findPeer ram.peers args.peerId with
          | none => exact refused .errPeer (by decide) (by decide)
          | some slot =>
              by_cases badLength : args.packetLength < secureOverhead ∨
                  secureMaxPayload < args.packetLength - secureOverhead
              · simp only [if_pos badLength]
                exact refused .errBuffer (by decide) (by decide)
              by_cases small : args.payloadCapacity < args.packetLength - secureOverhead
              · simp only [if_neg badLength, if_pos small]
                exact refused .errBuffer (by decide) (by decide)
              simp only [if_neg badLength, if_neg small]
              cases opened : openPacket (ram.peers slot) mem packet args.packetLength
                  (args.header.getD 0) args.headerLength with
              | none => exact refused .errAuth (by decide) (by decide)
              | some message =>
                  obtain ⟨notShort, notLong⟩ := not_or.1 badLength
                  refine absurd ⟨packet, payload, slot, message, ?_⟩ opening
                  exact {
                    ready, packetGiven, payloadGiven, lengthGiven, peerFound, opened
                    headerGiven := fun missing => Nat.eq_zero_of_not_pos fun positive =>
                      headerMissing ⟨missing, positive⟩
                    packetLong := Nat.not_lt.1 notShort
                    packetFits := Nat.not_lt.1 notLong
                    payloadFits := Nat.not_lt.1 small }
        · exact refused .errBuffer (by decide) (by decide)

end Rules

end AsconSuite
