/-
Module: AsconSuite.Proofs.SenderRuns
Layer: Proofs
Purpose: The invariant of the sender. It ties the counter and the reservation in memory, the reservation in
  the storage and the nonces used so far, and every call keeps it, also when the power is lost inside of it.
Imports: AsconSuite.Base.Ledger, AsconSuite.Proofs.SenderRules, AsconSuite.Secure.SenderNode
Trusted boundary: none
Main exports: SenderInvariant, SenderCall.preserves, sender_nonces_never_repeat
-/
import AsconSuite.Base.Ledger
import AsconSuite.Proofs.SenderRules
import AsconSuite.Secure.SenderNode

namespace AsconSuite

open ByteWord ByteMemory CrashLogic Ledger

/-- Every use of the credential has a number below the bound. -/
abbrev UsedBelow (used : List MessageNonce) (credential : Credential) (bound : Nat) : Prop :=
  Below MessageNonce.credential MessageNonce.number used credential bound

/-- The invariant of the sender. -/
structure SenderInvariant (ram : SenderRam) (store : SenderStore) (used : List MessageNonce) :
    Prop where
  usedDrawn : ∀ nonce ∈ used, nonce.credential.noncePrefix ∈ store.drawnPrefixes
  ramDrawn : ram.senderReady = true → ram.senderPrefix ∈ store.drawnPrefixes
  storeDrawn : ∀ noncePrefix, store.prefixEntry = some noncePrefix →
    noncePrefix ∈ store.drawnPrefixes
  ascending : Ascending MessageNonce.credential MessageNonce.number used
  nextAbove : ram.senderReady = true → UsedBelow used ram.credential ram.senderCounter.toNat
  storedAbove : ∀ credential, store.Holds credential → ∀ reserved,
    store.reservedEntry = some reserved → counterWindow ≤ reserved →
      UsedBelow used credential reserved.toNat
  reservedStored : ram.senderReady = true → store.Holds ram.credential → ∀ reserved,
    store.reservedEntry = some reserved → counterWindow ≤ reserved → ram.senderReserved ≤ reserved
  othersUnused : ram.senderReady = true → ∀ credential, store.Holds credential →
    credential ≠ ram.credential → ∀ nonce ∈ used, nonce.credential ≠ credential

namespace SenderInvariant

variable {ram : SenderRam} {store : SenderStore} {used : List MessageNonce}

/-- A sender that is not ready can be anything. -/
theorem off (holds : SenderInvariant ram store used) {ram' : SenderRam}
    (off : ram'.senderReady = false) : SenderInvariant ram' store used where
  usedDrawn := holds.usedDrawn
  ramDrawn on := by rw [off] at on; contradiction
  storeDrawn := holds.storeDrawn
  ascending := holds.ascending
  nextAbove on := by rw [off] at on; contradiction
  storedAbove := holds.storedAbove
  reservedStored on := by rw [off] at on; contradiction
  othersUnused on := by rw [off] at on; contradiction

/-- The end of `loadSenderState`: the sender starts from what is stored. -/
theorem load (holds : SenderInvariant ram store used) {credential : Credential}
    (held : store.Holds credential) {reserved : Counter}
    (stored : store.reservedEntry = some reserved) (accepted : counterWindow ≤ reserved) :
    SenderInvariant ⟨true, credential.key, credential.noncePrefix, reserved, reserved⟩ store
      used where
  usedDrawn := holds.usedDrawn
  ramDrawn _ := holds.storeDrawn _ held.2
  storeDrawn := holds.storeDrawn
  ascending := holds.ascending
  nextAbove _ := holds.storedAbove credential held reserved stored accepted
  storedAbove := holds.storedAbove
  reservedStored _ _ other same _ := by
    rw [stored] at same
    rw [Option.some.inj same]
    exact BitVec.le_refl _
  othersUnused _ other otherHeld different := by
    have sameKey : credential.key = other.key := Option.some.inj (held.1.symm.trans otherHeld.1)
    have samePrefix : credential.noncePrefix = other.noncePrefix :=
      Option.some.inj (held.2.symm.trans otherHeld.2)
    cases other with
    | mk key noncePrefix =>
        subst sameKey samePrefix
        exact absurd rfl different

/-- A new prefix in the storage, whatever key and reservation lie next to it. -/
theorem freshPrefix (holds : SenderInvariant ram store used) {noncePrefix : NoncePrefix}
    (drawn : noncePrefix ∈ store.drawnPrefixes)
    (unused : ∀ nonce ∈ used, nonce.credential.noncePrefix ≠ noncePrefix)
    (notLoaded : ram.senderReady = true → ram.senderPrefix ≠ noncePrefix) (keyEntry : Option Key)
    (reservedEntry : Option Counter) :
    SenderInvariant ram ⟨keyEntry, some noncePrefix, reservedEntry, store.drawnPrefixes⟩ used where
  usedDrawn := holds.usedDrawn
  ramDrawn := holds.ramDrawn
  storeDrawn other stored := by
    rw [← Option.some.inj stored]
    exact drawn
  ascending := holds.ascending
  nextAbove := holds.nextAbove
  storedAbove credential held _ _ _ := by
    apply below_of_forall_ne
    intro nonce member same
    rw [← same] at held
    exact unused nonce member (Option.some.inj held.2).symm
  reservedStored on held _ _ _ := absurd (Option.some.inj held.2).symm (notLoaded on)
  othersUnused _ credential held _ nonce member same := by
    rw [← same] at held
    exact unused nonce member (Option.some.inj held.2).symm

/-- Entries that a `clear` removes. -/
theorem clear (holds : SenderInvariant ram store used) (keyKept prefixKept reservedKept : Bool) :
    SenderInvariant ram
      ⟨if keyKept then store.keyEntry else none, if prefixKept then store.prefixEntry else none,
        if reservedKept then store.reservedEntry else none, store.drawnPrefixes⟩ used := by
  have heldBefore : ∀ credential, SenderStore.Holds
      ⟨if keyKept then store.keyEntry else none, if prefixKept then store.prefixEntry else none,
        if reservedKept then store.reservedEntry else none, store.drawnPrefixes⟩ credential →
      store.Holds credential := by
    rintro credential ⟨keyHeld, prefixHeld⟩
    constructor
    · cases keyKept with
      | false => contradiction
      | true => exact keyHeld
    · cases prefixKept with
      | false => contradiction
      | true => exact prefixHeld
  have storedBefore : ∀ reserved, (if reservedKept then store.reservedEntry else none) =
      some reserved → store.reservedEntry = some reserved := by
    intro reserved stored
    cases reservedKept with
    | false => contradiction
    | true => exact stored
  exact {
    usedDrawn := holds.usedDrawn
    ramDrawn := holds.ramDrawn
    storeDrawn := by
      intro noncePrefix stored
      cases prefixKept with
      | false => contradiction
      | true => exact holds.storeDrawn noncePrefix stored
    ascending := holds.ascending
    nextAbove := holds.nextAbove
    storedAbove := fun credential held reserved stored =>
      holds.storedAbove credential (heldBefore _ held) reserved (storedBefore _ stored)
    reservedStored := fun on held reserved stored =>
      holds.reservedStored on (heldBefore _ held) reserved (storedBefore _ stored)
    othersUnused := fun on credential held =>
      holds.othersUnused on credential (heldBefore _ held) }

/-- The reservation of the next counters reaches the storage. -/
theorem reserve (holds : SenderInvariant ram store used) (on : ram.senderReady = true)
    (below : ram.senderCounter < counterLimit) (consumed : ram.senderReserved ≤ ram.senderCounter) :
    SenderInvariant ram (store.withReservation ram.senderCounter) used where
  usedDrawn := holds.usedDrawn
  ramDrawn := holds.ramDrawn
  storeDrawn := holds.storeDrawn
  ascending := holds.ascending
  nextAbove := holds.nextAbove
  storedAbove credential held reserved stored _ := by
    by_cases own : credential = ram.credential
    · rw [own, ← Option.some.inj stored, toNat_add_counterWindow below]
      exact (holds.nextAbove on).mono (Nat.le_add_right _ _)
    · exact below_of_forall_ne (holds.othersUnused on credential held own)
  reservedStored _ _ reserved stored _ := by
    rw [← Option.some.inj stored]
    rw [BitVec.le_def] at consumed ⊢
    rw [toNat_add_counterWindow below]
    exact consumed.trans (Nat.le_add_right _ _)
  othersUnused := holds.othersUnused

/-- The stored reservation is taken over into memory. -/
theorem merge (holds : SenderInvariant ram store used) {reservation : Counter}
    (stored : store.reservedEntry = some reservation) :
    SenderInvariant { ram with senderReserved := reservation } store used where
  usedDrawn := holds.usedDrawn
  ramDrawn := holds.ramDrawn
  storeDrawn := holds.storeDrawn
  ascending := holds.ascending
  nextAbove := holds.nextAbove
  storedAbove := holds.storedAbove
  reservedStored _ _ reserved same _ := by
    rw [stored] at same
    rw [Option.some.inj same]
    exact BitVec.le_refl _
  othersUnused := holds.othersUnused

/-- A counter is taken and used. -/
theorem allocate (holds : SenderInvariant ram store used) (on : ram.senderReady = true)
    (below : ram.senderCounter < counterLimit)
    (available : ram.senderCounter < ram.senderReserved) :
    SenderInvariant { ram with senderCounter := ram.senderCounter + 1 } store
      (used ++ [⟨ram.credential, ram.senderCounter⟩]) where
  usedDrawn nonce member := by
    rcases List.mem_append.1 member with old | new
    · exact holds.usedDrawn nonce old
    · rw [List.mem_singleton.1 new]
      exact holds.ramDrawn on
  ramDrawn := holds.ramDrawn
  storeDrawn := holds.storeDrawn
  ascending := ascending_append holds.ascending (holds.nextAbove on)
  nextAbove _ := by
    change Below _ _ _ ram.credential (ram.senderCounter + 1).toNat
    rw [toNat_add_one below]
    apply Below.append
    · exact (holds.nextAbove on).mono (Nat.le_succ _)
    · exact fun _ => Nat.lt_succ_self _
  storedAbove credential held reserved stored accepted := by
    apply Below.append
    · exact holds.storedAbove credential held reserved stored accepted
    · intro own
      rw [← own] at held
      exact Nat.lt_of_lt_of_le available (holds.reservedStored on held reserved stored accepted)
  reservedStored := holds.reservedStored
  othersUnused _ credential held different nonce member := by
    rcases List.mem_append.1 member with old | new
    · exact holds.othersUnused on credential held different nonce old
    · rw [List.mem_singleton.1 new]
      exact Ne.symm different

end SenderInvariant

/-- The invariant, under the assumption that the generator has not given a prefix twice. -/
def SenderSafe (ram : SenderRam) (store : SenderStore) (used : List MessageNonce) : Prop :=
  store.drawnPrefixes.Nodup → SenderInvariant ram store used

section Programs

variable {ram : SenderRam} {store : SenderStore} {used : List MessageNonce} {script : List NvsReply}

/-- What a power loss has to leave. -/
abbrev SafeOff (used : List MessageNonce) (store : SenderStore) : Prop :=
  SenderSafe .initial store used

theorem SenderSafe.off (safe : SenderSafe ram store used) {ram' : SenderRam}
    (off : ram'.senderReady = false) : SenderSafe ram' store used :=
  fun distinct => (safe distinct).off off

theorem loadSenderState_safe (safe : SenderSafe ram store used) :
    wp loadSenderState (fun _ ram store _ => SenderSafe ram store used) (SafeOff used) ram store
      script := by
  apply wp_loadSenderState (safe.off rfl)
  · intro status _ ram' off rest
    exact safe.off off
  · intro key noncePrefix reserved rest keyHeld prefixHeld stored accepted distinct
    have held : store.Holds ⟨key, noncePrefix⟩ := ⟨keyHeld, prefixHeld⟩
    exact (safe distinct).load held stored accepted

/-- A call that fails uses no nonce. -/
theorem emittedNonces_failed (safe : SenderSafe ram store used) {status : AsconSecureStatus}
    (failed : status ≠ .ok) (args : WrapArgs) (mem : Mem) (packetLength : Option Nat) :
    wp (emittedNonces args ⟨status, mem, packetLength⟩)
      (fun given ram store _ => SenderSafe ram store (used ++ given)) (SafeOff used) ram store
      script := by
  simp only [emittedNonces, wp_bind, wp_getRam, if_neg failed, wp_pure, List.append_nil]
  exact safe

/-- A packet uses the counter that it was built from. -/
theorem emittedNonces_wrapPacket {args : WrapArgs} {payload packet : Nat} {counter : Counter}
    (packetGiven : args.packet = some packet)
    (safe : SenderSafe ram store (used ++ [⟨ram.credential, counter⟩])) (mem : Mem) :
    wp (emittedNonces args (wrapPacket args mem payload packet ram counter))
      (fun given ram store _ => SenderSafe ram store (used ++ given)) (SafeOff used) ram store
      script := by
  simp only [emittedNonces, wp_bind, wp_getRam, wrapPacket, if_true, packetGiven, Option.getD_some,
    readCounterBE_sealPacket, wp_pure]
  exact safe

theorem asconSecureWrap_safe (safe : SenderSafe ram store used) (args : WrapArgs) (mem : Mem) :
    wp (SenderCall.program (.wrap args mem))
      (fun given ram store _ => SenderSafe ram store (used ++ given)) (SafeOff used) ram store
      script := by
  have lost : SafeOff used store := safe.off rfl
  simp only [SenderCall.program, wp_bind]
  apply wp_asconSecureWrap
  · intro status notOk
    exact emittedNonces_failed safe notOk args _ _
  intro ready payload packet admissible
  apply wp_takeCounter lost
  · intro _
    exact emittedNonces_failed safe (by decide) args _ _
  · intro _ _ rest
    exact emittedNonces_failed safe (by decide) args _ _
  · intro below consumed rest
    have reserved : SenderSafe ram (store.withReservation ram.senderCounter) used :=
      fun distinct => (safe distinct).reserve ready below consumed
    exact emittedNonces_failed reserved (by decide) args _ _
  · intro below consumed rest
    apply emittedNonces_wrapPacket admissible.packetGiven
    intro distinct
    have reserved := (safe distinct).reserve ready below consumed
    have merged := reserved.merge rfl
    exact merged.allocate ready below (lt_add_counterWindow below)
  · intro below remaining
    apply emittedNonces_wrapPacket admissible.packetGiven
    intro distinct
    exact (safe distinct).allocate ready below remaining

/-- What holds while new material is written: its prefix is nowhere else. -/
structure FreshPrefix (ram : SenderRam) (store : SenderStore) (used : List MessageNonce)
    (noncePrefix : NoncePrefix) : Prop where
  invariant : SenderInvariant ram store used
  drawn : noncePrefix ∈ store.drawnPrefixes
  unused : ∀ nonce ∈ used, nonce.credential.noncePrefix ≠ noncePrefix
  notLoaded : ram.senderReady = true → ram.senderPrefix ≠ noncePrefix

/-- A prefix that the generator has just given is new. -/
theorem SenderInvariant.draw (holds : SenderInvariant ram store used) {noncePrefix : NoncePrefix}
    (new : noncePrefix ∉ store.drawnPrefixes) :
    FreshPrefix ram { store with drawnPrefixes := store.drawnPrefixes ++ [noncePrefix] } used
      noncePrefix where
  invariant := {
    usedDrawn := fun nonce member => List.mem_append_left _ (holds.usedDrawn nonce member)
    ramDrawn := fun on => List.mem_append_left _ (holds.ramDrawn on)
    storeDrawn := fun other stored => List.mem_append_left _ (holds.storeDrawn other stored)
    ascending := holds.ascending
    nextAbove := holds.nextAbove
    storedAbove := holds.storedAbove
    reservedStored := holds.reservedStored
    othersUnused := holds.othersUnused }
  drawn := List.mem_append_right _ (List.mem_singleton_self _)
  unused nonce member same := new (same ▸ holds.usedDrawn nonce member)
  notLoaded on same := new (same ▸ holds.ramDrawn on)

/-- The fresh prefix is stored, next to any key and reservation. -/
theorem FreshPrefix.put {noncePrefix : NoncePrefix} (fresh : FreshPrefix ram store used noncePrefix)
    (keyEntry : Option Key) (reservedEntry : Option Counter) :
    FreshPrefix ram ⟨keyEntry, some noncePrefix, reservedEntry, store.drawnPrefixes⟩ used
      noncePrefix where
  invariant := fresh.invariant.freshPrefix fresh.drawn fresh.unused fresh.notLoaded _ _
  drawn := fresh.drawn
  unused := fresh.unused
  notLoaded := fresh.notLoaded

/-- The material of a provisioning is written piece by piece. -/
theorem writeMaterial_safe (safe : SenderSafe ram store used) (key : Key) {noncePrefix : NoncePrefix}
    (fresh : store.drawnPrefixes.Nodup → FreshPrefix ram store used noncePrefix) :
    wp (writeMaterial key noncePrefix) (fun _ ram store _ => SenderSafe ram store used)
      (SafeOff used) ram store script := by
  have written : ∀ keyEntry reservedEntry, SenderSafe ram
      ⟨keyEntry, some noncePrefix, reservedEntry, store.drawnPrefixes⟩ used :=
    fun keyEntry reservedEntry distinct => ((fresh distinct).put keyEntry reservedEntry).invariant
  have lost : SafeOff used store := safe.off rfl
  have lostWritten : ∀ keyEntry reservedEntry, SafeOff used
      ⟨keyEntry, some noncePrefix, reservedEntry, store.drawnPrefixes⟩ :=
    fun keyEntry reservedEntry => (written keyEntry reservedEntry).off rfl
  simp only [writeMaterial, wp_bind]
  apply wp_nvsPut lost
  · exact fun _ => safe
  · exact fun _ => written _ _
  intro rest _
  simp only [Bool.not_true, Bool.false_eq_true, if_false, wp_bind]
  apply wp_nvsPut (lostWritten _ _)
  · exact fun _ => written _ _
  · exact fun _ => written _ _
  intro rest _
  simp only [Bool.not_true, Bool.false_eq_true, if_false]
  apply wp_nvsPut (lostWritten _ _)
  · exact fun _ => written _ _
  · exact fun _ => written _ _
  · exact fun _ _ => written _ _

theorem asconSecureProvision_safe (safe : SenderSafe ram store used) :
    wp asconSecureProvision (fun _ ram store _ => SenderSafe ram store used) (SafeOff used) ram store
      script := by
  have lost : SafeOff used store := safe.off rfl
  simp only [asconSecureProvision, provisionImpl, wp_bind]
  apply wp_nvsBegin lost
  · exact fun _ => safe
  intro rest _
  simp only [Bool.not_true, Bool.false_eq_true, if_false, wp_bind]
  apply wp_nvsIsKey lost
  · -- there is no key, or it could not be read: new material is drawn
    intro _ rest _ _
    simp only [Bool.not_false, if_true, wp_bind]
    apply wp_ask lost
    intro reply rest _
    cases reply with
    | drawn key noncePrefix =>
        have fresh : (store.drawnPrefixes ++ [noncePrefix]).Nodup → FreshPrefix ram
            { store with drawnPrefixes := store.drawnPrefixes ++ [noncePrefix] } used
            noncePrefix := by
          intro distinct
          obtain ⟨distinctBefore, _, apart⟩ := List.nodup_append.1 distinct
          have new : noncePrefix ∉ store.drawnPrefixes := fun member =>
            apart noncePrefix member noncePrefix (List.mem_singleton_self _) rfl
          exact (safe distinctBefore).draw new
        simp only [wp_bind]
        refine wp_mono (writeMaterial_safe (fun distinct => (fresh distinct).invariant) key fresh) ?_
          fun _ => id
        intro written ram store rest safe
        cases written with
        | false => exact safe
        | true => exact loadSenderState_safe safe
    | ok => exact safe
    | fail => exact safe
    | failWritten => exact safe
    | failCleared keyKept prefixKept reservedKept => exact safe
  · intro rest _ _
    exact loadSenderState_safe safe

theorem asconSecureFactoryReset_safe (safe : SenderSafe ram store used) :
    wp asconSecureFactoryReset (fun _ ram store _ => SenderSafe ram store used) (SafeOff used) ram
      store script := by
  have lost : SafeOff used store := safe.off rfl
  simp only [asconSecureFactoryReset, factoryResetImpl, wp_bind]
  apply wp_nvsBegin lost
  · exact fun _ => safe
  intro rest _
  simp only [Bool.not_true, Bool.false_eq_true, if_false, wp_bind]
  apply wp_ask lost
  intro reply rest _
  have cleared : ∀ keyKept prefixKept reservedKept : Bool, SenderSafe ram
      ⟨if keyKept then store.keyEntry else none, if prefixKept then store.prefixEntry else none,
        if reservedKept then store.reservedEntry else none, store.drawnPrefixes⟩ used :=
    fun keyKept prefixKept reservedKept distinct =>
      (safe distinct).clear keyKept prefixKept reservedKept
  cases reply with
  | ok => exact (cleared false false false).off rfl
  | failCleared keyKept prefixKept reservedKept => exact cleared keyKept prefixKept reservedKept
  | fail => exact safe
  | failWritten => exact safe
  | drawn key noncePrefix => exact safe

end Programs

/-- Every call keeps the invariant. -/
theorem SenderCall.preserves (call : SenderCall) {world : SenderWorld} (script : List NvsReply)
    (safe : SenderSafe world.ram world.store world.log) :
    senderNode.Preserves SenderSafe call world script := by
  cases call with
  | provision => exact Node.preserves_silently rfl (asconSecureProvision_safe safe)
  | begin => exact Node.preserves_silently rfl (loadSenderState_safe safe)
  | factoryReset => exact Node.preserves_silently rfl (asconSecureFactoryReset_safe safe)
  | wrap args mem => exact asconSecureWrap_safe safe args mem

/-- A node that is switched on has not used anything. -/
theorem senderStart_safe (keyEntry : Option Key) (prefixEntry : Option NoncePrefix)
    (reservedEntry : Option Counter) :
    SenderSafe (senderStart keyEntry prefixEntry reservedEntry).ram
      (senderStart keyEntry prefixEntry reservedEntry).store
      (senderStart keyEntry prefixEntry reservedEntry).log := by
  intro distinct
  exact {
    usedDrawn := fun nonce member => absurd member List.not_mem_nil
    ramDrawn := fun on => nomatch on
    storeDrawn := fun noncePrefix stored => Option.mem_toList.2 stored
    ascending := ascending_nil
    nextAbove := fun on => nomatch on
    storedAbove := fun credential _ reserved _ _ => below_nil credential reserved.toNat
    reservedStored := fun on => nomatch on
    othersUnused := fun on => nomatch on }

/-- The invariant holds after every run. -/
theorem senderAfter_safe (keyEntry : Option Key) (prefixEntry : Option NoncePrefix)
    (reservedEntry : Option Counter) (events : List SenderEvent) {world : SenderWorld}
    (reached : senderNode.after (senderStart keyEntry prefixEntry reservedEntry) events = world) :
    SenderSafe world.ram world.store world.log := by
  have calls : ∀ (world : SenderWorld) (call : SenderCall) (script : List NvsReply),
      SenderSafe world.ram world.store world.log → True →
        senderNode.Preserves SenderSafe call world script :=
    fun world call script safe _ => call.preserves script safe
  have loss : ∀ ram store log, SenderSafe ram store log → SenderSafe .initial store log :=
    fun ram store log safe => safe.off rfl
  rw [← reached]
  exact Node.invariant_after calls loss (senderStart_safe keyEntry prefixEntry reservedEntry)
    (Runs.along_of_forall fun _ _ _ => trivial)

/-- Over any run of a sender, with failing storage and losses of power, no nonce is used twice, the
counters of a credential increase, and a reservation that `asconSecureBegin` would accept lies above every
counter used under the stored credential. -/
theorem sender_nonces_never_repeat (keyEntry : Option Key) (prefixEntry : Option NoncePrefix)
    (reservedEntry : Option Counter) (events : List SenderEvent)
    (distinct : (senderNode.after (senderStart keyEntry prefixEntry reservedEntry)
      events).store.drawnPrefixes.Nodup) :
    let world := senderNode.after (senderStart keyEntry prefixEntry reservedEntry) events
    world.log.Nodup ∧
      (world.log.Pairwise fun early late =>
        early.credential = late.credential → early.counter < late.counter) ∧
      ∀ credential, world.store.Holds credential → ∀ reserved,
        world.store.reservedEntry = some reserved → counterWindow ≤ reserved →
          ∀ nonce ∈ world.log, nonce.credential = credential → nonce.counter < reserved := by
  intro world
  have holds : SenderInvariant world.ram world.store world.log :=
    senderAfter_safe keyEntry prefixEntry reservedEntry events rfl distinct
  refine ⟨ascending_nodup holds.ascending, holds.ascending, ?_⟩
  intro credential held reserved stored accepted nonce member own
  exact holds.storedAbove credential held reserved stored accepted nonce member own

/-- A node is provisioned, sends twice, loses its power, and sends again. -/
def rebootRun : List SenderEvent :=
  let send := Event.call (.wrap ⟨some 0, 5, none, 0, some 300, 220, true⟩ fun _ => 1) [.ok, .ok]
  [.call .provision [.ok, .ok, .drawn (Vector.replicate _ 7) (Vector.replicate _ 9), .ok, .ok, .ok,
      .ok, .ok, .ok, .ok, .ok],
    send, send, .powerLoss, .call .begin [.ok, .ok, .ok, .ok, .ok], send]

theorem sender_nonces_never_repeat_reboot :
    (senderNode.after (senderStart none none none) rebootRun).log.length = 3 ∧
      (senderNode.after (senderStart none none none) rebootRun).log.Nodup := by
  have distinct :
      (senderNode.after (senderStart none none none) rebootRun).store.drawnPrefixes.Nodup := by
    decide +kernel
  exact ⟨by decide +kernel, (sender_nonces_never_repeat none none none rebootRun distinct).1⟩

end AsconSuite
