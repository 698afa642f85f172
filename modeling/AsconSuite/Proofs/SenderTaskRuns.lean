/-
Module: AsconSuite.Proofs.SenderTaskRuns
Layer: Proofs
Purpose: Several tasks on one sender. A run in which no write lowers the stored reservation uses no counter
  twice; a run in which one does can. A task that is alone takes the counters that `takeCounter` takes.
Imports: AsconSuite.Base.Ledger, AsconSuite.Proofs.SenderRules, AsconSuite.Secure.SenderTasks
Trusted boundary: none
Main exports: TasksInvariant, tasksStep_keeps, takeCounter_by_steps, tasks_counters_never_repeat
-/
import AsconSuite.Base.Ledger
import AsconSuite.Proofs.SenderRules
import AsconSuite.Secure.SenderTasks

namespace AsconSuite

open CrashLogic Ledger

variable {τ : Type}

/-- Every counter of the log is below the bound. -/
def CountersBelow (log : List MessageNonce) (bound : Counter) : Prop :=
  ∀ nonce ∈ log, nonce.counter < bound

theorem CountersBelow.mono {log : List MessageNonce} {bound bound' : Counter}
    (below : CountersBelow log bound) (le : bound ≤ bound') : CountersBelow log bound' :=
  fun nonce member => Nat.lt_of_lt_of_le (below nonce member) le

theorem CountersBelow.append {log : List MessageNonce} {bound : Counter}
    (below : CountersBelow log bound) {nonce : MessageNonce} (last : nonce.counter < bound) :
    CountersBelow (log ++ [nonce]) bound := by
  intro other member
  rcases List.mem_append.1 member with old | new
  · exact below other old
  · rw [List.mem_singleton.1 new]
    exact last

/-- What ties the memory, the storage, the tasks and the log of a node together. -/
structure TasksInvariant (world : TaskWorld τ) : Prop where
  ascending : Ascending MessageNonce.credential MessageNonce.number world.log
  busyReady : ∀ task, world.points task ≠ .outside → world.ram.senderReady = true
  belowLimit : CountersBelow world.log counterLimit
  belowNext : world.ram.senderReady = true → CountersBelow world.log world.ram.senderCounter
  belowReserved : world.ram.senderReady = true → CountersBelow world.log world.ram.senderReserved
  belowStored : ∀ stored, world.store.reservedEntry = some stored → CountersBelow world.log stored
  reservedStored : world.ram.senderReady = true → ∀ stored,
    world.store.reservedEntry = some stored →
      counterLimit ≤ stored ∨ world.ram.senderReserved ≤ stored
  unmergedStored : ∀ task unmerged, world.points task = .reserveMerge unmerged → ∀ stored,
    world.store.reservedEntry = some stored → counterLimit ≤ stored ∨ unmerged ≤ stored

theorem points_goTo_self [DecidableEq τ] (world : TaskWorld τ) (task : τ) (point : TaskPoint) :
    (world.goTo task point).points task = point := by
  simp only [TaskWorld.goTo, Function.update_self]

theorem points_goTo_of_ne [DecidableEq τ] {other task : τ} (different : other ≠ task)
    (world : TaskWorld τ) (point : TaskPoint) :
    (world.goTo task point).points other = world.points other := by
  simp only [TaskWorld.goTo, Function.update_of_ne different]

namespace TasksInvariant

variable {world : TaskWorld τ}

/-- A reservation is written that keeps the others. -/
theorem put (holds : TasksInvariant world) (ready : world.ram.senderReady = true)
    {reservation : Counter}
    (keeps : counterLimit ≤ reservation ∨ (world.ram.senderReserved ≤ reservation ∧
      ∀ other, (world.points other).unmergedAtMost reservation = true)) :
    TasksInvariant
      { world with store := { world.store with reservedEntry := some reservation } } where
  ascending := holds.ascending
  busyReady := holds.busyReady
  belowLimit := holds.belowLimit
  belowNext := holds.belowNext
  belowReserved := holds.belowReserved
  belowStored stored same := by
    rw [← Option.some.inj same]
    rcases keeps with limit | ⟨reserved, _⟩
    · exact holds.belowLimit.mono limit
    · exact (holds.belowReserved ready).mono reserved
  reservedStored _ stored same := by
    rw [← Option.some.inj same]
    exact keeps.imp id And.left
  unmergedStored other unmerged atMerge stored same := by
    rw [← Option.some.inj same]
    rcases keeps with limit | ⟨_, unmergedAtMost⟩
    · exact Or.inl limit
    · have atMost := unmergedAtMost other
      rw [atMerge] at atMost
      exact Or.inr (of_decide_eq_true atMost)

/-- A written reservation is taken over into memory. -/
theorem merge (holds : TasksInvariant world) {task : τ} {reservation : Counter}
    (atMerge : world.points task = .reserveMerge reservation)
    (greater : world.ram.senderReserved < reservation) :
    TasksInvariant { world with ram := { world.ram with senderReserved := reservation } } where
  ascending := holds.ascending
  busyReady := holds.busyReady
  belowLimit := holds.belowLimit
  belowNext := holds.belowNext
  belowReserved ready := (holds.belowReserved ready).mono (Nat.le_of_lt greater)
  belowStored := holds.belowStored
  reservedStored _ := holds.unmergedStored task reservation atMerge
  unmergedStored := holds.unmergedStored

/-- A counter is taken. -/
theorem allocate (holds : TasksInvariant world) (ready : world.ram.senderReady = true)
    (below : world.ram.senderCounter < counterLimit)
    (available : world.ram.senderCounter < world.ram.senderReserved) :
    TasksInvariant { world with
      ram := { world.ram with senderCounter := world.ram.senderCounter + 1 }
      log := world.log ++ [MessageNonce.mk world.ram.credential world.ram.senderCounter] } where
  ascending := by
    apply ascending_append holds.ascending
    intro nonce member _
    exact holds.belowNext ready nonce member
  busyReady := holds.busyReady
  belowLimit := holds.belowLimit.append below
  belowNext _ := by
    have next : world.ram.senderCounter < world.ram.senderCounter + 1 := by
      rw [BitVec.lt_def, toNat_add_one below]
      exact Nat.lt_succ_self _
    exact ((holds.belowNext ready).mono (Nat.le_of_lt next)).append next
  belowReserved _ := (holds.belowReserved ready).append available
  belowStored stored same := by
    apply (holds.belowStored stored same).append
    rcases holds.reservedStored ready stored same with limit | reserved
    · exact Nat.lt_of_lt_of_le below limit
    · exact Nat.lt_of_lt_of_le available reserved
  reservedStored := holds.reservedStored
  unmergedStored := holds.unmergedStored

/-- After a loss of power the tasks start anew, from memory that is not ready or just loaded. -/
theorem reboot (holds : TasksInvariant world) {ram : SenderRam}
    (loaded : ram.senderReady = true → ∃ reserved, world.store.reservedEntry = some reserved ∧
      ram.senderCounter = reserved ∧ ram.senderReserved = reserved) :
    TasksInvariant ⟨ram, world.store, fun _ : τ => .outside, world.log⟩ where
  ascending := holds.ascending
  busyReady _ busy := absurd rfl busy
  belowLimit := holds.belowLimit
  belowNext ready := by
    obtain ⟨reserved, stored, sameCounter, _⟩ := loaded ready
    exact sameCounter ▸ holds.belowStored reserved stored
  belowReserved ready := by
    obtain ⟨reserved, stored, _, sameReserved⟩ := loaded ready
    exact sameReserved ▸ holds.belowStored reserved stored
  belowStored := holds.belowStored
  reservedStored ready stored same := by
    obtain ⟨reserved, storedReserved, _, sameReserved⟩ := loaded ready
    right
    rw [storedReserved] at same
    rw [Option.some.inj same] at sameReserved
    rw [sameReserved]
    exact BitVec.le_refl _
  unmergedStored _ _ atMerge := nomatch atMerge

/-- A task of a ready node goes on. -/
theorem goTo [DecidableEq τ] (holds : TasksInvariant world) (ready : world.ram.senderReady = true) (task : τ)
    {point : TaskPoint} (unmergedStored : ∀ unmerged, point = .reserveMerge unmerged → ∀ stored,
      world.store.reservedEntry = some stored → counterLimit ≤ stored ∨ unmerged ≤ stored) :
    TasksInvariant (world.goTo task point) where
  ascending := holds.ascending
  busyReady _ _ := ready
  belowLimit := holds.belowLimit
  belowNext := holds.belowNext
  belowReserved := holds.belowReserved
  belowStored := holds.belowStored
  reservedStored := holds.reservedStored
  unmergedStored other unmerged atMerge := by
    by_cases own : other = task
    · rw [own, points_goTo_self] at atMerge
      exact unmergedStored unmerged atMerge
    · rw [points_goTo_of_ne own] at atMerge
      exact holds.unmergedStored other unmerged atMerge

/-- A task of a ready node goes on to a point where it holds no reservation that it has written. -/
theorem goOn [DecidableEq τ] (holds : TasksInvariant world) (ready : world.ram.senderReady = true)
    (task : τ) {point : TaskPoint} (notMerge : ∀ unmerged, point ≠ .reserveMerge unmerged) :
    TasksInvariant (world.goTo task point) :=
  holds.goTo ready task fun unmerged same => absurd same (notMerge unmerged)

end TasksInvariant

section Steps

variable [DecidableEq τ] {world : TaskWorld τ}

/-- Every step of a task that keeps the reservations keeps the invariant. -/
theorem taskStep_keeps (holds : TasksInvariant world) (task : τ) (reply : NvsReply)
    (keeps : KeepsReservations world (.step task reply)) :
    TasksInvariant (taskStep world task reply) := by
  have ready : world.points task ≠ .outside → world.ram.senderReady = true := holds.busyReady task
  cases atPoint : world.points task with
  | outside =>
      simp only [taskStep, atPoint]
      cases ready : world.ram.senderReady with
      | false => exact holds
      | true =>
          simp only [Bool.not_true, Bool.false_eq_true, if_false]
          split
          · exact holds
          split
          · exact holds.goOn ready task fun _ => TaskPoint.noConfusion
          · exact holds.goOn ready task fun _ => TaskPoint.noConfusion
  | reserveBegin =>
      rw [atPoint] at ready
      simp only [taskStep, atPoint]
      split
      · exact holds.goOn (ready nofun) task fun _ => TaskPoint.noConfusion
      · exact holds.goOn (ready nofun) task fun _ => TaskPoint.noConfusion
  | reserveCompute =>
      rw [atPoint] at ready
      simp only [taskStep, atPoint]
      exact holds.goOn (ready nofun) task fun _ => TaskPoint.noConfusion
  | reservePut reservation =>
      rw [atPoint] at ready
      simp only [KeepsReservations, atPoint, TaskWorld.PutKeeps] at keeps
      simp only [taskStep, atPoint]
      cases reply with
      | ok =>
          have stored := holds.put (ready nofun) (keeps (Or.inl rfl))
          refine stored.goTo (ready nofun) task ?_
          rintro unmerged ⟨⟩ value same
          rw [← Option.some.inj same]
          exact Or.inr (BitVec.le_refl _)
      | failWritten =>
          have stored := holds.put (ready nofun) (keeps (Or.inr rfl))
          exact stored.goOn (ready nofun) task fun _ => TaskPoint.noConfusion
      | fail => exact holds.goOn (ready nofun) task fun _ => TaskPoint.noConfusion
      | failCleared => exact holds.goOn (ready nofun) task fun _ => TaskPoint.noConfusion
      | drawn => exact holds.goOn (ready nofun) task fun _ => TaskPoint.noConfusion
  | reserveMerge reservation =>
      rw [atPoint] at ready
      simp only [taskStep, atPoint]
      by_cases greater : world.ram.senderReserved < reservation
      · rw [if_pos greater]
        have merged := holds.merge atPoint greater
        exact merged.goOn (ready nofun) task fun _ => TaskPoint.noConfusion
      · rw [if_neg greater]
        exact holds.goOn (ready nofun) task fun _ => TaskPoint.noConfusion
  | allocate =>
      rw [atPoint] at ready
      simp only [taskStep, atPoint]
      by_cases refused : counterLimit ≤ world.ram.senderCounter ∨
          world.ram.senderReserved ≤ world.ram.senderCounter
      · rw [if_pos refused]
        exact holds.goOn (ready nofun) task fun _ => TaskPoint.noConfusion
      · rw [if_neg refused]
        obtain ⟨below, available⟩ := not_or.1 refused
        have taken := holds.allocate (ready nofun) (BitVec.not_le.1 below)
          (BitVec.not_le.1 available)
        exact taken.goOn (ready nofun) task fun _ => TaskPoint.noConfusion

/-- So does a loss of power followed by `asconSecureBegin`. -/
theorem reboot_keeps (holds : TasksInvariant world) (script : List NvsReply) :
    TasksInvariant (tasksStep world (.reboot script)) := by
  have outcome : wp asconSecureBegin
      (fun _ ram store _ => TasksInvariant ⟨ram, store, fun _ : τ => .outside, world.log⟩)
      (fun store => TasksInvariant ⟨.initial, store, fun _ : τ => .outside, world.log⟩) .initial
      world.store script := by
    apply wp_loadSenderState
    · exact holds.reboot nofun
    · intro status _ ram off rest
      exact holds.reboot fun on => absurd (off.symm.trans on) Bool.false_ne_true
    · intro key noncePrefix reserved rest _ _ stored _
      exact holds.reboot fun _ => ⟨reserved, stored, rfl, rfl⟩
  rw [tasksStep]
  cases ended : asconSecureBegin .initial world.store script with
  | returned status ram store rest => exact wp_returned outcome ended
  | powerLost store => exact wp_powerLost outcome ended

theorem tasksStep_keeps (holds : TasksInvariant world) (event : TaskEvent τ)
    (keeps : KeepsReservations world event) : TasksInvariant (tasksStep world event) := by
  cases event with
  | step task reply => exact taskStep_keeps holds task reply keeps
  | reboot script => exact reboot_keeps holds script

omit [DecidableEq τ] in
/-- A node that has not been switched on yet. -/
theorem tasksOff_invariant (store : SenderStore) : TasksInvariant (tasksOff store : TaskWorld τ) where
  ascending := ascending_nil
  busyReady _ busy := absurd rfl busy
  belowLimit _ member := absurd member List.not_mem_nil
  belowNext on := nomatch on
  belowReserved on := nomatch on
  belowStored _ _ _ member := absurd member List.not_mem_nil
  reservedStored on := nomatch on
  unmergedStored _ _ atMerge := nomatch atMerge

end Steps

/-! ### A task that is alone -/

/-- What a call of `takeCounter` adds to the log. -/
def takenNonces (ram : SenderRam) : Except AsconSecureStatus Counter → List MessageNonce
  | .error _ => []
  | .ok counter => [⟨ram.credential, counter⟩]

/-- A task that is alone ends where it has begun. -/
theorem update_back [DecidableEq τ] {world : TaskWorld τ} {task : τ}
    (outside : world.points task = .outside) :
    Function.update world.points task .outside = world.points := by
  rw [← outside]
  exact Function.update_eq_self task world.points

/-- The steps of a task that runs alone, from the outside to the outside, are `takeCounter`. -/
theorem takeCounter_by_steps [DecidableEq τ] (world : TaskWorld τ) (task : τ)
    (outside : world.points task = .outside) (ready : world.ram.senderReady = true)
    {script : List NvsReply} {outcome : Except AsconSecureStatus Counter} {ram : SenderRam}
    {store : SenderStore} {rest : List NvsReply}
    (ended : takeCounter world.ram world.store script = .returned outcome ram store rest) :
    ∃ replies : List NvsReply, Runs.after tasksStep world (replies.map (TaskEvent.step task)) =
      { world with ram, store, log := world.log ++ takenNonces world.ram outcome } := by
  have bySteps : wp takeCounter (fun outcome ram store _ =>
      ∃ replies : List NvsReply, Runs.after tasksStep world (replies.map (TaskEvent.step task)) =
        { world with ram, store, log := world.log ++ takenNonces world.ram outcome })
      (fun _ => True) world.ram world.store script := by
    apply wp_takeCounter trivial
    · intro limit
      refine ⟨[.ok], ?_⟩
      simp [tasksStep, taskStep, outside, ready, limit, takenNonces]
    · intro below consumed rest
      refine ⟨[.ok, .fail], ?_⟩
      simp [tasksStep, taskStep, outside, ready, BitVec.not_le.2 below, consumed, TaskWorld.goTo,
        takenNonces, update_back]
    · intro below consumed rest
      refine ⟨[.ok, .ok, .ok, .failWritten], ?_⟩
      simp [tasksStep, taskStep, outside, ready, BitVec.not_le.2 below, consumed, TaskWorld.goTo,
        takenNonces, update_back, putOutcome, SenderStore.withReservation]
    · intro below consumed rest
      refine ⟨[.ok, .ok, .ok, .ok, .ok, .ok], ?_⟩
      have greater : world.ram.senderReserved < world.ram.senderCounter + counterWindow :=
        Nat.lt_of_le_of_lt consumed (lt_add_counterWindow below)
      have remaining := BitVec.not_le.2 (lt_add_counterWindow below)
      simp [tasksStep, taskStep, outside, ready, BitVec.not_le.2 below, consumed, TaskWorld.goTo,
        takenNonces, update_back, putOutcome, SenderStore.withReservation, greater, remaining,
        SenderRam.credential]
    · intro below available
      refine ⟨[.ok, .ok], ?_⟩
      simp [tasksStep, taskStep, outside, ready, BitVec.not_le.2 below, BitVec.not_le.2 available,
        TaskWorld.goTo, takenNonces, update_back]
  exact wp_returned bySteps ended

/-! ### Runs -/

/-- In every run whose steps keep the reservations, no counter is used twice, the counters of a credential
increase, and the stored reservation lies above every counter used. -/
theorem tasks_counters_never_repeat [DecidableEq τ] (store : SenderStore)
    (events : List (TaskEvent τ))
    (keeps : Runs.Along tasksStep KeepsReservations (tasksOff store) events) :
    let world := tasksAfter store events
    world.log.Nodup ∧
      (world.log.Pairwise fun early late =>
        early.credential = late.credential → early.counter < late.counter) ∧
      ∀ reserved, world.store.reservedEntry = some reserved →
        ∀ nonce ∈ world.log, nonce.counter < reserved := by
  intro world
  have holds : TasksInvariant world := Runs.invariant_after TasksInvariant
    (fun _ event holds keeps => tasksStep_keeps holds event keeps) (tasksOff_invariant store) keeps
  exact ⟨ascending_nodup holds.ascending, holds.ascending, holds.belowStored⟩

/-- A node with a key, a prefix and a first reservation. -/
def provisionedStore : SenderStore where
  keyEntry := some (Vector.replicate _ 7)
  prefixEntry := some (Vector.replicate _ 9)
  reservedEntry := some 32
  drawnPrefixes := [Vector.replicate _ 9]

/-- Some steps of a task, all of whose operations succeed. -/
def steps (task : Bool) (count : Nat) : List (TaskEvent Bool) :=
  List.replicate count (.step task .ok)

/-- The node is switched on. -/
def switchOn : TaskEvent Bool := .reboot [.ok, .ok, .ok, .ok, .ok]

/-- Two tasks take turns and renew the reservation twice. -/
def renewedReservation : List (TaskEvent Bool) :=
  [switchOn] ++ steps false 6 ++ steps true (31 * 2) ++ steps false 3 ++ steps true 1 ++ steps false 3

theorem tasks_counters_never_repeat_renewed :
    (tasksAfter provisionedStore renewedReservation).log.length = 33 ∧
      (tasksAfter provisionedStore renewedReservation).log.Nodup := by
  have keeps : Runs.Along tasksStep KeepsReservations (tasksOff provisionedStore)
      renewedReservation := by
    decide +kernel
  exact ⟨by decide +kernel, (tasks_counters_never_repeat provisionedStore renewedReservation keeps).1⟩

/-- Two tasks find the reservation used up. The first computes the reservation 64 and stops in front of its
write. The second reserves 64 too, uses the counters up to 63, reserves 96 and uses the counter 64. Then the
first writes its 64. After a loss of power the counter 64 is used again. -/
def loweredReservation : List (TaskEvent Bool) :=
  [switchOn] ++ steps false 3 ++ steps true (6 + 31 * 2 + 6) ++ steps false 1 ++ [switchOn] ++
    steps true 6

theorem tasks_counter_repeats :
    ¬ (tasksAfter provisionedStore loweredReservation).log.Nodup ∧
      (tasksAfter provisionedStore loweredReservation).log.count
        ⟨⟨Vector.replicate _ 7, Vector.replicate _ 9⟩, 64⟩ = 2 := by
  decide +kernel

end AsconSuite
