/-
Module: AsconSuite.Proofs.AvrBitPermutation
Layer: Proofs
Purpose: `bit_permute` moves every bit where the permutation says, and which of its arguments it refuses.
Imports: AsconSuite.Proofs.AvrBitRotations, AsconSuite.Proofs.AvrMemoryOperations, AsconSuite.Tools.AvrBitPermute, one
  Mathlib module
Trusted boundary: none (fully proved)
Main exports: Avr.IsPermutation, Avr.invertLoop_ok, Avr.cycleLoop_inside, Avr.permuteScan_between, Avr.wp_emitMove,
  Avr.PermutesBits, Avr.bitPermute_permutes_iff
-/
import AsconSuite.Proofs.AvrBitRotations
import AsconSuite.Proofs.AvrMemoryOperations
import AsconSuite.Tools.AvrBitPermute
import Mathlib.Data.List.Perm.Subperm

namespace AsconSuite.Avr

open ByteWord ByteMemory
open CycleMoves
open Emit
open Emit.Target

variable {code code' : Code} {s s' : AVRState}

/-! ### Permutations as lists -/

/-- Every number below the length stands in the list exactly once. -/
def IsPermutation (perm : List Nat) : Prop := perm.Perm (List.range perm.length)

theorem isPermutation_iff {perm : List Nat} : IsPermutation perm ↔ perm.Nodup ∧ ∀ d ∈ perm, d < perm.length := by
  constructor
  · intro isPerm
    exact ⟨isPerm.nodup_iff.2 List.nodup_range, fun d member => List.mem_range.1 (isPerm.mem_iff.1 member)⟩
  · rintro ⟨nodup, bound⟩
    have sub := List.subperm_of_subset nodup fun d member => List.mem_range.2 (bound d member)
    exact sub.perm_of_length_le (Nat.le_of_eq List.length_range)

/-- The inverse of a list of entries so far. -/
structure Inverts (size : Nat) (front P : List Nat) : Prop where
  length : P.length = size
  placed : ∀ i d, front[i]? = some d → d < size ∧ P[d]? = some i
  free : ∀ d < size, d ∉ front → P[d]? = some 0xFF

theorem Inverts.nil (size : Nat) : Inverts size [] (List.replicate size 0xFF) where
  length := List.length_replicate
  placed := fun _ _ none => nomatch none
  free := fun _ lower _ => List.getElem?_replicate_of_lt lower

/-- Whether an entry is refused. -/
theorem Inverts.refused_iff {size dest : Nat} {front P : List Nat} (inverts : Inverts size front P)
    (few : front.length ≤ 240) :
    (size ≤ dest ∨ P.getD dest 0xFF ≠ 0xFF) ↔ ¬(dest < size ∧ dest ∉ front) := by
  rw [not_and_or, Nat.not_lt, not_not]
  by_cases beyond : size ≤ dest
  · exact iff_of_true (Or.inl beyond) (Or.inl beyond)
  · refine or_congr Iff.rfl ?_
    by_cases member : dest ∈ front
    · obtain ⟨i, lower, same⟩ := List.getElem_of_mem member
      have placed := (inverts.placed i dest (by rw [List.getElem?_eq_getElem lower, same])).2
      refine iff_of_true ?_ member
      rw [List.getD_eq_getElem?_getD, placed, Option.getD_some]
      omega
    · refine iff_of_false ?_ member
      rw [List.getD_eq_getElem?_getD, inverts.free dest (Nat.not_le.1 beyond) member, Option.getD_some]
      exact not_not.2 rfl

theorem Inverts.snoc {size dest : Nat} {front P : List Nat} (inverts : Inverts size front P) (bound : dest < size)
    (fresh : dest ∉ front) : Inverts size (front ++ [dest]) (P.set dest front.length) where
  length := by rw [List.length_set, inverts.length]
  placed := by
    intro i d place
    rcases Nat.lt_or_ge i front.length with before | behind
    · rw [List.getElem?_append_left before] at place
      obtain ⟨lower, placed⟩ := inverts.placed i d place
      have other : dest ≠ d := fun same => fresh (same ▸ List.mem_of_getElem? place)
      exact ⟨lower, by rw [List.getElem?_set_ne other, placed]⟩
    · rw [List.getElem?_append_right behind] at place
      obtain ⟨inside, rfl⟩ := List.getElem?_eq_some_iff.1 place
      have last : i = front.length := by
        rw [List.length_singleton] at inside
        omega
      subst last
      have single : [dest][front.length - front.length] = dest := by simp
      rw [single]
      exact ⟨bound, List.getElem?_set_self (by rw [inverts.length]; exact bound)⟩
  free := by
    intro d lower notIn
    rw [List.mem_append, not_or, List.mem_singleton] at notIn
    rw [List.getElem?_set_ne fun same => notIn.2 same.symm]
    exact inverts.free d lower notIn.1

theorem invertLoop_ok {size : Nat} {perm front P : List Nat} (inverts : Inverts size front P)
    (few : front.length + perm.length ≤ 240) (nodup : (front ++ perm).Nodup) (bound : ∀ d ∈ perm, d < size) :
    ∃ P', invertLoop size front.length perm P = .ok P' ∧ Inverts size (front ++ perm) P' := by
  induction perm generalizing front P with
  | nil =>
      rw [List.append_nil]
      exact ⟨P, rfl, inverts⟩
  | cons dest perm ih =>
      rw [List.length_cons] at few
      have fresh : dest ∉ front := fun member =>
        (List.nodup_append.1 nodup).2.2 dest member dest List.mem_cons_self rfl
      have lower := bound dest List.mem_cons_self
      have parts : front ++ dest :: perm = front ++ [dest] ++ perm := by rw [List.append_assoc, List.singleton_append]
      rw [parts] at nodup ⊢
      have rest := ih (inverts.snoc lower fresh) (by rw [List.length_append, List.length_singleton]; omega) nodup
        fun d member => bound d (List.mem_cons_of_mem dest member)
      rw [List.length_append, List.length_singleton] at rest
      have accepted : ¬(size ≤ dest ∨ P.getD dest 0xFF ≠ 0xFF) := by
        rw [inverts.refused_iff (by omega), not_not]
        exact ⟨lower, fresh⟩
      rw [invertLoop, if_neg accepted]
      exact rest

theorem invertLoop_error {size : Nat} {perm front P : List Nat} (inverts : Inverts size front P)
    (few : front.length + perm.length ≤ 240) (nodup : front.Nodup)
    (bad : ¬((front ++ perm).Nodup ∧ ∀ d ∈ perm, d < size)) :
    invertLoop size front.length perm P = .error "invalid permutation data" := by
  induction perm generalizing front P with
  | nil =>
      rw [List.append_nil] at bad
      exact absurd ⟨nodup, fun _ none => nomatch none⟩ bad
  | cons dest perm ih =>
      rw [List.length_cons] at few
      rw [invertLoop]
      by_cases good : dest < size ∧ dest ∉ front
      · have accepted : ¬(size ≤ dest ∨ P.getD dest 0xFF ≠ 0xFF) := by
          rw [inverts.refused_iff (by omega), not_not]
          exact good
        rw [if_neg accepted]
        have nodup' : (front ++ [dest]).Nodup := by
          rw [List.nodup_append]
          refine ⟨nodup, List.nodup_singleton dest, ?_⟩
          rintro d member d' single rfl
          exact good.2 (List.mem_singleton.1 single ▸ member)
        have rest := ih (inverts.snoc good.1 good.2) (by rw [List.length_append, List.length_singleton]; omega) nodup' ?_
        · rwa [List.length_append, List.length_singleton] at rest
        · rintro ⟨all, bound⟩
          apply bad
          rw [List.append_assoc, List.singleton_append] at all
          refine ⟨all, fun d member => ?_⟩
          rcases List.mem_cons.1 member with rfl | later
          · exact good.1
          · exact bound d later
      · rw [if_pos ((inverts.refused_iff (by omega)).2 good)]
        rfl

/-- Where bits come from. -/
def source (P : List Nat) (i : Nat) : Nat := P.getD i 0

theorem source_eq {P : List Nat} {i j : Nat} (place : P[i]? = some j) : source P i = j := by
  rw [source, List.getD_eq_getElem?_getD, place, Option.getD_some]

/-- A permutation that was inverted already. -/
theorem IsPermutation.permutes {perm : List Nat} (isPerm : IsPermutation perm) :
    Permutes (source perm) perm.length := by
  obtain ⟨nodup, bound⟩ := isPermutation_iff.1 isPerm
  refine ⟨fun i lower => ?_, fun i lower j lower' same => ?_⟩
  · rw [source_eq (List.getElem?_eq_getElem lower)]
    exact bound _ (List.getElem_mem lower)
  · rw [source_eq (List.getElem?_eq_getElem lower), source_eq (List.getElem?_eq_getElem lower')] at same
    exact (nodup.getElem_inj_iff).1 same

/-- The inverse of a permutation is one. -/
theorem Inverts.permutes {perm P : List Nat} (isPerm : IsPermutation perm) (inverts : Inverts perm.length perm P) :
    Permutes (source P) perm.length := by
  have place {d : Nat} (lower : d < perm.length) : ∃ i, perm[i]? = some d ∧ i < perm.length ∧ source P d = i := by
    obtain ⟨i, inside, same⟩ := List.getElem_of_mem (isPerm.mem_iff.2 (List.mem_range.2 lower))
    have found : perm[i]? = some d := by rw [List.getElem?_eq_getElem inside, same]
    exact ⟨i, found, inside, source_eq (inverts.placed i d found).2⟩
  refine ⟨fun d lower => ?_, fun d lower d' lower' same => ?_⟩
  · obtain ⟨i, _, inside, value⟩ := place lower
    rw [value]
    exact inside
  · obtain ⟨i, found, _, value⟩ := place lower
    obtain ⟨i', found', _, value'⟩ := place lower'
    have sameIndex : i = i' := by rw [← value, ← value', same]
    rw [sameIndex, found'] at found
    exact (Option.some.inj found).symm

/-! ### Cycles -/

/-- A bit that is done. -/
def IsDone (done : List Bool) (i : Nat) : Prop := done[i]? = some true

theorem isDone_set {done : List Bool} {i : Nat} (inside : i < done.length) :
    IsDone (done.set i true) = fun j => IsDone done j ∨ j = i := by
  funext j
  unfold IsDone
  by_cases same : j = i
  · subst same
    rw [List.getElem?_set_self inside]
    exact propext (iff_of_true rfl (Or.inr rfl))
  · rw [List.getElem?_set_ne fun equal => same equal.symm]
    exact propext (or_iff_left same).symm

/-- The cells of a move are below a size. -/
def Below (size : Nat) : Move → Prop
  | .save i => i < size
  | .copy src dest => src < size ∧ dest < size
  | .restore i => i < size

theorem Below.mono {size more : Nat} {m : Move} (below : Below size m) (le : size ≤ more) : Below more m := by
  cases m with
  | save i => exact Nat.lt_of_lt_of_le below le
  | copy src dest => exact ⟨Nat.lt_of_lt_of_le below.1 le, Nat.lt_of_lt_of_le below.2 le⟩
  | restore i => exact Nat.lt_of_lt_of_le below le

theorem count_set {done : List Bool} {i : Nat} (fresh : done[i]? = some false) :
    (done.set i true).count false + 1 = done.count false := by
  obtain ⟨inside, value⟩ := List.getElem?_eq_some_iff.1 fresh
  have some_fresh : 0 < done.count false := List.count_pos_iff.2 (value ▸ List.getElem_mem inside)
  rw [List.count_set inside, value]
  simp
  omega

/-- A walk stays inside of the array that says what is done. -/
theorem cycleLoop_below {P : List Nat} {size turns prev next last : Nat} {done done' : List Bool} {moves : List Move}
    (length : done.length = size) (lower : prev < size)
    (ran : cycleLoop P turns prev next done = some (moves, last, done')) :
    (∀ m ∈ moves, Below size m) ∧ last < size ∧ done'.length = size := by
  induction turns generalizing prev next done moves with
  | zero =>
      cases ran
      exact ⟨List.forall_mem_nil _, lower, length⟩
  | succ turns ih =>
      rw [cycleLoop] at ran
      cases known : done[next]? with
      | none =>
          rw [known] at ran
          exact nomatch ran
      | some isDone =>
          rw [known] at ran
          cases isDone with
          | true =>
              cases ran
              exact ⟨List.forall_mem_nil _, lower, length⟩
          | false =>
              cases place : P[next]? with
              | none =>
                  rw [place] at ran
                  exact nomatch ran
              | some after =>
                  rw [place] at ran
                  have lower' : next < size := length ▸ (List.getElem?_eq_some_iff.1 known).1
                  obtain ⟨⟨moves', last', done₁⟩, inner, rest⟩ := Option.bind_eq_some_iff.1 ran
                  cases rest
                  obtain ⟨below, ends⟩ := ih (by rw [List.length_set, length]) lower' inner
                  refine ⟨fun m member => ?_, ends⟩
                  rcases List.mem_cons.1 member with rfl | later
                  · exact ⟨lower', lower⟩
                  · exact below m later

theorem permuteScan_below {P : List Nat} {size : Nat} {indexes : List Nat} {done : List Bool} {moves : List Move}
    (length : done.length = size) (lower : ∀ i ∈ indexes, i < size) (ran : permuteScan P indexes done = some moves) :
    ∀ m ∈ moves, Below size m := by
  induction indexes generalizing done moves with
  | nil =>
      cases ran
      exact fun _ none => nomatch none
  | cons index indexes ih =>
      have first := lower index List.mem_cons_self
      have later : ∀ i ∈ indexes, i < size := fun i member => lower i (List.mem_cons_of_mem index member)
      have length' : (done.set index true).length = size := by rw [List.length_set, length]
      unfold permuteScan at ran
      dsimp only at ran
      by_cases fixed : index = P.getD index 0
      · rw [if_pos fixed] at ran
        exact ih length' later ran
      · rw [if_neg fixed] at ran
        by_cases isDone : done.getD index false = true
        · rw [if_pos isDone] at ran
          exact ih length later ran
        · rw [if_neg isDone] at ran
          obtain ⟨⟨moves₁, last, done₁⟩, cycle, ran⟩ := Option.bind_eq_some_iff.1 ran
          obtain ⟨rest, scanned, ran⟩ := Option.bind_eq_some_iff.1 ran
          cases ran
          obtain ⟨below, ends, length₁⟩ := cycleLoop_below length' first cycle
          intro m member
          rcases List.mem_append.1 member with front | back
          · rcases List.mem_cons.1 front with rfl | inner
            · exact first
            · exact below m inner
          · rcases List.mem_cons.1 back with rfl | behind
            · exact ends
            · exact ih length₁ later scanned m behind

section Cycles

variable {α : Type} {P : List Nat} {start now : Cells α} {done : List Bool}

/-- The rest of a cycle is walked, up to where the next bit is done. -/
structure Walked (P : List Nat) (start now : Cells α) (done : List Bool) (first : Nat) (moves : List Move) (last : Nat)
    (done' : List Bool) : Prop where
  length : done'.length = P.length
  inside : Inside (source P) P.length start (IsDone done') first last (run now moves)
  around : IsDone done' (source P last)
  kept : ∀ i, IsDone done i → IsDone done' i

theorem getElem?_source {i : Nat} (lower : i < P.length) : P[i]? = some (source P i) := by
  rw [source, List.getD_eq_getElem _ _ lower, List.getElem?_eq_getElem lower]

theorem cycleLoop_inside (permutes : Permutes (source P) P.length) (turns : Nat) {first prev : Nat}
    (length : done.length = P.length) (inside : Inside (source P) P.length start (IsDone done) first prev now)
    (enough : done.count false ≤ turns) :
    ∃ moves last done', cycleLoop P turns prev (source P prev) done = some (moves, last, done') ∧
      Walked P start now done first moves last done' := by
  induction turns generalizing prev done now with
  | zero =>
      -- Every bit is done, the next one too.
      have lower : source P prev < done.length := by
        rw [length]
        exact permutes.bound prev inside.bound
      have all : done[source P prev]? = some true := by
        have notFalse := List.count_eq_zero.1 (Nat.le_zero.1 enough)
        rw [List.getElem?_eq_getElem lower, Option.some.injEq, ← Bool.not_eq_false]
        exact fun same => notFalse (same ▸ List.getElem_mem lower)
      exact ⟨[], prev, done, rfl, length, inside, all, fun _ isDone => isDone⟩
  | succ turns ih =>
      have next := permutes.bound prev inside.bound
      rw [cycleLoop, getElem?_source next]
      cases known : done[source P prev]? with
      | none => exact absurd (List.getElem?_eq_none_iff.1 known) (by omega)
      | some isDone =>
          cases isDone with
          | true => exact ⟨[], prev, done, rfl, length, inside, known, fun _ isDone => isDone⟩
          | false =>
              have fresh : ¬IsDone done (source P prev) := fun isDone => nomatch known.symm.trans isDone
              have copied := inside.copy permutes fresh
              have same := isDone_set (by omega : source P prev < done.length)
              rw [← same] at copied
              have fewer := count_set known
              obtain ⟨moves, last, done', ran, walked⟩ := ih (by rw [List.length_set, length]) copied (by omega)
              refine ⟨.copy (source P prev) prev :: moves, last, done', ?_, ?_⟩
              · dsimp only
                rw [ran]
                rfl
              · refine ⟨walked.length, walked.inside, walked.around, fun i isDone => walked.kept i ?_⟩
                rw [same]
                exact Or.inl isDone

/-- The scan does every cycle that it meets. -/
theorem permuteScan_between (permutes : Permutes (source P) P.length) (indexes : List Nat)
    (bound : ∀ i ∈ indexes, i < P.length) (length : done.length = P.length)
    (between : Between (source P) P.length start (IsDone done) now)
    (others : ∀ i < P.length, i ∉ indexes → IsDone done i) :
    ∃ moves, permuteScan P indexes done = some moves ∧
      Between (source P) P.length start (fun i => i < P.length) (run now moves) := by
  induction indexes generalizing done now with
  | nil =>
      have all : IsDone done = fun i => i < P.length := by
        funext i
        refine propext ⟨fun isDone => ?_, fun lower => others i lower List.not_mem_nil⟩
        rw [← length]
        exact (List.getElem?_eq_some_iff.1 isDone).1
      exact ⟨[], rfl, all ▸ between⟩
  | cons index indexes ih =>
      have lower := bound index List.mem_cons_self
      have inside : index < done.length := by omega
      have bound' : ∀ i ∈ indexes, i < P.length := fun i member => bound i (List.mem_cons_of_mem index member)
      have others' {done' : List Bool} (kept : ∀ i, IsDone done i → IsDone done' i) (now : IsDone done' index) :
          ∀ i < P.length, i ∉ indexes → IsDone done' i := by
        intro i lower' notIn
        by_cases same : i = index
        · exact same ▸ now
        · refine kept i (others i lower' fun member => ?_)
          exact (List.mem_cons.1 member).elim same notIn
      have marked := isDone_set inside
      unfold permuteScan
      dsimp only
      by_cases fixed : index = P.getD index 0
      · rw [if_pos fixed]
        refine ih bound' (by rw [List.length_set, length]) ?_ (others' ?_ ?_)
        · rw [marked]
          exact between.fixed permutes lower fixed.symm
        · rw [marked]
          exact fun i isDone => Or.inl isDone
        · rw [marked]
          exact Or.inr rfl
      · rw [if_neg fixed]
        by_cases isDone : done.getD index false = true
        · rw [if_pos isDone]
          have known : IsDone done index := by
            rw [List.getD_eq_getElem _ _ inside] at isDone
            rw [IsDone, List.getElem?_eq_getElem inside, isDone]
          exact ih bound' length between (others' (fun _ isDone => isDone) known)
        · rw [if_neg isDone]
          have fresh : ¬IsDone done index := by
            intro known
            rw [List.getD_eq_getElem?_getD, known] at isDone
            exact isDone rfl
          -- The cycle of a bit that is not done: its first bit is saved, the rest is walked.
          have begun := between.save lower fresh
          rw [← marked] at begun
          have length' : (done.set index true).length = P.length := by rw [List.length_set, length]
          obtain ⟨moves, last, done', ran, walked⟩ :=
            cycleLoop_inside permutes P.length length' begun (length' ▸ List.count_le_length)
          have ended := walked.inside.restore permutes walked.around
          have first : IsDone (done.set index true) index := by
            rw [marked]
            exact Or.inr rfl
          obtain ⟨rest, scanned, finished⟩ := ih bound' walked.length ended (others' (fun i isDone => by
            refine walked.kept i ?_
            rw [marked]
            exact Or.inl isDone) (walked.kept index first))
          refine ⟨.save index :: moves ++ .restore last :: rest, ?_, ?_⟩
          · change cycleLoop P P.length index (P.getD index 0) (done.set index true) = _ at ran
            rw [ran]
            dsimp only [Option.bind_eq_bind, Option.bind_some]
            rw [scanned]
            rfl
          · rw [CycleMoves.run_append]
            exact finished

end Cycles

/-! ### Bits of a register -/

/-- A bit of a register. -/
def bitAt (s : AVRState) (reg : Reg) (i : Nat) : Bool := (s.r (reg.reg (i / 8))).getLsbD (i % 8)

/-- The bits of a register as cells; the spare one is the low bit of the temporary register. -/
def cellsOf (reg : Reg) (temp : Nat) (s : AVRState) : Cells Bool where
  cell := fun i => if i < 8 * reg.length then bitAt s reg i else false
  spare := (s.r temp).getLsbD 0

theorem cellsOf_cell {reg : Reg} {temp i : Nat} (s : AVRState) (inside : i < 8 * reg.length) :
    (cellsOf reg temp s).cell i = bitAt s reg i := if_pos inside

/-- The bits of a byte one of which was loaded. -/
theorem getLsbD_loaded (x : Byte) {i j : Nat} (bound : i < 8) (t : Bool) :
    ((x &&& ~~~(1#8 <<< i)) ||| (if t then 1#8 <<< i else 0#8)).getLsbD j = if j = i then t else x.getLsbD j := by
  have bit : (1#8 <<< i).getLsbD j = decide (j = i) := by
    rw [BitVec.getLsbD_shiftLeft, BitVec.getLsbD_one]
    by_cases same : j = i
    · subst same
      simp [bound]
    · rw [decide_eq_false same, Bool.eq_false_iff]
      intro all
      simp only [Bool.and_eq_true, decide_eq_true_eq, Bool.not_eq_true', decide_eq_false_iff_not] at all
      omega
  have value : (if t then 1#8 <<< i else 0#8).getLsbD j = (t && decide (j = i)) := by
    cases t with
    | false => exact BitVec.getLsbD_zero
    | true => exact bit
  rw [BitVec.getLsbD_or, BitVec.getLsbD_and, BitVec.getLsbD_not, value, bit]
  by_cases same : j = i
  · subst same
    simp
  · by_cases inside : j < 8
    · simp [same, inside]
    · rw [BitVec.getLsbD_of_ge x j (Nat.not_lt.1 inside)]
      simp [same]

theorem reg_lt {reg : Reg} {i : Nat} (inside : i < 8 * reg.length) : i / 8 < reg.length :=
  Nat.div_lt_of_lt_mul inside

theorem reg_inj {reg : Reg} (nodup : reg.Nodup) {a b : Nat} (first : a < reg.length) (second : b < reg.length)
    (same : reg.reg a = reg.reg b) : a = b := by
  rw [Reg.reg_eq_getElem first, Reg.reg_eq_getElem second] at same
  exact nodup.getElem_inj_iff.1 same

/-- A bit of a register that was loaded. -/
theorem cellsOf_loaded {reg : Reg} {temp i : Nat} (nodup : reg.Nodup) (apart : temp ∉ reg) (inside : i < 8 * reg.length)
    (others : ∀ r, r ∉ [reg.reg (i / 8)] → s'.r r = s.r r) {t : Bool}
    (written : s'.r (reg.reg (i / 8)) =
      (s.r (reg.reg (i / 8)) &&& ~~~(1#8 <<< (i % 8))) ||| (if t then 1#8 <<< (i % 8) else 0#8)) :
    cellsOf reg temp s' = (cellsOf reg temp s).assign i t := by
  have member : reg.reg (i / 8) ∈ reg := Accessed.reg_mem (reg_lt inside)
  have saved : s'.r temp = s.r temp := others temp fun single => apart (List.mem_singleton.1 single ▸ member)
  have cells (j : Nat) : (cellsOf reg temp s').cell j = if j = i then t else (cellsOf reg temp s).cell j := by
    by_cases below : j < 8 * reg.length
    · rw [cellsOf_cell s' below, cellsOf_cell s below, bitAt]
      by_cases sameByte : reg.reg (j / 8) = reg.reg (i / 8)
      · have index := reg_inj nodup (reg_lt below) (reg_lt inside) sameByte
        rw [sameByte, written, getLsbD_loaded _ (Nat.mod_lt i (by decide)), bitAt, sameByte]
        refine if_congr ⟨fun sameBit => ?_, fun same => same ▸ rfl⟩ rfl rfl
        rw [← Nat.div_add_mod j 8, ← Nat.div_add_mod i 8, index, sameBit]
      · have other : j ≠ i := fun same => sameByte (same ▸ rfl)
        rw [if_neg other, bitAt, others _ fun single => sameByte (List.mem_singleton.1 single)]
    · have other : j ≠ i := fun same => below (same ▸ inside)
      rw [if_neg other]
      exact (if_neg below).trans (if_neg below).symm
  rw [cellsOf, Cells.assign, saved]
  exact congrArg (fun cell => CycleMoves.Cells.mk cell _) (funext cells)

theorem cellsOf_congr {reg : Reg} {temp : Nat} (others : ∀ r, r ∉ ([] : List Nat) → s'.r r = s.r r) :
    cellsOf reg temp s' = cellsOf reg temp s := by
  have same : s'.r = s.r := funext fun r => others r List.not_mem_nil
  unfold cellsOf bitAt
  rw [same]

/-- The code of a move does the move. -/
theorem wp_emitMove {reg : Reg} {temp : Nat} {m : Move} (nodup : reg.Nodup) (apart : temp ∉ reg)
    (below : Below (8 * reg.length) m) :
    target.wp (emitMove reg temp m) (fun _ code' s' => Exact (temp :: reg) code s code' s' ∧
      cellsOf reg temp s' = m.apply (cellsOf reg temp s)) code s := by
  have place {i : Nat} (inside : i < 8 * reg.length) : reg.reg (i / 8) ∈ temp :: reg :=
    List.mem_cons_of_mem temp (Accessed.reg_mem (reg_lt inside))
  have nothing {code₁ : Code} {s₁ : AVRState} (exact₁ : Exact [] code s code₁ s₁) : Exact (temp :: reg) code s code₁ s₁ :=
    exact₁.mono fun _ member => nomatch member
  cases m with
  | save i =>
      refine wp_bind (wp_bst (Nat.mod_lt i (by decide)) fun code₁ s₁ exact₁ bit => ?_)
      refine wp_bld fun code₂ s₂ exact₂ written => ⟨(nothing exact₁).step exact₂ List.mem_cons_self, ?_⟩
      have cells (j : Nat) : (cellsOf reg temp s₂).cell j = (cellsOf reg temp s).cell j := by
        by_cases inside : j < 8 * reg.length
        · rw [← cellsOf_congr exact₁.others, cellsOf_cell s₂ inside, cellsOf_cell s₁ inside, bitAt, bitAt,
            exact₂.others _ fun single => apart (List.mem_singleton.1 single ▸ Accessed.reg_mem (reg_lt inside))]
        · exact (if_neg inside).trans (if_neg inside).symm
      have saved : (s₂.r temp).getLsbD 0 = (cellsOf reg temp s).cell i := by
        rw [written, getLsbD_loaded _ (by decide), if_pos rfl, bit, cellsOf_cell s below]
        rfl
      exact congr (congrArg CycleMoves.Cells.mk (funext cells)) saved
  | copy src dest =>
      refine wp_bind (wp_bst (Nat.mod_lt src (by decide)) fun code₁ s₁ exact₁ bit => ?_)
      refine wp_bld fun code₂ s₂ exact₂ written => ⟨(nothing exact₁).step exact₂ (place below.2), ?_⟩
      have bit' : s₁.t = (cellsOf reg temp s).cell src := by
        rw [bit, cellsOf_cell s below.1]
        rfl
      rw [cellsOf_loaded nodup apart below.2 exact₂.others written, bit', cellsOf_congr exact₁.others]
      rfl
  | restore i =>
      refine wp_bind (wp_bst (by decide) fun code₁ s₁ exact₁ bit => ?_)
      refine wp_bld fun code₂ s₂ exact₂ written => ⟨(nothing exact₁).step exact₂ (place below), ?_⟩
      rw [cellsOf_loaded nodup apart below exact₂.others written, bit, cellsOf_congr exact₁.others]
      rfl

theorem wp_emitMoves {reg : Reg} {temp : Nat} {moves : List Move} (nodup : reg.Nodup) (apart : temp ∉ reg)
    (below : ∀ m ∈ moves, Below (8 * reg.length) m) :
    target.wp (moves.forM (emitMove reg temp)) (fun _ code' s' => Exact (temp :: reg) code s code' s' ∧
      cellsOf reg temp s' = run (cellsOf reg temp s) moves) code s := by
  refine wp_forM (fun moved code' s' => Exact (temp :: reg) code s code' s' ∧
    cellsOf reg temp s' = run (cellsOf reg temp s) moved) ⟨Exact.refl _ code s, rfl⟩ ?_
  rintro moved m rest parts code₁ s₁ ⟨exact₁, cells⟩
  have member : m ∈ moves := parts ▸ List.mem_append_right moved List.mem_cons_self
  refine wp_mono (wp_emitMove nodup apart (below m member)) ?_
  rintro _ code₂ s₂ ⟨exact₂, cells'⟩
  refine ⟨exact₁.trans exact₂, ?_⟩
  rw [cells', cells, CycleMoves.run_append]
  rfl

theorem generates_emitMoves {reg : Reg} {temp : Nat} {moves : List Move} (bytes : Bytes reg) (bound : temp < 32)
    (below : ∀ m ∈ moves, Below (8 * reg.length) m) :
    Generates (moves.forM (emitMove reg temp)) (fun _ code' => SameAlloc code code') code := by
  have get {r i : Nat} (lower : r < 32) (g : Code) : Generates (bitop .bst r (i % 8)) (fun _ code' => SameAlloc g code') g :=
    generates_tworeg lower (Nat.lt_of_lt_of_le (Nat.mod_lt i (by decide)) (by decide)) (by simp)
  have put {r i : Nat} (lower : r < 32) (g : Code) : Generates (bitop .bld r (i % 8)) (fun _ code' => SameAlloc g code') g :=
    generates_tworeg lower (Nat.lt_of_lt_of_le (Nat.mod_lt i (by decide)) (by decide)) (by simp)
  have inReg {i : Nat} (inside : i < 8 * reg.length) : reg.reg (i / 8) < 32 := bytes _ (Accessed.reg_mem (reg_lt inside))
  refine generates_turns fun m member g => ?_
  have inside := below m member
  cases m with
  | save i => exact generates_then (get (inReg inside) g) fun code₁ _ => put (i := 0) bound code₁
  | copy src dest => exact generates_then (get (inReg inside.1) g) fun code₁ _ => put (inReg inside.2) code₁
  | restore i => exact generates_then (get (i := 0) bound g) fun code₁ _ => put (inReg inside) code₁

/-! ### The whole operation -/

/-- What a permutation of the bits of a register does: every bit goes where the permutation says, or comes from there
for an inverse one, the bits beyond it stay, and so do the other registers that somebody holds and memory. -/
structure BitsPermuted (code : Code) (reg : Reg) (perm : List Nat) (inverse : Bool) (s s' : AVRState) : Prop where
  moved : ∀ i d, perm[i]? = some d → if inverse then bitAt s' reg i = bitAt s reg d else bitAt s' reg d = bitAt s reg i
  beyond : ∀ i, perm.length ≤ i → i < 8 * reg.length → bitAt s' reg i = bitAt s reg i
  others : ∀ r, Held code r ∨ r = 32 ∨ r = 33 → r ∉ reg → s'.r r = s.r r
  memory : s'.memory = s.memory

/-- The array of which bits come from which ones, for a permutation. -/
structure Supplies (perm P : List Nat) (inverse : Bool) : Prop where
  length : P.length = perm.length
  permutes : Permutes (source P) P.length
  supplies : ∀ i d, perm[i]? = some d → if inverse then source P i = d else d < perm.length ∧ source P d = i

theorem invertPermutation_ok {perm : List Nat} (isPerm : IsPermutation perm) (few : perm.length ≤ 240) (inverse : Bool) :
    ∃ P, invertPermutation perm inverse = .ok P ∧ Supplies perm P inverse := by
  cases inverse with
  | true => exact ⟨perm, rfl, rfl, isPerm.permutes, fun i d place => source_eq place⟩
  | false =>
      obtain ⟨nodup, bound⟩ := isPermutation_iff.1 isPerm
      obtain ⟨P, ran, inverts⟩ := invertLoop_ok (Inverts.nil perm.length) (by rwa [List.length_nil, Nat.zero_add])
        (by rwa [List.nil_append]) bound
      rw [List.nil_append] at inverts
      refine ⟨P, ran, inverts.length, ?_, fun i d place => ?_⟩
      · rw [inverts.length]
        exact inverts.permutes isPerm
      · obtain ⟨lower, placed⟩ := inverts.placed i d place
        exact ⟨lower, source_eq placed⟩

theorem invertPermutation_error {perm : List Nat} (bad : ¬IsPermutation perm) (few : perm.length ≤ 240) :
    invertPermutation perm false = .error "invalid permutation data" := by
  refine invertLoop_error (Inverts.nil perm.length) (by rwa [List.length_nil, Nat.zero_add]) List.nodup_nil ?_
  rwa [List.nil_append, ← isPermutation_iff]

/-- The scan from the start gives every bit its source. -/
theorem Supplies.scan {perm P : List Nat} {inverse : Bool} (supplies : Supplies perm P inverse) :
    ∃ moves, permuteScan P (List.range perm.length) (List.replicate perm.length false) = some moves ∧
      (∀ m ∈ moves, Below perm.length m) ∧ ∀ start : Cells Bool, ∀ i,
        (run start moves).cell i = if i < perm.length then start.cell (source P i) else start.cell i := by
  have none_done : IsDone (List.replicate perm.length false) = fun _ => False := by
    funext i
    refine propext (iff_false_intro fun isDone => ?_)
    have member := List.mem_of_getElem? isDone
    exact nomatch List.eq_of_mem_replicate member
  have between (start : Cells Bool) :
      Between (source P) P.length start (IsDone (List.replicate perm.length false)) start := by
    rw [none_done]
    exact Between.begin start
  have scan (start : Cells Bool) := permuteScan_between supplies.permutes (List.range perm.length)
    (fun i member => supplies.length ▸ List.mem_range.1 member) (by rw [List.length_replicate, supplies.length])
    (between start) fun i lower notIn => absurd (List.mem_range.2 (supplies.length ▸ lower)) notIn
  obtain ⟨moves, ran, _⟩ := scan ⟨fun _ => false, false⟩
  refine ⟨moves, ran, permuteScan_below List.length_replicate (fun i => List.mem_range.1) ran, fun start i => ?_⟩
  obtain ⟨moves', ran', finished⟩ := scan start
  obtain rfl : moves = moves' := Option.some.inj (ran.symm.trans ran')
  by_cases lower : i < perm.length
  · rw [if_pos lower]
    exact finished.moved i (supplies.length ▸ lower)
  · rw [if_neg lower]
    exact finished.left i (supplies.length ▸ lower)

/-- `bit_permute` throws exactly when its array is no permutation, and otherwise its code permutes the bits of its
register. -/
def PermutesBits (code : Code) (reg : Reg) (perm : List Byte) (inverse : Bool) : Prop :=
  ((∃ message, (bitPermute reg perm inverse).run code = .error message) ↔ ¬IsPermutation (perm.map BitVec.toNat)) ∧
    (IsPermutation (perm.map BitVec.toNat) → ∃ seg code', (bitPermute reg perm inverse).run code = .ok (some (), code') ∧
      code'.insns = code.insns ++ seg ∧
      ∀ s, ∃ s', RunsTo seg s s' ∧ BitsPermuted code reg (perm.map BitVec.toNat) inverse s s')

section Permute

variable {reg : Reg} {perm : List Byte} {inverse : Bool}

theorem bitPermute_spec (inverse : Bool) (pool : Pool code) (nodup : reg.Nodup) (held : ∀ r ∈ reg, Held code r)
    (fits : perm.length ≤ 8 * reg.length) (few : perm.length ≤ 240) (spare : hasSpare code = true)
    (isPerm : IsPermutation (perm.map BitVec.toNat)) :
    Generates (bitPermute reg perm inverse) (fun result _ => result = some ()) code ∧
      ∀ s, target.wp (bitPermute reg perm inverse) (fun _ _ s' =>
        BitsPermuted code reg (perm.map BitVec.toNat) inverse s s') code s := by
  have few' : (perm.map BitVec.toNat).length ≤ 240 := by rwa [List.length_map]
  obtain ⟨P, inverted, supplies⟩ := invertPermutation_ok isPerm few' inverse
  obtain ⟨temp, code₁, ran, insns, same, scratch⟩ := tempreg_spare pool spare
  obtain ⟨moves, scanned, below, cells⟩ := supplies.scan
  rw [List.length_map] at scanned below cells
  have below' : ∀ m ∈ moves, Below (8 * reg.length) m := fun m member => (below m member).mono fits
  have apart : temp ∉ reg := fun member => scratch.notHeld (held temp member)
  have accepted : ¬(reg.size * 8 < perm.length ∨ 240 < perm.length) := by
    rw [Reg.size]
    omega
  unfold bitPermute
  rw [if_neg accepted]
  constructor
  · refine generates_bind (generates_lift inverted (generates_bind ⟨temp, code₁, ran, ?_⟩))
    rw [scanned]
    exact generates_bind (generates_mono (generates_emitMoves (fun r member => (held r member).lt) scratch.bound below')
      fun _ _ _ => generates_pure rfl)
  · intro s
    refine wp_bind (wp_lift fun P' inverted' => wp_bind (wp_of_run ran insns ?_))
    obtain rfl : P = P' := Except.ok.inj (inverted.symm.trans inverted')
    rw [scanned]
    refine wp_bind (wp_mono (wp_emitMoves nodup apart below') ?_)
    rintro _ code' s' ⟨exact', cells'⟩
    refine wp_pure ?_
    have bits {i : Nat} (inside : i < 8 * reg.length) : bitAt s' reg i =
        if i < perm.length then (cellsOf reg temp s).cell (source P i) else bitAt s reg i := by
      rw [← cellsOf_cell s' inside, cells', cells, cellsOf_cell s inside]
    have lengths : (perm.map BitVec.toNat).length = perm.length := List.length_map _
    refine ⟨fun i d place => ?_, fun i above inside => ?_, fun r kind notIn => ?_, exact'.memory⟩
    · have lower : i < perm.length := lengths ▸ (List.getElem?_eq_some_iff.1 place).1
      have comes := supplies.supplies i d place
      have target_lt : d < perm.length := lengths ▸ (isPermutation_iff.1 isPerm).2 d (List.mem_of_getElem? place)
      cases inverse with
      | true =>
          have comes : source P i = d := comes
          rw [if_pos rfl, bits (by omega), if_pos lower, comes, cellsOf_cell s (by omega)]
      | false =>
          have comes : source P d = i := comes.2
          rw [if_neg (by decide), bits (by omega), if_pos target_lt, comes, cellsOf_cell s (by omega)]
    · rw [lengths] at above
      rw [bits inside, if_neg (by omega)]
    · refine exact'.others r fun member => ?_
      rcases List.mem_cons.1 member with rfl | inReg
      · rcases kind with isHeld | rfl | rfl
        · exact scratch.notHeld isHeld
        · exact absurd scratch.bound (by decide)
        · exact absurd scratch.bound (by decide)
      · exact notIn inReg

/-- Without a temporary register nothing is permuted. -/
theorem bitPermute_noSpare {P : List Nat} (none : ¬hasSpare code = true)
    (inverted : invertPermutation (perm.map BitVec.toNat) inverse = .ok P) :
    ∃ message, (bitPermute reg perm inverse).run code = .error message := by
  unfold bitPermute
  split
  · exact ⟨_, rfl⟩
  · refine ⟨"too many registers in use", ?_⟩
    have go (f : List Nat → Build (Option Unit)) :
        ((liftM (Except.ok P : Except String (List Nat)) : Build (List Nat)) >>= f).run code = (f P).run code := rfl
    rw [inverted, go, StateT.run_bind, tempreg_noSpare none]
    rfl

/-- An array that is no permutation is refused, unless it is said to be inverted already. -/
theorem bitPermute_refuses (few : perm.length ≤ 240) (bad : ¬IsPermutation (perm.map BitVec.toNat)) :
    ∃ message, (bitPermute reg perm false).run code = .error message := by
  unfold bitPermute
  split
  · exact ⟨_, rfl⟩
  · rw [invertPermutation_error bad (by rwa [List.length_map])]
    exact ⟨_, rfl⟩

/-- No array is refused that is said to be inverted already. -/
theorem bitPermute_inverse_accepts (pool : Pool code) (held : ∀ r ∈ reg, Held code r)
    (fits : perm.length ≤ 8 * reg.length) (few : perm.length ≤ 240) (spare : hasSpare code = true) :
    Generates (bitPermute reg perm true) (fun _ _ => True) code := by
  obtain ⟨temp, code₁, ran, _, _, scratch⟩ := tempreg_spare pool spare
  have accepted : ¬(reg.size * 8 < perm.length ∨ 240 < perm.length) := by
    rw [Reg.size]
    omega
  unfold bitPermute
  rw [if_neg accepted]
  have inverted : invertPermutation (perm.map BitVec.toNat) true = .ok (perm.map BitVec.toNat) := rfl
  refine generates_bind (generates_lift inverted (generates_bind ⟨temp, code₁, ran, ?_⟩))
  cases scanned : permuteScan (perm.map BitVec.toNat) (List.range perm.length) (List.replicate perm.length false) with
  | none => exact generates_pure trivial
  | some moves =>
      have below := permuteScan_below List.length_replicate (fun i => List.mem_range.1) scanned
      exact generates_bind (generates_mono (generates_emitMoves (fun r member => (held r member).lt) scratch.bound
        fun m member => (below m member).mono fits) fun _ _ _ => generates_pure trivial)

/-- When `bit_permute` checks its array, and finds its temporary register. -/
def PermuteMeets (code : Code) (perm : List Byte) (inverse : Bool) : Prop :=
  (IsPermutation (perm.map BitVec.toNat) ∧ hasSpare code = true) ∨
    (¬IsPermutation (perm.map BitVec.toNat) ∧ (inverse = false ∨ ¬hasSpare code = true))

theorem permutesBits_of_permutation (pool : Pool code) (nodup : reg.Nodup) (held : ∀ r ∈ reg, Held code r)
    (fits : perm.length ≤ 8 * reg.length) (few : perm.length ≤ 240) (spare : hasSpare code = true)
    (isPerm : IsPermutation (perm.map BitVec.toNat)) : PermutesBits code reg perm inverse := by
  obtain ⟨⟨result, code', ran, value⟩, permutes⟩ := bitPermute_spec inverse pool nodup held fits few spare isPerm
  subst value
  refine ⟨iff_of_false ?_ (not_not.2 isPerm), fun _ => ?_⟩
  · rintro ⟨message, failed⟩
    rw [ran] at failed
    exact nomatch failed
  · obtain ⟨seg, _, parts, _⟩ := runsTo_of_wp (permutes AVRState.new) ran
    refine ⟨seg, code', ran, parts, fun s => ?_⟩
    obtain ⟨seg', s', parts', runs, holds⟩ := runsTo_of_wp (permutes s) ran
    rw [parts, List.append_cancel_left_eq] at parts'
    exact ⟨s', parts' ▸ runs, holds⟩

/-- `bit_permute` refuses exactly the arrays that are no permutations and permutes the bits of its register by the
others, if and only if the array is a permutation and a temporary register can be found, or it is none and is not said
to be inverted already or no temporary register can be found. -/
theorem bitPermute_permutes_iff (pool : Pool code) (nodup : reg.Nodup) (held : ∀ r ∈ reg, Held code r)
    (fits : perm.length ≤ 8 * reg.length) (few : perm.length ≤ 240) :
    PermutesBits code reg perm inverse ↔ PermuteMeets code perm inverse := by
  have few' : (perm.map BitVec.toNat).length ≤ 240 := by rwa [List.length_map]
  by_cases isPerm : IsPermutation (perm.map BitVec.toNat)
  · constructor
    · rintro ⟨throws, _⟩
      refine Or.inl ⟨isPerm, Classical.byContradiction fun none => ?_⟩
      obtain ⟨P, inverted, _⟩ := invertPermutation_ok isPerm few' inverse
      exact throws.1 (bitPermute_noSpare none inverted) isPerm
    · rintro (⟨_, spare⟩ | ⟨bad, _⟩)
      · exact permutesBits_of_permutation pool nodup held fits few spare isPerm
      · exact absurd isPerm bad
  · constructor
    · rintro ⟨throws, _⟩
      refine Or.inr ⟨isPerm, ?_⟩
      obtain ⟨message, failed⟩ := throws.2 isPerm
      cases inverse with
      | false => exact Or.inl rfl
      | true =>
          refine Or.inr fun spare => ?_
          obtain ⟨_, _, ran, _⟩ := bitPermute_inverse_accepts pool held fits few spare
          rw [ran] at failed
          exact nomatch failed
    · rintro (⟨good, _⟩ | ⟨_, refused⟩)
      · exact absurd good isPerm
      · refine ⟨iff_of_true ?_ isPerm, fun good => absurd good isPerm⟩
        cases inverse with
        | false => exact bitPermute_refuses few isPerm
        | true =>
            have none : ¬hasSpare code = true := refused.resolve_left fun same => nomatch same
            exact bitPermute_noSpare none rfl

end Permute

/-- A permutation of the bits of one of two registers that leaves one bit and swaps and cycles others. -/
theorem bitPermute_permutes_iff_six :
    PermutesBits twoRegisters [18, 19] [1#8, 0#8, 2#8, 5#8, 3#8, 4#8] false ↔
      PermuteMeets twoRegisters [1#8, 0#8, 2#8, 5#8, 3#8, 4#8] false := by
  refine bitPermute_permutes_iff pool_twoRegisters (by decide) ?_ (by decide) (by decide)
  intro r member
  refine Or.inl ?_
  rcases List.mem_cons.1 member with rfl | last
  · decide
  · rw [List.mem_singleton.1 last]
    decide

/-- An array that is said to be inverted already and has an entry twice is taken, and one with an entry beyond its end
reads beyond it. -/
theorem bitPermute_takes_anything :
    ¬IsPermutation ([0#8, 0#8].map BitVec.toNat) ∧
      (∃ code', (bitPermute [18, 19] [0#8, 0#8] true).run twoRegisters = .ok (some (), code')) ∧
      ¬IsPermutation ([1#8, 200#8].map BitVec.toNat) ∧
      ∃ code', (bitPermute [18, 19] [1#8, 200#8] true).run twoRegisters = .ok (none, code') := by
  refine ⟨?_, ⟨_, rfl⟩, ?_, ⟨_, rfl⟩⟩
  · rw [isPermutation_iff]
    decide
  · rw [isPermutation_iff]
    decide

end AsconSuite.Avr
