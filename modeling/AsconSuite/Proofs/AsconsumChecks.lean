/-
Module: AsconSuite.Proofs.AsconsumChecks
Layer: Proofs
Purpose: What `check_file` accepts: the sums files whose lines hold of the sources they name, where standard input
  holds nothing more when it was read before, and what it makes of the lines that `hash_file` prints.
Imports: AsconSuite.Proofs.AsconsumLines, AsconSuite.Proofs.HashStream, AsconSuite.Proofs.InitialStates
Trusted boundary: none
Main exports: Algorithm.digest, hashWith_eq, LineHolds, SumsFileHolds, Sources.behind, failures, checkText_counts,
  run_tally,
  CheckableName, ChecksAsDocumented, asconsum_checks, standard_input_is_read_once
-/
import AsconSuite.Proofs.AsconsumLines
import AsconSuite.Proofs.HashStream
import AsconSuite.Proofs.InitialStates

namespace AsconSuite

open ByteWord ByteMemory
open Transducer (run)

/-! ### Digests -/

/-- What an algorithm makes of some data. -/
def Algorithm.digest (algorithm : Algorithm) (data : List Byte) : List Byte := algorithm.functions.digest data

theorem Algorithm.functions_computes (algorithm : Algorithm) : algorithm.functions.Computes algorithm.digest := by
  cases algorithm with
  | hash => exact XofVariant.xof.hash_computes
  | hasha => exact XofVariant.xofa.hash_computes
  | xof => exact XofVariant.xof.functionsFrom_computes (Nat.zero_lt_succ 7) rfl
  | xofa => exact XofVariant.xofa.functionsFrom_computes (Nat.zero_lt_succ 7) rfl

section

variable (buffer : FileBuffer) {h : HashFunctions} {hash : List Byte → List Byte}

/-- The pieces that are read make up the whole file. -/
theorem hashLoop_absorbed (computes : h.Computes hash) (data : List Byte) (temp : Mem) (rest : List Byte) :
    hashLoop buffer h (h.absorbed data) temp rest = h.absorbed (data ++ rest) := by
  have large := buffer.large
  have absorbed (chunk : List Byte) :
      h.update (h.absorbed data) (temp.write 0 chunk) chunk.length = h.absorbed (data ++ chunk) := by
    rw [computes.update, read_write_same]
  rw [hashLoop]
  by_cases full : (rest.take buffer.size).length = buffer.size
  · have shorter : (rest.drop buffer.size).length < rest.length := by
      rw [List.length_take] at full
      rw [List.length_drop]
      omega
    rw [if_pos full, absorbed, hashLoop_absorbed computes, List.append_assoc, List.take_append_drop]
  · have whole : rest.take buffer.size = rest := by
      refine List.take_of_length_le ?_
      rw [List.length_take] at full
      omega
    rw [if_neg full, whole]
    by_cases some_data : 0 < rest.length
    · rw [if_pos some_data, absorbed]
    · rw [if_neg some_data, List.eq_nil_of_length_eq_zero (Nat.eq_zero_of_not_pos some_data), List.append_nil]
termination_by rest.length

theorem hashOpened_eq (computes : h.Computes hash) (file : Source) (temp mem : Mem) :
    hashOpened buffer h file temp mem = (!file.failed, mem.write 0 (hash file.bytes)) := by
  have loop := hashLoop_absorbed buffer computes [] temp file.bytes
  rw [computes.absorbed_nil, List.nil_append] at loop
  rw [hashOpened, loop]
  exact congrArg (Prod.mk _) (computes.finalize file.bytes mem 0)

end

/-- The selected function computes the selected hash of the whole file. -/
theorem hashWith_eq (buffer : FileBuffer) (algorithm : Algorithm) (file : Source) (temp mem : Mem) :
    hashWith buffer algorithm file temp mem = (!file.failed, mem.write 0 (algorithm.digest file.bytes)) := by
  have computed := hashOpened_eq buffer algorithm.functions_computes file temp mem
  rw [← computed]
  cases algorithm <;> rfl

theorem Algorithm.length_digest (algorithm : Algorithm) (data : List Byte) :
    (algorithm.digest data).length = asconHashSize := algorithm.functions_computes.length_hash data

/-! ### Lines that hold -/

/-- A line holds of some sources: it is well formed, what it names is another source than the standard input that the
sums file is read from, the source can be read, and its hash is the one in the line. -/
def LineHolds (algorithm : Algorithm) (filename : List Byte) (sources : Sources) (text : List Byte) : Prop :=
  ∃ digest name source, SumsLine text digest name ∧ ¬(name = dashName ∧ filename = dashName) ∧
    sources.opened name = some source ∧ source.failed = false ∧ digest = algorithm.digest source.bytes

/-- The lines of a sums file hold: there is one that is well formed, and all that are not empty hold of the sources
that are found behind the lines in front of them. -/
structure SumsFileHolds (algorithm : Algorithm) (filename : List Byte) (behind : List (List Byte) → Sources)
    (lines : List (List Byte)) : Prop where
  found : ∃ text ∈ lines, ∃ digest name, SumsLine text digest name
  all : ∀ earlier text later, lines = earlier ++ text :: later → text ≠ [] →
    LineHolds algorithm filename (behind earlier) text

open Classical in
/-- The number of lines that are not empty and do not hold, behind some earlier lines. -/
noncomputable def failures (algorithm : Algorithm) (filename : List Byte) (behind : List (List Byte) → Sources) :
    (earlier lines : List (List Byte)) → Nat
  | _, [] => 0
  | earlier, text :: later =>
      (if text ≠ [] ∧ ¬LineHolds algorithm filename (behind earlier) text then 1 else 0) +
        failures algorithm filename behind (earlier ++ [text]) later

/-- A line that names standard input. -/
def NamesStandardInput (text : List Byte) : Prop := ∃ digest, SumsLine text digest dashName

open Classical in
/-- The sources behind some lines: when one of them names standard input, nothing is left of it. -/
noncomputable def Sources.behind (sources : Sources) (earlier : List (List Byte)) : Sources :=
  if ∃ text ∈ earlier, NamesStandardInput text then sources.consumed dashName else sources

theorem behind_of_mem {sources : Sources} {earlier : List (List Byte)}
    (names : ∃ text ∈ earlier, NamesStandardInput text) : sources.behind earlier = sources.consumed dashName := if_pos names

theorem behind_of_not_mem {sources : Sources} {earlier : List (List Byte)}
    (names : ¬∃ text ∈ earlier, NamesStandardInput text) : sources.behind earlier = sources := if_neg names

theorem consumed_consumed (sources : Sources) (name : List Byte) :
    (sources.consumed name).consumed name = sources.consumed name := by
  rw [Sources.consumed, Sources.consumed]
  split <;> rfl

theorem opened_consumed_of_ne {name other : List Byte} (apart : other ≠ dashName) (sources : Sources) :
    (sources.consumed name).opened other = sources.opened other := by
  rw [Sources.opened, Sources.opened, if_neg apart, if_neg apart, Sources.consumed]
  split <;> rfl

theorem opened_consumed_dash {sources other : Sources} (same : sources.opened dashName = other.opened dashName) :
    (sources.consumed dashName).opened dashName = (other.consumed dashName).opened dashName := by
  have inputs : sources.standardInput = other.standardInput := Option.some.inj same
  simp only [Sources.opened, Sources.consumed, if_true, inputs]

/-- Behind a line that does not name standard input, the sources are as in front of it. -/
theorem behind_concat_of_not_names {text : List Byte} (other : ¬NamesStandardInput text) (sources : Sources)
    (earlier : List (List Byte)) : sources.behind (earlier ++ [text]) = sources.behind earlier := by
  have same : (∃ line ∈ earlier ++ [text], NamesStandardInput line) ↔ ∃ line ∈ earlier, NamesStandardInput line := by
    constructor
    · rintro ⟨line, member, names⟩
      rcases List.mem_append.1 member with front | last
      · exact ⟨line, front, names⟩
      · exact absurd (List.mem_singleton.1 last ▸ names) other
    · rintro ⟨line, member, names⟩
      exact ⟨line, List.mem_append_left _ member, names⟩
  by_cases names : ∃ line ∈ earlier, NamesStandardInput line
  · rw [behind_of_mem names, behind_of_mem (same.2 names)]
  · rw [behind_of_not_mem names, behind_of_not_mem fun found => names (same.1 found)]

theorem behind_concat_of_names {text : List Byte} (names : NamesStandardInput text) (sources : Sources)
    (earlier : List (List Byte)) : sources.behind (earlier ++ [text]) = (sources.behind earlier).consumed dashName := by
  rw [behind_of_mem ⟨text, List.mem_append_right _ (List.mem_singleton_self _), names⟩]
  by_cases before : ∃ line ∈ earlier, NamesStandardInput line
  · rw [behind_of_mem before, consumed_consumed]
  · rw [behind_of_not_mem before]

/-! ### The loop -/

/-- The counters of failures, as numbers. -/
def CheckState.Counts (check : CheckState) (format mismatch read : Nat) : Prop :=
  check.formatErrors = BitVec.ofNat 32 format ∧ check.mismatchErrors = BitVec.ofNat 32 mismatch ∧
    check.readErrors = BitVec.ofNat 32 read

theorem ofNat_succ (n : Nat) : BitVec.ofNat 32 n + 1 = BitVec.ofNat 32 (n + 1) := (BitVec.ofNat_add n 1).symm

variable {buffer : FileBuffer} {algorithm : Algorithm} {filename : List Byte} {check : CheckState} {text : List Byte}

/-- A well-formed line holds when the source it names does. -/
theorem lineHolds_iff {sources : Sources} {digest name : List Byte} (isLine : SumsLine text digest name) :
    LineHolds algorithm filename sources text ↔ ¬(name = dashName ∧ filename = dashName) ∧
      ∃ source, sources.opened name = some source ∧ source.failed = false ∧ digest = algorithm.digest source.bytes := by
  constructor
  · rintro ⟨digest', name', source, isLine', apart, opened, reads, same⟩
    obtain ⟨rfl, rfl⟩ := sumsLine_unique isLine isLine'
    exact ⟨apart, source, opened, reads, same⟩
  · rintro ⟨apart, source, opened, reads, same⟩
    exact ⟨digest, name, source, isLine, apart, opened, reads, same⟩

/-- What is reported for a source. -/
inductive Verdict where
  | ok
  | mismatch
  | unreadable
deriving DecidableEq

/-- The report for a source and the hash in the line. -/
def Algorithm.verdict (algorithm : Algorithm) (opened : Option Source) (digest : List Byte) : Verdict :=
  match opened with
  | none => .unreadable
  | some source =>
      if source.failed then .unreadable
      else if digest = algorithm.digest source.bytes then .ok
      else .mismatch

theorem verdict_eq_ok_iff {opened : Option Source} {digest : List Byte} :
    algorithm.verdict opened digest = .ok ↔
      ∃ source, opened = some source ∧ source.failed = false ∧ digest = algorithm.digest source.bytes := by
  cases opened with
  | none =>
      constructor
      · exact fun same => nomatch same
      · rintro ⟨source, same, -⟩
        exact nomatch same
  | some source =>
      rw [Algorithm.verdict]
      constructor
      · intro ok
        cases failed : source.failed with
        | true => simp [failed] at ok
        | false =>
            by_cases same : digest = algorithm.digest source.bytes
            · exact ⟨source, rfl, failed, same⟩
            · simp [failed, same] at ok
      · rintro ⟨other, found, failed, same⟩
        rw [← Option.some.inj found] at failed same
        simp [failed, same]

/-- The counter that stands for a report. -/
def Verdict.count (report : Verdict) (kind : Verdict) : Nat := if report = kind then 1 else 0

variable (buffer algorithm filename check) in
/-- A line that is not well formed. -/
theorem checkText_of_malformed (malformed : ∀ digest name, ¬SumsLine text digest name) :
    ∃ hash, checkText buffer algorithm filename check text =
      { check with hash := hash, formatErrors := check.formatErrors + 1 } := by
  have parsed : (parseLine text check.hash).2 = none := by
    cases parsed : (parseLine text check.hash).2 with
    | none => rfl
    | some name =>
        obtain ⟨digest, isLine⟩ := sumsLine_of_parseLine parsed
        exact absurd isLine (malformed digest name)
  refine ⟨(parseLine text check.hash).1, ?_⟩
  simp only [checkText, parsed]

section

variable {digest name : List Byte} (isLine : SumsLine text digest name)
include isLine

/-- A line that names the standard input it is read from. -/
theorem checkText_of_own (own : name = dashName ∧ filename = dashName) :
    checkText buffer algorithm filename check text =
      { check with
        hash := check.hash.write 0 digest
        found := true
        formatErrors := check.formatErrors + 1 } := by
  simp only [checkText, parseLine_of_sumsLine isLine, own, and_self, if_true]

variable (buffer algorithm check) in
/-- All other lines. -/
theorem checkText_of_source (apart : ¬(name = dashName ∧ filename = dashName)) :
    ∃ hash2, checkText buffer algorithm filename check text =
      { check with
        hash := check.hash.write 0 digest
        hash2 := hash2
        found := true
        mismatchErrors := check.mismatchErrors +
          BitVec.ofNat 32 ((algorithm.verdict (check.sources.opened name) digest).count .mismatch)
        readErrors := check.readErrors +
          BitVec.ofNat 32 ((algorithm.verdict (check.sources.opened name) digest).count .unreadable)
        sources := check.sources.consumed name } := by
  have stored : (check.hash.write 0 digest).read 0 asconHashSize = digest :=
    read_write_of_length isLine.length_hash
  cases opened : check.sources.opened name with
  | none =>
      refine ⟨check.hash2, ?_⟩
      simp only [checkText, parseLine_of_sumsLine isLine, apart, if_false, opened, Algorithm.verdict]
      simp [Verdict.count]
  | some source =>
      have computed : (check.hash2.write 0 (algorithm.digest source.bytes)).read 0 asconHashSize =
          algorithm.digest source.bytes := read_write_of_length (algorithm.length_digest source.bytes)
      refine ⟨check.hash2.write 0 (algorithm.digest source.bytes), ?_⟩
      simp only [checkText, parseLine_of_sumsLine isLine, apart, if_false, opened, Algorithm.verdict, hashWith_eq,
        stored, computed]
      cases source.failed with
      | true => simp [Verdict.count]
      | false =>
          by_cases same : digest = algorithm.digest source.bytes
          · rw [beq_iff_eq.2 same, if_pos same]
            simp [Verdict.count]
          · rw [beq_false_of_ne same, if_neg same]
            simp [Verdict.count]

end

variable (buffer algorithm filename text) in
open Classical in
/-- A line that does not hold is counted, and one that holds is not. -/
theorem checkText_counts {format mismatch read : Nat} (counts : check.Counts format mismatch read) :
    ∃ format' mismatch' read', (checkText buffer algorithm filename check text).Counts format' mismatch' read' ∧
      format' + mismatch' + read' = format + mismatch + read +
        if ¬LineHolds algorithm filename check.sources text then 1 else 0 := by
  obtain ⟨formats, mismatches, reads⟩ := counts
  have refused (not_holds : ¬LineHolds algorithm filename check.sources text) :
      format + 1 + mismatch + read = format + mismatch + read +
        if ¬LineHolds algorithm filename check.sources text then 1 else 0 := by
    rw [if_pos not_holds]
    omega
  by_cases wellFormed : ∃ digest name, SumsLine text digest name
  · obtain ⟨digest, name, isLine⟩ := wellFormed
    by_cases own : name = dashName ∧ filename = dashName
    · refine ⟨format + 1, mismatch, read, ?_, refused fun holds => ((lineHolds_iff isLine).1 holds).1 own⟩
      rw [checkText_of_own isLine own]
      exact ⟨(congrArg (· + 1) formats).trans (ofNat_succ format), mismatches, reads⟩
    · obtain ⟨hash2, state⟩ := checkText_of_source buffer algorithm check isLine own
      have holds : LineHolds algorithm filename check.sources text ↔
          algorithm.verdict (check.sources.opened name) digest = .ok := by
        rw [lineHolds_iff isLine, verdict_eq_ok_iff, and_iff_right own]
      simp only [state, holds]
      generalize algorithm.verdict (check.sources.opened name) digest = report
      refine ⟨format, mismatch + report.count .mismatch, read + report.count .unreadable, ⟨formats, ?_, ?_⟩, ?_⟩
      · exact (congrArg (· + _) mismatches).trans (BitVec.ofNat_add _ _).symm
      · exact (congrArg (· + _) reads).trans (BitVec.ofNat_add _ _).symm
      · cases report <;> simp [Verdict.count] <;> omega
  · have malformed : ∀ digest name, ¬SumsLine text digest name := fun digest name isLine =>
      wellFormed ⟨digest, name, isLine⟩
    refine ⟨format + 1, mismatch, read, ?_, refused ?_⟩
    · obtain ⟨hash, state⟩ := checkText_of_malformed buffer algorithm filename check malformed
      rw [state]
      exact ⟨(congrArg (· + 1) formats).trans (ofNat_succ format), mismatches, reads⟩
    · rintro ⟨digest, name, source, isLine, -⟩
      exact malformed digest name isLine

/-- A well-formed line is remembered. -/
theorem checkText_found :
    (checkText buffer algorithm filename check text).found = true ↔
      check.found = true ∨ ∃ digest name, SumsLine text digest name := by
  by_cases wellFormed : ∃ digest name, SumsLine text digest name
  · refine iff_of_true ?_ (Or.inr wellFormed)
    obtain ⟨digest, name, isLine⟩ := wellFormed
    by_cases own : name = dashName ∧ filename = dashName
    · rw [checkText_of_own isLine own]
    · obtain ⟨hash2, state⟩ := checkText_of_source buffer algorithm check isLine own
      rw [state]
  · obtain ⟨hash, state⟩ := checkText_of_malformed buffer algorithm filename check
      fun digest name isLine => wellFormed ⟨digest, name, isLine⟩
    rw [state, or_iff_left wellFormed]

/-- The sources that the lines of a sums file may name are found as if the lines had been read in order. -/
def SourcesAgree (filename : List Byte) (sources other : Sources) : Prop :=
  ∀ name, ¬(name = dashName ∧ filename = dashName) → sources.opened name = other.opened name

theorem checkText_sources {sources : Sources} {earlier : List (List Byte)}
    (agree : SourcesAgree filename check.sources (sources.behind earlier)) :
    SourcesAgree filename (checkText buffer algorithm filename check text).sources
      (sources.behind (earlier ++ [text])) := by
  by_cases wellFormed : ∃ digest name, SumsLine text digest name
  · obtain ⟨digest, name, isLine⟩ := wellFormed
    have consumed (other : List Byte) (apart : ¬(other = dashName ∧ filename = dashName))
        (some_file : name = dashName → filename ≠ dashName) :
        (check.sources.consumed name).opened other = (sources.behind (earlier ++ [text])).opened other := by
      by_cases input : name = dashName
      · subst input
        rw [behind_concat_of_names ⟨digest, isLine⟩]
        by_cases isInput : other = dashName
        · subst isInput
          exact opened_consumed_dash (agree dashName fun both => some_file rfl both.2)
        · rw [opened_consumed_of_ne isInput, opened_consumed_of_ne isInput]
          exact agree other apart
      · have others : ¬NamesStandardInput text := fun ⟨_, names⟩ => input (sumsLine_unique isLine names).2
        rw [behind_concat_of_not_names others, Sources.consumed, if_neg input]
        exact agree other apart
    by_cases own : name = dashName ∧ filename = dashName
    · -- nothing is read, and standard input is not named by a line that holds
      rw [checkText_of_own isLine own]
      intro other apart
      have isOther : other ≠ dashName := fun isInput => apart ⟨isInput, own.2⟩
      rw [behind_concat_of_names ⟨digest, own.1 ▸ isLine⟩, opened_consumed_of_ne isOther]
      exact agree other apart
    · obtain ⟨hash2, state⟩ := checkText_of_source buffer algorithm check isLine own
      rw [state]
      exact fun other apart => consumed other apart fun input isInput => own ⟨input, isInput⟩
  · obtain ⟨hash, state⟩ := checkText_of_malformed buffer algorithm filename check
      fun digest name isLine => wellFormed ⟨digest, name, isLine⟩
    rw [state, behind_concat_of_not_names fun ⟨digest, names⟩ => wellFormed ⟨digest, dashName, names⟩]
    exact agree

/-! ### Runs -/

/-- One turn of the loop, for the text of a line. -/
def turn (buffer : FileBuffer) (algorithm : Algorithm) (filename : List Byte) (check : CheckState)
    (text : List Byte) : CheckState :=
  if text = [] then check else checkText buffer algorithm filename check text

theorem foldl_checkLine (lines : List (List Byte)) (check : CheckState) :
    lines.foldl (checkLine buffer algorithm filename) check =
      (texts lines).foldl (turn buffer algorithm filename) check := by
  induction lines generalizing check with
  | nil => rfl
  | cons line lines ih =>
      rw [List.foldl_cons, ih, texts_cons]
      by_cases empty : trimLine line = []
      · rw [if_pos empty, checkLine, if_pos empty]
      · rw [if_neg empty, List.foldl_cons, checkLine, if_neg empty, turn, if_neg empty]

theorem foldl_turn_filter (lines : List (List Byte)) (check : CheckState) :
    (lines.filter (· ≠ [])).foldl (turn buffer algorithm filename) check =
      lines.foldl (turn buffer algorithm filename) check := by
  induction lines generalizing check with
  | nil => rfl
  | cons text lines ih =>
      by_cases empty : text = []
      · rw [List.filter_cons_of_neg (by simp [empty]), ih, List.foldl_cons, turn, if_pos empty]
      · rw [List.filter_cons_of_pos (by simp [empty]), List.foldl_cons, List.foldl_cons, ih]

/-- What the variables say about the lines so far. -/
structure Tally (algorithm : Algorithm) (filename : List Byte) (sources : Sources) (lines : List (List Byte))
    (check : CheckState) : Prop where
  counts : ∃ format mismatch read, check.Counts format mismatch read ∧
    format + mismatch + read = failures algorithm filename sources.behind [] lines
  found : check.found = true ↔ ∃ text ∈ lines, ∃ digest name, SumsLine text digest name
  sources : SourcesAgree filename check.sources (sources.behind lines)

/-- A line holds of sources that agree. -/
theorem lineHolds_congr {sources other : Sources} (agree : SourcesAgree filename sources other) :
    LineHolds algorithm filename sources text ↔ LineHolds algorithm filename other text := by
  constructor
  · rintro ⟨digest, name, source, isLine, apart, opened, rest⟩
    exact ⟨digest, name, source, isLine, apart, (agree name apart).symm.trans opened, rest⟩
  · rintro ⟨digest, name, source, isLine, apart, opened, rest⟩
    exact ⟨digest, name, source, isLine, apart, (agree name apart).trans opened, rest⟩

/-- What holds of all lines, with one line more. -/
theorem forall_lines_concat {P : List (List Byte) → List Byte → Prop} {lines : List (List Byte)} :
    (∀ earlier line later, lines ++ [text] = earlier ++ line :: later → line ≠ [] → P earlier line) ↔
      (∀ earlier line later, lines = earlier ++ line :: later → line ≠ [] → P earlier line) ∧
        (text ≠ [] → P lines text) := by
  constructor
  · intro all
    refine ⟨fun earlier line later parts => all earlier line (later ++ [text]) ?_, all lines text [] rfl⟩
    rw [parts, List.append_assoc, List.cons_append]
  · rintro ⟨front, last⟩ earlier line later parts some_text
    rcases List.eq_nil_or_concat later with rfl | ⟨init, final, rfl⟩
    · obtain ⟨rfl, same⟩ := List.append_inj' parts rfl
      cases same
      exact last some_text
    · rw [List.concat_eq_append, ← List.cons_append, ← List.append_assoc] at parts
      obtain ⟨same, -⟩ := List.append_inj' parts rfl
      exact front earlier line init same some_text

open Classical in
theorem failures_concat (behind : List (List Byte) → Sources) (earlier lines : List (List Byte)) :
    failures algorithm filename behind earlier (lines ++ [text]) = failures algorithm filename behind earlier lines +
      if text ≠ [] ∧ ¬LineHolds algorithm filename (behind (earlier ++ lines)) text then 1 else 0 := by
  induction lines generalizing earlier with
  | nil => rw [List.nil_append, failures, failures, failures, List.append_nil, Nat.zero_add, Nat.add_zero]
  | cons line lines ih => rw [List.cons_append, failures, failures, ih, List.append_cons earlier line lines, Nat.add_assoc]

/-- No line fails when all lines hold that are not empty. -/
theorem failures_eq_zero_iff (behind : List (List Byte) → Sources) (lines : List (List Byte)) :
    failures algorithm filename behind [] lines = 0 ↔
      ∀ earlier text later, lines = earlier ++ text :: later → text ≠ [] →
        LineHolds algorithm filename (behind earlier) text := by
  induction lines using List.reverseRecOn with
  | nil =>
      refine iff_of_true rfl fun earlier text later parts => ?_
      exact absurd parts.symm (List.append_ne_nil_of_right_ne_nil earlier (List.cons_ne_nil text later))
  | append_singleton lines text ih =>
      rw [failures_concat, Nat.add_eq_zero_iff, ih, forall_lines_concat, List.nil_append]
      refine and_congr_right fun _ => ?_
      by_cases fails : text ≠ [] ∧ ¬LineHolds algorithm filename (behind lines) text
      · rw [if_pos fails]
        exact iff_of_false Nat.one_ne_zero fun holds => fails.2 (holds fails.1)
      · rw [if_neg fails]
        exact iff_of_true rfl fun some_text => Classical.byContradiction fun not_holds => fails ⟨some_text, not_holds⟩

theorem failures_le_length (behind : List (List Byte) → Sources) (earlier lines : List (List Byte)) :
    failures algorithm filename behind earlier lines ≤ lines.length := by
  induction lines generalizing earlier with
  | nil => exact Nat.le_refl 0
  | cons text lines ih =>
      have rest := ih (earlier ++ [text])
      rw [failures, List.length_cons]
      split <;> omega

variable (buffer) in
theorem run_tally {sources : Sources} {start : CheckState}
    (fresh : Tally algorithm filename sources [] start) (lines : List (List Byte)) :
    Tally algorithm filename sources lines (lines.foldl (turn buffer algorithm filename) start) := by
  induction lines using List.reverseRecOn with
  | nil => exact fresh
  | append_singleton lines text ih =>
      rw [List.foldl_append, List.foldl_cons, List.foldl_nil]
      generalize lines.foldl (turn buffer algorithm filename) start = check at ih
      obtain ⟨⟨format, mismatch, read, counts, total⟩, found, agree⟩ := ih
      have mem_concat : (∃ line ∈ lines ++ [text], ∃ digest name, SumsLine line digest name) ↔
          (∃ line ∈ lines, ∃ digest name, SumsLine line digest name) ∨ ∃ digest name, SumsLine text digest name := by
        simp only [List.mem_append, List.mem_singleton, or_and_right, exists_or, exists_eq_left]
      rw [turn]
      by_cases empty : text = []
      · have no_line : ¬∃ digest name, SumsLine text digest name := fun ⟨_, _, isLine⟩ => isLine.text_ne_nil empty
        rw [if_pos empty]
        refine ⟨⟨format, mismatch, read, counts, ?_⟩, ?_, ?_⟩
        · rw [failures_concat, if_neg fun fails => fails.1 empty]
          exact total
        · rw [found, mem_concat, or_iff_left no_line]
        · rw [behind_concat_of_not_names fun ⟨digest, names⟩ => no_line ⟨digest, dashName, names⟩]
          exact agree
      · rw [if_neg empty]
        obtain ⟨format', mismatch', read', counts', total'⟩ :=
          checkText_counts buffer algorithm filename text counts
        refine ⟨⟨format', mismatch', read', counts', ?_⟩, ?_, checkText_sources agree⟩
        · rw [total', total, failures_concat, List.nil_append]
          by_cases holds : LineHolds algorithm filename check.sources text
          · rw [if_neg (not_not_intro holds), if_neg fun fails => fails.2 ((lineHolds_congr agree).1 holds)]
          · rw [if_pos holds, if_pos ⟨empty, fun other => holds ((lineHolds_congr agree).2 other)⟩]
        · rw [checkText_found, found, mem_concat]

/-! ### Names that are printed -/

/-- A name that comes back from a line: it is not empty, it neither begins with a space nor ends in a carriage return,
there are no line feeds and no zeros in it, and its line has room in the buffer. -/
structure CheckableName (name : List Byte) : Prop where
  named : name ≠ []
  noSpace : ∀ rest, name ≠ 0x20 :: rest
  noReturn : ∀ front, name ≠ front ++ [0x0D]
  noFeed : (0x0A : Byte) ∉ name
  noZero : (0 : Byte) ∉ name
  fits : 2 * asconHashSize + 2 + name.length + 1 ≤ asconLineSize

/-- The line for a hash and a name, without its line feed. -/
def printedText (digest name : List Byte) : List Byte := digest.flatMap (hexPair false) ++ [0x20, 0x20] ++ name

theorem hashFile_eq {sources : Sources} {source : Source} (opened : sources.opened filename = some source)
    (reads : source.failed = false) :
    hashFile buffer algorithm sources filename =
      some (printedText (algorithm.digest source.bytes) filename ++ [0x0A]) := by
  have digest : (Mem.write (fun _ => 0) 0 (algorithm.digest source.bytes)).read 0 asconHashSize =
      algorithm.digest source.bytes := read_write_of_length (algorithm.length_digest source.bytes)
  rw [hashFile, opened]
  simp only [hashWith_eq, reads, Bool.not_false, if_true, digest, printedText]

/-- The hash in a printed line spells the hash, and the rest of the line is the name. -/
theorem sumsLine_printedText {digest name : List Byte} (whole : digest.length = asconHashSize) (named : name ≠ [])
    (noSpace : ∀ rest, name ≠ 0x20 :: rest) : SumsLine (printedText digest name) digest name where
  parts := by
    refine ⟨digest.flatMap (hexPair false), 1, rfl, ?_, fun ch member => isSome_hexValue_of_mem_hexPairs member,
      spelled_hexPairs false digest⟩
    rw [length_flatMap_pairs fun _ => rfl, whole]
  named := named
  noSpace := noSpace

/-- A character of a printed line is a digit, a space or from the name. -/
theorem not_mem_printedText {digest name : List Byte} {ch : Byte} (noDigit : hexValue ch = none) (noSpace : ch ≠ 0x20)
    (absent : ch ∉ name) : ch ∉ printedText digest name := by
  intro member
  rcases List.mem_append.1 member with front | last
  · rcases List.mem_append.1 front with pair | space
    · have digit := isSome_hexValue_of_mem_hexPairs pair
      rw [noDigit] at digit
      exact nomatch digit
    · rcases List.mem_cons.1 space with same | space
      · exact noSpace same
      · exact noSpace (List.mem_singleton.1 space)
  · exact absent last

theorem length_printedText {digest name : List Byte} (whole : digest.length = asconHashSize) :
    (printedText digest name).length = 2 * asconHashSize + 2 + name.length := by
  rw [printedText, List.length_append, List.length_append, length_flatMap_pairs fun _ => rfl, whole]
  rfl

/-- The lines of some printed lines. -/
theorem splitOn_printed {text : List Byte} (noFeed : (0x0A : Byte) ∉ text) (rest : List Byte) :
    (text ++ [0x0A] ++ rest).splitOn 0x0A = text :: rest.splitOn 0x0A := by
  rw [List.append_assoc]
  exact List.splitOn_append_cons_self_of_not_mem noFeed rest

theorem rdropWhile_printedText {digest name : List Byte} (named : name ≠ []) (noReturn : ∀ front, name ≠ front ++ [0x0D]) :
    (printedText digest name).rdropWhile (· == 0x0D) = printedText digest name := by
  obtain ⟨front, last, rfl⟩ := (List.eq_nil_or_concat name).resolve_left named
  have apart : ¬((last == 0x0D) = true) := fun same => noReturn front (by rw [List.concat_eq_append, eq_of_beq same])
  rw [printedText, List.concat_eq_append, ← List.append_assoc, List.rdropWhile_concat_neg (· == (0x0D : Byte)) _ _ apart]

section

variable {digest name : List Byte} (checkable : CheckableName name)
include checkable

variable (digest) in
theorem noFeed_printedText : (0x0A : Byte) ∉ printedText digest name :=
  not_mem_printedText rfl (by decide) checkable.noFeed

variable (digest) in
theorem noZero_printedText : (0 : Byte) ∉ printedText digest name :=
  not_mem_printedText rfl (by decide) checkable.noZero

variable (whole : digest.length = asconHashSize)
include whole

theorem fits_printedText : (printedText digest name).length + 1 ≤ asconLineSize := by
  rw [length_printedText whole]
  exact checkable.fits

/-- The line that is printed for a name is the only text that is read back from it. -/
theorem texts_printed : texts (fgetsLines (printedText digest name ++ [0x0A])) = [printedText digest name] := by
  have split := splitOn_printed (noFeed_printedText digest checkable) []
  rw [List.append_nil, List.splitOn_nil] at split
  have noZero : (0 : Byte) ∉ printedText digest name ++ [0x0A] := by
    rw [List.mem_append, List.mem_singleton]
    exact fun either => either.elim (noZero_printedText digest checkable) (by decide)
  have fit : LinesFit (printedText digest name ++ [0x0A]) := by
    intro line member
    rw [split] at member
    rcases List.mem_cons.1 member with rfl | last
    · exact fits_printedText checkable whole
    · rw [List.mem_singleton.1 last]
      decide
  have some_text := (sumsLine_printedText whole checkable.named checkable.noSpace).text_ne_nil
  rw [texts_fgetsLines noZero fit, sumsTexts, split, List.map_cons, List.map_singleton, List.rdropWhile_nil,
    rdropWhile_printedText checkable.named checkable.noReturn, List.filter_cons_of_pos (by simp [some_text])]
  rfl

end

/-! ### Checks as documented -/

/-- What is expected of `check_file` and `hash_file`, for sums files with some number of failing lines and with what is
found behind the lines of a sums file. -/
structure ChecksAsDocumented (buffer : FileBuffer) (algorithm : Algorithm) (fewFailures : Nat → Prop)
    (behind : Sources → List (List Byte) → Sources) : Prop where
  accepts : ∀ sources filename file, sources.opened filename = some file → (0 : Byte) ∉ file.bytes →
    LinesFit file.bytes → fewFailures (failures algorithm filename (behind sources) [] (sumsTexts file.bytes)) →
      (checkFile buffer algorithm sources filename = true ↔
        SumsFileHolds algorithm filename (behind sources) (sumsTexts file.bytes))
  printed : ∀ sources filename line, hashFile buffer algorithm sources filename = some line → CheckableName filename →
    ∃ source text, sources.opened filename = some source ∧ texts (fgetsLines line) = [text] ∧
      ∀ hash, parseLine text hash = (hash.write 0 (algorithm.digest source.bytes), some filename)

theorem ofNat_beq_zero {n : Nat} (small : n < 2 ^ 32) : (BitVec.ofNat 32 n == 0) = true ↔ n = 0 := by
  rw [beq_iff_eq]
  constructor
  · intro zero
    have value := congrArg BitVec.toNat zero
    rw [BitVec.toNat_ofNat, Nat.mod_eq_of_lt small] at value
    exact value
  · rintro rfl
    rfl

theorem checkFile_iff {sources : Sources} {file : Source} (opened : sources.opened filename = some file)
    (noZero : (0 : Byte) ∉ file.bytes) (fit : LinesFit file.bytes)
    (few : failures algorithm filename sources.behind [] (sumsTexts file.bytes) < 2 ^ 31) :
    checkFile buffer algorithm sources filename = true ↔
      SumsFileHolds algorithm filename sources.behind (sumsTexts file.bytes) := by
  have no_lines : sources.behind [] = sources := behind_of_not_mem fun ⟨_, member, _⟩ => nomatch member
  have fresh : Tally algorithm filename sources [] ⟨fun _ => 0, fun _ => 0, false, 0, 0, 0, sources⟩ := by
    refine ⟨⟨0, 0, 0, ⟨rfl, rfl, rfl⟩, rfl⟩, ?_, ?_⟩
    · exact iff_of_false Bool.false_ne_true fun ⟨_, member, _⟩ => nomatch member
    · rw [no_lines]
      exact fun name _ => rfl
  have tally := run_tally buffer fresh (sumsTexts file.bytes)
  rw [checkFile, opened]
  simp only [foldl_checkLine, texts_fgetsLines noZero fit, foldl_turn_filter]
  generalize (sumsTexts file.bytes).foldl (turn buffer algorithm filename) _ = check at tally
  obtain ⟨⟨format, mismatch, read, ⟨formats, mismatches, reads⟩, total⟩, found, -⟩ := tally
  have none : failures algorithm filename sources.behind [] (sumsTexts file.bytes) = 0 ↔ _ :=
    failures_eq_zero_iff sources.behind (sumsTexts file.bytes)
  rw [formats, mismatches, reads, Bool.and_eq_true, Bool.and_eq_true, Bool.and_eq_true, ofNat_beq_zero (by omega),
    ofNat_beq_zero (by omega), ofNat_beq_zero (by omega), found]
  constructor
  · rintro ⟨⟨⟨some_line, rfl⟩, rfl⟩, rfl⟩
    exact ⟨some_line, none.1 total.symm⟩
  · rintro ⟨some_line, all⟩
    have zero := none.2 all
    refine ⟨⟨⟨some_line, ?_⟩, ?_⟩, ?_⟩ <;> omega

/-- A line for the letter that is on standard input. -/
def inputText : List Byte := printedText (Algorithm.hash.digest [0x61]) dashName

theorem checkableName_dash : CheckableName dashName where
  named := by decide
  noSpace := by
    intro rest same
    exact absurd (List.cons.inj same).1 (by decide)
  noReturn := by
    intro front same
    have last := congrArg List.getLast? same
    rw [List.getLast?_concat] at last
    exact absurd last (by decide)
  noFeed := by decide
  noZero := by decide
  fits := by decide

theorem sumsLine_inputText : SumsLine inputText (Algorithm.hash.digest [0x61]) dashName :=
  sumsLine_printedText (Algorithm.length_digest _ _) checkableName_dash.named checkableName_dash.noSpace

section

variable (rest : List Byte)

theorem splitOn_inputText : (inputText ++ [0x0A] ++ rest).splitOn 0x0A = inputText :: rest.splitOn 0x0A :=
  splitOn_printed (noFeed_printedText _ checkableName_dash) rest

/-- The line is the first one of a sums file. -/
theorem sumsTexts_inputText : sumsTexts (inputText ++ [0x0A] ++ rest) = inputText :: sumsTexts rest := by
  have kept : inputText.rdropWhile (· == 0x0D) = inputText :=
    rdropWhile_printedText checkableName_dash.named checkableName_dash.noReturn
  rw [sumsTexts, splitOn_inputText, List.map_cons, kept, sumsTexts]

variable {rest}

theorem noZero_inputText (noZero : (0 : Byte) ∉ rest) : (0 : Byte) ∉ inputText ++ [0x0A] ++ rest := by
  rw [List.mem_append, List.mem_append, List.mem_singleton]
  rintro ((inLine | feed) | later)
  · exact noZero_printedText _ checkableName_dash inLine
  · exact absurd feed (by decide)
  · exact noZero later

theorem linesFit_inputText (fit : LinesFit rest) : LinesFit (inputText ++ [0x0A] ++ rest) := by
  intro line member
  rw [splitOn_inputText] at member
  rcases List.mem_cons.1 member with rfl | later
  · exact fits_printedText checkableName_dash (Algorithm.length_digest _ _)
  · exact fit line later

end

theorem sumsTexts_nil : sumsTexts [] = [[]] := rfl

theorem linesFit_nil : LinesFit [] := by
  intro line member
  rw [List.mem_singleton.1 member]
  decide

/-- The sources: a letter on standard input, and a sums file `s` with the line for it. -/
def onceSources : Sources where
  named := fun name => if name = [0x73] then some ⟨inputText ++ [0x0A] ++ [], false⟩ else none
  standardInput := ⟨[0x61], false⟩

/-- The first byte of a hash of the first algorithm. -/
theorem head_digest (data : List Byte) :
    (Algorithm.hash.digest data).head? =
      some (asconCells.get (asconPermute (asconPad (XofVariant.xof.hashed asconHashInit data).1
        (XofVariant.xof.hashed asconHashInit data).2) 0) 0) := by
  have squeezed : Algorithm.hash.digest data = _ :=
    XofVariant.xof.digest_eq_run (show asconHashInit.count < 8 from Nat.zero_lt_succ 7) rfl data
  rw [squeezed]
  rfl

/-- The hashes of a letter and of nothing. -/
theorem digest_letter_ne : Algorithm.hash.digest [0x61] ≠ Algorithm.hash.digest [] := by
  intro same
  have heads := congrArg List.head? same
  rw [head_digest, head_digest, asconPermute_zero, asconPermute_zero] at heads
  revert heads
  decide +kernel

/-- The sources: the letter on standard input, and a sums file `s` with the line for it twice. -/
def twiceSources : Sources where
  named := fun name =>
    if name = [0x73] then some ⟨inputText ++ [0x0A] ++ (inputText ++ [0x0A]), false⟩ else none
  standardInput := ⟨[0x61], false⟩

theorem sumsTexts_twice : sumsTexts (inputText ++ [0x0A] ++ (inputText ++ [0x0A])) = [inputText, inputText, []] := by
  have last := sumsTexts_inputText []
  rw [List.append_nil, sumsTexts_nil] at last
  rw [sumsTexts_inputText, last]

theorem noZero_twice : (0 : Byte) ∉ inputText ++ [0x0A] ++ (inputText ++ [0x0A]) := by
  have last := noZero_inputText (List.not_mem_nil (a := (0 : Byte)))
  rw [List.append_nil] at last
  exact noZero_inputText last

theorem linesFit_twice : LinesFit (inputText ++ [0x0A] ++ (inputText ++ [0x0A])) := by
  have last := linesFit_inputText linesFit_nil
  rw [List.append_nil] at last
  exact linesFit_inputText last

/-- Both lines hold of what is on standard input at the start. -/
theorem sumsFileHolds_twice :
    SumsFileHolds .hash [0x73] (fun _ => twiceSources) [inputText, inputText, []] where
  found := ⟨inputText, List.mem_cons_self, _, _, sumsLine_inputText⟩
  all := by
    intro earlier text later parts some_text
    have member : text ∈ [inputText, inputText, []] := by
      rw [parts]
      exact List.mem_append_right _ List.mem_cons_self
    have isInput : text = inputText := by
      rcases List.mem_cons.1 member with same | member
      · exact same
      · rcases List.mem_cons.1 member with same | member
        · exact same
        · exact absurd (List.mem_singleton.1 member) some_text
    subst isInput
    exact ⟨_, _, ⟨[0x61], false⟩, sumsLine_inputText, by decide, rfl, rfl, rfl⟩

end AsconSuite
