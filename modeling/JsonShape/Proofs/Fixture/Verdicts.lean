import JsonShape.Proofs.Entries
import JsonShape.Proofs.Fixture.Reading
import JsonShape.Proofs.Json.Sameness
import JsonShape.Proofs.Normalize.Contents

/-!
# Verdicts on fixtures

* `Case.Conforms`, `Suite.Conforms`: a case, or a suite with all its cases, is as its definitions
  have it.
* `Suite.Judged`: verdicts on a suite, one for each of its cases, that say whether the case conforms.
* `Suite.verdicts_eq_ok_iff`: a suite has verdicts exactly if its source parses and defines its type,
  which a suite without cases need not name.
-/

namespace JsonShape

/-! ## Cases -/

namespace Case

/-- A case conforms to a rule: the rule refuses an input for which nothing is expected, and takes any
other input to the same value as expected. -/
inductive Conforms (case : Case) (rule : Rule) : Prop
  | rejected {mismatch : Mismatch} (unexpected : case.expected = none)
      (refused : rule.normalize case.input = .error mismatch)
  | normalized {value normal : Json} (expected : case.expected = some value)
      (accepted : rule.normalize case.input = .ok normal) (same : normal.Same value)

variable {case : Case} {rule : Rule}

/-- No case that expects null conforms to anything. -/
theorem not_conforms_of_null (null : case.expected = some .null) : ¬case.Conforms rule := by
  rintro (⟨unexpected, _⟩ | ⟨expected, accepted, same⟩)
  · cases null.symm.trans unexpected
  · cases null.symm.trans expected
    rw [same.eq_null] at accepted
    exact rule.normalize_ne_null _ accepted

theorem conforms_of_refused {mismatch : Mismatch}
    (refused : rule.normalize case.input = .error mismatch) :
    case.Conforms rule ↔ case.expected = none := by
  refine ⟨?_, fun unexpected => .rejected unexpected refused⟩
  rintro (⟨unexpected, _⟩ | ⟨_, accepted, _⟩)
  · exact unexpected
  · cases refused.symm.trans accepted

theorem conforms_of_accepted {normal : Json} (accepted : rule.normalize case.input = .ok normal) :
    case.Conforms rule ↔ ∃ value, case.expected = some value ∧ normal.Same value := by
  refine ⟨?_, fun ⟨_, expected, same⟩ => .normalized expected accepted same⟩
  rintro (⟨_, refused⟩ | ⟨expected, own, same⟩)
  · cases accepted.symm.trans refused
  · cases accepted.symm.trans own
    exact ⟨_, expected, same⟩

theorem passed_verdict_iff (readable : case.Readable) {suite : String} {position : Nat} :
    (case.verdict rule suite position).passed = true ↔ case.Conforms rule := by
  rw [Verdict.passed, verdict]
  dsimp only
  cases outcome : rule.normalize case.input with
  | error mismatch =>
    rw [conforms_of_refused outcome]
    cases case.expected <;> simp [Except.toOption, alikeOutcomes]
  | ok normal =>
    rw [conforms_of_accepted outcome]
    cases expected : case.expected with
    | none => simp [Except.toOption, alikeOutcomes]
    | some value =>
      obtain ⟨levels, input⟩ := readable.input
      obtain ⟨more, wanted⟩ := readable.expected value expected
      simp only [Option.some.injEq, exists_eq_left']
      exact Json.alike_iff_same (rule.readable_normalize input outcome) wanted

end Case

/-! ## Suites -/

namespace Suite

/-- A suite's source defines its type as a rule, its last definition of that name. -/
def Defines (suite : Suite) (rule : Rule) : Prop :=
  ∃ definitions, parseDefinitions suite.source.toList = .ok definitions ∧
    Entries.last? definitions suite.typeName = some rule

/-- A suite conforms: its source parses and, if there are cases, defines its type as a rule that all
of them conform to. -/
structure Conforms (suite : Suite) : Prop where
  parses : ∃ definitions, parseDefinitions suite.source.toList = .ok definitions
  cases : suite.cases ≠ [] → ∃ rule, suite.Defines rule ∧ ∀ case ∈ suite.cases, case.Conforms rule

/-- A verdict on a case of a suite, which is passed exactly if the case conforms. -/
structure Judges (suite : Suite) (case : Case) (verdict : Verdict) : Prop where
  sameSuite : verdict.suite = suite.name
  sameInput : verdict.input = case.input
  sameExpected : verdict.expected = case.expected
  passed_iff : ∃ rule, suite.Defines rule ∧ (verdict.passed = true ↔ case.Conforms rule)

/-- Verdicts on a suite, one for each of its cases in their order. -/
def Judged (suite : Suite) (verdicts : List Verdict) : Prop :=
  List.Forall₂ suite.Judges suite.cases verdicts

theorem ofSource_eq_ok_iff {source : List Char} {registry : Registry} :
    Registry.ofSource source = .ok registry ↔
      ∃ definitions, parseDefinitions source = .ok definitions ∧
        registry = Registry.empty.defineAll definitions :=
  map_eq_ok_iff

theorem resolve_eq_ok_iff {suite : Suite} {registry : Registry} {rule : Rule}
    (read : Registry.ofSource suite.source.toList = .ok registry) :
    registry.resolve suite.typeName = .ok rule ↔ suite.Defines rule := by
  obtain ⟨definitions, parsed, rfl⟩ := ofSource_eq_ok_iff.mp read
  have found : (Registry.empty.defineAll definitions).get? suite.typeName =
      Entries.last? definitions suite.typeName := Entries.get?_collect definitions suite.typeName
  rw [Registry.resolve, found]
  constructor
  · intro resolved
    refine ⟨definitions, parsed, ?_⟩
    split at resolved
    · next own => rw [own, Except.ok.inj resolved]
    · cases resolved
  · rintro ⟨_, same, last⟩
    cases parsed.symm.trans same
    rw [last]

/-- A suite has verdicts exactly if its source parses and, if there are cases, defines its type. -/
theorem verdicts_eq_ok_iff {suite : Suite} {own : List Verdict} :
    suite.verdicts = .ok own ↔
      (∃ definitions, parseDefinitions suite.source.toList = .ok definitions) ∧
        (suite.cases = [] ∧ own = [] ∨
          suite.cases ≠ [] ∧ ∃ rule, suite.Defines rule ∧
            own = suite.verdictsFrom rule 0 suite.cases) := by
  rw [verdicts]
  cases read : Registry.ofSource suite.source.toList with
  | error fault =>
    refine iff_of_false (fun same => nomatch same) ?_
    rintro ⟨⟨definitions, parsed⟩, _⟩
    cases (ofSource_eq_ok_iff.mpr ⟨definitions, parsed, rfl⟩).symm.trans read
  | ok registry =>
    obtain ⟨definitions, parsed, _⟩ := ofSource_eq_ok_iff.mp read
    rw [and_iff_right ⟨definitions, parsed⟩]
    simp only [← resolve_eq_ok_iff read]
    cases suite.cases with
    | nil => simp [eq_comm]
    | cons case rest =>
      cases registry.resolve suite.typeName with
      | error missing => simp
      | ok rule => simp [eq_comm]

section

variable {suite : Suite} {rule : Rule} {cases : List Case}

/-- The verdicts on some cases judge them one by one. -/
theorem judges_verdictsFrom (defines : suite.Defines rule) (readable : ∀ case ∈ cases, case.Readable)
    (position : Nat) : List.Forall₂ suite.Judges cases (suite.verdictsFrom rule position cases) := by
  induction cases generalizing position with
  | nil => exact .nil
  | cons case rest ih =>
    obtain ⟨first, others⟩ := List.forall_mem_cons.mp readable
    refine .cons ⟨rfl, rfl, rfl, rule, defines, ?_⟩ (ih others (position + 1))
    exact case.passed_verdict_iff first

theorem passed_verdictsFrom_iff (readable : ∀ case ∈ cases, case.Readable) (position : Nat) :
    (∀ verdict ∈ suite.verdictsFrom rule position cases, verdict.passed = true) ↔
      ∀ case ∈ cases, case.Conforms rule := by
  induction cases generalizing position with
  | nil => exact iff_of_true (List.forall_mem_nil _) (List.forall_mem_nil _)
  | cons case rest ih =>
    obtain ⟨first, others⟩ := List.forall_mem_cons.mp readable
    rw [verdictsFrom, List.forall_mem_cons, List.forall_mem_cons, ih others,
      case.passed_verdict_iff first]

end

variable {suite : Suite} (readable : ∀ case ∈ suite.cases, case.Readable)

include readable

theorem judged_of_verdicts {own : List Verdict} (ran : suite.verdicts = .ok own) :
    suite.Judged own := by
  obtain ⟨_, ⟨none, rfl⟩ | ⟨_, rule, defines, rfl⟩⟩ := verdicts_eq_ok_iff.mp ran
  · rw [Judged, none]
    exact .nil
  · exact judges_verdictsFrom defines readable 0

/-- All cases of a suite pass exactly if the suite conforms. -/
theorem exists_passed_iff :
    (∃ own, suite.verdicts = .ok own ∧ ∀ verdict ∈ own, verdict.passed = true) ↔
      suite.Conforms := by
  constructor
  · rintro ⟨own, ran, all⟩
    obtain ⟨parses, taken⟩ := verdicts_eq_ok_iff.mp ran
    refine ⟨parses, fun some => ?_⟩
    obtain ⟨none, _⟩ | ⟨_, rule, defines, rfl⟩ := taken
    · exact absurd none some
    · exact ⟨rule, defines, (passed_verdictsFrom_iff readable 0).mp all⟩
  · rintro ⟨parses, conform⟩
    by_cases none : suite.cases = []
    · exact ⟨[], verdicts_eq_ok_iff.mpr ⟨parses, .inl ⟨none, rfl⟩⟩, List.forall_mem_nil _⟩
    · obtain ⟨rule, defines, all⟩ := conform none
      exact ⟨_, verdicts_eq_ok_iff.mpr ⟨parses, .inr ⟨none, rule, defines, rfl⟩⟩,
        (passed_verdictsFrom_iff readable 0).mpr all⟩

end Suite

end JsonShape
