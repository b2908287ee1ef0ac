import JsonShape.Decode
import JsonShape.Json.Reader

/-!
# Fixtures

A fixture file is an array of suites.  A suite has a name, definition source, the name of a type,
and cases; a case has an input and, unless the input is to be rejected, the value that is expected
of it.  An expected null is an expectation like any other.

`Suite.verdicts` normalizes the inputs of a suite's cases.  A case passes where the outcome is the
expected one, with members in any order and numbers by their written form.
-/

namespace JsonShape

/-- An input and what is expected of it; nothing is expected of one that is to be rejected. -/
structure Case where
  input : Json
  expected : Option Json

/-- Cases for one type of some definitions. -/
structure Suite where
  name : String
  source : String
  typeName : String
  cases : List Case

/-! ## Reading -/

namespace Case

/-- The properties of a case that have been met. -/
structure Draft where
  input : Option Json
  expected : Option (Option Json)

/-- The properties of a case. -/
def slots : List (Decoder.Slot Draft) :=
  [Decoder.slot "input" Decoder.any Draft.input
      (fun value draft => { draft with input := some value }) none,
    Decoder.slot "expected" (fun raw => (Decoder.any raw).map some) Draft.expected
      (fun value draft => { draft with expected := some value }) (some none)]

/-- The reader of cases. -/
def decoder : Decoder Case := fun raw =>
  match Decoder.record "Case" slots ⟨none, none⟩ raw with
  | .error complaint => .error complaint
  | .ok ⟨some input, expected⟩ => .ok ⟨input, expected.join⟩
  | .ok ⟨none, _⟩ => .error (.here (.missingField "input"))

end Case

namespace Suite

/-- The properties of a suite that have been met. -/
structure Draft where
  name : Option String
  source : Option String
  typeName : Option String
  cases : Option (List Case)

/-- The properties of a suite. -/
def slots : List (Decoder.Slot Draft) :=
  [Decoder.slot "name" Decoder.string Draft.name
      (fun value draft => { draft with name := some value }) none,
    Decoder.slot "source" Decoder.string Draft.source
      (fun value draft => { draft with source := some value }) none,
    Decoder.slot "type" Decoder.string Draft.typeName
      (fun value draft => { draft with typeName := some value }) none,
    Decoder.slot "cases" (Decoder.list Case.decoder) Draft.cases
      (fun value draft => { draft with cases := some value }) none]

/-- The reader of suites. -/
def decoder : Decoder Suite := fun raw =>
  match Decoder.record "Suite" slots ⟨none, none, none, none⟩ raw with
  | .error complaint => .error complaint
  | .ok ⟨some name, some source, some typeName, some cases⟩ =>
    .ok ⟨name, source, typeName, cases⟩
  | .ok _ => .error (.here (.missingField "name"))

/-- The suites at the start of a text; what is behind them does not matter. -/
def readAll (text : List Char) : Except Complaint (List Suite) :=
  Decoder.list decoder (Raw.read Raw.maxDepth text).1

end Suite

/-! ## Running -/

/-- What became of a case: what was expected, and the normalized input unless it was rejected. -/
structure Verdict where
  suite : String
  position : Nat
  input : Json
  expected : Option Json
  actual : Option Json

/-- Sameness of what was expected and what came out. -/
def alikeOutcomes : Option Json → Option Json → Bool
  | none, none => true
  | some a, some b => a.alike b
  | _, _ => false

namespace Verdict

/-- Whether the case passed. -/
def passed (verdict : Verdict) : Bool := alikeOutcomes verdict.actual verdict.expected

/-- A value in a report, or the word for a rejection. -/
def describeOutcome : Option Json → String
  | some value => value.compact
  | none => "rejected"

/-- The report of a case that failed. -/
def notice (verdict : Verdict) : String :=
  "❌ " ++ verdict.suite ++ " #" ++ toString verdict.position ++ ": input "
    ++ verdict.input.compact ++ "\n    expected: " ++ describeOutcome verdict.expected
    ++ "\n    actual:   " ++ describeOutcome verdict.actual ++ "\n"

end Verdict

/-- The verdict on a case at a position of a suite, by a rule. -/
def Case.verdict (case : Case) (rule : Rule) (suite : String) (position : Nat) : Verdict :=
  ⟨suite, position, case.input, case.expected, (rule.normalize case.input).toOption⟩

namespace Suite

/-- The verdicts on some cases, the first of which has a position. -/
def verdictsFrom (suite : Suite) (rule : Rule) (position : Nat) : List Case → List Verdict
  | [] => []
  | case :: rest =>
    case.verdict rule suite.name position :: suite.verdictsFrom rule (position + 1) rest

/-- Why a suite cannot be run. -/
inductive Obstacle where
  | definitions (fault : Fault)
  | undefinedType (missing : UndefinedType)

/-- The verdicts on the cases of a suite.  Its type is looked up only if there is a case. -/
def verdicts (suite : Suite) : Except Obstacle (List Verdict) :=
  match Registry.ofSource suite.source.toList with
  | .error fault => .error (.definitions fault)
  | .ok registry =>
    match suite.cases with
    | [] => .ok []
    | cases =>
      match registry.resolve suite.typeName with
      | .error missing => .error (.undefinedType missing)
      | .ok rule => .ok (suite.verdictsFrom rule 0 cases)

end Suite

end JsonShape
