import JsonShape.Json.Reader

/-!
# Engines for queries

A query is a text that an engine turns into a filter.  The language of filters is the engine's own:
`QueryEngine` is all that is asked of one, and every run is a run with some engine.

A filter hands its results over as texts.  Each is read again as JSON, so that what comes out is a
document like any other; the first result that is an error or cannot be read fails the whole query.
Messages put `omittedDetail` where they leave out the details of a refusal.
-/

namespace JsonShape

/-- A name in a query that the engine does not know, and what sort of name is missing. -/
structure UndefinedName where
  name : String
  sort : String
  deriving DecidableEq, Repr

/-- Why an engine does not turn a text into a filter. -/
inductive FilterFault where
  | malformed
  | undefined (names : List UndefinedName)
  deriving DecidableEq, Repr

/-- The results of a filter on each value, in order, each as its text; an error has none.  They end,
and depend on nothing but the value. -/
abbrev QueryFilter := Json → List (Option (List Char))

/-- An engine that turns the texts of queries into filters. -/
structure QueryEngine where
  compile : String → Except FilterFault QueryFilter

/-- Why a query has no documents to give. -/
inductive QueryFailure where
  | rejected (code : String) (fault : FilterFault)
  | failed (code : String)
  | unreadable (position : Nat)

/-- The sign for details that a message leaves out. -/
def omittedDetail : String := "<...>"

/-- The wording of an undefined name. -/
def UndefinedName.describe (code : String) (missing : UndefinedName) : String :=
  "jq: undefined `" ++ missing.name ++ "`: " ++ missing.sort ++ " in `" ++ code ++ "`"

/-- The message of a failure. -/
def QueryFailure.message : QueryFailure → String
  | rejected _ .malformed => "jq parse error: " ++ omittedDetail
  | rejected code (.undefined names) => "\n".intercalate (names.map (UndefinedName.describe code))
  | failed code => "jq filter `" ++ code ++ "` failed: " ++ omittedDetail
  | unreadable position =>
    "jq output #" ++ toString position ++ " is not valid JSON: " ++ omittedDetail

namespace QueryEngine

/-- The documents of some results, the first of which has a position. -/
def readResults (code : String) (position : Nat) :
    List (Option (List Char)) → Except QueryFailure (List Json)
  | [] => .ok []
  | none :: _ => .error (.failed code)
  | some text :: rest =>
    match Json.parse? text with
    | some document => (readResults code (position + 1) rest).map (document :: ·)
    | none => .error (.unreadable position)

/-- The documents that the query of a text makes of a document. -/
def documents (engine : QueryEngine) (code : String) (input : Json) :
    Except QueryFailure (List Json) :=
  match engine.compile code with
  | .error fault => .error (.rejected code fault)
  | .ok filter => readResults code 0 (filter input)

end QueryEngine

end JsonShape
