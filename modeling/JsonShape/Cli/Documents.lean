import JsonShape.Cli.Arguments
import JsonShape.Cli.Sources
import JsonShape.Text.Blank

/-!
# Documents

The documents of the inputs, each with its origin.  A text is one document, or one on every line
that is not blank; the origin of a line ends in its number, blank lines counted.

A selection may follow a pointer into each of these and then run a query on it, and every result
of the query is a document of its own, whose origin ends in its position.  What a query means is up
to the engine that runs it.
-/

namespace JsonShape

/-- A value to be checked, and where it comes from. -/
structure Document where
  origin : String
  value : Json

namespace Selection

/-- The part of a value that the selection's pointer leads to. -/
def follow (selection : Selection) (origin : String) (value : Json) : Except CliFailure Json :=
  match selection.pointer with
  | none => .ok value
  | some pointer =>
    match (Pointer.parse? pointer.toList).bind value.at? with
    | some part => .ok part
    | none => .error (.nothingSelected pointer origin)

/-- Values as documents, the first of which has a position. -/
def numbered (origin : String) (position : Nat) : List Json → List Document
  | [] => []
  | value :: rest =>
    ⟨origin ++ "#" ++ toString position, value⟩ :: numbered origin (position + 1) rest

/-- The documents that a value holds. -/
def documents (selection : Selection) (engine : QueryEngine) (origin : String) (value : Json) :
    Except CliFailure (List Document) :=
  match selection.follow origin value with
  | .error failure => .error failure
  | .ok part =>
    match selection.query with
    | none => .ok [⟨origin, part⟩]
    | some code =>
      match engine.documents code part with
      | .error failure => .error (.query origin failure)
      | .ok values => .ok (numbered origin 0 values)

/-- The documents of several lines, the first of which has a number. -/
def lineDocuments (selection : Selection) (engine : QueryEngine) (path : String) (number : Nat) :
    List (List Char) → Except CliFailure (List Document)
  | [] => .ok []
  | line :: rest =>
    if isBlankText line then selection.lineDocuments engine path (number + 1) rest
    else
      let origin := path ++ ":" ++ toString number
      match Json.parse? line with
      | none => .error (.malformedLine origin)
      | some value =>
        match selection.documents engine origin value with
        | .error failure => .error failure
        | .ok first => (selection.lineDocuments engine path (number + 1) rest).map (first ++ ·)

/-- The documents of a text that stands at a path. -/
def textDocuments (selection : Selection) (engine : QueryEngine) (path : String)
    (text : List Char) : Except CliFailure (List Document) :=
  if selection.lines then selection.lineDocuments engine path 1 (linesOf text)
  else
    match Json.parse? text with
    | none => .error (.malformedFile path)
    | some value => selection.documents engine path value

end Selection

namespace Surroundings

/-- The documents of several files, one file after the other. -/
def readDocuments (surroundings : Surroundings) (engine : QueryEngine) (selection : Selection) :
    List String → Except CliFailure (List Document)
  | [] => .ok []
  | path :: rest =>
    match surroundings.read path with
    | .error failure => .error failure
    | .ok (text, after) =>
      match selection.textDocuments engine path text.toList with
      | .error failure => .error failure
      | .ok first => (after.readDocuments engine selection rest).map (first ++ ·)

/-- The documents of the inputs that some paths stand for. -/
def loadDocuments (surroundings : Surroundings) (engine : QueryEngine) (selection : Selection)
    (paths : List String) : Except CliFailure (List Document) :=
  match resolvePaths surroundings.files paths with
  | .error failure => .error failure
  | .ok found => surroundings.readDocuments engine selection found

end Surroundings

end JsonShape
