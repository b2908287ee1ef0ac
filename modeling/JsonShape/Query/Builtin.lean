import JsonShape.Query.Engine
import JsonShape.Query.Parser

/-!
# The built-in engine

An engine for the queries of `Query`, a small part of the jq language.  It has no filter for any
other query.
-/

namespace JsonShape

/-- An undefined name as a message tells it. -/
def Query.Undefined.missing : Query.Undefined → UndefinedName
  | filter name arity => ⟨name, "Filter(" ++ toString arity ++ ")"⟩
  | «variable» name => ⟨"$" ++ name, "Var"⟩

/-- The results of a query as texts. -/
def Query.filter (query : Query) : QueryFilter := fun input =>
  (query.eval (.ofJson input)).map fun
    | .ok value => some value.chars
    | .error _ => none

/-- The engine that runs these queries. -/
def QueryEngine.builtin : QueryEngine where
  compile code :=
    match Query.parse? code.toList with
    | none => .error .malformed
    | some query =>
      match Query.undefinedNames query with
      | [] => .ok query.filter
      | names => .error (.undefined (names.map Query.Undefined.missing))

end JsonShape
