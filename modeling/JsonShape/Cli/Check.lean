import JsonShape.Cli.Documents

/-!
# Checking documents

Every document is normalized to one rule.  The accepted ones are written in their order, and each
refused one is reported in a line of its own, with its origin and the reason.
-/

namespace JsonShape

/-- A document that a rule refused. -/
structure Refusal where
  origin : String
  mismatch : Mismatch

/-- The report of a refusal. -/
def Refusal.notice (refusal : Refusal) : String :=
  "✗ " ++ refusal.origin ++ ": " ++ refusal.mismatch.message ++ "\n"

namespace Rule

/-- The documents that a rule accepts, normalized. -/
def accepted (rule : Rule) (documents : List Document) : List Json :=
  documents.filterMap fun document =>
    match rule.normalize document.value with
    | .ok value => some value
    | .error _ => none

/-- The documents that a rule refuses. -/
def refused (rule : Rule) (documents : List Document) : List Refusal :=
  documents.filterMap fun document =>
    match rule.normalize document.value with
    | .ok _ => none
    | .error mismatch => some ⟨document.origin, mismatch⟩

end Rule

/-- An accepted document as it is written: on one line where lines are documents. -/
def writeDocument (lines : Bool) (value : Json) : String :=
  (if lines then value.compact else value.pretty) ++ "\n"

/-- The last notice: how many documents match a type, or how many do not. -/
def summary (refused total : Nat) (typeName : String) : String :=
  if refused = 0 then "✓ " ++ toString total ++ " documents match `" ++ typeName ++ "`\n"
  else
    toString refused ++ " of " ++ toString total ++ " documents do not match `" ++ typeName
      ++ "`\n"

end JsonShape
