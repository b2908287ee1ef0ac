import JsonShape.Json.Pointer
import JsonShape.Rule.Printer
import JsonShape.Json.Printer

/-!
# Normalization

A value is matched against a rule.  Nothing is coerced: scalars, arrays and plain objects are
taken over as they are, a number literal answers with its own spelling, and a pattern builds an
object of exactly the properties that it lists, in the order in which it lists them.

A value that does not fit is no error.  `Mismatch` says which part of it was refused and why: the
first one met when properties are visited in the rule's order, those of an inner pattern before
those that follow it.
-/

namespace JsonShape

/-- Why a value was refused. -/
inductive Reason where
  | wrongKind (expected : List Kind) (found : Kind)
  | notEqual (expected : Rule) (found : Json)
  | missingProperty (name : String)

/-- A refusal: the names that lead to the refused part, and the reason. -/
structure Mismatch where
  path : Pointer
  reason : Reason

namespace Mismatch

/-- A refusal of the value itself. -/
def here (reason : Reason) : Mismatch := ⟨[], reason⟩

/-- A refusal inside a property. -/
def within (name : String) (mismatch : Mismatch) : Mismatch :=
  ⟨name :: mismatch.path, mismatch.reason⟩

end Mismatch

namespace Rule

/-- A value of a kind that the rule cannot accept. -/
def wrongKind (rule : Rule) (value : Json) : Except Mismatch Json :=
  .error (.here (.wrongKind rule.kinds value.kind))

/-- A value of the rule's kind that is another than it names. -/
def notEqual (rule : Rule) (value : Json) : Except Mismatch Json :=
  .error (.here (.notEqual rule value))

mutual

/-- A value in the form that a rule gives it, or the reason why the rule refuses it. -/
def normalize : Rule → Json → Except Mismatch Json
  | array, value => match value with
    | .array _ => .ok value
    | _ => wrongKind array value
  | boolean, value => match value with
    | .bool _ => .ok value
    | _ => wrongKind boolean value
  | booleanLiteral b, value => match value with
    | .bool v => if v = b then .ok value else notEqual (booleanLiteral b) value
    | _ => wrongKind (booleanLiteral b) value
  | enumeration members, value => match value with
    | .string s => if s ∈ members then .ok value else notEqual (enumeration members) value
    | _ => wrongKind (enumeration members) value
  | numberLiteral n, value => match value with
    | .number v => if v.agrees n then .ok (.number n) else notEqual (numberLiteral n) value
    | _ => wrongKind (numberLiteral n) value
  | number, value => match value with
    | .number _ => .ok value
    | _ => wrongKind number value
  | object, value => match value with
    | .array _ | .object _ => .ok value
    | _ => wrongKind object value
  | pattern fields, value => match value with
    | .object members => (normalizeFields fields members []).map .object
    | _ => wrongKind (pattern fields) value
  | stringLiteral s, value => match value with
    | .string v => if v = s then .ok value else notEqual (stringLiteral s) value
    | _ => wrongKind (stringLiteral s) value
  | string, value => match value with
    | .string _ => .ok value
    | _ => wrongKind string value

/-- The listed properties of an object, put behind those that are already built. -/
def normalizeFields : List (Field Rule) → List (String × Json) → List (String × Json) →
    Except Mismatch (List (String × Json))
  | [], _, built => .ok built
  | ⟨name, none⟩ :: rest, members, built =>
    match Entries.get? members name with
    | none => .error (.here (.missingProperty name))
    | some value => normalizeFields rest members (Entries.put built name value)
  | ⟨name, some rule⟩ :: rest, members, built =>
    match Entries.get? members name with
    | none => .error (.here (.missingProperty name))
    | some value =>
      match normalize rule value with
      | .error mismatch => .error (mismatch.within name)
      | .ok normalized => normalizeFields rest members (Entries.put built name normalized)

end

end Rule

/-! ## Messages -/

/-- The wording of a reason. -/
def Reason.describe : Reason → String
  | wrongKind expected found =>
    "expected " ++ Rule.describeKinds expected ++ ", found " ++ found.name
  | notEqual expected found => "expected " ++ expected.render ++ ", found " ++ found.compact
  | missingProperty name => "missing required property `" ++ name ++ "`"

/-- The message of a refusal: its path, then its reason. -/
def Mismatch.message (mismatch : Mismatch) : String :=
  let place := if mismatch.path.isEmpty then "(root)" else mismatch.path.render
  "at " ++ place ++ ": " ++ mismatch.reason.describe

end JsonShape
