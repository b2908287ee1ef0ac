import JsonShape.Json.Basic

/-!
# Rules

A rule says which JSON values have a shape.  Literals and enumerations name the values they
accept, the five generic rules accept whole kinds, and a pattern lists the properties that an
object must have, each with a rule for its value or with none.

* `Rule.kinds` are the kinds of value that a rule can accept at all.
* `Rule.alike` compares rules with numbers by their written form.
* `Rule.WellFormed` holds of the rules that source text can denote: lists are not empty and name
  nothing twice, and patterns do not nest too deep.
-/

namespace JsonShape

/-- One property of a pattern: its name, and a rule for its value unless any value will do. -/
structure Field (ρ : Type) where
  name : String
  rule : Option ρ

/-- The shape of a JSON value. -/
inductive Rule where
  | array
  | boolean
  | booleanLiteral (value : Bool)
  | enumeration (members : List String)
  | numberLiteral (value : Number)
  | number
  | object
  | pattern (fields : List (Field Rule))
  | stringLiteral (value : String)
  | string

/-- A rule with its name. -/
abbrev Definition := String × Rule

namespace Rule

/-- The kinds of value that a rule can accept.  The generic `object` accepts every container. -/
def kinds : Rule → List Kind
  | array => [.array]
  | boolean | booleanLiteral _ => [.boolean]
  | enumeration _ | stringLiteral _ | string => [.string]
  | numberLiteral _ | number => [.number]
  | object => [.array, .object]
  | pattern _ => [.object]

/-- Several kinds in a message. -/
def describeKinds (kinds : List Kind) : String := " or ".intercalate (kinds.map Kind.name)

/-- The names of the kinds that a rule can accept. -/
def kindName (rule : Rule) : String := describeKinds rule.kinds

mutual

/-- Sameness of rules, numbers by their written form. -/
def alike : Rule → Rule → Bool
  | array, array | boolean, boolean | number, number | object, object | string, string => true
  | booleanLiteral a, booleanLiteral b => a == b
  | enumeration a, enumeration b => a == b
  | numberLiteral a, numberLiteral b => a.alike b
  | stringLiteral a, stringLiteral b => a == b
  | pattern a, pattern b => alikeFields a b
  | _, _ => false

/-- Sameness of property lists, in order. -/
def alikeFields : List (Field Rule) → List (Field Rule) → Bool
  | [], [] => true
  | ⟨a, none⟩ :: as, ⟨b, none⟩ :: bs => a == b && alikeFields as bs
  | ⟨a, some r⟩ :: as, ⟨b, some s⟩ :: bs => a == b && alike r s && alikeFields as bs
  | _, _ => false

end

/-- The deepest nesting of patterns that source text may have. -/
def maxNesting : Nat := 256

mutual

/-- How deep the patterns of a rule nest. -/
def nesting : Rule → Nat
  | pattern fields => nestingFields fields + 1
  | _ => 0

/-- How deep the patterns below some properties nest. -/
def nestingFields : List (Field Rule) → Nat
  | [] => 0
  | ⟨_, none⟩ :: rest => nestingFields rest
  | ⟨_, some rule⟩ :: rest => max (nesting rule) (nestingFields rest)

end

mutual

/-- Every list in a rule has an entry, and none twice. -/
def Distinct : Rule → Prop
  | enumeration members => members ≠ [] ∧ members.Nodup
  | pattern fields => fields ≠ [] ∧ (fields.map Field.name).Nodup ∧ DistinctFields fields
  | _ => True

/-- The rules of some properties have distinct lists. -/
def DistinctFields : List (Field Rule) → Prop
  | [] => True
  | ⟨_, none⟩ :: rest => DistinctFields rest
  | ⟨_, some rule⟩ :: rest => Distinct rule ∧ DistinctFields rest

end

/-- The rules that source text can denote. -/
def WellFormed (rule : Rule) : Prop := rule.Distinct ∧ rule.nesting ≤ maxNesting

end Rule

end JsonShape
