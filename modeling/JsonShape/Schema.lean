import JsonShape.Registry

/-!
# JSON Schema

The schema of a rule accepts the values that the rule accepts.  It does not describe the pruning:
a validator keeps the keys that normalization drops.
-/

namespace JsonShape

/-- The dialect that schema documents declare. -/
def schemaDialect : String := "https://json-schema.org/draft/2020-12/schema"

namespace Rule

/-- The schema of a single type. -/
def typeSchema (name : String) : Json := .object [("type", .string name)]

/-- The schema of a single value. -/
def constSchema (value : Json) : Json := .object [("const", value)]

mutual

/-- The schema of a rule. -/
def schema : Rule → Json
  | array => typeSchema "array"
  | boolean => typeSchema "boolean"
  | booleanLiteral b => constSchema (.bool b)
  | enumeration members =>
    .object [("type", .string "string"), ("enum", .ofStrings members)]
  | numberLiteral n => constSchema (.number n)
  | number => typeSchema "number"
  | object => .object [("type", .ofStrings ["object", "array"])]
  | pattern fields =>
    .object [("type", .string "object"),
      ("properties", .object (Entries.collect (fieldSchemas fields))),
      ("required", .ofStrings (fields.map Field.name))]
  | stringLiteral s => constSchema (.string s)
  | string => typeSchema "string"

/-- The schemas of some properties; a property without a rule has the empty one. -/
def fieldSchemas : List (Field Rule) → List (String × Json)
  | [] => []
  | ⟨name, none⟩ :: rest => (name, .object []) :: fieldSchemas rest
  | ⟨name, some rule⟩ :: rest => (name, schema rule) :: fieldSchemas rest

end

/-- The keywords of a rule's schema. -/
def schemaKeywords (rule : Rule) : List (String × Json) :=
  match rule.schema with
  | .object members => members
  | _ => []

end Rule

/-- The schema document of a defined name: its dialect and title, then the rule's keywords. -/
def Registry.schemaDocument (registry : Registry) (name : String) :
    Except UndefinedType Json :=
  (registry.resolve name).map fun rule =>
    .object (Entries.putAll [("$schema", .string schemaDialect), ("title", .string name)]
      rule.schemaKeywords)

end JsonShape
