import JsonShape.Normalize
import JsonShape.Rule.Serial
import JsonShape.Source.Parser

/-!
# Registries

A registry holds rules by name, in the order in which the names were first defined.  A name that
is defined again keeps its place and gets the new rule.  Source text is added as a whole or not
at all.
-/

namespace JsonShape

/-- Named rules in the order of their names' first definitions. -/
structure Registry where
  entries : List Definition
  distinct : (Entries.names entries).Nodup

/-- A name that no rule has. -/
structure UndefinedType where
  name : String
  deriving DecidableEq, Repr

/-- The message of a missing name. -/
def UndefinedType.message (missing : UndefinedType) : String :=
  "type `" ++ missing.name ++ "` is not defined"

namespace Registry

/-- The registry without rules. -/
def empty : Registry := ⟨[], by simp⟩

/-- The rule of a name. -/
def get? (registry : Registry) (name : String) : Option Rule := Entries.get? registry.entries name

/-- Whether a name has a rule. -/
def contains (registry : Registry) (name : String) : Bool := (registry.get? name).isSome

/-- The rule of a name, or the complaint that it has none. -/
def resolve (registry : Registry) (name : String) : Except UndefinedType Rule :=
  match registry.get? name with
  | some rule => .ok rule
  | none => .error ⟨name⟩

/-- The number of rules. -/
def size (registry : Registry) : Nat := registry.entries.length

/-- The defined names, in order. -/
def names (registry : Registry) : List String := Entries.names registry.entries

/-- The registry with a name set to a rule. -/
def define (registry : Registry) (name : String) (rule : Rule) : Registry :=
  ⟨Entries.put registry.entries name rule,
    Entries.nodup_names_put registry.entries name rule registry.distinct⟩

/-- The registry with a name set to a rule, and the rule that this replaces. -/
def replace (registry : Registry) (name : String) (rule : Rule) : Option Rule × Registry :=
  let exchanged := Entries.exchange registry.entries name rule
  (exchanged.1,
    ⟨exchanged.2, Entries.nodup_names_exchange registry.entries name rule registry.distinct⟩)

/-- The registry with several definitions made in order. -/
def defineAll (registry : Registry) (definitions : List Definition) : Registry :=
  ⟨Entries.putAll registry.entries definitions,
    Entries.nodup_names_putAll registry.entries definitions registry.distinct⟩

/-- The registry with all definitions of a source text; a fault anywhere in it adds nothing. -/
def addSource (registry : Registry) (source : List Char) : Except Fault Registry :=
  (parseDefinitions source).map registry.defineAll

/-- The registry of a source text. -/
def ofSource (source : List Char) : Except Fault Registry := empty.addSource source

/-- Sameness of registries in any order, numbers by their written form. -/
def alike (a b : Registry) : Bool :=
  a.size == b.size && a.entries.all fun (name, rule) =>
    match b.get? name with
    | some other => rule.alike other
    | none => false

/-- A value normalized to the rule of a name. -/
def normalize (registry : Registry) (value : Json) (name : String) :
    Except UndefinedType (Except Mismatch Json) :=
  (registry.resolve name).map (·.normalize value)

/-- One definition in canonical source, on a line of its own. -/
def definitionChars (definition : Definition) : List Char :=
  Keyword.type.chars ++ ' ' :: (definition.1.toList ++ ' ' :: '=' :: ' ' ::
    (definition.2.chars ++ ['\n']))

/-- The canonical source of a registry. -/
def chars (registry : Registry) : List Char := registry.entries.flatMap definitionChars

/-- The canonical source of a registry. -/
def render (registry : Registry) : String := String.ofList registry.chars

/-- The serialized form of a registry. -/
def toJson (registry : Registry) : Json :=
  .object (registry.entries.map fun (name, rule) => (name, rule.toJson))

end Registry

end JsonShape
