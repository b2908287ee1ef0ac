import JsonShape.Json.Raw
import JsonShape.Rule.Basic

/-!
# Serialized rules

A rule as a JSON value: an object with the name of its form under `kind` and, where the form has
content, the content under `value`.  A property is an object with its `name` and, if it has one,
its rule under `ty`.

`Rule.ofRaw?` reads the form back from JSON text.  It takes names in any order and skips those
that it does not know, as long as what they name is well formed; a known name may stand once.  A
form and its content may also be the two items of an array, and so may a property's name and
rule.  Nothing about the rule itself is checked.

Under `kind` stands a string, or an object whose one member has the kind for its name and nothing
for its value; in an array only the string will do.  Content that stands before its kind has to be
kept as a value until the kind is known.  In what is kept, an empty object counts as nothing too,
and the form of an array may be given by its place among all forms.
-/

namespace JsonShape.Rule

/-! ## Writing -/

/-- An object with a kind alone. -/
def bare (kind : String) : Json := .object [("kind", .string kind)]

/-- An object with a kind and content. -/
def filled (kind : String) (content : Json) : Json :=
  .object [("kind", .string kind), ("value", content)]

mutual

/-- The serialized form of a rule. -/
def toJson : Rule → Json
  | array => bare "array"
  | boolean => bare "boolean"
  | booleanLiteral b => filled "boolean_literal" (.bool b)
  | enumeration members => filled "enumeration" (.ofStrings members)
  | numberLiteral n => filled "number_literal" (.number n)
  | number => bare "number"
  | object => bare "object"
  | pattern fields => filled "object_pattern" (.array (fieldsToJson fields))
  | stringLiteral s => filled "string_literal" (.string s)
  | string => bare "string"

/-- The serialized forms of some properties. -/
def fieldsToJson : List (Field Rule) → List Json
  | [] => []
  | ⟨name, none⟩ :: rest => .object [("name", .string name)] :: fieldsToJson rest
  | ⟨name, some rule⟩ :: rest =>
    .object [("name", .string name), ("ty", toJson rule)] :: fieldsToJson rest

end

/-! ## Reading -/

/-- The forms of rules, in order. -/
inductive Form where
  | array
  | boolean
  | booleanLiteral
  | enumeration
  | numberLiteral
  | number
  | object
  | objectPattern
  | stringLiteral
  | string
  deriving DecidableEq, Repr

/-- All forms, each at its place. -/
def Form.all : List Form :=
  [array, boolean, booleanLiteral, enumeration, numberLiteral, number, object, objectPattern,
    stringLiteral, string]

/-- The form at a place, counted from zero. -/
def Form.atPlace? (place : Int) : Option Form :=
  if 0 ≤ place then Form.all[place.toNat]? else none

/-- The form of a name. -/
def Form.ofName? : String → Option Form
  | "array" => some array
  | "boolean" => some boolean
  | "number" => some number
  | "object" => some object
  | "string" => some string
  | "boolean_literal" => some booleanLiteral
  | "enumeration" => some enumeration
  | "number_literal" => some numberLiteral
  | "object_pattern" => some objectPattern
  | "string_literal" => some stringLiteral
  | _ => none

/-- The rule of a form without content. -/
def Form.bare? : Form → Option Rule
  | array => some .array
  | boolean => some .boolean
  | number => some .number
  | object => some .object
  | string => some .string
  | _ => none

/-- Whether a text stands for nothing: null, and in what is kept also an empty object. -/
def isNothing (kept : Bool) : Raw → Bool
  | .null => true
  | .object [] true => kept
  | _ => false

/-- The form that a kind names: a string, or an object whose only member names nothing more. -/
def formOf? (kept : Bool) : Raw → Option Form
  | .string name => Form.ofName? name
  | .object [(some name, raw)] true => if isNothing kept raw then Form.ofName? name else none
  | _ => none

/-- The form that the first of two items names: a string or, in what is kept, the form's place
among all forms. -/
def firstItemForm? (kept : Bool) : Raw → Option Form
  | .string name => Form.ofName? name
  | .number (.integer place _) => if kept then Form.atPlace? place else none
  | _ => none

/-- The strings of an enumeration's content. -/
def stringsOf? : List Raw → Option (List String)
  | [] => some []
  | .string s :: rest => (stringsOf? rest).map (s :: ·)
  | _ => none

/-- The only member of a name, or none if there is none. -/
def only? (members : List (Option String × Raw)) (name : String) : Option Raw :=
  match members.filter fun member => member.1 == some name with
  | [(_, value)] => some value
  | _ => none

/-- Whether every name can be read, and each of some names stands at most once. -/
def namedOnce (members : List (Option String × Raw)) (names : List String) : Bool :=
  members.all (fun member => member.1.isSome) &&
    names.all fun name => members.countP (fun member => member.1 == some name) ≤ 1

/-- The content that stands before its kind, if there is any. -/
def earlyContent? : List (Option String × Raw) → Option Raw
  | [] => none
  | (some "kind", _) :: _ => none
  | (some "value", content) :: _ => some content
  | _ :: rest => earlyContent? rest

mutual

/-- The rule of a serialized form, which may be part of what is kept. -/
def ofRaw? (kept : Bool) : Raw → Option Rule
  | .object members closed =>
    let early := earlyContent? members
    if closed && namedOnce members ["kind", "value"] && early.all (·.flaw?.isNone) then
      ((only? members "kind").bind (formOf? kept)).bind fun form =>
        ofMembers? (kept || early.isSome) form members
    else none
  | .array [kind, content] true =>
    (firstItemForm? kept kind).bind fun form => ofContent? kept form content
  | _ => none

/-- The rule of a form whose content, if there is any, is among some members. -/
def ofMembers? (kept : Bool) (form : Form) : List (Option String × Raw) → Option Rule
  | [] => form.bare?
  | (name, content) :: rest =>
    if name = some "value" then ofContent? kept form content else ofMembers? kept form rest

/-- The rule of a form and its content.  A form without content takes only the empty one. -/
def ofContent? (kept : Bool) (form : Form) : Raw → Option Rule
  | .null => form.bare?
  | .bool b => if form = .booleanLiteral then some (booleanLiteral b) else none
  | .number n => if form = .numberLiteral then some (numberLiteral n) else none
  | .string s => if form = .stringLiteral then some (stringLiteral s) else none
  | .array items closed =>
    if closed then
      match form with
      | .enumeration => (stringsOf? items).map enumeration
      | .objectPattern => (fieldsOf? kept items).map pattern
      | _ => none
    else none
  | _ => none

/-- The properties of a pattern's content. -/
def fieldsOf? (kept : Bool) : List Raw → Option (List (Field Rule))
  | [] => some []
  | item :: rest =>
    (fieldOf? kept item).bind fun field => (fieldsOf? kept rest).map (field :: ·)

/-- One property. -/
def fieldOf? (kept : Bool) : Raw → Option (Field Rule)
  | .object members closed =>
    if closed && namedOnce members ["name", "ty"] then
      match only? members "name" with
      | some (.string name) => (typeAmong? kept members).map fun rule => ⟨name, rule⟩
      | _ => none
    else none
  | .array (.string name :: rest) true =>
    match rest with
    | [] => some ⟨name, none⟩
    | [.null] => some ⟨name, none⟩
    | [raw] => (ofRaw? kept raw).map fun rule => ⟨name, some rule⟩
    | _ => none
  | _ => none

/-- The rule of a property among its members, if it has one. -/
def typeAmong? (kept : Bool) : List (Option String × Raw) → Option (Option Rule)
  | [] => some none
  | (name, raw) :: rest =>
    if name = some "ty" then
      match raw with
      | .null => some none
      | raw => (ofRaw? kept raw).map some
    else typeAmong? kept rest

end

/-- The rule of a serialized text, which must be well formed throughout. -/
def ofSerial? (raw : Raw) : Option Rule := if raw.isWellFormed then ofRaw? false raw else none

end JsonShape.Rule
