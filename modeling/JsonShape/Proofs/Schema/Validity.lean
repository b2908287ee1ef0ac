import JsonShape.Schema

/-!
# Validity under a schema

What the keywords of JSON Schema (2020-12) that schemas of rules use say of a value, for every
schema document.

* `type` takes the name of a type or a list of them; a number is of type `number` however it is
  written, and of type `integer` if it has no fraction.
* `const` and `enum` ask for a value that is equal to theirs.  Numbers are compared by
  `Number.agrees`, and objects in any order of members.
* `properties` asks of each member that it names, if the value has it, to be valid under the
  schema of that name; `required` asks for members.  Both say nothing of other values.

All other keywords, such as `$schema` and `title`, say nothing of any value.
-/

namespace JsonShape

namespace Json

mutual

/-- Equality of values: members in any order, numbers by their value. -/
def equals : Json → Json → Bool
  | null, null => true
  | bool a, bool b => a == b
  | number a, number b => a.agrees b
  | string a, string b => a == b
  | array a, array b => equalItems a b
  | object a, object b => a.length == b.length && equalMembers a b
  | _, _ => false

/-- Equality of arrays, item by item. -/
def equalItems : List Json → List Json → Bool
  | [], [] => true
  | a :: as, b :: bs => equals a b && equalItems as bs
  | _, _ => false

/-- Whether each of some members has its equal among the members of another object. -/
def equalMembers : List (String × Json) → List (String × Json) → Bool
  | [], _ => true
  | (name, a) :: rest, others =>
    (match Entries.get? others name with
      | some b => equals a b
      | none => false) && equalMembers rest others

end

end Json

namespace Schema

/-- Whether a number is a whole one. -/
def isWhole : Number → Bool
  | .integer _ _ => true
  | .double d => d.scaled % (Double.one : Int) == 0

/-- Whether a value is of the type of a name. -/
def hasType (value : Json) (name : String) : Bool :=
  value.kind.name == name ||
    (match value with
      | .number n => name == "integer" && isWhole n
      | _ => false)

/-- Whether a value is of the type, or of one of the types, that `type` names. -/
def typeHolds (value : Json) : Json → Bool
  | .string name => hasType value name
  | .array names => names.any fun
    | .string name => hasType value name
    | _ => false
  | _ => false

/-- Whether a value is one of those that `enum` lists. -/
def enumHolds (value : Json) : Json → Bool
  | .array choices => choices.any value.equals
  | _ => false

/-- Whether a value, if it is an object, has all members that `required` lists. -/
def requiredHolds (value : Json) : Json → Bool
  | .array names =>
    match value with
    | .object _ => names.all fun
      | .string name => (value.member? name).isSome
      | _ => false
    | _ => true
  | _ => false

/-- What a keyword other than `properties` says of a value. -/
def keywordHolds (value : Json) (keyword : String) (argument : Json) : Bool :=
  if keyword = "type" then typeHolds value argument
  else if keyword = "const" then value.equals argument
  else if keyword = "enum" then enumHolds value argument
  else if keyword = "required" then requiredHolds value argument
  else true

mutual

/-- Whether a value is valid under a schema. -/
def validates : Json → Json → Bool
  | .bool verdict, _ => verdict
  | .object keywords, value => validatesKeywords keywords value
  | _, _ => false

/-- Whether all of some keywords hold of a value. -/
def validatesKeywords : List (String × Json) → Json → Bool
  | [], _ => true
  | (keyword, argument) :: rest, value =>
    (if keyword = "properties" then validatesProperties argument value
      else keywordHolds value keyword argument) && validatesKeywords rest value

/-- What `properties` says of a value. -/
def validatesProperties : Json → Json → Bool
  | .object properties, value => validatesMembers properties value
  | _, _ => false

/-- Whether the members of a value are valid under the schemas of their names. -/
def validatesMembers : List (String × Json) → Json → Bool
  | [], _ => true
  | (name, schema) :: rest, value =>
    (match value.member? name with
      | some part => validates schema part
      | none => true) && validatesMembers rest value

end

end Schema

end JsonShape
