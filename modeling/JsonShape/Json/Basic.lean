import JsonShape.Entries
import JsonShape.Number.Basic

/-!
# JSON values

A value of a JSON document.  An object is a list of members in order; `member?` answers with the
first member of a name, and every object that is read from a text names each member once.

`Json.alike` compares two values by what they say: members in any order, and numbers by their
written form, so `10` and `10.0` differ.
-/

namespace JsonShape

/-- A JSON value. -/
inductive Json where
  | null
  | bool (value : Bool)
  | number (value : Number)
  | string (value : String)
  | array (items : List Json)
  | object (members : List (String × Json))

/-- The six kinds of JSON values. -/
inductive Kind where
  | null
  | boolean
  | number
  | string
  | array
  | object
  deriving DecidableEq, Repr

/-- The name of a kind in messages. -/
def Kind.name : Kind → String
  | null => "null"
  | boolean => "boolean"
  | number => "number"
  | string => "string"
  | array => "array"
  | object => "object"

namespace Json

/-- The kind of a value. -/
def kind : Json → Kind
  | null => .null
  | bool _ => .boolean
  | number _ => .number
  | string _ => .string
  | array _ => .array
  | object _ => .object

/-- The value of an object's first member of a name. -/
def member? : Json → String → Option Json
  | object members, name => Entries.get? members name
  | _, _ => none

/-- An array of strings. -/
def ofStrings (strings : List String) : Json := array (strings.map string)

mutual

/-- Sameness of content: members in any order, numbers by their written form. -/
def alike : Json → Json → Bool
  | null, null => true
  | bool a, bool b => a == b
  | number a, number b => a.alike b
  | string a, string b => a == b
  | array a, array b => alikeItems a b
  | object a, object b => a.length == b.length && alikeMembers a b
  | _, _ => false

/-- Sameness of arrays, item by item. -/
def alikeItems : List Json → List Json → Bool
  | [], [] => true
  | a :: as, b :: bs => alike a b && alikeItems as bs
  | _, _ => false

/-- Whether each of some members has its like among the members of another object. -/
def alikeMembers : List (String × Json) → List (String × Json) → Bool
  | [], _ => true
  | (name, a) :: rest, others =>
    (match Entries.get? others name with
      | some b => alike a b
      | none => false) && alikeMembers rest others

end

end Json

end JsonShape
