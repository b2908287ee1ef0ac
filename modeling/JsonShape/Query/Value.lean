import JsonShape.Json.Printer
import JsonShape.Query.Number

/-!
# Values in queries

The values that a query takes and yields are those of documents, with numbers as queries have
them.  A value has parts if it is an array or an object: `QueryValue.child` is the part under a
key, and `QueryValue.parts` are all of them.
-/

namespace JsonShape

/-- A value that a query works on. -/
inductive QueryValue where
  | null
  | bool (value : Bool)
  | number (value : QueryNumber)
  | string (value : String)
  | array (items : List QueryValue)
  | object (members : List (String × QueryValue))

/-- A failed step of a query. -/
inductive QueryError where
  | noChild
  | notIterable
  | notNumeric
  | badKey
  | raised
  | undefined
  deriving DecidableEq, Repr

/-- One result of a query. -/
abbrev QueryResult := Except QueryError QueryValue

namespace QueryValue

mutual

/-- A JSON value as one that queries work on. -/
def ofJson : Json → QueryValue
  | .null => null
  | .bool b => bool b
  | .number n => number (.ofNumber n)
  | .string s => string s
  | .array items => array (ofItems items)
  | .object members => object (ofMembers members)

/-- Several JSON values. -/
def ofItems : List Json → List QueryValue
  | [] => []
  | item :: rest => ofJson item :: ofItems rest

/-- Members of a JSON object. -/
def ofMembers : List (String × Json) → List (String × QueryValue)
  | [] => []
  | (name, value) :: rest => (name, ofJson value) :: ofMembers rest

end

mutual

/-- The JSON text of a value. -/
def chars : QueryValue → List Char
  | null => Json.literal "null"
  | bool b => Json.literal (if b then "true" else "false")
  | number n => n.chars
  | string s => Json.quoted s
  | array [] => ['[', ']']
  | array (item :: items) => '[' :: (chars item ++ itemChars items)
  | object [] => ['{', '}']
  | object ((name, value) :: members) =>
    '{' :: (Json.quoted name ++ ':' :: (chars value ++ memberChars members))

/-- The items behind the first one, up to the closing bracket. -/
def itemChars : List QueryValue → List Char
  | [] => [']']
  | item :: items => ',' :: (chars item ++ itemChars items)

/-- The members behind the first one, up to the closing brace. -/
def memberChars : List (String × QueryValue) → List Char
  | [] => ['}']
  | (name, value) :: members =>
    ',' :: (Json.quoted name ++ ':' :: (chars value ++ memberChars members))

end

mutual

/-- Equality of values, members in any order. -/
def same : QueryValue → QueryValue → Bool
  | null, null => true
  | bool a, bool b => a == b
  | number a, number b => a.same b
  | string a, string b => a == b
  | array a, array b => sameItems a b
  | object a, object b => a.length == b.length && sameMembers a b
  | _, _ => false

/-- Equality of arrays. -/
def sameItems : List QueryValue → List QueryValue → Bool
  | [], [] => true
  | a :: as, b :: bs => same a b && sameItems as bs
  | _, _ => false

/-- Whether each of some members has its equal in another object. -/
def sameMembers : List (String × QueryValue) → List (String × QueryValue) → Bool
  | [], _ => true
  | (name, a) :: rest, others =>
    (match Entries.get? others name with
      | some b => same a b
      | none => false) && sameMembers rest others

end

/-- Everything but null and false counts as true. -/
def isTrue : QueryValue → Bool
  | null => false
  | bool b => b
  | _ => true

/-- A number with the other sign. -/
def negated : QueryValue → QueryResult
  | number n => .ok (number n.negated)
  | _ => .error .notNumeric

/-- The part of a value under a key: a missing member and an item beyond the end are null, and a
negative index counts from the end.  Null and scalars have no parts. -/
def child : QueryValue → QueryValue → QueryResult
  | object members, string name => .ok ((Entries.get? members name).getD null)
  | array items, number (.integer i) =>
    let position := if i < 0 then i + items.length else i
    if position < 0 then .ok null else .ok (items[position.toNat]?.getD null)
  | _, _ => .error .noChild

/-- The parts of a container. -/
def parts : QueryValue → List QueryResult
  | array items => items.map .ok
  | object members => members.map fun member => .ok member.2
  | _ => [.error .notIterable]

end QueryValue

end JsonShape
