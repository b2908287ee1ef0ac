import JsonShape.Json.Basic
import JsonShape.Text.Quoted

/-!
# JSON pointers

A pointer (RFC 6901) is a list of names.  Its text puts a slash before every name and writes the
slashes and tildes of a name as `~1` and `~0`; so the text of the empty pointer, which denotes
the whole document, is empty.

`Pointer.parse?` reads a text back, and takes a tilde before any other character for itself.
`Json.at?` follows the names: in an object a name is a member's, and in an array it is an index
in plain decimal notation.
-/

namespace JsonShape

/-- The names that lead from a document to a part of it. -/
abbrev Pointer := List String

namespace Pointer

/-- The text of one character of a name. -/
def escapeChar (c : Char) : List Char :=
  if c = '~' then ['~', '0'] else if c = '/' then ['~', '1'] else [c]

/-- The text of a name. -/
def escape (name : List Char) : List Char := name.flatMap escapeChar

/-- The name of a text without slashes. -/
def unescape : List Char → List Char
  | [] => []
  | '~' :: '0' :: rest => '~' :: unescape rest
  | '~' :: '1' :: rest => '/' :: unescape rest
  | c :: rest => c :: unescape rest

/-- The text of a pointer. -/
def chars (pointer : Pointer) : List Char :=
  pointer.flatMap fun name => '/' :: escape name.toList

/-- The text of a pointer. -/
def render (pointer : Pointer) : String := String.ofList pointer.chars

/-- The parts of a text between its slashes. -/
def segments : List Char → List (List Char)
  | [] => [[]]
  | c :: rest =>
    if c = '/' then [] :: segments rest
    else match segments rest with
      | [] => [[c]]
      | segment :: more => (c :: segment) :: more

/-- The pointer of a text: the text is empty or starts with a slash. -/
def parse? : List Char → Option Pointer
  | [] => some []
  | c :: rest =>
    if c = '/' then some ((segments rest).map fun segment => String.ofList (unescape segment))
    else none

/-- The array index that a name denotes: decimal digits without a leading zero. -/
def index? (name : String) : Option Nat :=
  let digits := name.toList
  if digits.isEmpty || !digits.all Char.isDigit then none
  else if digits.head? = some '0' ∧ digits.length ≠ 1 then none
  else some (digits.foldl (fun n c => 10 * n + (c.toNat - '0'.toNat)) 0)

end Pointer

namespace Json

/-- The part of a value that a name leads to. -/
def child? : Json → String → Option Json
  | object members, name => Entries.get? members name
  | array items, name => (Pointer.index? name).bind (items[·]?)
  | _, _ => none

/-- The part of a value that a pointer leads to. -/
def at? (value : Json) : Pointer → Option Json
  | [] => some value
  | name :: rest => (value.child? name).bind (·.at? rest)

end Json

end JsonShape
