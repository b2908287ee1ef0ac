import JsonShape.Json.Basic
import JsonShape.Text.Quoted

/-!
# Printing JSON

`Json.compact` writes a value without any white space.  `Json.pretty` puts every item and member
of a container on a line of its own, two spaces deeper than the container; an empty container
stays on one line.  Strings are quoted as `Quoting.json` says and numbers as `Number.chars` does.
-/

namespace JsonShape.Json

/-- A string of a document, in quotes. -/
def quoted (s : String) : List Char := Quoting.json.write s.toList

/-- The literals of a document. -/
def literal (word : String) : List Char := word.toList

mutual

/-- The text of a value without white space. -/
def compactChars : Json → List Char
  | null => literal "null"
  | bool b => literal (if b then "true" else "false")
  | number n => n.chars
  | string s => quoted s
  | array [] => ['[', ']']
  | array (item :: items) => '[' :: (compactChars item ++ compactItems items)
  | object [] => ['{', '}']
  | object ((name, value) :: members) =>
    '{' :: (quoted name ++ ':' :: (compactChars value ++ compactMembers members))

/-- The items behind the first one, up to the closing bracket. -/
def compactItems : List Json → List Char
  | [] => [']']
  | item :: items => ',' :: (compactChars item ++ compactItems items)

/-- The members behind the first one, up to the closing brace. -/
def compactMembers : List (String × Json) → List Char
  | [] => ['}']
  | (name, value) :: members =>
    ',' :: (quoted name ++ ':' :: (compactChars value ++ compactMembers members))

end

/-- A line feed and the indentation of a depth. -/
def newline (depth : Nat) : List Char := '\n' :: List.replicate (2 * depth) ' '

mutual

/-- The text of a value at a depth, one line for each item and member. -/
def prettyChars (depth : Nat) : Json → List Char
  | null => literal "null"
  | bool b => literal (if b then "true" else "false")
  | number n => n.chars
  | string s => quoted s
  | array [] => ['[', ']']
  | array (item :: items) =>
    '[' :: (newline (depth + 1) ++ prettyChars (depth + 1) item ++ prettyItems depth items)
  | object [] => ['{', '}']
  | object ((name, value) :: members) =>
    '{' :: (newline (depth + 1) ++ quoted name ++ ':' :: ' ' ::
      (prettyChars (depth + 1) value ++ prettyMembers depth members))

/-- The items behind the first one, up to the closing bracket. -/
def prettyItems (depth : Nat) : List Json → List Char
  | [] => newline depth ++ [']']
  | item :: items =>
    ',' :: (newline (depth + 1) ++ prettyChars (depth + 1) item ++ prettyItems depth items)

/-- The members behind the first one, up to the closing brace. -/
def prettyMembers (depth : Nat) : List (String × Json) → List Char
  | [] => newline depth ++ ['}']
  | (name, value) :: members =>
    ',' :: (newline (depth + 1) ++ quoted name ++ ':' :: ' ' ::
      (prettyChars (depth + 1) value ++ prettyMembers depth members))

end

/-- A value on one line. -/
def compact (value : Json) : String := String.ofList value.compactChars

/-- A value on indented lines. -/
def pretty (value : Json) : String := String.ofList (value.prettyChars 0)

end JsonShape.Json
