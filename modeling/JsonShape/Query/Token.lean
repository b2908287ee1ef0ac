import JsonShape.Json.Reader
import JsonShape.Query.Basic
import JsonShape.Text.Blank

/-!
# Tokens of queries

The words, literals and marks of a query's text.  Blanks and comments stand between tokens, where
a blank is any white space.  A comment runs from a number sign to the end of its line, and over
the next line as well if the line ends with an odd number of backslashes.

A dot and a name right behind it are one token.  A mark made of operator characters is as long as
possible, but a minus sign never joins what stands before it.  Strings have the escapes of
documents and may hold any other character as it is; an escaped code must be that of a character.
-/

namespace JsonShape

/-- A mark of a query. -/
inductive QueryMark where
  | openBracket
  | closeBracket
  | openParen
  | closeParen
  | openBrace
  | closeBrace
  | comma
  | colon
  | semicolon
  | bar
  | equal
  | unequal
  | minus
  deriving DecidableEq, Repr

/-- A token of a query. -/
inductive QueryToken where
  | dot
  | field (name : String)
  | word (name : String)
  | named (name : String)
  | number (numeral : Numeral)
  | string (value : String)
  | mark (mark : QueryMark)
  deriving DecidableEq, Repr

namespace QueryToken

/-- The mark of a single character. -/
def singleMark? : Char → Option QueryMark
  | '[' => some .openBracket
  | ']' => some .closeBracket
  | '(' => some .openParen
  | ')' => some .closeParen
  | '\x7b' => some .openBrace
  | '\x7d' => some .closeBrace
  | ',' => some .comma
  | ':' => some .colon
  | ';' => some .semicolon
  | _ => none

/-- The characters that an operator goes on with. -/
def continuesOperator (c : Char) : Bool := "|=!<>+*/%".toList.contains c

/-- The mark of an operator. -/
def operator? : List Char → Option QueryMark
  | ['|'] => some .bar
  | ['=', '='] => some .equal
  | ['!', '='] => some .unequal
  | ['-'] => some .minus
  | _ => none

/-- The characters that a name may start with. -/
def isNameStart (c : Char) : Bool := c.isAlpha || c == '_'

/-- The characters that may follow in a name. -/
def isNameChar (c : Char) : Bool := c.isAlphanum || c == '_'

/-- A text split behind the name that it starts with. -/
def splitName? (text : List Char) : Option (String × List Char) :=
  if text.head?.any isNameStart then
    some (String.ofList (text.takeWhile isNameChar), text.dropWhile isNameChar)
  else none

/-- The characters of a string up to its closing quote, and the text behind it. -/
def splitString? : List Char → Option (List Char × List Char)
  | [] => none
  | '"' :: rest => some ([], rest)
  | '\\' :: 'u' :: a :: b :: c :: d :: rest =>
    (hexUnit? a b c d).bind fun n =>
      if isHighSurrogate n || isLowSurrogate n then none
      else (splitString? rest).map (prepend (Char.ofNat n))
  | '\\' :: c :: rest =>
    (jsonEscape? c).bind fun value => (splitString? rest).map (prepend value)
  | c :: rest => (splitString? rest).map (prepend c)

/-- The token that starts with a character, and the text behind it. -/
def first? (c : Char) (rest : List Char) : Option (QueryToken × List Char) :=
  if c = '"' then
    (splitString? rest).map fun split => (string (String.ofList split.1), split.2)
  else if c = '.' then
    if rest.head? = some '.' then none
    else
      match splitName? rest with
      | some (name, behind) => some (field name, behind)
      | none => some (dot, rest)
  else if c = '$' then (splitName? rest).map fun split => (named split.1, split.2)
  else if isNameStart c then
    (splitName? (c :: rest)).map fun split => (word split.1, split.2)
  else if c.isDigit then
    (splitNumeral? (c :: rest)).bind fun split =>
      if split.1.2.isCutShort split.2 then none else some (number split.1.2, split.2)
  else if c = '-' || continuesOperator c then
    (operator? (c :: rest.takeWhile continuesOperator)).map fun found =>
      (mark found, rest.dropWhile continuesOperator)
  else (singleMark? c).map fun found => (mark found, rest)

/-- The text behind a comment, of which a line goes on; `escaped` says whether the backslashes
right before are odd in number. -/
def skipComment (escaped : Bool) : List Char → List Char
  | [] => []
  | '\n' :: rest | '\r' :: '\n' :: rest => if escaped then skipComment false rest else rest
  | c :: rest => skipComment (c == '\\' && !escaped) rest

/-- The tokens of a text; each takes a character at least, and at most `fuel` characters are
read. -/
def scanFrom (fuel : Nat) (text : List Char) : Option (List QueryToken) :=
  match fuel, text with
  | _, [] => some []
  | 0, _ => none
  | fuel + 1, c :: rest =>
    if isBlankChar c then scanFrom fuel rest
    else if c = '#' then scanFrom fuel (skipComment false rest)
    else (first? c rest).bind fun (token, behind) => (scanFrom fuel behind).map (token :: ·)

/-- The tokens of a query's text, if it has nothing else. -/
def scan (text : List Char) : Option (List QueryToken) := scanFrom text.length text

end QueryToken

end JsonShape
