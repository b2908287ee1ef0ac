import JsonShape.Number.Reading
import JsonShape.Text.Position
import JsonShape.Text.Quoted

/-!
# Tokens of definitions

The words, marks and literals of definition source.  A keyword is a word with a fixed meaning in
type position; where a name is wanted, `Token.name?` takes it like any other word.

The words are listed twice, for two uses: `Keyword.word` is what a keyword is called, and
`reservedWords` are the words that a printed name may not be.  The scanner has a table of its own.
-/

namespace JsonShape

/-- The words with a fixed meaning. -/
inductive Keyword where
  | type
  | array
  | boolean
  | number
  | object
  | string
  | enumeration
  | truth
  | falsity
  deriving DecidableEq, Repr

namespace Keyword

/-- The spelling of a keyword. -/
def word : Keyword → String
  | type => "type"
  | array => "array"
  | boolean => "boolean"
  | number => "number"
  | object => "object"
  | string => "string"
  | enumeration => "enumeration"
  | truth => "true"
  | falsity => "false"

/-- The characters of a keyword. -/
def chars (keyword : Keyword) : List Char := keyword.word.toList

end Keyword

/-- The words that no name has without quotes. -/
def reservedWords : List String :=
  ["type", "array", "boolean", "number", "object", "string", "enumeration", "true", "false"]

/-- Whether a word has a fixed meaning. -/
def isKeyword (s : String) : Bool := reservedWords.contains s

/-- A token of definition source. -/
inductive Token where
  | keyword (word : Keyword)
  | leftBrace
  | rightBrace
  | colon
  | equals
  | number (value : Number)
  | string (value : String)
  | identifier (name : String)
  deriving DecidableEq

namespace Token

/-- The word of a token that is a keyword. -/
def keyword? : Token → Option String
  | keyword k => some k.word
  | _ => none

/-- The name that a token stands for: a bare word, a quoted string or a keyword. -/
def name? : Token → Option String
  | identifier name => some name
  | string value => some value
  | token => token.keyword?

/-- A token in a message. -/
def describe : Token → String
  | leftBrace => "`\x7b`"
  | rightBrace => "`\x7d`"
  | colon => "`:`"
  | equals => "`=`"
  | number n => "number `" ++ n.render ++ "`"
  | string s => "string " ++ Quoting.message.quote s
  | identifier name => "identifier `" ++ name ++ "`"
  | keyword k => "keyword `" ++ k.word ++ "`"

end Token

/-- A token with its place in the source. -/
structure Lexeme where
  token : Token
  start : Position
  stop : Position
  deriving DecidableEq

end JsonShape
