import JsonShape.Source.Token

/-!
# Faults of definition source

What can be wrong with a source text, and where.  Lexical causes concern a stretch of characters
that is no token, grammatical ones a token that cannot stand where it does.
-/

namespace JsonShape

/-- What is wrong with a stretch of characters. -/
inductive LexicalCause where
  | unexpectedCharacter (c : Char)
  | unterminatedString
  | lineBreakInString
  | invalidEscape (c : Char)
  | invalidNumber (text : String)
  deriving DecidableEq, Repr

/-- What the grammar asks for at a place. -/
inductive Expected where
  | typeKeyword
  | typeName
  | equalsSign
  | typeExpression
  | leftBrace
  | memberOrRightBrace
  | propertyOrRightBrace
  | property
  | endOfInput
  deriving DecidableEq, Repr

/-- What is wrong with a token. -/
inductive GrammarCause where
  | unexpected (expected : Expected) (found : Option Token)
  | emptyEnumeration
  | duplicateProperty (name : String)
  | nestingTooDeep (limit : Nat)
  deriving DecidableEq

/-- Why a source text is refused. -/
inductive FaultCause where
  | lexical (cause : LexicalCause)
  | grammar (cause : GrammarCause)
  deriving DecidableEq

/-- A cause and its place. -/
structure Fault where
  place : Location
  cause : FaultCause
  deriving DecidableEq

/-- The wording of a lexical cause. -/
def LexicalCause.describe : LexicalCause → String
  | unexpectedCharacter c => "unexpected character `" ++ c.toString ++ "`"
  | unterminatedString => "unterminated string literal"
  | lineBreakInString => "line break inside string literal (use `\\n`)"
  | invalidEscape c => "invalid escape sequence `\\" ++ c.toString ++ "` in string literal"
  | invalidNumber text => "invalid number literal `" ++ text ++ "`"

/-- The wording of what the grammar asks for. -/
def Expected.describe : Expected → String
  | typeKeyword => "keyword `type`"
  | typeName => "type name"
  | equalsSign => "`=`"
  | typeExpression => "a type expression"
  | leftBrace => "`\x7b`"
  | memberOrRightBrace => "enumeration member or `\x7d`"
  | propertyOrRightBrace => "property name or `\x7d`"
  | property => "property name"
  | endOfInput => "end of input"

/-- The wording of a token, or of the end where there is none. -/
def describeFound : Option Token → String
  | some token => token.describe
  | none => "end of input"

/-- The wording of a grammatical cause. -/
def GrammarCause.describe : GrammarCause → String
  | unexpected expected found =>
    "expected " ++ expected.describe ++ ", found " ++ describeFound found
  | emptyEnumeration => "enumeration must list at least one member"
  | duplicateProperty name => "property `" ++ name ++ "` is listed more than once"
  | nestingTooDeep limit =>
    "object patterns nested deeper than " ++ toString limit ++ " levels"

/-- The wording of a cause. -/
def FaultCause.describe : FaultCause → String
  | lexical cause => cause.describe
  | grammar cause => cause.describe

/-- The message of a fault: its place, then its cause. -/
def Fault.message (fault : Fault) : String :=
  fault.place.render ++ ": " ++ fault.cause.describe

end JsonShape
