import JsonShape.Rule.Basic
import JsonShape.Source.Token

/-!
# Canonical source

The definition source of a rule, on one line.  A name is bare where it reads back as an
identifier, and quoted otherwise; so keywords are quoted.
-/

namespace JsonShape

/-- A name that may stand without quotes, if it is no keyword: an ASCII letter or underscore, then
letters, digits, underscores and hyphens. -/
def isBareWord (s : String) : Bool :=
  match s.toList with
  | [] => false
  | c :: rest =>
    (c.isAlpha || c == '_') && rest.all fun c => c.isAlphanum || c == '_' || c == '-'

namespace Rule

/-- A name in canonical source. -/
def nameChars (name : String) : List Char :=
  if isBareWord name && !isKeyword name then name.toList
  else Quoting.source.write name.toList

mutual

/-- The canonical source of a rule. -/
def chars : Rule → List Char
  | array => Keyword.array.chars
  | boolean => Keyword.boolean.chars
  | booleanLiteral b => (if b then Keyword.truth else Keyword.falsity).chars
  | enumeration members =>
    Keyword.enumeration.chars
      ++ ' ' :: '\x7b' :: (members.flatMap (fun name => ' ' :: nameChars name) ++ [' ', '\x7d'])
  | numberLiteral n => n.chars
  | number => Keyword.number.chars
  | object => Keyword.object.chars
  | pattern fields => '\x7b' :: (fieldChars fields ++ [' ', '\x7d'])
  | stringLiteral s => Quoting.source.write s.toList
  | string => Keyword.string.chars

/-- The canonical source of some properties, each after a blank. -/
def fieldChars : List (Field Rule) → List Char
  | [] => []
  | ⟨name, none⟩ :: rest => ' ' :: (nameChars name ++ fieldChars rest)
  | ⟨name, some rule⟩ :: rest =>
    ' ' :: (nameChars name ++ ':' :: ' ' :: (chars rule ++ fieldChars rest))

end

/-- The canonical source of a rule. -/
def render (rule : Rule) : String := String.ofList rule.chars

end Rule

end JsonShape
