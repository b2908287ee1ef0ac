import JsonShape.Query.Token

/-!
# Reading queries

`Query.parse?` reads the text of a query.  A pipe binds weakest and associates to the right, then
come commas, comparisons, and terms followed by steps into their results.  A minus sign before a
term takes the steps with it.

Each function reads one construct from the start of a list of tokens and hands back the tokens
behind it.  A construct descends through at most as many functions as there are levels before it
takes a token, so `Query.parseFuel` is enough for all of them.
-/

namespace JsonShape.Query

/-- A construct and the tokens behind it. -/
abbrev Reading (α : Type) := Option (α × List QueryToken)

/-- The words that begin a construct of their own and are no filters. -/
def constructWords : List String :=
  ["def", "if", "try", "label", "break", "reduce", "foreach"]

/-- The words that a query cannot begin with, since there they are about modules. -/
def moduleWords : List String := ["module", "import", "include"]

/-- The query of a word with some arguments: a literal, or the filter of that name. -/
def ofWord? (name : String) (arguments : List Query) : Option Query :=
  if constructWords.contains name then none
  else
    match name, arguments with
    | "null", [] => some null
    | "true", [] => some (bool true)
    | "false", [] => some (bool false)
    | _, _ => some (call name arguments)

/-- A query with the steps behind it. -/
def withSteps (target : Query) : List QueryStep → Query
  | [] => target
  | steps => path target steps

/-- The part of the input that a name leads to. -/
def member (name : String) : Query := path identity [.key (string name)]

/-- The tokens behind a mark that they start with. -/
def behind? (mark : QueryMark) : List QueryToken → Option (List QueryToken)
  | .mark found :: rest => if found = mark then some rest else none
  | _ => none

mutual

/-- A query; without commas where they separate it from others. -/
def readPipe (fuel : Nat) (commas : Bool) (tokens : List QueryToken) : Reading Query :=
  match fuel with
  | 0 => none
  | fuel + 1 =>
    (readComparison fuel tokens).bind fun (head, rest) =>
      (readCommas fuel commas head rest).bind fun (left, rest) =>
        match behind? .bar rest with
        | some rest =>
          (readPipe fuel commas rest).map fun (right, rest) => (pipe left right, rest)
        | none => some (left, rest)

/-- The queries behind the first one of several with commas between them. -/
def readCommas (fuel : Nat) (commas : Bool) (left : Query) (tokens : List QueryToken) :
    Reading Query :=
  match fuel with
  | 0 => none
  | fuel + 1 =>
    match commas, behind? .comma tokens with
    | true, some rest =>
      (readComparison fuel rest).bind fun (right, rest) =>
        readCommas fuel commas (comma left right) rest
    | _, _ => some (left, tokens)

/-- A term, or comparisons of several from left to right. -/
def readComparison (fuel : Nat) (tokens : List QueryToken) : Reading Query :=
  match fuel with
  | 0 => none
  | fuel + 1 => (readTerm fuel tokens).bind fun (left, rest) => readOthers fuel left rest

/-- The terms that one is compared with. -/
def readOthers (fuel : Nat) (left : Query) (tokens : List QueryToken) : Reading Query :=
  match fuel with
  | 0 => none
  | fuel + 1 =>
    match tokens with
    | .mark .equal :: rest =>
      (readTerm fuel rest).bind fun (right, rest) => readOthers fuel (equal left right) rest
    | .mark .unequal :: rest =>
      (readTerm fuel rest).bind fun (right, rest) => readOthers fuel (unequal left right) rest
    | _ => some (left, tokens)

/-- A term with the steps behind it. -/
def readTerm (fuel : Nat) (tokens : List QueryToken) : Reading Query :=
  match fuel with
  | 0 => none
  | fuel + 1 =>
    match tokens with
    | .mark .minus :: rest => (readTerm fuel rest).map fun (operand, rest) => (negate operand, rest)
    | .dot :: .string name :: rest | .field name :: rest =>
      (readSteps fuel rest).map fun (steps, rest) =>
        (path identity (.key (string name) :: steps), rest)
    | .dot :: rest => readPath fuel identity rest
    | .string value :: rest => readPath fuel (string value) rest
    | .number numeral :: rest => readPath fuel (number (.ofNumeral numeral)) rest
    | .named name :: rest => readPath fuel («variable» name) rest
    | .word name :: .mark .openParen :: rest =>
      (readArguments fuel rest).bind fun (arguments, rest) =>
        (ofWord? name arguments).bind fun query => readPath fuel query rest
    | .word name :: rest => (ofWord? name []).bind fun query => readPath fuel query rest
    | .mark .openParen :: rest =>
      (readPipe fuel true rest).bind fun (inner, rest) =>
        (behind? .closeParen rest).bind fun rest => readPath fuel inner rest
    | .mark .openBracket :: .mark .closeBracket :: rest => readPath fuel (array none) rest
    | .mark .openBracket :: rest =>
      (readPipe fuel true rest).bind fun (body, rest) =>
        (behind? .closeBracket rest).bind fun rest => readPath fuel (array (some body)) rest
    | .mark .openBrace :: rest =>
      (readMembers fuel rest).bind fun (members, rest) => readPath fuel (object members) rest
    | _ => none

/-- A query with the steps that the tokens start with. -/
def readPath (fuel : Nat) (target : Query) (tokens : List QueryToken) : Reading Query :=
  match fuel with
  | 0 => none
  | fuel + 1 =>
    (readSteps fuel tokens).map fun (steps, rest) => (withSteps target steps, rest)

/-- The steps that the tokens start with. -/
def readSteps (fuel : Nat) (tokens : List QueryToken) : Reading (List QueryStep) :=
  match fuel with
  | 0 => none
  | fuel + 1 =>
    match tokens with
    | .dot :: .string name :: rest | .field name :: rest =>
      (readSteps fuel rest).map fun (steps, rest) => (.key (string name) :: steps, rest)
    | .mark .openBracket :: .mark .closeBracket :: rest =>
      (readSteps fuel rest).map fun (steps, rest) => (.all :: steps, rest)
    | .mark .openBracket :: rest =>
      (readPipe fuel true rest).bind fun (key, rest) =>
        (behind? .closeBracket rest).bind fun rest =>
          (readSteps fuel rest).map fun (steps, rest) => (.key key :: steps, rest)
    | _ => some ([], tokens)

/-- The arguments of a filter behind the opening parenthesis. -/
def readArguments (fuel : Nat) (tokens : List QueryToken) : Reading (List Query) :=
  match fuel with
  | 0 => none
  | fuel + 1 =>
    (readPipe fuel true tokens).bind fun (argument, rest) =>
      match behind? .semicolon rest with
      | some rest =>
        (readArguments fuel rest).map fun (others, rest) => (argument :: others, rest)
      | none => (behind? .closeParen rest).map fun rest => ([argument], rest)

/-- The value behind the key of a member. -/
def readValue (fuel : Nat) (key : Query) (tokens : List QueryToken) : Reading (Query × Query) :=
  match fuel with
  | 0 => none
  | fuel + 1 =>
    (behind? .colon tokens).bind fun rest =>
      (readPipe fuel false rest).map fun (value, rest) => ((key, value), rest)

/-- A member of an object; a name without a value stands for the input's member of that name, and
a variable for itself. -/
def readMember (fuel : Nat) (tokens : List QueryToken) : Reading (Query × Query) :=
  match fuel with
  | 0 => none
  | fuel + 1 =>
    match tokens with
    | .word name :: rest | .string name :: rest =>
      if behind? .colon rest = none then some ((string name, member name), rest)
      else readValue fuel (string name) rest
    | .named name :: rest =>
      if behind? .colon rest = none then some ((string name, «variable» name), rest)
      else readValue fuel («variable» name) rest
    | .mark .openParen :: rest =>
      (readPipe fuel true rest).bind fun (key, rest) =>
        (behind? .closeParen rest).bind fun rest => readValue fuel key rest
    | _ => none

/-- The members of an object up to the closing brace, which a comma may precede. -/
def readMembers (fuel : Nat) (tokens : List QueryToken) : Reading (List (Query × Query)) :=
  match fuel with
  | 0 => none
  | fuel + 1 =>
    match behind? .closeBrace tokens with
    | some rest => some ([], rest)
    | none =>
      (readMember fuel tokens).bind fun (member, rest) =>
        match behind? .comma rest with
        | some rest => (readMembers fuel rest).map fun (others, rest) => (member :: others, rest)
        | none => (behind? .closeBrace rest).map fun rest => ([member], rest)

end

/-- Enough fuel for a list of tokens. -/
def parseFuel (tokens : List QueryToken) : Nat := 8 * (tokens.length + 1)

/-- The query that a list of tokens is. -/
def ofTokens? (tokens : List QueryToken) : Option Query :=
  match readPipe (parseFuel tokens) true tokens with
  | some (query, []) => some query
  | _ => none

/-- Whether tokens start with a word about modules. -/
def startsWithModule : List QueryToken → Bool
  | .word name :: _ => moduleWords.contains name
  | _ => false

/-- The query of a text. -/
def parse? (text : List Char) : Option Query :=
  (QueryToken.scan text).bind fun tokens =>
    if startsWithModule tokens then none else ofTokens? tokens

end JsonShape.Query
