import JsonShape.Rule.Basic
import JsonShape.Source.Scanner

/-!
# Parsing definition source

Definition source follows this grammar.

    Definitions    := ("type" IDENTIFIER "=" TypeExpression)*
    TypeExpression := "array" | "boolean" | "number" | "object" | "string"
                    | "true" | "false" | NUMBER | STRING
                    | "enumeration" "{" Word+ "}"
                    | "{" (Word (":" TypeExpression)?)+ "}"
    Word           := IDENTIFIER | STRING | keyword

The parser is a stack machine.  A `State` says what has been read and what may follow, `step`
takes it past one token, and `finish` says what it has read when the input ends.  Patterns that
are still open are the stack, innermost first; so a source nests too deep exactly when a brace
would be the `maxNesting + 1`st entry.

A property that is listed twice is reported when the parser looks at what follows its name, and
everything else when it meets the token that cannot stand there.  As tokens come one at a time, a
lexical fault right behind a token is met before anything behind that token is judged.
-/

namespace JsonShape

/-- What a parser has been asked to read: definitions, of which some are complete and one is
being read, or a lone type expression. -/
inductive Goal where
  | definition (complete : List Definition) (name : String)
  | lone

/-- A pattern whose property's rule is being read: the properties before it and its name. -/
structure OpenPattern where
  listed : List (Field Rule)
  name : String

/-- Where a parser stands. -/
inductive State where
  | declaration (complete : List Definition)
  | typeName (complete : List Definition)
  | equalsSign (complete : List Definition) (name : String)
  | typeExpression (goal : Goal) (stack : List OpenPattern)
  | enumerationBrace (goal : Goal) (stack : List OpenPattern)
  | enumeration (goal : Goal) (stack : List OpenPattern) (brace : Location)
      (members : List String)
  | properties (goal : Goal) (stack : List OpenPattern) (listed : List (Field Rule))
  | property (goal : Goal) (stack : List OpenPattern) (listed : List (Field Rule))
      (name : String) (place : Location)
  | finished (rule : Rule)

/-- A fault of the grammar at a place. -/
def Fault.grammar (place : Location) (cause : GrammarCause) : Fault := ⟨place, .grammar cause⟩

/-- A token that cannot stand where it does. -/
def Lexeme.unexpected (lexeme : Lexeme) (expected : Expected) : Fault :=
  .grammar lexeme.start.toLocation (.unexpected expected (some lexeme.token))

namespace State

/-- The state after a complete type expression. -/
def afterRule (goal : Goal) (stack : List OpenPattern) (rule : Rule) : State :=
  match stack with
  | inner :: outer => .properties goal outer (inner.listed ++ [⟨inner.name, some rule⟩])
  | [] =>
    match goal with
    | .definition complete name => .declaration (complete ++ [(name, rule)])
    | .lone => .finished rule

/-- The step of a parser that wants a type expression. -/
def stepTypeExpression (goal : Goal) (stack : List OpenPattern) (lexeme : Lexeme) :
    Except Fault State :=
  match lexeme.token with
  | .keyword .array => .ok (afterRule goal stack .array)
  | .keyword .boolean => .ok (afterRule goal stack .boolean)
  | .keyword .number => .ok (afterRule goal stack .number)
  | .keyword .object => .ok (afterRule goal stack .object)
  | .keyword .string => .ok (afterRule goal stack .string)
  | .keyword .truth => .ok (afterRule goal stack (.booleanLiteral true))
  | .keyword .falsity => .ok (afterRule goal stack (.booleanLiteral false))
  | .number n => .ok (afterRule goal stack (.numberLiteral n))
  | .string s => .ok (afterRule goal stack (.stringLiteral s))
  | .keyword .enumeration => .ok (.enumerationBrace goal stack)
  | .leftBrace =>
    if stack.length < Rule.maxNesting then .ok (.properties goal stack [])
    else .error (.grammar lexeme.start.toLocation (.nestingTooDeep Rule.maxNesting))
  | _ => .error (lexeme.unexpected .typeExpression)

/-- The step of a parser among the members of an enumeration.  A repeated member is dropped. -/
def stepEnumeration (goal : Goal) (stack : List OpenPattern) (brace : Location)
    (members : List String) (lexeme : Lexeme) : Except Fault State :=
  if lexeme.token = .rightBrace then
    if members.isEmpty then .error (.grammar brace .emptyEnumeration)
    else .ok (afterRule goal stack (.enumeration members))
  else
    match lexeme.token.name? with
    | some name =>
      .ok (.enumeration goal stack brace
        (if name ∈ members then members else members ++ [name]))
    | none => .error (lexeme.unexpected .memberOrRightBrace)

/-- The step of a parser among the properties of a pattern. -/
def stepProperties (goal : Goal) (stack : List OpenPattern) (listed : List (Field Rule))
    (lexeme : Lexeme) : Except Fault State :=
  if lexeme.token = .rightBrace then
    if listed.isEmpty then .error (lexeme.unexpected .property)
    else .ok (afterRule goal stack (.pattern listed))
  else
    match lexeme.token.name? with
    | some name => .ok (.property goal stack listed name lexeme.start.toLocation)
    | none => .error (lexeme.unexpected .propertyOrRightBrace)

/-- Whether a property is listed. -/
def lists (listed : List (Field Rule)) (name : String) : Bool :=
  listed.any fun field => field.name == name

/-- The state behind one more token. -/
def step : State → Lexeme → Except Fault State
  | declaration complete, lexeme =>
    if lexeme.token = .keyword .type then .ok (typeName complete)
    else .error (lexeme.unexpected .typeKeyword)
  | typeName complete, lexeme =>
    match lexeme.token with
    | .identifier name => .ok (equalsSign complete name)
    | _ => .error (lexeme.unexpected .typeName)
  | equalsSign complete name, lexeme =>
    if lexeme.token = .equals then .ok (typeExpression (.definition complete name) [])
    else .error (lexeme.unexpected .equalsSign)
  | typeExpression goal stack, lexeme => stepTypeExpression goal stack lexeme
  | enumerationBrace goal stack, lexeme =>
    if lexeme.token = .leftBrace then
      .ok (enumeration goal stack lexeme.start.toLocation [])
    else .error (lexeme.unexpected .leftBrace)
  | enumeration goal stack brace members, lexeme =>
    stepEnumeration goal stack brace members lexeme
  | properties goal stack listed, lexeme => stepProperties goal stack listed lexeme
  | property goal stack listed name place, lexeme =>
    if lists listed name then .error (.grammar place (.duplicateProperty name))
    else if lexeme.token = .colon then .ok (typeExpression goal (⟨listed, name⟩ :: stack))
    else stepProperties goal stack (listed ++ [⟨name, none⟩]) lexeme
  | finished _, lexeme => .error (lexeme.unexpected .endOfInput)

/-- What a parser wants where the input ends too early. -/
def expected : State → Expected
  | declaration _ => .typeKeyword
  | typeName _ => .typeName
  | equalsSign _ _ => .equalsSign
  | typeExpression _ _ => .typeExpression
  | enumerationBrace _ _ => .leftBrace
  | enumeration _ _ _ _ => .memberOrRightBrace
  | properties _ _ _ => .propertyOrRightBrace
  | property _ _ _ _ _ => .propertyOrRightBrace
  | finished _ => .endOfInput

/-- The fault of a state that may not end the input. -/
def unfinished (state : State) (finish : Location) : Fault :=
  match state with
  | property _ _ listed name place =>
    if lists listed name then .grammar place (.duplicateProperty name)
    else .grammar finish (.unexpected state.expected none)
  | _ => .grammar finish (.unexpected state.expected none)

/-- The state behind several tokens. -/
def run (state : State) (lexemes : List Lexeme) : Except Fault State := lexemes.foldlM step state

/-- The state at the end of a token stream: all its tokens are taken, and its lexical fault, if
it has one, comes after them. -/
def read (state : State) (stream : TokenStream) : Except Fault State :=
  (state.run stream.lexemes).bind fun last =>
    match stream.fault with
    | some fault => .error fault
    | none => .ok last

end State

/-- The definitions of a source text, in order. -/
def parseDefinitions (source : List Char) : Except Fault (List Definition) :=
  let stream := TokenStream.ofSource source
  ((State.declaration []).read stream).bind fun
    | .declaration complete => .ok complete
    | last => .error (last.unfinished stream.finish)

/-- The rule of a source text that is one type expression. -/
def parseRule (source : List Char) : Except Fault Rule :=
  let stream := TokenStream.ofSource source
  ((State.typeExpression .lone []).read stream).bind fun
    | .finished rule => .ok rule
    | last => .error (last.unfinished stream.finish)

end JsonShape
