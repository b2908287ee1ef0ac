import JsonShape.Source.Fault

/-!
# Scanning definition source

A source text is layout – blanks and comments – between tokens.  `scan` reads all of it: every
item is the longest token at its place, or a fault for characters that start none, after which
reading goes on.

Each form of token has a function that splits a text behind its longest prefix of that form, and
`firstPiece` cuts one piece off a text.  `firstPiece_append` and `splitLayout_append` say that a
split loses nothing; so the position behind an item is the position before it moved past the
characters that it takes, and no place is ever looked up.
-/

namespace JsonShape

/-! ## Layout -/

/-- The blanks of definition source. -/
def isLayoutChar (c : Char) : Bool :=
  c == ' ' || c == '\t' || c == '\r' || c == '\n' || c == '\x0c'

/-- A text split behind its blanks and comments.  A comment starts with two slashes and ends
before the next line feed. -/
def splitLayout (inComment : Bool) : List Char → List Char × List Char
  | [] => ([], [])
  | c :: rest =>
    if inComment then prepend c (splitLayout (c != '\n') rest)
    else if isLayoutChar c then prepend c (splitLayout false rest)
    else if c = '/' ∧ rest.head? = some '/' then prepend c (splitLayout true rest)
    else ([], c :: rest)

/-! ## Strings -/

/-- The inside of a string literal at the start of a text: characters other than quotes,
backslashes and line feeds, and pairs of a backslash and a character other than a line feed. -/
def splitString : List Char → List Char × List Char
  | [] => ([], [])
  | ['\\'] => ([], ['\\'])
  | '\\' :: c :: rest =>
    if c = '\n' then ([], '\\' :: c :: rest) else prepend '\\' (prepend c (splitString rest))
  | c :: rest =>
    if c = '"' ∨ c = '\n' then ([], c :: rest) else prepend c (splitString rest)

/-- What ends the line of a string literal that is not closed: a line feed, behind some characters,
or the end of the text.  A quote would close the literal. -/
inductive LineEnd where
  | feed (before : List Char)
  | quote
  | finish
  deriving DecidableEq

/-- The end of a line that has one more character in front. -/
def LineEnd.behind (c : Char) : LineEnd → LineEnd
  | feed before => .feed (c :: before)
  | quote => .quote
  | finish => .finish

/-- What ends the line of a string literal, whose opening quote is followed by a text.  A backslash
takes the next character with it, unless this is a line feed. -/
def lineEnd : List Char → LineEnd
  | [] => .finish
  | '\n' :: _ => .feed []
  | '"' :: _ => .quote
  | ['\\'] => .finish
  | '\\' :: c :: rest =>
    if c = '\n' then .feed ['\\'] else ((lineEnd rest).behind c).behind '\\'
  | c :: rest => (lineEnd rest).behind c

/-- The character that an escape denotes. -/
def escaped? : Char → Option Char
  | '"' => some '"'
  | '\\' => some '\\'
  | '/' => some '/'
  | 'n' => some '\n'
  | 'r' => some '\r'
  | 't' => some '\t'
  | _ => none

/-- The text of a string literal's inside, or the first escape that denotes nothing. -/
def unescape : List Char → Except Char (List Char)
  | [] => .ok []
  | ['\\'] => .error '\\'
  | '\\' :: c :: rest =>
    match escaped? c with
    | some value => (unescape rest).map (value :: ·)
    | none => .error c
  | c :: rest => (unescape rest).map (c :: ·)

/-! ## Words -/

/-- Whether a character is in a range. -/
def isBetween (first last c : Char) : Bool := first ≤ c && c ≤ last

/-- The characters that a word starts with. -/
def isWordStart (c : Char) : Bool := isBetween 'A' 'Z' c || isBetween 'a' 'z' c || c == '_'

/-- The characters that a word goes on with. -/
def isWordChar (c : Char) : Bool :=
  isBetween 'A' 'Z' c || isBetween 'a' 'z' c || isBetween '0' '9' c || c == '_' || c == '-'

/-- The keyword that a word is scanned as. -/
def Keyword.ofWord? : String → Option Keyword
  | "type" => some type
  | "array" => some array
  | "boolean" => some boolean
  | "number" => some number
  | "object" => some object
  | "string" => some string
  | "enumeration" => some enumeration
  | "true" => some truth
  | "false" => some falsity
  | _ => none

/-- The token of a word. -/
def Token.ofWord (s : String) : Token :=
  match Keyword.ofWord? s with
  | some k => .keyword k
  | none => .identifier s

/-! ## Pieces -/

/-- What stands at the start of a text that is not layout: the characters that it takes, those
behind it, and the token that it is, or the cause of a fault with the characters before its
place. -/
structure Piece where
  taken : List Char
  behind : List Char
  content : Except (LexicalCause × List Char) Token

/-- The piece of a string literal whose opening quote is followed by a text. -/
def stringPiece (text : List Char) : Piece :=
  let inside := (splitString text).1
  match (splitString text).2 with
  | '"' :: rest =>
    match unescape inside with
    | .ok value => ⟨'"' :: (inside ++ ['"']), rest, .ok (.string (String.ofList value))⟩
    | .error c => ⟨'"' :: (inside ++ ['"']), rest, .error (.invalidEscape c, [])⟩
  | rest =>
    match lineEnd text with
    | .feed before => ⟨'"' :: inside, rest, .error (.lineBreakInString, '"' :: before)⟩
    | .quote | .finish => ⟨'"' :: inside, rest, .error (.unterminatedString, [])⟩

/-- The content of a numeral's piece. -/
def numeralContent (taken : List Char) (numeral : Numeral) :
    Except (LexicalCause × List Char) Token :=
  match numeral.nearest? with
  | some n => .ok (.number n)
  | none => .error (.invalidNumber (String.ofList taken), [])

/-- The piece of a word with a first character. -/
def wordPiece (c : Char) (rest : List Char) : Piece :=
  let word := c :: rest.takeWhile isWordChar
  ⟨word, rest.dropWhile isWordChar, .ok (.ofWord (String.ofList word))⟩

/-- The piece of a numeral, or of a character that starts no token. -/
def numeralPiece (c : Char) (rest : List Char) : Piece :=
  match splitNumeral? (c :: rest) with
  | some ((taken, numeral), behind) => ⟨taken, behind, numeralContent taken numeral⟩
  | none => ⟨[c], rest, .error (.unexpectedCharacter c, [])⟩

/-- The token of a mark. -/
def mark? : Char → Option Token
  | '\x7b' => some .leftBrace
  | '\x7d' => some .rightBrace
  | ':' => some .colon
  | '=' => some .equals
  | _ => none

/-- The piece at the start of a text. -/
def firstPiece (c : Char) (rest : List Char) : Piece :=
  if c = '"' then stringPiece rest
  else if isWordStart c then wordPiece c rest
  else
    match mark? c with
    | some token => ⟨[c], rest, .ok token⟩
    | none => numeralPiece c rest

/-! ## Splits lose nothing -/

theorem splitLayout_append (inComment : Bool) (text : List Char) :
    (splitLayout inComment text).1 ++ (splitLayout inComment text).2 = text := by
  induction text generalizing inComment with
  | nil => rfl
  | cons c rest ih =>
    unfold splitLayout
    split
    · simp [ih]
    · split
      · simp [ih]
      · split <;> simp [ih]

theorem splitString_append (text : List Char) :
    (splitString text).1 ++ (splitString text).2 = text := by
  fun_induction splitString text <;> simp_all

theorem stringPiece_append (text : List Char) :
    (stringPiece text).taken ++ (stringPiece text).behind = '"' :: text := by
  have lossless := splitString_append text
  unfold stringPiece
  dsimp only
  split
  · rename_i rest h
    rw [h] at lossless
    split <;> simpa using lossless
  · split <;> simp [lossless]

theorem stringPiece_taken_ne_nil (text : List Char) : (stringPiece text).taken ≠ [] := by
  unfold stringPiece
  dsimp only
  split
  · split <;> simp
  · split <;> simp

theorem wordPiece_append (c : Char) (rest : List Char) :
    (wordPiece c rest).taken ++ (wordPiece c rest).behind = c :: rest := by
  simp [wordPiece, List.takeWhile_append_dropWhile]

theorem numeralPiece_append (c : Char) (rest : List Char) :
    (numeralPiece c rest).taken ++ (numeralPiece c rest).behind = c :: rest := by
  unfold numeralPiece
  split
  · rename_i found
    exact splitNumeral?_append found
  · rfl

theorem numeralPiece_taken_ne_nil (c : Char) (rest : List Char) :
    (numeralPiece c rest).taken ≠ [] := by
  unfold numeralPiece
  split
  · rename_i found
    exact splitNumeral?_ne_nil found
  · exact List.cons_ne_nil c []

/-- A piece and what is behind it make up the text. -/
theorem firstPiece_append (c : Char) (rest : List Char) :
    (firstPiece c rest).taken ++ (firstPiece c rest).behind = c :: rest := by
  unfold firstPiece
  split
  · rename_i quote
    rw [quote]
    exact stringPiece_append rest
  · split
    · exact wordPiece_append c rest
    · split
      · rfl
      · exact numeralPiece_append c rest

/-- Every piece takes a character. -/
theorem firstPiece_taken_ne_nil (c : Char) (rest : List Char) :
    (firstPiece c rest).taken ≠ [] := by
  unfold firstPiece
  split
  · exact stringPiece_taken_ne_nil rest
  · split
    · exact List.cons_ne_nil c _
    · split
      · exact List.cons_ne_nil c []
      · exact numeralPiece_taken_ne_nil c rest

theorem firstPiece_behind_length (c : Char) (rest : List Char) :
    (firstPiece c rest).behind.length ≤ rest.length := by
  have lossless := congrArg List.length (firstPiece_append c rest)
  have taken := List.length_pos_iff.mpr (firstPiece_taken_ne_nil c rest)
  simp only [List.length_append, List.length_cons] at lossless
  omega

/-! ## Items -/

/-- A token with its place, or a fault. -/
abbrev Item := Except Fault Lexeme

/-- A piece at a position. -/
def Piece.item (piece : Piece) (start : Position) : Item :=
  match piece.content with
  | .ok token => .ok ⟨token, start, start.past piece.taken⟩
  | .error (cause, before) => .error ⟨(start.past before).toLocation, .lexical cause⟩

/-- The items of a text that starts at a position. -/
def scanFrom (position : Position) (text : List Char) : List Item :=
  match _found : splitLayout false text with
  | (_, []) => []
  | (layout, c :: rest) =>
    let piece := firstPiece c rest
    let start := position.past layout
    piece.item start :: scanFrom (start.past piece.taken) piece.behind
termination_by text.length
decreasing_by
  have lossless := congrArg List.length (splitLayout_append false text)
  have shorter := firstPiece_behind_length c rest
  rw [_found] at lossless
  simp at lossless
  omega

/-- All items of a source text. -/
def scan (source : List Char) : List Item := scanFrom .start source

/-- The items up to and including the first fault. -/
def untilFault : List Item → List Item
  | [] => []
  | .ok lexeme :: rest => .ok lexeme :: untilFault rest
  | .error fault :: _ => [.error fault]

/-- The tokens of some items before the first fault, and the fault. -/
def splitAtFault : List Item → List Lexeme × Option Fault
  | [] => ([], none)
  | .ok lexeme :: rest =>
    let split := splitAtFault rest
    (lexeme :: split.1, split.2)
  | .error fault :: _ => ([], some fault)

/-- All tokens of a source text, or its first fault. -/
def tokenize (source : List Char) : Except Fault (List Lexeme) :=
  match splitAtFault (scan source) with
  | (lexemes, none) => .ok lexemes
  | (_, some fault) => .error fault

/-- A source text as its reader meets it: the tokens before the first lexical fault, that fault,
and the place where the text ends. -/
structure TokenStream where
  lexemes : List Lexeme
  fault : Option Fault
  finish : Location

/-- The token stream of a source text. -/
def TokenStream.ofSource (source : List Char) : TokenStream :=
  let split := splitAtFault (scan source)
  ⟨split.1, split.2, Location.start.past source⟩

end JsonShape
