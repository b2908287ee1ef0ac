import JsonShape.Proofs.Source.Literals
import JsonShape.Proofs.Text.Slices

/-!
# Reading between offsets

A reader that knows of each piece only its form and the byte offsets where it starts and stops can
cut its text out of the source, and look up the places of its faults.

* `Stretch.read?` reads a stretch in this way.  It has no answer where an offset is behind the end
  or inside a character.
* `Stretch.StandsBehind source before stretch`: where a stretch stands in its source.  There, its
  text is cut out (`slice?_taken`), its places are found (`ofOffset?_past`), and it is read as the
  scanner reads it (`read?_eq`).
* `Stretch.Safe` puts these together; the pieces of every source are so (`exists_safe`).
-/

namespace JsonShape

/-! ## Reading -/

/-- The form that a piece matches, if it matches one.  Literals are matched before they are found to
denote nothing. -/
def Piece.form? (piece : Piece) : Option Form :=
  match piece.content with
  | .ok token => some token.form
  | .error (.invalidEscape _, _) => some .string
  | .error (.invalidNumber _, _) => some .number
  | .error _ => none

/-- A lexical fault, placed at a byte offset of a source.  There is none where the offset is behind
the end or inside a character. -/
def reportAt? (source : List Char) (offset : Nat) (cause : LexicalCause) : Option Fault :=
  if offset ≤ byteLength source then
    (Location.ofOffset? source offset).map fun place => ⟨place, .lexical cause⟩
  else none

/-- A fault can be placed exactly on the boundaries of a source. -/
theorem reportAt?_isSome_iff {source : List Char} {offset : Nat} {cause : LexicalCause} :
    (reportAt? source offset cause).isSome = true ↔ Boundary source offset := by
  rw [boundary_iff_ofOffset?, reportAt?]
  split
  · next inside =>
    rw [Option.isSome_map]
    exact ⟨fun located => ⟨inside, located⟩, And.right⟩
  · next outside => exact ⟨nofun, fun boundary => absurd boundary.1 outside⟩

/-- What the text between two byte offsets of a source is read as, if it has a form.  One byte is
cut off at each end of a string literal. -/
def readForm? (source : List Char) (start stop : Nat) (form : Form) :
    Option (Except Fault Token) := do
  let text ← slice? source start stop
  match form with
  | .string =>
    let inside ← slice? text 1 (byteLength text - 1)
    match unescape inside with
    | .ok value => some (.ok (.string (String.ofList value)))
    | .error e => (reportAt? source start (.invalidEscape e)).map .error
  | .number =>
    let ((_, numeral), _) ← splitNumeral? text
    match numeral.nearest? with
    | some n => some (.ok (.number n))
    | none => (reportAt? source start (.invalidNumber (String.ofList text))).map .error
  | .identifier => some (.ok (.identifier (String.ofList text)))
  | .keyword word => some (.ok (.keyword word))
  | .leftBrace => some (.ok .leftBrace)
  | .rightBrace => some (.ok .rightBrace)
  | .colon => some (.ok .colon)
  | .equals => some (.ok .equals)
  | .blanks | .comment => none

/-- The fault of a source whose text has no form from a byte offset on. -/
def readUnmatched? (source : List Char) (start : Nat) : Option Fault := do
  let rest ← slice? source start (byteLength source)
  match rest with
  | '"' :: text =>
    match lineEnd text with
    | .feed before => reportAt? source (start + byteLength ('"' :: before)) .lineBreakInString
    | .quote | .finish => reportAt? source start .unterminatedString
  | c :: _ => reportAt? source start (.unexpectedCharacter c)
  | [] => reportAt? source start (.unexpectedCharacter '\x00')

/-- What a stretch of a source is read as, from its offsets and its form. -/
def Stretch.read? (source : List Char) (stretch : Stretch) : Option (Except Fault Token) :=
  match stretch.piece.form? with
  | some form => readForm? source stretch.start.offset stretch.stop.offset form
  | none => (readUnmatched? source stretch.start.offset).map .error

/-! ## Stretches in their source -/

/-- A stretch stands behind a part of a source. -/
structure Stretch.StandsBehind (source before : List Char) (stretch : Stretch) : Prop where
  whole : source = before ++ (stretch.piece.taken ++ stretch.piece.behind)
  start : stretch.start = Position.start.past before

namespace Stretch.StandsBehind

variable {source before : List Char} {stretch : Stretch}
  (stands : stretch.StandsBehind source before)

include stands

theorem offset_start : stretch.start.offset = byteLength before := by
  rw [stands.start, Position.offset_past]
  exact Nat.zero_add _

theorem offset_stop :
    stretch.stop.offset = byteLength before + byteLength stretch.piece.taken := by
  rw [Stretch.stop, Position.offset_past, stands.offset_start]

theorem slice?_taken :
    slice? source stretch.start.offset stretch.stop.offset = some stretch.piece.taken := by
  rw [stands.offset_start, stands.offset_stop]
  exact slice?_eq_some_iff.mpr ⟨before, _, stands.whole, rfl, rfl⟩

theorem slice?_rest :
    slice? source stretch.start.offset (byteLength source) =
      some (stretch.piece.taken ++ stretch.piece.behind) := by
  refine slice?_eq_some_iff.mpr ⟨before, [], ?_, stands.offset_start, ?_⟩
  · rw [List.append_nil]
    exact stands.whole
  · rw [stands.whole, byteLength_append, stands.offset_start]

/-- A place in a stretch is found by its offset. -/
theorem ofOffset?_past {front rest : List Char}
    (split : stretch.piece.taken ++ stretch.piece.behind = front ++ rest) :
    Location.ofOffset? source (stretch.start.offset + byteLength front) =
      some (stretch.start.past front).toLocation := by
  have found := Location.ofOffset?_byteLength (before ++ front) rest
  rw [byteLength_append, List.append_assoc, ← split, ← stands.whole, ← stands.offset_start] at found
  have place : (stretch.start.past front).toLocation = Location.start.past (before ++ front) := by
    rw [stands.start, ← Position.past_append]
    exact Position.toLocation_past .start _
  rw [found, place]

theorem reportAt?_past {front rest : List Char}
    (split : stretch.piece.taken ++ stretch.piece.behind = front ++ rest) (cause : LexicalCause) :
    reportAt? source (stretch.start.offset + byteLength front) cause =
      some ⟨(stretch.start.past front).toLocation, .lexical cause⟩ := by
  have inside : stretch.start.offset + byteLength front ≤ byteLength source := by
    rw [stands.whole, split, stands.offset_start, byteLength_append, byteLength_append]
    omega
  rw [reportAt?, if_pos inside, stands.ofOffset?_past split]
  rfl

theorem reportAt?_start (cause : LexicalCause) :
    reportAt? source stretch.start.offset cause =
      some ⟨stretch.start.toLocation, .lexical cause⟩ := by
  have split : stretch.piece.taken ++ stretch.piece.behind =
      [] ++ (stretch.piece.taken ++ stretch.piece.behind) := rfl
  exact stands.reportAt?_past split cause

end Stretch.StandsBehind

/-! ## Reading a stretch -/

/-- The quotes of a string literal are cut off at its ends. -/
theorem slice?_trim (inside : List Char) :
    slice? ('"' :: (inside ++ ['"'])) 1 (byteLength ('"' :: (inside ++ ['"'])) - 1) =
      some inside := by
  refine slice?_eq_some_iff.mpr ⟨['"'], ['"'], rfl, rfl, ?_⟩
  have quote : byteLength ['"'] = 1 := rfl
  rw [← List.singleton_append, byteLength_append, byteLength_append, quote]
  omega

/-- Where no form matches, a character other than a quote is itself reported. -/
theorem readUnmatched?_character {source behind : List Char} {start : Nat} {c : Char}
    (notQuote : c ≠ '"') (rest : slice? source start (byteLength source) = some (c :: behind)) :
    readUnmatched? source start = reportAt? source start (.unexpectedCharacter c) := by
  rw [readUnmatched?, rest, Option.bind_eq_bind, Option.bind_some]
  split
  · next same => exact absurd (List.cons.inj same).1 notQuote
  · next same =>
    cases same
    rfl
  · next same => cases same

theorem Stretch.item_of_ok {stretch : Stretch} {token : Token}
    (content : stretch.piece.content = .ok token) :
    stretch.item.map Lexeme.token = .ok token := by
  rw [Stretch.item, Piece.item, content]
  rfl

theorem Stretch.item_of_error {stretch : Stretch} {cause : LexicalCause} {front : List Char}
    (content : stretch.piece.content = .error (cause, front)) :
    stretch.item.map Lexeme.token =
      .error ⟨(stretch.start.past front).toLocation, .lexical cause⟩ := by
  rw [Stretch.item, Piece.item, content]
  rfl

namespace Stretch.StandsBehind

variable {source before : List Char} {stretch : Stretch}
  (stands : stretch.StandsBehind source before)

include stands

/-- A string literal that is closed is read from its offsets. -/
theorem read?_closed {inside behind : List Char}
    (cut : stretch.piece =
      match unescape inside with
      | .ok value => ⟨'"' :: (inside ++ ['"']), behind, .ok (.string (String.ofList value))⟩
      | .error e => ⟨'"' :: (inside ++ ['"']), behind, .error (.invalidEscape e, [])⟩) :
    stretch.read? source = some (stretch.item.map Lexeme.token) := by
  have text := stands.slice?_taken
  cases denoted : unescape inside with
  | ok value =>
    rw [denoted] at cut
    have content := congrArg Piece.content cut
    rw [cut] at text
    rw [item_of_ok content, read?, Piece.form?, content]
    simp only [readForm?, Token.form, text, Option.bind_eq_bind, Option.bind_some, slice?_trim,
      denoted]
  | error e =>
    rw [denoted] at cut
    have content := congrArg Piece.content cut
    rw [cut] at text
    rw [item_of_error content, read?, Piece.form?, content]
    simp only [readForm?, text, Option.bind_eq_bind, Option.bind_some, slice?_trim, denoted,
      stands.reportAt?_start, Option.map_some]
    rfl

/-- A string literal that is not closed is reported from its start. -/
theorem read?_unclosed {text : List Char} (cut : stretch.piece = stringPiece text)
    (unclosed : lineEnd text ≠ .quote) :
    stretch.read? source = some (stretch.item.map Lexeme.token) := by
  have rest := stands.slice?_rest
  have whole := stringPiece_append text
  rw [← cut] at whole
  rw [whole] at rest
  cases line : lineEnd text with
  | quote => exact absurd line unclosed
  | feed front =>
    have content := stringPiece_of_feed line
    rw [← cut] at content
    obtain ⟨behind, rfl⟩ := eq_append_of_feed line
    have split : stretch.piece.taken ++ stretch.piece.behind =
        '"' :: front ++ '\n' :: behind := whole
    have place := stands.reportAt?_past split .lineBreakInString
    rw [item_of_error content, read?, Piece.form?, content]
    simp only [readUnmatched?, rest, Option.bind_eq_bind, Option.bind_some, line, place,
      Option.map_some]
  | finish =>
    have content := stringPiece_of_finish line
    rw [← cut] at content
    rw [item_of_error content, read?, Piece.form?, content]
    simp only [readUnmatched?, rest, Option.bind_eq_bind, Option.bind_some, line,
      stands.reportAt?_start, Option.map_some]
    rfl

theorem read?_word {c : Char} {rest : List Char} (cut : stretch.piece = wordPiece c rest) :
    stretch.read? source = some (stretch.item.map Lexeme.token) := by
  have text := stands.slice?_taken
  have content : stretch.piece.content = .ok (.ofWord (String.ofList stretch.piece.taken)) := by
    rw [cut]
    rfl
  rw [item_of_ok content, read?, Piece.form?, content]
  simp only [Token.ofWord]
  cases Keyword.ofWord? (String.ofList stretch.piece.taken) with
  | some word => simp only [readForm?, Token.form, text, Option.bind_eq_bind, Option.bind_some]
  | none => simp only [readForm?, Token.form, text, Option.bind_eq_bind, Option.bind_some]

theorem read?_mark {c : Char} {rest : List Char} {token : Token} (known : mark? c = some token)
    (cut : stretch.piece = ⟨[c], rest, .ok token⟩) :
    stretch.read? source = some (stretch.item.map Lexeme.token) := by
  have text := stands.slice?_taken
  have content : stretch.piece.content = .ok token := by rw [cut]
  rw [item_of_ok content, read?, Piece.form?, content]
  unfold mark? at known
  split at known <;> cases known <;>
    simp only [readForm?, Token.form, text, Option.bind_eq_bind, Option.bind_some]

theorem read?_numeral {c : Char} {rest : List Char} (notQuote : c ≠ '"')
    (cut : stretch.piece = numeralPiece c rest) :
    stretch.read? source = some (stretch.item.map Lexeme.token) := by
  unfold numeralPiece at cut
  split at cut
  · next taken numeral behind found =>
    have text := stands.slice?_taken
    have alone := splitNumeral?_alone found
    rw [cut] at text
    unfold numeralContent at cut
    cases near : numeral.nearest? with
    | some n =>
      rw [near] at cut
      have content := congrArg Piece.content cut
      rw [item_of_ok content, read?, Piece.form?, content]
      simp only [readForm?, Token.form, text, Option.bind_eq_bind, Option.bind_some, alone, near]
    | none =>
      rw [near] at cut
      have content := congrArg Piece.content cut
      rw [item_of_error content, read?, Piece.form?, content]
      simp only [readForm?, text, Option.bind_eq_bind, Option.bind_some, alone, near,
        stands.reportAt?_start, Option.map_some]
      rfl
  · have content := congrArg Piece.content cut
    have whole := stands.slice?_rest
    rw [cut] at whole
    rw [item_of_error content, read?, Piece.form?, content]
    simp only [readUnmatched?_character notQuote whole, stands.reportAt?_start, Option.map_some]
    rfl

/-- Every piece is read from its offsets, and to what the scanner reads. -/
theorem read?_eq {c : Char} {rest : List Char} (cut : stretch.piece = firstPiece c rest) :
    stretch.read? source = some (stretch.item.map Lexeme.token) := by
  unfold firstPiece at cut
  split at cut
  · by_cases line : lineEnd rest = .quote
    · obtain ⟨behind, closed⟩ := lineEnd_eq_quote_iff.mp line
      rw [stringPiece_of_closed (Prod.ext rfl closed)] at cut
      exact stands.read?_closed cut
    · exact stands.read?_unclosed cut line
  · next notQuote =>
    split at cut
    · exact stands.read?_word cut
    · split at cut
      · next token known => exact stands.read?_mark known cut
      · exact stands.read?_numeral notQuote cut

end Stretch.StandsBehind

/-! ## Safe stretches -/

/-- A literal is matched, and so is a token; and where there is neither, nothing is. -/
theorem Piece.Maximal.matched {piece : Piece} (maximal : piece.Maximal) :
    (∀ form, piece.form? = some form → form.Longest piece.taken piece.behind) ∧
      (piece.form? = none → Unmatched (piece.taken ++ piece.behind)) := by
  cases maximal with
  | token _ longest | invalidEscape longest _ | invalidNumber longest _ _ =>
    refine ⟨fun form same => ?_, nofun⟩
    cases same
    exact longest
  | unexpected unmatched _ => exact ⟨nofun, fun _ => unmatched⟩
  | unclosed unmatched _ _ known =>
    rcases known with rfl | rfl
    · exact ⟨nofun, fun _ => unmatched⟩
    · exact ⟨nofun, fun _ => unmatched⟩

/-- A stretch can be read in its source: it starts and stops on boundaries, the location of its
start is found, and whatever is cut out and looked up to read it is there.  Its form is the longest
match; if this is a string literal, the bytes at its ends can be cut off. -/
structure Stretch.Safe (source : List Char) (stretch : Stretch) : Prop where
  start : Boundary source stretch.start.offset
  stop : Boundary source stretch.stop.offset
  location : Location.ofOffset? source stretch.start.offset = some stretch.start.toLocation
  text : slice? source stretch.start.offset stretch.stop.offset = some stretch.piece.taken
  rest : slice? source stretch.start.offset (byteLength source) =
    some (stretch.piece.taken ++ stretch.piece.behind)
  read : stretch.read? source = some (stretch.item.map Lexeme.token)
  matched (form : Form) : stretch.piece.form? = some form →
    form.Longest stretch.piece.taken stretch.piece.behind
  unmatched : stretch.piece.form? = none → Unmatched (stretch.piece.taken ++ stretch.piece.behind)
  trim : stretch.piece.form? = some .string →
    1 ≤ byteLength stretch.piece.taken - 1 ∧ Boundary stretch.piece.taken 1 ∧
      Boundary stretch.piece.taken (byteLength stretch.piece.taken - 1)

/-- A string literal is longer than its two quotes, and can be cut behind the first and in front of
the last. -/
theorem trim_of_string {text : List Char} (inside : text ∈ Form.string.language) :
    1 ≤ byteLength text - 1 ∧ Boundary text 1 ∧ Boundary text (byteLength text - 1) := by
  obtain ⟨_, rfl, _, ⟨body, _, _, rfl, rfl⟩, rfl⟩ := inside
  apply slice?_isSome_iff.mp
  exact (congrArg Option.isSome (slice?_trim body)).trans rfl

theorem Stretch.StandsBehind.safe {source before : List Char} {stretch : Stretch}
    (stands : stretch.StandsBehind source before) {c : Char} {rest : List Char}
    (cut : stretch.piece = firstPiece c rest) (maximal : stretch.piece.Maximal) :
    stretch.Safe source := by
  have text := stands.slice?_taken
  obtain ⟨_, start, stop⟩ := slice?_isSome_iff.mp (congrArg Option.isSome text)
  have split : stretch.piece.taken ++ stretch.piece.behind =
      [] ++ (stretch.piece.taken ++ stretch.piece.behind) := rfl
  exact
    { start
      stop
      location := stands.ofOffset?_past split
      text
      rest := stands.slice?_rest
      read := stands.read?_eq cut
      matched := maximal.matched.1
      unmatched := maximal.matched.2
      trim := fun string => trim_of_string (maximal.matched.1 _ string).mem }

/-- The pieces of a source stand in it. -/
theorem exists_stands (source : List Char) :
    ∃ stretches, scan source = stretches.map Stretch.item ∧ Tiles .start source stretches ∧
      ∀ s ∈ stretches, s.piece.Maximal ∧ ∃ before c rest, s.StandsBehind source before ∧
        s.piece = firstPiece c rest := by
  obtain ⟨stretches, scanned, tiles, cut⟩ := exists_tiles_firstPiece .start source
  refine ⟨stretches, scanned, tiles, fun s listed => ?_⟩
  obtain ⟨before, whole, start, _⟩ := tiles.exists_before listed
  obtain ⟨c, rest, piece, shown, noComment⟩ := cut s listed
  refine ⟨?_, before, c, rest, ⟨whole, start⟩, piece⟩
  rw [piece]
  exact firstPiece_maximal shown noComment

/-- The pieces of a source can be read in it. -/
theorem exists_safe (source : List Char) :
    ∃ stretches, scan source = stretches.map Stretch.item ∧ Tiles .start source stretches ∧
      ∀ s ∈ stretches, s.Safe source := by
  obtain ⟨stretches, scanned, tiles, all⟩ := exists_stands source
  refine ⟨stretches, scanned, tiles, fun s listed => ?_⟩
  obtain ⟨maximal, before, c, rest, stands, cut⟩ := all s listed
  exact stands.safe cut maximal

end JsonShape
