/-!
# Positions in a text

A text is a list of characters.  A `Position` says where a reader stands: how many UTF-8 bytes
are behind it, and on which line and column it is.  Only a line feed ends a line, and a column
counts characters, so `Position.advance` is the whole rule.

`Location.ofOffset?` finds the line and column of a byte offset by walking the text: an offset
inside a character has no location, and one behind the end has the location of the end.
-/

namespace JsonShape

/-- A line and a column, both counted from one. -/
structure Location where
  line : Nat
  column : Nat
  deriving DecidableEq, Repr

namespace Location

/-- Where every text starts. -/
def start : Location := ⟨1, 1⟩

/-- The location behind one more character. -/
def advance (location : Location) (c : Char) : Location :=
  if c = '\n' then ⟨location.line + 1, 1⟩ else ⟨location.line, location.column + 1⟩

/-- The location behind a whole text. -/
def past (location : Location) (text : List Char) : Location := text.foldl advance location

/-- Reading order: by line, then by column. -/
def Before (a b : Location) : Prop := a.line < b.line ∨ a.line = b.line ∧ a.column < b.column

/-- A location is written as line, colon, column. -/
def render (location : Location) : String :=
  toString location.line ++ ":" ++ toString location.column

end Location

/-- The number of bytes that a text takes in UTF-8. -/
def byteLength : List Char → Nat
  | [] => 0
  | c :: rest => c.utf8Size + byteLength rest

/-- The characters before a byte offset: all of them where the offset is behind the end, and no
answer where it is inside a character. -/
def charsBefore? : List Char → Nat → Option (List Char)
  | _, 0 => some []
  | [], _ + 1 => some []
  | c :: rest, offset + 1 =>
    if c.utf8Size ≤ offset + 1 then (charsBefore? rest (offset + 1 - c.utf8Size)).map (c :: ·)
    else none

/-- The line and column of a byte offset. -/
def Location.ofOffset? (text : List Char) (offset : Nat) : Option Location :=
  (charsBefore? text offset).map (Location.start.past ·)

/-- A place in a text: its line and column, and the bytes before it. -/
structure Position extends Location where
  offset : Nat
  deriving DecidableEq, Repr

namespace Position

/-- The position at the start of every text. -/
def start : Position := ⟨Location.start, 0⟩

/-- The position behind one more character. -/
def advance (position : Position) (c : Char) : Position :=
  ⟨position.toLocation.advance c, position.offset + c.utf8Size⟩

/-- The position behind a whole text. -/
def past (position : Position) (text : List Char) : Position := text.foldl advance position

@[simp] theorem past_nil (position : Position) : position.past [] = position := rfl

@[simp] theorem past_cons (position : Position) (c : Char) (text : List Char) :
    position.past (c :: text) = (position.advance c).past text := rfl

theorem past_append (position : Position) (a b : List Char) :
    position.past (a ++ b) = (position.past a).past b := List.foldl_append

theorem toLocation_past (position : Position) (text : List Char) :
    (position.past text).toLocation = position.toLocation.past text := by
  induction text generalizing position with
  | nil => rfl
  | cons c rest ih => exact ih (position.advance c)

theorem offset_past (position : Position) (text : List Char) :
    (position.past text).offset = position.offset + byteLength text := by
  induction text generalizing position with
  | nil => simp [byteLength]
  | cons c rest ih =>
    rw [past_cons, ih]
    simp [advance, byteLength, Nat.add_assoc]

end Position

/-- Behind a prefix of a text, its byte length leads back to exactly that prefix. -/
theorem charsBefore?_byteLength (before rest : List Char) :
    charsBefore? (before ++ rest) (byteLength before) = some before := by
  induction before with
  | nil => cases rest <;> rfl
  | cons c more ih =>
    have size := c.utf8Size_pos
    have split : byteLength (c :: more) = (c.utf8Size + byteLength more - 1) + 1 := by
      simp [byteLength]; omega
    rw [List.cons_append, split, charsBefore?]
    have fits : c.utf8Size ≤ c.utf8Size + byteLength more - 1 + 1 := by omega
    have left : c.utf8Size + byteLength more - 1 + 1 - c.utf8Size = byteLength more := by omega
    rw [if_pos fits, left, ih]
    rfl

end JsonShape
