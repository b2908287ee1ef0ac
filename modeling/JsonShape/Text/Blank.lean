/-!
# Blank text

The characters with Unicode's `White_Space` property, and the lines that hold nothing else.  A
text is cut into lines at every line feed; a carriage return right before the line feed belongs
to the line's end, and a last line needs no end.
-/

namespace JsonShape

/-- Unicode's `White_Space` property. -/
def isBlankChar (c : Char) : Bool :=
  let n := c.toNat
  (0x9 ≤ n && n ≤ 0xd) || n == 0x20 || n == 0x85 || n == 0xa0 || n == 0x1680
    || (0x2000 ≤ n && n ≤ 0x200a) || n == 0x2028 || n == 0x2029 || n == 0x202f || n == 0x205f
    || n == 0x3000

/-- Whether a text holds nothing but white space. -/
def isBlankText (text : List Char) : Bool := text.all isBlankChar

/-- A text without a final carriage return. -/
def dropReturn (line : List Char) : List Char :=
  if line.getLast? = some '\r' then line.dropLast else line

/-- The lines of a text. -/
def linesOf (text : List Char) : List (List Char) :=
  go [] text
where
  /-- The lines of a text, the first of which has begun with the characters in `begun`,
  the last of them first. -/
  go (begun : List Char) : List Char → List (List Char)
    | [] => if begun.isEmpty then [] else [begun.reverse]
    | c :: rest =>
      if c = '\n' then dropReturn begun.reverse :: go [] rest else go (c :: begun) rest

example : linesOf "a\r\n\nb\r".toList = ["a".toList, [], "b\r".toList] := by decide

end JsonShape
