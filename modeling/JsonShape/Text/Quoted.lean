import JsonShape.Text.Unseen

/-!
# Quoted text

A text stands in double quotes in three formats, which differ in what they escape.

* `Quoting.source` is the one of definitions: quotes, backslashes, line feeds, carriage returns
  and tabs, and nothing else.
* `Quoting.json` is the one of documents: quotes, backslashes and all characters below U+0020.
* `Quoting.message` is the one of messages: quotes, backslashes and every character that does not
  show.
-/

namespace JsonShape

/-- A format of quoted text: what it writes for a character in place of the character. -/
abbrev Quoting := Char → Option (List Char)

namespace Quoting

/-- One character inside the quotes. -/
def char (quoting : Quoting) (c : Char) : List Char := (quoting c).getD [c]

/-- The inside of the quotes. -/
def body (quoting : Quoting) (text : List Char) : List Char := text.flatMap quoting.char

/-- A text in quotes. -/
def write (quoting : Quoting) (text : List Char) : List Char := '"' :: (quoting.body text ++ ['"'])

/-- A string in quotes. -/
def quote (quoting : Quoting) (s : String) : String := String.ofList (quoting.write s.toList)

/-- The hexadecimal digits of a number, with zeros in front up to a width. -/
def hexadecimal (width n : Nat) : List Char :=
  let digits := Nat.toDigits 16 n
  List.replicate (width - digits.length) '0' ++ digits

/-- Quoting in definitions. -/
def source : Quoting
  | '"' => some ['\\', '"']
  | '\\' => some ['\\', '\\']
  | '\n' => some ['\\', 'n']
  | '\r' => some ['\\', 'r']
  | '\t' => some ['\\', 't']
  | _ => none

/-- Quoting in documents. -/
def json : Quoting
  | '"' => some ['\\', '"']
  | '\\' => some ['\\', '\\']
  | '\n' => some ['\\', 'n']
  | '\r' => some ['\\', 'r']
  | '\t' => some ['\\', 't']
  | '\x08' => some ['\\', 'b']
  | '\x0c' => some ['\\', 'f']
  | c => if c.toNat < 0x20 then some ('\\' :: 'u' :: hexadecimal 4 c.toNat) else none

/-- Quoting in messages. -/
def message : Quoting
  | '"' => some ['\\', '"']
  | '\\' => some ['\\', '\\']
  | '\n' => some ['\\', 'n']
  | '\r' => some ['\\', 'r']
  | '\t' => some ['\\', 't']
  | '\x00' => some ['\\', '0']
  | c =>
    if isUnseen c then some ('\\' :: 'u' :: '{' :: (hexadecimal 1 c.toNat ++ ['}'])) else none

end Quoting

end JsonShape
