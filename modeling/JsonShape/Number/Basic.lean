import JsonShape.Number.Shortest

/-!
# Numbers

A number of a document or a definition is an integer that fits in 64 bits, signed or unsigned,
or a double.  The two forms stay apart: `10` and `10.0` are different numbers for `alike`, which
compares what is written, and equal ones for `agrees`, which compares values.

`Number.render` writes an integer in decimal and a double with the fewest digits that read back,
laid out as `NumberLayout.standard` says.
-/

namespace JsonShape

/-- The integers that fit in 64 bits, signed or unsigned. -/
abbrev Integral (n : Int) : Prop := -9223372036854775808 ≤ n ∧ n ≤ 18446744073709551615

/-- A number as it is written: an integer or a double. -/
inductive Number where
  | integer (value : Int) (fits : Integral value)
  | double (value : Double)
  deriving DecidableEq

namespace Number

/-- The number of an integer that fits. -/
def ofInt? (n : Int) : Option Number := if fits : Integral n then some (.integer n fits) else none

/-- The value as a double has it, in steps; an integer is rounded first. -/
def scaled : Number → Int
  | .integer n _ => Double.scaledOfInt n
  | .double d => d.scaled

/-- Numeric agreement: integers agree when they are equal, and with a double the values are
compared as doubles. -/
def agrees : Number → Number → Bool
  | .integer a _, .integer b _ => a == b
  | a, b => a.scaled == b.scaled

/-- Sameness of written form: two integers or two doubles of one value. -/
def alike : Number → Number → Bool
  | .integer a _, .integer b _ => a == b
  | .double a, .double b => a.scaled == b.scaled
  | _, _ => false

end Number

/-- How the digits of a double are laid out: the least and greatest power of ten of the first
digit that are written positionally, all others with an exponent. -/
structure NumberLayout where
  least : Int
  greatest : Int

/-- From `0.00001` up to below `10 ^ 16` a double is written positionally. -/
def NumberLayout.standard : NumberLayout := ⟨-5, 15⟩

namespace NumberLayout

/-- Digits with a point behind the first `count`, at least one digit on either side. -/
def pointed (digits : List Char) (count : Nat) : List Char :=
  let whole := digits.take count ++ List.replicate (count - digits.length) '0'
  let fraction := digits.drop count
  whole ++ '.' :: (if fraction.isEmpty then ['0'] else fraction)

/-- One digit before the point and an exponent with its sign; a lone digit has no point. -/
def scientific (digits : List Char) (power : Int) : List Char :=
  let rest := digits.drop 1
  let sign := if power < 0 then '-' else '+'
  digits.take 1 ++ (if rest.isEmpty then [] else '.' :: rest)
    ++ 'e' :: sign :: (Nat.toDigits 10 power.natAbs)

/-- The text of a decimal that is not negative. -/
def decimal (layout : NumberLayout) (d : Decimal) : List Char :=
  let digits := Nat.toDigits 10 d.digits
  let power := (digits.length : Int) - 1 + d.exponent
  if power < layout.least ∨ layout.greatest < power then scientific digits power
  else if 0 ≤ power then pointed digits (power.toNat + 1)
  else '0' :: '.' :: (List.replicate (-power - 1).toNat '0' ++ digits)

/-- The text of a double. -/
def double (layout : NumberLayout) (d : Double) : List Char :=
  (if d.negative then ['-'] else []) ++ layout.decimal d.shortest

end NumberLayout

/-- The text of an integer. -/
def integerText (n : Int) : List Char :=
  (if n < 0 then ['-'] else []) ++ Nat.toDigits 10 n.natAbs

/-- The text of a number. -/
def Number.chars : Number → List Char
  | .integer n _ => integerText n
  | .double d => NumberLayout.standard.double d

/-- The text of a number. -/
def Number.render (n : Number) : String := String.ofList n.chars

end JsonShape
