import JsonShape.Number.Reading

/-!
# Numbers in queries

A query takes a number as an integer of 64 bits or, where it is none, as the numeral that is
written.  A numeral is written again as it stands; it is compared and negated as the double
nearest to it.  What is computed in this way may be infinite, and an infinite number is written
as null.
-/

namespace JsonShape

/-- A double or an infinity. -/
inductive WideDouble where
  | finite (value : Double)
  | infinite (negative : Bool)

namespace WideDouble

/-- The double nearest to a numeral. -/
def ofNumeral (n : Numeral) : WideDouble :=
  match Double.ofDecimal? n.negative (digitsValue (n.whole ++ n.fraction))
      (n.exponent.getD 0 - n.fraction.length) with
  | some d => finite d
  | none => infinite n.negative

/-- The double nearest to an integer. -/
def ofInt (n : Int) : WideDouble :=
  match Double.ofFraction? (n < 0) n.natAbs 1 with
  | some d => finite d
  | none => infinite (n < 0)

/-- The number with the other sign. -/
def negated : WideDouble → WideDouble
  | finite d => finite (d.withSign !d.negative)
  | infinite negative => infinite !negative

/-- Numeric equality. -/
def same : WideDouble → WideDouble → Bool
  | finite a, finite b => a.scaled == b.scaled
  | infinite a, infinite b => a == b
  | _, _ => false

/-- The JSON text of a double; an infinity, which JSON does not have, is null. -/
def chars : WideDouble → List Char
  | finite d => NumberLayout.standard.double d
  | infinite _ => "null".toList

end WideDouble

/-- A number that a query works on. -/
inductive QueryNumber where
  | integer (value : Int)
  | written (numeral : Numeral)
  | computed (value : WideDouble)

namespace QueryNumber

/-- The number of a numeral: an integer, if 64 bits hold it with its sign. -/
def ofNumeral (n : Numeral) : QueryNumber :=
  let value := signedValue n.negative n.whole
  if n.isInteger ∧ -9223372036854775808 ≤ value ∧ value ≤ 9223372036854775807 then integer value
  else written n

/-- The number of a document. -/
def ofNumber : Number → QueryNumber
  | .integer n _ => ofNumeral ⟨n < 0, Nat.toDigits 10 n.natAbs, [], none⟩
  | .double d => computed (.finite d)

/-- The double nearest to a number. -/
def double : QueryNumber → WideDouble
  | integer n => .ofInt n
  | written n => .ofNumeral n
  | computed d => d

/-- The number with the other sign. -/
def negated : QueryNumber → QueryNumber
  | integer n => integer (-n)
  | n => computed n.double.negated

/-- Equality: two integers exactly, all others as doubles. -/
def same : QueryNumber → QueryNumber → Bool
  | integer a, integer b => a == b
  | a, b => a.double.same b.double

/-- The JSON text of a number. -/
def chars : QueryNumber → List Char
  | integer n => integerText n
  | written n => n.chars
  | computed d => d.chars

end QueryNumber

end JsonShape
