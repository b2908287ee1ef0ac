import JsonShape.Number.Basic

/-!
# Numerals

The digits of a written number.  `splitNumeral?` cuts the longest numeral off a text, an optional
minus sign and digits with an optional fraction and exponent; it is made of splits for the parts,
none of which loses a character (`splitNumeral?_append`).
-/

namespace JsonShape

/-- A written number: sign, digits before and behind the point, and the exponent if there is
one.  A numeral without fraction and exponent denotes an integer. -/
structure Numeral where
  negative : Bool
  whole : List Char
  fraction : List Char
  exponent : Option Int
  deriving DecidableEq, Repr

/-- The value of an ASCII digit. -/
def digitValue (c : Char) : Nat := c.toNat - '0'.toNat

/-- The value of a string of decimal digits. -/
def digitsValue (digits : List Char) : Nat := digits.foldl (fun n c => 10 * n + digitValue c) 0

/-- The integer of a sign and digits. -/
def signedValue (negative : Bool) (digits : List Char) : Int :=
  if negative then -(digitsValue digits : Int) else digitsValue digits

/-- The text of a numeral, its exponent in plain digits. -/
def Numeral.chars (n : Numeral) : List Char :=
  (if n.negative then ['-'] else []) ++ n.whole
    ++ (if n.fraction.isEmpty then [] else '.' :: n.fraction)
    ++ (match n.exponent with
      | none => []
      | some power => 'e' :: integerText power)

/-! ## Splits -/

/-- A split text with one more character in front. -/
def prepend (c : Char) (split : List Char × List Char) : List Char × List Char :=
  (c :: split.1, split.2)

@[simp] theorem prepend_fst (c : Char) (split : List Char × List Char) :
    (prepend c split).1 = c :: split.1 := rfl

@[simp] theorem prepend_snd (c : Char) (split : List Char × List Char) :
    (prepend c split).2 = split.2 := rfl

/-- A text split behind its first digits. -/
def splitDigits (text : List Char) : List Char × List Char :=
  (text.takeWhile Char.isDigit, text.dropWhile Char.isDigit)

/-- A text split behind a minus sign that it starts with. -/
def splitMinus : List Char → List Char × List Char
  | '-' :: rest => (['-'], rest)
  | text => ([], text)

/-- A text split behind a fraction, a point with digits, that it starts with. -/
def splitFraction : List Char → List Char × List Char
  | '.' :: rest =>
    if (splitDigits rest).1.isEmpty then ([], '.' :: rest) else prepend '.' (splitDigits rest)
  | text => ([], text)

/-- A text split behind a sign that it starts with. -/
def splitSign : List Char → List Char × List Char
  | '+' :: rest => (['+'], rest)
  | '-' :: rest => (['-'], rest)
  | text => ([], text)

/-- A text split behind an exponent, the letter and digits with or without a sign, that it
starts with. -/
def splitExponent : List Char → List Char × List Char
  | [] => ([], [])
  | c :: rest =>
    let sign := splitSign rest
    let digits := splitDigits sign.2
    if (c = 'e' ∨ c = 'E') ∧ digits.1 ≠ [] then (c :: (sign.1 ++ digits.1), digits.2)
    else ([], c :: rest)

/-- The value of an exponent's characters. -/
def exponentValue? (chars : List Char) : Option Int :=
  if chars.isEmpty then none
  else
    let sign := splitSign (chars.drop 1)
    some (signedValue (sign.1 == ['-']) sign.2)

/-- The longest numeral at the start of a text, its characters and what they denote, and the
rest.  A point or an exponent without digits does not belong to it. -/
def splitNumeral? (text : List Char) : Option ((List Char × Numeral) × List Char) :=
  let minus := splitMinus text
  let whole := splitDigits minus.2
  let fraction := splitFraction whole.2
  let exponent := splitExponent fraction.2
  if whole.1.isEmpty then none
  else some ((minus.1 ++ whole.1 ++ fraction.1 ++ exponent.1,
    ⟨!minus.1.isEmpty, whole.1, fraction.1.drop 1, exponentValue? exponent.1⟩), exponent.2)

/-! ## Splits lose nothing -/

theorem splitDigits_append (text : List Char) :
    (splitDigits text).1 ++ (splitDigits text).2 = text := List.takeWhile_append_dropWhile

theorem splitMinus_append (text : List Char) :
    (splitMinus text).1 ++ (splitMinus text).2 = text := by
  unfold splitMinus
  split <;> rfl

theorem splitFraction_append (text : List Char) :
    (splitFraction text).1 ++ (splitFraction text).2 = text := by
  unfold splitFraction
  split
  · split
    · rfl
    · simp [splitDigits_append]
  · rfl

theorem splitSign_append (text : List Char) :
    (splitSign text).1 ++ (splitSign text).2 = text := by
  unfold splitSign
  split <;> rfl

theorem splitExponent_append (text : List Char) :
    (splitExponent text).1 ++ (splitExponent text).2 = text := by
  unfold splitExponent
  split
  · rfl
  · dsimp only
    split
    · simp [splitDigits_append, splitSign_append]
    · rfl

theorem splitNumeral?_append {text taken rest : List Char} {numeral : Numeral}
    (h : splitNumeral? text = some ((taken, numeral), rest)) : taken ++ rest = text := by
  simp only [splitNumeral?] at h
  split at h
  · cases h
  · cases h
    simp [splitExponent_append, splitFraction_append, splitDigits_append, splitMinus_append]

theorem splitNumeral?_ne_nil {text taken rest : List Char} {numeral : Numeral}
    (h : splitNumeral? text = some ((taken, numeral), rest)) : taken ≠ [] := by
  simp only [splitNumeral?] at h
  split at h
  · cases h
  · rename_i nonempty
    cases h
    simp at nonempty
    simp [nonempty]

end JsonShape
