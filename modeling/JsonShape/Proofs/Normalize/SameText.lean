import JsonShape.Json.Reader
import JsonShape.Proofs.Normalize.Acceptance
import JsonShape.Proofs.Number.Stepwise
import JsonShape.Proofs.Rule.RoundTrip
import JsonShape.Proofs.Source.Pieces

/-!
# One text in a definition and in a document

A number of a document that stands in a definition is a rule there.  Whether that rule accepts the
document depends on the reader of documents alone.

* `jsonNumerals` is the language of the numbers of documents.
* `parseRule_numeral_iff`, `parse?_of_split`: what such a text is in a definition and in a document.
* `Rule.takesText_iff`: an integer is always accepted.  Another number is accepted exactly if the
  double that it has in the document is nearest to it.
-/

namespace JsonShape

open scoped Computability

/-! ## Numbers of documents -/

/-- The digits other than zero. -/
def isLeadingDigit (c : Char) : Bool := c.isDigit && c != '0'

/-- Digits of which the first is zero only if it is the only one. -/
def plainWholes : Language Char := {['0']} + single isLeadingDigit * (single Char.isDigit)∗

/-- The numbers of documents. -/
def jsonNumerals : Language Char := minusSigns * (plainWholes * (fractions * exponents))

theorem mem_several_of_plain {whole : List Char} (plain : whole ∈ plainWholes) :
    whole ∈ several Char.isDigit := by
  rcases plain with zero | ⟨_, ⟨c, leading, rfl⟩, rest, digits, rfl⟩
  · rw [show whole = ['0'] from zero]
    exact mem_several.mpr ⟨List.cons_ne_nil _ _, by simp⟩
  · have digit : c.isDigit = true := (Bool.and_eq_true_iff.mp leading).1
    exact Language.append_mem_mul (a := [c]) ⟨c, digit, rfl⟩ digits

/-- Only a lone zero starts with zero. -/
theorem length_eq_one_of_plain {whole : List Char} (plain : whole ∈ plainWholes)
    (first : whole.head? = some '0') : whole.length = 1 := by
  rcases plain with zero | ⟨_, ⟨c, leading, rfl⟩, rest, _, rfl⟩
  · rw [show whole = ['0'] from zero]
    rfl
  · cases Option.some.inj first
    cases leading

theorem mem_numerals_of_json {text : List Char} (document : text ∈ jsonNumerals) :
    text ∈ numerals := by
  obtain ⟨sign, inSign, _, ⟨whole, plain, tail, inTail, rfl⟩, rfl⟩ := document
  exact Language.append_mem_mul inSign
    (Language.append_mem_mul (mem_several_of_plain plain) inTail)

/-- All of a numeral is split off where nothing is behind it. -/
theorem exists_splitNumeral?_alone {text : List Char} (inside : text ∈ numerals) :
    ∃ n, splitNumeral? text = some ((text, n), []) := by
  obtain ⟨taken, n, behind, split, bound⟩ := exists_splitNumeral? inside []
  rw [List.append_nil] at split
  have lossless := splitNumeral?_append split
  have nothing : behind = [] := by
    have sizes := congrArg List.length lossless
    rw [List.length_append] at sizes
    exact List.length_eq_zero_iff.mp (by omega)
  rw [nothing, List.append_nil] at lossless
  rw [nothing, lossless] at split
  exact ⟨n, split⟩

/-- The digits before the point are found again. -/
theorem whole_of_split {sign whole tail taken behind : List Char} {n : Numeral}
    (inSign : sign ∈ minusSigns) (inWhole : whole ∈ several Char.isDigit)
    (inTail : tail ∈ fractions * exponents)
    (split : splitNumeral? (sign ++ (whole ++ tail)) = some ((taken, n), behind)) :
    n.whole = whole := by
  have minus := splitMinus_append_digits inSign inWhole tail
  have digits : splitDigits (whole ++ tail) = (whole, tail) := by
    have all := mem_star_single.mpr (mem_several.mp inWhole).2
    refine cuts_digits.split_append goesOn_digits all ?_
    intro c first
    have starts := (startsIn_fractions.mul startsIn_exponents) tail inTail c first
    exact isDigit_of_startsTail c starts
  simp only [splitNumeral?, minus, digits] at split
  split at split
  · cases split
  · cases split
    rfl

/-- A number of a document is split off as the same numeral by both readers. -/
theorem exists_split_of_json {text : List Char} (document : text ∈ jsonNumerals) :
    ∃ n, splitNumeral? text = some ((text, n), []) ∧ splitJsonNumeral? text = some (n, []) := by
  obtain ⟨n, split⟩ := exists_splitNumeral?_alone (mem_numerals_of_json document)
  obtain ⟨sign, inSign, _, ⟨whole, plain, tail, inTail, rfl⟩, rfl⟩ := document
  have same : n.whole = whole := whole_of_split inSign (mem_several_of_plain plain) inTail split
  have leading : ¬(n.whole.head? = some '0' ∧ n.whole.length ≠ 1) := by
    intro ⟨first, more⟩
    rw [same] at first more
    exact more (length_eq_one_of_plain plain first)
  have complete : ¬(n.isCutShort [] = true) := by simp [Numeral.isCutShort]
  refine ⟨n, split, ?_⟩
  rw [splitJsonNumeral?, split, Option.bind_some]
  dsimp only
  rw [if_neg leading, if_neg complete]

/-! ## Readings -/

/-- A scalar that a text starts with is read as its value. -/
theorem Raw.read_of_splitScalar? (levels : Nat) {c : Char} {rest behind : List Char} {value : Raw}
    (shown : isJsonBlank c = false) (notArray : c ≠ '[') (notObject : c ≠ '\x7b')
    (found : splitScalar? (c :: rest) = some (value, behind)) :
    ∃ shorter, Raw.read levels (c :: rest) = (value, some ⟨behind, shorter⟩) := by
  have start : skipBlanks (c :: rest) = c :: rest := by
    rw [skipBlanks, List.dropWhile_cons_of_neg (by simp [shown])]
  refine ⟨splitScalar?_length found, ?_⟩
  unfold Raw.read
  split
  · next same =>
    rw [start] at same
    exact absurd (List.cons.inj same).1 notArray
  · next same =>
    rw [start] at same
    exact absurd (List.cons.inj same).1 notObject
  · split
    · next same =>
      rw [start, found] at same
      cases same
      rfl
    · next none =>
      rw [start, found] at none
      cases none

/-- A number of a document is read in steps. -/
theorem parse?_of_split {text : List Char} {n : Numeral} (inside : text ∈ numerals)
    (split : splitJsonNumeral? text = some (n, [])) :
    Json.parse? text = n.stepwise?.map .number := by
  obtain ⟨c, rest, rfl, starts⟩ := exists_cons_of_numerals inside
  have other (d : Char) (notMinus : '-' ≠ d) (noDigit : d.isDigit = false) : c ≠ d := by
    rcases starts with rfl | digit
    · exact notMinus
    · exact ne_of_class digit noDigit
  have shown : isJsonBlank c = false := by
    simp [isJsonBlank, other ' ' (by decide) rfl, other '\t' (by decide) rfl,
      other '\n' (by decide) rfl, other '\r' (by decide) rfl]
  have scalar : splitScalar? (c :: rest) = some (rawNumber n, []) := by
    rw [splitScalar?]
    · rw [split]
    · intro more same
      exact other '"' (by decide) rfl (List.cons.inj same).1
  obtain ⟨shorter, read⟩ := Raw.read_of_splitScalar? Raw.maxDepth shown
    (other '[' (by decide) rfl) (other '\x7b' (by decide) rfl) scalar
  have whole : Raw.ofText? (c :: rest) = some (rawNumber n) := by
    rw [Raw.ofText?, read]
    rfl
  rw [Json.parse?, whole, Option.bind_some, rawNumber]
  cases n.stepwise? with
  | none => rfl
  | some a => rfl

/-- In a definition a numeral is the nearest number, if there is one. -/
theorem parseRule_numeral_iff {text : List Char} {n : Numeral} {a : Number}
    (split : splitNumeral? text = some ((text, n), [])) :
    parseRule text = .ok (.numberLiteral a) ↔ n.nearest? = some a := by
  have scanned := scan_of_splitNumeral? split
  have literal {b : Number} (read : n.nearest? = some b) :
      parseRule text = .ok (.numberLiteral b) := by
    simp only [numeralContent, read] at scanned
    have tokenized : tokenize text = .ok [⟨.number b, .start, Position.start.past text⟩] :=
      tokenize_of_scan scanned
    exact parseRule_eq_ok_iff.mpr
      ⟨_, tokenized, run_lone_iff.mpr ⟨.numberLiteral b, Nat.zero_le _⟩⟩
  constructor
  · intro parsed
    cases read : n.nearest? with
    | none =>
      obtain ⟨lexemes, tokenized, _⟩ := parseRule_eq_ok_iff.mp parsed
      rw [scan_eq_of_tokenize tokenized] at scanned
      obtain ⟨lexeme, _, _, item, _⟩ := List.map_eq_cons_iff.mp scanned
      have content := Piece.content_of_item item.symm
      simp only [numeralContent, read] at content
      cases content
    | some b =>
      rw [literal read] at parsed
      cases parsed
      rfl
  · exact literal

/-! ## Agreement -/

namespace Rule

/-- A text, read as a document, is accepted by a number and normalized to it. -/
def TakesText (a : Number) (text : List Char) : Prop :=
  ∃ found, Json.parse? text = some found ∧ (numberLiteral a).normalize found = .ok (.number a)

theorem normalize_numberLiteral_iff {a : Number} {found : Json} :
    (numberLiteral a).normalize found = .ok (.number a) ↔
      ∃ b, found = .number b ∧ b.agrees a = true := by
  cases found with
  | number b => by_cases same : b.agrees a = true <;> simp [normalize, notEqual, same]
  | _ => simp [normalize, wrongKind]

theorem takesText_iff_agrees {text : List Char} {n : Numeral} {a : Number}
    (read : Json.parse? text = n.stepwise?.map .number) :
    TakesText a text ↔ ∃ b, n.stepwise? = some b ∧ b.agrees a = true := by
  simp only [TakesText, read, normalize_numberLiteral_iff, Option.map_eq_some_iff]
  constructor
  · intro ⟨_, ⟨b, stepwise, value⟩, c, found, agrees⟩
    rw [found] at value
    cases value
    exact ⟨b, stepwise, agrees⟩
  · intro ⟨b, stepwise, agrees⟩
    exact ⟨.number b, ⟨b, stepwise, rfl⟩, b, rfl, agrees⟩

/-- A document that is a number, and a number of definitions as well, is accepted by its own rule
exactly if it has neither fraction nor exponent, or the double that it is read as is nearest to the
number that it denotes.  So it is if at most one step of the reading rounds. -/
theorem takesText_iff {text : List Char} {a : Number} (document : text ∈ jsonNumerals)
    (parsed : parseRule text = .ok (.numberLiteral a)) :
    ∃ n : Numeral, splitNumeral? text = some ((text, n), []) ∧
      (TakesText a text ↔ n.isInteger = true ∨
        ∃ d, Json.parse? text = some (.number (.double d)) ∧ d.IsNearest n.value) ∧
      (n.RoundedOnce → TakesText a text) := by
  obtain ⟨n, split, splitJson⟩ := exists_split_of_json document
  have nearest := (parseRule_numeral_iff split).mp parsed
  have read := parse?_of_split (mem_numerals_of_json document) splitJson
  have agrees : TakesText a text ↔ _ := takesText_iff_agrees read
  rw [agrees]
  refine ⟨n, split, ?_, fun once => ?_⟩
  · cases integer : n.isInteger with
    | true => exact iff_of_true (n.exists_stepwise?_of_integer integer nearest) (.inl rfl)
    | false =>
      simp only [Numeral.agrees_stepwise?_iff integer nearest, read, Option.map_eq_some_iff,
        Json.number.injEq, exists_eq_right, Bool.false_eq_true, false_or]
  · cases integer : n.isInteger with
    | true => exact n.exists_stepwise?_of_integer integer nearest
    | false =>
      have stepwise := Numeral.stepwise?_of_roundedOnce integer once nearest
      exact ⟨a, stepwise, (Number.agrees_iff a a).mpr (.inl rfl)⟩

/-- The double nearest to a tenth. -/
def tenth : Double := ⟨false, 7205759403792794, 1018, by decide⟩

theorem tenth_mem : "0.1".toList ∈ jsonNumerals :=
  ⟨[], .inl rfl, _, ⟨['0'], .inl rfl, _, ⟨['.', '1'],
    .inr ⟨['.'], rfl, ['1'], mem_several.mpr ⟨List.cons_ne_nil _ _, by simp⟩, rfl⟩,
    [], .inl rfl, rfl⟩, rfl⟩, rfl⟩

/-- A tenth is accepted by itself, as only its division rounds. -/
theorem takesText_tenth :
    "0.1".toList ∈ jsonNumerals ∧
      parseRule "0.1".toList = .ok (.numberLiteral (.double tenth)) ∧
      TakesText (.double tenth) "0.1".toList := by
  have split : splitNumeral? "0.1".toList =
      some (("0.1".toList, ⟨false, ['0'], ['1'], none⟩), []) := rfl
  have parsed := (parseRule_numeral_iff split).mpr
    (show Numeral.nearest? _ = some (.double tenth) by decide +kernel)
  obtain ⟨n, same, _, once⟩ := takesText_iff tenth_mem parsed
  rw [split] at same
  cases same
  exact ⟨tenth_mem, parsed, once (.inr (.inr (by decide)))⟩

/-- The double nearest to `3 * 10 ^ 23`. -/
def ample : Double := ⟨false, 8940696716308594, 1099, by decide⟩

/-- The double below that of `3 * 10 ^ 23`. -/
def scant : Double := ⟨false, 8940696716308593, 1099, by decide⟩

/-- A number of documents and definitions that its own rule refuses: three times the double of
`10 ^ 23` is rounded to the double below the nearest. -/
theorem not_takesText_ample :
    "3e23".toList ∈ jsonNumerals ∧
      parseRule "3e23".toList = .ok (.numberLiteral (.double ample)) ∧
      Json.parse? "3e23".toList = some (.number (.double scant)) ∧
      ¬TakesText (.double ample) "3e23".toList := by
  have document : "3e23".toList ∈ jsonNumerals :=
    ⟨[], .inl rfl, _, ⟨['3'], .inr ⟨['3'], ⟨'3', rfl, rfl⟩, [], mem_star_single.mpr nofun, rfl⟩,
      _, ⟨[], .inl rfl, ['e', '2', '3'], .inr ⟨['e'], ⟨'e', rfl, rfl⟩, ['2', '3'],
        ⟨[], .inl rfl, ['2', '3'], mem_several.mpr ⟨List.cons_ne_nil _ _, by simp⟩, rfl⟩, rfl⟩,
        rfl⟩, rfl⟩, rfl⟩
  have split : splitNumeral? "3e23".toList =
      some (("3e23".toList, ⟨false, ['3'], [], some 23⟩), []) := rfl
  have nearest : Numeral.nearest? ⟨false, ['3'], [], some 23⟩ = some (.double ample) := by
    decide +kernel
  have stepwise : Numeral.stepwise? ⟨false, ['3'], [], some 23⟩ = some (.double scant) := by
    decide +kernel
  have splitJson : splitJsonNumeral? "3e23".toList =
      some (⟨false, ['3'], [], some 23⟩, []) := rfl
  have read := parse?_of_split (mem_numerals_of_json document) splitJson
  refine ⟨document, (parseRule_numeral_iff split).mpr nearest, ?_, ?_⟩
  · rw [read, stepwise]
    rfl
  · rw [takesText_iff_agrees read, stepwise]
    intro ⟨b, same, agrees⟩
    cases same
    exact absurd agrees (by decide +kernel)

end Rule

end JsonShape
