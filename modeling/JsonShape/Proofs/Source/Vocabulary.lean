import JsonShape.Rule.Printer
import JsonShape.Source.Scanner

/-!
# Words of definitions

Words are described more than once.  The printer has a form of bare words and a list of reserved
ones, the scanner has two alphabets and a table of keywords, and tokens have words of their own.
Here is that these descriptions agree; no other proof opens a table or an alphabet.

* `isWordStart_eq`, `isWordChar_eq`, `isBareWord_iff`: bare words are made from the scanner's
  alphabets.
* `Keyword.ofWord?_eq_some_iff`, `isKeyword_iff`: the scanner's keywords and the reserved words are
  the words of keywords.
-/

namespace JsonShape

/-! ## Alphabets -/

theorem isUpper_eq (c : Char) : c.isUpper = isBetween 'A' 'Z' c := Bool.decide_and _ _

theorem isLower_eq (c : Char) : c.isLower = isBetween 'a' 'z' c := rfl

theorem isDigit_eq (c : Char) : c.isDigit = isBetween '0' '9' c := rfl

/-- Words start with ASCII letters and underscores. -/
theorem isWordStart_eq (c : Char) : isWordStart c = (c.isAlpha || c == '_') := by
  have letters : c.isAlpha = (c.isUpper || c.isLower) := rfl
  rw [isWordStart, letters, isUpper_eq, isLower_eq]

/-- Words go on with ASCII letters, digits, underscores and hyphens. -/
theorem isWordChar_eq (c : Char) :
    isWordChar c = (c.isAlphanum || c == '_' || c == '-') := by
  have plain : c.isAlphanum = (c.isUpper || c.isLower || c.isDigit) := rfl
  rw [isWordChar, plain, isUpper_eq, isLower_eq, isDigit_eq]

/-- The bare words of the printer are the texts that the scanner's alphabets make up. -/
theorem isBareWord_iff {s : String} :
    isBareWord s = true ↔ ∃ c rest, s.toList = c :: rest ∧ isWordStart c = true ∧
      rest.all isWordChar = true := by
  have follows : isWordChar = fun c => c.isAlphanum || c == '_' || c == '-' :=
    funext isWordChar_eq
  rw [isBareWord, follows]
  cases s.toList with
  | nil => simp
  | cons c rest =>
    simp only [← isWordStart_eq, Bool.and_eq_true_iff]
    constructor
    · exact fun bare => ⟨c, rest, rfl, bare⟩
    · rintro ⟨_, _, same, bare⟩
      cases same
      exact bare

/-! ## Keywords -/

theorem Keyword.ofWord?_word (k : Keyword) : ofWord? k.word = some k := by
  cases k <;> rfl

/-- The scanner takes a word for a keyword exactly if it is the keyword's own. -/
theorem Keyword.ofWord?_eq_some_iff {s : String} {k : Keyword} :
    ofWord? s = some k ↔ k.word = s := by
  constructor
  · intro known
    unfold ofWord? at known
    split at known <;> cases known <;> rfl
  · rintro rfl
    exact ofWord?_word k

/-- The reserved words are the words of keywords. -/
theorem isKeyword_iff {s : String} : isKeyword s = true ↔ ∃ k : Keyword, k.word = s := by
  rw [isKeyword, List.contains_iff_mem]
  constructor
  · intro listed
    have words : ∀ w ∈ reservedWords, (Keyword.ofWord? w).isSome = true := by decide
    obtain ⟨k, known⟩ := Option.isSome_iff_exists.mp (words s listed)
    exact ⟨k, Keyword.ofWord?_eq_some_iff.mp known⟩
  · rintro ⟨k, rfl⟩
    cases k <;> decide

/-- What is no keyword for the scanner is not reserved. -/
theorem Keyword.ofWord?_eq_none_iff {s : String} : ofWord? s = none ↔ isKeyword s = false := by
  simp only [Option.eq_none_iff_forall_ne_some, ne_eq, ofWord?_eq_some_iff,
    Bool.eq_false_iff, isKeyword_iff, not_exists]

/-! ## Tokens of words -/

theorem Token.ofWord_word (k : Keyword) : Token.ofWord k.word = .keyword k := by
  rw [ofWord, Keyword.ofWord?_word]

theorem Token.ofWord_of_free {s : String} (free : isKeyword s = false) :
    Token.ofWord s = .identifier s := by
  rw [ofWord, Keyword.ofWord?_eq_none_iff.mpr free]

theorem Token.keyword?_eq_some_iff {token : Token} {s : String} :
    token.keyword? = some s ↔ ∃ k : Keyword, token = .keyword k ∧ k.word = s := by
  cases token <;> simp [keyword?]

/-- The token of a word is the keyword that has this word or, where it is not reserved, the
identifier. -/
theorem Token.eq_ofWord_iff {token : Token} {s : String} :
    token = ofWord s ↔
      if isKeyword s then token.keyword? = some s else token = .identifier s := by
  split
  · next reserved =>
    obtain ⟨own, rfl⟩ := isKeyword_iff.mp reserved
    rw [ofWord_word, keyword?_eq_some_iff]
    constructor
    · exact fun same => ⟨own, same, rfl⟩
    · rintro ⟨k, rfl, same⟩
      have known := (Keyword.ofWord?_word k).symm.trans (same ▸ Keyword.ofWord?_word own)
      exact congrArg Token.keyword (Option.some.inj known)
  · next free => rw [ofWord_of_free (Bool.eq_false_iff.mpr free)]

end JsonShape
