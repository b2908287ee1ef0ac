import JsonShape.Proofs.Number.Longest
import JsonShape.Proofs.Source.Seam

/-!
# The forms of definition source

Each form in which a source text may go on is a language: blanks and comments, and the forms of
tokens.

* `Form.Longest form taken behind`: the form matches the text that is taken, and no form matches a
  longer one at the same place.  `Unmatched text` says that no form matches at all.
* `Form.starts`: the texts of a form are told apart by their first characters, so there are few
  forms to compare at a place (`Form.eq_string`, `Form.eq_of_mark`, `Form.mem_identifier`,
  `Form.eq_number`).
* `Form.longest_string`, `unmatched_string`: a string literal that is closed is the longest match,
  and one that is not is none.
-/

namespace JsonShape

open scoped Computability

/-! ## Languages -/

/-- The characters that stand for themselves in a string literal. -/
def isPlain (c : Char) : Bool := c != '"' && c != '\\' && c != '\n'

/-- The inside of a string literal: plain characters, and pairs of a backslash and a character of
the same line. -/
def stringBodies : Language Char := (single isPlain + {['\\']} * single (· != '\n'))∗

/-- A form of layout or of tokens. -/
inductive Form where
  | blanks
  | comment
  | keyword (word : Keyword)
  | leftBrace
  | rightBrace
  | colon
  | equals
  | number
  | string
  | identifier

/-- The texts of a form. -/
def Form.language : Form → Language Char
  | blanks => several isLayoutChar
  | comment => {['/', '/']} * (single (· != '\n'))∗
  | keyword word => {word.chars}
  | leftBrace => {['\x7b']}
  | rightBrace => {['\x7d']}
  | colon => {[':']}
  | equals => {['=']}
  | number => numerals
  | string => {['"']} * (stringBodies * {['"']})
  | identifier => single isWordStart * (single isWordChar)∗

/-- The form of a token. -/
def Token.form : Token → Form
  | keyword word => .keyword word
  | leftBrace => .leftBrace
  | rightBrace => .rightBrace
  | colon => .colon
  | equals => .equals
  | number _ => .number
  | string _ => .string
  | identifier _ => .identifier

/-- A form matches a text that is taken, and no form matches a longer one at its place. -/
structure Form.Longest (form : Form) (taken behind : List Char) : Prop where
  mem : taken ∈ form.language
  longest (other : Form) (a : List Char) :
    a <+: taken ++ behind → a ∈ other.language → a.length ≤ taken.length

/-- No form matches the start of a text. -/
def Unmatched (text : List Char) : Prop :=
  ∀ (form : Form) (a : List Char), a <+: text → a ∉ form.language

/-! ## First characters -/

/-- Whether a form has texts that start with a character. -/
def Form.starts : Form → Char → Bool
  | blanks, c => isLayoutChar c
  | comment, c => c == '/'
  | keyword _, c => isWordStart c
  | leftBrace, c => c == '\x7b'
  | rightBrace, c => c == '\x7d'
  | colon, c => c == ':'
  | equals, c => c == '='
  | number, c => c == '-' || c.isDigit
  | string, c => c == '"'
  | identifier, c => isWordStart c

/-- A bare word is a text of the form of identifiers. -/
theorem mem_identifier_of_isBareWord {s : String} (bare : isBareWord s = true) :
    s.toList ∈ Form.identifier.language := by
  obtain ⟨c, rest, text, start, tail⟩ := isBareWord_iff.mp bare
  rw [text]
  exact Language.append_mem_mul (a := [c]) ⟨c, start, rfl⟩
    (mem_star_single.mpr (List.all_eq_true.mp tail))

theorem Keyword.chars_mem (word : Keyword) : word.chars ∈ Form.identifier.language :=
  mem_identifier_of_isBareWord word.isBareWord_word

/-- The texts of a form are not empty, and each of them starts as its form does. -/
theorem Form.exists_cons {form : Form} {a : List Char} (inside : a ∈ form.language) :
    ∃ c more, a = c :: more ∧ form.starts c = true := by
  cases form with
  | blanks =>
    obtain ⟨nonempty, all⟩ := mem_several.mp inside
    obtain ⟨c, more, rfl⟩ := List.exists_cons_of_ne_nil nonempty
    exact ⟨c, more, rfl, all c List.mem_cons_self⟩
  | comment =>
    obtain ⟨_, rfl, more, _, rfl⟩ := inside
    exact ⟨'/', '/' :: more, rfl, rfl⟩
  | keyword word =>
    obtain ⟨_, ⟨c, start, rfl⟩, more, _, spelled⟩ := word.chars_mem
    exact ⟨c, more, inside.trans spelled.symm, start⟩
  | leftBrace | rightBrace | colon | equals => exact ⟨_, [], inside, rfl⟩
  | number =>
    cases a with
    | nil => exact absurd inside nil_notMem_numerals
    | cons c more => exact ⟨c, more, rfl, startsIn_numerals _ inside c rfl⟩
  | string =>
    obtain ⟨_, rfl, more, _, rfl⟩ := inside
    exact ⟨'"', more, rfl, rfl⟩
  | identifier =>
    obtain ⟨_, ⟨c, start, rfl⟩, more, _, rfl⟩ := inside
    exact ⟨c, more, rfl, start⟩

/-- A form that matches the start of a text starts with its first character. -/
theorem Form.starts_of_front {form : Form} {a rest : List Char} {c : Char}
    (inside : a ∈ form.language) (front : a <+: c :: rest) : form.starts c = true := by
  obtain ⟨d, more, rfl, starts⟩ := exists_cons inside
  rwa [(List.cons_prefix_cons.mp front).1] at starts

theorem Form.eq_string {form : Form} (starts : form.starts '"' = true) : form = .string := by
  cases form with
  | string => rfl
  | _ => cases starts

/-- A form of a mark's character is the mark's own. -/
theorem Form.eq_of_mark {form : Form} {c : Char} {token : Token} (known : mark? c = some token)
    (starts : form.starts c = true) : form = token.form := by
  unfold mark? at known
  split at known
  · cases known
    cases form <;> first | rfl | cases starts
  · cases known
    cases form <;> first | rfl | cases starts
  · cases known
    cases form <;> first | rfl | cases starts
  · cases known
    cases form <;> first | rfl | cases starts
  · cases known

/-- Of the first characters of words there are only the forms of words. -/
theorem Form.mem_identifier {form : Form} {c : Char} {a : List Char}
    (start : isWordStart c = true) (starts : form.starts c = true) (inside : a ∈ form.language) :
    a ∈ Form.identifier.language := by
  obtain ⟨shown, notSlash, notQuote⟩ := visible_of_isWordStart start
  have other (d : Char) (outside : isWordStart d = false) (same : c == d) : False :=
    ne_of_class start outside (beq_iff_eq.mp same)
  cases form with
  | identifier => exact inside
  | keyword word =>
    obtain rfl : a = word.chars := inside
    exact word.chars_mem
  | blanks => exact absurd (shown.symm.trans starts) (by decide)
  | comment => exact (other '/' rfl starts).elim
  | leftBrace => exact (other '{' rfl starts).elim
  | rightBrace => exact (other '}' rfl starts).elim
  | colon => exact (other ':' rfl starts).elim
  | equals => exact (other '=' rfl starts).elim
  | string => exact (other '"' rfl starts).elim
  | number =>
    rcases Bool.or_eq_true_iff.mp starts with minus | digit
    · exact (other '-' rfl minus).elim
    · exact absurd (start.symm.trans (isWordStart_of_isDigit digit)) (by decide)

/-- Behind layout, and where no string, word or mark starts, there are only numerals. -/
theorem Form.eq_number {form : Form} {c : Char} {a rest : List Char}
    (shown : isLayoutChar c = false) (noComment : ¬(c = '/' ∧ rest.head? = some '/'))
    (notQuote : c ≠ '"') (notWord : ¬isWordStart c = true) (noMark : mark? c = none)
    (inside : a ∈ form.language) (front : a <+: c :: rest) : form = .number := by
  have starts := Form.starts_of_front inside front
  have other (d : Char) (known : mark? d ≠ none) (same : c == d) : False := by
    rw [beq_iff_eq.mp same] at noMark
    exact known noMark
  cases form with
  | number => rfl
  | blanks => exact absurd (shown.symm.trans starts) (by decide)
  | comment =>
    obtain ⟨_, rfl, more, _, rfl⟩ := inside
    obtain ⟨slash, front⟩ := List.cons_prefix_cons.mp front
    obtain ⟨behind, rfl⟩ := front
    exact absurd ⟨slash.symm, rfl⟩ noComment
  | keyword word => exact absurd starts notWord
  | identifier => exact absurd starts notWord
  | string => exact absurd (beq_iff_eq.mp starts) notQuote
  | leftBrace => exact (other '{' nofun starts).elim
  | rightBrace => exact (other '}' nofun starts).elim
  | colon => exact (other ':' nofun starts).elim
  | equals => exact (other '=' nofun starts).elim

/-! ## Strings -/

theorem ne_of_isPlain {c : Char} (plain : isPlain c = true) : c ≠ '"' ∧ c ≠ '\\' ∧ c ≠ '\n' := by
  simp only [isPlain, Bool.and_eq_true, bne_iff_ne] at plain
  exact ⟨plain.1.1, plain.1.2, plain.2⟩

theorem plain_mem_stringBodies {c : Char} {body : List Char} (plain : isPlain c = true)
    (inside : body ∈ stringBodies) : c :: body ∈ stringBodies :=
  append_mem_star (.inl ⟨c, plain, rfl⟩) inside

theorem pair_mem_stringBodies {c : Char} {body : List Char} (inLine : c ≠ '\n')
    (inside : body ∈ stringBodies) : '\\' :: c :: body ∈ stringBodies := by
  have pair : ['\\', c] ∈ ({['\\']} : Language Char) * single (· != '\n') :=
    Language.append_mem_mul (a := ['\\']) rfl ⟨c, bne_iff_ne.mpr inLine, rfl⟩
  exact append_mem_star (.inr pair) inside

/-- The inside of a string literal is empty, or one of its units in front of another inside. -/
theorem stringBodies_induction {motive : (body : List Char) → body ∈ stringBodies → Prop}
    (nil : motive [] (Language.nil_mem_kstar _))
    (plain : ∀ (c : Char) (body : List Char) (own : isPlain c = true)
        (inside : body ∈ stringBodies),
      motive body inside → motive (c :: body) (plain_mem_stringBodies own inside))
    (pair : ∀ (c : Char) (body : List Char) (inLine : c ≠ '\n') (inside : body ∈ stringBodies),
      motive body inside → motive ('\\' :: c :: body) (pair_mem_stringBodies inLine inside))
    {body : List Char} (inside : body ∈ stringBodies) : motive body inside := by
  obtain ⟨units, rfl, each⟩ := Language.mem_kstar.mp inside
  induction units with
  | nil => exact nil
  | cons unit more ih =>
    have others := fun word listed => each word (List.mem_cons_of_mem unit listed)
    have rest : more.flatten ∈ stringBodies := Language.mem_kstar.mpr ⟨more, rfl, others⟩
    -- A unit is one plain character, or a backslash and any character of the line.
    rcases each unit List.mem_cons_self with
      ⟨c, own, rfl⟩ | ⟨_, rfl, _, ⟨c, inLine, rfl⟩, rfl⟩
    · exact plain c more.flatten own rest (ih others rest)
    · exact pair c more.flatten (bne_iff_ne.mp inLine) rest (ih others rest)

/-- The inside of a string literal goes on behind units of it as it would alone. -/
theorem splitString_append_body {body : List Char} (inside : body ∈ stringBodies)
    (rest : List Char) :
    splitString (body ++ rest) = (body ++ (splitString rest).1, (splitString rest).2) := by
  induction inside using stringBodies_induction with
  | nil => rfl
  | plain c body own _ ih =>
    obtain ⟨quote, backslash, feed⟩ := ne_of_isPlain own
    rw [List.cons_append, splitString_plain quote backslash feed, ih]
    rfl
  | pair c body inLine _ ih =>
    rw [List.cons_append, List.cons_append, splitString_escape inLine, ih]
    rfl

/-- What is split off as the inside of a string literal is one. -/
theorem splitString_mem (text : List Char) : (splitString text).1 ∈ stringBodies := by
  fun_induction splitString text with
  | case1 => exact Language.nil_mem_kstar _
  | case2 => exact Language.nil_mem_kstar _
  | case3 => exact Language.nil_mem_kstar _
  | case4 c rest inLine ih => exact pair_mem_stringBodies inLine ih
  | case5 => exact Language.nil_mem_kstar _
  | case6 c rest notLone notPair stops ih =>
    have backslash : c ≠ '\\' := by
      rintro rfl
      cases rest with
      | nil => exact notLone rfl rfl
      | cons d more => exact notPair d more rfl rfl
    obtain ⟨quote, feed⟩ := not_or.mp stops
    exact plain_mem_stringBodies (by simp [isPlain, quote, backslash, feed]) ih

/-- A string literal at the start of a text ends where its inside does. -/
theorem Form.splitString_of_front {a text : List Char} (inside : a ∈ Form.string.language)
    (front : a <+: '"' :: text) :
    ∃ body behind, a = '"' :: (body ++ ['"']) ∧ splitString text = (body, '"' :: behind) := by
  obtain ⟨_, rfl, _, ⟨body, inBody, _, rfl, rfl⟩, rfl⟩ := inside
  obtain ⟨behind, whole⟩ := front
  have split : text = body ++ '"' :: behind := by simpa using whole.symm
  refine ⟨body, behind, rfl, ?_⟩
  rw [split, splitString_append_body inBody, splitString_quote, List.append_nil]

theorem Form.longest_string {text inside behind : List Char}
    (closed : splitString text = (inside, '"' :: behind)) :
    Form.string.Longest ('"' :: (inside ++ ['"'])) behind where
  mem := by
    have body := splitString_mem text
    rw [closed] at body
    exact Language.append_mem_mul (a := ['"']) rfl (Language.append_mem_mul body rfl)
  longest := by
    intro other a front matched
    have whole : '"' :: (inside ++ ['"']) ++ behind = '"' :: text := by
      rw [← splitString_append text, closed]
      simp
    rw [whole] at front
    obtain rfl := Form.eq_string (starts_of_front matched front)
    obtain ⟨body, _, rfl, split⟩ := splitString_of_front matched front
    rw [closed] at split
    rw [(Prod.mk.inj split).1]

/-- Nothing matches a string literal that is not closed. -/
theorem unmatched_string {text : List Char}
    (unclosed : ∀ behind, (splitString text).2 ≠ '"' :: behind) : Unmatched ('"' :: text) := by
  intro form a front matched
  obtain rfl := Form.eq_string (Form.starts_of_front matched front)
  obtain ⟨_, behind, _, split⟩ := Form.splitString_of_front matched front
  exact unclosed behind (congrArg Prod.snd split)

end JsonShape
