import JsonShape.Proofs.Number.ReadBack
import JsonShape.Proofs.Source.Vocabulary

/-!
# Scanning written tokens

A text that is made of written tokens, each before something that closes it, is scanned as these
tokens.

* `Closes` says which texts close every token; `Spelling text token` that a text is one token
  before all of them.
* `Spelling.word`, `Spelling.quoted`, `Spelling.number`: bare words, quoted strings and numbers.
* `Reads text tokens` says that a text is scanned without fault as some tokens; it is built up by
  `Reads.nil`, `Reads.layout` and `Reads.token`.
-/

namespace JsonShape

/-! ## Strings -/

namespace Quoting

/-- A character that is not escaped in definitions. -/
theorem source_eq_none_iff {c : Char} :
    source c = none ↔ c ≠ '"' ∧ c ≠ '\\' ∧ c ≠ '\n' ∧ c ≠ '\r' ∧ c ≠ '\t' := by
  unfold source
  split
  · simp
  · simp
  · simp
  · simp
  · simp
  · rename_i quote backslash feed carriage tab
    exact ⟨fun _ => ⟨quote, backslash, feed, carriage, tab⟩, fun _ => rfl⟩

/-- A character that is escaped is written as a backslash and a character that denotes it. -/
theorem source_eq_some {c : Char} {text : List Char} (escape : source c = some text) :
    ∃ e, text = ['\\', e] ∧ escaped? e = some c ∧ e ≠ '\n' := by
  unfold source at escape
  split at escape
  · exact ⟨'"', (Option.some.inj escape).symm, rfl, by decide⟩
  · exact ⟨'\\', (Option.some.inj escape).symm, rfl, by decide⟩
  · exact ⟨'n', (Option.some.inj escape).symm, rfl, by decide⟩
  · exact ⟨'r', (Option.some.inj escape).symm, rfl, by decide⟩
  · exact ⟨'t', (Option.some.inj escape).symm, rfl, by decide⟩
  · cases escape

theorem body_plain {quoting : Quoting} {c : Char} (plain : quoting c = none) (text : List Char) :
    quoting.body (c :: text) = c :: quoting.body text := by
  rw [body, List.flatMap_cons, char, plain]
  rfl

theorem body_escaped {quoting : Quoting} {c e f : Char} (escape : quoting c = some [e, f])
    (text : List Char) : quoting.body (c :: text) = e :: f :: quoting.body text := by
  rw [body, List.flatMap_cons, char, escape]
  rfl

end Quoting

theorem splitString_escape {e : Char} (inLine : e ≠ '\n') (text : List Char) :
    splitString ('\\' :: e :: text) = prepend '\\' (prepend e (splitString text)) := by
  rw [splitString, if_neg inLine]

theorem splitString_plain {c : Char} (quote : c ≠ '"') (backslash : c ≠ '\\') (feed : c ≠ '\n')
    (text : List Char) : splitString (c :: text) = prepend c (splitString text) := by
  rw [splitString]
  · rw [if_neg (by simp [quote, feed])]
  · exact fun same _ => backslash same
  · exact fun _ _ same => absurd same backslash

theorem splitString_quote (text : List Char) : splitString ('"' :: text) = ([], '"' :: text) := by
  rw [splitString]
  · rw [if_pos (.inl rfl)]
  · exact fun same _ => absurd same (by decide)
  · exact fun _ _ same => absurd same (by decide)

theorem unescape_escape {e c : Char} (denotes : escaped? e = some c) (text : List Char) :
    unescape ('\\' :: e :: text) = (unescape text).map (c :: ·) := by
  rw [unescape, denotes]

theorem unescape_plain {c : Char} (backslash : c ≠ '\\') (text : List Char) :
    unescape (c :: text) = (unescape text).map (c :: ·) := by
  rw [unescape]
  · exact fun same _ => backslash same
  · exact fun _ _ same => absurd same backslash

/-- The inside of a quoted text ends at its closing quote. -/
theorem splitString_body (text rest : List Char) :
    splitString (Quoting.source.body text ++ '"' :: rest)
      = (Quoting.source.body text, '"' :: rest) := by
  induction text with
  | nil =>
    rw [Quoting.body, List.flatMap_nil, List.nil_append, splitString_quote]
  | cons c more ih =>
    rcases written : Quoting.source c with _ | escape
    · obtain ⟨quote, backslash, feed, _⟩ := Quoting.source_eq_none_iff.1 written
      rw [Quoting.body_plain written, List.cons_append, splitString_plain quote backslash feed, ih]
      rfl
    · obtain ⟨e, rfl, _, inLine⟩ := Quoting.source_eq_some written
      rw [Quoting.body_escaped written, List.cons_append, List.cons_append,
        splitString_escape inLine, ih]
      rfl

/-- The inside of a quoted text denotes the text. -/
theorem unescape_body (text : List Char) : unescape (Quoting.source.body text) = .ok text := by
  induction text with
  | nil => rfl
  | cons c more ih =>
    rcases written : Quoting.source c with _ | escape
    · have backslash := (Quoting.source_eq_none_iff.1 written).2.1
      rw [Quoting.body_plain written, unescape_plain backslash, ih]
      rfl
    · obtain ⟨e, rfl, denotes, _⟩ := Quoting.source_eq_some written
      rw [Quoting.body_escaped written, unescape_escape denotes, ih]
      rfl

/-! ## Closing texts -/

theorem ne_of_class {p : Char → Bool} {c d : Char} (inside : p c = true) (outside : p d = false) :
    c ≠ d := by
  rintro rfl
  rw [inside] at outside
  cases outside

/-- A text that goes on with no token: it starts with no character of a word or a numeral. -/
def Closes (rest : List Char) : Prop := ∀ c ∈ rest.head?, isWordChar c = false ∧ c ≠ '.'

theorem Closes.nil : Closes [] := fun _ first => absurd first (by simp)

theorem Closes.cons {c : Char} (outside : isWordChar c = false) (notPoint : c ≠ '.')
    (rest : List Char) : Closes (c :: rest) := by
  intro d first
  cases Option.some.inj first
  exact ⟨outside, notPoint⟩

theorem Closes.blank (rest : List Char) : Closes (' ' :: rest) := .cons rfl (by decide) rest

theorem Closes.feed (rest : List Char) : Closes ('\n' :: rest) := .cons rfl (by decide) rest

theorem Closes.colon (rest : List Char) : Closes (':' :: rest) := .cons rfl (by decide) rest

theorem Closes.endsNumeral {rest : List Char} (closes : Closes rest) : EndsNumeral rest := by
  intro c first
  obtain ⟨outside, point⟩ := closes c first
  refine ⟨?_, point, (ne_of_class rfl outside).symm, (ne_of_class rfl outside).symm⟩
  refine Bool.eq_false_iff.2 fun digit => ?_
  simp [isWordChar_eq, Char.isAlphanum, digit] at outside

/-! ## Spellings -/

/-- A text is one token, whatever closes it; it starts with no layout. -/
inductive Spelling : List Char → Token → Prop
  | intro {c : Char} {more : List Char} {token : Token} (shown : isLayoutChar c = false)
      (notSlash : c ≠ '/')
      (piece : ∀ rest, Closes rest → firstPiece c (more ++ rest) = ⟨c :: more, rest, .ok token⟩) :
    Spelling (c :: more) token

theorem Spelling.mark {c : Char} {token : Token} (shown : isLayoutChar c = false)
    (notSlash : c ≠ '/') (notWord : isWordStart c = false) (notQuote : c ≠ '"')
    (known : mark? c = some token) : Spelling [c] token := by
  refine .intro shown notSlash fun rest _ => ?_
  rw [List.nil_append, firstPiece, if_neg notQuote, if_neg (by simp [notWord]), known]

/-- A string in quotes is a piece, and the token of the string, whatever follows. -/
theorem firstPiece_quoted (s : String) (rest : List Char) :
    firstPiece '"' (Quoting.source.body s.toList ++ '"' :: rest) =
      ⟨Quoting.source.write s.toList, rest, .ok (.string s)⟩ := by
  have inside := splitString_body s.toList rest
  rw [firstPiece, if_pos rfl, stringPiece]
  simp only [inside, unescape_body, String.ofList_toList, Quoting.write]

theorem Spelling.quoted (s : String) : Spelling (Quoting.source.write s.toList) (.string s) := by
  refine .intro rfl (by decide) fun rest _ => ?_
  rw [List.append_assoc, List.singleton_append]
  exact firstPiece_quoted s rest

theorem visible_of_isWordStart {c : Char} (start : isWordStart c = true) :
    isLayoutChar c = false ∧ c ≠ '/' ∧ c ≠ '"' := by
  have other (d : Char) (outside : isWordStart d = false) : c ≠ d := ne_of_class start outside
  refine ⟨?_, other '/' rfl, other '"' rfl⟩
  simp [isLayoutChar, other ' ' rfl, other '\t' rfl, other '\r' rfl, other '\n' rfl,
    other '\x0c' rfl]

theorem Spelling.word {s : String} (bare : isBareWord s = true) :
    Spelling s.toList (.ofWord s) := by
  obtain ⟨c, more, text, start, tail⟩ := isBareWord_iff.mp bare
  obtain ⟨shown, notSlash, notQuote⟩ := visible_of_isWordStart start
  rw [text]
  refine .intro shown notSlash fun rest closes => ?_
  obtain ⟨taken, dropped⟩ := takeWhile_dropWhile_append (List.all_eq_true.1 tail)
    fun d first => (closes d first).1
  rw [firstPiece, if_neg notQuote, if_pos start, wordPiece, taken, dropped, ← text,
    String.ofList_toList]

theorem Keyword.isBareWord_word (k : Keyword) : isBareWord k.word = true := by
  cases k <;> decide

theorem Spelling.keyword (k : Keyword) : Spelling k.chars (.keyword k) := by
  rw [← Token.ofWord_word k]
  exact Spelling.word k.isBareWord_word

theorem Spelling.identifier {name : String} (bare : isBareWord name = true)
    (free : isKeyword name = false) : Spelling name.toList (.identifier name) := by
  rw [← Token.ofWord_of_free free]
  exact Spelling.word bare

theorem isWordStart_of_isDigit {c : Char} (digit : c.isDigit = true) : isWordStart c = false := by
  have underscore : c ≠ '_' := ne_of_class digit rfl
  have most : c.val ≤ '9'.val := of_decide_eq_true (Bool.and_eq_true_iff.1 digit).2
  have below {d : Char} (next : '9'.val < d.val) : ¬d.val ≤ c.val := fun least =>
    UInt32.lt_irrefl _ (UInt32.lt_of_lt_of_le next (UInt32.le_trans least most))
  have upper : c.isUpper = false :=
    decide_eq_false fun inside => below (d := 'A') (by decide) inside.1
  have lower : c.isLower = false :=
    Bool.and_eq_false_iff.2 (.inl (decide_eq_false (below (d := 'a') (by decide))))
  have alpha : c.isAlpha = false := Bool.or_eq_false_iff.2 ⟨upper, lower⟩
  rw [isWordStart_eq, alpha, Bool.false_or]
  exact beq_eq_false_iff_ne.2 underscore

/-- A first character of a numeral starts nothing else. -/
theorem numeralPiece_of_head {c : Char} (head : c = '-' ∨ c.isDigit = true) :
    isLayoutChar c = false ∧ c ≠ '/' ∧ ∀ rest, firstPiece c rest = numeralPiece c rest := by
  rcases head with rfl | digit
  · exact ⟨rfl, by decide, fun rest => rfl⟩
  · have other (d : Char) (outside : d.isDigit = false) : c ≠ d := ne_of_class digit outside
    refine ⟨?_, other '/' rfl, fun rest => ?_⟩
    · simp [isLayoutChar, other]
    · rw [firstPiece, if_neg (other '"' rfl), if_neg (by simp [isWordStart_of_isDigit digit])]
      have none : mark? c = none := by
        unfold mark?
        split <;> first | rfl | exact absurd digit (by decide)
      rw [none]

theorem Spelling.number (n : Number) : Spelling n.chars (.number n) := by
  obtain ⟨c, more, text, head⟩ := n.exists_chars_eq_cons
  obtain ⟨shown, notSlash, alone⟩ := numeralPiece_of_head head
  rw [text]
  refine .intro shown notSlash fun rest closes => ?_
  have split := n.splitNumeral?_chars closes.endsNumeral
  rw [text, List.cons_append] at split
  rw [alone, numeralPiece, split]
  simp only [numeralContent, n.nearest?_numeral]

/-! ## Texts of tokens -/

/-- A text is scanned without fault, wherever it stands, as some tokens. -/
def Reads (text : List Char) (tokens : List Token) : Prop :=
  ∀ position, ∃ lexemes : List Lexeme,
    scanFrom position text = lexemes.map .ok ∧ lexemes.map Lexeme.token = tokens

theorem scanFrom_of_split {position : Position} {text layout rest : List Char} {c : Char}
    (split : splitLayout false text = (layout, c :: rest)) :
    scanFrom position text
      = (firstPiece c rest).item (position.past layout)
        :: scanFrom ((position.past layout).past (firstPiece c rest).taken)
          (firstPiece c rest).behind := by
  rw [scanFrom]
  split
  · rename_i found
    rw [split] at found
    cases found
  · rename_i found
    rw [split] at found
    cases found
    rfl

theorem scanFrom_of_layout {position : Position} {text layout : List Char}
    (split : splitLayout false text = (layout, [])) : scanFrom position text = [] := by
  rw [scanFrom]
  split
  · rfl
  · rename_i found
    rw [split] at found
    cases found

/-- A text that starts with no layout is split before its first character. -/
theorem splitLayout_of_shown {c : Char} {rest : List Char} (shown : isLayoutChar c = false)
    (noComment : ¬(c = '/' ∧ rest.head? = some '/')) :
    splitLayout false (c :: rest) = ([], c :: rest) := by
  rw [splitLayout, if_neg Bool.false_ne_true, if_neg (by simp [shown]), if_neg noComment]

/-- A text that starts with no layout is scanned as its first piece, and from there on. -/
theorem scanFrom_of_shown {c : Char} {rest : List Char} (shown : isLayoutChar c = false)
    (noComment : ¬(c = '/' ∧ rest.head? = some '/')) (position : Position) :
    scanFrom position (c :: rest) = (firstPiece c rest).item position ::
      scanFrom (position.past (firstPiece c rest).taken) (firstPiece c rest).behind :=
  scanFrom_of_split (splitLayout_of_shown shown noComment)

/-- What holds of a text of layout, and of a text with a piece if it holds behind the piece, holds
of every text. -/
@[elab_as_elim]
theorem scan_induction {motive : Position → List Char → Prop}
    (finish : ∀ {position : Position} {text layout : List Char},
      splitLayout false text = (layout, []) → motive position text)
    (piece : ∀ {position : Position} {text layout rest : List Char} {c : Char},
      splitLayout false text = (layout, c :: rest) →
      motive ((position.past layout).past (firstPiece c rest).taken) (firstPiece c rest).behind →
      motive position text) (position : Position) (text : List Char) : motive position text := by
  induction size : text.length using Nat.strong_induction_on generalizing position text with
  | _ bound ih =>
    rcases split : splitLayout false text with ⟨layout, _ | ⟨c, rest⟩⟩
    · exact finish split
    · have lossless := congrArg List.length (splitLayout_append false text)
      have shorter := firstPiece_behind_length c rest
      rw [split, List.length_append, List.length_cons] at lossless
      exact piece split (ih _ (by omega) _ _ rfl)

/-- The item of a piece that is no fault has its token. -/
theorem Piece.content_of_item {piece : Piece} {start : Position} {lexeme : Lexeme}
    (item : piece.item start = .ok lexeme) : piece.content = .ok lexeme.token := by
  unfold Piece.item at item
  split at item
  · rename_i token content
    cases item
    exact content
  · cases item

/-- Layout in front of a text only moves it. -/
theorem scanFrom_past (before : List Char) {text : List Char}
    (layout : splitLayout false (before ++ text) =
      (before ++ (splitLayout false text).1, (splitLayout false text).2)) (position : Position) :
    scanFrom position (before ++ text) = scanFrom (position.past before) text := by
  rcases split : splitLayout false text with ⟨blanks, _ | ⟨c, rest⟩⟩
  · rw [split] at layout
    rw [scanFrom_of_layout layout, scanFrom_of_layout split]
  · rw [split] at layout
    rw [scanFrom_of_split layout, scanFrom_of_split split, Position.past_append]

theorem scanFrom_layout {c : Char} (layout : isLayoutChar c = true) (position : Position)
    (text : List Char) : scanFrom position (c :: text) = scanFrom (position.advance c) text := by
  have blank : splitLayout false (c :: text) = prepend c (splitLayout false text) := by
    rw [splitLayout, if_neg Bool.false_ne_true, if_pos layout]
  exact scanFrom_past [c] blank position

namespace Reads

theorem nil : Reads [] [] := fun _ => ⟨[], scanFrom_of_layout rfl, rfl⟩

theorem layout {c : Char} {text : List Char} {tokens : List Token}
    (layout : isLayoutChar c = true) (reads : Reads text tokens) : Reads (c :: text) tokens := by
  intro position
  rw [scanFrom_layout layout]
  exact reads _

theorem blank {text : List Char} {tokens : List Token} (reads : Reads text tokens) :
    Reads (' ' :: text) tokens := reads.layout rfl

theorem token {text rest : List Char} {token : Token} {tokens : List Token}
    (spelling : Spelling text token) (closes : Closes rest) (reads : Reads rest tokens) :
    Reads (text ++ rest) (token :: tokens) := by
  intro position
  obtain ⟨shown, notSlash, piece⟩ := spelling
  rename_i c more
  obtain ⟨lexemes, scanned, same⟩ := reads (position.past (c :: more))
  refine ⟨⟨token, position, position.past (c :: more)⟩ :: lexemes, ?_, ?_⟩
  · rw [List.cons_append, scanFrom_of_shown shown (fun slashes => notSlash slashes.1),
      piece rest closes, List.map_cons, ← scanned]
    rfl
  · rw [List.map_cons, same]

end Reads

theorem splitAtFault_map_ok (lexemes : List Lexeme) :
    splitAtFault (lexemes.map .ok) = (lexemes, none) := by
  induction lexemes with
  | nil => rfl
  | cons lexeme rest ih =>
    rw [List.map_cons, splitAtFault, ih]

/-- A text that is scanned without fault is tokenized. -/
theorem tokenize_of_scan {source : List Char} {lexemes : List Lexeme}
    (scanned : scan source = lexemes.map .ok) : tokenize source = .ok lexemes := by
  rw [tokenize, scanned, splitAtFault_map_ok]

theorem Reads.tokenize {text : List Char} {tokens : List Token} (reads : Reads text tokens) :
    ∃ lexemes, JsonShape.tokenize text = .ok lexemes ∧ lexemes.map Lexeme.token = tokens := by
  obtain ⟨lexemes, scanned, same⟩ := reads .start
  exact ⟨lexemes, tokenize_of_scan scanned, same⟩

theorem eq_map_ok_of_splitAtFault {items : List Item} {lexemes : List Lexeme}
    (split : splitAtFault items = (lexemes, none)) : items = lexemes.map .ok := by
  induction items generalizing lexemes with
  | nil =>
    cases split
    rfl
  | cons item rest ih =>
    cases item with
    | error fault => cases split
    | ok lexeme =>
      rw [splitAtFault] at split
      obtain ⟨rfl, none⟩ := Prod.mk.inj split
      have others : rest = (splitAtFault rest).1.map .ok := ih (Prod.ext rfl none)
      rw [List.map_cons, ← others]

/-- A text that is tokenized is scanned without fault. -/
theorem scan_eq_of_tokenize {source : List Char} {lexemes : List Lexeme}
    (tokenized : tokenize source = .ok lexemes) : scan source = lexemes.map .ok := by
  unfold tokenize at tokenized
  split at tokenized
  · rename_i found split
    cases tokenized
    exact eq_map_ok_of_splitAtFault split
  · cases tokenized

end JsonShape
