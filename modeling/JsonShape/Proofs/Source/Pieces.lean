import JsonShape.Proofs.Source.Forms

/-!
# Pieces of definition source

Every piece that is cut off a text is the longest match of a form at its place.

* `Piece.Maximal` says of a piece that it is the longest match, or why it is a fault; every piece
  behind layout is so (`firstPiece_maximal`).
* `firstPiece_before`: a token is the same piece if less stands behind it, or nothing.
-/

namespace JsonShape

open scoped Computability

/-- A piece is the longest match at its place.  It is a fault where the literal that is matched
denotes nothing, and where nothing matches: there it is a lone character, or a string literal that
is not closed, up to where its inside ends. -/
inductive Piece.Maximal : Piece → Prop
  | token {taken behind : List Char} (token : Token) :
    token.form.Longest taken behind → Maximal ⟨taken, behind, .ok token⟩
  | invalidEscape {inside behind : List Char} {c : Char} :
    Form.string.Longest ('"' :: (inside ++ ['"'])) behind → unescape inside = .error c →
    Maximal ⟨'"' :: (inside ++ ['"']), behind, .error (.invalidEscape c, [])⟩
  | invalidNumber {taken behind : List Char} {numeral : Numeral} :
    Form.number.Longest taken behind → splitNumeral? taken = some ((taken, numeral), []) →
    numeral.nearest? = none →
    Maximal ⟨taken, behind, .error (.invalidNumber (String.ofList taken), [])⟩
  | unexpected {c : Char} {behind : List Char} : Unmatched (c :: behind) → c ≠ '"' →
    Maximal ⟨[c], behind, .error (.unexpectedCharacter c, [])⟩
  | unclosed {inside behind before : List Char} {cause : LexicalCause} :
    Unmatched ('"' :: (inside ++ behind)) → inside ∈ stringBodies →
    (∀ a ∈ stringBodies, a <+: inside ++ behind → a.length ≤ inside.length) →
    cause = .unterminatedString ∨ cause = .lineBreakInString →
    Maximal ⟨'"' :: inside, behind, .error (cause, before)⟩

/-! ## Strings -/

theorem Piece.Maximal.of_unclosed {text : List Char} {cause : LexicalCause} {before : List Char}
    (unclosed : ∀ behind, (splitString text).2 ≠ '"' :: behind)
    (known : cause = .unterminatedString ∨ cause = .lineBreakInString) :
    Piece.Maximal ⟨'"' :: (splitString text).1, (splitString text).2, .error (cause, before)⟩ := by
  have lossless := splitString_append text
  refine .unclosed ?_ (splitString_mem text) ?_ known
  · rw [lossless]
    exact unmatched_string unclosed
  · rintro a inBody ⟨rest, whole⟩
    rw [lossless] at whole
    rw [← whole, splitString_append_body inBody, List.length_append]
    exact Nat.le_add_right _ _

theorem stringPiece_maximal (text : List Char) : (stringPiece text).Maximal := by
  unfold stringPiece
  dsimp only
  split
  · next behind closed =>
    have longest := Form.longest_string (Prod.ext rfl closed)
    split
    · exact .token (.string _) longest
    · next wrong => exact .invalidEscape longest wrong
  · next unclosed =>
    split
    · exact .of_unclosed unclosed (.inr rfl)
    · exact .of_unclosed unclosed (.inl rfl)
    · exact .of_unclosed unclosed (.inl rfl)

/-! ## Words and marks -/

/-- A bare word has the form of its token: it is a keyword if it is spelled like one. -/
theorem mem_form_ofWord {word : List Char} (inside : word ∈ Form.identifier.language) :
    word ∈ (Token.ofWord (String.ofList word)).form.language := by
  unfold Token.ofWord
  split
  · next k known =>
    change word = k.chars
    rw [Keyword.chars, Keyword.ofWord?_eq_some_iff.mp known, String.toList_ofList]
  · exact inside

theorem wordPiece_maximal {c : Char} (start : isWordStart c = true) (rest : List Char) :
    (wordPiece c rest).Maximal := by
  refine .token _ ⟨?_, ?_⟩
  · exact mem_form_ofWord (Language.append_mem_mul (a := [c]) ⟨c, start, rfl⟩
      ((cuts_takeWhile isWordChar).mem rest))
  · intro other a front matched
    have whole : c :: rest.takeWhile isWordChar ++ rest.dropWhile isWordChar = c :: rest := by
      rw [List.cons_append, List.takeWhile_append_dropWhile]
    rw [whole] at front
    have word := Form.mem_identifier start (Form.starts_of_front matched front) matched
    obtain ⟨_, ⟨d, _, rfl⟩, more, tail, rfl⟩ := word
    obtain ⟨behind, split⟩ := (List.cons_prefix_cons.mp front).2
    have bound := (cuts_takeWhile isWordChar).longest tail behind
    rw [show more ++ behind = rest from split] at bound
    exact Nat.succ_le_succ bound

theorem language_of_mark {c : Char} {token : Token} (known : mark? c = some token) :
    token.form.language = {[c]} := by
  unfold mark? at known
  split at known
  · cases known
    rfl
  · cases known
    rfl
  · cases known
    rfl
  · cases known
    rfl
  · cases known

theorem mark_maximal {c : Char} {token : Token} (known : mark? c = some token)
    (rest : List Char) : Piece.Maximal ⟨[c], rest, .ok token⟩ := by
  have only := language_of_mark known
  refine .token token ⟨?_, ?_⟩
  · rw [only]
    rfl
  · intro other a front matched
    rw [Form.eq_of_mark known (Form.starts_of_front matched front), only] at matched
    rw [show a = [c] from matched]

/-! ## Numerals, and all pieces -/

section Numerals

variable {c : Char} {rest : List Char}

/-- Where only numerals can match, the piece of a numeral is maximal. -/
theorem numeralPiece_maximal (notQuote : c ≠ '"')
    (only : ∀ {form : Form} {a : List Char}, a ∈ form.language → a <+: c :: rest → form = .number) :
    (numeralPiece c rest).Maximal := by
  have split {form : Form} {a : List Char} (matched : a ∈ form.language)
      (front : a <+: c :: rest) :
      ∃ taken numeral behind, splitNumeral? (c :: rest) = some ((taken, numeral), behind) ∧
        a.length ≤ taken.length := by
    obtain rfl := only matched front
    obtain ⟨behind, whole⟩ := front
    rw [← whole]
    exact exists_splitNumeral? matched behind
  unfold numeralPiece
  split
  · next taken numeral behind found =>
    have longest : Form.number.Longest taken behind := by
      refine ⟨mem_of_splitNumeral? found, fun other a front matched => ?_⟩
      rw [splitNumeral?_append found] at front
      obtain ⟨_, _, _, same, bound⟩ := split matched front
      rw [found] at same
      cases same
      exact bound
    unfold numeralContent
    split
    · next n _ => exact .token (.number n) longest
    · next none => exact .invalidNumber longest (splitNumeral?_alone found) none
  · next none =>
    refine .unexpected (fun form a front matched => ?_) notQuote
    obtain ⟨_, _, _, some, _⟩ := split matched front
    rw [none] at some
    cases some

/-- Behind layout, every piece is the longest match at its place, or says why it is a fault. -/
theorem firstPiece_maximal (shown : isLayoutChar c = false)
    (noComment : ¬(c = '/' ∧ rest.head? = some '/')) : (firstPiece c rest).Maximal := by
  unfold firstPiece
  split
  · exact stringPiece_maximal rest
  · next notQuote =>
    split
    · next start => exact wordPiece_maximal start rest
    · next notWord =>
      split
      · next known => exact mark_maximal known rest
      · next noMark =>
        exact numeralPiece_maximal notQuote (Form.eq_number shown noComment notQuote notWord noMark)

end Numerals

/-! ## Pieces before less -/

section Before

variable {c : Char} {text taken rest : List Char} {token : Token} (kept : List Char)

theorem stringPiece_before (piece : stringPiece text = ⟨taken, kept ++ rest, .ok token⟩) :
    ∃ more, taken = '"' :: more ∧ stringPiece (more ++ kept) = ⟨taken, kept, .ok token⟩ := by
  obtain ⟨inside, after, closed⟩ := splitString_of_content (congrArg Piece.content piece)
  have body : inside ∈ stringBodies := by
    have found := splitString_mem text
    rwa [closed] at found
  have before : splitString (inside ++ ['"'] ++ kept) = (inside, '"' :: kept) := by
    rw [List.append_assoc, List.singleton_append, splitString_append_body body, splitString_quote,
      List.append_nil]
  rw [stringPiece_of_closed closed] at piece
  refine ⟨inside ++ ['"'], ?_⟩
  rw [stringPiece_of_closed before]
  cases denoted : unescape inside with
  | ok value =>
    rw [denoted] at piece
    cases piece
    exact ⟨rfl, rfl⟩
  | error d =>
    rw [denoted] at piece
    cases piece

theorem wordPiece_before (piece : wordPiece c text = ⟨taken, kept ++ rest, .ok token⟩) :
    ∃ more, taken = c :: more ∧ wordPiece c (more ++ kept) = ⟨taken, kept, .ok token⟩ := by
  obtain ⟨rfl, behind, content⟩ := Piece.mk.inj piece
  have whole : (text.takeWhile isWordChar ++ (kept ++ rest)) = text := by
    rw [← behind, List.takeWhile_append_dropWhile]
  have cut := (cuts_takeWhile isWordChar).before (text.takeWhile isWordChar) kept rest
    (by rw [whole, behind])
  obtain ⟨word, stop⟩ := Prod.mk.inj cut
  refine ⟨_, rfl, ?_⟩
  rw [wordPiece, word, stop]
  exact congrArg (Piece.mk _ kept) content

theorem numeralPiece_before (piece : numeralPiece c text = ⟨taken, kept ++ rest, .ok token⟩) :
    ∃ more, taken = c :: more ∧ numeralPiece c (more ++ kept) = ⟨taken, kept, .ok token⟩ := by
  unfold numeralPiece at piece
  split at piece
  · next numeral after found =>
    obtain ⟨rfl, rfl, content⟩ := Piece.mk.inj piece
    obtain ⟨d, more, rfl⟩ := List.exists_cons_of_ne_nil (splitNumeral?_ne_nil found)
    obtain ⟨rfl, _⟩ := List.cons.inj (splitNumeral?_append found)
    refine ⟨more, rfl, ?_⟩
    rw [numeralPiece, ← List.cons_append, splitNumeral?_before kept found]
    exact congrArg (Piece.mk _ kept) content
  · cases piece

/-- A token is the same piece if less stands behind it. -/
theorem firstPiece_before (piece : firstPiece c text = ⟨taken, kept ++ rest, .ok token⟩) :
    ∃ more, taken = c :: more ∧ firstPiece c (more ++ kept) = ⟨taken, kept, .ok token⟩ := by
  unfold firstPiece at piece ⊢
  split at piece
  · next quote =>
    simp only [if_pos quote]
    rw [quote]
    exact stringPiece_before kept piece
  · next notQuote =>
    simp only [if_neg notQuote]
    split at piece
    · next start =>
      simp only [if_pos start]
      exact wordPiece_before kept piece
    · next notWord =>
      simp only [if_neg notWord]
      split at piece
      · obtain ⟨rfl, _, content⟩ := Piece.mk.inj piece
        exact ⟨[], rfl, congrArg (Piece.mk [c] kept) content⟩
      · exact numeralPiece_before kept piece

end Before

/-! ## All of a piece -/

/-- A piece takes a character and is the longest match at its place.  If it is a token, it is a
keyword exactly where it is spelled like one, and its own text is tokenized as it alone. -/
structure Piece.Exact (piece : Piece) : Prop where
  nonempty : piece.taken ≠ []
  maximal : piece.Maximal
  keyword {token : Token} (content : piece.content = .ok token) (k : Keyword) :
    token = .keyword k ↔ piece.taken = k.chars
  alone {token : Token} (content : piece.content = .ok token) :
    tokenize piece.taken = .ok [⟨token, .start, Position.start.past piece.taken⟩]

/-- A text that is one piece is scanned as this piece. -/
theorem scan_of_piece {c : Char} {more : List Char}
    {content : Except (LexicalCause × List Char) Token} (shown : isLayoutChar c = false)
    (noComment : ¬(c = '/' ∧ more.head? = some '/'))
    (piece : firstPiece c more = ⟨c :: more, [], content⟩) :
    scan (c :: more) = [(⟨c :: more, [], content⟩ : Piece).item .start] := by
  have nothing : splitLayout false [] = ([], []) := rfl
  rw [scan, scanFrom_of_shown shown noComment, piece, scanFrom_of_layout nothing]

/-- The spelling of a token is scanned as the token. -/
theorem Spelling.scan {text : List Char} {token : Token} (spelling : Spelling text token) :
    JsonShape.scan text = [.ok ⟨token, .start, Position.start.past text⟩] := by
  obtain ⟨shown, notSlash, piece⟩ := spelling
  have alone := piece [] .nil
  rw [List.append_nil] at alone
  exact scan_of_piece shown (fun slashes => notSlash slashes.1) alone

/-- A text that is one piece is tokenized as this piece. -/
theorem tokenize_of_piece {c : Char} {more : List Char} {token : Token}
    (shown : isLayoutChar c = false) (noComment : ¬(c = '/' ∧ more.head? = some '/'))
    (piece : firstPiece c more = ⟨c :: more, [], .ok token⟩) :
    tokenize (c :: more) = .ok [⟨token, .start, Position.start.past (c :: more)⟩] := by
  apply tokenize_of_scan
  rw [scan_of_piece shown noComment piece]
  rfl

/-- A text that is one numeral is scanned as what the numeral is read as. -/
theorem scan_of_splitNumeral? {text : List Char} {numeral : Numeral}
    (split : splitNumeral? text = some ((text, numeral), [])) :
    scan text = [(⟨text, [], numeralContent text numeral⟩ : Piece).item .start] := by
  obtain ⟨c, more, rfl, starts⟩ := exists_cons_of_numerals (mem_of_splitNumeral? split)
  obtain ⟨shown, notSlash, alone⟩ := numeralPiece_of_head starts
  have piece : firstPiece c more = ⟨c :: more, [], numeralContent (c :: more) numeral⟩ := by
    rw [alone, numeralPiece, split]
  exact scan_of_piece shown (fun slashes => notSlash slashes.1) piece

section Exact

variable {c : Char} {rest : List Char} {token : Token}

/-- A piece that is spelled like a keyword is the keyword. -/
theorem content_of_keyword {k : Keyword} (spelled : (firstPiece c rest).taken = k.chars) :
    (firstPiece c rest).content = .ok (.keyword k) := by
  obtain ⟨_, ⟨d, start, rfl⟩, tail, _, chars⟩ := k.chars_mem
  have lossless := firstPiece_append c rest
  rw [spelled, ← chars] at lossless
  obtain ⟨rfl, _⟩ := List.cons.inj lossless
  have piece : firstPiece d rest = wordPiece d rest := by
    rw [firstPiece, if_neg (visible_of_isWordStart start).2.2, if_pos start]
  rw [piece] at spelled ⊢
  have word : d :: rest.takeWhile isWordChar = k.word.toList := spelled
  rw [wordPiece, word, String.ofList_toList, Token.ofWord_word]

theorem keyword_iff (exact : (firstPiece c rest).Maximal)
    (content : (firstPiece c rest).content = .ok token) (k : Keyword) :
    token = .keyword k ↔ (firstPiece c rest).taken = k.chars := by
  constructor
  · rintro rfl
    generalize firstPiece c rest = piece at exact content
    cases exact with
    | token _ longest =>
      cases content
      exact longest.mem
    | _ => cases content
  · intro spelled
    rw [content_of_keyword spelled] at content
    cases content
    rfl

theorem firstPiece_exact (shown : isLayoutChar c = false)
    (noComment : ¬(c = '/' ∧ rest.head? = some '/')) : (firstPiece c rest).Exact where
  nonempty := firstPiece_taken_ne_nil c rest
  maximal := firstPiece_maximal shown noComment
  keyword := keyword_iff (firstPiece_maximal shown noComment)
  alone := by
    intro token content
    have lossless := firstPiece_append c rest
    rcases piece : firstPiece c rest with ⟨taken, behind, found⟩
    rw [piece] at lossless content
    obtain rfl : found = .ok token := content
    obtain ⟨more, rfl, alone⟩ := firstPiece_before [] piece
    rw [List.append_nil] at alone
    have whole : more ++ behind = rest := (List.cons.inj lossless).2
    refine tokenize_of_piece shown (fun slashes => noComment ⟨slashes.1, ?_⟩) alone
    rw [← whole, List.head?_append, slashes.2]
    rfl

end Exact

end JsonShape
