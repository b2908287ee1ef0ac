import JsonShape.Proofs.Source.Munch

/-!
# String literals

What stands behind an opening quote ends in one of four ways, and its item says which.

* `Denotes body value`: a text inside a string literal, and what it denotes, with the six escapes
  of `escapes`.
* `Ends text ending`: how a text behind an opening quote ends.  It does so in some way
  (`exists_ends`), and the piece of the literal says in which one (`Ends.content`); so there is no
  other (`Ends.unique`).
* `lineEnd_ne_quote`: where no quote closes the literal, there is none for `lineEnd` to find.
* `scan_stringLiterals` says this of every item of a scan that starts at a quote.
-/

namespace JsonShape

open scoped Computability

/-! ## What a literal denotes -/

/-- The characters that a backslash may precede, each with the character that the two denote. -/
def escapes : List (Char × Char) :=
  [('"', '"'), ('\\', '\\'), ('/', '/'), ('n', '\n'), ('r', '\r'), ('t', '\t')]

theorem escaped?_eq_some_iff {e c : Char} : escaped? e = some c ↔ (e, c) ∈ escapes := by
  unfold escaped? escapes
  split <;> simp_all [eq_comm]

theorem escaped?_eq_none_iff {e : Char} : escaped? e = none ↔ ∀ c, (e, c) ∉ escapes := by
  simp only [Option.eq_none_iff_forall_ne_some, ne_eq, escaped?_eq_some_iff]

/-- A text inside a string literal, and the text that it denotes: plain characters stand for
themselves, and escapes for the characters that they denote. -/
inductive Denotes : List Char → List Char → Prop
  | nil : Denotes [] []
  | plain {c : Char} {body value : List Char} :
    isPlain c = true → Denotes body value → Denotes (c :: body) (c :: value)
  | escape {e c : Char} {body value : List Char} :
    (e, c) ∈ escapes → Denotes body value → Denotes ('\\' :: e :: body) (c :: value)

/-- No escape is a line feed. -/
theorem ne_feed_of_mem_escapes {e c : Char} (known : (e, c) ∈ escapes) : e ≠ '\n' := by
  rintro rfl
  cases escaped?_eq_some_iff.mpr known

section Denotes

variable {front value : List Char} (denotes : Denotes front value)

include denotes

/-- What denotes a text may stand in front of the inside of a string literal. -/
theorem Denotes.append_mem {more : List Char} (inside : more ∈ stringBodies) :
    front ++ more ∈ stringBodies := by
  induction denotes with
  | nil => exact inside
  | plain plain _ ih => exact plain_mem_stringBodies plain ih
  | escape known _ ih => exact pair_mem_stringBodies (ne_feed_of_mem_escapes known) ih

theorem Denotes.mem : front ∈ stringBodies := by
  have alone := denotes.append_mem (Language.nil_mem_kstar _)
  rwa [List.append_nil] at alone

theorem Denotes.unescape_append (more : List Char) :
    unescape (front ++ more) = (unescape more).map (value ++ ·) := by
  induction denotes with
  | nil =>
    rw [List.nil_append]
    cases unescape more <;> rfl
  | plain plain _ ih =>
    rw [List.cons_append, unescape_plain (ne_of_isPlain plain).2.1, ih]
    cases unescape more <;> rfl
  | escape known _ ih =>
    rw [List.cons_append, List.cons_append, unescape_escape (escaped?_eq_some_iff.mpr known), ih]
    cases unescape more <;> rfl

theorem Denotes.unescape_eq : unescape front = .ok value := by
  have alone := denotes.unescape_append []
  rw [List.append_nil] at alone
  rw [alone, unescape, Except.map, List.append_nil]

theorem Denotes.unescape_unknown {e : Char} (unknown : ∀ c, (e, c) ∉ escapes) (more : List Char) :
    unescape (front ++ '\\' :: e :: more) = .error e := by
  rw [denotes.unescape_append, unescape, escaped?_eq_none_iff.mpr unknown]
  rfl

end Denotes

/-- The inside of a string literal denotes a text, up to the first escape that denotes nothing. -/
theorem denotes_or_unknown {body : List Char} (inside : body ∈ stringBodies) :
    (∃ value, Denotes body value) ∨
    ∃ front value e more, body = front ++ '\\' :: e :: more ∧ Denotes front value ∧
      (∀ c, (e, c) ∉ escapes) ∧ e ≠ '\n' ∧ more ∈ stringBodies := by
  induction inside using stringBodies_induction with
  | nil => exact .inl ⟨[], .nil⟩
  | plain c body own _ ih =>
    rcases ih with ⟨value, denotes⟩ | ⟨front, value, e, more, rfl, denotes, unknown⟩
    · exact .inl ⟨c :: value, .plain own denotes⟩
    · exact .inr ⟨c :: front, c :: value, e, more, rfl, .plain own denotes, unknown⟩
  | pair e body inLine inside ih =>
    cases known : escaped? e with
    | none =>
      exact .inr ⟨[], [], e, body, rfl, .nil, escaped?_eq_none_iff.mp known, inLine, inside⟩
    | some c =>
      have escape := escaped?_eq_some_iff.mp known
      rcases ih with ⟨value, denotes⟩ | ⟨front, value, other, more, rfl, denotes, unknown⟩
      · exact .inl ⟨c :: value, .escape escape denotes⟩
      · exact .inr
          ⟨'\\' :: e :: front, c :: value, other, more, rfl, .escape escape denotes, unknown⟩

/-! ## How a literal ends -/

/-- The inside of a string literal that is not closed.  Its last character may be a backslash that
is paired with none. -/
def openBodies : Language Char := stringBodies + stringBodies * {['\\']}

/-- How a text behind an opening quote ends. -/
inductive Ending where
  | closed (body value : List Char)
  | unknownEscape (e : Char)
  | lineBreak (before : List Char)
  | finish

/-- A text behind an opening quote ends in a way.  The first quote that is not escaped closes the
literal, whose escapes all denote something or do not; a line feed comes first; or nothing does. -/
inductive Ends : List Char → Ending → Prop
  | closed {body value rest : List Char} :
    Denotes body value → Ends (body ++ '"' :: rest) (.closed body value)
  | unknownEscape {front value more rest : List Char} {e : Char} :
    Denotes front value → (∀ c, (e, c) ∉ escapes) → e ≠ '\n' → more ∈ stringBodies →
    Ends (front ++ '\\' :: e :: (more ++ '"' :: rest)) (.unknownEscape e)
  | lineBreak {before rest : List Char} :
    before ∈ openBodies → Ends (before ++ '\n' :: rest) (.lineBreak before)
  | finish {text : List Char} : text ∈ openBodies → Ends text .finish

/-- The item of a string literal that ends in a way, its opening quote being at a position. -/
def Ending.item (start : Position) : Ending → Item
  | closed body value =>
    .ok ⟨.string (String.ofList value), start, start.past ('"' :: (body ++ ['"']))⟩
  | unknownEscape e => .error ⟨start.toLocation, .lexical (.invalidEscape e)⟩
  | lineBreak before =>
    .error ⟨(start.past ('"' :: before)).toLocation, .lexical .lineBreakInString⟩
  | finish => .error ⟨start.toLocation, .lexical .unterminatedString⟩

/-! ## The end of a line -/

theorem lineEnd_plain {c : Char} (plain : isPlain c = true) (text : List Char) :
    lineEnd (c :: text) = (lineEnd text).behind c := by
  obtain ⟨quote, backslash, feed⟩ := ne_of_isPlain plain
  rw [lineEnd]
  · exact feed
  · exact quote
  · exact fun same _ => backslash same
  · exact fun _ _ same => absurd same backslash

theorem lineEnd_pair {c : Char} (inLine : c ≠ '\n') (text : List Char) :
    lineEnd ('\\' :: c :: text) = ((lineEnd text).behind c).behind '\\' := by
  rw [lineEnd, if_neg inLine]

/-- The inside of a string literal does not end its line. -/
theorem lineEnd_append_body {body : List Char} (inside : body ∈ stringBodies) (rest : List Char) :
    lineEnd (body ++ rest) =
      match lineEnd rest with
      | .feed before => .feed (body ++ before)
      | .quote => .quote
      | .finish => .finish := by
  induction inside using stringBodies_induction with
  | nil =>
    rw [List.nil_append]
    cases lineEnd rest <;> rfl
  | plain c body own _ ih =>
    rw [List.cons_append, lineEnd_plain own, ih]
    cases lineEnd rest <;> rfl
  | pair c body inLine _ ih =>
    rw [List.cons_append, List.cons_append, lineEnd_pair inLine, ih]
    cases lineEnd rest <;> rfl

theorem lineEnd_of_body {body : List Char} (inside : body ∈ stringBodies) :
    lineEnd body = .finish := by
  have alone := lineEnd_append_body inside []
  rwa [List.append_nil] at alone

/-- A line feed ends the line behind the inside of a literal that is not closed. -/
theorem lineEnd_feed {before : List Char} (inside : before ∈ openBodies) (rest : List Char) :
    lineEnd (before ++ '\n' :: rest) = .feed before := by
  rcases inside with body | ⟨body, inBody, _, rfl, rfl⟩
  · rw [lineEnd_append_body body]
    exact congrArg LineEnd.feed (List.append_nil before)
  · rw [List.append_assoc, lineEnd_append_body inBody]
    rfl

/-- Where there is no line feed, the text ends the line. -/
theorem lineEnd_finish {text : List Char} (inside : text ∈ openBodies) :
    lineEnd text = .finish := by
  rcases inside with body | ⟨body, inBody, _, rfl, rfl⟩
  · exact lineEnd_of_body body
  · rw [lineEnd_append_body inBody]
    rfl

/-! ## Endings of a text -/

/-- What the inside of a string literal stops at. -/
inductive BodyStop : List Char → Prop
  | finish : BodyStop []
  | backslash : BodyStop ['\\']
  | quote (rest : List Char) : BodyStop ('"' :: rest)
  | feed (rest : List Char) : BodyStop ('\n' :: rest)
  | backslashFeed (rest : List Char) : BodyStop ('\\' :: '\n' :: rest)

theorem splitString_stop (text : List Char) : BodyStop (splitString text).2 := by
  fun_induction splitString text with
  | case1 => exact .finish
  | case2 => exact .backslash
  | case3 rest => exact .backslashFeed rest
  | case4 c rest inLine ih => exact ih
  | case5 c rest _ _ stops =>
    rcases stops with rfl | rfl
    · exact .quote rest
    · exact .feed rest
  | case6 c rest _ _ _ ih => exact ih

/-- A text is the inside of a string literal, and what this one stops at. -/
theorem exists_splitString (text : List Char) :
    ∃ body last, text = body ++ last ∧ splitString text = (body, last) ∧ body ∈ stringBodies ∧
      BodyStop last :=
  ⟨_, _, (splitString_append text).symm, rfl, splitString_mem text, splitString_stop text⟩

/-- The line of a literal ends at a quote exactly if the inside of the literal does, which is if the
literal is closed. -/
theorem lineEnd_eq_quote_iff {text : List Char} :
    lineEnd text = .quote ↔ ∃ behind, (splitString text).2 = '"' :: behind := by
  obtain ⟨body, last, rfl, split, inside, stop⟩ := exists_splitString text
  rw [split, lineEnd_append_body inside]
  cases stop with
  | quote rest => exact ⟨fun _ => ⟨rest, rfl⟩, fun _ => rfl⟩
  | _ => exact ⟨nofun, nofun⟩

theorem stringPiece_of_feed {text before : List Char} (line : lineEnd text = .feed before) :
    (stringPiece text).content = .error (.lineBreakInString, '"' :: before) := by
  unfold stringPiece
  dsimp only
  split
  · next behind closed =>
    rw [lineEnd_eq_quote_iff.mpr ⟨behind, closed⟩] at line
    cases line
  · rw [line]

theorem stringPiece_of_finish {text : List Char} (line : lineEnd text = .finish) :
    (stringPiece text).content = .error (.unterminatedString, []) := by
  unfold stringPiece
  dsimp only
  split
  · next behind closed =>
    rw [lineEnd_eq_quote_iff.mpr ⟨behind, closed⟩] at line
    cases line
  · rw [line]

/-- Every text behind an opening quote ends in some way. -/
theorem exists_ends (text : List Char) : ∃ ending, Ends text ending := by
  obtain ⟨body, last, rfl, _, inside, stop⟩ := exists_splitString text
  cases stop with
  | finish => exact ⟨.finish, .finish (.inl (by rwa [List.append_nil]))⟩
  | backslash => exact ⟨.finish, .finish (.inr (Language.append_mem_mul inside rfl))⟩
  | feed rest => exact ⟨.lineBreak body, .lineBreak (.inl inside)⟩
  | backslashFeed rest =>
    rw [List.append_cons]
    exact ⟨.lineBreak _, .lineBreak (.inr (Language.append_mem_mul inside rfl))⟩
  | quote rest =>
    rcases denotes_or_unknown inside with
      ⟨value, denotes⟩ | ⟨front, value, e, more, rfl, denotes, unknown, inLine, inMore⟩
    · exact ⟨.closed body value, .closed denotes⟩
    · rw [List.append_assoc, List.cons_append, List.cons_append]
      exact ⟨.unknownEscape e, .unknownEscape denotes unknown inLine inMore⟩

/-! ## Items of string literals -/

/-- The content of a string literal's piece. -/
def Ending.content : Ending → Except (LexicalCause × List Char) Token
  | closed _ value => .ok (.string (String.ofList value))
  | unknownEscape e => .error (.invalidEscape e, [])
  | lineBreak before => .error (.lineBreakInString, '"' :: before)
  | finish => .error (.unterminatedString, [])

/-- The inside of a string literal ends at the quote that closes it. -/
theorem splitString_closed {body : List Char} (inside : body ∈ stringBodies) (rest : List Char) :
    splitString (body ++ '"' :: rest) = (body, '"' :: rest) := by
  rw [splitString_append_body inside, splitString_quote, List.append_nil]

theorem Ends.content {text : List Char} {ending : Ending} (ends : Ends text ending) :
    (stringPiece text).content = ending.content := by
  cases ends with
  | @closed body value rest denotes =>
    rw [stringPiece_of_closed (splitString_closed denotes.mem rest), denotes.unescape_eq]
    rfl
  | @unknownEscape front value more rest e denotes unknown inLine inMore =>
    have inside := denotes.append_mem (pair_mem_stringBodies inLine inMore)
    have closed := splitString_closed inside rest
    rw [List.append_assoc, List.cons_append, List.cons_append] at closed
    rw [stringPiece_of_closed closed, denotes.unescape_unknown unknown]
    rfl
  | lineBreak inside => exact stringPiece_of_feed (lineEnd_feed inside _)
  | finish inside => exact stringPiece_of_finish (lineEnd_finish inside)

/-- What ends a line is a line feed of the text. -/
theorem eq_append_of_feed {text before : List Char} (line : lineEnd text = .feed before) :
    ∃ rest, text = before ++ '\n' :: rest := by
  obtain ⟨ending, ends⟩ := exists_ends text
  have content := ends.content.symm.trans (stringPiece_of_feed line)
  cases ends with
  | @lineBreak _ rest _ =>
    cases content
    exact ⟨rest, rfl⟩
  | _ => cases content

theorem Ends.taken {text body value : List Char} (ends : Ends text (.closed body value)) :
    (stringPiece text).taken = '"' :: (body ++ ['"']) := by
  cases ends with
  | @closed _ _ rest denotes =>
    rw [stringPiece_of_closed (splitString_closed denotes.mem rest), denotes.unescape_eq]

theorem Ends.item {text : List Char} {ending : Ending} (ends : Ends text ending)
    (start : Position) : (stringPiece text).item start = ending.item start := by
  rw [Piece.item, ends.content]
  cases ending with
  | closed body value =>
    rw [ends.taken]
    rfl
  | _ => rfl

/-- No text ends in two ways. -/
theorem Ends.unique {text : List Char} {ending other : Ending} (ends : Ends text ending)
    (too : Ends text other) : ending = other := by
  have content : ending.content = other.content := ends.content.symm.trans too.content
  cases ending with
  | closed body value =>
    cases other with
    | closed otherBody otherValue =>
      have taken := ends.taken.symm.trans too.taken
      have same := String.ofList_injective (Token.string.inj (Except.ok.inj content))
      rw [List.append_cancel_right (List.cons.inj taken).2, same]
    | _ => cases content
  | unknownEscape | lineBreak | finish =>
    cases other <;> cases content
    rfl

/-! ## Three scans of one text -/

/-- The line of a text behind an opening quote ends at a quote exactly if a text of the form of
string literals is in front. -/
theorem lineEnd_eq_quote_iff_matched {text : List Char} :
    lineEnd text = .quote ↔ ∃ a, a <+: '"' :: text ∧ a ∈ Form.string.language := by
  rw [lineEnd_eq_quote_iff]
  constructor
  · rintro ⟨behind, closed⟩
    have whole := splitString_append text
    rw [closed] at whole
    exact ⟨_, ⟨behind, by simpa using whole⟩, (Form.longest_string (Prod.ext rfl closed)).mem⟩
  · rintro ⟨a, front, inside⟩
    obtain ⟨_, behind, _, split⟩ := Form.splitString_of_front inside front
    exact ⟨behind, congrArg Prod.snd split⟩

example : lineEnd "a\\\"b\\".toList = .finish ∧ lineEnd "a\\\\\"b".toList = .quote ∧
    lineEnd "a\\\\\\\nb\"".toList = .feed "a\\\\\\".toList := by decide

/-- Between the quotes of a string literal is the inside of one. -/
theorem mem_stringBodies_of_string {body : List Char}
    (inside : '"' :: (body ++ ['"']) ∈ Form.string.language) : body ∈ stringBodies := by
  obtain ⟨_, rfl, _, ⟨own, inBody, _, rfl, rfl⟩, whole⟩ := inside
  have same : own ++ ['"'] = body ++ ['"'] := (List.cons.inj whole).2
  rwa [← List.append_cancel_right same]

/-- The inside of a string literal ends in no lone backslash. -/
theorem not_lone_backslash {body front : List Char} (inside : body ∈ stringBodies)
    (inFront : front ∈ stringBodies) : body ≠ front ++ ['\\'] := by
  rintro rfl
  have split := splitString_append_body inFront ['\\']
  have whole := splitString_append_body inside []
  rw [List.append_nil, split] at whole
  simp [splitString] at whole

theorem unescape_ne_backslash {body : List Char} (inside : body ∈ stringBodies) :
    unescape body ≠ .error '\\' := by
  rcases denotes_or_unknown inside with
    ⟨value, denotes⟩ | ⟨front, value, e, more, rfl, denotes, unknown, _, _⟩
  · rw [denotes.unescape_eq]
    nofun
  · rw [denotes.unescape_unknown unknown]
    intro same
    cases same
    exact unknown '\\' (by decide)

/-- String literals are classified and located correctly.  Wherever a scan starts an item at a
quote, this stands where the item starts; the text behind it ends in exactly one of four ways, and
the item is what this way says.  The scan that looks for a line feed comes to a closing quote
exactly if the form of string literals matches, so never where it is run; and what stands between
the quotes of a match ends in no backslash without a character to escape. -/
theorem scan_stringLiterals (source : List Char) :
    ∃ stretches, scan source = stretches.map Stretch.item ∧ Tiles .start source stretches ∧
      ∀ s ∈ stretches, ∀ text, s.piece.taken ++ s.piece.behind = '"' :: text →
        (∃ before, source = before ++ '"' :: text ∧ s.start = Position.start.past before) ∧
        (∃ ending, s.item = ending.item s.start ∧ ∀ other, Ends text other ↔ other = ending) ∧
        (lineEnd text = .quote ↔ ∃ a, a <+: '"' :: text ∧ a ∈ Form.string.language) ∧
        ∀ body, '"' :: (body ++ ['"']) ∈ Form.string.language →
          unescape body ≠ .error '\\' ∧ ∀ front ∈ stringBodies, body ≠ front ++ ['\\'] := by
  obtain ⟨stretches, scanned, tiles, cut⟩ := exists_tiles_firstPiece .start source
  refine ⟨stretches, scanned, tiles, fun s listed text quoted => ?_⟩
  obtain ⟨before, whole, start, _⟩ := tiles.exists_before listed
  obtain ⟨c, rest, piece, _, _⟩ := cut s listed
  rw [quoted] at whole
  have lossless := firstPiece_append c rest
  rw [← piece, quoted] at lossless
  obtain ⟨rfl, rfl⟩ := List.cons.inj lossless
  obtain ⟨ending, ends⟩ := exists_ends text
  have item : s.item = ending.item s.start := by
    rw [Stretch.item, piece]
    exact ends.item s.start
  refine ⟨⟨before, whole, start⟩, ⟨ending, item, fun other => ⟨fun too => too.unique ends, ?_⟩⟩,
    lineEnd_eq_quote_iff_matched, fun body inside => ?_⟩
  · rintro rfl
    exact ends
  · have inBody := mem_stringBodies_of_string inside
    exact ⟨unescape_ne_backslash inBody, fun front => not_lone_backslash inBody⟩

end JsonShape
