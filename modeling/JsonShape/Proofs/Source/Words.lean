import JsonShape.Proofs.Source.Scanning

/-!
# Identifiers of scanned texts

Every item of a scan is the piece at its place (`exists_piece_of_mem_scanFrom`), so what is known
of the pieces is known of all tokens of a source text.  Here it is that identifiers are bare words
and no keywords (`identifier_of_mem_scan`).
-/

namespace JsonShape

/-! ## Items and their pieces -/

theorem exists_piece_of_mem_scanFrom {position : Position} {text : List Char} {item : Item}
    (listed : item ∈ scanFrom position text) :
    ∃ c rest start, item = (firstPiece c rest).item start := by
  induction position, text using scan_induction with
  | finish split =>
    rw [scanFrom_of_layout split] at listed
    cases listed
  | piece split ih =>
    rw [scanFrom_of_split split] at listed
    rcases List.mem_cons.mp listed with first | later
    · exact ⟨_, _, _, first⟩
    · exact ih later

/-! ## Words -/

theorem identifier_ofWord {word name : String} (same : Token.ofWord word = .identifier name) :
    name = word ∧ isKeyword word = false := by
  unfold Token.ofWord at same
  split at same
  · cases same
  · next unknown =>
    cases same
    exact ⟨rfl, Keyword.ofWord?_eq_none_iff.mp unknown⟩

/-- Whether a token is a bare word: an identifier or a keyword. -/
def Token.isWord : Token → Bool
  | identifier _ | keyword _ => true
  | _ => false

/-- A piece that is an identifier or a keyword is what bare words are cut off as. -/
theorem eq_wordPiece_of_content {c : Char} {rest : List Char} {token : Token}
    (content : (firstPiece c rest).content = .ok token) (word : token.isWord = true) :
    isWordStart c = true ∧ firstPiece c rest = wordPiece c rest := by
  unfold firstPiece at content ⊢
  split at content
  · unfold stringPiece at content
    dsimp only at content
    split at content
    · split at content <;> cases content
      cases word
    · split at content <;> cases content
  · next notQuote =>
    split at content
    · next start => exact ⟨start, by rw [if_neg notQuote, if_pos start]⟩
    · split at content
      · rename_i mark
        cases content
        unfold mark? at mark
        split at mark <;> cases mark <;> cases word
      · unfold numeralPiece numeralContent at content
        split at content
        · split at content <;> cases content
          cases word
        · cases content

/-- The characters of a piece of a bare word make up one. -/
theorem isBareWord_of_wordPiece {c : Char} (start : isWordStart c = true) (rest : List Char) :
    isBareWord (String.ofList (wordPiece c rest).taken) = true :=
  isBareWord_iff.mpr ⟨c, rest.takeWhile isWordChar, String.toList_ofList, start,
    List.all_takeWhile⟩

/-- A piece that is an identifier is a bare word, and no keyword. -/
theorem identifier_of_firstPiece {c : Char} {rest : List Char} {name : String}
    (content : (firstPiece c rest).content = .ok (.identifier name)) :
    isBareWord name = true ∧ isKeyword name = false := by
  obtain ⟨start, piece⟩ := eq_wordPiece_of_content content rfl
  rw [piece] at content
  obtain ⟨rfl, free⟩ := identifier_ofWord (Except.ok.inj content)
  exact ⟨isBareWord_of_wordPiece start rest, free⟩

/-- Identifiers of a source text are bare words, and no keywords. -/
theorem identifier_of_mem_scan {source : List Char} {lexeme : Lexeme}
    (listed : .ok lexeme ∈ scan source) {name : String} (named : lexeme.token = .identifier name) :
    isBareWord name = true ∧ isKeyword name = false := by
  obtain ⟨c, rest, start, same⟩ := exists_piece_of_mem_scanFrom listed
  have content := Piece.content_of_item same.symm
  rw [named] at content
  exact identifier_of_firstPiece content

theorem identifier_of_tokenize {source : List Char} {lexemes : List Lexeme}
    (tokenized : tokenize source = .ok lexemes) {name : String}
    (listed : .identifier name ∈ lexemes.map Lexeme.token) :
    isBareWord name = true ∧ isKeyword name = false := by
  obtain ⟨lexeme, among, same⟩ := List.mem_map.mp listed
  have scanned : .ok lexeme ∈ scan source := by
    rw [scan_eq_of_tokenize tokenized]
    exact List.mem_map_of_mem among
  exact identifier_of_mem_scan scanned same

end JsonShape
