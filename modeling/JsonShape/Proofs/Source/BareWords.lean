import JsonShape.Proofs.Source.Munch
import JsonShape.Proofs.Source.Quoting
import JsonShape.Proofs.Source.Words
import JsonShape.Proofs.Text.Slices
import JsonShape.Rule.Printer

/-!
# Bare words

What is printed without quotes is what is scanned as one identifier.

* `ScansAsWord w token`: all of `w` is scanned as one token, an identifier or a keyword.
* `scansAsWord_iff`: this is so exactly if `w` is a bare word, and then the token is the one that
  is spelled `w`.
* `isBareWord_iff_scan` puts this together with the tables of keywords, and with what is printed
  for a name.
-/

namespace JsonShape

/-! ## Texts that are one word -/

/-- A token stands over all of a text: from its start, and to its end. -/
def Lexeme.Spans (lexeme : Lexeme) (text : List Char) : Prop :=
  lexeme.start.offset = 0 ∧ lexeme.stop.offset = byteLength text

/-- A scan of a string finds one item, a token that stands over all of it and is an identifier or a
keyword. -/
def ScansAsWord (w : String) (token : Token) : Prop :=
  ∃ lexeme, scan w.toList = [.ok lexeme] ∧ lexeme.Spans w.toList ∧ lexeme.token = token ∧
    token.isWord = true

theorem Token.isWord_ofWord (w : String) : (Token.ofWord w).isWord = true := by
  unfold Token.ofWord
  split <;> rfl

theorem scansAsWord_of_isBareWord {w : String} (bare : isBareWord w = true) :
    ScansAsWord w (Token.ofWord w) := by
  refine ⟨⟨.ofWord w, .start, Position.start.past w.toList⟩, ?_, ⟨rfl, ?_⟩, rfl,
    Token.isWord_ofWord w⟩
  · exact (Spelling.word bare).scan
  · rw [Position.offset_past]
    exact Nat.zero_add _

/-- A piece that is the only item of a text, and stands over all of it, is all of the text. -/
theorem exists_firstPiece_of_spans {text : List Char} {lexeme : Lexeme}
    (scanned : scan text = [.ok lexeme]) (spans : lexeme.Spans text) :
    ∃ c rest, (firstPiece c rest).content = .ok lexeme.token ∧ (firstPiece c rest).taken = text := by
  obtain ⟨stretches, items, tiles, cut⟩ := exists_tiles_firstPiece .start text
  obtain ⟨stretch, rfl, item⟩ := List.map_eq_singleton_iff.mp (items.symm.trans scanned)
  obtain ⟨c, rest, piece, _⟩ := cut stretch (List.mem_singleton_self _)
  obtain ⟨before, whole, start, _⟩ := tiles.exists_before (List.mem_singleton_self stretch)
  obtain ⟨first, last⟩ := spans
  rw [Stretch.start_of_item item, start, Position.offset_past] at first
  rw [Stretch.stop_of_item item, Stretch.stop, start, Position.offset_past, Position.offset_past,
    whole, byteLength_append, byteLength_append] at last
  obtain rfl : before = [] := eq_nil_of_byteLength (Nat.eq_zero_of_add_eq_zero_left first)
  have nothing : stretch.piece.behind = [] := eq_nil_of_byteLength (by omega)
  rw [nothing, List.append_nil, List.nil_append] at whole
  exact ⟨c, rest, piece ▸ Piece.content_of_item item, piece ▸ whole.symm⟩

theorem scansAsWord_iff {w : String} {token : Token} :
    ScansAsWord w token ↔ isBareWord w = true ∧ token = Token.ofWord w := by
  constructor
  · rintro ⟨lexeme, scanned, spans, rfl, word⟩
    obtain ⟨c, rest, content, taken⟩ := exists_firstPiece_of_spans scanned spans
    obtain ⟨start, piece⟩ := eq_wordPiece_of_content content word
    rw [piece] at content taken
    have bare := isBareWord_of_wordPiece start rest
    rw [taken, String.ofList_toList] at bare
    refine ⟨bare, ?_⟩
    rw [← String.ofList_toList (s := w), ← taken]
    exact (Except.ok.inj content).symm
  · rintro ⟨bare, rfl⟩
    exact scansAsWord_of_isBareWord bare

theorem scansAsWord_identifier_iff {w : String} :
    ScansAsWord w (.identifier w) ↔ isBareWord w = true ∧ isKeyword w = false := by
  rw [scansAsWord_iff, Token.eq_ofWord_iff, and_congr_right_iff]
  intro _
  split
  · next known => exact iff_of_false nofun (by simp [known])
  · next free => exact iff_of_true rfl (Bool.eq_false_iff.mpr free)

example : ScansAsWord "type-of" (.identifier "type-of") :=
  scansAsWord_identifier_iff.mpr ⟨by decide, by decide⟩

/-! ## Names in print -/

/-- A name is printed as it is if this is scanned as the identifier, and in quotes otherwise. -/
theorem nameChars_eq (w : String) :
    (Rule.nameChars w = w.toList ↔ ScansAsWord w (.identifier w)) ∧
      (Rule.nameChars w = Quoting.source.write w.toList ↔ ¬ScansAsWord w (.identifier w)) := by
  have printed : (isBareWord w && !isKeyword w) = true ↔ ScansAsWord w (.identifier w) := by
    rw [scansAsWord_identifier_iff, Bool.and_eq_true_iff, Bool.not_eq_true']
  rw [← printed, Rule.nameChars]
  split
  · next bare => exact ⟨iff_of_true rfl bare, iff_of_false (Quoting.write_ne_self _).symm (· bare)⟩
  · next quoted => exact ⟨iff_of_false (Quoting.write_ne_self _) quoted, iff_of_true rfl quoted⟩

/-- What the printer takes for a bare word is one for the scanner.  A string is a bare word exactly
if it is scanned as one item, an identifier or a keyword that stands over all of it.  This token is
then a keyword, and its word is the string, if the string is a reserved word, and the identifier of
this name otherwise: the reserved words, the scanner's keywords and the words of keyword tokens are
the same.  So a name is printed without quotes exactly if it is scanned as the identifier of this
name. -/
theorem isBareWord_iff_scan (w : String) :
    (isBareWord w = true ↔ ∃ token, ScansAsWord w token) ∧
    (∀ token, ScansAsWord w token ↔ isBareWord w = true ∧
      if isKeyword w then (∃ k, token = .keyword k) ∧ token.keyword? = some w
      else token = .identifier w) ∧
    (∀ k, Keyword.ofWord? w = some k ↔ (Token.keyword k).keyword? = some w) ∧
    (isKeyword w = true ↔ ∃ k, (Token.keyword k).keyword? = some w) ∧
    (Rule.nameChars w = w.toList ↔ ScansAsWord w (.identifier w)) ∧
    (Rule.nameChars w = Quoting.source.write w.toList ↔ ¬ScansAsWord w (.identifier w)) := by
  have word (k : Keyword) : (Token.keyword k).keyword? = some w ↔ k.word = w := by
    simp [Token.keyword?]
  refine ⟨?_, fun token => ?_, fun k => ?_, ?_, nameChars_eq w⟩
  · simp only [scansAsWord_iff, exists_and_left, exists_eq, and_true]
  · have named (own : token.keyword? = some w) : ∃ k, token = .keyword k :=
      (Token.keyword?_eq_some_iff.mp own).imp fun _ spelled => spelled.1
    rw [scansAsWord_iff, Token.eq_ofWord_iff, and_iff_right_of_imp named]
  · rw [word, Keyword.ofWord?_eq_some_iff]
  · simp only [word, isKeyword_iff]

end JsonShape
