import JsonShape.Proofs.Source.Offsets
import JsonShape.Proofs.Source.Precedence

/-!
# The places of faults

Every fault of a source is placed on a boundary of it, where what the fault is about stands.

* `Fault.Located` says this of a fault; `LexicalCause.Shows` and `FaultCause.Parts` say what stands
  there.
* `located_of_mem_scan`: the faults of a scan are located, as are those that name a token of it
  (`located_of_token`) and those of its end (`located_of_finish`).
* `State.exists_lexeme_of_run_error`, `State.unfinished_cases`: a machine reports nothing else.
* `locations_on_boundaries` says of every source that all its locations are safe.
-/

namespace JsonShape

/-! ## Located faults -/

/-- What a lexical fault is about stands behind its place. -/
inductive LexicalCause.Shows : LexicalCause → List Char → Prop
  | unexpectedCharacter (c : Char) (rest : List Char) : Shows (.unexpectedCharacter c) (c :: rest)
  | unterminatedString (rest : List Char) : Shows .unterminatedString ('"' :: rest)
  | lineBreakInString (rest : List Char) : Shows .lineBreakInString ('\n' :: rest)
  | invalidEscape (e : Char) (rest : List Char) : Shows (.invalidEscape e) ('"' :: rest)
  | invalidNumber (text rest : List Char) :
    Shows (.invalidNumber (String.ofList text)) (text ++ rest)

/-- What a fault is about stands between the parts of its source: a lexical fault is in front of
what it shows, and a fault of the grammar in front of a token, or at the end. -/
inductive FaultCause.Parts (source before : List Char) : FaultCause → List Char → Prop
  | lexical {cause : LexicalCause} {rest : List Char} :
    cause.Shows rest → Parts source before (.lexical cause) rest
  | token {cause : GrammarCause} {rest : List Char} {lexeme : Lexeme} :
    .ok lexeme ∈ scan source → lexeme.start = Position.start.past before →
    (∀ expected found, cause = .unexpected expected found → found = some lexeme.token) →
    Parts source before (.grammar cause) rest
  | finish (expected : Expected) :
    Parts source before (.grammar (.unexpected expected none)) []

/-- A fault is placed on a boundary of its source, where what it is about stands. -/
structure Fault.LocatedBehind (source before : List Char) (fault : Fault) : Prop where
  boundary : Boundary source (byteLength before)
  location : Location.ofOffset? source (byteLength before) = some fault.place
  parts : ∃ rest, source = before ++ rest ∧ fault.cause.Parts source before rest

/-- A fault is placed on some boundary of its source. -/
def Fault.Located (source : List Char) (fault : Fault) : Prop :=
  ∃ before, fault.LocatedBehind source before

theorem located_of_parts {source before rest : List Char} {fault : Fault}
    (whole : source = before ++ rest) (place : fault.place = Location.start.past before)
    (parts : fault.cause.Parts source before rest) : fault.Located source := by
  refine ⟨before, boundary_iff.mpr ⟨before, rest, whole, rfl⟩, ?_, rest, whole, parts⟩
  rw [whole, Location.ofOffset?_byteLength, place]

theorem stringPiece_shows {text front : List Char} {cause : LexicalCause}
    (content : (stringPiece text).content = .error (cause, front)) :
    ∃ rest, '"' :: text = front ++ rest ∧ cause.Shows rest := by
  obtain ⟨ending, ends⟩ := exists_ends text
  rw [ends.content] at content
  cases ends with
  | closed => cases content
  | unknownEscape =>
    cases content
    exact ⟨_, rfl, .invalidEscape _ _⟩
  | lineBreak =>
    cases content
    exact ⟨_, rfl, .lineBreakInString _⟩
  | finish =>
    cases content
    exact ⟨_, rfl, .unterminatedString _⟩

/-- What a piece is a fault for stands in it. -/
theorem firstPiece_shows {c : Char} {text front : List Char} {cause : LexicalCause}
    (content : (firstPiece c text).content = .error (cause, front)) :
    ∃ rest, c :: text = front ++ rest ∧ cause.Shows rest := by
  unfold firstPiece at content
  split at content
  · next quote =>
    rw [quote]
    exact stringPiece_shows content
  · split at content
    · cases content
    · split at content
      · cases content
      · unfold numeralPiece at content
        split at content
        · next taken numeral behind found =>
          simp only [numeralContent] at content
          split at content
          · cases content
          · cases content
            exact ⟨_, (splitNumeral?_append found).symm, .invalidNumber taken behind⟩
        · cases content
          exact ⟨_, rfl, .unexpectedCharacter c text⟩

/-! ## Items of a source -/

section

variable {source : List Char} {fault : Fault}

theorem located_of_mem_scan (listed : .error fault ∈ scan source) : fault.Located source := by
  obtain ⟨stretches, scanned, _, all⟩ := exists_stands source
  rw [scanned] at listed
  obtain ⟨s, among, item⟩ := List.mem_map.mp listed
  obtain ⟨_, before, c, text, stands, cut⟩ := all s among
  unfold Stretch.item Piece.item at item
  split at item
  · cases item
  · next cause front content =>
    cases item
    rw [cut] at content
    obtain ⟨rest, split, shows⟩ := firstPiece_shows content
    have whole := stands.whole
    rw [cut, firstPiece_append, split, ← List.append_assoc] at whole
    refine located_of_parts whole ?_ (.lexical shows)
    rw [stands.start, ← Position.past_append]
    exact Position.toLocation_past .start _

theorem located_of_token {lexeme : Lexeme} (listed : .ok lexeme ∈ scan source)
    {cause : GrammarCause}
    (found : ∀ expected found, cause = .unexpected expected found → found = some lexeme.token) :
    (Fault.grammar lexeme.start.toLocation cause).Located source := by
  obtain ⟨stretches, scanned, _, all⟩ := exists_stands source
  have among := listed
  rw [scanned] at among
  obtain ⟨s, here, item⟩ := List.mem_map.mp among
  obtain ⟨_, before, _, _, stands, _⟩ := all s here
  have start : lexeme.start = Position.start.past before :=
    (Stretch.start_of_item item).trans stands.start
  refine located_of_parts stands.whole ?_ (.token listed start found)
  rw [start]
  exact Position.toLocation_past .start before

end

/-! ## Faults of machines -/

namespace State

variable {start last : State} (placeless : ∀ f, start.moved f [] = start) {lexemes : List Lexeme}

include placeless

/-- At the end, a machine reports the end, or a property that is listed twice at its name. -/
theorem unfinished_cases (run : start.run lexemes = .ok last) (finish : Location) :
    (∃ expected, last.unfinished finish = .grammar finish (.unexpected expected none)) ∨
      ∃ lexeme ∈ lexemes, ∃ name,
        last.unfinished finish = .grammar lexeme.start.toLocation (.duplicateProperty name) := by
  cases last with
  | property goal stack listed name place =>
    simp only [unfinished]
    split
    · next twice =>
      -- Any token behind the name would be refused at its place, so a token starts there; one that
      -- stands elsewhere is not the one.
      let other : Lexeme := ⟨.colon, ⟨place.advance '\n', 0⟩, .start⟩
      have refused : (property goal stack listed name place).step other =
          .error (.grammar place (.duplicateProperty name)) := by
        simp only [step, twice, if_true]
      have failed : start.run (lexemes ++ [other]) =
          .error (.grammar place (.duplicateProperty name)) := by
        rw [run_append_of_run run, run_cons, refused]
        rfl
      obtain ⟨lexeme, among, same⟩ := exists_place_of_run_error placeless failed
      rcases List.mem_append.mp among with own | added
      · exact .inr ⟨lexeme, own, name, congrArg (Fault.grammar · _) same⟩
      · obtain rfl := List.mem_singleton.mp added
        have lines := congrArg Location.line same
        simp [Fault.grammar, other, Location.advance] at lines
    · exact .inl ⟨_, rfl⟩
  | _ => exact .inl ⟨_, rfl⟩

end State

theorem located_of_finish (source : List Char) (expected : Expected) :
    (Fault.grammar (Location.start.past source) (.unexpected expected none)).Located source :=
  located_of_parts (List.append_nil source).symm rfl (.finish expected)

/-- A parser whose machine starts without a place reports located faults. -/
theorem Entry.located {α : Type} {parse : List Char → Except Fault α} {start : State}
    {answer? : State → Option α} (entry : Entry parse start answer?)
    (placeless : ∀ f, start.moved f [] = start) {source : List Char} {fault : Fault}
    (failed : parse source = .error fault) : fault.Located source := by
  rcases entry.parse_error failed with machine | lexical | ⟨lexemes, last, scanned, run, _, rfl⟩
  · obtain ⟨lexeme, listed, cause, rfl, found⟩ :=
      State.exists_lexeme_of_run_error placeless machine
    exact located_of_token (mem_scan_of_mem_lexemes listed) found
  · exact located_of_mem_scan (mem_scan_of_fault lexical)
  · rcases State.unfinished_cases placeless run (Location.start.past source) with
      ⟨expected, same⟩ | ⟨lexeme, listed, name, same⟩
    · rw [same]
      exact located_of_finish source expected
    · rw [same]
      refine located_of_token ?_ fun _ _ => nofun
      rw [scanned]
      exact List.mem_map_of_mem listed

/-- Every location that is computed is safe.  A source is scanned to its end without a cut or a
look-up inside a character, in the wrong order or behind the end: all its stretches can be read from
their offsets, and the end is a boundary, too.  Every fault that the scanner or one of the parsers
reports is placed on a boundary, in front of what it is about. -/
theorem locations_on_boundaries (source : List Char) :
    (∃ stretches, scan source = stretches.map Stretch.item ∧ Tiles .start source stretches ∧
      ∀ s ∈ stretches, s.Safe source) ∧
    (Boundary source (byteLength source) ∧
      Location.ofOffset? source (byteLength source) = some (Location.start.past source)) ∧
    (∀ fault, .error fault ∈ scan source → fault.Located source) ∧
    (∀ fault, tokenize source = .error fault → fault.Located source) ∧
    (∀ fault, parseDefinitions source = .error fault → fault.Located source) ∧
    ∀ fault, parseRule source = .error fault → fault.Located source := by
  refine ⟨exists_safe source, ⟨?_, ?_⟩, fun _ => located_of_mem_scan, fun fault refused => ?_,
    fun _ => entry_definitions.located fun _ => rfl, fun _ => entry_rule.located fun _ => rfl⟩
  · exact boundary_iff.mpr ⟨source, [], (List.append_nil source).symm, rfl⟩
  · have found := Location.ofOffset?_byteLength source []
    rwa [List.append_nil] at found
  · exact located_of_mem_scan (mem_scan_of_fault (tokenize_eq_error_iff.mp refused))

end JsonShape
