import JsonShape.Proofs.Source.Places
import JsonShape.Proofs.Source.Seam
import JsonShape.Proofs.Source.Viability

/-!
# Layout between tokens

Blanks and comments that are put in where a token starts or ends change no token: a source is
tokenized as before, if also at other places, and both parsers say the same of it.

* `Spacing text`: blanks, and comments with the line feeds that end them.
* `withGaps gaps offset text`: a text with more text put in at some offsets.  Before the first gap
  it goes on as it did (`withGaps_front`), and no token goes on into a gap (`Spacing.severs`); so a
  token is the same piece in front of any gaps (`firstPiece_withGaps`).
* `scanFrom_withGaps` says of a scan, by induction, that gaps at the boundaries of its tokens move
  these tokens; `Entry.same_cause` says of a parser that only the tokens matter to it.
* `layout_irrelevant` puts them together.
-/

namespace JsonShape

/-! ## Spacing -/

/-- Blanks and comments in any order, where each comment has the line feed that ends it. -/
inductive Spacing : List Char → Prop
  | nil : Spacing []
  | blank {c : Char} {text : List Char} : isLayoutChar c = true → Spacing text → Spacing (c :: text)
  | comment {remark text : List Char} : '\n' ∉ remark → Spacing text →
    Spacing ('/' :: '/' :: (remark ++ '\n' :: text))

/-- A comment ends at the next line feed. -/
theorem splitLayout_remark {remark : List Char} (inLine : '\n' ∉ remark) (rest : List Char) :
    splitLayout true (remark ++ '\n' :: rest) =
      (remark ++ '\n' :: (splitLayout false rest).1, (splitLayout false rest).2) := by
  induction remark with
  | nil => rfl
  | cons c more ih =>
    obtain ⟨other, later⟩ := List.ne_and_not_mem_of_not_mem_cons inLine
    rw [List.cons_append, splitLayout, if_pos rfl, bne_iff_ne.mpr other.symm, ih later]
    rfl

theorem Severs.of_isLayoutChar {c : Char} (blank : isLayoutChar c = true) (rest : List Char) :
    Severs (c :: rest) := by
  simp only [isLayoutChar, Bool.or_eq_true, beq_iff_eq] at blank
  rcases blank with (((rfl | rfl) | rfl) | rfl) | rfl
  all_goals exact .cons rfl (by decide) (by decide) rest

namespace Spacing

variable {text other : List Char}

theorem append (first : Spacing text) (second : Spacing other) : Spacing (text ++ other) := by
  induction first with
  | nil => exact second
  | blank blank _ ih => exact .blank blank ih
  | comment inLine _ ih =>
    simp only [List.cons_append, List.append_assoc]
    exact .comment inLine ih

/-- Spacing in front of a text is split off with its layout. -/
theorem splitLayout_append (spacing : Spacing text) (rest : List Char) :
    splitLayout false (text ++ rest) =
      (text ++ (splitLayout false rest).1, (splitLayout false rest).2) := by
  induction spacing with
  | nil => rfl
  | blank blank _ ih =>
    rw [List.cons_append, splitLayout, if_neg Bool.false_ne_true, if_pos blank, ih]
    rfl
  | @comment remark more inLine _ ih =>
    have slashed : '\n' ∉ '/' :: remark := List.not_mem_cons_of_ne_of_not_mem (by decide) inLine
    have split := splitLayout_remark slashed (more ++ rest)
    rw [ih] at split
    simp only [List.cons_append, List.append_assoc] at split ⊢
    rw [splitLayout, if_neg Bool.false_ne_true, if_neg (by decide), if_pos ⟨rfl, rfl⟩, split]
    rfl

/-- No token goes on into spacing. -/
theorem severs (spacing : Spacing text) (nonempty : text ≠ []) (rest : List Char) :
    Severs (text ++ rest) := by
  cases spacing with
  | nil => exact absurd rfl nonempty
  | blank blank _ => exact .of_isLayoutChar blank _
  | comment _ _ => exact .cons rfl (by decide) (by decide) _

theorem of_feed (spacing : Spacing ('\n' :: text)) : Spacing text := by
  cases spacing with
  | blank _ more => exact more

end Spacing

/-- Layout in front of a character that is none is spacing. -/
theorem Layout.spacing {layout rest : List Char} (layouts : Layout layout rest) {c : Char}
    (shown : isLayoutChar c = false) (first : rest.head? = some c) : Spacing layout := by
  induction layouts with
  | nil => exact .nil
  | blank blank _ ih => exact .blank blank (ih first)
  | @comment remark text rest second inLine stop _ ih =>
    obtain ⟨d, others, rfl⟩ := List.exists_cons_of_ne_nil (l := remark) (by rintro rfl; cases second)
    cases Option.some.inj second
    cases text with
    | nil =>
      have feed : c = '\n' := stop c first
      rw [feed] at shown
      cases shown
    | cons e more =>
      obtain rfl : e = '\n' := stop e rfl
      exact .comment (List.not_mem_of_not_mem_cons inLine) (ih first).of_feed

theorem Spacing.of_split {text layout rest : List Char} {c : Char}
    (split : splitLayout false text = (layout, c :: rest)) : Spacing layout := by
  have layouts := (layout_of_split text).1
  rw [split] at layouts
  exact layouts.spacing (splitLayout_stop split).1 rfl

/-! ## Gaps -/

/-- A text that starts at a byte offset, with more text put in at some offsets. -/
def withGaps (gaps : Nat → List Char) (offset : Nat) : List Char → List Char
  | [] => gaps offset
  | c :: rest => gaps offset ++ c :: withGaps gaps (offset + c.utf8Size) rest

section Gaps

variable {gaps : Nat → List Char}

/-- Text without a gap in it is kept. -/
theorem withGaps_append {text : List Char} (nonempty : text ≠ []) {offset : Nat}
    (quiet : ∀ o, offset < o → o < offset + byteLength text → gaps o = []) (rest : List Char) :
    withGaps gaps offset (text ++ rest) =
      gaps offset ++ (text ++ withGaps gaps (offset + byteLength text) rest) := by
  induction text generalizing offset with
  | nil => exact absurd rfl nonempty
  | cons c more ih =>
    have size := c.utf8Size_pos
    rw [List.cons_append, withGaps, byteLength]
    rw [byteLength] at quiet
    cases more with
    | nil => rfl
    | cons d others =>
      have length := byteLength_pos (List.cons_ne_nil d others)
      have here : gaps (offset + c.utf8Size) = [] := quiet _ (by omega) (by omega)
      rw [ih (List.cons_ne_nil d others) fun o after before => quiet o (by omega) (by omega), here,
        Nat.add_assoc]
      rfl

/-- A text without a gap behind its start is kept. -/
theorem withGaps_of_quiet {offset : Nat} (quiet : ∀ o, offset < o → gaps o = [])
    (text : List Char) : withGaps gaps offset text = gaps offset ++ text := by
  cases text with
  | nil => exact (List.append_nil _).symm
  | cons c more =>
    have length := byteLength_pos (List.cons_ne_nil c more)
    have kept := withGaps_append (List.cons_ne_nil c more) (fun o after _ => quiet o after) []
    have stop : gaps (offset + byteLength (c :: more)) = [] := quiet _ (by omega)
    rwa [List.append_nil, withGaps, stop, List.append_nil] at kept

variable (spacing : ∀ offset, Spacing (gaps offset))

include spacing

/-- A text with gaps goes on as without, and then with something that no token goes on into. -/
theorem withGaps_front (offset : Nat) (text : List Char) :
    ∃ kept behind changed, text = kept ++ behind ∧ withGaps gaps offset text = kept ++ changed ∧
      Severs changed := by
  induction text generalizing offset with
  | nil =>
    refine ⟨[], [], gaps offset, rfl, rfl, ?_⟩
    by_cases empty : gaps offset = []
    · rw [empty]
      exact .nil
    · rw [← List.append_nil (gaps offset)]
      exact (spacing offset).severs empty []
  | cons c more ih =>
    by_cases empty : gaps offset = []
    · obtain ⟨kept, behind, changed, rfl, goesOn, severs⟩ := ih (offset + c.utf8Size)
      refine ⟨c :: kept, behind, changed, rfl, ?_, severs⟩
      rw [withGaps, empty, goesOn]
      rfl
    · exact ⟨[], c :: more, _, rfl, rfl, (spacing offset).severs empty _⟩

/-- A token is the same piece in front of any gaps. -/
theorem firstPiece_withGaps {c : Char} {rest taken behind : List Char} {token : Token}
    (piece : firstPiece c rest = ⟨taken, behind, .ok token⟩) (offset : Nat) :
    ∃ more, taken = c :: more ∧ firstPiece c (more ++ withGaps gaps offset behind) =
      ⟨taken, withGaps gaps offset behind, .ok token⟩ := by
  obtain ⟨kept, old, changed, rfl, goesOn, severs⟩ := withGaps_front spacing offset behind
  obtain ⟨more, rfl, before⟩ := firstPiece_before kept piece
  refine ⟨more, rfl, ?_⟩
  rw [goesOn, ← List.append_assoc, firstPiece_severed (by rw [before]) severs, before]
  rfl

end Gaps

/-! ## Scans -/

/-- Where a token starts or ends. -/
def IsBoundary (lexemes : List Lexeme) (offset : Nat) : Prop :=
  ∃ lexeme ∈ lexemes, offset = lexeme.start.offset ∨ offset = lexeme.stop.offset

theorem not_isBoundary_nil (offset : Nat) : ¬IsBoundary [] offset := by
  rintro ⟨_, listed, _⟩
  cases listed

theorem isBoundary_cons {lexeme : Lexeme} {lexemes : List Lexeme} {offset : Nat} :
    IsBoundary (lexeme :: lexemes) offset ↔
      (offset = lexeme.start.offset ∨ offset = lexeme.stop.offset) ∨ IsBoundary lexemes offset := by
  simp [IsBoundary]

/-- The same token of the same text, somewhere else. -/
structure Lexeme.Relocated (lexeme other : Lexeme) : Prop where
  token : other.token = lexeme.token
  text : ∃ text, lexeme.stop = lexeme.start.past text ∧ other.stop = other.start.past text

/-- Tokens start and end no earlier than the text that they are scanned from. -/
theorem IsBoundary.offset_le {position : Position} {text : List Char} {lexemes : List Lexeme}
    (clean : scanFrom position text = lexemes.map .ok) {offset : Nat}
    (boundary : IsBoundary lexemes offset) : position.offset ≤ offset := by
  obtain ⟨lexeme, listed, here⟩ := boundary
  obtain ⟨stretches, scanned, tiles, _⟩ := exists_tiles position text
  have among : .ok lexeme ∈ stretches.map Stretch.item := by
    rw [← scanned, clean]
    exact List.mem_map_of_mem listed
  obtain ⟨own, inside, ofLexeme⟩ := List.mem_map.mp among
  obtain ⟨before, _, start, _⟩ := tiles.exists_before inside
  have ordered := tiles.start_lt_stop inside
  rw [Stretch.start_of_item ofLexeme, Stretch.stop_of_item ofLexeme] at here
  have size := Position.offset_past position before
  rw [← start] at size
  omega

/-- A boundary that is not the start of the first token is no earlier than its stop. -/
theorem IsBoundary.stop_le {lexeme : Lexeme} {lexemes : List Lexeme} {behind : List Char}
    (later : scanFrom lexeme.stop behind = lexemes.map .ok) {offset : Nat}
    (boundary : IsBoundary (lexeme :: lexemes) offset) (elsewhere : offset ≠ lexeme.start.offset) :
    lexeme.stop.offset ≤ offset := by
  rcases isBoundary_cons.mp boundary with (start | stop) | other
  · exact absurd start elsewhere
  · exact Nat.le_of_eq stop.symm
  · exact other.offset_le later

/-- The first token of a text without fault is its first piece. -/
theorem exists_piece_of_clean {position : Position} {text layout rest : List Char} {c : Char}
    (split : splitLayout false text = (layout, c :: rest)) {lexemes : List Lexeme}
    (clean : scanFrom position text = lexemes.map .ok) :
    ∃ taken behind token others, firstPiece c rest = ⟨taken, behind, .ok token⟩ ∧
      lexemes =
        ⟨token, position.past layout, (position.past layout).past taken⟩ :: others ∧
      scanFrom ((position.past layout).past taken) behind = others.map .ok := by
  rw [scanFrom_of_split split] at clean
  obtain ⟨lexeme, others, rfl, first, later⟩ := List.map_eq_cons_iff.mp clean.symm
  have content := Piece.content_of_item first.symm
  rcases piece : firstPiece c rest with ⟨taken, behind, found⟩
  rw [piece] at first later content
  obtain rfl : found = .ok lexeme.token := content
  exact ⟨taken, behind, lexeme.token, others, rfl, congrArg (· :: others) (Except.ok.inj first),
    later.symm⟩

theorem ne_slash_of_content {c : Char} {rest : List Char} {token : Token}
    (content : (firstPiece c rest).content = .ok token) : c ≠ '/' := by
  rintro rfl
  cases content

section Scans

variable {gaps : Nat → List Char} (spacing : ∀ offset, Spacing (gaps offset))

include spacing

/-- Layout and a token, with gaps in front of both and behind, are spacing and the token. -/
theorem exists_spacing_withGaps {position : Position} {layout taken : List Char}
    (layouts : Spacing layout) (nonempty : taken ≠ [])
    (between : ∀ o, position.offset < o → o < (position.past layout).offset → gaps o = [])
    (within : ∀ o, (position.past layout).offset < o →
      o < ((position.past layout).past taken).offset → gaps o = []) (behind : List Char) :
    ∃ lead, Spacing lead ∧ withGaps gaps position.offset (layout ++ (taken ++ behind)) =
      lead ++ (taken ++ withGaps gaps ((position.past layout).past taken).offset behind) := by
  rw [Position.offset_past _ taken] at within ⊢
  have token := withGaps_append nonempty within behind
  by_cases empty : layout = []
  · rw [empty] at token ⊢
    exact ⟨_, spacing position.offset, token⟩
  · rw [Position.offset_past] at between
    have front := withGaps_append empty between (taken ++ behind)
    rw [← Position.offset_past, token] at front
    refine ⟨gaps position.offset ++ layout ++ gaps (position.past layout).offset,
      ((spacing _).append layouts).append (spacing _), ?_⟩
    rw [front]
    simp only [List.append_assoc]

/-- Behind spacing, a token is scanned as it is behind other layout, in front of any gaps. -/
theorem scanFrom_token {c : Char} {rest taken behind lead : List Char} {token : Token}
    (shown : isLayoutChar c = false) (piece : firstPiece c rest = ⟨taken, behind, .ok token⟩)
    (leads : Spacing lead) (offset : Nat) (other : Position) :
    scanFrom other (lead ++ (taken ++ withGaps gaps offset behind)) =
      .ok ⟨token, other.past lead, (other.past lead).past taken⟩ ::
        scanFrom ((other.past lead).past taken) (withGaps gaps offset behind) := by
  obtain ⟨more, rfl, same⟩ := firstPiece_withGaps spacing piece offset
  have notSlash : c ≠ '/' := ne_slash_of_content (by rw [piece])
  have front := leads.splitLayout_append (c :: (more ++ withGaps gaps offset behind))
  rw [splitLayout_of_shown shown fun slashes => notSlash slashes.1, List.append_nil] at front
  rw [List.cons_append, scanFrom_of_split front, same]
  rfl

/-- Gaps at the boundaries of tokens, and one where the text starts, move the tokens. -/
theorem scanFrom_withGaps {position : Position} {text : List Char} {lexemes : List Lexeme}
    (clean : scanFrom position text = lexemes.map .ok)
    (boundaries : ∀ o, position.offset < o → gaps o ≠ [] → IsBoundary lexemes o)
    (other : Position) :
    ∃ moved : List Lexeme, scanFrom other (withGaps gaps position.offset text) = moved.map .ok ∧
      List.Forall₂ Lexeme.Relocated lexemes moved := by
  induction position, text using scan_induction generalizing lexemes other with
  | @finish position text layout split =>
    rw [scanFrom_of_layout split] at clean
    obtain rfl := List.map_eq_nil_iff.mp clean.symm
    have quiet (o : Nat) (after : position.offset < o) : gaps o = [] := by
      by_contra gap
      exact not_isBoundary_nil o (boundaries o after gap)
    refine ⟨[], ?_, .nil⟩
    rw [withGaps_of_quiet quiet,
      scanFrom_past _ ((spacing position.offset).splitLayout_append text) other,
      scanFrom_of_layout split]
    rfl
  | @piece position text layout rest c split ih =>
    obtain ⟨taken, behind, token, others, piece, rfl, later⟩ := exists_piece_of_clean split clean
    have nonempty := firstPiece_taken_ne_nil c rest
    have whole : text = layout ++ (c :: rest) := by
      rw [← splitLayout_append false text, split]
    rw [← firstPiece_append c rest] at whole
    rw [piece] at nonempty whole ih
    have leads := Position.offset_past position layout
    have takes := Position.offset_past (position.past layout) taken
    have size := byteLength_pos nonempty
    -- Up to the end of the token, only its start may have a gap.
    have quiet (o : Nat) (after : position.offset < o) (elsewhere : o ≠ (position.past layout).offset)
        (before : o < ((position.past layout).past taken).offset) : gaps o = [] := by
      by_contra gap
      exact Nat.not_le_of_lt before ((boundaries o after gap).stop_le later elsewhere)
    obtain ⟨lead, spaced, front⟩ := exists_spacing_withGaps spacing (.of_split split) nonempty
      (fun o after before => quiet o after (Nat.ne_of_lt before) (by omega))
      (fun o after before => quiet o (by omega) (Nat.ne_of_gt after) before) behind
    have remaining (o : Nat) (after : ((position.past layout).past taken).offset < o)
        (gap : gaps o ≠ []) : IsBoundary others o := by
      rcases isBoundary_cons.mp (boundaries o (by omega) gap) with (start | stop) | boundary
      · dsimp only at start
        omega
      · exact absurd stop (Nat.ne_of_gt after)
      · exact boundary
    obtain ⟨moved, scanned, relocated⟩ := ih later remaining ((other.past lead).past taken)
    refine ⟨⟨token, other.past lead, (other.past lead).past taken⟩ :: moved, ?_,
      .cons ⟨rfl, taken, rfl, rfl⟩ relocated⟩
    rw [whole, front, scanFrom_token spacing (splitLayout_stop split).1 piece spaced, scanned]
    rfl

end Scans

/-! ## Parsers -/

/-- Tokens can all be moved to where the text starts. -/
theorem forall₂_moves_ofToken (lexemes : List Lexeme) :
    List.Forall₂ (Lexeme.Moves fun _ => .start) lexemes
      ((lexemes.map Lexeme.token).map Lexeme.ofToken) := by
  rw [List.map_map, List.forall₂_map_right_iff]
  exact List.forall₂_same.mpr fun lexeme _ => ⟨rfl, rfl⟩

/-- The answer of a machine that ends at a place, or its report of the end. -/
def State.conclude {α : Type} (answer? : State → Option α) (finish : Location) (last : State) :
    Except Fault α :=
  match answer? last with
  | some answer => .ok answer
  | none => .error (last.unfinished finish)

theorem mapError_cause_answerMoved {α : Type} (f : Location → Location) (answer : Except Fault α) :
    (answerMoved f id answer).mapError Fault.cause = answer.mapError Fault.cause := by
  cases answer with
  | ok _ => rfl
  | error _ => rfl

namespace Entry

variable {α : Type} {parse : List Char → Except Fault α} {start : State}
  {answer? : State → Option α} {source : List Char} {lexemes : List Lexeme}

/-- A parser over tokens that stand elsewhere says what it says of their source, with its places
changed in the same way. -/
theorem moved_parse (entry : Entry parse start answer?) {f : Location → Location}
    (placeless : start.moved f [] = start)
    (answers : ∀ last : State, answer? (last.moved f []) = answer? last)
    (tokenized : tokenize source = .ok lexemes) {others : List Lexeme}
    (moves : List.Forall₂ (Lexeme.Moves f) lexemes others) :
    answerMoved f id (parse source) =
      (start.run others).bind (State.conclude answer? (f (Location.start.past source))) := by
  obtain ⟨noFault, stream⟩ := tokenize_eq_ok_iff.mp tokenized
  have parsed : parse source =
      (start.run lexemes).bind (State.conclude answer? (Location.start.past source)) := by
    rw [entry.parse_eq, State.read, noFault, stream]
    cases start.run lexemes with
    | ok _ => rfl
    | error _ => rfl
  have concludes (last : State) :
      State.conclude answer? (f (Location.start.past source)) (last.moved f []) =
        answerMoved f id (State.conclude answer? (Location.start.past source) last) := by
    rw [State.conclude, State.conclude, answers, State.unfinished_moved]
    cases answer? last with
    | some _ => rfl
    | none => rfl
  have run := State.run_moved [] moves start
  rw [placeless] at run
  rw [parsed, run]
  exact (answerMoved_bind concludes (start.run lexemes)).symm

/-- What a parser says of a source without lexical fault depends on its tokens alone, up to the
places of faults. -/
theorem same_cause (entry : Entry parse start answer?)
    (placeless : ∀ f, start.moved f [] = start)
    (answers : ∀ f, ∀ last : State, answer? (last.moved f []) = answer? last)
    (tokenized : tokenize source = .ok lexemes) {other : List Char} {others : List Lexeme}
    (again : tokenize other = .ok others)
    (same : others.map Lexeme.token = lexemes.map Lexeme.token) :
    (parse other).mapError Fault.cause = (parse source).mapError Fault.cause := by
  have first := entry.moved_parse (placeless _) (answers _) tokenized
    (forall₂_moves_ofToken lexemes)
  have second := entry.moved_parse (placeless _) (answers _) again (forall₂_moves_ofToken others)
  rw [same, ← first] at second
  have causes := congrArg (Except.mapError Fault.cause) second
  rwa [mapError_cause_answerMoved, mapError_cause_answerMoved] at causes

end Entry

/-- The same tokens of the same texts are the same tokens. -/
theorem map_token_of_relocated {lexemes moved : List Lexeme}
    (relocated : List.Forall₂ Lexeme.Relocated lexemes moved) :
    moved.map Lexeme.token = lexemes.map Lexeme.token := by
  induction relocated with
  | nil => rfl
  | cons first _ ih => rw [List.map_cons, List.map_cons, first.token, ih]

/-- Layout is irrelevant.  Blanks and comments put in where tokens of a source start or end move its
tokens and change nothing about them; both parsers give the same answer, or report the same fault
up to its place. -/
theorem layout_irrelevant {source : List Char} {lexemes : List Lexeme}
    (tokenized : tokenize source = .ok lexemes) {gaps : Nat → List Char}
    (spacing : ∀ offset, Spacing (gaps offset))
    (boundaries : ∀ offset, gaps offset ≠ [] → IsBoundary lexemes offset) :
    (∃ moved, tokenize (withGaps gaps 0 source) = .ok moved ∧
      List.Forall₂ Lexeme.Relocated lexemes moved) ∧
    (parseDefinitions (withGaps gaps 0 source)).mapError Fault.cause =
      (parseDefinitions source).mapError Fault.cause ∧
    (parseRule (withGaps gaps 0 source)).mapError Fault.cause =
      (parseRule source).mapError Fault.cause := by
  obtain ⟨moved, scanned, relocated⟩ := scanFrom_withGaps spacing
    (scan_eq_of_tokenize tokenized) (fun o _ gap => boundaries o gap) .start
  have again : tokenize (withGaps gaps 0 source) = .ok moved := tokenize_of_scan scanned
  have same := map_token_of_relocated relocated
  exact ⟨⟨moved, again, relocated⟩,
    entry_definitions.same_cause (fun _ => rfl) (fun _ last => by cases last <;> rfl) tokenized
      again same,
    entry_rule.same_cause (fun _ => rfl) (fun _ last => by cases last <;> rfl) tokenized
      again same⟩

/-- A number, and right behind it a name that could begin an exponent. -/
def touching : List Char := "\x7ba:1e\x7d".toList

/-- A blank and a comment behind the number. -/
def remarkBehindNumber (offset : Nat) : List Char := if offset = 4 then " //5\n".toList else []

/-- The number and the name are read as before with a comment between them that could go on with the
exponent, and the source is the same rule. -/
theorem touching_apart :
    withGaps remarkBehindNumber 0 touching = "\x7ba:1 //5\ne\x7d".toList ∧
      (∃ lexemes, tokenize "\x7ba:1 //5\ne\x7d".toList = .ok lexemes ∧ lexemes.map Lexeme.token =
        [.leftBrace, .identifier "a", .colon, .number (.integer 1 (by decide)), .identifier "e",
          .rightBrace]) ∧
      (parseRule "\x7ba:1 //5\ne\x7d".toList).mapError Fault.cause =
        .ok (.pattern [⟨"a", some (.numberLiteral (.integer 1 (by decide)))⟩, ⟨"e", none⟩]) := by
  have tokenized : tokenize touching = .ok
      [⟨.leftBrace, ⟨⟨1, 1⟩, 0⟩, ⟨⟨1, 2⟩, 1⟩⟩, ⟨.identifier "a", ⟨⟨1, 2⟩, 1⟩, ⟨⟨1, 3⟩, 2⟩⟩,
        ⟨.colon, ⟨⟨1, 3⟩, 2⟩, ⟨⟨1, 4⟩, 3⟩⟩,
        ⟨.number (.integer 1 (by decide)), ⟨⟨1, 4⟩, 3⟩, ⟨⟨1, 5⟩, 4⟩⟩,
        ⟨.identifier "e", ⟨⟨1, 5⟩, 4⟩, ⟨⟨1, 6⟩, 5⟩⟩, ⟨.rightBrace, ⟨⟨1, 6⟩, 5⟩, ⟨⟨1, 7⟩, 6⟩⟩] := by
    cbv
  have parsed : parseRule touching =
      .ok (.pattern [⟨"a", some (.numberLiteral (.integer 1 (by decide)))⟩, ⟨"e", none⟩]) := by
    cbv
  have spaced : withGaps remarkBehindNumber 0 touching = "\x7ba:1 //5\ne\x7d".toList := by decide
  have inLine : '\n' ∉ ['5'] := by decide
  have spacing (offset : Nat) : Spacing (remarkBehindNumber offset) := by
    unfold remarkBehindNumber
    split
    · exact .blank rfl (.comment inLine .nil)
    · exact .nil
  have behindNumber (offset : Nat) (gap : remarkBehindNumber offset ≠ []) : offset = 4 := by
    by_contra elsewhere
    exact gap (if_neg elsewhere)
  obtain ⟨⟨moved, again, relocated⟩, _, same⟩ := layout_irrelevant tokenized spacing
    fun offset gap => by simp [isBoundary_cons, behindNumber offset gap]
  rw [spaced] at again same
  rw [parsed] at same
  exact ⟨spaced, ⟨moved, again, map_token_of_relocated relocated⟩, same⟩

end JsonShape
