import JsonShape.Proofs.Source.Places
import JsonShape.Proofs.Source.Viability

/-!
# Lexical faults and faults of the grammar

A source with a lexical fault is accepted by no parser, and what a parser reports of it comes in
the order of the source: the first lexical fault, unless the grammar is violated in front of it.

* `before_of_scan`: the tokens in front of a fault start before the place of the fault, also of one
  that is placed behind its own start.
* `State.exists_lexeme_of_run_error`: a machine reports faults of the grammar that concern a token.
* `Entry.reports_in_order` says the result of both parsers, `parse_reports_in_order` of each.
-/

namespace JsonShape

/-! ## Places of faults -/

/-- A fault is placed where its stretch starts, or behind that. -/
theorem Stretch.place_of_item {stretch : Stretch} {fault : Fault}
    (item : stretch.item = .error fault) :
    fault.place = stretch.start.toLocation ∨ stretch.start.toLocation.Before fault.place := by
  unfold Stretch.item Piece.item at item
  split at item
  · cases item
  · next before _ =>
    cases item
    rw [Position.toLocation_past]
    cases before with
    | nil => exact .inl rfl
    | cons c more => exact .inr (Location.before_past _ (List.cons_ne_nil c more))

/-- The tokens in front of a fault start before its place. -/
theorem before_of_scan {source : List Char} {front : List Lexeme} {fault : Fault}
    {behind : List Item} (scanned : scan source = front.map .ok ++ .error fault :: behind)
    {lexeme : Lexeme} (listed : lexeme ∈ front) :
    lexeme.start.toLocation.Before fault.place := by
  obtain ⟨stretches, same, tiles, _⟩ := exists_tiles .start source
  have items : scan source = stretches.map Stretch.item := same
  rw [items] at scanned
  obtain ⟨earlier, others, rfl, ofEarlier, ofOthers⟩ := List.map_eq_append_iff.mp scanned
  obtain ⟨stretch, later, rfl, ofFault, _⟩ := List.map_eq_cons_iff.mp ofOthers
  have among : .ok lexeme ∈ earlier.map Stretch.item := by
    rw [ofEarlier]
    exact List.mem_map_of_mem listed
  obtain ⟨own, inFront, ofLexeme⟩ := List.mem_map.mp among
  have start : own.start.toLocation.Before stretch.start.toLocation :=
    (List.pairwise_append.mp tiles.starts_ordered).2.2 own inFront stretch List.mem_cons_self
  rw [Stretch.start_of_item ofLexeme]
  rcases Stretch.place_of_item ofFault with here | behind
  · rwa [here]
  · exact start.trans behind

/-! ## Reports -/

/-- A run that fails reports one of its tokens, and names this one if it is unexpected. -/
theorem State.exists_lexeme_of_run_error {start : State} (placeless : ∀ f, start.moved f [] = start)
    {lexemes : List Lexeme} {fault : Fault} (failed : start.run lexemes = .error fault) :
    ∃ lexeme ∈ lexemes, ∃ cause, fault = .grammar lexeme.start.toLocation cause ∧
      ∀ expected found, cause = .unexpected expected found → found = some lexeme.token := by
  obtain ⟨other, among, place⟩ := exists_place_of_run_error placeless failed
  obtain ⟨earlier, lexeme, later, last, rfl, _, refused⟩ := run_error failed
  have own : lexeme ∈ earlier ++ lexeme :: later :=
    List.mem_append_right _ List.mem_cons_self
  cases step_error refused with
  | unexpected expected _ =>
    refine ⟨lexeme, own, _, rfl, fun _ _ same => ?_⟩
    cases same
    rfl
  | nestingTooDeep => exact ⟨lexeme, own, _, rfl, fun _ _ => nofun⟩
  | emptyEnumeration | duplicateProperty =>
    exact ⟨other, among, _, congrArg (Fault.grammar · _) place, fun _ _ => nofun⟩

/-- A parser whose machine starts without a place refuses a source with a lexical fault.  It
reports that fault, or one of the grammar at a place before it. -/
theorem Entry.reports_in_order {α : Type} {parse : List Char → Except Fault α} {start : State}
    {answer? : State → Option α} (entry : Entry parse start answer?)
    (placeless : ∀ f, start.moved f [] = start) {source : List Char} {lexical : Fault}
    (refused : tokenize source = .error lexical) :
    ∃ fault, parse source = .error fault ∧
      (fault = lexical ∨
        ∃ cause, fault.cause = .grammar cause ∧ fault.place.Before lexical.place) ∧
      ∀ expected, fault.cause ≠ .grammar (.unexpected expected none) := by
  have stream := tokenize_eq_error_iff.mp refused
  obtain ⟨behind, whole, first⟩ := exists_items_eq_append (scan source)
  obtain ⟨others, rfl⟩ := List.head?_eq_some_iff.mp (first lexical stream)
  rw [entry.parse_eq, State.read, stream]
  cases run : start.run (TokenStream.ofSource source).lexemes with
  | error fault =>
    obtain ⟨lexeme, listed, cause, rfl, found⟩ := State.exists_lexeme_of_run_error placeless run
    have inFront := before_of_scan whole listed
    refine ⟨_, rfl, .inr ⟨cause, rfl, inFront⟩, fun expected same => ?_⟩
    cases found expected none (FaultCause.grammar.inj same)
  | ok last =>
    obtain ⟨cause, isLexical⟩ := lexical_of_mem_scan (mem_scan_of_fault stream)
    refine ⟨lexical, rfl, .inl rfl, fun expected same => ?_⟩
    rw [isLexical] at same
    cases same

/-- A source with a lexical fault is never accepted, neither as definitions nor as a rule, and
faults come in the order of the source.  The report is the first lexical fault itself, or one of
the grammar at a place strictly before it; it never says that the input has ended. -/
theorem parse_reports_in_order {source : List Char} {lexical : Fault}
    (refused : tokenize source = .error lexical) :
    (∃ fault, parseDefinitions source = .error fault ∧
      (fault = lexical ∨
        ∃ cause, fault.cause = .grammar cause ∧ fault.place.Before lexical.place) ∧
      ∀ expected, fault.cause ≠ .grammar (.unexpected expected none)) ∧
    ∃ fault, parseRule source = .error fault ∧
      (fault = lexical ∨
        ∃ cause, fault.cause = .grammar cause ∧ fault.place.Before lexical.place) ∧
      ∀ expected, fault.cause ≠ .grammar (.unexpected expected none) :=
  ⟨entry_definitions.reports_in_order (fun _ => rfl) refused,
    entry_rule.reports_in_order (fun _ => rfl) refused⟩

/-- Two definitions, of which the second is an empty enumeration, and a string that is not closed on
its line. -/
def brokenBehindEmpty : List Char :=
  "type A = array\ntype B = enumeration \x7b \x7d \"b\n".toList

/-- The empty enumeration is reported as it stands before the end of the string's line, and a lone
rule is refused as well. -/
theorem emptyEnumeration_before_lineBreak :
    tokenize brokenBehindEmpty = .error ⟨⟨2, 28⟩, .lexical .lineBreakInString⟩ ∧
      parseDefinitions brokenBehindEmpty = .error ⟨⟨2, 22⟩, .grammar .emptyEnumeration⟩ ∧
      Location.Before ⟨2, 22⟩ ⟨2, 28⟩ ∧ ∃ fault, parseRule brokenBehindEmpty = .error fault := by
  have refused : tokenize brokenBehindEmpty =
      .error ⟨⟨2, 28⟩, .lexical .lineBreakInString⟩ := by cbv
  have reported : parseDefinitions brokenBehindEmpty =
      .error ⟨⟨2, 22⟩, .grammar .emptyEnumeration⟩ := by cbv
  obtain ⟨⟨fault, same, order, _⟩, ⟨other, failed, _⟩⟩ := parse_reports_in_order refused
  rw [reported] at same
  cases same
  refine ⟨refused, reported, ?_, other, failed⟩
  rcases order with lexical | ⟨_, _, before⟩
  · cases lexical
  · exact before

end JsonShape
