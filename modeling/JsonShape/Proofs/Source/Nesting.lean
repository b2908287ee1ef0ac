import JsonShape.Proofs.Registry.Reload
import JsonShape.Proofs.Source.Completion
import Mathlib

/-!
# The nesting limit

Definitions whose patterns nest too deep are refused at the first brace that opens one pattern too
many, and others are read.

* `Braces.after tokens` follows the braces of a token list: which of them are open behind it, and
  whether they belong to patterns or to enumerations.
* `State.Tracks` ties a machine to these braces.  Every step keeps it (`State.Tracks.step`), and so
  does every run, so the stack of a machine that wants a type expression is as long as there are
  open patterns.
* `run_typeExpression_beyond` and its siblings: on tokens that the grammar derives, a machine whose
  patterns nest too deep stops for that reason and no other.
* `parseDefinitions_nesting` puts these together.
-/

namespace JsonShape

open Grammar

/-! ## Braces of a token list -/

/-- What an open brace belongs to. -/
inductive Brace where
  | pattern
  | enumeration
  deriving DecidableEq

/-- The braces that are open behind some tokens, innermost first, and whether the last of these
tokens is the keyword `enumeration`, to which a brace right behind it belongs. -/
structure Braces where
  opened : List Brace
  enumerates : Bool

namespace Braces

/-- The braces behind one more token.  A closing brace closes the innermost one. -/
def step (braces : Braces) : Token → Braces
  | .leftBrace => ⟨(if braces.enumerates then .enumeration else .pattern) :: braces.opened, false⟩
  | .rightBrace => ⟨braces.opened.tail, false⟩
  | .keyword .enumeration => ⟨braces.opened, true⟩
  | _ => ⟨braces.opened, false⟩

/-- The braces behind some tokens. -/
def after (tokens : List Token) : Braces := tokens.foldl step ⟨[], false⟩

/-- The number of patterns that are open. -/
def patterns (braces : Braces) : Nat := braces.opened.count .pattern

end Braces

/-- Behind some tokens, a token opens a pattern inside so many others, or inside more. -/
structure OpensInside (outer : Nat) (earlier : List Token) (token : Token) : Prop where
  brace : token = .leftBrace
  pattern : (Braces.after earlier).enumerates = false
  deep : outer ≤ (Braces.after earlier).patterns

/-- The first of some tokens that opens a pattern inside so many others. -/
def FirstInside (outer : Nat) (lexemes : List Lexeme) (brace : Lexeme) : Prop :=
  ∃ earlier later, lexemes = earlier ++ brace :: later ∧
    OpensInside outer (earlier.map Lexeme.token) brace.token ∧
    ∀ front other behind, earlier = front ++ other :: behind →
      ¬OpensInside outer (front.map Lexeme.token) other.token

/-! ## Braces of the grammar -/

/-- A token that is no brace opens and closes none. -/
theorem opened_step_of_word {token : Token} {name : String} (word : Word token name)
    (braces : Braces) : (braces.step token).opened = braces.opened := by
  cases word with
  | identifier | string => rfl
  | keyword k => cases k <;> rfl

theorem opened_of_words {tokens : List Token} {names : List String} (words : Words tokens names)
    (braces : Braces) : (tokens.foldl Braces.step braces).opened = braces.opened := by
  induction words generalizing braces with
  | nil => rfl
  | cons word _ ih => rw [List.foldl_cons, ih, opened_step_of_word word]

mutual

/-- Behind a whole type expression the same braces are open as in front of it. -/
theorem opened_of_typeExpression {tokens : List Token} {rule : Rule} :
    TypeExpression tokens rule → ∀ braces : Braces, braces.enumerates = false →
      (tokens.foldl Braces.step braces).opened = braces.opened
  | .array, _, _ | .boolean, _, _ | .number, _, _ | .object, _, _ | .string, _, _ | .truth, _, _
  | .falsity, _, _ | .numberLiteral _, _, _ | .stringLiteral _, _, _ => rfl
  | .enumeration words _, braces, _ => by
    have inside := opened_of_words words ((braces.step (.keyword .enumeration)).step .leftBrace)
    simp only [List.foldl_cons, List.foldl_append, List.foldl_nil]
    simp only [Braces.step] at inside ⊢
    rw [inside]
    rfl
  | .pattern properties _ _, braces, _ => by
    have inside := opened_of_properties properties (braces.step .leftBrace)
    simp only [List.foldl_cons, List.foldl_append, List.foldl_nil]
    simp only [Braces.step] at inside ⊢
    rw [inside]
    rfl

theorem opened_of_properties {tokens : List Token} {fields : List (Field Rule)} :
    Properties tokens fields → ∀ braces : Braces,
      (tokens.foldl Braces.step braces).opened = braces.opened
  | .nil, _ => rfl
  | .untyped word more, braces => by
    rw [List.foldl_cons, opened_of_properties more, opened_step_of_word word]
  | .typed word own more, braces => by
    rw [List.foldl_cons, List.foldl_cons, List.foldl_append, opened_of_properties more,
      opened_of_typeExpression own _ rfl]
    exact opened_step_of_word word braces

end

/-! ## Braces of a machine -/

namespace State

/-- The braces of the patterns of a stack. -/
def openPatterns (stack : List OpenPattern) : List Brace := List.replicate stack.length .pattern

/-- The braces that are open where a machine stands. -/
def opened : State → List Brace
  | declaration _ | typeName _ | equalsSign _ _ | finished _ => []
  | typeExpression _ stack | enumerationBrace _ stack => openPatterns stack
  | enumeration _ stack _ _ => .enumeration :: openPatterns stack
  | properties _ stack _ | property _ stack _ _ _ => .pattern :: openPatterns stack

/-- A machine has the same braces open as a token list.  Where it goes on with a brace, it knows
whether this one belongs to an enumeration. -/
structure Tracks (state : State) (braces : Braces) : Prop where
  opened : braces.opened = state.opened
  pattern : ∀ goal stack, state = .typeExpression goal stack → braces.enumerates = false
  enumeration : ∀ goal stack, state = .enumerationBrace goal stack → braces.enumerates = true

theorem opened_afterRule (goal : Goal) (stack : List OpenPattern) (rule : Rule) :
    (afterRule goal stack rule).opened = openPatterns stack := by
  cases stack with
  | nil => cases goal <;> rfl
  | cons inner outer => rfl

/-- Behind a complete type expression. -/
theorem tracks_afterRule {goal : Goal} {stack : List OpenPattern} {rule : Rule} {braces : Braces}
    (opened : braces.opened = openPatterns stack) : (afterRule goal stack rule).Tracks braces where
  opened := by rw [opened, opened_afterRule]
  pattern := by
    cases stack with
    | nil => cases goal <;> nofun
    | cons inner outer => nofun
  enumeration := by
    cases stack with
    | nil => cases goal <;> nofun
    | cons inner outer => nofun

section

variable {goal : Goal} {stack : List OpenPattern} {listed : List (Field Rule)} {lexeme : Lexeme}
  {next : State} {braces : Braces}

theorem Tracks.step_typeExpression (tracks : (typeExpression goal stack).Tracks braces)
    (step : (typeExpression goal stack).step lexeme = .ok next) :
    next.Tracks (braces.step lexeme.token) := by
  have pattern := tracks.pattern goal stack rfl
  rcases step_typeExpression_ok step with ⟨rule, derived, _, rfl⟩ | ⟨token, rfl⟩ | ⟨token, _, rfl⟩
  · exact tracks_afterRule ((opened_of_typeExpression derived braces pattern).trans tracks.opened)
  · rw [token]
    exact ⟨tracks.opened, nofun, fun _ _ _ => rfl⟩
  · rw [token]
    refine ⟨?_, nofun, nofun⟩
    simp only [Braces.step, pattern, tracks.opened, Bool.false_eq_true, if_false]
    rfl

theorem Tracks.step_properties
    (opened : braces.opened = .pattern :: openPatterns stack)
    (step : (properties goal stack listed).step lexeme = .ok next) :
    next.Tracks (braces.step lexeme.token) := by
  rcases step_properties_ok step with ⟨close, _, rfl⟩ | ⟨name, word, rfl⟩
  · rw [close]
    refine tracks_afterRule ?_
    simp only [Braces.step, opened, List.tail_cons]
  · refine ⟨?_, nofun, nofun⟩
    rw [opened_step_of_word word, opened]
    rfl

/-- Each step keeps track of the open braces. -/
theorem Tracks.step {state : State} (tracks : state.Tracks braces)
    (step : state.step lexeme = .ok next) : next.Tracks (braces.step lexeme.token) := by
  have opened := tracks.opened
  cases state with
  | declaration complete =>
    obtain ⟨token, rfl⟩ := step_declaration_ok step
    rw [token]
    exact ⟨opened, fun _ _ _ => rfl, nofun⟩
  | typeName complete =>
    obtain ⟨name, token, rfl⟩ := step_typeName_ok step
    rw [token]
    exact ⟨opened, nofun, nofun⟩
  | equalsSign complete name =>
    obtain ⟨token, rfl⟩ := step_equalsSign_ok step
    rw [token]
    exact ⟨opened, fun _ _ _ => rfl, nofun⟩
  | typeExpression goal stack => exact tracks.step_typeExpression step
  | enumerationBrace goal stack =>
    have enumeration := tracks.enumeration goal stack rfl
    obtain ⟨token, rfl⟩ := step_enumerationBrace_ok step
    rw [token]
    refine ⟨?_, nofun, nofun⟩
    simp only [Braces.step, enumeration, opened, State.opened, if_true]
  | enumeration goal stack brace members =>
    rcases step_enumeration_ok step with ⟨close, _, rfl⟩ | ⟨name, word, rfl⟩
    · rw [close]
      refine tracks_afterRule ?_
      simp only [Braces.step, opened, State.opened, List.tail_cons]
    · refine ⟨?_, nofun, nofun⟩
      rw [opened_step_of_word word, opened]
      rfl
  | properties goal stack listed => exact .step_properties opened step
  | property goal stack listed name place =>
    obtain ⟨_, ⟨colon, rfl⟩ | step⟩ := step_property_ok step
    · rw [colon]
      exact ⟨opened, fun _ _ _ => rfl, nofun⟩
    · exact .step_properties opened step
  | finished rule => cases step

/-- A whole run keeps track of the open braces. -/
theorem Tracks.run {state last : State} (tracks : state.Tracks braces) {lexemes : List Lexeme}
    (run : state.run lexemes = .ok last) :
    last.Tracks ((lexemes.map Lexeme.token).foldl Braces.step braces) := by
  induction lexemes generalizing state braces with
  | nil =>
    cases run
    exact tracks
  | cons lexeme rest ih =>
    obtain ⟨next, first, others⟩ := run_cons_ok run
    exact ih (tracks.step first) others

end

/-- A machine that starts between definitions tracks the braces of the tokens that it has read. -/
theorem tracks_after {complete : List Definition} {lexemes : List Lexeme} {last : State}
    (run : (declaration complete).run lexemes = .ok last) :
    last.Tracks (Braces.after (lexemes.map Lexeme.token)) := by
  have start : (declaration complete).Tracks ⟨[], false⟩ := ⟨rfl, nofun, nofun⟩
  exact start.run run

/-- A machine that wants a type expression has its patterns open, and nothing else. -/
theorem Tracks.patterns_eq {goal : Goal} {stack : List OpenPattern} {braces : Braces}
    (tracks : (typeExpression goal stack).Tracks braces) : braces.patterns = stack.length := by
  rw [Braces.patterns, tracks.opened]
  exact List.count_replicate_self

/-- A machine passes no brace that opens a pattern too many. -/
theorem Tracks.not_opensInside {state next : State} {earlier : List Token} {lexeme : Lexeme}
    (tracks : state.Tracks (Braces.after earlier)) (step : state.step lexeme = .ok next) :
    ¬OpensInside Rule.maxNesting earlier lexeme.token := by
  rintro ⟨brace, pattern, deep⟩
  cases state with
  | typeExpression goal stack =>
    rcases step_typeExpression_ok step with ⟨rule, derived, _, _⟩ | ⟨token, _⟩ | ⟨_, room, _⟩
    · generalize whole : [lexeme.token] = tokens at derived
      rw [brace] at whole
      cases derived with
      | enumeration | pattern => simp at whole
      | _ => cases whole
    · rw [brace] at token
      cases token
    · rw [tracks.patterns_eq] at deep
      omega
  | enumerationBrace goal stack =>
    rw [tracks.enumeration goal stack rfl] at pattern
    cases pattern
  | property goal stack listed name place =>
    obtain ⟨_, ⟨colon, _⟩ | step⟩ := step_property_ok step
    · rw [brace] at colon
      cases colon
    · simp [State.step, stepProperties, brace, Token.name?, Token.keyword?] at step
  | _ =>
    simp [State.step, stepEnumeration, stepProperties, brace, Token.name?, Token.keyword?] at step

end State

/-! ## Patterns that nest too deep -/

namespace State

/-- A run stops at a brace that opens a pattern too many. -/
def StopsTooDeep (state : State) (lexemes : List Lexeme) : Prop :=
  ∃ place, state.run lexemes = .error (.grammar place (.nestingTooDeep Rule.maxNesting))

/-- What stops a run stops it in front of more tokens, too. -/
theorem StopsTooDeep.append {state : State} {lexemes : List Lexeme}
    (stops : state.StopsTooDeep lexemes) (rest : List Lexeme) :
    state.StopsTooDeep (lexemes ++ rest) := by
  obtain ⟨place, failed⟩ := stops
  refine ⟨place, ?_⟩
  rw [run_append, failed]
  rfl

/-- A run that stops too deep stops at a brace, inside as many patterns as may be open. -/
theorem StopsTooDeep.exists_brace {state : State} {lexemes : List Lexeme}
    (stops : state.StopsTooDeep lexemes) :
    ∃ earlier brace later goal stack, lexemes = earlier ++ brace :: later ∧
      state.run earlier = .ok (.typeExpression goal stack) ∧ brace.token = .leftBrace ∧
        Rule.maxNesting ≤ stack.length ∧
        state.run lexemes = .error
          (.grammar brace.start.toLocation (.nestingTooDeep Rule.maxNesting)) := by
  obtain ⟨place, failed⟩ := stops
  obtain ⟨earlier, brace, later, last, split, run, refused⟩ := run_error failed
  generalize same : Fault.grammar place (.nestingTooDeep Rule.maxNesting) = fault
    at failed refused
  cases step_error refused with
  | @nestingTooDeep goal stack _ token full =>
    exact ⟨earlier, brace, later, goal, stack, split, run, token, full, failed⟩
  | unexpected | emptyEnumeration | duplicateProperty => cases same

end State

mutual

/-- A machine that wants a type expression stops at a pattern that nests too deep. -/
theorem run_typeExpression_beyond {tokens : List Token} {rule : Rule} :
    TypeExpression tokens rule → ∀ {lexemes : List Lexeme}, lexemes.map Lexeme.token = tokens →
      ∀ (goal : Goal) (stack : List OpenPattern), stack.length ≤ Rule.maxNesting →
        Rule.maxNesting < stack.length + rule.nesting →
        (State.typeExpression goal stack).StopsTooDeep lexemes
  | .array, _, _, _, _, room, deep | .boolean, _, _, _, _, room, deep
  | .number, _, _, _, _, room, deep | .object, _, _, _, _, room, deep
  | .string, _, _, _, _, room, deep | .truth, _, _, _, _, room, deep
  | .falsity, _, _, _, _, room, deep | .numberLiteral _, _, _, _, _, room, deep
  | .stringLiteral _, _, _, _, _, room, deep | .enumeration _ _, _, _, _, _, room, deep => by
    simp only [Rule.nesting] at deep
    omega
  | .pattern properties nonempty nodup, lexemes, same, goal, stack, room, deep => by
    obtain ⟨brace, tail, rfl, first, sameTail⟩ := List.map_eq_cons_iff.mp same
    obtain ⟨inner, last, rfl, sameInner, closed⟩ := List.map_eq_append_iff.mp sameTail
    obtain ⟨close, rfl, closing⟩ := List.map_eq_singleton_iff.mp closed
    simp only [Rule.nesting] at deep
    by_cases last : stack.length < Rule.maxNesting
    · have opened : (State.typeExpression goal stack).step brace =
          .ok (.properties goal stack []) := by
        simp only [State.step, State.stepTypeExpression, first, if_pos last]
      obtain ⟨place, failed⟩ := run_properties_beyond properties sameInner goal stack [] nodup last
        (by omega) closing []
      exact ⟨place, by rw [State.run_cons_of_step opened, failed]⟩
    · refine ⟨brace.start.toLocation, ?_⟩
      rw [State.run_cons]
      simp only [State.step, State.stepTypeExpression, first, if_neg last]
      rfl

/-- A machine among the properties of a pattern stops at one of them that nests too deep. -/
theorem run_properties_beyond {tokens : List Token} {fields : List (Field Rule)} :
    Properties tokens fields → ∀ {lexemes : List Lexeme}, lexemes.map Lexeme.token = tokens →
      ∀ (goal : Goal) (stack : List OpenPattern) (listed : List (Field Rule)),
        ((listed ++ fields).map Field.name).Nodup → stack.length < Rule.maxNesting →
        Rule.maxNesting < stack.length + 1 + Rule.nestingFields fields →
        ∀ {close : Lexeme}, close.token = .rightBrace → ∀ rest : List Lexeme,
          (State.properties goal stack listed).StopsTooDeep (lexemes ++ close :: rest)
  | .nil, _, _, _, stack, _, _, room, deep, _, _, _ => by
    simp only [Rule.nestingFields] at deep
    omega
  | @Properties.untyped _ name _ fields word more, lexemes, same, goal, stack, listed, nodup, room,
      deep, close, brace, rest => by
    obtain ⟨lexeme, others, rfl, rfl, sameOthers⟩ := List.map_eq_cons_iff.mp same
    have fresh := not_mem_of_nodup nodup
    rw [List.append_cons listed] at nodup
    simp only [Rule.nestingFields] at deep
    obtain ⟨place, failed⟩ :=
      run_properties_beyond more sameOthers goal stack _ nodup room deep brace rest
    refine ⟨place, ?_⟩
    rw [List.cons_append, State.run_cons_of_step (State.step_word word),
      run_property _ fresh rest more sameOthers brace, failed]
  | @Properties.typed _ name _ _ rule fields word own more, lexemes, same, goal, stack, listed,
      nodup, room, deep, close, brace, rest => by
    obtain ⟨lexeme, tail, rfl, rfl, sameTail⟩ := List.map_eq_cons_iff.mp same
    obtain ⟨colon, rules, rfl, second, sameRules⟩ := List.map_eq_cons_iff.mp sameTail
    obtain ⟨inner, others, rfl, sameInner, sameOthers⟩ := List.map_eq_append_iff.mp sameRules
    have fresh := not_mem_of_nodup nodup
    rw [List.append_cons listed] at nodup
    simp only [Rule.nestingFields] at deep
    -- The rule of this property nests too deep, or one of the properties behind it does.
    by_cases bounded : stack.length + 1 + rule.nesting ≤ Rule.maxNesting
    · have read := run_typeExpression own sameInner goal (⟨listed, name⟩ :: stack) bounded
      obtain ⟨place, failed⟩ :=
        run_properties_beyond more sameOthers goal stack _ nodup room (by omega) brace rest
      refine ⟨place, ?_⟩
      rw [List.cons_append, List.cons_append, List.append_assoc, State.run_typed word fresh second,
        State.run_append_of_run read]
      exact failed
    · have stops := run_typeExpression_beyond own sameInner goal (⟨listed, name⟩ :: stack) room
        (Nat.lt_of_not_le bounded)
      obtain ⟨place, failed⟩ := stops.append (others ++ close :: rest)
      refine ⟨place, ?_⟩
      rw [List.cons_append, List.cons_append, List.append_assoc, State.run_typed word fresh second,
        failed]

end

/-- A machine between definitions stops at one that nests too deep. -/
theorem run_definitions_beyond {tokens : List Token} {definitions : List Definition}
    (derived : Definitions tokens definitions) {lexemes : List Lexeme}
    (same : lexemes.map Lexeme.token = tokens) (deep : ¬Shallow definitions)
    (complete : List Definition) : (State.declaration complete).StopsTooDeep lexemes := by
  induction derived generalizing lexemes complete with
  | nil => exact absurd (fun _ listed => absurd listed List.not_mem_nil) deep
  | @cons name own tokens rule definitions derived _ ih =>
    obtain ⟨keyword, tail, rfl, first, sameTail⟩ := List.map_eq_cons_iff.mp same
    obtain ⟨identifier, tail, rfl, second, sameTail⟩ := List.map_eq_cons_iff.mp sameTail
    obtain ⟨equals, tail, rfl, third, sameTail⟩ := List.map_eq_cons_iff.mp sameTail
    obtain ⟨inner, others, rfl, sameInner, sameOthers⟩ := List.map_eq_append_iff.mp sameTail
    by_cases bounded : rule.nesting ≤ Rule.maxNesting
    · have later : ¬Shallow definitions := fun shallow =>
        deep (List.forall_mem_cons.mpr ⟨bounded, shallow⟩)
      have read := run_typeExpression derived sameInner (.definition complete name) []
        (by simpa using bounded)
      obtain ⟨place, failed⟩ := ih sameOthers later (complete ++ [(name, rule)])
      refine ⟨place, ?_⟩
      rw [State.run_head first second third, State.run_append_of_run read]
      exact failed
    · have stops := run_typeExpression_beyond derived sameInner (.definition complete name) []
        (Nat.zero_le _) (by simpa using bounded)
      obtain ⟨place, failed⟩ := stops.append others
      exact ⟨place, by rw [State.run_head first second third, failed]⟩

/-! ## The limit -/

theorem parseDefinitions_of_run_error {source : List Char} {lexemes : List Lexeme} {fault : Fault}
    (tokenized : tokenize source = .ok lexemes)
    (failed : (State.declaration []).run lexemes = .error fault) :
    parseDefinitions source = .error fault := by
  obtain ⟨_, rfl⟩ := tokenize_eq_ok_iff.mp tokenized
  rw [parseDefinitions, State.read, failed]
  rfl

/-- The nesting limit is exact.  A source whose tokens denote definitions, if not for the nesting of
their patterns, is read exactly if no pattern is inside as many others as may be open, which is to
say that none of its braces opens such a pattern; and otherwise it is refused at the first brace
that does.  Braces of enumerations do not count, and behind a type expression, however deep, there
are as many patterns open as in front of it. -/
theorem parseDefinitions_nesting {source : List Char} {lexemes : List Lexeme}
    {definitions : List Definition} (tokenized : tokenize source = .ok lexemes)
    (derived : Definitions (lexemes.map Lexeme.token) definitions) :
    (parseDefinitions source = .ok definitions ↔
      ∀ definition ∈ definitions, definition.2.nesting ≤ Rule.maxNesting) ∧
    ((∀ definition ∈ definitions, definition.2.nesting ≤ Rule.maxNesting) ↔
      ∀ earlier brace later, lexemes = earlier ++ brace :: later →
        ¬OpensInside Rule.maxNesting (earlier.map Lexeme.token) brace.token) ∧
    ((¬∀ definition ∈ definitions, definition.2.nesting ≤ Rule.maxNesting) →
      ∃ brace, FirstInside Rule.maxNesting lexemes brace ∧
        parseDefinitions source = .error
          (.grammar brace.start.toLocation (.nestingTooDeep Rule.maxNesting))) ∧
    ∀ earlier own rule, TypeExpression own rule → (Braces.after earlier).enumerates = false →
      (Braces.after (earlier ++ own)).patterns = (Braces.after earlier).patterns := by
  -- Where a run comes, it has passed no brace that opens a pattern too many.
  have passes {earlier : List Lexeme} {last : State}
      (run : (State.declaration []).run earlier = .ok last) {front behind : List Lexeme}
      {other : Lexeme} (split : earlier = front ++ other :: behind) :
      ¬OpensInside Rule.maxNesting (front.map Lexeme.token) other.token := by
    rw [split] at run
    obtain ⟨next, inFront, others⟩ := State.run_append_ok run
    obtain ⟨_, step, _⟩ := State.run_cons_ok others
    exact (State.tracks_after inFront).not_opensInside step
  have stops (deep : ¬Shallow definitions) :
      ∃ brace, FirstInside Rule.maxNesting lexemes brace ∧
        parseDefinitions source = .error
          (.grammar brace.start.toLocation (.nestingTooDeep Rule.maxNesting)) := by
    obtain ⟨earlier, brace, later, goal, stack, split, run, token, full, failed⟩ :=
      (run_definitions_beyond derived rfl deep []).exists_brace
    have tracks := State.tracks_after run
    have opens : OpensInside Rule.maxNesting (earlier.map Lexeme.token) brace.token :=
      ⟨token, tracks.pattern goal stack rfl, by rw [tracks.patterns_eq]; exact full⟩
    exact ⟨brace, ⟨earlier, later, split, opens, fun _ _ _ => passes run⟩,
      parseDefinitions_of_run_error tokenized failed⟩
  refine ⟨?_, ⟨fun shallow _ _ _ => ?_, fun none => ?_⟩, stops, ?_⟩
  · rw [parseDefinitions_eq_ok_iff]
    constructor
    · rintro ⟨found, same, run⟩
      exact (run_declaration_iff.mp run).2
    · intro shallow
      exact ⟨lexemes, tokenized, run_declaration_iff.mpr ⟨derived, shallow⟩⟩
  · exact passes (run_declaration_iff.mpr ⟨derived, shallow⟩)
  · by_contra deep
    obtain ⟨brace, ⟨earlier, later, split, opens, _⟩, _⟩ := stops deep
    exact none earlier brace later split opens
  · intro earlier own rule whole pattern
    have same := opened_of_typeExpression whole (Braces.after earlier) pattern
    rw [Braces.after, List.foldl_append]
    exact congrArg (List.count Brace.pattern) same

/-- Patterns inside each other. -/
def Rule.tower : Nat → Rule
  | 0 => .number
  | height + 1 => .pattern [⟨"a", some (tower height)⟩]

theorem Rule.nesting_tower (height : Nat) : (tower height).nesting = height := by
  induction height with
  | zero => rfl
  | succ height ih => simp [tower, nesting, nestingFields, ih]

theorem Rule.distinct_tower (height : Nat) : (tower height).Distinct := by
  induction height with
  | zero => trivial
  | succ height ih => simp [tower, Distinct, DistinctFields, ih]

/-- Two definitions, the first with as many patterns in each other as there may be, the second with
one more. -/
def towers : List Definition :=
  [("S", .tower Rule.maxNesting), ("T", .tower (Rule.maxNesting + 1))]

/-- The second definition is refused, at a brace inside as many open patterns as there may be. -/
theorem towers_refused :
    ∃ lexemes, tokenize (towers.flatMap Registry.definitionChars) = .ok lexemes ∧
      Definitions (lexemes.map Lexeme.token) towers ∧
      ∃ brace, FirstInside Rule.maxNesting lexemes brace ∧
        parseDefinitions (towers.flatMap Registry.definitionChars) = .error
          (.grammar brace.start.toLocation (.nestingTooDeep Rule.maxNesting)) := by
  have reads : Reads (towers.flatMap Registry.definitionChars)
      (towers.flatMap Registry.definitionTokens) :=
    Registry.reads_definition (by decide) (by decide)
      (Registry.reads_definition (by decide) (by decide) .nil)
  have derived : Definitions (towers.flatMap Registry.definitionTokens) towers :=
    .cons (Rule.derives_tokens _ (Rule.distinct_tower _))
      (.cons (Rule.derives_tokens _ (Rule.distinct_tower _)) .nil)
  obtain ⟨lexemes, tokenized, same⟩ := reads.tokenize
  rw [← same] at derived
  refine ⟨lexemes, tokenized, derived, (parseDefinitions_nesting tokenized derived).2.2.1 ?_⟩
  intro shallow
  have bound := shallow ("T", .tower (Rule.maxNesting + 1)) (by simp [towers])
  rw [Rule.nesting_tower] at bound
  omega

end JsonShape
