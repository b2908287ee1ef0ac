import JsonShape.Proofs.Source.Parsing

/-!
# Ways on for the parser

From every state in which the parser has not yet met a fault there is a way to an accepted end, and
a token that cannot stand where it does is refused at once.

* `State.completion`: a short list of tokens that completes what a machine is reading;
  `State.completes_completion` says that it does.
* `State.Refuses`: the ways in which a machine refuses a token; `State.step_error` says that there
  are no others.
* `State.step_unexpected`, `State.unfinished_unexpected`: what a machine knows where it reports
  something unexpected.
* `State.isLone_run`: a machine keeps to what it has been asked to read.
-/

namespace JsonShape

open Grammar

namespace State

/-! ## Completions -/

/-- A state that may end the input: definitions, or the one type expression, are complete. -/
def IsComplete : State → Prop
  | declaration _ => True
  | finished _ => True
  | _ => False

/-- A property whose name has been read is not listed yet. -/
def IsFresh : State → Prop
  | property _ _ listed name _ => name ∉ listed.map Field.name
  | _ => True

/-- The braces that close the patterns of a stack. -/
def closing (stack : List OpenPattern) : List Token := List.replicate stack.length .rightBrace

/-- Tokens that complete what a machine is reading. -/
def completion : State → List Token
  | declaration _ => []
  | typeName _ => [.identifier "A", .equals, .keyword .array]
  | equalsSign _ _ => [.equals, .keyword .array]
  | typeExpression _ stack => .keyword .array :: closing stack
  | enumerationBrace _ stack => .leftBrace :: .keyword .array :: .rightBrace :: closing stack
  | enumeration _ stack _ _ => .keyword .array :: .rightBrace :: closing stack
  | properties _ stack [] => .keyword .array :: .rightBrace :: closing stack
  | properties _ stack (_ :: _) => .rightBrace :: closing stack
  | property _ stack _ _ _ => .rightBrace :: closing stack
  | finished _ => []

/-- A machine comes to a complete end over tokens, wherever they stand. -/
def Completes (state : State) (tokens : List Token) : Prop :=
  ∀ lexemes : List Lexeme, lexemes.map Lexeme.token = tokens →
    ∃ last, state.run lexemes = .ok last ∧ last.IsComplete

theorem completes_nil {state : State} (complete : state.IsComplete) : state.Completes [] := by
  intro lexemes same
  obtain rfl := List.map_eq_nil_iff.mp same
  exact ⟨state, rfl, complete⟩

theorem completes_cons {state : State} {token : Token} {tokens : List Token}
    (step : ∀ lexeme : Lexeme, lexeme.token = token →
      ∃ next, state.step lexeme = .ok next ∧ next.Completes tokens) :
    state.Completes (token :: tokens) := by
  intro lexemes same
  obtain ⟨lexeme, rest, rfl, first, others⟩ := List.map_eq_cons_iff.mp same
  obtain ⟨next, stepped, completes⟩ := step lexeme first
  rw [run_cons_of_step stepped]
  exact completes rest others

section

variable (goal : Goal) (stack : List OpenPattern)

/-- Behind a complete type expression, closing braces complete all open patterns. -/
theorem completes_afterRule (rule : Rule) :
    (afterRule goal stack rule).Completes (closing stack) := by
  induction stack generalizing rule with
  | nil => cases goal <;> exact completes_nil trivial
  | cons inner outer ih =>
    -- The rule becomes that of a property of the innermost pattern, which so is not empty.
    refine completes_cons fun lexeme close => ⟨_, step_properties_close ?_ close, ih _⟩
    exact List.concat_ne_nil _ _

theorem completes_typeExpression :
    (typeExpression goal stack).Completes (.keyword .array :: closing stack) := by
  refine completes_cons fun lexeme array => ⟨afterRule goal stack .array, ?_, ?_⟩
  · simp only [step, stepTypeExpression, array]
  · exact completes_afterRule goal stack .array

theorem completes_equalsSign (complete : List Definition) (name : String) :
    (equalsSign complete name).Completes [.equals, .keyword .array] := by
  refine completes_cons fun lexeme equals => ⟨typeExpression (.definition complete name) [], ?_, ?_⟩
  · simp only [step, equals, if_true]
  · exact completes_typeExpression _ []

/-- One more member, also one that is listed, and a brace complete an enumeration. -/
theorem completes_enumeration (brace : Location) (members : List String) :
    (enumeration goal stack brace members).Completes
      (.keyword .array :: .rightBrace :: closing stack) := by
  refine completes_cons fun lexeme array =>
    ⟨_, by simp only [step, stepEnumeration, array]; rfl, ?_⟩
  refine completes_cons fun close closed => ⟨_, step_enumeration_close ?_ closed, ?_⟩
  · split
    · next listed => exact List.ne_nil_of_mem listed
    · exact List.concat_ne_nil _ _
  · exact completes_afterRule goal stack _

theorem completes_properties {listed : List (Field Rule)} (nonempty : listed ≠ []) :
    (properties goal stack listed).Completes (.rightBrace :: closing stack) :=
  completes_cons fun _ close =>
    ⟨_, step_properties_close nonempty close, completes_afterRule goal stack _⟩

theorem completes_property {listed : List (Field Rule)} {name : String} (place : Location)
    (fresh : name ∉ listed.map Field.name) :
    (property goal stack listed name place).Completes (.rightBrace :: closing stack) := by
  refine completes_cons fun lexeme close =>
    ⟨afterRule goal stack (.pattern (listed ++ [⟨name, none⟩])), ?_, ?_⟩
  · rw [step_property fresh (by rw [close]; nofun)]
    exact step_properties_close (List.concat_ne_nil _ _) close
  · exact completes_afterRule goal stack _

end

/-- Its completion takes a machine to a complete end. -/
theorem completes_completion {state : State} (fresh : state.IsFresh) :
    state.Completes state.completion := by
  cases state with
  | declaration | finished => exact completes_nil trivial
  | typeName complete =>
    refine completes_cons fun lexeme named => ⟨equalsSign complete "A", ?_, ?_⟩
    · simp only [step, named]
    · exact completes_equalsSign complete "A"
  | equalsSign complete name => exact completes_equalsSign complete name
  | typeExpression goal stack => exact completes_typeExpression goal stack
  | enumerationBrace goal stack =>
    refine completes_cons fun lexeme brace => ⟨_, by simp only [step, brace, if_true]; rfl, ?_⟩
    exact completes_enumeration goal stack _ []
  | enumeration goal stack brace members => exact completes_enumeration goal stack brace members
  | properties goal stack listed =>
    cases listed with
    | nil =>
      refine completes_cons fun lexeme array => ?_
      have word : Word lexeme.token Keyword.array.word := by
        rw [array]
        exact .keyword .array
      exact ⟨_, step_word word, completes_property goal stack _ List.not_mem_nil⟩
    | cons field others => exact completes_properties goal stack (List.cons_ne_nil field others)
  | property goal stack listed name place => exact completes_property goal stack place fresh

/-! ## Faults -/

/-- A report of a token gives its place, and names it. -/
theorem eq_of_unexpected {lexeme : Lexeme} {place : Location} {wanted expected : Expected}
    {found : Option Token}
    (same : lexeme.unexpected wanted = .grammar place (.unexpected expected found)) :
    place = lexeme.start.toLocation ∧ found = some lexeme.token := by
  unfold Lexeme.unexpected Fault.grammar at same
  cases same
  exact ⟨rfl, rfl⟩

/-- The ways in which a machine refuses a token.  One that cannot stand where it does is reported
itself, and so is a brace that opens too many patterns; an enumeration without members is reported
at its brace, and a property that is listed twice at its name. -/
inductive Refuses : State → Lexeme → Fault → Prop
  | unexpected {state : State} {lexeme : Lexeme} (expected : Expected) :
    state.IsFresh → Refuses state lexeme (lexeme.unexpected expected)
  | nestingTooDeep {goal : Goal} {stack : List OpenPattern} {lexeme : Lexeme} :
    lexeme.token = .leftBrace → Rule.maxNesting ≤ stack.length →
    Refuses (.typeExpression goal stack) lexeme
      (.grammar lexeme.start.toLocation (.nestingTooDeep Rule.maxNesting))
  | emptyEnumeration {goal : Goal} {stack : List OpenPattern} {brace : Location}
      {lexeme : Lexeme} :
    lexeme.token = .rightBrace →
    Refuses (.enumeration goal stack brace []) lexeme (.grammar brace .emptyEnumeration)
  | duplicateProperty {goal : Goal} {stack : List OpenPattern} {listed : List (Field Rule)}
      {name : String} {place : Location} {lexeme : Lexeme} :
    name ∈ listed.map Field.name →
    Refuses (.property goal stack listed name place) lexeme
      (.grammar place (.duplicateProperty name))

section

variable {lexeme : Lexeme} {fault : Fault}

theorem stepTypeExpression_error {goal : Goal} {stack : List OpenPattern}
    (failed : stepTypeExpression goal stack lexeme = .error fault) :
    Refuses (.typeExpression goal stack) lexeme fault := by
  unfold stepTypeExpression at failed
  split at failed
  case h_11 brace =>
    split at failed
    · cases failed
    · next full =>
      cases failed
      exact .nestingTooDeep brace (Nat.le_of_not_lt full)
  case h_12 =>
    cases failed
    exact .unexpected _ trivial
  all_goals cases failed

theorem stepEnumeration_error {goal : Goal} {stack : List OpenPattern} {brace : Location}
    {members : List String} (failed : stepEnumeration goal stack brace members lexeme =
      .error fault) : Refuses (.enumeration goal stack brace members) lexeme fault := by
  unfold stepEnumeration at failed
  split at failed
  · next close =>
    split at failed
    · next empty =>
      obtain rfl := List.isEmpty_iff.mp empty
      cases failed
      exact .emptyEnumeration close
    · cases failed
  · split at failed
    · cases failed
    · cases failed
      exact .unexpected _ trivial

theorem stepProperties_error {goal : Goal} {stack : List OpenPattern}
    {listed : List (Field Rule)} (failed : stepProperties goal stack listed lexeme =
      .error fault) : ∃ expected, fault = lexeme.unexpected expected := by
  unfold stepProperties at failed
  split at failed
  · split at failed
    · cases failed
      exact ⟨_, rfl⟩
    · cases failed
  · split at failed
    · cases failed
    · cases failed
      exact ⟨_, rfl⟩

/-- A step that fails refuses its token in one of these ways. -/
theorem step_error {state : State} (failed : state.step lexeme = .error fault) :
    state.Refuses lexeme fault := by
  cases state with
  | declaration | equalsSign | enumerationBrace =>
    rw [step] at failed
    split at failed
    · cases failed
    · cases failed
      exact .unexpected _ trivial
  | typeName complete =>
    rw [step] at failed
    split at failed
    · cases failed
    · cases failed
      exact .unexpected _ trivial
  | typeExpression goal stack => exact stepTypeExpression_error failed
  | enumeration goal stack brace members => exact stepEnumeration_error failed
  | properties goal stack listed =>
    obtain ⟨expected, rfl⟩ := stepProperties_error failed
    exact .unexpected expected trivial
  | property goal stack listed name own =>
    rw [step] at failed
    split at failed
    · next repeated =>
      cases failed
      exact .duplicateProperty (by simpa [lists] using repeated)
    · next unlisted =>
      have fresh : name ∉ listed.map Field.name := lists_eq_false_iff.mp (by simpa using unlisted)
      split at failed
      · cases failed
      · obtain ⟨expected, rfl⟩ := stepProperties_error failed
        exact .unexpected expected fresh
  | finished rule =>
    cases failed
    exact .unexpected _ trivial

variable {place : Location} {expected : Expected} {found : Option Token}

/-- A machine that reports a token as unexpected stands right before it, and could have gone on. -/
theorem step_unexpected {state : State}
    (failed : state.step lexeme = .error (.grammar place (.unexpected expected found))) :
    (place = lexeme.start.toLocation ∧ found = some lexeme.token) ∧ state.IsFresh := by
  generalize same : Fault.grammar place (.unexpected expected found) = fault at failed
  cases step_error failed with
  | unexpected wanted fresh => exact ⟨eq_of_unexpected same.symm, fresh⟩
  | nestingTooDeep | emptyEnumeration | duplicateProperty => cases same

/-- A machine that reports the end as unexpected could have gone on. -/
theorem unfinished_unexpected {state : State} {finish : Location}
    (failed : state.unfinished finish = .grammar place (.unexpected expected found)) :
    (place = finish ∧ found = none) ∧ state.IsFresh := by
  cases state with
  | property goal stack listed name own =>
    simp only [unfinished] at failed
    split at failed
    · cases failed
    · next fresh =>
      cases failed
      exact ⟨⟨rfl, rfl⟩, lists_eq_false_iff.mp (by simpa using fresh)⟩
  | _ =>
    cases failed
    exact ⟨⟨rfl, rfl⟩, trivial⟩

end

/-- A run that fails does so at one of its tokens. -/
theorem run_error {state : State} {lexemes : List Lexeme} {fault : Fault}
    (failed : state.run lexemes = .error fault) :
    ∃ earlier lexeme later last, lexemes = earlier ++ lexeme :: later ∧
      state.run earlier = .ok last ∧ last.step lexeme = .error fault := by
  induction lexemes generalizing state with
  | nil => cases failed
  | cons lexeme rest ih =>
    rw [run_cons] at failed
    cases stepped : state.step lexeme with
    | error first =>
      rw [stepped] at failed
      cases failed
      exact ⟨[], lexeme, rest, state, rfl, rfl, stepped⟩
    | ok next =>
      rw [stepped] at failed
      obtain ⟨earlier, other, later, last, rfl, run, stop⟩ := ih failed
      refine ⟨lexeme :: earlier, other, later, last, rfl, ?_, stop⟩
      rw [run_cons_of_step stepped, run]

/-! ## What has been asked for -/

end State

/-- Whether a lone type expression has been asked for, and no definitions. -/
def Goal.isLone : Goal → Bool
  | definition _ _ => false
  | lone => true

/-- Whether a machine has been asked for a lone type expression. -/
def State.isLone : State → Bool
  | declaration _ | typeName _ | equalsSign _ _ => false
  | typeExpression goal _ | enumerationBrace goal _ | enumeration goal _ _ _
  | properties goal _ _ | property goal _ _ _ _ => goal.isLone
  | finished _ => true

namespace State

theorem isLone_afterRule (goal : Goal) (stack : List OpenPattern) (rule : Rule) :
    (afterRule goal stack rule).isLone = goal.isLone := by
  cases stack with
  | cons inner outer => rfl
  | nil => cases goal <;> rfl

theorem isLone_step_properties {goal : Goal} {stack : List OpenPattern}
    {listed : List (Field Rule)} {lexeme : Lexeme} {next : State}
    (step : (properties goal stack listed).step lexeme = .ok next) : next.isLone = goal.isLone := by
  rcases step_properties_ok step with ⟨_, _, rfl⟩ | ⟨name, _, rfl⟩
  · exact isLone_afterRule goal stack _
  · rfl

theorem isLone_step {state next : State} {lexeme : Lexeme} (step : state.step lexeme = .ok next) :
    next.isLone = state.isLone := by
  cases state with
  | declaration complete =>
    obtain ⟨_, rfl⟩ := step_declaration_ok step
    rfl
  | typeName complete =>
    obtain ⟨name, _, rfl⟩ := step_typeName_ok step
    rfl
  | equalsSign complete name =>
    obtain ⟨_, rfl⟩ := step_equalsSign_ok step
    rfl
  | enumerationBrace goal stack =>
    obtain ⟨_, rfl⟩ := step_enumerationBrace_ok step
    rfl
  | typeExpression goal stack =>
    rcases step_typeExpression_ok step with ⟨rule, _, _, rfl⟩ | ⟨_, rfl⟩ | ⟨_, _, rfl⟩
    · exact isLone_afterRule goal stack rule
    · rfl
    · rfl
  | enumeration goal stack brace members =>
    rcases step_enumeration_ok step with ⟨_, _, rfl⟩ | ⟨name, _, rfl⟩
    · exact isLone_afterRule goal stack _
    · rfl
  | properties goal stack listed => exact isLone_step_properties step
  | property goal stack listed name place =>
    obtain ⟨_, ⟨_, rfl⟩ | step⟩ := step_property_ok step
    · rfl
    · exact isLone_step_properties step
  | finished rule => cases step

/-- A machine keeps to what it has been asked for. -/
theorem isLone_run {state last : State} {lexemes : List Lexeme}
    (run : state.run lexemes = .ok last) : last.isLone = state.isLone := by
  induction lexemes generalizing state with
  | nil =>
    cases run
    rfl
  | cons lexeme rest ih =>
    obtain ⟨next, stepped, others⟩ := run_cons_ok run
    exact (ih others).trans (isLone_step stepped)

end State

end JsonShape
