import JsonShape.Proofs.Source.Machine
import Mathlib.Data.List.Forall2

/-!
# The places of tokens

The parser's machine hands the places of its tokens on to its faults, and never looks at them.  So
over tokens that stand elsewhere it goes on as before, with the places of its faults changed in the
same way.

* `State.moved f earlier`: a machine with its places changed by `f`, and with complete definitions
  before its own.
* `State.step_moved` says this of one step and `State.run_moved` of a run, whatever the function.
* `State.exists_place_of_run_error`: as this holds of all functions, a machine makes no places up;
  a fault is reported where one of the tokens starts.
-/

namespace JsonShape

/-- A fault with its place changed by a function. -/
def Fault.moved (f : Location → Location) (fault : Fault) : Fault := ⟨f fault.place, fault.cause⟩

/-- An answer with the places of its faults changed by a function, and everything else by another
one. -/
def answerMoved {α β : Type} (f : Location → Location) (g : α → β) :
    Except Fault α → Except Fault β
  | .ok a => .ok (g a)
  | .error fault => .error (fault.moved f)

/-- The same token as another one, at a place that is changed by a function. -/
structure Lexeme.Moves (f : Location → Location) (lexeme other : Lexeme) : Prop where
  token : other.token = lexeme.token
  place : other.start.toLocation = f lexeme.start.toLocation

/-- A goal with complete definitions before its own. -/
def Goal.following (earlier : List Definition) : Goal → Goal
  | definition complete name => .definition (earlier ++ complete) name
  | lone => lone

/-- A machine with its places changed by a function, and with complete definitions before its
own. -/
def State.moved (f : Location → Location) (earlier : List Definition) : State → State
  | declaration complete => .declaration (earlier ++ complete)
  | typeName complete => .typeName (earlier ++ complete)
  | equalsSign complete name => .equalsSign (earlier ++ complete) name
  | typeExpression goal stack => .typeExpression (goal.following earlier) stack
  | enumerationBrace goal stack => .enumerationBrace (goal.following earlier) stack
  | enumeration goal stack brace members =>
    .enumeration (goal.following earlier) stack (f brace) members
  | properties goal stack listed => .properties (goal.following earlier) stack listed
  | property goal stack listed name place =>
    .property (goal.following earlier) stack listed name (f place)
  | finished rule => .finished rule

section

variable {f : Location → Location} (earlier : List Definition)

theorem answerMoved_bind {α β γ δ : Type} {g : α → β} {h : γ → δ} {own : α → Except Fault γ}
    {other : β → Except Fault δ} (same : ∀ a, other (g a) = answerMoved f h (own a))
    (answer : Except Fault α) :
    (answerMoved f g answer).bind other = answerMoved f h (answer.bind own) := by
  cases answer with
  | ok a => exact same a
  | error fault => rfl

theorem Lexeme.Moves.unexpected {lexeme other : Lexeme} (moves : lexeme.Moves f other)
    (expected : Expected) : other.unexpected expected = (lexeme.unexpected expected).moved f := by
  rw [Lexeme.unexpected, moves.token, moves.place]
  rfl

/-! ## Steps -/

namespace State

theorem afterRule_moved (goal : Goal) (stack : List OpenPattern) (rule : Rule) :
    (afterRule goal stack rule).moved f earlier =
      afterRule (goal.following earlier) stack rule := by
  cases stack with
  | cons inner outer => rfl
  | nil =>
    cases goal with
    | definition complete name => simp [afterRule, moved, Goal.following]
    | lone => rfl

variable {lexeme other : Lexeme} (moves : lexeme.Moves f other) (goal : Goal)
  (stack : List OpenPattern) (listed : List (Field Rule))

include moves

theorem stepTypeExpression_moved :
    stepTypeExpression (goal.following earlier) stack other =
      answerMoved f (moved f earlier) (stepTypeExpression goal stack lexeme) := by
  have complete (rule : Rule) : Except.ok (afterRule (goal.following earlier) stack rule) =
      answerMoved f (moved f earlier) (.ok (afterRule goal stack rule)) :=
    congrArg Except.ok (afterRule_moved earlier goal stack rule).symm
  unfold stepTypeExpression
  rw [moves.token]
  split
  · exact complete .array
  · exact complete .boolean
  · exact complete .number
  · exact complete .object
  · exact complete .string
  · exact complete (.booleanLiteral true)
  · exact complete (.booleanLiteral false)
  · exact complete (.numberLiteral _)
  · exact complete (.stringLiteral _)
  · rfl
  · split
    · rfl
    · rw [moves.place]
      rfl
  · rw [moves.unexpected]
    rfl

theorem stepEnumeration_moved (brace : Location) (members : List String) :
    stepEnumeration (goal.following earlier) stack (f brace) members other =
      answerMoved f (moved f earlier) (stepEnumeration goal stack brace members lexeme) := by
  unfold stepEnumeration
  rw [moves.token]
  split
  · split
    · rfl
    · exact congrArg Except.ok (afterRule_moved earlier goal stack _).symm
  · split
    · rfl
    · rw [moves.unexpected]
      rfl

theorem stepProperties_moved :
    stepProperties (goal.following earlier) stack listed other =
      answerMoved f (moved f earlier) (stepProperties goal stack listed lexeme) := by
  unfold stepProperties
  rw [moves.token]
  split
  · split
    · rw [moves.unexpected]
      rfl
    · exact congrArg Except.ok (afterRule_moved earlier goal stack _).symm
  · split
    · rw [moves.place]
      rfl
    · rw [moves.unexpected]
      rfl

/-- A machine steps over a token that stands elsewhere, and behind complete definitions, as it
steps over the token itself. -/
theorem step_moved (state : State) :
    (state.moved f earlier).step other = answerMoved f (moved f earlier) (state.step lexeme) := by
  cases state with
  | declaration | equalsSign =>
    rw [moved, step, step, moves.token, moves.unexpected]
    split
    · rfl
    · rfl
  | typeName complete =>
    rw [moved, step, step, moves.token, moves.unexpected]
    split
    · rfl
    · rfl
  | typeExpression goal stack => exact stepTypeExpression_moved earlier moves goal stack
  | enumerationBrace goal stack =>
    rw [moved, step, step, moves.token, moves.place, moves.unexpected]
    split
    · rfl
    · rfl
  | enumeration goal stack brace members =>
    exact stepEnumeration_moved earlier moves goal stack brace members
  | properties goal stack listed => exact stepProperties_moved earlier moves goal stack listed
  | property goal stack listed name place =>
    rw [moved, step, step, moves.token]
    split
    · rfl
    · split
      · rfl
      · exact stepProperties_moved earlier moves goal stack _
  | finished rule => exact congrArg Except.error (moves.unexpected _)

end State

/-! ## Runs -/

namespace State

theorem run_moved {lexemes others : List Lexeme}
    (moves : List.Forall₂ (Lexeme.Moves f) lexemes others) (state : State) :
    (state.moved f earlier).run others = answerMoved f (moved f earlier) (state.run lexemes) := by
  induction moves generalizing state with
  | nil => rfl
  | @cons lexeme other _ _ first _ ih =>
    rw [run_cons, run_cons, step_moved earlier first]
    exact answerMoved_bind ih (state.step lexeme)

theorem unfinished_moved (state : State) (finish : Location) :
    (state.moved f earlier).unfinished (f finish) = (state.unfinished finish).moved f := by
  cases state with
  | property goal stack listed name place =>
    simp only [moved, unfinished]
    split
    · rfl
    · rfl
  | _ => rfl

end State

end

/-- Tokens whose places a function leaves alone are moved to themselves. -/
theorem Lexeme.forall₂_moves_self {f : Location → Location} {lexemes : List Lexeme}
    (fixed : ∀ lexeme ∈ lexemes, f lexeme.start.toLocation = lexeme.start.toLocation) :
    List.Forall₂ (Lexeme.Moves f) lexemes lexemes :=
  List.forall₂_same.mpr fun lexeme listed => ⟨rfl, (fixed lexeme listed).symm⟩

open Classical in
/-- A machine makes no places up: from a state without places, a run reports its fault where one of
its tokens starts. -/
theorem State.exists_place_of_run_error {start : State} (placeless : ∀ f, start.moved f [] = start)
    {lexemes : List Lexeme} {fault : Fault} (failed : start.run lexemes = .error fault) :
    ∃ lexeme ∈ lexemes, fault.place = lexeme.start.toLocation := by
  by_contra elsewhere
  -- A function that changes all places but those where a token starts leaves the run as it is.
  let f (location : Location) : Location :=
    if ∃ lexeme ∈ lexemes, location = lexeme.start.toLocation then location
    else location.advance '\n'
  have fixed : ∀ lexeme ∈ lexemes, f lexeme.start.toLocation = lexeme.start.toLocation :=
    fun lexeme listed => if_pos ⟨lexeme, listed, rfl⟩
  have run := run_moved [] (Lexeme.forall₂_moves_self fixed) start
  rw [placeless, failed] at run
  have same : fault.place = f fault.place := congrArg Fault.place (Except.error.inj run)
  have moved : f fault.place = fault.place.advance '\n' := if_neg elsewhere
  have lines := congrArg Location.line (same.trans moved)
  simp [Location.advance] at lines

end JsonShape
