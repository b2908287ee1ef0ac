import JsonShape.Proofs.Source.Parsing
import JsonShape.Proofs.Source.Places
import JsonShape.Proofs.Source.Seam
import JsonShape.Proofs.Text.Position

/-!
# Sources behind sources

What the scanner and the parser make of a source that stands behind another one: the same as of
the source alone, with all places moved and with the definitions in front put before its own.

* `scanFrom_behind`: a text is scanned as before from a moved position.
* `State.run_following`: a machine that has complete definitions before its own goes over moved
  tokens as the machine without them goes over the tokens; so it reads token streams
  (`State.read_following`).
* `parseDefinitions_append_feed` puts this behind the seam of `scanFrom_append_feed`.
-/

namespace JsonShape

/-- A fault of a text as it is reported behind another text. -/
def Fault.behind (before : List Char) (fault : Fault) : Fault :=
  ⟨fault.place.behind before, fault.cause⟩

/-- A token of a text as it is read behind another text. -/
def Lexeme.behind (before : List Char) (lexeme : Lexeme) : Lexeme :=
  ⟨lexeme.token, lexeme.start.behind before, lexeme.stop.behind before⟩

/-- An answer for a text as it is given behind another text: a fault is moved, and everything else
is changed by a function. -/
def answerBehind {α β : Type} (before : List Char) (f : α → β) : Except Fault α → Except Fault β
  | .ok a => .ok (f a)
  | .error fault => .error (fault.behind before)

variable (before : List Char)

theorem answerBehind_bind {α β γ δ : Type} {f : α → β} {g : γ → δ}
    {own : α → Except Fault γ} {moved : β → Except Fault δ}
    (same : ∀ a, moved (f a) = answerBehind before g (own a)) (answer : Except Fault α) :
    (answerBehind before f answer).bind moved = answerBehind before g (answer.bind own) := by
  cases answer with
  | ok a => exact same a
  | error fault => rfl

/-! ## Tokens -/

theorem Piece.item_behind (piece : Piece) {start : Position} (counted : 0 < start.line) :
    piece.item (start.behind before) =
      answerBehind before (Lexeme.behind before) (piece.item start) := by
  unfold item
  cases piece.content with
  | ok token =>
    have stop := Position.behind_past before start piece.taken counted
    simp only [answerBehind, Lexeme.behind, stop]
  | error found =>
    have place := Position.behind_past before start found.2 counted
    simp only [answerBehind, Fault.behind, ← Position.toLocation_behind, place]

/-- From a moved position a text is scanned as from the position itself, with its items moved. -/
theorem scanFrom_behind {position : Position} (counted : 0 < position.line) (text : List Char) :
    scanFrom (position.behind before) text =
      (scanFrom position text).map (answerBehind before (Lexeme.behind before)) := by
  induction position, text using scan_induction with
  | finish split =>
    rw [scanFrom_of_layout split, scanFrom_of_layout split]
    rfl
  | @piece position text layout more c split ih =>
    have start : 0 < (position.past layout).line := by
      rw [Position.toLocation_past]
      exact Location.line_pos_past _ layout counted
    have stop : 0 < ((position.past layout).past (firstPiece c more).taken).line := by
      rw [Position.toLocation_past]
      exact Location.line_pos_past _ _ start
    rw [scanFrom_of_split split, scanFrom_of_split split, List.map_cons,
      ← Position.behind_past before position layout counted,
      ← Position.behind_past before _ _ start, Piece.item_behind before _ start, ih stop]

theorem splitAtFault_append (lexemes : List Lexeme) (items : List Item) :
    splitAtFault (lexemes.map .ok ++ items) =
      (lexemes ++ (splitAtFault items).1, (splitAtFault items).2) := by
  induction lexemes with
  | nil => rfl
  | cons lexeme rest ih => rw [List.map_cons, List.cons_append, splitAtFault, ih]; rfl

theorem splitAtFault_behind (items : List Item) :
    splitAtFault (items.map (answerBehind before (Lexeme.behind before))) =
      ((splitAtFault items).1.map (Lexeme.behind before),
        (splitAtFault items).2.map (Fault.behind before)) := by
  induction items with
  | nil => rfl
  | cons item rest ih =>
    cases item with
    | ok lexeme => rw [List.map_cons, answerBehind, splitAtFault, ih]; rfl
    | error fault => rfl

/-- A token stream of a text as it is met behind another text. -/
def TokenStream.behind (before : List Char) (stream : TokenStream) : TokenStream :=
  ⟨stream.lexemes.map (Lexeme.behind before), stream.fault.map (Fault.behind before),
    stream.finish.behind before⟩

/-- A token stream behind more tokens. -/
def TokenStream.after (lexemes : List Lexeme) (stream : TokenStream) : TokenStream :=
  { stream with lexemes := lexemes ++ stream.lexemes }

/-- Behind a text that is tokenized, and a line feed, a text has its own token stream. -/
theorem TokenStream.ofSource_append_feed {first : List Char} {lexemes : List Lexeme}
    (tokenized : tokenize first = .ok lexemes) (second : List Char) :
    ofSource (first ++ '\n' :: second) =
      ((ofSource second).behind (first ++ ['\n'])).after lexemes := by
  have clean : scanFrom .start first = lexemes.map .ok := scan_eq_of_tokenize tokenized
  have scanned : scan (first ++ '\n' :: second) = lexemes.map .ok ++
      (scan second).map (answerBehind (first ++ ['\n']) (Lexeme.behind (first ++ ['\n']))) := by
    rw [scan, scanFrom_append_feed clean, ← Position.behind_start,
      scanFrom_behind _ Nat.one_pos]
    rfl
  have finish : Location.start.past (first ++ '\n' :: second) =
      (Location.start.past second).behind (first ++ ['\n']) := by
    rw [Location.behind_past _ _ _ Nat.one_pos, Location.behind_start, List.append_cons,
      Location.past, List.foldl_append]
    rfl
  simp only [ofSource, scanned, splitAtFault_append, splitAtFault_behind, finish]
  rfl

/-! ## Machines -/

theorem answerBehind_eq_moved {α β : Type} (g : α → β) (answer : Except Fault α) :
    answerBehind before g answer = answerMoved (Location.behind before) g answer := by
  cases answer with
  | ok a => rfl
  | error fault => rfl

variable (earlier : List Definition)

/-- A machine that has complete definitions before its own and reads behind a text. -/
def State.following (before : List Char) (earlier : List Definition) : State → State
  | declaration complete => .declaration (earlier ++ complete)
  | typeName complete => .typeName (earlier ++ complete)
  | equalsSign complete name => .equalsSign (earlier ++ complete) name
  | typeExpression goal stack => .typeExpression (goal.following earlier) stack
  | enumerationBrace goal stack => .enumerationBrace (goal.following earlier) stack
  | enumeration goal stack brace members =>
    .enumeration (goal.following earlier) stack (brace.behind before) members
  | properties goal stack listed => .properties (goal.following earlier) stack listed
  | property goal stack listed name place =>
    .property (goal.following earlier) stack listed name (place.behind before)
  | finished rule => .finished rule

namespace State

/-- What a step leads to, as it is behind a text and complete definitions. -/
abbrev answerFollowing : Except Fault State → Except Fault State :=
  answerBehind before (following before earlier)

theorem following_eq_moved :
    following before earlier = moved (Location.behind before) earlier := by
  funext state
  cases state <;> rfl

/-- A machine goes over moved tokens, behind complete definitions, as it goes over the tokens
themselves. -/
theorem run_following (state : State) (lexemes : List Lexeme) :
    (state.following before earlier).run (lexemes.map (Lexeme.behind before)) =
      answerFollowing before earlier (state.run lexemes) := by
  have moves : List.Forall₂ (Lexeme.Moves (Location.behind before)) lexemes
      (lexemes.map (Lexeme.behind before)) :=
    List.forall₂_map_right_iff.mpr (List.forall₂_same.mpr fun _ _ => ⟨rfl, rfl⟩)
  rw [answerFollowing, answerBehind_eq_moved, following_eq_moved]
  exact run_moved earlier moves state

theorem read_following (state : State) (stream : TokenStream) :
    (state.following before earlier).read (stream.behind before) =
      answerFollowing before earlier (state.read stream) := by
  unfold read TokenStream.behind
  rw [run_following]
  apply answerBehind_bind
  intro last
  cases stream.fault with
  | none => rfl
  | some fault => rfl

theorem read_after {state next : State} {lexemes : List Lexeme}
    (run : state.run lexemes = .ok next) (stream : TokenStream) :
    state.read (stream.after lexemes) = next.read stream := by
  unfold read TokenStream.after
  rw [run_append_of_run run]

theorem unfinished_following (state : State) (finish : Location) :
    (state.following before earlier).unfinished (finish.behind before) =
      (state.unfinished finish).behind before := by
  rw [following_eq_moved]
  exact unfinished_moved earlier state finish

end State

/-- Behind a source that is parsed, and a line feed, a source is parsed as it is alone: its faults
are moved, and its definitions follow those in front. -/
theorem parseDefinitions_append_feed {first : List Char} {earlier : List Definition}
    (parsed : parseDefinitions first = .ok earlier) (second : List Char) :
    parseDefinitions (first ++ '\n' :: second) =
      answerBehind (first ++ ['\n']) (earlier ++ ·) (parseDefinitions second) := by
  obtain ⟨lexemes, tokenized, run⟩ := parseDefinitions_eq_ok_iff.mp parsed
  have arrived : State.declaration earlier =
      (State.declaration []).following (first ++ ['\n']) earlier :=
    congrArg State.declaration (List.append_nil earlier).symm
  simp only [parseDefinitions, TokenStream.ofSource_append_feed tokenized,
    State.read_after run, arrived, State.read_following]
  apply answerBehind_bind
  intro last
  cases last with
  | declaration complete => rfl
  | _ => exact congrArg Except.error (State.unfinished_following _ _ _ _)

end JsonShape
