import JsonShape.Proofs.Source.Machine
import Mathlib.Data.Set.Subsingleton

/-!
# The parser and its grammar

The parser accepts exactly the token lists that the grammar derives, as long as patterns do not
nest too deep, and answers with what they denote.

* `Consumed state tokens` says what a machine in `state` has read.  It is an invariant of every
  step (`Consumed.step`) and so of every run (`Consumed.run`).
* `run_declaration_iff`, `run_lone_iff`: where a machine ends, in terms of the grammar.
* `parse_eq_ok_iff_derived` says the same of source texts, and that no tokens denote two things.
-/

namespace JsonShape

open Grammar

/-! ## What a machine has read -/

/-- Definitions whose patterns do not nest too deep. -/
def Shallow (definitions : List Definition) : Prop :=
  ∀ definition ∈ definitions, definition.2.nesting ≤ Rule.maxNesting

/-- The properties of a pattern that is open inside the patterns of a stack. -/
structure Listing (stack : List OpenPattern) (tokens : List Token) (listed : List (Field Rule)) :
    Prop where
  derived : Properties tokens listed
  nodup : (listed.map Field.name).Nodup
  shallow : stack.length + 1 + Rule.nestingFields listed ≤ Rule.maxNesting

/-- What stands before a type expression of a goal inside the patterns of a stack. -/
inductive Opening : Goal → List OpenPattern → List Token → Prop
  | lone : Opening .lone [] []
  | definition {tokens : List Token} {complete : List Definition} (name : String) :
    Definitions tokens complete → Shallow complete →
    Opening (.definition complete name) []
      (tokens ++ [.keyword .type, .identifier name, .equals])
  | property {goal : Goal} {stack : List OpenPattern} {before tokens : List Token}
      {listed : List (Field Rule)} {token : Token} {name : String} :
    Opening goal stack before → Listing stack tokens listed → Word token name →
    name ∉ listed.map Field.name →
    Opening goal (⟨listed, name⟩ :: stack) (before ++ .leftBrace :: (tokens ++ [token, .colon]))

/-- What a machine has read when it is in a state. -/
inductive Consumed : State → List Token → Prop
  | declaration {tokens : List Token} {complete : List Definition} :
    Definitions tokens complete → Shallow complete → Consumed (.declaration complete) tokens
  | typeName {tokens : List Token} {complete : List Definition} :
    Definitions tokens complete → Shallow complete →
    Consumed (.typeName complete) (tokens ++ [.keyword .type])
  | equalsSign {tokens : List Token} {complete : List Definition} (name : String) :
    Definitions tokens complete → Shallow complete →
    Consumed (.equalsSign complete name) (tokens ++ [.keyword .type, .identifier name])
  | typeExpression {goal : Goal} {stack : List OpenPattern} {before : List Token} :
    Opening goal stack before → Consumed (.typeExpression goal stack) before
  | enumerationBrace {goal : Goal} {stack : List OpenPattern} {before : List Token} :
    Opening goal stack before →
    Consumed (.enumerationBrace goal stack) (before ++ [.keyword .enumeration])
  | enumeration {goal : Goal} {stack : List OpenPattern} {before tokens : List Token}
      {names : List String} (brace : Location) :
    Opening goal stack before → Words tokens names →
    Consumed (.enumeration goal stack brace names.eraseDups)
      (before ++ .keyword .enumeration :: .leftBrace :: tokens)
  | properties {goal : Goal} {stack : List OpenPattern} {before tokens : List Token}
      {listed : List (Field Rule)} :
    Opening goal stack before → Listing stack tokens listed →
    Consumed (.properties goal stack listed) (before ++ .leftBrace :: tokens)
  | property {goal : Goal} {stack : List OpenPattern} {before tokens : List Token}
      {listed : List (Field Rule)} {token : Token} {name : String} (place : Location) :
    Opening goal stack before → Listing stack tokens listed → Word token name →
    Consumed (.property goal stack listed name place)
      (before ++ .leftBrace :: (tokens ++ [token]))
  | finished {tokens : List Token} {rule : Rule} :
    TypeExpression tokens rule → rule.nesting ≤ Rule.maxNesting →
    Consumed (.finished rule) tokens

theorem nestingFields_append (a b : List (Field Rule)) :
    Rule.nestingFields (a ++ b) = max (Rule.nestingFields a) (Rule.nestingFields b) := by
  induction a with
  | nil => simp [Rule.nestingFields]
  | cons field rest ih =>
    obtain ⟨name, _ | rule⟩ := field <;> simp [Rule.nestingFields, ih, Nat.max_assoc]

section Listing

variable {stack : List OpenPattern} {tokens own : List Token} {listed : List (Field Rule)}
  {token : Token} {name : String} {rule : Rule}

theorem nodup_concat {field : Field Rule} (nodup : (listed.map Field.name).Nodup)
    (fresh : field.name ∉ listed.map Field.name) :
    ((listed ++ [field]).map Field.name).Nodup := by
  rw [List.map_append]
  refine List.nodup_append.mpr ⟨nodup, by simp, ?_⟩
  intro name member last lone same
  rw [same, List.mem_singleton.mp lone] at member
  exact fresh member

theorem Listing.untyped (listing : Listing stack tokens listed) (word : Word token name)
    (fresh : name ∉ listed.map Field.name) :
    Listing stack (tokens ++ [token]) (listed ++ [⟨name, none⟩]) where
  derived := listing.derived.append (.untyped word .nil)
  nodup := nodup_concat listing.nodup fresh
  shallow := by
    have before := listing.shallow
    rw [nestingFields_append]
    simpa [Rule.nestingFields] using before

theorem Listing.typed (listing : Listing stack tokens listed) (word : Word token name)
    (fresh : name ∉ listed.map Field.name) (derived : TypeExpression own rule)
    (shallow : stack.length + 1 + rule.nesting ≤ Rule.maxNesting) :
    Listing stack (tokens ++ token :: .colon :: own) (listed ++ [⟨name, some rule⟩]) where
  derived := listing.derived.append (by simpa using Properties.typed word derived .nil)
  nodup := nodup_concat listing.nodup fresh
  shallow := by
    have before := listing.shallow
    rw [nestingFields_append]
    simp only [Rule.nestingFields]
    omega

end Listing

theorem Shallow.concat {complete : List Definition} (shallow : Shallow complete) {rule : Rule}
    (bounded : rule.nesting ≤ Rule.maxNesting) (name : String) :
    Shallow (complete ++ [(name, rule)]) := by
  intro definition listed
  rcases List.mem_append.mp listed with earlier | last
  · exact shallow definition earlier
  · rw [List.mem_singleton.mp last]
    exact bounded

/-- Behind a complete type expression. -/
theorem Consumed.afterRule {goal : Goal} {stack : List OpenPattern} {before own : List Token}
    {rule : Rule} (opening : Opening goal stack before) (derived : TypeExpression own rule)
    (shallow : stack.length + rule.nesting ≤ Rule.maxNesting) :
    Consumed (State.afterRule goal stack rule) (before ++ own) := by
  cases opening with
  | lone => exact .finished derived (by simpa using shallow)
  | definition name complete bounded =>
    have last := complete.concat name derived
    simp only [List.append_assoc, List.cons_append, List.nil_append]
    exact .declaration last (bounded.concat (by simpa using shallow) name)
  | property opening listing word fresh =>
    have more := listing.typed word fresh derived (by simpa using shallow)
    simp only [List.append_assoc, List.cons_append, List.nil_append]
    exact .properties opening more

section Consumed

variable {goal : Goal} {stack : List OpenPattern} {before tokens : List Token}
  {listed : List (Field Rule)} {lexeme : Lexeme} {next : State}

theorem Consumed.stepTypeExpression (opening : Opening goal stack before)
    (room : stack.length ≤ Rule.maxNesting)
    (step : (State.typeExpression goal stack).step lexeme = .ok next) :
    Consumed next (before ++ [lexeme.token]) := by
  rcases State.step_typeExpression_ok step with
    ⟨rule, derived, flat, rfl⟩ | ⟨token, rfl⟩ | ⟨token, deeper, rfl⟩
  · exact .afterRule opening derived (by omega)
  · rw [token]
    exact .enumerationBrace opening
  · rw [token]
    have empty : Listing stack [] [] := ⟨.nil, List.nodup_nil, by simpa [Rule.nestingFields]⟩
    exact .properties opening empty

theorem Consumed.stepProperties (opening : Opening goal stack before)
    (listing : Listing stack tokens listed)
    (step : (State.properties goal stack listed).step lexeme = .ok next) :
    Consumed next (before ++ .leftBrace :: (tokens ++ [lexeme.token])) := by
  rcases State.step_properties_ok step with ⟨close, nonempty, rfl⟩ | ⟨name, word, rfl⟩
  · have derived : TypeExpression (.leftBrace :: (tokens ++ [.rightBrace])) (.pattern listed) :=
      .pattern listing.derived nonempty listing.nodup
    have shallow := listing.shallow
    rw [close]
    exact .afterRule opening derived (by simp only [Rule.nesting]; omega)
  · exact .property _ opening listing word

/-- Patterns that are open are not too many. -/
theorem Opening.length_le (opening : Opening goal stack before) :
    stack.length ≤ Rule.maxNesting := by
  cases opening with
  | lone | definition => exact Nat.zero_le _
  | property _ listing =>
    have shallow := listing.shallow
    simp only [List.length_cons]
    omega

/-- Each step keeps account of what has been read. -/
theorem Consumed.step {state : State} {tokens : List Token} (consumed : Consumed state tokens)
    (step : state.step lexeme = .ok next) : Consumed next (tokens ++ [lexeme.token]) := by
  cases consumed with
  | declaration derived shallow =>
    obtain ⟨token, rfl⟩ := State.step_declaration_ok step
    rw [token]
    exact .typeName derived shallow
  | typeName derived shallow =>
    obtain ⟨name, token, rfl⟩ := State.step_typeName_ok step
    rw [token, List.append_assoc]
    exact .equalsSign name derived shallow
  | equalsSign name derived shallow =>
    obtain ⟨token, rfl⟩ := State.step_equalsSign_ok step
    rw [token, List.append_assoc]
    exact .typeExpression (.definition name derived shallow)
  | typeExpression opening => exact .stepTypeExpression opening opening.length_le step
  | enumerationBrace opening =>
    obtain ⟨token, rfl⟩ := State.step_enumerationBrace_ok step
    rw [token, List.append_assoc]
    exact .enumeration _ opening .nil
  | @enumeration goal stack before tokens names brace opening words =>
    simp only [List.append_assoc, List.cons_append]
    rcases State.step_enumeration_ok step with ⟨close, nonempty, rfl⟩ | ⟨name, word, rfl⟩
    · have listed : names ≠ [] := by
        rintro rfl
        exact nonempty rfl
      rw [close]
      exact .afterRule opening (.enumeration words listed) opening.length_le
    · have more := words.append (.cons word .nil)
      simpa only [List.mem_eraseDups, eraseDups_concat] using
        Consumed.enumeration brace opening more
  | properties opening listing =>
    simp only [List.append_assoc, List.cons_append]
    exact .stepProperties opening listing step
  | property place opening listing word =>
    obtain ⟨fresh, ⟨colon, rfl⟩ | step⟩ := State.step_property_ok step
    · rw [colon]
      simpa using Consumed.typeExpression (.property opening listing word fresh)
    · simpa using Consumed.stepProperties opening (listing.untyped word fresh) step
  | finished => cases step

/-- A whole run keeps account of what has been read. -/
theorem Consumed.run {state : State} {tokens : List Token} (consumed : Consumed state tokens)
    {lexemes : List Lexeme} {last : State} (run : state.run lexemes = .ok last) :
    Consumed last (tokens ++ lexemes.map Lexeme.token) := by
  induction lexemes generalizing state tokens with
  | nil =>
    cases run
    simpa using consumed
  | cons lexeme rest ih =>
    obtain ⟨next, first, others⟩ := State.run_cons_ok run
    simpa using ih (consumed.step first) others

end Consumed

/-! ## The parser reads its grammar -/

/-- A machine that starts between definitions ends there exactly behind definitions. -/
theorem run_declaration_iff {lexemes : List Lexeme} {definitions : List Definition} :
    (State.declaration []).run lexemes = .ok (.declaration definitions) ↔
      Definitions (lexemes.map Lexeme.token) definitions ∧ Shallow definitions := by
  constructor
  · intro run
    cases Consumed.run (.declaration .nil nofun) run with
    | declaration derived shallow => exact ⟨derived, shallow⟩
  · rintro ⟨derived, shallow⟩
    exact run_definitions derived rfl shallow []

/-- A machine that starts at a lone type expression finishes exactly behind one. -/
theorem run_lone_iff {lexemes : List Lexeme} {rule : Rule} :
    (State.typeExpression .lone []).run lexemes = .ok (.finished rule) ↔
      TypeExpression (lexemes.map Lexeme.token) rule ∧ rule.nesting ≤ Rule.maxNesting := by
  constructor
  · intro run
    cases Consumed.run (.typeExpression .lone) run with
    | finished derived shallow => exact ⟨derived, shallow⟩
  · rintro ⟨derived, shallow⟩
    exact run_typeExpression derived rfl .lone [] (by simpa using shallow)

theorem tokenize_eq_ok_iff {source : List Char} {lexemes : List Lexeme} :
    tokenize source = .ok lexemes ↔
      (TokenStream.ofSource source).fault = none ∧
        (TokenStream.ofSource source).lexemes = lexemes := by
  simp only [tokenize, TokenStream.ofSource]
  cases splitAtFault (scan source) with
  | mk found fault => cases fault <;> simp

theorem tokenize_eq_error_iff {source : List Char} {fault : Fault} :
    tokenize source = .error fault ↔ (TokenStream.ofSource source).fault = some fault := by
  simp only [tokenize, TokenStream.ofSource]
  cases splitAtFault (scan source) with
  | mk found first => cases first <;> simp

/-- A machine ends a stream only if the stream has no lexical fault. -/
theorem read_eq_ok_iff {state last : State} {source : List Char} :
    state.read (.ofSource source) = .ok last ↔
      ∃ lexemes, tokenize source = .ok lexemes ∧ state.run lexemes = .ok last := by
  simp only [tokenize_eq_ok_iff, State.read]
  cases run : state.run (TokenStream.ofSource source).lexemes with
  | error fault => simp [Except.bind, run]
  | ok middle =>
    cases fault : (TokenStream.ofSource source).fault <;> simp [Except.bind, run]

theorem parseDefinitions_eq_ok_iff {source : List Char} {definitions : List Definition} :
    parseDefinitions source = .ok definitions ↔
      ∃ lexemes, tokenize source = .ok lexemes ∧
        (State.declaration []).run lexemes = .ok (.declaration definitions) := by
  rw [← read_eq_ok_iff, parseDefinitions]
  cases (State.declaration []).read (TokenStream.ofSource source) with
  | error fault => simp [Except.bind]
  | ok last => cases last <;> simp [Except.bind]

theorem parseRule_eq_ok_iff {source : List Char} {rule : Rule} :
    parseRule source = .ok rule ↔
      ∃ lexemes, tokenize source = .ok lexemes ∧
        (State.typeExpression .lone []).run lexemes = .ok (.finished rule) := by
  rw [← read_eq_ok_iff, parseRule]
  cases (State.typeExpression .lone []).read (TokenStream.ofSource source) with
  | error fault => simp [Except.bind]
  | ok last => cases last <;> simp [Except.bind]

/-- The parser accepts exactly what its grammar derives from all tokens of a source, and answers
with what they denote; and no tokens denote two things. -/
theorem parse_eq_ok_iff_derived :
    (∀ (source : List Char) (definitions : List Definition),
      parseDefinitions source = .ok definitions ↔
        ∃ lexemes, tokenize source = .ok lexemes ∧
          Definitions (lexemes.map Lexeme.token) definitions ∧ Shallow definitions) ∧
    (∀ (source : List Char) (rule : Rule),
      parseRule source = .ok rule ↔
        ∃ lexemes, tokenize source = .ok lexemes ∧
          TypeExpression (lexemes.map Lexeme.token) rule ∧ rule.nesting ≤ Rule.maxNesting) ∧
    (∀ tokens : List Token, {definitions | Definitions tokens definitions}.Subsingleton) ∧
    ∀ tokens : List Token, {rule | TypeExpression tokens rule}.Subsingleton := by
  refine ⟨fun source definitions => ?_, fun source rule => ?_, fun tokens => ?_, fun tokens => ?_⟩
  · simp only [parseDefinitions_eq_ok_iff, run_declaration_iff]
  · simp only [parseRule_eq_ok_iff, run_lone_iff]
  · intro ds left es right
    exact left.unique right
  · intro r left s right
    exact (left.unique (x := []) (y := []) right rfl).2

end JsonShape
