import JsonShape.Proofs.Source.Grammar

/-!
# The parser as a machine

What the stack machine of the parser does with tokens of its grammar.

* `run_typeExpression`, `run_properties`, `run_definitions`: on tokens that the grammar derives, a
  machine arrives behind them, as long as patterns do not nest too deep.
* `State.step_declaration_ok` to `State.step_property_ok` say, state by state, all that a step can do
  if it succeeds.
-/

namespace JsonShape

open Grammar

/-! ## Runs -/

namespace State

@[simp] theorem run_nil (state : State) : state.run [] = .ok state := rfl

theorem run_cons (state : State) (lexeme : Lexeme) (rest : List Lexeme) :
    state.run (lexeme :: rest) = (state.step lexeme).bind (·.run rest) := rfl

theorem run_cons_of_step {state next : State} {lexeme : Lexeme}
    (step : state.step lexeme = .ok next) (rest : List Lexeme) :
    state.run (lexeme :: rest) = next.run rest := by
  rw [run_cons, step]
  rfl

theorem run_cons_ok {state last : State} {lexeme : Lexeme} {rest : List Lexeme}
    (run : state.run (lexeme :: rest) = .ok last) :
    ∃ next, state.step lexeme = .ok next ∧ next.run rest = .ok last := by
  rw [run_cons] at run
  cases stepped : state.step lexeme with
  | error fault =>
    rw [stepped] at run
    cases run
  | ok next =>
    rw [stepped] at run
    exact ⟨next, rfl, run⟩

theorem run_of_step {state next : State} {token : Token} {lexemes : List Lexeme}
    (same : lexemes.map Lexeme.token = [token])
    (step : ∀ lexeme : Lexeme, lexeme.token = token → state.step lexeme = .ok next) :
    state.run lexemes = .ok next := by
  obtain ⟨lexeme, rfl, only⟩ := List.map_eq_singleton_iff.mp same
  rw [run_cons_of_step (step lexeme only), run_nil]

theorem run_append (state : State) (lexemes rest : List Lexeme) :
    state.run (lexemes ++ rest) = (state.run lexemes).bind (·.run rest) := List.foldlM_append

theorem run_append_of_run {state next : State} {lexemes : List Lexeme}
    (run : state.run lexemes = .ok next) (rest : List Lexeme) :
    state.run (lexemes ++ rest) = next.run rest := by
  rw [run_append, run]
  rfl

/-- Where a run comes to its end, it comes to every token on its way. -/
theorem run_append_ok {state last : State} {lexemes rest : List Lexeme}
    (run : state.run (lexemes ++ rest) = .ok last) :
    ∃ next, state.run lexemes = .ok next ∧ next.run rest = .ok last := by
  rw [run_append] at run
  cases front : state.run lexemes with
  | error fault =>
    rw [front] at run
    cases run
  | ok next =>
    rw [front] at run
    exact ⟨next, rfl, run⟩

/-! ## Steps on tokens of the grammar -/

variable {goal : Goal} {stack : List OpenPattern} {brace place : Location}
  {members : List String} {listed : List (Field Rule)} {name : String} {lexeme : Lexeme}

/-- The members that a machine holds are those it has met, without repeats. -/
theorem step_member (word : Word lexeme.token name) (earlier : List String) :
    (enumeration goal stack brace earlier.eraseDups).step lexeme =
      .ok (.enumeration goal stack brace (earlier ++ [name]).eraseDups) := by
  simp only [step, stepEnumeration, if_neg word.ne_rightBrace, word_iff.mp word,
    List.mem_eraseDups, eraseDups_concat]

theorem step_word (word : Word lexeme.token name) :
    (properties goal stack listed).step lexeme =
      .ok (.property goal stack listed name lexeme.start.toLocation) := by
  simp only [step, stepProperties, if_neg word.ne_rightBrace, word_iff.mp word]

theorem lists_eq_false_iff :
    lists listed name = false ↔ name ∉ listed.map Field.name := by
  simp [lists]

theorem step_colon (fresh : name ∉ listed.map Field.name) (colon : lexeme.token = .colon) :
    (property goal stack listed name place).step lexeme =
      .ok (.typeExpression goal (⟨listed, name⟩ :: stack)) := by
  simp [step, lists_eq_false_iff.mpr fresh, colon]

/-- Unless a colon follows, the property before it is complete. -/
theorem step_property (fresh : name ∉ listed.map Field.name) (other : lexeme.token ≠ .colon) :
    (property goal stack listed name place).step lexeme =
      (properties goal stack (listed ++ [⟨name, none⟩])).step lexeme := by
  simp [step, lists_eq_false_iff.mpr fresh, other]

/-- A name and a colon lead to the rule of a property. -/
theorem run_typed (word : Word lexeme.token name) (fresh : name ∉ listed.map Field.name)
    {colon : Lexeme} (second : colon.token = .colon) (rest : List Lexeme) :
    (properties goal stack listed).run (lexeme :: colon :: rest) =
      (typeExpression goal (⟨listed, name⟩ :: stack)).run rest := by
  rw [run_cons_of_step (step_word word), run_cons_of_step (step_colon fresh second)]

/-- The head of a definition leads to its rule. -/
theorem run_head {complete : List Definition} {keyword identifier equals : Lexeme}
    (first : keyword.token = .keyword .type) (second : identifier.token = .identifier name)
    (third : equals.token = .equals) (rest : List Lexeme) :
    (declaration complete).run (keyword :: identifier :: equals :: rest) =
      (typeExpression (.definition complete name) []).run rest := by
  have opened : (declaration complete).step keyword = .ok (.typeName complete) := by
    simp only [step, first, if_true]
  have named : (typeName complete).step identifier = .ok (.equalsSign complete name) := by
    simp only [step, second]
  have entered : (equalsSign complete name).step equals =
      .ok (.typeExpression (.definition complete name) []) := by
    simp only [step, third, if_true]
  rw [run_cons_of_step opened, run_cons_of_step named, run_cons_of_step entered]

end State

/-- A closing brace completes an enumeration that has a member. -/
theorem State.step_enumeration_close {goal : Goal} {stack : List OpenPattern} {brace : Location}
    {members : List String} (nonempty : members ≠ []) {lexeme : Lexeme}
    (close : lexeme.token = .rightBrace) :
    (enumeration goal stack brace members).step lexeme =
      .ok (afterRule goal stack (.enumeration members)) := by
  simp [step, stepEnumeration, close, nonempty]

/-- A closing brace completes a pattern that has a property. -/
theorem State.step_properties_close {goal : Goal} {stack : List OpenPattern}
    {listed : List (Field Rule)} (nonempty : listed ≠ []) {lexeme : Lexeme}
    (close : lexeme.token = .rightBrace) :
    (properties goal stack listed).step lexeme = .ok (afterRule goal stack (.pattern listed)) := by
  simp [step, stepProperties, close, nonempty]

/-! ## What the grammar derives is accepted -/

theorem run_words {tokens : List Token} {names : List String} (words : Words tokens names)
    {lexemes : List Lexeme} (same : lexemes.map Lexeme.token = tokens) (goal : Goal)
    (stack : List OpenPattern) (brace : Location) (earlier : List String) :
    (State.enumeration goal stack brace earlier.eraseDups).run lexemes =
      .ok (.enumeration goal stack brace (earlier ++ names).eraseDups) := by
  induction words generalizing lexemes earlier with
  | nil =>
    rw [List.map_eq_nil_iff.mp same, List.append_nil, State.run_nil]
  | @cons token name tokens names word _ ih =>
    obtain ⟨lexeme, rest, rfl, rfl, others⟩ := List.map_eq_cons_iff.mp same
    rw [State.run_cons_of_step (State.step_member word earlier), ih others, List.append_assoc]
    rfl

theorem not_mem_of_nodup {listed fields : List (Field Rule)} {field : Field Rule}
    (nodup : ((listed ++ field :: fields).map Field.name).Nodup) :
    field.name ∉ listed.map Field.name := by
  intro member
  rw [List.map_append, List.map_cons] at nodup
  exact (List.nodup_append.mp nodup).2.2 _ member _ List.mem_cons_self rfl

/-- A machine at the end of a pattern's properties, of which the last may lack its rule, steps as
if all of them were complete. -/
theorem run_property {goal : Goal} {stack : List OpenPattern} {listed : List (Field Rule)}
    {name : String} (place : Location) (fresh : name ∉ listed.map Field.name)
    {lexemes : List Lexeme} {close : Lexeme} (rest : List Lexeme) {tokens : List Token}
    {fields : List (Field Rule)} (properties : Properties tokens fields)
    (same : lexemes.map Lexeme.token = tokens) (brace : close.token = .rightBrace) :
    (State.property goal stack listed name place).run (lexemes ++ close :: rest) =
      (State.properties goal stack (listed ++ [⟨name, none⟩])).run (lexemes ++ close :: rest) := by
  have head : ∃ first more, lexemes ++ close :: rest = first :: more ∧ first.token ≠ .colon := by
    cases properties with
    | nil =>
      rw [List.map_eq_nil_iff.mp same]
      exact ⟨close, rest, rfl, by rw [brace]; nofun⟩
    | untyped word _ | typed word _ _ =>
      obtain ⟨first, more, rfl, rfl, _⟩ := List.map_eq_cons_iff.mp same
      exact ⟨first, more ++ close :: rest, rfl, word.ne_colon⟩
  obtain ⟨first, more, split, other⟩ := head
  rw [split, State.run_cons, State.run_cons, State.step_property fresh other]

mutual

/-- A machine that wants a type expression arrives behind one. -/
theorem run_typeExpression {tokens : List Token} {rule : Rule} :
    TypeExpression tokens rule → ∀ {lexemes : List Lexeme}, lexemes.map Lexeme.token = tokens →
      ∀ (goal : Goal) (stack : List OpenPattern), stack.length + rule.nesting ≤ Rule.maxNesting →
        (State.typeExpression goal stack).run lexemes = .ok (State.afterRule goal stack rule)
  | .array, _, same, goal, stack, _ | .boolean, _, same, goal, stack, _
  | .number, _, same, goal, stack, _ | .object, _, same, goal, stack, _
  | .string, _, same, goal, stack, _ | .truth, _, same, goal, stack, _
  | .falsity, _, same, goal, stack, _ | .numberLiteral _, _, same, goal, stack, _
  | .stringLiteral _, _, same, goal, stack, _ => by
    refine State.run_of_step same fun lexeme only => ?_
    simp only [State.step, State.stepTypeExpression, only]
  | @TypeExpression.enumeration _ names words nonempty, lexemes, same, goal, stack, _ => by
    obtain ⟨keyword, tail, rfl, first, sameTail⟩ := List.map_eq_cons_iff.mp same
    obtain ⟨brace, inner, rfl, second, sameInner⟩ := List.map_eq_cons_iff.mp sameTail
    obtain ⟨members, last, rfl, sameMembers, closed⟩ := List.map_eq_append_iff.mp sameInner
    have opened : (State.typeExpression goal stack).step keyword =
        .ok (.enumerationBrace goal stack) := by
      simp only [State.step, State.stepTypeExpression, first]
    have entered : (State.enumerationBrace goal stack).step brace =
        .ok (.enumeration goal stack brace.start.toLocation []) := by
      simp only [State.step, second, if_true]
    have read : (State.enumeration goal stack brace.start.toLocation []).run members =
        .ok (.enumeration goal stack brace.start.toLocation names.eraseDups) :=
      run_words words sameMembers goal stack brace.start.toLocation []
    rw [State.run_cons_of_step opened, State.run_cons_of_step entered,
      State.run_append_of_run read]
    exact State.run_of_step closed fun lexeme only =>
      State.step_enumeration_close (eraseDups_ne_nil nonempty) only
  | .pattern properties nonempty nodup, lexemes, same, goal, stack, deep => by
    obtain ⟨brace, tail, rfl, first, sameTail⟩ := List.map_eq_cons_iff.mp same
    obtain ⟨inner, last, rfl, sameInner, closed⟩ := List.map_eq_append_iff.mp sameTail
    obtain ⟨close, rfl, closing⟩ := List.map_eq_singleton_iff.mp closed
    simp only [Rule.nesting] at deep
    have room : stack.length < Rule.maxNesting := by omega
    have opened : (State.typeExpression goal stack).step brace =
        .ok (.properties goal stack []) := by
      simp only [State.step, State.stepTypeExpression, first, if_pos room]
    rw [State.run_cons_of_step opened,
      run_properties properties sameInner goal stack [] nodup (by omega) closing []]
    exact State.run_of_step closed fun lexeme only =>
      State.step_properties_close nonempty only

/-- A machine among the properties of a pattern arrives behind more of them. -/
theorem run_properties {tokens : List Token} {fields : List (Field Rule)} :
    Properties tokens fields → ∀ {lexemes : List Lexeme}, lexemes.map Lexeme.token = tokens →
      ∀ (goal : Goal) (stack : List OpenPattern) (listed : List (Field Rule)),
        ((listed ++ fields).map Field.name).Nodup →
        stack.length + 1 + Rule.nestingFields fields ≤ Rule.maxNesting →
        ∀ {close : Lexeme}, close.token = .rightBrace → ∀ rest : List Lexeme,
          (State.properties goal stack listed).run (lexemes ++ close :: rest) =
            (State.properties goal stack (listed ++ fields)).run (close :: rest)
  | .nil, lexemes, same, goal, stack, listed, _, _, close, _, rest => by
    rw [List.map_eq_nil_iff.mp same, List.append_nil, List.nil_append]
  | @Properties.untyped _ name _ fields word more, lexemes, same, goal, stack, listed, nodup, deep,
      close, brace, rest => by
    obtain ⟨lexeme, others, rfl, rfl, sameOthers⟩ := List.map_eq_cons_iff.mp same
    have fresh := not_mem_of_nodup nodup
    rw [List.append_cons listed] at nodup ⊢
    rw [List.cons_append, State.run_cons_of_step (State.step_word word),
      run_property _ fresh rest more sameOthers brace]
    exact run_properties more sameOthers goal stack _ nodup deep brace rest
  | @Properties.typed _ name _ _ rule fields word own more, lexemes, same, goal, stack, listed,
      nodup, deep, close, brace, rest => by
    obtain ⟨lexeme, tail, rfl, rfl, sameTail⟩ := List.map_eq_cons_iff.mp same
    obtain ⟨colon, rules, rfl, second, sameRules⟩ := List.map_eq_cons_iff.mp sameTail
    obtain ⟨inner, others, rfl, sameInner, sameOthers⟩ := List.map_eq_append_iff.mp sameRules
    have fresh := not_mem_of_nodup nodup
    rw [List.append_cons listed] at nodup ⊢
    simp only [Rule.nestingFields] at deep
    have read := run_typeExpression own sameInner goal (⟨listed, name⟩ :: stack)
      (by simp only [List.length_cons]; omega)
    rw [List.cons_append, List.cons_append, List.append_assoc, State.run_typed word fresh second,
      State.run_append_of_run read]
    exact run_properties more sameOthers goal stack _ nodup (by omega) brace rest

end

/-- A machine between definitions arrives behind more of them. -/
theorem run_definitions {tokens : List Token} {definitions : List Definition}
    (derived : Definitions tokens definitions) {lexemes : List Lexeme}
    (same : lexemes.map Lexeme.token = tokens)
    (deep : ∀ definition ∈ definitions, definition.2.nesting ≤ Rule.maxNesting)
    (complete : List Definition) :
    (State.declaration complete).run lexemes = .ok (.declaration (complete ++ definitions)) := by
  induction derived generalizing lexemes complete with
  | nil => rw [List.map_eq_nil_iff.mp same, List.append_nil, State.run_nil]
  | @cons name own tokens rule definitions derived _ ih =>
    obtain ⟨keyword, tail, rfl, first, sameTail⟩ := List.map_eq_cons_iff.mp same
    obtain ⟨identifier, tail, rfl, second, sameTail⟩ := List.map_eq_cons_iff.mp sameTail
    obtain ⟨equals, tail, rfl, third, sameTail⟩ := List.map_eq_cons_iff.mp sameTail
    obtain ⟨inner, others, rfl, sameInner, sameOthers⟩ := List.map_eq_append_iff.mp sameTail
    have shallow : rule.nesting ≤ Rule.maxNesting := deep _ List.mem_cons_self
    have read := run_typeExpression derived sameInner (.definition complete name) []
      (by simpa using shallow)
    rw [State.run_head first second third, State.run_append_of_run read,
      List.append_cons complete]
    exact ih sameOthers (fun definition listed => deep definition (List.mem_cons_of_mem _ listed))
      (complete ++ [(name, rule)])

/-! ## What a step can do -/

namespace State

variable {complete : List Definition} {goal : Goal} {stack : List OpenPattern}
  {brace place : Location} {members : List String} {listed : List (Field Rule)} {name : String}
  {lexeme : Lexeme} {next : State}

theorem step_declaration_ok (step : (declaration complete).step lexeme = .ok next) :
    lexeme.token = .keyword .type ∧ next = .typeName complete := by
  rw [State.step] at step
  split at step
  · next token => exact ⟨token, (Except.ok.inj step).symm⟩
  · cases step

theorem step_typeName_ok (step : (typeName complete).step lexeme = .ok next) :
    ∃ name, lexeme.token = .identifier name ∧ next = .equalsSign complete name := by
  rw [State.step] at step
  split at step
  · next name token => exact ⟨name, token, (Except.ok.inj step).symm⟩
  · cases step

theorem step_equalsSign_ok (step : (equalsSign complete name).step lexeme = .ok next) :
    lexeme.token = .equals ∧ next = .typeExpression (.definition complete name) [] := by
  rw [State.step] at step
  split at step
  · next token => exact ⟨token, (Except.ok.inj step).symm⟩
  · cases step

theorem step_enumerationBrace_ok (step : (enumerationBrace goal stack).step lexeme = .ok next) :
    lexeme.token = .leftBrace ∧ next = .enumeration goal stack lexeme.start.toLocation [] := by
  rw [State.step] at step
  split at step
  · next token => exact ⟨token, (Except.ok.inj step).symm⟩
  · cases step

/-- A type expression is complete with its first token, or its first token opens a list. -/
theorem step_typeExpression_ok (step : (typeExpression goal stack).step lexeme = .ok next) :
    (∃ rule : Rule, TypeExpression [lexeme.token] rule ∧ rule.nesting = 0 ∧
        next = afterRule goal stack rule) ∨
      (lexeme.token = .keyword .enumeration ∧ next = .enumerationBrace goal stack) ∨
      (lexeme.token = .leftBrace ∧ stack.length < Rule.maxNesting ∧
        next = .properties goal stack []) := by
  have complete : ∀ {rule : Rule}, TypeExpression [lexeme.token] rule → rule.nesting = 0 →
      Except.ok (afterRule goal stack rule) = (Except.ok next : Except Fault State) →
      ∃ rule : Rule, TypeExpression [lexeme.token] rule ∧ rule.nesting = 0 ∧
        next = afterRule goal stack rule :=
    fun derived flat same => ⟨_, derived, flat, (Except.ok.inj same).symm⟩
  simp only [State.step, stepTypeExpression] at step
  split at step
  · next token => exact .inl (complete (token ▸ .array) rfl step)
  · next token => exact .inl (complete (token ▸ .boolean) rfl step)
  · next token => exact .inl (complete (token ▸ .number) rfl step)
  · next token => exact .inl (complete (token ▸ .object) rfl step)
  · next token => exact .inl (complete (token ▸ .string) rfl step)
  · next token => exact .inl (complete (token ▸ .truth) rfl step)
  · next token => exact .inl (complete (token ▸ .falsity) rfl step)
  · next n token => exact .inl (complete (token ▸ .numberLiteral n) rfl step)
  · next s token => exact .inl (complete (token ▸ .stringLiteral s) rfl step)
  · next token => exact .inr (.inl ⟨token, (Except.ok.inj step).symm⟩)
  · next token =>
    split at step
    · next room => exact .inr (.inr ⟨token, room, (Except.ok.inj step).symm⟩)
    · cases step
  · cases step

theorem step_enumeration_ok (step : (enumeration goal stack brace members).step lexeme = .ok next) :
    (lexeme.token = .rightBrace ∧ members ≠ [] ∧
        next = afterRule goal stack (.enumeration members)) ∨
      ∃ name, Word lexeme.token name ∧
        next = .enumeration goal stack brace
          (if name ∈ members then members else members ++ [name]) := by
  simp only [State.step, stepEnumeration] at step
  split at step
  · next close =>
    split at step
    · cases step
    · next nonempty =>
      exact .inl ⟨close, by simpa using nonempty, (Except.ok.inj step).symm⟩
  · split at step
    · next name named =>
      exact .inr ⟨name, word_iff.mpr named, (Except.ok.inj step).symm⟩
    · cases step

theorem step_properties_ok (step : (properties goal stack listed).step lexeme = .ok next) :
    (lexeme.token = .rightBrace ∧ listed ≠ [] ∧ next = afterRule goal stack (.pattern listed)) ∨
      ∃ name, Word lexeme.token name ∧
        next = .property goal stack listed name lexeme.start.toLocation := by
  simp only [State.step, stepProperties] at step
  split at step
  · next close =>
    split at step
    · cases step
    · next nonempty =>
      exact .inl ⟨close, by simpa using nonempty, (Except.ok.inj step).symm⟩
  · split at step
    · next name named =>
      exact .inr ⟨name, word_iff.mpr named, (Except.ok.inj step).symm⟩
    · cases step

/-- Behind the name of a property stands its colon, or the property is complete. -/
theorem step_property_ok (step : (property goal stack listed name place).step lexeme = .ok next) :
    name ∉ listed.map Field.name ∧
      ((lexeme.token = .colon ∧ next = .typeExpression goal (⟨listed, name⟩ :: stack)) ∨
        (properties goal stack (listed ++ [⟨name, none⟩])).step lexeme = .ok next) := by
  simp only [State.step] at step
  split at step
  · cases step
  · next fresh =>
    refine ⟨lists_eq_false_iff.mp (by simpa using fresh), ?_⟩
    split at step
    · next colon => exact .inl ⟨colon, (Except.ok.inj step).symm⟩
    · exact .inr step

end State

end JsonShape
