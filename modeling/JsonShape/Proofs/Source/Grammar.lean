import JsonShape.Proofs.Names
import JsonShape.Source.Parser

/-!
# The grammar of definition source

The grammar as relations between token lists and what they denote, rule by rule as the parser's
module text gives it.  `Definitions` and `TypeExpression` carry the side conditions that do not
depend on the surroundings: lists are not empty, and no pattern names a property twice.  How deep
patterns may nest is a condition on the rule that is denoted, `Rule.nesting`.

* `Definitions.append`, `Properties.append`, `Words.append`: what stands side by side denotes what
  its parts denote, one after the other.
* `TypeExpression.unique`, `Definitions.unique`: tokens denote one thing at most.
* `TypeExpression.distinct`: only rules with distinct lists are denoted.
-/

namespace JsonShape.Grammar

/-- `Word`: a bare word, a quoted string or a keyword, each as a name. -/
inductive Word : Token → String → Prop
  | identifier (name : String) : Word (.identifier name) name
  | string (value : String) : Word (.string value) value
  | keyword (k : Keyword) : Word (.keyword k) k.word

/-- `Word*` -/
inductive Words : List Token → List String → Prop
  | nil : Words [] []
  | cons {token : Token} {name : String} {tokens : List Token} {names : List String} :
    Word token name → Words tokens names → Words (token :: tokens) (name :: names)

mutual

/-- `TypeExpression`: an enumeration denotes its members without their later repeats. -/
inductive TypeExpression : List Token → Rule → Prop
  | array : TypeExpression [.keyword .array] .array
  | boolean : TypeExpression [.keyword .boolean] .boolean
  | number : TypeExpression [.keyword .number] .number
  | object : TypeExpression [.keyword .object] .object
  | string : TypeExpression [.keyword .string] .string
  | truth : TypeExpression [.keyword .truth] (.booleanLiteral true)
  | falsity : TypeExpression [.keyword .falsity] (.booleanLiteral false)
  | numberLiteral (n : Number) : TypeExpression [.number n] (.numberLiteral n)
  | stringLiteral (s : String) : TypeExpression [.string s] (.stringLiteral s)
  | enumeration {tokens : List Token} {names : List String} :
    Words tokens names → names ≠ [] →
    TypeExpression (.keyword .enumeration :: .leftBrace :: (tokens ++ [.rightBrace]))
      (.enumeration names.eraseDups)
  | pattern {tokens : List Token} {fields : List (Field Rule)} :
    Properties tokens fields → fields ≠ [] → (fields.map Field.name).Nodup →
    TypeExpression (.leftBrace :: (tokens ++ [.rightBrace])) (.pattern fields)

/-- `(Word (":" TypeExpression)?)*` -/
inductive Properties : List Token → List (Field Rule) → Prop
  | nil : Properties [] []
  | untyped {token : Token} {name : String} {tokens : List Token} {fields : List (Field Rule)} :
    Word token name → Properties tokens fields →
    Properties (token :: tokens) (⟨name, none⟩ :: fields)
  | typed {token : Token} {name : String} {own tokens : List Token} {rule : Rule}
      {fields : List (Field Rule)} :
    Word token name → TypeExpression own rule → Properties tokens fields →
    Properties (token :: .colon :: (own ++ tokens)) (⟨name, some rule⟩ :: fields)

end

/-- `("type" IDENTIFIER "=" TypeExpression)*` -/
inductive Definitions : List Token → List Definition → Prop
  | nil : Definitions [] []
  | cons {name : String} {own tokens : List Token} {rule : Rule}
      {definitions : List Definition} :
    TypeExpression own rule → Definitions tokens definitions →
    Definitions (.keyword .type :: .identifier name :: .equals :: (own ++ tokens))
      ((name, rule) :: definitions)

/-! ## Words -/

theorem word_iff {token : Token} {name : String} : Word token name ↔ token.name? = some name := by
  constructor
  · intro word
    cases word <;> rfl
  · intro named
    cases token <;> cases named
    · exact .keyword _
    · exact .string _
    · exact .identifier _

theorem Word.ne_colon {token : Token} {name : String} (word : Word token name) :
    token ≠ .colon := by
  cases word <;> nofun

theorem Word.ne_rightBrace {token : Token} {name : String} (word : Word token name) :
    token ≠ .rightBrace := by
  cases word <;> nofun

/-! ## Side by side -/

theorem Words.append {a b : List Token} {ms ns : List String} (left : Words a ms)
    (right : Words b ns) : Words (a ++ b) (ms ++ ns) := by
  induction left with
  | nil => exact right
  | cons word _ ih => exact .cons word ih

theorem Properties.append {a b : List Token} {fs gs : List (Field Rule)} :
    Properties a fs → Properties b gs → Properties (a ++ b) (fs ++ gs)
  | .nil, right => right
  | .untyped word rest, right => .untyped word (rest.append right)
  | .typed word own rest, right => by
    simpa only [List.cons_append, List.append_assoc] using
      Properties.typed word own (rest.append right)

theorem Definitions.append {a b : List Token} {ds es : List Definition} (left : Definitions a ds)
    (right : Definitions b es) : Definitions (a ++ b) (ds ++ es) := by
  induction left with
  | nil => exact right
  | cons own _ ih =>
    simpa only [List.cons_append, List.append_assoc] using Definitions.cons own ih

/-- One more definition at the end. -/
theorem Definitions.concat {tokens own : List Token} {complete : List Definition} {rule : Rule}
    (derived : Definitions tokens complete) (name : String) (last : TypeExpression own rule) :
    Definitions (tokens ++ .keyword .type :: .identifier name :: .equals :: own)
      (complete ++ [(name, rule)]) := by
  simpa using derived.append (.cons last .nil)

/-! ## One reading only -/

theorem Word.unique {token : Token} {name other : String} (left : Word token name)
    (right : Word token other) : name = other :=
  Option.some.inj ((word_iff.mp left).symm.trans (word_iff.mp right))

/-- No list of properties starts with a colon. -/
theorem Properties.head_ne_colon {tokens rest : List Token} {fields : List (Field Rule)}
    (properties : Properties tokens fields) {first : Token} {more : List Token}
    (split : tokens ++ .rightBrace :: rest = first :: more) : first ≠ .colon := by
  cases properties with
  | nil =>
    cases split
    nofun
  | untyped word _ | typed word _ _ =>
    cases split
    exact word.ne_colon

theorem Words.unique {a b x y : List Token} {ms ns : List String} (left : Words a ms)
    (right : Words b ns) (same : a ++ .rightBrace :: x = b ++ .rightBrace :: y) :
    a = b ∧ ms = ns := by
  induction left generalizing b ns with
  | nil =>
    cases right with
    | nil => exact ⟨rfl, rfl⟩
    | cons word _ => exact absurd (List.cons.inj same).1.symm word.ne_rightBrace
  | cons word _ ih =>
    cases right with
    | nil => exact absurd (List.cons.inj same).1 word.ne_rightBrace
    | cons word' rest =>
      obtain ⟨rfl, tails⟩ := List.cons.inj same
      obtain ⟨rfl, rfl⟩ := ih rest tails
      exact ⟨rfl, by rw [word.unique word']⟩

mutual

/-- What a text of tokens starts with is one type expression at most, and denotes one rule. -/
theorem TypeExpression.unique {a b x y : List Token} {r s : Rule} :
    TypeExpression a r → TypeExpression b s → a ++ x = b ++ y → a = b ∧ r = s
  | .enumeration words _, right, same => by
    cases right with
    | enumeration words' _ =>
      simp only [List.cons_append, List.append_assoc, List.nil_append, List.cons.injEq,
        true_and] at same
      obtain ⟨rfl, rfl⟩ := words.unique words' same
      exact ⟨rfl, rfl⟩
    | _ => cases (List.cons.inj same).1
  | .pattern properties _ _, right, same => by
    cases right with
    | pattern properties' _ _ =>
      simp only [List.cons_append, List.append_assoc, List.nil_append, List.cons.injEq,
        true_and] at same
      obtain ⟨rfl, rfl⟩ := properties.unique properties' same
      exact ⟨rfl, rfl⟩
    | _ => cases (List.cons.inj same).1
  | .array, right, same | .boolean, right, same | .number, right, same | .object, right, same
  | .string, right, same | .truth, right, same | .falsity, right, same
  | .numberLiteral _, right, same | .stringLiteral _, right, same => by
    cases right <;> cases (List.cons.inj same).1
    exact ⟨rfl, rfl⟩

theorem Properties.unique {a b x y : List Token} {fs gs : List (Field Rule)} :
    Properties a fs → Properties b gs → a ++ .rightBrace :: x = b ++ .rightBrace :: y →
      a = b ∧ fs = gs
  | .nil, right, same => by
    cases right with
    | nil => exact ⟨rfl, rfl⟩
    | untyped word _ | typed word _ _ =>
      exact absurd (List.cons.inj same).1.symm word.ne_rightBrace
  | .untyped word rest, right, same => by
    cases right with
    | nil => exact absurd (List.cons.inj same).1 word.ne_rightBrace
    | untyped word' rest' =>
      obtain ⟨rfl, tails⟩ := List.cons.inj same
      obtain ⟨rfl, rfl⟩ := rest.unique rest' tails
      exact ⟨rfl, by rw [word.unique word']⟩
    | typed word' own' rest' =>
      exact absurd rfl (rest.head_ne_colon (List.cons.inj same).2)
  | .typed word own rest, right, same => by
    cases right with
    | nil => exact absurd (List.cons.inj same).1 word.ne_rightBrace
    | untyped word' rest' =>
      exact absurd rfl (rest'.head_ne_colon (List.cons.inj same).2.symm)
    | typed word' own' rest' =>
      simp only [List.cons_append, List.append_assoc, List.cons.injEq, true_and] at same
      obtain ⟨rfl, tails⟩ := same
      obtain ⟨rfl, rfl⟩ := own.unique own' tails
      obtain ⟨rfl, rfl⟩ := rest.unique rest' (List.append_cancel_left tails)
      exact ⟨rfl, by rw [word.unique word']⟩

end

theorem Definitions.unique {tokens : List Token} {ds es : List Definition}
    (left : Definitions tokens ds) (right : Definitions tokens es) : ds = es := by
  induction left generalizing es with
  | nil =>
    cases right
    rfl
  | cons own _ ih =>
    generalize same : Token.keyword .type :: _ = tokens at right
    cases right with
    | nil => cases same
    | cons own' rest' =>
      simp only [List.cons.injEq, Token.identifier.injEq, true_and] at same
      obtain ⟨rfl, tails⟩ := same
      obtain ⟨rfl, rfl⟩ := own.unique own' tails
      rw [ih (List.append_cancel_left tails ▸ rest')]

/-! ## Distinct lists -/

mutual

/-- A type expression denotes a rule whose lists have an entry, and none twice. -/
theorem TypeExpression.distinct {tokens : List Token} {rule : Rule} :
    TypeExpression tokens rule → rule.Distinct
  | .array | .boolean | .number | .object | .string | .truth | .falsity => trivial
  | .numberLiteral _ | .stringLiteral _ => trivial
  | .enumeration _ nonempty => ⟨eraseDups_ne_nil nonempty, nodup_eraseDups _⟩
  | .pattern properties nonempty nodup => ⟨nonempty, nodup, properties.distinct⟩

theorem Properties.distinct {tokens : List Token} {fields : List (Field Rule)} :
    Properties tokens fields → Rule.DistinctFields fields
  | .nil => trivial
  | .untyped _ rest => rest.distinct
  | .typed _ own rest => ⟨own.distinct, rest.distinct⟩

end

end JsonShape.Grammar
