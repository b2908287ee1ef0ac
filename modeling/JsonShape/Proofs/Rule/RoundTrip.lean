import JsonShape.Proofs.Source.Parsing
import JsonShape.Proofs.Source.Scanning
import JsonShape.Rule.Printer

/-!
# Canonical source reads back

The canonical source of a rule is scanned as the rule's tokens, whatever the rule, and its grammar
derives the rule from these tokens if every list in it has an entry, and none twice.

* `Rule.tokens` are the tokens of a rule; `Rule.reads_chars`.
* `Rule.derives_tokens`: they derive the rule.
* `Rule.parseRule_render_eq_ok_iff` is the round trip, which fails for no other rules than those
  that no source denotes.
-/

namespace JsonShape.Rule

open Grammar

/-! ## Tokens of rules -/

/-- The token of a name in canonical source. -/
def nameToken (name : String) : Token :=
  if isBareWord name && !isKeyword name then .identifier name else .string name

mutual

/-- The tokens of a rule's canonical source. -/
def tokens : Rule → List Token
  | array => [.keyword .array]
  | boolean => [.keyword .boolean]
  | booleanLiteral b => [.keyword (if b then .truth else .falsity)]
  | enumeration members =>
    .keyword .enumeration :: .leftBrace :: (members.map nameToken ++ [.rightBrace])
  | numberLiteral n => [.number n]
  | number => [.keyword .number]
  | object => [.keyword .object]
  | pattern fields => .leftBrace :: (fieldTokens fields ++ [.rightBrace])
  | stringLiteral s => [.string s]
  | string => [.keyword .string]

/-- The tokens of some properties. -/
def fieldTokens : List (Field Rule) → List Token
  | [] => []
  | ⟨name, none⟩ :: rest => nameToken name :: fieldTokens rest
  | ⟨name, some rule⟩ :: rest => nameToken name :: .colon :: (tokens rule ++ fieldTokens rest)

end

/-! ## From source to tokens -/

theorem spelling_name (name : String) : Spelling (nameChars name) (nameToken name) := by
  unfold nameChars nameToken
  split
  · rename_i plain
    obtain ⟨bare, other⟩ := Bool.and_eq_true_iff.1 plain
    exact Spelling.identifier bare (by simpa using other)
  · exact Spelling.quoted name

theorem spelling_leftBrace : Spelling ['\x7b'] .leftBrace :=
  Spelling.mark rfl (by decide) rfl (by decide) rfl

theorem spelling_rightBrace : Spelling ['\x7d'] .rightBrace :=
  Spelling.mark rfl (by decide) rfl (by decide) rfl

theorem spelling_colon : Spelling [':'] .colon :=
  Spelling.mark rfl (by decide) rfl (by decide) rfl

section

variable {rest : List Char} {more : List Token}

theorem closes_members (members : List String) (closes : Closes rest) :
    Closes (members.flatMap (fun name => ' ' :: nameChars name) ++ rest) := by
  cases members with
  | nil => exact closes
  | cons name others => exact .blank _

theorem reads_members (members : List String) (closes : Closes rest) (reads : Reads rest more) :
    Reads (members.flatMap (fun name => ' ' :: nameChars name) ++ rest)
      (members.map nameToken ++ more) := by
  induction members with
  | nil => exact reads
  | cons name others ih =>
    rw [List.flatMap_cons, List.cons_append, List.cons_append, List.append_assoc, List.map_cons]
    exact .blank (.token (spelling_name name) (closes_members others closes) ih)

theorem closes_fields (fields : List (Field Rule)) (closes : Closes rest) :
    Closes (fieldChars fields ++ rest) := by
  rcases fields with _ | ⟨⟨name, _ | rule⟩, others⟩
  · exact closes
  · exact .blank _
  · exact .blank _

/-- A closing brace after a blank. -/
theorem reads_close (closes : Closes rest) (reads : Reads rest more) :
    Reads (' ' :: '\x7d' :: rest) (.rightBrace :: more) :=
  .blank (.token spelling_rightBrace closes reads)

theorem reads_keyword (k : Keyword) (closes : Closes rest) (reads : Reads rest more) :
    Reads (k.chars ++ rest) (.keyword k :: more) :=
  .token (Spelling.keyword k) closes reads

end

mutual

/-- The canonical source of a rule is scanned as its tokens, before every text that closes it. -/
theorem reads_chars {rest : List Char} {more : List Token} (closes : Closes rest)
    (reads : Reads rest more) : (rule : Rule) → Reads (rule.chars ++ rest) (rule.tokens ++ more)
  | array => reads_keyword .array closes reads
  | boolean => reads_keyword .boolean closes reads
  | booleanLiteral true => reads_keyword .truth closes reads
  | booleanLiteral false => reads_keyword .falsity closes reads
  | number => reads_keyword .number closes reads
  | object => reads_keyword .object closes reads
  | string => reads_keyword .string closes reads
  | numberLiteral n => .token (.number n) closes reads
  | stringLiteral s => .token (.quoted s) closes reads
  | enumeration members => by
    have inside := reads_members members (.blank _) (reads_close closes reads)
    have brace := Reads.token spelling_leftBrace (closes_members members (.blank _)) inside
    have word := reads_keyword .enumeration (.blank _) brace.blank
    rw [chars, tokens]
    simpa using word
  | pattern fields => by
    have inside := reads_fieldChars (.blank _) (reads_close closes reads) fields
    have brace := Reads.token spelling_leftBrace (closes_fields fields (.blank _)) inside
    rw [chars, tokens]
    simpa using brace

theorem reads_fieldChars {rest : List Char} {more : List Token} (closes : Closes rest)
    (reads : Reads rest more) :
    (fields : List (Field Rule)) → Reads (fieldChars fields ++ rest) (fieldTokens fields ++ more)
  | [] => reads
  | ⟨name, none⟩ :: others => by
    have behind := reads_fieldChars closes reads others
    have word := Reads.token (spelling_name name) (closes_fields others closes) behind
    rw [fieldChars, fieldTokens]
    simpa using word.blank
  | ⟨name, some rule⟩ :: others => by
    have behind := reads_fieldChars closes reads others
    have own := reads_chars (closes_fields others closes) behind rule
    have colon := Reads.token spelling_colon (.blank _) own.blank
    have word := Reads.token (spelling_name name) (.colon _) colon
    rw [fieldChars, fieldTokens]
    simpa using word.blank

end

/-! ## From tokens to the rule -/

theorem word_nameToken (name : String) : Word (nameToken name) name := by
  unfold nameToken
  split
  · exact .identifier name
  · exact .string name

theorem words_map_nameToken (names : List String) : Words (names.map nameToken) names := by
  induction names with
  | nil => exact .nil
  | cons name others ih => exact .cons (word_nameToken name) ih

mutual

/-- The tokens of a rule whose lists have an entry, and none twice, denote the rule. -/
theorem derives_tokens : (rule : Rule) → rule.Distinct → TypeExpression rule.tokens rule
  | array, _ => .array
  | boolean, _ => .boolean
  | booleanLiteral true, _ => .truth
  | booleanLiteral false, _ => .falsity
  | number, _ => .number
  | object, _ => .object
  | string, _ => .string
  | numberLiteral n, _ => .numberLiteral n
  | stringLiteral s, _ => .stringLiteral s
  | enumeration members, ⟨nonempty, nodup⟩ => by
    have derived := TypeExpression.enumeration (words_map_nameToken members) nonempty
    rw [eraseDups_of_nodup nodup] at derived
    exact derived
  | pattern fields, ⟨nonempty, nodup, distinct⟩ =>
    .pattern (derives_fieldTokens fields distinct) nonempty nodup

theorem derives_fieldTokens :
    (fields : List (Field Rule)) → DistinctFields fields → Properties (fieldTokens fields) fields
  | [], _ => .nil
  | ⟨name, none⟩ :: others, distinct =>
    .untyped (word_nameToken name) (derives_fieldTokens others distinct)
  | ⟨name, some rule⟩ :: others, ⟨own, distinct⟩ =>
    .typed (word_nameToken name) (derives_tokens rule own) (derives_fieldTokens others distinct)

end

/-! ## The round trip -/

/-- The canonical source of every rule is tokenized as its tokens. -/
theorem tokenize_chars (rule : Rule) :
    ∃ lexemes, tokenize rule.chars = .ok lexemes ∧ lexemes.map Lexeme.token = rule.tokens := by
  have reads := reads_chars .nil .nil rule
  rw [List.append_nil, List.append_nil] at reads
  exact reads.tokenize

/-- What the parser answers with is well formed. -/
theorem wellFormed_of_parseRule {source : List Char} {rule : Rule}
    (parsed : parseRule source = .ok rule) : rule.WellFormed := by
  obtain ⟨lexemes, _, run⟩ := parseRule_eq_ok_iff.1 parsed
  obtain ⟨derived, shallow⟩ := run_lone_iff.1 run
  exact ⟨derived.distinct, shallow⟩

theorem parseRule_chars {rule : Rule} (wellFormed : rule.WellFormed) :
    parseRule rule.chars = .ok rule := by
  obtain ⟨distinct, shallow⟩ := wellFormed
  obtain ⟨lexemes, tokenized, same⟩ := rule.tokenize_chars
  have derived := derives_tokens rule distinct
  rw [← same] at derived
  exact parseRule_eq_ok_iff.2 ⟨lexemes, tokenized, run_lone_iff.2 ⟨derived, shallow⟩⟩

/-- The canonical source of a rule is parsed as that very rule exactly if the rule is well formed:
every list in it has an entry, and none twice, and its patterns do not nest too deep. -/
theorem parseRule_render_eq_ok_iff (rule : Rule) :
    parseRule rule.render.toList = .ok rule ↔ rule.WellFormed := by
  rw [render, String.toList_ofList]
  exact ⟨wellFormed_of_parseRule, parseRule_chars⟩

end JsonShape.Rule
