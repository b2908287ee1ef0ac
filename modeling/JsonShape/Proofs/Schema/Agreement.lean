import JsonShape.Proofs.Entries
import JsonShape.Proofs.Normalize.Acceptance
import JsonShape.Proofs.Schema.Validity

/-!
# Schemas and normalization

A value is valid under the schema of a rule exactly if the rule normalizes it, for every rule that
lists no name twice, and the same holds of the schema documents of a registry.

* `Schema.validates_pattern`: the schema of a pattern, property by property.
* `Schema.schemaDocument_eq`: dialect and title stand before the keywords of the rule's schema and
  displace none of them.
* `Schema.validates_iff_normalizes` is the agreement.
-/

namespace JsonShape.Schema

/-! ## Keywords -/

@[simp] theorem validates_object (keywords : List (String × Json)) (value : Json) :
    validates (.object keywords) value = validatesKeywords keywords value := by
  rw [validates]

@[simp] theorem validatesKeywords_nil (value : Json) : validatesKeywords [] value = true := by
  rw [validatesKeywords]

theorem validatesKeywords_cons (keyword : String) (argument : Json)
    (rest : List (String × Json)) (value : Json) :
    validatesKeywords ((keyword, argument) :: rest) value =
      ((if keyword = "properties" then validatesProperties argument value
        else keywordHolds value keyword argument) && validatesKeywords rest value) := by
  rw [validatesKeywords]

theorem hasType_iff {value : Json} {name : String} (kind : Kind) (named : kind.name = name) :
    hasType value name = true ↔ value.kind = kind := by
  subst named
  cases value <;> cases kind <;> simp [hasType, Json.kind, Kind.name]

theorem validates_typeSchema {value : Json} {name : String} (kind : Kind)
    (named : kind.name = name) :
    validates (Rule.typeSchema name) value = true ↔ value.kind = kind := by
  simp [Rule.typeSchema, validatesKeywords_cons, keywordHolds, typeHolds, hasType_iff kind named]

theorem validates_constSchema {value constant : Json} :
    validates (Rule.constSchema constant) value = true ↔ value.equals constant = true := by
  simp [Rule.constSchema, validatesKeywords_cons, keywordHolds]

theorem equals_string {value : Json} {s : String} :
    value.equals (.string s) = true ↔ value = .string s := by
  cases value <;> simp [Json.equals]

theorem enumHolds_ofStrings {value : Json} {members : List String} :
    enumHolds value (Json.ofStrings members) = true ↔ ∃ s ∈ members, value = .string s := by
  simp only [enumHolds, Json.ofStrings, List.any_eq_true, List.mem_map]
  constructor
  · rintro ⟨_, ⟨s, listed, rfl⟩, same⟩
    exact ⟨s, listed, equals_string.mp same⟩
  · rintro ⟨s, listed, same⟩
    exact ⟨.string s, ⟨s, listed, rfl⟩, equals_string.mpr same⟩

theorem validates_enumeration {value : Json} {members : List String} :
    validates (Rule.enumeration members).schema value = true ↔
      ∃ s ∈ members, value = .string s := by
  have kind : hasType value "string" = true ↔ value.kind = .string := hasType_iff .string rfl
  simp only [Rule.schema, validates_object, validatesKeywords_cons, validatesKeywords_nil,
    keywordHolds, typeHolds, reduceIte, String.reduceEq, Bool.and_eq_true,
    and_true, kind, enumHolds_ofStrings, and_iff_right_iff_imp]
  rintro ⟨s, _, rfl⟩
  rfl

theorem validates_anyContainer {value : Json} :
    validates Rule.object.schema value = true ↔ value.kind = .object ∨ value.kind = .array := by
  have object : hasType value "object" = true ↔ value.kind = .object := hasType_iff .object rfl
  have array : hasType value "array" = true ↔ value.kind = .array := hasType_iff .array rfl
  simp [Rule.schema, validatesKeywords_cons, keywordHolds, typeHolds, Json.ofStrings, object,
    array]

/-! ## Patterns -/

theorem names_fieldSchemas (fields : List (Field Rule)) :
    Entries.names (Rule.fieldSchemas fields) = fields.map Field.name := by
  induction fields with
  | nil => rfl
  | cons field rest ih =>
    obtain ⟨name, _ | rule⟩ := field <;> simp [Rule.fieldSchemas, ih]

/-- The schemas of properties ask of those members that are there what their rules do. -/
theorem validatesMembers_fieldSchemas {fields : List (Field Rule)} {value : Json} :
    validatesMembers (Rule.fieldSchemas fields) value = true ↔
      ∀ field ∈ fields, ∀ part, value.member? field.name = some part →
        ∀ rule, field.rule = some rule → validates rule.schema part = true := by
  induction fields with
  | nil => simp [Rule.fieldSchemas, validatesMembers]
  | cons field rest ih =>
    obtain ⟨name, _ | rule⟩ := field
    · cases found : value.member? name <;>
        simp [Rule.fieldSchemas, validatesMembers, found, ih]
    · cases found : value.member? name <;>
        simp [Rule.fieldSchemas, validatesMembers, found, ih]

theorem requiredHolds_ofStrings {names : List String} {members : List (String × Json)} :
    requiredHolds (.object members) (Json.ofStrings names) = true ↔
      ∀ name ∈ names, ∃ part, Entries.get? members name = some part := by
  simp [requiredHolds, Json.ofStrings, Json.member?, Option.isSome_iff_exists]

/-- A value is valid under the schema of a pattern if it is an object that has every property,
with a value that is valid under the schema of the property's rule if it has one. -/
theorem validates_pattern {fields : List (Field Rule)}
    (nodup : (fields.map Field.name).Nodup) {value : Json} :
    validates (Rule.pattern fields).schema value = true ↔
      ∃ members, value = .object members ∧ ∀ field ∈ fields,
        ∃ part, Entries.get? members field.name = some part ∧
          ∀ rule, field.rule = some rule → validates rule.schema part = true := by
  have properties : Entries.collect (Rule.fieldSchemas fields) = Rule.fieldSchemas fields :=
    Entries.collect_of_nodup (by rwa [names_fieldSchemas])
  have keywords : validates (Rule.pattern fields).schema value = true ↔
      value.kind = .object ∧ validatesMembers (Rule.fieldSchemas fields) value = true ∧
        requiredHolds value (Json.ofStrings (fields.map Field.name)) = true := by
    have kind : hasType value "object" = true ↔ value.kind = .object := hasType_iff .object rfl
    simp [Rule.schema, validatesKeywords_cons, keywordHolds, typeHolds, properties,
      validatesProperties, kind]
  rw [keywords, validatesMembers_fieldSchemas]
  constructor
  · rintro ⟨kind, valid, present⟩
    cases value with
    | object members =>
      refine ⟨members, rfl, fun field listed => ?_⟩
      obtain ⟨part, found⟩ :=
        requiredHolds_ofStrings.mp present field.name (List.mem_map_of_mem listed)
      exact ⟨part, found, valid field listed part found⟩
    | _ => cases kind
  · rintro ⟨members, rfl, all⟩
    refine ⟨rfl, fun field listed part found => ?_, requiredHolds_ofStrings.mpr ?_⟩
    · obtain ⟨_, same, valid⟩ := all field listed
      cases same.symm.trans found
      exact valid
    · intro name listed
      obtain ⟨field, member, rfl⟩ := List.mem_map.mp listed
      obtain ⟨part, found, _⟩ := all field member
      exact ⟨part, found⟩

/-! ## Agreement -/

/-- The schema of a rule takes the values that the rule accepts. -/
theorem validates_iff_accepts {rule : Rule} (once : rule.NamesOnce) {value : Json} :
    validates rule.schema value = true ↔ rule.Accepts value := by
  induction rule using Rule.inductionOn generalizing value with
  | array =>
    rw [Rule.schema, Rule.accepts_array]
    exact validates_typeSchema .array rfl
  | boolean =>
    rw [Rule.schema, Rule.accepts_boolean]
    exact validates_typeSchema .boolean rfl
  | number =>
    rw [Rule.schema, Rule.accepts_number]
    exact validates_typeSchema .number rfl
  | string =>
    rw [Rule.schema, Rule.accepts_string]
    exact validates_typeSchema .string rfl
  | object => rw [validates_anyContainer, Rule.accepts_object]
  | enumeration members => rw [validates_enumeration, Rule.accepts_enumeration]
  | booleanLiteral b =>
    rw [Rule.schema, validates_constSchema, Rule.accepts_booleanLiteral]
    cases value <;> simp [Json.equals]
  | numberLiteral n =>
    rw [Rule.schema, validates_constSchema, Rule.accepts_numberLiteral]
    cases value <;> simp [Json.equals]
  | stringLiteral s =>
    rw [Rule.schema, validates_constSchema, Rule.accepts_stringLiteral, equals_string]
  | pattern fields ih =>
    obtain ⟨nodup, inner⟩ := Rule.namesOnce_pattern.mp once
    have own : ∀ field ∈ fields, ∀ rule, field.rule = some rule → ∀ {part : Json},
        validates rule.schema part = true ↔ rule.Accepts part := by
      rintro ⟨name, _⟩ listed rule rfl part
      exact ih name rule listed (inner name rule listed)
    rw [validates_pattern nodup, Rule.accepts_pattern]
    constructor
    · rintro ⟨members, rfl, all⟩
      refine ⟨members, rfl, fun field listed => ?_⟩
      obtain ⟨part, found, valid⟩ := all field listed
      exact ⟨part, found, fun rule typed => (own field listed rule typed).mp (valid rule typed)⟩
    · rintro ⟨members, rfl, all⟩
      refine ⟨members, rfl, fun field listed => ?_⟩
      obtain ⟨part, found, fits⟩ := all field listed
      exact ⟨part, found, fun rule typed => (own field listed rule typed).mpr (fits rule typed)⟩

/-! ## Documents -/

theorem schema_eq_object (rule : Rule) : rule.schema = .object rule.schemaKeywords := by
  cases rule <;> rfl

/-- Neither `$schema` nor `title` is a keyword of a rule's schema, which has no keyword twice. -/
theorem nodup_documentKeywords (rule : Rule) (title : String) :
    (Entries.names ([("$schema", .string schemaDialect), ("title", .string title)] ++
      rule.schemaKeywords)).Nodup := by
  cases rule <;>
    simp [Entries.names, Rule.schemaKeywords, Rule.schema, Rule.typeSchema, Rule.constSchema]

/-- Dialect and title displace none of the keywords of a rule's schema. -/
theorem schemaDocument_eq {registry : Registry} {name : String} {rule : Rule}
    (defined : registry.get? name = some rule) :
    registry.schemaDocument name =
      .ok (.object (("$schema", .string schemaDialect) :: ("title", .string name) ::
        rule.schemaKeywords)) := by
  rw [Registry.schemaDocument, Registry.resolve, defined, Except.map,
    Entries.putAll_of_nodup _ _ (nodup_documentKeywords rule name)]
  rfl

theorem validates_document {rule : Rule} {title : String} {value : Json} :
    validates (.object (("$schema", .string schemaDialect) :: ("title", .string title) ::
      rule.schemaKeywords)) value = validates rule.schema value := by
  rw [schema_eq_object, validates_object, validates_object, validatesKeywords_cons,
    validatesKeywords_cons]
  simp [keywordHolds]

theorem exists_normalize_iff {registry : Registry} {name : String} {rule : Rule}
    (defined : registry.get? name = some rule) {value : Json} :
    (∃ answer, registry.normalize value name = .ok (.ok answer)) ↔ rule.Accepts value := by
  simp [Registry.normalize, Registry.resolve, defined, Except.map, Rule.Accepts]

/-- The schema of a rule that lists no name twice takes exactly the values that the rule
normalizes.  The schema document of a defined name has a dialect and a title before the keywords
of its rule's schema, all of which it keeps, and takes exactly the values that the registry
normalizes under that name. -/
theorem validates_iff_normalizes :
    (∀ rule : Rule, rule.NamesOnce → ∀ value : Json,
      validates rule.schema value = true ↔ ∃ answer, rule.normalize value = .ok answer) ∧
    ∀ (registry : Registry) (name : String) (rule : Rule),
      registry.get? name = some rule → rule.NamesOnce →
      ∃ keywords, rule.schema = .object keywords ∧
        registry.schemaDocument name =
          .ok (.object (("$schema", .string schemaDialect) :: ("title", .string name) ::
            keywords)) ∧
        ∀ value : Json,
          validates (.object (("$schema", .string schemaDialect) :: ("title", .string name) ::
            keywords)) value = true ↔
          ∃ answer, registry.normalize value name = .ok (.ok answer) := by
  refine ⟨fun rule once value => validates_iff_accepts once, ?_⟩
  intro registry name rule defined once
  refine ⟨rule.schemaKeywords, schema_eq_object rule, schemaDocument_eq defined, fun value => ?_⟩
  rw [validates_document, exists_normalize_iff defined, validates_iff_accepts once]

/-- A pattern whose properties are named like keywords. -/
def keywordNames : Rule :=
  .pattern [⟨"type", some (.pattern [⟨"const", some .object⟩])⟩, ⟨"$schema", none⟩, ⟨"title", none⟩]

/-- Names like those of keywords, of a type and of properties, change nothing. -/
theorem validates_keywordNames :
    keywordNames.NamesOnce ∧
      (Registry.empty.define "required" keywordNames).get? "required" = some keywordNames ∧
      (∀ value : Json, validates keywordNames.schema value = true ↔
        ∃ answer, keywordNames.normalize value = .ok answer) ∧
      ∃ keywords, keywordNames.schema = .object keywords ∧
        (Registry.empty.define "required" keywordNames).schemaDocument "required" =
          .ok (.object (("$schema", .string schemaDialect) :: ("title", .string "required") ::
            keywords)) ∧
        ∀ value : Json,
          validates (.object (("$schema", .string schemaDialect) ::
            ("title", .string "required") :: keywords)) value = true ↔
          ∃ answer, (Registry.empty.define "required" keywordNames).normalize value "required" =
            .ok (.ok answer) := by
  have once : keywordNames.NamesOnce := by
    simp [keywordNames, Rule.NamesOnce, Rule.NamesOnceFields]
  have defined : (Registry.empty.define "required" keywordNames).get? "required" =
      some keywordNames := Entries.get?_put_self [] "required" keywordNames
  exact ⟨once, defined, validates_iff_normalizes.1 _ once,
    validates_iff_normalizes.2 _ _ _ defined once⟩

end JsonShape.Schema
