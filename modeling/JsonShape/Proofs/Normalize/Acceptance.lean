import JsonShape.Proofs.Normalize.Fields

/-!
# Acceptance

`Rule.Accepts` holds of a rule and the values that it normalizes.  For each form of rule there is
a lemma that says which values these are; the one of patterns, `Rule.accepts_pattern`, goes back
to the rules of the properties.
-/

namespace JsonShape.Rule

/-- A rule accepts the values that it normalizes. -/
def Accepts (rule : Rule) (value : Json) : Prop := ∃ answer, rule.normalize value = .ok answer

/-! ## Kinds and literals -/

section

attribute [local simp] normalize wrongKind notEqual Accepts Json.kind

variable {value : Json}

theorem accepts_array : array.Accepts value ↔ value.kind = .array := by
  cases value <;> simp

theorem accepts_boolean : boolean.Accepts value ↔ value.kind = .boolean := by
  cases value <;> simp

theorem accepts_number : number.Accepts value ↔ value.kind = .number := by
  cases value <;> simp

theorem accepts_object : object.Accepts value ↔ value.kind = .object ∨ value.kind = .array := by
  cases value <;> simp

theorem accepts_string : string.Accepts value ↔ value.kind = .string := by
  cases value <;> simp

theorem accepts_booleanLiteral {b : Bool} :
    (booleanLiteral b).Accepts value ↔ value = .bool b := by
  cases value with
  | bool v => by_cases same : v = b <;> simp [same]
  | _ => simp

theorem accepts_stringLiteral {s : String} :
    (stringLiteral s).Accepts value ↔ value = .string s := by
  cases value with
  | string v => by_cases same : v = s <;> simp [same]
  | _ => simp

theorem accepts_enumeration {members : List String} :
    (enumeration members).Accepts value ↔ ∃ s ∈ members, value = .string s := by
  cases value with
  | string v => by_cases listed : v ∈ members <;> simp [listed]
  | _ => simp

theorem accepts_numberLiteral {n : Number} :
    (numberLiteral n).Accepts value ↔ ∃ m, value = .number m ∧ m.agrees n = true := by
  cases value with
  | number v => by_cases same : v.agrees n = true <;> simp [same]
  | _ => simp

end

/-! ## Patterns -/

theorem exists_normalizeField_iff {members : List (String × Json)} {field : Field Rule} :
    (∃ entry, normalizeField members field = .ok entry) ↔
      ∃ part, Entries.get? members field.name = some part ∧
        ∀ rule, field.rule = some rule → rule.Accepts part := by
  simp only [normalizeField, Accepts]
  cases Entries.get? members field.name with
  | none => simp
  | some part =>
    cases field.rule with
    | none => simp
    | some rule => cases normal : rule.normalize part <;> simp [normal]

/-- A pattern accepts the objects in which it finds every property, with a value that the
property's rule accepts if it has one. -/
theorem accepts_pattern {fields : List (Field Rule)} {value : Json} :
    (pattern fields).Accepts value ↔
      ∃ members, value = .object members ∧ ∀ field ∈ fields,
        ∃ part, Entries.get? members field.name = some part ∧
          ∀ rule, field.rule = some rule → rule.Accepts part := by
  by_cases kind : value.kind = .object
  · cases value with
    | object members =>
      have all : (pattern fields).Accepts (.object members) ↔
          ∃ entries, fields.mapM (normalizeField members) = .ok entries := by
        simp only [Accepts, normalize_pattern]
        cases fields.mapM (normalizeField members) <;> simp [Except.map]
      simp only [all, exists_mapM_eq_ok_iff, exists_normalizeField_iff, Json.object.injEq,
        exists_eq_left']
    | _ => cases kind
  · simp only [Accepts, normalize_pattern_of_kind_ne fields kind, wrongKind]
    constructor
    · rintro ⟨_, same⟩
      cases same
    · rintro ⟨members, rfl, _⟩
      exact absurd rfl kind

end JsonShape.Rule
