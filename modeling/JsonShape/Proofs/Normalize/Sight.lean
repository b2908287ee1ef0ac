import JsonShape.Decode
import JsonShape.Proofs.Normalize.Fields

/-!
# What a rule sees of a value

A rule looks at a value through the properties that its patterns list.  `Rule.SeesSame` relates
two values that are the same as far as a rule looks: at every pattern of the rule two objects may
differ in members that the pattern does not list, and in the order of all their members.

* `Rule.normalize_eq_of_seesSame`, `Rule.normalizeFields_eq_of_seesSame`: to such values a rule
  gives the same answer, down the recursion of normalization.
* `Rule.outcome_eq_of_seesSame` says the same of everything that is made of the answer.
-/

namespace JsonShape.Rule

mutual

/-- Two values are the same as far as a rule looks.  To a pattern two objects are the same if they
are so at each of its properties; everywhere else only a value itself is the same. -/
def SeesSame : Rule → Json → Json → Prop
  | pattern fields, .object a, .object b => SeesSameFields fields a b
  | _, a, b => a = b

/-- Two objects are the same at some properties: at each of them both lack it, or both have it
with values that are identical if the property has no rule, and the same to its rule if it has. -/
def SeesSameFields : List (Field Rule) → List (String × Json) → List (String × Json) → Prop
  | [], _, _ => True
  | ⟨name, none⟩ :: rest, a, b =>
    Entries.get? a name = Entries.get? b name ∧ SeesSameFields rest a b
  | ⟨name, some rule⟩ :: rest, a, b =>
    (match Entries.get? a name, Entries.get? b name with
      | none, none => True
      | some part, some other => SeesSame rule part other
      | _, _ => False) ∧ SeesSameFields rest a b

end

mutual

/-- A rule gives one answer to values that are the same to it. -/
theorem normalize_eq_of_seesSame :
    ∀ {rule : Rule} {a b : Json}, rule.SeesSame a b → rule.normalize a = rule.normalize b
  | pattern fields, a, b, same => by
    cases a with
    | object members =>
      cases b with
      | object others =>
        have entries : normalizeFields fields members [] = normalizeFields fields others [] :=
          normalizeFields_eq_of_seesSame same []
        simp only [normalize, entries]
      | _ => exact congrArg _ same
    | _ => exact congrArg _ same
  | array, _, _, same | boolean, _, _, same | booleanLiteral _, _, _, same
  | enumeration _, _, _, same | numberLiteral _, _, _, same | number, _, _, same
  | object, _, _, same | stringLiteral _, _, _, same | string, _, _, same => congrArg _ same

/-- Properties at which two objects are the same give the same entries, or the same refusal. -/
theorem normalizeFields_eq_of_seesSame :
    ∀ {fields : List (Field Rule)} {a b : List (String × Json)}, SeesSameFields fields a b →
      ∀ built, normalizeFields fields a built = normalizeFields fields b built
  | [], _, _, _, _ => rfl
  | ⟨name, none⟩ :: rest, a, b, ⟨own, others⟩, built => by
    rw [normalizeFields, normalizeFields, own]
    split
    · rfl
    · exact normalizeFields_eq_of_seesSame others _
  | ⟨name, some rule⟩ :: rest, a, b, ⟨own, others⟩, built => by
    rw [normalizeFields, normalizeFields]
    split at own
    · next lacked lackedToo => rw [lacked, lackedToo]
    · next part other found foundToo =>
      rw [found, foundToo]
      dsimp only
      rw [normalize_eq_of_seesSame own]
      split
      · rfl
      · exact normalizeFields_eq_of_seesSame others _
    · exact own.elim

end

/-- Members that a rule does not list, and the order of members, make no difference: values that
are the same to a rule have one outcome, with the same order of members or the same path and
reason, and under a name of the rule they are decoded alike, whatever the decoder. -/
theorem outcome_eq_of_seesSame {rule : Rule} {a b : Json} (same : rule.SeesSame a b) :
    rule.normalize a = rule.normalize b ∧
      ∀ (registry : Registry) (name : String), registry.get? name = some rule →
        registry.normalize a name = registry.normalize b name ∧
          ∀ (α : Type) (decoder : Decoder α),
            registry.decode a name decoder = registry.decode b name decoder := by
  have outcome := normalize_eq_of_seesSame same
  refine ⟨outcome, fun registry name defined => ?_⟩
  have normal : registry.normalize a name = registry.normalize b name := by
    simp only [Registry.normalize, Registry.resolve, defined, Except.map, outcome]
  refine ⟨normal, fun α decoder => ?_⟩
  rw [Registry.decode, Registry.decode, normal]

/-- A pattern in a pattern, beside a property without a rule. -/
def nestedPatterns : Rule :=
  pattern [⟨"at", some (pattern [⟨"x", some boolean⟩, ⟨"y", none⟩])⟩, ⟨"tag", none⟩]

/-- An object that `nestedPatterns` accepts. -/
def plainObject : Json :=
  .object [("at", .object [("x", .bool true), ("y", .string "1")]), ("tag", .null)]

/-- The same object to `nestedPatterns`: both levels are reordered and have another member. -/
def stuffedObject : Json :=
  .object [("more", .array []), ("tag", .null),
    ("at", .object [("y", .string "1"), ("z", .null), ("x", .bool true)])]

/-- Reordered and extended on both levels, an object normalizes to the same object, and it is
decoded alike under a name. -/
theorem nestedPatterns_sees_same :
    nestedPatterns.SeesSame plainObject stuffedObject ∧
      nestedPatterns.normalize stuffedObject = .ok plainObject ∧
      nestedPatterns.normalize plainObject = nestedPatterns.normalize stuffedObject ∧
      (Registry.empty.define "P" nestedPatterns).decode plainObject "P" .any =
        (Registry.empty.define "P" nestedPatterns).decode stuffedObject "P" .any := by
  have same : nestedPatterns.SeesSame plainObject stuffedObject := by
    simp [nestedPatterns, plainObject, stuffedObject, SeesSame, SeesSameFields, Entries.get?]
  have normal : nestedPatterns.normalize stuffedObject = .ok plainObject := by
    simp [nestedPatterns, plainObject, stuffedObject, normalize, normalizeFields, Entries.get?,
      Entries.put, Except.map]
  obtain ⟨outcome, named⟩ := outcome_eq_of_seesSame same
  exact ⟨same, normal, outcome, (named (Registry.empty.define "P" nestedPatterns) "P" rfl).2 _ _⟩

end JsonShape.Rule
