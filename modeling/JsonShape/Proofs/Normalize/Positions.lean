import JsonShape.Proofs.Entries
import JsonShape.Proofs.Normalize.Acceptance

/-!
# Positions of a rule

A rule stands at many positions: its own, and those to which the names of properties lead that
have a rule.  Whether a value is accepted is decided at these positions one by one.

* `Json.memberAt?` looks names up in nested objects; `Rule.Reaches rule path own` says that `own`
  stands in `rule` at the position `path`.
* `Rule.Passes` is the test that a rule makes at its own position.  Of a pattern it asks only
  which members an object has, and of the generic rules only the kind of the part.
* `Rule.accepts_iff_passesEverywhere`: a value is accepted exactly if it has a part at every
  position, and each of these parts passes its test.
* `Rule.Overlooks` relates values that differ only where no test looks, and
  `Rule.Overlooks.passesEverywhere` says that they pass alike.
-/

namespace JsonShape

/-- The part of a value to which names lead, looked up one after another in nested objects. -/
def Json.memberAt? (value : Json) : List String → Option Json
  | [] => some value
  | name :: rest => (value.member? name).bind (·.memberAt? rest)

theorem Json.memberAt?_cons_eq_some {value kept : Json} {name : String} {rest : List String} :
    value.memberAt? (name :: rest) = some kept ↔
      ∃ members part, value = .object members ∧ Entries.get? members name = some part ∧
        part.memberAt? rest = some kept := by
  cases value <;> simp [memberAt?, member?, Option.bind_eq_some_iff]

namespace Rule

/-- The rules that stand in a rule, with their positions: the rule itself, and in a pattern what
stands in the rules of its properties, behind their names. -/
inductive Reaches : Rule → List String → Rule → Prop
  | root (rule : Rule) : Reaches rule [] rule
  | property {fields : List (Field Rule)} {name : String} {inner own : Rule}
      {path : List String} :
    ⟨name, some inner⟩ ∈ fields → Reaches inner path own →
    Reaches (pattern fields) (name :: path) own

/-- The test that a rule makes at its own position. -/
def Passes : Rule → Json → Prop
  | array, part => part.kind = .array
  | boolean, part => part.kind = .boolean
  | booleanLiteral b, part => part = .bool b
  | enumeration members, part => ∃ s ∈ members, part = .string s
  | numberLiteral n, part => ∃ m, part = .number m ∧ m.agrees n = true
  | number, part => part.kind = .number
  | object, part => part.kind = .object ∨ part.kind = .array
  | pattern fields, part =>
    ∃ members, part = .object members ∧ ∀ field ∈ fields, field.name ∈ Entries.names members
  | stringLiteral s, part => part = .string s
  | string, part => part.kind = .string

/-- At every position of a rule a value has a part that passes the test there. -/
def PassesEverywhere (rule : Rule) (value : Json) : Prop :=
  ∀ path own, rule.Reaches path own → ∃ part, value.memberAt? path = some part ∧ own.Passes part

/-! ## Tests at all positions -/

/-- A rule that is no pattern stands at its own position alone. -/
theorem passesEverywhere_of_ne_pattern {rule : Rule} (leaf : ∀ fields, rule ≠ pattern fields)
    {value : Json} : rule.PassesEverywhere value ↔ rule.Passes value := by
  constructor
  · intro everywhere
    obtain ⟨part, found, passes⟩ := everywhere [] rule (.root rule)
    cases found
    exact passes
  · intro passes path own reaches
    cases reaches with
    | root => exact ⟨value, rfl, passes⟩
    | property => exact absurd rfl (leaf _)

/-- The positions of a pattern are its own and those of its properties' rules. -/
theorem passesEverywhere_pattern {fields : List (Field Rule)} {value : Json} :
    (pattern fields).PassesEverywhere value ↔
      ∃ members, value = .object members ∧ ∀ field ∈ fields,
        ∃ part, Entries.get? members field.name = some part ∧
          ∀ rule, field.rule = some rule → rule.PassesEverywhere part := by
  constructor
  · intro everywhere
    obtain ⟨_, found, members, rfl, listed⟩ := everywhere [] _ (.root _)
    cases found
    refine ⟨members, rfl, fun field among => ?_⟩
    obtain ⟨part, has⟩ := Entries.mem_names_iff.mp (listed field among)
    refine ⟨part, has, fun rule typed path own reaches => ?_⟩
    obtain ⟨name, option⟩ := field
    obtain rfl : option = some rule := typed
    obtain ⟨inner, foundInner, passes⟩ := everywhere (name :: path) own (.property among reaches)
    refine ⟨inner, ?_, passes⟩
    simpa [Json.memberAt?, Json.member?, has] using foundInner
  · rintro ⟨members, rfl, all⟩ path own reaches
    cases reaches with
    | root =>
      refine ⟨_, rfl, members, rfl, fun field among => ?_⟩
      obtain ⟨part, found, _⟩ := all field among
      exact Entries.mem_names_iff.mpr ⟨part, found⟩
    | @property _ name inner _ path among reaches =>
      obtain ⟨part, found, passes⟩ := all _ among
      obtain ⟨deeper, foundDeeper, passesDeeper⟩ := passes inner rfl path own reaches
      exact ⟨deeper, by simpa [Json.memberAt?, Json.member?, found] using foundDeeper, passesDeeper⟩

/-- A rule that is no pattern accepts what passes its own test. -/
theorem accepts_iff_passes_of_ne_pattern {rule : Rule} (leaf : ∀ fields, rule ≠ pattern fields)
    {value : Json} : rule.Accepts value ↔ rule.Passes value := by
  cases rule with
  | array => exact accepts_array
  | boolean => exact accepts_boolean
  | booleanLiteral b => exact accepts_booleanLiteral
  | enumeration members => exact accepts_enumeration
  | numberLiteral n => exact accepts_numberLiteral
  | number => exact accepts_number
  | object => exact accepts_object
  | pattern fields => exact absurd rfl (leaf fields)
  | stringLiteral s => exact accepts_stringLiteral
  | string => exact accepts_string

/-- A rule accepts the values that pass all of its tests. -/
theorem accepts_iff_passesEverywhere (rule : Rule) (value : Json) :
    rule.Accepts value ↔ rule.PassesEverywhere value := by
  induction rule using inductionOn generalizing value with
  | pattern fields ih =>
    rw [accepts_pattern, passesEverywhere_pattern]
    refine exists_congr fun members => and_congr_right fun _ => forall₂_congr fun field among => ?_
    refine exists_congr fun part => and_congr_right fun _ => forall₂_congr fun rule typed => ?_
    obtain ⟨name, option⟩ := field
    obtain rfl : option = some rule := typed
    exact ih name rule among part
  | _ => rw [accepts_iff_passes_of_ne_pattern (by simp), passesEverywhere_of_ne_pattern (by simp)]

/-! ## What no test looks at -/

/-- Two values differ only where no test of a rule looks: in the contents of an array or an object
at a position of the rules `array` and `object`, and at a pattern in members that it does not list
and in the values of those that it lists without a rule. -/
inductive Overlooks : Rule → Json → Json → Prop
  | same (rule : Rule) (value : Json) : Overlooks rule value value
  | contents {rule : Rule} {a b : Json} :
    rule = array ∨ rule = object → a.kind = b.kind → Overlooks rule a b
  | pattern {fields : List (Field Rule)} {members others : List (String × Json)} :
    (∀ field ∈ fields, field.name ∈ Entries.names members ↔ field.name ∈ Entries.names others) →
    (∀ name rule part other, ⟨name, some rule⟩ ∈ fields → Entries.get? members name = some part →
      Entries.get? others name = some other → Overlooks rule part other) →
    Overlooks (pattern fields) (.object members) (.object others)

theorem Overlooks.symm {rule : Rule} {a b : Json} (overlooks : rule.Overlooks a b) :
    rule.Overlooks b a := by
  induction overlooks with
  | same rule value => exact .same rule value
  | contents generic kind => exact .contents generic kind.symm
  | pattern listed _ ih =>
    exact .pattern (fun field among => (listed field among).symm)
      fun name rule part other among found foundToo => ih name rule other part among foundToo found

/-- A difference that a rule overlooks is none to the test at its own position. -/
theorem Overlooks.passes {rule : Rule} {a b : Json} (overlooks : rule.Overlooks a b)
    (passes : rule.Passes a) : rule.Passes b := by
  cases overlooks with
  | same => exact passes
  | contents generic kind =>
    rcases generic with rfl | rfl
    · exact kind.symm.trans passes
    · exact passes.imp kind.symm.trans kind.symm.trans
  | pattern listed _ =>
    obtain ⟨_, same, has⟩ := passes
    cases same
    exact ⟨_, rfl, fun field among => (listed field among).mp (has field among)⟩

theorem Overlooks.passesEverywhere {rule : Rule} {a b : Json} (overlooks : rule.Overlooks a b)
    (everywhere : rule.PassesEverywhere a) : rule.PassesEverywhere b := by
  induction overlooks with
  | same => exact everywhere
  | @contents rule a b generic kind =>
    have leaf : ∀ fields, rule ≠ .pattern fields := by
      rcases generic with rfl | rfl <;> simp
    rw [passesEverywhere_of_ne_pattern leaf] at everywhere ⊢
    exact Overlooks.passes (.contents generic kind) everywhere
  | @pattern fields members others listed _ ih =>
    obtain ⟨_, same, all⟩ := passesEverywhere_pattern.mp everywhere
    cases same
    refine passesEverywhere_pattern.mpr ⟨others, rfl, fun field among => ?_⟩
    obtain ⟨part, found, passes⟩ := all field among
    have has := (listed field among).mp (Entries.mem_names_iff.mpr ⟨part, found⟩)
    obtain ⟨other, foundToo⟩ := Entries.mem_names_iff.mp has
    refine ⟨other, foundToo, fun rule typed => ?_⟩
    obtain ⟨name, option⟩ := field
    obtain rfl : option = some rule := typed
    exact ih name rule part other among found foundToo (passes rule rfl)

/-- Acceptance is decided position by position: a rule accepts a value exactly if, at every
position of the rule, looking the names up in nested objects of the value leads to a part that
passes the test there.  What no test looks at plays no part. -/
theorem accepts_iff_forall_positions (rule : Rule) (value : Json) :
    (rule.Accepts value ↔
      ∀ path own, rule.Reaches path own →
        ∃ part, value.memberAt? path = some part ∧ own.Passes part) ∧
    ∀ other, rule.Overlooks value other → (rule.Accepts value ↔ rule.Accepts other) := by
  refine ⟨accepts_iff_passesEverywhere rule value, fun other overlooks => ?_⟩
  rw [accepts_iff_passesEverywhere, accepts_iff_passesEverywhere]
  exact ⟨overlooks.passesEverywhere, overlooks.symm.passesEverywhere⟩

/-- A pattern in a pattern, beside a property with the rule `array`. -/
def layeredPattern : Rule :=
  pattern [⟨"a", some (pattern [⟨"b", some (booleanLiteral true)⟩, ⟨"c", none⟩])⟩,
    ⟨"d", some array⟩]

/-- An object with what `layeredPattern` looks at, and nothing else. -/
def spareObject : Json :=
  .object [("a", .object [("b", .bool true), ("c", .null)]), ("d", .array [])]

/-- The same to all tests, with other contents where none looks. -/
def ampleObject : Json :=
  .object [("d", .array [.null]), ("x", .null),
    ("a", .object [("c", .string "s"), ("y", .null), ("b", .bool true)])]

/-- An object with other contents is accepted, and passes the test of the innermost position. -/
theorem layeredPattern_accepts_ample :
    layeredPattern.Overlooks spareObject ampleObject ∧ layeredPattern.Accepts ampleObject ∧
      ∃ part, ampleObject.memberAt? ["a", "b"] = some part ∧
        (booleanLiteral true).Passes part := by
  have inner : (pattern [⟨"b", some (booleanLiteral true)⟩, ⟨"c", none⟩]).Overlooks
      (.object [("b", .bool true), ("c", .null)])
      (.object [("c", .string "s"), ("y", .null), ("b", .bool true)]) := by
    refine .pattern (by simp [Entries.names]) fun name rule part other among found foundToo => ?_
    simp only [List.mem_cons, Field.mk.injEq, List.not_mem_nil, reduceCtorEq, and_false,
      or_false] at among
    obtain ⟨rfl, same⟩ := among
    cases same
    cases found
    cases foundToo
    exact .same _ _
  have overlooks : layeredPattern.Overlooks spareObject ampleObject := by
    refine .pattern (by simp [Entries.names]) fun name rule part other among found foundToo => ?_
    simp only [List.mem_cons, Field.mk.injEq, List.not_mem_nil, or_false] at among
    obtain ⟨rfl, same⟩ | ⟨rfl, same⟩ := among
    · cases same
      cases found
      cases foundToo
      exact inner
    · cases same
      cases found
      cases foundToo
      exact .contents (.inl rfl) rfl
  have spare : layeredPattern.Accepts spareObject :=
    ⟨spareObject, by simp [layeredPattern, spareObject, normalize, normalizeFields, Entries.get?,
      Entries.put, Except.map]⟩
  have ample := ((accepts_iff_forall_positions layeredPattern spareObject).2 _ overlooks).mp spare
  refine ⟨overlooks, ample, ?_⟩
  refine (accepts_iff_forall_positions layeredPattern ampleObject).1.mp ample _ _ ?_
  exact .property List.mem_cons_self (.property List.mem_cons_self (.root _))

end Rule

end JsonShape
