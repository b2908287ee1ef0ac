import JsonShape.Proofs.Normalize.Acceptance
import JsonShape.Proofs.Rule.Basic

/-!
# Looser rules

`Rule.Loosens looser rule` says that `looser` is `rule` with some of its parts made more general:
literals and enumerations become the generic rule of their kind, a string joins an enumeration, an
enumeration gets more members, arrays and patterns become plain containers, and a pattern drops
properties, reorders them, or loosens or drops their rules.

* `Rule.exists_part_of_loosensField`: what a pattern demands of a property of its own, it demands of
  the property of a looser pattern that comes from it.
* `Rule.accepts_of_loosens`: a value that a rule accepts, every looser rule accepts.
-/

namespace JsonShape.Rule

mutual

/-- The first rule is the second one, or a more general one. -/
inductive Loosens : Rule → Rule → Prop
  | same (rule : Rule) : Loosens rule rule
  | boolean (b : Bool) : Loosens .boolean (.booleanLiteral b)
  | number (n : Number) : Loosens .number (.numberLiteral n)
  | string (s : String) : Loosens .string (.stringLiteral s)
  | stringOfMembers (members : List String) : Loosens .string (.enumeration members)
  | listed {s : String} {members : List String} :
    s ∈ members → Loosens (.enumeration members) (.stringLiteral s)
  | moreMembers {members more : List String} :
    members ⊆ more → Loosens (.enumeration more) (.enumeration members)
  | objectOfArray : Loosens .object .array
  | objectOfPattern (fields : List (Field Rule)) : Loosens .object (.pattern fields)
  | pattern {loose fields : List (Field Rule)} :
    (∀ own ∈ loose, LoosensField own fields) → Loosens (.pattern loose) (.pattern fields)

/-- A property that comes from one of some properties, which bears the same name: without a rule,
or with a looser one. -/
inductive LoosensField : Field Rule → List (Field Rule) → Prop
  | untyped {name : String} {fields : List (Field Rule)} :
    name ∈ fields.map Field.name → LoosensField ⟨name, none⟩ fields
  | typed {name : String} {looser rule : Rule} {fields : List (Field Rule)} :
    ⟨name, some rule⟩ ∈ fields → Loosens looser rule → LoosensField ⟨name, some looser⟩ fields

end

/-! ## Rules without parts -/

/-- A rule accepts values of its kinds only. -/
theorem Accepts.kind_mem {rule : Rule} {value : Json} (accepted : rule.Accepts value) :
    value.kind ∈ rule.kinds := by
  cases rule with
  | array => simpa [kinds] using accepts_array.mp accepted
  | boolean => simpa [kinds] using accepts_boolean.mp accepted
  | number => simpa [kinds] using accepts_number.mp accepted
  | string => simpa [kinds] using accepts_string.mp accepted
  | object => simpa [kinds, or_comm] using accepts_object.mp accepted
  | booleanLiteral b =>
    rw [accepts_booleanLiteral.mp accepted]
    exact List.mem_singleton_self _
  | stringLiteral s =>
    rw [accepts_stringLiteral.mp accepted]
    exact List.mem_singleton_self _
  | numberLiteral n =>
    obtain ⟨m, found, _⟩ := accepts_numberLiteral.mp accepted
    rw [found]
    exact List.mem_singleton_self _
  | enumeration members =>
    obtain ⟨s, _, found⟩ := accepts_enumeration.mp accepted
    rw [found]
    exact List.mem_singleton_self _
  | pattern fields =>
    obtain ⟨members, found, _⟩ := accepts_pattern.mp accepted
    rw [found]
    exact List.mem_singleton_self _

/-- The generic rules accept every value of their kinds. -/
theorem accepts_of_kind_mem {rule : Rule} {value : Json} (inside : value.kind ∈ rule.kinds)
    (generic : rule = .boolean ∨ rule = .number ∨ rule = .string ∨ rule = .object) :
    rule.Accepts value := by
  rcases generic with rfl | rfl | rfl | rfl
  · exact accepts_boolean.mpr (List.mem_singleton.mp inside)
  · exact accepts_number.mpr (List.mem_singleton.mp inside)
  · exact accepts_string.mpr (List.mem_singleton.mp inside)
  · simp only [kinds, List.mem_cons, List.not_mem_nil, or_false] at inside
    rcases inside with items | members
    · exact accepts_object.mpr (.inr items)
    · exact accepts_object.mpr (.inl members)

/-! ## Patterns -/

/-- What some properties demand of an object, a property that comes from them demands as well, if
loosening the rules of these properties keeps what they accept. -/
theorem exists_part_of_loosensField {own : Field Rule} {fields : List (Field Rule)}
    {members : List (String × Json)} (loosens : LoosensField own fields)
    (found : ∀ field ∈ fields, ∃ part, Entries.get? members field.name = some part ∧
      ∀ rule, field.rule = some rule → rule.Accepts part)
    (inner : ∀ name rule, ⟨name, some rule⟩ ∈ fields → ∀ looser : Rule, looser.Loosens rule →
      ∀ part : Json, rule.Accepts part → looser.Accepts part) :
    ∃ part, Entries.get? members own.name = some part ∧
      ∀ rule, own.rule = some rule → rule.Accepts part := by
  cases loosens with
  | untyped named =>
    obtain ⟨field, listed, rfl⟩ := List.mem_map.mp named
    obtain ⟨part, has, _⟩ := found field listed
    exact ⟨part, has, fun rule typed => nomatch typed⟩
  | typed listed loosens =>
    obtain ⟨part, has, accepts⟩ := found _ listed
    refine ⟨part, has, fun rule typed => ?_⟩
    cases typed
    exact inner _ _ listed _ loosens part (accepts _ rfl)

/-- A value that a rule accepts, every looser rule accepts. -/
theorem accepts_of_loosens {rule looser : Rule} (loosens : looser.Loosens rule) {value : Json}
    (accepted : rule.Accepts value) : looser.Accepts value := by
  -- The induction is on the tighter rule: its parts are what the looser one's parts come from.
  induction rule using inductionOn generalizing looser value with
  | pattern fields ih =>
    cases loosens with
    | same => exact accepted
    | objectOfPattern =>
      exact accepts_of_kind_mem (List.mem_cons_of_mem _ accepted.kind_mem) (by simp)
    | pattern covered =>
      obtain ⟨members, object, found⟩ := accepts_pattern.mp accepted
      refine accepts_pattern.mpr ⟨members, object, fun own listed => ?_⟩
      exact exists_part_of_loosensField (covered own listed) found
        fun name rule among looser loosens part => ih name rule among loosens
  | array =>
    cases loosens with
    | same => exact accepted
    | objectOfArray => exact accepts_object.mpr (.inr (accepts_array.mp accepted))
  | booleanLiteral b =>
    cases loosens with
    | same => exact accepted
    | boolean => exact accepts_of_kind_mem accepted.kind_mem (by simp)
  | numberLiteral n =>
    cases loosens with
    | same => exact accepted
    | number => exact accepts_of_kind_mem accepted.kind_mem (by simp)
  | stringLiteral s =>
    cases loosens with
    | same => exact accepted
    | string => exact accepts_of_kind_mem accepted.kind_mem (by simp)
    | listed among =>
      exact accepts_enumeration.mpr ⟨s, among, accepts_stringLiteral.mp accepted⟩
  | enumeration members =>
    cases loosens with
    | same => exact accepted
    | stringOfMembers => exact accepts_of_kind_mem accepted.kind_mem (by simp)
    | moreMembers more =>
      obtain ⟨s, among, found⟩ := accepts_enumeration.mp accepted
      exact accepts_enumeration.mpr ⟨s, more among, found⟩
  | boolean | number | object | string =>
    cases loosens with
    | same => exact accepted

/-- A pattern of literals, an enumeration and a pattern inside. -/
def tightPattern : Rule :=
  pattern [⟨"a", some (stringLiteral "s")⟩, ⟨"b", some (enumeration ["t"])⟩,
    ⟨"c", some (pattern [⟨"d", some array⟩, ⟨"e", some (booleanLiteral true)⟩])⟩,
    ⟨"f", some string⟩]

/-- The same pattern in another order, without one property, loosened at two depths. -/
def loosePattern : Rule :=
  pattern [⟨"c", some (pattern [⟨"e", none⟩, ⟨"d", some object⟩])⟩, ⟨"b", some string⟩,
    ⟨"a", some (enumeration ["r", "s"])⟩]

theorem loosePattern_loosens : loosePattern.Loosens tightPattern := by
  refine .pattern fun own listed => ?_
  simp only [List.mem_cons, List.not_mem_nil, or_false] at listed
  rcases listed with rfl | rfl | rfl
  · refine @LoosensField.typed _ _ (pattern _) _ (by simp; rfl) (.pattern fun own listed => ?_)
    simp only [List.mem_cons, List.not_mem_nil, or_false] at listed
    rcases listed with rfl | rfl
    · exact .untyped (by simp)
    · exact .typed (by simp) .objectOfArray
  · exact .typed (by simp) (.stringOfMembers ["t"])
  · exact @LoosensField.typed _ _ (stringLiteral "s") _ (by simp) (.listed (by simp))

/-- An object that the tight pattern accepts, and the loose one as well. -/
theorem loosePattern_accepts :
    loosePattern.Loosens tightPattern ∧
      tightPattern.Accepts (.object [("f", .string ""), ("c", .object [("e", .bool true),
        ("d", .array [.null])]), ("b", .string "t"), ("a", .string "s")]) ∧
      loosePattern.Accepts (.object [("f", .string ""), ("c", .object [("e", .bool true),
        ("d", .array [.null])]), ("b", .string "t"), ("a", .string "s")]) := by
  have accepted : tightPattern.Accepts (.object [("f", .string ""), ("c", .object [
      ("e", .bool true), ("d", .array [.null])]), ("b", .string "t"), ("a", .string "s")]) := by
    simp [tightPattern, accepts_pattern, accepts_stringLiteral, accepts_enumeration,
      accepts_array, accepts_booleanLiteral, accepts_string, Entries.get?, Json.kind]
  exact ⟨loosePattern_loosens, accepted, accepts_of_loosens loosePattern_loosens accepted⟩

end JsonShape.Rule
