import JsonShape.Proofs.Rule.Basic
import JsonShape.Rule.Serial

/-!
# Serialized rules read back

A serialized rule consists of two sorts of objects, those of rules and those of properties.  A
reader looks for the members that it knows: neither their order nor members of other names matter,
in no object of either sort.

* `Serial.Rearranged role value other`: `other` is `value` with the members of its objects in any
  order, and with any members of unknown names added.  Every value is so related to itself.
* `Serial.Rearranged.exists_object`: the members of a known name are still there.
* `Rule.ofRaw?_bare`, `Rule.ofRaw?_filled`, `Rule.fieldOf?_untyped`, `Rule.fieldOf?_typed`: what the
  reader makes of a rearranged object of each sort, with content and without.
* `Rule.ofSerial?_toJson`: whatever the rule is, each rearrangement of its serialized form is read
  as the rule.
-/

namespace JsonShape

/-! ## Values as texts -/

namespace Raw

theorem ofMembers_eq_map (members : List (String × Json)) :
    ofMembers members = members.map fun member => (some member.1, ofJson member.2) := by
  induction members with
  | nil => rfl
  | cons member rest ih =>
    rw [ofMembers, ih]
    rfl

mutual

/-- The text of a value is well formed. -/
theorem isWellFormed_ofJson : ∀ value : Json, (ofJson value).isWellFormed = true
  | .null | .bool _ | .number _ | .string _ => rfl
  | .array items => areWellFormed_ofItems items
  | .object members => membersWellFormed_ofMembers members

theorem areWellFormed_ofItems : ∀ items : List Json, areWellFormed (ofItems items) = true
  | [] => rfl
  | item :: rest => by
    rw [ofItems, areWellFormed, isWellFormed_ofJson item, areWellFormed_ofItems rest]
    rfl

theorem membersWellFormed_ofMembers :
    ∀ members : List (String × Json), membersWellFormed (ofMembers members) = true
  | [] => rfl
  | (_, value) :: rest => by
    rw [ofMembers, membersWellFormed, isWellFormed_ofJson value, membersWellFormed_ofMembers rest]
    rfl

end

mutual

/-- The text of a value has no flaw. -/
theorem flaw?_ofJson : ∀ value : Json, (ofJson value).flaw? = none
  | .null | .bool _ | .number _ | .string _ => rfl
  | .array items => itemFlaw?_ofItems 0 items
  | .object members => memberFlaw?_ofMembers members

theorem itemFlaw?_ofItems (position : Nat) :
    ∀ items : List Json, itemFlaw? position (ofItems items) true = none
  | [] => rfl
  | item :: rest => by
    rw [ofItems, itemFlaw?, flaw?_ofJson item]
    exact itemFlaw?_ofItems (position + 1) rest

theorem memberFlaw?_ofMembers :
    ∀ members : List (String × Json), memberFlaw? (ofMembers members) true = none
  | [] => rfl
  | (_, value) :: rest => by
    rw [ofMembers, memberFlaw?, flaw?_ofJson value]
    exact memberFlaw?_ofMembers rest

end

end Raw

/-! ## Rearranged objects -/

namespace Serial

/-- The two sorts of objects in a serialized rule. -/
inductive Role where
  | rule
  | property

/-- The names that are known in an object. -/
def Role.known : Role → List String
  | rule => ["kind", "value"]
  | property => ["name", "ty"]

/-- The sort of the objects inside an object: properties in rules, and rules in properties. -/
def Role.inner : Role → Role
  | rule => property
  | property => rule

mutual

/-- A value and a rearrangement of it: the members of its objects are in another order, and there
are further members, of names that are not known there. -/
inductive Rearranged : Role → Json → Json → Prop
  | scalar {role : Role} {value : Json} :
    value.kind ≠ .array → value.kind ≠ .object → Rearranged role value value
  | array {role : Role} {items others : List Json} :
    RearrangedItems role items others → Rearranged role (.array items) (.array others)
  | object {role : Role} {members changed more others : List (String × Json)} :
    RearrangedMembers role.inner members changed → (∀ member ∈ more, member.1 ∉ role.known) →
    others.Perm (changed ++ more) → Rearranged role (.object members) (.object others)

/-- Arrays that are rearranged item by item. -/
inductive RearrangedItems : Role → List Json → List Json → Prop
  | nil {role : Role} : RearrangedItems role [] []
  | cons {role : Role} {item other : Json} {items others : List Json} :
    Rearranged role item other → RearrangedItems role items others →
    RearrangedItems role (item :: items) (other :: others)

/-- Members of the same names in the same order, with values that are rearranged. -/
inductive RearrangedMembers : Role → List (String × Json) → List (String × Json) → Prop
  | nil {role : Role} : RearrangedMembers role [] []
  | cons {role : Role} {name : String} {value other : Json}
      {members others : List (String × Json)} :
    Rearranged role value other → RearrangedMembers role members others →
    RearrangedMembers role ((name, value) :: members) ((name, other) :: others)

end

mutual

theorem Rearranged.refl : ∀ (role : Role) (value : Json), Rearranged role value value
  | _, .null | _, .bool _ | _, .number _ | _, .string _ =>
    .scalar (by simp [Json.kind]) (by simp [Json.kind])
  | role, .array items => .array (RearrangedItems.refl role items)
  | role, .object members =>
    @Rearranged.object role members members [] members
      (RearrangedMembers.refl role.inner members) (by simp) (by simp)

theorem RearrangedItems.refl :
    ∀ (role : Role) (items : List Json), RearrangedItems role items items
  | _, [] => .nil
  | role, item :: items => .cons (Rearranged.refl role item) (RearrangedItems.refl role items)

theorem RearrangedMembers.refl :
    ∀ (role : Role) (members : List (String × Json)), RearrangedMembers role members members
  | _, [] => .nil
  | role, (_, value) :: members =>
    .cons (Rearranged.refl role value) (RearrangedMembers.refl role members)

end

theorem Rearranged.kind_eq {role : Role} {value other : Json}
    (rearranged : Rearranged role value other) : other.kind = value.kind := by
  cases rearranged <;> rfl

/-- Strings stay as they are. -/
theorem RearrangedItems.eq_strings {role : Role} {strings : List String} {others : List Json}
    (rearranged : RearrangedItems role (strings.map .string) others) :
    others = strings.map .string := by
  induction strings generalizing others with
  | nil =>
    cases rearranged
    rfl
  | cons s rest ih =>
    rw [List.map_cons] at rearranged
    obtain _ | ⟨first, behind⟩ := rearranged
    cases first
    rw [ih behind, List.map_cons]

/-- The members of a name. -/
def membersNamed (members : List (String × Json)) (name : String) : List (String × Json) :=
  members.filter fun member => member.1 == name

/-- A known name that stands once at most names the same member in whatever order, among whatever
members of unknown names. -/
theorem membersNamed_of_perm {role : Role} {changed more others : List (String × Json)}
    (unknown : ∀ member ∈ more, member.1 ∉ role.known) (perm : others.Perm (changed ++ more))
    {name : String} (known : name ∈ role.known) (once : (membersNamed changed name).length ≤ 1) :
    membersNamed others name = membersNamed changed name := by
  have none : membersNamed more name = [] := by
    refine List.filter_eq_nil_iff.mpr fun member listed same => ?_
    exact unknown member listed (beq_iff_eq.mp same ▸ known)
  have named : (membersNamed others name).Perm (membersNamed changed name) := by
    rw [← List.append_nil (membersNamed changed name), ← none, membersNamed, membersNamed,
      membersNamed, ← List.filter_append]
    exact perm.filter _
  match membersNamed changed name, once, named with
  | [], _, named => exact List.perm_nil.mp named
  | [member], _, named => exact List.perm_singleton.mp named

/-- A rearranged object has the members of known names that it had, with values rearranged. -/
theorem Rearranged.exists_object {role : Role} {members : List (String × Json)} {value : Json}
    (rearranged : Rearranged role (.object members) value) :
    ∃ changed others, value = .object others ∧ RearrangedMembers role.inner members changed ∧
      ∀ name ∈ role.known, (membersNamed changed name).length ≤ 1 →
        membersNamed others name = membersNamed changed name := by
  obtain ⟨_, notObject⟩ | _ | ⟨inner, unknown, perm⟩ := rearranged
  · exact absurd rfl notObject
  · exact ⟨_, _, rfl, inner, fun name known once => membersNamed_of_perm unknown perm known once⟩

end Serial

namespace Rule

open Serial

/-! ## Readers of objects -/

theorem filter_ofMembers (members : List (String × Json)) (name : String) :
    ((Raw.ofMembers members).filter fun member => member.1 == some name) =
      Raw.ofMembers (membersNamed members name) := by
  rw [Raw.ofMembers_eq_map, Raw.ofMembers_eq_map, membersNamed, List.filter_map]
  rfl

/-- A reader finds the only member of a name. -/
theorem only?_ofMembers {members : List (String × Json)} {name : String} {value : Json}
    (only : membersNamed members name = [(name, value)]) :
    only? (Raw.ofMembers members) name = some (.ofJson value) := by
  rw [only?, filter_ofMembers, only]
  rfl

theorem namedOnce_ofMembers {members : List (String × Json)} {first second : String}
    (onceFirst : (membersNamed members first).length ≤ 1)
    (onceSecond : (membersNamed members second).length ≤ 1) :
    namedOnce (Raw.ofMembers members) [first, second] = true := by
  have named : ((Raw.ofMembers members).all fun member => member.1.isSome) = true := by
    rw [Raw.ofMembers_eq_map]
    simp
  have count (name : String) : ((Raw.ofMembers members).countP fun member =>
      member.1 == some name) = (membersNamed members name).length := by
    rw [List.countP_eq_length_filter, filter_ofMembers, Raw.ofMembers_eq_map, List.length_map]
  simp [namedOnce, named, count, onceFirst, onceSecond]

theorem mem_of_earlyContent? {members : List (Option String × Raw)} {content : Raw}
    (early : earlyContent? members = some content) : (some "value", content) ∈ members := by
  fun_induction earlyContent? members with
  | case1 => cases early
  | case2 => cases early
  | case3 found rest =>
    cases early
    exact List.mem_cons_self
  | case4 member rest _ _ ih => exact List.mem_cons_of_mem member (ih early)

/-- Content of a value that stands before its kind can be kept. -/
theorem flaw?_of_earlyContent? {members : List (String × Json)} {content : Raw}
    (early : earlyContent? (Raw.ofMembers members) = some content) : content.flaw? = none := by
  have listed := mem_of_earlyContent? early
  rw [Raw.ofMembers_eq_map] at listed
  obtain ⟨member, _, same⟩ := List.mem_map.mp listed
  rw [← (Prod.mk.inj same).2]
  exact Raw.flaw?_ofJson member.2

theorem ofMembers?_ofMembers (kept : Bool) (form : Form) (members : List (String × Json)) :
    ofMembers? kept form (Raw.ofMembers members) =
      match membersNamed members "value" with
      | [] => form.bare?
      | member :: _ => ofContent? kept form (.ofJson member.2) := by
  induction members with
  | nil => rfl
  | cons member rest ih =>
    obtain ⟨name, value⟩ := member
    rw [Raw.ofMembers, ofMembers?, membersNamed, List.filter_cons]
    by_cases same : name = "value"
    · rw [if_pos (congrArg some same), if_pos (beq_iff_eq.mpr same)]
    · rw [if_neg (same ∘ Option.some.inj), if_neg (same ∘ beq_iff_eq.mp), ih, membersNamed]

/-- The rule of a property among members, of which one has a rule, or none. -/
theorem typeAmong?_ofMembers (kept : Bool) (members : List (String × Json)) :
    typeAmong? kept (Raw.ofMembers members) =
      match membersNamed members "ty" with
      | [] => some none
      | (_, .null) :: _ => some none
      | (_, value) :: _ => (ofRaw? kept (.ofJson value)).map some := by
  induction members with
  | nil => rfl
  | cons member rest ih =>
    obtain ⟨name, value⟩ := member
    rw [Raw.ofMembers, membersNamed, List.filter_cons]
    unfold typeAmong?
    by_cases same : name = "ty"
    · rw [if_pos (congrArg some same), if_pos (beq_iff_eq.mpr same)]
      cases value <;> rfl
    · rw [if_neg (same ∘ Option.some.inj), if_neg (same ∘ beq_iff_eq.mp), ih, membersNamed]

/-- A reader of a rule goes by the kind, and takes the content wherever it stands. -/
theorem ofRaw?_ofJson {members : List (String × Json)} {kind : String} {form : Form}
    (kinds : membersNamed members "kind" = [("kind", .string kind)])
    (once : (membersNamed members "value").length ≤ 1) (known : Form.ofName? kind = some form)
    (kept : Bool) :
    ∃ inside, ofRaw? kept (.ofJson (.object members)) =
      ofMembers? inside form (Raw.ofMembers members) := by
  have named : namedOnce (Raw.ofMembers members) ["kind", "value"] = true :=
    namedOnce_ofMembers (by rw [kinds]; exact Nat.le_refl 1) once
  have flawless : (earlyContent? (Raw.ofMembers members)).all (·.flaw?.isNone) = true := by
    cases early : earlyContent? (Raw.ofMembers members) with
    | none => rfl
    | some content => simp [flaw?_of_earlyContent? early]
  refine ⟨kept || (earlyContent? (Raw.ofMembers members)).isSome, ?_⟩
  simp [Raw.ofJson, ofRaw?, named, flawless, only?_ofMembers kinds, formOf?, known]

/-- A reader of a property goes by the name, and takes the rule wherever it stands. -/
theorem fieldOf?_ofJson {members : List (String × Json)} {name : String}
    (names : membersNamed members "name" = [("name", .string name)])
    (once : (membersNamed members "ty").length ≤ 1) (kept : Bool) :
    fieldOf? kept (.ofJson (.object members)) =
      (typeAmong? kept (Raw.ofMembers members)).map fun rule => ⟨name, rule⟩ := by
  have named : namedOnce (Raw.ofMembers members) ["name", "ty"] = true :=
    namedOnce_ofMembers (by rw [names]; exact Nat.le_refl 1) once
  simp [Raw.ofJson, fieldOf?, named, only?_ofMembers names]

/-! ## Rearranged objects read -/

section

variable {value : Json} {kind name : String} {form : Form}

theorem ofRaw?_bare (rearranged : Rearranged .rule (bare kind) value)
    (known : Form.ofName? kind = some form) (kept : Bool) :
    ofRaw? kept (.ofJson value) = form.bare? := by
  obtain ⟨changed, others, rfl, inner, same⟩ := rearranged.exists_object
  obtain _ | ⟨first, behind⟩ := inner
  cases first
  cases behind
  have kinds := same "kind" (by decide) (Nat.le_refl 1)
  have contents := same "value" (by decide) (Nat.zero_le 1)
  obtain ⟨inside, reads⟩ :=
    ofRaw?_ofJson kinds (by rw [contents]; exact Nat.zero_le 1) known kept
  rw [reads, ofMembers?_ofMembers, contents]
  rfl

/-- Content may have been read as part of what is kept, or not. -/
theorem ofRaw?_filled {content : Json} (rearranged : Rearranged .rule (filled kind content) value)
    (known : Form.ofName? kind = some form) (kept : Bool) :
    ∃ part inside, Rearranged .property content part ∧
      ofRaw? kept (.ofJson value) = ofContent? inside form (.ofJson part) := by
  obtain ⟨changed, others, rfl, inner, same⟩ := rearranged.exists_object
  obtain _ | ⟨first, _ | @⟨_, _, _, part, _, _, second, behind⟩⟩ := inner
  cases first
  cases behind
  have kinds := same "kind" (by decide) (Nat.le_refl 1)
  have contents := same "value" (by decide) (Nat.le_refl 1)
  obtain ⟨inside, reads⟩ :=
    ofRaw?_ofJson kinds (by rw [contents]; exact Nat.le_refl 1) known kept
  refine ⟨part, inside, second, ?_⟩
  rw [reads, ofMembers?_ofMembers, contents]
  rfl

theorem fieldOf?_untyped
    (rearranged : Rearranged .property (.object [("name", .string name)]) value) (kept : Bool) :
    fieldOf? kept (.ofJson value) = some ⟨name, none⟩ := by
  obtain ⟨changed, others, rfl, inner, same⟩ := rearranged.exists_object
  obtain _ | ⟨first, behind⟩ := inner
  cases first
  cases behind
  have names := same "name" (by decide) (Nat.le_refl 1)
  have types := same "ty" (by decide) (Nat.zero_le 1)
  rw [fieldOf?_ofJson names (by rw [types]; exact Nat.zero_le 1), typeAmong?_ofMembers, types]
  rfl

theorem fieldOf?_typed {content : Json} (object : content.kind = .object)
    (rearranged :
      Rearranged .property (.object [("name", .string name), ("ty", content)]) value)
    (kept : Bool) :
    ∃ part, Rearranged .rule content part ∧ fieldOf? kept (.ofJson value) =
      (ofRaw? kept (.ofJson part)).map fun rule => ⟨name, some rule⟩ := by
  obtain ⟨changed, others, rfl, inner, same⟩ := rearranged.exists_object
  obtain _ | ⟨first, _ | @⟨_, _, _, part, _, _, second, behind⟩⟩ := inner
  cases first
  cases behind
  have names := same "name" (by decide) (Nat.le_refl 1)
  have types := same "ty" (by decide) (Nat.le_refl 1)
  obtain ⟨members, rfl⟩ : ∃ members, part = .object members := by
    have kind := second.kind_eq.trans object
    cases part with
    | object members => exact ⟨members, rfl⟩
    | _ => cases kind
  refine ⟨_, second, ?_⟩
  rw [fieldOf?_ofJson names (by rw [types]; exact Nat.le_refl 1), typeAmong?_ofMembers, types]
  exact Option.map_map _ _ _

end

/-! ## Rules -/

theorem kind_toJson (rule : Rule) : rule.toJson.kind = .object := by
  cases rule <;> rfl

theorem stringsOf?_ofItems (strings : List String) :
    stringsOf? (Raw.ofItems (strings.map .string)) = some strings := by
  induction strings with
  | nil => rfl
  | cons s rest ih =>
    rw [List.map_cons, Raw.ofItems, Raw.ofJson, stringsOf?, ih]
    rfl

mutual

/-- Each rearrangement of a serialized rule is read as the rule, also as part of what is kept. -/
theorem ofRaw?_toJson : ∀ (rule : Rule) {value : Json} (kept : Bool),
    Rearranged .rule rule.toJson value → ofRaw? kept (.ofJson value) = some rule
  | array, _, kept, rearranged => ofRaw?_bare rearranged rfl kept
  | boolean, _, kept, rearranged => ofRaw?_bare rearranged rfl kept
  | number, _, kept, rearranged => ofRaw?_bare rearranged rfl kept
  | object, _, kept, rearranged => ofRaw?_bare rearranged rfl kept
  | string, _, kept, rearranged => ofRaw?_bare rearranged rfl kept
  | booleanLiteral b, _, kept, rearranged => by
    obtain ⟨part, inside, same, reads⟩ := ofRaw?_filled rearranged rfl kept
    cases same
    exact reads
  | numberLiteral n, _, kept, rearranged => by
    obtain ⟨part, inside, same, reads⟩ := ofRaw?_filled rearranged rfl kept
    cases same
    exact reads
  | stringLiteral s, _, kept, rearranged => by
    obtain ⟨part, inside, same, reads⟩ := ofRaw?_filled rearranged rfl kept
    cases same
    exact reads
  | enumeration members, _, kept, rearranged => by
    obtain ⟨part, inside, same, reads⟩ := ofRaw?_filled rearranged rfl kept
    obtain ⟨notArray, _⟩ | items | _ := same
    · exact absurd rfl notArray
    · rw [reads, items.eq_strings, Raw.ofJson, ofContent?, if_pos rfl, stringsOf?_ofItems]
      rfl
  | pattern fields, _, kept, rearranged => by
    obtain ⟨part, inside, same, reads⟩ := ofRaw?_filled rearranged rfl kept
    obtain ⟨notArray, _⟩ | items | _ := same
    · exact absurd rfl notArray
    · rw [reads, Raw.ofJson, ofContent?, if_pos rfl,
        fieldsOf?_fieldsToJson fields inside items]
      rfl

/-- Each rearrangement of some serialized properties is read as the properties. -/
theorem fieldsOf?_fieldsToJson : ∀ (fields : List (Field Rule)) {values : List Json} (kept : Bool),
    RearrangedItems .property (fieldsToJson fields) values →
      fieldsOf? kept (Raw.ofItems values) = some fields
  | [], _, kept, rearranged => by
    cases rearranged
    rfl
  | ⟨name, none⟩ :: rest, _, kept, rearranged => by
    obtain _ | ⟨first, behind⟩ := rearranged
    rw [Raw.ofItems, fieldsOf?, fieldOf?_untyped first, fieldsOf?_fieldsToJson rest kept behind]
    rfl
  | ⟨name, some rule⟩ :: rest, _, kept, rearranged => by
    obtain _ | ⟨first, behind⟩ := rearranged
    obtain ⟨part, same, reads⟩ := fieldOf?_typed rule.kind_toJson first kept
    rw [Raw.ofItems, fieldsOf?, reads, ofRaw?_toJson rule kept same,
      fieldsOf?_fieldsToJson rest kept behind]
    rfl

end

/-- A serialized rule reads back, whatever lists it has that are empty or name something twice: the
same rule with the same numbers, in the same form.  So does every value that differs from it in the
order of the members of its rules and properties, and in members of other names that these have
besides. -/
theorem ofSerial?_toJson (rule : Rule) :
    ofSerial? (.ofJson rule.toJson) = some rule ∧
      ∀ value, Rearranged .rule rule.toJson value → ofSerial? (.ofJson value) = some rule := by
  have reads {value : Json} (rearranged : Rearranged .rule rule.toJson value) :
      ofSerial? (.ofJson value) = some rule := by
    rw [ofSerial?, if_pos (Raw.isWellFormed_ofJson value)]
    exact ofRaw?_toJson rule false rearranged
  exact ⟨reads (.refl .rule rule.toJson), fun value => reads⟩

/-- A pattern that no source text denotes: it lists a name twice, and an empty enumeration. -/
def unruly : Rule := pattern [⟨"n", some (enumeration [])⟩, ⟨"n", none⟩]

/-- Its serialized form from back to front, with members that are known in objects of the other sort
only. -/
def shuffledForm : Json :=
  .object [("name", .null), ("value", .array [
      .object [("kind", .bool true), ("ty", .object [("value", .array []),
        ("kind", .string "enumeration")]), ("name", .string "n")],
      .object [("name", .string "n")]]),
    ("kind", .string "object_pattern")]

theorem shuffledForm_rearranged : Rearranged .rule unruly.toJson shuffledForm := by
  have names : Rearranged .rule (enumeration []).toJson
      (.object [("value", .array []), ("kind", .string "enumeration")]) :=
    @Rearranged.object _ _ _ [] _ (.refl _ _) (by simp) (List.reverse_perm [_, _])
  have typed : Rearranged .property
      (.object [("name", .string "n"), ("ty", (enumeration []).toJson)])
      (.object [("kind", .bool true), ("ty", .object [("value", .array []),
        ("kind", .string "enumeration")]), ("name", .string "n")]) :=
    @Rearranged.object _ _ _ [("kind", .bool true)] _ (.cons (.refl _ _) (.cons names .nil))
      (by decide) (List.reverse_perm [_, _, _])
  exact @Rearranged.object _ _ _ [("name", .null)] _
    (.cons (.refl _ _) (.cons (.array (.cons typed (.cons (.refl _ _) .nil))) .nil))
    (by decide) (List.reverse_perm [_, _, _])

theorem ofSerial?_shuffledForm :
    Rearranged .rule unruly.toJson shuffledForm ∧
      ofSerial? (.ofJson shuffledForm) = some unruly :=
  ⟨shuffledForm_rearranged, (ofSerial?_toJson unruly).2 _ shuffledForm_rearranged⟩

end Rule

end JsonShape
