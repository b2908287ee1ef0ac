import JsonShape.Json.Raw
import JsonShape.Proofs.Json.Basic
import Mathlib.Data.List.Forall2

/-!
# Raw texts and their values

* `Raw.inductionOn`: induction on texts, in which a container may use what holds of its parts.
* `Raw.values?_eq_some_iff`, `Raw.entries?_eq_some_iff`: a container has a value if each of its parts
  has one.
* `Raw.ReadableWithin levels raw`: the value of a text nests no deeper than the levels, and its
  objects name every member once.  A container takes one level more than its parts
  (`Raw.readableWithin_array`, `Raw.readableWithin_object`), so some levels are enough for every text
  (`Raw.exists_readable`).
* `Raw.part?`: what a text has for a property of a record, by name or by position.
-/

namespace JsonShape.Raw

/-- Induction on texts.  Of an array something has to be shown if it holds of all items, of an object
if it holds of the texts of all members. -/
@[elab_as_elim]
theorem inductionOn {motive : Raw → Prop} (raw : Raw) (null : motive null)
    (bool : ∀ value, motive (bool value)) (number : ∀ value, motive (number value))
    (string : ∀ value, motive (string value))
    (array : ∀ (items : List Raw) (closed : Bool), (∀ item ∈ items, motive item) →
      motive (array items closed))
    (object : ∀ (members : List (Option String × Raw)) (closed : Bool),
      (∀ member ∈ members, motive member.2) → motive (object members closed))
    (unreadable : motive unreadable) (broken : motive broken) : motive raw := by
  refine @Raw.rec motive (fun items => ∀ item ∈ items, motive item)
    (fun members => ∀ member ∈ members, motive member.2) (fun member => motive member.2)
    null bool number string (fun items closed => array items closed)
    (fun members closed => object members closed) unreadable broken ?_ ?_ ?_ ?_ ?_ raw
  · intro item listed
    cases listed
  · exact fun item items first others => List.forall_mem_cons.mpr ⟨first, others⟩
  · intro member listed
    cases listed
  · exact fun member members first others => List.forall_mem_cons.mpr ⟨first, others⟩
  · exact fun name value holds => holds

/-! ## Values of containers -/

/-- What stands on the right of related lists is related to something on the left. -/
theorem exists_left_of_mem {α β : Type} {R : α → β → Prop} {as : List α} {bs : List β} {b : β}
    (each : List.Forall₂ R as bs) (listed : b ∈ bs) : ∃ a ∈ as, R a b := by
  induction each with
  | nil => cases listed
  | cons first _ ih =>
    rcases List.mem_cons.mp listed with rfl | later
    · exact ⟨_, List.mem_cons_self, first⟩
    · obtain ⟨a, among, related⟩ := ih later
      exact ⟨a, List.mem_cons_of_mem _ among, related⟩

theorem values?_eq_some_iff {raws : List Raw} {values : List Json} :
    values? raws = some values ↔
      List.Forall₂ (fun raw value => raw.value? = some value) raws values := by
  induction raws generalizing values with
  | nil => rw [List.forall₂_nil_left_iff, values?, Option.some_inj, eq_comm]
  | cons raw rest ih =>
    simp only [values?, Option.bind_eq_some_iff, Option.map_eq_some_iff, ih,
      List.forall₂_cons_left_iff]
    constructor
    · rintro ⟨value, first, others, each, rfl⟩
      exact ⟨value, others, first, each, rfl⟩
    · rintro ⟨value, others, first, each, rfl⟩
      exact ⟨value, first, others, each, rfl⟩

theorem entries?_eq_some_iff {members : List (Option String × Raw)}
    {entries : List (String × Json)} :
    entries? members = some entries ↔
      List.Forall₂ (fun member entry => member.1 = some entry.1 ∧ member.2.value? = some entry.2)
        members entries := by
  induction members generalizing entries with
  | nil => rw [List.forall₂_nil_left_iff, entries?, Option.some_inj, eq_comm]
  | cons member rest ih =>
    obtain ⟨name, raw⟩ := member
    simp only [entries?, Option.bind_eq_some_iff, Option.map_eq_some_iff, ih,
      List.forall₂_cons_left_iff]
    constructor
    · rintro ⟨name, named, value, first, others, each, rfl⟩
      exact ⟨(name, value), others, ⟨named, first⟩, each, rfl⟩
    · rintro ⟨⟨name, value⟩, others, ⟨named, first⟩, each, rfl⟩
      exact ⟨name, named, value, first, others, each, rfl⟩

/-! ## Depth -/

/-- The value of a text, if it has one, can be read with so many levels of containers. -/
def ReadableWithin (levels : Nat) (raw : Raw) : Prop :=
  ∀ value, raw.value? = some value → value.Readable levels

theorem ReadableWithin.mono {levels more : Nat} {raw : Raw} (within : raw.ReadableWithin levels)
    (atMost : levels ≤ more) : raw.ReadableWithin more :=
  fun value valued => (within value valued).mono atMost

/-- What is no container takes no level. -/
theorem readableWithin_scalar (levels : Nat) {raw : Raw}
    (noArray : ∀ items closed, raw ≠ array items closed)
    (noObject : ∀ members closed, raw ≠ object members closed) : raw.ReadableWithin levels := by
  intro value valued
  cases raw with
  | null => exact Option.some.inj valued ▸ .null levels
  | bool b => exact Option.some.inj valued ▸ .bool levels b
  | number n => exact Option.some.inj valued ▸ .number levels n
  | string s => exact Option.some.inj valued ▸ .string levels s
  | array items closed => exact absurd rfl (noArray items closed)
  | object members closed => exact absurd rfl (noObject members closed)
  | unreadable => cases valued
  | broken => cases valued

/-- An array takes one more level than its items. -/
theorem readableWithin_array {levels : Nat} {items : List Raw} (closed : Bool)
    (inner : ∀ item ∈ items, item.ReadableWithin levels) :
    (array items closed).ReadableWithin (levels + 1) := by
  intro value valued
  rw [value?, Option.ite_none_right_eq_some] at valued
  obtain ⟨values, given, rfl⟩ := Option.map_eq_some_iff.mp valued.2
  refine .array fun value listed => ?_
  obtain ⟨item, among, own⟩ := exists_left_of_mem (values?_eq_some_iff.mp given) listed
  exact inner item among value own

/-- An object takes one more level than its members, and has each name once. -/
theorem readableWithin_object {levels : Nat} {members : List (Option String × Raw)} (closed : Bool)
    (inner : ∀ member ∈ members, member.2.ReadableWithin levels) :
    (object members closed).ReadableWithin (levels + 1) := by
  intro value valued
  rw [value?, Option.ite_none_right_eq_some] at valued
  obtain ⟨entries, given, rfl⟩ := Option.map_eq_some_iff.mp valued.2
  refine .object (Entries.nodup_names_collect entries) fun entry listed => ?_
  obtain ⟨member, here, _, own⟩ :=
    exists_left_of_mem (entries?_eq_some_iff.mp given) (Entries.mem_collect listed)
  exact inner member here entry.2 own

/-- Levels that are enough for each of some texts in turn are enough for all of them at once. -/
theorem exists_levels {α : Type} {f : α → Raw} {listed : List α}
    (each : ∀ a ∈ listed, ∃ levels, (f a).ReadableWithin levels) :
    ∃ levels, ∀ a ∈ listed, (f a).ReadableWithin levels := by
  induction listed with
  | nil => exact ⟨0, fun _ none => absurd none List.not_mem_nil⟩
  | cons a rest ih =>
    obtain ⟨⟨own, first⟩, later⟩ := List.forall_mem_cons.mp each
    obtain ⟨more, others⟩ := ih later
    exact ⟨max own more, List.forall_mem_cons.mpr
      ⟨first.mono (Nat.le_max_left _ _), fun b among => (others b among).mono (Nat.le_max_right _ _)⟩⟩

theorem exists_readableWithin (raw : Raw) : ∃ levels, raw.ReadableWithin levels := by
  induction raw using inductionOn with
  | array items closed ih =>
    obtain ⟨levels, inner⟩ := @exists_levels _ id items ih
    exact ⟨levels + 1, readableWithin_array closed inner⟩
  | object members closed ih =>
    obtain ⟨levels, inner⟩ := @exists_levels _ Prod.snd members ih
    exact ⟨levels + 1, readableWithin_object closed inner⟩
  | _ => exact ⟨0, readableWithin_scalar 0 nofun nofun⟩

/-- A value of a text nests to some depth, and its objects name every member once. -/
theorem exists_readable {raw : Raw} {value : Json} (valued : raw.value? = some value) :
    ∃ levels, value.Readable levels := by
  obtain ⟨levels, within⟩ := raw.exists_readableWithin
  exact ⟨levels, within value valued⟩

/-! ## Parts by name or position -/

/-- What a text has for a property of a record: an object has its first member of the property's
name, and an array its item at the property's position. -/
def part? : Raw → String → Nat → Option Raw
  | object members _, name, _ =>
    (members.find? fun member => member.1 == some name).map Prod.snd
  | array items _, _, position => items[position]?
  | _, _, _ => none

end JsonShape.Raw
