import JsonShape.Json.Pointer
import JsonShape.Proofs.Entries

/-!
# Values and their parts

* `Json.inductionOn`: induction on values, in which a container may use what holds of its parts.
* `Json.Readable levels value`: so many levels of containers are enough for the value, and no object
  in it names a member twice.  Only such values are read from a text.
* `Json.AllNumbers P value`: all numbers in the value satisfy `P`.
* `Json.mapNumbers f value`: the value with `f` applied to all its numbers.

What holds of a value in one of these ways holds of what a pointer leads to.
-/

namespace JsonShape.Json

/-- Induction on values.  Of an array something has to be shown if it holds of all items, of an
object if it holds of the values of all members. -/
@[elab_as_elim]
theorem inductionOn {motive : Json → Prop} (value : Json) (null : motive null)
    (bool : ∀ value, motive (bool value)) (number : ∀ value, motive (number value))
    (string : ∀ value, motive (string value))
    (array : ∀ items : List Json, (∀ item ∈ items, motive item) → motive (array items))
    (object : ∀ members : List (String × Json), (∀ member ∈ members, motive member.2) →
      motive (object members)) :
    motive value := by
  refine @Json.rec motive (fun items => ∀ item ∈ items, motive item)
    (fun members => ∀ member ∈ members, motive member.2) (fun member => motive member.2)
    null bool number string array object ?_ ?_ ?_ ?_ ?_ value
  · intro item listed
    cases listed
  · exact fun item items first others => List.forall_mem_cons.mpr ⟨first, others⟩
  · intro member listed
    cases listed
  · exact fun member members first others => List.forall_mem_cons.mpr ⟨first, others⟩
  · exact fun name value holds => holds

/-! ## Values that can be read -/

/-- A value whose containers nest at most so many levels deep, and whose objects name each member
once. -/
inductive Readable : Nat → Json → Prop
  | null (levels : Nat) : Readable levels null
  | bool (levels : Nat) (value : Bool) : Readable levels (bool value)
  | number (levels : Nat) (value : Number) : Readable levels (number value)
  | string (levels : Nat) (value : String) : Readable levels (string value)
  | array {levels : Nat} {items : List Json} (inner : ∀ item ∈ items, Readable levels item) :
    Readable (levels + 1) (array items)
  | object {levels : Nat} {members : List (String × Json)}
      (distinct : (Entries.names members).Nodup)
      (inner : ∀ member ∈ members, Readable levels member.2) :
    Readable (levels + 1) (object members)

theorem Readable.mono {levels more : Nat} {value : Json} (readable : value.Readable levels)
    (atMost : levels ≤ more) : value.Readable more := by
  induction readable generalizing more with
  | null => exact .null more
  | bool _ b => exact .bool more b
  | number _ n => exact .number more n
  | string _ s => exact .string more s
  | array _ ih =>
    obtain ⟨fewer, rfl⟩ := Nat.exists_eq_add_of_lt atMost
    exact .array fun item listed => ih item listed (Nat.le_add_right _ _)
  | object distinct _ ih =>
    obtain ⟨fewer, rfl⟩ := Nat.exists_eq_add_of_lt atMost
    exact .object distinct fun member listed => ih member listed (Nat.le_add_right _ _)

/-! ## Numbers in values -/

/-- All numbers in a value satisfy a predicate. -/
inductive AllNumbers (P : Number → Prop) : Json → Prop
  | null : AllNumbers P null
  | bool (value : Bool) : AllNumbers P (bool value)
  | number {value : Number} (holds : P value) : AllNumbers P (number value)
  | string (value : String) : AllNumbers P (string value)
  | array {items : List Json} (inner : ∀ item ∈ items, AllNumbers P item) :
    AllNumbers P (array items)
  | object {members : List (String × Json)} (inner : ∀ member ∈ members, AllNumbers P member.2) :
    AllNumbers P (object members)

section

variable {P : Number → Prop}

theorem AllNumbers.imp {Q : Number → Prop} (weaker : ∀ n, P n → Q n) {value : Json}
    (all : value.AllNumbers P) : value.AllNumbers Q := by
  induction all with
  | null => exact .null
  | bool b => exact .bool b
  | number holds => exact .number (weaker _ holds)
  | string s => exact .string s
  | array _ ih => exact .array ih
  | object _ ih => exact .object ih

@[simp] theorem allNumbers_number {n : Number} : (number n).AllNumbers P ↔ P n :=
  ⟨fun | .number holds => holds, .number⟩

@[simp] theorem allNumbers_array {items : List Json} :
    (array items).AllNumbers P ↔ ∀ item ∈ items, item.AllNumbers P :=
  ⟨fun | .array inner => inner, .array⟩

@[simp] theorem allNumbers_object {members : List (String × Json)} :
    (object members).AllNumbers P ↔ ∀ member ∈ members, member.2.AllNumbers P :=
  ⟨fun | .object inner => inner, .object⟩

end

mutual

/-- A value with all its numbers replaced. -/
def mapNumbers (f : Number → Number) : Json → Json
  | number n => number (f n)
  | array items => array (mapItems f items)
  | object members => object (mapMembers f members)
  | value => value

/-- Several values with all their numbers replaced. -/
def mapItems (f : Number → Number) : List Json → List Json
  | [] => []
  | item :: rest => mapNumbers f item :: mapItems f rest

/-- Members with all numbers of their values replaced. -/
def mapMembers (f : Number → Number) : List (String × Json) → List (String × Json)
  | [] => []
  | (name, value) :: rest => (name, mapNumbers f value) :: mapMembers f rest

end

section

variable {f : Number → Number}

theorem mapItems_eq_self_iff {items : List Json} :
    mapItems f items = items ↔ ∀ item ∈ items, item.mapNumbers f = item := by
  induction items with
  | nil => simp [mapItems]
  | cons item rest ih => simp [mapItems, ih]

theorem mapMembers_eq_self_iff {members : List (String × Json)} :
    mapMembers f members = members ↔ ∀ member ∈ members, member.2.mapNumbers f = member.2 := by
  induction members with
  | nil => simp [mapMembers]
  | cons member rest ih =>
    obtain ⟨name, item⟩ := member
    simp [mapMembers, ih]

@[simp] theorem names_mapMembers (members : List (String × Json)) :
    Entries.names (mapMembers f members) = Entries.names members := by
  induction members with
  | nil => rfl
  | cons member rest ih => rw [mapMembers, Entries.names_cons, Entries.names_cons, ih]

/-- A value stays as it is exactly if all its numbers do. -/
theorem mapNumbers_eq_self_iff {value : Json} :
    value.mapNumbers f = value ↔ value.AllNumbers fun n => f n = n := by
  induction value using inductionOn with
  | null => exact iff_of_true rfl .null
  | bool b => exact iff_of_true rfl (.bool b)
  | number n => simp [mapNumbers]
  | string s => exact iff_of_true rfl (.string s)
  | array items ih =>
    simp only [mapNumbers, array.injEq, mapItems_eq_self_iff, allNumbers_array]
    exact forall₂_congr ih
  | object members ih =>
    simp only [mapNumbers, object.injEq, mapMembers_eq_self_iff, allNumbers_object]
    exact forall₂_congr ih

end

/-! ## Parts -/

/-- A part is an item or the value of a member. -/
theorem part_of_child? {value part : Json} {name : String} (found : value.child? name = some part) :
    (∃ items, value = array items ∧ part ∈ items) ∨
      ∃ members, value = object members ∧ (name, part) ∈ members := by
  cases value with
  | array items =>
    obtain ⟨index, _, listed⟩ := Option.bind_eq_some_iff.mp found
    exact .inl ⟨items, rfl, List.mem_of_getElem? listed⟩
  | object members => exact .inr ⟨members, rfl, Entries.mem_of_get? found⟩
  | _ => cases found

theorem Readable.at? {levels : Nat} {value part : Json} {pointer : Pointer}
    (readable : value.Readable levels) (found : value.at? pointer = some part) :
    part.Readable levels := by
  induction pointer generalizing value with
  | nil =>
    cases found
    exact readable
  | cons name rest ih =>
    obtain ⟨inner, first, others⟩ := Option.bind_eq_some_iff.mp found
    refine ih ?_ others
    rcases part_of_child? first with ⟨items, rfl, listed⟩ | ⟨members, rfl, listed⟩
    · cases readable with
      | array each => exact (each inner listed).mono (Nat.le_succ _)
    · cases readable with
      | object _ each => exact (each _ listed).mono (Nat.le_succ _)

end JsonShape.Json
