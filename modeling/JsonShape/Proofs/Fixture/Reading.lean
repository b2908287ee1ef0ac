import JsonShape.Fixture.Run
import JsonShape.Proofs.Decode

/-!
# What fixture files say

* `Case.Denotes`, `Suite.Denotes`: what a text has to say to stand for a case or a suite.  A case
  expects a value exactly if there is a text for one, whatever value that text has.
* `FileSystem.HoldsSuites`: a file reads as some suites.
* `FileSystem.HoldsSuites.denotes`: then it is an array of texts for them.
-/

namespace JsonShape

open Decoder

variable {α : Type}

/-! ## Cases -/

namespace Case

/-- A text stands for a case: it has a text for the input, and one for what is expected exactly if
anything is. -/
structure Denotes (raw : Raw) (case : Case) : Prop where
  input : (raw.part? "input" 0).bind Raw.value? = some case.input
  expected : (raw.part? "expected" 1).map Raw.value? = case.expected.map some

theorem takes_input {raw : Raw} {draft : Draft}
    (drafted : record "Case" slots ⟨none, none⟩ raw = .ok draft) :
    ∃ input, draft.input = some input ∧ Takes any none (raw.part? "input" 0) input := by
  refine @takes_of_record _ _ "input" any Draft.input _ none [] _ _ _ "Case" raw ?_ ?_ rfl drafted
  · exact List.forall_mem_singleton.mpr (foreign_slot (by decide) fun _ _ => rfl)
  · exact fun _ _ => rfl

theorem takes_expected {raw : Raw} {draft : Draft}
    (drafted : record "Case" slots ⟨none, none⟩ raw = .ok draft) :
    ∃ expected, draft.expected = some expected ∧
      Takes (fun raw => (any raw).map some) (some none) (raw.part? "expected" 1) expected := by
  refine @takes_of_record _ _ "expected" _ Draft.expected _ _ [_] [] _ _ "Case" raw ?_ ?_ rfl
    drafted
  · exact List.forall_mem_singleton.mpr (foreign_slot (by decide) fun _ _ => rfl)
  · exact fun _ _ => rfl

theorem denotes_of_decoder {raw : Raw} {case : Case} (decoded : decoder raw = .ok case) :
    Denotes raw case := by
  rw [decoder] at decoded
  split at decoded
  · cases decoded
  · next input expected drafted =>
    cases decoded
    constructor
    · obtain ⟨value, same, takes⟩ := takes_input drafted
      cases same
      obtain ⟨text, has, read⟩ := takes_required_iff.mp takes
      rw [has, Option.bind_some, any_eq_ok_iff.mp read]
    · obtain ⟨value, same, takes⟩ := takes_expected drafted
      cases same
      generalize raw.part? "expected" 1 = part at takes ⊢
      cases takes with
      | given read =>
        obtain ⟨value, has, rfl⟩ := map_eq_ok_iff.mp read
        exact congrArg some (any_eq_ok_iff.mp has)
      | missing default =>
        cases default
        rfl
  · cases decoded

/-- What a case says can be read from a text: it nests to some depth, and its objects name every
member once. -/
structure Readable (case : Case) : Prop where
  input : ∃ levels, case.input.Readable levels
  expected : ∀ value, case.expected = some value → ∃ levels, value.Readable levels

theorem Denotes.readable {raw : Raw} {case : Case} (denotes : Denotes raw case) :
    case.Readable := by
  constructor
  · obtain ⟨text, _, valued⟩ := Option.bind_eq_some_iff.mp denotes.input
    exact Raw.exists_readable valued
  · intro value same
    have given := denotes.expected
    rw [same, Option.map_some] at given
    obtain ⟨text, _, valued⟩ := Option.map_eq_some_iff.mp given
    exact Raw.exists_readable valued

end Case

/-! ## Suites -/

namespace Suite

/-- A text stands for a suite: it has its three strings, and an array of texts for the cases. -/
structure Denotes (raw : Raw) (suite : Suite) : Prop where
  name : raw.part? "name" 0 = some (.string suite.name)
  source : raw.part? "source" 1 = some (.string suite.source)
  typeName : raw.part? "type" 2 = some (.string suite.typeName)
  cases : ∃ texts, raw.part? "cases" 3 = some (.array texts true) ∧
    List.Forall₂ Case.Denotes texts suite.cases

theorem foreign_three {name : String} {get : Draft → Option α} {a b c : Slot Draft}
    (first : a.Foreign name get) (second : b.Foreign name get) (third : c.Foreign name get) :
    ∀ slot ∈ [a, b, c], slot.Foreign name get :=
  List.forall_mem_cons.mpr ⟨first, List.forall_mem_cons.mpr ⟨second,
    List.forall_mem_singleton.mpr third⟩⟩

section

variable {raw : Raw} {draft : Draft}
  (drafted : record "Suite" slots ⟨none, none, none, none⟩ raw = .ok draft)

include drafted

theorem takes_name :
    ∃ name, draft.name = some name ∧ Takes string none (raw.part? "name" 0) name := by
  refine @takes_of_record _ _ "name" _ Draft.name _ _ [] [_, _, _] _ _ "Suite" raw ?_ (fun _ _ => rfl) rfl
    drafted
  exact foreign_three (foreign_slot (by decide) fun _ _ => rfl)
    (foreign_slot (by decide) fun _ _ => rfl) (foreign_slot (by decide) fun _ _ => rfl)

theorem takes_source :
    ∃ source, draft.source = some source ∧ Takes string none (raw.part? "source" 1) source := by
  refine @takes_of_record _ _ "source" _ Draft.source _ _ [_] [_, _] _ _ "Suite" raw ?_ (fun _ _ => rfl) rfl
    drafted
  exact foreign_three (foreign_slot (by decide) fun _ _ => rfl)
    (foreign_slot (by decide) fun _ _ => rfl) (foreign_slot (by decide) fun _ _ => rfl)

theorem takes_typeName :
    ∃ typeName, draft.typeName = some typeName ∧
      Takes string none (raw.part? "type" 2) typeName := by
  refine @takes_of_record _ _ "type" _ Draft.typeName _ _ [_, _] [_] _ _ "Suite" raw ?_ (fun _ _ => rfl) rfl
    drafted
  exact foreign_three (foreign_slot (by decide) fun _ _ => rfl)
    (foreign_slot (by decide) fun _ _ => rfl) (foreign_slot (by decide) fun _ _ => rfl)

theorem takes_cases :
    ∃ cases, draft.cases = some cases ∧
      Takes (list Case.decoder) none (raw.part? "cases" 3) cases := by
  refine @takes_of_record _ _ "cases" _ Draft.cases _ _ [_, _, _] [] _ _ "Suite" raw ?_ (fun _ _ => rfl) rfl
    drafted
  exact foreign_three (foreign_slot (by decide) fun _ _ => rfl)
    (foreign_slot (by decide) fun _ _ => rfl) (foreign_slot (by decide) fun _ _ => rfl)

end

theorem denotes_of_decoder {raw : Raw} {suite : Suite} (decoded : decoder raw = .ok suite) :
    Denotes raw suite := by
  rw [decoder] at decoded
  split at decoded
  · cases decoded
  · next name source typeName cases drafted =>
    cases decoded
    constructor
    · obtain ⟨_, same, takes⟩ := takes_name drafted
      cases same
      exact takes_string_iff.mp takes
    · obtain ⟨_, same, takes⟩ := takes_source drafted
      cases same
      exact takes_string_iff.mp takes
    · obtain ⟨_, same, takes⟩ := takes_typeName drafted
      cases same
      exact takes_string_iff.mp takes
    · obtain ⟨_, same, takes⟩ := takes_cases drafted
      cases same
      obtain ⟨_, has, read⟩ := takes_required_iff.mp takes
      obtain ⟨texts, rfl, each⟩ := list_eq_ok_iff.mp read
      exact ⟨texts, has, each.imp fun _ _ => Case.denotes_of_decoder⟩
  · cases decoded

end Suite

/-! ## Files -/

/-- A file reads as some suites. -/
def FileSystem.HoldsSuites (files : FileSystem) (path : String) (suites : List Suite) : Prop :=
  ∃ text, files.read path = .ok text ∧ Suite.readAll text.toList = .ok suites

namespace FileSystem.HoldsSuites

variable {files : FileSystem} {path : String} {suites : List Suite}

/-- A file of suites starts with an array of texts for them. -/
theorem denotes (holds : files.HoldsSuites path suites) :
    ∃ text texts, files.read path = .ok text ∧
      (Raw.read Raw.maxDepth text.toList).1 = .array texts true ∧
        List.Forall₂ Suite.Denotes texts suites := by
  obtain ⟨text, read, decoded⟩ := holds
  obtain ⟨texts, same, each⟩ := list_eq_ok_iff.mp decoded
  exact ⟨text, texts, read, same, each.imp fun _ _ => Suite.denotes_of_decoder⟩

/-- What the cases of a file say is read from its text. -/
theorem readable (holds : files.HoldsSuites path suites) {suite : Suite} (listed : suite ∈ suites)
    {case : Case} (among : case ∈ suite.cases) : case.Readable := by
  obtain ⟨_, _, _, _, each⟩ := holds.denotes
  obtain ⟨raw, _, denotes⟩ := Raw.exists_left_of_mem each listed
  obtain ⟨texts, _, cases⟩ := denotes.cases
  obtain ⟨_, _, own⟩ := Raw.exists_left_of_mem cases among
  exact own.readable

theorem readable_of_gathers {paths : List String} (gathers : Gathers files.HoldsSuites paths suites)
    {suite : Suite} (listed : suite ∈ suites) : ∀ case ∈ suite.cases, case.Readable := by
  obtain ⟨_, _, own, holds, among⟩ := gathers.exists_of_mem listed
  exact fun case inside => holds.readable among inside

end FileSystem.HoldsSuites

end JsonShape
