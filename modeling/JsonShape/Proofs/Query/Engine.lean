import Mathlib.Data.List.Forall2
import JsonShape.Proofs.Gathers
import JsonShape.Query.Engine

/-!
# Answers of engines

What a query gives with any engine, said without the loop that reads its results.

* `QueryEngine.Answers` says which documents a query gives, and `QueryEngine.Fails` that it gives
  none.  A query does one or the other (`QueryEngine.exists_answers_iff`).
* `QueryEngine.documents_eq_ok_iff`: the documents of a query are those that it answers with.
-/

namespace JsonShape.QueryEngine

/-- A query gives some documents: the engine knows its filter, and every result of the filter is the
text of one of them, in order. -/
def Answers (engine : QueryEngine) (code : String) (input : Json) (values : List Json) : Prop :=
  ∃ filter, engine.compile code = .ok filter ∧
    List.Forall₂ (fun result value => result.bind Json.parse? = some value) (filter input) values

/-- A query fails: the engine has no filter for it, or one of the results of the filter, wherever it
is among them, is an error or not the text of a document. -/
inductive Fails (engine : QueryEngine) (code : String) (input : Json) : Prop
  | rejected {fault : FilterFault} (refused : engine.compile code = .error fault) :
    Fails engine code input
  | failed {filter : QueryFilter} (compiled : engine.compile code = .ok filter)
      (among : none ∈ filter input) : Fails engine code input
  | unreadable {filter : QueryFilter} {text : List Char}
      (compiled : engine.compile code = .ok filter) (among : some text ∈ filter input)
      (broken : Json.parse? text = none) : Fails engine code input

variable {engine : QueryEngine} {code : String} {input : Json}

theorem readResults_eq_ok_iff {position : Nat} {results : List (Option (List Char))}
    {values : List Json} :
    readResults code position results = .ok values ↔
      List.Forall₂ (fun result value => result.bind Json.parse? = some value) results values := by
  induction results generalizing position values with
  | nil => rw [List.forall₂_nil_left_iff, readResults, Except.ok.injEq, eq_comm]
  | cons result rest ih =>
    simp only [List.forall₂_cons_left_iff, ← @ih (position + 1)]
    cases result with
    | none => simp [readResults]
    | some text =>
      rw [readResults, Option.bind_some]
      cases Json.parse? text with
      | none => simp
      | some value => simp [map_eq_ok_iff, and_comm]

/-- The documents of a query are those that it answers with. -/
theorem documents_eq_ok_iff {values : List Json} :
    engine.documents code input = .ok values ↔ engine.Answers code input values := by
  unfold documents Answers
  cases engine.compile code with
  | error fault => simp
  | ok filter => simp [readResults_eq_ok_iff]

/-- What a query answers with is read from texts. -/
theorem Answers.exists_text {values : List Json} (answered : engine.Answers code input values) :
    ∀ value ∈ values, ∃ text, Json.parse? text = some value := by
  obtain ⟨filter, _, read⟩ := answered
  generalize filter input = results at read
  induction read with
  | nil => simp
  | cons first _ ih =>
    obtain ⟨text, _, parsed⟩ := Option.bind_eq_some_iff.mp first
    exact List.forall_mem_cons.mpr ⟨⟨text, parsed⟩, ih⟩

/-- All results of a filter are read exactly if each can be. -/
theorem exists_read_iff {results : List (Option (List Char))} :
    (∃ values, List.Forall₂ (fun result value => result.bind Json.parse? = some value) results
        values) ↔ ∀ result ∈ results, result.bind Json.parse? ≠ none := by
  induction results with
  | nil => simp
  | cons result rest ih =>
    rw [List.forall_mem_cons, ← ih, Option.ne_none_iff_exists']
    simp only [List.forall₂_cons_left_iff]
    constructor
    · rintro ⟨_, value, values, first, others, _⟩
      exact ⟨⟨value, first⟩, values, others⟩
    · rintro ⟨⟨value, first⟩, values, others⟩
      exact ⟨_, value, values, first, others, rfl⟩

/-- A query gives documents unless it fails. -/
theorem exists_answers_iff :
    (∃ values, engine.Answers code input values) ↔ ¬engine.Fails code input := by
  constructor
  · rintro ⟨values, filter, compiled, read⟩ fails
    have each := exists_read_iff.mp ⟨values, read⟩
    cases fails with
    | rejected refused => cases compiled.symm.trans refused
    | failed again among =>
      cases compiled.symm.trans again
      exact each _ among rfl
    | unreadable again among broken =>
      cases compiled.symm.trans again
      exact each _ among broken
  · intro sound
    cases compiled : engine.compile code with
    | error fault => exact absurd (.rejected compiled) sound
    | ok filter =>
      have each : ∀ result ∈ filter input, result.bind Json.parse? ≠ none := by
        intro result among broken
        cases result with
        | none => exact sound (.failed compiled among)
        | some text => exact sound (.unreadable compiled among broken)
      obtain ⟨values, read⟩ := exists_read_iff.mpr each
      exact ⟨values, filter, compiled, read⟩

end JsonShape.QueryEngine
