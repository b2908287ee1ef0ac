import JsonShape.Cli.Check
import JsonShape.Cli.Outcome
import JsonShape.Query.Builtin
import JsonShape.Schema

/-!
# Running commands

`Command.prepare` works out what a command delivers, and changes nothing.  `Command.run` delivers
it, or reports the first failure.  `Program.run` starts from the arguments.

A `Program` has an engine for its queries, and the texts that it tells about its use.  `runProgram`
is the one with the built-in engine.
-/

namespace JsonShape

/-- What a check delivers. -/
def checkDelivery (rule : Rule) (typeName : String) (lines : Bool) (documents : List Document)
    (output : Option String) : Delivery where
  text := String.join ((rule.accepted documents).map (writeDocument lines))
  output := output
  before := String.join ((rule.refused documents).map Refusal.notice)
  after := summary (rule.refused documents).length documents.length typeName
  succeeded := (rule.refused documents).isEmpty

namespace Command

/-- What a command delivers; an unknown type is noticed before any document is read. -/
def prepare (engine : QueryEngine) (surroundings : Surroundings) :
    Command → Except CliFailure Delivery
  | check definitions inputs selection typeName output =>
    match surroundings.loadDefinitions definitions with
    | .error failure => .error failure
    | .ok (registry, after) =>
      match registry.resolve typeName with
      | .error missing => .error (.undefinedType missing)
      | .ok rule =>
        match after.loadDocuments engine selection inputs with
        | .error failure => .error failure
        | .ok documents =>
          .ok (checkDelivery rule typeName selection.lines documents output)
  | schema definitions typeName output =>
    match surroundings.loadDefinitions definitions with
    | .error failure => .error failure
    | .ok (registry, _) =>
      match registry.schemaDocument typeName with
      | .error missing => .error (.undefinedType missing)
      | .ok document => .ok ⟨document.pretty ++ "\n", output, "", "", true⟩
  | types definitions asJson output =>
    match surroundings.loadDefinitions definitions with
    | .error failure => .error failure
    | .ok (registry, _) =>
      let text := if asJson then registry.toJson.pretty ++ "\n" else registry.render
      .ok ⟨text, output, "", "", true⟩

/-- The outcome of a command. -/
def run (engine : QueryEngine) (surroundings : Surroundings) (command : Command) : Outcome :=
  match command.prepare engine surroundings with
  | .error failure => .failed surroundings.files failure
  | .ok delivery => delivery.deliver surroundings.files

end Command

/-- What a program is made with: an engine for queries, and what it tells of its use to those who
ask for help with some arguments, and to those whose arguments it cannot use. -/
structure Program where
  engine : QueryEngine
  help : List String → String
  misuse : List String → String

namespace Program

/-- The name and the version of every program. -/
def versionText : String := "shapedef 0.1.0\n"

/-- The outcome of a run that carries out no command. -/
def stopped (program : Program) (files : FileSystem) (arguments : List String) : Stop → Outcome
  | .misuse => ⟨2, "", program.misuse arguments, files, none⟩
  | .help => ⟨0, program.help arguments, "", files, none⟩
  | .version => ⟨0, versionText, "", files, none⟩

/-- The outcome of a program. -/
def run (program : Program) (surroundings : Surroundings) (arguments : List String) : Outcome :=
  match Command.ofArguments arguments with
  | .error stop => program.stopped surroundings.files arguments stop
  | .ok command => command.run program.engine surroundings

/-- How the commands are called, in short. -/
def usage : String :=
  "usage: shapedef [-v] check -d FILE... -t TYPE -i FILE... [--ndjson] [--json-pointer POINTER]\n"
    ++ "                           [--jq-expr QUERY] [-o FILE]\n"
    ++ "       shapedef [-v] schema -d FILE... -t TYPE [-o FILE]\n"
    ++ "       shapedef [-v] types -d FILE... [--json] [-o FILE]\n"

/-- The program with the built-in engine, which tells the same of its use to everyone. -/
def builtin : Program := ⟨.builtin, fun _ => usage, fun _ => usage⟩

end Program

/-- The outcome of the program with the built-in engine. -/
def runProgram (surroundings : Surroundings) (arguments : List String) : Outcome :=
  Program.builtin.run surroundings arguments

end JsonShape
